import Applesauce.SharedHandles
import Applesauce.Statistics
import Applesauce.ScratchBudget
import Applesauce.Publication

/-!
# The threads that work on one file

A file passes from the scanning thread to a reader, a writer and, with
scratch space, a publisher; compressor threads hold blocks of it meanwhile.
Each owns a share of the file: the reservation, clones of the completion
guard and of the context, the sender of the acknowledgement. A share is
dropped piece by piece in the order of the code. Every access to what threads
share is one step, and a destructor runs in a step of its own.
-/

namespace Applesauce.FileThreads

open RustIo SharedHandles Statistics SourceGuard ScratchBudget StagedOutput
open Publication (Mode)

/-- A batch target and a scratch limit that `from_scratch` accepts. -/
structure BatchLimits where
  /-- The batch reservation target. -/
  target : ℕ
  /-- The scratch limit. -/
  limit : ℕ
  /-- The target is positive. -/
  target_pos : 0<target
  /-- The target is no larger than the scratch limit. -/
  target_le : target≤limit
  /-- The limit is a 64-bit number. -/
  limit_le : limit≤u64Max

/-- Where output is kept before it is published, if anywhere. -/
inductive Staging where
  /-- No scratch space. -/
  | direct
  /-- Scratch space, each reader reserving its own file. -/
  | scratch (limit : ℕ) (limit_le : limit≤u64Max)
  /-- Scratch space reserved by the scanning thread, in batches. -/
  | batched (limits : BatchLimits)

/-- `Scratch::limit`; zero where there is no scratch space. -/
def Staging.limit : Staging→ℕ
  | .direct => 0
  | .scratch limit _ => limit
  | .batched limits => limits.limit

/-- `OperationContext::scratch`, as far as a writer asks whether there is one. -/
def Staging.usesScratch : Staging→Bool
  | .direct => false
  | .scratch _ _ => true
  | .batched _ => true

/-- Whether the scanning thread has a `Batch`. -/
def Staging.isBatched : Staging→Bool
  | .direct => false
  | .scratch _ _ => false
  | .batched _ => true

/-- Every limit is a 64-bit number. -/
theorem Staging.limit_le (staging : Staging) : staging.limit≤u64Max := by
  cases staging with
  | direct => exact Nat.zero_le _
  | scratch limit h => exact h
  | batched limits => exact limits.limit_le

/-- What is fixed for one operation. -/
structure Config where
  /-- The mode of the operation. -/
  mode : Mode
  /-- Whether and how output is staged. -/
  staging : Staging
  /-- The number of compressor threads. -/
  compressors : ℕ
  /-- The number of publisher threads. -/
  publishers : ℕ

/-- The bytes reserved for a file of a given size. -/
def Config.request (config : Config) (size : ℕ) : ℕ :=
  match config.mode with
  | .compress kind => compressedReservationSize kind size
  | .decompressManually => size
  | .decompressByReading => size

/-- What a work item or a thread owns of a file. -/
inductive Owned where
  /-- The `Reservation`. -/
  | reservation
  /-- A clone of the `Completion`. -/
  | completion
  /-- An `Arc<Context>`. -/
  | context
  /-- The sender of the acknowledgement of a publication. -/
  | finished
  deriving DecidableEq,Repr

/-- How far a thread has come with a file. -/
inductive Stage where
  /-- The file has not come to this thread. -/
  | absent
  /-- The scanning thread has counted the file and still may skip it. -/
  | considered
  /-- The scanning thread has made the context and not sent it yet. -/
  | submitting
  /-- A work item in the channel. -/
  | queued
  /-- A reader in `Scratch::reserve`. -/
  | reserving
  /-- A reader about to open the file. -/
  | opening
  /-- A reader sending the file to the writers. -/
  | handing
  /-- A reader in `read_file_into`. -/
  | reading
  /-- A writer staging or writing, a publisher publishing. -/
  | working
  /-- A writer sending the staged file to the publishers. -/
  | sending
  /-- `report_new_stats` before the metadata is read. -/
  | reporting
  /-- `report_new_stats` before the end is counted. -/
  | counting
  /-- A publisher about to close the payload. -/
  | closing
  /-- The handler returns and drops what it owns. -/
  | leaving
  deriving DecidableEq,Repr

/-- One thread's share of a file. -/
structure Thread where
  /-- How far the thread has come. -/
  stage : Stage
  /-- What it owns, in the order in which it would be dropped. -/
  owned : List Owned
  deriving DecidableEq,Repr

/-- The threads a file passes through. -/
inductive Role where
  | reader
  | writer
  | publisher
  deriving DecidableEq,Repr

/-- What the scan found out about a file. -/
structure Found where
  /-- Its metadata. -/
  metadata : Metadata
  /-- The answer of `get_file_info`. -/
  info : FileInfo
  /-- How `save_times` fails, if it does. -/
  times : Option IoError
  /-- How many blocks a reader will find in the file at most. -/
  blocks : ℕ
  deriving DecidableEq,Repr

/-- The payload of a staged file. -/
inductive Payload where
  /-- Not staged. -/
  | absent
  /-- Staged and not closed. -/
  | staged
  /-- Closed. -/
  | closed
  /-- Closing it has failed. -/
  | closeFailed
  deriving DecidableEq,Repr

/-- A file that has been counted, and everything the threads hold of it. -/
structure File where
  /-- What the scan found out. -/
  found : Found
  /-- The number of the batch the file was admitted to, if any; only statements read it. -/
  batch : Option ℕ
  /-- The scanning thread until the file is sent, and then the reader. -/
  reader : Thread
  /-- The writer. -/
  writer : Thread
  /-- The publisher. -/
  publisher : Thread
  /-- What the `StagedFile` owns until a publisher has it. -/
  staged : List Owned
  /-- The payload of the staged file. -/
  payload : Payload
  /-- The number of blocks the reader may still send to the compressors. -/
  blocks : ℕ
  /-- The number of compressor work items, each with an `Arc<Context>`. -/
  jobs : ℕ
  /-- The context. -/
  context : Arc
  /-- Whether the context still holds its `Arc<OperationContext>`. -/
  operation : Bool
  /-- `Context::stats_reported`. -/
  reported : Bool
  /-- The completion guard; it is dropped by sending the message of the file. -/
  completion : Arc
  /-- Whether the scanning thread has received that message. -/
  received : Bool
  /-- `Reservation::bytes`, until the reservation is dropped. -/
  reservation : Option ℕ
  /-- Every call of `add_end_file` for the file. -/
  ends : List FileInfo
  deriving DecidableEq,Repr

/-- What all threads share. -/
structure Shared where
  /-- The data behind the mutex of the budget. -/
  usage : Usage
  /-- `OperationContext::stats`. -/
  stats : Stats
  /-- The handles of the operation. -/
  operations : ℕ
  /-- The value sent on `finished_stats`. -/
  sent : Option Stats
  /-- Acknowledgements sent and not received. -/
  acknowledged : ℕ
  /-- The panic of a failed assertion or of an operation that underflowed. -/
  fault : Option String
  deriving DecidableEq,Repr

/-- A file just counted. -/
def File.new (found : Found) : File where
  found := found
  batch := none
  reader := ⟨.considered,[]⟩
  writer := ⟨.absent,[]⟩
  publisher := ⟨.absent,[]⟩
  staged := []
  payload := .absent
  blocks := found.blocks
  jobs := 0
  context := .unmade
  operation := false
  reported := false
  completion := .unmade
  received := false
  reservation := none
  ends := []

/-- The share of one of the threads. -/
def File.thread (f : File) : Role→Thread
  | .reader => f.reader
  | .writer => f.writer
  | .publisher => f.publisher

/-- Change the share of one of the threads. -/
def File.setThread (f : File) (t : Thread) : Role→File
  | .reader => {f with reader := t}
  | .writer => {f with writer := t}
  | .publisher => {f with publisher := t}

/-- The completion guard does not belong to a share. -/
@[simp]
theorem File.setThread_completion (f : File) (t : Thread) (role : Role) :
    (f.setThread t role).completion=f.completion := by
  cases role <;> rfl

/-- The payload does not belong to a share. -/
@[simp]
theorem File.setThread_payload (f : File) (t : Thread) (role : Role) :
    (f.setThread t role).payload=f.payload := by
  cases role <;> rfl

/-- A call of `Scratch::reserve_bytes` that returns now: granted, refused, or neither
while it has to wait. -/
def reserveBytes (limit bytes : ℕ) (s : Shared) : Option (Bool×Shared) :=
  if limit<bytes then some (false,s)
  else
    match tryReserve limit bytes s.usage with
    | .ok true usage => some (true,{s with usage := usage})
    | .ok false _ => none
    | .error (.error _) usage => some (false,{s with usage := usage})
    | .error (.panic message) usage => some (false,{s with usage := usage, fault := some message})

/-- Give bytes back to the budget. -/
def giveBack (bytes : ℕ) (s : Shared) : Shared :=
  match release bytes s.usage with
  | .ok _ usage => {s with usage := usage}
  | .error (.error _) usage => {s with usage := usage}
  | .error (.panic message) usage => {s with usage := usage, fault := some message}

/-- `Drop for Reservation`. -/
def dropReservation (f : File) (s : Shared) : File×Shared :=
  ({f with reservation := none},giveBack (f.reservation.getD 0) s)

/-- `Reservation::shrink_to` below the size of the reservation. -/
def shrinkTo (bytes : ℕ) (f : File) (s : Shared) : File×Shared :=
  ({f with reservation := some bytes},giveBack (f.reservation.getD 0-bytes) s)

/-- Drop one thing a thread owns. -/
def Owned.drop (o : Owned) (f : File) (s : Shared) : File×Shared :=
  match o with
  | .reservation => dropReservation f s
  | .completion => ({f with completion := f.completion.release},s)
  | .context => ({f with context := f.context.release},s)
  | .finished => (f,{s with acknowledged := s.acknowledged+1})

/-- `Stats::add_end_file` for a file. -/
def addEnd (info : FileInfo) (f : File) (s : Shared) : File×Shared :=
  ({f with ends := f.ends++[info]},{s with stats := s.stats.addEndFile info})

/-- Drop a handle of the operation; the last one sends the statistics. -/
def Shared.dropOperation (s : Shared) : Shared :=
  if s.operations=1 then {s with operations := 0, sent := some s.stats, stats := .default}
  else {s with operations := s.operations-1}

/-- What the scanning thread sends to the readers. -/
def Staging.item : Staging→List Owned
  | .direct => [.context]
  | .scratch _ _ => [.context]
  | .batched _ => [.reservation,.completion,.context]

/-- What a reader owns once it has a reservation, where it needs one. -/
def Staging.reserved : Staging→List Owned
  | .direct => [.context]
  | .scratch _ _ => [.reservation,.context]
  | .batched _ => [.reservation,.completion,.context]

/-- What a reader keeps when the file has gone to the writers. -/
def Staging.kept : Staging→List Owned
  | .direct => [.context]
  | .scratch _ _ => [.context]
  | .batched _ => [.completion,.context]

/-- What a writer is sent, in the order in which a failed staging drops it. -/
def Staging.handed : Staging→List Owned
  | .direct => [.context]
  | .scratch _ _ => [.reservation,.context]
  | .batched _ => [.reservation,.context,.completion]

/-- What a publisher is sent. -/
def Staging.published : Staging→List Owned
  | .direct => []
  | .scratch _ _ => [.reservation,.context]
  | .batched _ => [.reservation,.context,.finished]

/-- The stage of a writer whose staged file is complete: `send_staged`. -/
def Staging.afterStaging : Staging→Stage
  | .direct => .leaving
  | .scratch _ _ => .sending
  | .batched _ => .leaving

/-- The stage in which a reader handles a work item. -/
def Staging.afterTake : Staging→Stage
  | .direct => .opening
  | .scratch _ _ => .reserving
  | .batched _ => .opening

/-- The completion guard after a clone for the writer, if there is one. -/
def Staging.cloneCompletion (completion : Arc) : Staging→Arc
  | .direct => completion
  | .scratch _ _ => completion
  | .batched _ => completion.clone

/-- The stage that follows `report_new_stats`. -/
def Role.afterReport : Role→Stage
  | .reader => .leaving
  | .writer => .leaving
  | .publisher => .closing

/-- The steps of the threads that work on one file. -/
inductive Move where
  /-- A reader takes the work item. -/
  | takeRead
  /-- `Scratch::reserve` returns to a reader. -/
  | reserve
  /-- `File::open` by a reader. -/
  | openFile (ok : Bool)
  /-- A reader sends the file to the writers. -/
  | hand
  /-- A reader sends a block to the compressors. -/
  | spawn
  /-- A compressor is done with a block. -/
  | finishJob
  /-- `read_file_into` and `tx.finish` have returned. -/
  | finishReading
  /-- A writer takes the work item. -/
  | takeWrite
  /-- `write_compressed_file` or `write_uncompressed_file` returns. -/
  | write (published : Bool)
  /-- `stage_compressed_file` or `stage_uncompressed_file` fails, or completes the staged
  file with a reservation of this size. -/
  | stage (outcome : Option ℕ)
  /-- A writer sends the staged file to the publishers. -/
  | sendStaged
  /-- A publisher takes the staged file. -/
  | takePublish
  /-- `PublishHandler::publish` returns. -/
  | publish (published : Bool)
  /-- `report_new_stats` reads the metadata of the path and sets the flag. -/
  | report (role : Role) (metadata : Bool)
  /-- `report_new_stats` counts the end. -/
  | count (role : Role) (info : FileInfo)
  /-- A publisher closes the payload, or stops the budget. -/
  | close (ok : Bool)
  /-- A thread drops the next thing it owns. -/
  | drop (role : Role)
  /-- `Drop for CompletionState`: the message of the file is sent. -/
  | sendMessage
  /-- `Drop for Context`. -/
  | dropContext
  /-- The context drops its handle of the operation. -/
  | dropOperation
  deriving DecidableEq,Repr

/-- `report_new_stats`, up to the assertion. -/
def reportNewStats (role : Role) (metadata : Bool) (f : File) (s : Shared) : File×Shared :=
  let owned := (f.thread role).owned
  if metadata then
    if f.reported then (f,{s with fault := some "stats already reported"})
    else ({f with reported := true}.setThread ⟨.counting,owned⟩ role,s)
  else (f.setThread ⟨role.afterReport,owned⟩ role,s)

/-- The end of a staging function: it fails, or the reservation is shrunk and `send_staged`
finishes the completion or goes on to the channel. -/
def finishStaging (staging : Staging) (outcome : Option ℕ) (f : File) (s : Shared) : File×Shared :=
  match outcome with
  | none => ({f with writer := ⟨.leaving,f.writer.owned⟩},s)
  | some kept =>
    let r := shrinkTo kept f s
    ({r.1 with
      staged := [.reservation,.context]
      payload := .staged
      writer := ⟨staging.afterStaging,staging.kept⟩},r.2)

/-- One step of a thread on one file, if the thread is there. -/
def File.step (config : Config) (move : Move) (f : File) (s : Shared) : Option (File×Shared) :=
  match move with
  | .takeRead =>
    if f.reader.stage=.queued then
      some ({f with reader := ⟨config.staging.afterTake,f.reader.owned⟩},s)
    else none
  | .reserve =>
    if f.reader.stage=.reserving then
      match reserveBytes config.staging.limit (config.request f.found.metadata.len) s with
      | some (true,t) =>
        some ({f with
          reader := ⟨.opening,config.staging.reserved⟩
          reservation := some (config.request f.found.metadata.len)},t)
      | some (false,t) => some ({f with reader := ⟨.leaving,f.reader.owned⟩},t)
      | none => none
    else none
  | .openFile ok =>
    if f.reader.stage=.opening then
      some ({f with reader := ⟨if ok then .handing else .leaving,f.reader.owned⟩},s)
    else none
  | .hand =>
    if f.reader.stage=.handing then
      some ({f with
        reader := ⟨.reading,config.staging.kept⟩
        writer := ⟨.queued,config.staging.handed⟩
        context := f.context.clone
        completion := config.staging.cloneCompletion f.completion},s)
    else none
  | .spawn =>
    if f.reader.stage=.reading ∧ 0<f.blocks ∧ config.mode≠.decompressByReading then
      some ({f with
        blocks := f.blocks-1
        jobs := f.jobs+1
        context := f.context.clone},s)
    else none
  | .finishJob =>
    if 0<f.jobs then some ({f with jobs := f.jobs-1, context := f.context.release},s) else none
  | .finishReading =>
    if f.reader.stage=.reading then some ({f with reader := ⟨.leaving,f.reader.owned⟩},s) else none
  | .takeWrite =>
    if f.writer.stage=.queued then
      some ({f with
        writer := ⟨.working,f.writer.owned++[.context]⟩
        context := f.context.clone},s)
    else none
  | .write published =>
    if f.writer.stage=.working ∧ config.staging.usesScratch=false then
      some ({f with
        writer := ⟨if published then .reporting else .leaving,[.context]⟩
        context := f.context.release},s)
    else none
  | .stage outcome =>
    if f.writer.stage=.working ∧ config.staging.usesScratch=true ∧
        outcome.getD 0≤f.reservation.getD 0 then
      some (finishStaging config.staging outcome f s)
    else none
  | .sendStaged =>
    if f.writer.stage=.sending then
      some ({f with
        writer := ⟨.leaving,f.writer.owned⟩
        staged := []
        publisher := ⟨.queued,config.staging.published⟩},s)
    else none
  | .takePublish =>
    if f.publisher.stage=.queued then
      some ({f with publisher := ⟨.working,f.publisher.owned⟩},s)
    else none
  | .publish published =>
    if f.publisher.stage=.working then
      some ({f with publisher := ⟨if published then .reporting else .closing,f.publisher.owned⟩},s)
    else none
  | .report role metadata =>
    if (f.thread role).stage=.reporting then some (reportNewStats role metadata f s) else none
  | .count role info =>
    if (f.thread role).stage=.counting then
      some (addEnd info (f.setThread ⟨role.afterReport,(f.thread role).owned⟩ role) s)
    else none
  | .close ok =>
    if f.publisher.stage=.closing then
      some ({f with
        payload := if ok then .closed else .closeFailed
        publisher := ⟨.leaving,f.publisher.owned⟩},
        if ok then s else {s with usage := {s.usage with stopped := true}})
    else none
  | .drop role =>
    match f.thread role with
    | ⟨.leaving,o::owned⟩ => some (o.drop (f.setThread ⟨.leaving,owned⟩ role) s)
    | _ => none
  | .sendMessage =>
    if f.completion=.dropping then some ({f with completion := .dropped},s) else none
  | .dropContext =>
    if f.context=.dropping then
      some (if f.reported then ({f with context := .dropped},s)
        else addEnd f.found.info {f with context := .dropped} s)
    else none
  | .dropOperation =>
    if f.context=.dropped ∧ f.operation=true then
      some ({f with operation := false},s.dropOperation)
    else none

end Applesauce.FileThreads
