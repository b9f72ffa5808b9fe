import Applesauce.ScanRun
import Applesauce.TransitionSystem
import Applesauce.WorkerPool

/-!
# A scan with its channels and pools

The threads of a scan are few and the channels between them bounded. A reader
waits for room in the channel to the writers before it reads, for a slot of
the queue of its file before every block, and for room in the channel to the
compressors; a writer waits for the next slot, for its block, and for room in
the channel to the publishers; the scanning thread waits for room in the
channels to the readers and the publishers. Every step of the scan that waits
is possible here only when what it waits for is there. Every handler returns
to its pool: `handle_fn` does not catch a panic, which ends the thread, and
the runs here are those in which no handler panics.
-/

namespace Applesauce.PooledScan

open FileThreads ScanAdmission WorkerPool
open Publication (Mode)

section Definitions

/-- The sizes of the pools, and of the queue between the reader and the writer of a file. -/
structure Pools where
  /-- The readers. -/
  readers : Sizes
  /-- The compressors. -/
  compressors : Sizes
  /-- The writers. -/
  writers : Sizes
  /-- The publishers. -/
  publishers : Sizes
  /-- The capacity of `seq_queue::bounded`. -/
  slots : ℕ
  /-- It is not zero. -/
  slots_pos : 0< slots

/-- `BackgroundThreads::with_scratch_batch`, with the number of compressor threads, the capacity
of the queue of a file and the number of publishers, which depend on the machine and the options. -/
def Pools.withScratchBatch (compressors slots publishers : ℕ) (hcompressors : 0<compressors)
    (hslots : 0< slots) (hpublishers : 0<publishers) : Pools where
  readers := ⟨100*1024,8,by decide,by decide⟩
  compressors := ⟨8,compressors,by decide,hcompressors⟩
  writers := ⟨4,16,by decide,by decide⟩
  publishers := ⟨4,publishers,by decide,hpublishers⟩
  slots := slots
  slots_pos := hslots

/-- What has become of a slot that the writer has not received the value of. -/
inductive Block where
  /-- The reader has it. -/
  | reader
  /-- A compressor work item has it. -/
  | compressor
  /-- It was finished with a block. -/
  | filled
  /-- It was dropped or failed. -/
  | lost
  deriving DecidableEq,Repr

/-- Where a reader is in `read_file_into`. -/
inductive Reading where
  /-- Between two blocks. -/
  | deciding
  /-- In `prepare_send`. -/
  | preparing
  /-- It has a slot. -/
  | holding
  /-- Sending the block to the compressors. -/
  | sending
  deriving DecidableEq,Repr

/-- Where a writer is with a file. -/
inductive Writing where
  /-- Before `try_for_each`. -/
  | starting
  /-- Waiting for a slot. -/
  | receiving
  /-- Waiting for the block of the first slot. -/
  | awaiting
  /-- In the callback. -/
  | applying
  /-- In `Receiver::finish`, waiting for one more slot or the end. -/
  | finishing
  /-- After `try_for_each`. -/
  | ending
  deriving DecidableEq,Repr

/-- A file between its reader and its writer. -/
structure Feed where
  /-- Where the reader is. -/
  reading : Reading
  /-- How many blocks it will hand on at most. -/
  left : ℕ
  /-- The slots in the queue; while the writer waits for a block, the first is with it. -/
  blocks : List Block
  /-- Where the writer is. -/
  writing : Writing
  deriving DecidableEq,Repr

/-- Before the reader has the file. -/
def Feed.new (left : ℕ) : Feed := ⟨.deciding,left,[],.starting⟩

/-- The number of slots in the channel of the queue. -/
def Feed.queued (d : Feed) : ℕ :=
  (if d.writing=.awaiting then d.blocks.tail else d.blocks).length

/-- The slot of the reader goes on to the compressors, is finished or is dropped. -/
def Feed.settle (b : Block) (d : Feed) : Feed :=
  {d with reading := .deciding, blocks := d.blocks.map fun x => if x=.reader then b else x}

/-- The reader hands on a block. -/
def Feed.handOn (b : Block) (d : Feed) : Feed := {d.settle b with left := d.left-1}

/-- The writer drops the receiver. -/
def Feed.close (d : Feed) : Feed := {d with blocks := [], writing := .ending}

/-- The receiver of the queue exists. -/
def Receiving (f : File) (d : Feed) : Prop :=
  f.writer.stage=.queued ∨ f.writer.stage=.working ∧ d.writing≠.ending

instance (f : File) (d : Feed) : Decidable (Receiving f d) := inferInstanceAs (Decidable (_ ∨ _))

/-- The sender of the queue is gone. -/
def HungUp (f : File) : Prop := f.reader.stage=.leaving

instance (f : File) : Decidable (HungUp f) := inferInstanceAs (Decidable (_=_))

/-- `read_file_into` may return: between two blocks, when the receiver is gone, or without a
block for the slot, which a manual decompression prepares only for a block. -/
def Feed.MayFinish (mode : Mode) (f : File) (d : Feed) : Prop :=
  match d.reading with
  | .deciding => True
  | .preparing => ¬Receiving f d
  | .holding => mode≠.decompressManually
  | .sending => False

instance (mode : Mode) (f : File) (d : Feed) : Decidable (d.MayFinish mode f) := by
  unfold Feed.MayFinish
  split <;> infer_instance

/-- The function of the writer may return: in success after the loop, in failure also before
the loop and from the callback. -/
def Writing.mayReturn (ok : Bool) : Writing→Bool
  | .starting => !ok
  | .applying => !ok
  | .ending => true
  | _ => false

/-- Whether the slot at a position is the one a compressor has done, unless none of its slots
is left. -/
def Feed.Resolves (position : ℕ) (d : Feed) : Prop :=
  d.blocks[position]?=some .compressor ∨ .compressor∉d.blocks

instance (position : ℕ) (d : Feed) : Decidable (d.Resolves position) :=
  inferInstanceAs (Decidable (_ ∨ _))

/-- `Slot::finish` or `Slot::error` by a compressor. -/
def Feed.resolve (position : ℕ) (ok : Bool) (d : Feed) : Feed :=
  if d.blocks[position]?=some .compressor then
    {d with blocks := d.blocks.set position (if ok then .filled else .lost)}
  else d

/-- The steps of a reader and a writer between the steps of the scan. -/
inductive FeedEvent where
  /-- The reader calls `prepare_send`. -/
  | want
  /-- `prepare_send` returns a slot. -/
  | prepare
  /-- The reader has a block for the slot. -/
  | read
  /-- The reader finishes the slot with its block. -/
  | finishSlot
  /-- The writer calls `try_for_each`. -/
  | start
  /-- It receives a slot. -/
  | receive
  /-- It receives the block, or learns that there is none. -/
  | await
  /-- The callback returns. -/
  | apply
  /-- The queue has ended. -/
  | hangUp
  /-- `Receiver::finish` receives a slot, or learns that the queue has ended. -/
  | finish
  deriving DecidableEq,Repr

/-- One step of the reader or the writer of a file, if it is possible. -/
def Feed.step (mode : Mode) (slots : ℕ) (f : File) (d : Feed) : FeedEvent→Option Feed
  | .want =>
    if f.reader.stage=.reading ∧ d.reading=.deciding ∧ (mode=.decompressManually → 0< d.left) then
      some {d with reading := .preparing}
    else none
  | .prepare =>
    if f.reader.stage=.reading ∧ d.reading=.preparing ∧ Receiving f d ∧ d.queued< slots then
      some {d with reading := .holding, blocks := d.blocks++[.reader]}
    else none
  | .read =>
    if f.reader.stage=.reading ∧ d.reading=.holding ∧ 0< d.left ∧ mode≠.decompressByReading then
      some {d with reading := .sending}
    else none
  | .finishSlot =>
    if f.reader.stage=.reading ∧ d.reading=.holding ∧ 0< d.left ∧ mode=.decompressByReading then
      some (d.handOn .filled)
    else none
  | .start =>
    if f.writer.stage=.working ∧ d.writing=.starting then some {d with writing := .receiving}
    else none
  | .receive =>
    if f.writer.stage=.working ∧ d.writing=.receiving ∧ d.blocks≠[] then
      some {d with writing := .awaiting}
    else none
  | .await =>
    if f.writer.stage=.working ∧ d.writing=.awaiting then
      match d.blocks with
      | .filled::rest => some {d with blocks := rest, writing := .applying}
      | .lost::rest => some {d with blocks := rest, writing := .finishing}
      | _ => none
    else none
  | .apply =>
    if f.writer.stage=.working ∧ d.writing=.applying then some {d with writing := .receiving}
    else none
  | .hangUp =>
    if f.writer.stage=.working ∧ d.writing=.receiving ∧ d.blocks=[] ∧ HungUp f then
      some {d with writing := .finishing}
    else none
  | .finish =>
    if f.writer.stage=.working ∧ d.writing=.finishing ∧ (d.blocks≠[] ∨ HungUp f) then some d.close
    else none

/-- A scan with its pools. -/
structure State where
  /-- The scan. -/
  scan : ScanRun.State
  /-- The counted files between their readers and writers. -/
  feeds : List Feed
  /-- The files in the channel to the readers and with them. -/
  readers : Pool ℕ
  /-- For each compressor work item its file. -/
  compressors : Pool ℕ
  /-- The files in the channel to the writers and with them. -/
  writers : Pool ℕ
  /-- The files in the channel to the publishers and with them. -/
  publishers : Pool ℕ
  /-- The entries the walkers have not handed over, with the number of blocks in each. -/
  entries : List (DirEntry×ℕ)
  /-- The roots not walked yet. -/
  walks : ℕ
  deriving DecidableEq

/-- The steps of a scan with its pools. -/
inductive Event where
  /-- A step of the scan. -/
  | scan (e : ScanRun.Event)
  /-- A compressor takes a work item of this file. -/
  | takeJob (file : ℕ)
  /-- A compressor is done with a work item of this file, whose slot is at this position. -/
  | finishJob (file position : ℕ) (ok : Bool)
  /-- A step of the reader or the writer of this file. -/
  | feed (file : ℕ) (e : FeedEvent)
  deriving DecidableEq

/-- The state before the scan. -/
def State.initial (stopped : Bool) (entries : List (DirEntry×ℕ)) (walks : ℕ) : State where
  scan := .initial stopped
  feeds := []
  readers := .empty
  compressors := .empty
  writers := .empty
  publishers := .empty
  entries := entries
  walks := walks

/-- Change a file between its reader and its writer. -/
def State.setFeed (s : State) (i : ℕ) (d : Feed) : State := {s with feeds := s.feeds.set i d}

/-- A worker is done with a file. -/
def State.release (s : State) (i : ℕ) : Role→State
  | .reader => {s with readers := s.readers.release i}
  | .writer => {s with writers := s.writers.release i}
  | .publisher => {s with publishers := s.publishers.release i}

/-- What the channels and pools make of a step on a file, if they let it happen. -/
def allowsMove (config : Config) (pools : Pools) (s : State) (i : ℕ) (f : File) (d : Feed) :
    Move→Option State
  | .takeRead => (s.readers.take pools.readers i).map fun p => {s with readers := p}
  | .hand => (s.writers.send pools.writers i).map fun p => {s with writers := p}
  | .spawn =>
    if d.reading=.sending then
      (s.compressors.send pools.compressors i).map fun p =>
        {s.setFeed i (d.handOn .compressor) with compressors := p}
    else none
  | .finishJob => none
  | .finishReading =>
    if d.MayFinish config.mode f then some (s.setFeed i (d.settle .lost)) else none
  | .takeWrite => (s.writers.take pools.writers i).map fun p => {s with writers := p}
  | .write published =>
    if d.writing.mayReturn published then some (s.setFeed i d.close) else none
  | .stage outcome =>
    if d.writing.mayReturn outcome.isSome then some (s.setFeed i d.close) else none
  | .sendStaged => (s.publishers.send pools.publishers i).map fun p => {s with publishers := p}
  | .takePublish => (s.publishers.take pools.publishers i).map fun p => {s with publishers := p}
  | .drop role => some (if (f.thread role).owned.length=1 then s.release i role else s)
  | _ => some s

/-- The feed of an entry, if it is counted. -/
def newFeeds (config : Config) (entry : DirEntry) (blocks : ℕ) : List Feed :=
  match scanFile config.mode entry with
  | .skipped _ => []
  | _ => [.new blocks]

/-- What the channels and pools make of a step of the scan, if they let it happen. -/
def allows (config : Config) (pools : Pools) (s : State) : ScanRun.Event→Option State
  | .startWalk => if 0< s.walks then some {s with walks := s.walks-1} else none
  | .consider entry blocks =>
    match s.entries with
    | [] => none
    | next::rest =>
      if next=(entry,blocks) then
        some {s with entries := rest, feeds := s.feeds++newFeeds config entry blocks}
      else none
  | .send =>
    match s.scan.phase with
    | .sending i => (s.readers.send pools.readers i).map fun p => {s with readers := p}
    | _ => none
  | .finishWalk => if s.entries=[] ∧ s.walks=0 then some s else none
  | .batch .publish =>
    match s.scan.phase with
    | .publishing (i::_) _ _ _ =>
      (s.publishers.send pools.publishers i).map fun p => {s with publishers := p}
    | _ => none
  | .file i move =>
    match s.scan.files[i]?,s.feeds[i]? with
    | some f,some d => allowsMove config pools s i f d move
    | _,_ => none
  | _ => some s

/-- One step, if it is possible. No handler panics. -/
def step (config : Config) (pools : Pools) (s : State) : Event→Option State
  | .scan e =>
    match ScanRun.step config s.scan e,allows config pools s e with
    | some scan,some t => some {t with scan := scan}
    | _,_ => none
  | .takeJob i => (s.compressors.take pools.compressors i).map fun p => {s with compressors := p}
  | .finishJob i position ok =>
    match ScanRun.step config s.scan (.file i .finishJob),s.feeds[i]? with
    | some scan,some d =>
      if i∈s.compressors.busy ∧ d.Resolves position then
        some {s.setFeed i (d.resolve position ok) with
          scan := scan
          compressors := s.compressors.release i}
      else none
    | _,_ => none
  | .feed i e =>
    match s.scan.files[i]?,s.feeds[i]? with
    | some f,some d => (d.step config.mode pools.slots f e).map (s.setFeed i)
    | _,_ => none

end Definitions

end Applesauce.PooledScan
