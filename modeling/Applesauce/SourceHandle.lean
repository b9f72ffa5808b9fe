import Applesauce.SharedHandles
import Applesauce.SeqQueue
import Applesauce.Publication

/-!
# The handle of the source file

The reader opens the source, sends a clone of the handle with the queue to a
writer, reads into the queue, drops its own handle and only then finishes the
queue. The writer, or the publisher it hands the file to, compares the source
through exclusive access to its handle. Every statement of the three threads
that touches the handle or the queue is one step, and each thread may fail or
panic in between.
-/

namespace Applesauce.SourceHandle

open TransitionSystem SharedHandles SeqQueue
open Publication (Mode)

variable {τ ε : Type}

section Threads

/-- Where the writer leaves a file whose blocks it has received. -/
inductive Flow where
  /-- `finish_compressed_file` or `finish_uncompressed_file` by the writer itself. -/
  | direct
  /-- `send_staged` with the handle, without a completion guard. -/
  | scratch
  deriving DecidableEq,Repr

/-- What is fixed for one file. -/
structure Config (ε : Type) where
  /-- The capacity of the queue. -/
  capacity : ℕ
  /-- The converted `UnknownError`. -/
  unknown : ε
  /-- The mode of the operation. -/
  mode : Mode
  /-- `OperationContext::verify`. -/
  verify : Bool
  /-- Whether the operation has scratch space. -/
  flow : Flow

/-- The reader in `handle_item`, from the moment the file is open. -/
inductive ReaderStage (ε : Type) where
  /-- Sending the work item to the writers. -/
  | handing
  /-- In `read_file_into`. -/
  | reading
  /-- `read_file_into` has returned, and `file` is still there. -/
  | read (result : Except ε Unit)
  /-- `file` is dropped, and `tx` is not finished. -/
  | closed (result : Except ε Unit)
  /-- In `Sender::finish`. -/
  | finishing
  /-- `handle_item` is left. -/
  | returned
  /-- A panic has begun to unwind; the flag tells whether `file` is still there. -/
  | unwinding (holds : Bool)
  /-- Unwinding has dropped `tx`, which was declared after `file`. -/
  | orphaned

/-- The writer, and behind it the publisher, with the work item. -/
inductive WriterStage where
  /-- The work item is not sent. -/
  | absent
  /-- The work item waits, or its temporary file or payload is made. -/
  | preparing
  /-- In `Receiver::try_for_each`. -/
  | receiving
  /-- `try_for_each` has succeeded; the output is completed. -/
  | completing
  /-- The staged file waits, or a publisher copies it. -/
  | staged
  /-- In `verify_file`. -/
  | verifying
  /-- `expect` in `verify_file` has panicked. -/
  | panicked
  /-- The handle of the source is about to be dropped. -/
  | leaving
  /-- The handle of the source is dropped. -/
  | gone
  deriving DecidableEq,Repr

/-- What the threads share of one file. -/
structure State (τ ε : Type) where
  /-- The queue between reader and writer. -/
  queue : SeqQueue.State τ ε
  /-- The reader. -/
  reader : ReaderStage ε
  /-- The writer. -/
  writer : WriterStage
  /-- The `Arc<File>`. -/
  file : Arc

/-- The file has just been opened and the queue made. -/
def initial : State τ ε := ⟨SeqQueue.initial,.handing,.absent,.live 1⟩

/-- The handles of the file the reader has. -/
def ReaderStage.handles : ReaderStage ε→ℕ
  | .handing => 1
  | .reading => 1
  | .read _ => 1
  | .unwinding true => 1
  | .orphaned => 1
  | _ => 0

/-- The handles of the file the writer or the publisher has. -/
def WriterStage.handles : WriterStage→ℕ
  | .absent => 0
  | .gone => 0
  | _ => 1

/-- Dropping `file`: after reading, or last while unwinding. -/
def ReaderStage.dropFile : ReaderStage ε→Option (ReaderStage ε)
  | .read result => some (.closed result)
  | .orphaned => some .returned
  | _ => none

/-- Dropping `tx`: at the end of `finish`, or first while unwinding. -/
def ReaderStage.dropSender : ReaderStage ε→Option (ReaderStage ε)
  | .finishing => some .returned
  | .unwinding true => some .orphaned
  | .unwinding false => some .returned
  | _ => none

/-- A panic: no writer is left, a compressor is gone, or reporting an error panics. -/
def ReaderStage.panics : ReaderStage ε→Option (ReaderStage ε)
  | .handing => some (.unwinding true)
  | .reading => some (.unwinding true)
  | .closed _ => some (.unwinding false)
  | _ => none

/-- What follows when `try_for_each` has returned. -/
def WriterStage.afterReceiving : ReceiverState τ ε→Option WriterStage
  | .done (.ok _) => some .completing
  | .done (.error _) => some .leaving
  | _ => none

/-- What follows when the output is complete. -/
def Flow.afterCompleting : Flow→WriterStage
  | .direct => .verifying
  | .scratch => .staged

/-- A failure or a panic outside the comparison. -/
def WriterStage.fails : WriterStage→Option WriterStage
  | .preparing => some .leaving
  | .receiving => some .leaving
  | .completing => some .leaving
  | .staged => some .leaving
  | .verifying => some .leaving
  | _ => none

/-- Whether `Arc::get_mut` gives access. -/
def exclusive : Arc→Bool
  | .live handles => handles==1
  | _ => false

/-- `verify_file`: outside the manual mode the handle has to be the only one. -/
def verifyFile (config : Config ε) (file : Arc) : WriterStage :=
  if config.verify then
    match config.mode with
    | .decompressManually => .leaving
    | _ => if exclusive file then .leaving else .panicked
  else .leaving

/-- The queue after its receiver was dropped outside `try_for_each`. -/
def abandon (unknown : ε) (queue : SeqQueue.State τ ε) : SeqQueue.State τ ε :=
  {queue with receiver := .done (.error unknown), channel := []}

/-- The steps of the threads. -/
inductive Event (τ ε : Type) where
  /-- The reader sends a clone of the handle and the receiver to a writer. -/
  | hand
  /-- The reader prepares a slot. -/
  | prepareSend
  /-- `read_file_into` returns. -/
  | endReading (result : Except ε Unit)
  /-- The reader drops its handle. -/
  | dropFile
  /-- The reader finishes the queue with the result of reading. -/
  | finish
  /-- The reader's sender is dropped. -/
  | dropSender
  /-- The reader panics. -/
  | readerPanics
  /-- A step of a slot, by the reader or by a compressor. -/
  | slot (index : ℕ) (action : SlotAction τ ε)
  /-- The writer goes into `try_for_each`. -/
  | startReceiving
  /-- A step of `try_for_each`. -/
  | receive (event : SeqQueue.Event τ ε)
  /-- `try_for_each` has returned. -/
  | endReceiving
  /-- The output is complete. -/
  | complete
  /-- The publisher has copied the staged file. -/
  | copy
  /-- The comparison. -/
  | verify
  /-- The writer or the publisher fails. -/
  | writerFails
  /-- The writer's or the publisher's handle is dropped. -/
  | dropOriginal
  /-- The receiver is dropped without having returned. -/
  | dropBlocks

/-- A step that only the queue takes part in. -/
def State.withQueue (config : Config ε) (s : State τ ε) (event : SeqQueue.Event τ ε) :
    Option (State τ ε) :=
  (SeqQueue.step config.capacity config.unknown s.queue event).map
    (fun queue => {s with queue := queue})

/-- One step of one thread. -/
def step (config : Config ε) (s : State τ ε) : Event τ ε→Option (State τ ε)
  | .hand =>
    match s.reader with
    | .handing => some {s with reader := .reading, writer := .preparing, file := s.file.clone}
    | _ => none
  | .prepareSend =>
    match s.reader with
    | .reading => s.withQueue config .prepareSend
    | _ => none
  | .endReading result =>
    match s.reader with
    | .reading => some {s with reader := .read result}
    | _ => none
  | .dropFile =>
    s.reader.dropFile.map (fun reader => {s with reader := reader, file := s.file.release})
  | .finish =>
    match s.reader with
    | .closed result =>
      State.withQueue config {s with reader := .finishing} (.finishSender result)
    | _ => none
  | .dropSender =>
    match s.reader.dropSender with
    | some reader => State.withQueue config {s with reader := reader} .dropSender
    | none => none
  | .readerPanics => s.reader.panics.map (fun reader => {s with reader := reader})
  | .slot index action => s.withQueue config (.slot index action)
  | .startReceiving =>
    match s.writer with
    | .preparing => some {s with writer := .receiving}
    | _ => none
  | .receive event =>
    match s.writer with
    | .receiving => if event.isReceiver then s.withQueue config event else none
    | _ => none
  | .endReceiving =>
    match s.writer with
    | .receiving =>
      (WriterStage.afterReceiving s.queue.receiver).map (fun writer => {s with writer := writer})
    | _ => none
  | .complete =>
    match s.writer with
    | .completing => some {s with writer := config.flow.afterCompleting}
    | _ => none
  | .copy =>
    match s.writer with
    | .staged => some {s with writer := .verifying}
    | _ => none
  | .verify =>
    match s.writer with
    | .verifying => some {s with writer := verifyFile config s.file}
    | _ => none
  | .writerFails => s.writer.fails.map (fun writer => {s with writer := writer})
  | .dropOriginal =>
    match s.writer with
    | .leaving => some {s with writer := .gone, file := s.file.release}
    | _ => none
  | .dropBlocks =>
    if (s.writer=.leaving ∨ s.writer=.gone) ∧ s.queue.receiver.disconnected=false then
      some {s with queue := abandon config.unknown s.queue}
    else none

end Threads

section Queue

variable {capacity : ℕ} {unknown : ε} {q r : SeqQueue.State τ ε} {event : SeqQueue.Event τ ε}

/-- A sender that has finished with success stays so. -/
theorem finishedOk_step (h : SeqQueue.step capacity unknown q event=some r)
    (hq : q.sender.finishedOk) : r.sender.finishedOk := by
  by_cases hdrop : event=.dropSender
  · subst hdrop
    obtain ⟨next,hnext,rfl⟩ := Option.map_eq_some_iff.mp h
    exact (disconnect_cases hnext).1 hq
  · rw [step_sender h _ hdrop]
    · exact hq
    · rintro result rfl
      obtain ⟨hlive,_⟩ := step_finishSender h
      rw [hlive] at hq
      exact hq

/-- What the writer relies on: `try_for_each` succeeds only after `Sender::finish`
was called with success. -/
structure Delivers (q : SeqQueue.State τ ε) : Prop where
  /-- The queue agrees. -/
  agrees : Agrees q
  /-- Success comes from the sender. -/
  finished : q.receiver=.done (.ok ()) → q.sender.finishedOk

/-- An empty queue delivers. -/
theorem initial_delivers : Delivers (SeqQueue.initial : SeqQueue.State τ ε) :=
  ⟨initial_agrees,nofun⟩

/-- Every step of the queue delivers. -/
theorem Delivers.step (hq : Delivers q) (h : SeqQueue.step capacity unknown q event=some r) :
    Delivers r := by
  refine ⟨agrees_step hq.agrees h,fun hdone => finishedOk_step h ?_⟩
  by_cases hbefore : q.receiver=.done (.ok ())
  · exact hq.finished hbefore
  · obtain ⟨_,_,hcell,_⟩ := receiver_of_ne_takeResult h hdone hbefore
    exact hq.agrees.cellOk hcell

/-- A queue whose receiver was dropped delivers nothing. -/
theorem Delivers.abandon (hq : Delivers q) : Delivers (abandon unknown q) where
  agrees := ⟨hq.agrees.seen,hq.agrees.cellOk,fun _ => Or.inl ⟨_,rfl⟩,trivial⟩
  finished := nofun

end Queue

section Invariant

/-- How the stage of the reader shows in the sender. -/
def ReaderStage.Fits : ReaderStage ε→SenderState ε→Prop
  | .finishing,sender => ∃ result, sender=.finishing result
  | .returned,sender => ∃ result, sender=.gone result
  | .orphaned,sender => sender=.gone none
  | _,sender => sender=.live

/-- While the reader holds the file, the queue is not finished with success. -/
theorem ReaderStage.Fits.unfinished {reader : ReaderStage ε} {sender : SenderState ε}
    (h : reader.Fits sender) (hholds : reader.handles≠0) : ¬sender.finishedOk := by
  cases reader with
  | finishing => exact (hholds rfl).elim
  | returned => exact (hholds rfl).elim
  | closed result => exact (hholds rfl).elim
  | handing => rw [show sender=.live from h]; exact id
  | reading => rw [show sender=.live from h]; exact id
  | read result => rw [show sender=.live from h]; exact id
  | unwinding holds => rw [show sender=.live from h]; exact id
  | orphaned => rw [show sender=.gone none from h]; exact id

/-- The stages behind a successful `try_for_each`. -/
def WriterStage.received : WriterStage→Bool
  | .completing => true
  | .staged => true
  | .verifying => true
  | _ => false

/-- The invariant of every run. -/
structure Held (s : State τ ε) : Prop where
  /-- The queue delivers. -/
  queue : Delivers s.queue
  /-- The count of the file agrees with the handles of the threads. -/
  file : s.file.Counts (s.reader.handles+s.writer.handles)
  /-- The sender is where the reader is. -/
  sender : s.reader.Fits s.queue.sender
  /-- No work item is with the writer before it is sent. -/
  unsent : s.reader=.handing → s.writer=.absent
  /-- Behind `try_for_each`, it has returned success. -/
  received : s.writer.received=true → s.queue.receiver=.done (.ok ())
  /-- The comparison has not panicked. -/
  unharmed : s.writer≠.panicked

/-- A file just opened is held by the reader. -/
theorem initial_held : Held (initial : State τ ε) :=
  ⟨initial_delivers,⟨rfl,Nat.one_pos⟩,rfl,fun _ => rfl,nofun,nofun⟩

/-- At the comparison the reader has dropped its handle, and the one left is the only one. -/
theorem Held.alone {s : State τ ε} (hs : Held s) (h : s.writer=.verifying) :
    s.reader.handles=0 ∧ s.file=.live 1 := by
  have hdone := hs.received (by rw [h]; rfl)
  have hreader : s.reader.handles=0 := by
    by_contra hholds
    exact hs.sender.unfinished hholds (hs.queue.finished hdone)
  have hfile := hs.file
  rw [hreader,h] at hfile
  exact ⟨hreader,hfile.live Nat.one_pos⟩

variable {config : Config ε} {s t : State τ ε}

/-- A step of the queue alone, taken apart. -/
theorem withQueue_eq {event : SeqQueue.Event τ ε} (h : s.withQueue config event=some t) :
    ∃ queue, SeqQueue.step config.capacity config.unknown s.queue event=some queue ∧
      t={s with queue := queue} := by
  obtain ⟨queue,hqueue,rfl⟩ := Option.map_eq_some_iff.mp h
  exact ⟨queue,hqueue,rfl⟩

/-- A step of the queue in which the sender takes no part keeps the invariant. -/
theorem Held.withQueue (hs : Held s) {event : SeqQueue.Event τ ε}
    (h : s.withQueue config event=some t) (hfinish : ∀ result, event≠.finishSender result)
    (hdrop : event≠.dropSender) : Held t := by
  obtain ⟨queue,hqueue,rfl⟩ := withQueue_eq h
  have hsender : s.reader.Fits queue.sender := by
    rw [step_sender hqueue hfinish hdrop]
    exact hs.sender
  exact ⟨hs.queue.step hqueue,hs.file,hsender,hs.unsent,
    fun hreceived => (step_done hqueue (hs.received hreceived)).1,hs.unharmed⟩

/-- The reader goes on to a stage with as many handles that shows the same in the sender. -/
theorem Held.moveReader (hs : Held s) {reader : ReaderStage ε}
    (hhandles : reader.handles=s.reader.handles) (hfits : reader.Fits s.queue.sender)
    (hnew : reader≠.handing) : Held {s with reader := reader} where
  queue := hs.queue
  file := by
    dsimp only
    rw [hhandles]
    exact hs.file
  sender := hfits
  unsent := fun heq => (hnew heq).elim
  received := hs.received
  unharmed := hs.unharmed

/-- The writer goes on to a stage with the work item, for which the queue was received. -/
theorem Held.moveWriter (hs : Held s) {writer : WriterStage}
    (hbefore : s.writer.handles=1) (hafter : writer.handles=1)
    (hreceived : writer.received=true → s.queue.receiver=.done (.ok ()))
    (hunharmed : writer≠.panicked) : Held {s with writer := writer} where
  queue := hs.queue
  file := by
    dsimp only
    rw [hafter,←hbefore]
    exact hs.file
  sender := hs.sender
  unsent := fun heq => by
    have habsent := hs.unsent heq
    rw [habsent] at hbefore
    cases hbefore
  received := hreceived
  unharmed := hunharmed

/-- Dropping the reader's handle keeps the invariant. -/
theorem Held.dropFile (hs : Held s) {reader : ReaderStage ε}
    (h : s.reader.dropFile=some reader) :
    Held {s with reader := reader, file := s.file.release} := by
  have hfile := hs.file
  have hsender := hs.sender
  cases hr : s.reader with
  | read result =>
    rw [hr] at h hfile hsender
    cases h
    rw [ReaderStage.handles,Nat.add_comm] at hfile
    exact ⟨hs.queue,(hfile.release).of_eq (Nat.zero_add _).symm,hsender,nofun,hs.received,
      hs.unharmed⟩
  | orphaned =>
    rw [hr] at h hfile hsender
    cases h
    rw [ReaderStage.handles,Nat.add_comm] at hfile
    exact ⟨hs.queue,(hfile.release).of_eq (Nat.zero_add _).symm,⟨none,hsender⟩,nofun,hs.received,
      hs.unharmed⟩
  | handing => rw [hr] at h; cases h
  | reading => rw [hr] at h; cases h
  | closed result => rw [hr] at h; cases h
  | finishing => rw [hr] at h; cases h
  | returned => rw [hr] at h; cases h
  | unwinding holds => rw [hr] at h; cases h

/-- Finishing the queue keeps the invariant. -/
theorem Held.finish (hs : Held s) {result : Except ε Unit} (hr : s.reader=.closed result)
    (h : State.withQueue config {s with reader := .finishing} (.finishSender result)=some t) :
    Held t := by
  obtain ⟨queue,hqueue,rfl⟩ := withQueue_eq h
  have hfile := hs.file
  rw [hr] at hfile
  refine ⟨hs.queue.step hqueue,hfile,?_,nofun,fun hreceived => ?_,hs.unharmed⟩
  · obtain ⟨_,rfl⟩ := step_finishSender hqueue
    exact ⟨result,rfl⟩
  · exact (step_done hqueue (hs.received hreceived)).1

/-- Dropping the sender keeps the invariant. -/
theorem Held.dropSender (hs : Held s) {reader : ReaderStage ε}
    (hr : s.reader.dropSender=some reader)
    (h : State.withQueue config {s with reader := reader} .dropSender=some t) : Held t := by
  obtain ⟨queue,hqueue,rfl⟩ := withQueue_eq h
  have hsender := hs.sender
  have hfits : reader.handles=s.reader.handles ∧ reader.Fits queue.sender ∧ reader≠.handing := by
    obtain ⟨next,hnext,rfl⟩ := Option.map_eq_some_iff.mp hqueue
    dsimp only at hnext
    cases hstage : s.reader with
    | finishing =>
      rw [hstage] at hr hsender
      cases hr
      exact ⟨rfl,(disconnect_cases hnext).2,nofun⟩
    | unwinding holds =>
      rw [hstage] at hr hsender
      have hlive : s.queue.sender=.live := hsender
      rw [hlive] at hnext
      cases hnext
      cases holds with
      | false =>
        cases hr
        exact ⟨rfl,⟨none,rfl⟩,nofun⟩
      | true =>
        cases hr
        exact ⟨rfl,rfl,nofun⟩
    | handing => rw [hstage] at hr; cases hr
    | reading => rw [hstage] at hr; cases hr
    | read result => rw [hstage] at hr; cases hr
    | closed result => rw [hstage] at hr; cases hr
    | returned => rw [hstage] at hr; cases hr
    | orphaned => rw [hstage] at hr; cases hr
  obtain ⟨hhandles,hsenderNext,hnew⟩ := hfits
  refine ⟨hs.queue.step hqueue,?_,hsenderNext,fun heq => (hnew heq).elim,fun hreceived => ?_,
    hs.unharmed⟩
  · dsimp only
    rw [hhandles]
    exact hs.file
  · exact (step_done hqueue (hs.received hreceived)).1

/-- A panic of the reader keeps the invariant. -/
theorem Held.readerPanics (hs : Held s) {reader : ReaderStage ε}
    (h : s.reader.panics=some reader) : Held {s with reader := reader} := by
  have hsender := hs.sender
  cases hr : s.reader with
  | handing =>
    rw [hr] at h hsender
    cases h
    exact hs.moveReader (by rw [hr]; rfl) hsender nofun
  | reading =>
    rw [hr] at h hsender
    cases h
    exact hs.moveReader (by rw [hr]; rfl) hsender nofun
  | closed result =>
    rw [hr] at h hsender
    cases h
    exact hs.moveReader (by rw [hr]; rfl) hsender nofun
  | read result => rw [hr] at h; cases h
  | finishing => rw [hr] at h; cases h
  | returned => rw [hr] at h; cases h
  | unwinding holds => rw [hr] at h; cases h
  | orphaned => rw [hr] at h; cases h

/-- The end of `try_for_each` keeps the invariant. -/
theorem Held.endReceiving (hs : Held s) (hw : s.writer=.receiving) {writer : WriterStage}
    (h : WriterStage.afterReceiving s.queue.receiver=some writer) :
    Held {s with writer := writer} := by
  have hbefore : s.writer.handles=1 := by rw [hw]; rfl
  cases hr : s.queue.receiver with
  | done result =>
    rw [hr] at h
    cases result with
    | ok _ =>
      cases h
      exact hs.moveWriter hbefore rfl (fun _ => hr) nofun
    | error e =>
      cases h
      exact hs.moveWriter hbefore rfl nofun nofun
  | receiving => rw [hr] at h; cases h
  | awaiting slot => rw [hr] at h; cases h
  | applying item => rw [hr] at h; cases h
  | finishing => rw [hr] at h; cases h
  | taking => rw [hr] at h; cases h

/-- A failing writer keeps the invariant. -/
theorem Held.writerFails (hs : Held s) {writer : WriterStage}
    (h : s.writer.fails=some writer) : Held {s with writer := writer} := by
  have hstages : s.writer.handles=1 ∧ writer=.leaving := by
    cases hw : s.writer <;> rw [hw] at h <;> cases h <;> exact ⟨rfl,rfl⟩
  obtain ⟨hbefore,rfl⟩ := hstages
  exact hs.moveWriter hbefore rfl nofun nofun

/-- The comparison goes on. -/
theorem Held.verifyFile (hs : Held s) (hw : s.writer=.verifying) :
    verifyFile config s.file=.leaving := by
  obtain ⟨_,hfile⟩ := hs.alone hw
  unfold SourceHandle.verifyFile
  rw [hfile]
  split
  · split
    · rfl
    · rfl
  · rfl

/-- Handing the file over clones its handle. -/
theorem Held.hand (hs : Held s) (hr : s.reader=.handing) :
    Held {s with reader := .reading, writer := .preparing, file := s.file.clone} := by
  have hfile := hs.file
  have hsender := hs.sender
  rw [hr] at hsender
  rw [hr,hs.unsent hr] at hfile
  exact ⟨hs.queue,hfile.clone Nat.one_pos,hsender,nofun,nofun,nofun⟩

/-- A writer that has all blocks goes on in either flow. -/
theorem Held.complete (hs : Held s) (hw : s.writer=.completing) (flow : Flow) :
    Held {s with writer := flow.afterCompleting} := by
  have hbefore : s.writer.handles=1 := by rw [hw]; rfl
  have hdone := hs.received (by rw [hw]; rfl)
  cases flow with
  | direct => exact hs.moveWriter hbefore rfl (fun _ => hdone) nofun
  | scratch => exact hs.moveWriter hbefore rfl (fun _ => hdone) nofun

/-- A writer that leaves drops its handle. -/
theorem Held.dropOriginal (hs : Held s) (hw : s.writer=.leaving) :
    Held {s with writer := .gone, file := s.file.release} := by
  have hfile := hs.file
  rw [hw] at hfile
  refine ⟨hs.queue,hfile.release,hs.sender,fun heq => ?_,nofun,nofun⟩
  have habsent := hs.unsent heq
  rw [hw] at habsent
  cases habsent

/-- A writer that leaves or is gone drops the receiver of the blocks. -/
theorem Held.dropBlocks (hs : Held s) (hw : s.writer=.leaving ∨ s.writer=.gone) :
    Held {s with queue := abandon config.unknown s.queue} := by
  have hnot : ¬s.writer.received=true := by
    intro hreceived
    rcases hw with hw|hw
    · rw [hw] at hreceived
      cases hreceived
    · rw [hw] at hreceived
      cases hreceived
  exact ⟨hs.queue.abandon,hs.file,hs.sender,hs.unsent,fun hreceived => (hnot hreceived).elim,
    hs.unharmed⟩

/-- Every step keeps the invariant. -/
theorem Held.step {e : Event τ ε} (hs : Held s) (h : step config s e=some t) : Held t := by
  cases e with
  | hand =>
    dsimp only [SourceHandle.step] at h
    split at h
    · rename_i hr
      obtain rfl := Option.some.inj h
      exact hs.hand hr
    · cases h
  | prepareSend =>
    dsimp only [SourceHandle.step] at h
    split at h
    · exact hs.withQueue h nofun nofun
    · cases h
  | endReading result =>
    dsimp only [SourceHandle.step] at h
    split at h
    · rename_i hr
      obtain rfl := Option.some.inj h
      have hsender := hs.sender
      rw [hr] at hsender
      exact hs.moveReader (by rw [hr]; rfl) hsender nofun
    · cases h
  | dropFile =>
    obtain ⟨reader,hreader,rfl⟩ := Option.map_eq_some_iff.mp h
    exact hs.dropFile hreader
  | finish =>
    dsimp only [SourceHandle.step] at h
    split at h
    · rename_i hr
      exact hs.finish hr h
    · cases h
  | dropSender =>
    dsimp only [SourceHandle.step] at h
    split at h
    · rename_i hr
      exact hs.dropSender hr h
    · cases h
  | readerPanics =>
    obtain ⟨reader,hreader,rfl⟩ := Option.map_eq_some_iff.mp h
    exact hs.readerPanics hreader
  | slot index action =>
    dsimp only [SourceHandle.step] at h
    exact hs.withQueue h nofun nofun
  | startReceiving =>
    dsimp only [SourceHandle.step] at h
    split at h
    · rename_i hw
      obtain rfl := Option.some.inj h
      exact hs.moveWriter (by rw [hw]; rfl) rfl nofun nofun
    · cases h
  | receive event =>
    dsimp only [SourceHandle.step] at h
    split at h
    · split at h
      · rename_i hreceiver
        refine hs.withQueue h ?_ ?_
        · rintro result rfl
          cases hreceiver
        · rintro rfl
          cases hreceiver
      · cases h
    · cases h
  | endReceiving =>
    dsimp only [SourceHandle.step] at h
    split at h
    · rename_i hw
      obtain ⟨writer,hwriter,rfl⟩ := Option.map_eq_some_iff.mp h
      exact hs.endReceiving hw hwriter
    · cases h
  | complete =>
    dsimp only [SourceHandle.step] at h
    split at h
    · rename_i hw
      obtain rfl := Option.some.inj h
      exact hs.complete hw config.flow
    · cases h
  | copy =>
    dsimp only [SourceHandle.step] at h
    split at h
    · rename_i hw
      obtain rfl := Option.some.inj h
      have hdone := hs.received (by rw [hw]; rfl)
      exact hs.moveWriter (by rw [hw]; rfl) rfl (fun _ => hdone) nofun
    · cases h
  | verify =>
    dsimp only [SourceHandle.step] at h
    split at h
    · rename_i hw
      obtain rfl := Option.some.inj h
      rw [hs.verifyFile hw]
      exact hs.moveWriter (by rw [hw]; rfl) rfl nofun nofun
    · cases h
  | writerFails =>
    obtain ⟨writer,hwriter,rfl⟩ := Option.map_eq_some_iff.mp h
    exact hs.writerFails hwriter
  | dropOriginal =>
    dsimp only [SourceHandle.step] at h
    split at h
    · rename_i hw
      obtain rfl := Option.some.inj h
      exact hs.dropOriginal hw
    · cases h
  | dropBlocks =>
    dsimp only [SourceHandle.step] at h
    split at h
    · rename_i hguard
      obtain rfl := Option.some.inj h
      exact hs.dropBlocks hguard.1
    · cases h

/-- Of every run, in every mode and both flows: when `verify_file` is reached,
the reader has dropped its handle and `Arc::get_mut` gives access; the
comparison never panics. -/
theorem sole_owner {trace : List (State τ ε×Event τ ε)}
    (run : Run (SourceHandle.step config) initial trace s) :
    (s.writer=.verifying → s.reader.handles=0 ∧ exclusive s.file=true) ∧ s.writer≠.panicked := by
  have hs : Held s := run.invariant initial_held Held.step
  refine ⟨fun hw => ?_,hs.unharmed⟩
  obtain ⟨hreader,hfile⟩ := hs.alone hw
  exact ⟨hreader,by rw [hfile]; rfl⟩

/-- A file of one block, staged in scratch space and verified. -/
def stagedConfig : Config ℕ := ⟨1,0,.decompressByReading,true,.scratch⟩

/-- The reader drops its handle while the writer waits for the queue. -/
def stagedEvents : List (Event ℕ ℕ) :=
  [.hand,.startReceiving,.prepareSend,.slot 0 (.disarm 7),.slot 0 .send,.receive .recvChannel,
    .receive .recvItem,.receive (.callback (.ok ())),.endReading (.ok ()),.dropFile,.finish,
    .dropSender,.receive .recvChannel,.receive .recvChannel,.receive .takeResult,.endReceiving,
    .complete,.copy]

/-- In a staged file the publisher is the only owner when it verifies. -/
theorem sole_owner_staged : ∃ (trace : List (State ℕ ℕ×Event ℕ ℕ)) (s : State ℕ ℕ),
    Run (SourceHandle.step stagedConfig) initial trace s ∧ s.writer=.verifying ∧
      ((s.writer=.verifying → s.reader.handles=0 ∧ exclusive s.file=true) ∧ s.writer≠.panicked) :=
  ⟨_,_,@run_of_replay _ _ (SourceHandle.step stagedConfig) initial _ stagedEvents _ rfl,rfl,
    sole_owner (@run_of_replay _ _ (SourceHandle.step stagedConfig) initial _ stagedEvents _ rfl)⟩

end Invariant

end Applesauce.SourceHandle
