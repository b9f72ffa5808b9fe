import Applesauce.FileThreads

/-!
# What holds of a file between the steps of its threads

The reference counts agree with what the threads own. In a batch, a thread
that owns the reservation drops it before the completion guard, and a
publisher before it acknowledges. At most one thread may still report new
statistics, and a file whose end is not counted yet is counted by exactly one
of the reports under way, the destructor of the context, or the scan.
-/

namespace Applesauce.FileThreads

open RustIo SharedHandles Statistics ScratchBudget
open Publication (Mode)

section Definitions

/-- Every occurrence of the first is followed by the second. -/
def Guarded (first second : Owned) : List Owned→Prop
  | [] => True
  | o::owned => (o=first → second∈owned) ∧ Guarded first second owned

/-- In a batch the reservation is dropped before the guard; without one there is no guard.
The guard of the others is never there. -/
structure Orderly (batched : Bool) (guard other : Owned) (owned : List Owned) : Prop where
  /-- The reservation goes first. -/
  guarded : batched=true → Guarded .reservation guard owned
  /-- No guard without a batch. -/
  plain : batched=false → guard∉owned
  /-- Never the other guard. -/
  other : other∉owned

/-- What a reader owns at each stage. -/
def ReaderOwns (staging : Staging) (t : Thread) : Prop :=
  match t.stage with
  | .considered => t.owned=[]
  | .submitting => t.owned=[.context]
  | .queued => t.owned=staging.item
  | .reserving => t.owned=[.context] ∧ staging.afterTake=.reserving
  | .opening => t.owned=staging.reserved
  | .handing => t.owned=staging.reserved
  | .reading => t.owned=staging.kept
  | .leaving => True
  | _ => False

/-- What a writer owns at each stage. -/
def WriterOwns (staging : Staging) (t : Thread) : Prop :=
  match t.stage with
  | .absent => t.owned=[]
  | .queued => t.owned=staging.handed
  | .working => t.owned=staging.handed++[.context]
  | .sending => t.owned=[.context] ∧ staging.afterStaging=.sending
  | .reporting => t.owned=[.context]
  | .counting => t.owned=[.context]
  | .leaving => True
  | _ => False

/-- What a publisher owns at each stage, and what has become of the payload. -/
def PublisherOwns (staging : Staging) (payload : Payload) (t : Thread) : Prop :=
  match t.stage with
  | .absent => t.owned=[]
  | .leaving => payload=.closed ∨ payload=.closeFailed
  | .queued => t.owned=staging.published ∧ staging.usesScratch=true
  | .working => t.owned=staging.published ∧ staging.usesScratch=true
  | .reporting => t.owned=staging.published ∧ staging.usesScratch=true
  | .counting => t.owned=staging.published ∧ staging.usesScratch=true
  | .closing => t.owned=staging.published ∧ staging.usesScratch=true
  | _ => False

/-- How many of a thing exist of a file, outside the compressors. -/
def File.holders (f : File) (o : Owned) : ℕ :=
  f.reader.owned.count o+f.writer.owned.count o+f.staged.count o+f.publisher.owned.count o

/-- The counts agree with what exists. -/
structure Balanced (f : File) : Prop where
  /-- The handles of the context. -/
  context : f.context.Counts (f.holders .context+f.jobs)
  /-- The clones of the completion guard. -/
  completion : f.completion.Counts (f.holders .completion)
  /-- There is one reservation, or none. -/
  reservation : f.holders .reservation=f.reservation.toList.length

/-- Whether the scanning thread or the reader still has the file to itself. -/
def Stage.early : Stage→Bool
  | .considered => true
  | .submitting => true
  | .queued => true
  | .reserving => true
  | .opening => true
  | .handing => true
  | _ => false

/-- Whether a writer or publisher may still come to report new statistics. -/
def Stage.mayReport : Stage→Bool
  | .queued => true
  | .working => true
  | .reporting => true
  | _ => false

/-- A file comes to the threads in their order. -/
structure InOrder (f : File) : Prop where
  /-- While the reader has the file to itself, no writer does. -/
  unsent : f.reader.stage.early=true → f.writer=⟨.absent,[]⟩
  /-- Before the writer is done, nothing is staged and no publisher has it. -/
  unstaged : f.writer.stage≠.sending → f.writer.stage≠.leaving →
    f.staged=[] ∧ f.publisher=⟨.absent,[]⟩
  /-- What a staged file owns until a publisher has it. -/
  staged : f.staged=[] ∨
    f.staged=[.reservation,.context] ∧ f.payload=.staged ∧ f.publisher=⟨.absent,[]⟩
  /-- A staged file being sent is there. -/
  sending : f.writer.stage=.sending → f.staged≠[]

/-- The number of those who may still report new statistics. -/
def File.reporters (f : File) : ℕ :=
  f.reader.stage.early.toNat+f.writer.stage.mayReport.toNat+(decide (f.staged≠[])).toNat+
    f.publisher.stage.mayReport.toNat

/-- Whether a thread is between setting the flag and counting the end. -/
def Stage.isCounting : Stage→Bool
  | .counting => true
  | _ => false

/-- The number of those between setting the flag and counting the end. -/
def File.counting (f : File) : ℕ :=
  f.reader.stage.isCounting.toNat+f.writer.stage.isCounting.toNat+
    f.publisher.stage.isCounting.toNat

/-- Whether the end is left to the scanning thread or to the destructor of the context. -/
def File.unreported (f : File) : ℕ :=
  if f.reader.stage=.considered then 1
  else if f.context.Pending ∧ f.reported=false then 1
  else 0

/-- The end of a file is counted once. -/
structure CountedOnce (f : File) : Prop where
  /-- Whoever may still report is the only one, and nobody has. -/
  reporters : f.reporters+f.reported.toNat≤1
  /-- The end is counted, being counted, or left to one destructor. -/
  ends : f.ends.length+f.counting+f.unreported=1

/-- A file belongs to a batch exactly when it has a completion guard. -/
structure Admitted (batched : Bool) (f : File) : Prop where
  /-- The guard comes with the admission. -/
  batch : f.batch.isSome=true ↔ f.completion≠.unmade
  /-- A message is received after it was sent. -/
  received : f.received=true → f.completion=.dropped
  /-- In a batch, only admitted files have a reservation. -/
  reservation : batched=true → f.batch=none → f.reservation=none
  /-- Without a batch no file is admitted. -/
  plain : batched=false → f.batch=none
  /-- A considered file has no context yet. -/
  unmade : f.reader.stage=.considered → f.context=.unmade
  /-- A context that is not destroyed holds the operation. -/
  operation : f.context.Pending → f.operation=true
  /-- Without a context the operation is not held. -/
  unheld : f.context=.unmade → f.operation=false

/-- What holds of a file between any two steps. -/
structure Sound (staging : Staging) (f : File) : Prop where
  reader : ReaderOwns staging f.reader
  writer : WriterOwns staging f.writer
  publisher : PublisherOwns staging f.payload f.publisher
  readerOrderly : Orderly staging.isBatched .completion .finished f.reader.owned
  writerOrderly : Orderly staging.isBatched .completion .finished f.writer.owned
  publisherOrderly : Orderly staging.isBatched .finished .completion f.publisher.owned
  balanced : Balanced f
  inOrder : InOrder f
  once : CountedOnce f
  admitted : Admitted staging.isBatched f

end Definitions

section Lists
variable {staging : Staging} {batched : Bool} {guard other o : Owned} {owned : List Owned}

/-- What is left after the first thing was dropped is still in order. -/
theorem Orderly.tail (h : Orderly batched guard other (o::owned)) :
    Orderly batched guard other owned :=
  ⟨fun hb => (h.guarded hb).2,fun hb => List.not_mem_of_not_mem_cons (h.plain hb),
    List.not_mem_of_not_mem_cons h.other⟩

/-- In a batch, a thread that owns the reservation owns the guard. -/
theorem Orderly.guard_mem (h : Orderly batched guard other owned) (hb : batched=true)
    (hmem : .reservation∈owned) : guard∈owned := by
  have hguarded := h.guarded hb
  clear h
  induction owned with
  | nil => exact (List.not_mem_nil hmem).elim
  | cons o owned ih =>
    obtain ⟨hfirst,hrest⟩ := hguarded
    rcases List.mem_cons.mp hmem with heq|hlater
    · exact List.mem_cons_of_mem o (hfirst heq.symm)
    · exact List.mem_cons_of_mem o (ih hlater hrest)

/-- Nothing is in order. -/
theorem orderly_nil : Orderly batched guard other [] :=
  ⟨fun _ => trivial,fun _ => List.not_mem_nil,List.not_mem_nil⟩

/-- The lists of readers and writers. -/
def Staging.lists (staging : Staging) : List (List Owned) :=
  [staging.item,staging.reserved,staging.kept,staging.handed,staging.handed++[.context],[.context]]

/-- Every list of a reader or writer is in order. -/
theorem Staging.orderly {owned : List Owned} (h : owned∈staging.lists) :
    Orderly staging.isBatched .completion .finished owned := by
  cases staging with
  | direct =>
    have hplain : ∀ owned∈Staging.direct.lists, .completion∉owned ∧ .finished∉owned := by decide
    exact ⟨nofun,fun _ => (hplain owned h).1,(hplain owned h).2⟩
  | scratch limit hlimit =>
    have hplain : ∀ owned∈[[.context],[.reservation,.context],[.context],[.reservation,.context],
        [.reservation,.context,.context],[.context]],
        Owned.completion∉owned ∧ Owned.finished∉owned := by decide
    exact ⟨nofun,fun _ => (hplain owned h).1,(hplain owned h).2⟩
  | batched limits =>
    simp only [lists,item,reserved,kept,handed,List.mem_cons,List.not_mem_nil,or_false] at h
    rcases h with rfl|rfl|rfl|rfl|rfl|rfl <;>
      exact ⟨fun _ => by simp [Guarded],nofun,by simp⟩

/-- The list of a publisher is in order. -/
theorem Staging.orderly_published (staging : Staging) :
    Orderly staging.isBatched .finished .completion staging.published := by
  cases staging with
  | direct => exact ⟨nofun,fun _ => List.not_mem_nil,List.not_mem_nil⟩
  | scratch limit h => exact ⟨nofun,fun _ => by simp [published],by simp [published]⟩
  | batched limits => exact ⟨fun _ => by simp [published,Guarded],nofun,by simp [published]⟩

end Lists

end Applesauce.FileThreads
