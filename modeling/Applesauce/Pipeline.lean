import Applesauce.SeqQueue
import Applesauce.BlockReading

/-!
# The pipeline of one file

A reader thread passes blocks on, worker threads change them and finish their
slots in any order, and a writer thread applies the results in order. The
blocks reach the workers through a bounded channel; in the mode without
workers the reader finishes its slots itself. Every party steps on its own,
and each of its steps is at most one step of the queue.
-/

namespace Applesauce.Pipeline

open RustIo TransitionSystem SeqQueue

variable {ι τ σ : Type}

/-- What the threads of one file are given. -/
structure Plan (ι τ σ : Type) where
  /-- The capacity of the sequential queue. -/
  capacity : ℕ
  /-- The number of worker threads. -/
  threads : ℕ
  /-- Whether the reader finishes its slots itself. -/
  inline : Bool
  /-- What the reader reads. -/
  reading : BlockReading.Reading ι
  /-- The result of the reader when nobody receives any more. -/
  hungUp : Except Fault Unit
  /-- What becomes of a block. -/
  work : ι→Except Fault τ
  /-- What the writer does with a result. -/
  consume : τ→Io σ Unit

/-- Where the reader stands. -/
inductive ReaderState (ι : Type) where
  /-- In `prepare_send`, with the blocks that are still to come. -/
  | preparing (rest : List ι)
  /-- About to send a block and its slot to the workers. -/
  | submitting (slot : ℕ) (item : ι) (rest : List ι)
  /-- Finishing a slot itself. -/
  | working (slot : ℕ) (item : ι) (rest : List ι)
  /-- Dropping a slot that it has nothing for. -/
  | abandoning (slot : ℕ)
  /-- About to call `Sender::finish`. -/
  | finishing (result : Except Fault Unit)
  /-- In `Sender::finish`, with the result recorded. -/
  | recorded
  /-- Done with this file. -/
  | returned

/-- The threads of one file. -/
structure State (ι τ σ : Type) where
  /-- The sequential queue. -/
  queue : SeqQueue.State τ Fault
  /-- The reader. -/
  reader : ReaderState ι
  /-- The channel to the workers: slots with their blocks. -/
  jobs : List (ℕ×ι)
  /-- What the workers hold. A worker that panicked holds its job forever. -/
  held : List (ℕ×ι)
  /-- The state of the writer. -/
  sink : σ

/-- `queue_capacity` of the workers. -/
def queueCapacity : ℕ := 8

/-- `UnknownError`, converted. -/
def unknownError : Fault :=
  .error (.new .other "unspecified error in sender for sequential queue")

/-- Where the reader goes with the blocks still to come. -/
def Plan.next (plan : Plan ι τ σ) : List ι→ReaderState ι
  | [] => if plan.reading.slotHeld then .preparing [] else .finishing plan.reading.ending
  | item::rest => .preparing (item::rest)

/-- What the reader does with a new slot. -/
def Plan.holding (plan : Plan ι τ σ) (slot : ℕ) : List ι→ReaderState ι
  | [] => .abandoning slot
  | item::rest => if plan.inline then .working slot item rest else .submitting slot item rest

/-- The threads at the beginning. -/
def initial (plan : Plan ι τ σ) (sink : σ) : State ι τ σ :=
  ⟨SeqQueue.initial,plan.next plan.reading.items,[],[],sink⟩

/-- The next step of a thread that finishes a slot, given what became of the
block. An error takes the slot apart, a panic drops it. -/
def slotAction : Except Fault τ→SlotState τ→Option (SlotAction τ Fault)
  | .ok chunk,.live => some (.disarm chunk)
  | .ok _,.disarmed _ => some .send
  | .error (.error e),.live => some (.setError (.error e))
  | .error (.error _),.errorSet => some .dropErrorSender
  | .error (.panic _),.live => some .dropSender
  | .error (.panic _),.senderDropped => some .dropFlag
  | _,_ => none

/-- Whether a thread is done with a slot. -/
def released : SlotState τ→Bool
  | .finished _ _ => true
  | .errored => true
  | _ => false

/-- The steps of the threads. -/
inductive Event where
  /-- The reader. -/
  | reader
  /-- A worker takes the first job. -/
  | take
  /-- The worker that holds a slot. -/
  | work (slot : ℕ)
  /-- The writer. -/
  | writer
  deriving DecidableEq,Repr

/-- One step of the queue. -/
def Plan.queueStep (plan : Plan ι τ σ) (queue : SeqQueue.State τ Fault) (e : SeqQueue.Event τ Fault) :
    Option (SeqQueue.State τ Fault) :=
  SeqQueue.step plan.capacity unknownError queue e

/-- The step of a thread that finishes a slot. -/
def Plan.slotStep (plan : Plan ι τ σ) (queue : SeqQueue.State τ Fault) (slot : ℕ) (item : ι) :
    Option (SeqQueue.State τ Fault) :=
  match queue.slots[slot]? with
  | none => none
  | some state =>
    match slotAction (plan.work item) state with
    | none => none
    | some action => plan.queueStep queue (.slot slot action)

/-- Whether a slot of the queue is done with. -/
def isReleased (queue : SeqQueue.State τ Fault) (slot : ℕ) : Bool :=
  match queue.slots[slot]? with
  | some state => released state
  | none => false

/-- A step of the reader. -/
def Plan.readerStep (plan : Plan ι τ σ) (s : State ι τ σ) : Option (State ι τ σ) :=
  match s.reader with
  | .preparing rest =>
    match plan.queueStep s.queue .prepareSend with
    | none => none
    | some queue =>
      if s.queue.receiver.disconnected then
        some {s with queue := queue, reader := .finishing plan.hungUp}
      else some {s with queue := queue, reader := plan.holding s.queue.slots.length rest}
  | .submitting slot item rest =>
    if s.jobs.length<queueCapacity then
      some {s with jobs := s.jobs++[(slot,item)], reader := plan.next rest}
    else none
  | .working slot item rest =>
    match plan.slotStep s.queue slot item with
    | none => none
    | some queue =>
      let reader := if isReleased queue slot then plan.next rest else .working slot item rest
      some {s with queue := queue, reader := reader}
  | .abandoning slot =>
    match s.queue.slots[slot]? with
    | some .live =>
      (plan.queueStep s.queue (.slot slot .dropSender)).map (fun queue => {s with queue := queue})
    | some .senderDropped =>
      (plan.queueStep s.queue (.slot slot .dropFlag)).map
        (fun queue => {s with queue := queue, reader := .finishing plan.reading.ending})
    | _ => none
  | .finishing result =>
    (plan.queueStep s.queue (.finishSender result)).map
      (fun queue => {s with queue := queue, reader := .recorded})
  | .recorded =>
    (plan.queueStep s.queue .dropSender).map
      (fun queue => {s with queue := queue, reader := .returned})
  | .returned => none

/-- The next step of the writer, with the state it leaves. -/
def Plan.writerEvent (plan : Plan ι τ σ) (sink : σ) :
    ReceiverState τ Fault→Option (SeqQueue.Event τ Fault×σ)
  | .receiving => some (.recvChannel,sink)
  | .finishing => some (.recvChannel,sink)
  | .awaiting _ => some (.recvItem,sink)
  | .applying item =>
    match plan.consume item sink with
    | .ok _ sink => some (.callback (.ok ()),sink)
    | .error e sink => some (.callback (.error e),sink)
  | .taking => some (.takeResult,sink)
  | .done _ => none

/-- A step of the writer. -/
def Plan.writerStep (plan : Plan ι τ σ) (s : State ι τ σ) : Option (State ι τ σ) :=
  match plan.writerEvent s.sink s.queue.receiver with
  | none => none
  | some (e,sink) =>
    (plan.queueStep s.queue e).map (fun queue => {s with queue := queue, sink := sink})

/-- A step of the worker that holds a slot. -/
def Plan.workStep (plan : Plan ι τ σ) (s : State ι τ σ) (slot : ℕ) : Option (State ι τ σ) :=
  match s.held.lookup slot with
  | none => none
  | some item =>
    match plan.slotStep s.queue slot item with
    | none => none
    | some queue =>
      let held := if isReleased queue slot then s.held.filter (fun job => job.1!=slot) else s.held
      some {s with queue := queue, held := held}

/-- One step of one thread. -/
def step (plan : Plan ι τ σ) (s : State ι τ σ) : Event→Option (State ι τ σ)
  | .reader => plan.readerStep s
  | .take =>
    match s.jobs with
    | [] => none
    | job::jobs =>
      if s.held.length<plan.threads then some {s with jobs := jobs, held := s.held++[job]} else none
  | .work slot => plan.workStep s slot
  | .writer => plan.writerStep s

/-- A step of a worker, taken apart. -/
theorem workStep_cases {plan : Plan ι τ σ} {s t : State ι τ σ} {slot : ℕ}
    (h : plan.workStep s slot=some t) :
    ∃ item queue, (slot,item)∈s.held ∧ plan.slotStep s.queue slot item=some queue ∧
      t={s with
        queue := queue
        held := if isReleased queue slot then s.held.filter (fun job => job.1!=slot) else s.held} := by
  unfold Plan.workStep at h
  cases hlookup : s.held.lookup slot with
  | none => rw [hlookup] at h; cases h
  | some item =>
    rw [hlookup] at h
    dsimp only at h
    cases hslot : plan.slotStep s.queue slot item with
    | none => rw [hslot] at h; cases h
    | some queue =>
      rw [hslot] at h
      obtain ⟨front,back,heq,_⟩ := List.lookup_eq_some_iff.mp hlookup
      refine ⟨item,queue,?_,hslot,(Option.some.inj h).symm⟩
      rw [heq]
      exact List.mem_append_right _ List.mem_cons_self

/-- A step of the writer, taken apart. -/
theorem writerStep_cases {plan : Plan ι τ σ} {s t : State ι τ σ} (h : plan.writerStep s=some t) :
    ∃ e sink queue, plan.writerEvent s.sink s.queue.receiver=some (e,sink) ∧
      plan.queueStep s.queue e=some queue ∧ t={s with queue := queue, sink := sink} := by
  unfold Plan.writerStep at h
  cases hevent : plan.writerEvent s.sink s.queue.receiver with
  | none => rw [hevent] at h; cases h
  | some p =>
    obtain ⟨e,sink⟩ := p
    rw [hevent] at h
    obtain ⟨queue,hqueue,rfl⟩ := Option.map_eq_some_iff.mp h
    exact ⟨e,sink,queue,rfl,hqueue,rfl⟩

section Slots

/-- A slot that a thread is about to finish, given what became of the block. -/
def Active (outcome : Except Fault τ) : SlotState τ→Prop
  | .live => ∀ message, outcome≠.error (.panic message)
  | .disarmed chunk => outcome=.ok chunk
  | .errorSet => ∃ e, outcome=.error (.error e)
  | _ => False

/-- A slot that a thread has finished, given what became of the block. -/
def Settled (outcome : Except Fault τ) : SlotState τ→Prop
  | .finished chunk _ => outcome=.ok chunk
  | .errored => ∃ e, outcome=.error (.error e)
  | _ => False

/-- A thread always has a next step for its slot, which stays active or is settled. -/
theorem slotAction_active {outcome : Except Fault τ} {state : SlotState τ} (accepted : Bool)
    (h : Active outcome state) :
    ∃ action next effect, slotAction outcome state=some action ∧
      state.act accepted action=some (next,effect) ∧ (∀ chunk, outcome=.ok chunk → effect=id) ∧
      ((released next=false ∧ Active outcome next) ∨ (released next=true ∧ Settled outcome next)) := by
  cases state with
  | live =>
    cases outcome with
    | ok chunk => exact ⟨.disarm chunk,_,_,rfl,rfl,fun _ _ => rfl,Or.inl ⟨rfl,rfl⟩⟩
    | error fault =>
      cases fault with
      | error e => exact ⟨.setError (.error e),_,_,rfl,rfl,nofun,Or.inl ⟨rfl,e,rfl⟩⟩
      | panic message => exact (h message rfl).elim
  | disarmed chunk =>
    have hok : outcome=.ok chunk := h
    subst hok
    exact ⟨.send,_,_,rfl,rfl,fun _ _ => rfl,Or.inr ⟨rfl,rfl⟩⟩
  | errorSet =>
    obtain ⟨e,rfl⟩ := h
    exact ⟨.dropErrorSender,_,_,rfl,rfl,fun _ _ => rfl,Or.inr ⟨rfl,e,rfl⟩⟩
  | finished chunk accepted => exact h.elim
  | errored => exact h.elim
  | senderDropped => exact h.elim
  | dropped => exact h.elim

/-- The step of a thread on its active slot. -/
theorem slotStep_active {plan : Plan ι τ σ} {queue : SeqQueue.State τ Fault} {slot : ℕ} {item : ι}
    {state : SlotState τ} (hslot : queue.slots[slot]?=some state)
    (h : Active (plan.work item) state) :
    ∃ action next effect, state.act (queue.accepts slot) action=some (next,effect) ∧
      (∀ chunk, plan.work item=.ok chunk → effect=id) ∧
      plan.queueStep queue (.slot slot action)=some (queue.setSlot slot next effect) ∧
      plan.slotStep queue slot item=some (queue.setSlot slot next effect) ∧
      isReleased (queue.setSlot slot next effect) slot=released next ∧
      ((released next=false ∧ Active (plan.work item) next) ∨
        (released next=true ∧ Settled (plan.work item) next)) := by
  obtain ⟨action,next,effect,haction,hact,hid,hcases⟩ := slotAction_active (queue.accepts slot) h
  have hstep : plan.queueStep queue (.slot slot action)=some (queue.setSlot slot next effect) := by
    unfold Plan.queueStep SeqQueue.step
    dsimp only
    rw [hslot]
    dsimp only
    rw [hact]
    rfl
  have hlt : slot<queue.slots.length := (List.getElem?_eq_some_iff.mp hslot).1
  refine ⟨action,next,effect,hact,hid,hstep,?_,?_,hcases⟩
  · unfold Plan.slotStep
    rw [hslot]
    dsimp only
    rw [haction]
    exact hstep
  · unfold isReleased SeqQueue.State.setSlot
    dsimp only
    rw [List.getElem?_set_self hlt]

end Slots

section Wiring

/-- What the reader has, if anything. -/
def State.inHand (s : State ι τ σ) : List (ℕ×ι) :=
  match s.reader with
  | .submitting slot item _ => [(slot,item)]
  | .working slot item _ => [(slot,item)]
  | _ => []

/-- The blocks that a thread or the channel of the workers has, with their slots. -/
def State.assigned (s : State ι τ σ) : List (ℕ×ι) := s.inHand++(s.jobs++s.held)

/-- The reader is done, either with all it had or because nobody receives. -/
def Over (plan : Plan ι τ σ) (s : State ι τ σ) (result : Except Fault Unit) : Prop :=
  (∃ e, s.queue.receiver=.done (.error e)) ∨
    (result=plan.reading.ending ∧
      s.queue.slots.length=plan.reading.items.length+(if plan.reading.slotHeld then 1 else 0))

/-- Where the reader stands among the blocks and the slots. -/
def State.ReaderFits (plan : Plan ι τ σ) (s : State ι τ σ) : Prop :=
  match s.reader with
  | .preparing rest =>
    s.queue.sender=.live ∧ s.queue.slots.length≤plan.reading.items.length ∧
      plan.reading.items.drop s.queue.slots.length=rest ∧ (rest=[] → plan.reading.slotHeld=true)
  | .submitting slot item rest =>
    s.queue.sender=.live ∧ s.queue.slots.length=slot+1 ∧ plan.reading.items.drop slot=item::rest
  | .working slot item rest =>
    s.queue.sender=.live ∧ s.queue.slots.length=slot+1 ∧ plan.reading.items.drop slot=item::rest
  | .abandoning slot =>
    s.queue.sender=.live ∧ slot=plan.reading.items.length ∧ s.queue.slots.length=slot+1 ∧
      plan.reading.slotHeld=true ∧
      (s.queue.slots[slot]?=some .live ∨ s.queue.slots[slot]?=some .senderDropped)
  | .finishing result => s.queue.sender=.live ∧ Over plan s result
  | .recorded => ∃ result, s.queue.sender=.finishing result ∧ Over plan s result
  | .returned => ∃ result, s.queue.sender=.gone (some result) ∧ Over plan s result

/-- What a slot can be: with a thread or on the way to one, settled, or the one
the reader prepared in vain. -/
inductive SlotFits (plan : Plan ι τ σ) (s : State ι τ σ) (slot : ℕ) (state : SlotState τ) : Prop
  | assigned (item : ι) (h : (slot,item)∈s.assigned)
  | settled (item : ι) (hitem : plan.reading.items[slot]?=some item)
      (h : Settled (plan.work item) state)
  | abandoning (h : s.reader=.abandoning slot)
  | abandoned (hslot : plan.reading.items.length≤ slot) (h : state=.dropped)

/-- The results were consumed one after the other. -/
def consumeAll (consume : τ→Io σ Unit) : List τ→Io σ Unit
  | [] => pure ()
  | chunk::chunks => do
    consume chunk
    consumeAll consume chunks

/-- One more result at the end. -/
theorem consumeAll_snoc {consume : τ→Io σ Unit} {chunks : List τ} {chunk : τ} {s t u : σ} {v w : Unit}
    (h : consumeAll consume chunks s=.ok v t) (hlast : consume chunk t=.ok w u) :
    consumeAll consume (chunks++[chunk]) s=.ok () u := by
  induction chunks generalizing s with
  | nil =>
    cases h
    exact bind_ok_iff.mpr ⟨w,u,hlast,rfl⟩
  | cons first chunks ih =>
    obtain ⟨x,r,hfirst,hrest⟩ := bind_ok_iff.mp h
    exact bind_ok_iff.mpr ⟨x,r,hfirst,ih hrest⟩

/-- What has been consumed leaves the rest to be consumed. -/
theorem consumeAll_append {consume : τ→Io σ Unit} {front back : List τ} {s t u : σ} {v w : Unit}
    (h : consumeAll consume front s=.ok v t) (hall : consumeAll consume (front++back) s=.ok w u) :
    consumeAll consume back t=.ok () u := by
  induction front generalizing s with
  | nil =>
    cases h
    exact hall
  | cons first front ih =>
    obtain ⟨_,r,hfirst,hrest⟩ := bind_ok_iff.mp h
    obtain ⟨_,r',hfirst',hrest'⟩ := bind_ok_iff.mp hall
    rw [hfirst] at hfirst'
    cases hfirst'
    exact ih hrest hrest'

/-- The invariant of every run in which no work panics. -/
structure Wired (plan : Plan ι τ σ) (start : σ) (s : State ι τ σ) : Prop where
  /-- The queue is in order. -/
  agrees : Agrees s.queue
  /-- The queue has not been truncated. -/
  sound : Sound s.queue
  /-- The reader goes through the blocks in order. -/
  reader : s.ReaderFits plan
  /-- Every slot on the way belongs to its own block and can be finished. -/
  assigned : ∀ job∈s.assigned, plan.reading.items[job.1]?=some job.2 ∧
    ∃ state, s.queue.slots[job.1]?=some state ∧ Active (plan.work job.2) state
  /-- No slot is in two places. -/
  apart : (s.assigned.map Prod.fst).Nodup
  /-- Every slot is somewhere. -/
  slots : ∀ slot state, s.queue.slots[slot]?=some state → SlotFits plan s slot state
  /-- The writer consumed what the queue says it saw. -/
  consumed : (∀ e, s.queue.receiver≠.done (.error e)) →
    consumeAll plan.consume s.queue.seen start=.ok () s.sink

variable {plan : Plan ι τ σ} {start : σ} {s t : State ι τ σ}

/-- Between two blocks the reader stands in order. -/
theorem next_fits {rest : List ι} (hlive : s.queue.sender=.live)
    (hle : s.queue.slots.length≤plan.reading.items.length)
    (hrest : plan.reading.items.drop s.queue.slots.length=rest) :
    State.ReaderFits plan {s with reader := plan.next rest} := by
  cases rest with
  | cons item rest => exact ⟨hlive,hle,hrest,nofun⟩
  | nil =>
    have hall := List.drop_eq_nil_iff.mp hrest
    unfold Plan.next
    dsimp only
    cases hheld : plan.reading.slotHeld with
    | true => exact ⟨hlive,hle,hrest,fun _ => hheld⟩
    | false =>
      refine ⟨hlive,Or.inr ⟨rfl,?_⟩⟩
      rw [hheld,if_neg Bool.false_ne_true]
      exact Nat.le_antisymm hle hall

/-- Between two blocks the reader has none of them. -/
theorem assigned_next (plan : Plan ι τ σ) (s : State ι τ σ) (rest : List ι) :
    State.assigned {s with reader := plan.next rest}=s.jobs++s.held := by
  cases rest with
  | cons item rest => rfl
  | nil =>
    unfold Plan.next
    dsimp only
    cases plan.reading.slotHeld with
    | true => rfl
    | false => rfl

/-- Nothing has happened yet. -/
theorem wired_initial (plan : Plan ι τ σ) (start : σ) : Wired plan start (initial plan start) := by
  have hassigned : (initial plan start).assigned=[] :=
    assigned_next plan (⟨SeqQueue.initial,.returned,[],[],start⟩ : State ι τ σ) _
  refine ⟨initial_agrees,initial_agrees.sound_of_ne nofun,?_,?_,?_,nofun,fun _ => rfl⟩
  · exact @next_fits ι τ σ plan ⟨SeqQueue.initial,.returned,[],[],start⟩ _ rfl (Nat.zero_le _)
      List.drop_zero
  · rw [hassigned]
    nofun
  · rw [hassigned]
    exact List.nodup_nil

/-- Once the sender is gone no slot is half dropped. -/
theorem Wired.not_halfDropped (h : Wired plan start s) {result : Option (Except Fault Unit)}
    (hgone : s.queue.sender=.gone result) : ¬s.queue.HalfDropped := by
  intro hhalf
  obtain ⟨slot,hslot⟩ := List.mem_iff_getElem?.mp hhalf
  cases h.slots slot _ hslot with
  | assigned item hmem =>
    obtain ⟨_,state,hstate,hactive⟩ := h.assigned _ hmem
    rw [hslot] at hstate
    obtain rfl := Option.some.inj hstate
    exact hactive
  | settled item hitem hsettled => exact hsettled
  | abandoning hreader =>
    have hfits := h.reader
    unfold State.ReaderFits at hfits
    rw [hreader,hgone] at hfits
    cases hfits.1
  | abandoned hle hdropped => cases hdropped

/-- A step of the queue inside the pipeline keeps the queue in order. -/
theorem Wired.queueStep (h : Wired plan start s) {e : SeqQueue.Event τ Fault}
    {queue : SeqQueue.State τ Fault} (hstep : plan.queueStep s.queue e=some queue) :
    Agrees queue ∧ Sound queue := by
  refine sound_step ⟨h.agrees,h.sound⟩ (fun he _ => ?_) hstep
  dsimp only at he
  subst he
  obtain ⟨htaking,_⟩ := step_takeResult hstep
  have hp := h.agrees.positioned
  unfold SeqQueue.State.Positioned at hp
  rw [htaking] at hp
  obtain ⟨⟨result,hgone⟩,_⟩ := hp
  exact h.not_halfDropped hgone

/-- A thread found nobody receiving any more: the transfer has failed. -/
theorem Wired.failed_of_disconnected (h : Wired plan start s) (hlive : s.queue.sender=.live)
    (hd : s.queue.receiver.disconnected=true) : ∃ e, s.queue.receiver=.done (.error e) := by
  cases hr : s.queue.receiver with
  | done result =>
    cases result with
    | error e => exact ⟨e,rfl⟩
    | ok _ =>
      have hfinished := (h.sound.ok hr).1
      rw [hlive] at hfinished
      exact hfinished.elim
  | taking =>
    have hp := h.agrees.positioned
    unfold SeqQueue.State.Positioned at hp
    rw [hr,hlive] at hp
    obtain ⟨⟨result,hgone⟩,_⟩ := hp
    cases hgone
  | receiving => rw [hr] at hd; cases hd
  | awaiting i => rw [hr] at hd; cases hd
  | applying item => rw [hr] at hd; cases hd
  | finishing => rw [hr] at hd; cases hd

/-- No block makes a worker panic. -/
def Plan.Calm (plan : Plan ι τ σ) : Prop :=
  ∀ item∈plan.reading.items, ∀ message, plan.work item≠.error (.panic message)

/-- What the reader has after preparing a slot. -/
theorem assigned_holding (plan : Plan ι τ σ) (s : State ι τ σ) (slot : ℕ) (item : ι) (rest : List ι) :
    State.assigned {s with reader := plan.holding slot (item::rest)}=
      (slot,item)::(s.jobs++s.held) := by
  unfold Plan.holding
  dsimp only
  cases plan.inline with
  | true => rfl
  | false => rfl

/-- Slots are never taken away. -/
theorem Wired.assigned_lt (h : Wired plan start s) {job : ℕ×ι} (hjob : job∈s.assigned) :
    job.1<s.queue.slots.length := by
  obtain ⟨_,state,hstate,_⟩ := h.assigned job hjob
  exact (List.getElem?_eq_some_iff.mp hstate).1

/-- The reader prepared a slot. -/
theorem wired_prepare (hcalm : plan.Calm) (h : Wired plan start s) {rest : List ι}
    {queue : SeqQueue.State τ Fault} (hreader : s.reader=.preparing rest)
    (hstep : plan.queueStep s.queue .prepareSend=some queue)
    (hopen : s.queue.receiver.disconnected=false) :
    Wired plan start {s with queue := queue, reader := plan.holding s.queue.slots.length rest} := by
  obtain ⟨hagrees,hsound⟩ := h.queueStep hstep
  have hfits := h.reader
  unfold State.ReaderFits at hfits
  rw [hreader] at hfits
  obtain ⟨hlive,hle,hdrop,hheld⟩ := hfits
  have hqueue : queue={s.queue with
      slots := s.queue.slots++[.live], channel := s.queue.channel++[s.queue.slots.length]} := by
    obtain ⟨_,⟨hclosed,_⟩|⟨_,heq⟩⟩ := step_prepareSend hstep
    · rw [hopen] at hclosed
      cases hclosed
    · exact heq
  have hslots : queue.slots=s.queue.slots++[.live] := by rw [hqueue]
  have hlength : queue.slots.length=s.queue.slots.length+1 := by
    rw [hslots,List.length_append,List.length_singleton]
  have hnew : queue.slots[s.queue.slots.length]?=some .live := by
    rw [hslots,List.getElem?_append_right (Nat.le_refl _),Nat.sub_self]
    rfl
  have hold : ∀ {slot : ℕ} {state : SlotState τ}, s.queue.slots[slot]?=some state → queue.slots[slot]?=some state := by
    intro slot state hstate
    rw [hslots,List.getElem?_append_left (List.getElem?_eq_some_iff.mp hstate).1]
    exact hstate
  have hbefore : s.assigned=s.jobs++s.held := by
    unfold State.assigned State.inHand
    rw [hreader]
    rfl
  have hkept : ∀ job∈s.jobs++s.held, plan.reading.items[job.1]?=some job.2 ∧
      ∃ state, queue.slots[job.1]?=some state ∧ Active (plan.work job.2) state := by
    intro job hjob
    obtain ⟨hitem,state,hstate,hactive⟩ := h.assigned job (by rw [hbefore]; exact hjob)
    exact ⟨hitem,state,hold hstate,hactive⟩
  have hconsumed : (∀ e, queue.receiver≠.done (.error e)) →
      consumeAll plan.consume queue.seen start=.ok () s.sink := by
    rw [hqueue]
    exact h.consumed
  have hcases : ∀ {slot : ℕ} {state : SlotState τ}, queue.slots[slot]?=some state →
      slot=s.queue.slots.length ∧ state=.live ∨ s.queue.slots[slot]?=some state := by
    intro slot state hstate
    have hlt := (List.getElem?_eq_some_iff.mp hstate).1
    by_cases hlast : slot=s.queue.slots.length
    · rw [hlast,hnew] at hstate
      exact Or.inl ⟨hlast,(Option.some.inj hstate).symm⟩
    · rw [hslots,List.getElem?_append_left (by omega)] at hstate
      exact Or.inr hstate
  cases rest with
  | nil =>
    have hend := List.drop_eq_nil_iff.mp hdrop
    have heq := Nat.le_antisymm hle hend
    refine ⟨hagrees,hsound,?_,?_,?_,fun slot state hstate => ?_,hconsumed⟩
    · exact ⟨by rw [hqueue]; exact hlive,heq,hlength,hheld rfl,Or.inl hnew⟩
    · exact hkept
    · have hapart := h.apart
      rw [hbefore] at hapart
      exact hapart
    · rcases hcases hstate with ⟨hlast,_⟩|hstate
      · exact .abandoning (by rw [hlast]; rfl)
      · cases h.slots slot state hstate with
        | assigned item hmem =>
          rw [hbefore] at hmem
          exact .assigned item hmem
        | settled item hitem hsettled => exact .settled item hitem hsettled
        | abandoning hbad => rw [hreader] at hbad; cases hbad
        | abandoned hle hdropped => exact .abandoned hle hdropped
  | cons item rest =>
    have hitem : plan.reading.items[s.queue.slots.length]?=some item := by
      rw [←List.head?_drop,hdrop]
      rfl
    have hcalmItem := hcalm item (List.mem_iff_getElem?.mpr ⟨_,hitem⟩)
    have hafter := assigned_holding plan {s with queue := queue} s.queue.slots.length item rest
    refine ⟨hagrees,hsound,?_,?_,?_,fun slot state hstate => ?_,hconsumed⟩
    · unfold Plan.holding
      dsimp only
      cases plan.inline with
      | true => exact ⟨by rw [hqueue]; exact hlive,hlength,hdrop⟩
      | false => exact ⟨by rw [hqueue]; exact hlive,hlength,hdrop⟩
    · rw [hafter]
      intro job hjob
      rcases List.mem_cons.mp hjob with rfl|hjob
      · exact ⟨hitem,.live,hnew,hcalmItem⟩
      · exact hkept job hjob
    · rw [hafter,List.map_cons]
      have hapart := h.apart
      rw [hbefore] at hapart
      refine List.nodup_cons.mpr ⟨fun hmem => ?_,hapart⟩
      obtain ⟨job,hjob,hslot⟩ := List.mem_map.mp hmem
      have hlt := h.assigned_lt (by rw [hbefore]; exact hjob)
      rw [hslot] at hlt
      exact Nat.lt_irrefl _ hlt
    · rcases hcases hstate with ⟨hlast,_⟩|hstate
      · refine .assigned item ?_
        rw [hafter,hlast]
        exact List.mem_cons_self
      · cases h.slots slot state hstate with
        | assigned other hmem =>
          rw [hbefore] at hmem
          refine .assigned other ?_
          rw [hafter]
          exact List.mem_cons_of_mem _ hmem
        | settled other hother hsettled => exact .settled other hother hsettled
        | abandoning hbad => rw [hreader] at hbad; cases hbad
        | abandoned hle hdropped => exact .abandoned hle hdropped

/-- A step that leaves the slots alone and hands blocks from one place to another. -/
theorem Wired.rearrange (h : Wired plan start s) (hqueue : Agrees t.queue ∧ Sound t.queue)
    (hslots : t.queue.slots=s.queue.slots) (hperm : t.assigned.Perm s.assigned)
    (hreader : t.ReaderFits plan)
    (habandon : ∀ slot, s.reader=.abandoning slot → t.reader=.abandoning slot)
    (hconsumed : (∀ e, t.queue.receiver≠.done (.error e)) →
      consumeAll plan.consume t.queue.seen start=.ok () t.sink) : Wired plan start t := by
  refine ⟨hqueue.1,hqueue.2,hreader,fun job hjob => ?_,?_,fun slot state hstate => ?_,hconsumed⟩
  · rw [hslots]
    exact h.assigned job (hperm.subset hjob)
  · exact (hperm.map Prod.fst).nodup_iff.mpr h.apart
  · rw [hslots] at hstate
    cases h.slots slot state hstate with
    | assigned item hmem => exact .assigned item (hperm.symm.subset hmem)
    | settled item hitem hsettled => exact .settled item hitem hsettled
    | abandoning hreader => exact .abandoning (habandon slot hreader)
    | abandoned hle hdropped => exact .abandoned hle hdropped

/-- A step of a thread on a slot that belongs to it. -/
theorem Wired.act (h : Wired plan start s) {slot : ℕ} {item : ι} {state next : SlotState τ}
    {action : SlotAction τ Fault} {effect : FinalSuccessData Fault→FinalSuccessData Fault}
    (hmem : (slot,item)∈s.assigned) (hslot : s.queue.slots[slot]?=some state)
    (hstep : plan.queueStep s.queue (.slot slot action)=some (s.queue.setSlot slot next effect))
    (hcases : (released next=false ∧ Active (plan.work item) next) ∨
      (released next=true ∧ Settled (plan.work item) next))
    (hqueue : t.queue=s.queue.setSlot slot next effect) (hsink : t.sink=s.sink)
    (hkeep : ∀ job, job∈t.assigned ↔ job∈s.assigned ∧ (released next=true → job.1≠slot))
    (hapart : (t.assigned.map Prod.fst).Nodup) (hreader : t.ReaderFits plan)
    (habandon : ∀ slot, s.reader=.abandoning slot → t.reader=.abandoning slot) :
    Wired plan start t := by
  have hlt : slot<s.queue.slots.length := (List.getElem?_eq_some_iff.mp hslot).1
  obtain ⟨hitem,_⟩ := h.assigned _ hmem
  have hself : t.queue.slots[slot]?=some next := by
    rw [hqueue]
    exact List.getElem?_set_self hlt
  have hother : ∀ {index : ℕ}, index≠slot → t.queue.slots[index]?=s.queue.slots[index]? := by
    intro index hne
    rw [hqueue]
    exact List.getElem?_set_ne (Ne.symm hne)
  have horder := h.queueStep hstep
  rw [←hqueue] at horder
  refine ⟨horder.1,horder.2,hreader,fun job hjob => ?_,hapart,fun index other hstate => ?_,?_⟩
  · obtain ⟨hold,hne⟩ := (hkeep job).mp hjob
    obtain ⟨hown,before,hbefore,hactive⟩ := h.assigned job hold
    refine ⟨hown,?_⟩
    by_cases heq : job.1=slot
    · rw [heq] at hown ⊢
      rw [hitem] at hown
      obtain rfl := Option.some.inj hown
      rcases hcases with ⟨_,hnext⟩|⟨hreleased,_⟩
      · exact ⟨next,hself,hnext⟩
      · exact (hne hreleased heq).elim
    · rw [hother heq]
      exact ⟨before,hbefore,hactive⟩
  · by_cases heq : index=slot
    · subst heq
      rw [hself] at hstate
      obtain rfl := Option.some.inj hstate
      rcases hcases with ⟨hkept,_⟩|⟨_,hsettled⟩
      · refine .assigned item ((hkeep _).mpr ⟨hmem,fun hreleased => ?_⟩)
        rw [hkept] at hreleased
        cases hreleased
      · exact .settled item hitem hsettled
    · rw [hother heq] at hstate
      cases h.slots index other hstate with
      | assigned owner howner => exact .assigned owner ((hkeep _).mpr ⟨howner,fun _ => heq⟩)
      | settled owner howner hsettled => exact .settled owner howner hsettled
      | abandoning hbad => exact .abandoning (habandon index hbad)
      | abandoned hle hdropped => exact .abandoned hle hdropped
  · intro hopen
    rw [hqueue] at hopen
    rw [hqueue,hsink]
    exact h.consumed hopen

/-- The reader hands a block to the workers. -/
theorem wired_submit (h : Wired plan start s) {slot : ℕ} {item : ι} {rest : List ι}
    (hreader : s.reader=.submitting slot item rest) :
    Wired plan start {s with jobs := s.jobs++[(slot,item)], reader := plan.next rest} := by
  have hfits := h.reader
  unfold State.ReaderFits at hfits
  rw [hreader] at hfits
  obtain ⟨hlive,hlength,hdrop⟩ := hfits
  have hitems := congrArg List.length hdrop
  rw [List.length_drop,List.length_cons] at hitems
  have hrest : plan.reading.items.drop s.queue.slots.length=rest := by
    rw [hlength,←List.drop_drop,hdrop]
    rfl
  refine h.rearrange ⟨h.agrees,h.sound⟩ rfl ?_ ?_ (fun slot hbad => ?_) h.consumed
  · rw [assigned_next plan {s with jobs := s.jobs++[(slot,item)]} rest]
    unfold State.assigned State.inHand
    rw [hreader]
    dsimp only
    rw [List.append_assoc]
    exact List.perm_middle
  · exact @next_fits ι τ σ plan {s with jobs := s.jobs++[(slot,item)]} rest hlive
      (by dsimp only; omega) hrest
  · rw [hreader] at hbad
    cases hbad

/-- A worker takes the first job. -/
theorem wired_take (h : Wired plan start s) {job : ℕ×ι} {jobs : List (ℕ×ι)}
    (hjobs : s.jobs=job::jobs) : Wired plan start {s with jobs := jobs, held := s.held++[job]} := by
  refine h.rearrange ⟨h.agrees,h.sound⟩ rfl ?_ h.reader (fun slot hbad => hbad) h.consumed
  unfold State.assigned
  dsimp only
  rw [hjobs]
  refine List.Perm.append_left _ ?_
  rw [←List.append_assoc]
  exact List.perm_append_singleton job (jobs++s.held)

/-- The reader does a step on a slot that it finishes itself. -/
theorem wired_inline (h : Wired plan start s) {slot : ℕ} {item : ι} {rest : List ι}
    {queue : SeqQueue.State τ Fault} (hreader : s.reader=.working slot item rest)
    (hstep : plan.slotStep s.queue slot item=some queue) :
    Wired plan start ⟨queue,if isReleased queue slot then plan.next rest else .working slot item rest,
      s.jobs,s.held,s.sink⟩ := by
  have hfits := h.reader
  unfold State.ReaderFits at hfits
  rw [hreader] at hfits
  obtain ⟨hlive,hlength,hdrop⟩ := hfits
  have hassigned : s.assigned=(slot,item)::(s.jobs++s.held) := by
    unfold State.assigned State.inHand
    rw [hreader]
    rfl
  have hmem : (slot,item)∈s.assigned := by
    rw [hassigned]
    exact List.mem_cons_self
  have hnotAbandoning : ∀ {k : ℕ}, s.reader≠.abandoning k := by
    intro k hbad
    rw [hreader] at hbad
    cases hbad
  have hapart := h.apart
  rw [hassigned,List.map_cons] at hapart
  obtain ⟨hfresh,hrestApart⟩ := List.nodup_cons.mp hapart
  obtain ⟨_,state,hslot,hactive⟩ := h.assigned _ hmem
  obtain ⟨action,next,effect,_,_,hqueueStep,hslotStep,hreleased,hcases⟩ := slotStep_active hslot hactive
  rw [hslotStep] at hstep
  obtain rfl := Option.some.inj hstep
  have hlengthAfter : (s.queue.setSlot slot next effect).slots.length=s.queue.slots.length :=
    List.length_set
  rw [hreleased]
  cases hdone : released next with
  | false =>
    rw [if_neg Bool.false_ne_true]
    refine h.act hmem hslot hqueueStep hcases rfl rfl (fun job => ?_) ?_ ?_ (fun k hbad => ?_)
    · rw [hassigned,hdone]
      exact ⟨fun hjob => ⟨hjob,nofun⟩,fun hjob => hjob.1⟩
    · exact hapart
    · exact ⟨hlive,hlengthAfter.trans hlength,hdrop⟩
    · exact (hnotAbandoning hbad).elim
  | true =>
    rw [if_pos rfl]
    have hnext := assigned_next plan {s with queue := s.queue.setSlot slot next effect} rest
    refine h.act hmem hslot hqueueStep hcases rfl rfl (fun job => ?_) ?_ ?_ (fun k hbad => ?_)
    · rw [hnext,hassigned,hdone]
      constructor
      · intro hjob
        exact ⟨List.mem_cons_of_mem _ hjob,
          fun _ heq => hfresh (List.mem_map.mpr ⟨job,hjob,heq⟩)⟩
      · rintro ⟨hjob,hne⟩
        rcases List.mem_cons.mp hjob with rfl|hjob
        · exact (hne rfl rfl).elim
        · exact hjob
    · rw [hnext]
      exact hrestApart
    · have hitems := congrArg List.length hdrop
      rw [List.length_drop,List.length_cons] at hitems
      refine @next_fits ι τ σ plan {s with queue := s.queue.setSlot slot next effect} rest hlive ?_ ?_
      · dsimp only
        rw [hlengthAfter]
        omega
      · dsimp only
        rw [hlengthAfter,hlength,←List.drop_drop,hdrop]
        rfl
    · exact (hnotAbandoning hbad).elim

/-- A slot that a worker holds is not also with the reader or in the channel. -/
theorem Wired.ne_held (h : Wired plan start s) {job : ℕ×ι} {slot : ℕ} {item : ι}
    (hjob : job∈s.inHand++s.jobs) (hheld : (slot,item)∈s.held) : job.1≠slot := by
  have hapart := h.apart
  have hsplit : s.assigned=(s.inHand++s.jobs)++s.held := (List.append_assoc _ _ _).symm
  rw [hsplit,List.map_append,List.nodup_append] at hapart
  exact hapart.2.2 _ (List.mem_map_of_mem hjob) _ (List.mem_map_of_mem hheld)

/-- A worker does a step on the slot that it holds. -/
theorem wired_work (h : Wired plan start s) {slot : ℕ} (hstep : plan.workStep s slot=some t) :
    Wired plan start t := by
  obtain ⟨item,queue,hheld,hwork,rfl⟩ := workStep_cases hstep
  have hmem : (slot,item)∈s.assigned :=
    List.mem_append_right _ (List.mem_append_right _ hheld)
  obtain ⟨_,state,hslot,hactive⟩ := h.assigned _ hmem
  obtain ⟨action,next,effect,_,_,hqueueStep,hslotStep,hreleased,hcases⟩ :=
    slotStep_active hslot hactive
  rw [hslotStep] at hwork
  obtain rfl := Option.some.inj hwork
  rw [hreleased]
  have hlengthAfter : (s.queue.setSlot slot next effect).slots.length=s.queue.slots.length :=
    List.length_set
  have hfits : ∀ held : List (ℕ×ι), State.ReaderFits plan
      {s with queue := s.queue.setSlot slot next effect, held := held} := by
    intro held
    have hbefore := h.reader
    unfold State.ReaderFits Over at hbefore ⊢
    dsimp only
    rw [hlengthAfter]
    cases hreader : s.reader with
    | preparing rest => rw [hreader] at hbefore; exact hbefore
    | submitting k other rest => rw [hreader] at hbefore; exact hbefore
    | working k other rest => rw [hreader] at hbefore; exact hbefore
    | finishing result => rw [hreader] at hbefore; exact hbefore
    | recorded => rw [hreader] at hbefore; exact hbefore
    | returned => rw [hreader] at hbefore; exact hbefore
    | abandoning k =>
      rw [hreader] at hbefore
      obtain ⟨hlive,hk,hlength,hheldSlot,hstate⟩ := hbefore
      have hlt : slot<plan.reading.items.length :=
        (List.getElem?_eq_some_iff.mp (h.assigned _ hmem).1).1
      have hne : slot≠k := by omega
      refine ⟨hlive,hk,hlength,hheldSlot,?_⟩
      have hget : (s.queue.setSlot slot next effect).slots[k]?=s.queue.slots[k]? :=
        List.getElem?_set_ne hne
      rw [hget]
      exact hstate
  cases hdone : released next with
  | false =>
    rw [if_neg Bool.false_ne_true]
    refine h.act hmem hslot hqueueStep hcases rfl rfl (fun job => ?_) h.apart (hfits _)
      (fun k hbad => hbad)
    rw [hdone]
    exact ⟨fun hjob => ⟨hjob,nofun⟩,fun hjob => hjob.1⟩
  | true =>
    rw [if_pos rfl]
    have hsub : (s.held.filter (fun job => job.1!=slot)).Sublist s.held := List.filter_sublist
    have hrest : (State.assigned ⟨s.queue.setSlot slot next effect,s.reader,s.jobs,
        s.held.filter (fun job => job.1!=slot),s.sink⟩).Sublist s.assigned :=
      (hsub.append_left s.jobs).append_left _
    refine h.act hmem hslot hqueueStep hcases rfl rfl (fun job => ⟨fun hjob => ?_,?_⟩)
      ((hrest.map Prod.fst).nodup h.apart) (hfits _) (fun k hbad => hbad)
    · refine ⟨hrest.subset hjob,fun _ => ?_⟩
      rcases List.mem_append.mp hjob with hfront|hback
      · exact h.ne_held (List.mem_append_left _ hfront) hheld
      rcases List.mem_append.mp hback with hwaiting|hkept
      · exact h.ne_held (List.mem_append_right _ hwaiting) hheld
      · exact bne_iff_ne.mp (List.mem_filter.mp hkept).2
    · rintro ⟨hjob,hne⟩
      rcases List.mem_append.mp hjob with hfront|hback
      · exact List.mem_append_left _ hfront
      refine List.mem_append_right _ ?_
      rcases List.mem_append.mp hback with hwaiting|hkept
      · exact List.mem_append_left _ hwaiting
      · exact List.mem_append_right _ (List.mem_filter.mpr ⟨hkept,bne_iff_ne.mpr (hne hdone)⟩)

/-- The reader does a step on the slot it has nothing for. -/
theorem Wired.abandon (h : Wired plan start s) {slot : ℕ} {next : SlotState τ}
    {action : SlotAction τ Fault} {effect : FinalSuccessData Fault→FinalSuccessData Fault}
    (hreader : s.reader=.abandoning slot)
    (hstep : plan.queueStep s.queue (.slot slot action)=some (s.queue.setSlot slot next effect))
    (hnext : t.reader=.abandoning slot ∨ next=.dropped)
    (hqueue : t.queue=s.queue.setSlot slot next effect) (hsink : t.sink=s.sink)
    (hassigned : t.assigned=s.assigned) (hfits : t.ReaderFits plan) : Wired plan start t := by
  have hbefore := h.reader
  unfold State.ReaderFits at hbefore
  rw [hreader] at hbefore
  obtain ⟨_,hslot,hlength,_,_⟩ := hbefore
  have hself : t.queue.slots[slot]?=some next := by
    rw [hqueue]
    exact List.getElem?_set_self (by omega)
  have hother : ∀ {index : ℕ}, index≠slot → t.queue.slots[index]?=s.queue.slots[index]? := by
    intro index hne
    rw [hqueue]
    exact List.getElem?_set_ne (Ne.symm hne)
  have horder := h.queueStep hstep
  rw [←hqueue] at horder
  refine ⟨horder.1,horder.2,hfits,fun job hjob => ?_,?_,fun index other hstate => ?_,?_⟩
  · rw [hassigned] at hjob
    obtain ⟨hitem,before,hold,hactive⟩ := h.assigned job hjob
    have hlt := (List.getElem?_eq_some_iff.mp hitem).1
    refine ⟨hitem,before,?_,hactive⟩
    rw [hother (by omega)]
    exact hold
  · rw [hassigned]
    exact h.apart
  · by_cases heq : index=slot
    · subst heq
      rw [hself] at hstate
      obtain rfl := Option.some.inj hstate
      rcases hnext with hstill|hdropped
      · exact .abandoning hstill
      · exact .abandoned (Nat.le_of_eq hslot.symm) hdropped
    · rw [hother heq] at hstate
      cases h.slots index other hstate with
      | assigned owner howner => exact .assigned owner (by rw [hassigned]; exact howner)
      | settled owner howner hsettled => exact .settled owner howner hsettled
      | abandoning hbad =>
        rw [hreader] at hbad
        cases hbad
        exact (heq rfl).elim
      | abandoned hle hdropped => exact .abandoned hle hdropped
  · intro hopen
    rw [hqueue] at hopen
    rw [hqueue,hsink]
    exact h.consumed hopen

/-- What a step of the queue on a slot leaves. -/
theorem queueStep_slot {queue after : SeqQueue.State τ Fault} {slot : ℕ} {state next : SlotState τ}
    {action : SlotAction τ Fault} {effect : FinalSuccessData Fault→FinalSuccessData Fault}
    (hslot : queue.slots[slot]?=some state)
    (hact : state.act (queue.accepts slot) action=some (next,effect))
    (h : plan.queueStep queue (.slot slot action)=some after) :
    after=queue.setSlot slot next effect := by
  obtain ⟨other,next',effect',hother,hact',rfl⟩ := step_slot h
  rw [hslot] at hother
  obtain rfl := Option.some.inj hother
  rw [hact] at hact'
  cases hact'
  rfl

/-- A step of the reader keeps the invariant. -/
theorem wired_reader (hcalm : plan.Calm) (h : Wired plan start s)
    (hstep : plan.readerStep s=some t) : Wired plan start t := by
  have hfits := h.reader
  unfold State.ReaderFits at hfits
  unfold Plan.readerStep at hstep
  cases hreader : s.reader with
  | preparing rest =>
    rw [hreader] at hstep hfits
    dsimp only at hstep
    cases hqueue : plan.queueStep s.queue .prepareSend with
    | none => rw [hqueue] at hstep; cases hstep
    | some queue =>
      rw [hqueue] at hstep
      dsimp only at hstep
      cases hd : s.queue.receiver.disconnected with
      | false =>
        rw [hd,if_neg Bool.false_ne_true] at hstep
        obtain rfl := Option.some.inj hstep
        exact wired_prepare hcalm h hreader hqueue hd
      | true =>
        rw [hd,if_pos rfl] at hstep
        obtain rfl := Option.some.inj hstep
        obtain ⟨hlive,⟨_,rfl⟩|⟨hopen,_⟩⟩ := step_prepareSend hqueue
        · refine h.rearrange ⟨h.agrees,h.sound⟩ rfl ?_ ?_ (fun slot hbad => ?_) h.consumed
          · unfold State.assigned State.inHand
            rw [hreader]
          · exact ⟨hlive,Or.inl (h.failed_of_disconnected hlive hd)⟩
          · rw [hreader] at hbad
            cases hbad
        · rw [hd] at hopen
          cases hopen
  | submitting slot item rest =>
    rw [hreader] at hstep
    dsimp only at hstep
    by_cases hroom : s.jobs.length<queueCapacity
    · rw [if_pos hroom] at hstep
      obtain rfl := Option.some.inj hstep
      exact wired_submit h hreader
    · rw [if_neg hroom] at hstep
      cases hstep
  | working slot item rest =>
    rw [hreader] at hstep
    dsimp only at hstep
    cases hslot : plan.slotStep s.queue slot item with
    | none => rw [hslot] at hstep; cases hstep
    | some queue =>
      rw [hslot] at hstep
      obtain rfl := Option.some.inj hstep
      exact wired_inline h hreader hslot
  | abandoning slot =>
    rw [hreader] at hstep hfits
    dsimp only at hstep
    obtain ⟨hlive,hslot,hlength,hheld,hstate⟩ := hfits
    rcases hstate with hstate|hstate
    · rw [hstate] at hstep
      obtain ⟨queue,hqueue,rfl⟩ := Option.map_eq_some_iff.mp hstep
      obtain rfl := queueStep_slot hstate rfl hqueue
      have hsame : s.assigned=State.assigned ⟨s.queue.setSlot slot .senderDropped id,
          .abandoning slot,s.jobs,s.held,s.sink⟩ := by
        unfold State.assigned State.inHand
        rw [hreader]
      refine h.abandon hreader hqueue (Or.inl rfl) rfl rfl hsame.symm ?_
      have hself : (s.queue.setSlot slot (.senderDropped : SlotState τ) id).slots[slot]?=
          some .senderDropped := List.getElem?_set_self (by omega)
      exact ⟨hlive,hslot,List.length_set.trans hlength,hheld,Or.inr hself⟩
    · rw [hstate] at hstep
      obtain ⟨queue,hqueue,rfl⟩ := Option.map_eq_some_iff.mp hstep
      obtain rfl := queueStep_slot hstate rfl hqueue
      refine h.abandon hreader hqueue (Or.inr rfl) rfl rfl ?_ ⟨hlive,Or.inr ⟨rfl,?_⟩⟩
      · unfold State.assigned State.inHand
        rw [hreader]
      · rw [hheld,if_pos rfl,←hslot]
        exact List.length_set.trans hlength
  | finishing result =>
    rw [hreader] at hstep hfits
    obtain ⟨queue,hqueue,rfl⟩ := Option.map_eq_some_iff.mp hstep
    have horder := h.queueStep hqueue
    obtain ⟨_,rfl⟩ := step_finishSender hqueue
    refine h.rearrange horder rfl ?_ ⟨result,rfl,hfits.2⟩ (fun slot hbad => ?_) h.consumed
    · unfold State.assigned State.inHand
      rw [hreader]
    · rw [hreader] at hbad
      cases hbad
  | recorded =>
    rw [hreader] at hstep hfits
    obtain ⟨queue,hqueue,rfl⟩ := Option.map_eq_some_iff.mp hstep
    have horder := h.queueStep hqueue
    obtain ⟨next,hnext,rfl⟩ := Option.map_eq_some_iff.mp hqueue
    obtain ⟨result,hsender,hover⟩ := hfits
    rw [hsender] at hnext
    obtain rfl := Option.some.inj hnext
    refine h.rearrange horder rfl ?_ ⟨result,rfl,hover⟩ (fun slot hbad => ?_) h.consumed
    · unfold State.assigned State.inHand
      rw [hreader]
    · rw [hreader] at hbad
      cases hbad
  | returned =>
    rw [hreader] at hstep
    cases hstep

/-- The writer's next step belongs to the receiver, who is not done. -/
theorem writerEvent_cases {sink after : σ} {receiver : ReceiverState τ Fault}
    {e : SeqQueue.Event τ Fault} (h : plan.writerEvent sink receiver=some (e,after)) :
    e.isReceiver=true ∧ (∀ result, receiver≠.done result) ∧
      ((after=sink ∧ ∀ result, e≠.callback result) ∨
        ∃ chunk, receiver=.applying chunk ∧
          ((plan.consume chunk sink=.ok () after ∧ e=.callback (.ok ())) ∨
            ∃ fault, plan.consume chunk sink=.error fault after ∧ e=.callback (.error fault))) := by
  cases receiver with
  | receiving =>
    cases h
    exact ⟨rfl,nofun,Or.inl ⟨rfl,nofun⟩⟩
  | finishing =>
    cases h
    exact ⟨rfl,nofun,Or.inl ⟨rfl,nofun⟩⟩
  | awaiting slot =>
    cases h
    exact ⟨rfl,nofun,Or.inl ⟨rfl,nofun⟩⟩
  | taking =>
    cases h
    exact ⟨rfl,nofun,Or.inl ⟨rfl,nofun⟩⟩
  | done result => cases h
  | applying chunk =>
    unfold Plan.writerEvent at h
    dsimp only at h
    cases hconsume : plan.consume chunk sink with
    | ok value next =>
      rw [hconsume] at h
      cases h
      exact ⟨rfl,nofun,Or.inr ⟨chunk,rfl,Or.inl ⟨hconsume,rfl⟩⟩⟩
    | error fault next =>
      rw [hconsume] at h
      cases h
      exact ⟨rfl,nofun,Or.inr ⟨chunk,rfl,Or.inr ⟨fault,hconsume,rfl⟩⟩⟩

/-- A step of the writer keeps the invariant. -/
theorem wired_writer (h : Wired plan start s) (hstep : plan.writerStep s=some t) :
    Wired plan start t := by
  obtain ⟨e,sink,queue,hevent,hqueue,rfl⟩ := writerStep_cases hstep
  obtain ⟨hreceiver,hopen,hcases⟩ := writerEvent_cases hevent
  obtain ⟨hslots,hsender,hseen⟩ := step_receiver hreceiver hqueue
  have hconsumed := h.consumed (fun e => hopen (.error e))
  refine h.rearrange (h.queueStep hqueue) hslots (List.Perm.refl _) ?_ (fun slot hbad => hbad) ?_
  · have hbefore := h.reader
    unfold State.ReaderFits Over at hbefore ⊢
    dsimp only
    rw [hslots,hsender]
    have hnotDone : ¬∃ e, s.queue.receiver=.done (.error e) := fun ⟨e,he⟩ => hopen _ he
    cases hreader : s.reader with
    | preparing rest => rw [hreader] at hbefore; exact hbefore
    | submitting k other rest => rw [hreader] at hbefore; exact hbefore
    | working k other rest => rw [hreader] at hbefore; exact hbefore
    | abandoning k => rw [hreader] at hbefore; exact hbefore
    | finishing result =>
      rw [hreader] at hbefore
      exact ⟨hbefore.1,Or.inr (hbefore.2.resolve_left hnotDone)⟩
    | recorded =>
      rw [hreader] at hbefore
      obtain ⟨result,hs,hover⟩ := hbefore
      exact ⟨result,hs,Or.inr (hover.resolve_left hnotDone)⟩
    | returned =>
      rw [hreader] at hbefore
      obtain ⟨result,hs,hover⟩ := hbefore
      exact ⟨result,hs,Or.inr (hover.resolve_left hnotDone)⟩
  · intro hnoError
    rcases hcases with ⟨rfl,hnotCallback⟩|⟨chunk,hr,⟨hconsume,rfl⟩|⟨fault,_,rfl⟩⟩
    · rw [hseen hnotCallback]
      exact hconsumed
    · obtain ⟨item,happlying,⟨_,rfl⟩|⟨_,hbad,_⟩⟩ := step_callback hqueue
      · rw [hr] at happlying
        obtain rfl := ReceiverState.applying.inj happlying
        exact consumeAll_snoc hconsumed hconsume
      · cases hbad
    · obtain ⟨item,_,⟨hbad,_⟩|⟨e,_,rfl⟩⟩ := step_callback hqueue
      · cases hbad
      · exact (hnoError e rfl).elim

/-- Every step of every thread keeps the invariant. -/
theorem wired_step (hcalm : plan.Calm) {e : Event} (h : Wired plan start s)
    (hstep : step plan s e=some t) : Wired plan start t := by
  cases e with
  | reader => exact wired_reader hcalm h hstep
  | take =>
    unfold step at hstep
    dsimp only at hstep
    cases hjobs : s.jobs with
    | nil => rw [hjobs] at hstep; cases hstep
    | cons job jobs =>
      rw [hjobs] at hstep
      dsimp only at hstep
      by_cases hfree : s.held.length<plan.threads
      · rw [if_pos hfree] at hstep
        obtain rfl := Option.some.inj hstep
        exact wired_take h hjobs
      · rw [if_neg hfree] at hstep
        cases hstep
  | work slot => exact wired_work h hstep
  | writer => exact wired_writer h hstep

end Wiring

end Applesauce.Pipeline
