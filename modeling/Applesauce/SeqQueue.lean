import Applesauce.TransitionSystem

/-!
# The sequential queue

Slots are prepared in order and finished in any order; the receiver takes
the values in the order of the slots. Whether the whole transfer succeeded is
decided by a shared cell, while the end of the stream is signalled by the
channel. Every mutex section, channel operation and drop is one step, and the
sender, each slot and the receiver step independently.
-/

namespace Applesauce.SeqQueue

open TransitionSystem

variable {τ ε : Type}

/-- `FinalSuccessData`: nothing yet, success, or an error that may be known. -/
abbrev FinalSuccessData (ε : Type) := Option (Except (Option ε) Unit)

/-- `FinalSuccess::make_success`. -/
def makeSuccess : FinalSuccessData ε→FinalSuccessData ε
  | some result => some result
  | none => some (.ok ())

/-- `FinalSuccess::make_unknown_error`. -/
def makeUnknownError : FinalSuccessData ε→FinalSuccessData ε
  | some (.error (some e)) => some (.error (some e))
  | _ => some (.error none)

/-- `FinalSuccess::make_error`. -/
def makeError (error : ε) : FinalSuccessData ε→FinalSuccessData ε
  | some (.error (some e)) => some (.error (some e))
  | _ => some (.error (some error))

/-- `FinalSuccess::get_result`, which leaves the cell empty. -/
def getResult : FinalSuccessData ε→Except (Option ε) Unit
  | some result => result
  | none => .error none

/-- A slot, from `prepare_send` to the end of its last operation. -/
inductive SlotState (τ : Type) where
  /-- Held by a thread. -/
  | live
  /-- `Slot::finish` has disarmed the error and is about to send. -/
  | disarmed (item : τ)
  /-- `Slot::finish` has sent; the flag tells whether a receiver was left. -/
  | finished (item : τ) (accepted : Bool)
  /-- `Slot::error` has recorded its error and still holds the oneshot sender. -/
  | errorSet
  /-- `Slot::error` has returned. -/
  | errored
  /-- Implicit drop: the oneshot sender is gone, the unknown error is not set yet. -/
  | senderDropped
  /-- Implicit drop is complete. -/
  | dropped
  deriving DecidableEq,Repr

/-- The value of a finished slot. -/
def SlotState.value : SlotState τ→Option τ
  | .finished item _ => some item
  | _ => none

/-- Whether the oneshot sender was dropped without sending. -/
def SlotState.lost : SlotState τ→Bool
  | .errored => true
  | .senderDropped => true
  | .dropped => true
  | _ => false

/-- Whether the slot has put an error into the shared cell. -/
def SlotState.flagged : SlotState τ→Bool
  | .errorSet => true
  | .errored => true
  | .dropped => true
  | _ => false

/-- The steps of a slot. -/
inductive SlotAction (τ ε : Type) where
  | disarm (item : τ)
  | send
  | setError (error : ε)
  | dropErrorSender
  | dropSender
  | dropFlag
  deriving DecidableEq,Repr

/-- One step of a slot, with its effect on the shared cell. -/
def SlotState.act (accepted : Bool) :
    SlotState τ→SlotAction τ ε→Option (SlotState τ×(FinalSuccessData ε→FinalSuccessData ε))
  | .live,.disarm item => some (.disarmed item,id)
  | .disarmed item,.send => some (.finished item accepted,id)
  | .live,.setError error => some (.errorSet,makeError error)
  | .errorSet,.dropErrorSender => some (.errored,id)
  | .live,.dropSender => some (.senderDropped,id)
  | .senderDropped,.dropFlag => some (.dropped,makeUnknownError)
  | _,_ => none

/-- The sending side. -/
inductive SenderState (ε : Type) where
  /-- Slots can be prepared. -/
  | live
  /-- `Sender::finish` has recorded its result and still holds the channel. -/
  | finishing (result : Except ε Unit)
  /-- The channel is disconnected; without a result the sender was only dropped. -/
  | gone (result : Option (Except ε Unit))

/-- Whether `Sender::finish(Ok(()))` was called. -/
def SenderState.finishedOk : SenderState ε→Prop
  | .finishing (.ok _) => True
  | .gone (some (.ok _)) => True
  | _ => False

/-- The receiving side, inside `Receiver::try_for_each`. -/
inductive ReceiverState (τ ε : Type) where
  /-- In `recv`, waiting on the channel. -/
  | receiving
  /-- In `recv`, waiting for the item of a slot. -/
  | awaiting (slot : ℕ)
  /-- In the callback. -/
  | applying (item : τ)
  /-- In `finish`, waiting on the channel. -/
  | finishing
  /-- In `finish`, the channel receiver dropped, about to take the result. -/
  | taking
  /-- `try_for_each` has returned. -/
  | done (result : Except ε Unit)

/-- Whether the channel receiver is gone. -/
def ReceiverState.disconnected : ReceiverState τ ε→Bool
  | .taking => true
  | .done _ => true
  | _ => false

/-- Whether the receiver is blocked on the channel. -/
def ReceiverState.onChannel : ReceiverState τ ε→Bool
  | .receiving => true
  | .finishing => true
  | _ => false

/-- A queue together with its three kinds of parties. -/
structure State (τ ε : Type) where
  /-- Every slot obtained so far, in `prepare_send` order. -/
  slots : List (SlotState τ)
  /-- The slots whose oneshot receivers are in the channel. -/
  channel : List ℕ
  /-- The shared cell. -/
  cell : FinalSuccessData ε
  /-- The sending side. -/
  sender : SenderState ε
  /-- The receiving side. -/
  receiver : ReceiverState τ ε
  /-- The values the callback was applied to. -/
  seen : List τ

/-- `bounded`: an empty queue. -/
def initial : State τ ε := ⟨[],[],none,.live,.receiving,[]⟩

/-- Whether the oneshot receiver of a slot still exists. -/
def State.accepts (s : State τ ε) (slot : ℕ) : Bool :=
  decide (slot∈s.channel) ||
    match s.receiver with
    | .awaiting waited => decide (waited=slot)
    | _ => false

/-- Room for one more item; a channel without capacity hands over directly. -/
def State.hasRoom (capacity : ℕ) (s : State τ ε) : Bool :=
  decide (s.channel.length<capacity) || (capacity==0 && s.channel.isEmpty && s.receiver.onChannel)

/-- The steps of the three parties. -/
inductive Event (τ ε : Type) where
  /-- `Sender::prepare_send`. -/
  | prepareSend
  /-- `Sender::finish`, up to recording the result. -/
  | finishSender (result : Except ε Unit)
  /-- The end of `Sender::finish`, or an implicit drop of the sender. -/
  | dropSender
  /-- A step of one slot. -/
  | slot (index : ℕ) (action : SlotAction τ ε)
  /-- `recv` on the channel, from `Receiver::recv` or from `Receiver::finish`. -/
  | recvChannel
  /-- `recv` on the oneshot receiver of a slot. -/
  | recvItem
  /-- The callback returns. -/
  | callback (result : Except ε Unit)
  /-- `get_result`. -/
  | takeResult

/-- The sender without the channel. -/
def SenderState.disconnect : SenderState ε→Option (SenderState ε)
  | .live => some (.gone none)
  | .finishing result => some (.gone (some result))
  | .gone _ => none

/-- What `finish` of the sender does to the cell. -/
def recordResult : Except ε Unit→FinalSuccessData ε→FinalSuccessData ε
  | .ok _ => makeSuccess
  | .error e => makeError e

/-- A receive on the channel: the next item, a disconnected channel, or no answer yet. -/
def State.recv (s : State τ ε) : Option (State τ ε×Option ℕ) :=
  match s.channel with
  | slot::channel => some ({s with channel := channel},some slot)
  | [] =>
    match s.sender with
    | .gone _ => some (s,none)
    | _ => none

/-- One step of one party; `unknown` is the converted `UnknownError`. -/
def step (capacity : ℕ) (unknown : ε) (s : State τ ε) : Event τ ε→Option (State τ ε)
  | .prepareSend =>
    match s.sender with
    | .live =>
      if s.receiver.disconnected then some s
      else if s.hasRoom capacity then
        some {s with slots := s.slots++[.live], channel := s.channel++[s.slots.length]}
      else none
    | _ => none
  | .finishSender result =>
    match s.sender with
    | .live => some {s with cell := recordResult result s.cell, sender := .finishing result}
    | _ => none
  | .dropSender => s.sender.disconnect.map (fun sender => {s with sender := sender})
  | .slot index action =>
    match s.slots[index]? with
    | some slot =>
      (slot.act (s.accepts index) action).map
        (fun r => {s with slots := s.slots.set index r.1, cell := r.2 s.cell})
    | none => none
  | .recvChannel =>
    match s.receiver with
    | .receiving => s.recv.map (fun r =>
        match r.2 with
        | some slot => {r.1 with receiver := .awaiting slot}
        | none => {r.1 with receiver := .finishing})
    | .finishing => s.recv.map (fun r =>
        match r.2 with
        | some _ => {r.1 with receiver := .done (.error unknown), channel := []}
        | none => {r.1 with receiver := .taking})
    | _ => none
  | .recvItem =>
    match s.receiver with
    | .awaiting index =>
      match s.slots[index]? with
      | some (.finished item _) => some {s with receiver := .applying item}
      | some slot => if slot.lost then some {s with receiver := .finishing} else none
      | none => none
    | _ => none
  | .callback result =>
    match s.receiver with
    | .applying item =>
      match result with
      | .ok _ => some {s with seen := s.seen++[item], receiver := .receiving}
      | .error e => some {s with seen := s.seen++[item], receiver := .done (.error e), channel := []}
    | _ => none
  | .takeResult =>
    match s.receiver with
    | .taking =>
      match getResult s.cell with
      | .ok _ => some {s with cell := none, receiver := .done (.ok ())}
      | .error e => some {s with cell := none, receiver := .done (.error (e.getD unknown))}
    | _ => none

section Cells

/-- An effect on the cell that never creates a success and never removes an error. -/
structure KeepsErrors (effect : FinalSuccessData ε→FinalSuccessData ε) : Prop where
  ok_of : ∀ {cell}, effect cell=some (.ok ()) → cell=some (.ok ())
  error_of : ∀ {cell e}, cell=some (.error e) → ∃ e', effect cell=some (.error e')

/-- After recording an error the cell holds an error. -/
theorem makeError_error (e : ε) (cell : FinalSuccessData ε) :
    ∃ e', makeError e cell=some (.error e') := by
  unfold makeError
  split
  · exact ⟨_,rfl⟩
  · exact ⟨_,rfl⟩

/-- After recording the unknown error the cell holds an error. -/
theorem makeUnknownError_error (cell : FinalSuccessData ε) :
    ∃ e', makeUnknownError cell=some (.error e') := by
  unfold makeUnknownError
  split
  · exact ⟨_,rfl⟩
  · exact ⟨_,rfl⟩

/-- An effect that always leaves an error keeps errors. -/
theorem KeepsErrors.of_error {effect : FinalSuccessData ε→FinalSuccessData ε}
    (h : ∀ cell, ∃ e, effect cell=some (.error e)) : KeepsErrors effect := by
  refine ⟨fun {cell} hok => ?_,fun {cell} _ _ => h cell⟩
  obtain ⟨e,he⟩ := h cell
  rw [he] at hok
  cases hok

/-- Recording the sender's result keeps an error and succeeds only on success. -/
theorem recordResult_error {result : Except ε Unit} {cell : FinalSuccessData ε} {e : Option ε}
    (h : cell=some (.error e)) : ∃ e', recordResult result cell=some (.error e') := by
  cases result with
  | ok _ => exact ⟨e,by rw [h]; rfl⟩
  | error e' => exact makeError_error e' cell

/-- A recorded error never leaves a success. -/
theorem recordResult_ok {result : Except ε Unit} {cell : FinalSuccessData ε}
    (h : recordResult result cell=some (.ok ())) : result=.ok () := by
  cases result with
  | ok _ => rfl
  | error e =>
    obtain ⟨e',he⟩ := makeError_error e cell
    have hboth : some (Except.error e')=some (.ok ()) := he.symm.trans h
    cases hboth

end Cells

section Slots

/-- What one step of a slot can do: it starts without a value, keeps a lost
slot lost, and raises its flag only together with an error in the cell. -/
theorem act_cases {accepted : Bool} {slot next : SlotState τ} {action : SlotAction τ ε}
    {effect : FinalSuccessData ε→FinalSuccessData ε}
    (h : slot.act accepted action=some (next,effect)) :
    slot.value=none ∧ (slot.lost=true → next.lost=true) ∧ KeepsErrors effect ∧
      (next.flagged=true → slot.flagged=true ∨ ∀ cell, ∃ e, effect cell=some (.error e)) := by
  have hid : KeepsErrors (id : FinalSuccessData ε→FinalSuccessData ε) :=
    ⟨fun hok => hok,fun he => ⟨_,he⟩⟩
  have hunknown := KeepsErrors.of_error (@makeUnknownError_error ε)
  cases slot <;> cases action <;> cases h
  case live.disarm item => exact ⟨rfl,nofun,hid,nofun⟩
  case live.setError error =>
    have he := makeError_error error
    exact ⟨rfl,nofun,KeepsErrors.of_error he,fun _ => Or.inr he⟩
  case live.dropSender => exact ⟨rfl,nofun,hid,nofun⟩
  case disarmed.send item => exact ⟨rfl,nofun,hid,nofun⟩
  case errorSet.dropErrorSender => exact ⟨rfl,nofun,hid,fun _ => Or.inl rfl⟩
  case senderDropped.dropFlag =>
    exact ⟨rfl,fun _ => rfl,hunknown,fun _ => Or.inr makeUnknownError_error⟩

/-- The state after a step of one slot. -/
def State.setSlot (s : State τ ε) (index : ℕ) (next : SlotState τ)
    (effect : FinalSuccessData ε→FinalSuccessData ε) : State τ ε :=
  {s with slots := s.slots.set index next, cell := effect s.cell}

/-- A step of a slot, taken apart. -/
theorem step_slot {capacity : ℕ} {unknown : ε} {s t : State τ ε} {index : ℕ}
    {action : SlotAction τ ε} (h : step capacity unknown s (.slot index action)=some t) :
    ∃ slot next effect, s.slots[index]?=some slot ∧
      slot.act (s.accepts index) action=some (next,effect) ∧ t=s.setSlot index next effect := by
  cases hs : s.slots[index]? with
  | none => simp only [step,hs] at h; cases h
  | some slot =>
    simp only [step,hs] at h
    obtain ⟨r,hr,ht⟩ := Option.map_eq_some_iff.mp h
    exact ⟨slot,r.1,r.2,rfl,hr,ht.symm⟩

end Slots

section Inversion

/-- What a receive on the channel returns. -/
theorem recv_cases {s : State τ ε} {r : State τ ε×Option ℕ} (h : s.recv=some r) :
    (∃ slot channel, s.channel=slot::channel ∧ r=({s with channel := channel},some slot)) ∨
      (s.channel=[] ∧ (∃ result, s.sender=.gone result) ∧ r=(s,none)) := by
  unfold State.recv at h
  cases hc : s.channel with
  | cons slot channel =>
    rw [hc] at h
    exact Or.inl ⟨slot,channel,rfl,(Option.some.inj h).symm⟩
  | nil =>
    rw [hc] at h
    cases hsender : s.sender with
    | gone result =>
      rw [hsender] at h
      exact Or.inr ⟨rfl,⟨result,rfl⟩,(Option.some.inj h).symm⟩
    | live => rw [hsender] at h; cases h
    | finishing result => rw [hsender] at h; cases h

/-- Preparing a slot, taken apart. -/
theorem step_prepareSend {capacity : ℕ} {unknown : ε} {s t : State τ ε}
    (h : step capacity unknown s .prepareSend=some t) :
    s.sender=.live ∧ ((s.receiver.disconnected=true ∧ t=s) ∨ s.receiver.disconnected=false ∧
      t={s with slots := s.slots++[.live], channel := s.channel++[s.slots.length]}) := by
  unfold step at h
  cases hsender : s.sender with
  | live =>
    rw [hsender] at h
    refine ⟨rfl,?_⟩
    cases hd : s.receiver.disconnected with
    | true =>
      rw [hd] at h
      exact Or.inl ⟨rfl,(Option.some.inj h).symm⟩
    | false =>
      rw [hd] at h
      dsimp only at h
      by_cases hroom : s.hasRoom capacity
      · rw [if_neg Bool.false_ne_true,if_pos hroom] at h
        exact Or.inr ⟨rfl,(Option.some.inj h).symm⟩
      · rw [if_neg Bool.false_ne_true,if_neg hroom] at h
        cases h
  | finishing result => rw [hsender] at h; cases h
  | gone result => rw [hsender] at h; cases h

/-- Recording the sender's result, taken apart. -/
theorem step_finishSender {capacity : ℕ} {unknown : ε} {s t : State τ ε} {result : Except ε Unit}
    (h : step capacity unknown s (.finishSender result)=some t) :
    s.sender=.live ∧
      t={s with cell := recordResult result s.cell, sender := .finishing result} := by
  unfold step at h
  cases hsender : s.sender with
  | live =>
    rw [hsender] at h
    exact ⟨rfl,(Option.some.inj h).symm⟩
  | finishing result => rw [hsender] at h; cases h
  | gone result => rw [hsender] at h; cases h

/-- What disconnecting a sender keeps. -/
theorem disconnect_cases {sender next : SenderState ε} (h : sender.disconnect=some next) :
    (sender.finishedOk → next.finishedOk) ∧ ∃ result, next=.gone result := by
  cases sender with
  | live =>
    cases h
    exact ⟨fun hf => hf.elim,_,rfl⟩
  | finishing result =>
    cases h
    refine ⟨fun hf => ?_,_,rfl⟩
    cases result with
    | ok _ => trivial
    | error e => exact hf
  | gone result => cases h

/-- A receive on the channel, taken apart. -/
theorem step_recvChannel {capacity : ℕ} {unknown : ε} {s t : State τ ε}
    (h : step capacity unknown s .recvChannel=some t) :
    (s.receiver=.receiving ∧ ((∃ slot channel, s.channel=slot::channel ∧
        t={s with channel := channel, receiver := .awaiting slot}) ∨
      (s.channel=[] ∧ (∃ result, s.sender=.gone result) ∧ t={s with receiver := .finishing}))) ∨
    (s.receiver=.finishing ∧ ((s.channel≠[] ∧
        t={s with receiver := .done (.error unknown), channel := []}) ∨
      (s.channel=[] ∧ (∃ result, s.sender=.gone result) ∧ t={s with receiver := .taking}))) := by
  unfold step at h
  cases hr : s.receiver with
  | receiving =>
    rw [hr] at h
    obtain ⟨r,hrecv,rfl⟩ := Option.map_eq_some_iff.mp h
    rcases recv_cases hrecv with ⟨slot,channel,hc,rfl⟩|⟨hc,hgone,rfl⟩
    · exact Or.inl ⟨rfl,Or.inl ⟨slot,channel,hc,rfl⟩⟩
    · exact Or.inl ⟨rfl,Or.inr ⟨hc,hgone,rfl⟩⟩
  | finishing =>
    rw [hr] at h
    obtain ⟨r,hrecv,rfl⟩ := Option.map_eq_some_iff.mp h
    rcases recv_cases hrecv with ⟨slot,channel,hc,rfl⟩|⟨hc,hgone,rfl⟩
    · have hne : s.channel≠[] := by
        rw [hc]
        exact List.cons_ne_nil slot channel
      exact Or.inr ⟨rfl,Or.inl ⟨hne,rfl⟩⟩
    · exact Or.inr ⟨rfl,Or.inr ⟨hc,hgone,rfl⟩⟩
  | awaiting i => rw [hr] at h; cases h
  | applying item => rw [hr] at h; cases h
  | taking => rw [hr] at h; cases h
  | done result => rw [hr] at h; cases h

/-- A receive on the oneshot receiver of a slot, taken apart. -/
theorem step_recvItem {capacity : ℕ} {unknown : ε} {s t : State τ ε}
    (h : step capacity unknown s .recvItem=some t) :
    ∃ index slot, s.receiver=.awaiting index ∧ s.slots[index]?=some slot ∧
      ((∃ item, slot.value=some item ∧ t={s with receiver := .applying item}) ∨
        (slot.lost=true ∧ t={s with receiver := .finishing})) := by
  unfold step at h
  cases hr : s.receiver with
  | awaiting index =>
    rw [hr] at h
    dsimp only at h
    cases hslot : s.slots[index]? with
    | none => rw [hslot] at h; cases h
    | some slot =>
      rw [hslot] at h
      refine ⟨index,slot,rfl,hslot,?_⟩
      cases slot with
      | finished item accepted =>
        exact Or.inl ⟨item,rfl,(Option.some.inj h).symm⟩
      | errored => exact Or.inr ⟨rfl,(Option.some.inj h).symm⟩
      | senderDropped => exact Or.inr ⟨rfl,(Option.some.inj h).symm⟩
      | dropped => exact Or.inr ⟨rfl,(Option.some.inj h).symm⟩
      | live => cases h
      | disarmed item => cases h
      | errorSet => cases h
  | receiving => rw [hr] at h; cases h
  | applying item => rw [hr] at h; cases h
  | finishing => rw [hr] at h; cases h
  | taking => rw [hr] at h; cases h
  | done result => rw [hr] at h; cases h

/-- The return of the callback, taken apart. -/
theorem step_callback {capacity : ℕ} {unknown : ε} {s t : State τ ε} {result : Except ε Unit}
    (h : step capacity unknown s (.callback result)=some t) :
    ∃ item, s.receiver=.applying item ∧
      ((result=.ok () ∧ t={s with seen := s.seen++[item], receiver := .receiving}) ∨
        ∃ e, result=.error e ∧
          t={s with seen := s.seen++[item], receiver := .done (.error e), channel := []}) := by
  unfold step at h
  cases hr : s.receiver with
  | applying item =>
    rw [hr] at h
    refine ⟨item,rfl,?_⟩
    cases result with
    | ok _ => exact Or.inl ⟨rfl,(Option.some.inj h).symm⟩
    | error e => exact Or.inr ⟨e,rfl,(Option.some.inj h).symm⟩
  | receiving => rw [hr] at h; cases h
  | awaiting i => rw [hr] at h; cases h
  | finishing => rw [hr] at h; cases h
  | taking => rw [hr] at h; cases h
  | done result => rw [hr] at h; cases h

/-- Taking the result, taken apart. -/
theorem step_takeResult {capacity : ℕ} {unknown : ε} {s t : State τ ε}
    (h : step capacity unknown s .takeResult=some t) :
    s.receiver=.taking ∧
      ((s.cell=some (.ok ()) ∧ t={s with cell := none, receiver := .done (.ok ())}) ∨
        ∃ e, getResult s.cell=.error e ∧
          t={s with cell := none, receiver := .done (.error (e.getD unknown))}) := by
  unfold step at h
  cases hr : s.receiver with
  | taking =>
    rw [hr] at h
    refine ⟨rfl,?_⟩
    cases hc : s.cell with
    | none =>
      rw [hc] at h
      exact Or.inr ⟨none,rfl,(Option.some.inj h).symm⟩
    | some final =>
      rw [hc] at h
      cases final with
      | ok _ => exact Or.inl ⟨rfl,(Option.some.inj h).symm⟩
      | error e => exact Or.inr ⟨e,rfl,(Option.some.inj h).symm⟩
  | receiving => rw [hr] at h; cases h
  | awaiting i => rw [hr] at h; cases h
  | applying item => rw [hr] at h; cases h
  | finishing => rw [hr] at h; cases h
  | done result => rw [hr] at h; cases h

/-- The steps of the receiver. -/
def Event.isReceiver : Event τ ε→Bool
  | .recvChannel => true
  | .recvItem => true
  | .callback _ => true
  | .takeResult => true
  | _ => false

/-- The receiver leaves the slots and the sender alone; only its callback sees items. -/
theorem step_receiver {capacity : ℕ} {unknown : ε} {s t : State τ ε} {e : Event τ ε}
    (he : e.isReceiver=true) (h : step capacity unknown s e=some t) :
    t.slots=s.slots ∧ t.sender=s.sender ∧ ((∀ result, e≠.callback result) → t.seen=s.seen) := by
  cases e with
  | prepareSend => cases he
  | finishSender result => cases he
  | dropSender => cases he
  | slot index action => cases he
  | recvChannel =>
    obtain ⟨_,⟨_,_,_,rfl⟩|⟨_,_,rfl⟩⟩|⟨_,⟨_,rfl⟩|⟨_,_,rfl⟩⟩ := step_recvChannel h
    all_goals exact ⟨rfl,rfl,fun _ => rfl⟩
  | recvItem =>
    obtain ⟨_,_,_,_,⟨_,_,rfl⟩|⟨_,rfl⟩⟩ := step_recvItem h
    all_goals exact ⟨rfl,rfl,fun _ => rfl⟩
  | callback result =>
    obtain ⟨_,_,⟨_,rfl⟩|⟨_,_,rfl⟩⟩ := step_callback h
    all_goals exact ⟨rfl,rfl,fun hne => (hne _ rfl).elim⟩
  | takeResult =>
    obtain ⟨_,⟨_,rfl⟩|⟨_,_,rfl⟩⟩ := step_takeResult h
    all_goals exact ⟨rfl,rfl,fun _ => rfl⟩

/-- The other parties leave the receiver alone. -/
theorem step_other {capacity : ℕ} {unknown : ε} {s t : State τ ε} {e : Event τ ε}
    (he : e.isReceiver=false) (h : step capacity unknown s e=some t) :
    t.receiver=s.receiver ∧ t.seen=s.seen := by
  cases e with
  | prepareSend =>
    obtain ⟨_,⟨_,rfl⟩|⟨_,rfl⟩⟩ := step_prepareSend h
    all_goals exact ⟨rfl,rfl⟩
  | finishSender result =>
    obtain ⟨_,rfl⟩ := step_finishSender h
    exact ⟨rfl,rfl⟩
  | dropSender =>
    obtain ⟨next,_,rfl⟩ := Option.map_eq_some_iff.mp h
    exact ⟨rfl,rfl⟩
  | slot index action =>
    obtain ⟨_,_,_,_,_,rfl⟩ := step_slot h
    exact ⟨rfl,rfl⟩
  | recvChannel => cases he
  | recvItem => cases he
  | callback result => cases he
  | takeResult => cases he

/-- Only the sender itself moves the sender. -/
theorem step_sender {capacity : ℕ} {unknown : ε} {s t : State τ ε} {e : Event τ ε}
    (h : step capacity unknown s e=some t) (hfinish : ∀ result, e≠.finishSender result)
    (hdrop : e≠.dropSender) : t.sender=s.sender := by
  cases e with
  | prepareSend =>
    obtain ⟨_,⟨_,rfl⟩|⟨_,rfl⟩⟩ := step_prepareSend h
    all_goals rfl
  | finishSender result => exact (hfinish result rfl).elim
  | dropSender => exact (hdrop rfl).elim
  | slot index action =>
    obtain ⟨_,_,_,_,_,rfl⟩ := step_slot h
    rfl
  | recvChannel => exact (step_receiver rfl h).2.1
  | recvItem => exact (step_receiver rfl h).2.1
  | callback result => exact (step_receiver rfl h).2.1
  | takeResult => exact (step_receiver rfl h).2.1

/-- After `try_for_each` has returned, the receiver takes no step. -/
theorem step_done {capacity : ℕ} {unknown : ε} {s t : State τ ε} {e : Event τ ε}
    (h : step capacity unknown s e=some t) {result : Except ε Unit}
    (hs : s.receiver=.done result) : t.receiver=.done result ∧ e.isReceiver=false := by
  have hother : e.isReceiver=false := by
    cases e with
    | recvChannel => rw [step,hs] at h; cases h
    | recvItem => rw [step,hs] at h; cases h
    | callback result => rw [step,hs] at h; cases h
    | takeResult => rw [step,hs] at h; cases h
    | prepareSend => rfl
    | finishSender result => rfl
    | dropSender => rfl
    | slot index action => rfl
  rw [(step_other hother h).1]
  exact ⟨hs,hother⟩

end Inversion

section Agreement

/-- The channel holds exactly the slots from a position on. -/
def State.Tail (s : State τ ε) (start : ℕ) : Prop :=
  start≤ s.slots.length ∧ s.channel=List.range' start (s.slots.length-start)

/-- Some slot was dropped without sending. -/
def State.HasLost (s : State τ ε) : Prop := ∃ slot∈s.slots, slot.lost=true

/-- Where the receiver stands among the slots. -/
def State.Positioned (s : State τ ε) : Prop :=
  match s.receiver with
  | .receiving => s.Tail s.seen.length
  | .awaiting index => index=s.seen.length ∧ s.Tail (index+1)
  | .applying item =>
    (s.slots.map SlotState.value)[s.seen.length]?=some (some item) ∧ s.Tail (s.seen.length+1)
  | .finishing => s.Tail s.seen.length ∨ s.HasLost
  | .taking => (∃ result, s.sender=.gone result) ∧ (s.slots.length=s.seen.length ∨ s.HasLost)
  | .done _ => True

/-- The invariant of every run. -/
structure Agrees (s : State τ ε) : Prop where
  /-- The callback saw the values of the first slots. -/
  seen : (s.slots.map SlotState.value).take s.seen.length=s.seen.map some
  /-- The cell holds a success only on behalf of the sender. -/
  cellOk : s.cell=some (.ok ()) → s.sender.finishedOk
  /-- A flag that was raised stays in the cell until the result is taken. -/
  cellError : (∃ slot∈s.slots, slot.flagged=true) →
    (∃ result, s.receiver=.done result) ∨ ∃ e, s.cell=some (.error e)
  /-- The channel and the receiver fit together. -/
  positioned : s.Positioned

/-- An empty queue agrees. -/
theorem initial_agrees : Agrees (initial : State τ ε) := by
  refine ⟨rfl,fun h => (by cases h),fun h => ?_,⟨Nat.le_refl 0,rfl⟩⟩
  obtain ⟨slot,hslot,_⟩ := h
  cases hslot

/-- The callback never saw more values than there are slots. -/
theorem Agrees.seen_length {s : State τ ε} (h : Agrees s) : s.seen.length≤ s.slots.length := by
  have hlen := congrArg List.length h.seen
  rw [List.length_take,List.length_map,List.length_map] at hlen
  omega

/-- A slot without a value stands behind everything the callback saw. -/
theorem Agrees.le_of_no_value {s : State τ ε} (h : Agrees s) {index : ℕ} {slot : SlotState τ}
    (hslot : s.slots[index]?=some slot) (hvalue : slot.value=none) : s.seen.length≤ index := by
  by_contra hlt
  have hlt : index<s.seen.length := Nat.lt_of_not_le hlt
  have hleft : ((s.slots.map SlotState.value).take s.seen.length)[index]?=some none := by
    rw [List.getElem?_take_of_lt hlt,List.getElem?_map,hslot,Option.map_some,hvalue]
  rw [h.seen,List.getElem?_map] at hleft
  obtain ⟨item,_,hitem⟩ := Option.map_eq_some_iff.mp hleft
  cases hitem

/-- Replacing a slot keeps a lost slot as long as the new one is lost when the old was. -/
theorem exists_set {p : SlotState τ→Bool} {slots : List (SlotState τ)} {index : ℕ}
    {slot next : SlotState τ} (hslot : slots[index]?=some slot) (hnext : p slot=true → p next=true)
    (h : ∃ other∈slots, p other=true) : ∃ other∈slots.set index next, p other=true := by
  obtain ⟨other,hother,hp⟩ := h
  obtain ⟨j,hj⟩ := List.mem_iff_getElem?.mp hother
  by_cases hij : index=j
  · subst hij
    rw [hslot] at hj
    obtain rfl := Option.some.inj hj
    have hlt : index<slots.length := (List.getElem?_eq_some_iff.mp hslot).1
    exact ⟨next,List.mem_iff_getElem?.mpr ⟨index,List.getElem?_set_self hlt⟩,hnext hp⟩
  · refine ⟨other,List.mem_iff_getElem?.mpr ⟨j,?_⟩,hp⟩
    rw [List.getElem?_set_ne hij,hj]

/-- A step of a slot keeps the agreement. -/
theorem agrees_slot {s : State τ ε} {index : ℕ} {accepted : Bool} {slot next : SlotState τ}
    {action : SlotAction τ ε} {effect : FinalSuccessData ε→FinalSuccessData ε}
    (hs : Agrees s) (hslot : s.slots[index]?=some slot)
    (hact : slot.act accepted action=some (next,effect)) :
    Agrees (s.setSlot index next effect) := by
  obtain ⟨hvalue,hlost,heffect,hflag⟩ := act_cases hact
  have hle := hs.le_of_no_value hslot hvalue
  have hlen : (s.slots.set index next).length=s.slots.length := List.length_set
  have hlostSet : s.HasLost → (s.setSlot index next effect).HasLost := exists_set hslot hlost
  have htail : ∀ {start}, s.Tail start → (s.setSlot index next effect).Tail start := by
    intro start ht
    unfold State.Tail State.setSlot
    dsimp only
    rw [hlen]
    exact ht
  refine ⟨?_,fun hok => hs.cellOk (heffect.ok_of hok),fun hflagged => ?_,?_⟩
  · dsimp only [State.setSlot]
    rw [List.map_set,List.take_set_of_le hle]
    exact hs.seen
  · obtain ⟨other,hother,hp⟩ := hflagged
    rcases List.mem_or_eq_of_mem_set hother with hold|rfl
    · rcases hs.cellError ⟨other,hold,hp⟩ with hdone|⟨e,he⟩
      · exact Or.inl hdone
      · exact Or.inr (heffect.error_of he)
    · rcases hflag hp with hslotFlag|herror
      · have hmem : slot∈s.slots := List.mem_iff_getElem?.mpr ⟨index,hslot⟩
        rcases hs.cellError ⟨slot,hmem,hslotFlag⟩ with hdone|⟨e,he⟩
        · exact Or.inl hdone
        · exact Or.inr (heffect.error_of he)
      · exact Or.inr (herror s.cell)
  · have hp := hs.positioned
    unfold State.Positioned at hp ⊢
    dsimp only [State.setSlot] at hp ⊢
    cases hr : s.receiver with
    | receiving =>
      rw [hr] at hp
      exact htail hp
    | awaiting i =>
      rw [hr] at hp
      exact ⟨hp.1,htail hp.2⟩
    | applying item =>
      rw [hr] at hp
      refine ⟨?_,htail hp.2⟩
      have hne : index≠s.seen.length := by
        intro heq
        have hget := hp.1
        rw [List.getElem?_map,←heq,hslot,Option.map_some,hvalue] at hget
        cases hget
      rw [List.map_set,List.getElem?_set_ne hne]
      exact hp.1
    | finishing =>
      rw [hr] at hp
      exact hp.imp htail hlostSet
    | taking =>
      rw [hr] at hp
      dsimp only
      rw [hlen]
      exact ⟨hp.1,hp.2.imp (fun he => he) hlostSet⟩
    | done result => trivial

/-- Preparing a slot keeps the agreement. -/
theorem agrees_prepare {s : State τ ε} (hs : Agrees s) (hopen : s.receiver.disconnected=false) :
    Agrees {s with slots := s.slots++[.live], channel := s.channel++[s.slots.length]} := by
  have hle := hs.seen_length
  have htail : ∀ {start}, s.Tail start → State.Tail {s with
      slots := s.slots++[SlotState.live], channel := s.channel++[s.slots.length]} start := by
    intro start ht
    obtain ⟨hstart,hchannel⟩ := ht
    have hcount : s.slots.length+1-start=(s.slots.length-start)+1 := by omega
    have hlast : start+(s.slots.length-start)=s.slots.length := by omega
    refine ⟨?_,?_⟩
    · dsimp only
      rw [List.length_append,List.length_singleton]
      omega
    · dsimp only
      rw [List.length_append,List.length_singleton,hchannel,hcount,List.range'_1_concat,hlast]
  refine ⟨?_,hs.cellOk,fun hflagged => ?_,?_⟩
  · dsimp only
    rw [List.map_append,List.take_append_of_le_length (by rw [List.length_map]; exact hle)]
    exact hs.seen
  · obtain ⟨other,hother,hp⟩ := hflagged
    rcases List.mem_append.mp hother with hold|hnew
    · exact hs.cellError ⟨other,hold,hp⟩
    · rw [List.mem_singleton.mp hnew] at hp
      cases hp
  · have hp := hs.positioned
    unfold State.Positioned at hp ⊢
    dsimp only
    cases hr : s.receiver with
    | receiving =>
      rw [hr] at hp
      exact htail hp
    | awaiting i =>
      rw [hr] at hp
      exact ⟨hp.1,htail hp.2⟩
    | applying item =>
      rw [hr] at hp
      obtain ⟨hget,ht⟩ := hp
      have hlt := (List.getElem?_eq_some_iff.mp hget).1
      refine ⟨?_,htail ht⟩
      rw [List.map_append,List.getElem?_append_left hlt]
      exact hget
    | finishing =>
      rw [hr] at hp
      rcases hp with ht|⟨slot,hslot,hlost⟩
      · exact Or.inl (htail ht)
      · exact Or.inr ⟨slot,List.mem_append_left _ hslot,hlost⟩
    | taking =>
      rw [hr] at hopen
      cases hopen
    | done result => trivial

/-- Recording the sender's result keeps the agreement. -/
theorem agrees_finishSender {s : State τ ε} {result : Except ε Unit} (hs : Agrees s)
    (hlive : s.sender=.live) :
    Agrees {s with cell := recordResult result s.cell, sender := .finishing result} := by
  refine ⟨hs.seen,fun hok => ?_,fun hflagged => ?_,?_⟩
  · rw [recordResult_ok hok]
    trivial
  · rcases hs.cellError hflagged with hdone|⟨e,he⟩
    · exact Or.inl hdone
    · exact Or.inr (recordResult_error he)
  · have hp := hs.positioned
    unfold State.Positioned at hp ⊢
    dsimp only
    cases hr : s.receiver with
    | receiving => rw [hr] at hp; exact hp
    | awaiting i => rw [hr] at hp; exact hp
    | applying item => rw [hr] at hp; exact hp
    | finishing => rw [hr] at hp; exact hp
    | taking =>
      rw [hr] at hp
      obtain ⟨⟨last,hgone⟩,_⟩ := hp
      rw [hlive] at hgone
      cases hgone
    | done result => trivial

/-- Disconnecting the channel keeps the agreement. -/
theorem agrees_dropSender {s : State τ ε} {next : SenderState ε} (hs : Agrees s)
    (h : s.sender.disconnect=some next) : Agrees {s with sender := next} := by
  obtain ⟨hok,hgone⟩ := disconnect_cases h
  refine ⟨hs.seen,fun hc => hok (hs.cellOk hc),hs.cellError,?_⟩
  have hp := hs.positioned
  unfold State.Positioned at hp ⊢
  dsimp only
  cases hr : s.receiver with
  | receiving => rw [hr] at hp; exact hp
  | awaiting i => rw [hr] at hp; exact hp
  | applying item => rw [hr] at hp; exact hp
  | finishing => rw [hr] at hp; exact hp
  | taking =>
    rw [hr] at hp
    exact ⟨hgone,hp.2⟩
  | done result => trivial

/-- Only the receiver and the rest of its channel change; the seen values stay. -/
theorem Agrees.receive {s : State τ ε} (hs : Agrees s) {receiver : ReceiverState τ ε}
    {channel : List ℕ} (hopen : s.receiver.disconnected=false)
    (hp : State.Positioned {s with channel := channel, receiver := receiver}) :
    Agrees {s with channel := channel, receiver := receiver} := by
  refine ⟨hs.seen,hs.cellOk,fun hflagged => ?_,hp⟩
  rcases hs.cellError hflagged with ⟨result,hr⟩|he
  · rw [hr] at hopen
    cases hopen
  · exact Or.inr he

/-- A receive on the channel keeps the agreement. -/
theorem agrees_recvChannel {capacity : ℕ} {unknown : ε} {s t : State τ ε} (hs : Agrees s)
    (h : step capacity unknown s .recvChannel=some t) : Agrees t := by
  have hp := hs.positioned
  unfold State.Positioned at hp
  rcases step_recvChannel h with ⟨hr,hcases⟩|⟨hr,hcases⟩
  · have hopen : s.receiver.disconnected=false := by rw [hr]; rfl
    rw [hr] at hp
    rcases hcases with ⟨slot,channel,hc,rfl⟩|⟨_,_,rfl⟩
    · obtain ⟨hle,hchannel⟩ := hp
      rw [hc] at hchannel
      have hpos : 0<s.slots.length-s.seen.length := by
        have hlen := congrArg List.length hchannel
        rw [List.length_cons,List.length_range'] at hlen
        omega
      obtain ⟨count,hcount⟩ := Nat.exists_eq_succ_of_ne_zero (Nat.pos_iff_ne_zero.mp hpos)
      rw [hcount,List.range'_succ] at hchannel
      obtain ⟨hslot,hrest⟩ := List.cons.inj hchannel
      have hleft : s.slots.length-(s.seen.length+1)=count := by omega
      refine hs.receive hopen ⟨hslot,?_,?_⟩
      · dsimp only
        omega
      · dsimp only
        rw [hslot,hleft]
        exact hrest
    · exact hs.receive hopen (Or.inl hp)
  · have hopen : s.receiver.disconnected=false := by rw [hr]; rfl
    rw [hr] at hp
    rcases hcases with ⟨_,rfl⟩|⟨hc,hgone,rfl⟩
    · exact hs.receive hopen trivial
    · refine hs.receive hopen ⟨hgone,hp.imp (fun hdone => ?_) (fun hlost => hlost)⟩
      obtain ⟨hle,hchannel⟩ := hdone
      rw [hc] at hchannel
      have hlen := congrArg List.length hchannel
      rw [List.length_nil,List.length_range'] at hlen
      dsimp only
      omega

/-- Receiving an item, or learning that it is lost, keeps the agreement. -/
theorem agrees_recvItem {capacity : ℕ} {unknown : ε} {s t : State τ ε} (hs : Agrees s)
    (h : step capacity unknown s .recvItem=some t) : Agrees t := by
  obtain ⟨index,slot,hr,hslot,hcases⟩ := step_recvItem h
  have hopen : s.receiver.disconnected=false := by rw [hr]; rfl
  have hp := hs.positioned
  unfold State.Positioned at hp
  rw [hr] at hp
  obtain ⟨hindex,htail⟩ := hp
  rcases hcases with ⟨item,hitem,rfl⟩|⟨hlost,rfl⟩
  · refine hs.receive hopen ⟨?_,?_⟩
    · dsimp only
      rw [List.getElem?_map,←hindex,hslot,Option.map_some,hitem]
    · rw [hindex] at htail
      exact htail
  · exact hs.receive hopen (Or.inr ⟨slot,List.mem_iff_getElem?.mpr ⟨index,hslot⟩,hlost⟩)

/-- One more value seen by the callback. -/
theorem Agrees.seen_snoc {s : State τ ε} (hs : Agrees s) {item : τ}
    (h : (s.slots.map SlotState.value)[s.seen.length]?=some (some item)) :
    (s.slots.map SlotState.value).take (s.seen++[item]).length=(s.seen++[item]).map some := by
  rw [List.length_append,List.length_singleton,List.take_add_one,h,hs.seen,List.map_append]
  rfl

/-- A returning callback keeps the agreement. -/
theorem agrees_callback {capacity : ℕ} {unknown : ε} {s t : State τ ε} {result : Except ε Unit}
    (hs : Agrees s) (h : step capacity unknown s (.callback result)=some t) : Agrees t := by
  obtain ⟨item,hr,hcases⟩ := step_callback h
  have hp := hs.positioned
  unfold State.Positioned at hp
  rw [hr] at hp
  obtain ⟨hget,htail⟩ := hp
  have hflag : (∃ slot∈s.slots, slot.flagged=true) → ∃ e, s.cell=some (.error e) := by
    intro hflagged
    rcases hs.cellError hflagged with ⟨result,hdone⟩|he
    · rw [hr] at hdone
      cases hdone
    · exact he
  rcases hcases with ⟨_,rfl⟩|⟨e,_,rfl⟩
  · refine ⟨hs.seen_snoc hget,hs.cellOk,fun hf => Or.inr (hflag hf),?_⟩
    unfold State.Positioned
    dsimp only
    rw [List.length_append,List.length_singleton]
    exact htail
  · exact ⟨hs.seen_snoc hget,hs.cellOk,fun hf => Or.inr (hflag hf),trivial⟩

/-- Taking the result keeps the agreement. -/
theorem agrees_takeResult {capacity : ℕ} {unknown : ε} {s t : State τ ε} (hs : Agrees s)
    (h : step capacity unknown s .takeResult=some t) : Agrees t := by
  obtain ⟨_,⟨_,rfl⟩|⟨e,_,rfl⟩⟩ := step_takeResult h
  · exact ⟨hs.seen,nofun,fun _ => Or.inl ⟨_,rfl⟩,trivial⟩
  · exact ⟨hs.seen,nofun,fun _ => Or.inl ⟨_,rfl⟩,trivial⟩

/-- Every step keeps the agreement. -/
theorem agrees_step {capacity : ℕ} {unknown : ε} {s t : State τ ε} {e : Event τ ε}
    (hs : Agrees s) (h : step capacity unknown s e=some t) : Agrees t := by
  cases e with
  | prepareSend =>
    obtain ⟨_,⟨_,rfl⟩|⟨hopen,rfl⟩⟩ := step_prepareSend h
    · exact hs
    · exact agrees_prepare hs hopen
  | finishSender result =>
    obtain ⟨hlive,rfl⟩ := step_finishSender h
    exact agrees_finishSender hs hlive
  | dropSender =>
    obtain ⟨next,hnext,rfl⟩ := Option.map_eq_some_iff.mp h
    exact agrees_dropSender hs hnext
  | slot index action =>
    obtain ⟨slot,next,effect,hslot,hact,rfl⟩ := step_slot h
    exact agrees_slot hs hslot hact
  | recvChannel => exact agrees_recvChannel hs h
  | recvItem => exact agrees_recvItem hs h
  | callback result => exact agrees_callback hs h
  | takeResult => exact agrees_takeResult hs h

end Agreement

section Soundness

/-- No silent truncation: success means that the sender finished with success,
every slot was finished, and the callback saw exactly the finished values in
order; on any other result it saw a prefix of them. -/
structure Sound (s : State τ ε) : Prop where
  ok : s.receiver=.done (.ok ()) → s.sender.finishedOk ∧
    (∀ slot∈s.slots, ∃ item accepted, slot=.finished item accepted) ∧
    s.seen=s.slots.filterMap SlotState.value
  error : ∀ e, s.receiver=.done (.error e) → s.seen<+:s.slots.filterMap SlotState.value

/-- A slot whose oneshot sender is dropped while its error flag is not raised yet. -/
def State.HalfDropped (s : State τ ε) : Prop := .senderDropped∈s.slots

/-- The step does not take a recorded success while some slot is half dropped. -/
def TakesNoHalfDrop (p : State τ ε×Event τ ε) : Prop :=
  p.2=.takeResult → p.1.cell=some (.ok ()) → ¬p.1.HalfDropped

/-- The values seen are always a prefix of the finished values. -/
theorem Agrees.seen_isPrefix {s : State τ ε} (hs : Agrees s) :
    s.seen<+:s.slots.filterMap SlotState.value := by
  have hall : s.slots.filterMap SlotState.value=(s.slots.map SlotState.value).filterMap id := by
    rw [List.filterMap_map]
    rfl
  have hseen : (s.seen.map some).filterMap id=s.seen := by
    rw [List.filterMap_map]
    exact List.filterMap_some
  rw [hall,←List.take_append_drop s.seen.length (s.slots.map SlotState.value),hs.seen,
    List.filterMap_append,hseen]
  exact List.prefix_append _ _

/-- A slot with a value is finished. -/
theorem finished_of_value {slot : SlotState τ} {item : τ} (h : slot.value=some item) :
    ∃ item accepted, slot=.finished item accepted := by
  cases slot <;> cases h
  exact ⟨_,_,rfl⟩

/-- When the callback saw as many values as there are slots, they are all finished. -/
theorem Agrees.all_finished {s : State τ ε} (hs : Agrees s) (hlen : s.slots.length=s.seen.length) :
    (∀ slot∈s.slots, ∃ item accepted, slot=.finished item accepted) ∧
      s.seen=s.slots.filterMap SlotState.value := by
  have hvalues : s.slots.map SlotState.value=s.seen.map some := by
    have htake := hs.seen
    rw [←hlen,List.take_of_length_le (Nat.le_of_eq (List.length_map _))] at htake
    exact htake
  refine ⟨fun slot hslot => ?_,?_⟩
  · have hmem : slot.value∈s.seen.map some := by
      rw [←hvalues]
      exact List.mem_map_of_mem hslot
    obtain ⟨item,_,hitem⟩ := List.mem_map.mp hmem
    exact finished_of_value hitem.symm
  · have hfilter : s.slots.filterMap SlotState.value=(s.slots.map SlotState.value).filterMap id := by
      rw [List.filterMap_map]
      rfl
    rw [hfilter,hvalues,List.filterMap_map]
    exact List.filterMap_some.symm

/-- A lost slot is half dropped or has raised its flag. -/
theorem lost_cases {slot : SlotState τ} (h : slot.lost=true) :
    slot=.senderDropped ∨ slot.flagged=true := by
  cases slot with
  | senderDropped => exact Or.inl rfl
  | errored => exact Or.inr rfl
  | dropped => exact Or.inr rfl
  | live => cases h
  | disarmed item => cases h
  | finished item accepted => cases h
  | errorSet => cases h

/-- A success taken while no slot is half dropped is sound. -/
theorem takeResult_sound {s : State τ ε} (hs : Agrees s) (hr : s.receiver=.taking)
    (hok : s.cell=some (.ok ())) (hhalf : ¬s.HalfDropped) :
    Sound {s with cell := none, receiver := .done (.ok ())} := by
  have hp := hs.positioned
  unfold State.Positioned at hp
  rw [hr] at hp
  obtain ⟨_,hlen|⟨slot,hslot,hlost⟩⟩ := hp
  · exact ⟨fun _ => ⟨hs.cellOk hok,hs.all_finished hlen⟩,nofun⟩
  · exfalso
    rcases lost_cases hlost with rfl|hflag
    · exact hhalf hslot
    · rcases hs.cellError ⟨slot,hslot,hflag⟩ with ⟨result,hdone⟩|⟨e,he⟩
      · rw [hr] at hdone
        cases hdone
      · rw [hok] at he
        cases he

/-- A state in which the receiver has not returned success is sound. -/
theorem Agrees.sound_of_ne {s : State τ ε} (hs : Agrees s)
    (h : s.receiver≠.done (.ok ())) : Sound s :=
  ⟨fun hr => (h hr).elim,fun _ _ => hs.seen_isPrefix⟩

/-- After success has been returned soundly, no step changes what it means. -/
theorem sound_of_done {capacity : ℕ} {unknown : ε} {s t : State τ ε} {e : Event τ ε}
    (hs : Sound s) (hr : s.receiver=.done (.ok ())) (h : step capacity unknown s e=some t) :
    Sound t := by
  obtain ⟨hsender,hslots,hseen⟩ := hs.ok hr
  cases e with
  | prepareSend =>
    obtain ⟨hlive,_⟩ := step_prepareSend h
    rw [hlive] at hsender
    exact hsender.elim
  | finishSender result =>
    obtain ⟨hlive,_⟩ := step_finishSender h
    rw [hlive] at hsender
    exact hsender.elim
  | dropSender =>
    obtain ⟨next,hnext,rfl⟩ := Option.map_eq_some_iff.mp h
    refine ⟨fun _ => ⟨(disconnect_cases hnext).1 hsender,hslots,hseen⟩,fun e he => ?_⟩
    rw [hr] at he
    cases he
  | slot index action =>
    obtain ⟨slot,next,effect,hslot,hact,_⟩ := step_slot h
    have hmem : slot∈s.slots := List.mem_iff_getElem?.mpr ⟨index,hslot⟩
    obtain ⟨item,accepted,rfl⟩ := hslots slot hmem
    cases (act_cases hact).1
  | recvChannel => rw [step,hr] at h; cases h
  | recvItem => rw [step,hr] at h; cases h
  | callback result => rw [step,hr] at h; cases h
  | takeResult => rw [step,hr] at h; cases h

/-- Only taking a recorded success returns success. -/
theorem receiver_of_ne_takeResult {capacity : ℕ} {unknown : ε} {s t : State τ ε} {e : Event τ ε}
    (h : step capacity unknown s e=some t) (ht : t.receiver=.done (.ok ()))
    (hs : s.receiver≠.done (.ok ())) :
    e=.takeResult ∧ s.receiver=.taking ∧ s.cell=some (.ok ()) ∧
      t={s with cell := none, receiver := .done (.ok ())} := by
  cases he : e.isReceiver with
  | false =>
    rw [(step_other he h).1] at ht
    exact (hs ht).elim
  | true =>
    cases e with
    | prepareSend => cases he
    | finishSender result => cases he
    | dropSender => cases he
    | slot index action => cases he
    | recvChannel =>
      obtain ⟨_,⟨_,_,_,rfl⟩|⟨_,_,rfl⟩⟩|⟨_,⟨_,rfl⟩|⟨_,_,rfl⟩⟩ := step_recvChannel h
      all_goals cases ht
    | recvItem =>
      obtain ⟨_,_,_,_,⟨_,_,rfl⟩|⟨_,rfl⟩⟩ := step_recvItem h
      all_goals cases ht
    | callback result =>
      obtain ⟨_,_,⟨_,rfl⟩|⟨_,_,rfl⟩⟩ := step_callback h
      all_goals cases ht
    | takeResult =>
      obtain ⟨htaking,⟨hok,heq⟩|⟨_,_,rfl⟩⟩ := step_takeResult h
      · exact ⟨rfl,htaking,hok,heq⟩
      · cases ht

/-- A step under the condition keeps soundness. -/
theorem sound_step {capacity : ℕ} {unknown : ε} {s t : State τ ε} {e : Event τ ε}
    (hs : Agrees s ∧ Sound s) (hallowed : TakesNoHalfDrop (s,e))
    (h : step capacity unknown s e=some t) : Agrees t ∧ Sound t := by
  obtain ⟨hagrees,hsound⟩ := hs
  have hnext := agrees_step hagrees h
  refine ⟨hnext,?_⟩
  by_cases hdone : s.receiver=.done (.ok ())
  · exact sound_of_done hsound hdone h
  by_cases hnow : t.receiver=.done (.ok ())
  · obtain ⟨rfl,htaking,hok,rfl⟩ := receiver_of_ne_takeResult h hnow hdone
    exact takeResult_sound hagrees htaking hok (hallowed rfl hok)
  · exact hnext.sound_of_ne hnow

/-- Success was returned although a slot was dropped. -/
def Truncated (s : State τ ε) : Prop :=
  s.receiver=.done (.ok ()) ∧ (.senderDropped∈s.slots ∨ .dropped∈s.slots)

/-- A truncated transfer is not sound. -/
theorem Truncated.not_sound {s : State τ ε} (h : Truncated s) : ¬Sound s := by
  intro hsound
  obtain ⟨hr,hslots⟩ := h
  obtain ⟨_,hall,_⟩ := hsound.ok hr
  rcases hslots with hmem|hmem
  · obtain ⟨item,accepted,heq⟩ := hall _ hmem
    cases heq
  · obtain ⟨item,accepted,heq⟩ := hall _ hmem
    cases heq

/-- No later step repairs a truncated transfer. -/
theorem truncated_step {capacity : ℕ} {unknown : ε} {s t : State τ ε} {e : Event τ ε}
    (hs : Truncated s) (h : step capacity unknown s e=some t) : Truncated t := by
  obtain ⟨hr,hslots⟩ := hs
  cases e with
  | prepareSend =>
    obtain ⟨_,⟨_,rfl⟩|⟨_,rfl⟩⟩ := step_prepareSend h
    · exact ⟨hr,hslots⟩
    · exact ⟨hr,hslots.imp (List.mem_append_left _) (List.mem_append_left _)⟩
  | finishSender result =>
    obtain ⟨_,rfl⟩ := step_finishSender h
    exact ⟨hr,hslots⟩
  | dropSender =>
    obtain ⟨next,_,rfl⟩ := Option.map_eq_some_iff.mp h
    exact ⟨hr,hslots⟩
  | slot index action =>
    obtain ⟨slot,next,effect,hslot,hact,rfl⟩ := step_slot h
    refine ⟨hr,?_⟩
    have hlt : index<s.slots.length := (List.getElem?_eq_some_iff.mp hslot).1
    have hnew : next∈s.slots.set index next :=
      List.mem_iff_getElem?.mpr ⟨index,List.getElem?_set_self hlt⟩
    have hkeep : ∀ {other : SlotState τ}, other∈s.slots → other≠slot →
        other∈s.slots.set index next := by
      intro other hother hne
      obtain ⟨j,hj⟩ := List.mem_iff_getElem?.mp hother
      refine List.mem_iff_getElem?.mpr ⟨j,?_⟩
      rw [List.getElem?_set_ne,hj]
      rintro rfl
      rw [hslot] at hj
      exact hne (Option.some.inj hj).symm
    rcases hslots with hhalf|hdropped
    · by_cases heq : .senderDropped=slot
      · subst heq
        cases action <;> cases hact
        exact Or.inr hnew
      · exact Or.inl (hkeep hhalf heq)
    · refine Or.inr (hkeep hdropped ?_)
      rintro rfl
      cases action <;> cases hact
  | recvChannel => rw [step,hr] at h; cases h
  | recvItem => rw [step,hr] at h; cases h
  | callback result => rw [step,hr] at h; cases h
  | takeResult => rw [step,hr] at h; cases h

/-- Taking a recorded success while a slot is half dropped truncates the transfer. -/
theorem takeResult_truncated {capacity : ℕ} {unknown : ε} {s t : State τ ε} {e : Event τ ε}
    (hbad : ¬TakesNoHalfDrop (s,e)) (h : step capacity unknown s e=some t) : Truncated t := by
  unfold TakesNoHalfDrop at hbad
  push Not at hbad
  obtain ⟨rfl,hok,hhalf⟩ := hbad
  dsimp only at hok hhalf h
  obtain ⟨_,⟨_,rfl⟩|⟨e,he,_⟩⟩ := step_takeResult h
  · exact ⟨rfl,Or.inl hhalf⟩
  · rw [hok] at he
    cases he

/-- Of any run of the queue, with any capacity and any number of slots: the
result is sound exactly if no step took a recorded success while a slot was
half dropped. -/
theorem run_sound_iff {capacity : ℕ} {unknown : ε} {trace : List (State τ ε×Event τ ε)}
    {s : State τ ε} (run : Run (step capacity unknown) initial trace s) :
    Sound s ↔ ∀ p∈trace, TakesNoHalfDrop p := by
  constructor
  · intro hsound p hp
    by_contra hbad
    obtain ⟨front,back,mid,_,hstep,hback⟩ := run.exists_of_mem hp
    have hmid := takeResult_truncated hbad hstep
    exact (hback.invariant hmid truncated_step).not_sound hsound
  · intro hall
    have hstart : Agrees (initial : State τ ε) ∧ Sound (initial : State τ ε) :=
      ⟨initial_agrees,initial_agrees.sound_of_ne nofun⟩
    exact (run.invariant_of_all hstart hall sound_step).2

/-- Two slots finished out of order. -/
def outOfOrderEvents : List (Event ℕ Unit) :=
  [.prepareSend,.prepareSend,.slot 1 (.disarm 8),.slot 1 .send,.finishSender (.ok ()),.recvChannel,
    .slot 0 (.disarm 7),.slot 0 .send,.recvItem,.callback (.ok ()),.dropSender,.recvChannel,.recvItem,
    .callback (.ok ()),.recvChannel,.recvChannel,.takeResult]

/-- The run of two slots finished out of order is sound. -/
theorem run_sound_out_of_order : ∃ trace s,
    Run (step 2 ()) initial trace s ∧ s.receiver=.done (.ok ()) ∧ s.seen=[7,8] ∧
      (Sound s ↔ ∀ p∈trace, TakesNoHalfDrop p) :=
  ⟨_,_,@run_of_replay _ _ (step 2 ()) initial _ outOfOrderEvents _ rfl,rfl,rfl,
    run_sound_iff (@run_of_replay _ _ (step 2 ()) initial _ outOfOrderEvents _ rfl)⟩

/-- The last slot loses its oneshot sender; before its error flag is raised
the receiver takes the success that the sender has recorded. -/
def truncatingEvents : List (Event ℕ Unit) :=
  [.prepareSend,.slot 0 .dropSender,.finishSender (.ok ()),.dropSender,.recvChannel,.recvItem,
    .recvChannel,.takeResult,.slot 0 .dropFlag]

/-- Not every run is sound: a dropped slot can be lost silently. -/
theorem not_every_run_sound : ¬∀ (capacity : ℕ) (trace : List (State ℕ Unit×Event ℕ Unit))
    (s : State ℕ Unit), Run (step capacity ()) initial trace s → Sound s := by
  intro h
  have run := @run_of_replay _ _ (step 1 ()) initial _ truncatingEvents _ rfl
  have hlost : Truncated (⟨[.dropped],[],some (.error none),.gone (some (.ok ())),.done (.ok ()),
      []⟩ : State ℕ Unit) := ⟨rfl,Or.inr List.mem_cons_self⟩
  exact hlost.not_sound (h 1 _ _ run)

end Soundness

end Applesauce.SeqQueue
