import Applesauce.SeqQueue

/-!
# The error a queue reports

An error can be handed to the queue explicitly, by a slot or by the sender, and
the shared cell prefers such an error to the unknown one. The receiver looks
into the cell only after a second receive on the channel. The result is the
explicit error exactly as long as that receive does not yield a later slot.
-/

namespace Applesauce.RealErrors

open TransitionSystem SeqQueue

variable {τ ε : Type}

section Statement

/-- An event that hands an error to `Slot::error` or to `Sender::finish`. -/
def Passes : Event τ ε→ε→Prop
  | .slot _ (.setError e),passed => e=passed
  | .finishSender (.error e),passed => e=passed
  | _,_ => False

/-- An event in which the callback fails. -/
def Fails : Event τ ε→Prop
  | .callback (.error _) => True
  | _ => False

/-- An error that was passed explicitly during a run. -/
def Passed (trace : List (State τ ε×Event τ ε)) (e : ε) : Prop := ∃ p∈trace, Passes p.2 e

/-- The callback failed during a run. -/
def CallbackFailed (trace : List (State τ ε×Event τ ε)) : Prop := ∃ p∈trace, Fails p.2

/-- Whether `Slot::error` was called on a slot. -/
def failed : SlotState τ→Bool
  | .errorSet => true
  | .errored => true
  | _ => false

/-- The first slot that is not finished was failed explicitly. -/
def FirstFailed (s : State τ ε) : Prop :=
  ∃ (index : ℕ) (slot : SlotState τ), s.slots[index]?=some slot ∧ failed slot=true ∧
    ∀ earlier< index, ∃ item accepted, s.slots[earlier]?=some (SlotState.finished item accepted)

/-- The queue reports the real error: when the callback does not fail and the
first slot that is not finished was failed explicitly, `try_for_each` returns
an error that was passed explicitly. -/
def Reports (trace : List (State τ ε×Event τ ε)) (s : State τ ε) : Prop :=
  ¬CallbackFailed trace → FirstFailed s → ∀ result, s.receiver=.done result →
    ∃ e, result=.error e ∧ Passed trace e

/-- The step is not the receive of `Receiver::finish` while a later slot is
queued behind a first unfinished slot that was failed explicitly. -/
def TakesNoLaterSlot (p : State τ ε×Event τ ε) : Prop :=
  p.2=.recvChannel → p.1.receiver=.finishing → p.1.channel≠[] → ¬FirstFailed p.1

end Statement

section Cells

/-- An effect on the cell that never replaces a known error. -/
def KeepsKnown (effect : FinalSuccessData ε→FinalSuccessData ε) : Prop :=
  ∀ e, effect (some (.error (some e)))=some (.error (some e))

/-- An effect on the cell that introduces no known error but those allowed. -/
def Introduces (allowed : ε→Prop) (effect : FinalSuccessData ε→FinalSuccessData ε) : Prop :=
  ∀ cell e, effect cell=some (.error (some e)) → cell=some (.error (some e)) ∨ allowed e

/-- After an explicit error the cell holds a known error. -/
theorem makeError_known (e : ε) (cell : FinalSuccessData ε) :
    ∃ known, makeError e cell=some (.error (some known)) := by
  unfold makeError
  split
  · exact ⟨_,rfl⟩
  · exact ⟨_,rfl⟩

/-- An explicit error introduces nothing but itself. -/
theorem makeError_introduces (e : ε) : Introduces (fun known => e=known) (makeError e) := by
  intro cell known h
  unfold makeError at h
  split at h
  · exact Or.inl h
  · have he : Except.error (some e)=(Except.error (some known) : Except (Option ε) Unit) :=
      Option.some.inj h
    exact Or.inr (Option.some.inj (Except.error.inj he))

/-- The unknown error introduces no known error. -/
theorem makeUnknownError_introduces (allowed : ε→Prop) :
    Introduces allowed (makeUnknownError : FinalSuccessData ε→FinalSuccessData ε) := by
  intro cell known h
  unfold makeUnknownError at h
  split at h
  · exact Or.inl h
  · cases h

/-- The sender's result keeps a known error and introduces only its own. -/
theorem recordResult_known (result : Except ε Unit) :
    KeepsKnown (recordResult result) ∧
      Introduces (fun known => result=.error known) (recordResult result) := by
  cases result with
  | ok _ =>
    refine ⟨fun _ => rfl,fun cell known h => Or.inl ?_⟩
    cases cell with
    | none => cases h
    | some final => exact h
  | error e =>
    refine ⟨fun _ => rfl,fun cell known h => ?_⟩
    exact (makeError_introduces e cell known h).imp id (fun he => by rw [he])

/-- What one step of a slot does to the known error and to the slot itself. -/
theorem act_known {accepted : Bool} {slot next : SlotState τ} {action : SlotAction τ ε}
    {effect : FinalSuccessData ε→FinalSuccessData ε}
    (h : slot.act accepted action=some (next,effect)) :
    KeepsKnown effect ∧ Introduces (fun e => action=.setError e) effect ∧
      (failed next=true → failed slot=true ∨ ∀ cell, ∃ e, effect cell=some (.error (some e))) ∧
      (failed slot=true → failed next=true) ∧
      (slot.lost=true → failed next=true → failed slot=true) := by
  have hid : Introduces (fun e => action=.setError e)
      (id : FinalSuccessData ε→FinalSuccessData ε) := fun _ _ he => Or.inl he
  cases slot <;> cases action <;> cases h
  case live.disarm item => exact ⟨fun _ => rfl,hid,nofun,nofun,nofun⟩
  case live.setError error =>
    refine ⟨fun _ => rfl,fun cell known he => ?_,fun _ => Or.inr (makeError_known error),nofun,
      nofun⟩
    exact (makeError_introduces error cell known he).imp id (fun heq => by rw [heq])
  case live.dropSender => exact ⟨fun _ => rfl,hid,nofun,nofun,nofun⟩
  case disarmed.send item => exact ⟨fun _ => rfl,hid,nofun,nofun,nofun⟩
  case errorSet.dropErrorSender =>
    exact ⟨fun _ => rfl,hid,fun _ => Or.inl rfl,fun _ => rfl,fun _ _ => rfl⟩
  case senderDropped.dropFlag =>
    exact ⟨fun _ => rfl,makeUnknownError_introduces _,nofun,nofun,nofun⟩

end Cells

section Steps

variable {capacity : ℕ} {unknown : ε} {s t : State τ ε} {e : Event τ ε}

/-- What a step does to the slots. -/
theorem step_slots (h : step capacity unknown s e=some t) :
    t.slots=s.slots ∨ (s.sender=.live ∧ t.slots=s.slots++[.live]) ∨
      ∃ index action slot next effect, e=.slot index action ∧ s.slots[index]?=some slot ∧
        slot.act (s.accepts index) action=some (next,effect) ∧
        t.slots=s.slots.set index next := by
  cases e with
  | prepareSend =>
    obtain ⟨hlive,⟨_,rfl⟩|⟨_,rfl⟩⟩ := step_prepareSend h
    · exact Or.inl rfl
    · exact Or.inr (Or.inl ⟨hlive,rfl⟩)
  | finishSender result =>
    obtain ⟨_,rfl⟩ := step_finishSender h
    exact Or.inl rfl
  | dropSender =>
    obtain ⟨next,_,rfl⟩ := Option.map_eq_some_iff.mp h
    exact Or.inl rfl
  | slot index action =>
    obtain ⟨slot,next,effect,hslot,hact,rfl⟩ := step_slot h
    exact Or.inr (Or.inr ⟨index,action,slot,next,effect,rfl,hslot,hact,rfl⟩)
  | recvChannel => exact Or.inl (step_receiver rfl h).1
  | recvItem => exact Or.inl (step_receiver rfl h).1
  | callback result => exact Or.inl (step_receiver rfl h).1
  | takeResult => exact Or.inl (step_receiver rfl h).1

/-- A finished slot stays finished. -/
theorem finished_step (h : step capacity unknown s e=some t) {index : ℕ} {item : τ}
    {accepted : Bool} (hslot : s.slots[index]?=some (SlotState.finished item accepted)) :
    t.slots[index]?=some (SlotState.finished item accepted) := by
  have hlt : index<s.slots.length := (List.getElem?_eq_some_iff.mp hslot).1
  rcases step_slots h with heq|⟨_,heq⟩|⟨i,action,slot,next,effect,_,hi,hact,heq⟩
  · rw [heq,hslot]
  · rw [heq,List.getElem?_append_left hlt,hslot]
  · have hne : i≠index := by
      rintro rfl
      rw [hslot] at hi
      obtain rfl := Option.some.inj hi
      cases (act_cases hact).1
    rw [heq,List.getElem?_set_ne hne,hslot]

/-- A first failed slot stays the first failed slot. -/
theorem firstFailed_step (h : step capacity unknown s e=some t) (hs : FirstFailed s) :
    FirstFailed t := by
  obtain ⟨index,slot,hslot,hfailed,hearlier⟩ := hs
  have hlt : index<s.slots.length := (List.getElem?_eq_some_iff.mp hslot).1
  have hkeep : ∀ earlier< index, ∃ item accepted,
      t.slots[earlier]?=some (SlotState.finished item accepted) := by
    intro earlier hlt
    obtain ⟨item,accepted,hfinished⟩ := hearlier earlier hlt
    exact ⟨item,accepted,finished_step h hfinished⟩
  rcases step_slots h with heq|⟨_,heq⟩|⟨i,action,old,next,effect,_,hi,hact,heq⟩
  · exact ⟨index,slot,by rw [heq,hslot],hfailed,hkeep⟩
  · exact ⟨index,slot,by rw [heq,List.getElem?_append_left hlt,hslot],hfailed,hkeep⟩
  · by_cases hne : i=index
    · subst hne
      rw [hslot] at hi
      obtain rfl := Option.some.inj hi
      obtain ⟨_,_,_,hforth,_⟩ := act_known hact
      exact ⟨i,next,by rw [heq,List.getElem?_set_self hlt],hforth hfailed,hkeep⟩
    · exact ⟨index,slot,by rw [heq,List.getElem?_set_ne hne,hslot],hfailed,hkeep⟩

/-- The receiver has learnt why it has no next value: there is none, or its slot is lost. -/
def AtEnd (s : State τ ε) : Prop :=
  ((∃ result, s.sender=.gone result) ∧ s.slots.length=s.seen.length) ∨
    ∃ slot, s.slots[s.seen.length]?=some slot ∧ slot.lost=true

/-- At the end, only the slot behind the seen values can be the first one that failed. -/
theorem firstFailed_iff (hs : Agrees s) (hend : AtEnd s) :
    FirstFailed s ↔ ∃ slot, s.slots[s.seen.length]?=some slot ∧ failed slot=true := by
  constructor
  · rintro ⟨index,slot,hslot,hfailed,hearlier⟩
    have hvalue : slot.value=none := by
      cases slot <;> first | rfl | cases hfailed
    have hle := hs.le_of_no_value hslot hvalue
    rcases Nat.lt_or_eq_of_le hle with hlt|heq
    · exfalso
      rcases hend with ⟨_,hlen⟩|⟨other,hother,hlost⟩
      · have hbound := (List.getElem?_eq_some_iff.mp hslot).1
        omega
      · obtain ⟨item,accepted,hfinished⟩ := hearlier _ hlt
        rw [hother] at hfinished
        obtain rfl := Option.some.inj hfinished
        cases hlost
    · exact ⟨slot,by rw [heq,hslot],hfailed⟩
  · rintro ⟨slot,hslot,hfailed⟩
    refine ⟨s.seen.length,slot,hslot,hfailed,fun earlier hlt => ?_⟩
    have hget : ((s.slots.map SlotState.value).take s.seen.length)[earlier]?=
        (s.seen.map some)[earlier]? := by rw [hs.seen]
    rw [List.getElem?_take_of_lt hlt,List.getElem?_map,List.getElem?_map,
      List.getElem?_eq_getElem hlt] at hget
    obtain ⟨other,hother,hitem⟩ := Option.map_eq_some_iff.mp hget
    obtain ⟨item,accepted,rfl⟩ := finished_of_value hitem
    exact ⟨item,accepted,hother⟩

/-- Once at the end, a step that keeps the seen values stays there and no slot
becomes the first failed one. -/
theorem atEnd_step (hs : Agrees s) (hend : AtEnd s) (h : step capacity unknown s e=some t)
    (hseen : t.seen=s.seen) (hgone : (∃ result, s.sender=.gone result) →
      ∃ result, t.sender=.gone result) :
    AtEnd t ∧ (FirstFailed t → FirstFailed s) := by
  have ht := agrees_step hs h
  rcases hend with ⟨⟨result,hresult⟩,hlen⟩|⟨slot,hslot,hlost⟩
  · have hslots : t.slots.length=s.slots.length := by
      rcases step_slots h with heq|⟨hlive,_⟩|⟨i,_,_,next,_,_,_,_,heq⟩
      · rw [heq]
      · rw [hlive] at hresult
        cases hresult
      · rw [heq,List.length_set]
    have hnext : AtEnd t := Or.inl ⟨hgone ⟨result,hresult⟩,by rw [hslots,hlen,hseen]⟩
    refine ⟨hnext,fun hfailed => ?_⟩
    obtain ⟨slot,hslot,_⟩ := (firstFailed_iff ht hnext).mp hfailed
    have hbound := (List.getElem?_eq_some_iff.mp hslot).1
    rw [hslots,hseen] at hbound
    omega
  · have hlt : s.seen.length<s.slots.length := (List.getElem?_eq_some_iff.mp hslot).1
    have hmove : ∃ next, t.slots[s.seen.length]?=some next ∧ next.lost=true ∧
        (failed next=true → failed slot=true) := by
      rcases step_slots h with heq|⟨_,heq⟩|⟨i,_,old,next,_,_,hi,hact,heq⟩
      · exact ⟨slot,by rw [heq,hslot],hlost,id⟩
      · exact ⟨slot,by rw [heq,List.getElem?_append_left hlt,hslot],hlost,id⟩
      · by_cases hne : i=s.seen.length
        · subst hne
          rw [hslot] at hi
          obtain rfl := Option.some.inj hi
          obtain ⟨_,_,_,_,hback⟩ := act_known hact
          exact ⟨next,by rw [heq,List.getElem?_set_self hlt],(act_cases hact).2.1 hlost,
            hback hlost⟩
        · exact ⟨slot,by rw [heq,List.getElem?_set_ne hne,hslot],hlost,id⟩
    obtain ⟨next,hnext,hlostNext,hback⟩ := hmove
    have hendNext : AtEnd t := Or.inr ⟨next,by rw [hseen,hnext],hlostNext⟩
    refine ⟨hendNext,fun hfailed => ?_⟩
    obtain ⟨other,hother,hotherFailed⟩ := (firstFailed_iff ht hendNext).mp hfailed
    rw [hseen,hnext] at hother
    obtain rfl := Option.some.inj hother
    exact (firstFailed_iff hs (Or.inr ⟨slot,hslot,hlost⟩)).mpr ⟨slot,hslot,hback hotherFailed⟩

/-- A disconnected sender stays disconnected. -/
theorem gone_step (h : step capacity unknown s e=some t) (hs : ∃ result, s.sender=.gone result) :
    ∃ result, t.sender=.gone result := by
  obtain ⟨last,hgone⟩ := hs
  refine ⟨last,?_⟩
  rw [step_sender h,hgone]
  · rintro result rfl
    obtain ⟨hlive,_⟩ := step_finishSender h
    rw [hlive] at hgone
    cases hgone
  · rintro rfl
    obtain ⟨next,hnext,_⟩ := Option.map_eq_some_iff.mp h
    rw [hgone] at hnext
    cases hnext

/-- What a step does to the cell. -/
theorem step_cell (h : step capacity unknown s e=some t) :
    (s.receiver=.taking ∧ t.cell=none ∧ ∃ result, t.receiver=.done result) ∨
      ∃ effect, t.cell=effect s.cell ∧ KeepsKnown effect ∧ Introduces (Passes e) effect := by
  have hsame : t.cell=s.cell →
      ∃ effect, t.cell=effect s.cell ∧ KeepsKnown effect ∧ Introduces (Passes e) effect :=
    fun heq => ⟨id,heq,fun _ => rfl,fun _ _ he => Or.inl he⟩
  cases e with
  | prepareSend =>
    obtain ⟨_,⟨_,rfl⟩|⟨_,rfl⟩⟩ := step_prepareSend h
    · exact Or.inr (hsame rfl)
    · exact Or.inr (hsame rfl)
  | finishSender result =>
    obtain ⟨_,rfl⟩ := step_finishSender h
    obtain ⟨hkeeps,hnew⟩ := recordResult_known result
    refine Or.inr ⟨recordResult result,rfl,hkeeps,fun cell known he => ?_⟩
    exact (hnew cell known he).imp id (fun heq => by rw [heq]; rfl)
  | dropSender =>
    obtain ⟨next,_,rfl⟩ := Option.map_eq_some_iff.mp h
    exact Or.inr (hsame rfl)
  | slot index action =>
    obtain ⟨slot,next,effect,_,hact,rfl⟩ := step_slot h
    obtain ⟨hkeeps,hnew,_⟩ := act_known hact
    refine Or.inr ⟨effect,rfl,hkeeps,fun cell known he => ?_⟩
    exact (hnew cell known he).imp id (fun heq => by rw [heq]; rfl)
  | recvChannel =>
    obtain ⟨_,⟨_,_,_,rfl⟩|⟨_,_,rfl⟩⟩|⟨_,⟨_,rfl⟩|⟨_,_,rfl⟩⟩ := step_recvChannel h
    all_goals exact Or.inr (hsame rfl)
  | recvItem =>
    obtain ⟨_,_,_,_,⟨_,_,rfl⟩|⟨_,rfl⟩⟩ := step_recvItem h
    · exact Or.inr (hsame rfl)
    · exact Or.inr (hsame rfl)
  | callback result =>
    obtain ⟨_,_,⟨_,rfl⟩|⟨_,_,rfl⟩⟩ := step_callback h
    · exact Or.inr (hsame rfl)
    · exact Or.inr (hsame rfl)
  | takeResult =>
    obtain ⟨htaking,⟨_,rfl⟩|⟨_,_,rfl⟩⟩ := step_takeResult h
    · exact Or.inl ⟨htaking,rfl,_,rfl⟩
    · exact Or.inl ⟨htaking,rfl,_,rfl⟩

/-- After `try_for_each` has returned, no callback fails. -/
theorem done_step (h : step capacity unknown s e=some t) {result : Except ε Unit}
    (hs : s.receiver=.done result) : t.receiver=.done result ∧ ¬Fails e := by
  obtain ⟨hnext,hother⟩ := step_done h hs
  refine ⟨hnext,fun hfails => ?_⟩
  cases e with
  | callback result => cases hother
  | prepareSend => exact hfails
  | finishSender result => exact hfails
  | dropSender => exact hfails
  | slot index action => exact hfails
  | recvChannel => exact hfails
  | recvItem => exact hfails
  | takeResult => exact hfails

/-- Whether the receiver has left its loop. -/
def left : ReceiverState τ ε→Bool
  | .finishing => true
  | .taking => true
  | .done _ => true
  | _ => false

/-- The receiver leaves its loop through a failing callback or at the end. -/
theorem left_step (hs : Agrees s) (h : step capacity unknown s e=some t)
    (ht : left t.receiver=true) : left s.receiver=true ∨ Fails e ∨ AtEnd t := by
  have hp := hs.positioned
  unfold State.Positioned at hp
  cases he : e.isReceiver with
  | false =>
    rw [(step_other he h).1] at ht
    exact Or.inl ht
  | true =>
    cases e with
    | prepareSend => cases he
    | finishSender result => cases he
    | dropSender => cases he
    | slot index action => cases he
    | recvChannel =>
      rcases step_recvChannel h with ⟨hr,⟨_,_,_,rfl⟩|⟨hc,hgone,rfl⟩⟩|⟨hr,_⟩
      · cases ht
      · rw [hr] at hp
        obtain ⟨hle,hchannel⟩ := hp
        have hlen := congrArg List.length hchannel
        rw [hc,List.length_nil,List.length_range'] at hlen
        have hall : s.slots.length=s.seen.length := by omega
        exact Or.inr (Or.inr (Or.inl ⟨hgone,hall⟩))
      · exact Or.inl (by rw [hr]; rfl)
    | recvItem =>
      obtain ⟨index,slot,hr,hslot,⟨_,_,rfl⟩|⟨hlost,rfl⟩⟩ := step_recvItem h
      · cases ht
      · rw [hr] at hp
        obtain ⟨rfl,_⟩ := hp
        exact Or.inr (Or.inr (Or.inr ⟨slot,hslot,hlost⟩))
    | callback result =>
      obtain ⟨_,_,⟨_,rfl⟩|⟨_,rfl,_⟩⟩ := step_callback h
      · cases ht
      · exact Or.inr (Or.inl trivial)
    | takeResult => exact Or.inl (by rw [(step_takeResult h).1]; rfl)

/-- How `try_for_each` comes to return. -/
theorem return_step (h : step capacity unknown s e=some t) {result : Except ε Unit}
    (ht : t.receiver=.done result) :
    s.receiver=.done result ∨ Fails e ∨
      (e=.recvChannel ∧ s.receiver=.finishing ∧ s.channel≠[] ∧ result=.error unknown) ∨
      (s.receiver=.taking ∧ ∀ known, s.cell=some (.error (some known)) → result=.error known) := by
  cases he : e.isReceiver with
  | false =>
    rw [(step_other he h).1] at ht
    exact Or.inl ht
  | true =>
    cases e with
    | prepareSend => cases he
    | finishSender result => cases he
    | dropSender => cases he
    | slot index action => cases he
    | recvChannel =>
      rcases step_recvChannel h with ⟨_,⟨_,_,_,rfl⟩|⟨_,_,rfl⟩⟩|⟨hr,⟨hc,rfl⟩|⟨_,_,rfl⟩⟩
      · cases ht
      · cases ht
      · cases ht
        exact Or.inr (Or.inr (Or.inl ⟨rfl,hr,hc,rfl⟩))
      · cases ht
    | recvItem =>
      obtain ⟨_,_,_,_,⟨_,_,rfl⟩|⟨_,rfl⟩⟩ := step_recvItem h
      all_goals cases ht
    | callback result =>
      obtain ⟨_,_,⟨_,rfl⟩|⟨_,rfl,_⟩⟩ := step_callback h
      · cases ht
      · exact Or.inr (Or.inl trivial)
    | takeResult =>
      obtain ⟨htaking,hcases⟩ := step_takeResult h
      refine Or.inr (Or.inr (Or.inr ⟨htaking,fun known hc => ?_⟩))
      rcases hcases with ⟨hok,_⟩|⟨e,hresult,rfl⟩
      · rw [hok] at hc
        cases hc
      · rw [hc] at hresult
        cases hresult
        cases ht
        rfl

end Steps

section Runs

/-- Some receive of `Receiver::finish` yielded a later slot. -/
def Overtaken (trace : List (State τ ε×Event τ ε)) : Prop := ∃ p∈trace, ¬TakesNoLaterSlot p

/-- The invariant of every run, with the events that led there. -/
structure Explains (unknown : ε) (trace : List (State τ ε×Event τ ε)) (s : State τ ε) : Prop where
  /-- The queue itself agrees. -/
  agrees : Agrees s
  /-- A known error in the cell was passed explicitly. -/
  known : ∀ e, s.cell=some (.error (some e)) → Passed trace e
  /-- A slot that failed explicitly leaves a known error until the result is taken. -/
  cellKnown : (∃ slot∈s.slots, failed slot=true) →
    (∃ result, s.receiver=.done result) ∨ ∃ e, s.cell=some (.error (some e))
  /-- A failing callback ends the transfer. -/
  callbackDone : CallbackFailed trace → ∃ result, s.receiver=.done result
  /-- Otherwise the receiver leaves its loop at the end only. -/
  ended : left s.receiver=true → CallbackFailed trace ∨ AtEnd s
  /-- What is returned for a slot that failed explicitly. -/
  reported : ∀ result, s.receiver=.done result → CallbackFailed trace ∨ (FirstFailed s →
    ∃ e, result=.error e ∧ (Passed trace e ∨ e=unknown ∧ Overtaken trace))
  /-- What is returned once a later slot was received. -/
  overtaken : Overtaken trace →
    ¬CallbackFailed trace ∧ s.receiver=.done (.error unknown) ∧ FirstFailed s

/-- A fresh queue has nothing to explain. -/
theorem initial_explains (unknown : ε) : Explains unknown [] (initial : State τ ε) := by
  refine ⟨initial_agrees,nofun,fun h => ?_,fun h => ?_,nofun,nofun,fun h => ?_⟩
  · obtain ⟨slot,hslot,_⟩ := h
    cases hslot
  · obtain ⟨p,hp,_⟩ := h
    cases hp
  · obtain ⟨p,hp,_⟩ := h
    cases hp

variable {capacity : ℕ} {unknown : ε} {s t : State τ ε} {e : Event τ ε}
  {trace : List (State τ ε×Event τ ε)}

/-- What some step of a longer run satisfies. -/
theorem exists_snoc {α : Type} {property : α→Prop} {front : List α} {last : α} :
    (∃ p∈front++[last], property p) ↔ (∃ p∈front, property p) ∨ property last := by
  simp [or_and_right,exists_or]

/-- A known error still was passed explicitly, now or before. -/
theorem Explains.known_step (hs : Explains unknown trace s) (h : step capacity unknown s e=some t)
    {known : ε} (ht : t.cell=some (.error (some known))) : Passed (trace++[(s,e)]) known := by
  rcases step_cell h with ⟨_,hnone,_⟩|⟨effect,heffect,_,hnew⟩
  · rw [hnone] at ht
    cases ht
  · rw [heffect] at ht
    exact exists_snoc.mpr ((hnew _ _ ht).imp (hs.known known) id)

/-- A slot that failed explicitly still leaves a known error. -/
theorem Explains.cellKnown_step (hs : Explains unknown trace s)
    (h : step capacity unknown s e=some t) (ht : ∃ slot∈t.slots, failed slot=true) :
    (∃ result, t.receiver=.done result) ∨ ∃ known, t.cell=some (.error (some known)) := by
  have hkeep : (∃ slot∈s.slots, failed slot=true) →
      (∃ result, t.receiver=.done result) ∨ ∃ known, t.cell=some (.error (some known)) := by
    intro hold
    rcases hs.cellKnown hold with ⟨result,hdone⟩|⟨known,hknown⟩
    · exact Or.inl ⟨result,(done_step h hdone).1⟩
    · rcases step_cell h with ⟨_,_,hdone⟩|⟨effect,heffect,hkeeps,_⟩
      · exact Or.inl hdone
      · exact Or.inr ⟨known,by rw [heffect,hknown,hkeeps]⟩
  obtain ⟨slot,hslot,hfailed⟩ := ht
  rcases step_slots h with heq|⟨_,heq⟩|⟨index,action,_,_,_,rfl,_⟩
  · rw [heq] at hslot
    exact hkeep ⟨slot,hslot,hfailed⟩
  · rw [heq] at hslot
    rcases List.mem_append.mp hslot with hold|hnew
    · exact hkeep ⟨slot,hold,hfailed⟩
    · rw [List.mem_singleton.mp hnew] at hfailed
      cases hfailed
  · obtain ⟨old,next,effect,hold,hact,rfl⟩ := step_slot h
    obtain ⟨_,_,hnew,_⟩ := act_known hact
    rcases List.mem_or_eq_of_mem_set hslot with hmem|rfl
    · exact hkeep ⟨slot,hmem,hfailed⟩
    · rcases hnew hfailed with hbefore|hnow
      · exact hkeep ⟨old,List.mem_iff_getElem?.mpr ⟨index,hold⟩,hbefore⟩
      · exact Or.inr (hnow s.cell)

/-- Once the loop is left at the end, a step changes nothing about it. -/
theorem Explains.atEnd_step (hs : Explains unknown trace s) (h : step capacity unknown s e=some t)
    (hleft : left s.receiver=true) (hend : AtEnd s) :
    AtEnd t ∧ (FirstFailed t → FirstFailed s) := by
  have hseen : t.seen=s.seen := by
    cases he : e.isReceiver with
    | false => exact (step_other he h).2
    | true =>
      refine (step_receiver he h).2.2 ?_
      rintro result rfl
      obtain ⟨item,hr,_⟩ := step_callback h
      rw [hr] at hleft
      cases hleft
  exact RealErrors.atEnd_step hs.agrees hend h hseen (gone_step h)

/-- What is returned is still explained. -/
theorem Explains.reported_step (hs : Explains unknown trace s)
    (h : step capacity unknown s e=some t) {result : Except ε Unit}
    (ht : t.receiver=.done result) :
    CallbackFailed (trace++[(s,e)]) ∨ (FirstFailed t → ∃ e', result=.error e' ∧
      (Passed (trace++[(s,e)]) e' ∨ e'=unknown ∧ Overtaken (trace++[(s,e)]))) := by
  have hback : left s.receiver=true →
      CallbackFailed (trace++[(s,e)]) ∨ (FirstFailed t → FirstFailed s) := by
    intro hleft
    rcases hs.ended hleft with hcallback|hend
    · exact Or.inl (exists_snoc.mpr (Or.inl hcallback))
    · exact Or.inr (hs.atEnd_step h hleft hend).2
  rcases return_step h ht with hdone|hfails|⟨rfl,hr,hc,rfl⟩|⟨hr,hresult⟩
  · rcases hs.reported result hdone with hcallback|hreport
    · exact Or.inl (exists_snoc.mpr (Or.inl hcallback))
    · refine (hback (by rw [hdone]; rfl)).imp id (fun hfirst hfailed => ?_)
      obtain ⟨e',he,hcase⟩ := hreport (hfirst hfailed)
      refine ⟨e',he,hcase.imp (fun hp => exists_snoc.mpr (Or.inl hp)) (fun ho => ?_)⟩
      exact ⟨ho.1,exists_snoc.mpr (Or.inl ho.2)⟩
  · exact Or.inl (exists_snoc.mpr (Or.inr hfails))
  · refine (hback (by rw [hr]; rfl)).imp id (fun hfirst hfailed => ?_)
    have hbad : ¬TakesNoLaterSlot (s,Event.recvChannel) :=
      fun hallowed => hallowed rfl hr hc (hfirst hfailed)
    exact ⟨unknown,rfl,Or.inr ⟨rfl,exists_snoc.mpr (Or.inr hbad)⟩⟩
  · refine (hback (by rw [hr]; rfl)).imp id (fun hfirst hfailed => ?_)
    obtain ⟨index,slot,hslot,hslotFailed,_⟩ := hfirst hfailed
    rcases hs.cellKnown ⟨slot,List.mem_iff_getElem?.mpr ⟨index,hslot⟩,hslotFailed⟩ with
      ⟨_,hdone⟩|⟨known,hknown⟩
    · rw [hr] at hdone
      cases hdone
    · exact ⟨known,hresult known hknown,Or.inl (exists_snoc.mpr (Or.inl (hs.known known hknown)))⟩

/-- A later slot that was received decides the result for good. -/
theorem Explains.overtaken_step (hs : Explains unknown trace s)
    (h : step capacity unknown s e=some t) (ht : Overtaken (trace++[(s,e)])) :
    ¬CallbackFailed (trace++[(s,e)]) ∧ t.receiver=.done (.error unknown) ∧ FirstFailed t := by
  have hnot : ¬CallbackFailed trace → ¬Fails e → ¬CallbackFailed (trace++[(s,e)]) := by
    intro htrace he hcallback
    exact (exists_snoc.mp hcallback).elim htrace he
  rcases exists_snoc.mp ht with hbefore|hnow
  · obtain ⟨hcallback,hdone,hfirst⟩ := hs.overtaken hbefore
    obtain ⟨hnext,hfails⟩ := done_step h hdone
    exact ⟨hnot hcallback hfails,hnext,firstFailed_step h hfirst⟩
  · unfold TakesNoLaterSlot at hnow
    push Not at hnow
    obtain ⟨rfl,hr,hc,hfirst⟩ := hnow
    dsimp only at hr hc hfirst
    have hcallback : ¬CallbackFailed trace := by
      intro hfailed
      obtain ⟨_,hdone⟩ := hs.callbackDone hfailed
      rw [hr] at hdone
      cases hdone
    refine ⟨hnot hcallback nofun,?_,firstFailed_step h hfirst⟩
    cases hchannel : s.channel with
    | nil => exact (hc hchannel).elim
    | cons slot channel =>
      simp only [step,hr,State.recv,hchannel] at h
      obtain rfl := Option.some.inj h
      rfl

/-- Every step keeps the explanation. -/
theorem Explains.step (hs : Explains unknown trace s) (h : step capacity unknown s e=some t) :
    Explains unknown (trace++[(s,e)]) t where
  agrees := agrees_step hs.agrees h
  known := fun _ ht => hs.known_step h ht
  cellKnown := hs.cellKnown_step h
  callbackDone := by
    intro hcallback
    rcases exists_snoc.mp hcallback with hbefore|hnow
    · obtain ⟨result,hdone⟩ := hs.callbackDone hbefore
      exact ⟨result,(done_step h hdone).1⟩
    · cases e with
      | callback result =>
        obtain ⟨_,_,⟨rfl,_⟩|⟨_,_,rfl⟩⟩ := step_callback h
        · exact hnow.elim
        · exact ⟨_,rfl⟩
      | prepareSend => exact hnow.elim
      | finishSender result => exact hnow.elim
      | dropSender => exact hnow.elim
      | slot index action => exact hnow.elim
      | recvChannel => exact hnow.elim
      | recvItem => exact hnow.elim
      | takeResult => exact hnow.elim
  ended := by
    intro hleft
    rcases left_step hs.agrees h hleft with hbefore|hfails|hend
    · rcases hs.ended hbefore with hcallback|hend
      · exact Or.inl (exists_snoc.mpr (Or.inl hcallback))
      · exact Or.inr (hs.atEnd_step h hbefore hend).1
    · exact Or.inl (exists_snoc.mpr (Or.inr hfails))
    · exact Or.inr hend
  reported := fun _ ht => hs.reported_step h ht
  overtaken := hs.overtaken_step h

/-- Every run is explained. -/
theorem run_explains (run : Run (SeqQueue.step capacity unknown) initial trace s) :
    Explains unknown trace s := by
  induction run with
  | nil => exact initial_explains unknown
  | snoc run last ih => exact ih.step last

/-- Of any run of the queue, with any capacity and any number of slots: the
real error is reported exactly if no receive of `Receiver::finish` yields a
later slot behind a first unfinished slot that was failed explicitly, or if
the unknown error itself was passed explicitly and so cannot be told apart. -/
theorem run_reports_iff (run : Run (SeqQueue.step capacity unknown) initial trace s) :
    Reports trace s ↔ (∀ p∈trace, TakesNoLaterSlot p) ∨ Passed trace unknown := by
  have hs := run_explains run
  constructor
  · intro hreports
    by_contra hneither
    obtain ⟨hbad,hunknown⟩ := not_or.mp hneither
    push Not at hbad
    obtain ⟨hcallback,hdone,hfirst⟩ := hs.overtaken hbad
    obtain ⟨e,he,hpassed⟩ := hreports hcallback hfirst _ hdone
    obtain rfl := Except.error.inj he
    exact hunknown hpassed
  · intro hcases hcallback hfirst result hdone
    have hreported := (hs.reported result hdone).resolve_left hcallback hfirst
    obtain ⟨e,rfl,hpassed|⟨rfl,p,hp,hbad⟩⟩ := hreported
    · exact ⟨e,rfl,hpassed⟩
    · rcases hcases with hall|hunknown
      · exact (hbad (hall p hp)).elim
      · exact ⟨e,rfl,hunknown⟩

/-- The last slot fails explicitly after an earlier slot was finished. -/
def failedLastEvents : List (Event ℕ ℕ) :=
  [.prepareSend,.slot 0 (.disarm 7),.slot 0 .send,.prepareSend,.slot 1 (.setError 1),
    .slot 1 .dropErrorSender,.recvChannel,.recvItem,.callback (.ok ()),.recvChannel,.recvItem,
    .finishSender (.ok ()),.dropSender,.recvChannel,.takeResult]

/-- The run whose last slot fails reports its error. -/
theorem run_reports_failed_last : ∃ trace s,
    Run (SeqQueue.step 8 0) initial trace s ∧ s.receiver=.done (.error 1) ∧ s.seen=[7] ∧
      (Reports trace s ↔ (∀ p∈trace, TakesNoLaterSlot p) ∨ Passed trace 0) :=
  ⟨_,_,@run_of_replay _ _ (SeqQueue.step 8 0) initial _ failedLastEvents _ rfl,rfl,rfl,
    run_reports_iff (@run_of_replay _ _ (SeqQueue.step 8 0) initial _ failedLastEvents _ rfl)⟩

/-- The first slot fails explicitly while the second is already queued. -/
def overtakenEvents : List (Event ℕ ℕ) :=
  [.prepareSend,.prepareSend,.slot 0 (.setError 1),.slot 0 .dropErrorSender,.recvChannel,.recvItem,
    .recvChannel]

/-- A later slot in the channel hides the error of an earlier one. -/
theorem not_every_run_reports : ¬∀ (capacity : ℕ) (trace : List (State ℕ ℕ×Event ℕ ℕ))
    (s : State ℕ ℕ), Run (SeqQueue.step capacity 0) initial trace s → Reports trace s := by
  intro h
  have run := @run_of_replay _ _ (SeqQueue.step 8 0) initial _ overtakenEvents _ rfl
  have hfirst : FirstFailed (⟨[.errored,.live],[],some (.error (some 1)),.live,.done (.error 0),
      []⟩ : State ℕ ℕ) := ⟨0,.errored,rfl,rfl,nofun⟩
  obtain ⟨e,he,hpassed⟩ := h 8 _ _ run (by simp [CallbackFailed,Fails]) hfirst _ rfl
  obtain rfl := Except.error.inj he
  simp [Passed,Passes] at hpassed

end Runs

end Applesauce.RealErrors
