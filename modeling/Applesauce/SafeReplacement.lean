import Applesauce.CompleteFile
import Applesauce.IoTriple

/-!
# The path is only replaced by a complete, checked file

Every call up to the rename leaves the path to the environment. When the
rename is reached, the record of calls is known exactly: it contains every
step of the flow in order, and it ends in the two comparisons of the source
around the check for writers. Only such a run reports a conversion.
-/

namespace Applesauce.SafeReplacement

open RustIo SeekableFile BufferedSink DecmpfsValue DecmpfsWriter ScratchPayload ForkDevice
open PayloadCopy SourceGuard StagedOutput Publication CompleteFile IoTriple

/-- What the path refers to after the changes of some turns. -/
def drift (path : Entry) (turns : List Turn) : Entry :=
  turns.foldl (fun path turn => turn.change.getD path) path

/-- A call that neither replaces the path nor reports a conversion. -/
def Call.quiet : Call→Bool
  | .persisted _ => false
  | .reportedConverted => false
  | _ => true

/-- A call that has an answer to wait for; the others tell what was computed or reported. -/
def Call.awaits : Call→Bool
  | .copiedPayload _ _ => false
  | .receivedBlocks => false
  | .resetTimes => false
  | .skipped _ => false
  | .reportedError => false
  | .notCompressibleEnough => false
  | .reportedConverted => false
  | _ => true

/-- The answer of a call that succeeded; the check for writers has found none. -/
structure Succeeds (call : Call) (turn : Turn) : Prop where
  failure : turn.failure=none
  writer : call=.checkedWriters → turn.writer=false

/-- Calls in the order of the answers that were taken meanwhile: every call that awaits one has
succeeded with an answer of its own. -/
inductive Answered : List Call→List Turn→Prop
  | nil : Answered [] []
  | call {calls : List Call} {turns : List Turn} {call : Call} {turn : Turn}
      (h : Answered calls turns) (hsucceeds : Succeeds call turn) :
      Answered (calls++[call]) (turns++[turn])
  | report {calls : List Call} {turns : List Turn} {call : Call} (h : Answered calls turns)
      (hreport : Call.awaits call=false) : Answered (calls++[call]) turns
  | other {calls : List Call} {turns : List Turn} (h : Answered calls turns) (turn : Turn) :
      Answered calls (turns++[turn])

/-- Since `w₀` these turns were taken, calm ones where no others were left, and the path was left
to the environment. -/
structure Took (w₀ : World) (taken : List Turn) (w : World) : Prop where
  path : ∃ turns beyond, taken=turns++List.replicate beyond .calm ∧ (0<beyond → w.turns=[]) ∧
    w₀.turns=turns++w.turns ∧ w.path=drift w₀.path turns

/-- Since `w₀` these calls have succeeded, and the path was left to the environment. -/
structure After (w₀ : World) (calls : List Call) (w : World) : Prop where
  answers : ∃ taken, Took w₀ taken w ∧ Answered calls taken
  calls : w.calls=w₀.calls++calls

/-- After some calls one more answer was taken. -/
structure Asked (w₀ : World) (calls : List Call) (turn : Turn) (w : World) : Prop where
  answers : ∃ taken, Took w₀ (taken++[turn]) w ∧ Answered calls taken
  calls : w.calls=w₀.calls++calls

/-- Since `w₀` the path was left to the environment and no conversion was reported. -/
def Untouched (w₀ w : World) : Prop := ∃ calls, After w₀ calls w ∧ calls.all Call.quiet=true

section Calls
variable {w₀ : World} {calls : List Call}

/-- Nothing has happened yet. -/
theorem After.refl (w : World) : After w [] w :=
  ⟨⟨[],⟨[],0,rfl,fun hbad => absurd hbad (Nat.lt_irrefl 0),rfl,rfl⟩,.nil⟩,(List.append_nil _).symm⟩

/-- What the environment did to the path. -/
theorem After.path {w : World} (h : After w₀ calls w) :
    ∃ turns, w₀.turns=turns++w.turns ∧ w.path=drift w₀.path turns := by
  obtain ⟨_,⟨turns,_,_,_,hturns,hpath⟩,_⟩ := h.answers
  exact ⟨turns,hturns,hpath⟩

/-- An answer that no recorded call has asked for. -/
theorem Asked.after {turn : Turn} {w : World} (h : Asked w₀ calls turn w) : After w₀ calls w := by
  obtain ⟨taken,htook,hanswered⟩ := h.answers
  exact ⟨⟨_,htook,hanswered.other turn⟩,h.calls⟩

/-- One turn: an external change, and nothing else. -/
theorem Took.next {w t : World} {taken : List Turn} {turn : Turn} (h : Took w₀ taken w)
    (hnext : nextTurn w=.ok turn t) : Took w₀ (taken++[turn]) t ∧ t.calls=w.calls := by
  obtain ⟨turns,beyond,rfl,hbeyond,hturns,hpath⟩ := h
  unfold nextTurn at hnext
  cases hrest : w.turns with
  | nil =>
    rw [hrest] at hnext
    cases hnext
    refine ⟨⟨turns,beyond+1,?_,fun _ => hrest,hturns,hpath⟩,rfl⟩
    rw [List.replicate_succ',List.append_assoc]
  | cons first rest =>
    rw [hrest] at hnext
    cases hnext
    have hnone : beyond=0 := by
      by_contra hsome
      rw [hbeyond (Nat.pos_of_ne_zero hsome)] at hrest
      cases hrest
    subst hnone
    refine ⟨⟨turns++[turn],0,?_,fun hbad => absurd hbad (Nat.lt_irrefl 0),?_,?_⟩,rfl⟩
    · rw [List.replicate_zero,List.append_nil,List.append_nil]
    · rw [hturns,hrest,List.append_assoc]
      rfl
    · rw [hpath,drift,drift,List.foldl_append]
      rfl

/-- Taking a turn stops nothing. -/
theorem nextTurn_ne_error (w : World) {e : Fault} {t : World} : nextTurn w≠.error e t := by
  intro hbad
  unfold nextTurn at hbad
  cases hturns : w.turns with
  | nil => rw [hturns] at hbad; cases hbad
  | cons turn turns => rw [hturns] at hbad; cases hbad

/-- One turn after some calls. -/
theorem nextTurn_after : Triple (After w₀ calls) nextTurn (Asked w₀ calls)
    (fun _ => Untouched w₀) := by
  refine ⟨fun hs h => ?_,fun {s t e} _ h => absurd h (nextTurn_ne_error s)⟩
  obtain ⟨taken,htook,hanswered⟩ := hs.answers
  obtain ⟨hnext,hsame⟩ := htook.next h
  exact ⟨⟨taken,hnext,hanswered⟩,hsame.trans hs.calls⟩

/-- A call that succeeded is recorded. -/
theorem record_asked {call : Call} {turn : Turn} (hsucceeds : Succeeds call turn) :
    Triple (Asked w₀ calls turn) (record call) (fun _ => After w₀ (calls++[call]))
      (fun _ => Untouched w₀) := by
  refine ⟨fun hs h => ?_,fun _ h => ?_⟩
  · cases h
    obtain ⟨taken,⟨htook⟩,hanswered⟩ := hs.answers
    refine ⟨⟨_,⟨htook⟩,hanswered.call hsucceeds⟩,?_⟩
    dsimp only
    rw [hs.calls,List.append_assoc]
  · cases h

/-- A report is recorded. -/
theorem record_after {call : Call} (hreport : Call.awaits call=false) :
    Triple (After w₀ calls) (record call) (fun _ => After w₀ (calls++[call]))
      (fun _ => Untouched w₀) := by
  refine ⟨fun hs h => ?_,fun _ h => ?_⟩
  · cases h
    obtain ⟨taken,⟨htook⟩,hanswered⟩ := hs.answers
    refine ⟨⟨_,⟨htook⟩,hanswered.report hreport⟩,?_⟩
    dsimp only
    rw [hs.calls,List.append_assoc]
  · cases h

/-- Stopping after quiet calls leaves the path untouched. -/
theorem throw_untouched {α : Type} {post : α→World→Prop} (hquiet : calls.all Call.quiet=true)
    (fault : Fault) : Triple (After w₀ calls) (throw fault : Io World α) post
      (fun _ => Untouched w₀) := by
  refine ⟨fun _ h => ?_,fun hs h => ?_⟩
  · cases h
  · cases h
    exact ⟨calls,hs,hquiet⟩

/-- Stopping with the answer of a call. -/
theorem throw_asked {α : Type} {post : α→World→Prop} {turn : Turn}
    (hquiet : calls.all Call.quiet=true) (fault : Fault) :
    Triple (Asked w₀ calls turn) (throw fault : Io World α) post (fun _ => Untouched w₀) :=
  (throw_untouched hquiet fault).weaken Asked.after (fun ht => ht) (fun he => he)

/-- A call that only succeeds or fails. -/
theorem perform_after (hquiet : calls.all Call.quiet=true) (call : Call)
    (hcall : call≠.checkedWriters) :
    Triple (After w₀ calls) (perform call) (fun _ => After w₀ (calls++[call]))
      (fun _ => Untouched w₀) := by
  refine nextTurn_after.bind (fun turn => ?_)
  cases hfailure : turn.failure with
  | some fault => exact throw_asked hquiet fault
  | none => exact record_asked ⟨hfailure,fun hbad => absurd hbad hcall⟩

/-- A guard after quiet calls. -/
theorem ensure_after {c : Prop} [Decidable c] {e : Fault} (hquiet : calls.all Call.quiet=true) :
    Triple (After w₀ calls) (ensure c e) (fun _ t => c ∧ After w₀ calls t)
      (fun _ => Untouched w₀) := Triple.ensure (fun hs => ⟨calls,hs,hquiet⟩)

/-- Returning a value after some calls. -/
theorem pure_after {α : Type} (a : α) : Triple (After w₀ calls) (pure a : Io World α)
    (fun b t => b=a ∧ After w₀ calls t) (fun _ => Untouched w₀) := Triple.pure a

/-- Continuing with the result of a device program: it returned, or the flow stops. -/
theorem continueWith_after {σ α : Type} {x : EStateM.Result Fault σ α}
    (hquiet : calls.all Call.quiet=true) :
    Triple (After w₀ calls) (continueWith x) (fun r t => x=.ok r.1 r.2 ∧ After w₀ calls t)
      (fun _ => Untouched w₀) := by
  cases x with
  | ok a device =>
    refine ⟨fun hs h => ?_,fun _ h => ?_⟩
    · cases h
      exact ⟨rfl,hs⟩
    · cases h
  | error e device => exact throw_untouched hquiet e

/-- The path refers to this file, as the answer to a lookup after some calls was. -/
def Found (w₀ : World) (calls : List Call) (inode : Inode) (w : World) : Prop :=
  w.path.inode=some inode ∧ ∃ turn, turn.failure=none ∧ Asked w₀ calls turn w

/-- A lookup is no call of its own. -/
theorem Found.after {inode : Inode} {w : World} (h : Found w₀ calls inode w) : After w₀ calls w := by
  obtain ⟨_,_,_,hasked⟩ := h
  exact hasked.after

/-- A lookup returns what the path refers to at that moment. -/
theorem lookup_after (hquiet : calls.all Call.quiet=true) :
    Triple (After w₀ calls) lookup (Found w₀ calls) (fun _ => Untouched w₀) := by
  refine nextTurn_after.bind (fun turn => ?_)
  refine ⟨fun {s t inode} hs h => ?_,fun {s t e} hs h => ?_⟩
  · obtain ⟨w,u,hget,hrest⟩ := bind_ok_iff.mp h
    cases hget
    cases hfailure : turn.failure with
    | some fault => rw [hfailure] at hrest; cases hrest
    | none =>
      cases hinode : s.path.inode with
      | none => rw [hfailure,hinode] at hrest; cases hrest
      | some found =>
        rw [hfailure,hinode] at hrest
        cases hrest
        exact ⟨hinode,turn,hfailure,hs⟩
  · rcases bind_error_iff.mp h with hget|⟨w,u,hget,hrest⟩
    · cases hget
    · cases hget
      cases hfailure : turn.failure with
      | some fault =>
        rw [hfailure] at hrest
        cases hrest
        exact ⟨calls,hs.after,hquiet⟩
      | none =>
        cases hinode : s.path.inode with
        | none =>
          rw [hfailure,hinode] at hrest
          cases hrest
          exact ⟨calls,hs.after,hquiet⟩
        | some found => rw [hfailure,hinode] at hrest; cases hrest

end Calls

section Guard
variable {w₀ : World} {calls : List Call}

/-- Metadata that pass the comparison with the scan. -/
def Genuine (original current : Metadata) : Prop := ¬isProtected current ∧ sameSource current original

/-- What a passed comparison leaves: the path refers to a file whose metadata were compared. -/
def Compared (w₀ : World) (calls : List Call) (original : Metadata) (w : World) : Prop :=
  ∃ inode, w.path.inode=some inode ∧ Genuine original inode.metadata ∧
    After w₀ (calls++[.checkedSource inode.metadata]) w

/-- What a skip leaves. -/
def Passed (w₀ : World) (good : World→Prop) (reason : Option SkipReason) (w : World) : Prop :=
  match reason with
  | none => good w
  | some _ => Untouched w₀ w

/-- `current_source`. -/
theorem currentSource_after (hquiet : calls.all Call.quiet=true) (original : Metadata) :
    Triple (After w₀ calls) (currentSource original) (Passed w₀ (Compared w₀ calls original))
      (fun _ => Untouched w₀) := by
  refine (lookup_after hquiet).bind (fun inode => ?_)
  dsimp only
  by_cases hprotected : isProtected inode.metadata
  · rw [if_pos hprotected]
    exact (Triple.pure _).weaken (fun hs => hs) (fun ht => ht.1 ▸ ⟨calls,ht.2.after,hquiet⟩)
      (fun he => he)
  · rw [if_neg hprotected]
    refine (Triple.ensure (fun hs => ⟨calls,hs.after,hquiet⟩)).bind (fun _ => ?_)
    refine Triple.assume (fun hsame => ?_)
    have hrecord : Triple (Found w₀ calls inode) (record (.checkedSource inode.metadata))
        (fun _ => Compared w₀ calls original) (fun _ => Untouched w₀) := by
      refine ⟨fun hs h => ?_,fun _ h => by cases h⟩
      obtain ⟨hinode,turn,hfailure,hasked⟩ := hs
      have hsucceeds : Succeeds (.checkedSource inode.metadata) turn := ⟨hfailure,nofun⟩
      have hafter := (record_asked hsucceeds).ok hasked h
      cases h
      exact ⟨inode,hinode,⟨hprotected,hsame⟩,hafter⟩
    refine hrecord.bind (fun _ => ?_)
    exact (Triple.pure _).weaken (fun hs => hs) (fun ht => ht.1 ▸ ht.2) (fun he => he)

/-- What the check for writers leaves: where it found none, the answer that says so. -/
def WritersChecked (w₀ : World) (calls : List Call) (result : Except IoError Bool) (w : World) : Prop :=
  After w₀ calls w ∧
    (result=.ok false → ∃ turn, Succeeds .checkedWriters turn ∧ Asked w₀ calls turn w)

/-- `has_writer` changes nothing; a failed check is a value. -/
theorem hasWriter_after (hquiet : calls.all Call.quiet=true) :
    Triple (After w₀ calls) hasWriter (WritersChecked w₀ calls) (fun _ => Untouched w₀) := by
  refine nextTurn_after.bind (fun turn => ?_)
  cases hfailure : turn.failure with
  | none =>
    refine (Triple.pure _).weaken (fun hs => hs) (fun ht => ⟨ht.2.after,fun hfalse => ?_⟩)
      (fun he => he)
    have hwriter : turn.writer=false := Except.ok.inj (ht.1.symm.trans hfalse)
    exact ⟨turn,⟨hfailure,fun _ => hwriter⟩,ht.2⟩
  | some fault =>
    cases fault with
    | error error =>
      refine (Triple.pure _).weaken (fun hs => hs) (fun ht => ⟨ht.2.after,fun hbad => ?_⟩)
        (fun he => he)
      cases ht.1.symm.trans hbad
    | panic message => exact throw_asked hquiet _

/-- No writer was found, and that is recorded. -/
theorem checkedWriters_after :
    Triple (WritersChecked w₀ calls (.ok false)) (record .checkedWriters)
      (fun _ => After w₀ (calls++[.checkedWriters])) (fun _ => Untouched w₀) := by
  refine ⟨fun hs h => ?_,fun _ h => by cases h⟩
  obtain ⟨turn,hsucceeds,hasked⟩ := hs.2 rfl
  exact (record_asked hsucceeds).ok hasked h

/-- What `before_publish` leaves when it finds nothing: two comparisons around
the check for writers. -/
def Guarded (w₀ : World) (calls : List Call) (original : Metadata) (w : World) : Prop :=
  ∃ first inode, Genuine original first ∧ Genuine original inode.metadata ∧
    w.path.inode=some inode ∧
    After w₀ (calls++[.checkedSource first,.checkedWriters,.checkedSource inode.metadata]) w

/-- `before_publish`. -/
theorem beforePublish_after (hquiet : calls.all Call.quiet=true) (original : Metadata) :
    Triple (After w₀ calls) (beforePublish original) (Passed w₀ (Guarded w₀ calls original))
      (fun _ => Untouched w₀) := by
  refine (currentSource_after hquiet original).bind (fun reason => ?_)
  cases reason with
  | some reason =>
    exact (Triple.pure _).weaken (fun hs => hs) (fun ht => ht.1 ▸ ht.2) (fun he => he)
  | none =>
    dsimp only
    refine @Triple.weaken _ _ (fun w => ∃ first, Genuine original first ∧
      After w₀ (calls++[.checkedSource first]) w) _ _ _ _ _ _
      (Triple.exists fun first => Triple.assume fun hgenuine => ?_) (fun hs => ?_)
      (fun ht => ht) (fun he => he)
    · have hcompared : (calls++[Call.checkedSource first]).all Call.quiet=true := by
        rw [List.all_append,hquiet]
        rfl
      refine (hasWriter_after hcompared).bind (fun result => ?_)
      have hskip : ∀ (result : Except IoError Bool) (reason : SkipReason),
          Triple (WritersChecked w₀ (calls++[.checkedSource first]) result)
            (pure (some reason) : Io World (Option SkipReason))
            (Passed w₀ (Guarded w₀ calls original)) (fun _ => Untouched w₀) := fun _ _ =>
        (Triple.pure _).weaken (fun hs => hs) (fun ht => ht.1 ▸ ⟨_,ht.2.1,hcompared⟩) (fun he => he)
      cases result with
      | error error => exact hskip _ _
      | ok writer =>
        cases writer with
        | true => exact hskip _ _
        | false =>
          refine Triple.bind checkedWriters_after (fun _ => ?_)
          have hwriters : (calls++[Call.checkedSource first]++[Call.checkedWriters]).all Call.quiet=true := by
            rw [List.all_append,hcompared]
            rfl
          refine (currentSource_after hwriters original).weaken (fun hs => hs)
            (fun {reason t} ht => ?_) (fun he => he)
          cases reason with
          | some reason => exact ht
          | none =>
            obtain ⟨inode,hpath,hlast,hafter⟩ := ht
            refine ⟨first,inode,hgenuine,hlast,hpath,?_⟩
            rw [List.append_assoc,List.append_assoc] at hafter
            exact hafter
    · obtain ⟨inode,_,hgenuine,hafter⟩ := hs
      exact ⟨inode.metadata,hgenuine,hafter⟩

/-- The path was replaced by this file: after the calls and the guard, at whose
last comparison the path referred to a file with the metadata of the scan, the
rename has succeeded. -/
def Replaced (w₀ : World) (calls : List Call) (original : Metadata) (tmp : TempFile)
    (w : World) : Prop :=
  ∃ v first inode, Genuine original first ∧ Genuine original inode.metadata ∧
    v.path.inode=some inode ∧
    After w₀ (calls++[.checkedSource first,.checkedWriters,.checkedSource inode.metadata]) v ∧
    (∃ turn u, nextTurn v=.ok turn u ∧ Succeeds (.persisted tmp) turn) ∧
    w.calls=v.calls++[.persisted tmp,.resetTimes] ∧
    ∃ turns, w.path=drift (.converted tmp) turns

/-- How a flow ends: it returned `true` after a replacement, or the path is untouched. -/
def Ended (w₀ : World) (replaced : World→Prop) : Bool→World→Prop
  | true => replaced
  | false => Untouched w₀

/-- `persist` and what follows it, after a passed guard. -/
theorem persist_after (hquiet : calls.all Call.quiet=true) {original : Metadata} {tmp : TempFile} :
    Triple (Guarded w₀ calls original)
      (do
        persist tmp
        resetTimes
        pure true)
      (Ended w₀ (Replaced w₀ calls original tmp)) (fun _ => Untouched w₀) := by
  refine ⟨fun {v w converted} hv h => ?_,fun {v w e} hv h => ?_⟩
  · obtain ⟨first,inode,hfirst,hlast,hpath,hafter⟩ := hv
    simp only [persist,resetTimes,bind_ok_iff] at h
    obtain ⟨_,u,⟨turn,s,hturn,hrename⟩,_,r,⟨turn',q,hturn',hrecord⟩,hpure⟩ := h
    cases hpure
    have hs := nextTurn_after.ok (After.refl v) hturn
    cases hfailure : turn.failure with
    | some fault => rw [hfailure] at hrename; cases hrename
    | none =>
      rw [hfailure] at hrename
      have hq := nextTurn_after.ok (After.refl u) hturn'
      cases hrename
      cases hrecord
      obtain ⟨turns,_,hdrift⟩ := hq.after.path
      refine ⟨v,first,inode,hfirst,hlast,hpath,hafter,⟨turn,s,hturn,hfailure,nofun⟩,?_,turns,hdrift⟩
      rw [hq.calls]
      dsimp only
      rw [hs.calls,List.append_nil,List.append_nil,List.append_assoc]
      rfl
  · obtain ⟨first,inode,_,_,_,hafter⟩ := hv
    have hguarded : (calls++[Call.checkedSource first,Call.checkedWriters,
        Call.checkedSource inode.metadata]).all Call.quiet=true := by
      rw [List.all_append,hquiet]
      rfl
    rcases bind_error_iff.mp h with hrename|⟨_,u,_,hrest⟩
    · rcases bind_error_iff.mp hrename with hturn|⟨turn,s,hturn,hstop⟩
      · exact nextTurn_after.error hafter hturn
      · have hs := nextTurn_after.ok hafter hturn
        cases hfailure : turn.failure with
        | none => rw [hfailure] at hstop; cases hstop
        | some fault =>
          rw [hfailure] at hstop
          cases hstop
          exact ⟨_,hs.after,hguarded⟩
    · rcases bind_error_iff.mp hrest with hreset|⟨_,_,_,hpure⟩
      · rcases bind_error_iff.mp hreset with hturn|⟨_,_,_,hrecord⟩
        · exact absurd hturn (nextTurn_ne_error u)
        · cases hrecord
      · cases hpure

/-- `persist_file`: it replaces the path after a passed guard, or leaves it alone. -/
theorem persistFile_after (hquiet : calls.all Call.quiet=true) (job : Job) (tmp : TempFile) :
    Triple (After w₀ calls) (persistFile job tmp)
      (Ended w₀ (Replaced w₀ calls job.original tmp)) (fun _ => Untouched w₀) := by
  refine (beforePublish_after hquiet job.original).bind (fun reason => ?_)
  cases reason with
  | none => exact persist_after hquiet
  | some reason =>
    have hskip : Triple (Untouched w₀) (record (.skipped reason)) (fun _ => Untouched w₀)
        (fun _ => Untouched w₀) := by
      refine ⟨fun hs h => ?_,fun _ h => by cases h⟩
      obtain ⟨before,hafter,hbefore⟩ := hs
      refine ⟨_,(record_after rfl).ok hafter h,?_⟩
      rw [List.all_append,hbefore]
      rfl
    refine Triple.bind hskip (fun _ => ?_)
    exact (Triple.pure false).weaken (fun hs => hs) (fun ht => ht.1 ▸ ht.2) (fun he => he)

end Guard

section Finish
variable {w₀ : World} {calls : List Call}

/-- Quiet calls after quiet calls. -/
theorem all_quiet_append {more : List Call} (h : calls.all Call.quiet=true)
    (hmore : more.all Call.quiet=true) : (calls++more).all Call.quiet=true := by
  rw [List.all_append,h,hmore]
  rfl

/-- The calls of a successful verification. -/
def verifyCalls (job : Job) : List Call :=
  if job.verify then
    match job.mode with
    | .decompressManually => [.rewound,.verified]
    | _ => [.rewound,.rewound,.verified]
  else []

/-- A verification is quiet. -/
theorem verifyCalls_quiet (job : Job) : (verifyCalls job).all Call.quiet=true := by
  unfold verifyCalls
  cases job.verify with
  | false => rfl
  | true =>
    cases job.mode with
    | compress kind => rfl
    | decompressManually => rfl
    | decompressByReading => rfl

/-- The comparison of the files. -/
theorem compareFiles_after (hquiet : calls.all Call.quiet=true) (job : Job) :
    Triple (After w₀ calls) (compareFiles job) (fun _ => After w₀ (calls++[.verified]))
      (fun _ => Untouched w₀) := by
  refine nextTurn_after.bind (fun turn => ?_)
  cases hfailure : turn.failure with
  | none => exact record_asked ⟨hfailure,nofun⟩
  | some fault =>
    cases fault with
    | error error => exact throw_asked hquiet _
    | panic message => exact throw_asked hquiet _

/-- `verify_file` returns only after a comparison, when it is enabled. -/
theorem verifyFile_after (hquiet : calls.all Call.quiet=true) (job : Job) :
    Triple (After w₀ calls) (verifyFile job) (fun _ => After w₀ (calls++verifyCalls job))
      (fun _ => Untouched w₀) := by
  have honce : (calls++[Call.rewound]).all Call.quiet=true := all_quiet_append hquiet rfl
  have htwice : (calls++[Call.rewound]++[Call.rewound]).all Call.quiet=true :=
    all_quiet_append honce rfl
  have hlong : Triple (After w₀ calls) (perform .rewound>>=fun _ => perform .rewound>>=fun _ =>
      compareFiles job) (fun _ => After w₀ (calls++[.rewound,.rewound,.verified]))
      (fun _ => Untouched w₀) := by
    refine (perform_after hquiet .rewound nofun).bind (fun _ => ?_)
    refine (perform_after honce .rewound nofun).bind (fun _ => ?_)
    refine (compareFiles_after htwice job).weaken (fun hs => hs) (fun ht => ?_) (fun he => he)
    rw [List.append_assoc,List.append_assoc] at ht
    exact ht
  unfold verifyFile verifyCalls
  cases job.verify with
  | false =>
    rw [if_neg (by decide),if_neg (by decide),List.append_nil]
    exact (Triple.pure ()).weaken (fun hs => hs) (fun ht => ht.2) (fun he => he)
  | true =>
    rw [if_pos rfl,if_pos rfl]
    cases hmode : job.mode with
    | compress kind => exact hlong
    | decompressByReading => exact hlong
    | decompressManually =>
      refine (perform_after hquiet .rewound nofun).bind (fun _ => ?_)
      refine (compareFiles_after honce job).weaken (fun hs => hs) (fun ht => ?_) (fun he => he)
      rw [List.append_assoc] at ht
      exact ht

/-- The calls of `finish_compressed_file` up to the guard. -/
def finishCompressedCalls (job : Job) : List Call :=
  [.setXattr,.copiedMetadata,.setFlags]++verifyCalls job

/-- The calls of `finish_uncompressed_file` up to the guard. -/
def finishUncompressedCalls (job : Job) : List Call :=
  [.copiedMetadata,.setFlags]++verifyCalls job

/-- Finishing a temporary file from its metadata on. -/
theorem finishFlags_after (hquiet : calls.all Call.quiet=true) (job : Job) (flags : BitVec 32)
    (tmp : TempFile) : Triple (After w₀ calls)
      (do
        perform .copiedMetadata
        let tmp ← setFlags flags tmp
        verifyFile job
        persistFile job tmp)
      (Ended w₀ (Replaced w₀ (calls++([.copiedMetadata,.setFlags]++verifyCalls job)) job.original
        {tmp with flags := flags})) (fun _ => Untouched w₀) := by
  have hmetadata : (calls++[Call.copiedMetadata]).all Call.quiet=true := all_quiet_append hquiet rfl
  have hflags : (calls++[Call.copiedMetadata]++[Call.setFlags]).all Call.quiet=true :=
    all_quiet_append hmetadata rfl
  refine (perform_after hquiet .copiedMetadata nofun).bind (fun _ => ?_)
  have hset : Triple (After w₀ (calls++[Call.copiedMetadata])) (setFlags flags tmp)
      (fun last w => last={tmp with flags := flags} ∧
        After w₀ (calls++[Call.copiedMetadata]++[Call.setFlags]) w) (fun _ => Untouched w₀) :=
    (perform_after hmetadata .setFlags nofun).bind (fun _ => pure_after _)
  refine hset.bind (fun last => Triple.assume (fun hlast => ?_))
  subst hlast
  refine (verifyFile_after hflags job).bind (fun _ => ?_)
  have hall := all_quiet_append hflags (verifyCalls_quiet job)
  rw [List.append_assoc,List.append_assoc] at hall ⊢
  exact persistFile_after hall job _

/-- `finish_compressed_file`. -/
theorem finishCompressedFile_after (hquiet : calls.all Call.quiet=true) (job : Job)
    (value : List UInt8) (tmp : TempFile) :
    Triple (After w₀ calls) (finishCompressedFile job value tmp)
      (Ended w₀ (Replaced w₀ (calls++finishCompressedCalls job) job.original
        {tmp with decmpfs := some value,flags := compressedFlags job.original}))
      (fun _ => Untouched w₀) := by
  have hset : Triple (After w₀ calls) (setDecmpfs value tmp)
      (fun last w => last={tmp with decmpfs := some value} ∧ After w₀ (calls++[Call.setXattr]) w)
      (fun _ => Untouched w₀) :=
    (perform_after hquiet .setXattr nofun).bind (fun _ => pure_after _)
  refine hset.bind (fun last => Triple.assume (fun hlast => ?_))
  subst hlast
  have hfinish := @finishFlags_after w₀ (calls++[Call.setXattr]) (all_quiet_append hquiet rfl) job
    (compressedFlags job.original) {tmp with decmpfs := some value}
  rw [List.append_assoc] at hfinish
  exact hfinish

/-- `finish_uncompressed_file`. -/
theorem finishUncompressedFile_after (hquiet : calls.all Call.quiet=true) (job : Job)
    (tmp : TempFile) : Triple (After w₀ calls) (finishUncompressedFile job tmp)
      (Ended w₀ (Replaced w₀ (calls++finishUncompressedCalls job) job.original
        {tmp with flags := uncompressedFlags job.original})) (fun _ => Untouched w₀) :=
  finishFlags_after hquiet job _ tmp

end Finish

section Flows
variable {w₀ : World} {calls : List Call}

/-- A stronger description of a replacement. -/
theorem Ended.imp {replaced replaced' : World→Prop} {converted : Bool} {w : World}
    (himp : ∀ {w}, replaced w → replaced' w) (h : Ended w₀ replaced converted w) :
    Ended w₀ replaced' converted w := by
  cases converted with
  | true => exact himp h
  | false => exact h

/-- A compressed destination: the attribute and the fork of an outcome of the
writer, unless the original brought a resource fork of its own. -/
def CompleteCompressed (kind : Kind) (job : Job) (delivery : Delivery) (original : Inode)
    (tmp : TempFile) : Prop :=
  shown original original.resourceFork=none →
    ∃ value, tmp.decmpfs=some value ∧
      Outcome kind job.original.len (countedBlocks job.original.len delivery.blocks) value
        tmp.fork.content

/-- A decompressed destination: exactly the delivered blocks, of the size of the scan. -/
def CompleteUncompressed (job : Job) (delivery : Delivery) (tmp : TempFile) : Prop :=
  tmp.data.contents.bytes=delivery.blocks.flatten ∧ delivery.blocks.flatten.length=job.original.len

/-- What a finished destination holds, by the mode of the operation. -/
def Complete (job : Job) (delivery : Delivery) (original : Inode) (tmp : TempFile) : Prop :=
  match job.mode with
  | .compress kind => CompleteCompressed kind job delivery original tmp
  | _ => CompleteUncompressed job delivery tmp

/-- A new temporary file. -/
theorem tempfileFor_after (hquiet : calls.all Call.quiet=true) (fresh : Fresh) :
    Triple (After w₀ calls) (tempfileFor fresh)
      (fun tmp w => tmp=fresh.file ∧ After w₀ (calls++[.tempFile]) w) (fun _ => Untouched w₀) :=
  (perform_after hquiet .tempFile nofun).bind (fun _ => pure_after _)

/-- A temporary file with the attributes of the original. -/
theorem copyXattrs_after (hquiet : calls.all Call.quiet=true) (original : Inode) (tmp : TempFile) :
    Triple (After w₀ calls) (copyXattrs original tmp)
      (fun last w => last=withXattrs original tmp ∧ After w₀ (calls++[.copiedXattrs]) w)
      (fun _ => Untouched w₀) :=
  (perform_after hquiet .copiedXattrs nofun).bind (fun _ => pure_after _)

/-- The calls of a direct compression up to the guard. -/
def directCompressedCalls (job : Job) : List Call :=
  [.tempFile,.copiedXattrs,.receivedBlocks]++finishCompressedCalls job

/-- The calls of a direct decompression up to the guard. -/
def directUncompressedCalls (job : Job) : List Call :=
  [.tempFile,.copiedXattrs,.receivedBlocks]++finishUncompressedCalls job

/-- What a replacement by the direct flow or the publisher comes with. -/
def Finished (w₀ : World) (calls : List Call) (job : Job) (complete : TempFile→Prop) (w : World) :
    Prop := ∃ tmp, Replaced w₀ calls job.original tmp w ∧ complete tmp

/-- `write_compressed_file`. -/
theorem writeCompressedFile_after (job : Job) (kind : Kind) (delivery : Delivery) (original : Inode)
    (fresh : Fresh) :
    Triple (After w₀ []) (writeCompressedFile job kind delivery original fresh)
      (Ended w₀ (Finished w₀ (directCompressedCalls job) job (fun tmp =>
        delivery.received=.ok () ∧ CompleteCompressed kind job delivery original tmp)))
      (fun _ => Untouched w₀) := by
  refine (tempfileFor_after rfl fresh).bind (fun tmp => Triple.assume (fun htmp => ?_))
  refine (copyXattrs_after rfl original tmp).bind (fun tmp' => Triple.assume (fun htmp' => ?_))
  refine (continueWith_after rfl).bind (fun result => Triple.assume (fun hwrite => ?_))
  refine (record_after rfl).bind (fun _ => ?_)
  refine (finishCompressedFile_after rfl job result.1 _).weaken (fun hs => hs) (fun ht => ?_)
    (fun he => he)
  refine Ended.imp (fun hreplaced => ⟨_,hreplaced,writeFork_received hwrite,fun habsent => ?_⟩) ht
  subst htmp htmp'
  exact ⟨result.1,rfl,writeFork_outcome habsent hwrite⟩

/-- `write_uncompressed_file`. -/
theorem writeUncompressedFile_after (job : Job) (delivery : Delivery) (original : Inode)
    (fresh : Fresh) :
    Triple (After w₀ []) (writeUncompressedFile job delivery original fresh)
      (Ended w₀ (Finished w₀ (directUncompressedCalls job) job (fun tmp =>
        delivery.received=.ok () ∧ CompleteUncompressed job delivery tmp)))
      (fun _ => Untouched w₀) := by
  refine (tempfileFor_after rfl fresh).bind (fun tmp => Triple.assume (fun htmp => ?_))
  refine (copyXattrs_after rfl original tmp).bind (fun tmp' => Triple.assume (fun htmp' => ?_))
  refine (continueWith_after rfl).bind (fun result => Triple.assume (fun hwrite => ?_))
  refine (record_after rfl).bind (fun _ => ?_)
  refine (finishUncompressedFile_after rfl job _).weaken (fun hs => hs) (fun ht => ?_)
    (fun he => he)
  obtain ⟨hreceived,htotal,hfile⟩ := writeUncompressedBlocks_ok hwrite
  refine Ended.imp (fun hreplaced => ⟨_,hreplaced,hreceived,?_,htotal⟩) ht
  subst htmp htmp'
  change result.2.contents=Cursor.empty.write _ at hfile
  dsimp only
  rw [hfile,write_empty]

/-- Where the original of a publication comes from: the file that was kept open,
or, opened again, what the path referred to at some moment, with the metadata
of the scan. -/
def OpenedFrom (w₀ : World) (job : Job) (file : Option Inode) (original : Inode) : Prop :=
  match file with
  | some inode => original=inode
  | none => sameSource original.metadata job.original ∧
      ∃ turns rest, w₀.turns=turns++rest ∧ (drift w₀.path turns).inode=some original

/-- The calls that opening the original again makes. -/
def openCalls (file : Option Inode) (original : Inode) : List Call :=
  match file with
  | some _ => []
  | none => [.openedSource original.metadata]

/-- Opening is quiet. -/
theorem openCalls_quiet (file : Option Inode) (original : Inode) :
    (openCalls file original).all Call.quiet=true := by
  cases file with
  | some inode => rfl
  | none => rfl

/-- The original of a publication. -/
theorem openOriginal_after (hquiet : calls.all Call.quiet=true) (job : Job) (file : Option Inode) :
    Triple (After w₀ calls) (openOriginal job file)
      (fun original w => OpenedFrom w₀ job file original ∧
        After w₀ (calls++openCalls file original) w) (fun _ => Untouched w₀) := by
  cases file with
  | some inode =>
    refine (pure_after inode).weaken (fun hs => hs) (fun ht => ⟨ht.1,?_⟩) (fun he => he)
    rw [openCalls,List.append_nil]
    exact ht.2
  | none =>
    refine (lookup_after hquiet).bind (fun inode => ?_)
    have hmoment : ∀ {w}, Found w₀ calls inode w →
        (∃ turns rest, w₀.turns=turns++rest ∧ (drift w₀.path turns).inode=some inode) ∧
          After w₀ calls w := by
      intro w hw
      obtain ⟨turns,hturns,hpath⟩ := hw.after.path
      exact ⟨⟨turns,w.turns,hturns,hpath ▸ hw.1⟩,hw.after⟩
    refine Triple.weaken (Triple.assume (fun hturns => ?_)) hmoment (fun ht => ht) (fun he => he)
    refine (perform_after hquiet (.openedSource inode.metadata) nofun).bind (fun _ => ?_)
    refine (ensure_after (all_quiet_append hquiet rfl)).bind (fun _ => ?_)
    refine Triple.assume (fun hsame => ?_)
    exact (pure_after inode).weaken (fun hs => hs)
      (fun ht => ht.1 ▸ ⟨⟨hsame,hturns⟩,ht.2⟩) (fun he => he)

/-- The calls of a publication up to its end: a whole copy of so many bytes. -/
def copyCalls (file : Option Inode) (original : Inode) (len : ℕ) : List Call :=
  [.tempFile]++openCalls file original++[.copiedXattrs,.openedPayload,.copiedPayload len len]

/-- The calls of a publication up to the guard. -/
def publishCalls (job : Job) (item : StagedFile) (original : Inode) : List Call :=
  copyCalls item.file original item.payload.len++
    match item.contents with
    | .compressed _ => finishCompressedCalls job
    | .uncompressed => finishUncompressedCalls job

/-- What a publication puts in the destination. -/
def Published (item : StagedFile) (original : Inode) (tmp : TempFile) : Prop :=
  match item.contents with
  | .compressed value => tmp.decmpfs=some value ∧
      (shown original original.resourceFork=none → item.payload.len=item.payload.bytes.length →
        tmp.fork.content=if item.payload.bytes=[] then none else some item.payload.bytes)
  | .uncompressed => item.payload.len=item.payload.bytes.length →
      tmp.data.contents.bytes=item.payload.bytes

/-- A publication copies the payload as a whole before anything is finished. -/
theorem publish_after (hquiet : calls.all Call.quiet=true) (job : Job) (publisher : Publisher)
    (item : StagedFile) :
    Triple (After w₀ calls) (publish job publisher item)
      (Ended w₀ (fun w => ∃ original, OpenedFrom w₀ job item.file original ∧
        Finished w₀ (calls++publishCalls job item original) job (Published item original) w))
      (fun _ => Untouched w₀) := by
  have hfile : (calls++[Call.tempFile]).all Call.quiet=true := all_quiet_append hquiet rfl
  refine (tempfileFor_after hquiet publisher.fresh).bind (fun tmp => Triple.assume (fun htmp => ?_))
  refine (openOriginal_after hfile job item.file).bind (fun original => Triple.assume (fun hopen => ?_))
  have hopened := all_quiet_append hfile (openCalls_quiet item.file original)
  refine (copyXattrs_after hopened original tmp).bind (fun tmp' => Triple.assume (fun htmp' => ?_))
  have hxattrs := all_quiet_append hopened (rfl : [Call.copiedXattrs].all Call.quiet=true)
  refine (perform_after hxattrs .openedPayload nofun).bind (fun _ => ?_)
  have hpayload := all_quiet_append hxattrs (rfl : [Call.openedPayload].all Call.quiet=true)
  have hsplit : ∀ len, calls++[Call.tempFile]++openCalls item.file original++[Call.copiedXattrs]++
      [Call.openedPayload]++[Call.copiedPayload len len]=
        calls++copyCalls item.file original len := by
    intro len
    unfold copyCalls
    simp only [List.append_assoc,List.cons_append,List.nil_append]
  have hcopy := fun len => all_quiet_append hpayload
    (rfl : [Call.copiedPayload len len].all Call.quiet=true)
  dsimp only
  subst htmp
  unfold publishCalls Published
  cases item.contents with
  | compressed value =>
    refine (continueWith_after hpayload).bind (fun result => Triple.assume (fun hcopied => ?_))
    obtain ⟨copied,source,fork⟩ := result
    refine (ensure_after hpayload).bind (fun _ => Triple.assume (fun hlen => ?_))
    subst hlen
    refine (record_after rfl).bind (fun _ => ?_)
    have hall := hcopy item.payload.len
    rw [hsplit] at hall ⊢
    refine (finishCompressedFile_after hall job value _).weaken (fun hs => hs) (fun ht => ?_)
      (fun he => he)
    rw [List.append_assoc] at ht
    refine Ended.imp (fun hreplaced => ⟨original,hopen,_,hreplaced,rfl,fun habsent hwhole => ?_⟩) ht
    subst htmp'
    exact copyPayload_fork habsent hwhole hcopied
  | uncompressed =>
    refine (ensure_after hpayload).bind (fun _ => Triple.assume (fun _ => ?_))
    refine (continueWith_after hpayload).bind (fun result => Triple.assume (fun hcopied => ?_))
    obtain ⟨copied,source,data⟩ := result
    refine (ensure_after hpayload).bind (fun _ => Triple.assume (fun hlen => ?_))
    subst hlen
    refine (record_after rfl).bind (fun _ => ?_)
    have hall := hcopy item.payload.len
    rw [hsplit] at hall ⊢
    refine (finishUncompressedFile_after hall job _).weaken (fun hs => hs) (fun ht => ?_)
      (fun he => he)
    rw [List.append_assoc] at ht
    refine Ended.imp (fun hreplaced => ⟨original,hopen,_,hreplaced,fun hwhole => ?_⟩) ht
    subst htmp'
    have hfile := copyPayload_complete hcopied hwhole
    change data.contents=Cursor.empty.write _ at hfile
    dsimp only
    rw [hfile,write_empty]

/-- One more quiet call leaves the path untouched. -/
theorem Untouched.record {call : Call} {w t : World} {u : Unit} (h : Untouched w₀ w)
    (hcall : Call.quiet call=true) (hreport : Call.awaits call=false)
    (hrecord : record call w=.ok u t) : Untouched w₀ t := by
  obtain ⟨calls,hafter,hquiet⟩ := h
  refine ⟨_,(record_after hreport).ok hafter hrecord,all_quiet_append hquiet ?_⟩
  rw [List.all_cons,hcall]
  rfl

/-- The state in which a conversion was reported after this one. -/
def reported (v : World) : World := {v with calls := v.calls++[.reportedConverted]}

/-- The end of `handle_item`: a conversion is reported exactly after a replacement. -/
theorem report_after {pre : World→Prop} {replaced : World→Prop} {silent : Bool} {x : Io World Bool}
    (h : Triple pre x (Ended w₀ replaced) (fun _ => Untouched w₀)) :
    Triple pre (report silent x)
      (fun _ w => Untouched w₀ w ∨ ∃ v, replaced v ∧ w=reported v) (fun _ => Untouched w₀) := by
  refine ⟨fun {s t u} hs ht => ?_,fun {s t e} hs ht => ?_⟩
  · unfold report at ht
    cases hx : x s with
    | ok converted v =>
      have hv := h.ok hs hx
      rw [hx] at ht
      cases converted with
      | true =>
        cases ht
        exact Or.inr ⟨v,hv,rfl⟩
      | false =>
        cases ht
        exact Or.inl hv
    | error fault v =>
      have hv := h.error hs hx
      rw [hx] at ht
      cases fault with
      | panic message => cases ht
      | error error =>
        cases silent with
        | true =>
          cases ht
          exact Or.inl hv
        | false => exact Or.inl (hv.record rfl rfl ht)
  · unfold report at ht
    cases hx : x s with
    | ok converted v =>
      rw [hx] at ht
      cases converted with
      | true => cases ht
      | false => cases ht
    | error fault v =>
      have hv := h.error hs hx
      rw [hx] at ht
      cases fault with
      | panic message =>
        cases ht
        exact hv
      | error error =>
        cases silent with
        | true => cases ht
        | false => cases ht

/-- What a staged file holds, by the mode of the operation. -/
def StagedWhole (job : Job) (delivery : Delivery) (item : StagedFile) : Prop :=
  match job.mode with
  | .compress kind => ∃ value fork, item.contents=.compressed value ∧
      Outcome kind job.original.len (countedBlocks job.original.len delivery.blocks) value fork ∧
        item.payload.bytes=fork.getD []
  | _ => item.contents=.uncompressed ∧ item.payload.bytes=delivery.blocks.flatten ∧
      delivery.blocks.flatten.length=job.original.len

/-- Without compression the staged item holds what was staged uncompressed. -/
theorem stage_uncompressed {job : Job} {delivery : Delivery} {scratch : Scratch}
    {file : Option Inode} {item : StagedFile} (hmode : ∀ kind, job.mode≠.compress kind)
    (h : stage job delivery scratch file=.ok item) :
    ∃ payload, stageUncompressedFile job delivery scratch=.ok payload ∧
      item=⟨payload,.uncompressed,file⟩ := by
  unfold stage at h
  cases hmode' : job.mode with
  | compress kind => exact absurd hmode' (hmode kind)
  | _ =>
    rw [hmode'] at h
    dsimp only at h
    cases hstage : stageUncompressedFile job delivery scratch with
    | error e => rw [hstage] at h; cases h
    | ok payload =>
      rw [hstage] at h
      exact ⟨payload,rfl,(Except.ok.inj h).symm⟩

/-- Staging succeeds only with all blocks, and its payload is as long as it says. -/
theorem stage_ok {job : Job} {delivery : Delivery} {scratch : Scratch} {file : Option Inode}
    {item : StagedFile} (h : stage job delivery scratch file=.ok item) :
    delivery.received=.ok () ∧ item.file=file ∧ item.payload.len=item.payload.bytes.length ∧
      StagedWhole job delivery item := by
  unfold StagedWhole
  cases hmode : job.mode with
  | decompressManually | decompressByReading =>
    obtain ⟨payload,hstage,rfl⟩ := stage_uncompressed (by simp [hmode]) h
    obtain ⟨hreceived,hbytes,hlen,htotal⟩ := stageUncompressedFile_ok hstage
    exact ⟨hreceived,rfl,hlen,rfl,hbytes,htotal⟩
  | compress kind =>
    unfold stage at h
    rw [hmode] at h
    dsimp only at h
    cases hstage : stageCompressedFile job.build kind job.original.len scratch.storage
        scratch.metadata job.maxCompressedSize job.percent delivery.received scratch.reservation
        delivery.blocks with
    | error e left => rw [hstage] at h; cases h
    | ok staged left =>
      rw [hstage] at h
      cases h
      obtain ⟨hreceived,hlen,fork,hfork,hbytes⟩ := stageCompressedFile_outcome hstage
      exact ⟨hreceived,rfl,hlen,staged.decmpfsData,fork,rfl,hfork,hbytes⟩

/-- A copied outcome is the outcome. -/
theorem copied_outcome {kind : Kind} {n : ℕ} {blocks : List (List UInt8)} {value bytes : List UInt8}
    {fork : Option (List UInt8)} (h : Outcome kind n blocks value fork) (hbytes : bytes=fork.getD []) :
    (if bytes=[] then none else some bytes)=fork := by
  cases fork with
  | none =>
    rw [hbytes]
    rfl
  | some content =>
    have hne : bytes≠[] := hbytes ▸ fork_ne_nil h
    rw [if_neg hne,hbytes]
    rfl

/-- Publishing a whole staged file makes a complete destination. -/
theorem published_complete {job : Job} {delivery : Delivery} {item : StagedFile} {original : Inode}
    {tmp : TempFile} (hlen : item.payload.len=item.payload.bytes.length)
    (hwhole : StagedWhole job delivery item) (h : Published item original tmp) :
    Complete job delivery original tmp := by
  unfold StagedWhole at hwhole
  unfold Published at h
  unfold Complete
  cases hmode : job.mode with
  | decompressManually =>
    rw [hmode] at hwhole
    obtain ⟨hcontents,hbytes,htotal⟩ := hwhole
    rw [hcontents] at h
    exact ⟨(h hlen).trans hbytes,htotal⟩
  | decompressByReading =>
    rw [hmode] at hwhole
    obtain ⟨hcontents,hbytes,htotal⟩ := hwhole
    rw [hcontents] at h
    exact ⟨(h hlen).trans hbytes,htotal⟩
  | compress kind =>
    rw [hmode] at hwhole
    obtain ⟨value,fork,hcontents,hfork,hbytes⟩ := hwhole
    rw [hcontents] at h
    intro habsent
    refine ⟨value,h.1,?_⟩
    rw [h.2 habsent hlen,copied_outcome hfork hbytes]
    exact hfork

/-- The calls that must come before the guard, and the original they are about. -/
def Prepared (w₀ : World) (job : Job) (delivery : Delivery) (original : Inode) (calls : List Call) :
    Flow→Prop
  | .direct file _ => original=file ∧
      calls=if job.mode.isCompressing then directCompressedCalls job else directUncompressedCalls job
  | .scratch scratch file _ => ∃ item, stage job delivery scratch file=.ok item ∧
      OpenedFrom w₀ job file original ∧ calls=[.receivedBlocks]++publishCalls job item original

/-- A conversion: the blocks were received without error, every call of the flow
succeeded in its order, the guard passed, a complete file replaced the path,
and only then the conversion was reported. -/
def Converted (w₀ : World) (job : Job) (delivery : Delivery) (flow : Flow) (w : World) : Prop :=
  ∃ original calls tmp v, Prepared w₀ job delivery original calls flow ∧
    delivery.received=.ok () ∧ Complete job delivery original tmp ∧
    Replaced w₀ calls job.original tmp v ∧ w=reported v

/-- The direct flow. -/
theorem handleDirect_after (w₀ : World) (job : Job) (delivery : Delivery) (original : Inode)
    (fresh : Fresh) :
    Triple (After w₀ []) (handleDirect job delivery original fresh)
      (fun _ w => Untouched w₀ w ∨ Converted w₀ job delivery (.direct original fresh) w)
      (fun _ => Untouched w₀) := by
  have hend : ∀ {calls : List Call} {complete : TempFile→Prop} {x : Io World Bool},
      calls=(if job.mode.isCompressing then directCompressedCalls job
        else directUncompressedCalls job) →
      (∀ {tmp}, complete tmp → Complete job delivery original tmp) →
      Triple (After w₀ []) x (Ended w₀ (Finished w₀ calls job (fun tmp =>
        delivery.received=.ok () ∧ complete tmp))) (fun _ => Untouched w₀) →
      Triple (After w₀ []) (report job.mode.isCompressing x)
        (fun _ w => Untouched w₀ w ∨ Converted w₀ job delivery (.direct original fresh) w)
        (fun _ => Untouched w₀) := by
    intro calls complete x hcalls hcomplete hx
    refine (report_after hx).weaken (fun hs => hs) (fun ht => ?_) (fun he => he)
    refine ht.imp_right (fun ⟨v,hv,hw⟩ => ?_)
    obtain ⟨tmp,hreplaced,hreceived,hc⟩ := hv
    exact ⟨original,calls,tmp,v,⟨rfl,hcalls⟩,hreceived,hcomplete hc,hreplaced,hw⟩
  unfold handleDirect
  cases hmode : job.mode with
  | compress kind =>
    rw [hmode] at hend
    refine hend rfl (fun hc => ?_) (writeCompressedFile_after job kind delivery original fresh)
    unfold Complete
    rw [hmode]
    exact hc
  | decompressManually =>
    rw [hmode] at hend
    refine hend rfl (fun hc => ?_) (writeUncompressedFile_after job delivery original fresh)
    unfold Complete
    rw [hmode]
    exact hc
  | decompressByReading =>
    rw [hmode] at hend
    refine hend rfl (fun hc => ?_) (writeUncompressedFile_after job delivery original fresh)
    unfold Complete
    rw [hmode]
    exact hc

/-- Handing a staged file on changes nothing. -/
theorem sendStaged_after (hquiet : calls.all Call.quiet=true) (item : StagedFile) :
    Triple (After w₀ calls) (sendStaged item) (fun _ => After w₀ calls) (fun _ => Untouched w₀) := by
  unfold sendStaged
  cases item.file with
  | none => exact (pure_after ()).weaken (fun hs => hs) (fun ht => ht.2) (fun he => he)
  | some file =>
    refine nextTurn_after.bind (fun turn => ?_)
    cases turn.failure with
    | none => exact (pure_after ()).weaken Asked.after (fun ht => ht.2) (fun he => he)
    | some fault =>
      cases fault with
      | error error => exact throw_asked hquiet _
      | panic message => exact throw_asked hquiet _

/-- The writer's part of the scratch flow. -/
theorem stageItem_after (w₀ : World) (job : Job) (delivery : Delivery) (scratch : Scratch)
    (file : Option Inode) :
    Triple (After w₀ []) (stageItem job delivery scratch file)
      (fun item w => stage job delivery scratch file=.ok item ∧ After w₀ [.receivedBlocks] w)
      (fun _ => Untouched w₀) := by
  unfold stageItem
  cases stage job delivery scratch file with
  | error fault => exact throw_untouched rfl fault
  | ok item =>
    refine (record_after rfl).bind (fun _ => ?_)
    refine (sendStaged_after rfl item).bind (fun _ => ?_)
    exact (pure_after item).weaken (fun hs => hs) (fun ht => ⟨ht.1 ▸ rfl,ht.2⟩) (fun he => he)

/-- The publisher's part of the scratch flow. -/
theorem publishItem_after (w₀ : World) (job : Job) (publisher : Publisher) (item : StagedFile) :
    Triple (After w₀ [.receivedBlocks]) (report false (publish job publisher item))
      (fun _ w => Untouched w₀ w ∨ ∃ v, (∃ original, OpenedFrom w₀ job item.file original ∧
        Finished w₀ ([.receivedBlocks]++publishCalls job item original) job
          (Published item original) v) ∧ w=reported v)
      (fun _ => Untouched w₀) := report_after (publish_after rfl job publisher item)

/-- The scratch flow, batched or not. -/
theorem handleScratch_after (w₀ : World) (job : Job) (delivery : Delivery) (scratch : Scratch)
    (file : Option Inode) (publisher : Publisher) :
    Triple (After w₀ []) (handleScratch job delivery scratch file publisher)
      (fun _ w => Untouched w₀ w ∨
        Converted w₀ job delivery (.scratch scratch file publisher) w)
      (fun _ => Untouched w₀) := by
  have hstage := stageItem_after w₀ job delivery scratch file
  refine ⟨fun {s t u} hs ht => ?_,fun {s t e} hs ht => ?_⟩
  · unfold handleScratch at ht
    cases hitem : stageItem job delivery scratch file s with
    | error fault v =>
      have hv := hstage.error hs hitem
      rw [hitem] at ht
      cases fault with
      | panic message => cases ht
      | error error =>
        dsimp only at ht
        by_cases hskip : error=notCompressibleEnough job.percent
        · rw [if_pos hskip] at ht
          exact Or.inl (hv.record rfl rfl ht)
        · rw [if_neg hskip] at ht
          exact Or.inl (hv.record rfl rfl ht)
    | ok item v =>
      obtain ⟨hstaged,hv⟩ := hstage.ok hs hitem
      rw [hitem] at ht
      obtain ⟨hreceived,hfile,hlen,hwhole⟩ := stage_ok hstaged
      refine ((publishItem_after w₀ job publisher item).ok hv ht).imp_right (fun ⟨r,hr,hw⟩ => ?_)
      obtain ⟨original,hopen,tmp,hreplaced,hpublished⟩ := hr
      rw [hfile] at hopen
      exact ⟨original,_,tmp,r,⟨item,hstaged,hopen,rfl⟩,hreceived,
        published_complete hlen hwhole hpublished,hreplaced,hw⟩
  · unfold handleScratch at ht
    cases hitem : stageItem job delivery scratch file s with
    | error fault v =>
      have hv := hstage.error hs hitem
      rw [hitem] at ht
      cases fault with
      | panic message =>
        cases ht
        exact hv
      | error error =>
        dsimp only at ht
        by_cases hskip : error=notCompressibleEnough job.percent
        · rw [if_pos hskip] at ht
          cases ht
        · rw [if_neg hskip] at ht
          cases ht
    | ok item v =>
      obtain ⟨_,hv⟩ := hstage.ok hs hitem
      rw [hitem] at ht
      exact (publishItem_after w₀ job publisher item).error hv ht

end Flows

/-- Without external changes the path is exactly as it was. -/
theorem Untouched.path_eq {w₀ w : World} (h : Untouched w₀ w)
    (hcalm : ∀ turn∈w₀.turns, turn.change=none) : w.path=w₀.path := by
  obtain ⟨calls,hafter,_⟩ := h
  obtain ⟨turns,hturns,hpath⟩ := hafter.path
  rw [hpath]
  have hmem : ∀ turn∈turns, turn.change=none := fun turn hturn =>
    hcalm turn (hturns ▸ List.mem_append_left _ hturn)
  clear hturns hpath
  generalize w₀.path=path
  induction turns with
  | nil => rfl
  | cons turn turns ih =>
    unfold drift
    rw [List.foldl_cons,hmem turn List.mem_cons_self]
    exact ih (fun t ht => hmem t (List.mem_cons_of_mem _ ht))

/-- Nothing that was recorded on an untouched path is a replacement or a report of one. -/
theorem Untouched.calls_quiet {w₀ w : World} (h : Untouched w₀ w) :
    ∃ calls, w.calls=w₀.calls++calls ∧
      ∀ call∈calls, call≠.reportedConverted ∧ ∀ tmp, call≠.persisted tmp := by
  obtain ⟨calls,hafter,hquiet⟩ := h
  refine ⟨calls,hafter.calls,fun call hcall => ?_⟩
  have hone := List.all_eq_true.mp hquiet call hcall
  refine ⟨?_,fun tmp => ?_⟩
  · rintro rfl
    cases hone
  · rintro rfl
    cases hone

/-- The path of a file is only ever replaced by a complete, checked file: for
every flow, mode, delivery of blocks and environment, a run that returns has
either left the path to the environment, without a report, or converted it;
a run that stops has left it. -/
theorem run_untouched_or_converted :
    ∀ (job : Job) (delivery : Delivery) (flow : Flow) (w₀ : World),
      (∀ w u, flow.run job delivery w₀=.ok u w →
        Untouched w₀ w ∨ Converted w₀ job delivery flow w) ∧
      (∀ w e, flow.run job delivery w₀=.error e w → Untouched w₀ w) ∧
      ∀ w, Untouched w₀ w →
        ((∀ turn∈w₀.turns, turn.change=none) → w.path=w₀.path) ∧
        ∃ calls, w.calls=w₀.calls++calls ∧
          ∀ call∈calls, call≠.reportedConverted ∧ ∀ tmp, call≠.persisted tmp := by
  intro job delivery flow w₀
  refine ⟨?_,?_,fun w h => ⟨h.path_eq,h.calls_quiet⟩⟩
  · intro w u h
    cases flow with
    | direct original fresh =>
      exact (handleDirect_after w₀ job delivery original fresh).ok (After.refl w₀) h
    | scratch scratch file publisher =>
      exact (handleScratch_after w₀ job delivery scratch file publisher).ok (After.refl w₀) h
  · intro w e h
    cases flow with
    | direct original fresh =>
      exact (handleDirect_after w₀ job delivery original fresh).error (After.refl w₀) h
    | scratch scratch file publisher =>
      exact (handleScratch_after w₀ job delivery scratch file publisher).error (After.refl w₀) h

/-- The metadata of a regular file of two blocks. -/
def twoBlockMetadata : Metadata := ⟨true,1,2,65537,0,0,0,0,1,0⟩

/-- A verified compression of that file. -/
def twoBlockJob : Job :=
  ⟨.debug,.compress .lzvn,true,"file",twoBlockMetadata,62260,"95",fun _ => ""⟩

/-- Two small compressed blocks. -/
def twoBlockDelivery : Delivery := ⟨[[6,1],[6,2]],.ok ()⟩

/-- The file at its path, with nothing going wrong. -/
def calmWorld : World := ⟨.file ⟨twoBlockMetadata,[],none,none⟩,[],[]⟩

/-- A batched conversion with scratch files, an interrupted read and a small copy buffer. -/
def batchedFlow : Flow :=
  .scratch ⟨.directory none [],none,500000⟩ none
    ⟨⟨twoBlockMetadata,[],[]⟩,[.interrupted,.accept 1],5⟩

/-- A batched conversion of two blocks that is reported. -/
theorem run_converts_two_blocks :
    ∃ w, batchedFlow.run twoBlockJob twoBlockDelivery calmWorld=.ok () w ∧
      Call.reportedConverted∈w.calls ∧
      (Untouched calmWorld w ∨ Converted calmWorld twoBlockJob twoBlockDelivery batchedFlow w) :=
  ⟨_,rfl,by decide,
    (run_untouched_or_converted twoBlockJob twoBlockDelivery batchedFlow calmWorld).1 _ () rfl⟩

end Applesauce.SafeReplacement
