import Applesauce.PooledInvariant

/-!
# The course of the scanning thread

A file whose context is made and not sent is the one the scanning thread goes
on with. Once the walk is over there are no more entries, and when the batch
has been drained for the last time nothing is pending.
-/

namespace Applesauce.PooledScan

open FileThreads ScanRun WorkerPool Tally

section Definitions

/-- What a drain is followed by, other than the next entry. -/
def resumeGoal : Resume→Option Resume
  | .walk => none
  | resume => some resume

/-- What the scanning thread is about, other than the next entry. -/
def goal : Phase→Option Resume
  | .submitting i => some (.submit i)
  | .reserving i => some (.submit i)
  | .collecting _ _ resume => resumeGoal resume
  | .publishing _ _ _ resume => resumeGoal resume
  | .awaiting _ _ resume => resumeGoal resume
  | .flushing _ resume => resumeGoal resume
  | .dropping => some .finish
  | .waiting => some .finish
  | .finished _ => some .finish
  | _ => none

/-- The last drain is over. -/
def closing : Phase→Bool
  | .dropping => true
  | .waiting => true
  | .finished _ => true
  | _ => false

/-- The course of the scanning thread. -/
structure Course (config : Config) (s : State) : Prop where
  /-- A file with a context is the one to be sent. -/
  submitting : ∀ (i : ℕ) (f : File), s.scan.files[i]?=some f → f.reader.stage=.submitting →
    goal s.scan.phase=some (.submit i)
  /-- After the walk there are no entries left. -/
  finished : goal s.scan.phase=some .finish → s.entries=[] ∧ s.walks=0
  /-- Without batches nothing is pending. -/
  plain : config.staging.isBatched=false → s.scan.pending=0
  /-- After the last drain nothing is pending. -/
  drained : closing s.scan.phase=true → s.scan.pending=0

end Definitions

section Steps
variable {config : Config} {pools : Pools} {s t u : State} {scan : ScanRun.State} {i : ℕ}
  {f g : File}

/-- A drain is about what follows it. -/
theorem goal_drain (scan : ScanRun.State) (resume : Resume) :
    goal (scan.drain resume).phase=resumeGoal resume := by
  unfold ScanRun.State.drain
  split
  · cases resume <;> rfl
  · rfl

/-- What follows a drain is about the same. -/
theorem goal_resume (resume : Resume) : goal resume.phase=resumeGoal resume := by
  cases resume <;> rfl

/-- A drain that is over at once had nothing to drain. -/
theorem closing_drain {scan : ScanRun.State} {resume : Resume}
    (h : closing (scan.drain resume).phase=true) : (scan.drain resume).pending=0 := by
  unfold ScanRun.State.drain at h ⊢
  split at h
  · next hnone =>
    rw [if_pos hnone]
    exact hnone
  · cases h

/-- A step that changes no file. -/
theorem Course.keep (h : Course config s) (hfiles : t.scan.files=s.scan.files)
    (hgoal : ∀ i, goal s.scan.phase=some (.submit i) → goal t.scan.phase=some (.submit i))
    (hover : goal t.scan.phase=some .finish → t.entries=[] ∧ t.walks=0)
    (hplain : config.staging.isBatched=false → t.scan.pending=0)
    (hdrained : closing t.scan.phase=true → t.scan.pending=0) : Course config t where
  submitting i f hfile hstage := by
    rw [hfiles] at hfile
    exact hgoal i (h.submitting i f hfile hstage)
  finished := hover
  plain := hplain
  drained := hdrained

/-- A drain in a batch, of which only the last one follows the walk. -/
theorem Course.drain (h : Course config s) {resume : Resume} (hb : config.staging.isBatched=true)
    (hscan : t.scan=s.scan.drain resume)
    (hgoal : ∀ i, goal s.scan.phase=some (.submit i) → resumeGoal resume=some (.submit i))
    (hover : resumeGoal resume=some .finish → t.entries=[] ∧ t.walks=0) : Course config t := by
  have hnext : goal t.scan.phase=resumeGoal resume := by
    rw [hscan]
    exact goal_drain s.scan resume
  refine h.keep ?_ (fun i hi => hnext.trans (hgoal i hi)) (fun hbad => hover (hnext.symm.trans hbad))
    (fun hbad => Bool.noConfusion (hb.symm.trans hbad)) ?_
  · rw [hscan]
    exact drain_files s.scan resume
  · rw [hscan]
    exact closing_drain

/-- A step that replaces a file. -/
theorem Course.set (h : Course config s) (hfiles : t.scan.files=s.scan.files.set i g)
    (hnew : g.reader.stage=.submitting → goal t.scan.phase=some (.submit i))
    (hgoal : ∀ j, j≠i → goal s.scan.phase=some (.submit j) → goal t.scan.phase=some (.submit j))
    (hover : goal t.scan.phase=some .finish → t.entries=[] ∧ t.walks=0)
    (hplain : config.staging.isBatched=false → t.scan.pending=0)
    (hdrained : closing t.scan.phase=true → t.scan.pending=0) : Course config t where
  submitting j f hfile hstage := by
    rw [hfiles] at hfile
    rcases getElem?_set_cases hfile with ⟨rfl,rfl⟩|⟨hne,hold⟩
    · exact hnew hstage
    · exact hgoal j hne (h.submitting j f hold hstage)
  finished := hover
  plain := hplain
  drained := hdrained

/-- A new file is not submitted yet. -/
theorem Course.snoc (h : Course config s) (hidle : goal s.scan.phase=none)
    (hnext : goal t.scan.phase=none ∧ closing t.scan.phase=false) (found : Found)
    (hfiles : t.scan.files=s.scan.files++[File.new found]) (hpending : t.scan.pending=s.scan.pending) :
    Course config t where
  submitting j f hfile hstage := by
    rw [hfiles] at hfile
    rcases getElem?_snoc_cases hfile with hold|⟨_,rfl⟩
    · have hbad := h.submitting j f hold hstage
      rw [hidle] at hbad
      cases hbad
    · cases hstage
  finished hbad := by
    rw [hnext.1] at hbad
    cases hbad
  plain hplain := hpending.trans (h.plain hplain)
  drained hbad := by
    rw [hnext.2] at hbad
    cases hbad

/-- Every step of a thread on a file keeps the course. -/
theorem Course.move (h : Course config s) (haccounted : Accounted config s.scan) {move : Move}
    {shared : Shared} (hfile : s.scan.files[i]?=some f)
    (hstep : f.step config move s.scan.shared=some (g,shared)) (hentries : t.entries=s.entries)
    (hwalks : t.walks=s.walks) (hscan : t.scan=s.scan.update i g shared s.scan.phase) :
    Course config t := by
  have hkept := haccounted.kept hfile hstep
  have hphase : t.scan.phase=s.scan.phase := by rw [hscan]; rfl
  have hpending : t.scan.pending=s.scan.pending := by rw [hscan]; rfl
  refine @Course.set config s t i g h (by rw [hscan]; rfl) (fun hstage => ?_) (fun j _ hj => ?_)
    (fun hover => ?_) (fun hplain => ?_) fun hdrained => ?_
  · rw [hphase]
    refine h.submitting i f hfile ?_
    rcases hkept.reader with hsame|⟨_,hfalse⟩
    · rw [←hsame]
      exact hstage
    · rw [hstage] at hfalse
      cases hfalse
  · rw [hphase]
    exact hj
  · rw [hphase] at hover
    rw [hentries,hwalks]
    exact h.finished hover
  · rw [hpending]
    exact h.plain hplain
  · rw [hphase] at hdrained
    rw [hpending]
    exact h.drained hdrained

/-- No step on a file hands over an entry. -/
theorem allowsMove_entries {d : Feed} {move : Move} (h : allowsMove config pools s i f d move=some t) :
    t.entries=s.entries ∧ t.walks=s.walks := by
  cases move with
  | takeRead | hand | takeWrite | sendStaged | takePublish =>
    obtain ⟨q,_,rfl⟩ := Option.map_eq_some_iff.mp h
    exact ⟨rfl,rfl⟩
  | spawn =>
    obtain ⟨_,h⟩ := Option.ite_none_right_eq_some.mp h
    obtain ⟨q,_,rfl⟩ := Option.map_eq_some_iff.mp h
    exact ⟨rfl,rfl⟩
  | finishJob => cases h
  | finishReading | write _ | stage _ =>
    obtain ⟨_,h⟩ := Option.ite_none_right_eq_some.mp h
    obtain rfl := Option.some.inj h
    exact ⟨rfl,rfl⟩
  | drop role =>
    obtain rfl := Option.some.inj h
    split
    · cases role <;> exact ⟨rfl,rfl⟩
    · exact ⟨rfl,rfl⟩
  | _ =>
    obtain rfl := Option.some.inj h
    exact ⟨rfl,rfl⟩

/-- No step of the batch hands over an entry. -/
theorem allows_batch_entries {e : BatchEvent} (h : allows config pools s (.batch e)=some t) :
    t.entries=s.entries ∧ t.walks=s.walks := by
  cases e with
  | publish =>
    simp only [allows] at h
    split at h
    · obtain ⟨q,_,rfl⟩ := Option.map_eq_some_iff.mp h
      exact ⟨rfl,rfl⟩
    · cases h
  | _ =>
    obtain rfl := Option.some.inj h
    exact ⟨rfl,rfl⟩

/-- A step of the batch keeps the course. -/
theorem Course.batchStep (h : Course config s) {limits : BatchLimits} {e : BatchEvent}
    (hstaging : config.staging=.batched limits)
    (hbatch : BatchMoves config limits s.scan e scan) (hentries : t.entries=s.entries)
    (hwalks : t.walks=s.walks) : Course config {t with scan := scan} := by
  have hplain : ∀ n : ℕ, config.staging.isBatched=false → n=0 := by
    intro n hbad
    rw [hstaging] at hbad
    cases hbad
  have hover : goal s.scan.phase=some .finish → t.entries=[] ∧ t.walks=0 := by
    rw [hentries,hwalks]
    exact h.finished
  cases hbatch with
  | @granted i f shared hphase hfile hreserve =>
    refine @Course.set config s _ i _ h rfl (fun hbad => by cases hbad) (fun j hji hj => ?_)
      (fun hbad => by cases hbad) (hplain _) fun hbad => by cases hbad
    rw [hphase] at hj
    exact absurd (Resume.submit.inj (Option.some.inj hj)).symm hji
  | @refused i f shared hphase hfile hreserve =>
    refine @Course.set config s _ i _ h rfl (fun hbad => by cases hbad) (fun j hji hj => ?_)
      (fun hbad => by cases hbad) (hplain _) fun hbad => by cases hbad
    rw [hphase] at hj
    exact absurd (Resume.submit.inj (Option.some.inj hj)).symm hji
  | @receive i left staged resume f hphase hfile hmessage =>
    rw [hphase] at hover
    refine @Course.set config s _ i _ h rfl (fun hstage => ?_) (fun j _ hj => ?_) hover (hplain _)
      fun hbad => by cases hbad
    · have hsubmitting := h.submitting i f hfile hstage
      rw [hphase] at hsubmitting
      exact hsubmitting
    · rw [hphase] at hj
      exact hj
  | @publish i count rest volumes resume f hphase hfile =>
    rw [hphase] at hover
    refine @Course.set config s _ i _ h rfl (fun hstage => ?_) (fun j _ hj => ?_) hover (hplain _)
      fun hbad => by cases hbad
    · have hsubmitting := h.submitting i f hfile hstage
      rw [hphase] at hsubmitting
      exact hsubmitting
    · rw [hphase] at hj
      exact hj
  | @drained resume hphase =>
    rw [hphase] at hover
    refine h.keep rfl (fun j hj => ?_) (fun hbad => hover ?_) (hplain _) fun _ => rfl
    · rw [hphase] at hj
      exact (goal_resume resume).trans hj
    · exact (goal_resume resume).symm.trans hbad
  | collected hphase | published hphase | acknowledge hphase hsome | acknowledged hphase
  | flush ok hphase hvolume =>
    rw [hphase] at hover
    refine h.keep rfl (fun j hj => ?_) hover (hplain _) fun hbad => by cases hbad
    rw [hphase] at hj
    exact hj

/-- A step of the scan keeps the course. -/
theorem Course.scanStep (h : Course config s) (haccounted : Accounted config s.scan)
    {e : ScanRun.Event} (hmoves : ScanRun.Moves config s.scan e scan)
    (hallows : allows config pools s e=some t) : Course config {t with scan := scan} := by
  cases hmoves with
  | startWalk hphase =>
    obtain ⟨_,hallows⟩ := Option.ite_none_right_eq_some.mp hallows
    obtain rfl := Option.some.inj hallows
    refine h.keep rfl (fun _ hj => hj) (fun hbad => ?_) h.plain h.drained
    dsimp only at hbad
    rw [hphase] at hbad
    cases hbad
  | endWalk hwalkers =>
    obtain rfl := Option.some.inj hallows
    exact h.keep rfl (fun _ hj => hj) h.finished h.plain h.drained
  | skip blocks hphase hscan =>
    obtain ⟨rest,_,rfl⟩ := allows_consider hallows
    refine h.keep rfl (fun _ hj => hj) (fun hbad => ?_) h.plain h.drained
    dsimp only at hbad
    rw [hphase] at hbad
    cases hbad
  | countSkipped blocks hphase hscan =>
    obtain ⟨rest,_,rfl⟩ := allows_consider hallows
    exact h.snoc (by rw [hphase]; rfl) ⟨rfl,rfl⟩ _ rfl rfl
  | countSent blocks hphase hscan =>
    obtain ⟨rest,_,rfl⟩ := allows_consider hallows
    exact h.snoc (by rw [hphase]; rfl) ⟨rfl,rfl⟩ _ rfl rfl
  | @countEnd i last f hphase hfile =>
    obtain rfl := Option.some.inj hallows
    refine @Course.set config s _ i _ h rfl (fun hbad => by cases hbad) (fun j _ hj => ?_)
      (fun hbad => by cases hbad) h.plain fun hbad => by cases hbad
    rw [hphase] at hj
    cases hj
  | @makeContext i f hphase hfile =>
    obtain rfl := Option.some.inj hallows
    refine @Course.set config s _ i _ h rfl (fun _ => rfl) (fun j _ hj => ?_)
      (fun hbad => by cases hbad) h.plain fun hbad => by cases hbad
    rw [hphase] at hj
    cases hj
  | @submitBatched i f limits hphase hfile hstaging =>
    obtain rfl := Option.some.inj hallows
    have hb : config.staging.isBatched=true := by rw [hstaging]; rfl
    split
    · exact h.drain hb rfl (by rw [hphase]; exact fun _ => id) (fun hbad => by cases hbad)
    · refine h.keep rfl (by rw [hphase]; exact fun _ => id) (fun hbad => by cases hbad)
        (fun hbad => Bool.noConfusion (hb.symm.trans hbad)) fun hbad => by cases hbad
  | @submit i f hphase hfile hplain =>
    obtain rfl := Option.some.inj hallows
    refine @Course.set config s _ i _ h rfl (fun hbad => by cases hbad) (fun j hji hj => ?_)
      (fun hbad => by cases hbad) h.plain fun hbad => by cases hbad
    rw [hphase] at hj
    exact absurd (Resume.submit.inj (Option.some.inj hj)).symm hji
  | @sendBatched i f limits hphase hfile hstaging =>
    simp only [allows,hphase] at hallows
    obtain ⟨q,_,rfl⟩ := Option.map_eq_some_iff.mp hallows
    have hb : config.staging.isBatched=true := by rw [hstaging]; rfl
    have hnone : ∀ j, goal s.scan.phase≠some (.submit j) := by
      intro j hbad
      rw [hphase] at hbad
      cases hbad
    split
    · exact h.drain hb rfl (fun j hj => absurd hj (hnone j)) fun hbad => by cases hbad
    · exact h.keep rfl (fun j hj => absurd hj (hnone j)) (fun hbad => by cases hbad)
        (fun hbad => Bool.noConfusion (hb.symm.trans hbad)) fun hbad => by cases hbad
  | @send i hphase hplain =>
    simp only [allows,hphase] at hallows
    obtain ⟨q,_,rfl⟩ := Option.map_eq_some_iff.mp hallows
    refine h.keep rfl (fun j hj => ?_) (fun hbad => by cases hbad) h.plain fun hbad => by cases hbad
    rw [hphase] at hj
    cases hj
  | finishWalk hphase =>
    obtain ⟨hover,hallows⟩ := Option.ite_none_right_eq_some.mp hallows
    obtain rfl := Option.some.inj hallows
    have hnone : ∀ j, goal s.scan.phase≠some (.submit j) := by
      intro j hbad
      rw [hphase] at hbad
      cases hbad
    split
    · next hb => exact h.drain hb rfl (fun j hj => absurd hj (hnone j)) fun _ => hover
    · next hb =>
      have hzero := h.plain (Bool.eq_false_iff.mpr hb)
      exact h.keep rfl (fun j hj => absurd hj (hnone j)) (fun _ => hover) (fun _ => hzero) fun _ => hzero
  | dropOperation hphase =>
    obtain rfl := Option.some.inj hallows
    have hover := h.finished
    have hdrained := h.drained
    rw [hphase] at hover hdrained
    refine h.keep rfl (fun j hj => ?_) hover h.plain hdrained
    rw [hphase] at hj
    cases hj
  | receiveStats hphase hsent =>
    obtain rfl := Option.some.inj hallows
    have hover := h.finished
    have hdrained := h.drained
    rw [hphase] at hover hdrained
    refine h.keep rfl (fun j hj => ?_) hover h.plain hdrained
    rw [hphase] at hj
    cases hj
  | batch hstaging hbatch =>
    obtain ⟨hentries,hwalks⟩ := allows_batch_entries hallows
    exact h.batchStep hstaging hbatch hentries hwalks
  | @file i move f g shared hguard hfile hstep =>
    simp only [allows,hfile] at hallows
    split at hallows
    · next x d hget hfeed =>
      obtain rfl := Option.some.inj hget
      obtain ⟨hentries,hwalks⟩ := allowsMove_entries hallows
      exact h.move haccounted hfile hstep hentries hwalks rfl
    · cases hallows

/-- Every step keeps the course. -/
theorem Course.step {e : Event} (h : Course config s) (haccounted : Accounted config s.scan)
    (hstep : step config pools s e=some t) : Course config t := by
  cases e with
  | scan e =>
    obtain ⟨scan,u,hscan,hallows,rfl⟩ := step_scan hstep
    exact h.scanStep haccounted (moves_of_step hscan) hallows
  | takeJob i =>
    obtain ⟨q,_,rfl⟩ := Option.map_eq_some_iff.mp hstep
    exact ⟨h.submitting,h.finished,h.plain,h.drained⟩
  | finishJob i position ok =>
    obtain ⟨scan,d,hscan,_,_,_,rfl⟩ := step_finishJob hstep
    cases moves_of_step hscan with
    | file hguard hfile hmove => exact h.move haccounted hfile hmove rfl rfl rfl
  | feed i e =>
    obtain ⟨f,d,after,_,_,_,rfl⟩ := step_feed hstep
    exact ⟨h.submitting,h.finished,h.plain,h.drained⟩

/-- Before the scan. -/
theorem course_initial (config : Config) (stopped : Bool)
    (entries : List (ScanAdmission.DirEntry×ℕ)) (walks : ℕ) :
    Course config (.initial stopped entries walks) where
  submitting i f hfile := by simp [State.initial,ScanRun.State.initial] at hfile
  finished := fun hbad => by cases hbad
  plain := fun _ => rfl
  drained := fun hbad => by cases hbad

/-- The course of every run. -/
theorem course_of_run {stopped : Bool} {entries : List (ScanAdmission.DirEntry×ℕ)} {walks : ℕ}
    {trace : List (State×Event)}
    (h : TransitionSystem.Run (PooledScan.step config pools) (.initial stopped entries walks) trace s) :
    Course config s := by
  have hinitial : Pooled config (.initial stopped entries walks) ∧
      Course config (.initial stopped entries walks) :=
    ⟨pooled_initial config stopped entries walks,course_initial config stopped entries walks⟩
  have hboth := @TransitionSystem.Run.invariant _ _ _ (fun s => Pooled config s ∧ Course config s) _ _ _
    h hinitial fun hold hstep => ⟨hold.1.step hstep,hold.2.step hold.1.conserved.accounted hstep⟩
  exact hboth.2

end Steps

end Applesauce.PooledScan
