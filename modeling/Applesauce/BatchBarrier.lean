import Applesauce.BatchAdmission

/-!
# The barrier between reading and publishing

Each file of a batch sends one message, when the reader and the writer have
dropped their completion guards. The scanning thread sends staged files to
the publishers only after it has received the message of every file of the
batch, and it sends no file to the readers until the volumes are flushed. A
staged file is published once, and a file that was not staged never.
-/

namespace Applesauce.BatchBarrier

open SharedHandles FileThreads ScanAdmission ScanRun BatchInvariant Tally
open TransitionSystem

variable {config : Config} {limits : BatchLimits} {s t : State}

section Definitions

/-- The message of a file is sent. -/
def isMessage (i : ℕ) : Event→Bool
  | .file j .sendMessage => j==i
  | _ => false

/-- A file is staged. -/
def isStaging (i : ℕ) : Event→Bool
  | .file j (.stage (some _)) => j==i
  | _ => false

/-- A file is sent to the publishers. -/
def isPublication (i : ℕ) (p : State×Event) : Bool :=
  match p.2,p.1.phase with
  | .batch .publish,.publishing (j::_) _ _ _ => j==i
  | _,_ => false

/-- How often the message of a file was sent. -/
def messages (trace : List (State×Event)) (i : ℕ) : ℕ := trace.countP fun p => isMessage i p.2

/-- How often a file was staged. -/
def stagings (trace : List (State×Event)) (i : ℕ) : ℕ := trace.countP fun p => isStaging i p.2

/-- How often a file was sent to the publishers. -/
def publications (trace : List (State×Event)) (i : ℕ) : ℕ := trace.countP (isPublication i)

/-- The message of a file was sent. -/
def sent (f : File) : Bool := decide (f.completion=.dropped)

/-- The file was staged. -/
def wasStaged (f : File) : Bool := decide (f.payload≠.absent)

/-- The file was sent to the publishers. -/
def published (f : File) : Bool := decide (f.publisher.stage≠.absent)

/-- One for a file with a property, and zero for one without it or no file. -/
def mark (p : File→Bool) (files : List File) (i : ℕ) : ℕ := (files[i]?.any p).toNat

/-- What a step adds to the marks of a file. -/
structure Marks (s : State) (e : Event) (t : State) (i : ℕ) : Prop where
  message : mark sent t.files i=mark sent s.files i+(isMessage i e).toNat
  staging : mark wasStaged t.files i=mark wasStaged s.files i+(isStaging i e).toNat
  publication : mark published t.files i=mark published s.files i+(isPublication i (s,e)).toNat

/-- A step that neither sends a message nor stages a file nor sends it to the publishers. -/
structure Plain (s : State) (e : Event) (i : ℕ) : Prop where
  message : isMessage i e=false
  staging : isStaging i e=false
  publication : isPublication i (s,e)=false

/-- Whether staged files are with the publishers or the volumes not flushed yet. -/
def busy : Phase→Bool
  | .publishing _ _ _ _ => true
  | .awaiting _ _ _ => true
  | .flushing _ _ => true
  | _ => false

/-- The volumes that a drain still has to flush. -/
def toFlush : Phase→List ℕ
  | .publishing _ _ volumes _ => volumes
  | .awaiting _ volumes _ => volumes
  | .flushing volumes _ => volumes
  | _ => []

end Definitions

section Marks

variable {files : List File} {i j : ℕ} {f g : File}

/-- The mark of a file that is there. -/
theorem mark_of (p : File→Bool) (hfile : files[i]?=some f) : mark p files i=(p f).toNat := by
  unfold mark
  rw [hfile]
  rfl

/-- A mark changes with its file only. -/
theorem mark_set (p : File→Bool) (hfile : files[j]?=some f) {n : ℕ}
    (hother : j≠i → n=0) (hsame : j=i → (p g).toNat=(p f).toNat+n) :
    mark p (files.set j g) i=mark p files i+n := by
  by_cases hij : j=i
  · subst hij
    have hlt := (List.getElem?_eq_some_iff.mp hfile).1
    rw [mark_of p hfile,mark_of p (List.getElem?_set_self hlt)]
    exact hsame rfl
  · unfold mark
    rw [List.getElem?_set_ne hij,hother hij]
    rfl

/-- A new file has no mark. -/
theorem mark_snoc (p : File→Bool) {new : File} (hnew : p new=false) :
    mark p (files++[new]) i=mark p files i := by
  unfold mark
  by_cases hlt : i<files.length
  · rw [List.getElem?_append_left hlt]
  · rw [List.getElem?_append_right (Nat.le_of_not_lt hlt),List.getElem?_eq_none (Nat.le_of_not_lt hlt)]
    cases hk : i-files.length with
    | zero =>
      simp [hnew]
    | succ k => simp

/-- The files do not change. -/
theorem Marks.same {e : Event} (hfiles : t.files=s.files) (hplain : Plain s e i) :
    Marks s e t i := by
  constructor
  · rw [hfiles,hplain.message]
    rfl
  · rw [hfiles,hplain.staging]
    rfl
  · rw [hfiles,hplain.publication]
    rfl

/-- A file is replaced by one with the same marks. -/
theorem Marks.set {e : Event} (hfile : s.files[j]?=some f) (hfiles : t.files=s.files.set j g)
    (hsent : sent g=sent f) (hstaged : wasStaged g=wasStaged f) (hpublished : published g=published f)
    (hplain : Plain s e i) : Marks s e t i := by
  constructor
  · rw [hfiles,hplain.message]
    exact mark_set sent hfile (fun _ => rfl) fun _ => by rw [hsent]; rfl
  · rw [hfiles,hplain.staging]
    exact mark_set wasStaged hfile (fun _ => rfl) fun _ => by rw [hstaged]; rfl
  · rw [hfiles,hplain.publication]
    exact mark_set published hfile (fun _ => rfl) fun _ => by rw [hpublished]; rfl

end Marks

section FileSteps

variable {f g : File} {shared after : Shared} {move : Move}

/-- A destructor that is due does not become one that has run by dropping a handle. -/
theorem release_eq_dropped {a : Arc} : a.release=.dropped ↔ a=.dropped := by
  cases a with
  | live handles =>
    refine iff_of_false ?_ nofun
    unfold Arc.release
    split <;> simp_all
  | _ => exact Iff.rfl

/-- What a step does with the completion guard. -/
inductive Guard (config : Config) (f : File) (move : Move) (g : File) : Prop
  | same (hmove : move≠.sendMessage) (h : g.completion=f.completion)
  | clone (hmove : move≠.sendMessage) (h : g.completion=config.staging.cloneCompletion f.completion)
  | release (hmove : move≠.sendMessage) (h : g.completion=f.completion.release)
  | send (hmove : move=.sendMessage) (hbefore : f.completion=.dropping) (h : g.completion=.dropped)

/-- A writer stages a file. -/
def stages : Move→Bool
  | .stage (some _) => true
  | _ => false

/-- What a step does with the payload. -/
inductive Contents (f : File) (move : Move) (g : File) : Prop
  | same (hmove : stages move=false) (h : g.payload=f.payload)
  | stage (hmove : stages move=true) (hbefore : f.writer.stage=.working) (h : g.payload=.staged)
  | close (hmove : stages move=false) (hbefore : f.publisher.stage=.closing) (h : g.payload≠.absent)

/-- Every step does one of these with the guard and one with the payload. -/
theorem effect_of_step (h : f.step config move shared=some (g,after)) :
    Guard config f move g ∧ Contents f move g := by
  cases move with
  | takeRead | openFile _ | spawn | finishJob | finishReading | takeWrite | write _ | sendStaged
  | takePublish | publish _ | dropOperation =>
    simp only [File.step] at h
    obtain ⟨_,h⟩ := Option.ite_none_right_eq_some.mp h
    obtain ⟨rfl,_⟩ := Prod.mk.inj (Option.some.inj h)
    exact ⟨.same (by simp) rfl,.same rfl rfl⟩
  | close ok =>
    simp only [File.step] at h
    obtain ⟨hbefore,h⟩ := Option.ite_none_right_eq_some.mp h
    obtain ⟨rfl,_⟩ := Prod.mk.inj (Option.some.inj h)
    exact ⟨.same (by simp) rfl,.close rfl hbefore (by cases ok <;> simp)⟩
  | count role info =>
    simp only [File.step] at h
    obtain ⟨_,h⟩ := Option.ite_none_right_eq_some.mp h
    obtain ⟨rfl,_⟩ := Prod.mk.inj (Option.some.inj h)
    exact ⟨.same (by simp) (f.setThread_completion _ role),.same rfl (f.setThread_payload _ role)⟩
  | reserve =>
    simp only [File.step] at h
    split at h
    · split at h
      · obtain ⟨rfl,_⟩ := Prod.mk.inj (Option.some.inj h)
        exact ⟨.same (by simp) rfl,.same rfl rfl⟩
      · obtain ⟨rfl,_⟩ := Prod.mk.inj (Option.some.inj h)
        exact ⟨.same (by simp) rfl,.same rfl rfl⟩
      · cases h
    · cases h
  | hand =>
    simp only [File.step] at h
    obtain ⟨_,h⟩ := Option.ite_none_right_eq_some.mp h
    obtain ⟨rfl,_⟩ := Prod.mk.inj (Option.some.inj h)
    exact ⟨.clone (by simp) rfl,.same rfl rfl⟩
  | stage outcome =>
    simp only [File.step] at h
    obtain ⟨hbefore,h⟩ := Option.ite_none_right_eq_some.mp h
    cases outcome with
    | none =>
      obtain ⟨rfl,_⟩ := Prod.mk.inj (Option.some.inj h)
      exact ⟨.same (by simp) rfl,.same rfl rfl⟩
    | some kept =>
      obtain ⟨rfl,_⟩ := Prod.mk.inj (Option.some.inj h)
      exact ⟨.same (by simp) rfl,.stage rfl hbefore.1 rfl⟩
  | report role metadata =>
    simp only [File.step] at h
    obtain ⟨_,h⟩ := Option.ite_none_right_eq_some.mp h
    unfold reportNewStats at h
    dsimp only at h
    split_ifs at h
    · obtain ⟨rfl,_⟩ := Prod.mk.inj (Option.some.inj h)
      exact ⟨.same (by simp) rfl,.same rfl rfl⟩
    · obtain ⟨rfl,_⟩ := Prod.mk.inj (Option.some.inj h)
      exact ⟨.same (by simp) (File.setThread_completion _ _ role),
        .same rfl (File.setThread_payload _ _ role)⟩
    · obtain ⟨rfl,_⟩ := Prod.mk.inj (Option.some.inj h)
      exact ⟨.same (by simp) (f.setThread_completion _ role),.same rfl (f.setThread_payload _ role)⟩
  | drop role =>
    simp only [File.step] at h
    split at h
    · next o owned _ =>
      obtain rfl := congrArg Prod.fst (Option.some.inj h)
      cases o with
      | completion =>
        exact ⟨.release (by simp) (congrArg Arc.release (f.setThread_completion _ role)),
          .same rfl (f.setThread_payload _ role)⟩
      | _ =>
        exact ⟨.same (by simp) (f.setThread_completion _ role),.same rfl (f.setThread_payload _ role)⟩
    · cases h
  | sendMessage =>
    simp only [File.step] at h
    obtain ⟨hbefore,h⟩ := Option.ite_none_right_eq_some.mp h
    obtain ⟨rfl,_⟩ := Prod.mk.inj (Option.some.inj h)
    exact ⟨.send rfl hbefore rfl,.same rfl rfl⟩
  | dropContext =>
    simp only [File.step] at h
    obtain ⟨_,h⟩ := Option.ite_none_right_eq_some.mp h
    split_ifs at h
    · obtain ⟨rfl,_⟩ := Prod.mk.inj (Option.some.inj h)
      exact ⟨.same (by simp) rfl,.same rfl rfl⟩
    · obtain ⟨rfl,_⟩ := Prod.mk.inj (Option.some.inj h)
      exact ⟨.same (by simp) rfl,.same rfl rfl⟩

/-- Only one step sends the message of a file, and only when it was not sent. -/
theorem sent_of_step (h : f.step config move shared=some (g,after)) :
    (sent g).toNat=(sent f).toNat+(decide (move=.sendMessage)).toNat := by
  cases (effect_of_step h).1 with
  | same hmove hsame =>
    unfold sent
    rw [hsame,decide_eq_false hmove]
    rfl
  | clone hmove hclone =>
    have hiff := @Staging.cloneCompletion_eq_iff config.staging f.completion .dropped fun _ => nofun
    unfold sent
    rw [hclone,decide_eq_false hmove]
    simp only [hiff]
    rfl
  | release hmove hrelease =>
    unfold sent
    rw [hrelease,decide_eq_false hmove]
    simp only [release_eq_dropped]
    rfl
  | send hmove hbefore hafter =>
    unfold sent
    rw [hafter,hbefore,decide_eq_true hmove]
    rfl

/-- Only one step stages a file, and only when it was not staged. -/
theorem staged_of_step (hsound : Sound config.staging f) (hp : PayloadFollows f)
    (h : f.step config move shared=some (g,after)) :
    (wasStaged g).toNat=(wasStaged f).toNat+(stages move).toNat := by
  unfold wasStaged
  cases (effect_of_step h).2 with
  | same hmove hsame =>
    rw [hsame,hmove]
    rfl
  | stage hmove hbefore hafter =>
    have hnone := hsound.inOrder.unstaged (by rw [hbefore]; nofun) (by rw [hbefore]; nofun)
    have habsent : f.payload=.absent := hp.mpr ⟨hnone.1,by rw [hnone.2]⟩
    rw [hafter,habsent,hmove]
    rfl
  | close hmove hbefore hafter =>
    have hpresent : f.payload≠.absent := fun hbad => by
      have habsent := (hp.mp hbad).2
      rw [hbefore] at habsent
      cases habsent
    rw [decide_eq_true hafter,decide_eq_true hpresent,hmove]
    rfl

end FileSteps

section Counts

variable {i : ℕ}

/-- The message of a file is sent by a step on it. -/
theorem isMessage_file (j : ℕ) (move : Move) :
    isMessage i (.file j move)=((j==i) && decide (move=.sendMessage)) := by
  cases move <;> simp [isMessage]

/-- A file is staged by a step on it. -/
theorem isStaging_file (j : ℕ) (move : Move) :
    isStaging i (.file j move)=((j==i) && stages move) := by
  cases move with
  | stage outcome => cases outcome <;> simp [isStaging,stages]
  | _ => simp [isStaging,stages]

/-- A new file has no marks. -/
theorem Marks.counted {e : Event} {entry : DirEntry} {blocks : ℕ} {inode : SourceGuard.Inode}
    {info : Statistics.FileInfo} {phase : Phase} (hplain : Plain s e i) :
    Marks s e (s.counted entry blocks inode info phase) i := by
  constructor
  · rw [hplain.message]
    exact mark_snoc sent rfl
  · rw [hplain.staging]
    exact mark_snoc wasStaged rfl
  · rw [hplain.publication]
    exact mark_snoc published rfl

/-- A step of another thread on a file. -/
theorem Marks.file (h : Batched config s) (hstaging : config.staging=.batched limits) {j : ℕ}
    {move : Move} {f g : File} {shared : Shared} (hfile : s.files[j]?=some f)
    (hstep : f.step config move s.shared=some (g,shared)) :
    Marks s (.file j move) (s.update j g shared s.phase) i := by
  have hkept := h.accounted.kept hfile hstep
  obtain ⟨hsound,hpayload⟩ := h.accounted.solvent.file hfile
  constructor
  · rw [isMessage_file]
    refine mark_set sent hfile (fun hne => ?_) fun heq => ?_
    · rw [beq_false_of_ne hne]
      rfl
    · rw [heq,beq_self_eq_true,Bool.true_and]
      exact sent_of_step hstep
  · rw [isStaging_file]
    refine mark_set wasStaged hfile (fun hne => ?_) fun heq => ?_
    · rw [beq_false_of_ne hne]
      rfl
    · rw [heq,beq_self_eq_true,Bool.true_and]
      exact staged_of_step hsound hpayload hstep
  · refine mark_set published hfile (fun _ => rfl) fun _ => ?_
    have hiff := hkept.unpublished (by rw [hstaging]; rfl)
    unfold published
    simp only [ne_eq,hiff]
    rfl

/-- A step of the batch. -/
theorem marks_of_batch {e : BatchEvent} (h : Batched config s)
    (hstaging : config.staging=.batched limits) (hmoves : BatchMoves config limits s e t) :
    Marks s (.batch e) t i := by
  have hplaced := h.accounted.placed
  have hroom := h.accounted.solvent.room
  rw [hstaging] at hroom
  cases hmoves with
  | @granted j f shared hphase hfile hreserve =>
    rw [hphase] at hplaced
    obtain ⟨_,hnone⟩ := Submitting.of_get hplaced hfile
    have hsound := (h.accounted.solvent.file hfile).1
    rw [hstaging] at hsound
    have hsent : sent (admitFile config limits s.number f)=sent f := by
      unfold sent
      rw [(hsound.unadmitted hnone).1]
      rfl
    exact .set hfile rfl hsent rfl rfl ⟨rfl,rfl,rfl⟩
  | refused hphase hfile hreserve => exact .set hfile rfl rfl rfl rfl ⟨rfl,rfl,rfl⟩
  | receive hphase hfile hmessage => exact .set hfile rfl rfl rfl rfl ⟨rfl,rfl,rfl⟩
  | @publish j count rest volumes resume f hphase hfile =>
    have hpublication : isPublication i (s,.batch .publish)=(j==i) := by
      simp only [isPublication,hphase]
    rw [hphase] at hplaced
    obtain ⟨hnonempty,_⟩ := Staged.of_get hplaced.1 List.mem_cons_self hfile
    have hsound := (h.accounted.solvent.file hfile).1
    obtain ⟨_,_,hpublisher⟩ := hsound.inOrder.staged.resolve_left hnonempty
    constructor
    · exact mark_set sent hfile (fun _ => rfl) fun _ => rfl
    · exact mark_set wasStaged hfile (fun _ => rfl) fun _ => rfl
    · rw [hpublication]
      refine mark_set published hfile (fun hne => ?_) fun heq => ?_
      · rw [beq_false_of_ne hne]
        rfl
      · unfold published
        rw [hpublisher,heq,beq_self_eq_true]
        rfl
  | collected hphase => exact .same rfl ⟨rfl,rfl,rfl⟩
  | published hphase => exact .same rfl ⟨rfl,rfl,rfl⟩
  | acknowledge hphase hsome => exact .same rfl ⟨rfl,rfl,rfl⟩
  | acknowledged hphase => exact .same rfl ⟨rfl,rfl,rfl⟩
  | flush ok hphase hvolume => exact .same rfl ⟨rfl,rfl,rfl⟩
  | drained hphase => exact .same rfl ⟨rfl,rfl,rfl⟩

/-- Every step marks the file it is about. -/
theorem marks_of_moves {e : Event} (h : Batched config s) (hstaging : config.staging=.batched limits)
    (hmoves : Moves config s e t) : Marks s e t i := by
  cases hmoves with
  | startWalk hphase => exact .same rfl ⟨rfl,rfl,rfl⟩
  | endWalk hwalkers => exact .same rfl ⟨rfl,rfl,rfl⟩
  | skip blocks hphase hscan => exact .same rfl ⟨rfl,rfl,rfl⟩
  | countSkipped blocks hphase hscan => exact .counted ⟨rfl,rfl,rfl⟩
  | countSent blocks hphase hscan => exact .counted ⟨rfl,rfl,rfl⟩
  | countEnd hphase hfile => exact .set hfile rfl rfl rfl rfl ⟨rfl,rfl,rfl⟩
  | makeContext hphase hfile => exact .set hfile rfl rfl rfl rfl ⟨rfl,rfl,rfl⟩
  | submitBatched hphase hfile hother =>
    refine .same ?_ ⟨rfl,rfl,rfl⟩
    split
    · exact drain_files _ _
    · rfl
  | submit hphase hfile hplain =>
    rw [hstaging] at hplain
    cases hplain
  | sendBatched hphase hfile hother =>
    refine .same ?_ ⟨rfl,rfl,rfl⟩
    split
    · exact drain_files _ _
    · rfl
  | send hphase hplain => exact .same rfl ⟨rfl,rfl,rfl⟩
  | finishWalk hphase =>
    refine .same ?_ ⟨rfl,rfl,rfl⟩
    split
    · exact drain_files _ _
    · rfl
  | dropOperation hphase => exact .same rfl ⟨rfl,rfl,rfl⟩
  | receiveStats hphase hsent => exact .same rfl ⟨rfl,rfl,rfl⟩
  | batch hother hbatch =>
    obtain rfl := Staging.batched.inj (hother.symm.trans hstaging)
    exact marks_of_batch h hstaging hbatch
  | file hguard hfile hstep => exact .file h hstaging hfile hstep

/-- The marks of the files are what a run has counted. -/
structure Recorded (trace : List (State×Event)) (files : List File) : Prop where
  messages : ∀ i, messages trace i=mark sent files i
  stagings : ∀ i, stagings trace i=mark wasStaged files i
  publications : ∀ i, publications trace i=mark published files i

/-- One more step is counted when it has the property. -/
theorem countP_snoc {α : Type*} (p : α→Bool) (xs : List α) (x : α) :
    (xs++[x]).countP p=xs.countP p+(p x).toNat := by
  rw [List.countP_append,List.countP_singleton]
  cases p x <;> rfl

/-- Every run counts the marks. -/
theorem recorded_of_run {stopped : Bool} {trace : List (State×Event)}
    (hstaging : config.staging=.batched limits)
    (h : Run (step config) (.initial stopped) trace s) : Recorded trace s.files := by
  induction h with
  | nil => exact ⟨fun _ => rfl,fun _ => rfl,fun _ => rfl⟩
  | @snoc a b trace e run last ih =>
    have hmarks := fun i =>
      @marks_of_moves _ _ _ _ i _ (batched_of_run hstaging run) hstaging (moves_of_step last)
    constructor
    · intro i
      unfold messages
      rw [countP_snoc,(hmarks i).message,←ih.messages i]
      rfl
    · intro i
      unfold stagings
      rw [countP_snoc,(hmarks i).staging,←ih.stagings i]
      rfl
    · intro i
      unfold publications
      rw [countP_snoc,(hmarks i).publication,←ih.publications i]
      rfl

end Counts

section Results

/-- What the barrier of the batches guarantees in a run. -/
structure Barrier (trace : List (State×Event)) (s : State) : Prop where
  /-- A file sends at most one message, none if it was not admitted, and one by the time the drain
  of its batch has returned. -/
  once : ∀ (i : ℕ) (f : File), s.files[i]?=some f → messages trace i≤1 ∧ (f.batch=none → messages trace i=0) ∧
    ∀ k, f.batch=some k → k< s.number → messages trace i=1
  /-- The message is sent when neither reader nor writer has a completion guard. -/
  guards : ∀ p∈trace, ∀ (i : ℕ) (f : File), isMessage i p.2=true → p.1.files[i]?=some f →
    .completion∉f.reader.owned ∧ .completion∉f.writer.owned
  /-- Only the scanning thread sends files to the publishers. -/
  scanning : ∀ p∈trace, ∀ i, p.2≠.file i .sendStaged
  /-- What it sends is a staged file of the current batch. -/
  handed : ∀ p∈trace, ∀ i, isPublication i p=true →
    ∃ f, p.1.files[i]?=some f ∧ f.batch=some p.1.number ∧ wasStaged f=true
  /-- Before that every file ever admitted to the batch has sent its message. -/
  barrier : ∀ front p back, trace=front++p::back → ∀ i, isPublication i p=true →
    ∀ (j : ℕ) (f : File), s.files[j]?=some f → f.batch=some p.1.number → messages front j=1
  /-- A file is published at most once and only if it was staged, and a staged file is published by
  the time the drain of its batch has returned. -/
  exactly : ∀ (i : ℕ) (f : File), s.files[i]?=some f →
    publications trace i≤ stagings trace i ∧ stagings trace i≤1 ∧ ∀ k, f.batch=some k →
      k< s.number → publications trace i=stagings trace i
  /-- When a drain returns, no file of the batch has a reservation, and the payload of every
  published one is closed, or closing it has failed and stopped the budget. -/
  returned : ∀ p∈trace, p.2=.batch .drained → ∀ (i : ℕ) (f : File), p.1.files[i]?=some f →
    f.batch=some p.1.number → f.reservation=none ∧ (published f=true →
      f.payload=.closed ∨ f.payload=.closeFailed ∧ p.1.shared.usage.stopped=true)
  /-- When the scan has returned, the drain of every batch has. -/
  finished : ∀ stats, s.phase=.finished stats → ∀ f∈s.files, ∀ k, f.batch=some k → k< s.number
  /-- Between a publication and the next return of a drain the volume of the file was flushed. -/
  flushed : ∀ front p mid q back, trace=front++p::(mid++q::back) → q.2=.batch .drained →
    ∀ (i : ℕ) (f : File), isPublication i p=true → p.1.files[i]?=some f →
      ∃ r∈mid, ∃ ok, r.2=.batch (.flush f.found.metadata.dev ok)
  /-- Between a publication and the next file sent to the readers the drain has returned. -/
  quiet : ∀ front p mid q back, trace=front++p::(mid++q::back) → p.2=.batch .publish → q.2=.send →
    ∃ r∈mid, r.2=.batch .drained

/-- A message event is about one file. -/
theorem isMessage_iff {i : ℕ} {e : Event} : isMessage i e=true ↔ e=.file i .sendMessage := by
  unfold isMessage
  split
  · simp
  · next hother =>
    refine iff_of_false nofun fun hbad => ?_
    exact hother i hbad

/-- A publication is the step that sends the first of the files. -/
theorem isPublication_iff {i : ℕ} {p : State×Event} : isPublication i p=true ↔
    p.2=.batch .publish ∧ ∃ rest count volumes resume,
      p.1.phase=.publishing (i::rest) count volumes resume := by
  unfold isPublication
  split
  · next j rest count volumes resume hevent hphase =>
    rw [hevent,hphase,beq_iff_eq]
    simp
  · next hother =>
    refine iff_of_false nofun fun hbad => ?_
    obtain ⟨hevent,rest,count,volumes,resume,hphase⟩ := hbad
    exact hother _ _ _ _ _ hevent hphase

/-- A file staged and not sent belongs to the current batch once its message was received. -/
theorem current_of_staged (h : Batched config s) {i : ℕ} {f : File} (hfile : s.files[i]?=some f)
    (hnonempty : f.staged≠[]) (hreceived : f.received=true) :
    f.batch=some s.number ∧ wasStaged f=true := by
  have hmem := List.mem_of_getElem? hfile
  obtain ⟨hsound,hpayload⟩ := h.accounted.solvent.each f hmem
  have hdropped := hsound.admitted.received hreceived
  obtain ⟨k,hk⟩ := Option.isSome_iff_exists.mp (hsound.admitted.batch.mpr (by rw [hdropped]; nofun))
  constructor
  · rcases h.earlier f hmem k hk with rfl|⟨_,hsettled⟩
    · exact hk
    · exact absurd hsettled.staged hnonempty
  · exact decide_eq_true fun hbad => hnonempty (hpayload.mp hbad).1

/-- A published file was staged. -/
theorem wasStaged_of_published {f : File} (h : PayloadFollows f) (hpublished : published f=true) :
    wasStaged f=true :=
  decide_eq_true fun hbad => of_decide_eq_true hpublished (h.mp hbad).2

/-- A staged file of a settled batch is published. -/
theorem published_eq_wasStaged {f : File} (h : PayloadFollows f) (hstaged : f.staged=[]) :
    published f=wasStaged f := by
  unfold published wasStaged
  refine decide_eq_decide.mpr (not_congr (Iff.trans ?_ h.symm))
  rw [hstaged]
  simp

/-- While staged files are published only the end of the drain lets the scanning thread go on. -/
theorem busy_kept {e : Event} (hmoves : Moves config s e t) (hbusy : busy s.phase=true)
    (he : e≠.batch .drained) : busy t.phase=true := by
  cases hmoves with
  | endWalk hwalkers => exact hbusy
  | skip blocks hphase hscan => exact hbusy
  | file hguard hfile hstep => exact hbusy
  | batch hstaging hbatch =>
    cases hbatch with
    | drained hphase => exact absurd rfl he
    | publish hphase hfile => rfl
    | published hphase => rfl
    | acknowledge hphase hsome => rfl
    | acknowledged hphase => rfl
    | flush ok hphase hvolume => rfl
    | collected hphase => rfl
    | granted hphase | refused hphase | receive hphase =>
      rw [hphase] at hbusy
      cases hbusy
  | startWalk hphase => exact hbusy
  | countSkipped _ hphase | countSent _ hphase | countEnd hphase | makeContext hphase
  | submitBatched hphase | submit hphase | sendBatched hphase | send hphase | finishWalk hphase
  | dropOperation hphase | receiveStats hphase =>
    rw [hphase] at hbusy
    cases hbusy

/-- A file is sent to the readers only outside of a drain. -/
theorem sending_of_send (hmoves : Moves config s .send t) : busy s.phase=false := by
  cases hmoves with
  | sendBatched hphase hfile hstaging =>
    rw [hphase]
    rfl
  | send hphase hplain =>
    rw [hphase]
    rfl

/-- A publication leaves the scanning thread busy with the drain. -/
theorem busy_of_publish (hmoves : Moves config s (.batch .publish) t) : busy t.phase=true := by
  cases hmoves with
  | batch hstaging hbatch =>
    cases hbatch with
    | publish hphase hfile => rfl

/-- A volume is among those to flush once it was put there. -/
theorem insertVolume_mem (volume : ℕ) (volumes : List ℕ) : volume∈insertVolume volume volumes := by
  unfold insertVolume
  split
  · next hin => exact hin
  · exact List.mem_append_right _ List.mem_cons_self

/-- Those before stay. -/
theorem insertVolume_mono {volume : ℕ} {volumes : List ℕ} (h : volume∈volumes) (other : ℕ) :
    volume∈insertVolume other volumes := by
  unfold insertVolume
  split
  · exact h
  · exact List.mem_append_left _ h

/-- The volume of a published file is to be flushed. -/
theorem toFlush_of_publication {i : ℕ} {f : File} (hpublication : isPublication i (s,e)=true)
    (hmoves : Moves config s e t) (hfile : s.files[i]?=some f) :
    f.found.metadata.dev∈toFlush t.phase := by
  obtain ⟨hevent,rest,count,volumes,resume,hphase⟩ := isPublication_iff.mp hpublication
  dsimp only at hevent hphase
  subst hevent
  cases hmoves with
  | batch hstaging hbatch =>
    cases hbatch with
    | publish hold hget =>
      obtain ⟨hsame,-⟩ := Phase.publishing.inj (hold.symm.trans hphase)
      obtain rfl := List.head_eq_of_cons_eq hsame
      obtain rfl := Option.some.inj (hget.symm.trans hfile)
      exact insertVolume_mem _ _

/-- A volume stays to be flushed until it is, and no drain returns before. -/
theorem toFlush_kept {e : Event} {volume : ℕ} (hmoves : Moves config s e t)
    (hmem : volume∈toFlush s.phase) (he : ∀ ok, e≠.batch (.flush volume ok)) :
    e≠.batch .drained ∧ volume∈toFlush t.phase := by
  cases hmoves with
  | endWalk hwalkers => exact ⟨nofun,hmem⟩
  | skip blocks hphase hscan => exact ⟨nofun,hmem⟩
  | file hguard hfile hstep => exact ⟨nofun,hmem⟩
  | startWalk hphase => exact ⟨nofun,hmem⟩
  | batch hstaging hbatch =>
    cases hbatch with
    | publish hphase hfile =>
      rw [hphase] at hmem
      exact ⟨nofun,insertVolume_mono hmem _⟩
    | flush ok hphase hvolume =>
      rw [hphase] at hmem
      refine ⟨nofun,(List.mem_erase_of_ne ?_).mpr hmem⟩
      rintro rfl
      exact he ok rfl
    | published hphase | acknowledge hphase hsome | acknowledged hphase =>
      rw [hphase] at hmem
      exact ⟨nofun,hmem⟩
    | drained hphase | collected hphase | granted hphase | refused hphase | receive hphase =>
      rw [hphase] at hmem
      cases hmem
  | countSkipped _ hphase | countSent _ hphase | countEnd hphase | makeContext hphase
  | submitBatched hphase | submit hphase | sendBatched hphase | send hphase | finishWalk hphase
  | dropOperation hphase | receiveStats hphase =>
    rw [hphase] at hmem
    cases hmem

/-- Where a file of a batch comes from: it was there in this batch, or it was just admitted. -/
def Stems (s : State) (after : List File) : Prop :=
  ∀ (j : ℕ) (g : File) (k : ℕ), after[j]?=some g → g.batch=some k →
    (∃ f, s.files[j]?=some f ∧ f.batch=some k) ∨ (busy s.phase=false ∧ k=s.number)

/-- The same files. -/
theorem stems_same {after : List File} (hfiles : after=s.files) : Stems s after := by
  intro j g k hget hbatch
  rw [hfiles] at hget
  exact .inl ⟨g,hget,hbatch⟩

/-- A file that stays in its batch. -/
theorem stems_set {i : ℕ} {f g : File} (hfile : s.files[i]?=some f) (hsame : g.batch=f.batch) :
    Stems s (s.files.set i g) := by
  intro j x k hget hbatch
  rcases getElem?_set_cases hget with ⟨rfl,rfl⟩|⟨_,hold⟩
  · exact .inl ⟨f,hfile,hsame.symm.trans hbatch⟩
  · exact .inl ⟨x,hold,hbatch⟩

/-- A new file is in no batch. -/
theorem stems_snoc (found : Found) : Stems s (s.files++[File.new found]) := by
  intro j x k hget hbatch
  rcases getElem?_snoc_cases hget with hold|⟨_,rfl⟩
  · exact .inl ⟨x,hold,hbatch⟩
  · cases hbatch

/-- Files are admitted only outside of a drain, and to the current batch. -/
theorem stems_of_moves {e : Event} (h : Accounted config s) (hmoves : Moves config s e t) :
    Stems s t.files := by
  cases hmoves with
  | startWalk hphase => exact stems_same rfl
  | endWalk hwalkers => exact stems_same rfl
  | skip blocks hphase hscan => exact stems_same rfl
  | countSkipped blocks hphase hscan => exact stems_snoc _
  | countSent blocks hphase hscan => exact stems_snoc _
  | countEnd hphase hfile => exact stems_set hfile rfl
  | makeContext hphase hfile => exact stems_set hfile rfl
  | submitBatched hphase hfile hstaging =>
    refine stems_same ?_
    split
    · exact drain_files _ _
    · rfl
  | submit hphase hfile hplain => exact stems_set hfile rfl
  | sendBatched hphase hfile hstaging =>
    refine stems_same ?_
    split
    · exact drain_files _ _
    · rfl
  | send hphase hplain => exact stems_same rfl
  | finishWalk hphase =>
    refine stems_same ?_
    split
    · exact drain_files _ _
    · rfl
  | dropOperation hphase => exact stems_same rfl
  | receiveStats hphase hsent => exact stems_same rfl
  | batch hstaging hbatch =>
    cases hbatch with
    | granted hphase hfile hreserve =>
      intro j x k hget hbatch
      rcases getElem?_set_cases hget with ⟨rfl,rfl⟩|⟨_,hold⟩
      · exact .inr ⟨by rw [hphase]; rfl,(Option.some.inj hbatch).symm⟩
      · exact .inl ⟨x,hold,hbatch⟩
    | refused hphase hfile hreserve => exact stems_set hfile rfl
    | receive hphase hfile hmessage => exact stems_set hfile rfl
    | publish hphase hfile => exact stems_set hfile rfl
    | collected hphase => exact stems_same rfl
    | published hphase => exact stems_same rfl
    | acknowledge hphase hsome => exact stems_same rfl
    | acknowledged hphase => exact stems_same rfl
    | flush ok hphase hvolume => exact stems_same rfl
    | drained hphase => exact stems_same rfl
  | file hguard hfile hstep => exact stems_set hfile (h.kept hfile hstep).batch

/-- The number of the batch grows, and only when a drain returns. -/
theorem number_of_moves {e : Event} (hmoves : Moves config s e t) :
    t.number=s.number ∨ t.number=s.number+1 ∧ e=.batch .drained := by
  have hdrain : ∀ resume, (s.drain resume).number=s.number := by
    intro resume
    unfold State.drain
    split <;> rfl
  cases hmoves with
  | submitBatched hphase hfile hstaging =>
    left
    split
    · exact hdrain _
    · rfl
  | sendBatched hphase hfile hstaging =>
    left
    split
    · exact hdrain _
    · rfl
  | finishWalk hphase =>
    left
    split
    · exact hdrain _
    · rfl
  | batch hstaging hbatch =>
    cases hbatch with
    | drained hphase => exact .inr ⟨rfl,rfl⟩
    | _ => exact .inl rfl
  | _ => exact .inl rfl

/-- No file joins a batch whose staged files are being published. -/
theorem closed_of_run {number : ℕ} {base : List File} {trace : List (State×Event)}
    (haccounted : Accounted config s) (h : Run (step config) s trace t)
    (hbusy : busy s.phase=true) (hnumber : s.number=number) (hbase : s.files=base) :
    ∀ (j : ℕ) (g : File), t.files[j]?=some g → g.batch=some number →
      ∃ f, base[j]?=some f ∧ f.batch=some number := by
  have hinv := @Run.invariant _ _ _ (fun a => Accounted config a ∧
    (busy a.phase=true ∧ a.number=number ∨ number<a.number) ∧
    ∀ (j : ℕ) (g : File), a.files[j]?=some g → g.batch=some number →
      ∃ f, base[j]?=some f ∧ f.batch=some number) _ _ _ h
    ⟨haccounted,.inl ⟨hbusy,hnumber⟩,fun j g hget hbatch => ⟨g,hbase ▸ hget,hbatch⟩⟩ ?_
  · exact hinv.2.2
  · intro a b e ⟨hold,hstill,hfiles⟩ hstep
    have hmoves := moves_of_step hstep
    refine ⟨hold.moves hmoves,?_,fun j g hget hbatch => ?_⟩
    · rcases hstill with ⟨hphase,hequal⟩|hlater
      · rcases number_of_moves hmoves with hsame|⟨hnext,_⟩
        · by_cases hevent : e=.batch .drained
          · subst hevent
            cases hmoves with
            | batch hstaging hdrained =>
              cases hdrained with
              | drained hold =>
                dsimp only at hsame
                omega
          · exact .inl ⟨busy_kept hmoves hphase hevent,hsame.trans hequal⟩
        · right
          omega
      · right
        rcases number_of_moves hmoves with hsame|⟨hnext,_⟩
        · omega
        · omega
    · rcases stems_of_moves hold hmoves j g number hget hbatch with ⟨f,hf,hin⟩|⟨hfree,hequal⟩
      · exact hfiles j f hf hin
      · rcases hstill with ⟨hphase,_⟩|hlater
        · rw [hfree] at hphase
          cases hphase
        · omega

/-- Whether the walk is over and the last batch drained. -/
def done : Phase→Bool
  | .dropping => true
  | .waiting => true
  | .finished _ => true
  | _ => false

/-- A drain that is over at once has nothing pending. -/
theorem drain_done (resume : Resume) (h : done (s.drain resume).phase=true) :
    (s.drain resume).pending=0 := by
  unfold State.drain at h ⊢
  split at h
  · next hnone =>
    rw [if_pos hnone]
    exact hnone
  · cases h

/-- Once the walk is over and the last batch drained, nothing is pending. -/
theorem nothing_pending_of_moves {e : Event} (hstaging : config.staging=.batched limits)
    (hmoves : Moves config s e t) (h : done s.phase=true → s.pending=0)
    (hdone : done t.phase=true) : t.pending=0 := by
  cases hmoves with
  | startWalk hphase => exact h hdone
  | endWalk hwalkers => exact h hdone
  | skip blocks hphase hscan => exact h hdone
  | countSkipped blocks hphase hscan => cases hdone
  | countSent blocks hphase hscan => cases hdone
  | countEnd hphase hfile => cases hdone
  | makeContext hphase hfile => cases hdone
  | submitBatched hphase hfile hother =>
    split at hdone
    · next hdrain =>
      rw [if_pos hdrain]
      exact drain_done _ hdone
    · cases hdone
  | submit hphase hfile hplain => cases hdone
  | sendBatched hphase hfile hother =>
    split at hdone
    · next hover =>
      rw [if_pos hover]
      exact drain_done _ hdone
    · cases hdone
  | send hphase hplain => cases hdone
  | finishWalk hphase =>
    split at hdone
    · next hb =>
      rw [if_pos hb]
      exact drain_done _ hdone
    · next hb =>
      rw [hstaging] at hb
      exact absurd rfl hb
  | dropOperation hphase => exact h (by rw [hphase]; rfl)
  | receiveStats hphase hsent => exact h (by rw [hphase]; rfl)
  | batch hother hbatch =>
    cases hbatch with
    | drained hphase => rfl
    | _ => cases hdone
  | file hguard hfile hstep => exact h hdone

/-- When a scan has returned, the drain of every batch has. -/
theorem drained_of_finished {stopped : Bool} {trace : List (State×Event)}
    (hstaging : config.staging=.batched limits)
    (h : Run (step config) (.initial stopped) trace s) {stats : Statistics.Stats}
    (hphase : s.phase=.finished stats) : ∀ f∈s.files, ∀ k, f.batch=some k → k< s.number := by
  have hbatched := batched_of_run hstaging h
  have hpending := @Run.invariant _ _ _ (fun a => done a.phase=true → a.pending=0) _ _ _ h nofun
    fun hold hstep => nothing_pending_of_moves hstaging (moves_of_step hstep) hold
  have hnobody := tally_indicator_eq_zero_iff.mp
    (hbatched.pending.symm.trans (hpending (by rw [hphase]; rfl)))
  intro f hf k hk
  rcases hbatched.earlier f hf k hk with rfl|⟨hlt,_⟩
  · exact absurd hk (hnobody f hf)
  · exact hlt

/-- Between a publication and the next file sent to the readers the drain has returned. -/
theorem quiet_of_run {stopped : Bool} {front mid back : List (State×Event)} {p q : State×Event}
    (h : Run (step config) (.initial stopped) (front++p::(mid++q::back)) s)
    (hp : p.2=.batch .publish) (hq : q.2=.send) : ∃ r∈mid, r.2=.batch .drained := by
  obtain ⟨_,u,hpublish,hrest⟩ := h.split
  obtain ⟨hmid,v,hsend,_⟩ := hrest.split
  rw [hp] at hpublish
  rw [hq] at hsend
  by_contra hnone
  have hall : ∀ r∈mid, r.2≠.batch .drained := fun r hr hbad => hnone ⟨r,hr,hbad⟩
  have hbusy := @Run.invariant_of_all _ _ _ (fun a => busy a.phase=true)
    (fun r => r.2≠.batch .drained) _ _ _ hmid (busy_of_publish (moves_of_step hpublish)) hall
    fun hold hevent hstep => busy_kept (moves_of_step hstep) hold hevent
  rw [sending_of_send (moves_of_step hsend)] at hbusy
  cases hbusy

/-- Between a publication and the next return of a drain the volume of the file was flushed. -/
theorem flushed_of_run {stopped : Bool} {front mid back : List (State×Event)} {p q : State×Event}
    (h : Run (step config) (.initial stopped) (front++p::(mid++q::back)) s)
    (hq : q.2=.batch .drained) {i : ℕ} {f : File} (hpublication : isPublication i p=true)
    (hfile : p.1.files[i]?=some f) :
    ∃ r∈mid, ∃ ok, r.2=.batch (.flush f.found.metadata.dev ok) := by
  obtain ⟨_,u,hpublish,hrest⟩ := h.split
  obtain ⟨hmid,v,hdrained,_⟩ := hrest.split
  by_contra hnone
  have hall : ∀ r∈mid, ∀ ok, r.2≠.batch (.flush f.found.metadata.dev ok) :=
    fun r hr ok hbad => hnone ⟨r,hr,ok,hbad⟩
  have hpending := @Run.invariant_of_all _ _ _ (fun a => f.found.metadata.dev∈toFlush a.phase)
    (fun r => ∀ ok, r.2≠.batch (.flush f.found.metadata.dev ok)) _ _ _ hmid
    (toFlush_of_publication hpublication (moves_of_step hpublish) hfile) hall
    fun hold hevent hstep => (toFlush_kept (moves_of_step hstep) hold hevent).2
  exact (toFlush_kept (moves_of_step hdrained) hpending fun ok hbad => by
    rw [hq] at hbad
    cases hbad).1 hq

/-- A file sends at most one message, none before it is admitted, and one by the end of the drain
of its batch. -/
theorem messages_of_run {stopped : Bool} {trace : List (State×Event)}
    (hstaging : config.staging=.batched limits)
    (h : Run (step config) (.initial stopped) trace s) {i : ℕ} {f : File}
    (hfile : s.files[i]?=some f) : messages trace i≤1 ∧ (f.batch=none → messages trace i=0) ∧
      ∀ k, f.batch=some k → k< s.number → messages trace i=1 := by
  have hbatched := batched_of_run hstaging h
  have hmem := List.mem_of_getElem? hfile
  have hsound := (hbatched.accounted.solvent.each f hmem).1
  rw [(recorded_of_run hstaging h).messages,mark_of sent hfile]
  refine ⟨Bool.toNat_le _,fun hnone => ?_,fun k hk hlt => ?_⟩
  · rw [hstaging] at hsound
    unfold sent
    rw [(hsound.unadmitted hnone).1]
    rfl
  · rcases hbatched.earlier f hmem k hk with rfl|⟨_,hsettled⟩
    · exact absurd hlt (Nat.lt_irrefl _)
    · unfold sent
      rw [hsound.admitted.received hsettled.received]
      rfl

/-- The message is sent when nobody holds a completion guard. -/
theorem guards_of_message (h : Batched config s) {i : ℕ} {f : File} (hfile : s.files[i]?=some f)
    (hmoves : Moves config s (.file i .sendMessage) t) :
    .completion∉f.reader.owned ∧ .completion∉f.writer.owned := by
  have hsound := (h.accounted.solvent.file hfile).1
  cases hmoves with
  | file hguard hget hmove =>
    obtain rfl := Option.some.inj (hfile.symm.trans hget)
    cases (effect_of_step hmove).1 with
    | same hbad => exact absurd rfl hbad
    | clone hbad => exact absurd rfl hbad
    | release hbad => exact absurd rfl hbad
    | send _ hdropping _ =>
      have hnone := hsound.balanced.completion.dropping hdropping
      unfold File.holders at hnone
      exact ⟨List.count_eq_zero.mp (by omega),List.count_eq_zero.mp (by omega)⟩

/-- In batches the writer of a file sends nothing to the publishers. -/
theorem not_sendStaged (hstaging : config.staging=.batched limits) (h : Batched config s) {i : ℕ}
    (hmoves : Moves config s (.file i .sendStaged) t) : False := by
  cases hmoves with
  | @file _ _ f g shared hguard hget hmove =>
    have hwriter := (h.accounted.solvent.file hget).1.writer
    simp only [File.step] at hmove
    obtain ⟨hsending,_⟩ := Option.ite_none_right_eq_some.mp hmove
    unfold WriterOwns at hwriter
    rw [hsending,hstaging] at hwriter
    cases hwriter.2

/-- What is published is a staged file of the current batch. -/
theorem handed_of_publication (h : Batched config s) {i : ℕ} {e : Event}
    (hpublication : isPublication i (s,e)=true) :
    ∃ f, s.files[i]?=some f ∧ f.batch=some s.number ∧ wasStaged f=true := by
  obtain ⟨_,rest,count,volumes,resume,hphase⟩ := isPublication_iff.mp hpublication
  have hplaced := h.accounted.placed
  rw [hphase] at hplaced
  obtain ⟨f,hfile,hnonempty,hreceived⟩ := hplaced.1.2 i List.mem_cons_self
  exact ⟨f,hfile,current_of_staged h hfile hnonempty hreceived⟩

/-- Before a publication every file that is ever in the batch has sent its message. -/
theorem messages_of_publication {stopped : Bool} {front back : List (State×Event)}
    {p : State×Event} (hstaging : config.staging=.batched limits)
    (h : Run (step config) (.initial stopped) (front++p::back) s) {i j : ℕ} {g : File}
    (hpublication : isPublication i p=true) (hget : s.files[j]?=some g)
    (hin : g.batch=some p.1.number) : messages front j=1 := by
  obtain ⟨hfront,mid,hstep,hrest⟩ := h.split
  have hbefore := batched_of_run hstaging hfront
  obtain ⟨_,rest,count,volumes,resume,hphase⟩ := isPublication_iff.mp hpublication
  have hall : Run (step config) p.1 ((p.1,p.2)::back) s := Run.append (.snoc .nil hstep) hrest
  -- The file was there before the publication: no file joins the batch from then on.
  obtain ⟨f,hfile,hbatch⟩ := closed_of_run hbefore.accounted hall (by rw [hphase]; rfl) rfl rfl j g
    hget hin
  have hcurrent := hbefore.current
  rw [hphase] at hcurrent
  have hreceived := (hcurrent j f hfile hbatch).1
  have hsound := (hbefore.accounted.solvent.file hfile).1
  rw [(recorded_of_run hstaging hfront).messages,mark_of sent hfile]
  unfold sent
  rw [hsound.admitted.received hreceived]
  rfl

/-- A file is published at most once, if it was staged, and it is by the end of the drain of its
batch. -/
theorem publications_of_run {stopped : Bool} {trace : List (State×Event)}
    (hstaging : config.staging=.batched limits)
    (h : Run (step config) (.initial stopped) trace s) {i : ℕ} {f : File}
    (hfile : s.files[i]?=some f) : publications trace i≤ stagings trace i ∧ stagings trace i≤1 ∧
      ∀ k, f.batch=some k → k< s.number → publications trace i=stagings trace i := by
  have hbatched := batched_of_run hstaging h
  have hrecorded := recorded_of_run hstaging h
  have hmem := List.mem_of_getElem? hfile
  have hpayload := (hbatched.accounted.solvent.each f hmem).2
  rw [hrecorded.publications,hrecorded.stagings,mark_of published hfile,mark_of wasStaged hfile]
  refine ⟨toNat_le_of_imp (wasStaged_of_published hpayload),Bool.toNat_le _,fun k hk hlt => ?_⟩
  rcases hbatched.earlier f hmem k hk with rfl|⟨_,hsettled⟩
  · exact absurd hlt (Nat.lt_irrefl _)
  · rw [published_eq_wasStaged hpayload hsettled.staged]

/-- When a drain returns, the files of its batch have no reservation and no open payload. -/
theorem closed_of_drained (h : Batched config s)
    (hmoves : Moves config s (.batch .drained) t) {i : ℕ} {f : File} (hfile : s.files[i]?=some f)
    (hbatch : f.batch=some s.number) : f.reservation=none ∧ (published f=true →
      f.payload=.closed ∨ f.payload=.closeFailed ∧ s.shared.usage.stopped=true) := by
  have hmem := List.mem_of_getElem? hfile
  cases hmoves with
  | batch _ hbatchMoves =>
    cases hbatchMoves with
    | drained hphase =>
      have hcurrent := h.current
      rw [hphase] at hcurrent
      have hsettled := hcurrent i f hfile hbatch
      refine ⟨hsettled.free,fun hpublished => ?_⟩
      have hleaving := hsettled.publisher.resolve_left (of_decide_eq_true hpublished)
      have howns := (h.accounted.solvent.each f hmem).1.publisher
      unfold PublisherOwns at howns
      rw [hleaving] at howns
      exact howns.imp_right fun hfailed => ⟨hfailed,h.accounted.solvent.failed f hmem hfailed⟩

/-- In every scan in batches, each admitted file sends one message when reader and writer are done
with it; staged files go to the publishers after every message of the batch, each once; a drain
returns when they are published, closed and without reservation, and their volumes flushed; and
until then nothing goes to the readers. -/
theorem batch_barrier (config : Config) {limits : BatchLimits}
    (hstaging : config.staging=.batched limits) (stopped : Bool) {trace : List (State×Event)}
    (h : Run (step config) (.initial stopped) trace s) : Barrier trace s := by
  have hvisited : ∀ p∈trace, Batched config p.1 ∧ ∃ u, Moves config p.1 p.2 u := by
    intro p hp
    obtain ⟨front,_,mid,hfront,hstep,_⟩ := h.exists_of_mem hp
    exact ⟨batched_of_run hstaging hfront,mid,moves_of_step hstep⟩
  constructor
  · intro i f hfile
    exact messages_of_run hstaging h hfile
  · intro p hp i f hmessage hfile
    obtain ⟨hbefore,_,hmoves⟩ := hvisited p hp
    rw [isMessage_iff.mp hmessage] at hmoves
    exact guards_of_message hbefore hfile hmoves
  · intro p hp i hevent
    obtain ⟨hbefore,_,hmoves⟩ := hvisited p hp
    rw [hevent] at hmoves
    exact not_sendStaged hstaging hbefore hmoves
  · intro p hp i hpublication
    exact handed_of_publication (hvisited p hp).1 hpublication
  · intro front p back htrace i hpublication j g hget hin
    rw [htrace] at h
    exact messages_of_publication hstaging h hpublication hget hin
  · intro i f hfile
    exact publications_of_run hstaging h hfile
  · intro p hp hevent i f hfile hbatch
    obtain ⟨hbefore,_,hmoves⟩ := hvisited p hp
    rw [hevent] at hmoves
    exact closed_of_drained hbefore hmoves hfile hbatch
  · intro stats hphase
    exact drained_of_finished hstaging h hphase
  · intro front p mid q back htrace hq i f hpublication hfile
    rw [htrace] at h
    exact flushed_of_run h hq hpublication hfile
  · intro front p mid q back htrace hp hq
    rw [htrace] at h
    exact quiet_of_run h hp hq

/-- After the first of two files was published the second cannot be opened; then the scan ends. -/
def failedFileEvents : List Event :=
  BatchAdmission.twoFileEvents++[.batch .reserve,.send,.finishWalk,.file 1 .takeRead,
    .file 1 (.openFile false),.file 1 (.drop .reader),.file 1 (.drop .reader),.file 1 .sendMessage,
    .batch (.receive 1),.batch .collected,.batch .published,.batch .acknowledged,.batch .drained,
    .endWalk,.dropOperation,.file 1 (.drop .reader),.file 1 .dropContext,.file 1 .dropOperation,
    .file 0 (.drop .reader),.file 0 (.drop .writer),.file 0 .dropContext,.file 0 .dropOperation,
    .receiveStats]

/-- Both files have sent their message, and only the first was published. -/
theorem batch_barrier_failed_file : ∃ trace s,
    Run (step ⟨.decompressByReading,.batched BatchAdmission.fiveOfEight,1,1⟩) (.initial false) trace s ∧
      (∃ stats, s.phase=.finished stats) ∧ messages trace 0=1 ∧ messages trace 1=1 ∧
      publications trace 0=stagings trace 0 ∧ publications trace 1=stagings trace 1 := by
  have run := @run_of_replay _ _
    (step ⟨.decompressByReading,.batched BatchAdmission.fiveOfEight,1,1⟩) (.initial false) _
    failedFileEvents _ rfl
  have hbarrier := batch_barrier
    ⟨.decompressByReading,.batched BatchAdmission.fiveOfEight,1,1⟩ rfl false run
  exact ⟨_,_,run,⟨_,rfl⟩,(hbarrier.once 0 _ rfl).2.2 0 rfl (by decide),
    (hbarrier.once 1 _ rfl).2.2 1 rfl (by decide),
    (hbarrier.exactly 0 _ rfl).2.2 0 rfl (by decide),
    (hbarrier.exactly 1 _ rfl).2.2 1 rfl (by decide)⟩

end Results

end Applesauce.BatchBarrier
