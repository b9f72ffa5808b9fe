import Applesauce.ScanInvariant

/-!
# The files of a batch while it is drained

A batch is the files admitted since the last drain. Its messages are received
one by one, its staged files sent to the publishers, and as many
acknowledgements awaited as files were sent. An acknowledgement is sent after
the reservation of the file is dropped, so when the last is received no file
of the batch has a reservation, and this stays so for the rest of the scan.
-/

namespace Applesauce.BatchInvariant

open SharedHandles FileThreads ScanAdmission ScanRun Tally

variable {config : Config} {limits : BatchLimits} {s t : State}

section Definitions

/-- A file with which a drained batch is done. -/
structure Settled (f : File) : Prop where
  /-- Its message was received. -/
  received : f.received=true
  /-- It is not staged any more, if it was. -/
  staged : f.staged=[]
  /-- It has no reservation. -/
  free : f.reservation=none
  /-- It never went to a publisher, or the publisher is done with it. -/
  publisher : f.publisher.stage=.absent ∨ f.publisher.stage=.leaving

/-- A file of the current batch. -/
def Pending (number : ℕ) (f : File) : Prop := f.batch=some number

instance (number : ℕ) (f : File) : Decidable (Pending number f) :=
  inferInstanceAs (Decidable (_=_))

/-- A file of the current batch whose message was not received. -/
def Unreceived (number : ℕ) (f : File) : Prop := f.batch=some number ∧ f.received=false

instance (number : ℕ) (f : File) : Decidable (Unreceived number f) :=
  inferInstanceAs (Decidable (_ ∧ _))

/-- The number of files of the current batch. -/
def pendingCount (number : ℕ) (files : List File) : ℕ := tally (indicator (Pending number)) files

/-- The number of files of the current batch whose messages were not received. -/
def unreceivedCount (number : ℕ) (files : List File) : ℕ :=
  tally (indicator (Unreceived number)) files

/-- The number of files whose publication is to be acknowledged. -/
def acknowledging (files : List File) : ℕ := tally (fun f => f.holders .finished) files

/-- A property of every file of the current batch. -/
def Current (files : List File) (number : ℕ) (p : ℕ→File→Prop) : Prop :=
  ∀ i f, files[i]?=some f → f.batch=some number → p i f

/-- What holds of the files of the current batch in a phase. -/
def InBatch (files : List File) (number : ℕ) : Phase→Prop
  | .collecting left staged _ => left=unreceivedCount number files ∧
      Current files number fun i f => f.received=true → f.staged≠[] → i∈staged
  | .publishing rest _ _ _ =>
      Current files number fun i f => f.received=true ∧ (f.staged≠[] → i∈rest)
  | .awaiting _ _ _ => Current files number fun _ f => f.received=true ∧ f.staged=[]
  | .flushing _ _ => Current files number fun _ f => Settled f
  | _ => Current files number fun _ f => f.received=false

/-- The number of acknowledgements not received in a phase. -/
def Outstanding (sum : ℕ) : Phase→Prop
  | .publishing rest count _ _ => count=rest.length+sum
  | .awaiting left _ _ => left=sum
  | _ => sum=0

/-- Whether the scanning thread drains the batch. -/
def draining : Phase→Bool
  | .collecting _ _ _ => true
  | .publishing _ _ _ _ => true
  | .awaiting _ _ _ => true
  | .flushing _ _ => true
  | _ => false

/-- The invariant of every scan in batches. -/
structure Batched (config : Config) (s : State) : Prop where
  /-- Files and the budget. -/
  accounted : Accounted config s
  /-- The pending files are those of the current batch. -/
  pending : s.pending=pendingCount s.number s.files
  /-- The files of earlier batches are settled. -/
  earlier : ∀ f∈s.files, ∀ k, f.batch=some k → k=s.number ∨ k< s.number ∧ Settled f
  /-- The files of the current batch. -/
  current : InBatch s.files s.number s.phase
  /-- The acknowledgements sent and to be sent. -/
  outstanding : Outstanding (acknowledging s.files+s.shared.acknowledged) s.phase

end Definitions

section Files

variable {f g : File}

/-- A file whose message was sent is reserved by neither reader nor writer. -/
theorem unreserved (h : Sound (.batched limits) f) (hmessage : f.completion=.dropped) :
    .reservation∉f.reader.owned ∧ .reservation∉f.writer.owned := by
  have hguards := h.balanced.completion
  rw [hmessage] at hguards
  have hnone : f.holders .completion=0 := hguards
  unfold File.holders at hnone
  have hreader : .completion∉f.reader.owned := List.count_eq_zero.mp (by omega)
  have hwriter : .completion∉f.writer.owned := List.count_eq_zero.mp (by omega)
  exact ⟨fun hmem => hreader (h.readerOrderly.guard_mem rfl hmem),
    fun hmem => hwriter (h.writerOrderly.guard_mem rfl hmem)⟩

/-- When nothing is left to be acknowledged, a file whose message was received and that was sent
to a publisher, if staged, is settled. -/
theorem settled_of_acknowledged (h : Sound (.batched limits) f) (hreceived : f.received=true)
    (hstaged : f.staged=[]) (hnone : f.holders .finished=0) : Settled f := by
  obtain ⟨hreader,hwriter⟩ := unreserved h (h.admitted.received hreceived)
  have hfinished : .finished∉f.publisher.owned := by
    unfold File.holders at hnone
    exact List.count_eq_zero.mp (by omega)
  have hpublisher : .reservation∉f.publisher.owned :=
    fun hmem => hfinished (h.publisherOrderly.guard_mem rfl hmem)
  refine ⟨hreceived,hstaged,?_,?_⟩
  · have hcount := h.balanced.reservation
    unfold File.holders at hcount
    rw [List.count_eq_zero.mpr hreader,List.count_eq_zero.mpr hwriter,hstaged,
      List.count_eq_zero.mpr hpublisher] at hcount
    cases hreservation : f.reservation with
    | none => rfl
    | some bytes =>
      rw [hreservation] at hcount
      cases hcount
  · have howns := h.publisher
    unfold PublisherOwns at howns
    cases hstage : f.publisher.stage with
    | absent => exact .inl rfl
    | leaving => exact .inr rfl
    | _ =>
      rw [hstage] at howns
      first
        | exact howns.elim
        | rw [howns.1] at hfinished
          simp [Staging.published] at hfinished

/-- A settled file stays settled. -/
theorem Settled.kept {shared after : Shared} (h : Settled f) (hsound : Sound (.batched limits) f)
    (hkept : Kept (.batched limits) f shared g after) : Settled g where
  received := hkept.received.trans h.received
  staged := (hkept.staged rfl (hsound.admitted.received h.received)).trans h.staged
  free := hkept.freed rfl h.free
  publisher := by
    rcases h.publisher with habsent|hleaving
    · exact .inl ((hkept.unpublished rfl).mpr habsent)
    · exact .inr (hkept.leaving hleaving).1

end Files

section Phases

variable {files : List File} {number sum i : ℕ} {f g : File}

/-- What holds of the current batch while it is not drained. -/
theorem inBatch_of_idle {phase : Phase} (hidle : draining phase=false) :
    InBatch files number phase ↔ Current files number fun _ f => f.received=false := by
  cases phase with
  | collecting left staged resume => cases hidle
  | publishing rest count volumes resume => cases hidle
  | awaiting left volumes resume => cases hidle
  | flushing volumes resume => cases hidle
  | _ => exact Iff.rfl

/-- Nothing is to be acknowledged while the batch is not drained. -/
theorem outstanding_of_idle {phase : Phase} (hidle : draining phase=false) :
    Outstanding sum phase ↔ sum=0 := by
  cases phase with
  | collecting left staged resume => cases hidle
  | publishing rest count volumes resume => cases hidle
  | awaiting left volumes resume => cases hidle
  | flushing volumes resume => cases hidle
  | _ => exact Iff.rfl

/-- After a drain the batch is not drained. -/
@[simp]
theorem draining_resume (resume : Resume) : draining resume.phase=false := by
  cases resume <;> rfl

/-- A property of the current files is kept when one is replaced. -/
theorem Current.set {p q : ℕ→File→Prop} (h : Current files number p) (hfile : files[i]?=some f)
    (hnew : g.batch=some number → q i g)
    (hold : ∀ j x, j≠i → files[j]?=some x → p j x → q j x) : Current (files.set i g) number q := by
  intro j x hx hbatch
  rcases getElem?_set_cases hx with ⟨rfl,rfl⟩|⟨hne,hget⟩
  · exact hnew hbatch
  · exact hold j x hne hget (h j x hget hbatch)

/-- A property of the current files is kept when one goes on with it. -/
theorem Current.replace {p : ℕ→File→Prop} (h : Current files number p) (hfile : files[i]?=some f)
    (hbatch : g.batch=f.batch) (hnew : p i f → p i g) : Current (files.set i g) number p :=
  h.set hfile (fun hk => hnew (h i f hfile (hbatch.symm.trans hk))) fun _ _ _ _ hx => hx

/-- A file that stays in its batch does not change their number. -/
theorem pendingCount_same (hfile : files[i]?=some f) (hbatch : g.batch=f.batch) :
    pendingCount number (files.set i g)=pendingCount number files := by
  refine tally_set_same hfile (indicator_congr ?_)
  unfold Pending
  rw [hbatch]

/-- An admitted file is one more. -/
theorem pendingCount_admitted (hfile : files[i]?=some f) (hnone : f.batch=none)
    (hbatch : g.batch=some number) :
    pendingCount number (files.set i g)=pendingCount number files+1 := by
  have hset := tally_set (indicator (Pending number)) g hfile
  have hafter : indicator (Pending number) g=1 := indicator_of hbatch
  have hbefore : indicator (Pending number) f=0 := by
    refine indicator_of_not fun hbad => ?_
    cases hnone.symm.trans hbad
  unfold pendingCount
  omega

/-- A file that is received when it was does not change the number of those to come. -/
theorem unreceivedCount_same (hfile : files[i]?=some f) (hbatch : g.batch=f.batch)
    (hreceived : g.received=f.received) :
    unreceivedCount number (files.set i g)=unreceivedCount number files := by
  refine tally_set_same hfile (indicator_congr ?_)
  unfold Unreceived
  rw [hbatch,hreceived]

/-- A received message is one fewer to come. -/
theorem unreceivedCount_receive (hfile : files[i]?=some f) (hbefore : Unreceived number f)
    (hreceived : g.received=true) :
    unreceivedCount number (files.set i g)+1=unreceivedCount number files := by
  have hset := tally_set (indicator (Unreceived number)) g hfile
  have hold : indicator (Unreceived number) f=1 := indicator_of hbefore
  have hnew : indicator (Unreceived number) g=0 := by
    refine indicator_of_not fun hbad => ?_
    cases hreceived.symm.trans hbad.2
  unfold unreceivedCount
  omega

/-- A file that is to be acknowledged when it was does not change their number. -/
theorem acknowledging_same (hfile : files[i]?=some f)
    (hholders : g.holders .finished=f.holders .finished) :
    acknowledging (files.set i g)=acknowledging files :=
  @tally_set_same _ (fun f : File => f.holders .finished) _ _ _ _ hfile hholders

/-- A new file is in no batch. -/
theorem Current.snoc {p : ℕ→File→Prop} (h : Current files number p) (found : Found) :
    Current (files++[File.new found]) number p := by
  intro j x hx hbatch
  rcases getElem?_snoc_cases hx with hold|⟨_,rfl⟩
  · exact h j x hold hbatch
  · cases hbatch

end Phases

section Idle

/-- The scanning thread goes on outside of a drain. -/
theorem Batched.goOn (h : Batched config s) (hidle : draining s.phase=false) {phase : Phase}
    (hphase : draining phase=false) (haccounted : Accounted config {s with phase := phase}) :
    Batched config {s with phase := phase} where
  accounted := haccounted
  pending := h.pending
  earlier := h.earlier
  current := (inBatch_of_idle hphase).mpr ((inBatch_of_idle hidle).mp h.current)
  outstanding := (outstanding_of_idle hphase).mpr ((outstanding_of_idle hidle).mp h.outstanding)

/-- A file is counted. -/
theorem Batched.counted (h : Batched config s) (hidle : draining s.phase=false) {entry : DirEntry}
    {blocks : ℕ} {inode : SourceGuard.Inode} {info : Statistics.FileInfo} {phase : Phase}
    (hphase : draining phase=false)
    (haccounted : Accounted config (s.counted entry blocks inode info phase)) :
    Batched config (s.counted entry blocks inode info phase) where
  accounted := haccounted
  pending := by
    have hold := h.pending
    change s.pending=pendingCount s.number (s.files++[_])
    unfold pendingCount at hold ⊢
    rw [tally_snoc,indicator_of_not (by nofun)]
    exact hold
  earlier := fun f hf k hk => by
    rcases List.mem_append.mp hf with hold|hnew
    · exact h.earlier f hold k hk
    · rw [List.mem_singleton.mp hnew] at hk
      cases hk
  current := (inBatch_of_idle hphase).mpr (((inBatch_of_idle hidle).mp h.current).snoc _)
  outstanding := by
    have hold := (outstanding_of_idle hidle).mp h.outstanding
    refine (outstanding_of_idle hphase).mpr ?_
    change acknowledging (s.files++[_])+s.shared.acknowledged=0
    unfold acknowledging at hold ⊢
    rw [tally_snoc]
    exact hold

/-- A file that is in no batch is replaced by another. -/
theorem Batched.setUnadmitted (h : Batched config s) (hidle : draining s.phase=false) {i : ℕ}
    {f g : File} (hfile : s.files[i]?=some f) {shared : Shared} {phase : Phase}
    (haccounted : Accounted config (s.update i g shared phase)) (hphase : draining phase=false)
    (hbatch : f.batch=none ∧ g.batch=none) (hholders : g.holders .finished=f.holders .finished)
    (hacknowledged : shared.acknowledged=s.shared.acknowledged) :
    Batched config (s.update i g shared phase) where
  accounted := haccounted
  pending := by
    have hold := h.pending
    change s.pending=pendingCount s.number (s.files.set i g)
    rw [pendingCount_same hfile (hbatch.2.trans hbatch.1.symm)]
    exact hold
  earlier := forall_mem_set h.earlier fun k hk => by
    rw [hbatch.2] at hk
    cases hk
  current := by
    refine (inBatch_of_idle hphase).mpr ?_
    refine ((inBatch_of_idle hidle).mp h.current).set hfile (fun hk => ?_) fun _ _ _ _ hx => hx
    rw [hbatch.2] at hk
    cases hk
  outstanding := by
    have hold := (outstanding_of_idle hidle).mp h.outstanding
    refine (outstanding_of_idle hphase).mpr ?_
    change acknowledging (s.files.set i g)+shared.acknowledged=0
    rw [acknowledging_same hfile hholders,hacknowledged]
    exact hold

/-- A drain begins, or is over at once. -/
theorem Batched.drain (h : Batched config s) (hidle : draining s.phase=false) {resume : Resume}
    (haccounted : Accounted config (s.drain resume)) : Batched config (s.drain resume) := by
  have hcurrent := (inBatch_of_idle hidle).mp h.current
  have hzero := (outstanding_of_idle hidle).mp h.outstanding
  unfold State.drain at haccounted ⊢
  split at haccounted
  · next hnone =>
    rw [if_pos hnone]
    exact h.goOn hidle (draining_resume resume) haccounted
  · next hsome =>
    rw [if_neg hsome]
    refine ⟨haccounted,h.pending,h.earlier,⟨?_,?_⟩,hzero⟩
    · have hpending := h.pending
      rw [hpending]
      refine tally_congr fun f hf => indicator_congr ⟨fun hbatch => ?_,And.left⟩
      obtain ⟨i,hi⟩ := List.mem_iff_getElem?.mp hf
      exact ⟨hbatch,hcurrent i f hi hbatch⟩
    · intro i f hi hbatch hreceived
      rw [hcurrent i f hi hbatch] at hreceived
      cases hreceived

/-- The batch is drained or the scanning thread goes on, as a test says. -/
theorem Batched.drainIf (h : Batched config s) (hidle : draining s.phase=false) {c : Prop}
    [Decidable c] {resume : Resume} {phase : Phase} (hphase : draining phase=false)
    (haccounted : Accounted config (if c then s.drain resume else {s with phase := phase})) :
    Batched config (if c then s.drain resume else {s with phase := phase}) := by
  split at haccounted
  · next hdrain =>
    rw [if_pos hdrain]
    exact h.drain hidle haccounted
  · next hdrain =>
    rw [if_neg hdrain]
    exact h.goOn hidle hphase haccounted

end Idle

section Steps

variable {files : List File} {number i : ℕ} {f g : File}

/-- A step of another thread keeps what holds of the current batch. -/
theorem inBatch_kept {phase : Phase} {shared after : Shared} (h : InBatch files number phase)
    (hfile : files[i]?=some f) (hsound : Sound (.batched limits) f)
    (hkept : Kept (.batched limits) f shared g after) : InBatch (files.set i g) number phase := by
  have hreceived := hkept.received
  have hstaged : f.received=true → g.staged=f.staged :=
    fun hmessage => hkept.staged rfl (hsound.admitted.received hmessage)
  cases hdrain : draining phase with
  | false =>
    have hidle := (inBatch_of_idle hdrain).mp h
    exact (inBatch_of_idle hdrain).mpr (hidle.replace hfile hkept.batch hreceived.trans)
  | true =>
    cases phase with
    | collecting left staged resume =>
      obtain ⟨hleft,hcurrent⟩ := h
      constructor
      · rw [unreceivedCount_same hfile hkept.batch hreceived]
        exact hleft
      · refine hcurrent.replace hfile hkept.batch fun hold hmessage hnonempty => ?_
        rw [hreceived] at hmessage
        rw [hstaged hmessage] at hnonempty
        exact hold hmessage hnonempty
    | publishing rest count volumes resume =>
      refine Current.replace h hfile hkept.batch fun hold => ?_
      rw [hreceived,hstaged hold.1]
      exact hold
    | awaiting left volumes resume =>
      refine Current.replace h hfile hkept.batch fun hold => ?_
      rw [hreceived,hstaged hold.1]
      exact hold
    | flushing volumes resume =>
      exact Current.replace h hfile hkept.batch fun hold => hold.kept hsound hkept
    | _ => cases hdrain

/-- A step of another thread on a file. -/
theorem Batched.fileStep (h : Batched config s) (hstaging : config.staging=.batched limits)
    (hfile : s.files[i]?=some f) {shared : Shared}
    (hkept : Kept config.staging f s.shared g shared) :
    Batched config (s.update i g shared s.phase) := by
  have haccounted := h.accounted.fileStep hfile hkept
  have hsound := (h.accounted.solvent.file hfile).1
  rw [hstaging] at hsound hkept
  refine ⟨haccounted,?_,?_,inBatch_kept h.current hfile hsound hkept,?_⟩
  · have hold := h.pending
    change s.pending=pendingCount s.number (s.files.set i g)
    rw [pendingCount_same hfile hkept.batch]
    exact hold
  · refine forall_mem_set h.earlier fun k hk => ?_
    rw [hkept.batch] at hk
    rcases h.earlier f (List.mem_of_getElem? hfile) k hk with heq|⟨hlt,hsettled⟩
    · exact .inl heq
    · exact .inr ⟨hlt,hsettled.kept hsound hkept⟩
  · have hold := h.outstanding
    have hset := tally_set (fun f => f.holders .finished) g hfile
    have hmoved := hkept.acknowledged
    have hsame : acknowledging (s.files.set i g)+shared.acknowledged=
        acknowledging s.files+s.shared.acknowledged := by
      unfold acknowledging
      omega
    change Outstanding (acknowledging (s.files.set i g)+shared.acknowledged) s.phase
    rw [hsame]
    exact hold

/-- A file is admitted to the current batch. -/
theorem Batched.granted (h : Batched config s) (hstaging : config.staging=.batched limits)
    (hphase : s.phase=.reserving i) (hfile : s.files[i]?=some f) {shared : Shared}
    (hacknowledged : shared.acknowledged=s.shared.acknowledged)
    (haccounted : Accounted config {s.update i (admitFile config limits s.number f) shared (.sending i) with
      pending := s.pending+1}) :
    Batched config {s.update i (admitFile config limits s.number f) shared (.sending i) with
      pending := s.pending+1} := by
  have hidle : draining s.phase=false := by rw [hphase]; rfl
  have hplaced := h.accounted.placed
  rw [hphase] at hplaced
  obtain ⟨hstage,hnone⟩ := Submitting.of_get hplaced hfile
  have hsound := (h.accounted.solvent.file hfile).1
  rw [hstaging] at hsound
  have hunreceived : f.received=false := by
    cases hreceived : f.received with
    | false => rfl
    | true =>
      have hdropped := hsound.admitted.received hreceived
      rw [(hsound.unadmitted hnone).1] at hdropped
      cases hdropped
  refine ⟨haccounted,?_,?_,?_,?_⟩
  · have hold := h.pending
    change s.pending+1=pendingCount s.number (s.files.set i (admitFile config limits s.number f))
    rw [pendingCount_admitted hfile hnone rfl,hold]
  · exact forall_mem_set h.earlier fun k hk => .inl (Option.some.inj hk).symm
  · exact ((inBatch_of_idle hidle).mp h.current).set hfile (fun _ => hunreceived) fun _ _ _ _ hx => hx
  · have hzero := (outstanding_of_idle hidle).mp h.outstanding
    have howned := hsound.submitting_owned hstage
    have hholders : (admitFile config limits s.number f).holders .finished=f.holders .finished := by
      unfold File.holders admitFile
      rw [howned]
      rfl
    change acknowledging (s.files.set i (admitFile config limits s.number f))+shared.acknowledged=0
    rw [acknowledging_same hfile hholders,hacknowledged]
    exact hzero

/-- A message is received. -/
theorem Batched.receive (h : Batched config s) {left : ℕ} {staged : List ℕ} {resume : Resume}
    (hphase : s.phase=.collecting (left+1) staged resume) (hfile : s.files[i]?=some f)
    (hmessage : f.completion=.dropped ∧ f.received=false)
    (haccounted : Accounted config (s.update i {f with received := true} s.shared
      (.collecting left (if f.staged=[] then staged else staged++[i]) resume))) :
    Batched config (s.update i {f with received := true} s.shared
      (.collecting left (if f.staged=[] then staged else staged++[i]) resume)) := by
  have hsound := (h.accounted.solvent.file hfile).1
  have hbatch : f.batch=some s.number := by
    have hsome := hsound.admitted.batch.mpr (by rw [hmessage.1]; nofun)
    obtain ⟨k,hk⟩ := Option.isSome_iff_exists.mp hsome
    rcases h.earlier f (List.mem_of_getElem? hfile) k hk with rfl|⟨_,hsettled⟩
    · exact hk
    · rw [hsettled.received] at hmessage
      cases hmessage.2
  have hcurrent := h.current
  have houtstanding := h.outstanding
  rw [hphase] at hcurrent houtstanding
  refine ⟨haccounted,?_,?_,⟨?_,?_⟩,?_⟩
  · have hold := h.pending
    change s.pending=pendingCount s.number (s.files.set i {f with received := true})
    rw [@pendingCount_same _ _ _ f {f with received := true} hfile rfl]
    exact hold
  · refine forall_mem_set h.earlier fun k hk => .inl ?_
    exact (Option.some.inj (hbatch.symm.trans hk)).symm
  · have hleft : left+1=unreceivedCount s.number s.files := hcurrent.1
    have hone := @unreceivedCount_receive _ _ _ f {f with received := true} hfile
      ⟨hbatch,hmessage.2⟩ rfl
    change left=unreceivedCount s.number (s.files.set i {f with received := true})
    omega
  · refine Current.set hcurrent.2 hfile (fun _ _ hnonempty => ?_) fun j x _ _ hold hreceived hsome => ?_
    · have hlist : f.staged≠[] := hnonempty
      rw [if_neg hlist]
      exact List.mem_append_right _ (by simp)
    · have hmem := hold hreceived hsome
      split
      · exact hmem
      · exact List.mem_append_left _ hmem
  · change acknowledging (s.files.set i {f with received := true})+s.shared.acknowledged=0
    rw [@acknowledging_same _ _ f {f with received := true} hfile rfl]
    exact houtstanding

/-- A staged file is sent to the publishers. -/
theorem Batched.publish (h : Batched config s) {count : ℕ} {rest volumes after : List ℕ}
    {resume : Resume} (hphase : s.phase=.publishing (i::rest) count volumes resume)
    (hfile : s.files[i]?=some f)
    (haccounted : Accounted config (s.update i
      {f with staged := [], publisher := ⟨.queued,(Staging.batched limits).published⟩} s.shared
      (.publishing rest count after resume))) :
    Batched config (s.update i
      {f with staged := [], publisher := ⟨.queued,(Staging.batched limits).published⟩} s.shared
      (.publishing rest count after resume)) := by
  have hsound := (h.accounted.solvent.file hfile).1
  have hplaced := h.accounted.placed
  have hcurrent := h.current
  have houtstanding := h.outstanding
  rw [hphase] at hplaced hcurrent houtstanding
  obtain ⟨hnonempty,_⟩ := Staged.of_get hplaced.1 List.mem_cons_self hfile
  obtain ⟨hstaged,_,hpublisher⟩ := hsound.inOrder.staged.resolve_left hnonempty
  refine ⟨haccounted,?_,?_,?_,?_⟩
  · have hold := h.pending
    change s.pending=pendingCount s.number (s.files.set i
      {f with staged := [], publisher := ⟨.queued,(Staging.batched limits).published⟩})
    rw [@pendingCount_same _ _ _ f
      {f with staged := [], publisher := ⟨.queued,(Staging.batched limits).published⟩} hfile rfl]
    exact hold
  · refine forall_mem_set h.earlier fun k hk => ?_
    rcases h.earlier f (List.mem_of_getElem? hfile) k hk with heq|⟨_,hsettled⟩
    · exact .inl heq
    · exact absurd hsettled.staged hnonempty
  · refine Current.set hcurrent hfile (fun hk => ⟨(hcurrent i f hfile hk).1,fun hbad => absurd rfl hbad⟩)
      fun j x hne _ hold => ⟨hold.1,fun hsome => ?_⟩
    rcases List.mem_cons.mp (hold.2 hsome) with heq|hmem
    · exact absurd heq hne
    · exact hmem
  · have hset := tally_set (fun f => f.holders .finished)
      {f with staged := [], publisher := ⟨.queued,(Staging.batched limits).published⟩} hfile
    have hnew : File.holders {f with
        staged := [], publisher := ⟨.queued,(Staging.batched limits).published⟩} .finished=
        f.holders .finished+1 := by
      unfold File.holders
      rw [hstaged,hpublisher]
      simp [Staging.published]
    have hcount : count=(i::rest).length+(acknowledging s.files+s.shared.acknowledged) := houtstanding
    rw [List.length_cons] at hcount
    change count=rest.length+(acknowledging (s.files.set i
      {f with staged := [], publisher := ⟨.queued,(Staging.batched limits).published⟩})+
      s.shared.acknowledged)
    unfold acknowledging at hcount ⊢
    omega

/-- The acknowledgements are all received. -/
theorem Batched.acknowledged (h : Batched config s) (hstaging : config.staging=.batched limits)
    {volumes : List ℕ} {resume : Resume} (hphase : s.phase=.awaiting 0 volumes resume) :
    Current s.files s.number (fun _ f => Settled f) ∧
      acknowledging s.files+s.shared.acknowledged=0 := by
  have hcurrent := h.current
  have houtstanding := h.outstanding
  rw [hphase] at hcurrent houtstanding
  have hzero : 0=acknowledging s.files+s.shared.acknowledged := houtstanding
  have hnone : acknowledging s.files=0 := by omega
  refine ⟨fun i f hfile hbatch => ?_,hzero.symm⟩
  have hmem := List.mem_of_getElem? hfile
  obtain ⟨hreceived,hstaged⟩ := hcurrent i f hfile hbatch
  have hsound := (h.accounted.solvent.each f hmem).1
  rw [hstaging] at hsound
  exact settled_of_acknowledged hsound hreceived hstaged (tally_eq_zero_iff.mp hnone f hmem)

/-- A drain is over: the next batch has no file. -/
theorem Batched.drained (h : Batched config s) {resume : Resume} (hphase : s.phase=.flushing [] resume)
    (haccounted : Accounted config
      {s with phase := resume.phase, pending := 0, number := s.number+1}) :
    Batched config {s with phase := resume.phase, pending := 0, number := s.number+1} := by
  have hcurrent := h.current
  have houtstanding := h.outstanding
  rw [hphase] at hcurrent houtstanding
  have hnobody : ∀ f∈s.files, f.batch≠some (s.number+1) := by
    intro f hf hbatch
    rcases h.earlier f hf _ hbatch with heq|⟨hlt,_⟩
    · omega
    · omega
  refine ⟨haccounted,?_,fun f hf k hk => .inr ?_,?_,(outstanding_of_idle (draining_resume _)).mpr houtstanding⟩
  · have hzero := tally_indicator_eq_zero_iff.mpr hnobody
    change 0=pendingCount (s.number+1) s.files
    exact hzero.symm
  · rcases h.earlier f hf k hk with rfl|⟨hlt,hsettled⟩
    · obtain ⟨i,hi⟩ := List.mem_iff_getElem?.mp hf
      exact ⟨Nat.lt_succ_self _,hcurrent i f hi hk⟩
    · exact ⟨Nat.lt_succ_of_lt hlt,hsettled⟩
  · refine (inBatch_of_idle (draining_resume _)).mpr fun i f hfile hbatch => ?_
    exact absurd hbatch (hnobody f (List.mem_of_getElem? hfile))

/-- A step of the batch. -/
theorem Batched.batchMoves {e : BatchEvent} (h : Batched config s)
    (hstaging : config.staging=.batched limits) (hmoves : BatchMoves config limits s e t) :
    Batched config t := by
  have haccounted := h.accounted.batchMoves hstaging hmoves
  have hcurrent := h.current
  have houtstanding := h.outstanding
  have hplaced := h.accounted.placed
  have hroom := h.accounted.solvent.room
  rw [hstaging] at hroom
  cases hmoves with
  | @granted i f shared hphase hfile hreserve =>
    rcases reserveBytes_cases limits.limit_le hroom hreserve with ⟨_,_,rfl⟩|⟨hbad,_⟩
    · exact h.granted hstaging hphase hfile rfl haccounted
    · cases hbad
  | @refused i f shared hphase hfile hreserve =>
    rw [hphase] at hplaced
    obtain ⟨hstage,hnone⟩ := Submitting.of_get hplaced hfile
    have hsound := (h.accounted.solvent.file hfile).1
    rcases reserveBytes_cases limits.limit_le hroom hreserve with ⟨hbad,_⟩|⟨_,rfl⟩
    · cases hbad
    · refine h.setUnadmitted (by rw [hphase]; rfl) hfile haccounted rfl ⟨hnone,hnone⟩ ?_ rfl
      unfold File.holders
      rw [hsound.submitting_owned hstage]
  | receive hphase hfile hmessage => exact h.receive hphase hfile hmessage haccounted
  | @collected staged resume hphase =>
    rw [hphase] at hcurrent houtstanding
    have hnone : unreceivedCount s.number s.files=0 := hcurrent.1.symm
    refine ⟨haccounted,h.pending,h.earlier,fun i f hfile hbatch => ?_,?_⟩
    · have hnot := tally_indicator_eq_zero_iff.mp hnone f (List.mem_of_getElem? hfile)
      have hreceived : f.received=true := by
        cases hreceived : f.received with
        | true => rfl
        | false => exact absurd ⟨hbatch,hreceived⟩ hnot
      exact ⟨hreceived,hcurrent.2 i f hfile hbatch hreceived⟩
    · have hzero : acknowledging s.files+s.shared.acknowledged=0 := houtstanding
      change staged.length=staged.length+(acknowledging s.files+s.shared.acknowledged)
      omega
  | publish hphase hfile => exact h.publish hphase hfile haccounted
  | @published count volumes resume hphase =>
    rw [hphase] at hcurrent houtstanding
    refine ⟨haccounted,h.pending,h.earlier,fun i f hfile hbatch => ?_,?_⟩
    · obtain ⟨hreceived,hrest⟩ := hcurrent i f hfile hbatch
      refine ⟨hreceived,?_⟩
      by_contra hnonempty
      exact List.not_mem_nil (hrest hnonempty)
    · have hcount : count=0+(acknowledging s.files+s.shared.acknowledged) := houtstanding
      change count=acknowledging s.files+s.shared.acknowledged
      omega
  | @acknowledge left volumes resume hphase hsome =>
    rw [hphase] at hcurrent houtstanding
    refine ⟨haccounted,h.pending,h.earlier,hcurrent,?_⟩
    have hleft : left+1=acknowledging s.files+s.shared.acknowledged := houtstanding
    change left=acknowledging s.files+(s.shared.acknowledged-1)
    omega
  | acknowledged hphase =>
    obtain ⟨hsettled,hzero⟩ := h.acknowledged hstaging hphase
    exact ⟨haccounted,h.pending,h.earlier,hsettled,hzero⟩
  | flush ok hphase hvolume =>
    rw [hphase] at hcurrent houtstanding
    cases ok with
    | true => exact ⟨haccounted,h.pending,h.earlier,hcurrent,houtstanding⟩
    | false => exact ⟨haccounted,h.pending,h.earlier,hcurrent,houtstanding⟩
  | drained hphase => exact h.drained hphase haccounted

/-- Every step keeps what holds of the batches. -/
theorem Batched.moves {e : Event} (h : Batched config s) (hstaging : config.staging=.batched limits)
    (hmoves : Moves config s e t) : Batched config t := by
  have haccounted := h.accounted.moves hmoves
  have hplaced := h.accounted.placed
  have houtstanding := h.outstanding
  cases hmoves with
  | startWalk hphase => exact ⟨haccounted,h.pending,h.earlier,h.current,houtstanding⟩
  | endWalk hwalkers =>
    refine ⟨haccounted,h.pending,h.earlier,h.current,?_⟩
    change Outstanding (acknowledging s.files+s.shared.dropOperation.acknowledged) s.phase
    rw [s.shared.dropOperation_same.2.1]
    exact houtstanding
  | skip blocks hphase hscan => exact h
  | countSkipped blocks hphase hscan => exact h.counted (by rw [hphase]; rfl) rfl haccounted
  | countSent blocks hphase hscan => exact h.counted (by rw [hphase]; rfl) rfl haccounted
  | @countEnd i last f hphase hfile =>
    rw [hphase] at hplaced
    obtain ⟨hstage,hnone⟩ := Considered.of_get hplaced hfile
    have hsound := (h.accounted.solvent.file hfile).1
    refine h.setUnadmitted (by rw [hphase]; rfl) hfile haccounted rfl ⟨hnone,hnone⟩ ?_ rfl
    obtain ⟨⟨hwriter,hstaged,hpublisher⟩,hholders,_⟩ := hsound.of_considered hstage
    rw [hholders]
    simp [addEnd,File.holders,hwriter,hstaged,hpublisher]
  | @makeContext i f hphase hfile =>
    rw [hphase] at hplaced
    obtain ⟨hstage,hnone⟩ := Considered.of_get hplaced hfile
    have hsound := (h.accounted.solvent.file hfile).1
    refine h.setUnadmitted (by rw [hphase]; rfl) hfile haccounted rfl ⟨hnone,hnone⟩ ?_ rfl
    obtain ⟨⟨hwriter,hstaged,hpublisher⟩,hholders,_⟩ := hsound.of_considered hstage
    rw [hholders]
    simp [File.holders,hwriter,hstaged,hpublisher]
  | submitBatched hphase hfile hbatched => exact h.drainIf (by rw [hphase]; rfl) rfl haccounted
  | submit hphase hfile hplain =>
    rw [hstaging] at hplain
    cases hplain
  | sendBatched hphase hfile hbatched => exact h.drainIf (by rw [hphase]; rfl) rfl haccounted
  | send hphase hplain =>
    rw [hstaging] at hplain
    cases hplain
  | finishWalk hphase => exact h.drainIf (by rw [hphase]; rfl) rfl haccounted
  | dropOperation hphase =>
    have hidle : draining s.phase=false := by rw [hphase]; rfl
    refine ⟨haccounted,h.pending,h.earlier,(inBatch_of_idle hidle).mp h.current,?_⟩
    change acknowledging s.files+s.shared.dropOperation.acknowledged=0
    rw [s.shared.dropOperation_same.2.1]
    exact (outstanding_of_idle hidle).mp houtstanding
  | receiveStats hphase hsent => exact h.goOn (by rw [hphase]; rfl) rfl haccounted
  | batch hbatched hbatch =>
    obtain rfl := Staging.batched.inj (hbatched.symm.trans hstaging)
    exact h.batchMoves hstaging hbatch
  | file hguard hfile hstep => exact h.fileStep hstaging hfile (h.accounted.kept hfile hstep)

/-- Before the scan there is no batch. -/
theorem batched_initial (config : Config) (stopped : Bool) : Batched config (.initial stopped) where
  accounted := accounted_initial config stopped
  pending := rfl
  earlier := fun f hf => (List.not_mem_nil hf).elim
  current := fun i f hfile => by simp [State.initial] at hfile
  outstanding := rfl

/-- The batches are in order in every reachable state. -/
theorem batched_of_run {stopped : Bool} {trace : List (State×Event)}
    (hstaging : config.staging=.batched limits)
    (h : TransitionSystem.Run (step config) (.initial stopped) trace s) : Batched config s :=
  h.invariant (batched_initial config stopped)
    fun hold hstep => hold.moves hstaging (moves_of_step hstep)

end Steps

end Applesauce.BatchInvariant
