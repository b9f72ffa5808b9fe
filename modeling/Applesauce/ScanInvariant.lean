import Applesauce.FileAdmission
import Applesauce.ScanRun
import Applesauce.TransitionSystem

/-!
# What holds of a scan between any two steps

Every file keeps its own invariant, the budget is the sum of the
reservations, no assertion has failed, and the file the scanning thread is
busy with is where its phase says.
-/

namespace Applesauce.ScanRun

open RustIo SharedHandles Statistics ScratchBudget FileThreads ScanAdmission Tally

variable {config : Config} {s t : State}

section Definitions

/-- The bytes a file has reserved. -/
def held (f : File) : ℕ := f.reservation.getD 0

/-- Files and the budget they share. -/
structure Solvent (staging : Staging) (files : List File) (shared : Shared) : Prop where
  /-- Every file is sound. -/
  each : ∀ f∈files, Sound staging f ∧ PayloadFollows f
  /-- The used bytes are those of the reservations. -/
  bytes : shared.usage.bytes=tally held files
  /-- They are within the limit. -/
  room : shared.usage.bytes≤ staging.limit
  /-- No assertion has failed. -/
  fault : shared.fault=none
  /-- A failed close has stopped the budget. -/
  failed : ∀ f∈files, f.payload=.closeFailed → shared.usage.stopped=true

/-- The scanning thread has counted the file and not decided about it. -/
def Considered (files : List File) (i : ℕ) : Prop :=
  ∃ f, files[i]?=some f ∧ f.reader.stage=.considered ∧ f.batch=none

/-- The scanning thread has the context of the file. -/
def Submitting (files : List File) (i : ℕ) : Prop :=
  ∃ f, files[i]?=some f ∧ f.reader.stage=.submitting ∧ f.batch=none

/-- Different files whose messages were received, each staged and not sent to a publisher. -/
def Staged (files : List File) (staged : List ℕ) : Prop :=
  staged.Nodup ∧ ∀ i∈staged, ∃ f, files[i]?=some f ∧ f.staged≠[] ∧ f.received=true

/-- The file with which the scanning thread goes on. -/
def Resume.Placed (files : List File) : Resume→Prop
  | .submit i => Submitting files i
  | .walk => True
  | .finish => True

/-- The files of the scanning thread are where its phase says. -/
def Phase.Placed (files : List File) : Phase→Prop
  | .walking => True
  | .ending i _ => Considered files i
  | .admitting i => Considered files i
  | .submitting i => Submitting files i
  | .reserving i => Submitting files i
  | .sending i => ∃ f, files[i]?=some f
  | .collecting _ staged resume => Staged files staged ∧ resume.Placed files
  | .publishing rest _ _ resume => Staged files rest ∧ resume.Placed files
  | .awaiting _ _ resume => resume.Placed files
  | .flushing _ resume => resume.Placed files
  | .dropping => True
  | .waiting => True
  | .finished _ => True

/-- The phases of `Batch::submit` and `Batch::drain` occur only with a batch. -/
def Phase.batched : Phase→Bool
  | .reserving _ => true
  | .collecting _ _ _ => true
  | .publishing _ _ _ _ => true
  | .awaiting _ _ _ => true
  | .flushing _ _ => true
  | _ => false

/-- The phase is about this file, which it considers. -/
def Phase.considers (i : ℕ) : Phase→Prop
  | .ending j _ => j=i
  | .admitting j => j=i
  | _ => False

/-- The invariant of every scan. -/
structure Accounted (config : Config) (s : State) : Prop where
  /-- The files and the budget. -/
  solvent : Solvent config.staging s.files s.shared
  /-- The files of the scanning thread. -/
  placed : s.phase.Placed s.files
  /-- Only with a batch is there a phase of one. -/
  batched : s.phase.batched=true → config.staging.isBatched=true
  /-- No other file is considered. -/
  alone : ∀ i f, s.files[i]?=some f → f.reader.stage=.considered → s.phase.considers i

end Definitions

section Solvency

variable {staging : Staging} {files : List File} {shared after : Shared}

/-- A file is replaced by another, and the budget moves with its reservation. -/
theorem Solvent.set (h : Solvent staging files shared) {i : ℕ} {f g : File}
    (hfile : files[i]?=some f) (hsound : Sound staging g ∧ PayloadFollows g)
    (hbytes : after.usage.bytes+held f=shared.usage.bytes+held g)
    (hroom : after.usage.bytes≤ staging.limit) (hfault : after.fault=none)
    (hstopped : shared.usage.stopped=true → after.usage.stopped=true)
    (hfailed : g.payload=.closeFailed → f.payload=.closeFailed ∨ after.usage.stopped=true) :
    Solvent staging (files.set i g) after where
  each := forall_mem_set h.each hsound
  bytes := by
    have htally := tally_set held g hfile
    have hold := h.bytes
    omega
  room := hroom
  fault := hfault
  failed := by
    refine forall_mem_set (fun x hx hbad => hstopped (h.failed x hx hbad)) fun hbad => ?_
    rcases hfailed hbad with hold|hnow
    · exact hstopped (h.failed f (List.mem_of_getElem? hfile) hold)
    · exact hnow

/-- A file is replaced by one with the same reservation and payload. -/
theorem Solvent.setSame (h : Solvent staging files shared) {i : ℕ} {f g : File}
    (hfile : files[i]?=some f) (hsound : Sound staging g ∧ PayloadFollows g)
    (hsame : g.reservation=f.reservation ∧ g.payload=f.payload)
    (hshared : after.usage=shared.usage ∧ after.fault=shared.fault) :
    Solvent staging (files.set i g) after := by
  refine h.set hfile hsound ?_ ?_ ?_ ?_ ?_
  · unfold held
    rw [hshared.1,hsame.1]
  · rw [hshared.1]
    exact h.room
  · rw [hshared.2]
    exact h.fault
  · rw [hshared.1]
    exact id
  · rw [hsame.2]
    exact .inl

/-- Files do not care about the other counters. -/
theorem Solvent.retain (h : Solvent staging files shared) (husage : after.usage=shared.usage)
    (hfault : after.fault=shared.fault) : Solvent staging files after where
  each := h.each
  bytes := by
    rw [husage]
    exact h.bytes
  room := by
    rw [husage]
    exact h.room
  fault := hfault.trans h.fault
  failed := fun f hf hbad => by
    rw [husage]
    exact h.failed f hf hbad

/-- A new file has no reservation. -/
theorem Solvent.snoc (h : Solvent staging files shared) (found : Found)
    (hshared : after.usage=shared.usage ∧ after.fault=shared.fault) :
    Solvent staging (files++[File.new found]) after := by
  have hkeep := h.retain hshared.1 hshared.2
  refine ⟨fun f hf => ?_,?_,hkeep.room,hkeep.fault,fun f hf hbad => ?_⟩
  · rcases List.mem_append.mp hf with hold|hnew
    · exact h.each f hold
    · rw [List.mem_singleton.mp hnew]
      exact ⟨sound_new staging found,by simp [PayloadFollows,File.new]⟩
  · rw [tally_snoc]
    exact hkeep.bytes
  · rcases List.mem_append.mp hf with hold|hnew
    · exact hkeep.failed f hold hbad
    · rw [List.mem_singleton.mp hnew] at hbad
      cases hbad

/-- Each file is sound. -/
theorem Solvent.file (h : Solvent staging files shared) {i : ℕ} {f : File}
    (hfile : files[i]?=some f) : Sound staging f ∧ PayloadFollows f :=
  h.each f (List.mem_of_getElem? hfile)

/-- The reservation of a file is part of the used bytes. -/
theorem Solvent.held_le (h : Solvent staging files shared) {i : ℕ} {f : File}
    (hfile : files[i]?=some f) : held f≤ shared.usage.bytes := by
  rw [h.bytes]
  exact le_tally held hfile

end Solvency

section Places

variable {files : List File} {i : ℕ} {f g : File}

/-- A file that goes on without leaving the place the scanning thread knows. -/
structure Stays (f g : File) : Prop where
  /-- The scanning thread still has it, if it had. -/
  reader : f.reader.stage.scanned=true → g.reader.stage=f.reader.stage
  /-- It is in the same batch. -/
  batch : g.batch=f.batch
  /-- What was received is still staged. -/
  staged : f.staged≠[] → f.received=true → g.staged≠[] ∧ g.received=true

/-- A list with one file replaced, at another place or at this one. -/
theorem get_set (hfile : files[i]?=some f) (g : File) (j : ℕ) {x : File}
    (hx : files[j]?=some x) :
    (j=i ∧ x=f ∧ (files.set i g)[j]?=some g) ∨ (j≠i ∧ (files.set i g)[j]?=some x) := by
  by_cases hij : i=j
  · subst hij
    have hlt := (List.getElem?_eq_some_iff.mp hfile).1
    exact .inl ⟨rfl,Option.some.inj (hx.symm.trans hfile),List.getElem?_set_self hlt⟩
  · refine .inr ⟨fun h => hij h.symm,?_⟩
    rw [List.getElem?_set_ne hij]
    exact hx

/-- The file that is submitted. -/
theorem Submitting.of_get (h : Submitting files i) (hfile : files[i]?=some f) :
    f.reader.stage=.submitting ∧ f.batch=none := by
  obtain ⟨x,hx,hplace⟩ := h
  obtain rfl := Option.some.inj (hfile.symm.trans hx)
  exact hplace

/-- The file that is considered. -/
theorem Considered.of_get (h : Considered files i) (hfile : files[i]?=some f) :
    f.reader.stage=.considered ∧ f.batch=none := by
  obtain ⟨x,hx,hplace⟩ := h
  obtain rfl := Option.some.inj (hfile.symm.trans hx)
  exact hplace

/-- A file of a list of staged ones. -/
theorem Staged.of_get {staged : List ℕ} (h : Staged files staged) (hmem : i∈staged)
    (hfile : files[i]?=some f) : f.staged≠[] ∧ f.received=true := by
  obtain ⟨x,hx,hplace⟩ := h.2 i hmem
  obtain rfl := Option.some.inj (hfile.symm.trans hx)
  exact hplace

/-- A submitted file that stays is still submitted. -/
theorem Submitting.set (hfile : files[i]?=some f)
    (hreader : f.reader.stage=.submitting → g.reader.stage=.submitting) (hbatch : g.batch=f.batch)
    {j : ℕ} (h : Submitting files j) : Submitting (files.set i g) j := by
  obtain ⟨x,hx,hstage,hnone⟩ := h
  rcases get_set hfile g j hx with ⟨_,rfl,hget⟩|⟨_,hget⟩
  · exact ⟨g,hget,hreader hstage,hbatch.trans hnone⟩
  · exact ⟨x,hget,hstage,hnone⟩

/-- A considered file that stays is still considered. -/
theorem Considered.set (hfile : files[i]?=some f)
    (hreader : f.reader.stage=.considered → g.reader.stage=.considered) (hbatch : g.batch=f.batch)
    {j : ℕ} (h : Considered files j) : Considered (files.set i g) j := by
  obtain ⟨x,hx,hstage,hnone⟩ := h
  rcases get_set hfile g j hx with ⟨_,rfl,hget⟩|⟨_,hget⟩
  · exact ⟨g,hget,hreader hstage,hbatch.trans hnone⟩
  · exact ⟨x,hget,hstage,hnone⟩

/-- Staged files that stay are still staged. -/
theorem Staged.set (hfile : files[i]?=some f)
    (hstays : f.staged≠[] → f.received=true → g.staged≠[] ∧ g.received=true) {staged : List ℕ}
    (h : Staged files staged) : Staged (files.set i g) staged := by
  refine ⟨h.1,fun j hj => ?_⟩
  obtain ⟨x,hx,hlist,hreceived⟩ := h.2 j hj
  rcases get_set hfile g j hx with ⟨_,rfl,hget⟩|⟨_,hget⟩
  · exact ⟨g,hget,hstays hlist hreceived⟩
  · exact ⟨x,hget,hlist,hreceived⟩

/-- The next file of the scanning thread stays. -/
theorem Resume.Placed.set (hfile : files[i]?=some f)
    (hreader : f.reader.stage=.submitting → g.reader.stage=.submitting) (hbatch : g.batch=f.batch)
    {resume : Resume} (h : resume.Placed files) : resume.Placed (files.set i g) := by
  cases resume with
  | submit j => exact Submitting.set hfile hreader hbatch h
  | walk => trivial
  | finish => trivial

/-- All files of the scanning thread stay when one file goes on. -/
theorem Phase.Placed.set (hfile : files[i]?=some f) (hstays : Stays f g) {phase : Phase}
    (h : phase.Placed files) : phase.Placed (files.set i g) := by
  have hsubmitting : f.reader.stage=.submitting → g.reader.stage=.submitting := by
    intro hstage
    rw [hstays.reader (by rw [hstage]; rfl),hstage]
  have hconsidered : f.reader.stage=.considered → g.reader.stage=.considered := by
    intro hstage
    rw [hstays.reader (by rw [hstage]; rfl),hstage]
  cases phase with
  | walking => trivial
  | ending j last => exact Considered.set hfile hconsidered hstays.batch h
  | admitting j => exact Considered.set hfile hconsidered hstays.batch h
  | submitting j => exact Submitting.set hfile hsubmitting hstays.batch h
  | reserving j => exact Submitting.set hfile hsubmitting hstays.batch h
  | sending j =>
    obtain ⟨x,hx⟩ := h
    rcases get_set hfile g j hx with ⟨_,_,hget⟩|⟨_,hget⟩
    · exact ⟨g,hget⟩
    · exact ⟨x,hget⟩
  | collecting left staged resume =>
    exact ⟨h.1.set hfile hstays.staged,h.2.set hfile hsubmitting hstays.batch⟩
  | publishing rest count volumes resume =>
    exact ⟨h.1.set hfile hstays.staged,h.2.set hfile hsubmitting hstays.batch⟩
  | awaiting left volumes resume => exact Resume.Placed.set hfile hsubmitting hstays.batch h
  | flushing volumes resume => exact Resume.Placed.set hfile hsubmitting hstays.batch h
  | dropping => trivial
  | waiting => trivial
  | finished stats => trivial

/-- The phase with which the scanning thread goes on has its file. -/
theorem Resume.Placed.phase {resume : Resume} (h : resume.Placed files) :
    resume.phase.Placed files := by
  cases resume with
  | submit j => exact h
  | walk => trivial
  | finish => trivial

end Places

section Steps

/-- Without a batch no message is received. -/
theorem received_batched {staging : Staging} {f : File} (h : Sound staging f)
    (hreceived : f.received=true) : staging.isBatched=true := by
  cases hb : staging.isBatched with
  | true => rfl
  | false =>
    have hdropped := h.admitted.received hreceived
    have hsome := h.admitted.batch.mpr (by rw [hdropped]; nofun)
    rw [h.admitted.plain hb] at hsome
    cases hsome

/-- A file on which another thread takes a step stays with the scanning thread. -/
theorem stays_of_kept {staging : Staging} {f g : File} {shared after : Shared}
    (h : Sound staging f) (hkept : Kept staging f shared g after) : Stays f g where
  reader := fun hscanned => by
    rcases hkept.reader with hsame|⟨hnot,_⟩
    · rw [hsame]
    · rw [hnot] at hscanned
      cases hscanned
  batch := hkept.batch
  staged := fun hstaged hreceived => by
    have hb := received_batched h hreceived
    rw [hkept.staged hb (h.admitted.received hreceived),hkept.received]
    exact ⟨hstaged,hreceived⟩

/-- A file that was replaced is not considered unless it was before, and no other is. -/
theorem alone_set {files : List File} {i : ℕ} {f g : File} {phase : Phase} (hfile : files[i]?=some f)
    (h : ∀ j x, files[j]?=some x → x.reader.stage=.considered → phase.considers j)
    (hg : g.reader.stage=.considered → f.reader.stage=.considered) :
    ∀ j x, (files.set i g)[j]?=some x → x.reader.stage=.considered → phase.considers j := by
  intro j x hx hstage
  rcases getElem?_set_cases hx with ⟨rfl,rfl⟩|⟨_,hold⟩
  · exact h j f hfile (hg hstage)
  · exact h j x hold hstage

/-- When no file is considered, none is after one was replaced by one that is not. -/
theorem alone_done {files : List File} {i : ℕ} {g : File} {phase after : Phase}
    (h : ∀ j x, files[j]?=some x → x.reader.stage=.considered → phase.considers j)
    (hphase : ∀ j, phase.considers j → j=i) (hg : g.reader.stage≠.considered) :
    ∀ j x, (files.set i g)[j]?=some x → x.reader.stage=.considered → after.considers j := by
  intro j x hx hstage
  rcases getElem?_set_cases hx with ⟨rfl,rfl⟩|⟨hne,hold⟩
  · exact absurd hstage hg
  · exact absurd (hphase j (h j x hold hstage)) hne

/-- A drain begins, or is over at once. -/
theorem Accounted.drain (h : Accounted config s) (hb : config.staging.isBatched=true)
    (hphase : ∀ j, ¬s.phase.considers j) {resume : Resume} (hresume : resume.Placed s.files) :
    Accounted config (s.drain resume) := by
  have halone : ∀ (phase : Phase) (j : ℕ) (f : File), s.files[j]?=some f →
      f.reader.stage=.considered → phase.considers j :=
    fun phase j f hf hstage => absurd (h.alone j f hf hstage) (hphase j)
  unfold State.drain
  split
  · exact ⟨h.solvent,hresume.phase,fun _ => hb,halone _⟩
  · exact ⟨h.solvent,⟨⟨List.nodup_nil,nofun⟩,hresume⟩,fun _ => hb,halone _⟩

section Batches
variable {limits : BatchLimits} {i : ℕ} {f : File} {resume : Resume}

/-- A reservation that the scanning thread is given admits the file. -/
theorem Accounted.granted {shared : Shared} (h : Accounted config s)
    (hstaging : config.staging=.batched limits) (hphase : s.phase=.reserving i)
    (hfile : s.files[i]?=some f)
    (hreserve : reserveBytes limits.limit (requested config f) s.shared=some (true,shared)) :
    Accounted config {s.update i (admitFile config limits s.number f) shared (.sending i) with
      pending := s.pending+1} := by
  have hplaced := h.placed
  have halone := h.alone
  have hroom := h.solvent.room
  obtain ⟨hsound,hpayload⟩ := h.solvent.file hfile
  rw [hphase] at hplaced halone
  rw [hstaging] at hsound hroom
  obtain ⟨hstage,hnone⟩ := Submitting.of_get hplaced hfile
  rcases reserveBytes_cases limits.limit_le hroom hreserve with ⟨_,hfit,rfl⟩|⟨hbad,_⟩
  · have hset := @Solvent.set _ _ _ {s.shared with
        usage := {s.shared.usage with bytes := s.shared.usage.bytes+requested config f}}
      h.solvent i f (admitFile config limits s.number f) hfile
      ⟨by rw [hstaging]; exact hsound.admitFile hstage hnone _ _,hpayload⟩
      (by
        have hfree := (hsound.unadmitted hnone).2
        unfold held
        rw [hfree]
        rfl)
      (by rw [hstaging]; exact hfit) h.solvent.fault id .inl
    exact ⟨hset,⟨_,List.getElem?_set_self (List.getElem?_eq_some_iff.mp hfile).1⟩,
      (fun hbad => by cases hbad),
      alone_done halone (fun _ hbad => by cases hbad) fun hbad => by cases hbad⟩
  · cases hbad

/-- A file without a reservation is given up. -/
theorem Accounted.refused {shared : Shared} (h : Accounted config s)
    (hstaging : config.staging=.batched limits) (hphase : s.phase=.reserving i)
    (hfile : s.files[i]?=some f)
    (hreserve : reserveBytes limits.limit (requested config f) s.shared=some (false,shared)) :
    Accounted config (s.update i {f with reader := ⟨.leaving,[.context]⟩} shared .walking) := by
  have hplaced := h.placed
  have halone := h.alone
  have hroom := h.solvent.room
  obtain ⟨hsound,hpayload⟩ := h.solvent.file hfile
  rw [hphase] at hplaced halone
  rw [hstaging] at hroom
  obtain ⟨hstage,hnone⟩ := Submitting.of_get hplaced hfile
  rcases reserveBytes_cases limits.limit_le hroom hreserve with ⟨hbad,_⟩|⟨_,rfl⟩
  · cases hbad
  · have hset := @Solvent.setSame _ _ _ s.shared h.solvent i f
      {f with reader := ⟨.leaving,[.context]⟩} hfile ⟨hsound.refuse hstage,hpayload⟩ ⟨rfl,rfl⟩
      ⟨rfl,rfl⟩
    exact ⟨hset,trivial,(fun hbad => by cases hbad),
      alone_done halone (fun _ hbad => by cases hbad) fun hbad => by cases hbad⟩

/-- A message that is received adds its file to those that were staged, if this one was. -/
theorem Accounted.receive {left : ℕ} {staged : List ℕ} (h : Accounted config s)
    (hb : config.staging.isBatched=true) (hphase : s.phase=.collecting (left+1) staged resume)
    (hfile : s.files[i]?=some f) (hmessage : f.completion=.dropped ∧ f.received=false) :
    Accounted config (s.update i {f with received := true} s.shared
      (.collecting left (if f.staged=[] then staged else staged++[i]) resume)) := by
  have hplaced := h.placed
  have halone := h.alone
  rw [hphase] at hplaced halone
  obtain ⟨hsound,hpayload⟩ := h.solvent.file hfile
  have hset := @Solvent.setSame _ _ _ s.shared h.solvent i f {f with received := true} hfile
    ⟨hsound.receive hmessage.1,hpayload⟩ ⟨rfl,rfl⟩ ⟨rfl,rfl⟩
  have hstays : Stays f {f with received := true} := ⟨fun _ => rfl,rfl,fun hs _ => ⟨hs,rfl⟩⟩
  have hkeep := @Phase.Placed.set s.files i f _ hfile hstays (.collecting (left+1) staged resume)
    hplaced
  refine ⟨hset,⟨?_,hkeep.2⟩,fun _ => hb,alone_set hfile (fun j x hx hc => ?_) id⟩
  · split
    · exact hkeep.1
    · next hnonempty =>
      refine ⟨?_,fun j hj => ?_⟩
      · refine List.nodup_append.mpr ⟨hkeep.1.1,by simp,?_⟩
        intro j hj k hk heq
        rw [List.mem_singleton] at hk
        subst hk
        subst heq
        obtain ⟨_,hreceived⟩ := Staged.of_get hplaced.1 hj hfile
        rw [hmessage.2] at hreceived
        cases hreceived
      · rcases List.mem_append.mp hj with hold|hnew
        · exact hkeep.1.2 j hold
        · rw [List.mem_singleton.mp hnew]
          exact ⟨_,List.getElem?_set_self (List.getElem?_eq_some_iff.mp hfile).1,hnonempty,rfl⟩
  · exact halone j x hx hc

/-- A staged file goes to the publishers. -/
theorem Accounted.publish {count : ℕ} {rest volumes : List ℕ} (h : Accounted config s)
    (hstaging : config.staging=.batched limits)
    (hphase : s.phase=.publishing (i::rest) count volumes resume) (hfile : s.files[i]?=some f) :
    Accounted config (s.update i
      {f with staged := [], publisher := ⟨.queued,(Staging.batched limits).published⟩} s.shared
      (.publishing rest count (insertVolume f.found.metadata.dev volumes) resume)) := by
  have hb : config.staging.isBatched=true := by rw [hstaging]; rfl
  have hplaced := h.placed
  have halone := h.alone
  rw [hphase] at hplaced halone
  obtain ⟨hstaged,hresume⟩ := hplaced
  obtain ⟨hnonempty,hreceived⟩ := Staged.of_get hstaged List.mem_cons_self hfile
  obtain ⟨hsound,hpayload⟩ := h.solvent.file hfile
  rw [hstaging] at hsound
  have hfollows : PayloadFollows
      {f with staged := [], publisher := ⟨.queued,(Staging.batched limits).published⟩} := by
    have hpresent := (hsound.inOrder.staged.resolve_left hnonempty).2.1
    simp [PayloadFollows,hpresent]
  have hset := @Solvent.setSame _ _ _ s.shared h.solvent i f
    {f with staged := [], publisher := ⟨.queued,(Staging.batched limits).published⟩} hfile
    ⟨by rw [hstaging]; exact hsound.publish hnonempty,hfollows⟩ ⟨rfl,rfl⟩ ⟨rfl,rfl⟩
  refine ⟨hset,⟨⟨(List.nodup_cons.mp hstaged.1).2,fun j hj => ?_⟩,?_⟩,fun _ => hb,
    alone_set hfile (fun j x hx hc => halone j x hx hc) id⟩
  · obtain ⟨x,hx,hmore⟩ := hstaged.2 j (List.mem_cons_of_mem i hj)
    have hne : i≠j := by
      rintro rfl
      exact (List.nodup_cons.mp hstaged.1).1 hj
    refine ⟨x,?_,hmore⟩
    dsimp only [State.update]
    rw [List.getElem?_set_ne hne]
    exact hx
  · exact @Resume.Placed.set _ _ f
      {f with staged := [], publisher := ⟨.queued,(Staging.batched limits).published⟩} hfile id rfl
      resume hresume

/-- A step of the batch keeps the accounts. -/
theorem Accounted.batchMoves {e : BatchEvent} (h : Accounted config s)
    (hstaging : config.staging=.batched limits) (hmoves : BatchMoves config limits s e t) :
    Accounted config t := by
  have hb : config.staging.isBatched=true := by rw [hstaging]; rfl
  have hplaced := h.placed
  have halone := h.alone
  cases hmoves with
  | granted hphase hfile hreserve => exact h.granted hstaging hphase hfile hreserve
  | refused hphase hfile hreserve => exact h.refused hstaging hphase hfile hreserve
  | receive hphase hfile hmessage => exact h.receive hb hphase hfile hmessage
  | collected hphase =>
    rw [hphase] at hplaced halone
    exact ⟨h.solvent,hplaced,fun _ => hb,halone⟩
  | publish hphase hfile => exact h.publish hstaging hphase hfile
  | published hphase =>
    rw [hphase] at hplaced halone
    exact ⟨h.solvent,hplaced.2,fun _ => hb,halone⟩
  | acknowledge hphase hsome =>
    rw [hphase] at hplaced halone
    exact ⟨h.solvent.retain rfl rfl,hplaced,fun _ => hb,halone⟩
  | acknowledged hphase =>
    rw [hphase] at hplaced halone
    exact ⟨h.solvent,hplaced,fun _ => hb,halone⟩
  | flush ok hphase hvolume =>
    rw [hphase] at hplaced halone
    refine ⟨?_,hplaced,fun _ => hb,halone⟩
    cases ok with
    | true => exact h.solvent
    | false =>
      exact ⟨h.solvent.each,h.solvent.bytes,h.solvent.room,h.solvent.fault,fun _ _ _ => rfl⟩
  | drained hphase =>
    rw [hphase] at hplaced halone
    exact ⟨h.solvent,hplaced.phase,fun _ => hb,
      fun j f hf hstage => absurd (halone j f hf hstage) fun hbad => by cases hbad⟩

end Batches

/-- A counted file is the one the scanning thread considers. -/
theorem Accounted.counted (h : Accounted config s) (hphase : s.phase=.walking) (entry : DirEntry)
    (blocks : ℕ) (inode : SourceGuard.Inode) (info : FileInfo) {phase : Phase}
    (hplaced : ∀ files, Considered files s.files.length → phase.Placed files)
    (hbatched : phase.batched=false) (hconsiders : phase.considers s.files.length) :
    Accounted config (s.counted entry blocks inode info phase) := by
  have halone := h.alone
  rw [hphase] at halone
  refine ⟨h.solvent.snoc _ ⟨rfl,rfl⟩,hplaced _ ?_,fun hb => ?_,fun j f hf hstage => ?_⟩
  · exact ⟨_,List.getElem?_concat_length,rfl,rfl⟩
  · exact Bool.noConfusion (hbatched.symm.trans hb)
  · rcases getElem?_snoc_cases hf with hold|⟨rfl,_⟩
    · exact absurd (halone j f hold hstage) nofun
    · exact hconsiders

/-- The scanning thread goes on without touching a file. -/
theorem Accounted.goOn (h : Accounted config s) (hphase : ∀ j, ¬s.phase.considers j)
    {phase : Phase} (hplaced : phase.Placed s.files)
    (hb : phase.batched=true → config.staging.isBatched=true) :
    Accounted config {s with phase := phase} :=
  ⟨h.solvent,hplaced,hb,fun j f hf hstage => absurd (h.alone j f hf hstage) (hphase j)⟩

/-- A step of another thread on a file keeps the accounts. -/
theorem Accounted.fileStep (h : Accounted config s) {i : ℕ} {f g : File} {shared : Shared}
    (hfile : s.files[i]?=some f) (hkept : Kept config.staging f s.shared g shared) :
    Accounted config (s.update i g shared s.phase) := by
  obtain ⟨hsound,hpayload⟩ := h.solvent.file hfile
  have hroom : shared.usage.bytes≤config.staging.limit := by
    rcases hkept.room with hle|⟨_,hle⟩
    · exact Nat.le_trans hle h.solvent.room
    · exact hle
  have hset := h.solvent.set hfile ⟨hkept.sound,hkept.payload⟩ hkept.bytes hroom
    (hkept.fault.trans h.solvent.fault) hkept.stopped hkept.failed
  refine ⟨hset,h.placed.set hfile (stays_of_kept hsound hkept),h.batched,
    alone_set hfile h.alone fun hstage => ?_⟩
  rcases hkept.reader with hsame|⟨_,hnot⟩
  · rw [←hsame]
    exact hstage
  · rw [hstage] at hnot
    cases hnot

/-- The step of another thread on a file, from the accounts. -/
theorem Accounted.kept (h : Accounted config s) {i : ℕ} {move : Move} {f g : File}
    {shared : Shared} (hfile : s.files[i]?=some f)
    (hstep : f.step config move s.shared=some (g,shared)) :
    Kept config.staging f s.shared g shared := by
  obtain ⟨hsound,hpayload⟩ := h.solvent.file hfile
  exact .step hsound hpayload (h.solvent.held_le hfile) h.solvent.room hstep

/-- Every step keeps the accounts. -/
theorem Accounted.moves {e : Event} (h : Accounted config s) (hmoves : Moves config s e t) :
    Accounted config t := by
  have hplaced := h.placed
  have halone := h.alone
  cases hmoves with
  | startWalk hphase => exact ⟨h.solvent.retain rfl rfl,hplaced,h.batched,halone⟩
  | endWalk hwalkers =>
    obtain ⟨husage,_,hfault⟩ := s.shared.dropOperation_same
    exact ⟨h.solvent.retain husage hfault,hplaced,h.batched,halone⟩
  | skip blocks hphase hscan => exact h
  | countSkipped blocks hphase hscan =>
    exact h.counted hphase _ _ _ _ (fun _ => id) rfl rfl
  | countSent blocks hphase hscan =>
    exact h.counted hphase _ _ _ _ (fun _ => id) rfl rfl
  | @countEnd i last f hphase hfile =>
    rw [hphase] at hplaced halone
    obtain ⟨hstage,hnone⟩ := Considered.of_get hplaced hfile
    obtain ⟨hsound,hpayload⟩ := h.solvent.file hfile
    have hset := @Solvent.setSame _ _ _ (addEnd last {f with reader := ⟨.leaving,[]⟩} s.shared).2
      h.solvent i f {f with reader := ⟨.leaving,[]⟩, ends := f.ends++[last]} hfile
      ⟨hsound.skip hstage last,hpayload⟩ ⟨rfl,rfl⟩ ⟨rfl,rfl⟩
    exact ⟨hset,trivial,nofun,alone_done halone (fun j hj => hj.symm) nofun⟩
  | @makeContext i f hphase hfile =>
    rw [hphase] at hplaced halone
    obtain ⟨hstage,hnone⟩ := Considered.of_get hplaced hfile
    obtain ⟨hsound,hpayload⟩ := h.solvent.file hfile
    have hset := @Solvent.setSame _ _ _ {s.shared with operations := s.shared.operations+1}
      h.solvent i f {f with reader := ⟨.submitting,[.context]⟩, context := .live 1, operation := true}
      hfile ⟨hsound.makeContext hstage,hpayload⟩ ⟨rfl,rfl⟩ ⟨rfl,rfl⟩
    have hlt := (List.getElem?_eq_some_iff.mp hfile).1
    exact ⟨hset,⟨_,List.getElem?_set_self hlt,rfl,hnone⟩,nofun,
      alone_done halone (fun j hj => hj.symm) nofun⟩
  | @submitBatched i f limits hphase hfile hstaging =>
    have hb : config.staging.isBatched=true := by rw [hstaging]; rfl
    have hfree : ∀ j, ¬s.phase.considers j := by rw [hphase]; exact fun _ => id
    rw [hphase] at hplaced
    split
    · exact h.drain hb hfree hplaced
    · exact h.goOn hfree hplaced fun _ => hb
  | @submit i f hphase hfile hplain =>
    rw [hphase] at hplaced halone
    obtain ⟨hstage,hnone⟩ := Submitting.of_get hplaced hfile
    obtain ⟨hsound,hpayload⟩ := h.solvent.file hfile
    have hset := @Solvent.setSame _ _ _ s.shared h.solvent i f
      {f with reader := ⟨.queued,config.staging.item⟩} hfile
      ⟨hsound.submit hstage hplain,hpayload⟩ ⟨rfl,rfl⟩ ⟨rfl,rfl⟩
    have hlt := (List.getElem?_eq_some_iff.mp hfile).1
    exact ⟨hset,⟨_,List.getElem?_set_self hlt⟩,nofun,alone_done halone nofun nofun⟩
  | @sendBatched i f limits hphase hfile hstaging =>
    have hb : config.staging.isBatched=true := by rw [hstaging]; rfl
    have hfree : ∀ j, ¬s.phase.considers j := by rw [hphase]; exact fun _ => id
    split
    · exact h.drain hb hfree trivial
    · exact h.goOn hfree trivial nofun
  | send hphase hplain => exact h.goOn (by rw [hphase]; exact fun _ => id) trivial nofun
  | finishWalk hphase =>
    have hfree : ∀ j, ¬s.phase.considers j := by rw [hphase]; exact fun _ => id
    split
    · next hb => exact h.drain hb hfree trivial
    · exact h.goOn hfree trivial nofun
  | dropOperation hphase =>
    rw [hphase] at halone
    obtain ⟨husage,_,hfault⟩ := s.shared.dropOperation_same
    exact ⟨h.solvent.retain husage hfault,trivial,nofun,halone⟩
  | receiveStats hphase hsent =>
    exact h.goOn (by rw [hphase]; exact fun _ => id) trivial nofun
  | batch hstaging hbatch => exact h.batchMoves hstaging hbatch
  | file hguard hfile hstep => exact h.fileStep hfile (h.kept hfile hstep)

/-- The accounts are in order before the scan. -/
theorem accounted_initial (config : Config) (stopped : Bool) :
    Accounted config (.initial stopped) where
  solvent := by
    refine ⟨fun f hf => ?_,rfl,Nat.zero_le _,rfl,fun f hf => ?_⟩
    · exact (List.not_mem_nil hf).elim
    · exact (List.not_mem_nil hf).elim
  placed := trivial
  batched := fun hbad => Bool.noConfusion hbad
  alone := fun i f hfile => by
    simp [State.initial] at hfile

end Steps

end Applesauce.ScanRun
