import Applesauce.BatchInvariant

/-!
# Admission to a batch

The scanning thread reserves the scratch space of a file only when it fits,
so it never waits for threads that wait for it. It drains the batch before a
file that would not fit the target beside the others, and after a file that
is larger than the target.
-/

namespace Applesauce.BatchAdmission

open FileThreads ScanAdmission ScanRun BatchInvariant Tally
open TransitionSystem

variable {config : Config} {limits : BatchLimits} {s t : State}

section Definitions

/-- Whether the scanning thread may go on to admit a file to the batch as it is. -/
def admits : Phase→Bool
  | .walking => true
  | .ending _ _ => true
  | .admitting _ => true
  | .submitting _ => true
  | .reserving _ => true
  | _ => false

/-- The batch is within the target, and so is every file of it. -/
structure Within (config : Config) (limits : BatchLimits) (s : State) : Prop where
  /-- The bytes used. -/
  used : s.shared.usage.bytes≤limits.target
  /-- Each file. -/
  small : Current s.files s.number fun _ f => requested config f≤limits.target

/-- Only a file that is alone in its batch is larger than the target. -/
def Alone (config : Config) (limits : BatchLimits) (files : List File) : Prop :=
  ∀ (i j : ℕ) (f g : File), i≠j → files[i]?=some f → files[j]?=some g → f.batch.isSome=true →
    f.batch=g.batch → requested config f≤limits.target

/-- The invariant of admission. -/
structure Roomy (config : Config) (limits : BatchLimits) (s : State) : Prop where
  /-- What holds of the batches. -/
  batched : Batched config s
  /-- Several files are within the target. -/
  room : s.pending≤1 ∨ s.shared.usage.bytes≤limits.target
  /-- A batch to which files may be admitted is within the target. -/
  within : admits s.phase=true → Within config limits s
  /-- A file to be reserved can never be, is alone, or fits beside the others. -/
  reserving : ∀ i f, s.phase=.reserving i → s.files[i]?=some f →
    limits.limit<requested config f ∨ s.pending=0 ∨
      s.shared.usage.bytes+requested config f≤limits.target
  /-- A file just admitted is larger than the target, or the batch is within it; no other is
  larger. -/
  sending : ∀ i f, s.phase=.sending i → s.files[i]?=some f →
    (s.shared.usage.bytes≤limits.target ∨ limits.target<requested config f) ∧
      Current s.files s.number fun j f => j≠i → requested config f≤limits.target
  /-- Files of one batch are no larger than the target. -/
  alone : Alone config limits s.files

/-- Every file was there before, in the same batch and of the same size. -/
def Follows (files after : List File) : Prop :=
  ∀ (j : ℕ) (x : File), after[j]?=some x → ∃ y, files[j]?=some y ∧ x.batch=y.batch ∧ x.found=y.found

end Definitions

section Steps

/-- The same files follow themselves. -/
theorem follows_refl (files : List File) : Follows files files := fun _ x hx => ⟨x,hx,rfl,rfl⟩

/-- A file replaced by one of the same batch and size. -/
theorem follows_set {files : List File} {i : ℕ} {f g : File} (hfile : files[i]?=some f)
    (hbatch : g.batch=f.batch) (hfound : g.found=f.found) : Follows files (files.set i g) := by
  intro j x hx
  rcases getElem?_set_cases hx with ⟨rfl,rfl⟩|⟨_,hold⟩
  · exact ⟨f,hfile,hbatch,hfound⟩
  · exact ⟨x,hold,rfl,rfl⟩

/-- Sizes of files that follow others. -/
theorem requested_eq {f g : File} (hfound : f.found=g.found) :
    requested config f=requested config g := by
  unfold requested
  rw [hfound]

/-- When nothing is pending nothing is used. -/
theorem unused (h : Batched config s) (hstaging : config.staging=.batched limits)
    (hpending : s.pending=0) : s.shared.usage.bytes=0 := by
  have hcount := h.pending
  rw [hpending] at hcount
  have hnobody := tally_indicator_eq_zero_iff.mp hcount.symm
  rw [h.accounted.solvent.bytes]
  refine tally_eq_zero_iff.mpr fun f hf => ?_
  have hsound := (h.accounted.solvent.each f hf).1
  have hfree : f.reservation=none := by
    cases hbatch : f.batch with
    | none =>
      rw [hstaging] at hsound
      exact (hsound.unadmitted hbatch).2
    | some k =>
      rcases h.earlier f hf k hbatch with rfl|⟨_,hsettled⟩
      · exact absurd hbatch (hnobody f hf)
      · exact hsettled.free
  unfold held
  rw [hfree]
  rfl

/-- With nothing pending the batch is within the target. -/
theorem within_of_nothing (h : Batched config s) (hstaging : config.staging=.batched limits)
    (hpending : s.pending=0) : Within config limits s where
  used := by
    rw [unused h hstaging hpending]
    exact Nat.zero_le _
  small := fun i f hfile hbatch => by
    have hcount := h.pending
    rw [hpending] at hcount
    exact absurd hbatch (tally_indicator_eq_zero_iff.mp hcount.symm f (List.mem_of_getElem? hfile))

/-- Files that follow those of a batch are no larger. -/
theorem Follows.current {files after : List File} (h : Follows files after) {number : ℕ}
    {p : ℕ→File→Prop} (hp : ∀ j f g, f.found=g.found → p j g → p j f)
    (hcurrent : Current files number p) : Current after number p := by
  intro j x hx hbatch
  obtain ⟨y,hy,hsame,hfound⟩ := h j x hx
  exact hp j x y hfound (hcurrent j y hy (hsame.symm.trans hbatch))

/-- A step that admits no file and uses no more. -/
theorem Roomy.keep (h : Roomy config limits s) (hbatched : Batched config t)
    (hfiles : Follows s.files t.files) (hpending : t.pending=s.pending) (hnumber : t.number=s.number)
    (hused : t.shared.usage.bytes≤ s.shared.usage.bytes)
    (hadmits : admits t.phase=true → admits s.phase=true)
    (hreserving : ∀ i, t.phase=.reserving i → s.phase=.reserving i)
    (hsending : ∀ i, t.phase=.sending i → s.phase=.sending i) : Roomy config limits t where
  batched := hbatched
  room := by
    rw [hpending]
    exact h.room.imp_right (Nat.le_trans hused)
  within := fun hphase => by
    obtain ⟨hroom,hsmall⟩ := h.within (hadmits hphase)
    refine ⟨Nat.le_trans hused hroom,?_⟩
    rw [hnumber]
    exact hfiles.current (fun j f g hfound hle => by rw [requested_eq hfound]; exact hle) hsmall
  reserving := fun i f hphase hfile => by
    obtain ⟨y,hy,_,hfound⟩ := hfiles i f hfile
    rw [hpending,requested_eq hfound]
    refine (h.reserving i y (hreserving i hphase) hy).imp_right fun hfits => hfits.imp_right fun hle => ?_
    omega
  sending := fun i f hphase hfile => by
    obtain ⟨y,hy,_,hfound⟩ := hfiles i f hfile
    obtain ⟨hroom,hsmall⟩ := h.sending i y (hsending i hphase) hy
    rw [hnumber,requested_eq hfound]
    refine ⟨hroom.imp_left (Nat.le_trans hused),?_⟩
    refine hfiles.current (fun j f g hfound hle hne => ?_) hsmall
    rw [requested_eq hfound]
    exact hle hne
  alone := fun i j f g hne hi hj hsome hsame => by
    obtain ⟨y,hy,hbatch,hfound⟩ := hfiles i f hi
    obtain ⟨z,hz,hother,_⟩ := hfiles j g hj
    rw [requested_eq hfound]
    rw [hbatch] at hsome hsame
    exact h.alone i j y z hne hy hz hsome (hsame.trans hother)

/-- With nothing pending the scanning thread goes on. -/
theorem Roomy.restart (h : Batched config t) (hstaging : config.staging=.batched limits)
    (halone : Alone config limits t.files) (hpending : t.pending=0) {resume : Resume}
    (hphase : t.phase=resume.phase) : Roomy config limits t where
  batched := h
  room := .inl (by omega)
  within := fun _ => within_of_nothing h hstaging hpending
  reserving := fun _ _ _ _ => .inr (.inl hpending)
  sending := fun i f hsending => by
    rw [hphase] at hsending
    cases resume <;> cases hsending
  alone := halone

/-- A drain begins, or is over at once. -/
theorem Roomy.drain (h : Roomy config limits s) (hstaging : config.staging=.batched limits)
    {resume : Resume} (hbatched : Batched config (s.drain resume)) :
    Roomy config limits (s.drain resume) := by
  unfold State.drain at hbatched ⊢
  split at hbatched
  · next hnone =>
    rw [if_pos hnone]
    exact .restart hbatched hstaging h.alone hnone rfl
  · next hsome =>
    rw [if_neg hsome]
    exact h.keep hbatched (follows_refl _) rfl rfl (Nat.le_refl _) nofun nofun nofun

/-- A file is counted. -/
theorem Roomy.counted (h : Roomy config limits s) (hphase : s.phase=.walking) {entry : DirEntry}
    {blocks : ℕ} {inode : SourceGuard.Inode} {info : Statistics.FileInfo} {phase : Phase}
    (hbatched : Batched config (s.counted entry blocks inode info phase))
    (hreserving : ∀ i, phase≠.reserving i) (hsending : ∀ i, phase≠.sending i) :
    Roomy config limits (s.counted entry blocks inode info phase) where
  batched := hbatched
  room := h.room
  within := fun _ => by
    obtain ⟨hroom,hsmall⟩ := h.within (by rw [hphase]; rfl)
    exact ⟨hroom,hsmall.snoc _⟩
  reserving := fun i _ hbad => absurd hbad (hreserving i)
  sending := fun i _ hbad => absurd hbad (hsending i)
  alone := fun i j f g hne hi hj hsome hsame => by
    rcases getElem?_snoc_cases hi with hold|⟨_,rfl⟩
    · rcases getElem?_snoc_cases hj with hother|⟨_,rfl⟩
      · exact h.alone i j f g hne hold hother hsome hsame
      · rw [hsame] at hsome
        cases hsome
    · cases hsome

/-- A file is admitted. -/
theorem Roomy.granted (h : Roomy config limits s) (hstaging : config.staging=.batched limits)
    {i : ℕ} {f : File} {shared : Shared} (hphase : s.phase=.reserving i)
    (hfile : s.files[i]?=some f)
    (hused : shared.usage.bytes=s.shared.usage.bytes+requested config f)
    (hlimit : shared.usage.bytes≤limits.limit)
    (hbatched : Batched config {s.update i (admitFile config limits s.number f) shared (.sending i) with
      pending := s.pending+1}) :
    Roomy config limits {s.update i (admitFile config limits s.number f) shared (.sending i) with
      pending := s.pending+1} := by
  obtain ⟨hroom,hsmall⟩ := h.within (by rw [hphase]; rfl)
  have hfits : s.pending=0 ∨ s.shared.usage.bytes+requested config f≤limits.target := by
    rcases h.reserving i f hphase hfile with hover|hfits
    · omega
    · exact hfits
  have hothers : ∀ (j : ℕ) (g : File), j≠i → s.files[j]?=some g → g.batch=some s.number →
      requested config g≤limits.target ∧ requested config f≤limits.target := by
    intro j g hne hget hbatch
    refine ⟨hsmall j g hget hbatch,?_⟩
    rcases hfits with hnone|hle
    · have hcount := h.batched.pending
      rw [hnone] at hcount
      exact absurd hbatch (tally_indicator_eq_zero_iff.mp hcount.symm g (List.mem_of_getElem? hget))
    · omega
  refine ⟨hbatched,?_,nofun,fun _ _ hbad => (nomatch hbad),?_,?_⟩
  · dsimp only [State.update]
    rw [hused]
    rcases hfits with hnone|hle
    · left
      omega
    · exact .inr hle
  · intro j g hsending hget
    obtain rfl := Phase.sending.inj hsending
    have hlt := (List.getElem?_eq_some_iff.mp hfile).1
    have hself : (s.files.set i (admitFile config limits s.number f))[i]?=some g := hget
    rw [List.getElem?_set_self hlt] at hself
    obtain rfl := Option.some.inj hself
    have hsize : requested config (admitFile config limits s.number f)=requested config f := rfl
    constructor
    · dsimp only [State.update]
      rw [hused,hsize]
      rcases hfits with hnone|hle
      · have hzero := unused h.batched hstaging hnone
        omega
      · exact .inl hle
    · intro j x hx hbatch hne
      rcases getElem?_set_cases hx with ⟨heq,_⟩|⟨_,hold⟩
      · exact absurd heq hne
      · exact (hothers j x hne hold hbatch).1
  · intro j k x y hne hx hy hsome hsame
    rcases getElem?_set_cases hx with ⟨rfl,rfl⟩|⟨hj,hold⟩
    · rcases getElem?_set_cases hy with ⟨heq,_⟩|⟨hk,hother⟩
      · exact absurd heq.symm hne
      · exact (hothers k y hk hother hsame.symm).2
    · rcases getElem?_set_cases hy with ⟨rfl,rfl⟩|⟨hk,hother⟩
      · exact (hothers j x hj hold hsame).1
      · exact h.alone j k x y hne hold hother hsome hsame

/-- A step of the batch. -/
theorem Roomy.batchMoves {e : BatchEvent} (h : Roomy config limits s)
    (hstaging : config.staging=.batched limits) (hmoves : BatchMoves config limits s e t) :
    Roomy config limits t := by
  have hbatched := h.batched.batchMoves hstaging hmoves
  have hroom := h.batched.accounted.solvent.room
  rw [hstaging] at hroom
  cases hmoves with
  | @granted i f shared hphase hfile hreserve =>
    rcases reserveBytes_cases limits.limit_le hroom hreserve with ⟨_,hfit,rfl⟩|⟨hbad,_⟩
    · exact h.granted hstaging hphase hfile rfl hfit hbatched
    · cases hbad
  | @refused i f shared hphase hfile hreserve =>
    rcases reserveBytes_cases limits.limit_le hroom hreserve with ⟨hbad,_⟩|⟨_,rfl⟩
    · cases hbad
    · exact h.keep hbatched (follows_set hfile rfl rfl) rfl rfl (Nat.le_refl _)
        (fun _ => by rw [hphase]; rfl) nofun nofun
  | receive hphase hfile hmessage =>
    exact h.keep hbatched (follows_set hfile rfl rfl) rfl rfl (Nat.le_refl _) nofun nofun nofun
  | collected hphase =>
    exact h.keep hbatched (follows_refl _) rfl rfl (Nat.le_refl _) nofun nofun nofun
  | publish hphase hfile =>
    exact h.keep hbatched (follows_set hfile rfl rfl) rfl rfl (Nat.le_refl _) nofun nofun nofun
  | published hphase =>
    exact h.keep hbatched (follows_refl _) rfl rfl (Nat.le_refl _) nofun nofun nofun
  | acknowledge hphase hsome =>
    exact h.keep hbatched (follows_refl _) rfl rfl (Nat.le_refl _) nofun nofun nofun
  | acknowledged hphase =>
    exact h.keep hbatched (follows_refl _) rfl rfl (Nat.le_refl _) nofun nofun nofun
  | flush ok hphase hvolume =>
    refine h.keep hbatched (follows_refl _) rfl rfl ?_ nofun nofun nofun
    cases ok with
    | true => exact Nat.le_refl _
    | false => exact Nat.le_refl _
  | drained hphase => exact .restart hbatched hstaging h.alone rfl rfl

/-- Every step keeps what holds of admission. -/
theorem Roomy.moves {e : Event} (h : Roomy config limits s)
    (hstaging : config.staging=.batched limits) (hmoves : Moves config s e t) :
    Roomy config limits t := by
  have hbatched := h.batched.moves hstaging hmoves
  cases hmoves with
  | startWalk hphase =>
    exact h.keep hbatched (follows_refl _) rfl rfl (Nat.le_refl _) id (fun _ => id) fun _ => id
  | endWalk hwalkers =>
    refine h.keep hbatched (follows_refl _) rfl rfl ?_ id (fun _ => id) fun _ => id
    exact Nat.le_of_eq (congrArg _ s.shared.dropOperation_same.1)
  | skip blocks hphase hscan => exact h
  | countSkipped blocks hphase hscan => exact h.counted hphase hbatched nofun nofun
  | countSent blocks hphase hscan => exact h.counted hphase hbatched nofun nofun
  | countEnd hphase hfile =>
    exact h.keep hbatched (follows_set hfile rfl rfl) rfl rfl (Nat.le_refl _)
      (fun _ => by rw [hphase]; rfl) nofun nofun
  | makeContext hphase hfile =>
    exact h.keep hbatched (follows_set hfile rfl rfl) rfl rfl (Nat.le_refl _)
      (fun _ => by rw [hphase]; rfl) nofun nofun
  | @submitBatched i f other hphase hfile hother =>
    obtain rfl := Staging.batched.inj (hother.symm.trans hstaging)
    split at hbatched
    · next hdrain =>
      rw [if_pos hdrain]
      exact h.drain hstaging hbatched
    · next hdrain =>
      rw [if_neg hdrain]
      have hwithin := h.within (by rw [hphase]; rfl)
      refine ⟨hbatched,h.room,fun _ => ⟨hwithin.used,hwithin.small⟩,fun j g hreserving hget => ?_,
        fun _ _ hbad => (nomatch hbad),h.alone⟩
      obtain rfl := Phase.reserving.inj hreserving
      obtain rfl := Option.some.inj (hfile.symm.trans hget)
      have hused := hwithin.used
      unfold mustDrain at hdrain
      dsimp only
      omega
  | submit hphase hfile hplain =>
    rw [hstaging] at hplain
    cases hplain
  | @sendBatched i f other hphase hfile hother =>
    obtain rfl := Staging.batched.inj (hother.symm.trans hstaging)
    split at hbatched
    · next hover =>
      rw [if_pos hover]
      exact h.drain hstaging hbatched
    · next hover =>
      rw [if_neg hover]
      obtain ⟨hused,hsmall⟩ := h.sending i f hphase hfile
      refine ⟨hbatched,h.room,fun _ => ⟨hused.resolve_right hover,fun j g hget hbatch => ?_⟩,
        fun _ _ hbad => (nomatch hbad),fun _ _ hbad => (nomatch hbad),h.alone⟩
      by_cases hne : j=i
      · subst hne
        obtain rfl := Option.some.inj (hfile.symm.trans hget)
        exact Nat.le_of_not_lt hover
      · exact hsmall j g hget hbatch hne
  | send hphase hplain =>
    rw [hstaging] at hplain
    cases hplain
  | finishWalk hphase =>
    split at hbatched
    · next hb =>
      rw [if_pos hb]
      exact h.drain hstaging hbatched
    · next hb =>
      rw [hstaging] at hb
      exact absurd rfl hb
  | dropOperation hphase =>
    refine h.keep hbatched (follows_refl _) rfl rfl ?_ nofun nofun nofun
    exact Nat.le_of_eq (congrArg _ s.shared.dropOperation_same.1)
  | receiveStats hphase hsent =>
    exact h.keep hbatched (follows_refl _) rfl rfl (Nat.le_refl _) nofun nofun nofun
  | batch hother hbatch =>
    obtain rfl := Staging.batched.inj (hother.symm.trans hstaging)
    exact h.batchMoves hstaging hbatch
  | file hguard hfile hstep =>
    have hkept := h.batched.accounted.kept hfile hstep
    refine h.keep hbatched (follows_set hfile hkept.batch hkept.found) rfl rfl ?_ id (fun _ => id)
      fun _ => id
    rcases hkept.room with hle|⟨hplain,_⟩
    · exact hle
    · rw [hstaging] at hplain
      cases hplain

/-- Before the scan there is room. -/
theorem roomy_initial (config : Config) (limits : BatchLimits) (stopped : Bool) :
    Roomy config limits (.initial stopped) where
  batched := batched_initial config stopped
  room := .inl (Nat.zero_le 1)
  within := fun _ => ⟨Nat.zero_le _,fun i f hfile => by simp [State.initial] at hfile⟩
  reserving := fun _ _ hbad => (nomatch hbad)
  sending := fun _ _ hbad => (nomatch hbad)
  alone := fun i j f g _ hfile => by simp [State.initial] at hfile

/-- Admission is in order in every reachable state. -/
theorem roomy_of_run {stopped : Bool} {trace : List (State×Event)}
    (hstaging : config.staging=.batched limits)
    (h : Run (step config) (.initial stopped) trace s) : Roomy config limits s :=
  h.invariant (roomy_initial config limits stopped)
    fun hold hstep => hold.moves hstaging (moves_of_step hstep)

end Steps

section Results

/-- A reservation that is too large or has room returns at once. -/
theorem reserveBytes_returns {limit bytes : ℕ} {shared : Shared} (hlimit : limit≤RustIo.u64Max)
    (hused : shared.usage.bytes≤limit)
    (h : limit<bytes ∨ shared.usage.bytes+bytes≤limit) :
    ∃ granted after, reserveBytes limit bytes shared=some (granted,after) := by
  unfold reserveBytes
  by_cases hover : limit<bytes
  · rw [if_pos hover]
    exact ⟨_,_,rfl⟩
  · rw [if_neg hover]
    rcases @ScratchBudget.tryReserve_cases limit bytes shared.usage hlimit hused with
      ⟨_,htry⟩|⟨_,hfull,_⟩|⟨_,_,htry⟩
    · rw [htry]
      exact ⟨_,_,rfl⟩
    · omega
    · rw [htry]
      exact ⟨_,_,rfl⟩

/-- When the scanning thread calls `Scratch::reserve_bytes`, the file can never have the bytes, or
the budget is stopped, or there is room: the call returns at once. With nothing pending nothing
is reserved. With several files pending the reservations are within the target, and only a file
that is alone in its batch is larger. -/
theorem batch_admission (config : Config) {limits : BatchLimits}
    (hstaging : config.staging=.batched limits) (stopped : Bool) {trace : List (State×Event)}
    (h : Run (step config) (.initial stopped) trace s) :
    (∀ i, s.phase=.reserving i → ∃ f, s.files[i]?=some f ∧
      (limits.limit<requested config f ∨ s.shared.usage.stopped=true ∨
        requested config f≤limits.limit-s.shared.usage.bytes) ∧
      ∃ t, step config s (.batch .reserve)=some t) ∧
    (s.pending=0 → s.shared.usage.bytes=0) ∧
    (1<s.pending → s.shared.usage.bytes≤limits.target) ∧ Alone config limits s.files := by
  have hroomy := roomy_of_run hstaging h
  have hused := hroomy.batched.accounted.solvent.room
  rw [hstaging] at hused
  refine ⟨fun i hphase => ?_,unused hroomy.batched hstaging,fun hpending => ?_,hroomy.alone⟩
  · have hplaced := hroomy.batched.accounted.placed
    rw [hphase] at hplaced
    obtain ⟨f,hfile,_⟩ := hplaced
    have hroom : limits.limit<requested config f ∨
        s.shared.usage.bytes+requested config f≤limits.limit := by
      have htarget := limits.target_le
      rcases hroomy.reserving i f hphase hfile with hover|hnone|hfits
      · exact .inl hover
      · have hzero := unused hroomy.batched hstaging hnone
        omega
      · omega
    refine ⟨f,hfile,?_,?_⟩
    · rcases hroom with hover|hfits
      · exact .inl hover
      · have hrest : requested config f≤limits.limit-s.shared.usage.bytes := by omega
        exact .inr (.inr hrest)
    · obtain ⟨granted,after,hreserve⟩ := reserveBytes_returns limits.limit_le hused hroom
      have hsome : (step config s (.batch .reserve)).isSome=true := by
        cases granted with
        | true => simp [step,hstaging,batchStep,hphase,hfile,hreserve]
        | false => simp [step,hstaging,batchStep,hphase,hfile,hreserve]
      exact Option.isSome_iff_exists.mp hsome
  · exact hroomy.room.resolve_left (by omega)

/-- A file of three bytes on a volume without compression. -/
def threeByteEntry : DirEntry :=
  {emptyEntry with
    metadata := .ok {emptyFile with metadata := {emptyFile.metadata with len := 3}}
    supported := .ok false}

/-- A target of five bytes and a limit of eight. -/
def fiveOfEight : BatchLimits := ⟨5,8,by decide,by decide,by decide⟩

/-- Two files of three bytes: the second does not fit the target, so the first is staged,
published and closed before the second is reserved. -/
def twoFileEvents : List Event :=
  [.startWalk,.consider threeByteEntry 1,.makeContext,.submit,.batch .reserve,.send,
    .file 0 .takeRead,.consider threeByteEntry 1,.file 0 (.openFile true),.makeContext,.submit,
    .file 0 .hand,.file 0 .takeWrite,.file 0 .finishReading,.file 0 (.stage (some 3)),
    .file 0 (.drop .reader),.file 0 (.drop .writer),.file 0 .sendMessage,.batch (.receive 0),
    .batch .collected,.batch .publish,.batch .published,.file 0 .takePublish,
    .file 0 (.publish true),.file 0 (.report .publisher true),
    .file 0 (.count .publisher ⟨0,.compressible⟩),.file 0 (.close true),.file 0 (.drop .publisher),
    .file 0 (.drop .publisher),.file 0 (.drop .publisher),.batch .acknowledge,.batch .acknowledged,
    .batch (.flush 1 true),.batch .drained]

/-- The second of two files is reserved when the first has been published. -/
theorem batch_admission_two_files : ∃ trace s,
    Run (step ⟨.decompressByReading,.batched fiveOfEight,1,1⟩) (.initial false) trace s ∧
      s.phase=.reserving 1 ∧ s.pending=0 ∧ s.shared.usage.bytes=0 :=
  ⟨_,_,@run_of_replay _ _ (step ⟨.decompressByReading,.batched fiveOfEight,1,1⟩) (.initial false) _
      twoFileEvents _ rfl,rfl,rfl,
    (batch_admission ⟨.decompressByReading,.batched fiveOfEight,1,1⟩ rfl false
      (@run_of_replay _ _ (step ⟨.decompressByReading,.batched fiveOfEight,1,1⟩) (.initial false) _
        twoFileEvents _ rfl)).2.1 rfl⟩

end Results

end Applesauce.BatchAdmission
