import Applesauce.ScanInvariant

/-!
# The statistics of a scan

Every counted file has its end counted once before the statistics are sent.
The handles of the operation are those of the scanning thread, of the walkers
and of the contexts, so the statistics are sent when nobody can count any
more. Until then the counters show the sums over the files, and what is sent
are the sums over the same files at both ends.
-/

namespace Applesauce.ScanStatistics

open Statistics FileThreads ScanAdmission ScanRun Tally
open TransitionSystem

section Definitions

/-- The sizes on disk counted at the end of a file. -/
def endSize (f : File) : ℕ := tally FileInfo.onDiskSize f.ends

/-- The number of times the end of a file was counted as compressed. -/
def endCompressed (f : File) : ℕ := tally FileInfo.isCompressed f.ends

/-- What the counters show of these files. -/
def counters (files : List File) : Stats :=
  .ofSums files.length (tally (fun f => f.found.metadata.len) files)
    (tally (fun f => f.found.info.onDiskSize) files) (tally endSize files)
    (tally (fun f => f.found.info.isCompressed) files) (tally endCompressed files)
    (tally (fun f => f.found.info.isIncompressible) files)

/-- The handle of the operation that the context of a file holds. -/
def handle (f : File) : ℕ := f.operation.toNat

/-- Whether the scanning thread holds its handle of the operation. -/
def holds : Phase→Bool
  | .waiting => false
  | .finished _ => false
  | _ => true

/-- The handles and counters of the operation, with so many handles outside the files. -/
structure Ledger (others : ℕ) (files : List File) (shared : Shared) : Prop where
  /-- Every handle has an owner. -/
  handles : shared.operations=others+tally handle files
  /-- The counters are those of the files until the last handle is gone, and then they are sent. -/
  reported : (shared.sent=none ∧ 0<shared.operations ∧ shared.stats=counters files) ∨
    (shared.sent=some (counters files) ∧ shared.operations=0)

/-- The invariant of every scan. -/
structure Conserved (config : Config) (s : State) : Prop where
  /-- Files and the budget. -/
  accounted : Accounted config s
  /-- Handles and counters. -/
  ledger : Ledger ((holds s.phase).toNat+s.walkers) s.files s.shared

end Definitions

section Counters

variable {files : List File} {i : ℕ} {f g : File}

/-- The counters after one end is counted. -/
theorem counters_end (hfile : files[i]?=some f) (hfound : g.found=f.found) {info : FileInfo}
    (hends : g.ends=f.ends++[info]) :
    counters (files.set i g)=(counters files).addEndFile info := by
  have hsize := tally_set endSize g hfile
  have hcompressed := tally_set endCompressed g hfile
  unfold endSize at hsize
  unfold endCompressed at hcompressed
  rw [hends,tally_snoc] at hsize hcompressed
  have hsum : tally endSize (files.set i g)=tally endSize files+info.onDiskSize := by
    unfold endSize
    omega
  have hcount : tally endCompressed (files.set i g)=
      tally endCompressed files+info.isCompressed := by
    unfold endCompressed
    omega
  unfold counters
  rw [addEndFile_ofSums,List.length_set,hsum,hcount]
  simp only [tally_set_same hfile,hfound]

/-- The counters do not change with anything else. -/
theorem counters_same (hfile : files[i]?=some f) (hfound : g.found=f.found)
    (hends : g.ends=f.ends) : counters (files.set i g)=counters files := by
  have hsize : endSize g=endSize f := by
    unfold endSize
    rw [hends]
  have hcompressed : endCompressed g=endCompressed f := by
    unfold endCompressed
    rw [hends]
  unfold counters
  simp only [List.length_set,tally_set_same hfile,hfound,hsize,hcompressed]

/-- The counters after one start is counted. -/
theorem counters_start (files : List File) (found : Found) :
    counters (files++[File.new found])=
      (counters files).addStartFile found.metadata.len found.info := by
  unfold counters
  rw [addStartFile_ofSums]
  simp [endSize,endCompressed,File.new]

end Counters

section Ledgers

variable {others : ℕ} {files : List File} {shared after : Shared} {i : ℕ} {f g : File}

/-- While anyone holds the operation the statistics are not sent. -/
theorem Ledger.unsent (h : Ledger others files shared) (hheld : 0<others ∨ 0<tally handle files) :
    shared.sent=none ∧ shared.stats=counters files := by
  rcases h.reported with ⟨hsent,_,hstats⟩|⟨_,hzero⟩
  · exact ⟨hsent,hstats⟩
  · have hhandles := h.handles
    omega

/-- When the statistics are sent nobody holds the operation. -/
theorem Ledger.closed (h : Ledger others files shared) {stats : Stats}
    (hsent : shared.sent=some stats) :
    stats=counters files ∧ others=0 ∧ ∀ f∈files, f.operation=false := by
  rcases h.reported with ⟨hnone,_,_⟩|⟨hsome,hzero⟩
  · rw [hnone] at hsent
    cases hsent
  · have hhandles := h.handles
    have hnobody : tally handle files=0 := by omega
    refine ⟨Option.some.inj (hsent.symm.trans hsome),by omega,fun f hf => ?_⟩
    have hfile := tally_eq_zero_iff.mp hnobody f hf
    unfold handle at hfile
    simpa using hfile

/-- A handle is dropped; the last one sends the counters. -/
theorem Ledger.drop {more : ℕ} (h : Ledger others files shared)
    (hmore : others+tally handle files=more+1) (hcounters : shared.stats=counters files)
    {rest : List File} (hsame : counters rest=counters files) {left : ℕ}
    (hleft : more=left+tally handle rest) : Ledger left rest shared.dropOperation := by
  have hhandles := h.handles
  have hone : shared.sent=none := by
    rcases h.reported with ⟨hnone,_,_⟩|⟨_,hzero⟩
    · exact hnone
    · omega
  unfold Shared.dropOperation
  split
  · next hlast =>
    constructor
    · dsimp only
      omega
    · rw [hsame,←hcounters]
      exact .inr ⟨rfl,rfl⟩
  · next hlast =>
    constructor
    · dsimp only
      omega
    · refine .inl ⟨hone,?_,hcounters.trans hsame.symm⟩
      dsimp only
      omega

/-- Someone outside the files drops a handle. -/
theorem Ledger.dropOther (h : Ledger (others+1) files shared) :
    Ledger others files shared.dropOperation := by
  obtain ⟨_,hstats⟩ := h.unsent (.inl (Nat.succ_pos others))
  exact h.drop (by omega) hstats rfl rfl

/-- Someone outside the files takes a handle while there is one. -/
theorem Ledger.clone (h : Ledger others files shared) (hheld : 0<others) :
    Ledger (others+1) files {shared with operations := shared.operations+1} := by
  have hhandles := h.handles
  obtain ⟨hsent,hstats⟩ := h.unsent (.inl hheld)
  constructor
  · dsimp only
    omega
  · exact .inl ⟨hsent,Nat.succ_pos _,hstats⟩

/-- What does not touch handles and counters keeps the ledger. -/
theorem Ledger.retain (h : Ledger others files shared) (hoperations : after.operations=shared.operations)
    (hstats : after.stats=shared.stats) (hsent : after.sent=shared.sent) :
    Ledger others files after := by
  constructor
  · rw [hoperations]
    exact h.handles
  · rw [hoperations,hstats,hsent]
    exact h.reported

/-- A file that keeps its handle and its ends is replaced. -/
theorem Ledger.setSame (h : Ledger others files shared) (hfile : files[i]?=some f)
    (hfound : g.found=f.found) (hends : g.ends=f.ends) (hoperation : g.operation=f.operation) :
    Ledger others (files.set i g) shared := by
  have hhandle : handle g=handle f := by
    unfold handle
    rw [hoperation]
  constructor
  · rw [tally_set_same hfile hhandle]
    exact h.handles
  · rw [counters_same hfile hfound hends]
    exact h.reported

/-- The end of a file is counted while someone holds the operation. -/
theorem Ledger.setEnd (h : Ledger others files shared) (hfile : files[i]?=some f)
    (hheld : 0<others ∨ f.operation=true) (hfound : g.found=f.found) {info : FileInfo}
    (hends : g.ends=f.ends++[info]) (hoperation : g.operation=f.operation)
    (hafter : after.operations=shared.operations ∧ after.stats=shared.stats.addEndFile info ∧
      after.sent=shared.sent) : Ledger others (files.set i g) after := by
  have hhandle : handle g=handle f := by
    unfold handle
    rw [hoperation]
  have hsome : 0<others ∨ 0<tally handle files := by
    refine hheld.imp_right fun hheld => ?_
    have hle := le_tally handle hfile
    unfold handle at hle
    rw [hheld,Bool.toNat_true] at hle
    exact hle
  have hhandles := h.handles
  obtain ⟨hsent,hstats⟩ := h.unsent hsome
  constructor
  · rw [tally_set_same hfile hhandle,hafter.1]
    exact hhandles
  · rw [counters_end hfile hfound hends]
    refine .inl ⟨hafter.2.2.trans hsent,?_,?_⟩
    · omega
    · rw [hafter.2.1,hstats]

/-- A step of another thread on a file. -/
theorem Ledger.counting (h : Ledger others files shared) (hfile : files[i]?=some f)
    (hfound : g.found=f.found) (hcounting : Counting f shared g after) :
    Ledger others (files.set i g) after := by
  cases hcounting with
  | same hends hoperation hstats hoperations hsent =>
    exact (h.setSame hfile hfound hends hoperation).retain hoperations hstats hsent
  | ended info hheld hends hoperation hstats hoperations hsent =>
    exact h.setEnd hfile (.inr hheld) hfound hends hoperation ⟨hoperations,hstats,hsent⟩
  | closed hheld hends hoperation hshared =>
    subst hshared
    have hset := tally_set handle g hfile
    have hf : handle f=1 := by
      unfold handle
      rw [hheld,Bool.toNat_true]
    have hg : handle g=0 := by
      unfold handle
      rw [hoperation,Bool.toNat_false]
    have hle := le_tally handle hfile
    obtain ⟨_,hstats⟩ := h.unsent (.inr (by omega))
    exact @Ledger.drop _ _ _ (others+tally handle (files.set i g)) h (by omega) hstats _
      (counters_same hfile hfound hends) _ rfl

/-- The scanning thread counts a start. -/
theorem Ledger.start (h : Ledger others files shared) (hheld : 0<others) (found : Found) :
    Ledger others (files++[File.new found])
      {shared with stats := shared.stats.addStartFile found.metadata.len found.info} := by
  have hhandles := h.handles
  obtain ⟨hsent,hstats⟩ := h.unsent (.inl hheld)
  constructor
  · rw [tally_snoc]
    exact hhandles
  · rw [counters_start]
    refine .inl ⟨hsent,?_,?_⟩
    · dsimp only
      omega
    · rw [hstats]

/-- The scanning thread makes the context of a file. -/
theorem Ledger.context (h : Ledger others files shared) (hheld : 0<others)
    (hfile : files[i]?=some f) (hfree : f.operation=false) (hfound : g.found=f.found)
    (hends : g.ends=f.ends) (hoperation : g.operation=true) :
    Ledger others (files.set i g) {shared with operations := shared.operations+1} := by
  have hset := tally_set handle g hfile
  have hf : handle f=0 := by
    unfold handle
    rw [hfree,Bool.toNat_false]
  have hg : handle g=1 := by
    unfold handle
    rw [hoperation,Bool.toNat_true]
  have hhandles := h.handles
  obtain ⟨hsent,hstats⟩ := h.unsent (.inl hheld)
  constructor
  · dsimp only
    omega
  · rw [counters_same hfile hfound hends]
    exact .inl ⟨hsent,Nat.succ_pos _,hstats⟩

end Ledgers

section Steps

variable {config : Config} {s t : State}

/-- The phase after a drain, or of a drain, holds the operation. -/
theorem Conserved.drain (h : Conserved config s) (hholds : holds s.phase=true)
    (resume : Resume) :
    Ledger ((holds (s.drain resume).phase).toNat+(s.drain resume).walkers) (s.drain resume).files
      (s.drain resume).shared := by
  have hledger := h.ledger
  rw [hholds] at hledger
  unfold State.drain
  split
  · cases resume with
    | submit i => exact hledger
    | walk => exact hledger
    | finish => exact hledger
  · exact hledger

/-- A step of the batch moves no handle and no counter. -/
theorem Conserved.batchMoves {limits : BatchLimits} {e : BatchEvent} (h : Conserved config s)
    (hstaging : config.staging=.batched limits) (hmoves : BatchMoves config limits s e t) :
    Ledger ((holds t.phase).toNat+t.walkers) t.files t.shared := by
  have hledger := h.ledger
  have haccounted := h.accounted
  cases hmoves with
  | @granted i f shared hphase hfile hreserve =>
    have hroom := haccounted.solvent.room
    rw [hstaging] at hroom
    rw [hphase] at hledger
    rcases reserveBytes_cases limits.limit_le hroom hreserve with ⟨_,_,rfl⟩|⟨hbad,_⟩
    · have hset := @Ledger.setSame _ _ _ i f (admitFile config limits s.number f) hledger hfile rfl rfl rfl
      exact hset.retain rfl rfl rfl
    · cases hbad
  | @refused i f shared hphase hfile hreserve =>
    have hroom := haccounted.solvent.room
    rw [hstaging] at hroom
    rw [hphase] at hledger
    rcases reserveBytes_cases limits.limit_le hroom hreserve with ⟨hbad,_⟩|⟨_,rfl⟩
    · cases hbad
    · exact @Ledger.setSame _ _ _ i f {f with reader := ⟨.leaving,[.context]⟩} hledger hfile rfl rfl
        rfl
  | @receive i left staged resume f hphase hfile hmessage =>
    rw [hphase] at hledger
    exact @Ledger.setSame _ _ _ i f {f with received := true} hledger hfile rfl rfl rfl
  | collected hphase =>
    rw [hphase] at hledger
    exact hledger
  | @publish i count rest volumes resume f hphase hfile =>
    rw [hphase] at hledger
    exact @Ledger.setSame _ _ _ i f
      {f with staged := [], publisher := ⟨.queued,(Staging.batched limits).published⟩} hledger hfile
      rfl rfl rfl
  | published hphase =>
    rw [hphase] at hledger
    exact hledger
  | acknowledge hphase hsome =>
    rw [hphase] at hledger
    exact hledger.retain rfl rfl rfl
  | acknowledged hphase =>
    rw [hphase] at hledger
    exact hledger
  | flush ok hphase hvolume =>
    rw [hphase] at hledger
    cases ok with
    | true => exact hledger
    | false => exact hledger.retain rfl rfl rfl
  | @drained resume hphase =>
    rw [hphase] at hledger
    cases resume with
    | submit i => exact hledger
    | walk => exact hledger
    | finish => exact hledger

/-- Every step keeps handles and counters. -/
theorem Conserved.moves {e : Event} (h : Conserved config s) (hmoves : Moves config s e t) :
    Conserved config t := by
  refine ⟨h.accounted.moves hmoves,?_⟩
  have hledger := h.ledger
  have hplaced := h.accounted.placed
  cases hmoves with
  | startWalk hphase =>
    rw [hphase] at hledger
    have hclone := hledger.clone (Nat.add_pos_left Nat.one_pos _)
    dsimp only
    rw [hphase]
    exact hclone
  | endWalk hwalkers =>
    have hmore : (holds s.phase).toNat+s.walkers=(holds s.phase).toNat+(s.walkers-1)+1 := by omega
    rw [hmore] at hledger
    exact hledger.dropOther
  | skip blocks hphase hscan => exact hledger
  | countSkipped blocks hphase hscan =>
    rw [hphase] at hledger
    exact hledger.start (Nat.add_pos_left Nat.one_pos _) _
  | countSent blocks hphase hscan =>
    rw [hphase] at hledger
    exact hledger.start (Nat.add_pos_left Nat.one_pos _) _
  | @countEnd i last f hphase hfile =>
    rw [hphase] at hledger
    exact @Ledger.setEnd _ _ _ _ i f {f with reader := ⟨.leaving,[]⟩, ends := f.ends++[last]} hledger
      hfile (.inl (Nat.add_pos_left Nat.one_pos _)) rfl last rfl rfl ⟨rfl,rfl,rfl⟩
  | @makeContext i f hphase hfile =>
    rw [hphase] at hledger hplaced
    obtain ⟨hstage,_⟩ := Considered.of_get hplaced hfile
    have hsound := (h.accounted.solvent.file hfile).1
    have hfree := hsound.admitted.unheld (hsound.admitted.unmade hstage)
    exact @Ledger.context _ _ _ i f
      {f with reader := ⟨.submitting,[.context]⟩, context := .live 1, operation := true} hledger
      (Nat.add_pos_left Nat.one_pos _) hfile hfree rfl rfl rfl
  | @submitBatched i f limits hphase hfile hstaging =>
    have hholds : holds s.phase=true := by rw [hphase]; rfl
    split
    · exact h.drain hholds _
    · rw [hphase] at hledger
      exact hledger
  | @submit i f hphase hfile hplain =>
    rw [hphase] at hledger
    exact @Ledger.setSame _ _ _ i f {f with reader := ⟨.queued,config.staging.item⟩} hledger hfile
      rfl rfl rfl
  | @sendBatched i f limits hphase hfile hstaging =>
    have hholds : holds s.phase=true := by rw [hphase]; rfl
    split
    · exact h.drain hholds _
    · rw [hphase] at hledger
      exact hledger
  | send hphase hplain =>
    rw [hphase] at hledger
    exact hledger
  | finishWalk hphase =>
    have hholds : holds s.phase=true := by rw [hphase]; rfl
    split
    · exact h.drain hholds _
    · rw [hphase] at hledger
      exact hledger
  | dropOperation hphase =>
    rw [hphase] at hledger
    have hmore : (holds .dropping).toNat+s.walkers=0+s.walkers+1 := by simp [holds]; omega
    rw [hmore] at hledger
    exact hledger.dropOther
  | receiveStats hphase hsent =>
    rw [hphase] at hledger
    exact hledger
  | batch hstaging hbatch => exact h.batchMoves hstaging hbatch
  | file hguard hfile hstep =>
    have hkept := h.accounted.kept hfile hstep
    exact hledger.counting hfile hkept.found hkept.counting

/-- Before the scan the scanning thread has the only handle and nothing is counted. -/
theorem conserved_initial (config : Config) (stopped : Bool) :
    Conserved config (.initial stopped) :=
  ⟨accounted_initial config stopped,rfl,.inl ⟨rfl,Nat.one_pos,rfl⟩⟩

/-- Handles and counters are in order in every reachable state. -/
theorem conserved_of_run {stopped : Bool} {trace : List (State×Event)}
    (h : Run (step config) (.initial stopped) trace s) : Conserved config s :=
  h.invariant (conserved_initial config stopped) fun hold hstep => hold.moves (moves_of_step hstep)

end Steps

section Results

variable {config : Config} {s t : State} {stats : Stats}

/-- The end of a file without a handle of the operation is counted once. -/
theorem ended_of_free {staging : Staging} {f : File} (h : Sound staging f)
    (hconsidered : f.reader.stage≠.considered) (hfree : f.operation=false) :
    ∃ info, f.ends=[info] := by
  have hpending : ¬f.context.Pending := by
    intro hpending
    have hheld := h.admitted.operation hpending
    rw [hfree] at hheld
    cases hheld
  have hnobody : ∀ role, (f.thread role).stage.isCounting=false := by
    intro role
    cases hstage : (f.thread role).stage with
    | counting => exact absurd (h.reporting_context (.inr hstage)).1 hpending
    | _ => rfl
  have hcounting : f.counting=0 := by
    have hreader := hnobody .reader
    have hwriter := hnobody .writer
    have hpublisher := hnobody .publisher
    unfold File.thread at hreader hwriter hpublisher
    unfold File.counting
    rw [hreader,hwriter,hpublisher]
    rfl
  have hunreported : f.unreported=0 := by
    unfold File.unreported
    rw [if_neg hconsidered,if_neg fun hbad => hpending hbad.1]
  have hends := h.once.ends
  rw [hcounting,hunreported] at hends
  exact List.length_eq_one_iff.mp hends

/-- When the statistics are sent, every end is counted and they are the counters. -/
theorem Conserved.counted (h : Conserved config s) (hsent : s.shared.sent=some stats) :
    (∀ f∈s.files, ∃ info, f.ends=[info]) ∧ stats=counters s.files := by
  obtain ⟨hstats,hothers,hfree⟩ := h.ledger.closed hsent
  have hdone : holds s.phase=false := by
    cases hholds : holds s.phase with
    | false => rfl
    | true =>
      rw [hholds,Bool.toNat_true] at hothers
      omega
  refine ⟨fun f hf => ?_,hstats⟩
  refine ended_of_free (h.accounted.solvent.each f hf).1 (fun hstage => ?_) (hfree f hf)
  obtain ⟨i,hi⟩ := List.mem_iff_getElem?.mp hf
  have hconsiders := h.accounted.alone i f hi hstage
  cases hphase : s.phase with
  | ending j last =>
    rw [hphase] at hdone
    cases hdone
  | admitting j =>
    rw [hphase] at hdone
    cases hdone
  | _ =>
    rw [hphase] at hconsiders
    exact hconsiders

/-- A step of the batch is made with the handle of the scanning thread. -/
theorem holds_of_batch {limits : BatchLimits} {e : BatchEvent}
    (h : BatchMoves config limits s e t) : holds s.phase=true := by
  cases h <;> simp only [holds, *]

/-- After the statistics are sent nothing is counted and they stay. -/
theorem Conserved.frozen {e : Event} (h : Conserved config s) (hsent : s.shared.sent=some stats)
    (hmoves : Moves config s e t) :
    t.shared.sent=some stats ∧ t.files.map (fun f => (f.found,f.ends))=
      s.files.map fun f => (f.found,f.ends) := by
  obtain ⟨_,hothers,hfree⟩ := h.ledger.closed hsent
  have hdone : holds s.phase≠true := by
    intro hholds
    rw [hholds,Bool.toNat_true] at hothers
    omega
  cases hmoves with
  | endWalk hwalkers => omega
  | skip blocks hphase hscan => exact ⟨hsent,rfl⟩
  | receiveStats hphase hstats => exact ⟨hsent,rfl⟩
  | batch hstaging hbatch => exact absurd (holds_of_batch hbatch) hdone
  | file hguard hfile hstep =>
    have hkept := h.accounted.kept hfile hstep
    have hoperation := hfree _ (List.mem_of_getElem? hfile)
    cases hkept.counting with
    | same hends _ _ _ hsame =>
      refine ⟨hsame.trans hsent,map_set_same hfile ?_⟩
      rw [hkept.found,hends]
    | ended info hheld =>
      rw [hoperation] at hheld
      cases hheld
    | closed hheld =>
      rw [hoperation] at hheld
      cases hheld
  | _ =>
    refine absurd ?_ hdone
    simp only [holds, *]

/-- A drain does not end the scan. -/
theorem drain_phase (s : State) (resume : Resume) (stats : Stats) :
    (s.drain resume).phase≠.finished stats := by
  unfold State.drain
  split
  · cases resume <;> nofun
  · nofun

/-- The scan returns with what was sent. -/
theorem returns {e : Event} (hmoves : Moves config s e t) (hphase : t.phase=.finished stats) :
    s.phase=.finished stats ∨ t.shared.sent=some stats := by
  cases hmoves with
  | endWalk hwalkers => exact .inl hphase
  | startWalk hold => exact .inl hphase
  | skip blocks hold hscan => exact .inl hphase
  | file hguard hfile hstep => exact .inl hphase
  | receiveStats hold hsent =>
    obtain rfl := Phase.finished.inj hphase
    exact .inr hsent
  | submitBatched hold hfile hstaging =>
    split at hphase
    · exact absurd hphase (drain_phase _ _ _)
    · cases hphase
  | sendBatched hold hfile hstaging =>
    split at hphase
    · exact absurd hphase (drain_phase _ _ _)
    · cases hphase
  | finishWalk hold =>
    split at hphase
    · exact absurd hphase (drain_phase _ _ _)
    · cases hphase
  | batch hstaging hbatch =>
    cases hbatch with
    | @drained resume hold => cases resume <;> cases hphase
    | _ => cases hphase
  | _ => cases hphase

/-- The statistics a scan returns are those that were sent. -/
theorem returned_of_run {stopped : Bool} {trace : List (State×Event)}
    (h : Run (step config) (.initial stopped) trace s) :
    ∀ stats, s.phase=.finished stats → s.shared.sent=some stats := by
  induction h with
  | nil => exact fun stats hphase => nomatch hphase
  | @snoc a b trace e run last ih =>
    intro stats hphase
    have hconserved := conserved_of_run run
    have hmoves := moves_of_step last
    rcases returns hmoves hphase with hold|hsent
    · exact (hconserved.frozen (ih stats hold) hmoves).1
    · exact hsent

/-- In every scan no assertion fails, no end is counted twice, the statistics are sent when the
end of every counted file is counted and show the sums over these files, nothing is counted
afterwards, and they are what the scan returns. -/
theorem stats_conserved (config : Config) (stopped : Bool) {trace : List (State×Event)}
    (h : Run (step config) (.initial stopped) trace s) :
    s.shared.fault=none ∧ (∀ f∈s.files, f.ends.length≤1) ∧
      (∀ stats, s.shared.sent=some stats →
        (∀ f∈s.files, ∃ info, f.ends=[info]) ∧ stats=counters s.files ∧
          ∀ e t, step config s e=some t → t.shared.sent=some stats ∧
            t.files.map (fun f => (f.found,f.ends))=s.files.map fun f => (f.found,f.ends)) ∧
      ∀ stats, s.phase=.finished stats → s.shared.sent=some stats := by
  have hconserved := conserved_of_run h
  refine ⟨hconserved.accounted.solvent.fault,fun f hf => ?_,fun stats hsent => ?_,returned_of_run h⟩
  · have hends := (hconserved.accounted.solvent.each f hf).1.once.ends
    omega
  · obtain ⟨hends,hstats⟩ := hconserved.counted hsent
    exact ⟨hends,hstats,fun e t hstep => hconserved.frozen hsent (moves_of_step hstep)⟩

/-- One empty file is decompressed in place, and its end is counted by the writer. -/
def emptyFileEvents : List Event :=
  [.startWalk,.consider emptyEntry 0,.makeContext,.submit,.send,.finishWalk,.file 0 .takeRead,
    .endWalk,.file 0 (.openFile true),.file 0 .hand,.file 0 .takeWrite,.dropOperation,
    .file 0 .finishReading,.file 0 (.write true),.file 0 (.drop .reader),
    .file 0 (.report .writer true),.file 0 (.count .writer ⟨0,.compressible⟩),
    .file 0 (.drop .writer),.file 0 .dropContext,.file 0 .dropOperation,.receiveStats]

/-- The scan of one empty file returns that it was counted at both ends. -/
theorem stats_conserved_empty_file : ∃ trace s stats,
    Run (step ⟨.decompressByReading,.direct,1,1⟩) (.initial false) trace s ∧
      s.phase=.finished stats ∧ stats.files=1 ∧ s.shared.sent=some stats :=
  ⟨_,_,_,@run_of_replay _ _ (step ⟨.decompressByReading,.direct,1,1⟩) (.initial false) _
      emptyFileEvents _ rfl,rfl,rfl,
    (stats_conserved ⟨.decompressByReading,.direct,1,1⟩ false
      (@run_of_replay _ _ (step ⟨.decompressByReading,.direct,1,1⟩) (.initial false) _
        emptyFileEvents _ rfl)).2.2.2 _ rfl⟩

end Results

end Applesauce.ScanStatistics
