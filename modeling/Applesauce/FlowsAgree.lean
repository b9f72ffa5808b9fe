import Applesauce.SafeReplacement

/-!
# Staged and direct compression agree

The writer decides the attribute value and the fork from the size of the file
and its blocks alone. Whatever sink it wrote to, and however the payload was
copied afterwards, two conversions of the same blocks put the same attribute
and the same fork in place, or no fork in both.
-/

namespace Applesauce.FlowsAgree

open RustIo SeekableFile BufferedSink DecmpfsValue DecmpfsWriter ScratchPayload ForkDevice
open PayloadCopy SourceGuard StagedOutput Publication CompleteFile SafeReplacement LawfulRawSink

/-- The scan found the file compressible. -/
def FoundCompressible (inode : Inode) : Prop :=
  ∃ supported forkFailure decmpfsFailure,
    getCompressionState supported forkFailure decmpfsFailure inode=.compressible

/-- A file that was found compressible brings no resource fork. -/
theorem shown_of_compressible {inode : Inode} (h : FoundCompressible inode) :
    shown inode inode.resourceFork=none := by
  obtain ⟨_,_,_,hstate⟩ := h
  rw [(compressible_inode hstate).2.2.1,shown]
  exact ite_self none

/-- The original of a flow is the one of the scan: it was found compressible. -/
def FromScan (w₀ : World) (job : Job) : Flow→Prop
  | .direct original _ => FoundCompressible original
  | .scratch _ file _ => ∀ original, OpenedFrom w₀ job file original → FoundCompressible original

/-- The file that replaced the path in a run. -/
def Replacement (w₀ w : World) (tmp : TempFile) : Prop :=
  ∃ calls, w.calls=w₀.calls++calls ∧ Call.persisted tmp∈calls

/-- Finishing a compressed file is quiet. -/
theorem finishCompressedCalls_quiet (job : Job) :
    (finishCompressedCalls job).all Call.quiet=true := all_quiet_append rfl (verifyCalls_quiet job)

/-- Finishing an uncompressed file is quiet. -/
theorem finishUncompressedCalls_quiet (job : Job) :
    (finishUncompressedCalls job).all Call.quiet=true := all_quiet_append rfl (verifyCalls_quiet job)

/-- Everything before the guard is quiet. -/
theorem prepared_quiet {w₀ : World} {job : Job} {delivery : Delivery} {original : Inode}
    {calls : List Call} {flow : Flow} (h : Prepared w₀ job delivery original calls flow) :
    calls.all Call.quiet=true := by
  cases flow with
  | direct file fresh =>
    obtain ⟨_,rfl⟩ := h
    cases job.mode.isCompressing with
    | true => exact all_quiet_append rfl (finishCompressedCalls_quiet job)
    | false => exact all_quiet_append rfl (finishUncompressedCalls_quiet job)
  | scratch scratch file publisher =>
    obtain ⟨item,_,_,rfl⟩ := h
    have hcopy : (copyCalls item.file original item.payload.len).all Call.quiet=true :=
      all_quiet_append (all_quiet_append rfl (openCalls_quiet item.file original)) rfl
    refine all_quiet_append rfl (all_quiet_append hcopy ?_)
    cases item.contents with
    | compressed value => exact finishCompressedCalls_quiet job
    | uncompressed => exact finishUncompressedCalls_quiet job

/-- No replacement is among quiet calls. -/
theorem not_persisted_of_quiet {calls : List Call} {tmp : TempFile}
    (h : calls.all Call.quiet=true) : Call.persisted tmp∉calls := by
  intro hmem
  have hquiet := List.all_eq_true.mp h _ hmem
  cases hquiet

/-- A conversion replaces the path once, by a complete file. -/
theorem converted_replacement {w₀ w : World} {job : Job} {delivery : Delivery} {flow : Flow}
    {tmp : TempFile} (h : Converted w₀ job delivery flow w) (htmp : Replacement w₀ w tmp) :
    ∃ original calls, Prepared w₀ job delivery original calls flow ∧
      Complete job delivery original tmp := by
  obtain ⟨original,calls,last,v,hprepared,_,hcomplete,hreplaced,rfl⟩ := h
  obtain ⟨u,first,inode,_,_,_,hafter,_,hcalls,_⟩ := hreplaced
  obtain ⟨run,hrun,hmem⟩ := htmp
  have hall : run=calls++[.checkedSource first,.checkedWriters,.checkedSource inode.metadata]++
      [.persisted last,.resetTimes,.reportedConverted] := by
    refine @List.append_cancel_left _ w₀.calls _ _ ?_
    rw [←hrun]
    change v.calls++[Call.reportedConverted]=_
    rw [hcalls,hafter.calls]
    simp only [List.append_assoc,List.cons_append,List.nil_append]
  have hquiet := all_quiet_append (prepared_quiet hprepared) (rfl : [Call.checkedSource first,
    Call.checkedWriters,Call.checkedSource inode.metadata].all Call.quiet=true)
  rw [hall] at hmem
  have hlast : Call.persisted tmp∈[Call.persisted last,Call.resetTimes,Call.reportedConverted] :=
    (List.mem_append.mp hmem).resolve_left (not_persisted_of_quiet hquiet)
  have heq : tmp=last := by
    rcases List.mem_cons.mp hlast with hone|hrest
    · exact Call.persisted.inj hone
    · rcases List.mem_cons.mp hrest with htwo|hrest
      · cases htwo
      · cases List.mem_singleton.mp hrest
  subst heq
  exact ⟨original,calls,hprepared,hcomplete⟩

/-- A compression that replaced the path left an outcome of the writer. -/
theorem replacement_outcome {w₀ w : World} {job : Job} {kind : Kind} {delivery : Delivery}
    {flow : Flow} {tmp : TempFile} {u : Unit} (hmode : job.mode=.compress kind)
    (hscan : FromScan w₀ job flow) (hrun : flow.run job delivery w₀=.ok u w)
    (htmp : Replacement w₀ w tmp) :
    ∃ value, tmp.decmpfs=some value ∧
      Outcome kind job.original.len (countedBlocks job.original.len delivery.blocks) value
        tmp.fork.content := by
  have hend : Untouched w₀ w ∨ Converted w₀ job delivery flow w := by
    cases flow with
    | direct original fresh =>
      exact (handleDirect_after w₀ job delivery original fresh).ok (After.refl w₀) hrun
    | scratch scratch file publisher =>
      exact (handleScratch_after w₀ job delivery scratch file publisher).ok (After.refl w₀) hrun
  rcases hend with ⟨calls,hafter,hquiet⟩|hconverted
  · obtain ⟨run,hcalls,hmem⟩ := htmp
    rw [hafter.calls] at hcalls
    rw [←List.append_cancel_left hcalls] at hmem
    exact (not_persisted_of_quiet hquiet hmem).elim
  · obtain ⟨original,calls,hprepared,hcomplete⟩ := converted_replacement hconverted htmp
    unfold Complete at hcomplete
    rw [hmode] at hcomplete
    refine hcomplete (shown_of_compressible ?_)
    cases flow with
    | direct file fresh =>
      obtain ⟨rfl,_⟩ := hprepared
      exact hscan
    | scratch scratch file publisher =>
      obtain ⟨item,_,hopen,_⟩ := hprepared
      exact hscan original hopen

/-- Any two conversions of the same blocks, direct or staged, in memory or on
disk, batched or not, with any partial writes and any copy buffer, agree on the
attribute value and on the resource fork, absent in both or the same in both.
The copy itself is exact for every destination that accepts writes in parts. -/
theorem conversions_agree (job : Job) (kind : Kind) (delivery : Delivery) (flow flow' : Flow)
    (w₀ v₀ w v : World) (u u' : Unit) (tmp tmp' : TempFile) (hmode : job.mode=.compress kind)
    (hscan : FromScan w₀ job flow) (hscan' : FromScan v₀ job flow')
    (hrun : flow.run job delivery w₀=.ok u w) (hrun' : flow'.run job delivery v₀=.ok u' v)
    (htmp : Replacement w₀ w tmp) (htmp' : Replacement v₀ v tmp') :
    (tmp.decmpfs=tmp'.decmpfs ∧ tmp.fork.content=tmp'.fork.content ∧
      ∃ value, tmp.decmpfs=some value ∧
        Outcome kind job.original.len (countedBlocks job.original.len delivery.blocks) value
          tmp.fork.content) ∧
    ∀ (σ : Type) [RawSink σ] [LawfulRawSink σ] (size copied : ℕ) (source rest : Source)
      (dst last : σ), copyPayload size (source,dst)=.ok copied (rest,last) →
        copied=source.rest.length → file last=(file dst).write source.rest := by
  obtain ⟨value,hvalue,houtcome⟩ := replacement_outcome hmode hscan hrun htmp
  obtain ⟨value',hvalue',houtcome'⟩ := replacement_outcome hmode hscan' hrun' htmp'
  obtain ⟨hsame,hfork⟩ := houtcome.unique houtcome'
  refine ⟨⟨?_,hfork,value,hvalue,houtcome⟩,?_⟩
  · rw [hvalue,hvalue',hsame]
  · intro σ _ _ size copied source rest dst last hcopy hall
    exact copyPayload_complete hcopy hall

/-- The direct conversion of the same file. -/
def directFlow : Flow := .direct ⟨twoBlockMetadata,[],none,none⟩ ⟨twoBlockMetadata,[],[]⟩

/-- What both conversions leave, up to the position of the fork. -/
def twoBlockFile (position : ℕ) (h : position≤u32Max) : TempFile :=
  ⟨twoBlockMetadata,⟨.empty,[]⟩,⟨some [12,0,0,0,14,0,0,0,16,0,0,0,6,1,6,2],position,[],h⟩,
    some [102,112,109,99,8,0,0,0,1,0,1,0,0,0,0,0],0x20⟩

/-- The direct and the batched conversion of two blocks. -/
theorem conversions_agree_two_blocks :
    (twoBlockFile 12 (by decide)).decmpfs=(twoBlockFile 16 (by decide)).decmpfs ∧
      (twoBlockFile 12 (by decide)).fork.content=(twoBlockFile 16 (by decide)).fork.content := by
  have hscan : FromScan calmWorld twoBlockJob batchedFlow := by
    intro original hopen
    obtain ⟨_,turns,rest,hturns,hinode⟩ := hopen
    obtain ⟨rfl,rfl⟩ := List.append_eq_nil_iff.mp hturns.symm
    cases hinode
    exact ⟨.ok true,none,none,rfl⟩
  have hagree := conversions_agree twoBlockJob .lzvn twoBlockDelivery directFlow batchedFlow
    calmWorld calmWorld _ _ () () (twoBlockFile 12 (by decide)) (twoBlockFile 16 (by decide)) rfl
    ⟨.ok true,none,none,rfl⟩ hscan rfl rfl ⟨_,rfl,by decide⟩ ⟨_,rfl,by decide⟩
  exact ⟨hagree.1.1,hagree.1.2.1⟩

end Applesauce.FlowsAgree
