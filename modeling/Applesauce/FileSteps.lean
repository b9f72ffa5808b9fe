import Applesauce.FileInvariant

/-!
# Every step on a file keeps its invariant

The steps are grouped by what they change: only the stage of one thread, a
share that goes on to the next thread, a handle of the context, a report, or
something a leaving thread drops.
-/

namespace Applesauce.FileThreads

open RustIo SharedHandles Statistics ScratchBudget
open Publication (Mode)

variable {staging : Staging} {config : Config} {f : File} {s t : Shared}

section Accounts

/-- A truth value that implies another is no larger. -/
theorem toNat_le_of_imp {a b : Bool} (h : a=true → b=true) : a.toNat≤b.toNat := by
  cases a with
  | false => exact Nat.zero_le _
  | true => rw [h rfl]

/-- A context with a handle is not destroyed. -/
theorem pending_of_counts {a : Arc} {held : ℕ} (h : a.Counts held) (hheld : 0<held) : a.Pending := by
  rw [h.live hheld]
  exact ⟨nofun,nofun⟩

/-- A file of which no end was counted and no report began is still counted once. -/
theorem CountedOnce.keep {g : File} (h : CountedOnce f) (hreporters : g.reporters≤f.reporters)
    (hcounting : g.counting=f.counting) (hends : g.ends=f.ends) (hreported : g.reported=f.reported)
    (hconsidered : g.reader.stage=.considered ↔ f.reader.stage=.considered)
    (hpending : g.context.Pending ↔ f.context.Pending) : CountedOnce g := by
  refine ⟨?_,?_⟩
  · have hold := h.reporters
    rw [hreported]
    omega
  · have hsame : g.unreported=f.unreported := by
      unfold File.unreported
      simp only [hconsidered,hpending,hreported]
    rw [hends,hcounting,hsame]
    exact h.ends

/-- A reader neither reports nor counts. -/
theorem ReaderOwns.silent {thread : Thread} (h : ReaderOwns staging thread)
    (hstage : thread.stage=.reporting ∨ thread.stage=.counting) : False := by
  unfold ReaderOwns at h
  rcases hstage with hstage|hstage
  · rw [hstage] at h
    exact h
  · rw [hstage] at h
    exact h

/-- The reader is never at the stage of a report. -/
theorem ReaderOwns.not_counting {thread : Thread} (h : ReaderOwns staging thread) :
    thread.stage.isCounting=false := by
  cases hstage : thread.stage with
  | counting => exact (h.silent (.inr hstage)).elim
  | _ => rfl

/-- Every list that a thread is sent or keeps has one handle of the context. -/
theorem Staging.count_context (staging : Staging) :
    staging.item.count .context=1 ∧ staging.reserved.count .context=1 ∧
      staging.kept.count .context=1 ∧ staging.handed.count .context=1 := by
  cases staging with
  | direct => exact ⟨rfl,rfl,rfl,rfl⟩
  | scratch limit h => exact ⟨rfl,rfl,rfl,rfl⟩
  | batched limits => exact ⟨rfl,rfl,rfl,rfl⟩

/-- The reservation goes on to the writer. -/
theorem Staging.count_reservation (staging : Staging) :
    staging.kept.count .reservation=0 ∧
      staging.handed.count .reservation=staging.reserved.count .reservation := by
  cases staging with
  | direct => exact ⟨rfl,rfl⟩
  | scratch limit h => exact ⟨rfl,rfl⟩
  | batched limits => exact ⟨rfl,rfl⟩

/-- A file that the reader has to itself is nowhere else. -/
theorem Sound.alone (h : Sound staging f) (hearly : f.reader.stage.early=true) :
    f.writer=⟨.absent,[]⟩ ∧ f.staged=[] ∧ f.publisher=⟨.absent,[]⟩ := by
  have hwriter := h.inOrder.unsent hearly
  have hrest := h.inOrder.unstaged (by rw [hwriter]; nofun) (by rw [hwriter]; nofun)
  exact ⟨hwriter,hrest.1,hrest.2⟩

/-- What exists of such a file is what the reader owns. -/
theorem Sound.holders_alone (h : Sound staging f) (hearly : f.reader.stage.early=true)
    (o : Owned) : f.holders o=f.reader.owned.count o := by
  obtain ⟨hwriter,hstaged,hpublisher⟩ := h.alone hearly
  unfold File.holders
  rw [hwriter,hstaged,hpublisher]
  rfl

/-- The number of reporters when every thread may report no more than before. -/
theorem reporters_le {g : File} (hreader : g.reader.stage.early=true → f.reader.stage.early=true)
    (hwriter : g.writer.stage.mayReport=true → f.writer.stage.mayReport=true)
    (hstaged : g.staged=f.staged)
    (hpublisher : g.publisher.stage.mayReport=true → f.publisher.stage.mayReport=true) :
    g.reporters≤f.reporters := by
  unfold File.reporters
  rw [hstaged]
  have h₁ := toNat_le_of_imp hreader
  have h₂ := toNat_le_of_imp hwriter
  have h₃ := toNat_le_of_imp hpublisher
  omega

/-- The number of counting threads when none has begun or ended. -/
theorem counting_eq {g : File} (hreader : g.reader.stage.isCounting=f.reader.stage.isCounting)
    (hwriter : g.writer.stage.isCounting=f.writer.stage.isCounting)
    (hpublisher : g.publisher.stage.isCounting=f.publisher.stage.isCounting) :
    g.counting=f.counting := by
  unfold File.counting
  rw [hreader,hwriter,hpublisher]

/-- Admission does not depend on what the threads own. -/
theorem Admitted.keep {batched : Bool} {g : File} (h : Admitted batched f)
    (hbatch : g.batch=f.batch) (hcompletion : g.completion=f.completion)
    (hreceived : g.received=f.received) (hreservation : g.reservation=f.reservation)
    (hunmade : g.reader.stage=.considered → g.context=.unmade)
    (hoperation : g.context.Pending → g.operation=true)
    (hunheld : g.context=.unmade → g.operation=false) : Admitted batched g := by
  refine ⟨?_,?_,?_,?_,hunmade,hoperation,hunheld⟩
  · rw [hbatch,hcompletion]
    exact h.batch
  · rw [hreceived,hcompletion]
    exact h.received
  · rw [hbatch,hreservation]
    exact h.reservation
  · rw [hbatch]
    exact h.plain

end Accounts

section Moves

/-- A reader goes on to a stage at which it owns the same. -/
theorem Sound.moveReader (h : Sound staging f) {stage : Stage}
    (howns : ReaderOwns staging ⟨stage,f.reader.owned⟩)
    (hearly : stage.early=true → f.reader.stage.early=true)
    (hold : f.reader.stage≠.considered) (hnew : stage≠.considered) :
    Sound staging {f with reader := ⟨stage,f.reader.owned⟩} where
  reader := howns
  writer := h.writer
  publisher := h.publisher
  readerOrderly := h.readerOrderly
  writerOrderly := h.writerOrderly
  publisherOrderly := h.publisherOrderly
  balanced := ⟨h.balanced.context,h.balanced.completion,h.balanced.reservation⟩
  inOrder :=
    ⟨fun hnow => h.inOrder.unsent (hearly hnow),h.inOrder.unstaged,h.inOrder.staged,
      h.inOrder.sending⟩
  once :=
    h.once.keep (reporters_le hearly id rfl id)
      (counting_eq (howns.not_counting.trans h.reader.not_counting.symm) rfl rfl) rfl rfl
      (iff_of_false hnew hold) Iff.rfl
  admitted :=
    h.admitted.keep rfl rfl rfl rfl (fun hnow => absurd hnow hnew) h.admitted.operation
      h.admitted.unheld

/-- A writer returns and still owns the same. -/
theorem Sound.leaveWriter (h : Sound staging f) (hold : f.writer.stage≠.absent)
    (hcounting : f.writer.stage.isCounting=false) :
    Sound staging {f with writer := ⟨.leaving,f.writer.owned⟩} where
  reader := h.reader
  writer := trivial
  publisher := h.publisher
  readerOrderly := h.readerOrderly
  writerOrderly := h.writerOrderly
  publisherOrderly := h.publisherOrderly
  balanced := ⟨h.balanced.context,h.balanced.completion,h.balanced.reservation⟩
  inOrder := by
    refine ⟨fun hearly => ?_,fun _ hleaving => absurd rfl hleaving,h.inOrder.staged,nofun⟩
    have hwriter := h.inOrder.unsent hearly
    rw [hwriter] at hold
    exact absurd rfl hold
  once :=
    h.once.keep (reporters_le id nofun rfl id)
      (counting_eq rfl hcounting.symm rfl)
      rfl rfl Iff.rfl Iff.rfl
  admitted :=
    h.admitted.keep rfl rfl rfl rfl h.admitted.unmade h.admitted.operation h.admitted.unheld

/-- A file that a publisher has is not staged any more. -/
theorem Sound.staged_of_publisher (h : Sound staging f) (hpresent : f.publisher.stage≠.absent) :
    f.publisher≠⟨.absent,[]⟩ ∧ f.staged=[] := by
  have hpublisher : f.publisher≠⟨.absent,[]⟩ := by
    intro heq
    rw [heq] at hpresent
    exact hpresent rfl
  refine ⟨hpublisher,?_⟩
  rcases h.inOrder.staged with hnil|⟨_,_,habsent⟩
  · exact hnil
  · exact absurd habsent hpublisher

/-- A publisher goes on to a stage at which it owns the same. -/
theorem Sound.movePublisher (h : Sound staging f) {stage : Stage} {payload : Payload}
    (howns : PublisherOwns staging payload ⟨stage,f.publisher.owned⟩)
    (hmay : stage.mayReport=true → f.publisher.stage.mayReport=true)
    (hold : f.publisher.stage≠.absent) (hcounting : f.publisher.stage.isCounting=false)
    (hnew : stage.isCounting=false) :
    Sound staging {f with payload := payload, publisher := ⟨stage,f.publisher.owned⟩} := by
  obtain ⟨hpresent,hstaged⟩ := h.staged_of_publisher hold
  exact {
    reader := h.reader
    writer := h.writer
    publisher := howns
    readerOrderly := h.readerOrderly
    writerOrderly := h.writerOrderly
    publisherOrderly := h.publisherOrderly
    balanced := ⟨h.balanced.context,h.balanced.completion,h.balanced.reservation⟩
    inOrder := ⟨h.inOrder.unsent,fun hsending hleaving =>
      absurd (h.inOrder.unstaged hsending hleaving).2 hpresent,Or.inl hstaged,h.inOrder.sending⟩
    once := h.once.keep (reporters_le id id rfl hmay)
      (counting_eq rfl rfl (hnew.trans hcounting.symm))
      rfl rfl Iff.rfl Iff.rfl
    admitted :=
      h.admitted.keep rfl rfl rfl rfl h.admitted.unmade h.admitted.operation h.admitted.unheld }

/-- A step that leaves the threads and the staged file alone. -/
theorem Sound.sameThreads {g : File} (h : Sound staging f)
    (hthreads : g.reader=f.reader ∧ g.writer=f.writer ∧ g.publisher=f.publisher)
    (hstaged : g.staged=f.staged ∧ g.payload=f.payload) (hbalanced : Balanced g)
    (honce : CountedOnce g) (hadmitted : Admitted staging.isBatched g) : Sound staging g := by
  obtain ⟨hreader,hwriter,hpublisher⟩ := hthreads
  obtain ⟨hitems,hpayload⟩ := hstaged
  refine ⟨?_,?_,?_,?_,?_,?_,hbalanced,⟨?_,?_,?_,?_⟩,honce,hadmitted⟩
  · rw [hreader]
    exact h.reader
  · rw [hwriter]
    exact h.writer
  · rw [hpayload,hpublisher]
    exact h.publisher
  · rw [hreader]
    exact h.readerOrderly
  · rw [hwriter]
    exact h.writerOrderly
  · rw [hpublisher]
    exact h.publisherOrderly
  · rw [hreader,hwriter]
    exact h.inOrder.unsent
  · rw [hwriter,hitems,hpublisher]
    exact h.inOrder.unstaged
  · rw [hitems,hpayload,hpublisher]
    exact h.inOrder.staged
  · rw [hwriter,hitems]
    exact h.inOrder.sending

/-- The context gets or loses handles and is not destroyed. -/
theorem Sound.setContext (h : Sound staging f) {context : Arc} {jobs blocks : ℕ}
    (hcounts : context.Counts (f.holders .context+jobs)) (hold : f.context.Pending)
    (hnew : context.Pending) :
    Sound staging {f with blocks := blocks, jobs := jobs, context := context} :=
  h.sameThreads ⟨rfl,rfl,rfl⟩ ⟨rfl,rfl⟩ ⟨hcounts,h.balanced.completion,h.balanced.reservation⟩
    (h.once.keep (Nat.le_refl _) rfl rfl rfl Iff.rfl (iff_of_true hnew hold))
    (h.admitted.keep rfl rfl rfl rfl (fun hnow => absurd (h.admitted.unmade hnow) hold.1)
      (fun _ => h.admitted.operation hold) (fun hnow => absurd hnow hnew.1))

end Moves

section Handing

/-- The completion guard is cloned for the writer in a batch. -/
theorem Staging.cloneCompletion_counts (staging : Staging) {completion : Arc}
    (h : completion.Counts (staging.reserved.count .completion)) :
    (staging.cloneCompletion completion).Counts
      (staging.kept.count .completion+staging.handed.count .completion) := by
  cases staging with
  | direct => exact h
  | scratch limit hlimit => exact h
  | batched limits => exact h.clone Nat.one_pos

/-- Cloning neither makes nor drops a completion guard. -/
theorem Staging.cloneCompletion_eq_iff (staging : Staging) {completion : Arc} (other : Arc)
    (hlive : ∀ handles, other≠.live handles) :
    staging.cloneCompletion completion=other ↔ completion=other := by
  cases staging with
  | direct => exact Iff.rfl
  | scratch limit hlimit => exact Iff.rfl
  | batched limits =>
    cases completion with
    | live handles => exact ⟨fun h => absurd h.symm (hlive _),fun h => absurd h.symm (hlive _)⟩
    | unmade => exact Iff.rfl
    | dropping => exact Iff.rfl
    | dropped => exact Iff.rfl

/-- What a reader owns when it hands the file on. -/
theorem Sound.handing_owned (h : Sound staging f) (hstage : f.reader.stage=.handing) :
    f.reader.owned=staging.reserved := by
  have hreader := h.reader
  unfold ReaderOwns at hreader
  rw [hstage] at hreader
  exact hreader

/-- A reader hands the file to the writers. -/
theorem Sound.hand (h : Sound staging f) (hstage : f.reader.stage=.handing) :
    Sound staging {f with
      reader := ⟨.reading,staging.kept⟩
      writer := ⟨.queued,staging.handed⟩
      context := f.context.clone
      completion := staging.cloneCompletion f.completion} := by
  have hearly : f.reader.stage.early=true := by rw [hstage]; rfl
  obtain ⟨hwriter,hstaged,hpublisher⟩ := h.alone hearly
  have hholders := h.holders_alone hearly
  rw [h.handing_owned hstage] at hholders
  obtain ⟨_,hreserved,hkept,hhanded⟩ := staging.count_context
  obtain ⟨hkeptNone,hmoved⟩ := staging.count_reservation
  have hcontext := h.balanced.context
  rw [hholders,hreserved] at hcontext
  have hcompletion := h.balanced.completion
  rw [hholders] at hcompletion
  have hpending := pending_of_counts hcontext (by omega)
  have hcloned := hcontext.clone (by omega)
  have hstill := pending_of_counts hcloned (Nat.succ_pos _)
  have hnew : ∀ o, staging.kept.count o+staging.handed.count o+f.staged.count o+
      f.publisher.owned.count o=staging.kept.count o+staging.handed.count o := by
    intro o
    rw [hstaged,hpublisher]
    rfl
  exact {
    reader := rfl
    writer := rfl
    publisher := h.publisher
    readerOrderly := staging.orderly (by simp [Staging.lists])
    writerOrderly := staging.orderly (by simp [Staging.lists])
    publisherOrderly := h.publisherOrderly
    balanced := by
      refine ⟨hcloned.of_eq ?_,?_,?_⟩
      · have hcount := hnew .context
        unfold File.holders
        dsimp only
        omega
      · exact (staging.cloneCompletion_counts hcompletion).of_eq (hnew .completion).symm
      · have hcount := hnew .reservation
        have hold := h.balanced.reservation
        have hwas := hholders .reservation
        unfold File.holders
        dsimp only
        omega
    inOrder := ⟨(fun hbad => by cases hbad),fun _ _ => ⟨hstaged,hpublisher⟩,h.inOrder.staged,by simp⟩
    once := by
      refine h.once.keep ?_ ?_ rfl rfl (iff_of_false (by simp) (by rw [hstage]; simp))
        (iff_of_true hstill hpending)
      · unfold File.reporters
        dsimp only
        rw [hearly,hwriter]
        exact Nat.le_refl _
      · exact counting_eq h.reader.not_counting.symm (by rw [hwriter]; rfl) rfl
    admitted := by
      refine ⟨?_,fun hreceived => ?_,h.admitted.reservation,h.admitted.plain,(by simp),
        fun _ => h.admitted.operation hpending,fun hnow => absurd hnow hstill.1⟩
      · rw [ne_eq,staging.cloneCompletion_eq_iff .unmade (fun _ => by simp)]
        exact h.admitted.batch
      · rw [staging.cloneCompletion_eq_iff .dropped (fun _ => by simp)]
        exact h.admitted.received hreceived }

/-- A file that a writer has is not the reader's alone. -/
theorem Sound.not_early (h : Sound staging f) (hpresent : f.writer.stage≠.absent) :
    f.reader.stage.early≠true := by
  intro hearly
  rw [h.inOrder.unsent hearly] at hpresent
  exact hpresent rfl

/-- A considered file is early. -/
theorem ne_considered_of_not_early (h : f.reader.stage.early≠true) :
    f.reader.stage≠.considered := by
  intro heq
  rw [heq] at h
  exact h rfl

/-- A writer takes the file and clones the context. -/
theorem Sound.takeWrite (h : Sound staging f) (hstage : f.writer.stage=.queued) :
    Sound staging {f with
      writer := ⟨.working,f.writer.owned++[.context]⟩
      context := f.context.clone} := by
  have howned : f.writer.owned=staging.handed := by
    have hwriter := h.writer
    unfold WriterOwns at hwriter
    rw [hstage] at hwriter
    exact hwriter
  have hlate := h.not_early (by rw [hstage]; simp)
  have hconsidered := ne_considered_of_not_early hlate
  have hone := staging.count_context.2.2.2
  have hheld : 0<f.holders .context+f.jobs := by
    unfold File.holders
    rw [howned,hone]
    omega
  have hpending := pending_of_counts h.balanced.context hheld
  have hcloned := h.balanced.context.clone hheld
  have hstill := pending_of_counts hcloned (Nat.succ_pos _)
  exact {
    reader := h.reader
    writer := by rw [howned]; rfl
    publisher := h.publisher
    readerOrderly := h.readerOrderly
    writerOrderly := by
      rw [howned]
      exact staging.orderly (by simp [Staging.lists])
    publisherOrderly := h.publisherOrderly
    balanced := by
      refine ⟨hcloned.of_eq ?_,h.balanced.completion.of_eq ?_,Eq.trans ?_ h.balanced.reservation⟩ <;>
        simp [File.holders]
      omega
    inOrder := ⟨fun hearly => absurd hearly hlate,
      fun _ _ => h.inOrder.unstaged (by rw [hstage]; simp) (by rw [hstage]; simp),
      h.inOrder.staged,(by simp)⟩
    once := h.once.keep (reporters_le id (fun _ => by rw [hstage]; rfl) rfl id)
      (counting_eq rfl (by rw [hstage]; rfl) rfl)
      rfl rfl Iff.rfl (iff_of_true hstill hpending)
    admitted := h.admitted.keep rfl rfl rfl rfl (fun hnow => absurd hnow hconsidered)
      (fun _ => h.admitted.operation hpending) (fun hnow => absurd hnow hstill.1) }

/-- What a writer owns while it works. -/
theorem Sound.working_owned (h : Sound staging f) (hstage : f.writer.stage=.working) :
    f.writer.owned=staging.handed++[.context] := by
  have hwriter := h.writer
  unfold WriterOwns at hwriter
  rw [hstage] at hwriter
  exact hwriter

/-- The direct writer returns, with the work item's handle dropped. -/
theorem Sound.write (h : Sound staging f) (hstage : f.writer.stage=.working)
    (hdirect : staging.usesScratch=false) {stage : Stage} (hnew : stage=.reporting ∨ stage=.leaving) :
    Sound staging {f with
      writer := ⟨stage,[.context]⟩
      context := f.context.release} := by
  have howned := h.working_owned hstage
  obtain rfl : staging=.direct := by
    cases staging with
    | direct => rfl
    | scratch limit hlimit => cases hdirect
    | batched limits => cases hdirect
  have hlate := h.not_early (by rw [hstage]; simp)
  have hconsidered := ne_considered_of_not_early hlate
  obtain ⟨hstaged,hpublisher⟩ :=
    h.inOrder.unstaged (by rw [hstage]; simp) (by rw [hstage]; simp)
  have hcontext := h.balanced.context
  have hpending : f.context.Pending := by
    refine pending_of_counts hcontext ?_
    simp [File.holders,howned]
  have hcount : f.holders .context+f.jobs=f.reader.owned.count Owned.context+f.jobs+1+1 := by
    simp [File.holders,Staging.handed,howned,hstaged,hpublisher]
    omega
  rw [hcount] at hcontext
  have hreleased := hcontext.release
  have hstill := pending_of_counts hreleased (Nat.succ_pos _)
  exact {
    reader := h.reader
    writer := by rcases hnew with rfl|rfl; exacts [rfl,trivial]
    publisher := h.publisher
    readerOrderly := h.readerOrderly
    writerOrderly := Staging.orderly (by simp [Staging.lists])
    publisherOrderly := h.publisherOrderly
    balanced := by
      refine ⟨hreleased.of_eq ?_,h.balanced.completion.of_eq ?_,Eq.trans ?_ h.balanced.reservation⟩ <;>
        simp [File.holders,Staging.handed,howned,hstaged,hpublisher]
      omega
    inOrder := ⟨fun hearly => absurd hearly hlate,fun _ _ => ⟨hstaged,hpublisher⟩,
      h.inOrder.staged,by rcases hnew with rfl|rfl <;> simp⟩
    once := by
      refine h.once.keep (reporters_le id (fun _ => by rw [hstage]; rfl) rfl id) ?_ rfl rfl Iff.rfl
        (iff_of_true hstill hpending)
      refine counting_eq rfl ?_ rfl
      rw [hstage]
      rcases hnew with rfl|rfl <;> rfl
    admitted := h.admitted.keep rfl rfl rfl rfl (fun hnow => absurd hnow hconsidered)
      (fun _ => h.admitted.operation hpending) (fun hnow => absurd hnow hstill.1) }

/-- A staged file takes the reservation and the context of the work item. -/
theorem Staging.count_staged (h : staging.usesScratch=true) (o : Owned) :
    staging.kept.count o+[Owned.reservation,.context].count o=
      (staging.handed++[Owned.context]).count o := by
  cases staging with
  | direct => cases h
  | scratch limit hlimit => cases o <;> rfl
  | batched limits => cases o <;> rfl

/-- A writer completes the staged file. -/
theorem Sound.finishStaging (h : Sound staging f) (hstage : f.writer.stage=.working)
    (hscratch : staging.usesScratch=true) (kept : ℕ) :
    Sound staging {f with
      reservation := some kept
      staged := [.reservation,.context]
      payload := .staged
      writer := ⟨staging.afterStaging,staging.kept⟩} := by
  have howned := h.working_owned hstage
  have hlate := h.not_early (by rw [hstage]; simp)
  have hconsidered := ne_considered_of_not_early hlate
  obtain ⟨hstaged,hpublisher⟩ :=
    h.inOrder.unstaged (by rw [hstage]; simp) (by rw [hstage]; simp)
  have hafter : staging.afterStaging=.sending ∨ staging.afterStaging=.leaving := by
    cases staging with
    | direct => exact Or.inr rfl
    | scratch limit hlimit => exact Or.inl rfl
    | batched limits => exact Or.inr rfl
  have hholders : ∀ o, File.holders {f with
      reservation := some kept
      staged := [.reservation,.context]
      payload := .staged
      writer := ⟨staging.afterStaging,staging.kept⟩} o=f.holders o := by
    intro o
    have hmoved := Staging.count_staged hscratch o
    unfold File.holders
    dsimp only
    rw [howned,hstaged,hpublisher,←hmoved]
    simp only [List.count_nil]
    omega
  have hreservation := h.balanced.reservation
  have hsome : f.reservation≠none := by
    intro hnone
    have hmoved := Staging.count_staged hscratch .reservation
    rw [hnone] at hreservation
    unfold File.holders at hreservation
    rw [howned,←hmoved] at hreservation
    simp at hreservation
  have hone : f.holders .reservation=1 := by
    rw [hreservation]
    cases hr : f.reservation with
    | none => exact absurd hr hsome
    | some bytes => rfl
  exact {
    reader := h.reader
    writer := by
      cases staging with
      | direct => cases hscratch
      | scratch limit hlimit => exact ⟨rfl,rfl⟩
      | batched limits => exact trivial
    publisher := by
      have hold := h.publisher
      rw [hpublisher] at hold ⊢
      exact hold
    readerOrderly := h.readerOrderly
    writerOrderly := staging.orderly (by simp [Staging.lists])
    publisherOrderly := h.publisherOrderly
    balanced := ⟨h.balanced.context.of_eq (by rw [hholders]),
      h.balanced.completion.of_eq (hholders .completion).symm,(hholders .reservation).trans hone⟩
    inOrder := by
      refine ⟨fun hearly => absurd hearly hlate,fun hsending hleaving => ?_,
        Or.inr ⟨rfl,rfl,hpublisher⟩,fun _ => by simp⟩
      rcases hafter with heq|heq
      · exact absurd heq hsending
      · exact absurd heq hleaving
    once := by
      refine h.once.keep ?_ ?_ rfl rfl Iff.rfl Iff.rfl
      · unfold File.reporters
        dsimp only
        rw [hstage,hstaged,hpublisher]
        rcases hafter with heq|heq <;> (rw [heq]; exact Nat.le_refl _)
      · refine counting_eq rfl ?_ rfl
        rw [hstage]
        rcases hafter with heq|heq <;> rw [heq] <;> rfl
    admitted := by
      refine ⟨h.admitted.batch,h.admitted.received,fun hb hbatch => ?_,h.admitted.plain,
        fun hnow => absurd hnow hconsidered,h.admitted.operation,h.admitted.unheld⟩
      exact absurd (h.admitted.reservation hb hbatch) hsome }

/-- A publisher is sent the staged file. -/
theorem Staging.count_published (h : staging.usesScratch=true) :
    staging.published.count .context=1 ∧ staging.published.count .reservation=1 ∧
      staging.published.count .completion=0 := by
  cases staging with
  | direct => cases h
  | scratch limit hlimit => exact ⟨rfl,rfl,rfl⟩
  | batched limits => exact ⟨rfl,rfl,rfl⟩

/-- A staged file is sent to the publishers. -/
theorem Sound.sendStaged (h : Sound staging f) (hstaged : f.staged≠[])
    (hscratch : staging.usesScratch=true) :
    Sound staging {f with
      writer := ⟨.leaving,f.writer.owned⟩
      staged := []
      publisher := ⟨.queued,staging.published⟩} := by
  obtain ⟨hlist,_,hpublisher⟩ := h.inOrder.staged.resolve_left hstaged
  have hwriter : f.writer.stage=.sending ∨ f.writer.stage=.leaving := by
    by_cases hsending : f.writer.stage=.sending
    · exact Or.inl hsending
    · refine Or.inr ?_
      by_contra hleaving
      exact hstaged (h.inOrder.unstaged hsending hleaving).1
  have hpresent : f.writer.stage≠.absent := by
    rcases hwriter with heq|heq <;> rw [heq] <;> nofun
  have hlate := h.not_early hpresent
  have hconsidered := ne_considered_of_not_early hlate
  obtain ⟨hcontext,hreservation,hcompletion⟩ := Staging.count_published hscratch
  exact {
    reader := h.reader
    writer := trivial
    publisher := ⟨rfl,hscratch⟩
    readerOrderly := h.readerOrderly
    writerOrderly := h.writerOrderly
    publisherOrderly := staging.orderly_published
    balanced := by
      refine ⟨h.balanced.context.of_eq ?_,h.balanced.completion.of_eq ?_,
        Eq.trans ?_ h.balanced.reservation⟩ <;>
        simp [File.holders,hlist,hpublisher,hcontext,hreservation,hcompletion]
    inOrder := ⟨fun hearly => absurd hearly hlate,fun _ hleaving => absurd rfl hleaving,
      Or.inl rfl,nofun⟩
    once := by
      refine h.once.keep ?_ ?_ rfl rfl Iff.rfl Iff.rfl
      · unfold File.reporters
        dsimp only
        rw [hlist,hpublisher]
        simp [Stage.mayReport]
      · refine counting_eq rfl ?_ (by rw [hpublisher]; rfl)
        rcases hwriter with heq|heq
        · rw [heq]
          rfl
        · rw [heq]
    admitted := h.admitted.keep rfl rfl rfl rfl (fun hnow => absurd hnow hconsidered)
      h.admitted.operation h.admitted.unheld }

end Handing

section Reports

/-- A thread at or after the flag of a report holds the context, and the reader is done. -/
theorem Sound.reporting_context (h : Sound staging f) {role : Role}
    (hstage : (f.thread role).stage=.reporting ∨ (f.thread role).stage=.counting) :
    f.context.Pending ∧ f.reader.stage≠.considered := by
  cases role with
  | reader => exact (h.reader.silent hstage).elim
  | writer =>
    have howned : f.writer.owned=[.context] := by
      have hwriter := h.writer
      unfold WriterOwns at hwriter
      rcases hstage with heq|heq <;> rw [File.thread] at heq <;> rw [heq] at hwriter <;> exact hwriter
    refine ⟨pending_of_counts h.balanced.context ?_,?_⟩
    · simp [File.holders,howned]
    · refine ne_considered_of_not_early (h.not_early ?_)
      rcases hstage with heq|heq <;> rw [File.thread] at heq <;> rw [heq] <;> nofun
  | publisher =>
    have hpublisher := h.publisher
    have howned : f.publisher.owned=staging.published ∧ staging.usesScratch=true := by
      unfold PublisherOwns at hpublisher
      rcases hstage with heq|heq <;> rw [File.thread] at heq <;> rw [heq] at hpublisher <;>
        exact hpublisher
    refine ⟨pending_of_counts h.balanced.context ?_,?_⟩
    · simp [File.holders,howned.1,(Staging.count_published howned.2).1]
    · refine ne_considered_of_not_early fun hearly => ?_
      have habsent := (h.alone hearly).2.2
      rcases hstage with heq|heq <;> rw [File.thread,habsent] at heq <;> cases heq

/-- The flag is set by the only one who may report. -/
theorem CountedOnce.report {g : File} (h : CountedOnce f) (hreporters : g.reporters+1=f.reporters)
    (hreported : g.reported=true) (hcounting : g.counting=f.counting+1) (hends : g.ends=f.ends)
    (hconsidered : f.reader.stage≠.considered) (hconsidered' : g.reader.stage≠.considered)
    (hpending : f.context.Pending) : f.reported=false ∧ CountedOnce g := by
  have hone := h.reporters
  have hfalse : f.reported=false := by
    cases hr : f.reported with
    | false => rfl
    | true =>
      rw [hr,Bool.toNat_true] at hone
      omega
  have hold := h.ends
  unfold File.unreported at hold
  rw [if_neg hconsidered,if_pos ⟨hpending,hfalse⟩] at hold
  refine ⟨hfalse,?_,?_⟩
  · rw [hfalse,Bool.toNat_false] at hone
    rw [hreported,Bool.toNat_true]
    omega
  · unfold File.unreported
    rw [if_neg hconsidered',if_neg (fun hboth => Bool.noConfusion (hreported.symm.trans hboth.2)),
      hends,hcounting]
    omega

/-- The counted end is counted no more. -/
theorem CountedOnce.count {g : File} (h : CountedOnce f) (hreporters : g.reporters≤f.reporters)
    (hreported : g.reported=f.reported) (hcounting : g.counting+1=f.counting)
    (hends : g.ends.length=f.ends.length+1) (hsame : g.unreported=f.unreported) : CountedOnce g := by
  have hold := h.reporters
  have hone := h.ends
  refine ⟨?_,?_⟩
  · rw [hreported]
    omega
  · rw [hends,hsame]
    omega

/-- A report begins: its assertion holds, and the thread is about to count the end. -/
theorem Sound.report (h : Sound staging f) {role : Role}
    (hstage : (f.thread role).stage=.reporting) (metadata : Bool) (s : Shared) :
    Sound staging (reportNewStats role metadata f s).1 ∧
      (reportNewStats role metadata f s).2=s := by
  obtain ⟨hpending,hconsidered⟩ := h.reporting_context (Or.inl hstage)
  cases role with
  | reader => exact (h.reader.silent (.inl hstage)).elim
  | writer =>
    rw [File.thread] at hstage
    have hlate := h.not_early (by rw [hstage]; nofun)
    unfold reportNewStats
    cases metadata with
    | false => exact ⟨h.leaveWriter (by rw [hstage]; nofun) (by rw [hstage]; rfl),rfl⟩
    | true =>
      have hreport := @CountedOnce.report f {f with
        reported := true, writer := ⟨.counting,f.writer.owned⟩} h.once
        (by unfold File.reporters; rw [hstage]; simp [Stage.mayReport]; omega) rfl
        (by unfold File.counting; rw [hstage]; simp [Stage.isCounting]; omega) rfl hconsidered hconsidered hpending
      dsimp only
      rw [if_pos rfl,hreport.1,if_neg Bool.false_ne_true]
      exact ⟨{
        reader := h.reader
        writer := by
          have hwriter := h.writer
          unfold WriterOwns at hwriter
          rw [hstage] at hwriter
          exact hwriter
        publisher := h.publisher
        readerOrderly := h.readerOrderly
        writerOrderly := h.writerOrderly
        publisherOrderly := h.publisherOrderly
        balanced := ⟨h.balanced.context,h.balanced.completion,h.balanced.reservation⟩
        inOrder := ⟨fun hearly => absurd hearly hlate,
          fun _ _ => h.inOrder.unstaged (by rw [hstage]; nofun) (by rw [hstage]; nofun),
          h.inOrder.staged,nofun⟩
        once := hreport.2
        admitted := h.admitted.keep rfl rfl rfl rfl h.admitted.unmade h.admitted.operation
          h.admitted.unheld },rfl⟩
  | publisher =>
    rw [File.thread] at hstage
    have hold : f.publisher.stage≠.absent := by rw [hstage]; nofun
    obtain ⟨hpresent,hstaged⟩ := h.staged_of_publisher hold
    have hpublisher := h.publisher
    unfold PublisherOwns at hpublisher
    rw [hstage] at hpublisher
    unfold reportNewStats
    cases metadata with
    | false => exact ⟨h.movePublisher hpublisher nofun hold (by rw [hstage]; rfl) rfl,rfl⟩
    | true =>
      have hreport := @CountedOnce.report f {f with
        reported := true, publisher := ⟨.counting,f.publisher.owned⟩} h.once
        (by unfold File.reporters; rw [hstage]; simp [Stage.mayReport]) rfl
        (by unfold File.counting; rw [hstage]; simp [Stage.isCounting]) rfl hconsidered hconsidered hpending
      dsimp only
      rw [if_pos rfl,hreport.1,if_neg Bool.false_ne_true]
      exact ⟨{
        reader := h.reader
        writer := h.writer
        publisher := hpublisher
        readerOrderly := h.readerOrderly
        writerOrderly := h.writerOrderly
        publisherOrderly := h.publisherOrderly
        balanced := ⟨h.balanced.context,h.balanced.completion,h.balanced.reservation⟩
        inOrder := ⟨h.inOrder.unsent,fun hsending hleaving =>
          absurd (h.inOrder.unstaged hsending hleaving).2 hpresent,Or.inl hstaged,
          h.inOrder.sending⟩
        once := hreport.2
        admitted := h.admitted.keep rfl rfl rfl rfl h.admitted.unmade h.admitted.operation
          h.admitted.unheld },rfl⟩

/-- A report counts the end. -/
theorem Sound.count (h : Sound staging f) {role : Role}
    (hstage : (f.thread role).stage=.counting) (info : FileInfo) (s : Shared) :
    Sound staging
      (addEnd info (f.setThread ⟨role.afterReport,(f.thread role).owned⟩ role) s).1 := by
  obtain ⟨hpending,hconsidered⟩ := h.reporting_context (Or.inr hstage)
  cases role with
  | reader => exact (h.reader.silent (.inr hstage)).elim
  | writer =>
    rw [File.thread] at hstage
    have hlate := h.not_early (by rw [hstage]; nofun)
    obtain ⟨hstaged,hpublisher⟩ :=
      h.inOrder.unstaged (by rw [hstage]; nofun) (by rw [hstage]; nofun)
    exact {
      reader := h.reader
      writer := trivial
      publisher := h.publisher
      readerOrderly := h.readerOrderly
      writerOrderly := h.writerOrderly
      publisherOrderly := h.publisherOrderly
      balanced := ⟨h.balanced.context,h.balanced.completion,h.balanced.reservation⟩
      inOrder := ⟨fun hearly => absurd hearly hlate,fun _ _ => ⟨hstaged,hpublisher⟩,
        h.inOrder.staged,nofun⟩
      once := h.once.count (reporters_le id nofun rfl id) rfl
        (by
          unfold File.counting
          rw [hstage]
          simp [addEnd,File.setThread,File.thread,Role.afterReport,Stage.isCounting]
          omega)
        List.length_append rfl
      admitted := h.admitted.keep rfl rfl rfl rfl h.admitted.unmade h.admitted.operation
        h.admitted.unheld }
  | publisher =>
    rw [File.thread] at hstage
    have hold : f.publisher.stage≠.absent := by rw [hstage]; nofun
    obtain ⟨hpresent,hstaged⟩ := h.staged_of_publisher hold
    have hpublisher := h.publisher
    unfold PublisherOwns at hpublisher
    rw [hstage] at hpublisher
    exact {
      reader := h.reader
      writer := h.writer
      publisher := hpublisher
      readerOrderly := h.readerOrderly
      writerOrderly := h.writerOrderly
      publisherOrderly := h.publisherOrderly
      balanced := ⟨h.balanced.context,h.balanced.completion,h.balanced.reservation⟩
      inOrder := ⟨h.inOrder.unsent,fun hsending hleaving =>
        absurd (h.inOrder.unstaged hsending hleaving).2 hpresent,Or.inl hstaged,
        h.inOrder.sending⟩
      once := h.once.count (reporters_le id id rfl nofun) rfl
        (by
          unfold File.counting
          rw [hstage]
          simp [addEnd,File.setThread,File.thread,Role.afterReport,Stage.isCounting])
        List.length_append rfl
      admitted := h.admitted.keep rfl rfl rfl rfl h.admitted.unmade h.admitted.operation
        h.admitted.unheld }

end Reports

section Drops

/-- What a leaving thread drops is one thing less. -/
theorem holders_pop {role : Role} {o : Owned} {owned : List Owned}
    (hthread : f.thread role=⟨.leaving,o::owned⟩) (x : Owned) :
    (f.setThread ⟨.leaving,owned⟩ role).holders x+[o].count x=f.holders x := by
  have hcons : (o::owned).count x=owned.count x+[o].count x := by
    rw [←List.singleton_append,List.count_append,Nat.add_comm]
  unfold File.holders
  cases role <;>
    (rw [File.thread] at hthread
     rw [hthread]
     simp only [File.setThread,hcons]
     omega)

/-- A leaving thread drops something: the invariant asks for the right count. -/
theorem Sound.pop (h : Sound staging f) {role : Role} {o : Owned} {owned : List Owned}
    (hthread : f.thread role=⟨.leaving,o::owned⟩) {context completion : Arc}
    {reservation : Option ℕ}
    (hcontext : context.Counts ((f.setThread ⟨.leaving,owned⟩ role).holders .context+f.jobs))
    (hguards : completion.Counts ((f.setThread ⟨.leaving,owned⟩ role).holders .completion))
    (hbytes : (f.setThread ⟨.leaving,owned⟩ role).holders .reservation=reservation.toList.length)
    (hpending : context.Pending ↔ f.context.Pending)
    (hunmade : context=.unmade ↔ f.context=.unmade)
    (hcompletion : completion=.unmade ↔ f.completion=.unmade)
    (hreceived : f.received=true → completion=.dropped)
    (hreservation : f.reservation=none → reservation=none) :
    Sound staging {f.setThread ⟨.leaving,owned⟩ role with
      context := context, completion := completion, reservation := reservation} := by
  have hbatch : f.batch.isSome=true ↔ completion≠.unmade :=
    h.admitted.batch.trans (not_congr hcompletion.symm)
  have hnone : staging.isBatched=true → f.batch=none → reservation=none :=
    fun hb hbatch => hreservation (h.admitted.reservation hb hbatch)
  have hoperation : context.Pending → f.operation=true :=
    fun hp => h.admitted.operation (hpending.mp hp)
  have hunheld : context=.unmade → f.operation=false :=
    fun hu => h.admitted.unheld (hunmade.mp hu)
  have hconsidered : f.reader.stage=.considered → context=.unmade :=
    fun hc => hunmade.mpr (h.admitted.unmade hc)
  cases role with
  | reader =>
    rw [File.thread] at hthread
    have horderly := h.readerOrderly
    rw [hthread] at horderly
    exact {
      reader := trivial
      writer := h.writer
      publisher := h.publisher
      readerOrderly := horderly.tail
      writerOrderly := h.writerOrderly
      publisherOrderly := h.publisherOrderly
      balanced := ⟨hcontext,hguards,hbytes⟩
      inOrder := ⟨nofun,h.inOrder.unstaged,h.inOrder.staged,h.inOrder.sending⟩
      once := h.once.keep (reporters_le nofun id rfl id) (counting_eq (by rw [hthread]; rfl) rfl rfl)
        rfl rfl (iff_of_false nofun (by rw [hthread]; nofun)) hpending
      admitted := ⟨hbatch,hreceived,hnone,h.admitted.plain,nofun,hoperation,hunheld⟩ }
  | writer =>
    rw [File.thread] at hthread
    have horderly := h.writerOrderly
    rw [hthread] at horderly
    have hlate := h.not_early (by rw [hthread]; nofun)
    exact {
      reader := h.reader
      writer := trivial
      publisher := h.publisher
      readerOrderly := h.readerOrderly
      writerOrderly := horderly.tail
      publisherOrderly := h.publisherOrderly
      balanced := ⟨hcontext,hguards,hbytes⟩
      inOrder := ⟨fun hearly => absurd hearly hlate,fun _ hleaving => absurd rfl hleaving,
        h.inOrder.staged,nofun⟩
      once := h.once.keep (reporters_le id nofun rfl id) (counting_eq rfl (by rw [hthread]; rfl) rfl)
        rfl rfl Iff.rfl hpending
      admitted := ⟨hbatch,hreceived,hnone,h.admitted.plain,hconsidered,hoperation,hunheld⟩ }
  | publisher =>
    rw [File.thread] at hthread
    have horderly := h.publisherOrderly
    rw [hthread] at horderly
    have howns := h.publisher
    rw [hthread] at howns
    obtain ⟨hpresent,hstaged⟩ := h.staged_of_publisher (by rw [hthread]; nofun)
    exact {
      reader := h.reader
      writer := h.writer
      publisher := howns
      readerOrderly := h.readerOrderly
      writerOrderly := h.writerOrderly
      publisherOrderly := horderly.tail
      balanced := ⟨hcontext,hguards,hbytes⟩
      inOrder := ⟨h.inOrder.unsent,fun hsending hleaving =>
        absurd (h.inOrder.unstaged hsending hleaving).2 hpresent,Or.inl hstaged,
        h.inOrder.sending⟩
      once := h.once.keep (reporters_le id id rfl nofun) (counting_eq rfl rfl (by rw [hthread]; rfl))
        rfl rfl Iff.rfl hpending
      admitted := ⟨hbatch,hreceived,hnone,h.admitted.plain,hconsidered,hoperation,hunheld⟩ }

/-- What dropping something changes. -/
theorem drop_eq (o : Owned) (thread : Thread) (role : Role) (s : Shared) :
    (o.drop (f.setThread thread role) s).1={f.setThread thread role with
      context := if o=.context then f.context.release else f.context
      completion := if o=.completion then f.completion.release else f.completion
      reservation := if o=.reservation then none else f.reservation} := by
  cases role <;> cases o <;> rfl

/-- A leaving thread drops the next thing it owns. -/
theorem Sound.drop (h : Sound staging f) {role : Role} {o : Owned} {owned : List Owned}
    (hthread : f.thread role=⟨.leaving,o::owned⟩) (s : Shared) :
    Sound staging (o.drop (f.setThread ⟨.leaving,owned⟩ role) s).1 := by
  have hpop := holders_pop hthread
  have hcounts := h.balanced.context
  have hguards := h.balanced.completion
  have hbytes := h.balanced.reservation
  rw [←hpop] at hcounts hguards hbytes
  rw [drop_eq]
  cases o with
  | reservation =>
    refine h.pop hthread hcounts hguards ?_ Iff.rfl Iff.rfl Iff.rfl h.admitted.received
      (fun _ => rfl)
    have hle : f.reservation.toList.length≤1 := by
      cases f.reservation with
      | none => exact Nat.zero_le _
      | some bytes => exact Nat.le_refl _
    have hone : [Owned.reservation].count .reservation=1 := rfl
    change File.holders _ .reservation=0
    omega
  | completion =>
    have hlive := hguards.live (Nat.succ_pos _)
    have hpending := Arc.release_pending hguards
    refine h.pop hthread hcounts hguards.release hbytes Iff.rfl Iff.rfl
      (iff_of_false hpending.1 (by rw [hlive]; nofun)) (fun hreceived => ?_) id
    have hdropped := h.admitted.received hreceived
    rw [hlive] at hdropped
    cases hdropped
  | context =>
    have hcounts' : f.context.Counts
        ((f.setThread ⟨.leaving,owned⟩ role).holders .context+f.jobs+1) :=
      hcounts.of_eq (Nat.add_right_comm _ _ _)
    have hold := pending_of_counts hcounts' (Nat.succ_pos _)
    have hnew := Arc.release_pending hcounts'
    exact h.pop hthread hcounts'.release hguards hbytes (iff_of_true hnew hold)
      (iff_of_false hnew.1 hold.1) Iff.rfl h.admitted.received id
  | finished =>
    exact h.pop hthread hcounts hguards hbytes Iff.rfl Iff.rfl Iff.rfl h.admitted.received id

end Drops

end Applesauce.FileThreads
