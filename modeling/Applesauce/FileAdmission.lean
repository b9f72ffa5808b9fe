import Applesauce.FileSteps

/-!
# What the scanning thread does with a file

It counts a file, skips it or makes its context, sends it to the readers,
with a reservation and a completion guard in a batch, and later receives its
message and sends it to the publishers. Each keeps the invariant of the file.
-/

namespace Applesauce.FileThreads

open RustIo SharedHandles Statistics ScratchBudget

variable {staging : Staging} {limits : BatchLimits} {f : File}

/-- A file just counted is sound. -/
theorem sound_new (staging : Staging) (found : Found) : Sound staging (File.new found) where
  reader := rfl
  writer := rfl
  publisher := rfl
  readerOrderly := orderly_nil
  writerOrderly := orderly_nil
  publisherOrderly := orderly_nil
  balanced := ⟨rfl,rfl,rfl⟩
  inOrder := ⟨fun _ => rfl,fun _ _ => ⟨rfl,rfl⟩,.inl rfl,nofun⟩
  once := ⟨by simp [File.reporters,File.new,Stage.early,Stage.mayReport],rfl⟩
  admitted := ⟨iff_of_false nofun fun h => h rfl,nofun,fun _ _ => rfl,fun _ => rfl,fun _ => rfl,
    fun h => absurd rfl h.1,fun _ => rfl⟩

/-- What a considered file owns and shares. -/
theorem Sound.of_considered (h : Sound staging f) (hstage : f.reader.stage=.considered) :
    (f.writer=⟨.absent,[]⟩ ∧ f.staged=[] ∧ f.publisher=⟨.absent,[]⟩) ∧
      (∀ o, f.holders o=0) ∧ f.context=.unmade ∧ f.jobs=0 := by
  have hearly : f.reader.stage.early=true := by rw [hstage]; rfl
  have howned : f.reader.owned=[] := by
    have hreader := h.reader
    unfold ReaderOwns at hreader
    rw [hstage] at hreader
    exact hreader
  have hnone : ∀ o, f.holders o=0 := fun o => by
    rw [h.holders_alone hearly o,howned]
    rfl
  have hcontext := h.admitted.unmade hstage
  have hcounts := h.balanced.context
  rw [hcontext,hnone,Nat.zero_add] at hcounts
  exact ⟨h.alone hearly,hnone,hcontext,hcounts⟩

/-- The end of a considered file is not counted. -/
theorem Sound.considered_once (h : Sound staging f) (hstage : f.reader.stage=.considered) :
    f.ends=[] ∧ f.reported=false ∧ f.counting=0 := by
  have hends := h.once.ends
  have hreporters := h.once.reporters
  unfold File.unreported at hends
  rw [if_pos hstage] at hends
  have hone : 1≤f.reporters := by
    unfold File.reporters
    rw [hstage]
    simp only [Stage.early,Bool.toNat_true]
    omega
  refine ⟨List.length_eq_zero_iff.mp (by omega),?_,by omega⟩
  cases hreported : f.reported with
  | false => rfl
  | true =>
    rw [hreported,Bool.toNat_true] at hreporters
    omega

/-- A skipped file is left alone. -/
theorem Sound.skip (h : Sound staging f) (hstage : f.reader.stage=.considered) (last : FileInfo) :
    Sound staging {f with reader := ⟨.leaving,[]⟩, ends := f.ends++[last]} := by
  obtain ⟨⟨hwriter,hstaged,hpublisher⟩,hnone,hcontext,hjobs⟩ := h.of_considered hstage
  obtain ⟨hends,hreported,hcounting⟩ := h.considered_once hstage
  have hholders : ∀ o, File.holders {f with reader := ⟨.leaving,[]⟩, ends := f.ends++[last]} o=
      f.holders o := by
    intro o
    have hold := hnone o
    unfold File.holders at hold ⊢
    rw [hwriter,hstaged,hpublisher] at hold ⊢
    simp only [List.count_nil] at hold ⊢
    omega
  exact {
    reader := trivial
    writer := h.writer
    publisher := h.publisher
    readerOrderly := orderly_nil
    writerOrderly := h.writerOrderly
    publisherOrderly := h.publisherOrderly
    balanced := ⟨h.balanced.context.of_eq (by rw [hholders]),
      h.balanced.completion.of_eq (hholders _).symm,(hholders _).trans h.balanced.reservation⟩
    inOrder := ⟨nofun,h.inOrder.unstaged,h.inOrder.staged,h.inOrder.sending⟩
    once := by
      refine ⟨?_,?_⟩
      · simp [File.reporters,hwriter,hstaged,hpublisher,hreported,Stage.early,Stage.mayReport]
      · simp [File.unreported,File.counting,hends,hwriter,hpublisher,hcontext,Arc.Pending,
          Stage.isCounting]
    admitted := ⟨h.admitted.batch,h.admitted.received,h.admitted.reservation,h.admitted.plain,nofun,
      fun hbad => absurd hcontext hbad.1,h.admitted.unheld⟩ }

/-- A considered file gets its context. -/
theorem Sound.makeContext (h : Sound staging f) (hstage : f.reader.stage=.considered) :
    Sound staging {f with
      reader := ⟨.submitting,[.context]⟩
      context := .live 1
      operation := true} := by
  obtain ⟨⟨hwriter,hstaged,hpublisher⟩,hnone,hcontext,hjobs⟩ := h.of_considered hstage
  obtain ⟨hends,hreported,hcounting⟩ := h.considered_once hstage
  have hcompletion := h.balanced.completion
  have hreservation := h.balanced.reservation
  rw [hnone] at hcompletion hreservation
  exact {
    reader := rfl
    writer := h.writer
    publisher := h.publisher
    readerOrderly := Staging.orderly (by simp [Staging.lists])
    writerOrderly := h.writerOrderly
    publisherOrderly := h.publisherOrderly
    balanced := by
      refine ⟨⟨?_,?_⟩,hcompletion.of_eq ?_,Eq.trans ?_ hreservation⟩ <;>
        simp [File.holders,hwriter,hstaged,hpublisher,hjobs]
    inOrder := ⟨fun _ => hwriter,h.inOrder.unstaged,h.inOrder.staged,h.inOrder.sending⟩
    once := by
      refine ⟨?_,?_⟩
      · simp [File.reporters,hwriter,hstaged,hpublisher,hreported,Stage.early,Stage.mayReport]
      · simp [File.unreported,File.counting,hends,hwriter,hpublisher,hreported,Arc.Pending,
          Stage.isCounting]
    admitted := ⟨h.admitted.batch,h.admitted.received,h.admitted.reservation,h.admitted.plain,nofun,
      fun _ => rfl,nofun⟩ }

/-- What the scanning thread owns of a file it submits. -/
theorem Sound.submitting_owned (h : Sound staging f) (hstage : f.reader.stage=.submitting) :
    f.reader.owned=[.context] := by
  have hreader := h.reader
  unfold ReaderOwns at hreader
  rw [hstage] at hreader
  exact hreader

/-- Without a batch the work item is the context. -/
theorem Sound.submit (h : Sound staging f) (hstage : f.reader.stage=.submitting)
    (hplain : staging.isBatched=false) :
    Sound staging {f with reader := ⟨.queued,staging.item⟩} := by
  have howned := h.submitting_owned hstage
  have hitem : staging.item=[.context] := by
    cases staging with
    | direct => rfl
    | scratch limit hlimit => rfl
    | batched limits => cases hplain
  have hsound := @Sound.moveReader _ f h .queued (by rw [howned,hitem.symm]; rfl)
    (fun _ => by rw [hstage]; rfl) (by rw [hstage]; nofun) nofun
  rw [howned,hitem.symm] at hsound
  exact hsound

/-- A refused file leaves its context to be dropped. -/
theorem Sound.refuse (h : Sound staging f) (hstage : f.reader.stage=.submitting) :
    Sound staging {f with reader := ⟨.leaving,[.context]⟩} := by
  have hsound := @Sound.moveReader _ f h .leaving trivial nofun (by rw [hstage]; nofun) nofun
  rw [h.submitting_owned hstage] at hsound
  exact hsound

/-- A file that is not in a batch has no guard and no reservation. -/
theorem Sound.unadmitted (h : Sound (.batched limits) f) (hbatch : f.batch=none) :
    f.completion=.unmade ∧ f.reservation=none := by
  refine ⟨?_,h.admitted.reservation rfl hbatch⟩
  by_contra hmade
  have hsome := h.admitted.batch.mpr hmade
  rw [hbatch] at hsome
  cases hsome

/-- A file is admitted to a batch. -/
theorem Sound.admitFile (h : Sound (.batched limits) f) (hstage : f.reader.stage=.submitting)
    (hbatch : f.batch=none) (number bytes : ℕ) :
    Sound (.batched limits) {f with
      batch := some number
      reservation := some bytes
      completion := .live 1
      reader := ⟨.queued,(Staging.batched limits).item⟩} := by
  obtain ⟨hcompletion,hreservation⟩ := h.unadmitted hbatch
  have hearly : f.reader.stage.early=true := by rw [hstage]; rfl
  have howned := h.submitting_owned hstage
  obtain ⟨hwriter,hstaged,hpublisher⟩ := h.alone hearly
  have hcontext := h.balanced.context
  rw [h.holders_alone hearly,howned] at hcontext
  exact {
    reader := rfl
    writer := h.writer
    publisher := h.publisher
    readerOrderly := Staging.orderly (by simp [Staging.lists])
    writerOrderly := h.writerOrderly
    publisherOrderly := h.publisherOrderly
    balanced := by
      refine ⟨hcontext.of_eq ?_,⟨?_,?_⟩,?_⟩ <;>
        simp [File.holders,hwriter,hstaged,hpublisher,Staging.item]
    inOrder := ⟨fun _ => hwriter,h.inOrder.unstaged,h.inOrder.staged,h.inOrder.sending⟩
    once := h.once.keep (reporters_le (fun _ => hearly) id rfl id)
      (counting_eq h.reader.not_counting.symm rfl rfl) rfl rfl
      (iff_of_false (by simp) (by rw [hstage]; simp)) Iff.rfl
    admitted := by
      refine ⟨iff_of_true rfl (by simp),fun hreceived => ?_,(fun _ hbad => by cases hbad),
        (fun hbad => by cases hbad),(by simp),h.admitted.operation,h.admitted.unheld⟩
      have hdropped := h.admitted.received hreceived
      rw [hcompletion] at hdropped
      cases hdropped }

/-- The message of a file is received. -/
theorem Sound.receive (h : Sound staging f) (hmessage : f.completion=.dropped) :
    Sound staging {f with received := true} :=
  h.sameThreads ⟨rfl,rfl,rfl⟩ ⟨rfl,rfl⟩
    ⟨h.balanced.context,h.balanced.completion,h.balanced.reservation⟩
    (h.once.keep (Nat.le_refl _) rfl rfl rfl Iff.rfl Iff.rfl)
    ⟨h.admitted.batch,fun _ => hmessage,h.admitted.reservation,h.admitted.plain,
      h.admitted.unmade,h.admitted.operation,h.admitted.unheld⟩

/-- The scanning thread sends a staged file of a batch to the publishers. -/
theorem Sound.publish (h : Sound (.batched limits) f) (hstaged : f.staged≠[]) :
    Sound (.batched limits)
      {f with staged := [], publisher := ⟨.queued,(Staging.batched limits).published⟩} := by
  have hsound := h.sendStaged hstaged rfl
  have hleaving : f.writer.stage=.leaving := by
    by_contra hnot
    by_cases hsending : f.writer.stage=.sending
    · have hwriter := h.writer
      unfold WriterOwns at hwriter
      rw [hsending] at hwriter
      cases hwriter.2
    · exact hstaged (h.inOrder.unstaged hsending hnot).1
  have hsame : (⟨.leaving,f.writer.owned⟩ : Thread)=f.writer := by rw [←hleaving]
  rw [hsame] at hsound
  exact hsound

end Applesauce.FileThreads
