import Applesauce.FileSteps

/-!
# What a step on a file changes of what the threads share

One step of one thread keeps the invariant of its file and moves the shared
accounts by what it changes of the file: bytes of the budget with the
reservation, acknowledgements with the handles that send them, the handles of
the operation and the end counts with the context. In a batch, a file whose
message was sent keeps its staged file until the scanning thread has it.
-/

namespace Applesauce.FileThreads

open RustIo SharedHandles Statistics ScratchBudget
open Publication (Mode)

variable {staging : Staging} {config : Config} {f : File} {s t : Shared}

section Remaining

/-- A reader gets its reservation. -/
theorem Sound.reserve (h : Sound staging f) (hstage : f.reader.stage=.reserving) (bytes : ℕ) :
    Sound staging {f with
      reader := ⟨.opening,staging.reserved⟩
      reservation := some bytes} := by
  have hreader := h.reader
  unfold ReaderOwns at hreader
  rw [hstage] at hreader
  obtain ⟨howned,hafter⟩ := hreader
  have hearly : f.reader.stage.early=true := by rw [hstage]; rfl
  obtain ⟨hwriter,hstaged,hpublisher⟩ := h.alone hearly
  have hplain : staging.isBatched=false ∧ staging.reserved=[.reservation,.context] := by
    cases staging with
    | direct => cases hafter
    | scratch limit hlimit => exact ⟨rfl,rfl⟩
    | batched limits => cases hafter
  have hcontext := h.balanced.context
  have hcompletion := h.balanced.completion
  rw [h.holders_alone hearly,howned] at hcontext hcompletion
  exact {
    reader := rfl
    writer := h.writer
    publisher := h.publisher
    readerOrderly := staging.orderly (by simp [Staging.lists])
    writerOrderly := h.writerOrderly
    publisherOrderly := h.publisherOrderly
    balanced := by
      refine ⟨hcontext.of_eq ?_,hcompletion.of_eq ?_,?_⟩ <;>
        simp [File.holders,hplain.2,hwriter,hstaged,hpublisher]
    inOrder := ⟨fun _ => hwriter,h.inOrder.unstaged,h.inOrder.staged,h.inOrder.sending⟩
    once := h.once.keep (reporters_le (fun _ => hearly) id rfl id)
      (counting_eq h.reader.not_counting.symm rfl rfl) rfl rfl
      (iff_of_false (by simp) (by rw [hstage]; simp)) Iff.rfl
    admitted := ⟨h.admitted.batch,h.admitted.received,
      fun hb => Bool.noConfusion (hplain.1.symm.trans hb),h.admitted.plain,(by simp),
      h.admitted.operation,h.admitted.unheld⟩ }

/-- The message of the file is sent by the destructor of the completion guard. -/
theorem Sound.sendMessage (h : Sound staging f) (hcompletion : f.completion=.dropping) :
    Sound staging {f with completion := .dropped} := by
  have hbatch : f.batch.isSome=true ↔ Arc.dropped≠.unmade :=
    h.admitted.batch.trans (iff_of_true (by rw [hcompletion]; nofun) nofun)
  exact h.sameThreads ⟨rfl,rfl,rfl⟩ ⟨rfl,rfl⟩
    ⟨h.balanced.context,h.balanced.completion.dropping hcompletion,h.balanced.reservation⟩
    (h.once.keep (Nat.le_refl _) rfl rfl rfl Iff.rfl Iff.rfl)
    ⟨hbatch,fun _ => rfl,h.admitted.reservation,h.admitted.plain,h.admitted.unmade,
      h.admitted.operation,h.admitted.unheld⟩

/-- The destructor of the context counts the end of a file that was not reported. -/
theorem Sound.dropContext (h : Sound staging f) (hcontext : f.context=.dropping) (info : FileInfo) :
    Sound staging {f with
      context := .dropped
      ends := if f.reported=true then f.ends else f.ends++[info]} := by
  have hpending : f.context.Pending := by rw [hcontext]; exact ⟨nofun,nofun⟩
  have hconsidered : f.reader.stage≠.considered := by
    intro hbad
    exact hpending.1 (h.admitted.unmade hbad)
  have hends := h.once.ends
  unfold File.unreported at hends
  rw [if_neg hconsidered] at hends
  refine h.sameThreads ⟨rfl,rfl,rfl⟩ ⟨rfl,rfl⟩
    ⟨h.balanced.context.dropping hcontext,h.balanced.completion,h.balanced.reservation⟩
    ⟨h.once.reporters,?_⟩
    ⟨h.admitted.batch,h.admitted.received,h.admitted.reservation,h.admitted.plain,
      fun hbad => absurd hbad hconsidered,fun hbad => absurd rfl hbad.2,nofun⟩
  have hgone : ¬(Arc.dropped.Pending ∧ f.reported=false) := fun hbad => hbad.1.2 rfl
  unfold File.unreported
  dsimp only
  rw [if_neg hconsidered,if_neg hgone]
  cases hreported : f.reported with
  | true =>
    rw [hreported,if_neg (fun hbad => Bool.noConfusion hbad.2)] at hends
    exact hends
  | false =>
    rw [hreported,if_pos ⟨hpending,rfl⟩] at hends
    rw [if_neg Bool.false_ne_true,List.length_append,List.length_singleton]
    have hone : f.ends.length+1+f.counting+0=1 := by omega
    exact hone

/-- The context drops its handle of the operation. -/
theorem Sound.dropOperation (h : Sound staging f) (hcontext : f.context=.dropped) :
    Sound staging {f with operation := false} :=
  h.sameThreads ⟨rfl,rfl,rfl⟩ ⟨rfl,rfl⟩
    ⟨h.balanced.context,h.balanced.completion,h.balanced.reservation⟩
    (h.once.keep (Nat.le_refl _) rfl rfl rfl Iff.rfl Iff.rfl)
    (h.admitted.keep rfl rfl rfl rfl h.admitted.unmade (fun hbad => absurd hcontext hbad.2)
      (fun hbad => absurd (hcontext.symm.trans hbad) nofun))

end Remaining

section Kept

/-- How a step on a file moves the counters and the handles of the operation. -/
inductive Counting (f : File) (s : Shared) (g : File) (t : Shared) : Prop
  /-- Nothing is counted and no handle is dropped. -/
  | same (ends : g.ends=f.ends) (operation : g.operation=f.operation) (stats : t.stats=s.stats)
      (operations : t.operations=s.operations) (sent : t.sent=s.sent)
  /-- The end of the file is counted while it holds the operation. -/
  | ended (info : FileInfo) (held : f.operation=true) (ends : g.ends=f.ends++[info])
      (operation : g.operation=f.operation) (stats : t.stats=s.stats.addEndFile info)
      (operations : t.operations=s.operations) (sent : t.sent=s.sent)
  /-- The file drops its handle of the operation. -/
  | closed (held : f.operation=true) (ends : g.ends=f.ends) (operation : g.operation=false)
      (shared : t=s.dropOperation)

/-- A file has a payload exactly when it was staged and has not gone to a publisher, or has. -/
def PayloadFollows (f : File) : Prop :=
  f.payload=.absent ↔ f.staged=[] ∧ f.publisher.stage=.absent

/-- Whether the scanning thread still has the file. -/
def Stage.scanned : Stage→Bool
  | .considered => true
  | .submitting => true
  | _ => false

/-- What a step on a file keeps, and how it moves the shared accounts. -/
structure Kept (staging : Staging) (f : File) (s : Shared) (g : File) (t : Shared) : Prop where
  /-- The invariant of the file. -/
  sound : Sound staging g
  /-- The payload is that of the staged file. -/
  payload : PayloadFollows g
  /-- What the scan found out. -/
  found : g.found=f.found
  /-- The batch of the file. -/
  batch : g.batch=f.batch
  /-- What the scanning thread has received. -/
  received : g.received=f.received
  /-- A file that the scanning thread has is not touched, and no file goes back to it. -/
  reader : g.reader=f.reader ∨ f.reader.stage.scanned=false ∧ g.reader.stage.scanned=false
  /-- The budget moves with the reservation. -/
  bytes : t.usage.bytes+f.reservation.getD 0=s.usage.bytes+g.reservation.getD 0
  /-- Only a reader of its own reserves. -/
  room : t.usage.bytes≤ s.usage.bytes ∨ staging.isBatched=false ∧ t.usage.bytes≤ staging.limit
  /-- A dropped reservation does not come back in a batch. -/
  freed : staging.isBatched=true → f.reservation=none → g.reservation=none
  /-- A stopped budget stays stopped. -/
  stopped : s.usage.stopped=true → t.usage.stopped=true
  /-- A failed close stops the budget. -/
  failed : g.payload=.closeFailed → f.payload=.closeFailed ∨ t.usage.stopped=true
  /-- No assertion fails. -/
  fault : t.fault=s.fault
  /-- Acknowledgements are sent by dropping their senders. -/
  acknowledged : t.acknowledged+g.holders .finished=s.acknowledged+f.holders .finished
  /-- Counters and handles of the operation. -/
  counting : Counting f s g t
  /-- A sent message stays sent. -/
  message : f.completion=.dropped → g.completion=.dropped
  /-- In a batch, what was staged when the message was sent stays. -/
  staged : staging.isBatched=true → f.completion=.dropped → g.staged=f.staged
  /-- In a batch, only the scanning thread sends a file to the publishers. -/
  unpublished : staging.isBatched=true → (g.publisher.stage=.absent ↔ f.publisher.stage=.absent)
  /-- A publisher that is done stays so, with the payload closed or not. -/
  leaving : f.publisher.stage=.leaving → g.publisher.stage=.leaving ∧ g.payload=f.payload

/-- A file whose completion guard is gone is with no writer that works on it, in a batch. -/
theorem Sound.writer_done (h : Sound staging f) (hb : staging.isBatched=true)
    (hcompletion : f.completion=.dropped) : f.writer.stage≠.working := by
  intro hstage
  have howned := h.working_owned hstage
  have hguards := h.balanced.completion
  rw [hcompletion] at hguards
  have hnone : f.holders .completion=0 := hguards
  cases staging with
  | direct => cases hb
  | scratch limit hlimit => cases hb
  | batched limits =>
    have hcount : f.writer.owned.count .completion=1 := by rw [howned]; rfl
    unfold File.holders at hnone
    omega

/-- The answers of a reservation under a limit: room is taken, or nothing changes. -/
theorem reserveBytes_cases {limit bytes : ℕ} {granted : Bool} (hlimit : limit≤u64Max)
    (hused : s.usage.bytes≤limit) (h : reserveBytes limit bytes s=some (granted,t)) :
    (granted=true ∧ s.usage.bytes+bytes≤limit ∧
        t={s with usage := {s.usage with bytes := s.usage.bytes+bytes}}) ∨
      (granted=false ∧ t=s) := by
  unfold reserveBytes at h
  by_cases hover : limit<bytes
  · rw [if_pos hover] at h
    obtain ⟨rfl,rfl⟩ := Prod.mk.inj (Option.some.inj h)
    exact .inr ⟨rfl,rfl⟩
  · rw [if_neg hover] at h
    rcases @tryReserve_cases limit bytes s.usage hlimit hused with
      ⟨_,htry⟩|⟨_,_,htry⟩|⟨_,hfit,htry⟩
    · rw [htry] at h
      obtain ⟨rfl,rfl⟩ := Prod.mk.inj (Option.some.inj h)
      exact .inr ⟨rfl,rfl⟩
    · rw [htry] at h
      cases h
    · rw [htry] at h
      obtain ⟨rfl,rfl⟩ := Prod.mk.inj (Option.some.inj h)
      exact .inl ⟨rfl,hfit,rfl⟩

/-- Giving back no more than is used. -/
theorem giveBack_of {bytes : ℕ} (h : bytes≤ s.usage.bytes) :
    giveBack bytes s={s with usage := {s.usage with bytes := s.usage.bytes-bytes}} := by
  unfold giveBack
  rw [release_of h]

/-- A step that leaves the file with the threads and the staged file where it is. -/
structure SamePlaces (f g : File) : Prop where
  reader : g.reader=f.reader ∨ f.reader.stage.scanned=false ∧ g.reader.stage.scanned=false
  absent : g.publisher.stage=.absent ↔ f.publisher.stage=.absent
  leaving : f.publisher.stage=.leaving → g.publisher.stage=.leaving
  staged : g.staged=f.staged ∧ g.payload=f.payload

/-- A step that leaves the reservation and the staged file alone. -/
theorem Kept.frame {g : File} (hpayload : PayloadFollows f) (hsound : Sound staging g)
    (hfound : g.found=f.found ∧ g.batch=f.batch ∧ g.received=f.received) (hplaces : SamePlaces f g)
    (hreservation : g.reservation=f.reservation) (hshared : t.usage=s.usage ∧ t.fault=s.fault)
    (hacknowledged : t.acknowledged+g.holders .finished=s.acknowledged+f.holders .finished)
    (hcounting : Counting f s g t) (hmessage : f.completion=.dropped → g.completion=.dropped) :
    Kept staging f s g t where
  sound := hsound
  payload := by
    unfold PayloadFollows
    rw [hplaces.staged.1,hplaces.staged.2,hplaces.absent]
    exact hpayload
  found := hfound.1
  batch := hfound.2.1
  received := hfound.2.2
  reader := hplaces.reader
  bytes := by rw [hshared.1,hreservation]
  room := .inl (by rw [hshared.1])
  freed := fun _ hnone => hreservation.trans hnone
  stopped := fun hstopped => by rw [hshared.1]; exact hstopped
  failed := fun hfailed => .inl (hplaces.staged.2.symm.trans hfailed)
  fault := hshared.2
  acknowledged := hacknowledged
  counting := hcounting
  message := hmessage
  staged := fun _ _ => hplaces.staged.1
  unpublished := fun _ => hplaces.absent
  leaving := fun hstage => ⟨hplaces.leaving hstage,hplaces.staged.2⟩

/-- A step that leaves the shared accounts alone. -/
theorem Kept.quiet {g : File} (hpayload : PayloadFollows f) (hsound : Sound staging g)
    (hfound : g.found=f.found ∧ g.batch=f.batch ∧ g.received=f.received)
    (hreader : g.reader=f.reader ∨ f.reader.stage.scanned=false ∧ g.reader.stage.scanned=false)
    (hstaged : g.reservation=f.reservation ∧ g.payload=f.payload ∧ g.staged=f.staged)
    (habsent : g.publisher.stage=.absent ↔ f.publisher.stage=.absent)
    (hleaving : f.publisher.stage=.leaving → g.publisher.stage=.leaving)
    (hfinished : g.holders .finished=f.holders .finished)
    (hends : g.ends=f.ends ∧ g.operation=f.operation)
    (hmessage : f.completion=.dropped → g.completion=.dropped) : Kept staging f s g s :=
  .frame hpayload hsound hfound ⟨hreader,habsent,hleaving,hstaged.2.2,hstaged.2.1⟩ hstaged.1
    ⟨rfl,rfl⟩ (by rw [hfinished]) (.same hends.1 hends.2 rfl rfl rfl) hmessage

/-- The reader goes on; the scanning thread neither has the file nor gets it back. -/
theorem Kept.moveReader (h : Sound staging f) (hp : PayloadFollows f) {stage : Stage}
    (howns : ReaderOwns staging ⟨stage,f.reader.owned⟩)
    (hearly : stage.early=true → f.reader.stage.early=true) (hold : f.reader.stage.scanned=false)
    (hnew : stage.scanned=false) :
    Kept staging f s {f with reader := ⟨stage,f.reader.owned⟩} s := by
  have hbefore : f.reader.stage≠.considered := by
    intro hbad
    rw [hbad] at hold
    cases hold
  have hafter : stage≠.considered := by
    rintro rfl
    cases hnew
  exact .quiet hp (h.moveReader howns hearly hbefore hafter) ⟨rfl,rfl,rfl⟩ (.inr ⟨hold,hnew⟩)
    ⟨rfl,rfl,rfl⟩ Iff.rfl id rfl ⟨rfl,rfl⟩ id

/-- A publisher goes on to another stage of its work. -/
theorem Kept.movePublisher (h : Sound staging f) (hp : PayloadFollows f) {stage : Stage}
    (howns : PublisherOwns staging f.payload ⟨stage,f.publisher.owned⟩)
    (hmay : f.publisher.stage.mayReport=true) (hold : f.publisher.stage≠.leaving)
    (hnew : stage≠.absent) (hcounting : stage.isCounting=false) :
    Kept staging f s {f with publisher := ⟨stage,f.publisher.owned⟩} s := by
  have hpresent : f.publisher.stage≠.absent := by
    intro hbad
    rw [hbad] at hmay
    cases hmay
  have hquiet : f.publisher.stage.isCounting=false := by
    cases hstage : f.publisher.stage with
    | counting =>
      rw [hstage] at hmay
      cases hmay
    | _ => rfl
  exact .quiet hp (h.movePublisher howns (fun _ => hmay) hpresent hquiet hcounting) ⟨rfl,rfl,rfl⟩
    (.inl rfl) ⟨rfl,rfl,rfl⟩ (iff_of_false hnew hpresent) (fun hbad => absurd hbad hold) rfl
    ⟨rfl,rfl⟩ id

/-- A handle of the context is cloned or dropped while it has others. -/
theorem Kept.setContext (h : Sound staging f) (hp : PayloadFollows f) {context : Arc}
    {jobs blocks : ℕ} (hcounts : context.Counts (f.holders .context+jobs))
    (hold : f.context.Pending) (hnew : context.Pending) :
    Kept staging f s {f with blocks := blocks, jobs := jobs, context := context} s :=
  .quiet hp (h.setContext hcounts hold hnew) ⟨rfl,rfl,rfl⟩ (.inl rfl) ⟨rfl,rfl,rfl⟩ Iff.rfl id rfl
    ⟨rfl,rfl⟩ id

end Kept

section Steps

/-- A reader gets or does not get its reservation. -/
theorem Kept.reserve {g : File} (h : Sound config.staging f) (hp : PayloadFollows f)
    (hlimit : s.usage.bytes≤config.staging.limit) (hstep : f.step config .reserve s=some (g,t)) :
    Kept config.staging f s g t := by
  simp only [File.step] at hstep
  split_ifs at hstep with hstage
  have hearly : f.reader.stage.early=true := by rw [hstage]; rfl
  have hnone : f.reservation=none := by
    have hcount := h.balanced.reservation
    have hreader := h.reader
    unfold ReaderOwns at hreader
    rw [hstage] at hreader
    rw [h.holders_alone hearly,hreader.1] at hcount
    cases hr : f.reservation with
    | none => rfl
    | some bytes =>
      rw [hr] at hcount
      cases hcount
  have hplain : config.staging.isBatched=false := by
    have hreader := h.reader
    unfold ReaderOwns at hreader
    rw [hstage] at hreader
    obtain ⟨_,hafter⟩ := hreader
    cases hstaging : config.staging with
    | direct => rfl
    | scratch limit hle => rfl
    | batched limits =>
      rw [hstaging] at hafter
      cases hafter
  cases hreserve : reserveBytes config.staging.limit (config.request f.found.metadata.len) s with
  | none =>
    rw [hreserve] at hstep
    cases hstep
  | some result =>
    obtain ⟨granted,after⟩ := result
    rw [hreserve] at hstep
    rcases reserveBytes_cases config.staging.limit_le hlimit hreserve with ⟨rfl,hfit,rfl⟩|⟨rfl,rfl⟩
    · obtain ⟨rfl,rfl⟩ := Prod.mk.inj (Option.some.inj hstep)
      exact {
        sound := h.reserve hstage _
        payload := hp
        found := rfl
        batch := rfl
        received := rfl
        reader := .inr ⟨by rw [hstage]; rfl,rfl⟩
        bytes := by
          rw [hnone]
          exact Nat.add_zero _
        room := .inr ⟨hplain,hfit⟩
        freed := fun hb => Bool.noConfusion (hplain.symm.trans hb)
        stopped := id
        failed := .inl
        fault := rfl
        acknowledged := by
          have hold := h.holders_alone hearly .finished
          obtain ⟨hwriter,hstaged,hpublisher⟩ := h.alone hearly
          have hnot := List.count_eq_zero.mpr h.readerOrderly.other
          have horderly : Orderly config.staging.isBatched .completion .finished
              config.staging.reserved := config.staging.orderly (by simp [Staging.lists])
          have hnew := List.count_eq_zero.mpr horderly.other
          unfold File.holders at hold ⊢
          rw [hold,hnot]
          simp [hwriter,hstaged,hpublisher,hnew]
        counting := .same rfl rfl rfl rfl rfl
        message := id
        staged := fun _ _ => rfl
        unpublished := fun _ => Iff.rfl
        leaving := fun hl => ⟨hl,rfl⟩ }
    · obtain ⟨rfl,rfl⟩ := Prod.mk.inj (Option.some.inj hstep)
      exact .moveReader h hp trivial (fun hbad => by cases hbad) (by rw [hstage]; rfl) rfl

/-- What a writer is sent, and what it keeps, acknowledges nothing. -/
theorem Staging.count_finished (staging : Staging) :
    staging.kept.count .finished=0 ∧ staging.handed.count .finished=0 ∧
      staging.reserved.count .finished=0 := by
  cases staging with
  | direct => exact ⟨rfl,rfl,rfl⟩
  | scratch limit h => exact ⟨rfl,rfl,rfl⟩
  | batched limits => exact ⟨rfl,rfl,rfl⟩

/-- A writer completes the staged file and shrinks its reservation. -/
theorem Kept.finishStaging (h : Sound staging f)
    (hstage : f.writer.stage=.working) (hscratch : staging.usesScratch=true) {kept : ℕ}
    (hkept : kept≤f.reservation.getD 0) (hle : f.reservation.getD 0≤ s.usage.bytes) :
    Kept staging f s (finishStaging staging (some kept) f s).1
      (finishStaging staging (some kept) f s).2 := by
  have howned := h.working_owned hstage
  obtain ⟨hstaged,hpublisher⟩ :=
    h.inOrder.unstaged (by rw [hstage]; nofun) (by rw [hstage]; nofun)
  have hgive := @giveBack_of s (f.reservation.getD 0-kept) (by omega)
  obtain ⟨hkeptNone,hhandedNone,_⟩ := staging.count_finished
  have hpresent : f.reservation≠none := by
    intro hnone
    have hcount := h.balanced.reservation
    have hone : f.writer.owned.count .reservation=1 := by
      rw [howned]
      cases staging with
      | direct => cases hscratch
      | scratch limit hlimit => rfl
      | batched limits => rfl
    rw [hnone] at hcount
    unfold File.holders at hcount
    simp only [Option.toList_none,List.length_nil] at hcount
    omega
  unfold FileThreads.finishStaging shrinkTo
  dsimp only
  rw [hgive]
  exact {
    sound := h.finishStaging hstage hscratch kept
    payload := by simp [PayloadFollows]
    found := rfl
    batch := rfl
    received := rfl
    reader := .inl rfl
    bytes := by
      dsimp only
      rw [Option.getD_some]
      omega
    room := .inl (Nat.sub_le _ _)
    freed := fun _ hnone => absurd hnone hpresent
    stopped := id
    failed := nofun
    fault := rfl
    acknowledged := by
      unfold File.holders
      simp [howned,hstaged,hpublisher,hkeptNone,hhandedNone]
    counting := .same rfl rfl rfl rfl rfl
    message := id
    staged := fun hb hdropped => absurd hstage (h.writer_done hb hdropped)
    unpublished := fun _ => Iff.rfl
    leaving := fun hbad => by rw [hpublisher] at hbad; cases hbad }

/-- A writer sends the staged file to the publishers itself, without a batch. -/
theorem Kept.sendStaged (h : Sound staging f)
    (hstage : f.writer.stage=.sending) : Kept staging f s {f with
      writer := ⟨.leaving,f.writer.owned⟩
      staged := []
      publisher := ⟨.queued,staging.published⟩} s := by
  have hwriter := h.writer
  unfold WriterOwns at hwriter
  rw [hstage] at hwriter
  obtain ⟨limit,hlimit,rfl⟩ : ∃ limit hlimit, staging=.scratch limit hlimit := by
    cases staging with
    | direct => cases hwriter.2
    | scratch limit hlimit => exact ⟨limit,hlimit,rfl⟩
    | batched limits => cases hwriter.2
  have hstaged := h.inOrder.sending hstage
  obtain ⟨hlist,hpayload,hpublisher⟩ := h.inOrder.staged.resolve_left hstaged
  exact {
    sound := h.sendStaged hstaged rfl
    payload := by simp [PayloadFollows,hpayload]
    found := rfl
    batch := rfl
    received := rfl
    reader := .inl rfl
    bytes := rfl
    room := .inl (Nat.le_refl _)
    freed := nofun
    stopped := id
    failed := .inl
    fault := rfl
    acknowledged := by simp [File.holders,hlist,hpublisher,Staging.published]
    counting := .same rfl rfl rfl rfl rfl
    message := id
    staged := nofun
    unpublished := nofun
    leaving := fun hbad => by rw [hpublisher] at hbad; cases hbad }

/-- A publisher closes the payload or stops the budget. -/
theorem Kept.close (h : Sound staging f)
    (hstage : f.publisher.stage=.closing) (ok : Bool) : Kept staging f s {f with
      payload := if ok then .closed else .closeFailed
      publisher := ⟨.leaving,f.publisher.owned⟩}
      (if ok then s else {s with usage := {s.usage with stopped := true}}) := by
  have hpayload : (if ok then Payload.closed else .closeFailed)=.closed ∨
      (if ok then Payload.closed else .closeFailed)=.closeFailed := by
    cases ok with
    | true => exact .inl rfl
    | false => exact .inr rfl
  have hsound := @Sound.movePublisher staging f h .leaving
    (if ok then .closed else .closeFailed) hpayload nofun (by rw [hstage]; nofun)
    (by rw [hstage]; rfl) rfl
  cases ok with
  | true =>
    exact {
      sound := hsound
      payload := by simp [PayloadFollows]
      found := rfl
      batch := rfl
      received := rfl
      reader := .inl rfl
      bytes := rfl
      room := .inl (Nat.le_refl _)
      freed := fun _ => id
      stopped := id
      failed := nofun
      fault := rfl
      acknowledged := rfl
      counting := .same rfl rfl rfl rfl rfl
      message := id
      staged := fun _ _ => rfl
      unpublished := fun _ => iff_of_false nofun (by rw [hstage]; nofun)
      leaving := fun hbad => by rw [hstage] at hbad; cases hbad }
  | false =>
    exact {
      sound := hsound
      payload := by simp [PayloadFollows]
      found := rfl
      batch := rfl
      received := rfl
      reader := .inl rfl
      bytes := rfl
      room := .inl (Nat.le_refl _)
      freed := fun _ => id
      stopped := fun _ => rfl
      failed := fun _ => .inr rfl
      fault := rfl
      acknowledged := rfl
      counting := .same rfl rfl rfl rfl rfl
      message := id
      staged := fun _ _ => rfl
      unpublished := fun _ => iff_of_false nofun (by rw [hstage]; nofun)
      leaving := fun hbad => by rw [hstage] at hbad; cases hbad }

/-- The holders of a thing when one thread goes on to a stage at which it owns the same. -/
theorem holders_setStage (role : Role) (stage : Stage) (o : Owned) :
    (f.setThread ⟨stage,(f.thread role).owned⟩ role).holders o=f.holders o := by
  cases role <;> rfl

/-- A report counts the end. -/
theorem Kept.count (h : Sound staging f) (hp : PayloadFollows f) {role : Role}
    (hstage : (f.thread role).stage=.counting) (info : FileInfo) : Kept staging f s
      (addEnd info (f.setThread ⟨role.afterReport,(f.thread role).owned⟩ role) s).1
      (addEnd info (f.setThread ⟨role.afterReport,(f.thread role).owned⟩ role) s).2 := by
  have hsound := h.count hstage info s
  have hheld := h.admitted.operation (h.reporting_context (.inr hstage)).1
  have hholders := @holders_setStage f role role.afterReport .finished
  cases role with
  | reader => exact (h.reader.silent (.inr hstage)).elim
  | writer =>
    exact .frame hp hsound ⟨rfl,rfl,rfl⟩ ⟨.inl rfl,Iff.rfl,id,rfl,rfl⟩ rfl ⟨rfl,rfl⟩
      (congrArg (s.acknowledged+·) hholders) (.ended info hheld rfl rfl rfl rfl rfl) id
  | publisher =>
    rw [File.thread] at hstage
    have hpresent : ¬f.publisher.stage=.absent := by rw [hstage]; simp
    have hworking : ¬f.publisher.stage=.leaving := by rw [hstage]; simp
    exact .frame hp hsound ⟨rfl,rfl,rfl⟩
      ⟨.inl rfl,iff_of_false (fun hbad => by cases hbad) hpresent,fun hbad => absurd hbad hworking,
        rfl,rfl⟩ rfl ⟨rfl,rfl⟩
      (congrArg (s.acknowledged+·) hholders) (.ended info hheld rfl rfl rfl rfl rfl) id

/-- A leaving thread stays at its stage. -/
theorem samePlaces_pop {role : Role} {o : Owned} {owned : List Owned}
    (hthread : f.thread role=⟨.leaving,o::owned⟩) :
    SamePlaces f (f.setThread ⟨.leaving,owned⟩ role) := by
  cases role with
  | reader =>
    rw [File.thread] at hthread
    exact ⟨.inr ⟨by rw [hthread]; rfl,rfl⟩,Iff.rfl,id,rfl,rfl⟩
  | writer => exact ⟨.inl rfl,Iff.rfl,id,rfl,rfl⟩
  | publisher =>
    rw [File.thread] at hthread
    refine ⟨.inl rfl,iff_of_false (fun hbad => by cases hbad) ?_,fun _ => rfl,rfl,rfl⟩
    rw [hthread]
    simp

/-- A leaving thread drops the next thing it owns. -/
theorem Kept.drop (h : Sound staging f) (hp : PayloadFollows f) {role : Role} {o : Owned}
    {owned : List Owned} (hthread : f.thread role=⟨.leaving,o::owned⟩)
    (hle : f.reservation.getD 0≤ s.usage.bytes) : Kept staging f s
      (o.drop (f.setThread ⟨.leaving,owned⟩ role) s).1
      (o.drop (f.setThread ⟨.leaving,owned⟩ role) s).2 := by
  have hsound := h.drop hthread s
  have hplaces := samePlaces_pop hthread
  have hpop := holders_pop hthread .finished
  have hpayload : PayloadFollows (f.setThread ⟨.leaving,owned⟩ role) := by
    unfold PayloadFollows
    rw [hplaces.staged.1,hplaces.staged.2,hplaces.absent]
    exact hp
  obtain ⟨hreservation,hcompletion,hends,hoperation,hfound⟩ :
      (f.setThread ⟨.leaving,owned⟩ role).reservation=f.reservation ∧
      (f.setThread ⟨.leaving,owned⟩ role).completion=f.completion ∧
      (f.setThread ⟨.leaving,owned⟩ role).ends=f.ends ∧
      (f.setThread ⟨.leaving,owned⟩ role).operation=f.operation ∧
      (f.setThread ⟨.leaving,owned⟩ role).found=f.found ∧
      (f.setThread ⟨.leaving,owned⟩ role).batch=f.batch ∧
      (f.setThread ⟨.leaving,owned⟩ role).received=f.received := by
    cases role <;> exact ⟨rfl,rfl,rfl,rfl,rfl,rfl,rfl⟩
  cases o with
  | reservation =>
    unfold Owned.drop dropReservation at hsound ⊢
    dsimp only at hsound ⊢
    rw [hreservation,giveBack_of hle]
    exact {
      sound := hsound
      payload := hpayload
      found := hfound.1
      batch := hfound.2.1
      received := hfound.2.2
      reader := hplaces.reader
      bytes := by
        dsimp only
        rw [Option.getD_none]
        omega
      room := .inl (Nat.sub_le _ _)
      freed := fun _ _ => rfl
      stopped := id
      failed := fun hfailed => .inl (hplaces.staged.2.symm.trans hfailed)
      fault := rfl
      acknowledged := congrArg (s.acknowledged+·) hpop
      counting := .same hends hoperation rfl rfl rfl
      message := hcompletion.trans
      staged := fun _ _ => hplaces.staged.1
      unpublished := fun _ => hplaces.absent
      leaving := fun hl => ⟨hplaces.leaving hl,hplaces.staged.2⟩ }
  | completion =>
    refine .quiet hp hsound hfound hplaces.reader ⟨hreservation,hplaces.staged.2,hplaces.staged.1⟩
      hplaces.absent hplaces.leaving hpop ⟨hends,hoperation⟩ fun hdropped => ?_
    unfold Owned.drop
    dsimp only
    rw [hcompletion,hdropped]
    rfl
  | context =>
    exact .quiet hp hsound hfound hplaces.reader ⟨hreservation,hplaces.staged.2,hplaces.staged.1⟩
      hplaces.absent hplaces.leaving hpop ⟨hends,hoperation⟩ hcompletion.trans
  | finished =>
    refine .frame hp hsound hfound hplaces hreservation ⟨rfl,rfl⟩ ?_
      (.same hends hoperation rfl rfl rfl) hcompletion.trans
    have hone : [Owned.finished].count .finished=1 := rfl
    change s.acknowledged+1+(f.setThread ⟨.leaving,owned⟩ role).holders .finished=_
    omega

/-- The context is destroyed; the end is counted unless it was reported. -/
theorem Kept.dropContext (h : Sound staging f) (hp : PayloadFollows f)
    (hcontext : f.context=.dropping) : Kept staging f s
      (if f.reported then ({f with context := .dropped},s)
        else addEnd f.found.info {f with context := .dropped} s).1
      (if f.reported then ({f with context := .dropped},s)
        else addEnd f.found.info {f with context := .dropped} s).2 := by
  have hsound := h.dropContext hcontext f.found.info
  have hheld := h.admitted.operation (by rw [hcontext]; exact ⟨nofun,nofun⟩)
  cases hreported : f.reported with
  | true =>
    rw [hreported,if_pos rfl] at hsound
    rw [if_pos rfl]
    exact .quiet hp hsound ⟨rfl,rfl,rfl⟩ (.inl rfl) ⟨rfl,rfl,rfl⟩ Iff.rfl id rfl ⟨rfl,rfl⟩ id
  | false =>
    rw [hreported,if_neg Bool.false_ne_true] at hsound
    rw [if_neg Bool.false_ne_true]
    exact .frame hp hsound ⟨rfl,rfl,rfl⟩ ⟨.inl rfl,Iff.rfl,id,rfl,rfl⟩ rfl ⟨rfl,rfl⟩ rfl
      (.ended f.found.info hheld rfl rfl rfl rfl rfl) id

/-- Dropping a handle of the operation leaves the budget, the acknowledgements and the faults. -/
theorem Shared.dropOperation_same (s : Shared) : s.dropOperation.usage=s.usage ∧
    s.dropOperation.acknowledged=s.acknowledged ∧ s.dropOperation.fault=s.fault := by
  unfold Shared.dropOperation
  split
  · exact ⟨rfl,rfl,rfl⟩
  · exact ⟨rfl,rfl,rfl⟩

/-- The context drops its handle of the operation. -/
theorem Kept.dropOperation (h : Sound staging f) (hp : PayloadFollows f)
    (hcontext : f.context=.dropped) (hheld : f.operation=true) :
    Kept staging f s {f with operation := false} s.dropOperation := by
  obtain ⟨husage,hacknowledged,hfault⟩ := s.dropOperation_same
  refine .frame hp (h.dropOperation hcontext) ⟨rfl,rfl,rfl⟩ ⟨.inl rfl,Iff.rfl,id,rfl,rfl⟩ rfl
    ⟨husage,hfault⟩ ?_ (.closed hheld rfl rfl rfl) id
  rw [hacknowledged]
  rfl

/-- Where a report begins, none was made before. -/
theorem Sound.unreported (h : Sound staging f) {role : Role}
    (hstage : (f.thread role).stage=.reporting) : f.reported=false := by
  have hone := h.once.reporters
  have hmay : 1≤f.reporters := by
    unfold File.reporters
    cases role with
    | reader => exact (h.reader.silent (.inl hstage)).elim
    | writer =>
      rw [File.thread] at hstage
      rw [hstage]
      simp only [Stage.mayReport,Bool.toNat_true]
      omega
    | publisher =>
      rw [File.thread] at hstage
      rw [hstage]
      simp only [Stage.mayReport,Bool.toNat_true]
      omega
  cases hreported : f.reported with
  | false => rfl
  | true =>
    rw [hreported,Bool.toNat_true] at hone
    omega

/-- A report sets the flag or gives up. -/
theorem Kept.report (h : Sound staging f) (hp : PayloadFollows f) {role : Role}
    (hstage : (f.thread role).stage=.reporting) (metadata : Bool) : Kept staging f s
      (reportNewStats role metadata f s).1 (reportNewStats role metadata f s).2 := by
  obtain ⟨hsound,hshared⟩ := h.report hstage metadata s
  have hreported := h.unreported hstage
  rw [hshared]
  unfold reportNewStats at hsound ⊢
  simp only [hreported,Bool.false_eq_true,if_false] at hsound ⊢
  cases role with
  | reader => exact (h.reader.silent (.inl hstage)).elim
  | writer =>
    cases metadata with
    | true =>
      exact .quiet hp hsound ⟨rfl,rfl,rfl⟩ (.inl rfl) ⟨rfl,rfl,rfl⟩ Iff.rfl id rfl ⟨rfl,rfl⟩ id
    | false =>
      exact .quiet hp hsound ⟨rfl,rfl,rfl⟩ (.inl rfl) ⟨rfl,rfl,rfl⟩ Iff.rfl id rfl ⟨rfl,rfl⟩ id
  | publisher =>
    rw [File.thread] at hstage
    cases metadata with
    | true =>
      exact .quiet hp hsound ⟨rfl,rfl,rfl⟩ (.inl rfl) ⟨rfl,rfl,rfl⟩
        (iff_of_false (fun hbad => by cases hbad) (by rw [hstage]; simp))
        (by rw [hstage]; simp) rfl ⟨rfl,rfl⟩ id
    | false =>
      exact .quiet hp hsound ⟨rfl,rfl,rfl⟩ (.inl rfl) ⟨rfl,rfl,rfl⟩
        (iff_of_false (fun hbad => by cases hbad) (by rw [hstage]; simp))
        (by rw [hstage]; simp) rfl ⟨rfl,rfl⟩ id

variable {g : File}

/-- A reader takes the file. -/
theorem Kept.takeRead (h : Sound config.staging f) (hp : PayloadFollows f)
    (hstep : f.step config .takeRead s=some (g,t)) : Kept config.staging f s g t := by
  simp only [File.step] at hstep
  obtain ⟨hstage,hstep⟩ := Option.ite_none_right_eq_some.mp hstep
  obtain ⟨rfl,rfl⟩ := Prod.mk.inj (Option.some.inj hstep)
  have howns : ReaderOwns config.staging ⟨config.staging.afterTake,f.reader.owned⟩ := by
    have hreader := h.reader
    unfold ReaderOwns at hreader
    rw [hstage] at hreader
    cases hstaging : config.staging with
    | direct => rw [hstaging] at hreader; exact hreader
    | scratch limit hle => rw [hstaging] at hreader; exact ⟨hreader,rfl⟩
    | batched limits => rw [hstaging] at hreader; exact hreader
  exact .moveReader h hp howns (fun _ => by rw [hstage]; rfl) (by rw [hstage]; rfl)
    (by cases config.staging <;> rfl)

/-- A reader opens the file, or fails to. -/
theorem Kept.openFile (h : Sound config.staging f) (hp : PayloadFollows f) {ok : Bool}
    (hstep : f.step config (.openFile ok) s=some (g,t)) : Kept config.staging f s g t := by
  simp only [File.step] at hstep
  obtain ⟨hstage,hstep⟩ := Option.ite_none_right_eq_some.mp hstep
  obtain ⟨rfl,rfl⟩ := Prod.mk.inj (Option.some.inj hstep)
  have hreader := h.reader
  unfold ReaderOwns at hreader
  rw [hstage] at hreader
  have howns : ReaderOwns config.staging ⟨if ok then .handing else .leaving,f.reader.owned⟩ := by
    cases ok with
    | true => exact hreader
    | false => trivial
  exact .moveReader h hp howns (fun _ => by rw [hstage]; rfl) (by rw [hstage]; rfl)
    (by cases ok <;> rfl)

/-- A reader hands the file to the writers. -/
theorem Kept.hand (h : Sound config.staging f) (hp : PayloadFollows f)
    (hstep : f.step config .hand s=some (g,t)) : Kept config.staging f s g t := by
  simp only [File.step] at hstep
  obtain ⟨hstage,hstep⟩ := Option.ite_none_right_eq_some.mp hstep
  obtain ⟨rfl,rfl⟩ := Prod.mk.inj (Option.some.inj hstep)
  obtain ⟨hwriter,hstaged,hpublisher⟩ := h.alone (by rw [hstage]; rfl)
  obtain ⟨hkept,hhanded,hreserved⟩ := config.staging.count_finished
  refine .quiet hp (h.hand hstage) ⟨rfl,rfl,rfl⟩ (.inr ⟨by rw [hstage]; rfl,rfl⟩) ⟨rfl,rfl,rfl⟩
    Iff.rfl id ?_ ⟨rfl,rfl⟩ fun hdropped => ?_
  · unfold File.holders
    dsimp only
    rw [h.handing_owned hstage,hwriter,hkept,hhanded,hreserved]
    rfl
  · exact (config.staging.cloneCompletion_eq_iff .dropped fun _ => by simp).mpr hdropped

/-- A block of the file goes to the compressors with a handle of the context. -/
theorem Kept.spawn (h : Sound config.staging f) (hp : PayloadFollows f)
    (hstep : f.step config .spawn s=some (g,t)) : Kept config.staging f s g t := by
  simp only [File.step] at hstep
  obtain ⟨hguard,hstep⟩ := Option.ite_none_right_eq_some.mp hstep
  obtain ⟨rfl,rfl⟩ := Prod.mk.inj (Option.some.inj hstep)
  have hreader := h.reader
  unfold ReaderOwns at hreader
  rw [hguard.1] at hreader
  have hkept := config.staging.count_context.2.2.1
  have hheld : 0<f.holders .context+f.jobs := by
    unfold File.holders
    rw [hreader,hkept]
    omega
  have hcloned := h.balanced.context.clone hheld
  exact .setContext h hp hcloned (pending_of_counts h.balanced.context hheld)
    (pending_of_counts hcloned (Nat.succ_pos _))

/-- A compressor is done with a block and drops its handle of the context. -/
theorem Kept.finishJob (h : Sound config.staging f) (hp : PayloadFollows f)
    (hstep : f.step config .finishJob s=some (g,t)) : Kept config.staging f s g t := by
  simp only [File.step] at hstep
  obtain ⟨hjobs,hstep⟩ := Option.ite_none_right_eq_some.mp hstep
  obtain ⟨rfl,rfl⟩ := Prod.mk.inj (Option.some.inj hstep)
  have hcounts : f.context.Counts (f.holders .context+(f.jobs-1)+1) :=
    h.balanced.context.of_eq (by omega)
  exact .setContext h hp hcounts.release (pending_of_counts hcounts (Nat.succ_pos _))
    (Arc.release_pending hcounts)

/-- A reader has read the file. -/
theorem Kept.finishReading (h : Sound config.staging f) (hp : PayloadFollows f)
    (hstep : f.step config .finishReading s=some (g,t)) : Kept config.staging f s g t := by
  simp only [File.step] at hstep
  obtain ⟨hstage,hstep⟩ := Option.ite_none_right_eq_some.mp hstep
  obtain ⟨rfl,rfl⟩ := Prod.mk.inj (Option.some.inj hstep)
  exact .moveReader h hp trivial (fun hbad => by cases hbad) (by rw [hstage]; rfl) rfl

/-- A writer takes the file. -/
theorem Kept.takeWrite (h : Sound config.staging f) (hp : PayloadFollows f)
    (hstep : f.step config .takeWrite s=some (g,t)) : Kept config.staging f s g t := by
  simp only [File.step] at hstep
  obtain ⟨hstage,hstep⟩ := Option.ite_none_right_eq_some.mp hstep
  obtain ⟨rfl,rfl⟩ := Prod.mk.inj (Option.some.inj hstep)
  refine .quiet hp (h.takeWrite hstage) ⟨rfl,rfl,rfl⟩ (.inl rfl) ⟨rfl,rfl,rfl⟩ Iff.rfl id ?_
    ⟨rfl,rfl⟩ id
  simp [File.holders]

/-- A writer writes the file, which takes the place of the source or not. -/
theorem Kept.write (h : Sound config.staging f) (hp : PayloadFollows f) {published : Bool}
    (hstep : f.step config (.write published) s=some (g,t)) : Kept config.staging f s g t := by
  simp only [File.step] at hstep
  obtain ⟨hguard,hstep⟩ := Option.ite_none_right_eq_some.mp hstep
  obtain ⟨rfl,rfl⟩ := Prod.mk.inj (Option.some.inj hstep)
  have hnew : (if published then Stage.reporting else .leaving)=.reporting ∨
      (if published then Stage.reporting else .leaving)=.leaving := by
    cases published with
    | true => exact .inl rfl
    | false => exact .inr rfl
  refine .quiet hp (h.write hguard.1 hguard.2 hnew) ⟨rfl,rfl,rfl⟩ (.inl rfl) ⟨rfl,rfl,rfl⟩
    Iff.rfl id ?_ ⟨rfl,rfl⟩ id
  simp [File.holders,h.working_owned hguard.1,config.staging.count_finished]

/-- A writer stages the file, keeping so many bytes of the reservation, or fails to. -/
theorem Kept.stage (h : Sound config.staging f) (hp : PayloadFollows f) {outcome : Option ℕ}
    (hle : f.reservation.getD 0≤ s.usage.bytes)
    (hstep : f.step config (.stage outcome) s=some (g,t)) : Kept config.staging f s g t := by
  simp only [File.step] at hstep
  obtain ⟨hguard,hstep⟩ := Option.ite_none_right_eq_some.mp hstep
  cases outcome with
  | none =>
    obtain ⟨rfl,rfl⟩ := Prod.mk.inj (Option.some.inj hstep)
    have hsound := h.leaveWriter (by rw [hguard.1]; simp) (by rw [hguard.1]; rfl)
    exact .quiet hp hsound ⟨rfl,rfl,rfl⟩ (.inl rfl) ⟨rfl,rfl,rfl⟩ Iff.rfl id rfl ⟨rfl,rfl⟩ id
  | some kept =>
    have hkept := @Kept.finishStaging config.staging f s h hguard.1 hguard.2.1 kept hguard.2.2 hle
    rw [Option.some.inj hstep] at hkept
    exact hkept

/-- A publisher takes the file. -/
theorem Kept.takePublish (h : Sound config.staging f) (hp : PayloadFollows f)
    (hstep : f.step config .takePublish s=some (g,t)) : Kept config.staging f s g t := by
  simp only [File.step] at hstep
  obtain ⟨hstage,hstep⟩ := Option.ite_none_right_eq_some.mp hstep
  obtain ⟨rfl,rfl⟩ := Prod.mk.inj (Option.some.inj hstep)
  have hpublisher := h.publisher
  unfold PublisherOwns at hpublisher
  rw [hstage] at hpublisher
  exact .movePublisher h hp hpublisher (by rw [hstage]; rfl) (by rw [hstage]; simp) (by simp) rfl

/-- A publisher puts the file in the place of the source, or does not. -/
theorem Kept.publish (h : Sound config.staging f) (hp : PayloadFollows f) {published : Bool}
    (hstep : f.step config (.publish published) s=some (g,t)) : Kept config.staging f s g t := by
  simp only [File.step] at hstep
  obtain ⟨hstage,hstep⟩ := Option.ite_none_right_eq_some.mp hstep
  obtain ⟨rfl,rfl⟩ := Prod.mk.inj (Option.some.inj hstep)
  have hpublisher := h.publisher
  unfold PublisherOwns at hpublisher
  rw [hstage] at hpublisher
  have howns : PublisherOwns config.staging f.payload
      ⟨if published then .reporting else .closing,f.publisher.owned⟩ := by
    cases published with
    | true => exact hpublisher
    | false => exact hpublisher
  exact .movePublisher h hp howns (by rw [hstage]; rfl) (by rw [hstage]; simp)
    (by cases published <;> simp) (by cases published <;> rfl)

/-- The completion guard sends the message of the file. -/
theorem Kept.sendMessage (h : Sound config.staging f) (hp : PayloadFollows f)
    (hstep : f.step config .sendMessage s=some (g,t)) : Kept config.staging f s g t := by
  simp only [File.step] at hstep
  obtain ⟨hdropping,hstep⟩ := Option.ite_none_right_eq_some.mp hstep
  obtain ⟨rfl,rfl⟩ := Prod.mk.inj (Option.some.inj hstep)
  exact .quiet hp (h.sendMessage hdropping) ⟨rfl,rfl,rfl⟩ (.inl rfl) ⟨rfl,rfl,rfl⟩ Iff.rfl id
    rfl ⟨rfl,rfl⟩ fun _ => rfl

/-- Every step on a file keeps its invariant and moves the shared accounts with the file. -/
theorem Kept.step {move : Move} (h : Sound config.staging f) (hp : PayloadFollows f)
    (hle : f.reservation.getD 0≤ s.usage.bytes) (hlimit : s.usage.bytes≤config.staging.limit)
    (hstep : f.step config move s=some (g,t)) : Kept config.staging f s g t := by
  cases move with
  | reserve => exact .reserve h hp hlimit hstep
  | takeRead => exact .takeRead h hp hstep
  | openFile ok => exact .openFile h hp hstep
  | hand => exact .hand h hp hstep
  | spawn => exact .spawn h hp hstep
  | finishJob => exact .finishJob h hp hstep
  | finishReading => exact .finishReading h hp hstep
  | takeWrite => exact .takeWrite h hp hstep
  | write published => exact .write h hp hstep
  | stage outcome => exact .stage h hp hle hstep
  | sendStaged =>
    simp only [File.step] at hstep
    obtain ⟨hstage,hstep⟩ := Option.ite_none_right_eq_some.mp hstep
    obtain ⟨rfl,rfl⟩ := Prod.mk.inj (Option.some.inj hstep)
    exact .sendStaged h hstage
  | takePublish => exact .takePublish h hp hstep
  | publish published => exact .publish h hp hstep
  | report role metadata =>
    simp only [File.step] at hstep
    obtain ⟨hstage,hstep⟩ := Option.ite_none_right_eq_some.mp hstep
    have hkept := @Kept.report config.staging f s h hp role hstage metadata
    rw [Option.some.inj hstep] at hkept
    exact hkept
  | count role info =>
    simp only [File.step] at hstep
    obtain ⟨hstage,hstep⟩ := Option.ite_none_right_eq_some.mp hstep
    have hkept := @Kept.count config.staging f s h hp role hstage info
    rw [Option.some.inj hstep] at hkept
    exact hkept
  | close ok =>
    simp only [File.step] at hstep
    obtain ⟨hstage,hstep⟩ := Option.ite_none_right_eq_some.mp hstep
    obtain ⟨rfl,rfl⟩ := Prod.mk.inj (Option.some.inj hstep)
    exact .close h hstage ok
  | drop role =>
    simp only [File.step] at hstep
    split at hstep
    · next o owned hthread =>
      have hkept := @Kept.drop config.staging f s h hp role o owned hthread hle
      rw [Option.some.inj hstep] at hkept
      exact hkept
    · cases hstep
  | sendMessage => exact .sendMessage h hp hstep
  | dropContext =>
    simp only [File.step] at hstep
    obtain ⟨hdropping,hstep⟩ := Option.ite_none_right_eq_some.mp hstep
    have hkept := @Kept.dropContext config.staging f s h hp hdropping
    rw [Option.some.inj hstep] at hkept
    exact hkept
  | dropOperation =>
    simp only [File.step] at hstep
    obtain ⟨hguard,hstep⟩ := Option.ite_none_right_eq_some.mp hstep
    obtain ⟨rfl,rfl⟩ := Prod.mk.inj (Option.some.inj hstep)
    exact .dropOperation h hp hguard.1 hguard.2

end Steps

end Applesauce.FileThreads
