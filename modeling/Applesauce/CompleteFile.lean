import Applesauce.Publication

/-!
# What a finished destination holds

Whatever the devices did in between, a compression that returns has left one
of the two outcomes of the writer: directly in the fork, or first in a
payload and from there, by the copy, in the fork. A decompression that
returns has left exactly the delivered blocks.
-/

namespace Applesauce.CompleteFile

open RustIo SparseFile SeekableFile BufferedSink DecmpfsValue BlockTables DecmpfsWriter
open ScratchPayload ForkDevice PayloadCopy SourceGuard StagedOutput Publication
open LawfulRawSink LawfulWriteSeek

/-- Every format starts with a header. -/
theorem headerSize_pos (kind : Kind) (blockCount : ℕ) : 0<headerSize kind blockCount := by
  cases kind with
  | zlib =>
    change 0<Zlib.headerSize blockCount
    unfold Zlib.headerSize Zlib.blockTableStart
    omega
  | lzvn => exact Nat.mul_pos (Nat.succ_pos _) (by decide)
  | lzfse => exact Nat.mul_pos (Nat.succ_pos _) (by decide)

/-- No format has an empty fork. -/
theorem layout_ne_nil (kind : Kind) (blocks : List (List UInt8)) : layout kind blocks≠[] := by
  refine List.ne_nil_of_length_pos ?_
  have hpos := headerSize_pos kind blocks.length
  rw [layout_length]
  omega

/-- The fork of an outcome, if there is one, is not empty. -/
theorem fork_ne_nil {kind : Kind} {n : ℕ} {blocks : List (List UInt8)} {value bytes : List UInt8}
    (h : Outcome kind n blocks value (some bytes)) : bytes≠[] := by
  cases h with
  | forked hfork hfit => exact layout_ne_nil kind blocks

section Writers
variable {σ : Type} [WriteSeek σ] [LawfulWriteSeek σ]

/-- Creating a writer, passing the blocks on and finishing leaves an outcome. -/
theorem writeBlocks_outcome {build : Build} {kind : Kind} {n maxCompressedSize : ℕ} {percent : String}
    {received : Except Fault Unit} {opener : Except Fault σ} {blocks : List (List UInt8)}
    {value : List UInt8} {w t : Writer σ} {u : Unit} {fork : Option σ}
    (hopen : ∀ fork, opener=.ok fork → view fork=.empty) (hnew : Writer.new kind n opener=.ok w)
    (hwrite : writeBlocks build maxCompressedSize percent received 0 blocks w=.ok u t)
    (hfinish : finishDecmpfsData build t=.ok value fork) :
    Outcome kind n (countedBlocks n blocks) value (fork.map stored) := by
  obtain ⟨hadd,_⟩ := writeBlocks_ok hwrite
  obtain ⟨rfl,rfl,ht⟩ := new_addBlocks_holds hopen hnew hadd
  exact finishDecmpfsData_outcome ht hfinish

end Writers

/-- The file behind a payload, or nothing when no fork was opened. -/
theorem payloadAfter_bytes {payload : Payload} {last : Option (BufWriter Payload)}
    (h : payload.contents=.empty) :
    (payloadAfter payload last).contents.bytes=(last.map stored).getD [] := by
  cases last with
  | none =>
    change payload.contents.bytes=[]
    rw [h]
    rfl
  | some b => rfl

/-- The fork behind a writer: absent when it was never opened. -/
theorem forkAfter_content {fork : ResourceFork} {last : Option (BufWriter ResourceFork)}
    {kind : Kind} {n : ℕ} {blocks : List (List UInt8)} {value : List UInt8} (habsent : fork.content=none)
    (h : Outcome kind n blocks value (last.map stored)) :
    Outcome kind n blocks value (forkAfter fork last).content := by
  cases last with
  | none =>
    change Outcome kind n blocks value fork.content
    rw [habsent]
    exact h
  | some b =>
    have hcontent : b.inner.content=some (stored b) := content_of_bytes rfl (fork_ne_nil h)
    change Outcome kind n blocks value b.inner.content
    rw [hcontent]
    exact h

/-- The direct writer leaves an outcome in the fork. -/
theorem writeFork_outcome {job : Job} {kind : Kind} {delivery : Delivery} {fork after : ResourceFork}
    {value : List UInt8} (habsent : fork.content=none)
    (h : writeFork job kind delivery fork.reopen=.ok value after) :
    Outcome kind job.original.len (countedBlocks job.original.len delivery.blocks) value
      after.content := by
  have hopen : ∀ b, (.ok (BufWriter.new fork.reopen) : Except Fault (BufWriter ResourceFork))=.ok b →
      view b=.empty := by
    intro b hb
    cases hb
    change fork.reopen.file=.empty
    unfold ResourceFork.file ResourceFork.reopen
    dsimp only
    rw [habsent]
    rfl
  unfold writeFork at h
  generalize hnew : Writer.new kind job.original.len (.ok (BufWriter.new fork.reopen))=created at h
  cases created with
  | error e => cases h
  | ok w =>
    unfold fillFork at h
    dsimp only at h
    cases hwrite : writeBlocks job.build job.maxCompressedSize job.percent delivery.received 0
        delivery.blocks w with
    | error e t => rw [hwrite] at h; cases h
    | ok _ t =>
      rw [hwrite] at h
      dsimp only at h
      cases hfinish : finishDecmpfsData job.build t with
      | error e b => rw [hfinish] at h; cases h
      | ok result b =>
        rw [hfinish] at h
        obtain ⟨rfl,rfl⟩ := EStateM.Result.ok.inj h
        exact forkAfter_content habsent (writeBlocks_outcome hopen hnew hwrite hfinish)

/-- The direct writer returns only when the queue ended well. -/
theorem writeFork_received {job : Job} {kind : Kind} {delivery : Delivery} {fork after : ResourceFork}
    {value : List UInt8} (h : writeFork job kind delivery fork=.ok value after) :
    delivery.received=.ok () := by
  unfold writeFork at h
  generalize Writer.new kind job.original.len (.ok (BufWriter.new fork))=created at h
  cases created with
  | error e => cases h
  | ok w =>
    unfold fillFork at h
    dsimp only at h
    cases hwrite : writeBlocks job.build job.maxCompressedSize job.percent delivery.received 0
        delivery.blocks w with
    | error e t => rw [hwrite] at h; cases h
    | ok _ t => exact (writeBlocks_ok hwrite).2

/-- Staging into an empty payload leaves an outcome, and only when the queue ended well. -/
theorem stageBlocks_outcome {build : Build} {kind : Kind} {n maxCompressedSize reservation : ℕ}
    {metadata : Option ErrorKind} {percent : String} {received : Except Fault Unit}
    {blocks : List (List UInt8)} {staged : Staged} {left : Option Payload} {payload : Payload}
    {created : Except Fault (Writer (BufWriter Payload))} (hempty : payload.contents=.empty)
    (hcreated : Writer.new kind n (.ok (BufWriter.new payload))=created)
    (h : stageBlocks build maxCompressedSize percent received blocks metadata reservation payload
      created=.ok staged left) :
    received=.ok () ∧ staged.payload.len=staged.payload.bytes.length ∧
      ∃ fork, Outcome kind n (countedBlocks n blocks) staged.decmpfsData fork ∧
        staged.payload.bytes=fork.getD [] := by
  cases created with
  | error e => cases h
  | ok w =>
    unfold stageBlocks at h
    dsimp only at h
    cases hwrite : writeBlocks build maxCompressedSize percent received 0 blocks w with
    | error e t => rw [hwrite] at h; cases h
    | ok _ t =>
      rw [hwrite] at h
      dsimp only at h
      cases hfinish : finishDecmpfsData build t with
      | error e b => rw [hfinish] at h; cases h
      | ok value b =>
        rw [hfinish] at h
        unfold finishStaged at h
        dsimp only at h
        cases hstaged : (payloadAfter payload b).finish metadata with
        | error e => rw [hstaged] at h; cases h
        | ok finished =>
          rw [hstaged] at h
          dsimp only at h
          by_cases hfit : finished.reservedBytes+value.length≤reservation
          · rw [if_pos hfit] at h
            obtain ⟨hbytes,hlen,_⟩ := Payload.finish_ok hstaged
            cases h
            have houtcome := writeBlocks_outcome (opens_empty hempty) hcreated hwrite hfinish
            exact ⟨(writeBlocks_ok hwrite).2,by rw [hlen,hbytes],_,houtcome,
              by rw [hbytes,payloadAfter_bytes hempty]⟩
          · rw [if_neg hfit] at h
            cases h

/-- Staging leaves an outcome: the attribute value, and the fork in the payload. -/
theorem stageCompressedFile_outcome {build : Build} {kind : Kind} {n maxCompressedSize reservation : ℕ}
    {storage : ScratchPayload.Storage} {metadata : Option ErrorKind} {percent : String}
    {received : Except Fault Unit} {blocks : List (List UInt8)} {staged : Staged} {left : Option Payload}
    (h : stageCompressedFile build kind n storage metadata maxCompressedSize percent received
      reservation blocks=.ok staged left) :
    received=.ok () ∧ staged.payload.len=staged.payload.bytes.length ∧
      ∃ fork, Outcome kind n (countedBlocks n blocks) staged.decmpfsData fork ∧
        staged.payload.bytes=fork.getD [] := by
  unfold stageCompressedFile at h
  cases hpayload : storage.payload (reservation-maxXattrSize) with
  | error e => rw [hpayload] at h; cases h
  | ok payload =>
    rw [hpayload] at h
    exact stageBlocks_outcome (ScratchPayload.Storage.payload_ok hpayload).1 rfl h

/-- Decoded blocks that were all written total the file size, and the queue ended well. -/
theorem writeUncompressedBlocks_ok {σ : Type} [RawSink σ] [LawfulRawSink σ]
    {received : Except Fault Unit} {n : ℕ} {blocks : List (List UInt8)} {s t : σ} {u : Unit}
    (h : writeUncompressedBlocks received n blocks s=.ok u t) :
    received=.ok () ∧ blocks.flatten.length=n ∧ file t=(file s).write blocks.flatten := by
  have hfits := @writeUncompressedBlocks_fits σ _ _ received n blocks s
  rw [h] at hfits
  refine ⟨?_,hfits.1,hfits.2⟩
  clear hfits
  induction blocks generalizing n s with
  | nil =>
    unfold writeUncompressedBlocks at h
    obtain ⟨_,r,hqueue,_⟩ := bind_ok_iff.mp h
    cases received with
    | ok _ => rfl
    | error e => cases hqueue
  | cons block blocks ih =>
    simp only [writeUncompressedBlocks,bind_ok_iff] at h
    obtain ⟨_,_,_,_,r,_,hrest⟩ := h
    exact ih hrest

/-- Writing to an empty file at its start leaves exactly the data. -/
theorem write_empty (data : List UInt8) : (Cursor.empty.write data).bytes=data :=
  writeAt_end [] data

/-- A staged decompression holds the delivered blocks. -/
theorem stageUncompressedFile_ok {job : Job} {delivery : Delivery} {scratch : Scratch}
    {staged : StagedPayload} (h : stageUncompressedFile job delivery scratch=.ok staged) :
    delivery.received=.ok () ∧ staged.bytes=delivery.blocks.flatten ∧
      staged.len=staged.bytes.length ∧ delivery.blocks.flatten.length=job.original.len := by
  unfold stageUncompressedFile at h
  cases hpayload : scratch.storage.payload scratch.reservation with
  | error e => rw [hpayload] at h; cases h
  | ok payload =>
    rw [hpayload] at h
    dsimp only at h
    obtain ⟨hempty,_⟩ := ScratchPayload.Storage.payload_ok hpayload
    cases hwrite : writeUncompressedBlocks delivery.received job.original.len delivery.blocks
        payload with
    | error e t => rw [hwrite] at h; cases h
    | ok _ t =>
      rw [hwrite] at h
      dsimp only at h
      obtain ⟨hreceived,htotal,hfile⟩ := writeUncompressedBlocks_ok hwrite
      obtain ⟨hbytes,hlen,_⟩ := Payload.finish_ok h
      change t.contents=payload.contents.write _ at hfile
      have hall : t.contents.bytes=delivery.blocks.flatten := by
        rw [hfile,hempty,write_empty]
      exact ⟨hreceived,hbytes.trans hall,by rw [hlen,hbytes],htotal⟩

/-- Copying a whole payload into a fork that is absent: the fork holds the
payload, and stays absent for an empty one. -/
theorem copyPayload_fork {size copied : ℕ} {source t : Source} {fork after : ResourceFork}
    (habsent : fork.content=none) (hcopied : copied=source.rest.length)
    (h : copyPayload size (source,fork.reopen)=.ok copied (t,after)) :
    after.content=if source.rest=[] then none else some source.rest := by
  have hstart : fork.reopen.file=.empty := by
    unfold ResourceFork.file ResourceFork.reopen
    dsimp only
    rw [habsent]
    rfl
  by_cases hnil : source.rest=[]
  · rw [if_pos hnil]
    have hsame := copyPayload_empty hnil h
    cases hsame
    exact habsent
  · rw [if_neg hnil]
    have hfile := copyPayload_complete h hcopied
    change after.file=fork.reopen.file.write source.rest at hfile
    refine content_of_bytes ?_ hnil
    rw [hfile,hstart,write_empty]

end Applesauce.CompleteFile
