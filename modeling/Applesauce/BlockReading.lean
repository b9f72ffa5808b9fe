import Applesauce.PayloadCopy
import Applesauce.DecmpfsReader

/-!
# Cutting a file into blocks

The reader of a file either cuts it into blocks of equal size, and insists on
the length it was told, or takes the blocks of a compressed file one by one.
What it reads does not depend on what becomes of the blocks, so a reading is
the blocks it would pass on and how it ends.
-/

namespace Applesauce.BlockReading

open RustIo SeekableFile DecmpfsValue DecmpfsReader PayloadCopy

/-- What a reader passes on and how it ends. -/
structure Reading (α : Type) where
  /-- The blocks, in order. -/
  items : List α
  /-- Whether a slot was already prepared when the end came. -/
  slotHeld : Bool
  /-- The result of reading. -/
  ending : Except Fault Unit

/-- One more block in front. -/
def Reading.cons {α : Type} (item : α) (reading : Reading α) : Reading α :=
  {reading with items := item::reading.items}

/-- Every block converted. -/
def Reading.map {α β : Type} (f : α→β) (reading : Reading α) : Reading β :=
  ⟨reading.items.map f,reading.slotHeld,reading.ending⟩

section Chunks
variable {ρ : Type}

/-- The error for a file whose length is not the expected one. -/
def sizeChangedError : IoError := .new .other "file size changed while reading"

/-- The comparison behind the loop of `with_file_chunks`. -/
def lengthCheck (expectedLen totalRead : ℕ) : Except Fault Unit :=
  if totalRead=expectedLen then .ok () else .error (.error sizeChangedError)

/-- The loop of `with_file_chunks`, for a file with a read of so many bytes. A
slot is prepared before a block is read, but not before the last look for
bytes behind the expected end. -/
def chunkLoop (read : ℕ→Io ρ (List UInt8)) (expectedLen : ℕ) : ℕ→ℕ→ρ→Reading (List UInt8)
  | 0,_,_ => ⟨[],false,.error BufferedSink.boundFault⟩
  | fuel+1,totalRead,file =>
    if totalRead=expectedLen then
      match read 1 file with
      | .error e _ => ⟨[],false,.error e⟩
      | .ok bytes _ => ⟨[],false,lengthCheck expectedLen (totalRead+bytes.length)⟩
    else
      match read blockSize file with
      | .error e _ => ⟨[],true,.error e⟩
      | .ok bytes file =>
        if bytes.length=0 then ⟨[],true,lengthCheck expectedLen totalRead⟩
        else if expectedLen<totalRead+bytes.length then ⟨[],true,.error (.error sizeChangedError)⟩
        else (chunkLoop read expectedLen fuel (totalRead+bytes.length) file).cons bytes

/-- `with_file_chunks`, one turn for every byte and one more. -/
def withFileChunks (read : ℕ→Io ρ (List UInt8)) (expectedLen : ℕ) (file : ρ) :
    Reading (List UInt8) :=
  chunkLoop read expectedLen (expectedLen+1) 0 file

/-- More turns than bytes make no difference: the bound is never reached. -/
theorem chunkLoop_fuel {read : ℕ→Io ρ (List UInt8)} {expectedLen fuel totalRead : ℕ} {file : ρ}
    (h : expectedLen-totalRead<fuel) :
    chunkLoop read expectedLen (fuel+1) totalRead file=chunkLoop read expectedLen fuel totalRead file := by
  induction fuel generalizing totalRead file with
  | zero => exact (Nat.not_lt_zero _ h).elim
  | succ fuel ih =>
    rw [chunkLoop,chunkLoop]
    by_cases hend : totalRead=expectedLen
    · rw [if_pos hend,if_pos hend]
    rw [if_neg hend,if_neg hend]
    cases read blockSize file with
    | error e after => rfl
    | ok bytes after =>
      dsimp only
      by_cases hzero : bytes.length=0
      · rw [if_pos hzero,if_pos hzero]
      rw [if_neg hzero,if_neg hzero]
      by_cases hlong : expectedLen<totalRead+bytes.length
      · rw [if_pos hlong,if_pos hlong]
      · rw [if_neg hlong,if_neg hlong,ih (by omega)]

/-- The blocks of a content: together it, none empty or too long, as many as
the content needs. -/
structure Blocks (content : List UInt8) (blocks : List (List UInt8)) : Prop where
  flatten : blocks.flatten=content
  each : ∀ block∈blocks, block≠[] ∧ block.length≤blockSize
  count : blocks.length=numBlocks content.length

/-- Cutting off a full block leaves one block fewer to count. -/
theorem numBlocks_drop {n : ℕ} (h : 0<n) : numBlocks n=numBlocks (n-blockSize)+1 := by
  unfold numBlocks blockSize
  omega

/-- One more block in front of a content that has been cut. -/
theorem Blocks.cons {content : List UInt8} {blocks : List (List UInt8)} (hne : content≠[])
    (h : Blocks (content.drop blockSize) blocks) :
    Blocks content (content.take blockSize::blocks) := by
  have hpos : 0<content.length := List.length_pos_iff.mpr hne
  refine ⟨?_,fun block hblock => ?_,?_⟩
  · rw [List.flatten_cons,h.flatten,List.take_append_drop]
  · rcases List.mem_cons.mp hblock with rfl|hrest
    · refine ⟨fun hnil => ?_,List.length_take_le _ _⟩
      have hzero := congrArg List.length hnil
      rw [List.length_take,List.length_nil] at hzero
      unfold blockSize at hzero
      omega
    · exact h.each block hrest
  · rw [List.length_cons,h.count,List.length_drop,numBlocks_drop hpos]

/-- Every block that is passed on has bytes, and not too many. -/
theorem chunkLoop_items {expectedLen fuel totalRead : ℕ} {file : Source} :
    ∀ block∈(chunkLoop tryReadAll expectedLen fuel totalRead file).items,
      block≠[] ∧ block.length≤blockSize := by
  induction fuel generalizing totalRead file with
  | zero => nofun
  | succ fuel ih =>
    unfold chunkLoop
    by_cases hend : totalRead=expectedLen
    · rw [if_pos hend]
      cases tryReadAll 1 file with
      | error e after => nofun
      | ok bytes after => nofun
    rw [if_neg hend]
    cases hread : tryReadAll blockSize file with
    | error e after => nofun
    | ok bytes after =>
      dsimp only
      by_cases hzero : bytes.length=0
      · rw [if_pos hzero]
        nofun
      rw [if_neg hzero]
      by_cases hlong : expectedLen<totalRead+bytes.length
      · rw [if_pos hlong]
        nofun
      · rw [if_neg hlong]
        intro block hblock
        rcases List.mem_cons.mp hblock with rfl|hrest
        · refine ⟨fun hnil => hzero (by rw [hnil]; rfl),?_⟩
          rw [(tryReadAll_ok hread).1]
          exact List.length_take_le _ _
        · exact ih block hrest

/-- A file that stays as long as expected is cut into its blocks, however its
reads are shortened or interrupted, unless one of them fails. -/
theorem chunkLoop_ok {expectedLen fuel totalRead : ℕ} {file : Source}
    (hlen : totalRead+file.rest.length=expectedLen)
    (h : (chunkLoop tryReadAll expectedLen fuel totalRead file).ending=.ok ()) :
    Blocks file.rest (chunkLoop tryReadAll expectedLen fuel totalRead file).items ∧
      (chunkLoop tryReadAll expectedLen fuel totalRead file).slotHeld=false := by
  induction fuel generalizing totalRead file with
  | zero => cases h
  | succ fuel ih =>
    unfold chunkLoop at h ⊢
    by_cases hend : totalRead=expectedLen
    · rw [if_pos hend] at h ⊢
      have hnil : file.rest=[] := List.length_eq_zero_iff.mp (by omega)
      cases hread : tryReadAll 1 file with
      | error e after => rw [hread] at h; cases h
      | ok bytes after =>
        rw [hnil]
        exact ⟨⟨rfl,nofun,rfl⟩,rfl⟩
    rw [if_neg hend] at h ⊢
    cases hread : tryReadAll blockSize file with
    | error e after => rw [hread] at h; cases h
    | ok bytes after =>
      rw [hread] at h
      obtain ⟨hbytes,hrest⟩ := tryReadAll_ok hread
      have hcount : bytes.length=min blockSize file.rest.length := by
        rw [hbytes,List.length_take]
      have hblock : 0<blockSize := by decide
      have hleft : after.rest.length=file.rest.length-blockSize := by
        rw [hrest,List.length_drop]
      dsimp only at h ⊢
      have hzero : ¬bytes.length=0 := by omega
      have hfit : ¬expectedLen<totalRead+bytes.length := by omega
      rw [if_neg hzero,if_neg hfit] at h ⊢
      obtain ⟨hblocks,hslot⟩ := ih (by omega) h
      rw [hrest] at hblocks
      have hne : file.rest≠[] := by
        intro hnil
        rw [hnil,List.length_nil] at hlen
        omega
      have hwhole := hblocks.cons hne
      rw [←hbytes] at hwhole
      exact ⟨hwhole,hslot⟩

/-- A whole file that stays as long as expected is cut into its blocks. -/
theorem withFileChunks_ok {file : Source}
    (h : (withFileChunks tryReadAll file.rest.length file).ending=.ok ()) :
    Blocks file.rest (withFileChunks tryReadAll file.rest.length file).items ∧
      (withFileChunks tryReadAll file.rest.length file).slotHeld=false :=
  chunkLoop_ok (Nat.zero_add _) h

end Chunks

section CompressedBlocks

/-- The loop of `with_compressed_blocks`; its buffer is cleared before every read. -/
def blockLoop : ℕ→Reader→Reading (List UInt8)
  | 0,_ => ⟨[],false,.error BufferedSink.boundFault⟩
  | fuel+1,r =>
    match readBlockInto (r,[]) with
    | .error e _ => ⟨[],false,.error e⟩
    | .ok hasBlock after =>
      if hasBlock then (blockLoop fuel after.1).cons after.2 else ⟨[],false,.ok ()⟩

/-- The error for a file without the attribute. -/
def notCompressedError : IoError := .new .other "file is not compressed"

/-- `with_compressed_blocks` on the attribute and the fork of a file: the
format, once it is known, and its blocks, one turn for each and one more. -/
def withCompressedBlocks (build : Build) (value : Except Fault (Option (List UInt8)))
    (opened : Except Fault Cursor) : Reading (Kind×List UInt8) :=
  match value with
  | .error e => ⟨[],false,.error e⟩
  | .ok none => ⟨[],false,.error (.error notCompressedError)⟩
  | .ok (some decmpfsData) =>
    match Reader.new build decmpfsData opened with
    | .error e => ⟨[],false,.error e⟩
    | .ok r => (blockLoop (r.remainingBlocks+1) r).map (fun block => (r.kind,block))

/-- Every block that is read leaves fewer to come. -/
theorem remainingBlocks_lt {r : Reader} {after : Reader×List UInt8} {dst : List UInt8}
    (h : readBlockInto (r,dst)=.ok true after) : after.1.remainingBlocks<r.remainingBlocks := by
  obtain ⟨kind,state⟩ := r
  cases state with
  | xattr cursor =>
    simp only [readBlockInto,Cursor.readUpTo] at h
    obtain ⟨hpos,hafter⟩ := EStateM.Result.ok.inj h
    have hread := of_decide_eq_true hpos
    have hlen : (SparseFile.readAt cursor.bytes cursor.pos (cursor.bytes.length-cursor.pos)).length=
        cursor.bytes.length-cursor.pos := by
      rw [SparseFile.readAt_length,Nat.min_self]
    rw [hlen] at hread
    rw [←hafter]
    simp only [Reader.remainingBlocks,hlen,if_pos hread]
    rw [if_neg (by omega)]
    exact Nat.zero_lt_one
  | resourceFork infos last reader =>
    cases infos with
    | nil => cases h
    | cons block infos =>
      simp only [readBlockInto] at h
      cases hseek : Cursor.seek (.current ((block.offset : ℤ)-last)) reader with
      | error e t => rw [hseek] at h; cases h
      | ok pos t =>
        rw [hseek] at h
        dsimp only at h
        cases hread : Cursor.readUpTo block.compressedSize t with
        | error e u => rw [hread] at h; cases h
        | ok bytes u =>
          rw [hread] at h
          dsimp only at h
          split at h
          · cases h
          · split at h
            · obtain ⟨_,hafter⟩ := EStateM.Result.ok.inj h
              rw [←hafter]
              exact Nat.lt_succ_self _
            · cases h

/-- More turns than remaining blocks make no difference: the bound is never reached. -/
theorem blockLoop_fuel {fuel : ℕ} {r : Reader} (h : r.remainingBlocks<fuel) :
    blockLoop (fuel+1) r=blockLoop fuel r := by
  induction fuel generalizing r with
  | zero => exact (Nat.not_lt_zero _ h).elim
  | succ fuel ih =>
    rw [blockLoop,blockLoop]
    cases hread : readBlockInto (r,[]) with
    | error e after => rfl
    | ok hasBlock after =>
      cases hasBlock with
      | false => rfl
      | true =>
        have hlt := remainingBlocks_lt hread
        dsimp only
        rw [if_pos rfl,if_pos rfl,ih (by omega)]

/-- A reader that delivers blocks is read to its end. -/
theorem blockLoop_delivers {r : Reader} {blocks : List (List UInt8)} (h : Delivers r blocks) :
    blockLoop (blocks.length+1) r=⟨blocks,false,.ok ()⟩ := by
  induction blocks generalizing r with
  | nil =>
    unfold blockLoop
    rw [h.2 []]
    rfl
  | cons block blocks ih =>
    obtain ⟨_,next,hread,hnext⟩ := h
    have hfirst := hread []
    rw [List.nil_append] at hfirst
    rw [List.length_cons,blockLoop,hfirst]
    dsimp only
    rw [if_pos rfl,ih hnext]
    rfl

/-- The blocks of a file whose reader delivers them. -/
theorem withCompressedBlocks_delivers {build : Build} {value : List UInt8} {opened : Except Fault Cursor}
    {r : Reader} {blocks : List (List UInt8)} (hnew : Reader.new build value opened=.ok r)
    (h : Delivers r blocks) :
    withCompressedBlocks build (.ok (some value)) opened=
      ⟨blocks.map (fun block => (r.kind,block)),false,.ok ()⟩ := by
  unfold withCompressedBlocks
  dsimp only
  rw [hnew]
  dsimp only
  rw [h.remaining,blockLoop_delivers h]
  rfl

end CompressedBlocks

end Applesauce.BlockReading
