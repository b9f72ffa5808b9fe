import Applesauce.PanicFreedom
import Applesauce.DecmpfsReader

/-!
# Parsing forks that others have written

The zlib parser checks the fork against what the writer produces, but it
subtracts before it knows that the fork is long enough and adds to offsets
that it has not looked at. The LZ parser checks every difference, but not the
declared size. Both are calm exactly under conditions on the fork and the
declared size. Reading the blocks of a parsed fork is always calm and ends.
-/

namespace Applesauce.UntrustedForks

open RustIo SparseFile SeekableFile ByteWords DecmpfsValue BlockTables DecmpfsReader PanicFreedom

section ZlibTable

/-- The offset of a table entry as it stands in the fork. -/
def entryOffset (fork : List UInt8) (i : ℕ) : ℕ :=
  (BlockInfo.fromBytes (readAt fork (Zlib.headerSize i) BlockInfo.size)).offset

/-- Where the data would end: the trailer comes last. -/
def dataEnd (fork : List UInt8) : ℕ := fork.length-Zlib.trailerSize

/-- The fork starts with the header and the zeros that the parser expects. -/
def HeaderMatches (fork : List UInt8) : Prop :=
  readAt fork 0 Zlib.headerLen=Zlib.headerWords (dataEnd fork) (dataEnd fork-0x100) ∧
    (readAt fork Zlib.headerLen (0x100-Zlib.headerLen)).all (·=0)=true

/-- The words before the table are those that the parser expects. -/
def CountMatches (fork : List UInt8) (origFileSize : ℕ) : Prop :=
  readAt fork 0x100 4=beBytes 4 (dataEnd fork-0x104) ∧
    readAt fork 0x104 4=leBytes 4 (numBlocks origFileSize)

/-- When every number stays in its range: the number of blocks fits a word, and in a fork
of at most 32 bits the trailer and the header fit, the first words fit if the header
matches, and the offsets in the table fit if those words match. -/
def WellSized (fork : List UInt8) (origFileSize : ℕ) : Prop :=
  numBlocks origFileSize≤u32Max ∧ (fork.length≤u32Max →
    Zlib.trailerSize+0x100≤fork.length ∧ (HeaderMatches fork →
      Zlib.trailerSize+0x104≤fork.length ∧ (CountMatches fork origFileSize →
        ∀ i<numBlocks origFileSize, Zlib.headerSize (i+1)≤fork.length →
          entryOffset fork i+Zlib.blockTableStart≤u32Max)))

/-- Every operation on the way stays in its range: the debug build does not
panic, nor does the release build, and that does not wrap. -/
def InRange (op : Build→Io Cursor (List BlockInfo)) (fork : List UInt8) : Prop :=
  Calm (op .debug) ⟨fork,0⟩ ∧ Calm (op .release) ⟨fork,0⟩ ∧ op .release ⟨fork,0⟩=op .debug ⟨fork,0⟩

/-- Where an entry of the table stands. -/
theorem headerSize_eq (i : ℕ) : Zlib.headerSize i=0x108+i*8 := by
  unfold Zlib.headerSize Zlib.blockTableStart BlockInfo.size
  omega

/-- The table loop is calm exactly when every offset it reads leaves room for the start
of the table. -/
theorem readEntries_calm_iff (fork : List UInt8) (count i : ℕ) :
    Calm (Zlib.readEntries .debug count) ⟨fork,Zlib.headerSize i⟩ ↔
      ∀ j, i≤j → j< i+count → Zlib.headerSize (j+1)≤fork.length →
        entryOffset fork j+Zlib.blockTableStart≤u32Max := by
  induction count generalizing i with
  | zero =>
    refine iff_of_true (calm_pure _ _) fun j hij hj => ?_
    omega
  | succ count ih =>
    have hnext : Zlib.headerSize i+BlockInfo.size=Zlib.headerSize (i+1) := by
      rw [headerSize_eq,headerSize_eq]
      unfold BlockInfo.size
      omega
    unfold Zlib.readEntries
    by_cases hfit : Zlib.headerSize (i+1)≤fork.length
    · have hread : Cursor.readExact BlockInfo.size ⟨fork,Zlib.headerSize i⟩=
          .ok (readAt fork (Zlib.headerSize i) BlockInfo.size) ⟨fork,Zlib.headerSize (i+1)⟩ := by
        rw [readExact_of (by dsimp only; omega)]
        dsimp only
        rw [hnext]
        rfl
      rw [calm_bind_of_ok hread,calm_addU32_bind]
      have hrest : Calm (Zlib.readEntries .debug count>>=fun rest =>
          pure (⟨entryOffset fork i+Zlib.blockTableStart,
            (BlockInfo.fromBytes (readAt fork (Zlib.headerSize i) BlockInfo.size)).compressedSize⟩::rest))
            ⟨fork,Zlib.headerSize (i+1)⟩ ↔
          Calm (Zlib.readEntries .debug count) ⟨fork,Zlib.headerSize (i+1)⟩ := by
        rw [calm_bind_iff]
        exact and_iff_left fun rest u _ => calm_pure _ _
      refine (and_congr_right' hrest).trans ?_
      rw [ih]
      constructor
      · rintro ⟨hfirst,hlater⟩ j hij hj hlen
        rcases Nat.eq_or_lt_of_le hij with rfl|hlt
        · exact hfirst
        · exact hlater j hlt (by omega) hlen
      · intro hall
        exact ⟨hall i (Nat.le_refl i) (by omega) hfit,
          fun j hij hj hlen => hall j (by omega) (by omega) hlen⟩
    · have hread := @readExact_of_lt BlockInfo.size ⟨fork,Zlib.headerSize i⟩ (by dsimp only; omega)
      refine iff_of_true (calm_bind_of_error hread) fun j hij _ hlen => ?_
      rw [headerSize_eq] at hlen hfit
      omega

/-- What follows the table loop never panics. -/
theorem afterEntries_calm (dataEnd : ℕ) (result : List BlockInfo) (file : Cursor) :
    Calm (Cursor.seek (.start dataEnd)>>=fun _ => Cursor.readExact Zlib.trailerSize>>=fun trailerBuf =>
      ensure (trailerBuf=Zlib.trailer) (.error (.new .invalidData "trailer does not match"))>>=fun _ =>
        pure result) file := by
  refine calm_bind (calm_seek _ _) fun _ _ => calm_bind (calm_readExact _ _) fun _ _ => ?_
  exact calm_bind (calm_ensure _) fun _ _ => calm_pure _ _

/-- The parser is calm exactly on well sized forks. -/
theorem readBlockInfo_calm_iff (fork : List UInt8) (origFileSize : ℕ) :
    Calm (Zlib.readBlockInfo .debug origFileSize) ⟨fork,0⟩ ↔ WellSized fork origFileSize := by
  unfold Zlib.readBlockInfo WellSized
  rw [calm_unwrapU32_bind]
  refine and_congr_right fun _ => ?_
  by_cases hwide : fork.length≤u64Max
  · have hend : Cursor.seek (.fromEnd 0) ⟨fork,0⟩=.ok fork.length ⟨fork,fork.length⟩ :=
      Cursor.seek_end ⟨fork,0⟩ hwide
    have hstart : Cursor.seek (.start 0) ⟨fork,fork.length⟩=.ok 0 ⟨fork,0⟩ := Cursor.seek_start _ _
    have htrailer : Zlib.trailerSize=50 := rfl
    clear hwide
    rw [calm_bind_of_ok hend,calm_tryU32_bind]
    refine forall_congr' fun hlen => ?_
    clear hlen
    rw [calm_subU32_bind,calm_bind_of_ok hstart]
    by_cases hhead : Zlib.trailerSize+0x100≤fork.length
    · have hleft : Zlib.trailerSize≤fork.length := (Nat.le_add_right _ _).trans hhead
      have hlate : 0x100≤fork.length-Zlib.trailerSize := Nat.le_sub_of_add_le' hhead
      have hmore : 0x104≤fork.length-Zlib.trailerSize ↔ Zlib.trailerSize+0x104≤fork.length :=
        Nat.le_sub_iff_add_le' hleft
      have hlen₂ : 0x100≤fork.length := by omega
      have hlen₃ : 0x104≤fork.length := by omega
      have hlen₁ : Zlib.headerLen≤fork.length := by
        unfold Zlib.headerLen
        omega
      have hsum : Zlib.headerLen+(0x100-Zlib.headerLen)=0x100 := rfl
      have hread := readExact_at hlen₁ (Nat.zero_add Zlib.headerLen)
      have hgap := readExact_at hlen₂ hsum
      have hword := readExact_at hlen₃ (show 0x100+4=0x104 from rfl)
      rw [calm_bind_of_ok hread,calm_bind_of_ok (Zlib.header_of _ hlate),calm_ensure_bind,
        calm_bind_of_ok hgap,calm_ensure_bind,calm_bind_of_ok hword,calm_subU32_bind]
      rw [and_iff_right hleft,and_iff_right hhead,hmore]
      unfold HeaderMatches
      rw [and_imp]
      refine forall₂_congr fun _ _ => and_congr_right fun hlong => ?_
      have hlen₄ : Zlib.headerSize 0≤fork.length := by
        clear hlen₁ hread hgap hsum
        rw [headerSize_eq]
        omega
      have hcount := readExact_at hlen₄ (show 0x104+4=Zlib.headerSize 0 from rfl)
      rw [calm_ensure_bind,calm_bind_of_ok hcount,calm_ensure_bind]
      unfold CountMatches
      rw [and_imp]
      refine forall₂_congr fun _ _ => ?_
      rw [calm_bind_iff,readEntries_calm_iff]
      refine (and_iff_left fun result file _ => afterEntries_calm _ _ _).trans ?_
      rw [Nat.zero_add]
      exact forall_congr' fun j => ⟨fun h => h (Nat.zero_le j),fun h _ => h⟩
    · refine iff_of_false ?_ fun h => hhead h.1
      rintro ⟨hleft,hcalm⟩
      have hlen₁ : Zlib.headerLen≤fork.length := by
        unfold Zlib.headerLen
        omega
      have hread := readExact_at hlen₁ (Nat.zero_add Zlib.headerLen)
      rw [calm_bind_of_ok hread,Zlib.header,bind_assoc,calm_subU32_bind] at hcalm
      omega
  · have hlen : ¬fork.length≤u32Max := by
      unfold u32Max
      unfold u64Max at hwide
      omega
    have hend : Cursor.seek (.fromEnd 0) ⟨fork,0⟩=.error (.error (.new .invalidInput
        "invalid seek to a negative or overflowing position")) ⟨fork,0⟩ := by
      have hout : ¬((0 : ℤ)≤(fork.length : ℤ)+0 ∧ (fork.length : ℤ)+0≤u64Max) := by omega
      unfold Cursor.seek Cursor.seekTarget checkedAddSigned
      dsimp only
      rw [if_neg hout]
    exact iff_of_true (calm_bind_of_error hend) fun hle => absurd hle hlen

/-- The table loop looks at the build only when an offset overflows. -/
theorem readEntries_unchecked (count : ℕ) (file : Cursor) :
    Unchecked (fun build => Zlib.readEntries build count) file := by
  induction count generalizing file with
  | zero => exact unchecked_const _
  | succ count ih =>
    refine unchecked_bind (unchecked_const _) fun buf u _ => ?_
    refine unchecked_bind (unchecked_addU32 _ _) fun offset v _ => ?_
    exact unchecked_bind (ih v) fun rest w _ => unchecked_const _

/-- The parser looks at the build only where a check fails. -/
theorem readBlockInfo_unchecked (fork : List UInt8) (origFileSize : ℕ) :
    Unchecked (fun build => Zlib.readBlockInfo build origFileSize) ⟨fork,0⟩ := by
  refine unchecked_bind (unchecked_const _) fun blockCount _ _ => ?_
  refine unchecked_bind (unchecked_const _) fun len _ _ => ?_
  refine unchecked_bind (unchecked_const _) fun totalSize _ _ => ?_
  refine unchecked_bind (unchecked_subU32 _ _) fun dataEnd _ _ => ?_
  refine unchecked_bind (unchecked_const _) fun _ _ _ => ?_
  refine unchecked_bind (unchecked_const _) fun headerBuf _ _ => ?_
  refine unchecked_bind ?_ fun expected _ _ => ?_
  · exact unchecked_bind (unchecked_subU32 _ _) fun relative _ _ => unchecked_const _
  refine unchecked_bind (unchecked_const _) fun _ _ _ => ?_
  refine unchecked_bind (unchecked_const _) fun gap _ _ => ?_
  refine unchecked_bind (unchecked_const _) fun _ _ _ => ?_
  refine unchecked_bind (unchecked_const _) fun buf _ _ => ?_
  refine unchecked_bind (unchecked_subU32 _ _) fun relative _ _ => ?_
  refine unchecked_bind (unchecked_const _) fun _ _ _ => ?_
  refine unchecked_bind (unchecked_const _) fun countBuf _ _ => ?_
  refine unchecked_bind (unchecked_const _) fun _ _ _ => ?_
  exact unchecked_bind (readEntries_unchecked _ _) fun result _ _ => unchecked_const _

/-- For every fork and every declared size, the zlib parser returns or stops with an error
in both builds, with every number in its range, exactly when the fork is well sized. -/
theorem readBlockInfo_inRange_iff (fork : List UInt8) (origFileSize : ℕ) :
    InRange (fun build => Zlib.readBlockInfo build origFileSize) fork ↔
      WellSized fork origFileSize := by
  rw [←readBlockInfo_calm_iff]
  constructor
  · exact fun h => h.1
  · intro h
    have hsame := readBlockInfo_unchecked fork origFileSize h
    refine ⟨h,?_,hsame⟩
    unfold Calm
    rw [hsame]
    exact h

/-- An empty fork makes the debug build panic: there is no trailer to subtract. -/
theorem empty_fork_panics :
    ¬∀ fork origFileSize, InRange (fun build => Zlib.readBlockInfo build origFileSize) fork := by
  intro hall
  obtain ⟨hcalm,_⟩ := hall [] 1
  exact hcalm "attempt to subtract with overflow" ⟨[],0⟩ rfl

end ZlibTable

section LzTable

/-- The bytes of a word are a number of 32 bits. -/
theorem leValue_readExact {file after : Cursor} {buf : List UInt8}
    (h : Cursor.readExact 4 file=.ok buf after) : leValue buf≤u32Max := by
  unfold Cursor.readExact at h
  by_cases hfit : file.pos+4≤file.bytes.length
  · rw [if_pos hfit] at h
    obtain ⟨rfl,_⟩ := EStateM.Result.ok.inj h
    have hlt := leValue_lt (readAt file.bytes file.pos 4)
    have hlen : (readAt file.bytes file.pos 4).length≤4 := List.length_take_le _ _
    have hpow : 256^(readAt file.bytes file.pos 4).length≤256^4 :=
      Nat.pow_le_pow_right (by decide) hlen
    unfold u32Max
    omega
  · rw [if_neg hfit] at h
    cases h

/-- Entries with both numbers in their words. -/
def InWords (infos : List BlockInfo) : Prop :=
  ∀ info∈infos, info.offset≤u32Max ∧ info.compressedSize≤u32Max

/-- The offset loop never panics. -/
theorem readOffsets_calm (count lastOffset : ℕ) (file : Cursor) :
    Calm (Lz.readOffsets count lastOffset) file := by
  induction count generalizing lastOffset file with
  | zero => exact calm_pure _ _
  | succ count ih =>
    refine calm_bind (calm_readExact _ _) fun buf _ => calm_bind (calm_ensure _) fun _ _ => ?_
    exact calm_bind (ih _ _) fun _ _ => calm_pure _ _

/-- The offset loop returns one entry a block, in words. -/
theorem readOffsets_ok {count lastOffset : ℕ} {file after : Cursor} {result : List BlockInfo×ℕ}
    (hlast : lastOffset≤u32Max) (h : Lz.readOffsets count lastOffset file=.ok result after) :
    result.1.length=count ∧ InWords result.1 := by
  induction count generalizing lastOffset file after result with
  | zero =>
    obtain ⟨rfl,_⟩ := EStateM.Result.ok.inj h
    exact ⟨rfl,fun info hinfo => absurd hinfo List.not_mem_nil⟩
  | succ count ih =>
    simp only [Lz.readOffsets,bind_ok_iff] at h
    obtain ⟨buf,u,hbuf,_,v,_,rest,w,hrest,hpure⟩ := h
    obtain ⟨rfl,_⟩ := EStateM.Result.ok.inj hpure
    have hword := leValue_readExact hbuf
    obtain ⟨hlen,hwords⟩ := ih hword hrest
    refine ⟨congrArg Nat.succ hlen,fun info hinfo => ?_⟩
    rcases List.mem_cons.mp hinfo with rfl|htail
    · exact ⟨hlast,(Nat.sub_le _ _).trans hword⟩
    · exact hwords info htail

/-- The LZ parser is calm exactly when the declared size leaves the table a start
within 32 bits. -/
theorem lz_readBlockInfo_calm_iff (origFileSize : ℕ) (file : Cursor) :
    Calm (Lz.readBlockInfo origFileSize) file ↔
      Lz.headerSize (numBlocks origFileSize)≤u32Max := by
  unfold Lz.readBlockInfo
  rw [calm_bind_of_ok (Cursor.seek_start _ _),calm_unwrapU32_bind]
  refine and_iff_left (calm_bind (calm_readExact _ _) fun buf _ => ?_)
  refine calm_bind (calm_ensure _) fun _ _ => calm_bind (readOffsets_calm _ _ _) fun _ _ => ?_
  exact calm_bind (calm_seek _ _) fun _ _ => calm_bind (calm_ensure _) fun _ _ => calm_pure _ _

/-- The LZ parser returns one entry a block, in words. -/
theorem lz_readBlockInfo_ok {origFileSize : ℕ} {file after : Cursor} {infos : List BlockInfo}
    (h : Lz.readBlockInfo origFileSize file=.ok infos after) :
    infos.length=numBlocks origFileSize ∧ InWords infos := by
  simp only [Lz.readBlockInfo,bind_ok_iff] at h
  obtain ⟨_,_,_,_,_,_,buf,_,hbuf,_,_,_,result,_,hresult,_,_,_,_,_,_,hpure⟩ := h
  obtain ⟨rfl,_⟩ := EStateM.Result.ok.inj hpure
  exact readOffsets_ok (leValue_readExact hbuf) hresult

end LzTable

end Applesauce.UntrustedForks
