import Applesauce.BufferedReader
import Applesauce.ForkFile
import Applesauce.LzTables

/-!
# Reading the blocks of an accepted table

The reader of a resource fork goes from block to block by seeks relative to
the end of the last block, through a buffer that reads ahead. Whatever order,
gaps or overlaps the table has, the position and the remembered end agree
before every call, so a call returns the bytes its entry names or fails
because they are not there.
-/

namespace Applesauce.AcceptedReads

open RustIo SparseFile SeekableFile DecmpfsValue BlockTables DecmpfsReader UntrustedForks LzTables
open BufferedReader

section Fork

/-- The resource fork of a file, read by one build of the program. -/
def BuiltFork (_ : Build) : Type := ForkFile.ResourceFork

instance (build : Build) : RawSource (BuiltFork build) where
  read := ForkFile.read build
  seek := ForkFile.seek
  patience := fun _ => 0

/-- A read of the fork returns everything up to the requested size. -/
theorem fork_read {build : Build} {size : ℕ} {s t : BuiltFork build} {bytes : List UInt8}
    (h : RawSource.read size s=.ok bytes t) :
    bytes=readAt (ForkFile.ResourceFork.file s).bytes (ForkFile.ResourceFork.file s).pos size ∧
      ForkFile.ResourceFork.file t=⟨(ForkFile.ResourceFork.file s).bytes,
        (ForkFile.ResourceFork.file s).pos+bytes.length⟩ := by
  obtain ⟨rfl,rfl⟩ := EStateM.Result.ok.inj ((ForkFile.read_eq build s size).symm.trans h)
  exact ⟨rfl,rfl⟩

/-- A seek of the fork to a 32-bit position goes there. -/
theorem fork_seek {target : SeekFrom} {fork : ForkFile.ResourceFork} {pos : ℕ}
    (htarget : fork.file.seekTarget target=some pos) (hpos : pos≤u32Max) :
    ∃ t : ForkFile.ResourceFork, ForkFile.seek target fork=.ok pos t ∧
      t.file=⟨fork.file.bytes,pos⟩ := by
  have hsum : ∀ (base : ℕ) (offset : ℤ), checkedAddSigned base offset=some pos →
      (base : ℤ)+offset=pos := by
    intro base offset h
    unfold checkedAddSigned at h
    split at h
    · obtain rfl := Option.some.inj h
      omega
    · cases h
  have hdestination : ForkFile.destination fork.file (.seek target)=pos := by
    cases target with
    | start offset => exact congrArg Nat.cast (Option.some.inj htarget)
    | fromEnd offset => exact hsum _ _ htarget
    | current offset => exact hsum _ _ htarget
  have hnat : (ForkFile.destination fork.file (.seek target)).toNat=pos := by
    rw [hdestination,Int.toNat_natCast]
  rcases ForkFile.seek_cases fork target with ⟨hle,_,hseek⟩|⟨_,hleaves,_⟩
  · subst hnat
    exact ⟨_,hseek,rfl⟩
  · unfold ForkFile.Leaves at hleaves
    omega

/-- The fork is a lawful source: its reads never fail, and it seeks to every 32-bit position. -/
instance (build : Build) : LawfulRawSource (BuiltFork build) where
  file := ForkFile.ResourceFork.file
  read_ok := by
    intro size s t bytes h
    obtain ⟨hbytes,hfile⟩ := fork_read h
    exact ⟨⟨size,Nat.le_refl _,id,hbytes⟩,hfile,Nat.le_refl _⟩
  read_error := by
    intro size s t e h
    cases (ForkFile.read_eq build s size).symm.trans h
  seek_ok := by
    intro target s pos htarget hpos
    obtain ⟨t,hseek,hfile⟩ := fork_seek htarget hpos
    exact ⟨t,hseek,hfile,Nat.le_refl 0⟩

end Fork

section Reader
variable {σ : Type} [RawSource σ]

/-- `State::ResourceFork`: the entries still to be read, the next one first, the
end of the block read last, and the buffered fork. -/
structure ForkReader (σ : Type) where
  /-- The reversed vector seen from its end. -/
  blockInfos : List BlockInfo
  /-- Where the block read last ends. -/
  lastOffset : ℕ
  /-- The buffered fork. -/
  reader : BufReader σ

/-- `Reader::new` after the table has been read: back to the start of the fork. -/
def openBlocks (blocksInfo : List BlockInfo) (rfork : BufReader σ) : Except Fault (ForkReader σ) :=
  match seek (.start 0) rfork with
  | .ok _ rfork => .ok ⟨blocksInfo,0,rfork⟩
  | .error fault _ => .error fault

/-- `Reader::remaining_blocks`. -/
def ForkReader.remainingBlocks (r : ForkReader σ) : ℕ := r.blockInfos.length

/-- `Reader::read_block_into`; the state pairs the reader with the buffer it appends to. -/
def readBlockInto (room : ℕ→ℕ) : Io (ForkReader σ×List UInt8) Bool := fun (r,dst) =>
  match r.blockInfos with
  | [] => .ok false (r,dst)
  | block::blockInfos =>
    match seekRelative ((block.offset : ℤ)-r.lastOffset) r.reader with
    | .error fault reader => .error fault (⟨blockInfos,r.lastOffset,reader⟩,dst)
    | .ok _ reader =>
      match takeReadToEnd room block.compressedSize (reader,dst) with
      | .error fault (reader,dst) => .error fault (⟨blockInfos,r.lastOffset,reader⟩,dst)
      | .ok bytesRead (reader,dst) =>
        if bytesRead<block.compressedSize then
          .error (.error (.ofKind .unexpectedEof)) (⟨blockInfos,r.lastOffset,reader⟩,dst)
        else if block.offset+block.compressedSize≤u32Max then
          .ok true (⟨blockInfos,block.offset+block.compressedSize,reader⟩,dst)
        else .error (.error (.ofKind .invalidData)) (⟨blockInfos,r.lastOffset,reader⟩,dst)

end Reader

section Table

/-- The bytes an entry names are all in the fork; an entry of size zero names none. -/
def Inside (fork : List UInt8) (block : BlockInfo) : Prop :=
  block.compressedSize=0 ∨ block.offset+block.compressedSize≤fork.length

/-- The bytes an entry names, as far as the fork has them. -/
def slice (fork : List UInt8) (block : BlockInfo) : List UInt8 :=
  readAt fork block.offset block.compressedSize

/-- The fork has fewer bytes than an entry names exactly when they are not all inside. -/
theorem slice_short_iff (fork : List UInt8) (block : BlockInfo) :
    (slice fork block).length<block.compressedSize ↔ ¬Inside fork block := by
  unfold slice Inside
  rw [readAt_length]
  omega

/-- What an accepted table and its fork satisfy. -/
structure Fits (fork : List UInt8) (infos : List BlockInfo) : Prop where
  length : fork.length≤u32Max
  offsets : ∀ block∈infos, block.offset≤u32Max

/-- A sum in either build is a 32-bit value. -/
theorem addU32_le {σ : Type} {build : Build} {x y z : ℕ} {s t : σ}
    (h : addU32 build x y s=.ok z t) : z≤u32Max := by
  unfold addU32 at h
  by_cases hfit : x+y≤u32Max
  · rw [if_pos hfit] at h
    obtain ⟨rfl,_⟩ := EStateM.Result.ok.inj h
    exact hfit
  · rw [if_neg hfit] at h
    cases build with
    | debug => cases h
    | release =>
      obtain ⟨rfl,_⟩ := EStateM.Result.ok.inj h
      exact Nat.le_pred_of_lt (Nat.mod_lt _ (by decide))

/-- The offsets of a zlib table are 32-bit values. -/
theorem readEntries_offsets {build : Build} {count : ℕ} {file after : Cursor}
    {infos : List BlockInfo} (h : Zlib.readEntries build count file=.ok infos after) :
    ∀ block∈infos, block.offset≤u32Max := by
  induction count generalizing file after infos with
  | zero =>
    obtain ⟨rfl,_⟩ := EStateM.Result.ok.inj h
    exact fun block hblock => absurd hblock List.not_mem_nil
  | succ count ih =>
    simp only [Zlib.readEntries,bind_ok_iff] at h
    obtain ⟨buf,s1,_,offset,s2,hoffset,rest,s3,hrest,hpure⟩ := h
    obtain ⟨rfl,_⟩ := EStateM.Result.ok.inj hpure
    intro block hblock
    rcases List.mem_cons.mp hblock with rfl|htail
    · exact addU32_le hoffset
    · exact ih hrest block htail

/-- An accepted zlib table fits. -/
theorem zlib_fits {build : Build} {n pos : ℕ} {fork : List UInt8} {infos : List BlockInfo}
    {after : Cursor} (h : Zlib.readBlockInfo build n ⟨fork,pos⟩=.ok infos after) :
    Fits fork infos := by
  unfold Zlib.readBlockInfo at h
  obtain ⟨blockCount,s₁,hcount,h⟩ := bind_ok_iff.mp h
  obtain ⟨len,s₂,hend,h⟩ := bind_ok_iff.mp h
  obtain ⟨totalSize,s₃,hword,h⟩ := bind_ok_iff.mp h
  iterate 12 obtain ⟨_,_,_,h⟩ := bind_ok_iff.mp h
  obtain ⟨result,s₄,hresult,h⟩ := bind_ok_iff.mp h
  iterate 3 obtain ⟨_,_,_,h⟩ := bind_ok_iff.mp h
  obtain ⟨rfl,_⟩ := EStateM.Result.ok.inj h
  obtain ⟨_,_,rfl⟩ := tryU32_ok_iff.mp hcount
  obtain ⟨rfl,_⟩ := Cursor.seek_end_ok hend
  exact ⟨(tryU32_ok_iff.mp hword).1,readEntries_offsets hresult⟩

/-- An accepted LZ table fits. -/
theorem lz_fits {n pos : ℕ} {fork : List UInt8} {infos : List BlockInfo} {after : Cursor}
    (h : Lz.readBlockInfo n ⟨fork,pos⟩=.ok infos after) : Fits fork infos := by
  obtain ⟨sizes,hdescribes,_⟩ := @Accepts.describes .release n pos fork infos ⟨after,h⟩
  obtain ⟨hfit,_⟩ := writes_iff.mp hdescribes.header
  have hsum := hdescribes.sum
  rw [hdescribes.count] at hfit
  refine ⟨by omega,fun block hblock => ?_⟩
  exact ((lz_readBlockInfo_ok h).2 block hblock).1

/-- An accepted table fits. -/
theorem accepted_fits {build : Build} {kind : Kind} {n pos : ℕ} {fork : List UInt8}
    {infos : List BlockInfo} {after : Cursor}
    (h : readBlockInfo build kind n ⟨fork,pos⟩=.ok infos after) : Fits fork infos := by
  cases kind with
  | zlib => exact zlib_fits h
  | lzvn => exact lz_fits h
  | lzfse => exact lz_fits h

end Table

section Calls
variable {σ : Type} [RawSource σ] [LawfulRawSource σ]

/-- Before a call, the position of the fork is the end of the last block. -/
structure ForkReader.Ready (fork : List UInt8) (r : ForkReader σ) : Prop where
  sound : r.reader.Sound
  view : r.reader.view=⟨fork,r.lastOffset⟩
  fits : Fits fork r.blockInfos

/-- The table is read, and the fork is rewound. -/
theorem openBlocks_ready {fork : List UInt8} {infos : List BlockInfo} {rfork : BufReader σ}
    (hsound : rfork.Sound) (hbytes : rfork.view.bytes=fork) (hfits : Fits fork infos) :
    ∃ first : ForkReader σ, openBlocks infos rfork=.ok first ∧ first.Ready fork ∧
      first.blockInfos=infos := by
  obtain ⟨t,hseek,hmoved⟩ := seek_of hsound (rfl : rfork.view.seekTarget (.start 0)=some 0)
    (Nat.zero_le _)
  refine ⟨⟨infos,0,t⟩,?_,⟨hmoved.sound,?_,hfits⟩,rfl⟩
  · unfold openBlocks
    rw [hseek]
  · rw [hmoved.view,hbytes]

/-- One call: it goes to its entry and reads as much of it as the fork has. -/
theorem readBlockInto_cons {fork : List UInt8} {r : ForkReader σ} (h : r.Ready fork)
    {block : BlockInfo} {blockInfos : List BlockInfo} (hblock : r.blockInfos=block::blockInfos)
    (room : ℕ→ℕ) (dst : List UInt8) :
    ∃ reader : BufReader σ, reader.Sound ∧
      reader.view=⟨fork,block.offset+(slice fork block).length⟩ ∧
      readBlockInto room (r,dst)=
        if (slice fork block).length<block.compressedSize then
          .error (.error (.ofKind .unexpectedEof))
            (⟨blockInfos,r.lastOffset,reader⟩,dst++slice fork block)
        else if block.offset+block.compressedSize≤u32Max then
          .ok true (⟨blockInfos,block.offset+block.compressedSize,reader⟩,dst++slice fork block)
        else .error (.error (.ofKind .invalidData))
          (⟨blockInfos,r.lastOffset,reader⟩,dst++slice fork block) := by
  have hoffset := h.fits.offsets block (by rw [hblock]; exact List.mem_cons_self)
  have hsum : (r.reader.view.pos : ℤ)+((block.offset : ℤ)-r.lastOffset)=block.offset := by
    rw [h.view]
    dsimp only
    omega
  obtain ⟨moved,hseek,hmoved⟩ := seekRelative_of h.sound hsum hoffset
  obtain ⟨reader,hread,hadvances⟩ := takeReadToEnd_eq room block.compressedSize dst hmoved.sound
  have hview : moved.view=⟨fork,block.offset⟩ := by rw [hmoved.view,h.view]
  rw [hview] at hread
  refine ⟨reader,hadvances.sound,?_,?_⟩
  · rw [hadvances.view,hview]
    rfl
  · unfold readBlockInto
    dsimp only
    rw [hblock]
    dsimp only
    rw [hseek]
    dsimp only
    rw [hread]
    rfl

/-- A call whose entry is inside the fork appends its bytes. -/
theorem readBlockInto_inside {fork : List UInt8} {r : ForkReader σ} (h : r.Ready fork)
    {block : BlockInfo} {blockInfos : List BlockInfo} (hblock : r.blockInfos=block::blockInfos)
    (hinside : Inside fork block) (room : ℕ→ℕ) (dst : List UInt8) :
    ∃ next, readBlockInto room (r,dst)=.ok true (next,dst++slice fork block) ∧
      next.Ready fork ∧ next.blockInfos=blockInfos := by
  obtain ⟨reader,hsound,hview,hcall⟩ := readBlockInto_cons h hblock room dst
  have hshort : ¬(slice fork block).length<block.compressedSize := by
    rw [slice_short_iff]
    exact not_not_intro hinside
  have hlen : (slice fork block).length=block.compressedSize := by
    have hle : (slice fork block).length≤block.compressedSize := List.length_take_le _ _
    omega
  have hoffset := h.fits.offsets block (by rw [hblock]; exact List.mem_cons_self)
  have hlength := h.fits.length
  have hend : block.offset+block.compressedSize≤u32Max := by
    rcases hinside with hzero|hfit
    · omega
    · omega
  rw [hlen] at hview
  rw [if_neg hshort,if_pos hend] at hcall
  refine ⟨_,hcall,⟨hsound,hview,hlength,?_⟩,rfl⟩
  · intro other hother
    exact h.fits.offsets other (by rw [hblock]; exact List.mem_cons_of_mem _ hother)

/-- A call whose entry is not inside the fork fails. -/
theorem readBlockInto_outside {fork : List UInt8} {r : ForkReader σ} (h : r.Ready fork)
    {block : BlockInfo} {blockInfos : List BlockInfo} (hblock : r.blockInfos=block::blockInfos)
    (houtside : ¬Inside fork block) (room : ℕ→ℕ) (dst : List UInt8) :
    ∃ next, readBlockInto room (r,dst)=
        .error (.error (.ofKind .unexpectedEof)) (next,dst++slice fork block) ∧
      next.blockInfos=blockInfos := by
  obtain ⟨reader,_,_,hcall⟩ := readBlockInto_cons h hblock room dst
  rw [if_pos ((slice_short_iff fork block).mpr houtside)] at hcall
  exact ⟨_,hcall,rfl⟩

/-- The reader seen through its buffer. -/
def ForkReader.seen (kind : Kind) (r : ForkReader σ) : Reader :=
  ⟨kind,.resourceFork r.blockInfos r.lastOffset r.reader.view⟩

/-- The result of a call seen through the buffer. -/
def seenResult (kind : Kind) : EStateM.Result Fault (ForkReader σ×List UInt8) Bool→
    EStateM.Result Fault (Reader×List UInt8) Bool
  | .ok more (r,dst) => .ok more (r.seen kind,dst)
  | .error fault (r,dst) => .error fault (r.seen kind,dst)

/-- A call through the buffer is a call on a plain file. -/
theorem readBlockInto_seen {fork : List UInt8} {r : ForkReader σ} (h : r.Ready fork) (kind : Kind)
    (room : ℕ→ℕ) (dst : List UInt8) :
    DecmpfsReader.readBlockInto (r.seen kind,dst)=
      seenResult kind (readBlockInto room (r,dst)) := by
  cases hblock : r.blockInfos with
  | nil =>
    unfold readBlockInto DecmpfsReader.readBlockInto ForkReader.seen
    dsimp only
    rw [hblock]
    dsimp only [seenResult,ForkReader.seen]
    rw [hblock]
  | cons block blockInfos =>
    obtain ⟨reader,_,hview,hcall⟩ := readBlockInto_cons h hblock room dst
    have hoffset := h.fits.offsets block (by rw [hblock]; exact List.mem_cons_self)
    have hwide : u32Max≤u64Max := by decide
    have hback : (r.lastOffset : ℤ)+((block.offset : ℤ)-r.lastOffset)=block.offset := by omega
    have hrange : (0 : ℤ)≤(block.offset : ℤ) ∧ (block.offset : ℤ)≤u64Max := by omega
    have hplain : Cursor.seek (.current ((block.offset : ℤ)-r.lastOffset)) ⟨fork,r.lastOffset⟩=
        .ok block.offset ⟨fork,block.offset⟩ := by
      simp only [Cursor.seek,Cursor.seekTarget,checkedAddSigned,hback,if_pos hrange,
        Int.toNat_natCast]
    rw [hcall]
    unfold DecmpfsReader.readBlockInto ForkReader.seen
    dsimp only
    rw [hblock,h.view]
    dsimp only
    rw [hplain]
    dsimp only [Cursor.readUpTo]
    change (if (slice fork block).length<block.compressedSize then _ else _)=_
    by_cases hshort : (slice fork block).length<block.compressedSize
    · rw [if_pos hshort,if_pos hshort]
      dsimp only [seenResult,ForkReader.seen]
      rw [hview]
      rfl
    · rw [if_neg hshort,if_neg hshort]
      by_cases hend : block.offset+block.compressedSize≤u32Max
      · rw [if_pos hend,if_pos hend]
        dsimp only [seenResult,ForkReader.seen]
        rw [hview]
        rfl
      · rw [if_neg hend,if_neg hend]
        dsimp only [seenResult,ForkReader.seen]
        rw [hview]
        rfl

end Calls

section Runs
variable {σ : Type} [RawSource σ]

/-- The reader after a number of calls, each into any buffer and with any room
offered to its reads, that have all returned a block. -/
inductive Reads (first : ForkReader σ) : ℕ→ForkReader σ→Prop
  /-- No call yet. -/
  | zero : Reads first 0 first
  /-- One more block. -/
  | succ {i : ℕ} {r next : ForkReader σ} {room : ℕ→ℕ} {dst out : List UInt8}
      (reads : Reads first i r) (call : readBlockInto room (r,dst)=.ok true (next,out)) :
      Reads first (i+1) next

/-- What the call after `i` successful ones does, whatever the buffer is. -/
structure Serves (fork : List UInt8) (infos : List BlockInfo) (i : ℕ) (r : ForkReader σ) :
    Prop where
  /-- One entry fewer is left after every call. -/
  remaining : r.remainingBlocks+i=infos.length
  /-- An entry inside the fork is appended exactly. -/
  inside : ∀ block, infos[i]?=some block → Inside fork block → ∀ room dst,
    (slice fork block).length=block.compressedSize ∧
    ∃ next, readBlockInto room (r,dst)=.ok true (next,dst++slice fork block) ∧
      next.remainingBlocks+1=r.remainingBlocks
  /-- An entry that is not inside the fork is an error. -/
  outside : ∀ block, infos[i]?=some block → ¬Inside fork block → ∀ room dst,
    ∃ e next out, readBlockInto room (r,dst)=.error (.error e) (next,out) ∧
      next.remainingBlocks+1=r.remainingBlocks
  /-- After all entries there is nothing more. -/
  ended : infos[i]?=none → ∀ room dst, readBlockInto room (r,dst)=.ok false (r,dst)

variable [LawfulRawSource σ]

/-- After any successful calls the reader is ready for the entries behind them. -/
theorem Reads.ready {fork : List UInt8} {infos : List BlockInfo} {first r : ForkReader σ} {i : ℕ}
    (hfirst : first.Ready fork) (hinfos : first.blockInfos=infos) (h : Reads first i r) :
    r.Ready fork ∧ r.blockInfos=infos.drop i ∧ i≤ infos.length := by
  induction h with
  | zero => exact ⟨hfirst,hinfos,Nat.zero_le _⟩
  | @succ i r next room dst out reads call ih =>
    obtain ⟨hready,hdrop,hle⟩ := ih
    cases hblock : r.blockInfos with
    | nil =>
      unfold readBlockInto at call
      dsimp only at call
      rw [hblock] at call
      cases call
    | cons block blockInfos =>
      have hnext : infos.drop (i+1)=blockInfos := by
        rw [←List.tail_drop,←hdrop,hblock]
        rfl
      have hlen : i+1≤ infos.length := by
        have hcount := congrArg List.length hdrop
        rw [hblock,List.length_cons,List.length_drop] at hcount
        omega
      by_cases hinside : Inside fork block
      · obtain ⟨after,hcall,hafter,hinfosAfter⟩ :=
          readBlockInto_inside hready hblock hinside room dst
        have hsame := hcall.symm.trans call
        obtain ⟨_,hpair⟩ := EStateM.Result.ok.inj hsame
        obtain ⟨rfl,_⟩ := Prod.mk.inj hpair
        exact ⟨hafter,hinfosAfter.trans hnext.symm,hlen⟩
      · obtain ⟨after,hcall,_⟩ := readBlockInto_outside hready hblock hinside room dst
        cases hcall.symm.trans call

/-- A ready reader serves its next entry. -/
theorem ForkReader.Ready.serves {fork : List UInt8} {infos : List BlockInfo} {r : ForkReader σ}
    {i : ℕ} (h : r.Ready fork) (hdrop : r.blockInfos=infos.drop i) (hle : i≤ infos.length) :
    Serves fork infos i r := by
  have hhead : ∀ {block}, infos[i]?=some block → ∃ rest, r.blockInfos=block::rest := by
    intro block hblock
    obtain ⟨hlt,heq⟩ := List.getElem?_eq_some_iff.mp hblock
    exact ⟨infos.drop (i+1),by rw [hdrop,List.drop_eq_getElem_cons hlt,heq]⟩
  refine ⟨?_,fun block hblock hinside room dst => ?_,fun block hblock houtside room dst => ?_,
    fun hnone room dst => ?_⟩
  · unfold ForkReader.remainingBlocks
    rw [hdrop,List.length_drop]
    omega
  · obtain ⟨rest,hrest⟩ := hhead hblock
    obtain ⟨next,hcall,_,hnext⟩ := readBlockInto_inside h hrest hinside room dst
    have hshort : ¬(slice fork block).length<block.compressedSize := by
      rw [slice_short_iff]
      exact not_not_intro hinside
    have hlong : (slice fork block).length≤block.compressedSize := List.length_take_le _ _
    refine ⟨by omega,next,hcall,?_⟩
    unfold ForkReader.remainingBlocks
    rw [hnext,hrest,List.length_cons]
  · obtain ⟨rest,hrest⟩ := hhead hblock
    obtain ⟨next,hcall,hnext⟩ := readBlockInto_outside h hrest houtside room dst
    refine ⟨_,next,_,hcall,?_⟩
    unfold ForkReader.remainingBlocks
    rw [hnext,hrest,List.length_cons]
  · have hnil : r.blockInfos=[] := by
      rw [hdrop]
      exact List.drop_eq_nil_of_le (List.getElem?_eq_none_iff.mp hnone)
    unfold readBlockInto
    dsimp only
    rw [hnil]

/-- For every fork and every table that `read_block_info` accepts, whatever its
entries are and whatever the parser left in the buffer: the reader opens, and
as long as calls succeed the next one returns the bytes its entry names, fails
exactly when the entry is not inside the fork, and returns `false` after the
last entry. -/
theorem accepted_reads_exact {build : Build} {kind : Kind} {n pos : ℕ} {fork : List UInt8}
    {infos : List BlockInfo} {after : Cursor} {rfork : BufReader σ}
    (haccepted : readBlockInfo build kind n ⟨fork,pos⟩=.ok infos after) (hsound : rfork.Sound)
    (hbytes : rfork.view.bytes=fork) :
    ∃ first : ForkReader σ, openBlocks infos rfork=.ok first ∧
      ∀ i r, Reads first i r → Serves fork infos i r := by
  obtain ⟨first,hopen,hready,hinfos⟩ := openBlocks_ready hsound hbytes (accepted_fits haccepted)
  refine ⟨first,hopen,fun i r hreads => ?_⟩
  obtain ⟨hr,hdrop,hle⟩ := hreads.ready hready hinfos
  exact hr.serves hdrop hle

/-- A fork with one LZVN block of two bytes. -/
def smallFork : BuiltFork .release :=
  ForkFile.ResourceFork.new ⟨some [8,0,0,0,10,0,0,0,6,1],by decide⟩

/-- The small fork is read exactly. -/
theorem accepted_reads_exact_small :
    ∃ first : ForkReader (BuiltFork .release),
      openBlocks [⟨8,2⟩] (BufReader.new smallFork 8192)=.ok first ∧
      ∀ i r, Reads first i r → Serves [8,0,0,0,10,0,0,0,6,1] [⟨8,2⟩] i r :=
  @accepted_reads_exact _ _ _ .release .lzvn 5 0 [8,0,0,0,10,0,0,0,6,1] [⟨8,2⟩] _
    (BufReader.new smallFork 8192) rfl (sound_discard (BufReader.new smallFork 8192) smallFork) rfl

end Runs

end Applesauce.AcceptedReads
