import Applesauce.DecmpfsValue
import Applesauce.SeekableFile
import Mathlib.Algebra.BigOperators.Group.List.Basic

/-!
# Block tables in the resource fork

The zlib layout has a big-endian header, a table of relative offsets and
sizes, the blocks and a trailer. The LZ layout has a table of absolute
offsets with one extra for the end. `finish` fills the table in behind the
blocks through any seekable sink; `readBlockInfo` parses a whole fork.
-/

namespace Applesauce.BlockTables

open RustIo SparseFile SeekableFile ByteWords DecmpfsValue LawfulWriteSeek

/-- Offset and size of one block within the fork. -/
structure BlockInfo where
  /-- Absolute position once read; relative to `0x104` in a zlib table. -/
  offset : ℕ
  /-- Stored size of the block. -/
  compressedSize : ℕ
  deriving DecidableEq,Repr

/-- `BlockInfo::SIZE`. -/
def BlockInfo.size : ℕ := 8

/-- The eight bytes of a table entry. -/
def BlockInfo.toBytes (info : BlockInfo) : List UInt8 :=
  leBytes 4 info.offset++leBytes 4 info.compressedSize

/-- Parse a table entry. -/
def BlockInfo.fromBytes (data : List UInt8) : BlockInfo :=
  ⟨leValue (data.take 4),leValue (data.drop 4)⟩

@[simp] theorem BlockInfo.toBytes_length (info : BlockInfo) : info.toBytes.length=8 := by
  simp [BlockInfo.toBytes]

/-- A table entry in range is recovered. -/
theorem BlockInfo.fromBytes_toBytes (info : BlockInfo) (ho : info.offset≤u32Max)
    (hs : info.compressedSize≤u32Max) : BlockInfo.fromBytes info.toBytes=info := by
  unfold u32Max at ho hs
  have h0 : info.toBytes.take 4=leBytes 4 info.offset := List.take_left' (leBytes_length _ _)
  have h1 : info.toBytes.drop 4=leBytes 4 info.compressedSize :=
    List.drop_left' (leBytes_length _ _)
  rw [BlockInfo.fromBytes,h0,h1,leValue_leBytes_of_lt (by omega),leValue_leBytes_of_lt (by omega)]

/-- `debug_assert_eq!(writer.stream_position()?, expected)`. -/
def debugAssertPosition {σ : Type} [WriteSeek σ] (build : Build) (expected : ℕ) : Io σ Unit :=
  match build with
  | .debug => do
    let pos ← streamPosition
    ensure (pos=expected) (.panic "assertion `left == right` failed")
  | .release => pure ()

/-- The blocks a table describes: consecutive, from a start offset on. -/
def consecutive : ℕ→List ℕ→List BlockInfo
  | _,[] => []
  | offset,size::sizes => ⟨offset,size⟩::consecutive (offset+size) sizes

@[simp] theorem consecutive_length (offset : ℕ) (sizes : List ℕ) :
    (consecutive offset sizes).length=sizes.length := by
  induction sizes generalizing offset with
  | nil => rfl
  | cons size sizes ih => simp only [consecutive,List.length_cons,ih]

section Positions
variable {σ : Type} [WriteSeek σ] [LawfulWriteSeek σ]

/-- A position assertion changes neither the view nor what has been stored. -/
theorem debugAssertPosition_ok {build : Build} {expected : ℕ} {s t : σ} {u : Unit}
    (h : debugAssertPosition build expected s=.ok u t) :
    view t=view s ∧ (stored s=(view s).bytes→stored t=(view t).bytes) := by
  cases build with
  | release =>
    cases h
    exact ⟨rfl,fun hs => hs⟩
  | debug =>
    obtain ⟨pos,r,hp,he⟩ := bind_ok_iff.mp h
    obtain ⟨_,rfl⟩ := ensure_ok_iff.mp he
    exact ⟨(streamPosition_view hp).2,seek_stored hp⟩

end Positions

namespace Zlib

/-- `ZLIB_BLOCK_TABLE_START`. -/
def blockTableStart : ℕ := 0x104

/-- `HEADER_LEN` of the fork header. -/
def headerLen : ℕ := 16

/-- `ZLIB_TRAILER`. -/
def trailer : List UInt8 :=
  List.replicate 24 0++
    [0x00,0x1c,0x00,0x32,0x00,0x00,0x63,0x6d,0x70,0x66,0x00,0x00,0x00,0x0a,
      0x00,0x01,0xff,0xff,0x00,0x00,0x00,0x00,0x00,0x00,0x00,0x00]

/-- Where the block data starts. -/
def headerSize (blockCount : ℕ) : ℕ := blockTableStart+4+blockCount*BlockInfo.size

/-- `trailer_size`. -/
def trailerSize : ℕ := trailer.length

/-- The header bytes once the unchecked subtraction has been computed. -/
def headerWords (dataEnd relative : ℕ) : List UInt8 :=
  beBytes 4 0x100++(beBytes 4 dataEnd++(beBytes 4 relative++beBytes 4 0x32))

/-- `header(data_end)`, with its unchecked subtraction. -/
def header {σ : Type} (build : Build) (dataEnd : ℕ) : Io σ (List UInt8) := do
  let relative ← subU32 build dataEnd 0x100
  pure (headerWords dataEnd relative)

@[simp] theorem headerWords_length (dataEnd relative : ℕ) :
    (headerWords dataEnd relative).length=16 := by
  simp [headerWords]

/-- The header of a fork whose data ends late enough. -/
theorem header_of {σ : Type} {build : Build} {dataEnd : ℕ} (s : σ) (h : 0x100≤dataEnd) :
    header build dataEnd s=.ok (headerWords dataEnd (dataEnd-0x100)) s := by
  unfold header
  rw [bind_of_ok (subU32_of s h)]
  rfl

/-- What a successful header computation returns. -/
theorem header_ok {σ : Type} {build : Build} {dataEnd : ℕ} {s t : σ} {head : List UInt8}
    (hd : 0x100≤dataEnd) (h : header build dataEnd s=.ok head t) :
    head=headerWords dataEnd (dataEnd-0x100) ∧ t=s := by
  rw [header_of s hd] at h
  obtain ⟨hh,ht⟩ := EStateM.Result.ok.inj h
  exact ⟨hh.symm,ht.symm⟩

/-- The table bytes of consecutive blocks, offsets relative to the table. -/
def entryBytes : ℕ→List ℕ→List UInt8
  | _,[] => []
  | offset,size::sizes => BlockInfo.toBytes ⟨offset,size⟩++entryBytes (offset+size) sizes

@[simp] theorem entryBytes_length (offset : ℕ) (sizes : List ℕ) :
    (entryBytes offset sizes).length=sizes.length*8 := by
  induction sizes generalizing offset with
  | nil => rfl
  | cons size sizes ih =>
    simp only [entryBytes,List.length_append,BlockInfo.toBytes_length,ih,List.length_cons]
    omega

section Finish
variable {σ : Type} [WriteSeek σ]

/-- The table loop of `finish`; the offset after each block must fit. -/
def writeEntries : ℕ→List ℕ→Io σ Unit
  | _,[] => pure ()
  | offset,size::sizes => do
    WriteSeek.writeAll (BlockInfo.toBytes ⟨offset,size⟩)
    let next ← tryU32 (offset+size) (.error (.new .other "offset too large for 32 bytes"))
    writeEntries next sizes

/-- `Zlib::finish`: trailer behind the blocks, then header and table. -/
def finish (build : Build) (blockSizes : List ℕ) : Io σ Unit := do
  let blockCount ← tryU32 blockSizes.length (.error (.ofKind .invalidInput))
  let pos ← streamPosition
  let dataEnd ← tryU32 pos (.error (.ofKind .invalidInput))
  WriteSeek.writeAll trailer
  debugAssertPosition build (dataEnd+trailerSize)
  rewind
  let head ← header build dataEnd
  WriteSeek.writeAll head
  let _ ← WriteSeek.seek (.start 0x100)
  let relative ← subU32 build dataEnd 0x104
  WriteSeek.writeAll (beBytes 4 relative)
  WriteSeek.writeAll (leBytes 4 blockCount)
  let currentOffset ← unwrapU32 (headerSize blockCount-blockTableStart)
  writeEntries currentOffset blockSizes
  WriteSeek.flush
  debugAssertPosition build (headerSize blockCount)

/-- The whole zlib fork around the concatenated blocks. -/
def layout (sizes : List ℕ) (data : List UInt8) : List UInt8 :=
  headerWords (headerSize sizes.length+data.length) (headerSize sizes.length+data.length-0x100)++
    (zeros 0xf0++(beBytes 4 (headerSize sizes.length+data.length-0x104)++
      (leBytes 4 sizes.length++
        (entryBytes (headerSize sizes.length-blockTableStart) sizes++(data++trailer)))))

variable [LawfulWriteSeek σ]

/-- The table loop appends the entries and bounds the end of the blocks. -/
theorem writeEntries_view {offset : ℕ} {sizes : List ℕ} {s t : σ} {u : Unit}
    (h : writeEntries offset sizes s=.ok u t) :
    view t=(view s).write (entryBytes offset sizes) ∧
      (offset≤u32Max → offset+sizes.sum≤u32Max) := by
  induction sizes generalizing offset s with
  | nil =>
    cases h
    exact ⟨rfl,fun ho => ho⟩
  | cons size sizes ih =>
    simp only [writeEntries,bind_ok_iff] at h
    obtain ⟨_,r,hw,next,r',hn,hrest⟩ := h
    obtain ⟨hfit,rfl,rfl⟩ := tryU32_ok_iff.mp hn
    obtain ⟨hv,hs⟩ := ih hrest
    refine ⟨?_,fun _ => ?_⟩
    · rw [hv,writeAll_view hw,Cursor.write_append]
      rfl
    · have hsum := hs hfit
      rw [List.sum_cons]
      omega

omit [WriteSeek σ] [LawfulWriteSeek σ] in
/-- The file after the blocks and the trailer, seen from its start. -/
theorem gap_trailer_split (count : ℕ) (data : List UInt8) :
    ({(⟨[],headerSize count⟩ : Cursor).write (data++trailer) with pos := 0} : Cursor)=
      Cursor.between [] (zeros 16++(zeros 0xf0++(zeros 4++(zeros 4++(zeros (count*8)++
        (data++trailer)))))) := by
  have hne : data++trailer≠[] := by simp [trailer]
  have hsplit : headerSize count=16+(0xf0+(4+(4+count*8))) := by
    unfold headerSize blockTableStart BlockInfo.size
    omega
  have hgap := @writeAt_gap UInt8 _ [] _ (Nat.zero_le (headerSize count)) _ hne
  rw [List.length_nil,Nat.sub_zero,List.nil_append,hsplit] at hgap
  simp only [Cursor.write,Cursor.between,hgap,hsplit,zeros_add,List.nil_append,
    List.append_assoc,List.length_nil]

/-- When `finish` succeeds behind the blocks, the fork is the zlib layout
and every offset fits 32 bits. -/
theorem finish_layout {build : Build} {sizes : List ℕ} {data : List UInt8} {s t : σ} {u : Unit}
    (hs : view s=(⟨[],headerSize sizes.length⟩ : Cursor).write data)
    (h : finish build sizes s=.ok u t) :
    stored t=layout sizes data ∧ headerSize sizes.length+data.length≤u32Max ∧
      headerSize sizes.length-blockTableStart+sizes.sum≤u32Max := by
  have hpos : (view s).pos=headerSize sizes.length+data.length := by rw [hs]; rfl
  have hlate : 0x108≤headerSize sizes.length := by
    unfold headerSize blockTableStart
    omega
  simp only [finish,bind_ok_iff] at h
  obtain ⟨count,s1,h1,pos,s2,h2,dataEnd,s3,h3,_,s4,h4,h⟩ := h
  obtain ⟨_,s5,h5,_,s6,h6,head,s7,h7,_,s8,h8,h⟩ := h
  obtain ⟨_,s9,h9,relative,s10,h10,_,s11,h11,_,s12,h12,h⟩ := h
  obtain ⟨offset,s13,h13,_,s14,h14,_,s15,h15,h16⟩ := h
  obtain ⟨_,rfl,rfl⟩ := tryU32_ok_iff.mp h1
  obtain ⟨rfl,hv2⟩ := streamPosition_view h2
  obtain ⟨hfit,rfl,rfl⟩ := tryU32_ok_iff.mp h3
  rw [hpos] at hfit h5 h7 h10
  have hv4 := writeAll_view h4
  rw [hv2,hs,Cursor.write_append] at hv4
  have hv6 := rewind_view h6
  rw [(debugAssertPosition_ok h5).1,hv4,gap_trailer_split] at hv6
  obtain ⟨rfl,rfl⟩ := header_ok (by omega) h7
  have hv8 := writeAll_view h8
  rw [hv6,Cursor.write_between _ _ _ (by simp),List.nil_append] at hv8
  have hv9 := seek_start_view h9
  have hseek : ({Cursor.between (headerWords (headerSize sizes.length+data.length)
      (headerSize sizes.length+data.length-0x100))
      (zeros 0xf0++(zeros 4++(zeros 4++(zeros (sizes.length*8)++(data++trailer))))) with
      pos := 0x100} : Cursor)=
      Cursor.between (headerWords (headerSize sizes.length+data.length)
        (headerSize sizes.length+data.length-0x100)++zeros 0xf0)
        (zeros 4++(zeros 4++(zeros (sizes.length*8)++(data++trailer)))) := by
    simp [Cursor.between]
  rw [hv8,hseek] at hv9
  obtain ⟨hrelative,rfl⟩ := subU32_ok (by omega) h10
  rw [hrelative] at h11
  have hv11 := writeAll_view h11
  rw [hv9,Cursor.write_between _ _ _ (by simp)] at hv11
  have hv12 := writeAll_view h12
  rw [hv11,Cursor.write_between _ _ _ (by simp)] at hv12
  obtain ⟨hofit,hoffset,rfl⟩ := tryU32_ok_iff.mp h13
  rw [hoffset] at h14
  obtain ⟨hv14,hsum⟩ := writeEntries_view h14
  rw [hv12,Cursor.write_between _ _ _ (by simp)] at hv14
  have hend := debugAssertPosition_ok h16
  refine ⟨?_,hfit,hsum hofit⟩
  rw [hend.2 (flush_stored h15),hend.1,flush_view h15,hv14]
  simp only [Cursor.between,layout,List.append_assoc]

end Finish

/-- The table loop of `read_block_info`, with its unchecked addition. -/
def readEntries (build : Build) : ℕ→Io Cursor (List BlockInfo)
  | 0 => pure []
  | count+1 => do
    let buf ← Cursor.readExact BlockInfo.size
    let offset ← addU32 build (BlockInfo.fromBytes buf).offset blockTableStart
    let rest ← readEntries build count
    pure (⟨offset,(BlockInfo.fromBytes buf).compressedSize⟩::rest)

/-- `Zlib::read_block_info`: check every fixed part, then return the table. -/
def readBlockInfo (build : Build) (origFileSize : ℕ) : Io Cursor (List BlockInfo) := do
  let blockCount ← unwrapU32 (numBlocks origFileSize)
  let len ← Cursor.seek (.fromEnd 0)
  let totalSize ← tryU32 len
    (.error (.new .invalidInput "resource fork exceeds u32 range"))
  let dataEnd ← subU32 build totalSize trailerSize
  let _ ← Cursor.seek (.start 0)
  let headerBuf ← Cursor.readExact headerLen
  let expected ← header build dataEnd
  ensure (headerBuf=expected)
    (.error (.new .invalidData "zlib header does not match expectation"))
  let gap ← Cursor.readExact (0x100-headerLen)
  ensure (gap.all (·=0)=true)
    (.error (.new .invalidData "expected zeros between header and 0x100"))
  let buf ← Cursor.readExact 4
  let relative ← subU32 build dataEnd 0x104
  ensure (buf=beBytes 4 relative) (.error (.new .invalidData "unexpected data at 0x100"))
  let countBuf ← Cursor.readExact 4
  ensure (countBuf=leBytes 4 blockCount)
    (.error (.new .invalidData "block count does not match computed value"))
  let result ← readEntries build blockCount
  let _ ← Cursor.seek (.start dataEnd)
  let trailerBuf ← Cursor.readExact trailerSize
  ensure (trailerBuf=trailer) (.error (.new .invalidData "trailer does not match"))
  pure result

/-- The table loop recovers consecutive blocks whose end fits 32 bits. -/
theorem readEntries_entryBytes {build : Build} {offset : ℕ} {sizes : List ℕ}
    (before after : List UInt8) (hfit : offset+blockTableStart+sizes.sum≤u32Max) :
    readEntries build sizes.length (.between before (entryBytes offset sizes++after))=
      .ok (consecutive (offset+blockTableStart) sizes)
        (.between (before++entryBytes offset sizes) after) := by
  induction sizes generalizing offset before with
  | nil => simp only [List.length_nil,readEntries,entryBytes,List.nil_append,List.append_nil,
      consecutive,pure_apply]
  | cons size sizes ih =>
    rw [List.sum_cons] at hfit
    have hinfo := BlockInfo.fromBytes_toBytes ⟨offset,size⟩ (by dsimp only; omega)
      (by dsimp only; omega)
    have hnext : offset+size+blockTableStart=offset+blockTableStart+size := by omega
    have hrest := @ih (offset+size) (before++BlockInfo.toBytes ⟨offset,size⟩) (by omega)
    rw [hnext,List.append_assoc] at hrest
    rw [List.length_cons,readEntries,entryBytes,List.append_assoc,
      bind_of_ok (Cursor.readExact_between BlockInfo.size before _ _
        (BlockInfo.toBytes_length _)),hinfo,
      bind_of_ok (addU32_of _ (by dsimp only; omega)),bind_of_ok hrest]
    rfl

/-- Everything in front of the blocks. -/
def front (sizes : List ℕ) (dataLength : ℕ) : List UInt8 :=
  headerWords (headerSize sizes.length+dataLength) (headerSize sizes.length+dataLength-0x100)++
    (zeros 0xf0++(beBytes 4 (headerSize sizes.length+dataLength-0x104)++
      (leBytes 4 sizes.length++entryBytes (headerSize sizes.length-blockTableStart) sizes)))

/-- The blocks start at the header size. -/
theorem front_length (sizes : List ℕ) (dataLength : ℕ) :
    (front sizes dataLength).length=headerSize sizes.length := by
  simp only [front,List.length_append,headerWords_length,zeros_length,beBytes_length,
    leBytes_length,entryBytes_length,headerSize,blockTableStart,BlockInfo.size]
  omega

/-- The layout is its front, the blocks and the trailer. -/
theorem layout_assoc (sizes : List ℕ) (data : List UInt8) :
    layout sizes data=front sizes data.length++(data++trailer) := by
  simp only [layout,front,List.append_assoc]

/-- Exact size of a zlib fork. -/
theorem layout_length (sizes : List ℕ) (data : List UInt8) :
    (layout sizes data).length=headerSize sizes.length+data.length+trailerSize := by
  rw [layout_assoc,List.length_append,List.length_append,front_length,Nat.add_assoc]
  rfl

/-- Parsing the zlib layout returns the blocks in order, where they are. -/
theorem readBlockInfo_layout {build : Build} {n pos : ℕ} {sizes : List ℕ} {data : List UInt8}
    (hcount : numBlocks n=sizes.length) (hsum : sizes.sum=data.length)
    (hfit : (layout sizes data).length≤u32Max) :
    ∃ after, readBlockInfo build n ⟨layout sizes data,pos⟩=
      .ok (consecutive (headerSize sizes.length) sizes) ⟨layout sizes data,after⟩ := by
  have hlen := layout_length sizes data
  have hlate : headerSize sizes.length=0x108+sizes.length*8 := by
    unfold headerSize blockTableStart BlockInfo.size
    omega
  have htrailer : trailerSize=50 := rfl
  have hstart : blockTableStart=0x104 := rfl
  have hend : (layout sizes data).length-trailerSize=headerSize sizes.length+data.length := by
    omega
  have hwide : u32Max≤u64Max := by decide
  have hblocks : numBlocks n≤u32Max := by omega
  let rest := data++trailer
  let table := entryBytes (headerSize sizes.length-blockTableStart) sizes
  let dataEnd := headerSize sizes.length+data.length
  have hopen : (⟨layout sizes data,0⟩ : Cursor)=.between [] (headerWords dataEnd (dataEnd-0x100)++
      (zeros 0xf0++(beBytes 4 (dataEnd-0x104)++(leBytes 4 sizes.length++(table++rest))))) := rfl
  have hzero : ((zeros 0xf0 : List UInt8).all (·=0))=true := by decide
  have htable := @readEntries_entryBytes build
    (headerSize sizes.length-blockTableStart) sizes
    ((([]++headerWords dataEnd (dataEnd-0x100))++zeros 0xf0++beBytes 4 (dataEnd-0x104))++
      leBytes 4 sizes.length) rest (by omega)
  have hback : headerSize sizes.length-blockTableStart+blockTableStart=headerSize sizes.length := by
    omega
  rw [hback] at htable
  have hlast : ({Cursor.between ((((([]++headerWords dataEnd (dataEnd-0x100))++zeros 0xf0)++
      beBytes 4 (dataEnd-0x104))++leBytes 4 sizes.length)++table) rest with pos := dataEnd} : Cursor)=
      .between ((((((([]++headerWords dataEnd (dataEnd-0x100))++zeros 0xf0)++
        beBytes 4 (dataEnd-0x104))++leBytes 4 sizes.length)++table)++data)) (trailer++[]) := by
    simp only [Cursor.between,rest,List.append_assoc,List.append_nil,Cursor.mk.injEq,true_and,
      List.length_append,List.nil_append,headerWords_length,zeros_length,beBytes_length,
      leBytes_length,entryBytes_length,dataEnd,table]
    omega
  refine ⟨(layout sizes data).length,?_⟩
  unfold readBlockInfo unwrapU32
  rw [bind_of_ok (tryU32_of _ _ hblocks),
    bind_of_ok (Cursor.seek_end _ (hfit.trans hwide)),bind_of_ok (tryU32_of _ _ hfit),
    bind_of_ok (subU32_of _ (by omega)),bind_of_ok (Cursor.seek_start _ _)]
  dsimp only
  rw [hend,hopen,bind_of_ok (Cursor.readExact_between headerLen _ _ _
      (headerWords_length _ _)),
    bind_of_ok (header_of _ (by omega)),bind_of_ok (ensure_of _ _ rfl),
    bind_of_ok (Cursor.readExact_between (0x100-headerLen) _ (zeros 0xf0) _
      (zeros_length 0xf0)),
    bind_of_ok (ensure_of _ _ hzero),
    bind_of_ok (Cursor.readExact_between _ _ _ _ (beBytes_length _ _)),
    bind_of_ok (subU32_of _ (by omega)),bind_of_ok (ensure_of _ _ rfl),
    bind_of_ok (Cursor.readExact_between _ _ _ _ (leBytes_length _ _)),
    bind_of_ok (ensure_of _ _ (by rw [hcount])),hcount,bind_of_ok htable,
    bind_of_ok (Cursor.seek_start _ _),hlast,
    bind_of_ok (Cursor.readExact_between trailerSize _ trailer _ rfl),
    bind_of_ok (ensure_of _ _ rfl),pure_apply]
  simp only [Cursor.between,EStateM.Result.ok.injEq,true_and,Cursor.mk.injEq]
  constructor
  · simp only [layout,table,dataEnd,List.append_assoc,List.append_nil,List.nil_append]
  · rw [hlen]
    simp only [List.length_append,List.nil_append,headerWords_length,zeros_length,beBytes_length,
      leBytes_length,entryBytes_length,table,trailerSize]
    omega

end Zlib

namespace Lz

/-- Where the block data starts: one offset for each block and one for the end. -/
def headerSize (blockCount : ℕ) : ℕ := (blockCount+1)*4

/-- The offset table of consecutive blocks, with the final offset. -/
def tableBytes : ℕ→List ℕ→List UInt8
  | offset,[] => leBytes 4 offset
  | offset,size::sizes => leBytes 4 offset++tableBytes (offset+size) sizes

@[simp] theorem tableBytes_length (offset : ℕ) (sizes : List ℕ) :
    (tableBytes offset sizes).length=headerSize sizes.length := by
  induction sizes generalizing offset with
  | nil => rfl
  | cons size sizes ih =>
    simp only [tableBytes,List.length_append,leBytes_length,ih,List.length_cons,headerSize]
    omega

/-- The whole LZ fork around the concatenated blocks. -/
def layout (sizes : List ℕ) (data : List UInt8) : List UInt8 :=
  tableBytes (headerSize sizes.length) sizes++data

/-- Exact size of an LZ fork. -/
theorem layout_length (sizes : List ℕ) (data : List UInt8) :
    (layout sizes data).length=headerSize sizes.length+data.length := by
  simp only [layout,List.length_append,tableBytes_length]

section Finish
variable {σ : Type} [WriteSeek σ]

/-- The table loop of `finish`, closed by the final offset. -/
def writeOffsets : ℕ→List ℕ→Io σ Unit
  | offset,[] => WriteSeek.writeAll (leBytes 4 offset)
  | offset,size::sizes => do
    WriteSeek.writeAll (leBytes 4 offset)
    let next ← tryU32 (offset+size)
      (.error (.new .other "Unable to represent offset in 32 bits"))
    writeOffsets next sizes

/-- `Lz::finish`: the offset table in front of the blocks. -/
def finish (build : Build) (blockSizes : List ℕ) : Io σ Unit := do
  let blockCount ← unwrapU32 blockSizes.length
  let offset ← unwrapU32 (headerSize blockCount)
  rewind
  writeOffsets offset blockSizes
  WriteSeek.flush
  debugAssertPosition build (headerSize blockCount)

variable [LawfulWriteSeek σ]

/-- The table loop writes the offset table and bounds the end of the blocks. -/
theorem writeOffsets_view {offset : ℕ} {sizes : List ℕ} {s t : σ} {u : Unit}
    (h : writeOffsets offset sizes s=.ok u t) :
    view t=(view s).write (tableBytes offset sizes) ∧
      (offset≤u32Max → offset+sizes.sum≤u32Max) := by
  induction sizes generalizing offset s with
  | nil => exact ⟨writeAll_view h,fun ho => ho⟩
  | cons size sizes ih =>
    simp only [writeOffsets,bind_ok_iff] at h
    obtain ⟨_,r,hw,next,r',hn,hrest⟩ := h
    obtain ⟨hfit,rfl,rfl⟩ := tryU32_ok_iff.mp hn
    obtain ⟨hv,hs⟩ := ih hrest
    refine ⟨?_,fun _ => ?_⟩
    · rw [hv,writeAll_view hw,Cursor.write_append]
      rfl
    · have hsum := hs hfit
      rw [List.sum_cons]
      omega

omit [WriteSeek σ] [LawfulWriteSeek σ] in
/-- A table written in front of the blocks replaces exactly the gap. -/
theorem gap_write_table (sizes : List ℕ) (data table : List UInt8)
    (ht : table.length=headerSize sizes.length) :
    (({(⟨[],headerSize sizes.length⟩ : Cursor).write data with pos := 0} : Cursor).write
      table).bytes=table++data := by
  by_cases hd : data=[]
  · subst hd
    rw [Cursor.write_nil,List.append_nil]
    exact writeAt_end [] table
  · have hgap := @writeAt_gap UInt8 _ [] _ (Nat.zero_le (headerSize sizes.length)) _ hd
    rw [List.length_nil,Nat.sub_zero,List.nil_append] at hgap
    simp only [Cursor.write,hgap]
    exact writeAt_replace [] (zeros (headerSize sizes.length)) data (by rw [zeros_length,ht])

/-- When `finish` succeeds behind the blocks, the fork is the LZ layout and
every offset fits 32 bits. -/
theorem finish_layout {build : Build} {sizes : List ℕ} {data : List UInt8} {s t : σ} {u : Unit}
    (hs : view s=(⟨[],headerSize sizes.length⟩ : Cursor).write data)
    (h : finish build sizes s=.ok u t) :
    stored t=layout sizes data ∧ headerSize sizes.length+sizes.sum≤u32Max := by
  simp only [finish,bind_ok_iff] at h
  obtain ⟨count,s1,h1,offset,s2,h2,_,s3,h3,_,s4,h4,_,s5,h5,h6⟩ := h
  obtain ⟨_,rfl,rfl⟩ := tryU32_ok_iff.mp h1
  obtain ⟨hofit,rfl,rfl⟩ := tryU32_ok_iff.mp h2
  have hv3 := rewind_view h3
  obtain ⟨hv4,hsum⟩ := writeOffsets_view h4
  have hend := debugAssertPosition_ok h6
  refine ⟨?_,hsum hofit⟩
  rw [hend.2 (flush_stored h5),hend.1,flush_view h5,hv4,hv3,hs,
    gap_write_table _ _ _ (tableBytes_length _ _)]
  rfl

end Finish

/-- The table loop of `read_block_info`; it also returns the final offset. -/
def readOffsets : ℕ→ℕ→Io Cursor (List BlockInfo×ℕ)
  | 0,lastOffset => pure ([],lastOffset)
  | count+1,lastOffset => do
    let buf ← Cursor.readExact 4
    ensure (lastOffset≤leValue buf) (.error (.new .other "compressed block overlap"))
    let rest ← readOffsets count (leValue buf)
    pure (⟨lastOffset,leValue buf-lastOffset⟩::rest.1,rest.2)

/-- `Lz::read_block_info`: the table must start at the data and end at the
end of the fork. -/
def readBlockInfo (origFileSize : ℕ) : Io Cursor (List BlockInfo) := do
  let _ ← Cursor.seek (.start 0)
  let blocksStart ← unwrapU32 (headerSize (numBlocks origFileSize))
  let buf ← Cursor.readExact 4
  ensure (leValue buf=blocksStart) (.error (.new .other "unexpected first block offset"))
  let result ← readOffsets (numBlocks origFileSize) (leValue buf)
  let endPos ← Cursor.seek (.fromEnd 0)
  ensure (endPos=result.2) (.error (.new .other "last block does not end resource fork"))
  pure result.1

/-- Everything in an offset table after its first entry. -/
def tailBytes (offset : ℕ) : List ℕ→List UInt8
  | [] => []
  | size::sizes => tableBytes (offset+size) sizes

/-- An offset table is its first offset and the rest. -/
theorem tableBytes_eq (offset : ℕ) (sizes : List ℕ) :
    tableBytes offset sizes=leBytes 4 offset++tailBytes offset sizes := by
  cases sizes with
  | nil => simp only [tableBytes,tailBytes,List.append_nil]
  | cons size sizes => rfl

/-- The table loop recovers consecutive blocks whose end fits 32 bits. -/
theorem readOffsets_tailBytes {offset : ℕ} {sizes : List ℕ} (before after : List UInt8)
    (hfit : offset+sizes.sum≤u32Max) :
    readOffsets sizes.length offset (.between before (tailBytes offset sizes++after))=
      .ok (consecutive offset sizes,offset+sizes.sum)
        (.between (before++tailBytes offset sizes) after) := by
  induction sizes generalizing offset before with
  | nil => simp only [List.length_nil,readOffsets,tailBytes,List.nil_append,List.append_nil,
      consecutive,List.sum_nil,Nat.add_zero,pure_apply]
  | cons size sizes ih =>
    rw [List.sum_cons] at hfit
    unfold u32Max at hfit ih
    have hv : leValue (leBytes 4 (offset+size))=offset+size :=
      leValue_leBytes_of_lt (by omega)
    have hrest := @ih (offset+size) (before++leBytes 4 (offset+size)) (by omega)
    rw [List.append_assoc] at hrest
    rw [List.length_cons,readOffsets,tailBytes,tableBytes_eq,List.append_assoc,
      bind_of_ok (Cursor.readExact_between _ before _ _ (leBytes_length _ _)),hv,
      bind_of_ok (ensure_of _ _ (Nat.le_add_right _ _)),bind_of_ok hrest,pure_apply,
      Nat.add_sub_cancel_left,List.sum_cons,Nat.add_assoc]
    rfl

/-- Parsing the LZ layout returns the blocks in order, where they are. -/
theorem readBlockInfo_layout {n pos : ℕ} {sizes : List ℕ} {data : List UInt8}
    (hcount : numBlocks n=sizes.length) (hsum : sizes.sum=data.length)
    (hfit : (layout sizes data).length≤u32Max) :
    ∃ after, readBlockInfo n ⟨layout sizes data,pos⟩=
      .ok (consecutive (headerSize sizes.length) sizes) ⟨layout sizes data,after⟩ := by
  have hlen := layout_length sizes data
  have hwide : u32Max≤u64Max := by decide
  have hopen : (⟨layout sizes data,0⟩ : Cursor)=.between [] (leBytes 4 (headerSize sizes.length)++
      (tailBytes (headerSize sizes.length) sizes++data)) := by
    rw [layout,tableBytes_eq,List.append_assoc]
    rfl
  have hv : leValue (leBytes 4 (headerSize sizes.length))=headerSize sizes.length := by
    unfold u32Max at hfit
    exact leValue_leBytes_of_lt (by omega)
  have htable := @readOffsets_tailBytes (headerSize sizes.length) sizes
    ([]++leBytes 4 (headerSize sizes.length)) data (by omega)
  have hclose : Cursor.between (([]++leBytes 4 (headerSize sizes.length))++
      tailBytes (headerSize sizes.length) sizes) data=
      ⟨layout sizes data,headerSize sizes.length⟩ := by
    simp only [Cursor.between,layout,List.nil_append,←tableBytes_eq,tableBytes_length]
  refine ⟨(layout sizes data).length,?_⟩
  unfold readBlockInfo unwrapU32
  rw [bind_of_ok (Cursor.seek_start _ _),bind_of_ok (tryU32_of _ _ (by rw [hcount]; omega)),hcount]
  dsimp only
  rw [hopen,bind_of_ok (Cursor.readExact_between _ _ _ _ (leBytes_length _ _)),hv,
    bind_of_ok (ensure_of _ _ rfl),bind_of_ok htable,hclose,
    bind_of_ok (Cursor.seek_end _ (hfit.trans hwide)),
    bind_of_ok (ensure_of _ _ (by dsimp only; omega)),pure_apply]

end Lz

end Applesauce.BlockTables
