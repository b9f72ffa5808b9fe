import Applesauce.BlockTables

/-!
# The decmpfs reader

A reader takes its block either from the attribute or, one table entry at a
time, from the resource fork. It seeks relative to the end of the last block
it returned, so its position and the remembered end must agree. `Delivers`
says which blocks a reader still has to give.
-/

namespace Applesauce.DecmpfsReader

open RustIo SparseFile SeekableFile DecmpfsValue BlockTables

/-- `Kind::read_block_info`. -/
def readBlockInfo (build : Build) (kind : Kind) (origFileSize : ℕ) : Io Cursor (List BlockInfo) :=
  match kind with
  | .zlib => Zlib.readBlockInfo build origFileSize
  | .lzvn => Lz.readBlockInfo origFileSize
  | .lzfse => Lz.readBlockInfo origFileSize

/-- The state of a reader. -/
inductive ReaderState where
  /-- The data of the attribute, with the position reached in it. -/
  | xattr (cursor : Cursor)
  /-- The entries still to be read, the next one first: the reversed vector seen
  from its end. `lastOffset` is the end of the block read last. -/
  | resourceFork (blockInfos : List BlockInfo) (lastOffset : ℕ) (reader : Cursor)
  deriving DecidableEq,Repr

/-- A reader of one file. -/
structure Reader where
  /-- The compression format. -/
  kind : Kind
  /-- The current state. -/
  state : ReaderState
  deriving DecidableEq,Repr

/-- `Reader::new`; the fork is opened only when the data is stored there. -/
def Reader.new (build : Build) (decmpfsData : List UInt8) (opener : Except Fault Cursor) :
    Except Fault Reader :=
  match Value.fromData decmpfsData with
  | .error e => .error (.error e.toIoError)
  | .ok value =>
    match value.compressionType.compressionStorage.filter (fun p => p.1.supported) with
    | none => .error (.error (.new .other "unsupported compression kind or storage"))
    | some (kind,.xattr) => .ok ⟨kind,.xattr ⟨value.extraData,0⟩⟩
    | some (kind,.resourceFork) =>
      match opener with
      | .error fault => .error fault
      | .ok rfork =>
        match readBlockInfo build kind value.uncompressedSize rfork with
        | .error fault _ => .error fault
        | .ok blocksInfo rfork =>
          match Cursor.seek (.start 0) rfork with
          | .error fault _ => .error fault
          | .ok _ rfork => .ok ⟨kind,.resourceFork blocksInfo 0 rfork⟩

/-- `Reader::remaining_blocks`. -/
def Reader.remainingBlocks (r : Reader) : ℕ :=
  match r.state with
  | .xattr cursor => if 0<cursor.bytes.length-cursor.pos then 1 else 0
  | .resourceFork blockInfos _ _ => blockInfos.length

/-- `Reader::read_block_into`: the state pairs the reader with the buffer it
appends to, which keeps what was read when the fork ends early. -/
def readBlockInto : Io (Reader×List UInt8) Bool := fun (r,dst) =>
  match r.state with
  | .xattr cursor =>
    match Cursor.readUpTo (cursor.bytes.length-cursor.pos) cursor with
    | .error fault cursor => .error fault ({r with state := .xattr cursor},dst)
    | .ok bytes cursor =>
      .ok (decide (0<bytes.length)) ({r with state := .xattr cursor},dst++bytes)
  | .resourceFork [] _ _ => .ok false (r,dst)
  | .resourceFork (block::blockInfos) lastOffset reader =>
    match Cursor.seek (.current ((block.offset : ℤ)-lastOffset)) reader with
    | .error fault reader =>
      .error fault ({r with state := .resourceFork blockInfos lastOffset reader},dst)
    | .ok _ reader =>
      match Cursor.readUpTo block.compressedSize reader with
      | .error fault reader =>
        .error fault ({r with state := .resourceFork blockInfos lastOffset reader},dst)
      | .ok bytes reader =>
        if bytes.length<block.compressedSize then
          .error (.error (.ofKind .unexpectedEof))
            ({r with state := .resourceFork blockInfos lastOffset reader},dst++bytes)
        else if block.offset+block.compressedSize≤u32Max then
          .ok true
            ({r with state := .resourceFork blockInfos (block.offset+block.compressedSize) reader},
              dst++bytes)
        else
          .error (.error (.ofKind .invalidData))
            ({r with state := .resourceFork blockInfos lastOffset reader},dst++bytes)

/-- The reads still to come return exactly these blocks, whatever has been
collected before, and the count of remaining blocks agrees at every point. -/
def Delivers : Reader→List (List UInt8)→Prop
  | r,[] => r.remainingBlocks=0 ∧ ∀ dst, readBlockInto (r,dst)=.ok false (r,dst)
  | r,block::blocks => r.remainingBlocks=blocks.length+1 ∧
      ∃ next : Reader, (∀ dst, readBlockInto (r,dst)=.ok true (next,dst++block)) ∧
        Delivers next blocks

/-- Read blocks until none is left, each appended to the same buffer. -/
def readAll : ℕ→Io (Reader×List UInt8) Bool
  | 0 => readBlockInto
  | count+1 => do
    let more ← readBlockInto
    if more then readAll count else pure false

section Attribute

/-- Reading attribute data to its end. -/
theorem readUpTo_rest (bytes : List UInt8) :
    Cursor.readUpTo bytes.length ⟨bytes,0⟩=.ok bytes ⟨bytes,bytes.length⟩ := by
  simp only [Cursor.readUpTo,readAt,List.drop_zero,List.take_length,Nat.zero_add]

/-- A cursor at the end of its bytes delivers nothing. -/
theorem delivers_xattr_end (kind : Kind) (bytes : List UInt8) :
    Delivers ⟨kind,.xattr ⟨bytes,bytes.length⟩⟩ [] := by
  refine ⟨?_,fun dst => ?_⟩
  · simp only [Reader.remainingBlocks,Nat.sub_self,Nat.lt_irrefl,if_false]
  · simp only [readBlockInto,Cursor.readUpTo,readAt,Nat.sub_self,List.take_zero,List.length_nil,
      Nat.lt_irrefl,decide_false,Nat.add_zero,List.append_nil]

/-- Nonempty attribute data is one block. -/
theorem delivers_xattr (kind : Kind) {bytes : List UInt8} (h : bytes≠[]) :
    Delivers ⟨kind,.xattr ⟨bytes,0⟩⟩ [bytes] := by
  have hpos : 0<bytes.length := List.length_pos_iff.mpr h
  refine ⟨?_,⟨kind,.xattr ⟨bytes,bytes.length⟩⟩,fun dst => ?_,delivers_xattr_end kind bytes⟩
  · simp only [Reader.remainingBlocks,Nat.sub_zero,if_pos hpos,List.length_nil,Nat.zero_add]
  · simp only [readBlockInto,Nat.sub_zero,readUpTo_rest,decide_eq_true hpos]

end Attribute

section Fork

/-- One read: the reader stands where its last block ended, the entry at the
head of the table describes the next bytes after a gap. -/
theorem readBlockInto_entry {kind : Kind} {infos : List BlockInfo} {last : ℕ}
    {front block back : List UInt8} (dst : List UInt8)
    (hfit : front.length+block.length≤u32Max) :
    readBlockInto (⟨kind,.resourceFork (⟨front.length,block.length⟩::infos) last
        ⟨front++(block++back),last⟩⟩,dst)=
      .ok true (⟨kind,.resourceFork infos (front.length+block.length)
        ⟨front++(block++back),front.length+block.length⟩⟩,dst++block) := by
  have hwide : u32Max≤u64Max := by decide
  have hback : (last : ℤ)+((front.length : ℤ)-last)=front.length := by omega
  have hrange : (0 : ℤ)≤(front.length : ℤ) ∧ (front.length : ℤ)≤u64Max := by omega
  have htarget : Cursor.seekTarget ⟨front++(block++back),last⟩
      (.current ((front.length : ℤ)-last))=some front.length := by
    simp only [Cursor.seekTarget,checkedAddSigned,hback,if_pos hrange,Int.toNat_natCast]
  have hread : readAt (front++(block++back)) front.length block.length=block := by
    simp only [readAt,List.drop_left,List.take_left]
  simp only [readBlockInto,Cursor.seek,htarget,Cursor.readUpTo,hread,Nat.lt_irrefl,if_false,
    if_pos hfit]

/-- A reader over a table of consecutive blocks delivers them, whatever stands
before and behind them in the fork. -/
theorem delivers_consecutive {kind : Kind} {blocks : List (List UInt8)} {last : ℕ}
    (front back : List UInt8) (hfit : front.length+blocks.flatten.length≤u32Max) :
    Delivers ⟨kind,.resourceFork (consecutive front.length (blocks.map List.length)) last
      ⟨front++(blocks.flatten++back),last⟩⟩ blocks := by
  induction blocks generalizing front last with
  | nil => exact ⟨rfl,fun dst => rfl⟩
  | cons block blocks ih =>
    rw [List.flatten_cons,List.length_append] at hfit
    have hlen : (front++block).length=front.length+block.length := List.length_append
    have hrest := @ih (front.length+block.length) (front++block) (by rw [hlen]; omega)
    have hdata : (front++block)++(blocks.flatten++back)=
        front++(block++(blocks.flatten++back)) := List.append_assoc _ _ _
    rw [hdata,hlen] at hrest
    refine ⟨?_,_,fun dst => ?_,hrest⟩
    · simp only [Reader.remainingBlocks,List.map_cons,consecutive,List.length_cons,
        consecutive_length,List.length_map]
    · rw [List.flatten_cons,List.append_assoc]
      exact readBlockInto_entry dst (by omega)

end Fork

section Runs

/-- Reading everything concatenates the blocks and ends with `false`. -/
theorem Delivers.readAll {r : Reader} {blocks : List (List UInt8)} (h : Delivers r blocks)
    (dst : List UInt8) :
    ∃ last : Reader, readAll blocks.length (r,dst)=.ok false (last,dst++blocks.flatten) ∧
      last.remainingBlocks=0 := by
  induction blocks generalizing r dst with
  | nil =>
    refine ⟨r,?_,h.1⟩
    rw [List.flatten_nil,List.append_nil]
    exact h.2 dst
  | cons block blocks ih =>
    obtain ⟨_,next,hread,hnext⟩ := h
    obtain ⟨last,hlast,hzero⟩ := ih hnext (dst++block)
    refine ⟨last,?_,hzero⟩
    rw [List.length_cons,DecmpfsReader.readAll,bind_of_ok (hread dst),if_pos rfl,hlast,
      List.flatten_cons,List.append_assoc]

/-- Before each read the count of remaining blocks is the number still to come. -/
theorem Delivers.remaining {r : Reader} {blocks : List (List UInt8)} (h : Delivers r blocks) :
    r.remainingBlocks=blocks.length := by
  cases blocks with
  | nil => exact h.1
  | cons block blocks => exact h.1

end Runs

end Applesauce.DecmpfsReader
