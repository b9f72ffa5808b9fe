import Applesauce.WrittenForks
import Applesauce.CompleteFile

/-!
# What compression stores and what it saves

The threshold of `write_blocks` counts the blocks only. The header of the
attribute, and for a fork its table and trailer, come on top of them, so a
file whose blocks are just under the threshold can take more space than it
did before.
-/

namespace Applesauce.StoredSize

open RustIo SeekableFile DecmpfsValue BlockTables DecmpfsWriter WriterCalls WrittenForks StagedOutput
open CompleteFile LawfulWriteSeek

/-- The bytes stored for a file: the attribute value and the fork, if there is one. -/
def storedBytes (value : List UInt8) (fork : Option (List UInt8)) : ℕ :=
  value.length+(fork.getD []).length

/-- The bytes that the format adds to the blocks of a file. -/
def overhead (kind : Kind) (n dataLength : ℕ) : ℕ :=
  if numBlocks n≤1 ∧ dataLength≤ maxXattrDataSize then headerLen
  else headerLen+headerSize kind (numBlocks n)+trailerSize kind

/-- Leading empty blocks hold no data. -/
theorem countedBlocks_flatten (n : ℕ) (blocks : List (List UInt8)) :
    (countedBlocks n blocks).flatten=blocks.flatten := by
  unfold countedBlocks
  by_cases hn : 1<numBlocks n
  · rw [if_pos hn]
  · rw [if_neg hn]
    induction blocks with
    | nil => rfl
    | cons block blocks ih =>
      cases block with
      | nil => exact ih
      | cons first rest => rfl

/-- The length of an attribute value. -/
theorem value_length (kind : Kind) (storage : Storage) (n : ℕ) (data : List UInt8) :
    (Value.toBytes ⟨.new kind storage,n,data⟩).length=headerLen+data.length :=
  Value.toBytes_length _

/-- A fork is written only for several blocks or for more data than the attribute takes. -/
theorem outcome_large {kind : Kind} {n : ℕ} {blocks : List (List UInt8)} {value bytes : List UInt8}
    {fork : Option (List UInt8)} (h : Outcome kind n blocks value fork) (hfork : fork=some bytes) :
    1<numBlocks n ∨ maxXattrDataSize<blocks.flatten.length := by
  cases h with
  | inlined hone hsmall => cases hfork
  | forked hlarge hfit => exact hlarge

section Written
variable {σ : Type} [WriteSeek σ] [LawfulWriteSeek σ]

/-- Whatever is stored for a file is its blocks and the overhead of the format. -/
theorem storedBytes_eq {build : Build} {kind : Kind} {n maxCompressedSize : ℕ} {percent : String}
    {received : Except Fault Unit} {opener : Except Fault σ} {blocks : List (List UInt8)}
    {value : List UInt8} {w t : Writer σ} {u : Unit} {fork : Option σ}
    (hopen : ∀ fork, opener=.ok fork → view fork=.empty) (hnew : Writer.new kind n opener=.ok w)
    (hwrite : writeBlocks build maxCompressedSize percent received 0 blocks w=.ok u t)
    (hfinish : finishDecmpfsData build t=.ok value fork) :
    storedBytes value (fork.map stored)=
      overhead kind n blocks.flatten.length+blocks.flatten.length := by
  have hout := writeBlocks_outcome hopen hnew hwrite hfinish
  have hdata := countedBlocks_flatten n blocks
  unfold storedBytes overhead
  cases fork with
  | none =>
    rw [Option.map_none] at hout
    cases hout with
    | inlined hone hsmall =>
      rw [hdata] at hsmall ⊢
      rw [if_pos ⟨hone,hsmall⟩,value_length]
      rfl
  | some last =>
    obtain ⟨hadd,_⟩ := writeBlocks_ok hwrite
    rw [←runCalls_add] at hadd
    obtain ⟨rfl,rfl,hw⟩ := new_written hopen hnew
    obtain ⟨hkind,hsize,pieces,ht,_⟩ := hw.run hadd
    rw [List.nil_append,List.nil_append,added_map] at ht
    obtain ⟨hcount,hflat,hstored,_,hvalue⟩ := ht.finish hfinish
    have hlarge : ¬(numBlocks w.uncompressedSize≤1 ∧ blocks.flatten.length≤ maxXattrDataSize) := by
      rintro ⟨hone,hsmall⟩
      have hfork := outcome_large hout rfl
      rw [hdata] at hfork
      omega
    rw [if_neg hlarge,hvalue,value_length,Option.map_some,Option.getD_some,hstored,layout_length,
      hkind,hcount,hsize,hflat,List.length_nil]
    omega

/-- For every format, length and sequence of blocks that is written and finished under any threshold,
such as one of at most the length of the file: no more is stored than that length exactly when the
blocks leave room for the overhead. -/
theorem storedBytes_le_iff {build : Build} {kind : Kind} {n maxCompressedSize : ℕ} {percent : String}
    {received : Except Fault Unit} {opener : Except Fault σ} {blocks : List (List UInt8)}
    {value : List UInt8} {w t : Writer σ} {u : Unit} {fork : Option σ}
    (hopen : ∀ fork, opener=.ok fork → view fork=.empty) (hnew : Writer.new kind n opener=.ok w)
    (hwrite : writeBlocks build maxCompressedSize percent received 0 blocks w=.ok u t)
    (hfinish : finishDecmpfsData build t=.ok value fork) :
    storedBytes value (fork.map stored)≤n ↔
      overhead kind n blocks.flatten.length+blocks.flatten.length≤n := by
  rw [storedBytes_eq hopen hnew hwrite hfinish]

end Written

/-- Four bytes for a file of thirty are stored in less space. -/
theorem short_block_saves :
    storedBytes (Value.toBytes ⟨.new .lzfse .xattr,30,[1,2,3,4]⟩) none≤30 := by
  have hopen : ∀ fork, (Except.ok Cursor.empty : Except Fault Cursor)=.ok fork →
      view fork=.empty := fun fork hfork => (Except.ok.inj hfork).symm
  exact (@storedBytes_le_iff Cursor _ _ .release .lzfse 30 30 "100.0" (.ok ()) (.ok Cursor.empty)
    [[1,2,3,4]] _ _ _ () none hopen rfl rfl rfl).mpr (by decide)

/-- A file of twenty bytes whose block has nineteen passes the threshold and takes thirty-five. -/
theorem small_file_grows :
    ¬∀ (build : Build) (kind : Kind) (n maxCompressedSize : ℕ) (percent : String)
      (opener : Except Fault Cursor) (blocks : List (List UInt8)) (value : List UInt8)
      (w t : Writer Cursor) (u : Unit) (fork : Option Cursor),
      (∀ fork, opener=.ok fork → view fork=.empty) → Writer.new kind n opener=.ok w →
      writeBlocks build maxCompressedSize percent (.ok ()) 0 blocks w=.ok u t →
      finishDecmpfsData build t=.ok value fork → maxCompressedSize≤n →
      storedBytes value (fork.map stored)≤n := by
  intro hall
  have hopen : ∀ fork, (Except.ok Cursor.empty : Except Fault Cursor)=.ok fork →
      view fork=.empty := fun fork hfork => (Except.ok.inj hfork).symm
  have hle := hall .release .zlib 20 20 "100.0" (.ok Cursor.empty) [List.replicate 19 120] _ _ _ () _
    hopen rfl rfl rfl (by decide)
  exact absurd hle (by decide)

end Applesauce.StoredSize
