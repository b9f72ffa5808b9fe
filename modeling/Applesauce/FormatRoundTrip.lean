import Applesauce.DecmpfsReader
import Applesauce.DecmpfsWriter

/-!
# Written files are read back block by block

The writer's outcome is one of two forms. The reader recognises the form
from the attribute alone, rebuilds the table from the fork, and then
delivers exactly the blocks that were added.
-/

namespace Applesauce.FormatRoundTrip

open RustIo SeekableFile DecmpfsValue BlockTables LawfulWriteSeek DecmpfsWriter DecmpfsReader

/-- The table of a finished fork describes the blocks, wherever reading starts. -/
theorem readBlockInfo_layout {build : Build} {kind : Kind} {n pos : ℕ}
    {blocks : List (List UInt8)} (hcount : blocks.length=numBlocks n)
    (hfit : (layout kind blocks).length≤u32Max) :
    ∃ after, readBlockInfo build kind n ⟨layout kind blocks,pos⟩=
      .ok (consecutive (headerSize kind blocks.length) (blocks.map List.length))
        ⟨layout kind blocks,after⟩ := by
  have hlen : (blocks.map List.length).length=blocks.length := List.length_map _
  have hblocks : numBlocks n=(blocks.map List.length).length := by rw [hlen,hcount]
  rw [←hlen]
  cases kind with
  | zlib => exact Zlib.readBlockInfo_layout hblocks (sum_lengths blocks) hfit
  | lzvn => exact Lz.readBlockInfo_layout hblocks (sum_lengths blocks) hfit
  | lzfse => exact Lz.readBlockInfo_layout hblocks (sum_lengths blocks) hfit

/-- A finished fork is a header, the blocks and a trailer. -/
theorem layout_split (kind : Kind) (blocks : List (List UInt8)) :
    ∃ front back, front.length=headerSize kind blocks.length ∧
      layout kind blocks=front++(blocks.flatten++back) := by
  have hlen : (blocks.map List.length).length=blocks.length := List.length_map _
  cases kind with
  | zlib =>
    refine ⟨_,Zlib.trailer,?_,(Zlib.layout_assoc _ _)⟩
    rw [Zlib.front_length,hlen]
    rfl
  | lzvn =>
    refine ⟨Lz.tableBytes (Lz.headerSize (blocks.map List.length).length)
      (blocks.map List.length),[],?_,?_⟩
    · rw [Lz.tableBytes_length,hlen]
      rfl
    · rw [List.append_nil]
      rfl
  | lzfse =>
    refine ⟨Lz.tableBytes (Lz.headerSize (blocks.map List.length).length)
      (blocks.map List.length),[],?_,?_⟩
    · rw [Lz.tableBytes_length,hlen]
      rfl
    · rw [List.append_nil]
      rfl

/-- Opening a file whose data is inline. -/
theorem new_inline (build : Build) (kind : Kind) {n : ℕ} (data : List UInt8)
    (opened : Except Fault Cursor) (hn : n<2^64) :
    Reader.new build (Value.toBytes ⟨.new kind .xattr,n,data⟩) opened=
      .ok ⟨kind,.xattr ⟨data,0⟩⟩ := by
  have hvalue := Value.fromData_toBytes ⟨.new kind .xattr,n,data⟩ (CompressionType.new_lt _ _) hn
  have hstorage : (CompressionType.new kind .xattr).compressionStorage.filter
      (fun p => p.1.supported)=some (kind,.xattr) := by
    cases kind <;> rfl
  simp only [Reader.new,hvalue,hstorage]

/-- Opening a file whose data is in a finished fork. -/
theorem new_fork {build : Build} {kind : Kind} {n : ℕ} {blocks : List (List UInt8)}
    (hn : n<2^64) (hcount : blocks.length=numBlocks n)
    (hfit : (layout kind blocks).length≤u32Max) :
    Reader.new build (Value.toBytes ⟨.new kind .resourceFork,n,[]⟩) (.ok ⟨layout kind blocks,0⟩)=
      .ok ⟨kind,.resourceFork
        (consecutive (headerSize kind blocks.length) (blocks.map List.length)) 0
        ⟨layout kind blocks,0⟩⟩ := by
  have hvalue := Value.fromData_toBytes ⟨.new kind .resourceFork,n,[]⟩
    (CompressionType.new_lt _ _) hn
  have hstorage : (CompressionType.new kind .resourceFork).compressionStorage.filter
      (fun p => p.1.supported)=some (kind,.resourceFork) := by
    cases kind <;> rfl
  obtain ⟨after,htable⟩ := @readBlockInfo_layout build kind n 0 blocks hcount hfit
  simp only [Reader.new,hvalue,hstorage,htable,Cursor.seek_start]

/-- A reader opened on a finished fork delivers its blocks. -/
theorem new_fork_delivers {build : Build} {kind : Kind} {n : ℕ} {blocks : List (List UInt8)}
    (hn : n<2^64) (hcount : blocks.length=numBlocks n)
    (hfit : (layout kind blocks).length≤u32Max) :
    ∃ r, Reader.new build (Value.toBytes ⟨.new kind .resourceFork,n,[]⟩)
        (.ok ⟨layout kind blocks,0⟩)=.ok r ∧ r.kind=kind ∧ Delivers r blocks := by
  refine ⟨_,new_fork hn hcount hfit,rfl,?_⟩
  rw [layout_length] at hfit
  obtain ⟨front,back,hfront,hsplit⟩ := layout_split kind blocks
  rw [hsplit,←hfront]
  exact delivers_consecutive front back (by rw [hfront]; omega)

/-- Whatever form the writer chose, a reader opened on it delivers the blocks. -/
theorem outcome_delivers {build : Build} {kind : Kind} {n : ℕ} {blocks : List (List UInt8)}
    {value : List UInt8} {fork : Option (List UInt8)} {opened : Except Fault Cursor}
    (hn : n<2^64) (hcount : blocks.length=numBlocks n) (hblocks : ∀ block∈blocks, block≠[])
    (hout : Outcome kind n blocks value fork)
    (hfork : ∀ bytes, fork=some bytes → bytes.length≤u32Max ∧ opened=.ok ⟨bytes,0⟩) :
    ∃ r, Reader.new build value opened=.ok r ∧ r.kind=kind ∧ Delivers r blocks := by
  cases hout with
  | inlined hone hsmall =>
    refine ⟨_,new_inline build kind blocks.flatten opened hn,rfl,?_⟩
    cases blocks with
    | nil => exact delivers_xattr_end kind []
    | cons block rest =>
      have hnil : rest=[] := List.length_eq_zero_iff.mp (by rw [List.length_cons] at hcount; omega)
      subst hnil
      rw [List.flatten_singleton]
      exact delivers_xattr kind (hblocks block List.mem_cons_self)
  | forked hmany hend =>
    obtain ⟨hfit,rfl⟩ := hfork _ rfl
    exact new_fork_delivers hn hcount hfit

/-- Round trip of the format: when every call of a writer on an empty fork
succeeds and the fork stays within 32 bits, a reader opened on the result
has the same kind, counts the remaining blocks, returns the blocks one by
one in order, and then reports the end. -/
theorem reader_delivers_written {σ : Type} [WriteSeek σ] [LawfulWriteSeek σ]
    {build readBuild : Build} {kind : Kind} {n : ℕ} {opener : Except Fault σ}
    {blocks : List (List UInt8)} {value : List UInt8} {fork : Option σ}
    {opened : Except Fault Cursor} (hn : n<2^32-1) (hcount : blocks.length=numBlocks n)
    (hblocks : ∀ block∈blocks, block≠[] ∧ block.length≤u32Max)
    (hempty : ∀ fresh, opener=.ok fresh → view fresh=.empty)
    (hwrite : writeFile build kind n opener blocks=.ok value fork)
    (hfork : ∀ finished, fork=some finished →
      (stored finished).length≤u32Max ∧ opened=.ok ⟨stored finished,0⟩) :
    ∃ r, Reader.new readBuild value opened=.ok r ∧ r.kind=kind ∧ Delivers r blocks := by
  have hout := writeFile_outcome hempty hwrite
  rw [countedBlocks_of_ne (fun block hblock => (hblocks block hblock).1)] at hout
  refine outcome_delivers (by omega) hcount (fun block hb => (hblocks block hb).1) hout ?_
  intro bytes hbytes
  obtain ⟨finished,hf,rfl⟩ := Option.map_eq_some_iff.mp hbytes
  exact hfork finished hf

/-- Two LZVN blocks of a file just over one block long. -/
theorem reader_delivers_two_blocks :
    ∃ r, Reader.new .debug (Value.toBytes ⟨.new .lzvn .resourceFork,65537,[]⟩)
        (.ok ⟨[12,0,0,0,13,0,0,0,15,0,0,0,7,8,9],0⟩)=.ok r ∧ r.kind=.lzvn ∧
      Delivers r [[7],[8,9]] := by
  refine @reader_delivers_written Cursor _ _ .debug .debug .lzvn 65537 (.ok .empty) [[7],[8,9]] _
    (some ⟨[12,0,0,0,13,0,0,0,15,0,0,0,7,8,9],12⟩) _ (by decide) (by decide) (by decide) ?_ rfl ?_
  · intro fresh h
    cases h
    rfl
  · intro finished h
    cases h
    exact ⟨by decide,rfl⟩

end Applesauce.FormatRoundTrip
