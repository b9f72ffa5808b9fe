import Applesauce.WrittenForks
import Applesauce.FormatRoundTrip

/-!
# How large a certified fork can be

`finish` bounds the end of the data, `read_block_info` the whole fork. For LZ
the two are the same. A zlib fork has a trailer behind the data, so the last
few sizes below 4 GiB are certified by the one and refused by the other.
-/

namespace Applesauce.ForkBounds

open RustIo SeekableFile DecmpfsValue BlockTables DecmpfsWriter DecmpfsReader WriterCalls
open WrittenForks ReliableSinks FormatRoundTrip LawfulWriteSeek

/-- The whole fork stays within 32 bits and its table can be read for this file. -/
def Readable (build : Build) (kind : Kind) (n : ℕ) (fork : List UInt8) : Prop :=
  fork.length≤u32Max ∧ ∃ infos after, readBlockInfo build kind n ⟨fork,0⟩=.ok infos after

section Certified
variable {σ : Type} [WriteSeek σ] [LawfulWriteSeek σ]

/-- For every format, size and calls of a writer whose fork was finished, that fork can be read
exactly when, for zlib, the trailer still fits. -/
theorem finished_readable_iff {build readBuild : Build} {kind : Kind} {n : ℕ}
    {opener : Except Fault σ} {calls : List Call} {value : List UInt8} {last : σ}
    (hopen : ∀ fork, opener=.ok fork → view fork=.empty)
    (hwrite : writeCalls build kind n opener calls=.ok value (some last)) :
    Readable readBuild kind n (stored last) ↔
      (kind=.zlib →
        Zlib.headerSize (numBlocks n)+(added calls).flatten.length+Zlib.trailerSize≤u32Max) := by
  obtain ⟨w,t,hnew,hrun,hfinish⟩ := fillCalls_ok_iff.mp hwrite
  obtain ⟨rfl,rfl,hw⟩ := new_written hopen hnew
  obtain ⟨hkind,hsize,pieces,ht,_⟩ := hw.run hrun
  rw [List.nil_append,List.nil_append] at ht
  obtain ⟨hcount,hflat,hstored,hfit,_⟩ := ht.finish hfinish
  rw [hkind] at hstored hfit
  rw [hsize] at hcount
  have hlength := layout_length w.kind pieces
  rw [hstored]
  constructor
  · rintro ⟨hle,_⟩ hzlib
    rw [hlength,hzlib,hcount,hflat] at hle
    exact hle
  · intro hzlib
    have hle : (layout w.kind pieces).length≤u32Max := by
      rw [hlength]
      cases hk : w.kind with
      | zlib =>
        rw [hcount,hflat]
        exact hzlib hk
      | lzvn =>
        rw [hk] at hfit
        exact hfit
      | lzfse =>
        rw [hk] at hfit
        exact hfit
    obtain ⟨after,hread⟩ := @readBlockInfo_layout readBuild w.kind w.uncompressedSize 0 pieces
      hcount hle
    exact ⟨hle,_,_,hread⟩

end Certified

/-- A small zlib fork of two blocks can be read. -/
theorem two_blocks_readable : ∃ value last,
    writeCalls .debug .zlib 65537 (.ok Cursor.empty) [.add [1],.add [2]]=.ok value (some last) ∧
      Readable .release .zlib 65537 (stored last) := by
  refine ⟨_,_,rfl,?_⟩
  refine (@finished_readable_iff Cursor _ _ .debug .release .zlib 65537 (.ok Cursor.empty)
    [.add [1],.add [2]] _ _ (fun fork hfork => ?_) rfl).mpr fun _ => by decide
  exact (Except.ok.inj hfork).symm

section Boundary

/-- So many blocks of one size and a last one of another. -/
def evenBlocks (count size last : ℕ) : List (List UInt8) :=
  List.replicate count (List.replicate size 1)++[List.replicate last 1]

/-- Their number. -/
theorem evenBlocks_length (count size last : ℕ) : (evenBlocks count size last).length=count+1 := by
  unfold evenBlocks
  rw [List.length_append,List.length_replicate]
  rfl

/-- Their data. -/
theorem evenBlocks_flatten (count size last : ℕ) :
    (evenBlocks count size last).flatten.length=count*size+last := by
  unfold evenBlocks
  rw [List.flatten_append,List.length_append,List.length_flatten,List.map_replicate,
    List.sum_replicate,List.length_replicate,List.flatten_singleton,List.length_replicate,
    nsmul_eq_mul]
  rfl

/-- Their sizes. -/
theorem mem_evenBlocks {count size last : ℕ} {block : List UInt8}
    (h : block∈evenBlocks count size last) : block.length≤ max size last := by
  rcases List.mem_append.mp h with hmem|hmem
  · rw [List.eq_of_mem_replicate hmem,List.length_replicate]
    exact Nat.le_max_left _ _
  · rw [List.mem_singleton.mp hmem,List.length_replicate]
    exact Nat.le_max_right _ _

/-- A file of almost 4 GiB whose compressed data ends with the last byte that `finish` admits is
certified, but its fork is too large to be read. -/
theorem boundary_fork_unreadable :
    ¬∀ (build readBuild : Build) (kind : Kind) (n : ℕ) (opener : Except Fault Cursor)
      (calls : List Call) (value : List UInt8) (last : Cursor),
      (∀ fork, opener=.ok fork → view fork=.empty) →
      writeCalls build kind n opener calls=.ok value (some last) →
      Readable readBuild kind n (stored last) := by
  intro hall
  have hblocks : numBlocks (2^32-2)=65536 := by
    unfold numBlocks blockSize
    omega
  have hadded : added ((evenBlocks 65535 65528 65263).map .add)=evenBlocks 65535 65528 65263 :=
    added_map _
  have hcount : (added ((evenBlocks 65535 65528 65263).map .add)).length=numBlocks (2^32-2) := by
    rw [hadded,evenBlocks_length,hblocks]
  have hdata : (added ((evenBlocks 65535 65528 65263).map .add)).flatten.length=4294442743 := by
    rw [hadded,evenBlocks_flatten]
  have hheader : Zlib.headerSize (numBlocks (2^32-2))=524552 := by
    rw [hblocks]
    rfl
  have hopen : ∀ fork, (Except.ok Cursor.empty : Except Fault Cursor)=.ok fork →
      view fork=.empty := fun fork hfork => (Except.ok.inj hfork).symm
  obtain ⟨value,last,hwrite⟩ := @writeCalls_returns Cursor _ _ reliable_cursor .release .zlib
    (2^32-2) Cursor.empty ((evenBlocks 65535 65528 65263).map .add) rfl (by rw [hblocks]; decide)
    hcount (fun b hb => by
      rw [hadded] at hb
      exact (mem_evenBlocks hb).trans (by decide)) (by rw [hblocks]; decide) (by
      rw [hdata]
      change Zlib.headerSize (numBlocks (2^32-2))+4294442743≤u32Max
      rw [hheader]
      decide)
  have hreadable := hall .release .release .zlib _ _ _ value last hopen hwrite
  have hle := (finished_readable_iff hopen hwrite).mp hreadable rfl
  rw [hheader,hdata] at hle
  exact absurd hle (by decide)

end Boundary

end Applesauce.ForkBounds
