import Applesauce.Tally
import Applesauce.SourceGuard

/-!
# The statistics of an operation

Counters that any thread adds to: one addition for every file at its start
and one at its end. Additions wrap like the atomic counters they stand for,
so totals agree with the sums modulo the range of a counter, in any order.
-/

namespace Applesauce.Statistics

open SourceGuard Tally

/-- `FileInfo`. -/
structure FileInfo where
  /-- The size on disk. -/
  onDiskSize : ℕ
  /-- Whether the file is compressed. -/
  compressionState : FileCompressionState
  deriving DecidableEq,Repr

/-- Whether the file counts as compressed; nothing is added for one that does not. -/
def FileInfo.isCompressed (info : FileInfo) : ℕ :=
  match info.compressionState with
  | .compressed => 1
  | .compressible => 0
  | .incompressible _ => 0

/-- Whether the file counts as incompressible; nothing is added for one that does not. -/
def FileInfo.isIncompressible (info : FileInfo) : ℕ :=
  match info.compressionState with
  | .compressed => 0
  | .compressible => 0
  | .incompressible _ => 1

/-- `AtomicU64::fetch_add`. -/
def fetchAdd (counter n : ℕ) : ℕ := (counter+n)%2^64

/-- `Stats`. -/
structure Stats where
  /-- Total number of files scanned. -/
  files : ℕ
  /-- Total of all file sizes (uncompressed). -/
  totalFileSizes : ℕ
  /-- Total of all file sizes (after compression) before performing this operation. -/
  compressedSizeStart : ℕ
  /-- Total of all file sizes (after compression) after performing this operation. -/
  compressedSizeFinal : ℕ
  /-- Number of files that were compressed before performing this operation. -/
  compressedFileCountStart : ℕ
  /-- Number of files that were compressed after performing this operation. -/
  compressedFileCountFinal : ℕ
  /-- Number of files that were incompressible. -/
  incompressibleFileCount : ℕ
  deriving DecidableEq,Repr

/-- `Stats::default`. -/
def Stats.default : Stats := ⟨0,0,0,0,0,0,0⟩

/-- `Stats::add_start_file`. -/
def Stats.addStartFile (stats : Stats) (len : ℕ) (info : FileInfo) : Stats where
  files := fetchAdd stats.files 1
  totalFileSizes := fetchAdd stats.totalFileSizes len
  compressedSizeStart := fetchAdd stats.compressedSizeStart info.onDiskSize
  compressedSizeFinal := stats.compressedSizeFinal
  compressedFileCountStart := fetchAdd stats.compressedFileCountStart info.isCompressed
  compressedFileCountFinal := stats.compressedFileCountFinal
  incompressibleFileCount := fetchAdd stats.incompressibleFileCount info.isIncompressible

/-- `Stats::add_end_file`. -/
def Stats.addEndFile (stats : Stats) (info : FileInfo) : Stats where
  files := stats.files
  totalFileSizes := stats.totalFileSizes
  compressedSizeStart := stats.compressedSizeStart
  compressedSizeFinal := fetchAdd stats.compressedSizeFinal info.onDiskSize
  compressedFileCountStart := stats.compressedFileCountStart
  compressedFileCountFinal := fetchAdd stats.compressedFileCountFinal info.isCompressed
  incompressibleFileCount := stats.incompressibleFileCount

/-- What the counters show of given sums. -/
def Stats.ofSums (files totalFileSizes sizeStart sizeFinal countStart countFinal incompressible : ℕ) :
    Stats :=
  ⟨files%2^64,totalFileSizes%2^64,sizeStart%2^64,sizeFinal%2^64,countStart%2^64,countFinal%2^64,
    incompressible%2^64⟩

/-- Adding to a wrapped sum wraps the sum. -/
theorem fetchAdd_mod (sum n : ℕ) : fetchAdd (sum%2^64) n=(sum+n)%2^64 := Nat.mod_add_mod sum (2^64) n

/-- A start count adds to the sums of the start. -/
theorem addStartFile_ofSums (a b c d e f g len : ℕ) (info : FileInfo) :
    (Stats.ofSums a b c d e f g).addStartFile len info=
      .ofSums (a+1) (b+len) (c+info.onDiskSize) d (e+info.isCompressed) f
        (g+info.isIncompressible) := by
  unfold Stats.ofSums Stats.addStartFile
  simp only [fetchAdd_mod]

/-- An end count adds to the sums of the end. -/
theorem addEndFile_ofSums (a b c d e f g : ℕ) (info : FileInfo) :
    (Stats.ofSums a b c d e f g).addEndFile info=
      .ofSums a b c (d+info.onDiskSize) e (f+info.isCompressed) g := by
  unfold Stats.ofSums Stats.addEndFile
  simp only [fetchAdd_mod]

end Applesauce.Statistics
