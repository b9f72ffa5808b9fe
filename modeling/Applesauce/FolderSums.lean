import Applesauce.FolderInfo

/-!
# What the recursive information adds up to

Folders are added field by field. Every entry that can be read adds a share
of its own, and all additions together give the sum of the shares: wrapped
in a release build, and in a debug build as it is or, if it does not fit the
counters, as a panic. So neither the groups nor the order of the reductions
can be seen in the outcome.
-/

namespace Applesauce.FolderSums

open RustIo FolderInfo ParallelFold

section Monoid

instance : Zero AfscFolderInfo := ⟨.default⟩

instance : Add AfscFolderInfo where
  add x y := ⟨x.numFiles+y.numFiles,x.numFolders+y.numFolders,
    x.numCompressedFiles+y.numCompressedFiles,x.totalUncompressedSize+y.totalUncompressedSize,
    x.totalCompressedSize+y.totalCompressedSize⟩

instance : AddCommMonoid AfscFolderInfo where
  add_assoc x y z := by ext <;> exact Nat.add_assoc _ _ _
  zero_add x := by ext <;> exact Nat.zero_add _
  add_zero x := by ext <;> exact Nat.add_zero _
  add_comm x y := by ext <;> exact Nat.add_comm _ _
  nsmul := nsmulRec

variable (x y : AfscFolderInfo)

@[simp] theorem numFiles_zero : (0 : AfscFolderInfo).numFiles=0 := rfl

@[simp] theorem numFolders_zero : (0 : AfscFolderInfo).numFolders=0 := rfl

@[simp] theorem numCompressedFiles_zero : (0 : AfscFolderInfo).numCompressedFiles=0 := rfl

@[simp] theorem totalUncompressedSize_zero : (0 : AfscFolderInfo).totalUncompressedSize=0 := rfl

@[simp] theorem totalCompressedSize_zero : (0 : AfscFolderInfo).totalCompressedSize=0 := rfl

@[simp] theorem numFiles_add : (x+y).numFiles=x.numFiles+y.numFiles := rfl

@[simp] theorem numFolders_add : (x+y).numFolders=x.numFolders+y.numFolders := rfl

@[simp] theorem numCompressedFiles_add :
    (x+y).numCompressedFiles=x.numCompressedFiles+y.numCompressedFiles := rfl

@[simp] theorem totalUncompressedSize_add :
    (x+y).totalUncompressedSize=x.totalUncompressedSize+y.totalUncompressedSize := rfl

@[simp] theorem totalCompressedSize_add :
    (x+y).totalCompressedSize=x.totalCompressedSize+y.totalCompressedSize := rfl

end Monoid

section Range

/-- The sums fit their counters. -/
def Fits (sum : AfscFolderInfo) : Prop :=
  sum.numFiles<2^32 ∧ sum.numFolders<2^32 ∧ sum.numCompressedFiles<2^32 ∧
    sum.totalUncompressedSize<2^64 ∧ sum.totalCompressedSize<2^64

instance : DecidablePred Fits := fun _ => inferInstanceAs (Decidable (_ ∧ _))

/-- What wrapping counters show of the sums. -/
def wrap (sum : AfscFolderInfo) : AfscFolderInfo :=
  ⟨sum.numFiles%2^32,sum.numFolders%2^32,sum.numCompressedFiles%2^32,
    sum.totalUncompressedSize%2^64,sum.totalCompressedSize%2^64⟩

/-- What a build makes of the sums. -/
def inRange (build : Build) (sum : AfscFolderInfo) : Except Fault AfscFolderInfo :=
  match build with
  | .release => .ok (wrap sum)
  | .debug => if Fits sum then .ok sum else .error (.panic addOverflow)

/-- It may be done after every addition. -/
theorem bounded_inRange (build : Build) : Bounded (inRange build) := by
  cases build with
  | release =>
    refine bounded_wrapping rfl fun x y => ?_
    ext <;> exact (Nat.add_mod _ _ _).symm
  | debug =>
    refine bounded_checked _ (by decide) fun x y hsum => ?_
    simp only [Fits,numFiles_add,numFolders_add,numCompressedFiles_add,totalUncompressedSize_add,
      totalCompressedSize_add] at hsum ⊢
    omega

/-- Sums that fit do not wrap. -/
theorem wrap_of_fits {sum : AfscFolderInfo} (h : Fits sum) : wrap sum=sum := by
  obtain ⟨hfiles,hfolders,hcompressed,hlength,hdisk⟩ := h
  unfold wrap
  rw [Nat.mod_eq_of_lt hfiles,Nat.mod_eq_of_lt hfolders,Nat.mod_eq_of_lt hcompressed,
    Nat.mod_eq_of_lt hlength,Nat.mod_eq_of_lt hdisk]

/-- Sums that fit show as they are in both builds. -/
theorem inRange_of_fits {sum : AfscFolderInfo} (build : Build) (h : Fits sum) :
    inRange build sum=.ok sum := by
  cases build with
  | debug => exact if_pos h
  | release => exact congrArg Except.ok (wrap_of_fits h)

/-- Sums that do not fit are a panic in a debug build. -/
theorem inRange_of_not_fits {sum : AfscFolderInfo} (h : ¬Fits sum) :
    inRange .debug sum=.error (.panic addOverflow) := if_neg h

/-- Values in range fit. -/
theorem fits_of_inRange {build : Build} {sum : AfscFolderInfo} (h : inRange build sum=.ok sum) :
    Fits sum := by
  cases build with
  | debug =>
    by_contra hfits
    simp [inRange,hfits] at h
  | release =>
    have hwrap : wrap sum=sum := Except.ok.inj h
    rw [←hwrap]
    unfold Fits wrap
    refine ⟨?_,?_,?_,?_,?_⟩ <;> exact Nat.mod_lt _ (by decide)

/-- An addition in a release build wraps. -/
theorem plus_release (bits x y : ℕ) : plus .release bits x y=.ok ((x+y)%2^bits) := by
  unfold plus unsigned
  split
  · next hlt => rw [Nat.mod_eq_of_lt hlt]
  · rfl

/-- A debug build goes on after an addition only if the sum fits. -/
theorem plus_debug_bind {α : Type} (bits x y : ℕ) (next : ℕ→Except Fault α) :
    (plus .debug bits x y>>=next)=
      if x+y<2^bits then next (x+y) else .error (.panic addOverflow) := by
  unfold plus unsigned
  split <;> rfl

end Range

section Shares

/-- What a file adds. -/
def ofFile (info : AfscFileInfo) : AfscFolderInfo :=
  ⟨1,0,info.isCompressed.toNat,info.statSize,info.onDiskSize⟩

/-- What a folder adds. -/
def ofFolder : AfscFolderInfo := ⟨0,1,0,0,0⟩

variable {build : Build} {result : AfscFolderInfo}

/-- Counting under a condition adds its truth value. -/
theorem plusIf_eq {n : ℕ} (condition : Bool) (h : n<2^32) :
    plusIf build condition n=plus build 32 n condition.toNat := by
  cases condition with
  | true => rfl
  | false => exact (if_pos h).symm

/-- Counting a file adds its share. -/
theorem addFile_eq (h : Fits result) (info : AfscFileInfo) :
    result.addFile build info=inRange build (result+ofFile info) := by
  obtain ⟨_,hfolders,hcompressed,_,_⟩ := h
  unfold AfscFolderInfo.addFile inRange
  rw [plusIf_eq info.isCompressed hcompressed]
  cases build with
  | release =>
    have hsame : result.numFolders%2^32=result.numFolders := Nat.mod_eq_of_lt hfolders
    simp only [plus_release,wrap,ofFile,numFolders_add,Nat.add_zero,hsame]
    rfl
  | debug =>
    -- The sizes are added in the other order than the fields stand.
    have horder : Fits (result+ofFile info) ↔ result.numFiles+1<2^32 ∧
        result.numCompressedFiles+info.isCompressed.toNat<2^32 ∧
        result.totalCompressedSize+info.onDiskSize<2^64 ∧
        result.totalUncompressedSize+info.statSize<2^64 := by
      simp only [Fits,ofFile,numFiles_add,numFolders_add,numCompressedFiles_add,
        totalUncompressedSize_add,totalCompressedSize_add]
      omega
    simp only [plus_debug_bind,←ite_and]
    exact if_congr horder.symm rfl rfl

/-- Counting a folder adds its share. -/
theorem addFolder_eq (h : Fits result) :
    (do
      let numFolders ← plus build 32 result.numFolders 1
      pure {result with numFolders := numFolders})=inRange build (result+ofFolder) := by
  obtain ⟨hfiles,_,hcompressed,hlength,hdisk⟩ := h
  unfold inRange
  cases build with
  | release =>
    simp only [plus_release,wrap,ofFolder,numFiles_add,numCompressedFiles_add,
      totalUncompressedSize_add,totalCompressedSize_add,Nat.add_zero,Nat.mod_eq_of_lt hfiles,
      Nat.mod_eq_of_lt hcompressed,Nat.mod_eq_of_lt hlength,Nat.mod_eq_of_lt hdisk]
    rfl
  | debug =>
    have hfolders : Fits (result+ofFolder) ↔ result.numFolders+1<2^32 := by
      simp only [Fits,ofFolder,numFiles_add,numFolders_add,numCompressedFiles_add,
        totalUncompressedSize_add,totalCompressedSize_add]
      omega
    simp only [plus_debug_bind]
    exact if_congr hfolders.symm rfl rfl

/-- Reducing two results adds them. -/
theorem reduceFolders_eq (left right : AfscFolderInfo) :
    reduceFolders build left right=inRange build (left+right) := by
  unfold reduceFolders inRange
  cases build with
  | release =>
    simp only [plus_release]
    rfl
  | debug =>
    simp only [plus_debug_bind,←ite_and]
    exact if_congr Iff.rfl rfl rfl

end Shares

section Plans

/-- A file that is counted: a regular one with at most one link. -/
def Counted (entry : Entry) : Prop :=
  entry.fileType=.file ∧ entry.stat.inode.metadata.nlink≤1

instance (entry : Entry) : Decidable (Counted entry) := inferInstanceAs (Decidable (_ ∧ _))

/-- An entry that can be read without error. -/
structure Readable (build : Build) (item : Except IoError Entry) (entry : Entry) : Prop where
  /-- The walk has the entry. -/
  had : item=.ok entry
  /-- Its metadata can be read by way of the walk. -/
  entryMetadata : entry.entryFailure=none
  /-- Its metadata can be read by its path. -/
  linkMetadata : entry.linkFailure=none
  /-- If it is counted, `get` returns. -/
  info : Counted entry → ∃ info, get build entry=.ok info

/-- What an entry adds. -/
def share (build : Build) : Except IoError Entry→AfscFolderInfo
  | .error _ => 0
  | .ok entry =>
    match entry.fileType with
    | .dir => ofFolder
    | .other => 0
    | .file =>
      if 1< entry.stat.inode.metadata.nlink then 0
      else
        match get build entry with
        | .ok info => ofFile info
        | .error _ => 0

variable {build : Build}

/-- An entry that can be read adds its share. -/
theorem foldEntry_eq {item : Except IoError Entry} (hitem : ∃ entry, Readable build item entry)
    {result : AfscFolderInfo} (hresult : inRange build result=.ok result) :
    foldEntry build (get build) result item=inRange build (result+share build item) := by
  obtain ⟨entry,hread⟩ := hitem
  obtain rfl := hread.had
  have hfits := fits_of_inRange hresult
  cases htype : entry.fileType with
  | other =>
    have hshare : share build (.ok entry)=0 := by simp [share,htype]
    rw [hshare,add_zero,hresult]
    simp [foldEntry,question,htype,bind,Except.bind,pure,Except.pure]
  | dir =>
    have hshare : share build (.ok entry)=ofFolder := by simp [share,htype]
    rw [hshare,←addFolder_eq hfits]
    simp [foldEntry,question,htype,bind,Except.bind]
  | file =>
    by_cases hlinks : 1< entry.stat.inode.metadata.nlink
    · have hshare : share build (.ok entry)=0 := by simp [share,htype,hlinks]
      rw [hshare,add_zero,hresult]
      simp [foldEntry,question,Stat.answer,htype,hread.entryMetadata,hlinks,bind,Except.bind,pure,
        Except.pure]
    · obtain ⟨info,hinfo⟩ := hread.info ⟨htype,Nat.not_lt.mp hlinks⟩
      have hshare : share build (.ok entry)=ofFile info := by simp [share,htype,hlinks,hinfo]
      rw [hshare,←addFile_eq hfits]
      simp [foldEntry,question,Stat.answer,htype,hread.entryMetadata,hlinks,hinfo,bind,Except.bind]

/-- The fold and the reduction add up the shares. -/
theorem folderJob_adds (build : Build) : (folderJob build (get build)).Adds (inRange build)
    (share build) fun item => ∃ entry, Readable build item entry where
  bounded := bounded_inRange build
  identity := rfl
  foldOp := fun _ _ hitem hresult => foldEntry_eq hitem hresult
  reduceOp := fun left right _ _ => reduceFolders_eq left right
  choose := fun e => by cases e <;> rfl

/-- The shares of all entries together. -/
def total (build : Build) (items : List (Except IoError Entry)) : AfscFolderInfo :=
  (items.map (share build)).sum

/-- However the entries are split into groups and in whatever order the results are reduced, the
outcome is made of the total alone. -/
theorem getRecursive_eq {items : List (Except IoError Entry)}
    (hitems : ∀ item∈items, ∃ entry, Readable build item entry)
    {plan : Plan (Except IoError Entry)} (hplan : plan.items.Perm items) :
    getRecursive build plan=inRange build (total build items) :=
  (folderJob_adds build).run_perm hplan hitems

end Plans

end Applesauce.FolderSums
