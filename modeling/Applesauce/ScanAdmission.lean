import Applesauce.Publication
import Applesauce.Statistics

/-!
# Which files the scan sends to the reader

One directory entry of the walk, with everything the scan reads about it,
gives one verdict: the entry is skipped before it is counted, it is counted
at its start and at its end, or it is sent to the reader. A compressing scan
admits what the rules allow. In the decompress modes the arm for
incompressible files gives no reason to skip, although such a file is not
compressed: these files, and no others, are sent against the rules.
-/

namespace Applesauce.ScanAdmission

open RustIo SourceGuard Publication Statistics

/-- `SkipReason`, as far as the scan gives it. -/
inductive SkipReason where
  | notFile
  | alreadyCompressed
  | notCompressed
  | emptyFile
  | tooLarge (size : ℕ)
  | readError (error : IoError)
  | hasRequiredXattr
  | fsNotSupported
  | hardLink
  | protectedFlags
  deriving DecidableEq,Repr

/-- `SkipReason::from`. -/
def SkipReason.ofIncompressible : IncompressibleReason→SkipReason
  | .empty => .emptyFile
  | .tooLarge size => .tooLarge size
  | .ioError error => .readError error
  | .fsNotSupported => .fsNotSupported
  | .hasRequiredXattr => .hasRequiredXattr

/-- An entry of a directory and the answers to what the scan asks about it. -/
structure DirEntry where
  /-- Whether its type is a regular file. -/
  isFile : Bool
  /-- The answer of `symlink_metadata`, with the data and attributes behind the path. -/
  metadata : Except IoError Inode
  /-- The size on disk, rounded to blocks. -/
  onDiskSize : ℕ
  /-- The answer of `Volumes::supports_compression`. -/
  supported : Except IoError Bool
  /-- Why the check for a resource fork attribute fails, if it does. -/
  forkFailure : Option IoError
  /-- Why the check for a decmpfs attribute fails, if it does. -/
  decmpfsFailure : Option IoError
  /-- Why the times cannot be saved, if they cannot. -/
  timesFailure : Option IoError
  deriving DecidableEq

/-- `get_file_info`. -/
def DirEntry.fileInfo (entry : DirEntry) (inode : Inode) : FileInfo where
  onDiskSize := entry.onDiskSize
  compressionState := getCompressionState entry.supported entry.forkFailure entry.decmpfsFailure inode

/-- The match on the compression state, which takes the reason out of the state it reports. -/
def skipReason (mode : Mode) : FileCompressionState→Option SkipReason×FileCompressionState
  | .compressed => (if mode.isCompressing then some .alreadyCompressed else none,.compressed)
  | .compressible => (if mode.isCompressing then none else some .notCompressed,.compressible)
  | .incompressible reason =>
    if mode.isCompressing then (some (.ofIncompressible reason),.incompressible .empty)
    else (none,.incompressible reason)

/-- What the scan does with an entry. -/
inductive Verdict where
  /-- Skipped before any count. -/
  | skipped (reason : SkipReason)
  /-- Counted with the first information, skipped, and counted with the second. -/
  | ended (reason : SkipReason) (inode : Inode) (first last : FileInfo)
  /-- Counted, and sent to the reader with a context. -/
  | sent (inode : Inode) (info : FileInfo)
  deriving DecidableEq

/-- The callback of `BackgroundThreads::scan`, up to the context of the file. -/
def scanFile (mode : Mode) (entry : DirEntry) : Verdict :=
  if entry.isFile=false then .skipped .notFile
  else match entry.metadata with
    | .error error => .skipped (.readError error)
    | .ok inode =>
      if 1< inode.metadata.nlink then .skipped .hardLink
      else
        let info := entry.fileInfo inode
        if isProtected inode.metadata then .ended .protectedFlags inode info info
        else match skipReason mode info.compressionState with
          | (some reason,state) => .ended reason inode info {info with compressionState := state}
          | (none,_) => match entry.timesFailure with
            | some error => .ended (.readError error) inode info info
            | none => .sent inode info

section States

variable {supported : Except IoError Bool} {forkFailure decmpfsFailure : Option IoError}
  {inode : Inode}

/-- An attribute check finds nothing compressed. -/
theorem checkXattr_compressed {failure : Option IoError} {value : Option (List UInt8)}
    {next : FileCompressionState} (h : checkXattr failure value next=.compressed) :
    next=.compressed := by
  unfold checkXattr at h
  cases failure with
  | some error => simp at h
  | none =>
    cases value with
    | some bytes => simp at h
    | none => simpa using h

/-- A file counts as compressed by its flag alone. -/
theorem compressed_iff :
    getCompressionState supported forkFailure decmpfsFailure inode=.compressed ↔
      inode.metadata.flags &&& ufCompressed≠0 := by
  constructor
  · intro h
    by_contra hflag
    unfold getCompressionState at h
    rw [if_neg (not_not.mpr hflag)] at h
    split_ifs at h
    cases supported with
    | error error => simp at h
    | ok answer =>
      cases answer with
      | false => simp at h
      | true =>
        have hnext := checkXattr_compressed (checkXattr_compressed h)
        simp at hnext
  · intro hflag
    unfold getCompressionState
    rw [if_pos hflag]

/-- What an uncompressed file needs to be compressible: the checks behind the flag. -/
structure Suitable (supported : Except IoError Bool) (forkFailure decmpfsFailure : Option IoError)
    (inode : Inode) : Prop where
  /-- It is not empty. -/
  nonempty : 0< inode.metadata.len
  /-- Its length is below the limit. -/
  small : inode.metadata.len<u32Max
  /-- Its volume supports compression. -/
  volume : supported=.ok true
  /-- It can be seen to have no resource fork. -/
  resourceFork : forkFailure=none ∧ inode.resourceFork=none
  /-- It can be seen to have no decmpfs attribute. -/
  decmpfs : decmpfsFailure=none ∧ inode.decmpfs=none

/-- An attribute check leads to a compressible file only if it works, finds nothing and is the
last obstacle. -/
theorem checkXattr_compressible_iff {failure : Option IoError} {value : Option (List UInt8)}
    {next : FileCompressionState} :
    checkXattr failure value next=.compressible ↔
      (failure=none ∧ value=none) ∧ next=.compressible := by
  cases failure with
  | some error => simp [checkXattr]
  | none =>
    cases value with
    | some bytes => simp [checkXattr]
    | none => simp [checkXattr]

/-- A file is found compressible exactly when it is not flagged and is suitable. -/
theorem compressible_iff :
    getCompressionState supported forkFailure decmpfsFailure inode=.compressible ↔
      ¬inode.metadata.flags &&& ufCompressed≠0 ∧
        Suitable supported forkFailure decmpfsFailure inode := by
  constructor
  · intro h
    unfold getCompressionState at h
    split_ifs at h with hflag hempty hlarge
    cases supported with
    | error error => simp at h
    | ok answer =>
      cases answer with
      | false => simp at h
      | true =>
        obtain ⟨hfork,hnext⟩ := checkXattr_compressible_iff.mp h
        obtain ⟨hdecmpfs,_⟩ := checkXattr_compressible_iff.mp hnext
        exact ⟨hflag,⟨by omega,by omega,rfl,hfork,hdecmpfs⟩⟩
  · rintro ⟨hflag,hsuitable⟩
    have hempty : ¬inode.metadata.len=0 := Nat.ne_of_gt hsuitable.nonempty
    have hlarge : ¬u32Max≤ inode.metadata.len := Nat.not_le.mpr hsuitable.small
    have hlast := checkXattr_compressible_iff.mpr ⟨hsuitable.decmpfs,rfl⟩
    have hboth := checkXattr_compressible_iff.mpr ⟨hsuitable.resourceFork,hlast⟩
    unfold getCompressionState
    rw [if_neg hflag,if_neg hempty,if_neg hlarge,hsuitable.volume]
    exact hboth

end States

section Verdicts

variable {mode : Mode} {entry : DirEntry} {inode : Inode} {info : FileInfo}

/-- What every file that is sent has passed, whatever the mode. -/
structure Passed (entry : DirEntry) (inode : Inode) : Prop where
  /-- It is a regular file. -/
  isFile : entry.isFile=true
  /-- Its metadata was read. -/
  metadata : entry.metadata=.ok inode
  /-- It has no other link. -/
  links : inode.metadata.nlink≤1
  /-- It has no protected flag. -/
  unprotected : ¬isProtected inode.metadata
  /-- Its times were saved. -/
  times : entry.timesFailure=none

/-- A file is sent exactly when it passes the checks of every mode and its mode gives no reason to
skip its state. -/
theorem sent_iff : scanFile mode entry=.sent inode info ↔
    Passed entry inode ∧ (skipReason mode info.compressionState).1=none ∧
      info=entry.fileInfo inode := by
  constructor
  · intro h
    unfold scanFile at h
    split_ifs at h with hfile
    cases hmetadata : entry.metadata with
    | error error => simp [hmetadata] at h
    | ok found =>
      simp only [hmetadata] at h
      split_ifs at h with hlinks hprotected
      cases hskip : skipReason mode (entry.fileInfo found).compressionState with
      | mk reason state =>
        cases reason with
        | some reason => simp [hskip] at h
        | none =>
          cases htimes : entry.timesFailure with
          | some error => simp [hskip,htimes] at h
          | none =>
            simp only [hskip,htimes,Verdict.sent.injEq] at h
            obtain ⟨rfl,rfl⟩ := h
            exact ⟨⟨by simpa using hfile,hmetadata,by omega,hprotected,htimes⟩,by simp [hskip],rfl⟩
  · rintro ⟨hpassed,hnone,rfl⟩
    have hfile : ¬entry.isFile=false := by simp [hpassed.isFile]
    have hlinks : ¬1< inode.metadata.nlink := Nat.not_lt.mpr hpassed.links
    have hskip : skipReason mode (entry.fileInfo inode).compressionState=
        (none,(skipReason mode (entry.fileInfo inode).compressionState).2) :=
      Prod.ext hnone rfl
    unfold scanFile
    rw [if_neg hfile,hpassed.metadata]
    dsimp only
    rw [if_neg hlinks,if_neg hpassed.unprotected,hskip,hpassed.times]

/-- A compressing scan gives no reason to skip exactly for the compressible files. -/
theorem skipReason_compressing (hmode : mode.isCompressing=true) (state : FileCompressionState) :
    (skipReason mode state).1=none ↔ state=.compressible := by
  cases state with
  | compressed => simp [skipReason,hmode]
  | compressible => simp [skipReason,hmode]
  | incompressible reason => simp [skipReason,hmode]

/-- A decompressing scan gives no reason to skip exactly for the files that are not compressible. -/
theorem skipReason_decompressing (hmode : ¬mode.isCompressing=true) (state : FileCompressionState) :
    (skipReason mode state).1=none ↔ state≠.compressible := by
  cases state with
  | compressed => simp [skipReason,hmode]
  | compressible => simp [skipReason,hmode]
  | incompressible reason => simp [skipReason,hmode]

end Verdicts

section Rules

/-- The rules for a file that may be sent in a mode. -/
structure Eligible (mode : Mode) (entry : DirEntry) (inode : Inode) : Prop where
  /-- It is a regular file. -/
  isFile : entry.isFile=true
  /-- It has at most one link. -/
  links : inode.metadata.nlink≤1
  /-- It has no protected flag. -/
  unprotected : ¬isProtected inode.metadata
  /-- To be compressed, it is not compressed, neither empty nor too large, on a volume that
  supports compression, and without the attributes of a compressed file. -/
  compress : mode.isCompressing=true → ¬inode.metadata.flags &&& ufCompressed≠0 ∧
    (0< inode.metadata.len ∧ inode.metadata.len<u32Max) ∧ entry.supported=.ok true ∧
    inode.resourceFork=none ∧ inode.decmpfs=none
  /-- To be decompressed, it is compressed. -/
  decompress : ¬mode.isCompressing=true → inode.metadata.flags &&& ufCompressed≠0

/-- An uncompressed file that passes every other check but could not be compressed. -/
structure Overlooked (entry : DirEntry) (inode : Inode) : Prop where
  /-- It passes the checks of every mode. -/
  passed : Passed entry inode
  /-- It is not compressed. -/
  unflagged : ¬inode.metadata.flags &&& ufCompressed≠0
  /-- It is empty, too large, on another volume, has an attribute or cannot be examined. -/
  unsuitable : ¬Suitable entry.supported entry.forkFailure entry.decmpfsFailure inode

variable {mode : Mode} {entry : DirEntry} {inode : Inode} {info : FileInfo}

/-- What a compressing scan sends is eligible. -/
theorem compressing_eligible (hmode : mode.isCompressing=true)
    (h : scanFile mode entry=.sent inode info) : Eligible mode entry inode := by
  obtain ⟨hpassed,hnone,rfl⟩ := sent_iff.mp h
  obtain ⟨hflag,hsuitable⟩ := compressible_iff.mp ((skipReason_compressing hmode _).mp hnone)
  exact
    { isFile := hpassed.isFile
      links := hpassed.links
      unprotected := hpassed.unprotected
      compress := fun _ => ⟨hflag,⟨hsuitable.nonempty,hsuitable.small⟩,hsuitable.volume,
        hsuitable.resourceFork.2,hsuitable.decmpfs.2⟩
      decompress := fun hno => absurd hmode hno }

/-- What a decompressing scan sends is eligible or overlooked. -/
theorem decompressing_cases (hmode : ¬mode.isCompressing=true)
    (h : scanFile mode entry=.sent inode info) :
    Eligible mode entry inode ∨ Overlooked entry inode := by
  obtain ⟨hpassed,hnone,rfl⟩ := sent_iff.mp h
  have hstate := (skipReason_decompressing hmode _).mp hnone
  by_cases hflag : inode.metadata.flags &&& ufCompressed≠0
  · refine .inl ⟨hpassed.isFile,hpassed.links,hpassed.unprotected,?_,fun _ => hflag⟩
    exact fun hyes => absurd hyes hmode
  · refine .inr ⟨hpassed,hflag,fun hsuitable => hstate ?_⟩
    exact compressible_iff.mpr ⟨hflag,hsuitable⟩

/-- A decompressing scan sends every overlooked file. -/
theorem overlooked_sent (hmode : ¬mode.isCompressing=true) (h : Overlooked entry inode) :
    scanFile mode entry=.sent inode (entry.fileInfo inode) := by
  refine sent_iff.mpr ⟨h.passed,(skipReason_decompressing hmode _).mpr fun hstate => ?_,rfl⟩
  exact h.unsuitable (compressible_iff.mp hstate).2

/-- For every mode and every entry: only eligible files are sent exactly when the scan compresses
or the entry is none of the uncompressed files that could not be compressed. -/
theorem only_eligible_iff (mode : Mode) (entry : DirEntry) :
    (∀ inode info, scanFile mode entry=.sent inode info → Eligible mode entry inode) ↔
      mode.isCompressing=true ∨ ∀ inode, ¬Overlooked entry inode := by
  constructor
  · intro h
    by_cases hmode : mode.isCompressing=true
    · exact .inl hmode
    · refine .inr fun inode hover => hover.unflagged ?_
      exact (h inode _ (overlooked_sent hmode hover)).decompress hmode
  · intro h inode info hsent
    rcases h with hmode|hnone
    · exact compressing_eligible hmode hsent
    · by_cases hmode : mode.isCompressing=true
      · exact compressing_eligible hmode hsent
      · rcases decompressing_cases hmode hsent with heligible|hover
        · exact heligible
        · exact absurd hover (hnone inode)

/-- An empty file without flags. -/
def emptyFile : Inode := ⟨⟨true,1,2,0,0,0,0,0,1,0⟩,[],none,none⟩

/-- Its entry, with nothing that fails. -/
def emptyEntry : DirEntry := ⟨true,.ok emptyFile,0,.ok true,none,none,none⟩

/-- A scan that decompresses sends the empty file. -/
theorem empty_file_sent :
    ¬∀ (mode : Mode) (entry : DirEntry) (inode : Inode) (info : FileInfo),
      scanFile mode entry=.sent inode info → Eligible mode entry inode := by
  intro h
  have heligible := h .decompressByReading emptyEntry emptyFile (emptyEntry.fileInfo emptyFile) rfl
  exact heligible.decompress (by decide) (by decide)

end Rules

end Applesauce.ScanAdmission
