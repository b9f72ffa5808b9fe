import Applesauce.ForkDevice

/-!
# Guarding the source before its path is replaced

The world is what the path of one file refers to, as others change it, and
the answers the system will give. Every call first lets an external change
happen. Calls that succeeded are recorded in order; the record is only read
by statements. Just before the path is replaced, the metadata behind it is
compared twice with the metadata of the scan, around the check for writers.
-/

namespace Applesauce.SourceGuard

open RustIo SeekableFile ScratchPayload ForkDevice

/-- The fields of the metadata that are inspected or compared. -/
structure Metadata where
  /-- Whether it is a regular file. -/
  isFile : Bool
  /-- The device. -/
  dev : ℕ
  /-- The inode on the device. -/
  ino : ℕ
  /-- The length; of a compressed file the length before compression. -/
  len : ℕ
  /-- Modification time, seconds. -/
  mtime : ℤ
  /-- Modification time, nanoseconds. -/
  mtimeNsec : ℤ
  /-- Status change time, seconds. -/
  ctime : ℤ
  /-- Status change time, nanoseconds. -/
  ctimeNsec : ℤ
  /-- The number of links. -/
  nlink : ℕ
  /-- The file flags. -/
  flags : BitVec 32
  deriving DecidableEq,Repr

/-- `libc::UF_COMPRESSED`. -/
def ufCompressed : BitVec 32 := 0x20

/-- `PROTECTED_FLAGS`: `UF_APPEND`, `UF_IMMUTABLE`, `SF_APPEND`, `SF_IMMUTABLE`,
`SF_NOUNLINK` and `SF_RESTRICTED`. -/
def protectedFlags : BitVec 32 :=
  0x4#32 ||| 0x2#32 ||| 0x40000#32 ||| 0x20000#32 ||| 0x100000#32 ||| 0x80000#32

/-- `is_protected`. -/
def isProtected (metadata : Metadata) : Prop := metadata.flags &&& protectedFlags≠0

instance (metadata : Metadata) : Decidable (isProtected metadata) :=
  inferInstanceAs (Decidable (_≠_))

/-- `same_source`. -/
def sameSource (current original : Metadata) : Prop :=
  current.isFile=true ∧ current.dev=original.dev ∧ current.ino=original.ino ∧
    current.len=original.len ∧ current.mtime=original.mtime ∧
    current.mtimeNsec=original.mtimeNsec ∧ current.ctime=original.ctime ∧
    current.ctimeNsec=original.ctimeNsec ∧ current.nlink=original.nlink ∧
    current.flags=original.flags

instance (current original : Metadata) : Decidable (sameSource current original) :=
  inferInstanceAs (Decidable (_ ∧ _))

/-- The same source has the same metadata, of a regular file. -/
theorem sameSource_iff {current original : Metadata} (h : original.isFile=true) :
    sameSource current original ↔ current=original := by
  obtain ⟨isFile,dev,ino,len,mtime,mtimeNsec,ctime,ctimeNsec,nlink,flags⟩ := current
  obtain ⟨isFile',dev',ino',len',mtime',mtimeNsec',ctime',ctimeNsec',nlink',flags'⟩ := original
  change isFile'=true at h
  rw [Metadata.mk.injEq,h]
  exact Iff.rfl

/-- A file that others may change: its metadata, data and attributes. -/
structure Inode where
  /-- Its metadata. -/
  metadata : Metadata
  /-- Its data as a reader sees it. -/
  content : List UInt8
  /-- The resource fork attribute. -/
  resourceFork : Option (List UInt8)
  /-- The decmpfs attribute. -/
  decmpfs : Option (List UInt8)
  deriving DecidableEq,Repr

/-- `IncompressibleReason`. -/
inductive IncompressibleReason where
  | empty
  | tooLarge (size : ℕ)
  | ioError (error : IoError)
  | fsNotSupported
  | hasRequiredXattr
  deriving DecidableEq,Repr

/-- `FileCompressionState`. -/
inductive FileCompressionState where
  | compressed
  | compressible
  | incompressible (reason : IncompressibleReason)
  deriving DecidableEq,Repr

/-- One of the two attribute checks of `get_compression_state`; each may fail. -/
def checkXattr (failure : Option IoError) (value : Option (List UInt8))
    (next : FileCompressionState) : FileCompressionState :=
  match failure with
  | some error => .incompressible (.ioError error)
  | none => if value.isSome then .incompressible .hasRequiredXattr else next

/-- `get_compression_state`, with the answers of the volume and of the two attribute checks. -/
def getCompressionState (supported : Except IoError Bool) (forkFailure decmpfsFailure : Option IoError)
    (inode : Inode) : FileCompressionState :=
  if inode.metadata.flags &&& ufCompressed≠0 then .compressed
  else if inode.metadata.len=0 then .incompressible .empty
  else if u32Max≤ inode.metadata.len then .incompressible (.tooLarge inode.metadata.len)
  else
    match supported with
    | .error error => .incompressible (.ioError error)
    | .ok false => .incompressible .fsNotSupported
    | .ok true =>
      checkXattr forkFailure inode.resourceFork
        (checkXattr decmpfsFailure inode.decmpfs .compressible)

/-- An attribute check that leads on to a compressible file found no attribute. -/
theorem checkXattr_compressible {failure : Option IoError} {value : Option (List UInt8)}
    {next : FileCompressionState} (h : checkXattr failure value next=.compressible) :
    value=none ∧ next=.compressible := by
  unfold checkXattr at h
  cases failure with
  | some error => cases h
  | none =>
    cases value with
    | some bytes => cases h
    | none => exact ⟨rfl,h⟩

/-- A file found compressible is not empty, below the limit, and has neither attribute. -/
theorem compressible_inode {supported : Except IoError Bool} {forkFailure decmpfsFailure : Option IoError}
    {inode : Inode}
    (h : getCompressionState supported forkFailure decmpfsFailure inode=.compressible) :
    0< inode.metadata.len ∧ inode.metadata.len<2^32-1 ∧ inode.resourceFork=none ∧
      inode.decmpfs=none := by
  unfold getCompressionState at h
  by_cases hflag : inode.metadata.flags &&& ufCompressed≠0
  · rw [if_pos hflag] at h
    cases h
  rw [if_neg hflag] at h
  by_cases hempty : inode.metadata.len=0
  · rw [if_pos hempty] at h
    cases h
  rw [if_neg hempty] at h
  by_cases hlarge : u32Max≤ inode.metadata.len
  · rw [if_pos hlarge] at h
    cases h
  rw [if_neg hlarge] at h
  unfold u32Max at hlarge
  cases supported with
  | error e => cases h
  | ok answer =>
    cases answer with
    | false => cases h
    | true =>
      obtain ⟨hfork,hnext⟩ := checkXattr_compressible h
      obtain ⟨hdecmpfs,_⟩ := checkXattr_compressible hnext
      exact ⟨by omega,by omega,hfork,hdecmpfs⟩

/-- A temporary file on the volume of the source. -/
structure TempFile where
  /-- Its metadata when it was created. -/
  created : Metadata
  /-- Its data. -/
  data : DeviceFile
  /-- Its resource fork, and the position of the next access to it. -/
  fork : ResourceFork
  /-- The decmpfs attribute. -/
  decmpfs : Option (List UInt8)
  /-- The flags that were set on it. -/
  flags : BitVec 32
  deriving DecidableEq

/-- What the path refers to. -/
inductive Entry where
  /-- Nothing. -/
  | missing
  /-- A file that this program has not written. -/
  | file (inode : Inode)
  /-- A temporary file that was renamed to the path. -/
  | converted (file : TempFile)
  deriving DecidableEq

/-- A temporary file as others see it. -/
def TempFile.inode (tmp : TempFile) : Inode :=
  ⟨tmp.created,tmp.data.contents.bytes,tmp.fork.content,tmp.decmpfs⟩

/-- The file the path refers to, if any. -/
def Entry.inode : Entry→Option Inode
  | .missing => none
  | .file inode => some inode
  | .converted tmp => some tmp.inode

/-- `SkipReason`, as far as it is decided here. -/
inductive SkipReason where
  | protectedFlags
  | openWriter
  | openWriterCheckFailed (error : IoError)
  deriving DecidableEq,Repr

/-- The environment around one call. -/
structure Turn where
  /-- What others made the path refer to before the call. -/
  change : Option Entry
  /-- How the call fails, if it does. -/
  failure : Option Fault
  /-- What the check for writers finds. -/
  writer : Bool
  deriving DecidableEq

/-- Nothing happens and the call succeeds. -/
def Turn.calm : Turn := ⟨none,none,false⟩

/-- A call that succeeded, or a report. -/
inductive Call where
  | tempFile
  | copiedXattrs
  | openedSource (metadata : Metadata)
  | openedPayload
  | copiedPayload (copied expected : ℕ)
  | receivedBlocks
  | setXattr
  | copiedMetadata
  | setFlags
  | rewound
  | verified
  | checkedSource (metadata : Metadata)
  | checkedWriters
  | persisted (file : TempFile)
  | resetTimes
  | skipped (reason : SkipReason)
  | reportedError
  | notCompressibleEnough
  | reportedConverted
  deriving DecidableEq

/-- The path, the answers to come, and the calls that succeeded so far. -/
structure World where
  /-- What the path refers to. -/
  path : Entry
  /-- The environment of the next calls; beyond them nothing happens and calls succeed. -/
  turns : List Turn
  /-- The record of calls, the first one first. -/
  calls : List Call
  deriving DecidableEq

/-- Let the next external change happen and take the next answer. -/
def nextTurn : Io World Turn := fun w =>
  match w.turns with
  | [] => .ok .calm w
  | turn::turns => .ok turn {w with path := turn.change.getD w.path,turns := turns}

/-- Add to the record. -/
def record (call : Call) : Io World Unit := fun w => .ok () {w with calls := w.calls++[call]}

/-- A call that only succeeds or fails. -/
def perform (call : Call) : Io World Unit := do
  let turn ← nextTurn
  match turn.failure with
  | some fault => throw fault
  | none => record call

/-- Look up what the path refers to. -/
def lookup : Io World Inode := do
  let turn ← nextTurn
  let w ← get
  match turn.failure,w.path.inode with
  | some fault,_ => throw fault
  | none,none => fail (.ofKind .notFound)
  | none,some inode => pure inode

/-- The error for a source that is no longer the one of the scan. -/
def sourceChangedError : IoError := .new .other "source file changed after staging"

/-- `current_source`. -/
def currentSource (original : Metadata) : Io World (Option SkipReason) := do
  let current := (← lookup).metadata
  if isProtected current then pure (some .protectedFlags)
  else do
    ensure (sameSource current original) (.error sourceChangedError)
    record (.checkedSource current)
    pure none

/-- `OpenWriters::has_writer`: a failed check is a value here, a panic is not. -/
def hasWriter : Io World (Except IoError Bool) := do
  let turn ← nextTurn
  match turn.failure with
  | some (.error error) => pure (.error error)
  | some (.panic message) => panicWith message
  | none => pure (.ok turn.writer)

/-- `before_publish`: the source, the writers, the source again. -/
def beforePublish (original : Metadata) : Io World (Option SkipReason) := do
  match ← currentSource original with
  | some reason => pure (some reason)
  | none =>
    match ← hasWriter with
    | .ok true => pure (some .openWriter)
    | .error error => pure (some (.openWriterCheckFailed error))
    | .ok false => do
      record .checkedWriters
      currentSource original

end Applesauce.SourceGuard
