import Applesauce.ParallelFold
import Applesauce.ScanAdmission

/-!
# Recursive information about a folder

Every file of a tree is looked at on its own, and a parallel iterator adds up
what is found: it splits the entries into groups in any way, folds every
group and reduces the results in any order. All of this adds in counters of
32 and 64 bits, so the outcome depends on the entries alone.
-/

namespace Applesauce.FolderInfo

open RustIo SourceGuard DecmpfsValue Statistics ScanAdmission ParallelFold

section Arithmetic

/-- An unchecked operation on unsigned numbers of so many bits: a debug build panics on overflow, a
release build wraps. -/
def unsigned (build : Build) (bits : ℕ) (message : String) (n : ℕ) : Except Fault ℕ :=
  if n<2^bits then .ok n else
    match build with
    | .debug => .error (.panic message)
    | .release => .ok (n%2^bits)

/-- The panic of an addition. -/
def addOverflow : String := "attempt to add with overflow"

/-- `+` and `+=`. -/
def plus (build : Build) (bits x y : ℕ) : Except Fault ℕ := unsigned build bits addOverflow (x+y)

/-- `*`. -/
def times (build : Build) (bits x y : ℕ) : Except Fault ℕ :=
  unsigned build bits "attempt to multiply with overflow" (x*y)

/-- `round_to_block_size`. -/
def roundToBlockSize (build : Build) (size blockSize : ℕ) : Except Fault ℕ :=
  if blockSize=0 then
    .error (.panic "attempt to calculate the remainder with a divisor of zero")
  else if size%blockSize=0 then .ok size
  else plus build 64 size (blockSize-size%blockSize)

/-- The `?` operator on the answer of a system call. -/
def question {α : Type} : Except IoError α→Except Fault α
  | .ok a => .ok a
  | .error e => .error (.error e)

end Arithmetic

section Files

/-- What the type of an entry is compared with. -/
inductive FileType where
  | file
  | dir
  /-- A symbolic link, or anything else. -/
  | other
  deriving DecidableEq,Repr

/-- The metadata of an entry, with its inode. -/
structure Stat where
  /-- The inode and the metadata that other parts of the program read. -/
  inode : Inode
  /-- `blocks`. -/
  blocks : ℕ
  /-- `st_blksize`. -/
  blksize : ℕ
  deriving DecidableEq

/-- An entry of a tree that nothing changes, with the answers to what is asked about it. -/
structure Entry where
  /-- Its path. -/
  path : List UInt8
  /-- Whether its name starts with a dot. -/
  hidden : Bool
  /-- Its type. -/
  fileType : FileType
  /-- Its metadata. -/
  stat : Stat
  /-- How `DirEntry::metadata` fails, if it does. -/
  entryFailure : Option IoError
  /-- How `Path::symlink_metadata` fails, if it does. -/
  linkFailure : Option IoError
  /-- How `Path::metadata` fails, if it does. -/
  pathFailure : Option IoError
  /-- The names of its extended attributes, as `xattr::with_names` passes them on. -/
  xattrNames : Except Fault (List String)
  /-- The answer of `xattr::len`. -/
  xattrLen : String→Except Fault (Option ℕ)
  /-- The answer of `xattr::read` for the decmpfs attribute. -/
  decmpfs : Except Fault (Option (List UInt8))

/-- The metadata, unless asking for it fails. -/
def Stat.answer (stat : Stat) : Option IoError→Except IoError Stat
  | none => .ok stat
  | some e => .error e

/-- The size on disk that is computed from the metadata, rounded to blocks. -/
def Stat.onDiskSize (build : Build) (stat : Stat) : Except Fault ℕ := do
  roundToBlockSize build (← times build 64 stat.blocks 512) stat.blksize

/-- `get_file_info`, with the answers of the volume and of the two attribute checks. -/
def getFileInfo (build : Build) (stat : Stat) (supported : Except IoError Bool)
    (forkFailure decmpfsFailure : Option IoError) : Except Fault FileInfo := do
  let compressionInfo := getCompressionState supported forkFailure decmpfsFailure stat.inode
  let onDiskSize ← stat.onDiskSize build
  pure ⟨onDiskSize,compressionInfo⟩

/-- `decmpfs::XATTR_NAME`. -/
def decmpfsName : String := "com.apple.decmpfs"

/-- `resource_fork::XATTR_NAME`. -/
def resourceForkName : String := "com.apple.ResourceFork"

/-- `DecmpfsInfo`. -/
structure DecmpfsInfo where
  /-- The kind and storage it names. -/
  compressionType : CompressionType
  /-- Its length. -/
  attributeSize : ℕ
  /-- The size of the file before compression. -/
  origFileSize : ℕ
  deriving DecidableEq,Repr

/-- `AfscFileInfo`. -/
structure AfscFileInfo where
  /-- Whether the file has the flag of a compressed file. -/
  isCompressed : Bool
  /-- The size on disk. -/
  onDiskSize : ℕ
  /-- The length. -/
  statSize : ℕ
  /-- The number of extended attributes, but for the two that compression uses. -/
  xattrCount : ℕ
  /-- The length of these. -/
  totalXattrSize : ℕ
  /-- The length of the resource fork, if there is one. -/
  resourceForkSize : Option ℕ
  /-- The decmpfs attribute, if there is one. -/
  decmpfsInfo : Option (Except DecodeError DecmpfsInfo)

/-- `decmpfs_info_from_bytes`. -/
def decmpfsInfoFromBytes (data : List UInt8) : Except DecodeError DecmpfsInfo := do
  let value ← Value.fromData data
  pure ⟨value.compressionType,data.length,value.uncompressedSize⟩

/-- `get_decmpfs_info`. -/
def getDecmpfsInfo (entry : Entry) : Except Fault (Except DecodeError DecmpfsInfo) := do
  match ← entry.decmpfs with
  | some data => pure (decmpfsInfoFromBytes data)
  | none => .error (.error (.new .other "cannot get decmpfs xattr"))

/-- The variables that the callback of `get` changes. -/
structure Xattrs where
  /-- `total_xattr_size`. -/
  totalXattrSize : ℕ
  /-- `xattr_count`. -/
  xattrCount : ℕ
  /-- `resource_fork_size`. -/
  resourceForkSize : Option ℕ
  /-- `decmpfs_info`. -/
  decmpfsInfo : Option (Except DecodeError DecmpfsInfo)

/-- `debug_assert!(x.is_none())`. -/
def assertNone {α : Type} (build : Build) (message : String) (x : Option α) : Except Fault Unit :=
  if build=.debug ∧ x.isSome then .error (.panic message) else .ok ()

/-- The callback of `get` for one name. -/
def visitXattr (build : Build) (entry : Entry) (xattrs : Xattrs) (xattrName : String) :
    Except Fault Xattrs :=
  if xattrName=decmpfsName then do
    assertNone build "assertion failed: decmpfs_info.is_none()" xattrs.decmpfsInfo
    let info ← getDecmpfsInfo entry
    pure {xattrs with decmpfsInfo := some info}
  else do
    match ← entry.xattrLen xattrName with
    | none => .error (.error (.new .other
        ("file claimed to have xattr '"++xattrName++"', but it has no len")))
    | some len =>
      if xattrName=resourceForkName then do
        assertNone build "assertion failed: resource_fork_size.is_none()" xattrs.resourceForkSize
        pure {xattrs with resourceForkSize := some len}
      else do
        let xattrCount ← plus build 32 xattrs.xattrCount 1
        let totalXattrSize ← plus build 64 xattrs.totalXattrSize len
        pure {xattrs with xattrCount := xattrCount, totalXattrSize := totalXattrSize}

/-- `get`. -/
def get (build : Build) (entry : Entry) : Except Fault AfscFileInfo := do
  let stat ← question (entry.stat.answer entry.pathFailure)
  let onDiskSize ← stat.onDiskSize build
  let names ← entry.xattrNames
  let xattrs ← names.foldlM (visitXattr build entry) ⟨0,0,none,none⟩
  pure
    { isCompressed := stat.inode.metadata.flags &&& ufCompressed==ufCompressed
      onDiskSize := onDiskSize
      statSize := stat.inode.metadata.len
      xattrCount := xattrs.xattrCount
      totalXattrSize := xattrs.totalXattrSize
      resourceForkSize := xattrs.resourceForkSize
      decmpfsInfo := xattrs.decmpfsInfo }

end Files

section Folders

/-- `AfscFolderInfo`. -/
@[ext]
structure AfscFolderInfo where
  /-- The number of files. -/
  numFiles : ℕ
  /-- The number of folders. -/
  numFolders : ℕ
  /-- The number of compressed files. -/
  numCompressedFiles : ℕ
  /-- The total of the lengths. -/
  totalUncompressedSize : ℕ
  /-- The total of the sizes on disk. -/
  totalCompressedSize : ℕ
  deriving DecidableEq,Repr

/-- `AfscFolderInfo::default`. -/
def AfscFolderInfo.default : AfscFolderInfo := ⟨0,0,0,0,0⟩

/-- `+= 1` under a condition. -/
def plusIf (build : Build) (condition : Bool) (n : ℕ) : Except Fault ℕ :=
  if condition then plus build 32 n 1 else pure n

/-- Count one file. -/
def AfscFolderInfo.addFile (build : Build) (result : AfscFolderInfo) (info : AfscFileInfo) :
    Except Fault AfscFolderInfo := do
  let numFiles ← plus build 32 result.numFiles 1
  let numCompressedFiles ← plusIf build info.isCompressed result.numCompressedFiles
  let totalCompressedSize ← plus build 64 result.totalCompressedSize info.onDiskSize
  let totalUncompressedSize ← plus build 64 result.totalUncompressedSize info.statSize
  pure ⟨numFiles,result.numFolders,numCompressedFiles,totalUncompressedSize,totalCompressedSize⟩

/-- The closure of `try_fold`. -/
def foldEntry (build : Build) (getFile : Entry→Except Fault AfscFileInfo) (result : AfscFolderInfo)
    (entry : Except IoError Entry) : Except Fault AfscFolderInfo := do
  let entry ← question entry
  match entry.fileType with
  | .file =>
    let stat ← question (entry.stat.answer entry.entryFailure)
    if 1< stat.inode.metadata.nlink then pure result
    else
      let info ← getFile entry
      result.addFile build info
  | .dir =>
    let numFolders ← plus build 32 result.numFolders 1
    pure {result with numFolders := numFolders}
  | .other => pure result

/-- The closure of `try_reduce`. -/
def reduceFolders (build : Build) (total part : AfscFolderInfo) : Except Fault AfscFolderInfo := do
  let numFiles ← plus build 32 total.numFiles part.numFiles
  let numFolders ← plus build 32 total.numFolders part.numFolders
  let numCompressedFiles ← plus build 32 total.numCompressedFiles part.numCompressedFiles
  let totalUncompressedSize ← plus build 64 total.totalUncompressedSize part.totalUncompressedSize
  let totalCompressedSize ← plus build 64 total.totalCompressedSize part.totalCompressedSize
  pure ⟨numFiles,numFolders,numCompressedFiles,totalUncompressedSize,totalCompressedSize⟩

/-- A panic of either side is resumed, the left one first; otherwise the left error is returned. -/
def chooseFault : Fault→Fault→Fault
  | .panic message,_ => .panic message
  | .error _,.panic message => .panic message
  | .error e,.error _ => .error e

/-- The fold and the reduction of `get_recursive_with`. -/
def folderJob (build : Build) (getFile : Entry→Except Fault AfscFileInfo) :
    Job (Except IoError Entry) AfscFolderInfo Fault where
  identity := .default
  foldOp := foldEntry build getFile
  reduceOp := reduceFolders build
  choose := chooseFault

/-- `get_recursive_with`, on the entries of the walk as the parallel iterator splits them. -/
def getRecursiveWith (build : Build) (getFile : Entry→Except Fault AfscFileInfo)
    (plan : Plan (Except IoError Entry)) : Except Fault AfscFolderInfo :=
  (folderJob build getFile).run plan

/-- `get_recursive`. -/
def getRecursive (build : Build) (plan : Plan (Except IoError Entry)) :
    Except Fault AfscFolderInfo := getRecursiveWith build (get build) plan

end Folders

section Walks

/-- A tree: an entry, or why it could not be had, and what is in it if it is a directory. -/
inductive Tree where
  | node (entry : Except IoError Entry) (children : List Tree)

/-- Whether the name of the root starts with a dot. -/
def Tree.hidden : Tree→Bool
  | .node (.ok entry) _ => entry.hidden
  | .node (.error _) _ => false

/-- Whether an entry is one of the directories of the operation. -/
def isRemoved (isTempDir : List UInt8→Bool) : Except IoError Entry→Bool
  | .ok entry => entry.fileType==.dir && isTempDir entry.path
  | .error _ => false

mutual

/-- `walk_dir`: the entries of a tree, the root first. -/
def walkDir (skipHidden : Bool) : Tree→List (Except IoError Entry)
  | .node entry children => entry::walkChildren skipHidden children

/-- The entries below a directory. -/
def walkChildren (skipHidden : Bool) : List Tree→List (Except IoError Entry)
  | [] => []
  | t::ts =>
    if skipHidden && t.hidden then walkChildren skipHidden ts
    else walkDir skipHidden t++walkChildren skipHidden ts

end

mutual

/-- `walk_dir_over`: the same without the directories of the operation and what is in them. -/
def walkDirOver (skipHidden : Bool) (isTempDir : List UInt8→Bool) :
    Tree→List (Except IoError Entry)
  | .node entry children =>
    if isRemoved isTempDir entry then []
    else entry::walkChildrenOver skipHidden isTempDir children

/-- The entries below a directory. -/
def walkChildrenOver (skipHidden : Bool) (isTempDir : List UInt8→Bool) :
    List Tree→List (Except IoError Entry)
  | [] => []
  | t::ts =>
    if skipHidden && t.hidden then walkChildrenOver skipHidden isTempDir ts
    else walkDirOver skipHidden isTempDir t++walkChildrenOver skipHidden isTempDir ts

end

mutual

/-- The tree without the directories of the operation, if anything is left of it. -/
def Tree.without (isTempDir : List UInt8→Bool) : Tree→Option Tree
  | .node entry children =>
    if isRemoved isTempDir entry then none
    else some (.node entry (childrenWithout isTempDir children))

/-- What is left of the trees below a directory. -/
def childrenWithout (isTempDir : List UInt8→Bool) : List Tree→List Tree
  | [] => []
  | t::ts =>
    match t.without isTempDir with
    | none => childrenWithout isTempDir ts
    | some rest => rest::childrenWithout isTempDir ts

end

/-- `Walker::run` up to its callback: entries that cannot be read and directories are passed over. -/
def walkerRun (entries : List (Except IoError Entry)) : List Entry :=
  entries.filterMap fun
    | .ok entry =>
      match entry.stat.answer entry.entryFailure with
      | .ok _ => if entry.fileType=.dir then none else some entry
      | .error _ => none
    | .error _ => none

end Walks

end Applesauce.FolderInfo
