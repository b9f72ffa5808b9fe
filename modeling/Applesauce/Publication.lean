import Applesauce.SourceGuard
import Applesauce.PayloadCopy
import Applesauce.StagedOutput

/-!
# Writing the converted file and publishing it

Two flows replace a file. The direct flow writes blocks into a temporary
file and finishes it. The scratch flow writes them into a payload, and a
publisher copies the payload into a temporary file later. Both end in the
same steps: attributes, metadata, flags, verification, the guard, the rename.
-/

namespace Applesauce.Publication

open RustIo SeekableFile BufferedSink DecmpfsValue DecmpfsWriter ScratchPayload ForkDevice
open PayloadCopy SourceGuard StagedOutput

/-- `Mode`. -/
inductive Mode where
  | compress (kind : Kind)
  | decompressManually
  | decompressByReading
  deriving DecidableEq,Repr

/-- `Mode::is_compressing`. -/
def Mode.isCompressing : Mode→Bool
  | .compress _ => true
  | .decompressManually => false
  | .decompressByReading => false

/-- What the context of a file says about its conversion. -/
structure Job where
  /-- The build profile. -/
  build : Build
  /-- The mode of the operation. -/
  mode : Mode
  /-- Whether files are verified before they replace the original. -/
  verify : Bool
  /-- The path as it is displayed. -/
  path : String
  /-- The metadata of the scan. -/
  original : Metadata
  /-- `max_compressed_size`. -/
  maxCompressedSize : ℕ
  /-- The minimum ratio as a percentage, as it is displayed. -/
  percent : String
  /-- How errors are displayed. -/
  display : IoError→String

/-- What a queue of blocks delivers: the items and how it ended. -/
structure Delivery where
  /-- The items that the callback was given, in order. -/
  blocks : List (List UInt8)
  /-- How it ended, when the callback took all of them. -/
  received : Except Fault Unit

/-- A new temporary file and its answers. -/
structure Fresh where
  /-- The metadata it is created with. -/
  created : Metadata
  /-- The answers to writes of its data. -/
  data : List Answer
  /-- The answers to writes of its resource fork. -/
  fork : List Answer

section Steps

/-- An empty temporary file. -/
def Fresh.file (fresh : Fresh) : TempFile :=
  ⟨fresh.created,⟨.empty,fresh.data⟩,.absent fresh.fork,none,0⟩

/-- `tempfile_for`. -/
def tempfileFor (fresh : Fresh) : Io World TempFile := do
  perform .tempFile
  pure fresh.file

/-- The attributes of a compressed file that make it compressed are hidden. -/
def shown (inode : Inode) (value : Option (List UInt8)) : Option (List UInt8) :=
  if inode.metadata.flags &&& ufCompressed≠0 then none else value

/-- A temporary file with the attributes of the original. -/
def withXattrs (original : Inode) (tmp : TempFile) : TempFile :=
  {tmp with
    fork := {tmp.fork with content := shown original original.resourceFork}
    decmpfs := shown original original.decmpfs}

/-- `copy_xattrs`. -/
def copyXattrs (original : Inode) (tmp : TempFile) : Io World TempFile := do
  perform .copiedXattrs
  pure (withXattrs original tmp)

/-- `xattr::set` of the decmpfs attribute. -/
def setDecmpfs (value : List UInt8) (tmp : TempFile) : Io World TempFile := do
  perform .setXattr
  pure {tmp with decmpfs := some value}

/-- `set_flags`. -/
def setFlags (flags : BitVec 32) (tmp : TempFile) : Io World TempFile := do
  perform .setFlags
  pure {tmp with flags := flags}

/-- The text of a failed verification. -/
def verificationError (job : Job) (error : IoError) : IoError :=
  .new .other ("verification failed: "++job.display error++", "++job.path++" unchanged")

/-- The comparison of `verify_file`; its error is wrapped. -/
def compareFiles (job : Job) : Io World Unit := do
  let turn ← nextTurn
  match turn.failure with
  | some (.error error) => fail (verificationError job error)
  | some (.panic message) => panicWith message
  | none => record .verified

/-- `verify_file`. Outside the manual mode the original is rewound as well; its
failure is returned as it is. -/
def verifyFile (job : Job) : Io World Unit :=
  if job.verify then do
    perform .rewound
    match job.mode with
    | .decompressManually => compareFiles job
    | _ => do
      perform .rewound
      compareFiles job
  else pure ()

/-- `NamedTempFile::persist`. -/
def persist (tmp : TempFile) : Io World Unit := do
  let turn ← nextTurn
  match turn.failure with
  | some fault => throw fault
  | none => modify (fun w => {w with path := .converted tmp,calls := w.calls++[.persisted tmp]})

/-- `times::reset_times`, whose failure is only traced. -/
def resetTimes : Io World Unit := do
  let _ ← nextTurn
  record .resetTimes

/-- `persist_file`. -/
def persistFile (job : Job) (tmp : TempFile) : Io World Bool := do
  match ← beforePublish job.original with
  | some reason => do
    record (.skipped reason)
    pure false
  | none => do
    persist tmp
    resetTimes
    pure true

/-- The flags of a compressed file: those of the scan, unprotected and compressed. -/
def compressedFlags (original : Metadata) : BitVec 32 :=
  (original.flags &&& ~~~protectedFlags) ||| ufCompressed

/-- The flags of an uncompressed file: those of the scan, unprotected and not compressed. -/
def uncompressedFlags (original : Metadata) : BitVec 32 :=
  original.flags &&& ~~~(ufCompressed ||| protectedFlags)

/-- `finish_compressed_file`. -/
def finishCompressedFile (job : Job) (value : List UInt8) (tmp : TempFile) : Io World Bool := do
  let tmp ← setDecmpfs value tmp
  perform .copiedMetadata
  let tmp ← setFlags (compressedFlags job.original) tmp
  verifyFile job
  persistFile job tmp

/-- `finish_uncompressed_file`. -/
def finishUncompressedFile (job : Job) (tmp : TempFile) : Io World Bool := do
  perform .copiedMetadata
  let tmp ← setFlags (uncompressedFlags job.original) tmp
  verifyFile job
  persistFile job tmp

/-- Continue with what a device program returned, or stop with its fault. -/
def continueWith {σ α : Type} : EStateM.Result Fault σ α→Io World (α×σ)
  | .ok a device => pure (a,device)
  | .error fault _ => throw fault

end Steps

section Direct

/-- The fork behind a writer that is done with it. -/
def forkAfter (fork : ResourceFork) : Option (BufWriter ResourceFork)→ResourceFork
  | some b => b.inner
  | none => fork

/-- The blocks into a created writer, and its end. -/
def fillFork (job : Job) (delivery : Delivery) (fork : ResourceFork) :
    Except Fault (Writer (BufWriter ResourceFork))→EStateM.Result Fault ResourceFork (List UInt8)
  | .error e => .error e fork
  | .ok w =>
    match writeBlocks job.build job.maxCompressedSize job.percent delivery.received 0
        delivery.blocks w with
    | .error e w => .error e (forkAfter fork w.fork)
    | .ok _ w =>
      match finishDecmpfsData job.build w with
      | .error e b => .error e (forkAfter fork b)
      | .ok value b => .ok value (forkAfter fork b)

/-- The writer of the direct flow, over a buffered resource fork. -/
def writeFork (job : Job) (kind : Kind) (delivery : Delivery) (fork : ResourceFork) :
    EStateM.Result Fault ResourceFork (List UInt8) :=
  fillFork job delivery fork (Writer.new kind job.original.len (.ok (BufWriter.new fork)))

/-- `write_compressed_file`. -/
def writeCompressedFile (job : Job) (kind : Kind) (delivery : Delivery) (original : Inode)
    (fresh : Fresh) : Io World Bool := do
  let tmp ← tempfileFor fresh
  let tmp ← copyXattrs original tmp
  let (value,fork) ← continueWith (writeFork job kind delivery tmp.fork.reopen)
  record .receivedBlocks
  finishCompressedFile job value {tmp with fork := fork}

/-- `write_uncompressed_file`. -/
def writeUncompressedFile (job : Job) (delivery : Delivery) (original : Inode) (fresh : Fresh) :
    Io World Bool := do
  let tmp ← tempfileFor fresh
  let tmp ← copyXattrs original tmp
  let (_,data) ← continueWith
    (writeUncompressedBlocks delivery.received job.original.len delivery.blocks tmp.data)
  record .receivedBlocks
  finishUncompressedFile job {tmp with data := data}

/-- What the end of `handle_item` does with a result: only `Ok(true)` is
reported as a conversion. A direct compression says nothing about an error. -/
def report (silent : Bool) (x : Io World Bool) : Io World Unit := fun w =>
  match x w with
  | .ok true w => record .reportedConverted w
  | .ok false w => .ok () w
  | .error (.error _) w => if silent then .ok () w else record .reportedError w
  | .error (.panic message) w => .error (.panic message) w

/-- `Handler::handle_item` of the writer without scratch space. -/
def handleDirect (job : Job) (delivery : Delivery) (original : Inode) (fresh : Fresh) : Io World Unit :=
  report job.mode.isCompressing
    (match job.mode with
    | .compress kind => writeCompressedFile job kind delivery original fresh
    | .decompressManually => writeUncompressedFile job delivery original fresh
    | .decompressByReading => writeUncompressedFile job delivery original fresh)

end Direct

section Scratch

/-- `StagedContents`. -/
inductive StagedContents where
  | compressed (value : List UInt8)
  | uncompressed
  deriving DecidableEq,Repr

/-- `StagedFile`, as far as its publication goes. -/
structure StagedFile where
  /-- The staged payload. -/
  payload : StagedPayload
  /-- What the payload holds. -/
  contents : StagedContents
  /-- The open source; in a batch it is closed until publication. -/
  file : Option Inode
  deriving DecidableEq,Repr

/-- The devices a publication uses. -/
structure Publisher where
  /-- The temporary file. -/
  fresh : Fresh
  /-- The answers to reads of the payload. -/
  reads : List Answer
  /-- The length of the copy buffer. -/
  buffer : ℕ

/-- The error for a payload whose length changed. -/
def sizeChangedError : IoError := .new .other "scratch payload size changed while copying"

/-- The error for a payload that is not as long as the file. -/
def wrongSizeError : IoError := .new .other "scratch payload has the wrong uncompressed size"

/-- The source of a publication: the open file, or the path opened again and compared. -/
def openOriginal (job : Job) : Option Inode→Io World Inode
  | some inode => pure inode
  | none => do
    let inode ← lookup
    perform (.openedSource inode.metadata)
    ensure (sameSource inode.metadata job.original) (.error sourceChangedError)
    pure inode

/-- `PublishHandler::publish`. -/
def publish (job : Job) (publisher : Publisher) (item : StagedFile) : Io World Bool := do
  let tmp ← tempfileFor publisher.fresh
  let original ← openOriginal job item.file
  let tmp ← copyXattrs original tmp
  perform .openedPayload
  let source : Source := ⟨item.payload.bytes,publisher.reads⟩
  match item.contents with
  | .compressed value => do
    let (copied,_,fork) ← continueWith (copyPayload publisher.buffer (source,tmp.fork.reopen))
    ensure (copied=item.payload.len) (.error sizeChangedError)
    record (.copiedPayload copied item.payload.len)
    finishCompressedFile job value {tmp with fork := fork}
  | .uncompressed => do
    ensure (item.payload.len=job.original.len) (.error wrongSizeError)
    let (copied,_,data) ← continueWith (copyPayload publisher.buffer (source,tmp.data))
    ensure (copied=item.payload.len) (.error sizeChangedError)
    record (.copiedPayload copied item.payload.len)
    finishUncompressedFile job {tmp with data := data}

/-- The scratch space a staging uses. -/
structure Scratch where
  /-- Where payloads are stored. -/
  storage : ScratchPayload.Storage
  /-- Whether the metadata of a finished payload is unavailable. -/
  metadata : Option ErrorKind
  /-- The reservation of the file. -/
  reservation : ℕ

/-- `stage_uncompressed_file` up to the staged payload. -/
def stageUncompressedFile (job : Job) (delivery : Delivery) (scratch : Scratch) :
    Except Fault StagedPayload :=
  match scratch.storage.payload scratch.reservation with
  | .error e => .error e
  | .ok payload =>
    match writeUncompressedBlocks delivery.received job.original.len delivery.blocks payload with
    | .error e _ => .error e
    | .ok _ payload => payload.finish scratch.metadata

/-- The staging of `handle_item`; in a batch the open source is not kept. -/
def stage (job : Job) (delivery : Delivery) (scratch : Scratch) (file : Option Inode) :
    Except Fault StagedFile :=
  match job.mode with
  | .compress kind =>
    match stageCompressedFile job.build kind job.original.len scratch.storage scratch.metadata
        job.maxCompressedSize job.percent delivery.received scratch.reservation delivery.blocks with
    | .error e _ => .error e
    | .ok staged _ => .ok ⟨staged.payload,.compressed staged.decmpfsData,file⟩
  | _ =>
    match stageUncompressedFile job delivery scratch with
    | .error e => .error e
    | .ok payload => .ok ⟨payload,.uncompressed,file⟩

/-- The error when the publisher is gone. -/
def workerStoppedError : IoError := .new .other "scratch copy worker stopped"

/-- `send_staged`: in a batch the completion takes the file, which cannot fail. -/
def sendStaged (item : StagedFile) : Io World Unit := do
  match item.file with
  | none => pure ()
  | some _ => do
    let turn ← nextTurn
    match turn.failure with
    | some (.panic message) => panicWith message
    | some (.error _) => fail workerStoppedError
    | none => pure ()

/-- The writer's part of `handle_item` with scratch space. -/
def stageItem (job : Job) (delivery : Delivery) (scratch : Scratch) (file : Option Inode) :
    Io World StagedFile :=
  match stage job delivery scratch file with
  | .error fault => throw fault
  | .ok item => do
    record .receivedBlocks
    sendStaged item
    pure item

/-- The writer's and the publisher's `handle_item` with scratch space. The error
of a threshold skip is not reported as an error. -/
def handleScratch (job : Job) (delivery : Delivery) (scratch : Scratch) (file : Option Inode)
    (publisher : Publisher) : Io World Unit := fun w =>
  match stageItem job delivery scratch file w with
  | .ok item w => report false (publish job publisher item) w
  | .error (.error error) w =>
    if error=notCompressibleEnough job.percent then record .notCompressibleEnough w
    else record .reportedError w
  | .error (.panic message) w => .error (.panic message) w

/-- How a file is converted. -/
inductive Flow where
  /-- Without scratch space; the reader has opened the original. -/
  | direct (original : Inode) (fresh : Fresh)
  /-- With scratch space; in a batch the original is not kept open. -/
  | scratch (scratch : Scratch) (file : Option Inode) (publisher : Publisher)

/-- The items of one file, through the writer and the publisher. -/
def Flow.run (job : Job) (delivery : Delivery) : Flow→Io World Unit
  | .direct original fresh => handleDirect job delivery original fresh
  | .scratch space file publisher => handleScratch job delivery space file publisher

end Scratch

end Applesauce.Publication
