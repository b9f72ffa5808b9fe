import Applesauce.ByteWords
import Applesauce.RustIo

/-!
# The decmpfs attribute value

A sixteen-byte header (magic, compression type, uncompressed size) followed
by the inline data, if any. The compression type couples the compressor
kind with where the data is stored. Parsing inverts writing.
-/

namespace Applesauce.DecmpfsValue

open ByteWords RustIo

/-- `BLOCK_SIZE`: bytes of a file compressed as one block. -/
def blockSize : ℕ := 0x10000

/-- Blocks needed to store `size` bytes. -/
def numBlocks (size : ℕ) : ℕ := (size+blockSize-1)/blockSize

/-- `HEADER_LEN` of the decmpfs attribute. -/
def headerLen : ℕ := 16

/-- `MAX_XATTR_SIZE`: largest decmpfs attribute. -/
def maxXattrSize : ℕ := 3802

/-- `MAX_XATTR_DATA_SIZE`: largest inline data. -/
def maxXattrDataSize : ℕ := maxXattrSize-headerLen

/-- `MAGIC`: the bytes `fpmc`. -/
def magic : List UInt8 := [0x66,0x70,0x6d,0x63]

/-- The compression formats. -/
inductive Kind where
  | zlib
  | lzvn
  | lzfse
  deriving DecidableEq,Repr

/-- Whether the format is compiled in; the default features include all three. -/
def Kind.supported : Kind→Bool
  | .zlib => true
  | .lzvn => true
  | .lzfse => true

/-- Where the compressed data is stored. -/
inductive Storage where
  /-- The header is followed by a single compressed block. -/
  | xattr
  /-- The blocks are in the resource fork. -/
  | resourceFork
  deriving DecidableEq,Repr

/-- The raw 32-bit type field. -/
structure CompressionType where
  /-- The number stored in the attribute. -/
  raw : ℕ
  deriving DecidableEq,Repr

/-- The type field of a kind and a storage. -/
def CompressionType.new : Kind→Storage→ CompressionType
  | .zlib,.xattr => ⟨3⟩
  | .zlib,.resourceFork => ⟨4⟩
  | .lzvn,.xattr => ⟨7⟩
  | .lzvn,.resourceFork => ⟨8⟩
  | .lzfse,.xattr => ⟨11⟩
  | .lzfse,.resourceFork => ⟨12⟩

/-- The kind and storage named by a type field, if it is a known one. -/
def CompressionType.compressionStorage (t : CompressionType) : Option (Kind×Storage) :=
  match t.raw with
  | 3 => some (.zlib,.xattr)
  | 4 => some (.zlib,.resourceFork)
  | 7 => some (.lzvn,.xattr)
  | 8 => some (.lzvn,.resourceFork)
  | 11 => some (.lzfse,.xattr)
  | 12 => some (.lzfse,.resourceFork)
  | _ => none

/-- Every kind and storage is recovered from its type field. -/
theorem compressionStorage_new (kind : Kind) (storage : Storage) :
    (CompressionType.new kind storage).compressionStorage=some (kind,storage) := by
  cases kind <;> cases storage <;> rfl

/-- Why an attribute is not a decmpfs value. -/
inductive DecodeError where
  | tooSmall
  | badMagic
  deriving DecidableEq,Repr

/-- The text of a decoding error. -/
def DecodeError.message : DecodeError→String
  | .tooSmall => "decmpfs xattr too small to hold compression header"
  | .badMagic => "decmpfs xattr magic field has incorrect value"

/-- The I/O error a decoding error is converted into. -/
def DecodeError.toIoError : DecodeError→IoError
  | .tooSmall => .new .unexpectedEof DecodeError.tooSmall.message
  | .badMagic => .new .invalidData DecodeError.badMagic.message

/-- A parsed attribute. -/
structure Value where
  /-- The coupled kind and storage. -/
  compressionType : CompressionType
  /-- The declared size of the uncompressed file. -/
  uncompressedSize : ℕ
  /-- The bytes after the header. -/
  extraData : List UInt8
  deriving DecidableEq,Repr

/-- Parse an attribute: length first, then the magic. -/
def Value.fromData (data : List UInt8) : Except DecodeError Value :=
  if data.length<headerLen then .error .tooSmall
  else
    let header := data.take headerLen
    if header.take 4≠magic then .error .badMagic
    else .ok
      { compressionType := ⟨leValue ((header.drop 4).take 4)⟩
        uncompressedSize := leValue ((header.drop 8).take 8)
        extraData := data.drop headerLen }

/-- The sixteen header bytes. -/
def Value.headerBytes (value : Value) : List UInt8 :=
  magic++(leBytes 4 value.compressionType.raw++leBytes 8 value.uncompressedSize)

/-- The bytes `write_to` writes. -/
def Value.toBytes (value : Value) : List UInt8 := value.headerBytes++value.extraData

/-- The length announced before writing. -/
def Value.len (value : Value) : ℕ := headerLen+value.extraData.length

@[simp] theorem Value.headerBytes_length (value : Value) : value.headerBytes.length=headerLen := by
  simp [Value.headerBytes,magic,headerLen]

/-- As many bytes are written as were announced. -/
theorem Value.toBytes_length (value : Value) : value.toBytes.length=value.len := by
  simp only [Value.toBytes,Value.len,List.length_append,Value.headerBytes_length]

/-- Parsing what was written restores a value whose fields fit their words. -/
theorem Value.fromData_toBytes (value : Value) (ht : value.compressionType.raw<2^32)
    (hs : value.uncompressedSize<2^64) : Value.fromData value.toBytes=.ok value := by
  have hlen : ¬value.toBytes.length<headerLen := by
    rw [Value.toBytes_length]
    exact Nat.not_lt.mpr (Nat.le_add_right _ _)
  have hh : value.toBytes.take headerLen=value.headerBytes :=
    List.take_left' value.headerBytes_length
  have he : value.toBytes.drop headerLen=value.extraData :=
    List.drop_left' value.headerBytes_length
  have hm : value.headerBytes.take 4=magic := rfl
  have hc : (value.headerBytes.drop 4).take 4=leBytes 4 value.compressionType.raw :=
    List.take_left' (leBytes_length _ _)
  have hu : (value.headerBytes.drop 8).take 8=leBytes 8 value.uncompressedSize := by
    have hd : value.headerBytes.drop 8=leBytes 8 value.uncompressedSize := by
      change (leBytes 4 value.compressionType.raw++leBytes 8 value.uncompressedSize).drop 4=_
      exact List.drop_left' (leBytes_length _ _)
    rw [hd,List.take_of_length_le (leBytes_length _ _).le]
  unfold Value.fromData
  rw [if_neg hlen]
  dsimp only
  rw [hh,if_neg (not_not.mpr hm),hc,hu,he,leValue_leBytes_of_lt (by omega),
    leValue_leBytes_of_lt (by omega)]

/-- The type field always fits its word. -/
theorem CompressionType.new_lt (kind : Kind) (storage : Storage) :
    (CompressionType.new kind storage).raw<2^32 := by
  cases kind <;> cases storage <;> decide

end Applesauce.DecmpfsValue
