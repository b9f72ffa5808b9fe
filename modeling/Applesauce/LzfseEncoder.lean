import Applesauce.LzfseBlock

/-!
# The encoder

The front end of `lzfse_encode_base.c` searches matches with a table of the
positions of the last four-byte values, and its back end splits them into
lengths that have symbols. `lzfse_encode_buffer` falls back to a block of the
source itself. The source is one of fewer than 2^32-1 bytes, which is never
translated.
-/

namespace Applesauce.Lzfse

open ByteWords Fse

section States

/-- The definitions of `lzfse_tunables.h`. -/
structure Tunables where
  /-- `LZFSE_ENCODE_HASH_BITS`. -/
  hashBits : ℕ
  /-- `LZFSE_ENCODE_HASH_WIDTH`. -/
  hashWidth : ℕ
  /-- `LZFSE_ENCODE_GOOD_MATCH`. -/
  goodMatch : ℕ
  deriving DecidableEq,Repr

/-- `lzfse_match`. -/
structure Match where
  /-- Offset of the first byte in the match. -/
  pos : ℕ
  /-- The earlier location with the same contents. -/
  ref : ℤ
  /-- Length of the match. -/
  length : ℕ
  deriving DecidableEq,Repr

/-- `NO_MATCH`. -/
def noMatch : Match := ⟨0,0,0⟩

/-- `lzfse_encoder_state`. -/
structure Encoder where
  /-- What the back end has. -/
  backend : Backend
  /-- Offset of the next literal. -/
  srcLiteral : ℕ
  /-- Offset of the byte being checked for a match. -/
  srcEncodeI : ℕ
  /-- Pending match. -/
  pending : Match
  /-- Positions and the first four bytes there, by their hash. -/
  historyTable : List (List (ℤ×ℕ))
  deriving DecidableEq,Repr

/-- An invalid position. -/
def invalidPos : ℤ := -4*maxDValue

/-- `lzfse_encode_init`, with the destination and source that the caller sets. -/
def encodeInit (tunables : Tunables) (dstSize : ℕ) : Encoder where
  backend := ⟨⟨[],dstSize⟩,[],[]⟩
  srcLiteral := 0
  srcEncodeI := 0
  pending := noMatch
  historyTable :=
    List.replicate (2^tunables.hashBits) (List.replicate tunables.hashWidth (invalidPos,0))

end States

section Backend
variable (stray : ℤ) (src : List UInt8)

/-- `lzfse_push_lmd`: the match and its literals are stored, if there is room for them. -/
def pushLmd (s : Backend×ℕ) (l m d : ℕ) : Except Stop (Backend×ℕ) :=
  if matchesPerBlock<s.1.lmds.length+1+8 then .error .dstFull
  else if literalsPerBlock<s.1.literals.length+l+16 then .error .dstFull
  else if src.length<s.2+l then .error .undefined
  else .ok ({s.1 with
    lmds := s.1.lmds++[⟨l,m,d⟩]
    literals := s.1.literals++(src.drop s.2).take l},s.2+l+m)

/-- Split L if too large; the distance 1 is not used. -/
def pushLiterals (s : Backend×ℕ) (l : ℕ) : Except Stop ((Backend×ℕ)×ℕ) :=
  if maxLValue<l then
    (pushLmd src s maxLValue 0 1).bind fun s => pushLiterals s (l-maxLValue)
  else .ok (s,l)
  termination_by l
  decreasing_by unfold maxLValue at *; omega

/-- Split if M too large, and push what is left. -/
def pushLengths (d : ℕ) (s : Backend×ℕ) (l m : ℕ) : Except Stop (Backend×ℕ) :=
  if maxMValue< m then
    (pushLmd src s l maxMValue d).bind fun s => pushLengths d s 0 (m-maxMValue)
  else if 0<l ∨ 0< m then pushLmd src s l m d
  else .ok s
  termination_by m
  decreasing_by unfold maxMValue at *; omega

/-- `lzfse_push_match`. -/
def pushMatch (s : Backend×ℕ) (m : Match) : Except Stop (Backend×ℕ) :=
  (pushLiterals src s (((m.pos : ℤ)-s.2)%2^32).toNat).bind fun r =>
    pushLengths src (((m.pos : ℤ)-m.ref)%2^32).toNat r.1 r.2 m.length

/-- Emit a block. -/
def emitBlock (s : Backend) : Except Stop Backend :=
  match encodeMatches stray s with
  | some (.ok,s) => .ok s
  | some (.dstFull,_) => .error .dstFull
  | none => .error .undefined

/-- `lzfse_backend_match`. -/
def backendMatch (s : Backend×ℕ) (m : Match) : Except Stop (Backend×ℕ) :=
  match pushMatch src s m with
  | .error .dstFull => (emitBlock stray s.1).bind fun backend => pushMatch src (backend,s.2) m
  | r => r

/-- `lzfse_backend_literals`: a fake match with M=0, D=1. -/
def backendLiterals (s : Backend×ℕ) (l : ℕ) : Except Stop (Backend×ℕ) :=
  backendMatch stray src s ⟨s.2+l,((s.2+l : ℕ) : ℤ)-1,0⟩

/-- `LZFSE_ENDOFSTREAM_BLOCK_MAGIC`. -/
def endOfStreamMagic : ℕ := 0x24787662

/-- `lzfse_backend_end_of_stream`. -/
def backendEndOfStream (s : Backend) : Except Stop Backend :=
  (emitBlock stray s).bind fun s =>
    if s.dst.room<s.dst.written.length+4 then .error .dstFull
    else .ok {s with dst := {s.dst with written := s.dst.written++leBytes 4 endOfStreamMagic}}

end Backend

section Search
variable (tunables : Tunables) (src : List UInt8)

/-- `hashX`. -/
def hashX (x : ℕ) : ℕ := (x*2654435761%2^32)>>>(32-tunables.hashBits)

/-- A word of so many bytes at an offset. -/
def load (count : ℕ) (offset : ℤ) : Option ℕ :=
  if 0≤offset ∧ offset+count≤ src.length then
    some (leValue ((src.drop offset.toNat).take count))
  else none

/-- Trailing zeros among so many bits. -/
def ctz : ℕ→ℕ→ℕ
  | 0,_ => 0
  | bits+1,x => if x%2=1 then 0 else ctz bits (x/2)+1

/-- `__builtin_ctzll`. -/
def ctzll (x : ℕ) : ℕ := ctz 64 x

/-- A match of at least `length` bytes is compared on, eight bytes at a time. -/
def matchLength (ref pos : ℤ) (maxLength length : ℕ) : Option ℕ :=
  if length< maxLength then
    (load src 8 (ref+length)).bind fun a =>
    (load src 8 (pos+length)).bind fun b =>
      if a^^^b=0 then matchLength ref pos maxLength (length+8)
      else some (length+ctzll (a^^^b)>>>3)
  else some length
  termination_by maxLength-length

/-- A position of the history is taken if its match is the longest so far. -/
def checkCandidate (pos x : ℕ) (h : ℤ×ℕ) (incoming : Match) : Option Match :=
  if h.2^^^x≠0 then some incoming
  else if 2^31≤h.1+maxDValue then none
  else if h.1+maxDValue<pos then some incoming
  else
    (matchLength src h.1 pos (((src.length : ℤ)-pos-8)%2^32).toNat 4).map fun length =>
      if incoming.length<length then {incoming with ref := h.1, length := length} else incoming

/-- Search best incoming match. -/
def searchLine (pos x : ℕ) : List (ℤ×ℕ)→Match→Option Match
  | [],incoming => some incoming
  | h::line,incoming => (checkCandidate src pos x h incoming).bind (searchLine pos x line)

/-- Expand backwards. -/
def expandBackwards (srcLiteral : ℕ) : ℕ→ℤ→ℕ×ℤ
  | 0,ref => (0,ref)
  | pos+1,ref =>
    if srcLiteral<pos+1 ∧ 0<ref ∧ src[(ref-1).toNat]?=src[pos]? then
      expandBackwards srcLiteral pos (ref-1)
    else (pos+1,ref)

/-- `LZFSE_ENCODE_MAX_MATCH_LENGTH`. -/
def maxMatchLength : ℕ := 100*maxMValue

/-- Limit match length and expand backwards. -/
def expandMatch (srcLiteral : ℕ) (incoming : Match) : Match :=
  let r := expandBackwards src srcLiteral incoming.pos incoming.ref
  ⟨r.1,r.2,min incoming.length maxMatchLength+(incoming.pos-r.1)⟩

end Search

section FrontEnd
variable (tunables : Tunables) (stray : ℤ) (src : List UInt8)

/-- Emit a match; what is pending then. -/
def emit (e : Encoder) (m pending : Match) : Except Stop Encoder :=
  (backendMatch stray src (e.backend,e.srcLiteral) m).map fun r =>
    {e with backend := r.1, srcLiteral := r.2, pending := pending}

/-- What is done at a position without a match. -/
def withoutMatch (e : Encoder) : Except Stop Encoder :=
  if 8*maxLValue<e.srcEncodeI-e.srcLiteral then
    if 0<e.pending.length then emit stray src e e.pending noMatch
    else (backendLiterals stray src (e.backend,e.srcLiteral) maxLValue).map fun r =>
      {e with backend := r.1, srcLiteral := r.2}
  else .ok e

/-- What is done with an incoming match. -/
def withMatch (e : Encoder) (incoming : Match) : Except Stop Encoder :=
  if tunables.goodMatch≤ incoming.length then emit stray src e incoming noMatch
  else if e.pending.length=0 then .ok {e with pending := incoming}
  else if e.pending.pos+e.pending.length≤ incoming.pos then emit stray src e e.pending incoming
  else if e.pending.length< incoming.length then emit stray src e incoming noMatch
  else emit stray src e e.pending noMatch

/-- One position of `lzfse_encode_base`. -/
def encodeStep (e : Encoder) : Except Stop Encoder :=
  let pos := e.srcEncodeI
  (defined (load src 4 pos)).bind fun x =>
  (defined e.historyTable[hashX tunables x]?).bind fun h =>
  let newH := (Int.bmod pos (2^32),x)::h.take (tunables.hashWidth-1)
  (if pos<e.srcLiteral then .ok e
    else
      (defined (searchLine src pos x h ⟨pos,0,0⟩)).bind fun incoming =>
        if incoming.length=0 then withoutMatch stray src e
        else withMatch tunables stray src e (expandMatch src e.srcLiteral incoming)).map fun e =>
    {e with
      srcEncodeI := pos+1
      historyTable := e.historyTable.set (hashX tunables x) newH}

/-- So many positions. -/
def encodeLoop : ℕ→Encoder→Except Stop Encoder
  | 0,e => .ok e
  | n+1,e => (encodeStep tunables stray src e).bind (encodeLoop n)

/-- `lzfse_encode_base`, with 8 byte padding at end of buffer. -/
def encodeBase (e : Encoder) : Except Stop Encoder :=
  encodeLoop tunables stray src (src.length-8-e.srcEncodeI) e

/-- `lzfse_encode_finish`. -/
def encodeFinish (e : Encoder) : Except Stop Backend :=
  (if 0<e.pending.length then emit stray src e e.pending noMatch else .ok e).bind fun e =>
  (if e.srcLiteral<src.length then
      backendLiterals stray src (e.backend,e.srcLiteral) (src.length-e.srcLiteral)
    else .ok (e.backend,e.srcLiteral)).bind fun r =>
    backendEndOfStream stray r.1

end FrontEnd

section Buffers

/-- `LZFSE_UNCOMPRESSED_BLOCK_MAGIC`. -/
def uncompressedMagic : ℕ := 0x2d787662

/-- `LZFSE_COMPRESSEDLZVN_BLOCK_MAGIC`. -/
def compressedLzvnMagic : ℕ := 0x6e787662

/-- `LZVN_ENCODE_MIN_SRC_SIZE`. -/
def lzvnMinSrcSize : ℕ := 8

/-- `LZFSE_ENCODE_LZVN_THRESHOLD`. -/
def lzvnThreshold : ℕ := 4096

/-- The source as it is, if it fits into the destination; otherwise nothing. -/
def tryUncompressed (src : List UInt8) (dstSize : ℕ) : List UInt8 :=
  if src.length+12≤dstSize ∧ src.length<2^31-1 then
    leBytes 4 uncompressedMagic++leBytes 4 src.length++src++leBytes 4 endOfStreamMagic
  else []

end Buffers

end Applesauce.Lzfse
