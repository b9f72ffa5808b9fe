import Applesauce.FseNormalize
import Applesauce.LzfseValues

/-!
# Blocks of the encoder

The back end of `lzfse_encode_base.c`: literals and the lengths and distances
of matches become a block with their frequencies, or the block does not fit and
all is as it was before.
-/

namespace Applesauce.Lzfse

open ByteWords Fse

section States

/-- `LZFSE_ENCODE_L_SYMBOLS`. -/
def lSymbolCount : ℕ := 20

/-- `LZFSE_ENCODE_M_SYMBOLS`. -/
def mSymbolCount : ℕ := 20

/-- `LZFSE_ENCODE_D_SYMBOLS`. -/
def dSymbolCount : ℕ := 64

/-- `LZFSE_ENCODE_LITERAL_SYMBOLS`. -/
def literalSymbolCount : ℕ := 256

/-- `LZFSE_ENCODE_L_STATES`. -/
def lStates : ℕ := 2^6

/-- `LZFSE_ENCODE_M_STATES`. -/
def mStates : ℕ := 2^6

/-- `LZFSE_ENCODE_D_STATES`. -/
def dStates : ℕ := 2^8

/-- `LZFSE_ENCODE_LITERAL_STATES`. -/
def literalStates : ℕ := 2^10

/-- `LZFSE_MATCHES_PER_BLOCK`. -/
def matchesPerBlock : ℕ := 10000

/-- `LZFSE_LITERALS_PER_BLOCK`. -/
def literalsPerBlock : ℕ := 4*matchesPerBlock

/-- The size of `lzfse_compressed_block_header_v2`. -/
def headerV2Size : ℕ := 752

/-- `LZFSE_COMPRESSEDV2_BLOCK_MAGIC`. -/
def compressedV2Magic : ℕ := 0x32787662

/-- One of the `l_values`, `m_values` and `d_values`. -/
structure Lmd where
  /-- Length of literals. -/
  l : ℕ
  /-- Length of the match. -/
  m : ℕ
  /-- Distance of the match. -/
  d : ℕ
  deriving DecidableEq,Repr

/-- The back end's part of `lzfse_encoder_state`. -/
structure Backend where
  /-- The destination up to `dst`, and its size. -/
  dst : OutBuffer
  /-- The lengths and distances of the matches so far. -/
  lmds : List Lmd
  /-- Concatenated literal bytes. -/
  literals : List UInt8
  deriving DecidableEq,Repr

/-- `LZFSE_STATUS_OK` and `LZFSE_STATUS_DST_FULL`. -/
inductive Status
  | ok
  | dstFull
  deriving DecidableEq,Repr

/-- Why a block is not completed. -/
inductive Stop
  /-- The destination has no room for it. -/
  | dstFull
  /-- An assertion fails, or an access is out of bounds. -/
  | undefined
  deriving DecidableEq,Repr

/-- A step that is not always possible. -/
def defined {α : Type} : Option α→Except Stop α
  | some x => .ok x
  | none => .error .undefined

end States

section Headers

/-- Tables of L, M, D and literals. -/
structure Tables where
  /-- Of lengths of literals. -/
  l : List ℕ
  /-- Of lengths of matches. -/
  m : List ℕ
  /-- Of distances. -/
  d : List ℕ
  /-- Of literals. -/
  literal : List ℕ
  deriving DecidableEq,Repr

/-- `lzfse_compressed_block_header_v1`. -/
structure BlockHeader where
  /-- Number of decoded bytes in block. -/
  nRawBytes : ℕ
  /-- Number of literal bytes. -/
  nLiterals : ℕ
  /-- Number of matches in block. -/
  nMatches : ℕ
  /-- Number of bytes used to encode literals. -/
  nLiteralPayloadBytes : ℕ
  /-- Number of bytes used to encode matches. -/
  nLmdPayloadBytes : ℕ
  /-- Final bits of the literals stream. -/
  literalBits : ℤ
  /-- The final states of the four interleaved streams of literals. -/
  literalState : ℕ×ℕ×ℕ×ℕ
  /-- Final bits of the stream of lengths and distances. -/
  lmdBits : ℤ
  /-- Final L, M and D state. -/
  lmdState : ℕ×ℕ×ℕ
  /-- Normalized frequency tables for each stream. -/
  freq : Tables
  deriving DecidableEq,Repr

/-- `setField`, with its assertions. -/
def setField (v : ℤ) (offset nbits : ℕ) : Option ℕ :=
  if offset+nbits<64 ∧ nbits≤32 ∧ 0≤v ∧ v<2^nbits then some (v.toNat<<<offset) else none

/-- The fields of a 64-bit word. -/
def setFields : List (ℤ×ℕ×ℕ)→Option ℕ
  | [] => some 0
  | x::fields => (setField x.1 x.2.1 x.2.2).bind fun y => (setFields fields).map fun z => y|||z

/-- `lzfse_encode_v1_state`: all of the header before the tables. The last word already has the
size of the header. -/
def encodeV1State (header : BlockHeader) (headerSize : ℕ) : Option (List UInt8) :=
  (setFields [(header.nLiterals,0,20),(header.nLiteralPayloadBytes,20,20),(header.nMatches,40,20),
    (7+header.literalBits,60,3)]).bind fun literalFields =>
  (setFields [(header.literalState.1,0,10),(header.literalState.2.1,10,10),
    (header.literalState.2.2.1,20,10),(header.literalState.2.2.2,30,10),
    (header.nLmdPayloadBytes,40,20),(7+header.lmdBits,60,3)]).bind fun lmdFields =>
  (setFields [(headerSize,0,32),(header.lmdState.1,32,10),(header.lmdState.2.1,42,10),
    (header.lmdState.2.2,52,10)]).map fun stateFields =>
  leBytes 4 compressedV2Magic++leBytes 4 header.nRawBytes++leBytes 8 literalFields++
    leBytes 8 lmdFields++leBytes 8 stateFields

/-- `lzfse_encode_v1_freq_value`: the bits of a frequency and their number. -/
def encodeV1FreqValue : ℕ→ℕ×ℕ
  | 0 => (0,2)
  | 1 => (2,2)
  | 2 => (1,3)
  | 3 => (5,3)
  | 4 => (3,5)
  | 5 => (11,5)
  | 6 => (19,5)
  | 7 => (27,5)
  | value => if value<24 then (7+(value-8)<<<4,8) else ((value-24)<<<4+15,14)

/-- `lzfse_encode_v1_freq_table` from an accumulator on; after each frequency the full bytes are
stored. -/
def encodeV1FreqTable : ℕ→ℕ→List ℕ→Option (List UInt8)
  | accum,accumNbits,[] => some (if 0<accumNbits then [UInt8.ofNat accum] else [])
  | accum,accumNbits,value::src =>
    let code := encodeV1FreqValue value
    if code.1<2^code.2 then
      let accum := (accum|||code.1<<<accumNbits)%2^32
      let accumNbits := accumNbits+code.2
      let count := accumNbits/8
      (encodeV1FreqTable (accum>>>(8*count)) (accumNbits-8*count) src).map fun bytes =>
        leBytes count accum++bytes
    else none

end Headers

section Payloads

/-- One symbol for each of four states, the last one first. -/
def encodeFour (table : List (Option EncoderEntry)) (states : ℕ×ℕ×ℕ×ℕ)
    (symbols : UInt8×UInt8×UInt8×UInt8) (out : OutStream) : Option ((ℕ×ℕ×ℕ×ℕ)×OutStream) :=
  (encode table states.2.2.2 symbols.2.2.2.toNat out).bind fun r3 =>
  (encode table states.2.2.1 symbols.2.2.1.toNat r3.2).bind fun r2 =>
  (encode table states.2.1 symbols.2.1.toNat r2.2).bind fun r1 =>
  (encode table states.1 symbols.1.toNat r1.2).map fun r0 =>
    ((r0.1,r1.1,r2.1,r3.1),r0.2)

/-- The loop over the literals, starting from the last of them: a multiple of four. -/
def encodeLiterals (table : List (Option EncoderEntry)) :
    List UInt8→OutBuffer→Except Stop ((ℕ×ℕ×ℕ×ℕ)×OutStream×OutBuffer)
  | b0::b1::b2::b3::literals,buf =>
    (encodeLiterals table literals buf).bind fun r =>
    if r.2.2.room<r.2.2.written.length+16 then .error .dstFull
    else
      (defined (encodeFour table r.1 (b0,b1,b2,b3) r.2.1)).bind fun q =>
      (defined (q.2.flush r.2.2)).bind fun p => .ok (q.1,p)
  | _,buf => .ok ((0,0,0,0),OutStream.init,buf)

/-- Push the extra bits of a value and encode its symbol. -/
def encodeValue (symbol : Option ℕ) (extraBits baseValue : List ℕ)
    (table : List (Option EncoderEntry)) (state value : ℕ) (out : OutStream) :
    Option (ℕ×OutStream) :=
  symbol.bind fun a =>
  extraBits[a]?.bind fun nbits =>
  baseValue[a]?.bind fun base =>
    if base≤value then (out.push nbits (value-base)).bind fun out => encode table state a out
    else none

/-- The encoder tables of L, M and D. -/
structure LmdEncoders where
  /-- `l_encoder`. -/
  l : List (Option EncoderEntry)
  /-- `m_encoder`. -/
  m : List (Option EncoderEntry)
  /-- `d_encoder`. -/
  d : List (Option EncoderEntry)

/-- D, then M, then L. -/
def encodeLmd (tables : LmdEncoders) (states : ℕ×ℕ×ℕ) (v : Lmd) (out : OutStream) :
    Option ((ℕ×ℕ×ℕ)×OutStream) :=
  (encodeValue (dBaseFromValue v.d) dExtraBits dBaseValue tables.d states.2.2 v.d out).bind fun rd =>
  (encodeValue (mBaseFromValue v.m) mExtraBits mBaseValue tables.m states.2.1 v.m rd.2).bind fun rm =>
  (encodeValue (lBaseFromValue v.l) lExtraBits lBaseValue tables.l states.1 v.l rm.2).map fun rl =>
    ((rl.1,rm.1,rd.1),rl.2)

/-- The loop over the matches, starting from the last of them. -/
def encodeLmds (tables : LmdEncoders) :
    List Lmd→OutBuffer→Except Stop ((ℕ×ℕ×ℕ)×OutStream×OutBuffer)
  | [],buf => .ok ((0,0,0),OutStream.init,buf)
  | v::lmds,buf =>
    (encodeLmds tables lmds buf).bind fun r =>
    if r.2.2.room<r.2.2.written.length+16 then .error .dstFull
    else
      (defined (encodeLmd tables r.1 v r.2.1)).bind fun q =>
      (defined (q.2.flush r.2.2)).bind fun p => .ok (q.1,p)

end Payloads

section Blocks

/-- The occurrences of each symbol. -/
def occurrences (nsymbols : ℕ) (symbols : List ℕ) : List ℕ :=
  symbols.foldl (fun occ a => occ.modify a (·+1)) (List.replicate nsymbols 0)

/-- Occurrence tables in all 4 streams. -/
def occurrenceTables (literals : List UInt8) (lmds : List Lmd) : Option Tables :=
  (lmds.mapM fun v => lBaseFromValue v.l).bind fun lSymbols =>
  (lmds.mapM fun v => mBaseFromValue v.m).bind fun mSymbols =>
  (lmds.mapM fun v => dBaseFromValue v.d).map fun dSymbols =>
    ⟨occurrences lSymbolCount lSymbols,occurrences mSymbolCount mSymbols,
      occurrences dSymbolCount dSymbols,
      occurrences literalSymbolCount (literals.map UInt8.toNat)⟩

/-- Normalize occurrence tables to freq tables. -/
def normalizeTables (occ : Tables) : Option Tables :=
  (normalizeFreq lStates occ.l).bind fun l =>
  (normalizeFreq mStates occ.m).bind fun m =>
  (normalizeFreq dStates occ.d).bind fun d =>
  (normalizeFreq literalStates occ.literal).map fun literal => ⟨l,m,d,literal⟩

/-- The block that is written behind `dst`. -/
def encodeBlock (stray : ℤ) (literals : List UInt8) (lmds : List Lmd) (dst : OutBuffer) :
    Except Stop OutBuffer :=
  (defined (occurrenceTables literals lmds)).bind fun occ =>
  if dst.room<dst.written.length+headerV2Size then .error .dstFull
  else
    (defined (normalizeTables occ)).bind fun freq =>
    (defined (encodeV1FreqTable 0 0 (freq.l++freq.m++freq.d++freq.literal))).bind fun tables =>
    let headerSize := 32+tables.length
    (encodeLiterals (initEncoderTable stray literalStates 0 freq.literal) literals
      ⟨[],dst.room-dst.written.length-headerSize⟩).bind fun r =>
    (defined (r.2.1.finish r.2.2)).bind fun literal =>
    let room := literal.2.room-literal.2.written.length
    if room<8 then .error .dstFull
    else
      (encodeLmds ⟨initEncoderTable stray lStates 0 freq.l,initEncoderTable stray mStates 0 freq.m,
        initEncoderTable stray dStates 0 freq.d⟩ lmds ⟨leBytes 8 0,room⟩).bind fun q =>
      (defined (q.2.1.finish q.2.2)).bind fun lmd =>
      (defined (encodeV1State {
        nRawBytes := ((lmds.map Lmd.m).sum+(lmds.map Lmd.l).sum)%2^32
        nLiterals := literals.length
        nMatches := lmds.length
        nLiteralPayloadBytes := literal.2.written.length
        nLmdPayloadBytes := lmd.2.written.length
        literalBits := literal.1
        literalState := r.1
        lmdBits := lmd.1
        lmdState := q.1
        freq := freq} headerSize)).bind fun state =>
      .ok {dst with written :=
        dst.written++(state++tables++literal.2.written++lmd.2.written)}

/-- Encode previous distance. -/
def encodePrevious : ℕ→List Lmd→List Lmd
  | _,[] => []
  | dPrev,v::lmds =>
    if v.d=dPrev then {v with d := 0}::encodePrevious dPrev lmds
    else v::encodePrevious v.d lmds

/-- Revert the encoding of previous distances. -/
def revertPrevious : ℕ→List Lmd→List Lmd
  | _,[] => []
  | dPrev,v::lmds =>
    if v.d=0 then {v with d := dPrev}::revertPrevious dPrev lmds
    else v::revertPrevious v.d lmds

/-- Literals of 0 until their number is a multiple of four. -/
def padLiterals (literals : List UInt8) : List UInt8 :=
  literals++List.replicate ((4-literals.length%4)%4) 0

/-- `lzfse_encode_matches`. -/
def encodeMatches (stray : ℤ) (s : Backend) : Option (Status×Backend) :=
  if s.literals=[] ∧ s.lmds=[] then some (.ok,s)
  else
    let literals := padLiterals s.literals
    let lmds := encodePrevious 0 s.lmds
    match encodeBlock stray literals lmds s.dst with
    | .ok dst => some (.ok,⟨dst,[],[]⟩)
    | .error .dstFull =>
      some (.dstFull,⟨s.dst,revertPrevious 0 lmds,literals.take s.literals.length⟩)
    | .error .undefined => none

end Blocks

end Applesauce.Lzfse
