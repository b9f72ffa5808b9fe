import Applesauce.ByteWords
import Mathlib.Data.Int.Basic

/-!
# Finite state entropy coding

The tables and steps of `lzfse_fse.h` and `lzfse_fse.c` with their 64-bit
streams. A step is not possible where an assertion of it fails, where it reads an
entry that was never written or where it stores or loads beyond its buffer.
The shift of a number by less than no bits, which the encoder table asks for
where one symbol has all the states, may give any value.
-/

namespace Applesauce.Fse

open ByteWords

section Words

/-- A conversion to `int16_t`. -/
def int16 (x : ℤ) : ℤ := Int.bmod x 65536

/-- A conversion to `int8_t`. -/
def int8 (x : ℤ) : ℤ := Int.bmod x 256

/-- A conversion to `uint16_t`. -/
def uint16 (x : ℤ) : ℕ := (x%65536).toNat

/-- A conversion to `uint8_t`. -/
def uint8 (x : ℤ) : ℕ := (x%256).toNat

/-- `__builtin_clz` of a positive number. -/
def clz (x : ℕ) : ℤ := 31-(Nat.log2 x : ℤ)

/-- A left shift; by less than no bits it gives any value. -/
def shiftLeft (stray : ℤ) (x : ℕ) (k : ℤ) : ℤ := if 0≤k then (x<<<k.toNat : ℕ) else stray

/-- A right shift; by less than no bits it gives any value. -/
def shiftRight (stray : ℤ) (x : ℕ) (k : ℤ) : ℤ := if 0≤k then (x>>>k.toNat : ℕ) else stray

/-- `fse_mask_lsb64`. -/
def maskLsb (x nbits : ℕ) : ℕ := x%2^nbits

/-- The bits above the low 64 are lost. -/
def word64 (x : ℕ) : ℕ := x%2^64

end Words

section Streams

/-- `fse_out_stream64`. -/
structure OutStream where
  /-- Output bits. -/
  accum : ℕ
  /-- Number of valid bits in `accum`, other bits are 0. -/
  accumNbits : ℕ
  deriving DecidableEq,Repr

/-- The bytes before the pointer into a buffer, and the room of the buffer. -/
structure OutBuffer where
  /-- What was written. -/
  written : List UInt8
  /-- How many bytes the buffer holds. -/
  room : ℕ
  deriving DecidableEq,Repr

/-- `fse_out_init64`. -/
def OutStream.init : OutStream := ⟨0,0⟩

/-- `fse_out_push64`, with its assertions. -/
def OutStream.push (s : OutStream) (n b : ℕ) : Option OutStream :=
  if s.accumNbits<64 then
    let accum := s.accum|||word64 (b<<<s.accumNbits)
    let accumNbits := s.accumNbits+n
    if accumNbits≤64 ∧ (accumNbits=64 ∨ accum>>>accumNbits=0) then some ⟨accum,accumNbits⟩
    else none
  else none

/-- Eight bytes are stored, and the pointer goes on over the first of them. -/
def OutBuffer.store (buf : OutBuffer) (x count : ℕ) : Option OutBuffer :=
  if buf.written.length+8≤buf.room then
    some {buf with written := buf.written++(leBytes 8 x).take count}
  else none

/-- `fse_out_flush64`, with its assertions. -/
def OutStream.flush (s : OutStream) (buf : OutBuffer) : Option (OutStream×OutBuffer) :=
  let nbits := s.accumNbits/8*8
  (buf.store s.accum (nbits>>>3)).bind fun buf =>
    let accum := s.accum>>>nbits
    let accumNbits := s.accumNbits-nbits
    if nbits<64 ∧ accumNbits≤7 ∧ accum>>>accumNbits=0 then some (⟨accum,accumNbits⟩,buf) else none

/-- `fse_out_finish64`, with its assertion: the bits of the last byte that are not used, as a
number that is not positive. -/
def OutStream.finish (s : OutStream) (buf : OutBuffer) : Option (ℤ×OutBuffer) :=
  let nbits := (s.accumNbits+7)/8*8
  (buf.store s.accum (nbits>>>3)).bind fun buf =>
    let accumNbits : ℤ := s.accumNbits-nbits
    if -7≤accumNbits ∧ accumNbits≤0 then some (accumNbits,buf) else none

/-- `fse_in_stream64`. -/
structure InStream where
  /-- Input bits. -/
  accum : ℕ
  /-- Number of valid bits in `accum`, other bits are 0. -/
  accumNbits : ℕ
  deriving DecidableEq,Repr

/-- The pointer goes back over some bytes of the buffer before it, if there are so many: what is
before them, and the number they hold. -/
def loadBack (buf : List UInt8) (count : ℕ) : Option (List UInt8×ℕ) :=
  if count≤buf.length then
    some (buf.take (buf.length-count),leValue (buf.drop (buf.length-count)))
  else none

/-- `fse_in_checked_init64`. -/
def InStream.checkedInit (n : ℤ) (buf : List UInt8) : Option (InStream×List UInt8) :=
  let count := if n≠0 then 8 else 7
  (loadBack buf count).bind fun r =>
    let accumNbits := n+8*count
    if 56≤accumNbits ∧ accumNbits<64 ∧ r.2>>>accumNbits.toNat=0 then
      some (⟨r.2,accumNbits.toNat⟩,r.1)
    else none

/-- `fse_in_checked_flush64`, with its assertions. -/
def InStream.checkedFlush (s : InStream) (buf : List UInt8) : Option (InStream×List UInt8) :=
  let nbits := (63-s.accumNbits)/8*8
  (loadBack buf (nbits>>>3)).bind fun r =>
    let accum := word64 (s.accum<<<nbits)|||r.2
    let accumNbits := s.accumNbits+nbits
    if 56≤accumNbits ∧ accumNbits<64 ∧ accum>>>accumNbits=0 then some (⟨accum,accumNbits⟩,r.1)
    else none

/-- `fse_in_pull64`, with its assertion. -/
def InStream.pull (s : InStream) (n : ℕ) : Option (ℕ×InStream) :=
  if n≤ s.accumNbits then
    let accumNbits := s.accumNbits-n
    some (s.accum>>>accumNbits,⟨maskLsb s.accum accumNbits,accumNbits⟩)
  else none

end Streams

section Tables

/-- `fse_encoder_entry`. -/
structure EncoderEntry where
  /-- First state requiring a K-bit shift. -/
  s0 : ℤ
  /-- States S ≥ S0 are shifted K bits, states S < S0 are shifted K-1 bits. -/
  k : ℤ
  /-- Relative increment used to compute next state if S ≥ S0. -/
  delta0 : ℤ
  /-- Relative increment used to compute next state if S < S0. -/
  delta1 : ℤ
  deriving DecidableEq,Repr

/-- `fse_decoder_entry`. -/
structure DecoderEntry where
  /-- Number of bits to read. -/
  k : ℤ
  /-- Emitted symbol. -/
  symbol : ℕ
  /-- Signed increment used to compute next state. -/
  delta : ℤ
  deriving DecidableEq,Repr

/-- `fse_value_decoder_entry`. -/
structure ValueDecoderEntry where
  /-- State bits and extra value bits. -/
  totalBits : ℕ
  /-- Extra value bits. -/
  valueBits : ℕ
  /-- State base. -/
  delta : ℤ
  /-- Value base. -/
  vbase : ℤ
  deriving DecidableEq,Repr

/-- The entry of a symbol in the encoder table. -/
def encoderEntry (stray : ℤ) (nstates offset f : ℕ) : EncoderEntry :=
  let k := clz f-clz nstates
  ⟨int16 (shiftLeft stray f k-nstates),int16 k,
    int16 (offset-f+shiftRight stray nstates k),
    int16 (offset-f+shiftRight stray nstates (k-1))⟩

/-- `fse_init_encoder_table` from an offset on; a symbol with no occurrences has no entry. -/
def initEncoderTable (stray : ℤ) (nstates : ℕ) : ℕ→List ℕ→List (Option EncoderEntry)
  | _,[] => []
  | offset,f::freq =>
    if f=0 then none::initEncoderTable stray nstates offset freq
    else some (encoderEntry stray nstates offset f)::
      initEncoderTable stray nstates (offset+f) freq

/-- The number of bits to read in one of the states of a symbol and the state they are added to.
A symbol has no more than all the states, so that `k` is not negative. -/
def stateBits (nstates f j : ℕ) : ℤ×ℤ :=
  let k := clz f-clz nstates
  let j0 : ℤ := ((2*nstates)>>>k.toNat : ℕ)-f
  if j<j0 then (k,((f+j)<<<k.toNat : ℕ)-nstates) else (k-1,(j-j0)*2^(k-1).toNat)

/-- The entry of one of the states of a symbol in the decoder table. -/
def decoderEntry (nstates symbol f j : ℕ) : DecoderEntry :=
  let r := stateBits nstates f j
  ⟨int8 r.1,uint8 symbol,int16 r.2⟩

/-- `fse_init_decoder_table` from a symbol on, with the sum of the frequencies before it. -/
def initDecoderTable (nstates : ℕ) : ℕ→ℕ→List ℕ→Option (List DecoderEntry)
  | _,_,[] => some []
  | symbol,sumOfFreq,f::freq =>
    if f=0 then initDecoderTable nstates (symbol+1) sumOfFreq freq
    else if nstates<sumOfFreq+f then none
    else (initDecoderTable nstates (symbol+1) (sumOfFreq+f) freq).map fun rest =>
      (List.range f).map (decoderEntry nstates symbol f)++rest

/-- The entry of one of the states of a symbol in the value decoder table. -/
def valueDecoderEntry (nstates f vbits : ℕ) (vbase : ℤ) (j : ℕ) : ValueDecoderEntry :=
  let r := stateBits nstates f j
  ⟨uint8 (uint8 r.1+vbits),vbits,int16 r.2,vbase⟩

/-- `fse_init_value_decoder_table` from a symbol on: its frequency, value bits and base. -/
def initValueDecoderTable (nstates : ℕ) : List (ℕ×ℕ×ℤ)→List ValueDecoderEntry
  | [] => []
  | (f,vbits,vbase)::symbols =>
    if f=0 then initValueDecoderTable nstates symbols
    else (List.range f).map (valueDecoderEntry nstates f vbits vbase)++
      initValueDecoderTable nstates symbols

end Tables

section Steps

/-- `fse_encode`: the state and the stream after a symbol. -/
def encode (table : List (Option EncoderEntry)) (state symbol : ℕ) (out : OutStream) :
    Option (ℕ×OutStream) :=
  match table[symbol]? with
  | some (some e) =>
    let hi := e.s0≤ state
    let nbits := if hi then e.k else e.k-1
    let delta := uint16 (if hi then e.delta0 else e.delta1)
    if 0≤nbits then
      (out.push nbits.toNat (maskLsb state nbits.toNat)).map fun out =>
        (uint16 (delta+(state>>>nbits.toNat : ℕ)),out)
    else none
  | _ => none

/-- `fse_decode`: the symbol, and the state and the stream after it. -/
def decode (table : List DecoderEntry) (state : ℕ) (input : InStream) :
    Option (ℕ×ℕ×InStream) :=
  match table[state]? with
  | some e =>
    (input.pull (uint8 e.k)).map fun r => (e.symbol,uint16 (uint16 e.delta+uint16 r.1),r.2)
  | none => none

/-- `fse_value_decode`: the value, and the state and the stream after it. -/
def valueDecode (table : List ValueDecoderEntry) (state : ℕ) (input : InStream) :
    Option (ℤ×ℕ×InStream) :=
  match table[state]? with
  | some e =>
    (input.pull e.totalBits).map fun r =>
      let bits := r.1%2^32
      (e.vbase+maskLsb bits e.valueBits,uint16 (e.delta+(bits>>>e.valueBits : ℕ)),r.2)
  | none => none

end Steps

end Applesauce.Fse
