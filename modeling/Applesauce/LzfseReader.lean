import Applesauce.LzfseBlock
import Applesauce.PrefixCode
import Mathlib.Tactic.IntervalCases

/-!
# Reading a block

What the comments of `lzfse_internal.h` and `lzfse_fse.h` say a block holds: the
fields of its header, the tables behind them and two payloads that are read
backwards with the functions of `lzfse_fse.h`. The repository has no reader of
its own; this one says what a block is for.
-/

namespace Applesauce.Lzfse

open ByteWords Fse PrefixCode

section Header

/-- A frequency by the position of the first 0 bit, and the number of its bits. -/
def freqValue (x : ℕ) : ℕ×ℕ :=
  if x%2=0 then (x/2%2,2)
  else if x/2%2=0 then (2+x/4%2,3)
  else if x/4%2=0 then (4+x/8%4,5)
  else if x/8%2=0 then (8+x/16%16,8)
  else (24+x/16%1024,14)

/-- The bits of a larger frequency. -/
theorem encodeV1FreqValue_add (g : ℕ) : encodeV1FreqValue (g+8)=
    if g+8<24 then (7+g*16,8) else (15+(g+8-24)*16,14) := by
  change (if g+8<24 then (7+(g+8-8)<<<4,8) else ((g+8-24)<<<4+15,14))=_
  rw [Nat.shiftLeft_eq,Nat.shiftLeft_eq,Nat.add_sub_cancel,Nat.add_comm 15]

/-- Frequencies that fit have two to fourteen bits. -/
theorem encodeV1FreqValue_lt {f : ℕ} (h : f≤1047) :
    (encodeV1FreqValue f).1<2^(encodeV1FreqValue f).2 ∧ (encodeV1FreqValue f).2≤14 := by
  have hsmall : ∀ f<8, (encodeV1FreqValue f).1<2^(encodeV1FreqValue f).2 ∧
      (encodeV1FreqValue f).2≤14 := by decide
  by_cases hf : f<8
  · exact hsmall f hf
  · obtain ⟨g,rfl⟩ := Nat.exists_eq_add_of_le' (Nat.le_of_not_lt hf)
    rw [encodeV1FreqValue_add]
    split <;> dsimp only <;> omega

section Forms
variable {b : ℕ} (above : ℕ)

/-- The first bit is 0. -/
theorem freqValue_two (hb : b<2) : freqValue (2*b+2^2*above)=(b,2) := by
  unfold freqValue
  rw [if_pos (by omega)]
  congr 1
  omega

/-- The second bit is the first 0. -/
theorem freqValue_three (hb : b<2) : freqValue (1+4*b+2^3*above)=(2+b,3) := by
  unfold freqValue
  rw [if_neg (by omega),if_pos (by omega)]
  congr 1
  omega

/-- The third bit is the first 0. -/
theorem freqValue_five (hb : b<4) : freqValue (3+8*b+2^5*above)=(4+b,5) := by
  unfold freqValue
  rw [if_neg (by omega),if_neg (by omega),if_pos (by omega)]
  congr 1
  omega

/-- The fourth bit is the first 0. -/
theorem freqValue_eight (hb : b<16) : freqValue (7+b*16+2^8*above)=(8+b,8) := by
  unfold freqValue
  rw [if_neg (by omega),if_neg (by omega),if_neg (by omega),if_pos (by omega)]
  congr 1
  omega

/-- The first four bits are 1. -/
theorem freqValue_fourteen (hb : b<1024) : freqValue (15+b*16+2^14*above)=(24+b,14) := by
  unfold freqValue
  rw [if_neg (by omega),if_neg (by omega),if_neg (by omega),if_neg (by omega)]
  congr 1
  omega

end Forms

/-- A frequency is read below any bits. -/
theorem freqValue_encode {f : ℕ} (h : f≤1047) (above : ℕ) :
    freqValue ((encodeV1FreqValue f).1+2^(encodeV1FreqValue f).2*above)=
      (f,(encodeV1FreqValue f).2) := by
  by_cases hf : f<8
  · interval_cases f
    · exact @freqValue_two 0 above (by decide)
    · exact @freqValue_two 1 above (by decide)
    · exact @freqValue_three 0 above (by decide)
    · exact @freqValue_three 1 above (by decide)
    · exact @freqValue_five 0 above (by decide)
    · exact @freqValue_five 1 above (by decide)
    · exact @freqValue_five 2 above (by decide)
    · exact @freqValue_five 3 above (by decide)
  · obtain ⟨g,rfl⟩ := Nat.exists_eq_add_of_le' (Nat.le_of_not_lt hf)
    rw [encodeV1FreqValue_add]
    split
    · next hg =>
      rw [freqValue_eight above (show g<16 by omega),Nat.add_comm]
    · next hg =>
      rw [freqValue_fourteen above (show g+8-24<1024 by omega),show 24+(g+8-24)=g+8 by omega]

/-- The fixed code of the frequencies. -/
def freqCode : Code ℕ where
  domain f := f≤1047
  bits f := (encodeV1FreqValue f).1
  width f := (encodeV1FreqValue f).2
  read := freqValue
  bits_lt := fun h => (encodeV1FreqValue_lt h).1
  read_bits := freqValue_encode

/-- The bits of a field. -/
def field (x offset nbits : ℕ) : ℕ := (x>>>offset)%2^nbits

/-- `lzfse_check_block_header_v1`, where no test fails. -/
def BlockHeader.checked (header : BlockHeader) : Bool :=
  header.nLiterals≤literalsPerBlock ∧ header.nMatches≤ matchesPerBlock ∧
    header.literalState.1<literalStates ∧ header.literalState.2.1<literalStates ∧
    header.literalState.2.2.1<literalStates ∧ header.literalState.2.2.2<literalStates ∧
    header.lmdState.1<lStates ∧ header.lmdState.2.1< mStates ∧ header.lmdState.2.2<dStates ∧
    header.freq.l.sum≤lStates ∧ header.freq.m.sum≤ mStates ∧ header.freq.d.sum≤dStates ∧
    header.freq.literal.sum≤literalStates

/-- A header and its size. The table of frequencies ends where the header does. -/
def readHeader (block : List UInt8) : Option (BlockHeader×ℕ) :=
  if 32≤block.length ∧ leValue (block.take 4)=compressedV2Magic then
    let w0 := leValue ((block.drop 8).take 8)
    let w1 := leValue ((block.drop 16).take 8)
    let w2 := leValue ((block.drop 24).take 8)
    let headerSize := field w2 0 32
    let freq := freqCode.readAll (lSymbolCount+mSymbolCount+dSymbolCount+literalSymbolCount)
      (leValue ((block.take headerSize).drop 32))
    if headerSize=32+(freqCode.widthAll freq+7)/8 then some ({
      nRawBytes := leValue ((block.drop 4).take 4)
      nLiterals := field w0 0 20
      nLiteralPayloadBytes := field w0 20 20
      nMatches := field w0 40 20
      literalBits := field w0 60 3-7
      literalState := (field w1 0 10,field w1 10 10,field w1 20 10,field w1 30 10)
      nLmdPayloadBytes := field w1 40 20
      lmdBits := field w1 60 3-7
      lmdState := (field w2 32 10,field w2 42 10,field w2 52 10)
      freq := ⟨freq.take lSymbolCount,(freq.drop lSymbolCount).take mSymbolCount,
        (freq.drop (lSymbolCount+mSymbolCount)).take dSymbolCount,
        freq.drop (lSymbolCount+mSymbolCount+dSymbolCount)⟩},headerSize)
    else none
  else none

end Header

section Payloads

/-- Literals, four at a time. -/
def readLiterals (table : List DecoderEntry) :
    ℕ→ℕ×ℕ×ℕ×ℕ→InStream→List UInt8→Option (List UInt8)
  | 0,_,_,_ => some []
  | n+1,states,input,buf =>
    (input.checkedFlush buf).bind fun r =>
    (decode table states.1 r.1).bind fun r0 =>
    (decode table states.2.1 r0.2.2).bind fun r1 =>
    (decode table states.2.2.1 r1.2.2).bind fun r2 =>
    (decode table states.2.2.2 r2.2.2).bind fun r3 =>
    (readLiterals table n (r0.2.1,r1.2.1,r2.2.1,r3.2.1) r3.2.2 r.2).map fun literals =>
      UInt8.ofNat r0.1::UInt8.ofNat r1.1::UInt8.ofNat r2.1::UInt8.ofNat r3.1::literals

/-- The decoder tables of L, M and D. -/
structure LmdDecoders where
  /-- `l_decoder`. -/
  l : List ValueDecoderEntry
  /-- `m_decoder`. -/
  m : List ValueDecoderEntry
  /-- `d_decoder`. -/
  d : List ValueDecoderEntry

/-- Lengths and distances, L before M before D. -/
def readLmds (tables : LmdDecoders) : ℕ→ℕ×ℕ×ℕ→InStream→List UInt8→Option (List Lmd)
  | 0,_,_,_ => some []
  | n+1,states,input,buf =>
    (input.checkedFlush buf).bind fun r =>
    (valueDecode tables.l states.1 r.1).bind fun rl =>
    (valueDecode tables.m states.2.1 rl.2.2).bind fun rm =>
    (valueDecode tables.d states.2.2 rm.2.2).bind fun rd =>
    (readLmds tables n (rl.2.1,rm.2.1,rd.2.1) rd.2.2 r.2).map fun lmds =>
      ⟨rl.1.toNat,rm.1.toNat,rd.1.toNat⟩::lmds

/-- The symbols of values with their frequencies, extra bits and bases. -/
def valueSymbols (freq extraBits baseValue : List ℕ) : List (ℕ×ℕ×ℤ) :=
  freq.zip (extraBits.zip (baseValue.map Nat.cast))

/-- The literals and the lengths and distances of a block, as long as the header says, and what is
behind it. What is before the payload of the literals may be loaded, but is not used; the other
payload is read from its own bytes only. -/
def readBlock (before block : List UInt8) : Option (List UInt8×List Lmd×List UInt8) :=
  (readHeader block).bind fun r =>
    let header := r.1
    let literalEnd := r.2+header.nLiteralPayloadBytes
    let blockEnd := literalEnd+header.nLmdPayloadBytes
    if header.checked ∧ header.nLiterals%4=0 ∧ blockEnd≤block.length then
      (initDecoderTable literalStates 0 0 header.freq.literal).bind fun literalTable =>
      (InStream.checkedInit header.literalBits (before++block.take literalEnd)).bind fun q =>
      (readLiterals literalTable (header.nLiterals/4) header.literalState q.1 q.2).bind
        fun literals =>
      (InStream.checkedInit header.lmdBits ((block.take blockEnd).drop literalEnd)).bind fun p =>
      (readLmds ⟨initValueDecoderTable lStates (valueSymbols header.freq.l lExtraBits lBaseValue),
          initValueDecoderTable mStates (valueSymbols header.freq.m mExtraBits mBaseValue),
          initValueDecoderTable dStates (valueSymbols header.freq.d dExtraBits dBaseValue)⟩
        header.nMatches header.lmdState p.1 p.2).bind fun lmds =>
      if (lmds.map Lmd.m).sum+(lmds.map Lmd.l).sum=header.nRawBytes then
        some (literals,revertPrevious 0 lmds,block.drop blockEnd)
      else none
    else none

end Payloads

end Applesauce.Lzfse
