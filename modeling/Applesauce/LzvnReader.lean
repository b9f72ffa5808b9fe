import Applesauce.ByteWords
import Applesauce.LzExpansion

/-!
# Reading the instructions of small sources

The first byte of an instruction says which fields it has: a number of
literals, the length of a match and its distance, which may be the one of the
match before. The literals come behind the instruction. The mark of the end
takes eight bytes.
-/

namespace Applesauce.LzvnCodec

open ByteWords LzExpansion

/-- An instruction. -/
structure Instruction where
  /-- The number of its literals. -/
  literals : ℕ
  /-- The length of its match. -/
  length : ℕ
  /-- The distance of its match, unless it is the one before. -/
  distance : Option ℕ
  deriving DecidableEq,Repr

section Fields
variable (bytes : List UInt8)

/-- The next byte. -/
def readByte : Option (ℕ×List UInt8) := bytes.head?.map fun b => (b.toNat,bytes.tail)

/-- The next two bytes. -/
def readWord : Option (ℕ×List UInt8) :=
  if 2≤bytes.length then some (leValue (bytes.take 2),bytes.drop 2) else none

end Fields

/-- The instruction with a first byte: `1111MMMM` and `1110LLLL` are a match at the distance before
and literals, with one byte more where the field is 0; `101LLMMM` is a medium distance; the others
are `LLMMMDDD`, with a long distance for 7 and the distance before for 6. There `MMM` is at most
`7-2*L`: what is beyond that has no meaning. -/
def readFields (b : ℕ) (bytes : List UInt8) : Option (Instruction×List UInt8) :=
  if 0xF0≤b then
    if b=0xF0 then (readByte bytes).map fun r => (⟨0,r.1+16,none⟩,r.2)
    else some (⟨0,b-0xF0,none⟩,bytes)
  else if 0xE0≤b then
    if b=0xE0 then (readByte bytes).map fun r => (⟨r.1+16,0,none⟩,r.2)
    else some (⟨b-0xE0,0,none⟩,bytes)
  else if 0xA0≤b ∧ b<0xC0 then
    (readWord bytes).map fun r => (⟨b/8%4,b%8*4+r.1%4+3,some (r.1/4)⟩,r.2)
  else if 7<b/8%8+2*(b/64) then none
  else if b%8=7 then
    (readWord bytes).map fun r => (⟨b/64,b/8%8+3,some r.1⟩,r.2)
  else if b%8=6 then
    if b/64=0 then none else some (⟨b/64,b/8%8+3,none⟩,bytes)
  else (readByte bytes).map fun r => (⟨b/64,b/8%8+3,some (b%8*256+r.1)⟩,r.2)

/-- Do what an instruction says, with the distance before and what was decoded: the distance, what
is decoded then and what comes behind its literals. -/
def execute (i : Instruction) (dPrev : ℕ) (out bytes : List UInt8) :
    Option (ℕ×List UInt8×List UInt8) :=
  if i.literals≤bytes.length then
    let out := out++bytes.take i.literals
    let d := i.distance.getD dPrev
    if i.length=0 then some (dPrev,out,bytes.drop i.literals)
    else if 0<d ∧ d≤out.length then
      (copyMatch i.length d out).map fun out => (d,out,bytes.drop i.literals)
    else none
  else none

/-- Decode so many instructions at most, up to the mark of the end. -/
def decodeFrom : ℕ→ℕ→List UInt8→List UInt8→Option (List UInt8)
  | 0,_,_,_ => none
  | fuel+1,dPrev,out,bytes =>
    (readByte bytes).bind fun r =>
      if r.1=0x06 then
        if r.2.length=7 then some out else none
      else
        (readFields r.1 r.2).bind fun i =>
        (execute i.1 dPrev out i.2).bind fun s => decodeFrom fuel s.1 s.2.1 s.2.2

/-- Decode a payload. -/
def decode (payload : List UInt8) : Option (List UInt8) := decodeFrom payload.length 0 [] payload

end Applesauce.LzvnCodec
