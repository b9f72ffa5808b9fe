import Applesauce.LzfseEncoder

/-!
# The encoder of small sources

`lzvn_encode_base.c`: instructions of a number of literals, the length of a
match and its distance are emitted as bytes, and the table of the last
positions of three-byte values gives candidates. A match may be emitted while a
better one is pending. What is left at the end is emitted as literals.
-/

namespace Applesauce.LzvnCodec

open ByteWords Lzfse

section Constants

/-- `LZVN_ENCODE_HASH_VALUES`. -/
def hashValues : ℕ := 2^14

/-- `LZVN_ENCODE_MAX_DISTANCE`. -/
def maxDistance : ℕ := 0xffff

/-- `LZVN_ENCODE_MIN_MARGIN`. -/
def minMargin : ℕ := 8

/-- `LZVN_ENCODE_MAX_LITERAL_BACKLOG`. -/
def maxLiteralBacklog : ℕ := 400

/-- `LZVN_ENCODE_MIN_DST_SIZE`. -/
def minDstSize : ℕ := 8

/-- `LZVN_ENCODE_MAX_SRC_SIZE`. -/
def maxSrcSize : ℕ := 0xffffffff

end Constants

section Instructions
variable (room : ℕ)

/-- Literals while there are more than 15: what is left of them, and what was written. -/
def emitLong (l : ℕ) (p q : List UInt8) : Option (ℕ×List UInt8×List UInt8) :=
  if 15<l then
    let x := if l<271 then l else 271
    if room≤q.length+x+10 then none
    else emitLong (l-x) (p.drop x) (q++leBytes 2 (0xE0+(x-16)<<<8)++p.take x)
  else some (l,p,q)
  termination_by l
  decreasing_by split <;> omega

/-- `emit_literal`, or nothing if the output is full. -/
def emitLiteral (l : ℕ) (p q : List UInt8) : Option (List UInt8) :=
  (emitLong room l p q).bind fun r =>
    if 0<r.1 then
      if room≤r.2.2.length+r.1+10 then none
      else some (r.2.2++UInt8.ofNat (0xE0+r.1)::r.2.1.take r.1)
    else some r.2.2

/-- Issue remaining match. -/
def emitRest (m : ℕ) (q : List UInt8) : Option (List UInt8) :=
  if 15< m then
    if room≤q.length+2 then none
    else
      let x := if m<271 then m else 271
      emitRest (m-x) (q++leBytes 2 (0xf0+(x-16)<<<8))
  else if 0< m then
    if room≤q.length+1 then none
    else some (q++[UInt8.ofNat (0xF0+m)])
  else some q
  termination_by m
  decreasing_by split <;> omega

/-- The instruction for fewer than 4 literals, `x+3` bytes of a match and `m` more: the bytes
before its literals, and how much of the match is left. -/
def instruction (l x m d dPrev : ℕ) : List UInt8×ℕ :=
  if d=dPrev then
    if l=0 then ([UInt8.ofNat (0xF0+(x+3))],m)
    else ([UInt8.ofNat (l<<<6+x<<<3+6)],m)
  else if d<2048-2*256 then
    ([UInt8.ofNat (d>>>8+l<<<6+x<<<3),UInt8.ofNat (d&&&0xFF)],m)
  else if 2^14≤d ∨ m=0 ∨ 34<x+3+m then
    (UInt8.ofNat (l<<<6+x<<<3+7)::leBytes 2 d,m)
  else
    let x := x+m
    (UInt8.ofNat (0xA0+x>>>2+l<<<3)::leBytes 2 (d<<<2|||x&&&3),0)

/-- `emit`, or nothing if the output is full. -/
def emit (l m d dPrev : ℕ) (p q : List UInt8) : Option (List UInt8) :=
  (emitLong room l p q).bind fun r =>
  (if 3<r.1 then
      if room≤r.2.2.length+r.1+10 then none
      else some (0,r.2.1.drop r.1,r.2.2++UInt8.ofNat (0xE0+r.1)::r.2.1.take r.1)
    else some r).bind fun r =>
    let x := if m≤10-2*r.1 then m else 10-2*r.1
    if room≤r.2.2.length+8 then none
    else
      let code := instruction r.1 (x-3) (m-x) d dPrev
      emitRest room code.2 (r.2.2++code.1++r.2.1.take r.1)

end Instructions

section States

/-- `lzvn_match_info`. -/
structure MatchInfo where
  /-- Beginning of match. -/
  mBegin : ℕ
  /-- End of match. -/
  mEnd : ℕ
  /-- Match length. -/
  m : ℕ
  /-- Match distance. -/
  d : ℕ
  /-- Match gain. -/
  k : ℤ
  deriving DecidableEq,Repr

/-- `NO_MATCH`. -/
def noMatch : MatchInfo := ⟨0,0,0,0,0⟩

/-- `lzvn_encoder_state`. -/
structure State where
  /-- The destination up to `dst`. -/
  dst : List UInt8
  /-- Next byte to encode in source buffer. -/
  srcLiteral : ℕ
  /-- Next byte to process in source buffer. -/
  srcCurrent : ℕ
  /-- Pending match. -/
  pending : MatchInfo
  /-- Distance for last emitted match, or 0. -/
  dPrev : ℕ
  /-- Indices and values, by hash. -/
  table : List (List (ℤ×ℕ))
  deriving DecidableEq,Repr

end States

section Matches
variable (src : List UInt8)

/-- `hash3i`. -/
def hash3i (i : ℕ) : ℕ :=
  let i := i&&&0xffffff
  ((i*(1+1<<<6+1<<<12)%2^32)>>>12)&&&(hashValues-1)

/-- `trailing_zero_bytes`. -/
def trailingZeroBytes (x : ℕ) : ℕ := if x=0 then 4 else ctzll x>>>3

/-- `nmatch4`. -/
def nmatch4 (i j : ℤ) : Option ℕ :=
  (load src 4 i).bind fun vi =>
  (load src 4 j).map fun vj => trailingZeroBytes (vi^^^vj)

/-- Expand forward. -/
def expandForward (d n mEnd : ℕ) : Option ℕ :=
  if n=4 ∧ mEnd+4<src.length then
    (nmatch4 src mEnd ((mEnd : ℤ)-d)).bind fun more => expandForward d more (mEnd+more)
  else some mEnd
  termination_by src.length-mEnd+if n=4 then 1 else 0
  decreasing_by
    rename_i h
    rw [if_pos h.1]
    split <;> omega

/-- `lzvn_find_matchN`: a match of at least three bytes, if there is one. -/
def findMatchN (lBegin : ℕ) (m0Begin : ℤ) (mBegin n : ℕ) : Option (Option MatchInfo) :=
  if n<3 then some none
  else
    let d := (mBegin : ℤ)-m0Begin
    if d≤0 ∨ maxDistance<d then some none
    else
      (expandForward src d.toNat n (mBegin+n)).map fun mEnd =>
        let r := expandBackwards src lBegin mBegin m0Begin
        let m := mEnd-r.1
        some ⟨r.1,mEnd,m,d.toNat,(m : ℤ)-if d<0x600 then 2 else 3⟩

/-- `lzvn_find_match`. -/
def findMatch (lBegin : ℕ) (m0Begin : ℤ) (mBegin : ℕ) : Option (Option MatchInfo) :=
  (nmatch4 src mBegin m0Begin).bind fun n => findMatchN src lBegin m0Begin mBegin n

/-- Update best with candidate if better. -/
def update (best candidate : MatchInfo) : MatchInfo :=
  if best.k<candidate.k ∨ candidate.k=best.k ∧ best.mEnd+1<candidate.mEnd then candidate else best

/-- Check candidates in order. -/
def checkCandidates (lBegin mBegin vi : ℕ) : List (ℤ×ℕ)→MatchInfo→Option MatchInfo
  | [],incoming => some incoming
  | e::entry,incoming =>
    (findMatchN src lBegin e.1 mBegin (trailingZeroBytes (e.2^^^vi))).bind fun r =>
      checkCandidates lBegin mBegin vi entry (match r with
        | some m1 => update incoming m1
        | none => incoming)

/-- Check candidate at previous distance. -/
def checkPrevious (lBegin mBegin dPrev : ℕ) (incoming : MatchInfo) : Option MatchInfo :=
  if dPrev≠0 then
    (findMatch src lBegin ((mBegin : ℤ)-dPrev) mBegin).map fun r => match r with
      | some m1 => update incoming {m1 with k := (m1.m : ℤ)-1}
      | none => incoming
  else some incoming

end Matches

section Runs
variable (room : ℕ) (src : List UInt8)

/-- `lzvn_emit_match`, or nothing if there is no more space. -/
def emitMatch (s : State) (m : MatchInfo) : Option State :=
  (emit room (m.mBegin-s.srcLiteral) m.m m.d s.dPrev (src.drop s.srcLiteral) s.dst).bind fun dst =>
    if room≤dst.length then none
    else some {s with dPrev := m.d, dst := dst, srcLiteral := m.mEnd}

/-- `lzvn_emit_literal`, or nothing if there is no more space. -/
def emitLiterals (s : State) (n : ℕ) : Option State :=
  (emitLiteral room n (src.drop s.srcLiteral) s.dst).bind fun dst =>
    if room≤dst.length then none
    else some {s with dst := dst, srcLiteral := s.srcLiteral+n}

/-- What is done with the best candidate, or nothing if there is no more space. -/
def choose (s : State) (incoming : MatchInfo) : Option State :=
  if incoming.m=0 then
    if maxLiteralBacklog≤ s.srcCurrent-s.srcLiteral then
      if s.pending.m≠0 then (emitMatch room src s s.pending).map fun s => {s with pending := noMatch}
      else emitLiterals room src s 271
    else some s
  else if s.pending.m=0 then some {s with pending := incoming}
  else if s.pending.mEnd≤ incoming.mBegin then
    (emitMatch room src s s.pending).map fun s => {s with pending := incoming}
  else
    (emitMatch room src s (if s.pending.k< incoming.k then incoming else s.pending)).map fun s =>
      {s with pending := noMatch}

/-- One position of `lzvn_encode`: nothing inside if there is no more space, nothing at all if an
access is out of bounds. -/
def encodeStep (s : State) : Option (Option State) :=
  (load src 4 s.srcCurrent).bind fun vi =>
  s.table[hash3i vi]?.bind fun e =>
  (if s.srcCurrent<s.srcLiteral then some (some s)
    else
      (checkCandidates src s.srcLiteral s.srcCurrent vi e noMatch).bind fun incoming =>
      (checkPrevious src s.srcLiteral s.srcCurrent s.dPrev incoming).map fun incoming =>
        choose room src s incoming).map fun r => r.map fun s' => {s' with
      srcCurrent := s.srcCurrent+1
      table := s'.table.set (hash3i vi) ((Int.bmod s.srcCurrent (2^32),vi)::e.take 3)}

/-- So many positions of `lzvn_encode`, which ends where there is no more space. -/
def encodeLoop : ℕ→State→Option State
  | 0,s => some s
  | n+1,s => (encodeStep room src s).bind fun r => match r with
    | some s => encodeLoop n s
    | none => some s

/-- The state that `lzvn_encode_partial` sets up, with the table of `lzvn_init_table`. -/
def initState (value : ℕ) : State :=
  ⟨[],0,0,noMatch,0,List.replicate hashValues (List.replicate 4 (0,value))⟩

/-- `lzvn_encode_partial` for a destination of at least 8 bytes: what is written, and how much of
the source was used. -/
def encodePartial (dstSize : ℕ) : Option (List UInt8×ℕ) :=
  let room := dstSize-8
  (if lzvnMinSrcSize≤ src.length then
      (load src 4 0).bind fun value => encodeLoop room src (src.length-minMargin) (initState value)
    else some (initState 0)).map fun s =>
    let s := (emitLiterals room src s (src.length-s.srcLiteral)).getD s
    (if dstSize<s.dst.length+8 then s.dst else s.dst++leBytes 8 0x06,s.srcLiteral)

/-- `lzvn_encode_buffer`: what is written, or nothing. -/
def encodeBuffer (src : List UInt8) (dstSize : ℕ) : Option (List UInt8) :=
  if dstSize< minDstSize then some []
  else
    (encodePartial (src.take maxSrcSize) dstSize).map fun r => if r.2≠src.length then [] else r.1

end Runs

end Applesauce.LzvnCodec
