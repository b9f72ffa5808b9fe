import Applesauce.LzvnEncoder
import Applesauce.LzvnReader

/-!
# Instructions go on along the source

The reader that has decoded the source up to a place goes on to the place
behind the literals and the match of each instruction that is emitted, however
these are split into instructions and whichever form they have.
-/

namespace Applesauce.LzvnCodec

open ByteWords LzExpansion

section Leads
variable {src first second fields : List UInt8} {p p' p'' d d' d'' l m : ℕ}

/-- The reader goes on from a place of the source and a distance to others. -/
def Leads (src bytes : List UInt8) (p d p' d' : ℕ) : Prop :=
  ∃ k, k≤bytes.length ∧ ∀ fuel rest, decodeFrom (fuel+k) d (src.take p) (bytes++rest)=
    decodeFrom fuel d' (src.take p') rest

/-- Nothing leads nowhere. -/
theorem leads_nil (src : List UInt8) (p d : ℕ) : Leads src [] p d p d :=
  ⟨0,Nat.le_refl 0,fun _ _ => rfl⟩

/-- Instructions one after the other. -/
theorem Leads.append (h : Leads src first p d p' d') (hnext : Leads src second p' d' p'' d'') :
    Leads src (first++second) p d p'' d'' := by
  obtain ⟨k,hk,hfirst⟩ := h
  obtain ⟨n,hn,hsecond⟩ := hnext
  refine ⟨n+k,by rw [List.length_append]; omega,fun fuel rest => ?_⟩
  rw [List.append_assoc,←Nat.add_assoc,hfirst,hsecond]

/-- The source from a place on repeats what is `d` before. -/
def RepeatsFrom (src : List UInt8) (d p m : ℕ) : Prop := ∀ i< m, src[p+i]?=src[p+i-d]?

/-- A repetition goes on where a part of it ends. -/
theorem RepeatsFrom.drop (h : RepeatsFrom src d p m) (x : ℕ) : RepeatsFrom src d (p+x) (m-x) := by
  intro i hi
  rw [Nat.add_assoc]
  exact h (x+i) (by omega)

/-- A repetition is one in its first part. -/
theorem RepeatsFrom.take (h : RepeatsFrom src d p m) {x : ℕ} (hx : x≤ m) : RepeatsFrom src d p x :=
  fun i hi => h i (by omega)

/-- An instruction is executed along the source. -/
theorem execute_spec {i : Instruction} (hp : p+i.literals+i.length≤ src.length)
    (hd : i.length=0 ∧ d'=d ∨ 0< i.length ∧ i.distance.getD d=d' ∧ 0<d' ∧ d'≤p+i.literals)
    (hrepeats : RepeatsFrom src d' (p+i.literals) i.length) (rest : List UInt8) :
    execute i d (src.take p) ((src.drop p).take i.literals++rest)=
      some (d',src.take (p+i.literals+i.length),rest) := by
  have hlength : ((src.drop p).take i.literals).length=i.literals := by
    rw [List.length_take,List.length_drop]
    omega
  have hout : (src.take (p+i.literals)).length=p+i.literals := List.length_take_of_le (by omega)
  unfold execute
  rw [if_pos (by rw [List.length_append]; omega),List.take_left' hlength,List.drop_left' hlength,
    ←List.take_add]
  dsimp only
  rcases hd with ⟨hnone,rfl⟩|⟨hsome,hd,hpos,hreach⟩
  · rw [if_pos hnone,hnone,Nat.add_zero]
  · rw [if_neg (by omega),hd,if_pos ⟨hpos,by rw [hout]; exact hreach⟩,
      copyMatch_take hpos hreach hp hrepeats,Option.map_some]

/-- What an instruction that is read leads to. -/
theorem leads_instruction {n : ℕ} (hbyte : n<256) (hn : n≠6) {i : Instruction}
    (hread : ∀ rest, readFields n (fields++rest)=some (i,rest))
    (hp : p+i.literals+i.length≤ src.length)
    (hd : i.length=0 ∧ d'=d ∨ 0< i.length ∧ i.distance.getD d=d' ∧ 0<d' ∧ d'≤p+i.literals)
    (hrepeats : RepeatsFrom src d' (p+i.literals) i.length) :
    Leads src (UInt8.ofNat n::fields++(src.drop p).take i.literals) p d
      (p+i.literals+i.length) d' := by
  refine ⟨1,Nat.le_add_left 1 _,fun fuel rest => ?_⟩
  have htoNat : (UInt8.ofNat n).toNat=n := Nat.mod_eq_of_lt hbyte
  have hfirst : readByte (UInt8.ofNat n::fields++(src.drop p).take i.literals++rest)=
      some (n,fields++((src.drop p).take i.literals++rest)) := by
    rw [List.append_assoc,List.cons_append]
    exact congrArg some (Prod.ext htoNat rfl)
  rw [decodeFrom,hfirst,Option.bind_some]
  dsimp only
  rw [if_neg hn,hread,Option.bind_some]
  dsimp only
  rw [execute_spec hp hd hrepeats,Option.bind_some]

end Leads

section Words

/-- A word is read back. -/
theorem readWord_leBytes {x : ℕ} (h : x<2^16) (rest : List UInt8) :
    readWord (leBytes 2 x++rest)=some (x,rest) := by
  have hlength : (leBytes 2 x).length=2 := leBytes_length 2 x
  unfold readWord
  rw [if_pos (by rw [List.length_append]; omega),List.take_left' hlength,List.drop_left' hlength,
    leValue_leBytes_of_lt h]

/-- The next byte is read back. -/
theorem readByte_cons {x : ℕ} (h : x<256) (rest : List UInt8) :
    readByte (UInt8.ofNat x::rest)=some (x,rest) :=
  congrArg some (Prod.ext (Nat.mod_eq_of_lt h) rfl)

/-- A word of two fields is their bytes. -/
theorem leBytes_pair {x : ℕ} (hx : x<256) (y : ℕ) :
    leBytes 2 (x+y<<<8)=[UInt8.ofNat x,UInt8.ofNat y] := by
  have hlow : (x+y*2^8)%256=x := by omega
  have hhigh : (x+y*2^8)/256=y := by omega
  rw [Nat.shiftLeft_eq]
  simp only [leBytes]
  rw [hhigh]
  congr 1
  apply UInt8.toNat_inj.mp
  change (x+y*2^8)%256=x%256
  omega

end Words

section Parts
variable {src : List UInt8} {p d l m : ℕ}

/-- Few literals, in one instruction. -/
theorem leads_fewLiterals (hl : 0<l) (hmax : l≤15) (hp : p+l≤ src.length) :
    Leads src (UInt8.ofNat (0xE0+l)::(src.drop p).take l) p d (p+l) d := by
  refine @leads_instruction src [] p d d (0xE0+l) (by omega) (by omega) ⟨l,0,none⟩
    (fun rest => ?_) hp (.inl ⟨rfl,rfl⟩) (fun i hbad => absurd hbad (Nat.not_lt_zero i))
  unfold readFields
  rw [if_neg (by omega),if_pos (by omega),if_neg (by omega),Nat.add_sub_cancel_left]
  rfl

/-- Many literals, in one instruction. -/
theorem leads_manyLiterals (hl : 15<l) (hmax : l≤271) (hp : p+l≤ src.length) :
    Leads src (leBytes 2 (0xE0+(l-16)<<<8)++(src.drop p).take l) p d (p+l) d := by
  rw [leBytes_pair (by decide)]
  refine @leads_instruction src [UInt8.ofNat (l-16)] p d d 0xE0 (by decide) (by decide) ⟨l,0,none⟩
    (fun rest => ?_) hp (.inl ⟨rfl,rfl⟩) (fun i hbad => absurd hbad (Nat.not_lt_zero i))
  unfold readFields
  rw [if_neg (by decide),if_pos (by decide),if_pos rfl,List.singleton_append,
    readByte_cons (by omega),Option.map_some]
  dsimp only
  rw [Nat.sub_add_cancel (by omega)]

/-- A short match at the distance before. -/
theorem leads_fewMatch (hm : 0< m) (hmax : m≤15) (hp : p+m≤ src.length) (hd : 0<d) (hreach : d≤p)
    (hrepeats : RepeatsFrom src d p m) :
    Leads src [UInt8.ofNat (0xF0+m)] p d (p+m) d := by
  refine @leads_instruction src [] p d d (0xF0+m) (by omega) (by omega) ⟨0,m,none⟩
    (fun rest => ?_) hp (.inr ⟨hm,rfl,hd,hreach⟩) hrepeats
  unfold readFields
  rw [if_pos (by omega),if_neg (by omega),Nat.add_sub_cancel_left]
  rfl

/-- A long match at the distance before. -/
theorem leads_manyMatch (hm : 15< m) (hmax : m≤271) (hp : p+m≤ src.length) (hd : 0<d) (hreach : d≤p)
    (hrepeats : RepeatsFrom src d p m) :
    Leads src (leBytes 2 (0xf0+(m-16)<<<8)) p d (p+m) d := by
  rw [leBytes_pair (by decide)]
  refine @leads_instruction src [UInt8.ofNat (m-16)] p d d 0xF0 (by decide) (by decide) ⟨0,m,none⟩
    (fun rest => ?_) hp (.inr ⟨by dsimp only; omega,rfl,hd,hreach⟩) hrepeats
  unfold readFields
  rw [if_pos (by decide),if_pos rfl,List.singleton_append,readByte_cons (by omega),Option.map_some]
  dsimp only
  rw [Nat.sub_add_cancel (by omega)]

/-- What is written leads on. -/
def Writes (src q q' : List UInt8) (p d p' d' : ℕ) : Prop :=
  ∃ bytes, q'=q++bytes ∧ Leads src bytes p d p' d'

/-- Nothing is written. -/
theorem writes_nil (src q : List UInt8) (p d : ℕ) : Writes src q q p d p d :=
  ⟨[],(List.append_nil q).symm,leads_nil src p d⟩

/-- Instructions that lead on are written. -/
theorem Leads.writes {bytes : List UInt8} {p' d' : ℕ} (h : Leads src bytes p d p' d')
    (q : List UInt8) : Writes src q (q++bytes) p d p' d' := ⟨bytes,rfl,h⟩

/-- More is written. -/
theorem Writes.trans {q q' q'' : List UInt8} {p' p'' d' d'' : ℕ} (h : Writes src q q' p d p' d')
    (hnext : Writes src q' q'' p' d' p'' d'') : Writes src q q'' p d p'' d'' := by
  obtain ⟨first,rfl,hfirst⟩ := h
  obtain ⟨second,rfl,hsecond⟩ := hnext
  exact ⟨first++second,List.append_assoc _ _ _,hfirst.append hsecond⟩

end Parts

section Emitted
variable {room : ℕ} {src q : List UInt8} {p d dPrev l m : ℕ}

/-- Many literals are written, and few are left. -/
theorem emitLong_spec (hp : p+l≤ src.length) {r : ℕ×List UInt8×List UInt8}
    (h : emitLong room l (src.drop p) q=some r) :
    ∃ n, n+r.1=l ∧ r.1≤15 ∧ r.2.1=src.drop (p+n) ∧ Writes src q r.2.2 p d (p+n) d := by
  induction l using Nat.strong_induction_on generalizing p q with
  | _ l ih =>
    rw [emitLong] at h
    dsimp only at h
    by_cases hlong : 15<l
    · obtain ⟨x,hx⟩ : ∃ x, x=if l<271 then l else 271 := ⟨_,rfl⟩
      have hbounds : 15<x ∧ x≤271 ∧ x≤l := by
        rw [hx]
        split <;> omega
      rw [if_pos hlong,←hx] at h
      obtain ⟨_,h⟩ := Option.ite_none_left_eq_some.mp h
      rw [List.drop_drop] at h
      obtain ⟨n,hn,hfew,hleft,hwrites⟩ := ih (l-x) (by omega) (by omega) h
      refine ⟨x+n,by omega,hfew,by rw [hleft,Nat.add_assoc],?_⟩
      have hpart := @leads_manyLiterals src p d x hbounds.1 hbounds.2.1 (by omega)
      have hfirst := hpart.writes q
      rw [←List.append_assoc] at hfirst
      rw [←Nat.add_assoc]
      exact hfirst.trans hwrites
    · rw [if_neg hlong] at h
      obtain rfl := Option.some.inj h
      exact ⟨0,Nat.zero_add l,Nat.le_of_not_lt hlong,rfl,writes_nil src q p d⟩

/-- Literals are written. -/
theorem emitLiteral_spec (hp : p+l≤ src.length) {q' : List UInt8}
    (h : emitLiteral room l (src.drop p) q=some q') : Writes src q q' p d (p+l) d := by
  unfold emitLiteral at h
  obtain ⟨r,hlong,h⟩ := Option.bind_eq_some_iff.mp h
  obtain ⟨n,hn,hfew,hleft,hwrites⟩ := @emitLong_spec room src q p d l hp r hlong
  by_cases hsome : 0<r.1
  · rw [if_pos hsome] at h
    obtain ⟨_,h⟩ := Option.ite_none_left_eq_some.mp h
    obtain rfl := Option.some.inj h
    rw [hleft,←hn,←Nat.add_assoc]
    exact hwrites.trans ((leads_fewLiterals hsome hfew (by omega)).writes r.2.2)
  · rw [if_neg hsome] at h
    obtain rfl := Option.some.inj h
    rw [show p+l=p+n by omega]
    exact hwrites

/-- The rest of a match is written. -/
theorem emitRest_spec (hp : p+m≤ src.length) (hd : 0<d) (hreach : d≤p)
    (hrepeats : RepeatsFrom src d p m) {q' : List UInt8} (h : emitRest room m q=some q') :
    Writes src q q' p d (p+m) d := by
  induction m using Nat.strong_induction_on generalizing p q with
  | _ m ih =>
    rw [emitRest] at h
    dsimp only at h
    by_cases hlong : 15< m
    · obtain ⟨x,hx⟩ : ∃ x, x=if m<271 then m else 271 := ⟨_,rfl⟩
      have hbounds : 15<x ∧ x≤271 ∧ x≤ m := by
        rw [hx]
        split <;> omega
      rw [if_pos hlong,←hx] at h
      obtain ⟨_,h⟩ := Option.ite_none_left_eq_some.mp h
      have hrest := ih (m-x) (by omega) (by omega) (by omega) (hrepeats.drop x) h
      rw [show p+x+(m-x)=p+m by omega] at hrest
      exact ((leads_manyMatch hbounds.1 hbounds.2.1 (by omega) hd hreach
        (hrepeats.take hbounds.2.2)).writes q).trans hrest
    · rw [if_neg hlong] at h
      by_cases hsome : 0< m
      · rw [if_pos hsome] at h
        obtain ⟨_,h⟩ := Option.ite_none_left_eq_some.mp h
        obtain rfl := Option.some.inj h
        exact (leads_fewMatch hsome (by omega) hp hd hreach hrepeats).writes q
      · rw [if_neg hsome] at h
        obtain rfl := Option.some.inj h
        rw [show p+m=p by omega]
        exact writes_nil src q p d

section Instructions
variable {x : ℕ}

/-- Few literals and a match at the distance before. -/
theorem leads_previous (hsome : 0<l) (hl : l<4) (hx : x+2*l≤7) (hp : p+l+(x+3)≤ src.length)
    (hd : 0<d) (hreach : d≤p+l) (hrepeats : RepeatsFrom src d (p+l) (x+3)) :
    Leads src (UInt8.ofNat (l*64+x*8+6)::(src.drop p).take l) p d (p+l+(x+3)) d := by
  refine @leads_instruction src [] p d d (l*64+x*8+6) (by omega) (by omega) ⟨l,x+3,none⟩
    (fun rest => ?_) hp (.inr ⟨Nat.succ_pos _,rfl,hd,hreach⟩) hrepeats
  unfold readFields
  rw [if_neg (by omega),if_neg (by omega),if_neg (by omega),if_neg (by omega),if_neg (by omega),
    if_pos (by omega),if_neg (by omega),show (l*64+x*8+6)/64=l by omega,show (l*64+x*8+6)/8%8=x by omega]
  rfl

/-- Few literals and a match whose distance has its high bits in the opcode. -/
theorem leads_shortDistance (hl : l<4) (hx : x+2*l≤7) (hp : p+l+(x+3)≤ src.length) (hd : 0<d)
    (hshort : d<2048-2*256) (hreach : d≤p+l) (hrepeats : RepeatsFrom src d (p+l) (x+3)) :
    Leads src (UInt8.ofNat (d/256+l*64+x*8)::UInt8.ofNat (d%256)::(src.drop p).take l) p dPrev
      (p+l+(x+3)) d := by
  refine @leads_instruction src [UInt8.ofNat (d%256)] p dPrev d (d/256+l*64+x*8) (by omega)
    (by omega) ⟨l,x+3,some d⟩ (fun rest => ?_) hp (.inr ⟨Nat.succ_pos _,rfl,hd,hreach⟩) hrepeats
  unfold readFields
  rw [if_neg (by omega),if_neg (by omega),if_neg (by omega),if_neg (by omega),if_neg (by omega),
    if_neg (by omega),List.singleton_append,readByte_cons (by omega),Option.map_some]
  dsimp only
  rw [show (d/256+l*64+x*8)/64=l by omega,show (d/256+l*64+x*8)/8%8=x by omega,
    show (d/256+l*64+x*8)%8*256+d%256=d by omega]

/-- Few literals and a match whose distance is a word of its own. -/
theorem leads_longDistance (hl : l<4) (hx : x+2*l≤7) (hp : p+l+(x+3)≤ src.length) (hd : 0<d)
    (hnear : d<2^16) (hreach : d≤p+l) (hrepeats : RepeatsFrom src d (p+l) (x+3)) :
    Leads src (UInt8.ofNat (l*64+x*8+7)::(leBytes 2 d++(src.drop p).take l)) p dPrev
      (p+l+(x+3)) d := by
  refine @leads_instruction src (leBytes 2 d) p dPrev d (l*64+x*8+7) (by omega) (by omega)
    ⟨l,x+3,some d⟩ (fun rest => ?_) hp (.inr ⟨Nat.succ_pos _,rfl,hd,hreach⟩) hrepeats
  unfold readFields
  rw [if_neg (by omega),if_neg (by omega),if_neg (by omega),if_neg (by omega),if_pos (by omega),
    readWord_leBytes hnear,Option.map_some]
  dsimp only
  rw [show (l*64+x*8+7)/64=l by omega,show (l*64+x*8+7)/8%8=x by omega]

/-- Few literals and a match whose distance shares a word with the low bits of its length. -/
theorem leads_mediumDistance (hl : l<4) (hx : x≤31) (hp : p+l+(x+3)≤ src.length) (hd : 0<d)
    (hmedium : d<2^14) (hreach : d≤p+l) (hrepeats : RepeatsFrom src d (p+l) (x+3)) :
    Leads src (UInt8.ofNat (0xA0+x/4+l*8)::(leBytes 2 (d*4+x%4)++(src.drop p).take l)) p dPrev
      (p+l+(x+3)) d := by
  refine @leads_instruction src (leBytes 2 (d*4+x%4)) p dPrev d (0xA0+x/4+l*8) (by omega)
    (by omega) ⟨l,x+3,some d⟩ (fun rest => ?_) hp (.inr ⟨Nat.succ_pos _,rfl,hd,hreach⟩) hrepeats
  unfold readFields
  rw [if_neg (by omega),if_neg (by omega),if_pos (by omega),readWord_leBytes (by omega),
    Option.map_some]
  dsimp only
  rw [show (0xA0+x/4+l*8)/8%4=l by omega,show (0xA0+x/4+l*8)%8*4+(d*4+x%4)%4+3=x+3 by omega,
    show (d*4+x%4)/4=d by omega]

/-- What the instruction of few literals and a match leads to. -/
theorem instruction_spec (hl : l<4) (hx : x+2*l≤7) (hp : p+l+(x+3)+m≤ src.length)
    (hd : 0<d) (hnear : d<2^16) (hreach : d≤p+l) (hrepeats : RepeatsFrom src d (p+l) (x+3+m)) :
    (instruction l x m d dPrev).2≤ m ∧
      Leads src ((instruction l x m d dPrev).1++(src.drop p).take l) p dPrev
        (p+l+(x+3)+(m-(instruction l x m d dPrev).2)) d := by
  have hfirst : RepeatsFrom src d (p+l) (x+3) := hrepeats.take (by omega)
  have hend : p+l+(x+3)≤ src.length := by omega
  have hlow : l<<<6=l*64 ∧ x<<<3=x*8 := ⟨Nat.shiftLeft_eq l 6,Nat.shiftLeft_eq x 3⟩
  unfold instruction
  rw [hlow.1,hlow.2]
  by_cases hprev : d=dPrev
  · rw [if_pos hprev]
    obtain rfl := hprev
    by_cases hnone : l=0
    · rw [if_pos hnone]
      obtain rfl := hnone
      refine ⟨Nat.le_refl m,?_⟩
      rw [Nat.sub_self,List.take_zero,List.append_nil]
      exact leads_fewMatch (by omega) (by omega) hend hd hreach hfirst
    · rw [if_neg hnone]
      refine ⟨Nat.le_refl m,?_⟩
      rw [Nat.sub_self]
      exact leads_previous (Nat.pos_of_ne_zero hnone) hl hx hend hd hreach hfirst
  · rw [if_neg hprev]
    by_cases hshort : d<2048-2*256
    · have hhigh : d>>>8=d/256 := Nat.shiftRight_eq_div_pow d 8
      have hmask : d&&&0xFF=d%256 := Nat.and_two_pow_sub_one_eq_mod d 8
      rw [if_pos hshort,hhigh,hmask]
      refine ⟨Nat.le_refl m,?_⟩
      rw [Nat.sub_self]
      exact leads_shortDistance hl hx hend hd hshort hreach hfirst
    · rw [if_neg hshort]
      by_cases hlong : 2^14≤d ∨ m=0 ∨ 34<x+3+m
      · rw [if_pos hlong]
        refine ⟨Nat.le_refl m,?_⟩
        rw [Nat.sub_self]
        exact leads_longDistance hl hx hend hd hnear hreach hfirst
      · have hword : d<<<2|||(x+m)&&&3=d*4+(x+m)%4 := by
          rw [show (x+m)&&&3=(x+m)%4 from Nat.and_two_pow_sub_one_eq_mod (x+m) 2,Nat.shiftLeft_eq,
            Nat.mul_comm d (2^2),←Nat.two_pow_add_eq_or_of_lt (Nat.mod_lt _ (by decide)),
            Nat.mul_comm (2^2) d]
        have hopcode : 0xA0+(x+m)>>>2+l<<<3=0xA0+(x+m)/4+l*8 := by
          rw [Nat.shiftRight_eq_div_pow,Nat.shiftLeft_eq]
        have hwhole : x+3+m=x+m+3 := by omega
        rw [if_neg hlong]
        refine ⟨Nat.zero_le m,?_⟩
        rw [Nat.sub_zero]
        dsimp only
        rw [hword,hopcode,Nat.add_assoc (p+l),hwhole]
        rw [hwhole] at hrepeats
        exact leads_mediumDistance hl (by omega) (by omega) hd (by omega) hreach hrepeats

end Instructions

/-- A match and the literals before it are written. -/
theorem emit_spec (hm : 3≤ m) (hp : p+l+m≤ src.length) (hd : 0<d) (hnear : d<2^16) (hreach : d≤p+l)
    (hrepeats : RepeatsFrom src d (p+l) m) {q' : List UInt8}
    (h : emit room l m d dPrev (src.drop p) q=some q') : Writes src q q' p dPrev (p+l+m) d := by
  unfold emit at h
  obtain ⟨r,hlong,h⟩ := Option.bind_eq_some_iff.mp h
  obtain ⟨n,hn,hfew,hleft,hwrites⟩ := @emitLong_spec room src q p dPrev l (by omega) r hlong
  obtain ⟨s,hs,h⟩ := Option.bind_eq_some_iff.mp h
  obtain ⟨k,hk,hfour,hdrop,hbefore⟩ : ∃ k, k+s.1=l ∧ s.1<4 ∧ s.2.1=src.drop (p+k) ∧
      Writes src q s.2.2 p dPrev (p+k) dPrev := by
    by_cases hsome : 3<r.1
    · rw [if_pos hsome] at hs
      obtain ⟨_,hs⟩ := Option.ite_none_left_eq_some.mp hs
      obtain rfl := Option.some.inj hs
      refine ⟨l,Nat.add_zero l,Nat.zero_lt_succ 3,?_,?_⟩
      · dsimp only
        rw [hleft,List.drop_drop,Nat.add_assoc,hn]
      · rw [hleft,←hn,←Nat.add_assoc]
        exact hwrites.trans ((leads_fewLiterals (by omega) hfew (by omega)).writes r.2.2)
    · rw [if_neg hsome] at hs
      obtain rfl := Option.some.inj hs
      exact ⟨n,hn,by omega,hleft,hwrites⟩
  dsimp only at h
  obtain ⟨x,hx⟩ : ∃ x, x=if m≤10-2*s.1 then m else 10-2*s.1 := ⟨_,rfl⟩
  have hbounds : 3≤x ∧ x≤ m ∧ x-3+2*s.1≤7 := by
    rw [hx]
    split <;> omega
  rw [←hx] at h
  obtain ⟨_,h⟩ := Option.ite_none_left_eq_some.mp h
  obtain ⟨hle,hcode⟩ := @instruction_spec src (p+k) d dPrev s.1 (m-x) (x-3) hfour hbounds.2.2
    (by omega) hd hnear (by omega) (by
      rw [Nat.add_assoc p,hk,show x-3+3+(m-x)=m by omega]
      exact hrepeats)
  rw [Nat.add_assoc p,hk] at hcode
  rw [hdrop,List.append_assoc] at h
  have hdone : p+l+(x-3+3)+(m-x-(instruction s.1 (x-3) (m-x) d dPrev).2)+
      (instruction s.1 (x-3) (m-x) d dPrev).2=p+l+m := by omega
  have hrest := @emitRest_spec room src _ (p+l+(x-3+3)+(m-x-(instruction s.1 (x-3) (m-x) d dPrev).2))
    d (instruction s.1 (x-3) (m-x) d dPrev).2 (by omega) hd (by omega) (by
    have hpart := hrepeats.drop (m-(instruction s.1 (x-3) (m-x) d dPrev).2)
    rw [show m-(m-(instruction s.1 (x-3) (m-x) d dPrev).2)=
      (instruction s.1 (x-3) (m-x) d dPrev).2 by omega,
      show p+l+(m-(instruction s.1 (x-3) (m-x) d dPrev).2)=
        p+l+(x-3+3)+(m-x-(instruction s.1 (x-3) (m-x) d dPrev).2) by omega] at hpart
    exact hpart) q' h
  rw [hdone] at hrest
  exact (hbefore.trans (hcode.writes s.2.2)).trans hrest

end Emitted

end Applesauce.LzvnCodec
