import Applesauce.BitStack
import Applesauce.Fse

/-!
# The streams are a stack of bits

What an output stream has written and what it still holds are the bits of a
stack, and so are what an input stream holds and what is before its pointer.
Pushing and pulling are the operations of the stack; flushing only moves
bits between a stream and its buffer.
-/

namespace Applesauce.Fse

open ByteWords BitStack

section Words

/-- A number in another place is added. -/
theorem or_shiftLeft {x b m : ℕ} (hx : x<2^m) : x|||b<<< m=x+2^m*b := by
  rw [Nat.shiftLeft_eq,Nat.mul_comm,Nat.or_comm,←Nat.two_pow_add_eq_or_of_lt hx,Nat.add_comm]

/-- A number within its bits has none above them. -/
theorem shiftRight_eq_zero {x m : ℕ} (hx : x<2^m) : x>>>m=0 := by
  rw [Nat.shiftRight_eq_div_pow,Nat.div_eq_of_lt hx]

/-- The first bytes of a word. -/
theorem take_leBytes (k c x : ℕ) (h : c≤k) : (leBytes k x).take c=leBytes c x := by
  induction c generalizing k x with
  | zero => rw [List.take_zero]; rfl
  | succ c ih =>
    obtain ⟨k,rfl⟩ := Nat.exists_eq_succ_of_ne_zero (Nat.ne_of_gt (Nat.lt_of_lt_of_le c.succ_pos h))
    rw [leBytes,List.take_succ_cons,ih k _ (Nat.le_of_succ_le_succ h),leBytes]

/-- The first bytes of a word hold its low part. -/
theorem leValue_take {c x : ℕ} (h : c≤8) : leValue ((leBytes 8 x).take c)=x%2^(8*c) := by
  have hpow : 2^(8*c)=256^c := by rw [pow_mul]; rfl
  rw [take_leBytes 8 c x h,leValue_leBytes,hpow]

/-- A word has so many bytes. -/
theorem length_take {c x : ℕ} (h : c≤8) : ((leBytes 8 x).take c).length=c := by
  rw [take_leBytes 8 c x h,leBytes_length]

end Words

section Output
variable {s : OutStream} {buf : OutBuffer} {t : Stack} {n b : ℕ}

/-- The bits of a stack are written or in the stream. -/
structure OutStream.Holds (s : OutStream) (buf : OutBuffer) (t : Stack) : Prop where
  /-- Their number. -/
  height : t.height=8*buf.written.length+s.accumNbits
  /-- The bits. -/
  value : t.value=leValue buf.written+2^(8*buf.written.length)*s.accum
  /-- Those in the stream. -/
  accum_lt : s.accum<2^s.accumNbits

/-- The bytes of a buffer as a stack. -/
def ofBytes (bytes : List UInt8) : Stack := ⟨leValue bytes,8*bytes.length,leValue_lt_pow bytes⟩

/-- A new stream holds what is in the buffer. -/
theorem OutStream.holds_init (buf : OutBuffer) : OutStream.init.Holds buf (ofBytes buf.written) where
  height := rfl
  value := rfl
  accum_lt := Nat.one_pos

/-- Bits are pushed onto the stack. -/
theorem OutStream.Holds.push (h : s.Holds buf t) (hb : b<2^n) (hroom : s.accumNbits+n<64) :
    ∃ s', s.push n b=some s' ∧ s'.Holds buf (t.push n b hb) ∧ s'.accumNbits=s.accumNbits+n := by
  have hlt : s.accumNbits<64 := by omega
  have hsum : s.accum+2^s.accumNbits*b<2^(s.accumNbits+n) := add_mul_lt h.accum_lt hb
  have hpow : 2^(s.accumNbits+n)≤2^64 := Nat.pow_le_pow_right Nat.two_pos (Nat.le_of_lt hroom)
  have hword : word64 (b<<<s.accumNbits)=b<<<s.accumNbits := by
    refine Nat.mod_eq_of_lt ?_
    rw [Nat.shiftLeft_eq,Nat.mul_comm]
    omega
  have haccum : s.accum|||word64 (b<<<s.accumNbits)=s.accum+2^s.accumNbits*b := by
    rw [hword,or_shiftLeft h.accum_lt]
  refine ⟨⟨s.accum+2^s.accumNbits*b,s.accumNbits+n⟩,?_,⟨?_,?_,hsum⟩,rfl⟩
  · unfold OutStream.push
    rw [if_pos hlt]
    dsimp only
    rw [haccum,if_pos ⟨Nat.le_of_lt hroom,.inr (shiftRight_eq_zero hsum)⟩]
  · change t.height+n=8*buf.written.length+(s.accumNbits+n)
    rw [h.height,Nat.add_assoc]
  · change t.value+2^t.height*b=_
    rw [h.value,h.height,pow_add]
    ring

/-- Eight bytes are stored where there is room for them. -/
theorem store_eq (x count : ℕ) (hroom : buf.written.length+8≤buf.room) :
    buf.store x count=some {buf with written := buf.written++(leBytes 8 x).take count} :=
  if_pos hroom

/-- Flushing writes the full bytes. -/
theorem OutStream.Holds.flush (h : s.Holds buf t) (hlt : s.accumNbits<64)
    (hroom : buf.written.length+8≤buf.room) : ∃ s' buf', s.flush buf=some (s',buf') ∧
      s'.Holds buf' t ∧ s'.accumNbits≤7 ∧ buf'.room=buf.room ∧
      (∃ tail, buf'.written=buf.written++tail) ∧
      8*buf'.written.length+s'.accumNbits=8*buf.written.length+s.accumNbits := by
  obtain ⟨q,hq⟩ : ∃ q, q=s.accumNbits/8 := ⟨_,rfl⟩
  have hq8 : q≤8 := by omega
  have hcount : (q*8)>>>3=q := by
    rw [Nat.shiftRight_eq_div_pow]
    omega
  have hle : 8*q≤ s.accumNbits := by omega
  have hrest : s.accum>>>(q*8)<2^(s.accumNbits-q*8) := by
    rw [Nat.shiftRight_eq_div_pow,Nat.div_lt_iff_lt_mul (Nat.two_pow_pos _),←pow_add,
      Nat.sub_add_cancel (by omega)]
    exact h.accum_lt
  have hlength : (buf.written++(leBytes 8 s.accum).take q).length=buf.written.length+q := by
    rw [List.length_append,length_take hq8]
  refine ⟨⟨s.accum>>>(q*8),s.accumNbits-q*8⟩,
    {buf with written := buf.written++(leBytes 8 s.accum).take q},?_,⟨?_,?_,hrest⟩,?_,rfl,
    ⟨_,rfl⟩,?_⟩
  · unfold OutStream.flush
    dsimp only
    rw [←hq,hcount,store_eq _ _ hroom,Option.bind_some,if_pos ⟨by omega,by omega,shiftRight_eq_zero hrest⟩]
  · change t.height=8*(buf.written++(leBytes 8 s.accum).take q).length+(s.accumNbits-q*8)
    rw [h.height,hlength]
    omega
  · rw [h.value,hlength,leValue_append,leValue_take hq8,Nat.mul_add,pow_add,
      Nat.shiftRight_eq_div_pow,Nat.mul_comm q 8]
    have hdiv := Nat.mod_add_div s.accum (2^(8*q))
    rw [Nat.mul_assoc,Nat.add_assoc,←Nat.mul_add,hdiv]
  · dsimp only
    omega
  · dsimp only
    rw [hlength]
    omega

/-- Finishing writes all bits. -/
theorem OutStream.Holds.finish (h : s.Holds buf t) (hlt : s.accumNbits<64)
    (hroom : buf.written.length+8≤buf.room) : ∃ n buf', s.finish buf=some (n,buf') ∧
      leValue buf'.written=t.value ∧ (t.height : ℤ)=8*buf'.written.length+n ∧ -7≤n ∧ n≤0 ∧
      buf'.room=buf.room ∧ (∃ tail, buf'.written=buf.written++tail) ∧
      8*buf'.written.length≤8*buf.written.length+s.accumNbits+7 := by
  obtain ⟨q,hq⟩ : ∃ q, q=(s.accumNbits+7)/8 := ⟨_,rfl⟩
  have hq8 : q≤8 := by omega
  have hcount : (q*8)>>>3=q := by
    rw [Nat.shiftRight_eq_div_pow]
    omega
  have hlength : (buf.written++(leBytes 8 s.accum).take q).length=buf.written.length+q := by
    rw [List.length_append,length_take hq8]
  have hfits : s.accum%2^(8*q)=s.accum :=
    Nat.mod_eq_of_lt (Nat.lt_of_lt_of_le h.accum_lt (Nat.pow_le_pow_right Nat.two_pos (by omega)))
  refine ⟨s.accumNbits-(q*8 : ℕ),{buf with written := buf.written++(leBytes 8 s.accum).take q},?_,
    ?_,?_,by omega,by omega,rfl,⟨_,rfl⟩,?_⟩
  · unfold OutStream.finish
    dsimp only
    rw [←hq,hcount,store_eq _ _ hroom,Option.bind_some,if_pos ⟨by omega,by omega⟩]
  · dsimp only
    rw [leValue_append,leValue_take hq8,hfits,h.value]
  · dsimp only
    rw [hlength,h.height]
    omega
  · dsimp only
    rw [hlength]
    omega

end Output

section Input
variable {s : InStream} {buf : List UInt8} {t : Stack} {n : ℕ}

/-- The bits of a stack are in the stream or before the pointer. -/
structure InStream.Holds (s : InStream) (buf : List UInt8) (t : Stack) : Prop where
  /-- Their number. -/
  height : t.height=8*buf.length+s.accumNbits
  /-- The bits. -/
  value : t.value=leValue buf+2^(8*buf.length)*s.accum
  /-- Those in the stream. -/
  accum_lt : s.accum<2^s.accumNbits

/-- What going back over some bytes loads. -/
theorem loadBack_eq {count : ℕ} (h : count≤buf.length) : ∃ rest x, loadBack buf count=some (rest,x) ∧
    rest.length+count=buf.length ∧ x<2^(8*count) ∧
    leValue buf=leValue rest+2^(8*rest.length)*x := by
  have hdrop : (buf.drop (buf.length-count)).length=count := by
    rw [List.length_drop]
    omega
  have hlt := leValue_lt_pow (buf.drop (buf.length-count))
  rw [hdrop] at hlt
  refine ⟨_,_,if_pos h,?_,hlt,?_⟩
  · rw [List.length_take]
    omega
  · rw [←leValue_append,List.take_append_drop]

/-- A stream is opened at the end of what was written. -/
theorem InStream.holds_checkedInit {n : ℤ} (hvalue : leValue buf=t.value)
    (hheight : (t.height : ℤ)=8*buf.length+n) (hlow : -7≤n) (hhigh : n≤0) (hlong : 57≤t.height) :
    ∃ s rest, InStream.checkedInit n buf=some (s,rest) ∧ s.Holds rest t ∧
      56≤ s.accumNbits ∧ s.accumNbits≤63 := by
  have hopen : ∀ count : ℕ, count≤buf.length → 56≤n+8*count → n+8*count<64 →
      (if n≠0 then 8 else 7)=count → ∃ s rest, InStream.checkedInit n buf=some (s,rest) ∧
        s.Holds rest t ∧ 56≤ s.accumNbits ∧ s.accumNbits≤63 := by
    intro count hle hge hlt hcount
    obtain ⟨rest,x,hload,hlength,hx,hsum⟩ := loadBack_eq hle
    have hbits : 8*rest.length+(n+8*count).toNat=t.height := by omega
    have hpos := Nat.two_pow_pos (8*rest.length)
    have hxlt : x<2^(n+8*count).toNat := by
      have hall := t.value_lt
      rw [←hvalue,hsum,←hbits,pow_add] at hall
      by_contra hbad
      have hmul := Nat.mul_le_mul_left (2^(8*rest.length)) (Nat.le_of_not_lt hbad)
      omega
    refine ⟨⟨x,(n+8*count).toNat⟩,rest,?_,⟨hbits.symm,?_,hxlt⟩,?_,?_⟩
    · unfold InStream.checkedInit
      dsimp only
      rw [hcount,hload,Option.bind_some]
      dsimp only
      rw [if_pos ⟨hge,hlt,shiftRight_eq_zero hxlt⟩]
    · rw [←hvalue,hsum]
    · dsimp only
      omega
    · dsimp only
      omega
  by_cases hn : n=0
  · exact hopen 7 (by omega) (by omega) (by omega) (by simp [hn])
  · exact hopen 8 (by omega) (by omega) (by omega) (by simp [hn])

/-- Flushing fills the stream. -/
theorem InStream.Holds.checkedFlush (h : s.Holds buf t) (hlt : s.accumNbits≤63)
    (hlong : 63≤t.height) : ∃ s' rest, s.checkedFlush buf=some (s',rest) ∧ s'.Holds rest t ∧
      56≤ s'.accumNbits ∧ s'.accumNbits≤63 := by
  obtain ⟨q,hq⟩ : ∃ q, q=(63-s.accumNbits)/8 := ⟨_,rfl⟩
  have hcount : (q*8)>>>3=q := by
    rw [Nat.shiftRight_eq_div_pow]
    omega
  have hheight := h.height
  obtain ⟨rest,x,hload,hlength,hx,hsum⟩ := @loadBack_eq buf q (by omega)
  have hx' : x<2^(q*8) := by rwa [Nat.mul_comm]
  have hsumlt : x+2^(q*8)*s.accum<2^(q*8+s.accumNbits) := add_mul_lt hx' h.accum_lt
  have hpow : 2^(q*8+s.accumNbits)≤2^64 := Nat.pow_le_pow_right Nat.two_pos (by omega)
  have hword : word64 (s.accum<<<(q*8))=s.accum<<<(q*8) := by
    refine Nat.mod_eq_of_lt ?_
    rw [Nat.shiftLeft_eq,Nat.mul_comm]
    omega
  have haccum : word64 (s.accum<<<(q*8))|||x=x+2^(q*8)*s.accum := by
    rw [hword,Nat.or_comm,or_shiftLeft hx']
  have hnew : x+2^(q*8)*s.accum<2^(s.accumNbits+q*8) := by
    rw [Nat.add_comm s.accumNbits]
    exact hsumlt
  refine ⟨⟨x+2^(q*8)*s.accum,s.accumNbits+q*8⟩,rest,?_,⟨?_,?_,hnew⟩,?_,?_⟩
  · unfold InStream.checkedFlush
    dsimp only
    rw [←hq,hcount,hload,Option.bind_some]
    dsimp only
    rw [haccum,if_pos ⟨by omega,by omega,shiftRight_eq_zero hnew⟩]
  · dsimp only
    omega
  · dsimp only
    rw [h.value,hsum,←hlength,Nat.mul_add,pow_add,Nat.mul_comm q 8]
    ring
  · dsimp only
    omega
  · dsimp only
    omega

/-- Bits are pulled from the stack. -/
theorem InStream.Holds.pull (h : s.Holds buf t) (hn : n≤ s.accumNbits) :
    ∃ s', s.pull n=some (t.top n,s') ∧ s'.Holds buf (t.pop n) ∧ s'.accumNbits+n=s.accumNbits := by
  have hheight : t.height-n=8*buf.length+(s.accumNbits-n) := by
    rw [h.height]
    omega
  have hlow := leValue_lt_pow buf
  have htop : t.top n=s.accum>>>(s.accumNbits-n) := by
    unfold Stack.top
    rw [hheight,h.value,pow_add,←Nat.div_div_eq_div_mul,Nat.add_mul_div_left _ _ (Nat.two_pow_pos _),
      Nat.div_eq_of_lt hlow,Nat.zero_add,Nat.shiftRight_eq_div_pow]
  refine ⟨⟨maskLsb s.accum (s.accumNbits-n),s.accumNbits-n⟩,?_,⟨hheight,?_,?_⟩,?_⟩
  · unfold InStream.pull
    rw [if_pos hn,htop]
  · change t.value%2^(t.height-n)=_
    rw [hheight,h.value,pow_add,Nat.mod_mul]
    unfold maskLsb
    rw [Nat.add_mul_mod_self_left,Nat.mod_eq_of_lt hlow,
      Nat.add_mul_div_left _ _ (Nat.two_pow_pos _),Nat.div_eq_of_lt hlow,Nat.zero_add]
  · exact Nat.mod_lt _ (Nat.two_pow_pos _)
  · dsimp only
    omega

end Input

end Applesauce.Fse
