import Applesauce.BitStack
import Mathlib.Data.Nat.Log

/-!
# Slots for the states of a coder

There are `2^n` states, and a symbol has `f` of them as its slots. The
numbers from `2^n` up to `2^(n+1)` are cut into `f` runs, each of a length
that is a power of two, of at most two lengths: a state is one of these
numbers, its slot the run it is in, and the rest of it so many bits. A slot
and these bits give the state back. The slots of all symbols lie one behind
the other, and a slot is the next state.
-/

namespace Applesauce.StateSlots

open BitStack

/-- The number of bits of the longer runs. -/
def shift (n f : ℕ) : ℕ := n-Nat.log2 f

/-- The number of bits that go with a state. -/
def bits (n f s : ℕ) : ℕ := if f*2^shift n f≤2^n+s then shift n f else shift n f-1

/-- The slot of a state, counted from `f`. -/
def slot (n f s : ℕ) : ℕ := (2^n+s)/2^bits n f s

/-- The number of bits that go with a slot. -/
def slotBits (n f y : ℕ) : ℕ := if y<2^(n+1-shift n f) then shift n f else shift n f-1

/-- The first state of a slot. -/
def slotBase (n f y : ℕ) : ℕ := y*2^slotBits n f y-2^n

section Slots
variable {n f s : ℕ}

/-- The longer runs are no more than enough. -/
theorem shift_bounds (hpos : 0<f) (hle : f≤2^n) :
    shift n f≤n ∧ 2^n≤f*2^shift n f ∧ f*2^shift n f<2^(n+1) := by
  have hne : f≠0 := Nat.ne_of_gt hpos
  have hlog : 2^Nat.log2 f≤f := Nat.log2_self_le hne
  have hlt : f<2^(Nat.log2 f+1) := Nat.lt_log2_self
  have hn : Nat.log2 f≤n := by
    by_contra hbad
    have hpow := Nat.pow_le_pow_right Nat.two_pos (Nat.lt_of_not_le hbad)
    have hdouble : 2^(n+1)=2*2^n := pow_succ' 2 n
    have htwo := Nat.two_pow_pos n
    omega
  have hsplit : 2^Nat.log2 f*2^shift n f=2^n := by
    rw [←pow_add]
    congr 1
    unfold shift
    omega
  refine ⟨Nat.sub_le _ _,?_,?_⟩
  · rw [←hsplit]
    exact Nat.mul_le_mul_right _ hlog
  · have hpow : 2^(n+1)=2^(Nat.log2 f+1)*2^shift n f := by
      rw [pow_succ',pow_succ',Nat.mul_assoc,hsplit]
    rw [hpow]
    exact Nat.mul_lt_mul_of_pos_right hlt (Nat.two_pow_pos _)

/-- Where the shorter runs are used, there is a bit to spare. -/
theorem shift_pos (hpos : 0<f) (hle : f≤2^n) (h : ¬f*2^shift n f≤2^n+s) : 0<shift n f := by
  obtain ⟨_,hlow,_⟩ := shift_bounds hpos hle
  rcases Nat.eq_zero_or_pos (shift n f) with hzero|hk
  · exfalso
    rw [hzero,pow_zero,Nat.mul_one] at h
    omega
  · exact hk

/-- The bits of a state are at most those of the number of states. -/
theorem bits_le (hpos : 0<f) (hle : f≤2^n) : bits n f s≤n := by
  obtain ⟨hk,_,_⟩ := shift_bounds hpos hle
  unfold bits
  split <;> omega

/-- There are `f` slots. -/
theorem slot_bounds (hpos : 0<f) (hle : f≤2^n) (hs : s<2^n) :
    f≤ slot n f s ∧ slot n f s<2*f := by
  obtain ⟨_,hlow,hhigh⟩ := shift_bounds hpos hle
  have hdouble : 2^(n+1)=2*2^n := pow_succ' 2 n
  unfold slot
  rw [Nat.le_div_iff_mul_le (Nat.two_pow_pos _),Nat.div_lt_iff_lt_mul (Nat.two_pow_pos _)]
  unfold bits
  split
  · next hlong =>
    refine ⟨hlong,?_⟩
    rw [Nat.mul_assoc]
    omega
  · next hshort =>
    obtain ⟨k,hk⟩ := Nat.exists_eq_succ_of_ne_zero (Nat.ne_of_gt (shift_pos hpos hle hshort))
    rw [hk] at hlow hhigh hshort ⊢
    have hpow : f*2^(k+1)=2*(f*2^k) := by rw [pow_succ']; ring
    rw [Nat.succ_eq_add_one,Nat.add_sub_cancel]
    rw [Nat.succ_eq_add_one,hpow] at hhigh hshort
    rw [Nat.mul_assoc]
    omega

/-- The slot of a state knows the number of its bits. -/
theorem slotBits_slot (hpos : 0<f) (hle : f≤2^n) (hs : s<2^n) :
    slotBits n f (slot n f s)=bits n f s := by
  obtain ⟨hk,hlow,hhigh⟩ := shift_bounds hpos hle
  have hdouble : 2^(n+1)=2*2^n := pow_succ' 2 n
  have hsplit : 2^(n+1-shift n f)*2^shift n f=2^(n+1) := by
    rw [←pow_add]
    congr 1
    omega
  by_cases hlong : f*2^shift n f≤2^n+s
  · have hbits : bits n f s=shift n f := if_pos hlong
    have hlt : slot n f s<2^(n+1-shift n f) := by
      unfold slot
      rw [hbits,Nat.div_lt_iff_lt_mul (Nat.two_pow_pos _),hsplit]
      omega
    unfold slotBits
    rw [if_pos hlt,hbits]
  · have hbits : bits n f s=shift n f-1 := if_neg hlong
    have hpositive := shift_pos hpos hle hlong
    have hge : ¬slot n f s<2^(n+1-shift n f) := by
      unfold slot
      rw [hbits,Nat.div_lt_iff_lt_mul (Nat.two_pow_pos _),←pow_add]
      have hexp : n+1-shift n f+(shift n f-1)=n := by omega
      rw [hexp]
      omega
    unfold slotBits
    rw [if_neg hge,hbits]

/-- A state is the first of its slot and its bits. -/
theorem slotBase_slot (hpos : 0<f) (hle : f≤2^n) (hs : s<2^n) :
    slotBase n f (slot n f s)+s%2^bits n f s=s := by
  have hbits := bits_le (n := n) (s := s) hpos hle
  have hdvd : 2^bits n f s∣2^n := pow_dvd_pow 2 hbits
  have hmod : (2^n+s)%2^bits n f s=s%2^bits n f s := by
    obtain ⟨c,hc⟩ := hdvd
    rw [hc,Nat.mul_add_mod]
  have hdiv := Nat.div_add_mod' (2^n+s) (2^bits n f s)
  rw [hmod] at hdiv
  have hrest : s%2^bits n f s≤ s := Nat.mod_le _ _
  have hslot : slot n f s*2^bits n f s+s%2^bits n f s=2^n+s := hdiv
  unfold slotBase
  rw [slotBits_slot hpos hle hs]
  omega

/-- No run begins before the first state or ends behind the last. -/
theorem slotBase_bounds {y : ℕ} (hpos : 0<f) (hle : f≤2^n) (hlow : f≤y) (hhigh : y<2*f) :
    2^n≤y*2^slotBits n f y ∧ y*2^slotBits n f y<2^(n+1) := by
  obtain ⟨hk,hlong,hshort⟩ := shift_bounds hpos hle
  have hdouble : 2^(n+1)=2*2^n := pow_succ' 2 n
  have hsplit : 2^(n+1-shift n f)*2^shift n f=2^(n+1) := by
    rw [←pow_add]
    congr 1
    omega
  unfold slotBits
  split
  · next hy =>
    refine ⟨Nat.le_trans hlong (Nat.mul_le_mul_right _ hlow),?_⟩
    rw [←hsplit]
    exact Nat.mul_lt_mul_of_pos_right hy (Nat.two_pow_pos _)
  · next hy =>
    rcases Nat.eq_zero_or_pos (shift n f) with hzero|hpositive
    · rw [hzero,pow_zero,Nat.mul_one] at hlong
      rw [hzero,Nat.sub_zero] at hy
      omega
    · obtain ⟨k,hsucc⟩ := Nat.exists_eq_succ_of_ne_zero (Nat.ne_of_gt hpositive)
      rw [hsucc,Nat.succ_eq_add_one] at hshort hy hk hsplit ⊢
      rw [Nat.add_sub_cancel]
      have hexp : n+1-(k+1)=n-k := by omega
      have hall : 2^(n-k)*2^k=2^n := by
        rw [←pow_add]
        congr 1
        omega
      rw [hexp] at hy
      refine ⟨?_,?_⟩
      · rw [←hall]
        exact Nat.mul_le_mul_right _ (Nat.le_of_not_lt hy)
      · refine Nat.lt_of_lt_of_le (Nat.mul_lt_mul_of_pos_right hhigh (Nat.two_pow_pos k)) ?_
        rw [pow_succ'] at hshort
        have hassoc : 2*f*2^k=f*(2*2^k) := by ring
        omega

/-- No slot has more bits than there are for a state. -/
theorem slotBits_le (hpos : 0<f) (hle : f≤2^n) (y : ℕ) : slotBits n f y≤n := by
  obtain ⟨hk,_,_⟩ := shift_bounds hpos hle
  unfold slotBits
  split <;> omega

end Slots

section Symbols

/-- The symbol a slot belongs to, with its frequency and the number of the slot among its own. -/
def locate : List ℕ→ℕ→Option (ℕ×ℕ×ℕ)
  | [],_ => none
  | f::freq,s => if s<f then some (0,f,s) else (locate freq (s-f)).map fun r => (r.1+1,r.2)

/-- The slots of a symbol lie behind those of the symbols before it. -/
theorem locate_eq {freq : List ℕ} {a f j : ℕ} (h : freq[a]?=some f) (hj : j<f) :
    locate freq ((freq.take a).sum+j)=some (a,f,j) := by
  induction freq generalizing a with
  | nil => cases h
  | cons g freq ih =>
    cases a with
    | zero =>
      obtain rfl := Option.some.inj h
      unfold locate
      rw [List.take_zero,List.sum_nil,Nat.zero_add,if_pos hj]
    | succ a =>
      have hrest := ih h
      unfold locate
      rw [List.take_succ_cons,List.sum_cons,if_neg (by omega),Nat.add_assoc,Nat.add_sub_cancel_left,
        hrest]
      rfl

/-- The symbol of a slot has it. -/
theorem locate_some {freq : List ℕ} {s : ℕ} {r : ℕ×ℕ×ℕ} (h : locate freq s=some r) :
    freq[r.1]?=some r.2.1 ∧ r.2.2<r.2.1 := by
  induction freq generalizing s r with
  | nil => cases h
  | cons g freq ih =>
    unfold locate at h
    split at h
    · next hs =>
      obtain rfl := Option.some.inj h
      exact ⟨rfl,hs⟩
    · obtain ⟨q,hq,rfl⟩ := Option.map_eq_some_iff.mp h
      exact ih hq

/-- The slots of a symbol are among all slots. -/
theorem take_sum_add_le {freq : List ℕ} {a f : ℕ} (h : freq[a]?=some f) :
    (freq.take a).sum+f≤freq.sum := by
  induction freq generalizing a with
  | nil => cases h
  | cons g freq ih =>
    cases a with
    | zero =>
      obtain rfl := Option.some.inj h
      rw [List.take_zero,List.sum_nil,List.sum_cons]
      omega
    | succ a =>
      have hrest := ih h
      rw [List.take_succ_cons,List.sum_cons,List.sum_cons]
      omega

/-- The coder of symbols with their frequencies. -/
def symbolCoder (n : ℕ) (freq : List ℕ) (hsum : freq.sum≤2^n) : Coder ℕ ℕ where
  encode s a t := freq[a]?.bind fun f =>
    if 0<f ∧ s<2^n then
      some ((freq.take a).sum+(slot n f s-f),
        t.push (bits n f s) (s%2^bits n f s) (Nat.mod_lt _ (Nat.two_pow_pos _)))
    else none
  decode s t := (locate freq s).map fun r =>
    let y := r.2.1+r.2.2
    (r.1,slotBase n r.2.1 y+t.top (slotBits n r.2.1 y),t.pop (slotBits n r.2.1 y))
  decode_encode := by
    intro s s' a t t' h
    obtain ⟨f,hf,h⟩ := Option.bind_eq_some_iff.mp h
    obtain ⟨⟨hpos,hs⟩,h⟩ := Option.ite_none_right_eq_some.mp h
    obtain ⟨rfl,rfl⟩ := Prod.mk.inj (Option.some.inj h)
    have hle : f≤2^n := by
      have htake := take_sum_add_le hf
      omega
    obtain ⟨hlow,hhigh⟩ := slot_bounds hpos hle hs
    have hback : f+(slot n f s-f)=slot n f s := by omega
    rw [locate_eq hf (by omega),Option.map_some]
    dsimp only
    rw [hback,slotBits_slot hpos hle hs,Stack.top_push,Stack.pop_push,slotBase_slot hpos hle hs]
  height_le := by
    intro s s' a t t' h
    obtain ⟨f,_,h⟩ := Option.bind_eq_some_iff.mp h
    obtain ⟨_,h⟩ := Option.ite_none_right_eq_some.mp h
    obtain ⟨rfl,rfl⟩ := Prod.mk.inj (Option.some.inj h)
    exact Nat.le_add_right _ _

end Symbols

end Applesauce.StateSlots
