import Mathlib.Tactic.NormNum

/-!
# Symbols of lengths and distances

A length of literals, a length of a match and a distance are each coded as a
symbol and the bits that are added to its base. The tables of
`lzfse_encode_tables.h` have the symbol of every value that the encoder has a
base for.
-/

namespace Applesauce.Lzfse

section Tables

/-- `LZFSE_ENCODE_MAX_L_VALUE`. -/
def maxLValue : ℕ := 315

/-- `LZFSE_ENCODE_MAX_M_VALUE`. -/
def maxMValue : ℕ := 2359

/-- `LZFSE_ENCODE_MAX_D_VALUE`. -/
def maxDValue : ℕ := 262139

/-- `l_extra_bits`. -/
def lExtraBits : List ℕ := [0,0,0,0,0,0,0,0,0,0,0,0,0,0,0,0,2,3,5,8]

/-- `l_base_value`. -/
def lBaseValue : List ℕ := [0,1,2,3,4,5,6,7,8,9,10,11,12,13,14,15,16,20,28,60]

/-- `m_extra_bits`. -/
def mExtraBits : List ℕ := [0,0,0,0,0,0,0,0,0,0,0,0,0,0,0,0,3,5,8,11]

/-- `m_base_value`. -/
def mBaseValue : List ℕ := [0,1,2,3,4,5,6,7,8,9,10,11,12,13,14,15,16,24,56,312]

/-- `d_extra_bits`. -/
def dExtraBits : List ℕ := [0,0,0,0,1,1,1,1,2,2,2,2,3,3,3,3,
  4,4,4,4,5,5,5,5,6,6,6,6,7,7,7,7,
  8,8,8,8,9,9,9,9,10,10,10,10,11,11,11,11,
  12,12,12,12,13,13,13,13,14,14,14,14,15,15,15,15]

/-- `d_base_value`. -/
def dBaseValue : List ℕ := [0,1,2,3,4,6,8,10,12,16,
  20,24,28,36,44,52,60,76,92,108,
  124,156,188,220,252,316,380,444,508,636,
  764,892,1020,1276,1532,1788,2044,2556,3068,3580,
  4092,5116,6140,7164,8188,10236,12284,14332,16380,20476,
  24572,28668,32764,40956,49148,57340,65532,81916,98300,114684,
  131068,163836,196604,229372]

/-- `l_base_from_value`, whose table has the symbols in runs; a larger value has no place in it. -/
def lBaseFromValue (value : ℕ) : Option ℕ :=
  (List.range 16++List.replicate 4 16++List.replicate 8 17++List.replicate 32 18++
    List.replicate 256 19)[value]?

/-- `m_base_from_value`. -/
def mBaseFromValue (value : ℕ) : Option ℕ :=
  (List.range 16++List.replicate 8 16++List.replicate 32 17++List.replicate 256 18++
    List.replicate 2048 19)[value]?

/-- The table of `d_base_from_value`. -/
def dSymbols : List ℕ := [
  0,1,2,3,4,4,5,5,6,6,7,7,8,8,8,8,9,9,9,9,10,10,10,10,11,11,11,11,12,12,12,12,12,12,12,12,
  13,13,13,13,13,13,13,13,14,14,14,14,14,14,14,14,15,15,15,15,15,15,15,15,
  16,16,16,16,16,17,18,19,20,20,21,21,22,22,23,23,24,24,24,24,25,25,25,25,26,26,26,26,
  27,27,27,27,28,28,28,28,28,28,28,28,29,29,29,29,29,29,29,29,30,30,30,30,30,30,30,30,
  31,31,31,31,31,31,31,31,
  32,32,32,32,32,33,34,35,36,36,37,37,38,38,39,39,40,40,40,40,41,41,41,41,42,42,42,42,
  43,43,43,43,44,44,44,44,44,44,44,44,45,45,45,45,45,45,45,45,46,46,46,46,46,46,46,46,
  47,47,47,47,47,47,47,47,
  48,48,48,48,48,49,50,51,52,52,53,53,54,54,55,55,56,56,56,56,57,57,57,57,58,58,58,58,
  59,59,59,59,60,60,60,60,60,60,60,60,61,61,61,61,61,61,61,61,62,62,62,62,62,62,62,62,
  63,63,63,63,63,63,63,63,0,0,0,0]

/-- `d_base_from_value`: every range of values has its part of the table. -/
def dBaseFromValue (value : ℕ) : Option ℕ :=
  let index := (if value<60 then value else 0)|||
    (if 60≤value ∧ value<1020 then (value-60)>>>4+64 else 0)|||
    (if 1020≤value ∧ value<16380 then (value-1020)>>>8+128 else 0)|||
    (if 16380≤value ∧ value<262140 then (value-16380)>>>12+192 else 0)
  dSymbols[index&&&255]?

end Tables

section Symbols

/-- A value is the base of its symbol and a number of the symbol's bits. -/
def Splits (symbol : Option ℕ) (extraBits baseValue : List ℕ) (value : ℕ) : Prop :=
  ∃ a bits base, symbol=some a ∧ extraBits[a]?=some bits ∧ baseValue[a]?=some base ∧
    base≤value ∧ value<base+2^bits

/-- A symbol and its bits and base are in the tables. -/
theorem splits_iff {symbol : Option ℕ} {extraBits baseValue : List ℕ} {value : ℕ} :
    (∃ a∈symbol, ∃ bits∈extraBits[a]?, ∃ base∈baseValue[a]?, base≤value ∧ value<base+2^bits) ↔
      Splits symbol extraBits baseValue value := by
  simp [Splits]

instance (symbol : Option ℕ) (extraBits baseValue : List ℕ) (value : ℕ) :
    Decidable (Splits symbol extraBits baseValue value) := decidable_of_iff _ splits_iff

/-- The symbol in the last run of a table. -/
theorem getElem?_run {a run low value : ℕ} {before : List ℕ} (hbefore : before.length=low)
    (hlow : low≤value) (hhigh : value<low+run) : (before++List.replicate run a)[value]?=some a := by
  rw [List.getElem?_append_right (by rw [hbefore]; exact hlow),List.getElem?_replicate,
    if_pos (by rw [hbefore]; omega)]

/-- Every length of literals that the encoder uses has its symbol. -/
theorem lBaseFromValue_splits {l : ℕ} (h : l≤ maxLValue) :
    Splits (lBaseFromValue l) lExtraBits lBaseValue l := by
  have hsmall : ∀ l<60, Splits (lBaseFromValue l) lExtraBits lBaseValue l := by decide
  unfold maxLValue at h
  by_cases hl : l<60
  · exact hsmall l hl
  · refine ⟨19,8,60,?_,rfl,rfl,by omega,by omega⟩
    exact @getElem?_run 19 256 60 l _ rfl (by omega) (by omega)

/-- Every length of a match that the encoder uses has its symbol. -/
theorem mBaseFromValue_splits {m : ℕ} (h : m≤ maxMValue) :
    Splits (mBaseFromValue m) mExtraBits mBaseValue m := by
  have hsmall : ∀ m<56, Splits (mBaseFromValue m) mExtraBits mBaseValue m := by decide
  unfold maxMValue at h
  by_cases hm : m<56
  · exact hsmall m hm
  by_cases hrun : m<312
  · refine ⟨18,8,56,?_,rfl,rfl,by omega,by omega⟩
    unfold mBaseFromValue
    rw [List.getElem?_append_left (by
      simp only [List.length_append,List.length_range,List.length_replicate]
      omega)]
    exact @getElem?_run 18 256 56 m _ rfl (by omega) (by omega)
  · refine ⟨19,11,312,?_,rfl,rfl,by omega,by omega⟩
    refine @getElem?_run 19 2048 312 m _ ?_ (by omega) (by omega)
    simp only [List.length_append,List.length_range,List.length_replicate]

/-- All values of one place in the table of distances. -/
def PlaceSplits (shift low part i : ℕ) : Prop :=
  ∃ a bits base, dSymbols[i+part]?=some a ∧ dExtraBits[a]?=some bits ∧ dBaseValue[a]?=some base ∧
    base≤low+i*2^shift ∧ low+(i+1)*2^shift≤base+2^bits

/-- The symbol of a place and its bits and base are in the tables. -/
theorem placeSplits_iff {shift low part i : ℕ} :
    (∃ a∈dSymbols[i+part]?, ∃ bits∈dExtraBits[a]?, ∃ base∈dBaseValue[a]?,
      base≤low+i*2^shift ∧ low+(i+1)*2^shift≤base+2^bits) ↔ PlaceSplits shift low part i := by
  simp [PlaceSplits]

instance (shift low part i : ℕ) : Decidable (PlaceSplits shift low part i) :=
  decidable_of_iff _ placeSplits_iff

/-- A value in such a place. -/
theorem PlaceSplits.splits {shift low part d : ℕ} (hlow : low≤d)
    (h : PlaceSplits shift low part ((d-low)>>>shift)) :
    Splits dSymbols[(d-low)>>>shift+part]? dExtraBits dBaseValue d := by
  obtain ⟨a,bits,base,ha,hbits,hbase,hfirst,hlast⟩ := h
  rw [Nat.shiftRight_eq_div_pow] at ha hfirst hlast ⊢
  have hpos : 0<2^shift := Nat.two_pow_pos shift
  have hdown := Nat.div_mul_le_self (d-low) (2^shift)
  have hup : d-low<((d-low)/2^shift+1)*2^shift :=
    (Nat.div_lt_iff_lt_mul hpos).mp (Nat.lt_succ_self _)
  exact ⟨a,bits,base,ha,hbits,hbase,by omega,by omega⟩

/-- Every distance that the encoder uses has its symbol. -/
theorem dBaseFromValue_splits {d : ℕ} (h : d≤ maxDValue) :
    Splits (dBaseFromValue d) dExtraBits dBaseValue d := by
  have hplaces : ∀ i<60, PlaceSplits 0 0 0 i ∧ PlaceSplits 4 60 64 i ∧ PlaceSplits 8 1020 128 i ∧
      PlaceSplits 12 16380 192 i := by decide
  have hbound : ∀ shift x : ℕ, x<60*2^shift → x>>>shift<60 := by
    intro shift x hx
    rw [Nat.shiftRight_eq_div_pow]
    exact Nat.div_lt_of_lt_mul (by rw [Nat.mul_comm]; exact hx)
  have hmask : ∀ x<256, x&&&255=x := by
    intro x hx
    rw [show 255=2^8-1 from rfl,Nat.and_two_pow_sub_one_eq_mod,Nat.mod_eq_of_lt hx]
  unfold maxDValue at h
  unfold dBaseFromValue
  by_cases hfirst : d<60
  · simp only [hfirst,show ¬(60≤d ∧ d<1020) by omega,show ¬(1020≤d ∧ d<16380) by omega,
      show ¬(16380≤d ∧ d<262140) by omega,if_true,if_false,Nat.or_zero]
    rw [hmask d (by omega)]
    exact @PlaceSplits.splits 0 0 0 d (Nat.zero_le d) (hplaces d hfirst).1
  by_cases hsecond : d<1020
  · have hplace := hbound 4 (d-60) (by omega)
    simp only [hfirst,show 60≤d ∧ d<1020 by omega,show ¬(1020≤d ∧ d<16380) by omega,
      show ¬(16380≤d ∧ d<262140) by omega,and_self,if_true,if_false,Nat.or_zero,Nat.zero_or]
    rw [hmask _ (by omega)]
    exact PlaceSplits.splits (by omega) (hplaces _ hplace).2.1
  by_cases hthird : d<16380
  · have hplace := hbound 8 (d-1020) (by omega)
    simp only [hfirst,show ¬(60≤d ∧ d<1020) by omega,show 1020≤d ∧ d<16380 by omega,
      show ¬(16380≤d ∧ d<262140) by omega,and_self,if_true,if_false,Nat.or_zero,Nat.zero_or]
    rw [hmask _ (by omega)]
    exact PlaceSplits.splits (by omega) (hplaces _ hplace).2.2.1
  · have hplace := hbound 12 (d-16380) (by omega)
    simp only [hfirst,show ¬(60≤d ∧ d<1020) by omega,show ¬(1020≤d ∧ d<16380) by omega,
      show 16380≤d ∧ d<262140 by omega,and_self,if_true,if_false,Nat.or_zero,Nat.zero_or]
    rw [hmask _ (by omega)]
    exact PlaceSplits.splits (by omega) (hplaces _ hplace).2.2.2

end Symbols

end Applesauce.Lzfse
