import Mathlib.Tactic.Ring

/-!
# Prefix codes

Every value has its own number of bits, and a reader of more bits than these
finds out from the low ones how many they are. Values that were written one
above the other are read one after the other, whatever is above them.
-/

namespace Applesauce.PrefixCode

/-- A code of the values of a domain. -/
structure Code (α : Type*) where
  /-- The values that have a code. -/
  domain : α→Prop
  /-- The bits of a value. -/
  bits : α→ℕ
  /-- Their number. -/
  width : α→ℕ
  /-- The value in the low bits and their number. -/
  read : ℕ→α×ℕ
  /-- There are no other bits. -/
  bits_lt : ∀ {a : α}, domain a → bits a<2^width a
  /-- A value is read below any others. -/
  read_bits : ∀ {a : α}, domain a → ∀ above, read (bits a+2^width a*above)=(a,width a)

section Lists
variable {α : Type*}

/-- The bits of a list, those of its first value lowest. -/
def Code.bitsAll (c : Code α) : List α→ℕ
  | [] => 0
  | a::as => c.bits a+2^c.width a*c.bitsAll as

/-- The number of bits of a list. -/
def Code.widthAll (c : Code α) : List α→ℕ
  | [] => 0
  | a::as => c.width a+c.widthAll as

/-- Read a number of values. -/
def Code.readAll (c : Code α) : ℕ→ℕ→List α
  | 0,_ => []
  | n+1,x => (c.read x).1::c.readAll n (x/2^(c.read x).2)

/-- A list is read below any others. -/
theorem Code.readAll_bitsAll (c : Code α) {as : List α} (h : ∀ a∈as, c.domain a) (above : ℕ) :
    c.readAll as.length (c.bitsAll as+2^c.widthAll as*above)=as := by
  induction as with
  | nil => rfl
  | cons a as ih =>
    obtain ⟨ha,has⟩ := List.forall_mem_cons.mp h
    have hsplit : c.bitsAll (a::as)+2^c.widthAll (a::as)*above=
        c.bits a+2^c.width a*(c.bitsAll as+2^c.widthAll as*above) := by
      rw [bitsAll,widthAll,pow_add]
      ring
    have hrest : (c.bits a+2^c.width a*(c.bitsAll as+2^c.widthAll as*above))/2^c.width a=
        c.bitsAll as+2^c.widthAll as*above := by
      rw [Nat.add_mul_div_left _ _ (Nat.two_pow_pos _),Nat.div_eq_of_lt (c.bits_lt ha),Nat.zero_add]
    rw [List.length_cons,hsplit]
    unfold readAll
    rw [c.read_bits ha,hrest,ih has]

end Lists

end Applesauce.PrefixCode
