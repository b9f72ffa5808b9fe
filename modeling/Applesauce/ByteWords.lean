import Mathlib.Tactic.Ring
import Mathlib.Data.List.Basic

/-!
# Fixed-width byte words

Little-endian and big-endian words of any width, with both directions of
the round trip. A word of width `k` holds its value modulo `256^k`; every
byte list of length `k` is the word of exactly one value below `256^k`.
-/

namespace Applesauce.ByteWords

/-- The low `k` bytes of a value, least significant first. -/
def leBytes : ℕ→ℕ→List UInt8
  | 0,_ => []
  | k+1,n => UInt8.ofNat n::leBytes k (n/256)

/-- The value of a byte list, least significant first. -/
def leValue : List UInt8→ℕ
  | [] => 0
  | b::bs => b.toNat+256*leValue bs

/-- The low `k` bytes of a value, most significant first. -/
def beBytes (k n : ℕ) : List UInt8 := (leBytes k n).reverse

@[simp] theorem leBytes_length (k n : ℕ) : (leBytes k n).length=k := by
  induction k generalizing n with
  | zero => rfl
  | succ k ih => simp only [leBytes,List.length_cons,ih]

@[simp] theorem beBytes_length (k n : ℕ) : (beBytes k n).length=k := by
  simp only [beBytes,List.length_reverse,leBytes_length]

/-- A word of width `k` decodes to its value modulo `256^k`. -/
theorem leValue_leBytes (k n : ℕ) : leValue (leBytes k n)=n%256^k := by
  induction k generalizing n with
  | zero => simp only [leBytes,leValue,pow_zero,Nat.mod_one]
  | succ k ih =>
    have hb : (UInt8.ofNat n).toNat=n%256 := rfl
    simp only [leBytes,leValue,ih,hb]
    rw [pow_succ',Nat.mod_mul]

/-- A value in range is recovered from its word. -/
theorem leValue_leBytes_of_lt {k n : ℕ} (h : n<256^k) : leValue (leBytes k n)=n := by
  rw [leValue_leBytes,Nat.mod_eq_of_lt h]

/-- A byte list is the word of its value. -/
theorem leBytes_leValue (bs : List UInt8) : leBytes bs.length (leValue bs)=bs := by
  induction bs with
  | nil => rfl
  | cons b bs ih =>
    have hb : b.toNat<256 := b.toNat_lt
    have hlow : UInt8.ofNat (b.toNat+256*leValue bs)=b := by
      apply UInt8.toNat_inj.mp
      simp
    have hhigh : (b.toNat+256*leValue bs)/256=leValue bs := by omega
    simp only [leValue,List.length_cons,leBytes,hlow,hhigh,ih]

/-- A byte list decodes below the bound of its width. -/
theorem leValue_lt (bs : List UInt8) : leValue bs<256^bs.length := by
  induction bs with
  | nil => simp only [leValue,List.length_nil,pow_zero,Nat.lt_one_iff]
  | cons b bs ih =>
    have hb : b.toNat<256 := b.toNat_lt
    simp only [leValue,List.length_cons,pow_succ']
    omega

end Applesauce.ByteWords
