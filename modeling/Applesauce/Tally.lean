import Mathlib.Algebra.BigOperators.Group.List.Basic
import Mathlib.Algebra.GroupWithZero.Nat

/-!
# Totals over a list that is updated in place

A weight assigns a number to every element. The total of the weights moves
by the difference of two weights when one element is replaced, and by one
weight when an element is appended.
-/

namespace Applesauce.Tally

variable {α : Type*}

/-- The total weight of a list. -/
def tally (weight : α→ℕ) (xs : List α) : ℕ := (xs.map weight).sum

/-- The weight that counts the elements with a property. -/
def indicator (p : α→Prop) [DecidablePred p] (x : α) : ℕ := if p x then 1 else 0

@[simp]
theorem tally_nil (weight : α→ℕ) : tally weight []=0 := rfl

@[simp]
theorem tally_cons (weight : α→ℕ) (x : α) (xs : List α) :
    tally weight (x::xs)=weight x+tally weight xs := List.sum_cons

/-- An appended element adds its weight. -/
@[simp]
theorem tally_snoc (weight : α→ℕ) (xs : List α) (x : α) :
    tally weight (xs++[x])=tally weight xs+weight x := by
  unfold tally
  rw [List.map_append,List.sum_append,List.map_singleton,List.sum_singleton]

/-- Replacing an element replaces its weight. -/
theorem tally_set (weight : α→ℕ) {xs : List α} {i : ℕ} {old : α} (new : α) (h : xs[i]?=some old) :
    tally weight (xs.set i new)+weight old=tally weight xs+weight new := by
  induction xs generalizing i with
  | nil => cases h
  | cons x xs ih =>
    cases i with
    | zero =>
      obtain rfl := Option.some.inj h
      rw [List.set_cons_zero,tally_cons,tally_cons]
      omega
    | succ i =>
      have hrest := ih h
      rw [List.set_cons_succ,tally_cons,tally_cons]
      omega

/-- A replacement of the same weight does not change the total. -/
theorem tally_set_same {weight : α→ℕ} {xs : List α} {i : ℕ} {old new : α} (h : xs[i]?=some old)
    (hsame : weight new=weight old) : tally weight (xs.set i new)=tally weight xs := by
  have hset := tally_set weight new h
  omega

/-- Every element is part of the total. -/
theorem le_tally (weight : α→ℕ) {xs : List α} {i : ℕ} {x : α} (h : xs[i]?=some x) :
    weight x≤tally weight xs := by
  induction xs generalizing i with
  | nil => cases h
  | cons y ys ih =>
    cases i with
    | zero =>
      obtain rfl := Option.some.inj h
      rw [tally_cons]
      exact Nat.le_add_right _ _
    | succ i =>
      rw [tally_cons]
      exact Nat.le_trans (ih h) (Nat.le_add_left _ _)

/-- The total is zero exactly when every weight is. -/
theorem tally_eq_zero_iff {weight : α→ℕ} {xs : List α} :
    tally weight xs=0 ↔ ∀ x∈xs, weight x=0 := by
  induction xs with
  | nil => exact ⟨fun _ x hx => (List.not_mem_nil hx).elim,fun _ => rfl⟩
  | cons x xs ih =>
    rw [tally_cons,Nat.add_eq_zero_iff,ih,List.forall_mem_cons]

/-- A smaller weight has a smaller total. -/
theorem tally_mono {weight other : α→ℕ} {xs : List α} (h : ∀ x∈xs, weight x≤other x) :
    tally weight xs≤tally other xs := by
  induction xs with
  | nil => exact Nat.le_refl 0
  | cons x xs ih =>
    obtain ⟨hx,hxs⟩ := List.forall_mem_cons.mp h
    rw [tally_cons,tally_cons]
    exact Nat.add_le_add hx (ih hxs)

/-- Weights that agree on the list have the same total. -/
theorem tally_congr {weight other : α→ℕ} {xs : List α} (h : ∀ x∈xs, weight x=other x) :
    tally weight xs=tally other xs :=
  Nat.le_antisymm (tally_mono fun x hx => Nat.le_of_eq (h x hx)) (tally_mono fun x hx => Nat.le_of_eq (h x hx).symm)

section Indicators
variable {p : α→Prop} [DecidablePred p]

/-- An element with the property counts one. -/
theorem indicator_of {x : α} (h : p x) : indicator p x=1 := if_pos h

/-- An element without the property counts nothing. -/
theorem indicator_of_not {x : α} (h : ¬p x) : indicator p x=0 := if_neg h

/-- Two elements with properties that agree count the same. -/
theorem indicator_congr {β : Type*} {q : β→Prop} [DecidablePred q] {x : α} {y : β} (h : p x ↔ q y) :
    indicator p x=indicator q y := by
  unfold indicator
  simp only [h]

/-- No element is counted exactly when none has the property. -/
theorem tally_indicator_eq_zero_iff {xs : List α} :
    tally (indicator p) xs=0 ↔ ∀ x∈xs, ¬p x := by
  rw [tally_eq_zero_iff]
  refine forall₂_congr fun x _ => ?_
  unfold indicator
  split
  · exact ⟨fun h => (Nat.one_ne_zero h).elim,fun h => (h ‹_›).elim⟩
  · exact ⟨fun _ => ‹_›,fun _ => rfl⟩

end Indicators

/-- What holds of every element still holds after one is replaced by another it holds of. -/
theorem forall_mem_set {p : α→Prop} {xs : List α} {i : ℕ} {new : α} (h : ∀ x∈xs, p x)
    (hnew : p new) : ∀ x∈xs.set i new, p x := by
  intro x hx
  rcases List.mem_or_eq_of_mem_set hx with hold|rfl
  · exact h x hold
  · exact hnew

/-- An element of the list after a replacement is the new one or an old one at another place. -/
theorem getElem?_set_cases {xs : List α} {i j : ℕ} {new x : α} (h : (xs.set i new)[j]?=some x) :
    (j=i ∧ x=new) ∨ (j≠i ∧ xs[j]?=some x) := by
  by_cases hij : i=j
  · subst hij
    obtain ⟨hlt,hget⟩ := List.getElem?_eq_some_iff.mp h
    rw [List.getElem_set_self] at hget
    exact Or.inl ⟨rfl,hget.symm⟩
  · rw [List.getElem?_set_ne hij] at h
    exact Or.inr ⟨fun hji => hij hji.symm,h⟩

/-- An element of a list with one more is an old one, or the new one at the end. -/
theorem getElem?_snoc_cases {xs : List α} {j : ℕ} {new x : α} (h : (xs++[new])[j]?=some x) :
    xs[j]?=some x ∨ (j=xs.length ∧ x=new) := by
  by_cases hlt : j<xs.length
  · rw [List.getElem?_append_left hlt] at h
    exact Or.inl h
  · have hle := Nat.le_of_not_lt hlt
    rw [List.getElem?_append_right hle] at h
    obtain ⟨hj,hx⟩ := List.getElem?_eq_some_iff.mp h
    rw [List.length_singleton] at hj
    simp only [List.getElem_singleton] at hx
    exact Or.inr ⟨by omega,hx.symm⟩

/-- What a replacement keeps of an element is kept of the list. -/
theorem map_set_same {β : Type*} {φ : α→β} {xs : List α} {i : ℕ} {old new : α}
    (h : xs[i]?=some old) (hsame : φ new=φ old) : (xs.set i new).map φ=xs.map φ := by
  rw [List.map_set,hsame]
  obtain ⟨hlt,rfl⟩ := List.getElem?_eq_some_iff.mp h
  have hmap : i<(xs.map φ).length := by
    rw [List.length_map]
    exact hlt
  have hget : (xs.map φ)[i]=φ xs[i] := List.getElem_map φ
  rw [←hget,List.set_getElem_self]

end Applesauce.Tally
