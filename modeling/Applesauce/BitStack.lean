import Applesauce.ByteWords
import Mathlib.Tactic.NormNum

/-!
# Stacks of bits

Numbers of a given width are pushed and popped as a whole. The bits lie in
one number: what was pushed first is lowest. A coder turns a value into bits
on the stack and a new state, and its decoder takes both back; coders of
parts make coders of pairs and of lists, which are written from their end so
that they are read from their beginning.
-/

namespace Applesauce.BitStack

open ByteWords

/-- A stack of bits. -/
@[ext]
structure Stack where
  /-- The bits as one number. -/
  value : ℕ
  /-- How many there are. -/
  height : ℕ
  /-- There are no others. -/
  value_lt : value<2^height

/-- No bits. -/
def Stack.empty : Stack := ⟨0,0,Nat.one_pos⟩

/-- A number put above the others does not reach beyond its width. -/
theorem add_mul_lt {low b m n : ℕ} (hlow : low<2^m) (hb : b<2^n) : low+2^m*b<2^(m+n) := by
  rw [pow_add]
  calc low+2^m*b<2^m+2^m*b := Nat.add_lt_add_right hlow _
    _ = 2^m*(b+1) := by ring
    _ ≤ 2^m*2^n := Nat.mul_le_mul_left _ hb

/-- The `n` bits of `b` on top. -/
def Stack.push (t : Stack) (n b : ℕ) (h : b<2^n) : Stack :=
  ⟨t.value+2^t.height*b,t.height+n,add_mul_lt t.value_lt h⟩

/-- The `n` bits on top. -/
def Stack.top (t : Stack) (n : ℕ) : ℕ := t.value/2^(t.height-n)

/-- The stack without the `n` bits on top. -/
def Stack.pop (t : Stack) (n : ℕ) : Stack :=
  ⟨t.value%2^(t.height-n),t.height-n,Nat.mod_lt _ (Nat.two_pow_pos _)⟩

section Stacks
variable {t : Stack} {n m b : ℕ}

/-- The low part of a number with another above it. -/
theorem add_mul_mod {low b m : ℕ} (hlow : low<2^m) : (low+2^m*b)%2^m=low := by
  rw [Nat.add_mul_mod_self_left,Nat.mod_eq_of_lt hlow]

/-- The high part. -/
theorem add_mul_div {low b m : ℕ} (hlow : low<2^m) : (low+2^m*b)/2^m=b := by
  rw [Nat.add_mul_div_left _ _ (Nat.two_pow_pos m),Nat.div_eq_of_lt hlow,Nat.zero_add]

/-- What was pushed is on top. -/
theorem Stack.top_push (h : b<2^n) : (t.push n b h).top n=b := by
  unfold Stack.top Stack.push
  rw [Nat.add_sub_cancel]
  exact add_mul_div t.value_lt

/-- Below it is what was there before. -/
theorem Stack.pop_push (h : b<2^n) : (t.push n b h).pop n=t := by
  have hheight : t.height+n-n=t.height := Nat.add_sub_cancel _ _
  ext
  · change (t.value+2^t.height*b)%2^(t.height+n-n)=t.value
    rw [hheight]
    exact add_mul_mod t.value_lt
  · exact hheight

/-- So many bits are a number within them. -/
theorem Stack.top_lt (h : n≤t.height) : t.top n<2^n := by
  unfold Stack.top
  rw [Nat.div_lt_iff_lt_mul (Nat.two_pow_pos _),←pow_add,Nat.add_sub_cancel' h]
  exact t.value_lt

/-- Two numbers on top are one number, the first of them its high part. -/
theorem Stack.top_add (h : n+m≤t.height) :
    t.top (n+m)/2^m=t.top n ∧ t.top (n+m)%2^m=(t.pop n).top m := by
  have hheight : t.height-n=t.height-(n+m)+m := by omega
  have hrest : t.height-n-m=t.height-(n+m) := by omega
  unfold Stack.top Stack.pop
  dsimp only
  rw [hrest]
  refine ⟨?_,?_⟩
  · rw [Nat.div_div_eq_div_mul,←pow_add,←hheight]
  · rw [hheight,pow_add,Nat.mod_mul_right_div_self]

/-- Popping two numbers is popping both at once. -/
theorem Stack.pop_add (h : n+m≤t.height) : (t.pop n).pop m=t.pop (n+m) := by
  have hrest : t.height-n-m=t.height-(n+m) := by omega
  ext
  · change t.value%2^(t.height-n)%2^(t.height-n-m)=t.value%2^(t.height-(n+m))
    rw [hrest,Nat.mod_mod_of_dvd _ (pow_dvd_pow 2 (by omega))]
  · exact hrest

end Stacks

/-- A coder with its decoder. -/
structure Coder (σ α : Type*) where
  /-- A value changes the state and goes onto the stack. -/
  encode : σ→α→Stack→Option (σ×Stack)
  /-- A value comes from the state and the stack. -/
  decode : σ→Stack→Option (α×σ×Stack)
  /-- It is the one that was encoded last. -/
  decode_encode : ∀ {s s' : σ} {a : α} {t t' : Stack}, encode s a t=some (s',t') →
    decode s' t'=some (a,s,t)
  /-- Encoding only adds bits. -/
  height_le : ∀ {s s' : σ} {a : α} {t t' : Stack}, encode s a t=some (s',t') → t.height≤t'.height

section Coders
variable {σ τ α β : Type*}

/-- A coder of pairs, each part with its own state: the second goes onto the stack first. -/
def Coder.pair (c : Coder σ α) (d : Coder τ β) : Coder (σ×τ) (α×β) where
  encode s p t := (d.encode s.2 p.2 t).bind fun r =>
    (c.encode s.1 p.1 r.2).map fun q => ((q.1,r.1),q.2)
  decode s t := (c.decode s.1 t).bind fun r =>
    (d.decode s.2 r.2.2).map fun q => ((r.1,q.1),(r.2.1,q.2.1),q.2.2)
  decode_encode := by
    intro s s' p t t' h
    obtain ⟨r,hr,h⟩ := Option.bind_eq_some_iff.mp h
    obtain ⟨q,hq,h⟩ := Option.map_eq_some_iff.mp h
    obtain ⟨rfl,rfl⟩ := Prod.mk.inj h
    obtain ⟨s₂,t₂⟩ := r
    obtain ⟨s₁,t₁⟩ := q
    dsimp only at hq
    dsimp only
    rw [c.decode_encode hq]
    dsimp only [Option.bind_some]
    rw [d.decode_encode hr]
    rfl
  height_le := by
    intro s s' p t t' h
    obtain ⟨r,hr,h⟩ := Option.bind_eq_some_iff.mp h
    obtain ⟨q,hq,h⟩ := Option.map_eq_some_iff.mp h
    obtain ⟨rfl,rfl⟩ := Prod.mk.inj h
    exact Nat.le_trans (d.height_le hr) (c.height_le hq)

/-- A coder of values that have a part with a coder and a part of so many bits: these go onto the
stack first. -/
structure Parts (α β : Type*) where
  /-- The part with a coder. -/
  part : β→α
  /-- The number of bits of the other. -/
  width : α→ℕ
  /-- The other. -/
  rest : β→ℕ
  /-- A value of its parts. -/
  join : α→ℕ→β

/-- The parts of a value are its own. -/
def Parts.Fits (parts : Parts α β) (v : β) : Prop :=
  parts.rest v<2^parts.width (parts.part v) ∧ parts.join (parts.part v) (parts.rest v)=v

instance [DecidableEq β] (parts : Parts α β) (v : β) : Decidable (parts.Fits v) :=
  inferInstanceAs (Decidable (_ ∧ _))

/-- The coder of values with two parts. -/
def Coder.values [DecidableEq β] (c : Coder σ α) (parts : Parts α β) : Coder σ β where
  encode s v t :=
    if h : parts.Fits v then
      c.encode s (parts.part v) (t.push (parts.width (parts.part v)) (parts.rest v) h.1)
    else none
  decode s t := (c.decode s t).map fun r =>
    (parts.join r.1 (r.2.2.top (parts.width r.1)),r.2.1,r.2.2.pop (parts.width r.1))
  decode_encode := by
    intro s s' v t t' h
    obtain ⟨hfits,h⟩ := Option.dite_none_right_eq_some.mp h
    rw [c.decode_encode h,Option.map_some,Stack.top_push,Stack.pop_push]
    exact congrArg (fun x => some (x,s,t)) hfits.2
  height_le := by
    intro s s' v t t' h
    obtain ⟨hfits,h⟩ := Option.dite_none_right_eq_some.mp h
    exact Nat.le_trans (Nat.le_add_right _ _) (c.height_le h)

/-- Encode a list from its end. -/
def Coder.encodeAll (c : Coder σ α) : σ→List α→Stack→Option (σ×Stack)
  | s,[],t => some (s,t)
  | s,a::as,t => (c.encodeAll s as t).bind fun r => c.encode r.1 a r.2

/-- Encoding a list only adds bits. -/
theorem Coder.encodeAll_height_le (c : Coder σ α) {s s' : σ} {as : List α} {t t' : Stack}
    (h : c.encodeAll s as t=some (s',t')) : t.height≤t'.height := by
  induction as generalizing s' t' with
  | nil =>
    obtain ⟨rfl,rfl⟩ := Prod.mk.inj (Option.some.inj h)
    exact Nat.le_refl _
  | cons a as ih =>
    obtain ⟨r,hr,h⟩ := Option.bind_eq_some_iff.mp h
    exact Nat.le_trans (ih hr) (c.height_le h)

/-- Two values are encoded one after the other. -/
theorem Coder.pair_encode (c : Coder σ α) (d : Coder τ β) {s₁ s₁' : σ} {s₂ s₂' : τ} {a : α} {b : β}
    {t t₁ t' : Stack} (hd : d.encode s₂ b t=some (s₂',t₁)) (hc : c.encode s₁ a t₁=some (s₁',t')) :
    (c.pair d).encode (s₁,s₂) (a,b) t=some ((s₁',s₂'),t') := by
  change ((d.encode s₂ b t).bind fun r => (c.encode s₁ a r.2).map fun q => ((q.1,r.1),q.2))=_
  rw [hd,Option.bind_some,hc,Option.map_some]

/-- Two values are decoded one after the other. -/
theorem Coder.pair_decode (c : Coder σ α) (d : Coder τ β) {s₁ s₁' : σ} {s₂ s₂' : τ} {a : α} {b : β}
    {t t' : Stack} (h : (c.pair d).decode (s₁,s₂) t=some ((a,b),(s₁',s₂'),t')) :
    ∃ t₁, c.decode s₁ t=some (a,s₁',t₁) ∧ d.decode s₂ t₁=some (b,s₂',t') := by
  obtain ⟨r,hr,h⟩ := Option.bind_eq_some_iff.mp h
  obtain ⟨q,hq,h⟩ := Option.map_eq_some_iff.mp h
  obtain ⟨a,s,t₁⟩ := r
  obtain ⟨b,s',t'⟩ := q
  cases h
  exact ⟨t₁,hr,hq⟩

end Coders

section Bytes

/-- The value of two byte lists one behind the other. -/
theorem leValue_append (xs ys : List UInt8) :
    leValue (xs++ys)=leValue xs+2^(8*xs.length)*leValue ys := by
  induction xs with
  | nil => simp [leValue]
  | cons x xs ih =>
    have hpow : 2^(8*(xs.length+1))=256*2^(8*xs.length) := by
      rw [Nat.mul_succ,pow_add]
      ring
    rw [List.cons_append,leValue,leValue,List.length_cons,ih,hpow]
    ring

/-- The value of a byte list is within its bits. -/
theorem leValue_lt_pow (xs : List UInt8) : leValue xs<2^(8*xs.length) := by
  have h := leValue_lt xs
  rw [pow_mul]
  exact h

end Bytes

end Applesauce.BitStack
