import Mathlib.Algebra.BigOperators.Group.List.Basic

/-!
# Folding in parallel and reducing the parts

A parallel iterator splits its items into groups in any way, folds every
group from the identity and reduces the results pairwise in any order. When
both operations add in a commutative monoid whose values have a bounded
range, the way of splitting and the order do not matter: the outcome is the
sum over all items, or the one failure of a sum that is out of range.
-/

namespace Applesauce.ParallelFold

universe u v

/-- How the items are split: groups that are folded, and pairs of parts that are reduced. -/
inductive Plan (α : Type u) where
  /-- One group, in the order in which it gets its items. -/
  | fold (items : List α)
  /-- Two parts. -/
  | join (left right : Plan α)
  deriving Repr

/-- The items of all groups. -/
def Plan.items {α : Type u} : Plan α→List α
  | .fold items => items
  | .join left right => left.items++right.items

/-- The operations of a fallible fold and reduction. -/
structure Job (α : Type u) (β ε : Type v) where
  /-- Where every group and every reduction starts. -/
  identity : β
  /-- Takes one item in. -/
  foldOp : β→α→Except ε β
  /-- Combines two results. -/
  reduceOp : β→β→Except ε β
  /-- Which of two failures is reported. -/
  choose : ε→ε→ε

section Runs

variable {α : Type u} {β ε : Type v}

/-- Fold one group from the identity, until an item fails. -/
def Job.tryFold (job : Job α β ε) (items : List α) : Except ε β :=
  items.foldlM job.foldOp job.identity

/-- Reduce the results of two parts. -/
def Job.both (job : Job α β ε) : Except ε β→Except ε β→Except ε β
  | .ok left,.ok right => job.reduceOp left right
  | .error e,.ok _ => .error e
  | .ok _,.error e => .error e
  | .error e,.error e' => .error (job.choose e e')

/-- Every group is folded and reduced with the identity, and the parts are reduced. -/
def Job.run (job : Job α β ε) : Plan α→Except ε β
  | .fold items => do job.reduceOp job.identity (← job.tryFold items)
  | .join left right => job.both (job.run left) (job.run right)

end Runs

section Bounds

variable {β ε : Type v} [AddCommMonoid β]

/-- How a sum becomes a value of bounded range: it wraps, or it fails once a part of it is out of
range. It may be done after every addition or once at the end. -/
structure Bounded (finish : β→Except ε β) : Prop where
  /-- Zero is in range. -/
  zero : finish 0=.ok 0
  /-- Sums of values in range. -/
  add : ∀ x y, (do
    let a ← finish x
    let b ← finish y
    finish (a+b))=finish (x+y)

variable {finish : β→Except ε β} {x y a : β} {e : ε}

/-- A value in range can stand for the sum it came from. -/
theorem Bounded.left (h : Bounded finish) (hx : finish x=.ok a) (y : β) :
    finish (a+y)=finish (x+y) := by
  have hzero := h.add x 0
  rw [hx,h.zero,add_zero,hx] at hzero
  have ha : finish a=.ok a := by simpa [bind,Except.bind] using hzero
  rw [←h.add a y,←h.add x y,ha,hx]

/-- A value in range stays as it is. -/
theorem Bounded.value (h : Bounded finish) (hx : finish x=.ok a) : finish a=.ok a := by
  have hleft := h.left hx 0
  rwa [add_zero,add_zero,hx] at hleft

/-- A sum with a part that is out of range is out of range. -/
theorem Bounded.error (h : Bounded finish) (hx : finish x=.error e) (y : β) :
    finish (x+y)=.error e := by
  rw [←h.add x y,hx]
  rfl

/-- Sums may wrap after every addition. -/
theorem bounded_wrapping {wrap : β→β} (hzero : wrap 0=0)
    (hadd : ∀ x y, wrap (wrap x+wrap y)=wrap (x+y)) :
    Bounded fun x => (.ok (wrap x) : Except ε β) := by
  constructor
  · rw [hzero]
  · intro x y
    exact congrArg Except.ok (hadd x y)

/-- Sums may fail as soon as a part of them does not fit. -/
theorem bounded_checked {Fits : β→Prop} [DecidablePred Fits] (e : ε) (hzero : Fits 0)
    (hparts : ∀ x y, Fits (x+y) → Fits x ∧ Fits y) :
    Bounded fun x => if Fits x then .ok x else .error e := by
  constructor
  · exact if_pos hzero
  · intro x y
    by_cases hx : Fits x
    · by_cases hy : Fits y
      · simp [hx,hy,bind,Except.bind]
      · have hsum : ¬Fits (x+y) := fun hfits => hy (hparts x y hfits).2
        simp [hx,hy,hsum,bind,Except.bind]
    · have hsum : ¬Fits (x+y) := fun hfits => hx (hparts x y hfits).1
      simp [hx,hsum,bind,Except.bind]

end Bounds

section Sums

variable {α : Type u} {β ε : Type v} [AddCommMonoid β]

/-- A job that adds up the values of the items it can take. -/
structure Job.Adds (job : Job α β ε) (finish : β→Except ε β) (value : α→β) (Taken : α→Prop) :
    Prop where
  /-- Sums are kept in range. -/
  bounded : Bounded finish
  /-- It starts from zero. -/
  identity : job.identity=0
  /-- An item adds its value. -/
  foldOp : ∀ acc a, Taken a → finish acc=.ok acc → job.foldOp acc a=finish (acc+value a)
  /-- Two results add up. -/
  reduceOp : ∀ left right, finish left=.ok left → finish right=.ok right →
    job.reduceOp left right=finish (left+right)
  /-- There is only one failure to report. -/
  choose : ∀ e, job.choose e e=e

variable {job : Job α β ε} {finish : β→Except ε β} {value : α→β} {Taken : α→Prop}

/-- A fold adds the values to what it starts from. -/
theorem Job.Adds.foldlM (h : job.Adds finish value Taken) {items : List α}
    (hitems : ∀ a∈items, Taken a) {acc : β} (hacc : finish acc=.ok acc) :
    items.foldlM job.foldOp acc=finish (acc+(items.map value).sum) := by
  induction items generalizing acc with
  | nil => simpa [pure,Except.pure] using hacc.symm
  | cons a items ih =>
    obtain ⟨ha,hrest⟩ := List.forall_mem_cons.mp hitems
    rw [List.foldlM_cons,h.foldOp acc a ha hacc,List.map_cons,List.sum_cons,←add_assoc]
    cases hnext : finish (acc+value a) with
    | ok next =>
      have hsum := ih hrest (h.bounded.value hnext)
      rw [h.bounded.left hnext] at hsum
      exact hsum
    | error e => exact (h.bounded.error hnext _).symm

/-- The result of a group is the sum of its values. -/
theorem Job.Adds.fold (h : job.Adds finish value Taken) {items : List α}
    (hitems : ∀ a∈items, Taken a) :
    job.run (.fold items)=finish (items.map value).sum := by
  have hfold : job.tryFold items=finish (items.map value).sum := by
    unfold Job.tryFold
    rw [h.identity,h.foldlM hitems h.bounded.zero,zero_add]
  unfold Job.run
  rw [hfold]
  cases hsum : finish (items.map value).sum with
  | ok sum =>
    have hreduce := h.reduceOp 0 sum h.bounded.zero (h.bounded.value hsum)
    rw [zero_add,h.bounded.value hsum] at hreduce
    rw [h.identity]
    exact hreduce
  | error e => rfl

/-- Two sums are reduced to the sum of both. -/
theorem Job.Adds.both (h : job.Adds finish value Taken) (x y : β) :
    job.both (finish x) (finish y)=finish (x+y) := by
  cases hx : finish x with
  | ok a =>
    cases hy : finish y with
    | ok b =>
      have hreduce := h.reduceOp a b (h.bounded.value hx) (h.bounded.value hy)
      rw [h.bounded.left hx,add_comm x b,h.bounded.left hy,add_comm y x] at hreduce
      exact hreduce
    | error e =>
      rw [add_comm x y,h.bounded.error hy]
      rfl
  | error e =>
    have hsum := h.bounded.error hx y
    cases hy : finish y with
    | ok b =>
      rw [hsum]
      rfl
    | error e' =>
      have hsame := h.bounded.error hy x
      rw [add_comm y x,hsum] at hsame
      cases hsame
      rw [hsum]
      exact congrArg Except.error (h.choose e)

/-- The result of any plan is the sum of the values of its items. -/
theorem Job.Adds.run (h : job.Adds finish value Taken) {plan : Plan α}
    (hitems : ∀ a∈plan.items, Taken a) :
    job.run plan=finish (plan.items.map value).sum := by
  induction plan with
  | fold items => exact h.fold hitems
  | join left right hleft hright =>
    obtain ⟨hl,hr⟩ := List.forall_mem_append.mp hitems
    unfold Job.run Plan.items
    rw [hleft hl,hright hr,h.both,List.map_append,List.sum_append]

/-- Plans with the same items, in whatever order, have the same result. -/
theorem Job.Adds.run_perm (h : job.Adds finish value Taken) {plan : Plan α} {items : List α}
    (hperm : plan.items.Perm items) (hitems : ∀ a∈items, Taken a) :
    job.run plan=finish (items.map value).sum := by
  rw [h.run fun a ha => hitems a (hperm.mem_iff.mp ha),(hperm.map value).sum_eq]

end Sums

end Applesauce.ParallelFold
