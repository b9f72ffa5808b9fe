import Mathlib.Data.Nat.Basic

/-!
# Reference counts

A shared value is made with one handle. Cloning adds a handle, dropping one
takes it away, and whoever drops the last handle runs the destructor. While
the count agrees with the handles that exist, the destructor begins only when
none is left, and it begins once.
-/

namespace Applesauce.SharedHandles

/-- The life of a shared value. -/
inductive Arc where
  /-- Not made yet. -/
  | unmade
  /-- Shared by this many handles. -/
  | live (handles : ℕ)
  /-- The last handle is gone and the destructor has not run yet. -/
  | dropping
  /-- The destructor has run. -/
  | dropped
  deriving DecidableEq,Repr

/-- `Arc::clone`. -/
def Arc.clone : Arc→Arc
  | .live handles => .live (handles+1)
  | other => other

/-- Dropping one handle. -/
def Arc.release : Arc→Arc
  | .live 1 => .dropping
  | .live handles => .live (handles-1)
  | other => other

/-- The count agrees with the number of handles that exist. -/
def Arc.Counts : Arc→ℕ→Prop
  | .live handles,held => handles=held ∧ 0<held
  | _,held => held=0

/-- Someone may still run the destructor. -/
def Arc.Pending (a : Arc) : Prop := a≠.unmade ∧ a≠.dropped

instance (a : Arc) : Decidable a.Pending := inferInstanceAs (Decidable (_ ∧ _))

variable {a : Arc} {held : ℕ}

/-- A value with a handle is live. -/
theorem Arc.Counts.live (h : a.Counts held) (hheld : 0<held) : a=.live held := by
  cases a with
  | live handles =>
    obtain ⟨rfl,_⟩ := h
    rfl
  | unmade => exact absurd h (Nat.ne_of_gt hheld)
  | dropping => exact absurd h (Nat.ne_of_gt hheld)
  | dropped => exact absurd h (Nat.ne_of_gt hheld)

/-- A clone adds a handle. -/
theorem Arc.Counts.clone (h : a.Counts held) (hheld : 0<held) : a.clone.Counts (held+1) := by
  rw [h.live hheld]
  exact ⟨rfl,Nat.succ_pos held⟩

/-- A dropped handle is one handle fewer. -/
theorem Arc.Counts.release (h : a.Counts (held+1)) : a.release.Counts held := by
  rw [h.live (Nat.succ_pos held)]
  cases held with
  | zero => exact rfl
  | succ n => exact ⟨rfl,Nat.succ_pos n⟩

/-- The destructor is due only after the last handle is gone. -/
theorem Arc.Counts.dropping (h : a.Counts held) (ha : a=.dropping) : held=0 := by
  subst ha
  exact h

/-- Handing handles around changes no count. -/
theorem Arc.Counts.of_eq {other : ℕ} (h : a.Counts held) (heq : held=other) : a.Counts other :=
  heq ▸ h

/-- Dropping a handle of a live value leaves the destructor to be run by someone. -/
theorem Arc.release_pending (h : a.Counts (held+1)) : a.release.Pending := by
  rw [h.live (Nat.succ_pos held)]
  cases held with
  | zero => exact ⟨nofun,nofun⟩
  | succ n => exact ⟨nofun,nofun⟩

end Applesauce.SharedHandles
