import Mathlib.Data.Nat.Basic
import Mathlib.Data.UInt

/-!
# Fallible state-passing programs with panics

An operation either returns a value or stops with an I/O error or a panic,
and in both cases leaves a state behind, as a method on `&mut self` does.
Machine arithmetic is natural-number arithmetic with explicit range checks.
A debug build panics where a release build wraps or skips an assertion.
-/

namespace Applesauce.RustIo

/-- The error kinds that the modelled programs create or inspect. -/
inductive ErrorKind where
  | notFound
  | invalidInput
  | invalidData
  | unexpectedEof
  | writeZero
  | interrupted
  | other
  deriving DecidableEq,Repr

/-- An I/O error: its kind and the text it was created with, if any. -/
structure IoError where
  /-- The kind inspected by retry loops and by callers. -/
  kind : ErrorKind
  /-- The attached text; a bare kind converted into an error has none. -/
  message : Option String
  deriving DecidableEq,Repr

/-- An error carrying a text of its own. -/
def IoError.new (kind : ErrorKind) (message : String) : IoError := ⟨kind,some message⟩

/-- A bare kind converted into an error. -/
def IoError.ofKind (kind : ErrorKind) : IoError := ⟨kind,none⟩

/-- How an operation stops early. -/
inductive Fault where
  /-- A returned `Err`. -/
  | error (error : IoError)
  /-- A failed assertion, `unwrap` or checked operation. -/
  | panic (message : String)
  deriving DecidableEq,Repr

/-- The build profile decides debug assertions and overflow checks. -/
inductive Build where
  | debug
  | release
  deriving DecidableEq,Repr

/-- A program over a mutable state that can stop with a fault. -/
abbrev Io (σ α : Type) := EStateM Fault σ α

/-- The largest 32-bit value. -/
def u32Max : ℕ := 2^32-1

/-- The largest 64-bit value; `usize` has the same range. -/
def u64Max : ℕ := 2^64-1

section Programs
variable {σ α β : Type}

/-- Stop with an I/O error. -/
def fail (error : IoError) : Io σ α := throw (.error error)

/-- Stop with a panic. -/
def panicWith (message : String) : Io σ α := throw (.panic message)

/-- Continue only under a condition, otherwise stop with the fault. -/
def ensure (condition : Prop) [Decidable condition] (fault : Fault) : Io σ Unit :=
  if condition then pure () else throw fault

/-- A sequence without a state returns exactly when both parts do. -/
theorem except_bind_ok_iff {x : Except Fault α} {f : α→Except Fault β} {b : β} :
    (x>>=f)=.ok b ↔ ∃ a, x=.ok a ∧ f a=.ok b := by
  cases x with
  | ok a => simp [bind,Except.bind]
  | error e => simp [bind,Except.bind]

/-- A sequence returns exactly when both parts do, through the state between. -/
theorem bind_ok_iff {x : Io σ α} {f : α→Io σ β} {s t : σ} {b : β} :
    (x>>=f) s=.ok b t ↔ ∃ a u, x s=.ok a u ∧ f a u=.ok b t := by
  change EStateM.bind x f s=.ok b t ↔ _
  unfold EStateM.bind
  cases h : x s with
  | ok a u =>
    constructor
    · exact fun hf => ⟨a,u,rfl,hf⟩
    · rintro ⟨_,_,he,hf⟩
      cases he
      exact hf
  | error e u => simp

/-- A sequence runs its continuation from the state its first part returned. -/
theorem bind_of_ok {x : Io σ α} {f : α→Io σ β} {s u : σ} {a : α} (h : x s=.ok a u) :
    (x>>=f) s=f a u := by
  change EStateM.bind x f s=_
  unfold EStateM.bind
  rw [h]

/-- A fault of the first part is the fault of the sequence. -/
theorem bind_of_error {x : Io σ α} {f : α→Io σ β} {s u : σ} {e : Fault}
    (h : x s=.error e u) : (x>>=f) s=.error e u := by
  change EStateM.bind x f s=_
  unfold EStateM.bind
  rw [h]

/-- A sequence stops exactly when its first part does, or its second after it. -/
theorem bind_error_iff {x : Io σ α} {f : α→Io σ β} {s t : σ} {e : Fault} :
    (x>>=f) s=.error e t ↔
      x s=.error e t ∨ ∃ a u, x s=.ok a u ∧ f a u=.error e t := by
  change EStateM.bind x f s=.error e t ↔ _
  unfold EStateM.bind
  cases h : x s with
  | ok a u =>
    constructor
    · exact fun hf => Or.inr ⟨a,u,rfl,hf⟩
    · rintro (he|⟨_,_,he,hf⟩)
      · cases he
      · cases he
        exact hf
  | error e' u => simp

@[simp] theorem pure_apply (a : α) (s : σ) : (pure a : Io σ α) s=.ok a s := rfl

@[simp] theorem throw_apply (e : Fault) (s : σ) : (throw e : Io σ α) s=.error e s := rfl

@[simp] theorem fail_apply (e : IoError) (s : σ) : (fail e : Io σ α) s=.error (.error e) s := rfl

@[simp] theorem panicWith_apply (m : String) (s : σ) :
    (panicWith m : Io σ α) s=.error (.panic m) s := rfl

/-- A guard returns exactly when its condition holds, and changes nothing. -/
theorem ensure_ok_iff {c : Prop} [Decidable c] {e : Fault} {s t : σ} {u : Unit} :
    ensure c e s=.ok u t ↔ c ∧ t=s := by
  unfold ensure
  by_cases h : c
  · rw [if_pos h]
    simp [h,eq_comm]
  · rw [if_neg h]
    simp [h]

/-- A satisfied guard is a no-op. -/
theorem ensure_of {c : Prop} [Decidable c] (e : Fault) (s : σ) (h : c) :
    ensure c e s=.ok () s := ensure_ok_iff.mpr ⟨h,rfl⟩

/-- A violated guard stops with its fault. -/
theorem ensure_error_iff {c : Prop} [Decidable c] {e e' : Fault} {s t : σ} :
    ensure c e s=.error e' t ↔ ¬c ∧ e'=e ∧ t=s := by
  unfold ensure
  by_cases h : c
  · rw [if_pos h]
    simp [h]
  · rw [if_neg h]
    simp [h,eq_comm]

end Programs

section Arithmetic
variable {σ : Type}

/-- `u32::try_from(n)` with the caller's error. -/
def tryU32 (n : ℕ) (fault : Fault) : Io σ ℕ := do
  ensure (n≤u32Max) fault
  pure n

/-- `u32::try_from(n).unwrap()`. -/
def unwrapU32 (n : ℕ) : Io σ ℕ := tryU32 n (.panic "called `Result::unwrap()` on an `Err` value")

/-- Unchecked 32-bit addition: a debug build panics, a release build wraps. -/
def addU32 (build : Build) (x y : ℕ) : Io σ ℕ :=
  if x+y≤u32Max then pure (x+y) else
    match build with
    | .debug => panicWith "attempt to add with overflow"
    | .release => pure ((x+y)%2^32)

/-- Unchecked 32-bit subtraction: a debug build panics, a release build wraps. -/
def subU32 (build : Build) (x y : ℕ) : Io σ ℕ :=
  if y≤x then pure (x-y) else
    match build with
    | .debug => panicWith "attempt to subtract with overflow"
    | .release => pure ((x+2^32-y)%2^32)

/-- A 64-bit subtraction that must not underflow. -/
def subU64 (x y : ℕ) : Io σ ℕ :=
  if y≤x then pure (x-y) else panicWith "attempt to subtract with overflow"

/-- A 64-bit addition that must not overflow. -/
def addU64 (x y : ℕ) : Io σ ℕ :=
  if x+y≤u64Max then pure (x+y) else panicWith "attempt to add with overflow"

/-- `debug_assert!`: checked by a debug build only. -/
def debugAssert (build : Build) (condition : Prop) [Decidable condition]
    (message : String) : Io σ Unit :=
  match build with
  | .debug => ensure condition (.panic message)
  | .release => pure ()

/-- A conversion returns exactly the values in range, unchanged. -/
theorem tryU32_ok_iff {n m : ℕ} {e : Fault} {s t : σ} :
    tryU32 n e s=.ok m t ↔ n≤u32Max ∧ m=n ∧ t=s := by
  unfold tryU32
  simp only [bind_ok_iff,ensure_ok_iff,pure_apply,EStateM.Result.ok.injEq]
  constructor
  · rintro ⟨_,_,⟨h,rfl⟩,rfl,rfl⟩
    exact ⟨h,rfl,rfl⟩
  · rintro ⟨h,rfl,rfl⟩
    exact ⟨(),_,⟨h,rfl⟩,rfl,rfl⟩

/-- A conversion in range returns. -/
theorem tryU32_of {n : ℕ} (e : Fault) (s : σ) (h : n≤u32Max) : tryU32 n e s=.ok n s :=
  tryU32_ok_iff.mpr ⟨h,rfl,rfl⟩

/-- An addition in range is exact in both builds. -/
theorem addU32_of {build : Build} {x y : ℕ} (s : σ) (h : x+y≤u32Max) :
    addU32 build x y s=.ok (x+y) s := by
  unfold addU32
  rw [if_pos h]
  rfl

/-- A subtraction in range is exact in both builds. -/
theorem subU32_of {build : Build} {x y : ℕ} (s : σ) (h : y≤x) :
    subU32 build x y s=.ok (x-y) s := by
  unfold subU32
  rw [if_pos h]
  rfl

/-- What a subtraction in range returns. -/
theorem subU32_ok {build : Build} {x y z : ℕ} {s t : σ} (hyx : y≤x)
    (h : subU32 build x y s=.ok z t) : z=x-y ∧ t=s := by
  rw [subU32_of s hyx] at h
  obtain ⟨hz,ht⟩ := EStateM.Result.ok.inj h
  exact ⟨hz.symm,ht.symm⟩

/-- A 64-bit subtraction of no more than there is. -/
theorem subU64_of {x y : ℕ} (s : σ) (h : y≤x) : subU64 x y s=.ok (x-y) s := by
  unfold subU64
  rw [if_pos h]
  rfl

/-- A 64-bit addition in range. -/
theorem addU64_of {x y : ℕ} (s : σ) (h : x+y≤u64Max) : addU64 x y s=.ok (x+y) s := by
  unfold addU64
  rw [if_pos h]
  rfl

/-- A satisfied debug assertion is a no-op in both builds. -/
theorem debugAssert_of {build : Build} {c : Prop} [Decidable c] (m : String) (s : σ) (h : c) :
    debugAssert build c m s=.ok () s := by
  cases build with
  | debug => exact ensure_of _ s h
  | release => rfl

end Arithmetic

end Applesauce.RustIo
