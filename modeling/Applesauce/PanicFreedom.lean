import Applesauce.SeekableFile

/-!
# Programs that do not panic

A program is calm in a state when it returns a value or an error there. Calm
sequences are characterised by their parts, so that the exact condition under
which a program is calm can be computed. A program that depends on the build
profile only through its range checks does the same in both builds wherever
the debug build is calm.
-/

namespace Applesauce.PanicFreedom

open RustIo SeekableFile

variable {σ α β : Type}

/-- The program returns or stops with an error. -/
def Calm (x : Io σ α) (s : σ) : Prop := ∀ message t, x s≠.error (.panic message) t

/-- The release build does what the debug build does wherever that is calm. -/
def Unchecked (op : Build→Io σ α) (s : σ) : Prop :=
  Calm (op .debug) s → op .release s=op .debug s

section Sequences
variable {x : Io σ α} {f : α→Io σ β} {s u : σ}

/-- Returning is calm. -/
theorem calm_of_ok {a : α} (h : x s=.ok a u) : Calm x s := by
  intro message t hbad
  rw [h] at hbad
  cases hbad

/-- Stopping with an error is calm. -/
theorem calm_of_error {e : IoError} (h : x s=.error (.error e) u) : Calm x s := by
  intro message t hbad
  rw [h] at hbad
  cases hbad

/-- A panic is not calm. -/
theorem not_calm_of_panic {message : String} (h : x s=.error (.panic message) u) : ¬Calm x s :=
  fun hcalm => hcalm message u h

/-- A sequence is calm exactly when its parts are. -/
theorem calm_bind_iff : Calm (x>>=f) s ↔ Calm x s ∧ ∀ a u, x s=.ok a u → Calm (f a) u := by
  constructor
  · intro h
    refine ⟨fun message t hbad => h message t (bind_of_error hbad),fun a u hok message t hbad => ?_⟩
    refine h message t ?_
    rw [bind_of_ok hok]
    exact hbad
  · rintro ⟨hfirst,hrest⟩ message t hbad
    rcases bind_error_iff.mp hbad with hx|⟨a,u,hok,hf⟩
    · exact hfirst message t hx
    · exact hrest a u hok message t hf

/-- After a part that returned, the rest decides. -/
theorem calm_bind_of_ok {a : α} (h : x s=.ok a u) : Calm (x>>=f) s ↔ Calm (f a) u := by
  unfold Calm
  rw [bind_of_ok h]

/-- After an error there is nothing left to panic. -/
theorem calm_bind_of_error {e : IoError} (h : x s=.error (.error e) u) : Calm (x>>=f) s :=
  calm_of_error (bind_of_error h)

/-- A panic of the first part is one of the sequence. -/
theorem not_calm_bind {message : String} (h : x s=.error (.panic message) u) : ¬Calm (x>>=f) s :=
  not_calm_of_panic (bind_of_error h)

/-- A program that never panics, followed by one that never does. -/
theorem calm_bind (hx : Calm x s) (hf : ∀ a u, Calm (f a) u) : Calm (x>>=f) s :=
  calm_bind_iff.mpr ⟨hx,fun a u _ => hf a u⟩

/-- A pure value is calm. -/
theorem calm_pure (a : α) (s : σ) : Calm (pure a : Io σ α) s := calm_of_ok (pure_apply a s)

end Sequences

section Checks
variable {s : σ}

/-- A guard that stops with an error is calm. -/
theorem calm_ensure {c : Prop} [Decidable c] (e : IoError) : Calm (ensure c (.error e)) s := by
  by_cases h : c
  · exact calm_of_ok (ensure_of _ s h)
  · exact calm_of_error (ensure_error_iff.mpr ⟨h,rfl,rfl⟩)

/-- A guard decides between the rest and its error. -/
theorem calm_ensure_bind {c : Prop} [Decidable c] {e : IoError} {f : Unit→Io σ β} :
    Calm (ensure c (.error e)>>=f) s ↔ (c → Calm (f ()) s) := by
  by_cases h : c
  · rw [calm_bind_of_ok (ensure_of _ s h)]
    exact ⟨fun hrest _ => hrest,fun hrest => hrest h⟩
  · exact iff_of_true (calm_bind_of_error (ensure_error_iff.mpr ⟨h,rfl,rfl⟩)) fun hc => absurd hc h

/-- A conversion out of range stops with the caller's error. -/
theorem tryU32_of_lt {n : ℕ} (e : Fault) (s : σ) (h : u32Max<n) : tryU32 n e s=.error e s := by
  unfold tryU32
  exact bind_of_error (ensure_error_iff.mpr ⟨Nat.not_le.mpr h,rfl,rfl⟩)

/-- A conversion is followed by the rest, if it is in range. -/
theorem calm_tryU32_bind {n : ℕ} {e : IoError} {f : ℕ→Io σ β} :
    Calm (tryU32 n (.error e)>>=f) s ↔ (n≤u32Max → Calm (f n) s) := by
  by_cases h : n≤u32Max
  · rw [calm_bind_of_ok (tryU32_of _ s h)]
    exact ⟨fun hrest _ => hrest,fun hrest => hrest h⟩
  · exact iff_of_true (calm_bind_of_error (tryU32_of_lt _ s (Nat.not_le.mp h))) fun hn => absurd hn h

/-- An unwrapped conversion must be in range. -/
theorem calm_unwrapU32_bind {n : ℕ} {f : ℕ→Io σ β} :
    Calm (unwrapU32 n>>=f) s ↔ n≤u32Max ∧ Calm (f n) s := by
  unfold unwrapU32
  by_cases h : n≤u32Max
  · rw [calm_bind_of_ok (tryU32_of _ s h)]
    exact ⟨fun hrest => ⟨h,hrest⟩,fun hrest => hrest.2⟩
  · exact iff_of_false (not_calm_bind (tryU32_of_lt _ s (Nat.not_le.mp h))) fun hn => h hn.1

/-- A debug build panics when a subtraction underflows. -/
theorem subU32_of_lt {x y : ℕ} (s : σ) (h : x<y) :
    subU32 .debug x y s=.error (.panic "attempt to subtract with overflow") s := by
  unfold subU32
  rw [if_neg (Nat.not_le.mpr h)]
  rfl

/-- A debug build panics when an addition overflows. -/
theorem addU32_of_lt {x y : ℕ} (s : σ) (h : u32Max<x+y) :
    addU32 .debug x y s=.error (.panic "attempt to add with overflow") s := by
  unfold addU32
  rw [if_neg (Nat.not_le.mpr h)]
  rfl

/-- A checked subtraction must not underflow. -/
theorem calm_subU32_bind {x y : ℕ} {f : ℕ→Io σ β} :
    Calm (subU32 .debug x y>>=f) s ↔ y≤x ∧ Calm (f (x-y)) s := by
  by_cases h : y≤x
  · rw [calm_bind_of_ok (subU32_of s h)]
    exact ⟨fun hrest => ⟨h,hrest⟩,fun hrest => hrest.2⟩
  · exact iff_of_false (not_calm_bind (subU32_of_lt s (Nat.not_le.mp h))) fun hn => h hn.1

/-- A checked addition must not overflow. -/
theorem calm_addU32_bind {x y : ℕ} {f : ℕ→Io σ β} :
    Calm (addU32 .debug x y>>=f) s ↔ x+y≤u32Max ∧ Calm (f (x+y)) s := by
  by_cases h : x+y≤u32Max
  · rw [calm_bind_of_ok (addU32_of s h)]
    exact ⟨fun hrest => ⟨h,hrest⟩,fun hrest => hrest.2⟩
  · exact iff_of_false (not_calm_bind (addU32_of_lt s (Nat.not_le.mp h))) fun hn => h hn.1

end Checks

section Builds
variable {s : σ}

/-- A program that does not look at the build. -/
theorem unchecked_const (x : Io σ α) : Unchecked (fun _ => x) s := fun _ => rfl

/-- Sequences of programs that depend on the build only through their checks. -/
theorem unchecked_bind {op : Build→Io σ α} {f : Build→α→Io σ β} (hop : Unchecked op s)
    (hf : ∀ a u, op .debug s=.ok a u → Unchecked (fun build => f build a) u) :
    Unchecked (fun build => op build>>=f build) s := by
  intro hcalm
  obtain ⟨hfirst,hrest⟩ := calm_bind_iff.mp hcalm
  have hsame := hop hfirst
  dsimp only
  cases hx : op .debug s with
  | error e u => rw [bind_of_error hx,bind_of_error (hsame.trans hx)]
  | ok a u =>
    rw [bind_of_ok hx,bind_of_ok (hsame.trans hx)]
    exact hf a u hx (hrest a u hx)

/-- Subtraction depends on the build only when it underflows. -/
theorem unchecked_subU32 (x y : ℕ) : Unchecked (fun build => subU32 build x y) s := by
  intro hcalm
  by_cases h : y≤x
  · exact (subU32_of s h).trans (subU32_of s h).symm
  · exact absurd hcalm (not_calm_of_panic (subU32_of_lt s (Nat.not_le.mp h)))

/-- Addition depends on the build only when it overflows. -/
theorem unchecked_addU32 (x y : ℕ) : Unchecked (fun build => addU32 build x y) s := by
  intro hcalm
  by_cases h : x+y≤u32Max
  · exact (addU32_of s h).trans (addU32_of s h).symm
  · exact absurd hcalm (not_calm_of_panic (addU32_of_lt s (Nat.not_le.mp h)))

end Builds

section Cursors

/-- Seeking is calm. -/
theorem calm_seek (target : SeekFrom) (file : Cursor) : Calm (Cursor.seek target) file := by
  cases h : file.seekTarget target with
  | none =>
    refine @calm_of_error Cursor ℕ _ file file (.new .invalidInput
      "invalid seek to a negative or overflowing position") ?_
    unfold Cursor.seek
    rw [h]
  | some pos =>
    refine @calm_of_ok Cursor ℕ _ file {file with pos := pos} pos ?_
    unfold Cursor.seek
    rw [h]

/-- Reading an exact number of bytes is calm. -/
theorem calm_readExact (count : ℕ) (file : Cursor) : Calm (Cursor.readExact count) file := by
  intro message t hbad
  unfold Cursor.readExact at hbad
  by_cases h : file.pos+count≤file.bytes.length
  · rw [if_pos h] at hbad
    cases hbad
  · rw [if_neg h] at hbad
    cases hbad

/-- Reading within the file returns the bytes ahead. -/
theorem readExact_of {count : ℕ} {file : Cursor} (h : file.pos+count≤file.bytes.length) :
    Cursor.readExact count file=
      .ok ((file.bytes.drop file.pos).take count) {file with pos := file.pos+count} := by
  unfold Cursor.readExact
  rw [if_pos h]
  rfl

/-- Reading within the file, from one known position to the next. -/
theorem readExact_at {bytes : List UInt8} {count pos next : ℕ} (h : next≤bytes.length)
    (hnext : pos+count=next) :
    Cursor.readExact count ⟨bytes,pos⟩=.ok (SparseFile.readAt bytes pos count) ⟨bytes,next⟩ := by
  subst hnext
  exact readExact_of h

/-- Reading beyond the end of the file is an error. -/
theorem readExact_of_lt {count : ℕ} {file : Cursor} (h : file.bytes.length<file.pos+count) :
    Cursor.readExact count file=.error (.error (.new .unexpectedEof "failed to fill whole buffer"))
      {file with pos := max file.pos file.bytes.length} := by
  unfold Cursor.readExact
  rw [if_neg (Nat.not_le.mpr h)]

end Cursors

end Applesauce.PanicFreedom
