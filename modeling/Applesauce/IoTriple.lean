import Applesauce.RustIo

/-!
# Preconditions, postconditions and faults

A triple describes a program by the states it starts from, what holds when
it returns and what holds when it stops. The rules follow the program: one
for each primitive, one for sequencing and one for consequence.
-/

namespace Applesauce.IoTriple

open RustIo

variable {σ α β : Type}

/-- From every state in `pre` the program returns into `post` or stops into `fault`. -/
structure Triple (pre : σ→Prop) (x : Io σ α) (post : α→σ→Prop) (fault : Fault→σ→Prop) : Prop where
  ok : ∀ {s t : σ} {a : α}, pre s → x s=.ok a t → post a t
  error : ∀ {s t : σ} {e : Fault}, pre s → x s=.error e t → fault e t

/-- A stronger start and weaker ends. -/
theorem Triple.weaken {pre pre' : σ→Prop} {x : Io σ α} {post post' : α→σ→Prop}
    {fault fault' : Fault→σ→Prop} (h : Triple pre x post fault)
    (hpre : ∀ {s}, pre' s → pre s) (hpost : ∀ {a s}, post a s → post' a s)
    (hfault : ∀ {e s}, fault e s → fault' e s) : Triple pre' x post' fault' :=
  ⟨fun hs hx => hpost (h.ok (hpre hs) hx),fun hs hx => hfault (h.error (hpre hs) hx)⟩

/-- Sequencing through a state in between. -/
theorem Triple.bind {pre : σ→Prop} {x : Io σ α} {f : α→Io σ β} {mid : α→σ→Prop} {post : β→σ→Prop}
    {fault : Fault→σ→Prop} (hx : Triple pre x mid fault)
    (hf : ∀ a, Triple (mid a) (f a) post fault) : Triple pre (x>>=f) post fault := by
  refine ⟨fun hs h => ?_,fun hs h => ?_⟩
  · obtain ⟨a,u,hfirst,hrest⟩ := bind_ok_iff.mp h
    exact (hf a).ok (hx.ok hs hfirst) hrest
  · rcases bind_error_iff.mp h with hfirst|⟨a,u,hfirst,hrest⟩
    · exact hx.error hs hfirst
    · exact (hf a).error (hx.ok hs hfirst) hrest

/-- A fact about the values of the program can be assumed. -/
theorem Triple.assume {c : Prop} {pre : σ→Prop} {x : Io σ α} {post : α→σ→Prop}
    {fault : Fault→σ→Prop} (h : c → Triple pre x post fault) :
    Triple (fun s => c ∧ pre s) x post fault :=
  ⟨fun hs hx => (h hs.1).ok hs.2 hx,fun hs hx => (h hs.1).error hs.2 hx⟩

/-- A value that the start only says to exist can be named. -/
theorem Triple.exists {γ : Type} {pre : γ→σ→Prop} {x : Io σ α} {post : α→σ→Prop}
    {fault : Fault→σ→Prop} (h : ∀ c, Triple (pre c) x post fault) :
    Triple (fun s => ∃ c, pre c s) x post fault := by
  refine ⟨fun hs hx => ?_,fun hs hx => ?_⟩
  · obtain ⟨c,hc⟩ := hs
    exact (h c).ok hc hx
  · obtain ⟨c,hc⟩ := hs
    exact (h c).error hc hx

/-- Returning a value changes nothing. -/
theorem Triple.pure {pre : σ→Prop} {fault : Fault→σ→Prop} (a : α) :
    Triple pre (Pure.pure a : Io σ α) (fun b t => b=a ∧ pre t) fault := by
  refine ⟨fun hs h => ?_,fun hs h => ?_⟩
  · cases h
    exact ⟨rfl,hs⟩
  · cases h

/-- A guard passes with its condition or stops with its fault; the state stays. -/
theorem Triple.ensure {pre : σ→Prop} {fault : Fault→σ→Prop} {c : Prop} [Decidable c] {e : Fault}
    (hfault : ∀ {s}, pre s → fault e s) :
    Triple pre (RustIo.ensure c e) (fun _ t => c ∧ pre t) fault := by
  refine ⟨fun hs h => ?_,fun hs h => ?_⟩
  · obtain ⟨hc,rfl⟩ := ensure_ok_iff.mp h
    exact ⟨hc,hs⟩
  · obtain ⟨_,rfl,rfl⟩ := ensure_error_iff.mp h
    exact hfault hs

/-- A 32-bit conversion returns its argument or stops with its fault. -/
theorem Triple.tryU32 {pre : σ→Prop} {fault : Fault→σ→Prop} {n : ℕ} {e : Fault}
    (hfault : ∀ {s}, pre s → fault e s) :
    Triple pre (RustIo.tryU32 n e) (fun m t => m=n ∧ pre t) fault := by
  refine ⟨fun hs h => ?_,fun hs h => ?_⟩
  · obtain ⟨_,rfl,rfl⟩ := tryU32_ok_iff.mp h
    exact ⟨rfl,hs⟩
  · unfold RustIo.tryU32 at h
    rcases bind_error_iff.mp h with hfirst|⟨a,u,_,hrest⟩
    · obtain ⟨_,rfl,rfl⟩ := ensure_error_iff.mp hfirst
      exact hfault hs
    · cases hrest

/-- A subtraction in range returns the difference. -/
theorem Triple.subU32 {pre : σ→Prop} {fault : Fault→σ→Prop} {build : Build} {x y : ℕ} (h : y≤x) :
    Triple pre (RustIo.subU32 build x y) (fun z t => z=x-y ∧ pre t) fault := by
  refine ⟨fun hs hx => ?_,fun hs hx => ?_⟩
  · obtain ⟨hz,rfl⟩ := subU32_ok h hx
    exact ⟨hz,hs⟩
  · rw [subU32_of _ h] at hx
    cases hx

end Applesauce.IoTriple
