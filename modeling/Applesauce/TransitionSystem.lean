import Mathlib.Data.List.Basic

/-!
# Runs of guarded step functions

A system is given by a step function that refuses an event it does not
allow. A run records the state before every event. What a step preserves, a
run preserves; a condition asked of every step may be used in that argument.
-/

namespace Applesauce.TransitionSystem

variable {σ ε : Type*}

/-- A finite run with the state before each of its events. -/
inductive Run (step : σ→ε→Option σ) (s : σ) : List (σ×ε)→σ→Prop
  /-- Nothing has happened. -/
  | nil : Run step s [] s
  /-- One more allowed event at the end. -/
  | snoc {t u : σ} {trace : List (σ×ε)} {e : ε} (run : Run step s trace t)
      (last : step t e=some u) : Run step s (trace++[(t,e)]) u

/-- A state some run leads to. -/
def Reachable (step : σ→ε→Option σ) (s t : σ) : Prop := ∃ trace, Run step s trace t

variable {step : σ→ε→Option σ}

/-- What every step preserves holds at the end of a run. -/
theorem Run.invariant {inv : σ→Prop} {s t : σ} {trace : List (σ×ε)} (h : Run step s trace t)
    (hs : inv s) (hstep : ∀ {a b : σ} {e : ε}, inv a → step a e=some b → inv b) : inv t := by
  induction h with
  | nil => exact hs
  | snoc run last ih => exact hstep ih last

/-- What every step under a condition preserves holds at the end of a run
whose steps all meet the condition. -/
theorem Run.invariant_of_all {inv : σ→Prop} {allowed : σ×ε→Prop} {s t : σ} {trace : List (σ×ε)}
    (h : Run step s trace t) (hs : inv s) (hall : ∀ p∈trace, allowed p)
    (hstep : ∀ {a b : σ} {e : ε}, inv a → allowed (a,e) → step a e=some b → inv b) : inv t := by
  induction h with
  | nil => exact hs
  | @snoc t u trace e run last ih =>
    have hfront : ∀ p∈trace, allowed p := fun p hp => hall p (List.mem_append_left _ hp)
    exact hstep (ih hfront) (hall (t,e) (List.mem_append_right _ List.mem_cons_self)) last

/-- If every step costs something, a run is no longer than what there is to spend. -/
theorem Run.length_le {cost : σ→ℕ} {s t : σ} {trace : List (σ×ε)} (h : Run step s trace t)
    (hstep : ∀ {a b : σ} {e : ε}, step a e=some b → cost b<cost a) :
    trace.length+cost t≤cost s := by
  induction h with
  | nil => exact Nat.le_of_eq (Nat.zero_add _)
  | snoc run last ih =>
    have hlast := hstep last
    rw [List.length_append,List.length_singleton]
    omega

/-- The same where an invariant is needed for a step to cost something. -/
theorem Run.length_le_of_invariant {inv : σ→Prop} {cost : σ→ℕ} {s t : σ} {trace : List (σ×ε)}
    (h : Run step s trace t) (hs : inv s)
    (hstep : ∀ {a b : σ} {e : ε}, inv a → step a e=some b → inv b)
    (hcost : ∀ {a b : σ} {e : ε}, inv a → step a e=some b → cost b<cost a) :
    trace.length+cost t≤cost s := by
  induction h with
  | nil => exact Nat.le_of_eq (Nat.zero_add _)
  | snoc run last ih =>
    have hlast := hcost (run.invariant hs hstep) last
    rw [List.length_append,List.length_singleton]
    omega

/-- A run can be continued by another. -/
theorem Run.append {s t u : σ} {first second : List (σ×ε)} (h : Run step s first t)
    (k : Run step t second u) : Run step s (first++second) u := by
  induction k with
  | nil =>
    rw [List.append_nil]
    exact h
  | snoc run last ih =>
    rw [←List.append_assoc]
    exact .snoc ih last

/-- A run is cut at one of its steps. -/
theorem Run.split {s t : σ} {front back : List (σ×ε)} {p : σ×ε}
    (h : Run step s (front++p::back) t) :
    Run step s front p.1 ∧ ∃ mid, step p.1 p.2=some mid ∧ Run step mid back t := by
  generalize hall : front++p::back=trace at h
  induction h generalizing back with
  | nil => simp at hall
  | @snoc t u trace e run last ih =>
    rcases List.eq_nil_or_concat back with rfl|⟨rest,q,rfl⟩
    · obtain ⟨rfl,hlast⟩ := List.append_inj' hall rfl
      obtain rfl := List.head_eq_of_cons_eq hlast
      exact ⟨run,u,last,.nil⟩
    · rw [List.concat_eq_append,←List.cons_append,←List.append_assoc] at hall
      obtain ⟨hfront,hlast⟩ := List.append_inj' hall rfl
      obtain rfl := List.head_eq_of_cons_eq hlast
      obtain ⟨hrun,mid,hmid,hrest⟩ := ih hfront
      rw [List.concat_eq_append]
      exact ⟨hrun,mid,hmid,.snoc hrest last⟩

/-- A run can be cut at any of its steps. -/
theorem Run.exists_of_mem {s t : σ} {trace : List (σ×ε)} {p : σ×ε} (h : Run step s trace t)
    (hp : p∈trace) :
    ∃ front back mid, Run step s front p.1 ∧ step p.1 p.2=some mid ∧ Run step mid back t := by
  induction h with
  | nil => cases hp
  | @snoc t u trace e run last ih =>
    rcases List.mem_append.mp hp with hfront|hlast
    · obtain ⟨front,back,mid,hf,hm,hb⟩ := ih hfront
      exact ⟨front,back++[(t,e)],mid,hf,hm,.snoc hb last⟩
    · obtain rfl := List.mem_singleton.mp hlast
      exact ⟨trace,[],u,run,last,.nil⟩

/-- Apply events one after the other, if each is allowed. -/
def replay (step : σ→ε→Option σ) : σ→List ε→Option (List (σ×ε)×σ)
  | s,[] => some ([],s)
  | s,e::events =>
    match step s e with
    | none => none
    | some t => (replay step t events).map (fun r => ((s,e)::r.1,r.2))

/-- A replayed list of events is a run. -/
theorem run_of_replay {s t : σ} {events : List ε} {trace : List (σ×ε)}
    (h : replay step s events=some (trace,t)) : Run step s trace t := by
  induction events generalizing s trace with
  | nil =>
    cases h
    exact .nil
  | cons e events ih =>
    unfold replay at h
    cases hstep : step s e with
    | none => rw [hstep] at h; cases h
    | some u =>
      rw [hstep] at h
      obtain ⟨r,hr,he⟩ := Option.map_eq_some_iff.mp h
      obtain ⟨rfl,rfl⟩ := Prod.mk.inj he
      have hfirst : Run step s ([]++[(s,e)]) u := .snoc .nil hstep
      exact hfirst.append (ih hr)

/-- Every state a run leads to is reachable. -/
theorem Run.reachable {s t : σ} {trace : List (σ×ε)} (h : Run step s trace t) :
    Reachable step s t := ⟨trace,h⟩

/-- What every step preserves holds of every reachable state. -/
theorem Reachable.invariant {inv : σ→Prop} {s t : σ} (h : Reachable step s t) (hs : inv s)
    (hstep : ∀ {a b : σ} {e : ε}, inv a → step a e=some b → inv b) : inv t := by
  obtain ⟨trace,run⟩ := h
  exact run.invariant hs hstep

/-- If every step costs something, every run can be continued to a state with no step. -/
theorem exists_run_of_cost {inv : σ→Prop} (cost : σ→ℕ) {s : σ} (hs : inv s)
    (hstep : ∀ {a b : σ} {e : ε}, inv a → step a e=some b → inv b)
    (hcost : ∀ {a b : σ} {e : ε}, inv a → step a e=some b → cost b<cost a) :
    ∃ trace t, Run step s trace t ∧ ∀ e, step t e=none := by
  induction hn : cost s using Nat.strongRecOn generalizing s with
  | ind n ih =>
    by_cases hstuck : ∀ e, step s e=none
    · exact ⟨[],s,.nil,hstuck⟩
    · obtain ⟨e,he⟩ := not_forall.mp hstuck
      obtain ⟨u,hu⟩ := Option.ne_none_iff_exists'.mp he
      have hless : cost u<n := hn ▸ hcost hs hu
      obtain ⟨trace,t,hrun,ht⟩ := ih (cost u) hless (hstep hs hu) rfl
      have hfirst : Run step s ([]++[(s,e)]) u := .snoc .nil hu
      exact ⟨_,t,hfirst.append hrun,ht⟩

section Projections
variable {τ δ : Type*} {other : τ→δ→Option τ}

/-- The part of a trace that another system sees. -/
def project (state : σ→τ) (event : ε→Option δ) (trace : List (σ×ε)) : List (τ×δ) :=
  trace.filterMap fun p => (event p.2).map fun e => (state p.1,e)

/-- A run is one of a system that takes some of the steps and does not notice the others. -/
theorem Run.project {state : σ→τ} {event : ε→Option δ} {s t : σ} {trace : List (σ×ε)}
    (h : Run step s trace t)
    (hseen : ∀ {a b : σ} {e : ε} {d : δ}, step a e=some b → event e=some d →
      other (state a) d=some (state b))
    (hunseen : ∀ {a b : σ} {e : ε}, step a e=some b → event e=none → state b=state a) :
    Run other (state s) (TransitionSystem.project state event trace) (state t) := by
  induction h with
  | nil => exact .nil
  | @snoc t u trace e run last ih =>
    have happend : TransitionSystem.project state event (trace++[(t,e)])=
        TransitionSystem.project state event trace++
          ((event e).map fun d => (state t,d)).toList := by
      unfold TransitionSystem.project
      rw [List.filterMap_append,List.filterMap_cons]
      cases event e <;> rfl
    rw [happend]
    cases hevent : event e with
    | none =>
      rw [Option.map_none,Option.toList_none,List.append_nil,hunseen last hevent]
      exact ih
    | some d => exact .snoc ih (hseen last hevent)

end Projections

end Applesauce.TransitionSystem
