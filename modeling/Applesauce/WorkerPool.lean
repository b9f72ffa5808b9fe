import Mathlib.Data.List.Nodup

/-!
# Pools of workers behind a bounded channel

Items are sent through a channel of bounded capacity, in the order in which
they are received. A fixed number of workers take them, one at a time each.
Where the keys of a pool stand for the entries of a table, the channel holds
exactly those that are queued, and a worker only has one that is handled.
-/

namespace Applesauce.WorkerPool

/-- The sizes of a pool. -/
structure Sizes where
  /-- How many items the channel holds. -/
  capacity : ℕ
  /-- How many workers there are. -/
  workers : ℕ
  /-- The channel holds an item. -/
  capacity_pos : 0<capacity
  /-- There is a worker. -/
  workers_pos : 0<workers

/-- The items of a pool. -/
structure Pool (α : Type*) where
  /-- The items in the channel, in the order of their sending. -/
  waiting : List α
  /-- The items the workers have. -/
  busy : List α
  deriving DecidableEq,Repr

variable {α : Type*}

/-- No item in the channel, no worker busy. -/
def Pool.empty : Pool α := ⟨[],[]⟩

/-- An item is sent, unless the channel is full. -/
def Pool.send (sizes : Sizes) (x : α) (p : Pool α) : Option (Pool α) :=
  if p.waiting.length< sizes.capacity then some ⟨p.waiting++[x],p.busy⟩ else none

/-- An idle worker takes the first item of the channel, if it is this one. -/
def Pool.take [DecidableEq α] (sizes : Sizes) (x : α) (p : Pool α) : Option (Pool α) :=
  match p.waiting with
  | [] => none
  | y::rest => if y=x ∧ p.busy.length< sizes.workers then some ⟨rest,p.busy++[x]⟩ else none

/-- The worker that has an item is done with it. -/
def Pool.release [DecidableEq α] (x : α) (p : Pool α) : Pool α := ⟨p.waiting,p.busy.erase x⟩

section Steps
variable {sizes : Sizes} {p q : Pool α} {x : α}

/-- What a send does. -/
theorem Pool.send_eq_some (h : p.send sizes x=some q) :
    p.waiting.length< sizes.capacity ∧ q=⟨p.waiting++[x],p.busy⟩ := by
  obtain ⟨hroom,hq⟩ := Option.ite_none_right_eq_some.mp h
  exact ⟨hroom,(Option.some.inj hq).symm⟩

/-- What taking an item does. -/
theorem Pool.take_eq_some [DecidableEq α] (h : p.take sizes x=some q) :
    ∃ rest, p.waiting=x::rest ∧ p.busy.length< sizes.workers ∧ q=⟨rest,p.busy++[x]⟩ := by
  unfold Pool.take at h
  split at h
  · cases h
  · next y rest hwaiting =>
    obtain ⟨⟨rfl,hidle⟩,hq⟩ := Option.ite_none_right_eq_some.mp h
    exact ⟨rest,hwaiting,hidle,(Option.some.inj hq).symm⟩

/-- A pool without items is the empty one. -/
theorem Pool.eq_empty (hwaiting : p.waiting=[]) (hbusy : p.busy=[]) : p=.empty := by
  obtain ⟨waiting,busy⟩ := p
  obtain rfl := hwaiting
  obtain rfl := hbusy
  rfl

/-- An empty channel has room. -/
theorem Pool.send_of_nil (sizes : Sizes) (x : α) (h : p.waiting=[]) :
    p.send sizes x=some ⟨[x],p.busy⟩ := by
  unfold Pool.send
  rw [h]
  exact if_pos sizes.capacity_pos

/-- When no worker is busy, the first item is taken. -/
theorem Pool.take_of_nil [DecidableEq α] (sizes : Sizes) {rest : List α} (h : p.busy=[])
    (hwaiting : p.waiting=x::rest) : p.take sizes x=some ⟨rest,[x]⟩ := by
  unfold Pool.take
  rw [hwaiting,h]
  exact if_pos ⟨rfl,sizes.workers_pos⟩

/-- The channel and the workers are within the sizes. -/
structure Pool.Within (sizes : Sizes) (p : Pool α) : Prop where
  /-- The channel is not overfull. -/
  waiting : p.waiting.length≤ sizes.capacity
  /-- Every item has a worker. -/
  busy : p.busy.length≤ sizes.workers

/-- An empty pool is within any sizes. -/
theorem Pool.within_empty (sizes : Sizes) : (Pool.empty : Pool α).Within sizes :=
  ⟨Nat.zero_le _,Nat.zero_le _⟩

/-- Sending keeps to the sizes. -/
theorem Pool.Within.send (h : p.Within sizes) (hsend : p.send sizes x=some q) :
    q.Within sizes := by
  obtain ⟨hroom,rfl⟩ := Pool.send_eq_some hsend
  refine ⟨?_,h.busy⟩
  rw [List.length_append,List.length_singleton]
  exact hroom

/-- Taking keeps to the sizes. -/
theorem Pool.Within.take [DecidableEq α] (h : p.Within sizes) (htake : p.take sizes x=some q) :
    q.Within sizes := by
  obtain ⟨rest,hwaiting,hidle,rfl⟩ := Pool.take_eq_some htake
  have hlength := h.waiting
  rw [hwaiting,List.length_cons] at hlength
  refine ⟨Nat.le_of_succ_le hlength,?_⟩
  rw [List.length_append,List.length_singleton]
  exact hidle

/-- Being done with an item keeps to the sizes. -/
theorem Pool.Within.release [DecidableEq α] (h : p.Within sizes) (x : α) :
    (p.release x).Within sizes :=
  ⟨h.waiting,Nat.le_trans List.length_erase_le h.busy⟩

end Steps

section Tables
variable {queued handled queued' handled' : α→Prop} {p : Pool α} {k : α}

/-- The channel holds what is queued, and the workers have only what is handled. -/
structure Lined (queued handled : α→Prop) (p : Pool α) : Prop where
  /-- The channel holds exactly what is queued. -/
  waiting : ∀ x, x∈p.waiting ↔ queued x
  /-- Every worker has something handled. -/
  busy : ∀ x∈p.busy, handled x
  /-- Nothing is in the channel twice. -/
  once : p.waiting.Nodup
  /-- Nothing is with two workers. -/
  alone : p.busy.Nodup

/-- Nothing is queued in an empty pool. -/
theorem lined_empty (h : ∀ x, ¬queued x) : Lined queued handled (Pool.empty : Pool α) :=
  ⟨fun x => iff_of_false List.not_mem_nil (h x),fun _ hx => (List.not_mem_nil hx).elim,
    List.nodup_nil,List.nodup_nil⟩

/-- The table changes, but not what is queued. -/
theorem Lined.keep (h : Lined queued handled p) (hqueued : ∀ x, queued' x ↔ queued x)
    (hhandled : ∀ x, handled x → handled' x) : Lined queued' handled' p :=
  ⟨fun x => (h.waiting x).trans (hqueued x).symm,fun x hx => hhandled x (h.busy x hx),h.once,h.alone⟩

/-- An entry is sent. -/
theorem Lined.send (h : Lined queued handled p) (hk : ¬queued k)
    (hqueued : ∀ x, queued' x ↔ queued x ∨ x=k) (hhandled : ∀ x, handled x → handled' x) :
    Lined queued' handled' ⟨p.waiting++[k],p.busy⟩ where
  waiting x := by
    rw [List.mem_append,List.mem_singleton,h.waiting x,hqueued x]
  busy x hx := hhandled x (h.busy x hx)
  once := by
    refine List.nodup_append.mpr ⟨h.once,List.nodup_singleton k,fun a ha b hb hab => hk ?_⟩
    rw [List.mem_singleton.mp hb] at hab
    rw [hab] at ha
    exact (h.waiting k).mp ha
  alone := h.alone

/-- A worker takes an entry. -/
theorem Lined.take (h : Lined queued handled p) {rest : List α} (hwaiting : p.waiting=k::rest)
    (hk : ¬handled k) (hqueued : ∀ x, queued' x ↔ queued x ∧ x≠k)
    (hhandled : ∀ x, handled x → handled' x) (hnew : handled' k) :
    Lined queued' handled' ⟨rest,p.busy++[k]⟩ := by
  have honce := h.once
  rw [hwaiting] at honce
  obtain ⟨hnot,hrest⟩ := List.nodup_cons.mp honce
  refine ⟨fun x => ?_,fun x hx => ?_,hrest,?_⟩
  · have hold := h.waiting x
    rw [hwaiting,List.mem_cons] at hold
    rw [hqueued x,←hold]
    constructor
    · intro hx
      refine ⟨.inr hx,fun hbad => hnot ?_⟩
      rw [←hbad]
      exact hx
    · exact fun hx => hx.1.resolve_left hx.2
  · rcases List.mem_append.mp hx with hold|hlast
    · exact hhandled x (h.busy x hold)
    · rw [List.mem_singleton.mp hlast]
      exact hnew
  · refine List.nodup_append.mpr ⟨h.alone,List.nodup_singleton k,fun a ha b hb hab => hk ?_⟩
    rw [List.mem_singleton.mp hb] at hab
    rw [hab] at ha
    exact h.busy k ha

/-- A worker is done with an entry. -/
theorem Lined.release [DecidableEq α] (h : Lined queued handled p)
    (hqueued : ∀ x, queued' x ↔ queued x) (hhandled : ∀ x, x≠k → handled x → handled' x) :
    Lined queued' handled' (p.release k) where
  waiting x := (h.waiting x).trans (hqueued x).symm
  busy x hx := by
    obtain ⟨hne,hold⟩ := (h.alone.mem_erase_iff).mp hx
    exact hhandled x hne (h.busy x hold)
  once := h.once
  alone := h.alone.erase k

/-- Where nothing is handled, the pool is empty or an idle worker takes what is queued. -/
theorem Lined.drained [DecidableEq α] (h : Lined queued handled p) (sizes : Sizes)
    (hhandled : ∀ x, ¬handled x) : p=.empty ∨ ∃ k q, queued k ∧ p.take sizes k=some q := by
  have hbusy : p.busy=[] := List.eq_nil_iff_forall_not_mem.mpr fun x hx => hhandled x (h.busy x hx)
  cases hwaiting : p.waiting with
  | nil => exact .inl (Pool.eq_empty hwaiting hbusy)
  | cons k rest =>
    have hk : k∈p.waiting := by
      rw [hwaiting]
      exact List.mem_cons_self
    exact .inr ⟨k,_,(h.waiting k).mp hk,Pool.take_of_nil sizes hbusy hwaiting⟩

end Tables

end Applesauce.WorkerPool
