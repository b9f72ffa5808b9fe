import Applesauce.ScratchPayload

/-!
# The memory payload as a bounded file

The payload is a vector with a cursor that may stand past its end. A write
checks its end against the limit, makes room by an exact reservation computed
from the length of the vector, and leaves the zero filling and the copying to
the cursor. The subtraction in the reservation and the growth inside the
cursor are written out, so that a run shows that neither goes wrong.
-/

namespace Applesauce.MemoryFile

open RustIo SparseFile SeekableFile

section Payload

/-- `MemoryPayload`, with the capacity of its vector and the answers of the allocator. -/
structure MemoryPayload where
  /-- The contents of the vector and the position of the cursor. -/
  data : Cursor
  /-- The capacity of the vector. -/
  capacity : ℕ
  /-- The largest end of a write. -/
  limit : ℕ
  /-- Whether each of the next allocations fails; beyond them none does. -/
  allocations : List Bool
  deriving DecidableEq,Repr

/-- The payload that `Scratch::payload` creates: an empty vector without an allocation. -/
def new (limit : ℕ) (allocations : List Bool) : MemoryPayload := ⟨.empty,0,limit,allocations⟩

/-- The refusal of a seek by the cursor. -/
def seekError : IoError :=
  .new .invalidInput "invalid seek to a negative or overflowing position"

/-- The error of an allocator that gave more than was asked for. -/
def allocationExceeded : IoError := .new .other "memory scratch allocation exceeded its reservation"

/-- `checked_add` on 64-bit positions. -/
def checkedAdd (x y : ℕ) : Option ℕ := if x+y≤u64Max then some (x+y) else none

/-- The end of a write, unless it overflows or lies above the limit. -/
def writeEnd (p : MemoryPayload) (bytes : List UInt8) : Option ℕ :=
  (checkedAdd p.data.pos bytes.length).filter fun last => last≤p.limit

/-- The capacity to grow to: twice the present one or what is needed, within the limit. -/
def grownCapacity (p : MemoryPayload) (last : ℕ) : ℕ :=
  min (max last (min (p.capacity*2) u64Max)) p.limit

/-- `Vec::try_reserve_exact`: nothing where the room is there, else exactly
what was asked for, or a failure. -/
def tryReserveExact (additional : ℕ) : Io MemoryPayload Unit := fun p =>
  if additional≤p.capacity-p.data.bytes.length then .ok () p
  else match p.allocations with
  | true::rest => .error (.error ScratchPayload.allocationFailure) {p with allocations := rest}
  | false::rest => .ok () {p with
      capacity := p.data.bytes.length+additional
      allocations := rest}
  | [] => .ok () {p with capacity := p.data.bytes.length+additional}

/-- The check of what the allocator gave. -/
def checkCapacity : Io MemoryPayload Unit := fun p =>
  if p.limit<p.capacity then .error (.error allocationExceeded) p else .ok () p

/-- Make room for a write that ends there. -/
def makeRoom (last : ℕ) : Io MemoryPayload Unit := fun p =>
  if p.capacity<last then
    (do
      let additional ← subU64 (grownCapacity p last) p.data.bytes.length
      tryReserveExact additional
      checkCapacity : Io MemoryPayload Unit) p
  else .ok () p

/-- `Cursor<Vec<u8>>::write`: grow the vector as `Vec::reserve` does if it is
too small, pad it with zeros up to the position, copy the bytes over it. -/
def cursorWrite (bytes : List UInt8) : Io MemoryPayload ℕ := fun p =>
  let needed := min (p.data.pos+bytes.length) u64Max
  let padded := p.data.bytes++zeros (p.data.pos-p.data.bytes.length)
  .ok bytes.length {p with
    capacity := if p.capacity<needed then max 8 (max (p.capacity*2) needed) else p.capacity
    data := ⟨padded.take p.data.pos++(bytes++padded.drop (p.data.pos+bytes.length)),
      p.data.pos+bytes.length⟩}

/-- `MemoryPayload::write`. -/
def write (bytes : List UInt8) : Io MemoryPayload ℕ := fun p =>
  if bytes=[] then .ok 0 p
  else match writeEnd p bytes with
  | none => .error (.error ScratchPayload.exceededError) p
  | some last =>
    (do
      makeRoom last
      cursorWrite bytes : Io MemoryPayload ℕ) p

/-- `Payload::seek` of a memory payload. -/
def seek (target : SeekFrom) : Io MemoryPayload ℕ := fun p =>
  match p.data.seek target with
  | .ok offset data => .ok offset {p with data := data}
  | .error e data => .error e {p with data := data}

end Payload

section Calls
variable {ι σ α : Type}

/-- Consecutive calls, each from the state the one before it left behind. -/
def run (call : ι→Io σ α) : List ι→σ→List (Except Fault α)×σ
  | [],s => ([],s)
  | op::ops,s =>
    match call op s with
    | .ok a t => (.ok a::(run call ops t).1,(run call ops t).2)
    | .error e t => (.error e::(run call ops t).1,(run call ops t).2)

/-- The calls that returned. -/
def accepted : List ι→List (Except Fault α)→List ι
  | op::ops,.ok _::outcomes => op::accepted ops outcomes
  | _::ops,.error _::outcomes => accepted ops outcomes
  | _,_ => []

/-- What the calls that returned have returned. -/
def returned : List (Except Fault α)→List (Except Fault α)
  | .ok a::outcomes => .ok a::returned outcomes
  | .error _::outcomes => returned outcomes
  | [] => []

/-- One call on a payload or on a file. -/
inductive Op where
  | write (bytes : List UInt8)
  | seek (target : SeekFrom)
  deriving DecidableEq,Repr

/-- One call on a payload. -/
def call : Op→Io MemoryPayload ℕ
  | .write bytes => write bytes
  | .seek target => seek target

/-- One call on an ordinary sparse file, which takes every write. -/
def fileCall : Op→Io Cursor ℕ
  | .write bytes => fun file =>
    .ok bytes.length ⟨overwrite file.bytes file.pos bytes,file.pos+bytes.length⟩
  | .seek target => Cursor.seek target

/-- A write that ends at or below the limit and without an overflow. -/
def Fits (limit : ℕ) (file : Cursor) : Op→Prop
  | .write bytes => file.pos+bytes.length≤limit ∧ file.pos+bytes.length≤u64Max
  | .seek _ => True

/-- Every write of a run on the ordinary file fits. -/
def AllFit (limit : ℕ) : List Op→ Cursor→Prop
  | [],_ => True
  | op::ops,file => Fits limit file op ∧ AllFit limit ops (run fileCall [op] file).2

end Calls

section Write
variable {p : MemoryPayload}

/-- The vector is within its capacity, and that within the limit. -/
structure Sound (p : MemoryPayload) : Prop where
  length_le : p.data.bytes.length≤p.capacity
  capacity_le : p.capacity≤p.limit

/-- A new payload is sound. -/
theorem new_sound (limit : ℕ) (allocations : List Bool) : Sound (new limit allocations) :=
  ⟨Nat.le_refl _,Nat.zero_le _⟩

/-- The end of a write that fits, and nothing for any other. -/
theorem writeEnd_eq (p : MemoryPayload) (bytes : List UInt8) :
    writeEnd p bytes=if p.data.pos+bytes.length≤p.limit ∧ p.data.pos+bytes.length≤u64Max then
      some (p.data.pos+bytes.length) else none := by
  unfold writeEnd checkedAdd
  by_cases hword : p.data.pos+bytes.length≤u64Max
  · by_cases hlimit : p.data.pos+bytes.length≤p.limit
    · rw [if_pos hword,if_pos ⟨hlimit,hword⟩]
      simp [hlimit]
    · rw [if_pos hword,if_neg fun h => hlimit h.1]
      simp [Nat.lt_of_not_le hlimit]
  · rw [if_neg hword,if_neg fun h => hword h.2]
    rfl

/-- Growing for an end within the limit: the subtraction takes no more than
there is, the reservation asks for the grown capacity, and what the allocator
gives is never above the limit. -/
theorem makeRoom_grow (hp : Sound p) {last : ℕ} (hlast : last≤p.limit) (hgrow : p.capacity<last) :
    makeRoom last p=
      match p.allocations with
      | true::rest => .error (.error ScratchPayload.allocationFailure) {p with allocations := rest}
      | false::rest => .ok () {p with capacity := grownCapacity p last,allocations := rest}
      | [] => .ok () {p with capacity := grownCapacity p last,allocations := []} := by
  have hlength := hp.length_le
  have hneeded : last≤grownCapacity p last := le_min (Nat.le_max_left _ _) hlast
  have hlimit : grownCapacity p last≤p.limit := Nat.min_le_right _ _
  have hsub : subU64 (grownCapacity p last) p.data.bytes.length p=
      .ok (grownCapacity p last-p.data.bytes.length) p := subU64_of p (by omega)
  have hmore : ¬grownCapacity p last-p.data.bytes.length≤p.capacity-p.data.bytes.length := by
    omega
  have hsum : p.data.bytes.length+(grownCapacity p last-p.data.bytes.length)=
      grownCapacity p last := by omega
  have hcheck : ∀ rest, checkCapacity {p with capacity := grownCapacity p last,allocations := rest}=
      .ok () {p with capacity := grownCapacity p last,allocations := rest} :=
    fun _ => if_neg (Nat.not_lt.mpr hlimit)
  unfold makeRoom
  rw [if_pos hgrow,bind_of_ok hsub]
  cases ha : p.allocations with
  | nil =>
    have hr : tryReserveExact (grownCapacity p last-p.data.bytes.length) p=
        .ok () {p with capacity := grownCapacity p last,allocations := []} := by
      simp only [tryReserveExact,if_neg hmore,ha,hsum]
    rw [bind_of_ok hr,hcheck]
  | cons failing rest =>
    cases failing with
    | true =>
      have hr : tryReserveExact (grownCapacity p last-p.data.bytes.length) p=
          .error (.error ScratchPayload.allocationFailure) {p with allocations := rest} := by
        simp only [tryReserveExact,if_neg hmore,ha]
      rw [bind_of_error hr]
    | false =>
      have hr : tryReserveExact (grownCapacity p last-p.data.bytes.length) p=
          .ok () {p with capacity := grownCapacity p last,allocations := rest} := by
        simp only [tryReserveExact,if_neg hmore,ha,hsum]
      rw [bind_of_ok hr,hcheck]

/-- Making room gives the room within the limit or reports the failed allocation. -/
theorem makeRoom_cases (hp : Sound p) {last : ℕ} (h : last≤p.limit) :
    (∃ capacity rest, last≤capacity ∧ p.capacity≤capacity ∧ capacity≤p.limit ∧
      makeRoom last p=.ok () {p with capacity := capacity,allocations := rest}) ∨
    ∃ rest, makeRoom last p=
      .error (.error ScratchPayload.allocationFailure) {p with allocations := rest} := by
  by_cases hgrow : p.capacity<last
  · have hneeded : last≤grownCapacity p last := le_min (Nat.le_max_left _ _) h
    have hlimit : grownCapacity p last≤p.limit := Nat.min_le_right _ _
    rw [makeRoom_grow hp h hgrow]
    cases p.allocations with
    | nil => exact Or.inl ⟨_,_,hneeded,by omega,hlimit,rfl⟩
    | cons failing rest =>
      cases failing with
      | true => exact Or.inr ⟨rest,rfl⟩
      | false => exact Or.inl ⟨_,_,hneeded,by omega,hlimit,rfl⟩
  · exact Or.inl ⟨p.capacity,p.allocations,Nat.not_lt.mp hgrow,Nat.le_refl _,hp.capacity_le,
      if_neg hgrow⟩

/-- With the room made, the cursor writes as a sparse file does and grows no further. -/
theorem cursorWrite_eq {bytes : List UInt8} (hne : bytes≠[])
    (h : p.data.pos+bytes.length≤p.capacity) :
    cursorWrite bytes p=.ok bytes.length {p with data := p.data.write bytes} := by
  have hroom : ¬p.capacity< min (p.data.pos+bytes.length) u64Max := by omega
  have hgap : (zeros (p.data.pos-p.data.bytes.length) : List UInt8).drop
      (p.data.pos+bytes.length-p.data.bytes.length)=[] := by
    apply List.drop_eq_nil_of_le
    rw [zeros_length]
    omega
  have hback : (p.data.bytes++zeros (p.data.pos-p.data.bytes.length)).drop
      (p.data.pos+bytes.length)=p.data.bytes.drop (p.data.pos+bytes.length) := by
    rw [List.drop_append,hgap,List.append_nil]
  unfold cursorWrite Cursor.write
  dsimp only
  rw [writeAt_of_ne _ _ hne,hback,if_neg hroom]

/-- What a write does: nothing for no bytes, a refusal past the limit, all of
it, or a failed allocation. Only the second and the last fail, and neither
touches contents, position or capacity. -/
theorem write_cases (hp : Sound p) (bytes : List UInt8) :
    (bytes=[] ∧ write bytes p=.ok 0 p) ∨
    (bytes≠[] ∧ ¬Fits p.limit p.data (.write bytes) ∧
      write bytes p=.error (.error ScratchPayload.exceededError) p) ∨
    (bytes≠[] ∧ ∃ capacity rest, p.data.pos+bytes.length≤capacity ∧ p.capacity≤capacity ∧
      capacity≤p.limit ∧
      write bytes p=.ok bytes.length ⟨p.data.write bytes,capacity,p.limit,rest⟩) ∨
    ∃ rest, write bytes p=
      .error (.error ScratchPayload.allocationFailure) {p with allocations := rest} := by
  unfold write
  by_cases hne : bytes=[]
  · rw [if_pos hne]
    exact Or.inl ⟨hne,rfl⟩
  rw [if_neg hne,writeEnd_eq]
  by_cases hfit : p.data.pos+bytes.length≤p.limit ∧ p.data.pos+bytes.length≤u64Max
  · rw [if_pos hfit]
    dsimp only
    rcases makeRoom_cases hp hfit.1 with ⟨capacity,rest,hend,hgrow,hlimit,hroom⟩|⟨rest,hroom⟩
    · refine Or.inr (Or.inr (Or.inl ⟨hne,capacity,rest,hend,hgrow,hlimit,?_⟩))
      rw [bind_of_ok hroom,cursorWrite_eq hne hend]
    · refine Or.inr (Or.inr (Or.inr ⟨rest,?_⟩))
      rw [bind_of_error hroom]
  · rw [if_neg hfit]
    exact Or.inr (Or.inl ⟨hne,hfit,rfl⟩)

end Write

section Simulation
variable {p : MemoryPayload}

/-- What a call does: it returns what the file returns and leaves the file's
contents and position, or it fails and leaves them as they are. It fails as
the file does, for a write that does not fit, or for want of memory. -/
theorem call_cases (hp : Sound p) (op : Op) :
    (∃ n q, call op p=.ok n q ∧ fileCall op p.data=.ok n q.data ∧ Sound q ∧ q.limit=p.limit) ∨
    ∃ e q, call op p=.error (.error e) q ∧ q.data=p.data ∧ Sound q ∧ q.limit=p.limit ∧
      (fileCall op p.data=.error (.error e) p.data ∨ ¬Fits p.limit p.data op ∨
        e=ScratchPayload.allocationFailure) := by
  cases op with
  | write bytes =>
    rcases write_cases hp bytes with
      ⟨rfl,hw⟩|⟨_,hfit,hw⟩|⟨_,capacity,rest,hend,hgrow,hlimit,hw⟩|⟨rest,hw⟩
    · exact Or.inl ⟨0,p,hw,rfl,hp,rfl⟩
    · exact Or.inr ⟨_,p,hw,rfl,hp,rfl,Or.inr (Or.inl hfit)⟩
    · refine Or.inl ⟨_,_,hw,?_,⟨?_,hlimit⟩,rfl⟩
      · simp only [fileCall,overwrite_eq,Cursor.write]
      · exact (writeAt_length_le _ _ _).trans (max_le (hp.length_le.trans hgrow) hend)
    · exact Or.inr ⟨_,_,hw,rfl,⟨hp.length_le,hp.capacity_le⟩,rfl,Or.inr (Or.inr rfl)⟩
  | seek target =>
    cases ht : p.data.seekTarget target with
    | some pos =>
      have hs : p.data.seek target=.ok pos {p.data with pos := pos} := by
        unfold Cursor.seek
        rw [ht]
      refine Or.inl ⟨pos,{p with data := {p.data with pos := pos}},?_,hs,
        ⟨hp.length_le,hp.capacity_le⟩,rfl⟩
      change seek target p=_
      unfold seek
      rw [hs]
    | none =>
      have hs : p.data.seek target=.error (.error seekError) p.data := by
        unfold Cursor.seek
        rw [ht]
        rfl
      refine Or.inr ⟨_,p,?_,rfl,hp,rfl,Or.inl hs⟩
      change seek target p=_
      unfold seek
      rw [hs]

/-- A payload stays sound, and never panics. -/
theorem run_sound (hp : Sound p) (ops : List Op) :
    Sound (run call ops p).2 ∧ (run call ops p).2.limit=p.limit ∧
    ∀ message, .error (.panic message)∉(run call ops p).1 := by
  induction ops generalizing p with
  | nil => exact ⟨hp,rfl,fun _ => List.not_mem_nil⟩
  | cons op ops ih =>
    rcases call_cases hp op with ⟨n,q,hc,_,hq,hlimit⟩|⟨e,q,hc,_,hq,hlimit,_⟩
    · obtain ⟨hs,hl,hno⟩ := ih hq
      simp only [run,hc]
      exact ⟨hs,hl.trans hlimit,fun message h => (List.mem_cons.mp h).elim nofun (hno message)⟩
    · obtain ⟨hs,hl,hno⟩ := ih hq
      simp only [run,hc]
      exact ⟨hs,hl.trans hlimit,fun message h => (List.mem_cons.mp h).elim nofun (hno message)⟩

/-- The calls that returned are a run of the file, with the same results. -/
theorem run_accepted (hp : Sound p) (ops : List Op) :
    (run call ops p).2.data=(run fileCall (accepted ops (run call ops p).1) p.data).2 ∧
    returned (run call ops p).1=(run fileCall (accepted ops (run call ops p).1) p.data).1 := by
  induction ops generalizing p with
  | nil => exact ⟨rfl,rfl⟩
  | cons op ops ih =>
    rcases call_cases hp op with ⟨n,q,hc,hf,hq,_⟩|⟨e,q,hc,hdata,hq,_⟩
    · obtain ⟨hlast,hresults⟩ := ih hq
      simp only [run,hc,accepted,hf,returned,hlast,hresults,and_self]
    · obtain ⟨hlast,hresults⟩ := ih hq
      rw [hdata] at hlast hresults
      simp only [run,hc,accepted,returned,hlast,hresults,and_self]

/-- While every write fits and memory suffices, the payload is the file. -/
theorem run_of_fits (hp : Sound p) (ops : List Op) (hfit : AllFit p.limit ops p.data)
    (hmemory : .error (.error ScratchPayload.allocationFailure)∉(run call ops p).1) :
    run fileCall ops p.data=((run call ops p).1,(run call ops p).2.data) := by
  induction ops generalizing p with
  | nil => rfl
  | cons op ops ih =>
    obtain ⟨hop,hops⟩ := hfit
    rcases call_cases hp op with ⟨n,q,hc,hf,hq,hlimit⟩|⟨e,q,hc,hdata,hq,hlimit,hwhy⟩
    · simp only [run,hf] at hops
      simp only [run,hc,List.mem_cons,not_or] at hmemory
      rw [←hlimit] at hops
      simp only [run,hc,hf,ih hq hops hmemory.2]
    · simp only [run,hc,List.mem_cons,not_or] at hmemory
      rcases hwhy with hf|hover|rfl
      · simp only [run,hf] at hops
        rw [←hlimit,←hdata] at hops
        have hrest := ih hq hops hmemory.2
        rw [hdata] at hrest
        simp only [run,hc,hf,hrest]
      · exact (hover hop).elim
      · exact (hmemory.1 rfl).elim

/-- A write of no bytes returns and changes nothing, wherever the cursor stands. -/
theorem write_nil (p : MemoryPayload) : call (.write []) p=.ok 0 p := rfl

/-- A write of some bytes that does not fit is refused and changes nothing. -/
theorem write_refused {bytes : List UInt8} (hne : bytes≠[])
    (h : ¬Fits p.limit p.data (.write bytes)) :
    call (.write bytes) p=.error (.error ScratchPayload.exceededError) p := by
  have hnone : ¬(p.data.pos+bytes.length≤p.limit ∧ p.data.pos+bytes.length≤u64Max) := h
  change write bytes p=_
  unfold write
  rw [if_neg hne,writeEnd_eq,if_neg hnone]

end Simulation

section Bounded

/-- Over any calls in any order a memory payload is a bounded sparse file. While
every write fits and memory suffices, it is the file; in general it is the file
under the calls that returned. A write of some bytes that does not fit is
refused without effect, one of no bytes returns without effect also above the
limit, the capacity stays between the length and the limit, and no run panics. -/
theorem payload_is_bounded_file (limit : ℕ) (allocations : List Bool) (ops : List Op) :
    (AllFit limit ops .empty →
      .error (.error ScratchPayload.allocationFailure)∉(run call ops (new limit allocations)).1 →
      run fileCall ops .empty=((run call ops (new limit allocations)).1,
        (run call ops (new limit allocations)).2.data)) ∧
    ((run call ops (new limit allocations)).2.data=
        (run fileCall (accepted ops (run call ops (new limit allocations)).1) .empty).2 ∧
      returned (run call ops (new limit allocations)).1=
        (run fileCall (accepted ops (run call ops (new limit allocations)).1) .empty).1) ∧
    (∀ bytes, bytes≠[] →
      ¬Fits limit (run call ops (new limit allocations)).2.data (.write bytes) →
      call (.write bytes) (run call ops (new limit allocations)).2=
        .error (.error ScratchPayload.exceededError) (run call ops (new limit allocations)).2) ∧
    call (.write []) (run call ops (new limit allocations)).2=
      .ok 0 (run call ops (new limit allocations)).2 ∧
    ((run call ops (new limit allocations)).2.data.bytes.length≤
        (run call ops (new limit allocations)).2.capacity ∧
      (run call ops (new limit allocations)).2.capacity≤limit) ∧
    ∀ message, .error (.panic message)∉(run call ops (new limit allocations)).1 := by
  obtain ⟨hsound,hlimit,hpanic⟩ := run_sound (new_sound limit allocations) ops
  refine ⟨run_of_fits (new_sound limit allocations) ops,
    run_accepted (new_sound limit allocations) ops,fun bytes hne hfit => ?_,write_nil _,
    ⟨hsound.length_le,hsound.capacity_le.trans_eq hlimit⟩,hpanic⟩
  refine write_refused hne fun h => hfit ?_
  rw [hlimit] at h
  exact h

/-- No bytes are accepted wherever the cursor stands: at position 33 of a
payload of 32 bytes the write of none returns. -/
theorem empty_write_past_limit :
    ¬∀ (limit : ℕ) (allocations : List Bool) (ops : List Op) (bytes : List UInt8),
      ¬Fits limit (run call ops (new limit allocations)).2.data (.write bytes) →
      ∃ e q, call (.write bytes) (run call ops (new limit allocations)).2=.error e q := by
  intro h
  have hfit : ¬Fits 32 (run call [.seek (.start 33)] (new 32 [])).2.data (.write []) :=
    fun hle => absurd hle.1 (by decide)
  obtain ⟨e,q,he⟩ := h 32 [] [.seek (.start 33)] [] hfit
  cases he

end Bounded

section Device
variable {p : MemoryPayload}

/-- A sound payload as the device that writers fill. -/
def device (p : MemoryPayload) (h : Sound p) : ScratchPayload.MemoryPayload :=
  ⟨p.data,p.capacity,p.limit,p.allocations,h.length_le,h.capacity_le⟩

/-- The result of a call on the device is that of the call on the payload. -/
def SameOnDevice (device' : EStateM.Result Fault ScratchPayload.MemoryPayload ℕ) :
    EStateM.Result Fault MemoryPayload ℕ→Prop
  | .ok n q => ∃ h, device'=.ok n (device q h)
  | .error e q => ∃ h, device'=.error e (device q h)

/-- A write that fits, with room made for it, leaves the same on the device. -/
theorem write_device_ok (h : Sound p) {bytes : List UInt8} (hne : bytes≠[])
    (hfit : p.data.pos+bytes.length≤p.limit) {capacity : ℕ} {rest : List Bool}
    (hcapacity : (device p h).grownCapacity (p.data.pos+bytes.length)=capacity)
    (hroom : makeRoom (p.data.pos+bytes.length) p=
      .ok () {p with capacity := capacity,allocations := rest}) :
    SameOnDevice (.ok bytes.length ((device p h).store bytes rest hfit))
      ((do
        makeRoom (p.data.pos+bytes.length)
        cursorWrite bytes : Io MemoryPayload ℕ) p) := by
  have hneeded : p.data.pos+bytes.length≤capacity :=
    hcapacity ▸ (device p h).needed_le_grown hfit
  have hgrown : p.capacity≤capacity := hcapacity ▸ (device p h).capacity_le_grown _
  have hlimit : capacity≤p.limit := hcapacity ▸ (device p h).grown_le_limit _
  rw [bind_of_ok hroom,cursorWrite_eq hne hneeded]
  subst hcapacity
  refine ⟨⟨?_,hlimit⟩,rfl⟩
  exact (writeAt_length_le _ _ _).trans (max_le (h.length_le.trans hgrown) hneeded)

/-- The device writes as the payload does. -/
theorem write_device (h : Sound p) (hlimit : p.limit≤u64Max) (bytes : List UInt8) :
    SameOnDevice (ScratchPayload.MemoryPayload.write bytes (device p h)) (write bytes p) := by
  unfold ScratchPayload.MemoryPayload.write write
  by_cases hne : bytes=[]
  · rw [if_pos hne,if_pos hne]
    exact ⟨h,rfl⟩
  rw [if_neg hne,if_neg hne,writeEnd_eq]
  by_cases hfit : p.data.pos+bytes.length≤p.limit
  · have hword : p.data.pos+bytes.length≤p.limit ∧ p.data.pos+bytes.length≤u64Max :=
      ⟨hfit,hfit.trans hlimit⟩
    have hdevice : (device p h).data.pos+bytes.length≤(device p h).limit := hfit
    rw [if_pos hword,dif_pos hdevice]
    dsimp only
    by_cases hgrow : p.capacity<p.data.pos+bytes.length
    · have hcapacity : (device p h).grownCapacity (p.data.pos+bytes.length)=
          grownCapacity p (p.data.pos+bytes.length) := if_pos hgrow
      have hroom := makeRoom_grow h hfit hgrow
      have hsmall : (device p h).capacity<(device p h).data.pos+bytes.length := hgrow
      rw [if_pos hsmall]
      change SameOnDevice (match p.allocations with
        | true::rest => _
        | false::rest => _
        | [] => _) _
      cases ha : p.allocations with
      | nil =>
        rw [ha] at hroom
        exact write_device_ok h hne hfit hcapacity hroom
      | cons failing rest =>
        rw [ha] at hroom
        cases failing with
        | true =>
          rw [bind_of_error hroom]
          exact ⟨⟨h.length_le,h.capacity_le⟩,rfl⟩
        | false => exact write_device_ok h hne hfit hcapacity hroom
    · have hcapacity : (device p h).grownCapacity (p.data.pos+bytes.length)=p.capacity :=
        if_neg hgrow
      have hroom : makeRoom (p.data.pos+bytes.length) p=.ok () p := if_neg hgrow
      have hlarge : ¬(device p h).capacity<(device p h).data.pos+bytes.length := hgrow
      rw [if_neg hlarge]
      exact write_device_ok h hne hfit hcapacity hroom
  · have hword : ¬(p.data.pos+bytes.length≤p.limit ∧ p.data.pos+bytes.length≤u64Max) :=
      fun hboth => hfit hboth.1
    have hdevice : ¬(device p h).data.pos+bytes.length≤(device p h).limit := hfit
    rw [if_neg hword,dif_neg hdevice]
    exact ⟨h,rfl⟩

/-- The device seeks as the payload does. -/
theorem seek_device (h : Sound p) (target : SeekFrom) :
    SameOnDevice (ScratchPayload.MemoryPayload.seek target (device p h)) (seek target p) := by
  unfold ScratchPayload.MemoryPayload.seek seek
  split
  · next offset data hs =>
    change p.data.seek target=_ at hs
    rw [hs]
    refine ⟨⟨?_,h.capacity_le⟩,rfl⟩
    change data.bytes.length≤p.capacity
    rw [(Cursor.seek_ok_bytes hs).1]
    exact h.length_le
  · next e data hs =>
    change p.data.seek target=_ at hs
    rw [hs]
    have hdata : data=p.data := by
      unfold Cursor.seek at hs
      cases ht : p.data.seekTarget target with
      | some pos => rw [ht] at hs; cases hs
      | none => rw [ht] at hs; cases hs; rfl
    rw [hdata]
    exact ⟨h,rfl⟩

end Device

end Applesauce.MemoryFile
