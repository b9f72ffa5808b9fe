import Applesauce.BoundedSink
import Applesauce.DecmpfsWriter

/-!
# Scratch payloads as devices

A payload is a file in the scratch directory or a growing buffer that
refuses to pass its limit. Every device follows a script of answers, so that
any call can be short, be interrupted or fail.
-/

namespace Applesauce.ScratchPayload

open RustIo SparseFile SeekableFile BufferedSink BoundedSink IoTriple DecmpfsValue

/-- What a device answers to one call. -/
inductive Answer where
  /-- Accept at most so many bytes. -/
  | accept (limit : ℕ)
  /-- Interrupted before anything happened. -/
  | interrupted
  /-- Fail without effect, with an error of the operating system. -/
  | fails (kind : ErrorKind)
  deriving DecidableEq,Repr

/-- The error of an interrupted call. -/
def interruptedError : IoError := .ofKind .interrupted

/-- An ordinary file with the answers it will give; beyond them every call succeeds. -/
structure DeviceFile where
  /-- Contents and position. -/
  contents : Cursor
  /-- The answers to the next calls. -/
  answers : List Answer
  deriving DecidableEq,Repr

namespace DeviceFile

/-- `write` of a file. -/
def write (data : List UInt8) : Io DeviceFile ℕ := fun f =>
  match f.answers with
  | [] => .ok data.length ⟨f.contents.write data,[]⟩
  | .accept limit::answers =>
    .ok (min limit data.length) ⟨f.contents.write (data.take (min limit data.length)),answers⟩
  | .interrupted::answers => .error (.error interruptedError) ⟨f.contents,answers⟩
  | .fails kind::answers => .error (.error (.ofKind kind)) ⟨f.contents,answers⟩

/-- `seek` of a file. -/
def seek (target : SeekFrom) : Io DeviceFile ℕ := fun f =>
  match f.contents.seek target with
  | .ok pos contents => .ok pos {f with contents := contents}
  | .error e _ => .error e f

instance : RawSink DeviceFile where
  write := write
  flush := fun f => .ok () f
  seek := seek
  patience f := f.answers.length

instance : LawfulRawSink DeviceFile where
  file f := f.contents
  write_ok {data s t n} h := by
    obtain ⟨contents,answers⟩ := s
    change write data ⟨contents,answers⟩=_ at h
    cases answers with
    | nil =>
      cases h
      exact ⟨Nat.le_refl _,by rw [List.take_length],Nat.le_refl _⟩
    | cons answer answers =>
      cases answer with
      | accept limit =>
        cases h
        exact ⟨Nat.min_le_right _ _,rfl,Nat.le_succ _⟩
      | interrupted => cases h
      | fails e => cases h
  write_error {data s t e} h := by
    obtain ⟨contents,answers⟩ := s
    change write data ⟨contents,answers⟩=_ at h
    cases answers with
    | nil => cases h
    | cons answer answers =>
      cases answer with
      | accept limit => cases h
      | interrupted =>
        cases h
        rfl
      | fails e =>
        cases h
        rfl
  write_interrupted {data s t e} h _ := by
    obtain ⟨contents,answers⟩ := s
    change write data ⟨contents,answers⟩=_ at h
    cases answers with
    | nil => cases h
    | cons answer answers =>
      cases answer with
      | accept limit => cases h
      | interrupted =>
        cases h
        exact Nat.lt_succ_self _
      | fails e =>
        cases h
        exact Nat.lt_succ_self _
  seek_ok {target s t pos} h := by
    change seek target s=_ at h
    unfold seek at h
    cases hs : s.contents.seek target with
    | ok q c =>
      rw [hs] at h
      cases h
      rfl
    | error e c => rw [hs] at h; cases h
  seek_error {target s t e} h := by
    change seek target s=_ at h
    unfold seek at h
    cases hs : s.contents.seek target with
    | ok q c => rw [hs] at h; cases h
    | error e c =>
      rw [hs] at h
      cases h
      rfl
  flush_ok h := by
    cases h
    rfl
  flush_error h := by cases h

end DeviceFile

/-- The refusal of a write past the limit of a memory payload. -/
def exceededError : IoError := .new .other "memory scratch payload exceeded its reservation"

/-- A failed allocation, converted into an I/O error. -/
def allocationFailure : IoError :=
  .new .other "memory allocation failed because the memory allocator returned an error"

/-- The assertion of `Reservation::shrink_to`. -/
def shrinkAssertion : Fault := .panic "scratch output exceeded its reservation"

/-- The two ways in which staging could outgrow its reservation. -/
def OverReservation (e : Fault) : Prop := e=.error exceededError ∨ e=shrinkAssertion

instance (e : Fault) : Decidable (OverReservation e) := inferInstanceAs (Decidable (_ ∨ _))

/-- An error of the operating system is never one of them. -/
theorem not_over_ofKind (kind : ErrorKind) : ¬OverReservation (.error (.ofKind kind)) := by
  rintro (h|h)
  · cases h
  · cases h

/-- A growing buffer whose capacity never passes its limit. -/
structure MemoryPayload where
  /-- Contents and position. -/
  data : Cursor
  /-- The capacity of the vector. -/
  capacity : ℕ
  /-- The largest end of a write. -/
  limit : ℕ
  /-- Whether each of the next allocations fails. -/
  allocations : List Bool
  length_le : data.bytes.length≤capacity
  capacity_le : capacity≤limit

namespace MemoryPayload

/-- An empty payload, without an allocation. -/
def new (limit : ℕ) (allocations : List Bool) : MemoryPayload :=
  ⟨.empty,0,limit,allocations,Nat.le_refl 0,Nat.zero_le limit⟩

/-- The capacity after making room up to `needed`: geometric growth, clamped to the limit. -/
def grownCapacity (p : MemoryPayload) (needed : ℕ) : ℕ :=
  if p.capacity<needed then min (max needed (min (p.capacity*2) u64Max)) p.limit else p.capacity

/-- Making room never shrinks the buffer. -/
theorem capacity_le_grown (p : MemoryPayload) (needed : ℕ) : p.capacity≤p.grownCapacity needed := by
  have hle := p.capacity_le
  unfold grownCapacity
  by_cases h : p.capacity<needed
  · rw [if_pos h]
    exact le_min (h.le.trans (Nat.le_max_left _ _)) hle
  · rw [if_neg h]

/-- Making room stays within the limit. -/
theorem grown_le_limit (p : MemoryPayload) (needed : ℕ) : p.grownCapacity needed≤p.limit := by
  unfold grownCapacity
  by_cases h : p.capacity<needed
  · rw [if_pos h]
    exact Nat.min_le_right _ _
  · rw [if_neg h]
    exact p.capacity_le

/-- Making room within the limit makes enough. -/
theorem needed_le_grown (p : MemoryPayload) {needed : ℕ} (h : needed≤p.limit) :
    needed≤p.grownCapacity needed := by
  unfold grownCapacity
  by_cases hlt : p.capacity<needed
  · rw [if_pos hlt]
    exact le_min (Nat.le_max_left _ _) h
  · rw [if_neg hlt]
    exact Nat.not_lt.mp hlt

/-- The payload after room was made and the bytes were stored. -/
def store (p : MemoryPayload) (bytes : List UInt8) (allocations : List Bool)
    (h : p.data.pos+bytes.length≤p.limit) : MemoryPayload where
  data := p.data.write bytes
  capacity := p.grownCapacity (p.data.pos+bytes.length)
  limit := p.limit
  allocations := allocations
  length_le := by
    have hlength := p.length_le.trans (p.capacity_le_grown (p.data.pos+bytes.length))
    exact (writeAt_length_le _ _ _).trans (max_le hlength (p.needed_le_grown h))
  capacity_le := p.grown_le_limit _

/-- `MemoryPayload::write`. An allocation yields exactly what was asked for, so
the check of the new capacity against the limit always passes. -/
def write (bytes : List UInt8) : Io MemoryPayload ℕ := fun p =>
  if bytes=[] then .ok 0 p
  else if h : p.data.pos+bytes.length≤p.limit then
    if p.capacity<p.data.pos+bytes.length then
      match p.allocations with
      | true::allocations => .error (.error allocationFailure) {p with allocations := allocations}
      | false::allocations => .ok bytes.length (p.store bytes allocations h)
      | [] => .ok bytes.length (p.store bytes [] h)
    else .ok bytes.length (p.store bytes p.allocations h)
  else .error (.error exceededError) p

/-- `seek` of the cursor. -/
def seek (target : SeekFrom) : Io MemoryPayload ℕ := fun p =>
  match h : p.data.seek target with
  | .ok pos data =>
    .ok pos {p with
      data := data
      length_le := by
        rw [(Cursor.seek_ok_bytes h).1]
        exact p.length_le}
  | .error e _ => .error e p

/-- What a write does: nothing, all of it, or nothing with a fault; past the
limit it is refused. -/
theorem write_cases (bytes : List UInt8) (p : MemoryPayload) :
    (bytes=[] ∧ write bytes p=.ok 0 p) ∨
      (∃ h allocations, allocations.length≤p.allocations.length ∧
        write bytes p=.ok bytes.length (p.store bytes allocations h)) ∨
      (∃ allocations, p.allocations=true::allocations ∧
        write bytes p=.error (.error allocationFailure) {p with allocations := allocations}) ∨
      (¬p.data.pos+bytes.length≤p.limit ∧ write bytes p=.error (.error exceededError) p) := by
  unfold write
  by_cases hnil : bytes=[]
  · rw [if_pos hnil]
    exact Or.inl ⟨hnil,rfl⟩
  rw [if_neg hnil]
  by_cases hfit : p.data.pos+bytes.length≤p.limit
  · rw [dif_pos hfit]
    by_cases hgrow : p.capacity<p.data.pos+bytes.length
    · rw [if_pos hgrow]
      cases ha : p.allocations with
      | nil => exact Or.inr (Or.inl ⟨hfit,[],Nat.le_refl _,rfl⟩)
      | cons answer allocations =>
        cases answer with
        | false => exact Or.inr (Or.inl ⟨hfit,allocations,Nat.le_succ _,rfl⟩)
        | true => exact Or.inr (Or.inr (Or.inl ⟨allocations,rfl,rfl⟩))
    · rw [if_neg hgrow]
      exact Or.inr (Or.inl ⟨hfit,p.allocations,Nat.le_refl _,rfl⟩)
  · rw [dif_neg hfit]
    exact Or.inr (Or.inr (Or.inr ⟨hfit,rfl⟩))

/-- What a seek does. -/
theorem seek_cases (target : SeekFrom) (p : MemoryPayload) :
    (∃ pos t, seek target p=.ok pos t ∧ p.data.seek target=.ok pos t.data ∧ t.limit=p.limit) ∨
      ∃ e c, seek target p=.error e p ∧ p.data.seek target=.error e c := by
  unfold seek
  split
  · next pos data h => exact Or.inl ⟨pos,_,rfl,h,rfl⟩
  · next e c h => exact Or.inr ⟨e,c,rfl,h⟩

instance : RawSink MemoryPayload where
  write := write
  flush := fun p => .ok () p
  seek := seek
  patience p := p.allocations.length

instance : LawfulRawSink MemoryPayload where
  file p := p.data
  write_ok {bytes s t n} h := by
    change write bytes s=_ at h
    rcases write_cases bytes s with ⟨rfl,heq⟩|⟨_,allocations,hle,heq⟩|⟨_,_,heq⟩|⟨_,heq⟩
    · rw [heq] at h
      cases h
      exact ⟨Nat.le_refl _,rfl,Nat.le_refl _⟩
    · rw [heq] at h
      cases h
      exact ⟨Nat.le_refl _,by rw [List.take_length]; rfl,hle⟩
    · rw [heq] at h
      cases h
    · rw [heq] at h
      cases h
  write_error {bytes s t e} h := by
    change write bytes s=_ at h
    rcases write_cases bytes s with ⟨rfl,heq⟩|⟨_,allocations,_,heq⟩|⟨_,_,heq⟩|⟨_,heq⟩
    · rw [heq] at h
      cases h
    · rw [heq] at h
      cases h
    · rw [heq] at h
      cases h
      rfl
    · rw [heq] at h
      cases h
      rfl
  write_interrupted {bytes s t e} h hi := by
    change write bytes s=_ at h
    rcases write_cases bytes s with ⟨rfl,heq⟩|⟨_,allocations,_,heq⟩|⟨_,_,heq⟩|⟨_,heq⟩
    · rw [heq] at h
      cases h
    · rw [heq] at h
      cases h
    · rw [heq] at h
      cases h
      cases hi
    · rw [heq] at h
      cases h
      cases hi
  seek_ok {target s t pos} h := by
    change seek target s=_ at h
    rcases seek_cases target s with ⟨q,r,heq,hc,_⟩|⟨e,c,heq,_⟩
    · rw [heq] at h
      cases h
      exact hc
    · rw [heq] at h
      cases h
  seek_error {target s t e} h := by
    change seek target s=_ at h
    rcases seek_cases target s with ⟨q,r,heq,_⟩|⟨e,c,heq,_⟩
    · rw [heq] at h
      cases h
    · rw [heq] at h
      cases h
      rfl
  flush_ok h := by
    cases h
    rfl
  flush_error h := by cases h

end MemoryPayload

/-- `Payload`: seekable staging storage. -/
inductive Payload where
  /-- A file in the scratch directory. -/
  | disk (file : DeviceFile)
  /-- A buffer in memory. -/
  | memory (payload : MemoryPayload)

namespace Payload

/-- Keep the kind of storage around the result of one of its calls. -/
def wrap {σ α : Type} (make : σ→Payload) : EStateM.Result Fault σ α→EStateM.Result Fault Payload α
  | .ok a t => .ok a (make t)
  | .error e t => .error e (make t)

/-- `write` of a payload. -/
def write (data : List UInt8) : Io Payload ℕ
  | .disk file => wrap .disk (DeviceFile.write data file)
  | .memory payload => wrap .memory (MemoryPayload.write data payload)

/-- `seek` of a payload. -/
def seek (target : SeekFrom) : Io Payload ℕ
  | .disk file => wrap .disk (DeviceFile.seek target file)
  | .memory payload => wrap .memory (MemoryPayload.seek target payload)

/-- The file a payload stores. -/
def contents : Payload→ Cursor
  | .disk file => file.contents
  | .memory payload => payload.data

instance : RawSink Payload where
  write := write
  flush := fun p => .ok () p
  seek := seek
  patience
    | .disk file => RawSink.patience file
    | .memory payload => RawSink.patience payload

/-- A wrapped call that returned. -/
theorem wrap_ok {σ α : Type} {make : σ→Payload} {r : EStateM.Result Fault σ α} {a : α} {t : Payload}
    (h : wrap make r=.ok a t) : ∃ u, r=.ok a u ∧ t=make u := by
  cases r with
  | ok b u =>
    cases h
    exact ⟨u,rfl,rfl⟩
  | error e u => cases h

/-- A wrapped call that stopped. -/
theorem wrap_error {σ α : Type} {make : σ→Payload} {r : EStateM.Result Fault σ α} {e : Fault}
    {t : Payload} (h : wrap make r=.error e t) : ∃ u, r=.error e u ∧ t=make u := by
  cases r with
  | ok b u => cases h
  | error e' u =>
    cases h
    exact ⟨u,rfl,rfl⟩

open LawfulRawSink in
instance : LawfulRawSink Payload where
  file := contents
  write_ok {data s t n} h := by
    change write data s=_ at h
    cases s with
    | disk f =>
      obtain ⟨u,hu,rfl⟩ := wrap_ok h
      exact @LawfulRawSink.write_ok DeviceFile _ _ data f u n hu
    | memory p =>
      obtain ⟨u,hu,rfl⟩ := wrap_ok h
      exact @LawfulRawSink.write_ok MemoryPayload _ _ data p u n hu
  write_error {data s t e} h := by
    change write data s=_ at h
    cases s with
    | disk f =>
      obtain ⟨u,hu,rfl⟩ := wrap_error h
      exact @LawfulRawSink.write_error DeviceFile _ _ data f u e hu
    | memory p =>
      obtain ⟨u,hu,rfl⟩ := wrap_error h
      exact @LawfulRawSink.write_error MemoryPayload _ _ data p u e hu
  write_interrupted {data s t e} h hi := by
    change write data s=_ at h
    cases s with
    | disk f =>
      obtain ⟨u,hu,rfl⟩ := wrap_error h
      exact @LawfulRawSink.write_interrupted DeviceFile _ _ data f u e hu hi
    | memory p =>
      obtain ⟨u,hu,rfl⟩ := wrap_error h
      exact @LawfulRawSink.write_interrupted MemoryPayload _ _ data p u e hu hi
  seek_ok {target s t pos} h := by
    change seek target s=_ at h
    cases s with
    | disk f =>
      obtain ⟨u,hu,rfl⟩ := wrap_ok h
      exact @LawfulRawSink.seek_ok DeviceFile _ _ target f u pos hu
    | memory p =>
      obtain ⟨u,hu,rfl⟩ := wrap_ok h
      exact @LawfulRawSink.seek_ok MemoryPayload _ _ target p u pos hu
  seek_error {target s t e} h := by
    change seek target s=_ at h
    cases s with
    | disk f =>
      obtain ⟨u,hu,rfl⟩ := wrap_error h
      exact @LawfulRawSink.seek_error DeviceFile _ _ target f u e hu
    | memory p =>
      obtain ⟨u,hu,rfl⟩ := wrap_error h
      exact @LawfulRawSink.seek_error MemoryPayload _ _ target p u e hu
  flush_ok h := by
    cases h
    rfl
  flush_error h := by cases h

/-- A memory payload that was given this limit; a file has none. -/
def HasLimit (bound : ℕ) : Payload→Prop
  | .disk _ => True
  | .memory payload => payload.limit=bound

/-- What staging keeps of a payload: its limit, and a size within it. -/
def Within (bound : ℕ) (p : Payload) : Prop := p.HasLimit bound ∧ p.contents.bytes.length≤bound

/-- A seek of a file never fails for want of room. -/
theorem not_over_seek {target : SeekFrom} {c d : Cursor} {e : Fault}
    (h : c.seek target=.error e d) : ¬OverReservation e := by
  unfold Cursor.seek at h
  cases ht : c.seekTarget target with
  | some pos => rw [ht] at h; cases h
  | none =>
    rw [ht] at h
    cases h
    decide

/-- A file never refuses a write for want of room. -/
theorem not_over_write {data : List UInt8} {f g : DeviceFile} {e : Fault}
    (h : f.write data=.error e g) : ¬OverReservation e := by
  obtain ⟨contents,answers⟩ := f
  cases answers with
  | nil => cases h
  | cons answer answers =>
    cases answer with
    | accept limit => cases h
    | interrupted =>
      cases h
      exact not_over_ofKind _
    | fails kind =>
      cases h
      exact not_over_ofKind _

/-- Writing inside the bound keeps the size within it. -/
theorem write_size {c : Cursor} {data : List UInt8} {bound : ℕ} (hsize : c.bytes.length≤bound)
    (hfit : c.pos+data.length≤bound) (n : ℕ) : (c.write (data.take n)).bytes.length≤bound := by
  have htake : (data.take n).length≤data.length := List.length_take_le' n data
  exact (writeAt_length_le _ _ _).trans (max_le hsize (by omega))

/-- A write to a memory payload inside its bound. -/
theorem memory_write {bound : ℕ} {data : List UInt8} {p : MemoryPayload} (hp : Within bound (.memory p))
    (hfit : p.data.pos+data.length≤bound) :
    (∀ {n q}, MemoryPayload.write data p=.ok n q → Within bound (.memory q)) ∧
      ∀ {e q}, MemoryPayload.write data p=.error e q → Within bound (.memory q) ∧
        ¬OverReservation e := by
  obtain ⟨hlimit,hsize⟩ := hp
  have hstore := @write_size p.data data bound hsize hfit data.length
  rw [List.take_length] at hstore
  rcases MemoryPayload.write_cases data p with ⟨_,heq⟩|⟨h,allocations,_,heq⟩|⟨allocations,_,heq⟩|⟨hover,heq⟩
  · rw [heq]
    refine ⟨fun h => ?_,nofun⟩
    cases h
    exact ⟨hlimit,hsize⟩
  · rw [heq]
    refine ⟨fun h => ?_,nofun⟩
    cases h
    exact ⟨hlimit,hstore⟩
  · rw [heq]
    refine ⟨nofun,fun h => ?_⟩
    cases h
    exact ⟨⟨hlimit,hsize⟩,by decide⟩
  · exact (hover (hfit.trans_eq hlimit.symm)).elim

/-- A payload stays within its bound and never refuses a write inside it. -/
theorem bounded (bound : ℕ) : RawBounded Payload bound OverReservation (Within bound) := by
  refine ⟨fun h => h.2,fun {data} _ => ⟨?_,?_⟩,⟨?_,nofun⟩,fun {target} => ⟨?_,?_⟩⟩
  · rintro s t n ⟨hs,hfit⟩ h
    change write data s=_ at h
    cases s with
    | disk f =>
      obtain ⟨u,hu,rfl⟩ := wrap_ok h
      obtain ⟨_,hfile,_⟩ := @LawfulRawSink.write_ok DeviceFile _ _ data f u n hu
      refine ⟨trivial,?_⟩
      change u.contents=f.contents.write (data.take n) at hfile
      change u.contents.bytes.length≤bound
      rw [hfile]
      exact write_size hs.2 hfit n
    | memory p =>
      obtain ⟨u,hu,rfl⟩ := wrap_ok h
      exact (memory_write hs hfit).1 hu
  · rintro s t e ⟨hs,hfit⟩ h
    change write data s=_ at h
    cases s with
    | disk f =>
      obtain ⟨u,hu,rfl⟩ := wrap_error h
      have hfile := @LawfulRawSink.write_error DeviceFile _ _ data f u e hu
      change u.contents=f.contents at hfile
      refine ⟨⟨trivial,?_⟩,not_over_write hu⟩
      change u.contents.bytes.length≤bound
      rw [hfile]
      exact hs.2
    | memory p =>
      obtain ⟨u,hu,rfl⟩ := wrap_error h
      exact (memory_write hs hfit).2 hu
  · intro s t _ hs h
    cases h
    exact hs
  · intro s t pos hs h
    have hbytes := (Cursor.seek_ok_bytes (LawfulRawSink.seek_ok h)).1
    change t.contents.bytes=s.contents.bytes at hbytes
    change seek target s=_ at h
    refine ⟨?_,by rw [hbytes]; exact hs.2⟩
    cases s with
    | disk f =>
      obtain ⟨u,_,rfl⟩ := wrap_ok h
      trivial
    | memory p =>
      obtain ⟨u,hu,rfl⟩ := wrap_ok h
      rcases MemoryPayload.seek_cases target p with ⟨q,r,heq,_,hlimit⟩|⟨e,c,heq,_⟩
      · rw [heq] at hu
        cases hu
        exact hlimit.trans hs.1
      · rw [heq] at hu
        cases hu
  · intro s t e hs h
    change seek target s=_ at h
    cases s with
    | disk f =>
      obtain ⟨u,hu,rfl⟩ := wrap_error h
      unfold DeviceFile.seek at hu
      cases hc : f.contents.seek target with
      | ok pos c => rw [hc] at hu; cases hu
      | error e' c =>
        rw [hc] at hu
        cases hu
        exact ⟨hs,not_over_seek hc⟩
    | memory p =>
      obtain ⟨u,hu,rfl⟩ := wrap_error h
      rcases MemoryPayload.seek_cases target p with ⟨q,r,heq,_,_⟩|⟨e',c,heq,hc⟩
      · rw [heq] at hu
        cases hu
      · rw [heq] at hu
        cases hu
        exact ⟨hs,not_over_seek hc⟩

/-- What a payload occupies: the length of a file, the capacity of a buffer. -/
def reservedBytes : Payload→ℕ
  | .disk file => file.contents.bytes.length
  | .memory payload => payload.capacity

/-- A payload within its bound occupies no more than that. -/
theorem reservedBytes_le {bound : ℕ} {p : Payload} (h : Within bound p) : p.reservedBytes≤bound := by
  cases p with
  | disk file => exact h.2
  | memory payload => exact payload.capacity_le.trans h.1.le

end Payload

/-- `StagedPayload`: a closed file or a buffer that was shrunk to fit. -/
inductive StagedPayload where
  /-- A closed file and the length its metadata gave. -/
  | disk (bytes : List UInt8) (len : ℕ)
  /-- A buffer with its capacity. -/
  | memory (data : List UInt8) (capacity : ℕ)
  deriving DecidableEq,Repr

namespace StagedPayload

/-- The bytes a reader of the staged payload returns. -/
def bytes : StagedPayload→List UInt8
  | .disk bytes _ => bytes
  | .memory data _ => data

/-- `StagedPayload::len`. -/
def len : StagedPayload→ℕ
  | .disk _ len => len
  | .memory data _ => data.length

/-- `StagedPayload::reserved_bytes`. -/
def reservedBytes : StagedPayload→ℕ
  | .disk _ len => len
  | .memory _ capacity => capacity

end StagedPayload

/-- `Payload::finish`; the metadata of a file may be unavailable, and shrinking
a buffer yields exactly its length. -/
def Payload.finish (metadata : Option ErrorKind) : Payload→Except Fault StagedPayload
  | .disk file =>
    match metadata with
    | some kind => .error (.error (.ofKind kind))
    | none => .ok (.disk file.contents.bytes file.contents.bytes.length)
  | .memory payload => .ok (.memory payload.data.bytes payload.data.bytes.length)

/-- A finished payload has the bytes it stored, and reserves exactly them. -/
theorem Payload.finish_ok {metadata : Option ErrorKind} {p : Payload} {staged : StagedPayload}
    (h : p.finish metadata=.ok staged) :
    staged.bytes=p.contents.bytes ∧ staged.len=p.contents.bytes.length ∧
      staged.reservedBytes=p.contents.bytes.length := by
  cases p with
  | disk file =>
    cases metadata with
    | some kind => cases h
    | none =>
      cases h
      exact ⟨rfl,rfl,rfl⟩
  | memory payload =>
    cases h
    exact ⟨rfl,rfl,rfl⟩

/-- Finishing a payload never fails for want of room. -/
theorem Payload.finish_error {metadata : Option ErrorKind} {p : Payload} {e : Fault}
    (h : p.finish metadata=.error e) : ¬OverReservation e := by
  cases p with
  | disk file =>
    cases metadata with
    | some kind =>
      cases h
      exact not_over_ofKind kind
    | none => cases h
  | memory payload => cases h

/-- `Storage` of the scratch space, with the environment of the next payload. -/
inductive Storage where
  /-- A directory in which creating a file may fail. -/
  | directory (creation : Option ErrorKind) (answers : List Answer)
  /-- Memory in which each allocation may fail. -/
  | memory (allocations : List Bool)

/-- The refusal of a limit that is no `usize`. -/
def tooLargeError : IoError := .new .invalidInput "memory scratch payload is too large"

/-- `Scratch::payload`. -/
def Storage.payload (limit : ℕ) : Storage→Except Fault Payload
  | .directory (some kind) _ => .error (.error (.ofKind kind))
  | .directory none answers => .ok (.disk ⟨.empty,answers⟩)
  | .memory allocations =>
    if limit≤u64Max then .ok (.memory (.new limit allocations)) else .error (.error tooLargeError)

/-- A new payload is empty and has its limit. -/
theorem Storage.payload_ok {limit : ℕ} {storage : Storage} {p : Payload}
    (h : storage.payload limit=.ok p) : p.contents=.empty ∧ p.HasLimit limit := by
  cases storage with
  | directory creation answers =>
    cases creation with
    | some kind => cases h
    | none =>
      cases h
      exact ⟨rfl,trivial⟩
  | memory allocations =>
    unfold Storage.payload at h
    dsimp only at h
    by_cases hlimit : limit≤u64Max
    · rw [if_pos hlimit] at h
      cases h
      exact ⟨rfl,rfl⟩
    · rw [if_neg hlimit] at h
      cases h

/-- Creating a payload never fails for want of room. -/
theorem Storage.payload_error {limit : ℕ} {storage : Storage} {e : Fault}
    (h : storage.payload limit=.error e) : ¬OverReservation e := by
  cases storage with
  | directory creation answers =>
    cases creation with
    | some kind =>
      cases h
      exact not_over_ofKind kind
    | none => cases h
  | memory allocations =>
    unfold Storage.payload at h
    dsimp only at h
    by_cases hlimit : limit≤u64Max
    · rw [if_pos hlimit] at h
      cases h
    · rw [if_neg hlimit] at h
      cases h
      decide

end Applesauce.ScratchPayload
