import Applesauce.ScratchPayload

/-!
# Reading in full and copying a payload

`try_read_all` repeats short and interrupted reads until its buffer is full
or the source ends. `copy_payload` alternates it with partial writes. When a
copy returns, what it counted was written, byte for byte and in order.
-/

namespace Applesauce.PayloadCopy

open RustIo SparseFile SeekableFile BufferedSink ScratchPayload LawfulRawSink

/-- A reader: the bytes ahead and the answers to the next reads. Beyond the
answers every read returns as much as fits. -/
structure Source where
  /-- The bytes not yet read. -/
  rest : List UInt8
  /-- The answers to the next reads; one that accepts returns at least one byte. -/
  answers : List Answer
  deriving DecidableEq,Repr

/-- How much one read returns: at least one byte, unless the buffer is full or
the source has ended. -/
def readCount (limit remaining available : ℕ) : ℕ := min (max 1 limit) (min remaining available)

/-- The loop of `try_read_all` along the answers; `remaining` is the length of
the buffer that is still to be filled, and `filled` is in front of it. -/
def readLoop : List Answer→List UInt8→ℕ→List UInt8→EStateM.Result Fault Source (List UInt8)
  | [],rest,remaining,filled => .ok (filled++rest.take remaining) ⟨rest.drop remaining,[]⟩
  | .interrupted::answers,rest,remaining,filled => readLoop answers rest remaining filled
  | .fails kind::answers,rest,_,_ => .error (.error (.ofKind kind)) ⟨rest,answers⟩
  | .accept limit::answers,rest,remaining,filled =>
    let n := readCount limit remaining rest.length
    if n=0 then .ok filled ⟨rest,answers⟩
    else if n=remaining then .ok (filled++rest.take n) ⟨rest.drop n,answers⟩
    else readLoop answers (rest.drop n) (remaining-n) (filled++rest.take n)

/-- `try_read_all` into a buffer of this size. -/
def tryReadAll (size : ℕ) : Io Source (List UInt8) := fun source =>
  readLoop source.answers source.rest size []

/-- A read that returns nothing met a full buffer or the end. -/
theorem readCount_eq_zero {limit remaining available : ℕ}
    (h : readCount limit remaining available=0) : remaining=0 ∨ available=0 := by
  unfold readCount at h
  omega

/-- A read stays within the buffer. -/
theorem readCount_le (limit remaining available : ℕ) :
    readCount limit remaining available≤remaining :=
  (Nat.min_le_right _ _).trans (Nat.min_le_left _ _)

/-- What a full read returns: the next bytes, as many as the buffer takes or
as there are. -/
theorem readLoop_ok {answers : List Answer} {rest filled bytes : List UInt8} {remaining : ℕ}
    {t : Source} (h : readLoop answers rest remaining filled=.ok bytes t) :
    bytes=filled++rest.take remaining ∧ t.rest=rest.drop remaining := by
  induction answers generalizing rest remaining filled with
  | nil =>
    cases h
    exact ⟨rfl,rfl⟩
  | cons answer answers ih =>
    cases answer with
    | interrupted => exact ih h
    | fails kind => cases h
    | accept limit =>
      unfold readLoop at h
      dsimp only at h
      have hle := readCount_le limit remaining rest.length
      by_cases hzero : readCount limit remaining rest.length=0
      · rw [if_pos hzero] at h
        cases h
        rcases readCount_eq_zero hzero with hfull|hend
        · rw [hfull,List.take_zero,List.append_nil,List.drop_zero]
          exact ⟨rfl,rfl⟩
        · rw [List.length_eq_zero_iff.mp hend,List.take_nil,List.drop_nil,List.append_nil]
          exact ⟨rfl,rfl⟩
      rw [if_neg hzero] at h
      by_cases hfull : readCount limit remaining rest.length=remaining
      · rw [if_pos hfull,hfull] at h
        cases h
        exact ⟨rfl,rfl⟩
      · rw [if_neg hfull] at h
        obtain ⟨hbytes,hrest⟩ := ih h
        refine ⟨?_,?_⟩
        · rw [hbytes,List.append_assoc,←List.take_add,Nat.add_sub_cancel' hle]
        · rw [hrest,List.drop_drop,Nat.add_sub_cancel' hle]

/-- `try_read_all` returns the next bytes of the source, all that fit. -/
theorem tryReadAll_ok {size : ℕ} {source t : Source} {bytes : List UInt8}
    (h : tryReadAll size source=.ok bytes t) :
    bytes=source.rest.take size ∧ t.rest=source.rest.drop size := readLoop_ok h

/-- What is left behind the returned bytes. -/
theorem tryReadAll_rest {size : ℕ} {source t : Source} {bytes : List UInt8}
    (h : tryReadAll size source=.ok bytes t) : t.rest=source.rest.drop bytes.length := by
  obtain ⟨hbytes,hrest⟩ := tryReadAll_ok h
  rw [hrest,hbytes,List.length_take]
  by_cases hsize : size≤ source.rest.length
  · rw [Nat.min_eq_left hsize]
  · rw [Nat.min_eq_right (Nat.le_of_not_le hsize),List.drop_length,
      List.drop_eq_nil_of_le (Nat.le_of_not_le hsize)]

/-- The error of a copy whose destination accepts nothing. -/
def copyStoppedError : IoError := .new .writeZero "failed to copy scratch payload"

section Copy
variable {σ : Type} [RawSink σ]

/-- The loop of `copy_payload`: read one buffer, write it in parts, count it. -/
def copyLoop (size : ℕ) : ℕ→ℕ→Io (Source×σ) ℕ
  | 0,_ => throw boundFault
  | fuel+1,copied => fun s =>
    match tryReadAll size s.1 with
    | .error e source => .error e (source,s.2)
    | .ok bytes source =>
      if bytes.length=0 then .ok copied (source,s.2)
      else
        match accept copyStoppedError s.2 bytes with
        | .error e t => .error e (source,t.1)
        | .ok _ t => copyLoop size fuel (copied+bytes.length) (source,t.1)

/-- `copy_payload` with a buffer of this size. -/
def copyPayload (size : ℕ) : Io (Source×σ) ℕ := fun s =>
  match copyLoop size (s.1.rest.length+1) 0 s with
  | .error e t => .error e t
  | .ok copied t =>
    match RawSink.flush t.2 with
    | .error e u => .error e (t.1,u)
    | .ok _ u => .ok copied (t.1,u)

/-- With a buffer, more turns than bytes make no difference: the bound is never reached. -/
theorem copyLoop_fuel {size fuel copied : ℕ} {source : Source} {dst : σ} (hsize : 0<size)
    (h : source.rest.length<fuel) :
    copyLoop size (fuel+1) copied (source,dst)=copyLoop size fuel copied (source,dst) := by
  induction fuel generalizing copied source dst with
  | zero => exact (Nat.not_lt_zero _ h).elim
  | succ fuel ih =>
    rw [copyLoop,copyLoop]
    dsimp only
    cases hread : tryReadAll size source with
    | error e s => rfl
    | ok bytes s =>
      obtain ⟨hbytes,hrest⟩ := tryReadAll_ok hread
      dsimp only
      by_cases hempty : bytes.length=0
      · rw [if_pos hempty,if_pos hempty]
      · rw [if_neg hempty,if_neg hempty]
        cases hwrite : accept copyStoppedError dst bytes with
        | error e u => rfl
        | ok v u =>
          refine ih ?_
          rw [hbytes,List.length_take] at hempty
          rw [hrest,List.length_drop]
          omega

/-- Copying nothing only flushes the destination. -/
theorem copyPayload_empty {size n : ℕ} {source t : Source} {dst r : σ} (hnil : source.rest=[])
    (h : copyPayload size (source,dst)=.ok n (t,r)) : RawSink.flush dst=.ok () r := by
  unfold copyPayload at h
  rw [hnil,List.length_nil] at h
  unfold copyLoop at h
  cases hread : tryReadAll size source with
  | error e s => rw [hread] at h; cases h
  | ok bytes s =>
    have hbytes : bytes.length=0 := by
      rw [(tryReadAll_ok hread).1,hnil,List.take_nil]
      rfl
    rw [hread] at h
    dsimp only at h
    rw [if_pos hbytes] at h
    dsimp only at h
    cases hflush : RawSink.flush dst with
    | error e v => rw [hflush] at h; cases h
    | ok _ v =>
      rw [hflush] at h
      cases h
      rfl

variable [LawfulRawSink σ]

/-- The loop writes the bytes it counts. -/
theorem copyLoop_ok {size fuel copied n : ℕ} {source t : Source} {dst r : σ}
    (h : copyLoop size fuel copied (source,dst)=.ok n (t,r)) :
    copied≤n ∧ file r=(file dst).write (source.rest.take (n-copied)) ∧
      (source.rest.length<n-copied → False) := by
  induction fuel generalizing copied source dst with
  | zero => cases h
  | succ fuel ih =>
    unfold copyLoop at h
    dsimp only at h
    cases hread : tryReadAll size source with
    | error e s => rw [hread] at h; cases h
    | ok bytes s =>
      rw [hread] at h
      dsimp only at h
      have hbytes := (tryReadAll_ok hread).1
      by_cases hempty : bytes.length=0
      · rw [if_pos hempty] at h
        cases h
        refine ⟨Nat.le_refl _,?_,fun hlt => ?_⟩
        · rw [Nat.sub_self,List.take_zero,Cursor.write_nil]
        · rw [Nat.sub_self] at hlt
          exact Nat.not_lt_zero _ hlt
      rw [if_neg hempty] at h
      cases hwrite : accept copyStoppedError dst bytes with
      | error e u => rw [hwrite] at h; cases h
      | ok v u =>
        rw [hwrite] at h
        dsimp only at h
        obtain ⟨hle,hfile,hcount⟩ := ih h
        have hfirst := (acceptLoop_ok hwrite).1
        have hlen : bytes.length≤ source.rest.length := by
          rw [hbytes]
          exact List.length_take_le' _ _
        have hdrop := tryReadAll_rest hread
        have htake : bytes=source.rest.take bytes.length := by
          rw [hbytes,List.length_take,List.take_eq_take_min]
        refine ⟨by omega,?_,fun hlt => hcount ?_⟩
        · have hsum : n-copied=bytes.length+(n-(copied+bytes.length)) := by omega
          rw [hfile,hfirst,Cursor.write_append,hdrop,hsum,List.take_add,←htake]
        · rw [hdrop,List.length_drop]
          omega

/-- A copy that returns has written as many bytes of the source as it counted. -/
theorem copyPayload_ok {size n : ℕ} {source t : Source} {dst r : σ}
    (h : copyPayload size (source,dst)=.ok n (t,r)) :
    n≤ source.rest.length ∧ file r=(file dst).write (source.rest.take n) := by
  unfold copyPayload at h
  cases hloop : copyLoop size (source.rest.length+1) 0 (source,dst) with
  | error e u => rw [hloop] at h; cases h
  | ok copied u =>
    rw [hloop] at h
    dsimp only at h
    cases hflush : RawSink.flush u.2 with
    | error e v => rw [hflush] at h; cases h
    | ok _ v =>
      rw [hflush] at h
      cases h
      obtain ⟨_,hfile,hcount⟩ := copyLoop_ok hloop
      rw [Nat.sub_zero] at hfile hcount
      exact ⟨Nat.not_lt.mp hcount,(flush_ok hflush).trans hfile⟩

/-- A complete copy has written the whole source. -/
theorem copyPayload_complete {size n : ℕ} {source t : Source} {dst r : σ}
    (h : copyPayload size (source,dst)=.ok n (t,r)) (hn : n=source.rest.length) :
    file r=(file dst).write source.rest := by
  obtain ⟨_,hfile⟩ := copyPayload_ok h
  rw [hfile,hn,List.take_length]

end Copy

end Applesauce.PayloadCopy
