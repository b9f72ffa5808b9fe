import Applesauce.ScratchPayload

/-!
# The resource fork as a device

The fork is an extended attribute of a file. It exists from the first write
on, and a write past its end fills the gap with zeros. A write stores all of
its bytes or none; ends and positions are limited to 32 bits.
-/

namespace Applesauce.ForkDevice

open RustIo SparseFile SeekableFile BufferedSink ScratchPayload

/-- `ResourceFork`: the attribute of a file and the position of the next access. -/
structure ResourceFork where
  /-- The attribute; without it the file has no resource fork. -/
  content : Option (List UInt8)
  /-- The position of the next access. -/
  position : ℕ
  /-- The answers to the next writes; what they accept is always everything. -/
  answers : List Answer
  position_le : position≤u32Max
  deriving DecidableEq

/-- The error of a write that would end beyond 32 bits. -/
def unableToFitError : IoError := .new .other "unable to fit resource fork in 32 bits"

/-- The contents and the position as those of a file; an absent attribute is empty. -/
def ResourceFork.file (f : ResourceFork) : Cursor := ⟨f.content.getD [],f.position⟩

/-- `ResourceFork::new` on a file without the attribute. -/
def ResourceFork.absent (answers : List Answer) : ResourceFork :=
  ⟨none,0,answers,Nat.zero_le _⟩

/-- `ResourceFork::new` on a file that may have the attribute. -/
def ResourceFork.reopen (f : ResourceFork) : ResourceFork :=
  {f with position := 0,position_le := Nat.zero_le _}

/-- The fork after all bytes were stored at its position. -/
def ResourceFork.store (f : ResourceFork) (buf : List UInt8) (answers : List Answer)
    (h : f.position+buf.length≤u32Max) : ResourceFork :=
  ⟨some (writeAt (f.content.getD []) f.position buf),f.position+buf.length,answers,h⟩

/-- The `fsetxattr` call of a write. -/
def setAttribute (buf : List UInt8) (f : ResourceFork) (h : f.position+buf.length≤u32Max) :
    EStateM.Result Fault ResourceFork ℕ :=
  match f.answers with
  | [] => .ok buf.length (f.store buf [] h)
  | .accept _::answers => .ok buf.length (f.store buf answers h)
  | .interrupted::answers => .error (.error interruptedError) {f with answers := answers}
  | .fails kind::answers => .error (.error (.ofKind kind)) {f with answers := answers}

/-- `ResourceFork::write`. -/
def write (buf : List UInt8) : Io ResourceFork ℕ := fun f =>
  if buf.length≤u32Max then
    if h : f.position+buf.length≤u32Max then setAttribute buf f h
    else .error (.error unableToFitError) f
  else .error (.error (.ofKind .invalidInput)) f

/-- `ResourceFork::seek`. -/
def seek (target : SeekFrom) : Io ResourceFork ℕ := fun f =>
  match f.file.seekTarget target with
  | none => .error (.error (.ofKind .invalidInput)) f
  | some pos =>
    if h : pos≤u32Max then .ok pos {f with position := pos,position_le := h}
    else .error (.error (.ofKind .invalidInput)) f

/-- What the attribute call does: it stores everything, or nothing and fails. -/
theorem setAttribute_cases (buf : List UInt8) (f : ResourceFork) (h : f.position+buf.length≤u32Max) :
    (∃ answers, answers.length≤f.answers.length ∧
      setAttribute buf f h=.ok buf.length (f.store buf answers h)) ∨
    ∃ answers e, answers.length<f.answers.length ∧
      setAttribute buf f h=.error (.error e) {f with answers := answers} := by
  unfold setAttribute
  cases ha : f.answers with
  | nil => exact Or.inl ⟨[],Nat.le_refl _,rfl⟩
  | cons answer answers =>
    cases answer with
    | accept limit => exact Or.inl ⟨answers,Nat.le_succ _,rfl⟩
    | interrupted => exact Or.inr ⟨answers,interruptedError,Nat.lt_succ_self _,rfl⟩
    | fails kind => exact Or.inr ⟨answers,.ofKind kind,Nat.lt_succ_self _,rfl⟩

/-- What a write does: it stores everything, or nothing and fails; an
interruption uses up an answer. -/
theorem write_cases (buf : List UInt8) (f : ResourceFork) :
    (∃ h answers, answers.length≤f.answers.length ∧
      write buf f=.ok buf.length (f.store buf answers h)) ∨
    ∃ answers e, write buf f=.error (.error e) {f with answers := answers} ∧
      (e.kind=.interrupted → answers.length<f.answers.length) := by
  unfold write
  by_cases hlen : buf.length≤u32Max
  · rw [if_pos hlen]
    by_cases hfit : f.position+buf.length≤u32Max
    · rw [dif_pos hfit]
      rcases setAttribute_cases buf f hfit with ⟨answers,hle,heq⟩|⟨answers,e,hlt,heq⟩
      · exact Or.inl ⟨hfit,answers,hle,heq⟩
      · exact Or.inr ⟨answers,e,heq,fun _ => hlt⟩
    · rw [dif_neg hfit]
      exact Or.inr ⟨f.answers,unableToFitError,rfl,nofun⟩
  · rw [if_neg hlen]
    exact Or.inr ⟨f.answers,.ofKind .invalidInput,rfl,nofun⟩

instance : RawSink ResourceFork where
  write := write
  flush := fun f => .ok () f
  seek := seek
  patience f := f.answers.length

instance : LawfulRawSink ResourceFork where
  file := ResourceFork.file
  write_ok {data s t n} h := by
    change write data s=_ at h
    rcases write_cases data s with ⟨_,answers,hle,heq⟩|⟨answers,e,heq,_⟩
    · rw [heq] at h
      cases h
      exact ⟨Nat.le_refl _,by rw [List.take_length]; rfl,hle⟩
    · rw [heq] at h
      cases h
  write_error {data s t e} h := by
    change write data s=_ at h
    rcases write_cases data s with ⟨_,answers,_,heq⟩|⟨answers,e',heq,_⟩
    · rw [heq] at h
      cases h
    · rw [heq] at h
      cases h
      rfl
  write_interrupted {data s t e} h hi := by
    change write data s=_ at h
    rcases write_cases data s with ⟨_,answers,_,heq⟩|⟨answers,e',heq,hless⟩
    · rw [heq] at h
      cases h
    · rw [heq] at h
      cases h
      exact hless hi
  seek_ok {target s t pos} h := by
    change seek target s=_ at h
    unfold seek at h
    unfold Cursor.seek
    cases htarget : s.file.seekTarget target with
    | none => rw [htarget] at h; cases h
    | some p =>
      rw [htarget] at h
      dsimp only at h
      by_cases hp : p≤u32Max
      · rw [dif_pos hp] at h
        cases h
        rfl
      · rw [dif_neg hp] at h
        cases h
  seek_error {target s t e} h := by
    change seek target s=_ at h
    unfold seek at h
    cases htarget : s.file.seekTarget target with
    | none =>
      rw [htarget] at h
      cases h
      rfl
    | some p =>
      rw [htarget] at h
      dsimp only at h
      by_cases hp : p≤u32Max
      · rw [dif_pos hp] at h
        cases h
      · rw [dif_neg hp] at h
        cases h
        rfl
  flush_ok h := by
    cases h
    rfl
  flush_error h := by cases h

/-- A fork with contents is present, and its attribute is these contents. -/
theorem content_of_bytes {f : ResourceFork} {bytes : List UInt8} (h : f.file.bytes=bytes)
    (hne : bytes≠[]) : f.content=some bytes := by
  cases hc : f.content with
  | none =>
    unfold ResourceFork.file at h
    rw [hc] at h
    exact (hne h.symm).elim
  | some content =>
    unfold ResourceFork.file at h
    rw [hc] at h
    exact congrArg some h

end Applesauce.ForkDevice
