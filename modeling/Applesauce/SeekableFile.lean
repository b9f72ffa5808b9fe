import Applesauce.RustIo
import Applesauce.SparseFile

/-!
# Byte files with a position, and sinks that behave like one

`Cursor` is an ordinary sparse file with a 64-bit position. `WriteSeek` is
what a writer may ask of a sink, which can fail at every call. A lawful sink
has a view: the file an observer would see once every accepted byte has
arrived. Each successful call changes the view as the file operation does,
and a flush makes the view the stored contents.
-/

namespace Applesauce.SeekableFile

open RustIo SparseFile

/-- The three origins of a seek. -/
inductive SeekFrom where
  | start (offset : ℕ)
  | fromEnd (offset : ℤ)
  | current (offset : ℤ)
  deriving DecidableEq,Repr

/-- `checked_add_signed` on 64-bit offsets. -/
def checkedAddSigned (base : ℕ) (offset : ℤ) : Option ℕ :=
  if 0≤(base : ℤ)+offset ∧ (base : ℤ)+offset≤u64Max then some ((base : ℤ)+offset).toNat else none

/-- File contents and the position of the next access. -/
structure Cursor where
  /-- The bytes stored so far. -/
  bytes : List UInt8
  /-- The current position; it may lie past the end. -/
  pos : ℕ
  deriving DecidableEq,Repr

namespace Cursor

/-- A file without contents, at its start. -/
def empty : Cursor := ⟨[],0⟩

/-- The state between the bytes already passed and those ahead. -/
def between (before after : List UInt8) : Cursor := ⟨before++after,before.length⟩

/-- Where a seek leads, unless the target is negative or overflows. -/
def seekTarget (file : Cursor) : SeekFrom→Option ℕ
  | .start offset => some offset
  | .fromEnd offset => checkedAddSigned file.bytes.length offset
  | .current offset => checkedAddSigned file.pos offset

/-- Move the position; contents never change. -/
def seek (target : SeekFrom) : Io Cursor ℕ := fun file =>
  match file.seekTarget target with
  | some pos => .ok pos {file with pos := pos}
  | none => .error (.error (.new .invalidInput
      "invalid seek to a negative or overflowing position")) file

/-- The file after all of the data has been written at its position. -/
def write (file : Cursor) (data : List UInt8) : Cursor :=
  ⟨writeAt file.bytes file.pos data,file.pos+data.length⟩

/-- Fill a buffer of the given length, or fail at the end of the file. -/
def readExact (count : ℕ) : Io Cursor (List UInt8) := fun file =>
  if file.pos+count≤file.bytes.length then
    .ok (readAt file.bytes file.pos count) {file with pos := file.pos+count}
  else .error (.error (.new .unexpectedEof "failed to fill whole buffer"))
    {file with pos := max file.pos file.bytes.length}

/-- Read up to a limit or to the end of the file: `take(limit).read_to_end`. -/
def readUpTo (limit : ℕ) : Io Cursor (List UInt8) := fun file =>
  .ok (readAt file.bytes file.pos limit)
    {file with pos := file.pos+(readAt file.bytes file.pos limit).length}

@[simp] theorem seek_start (file : Cursor) (pos : ℕ) :
    seek (.start pos) file=.ok pos {file with pos := pos} := rfl

/-- Asking for the position returns it. -/
theorem seek_here (file : Cursor) (h : file.pos≤u64Max) :
    seek (.current 0) file=.ok file.pos file := by
  have hc : (0 : ℤ)≤(file.pos : ℤ)+0 ∧ (file.pos : ℤ)+0≤u64Max := by omega
  have ht : seekTarget file (.current 0)=some file.pos := by
    simp only [seekTarget,checkedAddSigned,if_pos hc,Option.some.injEq]
    omega
  simp only [seek,ht]

/-- Whatever a position query returns is the position. -/
theorem seek_here_ok {file after : Cursor} {pos : ℕ} (h : seek (.current 0) file=.ok pos after) :
    pos=file.pos ∧ after=file := by
  unfold seek seekTarget checkedAddSigned at h
  dsimp only at h
  by_cases hc : (0 : ℤ)≤(file.pos : ℤ)+0 ∧ (file.pos : ℤ)+0≤u64Max
  · rw [if_pos hc] at h
    cases h
    have hp : ((file.pos : ℤ)+0).toNat=file.pos := by omega
    rw [hp]
    exact ⟨rfl,rfl⟩
  · rw [if_neg hc] at h
    cases h

/-- Seeking to the end returns the length. -/
theorem seek_end (file : Cursor) (h : file.bytes.length≤u64Max) :
    seek (.fromEnd 0) file=.ok file.bytes.length {file with pos := file.bytes.length} := by
  have hc : (0 : ℤ)≤(file.bytes.length : ℤ)+0 ∧ (file.bytes.length : ℤ)+0≤u64Max := by omega
  have ht : seekTarget file (.fromEnd 0)=some file.bytes.length := by
    simp only [seekTarget,checkedAddSigned,if_pos hc,Option.some.injEq]
    omega
  simp only [seek,ht]

/-- Whatever a seek to the end returns is the length. -/
theorem seek_end_ok {file after : Cursor} {pos : ℕ} (h : seek (.fromEnd 0) file=.ok pos after) :
    pos=file.bytes.length ∧ after={file with pos := pos} := by
  unfold seek seekTarget checkedAddSigned at h
  dsimp only at h
  by_cases hc : (0 : ℤ)≤(file.bytes.length : ℤ)+0 ∧ (file.bytes.length : ℤ)+0≤u64Max
  · rw [if_pos hc] at h
    cases h
    have hp : ((file.bytes.length : ℤ)+0).toNat=file.bytes.length := by omega
    rw [hp]
    exact ⟨rfl,rfl⟩
  · rw [if_neg hc] at h
    cases h

/-- A seek only moves the position. -/
theorem seek_ok_bytes {target : SeekFrom} {file after : Cursor} {pos : ℕ}
    (h : seek target file=.ok pos after) : after.bytes=file.bytes ∧ after.pos=pos := by
  unfold seek at h
  cases ht : file.seekTarget target with
  | some q =>
    rw [ht] at h
    cases h
    exact ⟨rfl,rfl⟩
  | none =>
    rw [ht] at h
    cases h

/-- Reading exactly the segment ahead moves it behind the position. -/
theorem readExact_between (count : ℕ) (before segment after : List UInt8)
    (h : segment.length=count) :
    readExact count (between before (segment++after))=.ok segment (between (before++segment) after) := by
  subst h
  have hfit : before.length+segment.length≤(before++(segment++after)).length := by
    simp only [List.length_append]
    omega
  unfold readExact between
  dsimp only
  rw [if_pos hfit]
  simp only [readAt,List.drop_left',List.take_left',List.append_assoc,List.length_append]

/-- Overwriting the segment ahead by one of the same length. -/
theorem write_between (before old after : List UInt8) {data : List UInt8}
    (h : old.length=data.length) :
    (between before (old++after)).write data=between (before++data) after := by
  simp only [write,between,writeAt_replace before old after h,List.append_assoc,
    List.length_append]

/-- Consecutive writes are one write. -/
theorem write_append (file : Cursor) (first second : List UInt8) :
    (file.write first).write second=file.write (first++second) := by
  simp only [write,writeAt_append,List.length_append,Nat.add_assoc]

@[simp] theorem write_nil (file : Cursor) : file.write []=file := rfl

end Cursor

/-- What a format writer asks of its sink. -/
class WriteSeek (σ : Type) where
  /-- Write every byte, or fail after an unknown part of them. -/
  writeAll : List UInt8→Io σ Unit
  /-- Push buffered bytes to the storage. -/
  flush : Io σ Unit
  /-- Move the position and return it. -/
  seek : SeekFrom→Io σ ℕ

/-- Return to the start. -/
def rewind {σ : Type} [WriteSeek σ] : Io σ Unit := do
  let _ ← WriteSeek.seek (.start 0)
  pure ()

/-- The current position. -/
def streamPosition {σ : Type} [WriteSeek σ] : Io σ ℕ := WriteSeek.seek (.current 0)

/-- A sink whose successful calls behave like those of a file. -/
class LawfulWriteSeek (σ : Type) [WriteSeek σ] where
  /-- The file seen once every accepted byte has arrived. -/
  view : σ→ Cursor
  /-- The bytes that have reached the storage. -/
  stored : σ→List UInt8
  writeAll_view : ∀ {data : List UInt8} {s t : σ} {u : Unit},
    WriteSeek.writeAll data s=.ok u t→view t=(view s).write data
  seek_view : ∀ {target : SeekFrom} {s t : σ} {pos : ℕ},
    WriteSeek.seek target s=.ok pos t→(view s).seek target=.ok pos (view t)
  seek_stored : ∀ {target : SeekFrom} {s t : σ} {pos : ℕ},
    WriteSeek.seek target s=.ok pos t→stored s=(view s).bytes→stored t=(view t).bytes
  flush_view : ∀ {s t : σ} {u : Unit}, WriteSeek.flush s=.ok u t→view t=view s
  flush_stored : ∀ {s t : σ} {u : Unit}, WriteSeek.flush s=.ok u t→stored t=(view t).bytes

section Lawful
variable {σ : Type} [WriteSeek σ] [LawfulWriteSeek σ]

open LawfulWriteSeek

/-- A successful seek to an absolute position arrives there. -/
theorem seek_start_view {pos q : ℕ} {s t : σ} (h : WriteSeek.seek (.start pos) s=.ok q t) :
    view t={view s with pos := pos} := by
  have hv := seek_view h
  rw [Cursor.seek_start] at hv
  exact (EStateM.Result.ok.inj hv).2.symm

/-- A successful rewind keeps the bytes and returns to the start. -/
theorem rewind_view {s t : σ} {u : Unit} (h : rewind s=.ok u t) :
    view t={view s with pos := 0} := by
  unfold rewind at h
  obtain ⟨q,r,hs,hp⟩ := bind_ok_iff.mp h
  cases hp
  exact seek_start_view hs

/-- A successful position query returns the position of the view. -/
theorem streamPosition_view {s t : σ} {pos : ℕ} (h : streamPosition s=.ok pos t) :
    pos=(view s).pos ∧ view t=view s :=
  Cursor.seek_here_ok (seek_view h)

end Lawful

/-- An in-memory file is a sink that never fails to write. -/
instance : WriteSeek Cursor where
  writeAll data := fun file => .ok () (file.write data)
  flush := fun file => .ok () file
  seek := Cursor.seek

/-- An in-memory file is its own view and stores at once. -/
instance : LawfulWriteSeek Cursor where
  view file := file
  stored file := file.bytes
  writeAll_view h := by
    cases h
    rfl
  seek_view h := h
  seek_stored _ _ := rfl
  flush_view h := by
    cases h
    rfl
  flush_stored _ := rfl

end Applesauce.SeekableFile
