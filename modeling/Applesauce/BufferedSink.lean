import Applesauce.SeekableFile

/-!
# Raw sinks and the buffer in front of them

A raw sink accepts part of a write, fails or is interrupted; a failed call
writes nothing. `writeAll` repeats until everything is accepted. A
`BufWriter` collects small writes and flushes before it seeks; seen through
its buffer it is a lawful sink.
-/

namespace Applesauce.BufferedSink

open RustIo SparseFile SeekableFile

/-- What a device offers: partial writes, a flush and a seek. -/
class RawSink (σ : Type) where
  /-- Accept a first part of the bytes and return its length. -/
  write : List UInt8→Io σ ℕ
  /-- Push accepted bytes further. -/
  flush : Io σ Unit
  /-- Move the position. -/
  seek : SeekFrom→Io σ ℕ
  /-- How often a write can still be interrupted. -/
  patience : σ→ℕ

/-- A device whose accepted bytes go to a file at its position. -/
class LawfulRawSink (σ : Type) [RawSink σ] where
  /-- The stored file. -/
  file : σ→ Cursor
  write_ok : ∀ {data : List UInt8} {s t : σ} {n : ℕ}, RawSink.write data s=.ok n t →
    n≤data.length ∧ file t=(file s).write (data.take n) ∧ RawSink.patience t≤RawSink.patience s
  write_error : ∀ {data : List UInt8} {s t : σ} {e : Fault}, RawSink.write data s=.error e t →
    file t=file s
  write_interrupted : ∀ {data : List UInt8} {s t : σ} {e : IoError},
    RawSink.write data s=.error (.error e) t → e.kind=.interrupted →
      RawSink.patience t<RawSink.patience s
  seek_ok : ∀ {target : SeekFrom} {s t : σ} {pos : ℕ}, RawSink.seek target s=.ok pos t →
    (file s).seek target=.ok pos (file t)
  seek_error : ∀ {target : SeekFrom} {s t : σ} {e : Fault}, RawSink.seek target s=.error e t →
    file t=file s
  flush_ok : ∀ {s t : σ} {u : Unit}, RawSink.flush s=.ok u t → file t=file s
  flush_error : ∀ {s t : σ} {e : Fault}, RawSink.flush s=.error e t → file t=file s

/-- The error of `write_all` when nothing is accepted any more. -/
def wholeBufferError : IoError := .new .writeZero "failed to write whole buffer"

/-- The error of a buffer that cannot be emptied. -/
def bufferedDataError : IoError := .new .writeZero "failed to write the buffered data"

/-- A loop that outlives its bound; the bounds used below are never reached. -/
def boundFault : Fault := .panic "loop bound exceeded"

section Accept
variable {σ : Type} [RawSink σ]

/-- The loop of `write_all` and of `flush_buf`: write until nothing is left,
again after an interruption. The state pairs the device with what is left. -/
def acceptLoop (zero : IoError) : ℕ→σ→List UInt8→EStateM.Result Fault (σ×List UInt8) Unit
  | _,s,[] => .ok () (s,[])
  | 0,s,byte::bytes => .error boundFault (s,byte::bytes)
  | fuel+1,s,byte::bytes =>
    match RawSink.write (byte::bytes) s with
    | .ok 0 t => .error (.error zero) (t,byte::bytes)
    | .ok (n+1) t => acceptLoop zero fuel t (bytes.drop n)
    | .error (.error e) t =>
      if e.kind=.interrupted then acceptLoop zero fuel t (byte::bytes)
      else .error (.error e) (t,byte::bytes)
    | .error (.panic message) t => .error (.panic message) (t,byte::bytes)

/-- The loop with one turn for every interruption and every byte. -/
def accept (zero : IoError) (s : σ) (data : List UInt8) : EStateM.Result Fault (σ×List UInt8) Unit :=
  acceptLoop zero (RawSink.patience s+data.length) s data

/-- `Write::write_all` of a device. -/
def writeAll (data : List UInt8) : Io σ Unit := fun s =>
  match accept wholeBufferError s data with
  | .ok _ t => .ok () t.1
  | .error e t => .error e t.1

/-- What an invariant of single writes gives for the loop. -/
theorem acceptLoop_invariant {zero : IoError} {inv : σ→ℕ→Prop} {bad : Fault→Prop}
    (hwrite : ∀ {data : List UInt8} {s : σ}, data≠[] → inv s data.length →
      (∀ {n t}, RawSink.write data s=.ok n t → inv t (data.length-n)) ∧
        ∀ {e t}, RawSink.write data s=.error e t → inv t data.length ∧ ¬bad e)
    (hzero : ¬bad (.error zero)) (hbound : ¬bad boundFault)
    {fuel : ℕ} {data : List UInt8} {s : σ} (hs : inv s data.length) :
    match acceptLoop zero fuel s data with
    | .ok _ t => inv t.1 0
    | .error e t => inv t.1 t.2.length ∧ ¬bad e := by
  induction fuel generalizing data s with
  | zero =>
    cases data with
    | nil => exact hs
    | cons byte bytes => exact ⟨hs,hbound⟩
  | succ fuel ih =>
    cases data with
    | nil => exact hs
    | cons byte bytes =>
      obtain ⟨hok,herror⟩ := hwrite (List.cons_ne_nil byte bytes) hs
      cases hw : RawSink.write (byte::bytes) s with
      | ok n t =>
        have ht := hok hw
        cases n with
        | zero =>
          simp only [acceptLoop,hw]
          exact ⟨ht,hzero⟩
        | succ n =>
          simp only [acceptLoop,hw]
          refine ih ?_
          rw [List.length_cons,Nat.add_sub_add_right] at ht
          rw [List.length_drop]
          exact ht
      | error e t =>
        obtain ⟨ht,hbad⟩ := herror hw
        cases e with
        | error e =>
          by_cases hi : e.kind=.interrupted
          · simp only [acceptLoop,hw,if_pos hi]
            exact ih ht
          · simp only [acceptLoop,hw,if_neg hi]
            exact ⟨ht,hbad⟩
        | panic message =>
          simp only [acceptLoop,hw]
          exact ⟨ht,hbad⟩

variable [LawfulRawSink σ]

open LawfulRawSink

/-- One turn: it goes on with a shorter rest or less patience, or it stops
with a fault of the device or because nothing was accepted. -/
theorem acceptLoop_cons (zero : IoError) (s : σ) (byte : UInt8) (bytes : List UInt8) :
    (∃ n t, n≤(byte::bytes).length ∧ file t=(file s).write ((byte::bytes).take n) ∧
        RawSink.patience t+((byte::bytes).drop n).length<
          RawSink.patience s+(byte::bytes).length ∧
        ∀ fuel, acceptLoop zero (fuel+1) s (byte::bytes)=
          acceptLoop zero fuel t ((byte::bytes).drop n)) ∨
      (∃ t e, file t=file s ∧
        (RawSink.write (byte::bytes) s=.error e t ∨ e=.error zero) ∧
        ∀ fuel, acceptLoop zero (fuel+1) s (byte::bytes)=.error e (t,byte::bytes)) := by
  cases hw : RawSink.write (byte::bytes) s with
  | ok n t =>
    obtain ⟨hn,hfile,hpatience⟩ := write_ok hw
    cases n with
    | zero =>
      refine Or.inr ⟨t,_,?_,Or.inr rfl,fun _ => by simp only [acceptLoop,hw]⟩
      rw [hfile,List.take_zero,Cursor.write_nil]
    | succ n =>
      refine Or.inl ⟨n+1,t,hn,hfile,?_,fun _ => by simp only [acceptLoop,hw,List.drop_succ_cons]⟩
      rw [List.length_drop]
      omega
  | error e t =>
    cases e with
    | error e =>
      by_cases hi : e.kind=.interrupted
      · refine Or.inl ⟨0,t,Nat.zero_le _,?_,?_,fun _ => ?_⟩
        · rw [write_error hw,List.take_zero,Cursor.write_nil]
        · rw [List.drop_zero]
          exact Nat.add_lt_add_right (write_interrupted hw hi) _
        · simp only [acceptLoop,hw,if_pos hi,List.drop_zero]
      · refine Or.inr ⟨t,_,write_error hw,Or.inl rfl,fun _ => ?_⟩
        simp only [acceptLoop,hw,if_neg hi]
    | panic message =>
      exact Or.inr ⟨t,_,write_error hw,Or.inl rfl,fun _ => by simp only [acceptLoop,hw]⟩

/-- A write split where a part of it ended. -/
theorem write_take_drop (c : Cursor) (data : List UInt8) (n : ℕ) :
    (c.write (data.take n)).write (data.drop n)=c.write data := by
  rw [Cursor.write_append,List.take_append_drop]

/-- A loop that returns has written everything. -/
theorem acceptLoop_ok {zero : IoError} {fuel : ℕ} {data : List UInt8} {s : σ} {t : σ×List UInt8}
    {u : Unit} (h : acceptLoop zero fuel s data=.ok u t) :
    file t.1=(file s).write data ∧ t.2=[] := by
  induction fuel generalizing data s with
  | zero =>
    cases data with
    | nil =>
      cases h
      exact ⟨rfl,rfl⟩
    | cons byte bytes => cases h
  | succ fuel ih =>
    cases data with
    | nil =>
      cases h
      exact ⟨rfl,rfl⟩
    | cons byte bytes =>
      rcases acceptLoop_cons zero s byte bytes with ⟨n,r,_,hfile,_,heq⟩|⟨r,e,_,_,heq⟩
      · rw [heq] at h
        obtain ⟨hrest,hnil⟩ := ih h
        exact ⟨by rw [hrest,hfile,write_take_drop],hnil⟩
      · rw [heq] at h
        cases h

/-- A loop that stops has written a first part and has the rest left. -/
theorem acceptLoop_error {zero : IoError} {fuel : ℕ} {data : List UInt8} {s : σ} {t : σ×List UInt8}
    {e : Fault} (h : acceptLoop zero fuel s data=.error e t) :
    ∃ n, n≤data.length ∧ file t.1=(file s).write (data.take n) ∧ t.2=data.drop n := by
  induction fuel generalizing data s with
  | zero =>
    cases data with
    | nil => cases h
    | cons byte bytes =>
      cases h
      exact ⟨0,Nat.zero_le _,rfl,rfl⟩
  | succ fuel ih =>
    cases data with
    | nil => cases h
    | cons byte bytes =>
      rcases acceptLoop_cons zero s byte bytes with ⟨n,r,hn,hfile,_,heq⟩|⟨r,e,hfile,_,heq⟩
      · rw [heq] at h
        obtain ⟨m,hm,hrest,hleft⟩ := ih h
        rw [List.length_drop] at hm
        refine ⟨n+m,by omega,?_,?_⟩
        · rw [hrest,hfile,Cursor.write_append,List.take_add]
        · rw [hleft,List.drop_drop]
      · rw [heq] at h
        obtain ⟨_,rfl⟩ := EStateM.Result.error.inj h
        exact ⟨0,Nat.zero_le _,by rw [hfile,List.take_zero,Cursor.write_nil],rfl⟩

/-- More turns than interruptions and bytes make no difference. -/
theorem acceptLoop_fuel {zero : IoError} {fuel : ℕ} {data : List UInt8} {s : σ}
    (h : RawSink.patience s+data.length≤fuel) :
    acceptLoop zero (fuel+1) s data=acceptLoop zero fuel s data := by
  induction fuel generalizing data s with
  | zero =>
    have hnil : data=[] := List.length_eq_zero_iff.mp (by omega)
    rw [hnil]
    rfl
  | succ fuel ih =>
    cases data with
    | nil => rfl
    | cons byte bytes =>
      rcases acceptLoop_cons zero s byte bytes with ⟨n,r,_,_,hless,heq⟩|⟨r,e,_,_,heq⟩
      · rw [heq,heq]
        exact ih (by omega)
      · rw [heq,heq]

/-- `write_all` that returns has written everything. -/
theorem writeAll_ok {data : List UInt8} {s t : σ} {u : Unit} (h : writeAll data s=.ok u t) :
    file t=(file s).write data := by
  unfold writeAll at h
  cases ha : accept wholeBufferError s data with
  | ok v r =>
    rw [ha] at h
    cases h
    exact (acceptLoop_ok ha).1
  | error e r => rw [ha] at h; cases h

/-- `write_all` that stops has written a first part. -/
theorem writeAll_error {data : List UInt8} {s t : σ} {e : Fault} (h : writeAll data s=.error e t) :
    ∃ n, n≤data.length ∧ file t=(file s).write (data.take n) := by
  unfold writeAll at h
  cases ha : accept wholeBufferError s data with
  | ok v r => rw [ha] at h; cases h
  | error e r =>
    rw [ha] at h
    cases h
    obtain ⟨n,hn,hfile,_⟩ := acceptLoop_error ha
    exact ⟨n,hn,hfile⟩

end Accept

/-- A device behind a buffer. -/
structure BufWriter (σ : Type) where
  /-- The device. -/
  inner : σ
  /-- Bytes accepted and not yet written. -/
  buffer : List UInt8

namespace BufWriter

/-- The capacity of `BufWriter::new`. -/
def capacity : ℕ := 8192

/-- `BufWriter::new`. -/
def new {σ : Type} (inner : σ) : BufWriter σ := ⟨inner,[]⟩

section Buffer
variable {σ : Type} [RawSink σ]

/-- Run an operation of the device. -/
def onInner {α : Type} (op : Io σ α) : Io (BufWriter σ) α := fun b =>
  match op b.inner with
  | .ok a t => .ok a {b with inner := t}
  | .error e t => .error e {b with inner := t}

/-- `flush_buf`: what was accepted leaves the buffer, also when the loop stops. -/
def flushBuf : Io (BufWriter σ) Unit := fun b =>
  match accept bufferedDataError b.inner b.buffer with
  | .ok _ t => .ok () ⟨t.1,t.2⟩
  | .error e t => .error e ⟨t.1,t.2⟩

/-- The end of `write_all` when the bytes do not fit in the spare capacity. -/
def writeCold (data : List UInt8) : Io (BufWriter σ) Unit := fun b =>
  if capacity≤data.length then onInner (BufferedSink.writeAll data) b
  else .ok () {b with buffer := b.buffer++data}

/-- `BufWriter::write_all`. -/
def writeAll (data : List UInt8) : Io (BufWriter σ) Unit := fun b =>
  if data.length<capacity-b.buffer.length then .ok () {b with buffer := b.buffer++data}
  else if capacity-b.buffer.length<data.length then (flushBuf>>=fun _ => writeCold data) b
  else writeCold data b

/-- `BufWriter::flush`. -/
def flush : Io (BufWriter σ) Unit := flushBuf>>=fun _ => onInner RawSink.flush

/-- `BufWriter::seek`. -/
def seek (target : SeekFrom) : Io (BufWriter σ) ℕ :=
  flushBuf>>=fun _ => onInner (RawSink.seek target)

/-- A buffered device is what a format writer asks for. -/
instance : WriteSeek (BufWriter σ) where
  writeAll := writeAll
  flush := flush
  seek := seek

variable [LawfulRawSink σ]

open LawfulRawSink

/-- The file once the buffer has been written. -/
def seen (b : BufWriter σ) : Cursor := (file b.inner).write b.buffer

omit [RawSink σ] [LawfulRawSink σ] in
/-- An operation of the device that returned. -/
theorem onInner_ok {α : Type} {op : Io σ α} {b t : BufWriter σ} {a : α}
    (h : onInner op b=.ok a t) : op b.inner=.ok a t.inner ∧ t.buffer=b.buffer := by
  unfold onInner at h
  cases ho : op b.inner with
  | ok a r =>
    rw [ho] at h
    cases h
    exact ⟨rfl,rfl⟩
  | error e r => rw [ho] at h; cases h

/-- A flushed buffer is empty and what is seen has not changed. -/
theorem flushBuf_ok {b t : BufWriter σ} {u : Unit} (h : flushBuf b=.ok u t) :
    file t.inner=seen b ∧ t.buffer=[] := by
  unfold flushBuf at h
  cases ha : accept bufferedDataError b.inner b.buffer with
  | ok v r =>
    rw [ha] at h
    cases h
    exact acceptLoop_ok ha
  | error e r => rw [ha] at h; cases h

/-- The unbuffered end of a write, on what is seen. -/
theorem writeCold_ok {data : List UInt8} {b t : BufWriter σ} {u : Unit}
    (hb : capacity≤data.length → b.buffer=[]) (h : writeCold data b=.ok u t) :
    seen t=(seen b).write data := by
  unfold writeCold at h
  by_cases hbig : capacity≤data.length
  · rw [if_pos hbig] at h
    obtain ⟨hw,hbuffer⟩ := onInner_ok h
    unfold seen
    rw [hbuffer,hb hbig,Cursor.write_nil,Cursor.write_nil,writeAll_ok hw]
  · rw [if_neg hbig] at h
    cases h
    unfold seen
    dsimp only
    rw [Cursor.write_append]

omit [RawSink σ] [LawfulRawSink σ] in
/-- Bytes that exactly fill the spare capacity and are as long as the whole
capacity meet an empty buffer. -/
theorem empty_of_exact {b : BufWriter σ} {data : List UInt8}
    (hfit : ¬data.length<capacity-b.buffer.length)
    (hover : ¬capacity-b.buffer.length<data.length) (hbig : capacity≤data.length) :
    b.buffer=[] := by
  refine List.length_eq_zero_iff.mp ?_
  unfold capacity at hfit hover hbig
  omega

/-- A buffered write, on what is seen. -/
theorem writeAll_ok {data : List UInt8} {b t : BufWriter σ} {u : Unit}
    (h : writeAll data b=.ok u t) : seen t=(seen b).write data := by
  unfold writeAll at h
  by_cases hfit : data.length<capacity-b.buffer.length
  · rw [if_pos hfit] at h
    cases h
    unfold seen
    dsimp only
    rw [Cursor.write_append]
  rw [if_neg hfit] at h
  by_cases hover : capacity-b.buffer.length<data.length
  · rw [if_pos hover] at h
    obtain ⟨_,r,hflush,hcold⟩ := bind_ok_iff.mp h
    obtain ⟨hfile,hempty⟩ := flushBuf_ok hflush
    rw [writeCold_ok (fun _ => hempty) hcold,seen,hfile,hempty,Cursor.write_nil]
  · rw [if_neg hover] at h
    exact writeCold_ok (empty_of_exact hfit hover) h

/-- A buffered seek arrives where the seen file's seek does, with the buffer written. -/
theorem seek_ok {target : SeekFrom} {b t : BufWriter σ} {pos : ℕ}
    (h : seek target b=.ok pos t) : (seen b).seek target=.ok pos (seen t) ∧ t.buffer=[] := by
  obtain ⟨_,r,hflush,hseek⟩ := bind_ok_iff.mp h
  obtain ⟨hfile,hempty⟩ := flushBuf_ok hflush
  obtain ⟨hinner,hbuffer⟩ := onInner_ok hseek
  have hnext := LawfulRawSink.seek_ok hinner
  rw [hfile] at hnext
  rw [hempty] at hbuffer
  refine ⟨?_,hbuffer⟩
  rw [hnext,seen,hbuffer,Cursor.write_nil]

/-- A flush leaves what is seen in the file. -/
theorem flush_ok {b t : BufWriter σ} {u : Unit} (h : flush b=.ok u t) :
    seen t=seen b ∧ t.buffer=[] := by
  obtain ⟨_,r,hflush,hinner⟩ := bind_ok_iff.mp h
  obtain ⟨hfile,hempty⟩ := flushBuf_ok hflush
  obtain ⟨hin,hbuffer⟩ := onInner_ok hinner
  rw [hempty] at hbuffer
  refine ⟨?_,hbuffer⟩
  rw [seen,hbuffer,Cursor.write_nil,LawfulRawSink.flush_ok hin,hfile]

/-- With an empty buffer the file is what is seen. -/
theorem stored_of_empty {b : BufWriter σ} (h : b.buffer=[]) :
    (file b.inner).bytes=(seen b).bytes := by
  rw [seen,h,Cursor.write_nil]

/-- A buffered device behaves like the file seen through the buffer. -/
instance : LawfulWriteSeek (BufWriter σ) where
  view := seen
  stored b := (file b.inner).bytes
  writeAll_view h := writeAll_ok h
  seek_view h := (seek_ok h).1
  seek_stored h _ := stored_of_empty (seek_ok h).2
  flush_view h := (flush_ok h).1
  flush_stored h := stored_of_empty (flush_ok h).2

end Buffer

end BufWriter

end Applesauce.BufferedSink
