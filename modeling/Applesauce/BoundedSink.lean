import Applesauce.BufferedSink
import Applesauce.IoTriple

/-!
# Sinks that stay within a bound

A device may refuse writes past some limit. As long as every write ends
within the bound, the invariant holds after each call, returned or stopped,
and no call stops with the refusal. A buffer in front of the device keeps
that property, since what it holds back ends within the bound as well.
-/

namespace Applesauce.BoundedSink

open RustIo SparseFile SeekableFile BufferedSink IoTriple LawfulRawSink LawfulWriteSeek

/-- A device with an invariant that bounds its file: calls that end within the
bound keep it and never stop with a bad fault. -/
structure RawBounded (σ : Type) [RawSink σ] [LawfulRawSink σ] (bound : ℕ) (bad : Fault→Prop)
    (inv : σ→Prop) : Prop where
  size : ∀ {s : σ}, inv s → (file s).bytes.length≤bound
  write : ∀ {data : List UInt8}, data≠[] → Triple (fun s => inv s ∧ (file s).pos+data.length≤bound)
    (RawSink.write data) (fun _ t => inv t) (fun e t => inv t ∧ ¬bad e)
  flush : Triple inv RawSink.flush (fun _ t => inv t) (fun e t => inv t ∧ ¬bad e)
  seek : ∀ {target : SeekFrom},
    Triple inv (RawSink.seek target) (fun _ t => inv t) (fun e t => inv t ∧ ¬bad e)

/-- The same for a sink, on the file seen through it. -/
structure Bounded (σ : Type) [WriteSeek σ] [LawfulWriteSeek σ] (bound : ℕ) (bad : Fault→Prop)
    (inv : σ→Prop) : Prop where
  size : ∀ {s : σ}, inv s → (view s).bytes.length≤bound
  writeAll : ∀ {data : List UInt8}, Triple (fun s => inv s ∧ (view s).pos+data.length≤bound)
    (WriteSeek.writeAll data) (fun _ t => inv t) (fun e t => inv t ∧ ¬bad e)
  flush : Triple inv WriteSeek.flush (fun _ t => inv t) (fun e t => inv t ∧ ¬bad e)
  seek : ∀ {target : SeekFrom},
    Triple inv (WriteSeek.seek target) (fun _ t => inv t) (fun e t => inv t ∧ ¬bad e)

section Buffered
variable {σ : Type} [RawSink σ] [LawfulRawSink σ] {bound : ℕ} {bad : Fault→Prop} {inv : σ→Prop}

/-- The invariant of a device with bytes still to be written to it. -/
def Ahead (bound : ℕ) (inv : σ→Prop) (s : σ) (ahead : ℕ) : Prop :=
  inv s ∧ (ahead=0 ∨ (file s).pos+ahead≤bound)

/-- A buffer that ends within the bound. -/
def BufferFits (bound : ℕ) (inv : σ→Prop) (b : BufWriter σ) : Prop :=
  Ahead bound inv b.inner b.buffer.length

/-- Writing part of what is ahead leaves the rest ahead. -/
theorem RawBounded.write_ahead (h : RawBounded σ bound bad inv) {data : List UInt8} {s : σ}
    (hdata : data≠[]) (hs : Ahead bound inv s data.length) :
    (∀ {n t}, RawSink.write data s=.ok n t → Ahead bound inv t (data.length-n)) ∧
      ∀ {e t}, RawSink.write data s=.error e t → Ahead bound inv t data.length ∧ ¬bad e := by
  obtain ⟨hinv,hahead⟩ := hs
  have hlen : 0<data.length := List.length_pos_iff.mpr hdata
  have hfit : (file s).pos+data.length≤bound := hahead.resolve_left hlen.ne'
  refine ⟨fun hw => ⟨(h.write hdata).ok ⟨hinv,hfit⟩ hw,?_⟩,fun hw => ?_⟩
  · obtain ⟨hn,hfile,_⟩ := write_ok hw
    refine Or.inr ?_
    rw [hfile]
    dsimp only [Cursor.write]
    rw [List.length_take,Nat.min_eq_left hn]
    omega
  · obtain ⟨ht,hbad⟩ := (h.write hdata).error ⟨hinv,hfit⟩ hw
    refine ⟨⟨ht,Or.inr ?_⟩,hbad⟩
    rw [write_error hw]
    exact hfit

/-- The whole loop within the bound. -/
theorem RawBounded.loop (h : RawBounded σ bound bad inv) {zero : IoError} (hzero : ¬bad (.error zero))
    (hbound : ¬bad boundFault) (fuel : ℕ) {data : List UInt8} {s : σ}
    (hs : Ahead bound inv s data.length) :
    match acceptLoop zero fuel s data with
    | .ok _ t => Ahead bound inv t.1 0
    | .error e t => Ahead bound inv t.1 t.2.length ∧ ¬bad e :=
  acceptLoop_invariant (fun hd hs => h.write_ahead hd hs) hzero hbound hs

/-- `write_all` of the device within the bound. -/
theorem RawBounded.writeAll (h : RawBounded σ bound bad inv)
    (hzero : ¬bad (.error wholeBufferError)) (hbound : ¬bad boundFault) {data : List UInt8} :
    Triple (fun s => Ahead bound inv s data.length) (BufferedSink.writeAll data)
      (fun _ t => inv t) (fun e t => inv t ∧ ¬bad e) := by
  refine ⟨fun {s t a} hs hw => ?_,fun {s t e} hs hw => ?_⟩
  · have hl := h.loop hzero hbound (RawSink.patience s+data.length) hs
    unfold BufferedSink.writeAll accept at hw
    cases ha : acceptLoop wholeBufferError (RawSink.patience s+data.length) s data with
    | ok v r =>
      rw [ha] at hl hw
      cases hw
      exact hl.1
    | error e r => rw [ha] at hw; cases hw
  · have hl := h.loop hzero hbound (RawSink.patience s+data.length) hs
    unfold BufferedSink.writeAll accept at hw
    cases ha : acceptLoop wholeBufferError (RawSink.patience s+data.length) s data with
    | ok v r => rw [ha] at hw; cases hw
    | error e' r =>
      rw [ha] at hl hw
      cases hw
      exact ⟨hl.1.1,hl.2⟩

/-- Flushing the buffer within the bound. -/
theorem RawBounded.flushBuf (h : RawBounded σ bound bad inv)
    (hzero : ¬bad (.error bufferedDataError)) (hbound : ¬bad boundFault) :
    Triple (BufferFits bound inv) BufWriter.flushBuf
      (fun _ t => inv t.inner ∧ t.buffer=[]) (fun e t => BufferFits bound inv t ∧ ¬bad e) := by
  refine ⟨fun {b t a} hb hf => ?_,fun {b t e} hb hf => ?_⟩
  · refine ⟨?_,(BufWriter.flushBuf_ok hf).2⟩
    have hl := h.loop hzero hbound (RawSink.patience b.inner+b.buffer.length) hb
    unfold BufWriter.flushBuf accept at hf
    cases ha : acceptLoop bufferedDataError (RawSink.patience b.inner+b.buffer.length) b.inner
        b.buffer with
    | ok v r =>
      rw [ha] at hl hf
      cases hf
      exact hl.1
    | error e r => rw [ha] at hf; cases hf
  · have hl := h.loop hzero hbound (RawSink.patience b.inner+b.buffer.length) hb
    unfold BufWriter.flushBuf accept at hf
    cases ha : acceptLoop bufferedDataError (RawSink.patience b.inner+b.buffer.length) b.inner
        b.buffer with
    | ok v r => rw [ha] at hf; cases hf
    | error e' r =>
      rw [ha] at hl hf
      cases hf
      exact hl

/-- An operation of the device, run behind an empty buffer. -/
theorem onInner_triple {α : Type} {op : Io σ α} {pre : σ→Prop}
    (h : Triple pre op (fun _ t => inv t) (fun e t => inv t ∧ ¬bad e)) :
    Triple (fun b : BufWriter σ => pre b.inner ∧ b.buffer=[]) (BufWriter.onInner op)
      (fun _ t => BufferFits bound inv t) (fun e t => BufferFits bound inv t ∧ ¬bad e) := by
  refine ⟨fun {b t a} hb ho => ?_,fun {b t e} hb ho => ?_⟩
  · obtain ⟨hop,hbuffer⟩ := BufWriter.onInner_ok ho
    rw [hb.2] at hbuffer
    exact ⟨h.ok hb.1 hop,Or.inl (by rw [hbuffer]; rfl)⟩
  · unfold BufWriter.onInner at ho
    cases hop : op b.inner with
    | ok a r => rw [hop] at ho; cases ho
    | error e' r =>
      rw [hop] at ho
      cases ho
      obtain ⟨hr,hbad⟩ := h.error hb.1 hop
      exact ⟨⟨hr,Or.inl (by rw [hb.2]; rfl)⟩,hbad⟩

/-- The position seen through a buffer. -/
theorem seen_pos (b : BufWriter σ) : b.seen.pos=(file b.inner).pos+b.buffer.length := rfl

/-- The buffered end of a write within the bound. -/
theorem RawBounded.push {b : BufWriter σ} {data : List UInt8} (hb : BufferFits bound inv b)
    (hfit : b.seen.pos+data.length≤bound) :
    BufferFits bound inv {b with buffer := b.buffer++data} := by
  refine ⟨hb.1,Or.inr ?_⟩
  rw [seen_pos] at hfit
  dsimp only
  rw [List.length_append]
  omega

/-- The unbuffered end of a write within the bound. -/
theorem RawBounded.writeCold (h : RawBounded σ bound bad inv)
    (hzero : ¬bad (.error wholeBufferError)) (hbound : ¬bad boundFault) {data : List UInt8} :
    Triple (fun b : BufWriter σ => BufferFits bound inv b ∧ b.seen.pos+data.length≤bound ∧
        (BufWriter.capacity≤data.length → b.buffer=[]))
      (BufWriter.writeCold data) (fun _ t => BufferFits bound inv t)
      (fun e t => BufferFits bound inv t ∧ ¬bad e) := by
  have hinner := @onInner_triple σ _ _ bound bad inv Unit _ _
    (@RawBounded.writeAll σ _ _ bound bad inv h hzero hbound data)
  have hpre : ∀ {b : BufWriter σ}, BufferFits bound inv b → b.seen.pos+data.length≤bound →
      b.buffer=[] → Ahead bound inv b.inner data.length ∧ b.buffer=[] := by
    intro b hb hfit hempty
    refine ⟨⟨hb.1,Or.inr ?_⟩,hempty⟩
    rw [seen_pos,hempty,List.length_nil,Nat.add_zero] at hfit
    exact hfit
  refine ⟨fun {b t a} hb hw => ?_,fun {b t e} hb hw => ?_⟩
  · obtain ⟨hfits,hfit,hempty⟩ := hb
    unfold BufWriter.writeCold at hw
    by_cases hbig : BufWriter.capacity≤data.length
    · rw [if_pos hbig] at hw
      exact hinner.ok (hpre hfits hfit (hempty hbig)) hw
    · rw [if_neg hbig] at hw
      cases hw
      exact RawBounded.push hfits hfit
  · obtain ⟨hfits,hfit,hempty⟩ := hb
    unfold BufWriter.writeCold at hw
    by_cases hbig : BufWriter.capacity≤data.length
    · rw [if_pos hbig] at hw
      exact hinner.error (hpre hfits hfit (hempty hbig)) hw
    · rw [if_neg hbig] at hw
      cases hw

/-- A buffer in front of a bounded device is bounded. -/
theorem RawBounded.buffered (h : RawBounded σ bound bad inv)
    (hwhole : ¬bad (.error wholeBufferError)) (hbuffered : ¬bad (.error bufferedDataError))
    (hbound : ¬bad boundFault) : Bounded (BufWriter σ) bound bad (BufferFits bound inv) := by
  have hflush := h.flushBuf hbuffered hbound
  have hcold : ∀ {data : List UInt8}, _ :=
    fun {data} => @RawBounded.writeCold σ _ _ bound bad inv h hwhole hbound data
  have hempty : ∀ {b : BufWriter σ}, inv b.inner ∧ b.buffer=[] → BufferFits bound inv b :=
    fun hb => ⟨hb.1,Or.inl (by rw [hb.2]; rfl)⟩
  refine ⟨fun {b} hb => ?_,fun {data} => ⟨fun {b t a} hb hw => ?_,fun {b t e} hb hw => ?_⟩,?_,?_⟩
  · change ((file b.inner).write b.buffer).bytes.length≤bound
    have hsize := h.size hb.1
    rcases hb.2 with hnil|hfit
    · rw [List.length_eq_zero_iff.mp hnil,Cursor.write_nil]
      exact hsize
    · exact (writeAt_length_le _ _ _).trans (max_le hsize hfit)
  · obtain ⟨hfits,hfit⟩ := hb
    change BufWriter.writeAll data b=_ at hw
    change b.seen.pos+data.length≤bound at hfit
    unfold BufWriter.writeAll at hw
    by_cases hspare : data.length<BufWriter.capacity-b.buffer.length
    · rw [if_pos hspare] at hw
      cases hw
      exact RawBounded.push hfits hfit
    rw [if_neg hspare] at hw
    by_cases hover : BufWriter.capacity-b.buffer.length<data.length
    · rw [if_pos hover] at hw
      obtain ⟨_,r,hf,hc⟩ := bind_ok_iff.mp hw
      have hr := hflush.ok hfits hf
      have hpos : r.seen.pos=b.seen.pos := by
        rw [←(BufWriter.flushBuf_ok hf).1,seen_pos,hr.2,List.length_nil,Nat.add_zero]
      exact hcold.ok ⟨hempty hr,by rw [hpos]; exact hfit,fun _ => hr.2⟩ hc
    · rw [if_neg hover] at hw
      exact hcold.ok ⟨hfits,hfit,BufWriter.empty_of_exact hspare hover⟩ hw
  · obtain ⟨hfits,hfit⟩ := hb
    change BufWriter.writeAll data b=_ at hw
    change b.seen.pos+data.length≤bound at hfit
    unfold BufWriter.writeAll at hw
    by_cases hspare : data.length<BufWriter.capacity-b.buffer.length
    · rw [if_pos hspare] at hw
      cases hw
    rw [if_neg hspare] at hw
    by_cases hover : BufWriter.capacity-b.buffer.length<data.length
    · rw [if_pos hover] at hw
      rcases bind_error_iff.mp hw with hf|⟨_,r,hf,hc⟩
      · exact hflush.error hfits hf
      · have hr := hflush.ok hfits hf
        have hpos : r.seen.pos=b.seen.pos := by
          rw [←(BufWriter.flushBuf_ok hf).1,seen_pos,hr.2,List.length_nil,Nat.add_zero]
        exact hcold.error ⟨hempty hr,by rw [hpos]; exact hfit,fun _ => hr.2⟩ hc
    · rw [if_neg hover] at hw
      exact hcold.error ⟨hfits,hfit,BufWriter.empty_of_exact hspare hover⟩ hw
  · exact hflush.bind (fun _ => onInner_triple h.flush)
  · exact hflush.bind (fun _ => onInner_triple h.seek)

end Buffered

section Positions
variable {σ : Type} [WriteSeek σ] [LawfulWriteSeek σ] {bound : ℕ} {bad : Fault→Prop} {inv : σ→Prop}

/-- The invariant at a known position. -/
def At (inv : σ→Prop) (pos : ℕ) (s : σ) : Prop := inv s ∧ (view s).pos=pos

/-- A write that ends within the bound. -/
theorem Bounded.writeAll_at (h : Bounded σ bound bad inv) {data : List UInt8} {pos : ℕ}
    (hfit : pos+data.length≤bound) :
    Triple (At inv pos) (WriteSeek.writeAll data) (fun _ t => At inv (pos+data.length) t)
      (fun e t => inv t ∧ ¬bad e) := by
  refine ⟨fun {s t a} hs hw => ?_,fun {s t e} hs hw => ?_⟩
  · have hpre : inv s ∧ (view s).pos+data.length≤bound := ⟨hs.1,by rw [hs.2]; exact hfit⟩
    refine ⟨h.writeAll.ok hpre hw,?_⟩
    rw [writeAll_view hw,←hs.2]
    rfl
  · exact h.writeAll.error ⟨hs.1,by rw [hs.2]; exact hfit⟩ hw

/-- A seek to an absolute position. -/
theorem Bounded.seek_at (h : Bounded σ bound bad inv) (pos : ℕ) :
    Triple inv (WriteSeek.seek (.start pos)) (fun _ t => At inv pos t)
      (fun e t => inv t ∧ ¬bad e) := by
  refine ⟨fun {s t a} hs hw => ⟨h.seek.ok hs hw,?_⟩,fun {s t e} hs hw => h.seek.error hs hw⟩
  rw [seek_start_view hw]

/-- A return to the start. -/
theorem Bounded.rewind_at (h : Bounded σ bound bad inv) :
    Triple inv (rewind : Io σ Unit) (fun _ t => At inv 0 t) (fun e t => inv t ∧ ¬bad e) :=
  (h.seek_at 0).bind (fun _ => (Triple.pure ()).weaken (fun hs => hs) (fun ht => ht.2) (fun he => he))

/-- Asking for the position. -/
theorem Bounded.streamPosition_at (h : Bounded σ bound bad inv) {pos : ℕ} :
    Triple (At inv pos) (streamPosition : Io σ ℕ) (fun p t => p=pos ∧ At inv pos t)
      (fun e t => inv t ∧ ¬bad e) := by
  refine ⟨fun {s t a} hs hw => ?_,fun {s t e} hs hw => h.seek.error hs.1 hw⟩
  obtain ⟨hpos,hview⟩ := streamPosition_view hw
  exact ⟨hpos.trans hs.2,h.seek.ok hs.1 hw,by rw [hview]; exact hs.2⟩

end Positions

end Applesauce.BoundedSink
