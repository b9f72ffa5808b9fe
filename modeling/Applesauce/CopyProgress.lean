import Applesauce.PayloadCopy

/-!
# The progress of a payload copy

The drain loop of `copy_payload` reports every part that the destination
accepts, also in front of a failure. A copy is described by what was accepted
between two states: a first part of the bytes, written in order, and
increments that add up to its length. Such descriptions compose along the
loops, so they hold of every way in which a copy can end.
-/

namespace Applesauce.CopyProgress

open RustIo SeekableFile BufferedSink PayloadCopy LawfulRawSink

section Model
variable {σ : Type} [RawSink σ]

/-- A destination with the increments of the progress so far, if one is kept. -/
abbrev Reported (σ : Type) := σ×Option (List ℕ)

/-- `progress.increment`, where there is a progress. -/
def increment (written : ℕ) (progress : Option (List ℕ)) : Option (List ℕ) :=
  progress.map (·++[written])

/-- The drain loop: write what remains of the buffer, report each part. -/
def drain : ℕ→List UInt8→Io (Reported σ) Unit
  | _,[] => fun s => .ok () s
  | 0,_::_ => fun s => .error boundFault s
  | fuel+1,byte::remaining => fun s =>
    match RawSink.write (byte::remaining) s.1 with
    | .ok 0 t => .error (.error copyStoppedError) (t,s.2)
    | .ok (written+1) t => drain fuel (remaining.drop written) (t,increment (written+1) s.2)
    | .error (.error e) t =>
      if e.kind=.interrupted then drain fuel (byte::remaining) (t,s.2)
      else .error (.error e) (t,s.2)
    | .error (.panic message) t => .error (.panic message) (t,s.2)

/-- The loop of `copy_payload`: fill the buffer, drain it, count it. -/
def copyLoop (size : ℕ) : ℕ→ℕ→Io (Source×Reported σ) ℕ
  | 0,_ => fun s => .error boundFault s
  | fuel+1,copied => fun s =>
    match tryReadAll size s.1 with
    | .error e source => .error e (source,s.2)
    | .ok buffer source =>
      if buffer.length=0 then .ok copied (source,s.2)
      else
        match drain (RawSink.patience s.2.1+buffer.length) buffer s.2 with
        | .error e t => .error e (source,t)
        | .ok _ t => copyLoop size fuel (copied+buffer.length) (source,t)

/-- `copy_payload` with a buffer of this size. -/
def copyPayload (size : ℕ) : Io (Source×Reported σ) ℕ := fun s =>
  match copyLoop size (s.1.rest.length+1) 0 s with
  | .error e t => .error e t
  | .ok copied t =>
    match RawSink.flush t.2.1 with
    | .error e u => .error e (t.1,u,t.2.2)
    | .ok _ u => .ok copied (t.1,u,t.2.2)

end Model

section Accepted
variable {σ : Type} [RawSink σ] [LawfulRawSink σ]

/-- Between two states the destination accepted the first `n` of the bytes,
and the increments grew by parts of that length in total. -/
structure Accepted (bytes : List UInt8) (n : ℕ) (s t : Reported σ) : Prop where
  le : n≤bytes.length
  stored : file t.1=(file s.1).write (bytes.take n)
  counted : ∃ parts : List ℕ, parts.sum=n ∧ t.2=s.2.map (·++parts)

variable {bytes : List UInt8} {m n : ℕ} {s t u : Reported σ}

/-- Nothing accepted, and nothing reported. -/
theorem Accepted.nothing (bytes : List UInt8) {r : σ} (h : file r=file s.1) :
    Accepted bytes 0 s (r,s.2) := by
  refine ⟨Nat.zero_le _,by rw [List.take_zero,Cursor.write_nil,h],[],rfl,?_⟩
  simp only [List.append_nil,Option.map_id']

/-- What is accepted and then of the rest. -/
theorem Accepted.trans (h : Accepted bytes m s t) (h' : Accepted (bytes.drop m) n t u) :
    Accepted bytes (m+n) s u := by
  obtain ⟨hle,hstored,parts,hsum,hparts⟩ := h
  obtain ⟨hle',hstored',parts',hsum',hparts'⟩ := h'
  rw [List.length_drop] at hle'
  refine ⟨by omega,?_,parts++parts',by rw [List.sum_append,hsum,hsum'],?_⟩
  · rw [hstored',hstored,Cursor.write_append,List.take_add]
  · rw [hparts',hparts,Option.map_map]
    congr 1
    funext increments
    exact List.append_assoc increments parts parts'

/-- What is accepted of a first part is accepted of the whole. -/
theorem Accepted.of_take {size : ℕ} (h : Accepted (bytes.take size) n s t) :
    Accepted bytes n s t := by
  have hle := h.le
  rw [List.length_take] at hle
  refine ⟨hle.trans (Nat.min_le_right _ _),?_,h.counted⟩
  rw [h.stored,List.take_take,Nat.min_eq_left (hle.trans (Nat.min_le_left _ _))]

/-- A flush accepts nothing more. -/
theorem Accepted.flushed (h : Accepted bytes n s t) {r : σ} (hr : file r=file t.1) :
    Accepted bytes n s (r,t.2) := ⟨h.le,hr.trans h.stored,h.counted⟩

end Accepted

section Drain
variable {σ : Type} [RawSink σ] [LawfulRawSink σ]

/-- What one turn of the drain loop does: a part is accepted and reported, or
the turn is repeated with nothing accepted, or the loop stops with nothing more. -/
theorem drain_cons (byte : UInt8) (remaining : List UInt8) (s : Reported σ) :
    (∃ n t, Accepted (byte::remaining) n s t ∧
      RawSink.patience t.1+((byte::remaining).drop n).length<
        RawSink.patience s.1+(byte::remaining).length ∧
      ∀ fuel, drain (fuel+1) (byte::remaining) s=drain fuel ((byte::remaining).drop n) t) ∨
    ∃ t e, Accepted (byte::remaining) 0 s t ∧
      ∀ fuel, drain (fuel+1) (byte::remaining) s=.error e t := by
  cases hw : RawSink.write (byte::remaining) s.1 with
  | ok n r =>
    obtain ⟨hle,hfile,hpatience⟩ := write_ok hw
    cases n with
    | zero =>
      rw [List.take_zero,Cursor.write_nil] at hfile
      exact Or.inr ⟨(r,s.2),.error copyStoppedError,.nothing _ hfile,
        fun _ => by simp only [drain,hw]⟩
    | succ n =>
      refine Or.inl ⟨n+1,(r,increment (n+1) s.2),⟨hle,hfile,[n+1],by simp,rfl⟩,?_,fun _ => ?_⟩
      · change RawSink.patience r+_<_
        rw [List.length_drop]
        omega
      · simp only [drain,hw,List.drop_succ_cons]
  | error e r =>
    have hfile := write_error hw
    cases e with
    | error e =>
      by_cases hi : e.kind=.interrupted
      · have hless := write_interrupted hw hi
        refine Or.inl ⟨0,(r,s.2),.nothing _ hfile,?_,fun _ => ?_⟩
        · exact Nat.add_lt_add_right hless _
        · simp only [drain,hw,if_pos hi,List.drop_zero]
      · exact Or.inr ⟨(r,s.2),.error e,.nothing _ hfile,
          fun _ => by simp only [drain,hw,if_neg hi]⟩
    | panic message =>
      exact Or.inr ⟨(r,s.2),.panic message,.nothing _ hfile,
        fun _ => by simp only [drain,hw]⟩

/-- A drain that returns has had everything accepted. -/
theorem drain_ok {fuel : ℕ} {data : List UInt8} {s t : Reported σ} {u : Unit}
    (h : drain fuel data s=.ok u t) : Accepted data data.length s t := by
  induction fuel generalizing data s with
  | zero =>
    cases data with
    | nil =>
      cases h
      exact .nothing [] rfl
    | cons byte remaining => cases h
  | succ fuel ih =>
    cases data with
    | nil =>
      cases h
      exact .nothing [] rfl
    | cons byte remaining =>
      rcases drain_cons byte remaining s with ⟨n,r,haccepted,_,heq⟩|⟨r,e,_,heq⟩
      · rw [heq] at h
        have hall := haccepted.trans (ih h)
        rwa [List.length_drop,Nat.add_sub_cancel' haccepted.le] at hall
      · rw [heq] at h
        cases h

/-- A drain that stops has had a first part accepted. -/
theorem drain_error {fuel : ℕ} {data : List UInt8} {s t : Reported σ} {e : Fault}
    (h : drain fuel data s=.error e t) : ∃ n, Accepted data n s t := by
  induction fuel generalizing data s with
  | zero =>
    cases data with
    | nil => cases h
    | cons byte remaining =>
      cases h
      exact ⟨0,.nothing _ rfl⟩
  | succ fuel ih =>
    cases data with
    | nil => cases h
    | cons byte remaining =>
      rcases drain_cons byte remaining s with ⟨n,r,haccepted,_,heq⟩|⟨r,e',haccepted,heq⟩
      · rw [heq] at h
        obtain ⟨m,hrest⟩ := ih h
        exact ⟨n+m,haccepted.trans hrest⟩
      · rw [heq] at h
        obtain ⟨_,rfl⟩ := EStateM.Result.error.inj h
        exact ⟨0,haccepted⟩

/-- More turns than interruptions and bytes make no difference: the bound is
never reached. -/
theorem drain_fuel {fuel : ℕ} {data : List UInt8} {s : Reported σ}
    (h : RawSink.patience s.1+data.length≤fuel) : drain (fuel+1) data s=drain fuel data s := by
  induction fuel generalizing data s with
  | zero =>
    have hnil : data=[] := List.length_eq_zero_iff.mp (by omega)
    rw [hnil]
    rfl
  | succ fuel ih =>
    cases data with
    | nil => rfl
    | cons byte remaining =>
      rcases drain_cons byte remaining s with ⟨n,r,_,hless,heq⟩|⟨r,e,_,heq⟩
      · rw [heq,heq]
        exact ih (by omega)
      · rw [heq,heq]

end Drain

section Copy
variable {σ : Type} [RawSink σ] [LawfulRawSink σ] {size : ℕ}

/-- One turn of the copy: the source is at its end or cannot be read, the
destination stops inside the buffer, or a whole buffer is accepted and the
loop goes on with the rest. -/
theorem copyLoop_cases (size : ℕ) (s : Source×Reported σ) :
    (∃ source, (0<size → s.1.rest=[]) ∧
      ∀ fuel copied, copyLoop size (fuel+1) copied s=.ok copied (source,s.2)) ∨
    (∃ n e source t, Accepted s.1.rest n s.2 t ∧
      ∀ fuel copied, copyLoop size (fuel+1) copied s=.error e (source,t)) ∨
    ∃ n source t, 0<n ∧ Accepted s.1.rest n s.2 t ∧ source.rest=s.1.rest.drop n ∧
      ∀ fuel copied, copyLoop size (fuel+1) copied s=copyLoop size fuel (copied+n) (source,t) := by
  simp only [copyLoop]
  cases hread : tryReadAll size s.1 with
  | error e source => exact Or.inr (Or.inl ⟨0,e,source,s.2,.nothing _ rfl,fun _ _ => rfl⟩)
  | ok buffer source =>
    have hbuffer := (tryReadAll_ok hread).1
    by_cases hempty : buffer.length=0
    · simp only [if_pos hempty]
      refine Or.inl ⟨source,fun hsize => ?_,fun _ _ => rfl⟩
      rw [hbuffer,List.length_take] at hempty
      exact List.length_eq_zero_iff.mp (by omega)
    simp only [if_neg hempty]
    cases hdrain : drain (RawSink.patience s.2.1+buffer.length) buffer s.2 with
    | error e t =>
      obtain ⟨n,hn⟩ := drain_error hdrain
      rw [hbuffer] at hn
      exact Or.inr (Or.inl ⟨n,e,source,t,hn.of_take,fun _ _ => rfl⟩)
    | ok v t =>
      have hall := drain_ok hdrain
      refine Or.inr (Or.inr ⟨buffer.length,source,t,by omega,?_,tryReadAll_rest hread,
        fun _ _ => rfl⟩)
      have hpart : Accepted (s.1.rest.take size) buffer.length s.2 t := hbuffer ▸ hall
      exact hpart.of_take

/-- A loop that returns has copied the whole source and counted it. -/
theorem copyLoop_ok (hsize : 0<size) {fuel copied n : ℕ} {s t : Source×Reported σ}
    (h : copyLoop size fuel copied s=.ok n t) :
    n=copied+s.1.rest.length ∧ Accepted s.1.rest s.1.rest.length s.2 t.2 := by
  induction fuel generalizing copied s with
  | zero => cases h
  | succ fuel ih =>
    rcases copyLoop_cases size s with
      ⟨source,hend,heq⟩|⟨_,e,source,r,_,heq⟩|⟨m,source,r,_,hfirst,hrest,heq⟩
    · rw [heq] at h
      cases h
      rw [hend hsize]
      exact ⟨rfl,.nothing [] rfl⟩
    · rw [heq] at h
      cases h
    · rw [heq] at h
      obtain ⟨hn,hlater⟩ := ih h
      have hle := hfirst.le
      rw [hrest,List.length_drop] at hn hlater
      have hall := hfirst.trans hlater
      rw [Nat.add_sub_cancel' hle] at hall
      exact ⟨by omega,hall⟩

/-- A loop that stops has had a first part of the source accepted. -/
theorem copyLoop_error {fuel copied : ℕ} {s t : Source×Reported σ} {e : Fault}
    (h : copyLoop size fuel copied s=.error e t) : ∃ n, Accepted s.1.rest n s.2 t.2 := by
  induction fuel generalizing copied s with
  | zero =>
    cases h
    exact ⟨0,.nothing _ rfl⟩
  | succ fuel ih =>
    rcases copyLoop_cases size s with
      ⟨source,_,heq⟩|⟨n,e',source,r,hfirst,heq⟩|⟨m,source,r,_,hfirst,hrest,heq⟩
    · rw [heq] at h
      cases h
    · rw [heq] at h
      obtain ⟨_,rfl⟩ := EStateM.Result.error.inj h
      exact ⟨n,hfirst⟩
    · rw [heq] at h
      obtain ⟨n,hlater⟩ := ih h
      rw [hrest] at hlater
      exact ⟨m+n,hfirst.trans hlater⟩

/-- More turns than bytes make no difference: the bound is never reached. -/
theorem copyLoop_fuel {fuel copied : ℕ} {s : Source×Reported σ}
    (h : s.1.rest.length<fuel) : copyLoop size (fuel+1) copied s=copyLoop size fuel copied s := by
  induction fuel generalizing copied s with
  | zero => exact (Nat.not_lt_zero _ h).elim
  | succ fuel ih =>
    rcases copyLoop_cases size s with
      ⟨source,_,heq⟩|⟨n,e,source,t,_,heq⟩|⟨n,source,t,hpos,hfirst,hrest,heq⟩
    · rw [heq,heq]
    · rw [heq,heq]
    · have hle := hfirst.le
      rw [heq,heq]
      refine ih ?_
      rw [hrest,List.length_drop]
      omega

/-- A copy that returns has had exactly the source accepted, and returns its
length. However it ends, a first part of the source was accepted, and the
increments add up to its length. -/
theorem copyPayload_exact (hsize : 0<size) (s : Source×Reported σ) :
    match copyPayload size s with
    | .ok n t => n=s.1.rest.length ∧ Accepted s.1.rest n s.2 t.2 ∧
        file t.2.1=(file s.2.1).write s.1.rest
    | .error _ t => ∃ n, Accepted s.1.rest n s.2 t.2 := by
  unfold copyPayload
  cases hloop : copyLoop size (s.1.rest.length+1) 0 s with
  | error e t => exact copyLoop_error hloop
  | ok copied t =>
    obtain ⟨hn,hall⟩ := copyLoop_ok hsize hloop
    rw [Nat.zero_add] at hn
    subst hn
    dsimp only
    cases hflush : RawSink.flush t.2.1 with
    | error e u => exact ⟨_,hall.flushed (flush_error hflush)⟩
    | ok v u =>
      have hstored := (hall.flushed (flush_ok hflush)).stored
      rw [List.take_length] at hstored
      exact ⟨rfl,hall.flushed (flush_ok hflush),hstored⟩

/-- Two of five bytes were accepted and reported when the destination failed. -/
theorem copyPayload_exact_failure :
    ∃ e t, copyPayload 3 (⟨[1,2,3,4,5],[.interrupted,.accept 2]⟩,
        (⟨.empty,[.accept 2,.interrupted,.fails .other]⟩ : ScratchPayload.DeviceFile),some [])=
          .error e t ∧
      t.2.2=some [2] ∧
      ∃ n, Accepted [1,2,3,4,5] n
        ((⟨.empty,[.accept 2,.interrupted,.fails .other]⟩ : ScratchPayload.DeviceFile),some []) t.2 :=
  ⟨_,_,rfl,rfl,copyPayload_exact (by decide : 0<3) (⟨[1,2,3,4,5],[.interrupted,.accept 2]⟩,
    (⟨.empty,[.accept 2,.interrupted,.fails .other]⟩ : ScratchPayload.DeviceFile),some [])⟩

end Copy

section Forget
variable {σ : Type} [RawSink σ]

/-- The result of a copy without its progress. -/
def forget {α : Type} :
    EStateM.Result Fault (Source×Reported σ) α→EStateM.Result Fault (Source×σ) α
  | .ok a t => .ok a (t.1,t.2.1)
  | .error e t => .error e (t.1,t.2.1)

/-- The drain loop writes as the loop without a progress does. -/
theorem drain_forget (fuel : ℕ) (data : List UInt8) (s : Reported σ) :
    (∀ {u t}, drain fuel data s=.ok u t →
      acceptLoop copyStoppedError fuel s.1 data=.ok () (t.1,[])) ∧
    ∀ {e t}, drain fuel data s=.error e t →
      ∃ left, acceptLoop copyStoppedError fuel s.1 data=.error e (t.1,left) := by
  induction fuel generalizing data s with
  | zero =>
    cases data with
    | nil => exact ⟨fun h => by cases h; rfl,fun h => by cases h⟩
    | cons byte remaining => exact ⟨(fun h => by cases h),fun h => by cases h; exact ⟨_,rfl⟩⟩
  | succ fuel ih =>
    cases data with
    | nil => exact ⟨fun h => by cases h; rfl,fun h => by cases h⟩
    | cons byte remaining =>
      simp only [drain,acceptLoop]
      cases RawSink.write (byte::remaining) s.1 with
      | ok n r =>
        cases n with
        | zero => exact ⟨(fun h => by cases h),fun h => by cases h; exact ⟨_,rfl⟩⟩
        | succ n => exact ih (remaining.drop n) (r,increment (n+1) s.2)
      | error e r =>
        cases e with
        | error e =>
          by_cases hi : e.kind=.interrupted
          · simp only [if_pos hi]
            exact ih (byte::remaining) (r,s.2)
          · simp only [if_neg hi]
            exact ⟨(fun h => by cases h),fun h => by cases h; exact ⟨_,rfl⟩⟩
        | panic message => exact ⟨(fun h => by cases h),fun h => by cases h; exact ⟨_,rfl⟩⟩

/-- The loop copies as the loop without a progress does. -/
theorem copyLoop_forget (size fuel copied : ℕ) (s : Source×Reported σ) :
    PayloadCopy.copyLoop size fuel copied (s.1,s.2.1)=forget (copyLoop size fuel copied s) := by
  induction fuel generalizing copied s with
  | zero => rfl
  | succ fuel ih =>
    simp only [PayloadCopy.copyLoop,copyLoop]
    cases tryReadAll size s.1 with
    | error e source => rfl
    | ok buffer source =>
      by_cases hempty : buffer.length=0
      · simp only [if_pos hempty,forget]
      simp only [if_neg hempty,accept]
      obtain ⟨hok,herror⟩ := drain_forget (RawSink.patience s.2.1+buffer.length) buffer s.2
      cases hdrain : drain (RawSink.patience s.2.1+buffer.length) buffer s.2 with
      | ok u t =>
        rw [hok hdrain]
        exact ih (copied+buffer.length) (source,t)
      | error e t =>
        obtain ⟨left,hleft⟩ := herror hdrain
        rw [hleft]
        rfl

/-- A copy without its progress is the copy that the publisher makes. -/
theorem copyPayload_forget (size : ℕ) (s : Source×Reported σ) :
    PayloadCopy.copyPayload size (s.1,s.2.1)=forget (copyPayload size s) := by
  unfold PayloadCopy.copyPayload copyPayload
  rw [copyLoop_forget]
  cases copyLoop size (s.1.rest.length+1) 0 s with
  | error e t => rfl
  | ok copied t =>
    simp only [forget]
    cases RawSink.flush t.2.1 <;> rfl

end Forget

end Applesauce.CopyProgress
