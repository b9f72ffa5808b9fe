import Applesauce.ForkDevice

/-!
# The resource fork as a 32-bit file

Reads, writes and seeks of a fork go through two calls on an extended
attribute. The position is a 32-bit word: a write checks its end, a seek its
target, and a read adds to it without a check. The kernel's limit on the
size of a fork makes that addition safe. Over every sequence of calls the
fork is a byte array with a cursor that never leaves the 32-bit range.
-/

namespace Applesauce.ForkFile

open RustIo SparseFile SeekableFile

section Kernel

/-- What the attribute calls report when they fail. -/
inductive Errno where
  /-- `ENOATTR`: the file does not have the attribute. -/
  | noAttr
  /-- `E2BIG`: the attribute would be too large. -/
  | tooBig
  deriving DecidableEq,Repr

/-- The attribute of one file in the kernel. -/
structure Xattr where
  /-- Its bytes; without them the file has no resource fork. -/
  value : Option (List UInt8)
  fits : (value.getD []).length≤u32Max
  deriving DecidableEq

/-- A missing attribute is empty. -/
def Xattr.bytes (xattr : Xattr) : List UInt8 := xattr.value.getD []

/-- `fgetxattr`: what it stores in a buffer of the given size, and its return
value, the number of bytes behind the position. -/
def fgetxattr (xattr : Xattr) (size position : ℕ) : Except Errno (List UInt8×ℕ) :=
  match xattr.value with
  | none => .error .noAttr
  | some bytes => .ok (readAt bytes position size,bytes.length-position)

/-- `fsetxattr`: overwrite at a position and extend with zeros. -/
def fsetxattr (xattr : Xattr) (buf : List UInt8) (position : ℕ) : Except Errno Xattr :=
  if h : position+buf.length≤u32Max then
    .ok ⟨some (writeAt xattr.bytes position buf),
      (writeAt_length_le _ _ _).trans (Nat.max_le.mpr ⟨xattr.fits,h⟩)⟩
  else .error .tooBig

end Kernel

section Handle

/-- `ResourceFork`: the attribute behind the file handle, and the position of
the next access as a 32-bit word. -/
structure ResourceFork where
  /-- The attribute of the file. -/
  xattr : Xattr
  /-- The position of the next access. -/
  position : ℕ
  position_le : position≤u32Max

/-- `ResourceFork::new`. -/
def ResourceFork.new (xattr : Xattr) : ResourceFork := ⟨xattr,0,Nat.zero_le _⟩

/-- The contents and the position as those of a file. -/
def ResourceFork.file (fork : ResourceFork) : Cursor := ⟨fork.xattr.bytes,fork.position⟩

/-- `io::Error::last_os_error`; no caller looks at the kind. -/
def lastOsError : Errno→IoError
  | .noAttr => .ofKind .notFound
  | .tooBig => .ofKind .other

/-- `ResourceFork::write`. -/
def write (buf : List UInt8) : Io ResourceFork ℕ := fun fork =>
  if buf.length≤u32Max then
    if h : fork.position+buf.length≤u32Max then
      match fsetxattr fork.xattr buf fork.position with
      | .ok xattr => .ok buf.length ⟨xattr,fork.position+buf.length,h⟩
      | .error errno => .error (.error (lastOsError errno)) fork
    else .error (.error ForkDevice.unableToFitError) fork
  else .error (.error (.ofKind .invalidInput)) fork

/-- `self.position += n`: a debug build panics on overflow, a release build wraps. -/
def advance (build : Build) (n : ℕ) : Io ResourceFork Unit := fun fork =>
  if h : fork.position+n≤u32Max then .ok () {fork with position := fork.position+n,position_le := h}
  else match build with
  | .debug => .error (.panic "attempt to add with overflow") fork
  | .release => .ok () {fork with
      position := (fork.position+n)%2^32
      position_le := Nat.le_pred_of_lt (Nat.mod_lt _ (by decide))}

/-- What a call puts into a buffer of the given size, and the number of bytes
behind the position; without the attribute there are none. -/
def remaining (xattr : Xattr) (size position : ℕ) : Except Errno (List UInt8×ℕ) :=
  match fgetxattr xattr size position with
  | .error .noAttr => .ok ([],0)
  | answer => answer

/-- `ResourceFork::read` into a buffer of the given size: the bytes it reports as read. -/
def read (build : Build) (size : ℕ) : Io ResourceFork (List UInt8) := fun fork =>
  match remaining fork.xattr size fork.position with
  | .ok (buf,remainingLen) =>
    (do
      let bytesRead := min remainingLen size
      let n ← unwrapU32 bytesRead
      advance build n
      pure (buf.take bytesRead) : Io ResourceFork (List UInt8)) fork
  | .error errno => .error (.error (lastOsError errno)) fork

/-- The length of the attribute, by a call without a buffer. -/
def attributeLen (xattr : Xattr) : Except Errno ℕ := (remaining xattr 0 0).map Prod.snd

/-- The new offset of a seek, before it is narrowed to 32 bits. -/
def newOffset (target : SeekFrom) (fork : ResourceFork) : Except IoError ℕ :=
  match target with
  | .start i => .ok i
  | .fromEnd i =>
    match attributeLen fork.xattr with
    | .ok length => (checkedAddSigned length i).elim (.error (.ofKind .invalidInput)) .ok
    | .error errno => .error (lastOsError errno)
  | .current i => (checkedAddSigned fork.position i).elim (.error (.ofKind .invalidInput)) .ok

/-- `ResourceFork::seek`. -/
def seek (target : SeekFrom) : Io ResourceFork ℕ := fun fork =>
  match newOffset target fork with
  | .ok offset =>
    if h : offset≤u32Max then .ok offset {fork with position := offset,position_le := h}
    else .error (.error (.ofKind .invalidInput)) fork
  | .error e => .error (.error e) fork

end Handle

section Calls

/-- One call on a fork. -/
inductive Op where
  | write (buf : List UInt8)
  | read (size : ℕ)
  | seek (target : SeekFrom)
  deriving DecidableEq,Repr

/-- What the caller of one call observes. -/
inductive Outcome where
  | wrote (n : ℕ)
  | bytes (buf : List UInt8)
  | moved (offset : ℕ)
  | failed
  | panicked
  deriving DecidableEq,Repr

/-- What is observed of one call, and the fork it leaves behind. -/
def observe {α : Type} (outcome : α→Outcome) :
    EStateM.Result Fault ResourceFork α→Outcome×ResourceFork
  | .ok a fork => (outcome a,fork)
  | .error (.error _) fork => (.failed,fork)
  | .error (.panic _) fork => (.panicked,fork)

/-- One call on a fork. -/
def step (build : Build) (fork : ResourceFork) : Op→Outcome×ResourceFork
  | .write buf => observe .wrote (write buf fork)
  | .read size => observe .bytes (read build size fork)
  | .seek target => observe .moved (seek target fork)

@[simp] theorem step_write (build : Build) (fork : ResourceFork) (buf : List UInt8) :
    step build fork (.write buf)=observe .wrote (write buf fork) := rfl

@[simp] theorem step_read (build : Build) (fork : ResourceFork) (size : ℕ) :
    step build fork (.read size)=observe .bytes (read build size fork) := rfl

@[simp] theorem step_seek (build : Build) (fork : ResourceFork) (target : SeekFrom) :
    step build fork (.seek target)=observe .moved (seek target fork) := rfl

/-- Consecutive calls on a fork. -/
def run (build : Build) : List Op→ResourceFork→List Outcome×ResourceFork
  | [],fork => ([],fork)
  | op::ops,fork =>
    let (outcome,next) := step build fork op
    let (outcomes,last) := run build ops next
    (outcome::outcomes,last)

end Calls

section Reference

/-- Where a call would leave the cursor of an array, as an integer. -/
def destination (file : Cursor) : Op→ℤ
  | .write buf => file.pos+buf.length
  | .read size => file.pos+(readAt file.bytes file.pos size).length
  | .seek (.start offset) => offset
  | .seek (.fromEnd offset) => file.bytes.length+offset
  | .seek (.current offset) => file.pos+offset

/-- A call that would take the cursor out of the 32-bit range. -/
def Leaves (op : Op) (file : Cursor) : Prop := ¬(0≤destination file op ∧ destination file op≤u32Max)

instance (op : Op) (file : Cursor) : Decidable (Leaves op file) := by
  unfold Leaves
  infer_instance

/-- What a call in range reports. -/
def report (file : Cursor) : Op→Outcome
  | .write buf => .wrote buf.length
  | .read size => .bytes (readAt file.bytes file.pos size)
  | .seek target => .moved (destination file (.seek target)).toNat

/-- What a call in range does to the array. -/
def contents (file : Cursor) : Op→List UInt8
  | .write buf => overwrite file.bytes file.pos buf
  | _ => file.bytes

/-- One call on a byte array with a cursor restricted to the 32-bit range. -/
def arrayStep (file : Cursor) (op : Op) : Outcome×Cursor :=
  if Leaves op file then (.failed,file)
  else (report file op,⟨contents file op,(destination file op).toNat⟩)

/-- Consecutive calls on a byte array. -/
def arrayRun : List Op→ Cursor→List Outcome×Cursor
  | [],file => ([],file)
  | op::ops,file =>
    let (outcome,next) := arrayStep file op
    let (outcomes,last) := arrayRun ops next
    (outcome::outcomes,last)

end Reference

section Step
variable (build : Build) (fork : ResourceFork)

/-- A write that ends in range stores its bytes and moves behind them. -/
theorem write_of_le {buf : List UInt8} (h : fork.position+buf.length≤u32Max) :
    ∃ xattr, write buf fork=.ok buf.length ⟨xattr,fork.position+buf.length,h⟩ ∧
      xattr.bytes=writeAt fork.xattr.bytes fork.position buf := by
  have hlen : buf.length≤u32Max := by omega
  unfold write fsetxattr
  rw [if_pos hlen,dif_pos h,dif_pos h]
  exact ⟨_,rfl,rfl⟩

/-- A write that would end out of range fails and changes nothing. -/
theorem write_of_gt {buf : List UInt8} (h : ¬fork.position+buf.length≤u32Max) :
    ∃ e, write buf fork=.error (.error e) fork := by
  unfold write
  by_cases hlen : buf.length≤u32Max
  · rw [if_pos hlen,dif_neg h]
    exact ⟨_,rfl⟩
  · rw [if_neg hlen]
    exact ⟨_,rfl⟩

/-- A read ends inside the fork or where it started, so in range. -/
theorem read_end_le (size : ℕ) :
    fork.position+(readAt fork.xattr.bytes fork.position size).length≤u32Max := by
  have hpos := fork.position_le
  have hfits : fork.xattr.bytes.length≤u32Max := fork.xattr.fits
  rw [readAt_length]
  omega

/-- The calls see a missing attribute as an empty one. -/
theorem remaining_eq (xattr : Xattr) (size position : ℕ) :
    remaining xattr size position=
      .ok (readAt xattr.bytes position size,xattr.bytes.length-position) := by
  unfold remaining fgetxattr Xattr.bytes
  cases xattr.value with
  | none => simp [readAt]
  | some bytes => rfl

/-- A read returns the bytes behind the position and moves behind them; its
addition never overflows. -/
theorem read_eq (size : ℕ) :
    read build size fork=.ok (readAt fork.xattr.bytes fork.position size)
      {fork with
        position := fork.position+(readAt fork.xattr.bytes fork.position size).length
        position_le := read_end_le fork size} := by
  have hend := read_end_le fork size
  have hread : min (fork.xattr.bytes.length-fork.position) size=
      (readAt fork.xattr.bytes fork.position size).length := by
    rw [readAt_length,Nat.min_comm]
  have hword : unwrapU32 (readAt fork.xattr.bytes fork.position size).length fork=
      .ok (readAt fork.xattr.bytes fork.position size).length fork := tryU32_of _ _ (by omega)
  have hadvance : advance build (readAt fork.xattr.bytes fork.position size).length fork=
      .ok () {fork with
        position := fork.position+(readAt fork.xattr.bytes fork.position size).length
        position_le := hend} := dif_pos hend
  unfold read
  rw [remaining_eq]
  dsimp only
  rw [hread,bind_of_ok hword,bind_of_ok hadvance,List.take_length]
  rfl

/-- The length query of a seek from the end. -/
theorem attributeLen_eq (xattr : Xattr) : attributeLen xattr=.ok xattr.bytes.length := by
  unfold attributeLen
  rw [remaining_eq]
  rfl

/-- The offset of a seek is its destination, unless 64 bits cannot hold that. -/
theorem newOffset_cases (target : SeekFrom) :
    (∃ offset : ℕ, newOffset target fork=.ok offset ∧
      destination fork.file (.seek target)=offset) ∨
    ∃ e, newOffset target fork=.error e ∧ Leaves (.seek target) fork.file := by
  have hword : u32Max≤u64Max := by decide
  have hadd : ∀ (base : ℕ) (i : ℤ), (∃ offset : ℕ,
        (checkedAddSigned base i).elim (.error (.ofKind .invalidInput)) .ok=
          (.ok offset : Except IoError ℕ) ∧ (base : ℤ)+i=offset) ∨
      ∃ e, (checkedAddSigned base i).elim (.error (.ofKind .invalidInput)) .ok=
          (.error e : Except IoError ℕ) ∧ ¬(0≤(base : ℤ)+i ∧ (base : ℤ)+i≤u32Max) := by
    intro base i
    unfold checkedAddSigned
    by_cases h : 0≤(base : ℤ)+i ∧ (base : ℤ)+i≤u64Max
    · rw [if_pos h]
      exact Or.inl ⟨((base : ℤ)+i).toNat,rfl,by omega⟩
    · rw [if_neg h]
      exact Or.inr ⟨_,rfl,by omega⟩
  cases target with
  | start i => exact Or.inl ⟨i,rfl,rfl⟩
  | fromEnd i =>
    unfold newOffset
    rw [attributeLen_eq]
    exact hadd fork.xattr.bytes.length i
  | current i => exact hadd fork.position i

/-- A seek goes to its destination when that is a 32-bit value, and otherwise
fails and changes nothing. -/
theorem seek_cases (target : SeekFrom) :
    (∃ h, ¬Leaves (.seek target) fork.file ∧
      seek target fork=.ok (destination fork.file (.seek target)).toNat
        {fork with position := (destination fork.file (.seek target)).toNat,position_le := h}) ∨
    ∃ e, Leaves (.seek target) fork.file ∧ seek target fork=.error (.error e) fork := by
  unfold seek
  rcases newOffset_cases fork target with ⟨offset,hoffset,hdestination⟩|⟨e,hoffset,hleaves⟩
  · rw [hoffset,hdestination]
    dsimp only
    rw [Int.toNat_natCast]
    by_cases h : offset≤u32Max
    · refine Or.inl ⟨h,?_,dif_pos h⟩
      unfold Leaves
      rw [hdestination]
      omega
    · refine Or.inr ⟨_,?_,dif_neg h⟩
      unfold Leaves
      rw [hdestination]
      omega
  · rw [hoffset]
    exact Or.inr ⟨e,hleaves,rfl⟩

/-- A call that would leave the 32-bit range fails and leaves the fork as it is. -/
theorem step_of_leaves {op : Op} (h : Leaves op fork.file) : step build fork op=(.failed,fork) := by
  cases op with
  | write buf =>
    have hend : ¬fork.position+buf.length≤u32Max := by
      unfold Leaves destination ResourceFork.file at h
      dsimp only at h
      omega
    obtain ⟨e,he⟩ := write_of_gt fork hend
    rw [step_write,he]
    rfl
  | read size =>
    have hend := read_end_le fork size
    unfold Leaves destination ResourceFork.file at h
    dsimp only at h
    omega
  | seek target =>
    rcases seek_cases fork target with ⟨_,hstays,_⟩|⟨e,_,he⟩
    · exact (hstays h).elim
    · rw [step_seek,he]
      rfl

/-- A call that stays in range reports what the array reports and leaves its
contents and its cursor behind. -/
theorem step_of_stays {op : Op} (h : ¬Leaves op fork.file) :
    (step build fork op).1=report fork.file op ∧
    (step build fork op).2.file=
      ⟨contents fork.file op,(destination fork.file op).toNat⟩ := by
  cases op with
  | write buf =>
    have hend : fork.position+buf.length≤u32Max := by
      unfold Leaves destination ResourceFork.file at h
      dsimp only at h
      omega
    obtain ⟨xattr,hw,hbytes⟩ := write_of_le fork hend
    rw [step_write,hw]
    refine ⟨rfl,?_⟩
    change (⟨xattr.bytes,fork.position+buf.length⟩ : Cursor)=
      ⟨overwrite fork.xattr.bytes fork.position buf,((fork.position : ℤ)+buf.length).toNat⟩
    rw [hbytes,overwrite_eq]
    congr 1
  | read size =>
    rw [step_read,read_eq]
    exact ⟨rfl,rfl⟩
  | seek target =>
    rcases seek_cases fork target with ⟨hle,_,hs⟩|⟨_,hleaves,_⟩
    · rw [step_seek,hs]
      exact ⟨rfl,rfl⟩
    · exact (h hleaves).elim

/-- One call on a fork is one call on the array. -/
theorem step_eq (op : Op) :
    (step build fork op).1=(arrayStep fork.file op).1 ∧
    (step build fork op).2.file=(arrayStep fork.file op).2 := by
  unfold arrayStep
  by_cases h : Leaves op fork.file
  · rw [if_pos h,step_of_leaves build fork h]
    exact ⟨rfl,rfl⟩
  · rw [if_neg h]
    exact step_of_stays build fork h

/-- Only a read adds without a check, and it stays in range: the builds agree. -/
theorem step_build (op : Op) : step build fork op=step .release fork op := by
  cases op with
  | read size =>
    rw [step_read,step_read,read_eq,read_eq]
  | write buf => rfl
  | seek target => rfl

end Step

section Run

/-- What an array reports is never a panic. -/
theorem arrayStep_ne_panicked (file : Cursor) (op : Op) : (arrayStep file op).1≠.panicked := by
  unfold arrayStep
  by_cases h : Leaves op file
  · rw [if_pos h]
    exact Outcome.noConfusion
  · rw [if_neg h]
    cases op <;> exact Outcome.noConfusion

/-- Consecutive calls on a fork are the same calls on the array. -/
theorem run_eq (build : Build) (ops : List Op) (fork : ResourceFork) :
    (run build ops fork).1=(arrayRun ops fork.file).1 ∧
    (run build ops fork).2.file=(arrayRun ops fork.file).2 := by
  induction ops generalizing fork with
  | nil => exact ⟨rfl,rfl⟩
  | cons op ops ih =>
    obtain ⟨houtcome,hfile⟩ := step_eq build fork op
    obtain ⟨houtcomes,hlast⟩ := ih (step build fork op).2
    simp only [run,arrayRun,houtcome,houtcomes,hlast,hfile,and_self]

/-- Consecutive calls never panic. -/
theorem run_ne_panicked (build : Build) (ops : List Op) (fork : ResourceFork) :
    .panicked∉(run build ops fork).1 := by
  induction ops generalizing fork with
  | nil => exact List.not_mem_nil
  | cons op ops ih =>
    simp only [run,List.mem_cons,not_or]
    refine ⟨fun h => ?_,ih _⟩
    rw [(step_eq build fork op).1] at h
    exact arrayStep_ne_panicked _ _ h.symm

/-- Consecutive calls do the same in both builds. -/
theorem run_build (build : Build) (ops : List Op) (fork : ResourceFork) :
    run build ops fork=run .release ops fork := by
  induction ops generalizing fork with
  | nil => rfl
  | cons op ops ih => simp only [run,step_build build fork op,ih]

/-- Over any calls in any order a fork is a byte array with a cursor that stays
in the 32-bit range: the same outcomes, contents and position, without a panic
and without a difference between the builds. A call that would leave the range,
wherever in the run it comes, fails and changes nothing. -/
theorem fork_behaves_as_array (build : Build) (ops : List Op) (fork : ResourceFork) :
    (run build ops fork).1=(arrayRun ops fork.file).1 ∧
    (run build ops fork).2.file=(arrayRun ops fork.file).2 ∧
    .panicked∉(run build ops fork).1 ∧
    run build ops fork=run .release ops fork ∧
    ∀ op, Leaves op (run build ops fork).2.file →
      step build (run build ops fork).2 op=(.failed,(run build ops fork).2) :=
  ⟨(run_eq build ops fork).1,(run_eq build ops fork).2,run_ne_panicked build ops fork,
    run_build build ops fork,fun _ => step_of_leaves build _⟩

end Run

section Device

/-- The fork as the device that writers fill. -/
def ResourceFork.device (fork : ResourceFork) : ForkDevice.ResourceFork :=
  ⟨fork.xattr.value,fork.position,[],fork.position_le⟩

/-- What is left of a call on the fork when it is seen as the device. -/
def onDevice {α : Type} :
    EStateM.Result Fault ResourceFork α→EStateM.Result Fault ForkDevice.ResourceFork α
  | .ok a fork => .ok a fork.device
  | .error e fork => .error e fork.device

/-- The device writes as the fork does. -/
theorem write_device (buf : List UInt8) (fork : ResourceFork) :
    ForkDevice.write buf fork.device=onDevice (write buf fork) := by
  unfold ForkDevice.write write fsetxattr
  change (if buf.length≤u32Max then
    if h : fork.position+buf.length≤u32Max then ForkDevice.setAttribute buf fork.device h
    else _ else _)=_
  by_cases hlen : buf.length≤u32Max
  · rw [if_pos hlen,if_pos hlen]
    by_cases hfit : fork.position+buf.length≤u32Max
    · rw [dif_pos hfit,dif_pos hfit,dif_pos hfit]
      rfl
    · rw [dif_neg hfit,dif_neg hfit]
      rfl
  · rw [if_neg hlen,if_neg hlen]
    rfl

/-- The device goes to an offset as the fork does, or refuses it as the fork does. -/
theorem land_device (fork : ResourceFork) (o : Option ℕ) :
    (match o with
      | none => .error (.error (.ofKind .invalidInput)) fork.device
      | some pos =>
        if h : pos≤u32Max then .ok pos {fork.device with position := pos,position_le := h}
        else .error (.error (.ofKind .invalidInput)) fork.device)=
    onDevice (match o.elim (.error (.ofKind .invalidInput)) (.ok : ℕ→Except IoError ℕ) with
      | .ok offset =>
        if h : offset≤u32Max then .ok offset {fork with position := offset,position_le := h}
        else .error (.error (.ofKind .invalidInput)) fork
      | .error e => .error (.error e) fork) := by
  cases o with
  | none => rfl
  | some pos =>
    by_cases h : pos≤u32Max
    · simp only [Option.elim,dif_pos h]
      rfl
    · simp only [Option.elim,dif_neg h]
      rfl

/-- The device seeks as the fork does. -/
theorem seek_device (target : SeekFrom) (fork : ResourceFork) :
    ForkDevice.seek target fork.device=onDevice (seek target fork) := by
  unfold ForkDevice.seek seek
  cases target with
  | start i => exact land_device fork (some i)
  | fromEnd i =>
    unfold newOffset
    rw [attributeLen_eq]
    exact land_device fork (checkedAddSigned fork.xattr.bytes.length i)
  | current i => exact land_device fork (checkedAddSigned fork.position i)

end Device

end Applesauce.ForkFile
