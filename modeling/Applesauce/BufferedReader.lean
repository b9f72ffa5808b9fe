import Applesauce.SeekableFile

/-!
# Raw sources and the buffer in front of them

A raw source returns part of what a read asks for, or is interrupted. A
`BufReader` reads ahead in larger pieces and seeks within them where it can.
Seen through its buffer it is an ordinary file: every call returns the bytes
at the logical position and moves it, whatever is buffered at that time.
-/

namespace Applesauce.BufferedReader

open RustIo SparseFile SeekableFile

/-- What a source offers: partial reads and a seek. -/
class RawSource (σ : Type) where
  /-- Read into a buffer of the given size; the bytes it reports as read. -/
  read : ℕ→Io σ (List UInt8)
  /-- Move the position. -/
  seek : SeekFrom→Io σ ℕ
  /-- How often a read can still be interrupted. -/
  patience : σ→ℕ

/-- A source of the bytes of a file. It returns at least one byte before the
end, fails only by an interruption, and goes to every 32-bit position. -/
class LawfulRawSource (σ : Type) [RawSource σ] where
  /-- The file that is read. -/
  file : σ→ Cursor
  read_ok : ∀ {size : ℕ} {s t : σ} {bytes : List UInt8}, RawSource.read size s=.ok bytes t →
    (∃ count≤ size, (0<size → 0<count) ∧ bytes=readAt (file s).bytes (file s).pos count) ∧
      file t=⟨(file s).bytes,(file s).pos+bytes.length⟩ ∧ RawSource.patience t≤RawSource.patience s
  read_error : ∀ {size : ℕ} {s t : σ} {e : Fault}, RawSource.read size s=.error e t →
    file t=file s ∧ RawSource.patience t<RawSource.patience s ∧
      ∃ error : IoError, e=.error error ∧ error.kind=.interrupted
  seek_ok : ∀ {target : SeekFrom} {s : σ} {pos : ℕ}, (file s).seekTarget target=some pos →
    pos≤u32Max → ∃ t, RawSource.seek target s=.ok pos t ∧ file t=⟨(file s).bytes,pos⟩ ∧
      RawSource.patience t≤RawSource.patience s

/-- `BufReader`: the filled part of its buffer is split at the read position. -/
structure BufReader (σ : Type) where
  /-- The source. -/
  inner : σ
  /-- The buffered bytes already consumed. -/
  behind : List UInt8
  /-- The buffered bytes not consumed yet. -/
  ahead : List UInt8
  /-- The size of the buffer. -/
  capacity : ℕ

/-- A loop that outlives its bound; the bounds used below are never reached. -/
def boundFault : Fault := .panic "loop bound exceeded"

section Calls
variable {σ : Type} [RawSource σ]

/-- `BufReader::with_capacity`. -/
def BufReader.new (inner : σ) (capacity : ℕ) : BufReader σ := ⟨inner,[],[],capacity⟩

/-- `discard_buffer`. -/
def BufReader.discard (r : BufReader σ) (inner : σ) : BufReader σ := ⟨inner,[],[],r.capacity⟩

/-- `BufRead::consume`. -/
def BufReader.consume (r : BufReader σ) (n : ℕ) : BufReader σ :=
  {r with behind := r.behind++r.ahead.take n, ahead := r.ahead.drop n}

/-- `unconsume`: back over bytes that are still buffered. -/
def BufReader.unconsume (r : BufReader σ) (n : ℕ) : BufReader σ :=
  {r with
    behind := r.behind.take (r.behind.length-n)
    ahead := r.behind.drop (r.behind.length-n)++r.ahead}

/-- `BufRead::fill_buf`: an empty buffer is filled by one read. -/
def fillBuf : Io (BufReader σ) (List UInt8) := fun r =>
  match r.ahead with
  | [] =>
    match RawSource.read r.capacity r.inner with
    | .ok bytes inner => .ok bytes {r.discard inner with ahead := bytes}
    | .error e inner => .error e (r.discard inner)
  | byte::bytes => .ok (byte::bytes) r

/-- `Read::read`; a read no smaller than the buffer bypasses it while it is empty. -/
def read (size : ℕ) : Io (BufReader σ) (List UInt8) := fun r =>
  if r.ahead=[] ∧ r.capacity≤ size then
    match RawSource.read size r.inner with
    | .ok bytes inner => .ok bytes (r.discard inner)
    | .error e inner => .error e (r.discard inner)
  else
    match fillBuf r with
    | .ok rest r => .ok (rest.take size) (r.consume (rest.take size).length)
    | .error e r => .error e r

/-- Where the source has to seek: what is buffered ahead has been read already. -/
def innerTarget (ahead : ℕ) : SeekFrom→SeekFrom
  | .start offset => .start offset
  | .fromEnd offset => .fromEnd offset
  | .current offset => .current (offset-ahead)

/-- `Seek::seek`, which discards the buffer. -/
def seek (target : SeekFrom) : Io (BufReader σ) ℕ := fun r =>
  match RawSource.seek (innerTarget r.ahead.length target) r.inner with
  | .ok pos inner => .ok pos (r.discard inner)
  | .error e inner => .error e {r with inner := inner}

/-- `seek_relative`: within the buffer without the source, otherwise by a seek. -/
def seekRelative (offset : ℤ) : Io (BufReader σ) Unit := fun r =>
  if offset<0 ∧ (-offset).toNat≤r.behind.length then .ok () (r.unconsume (-offset).toNat)
  else if 0≤offset ∧ offset.toNat≤r.ahead.length then .ok () (r.consume offset.toNat)
  else
    match seek (.current offset) r with
    | .ok _ r => .ok () r
    | .error e r => .error e r

/-- The loop of `take(limit).read_to_end`: read until the limit or the end is
reached, again after an interruption. The room offered to each read is any
positive number, here one more than `room` of the turns left. -/
def readLoop (room : ℕ→ℕ) : ℕ→ℕ→BufReader σ→List UInt8→
    EStateM.Result Fault (BufReader σ×List UInt8) Unit
  | _,0,r,dst => .ok () (r,dst)
  | 0,_+1,r,dst => .error boundFault (r,dst)
  | fuel+1,limit+1,r,dst =>
    match read (min (limit+1) (room fuel+1)) r with
    | .ok [] r => .ok () (r,dst)
    | .ok (byte::bytes) r => readLoop room fuel (limit-bytes.length) r (dst++byte::bytes)
    | .error (.error e) r =>
      if e.kind=.interrupted then readLoop room fuel (limit+1) r dst
      else .error (.error e) (r,dst)
    | .error (.panic message) r => .error (.panic message) (r,dst)

/-- `take(limit).read_to_end(dst)`: the number of bytes appended. The loop gets
one turn for every interruption and every byte. -/
def takeReadToEnd (room : ℕ→ℕ) (limit : ℕ) : Io (BufReader σ×List UInt8) ℕ := fun (r,dst) =>
  match readLoop room (RawSource.patience r.inner+limit) limit r dst with
  | .ok _ (r,appended) => .ok (appended.length-dst.length) (r,appended)
  | .error e (r,appended) => .error e (r,appended)

end Calls

section Seen
variable {σ : Type} [RawSource σ] [LawfulRawSource σ]

open LawfulRawSource

/-- The filled part of the buffer. -/
def BufReader.buffer (r : BufReader σ) : List UInt8 := r.behind++r.ahead

/-- The buffer holds the bytes in front of the position of the source. -/
def BufReader.Sound (r : BufReader σ) : Prop :=
  ∃ start, (file r.inner).pos=start+r.buffer.length ∧
    r.buffer=readAt (file r.inner).bytes start r.buffer.length

/-- The file seen through the buffer. -/
def BufReader.view (r : BufReader σ) : Cursor :=
  ⟨(file r.inner).bytes,(file r.inner).pos-r.ahead.length⟩

/-- A reader with an empty buffer is sound. -/
theorem sound_discard (r : BufReader σ) (inner : σ) : (r.discard inner).Sound :=
  ⟨(file inner).pos,rfl,rfl⟩

/-- With an empty buffer the file is the one of the source. -/
@[simp]
theorem view_discard (r : BufReader σ) (inner : σ) : (r.discard inner).view=file inner := rfl

/-- The source has passed everything buffered ahead. -/
theorem BufReader.Sound.ahead_le {r : BufReader σ} (h : r.Sound) :
    r.ahead.length≤(file r.inner).pos := by
  obtain ⟨start,hpos,_⟩ := h
  unfold BufReader.buffer at hpos
  rw [List.length_append] at hpos
  omega

/-- What is buffered ahead are the bytes at the position. -/
theorem BufReader.Sound.ahead_eq {r : BufReader σ} (h : r.Sound) :
    r.ahead=readAt r.view.bytes r.view.pos r.ahead.length := by
  obtain ⟨start,hpos,hbuffer⟩ := h
  have hlen : r.buffer.length=r.behind.length+r.ahead.length := List.length_append
  have hstart : (file r.inner).pos-r.ahead.length=start+r.behind.length := by omega
  have hsplit : r.buffer=readAt (file r.inner).bytes start r.behind.length++
      readAt (file r.inner).bytes (start+r.behind.length) r.ahead.length := by
    rw [←readAt_add,←hlen]
    exact hbuffer
  have hfull : (readAt (file r.inner).bytes start r.buffer.length).length=r.buffer.length := by
    rw [←hbuffer]
  have hbehind : (readAt (file r.inner).bytes start r.behind.length).length=r.behind.length := by
    rw [readAt_length] at hfull ⊢
    omega
  unfold BufReader.view
  dsimp only
  rw [hstart]
  exact (List.append_inj hsplit hbehind.symm).2

/-- A first part of what is buffered ahead. -/
theorem BufReader.Sound.take_ahead {r : BufReader σ} (h : r.Sound) (n : ℕ) :
    r.ahead.take n=readAt r.view.bytes r.view.pos (min n r.ahead.length) := by
  rw [h.ahead_eq]
  unfold readAt
  rw [List.take_take,List.length_take,List.length_drop]
  congr 1
  have hle : r.ahead.length≤r.view.bytes.length-r.view.pos := by
    have hlen := congrArg List.length h.ahead_eq
    rw [readAt_length] at hlen
    omega
  omega

section Moves

omit [RawSource σ] [LawfulRawSource σ] in
/-- Consuming changes nothing in the buffer. -/
theorem consume_buffer (r : BufReader σ) (n : ℕ) : (r.consume n).buffer=r.buffer := by
  unfold BufReader.buffer BufReader.consume
  rw [List.append_assoc,List.take_append_drop]

omit [RawSource σ] [LawfulRawSource σ] in
/-- Going back changes nothing in the buffer. -/
theorem unconsume_buffer (r : BufReader σ) (n : ℕ) : (r.unconsume n).buffer=r.buffer := by
  unfold BufReader.buffer BufReader.unconsume
  rw [←List.append_assoc,List.take_append_drop]

/-- Consuming keeps the reader sound. -/
theorem BufReader.Sound.consume {r : BufReader σ} (h : r.Sound) (n : ℕ) : (r.consume n).Sound := by
  obtain ⟨start,hpos,hbuffer⟩ := h
  refine ⟨start,?_,?_⟩
  · rw [consume_buffer]
    exact hpos
  · rw [consume_buffer]
    exact hbuffer

/-- Going back keeps the reader sound. -/
theorem BufReader.Sound.unconsume {r : BufReader σ} (h : r.Sound) (n : ℕ) :
    (r.unconsume n).Sound := by
  obtain ⟨start,hpos,hbuffer⟩ := h
  refine ⟨start,?_,?_⟩
  · rw [unconsume_buffer]
    exact hpos
  · rw [unconsume_buffer]
    exact hbuffer

/-- Consuming moves the position. -/
theorem BufReader.Sound.view_consume {r : BufReader σ} (h : r.Sound) {n : ℕ}
    (hn : n≤r.ahead.length) : (r.consume n).view=⟨r.view.bytes,r.view.pos+n⟩ := by
  have hle := h.ahead_le
  unfold BufReader.view BufReader.consume
  dsimp only
  rw [List.length_drop]
  congr 1
  omega

/-- Going back moves the position. -/
theorem BufReader.Sound.view_unconsume {r : BufReader σ} (h : r.Sound) {n : ℕ}
    (hn : n≤r.behind.length) :
    (r.unconsume n).view=⟨r.view.bytes,r.view.pos-n⟩ ∧ n≤r.view.pos := by
  obtain ⟨start,hpos,_⟩ := h
  unfold BufReader.buffer at hpos
  rw [List.length_append] at hpos
  have hback : r.behind.length-(r.behind.length-n)=n := by omega
  unfold BufReader.view BufReader.unconsume
  dsimp only
  rw [List.length_append,List.length_drop,hback]
  refine ⟨?_,by omega⟩
  congr 1
  omega

end Moves

section Reads

/-- The same file, a number of bytes further, with no more interruptions to come. -/
structure Advances (r t : BufReader σ) (count : ℕ) : Prop where
  sound : t.Sound
  view : t.view=⟨r.view.bytes,r.view.pos+count⟩
  patience : RawSource.patience t.inner≤RawSource.patience r.inner

/-- Advancing twice. -/
theorem Advances.trans {r t u : BufReader σ} {m n : ℕ} (h : Advances r t m)
    (k : Advances t u n) : Advances r u (m+n) := by
  refine ⟨k.sound,?_,k.patience.trans h.patience⟩
  rw [k.view,h.view,Nat.add_assoc]

/-- An interrupted call leaves the file as it is and one interruption fewer to come. -/
structure Interrupted (r t : BufReader σ) (e : Fault) : Prop where
  sound : t.Sound
  view : t.view=r.view
  patience : RawSource.patience t.inner<RawSource.patience r.inner
  fault : ∃ error : IoError, e=.error error ∧ error.kind=.interrupted

/-- A read past an empty buffer. -/
theorem bypass_cases {r : BufReader σ} (hempty : r.ahead=[]) (size : ℕ) :
    (∃ bytes inner count, RawSource.read size r.inner=.ok bytes inner ∧ count≤ size ∧
      (0<size → 0<count) ∧ bytes=readAt r.view.bytes r.view.pos count ∧
      (file inner)=⟨r.view.bytes,r.view.pos+bytes.length⟩ ∧
      RawSource.patience inner≤RawSource.patience r.inner) ∨
    ∃ e inner, RawSource.read size r.inner=.error e inner ∧ Interrupted r (r.discard inner) e := by
  have hview : r.view=file r.inner := by
    unfold BufReader.view
    rw [hempty]
    rfl
  cases hread : RawSource.read size r.inner with
  | ok bytes inner =>
    obtain ⟨⟨count,hle,hpos,hbytes⟩,hfile,hpatience⟩ := read_ok hread
    rw [hview]
    exact Or.inl ⟨bytes,inner,count,rfl,hle,hpos,hbytes,hfile,hpatience⟩
  | error e inner =>
    obtain ⟨hfile,hpatience,hkind⟩ := read_error hread
    exact Or.inr ⟨e,inner,rfl,sound_discard r inner,hfile.trans hview.symm,hpatience,hkind⟩

/-- Filling the buffer moves nothing; without bytes ahead the file has ended. -/
theorem fillBuf_cases {r : BufReader σ} (h : r.Sound) :
    (∃ t, fillBuf r=.ok t.ahead t ∧ Advances r t 0 ∧
      (t.ahead=[] → r.ahead=[] ∧ (r.capacity≠0 → r.view.bytes.length≤r.view.pos))) ∨
    ∃ e t, fillBuf r=.error e t ∧ Interrupted r t e := by
  unfold fillBuf
  cases hahead : r.ahead with
  | cons byte bytes =>
    refine Or.inl ⟨r,by rw [hahead],⟨h,rfl,Nat.le_refl _⟩,fun hnil => ?_⟩
    rw [hahead] at hnil
    cases hnil
  | nil =>
    rcases bypass_cases hahead r.capacity with
      ⟨bytes,inner,count,hread,_,hpos,hbytes,hfile,hpatience⟩|⟨e,inner,hread,hinterrupted⟩
    · rw [hread]
      refine Or.inl ⟨{r.discard inner with ahead := bytes},rfl,⟨⟨r.view.pos,?_,?_⟩,?_,hpatience⟩,?_⟩
      · exact congrArg Cursor.pos hfile
      · change bytes=readAt (file inner).bytes r.view.pos bytes.length
        rw [hfile]
        dsimp only
        have hself := readAt_length r.view.bytes r.view.pos count
        rw [←hbytes] at hself
        rw [hself]
        conv_lhs => rw [hbytes]
        unfold readAt
        rw [List.take_eq_take_iff,List.length_drop]
        omega
      · unfold BufReader.view
        dsimp only [BufReader.discard]
        rw [hfile,Nat.add_sub_cancel]
        rfl
      · intro hnil
        refine ⟨rfl,fun hcapacity => ?_⟩
        have hlen := congrArg List.length hbytes
        rw [readAt_length] at hlen
        have hzero : bytes.length=0 := by rw [show bytes=[] from hnil]; rfl
        have hcount := hpos (Nat.pos_of_ne_zero hcapacity)
        omega
    · rw [hread]
      exact Or.inr ⟨e,_,rfl,hinterrupted⟩

/-- A read returns bytes at the position and moves behind them, or it is
interrupted. It asks for at least one byte unless nothing was asked for. -/
theorem read_cases {r : BufReader σ} (h : r.Sound) (size : ℕ) :
    (∃ bytes t, read size r=.ok bytes t ∧ Advances r t bytes.length ∧
      ∃ count≤ size, (0<size → 0<count) ∧ bytes=readAt r.view.bytes r.view.pos count) ∨
    ∃ e t, read size r=.error e t ∧ Interrupted r t e := by
  unfold read
  by_cases hbypass : r.ahead=[] ∧ r.capacity≤ size
  · rw [if_pos hbypass]
    rcases bypass_cases hbypass.1 size with
      ⟨bytes,inner,count,hread,hle,hpos,hbytes,hfile,hpatience⟩|⟨e,inner,hread,hinterrupted⟩
    · rw [hread]
      exact Or.inl ⟨bytes,_,rfl,⟨sound_discard r inner,hfile,hpatience⟩,count,hle,hpos,hbytes⟩
    · rw [hread]
      exact Or.inr ⟨e,_,rfl,hinterrupted⟩
  · rw [if_neg hbypass]
    rcases fillBuf_cases h with ⟨t,hfill,hadvances,hend⟩|⟨e,t,hfill,hinterrupted⟩
    · rw [hfill]
      have hlen : (t.ahead.take size).length≤t.ahead.length := List.length_take_le' _ _
      have hview : t.view=r.view := hadvances.view
      refine Or.inl ⟨_,_,rfl,⟨hadvances.sound.consume _,?_,hadvances.patience⟩,?_⟩
      · rw [hadvances.sound.view_consume hlen,hview]
      · by_cases hnil : t.ahead=[]
        · obtain ⟨hempty,hfilled⟩ := hend hnil
          have hcapacity : r.capacity≠0 := by
            intro hzero
            exact hbypass ⟨hempty,hzero.trans_le (Nat.zero_le size)⟩
          refine ⟨size,Nat.le_refl _,id,?_⟩
          unfold readAt
          rw [hnil,List.drop_eq_nil_of_le (hfilled hcapacity)]
        · refine ⟨min size t.ahead.length,Nat.min_le_left _ _,fun hpos => ?_,?_⟩
          · have hahead := List.length_pos_iff.mpr hnil
            omega
          · rw [hadvances.sound.take_ahead,hview]
    · rw [hfill]
      exact Or.inr ⟨e,t,rfl,hinterrupted⟩

/-- The rest of a long read behind a first part. -/
theorem readAt_rest {cells bytes : List UInt8} {pos count limit : ℕ}
    (hbytes : bytes=readAt cells pos count) (hcount : count≤limit) :
    readAt cells pos limit=bytes++readAt cells (pos+bytes.length) (limit-bytes.length) := by
  have hlen := readAt_length cells pos count
  rw [←hbytes] at hlen
  have hsame : bytes=readAt cells pos bytes.length := by
    conv_lhs => rw [hbytes]
    unfold readAt
    rw [List.take_eq_take_iff,List.length_drop]
    omega
  have hsplit : limit=bytes.length+(limit-bytes.length) := by omega
  conv_lhs => rw [hsplit,readAt_add,←hsame]

/-- The loop appends everything up to the limit or the end. -/
theorem readLoop_eq (room : ℕ→ℕ) {fuel limit : ℕ} {r : BufReader σ} (dst : List UInt8)
    (h : r.Sound) (hfuel : RawSource.patience r.inner+limit≤fuel) :
    ∃ t, readLoop room fuel limit r dst=.ok () (t,dst++readAt r.view.bytes r.view.pos limit) ∧
      Advances r t (readAt r.view.bytes r.view.pos limit).length := by
  induction fuel generalizing limit r dst with
  | zero =>
    obtain rfl : limit=0 := by omega
    refine ⟨r,?_,h,rfl,Nat.le_refl _⟩
    rw [readLoop,show readAt r.view.bytes r.view.pos 0=[] from List.take_zero,List.append_nil]
  | succ fuel ih =>
    cases limit with
    | zero =>
      refine ⟨r,?_,h,rfl,Nat.le_refl _⟩
      rw [readLoop,show readAt r.view.bytes r.view.pos 0=[] from List.take_zero,List.append_nil]
    | succ limit =>
      have hask : 0< min (limit+1) (room fuel+1) := by omega
      rcases read_cases h (min (limit+1) (room fuel+1)) with
        ⟨bytes,t,hread,hadvances,count,hle,hpos,hbytes⟩|⟨e,t,hread,hinterrupted⟩
      · have hcount := hpos hask
        have hrest := readAt_rest hbytes (by omega : count≤limit+1)
        have hpatience := hadvances.patience
        cases bytes with
        | nil =>
          have hover : r.view.bytes.length≤r.view.pos := by
            have hlen := congrArg List.length hbytes
            rw [readAt_length,List.length_nil] at hlen
            omega
          have hend : readAt r.view.bytes r.view.pos (limit+1)=[] := by
            unfold readAt
            rw [List.drop_eq_nil_of_le hover,List.take_nil]
          refine ⟨t,?_,?_⟩
          · simp only [readLoop,hread,hend,List.append_nil]
          · rw [hend]
            exact hadvances
        | cons byte bytes =>
          have hshort : (byte::bytes).length≤limit+1 := by
            have hlen := congrArg List.length hbytes
            rw [readAt_length] at hlen
            omega
          have hleft : limit+1-(byte::bytes).length=limit-bytes.length := by
            rw [List.length_cons]
            omega
          have hspent : RawSource.patience t.inner+(limit-bytes.length)≤fuel := by
            rw [List.length_cons] at hshort
            omega
          obtain ⟨u,hloop,hmore⟩ := ih (dst++byte::bytes) hadvances.sound hspent
          rw [hadvances.view] at hloop hmore
          rw [hleft] at hrest
          refine ⟨u,?_,?_⟩
          · simp only [readLoop,hread]
            rw [hloop,hrest,List.append_assoc]
          · rw [hrest,List.length_append]
            exact hadvances.trans hmore
      · obtain ⟨error,rfl,hkind⟩ := hinterrupted.fault
        have hpatience := hinterrupted.patience
        obtain ⟨u,hloop,hmore⟩ := ih dst hinterrupted.sound
          (by omega : RawSource.patience t.inner+(limit+1)≤fuel)
        rw [hinterrupted.view] at hloop hmore
        refine ⟨u,?_,hmore.sound,?_,hmore.patience.trans hpatience.le⟩
        · simp only [readLoop,hread,if_pos hkind]
          exact hloop
        · rw [hmore.view,hinterrupted.view]

/-- `take(limit).read_to_end` appends the bytes from the position to the limit or
the end and reports how many they are. -/
theorem takeReadToEnd_eq (room : ℕ→ℕ) (limit : ℕ) {r : BufReader σ} (dst : List UInt8)
    (h : r.Sound) :
    ∃ t, takeReadToEnd room limit (r,dst)=
        .ok (readAt r.view.bytes r.view.pos limit).length
          (t,dst++readAt r.view.bytes r.view.pos limit) ∧
      Advances r t (readAt r.view.bytes r.view.pos limit).length := by
  obtain ⟨t,hloop,hadvances⟩ := readLoop_eq room dst h (Nat.le_refl _)
  refine ⟨t,?_,hadvances⟩
  unfold takeReadToEnd
  dsimp only
  rw [hloop]
  dsimp only
  rw [List.length_append,Nat.add_sub_cancel_left]

end Reads

section Seeks

/-- A reader at a position of the same file. -/
structure Moved (r t : BufReader σ) (pos : ℕ) : Prop where
  sound : t.Sound
  view : t.view=⟨r.view.bytes,pos⟩
  patience : RawSource.patience t.inner≤RawSource.patience r.inner

/-- The source seeks to where the reader was to go. -/
theorem seekTarget_inner {r : BufReader σ} (h : r.Sound) (target : SeekFrom) :
    (file r.inner).seekTarget (innerTarget r.ahead.length target)=r.view.seekTarget target := by
  have hle := h.ahead_le
  cases target with
  | start offset => rfl
  | fromEnd offset => rfl
  | current offset =>
    have hsum : ((file r.inner).pos : ℤ)+(offset-r.ahead.length)=
        (((file r.inner).pos-r.ahead.length : ℕ) : ℤ)+offset := by omega
    unfold innerTarget Cursor.seekTarget checkedAddSigned BufReader.view
    dsimp only
    rw [hsum]

/-- A seek to a 32-bit position succeeds. -/
theorem seek_of {r : BufReader σ} (h : r.Sound) {target : SeekFrom} {pos : ℕ}
    (htarget : r.view.seekTarget target=some pos) (hpos : pos≤u32Max) :
    ∃ t, seek target r=.ok pos t ∧ Moved r t pos := by
  rw [←seekTarget_inner h] at htarget
  obtain ⟨inner,hseek,hfile,hpatience⟩ := seek_ok htarget hpos
  refine ⟨r.discard inner,?_,sound_discard r inner,hfile,hpatience⟩
  unfold seek
  rw [hseek]

/-- A relative seek to a 32-bit position succeeds, within the buffer or not. -/
theorem seekRelative_of {r : BufReader σ} (h : r.Sound) {offset : ℤ} {pos : ℕ}
    (hsum : (r.view.pos : ℤ)+offset=pos) (hpos : pos≤u32Max) :
    ∃ t, seekRelative offset r=.ok () t ∧ Moved r t pos := by
  unfold seekRelative
  by_cases hback : offset<0 ∧ (-offset).toNat≤r.behind.length
  · rw [if_pos hback]
    obtain ⟨hview,hle⟩ := h.view_unconsume hback.2
    refine ⟨_,rfl,h.unconsume _,?_,Nat.le_refl _⟩
    rw [hview]
    congr 1
    omega
  · rw [if_neg hback]
    by_cases hforth : 0≤offset ∧ offset.toNat≤r.ahead.length
    · rw [if_pos hforth]
      refine ⟨_,rfl,h.consume _,?_,Nat.le_refl _⟩
      rw [h.view_consume hforth.2]
      congr 1
      omega
    · rw [if_neg hforth]
      have hwide : u32Max≤u64Max := by decide
      have hrange : 0≤(r.view.pos : ℤ)+offset ∧ (r.view.pos : ℤ)+offset≤u64Max := by omega
      have htarget : r.view.seekTarget (.current offset)=some pos := by
        unfold Cursor.seekTarget checkedAddSigned
        dsimp only
        rw [if_pos hrange,hsum,Int.toNat_natCast]
      obtain ⟨t,hseek,hmoved⟩ := seek_of h htarget hpos
      rw [hseek]
      exact ⟨t,rfl,hmoved⟩

end Seeks

end Seen

end Applesauce.BufferedReader
