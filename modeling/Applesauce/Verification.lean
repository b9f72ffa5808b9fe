import Applesauce.BlockReading
import Applesauce.Compressors

/-!
# Comparing the destination with the original

Two buffered streams are compared window by window, each step by the shorter
of two windows. In the manual mode the blocks of the original are decoded one
by one and compared with as many bytes of the destination. Either comparison
depends on the streams only, not on how they are cut into windows.
-/

namespace Applesauce.Verification

open RustIo SeekableFile DecmpfsValue DecmpfsReader BlockReading Compressors

section Streams

/-- A buffered reader: the bytes ahead, and how long the windows of the next
`fill_buf` calls are. A window has a byte while there is one; beyond the list
it is all that is ahead. -/
structure BufRead where
  /-- The bytes not yet consumed. -/
  rest : List UInt8
  /-- The lengths of the next windows. -/
  windows : List ℕ
  deriving DecidableEq,Repr

namespace BufRead

/-- `fill_buf`: the next window. -/
def fillBuf (b : BufRead) : List UInt8×BufRead :=
  match b.windows with
  | [] => (b.rest,b)
  | size::windows => (b.rest.take (max 1 size),{b with windows := windows})

/-- `consume`. -/
def consume (n : ℕ) (b : BufRead) : BufRead := {b with rest := b.rest.drop n}

/-- A window is a first part of the bytes ahead, and leaves them there. -/
theorem fillBuf_prefix (b : BufRead) :
    b.fillBuf.1=b.rest.take b.fillBuf.1.length ∧ b.fillBuf.2.rest=b.rest := by
  unfold fillBuf
  cases b.windows with
  | nil => exact ⟨(List.take_length).symm,rfl⟩
  | cons size windows =>
    refine ⟨?_,rfl⟩
    dsimp only
    rw [List.length_take,List.take_eq_take_min]

/-- Only a stream at its end has an empty window. -/
theorem fillBuf_eq_nil (b : BufRead) : b.fillBuf.1=[] ↔ b.rest=[] := by
  unfold fillBuf
  cases b.windows with
  | nil => exact Iff.rfl
  | cons size windows =>
    have hpos : max 1 size≠0 := by omega
    simp only [List.take_eq_nil_iff,hpos,false_or]

/-- A window is no longer than what is ahead. -/
theorem fillBuf_length_le (b : BufRead) : b.fillBuf.1.length≤b.rest.length := by
  have hlength := congrArg List.length b.fillBuf_prefix.1
  rw [List.length_take] at hlength
  omega

/-- `read` of a buffered reader: what a buffer of this size takes of the window. -/
def read (size : ℕ) (b : BufRead) : List UInt8×BufRead :=
  (b.fillBuf.1.take size,b.fillBuf.2.consume (b.fillBuf.1.take size).length)

/-- The error of `read_exact` at the end of a stream. -/
def fillError : IoError := .new .unexpectedEof "failed to fill whole buffer"

/-- The loop of `read_exact`: so many bytes are missing, these are there. -/
def fillLoop : ℕ→ℕ→List UInt8→Io BufRead (List UInt8)
  | _,0,filled => fun b => .ok filled b
  | 0,_+1,_ => fun b => .error BufferedSink.boundFault b
  | fuel+1,missing+1,filled => fun b =>
    let (bytes,after) := b.read (missing+1)
    if bytes.length=0 then .error (.error fillError) after
    else fillLoop fuel (missing+1-bytes.length) (filled++bytes) after

/-- `read_exact` into a buffer of this size, one turn for every byte. -/
def readExact (size : ℕ) : Io BufRead (List UInt8) := fillLoop size size []

/-- A read returns some of the next bytes and moves behind them; into a buffer
with room it returns none only at the end. -/
theorem read_cases (size : ℕ) (b : BufRead) :
    (b.read size).1=b.rest.take (b.read size).1.length ∧
    (b.read size).2.rest=b.rest.drop (b.read size).1.length ∧
    (b.read size).1.length≤ size ∧ (b.read size).1.length≤b.rest.length ∧
    ((b.read size).1.length=0 → size=0 ∨ b.rest=[]) := by
  obtain ⟨hwindow,hkept⟩ := b.fillBuf_prefix
  have hle := b.fillBuf_length_le
  have hbytes : (b.read size).1=b.fillBuf.1.take size := rfl
  have hcount : (b.read size).1.length=min size b.fillBuf.1.length := by
    rw [hbytes,List.length_take]
  refine ⟨?_,?_,by omega,by omega,fun hzero => ?_⟩
  · rw [hcount,hbytes,hwindow,List.take_take,List.length_take,Nat.min_eq_left hle]
  · change b.fillBuf.2.rest.drop _=_
    rw [hkept,hbytes]
  · rcases Nat.eq_zero_or_pos size with hsize|hsize
    · exact Or.inl hsize
    · refine Or.inr (b.fillBuf_eq_nil.mp (List.length_eq_zero_iff.mp ?_))
      omega

/-- The loop returns the missing bytes, or fails where there are fewer. -/
theorem fillLoop_cases {fuel missing : ℕ} (filled : List UInt8) (b : BufRead) (h : missing≤fuel) :
    (missing≤b.rest.length ∧ ∃ after, after.rest=b.rest.drop missing ∧
      fillLoop fuel missing filled b=.ok (filled++b.rest.take missing) after) ∨
    (b.rest.length< missing ∧
      ∃ after, fillLoop fuel missing filled b=.error (.error fillError) after) := by
  induction fuel generalizing missing filled b with
  | zero =>
    obtain rfl : missing=0 := by omega
    exact Or.inl ⟨Nat.zero_le _,b,rfl,by rw [List.take_zero,List.append_nil]; rfl⟩
  | succ fuel ih =>
    cases missing with
    | zero => exact Or.inl ⟨Nat.zero_le _,b,rfl,by rw [List.take_zero,List.append_nil]; rfl⟩
    | succ missing =>
      obtain ⟨hbytes,hafter,hle,hfit,hzero⟩ := b.read_cases (missing+1)
      simp only [fillLoop]
      by_cases hnone : (b.read (missing+1)).1.length=0
      · rw [if_pos hnone]
        have hend : b.rest=[] := (hzero hnone).resolve_left (Nat.succ_ne_zero missing)
        exact Or.inr ⟨by rw [hend]; exact Nat.succ_pos missing,_,rfl⟩
      rw [if_neg hnone]
      have hleft := congrArg List.length hafter
      rw [List.length_drop] at hleft
      have hturns : missing+1-(b.read (missing+1)).1.length≤fuel := by omega
      rcases ih (filled++(b.read (missing+1)).1) (b.read (missing+1)).2 hturns with
        ⟨henough,after,hrest,heq⟩|⟨hshort,after,heq⟩
      · refine Or.inl ⟨by omega,after,?_,?_⟩
        · rw [hrest,hafter,List.drop_drop,Nat.add_sub_cancel' hle]
        · rw [heq,hafter,List.append_assoc]
          nth_rewrite 1 [hbytes]
          rw [←List.take_add,Nat.add_sub_cancel' hle]
      · exact Or.inr ⟨by omega,after,heq⟩

/-- `read_exact` returns the next bytes, or fails where there are fewer. -/
theorem readExact_cases (size : ℕ) (b : BufRead) :
    (size≤b.rest.length ∧ ∃ after, after.rest=b.rest.drop size ∧
      readExact size b=.ok (b.rest.take size) after) ∨
    (b.rest.length<size ∧ ∃ after, readExact size b=.error (.error fillError) after) :=
  fillLoop_cases [] b (Nat.le_refl size)

end BufRead

end Streams

section Identical

/-- The error for bytes that differ. -/
def notIdenticalError : IoError := .new .invalidData "Files are not identical"

/-- The error for a stream that ends before the other. -/
def notSameSizeError : IoError := .new .unexpectedEof "Files are not the same size"

/-- The loop of `ensure_identical_files`. -/
def identicalLoop : ℕ→Io (BufRead×BufRead) Unit
  | 0 => fun s => .error BufferedSink.boundFault s
  | fuel+1 => fun s =>
    let (l,lhs) := s.1.fillBuf
    let (r,rhs) := s.2.fillBuf
    if l=[] ∧ r=[] then .ok () (lhs,rhs)
    else if l=[] ∨ r=[] then .error (.error notSameSizeError) (lhs,rhs)
    else
      let minLen := min l.length r.length
      if l.take minLen≠r.take minLen then .error (.error notIdenticalError) (lhs,rhs)
      else identicalLoop fuel (lhs.consume minLen,rhs.consume minLen)

/-- `ensure_identical_files`, one turn for every byte and one more. -/
def ensureIdenticalFiles (lhs rhs : BufRead) : EStateM.Result Fault (BufRead×BufRead) Unit :=
  identicalLoop (lhs.rest.length+1) (lhs,rhs)

/-- Two streams have different bytes at some place that both reach. -/
def Differ (l r : List UInt8) : Prop :=
  ∃ (i : ℕ) (a b : UInt8), l[i]?=some a ∧ r[i]?=some b ∧ a≠b

/-- One stream ends inside the other. -/
def EndsInside (l r : List UInt8) : Prop := l≠r ∧ (l<+:r ∨ r<+:l)

/-- Equal streams do not differ. -/
theorem not_differ_self (l : List UInt8) : ¬Differ l l := by
  rintro ⟨i,a,b,ha,hb,hne⟩
  rw [ha] at hb
  exact hne (Option.some.inj hb)

/-- A stream does not differ from one that it starts. -/
theorem not_differ_of_prefix {l r : List UInt8} (h : l<+:r) : ¬Differ l r := by
  obtain ⟨rest,rfl⟩ := h
  rintro ⟨i,a,b,ha,hb,hne⟩
  obtain ⟨hi,_⟩ := List.getElem?_eq_some_iff.mp ha
  rw [List.getElem?_append_left hi,ha] at hb
  exact hne (Option.some.inj hb)

/-- Differing is symmetric. -/
theorem Differ.symm {l r : List UInt8} (h : Differ l r) : Differ r l := by
  obtain ⟨i,a,b,ha,hb,hne⟩ := h
  exact ⟨i,b,a,hb,ha,hne.symm⟩

/-- A stream that ends inside another one does not differ from it. -/
theorem EndsInside.not_differ {l r : List UInt8} (h : EndsInside l r) : ¬Differ l r := by
  rcases h.2 with hl|hr
  · exact not_differ_of_prefix hl
  · exact fun hd => not_differ_of_prefix hr hd.symm

/-- A common front changes neither relation. -/
theorem Differ.append_left {l r : List UInt8} (front : List UInt8) (h : Differ l r) :
    Differ (front++l) (front++r) := by
  obtain ⟨i,a,b,ha,hb,hne⟩ := h
  refine ⟨front.length+i,a,b,?_,?_,hne⟩
  · rw [List.getElem?_append_right (Nat.le_add_right _ _),Nat.add_sub_cancel_left,ha]
  · rw [List.getElem?_append_right (Nat.le_add_right _ _),Nat.add_sub_cancel_left,hb]

/-- A common front does not change which stream ends first. -/
theorem EndsInside.append_left {l r : List UInt8} (front : List UInt8) (h : EndsInside l r) :
    EndsInside (front++l) (front++r) :=
  ⟨fun heq => h.1 (List.append_cancel_left heq),
    h.2.imp (List.prefix_append_right_inj front).mpr (List.prefix_append_right_inj front).mpr⟩

/-- Two windows of one length that are not equal differ at some place. -/
theorem differ_of_take_ne {l r : List UInt8} {n : ℕ} (hl : n≤l.length) (hr : n≤r.length)
    (h : l.take n≠r.take n) : Differ l r := by
  by_contra hsame
  refine h (List.ext_getElem ?_ fun i hi hi' => ?_)
  · rw [List.length_take,List.length_take]
    omega
  · by_contra hne
    rw [List.length_take] at hi
    rw [List.getElem_take,List.getElem_take] at hne
    exact hsame ⟨i,_,_,List.getElem?_eq_getElem (by omega),List.getElem?_eq_getElem (by omega),hne⟩

/-- How the loop ends follows from the streams alone. -/
theorem identicalLoop_cases {fuel : ℕ} (lhs rhs : BufRead) (h : lhs.rest.length<fuel) :
    (lhs.rest=rhs.rest ∧ ∃ t, identicalLoop fuel (lhs,rhs)=.ok () t) ∨
    (Differ lhs.rest rhs.rest ∧
      ∃ t, identicalLoop fuel (lhs,rhs)=.error (.error notIdenticalError) t) ∨
    (EndsInside lhs.rest rhs.rest ∧
      ∃ t, identicalLoop fuel (lhs,rhs)=.error (.error notSameSizeError) t) := by
  induction fuel generalizing lhs rhs with
  | zero => exact (Nat.not_lt_zero _ h).elim
  | succ fuel ih =>
    obtain ⟨hl,hlkept⟩ := lhs.fillBuf_prefix
    obtain ⟨hr,hrkept⟩ := rhs.fillBuf_prefix
    have hlnil := lhs.fillBuf_eq_nil
    have hrnil := rhs.fillBuf_eq_nil
    simp only [identicalLoop]
    by_cases hboth : lhs.fillBuf.1=[] ∧ rhs.fillBuf.1=[]
    · simp only [if_pos hboth]
      exact Or.inl ⟨(hlnil.mp hboth.1).trans (hrnil.mp hboth.2).symm,_,rfl⟩
    simp only [if_neg hboth]
    by_cases hone : lhs.fillBuf.1=[] ∨ rhs.fillBuf.1=[]
    · simp only [if_pos hone]
      refine Or.inr (Or.inr ⟨⟨fun heq => ?_,?_⟩,_,rfl⟩)
      · rw [hlnil,hrnil] at hboth hone
        rcases hone with hend|hend
        · exact hboth ⟨hend,heq.symm.trans hend⟩
        · exact hboth ⟨heq.trans hend,hend⟩
      · refine hone.imp (fun hend => ?_) fun hend => ?_
        · rw [hlnil.mp hend]
          exact List.nil_prefix
        · rw [hrnil.mp hend]
          exact List.nil_prefix
    simp only [if_neg hone]
    obtain ⟨hlne,hrne⟩ := not_or.mp hone
    have hlpos : 0<lhs.fillBuf.1.length := List.length_pos_iff.mpr hlne
    have hrpos : 0<rhs.fillBuf.1.length := List.length_pos_iff.mpr hrne
    obtain ⟨m,hm⟩ : ∃ m, m=min lhs.fillBuf.1.length rhs.fillBuf.1.length := ⟨_,rfl⟩
    rw [←hm]
    have hlle := lhs.fillBuf_length_le
    have hrle := rhs.fillBuf_length_le
    have hltake : lhs.fillBuf.1.take m=lhs.rest.take m := by
      rw [hl,List.take_take,Nat.min_eq_left (by omega)]
    have hrtake : rhs.fillBuf.1.take m=rhs.rest.take m := by
      rw [hr,List.take_take,Nat.min_eq_left (by omega)]
    rw [hltake,hrtake]
    by_cases hdiffer : lhs.rest.take m≠rhs.rest.take m
    · simp only [if_pos hdiffer]
      exact Or.inr (Or.inl ⟨differ_of_take_ne (by omega) (by omega) hdiffer,_,rfl⟩)
    simp only [if_neg hdiffer]
    have hfront := not_not.mp hdiffer
    have hlrest : (lhs.fillBuf.2.consume m).rest=lhs.rest.drop m := by
      rw [BufRead.consume,hlkept]
    have hrrest : (rhs.fillBuf.2.consume m).rest=rhs.rest.drop m := by
      rw [BufRead.consume,hrkept]
    have hsplit : lhs.rest.take m++lhs.rest.drop m=lhs.rest := List.take_append_drop m _
    have hsplit' : lhs.rest.take m++rhs.rest.drop m=rhs.rest := by
      rw [hfront,List.take_append_drop]
    have hless : (lhs.fillBuf.2.consume m).rest.length<fuel := by
      rw [hlrest,List.length_drop]
      omega
    have hrest := ih _ (rhs.fillBuf.2.consume m) hless
    rw [hlrest,hrrest] at hrest
    rcases hrest with ⟨heq,ht⟩|⟨hd,ht⟩|⟨he,ht⟩
    · refine Or.inl ⟨?_,ht⟩
      rw [←hsplit,←hsplit',heq,hfront]
    · have hwhole := hd.append_left (lhs.rest.take m)
      rw [hsplit,hsplit'] at hwhole
      exact Or.inr (Or.inl ⟨hwhole,ht⟩)
    · have hwhole := he.append_left (lhs.rest.take m)
      rw [hsplit,hsplit'] at hwhole
      exact Or.inr (Or.inr ⟨hwhole,ht⟩)

/-- What `ensure_identical_files` returns says how the streams relate. -/
theorem ensureIdenticalFiles_iff (lhs rhs : BufRead) :
    ((∃ t, ensureIdenticalFiles lhs rhs=.ok () t) ↔ lhs.rest=rhs.rest) ∧
    ((∃ t, ensureIdenticalFiles lhs rhs=.error (.error notIdenticalError) t) ↔
      Differ lhs.rest rhs.rest) ∧
    ((∃ t, ensureIdenticalFiles lhs rhs=.error (.error notSameSizeError) t) ↔
      EndsInside lhs.rest rhs.rest) := by
  have hother : ∀ {e e' : IoError} {t t' : BufRead×BufRead}, e≠e' →
      (.error (.error e) t : EStateM.Result Fault (BufRead×BufRead) Unit)≠.error (.error e') t' :=
    fun hne h => hne (Fault.error.inj (EStateM.Result.error.inj h).1)
  rcases identicalLoop_cases lhs rhs (Nat.lt_succ_self lhs.rest.length) with
    ⟨heq,t,ht⟩|⟨hd,t,ht⟩|⟨he,t,ht⟩
  · have hdiffer : ¬Differ lhs.rest rhs.rest := by
      rw [heq]
      exact not_differ_self _
    unfold ensureIdenticalFiles
    rw [ht]
    exact ⟨⟨fun _ => heq,fun _ => ⟨t,rfl⟩⟩,⟨nofun,fun hd => (hdiffer hd).elim⟩,
      ⟨nofun,fun he => (he.1 heq).elim⟩⟩
  · have hne : lhs.rest≠rhs.rest := by
      intro heq
      rw [heq] at hd
      exact not_differ_self _ hd
    unfold ensureIdenticalFiles
    rw [ht]
    exact ⟨⟨nofun,fun heq => (hne heq).elim⟩,⟨fun _ => hd,fun _ => ⟨t,rfl⟩⟩,
      ⟨fun ⟨_,h⟩ => (hother (by decide) h).elim,fun he => (he.not_differ hd).elim⟩⟩
  · unfold ensureIdenticalFiles
    rw [ht]
    exact ⟨⟨nofun,fun heq => (he.1 heq).elim⟩,
      ⟨fun ⟨_,h⟩ => (hother (by decide) h).elim,fun hd => (he.not_differ hd).elim⟩,
      ⟨fun _ => he,fun _ => ⟨t,rfl⟩⟩⟩

end Identical

section Manual

/-- The loop of `with_compressed_blocks` with what is done for every block. -/
def eachBlock {τ : Type} (perBlock : List UInt8→Io τ Unit) : ℕ→Reader→Io τ Unit
  | 0,_ => fun s => .error BufferedSink.boundFault s
  | fuel+1,r => fun s =>
    match readBlockInto (r,[]) with
    | .error e _ => .error e s
    | .ok hasBlock after =>
      if hasBlock then
        match perBlock after.2 s with
        | .error e t => .error e t
        | .ok _ t => eachBlock perBlock fuel after.1 t
      else .ok () s

/-- `with_compressed_blocks` on the attribute and the fork of a file; what is
done for a block is chosen once the format is known. -/
def withCompressedBlocksDo {τ : Type} (build : Build) (value : Except Fault (Option (List UInt8)))
    (opened : Except Fault Cursor) (f : Kind→Except Fault (List UInt8→Io τ Unit)) : Io τ Unit :=
  fun s =>
    match value with
    | .error e => .error e s
    | .ok none => .error (.error notCompressedError) s
    | .ok (some decmpfsData) =>
      match Reader.new build decmpfsData opened with
      | .error e => .error e s
      | .ok r =>
        match f r.kind with
        | .error e => .error e s
        | .ok perBlock => eachBlock perBlock (r.remainingBlocks+1) r s

/-- The error for a block whose bytes differ. -/
def blockDiffersError : IoError := .new .other "Files are not identical"

/-- The error for a destination that is longer than the original. -/
def destinationLongerError : IoError := .new .other "Files are not the same size"

/-- What `verify_manually` does for a block: decode it and compare it with as
many bytes of the destination. Both buffers have one byte more than a block. -/
def checkBlock (build : Build) (codecs : Codecs) (kind : Kind) (block : List UInt8) :
    Io BufRead Unit := fun destination =>
  match decompress build codecs (.ofKind codecs kind) (blockSize+1) block with
  | .error e => .error e destination
  | .ok decoded =>
    if blockSize+1<decoded.length then
      .error (.panic "range end index out of range for slice") destination
    else
      match BufRead.readExact decoded.length destination with
      | .error e destination => .error e destination
      | .ok actual destination =>
        if decoded≠actual then .error (.error blockDiffersError) destination
        else .ok () destination

/-- The decoder for the format; the reader has refused the formats without one. -/
def blockCheck (build : Build) (codecs : Codecs) (kind : Kind) :
    Except Fault (List UInt8→Io BufRead Unit) :=
  if kind.supported then .ok (checkBlock build codecs kind)
  else .error (.panic "reader validated compression kind")

/-- `verify_manually` on the attribute and the fork of the original. -/
def verifyManually (build : Build) (codecs : Codecs) (value : Except Fault (Option (List UInt8)))
    (opened : Except Fault Cursor) : Io BufRead Unit := fun destination =>
  match withCompressedBlocksDo build value opened (blockCheck build codecs) destination with
  | .error e destination => .error e destination
  | .ok _ destination =>
    if destination.fillBuf.1≠[] then
      .error (.error destinationLongerError) destination.fillBuf.2
    else .ok () destination.fillBuf.2

/-- Blocks done one after the other, and then how their reading ended. -/
def deliver {τ α : Type} (perBlock : α→Io τ Unit) (ending : Except Fault Unit) :
    List α→Io τ Unit
  | [] => fun s =>
    match ending with
    | .error e => .error e s
    | .ok _ => .ok () s
  | item::items => fun s =>
    match perBlock item s with
    | .error e t => .error e t
    | .ok _ t => deliver perBlock ending items t

/-- What is done for the blocks is done for those that are read. -/
theorem eachBlock_eq {τ : Type} (perBlock : List UInt8→Io τ Unit) (fuel : ℕ) (r : Reader) (s : τ) :
    eachBlock perBlock fuel r s=
      deliver perBlock (blockLoop fuel r).ending (blockLoop fuel r).items s := by
  induction fuel generalizing r s with
  | zero => rfl
  | succ fuel ih =>
    simp only [eachBlock,blockLoop]
    cases readBlockInto (r,[]) with
    | error e after => rfl
    | ok hasBlock after =>
      cases hasBlock with
      | false => rfl
      | true =>
        simp only [if_true,Reading.cons,deliver]
        cases perBlock after.2 s with
        | error e t => rfl
        | ok u t => exact ih after.1 t

/-- Blocks under another description. -/
theorem deliver_map {τ α β : Type} (perBlock : β→Io τ Unit) (ending : Except Fault Unit) (f : α→β)
    (items : List α) (s : τ) :
    deliver perBlock ending (items.map f) s=deliver (fun item => perBlock (f item)) ending items s := by
  induction items generalizing s with
  | nil => rfl
  | cons item items ih =>
    simp only [List.map_cons,deliver]
    cases perBlock (f item) s with
    | error e t => rfl
    | ok u t => exact ih t

/-- What is done for the blocks of a file is done for those that are read. -/
theorem withCompressedBlocksDo_eq {τ : Type} (build : Build)
    (value : Except Fault (Option (List UInt8))) (opened : Except Fault Cursor)
    {f : Kind→Except Fault (List UInt8→Io τ Unit)} {perBlock : Kind→List UInt8→Io τ Unit}
    (hf : ∀ kind, f kind=.ok (perBlock kind)) (s : τ) :
    withCompressedBlocksDo build value opened f s=
      deliver (fun item => perBlock item.1 item.2) (withCompressedBlocks build value opened).ending
        (withCompressedBlocks build value opened).items s := by
  unfold withCompressedBlocksDo withCompressedBlocks
  cases value with
  | error e => rfl
  | ok decmpfsData =>
    cases decmpfsData with
    | none => rfl
    | some decmpfsData =>
      dsimp only
      cases Reader.new build decmpfsData opened with
      | error e => rfl
      | ok r =>
        dsimp only
        rw [hf]
        dsimp only [Reading.map]
        rw [deliver_map,eachBlock_eq]

/-- A block decodes to these bytes, which the buffers of the verification hold. -/
structure Decodes (build : Build) (codecs : Codecs) (block : Kind×List UInt8) (decoded : List UInt8) :
    Prop where
  decode : decompress build codecs (.ofKind codecs block.1) (blockSize+1) block.2=.ok decoded
  length_le : decoded.length≤blockSize+1

variable {build : Build} {codecs : Codecs}

/-- A block passes if and only if the destination goes on with its bytes. -/
theorem checkBlock_iff {block : Kind×List UInt8} {decoded : List UInt8}
    (h : Decodes build codecs block decoded) (s : BufRead) (rest : List UInt8) :
    (∃ t, checkBlock build codecs block.1 block.2 s=.ok () t ∧ t.rest=rest) ↔
      s.rest=decoded++rest := by
  have hfits : ¬blockSize+1<decoded.length := Nat.not_lt.mpr h.length_le
  unfold checkBlock
  rw [h.decode]
  dsimp only
  rw [if_neg hfits]
  rcases BufRead.readExact_cases decoded.length s with ⟨henough,after,hafter,hread⟩|⟨hshort,after,hread⟩
  · rw [hread]
    dsimp only
    by_cases hsame : decoded=s.rest.take decoded.length
    · rw [if_neg (not_not.mpr hsame)]
      constructor
      · rintro ⟨t,ht,rfl⟩
        cases ht
        rw [hafter]
        exact (List.take_append_drop decoded.length s.rest).symm.trans (congrArg (·++_) hsame.symm)
      · intro hs
        refine ⟨after,rfl,?_⟩
        rw [hafter,hs,List.drop_left']
        rfl
    · rw [if_pos hsame]
      constructor
      · rintro ⟨t,ht,_⟩
        cases ht
      · intro hs
        refine (hsame ?_).elim
        rw [hs,List.take_left']
        rfl
  · rw [hread]
    constructor
    · rintro ⟨t,ht,_⟩
      cases ht
    · intro hs
      rw [hs,List.length_append] at hshort
      omega

/-- Blocks pass if and only if the destination goes on with all their bytes. -/
theorem deliver_check_iff {items : List (Kind×List UInt8)} {decoded : List (List UInt8)}
    (h : List.Forall₂ (Decodes build codecs) items decoded) (s : BufRead) (rest : List UInt8) :
    (∃ t, deliver (fun item => checkBlock build codecs item.1 item.2) (.ok ()) items s=.ok () t ∧
      t.rest=rest) ↔ s.rest=decoded.flatten++rest := by
  induction h generalizing s with
  | nil =>
    constructor
    · rintro ⟨t,ht,rfl⟩
      cases ht
      rfl
    · exact fun hs => ⟨s,rfl,hs⟩
  | @cons item out items outs hblock _ ih =>
    rw [List.flatten_cons,List.append_assoc]
    simp only [deliver]
    constructor
    · rintro ⟨t,ht,hrest⟩
      cases hcheck : checkBlock build codecs item.1 item.2 s with
      | error e mid => rw [hcheck] at ht; cases ht
      | ok u mid =>
        rw [hcheck] at ht
        rw [(checkBlock_iff hblock s mid.rest).mp ⟨mid,hcheck,rfl⟩,(ih mid).mp ⟨t,ht,hrest⟩]
    · intro hs
      obtain ⟨mid,hcheck,hmid⟩ := (checkBlock_iff hblock s _).mpr hs
      rw [hcheck]
      exact (ih mid).mpr hmid

/-- `verify_manually` returns if and only if the destination is the decoded
blocks of the original, provided that all of them can be read and decoded. -/
theorem verifyManually_iff {value : Except Fault (Option (List UInt8))} {opened : Except Fault Cursor}
    {decoded : List (List UInt8)}
    (hread : (withCompressedBlocks build value opened).ending=.ok ())
    (hdecode : List.Forall₂ (Decodes build codecs) (withCompressedBlocks build value opened).items
      decoded) (destination : BufRead) :
    (∃ t, verifyManually build codecs value opened destination=.ok () t) ↔
      destination.rest=decoded.flatten := by
  have hf : ∀ kind, blockCheck build codecs kind=.ok (checkBlock build codecs kind) := by
    intro kind
    cases kind <;> rfl
  have hblocks := deliver_check_iff hdecode destination []
  rw [List.append_nil] at hblocks
  rw [←hblocks]
  unfold verifyManually
  rw [withCompressedBlocksDo_eq build value opened hf,hread]
  cases hrun : deliver (fun item => checkBlock build codecs item.1 item.2) (.ok ())
      (withCompressedBlocks build value opened).items destination with
  | error e t => exact ⟨nofun,nofun⟩
  | ok u t =>
    dsimp only
    by_cases hend : t.fillBuf.1=[]
    · rw [if_neg (not_not.mpr hend)]
      exact ⟨fun _ => ⟨t,rfl,t.fillBuf_eq_nil.mp hend⟩,fun _ => ⟨_,rfl⟩⟩
    · rw [if_pos hend]
      refine ⟨nofun,?_⟩
      rintro ⟨last,hlast,hnil⟩
      cases hlast
      exact (hend (t.fillBuf_eq_nil.mpr hnil)).elim

/-- Verification is sound and complete. Two streams pass exactly when they are
equal; otherwise the error tells bytes that differ from a stream that ends
inside the other. In the manual mode a destination passes exactly when it is
what the blocks of the original decode to. -/
theorem verification_exact :
    (∀ lhs rhs : BufRead,
      ((∃ t, ensureIdenticalFiles lhs rhs=.ok () t) ↔ lhs.rest=rhs.rest) ∧
      ((∃ t, ensureIdenticalFiles lhs rhs=.error (.error notIdenticalError) t) ↔
        Differ lhs.rest rhs.rest) ∧
      ((∃ t, ensureIdenticalFiles lhs rhs=.error (.error notSameSizeError) t) ↔
        EndsInside lhs.rest rhs.rest)) ∧
    ∀ (build : Build) (codecs : Codecs) (value : Except Fault (Option (List UInt8)))
      (opened : Except Fault Cursor) (decoded : List (List UInt8)) (destination : BufRead),
      (withCompressedBlocks build value opened).ending=.ok () →
      List.Forall₂ (Decodes build codecs) (withCompressedBlocks build value opened).items decoded →
      ((∃ t, verifyManually build codecs value opened destination=.ok () t) ↔
        destination.rest=decoded.flatten) :=
  ⟨ensureIdenticalFiles_iff,fun _ _ _ _ _ destination hread hdecode =>
    verifyManually_iff hread hdecode destination⟩

/-- Decoders that are not asked: both blocks are stored as they are. -/
def storedCodecs : Codecs :=
  ⟨.vendor,fun _ _ _ => [],fun _ _ _ => [],fun _ _ => [],fun _ _ => [],fun _ _ _ => none,
    fun _ _ => .ok []⟩

/-- The attribute of a file of two blocks. -/
def twoBlockValue : List UInt8 := Value.toBytes ⟨.new .lzvn .resourceFork,65537,[]⟩

/-- Its fork: three offsets and two stored blocks. -/
def twoBlockFork : Cursor := ⟨[12,0,0,0,15,0,0,0,17,0,0,0,6,1,2,6,3],0⟩

/-- Two streams that differ in their second window, and a destination in two windows that is what the
two blocks of the original are. -/
theorem verification_exact_two_blocks :
    (∃ t, ensureIdenticalFiles ⟨[1,2,3],[2]⟩ ⟨[1,2,4],[1,1]⟩=.error (.error notIdenticalError) t) ∧
    ∃ t, verifyManually .debug storedCodecs (.ok (some twoBlockValue)) (.ok twoBlockFork)
      ⟨[1,2,3],[2]⟩=.ok () t :=
  ⟨(verification_exact.1 ⟨[1,2,3],[2]⟩ ⟨[1,2,4],[1,1]⟩).2.1.mpr ⟨2,3,4,rfl,rfl,by decide⟩,
    (verification_exact.2 .debug storedCodecs (.ok (some twoBlockValue)) (.ok twoBlockFork) [[1,2],[3]]
      ⟨[1,2,3],[2]⟩ rfl (.cons ⟨rfl,by decide⟩ (.cons ⟨rfl,by decide⟩ .nil))).mpr rfl⟩

end Manual

end Applesauce.Verification
