import Applesauce.ScratchPayload
import Applesauce.ScratchBudget

/-!
# Staged output fits its reservation

The reservation is computed from the number of blocks before anything is
compressed. Staging writes through a buffer into a payload limited to that
reservation less the largest attribute. Every write of the format ends
inside that limit, so the payload never refuses one, on any path; what is
kept in the end passes the assertion of the shrink. Decoded chunks are
counted against the file size before they are written.
-/

namespace Applesauce.StagedOutput

open RustIo SparseFile SeekableFile BufferedSink BoundedSink IoTriple DecmpfsValue BlockTables
open ByteWords DecmpfsWriter ScratchPayload LawfulRawSink LawfulWriteSeek

/-- `COMPRESSED_BLOCK_CAPACITY`. -/
def compressedBlockCapacity : ℕ := blockSize+1024

/-- `Scratch::compressed_reservation_size`. -/
def compressedReservationSize (kind : Kind) (fileSize : ℕ) : ℕ :=
  numBlocks fileSize*compressedBlockCapacity+headerSize kind (numBlocks fileSize)+
    Zlib.trailer.length+maxXattrSize

/-- `NotCompressibleEnough`, with the percentage as it is printed. -/
def notCompressibleEnough (percent : String) : IoError :=
  .new .other ("did not compress to at least "++percent++"% of original size")

/-- How a queue ended after its items: `try_for_each` returns this. -/
def queueEnd {σ : Type} : Except Fault Unit→Io σ Unit
  | .ok _ => pure ()
  | .error e => throw e

section Compressed
variable {σ : Type} [WriteSeek σ]

/-- `write_blocks`: the items of the queue in order, then its end. -/
def writeBlocks (build : Build) (maxCompressedSize : ℕ) (percent : String)
    (received : Except Fault Unit) : ℕ→List (List UInt8)→Io (Writer σ) Unit
  | _,[] => queueEnd received
  | total,block::blocks => do
    ensure (total+block.length≤ maxCompressedSize) (.error (notCompressibleEnough percent))
    addBlock build block
    writeBlocks build maxCompressedSize percent received (total+block.length) blocks

/-- Blocks that were written under the threshold were added one by one. -/
theorem writeBlocks_ok {build : Build} {maxCompressedSize total : ℕ} {percent : String}
    {received : Except Fault Unit} {blocks : List (List UInt8)} {w t : Writer σ} {u : Unit}
    (h : writeBlocks build maxCompressedSize percent received total blocks w=.ok u t) :
    addBlocks build blocks w=.ok u t ∧ received=.ok () := by
  induction blocks generalizing total w with
  | nil =>
    cases received with
    | ok _ => exact ⟨h,rfl⟩
    | error e => cases h
  | cons block blocks ih =>
    simp only [writeBlocks,bind_ok_iff] at h
    obtain ⟨_,_,hthreshold,_,r,hadd,hrest⟩ := h
    obtain ⟨_,rfl⟩ := ensure_ok_iff.mp hthreshold
    obtain ⟨hblocks,hreceived⟩ := ih hrest
    exact ⟨bind_ok_iff.mpr ⟨_,r,hadd,hblocks⟩,hreceived⟩

end Compressed

/-- `StagedFile`, as far as its sizes go. -/
structure Staged where
  /-- The finished payload. -/
  payload : StagedPayload
  /-- The attribute value. -/
  decmpfsData : List UInt8
  /-- The reservation after the shrink. -/
  reservation : ℕ
  deriving DecidableEq,Repr

/-- The payload behind a writer that is done with it. -/
def payloadAfter (payload : Payload) : Option (BufWriter Payload)→Payload
  | some b => b.inner
  | none => payload

/-- The end of `stage_compressed_file`: finish the payload and shrink the
reservation to what is kept. The vector of the attribute is shrunk to fit in
memory, and its length is counted on disk; both are its length. -/
def finishStaged (metadata : Option ErrorKind) (reservation : ℕ) (decmpfsData : List UInt8)
    (payload : Payload) : EStateM.Result Fault (Option Payload) Staged :=
  match payload.finish metadata with
  | .error e => .error e (some payload)
  | .ok staged =>
    if staged.reservedBytes+decmpfsData.length≤reservation then
      .ok ⟨staged,decmpfsData,staged.reservedBytes+decmpfsData.length⟩ (some payload)
    else .error shrinkAssertion (some payload)

/-- `stage_compressed_file` from the creation of the writer on. -/
def stageBlocks (build : Build) (maxCompressedSize : ℕ) (percent : String)
    (received : Except Fault Unit) (blocks : List (List UInt8)) (metadata : Option ErrorKind)
    (reservation : ℕ) (payload : Payload) :
    Except Fault (Writer (BufWriter Payload))→EStateM.Result Fault (Option Payload) Staged
  | .error e => .error e (some payload)
  | .ok w =>
    match writeBlocks build maxCompressedSize percent received 0 blocks w with
    | .error e w => .error e (some (payloadAfter payload w.fork))
    | .ok _ w =>
      match finishDecmpfsData build w with
      | .error e fork => .error e (some (payloadAfter payload fork))
      | .ok decmpfsData fork =>
        finishStaged metadata reservation decmpfsData (payloadAfter payload fork)

/-- `stage_compressed_file`; the state is the payload as it was left. -/
def stageCompressedFile (build : Build) (kind : Kind) (fileSize : ℕ) (storage : ScratchPayload.Storage)
    (metadata : Option ErrorKind) (maxCompressedSize : ℕ) (percent : String)
    (received : Except Fault Unit) (reservation : ℕ) (blocks : List (List UInt8)) :
    EStateM.Result Fault (Option Payload) Staged :=
  match storage.payload (reservation-maxXattrSize) with
  | .error e => .error e none
  | .ok payload =>
    stageBlocks build maxCompressedSize percent received blocks metadata reservation payload
      (Writer.new kind fileSize (.ok (BufWriter.new payload)))

section Tables
variable {σ : Type} [WriteSeek σ] [LawfulWriteSeek σ] {bound : ℕ} {inv : σ→Prop}

/-- What every triple below ends in when it stops. -/
def Refused (inv : σ→Prop) (e : Fault) (t : σ) : Prop := inv t ∧ ¬OverReservation e

/-- A position assertion inside the bound. -/
theorem debugAssertPosition_bounded (h : Bounded σ bound OverReservation inv) {build : Build}
    {expected pos : ℕ} :
    Triple (At inv pos) (debugAssertPosition build expected) (fun _ t => At inv pos t)
      (Refused inv) := by
  cases build with
  | release => exact (Triple.pure ()).weaken (fun hs => hs) (fun ht => ht.2) (fun he => he)
  | debug =>
    refine h.streamPosition_at.bind (fun p => ?_)
    exact (Triple.ensure (fun hs => ⟨hs.2.1,by decide⟩)).weaken (fun hs => hs) (fun ht => ht.2.2)
      (fun he => he)

/-- The zlib table loop inside the bound. -/
theorem writeEntries_bounded (h : Bounded σ bound OverReservation inv) {offset pos : ℕ}
    {sizes : List ℕ} (hfit : pos+sizes.length*8≤bound) :
    Triple (At inv pos) (Zlib.writeEntries offset sizes) (fun _ t => inv t) (Refused inv) := by
  induction sizes generalizing offset pos with
  | nil => exact (Triple.pure ()).weaken (fun hs => hs) (fun ht => ht.2.1) (fun he => he)
  | cons size sizes ih =>
    rw [List.length_cons] at hfit
    have hlen : (BlockInfo.toBytes ⟨offset,size⟩).length=8 := BlockInfo.toBytes_length _
    refine (h.writeAll_at (by rw [hlen]; omega)).bind (fun _ => ?_)
    rw [hlen]
    refine (Triple.tryU32 (fun hs => ⟨hs.1,by decide⟩)).bind (fun next => ?_)
    exact Triple.assume (fun _ => ih (by omega))

/-- `Zlib::finish` inside the bound. -/
theorem zlib_finish_bounded (h : Bounded σ bound OverReservation inv) {build : Build}
    {sizes : List ℕ} {dataEnd : ℕ} (hlate : 0x104≤dataEnd)
    (hhead : Zlib.headerSize sizes.length≤bound) (hend : dataEnd+Zlib.trailerSize≤bound) :
    Triple (At inv dataEnd) (Zlib.finish build sizes) (fun _ t => inv t) (Refused inv) := by
  have hstart : Zlib.headerSize sizes.length=0x108+sizes.length*8 := by
    unfold Zlib.headerSize Zlib.blockTableStart BlockInfo.size
    omega
  unfold Zlib.finish
  refine (Triple.tryU32 (fun hs => ⟨hs.1,not_over_ofKind _⟩)).bind (fun count => ?_)
  refine Triple.assume (fun hcount => ?_)
  subst hcount
  refine h.streamPosition_at.bind (fun pos => Triple.assume (fun hpos => ?_))
  rw [hpos]
  refine (Triple.tryU32 (fun hs => ⟨hs.1,not_over_ofKind _⟩)).bind (fun last => ?_)
  refine Triple.assume (fun hlast => ?_)
  rw [hlast]
  refine (h.writeAll_at hend).bind (fun _ => ?_)
  refine (debugAssertPosition_bounded h).bind (fun _ => ?_)
  refine (h.rewind_at.weaken (fun hs => hs.1) (fun ht => ht) (fun he => he)).bind (fun _ => ?_)
  have hheader : ∀ {pre : σ→Prop}, Triple pre (Zlib.header build dataEnd)
      (fun head t => head.length=16 ∧ pre t) (Refused inv) := by
    intro pre
    refine (Triple.subU32 (by omega)).bind (fun relative => ?_)
    refine (Triple.pure _).weaken (fun hs => hs) (fun ht => ⟨?_,ht.2.2⟩) (fun he => he)
    rw [ht.1]
    exact Zlib.headerWords_length _ _
  refine hheader.bind (fun head => Triple.assume (fun hsixteen => ?_))
  refine (h.writeAll_at (by rw [hsixteen]; omega)).bind (fun _ => ?_)
  refine ((h.seek_at 0x100).weaken (fun hs => hs.1) (fun ht => ht) (fun he => he)).bind (fun _ => ?_)
  refine (Triple.subU32 hlate).bind (fun relative => Triple.assume (fun _ => ?_))
  refine (h.writeAll_at (by rw [beBytes_length]; omega)).bind (fun _ => ?_)
  refine (h.writeAll_at (by rw [beBytes_length,leBytes_length]; omega)).bind (fun _ => ?_)
  refine (Triple.tryU32 (fun hs => ⟨hs.1,by decide⟩)).bind (fun offset => ?_)
  refine Triple.assume (fun _ => ?_)
  refine (writeEntries_bounded h (by rw [beBytes_length,leBytes_length]; omega)).bind (fun _ => ?_)
  refine h.flush.bind (fun _ => ?_)
  have hassert : ∀ {pos : ℕ}, Triple (At inv pos)
      (debugAssertPosition build (Zlib.headerSize sizes.length)) (fun _ t => inv t)
      (Refused inv) :=
    (debugAssertPosition_bounded h).weaken (fun hs => hs) (fun ht => ht.1) (fun he => he)
  exact ⟨fun hs hx => hassert.ok ⟨hs,rfl⟩ hx,fun hs hx => hassert.error ⟨hs,rfl⟩ hx⟩

/-- The LZ table loop inside the bound. -/
theorem writeOffsets_bounded (h : Bounded σ bound OverReservation inv) {offset pos : ℕ}
    {sizes : List ℕ} (hfit : pos+Lz.headerSize sizes.length≤bound) :
    Triple (At inv pos) (Lz.writeOffsets offset sizes) (fun _ t => inv t) (Refused inv) := by
  unfold Lz.headerSize at hfit
  induction sizes generalizing offset pos with
  | nil =>
    refine (h.writeAll_at ?_).weaken (fun hs => hs) (fun ht => ht.1) (fun he => he)
    rw [leBytes_length]
    rw [List.length_nil] at hfit
    omega
  | cons size sizes ih =>
    rw [List.length_cons] at hfit
    refine (h.writeAll_at (by rw [leBytes_length]; omega)).bind (fun _ => ?_)
    rw [leBytes_length]
    refine (Triple.tryU32 (fun hs => ⟨hs.1,by decide⟩)).bind (fun next => ?_)
    exact Triple.assume (fun _ => ih (by omega))

/-- `Lz::finish` inside the bound. -/
theorem lz_finish_bounded (h : Bounded σ bound OverReservation inv) {build : Build}
    {sizes : List ℕ} {dataEnd : ℕ} (hhead : Lz.headerSize sizes.length≤bound) :
    Triple (At inv dataEnd) (Lz.finish build sizes) (fun _ t => inv t) (Refused inv) := by
  unfold Lz.finish
  refine (Triple.tryU32 (fun hs => ⟨hs.1,by decide⟩)).bind (fun count => ?_)
  refine Triple.assume (fun hcount => ?_)
  subst hcount
  refine (Triple.tryU32 (fun hs => ⟨hs.1,by decide⟩)).bind (fun offset => ?_)
  refine Triple.assume (fun _ => ?_)
  refine (h.rewind_at.weaken (fun hs => hs.1) (fun ht => ht) (fun he => he)).bind (fun _ => ?_)
  refine (writeOffsets_bounded h (by rw [Nat.zero_add]; exact hhead)).bind (fun _ => ?_)
  refine h.flush.bind (fun _ => ?_)
  have hassert : ∀ {pos : ℕ}, Triple (At inv pos)
      (debugAssertPosition build (Lz.headerSize sizes.length)) (fun _ t => inv t)
      (Refused inv) :=
    (debugAssertPosition_bounded h).weaken (fun hs => hs) (fun ht => ht.1) (fun he => he)
  exact ⟨fun hs hx => hassert.ok ⟨hs,rfl⟩ hx,fun hs hx => hassert.error ⟨hs,rfl⟩ hx⟩

/-- Finishing any format inside the bound. -/
theorem finish_bounded (h : Bounded σ bound OverReservation inv) {build : Build} {kind : Kind}
    {sizes : List ℕ} {dataEnd : ℕ} (hlate : headerSize kind sizes.length≤dataEnd)
    (hend : dataEnd+trailerSize kind≤bound) :
    Triple (At inv dataEnd) (finish build kind sizes) (fun _ t => inv t) (Refused inv) := by
  cases kind with
  | zlib =>
    have hstart : 0x108≤Zlib.headerSize sizes.length := by
      unfold Zlib.headerSize Zlib.blockTableStart
      omega
    change Zlib.headerSize sizes.length≤dataEnd at hlate
    change dataEnd+Zlib.trailerSize≤bound at hend
    exact zlib_finish_bounded h (by omega) (by omega) hend
  | lzvn => exact lz_finish_bounded h (hlate.trans hend)
  | lzfse => exact lz_finish_bounded h (hlate.trans hend)

end Tables

section Writers
variable {σ : Type} [WriteSeek σ] [LawfulWriteSeek σ] {bound : ℕ} {inv : σ→Prop}

/-- The sink a writer holds, or can still open, keeps the invariant. -/
def Keeps (inv : σ→Prop) (w : Writer σ) : Prop :=
  match w.state with
  | .empty dropped => ∀ fork, dropped=some fork → inv fork
  | .singleBlock opener _ => ∃ fork, opener=.ok fork ∧ inv fork
  | .multipleBlocks _ fork => inv fork

/-- The sink that a failed call left behind keeps the invariant. -/
def Stopped (inv : σ→Prop) (e : Fault) (fork : Option σ) : Prop :=
  (∀ last, fork=some last → inv last) ∧ ¬OverReservation e

/-- A new writer whose table fits. -/
theorem new_bounded (h : Bounded σ bound OverReservation inv) {kind : Kind} {n : ℕ} {fork : σ}
    (hfork : inv fork) :
    (∀ {w}, Writer.new kind n (.ok fork)=.ok w → Keeps inv w) ∧
      ∀ {e}, Writer.new kind n (.ok fork)=.error e → ¬OverReservation e := by
  unfold Writer.new
  by_cases hn : 1<numBlocks n
  · rw [if_pos hn]
    dsimp only
    cases hseek : WriteSeek.seek (.start (headerSize kind (numBlocks n))) fork with
    | ok pos t =>
      refine ⟨fun hw => ?_,nofun⟩
      cases hw
      exact ((h.seek_at _).ok hfork hseek).1
    | error e t =>
      refine ⟨nofun,fun he => ?_⟩
      cases he
      exact ((h.seek_at _).error hfork hseek).2
  · rw [if_neg hn]
    refine ⟨fun hw => ?_,nofun⟩
    cases hw
    exact ⟨fork,rfl,hfork⟩

/-- Moving a single block to the fork inside the bound. -/
theorem writeSingleBlockAsRfork_bounded (h : Bounded σ bound OverReservation inv) {build : Build}
    {w : Writer σ} {block : List UInt8} {fork : σ} (hstate : w.state=.singleBlock (.ok fork) [])
    (hfork : inv fork)
    (hfit : headerSize w.kind (numBlocks w.uncompressedSize)+block.length≤bound) :
    (∀ {t u}, writeSingleBlockAsRfork build block w=.ok u t → Keeps inv t) ∧
      ∀ {e t}, writeSingleBlockAsRfork build block w=.error e t → Stopped inv e t.fork := by
  have hassert := @debugAssert_of Unit build (([] : List UInt8)=[]) inferInstance
    "assertion failed: block.is_empty()" () rfl
  unfold writeSingleBlockAsRfork
  rw [hstate]
  dsimp only
  rw [hassert]
  dsimp only
  cases hseek : WriteSeek.seek (.start (headerSize w.kind (numBlocks w.uncompressedSize))) fork with
  | error e t =>
    have ht := (h.seek_at _).error hfork hseek
    refine ⟨nofun,fun he => ?_⟩
    cases he
    exact ⟨fun last hlast => Option.some.inj hlast ▸ ht.1,ht.2⟩
  | ok pos t =>
    have ht := (h.seek_at _).ok hfork hseek
    dsimp only
    cases hwrite : WriteSeek.writeAll block t with
    | error e r =>
      have hr := (h.writeAll_at hfit).error ht hwrite
      refine ⟨nofun,fun he => ?_⟩
      cases he
      exact ⟨fun last hlast => Option.some.inj hlast ▸ hr.1,hr.2⟩
    | ok _ r =>
      have hr := (h.writeAll_at hfit).ok ht hwrite
      refine ⟨fun hw => ?_,nofun⟩
      cases hw
      exact hr.1

omit [WriteSeek σ] [LawfulWriteSeek σ] in
/-- A writer that stops without touching its sink. -/
theorem Keeps.stopped {w : Writer σ} {e : Fault} (hw : Keeps inv w) (he : ¬OverReservation e) :
    Stopped inv e w.fork := by
  refine ⟨fun last hlast => ?_,he⟩
  unfold Keeps at hw
  unfold Writer.fork at hlast
  cases hstate : w.state with
  | empty dropped =>
    rw [hstate] at hw hlast
    exact hw last hlast
  | singleBlock opener block => rw [hstate] at hlast; cases hlast
  | multipleBlocks blockSizes fork =>
    rw [hstate] at hw hlast
    cases hlast
    exact hw

/-- One more block inside the bound. -/
theorem addBlock_bounded (h : Bounded σ bound OverReservation inv) {build : Build} {w : Writer σ}
    {blocks : List (List UInt8)} {block : List UInt8} (hw : Holds w blocks) (hk : Keeps inv w)
    (hcount : blocks.length<numBlocks w.uncompressedSize)
    (hfit : headerSize w.kind (numBlocks w.uncompressedSize)+blocks.flatten.length+block.length≤
      bound) :
    (∀ {t u}, addBlock build block w=.ok u t → Keeps inv t) ∧
      ∀ {e t}, addBlock build block w=.error e t → Stopped inv e t.fork := by
  have hstop : ∀ {e : Fault}, ¬OverReservation e → Stopped inv e w.fork := fun he => hk.stopped he
  unfold addBlock
  by_cases hlen : block.length≤u32Max
  · rw [if_pos hlen]
    unfold Holds at hw
    unfold Keeps at hk
    cases hstate : w.state with
    | empty dropped => rw [hstate] at hw; exact hw.elim
    | singleBlock opener kept =>
      rw [hstate] at hw hk
      obtain ⟨hone,hkept,hsmall,hopen⟩ := hw
      obtain ⟨fork,rfl,hfork⟩ := hk
      have hnil : blocks=[] := List.length_eq_zero_iff.mp (by omega)
      subst hnil
      rw [List.flatten_nil] at hkept
      subst hkept
      dsimp only
      rw [if_neg (not_not.mpr rfl)]
      by_cases hbig : maxXattrDataSize<block.length
      · rw [if_pos hbig]
        refine writeSingleBlockAsRfork_bounded h hstate hfork ?_
        rw [List.flatten_nil,List.length_nil,Nat.add_zero] at hfit
        exact hfit
      · rw [if_neg hbig]
        refine ⟨fun ht => ?_,nofun⟩
        cases ht
        exact ⟨fork,rfl,hfork⟩
    | multipleBlocks blockSizes fork =>
      rw [hstate] at hw hk
      obtain ⟨_,_,hview⟩ := hw
      dsimp only
      by_cases hmany : u32Max≤blockSizes.length+1
      · rw [if_pos hmany]
        refine ⟨nofun,fun he => ?_⟩
        cases he
        exact hstop (by decide)
      · rw [if_neg hmany]
        have hat : At inv (headerSize w.kind (numBlocks w.uncompressedSize)+blocks.flatten.length)
            fork := ⟨hk,by rw [hview]; rfl⟩
        cases hwrite : WriteSeek.writeAll block fork with
        | error e t =>
          have ht := (h.writeAll_at hfit).error hat hwrite
          refine ⟨nofun,fun he => ?_⟩
          cases he
          exact ⟨fun last hlast => Option.some.inj hlast ▸ ht.1,ht.2⟩
        | ok _ t =>
          have ht := (h.writeAll_at hfit).ok hat hwrite
          refine ⟨fun hw => ?_,nofun⟩
          cases hw
          exact ht.1
  · rw [if_neg hlen]
    refine ⟨nofun,fun he => ?_⟩
    cases he
    exact hstop (by decide)

/-- The text of a threshold skip is no refusal. -/
theorem not_over_threshold (percent : String) :
    ¬OverReservation (.error (notCompressibleEnough percent)) := by
  rintro (h|h)
  · have htext := Option.some.inj (congrArg IoError.message (Fault.error.inj h))
    have hhead := congrArg (fun text => text.toList.head?) htext
    simp at hhead
  · cases h

/-- All blocks inside the bound, under any threshold and with any end of the queue. -/
theorem writeBlocks_bounded (h : Bounded σ bound OverReservation inv) {build : Build}
    {maxCompressedSize total : ℕ} {percent : String} {received : Except Fault Unit}
    {w : Writer σ} {front blocks : List (List UInt8)} (hw : Holds w front) (hk : Keeps inv w)
    (hcount : front.length+blocks.length≤numBlocks w.uncompressedSize)
    (hfit : headerSize w.kind (numBlocks w.uncompressedSize)+(front++blocks).flatten.length≤bound)
    (hreceived : ∀ {e}, received=.error e → ¬OverReservation e) :
    (∀ {t u}, writeBlocks build maxCompressedSize percent received total blocks w=.ok u t →
        Keeps inv t ∧ Holds t (front++blocks) ∧ t.kind=w.kind ∧
          t.uncompressedSize=w.uncompressedSize) ∧
      ∀ {e t}, writeBlocks build maxCompressedSize percent received total blocks w=.error e t →
        Stopped inv e t.fork := by
  induction blocks generalizing w front total with
  | nil =>
    rw [List.append_nil]
    cases received with
    | ok _ =>
      refine ⟨fun ht => ?_,nofun⟩
      cases ht
      exact ⟨hk,hw,rfl,rfl⟩
    | error e =>
      refine ⟨nofun,fun ht => ?_⟩
      cases ht
      exact hk.stopped (hreceived rfl)
  | cons block blocks ih =>
    have happend : front++block::blocks=(front++[block])++blocks := by
      rw [List.append_assoc]
      rfl
    have hlen : (front++[block]).length=front.length+1 := by
      rw [List.length_append,List.length_singleton]
    rw [List.length_cons] at hcount
    have hsplit : (front++block::blocks).flatten.length=
        front.flatten.length+block.length+blocks.flatten.length := by
      simp only [List.flatten_append,List.flatten_cons,List.length_append,Nat.add_assoc]
    have hadd := @addBlock_bounded σ _ _ bound inv h build w front block hw hk (by omega) (by omega)
    have hnext : ∀ {u : Unit} {r : Writer σ}, addBlock build block w=.ok u r → Keeps inv r ∧
        Holds r (front++[block]) ∧ r.kind=w.kind ∧ r.uncompressedSize=w.uncompressedSize := by
      intro u r hr
      have hfirst : w.isSingle=true → front=[] := fun hsingle =>
        List.length_eq_zero_iff.mp (by have := hw.room hcount hsingle; omega)
      obtain ⟨hkind,hsize,hholds⟩ := addBlock_holds hw hfirst hr
      exact ⟨hadd.1 hr,hholds,hkind,hsize⟩
    refine ⟨fun {t u} ht => ?_,fun {e t} ht => ?_⟩
    · simp only [writeBlocks,bind_ok_iff] at ht
      obtain ⟨_,_,hthreshold,_,r,hr,hrest⟩ := ht
      obtain ⟨_,rfl⟩ := ensure_ok_iff.mp hthreshold
      obtain ⟨hkr,hholds,hkind,hsize⟩ := hnext hr
      have hlast := (ih hholds hkr (by rw [hlen,hsize]; omega)
        (by rw [hkind,hsize,←happend]; exact hfit)).1 hrest
      rw [happend,←hkind,←hsize]
      exact hlast
    · simp only [writeBlocks] at ht
      rcases bind_error_iff.mp ht with hthreshold|⟨_,r,hthreshold,hafter⟩
      · obtain ⟨_,rfl,rfl⟩ := ensure_error_iff.mp hthreshold
        exact hk.stopped (not_over_threshold percent)
      · obtain ⟨_,rfl⟩ := ensure_ok_iff.mp hthreshold
        rcases bind_error_iff.mp hafter with hstop|⟨_,r,hr,hrest⟩
        · exact hadd.2 hstop
        · obtain ⟨hkr,hholds,hkind,hsize⟩ := hnext hr
          exact (ih hholds hkr (by rw [hlen,hsize]; omega)
            (by rw [hkind,hsize,←happend]; exact hfit)).2 hrest

/-- Finishing inside the bound; the attribute is never larger than its maximum. -/
theorem finishDecmpfsData_bounded (h : Bounded σ bound OverReservation inv) {build : Build}
    {w : Writer σ} {blocks : List (List UInt8)} (hw : Holds w blocks) (hk : Keeps inv w)
    (hfit : headerSize w.kind (numBlocks w.uncompressedSize)+blocks.flatten.length+
      trailerSize w.kind≤bound) :
    (∀ {value fork}, finishDecmpfsData build w=.ok value fork →
        value.length≤ maxXattrSize ∧ ∀ last, fork=some last → inv last) ∧
      ∀ {e fork}, finishDecmpfsData build w=.error e fork → Stopped inv e fork := by
  unfold finishDecmpfsData
  unfold Holds at hw
  unfold Keeps at hk
  cases hstate : w.state with
  | empty dropped => rw [hstate] at hw; exact hw.elim
  | singleBlock opener block =>
    rw [hstate] at hw
    obtain ⟨_,_,hsmall,_⟩ := hw
    dsimp only
    cases hassert : debugAssert build (block≠[] ∨ w.uncompressedSize=0)
        "assertion failed: !block.is_empty() || self.uncompressed_size == 0" () with
    | error e t =>
      refine ⟨(by simp),fun he => ?_⟩
      cases he
      refine ⟨(by simp),?_⟩
      cases build with
      | debug =>
        obtain ⟨_,rfl,_⟩ := ensure_error_iff.mp hassert
        decide
      | release => cases hassert
    | ok _ _ =>
      refine ⟨fun hv => ?_,(by simp)⟩
      cases hv
      refine ⟨?_,(by simp)⟩
      rw [Value.toBytes_length,Value.len]
      dsimp only
      unfold maxXattrDataSize maxXattrSize headerLen at hsmall
      unfold maxXattrSize headerLen
      omega
  | multipleBlocks blockSizes fork =>
    rw [hstate] at hw hk
    obtain ⟨_,hsizes,hview⟩ := hw
    dsimp only
    by_cases hall : blockSizes.length=numBlocks w.uncompressedSize
    · rw [if_pos hall]
      rw [←hall] at hview hfit
      have hat : At inv (headerSize w.kind blockSizes.length+blocks.flatten.length) fork :=
        ⟨hk,by rw [hview]; rfl⟩
      have hfinish := @finish_bounded σ _ _ bound inv h build w.kind blockSizes _
        (Nat.le_add_right _ _) hfit
      cases hf : finish build w.kind blockSizes fork with
      | error e t =>
        have ht := hfinish.error hat hf
        refine ⟨(by simp),fun he => ?_⟩
        cases he
        exact ⟨fun last hlast => Option.some.inj hlast ▸ ht.1,ht.2⟩
      | ok _ t =>
        have ht := hfinish.ok hat hf
        refine ⟨fun hv => ?_,(by simp)⟩
        cases hv
        refine ⟨?_,fun last hlast => Option.some.inj hlast ▸ ht⟩
        rw [Value.toBytes_length]
        change headerLen+0≤ maxXattrSize
        decide
    · rw [if_neg hall]
      refine ⟨(by simp),fun he => ?_⟩
      cases he
      exact ⟨fun last hlast => Option.some.inj hlast ▸ hk,by decide⟩

end Writers

section Staging

/-- What staging promises for its result: the payload that is left never took
more than the reservation without the attribute; what is kept fits the
reservation; and no failure is a refusal for want of room. -/
def StagingFits (reservation : ℕ) : EStateM.Result Fault (Option Payload) Staged→Prop
  | .ok staged left =>
    staged.payload.reservedBytes+staged.decmpfsData.length≤reservation ∧
      ∀ payload, left=some payload → payload.reservedBytes+maxXattrSize≤reservation
  | .error e left =>
    ¬OverReservation e ∧
      ∀ payload, left=some payload → payload.reservedBytes+maxXattrSize≤reservation

/-- Blocks within the compressor's buffer add up to at most that many buffers. -/
theorem flatten_length_le {blocks : List (List UInt8)} {capacity : ℕ}
    (h : ∀ block∈blocks, block.length≤capacity) :
    blocks.flatten.length≤blocks.length*capacity := by
  induction blocks with
  | nil => exact Nat.zero_le _
  | cons block blocks ih =>
    have hhead := h block List.mem_cons_self
    have htail := ih (fun b hb => h b (List.mem_cons_of_mem _ hb))
    rw [List.flatten_cons,List.length_append,List.length_cons,Nat.succ_mul]
    omega

/-- The trailer of every format is covered by that of zlib. -/
theorem trailerSize_le (kind : Kind) : trailerSize kind≤Zlib.trailer.length := by
  cases kind with
  | zlib => exact Nat.le_refl _
  | lzvn => exact Nat.zero_le _
  | lzfse => exact Nat.zero_le _

/-- The end of staging keeps its promise when the payload and the attribute do. -/
theorem finishStaged_fits {metadata : Option ErrorKind} {bound : ℕ} {decmpfsData : List UInt8}
    {payload : Payload} (hpayload : payload.Within bound) (hdata : decmpfsData.length≤ maxXattrSize) :
    StagingFits (bound+maxXattrSize)
      (finishStaged metadata (bound+maxXattrSize) decmpfsData payload) := by
  have hleft : ∀ p, some payload=some p → p.reservedBytes+maxXattrSize≤bound+maxXattrSize := by
    intro p hp
    obtain rfl := Option.some.inj hp
    exact Nat.add_le_add_right (Payload.reservedBytes_le hpayload) _
  unfold finishStaged
  cases hfinish : payload.finish metadata with
  | error e => exact ⟨Payload.finish_error hfinish,hleft⟩
  | ok staged =>
    obtain ⟨_,_,hreserved⟩ := Payload.finish_ok hfinish
    have hkeep : staged.reservedBytes+decmpfsData.length≤bound+maxXattrSize := by
      rw [hreserved]
      exact Nat.add_le_add hpayload.2 hdata
    dsimp only
    rw [if_pos hkeep]
    exact ⟨hkeep,hleft⟩

/-- An opener of an empty payload opens an empty sink. -/
theorem opens_empty {payload : Payload} (h : payload.contents=.empty) :
    ∀ fork, (.ok (BufWriter.new payload) : Except Fault (BufWriter Payload))=.ok fork →
      view fork=.empty := by
  intro fork hf
  cases hf
  exact h

/-- The end of a stopped staging keeps its promise when the payload does. -/
theorem stopped_fits {bound : ℕ} {e : Fault} {payload : Payload} (he : ¬OverReservation e)
    (h : payload.Within bound) : StagingFits (bound+maxXattrSize) (.error e (some payload)) := by
  refine ⟨he,fun p hp => ?_⟩
  obtain rfl := Option.some.inj hp
  exact Nat.add_le_add_right (Payload.reservedBytes_le h) _

/-- The payload behind a writer is within its bound. -/
theorem payloadAfter_within {bound : ℕ} {payload : Payload} {fork : Option (BufWriter Payload)}
    (h : payload.Within bound)
    (hfork : ∀ last, fork=some last → BufferFits bound (Payload.Within bound) last) :
    (payloadAfter payload fork).Within bound := by
  cases fork with
  | none => exact h
  | some b => exact (hfork b rfl).1

/-- Staging into an empty payload keeps its promise, whatever the creation of
the writer returned. -/
theorem stageBlocks_fits {build : Build} {kind : Kind} {n bound : ℕ} {metadata : Option ErrorKind}
    {maxCompressedSize : ℕ} {percent : String} {received : Except Fault Unit}
    {blocks : List (List UInt8)} {payload : Payload}
    {created : Except Fault (Writer (BufWriter Payload))} (hempty : payload.contents=.empty)
    (hwithin : payload.Within bound) (hcount : blocks.length≤numBlocks n)
    (hroom : headerSize kind (numBlocks n)+blocks.flatten.length+trailerSize kind≤bound)
    (hreceived : ∀ {e}, received=.error e → ¬OverReservation e)
    (hcreated : Writer.new kind n (.ok (BufWriter.new payload))=created) :
    StagingFits (bound+maxXattrSize) (stageBlocks build maxCompressedSize percent received blocks
      metadata (bound+maxXattrSize) payload created) := by
  have hsink : Bounded (BufWriter Payload) bound OverReservation
      (BufferFits bound (Payload.Within bound)) :=
    (Payload.bounded bound).buffered (by decide) (by decide) (by decide)
  have hfork : BufferFits bound (Payload.Within bound) (BufWriter.new payload) :=
    ⟨hwithin,Or.inl rfl⟩
  have hnew := @new_bounded _ _ _ bound _ hsink kind n _ hfork
  cases created with
  | error e => exact stopped_fits (hnew.2 hcreated) hwithin
  | ok w =>
    obtain ⟨hkind,hn,hholds⟩ := new_holds (opens_empty hempty) hcreated
    unfold stageBlocks
    have hwrite := @writeBlocks_bounded _ _ _ bound _ hsink build maxCompressedSize 0 percent
      received w [] blocks hholds (hnew.1 hcreated)
      (by rw [List.length_nil,Nat.zero_add,hn]; exact hcount)
      (by rw [hkind,hn,List.nil_append]; omega) hreceived
    dsimp only
    cases hw : writeBlocks build maxCompressedSize percent received 0 blocks w with
    | error e t =>
      have ht := hwrite.2 hw
      exact stopped_fits ht.2 (payloadAfter_within hwithin ht.1)
    | ok _ t =>
      obtain ⟨hkeeps,ht,htk,htn⟩ := hwrite.1 hw
      rw [List.nil_append] at ht
      have hdone := @finishDecmpfsData_bounded _ _ _ bound _ hsink build t blocks ht hkeeps
        (by rw [htk,htn,hkind,hn]; exact hroom)
      dsimp only
      cases hf : finishDecmpfsData build t with
      | error e fork =>
        have hstop := hdone.2 hf
        exact stopped_fits hstop.2 (payloadAfter_within hwithin hstop.1)
      | ok value fork =>
        obtain ⟨hvalue,hlast⟩ := hdone.1 hf
        exact finishStaged_fits (payloadAfter_within hwithin hlast) hvalue

/-- Staging any delivered blocks keeps its promise. -/
theorem stageCompressedFile_fits {build : Build} {kind : Kind} {n : ℕ}
    {storage : ScratchPayload.Storage} {metadata : Option ErrorKind} {maxCompressedSize : ℕ}
    {percent : String} {received : Except Fault Unit} {blocks : List (List UInt8)}
    (hcount : blocks.length≤numBlocks n)
    (hblocks : ∀ block∈blocks, block.length≤compressedBlockCapacity)
    (hreceived : ∀ {e}, received=.error e → ¬OverReservation e) :
    StagingFits (compressedReservationSize kind n) (stageCompressedFile build kind n storage metadata
      maxCompressedSize percent received (compressedReservationSize kind n) blocks) := by
  let bound := numBlocks n*compressedBlockCapacity+headerSize kind (numBlocks n)+
    Zlib.trailer.length
  have hreservation : compressedReservationSize kind n=bound+maxXattrSize := rfl
  have hlimit : compressedReservationSize kind n-maxXattrSize=bound := Nat.add_sub_cancel _ _
  have hflat : blocks.flatten.length≤numBlocks n*compressedBlockCapacity :=
    (flatten_length_le hblocks).trans (Nat.mul_le_mul_right _ hcount)
  have htrailer := trailerSize_le kind
  unfold stageCompressedFile
  rw [hlimit,hreservation]
  cases hpayload : storage.payload bound with
  | error e => exact ⟨ScratchPayload.Storage.payload_error hpayload,nofun⟩
  | ok payload =>
    obtain ⟨hempty,hhas⟩ := ScratchPayload.Storage.payload_ok hpayload
    have hwithin : payload.Within bound := ⟨hhas,by rw [hempty]; exact Nat.zero_le _⟩
    exact stageBlocks_fits hempty hwithin hcount (by omega) hreceived rfl

end Staging

section Decoded
variable {σ : Type} [RawSink σ]

/-- The refusal of decoded data past the end of the file. -/
def tooLongError : IoError := .new .other "decompressed data exceeds expected file size"

/-- The refusal of decoded data that ends early. -/
def tooShortError : IoError := .new .other "decompressed data is shorter than expected file size"

/-- `write_uncompressed_blocks`: a chunk is counted before it is written. -/
def writeUncompressedBlocks (received : Except Fault Unit) : ℕ→List (List UInt8)→Io σ Unit
  | remaining,[] => do
    queueEnd received
    ensure (remaining=0) (.error tooShortError)
    RawSink.flush
  | remaining,chunk::chunks => do
    ensure (chunk.length≤remaining) (.error tooLongError)
    BufferedSink.writeAll chunk
    writeUncompressedBlocks received (remaining-chunk.length) chunks

/-- The chunks in front of the first that is too long for what remains. -/
def fitting : ℕ→List (List UInt8)→List (List UInt8)
  | _,[] => []
  | remaining,chunk::chunks =>
    if chunk.length≤remaining then chunk::fitting (remaining-chunk.length) chunks else []

/-- The fitting chunks never exceed what remains. -/
theorem fitting_length_le (remaining : ℕ) (chunks : List (List UInt8)) :
    (fitting remaining chunks).flatten.length≤remaining := by
  induction chunks generalizing remaining with
  | nil => exact Nat.zero_le _
  | cons chunk chunks ih =>
    unfold fitting
    by_cases hfit : chunk.length≤remaining
    · have hrest := ih (remaining-chunk.length)
      rw [if_pos hfit,List.flatten_cons,List.length_append]
      omega
    · rw [if_neg hfit]
      exact Nat.zero_le _

variable [LawfulRawSink σ]

/-- What writing decoded chunks promises: it returns only when they total the
file size, and it never writes beyond the chunks that fit. -/
def DecodedFits (origLen : ℕ) (chunks : List (List UInt8)) (start : Cursor) :
    EStateM.Result Fault σ Unit→Prop
  | .ok _ t => chunks.flatten.length=origLen ∧ file t=start.write chunks.flatten
  | .error _ t => ∃ n, n≤(fitting origLen chunks).flatten.length ∧
      file t=start.write ((fitting origLen chunks).flatten.take n)

/-- Writing decoded chunks keeps its promise for every sequence of chunks. -/
theorem writeUncompressedBlocks_fits {received : Except Fault Unit} {remaining : ℕ}
    {chunks : List (List UInt8)} (s : σ) :
    DecodedFits remaining chunks (file s) (writeUncompressedBlocks received remaining chunks s) := by
  induction chunks generalizing remaining s with
  | nil =>
    have hstay : ∀ {e : Fault} {t : σ}, file t=file s →
        DecodedFits remaining [] (file s) (.error e t : EStateM.Result Fault σ Unit) :=
      fun ht => ⟨0,Nat.zero_le _,ht⟩
    cases received with
    | error e => exact hstay rfl
    | ok _ =>
      have hqueue : queueEnd (.ok ()) s=.ok () s := rfl
      unfold writeUncompressedBlocks
      rw [bind_of_ok hqueue]
      by_cases hzero : remaining=0
      · rw [bind_of_ok (ensure_of _ _ hzero)]
        cases hflush : RawSink.flush s with
        | ok _ t => exact ⟨hzero.symm,flush_ok hflush⟩
        | error e t => exact hstay (flush_error hflush)
      · rw [bind_of_error (ensure_error_iff.mpr ⟨hzero,rfl,rfl⟩)]
        exact hstay rfl
  | cons chunk chunks ih =>
    unfold writeUncompressedBlocks
    by_cases hfit : chunk.length≤remaining
    · have hfitting : fitting remaining (chunk::chunks)=
          chunk::fitting (remaining-chunk.length) chunks := by
        rw [fitting,if_pos hfit]
      rw [bind_of_ok (ensure_of _ _ hfit)]
      cases hwrite : BufferedSink.writeAll chunk s with
      | error e t =>
        rw [bind_of_error hwrite]
        obtain ⟨n,hn,hfile⟩ := writeAll_error hwrite
        refine ⟨n,?_,?_⟩
        · rw [hfitting,List.flatten_cons,List.length_append]
          omega
        · rw [hfile,hfitting,List.flatten_cons,List.take_append_of_le_length hn]
      | ok _ t =>
        rw [bind_of_ok hwrite]
        have hfile := writeAll_ok hwrite
        have hrest := @ih (remaining-chunk.length) t
        cases hr : writeUncompressedBlocks received (remaining-chunk.length) chunks t with
        | ok _ r =>
          rw [hr] at hrest
          obtain ⟨htotal,hlast⟩ := hrest
          refine ⟨?_,?_⟩
          · rw [List.flatten_cons,List.length_append,htotal]
            omega
          · rw [hlast,hfile,Cursor.write_append,List.flatten_cons]
        | error e r =>
          rw [hr] at hrest
          obtain ⟨n,hn,hlast⟩ := hrest
          refine ⟨chunk.length+n,?_,?_⟩
          · rw [hfitting,List.flatten_cons,List.length_append]
            omega
          · rw [hlast,hfile,Cursor.write_append,hfitting,List.flatten_cons,List.take_length_add_append]
    · rw [bind_of_error (ensure_error_iff.mpr ⟨hfit,rfl,rfl⟩)]
      exact ⟨0,Nat.zero_le _,rfl⟩

end Decoded

/-- Staged output fits its reservation. Compressed: for every format, file
size, storage, threshold and sequence of blocks within the compressor's
buffer, with every way the devices and the queue can fail. Decoded: for every
sequence of chunks and every sink, at most the file size is written, nothing
of a chunk that is too long, and success means exactly the file size. -/
theorem output_fits :
    (∀ (build : Build) (kind : Kind) (n : ℕ) (storage : ScratchPayload.Storage)
      (metadata : Option ErrorKind) (maxCompressedSize : ℕ) (percent : String)
      (received : Except Fault Unit) (blocks : List (List UInt8)),
      n<2^32-1 → blocks.length≤numBlocks n →
      (∀ block∈blocks, block.length≤compressedBlockCapacity) →
      (∀ e, received=.error e → ¬OverReservation e) →
      StagingFits (compressedReservationSize kind n) (stageCompressedFile build kind n storage
        metadata maxCompressedSize percent received (compressedReservationSize kind n) blocks)) ∧
    (∀ (σ : Type) [RawSink σ] [LawfulRawSink σ] (received : Except Fault Unit) (origLen : ℕ)
      (chunks : List (List UInt8)) (s : σ),
      (fitting origLen chunks).flatten.length≤origLen ∧
      DecodedFits origLen chunks (file s) (writeUncompressedBlocks received origLen chunks s)) := by
  refine ⟨?_,?_⟩
  · intro build kind n storage metadata maxCompressedSize percent received blocks _ hcount hblocks
      hreceived
    exact stageCompressedFile_fits hcount hblocks (fun {e} he => hreceived e he)
  · intro σ _ _ received origLen chunks s
    exact ⟨fitting_length_le origLen chunks,writeUncompressedBlocks_fits s⟩

/-- Two blocks staged in memory behind a table of three offsets; decoding returns three bytes in two
chunks. -/
theorem output_fits_two_blocks :
    (∃ staged left, stageCompressedFile .debug .lzvn 65537 (.memory []) none 62260 "95" (.ok ())
        (compressedReservationSize .lzvn 65537) [[6,1,2,3],[6,4]]=.ok staged left ∧
      staged.payload.bytes=[12,0,0,0,16,0,0,0,18,0,0,0,6,1,2,3,6,4]) ∧
    StagingFits (compressedReservationSize .lzvn 65537) (stageCompressedFile .debug .lzvn 65537
      (.memory []) none 62260 "95" (.ok ()) (compressedReservationSize .lzvn 65537)
      [[6,1,2,3],[6,4]]) ∧
    DecodedFits 3 [[1,2],[3]] (.empty : Cursor)
      (writeUncompressedBlocks (.ok ()) 3 [[1,2],[3]] (⟨.empty,[.accept 1]⟩ : DeviceFile)) :=
  ⟨⟨_,_,rfl,rfl⟩,
    output_fits.1 .debug .lzvn 65537 (.memory []) none 62260 "95" (.ok ()) [[6,1,2,3],[6,4]]
      (by decide) (by decide) (by decide) nofun,
    (output_fits.2 DeviceFile (.ok ()) 3 [[1,2],[3]] ⟨.empty,[.accept 1]⟩).2⟩

end Applesauce.StagedOutput
