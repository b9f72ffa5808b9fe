import Applesauce.DecmpfsWriter
import Applesauce.IoTriple

/-!
# Finishing a fork on a sink that does not fail

A reliable sink accepts every write and every seek to a position that exists.
On such a sink `finish` returns whenever the data ends within 32 bits: the
triples have no fault, so they say that the program returns and what the sink
then looks like.
-/

namespace Applesauce.ReliableSinks

open RustIo SparseFile SeekableFile ByteWords DecmpfsValue BlockTables DecmpfsWriter IoTriple LawfulWriteSeek

/-- A sink that does not fail. -/
structure Reliable (σ : Type) [WriteSeek σ] [LawfulWriteSeek σ] : Prop where
  writes : ∀ (data : List UInt8) (s : σ), ∃ t, WriteSeek.writeAll data s=.ok () t
  flushes : ∀ s : σ, ∃ t, WriteSeek.flush s=.ok () t
  seeks : ∀ (target : SeekFrom) (s : σ) (pos : ℕ) (file : Cursor),
    (view s).seek target=.ok pos file → ∃ t, WriteSeek.seek target s=.ok pos t

/-- A file in memory does not fail. -/
theorem reliable_cursor : Reliable Cursor where
  writes := fun data s => ⟨s.write data,rfl⟩
  flushes := fun s => ⟨s,rfl⟩
  seeks := fun _ _ _ file h => ⟨file,h⟩

/-- No fault at all. -/
def Never {σ : Type} : Fault→σ→Prop := fun _ _ => False

section Rules
variable {σ α β : Type} {pre : σ→Prop} {x : Io σ α} {post : α→σ→Prop}

/-- Without a fault the program returns. -/
theorem returns (h : Triple pre x post Never) {s : σ} (hs : pre s) :
    ∃ a t, x s=.ok a t ∧ post a t := by
  cases hx : x s with
  | ok a t => exact ⟨a,t,rfl,h.ok hs hx⟩
  | error e t => exact (h.error hs hx).elim

/-- Sequencing after a program whose value is known. -/
theorem bind_value {value : α} {mid : σ→Prop} {f : α→Io σ β} {last : β→σ→Prop}
    (hx : Triple pre x (fun a t => a=value ∧ mid t) Never) (hf : Triple mid (f value) last Never) :
    Triple pre (x>>=f) last Never := by
  refine hx.bind fun a => Triple.assume fun ha => ?_
  rw [ha]
  exact hf

/-- Whatever returns and says so is described by a triple. -/
theorem triple_of_returns (h : ∀ s, pre s → ∃ a t, x s=.ok a t ∧ post a t) :
    Triple pre x post Never := by
  refine ⟨fun hs hx => ?_,fun hs hx => ?_⟩
  · obtain ⟨a,t,hok,hpost⟩ := h _ hs
    obtain ⟨rfl,rfl⟩ := EStateM.Result.ok.inj (hok.symm.trans hx)
    exact hpost
  · obtain ⟨a,t,hok,_⟩ := h _ hs
    rw [hok] at hx
    cases hx

/-- A guard known to hold is passed. -/
theorem ensure_passes {c : Prop} [Decidable c] {fault : Fault} (h : c) :
    Triple pre (ensure c fault) (fun a t => a=() ∧ pre t) Never :=
  triple_of_returns fun s hs => ⟨(),s,ensure_of _ s h,rfl,hs⟩

/-- A conversion known to be in range is passed. -/
theorem tryU32_passes {n : ℕ} {fault : Fault} (h : n≤u32Max) :
    Triple pre (tryU32 n fault) (fun a t => a=n ∧ pre t) Never :=
  triple_of_returns fun s hs => ⟨n,s,tryU32_of _ s h,rfl,hs⟩

/-- A subtraction known to be in range is passed. -/
theorem subU32_passes {build : Build} {m n : ℕ} (h : n≤ m) :
    Triple pre (subU32 build m n) (fun a t => a=m-n ∧ pre t) Never :=
  triple_of_returns fun s hs => ⟨m-n,s,subU32_of s h,rfl,hs⟩

end Rules

section Sinks
variable {σ : Type} [WriteSeek σ] [LawfulWriteSeek σ]

/-- The sink looks like this file. -/
abbrev Shows (file : Cursor) : σ→Prop := fun s => view s=file

variable (hσ : Reliable σ)
include hσ

/-- A write. -/
theorem writeAll_returns (data : List UInt8) (file : Cursor) :
    Triple (Shows file) (WriteSeek.writeAll data : Io σ Unit)
      (fun a t => a=() ∧ Shows (file.write data) t) Never := by
  refine triple_of_returns fun s hs => ?_
  obtain ⟨t,ht⟩ := hσ.writes data s
  exact ⟨(),t,ht,rfl,by rw [Shows,writeAll_view ht,hs]⟩

/-- A flush. -/
theorem flush_returns (file : Cursor) :
    Triple (Shows file) (WriteSeek.flush : Io σ Unit) (fun a t => a=() ∧ Shows file t) Never := by
  refine triple_of_returns fun s hs => ?_
  obtain ⟨t,ht⟩ := hσ.flushes s
  exact ⟨(),t,ht,rfl,(flush_view ht).trans hs⟩

/-- A seek to an absolute position. -/
theorem seek_start_returns (pos : ℕ) (file : Cursor) :
    Triple (Shows file) (WriteSeek.seek (.start pos) : Io σ ℕ)
      (fun a t => a=pos ∧ Shows {file with pos := pos} t) Never := by
  refine triple_of_returns fun s hs => ?_
  obtain ⟨t,ht⟩ := hσ.seeks (.start pos) s pos _ (Cursor.seek_start _ _)
  exact ⟨pos,t,ht,rfl,by rw [Shows,seek_start_view ht,hs]⟩

/-- A return to the start. -/
theorem rewind_returns (file : Cursor) :
    Triple (Shows file) (rewind : Io σ Unit) (fun a t => a=() ∧ Shows {file with pos := 0} t)
      Never := by
  unfold rewind
  refine bind_value (seek_start_returns hσ 0 file) ?_
  exact triple_of_returns fun s hs => ⟨(),s,rfl,rfl,hs⟩

/-- A position query. -/
theorem streamPosition_returns {file : Cursor} (h : file.pos≤u64Max) :
    Triple (Shows file) (streamPosition : Io σ ℕ) (fun a t => a=file.pos ∧ Shows file t) Never := by
  refine triple_of_returns fun s hs => ?_
  have hhere : (view s).seek (.current 0)=.ok file.pos (view s) := by
    rw [hs]
    exact Cursor.seek_here file h
  obtain ⟨t,ht⟩ := hσ.seeks (.current 0) s file.pos _ hhere
  exact ⟨file.pos,t,ht,rfl,by rw [Shows,(streamPosition_view ht).2,hs]⟩

/-- A position assertion that holds. -/
theorem debugAssertPosition_returns {build : Build} {expected : ℕ} {file : Cursor}
    (h : file.pos=expected) (hwide : expected≤u64Max) :
    Triple (Shows file) (debugAssertPosition build expected : Io σ Unit)
      (fun a t => a=() ∧ Shows file t) Never := by
  cases build with
  | release => exact triple_of_returns fun s hs => ⟨(),s,rfl,rfl,hs⟩
  | debug => exact bind_value (streamPosition_returns hσ (h.trans_le hwide)) (ensure_passes h)

end Sinks

section Finish
variable {σ : Type} [WriteSeek σ] [LawfulWriteSeek σ] (hσ : Reliable σ)
include hσ

/-- The zlib table loop returns when the blocks end within 32 bits. -/
theorem writeEntries_returns {offset : ℕ} {sizes : List ℕ} (h : offset+sizes.sum≤u32Max)
    (file : Cursor) :
    Triple (Shows file) (Zlib.writeEntries offset sizes : Io σ Unit)
      (fun a t => a=() ∧ Shows (file.write (Zlib.entryBytes offset sizes)) t) Never := by
  induction sizes generalizing offset file with
  | nil => exact triple_of_returns fun s hs => ⟨(),s,rfl,rfl,hs⟩
  | cons size sizes ih =>
    rw [List.sum_cons] at h
    unfold Zlib.writeEntries
    refine bind_value (writeAll_returns hσ _ file) ?_
    have hnext : offset+size≤u32Max := by omega
    refine bind_value (tryU32_passes hnext) ?_
    have hlater : offset+size+sizes.sum≤u32Max := by omega
    have hrest := ih hlater (file.write (BlockInfo.toBytes ⟨offset,size⟩))
    rw [Cursor.write_append] at hrest
    exact hrest

/-- The LZ table loop returns when the blocks end within 32 bits. -/
theorem writeOffsets_returns {offset : ℕ} {sizes : List ℕ} (h : offset+sizes.sum≤u32Max)
    (file : Cursor) :
    Triple (Shows file) (Lz.writeOffsets offset sizes : Io σ Unit)
      (fun a t => a=() ∧ Shows (file.write (Lz.tableBytes offset sizes)) t) Never := by
  induction sizes generalizing offset file with
  | nil => exact writeAll_returns hσ _ file
  | cons size sizes ih =>
    rw [List.sum_cons] at h
    unfold Lz.writeOffsets
    refine bind_value (writeAll_returns hσ _ file) ?_
    have hnext : offset+size≤u32Max := by omega
    refine bind_value (tryU32_passes hnext) ?_
    have hlater : offset+size+sizes.sum≤u32Max := by omega
    have hrest := ih hlater (file.write (leBytes 4 offset))
    rw [Cursor.write_append] at hrest
    exact hrest

omit hσ in
/-- The fork header is computed when the data ends late enough. -/
theorem header_returns {build : Build} {dataEnd : ℕ} (h : 0x100≤dataEnd) (file : Cursor) :
    Triple (Shows file) (Zlib.header build dataEnd : Io σ (List UInt8))
      (fun a t => a=Zlib.headerWords dataEnd (dataEnd-0x100) ∧ Shows file t) Never :=
  triple_of_returns fun s hs => ⟨_,s,Zlib.header_of s h,rfl,hs⟩

/-- Finishing a zlib fork returns when the data ends within 32 bits. -/
theorem zlib_finish_returns {build : Build} {sizes : List ℕ} {file : Cursor}
    (hpos : file.pos=Zlib.headerSize sizes.length+sizes.sum) (hfit : file.pos≤u32Max) :
    Triple (Shows file) (Zlib.finish build sizes : Io σ Unit) (fun _ _ => True) Never := by
  have hwide : u32Max+50≤u64Max := by decide
  have hstart : Zlib.headerSize sizes.length=0x108+sizes.length*8 := by
    unfold Zlib.headerSize Zlib.blockTableStart BlockInfo.size
    omega
  have htable : Zlib.headerSize sizes.length-Zlib.blockTableStart=4+sizes.length*8 := by
    rw [hstart]
    unfold Zlib.blockTableStart
    omega
  have hcount : sizes.length≤u32Max := by omega
  have hlate : 0x104≤file.pos := by omega
  have hhere : file.pos≤u64Max := by omega
  have hoffset : Zlib.headerSize sizes.length-Zlib.blockTableStart≤u32Max := by omega
  have hentries : Zlib.headerSize sizes.length-Zlib.blockTableStart+sizes.sum≤u32Max := by omega
  have hbehind : file.pos+Zlib.trailerSize≤u64Max := by
    change file.pos+50≤u64Max
    omega
  have hfront : Zlib.headerSize sizes.length≤u64Max := by omega
  unfold Zlib.finish
  refine bind_value (tryU32_passes hcount) ?_
  refine bind_value (streamPosition_returns hσ hhere) ?_
  refine bind_value (tryU32_passes hfit) ?_
  refine bind_value (writeAll_returns hσ _ _) ?_
  refine bind_value (debugAssertPosition_returns hσ rfl hbehind) ?_
  refine bind_value (rewind_returns hσ _) ?_
  refine bind_value (header_returns (by omega) _) ?_
  refine bind_value (writeAll_returns hσ _ _) ?_
  refine bind_value (seek_start_returns hσ _ _) ?_
  refine bind_value (subU32_passes hlate) ?_
  refine bind_value (writeAll_returns hσ _ _) ?_
  refine bind_value (writeAll_returns hσ _ _) ?_
  refine bind_value (tryU32_passes hoffset) ?_
  refine bind_value (writeEntries_returns hσ hentries _) ?_
  refine bind_value (flush_returns hσ _) ?_
  refine (debugAssertPosition_returns hσ ?_ hfront).weaken id (fun _ => trivial) id
  simp only [Cursor.write,beBytes_length,leBytes_length,Zlib.entryBytes_length]
  omega

/-- Finishing an LZ fork returns when the data ends within 32 bits. -/
theorem lz_finish_returns {build : Build} {sizes : List ℕ} {file : Cursor}
    (hfit : Lz.headerSize sizes.length+sizes.sum≤u32Max) :
    Triple (Shows file) (Lz.finish build sizes : Io σ Unit) (fun _ _ => True) Never := by
  have hwide : u32Max≤u64Max := by decide
  have hstart : Lz.headerSize sizes.length=(sizes.length+1)*4 := rfl
  have hcount : sizes.length≤u32Max := by omega
  have hoffset : Lz.headerSize sizes.length≤u32Max := by omega
  unfold Lz.finish
  refine bind_value (tryU32_passes hcount) ?_
  refine bind_value (tryU32_passes hoffset) ?_
  refine bind_value (rewind_returns hσ _) ?_
  refine bind_value (writeOffsets_returns hσ hfit _) ?_
  refine bind_value (flush_returns hσ _) ?_
  refine (debugAssertPosition_returns hσ ?_ (hoffset.trans hwide)).weaken id (fun _ => trivial) id
  simp only [Cursor.write,Lz.tableBytes_length,Nat.zero_add]

/-- Finishing behind the blocks returns when they end within 32 bits. -/
theorem finish_returns {build : Build} {kind : Kind} {sizes : List ℕ} {s : σ}
    (hpos : (view s).pos=headerSize kind sizes.length+sizes.sum)
    (hfit : headerSize kind sizes.length+sizes.sum≤u32Max) :
    ∃ t, finish build kind sizes s=.ok () t := by
  have hrun : ∃ a t, finish build kind sizes s=.ok a t ∧ True := by
    cases kind with
    | zlib =>
      have hend : (view s).pos≤u32Max := hpos.trans_le hfit
      exact returns (zlib_finish_returns hσ hpos hend) rfl
    | lzvn => exact returns (lz_finish_returns hσ hfit) rfl
    | lzfse => exact returns (lz_finish_returns hσ hfit) rfl
  obtain ⟨_,t,ht,_⟩ := hrun
  exact ⟨t,ht⟩

end Finish

end Applesauce.ReliableSinks
