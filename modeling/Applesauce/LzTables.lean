import Applesauce.ReliableSinks
import Applesauce.UntrustedForks

/-!
# Which LZ tables are accepted

The parser of an LZ table starts at the first offset, goes up from offset to
offset and insists on the end of the fork. It accepts the tables that
`finish` writes and no others, so a table determines the sizes of the blocks
and the sizes determine the table.
-/

namespace Applesauce.LzTables

open RustIo SparseFile SeekableFile ByteWords DecmpfsValue BlockTables ReliableSinks UntrustedForks
open LawfulWriteSeek

section Written
variable {build : Build} {sizes : List ℕ}

/-- What `finish` leaves in any sink: the table at the start, with an end in 32 bits. -/
theorem finish_view {σ : Type} [WriteSeek σ] [LawfulWriteSeek σ] {s t : σ} {u : Unit}
    (h : Lz.finish build sizes s=.ok u t) :
    view t=({view s with pos := 0} : Cursor).write
        (Lz.tableBytes (Lz.headerSize sizes.length) sizes) ∧
      Lz.headerSize sizes.length+sizes.sum≤u32Max := by
  simp only [Lz.finish,bind_ok_iff] at h
  obtain ⟨count,s1,h1,offset,s2,h2,_,s3,h3,_,s4,h4,_,s5,h5,h6⟩ := h
  obtain ⟨_,rfl,rfl⟩ := tryU32_ok_iff.mp h1
  obtain ⟨hofit,rfl,rfl⟩ := tryU32_ok_iff.mp h2
  obtain ⟨hv4,hsum⟩ := Lz.writeOffsets_view h4
  refine ⟨?_,hsum hofit⟩
  rw [(debugAssertPosition_ok h6).1,flush_view h5,hv4,rewind_view h3]

/-- On a file in memory `finish` returns exactly when the blocks end within 32 bits. -/
theorem finish_ok_iff {file after : Cursor} :
    Lz.finish build sizes file=.ok () after ↔ Lz.headerSize sizes.length+sizes.sum≤u32Max ∧
      after=({file with pos := 0} : Cursor).write
        (Lz.tableBytes (Lz.headerSize sizes.length) sizes) := by
  constructor
  · intro h
    obtain ⟨hview,hfit⟩ := finish_view h
    exact ⟨hfit,hview⟩
  · rintro ⟨hfit,rfl⟩
    obtain ⟨_,t,hfinish,_⟩ :=
      returns (@lz_finish_returns _ _ _ reliable_cursor build sizes file hfit) (rfl : view file=file)
    have hview : t=({file with pos := 0} : Cursor).write
      (Lz.tableBytes (Lz.headerSize sizes.length) sizes) := (finish_view hfinish).1
    rw [←hview]
    exact hfinish

/-- The bytes that `finish` writes for these sizes. -/
def Writes (build : Build) (sizes : List ℕ) (header : List UInt8) : Prop :=
  ∃ after, Lz.finish build sizes Cursor.empty=.ok () after ∧ after.bytes=header

/-- They are the offset table. -/
theorem writes_iff {header : List UInt8} : Writes build sizes header ↔
    Lz.headerSize sizes.length+sizes.sum≤u32Max ∧
      header=Lz.tableBytes (Lz.headerSize sizes.length) sizes := by
  unfold Writes
  simp only [finish_ok_iff]
  constructor
  · rintro ⟨after,⟨hfit,rfl⟩,rfl⟩
    exact ⟨hfit,writeAt_end [] _⟩
  · rintro ⟨hfit,rfl⟩
    exact ⟨_,⟨hfit,rfl⟩,writeAt_end [] _⟩

end Written

section Parsed

/-- What a buffer of exact length was filled with. -/
theorem readExact_ok {count : ℕ} {file after : Cursor} {buf : List UInt8}
    (h : Cursor.readExact count file=.ok buf after) :
    file.pos+count≤file.bytes.length ∧ buf=readAt file.bytes file.pos count ∧
      after={file with pos := file.pos+count} := by
  unfold Cursor.readExact at h
  by_cases hfit : file.pos+count≤file.bytes.length
  · rw [if_pos hfit] at h
    obtain ⟨rfl,rfl⟩ := EStateM.Result.ok.inj h
    exact ⟨hfit,rfl,rfl⟩
  · rw [if_neg hfit] at h
    cases h

/-- Four bytes that were read are the word of their value. -/
theorem leBytes_readExact {file after : Cursor} {buf : List UInt8}
    (h : Cursor.readExact 4 file=.ok buf after) : leBytes 4 (leValue buf)=buf := by
  obtain ⟨hfit,rfl,_⟩ := readExact_ok h
  have hlen : (readAt file.bytes file.pos 4).length=4 := by
    rw [readAt_length]
    omega
  have hword := leBytes_leValue (readAt file.bytes file.pos 4)
  rw [hlen] at hword
  exact hword

/-- The offsets that the table loop accepts are those of consecutive blocks. -/
theorem readOffsets_inv {count last : ℕ} {file after : Cursor} {result : List BlockInfo×ℕ}
    (h : Lz.readOffsets count last file=.ok result after) :
    ∃ sizes, sizes.length=count ∧ file.pos+count*4≤ max file.pos file.bytes.length ∧
      readAt file.bytes file.pos (count*4)=Lz.tailBytes last sizes ∧
      result=(consecutive last sizes,last+sizes.sum) ∧
      after={file with pos := file.pos+count*4} ∧ (last≤u32Max → last+sizes.sum≤u32Max) := by
  induction count generalizing last file result with
  | zero =>
    obtain ⟨rfl,rfl⟩ := EStateM.Result.ok.inj h
    refine ⟨[],rfl,?_,?_,rfl,?_,id⟩
    · rw [Nat.zero_mul]
      exact Nat.le_max_left _ _
    · rw [Nat.zero_mul]
      exact List.take_zero
    · rw [Nat.zero_mul]
      rfl
  | succ count ih =>
    simp only [Lz.readOffsets,bind_ok_iff] at h
    obtain ⟨buf,u,hbuf,_,v,hensure,rest,w,hrest,hpure⟩ := h
    obtain ⟨rfl,rfl⟩ := EStateM.Result.ok.inj hpure
    obtain ⟨hle,rfl⟩ := ensure_ok_iff.mp hensure
    have hword := leValue_readExact hbuf
    have hbytes := leBytes_readExact hbuf
    obtain ⟨hfit,hread,rfl⟩ := readExact_ok hbuf
    obtain ⟨sizes,hlen,hend,htail,rfl,rfl,hlast⟩ := ih hrest
    have hsize : last+(leValue buf-last)=leValue buf := Nat.add_sub_cancel' hle
    refine ⟨(leValue buf-last)::sizes,congrArg Nat.succ hlen,?_,?_,?_,?_,fun _ => ?_⟩
    · dsimp only at hend
      omega
    · rw [Nat.succ_mul,Nat.add_comm,readAt_add,htail,←hread,Lz.tailBytes,hsize,Lz.tableBytes_eq,
        hbytes]
    · rw [consecutive,hsize,List.sum_cons,←Nat.add_assoc,hsize]
    · rw [Nat.succ_mul,Nat.add_assoc,Nat.add_comm 4]
    · have hsum := hlast hword
      rw [List.sum_cons]
      omega

end Parsed

/-- The blocks of a table lie between two positions, each where the one before it ends. -/
def Tiles : ℕ→List BlockInfo→ℕ→Prop
  | start,[],stop => start=stop
  | start,info::infos,stop => info.offset=start ∧ Tiles (start+info.compressedSize) infos stop

/-- Consecutive blocks leave no gap and do not overlap. -/
theorem tiles_consecutive (start : ℕ) (sizes : List ℕ) :
    Tiles start (consecutive start sizes) (start+sizes.sum) := by
  induction sizes generalizing start with
  | nil => rfl
  | cons size sizes ih =>
    rw [List.sum_cons,←Nat.add_assoc]
    exact ⟨rfl,ih (start+size)⟩

/-- The sizes in a table of consecutive blocks. -/
theorem sizes_consecutive (start : ℕ) (sizes : List ℕ) :
    (consecutive start sizes).map BlockInfo.compressedSize=sizes := by
  induction sizes generalizing start with
  | nil => rfl
  | cons size sizes ih => rw [consecutive,List.map_cons,ih]

section Accepted
variable {build : Build} {n pos : ℕ} {fork : List UInt8} {infos : List BlockInfo}

/-- The parser accepts the fork with this table. -/
def Accepts (n : ℕ) (fork : List UInt8) (pos : ℕ) (infos : List BlockInfo) : Prop :=
  ∃ after, Lz.readBlockInfo n ⟨fork,pos⟩=.ok infos after

/-- The fork starts with what `finish` writes for these sizes and ends with the last block. -/
structure Describes (build : Build) (n : ℕ) (fork : List UInt8) (sizes : List ℕ) : Prop where
  count : sizes.length=numBlocks n
  header : Writes build sizes (fork.take (Lz.headerSize (numBlocks n)))
  sum : Lz.headerSize (numBlocks n)+sizes.sum=fork.length

/-- An accepted table is the one of some sizes. -/
theorem Accepts.describes (h : Accepts n fork pos infos) :
    ∃ sizes, Describes build n fork sizes ∧
      infos=consecutive (Lz.headerSize (numBlocks n)) sizes := by
  obtain ⟨after,h⟩ := h
  simp only [Lz.readBlockInfo,bind_ok_iff] at h
  obtain ⟨_,s1,hseek,start,s2,hstart,buf,s3,hbuf,_,s4,hfirst,result,s5,htable,stop,s6,hend,_,s7,
    hlast,hpure⟩ := h
  obtain ⟨rfl,rfl⟩ := EStateM.Result.ok.inj hpure
  obtain ⟨_,rfl⟩ := EStateM.Result.ok.inj hseek
  obtain ⟨hofit,rfl,rfl⟩ := tryU32_ok_iff.mp hstart
  obtain ⟨hvalue,rfl⟩ := ensure_ok_iff.mp hfirst
  have hbytes := leBytes_readExact hbuf
  obtain ⟨hfit,hread,rfl⟩ := readExact_ok hbuf
  rw [hvalue] at htable hbytes
  obtain ⟨sizes,hlen,hroom,htail,rfl,rfl,hsum⟩ := readOffsets_inv htable
  obtain ⟨hstop,rfl⟩ := ensure_ok_iff.mp hlast
  dsimp only at hfit hread hroom htail hstop hend
  have hstop' : stop=fork.length := (Cursor.seek_end_ok hend).1
  have htotal : Lz.headerSize (numBlocks n)+sizes.sum=fork.length := hstop.symm.trans hstop'
  have hwide : Lz.headerSize (numBlocks n)=4+numBlocks n*4 := by
    unfold Lz.headerSize
    omega
  have htake : fork.take (Lz.headerSize (numBlocks n))=
      Lz.tableBytes (Lz.headerSize sizes.length) sizes := by
    have hsplit := readAt_add fork 0 4 (numBlocks n*4)
    rw [←hwide,htail,←hread,←hbytes,←Lz.tableBytes_eq] at hsplit
    rw [hlen]
    exact hsplit
  refine ⟨sizes,⟨hlen,writes_iff.mpr ⟨?_,htake⟩,htotal⟩,rfl⟩
  rw [hlen]
  exact hsum hofit

/-- A fork that starts with a written table and ends with its last block is accepted. -/
theorem Describes.accepts {sizes : List ℕ} (h : Describes build n fork sizes) :
    Accepts n fork pos (consecutive (Lz.headerSize (numBlocks n)) sizes) := by
  obtain ⟨hfit,htake⟩ := writes_iff.mp h.header
  have hsum := h.sum
  rw [h.count] at hfit htake
  have hlayout : fork=Lz.layout sizes (fork.drop (Lz.headerSize (numBlocks n))) := by
    rw [Lz.layout,h.count,←htake,List.take_append_drop]
  have hdata : sizes.sum=(fork.drop (Lz.headerSize (numBlocks n))).length := by
    rw [List.length_drop]
    omega
  obtain ⟨after,hread⟩ := @Lz.readBlockInfo_layout n pos sizes _ h.count.symm hdata (by
    rw [←hlayout]
    omega)
  rw [←hlayout,h.count] at hread
  exact ⟨_,hread⟩

/-- Writing the accepted sizes over the fork changes none of its bytes. -/
theorem Accepts.rewrites (h : Accepts n fork pos infos) (build : Build) :
    ∃ after, Lz.finish build (infos.map BlockInfo.compressedSize) (⟨fork,pos⟩ : Cursor)=.ok () after ∧
      after.bytes=fork := by
  obtain ⟨sizes,hdescribes,rfl⟩ := @Accepts.describes build n pos fork infos h
  obtain ⟨hfit,htake⟩ := writes_iff.mp hdescribes.header
  rw [sizes_consecutive]
  refine ⟨_,finish_ok_iff.mpr ⟨hfit,rfl⟩,?_⟩
  have hsplit : fork=[]++(Lz.tableBytes (Lz.headerSize sizes.length) sizes++
      fork.drop (Lz.headerSize (numBlocks n))) := by
    rw [List.nil_append,←htake,List.take_append_drop]
  change writeAt fork 0 _=fork
  conv_lhs => rw [hsplit]
  exact (writeAt_replace [] _ _ rfl).trans hsplit.symm

/-- What `finish` leaves around blocks of the right sizes is accepted with these sizes. -/
theorem accepts_finished {sizes : List ℕ} {data : List UInt8} {after : Cursor}
    (hcount : sizes.length=numBlocks n) (hsum : sizes.sum=data.length)
    (h : Lz.finish build sizes ((⟨[],Lz.headerSize sizes.length⟩ : Cursor).write data)=.ok () after) :
    Accepts n after.bytes pos (consecutive (Lz.headerSize (numBlocks n)) sizes) := by
  obtain ⟨hlayout,hfit⟩ := Lz.finish_layout rfl h
  have hbytes : after.bytes=Lz.layout sizes data := hlayout
  obtain ⟨last,hread⟩ := @Lz.readBlockInfo_layout n pos sizes data hcount.symm hsum (by
    rw [Lz.layout_length]
    omega)
  rw [hcount] at hread
  rw [hbytes]
  exact ⟨_,hread⟩

/-- The parser accepts exactly the tables that `finish` writes for as many sizes as there are
blocks, in a fork that ends with the last block: it returns these sizes with consecutive
offsets, which leave no gap and no overlap up to the end of the fork. Writing the accepted
sizes again changes nothing, and what was written for some sizes is read back as them. -/
theorem lz_accepts_iff (build : Build) (n pos : ℕ) (fork : List UInt8) :
    (∀ infos, Accepts n fork pos infos ↔ ∃ sizes, Describes build n fork sizes ∧
      infos=consecutive (Lz.headerSize (numBlocks n)) sizes) ∧
    (∀ infos, Accepts n fork pos infos → infos.length=numBlocks n ∧
      Tiles (Lz.headerSize (numBlocks n)) infos fork.length ∧
      Writes build (infos.map BlockInfo.compressedSize) (fork.take (Lz.headerSize (numBlocks n))) ∧
      ∃ after, Lz.finish build (infos.map BlockInfo.compressedSize) (⟨fork,pos⟩ : Cursor)=.ok () after ∧
        after.bytes=fork) ∧
    ∀ sizes data after, sizes.length=numBlocks n → sizes.sum=data.length →
      Lz.finish build sizes ((⟨[],Lz.headerSize sizes.length⟩ : Cursor).write data)=.ok () after →
      ∃ infos, Accepts n after.bytes pos infos ∧ infos.map BlockInfo.compressedSize=sizes := by
  refine ⟨fun infos => ⟨Accepts.describes,?_⟩,fun infos h => ?_,?_⟩
  · rintro ⟨sizes,hdescribes,rfl⟩
    exact hdescribes.accepts
  · have hrewrites := h.rewrites build
    obtain ⟨sizes,hdescribes,rfl⟩ := @Accepts.describes build n pos fork infos h
    rw [sizes_consecutive] at hrewrites ⊢
    refine ⟨?_,?_,hdescribes.header,hrewrites⟩
    · rw [consecutive_length,hdescribes.count]
    · rw [←hdescribes.sum]
      exact tiles_consecutive _ sizes
  · intro sizes data after hcount hsum h
    exact ⟨_,accepts_finished hcount hsum h,sizes_consecutive _ sizes⟩

end Accepted

end Applesauce.LzTables
