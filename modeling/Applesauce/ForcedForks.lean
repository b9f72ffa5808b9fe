import Applesauce.WrittenForks
import Applesauce.UntrustedReads
import Applesauce.FormatRoundTrip
import Mathlib.Algebra.Order.BigOperators.Group.List

/-!
# Forcing the resource fork

Forcing a writer that holds its only block moves that block, forcing a writer
with an open fork does nothing. Forcing a writer for one block before it has
been given that block records an empty one in its place, so that the file can
no longer be finished.
-/

namespace Applesauce.ForcedForks

open RustIo SeekableFile DecmpfsValue BlockTables DecmpfsWriter DecmpfsReader WriterCalls
open WrittenForks ReliableSinks FormatRoundTrip UntrustedReads LawfulWriteSeek

section Definitions
variable {σ : Type} [WriteSeek σ] [LawfulWriteSeek σ]

/-- A reader opened on this attribute and this fork delivers these blocks. -/
def ReadsBack (build : Build) (kind : Kind) (value : List UInt8) (opened : Except Fault Cursor)
    (blocks : List (List UInt8)) : Prop :=
  ∃ r, Reader.new build value opened=.ok r ∧ r.kind=kind ∧ Delivers r blocks

/-- The calls succeed and leave the file in its fork, and reading it gives the same blocks as
reading the file written without the forced calls. -/
def Transparent (build readBuild : Build) (kind : Kind) (n : ℕ) (fresh : σ) (calls : List Call) :
    Prop :=
  (∃ value last, writeCalls build kind n (.ok fresh) calls=.ok value (some last) ∧
      value=Value.toBytes ⟨.new kind .resourceFork,n,[]⟩ ∧
      ReadsBack readBuild kind value (.ok ⟨stored last,0⟩) (added calls)) ∧
    ∃ value fork, writeFile build kind n (.ok fresh) (added calls)=.ok value fork ∧
      ∀ opened, (∀ last, fork=some last → opened=.ok ⟨stored last,0⟩) →
        ReadsBack readBuild kind value opened (added calls)

/-- The fork is not forced before the only block of the file has been added. -/
def Timely (n : ℕ) (calls : List Call) : Prop := 1<numBlocks n ∨ calls.head?≠some .force

end Definitions

section Sizes

/-- The end of a file is its length. -/
theorem seek_end_ok {file after : Cursor} {len : ℕ} (h : Cursor.seek (.fromEnd 0) file=.ok len after) :
    len=file.bytes.length := by
  unfold Cursor.seek Cursor.seekTarget checkedAddSigned at h
  dsimp only at h
  split at h
  · next pos hpos =>
    obtain ⟨rfl,_⟩ := EStateM.Result.ok.inj h
    split at hpos
    · have hlen := Option.some.inj hpos
      omega
    · cases hpos
  · cases h

/-- A zlib fork that is read stays within 32 bits. -/
theorem zlib_read_length {build : Build} {n : ℕ} {file after : Cursor} {infos : List BlockInfo}
    (h : Zlib.readBlockInfo build n file=.ok infos after) : file.bytes.length≤u32Max := by
  simp only [Zlib.readBlockInfo,bind_ok_iff] at h
  obtain ⟨_,u,hcount,len,_,hlen,_,_,hsize,_⟩ := h
  obtain ⟨_,_,rfl⟩ := tryU32_ok_iff.mp hcount
  obtain ⟨hfit,_⟩ := tryU32_ok_iff.mp hsize
  rw [seek_end_ok hlen] at hfit
  exact hfit

/-- Forks whose pieces have the same number and data are equally long. -/
theorem layout_length_eq {kind : Kind} {pieces blocks : List (List UInt8)}
    (hcount : pieces.length=blocks.length) (hflat : pieces.flatten=blocks.flatten) :
    (layout kind pieces).length=(layout kind blocks).length := by
  rw [layout_length,layout_length,hcount,hflat]

end Sizes

/-- A fork in the outcome of writing a file is the layout of its blocks. -/
theorem outcome_fork {kind : Kind} {n : ℕ} {blocks : List (List UInt8)} {value bytes : List UInt8}
    {fork : Option (List UInt8)} (h : Outcome kind n blocks value fork) (hfork : fork=some bytes) :
    bytes=layout kind blocks := by
  cases h with
  | inlined hone hsmall => cases hfork
  | forked hwhy hfit => exact (Option.some.inj hfork).symm

section Condition
variable {σ : Type} [WriteSeek σ] [LawfulWriteSeek σ]

/-- A sink that is empty when it is opened. -/
theorem opens_empty {fresh : σ} (hempty : view fresh=.empty) :
    ∀ fork, (Except.ok fresh : Except Fault σ)=.ok fork → view fork=.empty := by
  rintro fork hfork
  obtain rfl := Except.ok.inj hfork
  exact hempty

/-- Forcing the fork before the only block leaves two pieces in it. -/
theorem not_finished_of_early {build : Build} {kind : Kind} {n : ℕ} {fresh : σ} {calls : List Call}
    {value : List UInt8} {last : σ} (hempty : view fresh=.empty) (hone : numBlocks n=1)
    (hcount : (added calls).length=numBlocks n) (hearly : calls.head?=some .force) :
    writeCalls build kind n (.ok fresh) calls≠.ok value (some last) := by
  intro hwrite
  obtain ⟨w,t,hnew,hrun,hfinish⟩ := fillCalls_ok_iff.mp hwrite
  have hopen := opens_empty hempty
  obtain ⟨_,hsize,_⟩ := new_written hopen hnew
  have hstate := new_single (by omega) hnew
  cases calls with
  | nil => cases hearly
  | cons call rest =>
    obtain rfl := Option.some.inj hearly
    obtain ⟨_,r,hforce,hrest⟩ := bind_ok_iff.mp hrun
    cases Call.step hforce with
    | @moved opener block hkept hmoved =>
      rw [hstate] at hkept
      obtain ⟨rfl,rfl⟩ := WriterState.singleBlock.inj hkept
      obtain ⟨_,hsame,hr⟩ := @MovedTo.written σ _ _ w r _ [] [] hopen rfl (Nat.zero_le _) hmoved
      have hopened : r.isSingle=false := by
        obtain ⟨_,_,_,_,_,_,_,rfl⟩ := hmoved
        rfl
      obtain ⟨_,hlater,more,ht,hpieces⟩ := hr.run hrest
      obtain ⟨rfl,_⟩ := hpieces hopened
      have hall := (ht.finish hfinish).1
      rw [hlater,hsame,hsize,hone,List.length_append] at hall
      have hadded : (added rest).length=1 := hcount.trans hone
      rw [hadded] at hall
      cases hall
    | unchanged hmultiple ht =>
      rw [hstate] at hmultiple
      cases hmultiple

/-- Forced calls on a writer that keeps its only block move it to the fork. -/
theorem forces_written {build : Build} {w t : Writer σ} {blocks : List (List UInt8)}
    {calls : List Call} {u : Unit} (hw : Written w blocks []) (hsingle : w.isSingle=true)
    (hforces : added calls=[]) (hne : calls≠[]) (h : runCalls build calls w=.ok u t) :
    t.isSingle=false ∧ Written t blocks [blocks.flatten] := by
  cases calls with
  | nil => exact absurd rfl hne
  | cons call rest =>
    cases call with
    | add block => cases hforces
    | force =>
      obtain ⟨_,r,hforce,hrest⟩ := bind_ok_iff.mp h
      unfold Written at hw
      cases Call.step hforce with
      | @moved opener kept hkept hmoved =>
        rw [hkept] at hw
        obtain ⟨_,hflat,hsmall,hopen⟩ := hw
        have hopened : r.isSingle=false := by
          obtain ⟨_,_,_,_,_,_,_,rfl⟩ := hmoved
          rfl
        obtain ⟨_,_,hr⟩ := MovedTo.written hopen hflat (hsmall.trans (by decide)) hmoved
        obtain ⟨_,_,more,ht,hpieces⟩ := hr.run hrest
        obtain ⟨rfl,hlast⟩ := hpieces hopened
        rw [show added rest=[] from hforces,List.append_nil,List.append_nil,hflat] at ht
        exact ⟨hlast,ht⟩
      | unchanged hmultiple ht =>
        unfold Writer.isSingle at hsingle
        rw [hmultiple] at hsingle
        cases hsingle

/-- The first block of a writer for one block is kept or moved to the fork. -/
theorem first_written {w t : Writer σ} {opener : Except Fault σ} {block : List UInt8}
    (hstate : w.state=.singleBlock opener []) (hw : Written w [] []) (h : Step w t (.add block)) :
    (t.isSingle=true ∧ Written t [block] []) ∨ (t.isSingle=false ∧ Written t [block] [block]) := by
  have hflat : block=[block].flatten := List.flatten_singleton.symm
  unfold Written at hw
  rw [hstate] at hw
  obtain ⟨_,_,_,hopen⟩ := hw
  cases h with
  | kept hkept hsmall ht =>
    rw [hstate] at hkept
    obtain ⟨rfl,_⟩ := WriterState.singleBlock.inj hkept
    subst ht
    exact .inl ⟨rfl,rfl,hflat,hsmall,hopen⟩
  | opened hkept hlarge hlen hmoved =>
    rw [hstate] at hkept
    obtain ⟨rfl,_⟩ := WriterState.singleBlock.inj hkept
    have hlast := (MovedTo.written hopen hflat hlen hmoved).2.2
    obtain ⟨_,_,_,_,_,_,_,rfl⟩ := hmoved
    exact .inr ⟨rfl,hlast⟩
  | appended hmultiple hlen hwrite ht =>
    rw [hstate] at hmultiple
    cases hmultiple

/-- When the fork is forced in time the pieces in it are the blocks. -/
theorem timely_pieces {build : Build} {kind : Kind} {n : ℕ} {fresh : σ}
    {calls : List Call} {w t : Writer σ} {u : Unit} (hempty : view fresh=.empty)
    (hn : 1≤numBlocks n) (hcount : (added calls).length=numBlocks n) (hforced : Call.force∈calls)
    (htimely : Timely n calls) (hnew : Writer.new kind n (.ok fresh)=.ok w)
    (hrun : runCalls build calls w=.ok u t) :
    t.isSingle=false ∧ Written t (added calls) (added calls) := by
  obtain ⟨_,_,hw⟩ := new_written (opens_empty hempty) hnew
  by_cases hmany : 1<numBlocks n
  · obtain ⟨_,_,more,ht,hpieces⟩ := hw.run hrun
    obtain ⟨rfl,hlast⟩ := hpieces (new_isSingle hmany hnew)
    exact ⟨hlast,ht⟩
  · have hfirst := htimely.resolve_left hmany
    cases calls with
    | nil => cases hforced
    | cons call rest =>
      cases call with
      | force => exact absurd rfl hfirst
      | add block =>
        change (added rest).length+1=numBlocks n at hcount
        have hrest : added rest=[] := List.length_eq_zero_iff.mp (by omega)
        have hne : rest≠[] := by
          rintro rfl
          cases List.mem_singleton.mp hforced
        have hadded : added (.add block::rest)=[block] := congrArg (block::·) hrest
        rw [hadded]
        obtain ⟨_,r,hone,hlater⟩ := bind_ok_iff.mp hrun
        rcases first_written (new_single hmany hnew) hw (Call.step hone) with
          ⟨hsingle,hr⟩|⟨hopened,hr⟩
        · have hlast := forces_written hr hsingle hrest hne hlater
          rw [List.flatten_singleton] at hlast
          exact hlast
        · obtain ⟨_,_,more,ht,hpieces⟩ := hr.run hlater
          obtain ⟨rfl,hlast⟩ := hpieces hopened
          rw [hrest] at ht
          exact ⟨hlast,ht⟩

omit [WriteSeek σ] [LawfulWriteSeek σ] in
/-- A fork within 32 bits has few and short blocks. -/
theorem small_of_fits {kind : Kind} {blocks : List (List UInt8)}
    (hfit : (layout kind blocks).length≤u32Max) :
    blocks.length<u32Max ∧ headerSize kind blocks.length+blocks.flatten.length≤u32Max ∧
      ∀ b∈blocks, b.length≤u32Max := by
  rw [layout_length] at hfit
  have hheader : blocks.length+1≤headerSize kind blocks.length := by
    cases kind with
    | zlib =>
      change _≤0x108+blocks.length*8
      omega
    | lzvn =>
      change _≤(blocks.length+1)*4
      omega
    | lzfse =>
      change _≤(blocks.length+1)*4
      omega
  refine ⟨by omega,by omega,fun b hb => ?_⟩
  have hle : b.length≤blocks.flatten.length := by
    rw [List.length_flatten]
    exact List.single_le_sum (fun _ _ => Nat.zero_le _) _ (List.mem_map_of_mem hb)
  omega

/-- When the fork is forced in time and fits 32 bits the file is written, in its fork. -/
theorem timely_returns (hσ : Reliable σ) {build : Build} {kind : Kind} {n : ℕ} {fresh : σ}
    {calls : List Call} (hempty : view fresh=.empty) (hn : 1≤numBlocks n)
    (hcount : (added calls).length=numBlocks n) (hforced : Call.force∈calls)
    (htimely : Timely n calls) (hfit : (layout kind (added calls)).length≤u32Max) :
    ∃ last, writeCalls build kind n (.ok fresh) calls=
        .ok (Value.toBytes ⟨.new kind .resourceFork,n,[]⟩) (some last) ∧
      stored last=layout kind (added calls) := by
  obtain ⟨hfew,hdata,hlen⟩ := small_of_fits hfit
  rw [hcount] at hfew
  obtain ⟨w,hnew,_,_,hroom⟩ := @new_returns σ _ _ hσ kind n fresh hfew
  rw [←hcount] at hroom
  obtain ⟨t,hrun⟩ := @runCalls_returns σ _ _ hσ build w calls hroom hlen
  obtain ⟨hsingle,ht⟩ := timely_pieces hempty hn hcount hforced htimely hnew hrun
  obtain ⟨rfl,rfl,hw⟩ := new_written (opens_empty hempty) hnew
  obtain ⟨hkind,hsize,_⟩ := hw.run hrun
  obtain ⟨value,last,hfinish⟩ := @Written.finish_returns σ _ _ hσ build t _ _ ht hsingle
    (by rw [hsize]; exact hcount) (by rw [hkind]; exact hdata)
  obtain ⟨_,_,hstored,_,hvalue⟩ := ht.finish hfinish
  rw [hkind,hsize] at hvalue
  rw [hkind] at hstored
  rw [hvalue] at hfinish
  exact ⟨last,fillCalls_ok_iff.mpr ⟨w,t,hnew,hrun,hfinish⟩,hstored⟩

omit [LawfulWriteSeek σ] in
/-- A writer that keeps a block finishes with that block in the attribute. -/
theorem finish_kept {build : Build} {w : Writer σ} {opener : Except Fault σ} {kept : List UInt8}
    (hstate : w.state=.singleBlock opener kept) (hkept : kept≠[]) :
    finishDecmpfsData build w=
      .ok (Value.toBytes ⟨.new w.kind .xattr,w.uncompressedSize,kept⟩) none := by
  have hassert : debugAssert build (kept≠[] ∨ w.uncompressedSize=0)
      "assertion failed: !block.is_empty() || self.uncompressed_size == 0" ()=.ok () () :=
    debugAssert_of _ _ (.inl hkept)
  unfold finishDecmpfsData
  rw [hstate]
  dsimp only
  rw [hassert]

/-- Without forced calls the file is written as well. -/
theorem plain_returns (hσ : Reliable σ) {build : Build} {kind : Kind} {n : ℕ} {fresh : σ}
    {blocks : List (List UInt8)} (hempty : view fresh=.empty) (hn : 1≤numBlocks n)
    (hcount : blocks.length=numBlocks n) (hblocks : ∀ b∈blocks, b≠[])
    (hfit : (layout kind blocks).length≤u32Max) :
    ∃ value fork, writeFile build kind n (.ok fresh) blocks=.ok value fork := by
  obtain ⟨hfew,hdata,hlen⟩ := small_of_fits hfit
  have hadded := added_map blocks
  rw [hcount] at hfew hdata
  rw [←writeCalls_add]
  by_cases hmany : 1<numBlocks n
  · obtain ⟨value,last,hwrite⟩ := @writeCalls_returns σ _ _ hσ build kind n fresh
      (blocks.map .add) hempty hmany (by rw [hadded]; exact hcount) (by rw [hadded]; exact hlen)
      hfew (by rw [hadded]; exact hdata)
    exact ⟨value,some last,hwrite⟩
  · obtain ⟨block,rfl⟩ : ∃ block, blocks=[block] := List.length_eq_one_iff.mp (by omega)
    obtain ⟨w,hnew,_,_,hroom⟩ := @new_returns σ _ _ hσ kind n fresh hfew
    rw [←hcount] at hroom
    obtain ⟨t,hrun⟩ := @runCalls_returns σ _ _ hσ build w [.add block] hroom hlen
    obtain ⟨rfl,rfl,hw⟩ := new_written (opens_empty hempty) hnew
    obtain ⟨hkind,hsize,_⟩ := hw.run hrun
    obtain ⟨_,r,hone,hnil⟩ := bind_ok_iff.mp hrun
    obtain ⟨_,rfl⟩ := EStateM.Result.ok.inj hnil
    rcases first_written (new_single hmany hnew) hw (Call.step hone) with ⟨hsingle,ht⟩|⟨hopened,ht⟩
    · unfold Written at ht
      unfold Writer.isSingle at hsingle
      cases hstate : r.state with
      | empty dropped =>
        rw [hstate] at ht
        exact ht.elim
      | multipleBlocks sizes fork =>
        rw [hstate] at hsingle
        cases hsingle
      | singleBlock opener kept =>
        rw [hstate] at ht
        have hkept : kept≠[] := by
          rw [ht.2.1,List.flatten_singleton]
          exact hblocks block List.mem_cons_self
        exact ⟨_,none,fillCalls_ok_iff.mpr ⟨w,r,hnew,hrun,finish_kept hstate hkept⟩⟩
    · obtain ⟨value,last,hfinish⟩ := @Written.finish_returns σ _ _ hσ build r _ _ ht hopened
        (by rw [hsize]; exact hcount) (by rw [hkind,hcount]; exact hdata)
      exact ⟨value,some last,fillCalls_ok_iff.mpr ⟨w,r,hnew,hrun,hfinish⟩⟩

/-- A finished fork that can be read stays within 32 bits. -/
theorem read_length {build : Build} {kind : Kind} {n : ℕ} {blocks : List (List UInt8)} {r : Reader}
    (hn : n<2^64) (hfit : headerSize kind blocks.length+blocks.flatten.length≤u32Max)
    (h : Reader.new build (Value.toBytes ⟨.new kind .resourceFork,n,[]⟩)
      (.ok ⟨layout kind blocks,0⟩)=.ok r) : (layout kind blocks).length≤u32Max := by
  cases kind with
  | zlib =>
    have hvalue := Value.fromData_toBytes ⟨.new .zlib .resourceFork,n,[]⟩
      (CompressionType.new_lt _ _) hn
    obtain ⟨infos,after,hread,_⟩ := new_resourceFork_ok hvalue rfl h
    exact zlib_read_length hread
  | lzvn =>
    rw [layout_length]
    exact hfit
  | lzfse =>
    rw [layout_length]
    exact hfit

/-- For every format, file, list of blocks and way of inserting forced calls, on a sink that does
not fail: forcing is transparent exactly when it does not come before the only block of the
file and the fork fits 32 bits. -/
theorem forced_transparent_iff (hσ : Reliable σ) {build readBuild : Build} {kind : Kind} {n : ℕ}
    {fresh : σ} {calls : List Call} (hempty : view fresh=.empty) (hsize : n<2^64)
    (hn : 1≤numBlocks n) (hcount : (added calls).length=numBlocks n)
    (hblocks : ∀ b∈added calls, b≠[]) (hforced : Call.force∈calls) :
    Transparent build readBuild kind n fresh calls ↔
      Timely n calls ∧ (layout kind (added calls)).length≤u32Max := by
  constructor
  · rintro ⟨⟨value,last,hwrite,rfl,r,hopen,_⟩,_⟩
    constructor
    · by_contra huntimely
      obtain ⟨hone,hearly⟩ := not_or.mp huntimely
      exact not_finished_of_early hempty (by omega) hcount (not_not.mp hearly) hwrite
    · obtain ⟨w,t,hnew,hrun,hfinish⟩ := fillCalls_ok_iff.mp hwrite
      obtain ⟨rfl,rfl,hw⟩ := new_written (opens_empty hempty) hnew
      obtain ⟨hkind,hsame,pieces,ht,_⟩ := hw.run hrun
      obtain ⟨hall,hflat,hstored,hfit,_⟩ := ht.finish hfinish
      rw [hkind] at hstored hfit
      rw [hsame,←hcount] at hall
      rw [List.nil_append] at hall hflat hstored hfit
      rw [hstored] at hopen
      rw [←layout_length_eq hall hflat]
      exact read_length hsize hfit hopen
  · rintro ⟨htimely,hfit⟩
    obtain ⟨last,hwrite,hstored⟩ := @timely_returns σ _ _ hσ build kind n fresh calls hempty hn
      hcount hforced htimely hfit
    obtain ⟨value,fork,hplain⟩ := @plain_returns σ _ _ hσ build kind n fresh (added calls) hempty hn
      hcount hblocks hfit
    refine ⟨⟨_,last,hwrite,rfl,?_⟩,value,fork,hplain,fun opened hopened => ?_⟩
    · rw [hstored]
      exact new_fork_delivers hsize hcount hfit
    · have hout := writeFile_outcome (opens_empty hempty) hplain
      rw [countedBlocks_of_ne hblocks] at hout
      refine outcome_delivers hsize hcount hblocks hout fun bytes hbytes => ?_
      obtain ⟨finished,hfork,rfl⟩ := Option.map_eq_some_iff.mp hbytes
      refine ⟨?_,hopened finished hfork⟩
      rw [outcome_fork hout hbytes]
      exact hfit

end Condition

/-- Forcing after the only block of a small file is transparent. -/
theorem late_force_transparent :
    Transparent .debug .release .zlib 1 Cursor.empty [.add [7],.force] :=
  (forced_transparent_iff reliable_cursor rfl (by decide) (by decide) rfl (by decide)
    (by decide)).mpr ⟨.inr (by decide),by rw [layout_length]; decide⟩

/-- Forcing before the only block of a small file is not. -/
theorem early_force_fails :
    ¬∀ (build readBuild : Build) (kind : Kind) (n : ℕ) (calls : List Call), n<2^64 →
      1≤numBlocks n → (added calls).length=numBlocks n → (∀ b∈added calls, b≠[]) →
      Call.force∈calls → Transparent build readBuild kind n Cursor.empty calls := by
  intro hall
  obtain ⟨⟨value,last,hwrite,_⟩,_⟩ := hall .release .release .lzvn 1 [.force,.add [7]] (by decide)
    (by decide) rfl (by decide) (by decide)
  have hfailed : writeCalls .release .lzvn 1 (.ok Cursor.empty) [.force,.add [7]]=
      .error (.error (.new .invalidInput "Wrong number of blocks"))
        (some ⟨[0,0,0,0,0,0,0,0,7],9⟩) := rfl
  rw [hfailed] at hwrite
  cases hwrite

end Applesauce.ForcedForks
