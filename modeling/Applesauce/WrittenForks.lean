import Applesauce.WriterCalls
import Applesauce.ReliableSinks

/-!
# What the fork of a writer holds after any calls

Blocks reach the fork in the order in which they were added, each as one
piece of its own; forcing an empty writer adds an empty piece. On a sink that
does not fail every call returns, as long as a writer for one block gets no
second one.
-/

namespace Applesauce.WrittenForks

open RustIo SeekableFile DecmpfsValue BlockTables DecmpfsWriter WriterCalls LawfulWriteSeek
open ReliableSinks

section Contents
variable {σ : Type} [WriteSeek σ] [LawfulWriteSeek σ]

/-- The writer has been given these blocks and has put these pieces into its fork. -/
def Written (w : Writer σ) (blocks pieces : List (List UInt8)) : Prop :=
  match w.state with
  | .empty _ => False
  | .singleBlock opener kept => pieces=[] ∧ kept=blocks.flatten ∧ kept.length≤ maxXattrDataSize ∧
      ∀ fork, opener=.ok fork → view fork=.empty
  | .multipleBlocks blockSizes fork => blockSizes=pieces.map List.length ∧
      pieces.flatten=blocks.flatten ∧
      view fork=(⟨[],blocksStart w⟩ : Cursor).write pieces.flatten

/-- A new writer has been given nothing. -/
theorem new_written {kind : Kind} {n : ℕ} {opener : Except Fault σ} {w : Writer σ}
    (hopen : ∀ fork, opener=.ok fork → view fork=.empty) (h : Writer.new kind n opener=.ok w) :
    w.kind=kind ∧ w.uncompressedSize=n ∧ Written w [] [] := by
  obtain ⟨hkind,hsize,hholds⟩ := new_holds hopen h
  refine ⟨hkind,hsize,?_⟩
  unfold Holds at hholds
  unfold Written
  cases hstate : w.state with
  | empty dropped =>
    rw [hstate] at hholds
    exact hholds
  | singleBlock opener kept =>
    rw [hstate] at hholds
    exact ⟨rfl,hholds.2⟩
  | multipleBlocks sizes fork =>
    rw [hstate] at hholds
    exact ⟨hholds.2.1,rfl,hholds.2.2⟩

/-- A block moved to a fresh fork is its only piece. -/
theorem MovedTo.written {w t : Writer σ} {opener : Except Fault σ} {block : List UInt8}
    {blocks : List (List UInt8)} (hopen : ∀ fork, opener=.ok fork → view fork=.empty)
    (hflat : block=blocks.flatten) (hlen : block.length≤u32Max) (h : MovedTo w t opener block) :
    t.kind=w.kind ∧ t.uncompressedSize=w.uncompressedSize ∧ Written t blocks [block] := by
  obtain ⟨fork,mid,last,pos,hfork,hseek,hwrite,rfl⟩ := h
  refine ⟨rfl,rfl,?_,?_,?_⟩
  · rw [length_mod hlen]
    rfl
  · rw [List.flatten_singleton,hflat]
  · rw [writeAll_view hwrite,seek_start_view hseek,hopen fork hfork,List.flatten_singleton]
    rfl

/-- One more call; on an open fork the pieces are the blocks. -/
theorem Written.step {w t : Writer σ} {blocks pieces : List (List UInt8)} {call : Call}
    (hw : Written w blocks pieces) (h : Step w t call) :
    t.kind=w.kind ∧ t.uncompressedSize=w.uncompressedSize ∧
      ∃ more, Written t (blocks++added [call]) (pieces++more) ∧
        (w.isSingle=false → more=added [call] ∧ t.isSingle=false) := by
  have hxattr : maxXattrDataSize≤u32Max := by decide
  unfold Written at hw
  unfold Writer.isSingle
  cases h with
  | @kept opener block hstate hsmall ht =>
    rw [hstate] at hw
    obtain ⟨rfl,hkept,_,hopen⟩ := hw
    subst ht
    refine ⟨rfl,rfl,[],⟨rfl,?_,hsmall,hopen⟩,fun hsingle => ?_⟩
    · rw [List.flatten_append,←hkept]
      exact List.flatten_singleton.symm
    · rw [hstate] at hsingle
      cases hsingle
  | @opened opener block hstate hlarge hlen hmoved =>
    rw [hstate] at hw
    obtain ⟨rfl,hkept,_,hopen⟩ := hw
    have hflat : block=(blocks++[block]).flatten := by
      rw [List.flatten_append,←hkept,List.flatten_singleton]
      rfl
    obtain ⟨hkind,hsize,hlast⟩ := MovedTo.written hopen hflat hlen hmoved
    refine ⟨hkind,hsize,[block],hlast,fun hsingle => ?_⟩
    rw [hstate] at hsingle
    cases hsingle
  | @appended sizes fork after block hstate hlen hwrite ht =>
    rw [hstate] at hw
    obtain ⟨hsizes,hflat,hview⟩ := hw
    subst ht
    refine ⟨rfl,rfl,[block],⟨?_,?_,?_⟩,fun _ => ⟨rfl,rfl⟩⟩
    · rw [hsizes,List.map_append]
      rfl
    · rw [List.flatten_append,List.flatten_append,hflat]
      rfl
    · rw [writeAll_view hwrite,hview,Cursor.write_append,List.flatten_append,List.flatten_singleton]
      rfl
  | @moved opener block hstate hmoved =>
    rw [hstate] at hw
    obtain ⟨rfl,hkept,hsmall,hopen⟩ := hw
    have hlast := MovedTo.written hopen hkept (hsmall.trans hxattr) hmoved
    refine ⟨hlast.1,hlast.2.1,[block],?_,fun hsingle => ?_⟩
    · rw [show added [Call.force]=[] from rfl,List.append_nil]
      exact hlast.2.2
    · rw [hstate] at hsingle
      cases hsingle
  | unchanged hstate ht =>
    subst ht
    refine ⟨rfl,rfl,[],?_,fun _ => ⟨rfl,?_⟩⟩
    · rw [show added [Call.force]=[] from rfl,List.append_nil,List.append_nil]
      unfold Written
      rw [hstate] at hw ⊢
      exact hw
    · rw [hstate]

/-- Any calls; on an open fork the pieces are the blocks. -/
theorem Written.run {build : Build} {w t : Writer σ} {blocks pieces : List (List UInt8)}
    {calls : List Call} {u : Unit} (hw : Written w blocks pieces)
    (h : runCalls build calls w=.ok u t) :
    t.kind=w.kind ∧ t.uncompressedSize=w.uncompressedSize ∧
      ∃ more, Written t (blocks++added calls) (pieces++more) ∧
        (w.isSingle=false → more=added calls ∧ t.isSingle=false) := by
  induction calls generalizing w blocks pieces with
  | nil =>
    obtain ⟨_,rfl⟩ := EStateM.Result.ok.inj h
    refine ⟨rfl,rfl,[],?_,fun hsingle => ⟨rfl,hsingle⟩⟩
    rw [show added []=[] from rfl,List.append_nil,List.append_nil]
    exact hw
  | cons call calls ih =>
    obtain ⟨_,r,hone,hrest⟩ := bind_ok_iff.mp h
    obtain ⟨hkind,hsize,more,hr,hfirst⟩ := hw.step (Call.step hone)
    obtain ⟨hkind',hsize',last,ht,hlater⟩ := ih hr hrest
    have hsplit : added (call::calls)=added [call]++added calls := added_append [call] calls
    refine ⟨hkind'.trans hkind,hsize'.trans hsize,more++last,?_,fun hsingle => ?_⟩
    · rw [hsplit,←List.append_assoc,←List.append_assoc]
      exact ht
    · obtain ⟨rfl,hopen⟩ := hfirst hsingle
      obtain ⟨rfl,hlast⟩ := hlater hopen
      exact ⟨hsplit.symm,hlast⟩

/-- Finishing returns a fork only when it holds one piece for each block of the file; it
is then the layout of the pieces. -/
theorem Written.finish {build : Build} {w : Writer σ} {blocks pieces : List (List UInt8)}
    {value : List UInt8} {last : σ} (hw : Written w blocks pieces)
    (h : finishDecmpfsData build w=.ok value (some last)) :
    pieces.length=numBlocks w.uncompressedSize ∧ pieces.flatten=blocks.flatten ∧
      stored last=layout w.kind pieces ∧
      headerSize w.kind pieces.length+pieces.flatten.length≤u32Max ∧
      value=Value.toBytes ⟨.new w.kind .resourceFork,w.uncompressedSize,[]⟩ := by
  unfold finishDecmpfsData at h
  unfold Written at hw
  cases hstate : w.state with
  | empty dropped =>
    rw [hstate] at hw
    exact hw.elim
  | singleBlock opener kept =>
    rw [hstate] at h
    dsimp only at h
    cases hassert : debugAssert build (kept≠[] ∨ w.uncompressedSize=0)
        "assertion failed: !block.is_empty() || self.uncompressed_size == 0" () with
    | error fault after =>
      rw [hassert] at h
      cases h
    | ok _ _ =>
      rw [hassert] at h
      cases h
  | multipleBlocks blockSizes fork =>
    rw [hstate] at h hw
    obtain ⟨hsizes,hflat,hview⟩ := hw
    dsimp only at h
    by_cases hall : blockSizes.length=numBlocks w.uncompressedSize
    · rw [if_pos hall] at h
      cases hfinish : DecmpfsWriter.finish build w.kind blockSizes fork with
      | error fault after =>
        rw [hfinish] at h
        cases h
      | ok _ after =>
        rw [hfinish] at h
        obtain ⟨hvalue,hafter⟩ := EStateM.Result.ok.inj h
        obtain rfl := Option.some.inj hafter
        have hcount : pieces.length=numBlocks w.uncompressedSize := by
          rw [←hall,hsizes,List.length_map]
        rw [hsizes] at hfinish
        unfold blocksStart at hview
        rw [←hcount] at hview
        obtain ⟨hlayout,hfit⟩ := finish_layout hview hfinish
        exact ⟨hcount,hflat,hlayout,hfit,hvalue.symm⟩
    · rw [if_neg hall] at h
      cases h

end Contents

section Returning
variable {σ : Type} [WriteSeek σ] [LawfulWriteSeek σ]

/-- The writer takes so many more blocks: its fork can be opened, a writer for one block
gets no second one, and the sizes still fit a table. -/
def Room (w : Writer σ) (count : ℕ) : Prop :=
  match w.state with
  | .empty _ => False
  | .singleBlock opener kept => (∃ fork, opener=.ok fork) ∧ (kept=[] ∧ count≤1 ∨ count=0)
  | .multipleBlocks blockSizes _ => blockSizes.length+count<u32Max

variable (hσ : Reliable σ)
include hσ

/-- Moving a block to a fork that can be opened does not fail. -/
theorem not_moveFails {w : Writer σ} {fork : σ} {block : List UInt8} {fault : Fault} :
    ¬MoveFails w (.ok fork) block fault := by
  obtain ⟨mid,hseek⟩ := hσ.seeks (.start (blocksStart w)) fork (blocksStart w) _ (Cursor.seek_start _ _)
  rintro (hopen|⟨other,hopen,⟨after,hbad⟩|⟨reached,pos,after,hreached,hbad⟩⟩)
  · cases hopen
  · obtain rfl := Except.ok.inj hopen
    rw [hseek] at hbad
    cases hbad
  · obtain ⟨last,hwrite⟩ := hσ.writes block reached
    rw [hwrite] at hbad
    cases hbad

/-- Moving a block to a fork that can be opened returns. -/
theorem move_returns {build : Build} {w : Writer σ} {fork : σ}
    (hstate : w.state=.singleBlock (.ok fork) []) (block : List UInt8) {count : ℕ} (hcount : count≤1) :
    ∃ t, writeSingleBlockAsRfork build block w=.ok () t ∧ Room t count := by
  rcases writeSingleBlockAsRfork_cases hstate block with ⟨t,hok,_,_,last,_,_,_,_,ht⟩|⟨_,_,_,hfails⟩
  · refine ⟨t,hok,?_⟩
    have htwo : 2<u32Max := by decide
    rw [ht]
    change 1+count<u32Max
    omega
  · exact absurd hfails (not_moveFails hσ)

/-- A call returns where there is room for it. -/
theorem Call.returns {build : Build} {w : Writer σ} {call : Call} {count : ℕ}
    (hroom : Room w ((added [call]).length+count)) (hlen : ∀ b∈added [call], b.length≤u32Max) :
    ∃ t, call.run build w=.ok () t ∧ Room t count := by
  unfold Room at hroom
  cases hstate : w.state with
  | empty dropped =>
    rw [hstate] at hroom
    exact hroom.elim
  | singleBlock opener kept =>
    rw [hstate] at hroom
    obtain ⟨⟨fork,rfl⟩,hmany⟩ := hroom
    cases call with
    | add block =>
      have hone : kept=[] ∧ count=0 := by
        rcases hmany with ⟨hkept,hle⟩|hzero
        · exact ⟨hkept,by change 1+count≤1 at hle; omega⟩
        · change 1+count=0 at hzero
          omega
      obtain ⟨rfl,rfl⟩ := hone
      have hrun := @addBlock_single σ _ build w _ _ block hstate (hlen block List.mem_cons_self)
      rw [if_neg (not_not.mpr rfl)] at hrun
      by_cases hlarge : maxXattrDataSize<block.length
      · rw [if_pos hlarge] at hrun
        obtain ⟨t,ht,hroom⟩ := @move_returns σ _ _ hσ build _ _ hstate block 0 (Nat.zero_le 1)
        exact ⟨t,hrun.trans ht,hroom⟩
      · rw [if_neg hlarge] at hrun
        exact ⟨_,hrun,⟨fork,rfl⟩,.inr rfl⟩
    | force =>
      have hcount : count≤1 := by
        rcases hmany with ⟨_,hle⟩|hzero
        · change 0+count≤1 at hle
          omega
        · change 0+count=0 at hzero
          omega
      have hempty : ({w with state := .singleBlock (.ok fork) []} : Writer σ).state=
          .singleBlock (.ok fork) [] := rfl
      obtain ⟨t,ht,hroom⟩ := @move_returns σ _ _ hσ build _ _ hempty kept count hcount
      exact ⟨t,(forceResourceFork_single hstate).trans ht,hroom⟩
  | multipleBlocks sizes fork =>
    rw [hstate] at hroom
    cases call with
    | add block =>
      change sizes.length+(1+count)<u32Max at hroom
      obtain ⟨after,hwrite⟩ := hσ.writes block fork
      have hrun := @addBlock_multiple σ _ build w _ _ block hstate (hlen block List.mem_cons_self)
      rw [if_neg (by omega),hwrite] at hrun
      refine ⟨_,hrun,?_⟩
      change (sizes++[block.length%2^32]).length+count<u32Max
      rw [List.length_append,List.length_singleton]
      omega
    | force =>
      change sizes.length+(0+count)<u32Max at hroom
      refine ⟨w,?_,?_⟩
      · change forceResourceFork build w=_
        unfold forceResourceFork
        rw [hstate]
      · unfold Room
        rw [hstate]
        change sizes.length+count<u32Max
        omega

/-- Calls return where there is room for the blocks they add. -/
theorem runCalls_returns {build : Build} {w : Writer σ} {calls : List Call}
    (hroom : Room w (added calls).length) (hlen : ∀ b∈added calls, b.length≤u32Max) :
    ∃ t, runCalls build calls w=.ok () t := by
  induction calls generalizing w with
  | nil => exact ⟨w,rfl⟩
  | cons call calls ih =>
    have hsplit : added (call::calls)=added [call]++added calls := added_append [call] calls
    rw [hsplit] at hroom hlen
    rw [List.length_append] at hroom
    obtain ⟨r,hone,hr⟩ := @Call.returns σ _ _ hσ build _ _ _ hroom
      (fun b hb => hlen b (List.mem_append_left _ hb))
    obtain ⟨t,hrest⟩ := ih hr (fun b hb => hlen b (List.mem_append_right _ hb))
    exact ⟨t,(bind_of_ok hone).trans hrest⟩

/-- Creating a writer whose fork can be opened returns, with room for the blocks of the file. -/
theorem new_returns {kind : Kind} {n : ℕ} (fresh : σ) (hsmall : numBlocks n<u32Max) :
    ∃ w, Writer.new kind n (.ok fresh)=.ok w ∧ w.kind=kind ∧ w.uncompressedSize=n ∧
      Room w (numBlocks n) := by
  unfold Writer.new
  by_cases hn : 1<numBlocks n
  · obtain ⟨mid,hseek⟩ := hσ.seeks (.start (headerSize kind (numBlocks n))) fresh
      (headerSize kind (numBlocks n)) _ (Cursor.seek_start _ _)
    rw [if_pos hn]
    dsimp only
    rw [hseek]
    refine ⟨_,rfl,rfl,rfl,?_⟩
    change 0+numBlocks n<u32Max
    omega
  · rw [if_neg hn]
    exact ⟨_,rfl,rfl,rfl,⟨fresh,rfl⟩,.inl ⟨rfl,Nat.not_lt.mp hn⟩⟩

/-- Finishing a fork with one piece for each block of the file returns when the data ends
within 32 bits. -/
theorem Written.finish_returns {build : Build} {w : Writer σ} {blocks pieces : List (List UInt8)}
    (hw : Written w blocks pieces) (hmultiple : w.isSingle=false)
    (hcount : pieces.length=numBlocks w.uncompressedSize)
    (hfit : headerSize w.kind pieces.length+pieces.flatten.length≤u32Max) :
    ∃ value last, finishDecmpfsData build w=.ok value (some last) := by
  unfold Written at hw
  unfold Writer.isSingle at hmultiple
  unfold finishDecmpfsData
  cases hstate : w.state with
  | empty dropped =>
    rw [hstate] at hw
    exact hw.elim
  | singleBlock opener kept =>
    rw [hstate] at hmultiple
    cases hmultiple
  | multipleBlocks blockSizes fork =>
    rw [hstate] at hw
    obtain ⟨rfl,_,hview⟩ := hw
    dsimp only
    have hlen : (pieces.map List.length).length=pieces.length := List.length_map _
    have hpos : (view fork).pos=headerSize w.kind (pieces.map List.length).length+
        (pieces.map List.length).sum := by
      rw [hview,hlen,sum_lengths,hcount]
      rfl
    obtain ⟨last,hfinish⟩ := @ReliableSinks.finish_returns σ _ _ hσ build w.kind _ fork hpos (by
      rw [hlen,sum_lengths]
      exact hfit)
    rw [if_pos (hlen.trans hcount),hfinish]
    exact ⟨_,last,rfl⟩

/-- Writing a file of several blocks returns when the data ends within 32 bits. -/
theorem writeCalls_returns {build : Build} {kind : Kind} {n : ℕ} {fresh : σ} {calls : List Call}
    (hempty : view fresh=.empty) (hn : 1<numBlocks n) (hcount : (added calls).length=numBlocks n)
    (hlen : ∀ b∈added calls, b.length≤u32Max) (hsmall : numBlocks n<u32Max)
    (hfit : headerSize kind (numBlocks n)+(added calls).flatten.length≤u32Max) :
    ∃ value last, writeCalls build kind n (.ok fresh) calls=.ok value (some last) := by
  obtain ⟨w,hnew,_,_,hroom⟩ := @new_returns σ _ _ hσ kind n fresh hsmall
  have hopen : ∀ fork, (Except.ok fresh : Except Fault σ)=.ok fork → view fork=.empty := by
    rintro fork hfork
    obtain rfl := Except.ok.inj hfork
    exact hempty
  obtain ⟨rfl,rfl,hw⟩ := new_written hopen hnew
  rw [←hcount] at hroom
  obtain ⟨t,hrun⟩ := @runCalls_returns σ _ _ hσ build w calls hroom hlen
  obtain ⟨hkind,hsize,more,ht,hopened⟩ := hw.run hrun
  obtain ⟨rfl,hmultiple⟩ := hopened (new_isSingle hn hnew)
  rw [List.nil_append] at ht
  obtain ⟨value,last,hfinish⟩ := @Written.finish_returns σ _ _ hσ build t _ _ ht hmultiple (by
    rw [hsize]
    exact hcount) (by
    rw [hkind,hcount]
    exact hfit)
  exact ⟨value,last,fillCalls_ok_iff.mpr ⟨w,t,hnew,hrun,hfinish⟩⟩

end Returning

end Applesauce.WrittenForks
