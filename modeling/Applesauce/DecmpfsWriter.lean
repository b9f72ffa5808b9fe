import Applesauce.BlockTables

/-!
# The decmpfs writer

A writer starts either with an open resource fork (several blocks) or with
a fork it can still open (at most one block, perhaps small enough for the
attribute). Every operation is translated with the state it leaves behind,
on success and on failure. When all calls succeed, the outcome is either
the inline form or one fixed layout of the fork.
-/

namespace Applesauce.DecmpfsWriter

open RustIo SparseFile SeekableFile DecmpfsValue BlockTables LawfulWriteSeek

/-- `Kind::header_size`. -/
def headerSize : Kind→ℕ→ℕ
  | .zlib,blockCount => Zlib.headerSize blockCount
  | .lzvn,blockCount => Lz.headerSize blockCount
  | .lzfse,blockCount => Lz.headerSize blockCount

/-- Bytes a format adds behind the blocks. -/
def trailerSize : Kind→ℕ
  | .zlib => Zlib.trailerSize
  | .lzvn => 0
  | .lzfse => 0

/-- `Kind::finish`. -/
def finish {σ : Type} [WriteSeek σ] (build : Build) (kind : Kind) (blockSizes : List ℕ) : Io σ Unit :=
  match kind with
  | .zlib => Zlib.finish build blockSizes
  | .lzvn => Lz.finish build blockSizes
  | .lzfse => Lz.finish build blockSizes

/-- The whole fork of a format around its blocks. -/
def layout (kind : Kind) (blocks : List (List UInt8)) : List UInt8 :=
  match kind with
  | .zlib => Zlib.layout (blocks.map List.length) blocks.flatten
  | .lzvn => Lz.layout (blocks.map List.length) blocks.flatten
  | .lzfse => Lz.layout (blocks.map List.length) blocks.flatten

/-- The state of a writer. -/
inductive WriterState (σ : Type) where
  /-- A transition state within one call; when the call fails it stays, and the
  fork opened meanwhile has been dropped. -/
  | empty (dropped : Option σ)
  /-- At most one block so far, kept for the attribute; the fork can still be opened. -/
  | singleBlock (opener : Except Fault σ) (block : List UInt8)
  /-- The blocks go to an open fork; their sizes are recorded for the table. -/
  | multipleBlocks (blockSizes : List ℕ) (resourceFork : σ)

/-- A writer for one file. -/
structure Writer (σ : Type) where
  /-- The compression format. -/
  kind : Kind
  /-- The size of the file before compression. -/
  uncompressedSize : ℕ
  /-- The current state. -/
  state : WriterState σ

/-- The fork of a writer, or what was left of it when a call failed. -/
def Writer.fork {σ : Type} (w : Writer σ) : Option σ :=
  match w.state with
  | .empty dropped => dropped
  | .singleBlock _ _ => none
  | .multipleBlocks _ fork => some fork

/-- Whether a writer still keeps its only block for the attribute. -/
def Writer.isSingle {σ : Type} (w : Writer σ) : Bool :=
  match w.state with
  | .singleBlock _ _ => true
  | _ => false

section Operations
variable {σ : Type} [WriteSeek σ]

/-- The text of `unreachable!()`. -/
def unreachableText : String := "internal error: entered unreachable code"

/-- `Writer::new`. -/
def Writer.new (kind : Kind) (uncompressedSize : ℕ) (opener : Except Fault σ) :
    Except Fault (Writer σ) :=
  if 1<numBlocks uncompressedSize then
    match opener with
    | .error fault => .error fault
    | .ok fork =>
      match WriteSeek.seek (.start (headerSize kind (numBlocks uncompressedSize))) fork with
      | .error fault _ => .error fault
      | .ok _ fork => .ok ⟨kind,uncompressedSize,.multipleBlocks [] fork⟩
  else .ok ⟨kind,uncompressedSize,.singleBlock opener []⟩

/-- `Writer::write_single_block_as_rfork`: the state is `empty` from the
replacement on, until the block has been written. -/
def writeSingleBlockAsRfork (build : Build) (newBlock : List UInt8) : Io (Writer σ) Unit := fun w =>
  match w.state with
  | .singleBlock opener block =>
    match debugAssert build (block=[]) "assertion failed: block.is_empty()" () with
    | .error fault _ => .error fault {w with state := .empty none}
    | .ok _ _ =>
      match opener with
      | .error fault => .error fault {w with state := .empty none}
      | .ok fork =>
        match WriteSeek.seek (.start (headerSize w.kind (numBlocks w.uncompressedSize))) fork with
        | .error fault fork => .error fault {w with state := .empty (some fork)}
        | .ok _ fork =>
          match WriteSeek.writeAll newBlock fork with
          | .error fault fork => .error fault {w with state := .empty (some fork)}
          | .ok _ fork =>
            .ok () {w with state := .multipleBlocks [newBlock.length%2^32] fork}
  | _ => .error (.panic unreachableText) {w with state := .empty none}

/-- `Writer::add_block`: a size is recorded before its block is written. -/
def addBlock (build : Build) (newBlock : List UInt8) : Io (Writer σ) Unit := fun w =>
  if newBlock.length≤u32Max then
    match w.state with
    | .singleBlock opener block =>
      if block≠[] then .error (.panic "adding multiple blocks to a single-block writer") w
      else if maxXattrDataSize<newBlock.length then writeSingleBlockAsRfork build newBlock w
      else .ok () {w with state := .singleBlock opener (block++newBlock)}
    | .multipleBlocks blockSizes fork =>
      if u32Max≤blockSizes.length+1 then
        .error (.error (.new .invalidData "too many blocks")) w
      else
        match WriteSeek.writeAll newBlock fork with
        | .error fault fork =>
          .error fault {w with state := .multipleBlocks (blockSizes++[newBlock.length%2^32]) fork}
        | .ok _ fork =>
          .ok () {w with state := .multipleBlocks (blockSizes++[newBlock.length%2^32]) fork}
    | .empty _ => .error (.panic unreachableText) w
  else .error (.panic "assertion failed: new_block.len() as u64 <= u32::MAX as u64") w

/-- `Writer::finish_decmpfs_data`: the attribute value. The state left behind
is the fork as it was dropped, if one was opened. -/
def finishDecmpfsData (build : Build) (w : Writer σ) : EStateM.Result Fault (Option σ) (List UInt8) :=
  match w.state with
  | .singleBlock _ block =>
    match debugAssert build (block≠[] ∨ w.uncompressedSize=0)
        "assertion failed: !block.is_empty() || self.uncompressed_size == 0" () with
    | .error fault _ => .error fault none
    | .ok _ _ => .ok (Value.toBytes ⟨.new w.kind .xattr,w.uncompressedSize,block⟩) none
  | .multipleBlocks blockSizes fork =>
    if blockSizes.length=numBlocks w.uncompressedSize then
      match finish build w.kind blockSizes fork with
      | .error fault fork => .error fault (some fork)
      | .ok _ fork =>
        .ok (Value.toBytes ⟨.new w.kind .resourceFork,w.uncompressedSize,[]⟩) (some fork)
    else .error (.error (.new .invalidInput "Wrong number of blocks")) (some fork)
  | .empty dropped => .error (.panic unreachableText) dropped

/-- `Writer::force_resource_fork`: the kept block is taken out before the
fork is opened. -/
def forceResourceFork (build : Build) : Io (Writer σ) Unit := fun w =>
  match w.state with
  | .multipleBlocks _ _ => .ok () w
  | .singleBlock opener block =>
    writeSingleBlockAsRfork build block {w with state := .singleBlock opener []}
  | .empty _ => .error (.panic ("internal error: entered unreachable code: " ++
      "Just checked that we're not already multiple blocks")) w

/-- The `add_block` calls for a list of blocks, stopping at the first failure. -/
def addBlocks (build : Build) : List (List UInt8)→Io (Writer σ) Unit
  | [] => pure ()
  | block::blocks => do
    addBlock build block
    addBlocks build blocks

/-- What follows `Writer::new`: add every block, then finish. -/
def fillWriter (build : Build) (blocks : List (List UInt8)) :
    Except Fault (Writer σ)→EStateM.Result Fault (Option σ) (List UInt8)
  | .error fault => .error fault none
  | .ok w =>
    match addBlocks build blocks w with
    | .error fault w => .error fault w.fork
    | .ok _ w => finishDecmpfsData build w

/-- A whole file: create the writer, add every block, finish. -/
def writeFile (build : Build) (kind : Kind) (uncompressedSize : ℕ) (opener : Except Fault σ)
    (blocks : List (List UInt8)) : EStateM.Result Fault (Option σ) (List UInt8) :=
  fillWriter build blocks (Writer.new kind uncompressedSize opener)

/-- What creating a writer leaves: for more than one block the fork, moved
behind its header, and otherwise one block that is still empty. -/
theorem new_cases {kind : Kind} {n : ℕ} {opener : Except Fault σ} {w : Writer σ}
    (h : Writer.new kind n opener=.ok w) :
    (1<numBlocks n ∧ ∃ fork pos after, opener=.ok fork ∧
      WriteSeek.seek (.start (headerSize kind (numBlocks n))) fork=.ok pos after ∧
      w=⟨kind,n,.multipleBlocks [] after⟩) ∨
    (¬1<numBlocks n ∧ w=⟨kind,n,.singleBlock opener []⟩) := by
  unfold Writer.new at h
  by_cases hn : 1<numBlocks n
  · rw [if_pos hn] at h
    cases opener with
    | error fault => cases h
    | ok fork =>
      dsimp only at h
      cases hseek : WriteSeek.seek (.start (headerSize kind (numBlocks n))) fork with
      | error fault after =>
        rw [hseek] at h
        cases h
      | ok pos after =>
        rw [hseek] at h
        obtain rfl := Except.ok.inj h
        exact .inl ⟨hn,fork,pos,after,rfl,hseek,rfl⟩
  · rw [if_neg hn] at h
    obtain rfl := Except.ok.inj h
    exact .inr ⟨hn,rfl⟩

/-- A new writer for at most one block has not opened its fork. -/
theorem new_single {kind : Kind} {n : ℕ} {opener : Except Fault σ} {w : Writer σ}
    (hn : ¬1<numBlocks n) (h : Writer.new kind n opener=.ok w) : w.state=.singleBlock opener [] := by
  rcases new_cases h with ⟨hmany,_⟩|⟨_,rfl⟩
  · exact absurd hmany hn
  · rfl

/-- A new writer for several blocks keeps none. -/
theorem new_isSingle {kind : Kind} {n : ℕ} {opener : Except Fault σ} {w : Writer σ}
    (hn : 1<numBlocks n) (h : Writer.new kind n opener=.ok w) : w.isSingle=false := by
  rcases new_cases h with ⟨_,_,_,_,_,_,rfl⟩|⟨hsingle,_⟩
  · rfl
  · exact absurd hn hsingle

end Operations

section Layouts

/-- The blocks' sizes add up to the length of their concatenation. -/
theorem sum_lengths (blocks : List (List UInt8)) :
    (blocks.map List.length).sum=blocks.flatten.length := List.length_flatten.symm

/-- Exact size of a finished fork. -/
theorem layout_length (kind : Kind) (blocks : List (List UInt8)) :
    (layout kind blocks).length=
      headerSize kind blocks.length+blocks.flatten.length+trailerSize kind := by
  cases kind with
  | zlib => simp only [layout,Zlib.layout_length,List.length_map,headerSize,trailerSize]
  | lzvn => simp only [layout,Lz.layout_length,List.length_map,headerSize,trailerSize,Nat.add_zero]
  | lzfse => simp only [layout,Lz.layout_length,List.length_map,headerSize,trailerSize,Nat.add_zero]

variable {σ : Type} [WriteSeek σ] [LawfulWriteSeek σ]

/-- Finishing behind the blocks leaves the layout in the storage; the data
then ends within 32 bits. -/
theorem finish_layout {build : Build} {kind : Kind} {blocks : List (List UInt8)} {s t : σ} {u : Unit}
    (hs : view s=(⟨[],headerSize kind blocks.length⟩ : Cursor).write blocks.flatten)
    (h : finish build kind (blocks.map List.length) s=.ok u t) :
    stored t=layout kind blocks ∧
      headerSize kind blocks.length+blocks.flatten.length≤u32Max := by
  have hlen : (blocks.map List.length).length=blocks.length := List.length_map _
  rw [←hlen] at hs
  have hsum := sum_lengths blocks
  cases kind with
  | zlib =>
    obtain ⟨hl,hfit,_⟩ := Zlib.finish_layout hs h
    rw [hlen] at hfit
    exact ⟨hl,hfit⟩
  | lzvn =>
    obtain ⟨hl,hfit⟩ := Lz.finish_layout hs h
    rw [hlen,hsum] at hfit
    exact ⟨hl,hfit⟩
  | lzfse =>
    obtain ⟨hl,hfit⟩ := Lz.finish_layout hs h
    rw [hlen,hsum] at hfit
    exact ⟨hl,hfit⟩

end Layouts

section Runs
variable {σ : Type} [WriteSeek σ] [LawfulWriteSeek σ]

/-- What a writer holds after some blocks, when every call so far succeeded
and a freshly opened fork is empty. -/
def Holds (w : Writer σ) (blocks : List (List UInt8)) : Prop :=
  match w.state with
  | .empty _ => False
  | .singleBlock opener block =>
    numBlocks w.uncompressedSize≤1 ∧ block=blocks.flatten ∧ block.length≤ maxXattrDataSize ∧
      ∀ fork, opener=.ok fork → view fork=.empty
  | .multipleBlocks blockSizes fork =>
    (1<numBlocks w.uncompressedSize ∨ maxXattrDataSize<blocks.flatten.length) ∧
      blockSizes=blocks.map List.length ∧
      view fork=(⟨[],headerSize w.kind (numBlocks w.uncompressedSize)⟩ : Cursor).write blocks.flatten

/-- A new writer holds no blocks. -/
theorem new_holds {kind : Kind} {n : ℕ} {opener : Except Fault σ} {w : Writer σ}
    (hopen : ∀ fork, opener=.ok fork → view fork=.empty)
    (h : Writer.new kind n opener=.ok w) :
    w.kind=kind ∧ w.uncompressedSize=n ∧ Holds w [] := by
  rcases new_cases h with ⟨hn,fork,pos,after,rfl,hseek,rfl⟩|⟨hn,rfl⟩
  · refine ⟨rfl,rfl,Or.inl hn,rfl,?_⟩
    rw [seek_start_view hseek,hopen fork rfl]
    rfl
  · exact ⟨rfl,rfl,Nat.not_lt.mp hn,rfl,Nat.zero_le _,hopen⟩

/-- Moving a single block to the fork. -/
theorem writeSingleBlockAsRfork_holds {build : Build} {w t : Writer σ} {block : List UInt8} {u : Unit}
    {opener : Except Fault σ} {kept : List UInt8} (hstate : w.state=.singleBlock opener kept)
    (hopen : ∀ fork, opener=.ok fork → view fork=.empty) (hlen : block.length≤u32Max)
    (hbig : maxXattrDataSize<block.length) (h : writeSingleBlockAsRfork build block w=.ok u t) :
    t.kind=w.kind ∧ t.uncompressedSize=w.uncompressedSize ∧ Holds t [block] := by
  unfold writeSingleBlockAsRfork at h
  rw [hstate] at h
  dsimp only at h
  cases hassert : debugAssert build (kept=[]) "assertion failed: block.is_empty()" () with
  | error fault after => rw [hassert] at h; cases h
  | ok _ _ =>
    rw [hassert] at h
    cases opener with
    | error fault => cases h
    | ok fork =>
      dsimp only at h
      cases hseek : WriteSeek.seek (.start (headerSize w.kind (numBlocks w.uncompressedSize))) fork with
      | error fault after => rw [hseek] at h; cases h
      | ok pos after =>
        rw [hseek] at h
        dsimp only at h
        cases hwrite : WriteSeek.writeAll block after with
        | error fault last => rw [hwrite] at h; cases h
        | ok _ last =>
          rw [hwrite] at h
          cases h
          have hmod : block.length%2^32=block.length :=
            Nat.mod_eq_of_lt (by unfold u32Max at hlen; omega)
          refine ⟨rfl,rfl,Or.inr ?_,?_,?_⟩
          · rw [List.flatten_singleton]
            exact hbig
          · rw [hmod]
            rfl
          · rw [writeAll_view hwrite,seek_start_view hseek,hopen fork rfl,List.flatten_singleton]
            rfl

/-- One more block; to a writer that keeps its only block it is the first. -/
theorem addBlock_holds {build : Build} {w t : Writer σ} {blocks : List (List UInt8)}
    {block : List UInt8} {u : Unit} (hw : Holds w blocks)
    (hfirst : w.isSingle=true → blocks=[])
    (h : addBlock build block w=.ok u t) :
    t.kind=w.kind ∧ t.uncompressedSize=w.uncompressedSize ∧ Holds t (blocks++[block]) := by
  unfold addBlock at h
  by_cases hlen : block.length≤u32Max
  · rw [if_pos hlen] at h
    cases hstate : w.state with
    | empty dropped => rw [hstate] at h; cases h
    | singleBlock opener kept =>
      rw [hstate] at h
      unfold Holds at hw
      rw [hstate] at hw
      obtain ⟨hone,hkept,hsmall,hopen⟩ := hw
      have hnil : blocks=[] := hfirst (by rw [Writer.isSingle,hstate])
      subst hnil
      dsimp only at h
      have hk : ¬kept≠[] := by rw [hkept]; simp
      rw [if_neg hk] at h
      by_cases hbig : maxXattrDataSize<block.length
      · rw [if_pos hbig] at h
        exact writeSingleBlockAsRfork_holds hstate hopen hlen hbig h
      · rw [if_neg hbig] at h
        cases h
        refine ⟨rfl,rfl,hone,?_,?_,hopen⟩
        · rw [hkept,List.nil_append,List.flatten_singleton,List.flatten_nil,List.nil_append]
        · rw [hkept,List.flatten_nil,List.nil_append]
          omega
    | multipleBlocks blockSizes fork =>
      rw [hstate] at h
      unfold Holds at hw
      rw [hstate] at hw
      obtain ⟨hfork,hsizes,hview⟩ := hw
      dsimp only at h
      by_cases hmany : u32Max≤blockSizes.length+1
      · rw [if_pos hmany] at h
        cases h
      · rw [if_neg hmany] at h
        cases hwrite : WriteSeek.writeAll block fork with
        | error fault after => rw [hwrite] at h; cases h
        | ok _ after =>
          rw [hwrite] at h
          cases h
          have hmod : block.length%2^32=block.length :=
            Nat.mod_eq_of_lt (by unfold u32Max at hlen; omega)
          have hgrow : blocks.flatten.length≤(blocks++[block]).flatten.length := by
            rw [List.flatten_append,List.length_append]
            exact Nat.le_add_right _ _
          refine ⟨rfl,rfl,hfork.imp_right (fun hbig => hbig.trans_le hgrow),?_,?_⟩
          · rw [hmod,hsizes,List.map_append]
            rfl
          · rw [writeAll_view hwrite,hview,Cursor.write_append,List.flatten_append,
              List.flatten_singleton]
  · rw [if_neg hlen] at h
    cases h

omit [LawfulWriteSeek σ] in
/-- Only a writer that keeps its only block goes on keeping it. -/
theorem addBlock_isSingle {build : Build} {w t : Writer σ} {block : List UInt8} {u : Unit}
    (h : addBlock build block w=.ok u t) (ht : t.isSingle=true) : w.isSingle=true := by
  unfold Writer.isSingle
  cases hstate : w.state with
  | singleBlock opener kept => rfl
  | empty dropped =>
    unfold addBlock at h
    rw [hstate] at h
    by_cases hlen : block.length≤u32Max
    · rw [if_pos hlen] at h
      cases h
    · rw [if_neg hlen] at h
      cases h
  | multipleBlocks blockSizes fork =>
    unfold addBlock at h
    rw [hstate] at h
    by_cases hlen : block.length≤u32Max
    · rw [if_pos hlen] at h
      dsimp only at h
      by_cases hmany : u32Max≤blockSizes.length+1
      · rw [if_pos hmany] at h
        cases h
      · rw [if_neg hmany] at h
        cases hwrite : WriteSeek.writeAll block fork with
        | error fault after => rw [hwrite] at h; cases h
        | ok _ after =>
          rw [hwrite] at h
          cases h
          cases ht
    · rw [if_neg hlen] at h
      cases h

/-- Several blocks, one call after the other; a writer that keeps its only block
gets at most that one. -/
theorem addBlocks_holds {build : Build} {w t : Writer σ} {front blocks : List (List UInt8)}
    {u : Unit} (hw : Holds w front)
    (hfirst : w.isSingle=true → front.length+blocks.length≤1)
    (h : addBlocks build blocks w=.ok u t) :
    t.kind=w.kind ∧ t.uncompressedSize=w.uncompressedSize ∧ Holds t (front++blocks) := by
  induction blocks generalizing w front with
  | nil =>
    cases h
    rw [List.append_nil]
    exact ⟨rfl,rfl,hw⟩
  | cons block blocks ih =>
    obtain ⟨_,r,hone,hrest⟩ := bind_ok_iff.mp h
    rw [List.length_cons] at hfirst
    have hnil : w.isSingle=true → front=[] := fun hsingle =>
      List.length_eq_zero_iff.mp (by have := hfirst hsingle; omega)
    obtain ⟨hk,hn,hr⟩ := addBlock_holds hw hnil hone
    have hnext : r.isSingle=true → (front++[block]).length+blocks.length≤1 := by
      intro hsingle
      have hle := hfirst (addBlock_isSingle hone hsingle)
      rw [List.length_append,List.length_singleton]
      omega
    have hlast := ih hr hnext hrest
    rw [List.append_assoc,hk,hn] at hlast
    exact hlast

/-- A writer of at most one block, while it keeps it, has room for the blocks of its file. -/
theorem Holds.room {w : Writer σ} {front : List (List UInt8)} {count : ℕ} (hw : Holds w front)
    (hcount : front.length+count≤numBlocks w.uncompressedSize) (hsingle : w.isSingle=true) :
    front.length+count≤1 := by
  unfold Holds at hw
  unfold Writer.isSingle at hsingle
  cases hstate : w.state with
  | singleBlock opener kept =>
    rw [hstate] at hw
    exact hcount.trans hw.1
  | empty dropped => rw [hstate] at hsingle; cases hsingle
  | multipleBlocks blockSizes fork => rw [hstate] at hsingle; cases hsingle

/-- The two outcomes of writing a whole file: inline, or one fixed fork. -/
inductive Outcome (kind : Kind) (n : ℕ) (blocks : List (List UInt8)) :
    List UInt8→Option (List UInt8)→Prop where
  /-- The data of at most one block follows the attribute header; no fork is opened. -/
  | inlined (hone : numBlocks n≤1) (hsmall : blocks.flatten.length≤ maxXattrDataSize) :
      Outcome kind n blocks (Value.toBytes ⟨.new kind .xattr,n,blocks.flatten⟩) none
  /-- The fork is the layout of the blocks and the attribute is only a header. -/
  | forked (hfork : 1<numBlocks n ∨ maxXattrDataSize<blocks.flatten.length)
      (hfit : headerSize kind blocks.length+blocks.flatten.length≤u32Max) :
      Outcome kind n blocks (Value.toBytes ⟨.new kind .resourceFork,n,[]⟩)
        (some (layout kind blocks))

/-- The form is decided by the file's size and its blocks alone. -/
theorem Outcome.unique {kind : Kind} {n : ℕ} {blocks : List (List UInt8)} {value value' : List UInt8}
    {fork fork' : Option (List UInt8)} (h : Outcome kind n blocks value fork)
    (h' : Outcome kind n blocks value' fork') : value=value' ∧ fork=fork' := by
  cases h with
  | inlined hone hsmall =>
    cases h' with
    | inlined hone' hsmall' => exact ⟨rfl,rfl⟩
    | forked hfork hfit =>
      rcases hfork with hmany|hbig
      · exact (Nat.not_lt.mpr hone hmany).elim
      · exact (Nat.not_lt.mpr hsmall hbig).elim
  | forked hfork hfit =>
    cases h' with
    | inlined hone hsmall =>
      rcases hfork with hmany|hbig
      · exact (Nat.not_lt.mpr hone hmany).elim
      · exact (Nat.not_lt.mpr hsmall hbig).elim
    | forked hfork' hfit' => exact ⟨rfl,rfl⟩

/-- Finishing a writer that holds some blocks. -/
theorem finishDecmpfsData_outcome {build : Build} {w : Writer σ} {blocks : List (List UInt8)}
    {value : List UInt8} {fork : Option σ} (hw : Holds w blocks)
    (h : finishDecmpfsData build w=.ok value fork) :
    Outcome w.kind w.uncompressedSize blocks value (fork.map stored) := by
  unfold finishDecmpfsData at h
  unfold Holds at hw
  cases hstate : w.state with
  | empty dropped => rw [hstate] at h; cases h
  | singleBlock opener block =>
    rw [hstate] at h hw
    obtain ⟨hone,hblock,hsmall,_⟩ := hw
    dsimp only at h
    cases hassert : debugAssert build (block≠[] ∨ w.uncompressedSize=0)
        "assertion failed: !block.is_empty() || self.uncompressed_size == 0" () with
    | error fault after => rw [hassert] at h; cases h
    | ok _ _ =>
      rw [hassert] at h
      obtain ⟨rfl,rfl⟩ := EStateM.Result.ok.inj h
      rw [hblock] at hsmall ⊢
      exact .inlined hone hsmall
  | multipleBlocks blockSizes after =>
    rw [hstate] at h hw
    obtain ⟨hfork,hsizes,hview⟩ := hw
    dsimp only at h
    by_cases hall : blockSizes.length=numBlocks w.uncompressedSize
    · rw [if_pos hall] at h
      cases hfinish : finish build w.kind blockSizes after with
      | error fault last => rw [hfinish] at h; cases h
      | ok _ last =>
        rw [hfinish] at h
        obtain ⟨rfl,rfl⟩ := EStateM.Result.ok.inj h
        rw [hsizes] at hfinish hall
        rw [List.length_map] at hall
        rw [←hall] at hview
        obtain ⟨hstored,hfit⟩ := finish_layout hview hfinish
        rw [Option.map_some,hstored]
        exact .forked hfork hfit
    · rw [if_neg hall] at h
      cases h

/-- The blocks that count: a writer of at most one block takes no notice of
empty blocks in front of it. -/
def countedBlocks (n : ℕ) (blocks : List (List UInt8)) : List (List UInt8) :=
  if 1<numBlocks n then blocks else blocks.dropWhile List.isEmpty

/-- Blocks that are not empty all count. -/
theorem countedBlocks_of_ne {n : ℕ} {blocks : List (List UInt8)} (h : ∀ block∈blocks, block≠[]) :
    countedBlocks n blocks=blocks := by
  unfold countedBlocks
  by_cases hn : 1<numBlocks n
  · rw [if_pos hn]
  · rw [if_neg hn]
    cases blocks with
    | nil => rfl
    | cons block blocks =>
      refine List.dropWhile_cons_of_neg ?_
      rw [List.isEmpty_iff]
      exact h block List.mem_cons_self

omit [LawfulWriteSeek σ] in
/-- Empty blocks leave an empty writer of at most one block as it is. -/
theorem addBlocks_dropWhile {build : Build} {w : Writer σ} {opener : Except Fault σ}
    (hstate : w.state=.singleBlock opener []) (blocks : List (List UInt8)) :
    addBlocks build blocks w=addBlocks build (blocks.dropWhile List.isEmpty) w := by
  induction blocks with
  | nil => rfl
  | cons block blocks ih =>
    by_cases hempty : block=[]
    · subst hempty
      have hskip : addBlock build [] w=.ok () w := by
        obtain ⟨kind,n,state⟩ := w
        change state=_ at hstate
        rw [hstate]
        rfl
      rw [List.dropWhile_cons_of_pos rfl,←ih]
      exact bind_of_ok hskip
    · rw [List.dropWhile_cons_of_neg (by rw [List.isEmpty_iff]; exact hempty)]

/-- A writer that keeps a block accepts no further one. -/
theorem not_addBlocks_of_kept {build : Build} {w t : Writer σ} {block : List UInt8}
    {blocks : List (List UInt8)} {u : Unit} (hw : Holds w [block]) (hblock : block≠[])
    (hsingle : w.isSingle=true) (h : addBlocks build blocks w=.ok u t) : blocks=[] := by
  cases blocks with
  | nil => rfl
  | cons next blocks =>
    obtain ⟨_,r,hone,_⟩ := bind_ok_iff.mp h
    unfold Writer.isSingle at hsingle
    unfold Holds at hw
    unfold addBlock at hone
    cases hstate : w.state with
    | empty dropped => rw [hstate] at hsingle; cases hsingle
    | multipleBlocks blockSizes fork => rw [hstate] at hsingle; cases hsingle
    | singleBlock opener kept =>
      rw [hstate] at hone hw
      have hkept : kept≠[] := by
        rw [hw.2.1,List.flatten_singleton]
        exact hblock
      by_cases hlen : next.length≤u32Max
      · rw [if_pos hlen] at hone
        dsimp only at hone
        rw [if_pos hkept] at hone
        cases hone
      · rw [if_neg hlen] at hone
        cases hone

/-- A writer that was created and accepted some blocks holds those that count. -/
theorem new_addBlocks_holds {build : Build} {kind : Kind} {n : ℕ} {opener : Except Fault σ}
    {blocks : List (List UInt8)} {w t : Writer σ} {u : Unit}
    (hopen : ∀ fork, opener=.ok fork → view fork=.empty) (hnew : Writer.new kind n opener=.ok w)
    (hadd : addBlocks build blocks w=.ok u t) :
    t.kind=kind ∧ t.uncompressedSize=n ∧ Holds t (countedBlocks n blocks) := by
  obtain ⟨hk,hsize,hw⟩ := new_holds hopen hnew
  unfold countedBlocks
  by_cases hn : 1<numBlocks n
  · rw [if_pos hn]
    have hmany : w.isSingle=true → ([] : List (List UInt8)).length+blocks.length≤1 := by
      intro hsingle
      rw [new_isSingle hn hnew] at hsingle
      cases hsingle
    obtain ⟨hkt,hnt,ht⟩ := addBlocks_holds hw hmany hadd
    exact ⟨hkt.trans hk,hnt.trans hsize,ht⟩
  · rw [if_neg hn]
    rw [addBlocks_dropWhile (new_single hn hnew)] at hadd
    cases hcounted : blocks.dropWhile List.isEmpty with
    | nil =>
      rw [hcounted] at hadd
      cases hadd
      exact ⟨hk,hsize,hw⟩
    | cons block rest =>
      have hblock : block≠[] := by
        have hhead := List.head?_dropWhile_not List.isEmpty blocks
        rw [hcounted] at hhead
        rintro rfl
        cases hhead
      rw [hcounted] at hadd
      obtain ⟨_,r,hone,hrest⟩ := bind_ok_iff.mp hadd
      obtain ⟨hkr,hnr,hr⟩ := addBlock_holds hw (fun _ => rfl) hone
      rw [List.nil_append] at hr
      have hroom : r.isSingle=true → [block].length+rest.length≤1 := by
        intro hsingle
        rw [not_addBlocks_of_kept hr hblock hsingle hrest]
        exact Nat.le_refl 1
      obtain ⟨hkt,hnt,ht⟩ := addBlocks_holds hr hroom hrest
      exact ⟨hkt.trans (hkr.trans hk),hnt.trans (hnr.trans hsize),ht⟩

/-- When every call of a whole file succeeds, the result is one of the two
outcomes, whatever the sink does in between. -/
theorem writeFile_outcome {build : Build} {kind : Kind} {n : ℕ} {opener : Except Fault σ}
    {blocks : List (List UInt8)} {value : List UInt8} {fork : Option σ}
    (hopen : ∀ fork, opener=.ok fork → view fork=.empty)
    (h : writeFile build kind n opener blocks=.ok value fork) :
    Outcome kind n (countedBlocks n blocks) value (fork.map stored) := by
  unfold writeFile at h
  generalize hnew : Writer.new kind n opener=created at h
  cases created with
  | error fault => cases h
  | ok w =>
    unfold fillWriter at h
    dsimp only at h
    generalize hadd : addBlocks build blocks w=added at h
    cases added with
    | error fault after => cases h
    | ok _ t =>
      obtain ⟨rfl,rfl,ht⟩ := new_addBlocks_holds hopen hnew hadd
      exact finishDecmpfsData_outcome ht h

end Runs

end Applesauce.DecmpfsWriter
