import Applesauce.WriterCalls

/-!
# Whether finishing notices a wrong number of blocks

A writer with an open fork compares the number of recorded sizes with the
number of blocks of the file. A writer that keeps its only block compares
nothing in a release build, so a missing block goes through, and a small
surplus one of an empty file too.
-/

namespace Applesauce.BlockCounts

open RustIo SeekableFile DecmpfsValue BlockTables DecmpfsWriter WriterCalls

/-- Finishing in a release build returns only with as many blocks as the file has, and
returns an error otherwise. -/
def CountChecked {σ : Type} [WriteSeek σ] (n : ℕ) (blocks : List (List UInt8)) (w : Writer σ) :
    Prop :=
  (∀ value fork, finishDecmpfsData .release w=.ok value fork → blocks.length=numBlocks n) ∧
    (blocks.length≠numBlocks n → ∃ e fork, finishDecmpfsData .release w=.error (.error e) fork)

/-- The only block of a file is missing, or a file without contents got one block that is
small enough for the attribute. -/
def Escapes (n : ℕ) (blocks : List (List UInt8)) : Prop :=
  (numBlocks n=1 ∧ blocks=[]) ∨ (n=0 ∧ ∃ block, blocks=[block] ∧ block.length≤ maxXattrDataSize)

/-- Only an empty file has no blocks. -/
theorem numBlocks_eq_zero_iff {n : ℕ} : numBlocks n=0 ↔ n=0 := by
  unfold numBlocks blockSize
  omega

section Runs
variable {σ : Type} [WriteSeek σ]

/-- How the state of a writer reflects the blocks added to it, none of them empty. -/
def Tracks (n : ℕ) (w : Writer σ) (blocks : List (List UInt8)) : Prop :=
  match w.state with
  | .empty _ => False
  | .singleBlock _ kept => numBlocks n≤1 ∧ kept=blocks.flatten ∧ blocks.length≤1 ∧
      kept.length≤ maxXattrDataSize
  | .multipleBlocks blockSizes _ => blockSizes.length=blocks.length ∧
      (1<numBlocks n ∨ maxXattrDataSize<blocks.flatten.length)

/-- A new writer reflects that there are no blocks. -/
theorem new_tracks {kind : Kind} {n : ℕ} {opener : Except Fault σ} {w : Writer σ}
    (h : Writer.new kind n opener=.ok w) : w.uncompressedSize=n ∧ Tracks n w [] := by
  rcases new_cases h with ⟨hn,_,_,_,_,_,rfl⟩|⟨hn,rfl⟩
  · exact ⟨rfl,rfl,.inl hn⟩
  · exact ⟨rfl,Nat.not_lt.mp hn,rfl,Nat.zero_le 1,Nat.zero_le _⟩

/-- One more block. -/
theorem Tracks.add {n : ℕ} {w t : Writer σ} {blocks : List (List UInt8)} {block : List UInt8}
    (hw : Tracks n w blocks) (hblocks : ∀ b∈blocks, b≠[]) (hstep : Step w t (.add block)) :
    t.uncompressedSize=w.uncompressedSize ∧ Tracks n t (blocks++[block]) := by
  have hgrow : blocks.flatten.length≤(blocks++[block]).flatten.length := by
    rw [List.flatten_append,List.length_append]
    exact Nat.le_add_right _ _
  have hnone : ([] : List UInt8)=blocks.flatten → blocks=[] := by
    intro hflat
    cases blocks with
    | nil => rfl
    | cons b rest =>
      have hb : b≠[] := hblocks b List.mem_cons_self
      rw [List.flatten_cons] at hflat
      exact absurd (List.append_eq_nil_iff.mp hflat.symm).1 hb
  unfold Tracks at hw
  cases hstep with
  | kept hstate hsmall ht =>
    rw [hstate] at hw
    obtain ⟨hone,hkept,_,_⟩ := hw
    obtain rfl := hnone hkept
    subst ht
    exact ⟨rfl,hone,List.flatten_singleton.symm,Nat.le_refl 1,hsmall⟩
  | opened hstate hlarge hlen hmoved =>
    rw [hstate] at hw
    obtain ⟨_,hkept,_,_⟩ := hw
    obtain rfl := hnone hkept
    obtain ⟨fork,mid,last,pos,_,_,_,rfl⟩ := hmoved
    refine ⟨rfl,rfl,.inr ?_⟩
    rw [List.nil_append,List.flatten_singleton]
    exact hlarge
  | appended hstate hlen hwrite ht =>
    rw [hstate] at hw
    obtain ⟨hcount,hfork⟩ := hw
    subst ht
    refine ⟨rfl,?_,hfork.imp_right hgrow.trans_lt'⟩
    rw [List.length_append,List.length_append,hcount]
    rfl

/-- Several blocks. -/
theorem Tracks.addBlocks {build : Build} {n : ℕ} {w t : Writer σ} {front blocks : List (List UInt8)}
    {u : Unit} (hw : Tracks n w front) (hfront : ∀ b∈front, b≠[]) (hblocks : ∀ b∈blocks, b≠[])
    (h : addBlocks build blocks w=.ok u t) :
    t.uncompressedSize=w.uncompressedSize ∧ Tracks n t (front++blocks) := by
  induction blocks generalizing w front with
  | nil =>
    obtain ⟨_,rfl⟩ := EStateM.Result.ok.inj h
    rw [List.append_nil]
    exact ⟨rfl,hw⟩
  | cons block blocks ih =>
    obtain ⟨_,r,hone,hrest⟩ := bind_ok_iff.mp h
    obtain ⟨hsize,hr⟩ := hw.add hfront (addBlock_step hone)
    have hmore : ∀ b∈front++[block], b≠[] := by
      intro b hb
      rcases List.mem_append.mp hb with hold|hnew
      · exact hfront b hold
      · rw [List.mem_singleton.mp hnew]
        exact hblocks block List.mem_cons_self
    obtain ⟨hlast,ht⟩ := ih hr hmore (fun b hb => hblocks b (List.mem_cons_of_mem _ hb)) hrest
    rw [List.append_assoc] at ht
    exact ⟨hlast.trans hsize,ht⟩

/-- With at most one block, small enough for the attribute, in a file of at most one, the numbers
agree exactly when the block does not escape. -/
theorem count_eq_iff_of_single {n : ℕ} {blocks : List (List UInt8)} (hone : numBlocks n≤1)
    (hmany : blocks.length≤1) (hsmall : blocks.flatten.length≤ maxXattrDataSize) :
    blocks.length=numBlocks n ↔ ¬Escapes n blocks := by
  unfold Escapes
  cases blocks with
  | nil =>
    rw [List.length_nil]
    constructor
    · rintro hzero (⟨hbad,_⟩|⟨_,block,hbad,_⟩)
      · omega
      · cases hbad
    · intro hnot
      have hne : numBlocks n≠1 := fun hbad => hnot (.inl ⟨hbad,rfl⟩)
      omega
  | cons block rest =>
    have hrest : rest=[] := List.length_eq_zero_iff.mp (by rw [List.length_cons] at hmany; omega)
    subst hrest
    rw [List.flatten_singleton] at hsmall
    rw [List.length_singleton]
    constructor
    · rintro heq (⟨_,hbad⟩|⟨hzero,_⟩)
      · cases hbad
      · rw [numBlocks_eq_zero_iff.mpr hzero] at heq
        cases heq
    · intro hnot
      have hne : n≠0 := fun hzero => hnot (.inr ⟨hzero,block,rfl,hsmall⟩)
      have hpos : numBlocks n≠0 := fun hzero => hne (numBlocks_eq_zero_iff.mp hzero)
      omega

/-- Blocks that made the writer open its fork do not escape. -/
theorem not_escapes_of_multiple {n : ℕ} {blocks : List (List UInt8)}
    (h : 1<numBlocks n ∨ maxXattrDataSize<blocks.flatten.length) : ¬Escapes n blocks := by
  rintro (⟨hone,rfl⟩|⟨rfl,block,rfl,hsmall⟩)
  · rcases h with hmany|hbig
    · omega
    · exact absurd hbig (Nat.not_lt_zero _)
  · rcases h with hmany|hbig
    · exact absurd hmany (by decide)
    · rw [List.flatten_singleton] at hbig
      omega

/-- A writer that kept its only block finishes in a release build whatever the number. -/
theorem countChecked_single {n : ℕ} {blocks : List (List UInt8)} {w : Writer σ}
    {opener : Except Fault σ} {kept : List UInt8} (hstate : w.state=.singleBlock opener kept) :
    CountChecked n blocks w ↔ blocks.length=numBlocks n := by
  have hfinish : finishDecmpfsData .release w=
      .ok (Value.toBytes ⟨.new w.kind .xattr,w.uncompressedSize,kept⟩) none := by
    unfold finishDecmpfsData
    rw [hstate]
    rfl
  unfold CountChecked
  rw [hfinish]
  constructor
  · exact fun h => h.1 _ _ rfl
  · exact fun h => ⟨fun _ _ _ => h,fun hne => absurd h hne⟩

/-- A writer with an open fork compares the numbers. -/
theorem countChecked_multiple {blocks : List (List UInt8)} {w : Writer σ} {blockSizes : List ℕ}
    {fork : σ} (hstate : w.state=.multipleBlocks blockSizes fork)
    (hcount : blockSizes.length=blocks.length) : CountChecked w.uncompressedSize blocks w := by
  refine ⟨fun value after hok => ?_,fun hne => ?_⟩
  · unfold finishDecmpfsData at hok
    rw [hstate] at hok
    dsimp only at hok
    by_cases hall : blockSizes.length=numBlocks w.uncompressedSize
    · rw [←hcount,hall]
    · rw [if_neg hall] at hok
      cases hok
  · refine ⟨.new .invalidInput "Wrong number of blocks",some fork,?_⟩
    unfold finishDecmpfsData
    rw [hstate]
    dsimp only
    rw [if_neg (by rw [hcount]; exact hne)]

/-- For every format, size, sink and successful sequence of blocks that are not empty, a
release build checks the number of blocks exactly when they do not escape. -/
theorem finish_checks_count_iff {kind : Kind} {n : ℕ} {opener : Except Fault σ}
    {blocks : List (List UInt8)} {w t : Writer σ} {u : Unit} (hblocks : ∀ b∈blocks, b≠[])
    (hnew : Writer.new kind n opener=.ok w) (hadd : addBlocks .release blocks w=.ok u t) :
    CountChecked n blocks t ↔ ¬Escapes n blocks := by
  obtain ⟨hsize,hw⟩ := new_tracks hnew
  obtain ⟨hsame,ht⟩ := hw.addBlocks (fun b hb => absurd hb List.not_mem_nil) hblocks hadd
  rw [List.nil_append] at ht
  obtain rfl : t.uncompressedSize=n := hsame.trans hsize
  unfold Tracks at ht
  cases hstate : t.state with
  | empty dropped =>
    rw [hstate] at ht
    exact ht.elim
  | singleBlock opener kept =>
    rw [hstate] at ht
    obtain ⟨hone,hkept,hmany,hsmall⟩ := ht
    rw [hkept] at hsmall
    exact (countChecked_single hstate).trans (count_eq_iff_of_single hone hmany hsmall)
  | multipleBlocks blockSizes fork =>
    rw [hstate] at ht
    obtain ⟨hcount,hfork⟩ := ht
    exact iff_of_true (countChecked_multiple hstate hcount) (not_escapes_of_multiple hfork)

end Runs

/-- A small block for a file of one block is checked. -/
theorem small_block_checked :
    CountChecked 1 [[7]] (⟨.zlib,1,.singleBlock (.ok Cursor.empty) [7]⟩ : Writer Cursor) :=
  (@finish_checks_count_iff Cursor _ .zlib 1 (.ok Cursor.empty) [[7]]
    ⟨.zlib,1,.singleBlock (.ok Cursor.empty) []⟩ _ () (by decide) rfl rfl).mpr (by
    rintro (⟨_,hbad⟩|⟨hbad,_⟩)
    · cases hbad
    · cases hbad)

/-- A release build finishes a file of one block that was never added. -/
theorem missing_block_finishes :
    ¬∀ (kind : Kind) (n : ℕ) (opener : Except Fault Cursor) (blocks : List (List UInt8))
      (w t : Writer Cursor) (u : Unit), (∀ b∈blocks, b≠[]) → Writer.new kind n opener=.ok w →
        addBlocks .release blocks w=.ok u t → CountChecked n blocks t := by
  intro hall
  have hchecked := hall .zlib 1 (.ok Cursor.empty) [] _ _ () (by decide) rfl rfl
  have hcount := hchecked.1 _ _ rfl
  exact absurd hcount (by decide)

end Applesauce.BlockCounts
