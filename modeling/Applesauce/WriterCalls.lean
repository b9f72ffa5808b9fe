import Applesauce.DecmpfsWriter

/-!
# What one call of a writer can do

The public calls between `Writer::new` and `finish_decmpfs_data` are
`add_block` and `force_resource_fork`. One inversion lemma for each says
everything a call can have done when it returned and everything it can leave
behind when it failed, for any sink. Later proofs cite these lemmas only.
-/

namespace Applesauce.WriterCalls

open RustIo SeekableFile DecmpfsValue BlockTables DecmpfsWriter

/-- A public call of an open writer. -/
inductive Call where
  | add (block : List UInt8)
  | force
  deriving DecidableEq,Repr

/-- The blocks that the calls add. -/
def added : List Call→List (List UInt8)
  | [] => []
  | .add block::calls => block::added calls
  | .force::calls => added calls

/-- The blocks of one more call come last. -/
theorem added_append (front back : List Call) : added (front++back)=added front++added back := by
  induction front with
  | nil => rfl
  | cons call front ih =>
    cases call with
    | add block => exact congrArg (block::·) ih
    | force => exact ih

/-- Calls that only add blocks. -/
theorem added_map (blocks : List (List UInt8)) : added (blocks.map .add)=blocks := by
  induction blocks with
  | nil => rfl
  | cons block blocks ih => exact congrArg (block::·) ih

section Calls
variable {σ : Type} [WriteSeek σ]

/-- Make a call. -/
def Call.run (build : Build) : Call→Io (Writer σ) Unit
  | .add block => addBlock build block
  | .force => forceResourceFork build

/-- Make calls one after the other, stopping at the first failure. -/
def runCalls (build : Build) : List Call→Io (Writer σ) Unit
  | [] => pure ()
  | call::calls => do
    call.run build
    runCalls build calls

/-- What follows `Writer::new`: make the calls, then finish. -/
def fillCalls (build : Build) (calls : List Call) :
    Except Fault (Writer σ)→EStateM.Result Fault (Option σ) (List UInt8)
  | .error fault => .error fault none
  | .ok w =>
    match runCalls build calls w with
    | .error fault w => .error fault w.fork
    | .ok _ w => finishDecmpfsData build w

/-- A whole file: create the writer, make the calls, finish. -/
def writeCalls (build : Build) (kind : Kind) (uncompressedSize : ℕ) (opener : Except Fault σ)
    (calls : List Call) : EStateM.Result Fault (Option σ) (List UInt8) :=
  fillCalls build calls (Writer.new kind uncompressedSize opener)

/-- A writer is filled exactly when it has been created and every call and the end return. -/
theorem fillCalls_ok_iff {build : Build} {created : Except Fault (Writer σ)} {calls : List Call}
    {value : List UInt8} {fork : Option σ} :
    fillCalls build calls created=.ok value fork ↔
      ∃ w t, created=.ok w ∧ runCalls build calls w=.ok () t ∧
        finishDecmpfsData build t=.ok value fork := by
  cases created with
  | error fault =>
    constructor
    · exact fun h => nomatch h
    · rintro ⟨w,t,hw,_⟩
      cases hw
  | ok w =>
    unfold fillCalls
    dsimp only
    cases hrun : runCalls build calls w with
    | error fault after =>
      constructor
      · exact fun h => nomatch h
      · rintro ⟨w',t,hw,ht,_⟩
        obtain rfl := Except.ok.inj hw
        rw [hrun] at ht
        cases ht
    | ok _ t =>
      constructor
      · exact fun h => ⟨w,t,rfl,hrun,h⟩
      · rintro ⟨w',t',hw,ht,hfinish⟩
        obtain rfl := Except.ok.inj hw
        obtain ⟨_,rfl⟩ := EStateM.Result.ok.inj (hrun.symm.trans ht)
        exact hfinish

/-- Adding blocks is a run of calls. -/
theorem runCalls_add (build : Build) (blocks : List (List UInt8)) :
    (runCalls build (blocks.map .add) : Io (Writer σ) Unit)=addBlocks build blocks := by
  induction blocks with
  | nil => rfl
  | cons block blocks ih =>
    rw [List.map_cons,runCalls,ih]
    rfl

/-- A whole file without forced calls. -/
theorem writeCalls_add (build : Build) (kind : Kind) (n : ℕ) (opener : Except Fault σ)
    (blocks : List (List UInt8)) :
    writeCalls build kind n opener (blocks.map .add)=writeFile build kind n opener blocks := by
  unfold writeCalls writeFile
  cases Writer.new kind n opener with
  | error fault => rfl
  | ok w =>
    unfold fillCalls fillWriter
    dsimp only
    have hrun := congrFun (runCalls_add build blocks) w
    cases hadd : addBlocks build blocks w with
    | error fault after =>
      rw [hadd] at hrun
      simp only [hrun]
    | ok _ t =>
      rw [hadd] at hrun
      simp only [hrun]

/-- Where the blocks of a file start in its fork. -/
def blocksStart (w : Writer σ) : ℕ := headerSize w.kind (numBlocks w.uncompressedSize)

/-- The fork has been opened and a block put where the blocks start. -/
def MovedTo (w t : Writer σ) (opener : Except Fault σ) (block : List UInt8) : Prop :=
  ∃ fork mid last pos, opener=.ok fork ∧
    WriteSeek.seek (.start (blocksStart w)) fork=.ok pos mid ∧
    WriteSeek.writeAll block mid=.ok () last ∧
    t={w with state := .multipleBlocks [block.length%2^32] last}

/-- Opening the fork, seeking in it or writing the block to it fails. -/
def MoveFails (w : Writer σ) (opener : Except Fault σ) (block : List UInt8) (fault : Fault) : Prop :=
  opener=.error fault ∨ ∃ fork, opener=.ok fork ∧
    ((∃ after, WriteSeek.seek (.start (blocksStart w)) fork=.error fault after) ∨
      ∃ mid pos after, WriteSeek.seek (.start (blocksStart w)) fork=.ok pos mid ∧
        WriteSeek.writeAll block mid=.error fault after)

/-- Moving a block to the fork either succeeds or fails and leaves the transition state. -/
theorem writeSingleBlockAsRfork_cases {build : Build} {w : Writer σ} {opener : Except Fault σ}
    (hstate : w.state=.singleBlock opener []) (block : List UInt8) :
    (∃ t, writeSingleBlockAsRfork build block w=.ok () t ∧ MovedTo w t opener block) ∨
      ∃ fault dropped, writeSingleBlockAsRfork build block w=
        .error fault {w with state := .empty dropped} ∧ MoveFails w opener block fault := by
  have hassert : debugAssert build (([] : List UInt8)=[]) "assertion failed: block.is_empty()" ()=
      .ok () () := debugAssert_of _ _ rfl
  unfold writeSingleBlockAsRfork
  rw [hstate]
  dsimp only
  rw [hassert]
  dsimp only
  cases opener with
  | error fault => exact .inr ⟨fault,none,rfl,.inl rfl⟩
  | ok fork =>
    dsimp only
    cases hseek : WriteSeek.seek (.start (headerSize w.kind (numBlocks w.uncompressedSize))) fork with
    | error fault after => exact .inr ⟨fault,some after,rfl,.inr ⟨fork,rfl,.inl ⟨after,hseek⟩⟩⟩
    | ok pos mid =>
      dsimp only
      cases hwrite : WriteSeek.writeAll block mid with
      | error fault after =>
        exact .inr ⟨fault,some after,rfl,.inr ⟨fork,rfl,.inr ⟨mid,pos,after,hseek,hwrite⟩⟩⟩
      | ok _ last => exact .inl ⟨_,rfl,fork,mid,last,pos,rfl,hseek,hwrite,rfl⟩

/-- What `add_block` does to a writer that keeps its only block. -/
theorem addBlock_single {build : Build} {w : Writer σ} {opener : Except Fault σ}
    {kept block : List UInt8} (hstate : w.state=.singleBlock opener kept)
    (hlen : block.length≤u32Max) :
    addBlock build block w=
      if kept≠[] then .error (.panic "adding multiple blocks to a single-block writer") w
      else if maxXattrDataSize<block.length then writeSingleBlockAsRfork build block w
      else .ok () {w with state := .singleBlock opener (kept++block)} := by
  unfold addBlock
  rw [if_pos hlen,hstate]

/-- What `add_block` does to a writer with an open fork. -/
theorem addBlock_multiple {build : Build} {w : Writer σ} {sizes : List ℕ} {fork : σ}
    {block : List UInt8} (hstate : w.state=.multipleBlocks sizes fork)
    (hlen : block.length≤u32Max) :
    addBlock build block w=
      if u32Max≤ sizes.length+1 then .error (.error (.new .invalidData "too many blocks")) w
      else match WriteSeek.writeAll block fork with
        | .error fault fork =>
          .error fault {w with state := .multipleBlocks (sizes++[block.length%2^32]) fork}
        | .ok _ fork => .ok () {w with state := .multipleBlocks (sizes++[block.length%2^32]) fork} := by
  obtain ⟨kind,n,state⟩ := w
  dsimp only at hstate
  subst hstate
  exact if_pos hlen

/-- What a call that returned has done. -/
inductive Step (w t : Writer σ) : Call→Prop where
  /-- A small block is kept. -/
  | kept {opener : Except Fault σ} {block : List UInt8} (hstate : w.state=.singleBlock opener [])
      (hsmall : block.length≤ maxXattrDataSize) (ht : t={w with state := .singleBlock opener block}) :
      Step w t (.add block)
  /-- A large block opens the fork. -/
  | opened {opener : Except Fault σ} {block : List UInt8} (hstate : w.state=.singleBlock opener [])
      (hlarge : maxXattrDataSize<block.length) (hlen : block.length≤u32Max)
      (hmoved : MovedTo w t opener block) : Step w t (.add block)
  /-- A block is appended to the open fork. -/
  | appended {sizes : List ℕ} {fork after : σ} {block : List UInt8}
      (hstate : w.state=.multipleBlocks sizes fork) (hlen : block.length≤u32Max)
      (hwrite : WriteSeek.writeAll block fork=.ok () after)
      (ht : t={w with state := .multipleBlocks (sizes++[block.length]) after}) :
      Step w t (.add block)
  /-- The kept block, if any, is moved to the fork. -/
  | moved {opener : Except Fault σ} {block : List UInt8} (hstate : w.state=.singleBlock opener block)
      (hmoved : MovedTo w t opener block) : Step w t .force
  /-- The fork is open already. -/
  | unchanged {sizes : List ℕ} {fork : σ} (hstate : w.state=.multipleBlocks sizes fork) (ht : t=w) :
      Step w t .force

/-- A length that was checked survives the conversion. -/
theorem length_mod {block : List UInt8} (h : block.length≤u32Max) :
    block.length%2^32=block.length :=
  Nat.mod_eq_of_lt (by unfold u32Max at h; omega)

/-- What an `add_block` that returned has done. -/
theorem addBlock_step {build : Build} {w t : Writer σ} {block : List UInt8} {u : Unit}
    (h : addBlock build block w=.ok u t) : Step w t (.add block) := by
  by_cases hlen : block.length≤u32Max
  · cases hstate : w.state with
    | empty dropped =>
      unfold addBlock at h
      rw [if_pos hlen,hstate] at h
      cases h
    | singleBlock opener kept =>
      rw [addBlock_single hstate hlen] at h
      by_cases hkept : kept≠[]
      · rw [if_pos hkept] at h
        cases h
      · rw [if_neg hkept] at h
        obtain rfl := not_not.mp hkept
        by_cases hlarge : maxXattrDataSize<block.length
        · rw [if_pos hlarge] at h
          rcases writeSingleBlockAsRfork_cases hstate block with ⟨last,hok,hmoved⟩|⟨_,_,herr,_⟩
          · obtain ⟨_,rfl⟩ := EStateM.Result.ok.inj (hok.symm.trans h)
            exact .opened hstate hlarge hlen hmoved
          · rw [herr] at h
            cases h
        · rw [if_neg hlarge] at h
          obtain ⟨_,rfl⟩ := EStateM.Result.ok.inj h
          exact .kept hstate (Nat.not_lt.mp hlarge) rfl
    | multipleBlocks sizes fork =>
      rw [addBlock_multiple hstate hlen] at h
      by_cases hmany : u32Max≤ sizes.length+1
      · rw [if_pos hmany] at h
        cases h
      · rw [if_neg hmany] at h
        cases hwrite : WriteSeek.writeAll block fork with
        | error fault after =>
          rw [hwrite] at h
          cases h
        | ok _ after =>
          rw [hwrite] at h
          obtain ⟨_,rfl⟩ := EStateM.Result.ok.inj h
          refine .appended hstate hlen hwrite ?_
          rw [length_mod hlen]
  · unfold addBlock at h
    rw [if_neg hlen] at h
    cases h

/-- What `force_resource_fork` does to a writer that keeps its only block. -/
theorem forceResourceFork_single {build : Build} {w : Writer σ} {opener : Except Fault σ}
    {kept : List UInt8} (hstate : w.state=.singleBlock opener kept) :
    forceResourceFork build w=
      writeSingleBlockAsRfork build kept {w with state := .singleBlock opener []} := by
  unfold forceResourceFork
  rw [hstate]

/-- What a `force_resource_fork` that returned has done. -/
theorem forceResourceFork_step {build : Build} {w t : Writer σ} {u : Unit}
    (h : forceResourceFork build w=.ok u t) : Step w t .force := by
  cases hstate : w.state with
  | empty dropped =>
    unfold forceResourceFork at h
    rw [hstate] at h
    cases h
  | singleBlock opener kept =>
    rw [forceResourceFork_single hstate] at h
    have hempty : ({w with state := .singleBlock opener []} : Writer σ).state=.singleBlock opener [] := rfl
    rcases writeSingleBlockAsRfork_cases hempty kept with ⟨last,hok,hmoved⟩|⟨_,_,herr,_⟩
    · obtain ⟨_,rfl⟩ := EStateM.Result.ok.inj (hok.symm.trans h)
      exact .moved hstate hmoved
    · rw [herr] at h
      cases h
  | multipleBlocks sizes fork =>
    unfold forceResourceFork at h
    rw [hstate] at h
    obtain ⟨_,rfl⟩ := EStateM.Result.ok.inj h
    exact .unchanged hstate rfl

/-- What a call that returned has done. -/
theorem Call.step {build : Build} {call : Call} {w t : Writer σ} {u : Unit}
    (h : call.run build w=.ok u t) : Step w t call := by
  cases call with
  | add block => exact addBlock_step h
  | force => exact forceResourceFork_step h

end Calls

end Applesauce.WriterCalls
