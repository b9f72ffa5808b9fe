import Applesauce.WriterCalls

/-!
# Writers whose sink fails

A call that fails at its sink does not leave the writer as it was: a writer
that was opening its fork is left in the transition state, and a block whose
write failed has been recorded. Every other error leaves the writer alone, so
a run is in order exactly as long as no sink fails.
-/

namespace Applesauce.WriterFaults

open RustIo SeekableFile DecmpfsValue BlockTables DecmpfsWriter WriterCalls

section Definitions
variable {σ : Type}

/-- The same variant with the same kept block or the same recorded sizes. -/
def SameBookkeeping (w t : Writer σ) : Prop :=
  match w.state,t.state with
  | .empty _,.empty _ => True
  | .singleBlock _ kept,.singleBlock _ kept' => kept=kept'
  | .multipleBlocks sizes _,.multipleBlocks sizes' _ => sizes=sizes'
  | _,_ => False

variable [WriteSeek σ]

/-- The call opens, seeks or writes, and that returns an error. -/
def SinkFails (w : Writer σ) (call : Call) : Prop :=
  match w.state,call with
  | .empty _,_ => False
  | .singleBlock opener kept,.add block => kept=[] ∧ block.length≤u32Max ∧
      maxXattrDataSize<block.length ∧ ∃ e, MoveFails w opener block (.error e)
  | .singleBlock opener kept,.force => ∃ e, MoveFails w opener kept (.error e)
  | .multipleBlocks sizes fork,.add block => block.length≤u32Max ∧ sizes.length+1<u32Max ∧
      ∃ e after, WriteSeek.writeAll block fork=.error (.error e) after
  | .multipleBlocks _ _,.force => False

/-- If the call returns an error the bookkeeping is that from before the call. -/
def Atomic (build : Build) (w : Writer σ) (call : Call) : Prop :=
  ∀ (e : IoError) (t : Writer σ), call.run build w=.error (.error e) t → SameBookkeeping w t

/-- A run of public calls that goes on after errors: the states before each call with the
call made there, the blocks whose `add_block` returned, and the state reached. -/
inductive Run (build : Build) (start : Writer σ) :
    List (Writer σ×Call)→List (List UInt8)→Writer σ→Prop where
  /-- No call has been made. -/
  | start : Run build start [] [] start
  /-- A call that returned. -/
  | returned {steps : List (Writer σ×Call)} {blocks : List (List UInt8)} {w t : Writer σ}
      {call : Call} (before : Run build start steps blocks w) (h : call.run build w=.ok () t) :
      Run build start (steps++[(w,call)]) (blocks++added [call]) t
  /-- A call that returned an error. -/
  | failed {steps : List (Writer σ×Call)} {blocks : List (List UInt8)} {w t : Writer σ} {call : Call}
      {e : IoError} (before : Run build start steps blocks w)
      (h : call.run build w=.error (.error e) t) : Run build start (steps++[(w,call)]) blocks t

/-- The sizes of the blocks that hold data. -/
def dataSizes (sizes : List ℕ) : List ℕ := sizes.filter (0<·)

/-- A run in which every failed call was atomic, with what follows from that. -/
structure Orderly (build : Build) (steps : List (Writer σ×Call)) (blocks : List (List UInt8))
    (w : Writer σ) : Prop where
  /-- Failed calls have not changed the bookkeeping. -/
  atomic : ∀ p∈steps, Atomic build p.1 p.2
  /-- No call was made in the transition state, where its code is unreachable. -/
  called : ∀ p∈steps, ∀ dropped, p.1.state≠.empty dropped
  /-- The transition state has not been left behind for later calls. -/
  variant : ∀ dropped, w.state≠.empty dropped
  /-- Only blocks that have been added are counted. -/
  counted : ∀ sizes fork, w.state=.multipleBlocks sizes fork →
    dataSizes sizes=dataSizes (blocks.map List.length)

end Definitions

section Moves
variable {σ : Type} [WriteSeek σ] {w t : Writer σ} {opener : Except Fault σ} {block : List UInt8}
  {fault fault' : Fault}

/-- A move that failed has not succeeded. -/
theorem not_moved_of_fails (h : MoveFails w opener block fault) : ¬MovedTo w t opener block := by
  rintro ⟨fork,mid,last,pos,rfl,hseek,hwrite,_⟩
  rcases h with hopen|⟨other,hopen,⟨after,hbad⟩|⟨reached,q,after,hreached,hbad⟩⟩
  · cases hopen
  · obtain rfl := Except.ok.inj hopen
    rw [hseek] at hbad
    cases hbad
  · obtain rfl := Except.ok.inj hopen
    obtain ⟨_,rfl⟩ := EStateM.Result.ok.inj (hseek.symm.trans hreached)
    rw [hwrite] at hbad
    cases hbad

/-- A move fails in one way. -/
theorem moveFails_unique (h : MoveFails w opener block fault) (h' : MoveFails w opener block fault') :
    fault=fault' := by
  rcases h with rfl|⟨fork,rfl,hrest⟩
  · rcases h' with hopen|⟨fork,hopen,_⟩
    · exact Except.error.inj hopen
    · cases hopen
  · rcases h' with hopen|⟨fork',hopen,hrest'⟩
    · cases hopen
    · obtain rfl := Except.ok.inj hopen
      rcases hrest with ⟨after,hseek⟩|⟨mid,pos,after,hseek,hwrite⟩
      · rcases hrest' with ⟨after',hseek'⟩|⟨mid',pos',after',hseek',_⟩
        · exact (EStateM.Result.error.inj (hseek.symm.trans hseek')).1
        · rw [hseek] at hseek'
          cases hseek'
      · rcases hrest' with ⟨after',hseek'⟩|⟨mid',pos',after',hseek',hwrite'⟩
        · rw [hseek] at hseek'
          cases hseek'
        · obtain ⟨_,rfl⟩ := EStateM.Result.ok.inj (hseek.symm.trans hseek')
          exact (EStateM.Result.error.inj (hwrite.symm.trans hwrite')).1

/-- A move that fails returns the error of the sink and leaves the transition state. -/
theorem run_of_moveFails {build : Build} (hstate : w.state=.singleBlock opener [])
    (h : MoveFails w opener block fault) :
    ∃ dropped, writeSingleBlockAsRfork build block w=
      .error fault {w with state := .empty dropped} := by
  rcases writeSingleBlockAsRfork_cases hstate block with ⟨t,_,hmoved⟩|⟨other,dropped,herr,hother⟩
  · exact absurd hmoved (not_moved_of_fails h)
  · rw [moveFails_unique h hother]
    exact ⟨dropped,herr⟩

/-- A move that returns an error is one that failed. -/
theorem moveFails_of_error {build : Build} (hstate : w.state=.singleBlock opener [])
    (h : writeSingleBlockAsRfork build block w=.error fault t) :
    MoveFails w opener block fault := by
  rcases writeSingleBlockAsRfork_cases hstate block with ⟨_,hok,_⟩|⟨other,dropped,herr,hother⟩
  · rw [hok] at h
    cases h
  · obtain ⟨rfl,_⟩ := EStateM.Result.error.inj (herr.symm.trans h)
    exact hother

end Moves

section Calls
variable {σ : Type} [WriteSeek σ] {build : Build} {w : Writer σ} {call : Call}

/-- A call whose sink fails returns an error and leaves other bookkeeping. -/
theorem SinkFails.changes (h : SinkFails w call) :
    ∃ e t, call.run build w=.error (.error e) t ∧ ¬SameBookkeeping w t := by
  unfold SinkFails at h
  unfold SameBookkeeping
  cases hstate : w.state with
  | empty dropped =>
    rw [hstate] at h
    exact h.elim
  | singleBlock opener kept =>
    rw [hstate] at h
    cases call with
    | add block =>
      obtain ⟨rfl,hlen,hlarge,e,hfails⟩ := h
      obtain ⟨dropped,hrun⟩ := @run_of_moveFails σ _ w opener block _ build hstate hfails
      refine ⟨e,{w with state := .empty dropped},?_,fun hsame => hsame⟩
      change addBlock build block w=_
      rw [addBlock_single hstate hlen,if_neg (not_not.mpr rfl),if_pos hlarge,hrun]
    | force =>
      obtain ⟨e,hfails⟩ := h
      have hempty : ({w with state := .singleBlock opener []} : Writer σ).state=
          .singleBlock opener [] := rfl
      obtain ⟨dropped,hrun⟩ := @run_of_moveFails σ _ _ opener kept _ build hempty hfails
      exact ⟨e,{w with state := .empty dropped},(forceResourceFork_single hstate).trans hrun,
        fun hsame => hsame⟩
  | multipleBlocks sizes fork =>
    rw [hstate] at h
    cases call with
    | add block =>
      obtain ⟨hlen,hfew,e,after,hwrite⟩ := h
      have hrun := @addBlock_multiple σ _ build w sizes fork block hstate hlen
      rw [if_neg (by omega),hwrite] at hrun
      refine ⟨e,{w with state := .multipleBlocks (sizes++[block.length%2^32]) after},hrun,
        fun hsame => ?_⟩
      have hcount := congrArg List.length hsame
      rw [List.length_append,List.length_singleton] at hcount
      omega
    | force => exact h.elim

/-- A call that returns an error although its sink does not fail leaves the writer alone. -/
theorem unchanged_of_error {e : IoError} {t : Writer σ} (hsink : ¬SinkFails w call)
    (h : call.run build w=.error (.error e) t) : t=w := by
  unfold SinkFails at hsink
  cases hstate : w.state with
  | empty dropped =>
    cases call with
    | add block =>
      change addBlock build block w=_ at h
      unfold addBlock at h
      rw [hstate] at h
      split at h
      · cases h
      · cases h
    | force =>
      change forceResourceFork build w=_ at h
      unfold forceResourceFork at h
      rw [hstate] at h
      cases h
  | singleBlock opener kept =>
    rw [hstate] at hsink
    cases call with
    | add block =>
      change addBlock build block w=_ at h
      by_cases hlen : block.length≤u32Max
      · rw [addBlock_single hstate hlen] at h
        by_cases hkept : kept≠[]
        · rw [if_pos hkept] at h
          cases h
        · obtain rfl := not_not.mp hkept
          rw [if_neg hkept] at h
          by_cases hlarge : maxXattrDataSize<block.length
          · rw [if_pos hlarge] at h
            exact absurd ⟨rfl,hlen,hlarge,e,moveFails_of_error hstate h⟩ hsink
          · rw [if_neg hlarge] at h
            cases h
      · unfold addBlock at h
        rw [if_neg hlen] at h
        cases h
    | force =>
      change forceResourceFork build w=_ at h
      rw [forceResourceFork_single hstate] at h
      have hempty : ({w with state := .singleBlock opener []} : Writer σ).state=
          .singleBlock opener [] := rfl
      have hfails := @moveFails_of_error σ _ {w with state := .singleBlock opener []} t opener kept
        _ build hempty h
      exact absurd ⟨e,hfails⟩ hsink
  | multipleBlocks sizes fork =>
    rw [hstate] at hsink
    cases call with
    | add block =>
      change addBlock build block w=_ at h
      by_cases hlen : block.length≤u32Max
      · rw [addBlock_multiple hstate hlen] at h
        by_cases hmany : u32Max≤ sizes.length+1
        · rw [if_pos hmany] at h
          exact (EStateM.Result.error.inj h).2.symm
        · rw [if_neg hmany] at h
          cases hwrite : WriteSeek.writeAll block fork with
          | ok _ after =>
            rw [hwrite] at h
            cases h
          | error fault after =>
            rw [hwrite] at h
            obtain ⟨rfl,_⟩ := EStateM.Result.error.inj h
            exact absurd ⟨hlen,by omega,e,after,hwrite⟩ hsink
      · unfold addBlock at h
        rw [if_neg hlen] at h
        cases h
    | force =>
      change forceResourceFork build w=_ at h
      unfold forceResourceFork at h
      rw [hstate] at h
      cases h

omit [WriteSeek σ] in
/-- Every writer has its own bookkeeping. -/
theorem sameBookkeeping_refl (w : Writer σ) : SameBookkeeping w w := by
  unfold SameBookkeeping
  cases w.state with
  | empty dropped => trivial
  | singleBlock opener kept => rfl
  | multipleBlocks sizes fork => rfl

/-- A call is failure-atomic exactly when its sink does not fail. -/
theorem atomic_iff : Atomic build w call ↔ ¬SinkFails w call := by
  constructor
  · intro hatomic hsink
    obtain ⟨e,t,hrun,hchanged⟩ := @SinkFails.changes σ _ build w call hsink
    exact hchanged (hatomic e t hrun)
  · intro hsink e t hrun
    rw [unchanged_of_error hsink hrun]
    exact sameBookkeeping_refl w

end Calls

section Runs
variable {σ : Type} [WriteSeek σ]

/-- A writer that has been given these blocks and counts no others. -/
def Counts (w : Writer σ) (blocks : List (List UInt8)) : Prop :=
  match w.state with
  | .empty _ => False
  | .singleBlock _ kept => kept.length≤ maxXattrDataSize ∧
      dataSizes [kept.length]=dataSizes (blocks.map List.length)
  | .multipleBlocks sizes _ => dataSizes sizes=dataSizes (blocks.map List.length)

/-- A new writer counts nothing. -/
theorem new_counts {kind : Kind} {n : ℕ} {opener : Except Fault σ} {w : Writer σ}
    (h : Writer.new kind n opener=.ok w) : Counts w [] := by
  rcases new_cases h with ⟨_,_,_,_,_,_,rfl⟩|⟨_,rfl⟩
  · exact rfl
  · exact ⟨Nat.zero_le _,rfl⟩

/-- The sizes of data in front of those of one more block. -/
theorem dataSizes_append (sizes more : List ℕ) :
    dataSizes (sizes++more)=dataSizes sizes++dataSizes more := List.filter_append ..

/-- A call that returned counts the block it added. -/
theorem Counts.step {w t : Writer σ} {blocks : List (List UInt8)} {call : Call}
    (hw : Counts w blocks) (h : Step w t call) : Counts t (blocks++added [call]) := by
  unfold Counts at hw
  cases h with
  | @kept opener block hstate hsmall ht =>
    rw [hstate] at hw
    subst ht
    refine ⟨hsmall,?_⟩
    rw [List.map_append,dataSizes_append,←hw.2]
    rfl
  | @opened opener block hstate hlarge hlen hmoved =>
    rw [hstate] at hw
    obtain ⟨fork,mid,last,pos,_,_,_,rfl⟩ := hmoved
    change dataSizes [block.length%2^32]=_
    rw [length_mod hlen,List.map_append,dataSizes_append,←hw.2]
    rfl
  | @appended sizes fork after block hstate hlen hwrite ht =>
    rw [hstate] at hw
    subst ht
    change dataSizes (sizes++[block.length])=_
    rw [List.map_append,dataSizes_append,dataSizes_append,hw]
    rfl
  | @moved opener block hstate hmoved =>
    rw [hstate] at hw
    obtain ⟨fork,mid,last,pos,_,_,_,rfl⟩ := hmoved
    change dataSizes [block.length%2^32]=dataSizes ((blocks++[]).map List.length)
    rw [length_mod (hw.1.trans (by decide)),List.append_nil]
    exact hw.2
  | unchanged hstate ht =>
    subst ht
    unfold Counts
    rw [show added [Call.force]=[] from rfl,List.append_nil]
    rw [hstate] at hw ⊢
    exact hw

/-- As long as no sink has failed, every state of the run counts what has been added. -/
theorem Run.counts {build : Build} {start w : Writer σ} {steps : List (Writer σ×Call)}
    {blocks : List (List UInt8)} (hstart : Counts start []) (h : Run build start steps blocks w)
    (hsink : ∀ p∈steps, ¬SinkFails p.1 p.2) :
    Counts w blocks ∧ ∀ p∈steps, ∀ dropped, p.1.state≠.empty dropped := by
  have hempty : ∀ {v : Writer σ} {front : List (List UInt8)}, Counts v front →
      ∀ dropped, v.state≠.empty dropped := by
    intro v front hv dropped hbad
    unfold Counts at hv
    rw [hbad] at hv
    exact hv
  induction h with
  | start => exact ⟨hstart,fun p hp => absurd hp List.not_mem_nil⟩
  | @returned steps blocks w t call before h ih =>
    obtain ⟨hw,hcalled⟩ := ih fun p hp => hsink p (List.mem_append_left _ hp)
    refine ⟨hw.step (Call.step h),fun p hp => ?_⟩
    rcases List.mem_append.mp hp with hold|hnew
    · exact hcalled p hold
    · rw [List.mem_singleton.mp hnew]
      exact hempty hw
  | @failed steps blocks w t call e before h ih =>
    obtain ⟨hw,hcalled⟩ := ih fun p hp => hsink p (List.mem_append_left _ hp)
    have hquiet : ¬SinkFails w call := hsink (w,call) (List.mem_append_right _ List.mem_cons_self)
    rw [unchanged_of_error hquiet h]
    refine ⟨hw,fun p hp => ?_⟩
    rcases List.mem_append.mp hp with hold|hnew
    · exact hcalled p hold
    · rw [List.mem_singleton.mp hnew]
      exact hempty hw

/-- For every format, size, sink and run of public calls that goes on after errors: the run is
orderly exactly when no call of it failed at its sink. -/
theorem run_orderly_iff {build : Build} {kind : Kind} {n : ℕ} {opener : Except Fault σ}
    {start w : Writer σ} {steps : List (Writer σ×Call)} {blocks : List (List UInt8)}
    (hnew : Writer.new kind n opener=.ok start) (hrun : Run build start steps blocks w) :
    Orderly build steps blocks w ↔ ∀ p∈steps, ¬SinkFails p.1 p.2 := by
  constructor
  · exact fun horderly p hp => atomic_iff.mp (horderly.atomic p hp)
  · intro hsink
    obtain ⟨hw,hcalled⟩ := hrun.counts (new_counts hnew) hsink
    unfold Counts at hw
    refine ⟨fun p hp => atomic_iff.mpr (hsink p hp),hcalled,fun dropped hbad => ?_,
      fun sizes fork hstate => ?_⟩
    · rw [hbad] at hw
      exact hw
    · rw [hstate] at hw
      exact hw

/-- In the transition state every call is unreachable code. -/
theorem unreachable_of_empty {build : Build} {w : Writer σ} {dropped : Option σ} {block : List UInt8}
    (hstate : w.state=.empty dropped) (hlen : block.length≤u32Max) :
    addBlock build block w=.error (.panic unreachableText) w ∧
      finishDecmpfsData build w=.error (.panic unreachableText) dropped := by
  unfold addBlock finishDecmpfsData
  rw [if_pos hlen,hstate]
  exact ⟨rfl,rfl⟩

end Runs

/-- A writer of two blocks behind the table of an open fork. -/
def twoBlockWriter (sizes : List ℕ) (bytes : List UInt8) : Writer Cursor :=
  ⟨.lzvn,65537,.multipleBlocks sizes ⟨bytes,12+sizes.sum⟩⟩

/-- The bytes of the fork after the first block. -/
def firstBytes : List UInt8 := [0,0,0,0,0,0,0,0,0,0,0,0,6,1]

/-- Nothing fails when two blocks are written into an open fork, with a call that has no effect
between them. -/
theorem two_blocks_orderly : Orderly .debug
    [(twoBlockWriter [] [],.add [6,1]),(twoBlockWriter [2] firstBytes,.force),
      (twoBlockWriter [2] firstBytes,.add [6,2,3])]
    [[6,1],[6,2,3]] (twoBlockWriter [2,3] (firstBytes++[6,2,3])) := by
  have hrun : Run .debug (twoBlockWriter [] []) ([]++[(twoBlockWriter [] [],.add [6,1])]++
      [(twoBlockWriter [2] firstBytes,.force)]++[(twoBlockWriter [2] firstBytes,.add [6,2,3])])
      ([]++added [.add [6,1]]++added [.force]++added [.add [6,2,3]])
      (twoBlockWriter [2,3] (firstBytes++[6,2,3])) :=
    .returned (.returned (.returned .start rfl) rfl) rfl
  have hwrites : ∀ sizes bytes block, ¬SinkFails (twoBlockWriter sizes bytes) (.add block) := by
    rintro sizes bytes block ⟨_,_,_,_,hbad⟩
    cases hbad
  refine (@run_orderly_iff Cursor _ .debug .lzvn 65537 (.ok Cursor.empty) _ _ _ _ rfl hrun).mpr ?_
  intro p hp
  rcases List.mem_cons.mp hp with rfl|hp
  · exact hwrites _ _ _
  rcases List.mem_cons.mp hp with rfl|hp
  · exact fun hbad => hbad
  · obtain rfl := List.mem_singleton.mp hp
    exact hwrites _ _ _

/-- A fork that cannot be opened leaves the transition state behind, in which the next call is
unreachable code. -/
theorem unopened_fork_not_orderly :
    ¬∀ (build : Build) (kind : Kind) (n : ℕ) (opener : Except Fault Cursor) (start w : Writer Cursor)
      (steps : List (Writer Cursor×Call)) (blocks : List (List UInt8)),
      Writer.new kind n opener=.ok start → Run build start steps blocks w →
      Orderly build steps blocks w := by
  intro hall
  let denied : IoError := .ofKind .other
  let start : Writer Cursor := ⟨.zlib,1,.singleBlock (.error (.error denied)) []⟩
  have hrun : Run .release start ([]++[(start,.force)]) [] ⟨.zlib,1,.empty none⟩ :=
    @Run.failed Cursor _ .release start [] [] start _ .force denied .start rfl
  exact (hall .release .zlib 1 _ start _ _ _ rfl hrun).variant none rfl

end Applesauce.WriterFaults
