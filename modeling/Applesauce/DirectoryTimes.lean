import Applesauce.SharedHandles
import Applesauce.Tally
import Applesauce.TransitionSystem

/-!
# Whose times a directory has in the end

Every read of a directory saves its times into a resetter, which the files
of that read share. A rename changes the times of the directory and then
activates the resetter of the file, and whoever drops the last handle of an
activated resetter puts its saved times back. Several resetters can exist for
one directory, in any order of reads, renames and drops. When all of them are
gone, a directory shows what the last of them restored: the times it had at
that resetter's read, which need not be the times it had at the start.
-/

namespace Applesauce.DirectoryTimes

open SharedHandles Tally TransitionSystem

/-- `times::Resetter`, behind its reference count. -/
structure Resetter (δ τ : Type) where
  /-- The directory. -/
  dir : δ
  /-- Its times when it was read. -/
  saved : τ
  /-- Whether a file of it was replaced. -/
  activated : Bool
  /-- The count of its handles. -/
  shared : Arc
  deriving DecidableEq,Repr

/-- Who holds a handle of a resetter. -/
inductive Place where
  /-- The read of the directory. -/
  | reading
  /-- An entry that the walker has not handed over. -/
  | entry
  /-- The context of a file. -/
  | context
  /-- The context of a file that was renamed a moment ago. -/
  | renamed
  /-- Nobody any more. -/
  | dropped
  deriving DecidableEq,Repr

/-- A handle: the number of its resetter, and its holder. -/
structure Handle where
  /-- The resetter. -/
  resetter : ℕ
  /-- The holder. -/
  place : Place
  deriving DecidableEq,Repr

/-- The directories and the resetters of one operation. -/
structure State (δ τ : Type) where
  /-- The times of every directory. -/
  times : δ→τ
  /-- The resetters, in the order of their reads. -/
  resetters : List (Resetter δ τ)
  /-- The handles. -/
  handles : List Handle
  /-- The directories in which a file was replaced. -/
  replaced : List δ
  /-- The resetters that put times back, with their numbers, the last one first. -/
  restored : List (ℕ×Resetter δ τ)

/-- One step of some thread. -/
inductive Event (δ τ : Type) where
  /-- The walker reads a directory and saves its times. -/
  | save (dir : δ)
  /-- The read gives a file of the directory a handle. -/
  | clone (handle : ℕ)
  /-- The handle of an entry moves into the context of its file. -/
  | take (handle : ℕ)
  /-- `persist`: the file is renamed, which changes the times of the directory. -/
  | rename (handle : ℕ) (times : τ)
  /-- `Resetter::activate`. -/
  | activate (handle : ℕ)
  /-- The read ends, an entry is skipped, or a context is dropped. -/
  | drop (handle : ℕ)
  /-- `Drop for Resetter`, after the last handle was dropped. -/
  | finish (resetter : ℕ)
  deriving DecidableEq,Repr

/-- Every handle is dropped and every destructor has run. -/
structure Finished {δ τ : Type} (s : State δ τ) : Prop where
  /-- No context, entry or read holds a resetter. -/
  handles : ∀ h∈s.handles, h.place=.dropped
  /-- No times are being put back. -/
  resetters : ∀ res∈s.resetters, res.shared≠.dropping

/-- The state before the operation. -/
def State.initial {δ τ : Type} (original : δ→τ) : State δ τ := ⟨original,[],[],[],[]⟩

section Steps
variable {δ τ : Type} [DecidableEq δ]

/-- A handle changes its holder. -/
def State.move (s : State δ τ) (i r : ℕ) (place : Place) : State δ τ :=
  {s with handles := s.handles.set i ⟨r,place⟩}

/-- One step, if it is possible. -/
def step (s : State δ τ) : Event δ τ→Option (State δ τ)
  | .save dir => some {s with
      resetters := s.resetters++[⟨dir,s.times dir,false,.live 1⟩]
      handles := s.handles++[⟨s.resetters.length,.reading⟩]}
  | .clone i =>
    match s.handles[i]? with
    | some ⟨r,.reading⟩ => some {s with
        resetters := s.resetters.modify r (fun res => {res with shared := res.shared.clone})
        handles := s.handles++[⟨r,.entry⟩]}
    | _ => none
  | .take i =>
    match s.handles[i]? with
    | some ⟨r,.entry⟩ => some (s.move i r .context)
    | _ => none
  | .rename i new =>
    match s.handles[i]? with
    | some ⟨r,.context⟩ =>
      match s.resetters[r]? with
      | some res => some {s.move i r .renamed with
          times := Function.update s.times res.dir new
          replaced := s.replaced++[res.dir]}
      | none => none
    | _ => none
  | .activate i =>
    match s.handles[i]? with
    | some ⟨r,.renamed⟩ => some {s.move i r .context with
        resetters := s.resetters.modify r (fun res => {res with activated := true})}
    | _ => none
  | .drop i =>
    match s.handles[i]? with
    | some ⟨r,place⟩ =>
      if place=.renamed ∨ place=.dropped then none
      else some {s.move i r .dropped with
        resetters := s.resetters.modify r (fun res => {res with shared := res.shared.release})}
    | none => none
  | .finish r =>
    match s.resetters[r]? with
    | some res =>
      if res.shared=.dropping then
        let resetters := s.resetters.set r {res with shared := .dropped}
        if res.activated then some {s with
          times := Function.update s.times res.dir res.saved
          resetters := resetters
          restored := (r,res)::s.restored}
        else some {s with resetters := resetters}
      else none
    | none => none

end Steps

section Counting

variable {δ τ : Type}

/-- A handle of this resetter that is held. -/
def Holds (r : ℕ) (h : Handle) : Prop := h.resetter=r ∧ h.place≠.dropped

instance (r : ℕ) : DecidablePred (Holds r) := fun _ => inferInstanceAs (Decidable (_ ∧ _))

/-- The number of handles of a resetter that are held. -/
def holders (r : ℕ) (handles : List Handle) : ℕ := tally (indicator (Holds r)) handles

/-- Counts agree with the handles, and handles are of resetters that exist. -/
structure Counted (s : State δ τ) : Prop where
  /-- The count of every resetter. -/
  counts : ∀ (r : ℕ) (res : Resetter δ τ), s.resetters[r]?=some res →
    res.shared.Counts (holders r s.handles) ∧ res.shared≠.unmade
  /-- No handle dangles. -/
  known : ∀ h∈s.handles, h.resetter<s.resetters.length

/-- A handle that is held keeps its resetter from being dropped. -/
theorem holders_pos {handles : List Handle} {i r : ℕ} {place : Place}
    (h : handles[i]?=some ⟨r,place⟩) (hplace : place≠.dropped) : 0<holders r handles := by
  have hle := le_tally (indicator (Holds r)) h
  have hone : indicator (Holds r) (⟨r,place⟩ : Handle)=1 := indicator_of ⟨rfl,hplace⟩
  unfold holders
  omega

/-- A handle that moves between holders is still held. -/
theorem holders_move {handles : List Handle} {i r : ℕ} {old new : Place}
    (h : handles[i]?=some ⟨r,old⟩) (hold : old≠.dropped) (hnew : new≠.dropped) (q : ℕ) :
    holders q (handles.set i ⟨r,new⟩)=holders q handles := by
  have hset := tally_set (indicator (Holds q)) (⟨r,new⟩ : Handle) h
  have hsame : indicator (Holds q) (⟨r,new⟩ : Handle)=indicator (Holds q) (⟨r,old⟩ : Handle) := by
    simp [indicator,Holds,hold,hnew]
  unfold holders
  omega

/-- A dropped handle is one fewer for its resetter. -/
theorem holders_drop {handles : List Handle} {i r : ℕ} {old : Place}
    (h : handles[i]?=some ⟨r,old⟩) (hold : old≠.dropped) (q : ℕ) :
    holders q handles=holders q (handles.set i ⟨r,.dropped⟩)+if r=q then 1 else 0 := by
  have hset := tally_set (indicator (Holds q)) (⟨r,.dropped⟩ : Handle) h
  have hnew : indicator (Holds q) (⟨r,.dropped⟩ : Handle)=0 := by simp [indicator,Holds]
  have hwas : indicator (Holds q) (⟨r,old⟩ : Handle)=if r=q then 1 else 0 := by
    simp [indicator,Holds,hold]
  unfold holders
  omega

/-- A new handle is one more for its resetter. -/
theorem holders_snoc {handles : List Handle} {r : ℕ} {place : Place} (hplace : place≠.dropped)
    (q : ℕ) : holders q (handles++[⟨r,place⟩])=holders q handles+if r=q then 1 else 0 := by
  have hnew : indicator (Holds q) (⟨r,place⟩ : Handle)=if r=q then 1 else 0 := by
    simp [indicator,Holds,hplace]
  unfold holders
  rw [tally_snoc,hnew]

/-- Nobody holds a resetter that does not exist yet. -/
theorem Counted.holders_fresh {s : State δ τ} (hs : Counted s) :
    holders s.resetters.length s.handles=0 := by
  refine tally_indicator_eq_zero_iff.mpr fun h hmem hholds => ?_
  have hlt := hs.known h hmem
  have heq := hholds.1
  omega

/-- An element of a list after one was modified. -/
theorem modify_cases {α : Type} {xs : List α} {f : α→α} {i j : ℕ} {x : α}
    (h : (xs.modify i f)[j]?=some x) :
    ∃ old, xs[j]?=some old ∧ (i=j ∧ x=f old ∨ i≠j ∧ x=old) := by
  rw [List.getElem?_modify] at h
  obtain ⟨old,hold,hx⟩ := Option.map_eq_some_iff.mp h
  refine ⟨old,hold,?_⟩
  by_cases hij : i=j
  · rw [if_pos hij] at hx
    exact .inl ⟨hij,hx.symm⟩
  · rw [if_neg hij] at hx
    exact .inr ⟨hij,hx.symm⟩

end Counting

section Counted

variable {δ τ : Type} {s : State δ τ}

/-- At the start nothing is held. -/
theorem counted_initial (original : δ→τ) : Counted (State.initial original) :=
  ⟨nofun,nofun⟩

/-- A held handle changes its holder. -/
theorem Counted.move (hs : Counted s) {i r : ℕ} {old new : Place} (h : s.handles[i]?=some ⟨r,old⟩)
    (hold : old≠.dropped) (hnew : new≠.dropped) : Counted (s.move i r new) := by
  constructor
  · intro q res hres
    have hcount := hs.counts q res hres
    rw [←holders_move h hold hnew q] at hcount
    exact hcount
  · have hlt := hs.known ⟨r,old⟩ (List.mem_of_getElem? h)
    exact forall_mem_set hs.known hlt

/-- A read makes a resetter with one handle. -/
theorem Counted.save (hs : Counted s) (dir : δ) : Counted {s with
    resetters := s.resetters++[⟨dir,s.times dir,false,.live 1⟩]
    handles := s.handles++[⟨s.resetters.length,.reading⟩]} := by
  constructor
  · intro q res hres
    dsimp only at hres ⊢
    rw [holders_snoc (by decide)]
    by_cases hq : q<s.resetters.length
    · rw [List.getElem?_append_left hq] at hres
      rw [if_neg (Nat.ne_of_gt hq)]
      exact hs.counts q res hres
    · have hlt := (List.getElem?_eq_some_iff.mp hres).1
      rw [List.length_append,List.length_singleton] at hlt
      have heq : s.resetters.length=q := by omega
      subst heq
      rw [List.getElem?_concat_length] at hres
      obtain rfl := Option.some.inj hres
      rw [if_pos rfl,hs.holders_fresh]
      exact ⟨⟨rfl,Nat.one_pos⟩,by simp⟩
  · intro h hmem
    dsimp only at hmem ⊢
    rw [List.length_append,List.length_singleton]
    rcases List.mem_append.mp hmem with hold|hnew
    · exact Nat.lt_succ_of_lt (hs.known h hold)
    · rw [List.mem_singleton.mp hnew]
      exact Nat.lt_succ_self _

/-- A file of the read gets a handle. -/
theorem Counted.clone (hs : Counted s) {i r : ℕ} {place : Place}
    (h : s.handles[i]?=some ⟨r,place⟩) (hplace : place≠.dropped) : Counted {s with
      resetters := s.resetters.modify r (fun res => {res with shared := res.shared.clone})
      handles := s.handles++[⟨r,.entry⟩]} := by
  constructor
  · intro q res hres
    dsimp only at hres ⊢
    rw [holders_snoc (by decide)]
    obtain ⟨old,hold,⟨rfl,rfl⟩|⟨hne,rfl⟩⟩ := modify_cases hres
    · have hheld := holders_pos h hplace
      obtain ⟨hcount,_⟩ := hs.counts r old hold
      rw [if_pos rfl]
      refine ⟨hcount.clone hheld,?_⟩
      rw [hcount.live hheld]
      simp [Arc.clone]
    · rw [if_neg hne]
      exact hs.counts q res hold
  · intro g hmem
    dsimp only at hmem ⊢
    rw [List.length_modify]
    rcases List.mem_append.mp hmem with hold|hnew
    · exact hs.known g hold
    · rw [List.mem_singleton.mp hnew]
      exact hs.known ⟨r,place⟩ (List.mem_of_getElem? h)

/-- What does not touch the count of a resetter leaves the counts right. -/
theorem Counted.modify (hs : Counted s) {r : ℕ} {f : Resetter δ τ→Resetter δ τ}
    (hf : ∀ res, (f res).shared=res.shared) :
    Counted {s with resetters := s.resetters.modify r f} := by
  constructor
  · intro q res hres
    obtain ⟨old,hold,⟨rfl,rfl⟩|⟨_,rfl⟩⟩ := modify_cases hres
    · rw [hf]
      exact hs.counts r old hold
    · exact hs.counts q res hold
  · intro h hmem
    dsimp only
    rw [List.length_modify]
    exact hs.known h hmem

/-- A handle is dropped. -/
theorem Counted.drop (hs : Counted s) {i r : ℕ} {place : Place}
    (h : s.handles[i]?=some ⟨r,place⟩) (hplace : place≠.dropped) : Counted {s.move i r .dropped with
      resetters := s.resetters.modify r (fun res => {res with shared := res.shared.release})} := by
  constructor
  · intro q res hres
    dsimp only [State.move] at hres ⊢
    have hdrop := holders_drop h hplace q
    obtain ⟨old,hold,⟨rfl,rfl⟩|⟨hne,rfl⟩⟩ := modify_cases hres
    · obtain ⟨hcount,_⟩ := hs.counts r old hold
      rw [hdrop,if_pos rfl] at hcount
      exact ⟨hcount.release,(Arc.release_pending hcount).1⟩
    · rw [if_neg hne,Nat.add_zero] at hdrop
      rw [←hdrop]
      exact hs.counts q res hold
  · intro g hmem
    dsimp only [State.move] at hmem ⊢
    rw [List.length_modify]
    have hlt : (⟨r,.dropped⟩ : Handle).resetter<s.resetters.length :=
      hs.known ⟨r,place⟩ (List.mem_of_getElem? h)
    exact forall_mem_set hs.known hlt g hmem

/-- A destructor runs. -/
theorem Counted.finish (hs : Counted s) {r : ℕ} {res : Resetter δ τ} (h : s.resetters[r]?=some res)
    (hshared : res.shared=.dropping) :
    Counted {s with resetters := s.resetters.set r {res with shared := .dropped}} := by
  constructor
  · intro q other hother
    rcases getElem?_set_cases hother with ⟨rfl,rfl⟩|⟨_,hold⟩
    · exact ⟨(hs.counts q res h).1.dropping hshared,by simp⟩
    · exact hs.counts q other hold
  · intro g hmem
    dsimp only
    rw [List.length_set]
    exact hs.known g hmem

end Counted

section Moves

variable {δ τ : Type} [DecidableEq δ]

/-- What a step does. -/
inductive Moves (s : State δ τ) : Event δ τ→State δ τ→Prop
  | save (dir : δ) : Moves s (.save dir) {s with
      resetters := s.resetters++[⟨dir,s.times dir,false,.live 1⟩]
      handles := s.handles++[⟨s.resetters.length,.reading⟩]}
  | clone {i r : ℕ} (h : s.handles[i]?=some ⟨r,.reading⟩) : Moves s (.clone i) {s with
      resetters := s.resetters.modify r (fun res => {res with shared := res.shared.clone})
      handles := s.handles++[⟨r,.entry⟩]}
  | take {i r : ℕ} (h : s.handles[i]?=some ⟨r,.entry⟩) : Moves s (.take i) (s.move i r .context)
  | rename {i r : ℕ} {res : Resetter δ τ} (h : s.handles[i]?=some ⟨r,.context⟩)
      (hres : s.resetters[r]?=some res) (new : τ) :
      Moves s (.rename i new) {s.move i r .renamed with
        times := Function.update s.times res.dir new
        replaced := s.replaced++[res.dir]}
  | activate {i r : ℕ} (h : s.handles[i]?=some ⟨r,.renamed⟩) :
      Moves s (.activate i) {s.move i r .context with
        resetters := s.resetters.modify r (fun res => {res with activated := true})}
  | drop {i r : ℕ} {place : Place} (h : s.handles[i]?=some ⟨r,place⟩)
      (hplace : place≠.renamed ∧ place≠.dropped) : Moves s (.drop i) {s.move i r .dropped with
        resetters := s.resetters.modify r (fun res => {res with shared := res.shared.release})}
  | restore {r : ℕ} {res : Resetter δ τ} (h : s.resetters[r]?=some res)
      (hshared : res.shared=.dropping) (hactive : res.activated=true) : Moves s (.finish r) {s with
        times := Function.update s.times res.dir res.saved
        resetters := s.resetters.set r {res with shared := .dropped}
        restored := (r,res)::s.restored}
  | discard {r : ℕ} {res : Resetter δ τ} (h : s.resetters[r]?=some res)
      (hshared : res.shared=.dropping) (hidle : ¬res.activated=true) : Moves s (.finish r)
        {s with resetters := s.resetters.set r {res with shared := .dropped}}

/-- Every step is one of these. -/
theorem moves_of_step {s t : State δ τ} {e : Event δ τ} (h : step s e=some t) :
    Moves s e t := by
  cases e with
  | save dir =>
    obtain rfl := Option.some.inj h
    exact .save dir
  | clone i =>
    simp only [step] at h
    split at h
    · next r hget =>
      obtain rfl := Option.some.inj h
      exact .clone hget
    · cases h
  | take i =>
    simp only [step] at h
    split at h
    · next r hget =>
      obtain rfl := Option.some.inj h
      exact .take hget
    · cases h
  | rename i new =>
    simp only [step] at h
    split at h
    · next r hget =>
      split at h
      · next res hres =>
        obtain rfl := Option.some.inj h
        exact .rename hget hres new
      · cases h
    · cases h
  | activate i =>
    simp only [step] at h
    split at h
    · next r hget =>
      obtain rfl := Option.some.inj h
      exact .activate hget
    · cases h
  | drop i =>
    simp only [step] at h
    split at h
    · next r place hget =>
      split_ifs at h with hplace
      obtain rfl := Option.some.inj h
      exact .drop hget (not_or.mp hplace)
    · cases h
  | finish r =>
    simp only [step] at h
    split at h
    · next res hget =>
      split_ifs at h with hshared hactive
      · obtain rfl := Option.some.inj h
        exact .restore hget hshared hactive
      · obtain rfl := Option.some.inj h
        exact .discard hget hshared hactive
    · cases h

/-- Every step keeps the counts right. -/
theorem Counted.moves {s t : State δ τ} {e : Event δ τ} (hs : Counted s) (h : Moves s e t) :
    Counted t := by
  cases h with
  | save dir => exact hs.save dir
  | clone hget => exact hs.clone hget (by decide)
  | take hget => exact hs.move hget (by decide) (by decide)
  | rename hget hres new =>
    have hmove := @Counted.move _ _ _ hs _ _ _ .renamed hget (by decide) (by decide)
    exact ⟨hmove.counts,hmove.known⟩
  | activate hget => exact (hs.move hget (by decide) (by decide)).modify fun _ => rfl
  | drop hget hplace => exact hs.drop hget hplace.2
  | restore hget hshared hactive =>
    have hfinish := hs.finish hget hshared
    exact ⟨hfinish.counts,hfinish.known⟩
  | discard hget hshared hidle => exact hs.finish hget hshared

end Moves

section Pending

variable {δ τ : Type}

/-- A resetter of a directory that will put times back. -/
def Armed (dir : δ) (res : Resetter δ τ) : Prop :=
  res.dir=dir ∧ res.activated=true ∧ res.shared≠.dropped

/-- A restoration of this directory is still to come. -/
def Pending (s : State δ τ) (dir : δ) : Prop :=
  (∃ (r : ℕ) (res : Resetter δ τ), s.resetters[r]?=some res ∧ Armed dir res) ∨
    ∃ (i r : ℕ) (res : Resetter δ τ),
      s.handles[i]?=some ⟨r,.renamed⟩ ∧ s.resetters[r]?=some res ∧ res.dir=dir

/-- The handles of renamed files stay what they are. -/
def KeepsRenamed (old new : List Handle) : Prop :=
  ∀ (i r : ℕ), old[i]?=some ⟨r,.renamed⟩ → new[i]?=some ⟨r,.renamed⟩

/-- Resetters keep their directories, and those of one directory that are armed stay armed. -/
def KeepsArmed (dir : δ) (old new : List (Resetter δ τ)) : Prop :=
  ∀ (r : ℕ) (res : Resetter δ τ), old[r]?=some res →
    ∃ next, new[r]?=some next ∧ next.dir=res.dir ∧ (Armed dir res → Armed dir next)

/-- What keeps the armed resetters and the renamed files keeps a restoration pending. -/
theorem Pending.keep {s t : State δ τ} {dir : δ} (h : Pending s dir)
    (hres : KeepsArmed dir s.resetters t.resetters) (hhandles : KeepsRenamed s.handles t.handles) :
    Pending t dir := by
  rcases h with ⟨r,res,hget,harmed⟩|⟨i,r,res,hhandle,hget,hdir⟩
  · obtain ⟨next,hnext,_,hkeep⟩ := hres r res hget
    exact .inl ⟨r,next,hnext,hkeep harmed⟩
  · obtain ⟨next,hnext,hsame,_⟩ := hres r res hget
    exact .inr ⟨i,r,next,hhandles i r hhandle,hnext,hsame.trans hdir⟩

/-- Lists that do not change keep everything. -/
theorem keepsArmed_refl (dir : δ) (xs : List (Resetter δ τ)) : KeepsArmed dir xs xs :=
  fun _ res h => ⟨res,h,rfl,id⟩

/-- A new resetter at the end disarms none. -/
theorem keepsArmed_snoc (dir : δ) (xs : List (Resetter δ τ)) (res : Resetter δ τ) :
    KeepsArmed dir xs (xs++[res]) := by
  intro r old h
  have hlt := (List.getElem?_eq_some_iff.mp h).1
  exact ⟨old,by rw [List.getElem?_append_left hlt]; exact h,rfl,id⟩

/-- A modification of one resetter that keeps it armed disarms none. -/
theorem keepsArmed_modify {dir : δ} {xs : List (Resetter δ τ)} {r : ℕ}
    {f : Resetter δ τ→Resetter δ τ} (hdir : ∀ res, (f res).dir=res.dir)
    (harmed : ∀ res, Armed dir res → Armed dir (f res)) : KeepsArmed dir xs (xs.modify r f) := by
  intro q res h
  rw [List.getElem?_modify,h]
  by_cases hq : r=q
  · exact ⟨f res,by simp [hq],hdir res,harmed res⟩
  · exact ⟨res,by simp [hq],rfl,id⟩

/-- A resetter that is replaced by one of its directory disarms none when it was not armed. -/
theorem keepsArmed_set {dir : δ} {xs : List (Resetter δ τ)} {r : ℕ} {old new : Resetter δ τ}
    (h : xs[r]?=some old) (hdir : new.dir=old.dir) (hnot : ¬Armed dir old) :
    KeepsArmed dir xs (xs.set r new) := by
  intro q res hget
  by_cases hq : r=q
  · subst hq
    obtain rfl := Option.some.inj (h.symm.trans hget)
    have hlt := (List.getElem?_eq_some_iff.mp h).1
    exact ⟨new,List.getElem?_set_self hlt,hdir,fun harmed => absurd harmed hnot⟩
  · exact ⟨res,by rw [List.getElem?_set_ne hq]; exact hget,rfl,id⟩

/-- A new handle at the end hides no renamed file. -/
theorem keepsRenamed_snoc (xs : List Handle) (h : Handle) : KeepsRenamed xs (xs++[h]) := by
  intro i r hget
  have hlt := (List.getElem?_eq_some_iff.mp hget).1
  rw [List.getElem?_append_left hlt]
  exact hget

/-- A handle of no renamed file may change. -/
theorem keepsRenamed_set {xs : List Handle} {i r : ℕ} {place : Place} {new : Handle}
    (h : xs[i]?=some ⟨r,place⟩) (hplace : place≠.renamed) : KeepsRenamed xs (xs.set i new) := by
  intro j q hget
  by_cases hij : i=j
  · subst hij
    have hsame := Option.some.inj (h.symm.trans hget)
    exact absurd (Handle.mk.inj hsame).2 hplace
  · rw [List.getElem?_set_ne hij]
    exact hget

/-- A release drops no shared value. -/
theorem release_ne_dropped {a : Arc} (h : a≠.dropped) : a.release≠.dropped := by
  unfold Arc.release
  split
  · simp
  · simp
  · exact h

/-- A clone drops no shared value. -/
theorem clone_ne_dropped {a : Arc} (h : a≠.dropped) : a.clone≠.dropped := by
  unfold Arc.clone
  split
  · simp
  · exact h

/-- When everything is dropped, no restoration is still to come. -/
theorem Counted.not_pending {t : State δ τ} (hcount : Counted t) (hfinished : Finished t) (dir : δ) :
    ¬Pending t dir := by
  rintro (⟨r,res,hget,_,_,hshared⟩|⟨i,r,res,hhandle,_⟩)
  · obtain ⟨hcounts,hmade⟩ := hcount.counts r res hget
    have hquiet := hfinished.resetters res (List.mem_of_getElem? hget)
    have hnone : holders r t.handles=0 :=
      tally_indicator_eq_zero_iff.mpr fun h hmem hholds => hholds.2 (hfinished.handles h hmem)
    rw [hnone] at hcounts
    cases hstate : res.shared with
    | unmade => exact hmade hstate
    | live handles =>
      rw [hstate] at hcounts
      exact absurd hcounts.2 (Nat.lt_irrefl 0)
    | dropping => exact hquiet hstate
    | dropped => exact hshared hstate
  · have hbad := hfinished.handles _ (List.mem_of_getElem? hhandle)
    cases hbad

end Pending

section Tracking

variable {δ τ : Type} [DecidableEq δ] {original : δ→τ}

/-- The times a directory has when nothing is pending: those of the resetter that put times back
last, or else those of the start. -/
def lastSaved (original : δ→τ) (restored : List (ℕ×Resetter δ τ)) (dir : δ) : τ :=
  match restored.find? (fun last => last.2.dir=dir) with
  | some last => last.2.saved
  | none => original dir

/-- Every directory waits for a restoration or shows the last one. -/
def Tracked (original : δ→τ) (s : State δ τ) : Prop :=
  ∀ dir, Pending s dir ∨ s.times dir=lastSaved original s.restored dir

/-- The last restoration of another directory is not affected. -/
theorem lastSaved_cons_ne {r : ℕ} {res : Resetter δ τ} {restored : List (ℕ×Resetter δ τ)} {dir : δ}
    (h : res.dir≠dir) :
    lastSaved original ((r,res)::restored) dir=lastSaved original restored dir := by
  unfold lastSaved
  rw [List.find?_cons_of_neg (by simpa using h)]

/-- The last restoration is the newest one. -/
theorem lastSaved_cons_self (r : ℕ) (res : Resetter δ τ) (restored : List (ℕ×Resetter δ τ)) :
    lastSaved original ((r,res)::restored) res.dir=res.saved := by
  unfold lastSaved
  rw [List.find?_cons_of_pos (by simp)]

/-- Every step keeps track of the directories. -/
theorem Tracked.moves {s t : State δ τ} {e : Event δ τ} (hs : Tracked original s)
    (hcount : Counted s) (h : Moves s e t) : Tracked original t := by
  intro dir
  cases h with
  | save new =>
    rcases hs dir with hpending|htimes
    · exact .inl (hpending.keep (keepsArmed_snoc dir _ _) (keepsRenamed_snoc _ _))
    · exact .inr htimes
  | clone hget =>
    rcases hs dir with hpending|htimes
    · refine .inl (hpending.keep (keepsArmed_modify (fun _ => rfl) fun res harmed => ?_)
        (keepsRenamed_snoc _ _))
      exact ⟨harmed.1,harmed.2.1,clone_ne_dropped harmed.2.2⟩
    · exact .inr htimes
  | take hget =>
    rcases hs dir with hpending|htimes
    · exact .inl (hpending.keep (keepsArmed_refl dir _) (keepsRenamed_set hget (by decide)))
    · exact .inr htimes
  | @rename i r res hget hres new =>
    by_cases hdir : res.dir=dir
    · have hlt := (List.getElem?_eq_some_iff.mp hget).1
      exact .inl (Or.inr ⟨i,r,res,List.getElem?_set_self hlt,hres,hdir⟩)
    · rcases hs dir with hpending|htimes
      · exact .inl (hpending.keep (keepsArmed_refl dir _) (keepsRenamed_set hget (by decide)))
      · refine .inr ?_
        dsimp only
        rw [Function.update_of_ne (Ne.symm hdir)]
        exact htimes
  | @activate i r hget =>
    have hlt := hcount.known _ (List.mem_of_getElem? hget)
    obtain ⟨owner,hres⟩ : ∃ owner, s.resetters[r]?=some owner := ⟨_,List.getElem?_eq_getElem hlt⟩
    have hshared := (hcount.counts r _ hres).1.live (holders_pos hget (by decide))
    by_cases hdir : owner.dir=dir
    · refine .inl (Or.inl ⟨r,{owner with activated := true},?_,hdir,rfl,?_⟩)
      · dsimp only
        rw [List.getElem?_modify,hres]
        simp
      · dsimp only
        rw [hshared]
        simp
    · rcases hs dir with hpending|htimes
      · have hkeep : KeepsArmed dir s.resetters
            (s.resetters.modify r (fun res => {res with activated := true})) :=
          keepsArmed_modify (fun _ => rfl) fun res harmed => ⟨harmed.1,rfl,harmed.2.2⟩
        rcases hpending with ⟨q,res,hq,harmed⟩|⟨j,q,res,hj,hq,hsame⟩
        · obtain ⟨next,hnext,_,harms⟩ := hkeep q res hq
          exact .inl (Or.inl ⟨q,next,hnext,harms harmed⟩)
        · obtain ⟨next,hnext,heq,_⟩ := hkeep q res hq
          refine .inl (Or.inr ⟨j,q,next,?_,hnext,heq.trans hsame⟩)
          have hij : i≠j := by
            rintro rfl
            obtain rfl := (Handle.mk.inj (Option.some.inj (hget.symm.trans hj))).1
            obtain rfl := Option.some.inj (hres.symm.trans hq)
            exact hdir hsame
          dsimp only [State.move]
          rw [List.getElem?_set_ne hij]
          exact hj
      · exact .inr htimes
  | drop hget hplace =>
    rcases hs dir with hpending|htimes
    · refine .inl (hpending.keep (keepsArmed_modify (fun _ => rfl) fun res harmed => ?_)
        (keepsRenamed_set hget hplace.1))
      exact ⟨harmed.1,harmed.2.1,release_ne_dropped harmed.2.2⟩
    · exact .inr htimes
  | @restore r res hget hshared hactive =>
    by_cases hdir : res.dir=dir
    · subst hdir
      refine .inr ?_
      dsimp only
      rw [Function.update_self,lastSaved_cons_self]
    · rcases hs dir with hpending|htimes
      · refine .inl (hpending.keep (keepsArmed_set hget rfl fun harmed => hdir harmed.1) ?_)
        exact fun _ _ h => h
      · refine .inr ?_
        dsimp only
        rw [Function.update_of_ne (Ne.symm hdir),lastSaved_cons_ne hdir]
        exact htimes
  | @discard r res hget hshared hidle =>
    rcases hs dir with hpending|htimes
    · refine .inl (hpending.keep (keepsArmed_set hget rfl fun harmed => hidle harmed.2.1) ?_)
      exact fun _ _ h => h
    · exact .inr htimes

end Tracking

section Saves

variable {δ τ : Type}

/-- A resetter is of a directory and has its times from there. -/
def Saves (resetters : List (Resetter δ τ)) (r : ℕ) (dir : δ) (saved : τ) : Prop :=
  ∃ res, resetters[r]?=some res ∧ res.dir=dir ∧ res.saved=saved

/-- Two things that a resetter saves are the same. -/
theorem Saves.unique {resetters : List (Resetter δ τ)} {r : ℕ} {dir other : δ} {saved times : τ}
    (h : Saves resetters r dir saved) (k : Saves resetters r other times) :
    dir=other ∧ saved=times := by
  obtain ⟨res,hres,rfl,rfl⟩ := h
  obtain ⟨same,hsame,rfl,rfl⟩ := k
  obtain rfl := Option.some.inj (hres.symm.trans hsame)
  exact ⟨rfl,rfl⟩

/-- The same resetters as far as their directories and saved times go. -/
structure SameSaved (old new : List (Resetter δ τ)) : Prop where
  /-- No more and no fewer. -/
  length : new.length=old.length
  /-- Each at its place. -/
  saves : ∀ (r : ℕ) (dir : δ) (saved : τ), Saves old r dir saved → Saves new r dir saved

/-- A modification of a count or a flag saves the same. -/
theorem sameSaved_modify (xs : List (Resetter δ τ)) (q : ℕ) {f : Resetter δ τ→Resetter δ τ}
    (hf : ∀ old, (f old).dir=old.dir ∧ (f old).saved=old.saved) :
    SameSaved xs (xs.modify q f) := by
  refine ⟨List.length_modify _ _ _,fun r dir saved hsaves => ?_⟩
  obtain ⟨res,hres,hdir,hsaved⟩ := hsaves
  unfold Saves
  rw [List.getElem?_modify,hres]
  by_cases hq : q=r
  · exact ⟨f res,by simp [hq],(hf res).1.trans hdir,(hf res).2.trans hsaved⟩
  · exact ⟨res,by simp [hq],hdir,hsaved⟩

/-- A destructor that has run saves the same. -/
theorem sameSaved_set {xs : List (Resetter δ τ)} {q : ℕ} {old : Resetter δ τ}
    (hold : xs[q]?=some old) : SameSaved xs (xs.set q {old with shared := .dropped}) := by
  refine ⟨List.length_set,fun r dir saved hsaves => ?_⟩
  obtain ⟨res,hres,hdir,hsaved⟩ := hsaves
  have hlt := (List.getElem?_eq_some_iff.mp hres).1
  by_cases hq : q=r
  · subst hq
    obtain rfl := Option.some.inj (hres.symm.trans hold)
    exact ⟨_,List.getElem?_set_self hlt,hdir,hsaved⟩
  · exact ⟨res,by rw [List.getElem?_set_ne hq]; exact hres,hdir,hsaved⟩

end Saves

section Reads

variable {δ τ : Type} [DecidableEq δ]

/-- A step that reads a directory and makes the resetter of this number. -/
def Reads (dir : δ) (r : ℕ) (p : State δ τ×Event δ τ) : Prop :=
  p.2=.save dir ∧ p.1.resetters.length=r

/-- Resetters come from the reads of a run, one from each. -/
structure Made (trace : List (State δ τ×Event δ τ)) (s : State δ τ) : Prop where
  /-- A read made its resetter. -/
  reads : ∀ p∈trace, ∀ (dir : δ) (r : ℕ), Reads dir r p → Saves s.resetters r dir (p.1.times dir)
  /-- A resetter was made by a read. -/
  made : ∀ (r : ℕ) (res : Resetter δ τ), s.resetters[r]?=some res → ∃ p∈trace, Reads res.dir r p
  /-- Restored times come from a resetter. -/
  restored : ∀ last∈s.restored, Saves s.resetters last.1 last.2.dir last.2.saved

/-- Only a read changes what the resetters save: it makes one more. -/
theorem Moves.resetters {s t : State δ τ} {e : Event δ τ} (h : Moves s e t) :
    (∃ dir, e=.save dir ∧ t.resetters=s.resetters++[⟨dir,s.times dir,false,.live 1⟩]) ∨
      (∀ dir, e≠.save dir) ∧ SameSaved s.resetters t.resetters := by
  have hsame : SameSaved s.resetters s.resetters := ⟨rfl,fun _ _ _ h => h⟩
  cases h with
  | save dir => exact .inl ⟨dir,rfl,rfl⟩
  | clone hget => exact .inr ⟨nofun,sameSaved_modify _ _ fun _ => ⟨rfl,rfl⟩⟩
  | take hget => exact .inr ⟨nofun,hsame⟩
  | rename hget howner new => exact .inr ⟨nofun,hsame⟩
  | activate hget => exact .inr ⟨nofun,sameSaved_modify _ _ fun _ => ⟨rfl,rfl⟩⟩
  | drop hget hplace => exact .inr ⟨nofun,sameSaved_modify _ _ fun _ => ⟨rfl,rfl⟩⟩
  | restore hget hshared hactive => exact .inr ⟨nofun,sameSaved_set hget⟩
  | discard hget hshared hidle => exact .inr ⟨nofun,sameSaved_set hget⟩

/-- What a resetter saves, it saves after any step. -/
theorem Moves.saves {s t : State δ τ} {e : Event δ τ} (h : Moves s e t) {r : ℕ} {dir : δ} {saved : τ}
    (hsaves : Saves s.resetters r dir saved) : Saves t.resetters r dir saved := by
  rcases h.resetters with ⟨new,_,hnew⟩|⟨_,hsame⟩
  · obtain ⟨res,hres,hdir,hsaved⟩ := hsaves
    have hlt := (List.getElem?_eq_some_iff.mp hres).1
    rw [hnew]
    exact ⟨res,by rw [List.getElem?_append_left hlt]; exact hres,hdir,hsaved⟩
  · exact hsame.saves r dir saved hsaves

/-- A step keeps every resetter with the read that made it. -/
theorem Made.moves {s t : State δ τ} {e : Event δ τ} {trace : List (State δ τ×Event δ τ)}
    (hs : Made trace s) (h : Moves s e t) : Made (trace++[(s,e)]) t := by
  constructor
  · intro p hp dir r hreads
    rcases List.mem_append.mp hp with hold|hnew
    · exact h.saves (hs.reads p hold dir r hreads)
    · obtain rfl := List.mem_singleton.mp hnew
      obtain ⟨hevent,hnumber⟩ := hreads
      dsimp only at hevent hnumber ⊢
      rcases h.resetters with ⟨new,hsave,hres⟩|⟨hnot,_⟩
      · obtain rfl := Event.save.inj (hevent.symm.trans hsave)
        subst hnumber
        rw [hres]
        exact ⟨_,List.getElem?_concat_length,rfl,rfl⟩
      · exact absurd hevent (hnot dir)
  · intro r res hres
    rcases h.resetters with ⟨new,hsave,hlist⟩|⟨_,hsame⟩
    · rw [hlist] at hres
      by_cases hlt : r<s.resetters.length
      · rw [List.getElem?_append_left hlt] at hres
        obtain ⟨p,hp,hreads⟩ := hs.made r res hres
        exact ⟨p,List.mem_append_left _ hp,hreads⟩
      · have hle := (List.getElem?_eq_some_iff.mp hres).1
        rw [List.length_append,List.length_singleton] at hle
        have heq : s.resetters.length=r := by omega
        subst heq
        rw [List.getElem?_concat_length] at hres
        obtain rfl := Option.some.inj hres
        exact ⟨(s,e),List.mem_append_right _ List.mem_cons_self,hsave,rfl⟩
    · have hlt := (List.getElem?_eq_some_iff.mp hres).1
      rw [hsame.length] at hlt
      obtain ⟨old,hold⟩ : ∃ old, s.resetters[r]?=some old := ⟨_,List.getElem?_eq_getElem hlt⟩
      obtain ⟨hdir,_⟩ := (hsame.saves r _ _ ⟨old,hold,rfl,rfl⟩).unique ⟨res,hres,rfl,rfl⟩
      obtain ⟨p,hp,hreads⟩ := hs.made r old hold
      rw [hdir] at hreads
      exact ⟨p,List.mem_append_left _ hp,hreads⟩
  · intro last hlast
    cases h with
    | @restore r res hget hshared hactive =>
      have hkeep := Moves.restore hget hshared hactive
      rcases List.mem_cons.mp hlast with rfl|hold
      · exact hkeep.saves ⟨res,hget,rfl,rfl⟩
      · exact hkeep.saves (hs.restored last hold)
    | save dir => exact (Moves.save dir).saves (hs.restored last hlast)
    | clone hget => exact (Moves.clone hget).saves (hs.restored last hlast)
    | take hget => exact hs.restored last hlast
    | rename hget hres new => exact hs.restored last hlast
    | activate hget => exact (Moves.activate hget).saves (hs.restored last hlast)
    | drop hget hplace => exact (Moves.drop hget hplace).saves (hs.restored last hlast)
    | discard hget hshared hidle =>
      exact (Moves.discard hget hshared hidle).saves (hs.restored last hlast)

end Reads

section Runs

variable {δ τ : Type} [DecidableEq δ] {original : δ→τ} {t : State δ τ}
  {trace : List (State δ τ×Event δ τ)}

/-- At the start every directory has its times. -/
theorem tracked_initial (original : δ→τ) : Tracked original (State.initial original) :=
  fun _ => .inr rfl

/-- Every run keeps the counts, tracks the directories and makes resetters by reads. -/
theorem run_keeps (hrun : Run step (State.initial original) trace t) :
    (Counted t ∧ Tracked original t) ∧ Made trace t := by
  induction hrun with
  | nil => exact ⟨⟨counted_initial original,tracked_initial original⟩,⟨nofun,nofun,nofun⟩⟩
  | snoc run last ih =>
    obtain ⟨⟨hcount,htracked⟩,hmade⟩ := ih
    have hmoves := moves_of_step last
    exact ⟨⟨hcount.moves hmoves,htracked.moves hcount hmoves⟩,hmade.moves hmoves⟩

/-- The resetter of a directory that put times back last has this number. -/
def LastRestorer (s : State δ τ) (dir : δ) (r : ℕ) : Prop :=
  ∃ res, s.restored.find? (fun last => last.2.dir=dir)=some (r,res)

/-- In every finished run: the replaced directories have their original times exactly when, for
each of them, the resetter that put times back last was made by a read at which the directory
had them. -/
theorem times_preserved_iff (hrun : Run step (State.initial original) trace t)
    (hfinished : Finished t) :
    (∀ dir∈t.replaced, t.times dir=original dir) ↔
      ∀ dir∈t.replaced, ∀ r, LastRestorer t dir r →
        ∀ p∈trace, Reads dir r p → p.1.times dir=original dir := by
  obtain ⟨⟨hcount,htracked⟩,hmade⟩ := run_keeps hrun
  refine forall₂_congr fun dir _ => ?_
  have htimes : t.times dir=lastSaved original t.restored dir :=
    (htracked dir).resolve_left (hcount.not_pending hfinished dir)
  unfold lastSaved at htimes
  unfold LastRestorer
  cases hfind : t.restored.find? (fun last => last.2.dir=dir) with
  | none =>
    rw [hfind] at htimes
    refine iff_of_true htimes ?_
    rintro r ⟨res,hbad⟩
    cases hbad
  | some last =>
    rw [hfind] at htimes
    have hdir : last.2.dir=dir := by simpa using List.find?_some hfind
    have hsaves := hmade.restored last (List.mem_of_find?_eq_some hfind)
    constructor
    · rintro horiginal r ⟨res,hlast⟩ p hp hreads
      obtain rfl := Option.some.inj hlast
      obtain ⟨_,hsame⟩ := hsaves.unique (hmade.reads p hp dir r hreads)
      rw [←hsame]
      exact htimes.symm.trans horiginal
    · intro hreads
      obtain ⟨res,hres,howner,_⟩ := hsaves
      obtain ⟨p,hp,hread⟩ := hmade.made last.1 res hres
      rw [howner,hdir] at hread
      obtain ⟨_,hsame⟩ := (hmade.restored last (List.mem_of_find?_eq_some hfind)).unique
        (hmade.reads p hp dir last.1 hread)
      rw [htimes]
      exact hsame.trans (hreads last.1 ⟨last.2,rfl⟩ p hp hread)

/-- When every read of a run finds the original times, they are preserved. -/
theorem timely_reads_preserve (hrun : Run step (State.initial original) trace t)
    (hfinished : Finished t)
    (htimely : ∀ p∈trace, ∀ dir, p.2=.save dir → p.1.times dir=original dir) :
    ∀ dir∈t.replaced, t.times dir=original dir :=
  (times_preserved_iff hrun hfinished).mpr fun dir _ _ _ p hp hreads => htimely p hp dir hreads.1

/-- One read, one replaced file: the directory has its times in the end. -/
theorem single_read_preserves :
    ∃ trace t, Run step (State.initial fun _ : ℕ => 0) trace t ∧ t.replaced=[0] ∧
      ∀ dir∈t.replaced, t.times dir=0 := by
  let events : List (Event ℕ ℕ) :=
    [.save 0,.clone 0,.drop 0,.take 1,.rename 1 5,.activate 1,.drop 1,.finish 0]
  refine ⟨_,_,@run_of_replay _ _ step (State.initial fun _ => 0) _ events _ rfl,rfl,?_⟩
  refine (times_preserved_iff (@run_of_replay _ _ step (State.initial fun _ => 0) _ events _ rfl)
    ⟨by decide,by decide⟩).mpr fun dir hdir r hlast p hp hreads => ?_
  obtain ⟨hevent,_⟩ := hreads
  rcases List.mem_cons.mp hp with rfl|hlater
  · rfl
  · simp only [List.mem_cons,List.not_mem_nil,or_false] at hlater
    rcases hlater with rfl|rfl|rfl|rfl|rfl|rfl|rfl
    all_goals cases hevent

/-- Two files of one directory as roots: the second read comes between the rename of the first file
and the restoration, and its times are the ones that stay. -/
theorem second_root_changes_times :
    ¬∀ (original : ℕ→ℕ) (trace : List (State ℕ ℕ×Event ℕ ℕ)) (t : State ℕ ℕ),
      Run step (State.initial original) trace t → Finished t →
      ∀ dir∈t.replaced, t.times dir=original dir := by
  intro h
  let events : List (Event ℕ ℕ) :=
    [.save 0,.clone 0,.drop 0,.take 1,.rename 1 5,.activate 1,.save 0,.clone 2,.drop 2,.take 3,
      .drop 1,.finish 0,.rename 3 6,.activate 3,.drop 3,.finish 1]
  have hfinal := h (fun _ => 0) _ _
    (@run_of_replay _ _ step (State.initial fun _ => 0) _ events _ rfl) ⟨by decide,by decide⟩ 0
    (by decide)
  exact absurd hfinal (by decide)

end Runs

end Applesauce.DirectoryTimes
