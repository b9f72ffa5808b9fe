import Applesauce.RustIo
import Applesauce.UnixPath

/-!
# Shortening a path for display

A path that is too wide loses components from its middle, one at a time, and
an ellipsis takes their place. The middle is found again after each removal,
in what is left. What has been removed is a run of neighbours all the same,
and the place of this run is where the ellipsis is inserted. A root with one
component after it has nothing to remove, but gets an ellipsis.
-/

namespace Applesauce.PathTruncation

open RustIo UnixPath

section Definitions

/-- `-=`; an underflow is a panic, as in a build with overflow checks. -/
def minus (x y : ℕ) : Except Fault ℕ :=
  if y≤ x then .ok (x-y) else .error (.panic "attempt to subtract with overflow")

/-- The ellipsis in UTF-8. -/
def ellipsis : Component := .normal [0xe2,0x80,0xa6]

/-- What the loop makes of `total_len` when it removes a segment. -/
def removeLen (totalLen : ℕ) (segment : Component) (first : Bool) : Except Fault ℕ := do
  let totalLen ← minus totalLen segment.asOsStr.length
  -- The first segment is replaced by the ellipsis, the others go with a separator.
  if first then .ok (totalLen+1) else minus totalLen 1

/-- The loop of `truncate_path`; it returns the segments that are left. -/
def truncateLoop (width : ℕ) (segments : List Component) (totalLen : ℕ) (first : Bool) :
    Except Fault (List Component) :=
  if h : width<totalLen ∧ 1<segments.length then
    -- Bias toward the beginning for even counts
    let mid := (segments.length-1)/2
    have hmid : mid<segments.length := by omega
    let segment := segments[mid]
    if segment=.rootDir then .ok segments
    else do
      let totalLen ← removeLen totalLen segment first
      truncateLoop width (segments.eraseIdx mid) totalLen false
  else .ok segments
termination_by segments.length
decreasing_by
  rw [List.length_eraseIdx_of_lt hmid]
  omega

/-- `truncate_path`. -/
def truncatePath (path : List UInt8) (width : ℕ) : Except Fault (List UInt8) :=
  let segments := components path
  let totalLen := path.length
  if totalLen≤ width ∨ segments.length≤ 1 then .ok path
  else do
    let segments ← truncateLoop width segments totalLen true
    .ok (collect (segments.insertIdx (segments.length/2) ellipsis))

end Definitions

section Purpose

/-- The result is the path with a run of its components replaced by one ellipsis. The last
component is not in the run, nor is a leading root. -/
def Truncated (path result : List UInt8) : Prop :=
  ∃ front removed back,
    components path=front++removed++back ∧ removed≠[] ∧ back≠[] ∧
    ((components path).head?=some .rootDir → front.head?=some .rootDir) ∧
    components result=front++ellipsis::back

/-- The path is returned as it is, or with an ellipsis for some of its components. -/
def Keeps (path : List UInt8) (width : ℕ) : Prop :=
  ∃ result, truncatePath path width=.ok result ∧ (result=path ∨ Truncated path result)

end Purpose

section Gaps

variable {original front removed back : List Component} {c : Component}

/-- What is left of the components, on the two sides of the run that is removed. -/
structure Cut (original front removed back : List Component) : Prop where
  /-- The components that were there. -/
  parts : original=front++removed++back
  /-- The run was in the middle of what is left. -/
  middle : front.length=(front++back).length/2
  /-- The last component is left. -/
  last : back≠[]
  /-- So is a leading root. -/
  root : original.head?=some .rootDir→front.head?=some .rootDir

/-- At first nothing is removed. -/
theorem Cut.start (h : 1<original.length) :
    Cut original (original.take (original.length/2)) [] (original.drop (original.length/2)) where
  parts := by rw [List.append_nil,List.take_append_drop]
  middle := by
    rw [List.take_append_drop,List.length_take]
    omega
  last := by
    have hpos : 0<(original.drop (original.length/2)).length := by
      rw [List.length_drop]
      omega
    exact List.length_pos_iff.mp hpos
  root hhead := by
    have hne : original.length/2≠0 := by omega
    rwa [List.head?_take,if_neg hne]

/-- With as many components on both sides the last one in front can go, if it is not the root. -/
theorem Cut.takeFront (h : Cut original (front++[c]) removed back)
    (hsame : (front++[c]).length=back.length) (hc : c≠.rootDir) :
    Cut original front (c::removed) back where
  parts := by simp [h.parts]
  middle := by
    simp only [List.length_append,List.length_singleton] at hsame ⊢
    omega
  last := h.last
  root hhead := by
    have hfront := h.root hhead
    cases front with
    | nil => exact absurd (Option.some.inj hfront) hc
    | cons d front => exact hfront

/-- Otherwise the first one behind goes. -/
theorem Cut.takeBack (h : Cut original front removed (c::back))
    (hsame : front.length=back.length) (hback : back≠[]) :
    Cut original front (removed++[c]) back where
  parts := by simp [h.parts]
  middle := by
    rw [List.length_append]
    omega
  last := hback
  root := h.root

/-- The segment in the middle is next to the run, so it can join the run if it is not the root. -/
theorem Cut.pick (h : Cut original front removed back) (hlen : 1<(front++back).length) :
    ∃ before c after,
      front++back=before++c::after ∧ before.length=((front++back).length-1)/2 ∧
      (c≠.rootDir→
        ∃ front removed back,
          Cut original front removed back ∧ removed≠[] ∧ before++after=front++back) := by
  have hmiddle := h.middle
  rw [List.length_append] at hmiddle hlen
  by_cases hsame : front.length=back.length
  · obtain rfl|⟨init,c,rfl⟩ := List.eq_nil_or_concat' front
    · exact absurd (List.length_eq_zero_iff.mp hsame.symm) h.last
    refine ⟨init,c,back,by simp,?_,fun hc => ?_⟩
    · simp only [List.length_append,List.length_singleton] at hsame ⊢
      omega
    · exact ⟨init,c::removed,back,h.takeFront hsame hc,List.cons_ne_nil _ _,rfl⟩
  · obtain ⟨c,rest,rfl⟩ := List.exists_cons_of_ne_nil h.last
    rw [List.length_cons] at hmiddle hsame hlen
    have hrest : rest≠[] := by
      rintro rfl
      simp only [List.length_nil] at hmiddle hsame hlen
      omega
    refine ⟨front,c,rest,rfl,?_,fun _ => ?_⟩
    · rw [List.length_append,List.length_cons]
      omega
    · exact ⟨front,removed++[c],rest,h.takeBack (by omega) hrest,by simp,rfl⟩

/-- Insert between two lists. -/
theorem insertIdx_between {α : Type} (front back : List α) (c : α) :
    (front++back).insertIdx front.length c=front++c::back := by
  induction front with
  | nil => rfl
  | cons d front ih => exact congrArg (d::·) ih

/-- The place of the run is found again from what is left. -/
theorem Cut.insert (h : Cut original front removed back) (c : Component) :
    (front++back).insertIdx ((front++back).length/2) c=front++c::back := by
  rw [←h.middle,insertIdx_between]

end Gaps

section Loop

variable {width totalLen : ℕ} {first : Bool} {original front removed back : List Component}

/-- The length that is counted covers the components that are left. Once the ellipsis is counted
each of them has its separator. -/
def Covered (segments : List Component) (totalLen : ℕ) (first : Bool) : Prop :=
  weight segments≤ totalLen+if first then 2 else 0

/-- A subtraction without underflow. -/
theorem minus_of_le {x y : ℕ} (h : y≤ x) : minus x y=.ok (x-y) := if_pos h

/-- Neither subtraction underflows while another component is left. -/
theorem removeLen_covered {before after : List Component} {c : Component} (hne : before++after≠[])
    (h : Covered (before++c::after) totalLen first) :
    ∃ left, removeLen totalLen c first=.ok left ∧ Covered (before++after) left false := by
  have hpos := weight_pos hne
  have hc : weight [c]=c.asOsStr.length+1 := rfl
  unfold Covered at h ⊢
  rw [←List.singleton_append,weight_append,weight_append,hc] at h
  rw [weight_append] at hpos ⊢
  unfold removeLen
  cases first with
  | true =>
    rw [if_pos rfl] at h
    rw [minus_of_le (by omega)]
    refine ⟨totalLen-c.asOsStr.length+1,rfl,?_⟩
    rw [if_neg Bool.false_ne_true]
    omega
  | false =>
    rw [if_neg Bool.false_ne_true] at h ⊢
    rw [minus_of_le (by omega)]
    exact ⟨totalLen-c.asOsStr.length-1,minus_of_le (by omega),by omega⟩

/-- One round of the loop, with the segment in the middle written out. -/
theorem truncateLoop_middle {before after : List Component} {c : Component}
    (hwidth : width<totalLen) (hlen : 1<(before++c::after).length)
    (hmid : before.length=((before++c::after).length-1)/2) :
    truncateLoop width (before++c::after) totalLen first=
      if c=.rootDir then .ok (before++c::after)
      else removeLen totalLen c first>>=
        fun totalLen => truncateLoop width (before++after) totalLen false := by
  have herase : (before++c::after).eraseIdx before.length=before++after := by
    rw [List.eraseIdx_append_of_length_le (Nat.le_refl _),Nat.sub_self,List.eraseIdx_cons_zero]
  have hlt : before.length<(before++c::after).length := by simp
  have hsegment : (before++c::after)[before.length]=c := by simp
  rw [truncateLoop,dif_pos ⟨hwidth,hlen⟩]
  simp only [←hmid,hsegment,herase]

/-- A round stops at the root, or makes the run longer and goes on. -/
theorem truncateLoop_round (h : Cut original front removed back) (hwidth : width<totalLen)
    (hlen : 1<(front++back).length) (hcovered : Covered (front++back) totalLen first) :
    ((front++back)[((front++back).length-1)/2]?=some .rootDir ∧
      truncateLoop width (front++back) totalLen first=.ok (front++back)) ∨
    ∃ front' removed' back' left,
      Cut original front' removed' back' ∧ removed'≠[] ∧
      (front'++back').length<(front++back).length ∧ Covered (front'++back') left false ∧
      truncateLoop width (front++back) totalLen first=
        truncateLoop width (front'++back') left false := by
  obtain ⟨before,c,after,hsplit,hmid,hgoes⟩ := h.pick hlen
  rw [hsplit] at hlen hmid hcovered ⊢
  rw [truncateLoop_middle hwidth hlen hmid,←hmid]
  by_cases hc : c=.rootDir
  · rw [if_pos hc]
    exact .inl ⟨by simp [hc],rfl⟩
  · obtain ⟨front',removed',back',hcut,hremoved,hleft⟩ := hgoes hc
    have hne : before++after≠[] := by
      rw [hleft]
      exact List.append_ne_nil_of_right_ne_nil _ hcut.last
    obtain ⟨left,hcount,hcovered⟩ := removeLen_covered hne hcovered
    rw [if_neg hc,hcount]
    refine .inr ⟨front',removed',back',left,hcut,hremoved,?_,hleft ▸ hcovered,?_⟩
    · rw [←hleft]
      simp only [List.length_append,List.length_cons]
      omega
    · rw [←hleft]
      rfl

/-- The loop never fails, and what it leaves is still cut at the middle. -/
theorem truncateLoop_cut (h : Cut original front removed back)
    (hcovered : Covered (front++back) totalLen first) :
    ∃ front' removed' back',
      truncateLoop width (front++back) totalLen first=.ok (front'++back') ∧
      Cut original front' removed' back' ∧ (removed≠[]→ removed'≠[]) := by
  -- Every round leaves one segment less.
  induction hn : (front++back).length using Nat.strong_induction_on
    generalizing front removed back totalLen first with
  | _ n ih =>
    by_cases hgoes : width<totalLen ∧ 1<(front++back).length
    · rcases truncateLoop_round h hgoes.1 hgoes.2 hcovered with
        ⟨_,hstop⟩|⟨front',removed',back',left,hcut,hremoved,hless,hcovered',hnext⟩
      · exact ⟨front,removed,back,hstop,h,id⟩
      · obtain ⟨front'',removed'',back'',hrun,hcut'',hmore⟩ :=
          ih _ (hn ▸ hless) hcut hcovered' rfl
        exact ⟨front'',removed'',back'',hnext ▸ hrun,hcut'',fun _ => hmore hremoved⟩
    · refine ⟨front,removed,back,?_,h,id⟩
      rw [truncateLoop,dif_neg hgoes]

end Loop

section Results

variable {path : List UInt8} {width : ℕ}

/-- The ellipsis is a name. -/
theorem isName_ellipsis : IsName ellipsis := by
  unfold IsName
  decide

/-- The components of a path are covered by its length. -/
theorem covered_components (path : List UInt8) : Covered (components path) path.length true :=
  weight_components path

/-- Only the first component can be the root. -/
theorem eq_zero_of_rootDir {i : ℕ} (h : (components path)[i]?=some .rootDir) : i=0 := by
  cases i with
  | zero => rfl
  | succ i =>
    rw [←List.getElem?_tail] at h
    exact absurd (isName_of_mem_tail (List.mem_of_getElem? h)) not_isName_rootDir

/-- A path that is not too long is returned as it is. -/
theorem truncatePath_short (h : path.length≤ width ∨ (components path).length≤ 1) :
    truncatePath path width=.ok path := if_pos h

/-- What the loop leaves is put together with an ellipsis. -/
theorem truncatePath_long {front removed back : List Component} (hwidth : width<path.length)
    (hlen : 1<(components path).length) (h : Cut (components path) front removed back)
    (hloop : truncateLoop width (components path) path.length true=.ok (front++back)) :
    truncatePath path width=.ok (collect (front++ellipsis::back)) := by
  unfold truncatePath
  rw [if_neg (by omega),hloop]
  change Except.ok (collect ((front++back).insertIdx ((front++back).length/2) ellipsis))=_
  rw [h.insert]

/-- A path that is too long gets an ellipsis for a run of its components, or next to a root that
has nothing to remove behind it. -/
theorem truncatePath_cases (hwidth : width<path.length) (hlen : 1<(components path).length) :
    (∃ c, components path=[.rootDir,c] ∧
      truncatePath path width=.ok (collect [.rootDir,ellipsis,c])) ∨
    ∃ front removed back,
      Cut (components path) front removed back ∧ removed≠[] ∧
      truncatePath path width=.ok (collect (front++ellipsis::back)) := by
  have hstart := Cut.start hlen
  have hwhole := List.take_append_drop ((components path).length/2) (components path)
  have hcovered := covered_components path
  rw [←hwhole] at hcovered
  rcases truncateLoop_round hstart hwidth (hwhole.symm ▸ hlen) hcovered with
    ⟨hroot,hstop⟩|⟨front,removed,back,left,hcut,hremoved,_,hcovered',hnext⟩
  · left
    rw [hwhole] at hroot hstop
    have htwo : (components path).length=2 := by
      have hzero := eq_zero_of_rootDir hroot
      omega
    obtain ⟨d,c,hpath⟩ := List.length_eq_two.mp htwo
    have hd : d=.rootDir := by simpa [hpath] using hroot
    have hresult := truncatePath_long hwidth hlen hstart (hwhole.symm ▸ hstop)
    rw [hpath,hd] at hresult
    exact ⟨c,hd ▸ hpath,by simpa using hresult⟩
  · right
    obtain ⟨front',removed',back',hrun,hcut',hmore⟩ := truncateLoop_cut hcut hcovered'
    rw [hwhole] at hnext
    exact ⟨front',removed',back',hcut',hmore hremoved,
      truncatePath_long hwidth hlen hcut' (hnext.trans hrun)⟩

/-- A root with one component after it has no run to remove. -/
theorem no_run {front removed back : List Component} {c : Component}
    (hpath : components path=[.rootDir,c]) (hparts : components path=front++removed++back)
    (hremoved : removed≠[]) (hlast : back≠[])
    (hroot : (components path).head?=some .rootDir→front.head?=some .rootDir) : False := by
  rw [hpath] at hparts hroot
  have hlen := congrArg List.length hparts
  have hfront : front≠[] := by
    rintro rfl
    cases hroot rfl
  have hf := List.length_pos_iff.mpr hfront
  have hr := List.length_pos_iff.mpr hremoved
  have hb := List.length_pos_iff.mpr hlast
  simp only [List.length_append,List.length_cons,List.length_nil] at hlen
  omega

/-- A result with the ellipsis in the place of a run. -/
theorem truncated_of_cut {front removed back : List Component}
    (h : Cut (components path) front removed back) (hremoved : removed≠[]) :
    Truncated path (collect (front++ellipsis::back)) := by
  have hfirst : front++removed≠[] := List.append_ne_nil_of_right_ne_nil _ hremoved
  exact ⟨front,removed,back,h.parts,hremoved,h.last,h.root,
    components_replace h.parts hfirst isName_ellipsis⟩

/-- A root with one component after it gets an ellipsis between them. -/
theorem truncatePath_root {c : Component} (hwidth : width<path.length)
    (hpath : components path=[.rootDir,c]) :
    truncatePath path width=.ok (collect [.rootDir,ellipsis,c]) := by
  rcases truncatePath_cases hwidth (by simp [hpath]) with
    ⟨d,hroot,hresult⟩|⟨front,removed,back,hcut,hremoved,_⟩
  · obtain rfl : c=d := by simpa [hpath] using hroot
    exact hresult
  · exact (no_run hpath hcut.parts hremoved hcut.last hcut.root).elim

/-- That ellipsis takes the place of nothing. -/
theorem not_keeps_root {c : Component} (hwidth : width<path.length)
    (hpath : components path=[.rootDir,c]) : ¬Keeps path width := by
  rintro ⟨result,hrun,hkept⟩
  obtain rfl := Except.ok.inj ((truncatePath_root hwidth hpath).symm.trans hrun)
  have hcomponents : components (collect [.rootDir,ellipsis,c])=[.rootDir,ellipsis,c] :=
    components_replace (show components path=[.rootDir]++[]++[c] from hpath)
      (List.cons_ne_nil _ _) isName_ellipsis
  rcases hkept with hsame|⟨front,removed,back,hparts,hremoved,hlast,hroot,_⟩
  · rw [hsame,hpath] at hcomponents
    simp at hcomponents
  · exact no_run hpath hparts hremoved hlast hroot

/-- A path is shortened as it should be exactly when it fits or is not a root with one component
after it. -/
theorem keeps_iff (path : List UInt8) (width : ℕ) :
    Keeps path width ↔ ¬(width<path.length ∧ ∃ c, components path=[.rootDir,c]) := by
  constructor
  · rintro hkeeps ⟨hwidth,c,hpath⟩
    exact not_keeps_root hwidth hpath hkeeps
  · intro hnot
    by_cases hshort : path.length≤ width ∨ (components path).length≤ 1
    · exact ⟨path,truncatePath_short hshort,.inl rfl⟩
    have hwidth : width<path.length := by omega
    rcases truncatePath_cases hwidth (by omega) with
      ⟨c,hpath,_⟩|⟨front,removed,back,hcut,hremoved,hresult⟩
    · exact absurd ⟨hwidth,c,hpath⟩ hnot
    · exact ⟨_,hresult,.inr (truncated_of_cut hcut hremoved)⟩

/-- `/abcd` becomes `/…/abcd`. -/
theorem not_keeps_abcd :
    truncatePath [0x2f,0x61,0x62,0x63,0x64] 1=
        .ok [0x2f,0xe2,0x80,0xa6,0x2f,0x61,0x62,0x63,0x64] ∧
      ¬Keeps [0x2f,0x61,0x62,0x63,0x64] 1 := by
  have hwidth : 1<([0x2f,0x61,0x62,0x63,0x64] : List UInt8).length := by decide
  have hpath : components [0x2f,0x61,0x62,0x63,0x64]=
      [.rootDir,.normal [0x61,0x62,0x63,0x64]] := by decide
  exact ⟨truncatePath_root hwidth hpath,not_keeps_root hwidth hpath⟩

end Results

end Applesauce.PathTruncation
