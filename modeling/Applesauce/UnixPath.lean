import Mathlib.Algebra.BigOperators.Group.List.Basic
import Mathlib.Algebra.GroupWithZero.Nat

/-!
# Paths and their components

A path is a string of bytes. Its components are what stands between the
separators, without empty pieces and without dots except for one at the
start, after a component for a leading separator. Pushing the components of
a path one after the other gives a path with the same components, and the
components are never longer together than the path they come from.
-/

namespace Applesauce.UnixPath

section Definitions

/-- The separator. -/
def separator : UInt8 := 0x2f

/-- The dot. -/
def dot : UInt8 := 0x2e

/-- `Component`, without the prefixes of other systems. -/
inductive Component where
  | rootDir
  | curDir
  | parentDir
  | normal (name : List UInt8)
  deriving DecidableEq,Repr

/-- `Component::as_os_str`. -/
def Component.asOsStr : Component→List UInt8
  | .rootDir => [separator]
  | .curDir => [dot]
  | .parentDir => [dot,dot]
  | .normal name => name

/-- `Components::parse_single_component`. -/
def parseSingleComponent (piece : List UInt8) : Option Component :=
  if piece=[] ∨ piece=[dot] then none
  else if piece=[dot,dot] then some .parentDir
  else some (.normal piece)

/-- `Path::has_root`; such a path is absolute. -/
def hasRoot (path : List UInt8) : Prop := path.head?=some separator

instance (path : List UInt8) : Decidable (hasRoot path) := inferInstanceAs (Decidable (_=_))

/-- `Components::include_cur_dir`. -/
def includeCurDir : List UInt8→Bool
  | [] => false
  | [b] => b==dot
  | b::c::_ => b==dot && c==separator

/-- What stands before the first piece. -/
def start (path : List UInt8) : List Component :=
  if hasRoot path then [.rootDir] else if includeCurDir path then [.curDir] else []

/-- The components of the pieces. -/
def names (path : List UInt8) : List Component :=
  (path.splitOn separator).filterMap parseSingleComponent

/-- `Path::components`. -/
def components (path : List UInt8) : List Component := start path++names path

/-- `PathBuf::push`. -/
def push (buf path : List UInt8) : List UInt8 :=
  if hasRoot path then path
  else if buf≠[] ∧ buf.getLast?≠some separator then buf++separator::path
  else buf++path

/-- Push components one after the other. -/
def collect (segments : List Component) : List UInt8 :=
  segments.foldl (fun path segment => push path segment.asOsStr) []

/-- The lengths of the components, with a separator for each. -/
def weight (segments : List Component) : ℕ :=
  (segments.map fun segment => segment.asOsStr.length+1).sum

end Definitions

section Names

/-- A component that comes from a piece. -/
def IsName (c : Component) : Prop :=
  separator∉c.asOsStr ∧ parseSingleComponent c.asOsStr=some c

/-- A component is the piece it comes from. -/
theorem asOsStr_of_parse {piece : List UInt8} {c : Component}
    (h : parseSingleComponent piece=some c) : c.asOsStr=piece := by
  unfold parseSingleComponent at h
  split_ifs at h with hdrop hparent
  · obtain rfl := Option.some.inj h
    exact hparent.symm
  · obtain rfl := Option.some.inj h
    rfl

/-- No piece contains a separator. -/
theorem not_mem_piece {path piece : List UInt8} (h : piece∈path.splitOn separator) :
    separator∉piece := by
  induction path generalizing piece with
  | nil =>
    rw [List.splitOn_nil,List.mem_singleton] at h
    simp [h]
  | cons b path ih =>
    rw [List.splitOn_cons_eq_if_modifyHead] at h
    split at h
    · rcases List.mem_cons.mp h with rfl|hrest
      · simp
      · exact ih hrest
    · next hb =>
      obtain ⟨first,rest,hsplit⟩ := List.exists_cons_of_ne_nil (List.splitOn_ne_nil separator path)
      rw [hsplit,List.modifyHead_cons] at h
      have hfirst : separator∉first := ih (by rw [hsplit]; exact List.mem_cons_self)
      rcases List.mem_cons.mp h with rfl|hrest
      · have hne : separator≠b := fun hbad => hb (beq_iff_eq.mpr hbad.symm)
        simp [hne,hfirst]
      · exact ih (by rw [hsplit]; exact List.mem_cons_of_mem _ hrest)

/-- Components of pieces are names. -/
theorem isName_of_mem {path : List UInt8} {c : Component} (h : c∈names path) : IsName c := by
  obtain ⟨piece,hpiece,hparse⟩ := List.mem_filterMap.mp h
  have hsame := asOsStr_of_parse hparse
  exact ⟨hsame ▸ not_mem_piece hpiece,hsame ▸ hparse⟩

/-- A leading separator is no name. -/
theorem not_isName_rootDir : ¬IsName .rootDir := fun h => h.1 List.mem_cons_self

/-- After the first component only names follow. -/
theorem isName_of_mem_tail {path : List UInt8} {c : Component} (h : c∈(components path).tail) :
    IsName c := by
  unfold components start at h
  split_ifs at h
  · exact isName_of_mem h
  · exact isName_of_mem h
  · exact isName_of_mem (List.mem_of_mem_tail h)

end Names

section Pushing

variable {buf path : List UInt8} {c : Component}

/-- A piece that is a component does not start a path at the current directory. -/
theorem includeCurDir_name (h : IsName c) : includeCurDir c.asOsStr=false := by
  obtain ⟨hsep,hparse⟩ := h
  generalize c.asOsStr=piece at hsep hparse
  cases piece with
  | nil => rfl
  | cons b piece =>
    cases piece with
    | nil =>
      have hdot : b≠dot := by
        rintro rfl
        simp [parseSingleComponent] at hparse
      simpa [includeCurDir] using hdot
    | cons d piece =>
      have hne : d≠separator := by
        rintro rfl
        simp at hsep
      simp [includeCurDir,hne]

/-- A name does not start with a separator. -/
theorem not_hasRoot_name (h : IsName c) : ¬hasRoot c.asOsStr :=
  fun hbad => h.1 (List.mem_of_mem_head? hbad)

/-- A name has one component. -/
theorem names_name (h : IsName c) : names c.asOsStr=[c] := by
  unfold names
  rw [List.splitOn_eq_singleton h.1]
  simp [h.2]

/-- A separator ends a piece. -/
theorem names_append (buf path : List UInt8) :
    names (buf++separator::path)=names buf++names path := by
  unfold names
  rw [List.splitOn_append_cons_self,List.filterMap_append]

/-- What follows a separator does not change how a path starts. -/
theorem start_append (hbuf : buf≠[]) (path : List UInt8) :
    start (buf++separator::path)=start buf := by
  cases buf with
  | nil => exact absurd rfl hbuf
  | cons b buf =>
    unfold start hasRoot
    cases buf with
    | nil => simp [includeCurDir]
    | cons d buf => simp [includeCurDir]

/-- A name that is pushed is one more component. -/
theorem components_push (h : IsName c) :
    components (push buf c.asOsStr)=components buf++[c] := by
  have hroot := not_hasRoot_name h
  unfold push
  rw [if_neg hroot]
  by_cases hbuf : buf=[]
  · subst hbuf
    have hstart : start c.asOsStr=[] := by simp [start,hroot,includeCurDir_name h]
    have hnil : components []=[] := by decide
    rw [if_neg (fun hbad => hbad.1 rfl),hnil,List.nil_append]
    unfold components
    rw [hstart,names_name h]
  by_cases hlast : buf.getLast?=some separator
  · -- The path ends with a separator already.
    obtain ⟨front,rfl⟩ := List.getLast?_eq_some_iff.mp hlast
    have hnames : names (front++[separator])=names front := by
      rw [names_append]
      simp [names,parseSingleComponent]
    have hstart : start (front++separator::c.asOsStr)=start (front++[separator]) := by
      by_cases hfront : front=[]
      · subst hfront
        simp [start,hasRoot]
      · rw [start_append hfront,start_append hfront]
    rw [if_neg (fun hbad => hbad.2 hlast),List.append_assoc,List.singleton_append]
    unfold components
    rw [hstart,hnames,names_append,names_name h,List.append_assoc]
  · rw [if_pos ⟨hbuf,hlast⟩]
    unfold components
    rw [start_append hbuf,names_append,names_name h,List.append_assoc]

/-- What can stand first. -/
theorem components_first (h : c=.rootDir ∨ c=.curDir ∨ IsName c) :
    components (push [] c.asOsStr)=[c] := by
  rcases h with rfl|rfl|hname
  · decide
  · decide
  · exact components_push hname

/-- Names that are pushed are the further components. -/
theorem components_foldl {segments : List Component} (h : ∀ c∈segments, IsName c) :
    components (segments.foldl (fun path segment => push path segment.asOsStr) buf)=
      components buf++segments := by
  induction segments generalizing buf with
  | nil => simp
  | cons c segments ih =>
    obtain ⟨hc,hrest⟩ := List.forall_mem_cons.mp h
    rw [List.foldl_cons,ih hrest,components_push hc,List.append_assoc,List.singleton_append]

/-- A path made of components has these components. -/
theorem components_collect {segments : List Component}
    (hfirst : c=.rootDir ∨ c=.curDir ∨ IsName c) (h : ∀ c∈segments, IsName c) :
    components (collect (c::segments))=c::segments := by
  unfold collect
  rw [List.foldl_cons,components_foldl h,components_first hfirst,List.singleton_append]

/-- Any component can stand where it stood. -/
theorem first_of_mem (h : c∈components path) : c=.rootDir ∨ c=.curDir ∨ IsName c := by
  unfold components start at h
  rcases List.mem_append.mp h with hstart|hname
  · split_ifs at hstart <;> simp_all
  · exact .inr (.inr (isName_of_mem hname))

/-- A name can take the place of some of the components. -/
theorem components_replace {front removed back : List Component}
    (hpath : components path=front++removed++back) (hfirst : front++removed≠[]) (hc : IsName c) :
    components (collect (front++c::back))=front++c::back := by
  cases front with
  | nil =>
    obtain ⟨d,rest,hd⟩ := List.exists_cons_of_ne_nil hfirst
    have htail : (components path).tail=rest++back := by
      rw [hpath,hd,List.cons_append,List.tail_cons]
    have hback : ∀ x∈back, IsName x := by
      intro x hx
      exact isName_of_mem_tail (htail ▸ List.mem_append_right rest hx)
    exact components_collect (.inr (.inr hc)) hback
  | cons d front =>
    have hd : d∈components path := by simp [hpath]
    have htail : (components path).tail=front++removed++back := by
      rw [hpath,List.cons_append,List.cons_append,List.tail_cons]
    have hrest : ∀ x∈front++c::back, IsName x := by
      intro x hx
      rcases List.mem_append.mp hx with hfront|hx
      · exact isName_of_mem_tail (by rw [htail]; simp [hfront])
      rcases List.mem_cons.mp hx with rfl|hback
      · exact hc
      · exact isName_of_mem_tail (by rw [htail]; simp [hback])
    exact components_collect (first_of_mem hd) hrest

end Pushing

section Weights

variable {path : List UInt8}

/-- The pieces and their separators make up the path, with one separator more. -/
theorem weight_pieces (path : List UInt8) :
    ((path.splitOn separator).map fun piece => piece.length+1).sum=path.length+1 := by
  induction path with
  | nil => simp
  | cons b path ih =>
    rw [List.splitOn_cons_eq_if_modifyHead]
    split
    · simp [ih,Nat.add_comm]
    · obtain ⟨first,rest,hsplit⟩ := List.exists_cons_of_ne_nil (List.splitOn_ne_nil separator path)
      rw [hsplit] at ih ⊢
      simp only [List.modifyHead_cons,List.map_cons,List.sum_cons,List.length_cons] at ih ⊢
      omega

/-- Components weigh no more than the pieces they come from. -/
theorem weight_filterMap (pieces : List (List UInt8)) :
    weight (pieces.filterMap parseSingleComponent)≤
      (pieces.map fun piece => piece.length+1).sum := by
  induction pieces with
  | nil => exact Nat.le_refl 0
  | cons piece pieces ih =>
    cases hparse : parseSingleComponent piece with
    | none =>
      rw [List.filterMap_cons_none hparse,List.map_cons,List.sum_cons]
      omega
    | some c =>
      have hsame := asOsStr_of_parse hparse
      rw [List.filterMap_cons_some hparse]
      simp only [weight,List.map_cons,List.sum_cons,hsame] at ih ⊢
      omega

/-- The names of a path weigh at most one more than the path is long. -/
theorem weight_names (path : List UInt8) : weight (names path)≤ path.length+1 := by
  have hpieces := weight_filterMap (path.splitOn separator)
  rwa [weight_pieces] at hpieces

/-- One more component. -/
theorem weight_append (front back : List Component) :
    weight (front++back)=weight front+weight back := by
  unfold weight
  rw [List.map_append,List.sum_append]

/-- Every component weighs something. -/
theorem weight_pos {segments : List Component} (h : segments≠[]) : 0<weight segments := by
  obtain ⟨c,segments,rfl⟩ := List.exists_cons_of_ne_nil h
  unfold weight
  rw [List.map_cons,List.sum_cons]
  omega

/-- A leading separator is followed by the names of the rest. -/
theorem names_separator (path : List UInt8) : names (separator::path)=names path :=
  names_append [] path

/-- So is a leading dot with its separator. -/
theorem names_dot (path : List UInt8) : names (dot::separator::path)=names path :=
  names_append [dot] path

/-- The components of a path weigh at most two more than the path is long. -/
theorem weight_components (path : List UInt8) : weight (components path)≤ path.length+2 := by
  have hnames := weight_names path
  have hroot : weight [.rootDir]=2 := rfl
  have hcur : weight [.curDir]=2 := rfl
  have hnil : weight []=0 := rfl
  unfold components start
  rw [weight_append]
  split_ifs with hhead hdot
  · obtain ⟨rest,rfl⟩ := List.head?_eq_some_iff.mp hhead
    have hrest := weight_names rest
    rw [names_separator,List.length_cons]
    omega
  · unfold includeCurDir at hdot
    split at hdot
    · cases hdot
    · next b =>
      obtain rfl := beq_iff_eq.mp hdot
      decide
    · next b d rest =>
      obtain ⟨hb,hd⟩ := Bool.and_eq_true_iff.mp hdot
      obtain rfl := beq_iff_eq.mp hb
      obtain rfl := beq_iff_eq.mp hd
      have hrest := weight_names rest
      rw [names_dot,List.length_cons,List.length_cons]
      omega
  · omega

end Weights

end Applesauce.UnixPath
