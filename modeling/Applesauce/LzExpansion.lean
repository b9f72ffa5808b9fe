import Mathlib.Data.List.Basic

/-!
# Expanding literals and matches

A piece is a number of literals, the length of a match and its distance: the
literals are appended, and then as many elements as the match is long, each
that far behind the end. A match may reach into what it appends. Where the
elements of a list repeat at the distance of a piece, expanding the piece
goes on along the list.
-/

namespace Applesauce.LzExpansion

variable {α : Type*}

/-- Append elements that are so far behind the end. -/
def copyMatch : ℕ→ℕ→List α→Option (List α)
  | 0,_,out => some out
  | m+1,d,out => out[out.length-d]?.bind fun x => copyMatch m d (out++[x])

/-- Expand pieces: the literals that are left and what was appended to. A distance reaches back at
least one element, and not beyond the first. -/
def expand : List (ℕ×ℕ×ℕ)→List α→List α→Option (List α×List α)
  | [],literals,out => some (literals,out)
  | piece::pieces,literals,out =>
    if piece.1≤literals.length ∧ 0<piece.2.2 ∧ piece.2.2≤out.length+piece.1 then
      (copyMatch piece.2.1 piece.2.2 (out++literals.take piece.1)).bind fun out =>
        expand pieces (literals.drop piece.1) out
    else none

section Copies
variable {src : List α} {p m d : ℕ}

/-- The next element of a list. -/
theorem take_append_get {x : α} (h : src[p]?=some x) : src.take p++[x]=src.take (p+1) := by
  rw [List.take_add_one,h]
  rfl

/-- A match goes on along a list that repeats at its distance. -/
theorem copyMatch_take (hd : 0<d) (hp : d≤p) (hm : p+m≤ src.length)
    (hrepeats : ∀ i< m, src[p+i]?=src[p+i-d]?) :
    copyMatch m d (src.take p)=some (src.take (p+m)) := by
  induction m generalizing p with
  | zero => rfl
  | succ m ih =>
    have hlength : (src.take p).length=p := List.length_take_of_le (by omega)
    have hget : src[p]?=some src[p] := List.getElem?_eq_getElem (by omega)
    have hback : (src.take p)[p-d]?=some src[p] := by
      rw [List.getElem?_take_of_lt (by omega),←hget]
      exact (hrepeats 0 (by omega)).symm
    rw [copyMatch,hlength,hback,Option.bind_some,take_append_get hget,
      ih (by omega) (by omega) fun i hi => ?_]
    · rw [Nat.add_assoc,Nat.add_comm 1 m]
    · have hnext := hrepeats (i+1) (by omega)
      rw [show p+1+i=p+(i+1) by omega]
      exact hnext

end Copies

section Pieces
variable {pieces : List (ℕ×ℕ×ℕ)} {literals out src : List α} {p : ℕ}

/-- Literals that are not asked for are left. -/
theorem expand_append_literals {left out' : List α} (h : expand pieces literals out=some (left,out'))
    (more : List α) : expand pieces (literals++more) out=some (left++more,out') := by
  induction pieces generalizing literals out with
  | nil =>
    obtain ⟨rfl,rfl⟩ := Prod.mk.inj (Option.some.inj h)
    rfl
  | cons piece pieces ih =>
    unfold expand at h ⊢
    obtain ⟨⟨hle,hd,hreach⟩,h⟩ := Option.ite_none_right_eq_some.mp h
    obtain ⟨next,hcopy,h⟩ := Option.bind_eq_some_iff.mp h
    rw [if_pos ⟨by rw [List.length_append]; omega,hd,hreach⟩,List.take_append_of_le_length hle,hcopy,
      Option.bind_some,List.drop_append_of_le_length hle,ih h]

/-- Pieces are expanded one after the other. -/
theorem expand_append {left out' : List α} (h : expand pieces literals out=some (left,out'))
    (more : List (ℕ×ℕ×ℕ)) : expand (pieces++more) literals out=expand more left out' := by
  induction pieces generalizing literals out with
  | nil =>
    obtain ⟨rfl,rfl⟩ := Prod.mk.inj (Option.some.inj h)
    rfl
  | cons piece pieces ih =>
    rw [List.cons_append]
    unfold expand at h
    obtain ⟨hif,h⟩ := Option.ite_none_right_eq_some.mp h
    obtain ⟨next,hcopy,h⟩ := Option.bind_eq_some_iff.mp h
    rw [expand,if_pos hif,hcopy,Option.bind_some,ih h]

/-- Pieces and their literals stand for a list up to a place. -/
def Covers (src : List α) (out : List α) (pieces : List (ℕ×ℕ×ℕ)) (literals : List α) (p : ℕ) : Prop :=
  expand pieces literals out=some ([],src.take p)

/-- No pieces stand for nothing. -/
theorem covers_nil (src : List α) (p : ℕ) : Covers src (src.take p) [] [] p := rfl

/-- One more piece: the next elements as literals, and a match where the list repeats. -/
theorem Covers.snoc (h : Covers src out pieces literals p) {l m d : ℕ} (hd : 0<d) (hp : d≤p+l)
    (hm : p+l+m≤ src.length) (hrepeats : ∀ i< m, src[p+l+i]?=src[p+l+i-d]?) :
    Covers src out (pieces++[(l,m,d)]) (literals++(src.drop p).take l) (p+l+m) := by
  have hmore := expand_append_literals h ((src.drop p).take l)
  have hlength : ((src.drop p).take l).length=l := by
    rw [List.length_take,List.length_drop]
    omega
  have hout : (src.take p).length=p := List.length_take_of_le (by omega)
  unfold Covers
  rw [expand_append hmore,List.nil_append,expand]
  dsimp only
  rw [if_pos ⟨Nat.le_of_eq hlength.symm,hd,by rw [hout]; exact hp⟩]
  rw [List.take_of_length_le (Nat.le_of_eq hlength),←List.take_add,copyMatch_take hd hp hm hrepeats,
    Option.bind_some,expand,List.drop_eq_nil_of_le (Nat.le_of_eq hlength)]

end Pieces

end Applesauce.LzExpansion
