import Mathlib.Tactic.Ring
import Mathlib.Data.List.Basic
import Mathlib.Data.List.GetD
import Mathlib.Algebra.Group.Defs

/-!
# Positioned writes with zero-filled gaps

A write past the end fills the gap with zeros; an empty write changes
nothing, wherever it stands. Contents are described either by segments or
pointwise, and two files are equal as soon as their lengths and their
zero-extended cells agree.
-/

namespace Applesauce.SparseFile

variable {α : Type} [Zero α]

/-- A run of zero cells. -/
def zeros (n : ℕ) : List α := List.replicate n 0

/-- Overwrite from a position on, zero-filling any gap before it. -/
def writeAt (cells : List α) (pos : ℕ) (data : List α) : List α :=
  if data.isEmpty then cells
  else (cells++zeros (pos-cells.length)).take pos++(data++cells.drop (pos+data.length))

/-- The same write cell by cell: the file grows to the end of the data, and the
cells of a gap are zero. -/
def overwrite (cells : List α) (pos : ℕ) (data : List α) : List α :=
  if data.isEmpty then cells
  else (List.range (max cells.length (pos+data.length))).map fun i =>
    if pos≤ i ∧ i<pos+data.length then data.getD (i-pos) 0 else cells.getD i 0

/-- Up to `n` cells from a position on. -/
def readAt (cells : List α) (pos n : ℕ) : List α := (cells.drop pos).take n

omit [Zero α] in
theorem readAt_length (cells : List α) (pos n : ℕ) :
    (readAt cells pos n).length=min n (cells.length-pos) := by
  simp only [readAt,List.length_take,List.length_drop]

omit [Zero α] in
/-- A long read is a read and the read behind it. -/
theorem readAt_add (cells : List α) (pos m n : ℕ) :
    readAt cells pos (m+n)=readAt cells pos m++readAt cells (pos+m) n := by
  simp only [readAt,List.take_add,List.drop_drop]

@[simp] theorem zeros_length (n : ℕ) : (zeros n : List α).length=n := List.length_replicate

/-- Adjacent runs of zeros are one run. -/
theorem zeros_add (m n : ℕ) : (zeros (m+n) : List α)=zeros m++zeros n := List.replicate_add m n 0

@[simp] theorem writeAt_nil (cells : List α) (pos : ℕ) : writeAt cells pos []=cells := rfl

/-- A nonempty write is a kept prefix, the data and a kept suffix. -/
theorem writeAt_of_ne (cells : List α) (pos : ℕ) {data : List α} (h : data≠[]) :
    writeAt cells pos data=
      (cells++zeros (pos-cells.length)).take pos++(data++cells.drop (pos+data.length)) := by
  unfold writeAt
  rw [if_neg (by simpa using h)]

/-- A nonempty write extends the file to at least its own end. -/
theorem writeAt_length (cells : List α) (pos : ℕ) {data : List α} (h : data≠[]) :
    (writeAt cells pos data).length=max cells.length (pos+data.length) := by
  rw [writeAt_of_ne cells pos h]
  simp only [List.length_append,List.length_take,List.length_drop,zeros_length]
  omega

/-- A file ends where it ended before or where the write ends. -/
theorem writeAt_length_le (cells : List α) (pos : ℕ) (data : List α) :
    (writeAt cells pos data).length≤ max cells.length (pos+data.length) := by
  by_cases h : data=[]
  · rw [h,writeAt_nil]
    exact Nat.le_max_left _ _
  · exact (writeAt_length cells pos h).le

/-- Replacing a middle segment by one of the same length. -/
theorem writeAt_replace (front old back : List α) {data : List α} (h : old.length=data.length) :
    writeAt (front++(old++back)) front.length data=front++(data++back) := by
  by_cases hd : data=[]
  · subst hd
    rw [writeAt_nil,List.length_eq_zero_iff.mp h]
  · rw [writeAt_of_ne _ _ hd]
    have hlen : front.length-(front++(old++back)).length=0 := by
      simp only [List.length_append]
      omega
    rw [hlen,←h,←List.drop_drop]
    simp [zeros]

/-- Writing at the end appends. -/
theorem writeAt_end (cells data : List α) : writeAt cells cells.length data=cells++data := by
  by_cases hd : data=[]
  · rw [hd,writeAt_nil,List.append_nil]
  · rw [writeAt_of_ne _ _ hd]
    simp [zeros]

/-- Writing past the end leaves a zero-filled gap. -/
theorem writeAt_gap {cells : List α} {pos : ℕ} (hp : cells.length≤pos) {data : List α}
    (hd : data≠[]) :
    writeAt cells pos data=cells++(zeros (pos-cells.length)++data) := by
  rw [writeAt_of_ne _ _ hd,List.take_of_length_le
    (by simp only [List.length_append,zeros_length]; omega),
    List.drop_eq_nil_of_le (by omega)]
  simp only [List.append_nil,List.append_assoc]

/-- Two adjacent writes are one write. -/
theorem writeAt_append (cells : List α) (pos : ℕ) (first second : List α) :
    writeAt (writeAt cells pos first) (pos+first.length) second=
      writeAt cells pos (first++second) := by
  by_cases hf : first=[]
  · rw [hf,writeAt_nil,List.length_nil,Nat.add_zero,List.nil_append]
  by_cases hs : second=[]
  · rw [hs,writeAt_nil,List.append_nil]
  let kept := (cells++zeros (pos-cells.length)).take pos
  have hkept : kept.length=pos := by
    simp only [kept,List.length_take,List.length_append,zeros_length]
    omega
  have hfirst : writeAt cells pos first=(kept++first)++cells.drop (pos+first.length) := by
    rw [writeAt_of_ne _ _ hf,List.append_assoc]
  have hpos : pos+first.length=(kept++first).length := by rw [List.length_append,hkept]
  have hwhole : (cells.drop (pos+first.length)).drop second.length=
      cells.drop (pos+(first++second).length) := by
    rw [List.drop_drop,List.length_append,Nat.add_assoc]
  rw [hfirst,writeAt_of_ne _ _ hs,writeAt_of_ne _ _ (by simp [hf]),←hwhole]
  rw [List.take_append_of_le_length (by rw [List.length_append]; omega),
    List.take_append_of_le_length hpos.le,List.take_of_length_le hpos.ge,
    ←List.drop_drop,List.drop_append_of_le_length hpos.le,List.drop_eq_nil_of_le hpos.ge]
  simp only [List.nil_append,List.append_assoc,kept]

/-- The two descriptions of a write agree. -/
theorem overwrite_eq (cells : List α) (pos : ℕ) (data : List α) :
    overwrite cells pos data=writeAt cells pos data := by
  unfold overwrite
  by_cases hd : data=[]
  · rw [hd,writeAt_nil]
    rfl
  rw [if_neg (by simpa using hd)]
  refine List.ext_getElem ?_ fun i hi hi' => ?_
  · rw [List.length_map,List.length_range,writeAt_length _ _ hd]
  rw [writeAt_length _ _ hd] at hi'
  simp only [List.getElem_map,List.getElem_range,writeAt_of_ne _ _ hd,List.getElem_append,
    List.length_take,List.length_append,zeros_length,List.getElem_take,List.getElem_drop]
  have hkept : min pos (cells.length+(pos-cells.length))=pos := by omega
  simp only [hkept]
  by_cases hbefore : i<pos
  · have hout : ¬(pos≤ i ∧ i<pos+data.length) := by omega
    rw [if_neg hout,dif_pos hbefore]
    by_cases hin : i<cells.length
    · rw [dif_pos hin,List.getD_eq_getElem _ _ hin]
    · rw [dif_neg hin,List.getD_eq_default _ _ (Nat.le_of_not_lt hin)]
      simp only [zeros,List.getElem_replicate]
  · rw [dif_neg hbefore]
    by_cases hdata : i-pos<data.length
    · have hin : pos≤ i ∧ i<pos+data.length := by omega
      rw [if_pos hin,dif_pos hdata,List.getD_eq_getElem _ _ hdata]
    · have hout : ¬(pos≤ i ∧ i<pos+data.length) := by omega
      have hin : i<cells.length := by omega
      have hindex : pos+data.length+(i-pos-data.length)=i := by omega
      rw [if_neg hout,dif_neg hdata,List.getD_eq_getElem _ _ hin]
      simp only [hindex]

end Applesauce.SparseFile
