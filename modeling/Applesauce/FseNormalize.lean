import Applesauce.Fse
import Mathlib.Algebra.Order.BigOperators.Group.List
import Mathlib.Data.List.Forall2
import Mathlib.Tactic.Ring

/-!
# Normalized frequencies

Occurrences are scaled to a number of states. The rounded frequencies need
not add up to it: what is missing goes to the most frequent symbol, and what
is too much is taken from it or, where that would be a large part of it, from
all symbols in passes that leave every symbol a state.
-/

namespace Applesauce.Fse

section Definitions

/-- The frequency of a symbol before the adjustments. -/
def rescale (shift step t : ℕ) : ℕ :=
  let f := ((t*step%2^32)>>>shift+1)>>>1
  if f=0 ∧ t≠0 then 1 else f

/-- What the loop over the symbols has found out. -/
structure Rescaled where
  /-- The frequencies. -/
  freq : List ℕ
  /-- The states that remain; less than none if there are too many. -/
  remaining : ℤ
  /-- The largest frequency. -/
  maxFreq : ℕ
  /-- The first symbol that has it. -/
  maxFreqSym : ℕ
  deriving DecidableEq,Repr

/-- The loop over the symbols from the `i`-th on. -/
def rescaleAll (shift step : ℕ) : ℕ→ℤ→ℕ→ℕ→List ℕ→Rescaled
  | _,remaining,maxFreq,maxFreqSym,[] => ⟨[],remaining,maxFreq,maxFreqSym⟩
  | i,remaining,maxFreq,maxFreqSym,t::ts =>
    let f := rescale shift step t
    let r := rescaleAll shift step (i+1) (remaining-f) (if maxFreq<f then f else maxFreq)
      (if maxFreq<f then i else maxFreqSym) ts
    {r with freq := uint16 f::r.freq}

/-- One pass of `fse_adjust_freqs`: what is still too much and the frequencies. -/
def adjustPass (shift : ℕ) : ℕ→List ℕ→ℕ×List ℕ
  | overrun,[] => (overrun,[])
  | overrun,f::freq =>
    if 1<f then
      let n := min ((f-1)>>>shift) overrun
      if overrun-n=0 then (0,(f-n)::freq)
      else
        let r := adjustPass shift (overrun-n) freq
        (r.1,(f-n)::r.2)
    else
      let r := adjustPass shift overrun freq
      (r.1,f::r.2)

/-- `fse_adjust_freqs` from a shift on; it does not end if the shift would become negative. -/
def adjustFreqs : ℕ→ℕ→List ℕ→Option (List ℕ)
  | shift,overrun,freq =>
    if overrun=0 then some freq
    else
      let r := adjustPass shift overrun freq
      match shift with
      | 0 => if r.1=0 then some r.2 else none
      | shift+1 => adjustFreqs shift r.1 r.2

/-- `fse_normalize_freq`. -/
def normalizeFreq (nstates : ℕ) (t : List ℕ) : Option (List ℕ) :=
  let sCount := t.sum%2^32
  let highprecStep := if sCount=0 then 0 else 2^31/sCount
  let r := rescaleAll (clz nstates-1).toNat highprecStep 0 nstates 0 0 t
  if -r.remaining<(r.maxFreq>>>2 : ℕ) then
    some (r.freq.modify r.maxFreqSym fun f => uint16 (f+r.remaining))
  else adjustFreqs 3 (-r.remaining).toNat r.freq

end Definitions

section Passes
variable {shift overrun : ℕ} {freq : List ℕ}

/-- No symbol loses its last state. -/
def Keeps (freq freq' : List ℕ) : Prop :=
  List.Forall₂ (fun f f' => f'≤f ∧ (0<f → 0<f')) freq freq'

/-- Nothing is lost where nothing changes. -/
theorem keeps_refl (freq : List ℕ) : Keeps freq freq :=
  List.forall₂_same.mpr fun _ _ => ⟨Nat.le_refl _,id⟩

/-- Passes one after the other. -/
theorem Keeps.trans {freq' freq'' : List ℕ} (h : Keeps freq freq') (k : Keeps freq' freq'') :
    Keeps freq freq'' := by
  induction h generalizing freq'' with
  | nil => exact k
  | cons hhead htail ih =>
    cases k with
    | cons khead ktail =>
      exact .cons ⟨Nat.le_trans khead.1 hhead.1,fun hpos => khead.2 (hhead.2 hpos)⟩ (ih ktail)

/-- A symbol with a state still has one. -/
theorem Keeps.getElem?_pos {freq' : List ℕ} (h : Keeps freq freq') {i f : ℕ} (hf : freq[i]?=some f)
    (hpos : 0<f) : ∃ f', freq'[i]?=some f' ∧ 0<f' := by
  induction h generalizing i with
  | nil => cases hf
  | cons hhead htail ih =>
    cases i with
    | zero =>
      obtain rfl := Option.some.inj hf
      exact ⟨_,rfl,hhead.2 hpos⟩
    | succ i => exact ih hf

/-- What a pass takes away is no longer too much, and without a shift it takes all it can. -/
theorem adjustPass_spec (shift overrun : ℕ) (freq : List ℕ) :
    Keeps freq (adjustPass shift overrun freq).2 ∧
      (adjustPass shift overrun freq).2.sum+overrun=
        freq.sum+(adjustPass shift overrun freq).1 ∧
      (shift=0 → 0<(adjustPass shift overrun freq).1 →
        ∀ f∈(adjustPass shift overrun freq).2, f≤1) := by
  induction freq generalizing overrun with
  | nil =>
    unfold adjustPass
    exact ⟨.nil,rfl,fun _ _ f hf => (List.not_mem_nil hf).elim⟩
  | cons f freq ih =>
    unfold adjustPass
    split
    · next hf =>
      have hshift : (f-1)>>>shift≤f-1 := by
        rw [Nat.shiftRight_eq_div_pow]
        exact Nat.div_le_self _ _
      dsimp only
      obtain ⟨n,hn⟩ : ∃ n, n=min ((f-1)>>>shift) overrun := ⟨_,rfl⟩
      have hkept : f-n≤f ∧ (0<f → 0<f-n) := by omega
      rw [←hn]
      split
      · next hover =>
        refine ⟨.cons hkept (keeps_refl freq),?_,fun _ hbad => by cases hbad⟩
        rw [List.sum_cons,List.sum_cons]
        omega
      · next hover =>
        obtain ⟨hkeeps,hsum,hall⟩ := ih (overrun-n)
        refine ⟨.cons hkept hkeeps,?_,fun hzero hpos g hg => ?_⟩
        · rw [List.sum_cons,List.sum_cons]
          omega
        · rcases List.mem_cons.mp hg with rfl|hg
          · rw [hzero,Nat.shiftRight_zero] at hn
            omega
          · exact hall hzero hpos g hg
    · next hf =>
      obtain ⟨hkeeps,hsum,hall⟩ := ih overrun
      dsimp only
      refine ⟨.cons ⟨Nat.le_refl _,id⟩ hkeeps,?_,fun hzero hpos g hg => ?_⟩
      · rw [List.sum_cons,List.sum_cons]
        omega
      · rcases List.mem_cons.mp hg with rfl|hg
        · omega
        · exact hall hzero hpos g hg

/-- Frequencies of at most one are no more than there are symbols. -/
theorem sum_le_length {freq : List ℕ} (h : ∀ f∈freq, f≤1) : freq.sum≤freq.length := by
  induction freq with
  | nil => exact Nat.le_refl 0
  | cons f freq ih =>
    obtain ⟨hf,hrest⟩ := List.forall_mem_cons.mp h
    rw [List.sum_cons,List.length_cons]
    have hsum := ih hrest
    omega

/-- The passes end with the number of states, if there is one for every symbol. -/
theorem adjustFreqs_spec {nstates : ℕ} (hlength : freq.length≤nstates)
    (hsum : freq.sum=nstates+overrun) : ∃ freq', adjustFreqs shift overrun freq=some freq' ∧
      Keeps freq freq' ∧ freq'.sum=nstates := by
  induction shift generalizing overrun freq with
  | zero =>
    unfold adjustFreqs
    by_cases hzero : overrun=0
    · rw [if_pos hzero]
      exact ⟨freq,rfl,keeps_refl freq,by omega⟩
    · obtain ⟨hkeeps,hpass,hall⟩ := adjustPass_spec 0 overrun freq
      have hdone : (adjustPass 0 overrun freq).1=0 := by
        by_contra hbad
        have hsmall := sum_le_length (hall rfl (Nat.pos_of_ne_zero hbad))
        rw [←hkeeps.length_eq] at hsmall
        omega
      rw [if_neg hzero]
      dsimp only
      rw [if_pos hdone]
      exact ⟨_,rfl,hkeeps,by omega⟩
  | succ shift ih =>
    unfold adjustFreqs
    by_cases hzero : overrun=0
    · rw [if_pos hzero]
      exact ⟨freq,rfl,keeps_refl freq,by omega⟩
    · obtain ⟨hkeeps,hpass,_⟩ := adjustPass_spec (shift+1) overrun freq
      have hlength' : (adjustPass (shift+1) overrun freq).2.length≤nstates := by
        rw [←hkeeps.length_eq]
        exact hlength
      obtain ⟨freq',hfreq',hkeeps',hsum'⟩ :=
        @ih (adjustPass (shift+1) overrun freq).1 (adjustPass (shift+1) overrun freq).2 hlength'
          (by omega)
      rw [if_neg hzero]
      exact ⟨freq',hfreq',hkeeps.trans hkeeps',hsum'⟩

end Passes

section Loops
variable {shift step : ℕ}

/-- A symbol that occurs has a frequency. -/
theorem rescale_pos {t : ℕ} (h : t≠0) : 0<rescale shift step t := by
  unfold rescale
  dsimp only
  split
  · exact Nat.one_pos
  · next hbad => exact Nat.pos_of_ne_zero fun hzero => hbad ⟨hzero,h⟩

/-- The loop over the symbols rescales each, keeps what remains and finds the largest. -/
theorem rescaleAll_spec {ts : List ℕ} (hsmall : ∀ t∈ts, rescale shift step t<65536)
    (i maxFreq maxFreqSym : ℕ) (remaining : ℤ) :
    (rescaleAll shift step i remaining maxFreq maxFreqSym ts).freq=ts.map (rescale shift step) ∧
      (rescaleAll shift step i remaining maxFreq maxFreqSym ts).remaining=
        remaining-(ts.map (rescale shift step)).sum ∧
      ((rescaleAll shift step i remaining maxFreq maxFreqSym ts).maxFreq=maxFreq ∧
        (rescaleAll shift step i remaining maxFreq maxFreqSym ts).maxFreqSym=maxFreqSym ∧
        (∀ t∈ts, rescale shift step t≤ maxFreq) ∨
      ∃ j, (rescaleAll shift step i remaining maxFreq maxFreqSym ts).maxFreqSym=i+j ∧
        (ts.map (rescale shift step))[j]?=
          some (rescaleAll shift step i remaining maxFreq maxFreqSym ts).maxFreq) := by
  induction ts generalizing i remaining maxFreq maxFreqSym with
  | nil => exact ⟨rfl,(Int.sub_zero _).symm,.inl ⟨rfl,rfl,fun _ hbad => (List.not_mem_nil hbad).elim⟩⟩
  | cons t ts ih =>
    unfold rescaleAll
    dsimp only
    obtain ⟨hhead,hrest⟩ := List.forall_mem_cons.mp hsmall
    obtain ⟨hfreq,hremaining,hmax⟩ := ih hrest (i+1)
      (if maxFreq<rescale shift step t then rescale shift step t else maxFreq)
      (if maxFreq<rescale shift step t then i else maxFreqSym) (remaining-rescale shift step t)
    have hword : uint16 (rescale shift step t : ℕ)=rescale shift step t := by
      unfold uint16
      omega
    refine ⟨?_,?_,?_⟩
    · rw [hfreq,hword,List.map_cons]
    · rw [hremaining,List.map_cons,List.sum_cons]
      push_cast
      ring
    · rcases hmax with ⟨heq,hsym,hall⟩|⟨j,hsym,hget⟩
      · by_cases hlarger : maxFreq<rescale shift step t
        · simp only [if_pos hlarger] at heq hsym ⊢
          refine .inr ⟨0,hsym,?_⟩
          rw [heq]
          rfl
        · simp only [if_neg hlarger] at heq hsym hall ⊢
          refine .inl ⟨heq,hsym,fun x hx => ?_⟩
          rcases List.mem_cons.mp hx with rfl|hx
          · exact Nat.le_of_not_lt hlarger
          · exact hall x hx
      · refine .inr ⟨j+1,by rw [hsym]; omega,?_⟩
        rw [List.map_cons,List.getElem?_cons_succ]
        exact hget

end Loops

section Normalize
variable {n : ℕ} {t : List ℕ}

/-- No symbol is given more than all the states. -/
theorem rescale_le {step x : ℕ} (hn : n≤14) (hx : x*step≤2^31) : rescale (30-n) step x≤2^n := by
  have hone : 1≤2^n := Nat.one_le_two_pow
  have hshifted : (x*step%2^32)>>>(30-n)≤2*2^n := by
    rw [Nat.mod_eq_of_lt (by omega),Nat.shiftRight_eq_div_pow,←Nat.pow_succ']
    refine Nat.div_le_of_le_mul (Nat.le_trans hx ?_)
    rw [←Nat.pow_add]
    exact Nat.pow_le_pow_right Nat.zero_lt_two (by omega)
  unfold rescale
  dsimp only
  rw [Nat.shiftRight_eq_div_pow _ 1]
  split
  · exact hone
  · omega

/-- What one of several occurrences is scaled to is no more than all of them are. -/
theorem occurrences_mul_le {x : ℕ} (hx : x∈t) :
    x*(if t.sum=0 then 0 else 2^31/t.sum)≤2^31 := by
  split
  · omega
  · exact Nat.le_trans (Nat.mul_le_mul_right _ (List.single_le_sum (fun _ _ => Nat.zero_le _) x hx))
      (Nat.mul_div_le _ _)

/-- What a list adds up to when one of its elements is replaced. -/
theorem sum_modify {l : List ℕ} {i x : ℕ} (h : l[i]?=some x) (g : ℕ→ℕ) :
    (l.modify i g).sum+x=l.sum+g x := by
  induction l generalizing i with
  | nil => cases h
  | cons y l ih =>
    cases i with
    | zero =>
      obtain rfl : y=x := Option.some.inj h
      rw [List.modify_zero_cons,List.sum_cons,List.sum_cons]
      omega
    | succ i =>
      rw [List.modify_succ_cons,List.sum_cons,List.sum_cons]
      have hrest := ih h
      omega

/-- The frequencies of occurrences of at most as many symbols as there are states: each symbol
that occurs has a state, and every state a symbol. -/
theorem normalizeFreq_valid (hn : n≤14) (hne : t≠[]) (hlength : t.length≤2^n)
    (hsum : t.sum<2^32) : ∃ freq, normalizeFreq (2^n) t=some freq ∧ freq.length=t.length ∧
      freq.sum=2^n ∧ ∀ i (hi : i<t.length), t[i]≠0 → ∃ f, freq[i]?=some f ∧ 0<f := by
  obtain ⟨step,hstep⟩ : ∃ step, step=if t.sum=0 then 0 else 2^31/t.sum := ⟨_,rfl⟩
  have hpower : 2^n≤2^14 := Nat.pow_le_pow_right Nat.zero_lt_two hn
  have hclz : (clz ((2^n : ℕ))-1).toNat=30-n := by
    unfold clz
    rw [Nat.log2_two_pow]
    omega
  have hle : ∀ x∈t, rescale (30-n) step x≤2^n := by
    intro x hx
    refine rescale_le hn ?_
    rw [hstep]
    exact occurrences_mul_le hx
  obtain ⟨r,hr⟩ : ∃ r, r=rescaleAll (30-n) step 0 (2^n : ℕ) 0 0 t := ⟨_,rfl⟩
  obtain ⟨hfreq,hremaining,hmax⟩ := @rescaleAll_spec (30-n) step t
    (fun x hx => Nat.lt_of_le_of_lt (hle x hx) (by omega)) 0 0 0 ((2^n : ℕ) : ℤ)
  rw [←hr] at hfreq hremaining hmax
  have hlengths : r.freq.length=t.length := by
    rw [hfreq,List.length_map]
  have hoccurs : ∀ i (hi : i<t.length), t[i]≠0 → ∃ f, r.freq[i]?=some f ∧ 0<f := by
    intro i hi hpos
    refine ⟨rescale (30-n) step t[i],?_,rescale_pos hpos⟩
    rw [hfreq,List.getElem?_map,List.getElem?_eq_getElem hi]
    rfl
  have hlargest : r.freq[r.maxFreqSym]?=some r.maxFreq := by
    rcases hmax with ⟨hzero,hfirst,hall⟩|⟨j,hsym,hget⟩
    · obtain ⟨x,xs,rfl⟩ := List.exists_cons_of_ne_nil hne
      have hx := hall x (List.mem_cons_self ..)
      rw [hzero,hfirst,hfreq,List.map_cons,List.getElem?_cons_zero]
      congr 1
      omega
    · rw [hsym,Nat.zero_add,hfreq]
      exact hget
  have hsumFreq : (r.freq.sum : ℤ)=(2^n : ℕ)-r.remaining := by
    rw [hremaining,hfreq]
    ring
  have hunfold : normalizeFreq (2^n) t=if -r.remaining<(r.maxFreq>>>2 : ℕ) then
      some (r.freq.modify r.maxFreqSym fun f => uint16 (f+r.remaining))
    else adjustFreqs 3 (-r.remaining).toNat r.freq := by
    unfold normalizeFreq
    dsimp only
    rw [Nat.mod_eq_of_lt hsum,hclz,←hstep,←hr]
  rw [hunfold]
  generalize 2^n=nstates at hpower hlength hsumFreq ⊢
  split
  · next hfew =>
    have hquarter : r.maxFreq>>>2≤r.maxFreq := by
      rw [Nat.shiftRight_eq_div_pow]
      exact Nat.div_le_self _ _
    have hmember : r.maxFreq≤r.freq.sum :=
      List.single_le_sum (fun _ _ => Nat.zero_le _) _ (List.mem_of_getElem? hlargest)
    obtain ⟨f,hf⟩ := Int.eq_ofNat_of_zero_le (show 0≤(r.maxFreq : ℤ)+r.remaining by omega)
    have hword : uint16 (r.maxFreq+r.remaining)=f := by
      unfold uint16
      omega
    refine ⟨_,rfl,by rw [List.length_modify,hlengths],?_,fun i hi hpos => ?_⟩
    · have htotal := sum_modify hlargest fun f => uint16 (f+r.remaining)
      rw [hword] at htotal
      omega
    · rw [List.getElem?_modify]
      split
      · next hsame =>
        rw [←hsame,hlargest]
        refine ⟨f,?_,by omega⟩
        rw [Option.map_eq_map,Option.map_some,hword]
      · rw [Option.map_eq_map,Option.map_id']
        exact hoccurs i hi hpos
  · next hmany =>
    obtain ⟨freq,hadjust,hkeeps,hstates⟩ := @adjustFreqs_spec 3 (-r.remaining).toNat r.freq nstates
      (by omega) (by omega)
    refine ⟨freq,hadjust,by rw [←hkeeps.length_eq,hlengths],hstates,fun i hi hpos => ?_⟩
    obtain ⟨f,hf,hfpos⟩ := hoccurs i hi hpos
    exact hkeeps.getElem?_pos hf hfpos

end Normalize

end Applesauce.Fse
