import Applesauce.LzfseHeader
import Applesauce.LzfseLmds

/-!
# The tables of a block

Every symbol of the literals and of the lengths and distances is counted, so
that the normalized frequencies give it a state, and all of the tables are
within what the header and the decoder tables ask for.
-/

namespace Applesauce.Lzfse

open BitStack Fse

section Counts

/-- Counting a symbol does not change the number of symbols. -/
theorem count_length (symbols occ : List ℕ) :
    (symbols.foldl (fun occ a => occ.modify a (·+1)) occ).length=occ.length := by
  induction symbols generalizing occ with
  | nil => rfl
  | cons a symbols ih => rw [List.foldl_cons,ih,List.length_modify]

/-- All symbols are counted. -/
theorem count_sum {symbols occ : List ℕ} (h : ∀ a∈symbols, a<occ.length) :
    (symbols.foldl (fun occ a => occ.modify a (·+1)) occ).sum=occ.sum+symbols.length := by
  induction symbols generalizing occ with
  | nil => rfl
  | cons a symbols ih =>
    obtain ⟨ha,hrest⟩ := List.forall_mem_cons.mp h
    have hmodify := sum_modify (List.getElem?_eq_getElem ha) (·+1)
    rw [List.foldl_cons,ih (by rw [List.length_modify]; exact hrest),List.length_cons]
    omega

/-- A symbol is counted as often as it was before at least. -/
theorem count_getElem? {symbols occ : List ℕ} {a x : ℕ} (h : occ[a]?=some x) :
    ∃ y, (symbols.foldl (fun occ a => occ.modify a (·+1)) occ)[a]?=some y ∧ x≤y ∧
      (a∈symbols → 0<y) := by
  induction symbols generalizing occ x with
  | nil => exact ⟨x,h,Nat.le_refl x,fun hbad => (List.not_mem_nil hbad).elim⟩
  | cons b symbols ih =>
    rw [List.foldl_cons]
    have hget : (occ.modify b (·+1))[a]?=some (if b=a then x+1 else x) := by
      rw [List.getElem?_modify,h]
      split <;> rfl
    obtain ⟨y,hy,hle,hpos⟩ := ih hget
    refine ⟨y,hy,?_,fun hmem => ?_⟩
    · split at hle <;> omega
    · rcases List.mem_cons.mp hmem with rfl|hmem
      · rw [if_pos rfl] at hle
        omega
      · exact hpos hmem

/-- The occurrences of symbols that a table has. -/
theorem occurrences_spec {n : ℕ} {symbols : List ℕ} (h : ∀ a∈symbols, a<n) :
    (occurrences n symbols).length=n ∧ (occurrences n symbols).sum=symbols.length ∧
      ∀ a∈symbols, ∃ y, (occurrences n symbols)[a]?=some y ∧ 0<y := by
  have hlength : (List.replicate n 0).length=n := List.length_replicate
  unfold occurrences
  refine ⟨by rw [count_length,hlength],?_,fun a ha => ?_⟩
  · rw [count_sum (by rw [hlength]; exact h),List.sum_replicate]
    simp
  · obtain ⟨y,hy,_,hpos⟩ := @count_getElem? symbols (List.replicate n 0) a 0
      (by rw [List.getElem?_replicate,if_pos (h a ha)])
    exact ⟨y,hy,hpos ha⟩

/-- The frequencies of symbols that a table has. -/
theorem normalizeFreq_occurrences {n count : ℕ} (hn : n≤14) (hcount : 0<count) (hle : count≤2^n)
    {symbols : List ℕ} (h : ∀ a∈symbols, a<count) (hlength : symbols.length<2^32) :
    ∃ freq, normalizeFreq (2^n) (occurrences count symbols)=some freq ∧ freq.length=count ∧
      freq.sum=2^n ∧ ∀ a∈symbols, Occurs freq a := by
  obtain ⟨hsize,hsum,hoccurs⟩ := occurrences_spec h
  obtain ⟨freq,hfreq,hfreqLength,hfreqSum,hpos⟩ := @normalizeFreq_valid n (occurrences count symbols)
    hn (by intro hbad; rw [hbad] at hsize; exact absurd hsize (Nat.ne_of_lt hcount))
    (by rw [hsize]; exact hle) (by rw [hsum]; exact hlength)
  refine ⟨freq,hfreq,hfreqLength.trans hsize,hfreqSum,fun a ha => ?_⟩
  obtain ⟨y,hy,hypos⟩ := hoccurs a ha
  obtain ⟨hlt,hget⟩ := List.getElem?_eq_some_iff.mp hy
  exact hpos a hlt (by rw [hget]; exact Nat.ne_of_gt hypos)

end Counts

section Symbols

/-- The symbols of all values, where each has one. -/
theorem mapM_symbols {α : Type} {f : α→Option ℕ} {n : ℕ} {vs : List α}
    (h : ∀ v∈vs, ∃ a, f v=some a ∧ a<n) : ∃ symbols, vs.mapM f=some symbols ∧
      symbols.length=vs.length ∧ (∀ a∈symbols, a<n) ∧ ∀ v∈vs, ∀ a, f v=some a → a∈symbols := by
  induction vs with
  | nil => exact ⟨[],rfl,rfl,fun a hbad => (List.not_mem_nil hbad).elim,
      fun v hbad => (List.not_mem_nil hbad).elim⟩
  | cons v vs ih =>
    obtain ⟨⟨a,ha,hlt⟩,hrest⟩ := List.forall_mem_cons.mp h
    obtain ⟨symbols,hsymbols,hlength,hall,hmem⟩ := ih hrest
    refine ⟨a::symbols,?_,by rw [List.length_cons,List.length_cons,hlength],
      List.forall_mem_cons.mpr ⟨hlt,hall⟩,?_⟩
    · rw [List.mapM_cons,ha,hsymbols]
      rfl
    · intro w hw b hb
      rcases List.mem_cons.mp hw with rfl|hw
      · rw [ha] at hb
        obtain rfl := Option.some.inj hb
        exact List.mem_cons_self
      · exact List.mem_cons_of_mem _ (hmem w hw b hb)

/-- A value with its symbol. -/
theorem Splits.symbol {symbol : Option ℕ} {extraBits baseValue : List ℕ} {v : ℕ}
    (h : Splits symbol extraBits baseValue v) :
    ∃ a, symbol=some a ∧ Splits (some a) extraBits baseValue v := by
  obtain ⟨a,bits,base,ha,hrest⟩ := h
  exact ⟨a,ha,a,bits,base,rfl,hrest⟩

/-- A value with a symbol in the tables. -/
theorem Splits.lt {symbol : Option ℕ} {extraBits baseValue : List ℕ} {v : ℕ}
    (h : Splits symbol extraBits baseValue v) : ∃ a, symbol=some a ∧ a<extraBits.length := by
  obtain ⟨a,bits,base,ha,hbits,_⟩ := h
  exact ⟨a,ha,(List.getElem?_eq_some_iff.mp hbits).1⟩

end Symbols

section Tables
variable {literals : List UInt8} {lmds : List Lmd} {freq : Tables}

/-- What a block is made of. -/
structure BlockInput (literals : List UInt8) (lmds : List Lmd) : Prop where
  /-- Four streams have the same number of literals. -/
  literals_four : literals.length%4=0
  /-- The literals fit into the state. -/
  literals_le : literals.length≤literalsPerBlock
  /-- There is a match. -/
  lmds_ne : lmds≠[]
  /-- The matches fit into the state. -/
  lmds_le : lmds.length≤ matchesPerBlock
  /-- The lengths and distances can be encoded. -/
  values : ∀ v∈lmds, v.l≤ maxLValue ∧ v.m≤ maxMValue ∧ v.d≤ maxDValue

/-- The frequencies of a block: of all symbols, as many as there are states, and each that occurs
has one. -/
structure TablesFit (freq : Tables) (literals : List UInt8) (lmds : List Lmd) : Prop where
  /-- Of lengths of literals. -/
  l : freq.l.length=lSymbolCount ∧ freq.l.sum=lStates
  /-- Of lengths of matches. -/
  m : freq.m.length=mSymbolCount ∧ freq.m.sum=mStates
  /-- Of distances. -/
  d : freq.d.length=dSymbolCount ∧ freq.d.sum=dStates
  /-- Of literals. -/
  literal : freq.literal.length=literalSymbolCount ∧ freq.literal.sum=literalStates
  /-- The literals have states. -/
  literals : ∀ b∈literals, Occurs freq.literal b.toNat
  /-- The lengths and distances have states. -/
  lmds : ∀ v∈lmds, (∀ a, lBaseFromValue v.l=some a → Occurs freq.l a) ∧
    (∀ a, mBaseFromValue v.m=some a → Occurs freq.m a) ∧
    (∀ a, dBaseFromValue v.d=some a → Occurs freq.d a)

/-- The tables of a block. -/
theorem tables_spec (h : BlockInput literals lmds) : ∃ occ freq,
    occurrenceTables literals lmds=some occ ∧ normalizeTables occ=some freq ∧
      TablesFit freq literals lmds := by
  have hmatches := h.lmds_le
  have hliterals := h.literals_le
  unfold literalsPerBlock at hliterals
  unfold matchesPerBlock at hmatches hliterals
  obtain ⟨ls,hls,hlsLength,hlsLt,hlsMem⟩ := @mapM_symbols _ (fun v : Lmd => lBaseFromValue v.l)
    lSymbolCount lmds fun v hv => (lBaseFromValue_splits (h.values v hv).1).lt
  obtain ⟨ms,hms,hmsLength,hmsLt,hmsMem⟩ := @mapM_symbols _ (fun v : Lmd => mBaseFromValue v.m)
    mSymbolCount lmds fun v hv => (mBaseFromValue_splits (h.values v hv).2.1).lt
  obtain ⟨ds,hds,hdsLength,hdsLt,hdsMem⟩ := @mapM_symbols _ (fun v : Lmd => dBaseFromValue v.d)
    dSymbolCount lmds fun v hv => (dBaseFromValue_splits (h.values v hv).2.2).lt
  have hbytes : ∀ a∈literals.map UInt8.toNat, a<literalSymbolCount := by
    intro a ha
    obtain ⟨b,_,rfl⟩ := List.mem_map.mp ha
    exact b.toNat_lt
  obtain ⟨l,hl,hlLength,hlSum,hlOccurs⟩ := @normalizeFreq_occurrences 6 lSymbolCount (by decide)
    (by decide) (by decide) ls hlsLt (by omega)
  obtain ⟨m,hm,hmLength,hmSum,hmOccurs⟩ := @normalizeFreq_occurrences 6 mSymbolCount (by decide)
    (by decide) (by decide) ms hmsLt (by omega)
  obtain ⟨d,hd,hdLength,hdSum,hdOccurs⟩ := @normalizeFreq_occurrences 8 dSymbolCount (by decide)
    (by decide) (by decide) ds hdsLt (by omega)
  obtain ⟨b,hb,hbLength,hbSum,hbOccurs⟩ := @normalizeFreq_occurrences 10 literalSymbolCount (by decide)
    (by decide) (by decide) (literals.map UInt8.toNat) hbytes (by rw [List.length_map]; omega)
  refine ⟨⟨occurrences lSymbolCount ls,occurrences mSymbolCount ms,occurrences dSymbolCount ds,
    occurrences literalSymbolCount (literals.map UInt8.toNat)⟩,⟨l,m,d,b⟩,?_,?_,
    ⟨hlLength,hlSum⟩,⟨hmLength,hmSum⟩,⟨hdLength,hdSum⟩,⟨hbLength,hbSum⟩,
    fun x hx => hbOccurs _ (List.mem_map_of_mem hx),fun v hv => ⟨fun a ha => hlOccurs a
      (hlsMem v hv a ha),fun a ha => hmOccurs a (hmsMem v hv a ha),
      fun a ha => hdOccurs a (hdsMem v hv a ha)⟩⟩
  · unfold occurrenceTables
    rw [hls,Option.bind_some,hms,Option.bind_some,hds,Option.map_some]
  · unfold normalizeTables lStates mStates dStates literalStates
    dsimp only
    rw [hl,Option.bind_some,hm,Option.bind_some,hd,Option.bind_some,hb,Option.map_some]

/-- A frequency is no more than the number of states. -/
theorem TablesFit.freq_le (h : TablesFit freq literals lmds) :
    ∀ f∈freq.l++freq.m++freq.d++freq.literal, f≤1047 := by
  have hsum : ∀ (fs : List ℕ) (f : ℕ), f∈fs → f≤fs.sum := fun fs f hf =>
    List.single_le_sum (fun _ _ => Nat.zero_le _) f hf
  have hl := h.l.2
  have hm := h.m.2
  have hd := h.d.2
  have hliteral := h.literal.2
  unfold lStates at hl
  unfold mStates at hm
  unfold dStates at hd
  unfold literalStates at hliteral
  intro f hf
  rcases List.mem_append.mp hf with hf|hf
  · rcases List.mem_append.mp hf with hf|hf
    · rcases List.mem_append.mp hf with hf|hf
      · have hle := hsum _ _ hf
        omega
      · have hle := hsum _ _ hf
        omega
    · have hle := hsum _ _ hf
      omega
  · have hle := hsum _ _ hf
    omega

/-- The streams of lengths and distances with the frequencies of a block. -/
def TablesFit.streams (h : TablesFit freq literals lmds) : LmdStreams where
  l := {
    n := 6
    w := 8
    fromValue := lBaseFromValue
    extraBits := lExtraBits
    baseValue := lBaseValue
    freq := freq.l
    n_le := by decide
    w_le := by decide
    extraBits_length := h.l.1.symm
    baseValue_length := h.l.1.symm
    extraBits_le := by decide
    freq_sum := Nat.le_of_eq h.l.2}
  m := {
    n := 6
    w := 11
    fromValue := mBaseFromValue
    extraBits := mExtraBits
    baseValue := mBaseValue
    freq := freq.m
    n_le := by decide
    w_le := by decide
    extraBits_length := h.m.1.symm
    baseValue_length := h.m.1.symm
    extraBits_le := by decide
    freq_sum := Nat.le_of_eq h.m.2}
  d := {
    n := 8
    w := 15
    fromValue := dBaseFromValue
    extraBits := dExtraBits
    baseValue := dBaseValue
    freq := freq.d
    n_le := by decide
    w_le := by decide
    extraBits_length := h.d.1.symm
    baseValue_length := h.d.1.symm
    extraBits_le := by decide
    freq_sum := Nat.le_of_eq h.d.2}
  l_eq := ⟨rfl,rfl,rfl⟩
  m_eq := ⟨rfl,rfl,rfl⟩
  d_eq := ⟨rfl,rfl,rfl⟩
  bits_le := show 6+8+(6+11)+(8+15)≤56 by omega

/-- All lengths and distances of a block have codes. -/
theorem TablesFit.codes (h : TablesFit freq literals lmds) (hinput : BlockInput literals lmds) :
    ∀ v∈lmds, h.streams.Codes v := by
  intro v hv
  obtain ⟨hl,hm,hd⟩ := hinput.values v hv
  obtain ⟨hlOccurs,hmOccurs,hdOccurs⟩ := h.lmds v hv
  obtain ⟨a,ha,hsplits⟩ := (lBaseFromValue_splits hl).symbol
  obtain ⟨b,hb,hsplits'⟩ := (mBaseFromValue_splits hm).symbol
  obtain ⟨c,hc,hsplits''⟩ := (dBaseFromValue_splits hd).symbol
  exact ⟨⟨a,ha,hlOccurs a ha,hsplits⟩,⟨b,hb,hmOccurs b hb,hsplits'⟩,⟨c,hc,hdOccurs c hc,hsplits''⟩⟩

end Tables

end Applesauce.Lzfse
