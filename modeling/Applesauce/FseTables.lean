import Applesauce.FseStreams
import Applesauce.StateSlots

/-!
# The tables are a coder of symbols

For a power of two of states and frequencies that are no more, the encoder
table moves a state to a slot of its symbol and the decoder tables move it
back. All entries are within their types, and no step meets a shift by less
than no bits.
-/

namespace Applesauce.Fse

open ByteWords BitStack StateSlots

section Words

/-- A small number is an `int16_t`. -/
theorem int16_eq {x : ℤ} (hlow : -32768≤x) (hhigh : x<32768) : int16 x=x := by
  unfold int16
  rw [Int.bmod_def]
  split <;> omega

/-- A number of bits is an `int8_t`. -/
theorem int8_eq {x : ℤ} (hlow : -128≤x) (hhigh : x<128) : int8 x=x := by
  unfold int8
  rw [Int.bmod_def]
  split <;> omega

/-- A small number is a `uint8_t`. -/
theorem uint8_eq {x : ℕ} (h : x<256) : uint8 x=x := by
  unfold uint8
  omega

/-- A sum that is small is one of `uint16_t`. -/
theorem uint16_add {x : ℤ} {y z : ℕ} (h : x+y=z) (hz : z<65536) : uint16 (uint16 x+y)=z := by
  unfold uint16
  omega

end Words

section Entries
variable {n f : ℕ}

/-- The shift of the tables is that of the slots. -/
theorem clz_sub (hle : f≤2^n) : clz f-clz (2^n)=shift n f := by
  have hlog : Nat.log2 f≤n := by
    have hn : Nat.log2 (2^n)=n := Nat.log2_two_pow
    rw [←hn,Nat.log2_eq_log_two,Nat.log2_eq_log_two]
    exact Nat.log_mono_right hle
  unfold clz shift
  rw [Nat.log2_two_pow]
  omega

/-- No shift of the tables is negative. -/
theorem shiftLeft_natCast (stray : ℤ) (x k : ℕ) : shiftLeft stray x k=(x*2^k : ℕ) := by
  unfold shiftLeft
  rw [if_pos (Int.natCast_nonneg k),Int.toNat_natCast,Nat.shiftLeft_eq]

/-- No shift of the tables is negative. -/
theorem shiftRight_natCast (stray : ℤ) (x k : ℕ) : shiftRight stray x k=(x/2^k : ℕ) := by
  unfold shiftRight
  rw [if_pos (Int.natCast_nonneg k),Int.toNat_natCast,Nat.shiftRight_eq_div_pow]

/-- The entry of a symbol with occurrences. -/
theorem encoderEntry_eq (stray : ℤ) {offset : ℕ} (hn : n≤14) (hpos : 0<f) (hfit : offset+f≤2^n) :
    (encoderEntry stray (2^n) offset f).s0=(f*2^shift n f : ℕ)-(2^n : ℕ) ∧
      (encoderEntry stray (2^n) offset f).k=shift n f ∧
      (encoderEntry stray (2^n) offset f).delta0=offset-f+(2^n/2^shift n f : ℕ) ∧
      (0<shift n f → (encoderEntry stray (2^n) offset f).delta1=
        offset-f+(2^n/2^(shift n f-1) : ℕ)) := by
  have hle : f≤2^n := by omega
  obtain ⟨hk,hlow,hhigh⟩ := shift_bounds hpos hle
  have hdouble : 2^(n+1)=2*2^n := pow_succ' 2 n
  have hall : 2^n≤2^14 := Nat.pow_le_pow_right Nat.two_pos hn
  have hstates : (2^n : ℕ)≤16384 := hall
  have hclz := clz_sub hle
  have hquot : 2^n/2^shift n f≤2^n := Nat.div_le_self _ _
  have hnonneg : ∀ m : ℕ, (0 : ℤ)≤(2^n/2^m : ℕ) := fun m => Int.natCast_nonneg _
  have hlong := hnonneg (shift n f)
  have hshort := hnonneg (shift n f-1)
  unfold encoderEntry
  dsimp only
  rw [hclz,shiftLeft_natCast,shiftRight_natCast]
  refine ⟨int16_eq (by omega) (by omega),int16_eq (by omega) (by omega),
    int16_eq (by omega) (by omega),fun hpositive => ?_⟩
  have hpred : ((shift n f : ℕ) : ℤ)-1=((shift n f-1 : ℕ) : ℤ) := by omega
  have hquot' : 2^n/2^(shift n f-1)≤2^n := Nat.div_le_self _ _
  rw [hpred,shiftRight_natCast]
  exact int16_eq (by omega) (by omega)

/-- What one of the slots of a symbol reads, and the state it adds this to. -/
theorem stateBits_eq {j : ℕ} (hpos : 0<f) (hle : f≤2^n) (hj : j<f) :
    (stateBits (2^n) f j).1=slotBits n f (f+j) ∧
      (stateBits (2^n) f j).2=slotBase n f (f+j) := by
  obtain ⟨hk,hlow,hhigh⟩ := shift_bounds hpos hle
  obtain ⟨hfirst,_⟩ := @slotBase_bounds n f (f+j) hpos hle (by omega) (by omega)
  have hclz := clz_sub hle
  have hsplit : 2^(n+1-shift n f)*2^shift n f=2^(n+1) := by
    rw [←pow_add]
    congr 1
    omega
  have hquot : (2*2^n)>>>shift n f=2^(n+1-shift n f) := by
    rw [Nat.shiftRight_eq_div_pow,←pow_succ',←hsplit,Nat.mul_div_cancel _ (Nat.two_pow_pos _)]
  unfold stateBits
  dsimp only
  rw [hclz,Int.toNat_natCast,hquot]
  by_cases hlong : f+j<2^(n+1-shift n f)
  · have hbits : slotBits n f (f+j)=shift n f := if_pos hlong
    unfold slotBase
    rw [if_pos (by omega),hbits]
    rw [hbits] at hfirst
    refine ⟨rfl,?_⟩
    dsimp only
    rw [Nat.shiftLeft_eq,Nat.cast_sub hfirst]
  · have hbits : slotBits n f (f+j)=shift n f-1 := if_neg hlong
    have hpositive : 0<shift n f := by
      rcases Nat.eq_zero_or_pos (shift n f) with hzero|hpositive
      · rw [hzero,pow_zero,Nat.mul_one] at hlow
        rw [hzero,Nat.sub_zero,pow_succ'] at hlong
        omega
      · exact hpositive
    have hexp : 2^(n+1-shift n f)*2^(shift n f-1)=2^n := by
      rw [←pow_add]
      congr 1
      omega
    have hpred : (((shift n f : ℕ) : ℤ)-1).toNat=shift n f-1 := by omega
    have hcast : ((shift n f : ℕ) : ℤ)-1=((shift n f-1 : ℕ) : ℤ) := by omega
    unfold slotBase
    rw [if_neg (by omega),hpred,hbits,hcast]
    rw [hbits] at hfirst
    refine ⟨rfl,?_⟩
    dsimp only
    rw [Nat.cast_sub hfirst,←hexp]
    push_cast
    ring

end Entries

section Lookups
variable {freq : List ℕ} {a f : ℕ}

/-- Every symbol with occurrences has its entry. -/
theorem initEncoderTable_getElem? (stray : ℤ) (nstates offset : ℕ) (h : freq[a]?=some f)
    (hpos : 0<f) : (initEncoderTable stray nstates offset freq)[a]?=
      some (some (encoderEntry stray nstates (offset+(freq.take a).sum) f)) := by
  induction freq generalizing a offset with
  | nil => cases h
  | cons g freq ih =>
    unfold initEncoderTable
    cases a with
    | zero =>
      obtain rfl := Option.some.inj h
      rw [if_neg (Nat.ne_of_gt hpos)]
      rfl
    | succ a =>
      rw [List.take_succ_cons,List.sum_cons]
      split
      · next hzero =>
        rw [List.getElem?_cons_succ,ih offset h,hzero,Nat.zero_add]
      · rw [List.getElem?_cons_succ,ih (offset+g) h,Nat.add_assoc]

/-- An entry of a block of entries in front of others. -/
theorem getElem?_range_map {β : Type*} (entry : ℕ→β) (rest : List β) {f j : ℕ} (hj : j<f) :
    ((List.range f).map entry++rest)[j]?=some (entry j) := by
  rw [List.getElem?_append_left (by rw [List.length_map,List.length_range]; exact hj),
    List.getElem?_map,List.getElem?_range hj]
  rfl

/-- An entry behind a block of entries. -/
theorem getElem?_range_append {β : Type*} (entry : ℕ→β) (rest : List β) {f j : ℕ} :
    ((List.range f).map entry++rest)[f+j]?=rest[j]? := by
  rw [List.getElem?_append_right (by rw [List.length_map,List.length_range]; omega),
    List.length_map,List.length_range,Nat.add_sub_cancel_left]

/-- The decoder table has an entry for every slot. -/
theorem initDecoderTable_eq {nstates symbol sumOfFreq : ℕ} (hsum : sumOfFreq+freq.sum≤nstates) :
    ∃ table, initDecoderTable nstates symbol sumOfFreq freq=some table ∧
      ∀ s r, locate freq s=some r →
        table[s]?=some (decoderEntry nstates (symbol+r.1) r.2.1 r.2.2) := by
  induction freq generalizing symbol sumOfFreq with
  | nil => exact ⟨[],rfl,fun s r hbad => by cases hbad⟩
  | cons g freq ih =>
    rw [List.sum_cons] at hsum
    unfold initDecoderTable
    by_cases hzero : g=0
    · obtain ⟨table,htable,hentries⟩ := @ih (symbol+1) sumOfFreq (by omega)
      refine ⟨table,by rw [if_pos hzero,htable],fun s r hr => ?_⟩
      unfold locate at hr
      rw [if_neg (by omega),hzero,Nat.sub_zero] at hr
      obtain ⟨q,hq,rfl⟩ := Option.map_eq_some_iff.mp hr
      rw [hentries s q hq,Nat.add_assoc,Nat.add_comm 1]
    · obtain ⟨table,htable,hentries⟩ := @ih (symbol+1) (sumOfFreq+g) (by omega)
      refine ⟨_,by rw [if_neg hzero,if_neg (by omega),htable]; rfl,fun s r hr => ?_⟩
      unfold locate at hr
      split at hr
      · next hs =>
        obtain rfl := Option.some.inj hr
        exact getElem?_range_map _ _ hs
      · next hs =>
        obtain ⟨q,hq,rfl⟩ := Option.map_eq_some_iff.mp hr
        have hback : g+(s-g)=s := by omega
        have hrest := @getElem?_range_append _ (decoderEntry nstates symbol g) table g (s-g)
        rw [hback] at hrest
        rw [hrest,hentries (s-g) q hq,Nat.add_assoc,Nat.add_comm 1]

/-- The value decoder table has an entry for every slot. -/
theorem initValueDecoderTable_eq {nstates : ℕ} {symbols : List (ℕ×ℕ×ℤ)} {s : ℕ} {r : ℕ×ℕ×ℕ}
    (hr : locate (symbols.map fun x => x.1) s=some r) : ∃ vbits vbase,
      symbols[r.1]?=some (r.2.1,vbits,vbase) ∧ (initValueDecoderTable nstates symbols)[s]?=
        some (valueDecoderEntry nstates r.2.1 vbits vbase r.2.2) := by
  induction symbols generalizing s r with
  | nil => cases hr
  | cons x symbols ih =>
    obtain ⟨g,vbits,vbase⟩ := x
    rw [List.map_cons] at hr
    unfold locate at hr
    unfold initValueDecoderTable
    split at hr
    · next hs =>
      obtain rfl := Option.some.inj hr
      dsimp only at hs
      rw [if_neg (by omega)]
      exact ⟨vbits,vbase,rfl,getElem?_range_map _ _ hs⟩
    · next hs =>
      obtain ⟨q,hq,rfl⟩ := Option.map_eq_some_iff.mp hr
      obtain ⟨vbits',vbase',hsymbol,hentry⟩ := ih hq
      refine ⟨vbits',vbase',hsymbol,?_⟩
      dsimp only at hs hentry ⊢
      split
      · next hzero =>
        rw [hzero,Nat.sub_zero] at hentry
        exact hentry
      · have hback : g+(s-g)=s := by omega
        have hrest := @getElem?_range_append _ (valueDecoderEntry nstates g vbits vbase)
          (initValueDecoderTable nstates symbols) g (s-g)
        rw [hback] at hrest
        rw [hrest]
        exact hentry

end Lookups

section Steps
variable {n : ℕ} {freq : List ℕ} {s a : ℕ} {t : Stack}

/-- A symbol with occurrences is encoded as its coder does. -/
theorem encode_refines (stray : ℤ) (hn : n≤14) (hsum : freq.sum≤2^n) {f : ℕ}
    (hf : freq[a]?=some f) (hpos : 0<f) (hs : s<2^n) {out : OutStream} {buf : OutBuffer}
    (hold : out.Holds buf t) (hroom : out.accumNbits+n<64) : ∃ s' t' out',
      (symbolCoder n freq hsum).encode s a t=some (s',t') ∧
      encode (initEncoderTable stray (2^n) 0 freq) s a out=some (s',out') ∧
      out'.Holds buf t' ∧ s'<2^n ∧ out'.accumNbits≤out.accumNbits+n := by
  have htake := take_sum_add_le hf
  have hle : f≤2^n := by omega
  obtain ⟨hk,hlow,hhigh⟩ := shift_bounds hpos hle
  obtain ⟨hfirst,hlast⟩ := slot_bounds hpos hle hs
  have hbits := @bits_le n f s hpos hle
  have hall : (2 : ℕ)^n≤2^14 := Nat.pow_le_pow_right Nat.two_pos hn
  have hmod : s%2^bits n f s<2^bits n f s := Nat.mod_lt _ (Nat.two_pow_pos _)
  obtain ⟨out',hpush,hold',hnbits⟩ := hold.push hmod (by omega)
  have hentry := initEncoderTable_getElem? stray (2^n) 0 hf hpos
  rw [Nat.zero_add] at hentry
  obtain ⟨hs0,hk0,hd0,hd1⟩ :=
    @encoderEntry_eq n f stray (freq.take a).sum hn hpos (by omega)
  refine ⟨(freq.take a).sum+(slot n f s-f),_,out',?_,?_,hold',by omega,by omega⟩
  · unfold symbolCoder
    dsimp only
    rw [hf,Option.bind_some,if_pos ⟨hpos,hs⟩]
  -- The bits of a state are a multiple of those of the states of its symbol.
  have hstate : ∀ k, k≤n → 2^n/2^k+s>>>k=(2^n+s)/2^k := by
    intro k hkn
    obtain ⟨c,hc⟩ := pow_dvd_pow 2 hkn
    rw [Nat.shiftRight_eq_div_pow,hc,Nat.mul_div_cancel_left _ (Nat.two_pow_pos k),
      Nat.mul_add_div (Nat.two_pow_pos k)]
  unfold encode
  rw [hentry]
  dsimp only
  by_cases hlong : f*2^shift n f≤2^n+s
  · have hb : bits n f s=shift n f := if_pos hlong
    have hhi : (encoderEntry stray (2^n) (freq.take a).sum f).s0≤ s := by
      rw [hs0]
      omega
    have hsum' := hstate (shift n f) hk
    have hslot : slot n f s=(2^n+s)/2^shift n f := by unfold slot; rw [hb]
    rw [if_pos hhi,if_pos hhi,hk0,if_pos (Int.natCast_nonneg _),Int.toNat_natCast,hd0]
    unfold maskLsb
    rw [←hb,hpush,Option.map_some]
    congr 2
    refine uint16_add ?_ (by omega)
    rw [hb]
    omega
  · have hb : bits n f s=shift n f-1 := if_neg hlong
    have hpositive := shift_pos hpos hle hlong
    have hhi : ¬(encoderEntry stray (2^n) (freq.take a).sum f).s0≤ s := by
      rw [hs0]
      omega
    have hsum' := hstate (shift n f-1) (by omega)
    have hslot : slot n f s=(2^n+s)/2^(shift n f-1) := by unfold slot; rw [hb]
    have hcast : ((shift n f : ℕ) : ℤ)-1=((shift n f-1 : ℕ) : ℤ) := by omega
    rw [if_neg hhi,if_neg hhi,hk0,hcast,if_pos (Int.natCast_nonneg _),Int.toNat_natCast,
      hd1 hpositive]
    unfold maskLsb
    rw [←hb,hpush,Option.map_some]
    congr 2
    refine uint16_add ?_ (by omega)
    rw [hb]
    omega

/-- What one of the slots of a symbol reads and the state it adds this to are small. -/
theorem slot_small {f j : ℕ} (hn : n≤14) (hpos : 0<f) (hle : f≤2^n) (hj : j<f) :
    slotBits n f (f+j)≤14 ∧ slotBase n f (f+j)<16384 := by
  have hbits := slotBits_le hpos hle (f+j)
  obtain ⟨hfirst,hlast⟩ := @slotBase_bounds n f (f+j) hpos hle (by omega) (by omega)
  have hall : (2 : ℕ)^n≤2^14 := Nat.pow_le_pow_right Nat.two_pos hn
  have hdouble : 2^(n+1)=2*2^n := pow_succ' 2 n
  refine ⟨by omega,?_⟩
  unfold slotBase
  omega

/-- A symbol is decoded as its coder does. -/
theorem decode_refines (hn : n≤14) (hsum : freq.sum≤2^n) (hsymbols : freq.length≤256)
    {s' : ℕ} {t' : Stack} (hdec : (symbolCoder n freq hsum).decode s t=some (a,s',t'))
    {table : List DecoderEntry} (htable : initDecoderTable (2^n) 0 0 freq=some table)
    {input : InStream} {buf : List UInt8} (hold : input.Holds buf t) (hroom : n≤ input.accumNbits) :
    ∃ input', decode table s input=some (a,s',input') ∧ input'.Holds buf t' ∧
      input'.accumNbits≤ input.accumNbits ∧ input.accumNbits≤ input'.accumNbits+n := by
  obtain ⟨r,hr,hall⟩ := Option.map_eq_some_iff.mp hdec
  obtain ⟨rfl,hrest⟩ := Prod.mk.inj hall
  obtain ⟨rfl,rfl⟩ := Prod.mk.inj hrest
  obtain ⟨b,f,j⟩ := r
  obtain ⟨hf,hj⟩ := locate_some hr
  dsimp only at hf hj ⊢
  have htake := take_sum_add_le hf
  have hle : f≤2^n := by omega
  have hpos : 0<f := by omega
  have hbits := slotBits_le hpos hle (f+j)
  obtain ⟨hsmall,hbase⟩ := slot_small hn hpos hle hj
  obtain ⟨hk,hdelta⟩ := stateBits_eq hpos hle hj
  obtain ⟨table',htable',hentries⟩ := @initDecoderTable_eq freq (2^n) 0 0 (by omega)
  obtain rfl := Option.some.inj (htable'.symm.trans htable)
  have hentry := hentries s _ hr
  obtain ⟨input',hpull,hold',hnbits⟩ := hold.pull (show slotBits n f (f+j)≤ input.accumNbits by omega)
  have hheight := hold.height
  have htop := @Stack.top_lt t (slotBits n f (f+j)) (by omega)
  have hpow : 2^slotBits n f (f+j)≤2^14 := Nat.pow_le_pow_right Nat.two_pos hsmall
  have hsymbol : b<256 := by
    obtain ⟨hlt,_⟩ := List.getElem?_eq_some_iff.mp hf
    omega
  refine ⟨input',?_,hold',by omega,by omega⟩
  unfold decode
  rw [hentry]
  unfold decoderEntry
  dsimp only
  rw [hk,hdelta,int8_eq (by omega) (by omega),uint8_eq (show slotBits n f (f+j)<256 by omega),hpull,
    Option.map_some,Nat.zero_add,uint8_eq hsymbol,int16_eq (by omega) (by omega)]
  dsimp only
  have hpulled : uint16 (t.top (slotBits n f (f+j)) : ℕ)=t.top (slotBits n f (f+j)) := by
    unfold uint16
    omega
  rw [hpulled]
  congr 3
  exact uint16_add (Nat.cast_add _ _).symm (by omega)

end Steps

section Values
variable {n : ℕ} {s v : ℕ} {t : Stack}

/-- A value is its symbol and the extra bits above the base of the symbol. -/
def valueParts (symbol : ℕ→ℕ) (symbols : List (ℕ×ℕ×ℤ)) : Parts ℕ ℕ where
  part := symbol
  width a := (symbols[a]?.map fun x => x.2.1).getD 0
  rest v := v-((symbols[symbol v]?.map fun x => x.2.2.toNat).getD 0)
  join a x := (symbols[a]?.map fun x => x.2.2.toNat).getD 0+x

/-- A value is decoded as its coder does. -/
theorem valueDecode_refines (hn : n≤14) {symbol : ℕ→ℕ} {symbols : List (ℕ×ℕ×ℤ)} {w : ℕ} (hw : w≤16)
    (hsum : (symbols.map fun x => x.1).sum≤2^n) (hvbits : ∀ x∈symbols, x.2.1≤w)
    (hvbase : ∀ x∈symbols, 0≤x.2.2) {s' : ℕ} {t' : Stack}
    (hdec : ((symbolCoder n (symbols.map fun x => x.1) hsum).values
      (valueParts symbol symbols)).decode s t=some (v,s',t'))
    {input : InStream} {buf : List UInt8} (hold : input.Holds buf t)
    (hroom : n+w≤ input.accumNbits) : ∃ input',
      valueDecode (initValueDecoderTable (2^n) symbols) s input=some ((v : ℤ),s',input') ∧
      input'.Holds buf t' ∧ input'.accumNbits≤ input.accumNbits ∧
      input.accumNbits≤ input'.accumNbits+(n+w) := by
  obtain ⟨q,hq,hall⟩ := Option.map_eq_some_iff.mp hdec
  obtain ⟨rfl,hrest⟩ := Prod.mk.inj hall
  obtain ⟨rfl,rfl⟩ := Prod.mk.inj hrest
  obtain ⟨r,hr,rfl⟩ := Option.map_eq_some_iff.mp hq
  obtain ⟨a,f,j⟩ := r
  obtain ⟨hf,hj⟩ := locate_some hr
  obtain ⟨vbits,vbase,hsymbol,hentry⟩ := @initValueDecoderTable_eq (2^n) symbols s _ hr
  dsimp only at hf hj hsymbol hentry ⊢
  have htake := take_sum_add_le hf
  have hle : f≤2^n := by omega
  have hpos : 0<f := by omega
  have hmem := List.mem_of_getElem? hsymbol
  have hsmallBits : vbits≤w := hvbits _ hmem
  have hbaseNonneg : 0≤vbase := hvbase _ hmem
  have hbits := slotBits_le hpos hle (f+j)
  obtain ⟨hsmall,hbase⟩ := slot_small hn hpos hle hj
  obtain ⟨hk,hdelta⟩ := stateBits_eq hpos hle hj
  have hwidth : (valueParts symbol symbols).width a=vbits := by
    unfold valueParts
    dsimp only
    rw [hsymbol]
    rfl
  have hjoin : ∀ x, (valueParts symbol symbols).join a x=vbase.toNat+x := by
    intro x
    unfold valueParts
    dsimp only
    rw [hsymbol]
    rfl
  rw [hwidth,hjoin]
  have hheight := hold.height
  have hfits : slotBits n f (f+j)+vbits≤t.height := by omega
  obtain ⟨input',hpull,hold',hnbits⟩ :=
    hold.pull (show slotBits n f (f+j)+vbits≤ input.accumNbits by omega)
  obtain ⟨hhigh,hlow⟩ := Stack.top_add hfits
  have htop := Stack.top_lt hfits
  have hpow : 2^(slotBits n f (f+j)+vbits)≤2^30 := Nat.pow_le_pow_right Nat.two_pos (by omega)
  have hstate := @Stack.top_lt t (slotBits n f (f+j)) (by omega)
  have hpow' : 2^slotBits n f (f+j)≤2^14 := Nat.pow_le_pow_right Nat.two_pos hsmall
  have htotal : uint8 (uint8 (slotBits n f (f+j) : ℕ)+(vbits : ℕ))=slotBits n f (f+j)+vbits := by
    rw [uint8_eq (show slotBits n f (f+j)<256 by omega)]
    unfold uint8
    omega
  rw [Stack.pop_add hfits]
  refine ⟨input',?_,hold',by omega,by omega⟩
  unfold valueDecode
  rw [hentry]
  unfold valueDecoderEntry
  dsimp only
  rw [hk,hdelta,htotal,hpull,Option.map_some,int16_eq (by omega) (by omega)]
  dsimp only
  have hmod : t.top (slotBits n f (f+j)+vbits)%2^32=t.top (slotBits n f (f+j)+vbits) :=
    Nat.mod_eq_of_lt (by omega)
  unfold maskLsb
  rw [hmod,Nat.shiftRight_eq_div_pow,hhigh,hlow]
  have hvalue : vbase+((t.pop (slotBits n f (f+j))).top vbits : ℕ)=
      ((vbase.toNat+(t.pop (slotBits n f (f+j))).top vbits : ℕ) : ℤ) := by omega
  have hnext : uint16 ((slotBase n f (f+j) : ℕ)+(t.top (slotBits n f (f+j)) : ℕ))=
      slotBase n f (f+j)+t.top (slotBits n f (f+j)) := by
    unfold uint16
    omega
  rw [hvalue,hnext]

end Values

end Applesauce.Fse
