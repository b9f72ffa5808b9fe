import Applesauce.BitStack
import Applesauce.LzfseEncoder
import Mathlib.Data.Nat.Bitwise

/-!
# Matches are repetitions of the source

Whatever the history table holds, a match that the search takes is a place of
the source where earlier bytes are repeated: candidates are compared byte by
byte beyond their first four. Comparing never reads beyond the source.
-/

namespace Applesauce.Lzfse

open ByteWords BitStack Fse

section Words
variable {xs ys : List UInt8}

/-- The first bytes of a word are its low part. -/
theorem leValue_take_mod {q : ℕ} (h : q≤xs.length) : leValue (xs.take q)=leValue xs%2^(8*q) := by
  have hsplit := leValue_append (xs.take q) (xs.drop q)
  have hlt := leValue_lt_pow (xs.take q)
  rw [List.take_append_drop,List.length_take_of_le h] at hsplit
  rw [List.length_take_of_le h] at hlt
  rw [hsplit,Nat.add_mul_mod_self_left,Nat.mod_eq_of_lt hlt]

/-- Byte lists of one length with the same value are the same. -/
theorem leValue_inj (hlength : xs.length=ys.length) (h : leValue xs=leValue ys) : xs=ys := by
  rw [←leBytes_leValue xs,←leBytes_leValue ys,hlength,h]

/-- The zeros below a number. -/
theorem ctz_spec (bits x : ℕ) : ctz bits x≤bits ∧ 2^ctz bits x∣x := by
  induction bits generalizing x with
  | zero => exact ⟨Nat.le_refl 0,Nat.one_dvd x⟩
  | succ bits ih =>
    unfold ctz
    split
    · exact ⟨Nat.zero_le _,Nat.one_dvd x⟩
    · next hodd =>
      obtain ⟨hle,hdvd⟩ := ih (x/2)
      refine ⟨Nat.succ_le_succ hle,?_⟩
      have heven : x=2*(x/2) := by omega
      rw [heven,pow_succ',Nat.mul_div_cancel_left _ Nat.two_pos]
      exact Nat.mul_dvd_mul_left 2 hdvd

/-- Words are the same in their first bytes if these do not differ. -/
theorem take_of_dvd (hlength : xs.length=ys.length) {n : ℕ} (hn : n≤xs.length)
    (h : 2^(8*n)∣leValue xs^^^leValue ys) : xs.take n=ys.take n := by
  have hxor : leValue xs%2^(8*n)^^^leValue ys%2^(8*n)=0 := by
    rw [←Nat.xor_mod_two_pow]
    exact Nat.mod_eq_zero_of_dvd h
  refine leValue_inj ?_ ?_
  · rw [List.length_take,List.length_take,hlength]
  · rw [leValue_take_mod hn,leValue_take_mod (hlength ▸ hn)]
    exact Nat.xor_eq_zero_iff.mp hxor

/-- Words are the same in the bytes below their first difference. -/
theorem take_ctzll (hx : xs.length=8) (hy : ys.length=8) :
    xs.take (ctzll (leValue xs^^^leValue ys)>>>3)=ys.take (ctzll (leValue xs^^^leValue ys)>>>3) ∧
      ctzll (leValue xs^^^leValue ys)>>>3≤8 := by
  obtain ⟨c,hc⟩ : ∃ c, c=ctzll (leValue xs^^^leValue ys) := ⟨_,rfl⟩
  obtain ⟨hle,hdvd⟩ := ctz_spec 64 (leValue xs^^^leValue ys)
  change ctzll (leValue xs^^^leValue ys)≤64 at hle
  change 2^ctzll (leValue xs^^^leValue ys)∣leValue xs^^^leValue ys at hdvd
  rw [←hc] at hle hdvd ⊢
  have hbytes : c>>>3≤8 := by
    rw [Nat.shiftRight_eq_div_pow]
    omega
  refine ⟨take_of_dvd (hx.trans hy.symm) (by omega) (Nat.dvd_trans (pow_dvd_pow 2 ?_) hdvd),hbytes⟩
  rw [Nat.shiftRight_eq_div_pow]
  omega

end Words

section Loads
variable {src : List UInt8}

/-- A word within the source is loaded. -/
theorem load_eq {count offset : ℕ} (h : offset+count≤ src.length) :
    load src count offset=some (leValue ((src.drop offset).take count)) := by
  unfold load
  rw [if_pos ⟨Int.natCast_nonneg _,by omega⟩,Int.toNat_natCast]

/-- What was loaded is within the source. -/
theorem load_some {count : ℕ} {offset : ℤ} {x : ℕ} (h : load src count offset=some x) :
    0≤offset ∧ offset+count≤ src.length ∧ leValue ((src.drop offset.toNat).take count)=x := by
  unfold load at h
  obtain ⟨hin,h⟩ := Option.ite_none_right_eq_some.mp h
  exact ⟨hin.1,hin.2,Option.some.inj h⟩

/-- So many bytes are repeated. -/
def Repeats (src : List UInt8) (ref pos length : ℕ) : Prop :=
  ∀ i<length, src[pos+i]?=src[ref+i]?

/-- More bytes are repeated where the parts behind are the same. -/
theorem Repeats.add {ref pos length more : ℕ} (h : Repeats src ref pos length)
    (hmore : (src.drop (ref+length)).take more=(src.drop (pos+length)).take more) :
    Repeats src ref pos (length+more) := by
  intro i hi
  by_cases hfirst : i<length
  · exact h i hfirst
  · have hget := congrArg (fun xs => xs[i-length]?) hmore
    rw [List.getElem?_take_of_lt (by omega),List.getElem?_take_of_lt (by omega),List.getElem?_drop,
      List.getElem?_drop,show ref+length+(i-length)=ref+i by omega,
      show pos+length+(i-length)=pos+i by omega] at hget
    exact hget.symm

/-- A comparison ends within the source, and what it has compared is repeated. -/
theorem matchLength_spec {ref pos maxLength : ℕ} (href : ref<pos) (hmax : pos+maxLength+8=src.length)
    {length : ℕ} (hlength : length≤ maxLength+7) (h : Repeats src ref pos length) :
    ∃ n, matchLength src ref pos maxLength length=some n ∧ n≤ maxLength+7 ∧ length≤n ∧
      Repeats src ref pos n := by
  induction hrest : maxLength+8-length using Nat.strong_induction_on generalizing length with
  | _ rest ih =>
    rw [matchLength]
    split
    · next hlt =>
      have hloadRef : load src 8 ((ref : ℤ)+length)=
          some (leValue ((src.drop (ref+length)).take 8)) := by
        exact_mod_cast @load_eq src 8 (ref+length) (by omega)
      have hloadPos : load src 8 ((pos : ℤ)+length)=
          some (leValue ((src.drop (pos+length)).take 8)) := by
        exact_mod_cast @load_eq src 8 (pos+length) (by omega)
      have hlengthRef : ((src.drop (ref+length)).take 8).length=8 := by
        rw [List.length_take,List.length_drop]
        omega
      have hlengthPos : ((src.drop (pos+length)).take 8).length=8 := by
        rw [List.length_take,List.length_drop]
        omega
      rw [hloadRef,hloadPos,Option.bind_some,Option.bind_some]
      split
      · next hsame =>
        have hwords := leValue_inj (hlengthRef.trans hlengthPos.symm) (Nat.xor_eq_zero_iff.mp hsame)
        obtain ⟨n,hn,hle,hge,hrepeats⟩ :=
          ih (maxLength+8-(length+8)) (by omega) (by omega) (h.add hwords) rfl
        exact ⟨n,hn,hle,by omega,hrepeats⟩
      · obtain ⟨htake,hle⟩ := take_ctzll hlengthRef hlengthPos
        rw [List.take_take,List.take_take,Nat.min_eq_left hle] at htake
        exact ⟨_,rfl,by omega,Nat.le_add_right _ _,h.add htake⟩
    · exact ⟨length,rfl,hlength,Nat.le_refl _,h⟩

end Loads

section Candidates
variable {src : List UInt8} {pos x : ℕ}

/-- A match repeats earlier bytes of the source at a distance that can be encoded. -/
structure Match.Valid (src : List UInt8) (m : Match) : Prop where
  /-- It repeats bytes of the source. -/
  ref_nonneg : 0≤ m.ref
  /-- These are earlier. -/
  ref_lt : m.ref< m.pos
  /-- They are near. -/
  near : m.pos≤ m.ref+maxDValue
  /-- It ends within the source. -/
  le : m.pos+m.length≤ src.length
  /-- They are the same. -/
  repeats : Repeats src m.ref.toNat m.pos m.length

/-- A position of the history is invalid, or it is before `pos` and its value is there. -/
def Remembers (src : List UInt8) (pos : ℕ) (h : ℤ×ℕ) : Prop :=
  h.1=invalidPos ∨ 0≤h.1 ∧ h.1<pos ∧ load src 4 h.1=some h.2

/-- The best match so far is at `pos`. -/
def Incoming (src : List UInt8) (pos : ℕ) (m : Match) : Prop :=
  m.pos=pos ∧ (m.length=0 ∨ m.Valid src)

/-- A candidate is no match, or one that repeats bytes. -/
theorem checkCandidate_spec (hsize : src.length+maxDValue≤2^31) (hpos : pos+8<src.length)
    (hx : load src 4 pos=some x) {h : ℤ×ℕ} (hh : Remembers src pos h) {m : Match}
    (hm : Incoming src pos m) :
    ∃ m', checkCandidate src pos x h m=some m' ∧ Incoming src pos m' := by
  unfold checkCandidate
  have hmax : ((((src.length : ℤ)-pos-8)%2^32).toNat)=src.length-pos-8 := by omega
  rcases hh with hinvalid|⟨hnonneg,hbefore,hvalue⟩
  · have hfar : h.1+maxDValue<pos := by
      rw [hinvalid]
      unfold invalidPos maxDValue
      omega
    have hsmall : ¬2^31≤h.1+(maxDValue : ℤ) := by omega
    rw [if_neg hsmall,if_pos hfar,ite_self]
    exact ⟨m,rfl,hm⟩
  · split
    · exact ⟨m,rfl,hm⟩
    · next hsame =>
      obtain ⟨ref,hrefEq⟩ := Int.eq_ofNat_of_zero_le hnonneg
      rw [hrefEq] at hbefore hvalue ⊢
      have hrefPos : ref<pos := by omega
      rw [if_neg (by omega)]
      split
      · exact ⟨m,rfl,hm⟩
      · next hnear =>
        have hfour : Repeats src ref pos 4 := by
          obtain ⟨_,hrefEnd,hrefValue⟩ := load_some hvalue
          obtain ⟨_,hposEnd,hposValue⟩ := load_some hx
          rw [Int.toNat_natCast] at hrefValue hposValue
          have hxor := Nat.xor_eq_zero_iff.mp (Decidable.not_not.mp hsame)
          have hwords : (src.drop ref).take 4=(src.drop pos).take 4 := by
            refine leValue_inj ?_ (hrefValue.trans (hxor.trans hposValue.symm))
            rw [List.length_take,List.length_take,List.length_drop,List.length_drop]
            omega
          have hempty : Repeats src ref pos 0 := fun i hbad => absurd hbad (Nat.not_lt_zero i)
          exact hempty.add hwords
        obtain ⟨n,hn,hle,_,hrepeats⟩ := @matchLength_spec src ref pos (src.length-pos-8) hrefPos
          (by omega) 4 (by omega) hfour
        rw [hmax,hn,Option.map_some]
        refine ⟨_,rfl,?_⟩
        split
        · obtain ⟨hmpos,_⟩ := hm
          rw [←hmpos] at hrefPos hnear hle hrepeats hpos ⊢
          exact ⟨rfl,.inr ⟨Int.natCast_nonneg ref,by dsimp only; omega,by dsimp only; omega,
            by dsimp only; omega,hrepeats⟩⟩
        · exact hm

/-- The candidates of a line are no match, or one that repeats bytes. -/
theorem searchLine_spec (hsize : src.length+maxDValue≤2^31) (hpos : pos+8<src.length)
    (hx : load src 4 pos=some x) {line : List (ℤ×ℕ)} (hline : ∀ h∈line, Remembers src pos h)
    {m : Match} (hm : Incoming src pos m) :
    ∃ m', searchLine src pos x line m=some m' ∧ Incoming src pos m' := by
  induction line generalizing m with
  | nil => exact ⟨m,rfl,hm⟩
  | cons h line ih =>
    obtain ⟨hh,hrest⟩ := List.forall_mem_cons.mp hline
    obtain ⟨m₁,hm₁,hin₁⟩ := checkCandidate_spec hsize hpos hx hh hm
    obtain ⟨m₂,hm₂,hin₂⟩ := ih hrest hin₁
    exact ⟨m₂,by rw [searchLine,hm₁,Option.bind_some,hm₂],hin₂⟩

/-- Expanding backwards keeps the distance and goes over bytes that are the same. -/
theorem expandBackwards_spec {srcLiteral n : ℕ} {ref : ℤ} (href : 0≤ref) (hle : srcLiteral≤pos)
    (h : Repeats src ref.toNat pos n) :
    0≤(expandBackwards src srcLiteral pos ref).2 ∧
      (expandBackwards src srcLiteral pos ref).1≤pos ∧
      (pos : ℤ)-(expandBackwards src srcLiteral pos ref).1=
        ref-(expandBackwards src srcLiteral pos ref).2 ∧
      srcLiteral≤(expandBackwards src srcLiteral pos ref).1 ∧
      Repeats src (expandBackwards src srcLiteral pos ref).2.toNat
        (expandBackwards src srcLiteral pos ref).1
        (n+(pos-(expandBackwards src srcLiteral pos ref).1)) := by
  induction pos generalizing ref n with
  | zero =>
    unfold expandBackwards
    exact ⟨href,Nat.le_refl 0,by omega,hle,h⟩
  | succ pos ih =>
    unfold expandBackwards
    split
    · next hback =>
      obtain ⟨hliteral,hpositive,hsame⟩ := hback
      have hmore : Repeats src (ref-1).toNat pos (n+1) := by
        intro i hi
        cases i with
        | zero => exact hsame.symm
        | succ i =>
          have hnext := h i (by omega)
          rw [show pos+(i+1)=pos+1+i by omega,
            show (ref-1).toNat+(i+1)=ref.toNat+i by omega]
          exact hnext
      obtain ⟨hnonneg,hbefore,hdistance,hfirst,hrepeats⟩ :=
        ih (show 0≤ref-1 by omega) (by omega) hmore
      refine ⟨hnonneg,by omega,by omega,hfirst,?_⟩
      rw [show n+(pos+1-(expandBackwards src srcLiteral pos (ref-1)).1)=
        n+1+(pos-(expandBackwards src srcLiteral pos (ref-1)).1) by omega]
      exact hrepeats
    · exact ⟨href,Nat.le_refl _,by omega,hle,by rw [Nat.sub_self]; exact h⟩

/-- A match that is limited and expanded backwards repeats bytes of the source. -/
theorem expandMatch_valid {srcLiteral : ℕ} {m : Match} (h : m.Valid src) (hle : srcLiteral≤ m.pos) :
    (expandMatch src srcLiteral m).Valid src ∧ srcLiteral≤(expandMatch src srcLiteral m).pos := by
  have hlimited : Repeats src m.ref.toNat m.pos (min m.length maxMatchLength) := by
    intro i hi
    exact h.repeats i (by omega)
  obtain ⟨hnonneg,hbefore,hdistance,hfirst,hrepeats⟩ :=
    @expandBackwards_spec src m.pos srcLiteral _ m.ref h.ref_nonneg hle hlimited
  have hlt := h.ref_lt
  have hnear := h.near
  have hend := h.le
  unfold expandMatch
  exact ⟨⟨hnonneg,by dsimp only; omega,by dsimp only; omega,by dsimp only; omega,hrepeats⟩,hfirst⟩

end Candidates

section History
variable {tunables : Tunables} {src : List UInt8} {pos : ℕ}

/-- The lines of the table remember positions before `pos`. -/
structure HistoryFits (tunables : Tunables) (src : List UInt8) (pos : ℕ)
    (table : List (List (ℤ×ℕ))) : Prop where
  /-- Each hash has a line. -/
  length : table.length=2^tunables.hashBits
  /-- What the lines hold. -/
  lines : ∀ line∈table, ∀ h∈line, Remembers src pos h

/-- A hash has so many bits. -/
theorem hashX_lt (hbits : tunables.hashBits≤32) (x : ℕ) : hashX tunables x<2^tunables.hashBits := by
  unfold hashX
  rw [Nat.shiftRight_eq_div_pow,Nat.div_lt_iff_lt_mul (Nat.two_pow_pos _),←pow_add,
    Nat.add_sub_cancel' hbits]
  exact Nat.mod_lt _ (Nat.two_pow_pos 32)

/-- The table of a new encoder remembers nothing. -/
theorem historyFits_init (tunables : Tunables) (src : List UInt8) (dstSize : ℕ) :
    HistoryFits tunables src 0 (encodeInit tunables dstSize).historyTable where
  length := List.length_replicate
  lines := by
    intro line hline h hh
    obtain rfl := (List.mem_replicate.mp hline).2
    obtain rfl := (List.mem_replicate.mp hh).2
    exact .inl rfl

/-- A position that is remembered is before the next one too. -/
theorem Remembers.succ {h : ℤ×ℕ} (hh : Remembers src pos h) : Remembers src (pos+1) h := by
  rcases hh with hinvalid|⟨hnonneg,hbefore,hvalue⟩
  · exact .inl hinvalid
  · exact .inr ⟨hnonneg,by omega,hvalue⟩

/-- The next position is put in front of its line. -/
theorem HistoryFits.set {table : List (List (ℤ×ℕ))} (h : HistoryFits tunables src pos table) {x : ℕ}
    {line : List (ℤ×ℕ)} (hline : line∈table) (hx : load src 4 pos=some x) (hsmall : pos<2^31)
    (i width : ℕ) : HistoryFits tunables src (pos+1)
      (table.set i ((Int.bmod pos (2^32),x)::line.take width)) where
  length := by
    rw [List.length_set]
    exact h.length
  lines := by
    intro l hl e he
    rcases List.mem_or_eq_of_mem_set hl with hl|rfl
    · exact (h.lines l hl e he).succ
    · rcases List.mem_cons.mp he with rfl|he
      · have hword : Int.bmod pos (2^32)=pos := by
          rw [Int.bmod_def]
          split <;> omega
        refine .inr ⟨?_,?_,?_⟩
        · rw [hword]
          exact Int.natCast_nonneg pos
        · rw [hword]
          omega
        · rw [hword]
          exact hx
      · exact (h.lines line hline e (List.mem_of_mem_take he)).succ

end History

end Applesauce.Lzfse
