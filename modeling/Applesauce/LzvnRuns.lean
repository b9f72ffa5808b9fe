import Applesauce.LzfseSearch
import Applesauce.LzvnInstructions

/-!
# The payload of a small source

The positions that the table holds are before the current one, or too far away,
so that every match that is found repeats bytes of the source. What was written
leads to the first byte that is still to be encoded. If the destination becomes
full, the last byte is not reached and nothing is returned.
-/

namespace Applesauce.LzvnCodec

open ByteWords BitStack LzExpansion Lzfse

section Matches
variable {src : List UInt8} {pos ref : ℕ}

/-- Words are the same in as many bytes as their difference ends with zeros. -/
theorem trailingZeroBytes_spec {a b : ℕ} (ha : load src 4 ref=some a) (hb : load src 4 pos=some b) :
    trailingZeroBytes (a^^^b)≤4 ∧ Repeats src ref pos (trailingZeroBytes (a^^^b)) := by
  obtain ⟨_,hrefEnd,hrefValue⟩ := load_some ha
  obtain ⟨_,hposEnd,hposValue⟩ := load_some hb
  rw [Int.toNat_natCast] at hrefValue hposValue
  have hrefLength : ((src.drop ref).take 4).length=4 := by
    rw [List.length_take,List.length_drop]
    omega
  have hposLength : ((src.drop pos).take 4).length=4 := by
    rw [List.length_take,List.length_drop]
    omega
  obtain ⟨n,hn⟩ : ∃ n, n=trailingZeroBytes (a^^^b) := ⟨_,rfl⟩
  have hzeros : n≤4 ∧ 2^(8*n)∣a^^^b := by
    unfold trailingZeroBytes at hn
    by_cases hsame : a^^^b=0
    · rw [hsame]
      rw [if_pos hsame] at hn
      exact ⟨Nat.le_of_eq hn,Nat.dvd_zero _⟩
    · rw [if_neg hsame,Nat.shiftRight_eq_div_pow] at hn
      have hdvd := (ctz_spec 64 (a^^^b)).2
      change 2^ctzll (a^^^b)∣a^^^b at hdvd
      have ha32 := leValue_lt_pow ((src.drop ref).take 4)
      have hb32 := leValue_lt_pow ((src.drop pos).take 4)
      rw [hrefLength,hrefValue] at ha32
      rw [hposLength,hposValue] at hb32
      have hxor : a^^^b<2^32 := Nat.xor_lt_two_pow ha32 hb32
      have hsmall : ctzll (a^^^b)<32 := by
        have hpow := Nat.lt_of_le_of_lt (Nat.le_of_dvd (Nat.pos_of_ne_zero hsame) hdvd) hxor
        exact (Nat.pow_lt_pow_iff_right (by decide)).mp hpow
      exact ⟨by omega,Nat.dvd_trans (pow_dvd_pow 2 (by omega)) hdvd⟩
  rw [←hn]
  refine ⟨hzeros.1,?_⟩
  have htake := @take_of_dvd _ _ (hrefLength.trans hposLength.symm) n (by omega)
    (by rw [hrefValue,hposValue]; exact hzeros.2)
  rw [List.take_take,List.take_take,Nat.min_eq_left hzeros.1] at htake
  have hempty : Repeats src ref pos 0 := fun i hbad => absurd hbad (Nat.not_lt_zero i)
  have hmore := hempty.add htake
  rw [Nat.zero_add] at hmore
  exact hmore

/-- Words within the source are compared. -/
theorem nmatch4_spec (href : ref+4≤ src.length) (hpos : pos+4≤ src.length) :
    ∃ n, nmatch4 src pos ref=some n ∧ n≤4 ∧ Repeats src ref pos n := by
  have hloadRef := load_eq href
  have hloadPos := load_eq hpos
  obtain ⟨hle,hrepeats⟩ := trailingZeroBytes_spec hloadRef hloadPos
  rw [Nat.xor_comm] at hle hrepeats
  exact ⟨_,by rw [nmatch4,hloadPos,Option.bind_some,hloadRef,Option.map_some],hle,hrepeats⟩

/-- A match is expanded forward within the source. -/
theorem expandForward_spec {d n mEnd : ℕ} (hd : 0<d) (href : ref+d=pos) (hle : pos≤ mEnd)
    (hend : mEnd≤ src.length) (hrepeats : Repeats src ref pos (mEnd-pos)) :
    ∃ r, expandForward src d n mEnd=some r ∧ mEnd≤r ∧ r≤ src.length ∧
      Repeats src ref pos (r-pos) := by
  induction n, mEnd using expandForward.induct src with
  | case1 n mEnd hgo ih =>
    obtain ⟨more,hmore,hfour,hnext⟩ := @nmatch4_spec src mEnd (mEnd-d) (by omega) (by omega)
    rw [expandForward,if_pos hgo,show (mEnd : ℤ)-d=((mEnd-d : ℕ) : ℤ) by omega,hmore,
      Option.bind_some]
    have hlonger : Repeats src ref pos (mEnd-pos+more) := by
      intro i hi
      by_cases hfirst : i< mEnd-pos
      · exact hrepeats i hfirst
      · have hsame := hnext (i-(mEnd-pos)) (by omega)
        rw [show mEnd+(i-(mEnd-pos))=pos+i by omega,
          show mEnd-d+(i-(mEnd-pos))=ref+i by omega] at hsame
        exact hsame
    obtain ⟨r,hr,hge,hrend,hrrepeats⟩ := ih more (by omega) (by omega) (by
      rw [show mEnd+more-pos=mEnd-pos+more by omega]
      exact hlonger)
    exact ⟨r,hr,by omega,hrend,hrrepeats⟩
  | case2 n mEnd hstop =>
    rw [expandForward,if_neg hstop]
    exact ⟨mEnd,rfl,Nat.le_refl mEnd,hend,hrepeats⟩

/-- A match of the source that can be written: at least three bytes, and near enough. -/
structure MatchInfo.Valid (src : List UInt8) (m : MatchInfo) : Prop where
  /-- It is long enough. -/
  long : 3≤ m.m
  /-- Its end. -/
  mEnd_eq : m.mEnd=m.mBegin+m.m
  /-- It is within the source. -/
  mEnd_le : m.mEnd≤ src.length
  /-- The bytes that it repeats are before. -/
  d_pos : 0< m.d
  /-- They are not before the first one. -/
  d_le : m.d≤ m.mBegin
  /-- They are near. -/
  near : m.d<2^16
  /-- They are repeated. -/
  repeats : RepeatsFrom src m.d m.mBegin m.m

/-- There is no match, or one behind a place. -/
def Incoming (src : List UInt8) (place : ℕ) (m : MatchInfo) : Prop :=
  m.m=0 ∨ m.Valid src ∧ place≤ m.mBegin

/-- What is found is a match. -/
theorem findMatchN_spec {place n : ℕ} {m0Begin : ℤ} (hplace : place≤pos) (hpos : pos+4≤ src.length)
    (h : maxDistance<(pos : ℤ)-m0Begin ∨
      0≤ m0Begin ∧ n≤4 ∧ Repeats src m0Begin.toNat pos n) :
    ∃ r, findMatchN src place m0Begin pos n=some r ∧ ∀ m, r=some m → m.Valid src ∧ place≤ m.mBegin := by
  unfold findMatchN
  by_cases hshort : n<3
  · rw [if_pos hshort]
    exact ⟨none,rfl,fun m hbad => by cases hbad⟩
  rw [if_neg hshort]
  dsimp only
  by_cases hrange : (pos : ℤ)-m0Begin≤0 ∨ maxDistance<(pos : ℤ)-m0Begin
  · rw [if_pos hrange]
    exact ⟨none,rfl,fun m hbad => by cases hbad⟩
  rw [if_neg hrange]
  obtain ⟨hafter,hnear⟩ : 0<(pos : ℤ)-m0Begin ∧ (pos : ℤ)-m0Begin≤ maxDistance := by omega
  obtain ⟨hnonneg,hn,hrepeats⟩ := h.resolve_left (by omega)
  obtain ⟨ref,rfl⟩ := Int.eq_ofNat_of_zero_le hnonneg
  rw [Int.toNat_natCast] at hrepeats
  have hd : ((pos : ℤ)-ref).toNat=pos-ref := by omega
  unfold maxDistance at hnear
  obtain ⟨mEnd,hmEnd,hge,hend,hlong⟩ := @expandForward_spec src pos ref (pos-ref) n (pos+n)
    (by omega) (by omega) (Nat.le_add_right pos n) (by omega)
    (by rw [Nat.add_sub_cancel_left]; exact hrepeats)
  rw [hd,hmEnd,Option.map_some]
  refine ⟨_,rfl,fun m hm => ?_⟩
  obtain rfl := Option.some.inj hm
  obtain ⟨hback,hbefore,hdistance,hfirst,hwhole⟩ :=
    @expandBackwards_spec src pos place (mEnd-pos) (ref : ℤ) hnonneg hplace
      (by rw [Int.toNat_natCast]; exact hlong)
  refine ⟨⟨by dsimp only; omega,by dsimp only; omega,hend,by dsimp only; omega,
    by dsimp only; omega,by dsimp only; omega,fun i hi => ?_⟩,hfirst⟩
  dsimp only at hi ⊢
  rw [hwhole i (by omega)]
  congr 1
  omega

/-- The better of a match and one that is found. -/
theorem update_incoming {place : ℕ} {best m : MatchInfo} (hbest : Incoming src place best)
    (hm : Incoming src place m) : Incoming src place (update best m) := by
  unfold update
  split
  · exact hm
  · exact hbest

/-- A position of the table is too far away, or it is not behind `pos` and its value is there. -/
def Remembered (src : List UInt8) (pos : ℕ) (e : ℤ×ℕ) : Prop :=
  maxDistance<(pos : ℤ)-e.1 ∨ 0≤e.1 ∧ e.1≤pos ∧ load src 4 e.1=some e.2

/-- The candidates are checked. -/
theorem checkCandidates_spec {place vi : ℕ} (hplace : place≤pos) (hpos : pos+4≤ src.length)
    (hvi : load src 4 pos=some vi) {entry : List (ℤ×ℕ)} (hentry : ∀ e∈entry, Remembered src pos e)
    {incoming : MatchInfo} (hincoming : Incoming src place incoming) :
    ∃ m, checkCandidates src place pos vi entry incoming=some m ∧ Incoming src place m := by
  induction entry generalizing incoming with
  | nil => exact ⟨incoming,rfl,hincoming⟩
  | cons e entry ih =>
    obtain ⟨he,hrest⟩ := List.forall_mem_cons.mp hentry
    obtain ⟨n,hn⟩ : ∃ n, n=trailingZeroBytes (e.2^^^vi) := ⟨_,rfl⟩
    have hfound : ∃ r, findMatchN src place e.1 pos n=some r ∧
        ∀ m, r=some m → m.Valid src ∧ place≤ m.mBegin := by
      rcases he with hfar|⟨hnonneg,_,hvalue⟩
      · exact findMatchN_spec hplace hpos (.inl hfar)
      · obtain ⟨ref,href⟩ := Int.eq_ofNat_of_zero_le hnonneg
        rw [href] at hvalue ⊢
        obtain ⟨hle,hrepeats⟩ := trailingZeroBytes_spec hvalue hvi
        rw [←hn] at hle hrepeats
        exact findMatchN_spec hplace hpos
          (.inr ⟨Int.natCast_nonneg ref,hle,by rw [Int.toNat_natCast]; exact hrepeats⟩)
    obtain ⟨r,hr,hvalid⟩ := hfound
    rw [checkCandidates,←hn,hr,Option.bind_some]
    cases r with
    | none => exact ih hrest hincoming
    | some m => exact ih hrest (update_incoming hincoming (.inr (hvalid m rfl)))

/-- The candidate at the distance before is checked. -/
theorem checkPrevious_spec {place dPrev : ℕ} (hplace : place≤pos) (hpos : pos+4≤ src.length)
    (hprev : dPrev≤pos) {incoming : MatchInfo} (hincoming : Incoming src place incoming) :
    ∃ m, checkPrevious src place pos dPrev incoming=some m ∧ Incoming src place m := by
  unfold checkPrevious
  by_cases hsome : dPrev≠0
  · rw [if_pos hsome,findMatch,show (pos : ℤ)-dPrev=((pos-dPrev : ℕ) : ℤ) by omega]
    obtain ⟨n,hn,hfour,hrepeats⟩ := @nmatch4_spec src pos (pos-dPrev) (by omega) hpos
    rw [hn,Option.bind_some]
    obtain ⟨r,hr,hvalid⟩ := @findMatchN_spec src pos place n ((pos-dPrev : ℕ) : ℤ) hplace hpos
      (.inr ⟨Int.natCast_nonneg _,hfour,by rw [Int.toNat_natCast]; exact hrepeats⟩)
    rw [hr,Option.map_some]
    cases r with
    | none => exact ⟨incoming,rfl,hincoming⟩
    | some m =>
      obtain ⟨hm,hbehind⟩ := hvalid m rfl
      exact ⟨_,rfl,update_incoming hincoming (.inr
        ⟨⟨hm.long,hm.mEnd_eq,hm.mEnd_le,hm.d_pos,hm.d_le,hm.near,hm.repeats⟩,hbehind⟩)⟩
  · rw [if_neg hsome]
    exact ⟨incoming,rfl,hincoming⟩

end Matches

section Runs
variable {room : ℕ} {src : List UInt8} {s s' : State}

/-- What was written leads to the next literal. -/
structure Progress (room : ℕ) (src : List UInt8) (s : State) : Prop where
  /-- The bytes that were written. -/
  written : Writes src [] s.dst 0 0 s.srcLiteral s.dPrev
  /-- There is room for them. -/
  room_le : s.dst.length≤room
  /-- The next literal is within the source. -/
  le : s.srcLiteral≤ src.length
  /-- The distance before does not reach before the first byte. -/
  prev : s.dPrev≤ s.srcLiteral

/-- The table holds positions up to a place. -/
structure TableFits (src : List UInt8) (pos : ℕ) (table : List (List (ℤ×ℕ))) : Prop where
  /-- Each hash has an entry. -/
  length : table.length=hashValues
  /-- What the entries hold. -/
  entries : ∀ entry∈table, ∀ e∈entry, Remembered src pos e

/-- The state between two positions. -/
structure State.Keeps (room : ℕ) (src : List UInt8) (s : State) : Prop where
  /-- What was written. -/
  progress : Progress room src s
  /-- The pending match is not behind the next literal. -/
  pending : Incoming src s.srcLiteral s.pending
  /-- The positions before. -/
  table : TableFits src s.srcCurrent s.table

/-- The position and the table are the same. -/
def SamePlace (s s' : State) : Prop := s'.srcCurrent=s.srcCurrent ∧ s'.table=s.table

/-- A match that is emitted leads to its end. -/
theorem emitMatch_spec (h : Progress room src s) {m : MatchInfo} (hm : m.Valid src)
    (hplace : s.srcLiteral≤ m.mBegin) (hs' : emitMatch room src s m=some s') :
    Progress room src s' ∧ s'.srcLiteral=m.mEnd ∧ s'.pending=s.pending ∧ SamePlace s s' := by
  unfold emitMatch at hs'
  obtain ⟨dst,hdst,hs'⟩ := Option.bind_eq_some_iff.mp hs'
  obtain ⟨hfull,hs'⟩ := Option.ite_none_left_eq_some.mp hs'
  obtain rfl := Option.some.inj hs'
  have hlong := hm.long
  have hend := hm.mEnd_eq
  have hle := hm.mEnd_le
  have hd := hm.d_le
  have hbegin : s.srcLiteral+(m.mBegin-s.srcLiteral)=m.mBegin := by omega
  have hwrites := emit_spec hlong (by omega) hm.d_pos hm.near (by omega)
    (by rw [hbegin]; exact hm.repeats) hdst
  rw [hbegin,←hend] at hwrites
  exact ⟨⟨h.written.trans hwrites,by dsimp only; omega,hle,by dsimp only; omega⟩,rfl,rfl,rfl,rfl⟩

/-- Literals that are emitted lead behind them. -/
theorem emitLiterals_spec (h : Progress room src s) {n : ℕ} (hn : s.srcLiteral+n≤ src.length)
    (hs' : emitLiterals room src s n=some s') :
    Progress room src s' ∧ s'.srcLiteral=s.srcLiteral+n ∧ s'.pending=s.pending ∧ SamePlace s s' := by
  unfold emitLiterals at hs'
  obtain ⟨dst,hdst,hs'⟩ := Option.bind_eq_some_iff.mp hs'
  obtain ⟨hfull,hs'⟩ := Option.ite_none_left_eq_some.mp hs'
  obtain rfl := Option.some.inj hs'
  have hprev := h.prev
  exact ⟨⟨h.written.trans (emitLiteral_spec hn hdst),by dsimp only; omega,hn,by dsimp only; omega⟩,
    rfl,rfl,rfl,rfl⟩

/-- A choice goes on, and leaves a match behind the next literal pending. -/
theorem choose_spec (h : s.Keeps room src) (hplace : s.srcLiteral≤ s.srcCurrent)
    (hcurrent : s.srcCurrent≤ src.length) {incoming : MatchInfo}
    (hincoming : Incoming src s.srcLiteral incoming) (hs' : choose room src s incoming=some s') :
    Progress room src s' ∧ Incoming src s'.srcLiteral s'.pending ∧ SamePlace s s' := by
  have hnone : ∀ place, Incoming src place noMatch := fun _ => .inl rfl
  have hemit : ∀ m pending s', Incoming src s.srcLiteral m → m.m≠0 →
      Incoming src m.mEnd pending →
      (emitMatch room src s m).map (fun s => {s with pending := pending})=some s' →
      Progress room src s' ∧ Incoming src s'.srcLiteral s'.pending ∧ SamePlace s s' := by
    intro m pending s' hm hsome hpending hmap
    obtain ⟨hvalid,hbehind⟩ := hm.resolve_left hsome
    obtain ⟨s₁,hs₁,rfl⟩ := Option.map_eq_some_iff.mp hmap
    obtain ⟨hprogress,hend,_,hsame⟩ := emitMatch_spec h.progress hvalid hbehind hs₁
    exact ⟨⟨hprogress.written,hprogress.room_le,hprogress.le,hprogress.prev⟩,
      hend ▸ hpending,hsame⟩
  unfold choose at hs'
  by_cases hno : incoming.m=0
  · rw [if_pos hno] at hs'
    by_cases hbacklog : maxLiteralBacklog≤ s.srcCurrent-s.srcLiteral
    · rw [if_pos hbacklog] at hs'
      by_cases hpending : s.pending.m≠0
      · rw [if_pos hpending] at hs'
        exact hemit _ _ s' h.pending hpending (hnone _) hs'
      · rw [if_neg hpending] at hs'
        unfold maxLiteralBacklog at hbacklog
        obtain ⟨hprogress,_,hsamePending,hsame⟩ := emitLiterals_spec h.progress (by omega) hs'
        exact ⟨hprogress,.inl (by rw [hsamePending]; exact Decidable.not_not.mp hpending),hsame⟩
    · rw [if_neg hbacklog] at hs'
      obtain rfl := Option.some.inj hs'
      exact ⟨h.progress,h.pending,rfl,rfl⟩
  · rw [if_neg hno] at hs'
    by_cases hpending : s.pending.m=0
    · rw [if_pos hpending] at hs'
      obtain rfl := Option.some.inj hs'
      have hprogress := h.progress
      exact ⟨⟨hprogress.written,hprogress.room_le,hprogress.le,hprogress.prev⟩,hincoming,rfl,rfl⟩
    · rw [if_neg hpending] at hs'
      by_cases hapart : s.pending.mEnd≤ incoming.mBegin
      · rw [if_pos hapart] at hs'
        exact hemit _ _ s' h.pending hpending
          (.inr ⟨(hincoming.resolve_left hno).1,hapart⟩) hs'
      · rw [if_neg hapart] at hs'
        by_cases hbetter : s.pending.k< incoming.k
        · rw [if_pos hbetter] at hs'
          exact hemit _ _ s' hincoming hno (hnone _) hs'
        · rw [if_neg hbetter] at hs'
          exact hemit _ _ s' h.pending hpending (hnone _) hs'

/-- A hash is that of an entry. -/
theorem hash3i_lt (i : ℕ) : hash3i i<hashValues := by
  unfold hash3i hashValues
  exact Nat.and_lt_two_pow _ (by decide)

/-- A position that is remembered is so at the next one. -/
theorem Remembered.succ {pos : ℕ} {e : ℤ×ℕ} (h : Remembered src pos e) :
    Remembered src (pos+1) e := by
  rcases h with hfar|⟨hnonneg,hle,hvalue⟩
  · exact .inl (by push_cast; omega)
  · exact .inr ⟨hnonneg,by push_cast; omega,hvalue⟩

/-- A position is put in front of an entry. -/
theorem TableFits.set {pos vi : ℕ} {table : List (List (ℤ×ℕ))} (h : TableFits src pos table)
    {entry : List (ℤ×ℕ)} (hentry : entry∈table) (hvi : load src 4 pos=some vi)
    (hsize : src.length<2^32) (i : ℕ) :
    TableFits src (pos+1) (table.set i ((Int.bmod pos (2^32),vi)::entry.take 3)) where
  length := by
    rw [List.length_set]
    exact h.length
  entries := by
    intro l hl e he
    rcases List.mem_or_eq_of_mem_set hl with hl|rfl
    · exact (h.entries l hl e he).succ
    · rcases List.mem_cons.mp he with rfl|he
      · obtain ⟨_,hend,_⟩ := load_some hvi
        by_cases hsmall : pos<2^31
        · have hword : Int.bmod pos (2^32)=pos := by
            rw [Int.bmod_def]
            split <;> omega
          refine .inr ⟨?_,?_,?_⟩
          · rw [hword]
            exact Int.natCast_nonneg pos
          · rw [hword]
            push_cast
            omega
          · rw [hword]
            exact hvi
        · have hword : Int.bmod pos (2^32)=pos-2^32 := by
            rw [Int.bmod_def]
            split <;> omega
          refine .inl ?_
          dsimp only
          rw [hword]
          unfold maxDistance
          push_cast
          omega
      · exact (h.entries entry hentry e (List.mem_of_mem_take he)).succ

/-- A position is encoded, unless the destination is full. -/
theorem encodeStep_spec (hsize : src.length<2^32) (h : s.Keeps room src)
    (hcurrent : s.srcCurrent+8≤ src.length) :
    ∃ r, encodeStep room src s=some r ∧
      ∀ s', r=some s' → s'.Keeps room src ∧ s'.srcCurrent=s.srcCurrent+1 := by
  obtain ⟨vi,hvi⟩ : ∃ vi, load src 4 s.srcCurrent=some vi := ⟨_,load_eq (by omega)⟩
  have hhash : hash3i vi<s.table.length := h.table.length.symm ▸ hash3i_lt vi
  obtain ⟨entry,hentry⟩ : ∃ entry, s.table[hash3i vi]?=some entry :=
    ⟨_,List.getElem?_eq_getElem hhash⟩
  have hmem : entry∈s.table := List.mem_of_getElem? hentry
  have hset : ∀ s', SamePlace s s' → TableFits src (s.srcCurrent+1)
      (s'.table.set (hash3i vi) ((Int.bmod s.srcCurrent (2^32),vi)::entry.take 3)) := by
    intro s' hsame
    rw [hsame.2]
    exact h.table.set hmem hvi hsize _
  unfold encodeStep
  rw [hvi,Option.bind_some,hentry,Option.bind_some]
  by_cases hwithin : s.srcCurrent<s.srcLiteral
  · rw [if_pos hwithin]
    refine ⟨_,rfl,fun s' hs' => ?_⟩
    obtain rfl := Option.some.inj hs'
    have hprogress := h.progress
    exact ⟨⟨⟨hprogress.written,hprogress.room_le,hprogress.le,hprogress.prev⟩,h.pending,
      hset s ⟨rfl,rfl⟩⟩,rfl⟩
  · rw [if_neg hwithin]
    have hplace : s.srcLiteral≤ s.srcCurrent := Nat.le_of_not_lt hwithin
    have hprev := h.progress.prev
    obtain ⟨first,hfirst,hfirstIncoming⟩ := checkCandidates_spec hplace (by omega) hvi
      (h.table.entries entry hmem) (show Incoming src s.srcLiteral noMatch from .inl rfl)
    obtain ⟨incoming,hincoming,hbest⟩ :=
      checkPrevious_spec hplace (show s.srcCurrent+4≤ src.length by omega)
        (show s.dPrev≤ s.srcCurrent by omega) hfirstIncoming
    rw [hfirst,Option.bind_some,hincoming,Option.map_some,Option.map_some]
    refine ⟨_,rfl,fun s' hs' => ?_⟩
    obtain ⟨s₁,hs₁,rfl⟩ := Option.map_eq_some_iff.mp hs'
    obtain ⟨hprogress,hpending,hsame⟩ := choose_spec h hplace (by omega) hbest hs₁
    exact ⟨⟨⟨hprogress.written,hprogress.room_le,hprogress.le,hprogress.prev⟩,hpending,
      hset s₁ hsame⟩,rfl⟩

/-- Positions are encoded, up to where the destination is full. -/
theorem encodeLoop_spec (hsize : src.length<2^32) {n : ℕ} (h : s.Keeps room src)
    (hcurrent : s.srcCurrent+n+8≤ src.length+1) :
    ∃ s', encodeLoop room src n s=some s' ∧ s'.Keeps room src := by
  induction n generalizing s with
  | zero => exact ⟨s,rfl,h⟩
  | succ n ih =>
    obtain ⟨r,hr,hnext⟩ := encodeStep_spec hsize h (by omega)
    rw [encodeLoop,hr,Option.bind_some]
    cases r with
    | none => exact ⟨s,rfl,h⟩
    | some s₁ =>
      obtain ⟨hkeeps,hcurrent₁⟩ := hnext s₁ rfl
      exact ih hkeeps (by omega)

/-- The state that is set up has written nothing. -/
theorem initState_progress (room : ℕ) (src : List UInt8) (value : ℕ) :
    Progress room src (initState value) :=
  ⟨writes_nil src [] 0 0,Nat.zero_le room,Nat.zero_le _,Nat.le_refl 0⟩

/-- The state that is set up remembers the first position. -/
theorem initState_keeps (room : ℕ) {value : ℕ} (hvalue : load src 4 0=some value) :
    (initState value).Keeps room src where
  progress := initState_progress room src value
  pending := .inl rfl
  table := by
    refine ⟨List.length_replicate,fun entry hentry e he => ?_⟩
    obtain rfl := (List.mem_replicate.mp hentry).2
    obtain rfl := (List.mem_replicate.mp he).2
    exact .inr ⟨Int.le_refl 0,Int.le_refl 0,hvalue⟩

/-- A payload up to the end of the source is decoded. -/
theorem decode_written (h : Writes src [] s.dst 0 0 src.length s.dPrev) :
    decode (s.dst++leBytes 8 0x06)=some src := by
  obtain ⟨bytes,hdst,k,hk,hleads⟩ := h
  rw [List.nil_append] at hdst
  rw [hdst]
  unfold decode
  rw [List.length_append,leBytes_length,show bytes.length+8=bytes.length+7-k+1+k by omega,
    show ([] : List UInt8)=src.take 0 from rfl,hleads,List.take_length]
  rfl

/-- What a part of the source becomes. -/
theorem encodePartial_spec (hsize : src.length<2^32) {dstSize : ℕ} (hdst : 8≤dstSize) :
    ∃ r, encodePartial src dstSize=some r ∧ r.1.length≤dstSize ∧ r.2≤ src.length ∧
      (r.2=src.length → decode r.1=some src) := by
  obtain ⟨s,hs,hprogress⟩ : ∃ s,
      (if lzvnMinSrcSize≤ src.length then
        (load src 4 0).bind fun value =>
          encodeLoop (dstSize-8) src (src.length-minMargin) (initState value)
      else some (initState 0))=some s ∧ Progress (dstSize-8) src s := by
    by_cases hmin : lzvnMinSrcSize≤ src.length
    · rw [if_pos hmin]
      unfold lzvnMinSrcSize at hmin
      obtain ⟨value,hvalue⟩ : ∃ value, load src 4 0=some value :=
        ⟨_,@load_eq src 4 0 (by omega)⟩
      rw [hvalue,Option.bind_some]
      obtain ⟨s,hs,hkeeps⟩ := encodeLoop_spec hsize (initState_keeps (dstSize-8) hvalue)
        (show 0+(src.length-minMargin)+8≤ src.length+1 by unfold minMargin; omega)
      exact ⟨s,hs,hkeeps.progress⟩
    · rw [if_neg hmin]
      exact ⟨_,rfl,initState_progress _ src 0⟩
  obtain ⟨last,hlast,hlastProgress⟩ : ∃ last,
      (emitLiterals (dstSize-8) src s (src.length-s.srcLiteral)).getD s=last ∧
        Progress (dstSize-8) src last := by
    have hle := hprogress.le
    cases hlast : emitLiterals (dstSize-8) src s (src.length-s.srcLiteral) with
    | none => exact ⟨s,rfl,hprogress⟩
    | some last => exact ⟨last,rfl,(emitLiterals_spec hprogress (by omega) hlast).1⟩
  have hroom := hlastProgress.room_le
  unfold encodePartial
  dsimp only
  rw [hs,Option.map_some,hlast,if_neg (by omega)]
  refine ⟨_,rfl,?_,hlastProgress.le,fun hend => ?_⟩
  · rw [List.length_append,leBytes_length]
    omega
  · have hwritten := hlastProgress.written
    change last.srcLiteral=src.length at hend
    rw [hend] at hwritten
    exact decode_written hwritten

/-- A payload fits into the destination and is decoded to the source; if there is no room for it,
nothing is returned. -/
theorem encodeBuffer_spec (src : List UInt8) (dstSize : ℕ) :
    ∃ payload, encodeBuffer src dstSize=some payload ∧ payload.length≤dstSize ∧
      (payload=[] ∨ decode payload=some src) := by
  unfold encodeBuffer
  by_cases hmin : dstSize< minDstSize
  · rw [if_pos hmin]
    exact ⟨[],rfl,Nat.zero_le _,.inl rfl⟩
  rw [if_neg hmin]
  unfold minDstSize at hmin
  have hsize : (src.take maxSrcSize).length≤ maxSrcSize := by
    rw [List.length_take]
    exact Nat.min_le_left _ _
  unfold maxSrcSize at hsize
  obtain ⟨r,hr,hroom,hle,hdecodes⟩ := @encodePartial_spec (src.take maxSrcSize) (by
    unfold maxSrcSize
    omega) dstSize (by omega)
  rw [hr,Option.map_some]
  refine ⟨_,rfl,?_⟩
  by_cases hused : r.2≠src.length
  · rw [if_pos hused]
    exact ⟨Nat.zero_le _,.inl rfl⟩
  · rw [if_neg hused]
    have hall : r.2=src.length := Decidable.not_not.mp hused
    have hwhole : src.take maxSrcSize=src := by
      refine List.take_of_length_le ?_
      rw [List.length_take] at hle
      omega
    rw [hwhole] at hdecodes
    exact ⟨hroom,.inr (hdecodes hall)⟩

end Runs

end Applesauce.LzvnCodec
