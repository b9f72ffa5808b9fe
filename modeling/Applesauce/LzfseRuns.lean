import Applesauce.LzfseSearch
import Applesauce.LzfseStream

/-!
# What is encoded is decoded

In every state of the encoder the blocks behind it and the matches it holds
stand for the source up to the next literal. Each push, each block and each
position keeps this, so that a stream that is returned decodes to the whole
source; where the destination is full the source itself is returned, or
nothing.
-/

namespace Applesauce.Lzfse

open ByteWords Fse LzExpansion

section Backend
variable {lzvnDecode : List UInt8→Option (List UInt8)} {src : List UInt8} {dstSize : ℕ}
  {s : Backend×ℕ}

/-- The blocks and the matches of the state stand for the source up to the next literal. -/
structure Progress (lzvnDecode : List UInt8→Option (List UInt8)) (src : List UInt8) (dstSize : ℕ)
    (s : Backend×ℕ) : Prop where
  /-- The destination has its size. -/
  room : s.1.dst.room=dstSize
  /-- The state is one of the back end. -/
  fits : s.1.Fits
  /-- The next literal is within the source. -/
  le : s.2≤ src.length
  /-- The source up to there. -/
  decoded : ∃ p, Decodes lzvnDecode s.1.dst.written (src.take p) ∧
    Covers src (src.take p) (s.1.lmds.map valuesOf) s.1.literals s.2

/-- A push goes on along the source, or the state is full. -/
theorem pushLmd_spec (h : Progress lzvnDecode src dstSize s) {l m d : ℕ} (hl : l≤ maxLValue)
    (hm : m≤ maxMValue) (hd : 0<d) (hnear : d≤ maxDValue) (hreach : d≤ s.2+l)
    (hle : s.2+l+m≤ src.length) (hrepeats : ∀ i< m, src[s.2+l+i]?=src[s.2+l+i-d]?) :
    (∃ s', pushLmd src s l m d=.ok s' ∧ Progress lzvnDecode src dstSize s' ∧ s'.2=s.2+l+m) ∨
    pushLmd src s l m d=.error .dstFull := by
  unfold pushLmd
  by_cases hmatches : matchesPerBlock<s.1.lmds.length+1+8
  · rw [if_pos hmatches]
    exact .inr rfl
  rw [if_neg hmatches]
  by_cases hliterals : literalsPerBlock<s.1.literals.length+l+16
  · rw [if_pos hliterals]
    exact .inr rfl
  rw [if_neg hliterals,if_neg (by omega)]
  have hlength : ((src.drop s.2).take l).length=l := by
    rw [List.length_take,List.length_drop]
    omega
  obtain ⟨p,hdecodes,hcovers⟩ := h.decoded
  refine .inl ⟨_,rfl,⟨h.room,⟨h.fits.written_le,?_,?_,?_,?_⟩,hle,p,hdecodes,?_⟩,rfl⟩
  · rw [List.map_append,List.sum_append,h.fits.literals_sum,List.length_append,hlength]
    rfl
  · rw [List.length_append,hlength]
    omega
  · rw [List.length_append,List.length_singleton]
    omega
  · intro v hv
    rcases List.mem_append.mp hv with hv|hv
    · exact h.fits.values v hv
    · obtain rfl := List.mem_singleton.mp hv
      exact ⟨hl,hm,hd,hnear⟩
  · rw [List.map_append]
    exact hcovers.snoc hd hreach hle hrepeats

/-- Literals that are too many are pushed in parts. -/
theorem pushLiterals_spec (h : Progress lzvnDecode src dstSize s) {l : ℕ} (hle : s.2+l≤ src.length) :
    (∃ s' l', pushLiterals src s l=.ok (s',l') ∧ Progress lzvnDecode src dstSize s' ∧ s'.2+l'=s.2+l ∧
      l'≤ maxLValue) ∨
    pushLiterals src s l=.error .dstFull := by
  induction l using Nat.strong_induction_on generalizing s with
  | _ l ih =>
    rw [pushLiterals]
    by_cases hlong : maxLValue<l
    · have hmax : 0< maxLValue := by decide
      rw [if_pos hlong]
      rcases pushLmd_spec h (Nat.le_refl maxLValue) (Nat.zero_le _) Nat.one_pos (by decide)
        (by omega) (by omega) (fun i hbad => absurd hbad (Nat.not_lt_zero i)) with
        ⟨s₁,hs₁,h₁,hnext⟩|hfull
      · rw [hs₁,Except.bind]
        rcases ih (l-maxLValue) (by omega) h₁ (by omega) with ⟨s₂,l₂,hs₂,h₂,hsum,hl₂⟩|hfull
        · exact .inl ⟨s₂,l₂,hs₂,h₂,by omega,hl₂⟩
        · exact .inr hfull
      · rw [hfull]
        exact .inr rfl
    · rw [if_neg hlong]
      exact .inl ⟨s,l,rfl,h,rfl,Nat.le_of_not_lt hlong⟩

/-- A match that is too long is pushed in parts. -/
theorem pushLengths_spec {d pos : ℕ} (hd : 0<d) (hnear : d≤ maxDValue) (hreach : d≤pos) {l m : ℕ}
    (h : Progress lzvnDecode src dstSize s) (hl : l≤ maxLValue) (hpos : s.2+l=pos) (hle : pos+m≤ src.length)
    (hrepeats : ∀ i< m, src[pos+i]?=src[pos+i-d]?) :
    (∃ s', pushLengths src d s l m=.ok s' ∧ Progress lzvnDecode src dstSize s' ∧ s'.2=pos+m) ∨
    pushLengths src d s l m=.error .dstFull := by
  induction m using Nat.strong_induction_on generalizing s l pos with
  | _ m ih =>
    rw [pushLengths]
    by_cases hlong : maxMValue< m
    · have hmax : 0< maxMValue := by decide
      rw [if_pos hlong]
      rcases @pushLmd_spec _ _ _ _ h l maxMValue d hl (Nat.le_refl _) hd hnear (by omega) (by omega)
        (fun i hi => by rw [hpos]; exact hrepeats i (by omega)) with ⟨s₁,hs₁,h₁,hnext⟩|hfull
      · rw [hs₁,Except.bind]
        rcases @ih (m-maxMValue) (by omega) s₁ (pos+maxMValue) (by omega) 0 h₁ (Nat.zero_le _)
          (by omega) (by omega) (fun i hi => by
            rw [show pos+maxMValue+i=pos+(maxMValue+i) by omega]
            exact hrepeats _ (by omega)) with ⟨s₂,hs₂,h₂,hend⟩|hfull
        · exact .inl ⟨s₂,hs₂,h₂,by omega⟩
        · exact .inr hfull
      · rw [hfull]
        exact .inr rfl
    · rw [if_neg hlong]
      by_cases hsome : 0<l ∨ 0< m
      · rw [if_pos hsome]
        rcases @pushLmd_spec _ _ _ _ h l m d hl (Nat.le_of_not_lt hlong) hd hnear (by omega) (by omega)
          (fun i hi => by rw [hpos]; exact hrepeats i hi) with ⟨s₁,hs₁,h₁,hnext⟩|hfull
        · exact .inl ⟨s₁,hs₁,h₁,by omega⟩
        · exact .inr hfull
      · rw [if_neg hsome]
        exact .inl ⟨s,rfl,h,by omega⟩

/-- A match that can be pushed behind a place: it repeats bytes at a distance, or it has none. -/
def Pushable (src : List UInt8) (place : ℕ) (m : Match) : Prop :=
  place≤ m.pos ∧ m.pos+m.length≤ src.length ∧ ∃ d : ℕ, (m.pos : ℤ)-m.ref=d ∧ 0<d ∧ d≤ maxDValue ∧
    d≤ m.pos ∧ ∀ i< m.length, src[m.pos+i]?=src[m.pos+i-d]?

/-- A valid match can be pushed. -/
theorem Match.Valid.pushable {m : Match} (h : m.Valid src) {place : ℕ} (hplace : place≤ m.pos) :
    Pushable src place m := by
  have hlt := h.ref_lt
  have hnear := h.near
  obtain ⟨ref,href⟩ := Int.eq_ofNat_of_zero_le h.ref_nonneg
  refine ⟨hplace,h.le,m.pos-ref,by omega,by omega,by omega,by omega,fun i hi => ?_⟩
  have hsame := h.repeats i hi
  rw [href,Int.toNat_natCast] at hsame
  rw [hsame]
  congr 1
  omega

/-- Pushing a match goes on to its end, or the state is full. -/
theorem pushMatch_spec (hsize : src.length<2^32) (h : Progress lzvnDecode src dstSize s) {m : Match}
    (hm : Pushable src s.2 m) :
    (∃ s', pushMatch src s m=.ok s' ∧ Progress lzvnDecode src dstSize s' ∧ s'.2=m.pos+m.length) ∨
    pushMatch src s m=.error .dstFull := by
  obtain ⟨hplace,hle,d,hdistance,hd,hnear,hreach,hrepeats⟩ := hm
  have hl : (((m.pos : ℤ)-s.2)%2^32).toNat=m.pos-s.2 := by omega
  have hdvalue : (((m.pos : ℤ)-m.ref)%2^32).toNat=d := by
    rw [hdistance]
    omega
  unfold pushMatch
  rw [hl,hdvalue]
  rcases @pushLiterals_spec _ _ _ _ h (m.pos-s.2) (by omega) with ⟨s₁,l,hs₁,h₁,hsum,hl₁⟩|hfull
  · rw [hs₁,Except.bind]
    exact pushLengths_spec hd hnear hreach h₁ hl₁ (show s₁.2+l=m.pos by omega) hle hrepeats
  · rw [hfull]
    exact .inr rfl

/-- A block stands for what its matches stood for. -/
theorem emitBlock_spec (stray : ℤ) (h : Progress lzvnDecode src dstSize s) :
    (∃ b, emitBlock stray s.1=.ok b ∧ Progress lzvnDecode src dstSize (b,s.2) ∧ b.lmds=[] ∧ b.literals=[]) ∨
    emitBlock stray s.1=.error .dstFull := by
  unfold emitBlock
  obtain ⟨p,hdecodes,hcovers⟩ := h.decoded
  rcases encodeMatches_reads stray h.fits with hfull|⟨hempty,hok⟩|⟨hne,block,hok,hroom,hreads⟩
  · rw [hfull]
    exact .inr rfl
  · have hliterals : s.1.literals=[] := by
      have hsum := h.fits.literals_sum
      rw [hempty] at hsum
      exact List.length_eq_zero_iff.mp hsum.symm
    rw [hok]
    exact .inl ⟨s.1,rfl,h,hempty,hliterals⟩
  · rw [hok]
    have hpadded := expand_append_literals hcovers
      (List.replicate ((4-s.1.literals.length%4)%4) 0)
    refine .inl ⟨_,rfl,⟨h.room,⟨hroom,rfl,show 0+16≤literalsPerBlock by decide,Nat.zero_le _,
        fun v hbad => (List.not_mem_nil hbad).elim⟩,
      h.le,s.2,hdecodes.block hreads hpadded,covers_nil src s.2⟩,rfl,rfl⟩

/-- A match is added to the state, after a block where it was full, or the destination is full. -/
theorem backendMatch_spec (stray : ℤ) (hsize : src.length<2^32) (h : Progress lzvnDecode src dstSize s)
    {m : Match} (hm : Pushable src s.2 m) :
    (∃ s', backendMatch stray src s m=.ok s' ∧ Progress lzvnDecode src dstSize s' ∧ s'.2=m.pos+m.length) ∨
    backendMatch stray src s m=.error .dstFull := by
  unfold backendMatch
  rcases pushMatch_spec hsize h hm with ⟨s₁,hs₁,h₁,hend⟩|hfull
  · rw [hs₁]
    exact .inl ⟨s₁,rfl,h₁,hend⟩
  · rw [hfull]
    dsimp only
    rcases emitBlock_spec stray h with ⟨b,hb,hblock,_,_⟩|hdst
    · rw [hb,Except.bind]
      exact pushMatch_spec hsize hblock hm
    · rw [hdst]
      exact .inr rfl

/-- Literals are added to the state. -/
theorem backendLiterals_spec (stray : ℤ) (hsize : src.length<2^32) (h : Progress lzvnDecode src dstSize s)
    {l : ℕ} (hl : 0<l) (hle : s.2+l≤ src.length) :
    (∃ s', backendLiterals stray src s l=.ok s' ∧ Progress lzvnDecode src dstSize s' ∧ s'.2=s.2+l) ∨
    backendLiterals stray src s l=.error .dstFull := by
  have hm : Pushable src s.2 ⟨s.2+l,((s.2+l : ℕ) : ℤ)-1,0⟩ :=
    ⟨Nat.le_add_right _ _,hle,1,by dsimp only; omega,Nat.one_pos,by decide,by dsimp only; omega,
      fun i hbad => absurd hbad (Nat.not_lt_zero i)⟩
  exact backendMatch_spec stray hsize h hm

end Backend

section Encoder
variable {lzvnDecode : List UInt8→Option (List UInt8)} {tunables : Tunables} {src : List UInt8}
  {dstSize : ℕ} {e : Encoder}

/-- What every position keeps. -/
structure Encoder.Keeps (lzvnDecode : List UInt8→Option (List UInt8)) (tunables : Tunables)
    (src : List UInt8) (dstSize : ℕ) (e : Encoder) : Prop where
  /-- The blocks and matches stand for the source so far. -/
  progress : Progress lzvnDecode src dstSize (e.backend,e.srcLiteral)
  /-- What is pending can be pushed. -/
  pending : e.pending.length=0 ∨ e.pending.Valid src ∧ e.srcLiteral≤e.pending.pos
  /-- The history is one of the source. -/
  history : HistoryFits tunables src e.srcEncodeI e.historyTable

/-- The state of the back end and the pending match are kept. -/
def Encoder.Goes (lzvnDecode : List UInt8→Option (List UInt8)) (src : List UInt8) (dstSize : ℕ)
    (e e' : Encoder) : Prop :=
  Progress lzvnDecode src dstSize (e'.backend,e'.srcLiteral) ∧
    (e'.pending.length=0 ∨ e'.pending.Valid src ∧ e'.srcLiteral≤e'.pending.pos) ∧
    e'.srcEncodeI=e.srcEncodeI ∧ e'.historyTable=e.historyTable

/-- A match is emitted. -/
theorem emit_spec (stray : ℤ) (hsize : src.length<2^32)
    (h : Progress lzvnDecode src dstSize (e.backend,e.srcLiteral)) {m pending : Match} (hm : m.Valid src)
    (hplace : e.srcLiteral≤ m.pos)
    (hpending : pending.length=0 ∨ pending.Valid src ∧ m.pos+m.length≤pending.pos) :
    (∃ e', emit stray src e m pending=.ok e' ∧ e.Goes lzvnDecode src dstSize e') ∨
    emit stray src e m pending=.error .dstFull := by
  unfold emit
  rcases backendMatch_spec stray hsize h (hm.pushable hplace) with ⟨s,hs,hprogress,hend⟩|hfull
  · rw [hs]
    refine .inl ⟨_,rfl,hprogress,?_,rfl,rfl⟩
    dsimp only
    rw [hend]
    exact hpending
  · rw [hfull]
    exact .inr rfl

/-- Nothing is pending. -/
theorem noMatch_pending {place : ℕ} :
    noMatch.length=0 ∨ noMatch.Valid src ∧ place≤noMatch.pos := .inl rfl

/-- A position without a match. -/
theorem withoutMatch_spec (stray : ℤ) (hsize : src.length<2^32)
    (h : e.Keeps lzvnDecode tunables src dstSize) (hplace : e.srcEncodeI≤ src.length) :
    (∃ e', withoutMatch stray src e=.ok e' ∧ e.Goes lzvnDecode src dstSize e') ∨
    withoutMatch stray src e=.error .dstFull := by
  unfold withoutMatch
  by_cases hmany : 8*maxLValue<e.srcEncodeI-e.srcLiteral
  · rw [if_pos hmany]
    by_cases hpending : 0<e.pending.length
    · rw [if_pos hpending]
      obtain ⟨hvalid,hbehind⟩ := h.pending.resolve_left (Nat.ne_of_gt hpending)
      exact emit_spec stray hsize h.progress hvalid hbehind noMatch_pending
    · rw [if_neg hpending]
      have hmax : 0< maxLValue := by decide
      rcases @backendLiterals_spec _ _ _ _ stray hsize h.progress maxLValue hmax
        (show e.srcLiteral+maxLValue≤ src.length by omega) with ⟨s,hs,hprogress,_⟩|hfull
      · rw [hs]
        exact .inl ⟨_,rfl,hprogress,.inl (by dsimp only; omega),rfl,rfl⟩
      · rw [hfull]
        exact .inr rfl
  · rw [if_neg hmany]
    exact .inl ⟨e,rfl,h.progress,h.pending,rfl,rfl⟩

/-- A position with a match. -/
theorem withMatch_spec (stray : ℤ) (hsize : src.length<2^32)
    (h : e.Keeps lzvnDecode tunables src dstSize) {incoming : Match} (hvalid : incoming.Valid src)
    (hplace : e.srcLiteral≤ incoming.pos) :
    (∃ e', withMatch tunables stray src e incoming=.ok e' ∧ e.Goes lzvnDecode src dstSize e') ∨
    withMatch tunables stray src e incoming=.error .dstFull := by
  unfold withMatch
  by_cases hgood : tunables.goodMatch≤ incoming.length
  · rw [if_pos hgood]
    exact emit_spec stray hsize h.progress hvalid hplace noMatch_pending
  rw [if_neg hgood]
  by_cases hnone : e.pending.length=0
  · rw [if_pos hnone]
    exact .inl ⟨_,rfl,h.progress,.inr ⟨hvalid,hplace⟩,rfl,rfl⟩
  rw [if_neg hnone]
  obtain ⟨hpending,hbehind⟩ := h.pending.resolve_left hnone
  by_cases happart : e.pending.pos+e.pending.length≤ incoming.pos
  · rw [if_pos happart]
    exact emit_spec stray hsize h.progress hpending hbehind (.inr ⟨hvalid,happart⟩)
  rw [if_neg happart]
  by_cases hlonger : e.pending.length< incoming.length
  · rw [if_pos hlonger]
    exact emit_spec stray hsize h.progress hvalid hplace noMatch_pending
  · rw [if_neg hlonger]
    exact emit_spec stray hsize h.progress hpending hbehind noMatch_pending

/-- One position keeps the state of the encoder, or the destination is full. -/
theorem encodeStep_spec (stray : ℤ) (hbits : tunables.hashBits≤32)
    (hsize : src.length+maxDValue≤2^31) (h : e.Keeps lzvnDecode tunables src dstSize)
    (hpos : e.srcEncodeI+8<src.length) :
    (∃ e', encodeStep tunables stray src e=.ok e' ∧ e'.Keeps lzvnDecode tunables src dstSize ∧
      e'.srcEncodeI=e.srcEncodeI+1) ∨
    encodeStep tunables stray src e=.error .dstFull := by
  have hload := @load_eq src 4 e.srcEncodeI (by omega)
  obtain ⟨x,hx⟩ : ∃ x, load src 4 e.srcEncodeI=some x := ⟨_,hload⟩
  have hhash : hashX tunables x<e.historyTable.length := by
    rw [h.history.length]
    exact hashX_lt hbits x
  obtain ⟨line,hline⟩ : ∃ line, e.historyTable[hashX tunables x]?=some line :=
    ⟨_,List.getElem?_eq_getElem hhash⟩
  have hmem := List.mem_of_getElem? hline
  -- what is done at the position, before the table is updated
  have hmain : ∀ r : Except Stop Encoder,
      ((∃ e', r=.ok e' ∧ e.Goes lzvnDecode src dstSize e') ∨ r=.error .dstFull) →
      (∃ e', r.map (fun e' => {e' with
        srcEncodeI := e.srcEncodeI+1
        historyTable := e'.historyTable.set (hashX tunables x)
          ((Int.bmod e.srcEncodeI (2^32),x)::line.take (tunables.hashWidth-1))})=.ok e' ∧
        e'.Keeps lzvnDecode tunables src dstSize ∧ e'.srcEncodeI=e.srcEncodeI+1) ∨
      r.map (fun e' => {e' with
        srcEncodeI := e.srcEncodeI+1
        historyTable := e'.historyTable.set (hashX tunables x)
          ((Int.bmod e.srcEncodeI (2^32),x)::line.take (tunables.hashWidth-1))})=.error .dstFull := by
    intro r hr
    rcases hr with ⟨e',rfl,hprogress,hpending,_,htable⟩|rfl
    · refine .inl ⟨_,rfl,⟨hprogress,hpending,?_⟩,rfl⟩
      dsimp only
      rw [htable]
      exact h.history.set hmem hx (by omega) _ _
    · exact .inr rfl
  unfold encodeStep
  dsimp only
  rw [hx,defined,Except.bind,hline,defined,Except.bind]
  refine hmain _ ?_
  by_cases hcovered : e.srcEncodeI<e.srcLiteral
  · rw [if_pos hcovered]
    exact .inl ⟨e,rfl,h.progress,h.pending,rfl,rfl⟩
  · rw [if_neg hcovered]
    obtain ⟨incoming,hincoming,hat,hvalid⟩ := @searchLine_spec src e.srcEncodeI x hsize hpos hx line
      (h.history.lines line hmem) ⟨e.srcEncodeI,0,0⟩ ⟨rfl,.inl rfl⟩
    rw [hincoming,defined,Except.bind]
    by_cases hnone : incoming.length=0
    · rw [if_pos hnone]
      exact withoutMatch_spec stray (by omega) h (by omega)
    · rw [if_neg hnone]
      obtain ⟨hexpanded,hplace⟩ := @expandMatch_valid src e.srcLiteral incoming
        (hvalid.resolve_left hnone) (by omega)
      exact withMatch_spec stray (by omega) h hexpanded hplace

/-- So many positions keep it. -/
theorem encodeLoop_spec (stray : ℤ) (hbits : tunables.hashBits≤32)
    (hsize : src.length+maxDValue≤2^31) {n : ℕ} (h : e.Keeps lzvnDecode tunables src dstSize)
    (hpos : e.srcEncodeI+n+8≤ src.length) :
    (∃ e', encodeLoop tunables stray src n e=.ok e' ∧ e'.Keeps lzvnDecode tunables src dstSize) ∨
    encodeLoop tunables stray src n e=.error .dstFull := by
  induction n generalizing e with
  | zero => exact .inl ⟨e,rfl,h⟩
  | succ n ih =>
    rw [encodeLoop]
    rcases encodeStep_spec stray hbits hsize h (by omega) with ⟨e₁,he₁,h₁,hnext⟩|hfull
    · rw [he₁,Except.bind]
      exact ih h₁ (by omega)
    · rw [hfull]
      exact .inr rfl

/-- What is left is emitted, and the stream ends. -/
theorem encodeFinish_spec (stray : ℤ) (hsize : src.length<2^32)
    (h : e.Keeps lzvnDecode tunables src dstSize) :
    (∃ s, encodeFinish stray src e=.ok s ∧ s.dst.written.length≤dstSize ∧
      decodeStream lzvnDecode s.dst.written=some src) ∨
    encodeFinish stray src e=.error .dstFull := by
  unfold encodeFinish
  have hfirst : (∃ e', (if 0<e.pending.length then emit stray src e e.pending noMatch else .ok e)=
        .ok e' ∧ Progress lzvnDecode src dstSize (e'.backend,e'.srcLiteral)) ∨
      (if 0<e.pending.length then emit stray src e e.pending noMatch else .ok e)=
        .error .dstFull := by
    by_cases hpending : 0<e.pending.length
    · rw [if_pos hpending]
      obtain ⟨hvalid,hbehind⟩ := h.pending.resolve_left (Nat.ne_of_gt hpending)
      rcases emit_spec stray hsize h.progress hvalid hbehind noMatch_pending with ⟨e',he',hgoes⟩|hfull
      · exact .inl ⟨e',he',hgoes.1⟩
      · exact .inr hfull
    · rw [if_neg hpending]
      exact .inl ⟨e,rfl,h.progress⟩
  rcases hfirst with ⟨e',he',hprogress⟩|hfull
  · rw [he',Except.bind]
    have hsecond : (∃ s, (if e'.srcLiteral<src.length then
          backendLiterals stray src (e'.backend,e'.srcLiteral) (src.length-e'.srcLiteral)
          else .ok (e'.backend,e'.srcLiteral))=.ok s ∧ Progress lzvnDecode src dstSize s ∧
          s.2=src.length) ∨
        (if e'.srcLiteral<src.length then
          backendLiterals stray src (e'.backend,e'.srcLiteral) (src.length-e'.srcLiteral)
          else .ok (e'.backend,e'.srcLiteral))=.error .dstFull := by
      have hle : e'.srcLiteral≤ src.length := hprogress.le
      by_cases hleft : e'.srcLiteral<src.length
      · rw [if_pos hleft]
        rcases @backendLiterals_spec _ _ _ _ stray hsize hprogress (src.length-e'.srcLiteral) (by omega)
          (by dsimp only; omega) with ⟨s,hs,hall,hend⟩|hfull
        · exact .inl ⟨s,hs,hall,by dsimp only at hend; omega⟩
        · exact .inr hfull
      · rw [if_neg hleft]
        exact .inl ⟨_,rfl,hprogress,by dsimp only; omega⟩
    rcases hsecond with ⟨s,hs,hall,hend⟩|hfull
    · rw [hs,Except.bind]
      unfold backendEndOfStream
      rcases emitBlock_spec stray hall with ⟨b,hb,hblock,hlmds,hliterals⟩|hfull
      · rw [hb,Except.bind]
        by_cases hroom : b.dst.room<b.dst.written.length+4
        · rw [if_pos hroom]
          exact .inr rfl
        · rw [if_neg hroom]
          obtain ⟨p,hdecodes,hcovers⟩ := hblock.decoded
          dsimp only at hdecodes hcovers
          rw [hlmds,hliterals,hend] at hcovers
          have hwhole : src.take p=src := by
            have hsame := (Prod.mk.inj (Option.some.inj hcovers)).2
            rw [hsame,List.take_length]
          rw [hwhole] at hdecodes
          refine .inl ⟨_,rfl,?_,hdecodes.finish⟩
          dsimp only
          have hsame : b.dst.room=dstSize := hblock.room
          rw [List.length_append,leBytes_length]
          omega
      · rw [hfull]
        exact .inr rfl
    · rw [hfull]
      exact .inr rfl
  · rw [hfull]
    exact .inr rfl

end Encoder

section Buffers
variable {lzvnDecode : List UInt8→Option (List UInt8)} {tunables : Tunables} {src : List UInt8}

/-- A new encoder has not encoded anything. -/
theorem encodeInit_keeps (dstSize : ℕ) :
    (encodeInit tunables dstSize).Keeps lzvnDecode tunables src dstSize where
  progress := ⟨rfl,⟨Nat.zero_le _,rfl,show 0+16≤literalsPerBlock by decide,Nat.zero_le _,
    fun v hbad => (List.not_mem_nil hbad).elim⟩,Nat.zero_le _,0,decodes_nil,covers_nil src 0⟩
  pending := .inl rfl
  history := historyFits_init tunables src dstSize

/-- The source itself is decoded from where it was put, if it was. -/
theorem tryUncompressed_spec (src : List UInt8) (dstSize : ℕ) :
    (tryUncompressed src dstSize).length≤dstSize ∧ (tryUncompressed src dstSize=[] ∨
      decodeStream lzvnDecode (tryUncompressed src dstSize)=some src) := by
  unfold tryUncompressed
  split
  · next hroom =>
    refine ⟨?_,.inr ?_⟩
    · simp only [List.length_append,leBytes_length]
      omega
    · have hblock := (@decodes_nil lzvnDecode).uncompressed (show src.length<2^32 by omega)
      exact hblock.finish
  · exact ⟨Nat.zero_le _,.inl rfl⟩

end Buffers

end Applesauce.Lzfse
