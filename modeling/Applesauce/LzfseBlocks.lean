import Applesauce.LzfseTables

/-!
# Blocks are read back

A block holds the literals and matches it was made of, whatever is before and
behind it. Where the destination is full nothing has changed, the distances
that were replaced by 0 included.
-/

namespace Applesauce.Lzfse

open ByteWords BitStack Fse StateSlots

section Payloads
variable {literals : List UInt8} {lmds : List Lmd} {freq : Tables}

/-- A payload of literals with its final states and bits. -/
structure LiteralPayload (freq : Tables) (literals : List UInt8) (final : ℕ×ℕ×ℕ×ℕ) (n : ℤ)
    (payload : List UInt8) : Prop where
  /-- The final states are those of the tables. -/
  states : StatesFit 10 final
  /-- The bits of the last byte that are not used. -/
  bits : -7≤n ∧ n≤0
  /-- What was written. -/
  size : 8*payload.length≤10*literals.length+7
  /-- It is read back behind any header. -/
  reads : ∀ before : List UInt8, 8≤before.length → ∃ table input rest,
    initDecoderTable literalStates 0 0 freq.literal=some table ∧
      InStream.checkedInit n (before++payload)=some (input,rest) ∧
      readLiterals table (literals.length/4) final input rest=some literals

/-- The literals are encoded, or the destination is full. -/
theorem literalPayload_spec (stray : ℤ) (h : TablesFit freq literals lmds)
    (hfour : literals.length%4=0) {room : ℕ} (hroom : 8≤room) :
    (∃ r n payload, encodeLiterals (initEncoderTable stray literalStates 0 freq.literal) literals
        ⟨[],room⟩=.ok r ∧ r.2.1.finish r.2.2=some (n,⟨payload,room⟩) ∧ payload.length≤room ∧
      LiteralPayload freq literals r.1 n payload) ∨
    encodeLiterals (initEncoderTable stray literalStates 0 freq.literal) literals ⟨[],room⟩=
      .error .dstFull := by
  have hsum : freq.literal.sum≤2^10 := Nat.le_of_eq h.literal.2
  obtain ⟨hbytes,hlength⟩ := quads_bytes hfour
  rcases encodeLiterals_refines stray (by decide) hsum [] ⟨[],room⟩ h.literals with
    ⟨r,t,hr,hdone⟩|hfull
  · left
    have hflushed := hdone.flushed
    have hlast := hdone.last hroom
    have hsize := hdone.size
    have hsame := hdone.room
    dsimp only at hsame hsize
    rw [List.length_nil] at hsize
    obtain ⟨n,buf,hfinish,_,_,hlow,hhigh,hbuf,hwritten⟩ :=
      holds_finish_behind [] hdone.holds (by omega) hlast
    obtain ⟨payload,room'⟩ := buf
    dsimp only at hbuf hwritten
    obtain rfl : room'=room := by omega
    refine ⟨r,n,payload,hr,hfinish,by omega,hdone.states,⟨hlow,hhigh⟩,by omega,?_⟩
    intro before hbefore
    -- the loop is the same whatever is before its buffer
    rcases encodeLiterals_refines stray (by decide) hsum before ⟨[],room'⟩ h.literals with
      ⟨r',t',hr',hdone'⟩|hbad
    · rw [hr] at hr'
      obtain rfl := Except.ok.inj hr'
      obtain ⟨m,buf',hfinish',hvalue,hheight,_,_,_,_⟩ :=
        holds_finish_behind before hdone'.holds (by omega) hlast
      rw [hfinish] at hfinish'
      obtain ⟨rfl,rfl⟩ := Prod.mk.inj (Option.some.inj hfinish')
      have hencoded := hdone'.encoded
      have hbase : 63≤(ofBytes (before++[])).height := by
        change 63≤8*(before++[]).length
        rw [List.append_nil]
        omega
      have hlong := Coder.encodeAll_height_le _ hencoded
      dsimp only at hvalue hheight hencoded hlong
      obtain ⟨input,rest,hinit,hold,_,hbits⟩ :=
        InStream.holds_checkedInit hvalue hheight hlow hhigh (by omega)
      obtain ⟨table,htable,_⟩ := @initDecoderTable_eq freq.literal (2^10) 0 0 (by omega)
      have hread := readLiterals_encodeAll (by decide) hsum (Nat.le_of_eq h.literal.1) htable hencoded
        hbase hold hbits
      refine ⟨table,input,rest,htable,hinit,?_⟩
      rw [hbytes] at hread
      rw [show literals.length/4=(quads literals).length by omega]
      exact hread
    · rw [hr] at hbad
      cases hbad
  · exact .inr hfull

/-- A payload of lengths and distances with its final states and bits. -/
structure LmdPayload (streams : LmdStreams) (lmds : List Lmd) (final : ℕ×ℕ×ℕ) (n : ℤ)
    (payload : List UInt8) : Prop where
  /-- The final states are those of the tables. -/
  states : streams.StatesFit final
  /-- The bits of the last byte that are not used. -/
  bits : -7≤n ∧ n≤0
  /-- What was written. -/
  size : 8*payload.length≤64+56*lmds.length+7
  /-- It is read back behind any bytes. -/
  reads : ∀ before : List UInt8, ∃ input rest,
    InStream.checkedInit n (before++payload)=some (input,rest) ∧
      readLmds streams.decoders lmds.length final input rest=some lmds

/-- The lengths and distances are encoded, or the destination is full. -/
theorem lmdPayload_spec (stray : ℤ) (streams : LmdStreams) (hcodes : ∀ v∈lmds, streams.Codes v)
    (hne : lmds≠[]) (room : ℕ) :
    (∃ r n payload, encodeLmds (streams.encoders stray) lmds ⟨leBytes 8 0,room⟩=.ok r ∧
      r.2.1.finish r.2.2=some (n,⟨payload,room⟩) ∧ payload.length≤room ∧
      LmdPayload streams lmds r.1 n payload) ∨
    encodeLmds (streams.encoders stray) lmds ⟨leBytes 8 0,room⟩=.error .dstFull := by
  have hbits : streams.bits≤56 := streams.bits_le
  rcases encodeLmds_refines streams stray [] ⟨leBytes 8 0,room⟩ hcodes with ⟨r,t,hr,hdone⟩|hfull
  · left
    have hflushed := hdone.flushed
    have hlast := hdone.last hne
    have hsize := hdone.size
    have hsame := hdone.room
    have hmul : streams.bits*lmds.length≤56*lmds.length := Nat.mul_le_mul_right _ hbits
    dsimp only at hsame hsize
    rw [leBytes_length] at hsize
    obtain ⟨n,buf,hfinish,_,_,hlow,hhigh,hbuf,hwritten⟩ :=
      holds_finish_behind [] hdone.holds (by omega) hlast
    obtain ⟨payload,room'⟩ := buf
    dsimp only at hbuf hwritten
    obtain rfl : room'=room := by omega
    refine ⟨r,n,payload,hr,hfinish,by omega,hdone.states,⟨hlow,hhigh⟩,by omega,?_⟩
    intro before
    rcases encodeLmds_refines streams stray before ⟨leBytes 8 0,room'⟩ hcodes with
      ⟨r',t',hr',hdone'⟩|hbad
    · rw [hr] at hr'
      obtain rfl := Except.ok.inj hr'
      obtain ⟨m,buf',hfinish',hvalue,hheight,_,_,_,_⟩ :=
        holds_finish_behind before hdone'.holds (by omega) hlast
      rw [hfinish] at hfinish'
      obtain ⟨rfl,rfl⟩ := Prod.mk.inj (Option.some.inj hfinish')
      have hencoded := hdone'.encoded
      have hbase : 63≤(ofBytes (before++leBytes 8 0)).height := by
        change 63≤8*(before++leBytes 8 0).length
        rw [List.length_append,leBytes_length]
        omega
      have hlong := Coder.encodeAll_height_le _ hencoded
      dsimp only at hvalue hheight hencoded hlong
      obtain ⟨input,rest,hinit,hold,_,hfew⟩ :=
        InStream.holds_checkedInit hvalue hheight hlow hhigh (by omega)
      exact ⟨input,rest,hinit,readLmds_encodeAll streams hencoded hbase hold hfew⟩
    · rw [hr] at hbad
      cases hbad
  · exact .inr hfull

end Payloads

section Blocks
variable {literals : List UInt8} {lmds : List Lmd}

/-- The frequencies are few bytes. -/
theorem tables_length {fs : List ℕ} (hfs : ∀ f∈fs, f≤1047) : freqCode.widthAll fs≤14*fs.length := by
  induction fs with
  | nil => exact Nat.le_refl 0
  | cons f fs ih =>
    obtain ⟨hf,hrest⟩ := List.forall_mem_cons.mp hfs
    have hwidth : freqCode.width f≤14 := (encodeV1FreqValue_lt hf).2
    have hall := ih hrest
    rw [PrefixCode.Code.widthAll,List.length_cons]
    omega

/-- The lengths of a block are far from what a word can hold. -/
theorem BlockInput.nRawBytes_lt (h : BlockInput literals lmds) :
    (lmds.map Lmd.m).sum+(lmds.map Lmd.l).sum<2^32 := by
  have hsum : ∀ vs : List Lmd, (∀ v∈vs, v.l≤ maxLValue ∧ v.m≤ maxMValue ∧ v.d≤ maxDValue) →
      (vs.map Lmd.m).sum+(vs.map Lmd.l).sum≤2674*vs.length := by
    intro vs hvs
    induction vs with
    | nil => exact Nat.le_refl 0
    | cons v vs ih =>
      obtain ⟨⟨hl,hm,_⟩,hrest⟩ := List.forall_mem_cons.mp hvs
      have hall := ih hrest
      unfold maxLValue at hl
      unfold maxMValue at hm
      simp only [List.map_cons,List.sum_cons,List.length_cons]
      omega
  have hall := hsum lmds h.values
  have hle := h.lmds_le
  unfold matchesPerBlock at hle
  omega

/-- A header with its tables and payloads is read back, whatever is before and behind them. -/
theorem readBlock_append {header : BlockHeader} {state tables literal lmd : List UInt8}
    (hfits : header.Fits (32+tables.length)) (hchecked : header.checked=true)
    (hfit : TablesFit header.freq literals lmds) (hfour : literals.length%4=0)
    (hstate : encodeV1State header (32+tables.length)=some state)
    (htables : encodeV1FreqTable 0 0
      (header.freq.l++header.freq.m++header.freq.d++header.freq.literal)=some tables)
    (hliterals : header.nLiterals=literals.length) (hmatches : header.nMatches=lmds.length)
    (hliteral : header.nLiteralPayloadBytes=literal.length)
    (hlmd : header.nLmdPayloadBytes=lmd.length)
    (hraw : (lmds.map Lmd.m).sum+(lmds.map Lmd.l).sum=header.nRawBytes)
    (hliteralPayload :
      LiteralPayload header.freq literals header.literalState header.literalBits literal)
    (hlmdPayload : LmdPayload hfit.streams lmds header.lmdState header.lmdBits lmd)
    (before rest : List UInt8) : readBlock before (state++tables++literal++lmd++rest)=
      some (literals,revertPrevious 0 lmds,rest) := by
  have hstateLength : state.length=32 := by
    rw [encodeV1State_eq hfits] at hstate
    rw [←Option.some.inj hstate]
    simp only [List.length_append,leBytes_length]
  have hrearranged : state++tables++literal++lmd++rest=state++tables++(literal++lmd++rest) := by
    simp only [List.append_assoc]
  have hread := @readHeader_append _ _ hfits _ _ (literal++lmd++rest) hstate rfl hfit.freq_le htables
    hfit.l.1 hfit.m.1 hfit.d.1 hfit.literal.1
  have hliteralEnd : (state++tables++literal++lmd++rest).take (32+tables.length+literal.length)=
      state++tables++literal := by
    rw [List.append_assoc _ lmd rest]
    refine List.take_left' ?_
    simp only [List.length_append,hstateLength]
  have hblockEnd : (state++tables++literal++lmd++rest).take
      (32+tables.length+literal.length+lmd.length)=state++tables++literal++lmd := by
    refine List.take_left' ?_
    simp only [List.length_append,hstateLength]
  have hbehind : (state++tables++literal++lmd++rest).drop
      (32+tables.length+literal.length+lmd.length)=rest := by
    refine List.drop_left' ?_
    simp only [List.length_append,hstateLength]
  have hpayload : (state++tables++literal++lmd).drop (32+tables.length+literal.length)=lmd := by
    refine List.drop_left' ?_
    simp only [List.length_append,hstateLength]
  have hlong : 32+tables.length+literal.length+lmd.length≤
      (state++tables++literal++lmd++rest).length := by
    simp only [List.length_append,hstateLength]
    omega
  obtain ⟨table,input,inputRest,htable,hinit,hreadLiterals⟩ :=
    hliteralPayload.reads (before++(state++tables)) (by
      simp only [List.length_append,hstateLength]
      omega)
  obtain ⟨input',inputRest',hinit',hreadLmds⟩ :=
    hlmdPayload.reads []
  have hdecoders : hfit.streams.decoders=
      ⟨initValueDecoderTable lStates (valueSymbols header.freq.l lExtraBits lBaseValue),
        initValueDecoderTable mStates (valueSymbols header.freq.m mExtraBits mBaseValue),
        initValueDecoderTable dStates (valueSymbols header.freq.d dExtraBits dBaseValue)⟩ := rfl
  rw [List.append_assoc] at hinit
  rw [List.nil_append] at hinit'
  unfold readBlock
  rw [hrearranged,hread,←hrearranged,Option.bind_some]
  dsimp only
  rw [hliteral,hlmd,hliterals,if_pos ⟨hchecked,hfour,hlong⟩,htable,Option.bind_some,hliteralEnd,hinit,
    Option.bind_some]
  dsimp only
  rw [hreadLiterals,Option.bind_some,hblockEnd,hpayload,hinit',Option.bind_some,hmatches]
  dsimp only
  rw [←hdecoders,hreadLmds,Option.bind_some,if_pos hraw,hbehind]

/-- A block that was completed is read back, whatever is behind it. -/
theorem encodeBlock_reads (stray : ℤ) (h : BlockInput literals lmds) (dst : OutBuffer) :
    (∃ block, encodeBlock stray literals lmds dst=
        .ok {dst with written := dst.written++block} ∧
      (dst.written++block).length≤dst.room ∧ ∀ rest, readBlock dst.written (block++rest)=
        some (literals,revertPrevious 0 lmds,rest)) ∨
    encodeBlock stray literals lmds dst=.error .dstFull := by
  obtain ⟨occ,freq,hocc,hfreq,hfit⟩ := tables_spec h
  obtain ⟨hlFreq,hmFreq,hdFreq,hliteralFreq⟩ :
      freq.l.length=lSymbolCount ∧ freq.m.length=mSymbolCount ∧ freq.d.length=dSymbolCount ∧
        freq.literal.length=literalSymbolCount := ⟨hfit.l.1,hfit.m.1,hfit.d.1,hfit.literal.1⟩
  have hmatches := h.lmds_le
  have hliterals := h.literals_le
  unfold literalsPerBlock at hliterals
  unfold matchesPerBlock at hmatches hliterals
  obtain ⟨tables,htables,_,htablesLength⟩ :=
    @encodeV1FreqTable_spec _ hfit.freq_le 0 0 (by decide) (by decide)
  have htablesSmall := tables_length hfit.freq_le
  simp only [List.length_append,hlFreq,hmFreq,hdFreq,hliteralFreq] at htablesSmall
  have hheaderSmall : 32+tables.length≤662 := by
    unfold lSymbolCount mSymbolCount dSymbolCount literalSymbolCount at htablesSmall
    omega
  unfold encodeBlock
  rw [hocc,defined,Except.bind]
  by_cases hroom : dst.room<dst.written.length+headerV2Size
  · rw [if_pos hroom]
    exact .inr rfl
  rw [if_neg hroom,hfreq,defined,Except.bind]
  dsimp only
  rw [htables,defined,Except.bind]
  unfold headerV2Size at hroom
  rcases literalPayload_spec stray hfit h.literals_four
    (show 8≤dst.room-dst.written.length-(32+tables.length) by omega) with
    ⟨r,literalBits,literal,hr,hfinish,hliteralRoom,hpayload⟩|hfull
  · rw [hr,Except.bind,hfinish,defined,Except.bind]
    dsimp only
    by_cases hfew : dst.room-dst.written.length-(32+tables.length)-literal.length<8
    · rw [if_pos hfew]
      exact .inr rfl
    rw [if_neg hfew]
    rcases lmdPayload_spec stray hfit.streams (hfit.codes h) h.lmds_ne
      (dst.room-dst.written.length-(32+tables.length)-literal.length) with
      ⟨q,lmdBits,lmd,hq,hlmdFinish,hlmdRoom,hlmd⟩|hfull
    · have hencoders : hfit.streams.encoders stray=⟨initEncoderTable stray lStates 0 freq.l,
          initEncoderTable stray mStates 0 freq.m,initEncoderTable stray dStates 0 freq.d⟩ := rfl
      rw [hencoders] at hq
      rw [hq,Except.bind,hlmdFinish,defined,Except.bind]
      dsimp only
      obtain ⟨header,hheader⟩ : ∃ header, header=({
        nRawBytes := ((lmds.map Lmd.m).sum+(lmds.map Lmd.l).sum)%2^32
        nLiterals := literals.length
        nMatches := lmds.length
        nLiteralPayloadBytes := literal.length
        nLmdPayloadBytes := lmd.length
        literalBits := literalBits
        literalState := r.1
        lmdBits := lmdBits
        lmdState := q.1
        freq := freq} : BlockHeader) := ⟨_,rfl⟩
      rw [←hheader]
      have hliteralSize := hpayload.size
      have hlmdSize := hlmd.size
      obtain ⟨hs0,hs1,hs2,hs3⟩ := hpayload.states
      obtain ⟨hsl,hsm,hsd⟩ := hlmd.states
      change q.1.1<2^6 at hsl
      change q.1.2.1<2^6 at hsm
      change q.1.2.2<2^8 at hsd
      have hfits : header.Fits (32+tables.length) := by
        rw [hheader]
        exact ⟨Nat.mod_lt _ (Nat.two_pow_pos 32),show literals.length<2^20 by omega,
          show literal.length<2^20 by omega,show lmds.length<2^20 by omega,
          show lmd.length<2^20 by omega,hpayload.bits,⟨hs0,hs1,hs2,hs3⟩,hlmd.bits,
          ⟨show q.1.1<2^10 by omega,show q.1.2.1<2^10 by omega,show q.1.2.2<2^10 by omega⟩,by omega⟩
      have hchecked : header.checked=true := by
        rw [hheader]
        exact decide_eq_true ⟨h.literals_le,h.lmds_le,hs0,hs1,hs2,hs3,hsl,hsm,hsd,
          Nat.le_of_eq hfit.l.2,Nat.le_of_eq hfit.m.2,Nat.le_of_eq hfit.d.2,
          Nat.le_of_eq hfit.literal.2⟩
      have hstate := encodeV1State_eq hfits
      obtain ⟨state,hstateBytes⟩ : ∃ state, encodeV1State header (32+tables.length)=some state :=
        ⟨_,hstate⟩
      have hstateLength : state.length=32 := by
        rw [hstate] at hstateBytes
        rw [←Option.some.inj hstateBytes]
        simp only [List.length_append,leBytes_length]
      rw [hstateBytes,defined,Except.bind]
      refine .inl ⟨state++tables++literal++lmd,rfl,?_,fun rest => ?_⟩
      · simp only [List.length_append,hstateLength]
        omega
      · rw [hheader] at hfits hchecked hstateBytes
        exact readBlock_append hfits hchecked hfit h.literals_four hstateBytes htables rfl rfl rfl rfl
          (Nat.mod_eq_of_lt (h.nRawBytes_lt)).symm hpayload hlmd dst.written rest
    · exact .inr (congrArg (fun x => Except.bind x _) hfull)
  · rw [hfull]
    exact .inr rfl

end Blocks

section Matches
variable {s : Backend}

/-- The distances are as they were before. -/
theorem revertPrevious_encodePrevious {lmds : List Lmd} (h : ∀ v∈lmds, 0<v.d) (dPrev : ℕ) :
    revertPrevious dPrev (encodePrevious dPrev lmds)=lmds := by
  induction lmds generalizing dPrev with
  | nil => rfl
  | cons v lmds ih =>
    obtain ⟨hv,hrest⟩ := List.forall_mem_cons.mp h
    unfold encodePrevious
    by_cases hsame : v.d=dPrev
    · rw [if_pos hsame,revertPrevious,if_pos rfl,ih hrest]
      rw [←hsame]
    · rw [if_neg hsame,revertPrevious,if_neg (Nat.ne_of_gt hv),ih hrest]

/-- A replaced distance changes nothing else. -/
theorem encodePrevious_mem {lmds : List Lmd} {dPrev : ℕ} {v : Lmd}
    (h : v∈encodePrevious dPrev lmds) : ∃ w∈lmds, v.l=w.l ∧ v.m=w.m ∧ v.d≤w.d := by
  induction lmds generalizing dPrev with
  | nil => cases h
  | cons u lmds ih =>
    unfold encodePrevious at h
    by_cases hsame : u.d=dPrev
    · rw [if_pos hsame] at h
      rcases List.mem_cons.mp h with rfl|h
      · exact ⟨u,List.mem_cons_self,rfl,rfl,Nat.zero_le _⟩
      · obtain ⟨w,hw,hrest⟩ := ih h
        exact ⟨w,List.mem_cons_of_mem _ hw,hrest⟩
    · rw [if_neg hsame] at h
      rcases List.mem_cons.mp h with rfl|h
      · exact ⟨v,List.mem_cons_self,rfl,rfl,Nat.le_refl _⟩
      · obtain ⟨w,hw,hrest⟩ := ih h
        exact ⟨w,List.mem_cons_of_mem _ hw,hrest⟩

/-- Replacing distances keeps the number of matches. -/
theorem encodePrevious_length (dPrev : ℕ) (lmds : List Lmd) :
    (encodePrevious dPrev lmds).length=lmds.length := by
  induction lmds generalizing dPrev with
  | nil => rfl
  | cons v lmds ih =>
    unfold encodePrevious
    split <;> rw [List.length_cons,List.length_cons,ih]

/-- What the back end keeps between its steps. -/
structure Backend.Fits (s : Backend) : Prop where
  /-- The destination is not exceeded. -/
  written_le : s.dst.written.length≤ s.dst.room
  /-- The literals are those of the matches. -/
  literals_sum : (s.lmds.map Lmd.l).sum=s.literals.length
  /-- There is room for the literals that are added. -/
  literals_le : s.literals.length+16≤literalsPerBlock
  /-- The matches fit into the state. -/
  lmds_le : s.lmds.length≤ matchesPerBlock
  /-- The lengths and distances can be encoded, and a distance is not 0. -/
  values : ∀ v∈s.lmds, v.l≤ maxLValue ∧ v.m≤ maxMValue ∧ 0<v.d ∧ v.d≤ maxDValue

/-- A state with matches is a block's input. -/
theorem Backend.Fits.input (h : s.Fits) (hne : s.lmds≠[]) :
    BlockInput (padLiterals s.literals) (encodePrevious 0 s.lmds) where
  literals_four := by
    unfold padLiterals
    rw [List.length_append,List.length_replicate]
    omega
  literals_le := by
    have hle := h.literals_le
    unfold padLiterals
    rw [List.length_append,List.length_replicate]
    omega
  lmds_ne := by
    intro hbad
    have hlength := encodePrevious_length 0 s.lmds
    rw [hbad] at hlength
    exact hne (List.length_eq_zero_iff.mp hlength.symm)
  lmds_le := by
    rw [encodePrevious_length]
    exact h.lmds_le
  values := by
    intro v hv
    obtain ⟨w,hw,hl,hm,hd⟩ := encodePrevious_mem hv
    obtain ⟨hwl,hwm,_,hwd⟩ := h.values w hw
    rw [hl,hm]
    exact ⟨hwl,hwm,Nat.le_trans hd hwd⟩

/-- Encoding the matches of the state appends a block from which its literals, padded, and its
matches are read back, whatever is behind it; where the destination is full the state is as it
was. -/
theorem encodeMatches_reads (stray : ℤ) (h : s.Fits) :
    encodeMatches stray s=some (.dstFull,s) ∨
    s.lmds=[] ∧ encodeMatches stray s=some (.ok,s) ∨
    s.lmds≠[] ∧ ∃ block, encodeMatches stray s=
        some (.ok,⟨{s.dst with written := s.dst.written++block},[],[]⟩) ∧
      (s.dst.written++block).length≤ s.dst.room ∧
      ∀ rest, readBlock s.dst.written (block++rest)=some (padLiterals s.literals,s.lmds,rest) := by
  have hdistances : ∀ v∈s.lmds, 0<v.d := fun v hv => (h.values v hv).2.2.1
  unfold encodeMatches
  by_cases hempty : s.lmds=[]
  · have hliterals : s.literals=[] := by
      have hsum := h.literals_sum
      rw [hempty] at hsum
      exact List.length_eq_zero_iff.mp hsum.symm
    rw [if_pos ⟨hliterals,hempty⟩]
    exact .inr (.inl ⟨hempty,rfl⟩)
  · rw [if_neg fun hbad => hempty hbad.2]
    dsimp only
    rcases encodeBlock_reads stray (h.input hempty) s.dst with ⟨block,hblock,hroom,hreads⟩|hfull
    · rw [hblock]
      rw [revertPrevious_encodePrevious hdistances] at hreads
      exact .inr (.inr ⟨hempty,block,rfl,hroom,hreads⟩)
    · rw [hfull]
      dsimp only
      rw [revertPrevious_encodePrevious hdistances]
      unfold padLiterals
      rw [List.take_left' rfl]
      exact .inl rfl

end Matches

end Applesauce.Lzfse
