import Applesauce.FseStreams
import Applesauce.LzfseReader

/-!
# Headers are read back

The fields of the packed words lie one above the other, and so do the codes of
the frequencies in the bytes behind them. A header whose fields fit is read
back as it was.
-/

namespace Applesauce.Lzfse

open ByteWords BitStack Fse PrefixCode

section Fields

/-- Fields one above the other: their values and widths. -/
def packed : List (ℕ×ℕ)→ℕ
  | [] => 0
  | x::fields => x.1+2^x.2*packed fields

/-- The number of their bits. -/
def packedWidth (fields : List (ℕ×ℕ)) : ℕ := (fields.map Prod.snd).sum

/-- The fields with their offsets. -/
def placed : ℕ→List (ℕ×ℕ)→List (ℤ×ℕ×ℕ)
  | _,[] => []
  | offset,x::fields => ((x.1 : ℤ),offset,x.2)::placed (offset+x.2) fields

/-- The values are within their widths. -/
def FieldsFit (fields : List (ℕ×ℕ)) : Prop := ∀ x∈fields, x.1<2^x.2 ∧ x.2≤32

/-- No fields. -/
theorem FieldsFit.nil : FieldsFit [] := fun _ hbad => (List.not_mem_nil hbad).elim

/-- Another field. -/
theorem FieldsFit.cons {v n : ℕ} {fields : List (ℕ×ℕ)} (hv : v<2^n) (hn : n≤32)
    (h : FieldsFit fields) : FieldsFit ((v,n)::fields) := List.forall_mem_cons.mpr ⟨⟨hv,hn⟩,h⟩

/-- The fields are within all their bits. -/
theorem packed_lt {fields : List (ℕ×ℕ)} (h : FieldsFit fields) :
    packed fields<2^packedWidth fields := by
  induction fields with
  | nil => exact Nat.one_pos
  | cons x fields ih =>
    obtain ⟨hx,hrest⟩ := List.forall_mem_cons.mp h
    have hlt := add_mul_lt hx.1 (ih hrest)
    unfold packed packedWidth
    rw [List.map_cons,List.sum_cons]
    exact hlt

/-- Fields are set one above the other. -/
theorem setFields_placed {fields : List (ℕ×ℕ)} {offset : ℕ} (h : FieldsFit fields)
    (hwidth : offset+packedWidth fields<64) :
    setFields (placed offset fields)=some (2^offset*packed fields) := by
  induction fields generalizing offset with
  | nil => rfl
  | cons x fields ih =>
    obtain ⟨hx,hrest⟩ := List.forall_mem_cons.mp h
    have hsum : packedWidth (x::fields)=x.2+packedWidth fields := by
      unfold packedWidth
      rw [List.map_cons,List.sum_cons]
    rw [hsum] at hwidth
    have hfirst : setField (x.1 : ℤ) offset x.2=some (x.1<<<offset) := by
      unfold setField
      rw [if_pos ⟨by omega,hx.2,Int.natCast_nonneg _,by exact_mod_cast hx.1⟩,Int.toNat_natCast]
    have hlow : x.1<<<offset<2^(offset+x.2) := by
      rw [Nat.shiftLeft_eq,Nat.mul_comm,pow_add]
      exact Nat.mul_lt_mul_of_pos_left hx.1 (Nat.two_pow_pos offset)
    unfold placed setFields
    dsimp only
    rw [hfirst,Option.bind_some,ih hrest (by omega),Option.map_some]
    rw [Nat.mul_comm (2^(offset+x.2)),←Nat.shiftLeft_eq,or_shiftLeft hlow]
    rw [packed,Nat.shiftLeft_eq,pow_add]
    congr 1
    ring

/-- A field is read at its place. -/
theorem field_packed {before behind : List (ℕ×ℕ)} {v n : ℕ}
    (h : FieldsFit (before++(v,n)::behind)) :
    field (packed (before++(v,n)::behind)) (packedWidth before) n=v := by
  induction before with
  | nil =>
    obtain ⟨hv,_⟩ := List.forall_mem_cons.mp h
    unfold field packedWidth
    rw [List.nil_append,List.map_nil,List.sum_nil,Nat.shiftRight_zero,packed]
    exact add_mul_mod hv.1
  | cons x before ih =>
    obtain ⟨hx,hrest⟩ := List.forall_mem_cons.mp h
    have hback := ih hrest
    have hsum : packedWidth (x::before)=x.2+packedWidth before := by
      unfold packedWidth
      rw [List.map_cons,List.sum_cons]
    unfold field at hback ⊢
    rw [List.cons_append,packed,hsum,Nat.shiftRight_add,Nat.shiftRight_eq_div_pow (_+_) x.2,
      add_mul_div hx.1,hback]

end Fields

section Frequencies

/-- Codes are stored one above the other, above the bits that the accumulator holds. -/
theorem encodeV1FreqTable_spec {src : List ℕ} (hsrc : ∀ f∈src, f≤1047) {accum accumNbits : ℕ}
    (haccum : accum<2^accumNbits) (hnbits : accumNbits≤7) : ∃ bytes,
      encodeV1FreqTable accum accumNbits src=some bytes ∧
      leValue bytes=accum+2^accumNbits*freqCode.bitsAll src ∧
      bytes.length=(accumNbits+freqCode.widthAll src+7)/8 := by
  induction src generalizing accum accumNbits with
  | nil =>
    by_cases hzero : 0<accumNbits
    · have hpow : 2^accumNbits≤2^7 := Nat.pow_le_pow_right Nat.two_pos hnbits
      refine ⟨[UInt8.ofNat accum],by rw [encodeV1FreqTable,if_pos hzero],?_,?_⟩
      · change accum%256+256*0=accum+2^accumNbits*0
        rw [Nat.mod_eq_of_lt (by omega),Nat.mul_zero,Nat.mul_zero]
      · change 1=(accumNbits+0+7)/8
        omega
    · obtain rfl : accumNbits=0 := by omega
      obtain rfl : accum=0 := by omega
      exact ⟨[],rfl,rfl,rfl⟩
  | cons f src ih =>
    obtain ⟨hf,hrest⟩ := List.forall_mem_cons.mp hsrc
    obtain ⟨hbits,hwidth⟩ := encodeV1FreqValue_lt hf
    obtain ⟨code,hcode⟩ : ∃ code, code=encodeV1FreqValue f := ⟨_,rfl⟩
    obtain ⟨width,hnew⟩ : ∃ width, width=accumNbits+code.2 := ⟨_,rfl⟩
    obtain ⟨all,hall⟩ : ∃ all, all=accum+2^accumNbits*code.1 := ⟨_,rfl⟩
    rw [←hcode] at hbits hwidth
    have hlt : all<2^width := by
      rw [hall,hnew]
      exact add_mul_lt haccum hbits
    have hpow : 2^width≤2^32 := Nat.pow_le_pow_right Nat.two_pos (by omega)
    have hword : (accum|||code.1<<<accumNbits)%2^32=all := by
      rw [or_shiftLeft haccum,←hall,Nat.mod_eq_of_lt (by omega)]
    have hkept : all>>>(8*(width/8))<2^(width-8*(width/8)) := by
      rw [Nat.shiftRight_eq_div_pow,Nat.div_lt_iff_lt_mul (Nat.two_pow_pos _),←pow_add,
        Nat.sub_add_cancel (by omega)]
      exact hlt
    obtain ⟨bytes,hbytes,hvalue,hlength⟩ := ih hrest hkept (by omega)
    refine ⟨leBytes (width/8) all++bytes,?_,?_,?_⟩
    · rw [encodeV1FreqTable,←hcode]
      dsimp only
      rw [if_pos hbits,hword,←hnew,hbytes]
      rfl
    · have hpow256 : 256^(width/8)=2^(8*(width/8)) := by
        rw [pow_mul]
        rfl
      have hsplit : 2^(8*(width/8))*2^(width-8*(width/8))=2^width := by
        rw [←pow_add]
        congr 1
        omega
      have hdiv := Nat.mod_add_div all (2^(8*(width/8)))
      have hsum : freqCode.bitsAll (f::src)=code.1+2^code.2*freqCode.bitsAll src := by
        rw [hcode]
        rfl
      rw [leValue_append,leValue_leBytes,leBytes_length,hvalue,hpow256,Nat.mul_add,←Nat.mul_assoc,
        hsplit,Nat.shiftRight_eq_div_pow,←Nat.add_assoc,hdiv,hall,hsum,hnew,pow_add]
      ring
    · have hsum : freqCode.widthAll (f::src)=code.2+freqCode.widthAll src := by
        rw [hcode]
        rfl
      rw [List.length_append,leBytes_length,hlength,hsum]
      omega

end Frequencies

section Headers
variable {header : BlockHeader} {headerSize : ℕ}

/-- The fields of a header are within their widths. -/
structure BlockHeader.Fits (header : BlockHeader) (headerSize : ℕ) : Prop where
  /-- Decoded bytes. -/
  nRawBytes : header.nRawBytes<2^32
  /-- Literals. -/
  nLiterals : header.nLiterals<2^20
  /-- Bytes of literals. -/
  nLiteralPayloadBytes : header.nLiteralPayloadBytes<2^20
  /-- Matches. -/
  nMatches : header.nMatches<2^20
  /-- Bytes of matches. -/
  nLmdPayloadBytes : header.nLmdPayloadBytes<2^20
  /-- Final bits of literals. -/
  literalBits : -7≤header.literalBits ∧ header.literalBits≤0
  /-- Final states of literals. -/
  literalState : header.literalState.1<2^10 ∧ header.literalState.2.1<2^10 ∧
    header.literalState.2.2.1<2^10 ∧ header.literalState.2.2.2<2^10
  /-- Final bits of matches. -/
  lmdBits : -7≤header.lmdBits ∧ header.lmdBits≤0
  /-- Final states of matches. -/
  lmdState : header.lmdState.1<2^10 ∧ header.lmdState.2.1<2^10 ∧ header.lmdState.2.2<2^10
  /-- The size. -/
  headerSize : headerSize<2^32

/-- The first word of a header. -/
def literalFields (header : BlockHeader) : List (ℕ×ℕ) :=
  [(header.nLiterals,20),(header.nLiteralPayloadBytes,20),(header.nMatches,20),
    ((7+header.literalBits).toNat,3)]

/-- The second word. -/
def lmdFields (header : BlockHeader) : List (ℕ×ℕ) :=
  [(header.literalState.1,10),(header.literalState.2.1,10),(header.literalState.2.2.1,10),
    (header.literalState.2.2.2,10),(header.nLmdPayloadBytes,20),((7+header.lmdBits).toNat,3)]

/-- The third word. -/
def stateFields (header : BlockHeader) (headerSize : ℕ) : List (ℕ×ℕ) :=
  [(headerSize,32),(header.lmdState.1,10),(header.lmdState.2.1,10),(header.lmdState.2.2,10)]

/-- The fields of the first word. -/
theorem BlockHeader.Fits.literalFields (h : header.Fits headerSize) :
    FieldsFit (literalFields header) := by
  have hbits := h.literalBits
  refine .cons h.nLiterals (by omega) (.cons h.nLiteralPayloadBytes (by omega)
    (.cons h.nMatches (by omega) (.cons ?_ (by omega) .nil)))
  omega

/-- The fields of the second word. -/
theorem BlockHeader.Fits.lmdFields (h : header.Fits headerSize) : FieldsFit (lmdFields header) := by
  have hbits := h.lmdBits
  obtain ⟨h0,h1,h2,h3⟩ := h.literalState
  refine .cons h0 (by omega) (.cons h1 (by omega) (.cons h2 (by omega) (.cons h3 (by omega)
    (.cons h.nLmdPayloadBytes (by omega) (.cons ?_ (by omega) .nil)))))
  omega

/-- The fields of the third word. -/
theorem BlockHeader.Fits.stateFields (h : header.Fits headerSize) :
    FieldsFit (stateFields header headerSize) := by
  obtain ⟨hl,hm,hd⟩ := h.lmdState
  exact .cons h.headerSize (by omega) (.cons hl (by omega) (.cons hm (by omega)
    (.cons hd (by omega) .nil)))

/-- The bytes of a header whose fields fit. -/
theorem encodeV1State_eq (h : header.Fits headerSize) : encodeV1State header headerSize=
    some (leBytes 4 compressedV2Magic++leBytes 4 header.nRawBytes++
      leBytes 8 (packed (literalFields header))++leBytes 8 (packed (lmdFields header))++
      leBytes 8 (packed (stateFields header headerSize))) := by
  have hliteralBits : ((7+header.literalBits).toNat : ℤ)=7+header.literalBits := by
    have hbits := h.literalBits
    omega
  have hlmdBits : ((7+header.lmdBits).toNat : ℤ)=7+header.lmdBits := by
    have hbits := h.lmdBits
    omega
  have hliteral := @setFields_placed _ 0 h.literalFields (show 63<64 by decide)
  have hlmd := @setFields_placed _ 0 h.lmdFields (show 63<64 by decide)
  have hstate := @setFields_placed _ 0 h.stateFields (show 62<64 by decide)
  rw [pow_zero,Nat.one_mul] at hliteral hlmd hstate
  have hliteral' : setFields [((header.nLiterals : ℤ),0,20),((header.nLiteralPayloadBytes : ℤ),20,20),
      ((header.nMatches : ℤ),40,20),(7+header.literalBits,60,3)]=
      some (packed (Lzfse.literalFields header)) := by
    rw [←hliteralBits]
    exact hliteral
  have hlmd' : setFields [((header.literalState.1 : ℤ),0,10),((header.literalState.2.1 : ℤ),10,10),
      ((header.literalState.2.2.1 : ℤ),20,10),((header.literalState.2.2.2 : ℤ),30,10),
      ((header.nLmdPayloadBytes : ℤ),40,20),(7+header.lmdBits,60,3)]=
      some (packed (Lzfse.lmdFields header)) := by
    rw [←hlmdBits]
    exact hlmd
  have hstate' : setFields [((headerSize : ℤ),0,32),((header.lmdState.1 : ℤ),32,10),
      ((header.lmdState.2.1 : ℤ),42,10),((header.lmdState.2.2 : ℤ),52,10)]=
      some (packed (Lzfse.stateFields header headerSize)) := hstate
  unfold encodeV1State
  rw [hliteral',Option.bind_some,hlmd',Option.bind_some,hstate',Option.map_some]

/-- The fields of the first word are read. -/
theorem BlockHeader.Fits.read_literalFields (h : header.Fits headerSize) :
    field (packed (Lzfse.literalFields header)) 0 20=header.nLiterals ∧
      field (packed (Lzfse.literalFields header)) 20 20=header.nLiteralPayloadBytes ∧
      field (packed (Lzfse.literalFields header)) 40 20=header.nMatches ∧
      field (packed (Lzfse.literalFields header)) 60 3=(7+header.literalBits).toNat :=
  ⟨@field_packed [] _ _ _ h.literalFields,@field_packed [_] _ _ _ h.literalFields,
    @field_packed [_,_] _ _ _ h.literalFields,@field_packed [_,_,_] _ _ _ h.literalFields⟩

/-- The fields of the second word are read. -/
theorem BlockHeader.Fits.read_lmdFields (h : header.Fits headerSize) :
    field (packed (Lzfse.lmdFields header)) 0 10=header.literalState.1 ∧
      field (packed (Lzfse.lmdFields header)) 10 10=header.literalState.2.1 ∧
      field (packed (Lzfse.lmdFields header)) 20 10=header.literalState.2.2.1 ∧
      field (packed (Lzfse.lmdFields header)) 30 10=header.literalState.2.2.2 ∧
      field (packed (Lzfse.lmdFields header)) 40 20=header.nLmdPayloadBytes ∧
      field (packed (Lzfse.lmdFields header)) 60 3=(7+header.lmdBits).toNat :=
  ⟨@field_packed [] _ _ _ h.lmdFields,@field_packed [_] _ _ _ h.lmdFields,
    @field_packed [_,_] _ _ _ h.lmdFields,@field_packed [_,_,_] _ _ _ h.lmdFields,
    @field_packed [_,_,_,_] _ _ _ h.lmdFields,@field_packed [_,_,_,_,_] _ _ _ h.lmdFields⟩

/-- The fields of the third word are read. -/
theorem BlockHeader.Fits.read_stateFields (h : header.Fits headerSize) :
    field (packed (Lzfse.stateFields header headerSize)) 0 32=headerSize ∧
      field (packed (Lzfse.stateFields header headerSize)) 32 10=header.lmdState.1 ∧
      field (packed (Lzfse.stateFields header headerSize)) 42 10=header.lmdState.2.1 ∧
      field (packed (Lzfse.stateFields header headerSize)) 52 10=header.lmdState.2.2 :=
  ⟨@field_packed [] _ _ _ h.stateFields,@field_packed [_] _ _ _ h.stateFields,
    @field_packed [_,_] _ _ _ h.stateFields,@field_packed [_,_,_] _ _ _ h.stateFields⟩

/-- Four lists one behind the other are taken apart. -/
theorem split_append {l m d : List ℕ} {nl nm nd : ℕ} (rest : List ℕ) (hl : l.length=nl)
    (hm : m.length=nm) (hd : d.length=nd) : (l++m++d++rest).take nl=l ∧
      ((l++m++d++rest).drop nl).take nm=m ∧ ((l++m++d++rest).drop (nl+nm)).take nd=d ∧
      (l++m++d++rest).drop (nl+nm+nd)=rest := by
  have hlm : (l++m).length=nl+nm := by rw [List.length_append,hl,hm]
  refine ⟨?_,?_,?_,?_⟩
  · rw [List.append_assoc,List.append_assoc,List.take_left' hl]
  · rw [List.append_assoc,List.append_assoc,List.drop_left' hl,List.take_left' hm]
  · rw [List.append_assoc (l++m),List.drop_left' hlm,List.take_left' hd]
  · exact List.drop_left' (by rw [List.length_append,hlm,hd])

/-- A part of a list at its place. -/
theorem take_drop_append {before part behind all : List UInt8} {k n : ℕ}
    (hall : all=before++(part++behind)) (hk : before.length=k) (hn : part.length=n) :
    (all.drop k).take n=part := by
  rw [hall,List.drop_left' hk,List.take_left' hn]

/-- What was written is read back. -/
theorem readHeader_append (h : header.Fits headerSize) {state tables rest : List UInt8}
    (hstate : encodeV1State header headerSize=some state)
    (hsize : headerSize=32+tables.length) (hfreq : ∀ f∈header.freq.l++header.freq.m++header.freq.d++
      header.freq.literal, f≤1047) (htables : encodeV1FreqTable 0 0
        (header.freq.l++header.freq.m++header.freq.d++header.freq.literal)=some tables)
    (hl : header.freq.l.length=lSymbolCount) (hm : header.freq.m.length=mSymbolCount)
    (hd : header.freq.d.length=dSymbolCount)
    (hliteral : header.freq.literal.length=literalSymbolCount) :
    readHeader (state++tables++rest)=some (header,headerSize) := by
  obtain ⟨block,hblock⟩ : ∃ block, block=state++tables++rest := ⟨_,rfl⟩
  rw [encodeV1State_eq h] at hstate
  have hbytes := Option.some.inj hstate
  have hstateLength : state.length=32 := by
    rw [←hbytes]
    simp only [List.length_append,leBytes_length]
  have hword : ∀ fields, FieldsFit fields → packedWidth fields≤64 →
      leValue (leBytes 8 (packed fields))=packed fields := by
    intro fields hfit hwidth
    exact leValue_leBytes_of_lt (Nat.lt_of_lt_of_le (packed_lt hfit)
      (Nat.pow_le_pow_right Nat.two_pos hwidth))
  have hmagic : leValue (block.take 4)=compressedV2Magic := by
    rw [hblock,←hbytes,List.append_assoc,List.append_assoc,List.append_assoc,List.append_assoc,
      List.append_assoc,List.take_left' (leBytes_length 4 _)]
    exact leValue_leBytes_of_lt (by decide)
  have hraw : leValue ((block.drop 4).take 4)=header.nRawBytes := by
    rw [take_drop_append (by rw [hblock,←hbytes]; simp only [List.append_assoc]; rfl)
      (leBytes_length 4 compressedV2Magic) (leBytes_length 4 header.nRawBytes)]
    exact leValue_leBytes_of_lt h.nRawBytes
  have hfirst : leValue ((block.drop 8).take 8)=packed (Lzfse.literalFields header) := by
    rw [@take_drop_append (leBytes 4 compressedV2Magic++leBytes 4 header.nRawBytes)
      (leBytes 8 (packed (Lzfse.literalFields header))) _ block 8 8
      (by rw [hblock,←hbytes]; simp only [List.append_assoc]; rfl)
      (by simp only [List.length_append,leBytes_length]) (leBytes_length 8 _)]
    exact hword _ h.literalFields (show 63≤64 by decide)
  have hsecond : leValue ((block.drop 16).take 8)=packed (Lzfse.lmdFields header) := by
    rw [@take_drop_append (leBytes 4 compressedV2Magic++leBytes 4 header.nRawBytes++
        leBytes 8 (packed (Lzfse.literalFields header)))
      (leBytes 8 (packed (Lzfse.lmdFields header))) _ block 16 8
      (by rw [hblock,←hbytes]; simp only [List.append_assoc]; rfl)
      (by simp only [List.length_append,leBytes_length]) (leBytes_length 8 _)]
    exact hword _ h.lmdFields (show 63≤64 by decide)
  have hthird : leValue ((block.drop 24).take 8)=packed (Lzfse.stateFields header headerSize) := by
    rw [@take_drop_append (leBytes 4 compressedV2Magic++leBytes 4 header.nRawBytes++
        leBytes 8 (packed (Lzfse.literalFields header))++leBytes 8 (packed (Lzfse.lmdFields header)))
      (leBytes 8 (packed (Lzfse.stateFields header headerSize))) _ block 24 8
      (by rw [hblock,←hbytes]; simp only [List.append_assoc]; rfl)
      (by simp only [List.length_append,leBytes_length]) (leBytes_length 8 _)]
    exact hword _ h.stateFields (show 62≤64 by decide)
  have htake : (block.take headerSize).drop 32=tables := by
    rw [hblock,List.take_left' (by rw [List.length_append,hstateLength,hsize]),
      List.drop_left' hstateLength]
  obtain ⟨bytes,heq,hvalue,hbytesLength⟩ :=
    @encodeV1FreqTable_spec _ hfreq 0 0 (by decide) (by decide)
  rw [htables] at heq
  obtain rfl := Option.some.inj heq
  rw [Nat.zero_add] at hbytesLength
  have hread : freqCode.readAll (lSymbolCount+mSymbolCount+dSymbolCount+literalSymbolCount)
      (leValue tables)=header.freq.l++header.freq.m++header.freq.d++header.freq.literal := by
    have hall := freqCode.readAll_bitsAll hfreq 0
    rw [Nat.mul_zero,Nat.add_zero] at hall
    rw [hvalue,Nat.zero_add,pow_zero,Nat.one_mul]
    simp only [List.length_append,hl,hm,hd,hliteral] at hall
    exact hall
  have hliteralBits : ((7+header.literalBits).toNat : ℤ)-7=header.literalBits := by
    have hbits := h.literalBits
    omega
  have hlmdBits : ((7+header.lmdBits).toNat : ℤ)-7=header.lmdBits := by
    have hbits := h.lmdBits
    omega
  obtain ⟨hf0,hf1,hf2,hf3⟩ := split_append header.freq.literal hl hm hd
  obtain ⟨hliteral0,hliteral1,hliteral2,hliteral3⟩ := h.read_literalFields
  obtain ⟨hlmd0,hlmd1,hlmd2,hlmd3,hlmd4,hlmd5⟩ := h.read_lmdFields
  obtain ⟨hstate0,hstate1,hstate2,hstate3⟩ := h.read_stateFields
  unfold readHeader
  rw [←hblock,if_pos ⟨by rw [hblock,List.length_append,List.length_append,hstateLength]; omega,hmagic⟩]
  dsimp only
  rw [hthird,hstate0,htake,hread,if_pos (by rw [hsize,hbytesLength]),hfirst,hsecond,hraw,hf0,hf1,hf2,
    hf3,hliteral0,hliteral1,hliteral2,hliteral3,hlmd0,hlmd1,hlmd2,hlmd3,hlmd4,hlmd5,hstate1,hstate2,hstate3,hliteralBits,hlmdBits]

end Headers

end Applesauce.Lzfse
