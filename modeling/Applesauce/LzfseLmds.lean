import Applesauce.LzfsePayloads

/-!
# The payload of lengths and distances

A value is a symbol and extra bits. The three values of a match are coded by
their own frequencies, one behind the other, and the loop over the matches
is read back as that over the literals is.
-/

namespace Applesauce.Lzfse

open ByteWords BitStack Fse StateSlots

/-- One of the streams of values: its tables agree with each other. -/
structure ValueStream where
  /-- The binary logarithm of the number of states. -/
  n : ℕ
  /-- The largest number of extra bits. -/
  w : ℕ
  /-- The symbol of a value. -/
  fromValue : ℕ→Option ℕ
  /-- The number of extra bits of a symbol. -/
  extraBits : List ℕ
  /-- The base of a symbol. -/
  baseValue : List ℕ
  /-- The frequencies. -/
  freq : List ℕ
  /-- The states are not too many. -/
  n_le : n≤14
  /-- The extra bits are not too many. -/
  w_le : w≤16
  /-- All symbols have extra bits. -/
  extraBits_length : extraBits.length=freq.length
  /-- All symbols have a base. -/
  baseValue_length : baseValue.length=freq.length
  /-- These are the extra bits. -/
  extraBits_le : ∀ x∈extraBits, x≤w
  /-- Each symbol has its states. -/
  freq_sum : freq.sum≤2^n

section Streams
variable (stream : ValueStream)

/-- The symbols of a stream. -/
def ValueStream.symbols : List (ℕ×ℕ×ℤ) :=
  valueSymbols stream.freq stream.extraBits stream.baseValue

/-- The symbols have the frequencies of the stream. -/
theorem ValueStream.symbols_freq : stream.symbols.map (fun x => x.1)=stream.freq := by
  unfold symbols valueSymbols
  refine List.map_fst_zip ?_
  rw [List.length_zip,List.length_map,stream.extraBits_length,stream.baseValue_length,min_self]

/-- The states of the symbols. -/
theorem ValueStream.symbols_sum : (stream.symbols.map fun x => x.1).sum≤2^stream.n := by
  rw [stream.symbols_freq]
  exact stream.freq_sum

/-- A symbol with its extra bits and base. -/
theorem ValueStream.symbols_getElem? {a f bits base : ℕ} (hf : stream.freq[a]?=some f)
    (hbits : stream.extraBits[a]?=some bits) (hbase : stream.baseValue[a]?=some base) :
    stream.symbols[a]?=some (f,bits,(base : ℤ)) := by
  unfold symbols valueSymbols
  rw [List.getElem?_zip_eq_some,List.getElem?_zip_eq_some,List.getElem?_map,hbase]
  exact ⟨hf,hbits,rfl⟩

/-- A symbol has its extra bits and a base. -/
theorem ValueStream.symbols_mem {x : ℕ×ℕ×ℤ} (h : x∈stream.symbols) : x.2.1≤ stream.w ∧ 0≤x.2.2 := by
  unfold symbols valueSymbols at h
  obtain ⟨f,bits,base⟩ := x
  have hrest := (List.of_mem_zip h).2
  obtain ⟨hbits,hbase⟩ := List.of_mem_zip hrest
  obtain ⟨b,_,rfl⟩ := List.mem_map.mp hbase
  exact ⟨stream.extraBits_le _ hbits,Int.natCast_nonneg b⟩

/-- A value of its symbol and extra bits. -/
def ValueStream.parts : Parts ℕ ℕ :=
  valueParts (fun v => (stream.fromValue v).getD 0) stream.symbols

/-- The coder of the values. -/
def ValueStream.coder : Coder ℕ ℕ :=
  (symbolCoder stream.n (stream.symbols.map fun x => x.1) stream.symbols_sum).values stream.parts

/-- A value has a symbol with a state, and is above its base by its extra bits. -/
def ValueStream.Codes (v : ℕ) : Prop :=
  ∃ a, stream.fromValue v=some a ∧ Occurs stream.freq a ∧
    Splits (some a) stream.extraBits stream.baseValue v

end Streams

section Values
variable {stream : ValueStream} {s v : ℕ} {t : Stack} {out : OutStream} {buf : OutBuffer}

/-- A value is encoded as its coder does. -/
theorem encodeValue_refines (stray : ℤ) (hv : stream.Codes v) (hs : s<2^stream.n)
    (hold : out.Holds buf t) (hroom : out.accumNbits+(stream.n+stream.w)<64) : ∃ s' t' out',
      stream.coder.encode s v t=some (s',t') ∧
      encodeValue (stream.fromValue v) stream.extraBits stream.baseValue
        (initEncoderTable stray (2^stream.n) 0 stream.freq) s v out=some (s',out') ∧
      out'.Holds buf t' ∧ s'<2^stream.n ∧
      out'.accumNbits≤out.accumNbits+(stream.n+stream.w) := by
  obtain ⟨a,ha,⟨f,hf,hpos⟩,a',bits,base,haa',hbits,hbase,hlow,hhigh⟩ := hv
  obtain rfl := Option.some.inj haa'
  have hsymbol := stream.symbols_getElem? hf hbits hbase
  have hpart : stream.parts.part v=a := by
    change (stream.fromValue v).getD 0=a
    rw [ha]
    rfl
  have hwidth : stream.parts.width a=bits := by
    change (stream.symbols[a]?.map fun x => x.2.1).getD 0=bits
    rw [hsymbol]
    rfl
  have hrest : stream.parts.rest v=v-base := by
    change v-((stream.symbols[(stream.fromValue v).getD 0]?.map fun x => x.2.2.toNat).getD 0)=v-base
    rw [ha,Option.getD_some,hsymbol]
    rfl
  have hjoin : ∀ x, stream.parts.join a x=base+x := by
    intro x
    change (stream.symbols[a]?.map fun x => x.2.2.toNat).getD 0+x=base+x
    rw [hsymbol]
    rfl
  have hfits : stream.parts.Fits v := by
    unfold Parts.Fits
    rw [hpart,hwidth,hrest,hjoin]
    omega
  have hsmall : bits≤ stream.w := stream.extraBits_le _ (List.mem_of_getElem? hbits)
  have hb : v-base<2^bits := by omega
  have hstack : ∀ n b (h : b<2^n), n=bits → b=v-base → t.push n b h=t.push bits (v-base) hb := by
    rintro n b h rfl rfl
    rfl
  obtain ⟨out₁,hpush,hold₁,hnbits₁⟩ := hold.push hb (by omega)
  obtain ⟨s',t',out',hcode,hencode,hold',hs',hnbits'⟩ := encode_refines stray stream.n_le
    stream.symbols_sum (by rw [stream.symbols_freq]; exact hf) hpos hs hold₁ (by omega)
  refine ⟨s',t',out',?_,?_,hold',hs',by omega⟩
  · change (if h : stream.parts.Fits v then (symbolCoder stream.n _ stream.symbols_sum).encode s
      (stream.parts.part v) (t.push (stream.parts.width (stream.parts.part v)) (stream.parts.rest v)
        h.1) else none)=_
    rw [dif_pos hfits,hstack _ _ hfits.1 (by rw [hpart,hwidth]) hrest,hpart]
    exact hcode
  · rw [stream.symbols_freq] at hencode
    unfold encodeValue
    rw [ha,Option.bind_some,hbits,Option.bind_some,hbase,Option.bind_some,if_pos hlow,hpush,
      Option.bind_some]
    exact hencode

/-- What its coder has encoded is decoded as a value. -/
theorem valueDecode_coder {s' : ℕ} {t' : Stack} (h : stream.coder.decode s t=some (v,s',t'))
    {input : InStream} {bytes : List UInt8} (hold : input.Holds bytes t)
    (hroom : stream.n+stream.w≤ input.accumNbits) : ∃ input',
      valueDecode (initValueDecoderTable (2^stream.n) stream.symbols) s input=
        some ((v : ℤ),s',input') ∧
      input'.Holds bytes t' ∧ input'.accumNbits≤ input.accumNbits ∧
      input.accumNbits≤ input'.accumNbits+(stream.n+stream.w) :=
  valueDecode_refines stream.n_le stream.w_le stream.symbols_sum (fun _ hx => (stream.symbols_mem hx).1)
    (fun _ hx => (stream.symbols_mem hx).2) h hold hroom

end Values

/-- The three streams of a block. -/
structure LmdStreams where
  /-- Lengths of literals. -/
  l : ValueStream
  /-- Lengths of matches. -/
  m : ValueStream
  /-- Distances. -/
  d : ValueStream
  /-- The symbols of lengths of literals. -/
  l_eq : l.fromValue=lBaseFromValue ∧ l.extraBits=lExtraBits ∧ l.baseValue=lBaseValue
  /-- The symbols of lengths of matches. -/
  m_eq : m.fromValue=mBaseFromValue ∧ m.extraBits=mExtraBits ∧ m.baseValue=mBaseValue
  /-- The symbols of distances. -/
  d_eq : d.fromValue=dBaseFromValue ∧ d.extraBits=dExtraBits ∧ d.baseValue=dBaseValue
  /-- The stream of a match fits into what was flushed. -/
  bits_le : l.n+l.w+(m.n+m.w)+(d.n+d.w)≤56

section Matches
variable (streams : LmdStreams) {t : Stack} {out : OutStream} {buf : OutBuffer}

/-- The values of a match. -/
def valuesOf (v : Lmd) : ℕ×ℕ×ℕ := (v.l,v.m,v.d)

/-- The coder of a match. -/
def LmdStreams.coder : Coder (ℕ×ℕ×ℕ) (ℕ×ℕ×ℕ) :=
  streams.l.coder.pair (streams.m.coder.pair streams.d.coder)

/-- The encoder tables. -/
def LmdStreams.encoders (stray : ℤ) : LmdEncoders :=
  ⟨initEncoderTable stray (2^streams.l.n) 0 streams.l.freq,
    initEncoderTable stray (2^streams.m.n) 0 streams.m.freq,
    initEncoderTable stray (2^streams.d.n) 0 streams.d.freq⟩

/-- The decoder tables. -/
def LmdStreams.decoders : LmdDecoders :=
  ⟨initValueDecoderTable (2^streams.l.n) streams.l.symbols,
    initValueDecoderTable (2^streams.m.n) streams.m.symbols,
    initValueDecoderTable (2^streams.d.n) streams.d.symbols⟩

/-- The values of a match have codes. -/
def LmdStreams.Codes (v : Lmd) : Prop :=
  streams.l.Codes v.l ∧ streams.m.Codes v.m ∧ streams.d.Codes v.d

/-- The states are those of the tables. -/
def LmdStreams.StatesFit (states : ℕ×ℕ×ℕ) : Prop :=
  states.1<2^streams.l.n ∧ states.2.1<2^streams.m.n ∧ states.2.2<2^streams.d.n

/-- The most bits of a match. -/
def LmdStreams.bits : ℕ :=
  streams.l.n+streams.l.w+(streams.m.n+streams.m.w)+(streams.d.n+streams.d.w)

/-- A match is encoded as its coder does. -/
theorem encodeLmd_refines (stray : ℤ) {states : ℕ×ℕ×ℕ} (hstates : streams.StatesFit states)
    {v : Lmd} (hv : streams.Codes v) (hold : out.Holds buf t)
    (hroom : out.accumNbits+streams.bits<64) : ∃ states' t' out',
      streams.coder.encode states (valuesOf v) t=some (states',t') ∧
      encodeLmd (streams.encoders stray) states v out=some (states',out') ∧
      out'.Holds buf t' ∧ streams.StatesFit states' ∧
      out'.accumNbits≤out.accumNbits+streams.bits := by
  obtain ⟨sl,sm,sd⟩ := states
  obtain ⟨hsl,hsm,hsd⟩ := hstates
  obtain ⟨hl,hm,hd⟩ := hv
  unfold LmdStreams.bits at hroom ⊢
  dsimp only at hsl hsm hsd
  obtain ⟨rd,td,outd,hcd,hed,holdd,hrd,hbd⟩ := encodeValue_refines stray hd hsd hold (by omega)
  obtain ⟨rm,tm,outm,hcm,hem,holdm,hrm,hbm⟩ := encodeValue_refines stray hm hsm holdd (by omega)
  obtain ⟨rl,tl,outl,hcl,hel,holdl,hrl,hbl⟩ := encodeValue_refines stray hl hsl holdm (by omega)
  refine ⟨(rl,rm,rd),tl,outl,?_,?_,holdl,⟨hrl,hrm,hrd⟩,by omega⟩
  · exact Coder.pair_encode _ _ (Coder.pair_encode _ _ hcd hcm) hcl
  · rw [streams.d_eq.1,streams.d_eq.2.1,streams.d_eq.2.2] at hed
    rw [streams.m_eq.1,streams.m_eq.2.1,streams.m_eq.2.2] at hem
    rw [streams.l_eq.1,streams.l_eq.2.1,streams.l_eq.2.2] at hel
    unfold encodeLmd LmdStreams.encoders
    dsimp only
    rw [hed,Option.bind_some,hem,Option.bind_some,hel,Option.map_some]

/-- What the loop over the matches has done, as a run of the coder on what was there before. -/
structure LmdsDone (before : List UInt8) (buf : OutBuffer) (lmds : List Lmd)
    (r : (ℕ×ℕ×ℕ)×OutStream×OutBuffer) (t : Stack) : Prop where
  /-- The coder has encoded all. -/
  encoded : streams.coder.encodeAll (0,0,0) (lmds.map valuesOf)
    (ofBytes (before++buf.written))=some (r.1,t)
  /-- The stream holds it. -/
  holds : r.2.1.Holds (behind before r.2.2) t
  /-- The final states are those of the tables. -/
  states : streams.StatesFit r.1
  /-- The stream was flushed. -/
  flushed : r.2.1.accumNbits≤7
  /-- The buffer has its size. -/
  room : r.2.2.room=buf.room
  /-- There is room for what the stream still has. -/
  last : lmds≠[] → r.2.2.written.length+8≤r.2.2.room
  /-- What was written. -/
  size : 8*r.2.2.written.length+r.2.1.accumNbits≤8*buf.written.length+streams.bits*lmds.length

/-- The loop over the matches encodes them, or the destination is full. -/
theorem encodeLmds_refines (stray : ℤ) (before : List UInt8) (buf : OutBuffer) {lmds : List Lmd}
    (hcodes : ∀ v∈lmds, streams.Codes v) :
    (∃ r t, encodeLmds (streams.encoders stray) lmds buf=.ok r ∧
      LmdsDone streams before buf lmds r t) ∨
    encodeLmds (streams.encoders stray) lmds buf=.error .dstFull := by
  have hbits : streams.bits≤56 := streams.bits_le
  induction lmds with
  | nil =>
    exact .inl ⟨((0,0,0),OutStream.init,buf),ofBytes (before++buf.written),rfl,rfl,
      OutStream.holds_init _,⟨Nat.two_pow_pos _,Nat.two_pow_pos _,Nat.two_pow_pos _⟩,Nat.zero_le 7,
      rfl,fun hbad => absurd rfl hbad,Nat.le_add_right _ _⟩
  | cons v lmds ih =>
    obtain ⟨hv,hcodes⟩ := List.forall_mem_cons.mp hcodes
    rw [encodeLmds]
    rcases ih hcodes with ⟨r,t,hr,hdone⟩|hfull
    · rw [hr,Except.bind]
      by_cases hroom : r.2.2.room<r.2.2.written.length+16
      · rw [if_pos hroom]
        exact .inr rfl
      · rw [if_neg hroom]
        have hflushed := hdone.flushed
        have hsize := hdone.size
        obtain ⟨states,t',out,hcode,hencode,hold,hstates,hnbits⟩ :=
          encodeLmd_refines streams stray hdone.states hv hdone.holds (by omega)
        obtain ⟨out',buf',hflush,hold',hflushed',hroom',hsum'⟩ :=
          holds_flush_behind before hold (by omega) (by omega)
        rw [hencode,defined,Except.bind]
        dsimp only
        rw [hflush,defined,Except.bind]
        refine .inl ⟨_,t',rfl,?_,hold',hstates,hflushed',?_,?_,?_⟩
        · rw [List.map_cons,Coder.encodeAll,hdone.encoded,Option.bind_some]
          exact hcode
        · exact hroom'.trans hdone.room
        · intro _
          dsimp only
          omega
        · rw [List.length_cons]
          dsimp only
          rw [Nat.mul_add]
          omega
    · rw [hfull]
      exact .inr rfl

/-- What the coder has encoded is read, the match that was encoded last first. -/
theorem readLmds_encodeAll {lmds : List Lmd} {s s' : ℕ×ℕ×ℕ} {t t' : Stack}
    (h : streams.coder.encodeAll s (lmds.map valuesOf) t=some (s',t')) (hbase : 63≤t.height)
    {input : InStream} {bytes : List UInt8} (hold : input.Holds bytes t')
    (hlt : input.accumNbits≤63) :
    readLmds streams.decoders lmds.length s' input bytes=some lmds := by
  have hbits := streams.bits_le
  induction lmds generalizing s' t' input bytes with
  | nil => rfl
  | cons v lmds ih =>
    rw [List.map_cons] at h
    obtain ⟨r,hr,h⟩ := Option.bind_eq_some_iff.mp h
    obtain ⟨⟨sl,sm,sd⟩,t₁⟩ := r
    obtain ⟨sl',sm',sd'⟩ := s'
    have hlong : 63≤t'.height := Nat.le_trans hbase (Nat.le_trans (Coder.encodeAll_height_le _ hr)
      (streams.coder.height_le h))
    obtain ⟨input₀,rest,hflush,hold₀,hlow₀,hhigh₀⟩ := hold.checkedFlush hlt hlong
    have hdecode := streams.coder.decode_encode h
    obtain ⟨ta,hdl,hdecode⟩ := Coder.pair_decode _ _ hdecode
    obtain ⟨tb,hdm,hdd⟩ := Coder.pair_decode _ _ hdecode
    obtain ⟨inputl,hel,holdl,hkl,hbl⟩ := valueDecode_coder hdl hold₀ (by omega)
    obtain ⟨inputm,hem,holdm,hkm,hbm⟩ := valueDecode_coder hdm holdl (by omega)
    obtain ⟨inputd,hed,holdd,hkd,hbd⟩ := valueDecode_coder hdd holdm (by omega)
    have hrest := ih hr holdd (by omega)
    rw [List.length_cons,readLmds,hflush,Option.bind_some]
    dsimp only [LmdStreams.decoders] at hrest ⊢
    rw [hel,Option.bind_some]
    dsimp only
    rw [hem,Option.bind_some]
    dsimp only
    rw [hed,Option.bind_some]
    dsimp only
    rw [hrest,Option.map_some]
    rfl

end Matches

end Applesauce.Lzfse
