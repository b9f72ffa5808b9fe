import Applesauce.FseTables
import Applesauce.LzfseReader

/-!
# Payloads are read back

The loops over the literals and over the matches encode lists with coders of
several states on one stack of bits. They stop only where the destination is
full, and what they have written is read back from its end with the final
states.
-/

namespace Applesauce.Lzfse

open ByteWords BitStack Fse StateSlots

section Buffers
variable {buf : OutBuffer} {out : OutStream} {t : Stack} (before : List UInt8)

/-- A buffer together with what is before it. -/
def behind (before : List UInt8) (buf : OutBuffer) : OutBuffer :=
  ⟨before++buf.written,before.length+buf.room⟩

/-- Storing does not depend on what is before a buffer. -/
theorem store_behind (x count : ℕ) :
    (behind before buf).store x count=(buf.store x count).map (behind before) := by
  unfold OutBuffer.store behind
  dsimp only
  rw [List.length_append]
  by_cases h : buf.written.length+8≤buf.room
  · rw [if_pos h,if_pos (by omega),Option.map_some,List.append_assoc]
  · rw [if_neg h,if_neg (by omega),Option.map_none]

/-- Flushing does not depend on what is before a buffer. -/
theorem flush_behind : out.flush (behind before buf)=
    (out.flush buf).map fun r => (r.1,behind before r.2) := by
  unfold OutStream.flush
  dsimp only
  rw [store_behind]
  cases buf.store out.accum ((out.accumNbits/8*8)>>>3) with
  | none => rfl
  | some buf' =>
    rw [Option.map_some,Option.bind_some,Option.bind_some]
    split <;> rfl

/-- Finishing does not depend on what is before a buffer. -/
theorem finish_behind : out.finish (behind before buf)=
    (out.finish buf).map fun r => (r.1,behind before r.2) := by
  unfold OutStream.finish
  dsimp only
  rw [store_behind]
  cases buf.store out.accum (((out.accumNbits+7)/8*8)>>>3) with
  | none => rfl
  | some buf' =>
    rw [Option.map_some,Option.bind_some,Option.bind_some]
    split <;> rfl

/-- Flushing a stream behind other bytes. -/
theorem holds_flush_behind (h : out.Holds (behind before buf) t) (hlt : out.accumNbits<64)
    (hroom : buf.written.length+8≤buf.room) : ∃ out' buf', out.flush buf=some (out',buf') ∧
      out'.Holds (behind before buf') t ∧ out'.accumNbits≤7 ∧ buf'.room=buf.room ∧
      8*buf'.written.length+out'.accumNbits=8*buf.written.length+out.accumNbits := by
  have hroom' : (behind before buf).written.length+8≤(behind before buf).room := by
    unfold behind
    rw [List.length_append]
    dsimp only
    omega
  obtain ⟨out',all,hflush,hold,hbits,hsize,_,hsum⟩ := h.flush hlt hroom'
  rw [flush_behind] at hflush
  obtain ⟨r,hr,hrest⟩ := Option.map_eq_some_iff.mp hflush
  obtain ⟨out,buf'⟩ := r
  obtain ⟨rfl,rfl⟩ := Prod.mk.inj hrest
  unfold behind at hsize hsum
  dsimp only at hsize hsum
  rw [List.length_append,List.length_append] at hsum
  exact ⟨out,buf',hr,hold,hbits,by omega,by omega⟩

/-- Finishing a stream behind other bytes. -/
theorem holds_finish_behind (h : out.Holds (behind before buf) t) (hlt : out.accumNbits<64)
    (hroom : buf.written.length+8≤buf.room) : ∃ n buf', out.finish buf=some (n,buf') ∧
      leValue (before++buf'.written)=t.value ∧
      (t.height : ℤ)=8*(before++buf'.written).length+n ∧ -7≤n ∧ n≤0 ∧ buf'.room=buf.room ∧
      8*buf'.written.length≤8*buf.written.length+out.accumNbits+7 := by
  have hroom' : (behind before buf).written.length+8≤(behind before buf).room := by
    unfold behind
    rw [List.length_append]
    dsimp only
    omega
  obtain ⟨n,all,hfinish,hvalue,hheight,hlow,hhigh,hsize,_,hsum⟩ := h.finish hlt hroom'
  rw [finish_behind] at hfinish
  obtain ⟨r,hr,hrest⟩ := Option.map_eq_some_iff.mp hfinish
  obtain ⟨m,buf'⟩ := r
  obtain ⟨rfl,rfl⟩ := Prod.mk.inj hrest
  unfold behind at hsize hsum
  dsimp only at hsize hsum
  rw [List.length_append,List.length_append] at hsum
  exact ⟨m,buf',hr,hvalue,hheight,hlow,hhigh,by omega,by omega⟩

end Buffers

section Literals
variable {n : ℕ} {freq : List ℕ} {t : Stack} {out : OutStream} {buf : OutBuffer}

/-- A symbol has a state. -/
def Occurs (freq : List ℕ) (a : ℕ) : Prop := ∃ f, freq[a]?=some f ∧ 0<f

/-- Four symbols with a state each. -/
def fourCoder (n : ℕ) (freq : List ℕ) (hsum : freq.sum≤2^n) : Coder (ℕ×ℕ×ℕ×ℕ) (ℕ×ℕ×ℕ×ℕ) :=
  (symbolCoder n freq hsum).pair ((symbolCoder n freq hsum).pair
    ((symbolCoder n freq hsum).pair (symbolCoder n freq hsum)))

/-- The states are those of the tables. -/
def StatesFit (n : ℕ) (states : ℕ×ℕ×ℕ×ℕ) : Prop :=
  states.1<2^n ∧ states.2.1<2^n ∧ states.2.2.1<2^n ∧ states.2.2.2<2^n

/-- The symbols of four bytes. -/
def symbolsOf (b : UInt8×UInt8×UInt8×UInt8) : ℕ×ℕ×ℕ×ℕ :=
  (b.1.toNat,b.2.1.toNat,b.2.2.1.toNat,b.2.2.2.toNat)

/-- Four bytes are encoded as their coder does. -/
theorem encodeFour_refines (stray : ℤ) (hn : n≤14) (hsum : freq.sum≤2^n) {states : ℕ×ℕ×ℕ×ℕ}
    (hstates : StatesFit n states) {b : UInt8×UInt8×UInt8×UInt8}
    (h0 : Occurs freq b.1.toNat) (h1 : Occurs freq b.2.1.toNat) (h2 : Occurs freq b.2.2.1.toNat)
    (h3 : Occurs freq b.2.2.2.toNat) (hold : out.Holds buf t) (hroom : out.accumNbits+4*n<64) :
    ∃ states' t' out', (fourCoder n freq hsum).encode states (symbolsOf b) t=some (states',t') ∧
      encodeFour (initEncoderTable stray (2^n) 0 freq) states b out=some (states',out') ∧
      out'.Holds buf t' ∧ StatesFit n states' ∧ out'.accumNbits≤out.accumNbits+4*n := by
  obtain ⟨s0,s1,s2,s3⟩ := states
  obtain ⟨hs0,hs1,hs2,hs3⟩ := hstates
  obtain ⟨f0,hf0,hpos0⟩ := h0
  obtain ⟨f1,hf1,hpos1⟩ := h1
  obtain ⟨f2,hf2,hpos2⟩ := h2
  obtain ⟨f3,hf3,hpos3⟩ := h3
  dsimp only at hs0 hs1 hs2 hs3
  obtain ⟨r3,t3,out3,hc3,he3,hold3,hr3,hb3⟩ :=
    encode_refines stray hn hsum hf3 hpos3 hs3 hold (by omega)
  obtain ⟨r2,t2,out2,hc2,he2,hold2,hr2,hb2⟩ :=
    encode_refines stray hn hsum hf2 hpos2 hs2 hold3 (by omega)
  obtain ⟨r1,t1,out1,hc1,he1,hold1,hr1,hb1⟩ :=
    encode_refines stray hn hsum hf1 hpos1 hs1 hold2 (by omega)
  obtain ⟨r0,t0,out0,hc0,he0,hold0,hr0,hb0⟩ :=
    encode_refines stray hn hsum hf0 hpos0 hs0 hold1 (by omega)
  refine ⟨(r0,r1,r2,r3),t0,out0,?_,?_,hold0,⟨hr0,hr1,hr2,hr3⟩,by omega⟩
  · exact Coder.pair_encode _ _ (Coder.pair_encode _ _ (Coder.pair_encode _ _ hc3 hc2) hc1) hc0
  · unfold encodeFour
    dsimp only
    rw [he3,Option.bind_some,he2,Option.bind_some,he1,Option.bind_some,he0,Option.map_some]

/-- The literals four at a time. -/
def quads : List UInt8→List (UInt8×UInt8×UInt8×UInt8)
  | b0::b1::b2::b3::literals => (b0,b1,b2,b3)::quads literals
  | _ => []

/-- What the loop over the literals has done, as a run of the coder on what was there before. -/
structure LiteralsDone (n : ℕ) (freq : List ℕ) (hsum : freq.sum≤2^n) (before : List UInt8)
    (buf : OutBuffer) (literals : List UInt8) (r : (ℕ×ℕ×ℕ×ℕ)×OutStream×OutBuffer) (t : Stack) :
    Prop where
  /-- The coder has encoded all. -/
  encoded : (fourCoder n freq hsum).encodeAll (0,0,0,0) ((quads literals).map symbolsOf)
    (ofBytes (before++buf.written))=some (r.1,t)
  /-- The stream holds it. -/
  holds : r.2.1.Holds (behind before r.2.2) t
  /-- The final states are those of the tables. -/
  states : StatesFit n r.1
  /-- The stream was flushed. -/
  flushed : r.2.1.accumNbits≤7
  /-- The buffer has its size. -/
  room : r.2.2.room=buf.room
  /-- There is room for what the stream still has. -/
  last : buf.written.length+8≤buf.room → r.2.2.written.length+8≤r.2.2.room
  /-- What was written. -/
  size : 8*r.2.2.written.length+r.2.1.accumNbits≤8*buf.written.length+4*n*(quads literals).length

/-- The loop over the literals encodes them, or the destination is full. -/
theorem encodeLiterals_refines (stray : ℤ) (hn : n≤14) (hsum : freq.sum≤2^n)
    (before : List UInt8) (buf : OutBuffer) {literals : List UInt8}
    (hoccurs : ∀ b∈literals, Occurs freq b.toNat) :
    (∃ r t, encodeLiterals (initEncoderTable stray (2^n) 0 freq) literals buf=.ok r ∧
      LiteralsDone n freq hsum before buf literals r t) ∨
    encodeLiterals (initEncoderTable stray (2^n) 0 freq) literals buf=.error .dstFull := by
  induction literals using quads.induct with
  | case1 b0 b1 b2 b3 literals ih =>
    obtain ⟨h0,hoccurs⟩ := List.forall_mem_cons.mp hoccurs
    obtain ⟨h1,hoccurs⟩ := List.forall_mem_cons.mp hoccurs
    obtain ⟨h2,hoccurs⟩ := List.forall_mem_cons.mp hoccurs
    obtain ⟨h3,hoccurs⟩ := List.forall_mem_cons.mp hoccurs
    rw [encodeLiterals]
    rcases ih hoccurs with ⟨r,t,hr,hdone⟩|hfull
    · rw [hr,Except.bind]
      by_cases hroom : r.2.2.room<r.2.2.written.length+16
      · rw [if_pos hroom]
        exact .inr rfl
      · rw [if_neg hroom]
        have hflushed := hdone.flushed
        have hsize := hdone.size
        obtain ⟨states,t',out,hcode,hencode,hold,hstates,hnbits⟩ :=
          @encodeFour_refines n freq t r.2.1 (behind before r.2.2) stray hn hsum r.1 hdone.states
            (b0,b1,b2,b3) h0 h1 h2 h3 hdone.holds (by omega)
        obtain ⟨out',buf',hflush,hold',hflushed',hroom',hsum'⟩ :=
          holds_flush_behind before hold (by omega) (by omega)
        rw [hencode,defined,Except.bind]
        dsimp only
        rw [hflush,defined,Except.bind]
        refine .inl ⟨_,t',rfl,?_,hold',hstates,hflushed',?_,?_,?_⟩
        · rw [quads,List.map_cons,Coder.encodeAll,hdone.encoded,Option.bind_some]
          exact hcode
        · exact hroom'.trans hdone.room
        · intro _
          dsimp only
          omega
        · rw [quads,List.length_cons]
          dsimp only
          rw [Nat.mul_add]
          omega
    · rw [hfull]
      exact .inr rfl
  | case2 literals hshort =>
    have hquads : quads literals=[] := quads.eq_2 literals hshort
    refine .inl ⟨((0,0,0,0),OutStream.init,buf),ofBytes (before++buf.written),
      encodeLiterals.eq_2 _ literals buf hshort,?_,
      OutStream.holds_init _,⟨Nat.two_pow_pos n,Nat.two_pow_pos n,Nat.two_pow_pos n,
        Nat.two_pow_pos n⟩,Nat.zero_le 7,rfl,id,?_⟩
    · rw [hquads]
      rfl
    · exact Nat.le_add_right _ _

/-- The bytes of four. -/
def bytesOf (b : UInt8×UInt8×UInt8×UInt8) : List UInt8 := [b.1,b.2.1,b.2.2.1,b.2.2.2]

/-- A multiple of four literals is all of them. -/
theorem quads_bytes {literals : List UInt8} (h : literals.length%4=0) :
    (quads literals).flatMap bytesOf=literals ∧ 4*(quads literals).length=literals.length := by
  induction literals using quads.induct with
  | case1 b0 b1 b2 b3 literals ih =>
    simp only [List.length_cons] at h
    obtain ⟨hbytes,hlength⟩ := ih (by omega)
    rw [quads,List.flatMap_cons,hbytes]
    refine ⟨rfl,?_⟩
    simp only [List.length_cons]
    omega
  | case2 literals hshort =>
    rw [quads.eq_2 literals hshort]
    rcases literals with _|⟨b0,_|⟨b1,_|⟨b2,_|⟨b3,literals⟩⟩⟩⟩
    · exact ⟨rfl,rfl⟩
    · exact absurd h (by simp)
    · exact absurd h (by simp)
    · exact absurd h (by simp)
    · exact (hshort b0 b1 b2 b3 literals rfl).elim

/-- What the coder has encoded is read, the literals that were encoded last first. -/
theorem readLiterals_encodeAll (hn : n≤14) (hsum : freq.sum≤2^n) (hsymbols : freq.length≤256)
    {table : List DecoderEntry} (htable : initDecoderTable (2^n) 0 0 freq=some table)
    {as : List (UInt8×UInt8×UInt8×UInt8)} {s s' : ℕ×ℕ×ℕ×ℕ} {t t' : Stack}
    (h : (fourCoder n freq hsum).encodeAll s (as.map symbolsOf) t=some (s',t'))
    (hbase : 63≤t.height) {input : InStream} {buf : List UInt8} (hold : input.Holds buf t')
    (hlt : input.accumNbits≤63) :
    readLiterals table as.length s' input buf=some (as.flatMap bytesOf) := by
  induction as generalizing s' t' input buf with
  | nil => rfl
  | cons a as ih =>
    rw [List.map_cons] at h
    obtain ⟨r,hr,h⟩ := Option.bind_eq_some_iff.mp h
    obtain ⟨⟨s0,s1,s2,s3⟩,t₁⟩ := r
    obtain ⟨s0',s1',s2',s3'⟩ := s'
    have hlong : 63≤t'.height := Nat.le_trans hbase (Nat.le_trans (Coder.encodeAll_height_le _ hr)
      ((fourCoder n freq hsum).height_le h))
    obtain ⟨input₀,rest,hflush,hold₀,hlow₀,hhigh₀⟩ := hold.checkedFlush hlt hlong
    have hdecode := (fourCoder n freq hsum).decode_encode h
    obtain ⟨ta,hd0,hdecode⟩ := Coder.pair_decode _ _ hdecode
    obtain ⟨tb,hd1,hdecode⟩ := Coder.pair_decode _ _ hdecode
    obtain ⟨tc,hd2,hd3⟩ := Coder.pair_decode _ _ hdecode
    obtain ⟨input₁,he0,hold₁,hk0,hb0⟩ :=
      decode_refines hn hsum hsymbols hd0 htable hold₀ (by omega)
    obtain ⟨input₂,he1,hold₂,hk1,hb1⟩ :=
      decode_refines hn hsum hsymbols hd1 htable hold₁ (by omega)
    obtain ⟨input₃,he2,hold₃,hk2,hb2⟩ :=
      decode_refines hn hsum hsymbols hd2 htable hold₂ (by omega)
    obtain ⟨input₄,he3,hold₄,hk3,hb3⟩ :=
      decode_refines hn hsum hsymbols hd3 htable hold₃ (by omega)
    have hrest := ih hr hold₄ (by omega)
    rw [List.length_cons,readLiterals,hflush,Option.bind_some]
    dsimp only
    rw [he0,Option.bind_some]
    dsimp only
    rw [he1,Option.bind_some]
    dsimp only
    rw [he2,Option.bind_some]
    dsimp only
    rw [he3,Option.bind_some]
    dsimp only
    rw [hrest,Option.map_some,List.flatMap_cons]
    simp only [UInt8.ofNat_toNat]
    rfl

end Literals

end Applesauce.Lzfse
