import Applesauce.LzfseRuns
import Applesauce.LzvnRuns

/-!
# Encoding a buffer

Very small sources are taken as they are, small ones by the instructions of the
other compression, and the others by matches and blocks. Where the destination
is too small, the source is taken as it is if it fits, and otherwise nothing is
returned.
-/

namespace Applesauce.Lzfse

open ByteWords

/-- `lzfse_encode_buffer_with_scratch`: what is written, or nothing. -/
def encodeBuffer (tunables : Tunables) (stray : ℤ) (src : List UInt8) (dstSize : ℕ) :
    Option (List UInt8) :=
  if src.length<lzvnMinSrcSize then some (tryUncompressed src dstSize)
  else if src.length<lzvnThreshold then
    if dstSize≤16 then some (tryUncompressed src dstSize)
    else
      (LzvnCodec.encodeBuffer src (dstSize-16)).map fun payload =>
        if payload.length=0 ∨ src.length≤payload.length then tryUncompressed src dstSize
        else leBytes 4 compressedLzvnMagic++leBytes 4 src.length++leBytes 4 payload.length++
          payload++leBytes 4 endOfStreamMagic
  else
    match (encodeBase tunables stray src (encodeInit tunables dstSize)).bind
      (encodeFinish stray src) with
    | .ok s => some s.dst.written
    | .error .dstFull => some (tryUncompressed src dstSize)
    | .error .undefined => none

section Buffers
variable {tunables : Tunables} {src : List UInt8}

/-- Nothing is no stream. -/
theorem decodeStream_ne {lzvnDecode : List UInt8→Option (List UInt8)} {stream out : List UInt8}
    (h : decodeStream lzvnDecode stream=some out) : stream≠[] := by
  rintro rfl
  cases h

/-- What is returned for a source and a destination size: a stream that decodes to the source, or
nothing, if the source itself does not fit. -/
structure Encodes (src : List UInt8) (dstSize : ℕ) (dst : List UInt8) : Prop where
  /-- It is within the destination. -/
  fits : dst.length≤dstSize
  /-- It is decoded. -/
  decodes : dst=[] ∧ dstSize<src.length+12 ∨ decodeStream LzvnCodec.decode dst=some src

/-- The source itself is decoded from where it was put, and it is put wherever it fits. -/
theorem tryUncompressed_encodes (hsize : src.length<2^31-1) (dstSize : ℕ) :
    Encodes src dstSize (tryUncompressed src dstSize) := by
  obtain ⟨hfits,hdecodes⟩ := @tryUncompressed_spec LzvnCodec.decode src dstSize
  refine ⟨hfits,?_⟩
  by_cases hroom : src.length+12≤dstSize
  · refine .inr (hdecodes.resolve_left fun hbad => ?_)
    have hlength := congrArg List.length hbad
    rw [tryUncompressed,if_pos ⟨hroom,hsize⟩] at hlength
    simp only [List.length_append,leBytes_length,List.length_nil] at hlength
    omega
  · rcases hdecodes with hnone|hdecodes
    · exact .inl ⟨hnone,Nat.lt_of_not_le hroom⟩
    · exact .inr hdecodes

/-- For every source and destination size the encoder returns, and what it returns decodes to the
source. -/
theorem encodeBuffer_encodes (stray : ℤ) (hbits : tunables.hashBits≤32)
    (hsize : src.length+maxDValue≤2^31) (dstSize : ℕ) :
    ∃ dst, encodeBuffer tunables stray src dstSize=some dst ∧ Encodes src dstSize dst := by
  have hmax : 0< maxDValue-1 := by decide
  have hraw := @tryUncompressed_encodes src (by omega) dstSize
  unfold encodeBuffer
  by_cases hmin : src.length<lzvnMinSrcSize
  · rw [if_pos hmin]
    exact ⟨_,rfl,hraw⟩
  rw [if_neg hmin]
  by_cases hthreshold : src.length<lzvnThreshold
  · rw [if_pos hthreshold]
    by_cases hextra : dstSize≤16
    · rw [if_pos hextra]
      exact ⟨_,rfl,hraw⟩
    rw [if_neg hextra]
    obtain ⟨payload,hpayload,hfit,hdecodes⟩ := LzvnCodec.encodeBuffer_spec src (dstSize-16)
    rw [hpayload,Option.map_some]
    refine ⟨_,rfl,?_⟩
    by_cases hfailed : payload.length=0 ∨ src.length≤payload.length
    · rw [if_pos hfailed]
      exact hraw
    · rw [if_neg hfailed]
      refine ⟨?_,.inr ?_⟩
      · simp only [List.length_append,leBytes_length]
        omega
      · have hsome : payload≠[] := fun hbad => hfailed (.inl (congrArg List.length hbad))
        have hpos : 0< src.length :=
          Nat.lt_of_lt_of_le (show 0<lzvnMinSrcSize by decide) (Nat.le_of_not_lt hmin)
        have hblock := (@decodes_nil LzvnCodec.decode).lzvn hpos (show src.length<2^32 by omega)
          (show payload.length<2^32 by omega) (hdecodes.resolve_left hsome)
        exact hblock.finish
  · rw [if_neg hthreshold]
    have hinit := @encodeInit_keeps LzvnCodec.decode tunables src dstSize
    have hmin8 : 8≤ src.length := Nat.le_of_not_lt hmin
    have hinitial : (encodeInit tunables dstSize).srcEncodeI=0 := rfl
    unfold encodeBase
    rcases encodeLoop_spec stray hbits hsize hinit
      (show 0+(src.length-8-(encodeInit tunables dstSize).srcEncodeI)+8≤ src.length by omega) with
      ⟨e,he,hkeeps⟩|hfull
    · rw [he,Except.bind]
      rcases encodeFinish_spec stray (by omega) hkeeps with ⟨s,hs,hwritten,hdecodes⟩|hfull
      · rw [hs]
        exact ⟨_,rfl,hwritten,.inr hdecodes⟩
      · rw [hfull]
        exact ⟨_,rfl,hraw⟩
    · rw [hfull]
      exact ⟨_,rfl,hraw⟩

end Buffers

end Applesauce.Lzfse
