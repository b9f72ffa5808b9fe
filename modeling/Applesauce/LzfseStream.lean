import Applesauce.LzExpansion
import Applesauce.LzfseBlocks
import Applesauce.LzfseEncoder

/-!
# Reading a stream

A stream is a number of blocks and the mark of its end. What has been decoded
so far is what the matches of a block refer to. A prefix of a stream that holds
whole blocks stands for the bytes that they hold, whatever comes behind it.
-/

namespace Applesauce.Lzfse

open ByteWords Fse LzExpansion

/-- Decode the blocks from a place on, with what was decoded before. The blocks of the other
compression are read by a parameter. -/
def decodeBlocks (lzvnDecode : List UInt8→Option (List UInt8)) :
    ℕ→List UInt8→List UInt8→List UInt8→Option (List UInt8)
  | 0,_,_,_ => none
  | fuel+1,before,stream,out =>
    let magic := leValue (stream.take 4)
    if stream.length<4 then none
    else if magic=endOfStreamMagic then some out
    else if magic=compressedV2Magic then
      (readBlock before stream).bind fun r =>
      (expand (r.2.1.map valuesOf) r.1 out).bind fun q =>
        decodeBlocks lzvnDecode fuel (before++stream.take (stream.length-r.2.2.length)) r.2.2 q.2
    else if magic=uncompressedMagic then
      let n := leValue ((stream.drop 4).take 4)
      if stream.length<8+n then none
      else decodeBlocks lzvnDecode fuel (before++stream.take (8+n)) (stream.drop (8+n))
        (out++(stream.drop 8).take n)
    else if magic=compressedLzvnMagic then
      let nRawBytes := leValue ((stream.drop 4).take 4)
      let n := leValue ((stream.drop 8).take 4)
      if stream.length<12+n then none
      else
        (lzvnDecode ((stream.drop 12).take n)).bind fun bytes =>
        if 0<nRawBytes ∧ bytes.length=nRawBytes then
          decodeBlocks lzvnDecode fuel (before++stream.take (12+n)) (stream.drop (12+n)) (out++bytes)
        else none
    else none

/-- Decode a stream. -/
def decodeStream (lzvnDecode : List UInt8→Option (List UInt8)) (stream : List UInt8) :
    Option (List UInt8) :=
  decodeBlocks lzvnDecode (stream.length+1) [] stream []

section Streams
variable {lzvnDecode : List UInt8→Option (List UInt8)} {bytes out : List UInt8}

/-- The bytes are whole blocks that hold what was decoded. -/
def Decodes (lzvnDecode : List UInt8→Option (List UInt8)) (bytes out : List UInt8) : Prop :=
  ∃ k, k≤bytes.length ∧ ∀ fuel stream, decodeBlocks lzvnDecode (fuel+k) [] (bytes++stream) []=
    decodeBlocks lzvnDecode fuel bytes stream out

/-- No blocks hold nothing. -/
theorem decodes_nil : Decodes lzvnDecode [] [] := ⟨0,Nat.le_refl 0,fun _ _ => rfl⟩

/-- One more step of the reader. -/
theorem Decodes.step (h : Decodes lzvnDecode bytes out) {block out' : List UInt8} (hne : block≠[])
    (hstep : ∀ fuel stream, decodeBlocks lzvnDecode (fuel+1) bytes (block++stream) out=
      decodeBlocks lzvnDecode fuel (bytes++block) stream out') :
    Decodes lzvnDecode (bytes++block) out' := by
  obtain ⟨k,hk,hsteps⟩ := h
  have hpos := List.length_pos_iff.mpr hne
  refine ⟨k+1,by rw [List.length_append]; omega,fun fuel stream => ?_⟩
  rw [List.append_assoc,show fuel+(k+1)=fuel+1+k by omega,hsteps,hstep]

/-- A header that was read has its mark and its size. -/
theorem readHeader_some {block : List UInt8} {r : BlockHeader×ℕ} (h : readHeader block=some r) :
    32≤block.length ∧ leValue (block.take 4)=compressedV2Magic := by
  unfold readHeader at h
  exact (Option.ite_none_right_eq_some.mp h).1

/-- A compressed block goes on with what was decoded before. -/
theorem Decodes.block (h : Decodes lzvnDecode bytes out) {block literals left out' : List UInt8}
    {lmds : List Lmd} (hreads : ∀ rest, readBlock bytes (block++rest)=some (literals,lmds,rest))
    (hexpand : expand (lmds.map valuesOf) literals out=some (left,out')) :
    Decodes lzvnDecode (bytes++block) out' := by
  have hheader : ∀ rest, 32≤(block++rest).length ∧
      leValue ((block++rest).take 4)=compressedV2Magic := by
    intro rest
    obtain ⟨r,hr,_⟩ := Option.bind_eq_some_iff.mp (hreads rest)
    exact readHeader_some hr
  have hlong := (hheader []).1
  rw [List.append_nil] at hlong
  refine h.step (by rintro rfl; exact absurd hlong (by decide)) fun fuel stream => ?_
  have hsize : (block++stream).length-stream.length=block.length := by
    rw [List.length_append,Nat.add_sub_cancel]
  rw [decodeBlocks]
  dsimp only
  rw [if_neg (by rw [List.length_append]; omega),(hheader stream).2,if_neg (by decide),if_pos rfl,
    hreads stream,Option.bind_some]
  dsimp only
  rw [hexpand,Option.bind_some,hsize,List.take_left' rfl]

/-- The end of a stream. -/
theorem Decodes.finish (h : Decodes lzvnDecode bytes out) :
    decodeStream lzvnDecode (bytes++leBytes 4 endOfStreamMagic)=some out := by
  obtain ⟨k,hk,hsteps⟩ := h
  unfold decodeStream
  rw [List.length_append,leBytes_length,show bytes.length+4+1=bytes.length+4-k+1+k by omega,hsteps]
  rfl

/-- A block of the bytes themselves. -/
theorem Decodes.uncompressed (h : Decodes lzvnDecode bytes out) {raw : List UInt8}
    (hraw : raw.length<2^32) : Decodes lzvnDecode
      (bytes++(leBytes 4 uncompressedMagic++leBytes 4 raw.length++raw)) (out++raw) := by
  refine h.step (fun hbad => ?_) fun fuel stream => ?_
  · have hlength := congrArg List.length hbad
    simp only [List.length_append,leBytes_length,List.length_nil] at hlength
    omega
  · have hmagic : ((leBytes 4 uncompressedMagic++leBytes 4 raw.length++raw)++stream).take 4=
        leBytes 4 uncompressedMagic := by
      rw [List.append_assoc,List.append_assoc,List.take_left' (leBytes_length _ _)]
    have hsize : (((leBytes 4 uncompressedMagic++leBytes 4 raw.length++raw)++stream).drop 4).take 4=
        leBytes 4 raw.length := take_drop_append
      (by simp only [List.append_assoc]; rfl) (leBytes_length 4 uncompressedMagic) (leBytes_length 4 _)
    have hdata : (((leBytes 4 uncompressedMagic++leBytes 4 raw.length++raw)++stream).drop 8).take
        raw.length=raw := @take_drop_append (leBytes 4 uncompressedMagic++leBytes 4 raw.length) raw
      stream _ 8 raw.length (by simp only [List.append_assoc])
      (by simp only [List.length_append,leBytes_length]) rfl
    have hlength : (leBytes 4 uncompressedMagic++leBytes 4 raw.length++raw).length=8+raw.length := by
      simp only [List.length_append,leBytes_length]
    have hvalue : leValue (leBytes 4 raw.length)=raw.length := leValue_leBytes_of_lt hraw
    have hmagicValue : leValue (leBytes 4 uncompressedMagic)=uncompressedMagic :=
      leValue_leBytes_of_lt (by decide)
    rw [decodeBlocks]
    dsimp only
    rw [hmagic,hsize,hvalue,hdata,hmagicValue,List.take_left' hlength,List.drop_left' hlength,
      if_neg (by rw [List.length_append,hlength]; omega),if_neg (by decide),if_neg (by decide),
      if_pos rfl,if_neg (by rw [List.length_append,hlength]; omega)]

/-- A block of the other compression. -/
theorem Decodes.lzvn (h : Decodes lzvnDecode bytes out) {raw payload : List UInt8}
    (hsome : 0<raw.length) (hraw : raw.length<2^32) (hpayload : payload.length<2^32)
    (hlzvn : lzvnDecode payload=some raw) :
    Decodes lzvnDecode (bytes++(leBytes 4 compressedLzvnMagic++leBytes 4 raw.length++
      leBytes 4 payload.length++payload)) (out++raw) := by
  refine h.step (fun hbad => ?_) fun fuel stream => ?_
  · have hlength := congrArg List.length hbad
    simp only [List.length_append,leBytes_length,List.length_nil] at hlength
    omega
  · obtain ⟨block,hblock⟩ : ∃ block, block=leBytes 4 compressedLzvnMagic++leBytes 4 raw.length++
      leBytes 4 payload.length++payload := ⟨_,rfl⟩
    have hmagic : (block++stream).take 4=leBytes 4 compressedLzvnMagic := by
      rw [hblock,List.append_assoc,List.append_assoc,List.append_assoc,
        List.take_left' (leBytes_length _ _)]
    have hsize : ((block++stream).drop 4).take 4=leBytes 4 raw.length := take_drop_append
      (by rw [hblock]; simp only [List.append_assoc]; rfl) (leBytes_length 4 compressedLzvnMagic)
      (leBytes_length 4 _)
    have hcount : ((block++stream).drop 8).take 4=leBytes 4 payload.length :=
      @take_drop_append (leBytes 4 compressedLzvnMagic++leBytes 4 raw.length) _ (payload++stream) _ 8 4
        (by rw [hblock]; simp only [List.append_assoc])
        (by simp only [List.length_append,leBytes_length]) (leBytes_length 4 _)
    have hdata : ((block++stream).drop 12).take payload.length=payload :=
      @take_drop_append (leBytes 4 compressedLzvnMagic++leBytes 4 raw.length++leBytes 4 payload.length)
        payload stream _ 12 payload.length (by rw [hblock]; simp only [List.append_assoc])
        (by simp only [List.length_append,leBytes_length]) rfl
    have hlength : block.length=12+payload.length := by
      rw [hblock]
      simp only [List.length_append,leBytes_length]
    have hvalue : leValue (leBytes 4 raw.length)=raw.length := leValue_leBytes_of_lt hraw
    have hcountValue : leValue (leBytes 4 payload.length)=payload.length :=
      leValue_leBytes_of_lt hpayload
    have hmagicValue : leValue (leBytes 4 compressedLzvnMagic)=compressedLzvnMagic :=
      leValue_leBytes_of_lt (by decide)
    rw [←hblock,decodeBlocks]
    dsimp only
    rw [hmagic,hsize,hcount,hvalue,hcountValue,hdata,hmagicValue,List.take_left' hlength,
      List.drop_left' hlength,if_neg (by rw [List.length_append,hlength]; omega),
      if_neg (by decide),if_neg (by decide),if_neg (by decide),if_pos rfl,
      if_neg (by rw [List.length_append,hlength]; omega),hlzvn,Option.bind_some,
      if_pos ⟨hsome,rfl⟩]

end Streams

end Applesauce.Lzfse
