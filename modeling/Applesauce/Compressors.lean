import Applesauce.DecmpfsValue

/-!
# Compressing and decompressing one block

The codecs themselves are foreign code. Around them a block that does not
shrink is stored behind a byte no encoder starts its output with, LZFSE
refuses it instead, and a decoder that fills its buffer is taken to have been
cut off. With codecs that invert each other, a compressed block decompresses
to its source in every buffer that is strictly larger.
-/

namespace Applesauce.Compressors

open RustIo DecmpfsValue

/-- The implementations of LZFSE. -/
inductive LzfseBackend where
  | macos
  | crate
  | vendor
  | vendorUltra
  deriving DecidableEq,Repr

/-- A format together with the implementation that writes it. -/
structure Encoder where
  /-- The compression format. -/
  kind : Kind
  /-- The implementation, of which only LZFSE has several. -/
  lzfseBackend : LzfseBackend
  deriving DecidableEq,Repr

/-- A compression level libdeflate accepts. -/
structure CompressionLvl where
  /-- The level. -/
  value : ℕ
  /-- The command line and the library admit the same levels. -/
  valid : 1≤value ∧ value≤12

/-- The foreign codecs. Each gets the length of its destination and returns
the bytes it has put there; an encoder that ran out of space has put none. -/
structure Codecs where
  /-- The backend that reads LZFSE, and writes it when none is named. -/
  defaultBackend : LzfseBackend
  /-- `encode` of a backend. -/
  lzfseEncode : LzfseBackend→ℕ→List UInt8→List UInt8
  /-- `decode` of a backend. -/
  lzfseDecode : LzfseBackend→ℕ→List UInt8→List UInt8
  /-- `lzvn_encode_buffer`. -/
  lzvnEncode : ℕ→List UInt8→List UInt8
  /-- `lzvn_decode`, up to where it leaves its output pointer. -/
  lzvnDecode : ℕ→List UInt8→List UInt8
  /-- `zlib_compress`; no answer is `InsufficientSpace`. -/
  zlibCompress : CompressionLvl→ℕ→List UInt8→Option (List UInt8)
  /-- `zlib_decompress`, with the text of its error. -/
  zlibDecompress : ℕ→List UInt8→Except String (List UInt8)

/-- `Encoder::from`. -/
def Encoder.ofKind (codecs : Codecs) (kind : Kind) : Encoder := ⟨kind,codecs.defaultBackend⟩

/-- A failed `assert!(dst.len() > src.len())`. -/
def smallBuffer : Fault := .panic "assertion failed: dst.len() > src.len()"

namespace Lz

/-- `Lz::compress` into a buffer of this length: the bytes of the buffer that
count. An encoder with a stored form gets no more space than its source. -/
def compress (build : Build) (uncompressedPrefix : Option UInt8) (encode : ℕ→List UInt8→List UInt8)
    (dst : ℕ) (src : List UInt8) : Except Fault (List UInt8) :=
  if src.length<dst then
    let maxCompressSize := if uncompressedPrefix.isSome then src.length else dst
    let out := encode maxCompressSize src
    if build=.debug ∧ maxCompressSize<out.length then
      .error (.panic "assertion failed: len <= max_compress_size")
    else if out.length=0 then
      match uncompressedPrefix with
      | none => .error (.error (.ofKind .writeZero))
      | some byte => .ok (byte::src)
    else .ok out
  else .error smallBuffer

/-- `Lz::decompress` into a buffer of this length. -/
def decompress (build : Build) (uncompressedPrefix : Option UInt8)
    (decode : ℕ→List UInt8→Except Fault (List UInt8)) (dst : ℕ) :
    List UInt8→Except Fault (List UInt8)
  | [] => .error (.error (.ofKind .unexpectedEof))
  | first::src =>
    if uncompressedPrefix=some first then
      if dst<src.length then .error (.error (.ofKind .writeZero)) else .ok src
    else
      match decode dst (first::src) with
      | .error e => .error e
      | .ok out =>
        if build=.debug ∧ dst≤out.length then
          .error (.panic "assertion failed: len < dst.len()")
        else if out.length=0 ∨ out.length=dst then .error (.error (.ofKind .writeZero))
        else .ok out

end Lz

namespace Lzvn

/-- `UNCOMPRESSED_PREFIX` of LZVN. -/
def uncompressedPrefix : UInt8 := 0x06

/-- `decode` of LZVN, whose output pointer must stay inside the buffer. -/
def decode (lzvnDecode : ℕ→List UInt8→List UInt8) (dst : ℕ) (src : List UInt8) :
    Except Fault (List UInt8) :=
  if (lzvnDecode dst src).length<dst then .ok (lzvnDecode dst src)
  else .error (.panic "assertion failed: dst_range.contains(&state.dst)")

end Lzvn

namespace Zlib

/-- The first byte of a stored block. -/
def storedByte : UInt8 := 0xff

/-- `Zlib::compress` into a buffer of this length. -/
def compress (zlibCompress : ℕ→List UInt8→Option (List UInt8)) (dst : ℕ) (src : List UInt8) :
    Except Fault (List UInt8) :=
  if src.length<dst then
    match zlibCompress src.length src with
    | some out => .ok out
    | none => .ok (storedByte::src)
  else .error smallBuffer

/-- `Zlib::decompress` into a buffer of this length. -/
def decompress (zlibDecompress : ℕ→List UInt8→Except String (List UInt8)) (dst : ℕ) :
    List UInt8→Except Fault (List UInt8)
  | [] => .error (.error (.ofKind .unexpectedEof))
  | first::src =>
    if first=storedByte then
      if dst<src.length then .error (.error (.ofKind .writeZero)) else .ok src
    else
      match zlibDecompress dst (first::src) with
      | .error message => .error (.error (.new .other message))
      | .ok out => .ok out

end Zlib

/-- `Compressor::compress` of the compressor an encoder stands for. -/
def compress (build : Build) (codecs : Codecs) (encoder : Encoder) (level : CompressionLvl)
    (dst : ℕ) (src : List UInt8) : Except Fault (List UInt8) :=
  match encoder.kind with
  | .zlib => Zlib.compress (codecs.zlibCompress level) dst src
  | .lzvn => Lz.compress build (some Lzvn.uncompressedPrefix) codecs.lzvnEncode dst src
  | .lzfse => Lz.compress build none (codecs.lzfseEncode encoder.lzfseBackend) dst src

/-- `Compressor::decompress` of the compressor an encoder stands for. -/
def decompress (build : Build) (codecs : Codecs) (encoder : Encoder) (dst : ℕ) (src : List UInt8) :
    Except Fault (List UInt8) :=
  match encoder.kind with
  | .zlib => Zlib.decompress codecs.zlibDecompress dst src
  | .lzvn =>
    Lz.decompress build (some Lzvn.uncompressedPrefix) (Lzvn.decode codecs.lzvnDecode) dst src
  | .lzfse =>
    Lz.decompress build none (fun dst src => .ok (codecs.lzfseDecode encoder.lzfseBackend dst src))
      dst src

/-- What is relied on of an encoder and a decoder: some output stays within its
destination, does not start with the byte of a stored block, and decodes to
the source into any strictly larger buffer. -/
structure Inverts (encode : ℕ→List UInt8→List UInt8) (decode : ℕ→List UInt8→List UInt8)
    (uncompressedPrefix : Option UInt8) : Prop where
  fits : ∀ dst src, (encode dst src).length≤dst
  first : ∀ dst src first, (encode dst src).head?=some first → uncompressedPrefix≠some first
  decodes : ∀ dst src room, encode dst src≠[] → src.length<room → decode room (encode dst src)=src

/-- What is relied on of the foreign codecs, among them that every LZFSE
backend is read by the default one. -/
structure Codecs.Faithful (codecs : Codecs) : Prop where
  lzfse : ∀ backend,
    Inverts (codecs.lzfseEncode backend) (codecs.lzfseDecode codecs.defaultBackend) none
  lzvn : Inverts codecs.lzvnEncode codecs.lzvnDecode (some Lzvn.uncompressedPrefix)
  zlibFits : ∀ level dst src out, codecs.zlibCompress level dst src=some out → out.length≤dst
  zlibFirst : ∀ level dst src out, codecs.zlibCompress level dst src=some out →
    ∃ first rest, out=first::rest ∧ first≠Zlib.storedByte
  zlibDecodes : ∀ level dst src out room, codecs.zlibCompress level dst src=some out →
    src.length<room → codecs.zlibDecompress room out=.ok src

/-- A block that was compressed from a source: not empty, within the buffer, and
decompressed to the source. -/
structure RoundTrips (decompress : List UInt8→Except Fault (List UInt8)) (dst : ℕ)
    (src block : List UInt8) : Prop where
  ne : block≠[]
  length_le : block.length≤dst
  back : decompress block=.ok src

/-- A stored LZ block is its source behind the stored byte. -/
theorem Lz.decompress_stored (build : Build) (byte : UInt8)
    (decode : ℕ→List UInt8→Except Fault (List UInt8)) {dst : ℕ} {src : List UInt8}
    (h : src.length<dst) : Lz.decompress build (some byte) decode dst (byte::src)=.ok src := by
  unfold Lz.decompress
  dsimp only
  rw [if_pos rfl,if_neg (Nat.not_lt.mpr h.le)]

/-- A decoder's nonempty output that leaves room in the buffer is returned. -/
theorem Lz.decompress_decoded {build : Build} {uncompressedPrefix : Option UInt8}
    {decode : ℕ→List UInt8→Except Fault (List UInt8)} {dst : ℕ} {block src : List UInt8}
    (hfirst : ∀ first, block.head?=some first → uncompressedPrefix≠some first) (hblock : block≠[])
    (hdecode : decode dst block=.ok src) (hsrc : src≠[]) (hroom : src.length<dst) :
    Lz.decompress build uncompressedPrefix decode dst block=.ok src := by
  cases block with
  | nil => exact (hblock rfl).elim
  | cons first rest =>
    have hdebug : ¬(build=.debug ∧ dst≤ src.length) := fun hb => Nat.not_le.mpr hroom hb.2
    have hbad : ¬(src.length=0 ∨ src.length=dst) := by
      rintro (hzero|hfull)
      · exact hsrc (List.length_eq_zero_iff.mp hzero)
      · omega
    unfold Lz.decompress
    dsimp only
    rw [if_neg (hfirst first rfl),hdecode]
    dsimp only
    rw [if_neg hdebug,if_neg hbad]

/-- What LZ compression returns decompresses to its source, if the decoder
agrees with a plain one wherever that leaves room. -/
theorem Lz.compress_roundTrips {build readBuild : Build} {uncompressedPrefix : Option UInt8}
    {encode plain : ℕ→List UInt8→List UInt8} {decode : ℕ→List UInt8→Except Fault (List UInt8)}
    {dst : ℕ} {src block : List UInt8} (hcodec : Inverts encode plain uncompressedPrefix)
    (hdecode : ∀ input, (plain dst input).length<dst → decode dst input=.ok (plain dst input))
    (hsrc : src≠[]) (h : Lz.compress build uncompressedPrefix encode dst src=.ok block) :
    RoundTrips (Lz.decompress readBuild uncompressedPrefix decode dst) dst src block := by
  unfold Lz.compress at h
  by_cases hroom : src.length<dst
  · rw [if_pos hroom] at h
    dsimp only at h
    generalize hmax : (if uncompressedPrefix.isSome=true then src.length else dst)=room at h
    have hle : room≤dst := by
      rw [←hmax]
      split
      · exact hroom.le
      · exact Nat.le_refl dst
    by_cases hassert : build=.debug ∧ room<(encode room src).length
    · rw [if_pos hassert] at h
      cases h
    rw [if_neg hassert] at h
    by_cases hzero : (encode room src).length=0
    · rw [if_pos hzero] at h
      cases hpre : uncompressedPrefix with
      | none => rw [hpre] at h; cases h
      | some byte =>
        rw [hpre] at h
        obtain rfl := Except.ok.inj h
        exact ⟨List.cons_ne_nil _ _,hroom,Lz.decompress_stored readBuild byte decode hroom⟩
    · rw [if_neg hzero] at h
      obtain rfl := Except.ok.inj h
      have hne : encode room src≠[] := fun hnil => hzero (by rw [hnil]; rfl)
      have hplain := hcodec.decodes room src dst hne hroom
      have hout := hdecode (encode room src) (by rw [hplain]; exact hroom)
      rw [hplain] at hout
      exact ⟨hne,(hcodec.fits room src).trans hle,
        Lz.decompress_decoded (hcodec.first room src) hne hout hsrc hroom⟩
  · rw [if_neg hroom] at h
    cases h

/-- What zlib compression returns decompresses to its source. -/
theorem Zlib.compress_roundTrips {codecs : Codecs} (hcodecs : codecs.Faithful)
    {level : CompressionLvl} {dst : ℕ} {src block : List UInt8}
    (h : Zlib.compress (codecs.zlibCompress level) dst src=.ok block) :
    RoundTrips (Zlib.decompress codecs.zlibDecompress dst) dst src block := by
  unfold Zlib.compress at h
  by_cases hroom : src.length<dst
  · rw [if_pos hroom] at h
    cases hout : codecs.zlibCompress level src.length src with
    | none =>
      rw [hout] at h
      obtain rfl := Except.ok.inj h
      refine ⟨List.cons_ne_nil _ _,hroom,?_⟩
      unfold Zlib.decompress
      dsimp only
      rw [if_pos rfl,if_neg (Nat.not_lt.mpr hroom.le)]
    | some out =>
      rw [hout] at h
      obtain rfl := Except.ok.inj h
      obtain ⟨first,rest,rfl,hfirst⟩ := hcodecs.zlibFirst level _ _ _ hout
      refine ⟨List.cons_ne_nil _ _,(hcodecs.zlibFits level _ _ _ hout).trans hroom.le,?_⟩
      unfold Zlib.decompress
      dsimp only
      rw [if_neg hfirst,hcodecs.zlibDecodes level _ _ _ dst hout hroom]
  · rw [if_neg hroom] at h
    cases h

/-- A compressed block of any encoder is decompressed by the default encoder of
its format to the source it was made from. -/
theorem compress_roundTrips {codecs : Codecs} (hcodecs : codecs.Faithful) {build readBuild : Build}
    {encoder : Encoder} {level : CompressionLvl} {dst : ℕ} {src block : List UInt8} (hsrc : src≠[])
    (h : compress build codecs encoder level dst src=.ok block) :
    RoundTrips (decompress readBuild codecs (.ofKind codecs encoder.kind) dst) dst src block := by
  unfold compress at h
  unfold decompress Encoder.ofKind
  dsimp only
  cases hkind : encoder.kind with
  | zlib =>
    rw [hkind] at h
    exact Zlib.compress_roundTrips hcodecs h
  | lzvn =>
    rw [hkind] at h
    refine Lz.compress_roundTrips hcodecs.lzvn (fun input hlt => ?_) hsrc h
    unfold Lzvn.decode
    rw [if_pos hlt]
  | lzfse =>
    rw [hkind] at h
    exact Lz.compress_roundTrips (hcodecs.lzfse encoder.lzfseBackend) (fun _ _ => rfl) hsrc h

/-- Compressing into a buffer larger than the source does not panic. -/
theorem compress_calm {codecs : Codecs} (hcodecs : codecs.Faithful) (build : Build) (encoder : Encoder)
    (level : CompressionLvl) {dst : ℕ} {src : List UInt8} (hroom : src.length<dst) (message : String) :
    compress build codecs encoder level dst src≠.error (.panic message) := by
  have hlz : ∀ {encode decode : ℕ→List UInt8→List UInt8} {uncompressedPrefix : Option UInt8},
      Inverts encode decode uncompressedPrefix →
        Lz.compress build uncompressedPrefix encode dst src≠.error (.panic message) := by
    intro encode decode uncompressedPrefix hcodec
    unfold Lz.compress
    rw [if_pos hroom]
    dsimp only
    generalize (if uncompressedPrefix.isSome=true then src.length else dst)=room
    rw [if_neg (fun hbad => Nat.not_lt.mpr (hcodec.fits room src) hbad.2)]
    intro hbad
    by_cases hzero : (encode room src).length=0
    · rw [if_pos hzero] at hbad
      cases uncompressedPrefix with
      | none => cases hbad
      | some byte => cases hbad
    · rw [if_neg hzero] at hbad
      cases hbad
  unfold compress
  cases encoder.kind with
  | zlib =>
    unfold Zlib.compress
    dsimp only
    rw [if_pos hroom]
    intro hbad
    split at hbad
    · cases hbad
    · cases hbad
  | lzvn => exact hlz hcodecs.lzvn
  | lzfse => exact hlz (hcodecs.lzfse encoder.lzfseBackend)

end Applesauce.Compressors
