import Applesauce.Compressors
import Applesauce.LzvnReader

/-!
# Decompressing blocks that others have written

A decoder may report any count up to the length of its destination. A full
destination is meant to be taken for truncated output, but assertions in front
of that test do not allow for it: the pointer check of LZVN in every build, the
count check of both LZ formats in a debug build.
-/

namespace Applesauce.UntrustedBlocks

open RustIo DecmpfsValue Compressors

/-- What is assumed of the foreign decoders: they stay within their destination. -/
structure Bounded (codecs : Codecs) : Prop where
  lzfse : ∀ backend dst src, (codecs.lzfseDecode backend dst src).length≤dst
  lzvn : ∀ dst src, (codecs.lzvnDecode dst src).length≤dst
  zlib : ∀ dst src out, codecs.zlibDecompress dst src=.ok out → out.length≤dst

/-- The byte in front of a block stored as it is, if the LZ format has one. -/
def storedPrefix : Kind→Option UInt8
  | .lzvn => some Lzvn.uncompressedPrefix
  | _ => none

/-- The block is handed to an LZ decoder: it is neither empty nor stored as it is. -/
def Decoded (kind : Kind) : List UInt8→Prop
  | [] => False
  | first::_ => kind≠.zlib ∧ storedPrefix kind≠some first

/-- What the LZ decoder of an encoder's format puts into its destination. -/
def decoderOutput (codecs : Codecs) (encoder : Encoder) (dst : ℕ) (src : List UInt8) : List UInt8 :=
  match encoder.kind with
  | .zlib => []
  | .lzvn => codecs.lzvnDecode dst src
  | .lzfse => codecs.lzfseDecode encoder.lzfseBackend dst src

/-- The LZ decoder fills its destination to the last byte and an assertion sees that. -/
def FillsExactly (build : Build) (codecs : Codecs) (encoder : Encoder) (dst : ℕ)
    (src : List UInt8) : Prop :=
  Decoded encoder.kind src ∧ (decoderOutput codecs encoder dst src).length=dst ∧
    (encoder.kind=.lzvn ∨ build=.debug)

/-- A block is decompressed or refused. -/
structure Safe (build : Build) (codecs : Codecs) (encoder : Encoder) (dst : ℕ)
    (src : List UInt8) : Prop where
  /-- There is no panic. -/
  calm : ∀ message, decompress build codecs encoder dst src≠.error (.panic message)
  /-- The count is within the destination. -/
  fits : ∀ out, decompress build codecs encoder dst src=.ok out → out.length≤dst
  /-- Decoded output leaves room. -/
  room : ∀ out, decompress build codecs encoder dst src=.ok out → Decoded encoder.kind src →
    out.length<dst

section Results
variable {limit : ℕ}

/-- The block is refused, or its contents are shorter than the limit. -/
def Returns (limit : ℕ) (result : Except Fault (List UInt8)) : Prop :=
  (∀ message, result≠.error (.panic message)) ∧ ∀ out, result=.ok out → out.length<limit

/-- A refused block. -/
theorem returns_error (e : IoError) : Returns limit (.error (.error e)) :=
  ⟨fun _ hbad => (nomatch hbad),fun _ hok => (nomatch hok)⟩

/-- Contents short enough. -/
theorem returns_ok {out : List UInt8} (h : out.length<limit) : Returns limit (.ok out) := by
  refine ⟨fun _ hbad => (nomatch hbad),fun plain hok => ?_⟩
  obtain rfl := Except.ok.inj hok
  exact h

/-- A block stored as it is fits or is refused. -/
theorem returns_stored (dst : ℕ) (src : List UInt8) :
    Returns (dst+1) (if dst<src.length then .error (.error (.ofKind .writeZero)) else .ok src) := by
  by_cases hshort : dst<src.length
  · rw [if_pos hshort]
    exact returns_error _
  · rw [if_neg hshort]
    exact returns_ok (Nat.lt_succ_of_le (Nat.not_lt.mp hshort))

end Results

section Formats
variable {build : Build} {uncompressedPrefix : Option UInt8}
  {decode : ℕ→List UInt8→Except Fault (List UInt8)} {dst : ℕ}

/-- A zlib block is always decompressed or refused. -/
theorem zlib_returns {codecs : Codecs} (hcodecs : Bounded codecs) (dst : ℕ) (src : List UInt8) :
    Returns (dst+1) (Zlib.decompress codecs.zlibDecompress dst src) := by
  cases src with
  | nil => exact returns_error _
  | cons first rest =>
    unfold Zlib.decompress
    dsimp only
    by_cases hstored : first=Zlib.storedByte
    · rw [if_pos hstored]
      exact returns_stored dst rest
    · rw [if_neg hstored]
      cases hout : codecs.zlibDecompress dst (first::rest) with
      | error message => exact returns_error _
      | ok plain => exact returns_ok (Nat.lt_succ_of_le (hcodecs.zlib dst _ _ hout))

/-- A block the LZ format does not decode is copied or refused. -/
theorem lz_returns_stored {src : List UInt8}
    (hstored : ∀ first rest, src=first::rest → uncompressedPrefix=some first) :
    Returns (dst+1) (Lz.decompress build uncompressedPrefix decode dst src) := by
  cases src with
  | nil => exact returns_error _
  | cons first rest =>
    unfold Lz.decompress
    dsimp only
    rw [if_pos (hstored first rest rfl)]
    exact returns_stored dst rest

/-- Output that passes the assertion of the debug build leaves room or is refused. -/
theorem lz_returns_decoded {first : UInt8} {rest plain : List UInt8}
    (hfirst : uncompressedPrefix≠some first) (hplain : decode dst (first::rest)=.ok plain)
    (hfits : plain.length≤dst) (hdebug : ¬(build=.debug ∧ dst≤plain.length)) :
    Returns dst (Lz.decompress build uncompressedPrefix decode dst (first::rest)) := by
  unfold Lz.decompress
  dsimp only
  rw [if_neg hfirst,hplain]
  dsimp only
  rw [if_neg hdebug]
  by_cases hbad : plain.length=0 ∨ plain.length=dst
  · rw [if_pos hbad]
    exact returns_error _
  · rw [if_neg hbad]
    refine returns_ok ?_
    omega

/-- A decoder that panics takes the block with it. -/
theorem lz_decoder_panics {first : UInt8} {rest : List UInt8} {message : String}
    (hfirst : uncompressedPrefix≠some first)
    (hpanic : decode dst (first::rest)=.error (.panic message)) :
    Lz.decompress build uncompressedPrefix decode dst (first::rest)=.error (.panic message) := by
  unfold Lz.decompress
  dsimp only
  rw [if_neg hfirst,hpanic]

/-- Full output fails the assertion of a debug build. -/
theorem lz_full_panics {first : UInt8} {rest plain : List UInt8}
    (hfirst : uncompressedPrefix≠some first) (hplain : decode dst (first::rest)=.ok plain)
    (hfull : plain.length=dst) :
    Lz.decompress .debug uncompressedPrefix decode dst (first::rest)=
      .error (.panic "assertion failed: len < dst.len()") := by
  unfold Lz.decompress
  dsimp only
  rw [if_neg hfirst,hplain]
  dsimp only
  rw [if_pos ⟨rfl,hfull.ge⟩]

end Formats

section Kinds
variable {build : Build} {codecs : Codecs} {encoder : Encoder} {dst : ℕ} {src : List UInt8}

/-- A block that no LZ decoder sees is safe. -/
theorem safe_of_returns (hdecoded : ¬Decoded encoder.kind src)
    (h : Returns (dst+1) (decompress build codecs encoder dst src)) :
    Safe build codecs encoder dst src :=
  ⟨h.1,fun out hok => Nat.le_of_lt_succ (h.2 out hok),fun _ _ hbad => absurd hbad hdecoded⟩

/-- A block whose contents leave room is safe. -/
theorem safe_of_room (h : Returns dst (decompress build codecs encoder dst src)) :
    Safe build codecs encoder dst src :=
  ⟨h.1,fun out hok => (h.2 out hok).le,fun out hok _ => h.2 out hok⟩

/-- A block that is not decoded is safe. -/
theorem undecoded_safe (hcodecs : Bounded codecs) (hdecoded : ¬Decoded encoder.kind src) :
    Safe build codecs encoder dst src := by
  refine safe_of_returns hdecoded ?_
  unfold decompress
  cases hkind : encoder.kind with
  | zlib => exact zlib_returns hcodecs dst src
  | lzvn =>
    refine lz_returns_stored fun first rest hsrc => Classical.byContradiction fun hne => hdecoded ?_
    rw [hkind,hsrc]
    exact ⟨fun hbad => (nomatch hbad),hne⟩
  | lzfse =>
    refine lz_returns_stored fun first rest hsrc => absurd ?_ hdecoded
    rw [hkind,hsrc]
    exact ⟨fun hbad => (nomatch hbad),fun hbad => (nomatch hbad)⟩

/-- LZVN output that leaves room passes the pointer check, full output fails it. -/
theorem lzvn_safe_iff (hcodecs : Bounded codecs) (hkind : encoder.kind=.lzvn) {first : UInt8}
    {rest : List UInt8} (hfirst : some Lzvn.uncompressedPrefix≠some first) :
    Safe build codecs encoder dst (first::rest) ↔
      (codecs.lzvnDecode dst (first::rest)).length≠dst := by
  have hrun : decompress build codecs encoder dst (first::rest)=
      Lz.decompress build (some Lzvn.uncompressedPrefix) (Lzvn.decode codecs.lzvnDecode) dst
        (first::rest) := by
    unfold decompress
    rw [hkind]
  have hfits := hcodecs.lzvn dst (first::rest)
  by_cases hroom : (codecs.lzvnDecode dst (first::rest)).length<dst
  · have hplain : Lzvn.decode codecs.lzvnDecode dst (first::rest)=
        .ok (codecs.lzvnDecode dst (first::rest)) := if_pos hroom
    refine iff_of_true (safe_of_room ?_) hroom.ne
    rw [hrun]
    exact lz_returns_decoded hfirst hplain hfits fun hbad => Nat.not_le.mpr hroom hbad.2
  · have hpanic : Lzvn.decode codecs.lzvnDecode dst (first::rest)=
        .error (.panic "assertion failed: dst_range.contains(&state.dst)") := if_neg hroom
    refine iff_of_false (fun hsafe => ?_) (not_not.mpr (by omega))
    exact hsafe.calm _ (hrun.trans (lz_decoder_panics hfirst hpanic))

/-- LZFSE output that fills the destination is refused by a release build only. -/
theorem lzfse_safe_iff (hcodecs : Bounded codecs) (hkind : encoder.kind=.lzfse) {first : UInt8}
    {rest : List UInt8} :
    Safe build codecs encoder dst (first::rest) ↔
      ¬((codecs.lzfseDecode encoder.lzfseBackend dst (first::rest)).length=dst ∧ build=.debug) := by
  let decode : ℕ→List UInt8→Except Fault (List UInt8) :=
    fun dst src => .ok (codecs.lzfseDecode encoder.lzfseBackend dst src)
  have hrun : decompress build codecs encoder dst (first::rest)=
      Lz.decompress build none decode dst (first::rest) := by
    unfold decompress
    rw [hkind]
  have hfirst : none≠some first := fun hbad => (nomatch hbad)
  have hplain : decode dst (first::rest)=
      .ok (codecs.lzfseDecode encoder.lzfseBackend dst (first::rest)) := rfl
  have hfits := hcodecs.lzfse encoder.lzfseBackend dst (first::rest)
  by_cases hbad : (codecs.lzfseDecode encoder.lzfseBackend dst (first::rest)).length=dst ∧ build=.debug
  · obtain ⟨hfull,rfl⟩ := hbad
    refine iff_of_false (fun hsafe => ?_) (not_not.mpr ⟨hfull,rfl⟩)
    exact hsafe.calm _ (hrun.trans (lz_full_panics hfirst hplain hfull))
  · refine iff_of_true (safe_of_room ?_) hbad
    rw [hrun]
    refine lz_returns_decoded hfirst hplain hfits ?_
    rintro ⟨hbuild,hfull⟩
    exact hbad ⟨Nat.le_antisymm hfits hfull,hbuild⟩

/-- For every format, block and destination, decompression is safe exactly when the decoder
does not fill the destination to the last byte under an assertion. -/
theorem decompress_safe_iff (hcodecs : Bounded codecs) :
    Safe build codecs encoder dst src ↔ ¬FillsExactly build codecs encoder dst src := by
  by_cases hdecoded : Decoded encoder.kind src
  · have hfills : FillsExactly build codecs encoder dst src ↔
        (decoderOutput codecs encoder dst src).length=dst ∧ (encoder.kind=.lzvn ∨ build=.debug) :=
      and_iff_right hdecoded
    rw [hfills]
    cases src with
    | nil => exact hdecoded.elim
    | cons first rest =>
      obtain ⟨hlz,hfirst⟩ := hdecoded
      unfold decoderOutput
      cases hkind : encoder.kind with
      | zlib => exact absurd hkind hlz
      | lzvn =>
        rw [hkind] at hfirst
        rw [lzvn_safe_iff hcodecs hkind hfirst]
        exact not_congr (and_iff_left (.inl rfl)).symm
      | lzfse =>
        rw [lzfse_safe_iff hcodecs hkind]
        exact not_congr (and_congr_right' (or_iff_right fun hbad => (nomatch hbad)).symm)
  · exact iff_of_true (undecoded_safe hcodecs hdecoded) fun hbad => hdecoded hbad.1

end Kinds

section Example

/-- Codecs of which one is used: `lzvn_decode`, as the format has it, up to the end of the
destination. -/
def lzvnCodecs : Codecs where
  defaultBackend := .crate
  lzfseEncode := fun _ _ _ => []
  lzfseDecode := fun _ _ _ => []
  lzvnEncode := fun _ _ => []
  lzvnDecode := fun dst src => ((LzvnCodec.decode src).getD []).take dst
  zlibCompress := fun _ _ _ => none
  zlibDecompress := fun _ _ => .error "BadData"

/-- They stay within their destination. -/
theorem lzvnCodecs_bounded : Bounded lzvnCodecs :=
  ⟨fun _ _ _ => Nat.zero_le _,fun dst _ => List.length_take_le dst _,fun _ _ _ hbad => (by cases hbad)⟩

/-- A literal and the mark of the end. -/
def oneLiteral : List UInt8 := [0xe1,0x41,6,0,0,0,0,0,0,0]

/-- One literal is decoded into a destination of two bytes. -/
theorem oneLiteral_safe :
    LzvnCodec.decode oneLiteral=some [0x41] ∧ Safe .debug lzvnCodecs ⟨.lzvn,.crate⟩ 2 oneLiteral :=
  ⟨by decide,(@decompress_safe_iff .debug lzvnCodecs ⟨.lzvn,.crate⟩ 2 oneLiteral
    lzvnCodecs_bounded).mpr (by
      rintro ⟨_,hfull,_⟩
      exact absurd hfull (by decide))⟩

/-- In a destination of one byte it fails the pointer check of a release build. -/
theorem oneLiteral_panics :
    ¬∀ (build : Build) (codecs : Codecs) (encoder : Encoder) (dst : ℕ) (src : List UInt8),
      Bounded codecs → 0<dst → Safe build codecs encoder dst src := by
  intro hall
  have hsafe := hall .release lzvnCodecs ⟨.lzvn,.crate⟩ 1 oneLiteral lzvnCodecs_bounded (by decide)
  exact hsafe.calm "assertion failed: dst_range.contains(&state.dst)" rfl

end Example

end Applesauce.UntrustedBlocks
