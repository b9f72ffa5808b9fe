import Applesauce.LzfseBuffer
import Applesauce.PipelineRoundTrip

/-!
# The vendored backends

Both presets of the vendored encoder are fixed when it is built, whatever the
level. Every block is compressed by them: what they return is a stream of the
format that holds the block, and there is always room for it. So compressing a
file completes with nothing assumed of a codec, and restoring it needs only
that the decoder reads the format.
-/

namespace Applesauce.VendorBackends

open RustIo TransitionSystem SeekableFile BufferedSink ScratchPayload DecmpfsValue DecmpfsReader
open DecmpfsWriter PayloadCopy StagedOutput BlockReading Compressors Pipeline PipelineRoundTrip
open LawfulRawSink LawfulWriteSeek Lzfse

section Presets

/-- The preset `stock` of `build_lzfse`. -/
def stock : Tunables := ⟨14,4,40⟩

/-- The preset `ultra` of `build_lzfse`. -/
def ultra : Tunables := ⟨16,8,100⟩

/-- The preset of `Impl<ULTRA>`. -/
def preset (isUltra : Bool) : Tunables := if isUltra then ultra else stock

/-- `encode` of `Impl<ULTRA>`. -/
def encode (stray : ℤ) (isUltra : Bool) (dst : ℕ) (src : List UInt8) : List UInt8 :=
  (encodeBuffer (preset isUltra) stray src dst).getD []

/-- The backend of `Impl<ULTRA>`. -/
def backend (isUltra : Bool) : LzfseBackend := if isUltra then .vendorUltra else .vendor

/-- What is relied on of a decoder: a stream that is well formed to the last field is decoded into
any larger buffer. -/
def Reads (decode : ℕ→List UInt8→List UInt8) : Prop :=
  ∀ stream src room, decodeStream LzvnCodec.decode stream=some src → src.length<room →
    decode room stream=src

/-- A decoder of the format, which fills a buffer that is too small. -/
def formatDecode (room : ℕ) (stream : List UInt8) : List UInt8 :=
  ((decodeStream LzvnCodec.decode stream).getD []).take room

/-- It reads the format. -/
theorem formatDecode_reads : Reads formatDecode := by
  intro stream src room hdecodes hroom
  unfold formatDecode
  rw [hdecodes]
  exact List.take_of_length_le (Nat.le_of_lt hroom)

/-- The hash of a preset has at most 32 bits. -/
theorem preset_hashBits (isUltra : Bool) : (preset isUltra).hashBits≤32 := by
  cases isUltra <;> decide

/-- What a preset returns. -/
theorem encode_encodes (stray : ℤ) (isUltra : Bool) {src : List UInt8}
    (hsize : src.length+maxDValue≤2^31) (dst : ℕ) : Encodes src dst (encode stray isUltra dst src) := by
  obtain ⟨out,hout,hencodes⟩ :=
    @encodeBuffer_encodes (preset isUltra) src stray (preset_hashBits isUltra) hsize dst
  unfold encode
  rw [hout]
  exact hencodes

end Presets

section Blocks
variable {stray : ℤ} {isUltra : Bool} {decode : ℕ→List UInt8→List UInt8} {build readBuild : Build}
  {dst : ℕ} {src : List UInt8}

/-- An encoder without a stored form that stays within its destination is passed on, and nothing
is an error. -/
theorem compress_of_fits {encode : ℕ→List UInt8→List UInt8} (hfits : (encode dst src).length≤dst)
    (hroom : src.length<dst) : Lz.compress build none encode dst src=
      if encode dst src=[] then .error (.error (.ofKind .writeZero)) else .ok (encode dst src) := by
  have hassert : ¬(build=.debug ∧ dst<(encode dst src).length) :=
    fun hbad => Nat.not_lt.mpr hfits hbad.2
  have hmax : (if (none : Option UInt8).isSome=true then src.length else dst)=dst := rfl
  unfold Lz.compress
  rw [if_pos hroom]
  dsimp only
  rw [hmax,if_neg hassert]
  by_cases hnone : encode dst src=[]
  · rw [if_pos hnone,if_pos (by rw [hnone]; rfl)]
  · rw [if_neg hnone,if_neg (fun hbad => hnone (List.length_eq_zero_iff.mp hbad))]

/-- What a decoder reads is decompressed. -/
theorem decompress_of_reads (hreads : Reads decode) {block : List UInt8}
    (h : decodeStream LzvnCodec.decode block=some src) (hsrc : src≠[]) (hroom : src.length<dst) :
    Lz.decompress readBuild none (fun dst src => .ok (decode dst src)) dst block=.ok src :=
  Lz.decompress_decoded (fun _ _ hbad => by cases hbad) (decodeStream_ne h)
    (congrArg Except.ok (hreads _ src dst h hroom)) hsrc hroom

/-- A vendored backend compresses every source into a buffer with room for it and 12 bytes more;
into a smaller one it does so or fails for want of room. What it returns is a stream that holds the
source, and is decompressed to it with every decoder of the format. -/
theorem compress_or_writeZero (hsize : src.length+maxDValue≤2^31) (hsrc : src≠[])
    (hroom : src.length<dst) :
    (∃ block, Lz.compress build none (encode stray isUltra) dst src=.ok block ∧
      decodeStream LzvnCodec.decode block=some src ∧ ∀ decode readBuild, Reads decode →
        RoundTrips (Lz.decompress readBuild none (fun dst src => .ok (decode dst src)) dst) dst src
          block) ∨
    dst<src.length+12 ∧
      Lz.compress build none (encode stray isUltra) dst src=.error (.error (.ofKind .writeZero)) := by
  have hencodes := encode_encodes stray isUltra hsize dst
  rw [compress_of_fits hencodes.fits hroom]
  rcases hencodes.decodes with ⟨hnone,hsmall⟩|hdecodes
  · rw [if_pos hnone]
    exact .inr ⟨hsmall,rfl⟩
  · have hne := decodeStream_ne hdecodes
    rw [if_neg hne]
    exact .inl ⟨_,rfl,hdecodes,fun _ _ hreads =>
      ⟨hne,hencodes.fits,decompress_of_reads hreads hdecodes hsrc hroom⟩⟩

/-- Zeros: literals, a match at distance 1, literals and the mark of the end. -/
def zerosStream : List UInt8 :=
  [0x62,0x76,0x78,0x6e,48,0,0,0,16,0,0,0,0x68,1,0,0xf0,21,0xe2,0,0,6,0,0,0,0,0,0,0,
    0x62,0x76,0x78,0x24]

/-- It is what the encoder returns for 48 zeros, and shorter than they are. -/
theorem encode_zeros : encode 0 true compressedBlockCapacity (List.replicate 48 0)=zerosStream := by
  decide +kernel

/-- 48 zeros are compressed to the 32 bytes of the stream, and come back from them. -/
theorem compress_or_writeZero_zeros :
    Lz.compress .release none (encode 0 true) compressedBlockCapacity (List.replicate 48 0)=
        .ok zerosStream ∧ decodeStream LzvnCodec.decode zerosStream=some (List.replicate 48 0) ∧
      RoundTrips (Lz.decompress .debug none (fun dst src => .ok (formatDecode dst src))
        compressedBlockCapacity) compressedBlockCapacity (List.replicate 48 0) zerosStream := by
  have hsmall : ¬compressedBlockCapacity<(List.replicate 48 (0 : UInt8)).length+12 := by decide
  have hstream : Lz.compress .release none (encode 0 true) compressedBlockCapacity
      (List.replicate 48 0)=.ok zerosStream := by
    rw [compress_of_fits (by rw [encode_zeros]; decide) (by decide),encode_zeros]
    rfl
  obtain ⟨block,hblock,hdecodes,hback⟩ :=
    (@compress_or_writeZero 0 true .release compressedBlockCapacity (List.replicate 48 0)
      (by decide) (by decide) (by decide)).resolve_right fun hbad => hsmall hbad.1
  rw [hstream] at hblock
  obtain rfl := Except.ok.inj hblock
  exact ⟨hstream,hdecodes,hback formatDecode .debug formatDecode_reads⟩

end Blocks

section Files
variable {op : Compression} {stray : ℤ} {isUltra : Bool} {readBuild : Build}

/-- Compressing with a vendored backend. -/
structure Vendored (op : Compression) (stray : ℤ) (isUltra : Bool) : Prop where
  /-- The encoder of the mode. -/
  encoder : op.encoder=⟨.lzfse,backend isUltra⟩
  /-- It is the one that was built. -/
  encode : op.codecs.lzfseEncode (backend isUltra)=encode stray isUltra

/-- Every block of a file is compressed to a stream that holds it. -/
theorem Vendored.compressItem (h : Vendored op stray isUltra) {data : List UInt8}
    (hlen : data.length≤blockSize) :
    PipelineRoundTrip.compressItem op (op.encoder.kind,data)=
        .ok (VendorBackends.encode stray isUltra compressedBlockCapacity data) ∧
      decodeStream LzvnCodec.decode
        (VendorBackends.encode stray isUltra compressedBlockCapacity data)=some data := by
  have hsize : data.length+maxDValue≤2^31 := by
    unfold blockSize at hlen
    have hmax : 0x10000+maxDValue≤2^31 := by decide
    omega
  have hroom : data.length+12≤compressedBlockCapacity := by
    unfold compressedBlockCapacity
    omega
  have hencodes := encode_encodes stray isUltra hsize compressedBlockCapacity
  have hdecodes := hencodes.decodes.resolve_left fun hbad => Nat.not_lt.mpr hroom hbad.2
  have hne := decodeStream_ne hdecodes
  refine ⟨?_,hdecodes⟩
  unfold PipelineRoundTrip.compressItem
  rw [if_neg (fun hbad => hbad.2 rfl),compress,h.encoder]
  dsimp only
  rw [h.encode,compress_of_fits hencodes.fits (by omega),if_neg hne,nonzeroSize_of hne]

/-- A stream that holds a block is decompressed by the default decoder, if that one reads the
format. -/
theorem Vendored.decompressItem (h : Vendored op stray isUltra)
    (hreads : Reads (op.codecs.lzfseDecode op.codecs.defaultBackend)) {data block : List UInt8}
    (hdata : data≠[]) (hlen : data.length≤blockSize)
    (hdecodes : decodeStream LzvnCodec.decode block=some data) :
    PipelineRoundTrip.decompressItem readBuild op.codecs (op.encoder.kind,block)=.ok data := by
  have hroom : data.length<compressedBlockCapacity := by
    unfold compressedBlockCapacity
    omega
  unfold PipelineRoundTrip.decompressItem
  rw [h.encoder]
  unfold decompress Encoder.ofKind
  dsimp only
  rw [decompress_of_reads hreads hdecodes hdata hroom,nonzeroSize_of hdata]

/-- Nothing else is needed of the codecs. -/
theorem Vendored.returns (h : Vendored op stray isUltra)
    (hreads : Reads (op.codecs.lzfseDecode op.codecs.defaultBackend)) (readBuild : Build) :
    op.Returns readBuild := by
  intro data hdata hlen
  obtain ⟨hblock,hdecodes⟩ := h.compressItem hlen
  refine ⟨fun message hbad => ?_,fun other hother => ?_⟩
  · rw [hblock] at hbad
    cases hbad
  · rw [hblock] at hother
    obtain rfl := Except.ok.inj hother
    exact ⟨decodeStream_ne hdecodes,h.decompressItem hreads hdata hlen hdecodes⟩

variable {σ δ : Type} [WriteSeek σ] [LawfulWriteSeek σ] [RawSink δ] [LawfulRawSink δ]

/-- A file that was compressed with a vendored backend is restored by every run of manual
decompression whose decoder reads the format, whatever the other codecs do. -/
theorem vendored_file_restored (h : Vendored op stray isUltra)
    (hreads : Reads (op.codecs.lzfseDecode op.codecs.defaultBackend)) {parallelism : Option ℕ+}
    {source : Source} {opener : Except Fault σ} {w : Writer σ}
    {trace : List (Pipeline.State (Kind×List UInt8) (List UInt8) (ℕ×Writer σ)×Pipeline.Event)}
    {s : Pipeline.State (Kind×List UInt8) (List UInt8) (ℕ×Writer σ)}
    {value : List UInt8} {fork : Option σ} {opened : Except Fault Cursor}
    {ready : ℕ→δ→Prop} {dst : δ} (hsize : source.rest.length<2^32-1)
    (hempty : ∀ fresh, opener=.ok fresh → view fresh=.empty)
    (hnew : Writer.new op.encoder.kind source.rest.length opener=.ok w)
    (run : Run (Pipeline.step (compressPlan op source.rest.length source))
      (Pipeline.initial (compressPlan op source.rest.length source) (0,w)) trace s)
    (hok : produced op.build s=some (.ok value fork))
    (hfork : ∀ finished, fork=some finished →
      (stored finished).length≤u32Max ∧ opened=.ok ⟨stored finished,0⟩)
    (hdst : Accepting ready) (hready : ready source.rest.length dst) :
    Restores (decompressPlan readBuild parallelism op.codecs (.ok (some value)) opened) dst
      source.rest := by
  obtain ⟨chunks,blocks,r,hchunks,hopen,hkind,hdelivers,hback⟩ :=
    returned_delivers (h.returns hreads readBuild) (by omega) hempty hnew run hok hfork
  have hreading := withCompressedBlocks_delivers hopen hdelivers
  rw [hkind] at hreading
  refine restores_of_works hdst hready hchunks.flatten ?_ ?_ ?_ ?_ rfl
  · exact threads_pos parallelism
  · change (withCompressedBlocks readBuild (.ok (some value)) opened).ending=_
    rw [hreading]
  · change (withCompressedBlocks readBuild (.ok (some value)) opened).slotHeld=_
    rw [hreading]
  · change (withCompressedBlocks readBuild (.ok (some value)) opened).items.map _=_
    rw [hreading]
    exact hback

/-- The workers encode the blocks of a file. -/
theorem Vendored.works (h : Vendored op stray isUltra) {chunks : List (List UInt8)}
    (hchunks : ∀ data∈chunks, data≠[] ∧ data.length≤blockSize) :
    (chunks.map fun data => (op.encoder.kind,data)).map (PipelineRoundTrip.compressItem op)=
      (chunks.map (VendorBackends.encode stray isUltra compressedBlockCapacity)).map .ok := by
  rw [List.map_map,List.map_map]
  refine List.map_congr_left fun data hdata => ?_
  exact (h.compressItem (hchunks data hdata).2).1

omit [LawfulWriteSeek σ] in
/-- If a file is read and the writer takes its encoded blocks one after the other, then every run of
compressing it ends, and whatever it returns is what the writer returns for these blocks. -/
theorem vendored_file_completes (h : Vendored op stray isUltra) {source : Source} {w t : Writer σ}
    {total : ℕ} (hread : (withFileChunks tryReadAll source.rest.length source).ending=.ok ())
    (hwrite : consumeAll (writeBlock op.build op.maxCompressedSize op.percent)
      ((withFileChunks tryReadAll source.rest.length source).items.map
        (VendorBackends.encode stray isUltra compressedBlockCapacity)) (0,w)=.ok () (total,t))
    {trace : List (Pipeline.State (Kind×List UInt8) (List UInt8) (ℕ×Writer σ)×Pipeline.Event)}
    {s : Pipeline.State (Kind×List UInt8) (List UInt8) (ℕ×Writer σ)}
    (run : Run (Pipeline.step (compressPlan op source.rest.length source))
      (Pipeline.initial (compressPlan op source.rest.length source) (0,w)) trace s) :
    trace.length≤8*numBlocks source.rest.length+13 ∧
      ((∀ e, Pipeline.step (compressPlan op source.rest.length source) s e=none) →
        ∃ result, produced op.build s=some result) ∧
      ∀ result, produced op.build s=some result → result=finishDecmpfsData op.build t := by
  obtain ⟨hchunks,hheld⟩ := withFileChunks_ok hread
  have hhealthy : PipelineRuns.Healthy (compressPlan op source.rest.length source) (0,w)
      ((withFileChunks tryReadAll source.rest.length source).items.map
        (VendorBackends.encode stray isUltra compressedBlockCapacity)) (total,t) :=
    ⟨hread,hheld,h.works hchunks.each,hwrite⟩
  have hcompletes := hhealthy.completes (threads_pos op.parallelism)
  have hdone : ∀ {result : Except Fault Unit}, s.queue.receiver=.done result →
      produced op.build s=some (finishDecmpfsData op.build t) := by
    intro result hr
    obtain ⟨rfl,hsink⟩ := hcompletes.succeeds run hr
    unfold produced
    rw [hr,hsink]
  refine ⟨?_,fun hstuck => ?_,fun result hresult => ?_⟩
  · have hbounded := hcompletes.bounded run
    have hcount : (compressPlan op source.rest.length source :
        Plan _ _ (ℕ×Writer σ)).reading.items.length=numBlocks source.rest.length := by
      rw [←hchunks.count]
      exact List.length_map _
    rw [hcount] at hbounded
    exact hbounded
  · obtain ⟨⟨result,hr⟩,_⟩ := hcompletes.ends run hstuck
    exact ⟨_,hdone hr⟩
  · cases hr : s.queue.receiver with
    | done outcome =>
      rw [hdone hr] at hresult
      exact (Option.some.inj hresult).symm
    | receiving => unfold produced at hresult; rw [hr] at hresult; cases hresult
    | awaiting slot => unfold produced at hresult; rw [hr] at hresult; cases hresult
    | applying block => unfold produced at hresult; rw [hr] at hresult; cases hresult
    | finishing => unfold produced at hresult; rw [hr] at hresult; cases hresult
    | taking => unfold produced at hresult; rw [hr] at hresult; cases hresult

/-- The preset for 48 zeros, whose stream is known, and for everything else. -/
def zerosEncode (dst : ℕ) (src : List UInt8) : List UInt8 :=
  if dst=compressedBlockCapacity ∧ src=List.replicate 48 0 then zerosStream else encode 0 true dst src

/-- It is the preset. -/
theorem zerosEncode_eq : zerosEncode=encode 0 true := by
  funext dst src
  unfold zerosEncode
  split
  · next h =>
    obtain ⟨rfl,rfl⟩ := h
    exact encode_zeros.symm
  · rfl

/-- Codecs of which only one is used. -/
def vendorCodecs : Codecs :=
  {refusingCodecs with lzfseEncode := fun _ => zerosEncode, lzfseDecode := fun _ => formatDecode}

/-- Compressing 48 zeros, which may take 45 bytes. -/
def vendorCompression : Compression :=
  ⟨.debug,none,vendorCodecs,⟨.lzfse,.vendorUltra⟩,storedCompression.level,45,"95"⟩

/-- It is with a vendored backend. -/
theorem vendorCompression_vendored : Vendored vendorCompression 0 true := ⟨rfl,zerosEncode_eq⟩

/-- 48 zeros behind a short and an interrupted read. -/
def zeros : Source := ⟨List.replicate 48 0,[.accept 10,.interrupted]⟩

/-- The writer of a file of 48 bytes. -/
def zerosWriter : Writer Cursor := ⟨.lzfse,48,.singleBlock (.ok .empty) []⟩

/-- 48 zeros come back from the 32 bytes that are stored for them. -/
theorem vendored_file_restored_zeros :
    zerosStream.length=32 ∧ Restores (decompressPlan .debug none vendorCodecs
      (.ok (some (Value.toBytes ⟨.new .lzfse .xattr,48,zerosStream⟩))) (.ok .empty))
      (⟨.empty,[.interrupted,.accept 2]⟩ : DeviceFile) (List.replicate 48 0) := by
  have hready : Obliging ⟨.empty,[.interrupted,.accept 2]⟩ := by
    intro answer hanswer
    rcases List.mem_cons.mp hanswer with rfl|hrest
    · exact Or.inl rfl
    · exact Or.inr ⟨2,Nat.zero_lt_two,List.mem_singleton.mp hrest⟩
  have hnew : Writer.new .lzfse zeros.rest.length (.ok .empty)=.ok zerosWriter := by
    unfold Writer.new
    rw [if_neg (by decide)]
    rfl
  exact ⟨rfl,@vendored_file_restored vendorCompression 0 true .debug Cursor DeviceFile _ _ _ _
    vendorCompression_vendored formatDecode_reads none zeros (.ok .empty) zerosWriter _ _ _ none
    (.ok .empty) _ _ (by decide) (fun fresh h => (by cases h; rfl)) hnew
    (@run_of_replay _ _ (Pipeline.step (compressPlan vendorCompression 48 zeros)) _ _
      threeByteEvents _ rfl)
    rfl (fun _ hbad => by cases hbad) obliging_accepting hready⟩

/-- Compressing 48 zeros ends with the 32 bytes that stand for them, whatever the order of the
threads. -/
theorem vendored_file_completes_zeros : ∃ trace s,
    Run (Pipeline.step (compressPlan vendorCompression 48 zeros))
      (Pipeline.initial (compressPlan vendorCompression 48 zeros) (0,zerosWriter)) trace s ∧
      trace.length=13 ∧ trace.length≤8*numBlocks zeros.rest.length+13 ∧
      produced .debug s=some (.ok (Value.toBytes ⟨.new .lzfse .xattr,48,zerosStream⟩) none) ∧
      ∀ result, produced .debug s=some result → result=finishDecmpfsData .debug
        ⟨.lzfse,48,.singleBlock (.ok .empty) zerosStream⟩ := by
  have run := @run_of_replay _ _ (Pipeline.step (compressPlan vendorCompression 48 zeros))
    (Pipeline.initial (compressPlan vendorCompression 48 zeros) (0,zerosWriter)) _
    threeByteEvents _ rfl
  have h := @vendored_file_completes vendorCompression 0 true Cursor _ vendorCompression_vendored zeros
    zerosWriter ⟨.lzfse,48,.singleBlock (.ok .empty) zerosStream⟩ 32 rfl
    (by rw [←zerosEncode_eq]; rfl) _ _ run
  exact ⟨_,_,run,rfl,h.1,rfl,h.2.2⟩

end Files

end Applesauce.VendorBackends
