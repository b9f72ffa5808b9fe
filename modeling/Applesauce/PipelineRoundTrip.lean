import Mathlib.Data.PNat.Notation
import Applesauce.PipelineRuns
import Applesauce.StagedOutput
import Applesauce.FormatRoundTrip
import Applesauce.Compressors

/-!
# Compressing a file and decompressing it again

The pipeline is run twice: once to cut a file into blocks, compress them and
fill a decmpfs writer, and once to read those blocks back, decompress them
and write them out. Both times the workers finish in any order. What comes
out is what went in.
-/

namespace Applesauce.PipelineRoundTrip

open RustIo TransitionSystem SeekableFile BufferedSink ScratchPayload DecmpfsValue DecmpfsReader
open DecmpfsWriter FormatRoundTrip PayloadCopy StagedOutput BlockReading Compressors Pipeline
open PipelineRuns LawfulRawSink LawfulWriteSeek

/-- What compressing a file depends on, apart from the file. -/
structure Compression where
  /-- The build profile. -/
  build : Build
  /-- `available_parallelism`, if it is known. -/
  parallelism : Option ℕ+
  /-- The foreign codecs. -/
  codecs : Codecs
  /-- The encoder of the mode. -/
  encoder : Encoder
  /-- The level of the mode. -/
  level : CompressionLvl
  /-- The part of the file size that the blocks may take together. -/
  maxCompressedSize : ℕ
  /-- The minimum ratio, as it is printed. -/
  percent : String

section Workers

/-- The end of `handle_item` of the workers: a size of zero is a bug. -/
def nonzeroSize (build : Build) : Except Fault (List UInt8)→Except Fault (List UInt8)
  | .error e => .error e
  | .ok block =>
    if build=.debug ∧ block=[] then .error (.panic "assertion failed: size != 0") else .ok block

/-- `handle_item` of the workers when compressing. -/
def compressItem (op : Compression) (item : Kind×List UInt8) : Except Fault (List UInt8) :=
  if op.build=.debug ∧ op.encoder.kind≠item.1 then
    .error (.panic "assertion `left == right` failed")
  else nonzeroSize op.build
    (compress op.build op.codecs op.encoder op.level compressedBlockCapacity item.2)

/-- `handle_item` of the workers when decompressing. -/
def decompressItem (build : Build) (codecs : Codecs) (item : Kind×List UInt8) :
    Except Fault (List UInt8) :=
  nonzeroSize build
    (decompress build codecs (.ofKind codecs item.1) compressedBlockCapacity item.2)

/-- A result that passed the check is the result. -/
theorem nonzeroSize_ok {build : Build} {result : Except Fault (List UInt8)} {block : List UInt8}
    (h : nonzeroSize build result=.ok block) : result=.ok block := by
  cases result with
  | error e => cases h
  | ok other =>
    unfold nonzeroSize at h
    dsimp only at h
    split at h
    · cases h
    · exact h

/-- A block that is not empty passes the check. -/
theorem nonzeroSize_of {build : Build} {block : List UInt8} (h : block≠[]) :
    nonzeroSize build (.ok block)=.ok block := by
  unfold nonzeroSize
  dsimp only
  rw [if_neg (fun hbad => h hbad.2)]

/-- What a worker compressed, a worker decompresses. -/
theorem compressItem_roundTrips {op : Compression} (hcodecs : op.codecs.Faithful) (readBuild : Build)
    {data block : List UInt8} (hdata : data≠[])
    (h : compressItem op (op.encoder.kind,data)=.ok block) :
    block≠[] ∧ decompressItem readBuild op.codecs (op.encoder.kind,block)=.ok data := by
  unfold compressItem at h
  rw [if_neg (fun hbad => hbad.2 rfl)] at h
  have htrip := @compress_roundTrips op.codecs hcodecs op.build readBuild op.encoder op.level _ data
    block hdata (nonzeroSize_ok h)
  refine ⟨htrip.ne,?_⟩
  unfold decompressItem
  rw [htrip.back]
  exact nonzeroSize_of hdata

/-- Compressing a block of the file does not panic. -/
theorem compressItem_calm {op : Compression} (hcodecs : op.codecs.Faithful) {data : List UInt8}
    (hdata : data≠[]) (hlen : data.length≤blockSize) (message : String) :
    compressItem op (op.encoder.kind,data)≠.error (.panic message) := by
  have hroom : data.length<compressedBlockCapacity := by
    unfold compressedBlockCapacity
    omega
  unfold compressItem
  rw [if_neg (fun hbad => hbad.2 rfl)]
  cases hresult : compress op.build op.codecs op.encoder op.level compressedBlockCapacity data with
  | error e =>
    intro hbad
    obtain rfl := Except.error.inj hbad
    exact compress_calm hcodecs op.build op.encoder op.level hroom message hresult
  | ok block =>
    have hne := (@compress_roundTrips op.codecs hcodecs op.build op.build op.encoder op.level _ data
      block hdata hresult).ne
    rw [nonzeroSize_of hne]
    nofun

/-- No block of a file makes the workers panic, and what they return for it is not empty and
decompresses to it. -/
def Compression.Returns (op : Compression) (readBuild : Build) : Prop :=
  ∀ data, data≠[] → data.length≤blockSize →
    (∀ message, compressItem op (op.encoder.kind,data)≠.error (.panic message)) ∧
      ∀ block, compressItem op (op.encoder.kind,data)=.ok block →
        block≠[] ∧ decompressItem readBuild op.codecs (op.encoder.kind,block)=.ok data

/-- With faithful codecs it is so. -/
theorem returns_of_faithful {op : Compression} (hcodecs : op.codecs.Faithful) (readBuild : Build) :
    op.Returns readBuild := fun _ hdata hlen =>
  ⟨compressItem_calm hcodecs hdata hlen,fun _ h => compressItem_roundTrips hcodecs readBuild hdata h⟩

/-- What the workers compressed, block by block, they decompress block by block. -/
theorem compressItems_roundTrip {op : Compression} {readBuild : Build} (hreturns : op.Returns readBuild)
    {chunks blocks : List (List UInt8)} (hchunks : ∀ data∈chunks, data≠[] ∧ data.length≤blockSize)
    (h : (chunks.map (fun data => (op.encoder.kind,data))).map (compressItem op)=blocks.map .ok) :
    (∀ block∈blocks, block≠[]) ∧
      (blocks.map (fun block => (op.encoder.kind,block))).map (decompressItem readBuild op.codecs)=
        chunks.map .ok := by
  induction chunks generalizing blocks with
  | nil =>
    cases blocks with
    | nil => exact ⟨nofun,rfl⟩
    | cons block blocks => cases h
  | cons data chunks ih =>
    cases blocks with
    | nil => cases h
    | cons block blocks =>
      simp only [List.map_cons,List.cons.injEq] at h
      obtain ⟨hfirst,hrest⟩ := h
      obtain ⟨hne,hlen⟩ := hchunks data List.mem_cons_self
      obtain ⟨hblock,hback⟩ := (hreturns data hne hlen).2 block hfirst
      obtain ⟨hblocks,hbacks⟩ := ih (fun other hother => hchunks other (List.mem_cons_of_mem _ hother))
        hrest
      refine ⟨fun other hother => ?_,?_⟩
      · rcases List.mem_cons.mp hother with rfl|hother
        · exact hblock
        · exact hblocks other hother
      · simp only [List.map_cons,List.cons.injEq]
        exact ⟨hback,hbacks⟩

end Workers

section Compressing
variable {σ : Type} [WriteSeek σ]

/-- The callback of `write_blocks`. The state is the size so far and the writer. -/
def writeBlock (build : Build) (maxCompressedSize : ℕ) (percent : String) (block : List UInt8) :
    Io (ℕ×Writer σ) Unit := fun (total,w) =>
  if total+block.length≤ maxCompressedSize then
    match addBlock build block w with
    | .error e w => .error e (total+block.length,w)
    | .ok _ w => .ok () (total+block.length,w)
  else .error (.error (notCompressibleEnough percent)) (total+block.length,w)

/-- The threads that compress a file of this length. -/
def compressPlan (op : Compression) (expectedLen : ℕ) (file : Source) :
    Plan (Kind×List UInt8) (List UInt8) (ℕ×Writer σ) where
  capacity := (op.parallelism.map PNat.val).getD 4
  threads := (op.parallelism.map PNat.val).getD 1
  inline := false
  reading := (withFileChunks tryReadAll expectedLen file).map (fun data => (op.encoder.kind,data))
  hungUp := .ok ()
  work := compressItem op
  consume := writeBlock op.build op.maxCompressedSize op.percent

/-- What the compressing writer produces, once `write_blocks` has returned. -/
def produced (build : Build) (s : Pipeline.State (Kind×List UInt8) (List UInt8) (ℕ×Writer σ)) :
    Option (EStateM.Result Fault (Option σ) (List UInt8)) :=
  match s.queue.receiver with
  | .done (.ok _) => some (finishDecmpfsData build s.sink.2)
  | .done (.error e) => some (.error e s.sink.2.fork)
  | _ => none

/-- Consuming blocks one by one is `write_blocks`. -/
theorem writeBlocks_of_consumeAll {build : Build} {maxCompressedSize total n : ℕ} {percent : String}
    {blocks : List (List UInt8)} {w t : Writer σ} {u : Unit}
    (h : consumeAll (writeBlock build maxCompressedSize percent) blocks (total,w)=.ok u (n,t)) :
    writeBlocks build maxCompressedSize percent (.ok ()) total blocks w=.ok () t := by
  induction blocks generalizing total w with
  | nil =>
    cases h
    rfl
  | cons block blocks ih =>
    obtain ⟨_,mid,hfirst,hrest⟩ := bind_ok_iff.mp h
    unfold writeBlock at hfirst
    dsimp only at hfirst
    by_cases hfit : total+block.length≤ maxCompressedSize
    · rw [if_pos hfit] at hfirst
      cases hadd : addBlock build block w with
      | error e after => rw [hadd] at hfirst; cases hfirst
      | ok _ after =>
        rw [hadd] at hfirst
        cases hfirst
        simp only [writeBlocks,bind_ok_iff]
        exact ⟨(),w,ensure_of _ _ hfit,(),after,hadd,ih hrest⟩
    · rw [if_neg hfit] at hfirst
      cases hfirst

end Compressing

section Decompressing
variable {ι δ : Type} [RawSink δ]

/-- The callback of `write_uncompressed_blocks`. The state is what remains and
the destination. -/
def writeChunk (chunk : List UInt8) : Io (ℕ×δ) Unit := fun (remaining,dst) =>
  if chunk.length≤remaining then
    match BufferedSink.writeAll chunk dst with
    | .error e dst => .error e (remaining-chunk.length,dst)
    | .ok _ dst => .ok () (remaining-chunk.length,dst)
  else .error (.error tooLongError) (remaining,dst)

/-- The error of a reader that nobody listens to. -/
def hungUpError : IoError := .new .other "error must have occurred writing"

/-- The threads that decompress a file manually. -/
def decompressPlan (build : Build) (parallelism : Option ℕ+) (codecs : Codecs)
    (value : Except Fault (Option (List UInt8))) (opened : Except Fault Cursor) :
    Plan (Kind×List UInt8) (List UInt8) (ℕ×δ) where
  capacity := (parallelism.map PNat.val).getD 4
  threads := (parallelism.map PNat.val).getD 1
  inline := false
  reading := withCompressedBlocks build value opened
  hungUp := .error (.error hungUpError)
  work := decompressItem build codecs
  consume := writeChunk

/-- The threads that decompress a file of this length by reading it: the system
decompresses, and the reader finishes its slots itself. -/
def readThroughPlan (parallelism : Option ℕ+) (expectedLen : ℕ) (file : Source) :
    Plan (List UInt8) (List UInt8) (ℕ×δ) where
  capacity := (parallelism.map PNat.val).getD 4
  threads := (parallelism.map PNat.val).getD 1
  inline := true
  reading := withFileChunks tryReadAll expectedLen file
  hungUp := .ok ()
  work := .ok
  consume := writeChunk

/-- What `write_uncompressed_blocks` returns behind its queue. -/
def written (s : Pipeline.State ι (List UInt8) (ℕ×δ)) : Option (EStateM.Result Fault δ Unit) :=
  match s.queue.receiver with
  | .done result => some (writeUncompressedBlocks result s.sink.1 [] s.sink.2)
  | _ => none

/-- A destination that takes what there is room for. -/
structure Accepting (ready : ℕ→δ→Prop) : Prop where
  write : ∀ {room : ℕ} {data : List UInt8} {s : δ}, ready room s → data.length≤room →
    ∃ t, BufferedSink.writeAll data s=.ok () t ∧ ready (room-data.length) t
  flush : ∀ {room : ℕ} {s : δ}, ready room s → ∃ t, RawSink.flush s=.ok () t

/-- Chunks that there is room for are written one after the other. -/
theorem consumeAll_writeChunk [LawfulRawSink δ] {ready : ℕ→δ→Prop} (hdst : Accepting ready) {room : ℕ}
    {chunks : List (List UInt8)} {s : δ} (hs : ready room s) (hroom : chunks.flatten.length≤room) :
    ∃ t, consumeAll writeChunk chunks (room,s)=.ok () (room-chunks.flatten.length,t) ∧
      ready (room-chunks.flatten.length) t ∧ file t=(file s).write chunks.flatten := by
  induction chunks generalizing room s with
  | nil => exact ⟨s,rfl,hs,(Cursor.write_nil _).symm⟩
  | cons chunk chunks ih =>
    rw [List.flatten_cons,List.length_append] at hroom ⊢
    obtain ⟨t,hwrite,ht⟩ := hdst.write hs (Nat.le_of_add_right_le hroom)
    obtain ⟨u,hrest,hu,hfile⟩ := ih ht (by omega)
    have hfirst : writeChunk chunk (room,s)=.ok () (room-chunk.length,t) := by
      unfold writeChunk
      dsimp only
      rw [if_pos (Nat.le_of_add_right_le hroom),hwrite]
    have hsub : room-chunk.length-chunks.flatten.length=
        room-(chunk.length+chunks.flatten.length) := Nat.sub_sub _ _ _
    rw [hsub] at hrest hu
    refine ⟨u,?_,hu,?_⟩
    · unfold consumeAll
      rw [bind_of_ok hfirst]
      exact hrest
    · rw [hfile,BufferedSink.writeAll_ok hwrite,Cursor.write_append]

/-- A device that is never full and never fails: its writes can be short or
interrupted. -/
def Obliging (f : DeviceFile) : Prop :=
  ∀ answer∈f.answers, answer=.interrupted ∨ ∃ limit, 0<limit ∧ answer=.accept limit

/-- An obliging device accepts everything. -/
theorem acceptLoop_obliging {zero : IoError} {fuel : ℕ} {data : List UInt8} {f : DeviceFile}
    (hf : Obliging f) (hfuel : f.answers.length+data.length≤fuel) :
    ∃ t, acceptLoop zero fuel f data=.ok () (t,[]) ∧ Obliging t := by
  induction fuel generalizing data f with
  | zero =>
    have hnil : data=[] := List.length_eq_zero_iff.mp (by omega)
    subst hnil
    exact ⟨f,rfl,hf⟩
  | succ fuel ih =>
    cases data with
    | nil => exact ⟨f,rfl,hf⟩
    | cons byte bytes =>
      obtain ⟨contents,answers⟩ := f
      cases answers with
      | nil =>
        have hone : RawSink.write (byte::bytes) (⟨contents,[]⟩ : DeviceFile)=
            .ok (bytes.length+1) ⟨contents.write (byte::bytes),[]⟩ := rfl
        obtain ⟨t,ht,hobliging⟩ := @ih [] ⟨contents.write (byte::bytes),[]⟩ nofun (Nat.zero_le _)
        refine ⟨t,?_,hobliging⟩
        unfold acceptLoop
        rw [hone]
        dsimp only
        rw [List.drop_length]
        exact ht
      | cons answer answers =>
        have hrest : ∀ contents, Obliging ⟨contents,answers⟩ :=
          fun contents other hother => hf other (List.mem_cons_of_mem _ hother)
        simp only [List.length_cons] at hfuel
        rcases hf answer List.mem_cons_self with rfl|⟨limit,hlimit,rfl⟩
        · have hone : RawSink.write (byte::bytes) (⟨contents,.interrupted::answers⟩ : DeviceFile)=
              .error (.error interruptedError) ⟨contents,answers⟩ := rfl
          obtain ⟨t,ht,hobliging⟩ := @ih (byte::bytes) ⟨contents,answers⟩ (hrest contents)
            (by simp only [List.length_cons]; omega)
          refine ⟨t,?_,hobliging⟩
          unfold acceptLoop
          rw [hone]
          exact ht
        · obtain ⟨n,hn⟩ : ∃ n, min limit (bytes.length+1)=n+1 :=
            Nat.exists_eq_succ_of_ne_zero (by omega)
          have hone : RawSink.write (byte::bytes) (⟨contents,.accept limit::answers⟩ : DeviceFile)=
              .ok (n+1) ⟨contents.write ((byte::bytes).take (n+1)),answers⟩ := by
            rw [←hn]
            rfl
          obtain ⟨t,ht,hobliging⟩ := @ih (bytes.drop n) ⟨contents.write ((byte::bytes).take (n+1)),answers⟩
            (hrest _) (by rw [List.length_drop]; dsimp only; omega)
          refine ⟨t,?_,hobliging⟩
          unfold acceptLoop
          rw [hone]
          exact ht

/-- An obliging device has room for everything. -/
theorem obliging_accepting : Accepting (fun _ (f : DeviceFile) => Obliging f) := by
  refine ⟨fun {_ data s} hs _ => ?_,fun {_ s} _ => ⟨s,rfl⟩⟩
  obtain ⟨t,ht,hobliging⟩ := @acceptLoop_obliging wholeBufferError _ data s hs (Nat.le_refl _)
  refine ⟨t,?_,hobliging⟩
  unfold BufferedSink.writeAll accept
  have hpatience : RawSink.patience s=s.answers.length := rfl
  rw [hpatience,ht]

end Decompressing

section RoundTrip
variable {ι σ δ : Type} [WriteSeek σ] [LawfulWriteSeek σ] [RawSink δ] [LawfulRawSink δ]

omit [WriteSeek σ] [LawfulWriteSeek σ] in
/-- Compressing the blocks of a file does not panic, however reading ends. -/
theorem compressPlan_calm [WriteSeek σ] {op : Compression} {readBuild : Build}
    (hreturns : op.Returns readBuild) (source : Source) :
    (compressPlan op source.rest.length source : Plan _ _ (ℕ×Writer σ)).Calm := by
  intro item hitem message
  obtain ⟨data,hdata,rfl⟩ := List.mem_map.mp hitem
  obtain ⟨hne,hlen⟩ := chunkLoop_items data hdata
  exact (hreturns data hne hlen).1 message

/-- What a successful compression has produced: the blocks of the file, each
decompressed by the workers, in a form that a reader delivers. -/
theorem returned_delivers {op : Compression} {readBuild : Build} (hreturns : op.Returns readBuild)
    {source : Source} {opener : Except Fault σ} {w : Writer σ}
    {trace : List (Pipeline.State (Kind×List UInt8) (List UInt8) (ℕ×Writer σ)×Pipeline.Event)}
    {s : Pipeline.State (Kind×List UInt8) (List UInt8) (ℕ×Writer σ)}
    {value : List UInt8} {fork : Option σ} {opened : Except Fault Cursor}
    (hsize : source.rest.length<2^64) (hempty : ∀ fresh, opener=.ok fresh → view fresh=.empty)
    (hnew : Writer.new op.encoder.kind source.rest.length opener=.ok w)
    (run : Run (Pipeline.step (compressPlan op source.rest.length source))
      (Pipeline.initial (compressPlan op source.rest.length source) (0,w)) trace s)
    (hok : produced op.build s=some (.ok value fork))
    (hfork : ∀ finished, fork=some finished →
      (stored finished).length≤u32Max ∧ opened=.ok ⟨stored finished,0⟩) :
    ∃ chunks blocks r, Blocks source.rest chunks ∧
      Reader.new readBuild value opened=.ok r ∧ r.kind=op.encoder.kind ∧ Delivers r blocks ∧
      (blocks.map (fun block => (op.encoder.kind,block))).map (decompressItem readBuild op.codecs)=
        chunks.map .ok := by
  have hwired := wired_of_run (compressPlan_calm hreturns source) run
  cases hr : s.queue.receiver with
  | done result =>
    unfold produced at hok
    rw [hr] at hok
    cases result with
    | error e => cases hok
    | ok _ =>
      have hfinish := Option.some.inj hok
      obtain ⟨hending,hwork,hconsumed⟩ := wired_ok hwired hr
      obtain ⟨hchunks,_⟩ := withFileChunks_ok hending
      obtain ⟨hblocks,hback⟩ := compressItems_roundTrip hreturns hchunks.each hwork
      obtain ⟨hadd,_⟩ := writeBlocks_ok (writeBlocks_of_consumeAll hconsumed)
      obtain ⟨hkind,hn,hholds⟩ := new_addBlocks_holds hempty hnew hadd
      rw [countedBlocks_of_ne hblocks] at hholds
      have hout := finishDecmpfsData_outcome hholds hfinish
      rw [hkind,hn] at hout
      have hcount : s.queue.seen.length=numBlocks source.rest.length := by
        have hlen := congrArg List.length hback
        rw [List.length_map,List.length_map,List.length_map] at hlen
        exact hlen.trans hchunks.count
      have hbytes : ∀ bytes, fork.map stored=some bytes →
          bytes.length≤u32Max ∧ opened=.ok ⟨bytes,0⟩ := by
        intro bytes hbytes
        obtain ⟨finished,hf,rfl⟩ := Option.map_eq_some_iff.mp hbytes
        exact hfork finished hf
      obtain ⟨r,hopen,hkindRead,hdelivers⟩ := @outcome_delivers readBuild _ _ _ _ _ opened hsize hcount
        hblocks hout hbytes
      exact ⟨_,_,r,hchunks,hopen,hkindRead,hdelivers,hback⟩
  | receiving => unfold produced at hok; rw [hr] at hok; cases hok
  | awaiting slot => unfold produced at hok; rw [hr] at hok; cases hok
  | applying block => unfold produced at hok; rw [hr] at hok; cases hok
  | finishing => unfold produced at hok; rw [hr] at hok; cases hok
  | taking => unfold produced at hok; rw [hr] at hok; cases hok

/-- With faithful codecs, a successful compression has produced what a reader delivers. -/
theorem produced_delivers {op : Compression} (hcodecs : op.codecs.Faithful) (readBuild : Build)
    {source : Source} {opener : Except Fault σ} {w : Writer σ}
    {trace : List (Pipeline.State (Kind×List UInt8) (List UInt8) (ℕ×Writer σ)×Pipeline.Event)}
    {s : Pipeline.State (Kind×List UInt8) (List UInt8) (ℕ×Writer σ)}
    {value : List UInt8} {fork : Option σ} {opened : Except Fault Cursor}
    (hsize : source.rest.length<2^64) (hempty : ∀ fresh, opener=.ok fresh → view fresh=.empty)
    (hnew : Writer.new op.encoder.kind source.rest.length opener=.ok w)
    (run : Run (Pipeline.step (compressPlan op source.rest.length source))
      (Pipeline.initial (compressPlan op source.rest.length source) (0,w)) trace s)
    (hok : produced op.build s=some (.ok value fork))
    (hfork : ∀ finished, fork=some finished →
      (stored finished).length≤u32Max ∧ opened=.ok ⟨stored finished,0⟩) :
    ∃ chunks blocks r, Blocks source.rest chunks ∧
      Reader.new readBuild value opened=.ok r ∧ r.kind=op.encoder.kind ∧ Delivers r blocks ∧
      (blocks.map (fun block => (op.encoder.kind,block))).map (decompressItem readBuild op.codecs)=
        chunks.map .ok :=
  returned_delivers (returns_of_faithful hcodecs readBuild) hsize hempty hnew run hok hfork

/-- What decompressing a file does in every run: it ends, it returns success when
no thread can move any more, and whatever it returns is success with exactly
the content written behind what the destination held. -/
structure Restores (plan : Plan ι (List UInt8) (ℕ×δ)) (dst : δ)
    (content : List UInt8) : Prop where
  bounded : ∀ {trace : List (Pipeline.State ι (List UInt8) (ℕ×δ)×Pipeline.Event)}
    {s : Pipeline.State ι (List UInt8) (ℕ×δ)},
    Run (Pipeline.step plan) (Pipeline.initial plan (content.length,dst)) trace s →
      trace.length≤8*plan.reading.items.length+13
  returns : ∀ {trace : List (Pipeline.State ι (List UInt8) (ℕ×δ)×Pipeline.Event)}
    {s : Pipeline.State ι (List UInt8) (ℕ×δ)},
    Run (Pipeline.step plan) (Pipeline.initial plan (content.length,dst)) trace s →
      (∀ e, Pipeline.step plan s e=none) → ∃ t, written s=some (.ok () t)
  exact : ∀ {trace : List (Pipeline.State ι (List UInt8) (ℕ×δ)×Pipeline.Event)}
    {s : Pipeline.State ι (List UInt8) (ℕ×δ)} {result : EStateM.Result Fault δ Unit},
    Run (Pipeline.step plan) (Pipeline.initial plan (content.length,dst)) trace s →
      written s=some result → ∃ t, result=.ok () t ∧ file t=(file dst).write content

/-- There is always a worker. -/
theorem threads_pos (parallelism : Option ℕ+) : 0<(parallelism.map PNat.val).getD 1 := by
  cases parallelism with
  | none => exact Nat.zero_lt_one
  | some n => exact n.pos

/-- Blocks that decompress to the chunks of a content are restored to it. -/
theorem restores_of_works {plan : Plan ι (List UInt8) (ℕ×δ)} {ready : ℕ→δ→Prop}
    (hdst : Accepting ready) {dst : δ} {content : List UInt8} {chunks : List (List UInt8)}
    (hready : ready content.length dst) (hchunks : chunks.flatten=content) (hthreads : 0<plan.threads)
    (hending : plan.reading.ending=.ok ()) (hheld : plan.reading.slotHeld=false)
    (hworks : plan.reading.items.map plan.work=chunks.map .ok) (hconsume : plan.consume=writeChunk) :
    Restores plan dst content := by
  obtain ⟨final,hconsumed,hfinal,hfile⟩ := consumeAll_writeChunk hdst hready
    (Nat.le_of_eq (by rw [hchunks]))
  rw [hchunks,Nat.sub_self] at hconsumed hfinal
  rw [hchunks] at hfile
  have hhealthy : Healthy plan (content.length,dst) chunks (0,final) :=
    ⟨hending,hheld,hworks,by rw [hconsume]; exact hconsumed⟩
  have hcompletes := hhealthy.completes hthreads
  obtain ⟨flushed,hflush⟩ := hdst.flush hfinal
  have hend : writeUncompressedBlocks (.ok ()) 0 [] final=.ok () flushed := by
    unfold writeUncompressedBlocks
    rw [bind_of_ok (show queueEnd (.ok ()) final=.ok () final from rfl),
      bind_of_ok (ensure_of _ _ rfl),hflush]
  have hwritten : ∀ {s : Pipeline.State ι (List UInt8) (ℕ×δ)} {result : Except Fault Unit},
      s.queue.receiver=.done result → result=.ok () ∧ s.sink=(0,final) →
        written s=some (.ok () flushed) := by
    intro s result hr hdone
    obtain ⟨rfl,hsink⟩ := hdone
    unfold written
    rw [hr,hsink]
    dsimp only
    rw [hend]
  refine ⟨hcompletes.bounded,fun run hstuck => ?_,fun {_ s result} run hresult => ?_⟩
  · obtain ⟨⟨result,hr⟩,_⟩ := hcompletes.ends run hstuck
    exact ⟨flushed,hwritten hr (hcompletes.succeeds run hr)⟩
  · cases hr : s.queue.receiver with
    | done outcome =>
      have hok := hwritten hr (hcompletes.succeeds run hr)
      rw [hok] at hresult
      obtain rfl := Option.some.inj hresult
      exact ⟨flushed,rfl,(flush_ok hflush).trans hfile⟩
    | receiving => unfold written at hresult; rw [hr] at hresult; cases hresult
    | awaiting slot => unfold written at hresult; rw [hr] at hresult; cases hresult
    | applying block => unfold written at hresult; rw [hr] at hresult; cases hresult
    | finishing => unfold written at hresult; rw [hr] at hresult; cases hresult
    | taking => unfold written at hresult; rw [hr] at hresult; cases hresult

/-- Decompressing by reading restores what was read, in every run, once reading
the whole file succeeds. -/
theorem readThrough_restores {parallelism : Option ℕ+} {source : Source} {ready : ℕ→δ→Prop} {dst : δ}
    (hread : (withFileChunks tryReadAll source.rest.length source).ending=.ok ())
    (hdst : Accepting ready) (hready : ready source.rest.length dst) :
    Restores (readThroughPlan parallelism source.rest.length source) dst source.rest := by
  obtain ⟨hchunks,hheld⟩ := withFileChunks_ok hread
  refine restores_of_works hdst hready hchunks.flatten (threads_pos parallelism) hread hheld rfl rfl

/-- Round trip of the pipeline: when compressing a file returns success, in
whatever order its blocks were finished and however its reads were shortened
or interrupted, and the fork stays within 32 bits, then every run of manual
decompression on what was produced returns success and writes the file. -/
theorem pipeline_round_trip {op : Compression} (hcodecs : op.codecs.Faithful) {readBuild : Build}
    {parallelism : Option ℕ+} {source : Source} {opener : Except Fault σ} {w : Writer σ}
    {trace : List (Pipeline.State (Kind×List UInt8) (List UInt8) (ℕ×Writer σ)×Pipeline.Event)}
    {s : Pipeline.State (Kind×List UInt8) (List UInt8) (ℕ×Writer σ)}
    {value : List UInt8} {fork : Option σ} {opened : Except Fault Cursor}
    {ready : ℕ→δ→Prop} {dst : δ} (hsize : source.rest.length<2^32-1)
    (hempty : ∀ fresh, opener=.ok fresh → view fresh=.empty)
    (hnew : Writer.new op.encoder.kind source.rest.length opener=.ok w)
    (run : Run (Pipeline.step (compressPlan op source.rest.length source))
      (Pipeline.initial (compressPlan op source.rest.length source) (0,w)) trace s)
    (hok : produced op.build s=some (.ok value fork))
    (hfork : ∀ finished, fork=some finished →
      (stored finished).length≤u32Max ∧ opened=.ok ⟨stored finished,0⟩)
    (hdst : Accepting ready) (hready : ready source.rest.length dst) :
    Restores (decompressPlan readBuild parallelism op.codecs (.ok (some value)) opened) dst
      source.rest := by
  obtain ⟨chunks,blocks,r,hchunks,hopen,hkind,hdelivers,hback⟩ :=
    produced_delivers hcodecs readBuild (by omega) hempty hnew run hok hfork
  have hreading := withCompressedBlocks_delivers hopen hdelivers
  rw [hkind] at hreading
  refine restores_of_works hdst hready hchunks.flatten ?_ ?_ ?_ ?_ rfl
  · exact threads_pos parallelism
  · change (withCompressedBlocks readBuild (.ok (some value)) opened).ending=_
    rw [hreading]
  · change (withCompressedBlocks readBuild (.ok (some value)) opened).slotHeld=_
    rw [hreading]
  · change (withCompressedBlocks readBuild (.ok (some value)) opened).items.map _=_
    rw [hreading]
    exact hback

/-- Codecs that never find anything to gain, as they do on a few bytes. -/
def refusingCodecs : Codecs where
  defaultBackend := .crate
  lzfseEncode := fun _ _ _ => []
  lzfseDecode := fun _ _ _ => []
  lzvnEncode := fun _ _ => []
  lzvnDecode := fun _ _ => []
  zlibCompress := fun _ _ _ => none
  zlibDecompress := fun _ _ => .error "BadData"

/-- Compressing three bytes that no codec shrinks. -/
def storedCompression : Compression :=
  ⟨.debug,none,refusingCodecs,⟨.lzvn,.crate⟩,⟨5,by decide⟩,4,"100"⟩

/-- Three bytes behind a short and an interrupted read. -/
def threeBytes : Source := ⟨[7,8,9],[.accept 1,.interrupted]⟩

/-- The writer of a file of three bytes. -/
def threeByteWriter : Writer Cursor := ⟨.lzvn,3,.singleBlock (.ok .empty) []⟩

/-- The only block is finished after the writer has started to wait for it. -/
def threeByteEvents : List Pipeline.Event :=
  [.reader,.writer,.reader,.take,.reader,.work 0,.work 0,.writer,.writer,.reader,.writer,.writer,.writer]

/-- Three bytes come back, through a destination with short and interrupted writes. -/
theorem pipeline_round_trip_three_bytes :
    Restores (decompressPlan .debug none refusingCodecs
      (.ok (some (Value.toBytes ⟨.new .lzvn .xattr,3,[6,7,8,9]⟩))) (.ok .empty))
      (⟨.empty,[.interrupted,.accept 2]⟩ : DeviceFile) [7,8,9] := by
  have hinverts : ∀ first, Inverts (fun _ _ => []) (fun _ _ => []) first :=
    fun first => ⟨fun _ _ => Nat.zero_le _,nofun,fun _ _ _ hne => (hne rfl).elim⟩
  have hcodecs : refusingCodecs.Faithful :=
    ⟨fun _ => hinverts _,hinverts _,nofun,nofun,nofun⟩
  have hready : Obliging ⟨.empty,[.interrupted,.accept 2]⟩ := by
    intro answer hanswer
    rcases List.mem_cons.mp hanswer with rfl|hrest
    · exact Or.inl rfl
    · exact Or.inr ⟨2,Nat.zero_lt_two,List.mem_singleton.mp hrest⟩
  have hnew : Writer.new .lzvn threeBytes.rest.length (.ok .empty)=.ok threeByteWriter := by
    unfold Writer.new
    rw [if_neg (by decide)]
    rfl
  exact @pipeline_round_trip Cursor DeviceFile _ _ _ _ storedCompression hcodecs .debug none threeBytes
    (.ok .empty) threeByteWriter _ _ _ none (.ok .empty) _ _ (by decide)
    (fun fresh h => (by cases h; rfl)) hnew
    (@run_of_replay _ _ (Pipeline.step (compressPlan storedCompression 3 threeBytes)) _ _ threeByteEvents _ rfl)
    rfl nofun obliging_accepting hready

end RoundTrip

end Applesauce.PipelineRoundTrip
