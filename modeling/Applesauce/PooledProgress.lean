import Applesauce.PooledCourse

/-!
# No deadlock

In a state in which no step is possible, nobody waits for anybody. The
compressors wait for no one, so no block is with them; the publishers wait
for no one either. A writer then waits only for a reader that waits for a
slot of a queue the writer has emptied, so no writer has a file, and no
reader waits for one. All scratch space is given back, so no reader waits for
it, and the scanning thread has nothing left to wait for.
-/

namespace Applesauce.PooledScan

open RustIo SharedHandles FileThreads ScanRun BatchInvariant WorkerPool Tally
open Publication (Mode)

section Definitions

/-- No step is possible. -/
def Stuck (config : Config) (pools : Pools) (s : State) : Prop := ∀ e, step config pools s e=none

/-- The scan has returned and nobody has anything left to do. -/
structure Ended (s : State) : Prop where
  /-- The scan has returned its statistics. -/
  returned : ∃ stats, s.scan.phase=.finished stats
  /-- Every entry was handed over. -/
  entries : s.entries=[]
  /-- Every root was walked and every walker is gone. -/
  walks : s.walks=0 ∧ s.scan.walkers=0
  /-- The readers are idle and their channel is empty. -/
  readers : s.readers=.empty
  /-- So are the compressors. -/
  compressors : s.compressors=.empty
  /-- So are the writers. -/
  writers : s.writers=.empty
  /-- So are the publishers. -/
  publishers : s.publishers=.empty
  /-- All scratch space is given back. -/
  free : s.scan.shared.usage.bytes=0

end Definitions

section Enabled
variable {config : Config} {pools : Pools} {s t : State} {i : ℕ} {f g : File} {d : Feed}

/-- A step on a file that the channels and pools let happen is possible. -/
theorem step_file {move : Move} {shared : Shared}
    (hguard : ¬(s.scan.phase=.sending i ∧ move=.takeRead)) (hfile : s.scan.files[i]?=some f)
    (hfeed : s.feeds[i]?=some d) (hstep : f.step config move s.scan.shared=some (g,shared))
    (hallows : allowsMove config pools s i f d move=some t) :
    step config pools s (.scan (.file i move))=
      some {t with scan := s.scan.update i g shared s.scan.phase} := by
  have hscan : ScanRun.step config s.scan (.file i move)=
      some (s.scan.update i g shared s.scan.phase) := by
    simp only [ScanRun.step]
    rw [if_neg hguard,hfile]
    dsimp only
    rw [hstep]
  have hadmitted : allows config pools s (.file i move)=some t := by
    simp only [allows]
    rw [hfile,hfeed]
    exact hallows
  simp only [step]
  rw [hscan,hadmitted]

/-- A thread whose station is the channel is queued. -/
theorem queued_of_waiting {thread : Thread} (h : station thread=.waiting) : thread.stage=.queued := by
  unfold station at h
  split at h <;> first | assumption | skip
  all_goals first | cases h | skip
  split at h <;> cases h

/-- In a stuck state no step on a file is possible that the channels and pools let happen. -/
theorem Stuck.refuses (h : Stuck config pools s) (move : Move) (hmove : move≠.takeRead)
    (hfile : s.scan.files[i]?=some f) (hfeed : s.feeds[i]?=some d)
    (hallows : allowsMove config pools s i f d move=some t) :
    f.step config move s.scan.shared=none := by
  cases hstep : f.step config move s.scan.shared with
  | none => rfl
  | some result =>
    obtain ⟨g,shared⟩ := result
    have hsome := step_file (fun hboth => hmove hboth.2) hfile hfeed hstep hallows
    rw [h] at hsome
    cases hsome

/-- In a stuck state no step of the reader or the writer of a file is possible. -/
theorem Stuck.feed (h : Stuck config pools s) (hfile : s.scan.files[i]?=some f)
    (hfeed : s.feeds[i]?=some d) (e : FeedEvent) : d.step config.mode pools.slots f e=none := by
  have hnone := h (.feed i e)
  simp only [step] at hnone
  rw [hfile,hfeed] at hnone
  exact Option.map_eq_none_iff.mp hnone

/-- Every file has its feed. -/
theorem Pooled.feed (h : Pooled config s) (hfile : s.scan.files[i]?=some f) :
    ∃ d, s.feeds[i]?=some d := by
  have hlt := (List.getElem?_eq_some_iff.mp hfile).1
  rw [←h.feeds] at hlt
  exact ⟨_,List.getElem?_eq_getElem hlt⟩

end Enabled

section Compressors
variable {config : Config} {pools : Pools} {s : State} {i : ℕ} {f : File}

/-- No compressor is busy in a stuck state, and none has anything to take. -/
theorem Stuck.compressors (hstuck : Stuck config pools s) (h : Pooled config s) :
    s.compressors=.empty := by
  have hbusy : s.compressors.busy=[] := by
    refine List.eq_nil_iff_forall_not_mem.mpr fun i hi => ?_
    have hcount := h.compressors i
    have hpos : 0< s.compressors.busy.count i := List.count_pos_iff.mpr hi
    unfold jobsOf at hcount
    cases hfile : s.scan.files[i]? with
    | none =>
      rw [hfile] at hcount
      simp only [Option.map_none,Option.getD_none] at hcount
      omega
    | some f =>
      obtain ⟨d,hfeed⟩ := h.feed hfile
      rw [hfile] at hcount
      simp only [Option.map_some,Option.getD_some] at hcount
      have hjobs : 0<f.jobs := by omega
      have hscan : (ScanRun.step config s.scan (.file i .finishJob)).isSome=true := by
        simp [ScanRun.step,hfile,File.step,hjobs]
      obtain ⟨scan,hscan⟩ := Option.isSome_iff_exists.mp hscan
      obtain ⟨position,hresolves⟩ : ∃ position, d.Resolves position := by
        by_cases hmem : Block.compressor∈d.blocks
        · obtain ⟨position,hget⟩ := List.mem_iff_getElem?.mp hmem
          exact ⟨position,.inl hget⟩
        · exact ⟨0,.inr hmem⟩
      have hnone := hstuck (.finishJob i position true)
      simp only [step] at hnone
      rw [hscan,hfeed] at hnone
      dsimp only at hnone
      rw [if_pos ⟨hi,hresolves⟩] at hnone
      cases hnone
  cases hwaiting : s.compressors.waiting with
  | nil => exact Pool.eq_empty hwaiting hbusy
  | cons i rest =>
    have hnone := hstuck (.takeJob i)
    simp only [step] at hnone
    rw [Pool.take_of_nil pools.compressors hbusy hwaiting] at hnone
    cases hnone

/-- No block of a file is with the compressors. -/
theorem Stuck.jobs (hstuck : Stuck config pools s) (h : Pooled config s)
    (hfile : s.scan.files[i]?=some f) : f.jobs=0 := by
  have hcount := h.compressors i
  rw [hstuck.compressors h,jobsOf_eq hfile] at hcount
  exact hcount.symm

end Compressors

section Publishers
variable {config : Config} {pools : Pools} {s : State} {i : ℕ} {f : File} {d : Feed}

/-- In a stuck state a thread of a file that leaves has left. -/
theorem Stuck.left (hstuck : Stuck config pools s) (hfile : s.scan.files[i]?=some f)
    (hfeed : s.feeds[i]?=some d) (role : Role) (hstage : (f.thread role).stage=.leaving) :
    (f.thread role).owned=[] := by
  cases howned : (f.thread role).owned with
  | nil => rfl
  | cons o owned =>
    have hthread : f.thread role=⟨.leaving,o::owned⟩ := by
      rw [←hstage,←howned]
    have hnone := hstuck.refuses (.drop role) (by simp) hfile hfeed rfl
    simp only [File.step] at hnone
    rw [hthread] at hnone
    cases hnone

/-- In a stuck state no thread of a file reports. -/
theorem Stuck.silent (hstuck : Stuck config pools s) (hfile : s.scan.files[i]?=some f)
    (hfeed : s.feeds[i]?=some d) (role : Role) :
    (f.thread role).stage≠.reporting ∧ (f.thread role).stage≠.counting := by
  constructor
  · intro hstage
    have hnone := hstuck.refuses (.report role false) (by simp) hfile hfeed rfl
    simp only [File.step] at hnone
    rw [if_pos hstage] at hnone
    cases hnone
  · intro hstage
    have hnone := hstuck.refuses (.count role f.found.info) (by simp) hfile hfeed rfl
    simp only [File.step] at hnone
    rw [if_pos hstage] at hnone
    cases hnone

/-- In a stuck state a file is with no publisher. -/
theorem Stuck.publisher (hstuck : Stuck config pools s) (h : Pooled config s)
    (hfile : s.scan.files[i]?=some f) :
    station f.publisher≠.working ∧ (station f.publisher≠.waiting → f.publisher.owned=[]) := by
  obtain ⟨d,hfeed⟩ := h.feed hfile
  have howns := (h.conserved.accounted.solvent.file hfile).1.publisher
  have hsilent := hstuck.silent hfile hfeed .publisher
  unfold PublisherOwns at howns
  cases hstage : f.publisher.stage with
  | absent =>
    rw [hstage] at howns
    exact ⟨by simp [station,hstage],fun _ => howns⟩
  | queued =>
    refine ⟨by simp [station,hstage],fun hnot => absurd ?_ hnot⟩
    simp [station,hstage]
  | working =>
    have hnone := hstuck.refuses (.publish false) (by simp) hfile hfeed rfl
    simp only [File.step] at hnone
    rw [if_pos hstage] at hnone
    cases hnone
  | reporting => exact absurd hstage hsilent.1
  | counting => exact absurd hstage hsilent.2
  | closing =>
    have hnone := hstuck.refuses (.close true) (by simp) hfile hfeed rfl
    simp only [File.step] at hnone
    rw [if_pos hstage] at hnone
    cases hnone
  | leaving =>
    have howned : f.publisher.owned=[] := hstuck.left hfile hfeed .publisher hstage
    exact ⟨by simp [station,hstage,howned],fun _ => howned⟩
  | _ =>
    rw [hstage] at howns
    exact howns.elim

/-- In a stuck state the publishers have nothing to do. -/
theorem Stuck.publishers (hstuck : Stuck config pools s) (h : Pooled config s) :
    s.publishers=.empty := by
  have hidle : ∀ i, ¬Stationed s.scan.files .publisher .working i := by
    rintro i ⟨f,hfile,hstation⟩
    exact (hstuck.publisher h hfile).1 hstation
  rcases h.publishers.drained pools.publishers hidle with hempty|⟨i,q,⟨⟨f,hfile,hstation⟩,_⟩,htake⟩
  · exact hempty
  · obtain ⟨d,hfeed⟩ := h.feed hfile
    have hallows : allowsMove config pools s i f d .takePublish=some {s with publishers := q} := by
      simp only [allowsMove]
      rw [htake]
      rfl
    have hqueued : f.publisher.stage=.queued := queued_of_waiting hstation
    have hnone := hstuck.refuses .takePublish (by simp) hfile hfeed hallows
    simp only [File.step] at hnone
    rw [if_pos hqueued] at hnone
    cases hnone

/-- In a stuck state a file owns nothing with a publisher. -/
theorem Stuck.unpublished (hstuck : Stuck config pools s) (h : Pooled config s)
    (hfile : s.scan.files[i]?=some f) : f.publisher.owned=[] := by
  refine (hstuck.publisher h hfile).2 fun hwaiting => ?_
  have hmem := (h.publishers.waiting i).mpr ⟨⟨f,hfile,hwaiting⟩,id⟩
  rw [hstuck.publishers h] at hmem
  exact List.not_mem_nil hmem

end Publishers

section Writers
variable {config : Config} {pools : Pools} {s : State} {i : ℕ} {f : File} {d : Feed}

/-- In a stuck state a reader that reads waits for a slot of a queue that is full. -/
theorem Stuck.preparing (hstuck : Stuck config pools s) (h : Pooled config s)
    (hfile : s.scan.files[i]?=some f) (hfeed : s.feeds[i]?=some d)
    (hstage : f.reader.stage=.reading) :
    d.reading=.preparing ∧ Receiving f d ∧ pools.slots≤d.queued := by
  have hfed := h.fed i f d hfile hfeed
  have hstep := hstuck.feed hfile hfeed
  have hunfinished : ¬d.MayFinish config.mode f := by
    intro hmay
    have hallows : allowsMove config pools s i f d .finishReading=some (s.setFeed i (d.settle .lost)) :=
      if_pos hmay
    have hnone := hstuck.refuses .finishReading (by simp) hfile hfeed hallows
    simp only [File.step] at hnone
    rw [if_pos hstage] at hnone
    cases hnone
  unfold Feed.MayFinish at hunfinished
  cases hreading : d.reading with
  | deciding =>
    rw [hreading] at hunfinished
    exact absurd trivial hunfinished
  | preparing =>
    rw [hreading] at hunfinished
    have hreceiving : Receiving f d := not_not.mp hunfinished
    refine ⟨rfl,hreceiving,Nat.le_of_not_lt fun hroom => ?_⟩
    have hnone := hstep .prepare
    simp only [Feed.step] at hnone
    rw [if_pos ⟨hstage,hreading,hreceiving,hroom⟩] at hnone
    cases hnone
  | holding =>
    rw [hreading] at hunfinished
    have hmode : config.mode=.decompressManually := not_not.mp hunfinished
    have hleft := hfed.manual hmode (by rw [hreading]; decide)
    have hnone := hstep .read
    simp only [Feed.step] at hnone
    rw [if_pos ⟨hstage,hreading,hleft,by rw [hmode]; decide⟩] at hnone
    cases hnone
  | sending =>
    obtain ⟨hleft,hmode⟩ := hfed.sending hreading
    rw [hfed.left hmode] at hleft
    have hwaiting : s.compressors.waiting=[] := by
      rw [hstuck.compressors h]
      rfl
    have hallows : allowsMove config pools s i f d .spawn=
        some {s.setFeed i (d.handOn .compressor) with compressors := ⟨[i],s.compressors.busy⟩} := by
      simp only [allowsMove]
      rw [if_pos hreading,Pool.send_of_nil pools.compressors i hwaiting]
      rfl
    have hnone := hstuck.refuses .spawn (by simp) hfile hfeed hallows
    simp only [File.step] at hnone
    rw [if_pos ⟨hstage,hleft,hmode⟩] at hnone
    cases hnone

/-- In a stuck state every slot in the queue of a file was finished or dropped. -/
theorem Stuck.settled (hstuck : Stuck config pools s) (h : Pooled config s)
    (hfile : s.scan.files[i]?=some f) (hfeed : s.feeds[i]?=some d) :
    ∀ b∈d.blocks, b=.filled ∨ b=.lost := by
  have hfed := h.fed i f d hfile hfeed
  intro b hb
  cases b with
  | filled => exact .inl rfl
  | lost => exact .inr rfl
  | compressor =>
    have hjobs := hfed.jobs
    rw [hstuck.jobs h hfile] at hjobs
    have hpos := List.count_pos_iff.mpr hb
    omega
  | reader =>
    obtain ⟨hstage,hreading⟩ := hfed.reader hb
    rw [(hstuck.preparing h hfile hfeed hstage).1] at hreading
    exact absurd hreading (by decide)

/-- In a stuck state no writer waits for the end of a queue that has none. -/
theorem Stuck.hungUp (hstuck : Stuck config pools s) (h : Pooled config s)
    (hfile : s.scan.files[i]?=some f) (hfeed : s.feeds[i]?=some d)
    (hwriter : f.writer.stage=.working) (hblocks : d.blocks=[]) : HungUp f := by
  have hsound := (h.conserved.accounted.solvent.file hfile).1
  have howns := hsound.reader
  have hearly := hsound.not_early (by rw [hwriter]; decide)
  unfold ReaderOwns at howns
  unfold HungUp
  cases hstage : f.reader.stage with
  | reading =>
    have hfull := (hstuck.preparing h hfile hfeed hstage).2.2
    have hslots := pools.slots_pos
    unfold Feed.queued at hfull
    rw [hblocks,List.tail_nil,ite_self,List.length_nil] at hfull
    omega
  | leaving => rfl
  | considered | submitting | queued | reserving | opening | handing =>
    rw [hstage] at hearly
    exact absurd rfl hearly
  | _ =>
    rw [hstage] at howns
    exact howns.elim

/-- In a stuck state no writer works on a file. -/
theorem Stuck.unwritten (hstuck : Stuck config pools s) (h : Pooled config s)
    (hfile : s.scan.files[i]?=some f) : f.writer.stage≠.working := by
  intro hstage
  obtain ⟨d,hfeed⟩ := h.feed hfile
  have hfed := h.fed i f d hfile hfeed
  have hstep := hstuck.feed hfile hfeed
  have hsettled := hstuck.settled h hfile hfeed
  cases hwriting : d.writing with
  | starting =>
    have hnone := hstep .start
    simp only [Feed.step] at hnone
    rw [if_pos ⟨hstage,hwriting⟩] at hnone
    cases hnone
  | receiving =>
    by_cases hblocks : d.blocks=[]
    · have hnone := hstep .hangUp
      simp only [Feed.step] at hnone
      rw [if_pos ⟨hstage,hwriting,hblocks,hstuck.hungUp h hfile hfeed hstage hblocks⟩] at hnone
      cases hnone
    · have hnone := hstep .receive
      simp only [Feed.step] at hnone
      rw [if_pos ⟨hstage,hwriting,hblocks⟩] at hnone
      cases hnone
  | awaiting =>
    have hnone := hstep .await
    simp only [Feed.step] at hnone
    rw [if_pos ⟨hstage,hwriting⟩] at hnone
    cases hblocks : d.blocks with
    | nil => exact hfed.awaiting hwriting hblocks
    | cons b rest =>
      rw [hblocks] at hnone hsettled
      rcases hsettled b List.mem_cons_self with rfl|rfl
      · cases hnone
      · cases hnone
  | applying =>
    have hnone := hstep .apply
    simp only [Feed.step] at hnone
    rw [if_pos ⟨hstage,hwriting⟩] at hnone
    cases hnone
  | finishing =>
    have hnone := hstep .finish
    have hends : d.blocks≠[] ∨ HungUp f := by
      by_cases hblocks : d.blocks=[]
      · exact .inr (hstuck.hungUp h hfile hfeed hstage hblocks)
      · exact .inl hblocks
    simp only [Feed.step] at hnone
    rw [if_pos ⟨hstage,hwriting,hends⟩] at hnone
    cases hnone
  | ending =>
    cases hscratch : config.staging.usesScratch with
    | true =>
      have hallows : allowsMove config pools s i f d (.stage none)=some (s.setFeed i d.close) := by
        simp only [allowsMove]
        rw [hwriting]
        exact if_pos rfl
      have hnone := hstuck.refuses (.stage none) (by simp) hfile hfeed hallows
      simp only [File.step] at hnone
      rw [if_pos ⟨hstage,hscratch,Nat.zero_le _⟩] at hnone
      cases hnone
    | false =>
      have hallows : allowsMove config pools s i f d (.write false)=some (s.setFeed i d.close) := by
        simp only [allowsMove]
        rw [hwriting]
        exact if_pos rfl
      have hnone := hstuck.refuses (.write false) (by simp) hfile hfeed hallows
      simp only [File.step] at hnone
      rw [if_pos ⟨hstage,hscratch⟩] at hnone
      cases hnone

/-- In a stuck state a file is with no writer. -/
theorem Stuck.writer (hstuck : Stuck config pools s) (h : Pooled config s)
    (hfile : s.scan.files[i]?=some f) :
    f.writer.stage=.queued ∨ (f.writer.stage=.absent ∨ f.writer.stage=.leaving) ∧ f.writer.owned=[] := by
  obtain ⟨d,hfeed⟩ := h.feed hfile
  have howns := (h.conserved.accounted.solvent.file hfile).1.writer
  have hsilent := hstuck.silent hfile hfeed .writer
  unfold WriterOwns at howns
  cases hstage : f.writer.stage with
  | absent =>
    rw [hstage] at howns
    exact .inr ⟨.inl rfl,howns⟩
  | queued => exact .inl rfl
  | working => exact absurd hstage (hstuck.unwritten h hfile)
  | sending =>
    have hwaiting : s.publishers.waiting=[] := by
      rw [hstuck.publishers h]
      rfl
    have hallows : allowsMove config pools s i f d .sendStaged=
        some {s with publishers := ⟨[i],s.publishers.busy⟩} := by
      simp only [allowsMove]
      rw [Pool.send_of_nil pools.publishers i hwaiting]
      rfl
    have hnone := hstuck.refuses .sendStaged (by simp) hfile hfeed hallows
    simp only [File.step] at hnone
    rw [if_pos hstage] at hnone
    cases hnone
  | reporting => exact absurd hstage hsilent.1
  | counting => exact absurd hstage hsilent.2
  | leaving => exact .inr ⟨.inr rfl,hstuck.left hfile hfeed .writer hstage⟩
  | _ =>
    rw [hstage] at howns
    exact howns.elim

/-- In a stuck state the writers have nothing to do. -/
theorem Stuck.writers (hstuck : Stuck config pools s) (h : Pooled config s) : s.writers=.empty := by
  have hidle : ∀ i, ¬Stationed s.scan.files .writer .working i := by
    rintro i ⟨f,hfile,hstation⟩
    rw [File.thread] at hstation
    rcases hstuck.writer h hfile with hstage|⟨hstage|hstage,howned⟩
    · simp [station,hstage] at hstation
    · simp [station,hstage] at hstation
    · simp [station,hstage,howned] at hstation
  rcases h.writers.drained pools.writers hidle with hempty|⟨i,q,⟨⟨f,hfile,hstation⟩,_⟩,htake⟩
  · exact hempty
  · obtain ⟨d,hfeed⟩ := h.feed hfile
    have hallows : allowsMove config pools s i f d .takeWrite=some {s with writers := q} := by
      simp only [allowsMove]
      rw [htake]
      rfl
    have hqueued : f.writer.stage=.queued := queued_of_waiting hstation
    have hnone := hstuck.refuses .takeWrite (by simp) hfile hfeed hallows
    simp only [File.step] at hnone
    rw [if_pos hqueued] at hnone
    cases hnone

/-- In a stuck state no file is with a writer or in their channel. -/
theorem Stuck.unhanded (hstuck : Stuck config pools s) (h : Pooled config s)
    (hfile : s.scan.files[i]?=some f) :
    (f.writer.stage=.absent ∨ f.writer.stage=.leaving) ∧ f.writer.owned=[] := by
  refine (hstuck.writer h hfile).resolve_left fun hstage => ?_
  have hwaiting : station (f.thread .writer)=.waiting := by simp [station,File.thread,hstage]
  have hmem := (h.writers.waiting i).mpr ⟨⟨f,hfile,hwaiting⟩,id⟩
  rw [hstuck.writers h] at hmem
  exact List.not_mem_nil hmem

end Writers

section Readers
variable {config : Config} {pools : Pools} {s : State} {i : ℕ} {f : File} {d : Feed}

/-- In a stuck state a file is with no reader, unless one waits for scratch space. -/
theorem Stuck.reader (hstuck : Stuck config pools s) (h : Pooled config s)
    (hfile : s.scan.files[i]?=some f) :
    (f.reader.stage=.considered ∨ f.reader.stage=.submitting ∨ f.reader.stage=.queued ∨
      f.reader.stage=.reserving) ∨ f.reader.stage=.leaving ∧ f.reader.owned=[] := by
  obtain ⟨d,hfeed⟩ := h.feed hfile
  have howns := (h.conserved.accounted.solvent.file hfile).1.reader
  unfold ReaderOwns at howns
  cases hstage : f.reader.stage with
  | considered => simp
  | submitting => simp
  | queued => simp
  | reserving => simp
  | opening =>
    have hnone := hstuck.refuses (.openFile true) (by simp) hfile hfeed rfl
    simp only [File.step] at hnone
    rw [if_pos hstage] at hnone
    cases hnone
  | handing =>
    have hwaiting : s.writers.waiting=[] := by
      rw [hstuck.writers h]
      rfl
    have hallows : allowsMove config pools s i f d .hand=
        some {s with writers := ⟨[i],s.writers.busy⟩} := by
      simp only [allowsMove]
      rw [Pool.send_of_nil pools.writers i hwaiting]
      rfl
    have hnone := hstuck.refuses .hand (by simp) hfile hfeed hallows
    simp only [File.step] at hnone
    rw [if_pos hstage] at hnone
    cases hnone
  | reading =>
    obtain ⟨_,hreceiving,_⟩ := hstuck.preparing h hfile hfeed hstage
    obtain ⟨hgone,_⟩ := hstuck.unhanded h hfile
    unfold Receiving at hreceiving
    rcases hgone with habsent|hleaving
    · rw [habsent] at hreceiving
      simp at hreceiving
    · rw [hleaving] at hreceiving
      simp at hreceiving
  | leaving => exact .inr ⟨rfl,hstuck.left hfile hfeed .reader hstage⟩
  | _ =>
    rw [hstage] at howns
    exact howns.elim

/-- What still exists of a file in a stuck state. -/
theorem Stuck.holders (hstuck : Stuck config pools s) (h : Pooled config s)
    (hfile : s.scan.files[i]?=some f) (o : Owned) :
    f.holders o=f.reader.owned.count o+f.staged.count o := by
  unfold File.holders
  rw [(hstuck.unhanded h hfile).2,hstuck.unpublished h hfile,List.count_nil,Nat.add_zero,Nat.add_zero]

/-- Without batches no scratch space is reserved in a stuck state. -/
theorem Stuck.unreserved (hstuck : Stuck config pools s) (h : Pooled config s)
    (hplain : config.staging.isBatched=false) : s.scan.shared.usage.bytes=0 := by
  rw [h.conserved.accounted.solvent.bytes]
  refine tally_eq_zero_iff.mpr fun f hf => ?_
  obtain ⟨i,hfile⟩ := List.mem_iff_getElem?.mp hf
  have hsound := (h.conserved.accounted.solvent.file hfile).1
  have hbalance := hsound.balanced.reservation
  have howns := hsound.reader
  have hstaged : f.staged=[] := by
    by_contra hsome
    have hsending := h.sending hplain f hf hsome
    rcases (hstuck.unhanded h hfile).1 with hstage|hstage <;> rw [hstage] at hsending <;> cases hsending
  have hitem : config.staging.item=[.context] := by
    cases hstaging : config.staging with
    | direct => rfl
    | scratch limit hlimit => rfl
    | batched limits =>
      rw [hstaging] at hplain
      cases hplain
  have hnone : f.reader.owned.count .reservation=0 := by
    unfold ReaderOwns at howns
    rcases hstuck.reader h hfile with (hstage|hstage|hstage|hstage)|⟨_,howned⟩
    · rw [hstage] at howns
      rw [howns]
      rfl
    · rw [hstage] at howns
      rw [howns]
      rfl
    · rw [hstage] at howns
      rw [howns,hitem]
      rfl
    · rw [hstage] at howns
      rw [howns.1]
      rfl
    · rw [howned]
      rfl
  rw [hstuck.holders h hfile,hnone,hstaged] at hbalance
  unfold held
  cases hreservation : f.reservation with
  | none => rfl
  | some bytes =>
    rw [hreservation] at hbalance
    cases hbalance

/-- In a stuck state no reader waits for scratch space. -/
theorem Stuck.unreserving (hstuck : Stuck config pools s) (h : Pooled config s)
    (hfile : s.scan.files[i]?=some f) : f.reader.stage≠.reserving := by
  intro hstage
  obtain ⟨d,hfeed⟩ := h.feed hfile
  have hsolvent := h.conserved.accounted.solvent
  have howns := (hsolvent.file hfile).1.reader
  unfold ReaderOwns at howns
  rw [hstage] at howns
  have hplain : config.staging.isBatched=false := by
    cases hstaging : config.staging with
    | direct => rfl
    | scratch limit hlimit => rfl
    | batched limits =>
      rw [hstaging] at howns
      cases howns.2
  have hroom := hstuck.unreserved h hplain
  have hbytes : config.staging.limit<config.request f.found.metadata.len ∨
      s.scan.shared.usage.bytes+config.request f.found.metadata.len≤config.staging.limit := by
    rw [hroom]
    omega
  obtain ⟨granted,after,hreserve⟩ := BatchAdmission.reserveBytes_returns config.staging.limit_le
    hsolvent.room hbytes
  have hnone := hstuck.refuses .reserve (by simp) hfile hfeed rfl
  simp only [File.step] at hnone
  rw [if_pos hstage,hreserve] at hnone
  cases granted <;> cases hnone

/-- In a stuck state the readers have nothing to do. -/
theorem Stuck.readers (hstuck : Stuck config pools s) (h : Pooled config s) : s.readers=.empty := by
  have hidle : ∀ i, ¬Stationed s.scan.files .reader .working i := by
    rintro i ⟨f,hfile,hstation⟩
    rw [File.thread] at hstation
    have hunreserving := hstuck.unreserving h hfile
    rcases hstuck.reader h hfile with (hstage|hstage|hstage|hstage)|⟨hstage,howned⟩
    · simp [station,hstage] at hstation
    · simp [station,hstage] at hstation
    · simp [station,hstage] at hstation
    · exact hunreserving hstage
    · simp [station,hstage,howned] at hstation
  rcases h.readers.drained pools.readers hidle with hempty|⟨i,q,⟨⟨f,hfile,hstation⟩,haway⟩,htake⟩
  · exact hempty
  · obtain ⟨d,hfeed⟩ := h.feed hfile
    have hallows : allowsMove config pools s i f d .takeRead=some {s with readers := q} := by
      simp only [allowsMove]
      rw [htake]
      rfl
    have hqueued : f.reader.stage=.queued := queued_of_waiting hstation
    have hstep : f.step config .takeRead s.scan.shared=
        some ({f with reader := ⟨config.staging.afterTake,f.reader.owned⟩},s.scan.shared) := by
      simp only [File.step]
      exact if_pos hqueued
    have hsome := step_file (fun hboth => haway hboth.1) hfile hfeed hstep hallows
    rw [hstuck] at hsome
    cases hsome

/-- In a stuck state the scanning thread is not sending a file to the readers. -/
theorem Stuck.unsent (hstuck : Stuck config pools s) (h : Pooled config s) (i : ℕ) :
    s.scan.phase≠.sending i := by
  intro hphase
  have hplaced := h.conserved.accounted.placed
  rw [hphase] at hplaced
  obtain ⟨f,hfile⟩ := hplaced
  have hwaiting : s.readers.waiting=[] := by
    rw [hstuck.readers h]
    rfl
  have hnone := hstuck (.scan .send)
  simp only [step,allows,ScanRun.step] at hnone
  rw [hphase] at hnone
  dsimp only at hnone
  rw [hfile,Pool.send_of_nil pools.readers i hwaiting] at hnone
  cases hstaging : config.staging with
  | direct => simp [hstaging] at hnone
  | scratch limit hlimit => simp [hstaging] at hnone
  | batched limits => simp [hstaging] at hnone

/-- In a stuck state a file is with the scanning thread or has left the readers. -/
theorem Stuck.unread (hstuck : Stuck config pools s) (h : Pooled config s)
    (hfile : s.scan.files[i]?=some f) :
    (f.reader.stage=.considered ∧ f.reader.owned=[] ∨
      f.reader.stage=.submitting ∧ f.reader.owned=[.context]) ∨
      f.reader.stage=.leaving ∧ f.reader.owned=[] := by
  have howns := (h.conserved.accounted.solvent.file hfile).1.reader
  unfold ReaderOwns at howns
  rcases hstuck.reader h hfile with (hstage|hstage|hstage|hstage)|hleft
  · rw [hstage] at howns
    exact .inl (.inl ⟨hstage,howns⟩)
  · rw [hstage] at howns
    exact .inl (.inr ⟨hstage,howns⟩)
  · have hwaiting : station (f.thread .reader)=.waiting := by simp [station,File.thread,hstage]
    have hmem := (h.readers.waiting i).mpr ⟨⟨f,hfile,hwaiting⟩,hstuck.unsent h i⟩
    rw [hstuck.readers h] at hmem
    exact (List.not_mem_nil hmem).elim
  · exact absurd hstage (hstuck.unreserving h hfile)
  · exact .inr hleft

/-- In a stuck state nobody has the guard or the acknowledgement of a file. -/
theorem Stuck.unguarded (hstuck : Stuck config pools s) (h : Pooled config s)
    (hfile : s.scan.files[i]?=some f) :
    f.holders .completion=0 ∧ f.holders .finished=0 := by
  have hsound := (h.conserved.accounted.solvent.file hfile).1
  rw [hstuck.holders h hfile,hstuck.holders h hfile]
  have hstaged : f.staged=[] ∨ f.staged=[.reservation,.context] := by
    rcases hsound.inOrder.staged with hnil|⟨hsome,_⟩
    · exact .inl hnil
    · exact .inr hsome
  have hreader : f.reader.owned=[] ∨ f.reader.owned=[.context] := by
    rcases hstuck.unread h hfile with (⟨_,hnil⟩|⟨_,hone⟩)|⟨_,hnil⟩
    · exact .inl hnil
    · exact .inr hone
    · exact .inl hnil
  rcases hstaged with hs|hs <;> rcases hreader with hr|hr <;> rw [hs,hr] <;> exact ⟨rfl,rfl⟩

end Readers

section Scanning
variable {config : Config} {pools : Pools} {s t : State} {i : ℕ} {f : File}

/-- A step of the scan that the channels and pools let happen is possible. -/
theorem step_of {e : ScanRun.Event} {scan : ScanRun.State} (hscan : ScanRun.step config s.scan e=some scan)
    (hallows : allows config pools s e=some t) :
    step config pools s (.scan e)=some {t with scan := scan} := by
  simp only [step]
  rw [hscan,hallows]

/-- In a stuck state no step of the scan is possible that the channels and pools let happen. -/
theorem Stuck.scan (hstuck : Stuck config pools s) {e : ScanRun.Event}
    (hallows : allows config pools s e=some t) : ScanRun.step config s.scan e=none := by
  cases hscan : ScanRun.step config s.scan e with
  | none => rfl
  | some scan =>
    have hsome := step_of hscan hallows
    rw [hstuck] at hsome
    cases hsome

/-- In a stuck state the scanning thread is not between two entries. -/
theorem Stuck.walked (hstuck : Stuck config pools s) : s.scan.phase≠.walking := by
  intro hphase
  cases hentries : s.entries with
  | cons next rest =>
    have hallows : allows config pools s (.consider next.1 next.2)=
        some {s with entries := rest, feeds := s.feeds++newFeeds config next.1 next.2} := by
      simp only [allows]
      rw [hentries]
      exact if_pos rfl
    have hnone := hstuck.scan hallows
    simp only [ScanRun.step] at hnone
    rw [if_pos hphase] at hnone
    split at hnone <;> cases hnone
  | nil =>
    by_cases hwalks : 0< s.walks
    · have hallows : allows config pools s .startWalk=some {s with walks := s.walks-1} := by
        simp only [allows]
        exact if_pos hwalks
      have hnone := hstuck.scan hallows
      simp only [ScanRun.step] at hnone
      rw [if_pos hphase] at hnone
      cases hnone
    · have hallows : allows config pools s .finishWalk=some s := by
        simp only [allows]
        exact if_pos ⟨hentries,Nat.eq_zero_of_not_pos hwalks⟩
      have hnone := hstuck.scan hallows
      simp only [ScanRun.step] at hnone
      rw [if_pos hphase] at hnone
      cases hnone

/-- In a stuck state no message of a file is missing. -/
theorem Stuck.collected (hstuck : Stuck config pools s) (h : Pooled config s) {limits : BatchLimits}
    (hstaging : config.staging=.batched limits) {left : ℕ} {staged : List ℕ} {resume : Resume}
    (hphase : s.scan.phase=.collecting left staged resume) : left=0 := by
  by_contra hsome
  obtain ⟨rest,rfl⟩ := Nat.exists_eq_succ_of_ne_zero hsome
  have hcurrent := (h.roomy limits hstaging).batched.current
  rw [hphase] at hcurrent
  have hcount := hcurrent.1
  have hexists : ¬∀ f∈s.scan.files, ¬Unreceived s.scan.number f := by
    intro hnobody
    have hzero := tally_indicator_eq_zero_iff.mpr hnobody
    unfold unreceivedCount at hcount
    omega
  obtain ⟨f,hnot⟩ := not_forall.mp hexists
  obtain ⟨hf,hunreceived⟩ := Classical.not_imp.mp hnot
  obtain ⟨hbatch,hreceived⟩ := not_not.mp hunreceived
  obtain ⟨i,hfile⟩ := List.mem_iff_getElem?.mp hf
  obtain ⟨d,hfeed⟩ := h.feed hfile
  have hsound := (h.conserved.accounted.solvent.file hfile).1
  have hguards := hsound.balanced.completion
  rw [(hstuck.unguarded h hfile).1] at hguards
  cases hcompletion : f.completion with
  | unmade => exact hsound.admitted.batch.mp (by rw [hbatch]; rfl) hcompletion
  | live handles =>
    rw [hcompletion] at hguards
    exact absurd hguards.2 (Nat.lt_irrefl 0)
  | dropping =>
    have hnone := hstuck.refuses .sendMessage (by simp) hfile hfeed rfl
    simp only [File.step] at hnone
    rw [if_pos hcompletion] at hnone
    cases hnone
  | dropped =>
    have hallows : allows config pools s (.batch (.receive i))=some s := rfl
    have hnone := hstuck.scan hallows
    simp [ScanRun.step,hstaging,batchStep,hphase,hfile,hcompletion,hreceived] at hnone

/-- In a stuck state no acknowledgement is missing. -/
theorem Stuck.acknowledged (hstuck : Stuck config pools s) (h : Pooled config s)
    {limits : BatchLimits} (hstaging : config.staging=.batched limits) {left : ℕ}
    {volumes : List ℕ} {resume : Resume} (hphase : s.scan.phase=.awaiting left volumes resume) :
    left=0 := by
  by_contra hsome
  obtain ⟨rest,rfl⟩ := Nat.exists_eq_succ_of_ne_zero hsome
  have houtstanding := (h.roomy limits hstaging).batched.outstanding
  rw [hphase] at houtstanding
  have hnobody : acknowledging s.scan.files=0 := by
    refine tally_eq_zero_iff.mpr fun f hf => ?_
    obtain ⟨i,hfile⟩ := List.mem_iff_getElem?.mp hf
    exact (hstuck.unguarded h hfile).2
  have hacknowledged : 0< s.scan.shared.acknowledged := by
    have hsum : rest+1=acknowledging s.scan.files+s.scan.shared.acknowledged := houtstanding
    omega
  have hallows : allows config pools s (.batch .acknowledge)=some s := rfl
  have hnone := hstuck.scan hallows
  simp [ScanRun.step,hstaging,batchStep,hphase,hacknowledged] at hnone

/-- In a stuck state no file waits to be sent for want of scratch space. -/
theorem Stuck.reserved (hstuck : Stuck config pools s) (h : Pooled config s)
    {limits : BatchLimits} (hstaging : config.staging=.batched limits) (i : ℕ) :
    s.scan.phase≠.reserving i := by
  intro hphase
  have hroomy := h.roomy limits hstaging
  have hused := hroomy.batched.accounted.solvent.room
  have hplaced := hroomy.batched.accounted.placed
  rw [hstaging] at hused
  rw [hphase] at hplaced
  obtain ⟨f,hfile,_⟩ := hplaced
  have htarget := limits.target_le
  have hroom : limits.limit<requested config f ∨
      s.scan.shared.usage.bytes+requested config f≤limits.limit := by
    rcases hroomy.reserving i f hphase hfile with hover|hnone|hfits
    · exact .inl hover
    · have hzero := BatchAdmission.unused hroomy.batched hstaging hnone
      omega
    · omega
  obtain ⟨granted,after,hreserve⟩ := BatchAdmission.reserveBytes_returns limits.limit_le hused hroom
  have hallows : allows config pools s (.batch .reserve)=some s := rfl
  have hnone := hstuck.scan hallows
  cases granted with
  | true => simp [ScanRun.step,hstaging,batchStep,hphase,hfile,hreserve] at hnone
  | false => simp [ScanRun.step,hstaging,batchStep,hphase,hfile,hreserve] at hnone

/-- In a stuck state without pending files nothing is staged. -/
theorem Stuck.unstaged (hstuck : Stuck config pools s) (h : Pooled config s)
    (hpending : s.scan.pending=0) (hfile : s.scan.files[i]?=some f) : f.staged=[] := by
  by_contra hsome
  have hf := List.mem_of_getElem? hfile
  cases hb : config.staging.isBatched with
  | false =>
    have hsending := h.sending hb f hf hsome
    rcases (hstuck.unhanded h hfile).1 with hstage|hstage <;> rw [hstage] at hsending <;> cases hsending
  | true =>
    cases hstaging : config.staging with
    | direct | scratch _ _ =>
      rw [hstaging] at hb
      cases hb
    | batched limits =>
      have hbatched := (h.roomy limits hstaging).batched
      have hsound := (h.conserved.accounted.solvent.file hfile).1
      cases hbatch : f.batch with
      | none =>
        have hnone := hsound.admitted.reservation hb hbatch
        have hbalance := hsound.balanced.reservation
        have hstaged := (hsound.inOrder.staged.resolve_left hsome).1
        rw [hnone] at hbalance
        unfold File.holders at hbalance
        rw [hstaged] at hbalance
        simp at hbalance
      | some k =>
        rcases hbatched.earlier f hf k hbatch with hcurrent|⟨_,hsettled⟩
        · have hcount := hbatched.pending
          rw [hpending] at hcount
          refine tally_indicator_eq_zero_iff.mp hcount.symm f hf ?_
          unfold Pending
          rw [hbatch,hcurrent]
        · exact hsome hsettled.staged

/-- In a stuck state without pending files all scratch space is given back. -/
theorem Stuck.free (hstuck : Stuck config pools s) (h : Pooled config s)
    (hpending : s.scan.pending=0) : s.scan.shared.usage.bytes=0 := by
  cases hstaging : config.staging with
  | direct => exact hstuck.unreserved h (by rw [hstaging]; rfl)
  | scratch limit hlimit => exact hstuck.unreserved h (by rw [hstaging]; rfl)
  | batched limits => exact BatchAdmission.unused (h.roomy limits hstaging).batched hstaging hpending

/-- In a stuck state every walker is gone. -/
theorem Stuck.walkers (hstuck : Stuck config pools s) : s.scan.walkers=0 := by
  by_contra hsome
  have hallows : allows config pools s .endWalk=some s := rfl
  have hnone := hstuck.scan hallows
  simp only [ScanRun.step] at hnone
  rw [if_pos (Nat.pos_of_ne_zero hsome)] at hnone
  cases hnone

/-- In a stuck state a context that nobody has is destroyed. -/
theorem Stuck.closed (hstuck : Stuck config pools s) (h : Pooled config s)
    (hfile : s.scan.files[i]?=some f) (hnobody : f.holders .context=0) : f.operation=false := by
  obtain ⟨d,hfeed⟩ := h.feed hfile
  have hsound := (h.conserved.accounted.solvent.file hfile).1
  have hcounts := hsound.balanced.context
  rw [hnobody,hstuck.jobs h hfile] at hcounts
  cases hcontext : f.context with
  | unmade => exact hsound.admitted.unheld hcontext
  | live handles =>
    rw [hcontext] at hcounts
    exact absurd hcounts.2 (Nat.lt_irrefl 0)
  | dropping =>
    have hnone := hstuck.refuses .dropContext (by simp) hfile hfeed rfl
    simp only [File.step] at hnone
    rw [if_pos hcontext] at hnone
    cases hnone
  | dropped =>
    cases hoperation : f.operation with
    | false => rfl
    | true =>
      have hnone := hstuck.refuses .dropOperation (by simp) hfile hfeed rfl
      simp only [File.step] at hnone
      rw [if_pos ⟨hcontext,hoperation⟩] at hnone
      cases hnone

/-- In a stuck state the scanning thread does not wait for the statistics. -/
theorem Stuck.sent (hstuck : Stuck config pools s) (h : Pooled config s) (hcourse : Course config s) :
    s.scan.phase≠.waiting := by
  intro hphase
  have hledger := h.conserved.ledger
  have halone := h.conserved.accounted.alone
  have hpending := hcourse.drained (by rw [hphase]; rfl)
  rw [hphase] at hledger halone
  have hhandles : tally ScanStatistics.handle s.scan.files=0 := by
    refine tally_eq_zero_iff.mpr fun f hf => ?_
    obtain ⟨i,hfile⟩ := List.mem_iff_getElem?.mp hf
    have hread : f.reader.owned=[] := by
      rcases hstuck.unread h hfile with (⟨hstage,_⟩|⟨hstage,_⟩)|⟨_,hnil⟩
      · exact (halone i f hfile hstage).elim
      · have hbad := hcourse.submitting i f hfile hstage
        rw [hphase] at hbad
        cases hbad
      · exact hnil
    have hnobody : f.holders .context=0 := by
      rw [hstuck.holders h hfile,hread,hstuck.unstaged h hpending hfile]
      rfl
    unfold ScanStatistics.handle
    rw [hstuck.closed h hfile hnobody]
    rfl
  rcases hledger.reported with ⟨_,hheld,_⟩|⟨hsent,_⟩
  · have hzero := hledger.handles
    rw [hhandles,hstuck.walkers] at hzero
    exact Nat.ne_of_gt hheld hzero
  · have hallows : allows config pools s .receiveStats=some s := rfl
    have hnone := hstuck.scan hallows
    simp [ScanRun.step,hphase,hsent] at hnone

/-- In a stuck state the scan has returned. -/
theorem Stuck.returned (hstuck : Stuck config pools s) (h : Pooled config s)
    (hcourse : Course config s) : ∃ stats, s.scan.phase=.finished stats := by
  have hplaced := h.conserved.accounted.placed
  have hb := h.conserved.accounted.batched
  have hstaging : config.staging.isBatched=true → ∃ limits, config.staging=.batched limits := by
    intro hb
    cases hstaging : config.staging with
    | direct | scratch _ _ =>
      rw [hstaging] at hb
      cases hb
    | batched limits => exact ⟨limits,rfl⟩
  cases hphase : s.scan.phase with
  | walking => exact absurd hphase hstuck.walked
  | ending i last =>
    rw [hphase] at hplaced
    obtain ⟨f,hfile,_⟩ := hplaced
    have hnone := hstuck.scan (show allows config pools s .countEnd=some s from rfl)
    simp [ScanRun.step,hphase,hfile] at hnone
  | admitting i =>
    rw [hphase] at hplaced
    obtain ⟨f,hfile,_⟩ := hplaced
    have hnone := hstuck.scan (show allows config pools s .makeContext=some s from rfl)
    simp [ScanRun.step,hphase,hfile] at hnone
  | submitting i =>
    rw [hphase] at hplaced
    obtain ⟨f,hfile,_⟩ := hplaced
    have hnone := hstuck.scan (show allows config pools s .submit=some s from rfl)
    cases hstaging : config.staging <;> simp [ScanRun.step,hphase,hfile,hstaging] at hnone
  | reserving i =>
    rw [hphase] at hb
    obtain ⟨limits,hlimits⟩ := hstaging (hb rfl)
    exact absurd hphase (hstuck.reserved h hlimits i)
  | sending i => exact absurd hphase (hstuck.unsent h i)
  | collecting left staged resume =>
    rw [hphase] at hb
    obtain ⟨limits,hlimits⟩ := hstaging (hb rfl)
    have hzero := hstuck.collected h hlimits hphase
    have hnone := hstuck.scan (show allows config pools s (.batch .collected)=some s from rfl)
    simp [ScanRun.step,hlimits,batchStep,hphase,hzero] at hnone
  | publishing rest count volumes resume =>
    rw [hphase] at hb hplaced
    obtain ⟨limits,hlimits⟩ := hstaging (hb rfl)
    cases rest with
    | nil =>
      have hnone := hstuck.scan (show allows config pools s (.batch .published)=some s from rfl)
      simp [ScanRun.step,hlimits,batchStep,hphase] at hnone
    | cons i rest =>
      obtain ⟨f,hfile,_⟩ := hplaced.1.2 i List.mem_cons_self
      have hwaiting : s.publishers.waiting=[] := by
        rw [hstuck.publishers h]
        rfl
      have hallows : allows config pools s (.batch .publish)=
          some {s with publishers := ⟨[i],s.publishers.busy⟩} := by
        simp only [allows]
        rw [hphase]
        dsimp only
        rw [Pool.send_of_nil pools.publishers i hwaiting]
        rfl
      have hnone := hstuck.scan hallows
      simp [ScanRun.step,hlimits,batchStep,hphase,hfile] at hnone
  | awaiting left volumes resume =>
    rw [hphase] at hb
    obtain ⟨limits,hlimits⟩ := hstaging (hb rfl)
    have hzero := hstuck.acknowledged h hlimits hphase
    have hnone := hstuck.scan (show allows config pools s (.batch .acknowledged)=some s from rfl)
    simp [ScanRun.step,hlimits,batchStep,hphase,hzero] at hnone
  | flushing volumes resume =>
    rw [hphase] at hb
    obtain ⟨limits,hlimits⟩ := hstaging (hb rfl)
    cases volumes with
    | nil =>
      have hnone := hstuck.scan (show allows config pools s (.batch .drained)=some s from rfl)
      simp [ScanRun.step,hlimits,batchStep,hphase] at hnone
    | cons volume volumes =>
      have hnone := hstuck.scan (show allows config pools s (.batch (.flush volume true))=some s from rfl)
      simp [ScanRun.step,hlimits,batchStep,hphase] at hnone
  | dropping =>
    have hnone := hstuck.scan (show allows config pools s .dropOperation=some s from rfl)
    simp [ScanRun.step,hphase] at hnone
  | waiting => exact absurd hphase (hstuck.sent h hcourse)
  | finished stats => exact ⟨stats,rfl⟩

/-- A state in which no step is possible is one after the end of the scan. -/
theorem Stuck.ended (hstuck : Stuck config pools s) (h : Pooled config s)
    (hcourse : Course config s) : Ended s := by
  obtain ⟨stats,hphase⟩ := hstuck.returned h hcourse
  obtain ⟨hentries,hwalks⟩ := hcourse.finished (by rw [hphase]; rfl)
  have hpending := hcourse.drained (by rw [hphase]; rfl)
  exact ⟨⟨stats,hphase⟩,hentries,⟨hwalks,hstuck.walkers⟩,hstuck.readers h,hstuck.compressors h,
    hstuck.writers h,hstuck.publishers h,hstuck.free h hpending⟩

end Scanning

end Applesauce.PooledScan
