import Applesauce.PooledCosts
import Applesauce.PooledProgress

/-!
# Whole runs of a scan with its pools

Whatever the order of the steps, a scan in which no handler panics returns: its
runs are of bounded length, and one that cannot be continued has ended, with
every thread idle. The channels and pools only leave steps out: what holds of
every run of the scan holds here, and no channel and no pool holds more than
its size.
-/

namespace Applesauce.PooledScan

open FileThreads ScanRun WorkerPool Tally TransitionSystem

section Bounds
variable {config : Config} {pools : Pools} {s t : State} {f : File} {d e : Feed} {i : ℕ}

/-- No channel and no pool holds more than its size. -/
structure Bounded (pools : Pools) (s : State) : Prop where
  /-- The readers. -/
  readers : s.readers.Within pools.readers
  /-- The compressors. -/
  compressors : s.compressors.Within pools.compressors
  /-- The writers. -/
  writers : s.writers.Within pools.writers
  /-- The publishers. -/
  publishers : s.publishers.Within pools.publishers
  /-- The queues between readers and writers. -/
  feeds : ∀ d∈s.feeds, d.queued≤pools.slots

/-- A writer that awaits a block has its slot. -/
theorem queued_le (d : Feed) : d.queued≤d.blocks.length := by
  unfold Feed.queued
  split
  · rw [List.length_tail]
    exact Nat.sub_le _ _
  · exact Nat.le_refl _

/-- A writer that awaits no block has none in its hands. -/
theorem queued_of_ne (h : d.writing≠.awaiting) : d.queued=d.blocks.length := by
  unfold Feed.queued
  rw [if_neg h]

/-- Only a slot in the queue counts. -/
theorem queued_congr (hblocks : e.blocks.length=d.blocks.length) (hwriting : e.writing=d.writing) :
    e.queued=d.queued := by
  unfold Feed.queued
  rw [hwriting]
  split
  · rw [List.length_tail,List.length_tail,hblocks]
  · exact hblocks

/-- A step of a reader or a writer does not overfill the queue. -/
theorem queued_step {mode : Publication.Mode} {slots : ℕ} {event : FeedEvent} (h : d.queued≤ slots)
    (hstep : d.step mode slots f event=some e) : e.queued≤ slots := by
  cases event with
  | want | read =>
    obtain ⟨_,hstep⟩ := Option.ite_none_right_eq_some.mp hstep
    obtain rfl := Option.some.inj hstep
    exact h
  | prepare =>
    obtain ⟨⟨_,_,_,hroom⟩,hstep⟩ := Option.ite_none_right_eq_some.mp hstep
    obtain rfl := Option.some.inj hstep
    refine Nat.le_trans ?_ hroom
    unfold Feed.queued
    dsimp only
    split
    · cases d.blocks with
      | nil => exact Nat.zero_le _
      | cons b rest =>
        rw [List.cons_append,List.tail_cons,List.tail_cons,List.length_append,List.length_singleton]
    · rw [List.length_append,List.length_singleton]
  | finishSlot =>
    obtain ⟨_,hstep⟩ := Option.ite_none_right_eq_some.mp hstep
    obtain rfl := Option.some.inj hstep
    exact Nat.le_trans (Nat.le_of_eq (queued_congr (List.length_map _) rfl)) h
  | start | apply =>
    obtain ⟨⟨_,hwriting⟩,hstep⟩ := Option.ite_none_right_eq_some.mp hstep
    obtain rfl := Option.some.inj hstep
    rw [queued_of_ne (by rw [hwriting]; decide)] at h
    exact Nat.le_trans (queued_le _) h
  | receive | hangUp =>
    obtain ⟨⟨_,hwriting,_⟩,hstep⟩ := Option.ite_none_right_eq_some.mp hstep
    obtain rfl := Option.some.inj hstep
    rw [queued_of_ne (by rw [hwriting]; decide)] at h
    exact Nat.le_trans (queued_le _) h
  | await =>
    obtain ⟨⟨_,hwriting⟩,hstep⟩ := Option.ite_none_right_eq_some.mp hstep
    unfold Feed.queued at h
    rw [if_pos hwriting] at h
    split at hstep
    · next rest hblocks =>
      obtain rfl := Option.some.inj hstep
      rw [hblocks] at h
      exact Nat.le_trans (queued_le _) h
    · next rest hblocks =>
      obtain rfl := Option.some.inj hstep
      rw [hblocks] at h
      exact Nat.le_trans (queued_le _) h
    · cases hstep
  | finish =>
    obtain ⟨_,hstep⟩ := Option.ite_none_right_eq_some.mp hstep
    obtain rfl := Option.some.inj hstep
    exact Nat.le_trans (queued_le _) (Nat.zero_le _)

/-- A slot that is settled stays where it is. -/
theorem queued_settle (b : Block) (d : Feed) : (d.settle b).queued=d.queued :=
  queued_congr (List.length_map _) rfl

/-- So does one that is handed on. -/
theorem queued_handOn (b : Block) (d : Feed) : (d.handOn b).queued=d.queued :=
  queued_congr (List.length_map _) rfl

/-- So does one that a compressor is done with. -/
theorem queued_resolve (position : ℕ) (ok : Bool) (d : Feed) :
    (d.resolve position ok).queued=d.queued := by
  unfold Feed.resolve
  split
  · exact queued_congr (List.length_set ..) rfl
  · rfl

/-- A feed that is changed without overfilling its queue. -/
theorem Bounded.setFeed (h : Bounded pools s) (hfeed : s.feeds[i]?=some d)
    (hqueued : e.queued≤d.queued) : Bounded pools (s.setFeed i e) where
  readers := h.readers
  compressors := h.compressors
  writers := h.writers
  publishers := h.publishers
  feeds := forall_mem_set h.feeds
    (Nat.le_trans hqueued (h.feeds d (List.mem_of_getElem? hfeed)))

/-- What the channels and pools make of a step on a file keeps to the sizes. -/
theorem Bounded.allowsMove {move : Move} (h : Bounded pools s) (hfeed : s.feeds[i]?=some d)
    (hallows : allowsMove config pools s i f d move=some t) : Bounded pools t := by
  cases move with
  | takeRead =>
    obtain ⟨q,hq,rfl⟩ := Option.map_eq_some_iff.mp hallows
    exact ⟨h.readers.take hq,h.compressors,h.writers,h.publishers,h.feeds⟩
  | hand =>
    obtain ⟨q,hq,rfl⟩ := Option.map_eq_some_iff.mp hallows
    exact ⟨h.readers,h.compressors,h.writers.send hq,h.publishers,h.feeds⟩
  | takeWrite =>
    obtain ⟨q,hq,rfl⟩ := Option.map_eq_some_iff.mp hallows
    exact ⟨h.readers,h.compressors,h.writers.take hq,h.publishers,h.feeds⟩
  | sendStaged =>
    obtain ⟨q,hq,rfl⟩ := Option.map_eq_some_iff.mp hallows
    exact ⟨h.readers,h.compressors,h.writers,h.publishers.send hq,h.feeds⟩
  | takePublish =>
    obtain ⟨q,hq,rfl⟩ := Option.map_eq_some_iff.mp hallows
    exact ⟨h.readers,h.compressors,h.writers,h.publishers.take hq,h.feeds⟩
  | spawn =>
    obtain ⟨_,hallows⟩ := Option.ite_none_right_eq_some.mp hallows
    obtain ⟨q,hq,rfl⟩ := Option.map_eq_some_iff.mp hallows
    have hset := h.setFeed hfeed (Nat.le_of_eq (queued_handOn .compressor d))
    exact ⟨h.readers,h.compressors.send hq,h.writers,h.publishers,hset.feeds⟩
  | finishJob => cases hallows
  | finishReading =>
    obtain ⟨_,hallows⟩ := Option.ite_none_right_eq_some.mp hallows
    obtain rfl := Option.some.inj hallows
    exact h.setFeed hfeed (Nat.le_of_eq (queued_settle .lost d))
  | write _ | stage _ =>
    obtain ⟨_,hallows⟩ := Option.ite_none_right_eq_some.mp hallows
    obtain rfl := Option.some.inj hallows
    exact h.setFeed hfeed (Nat.zero_le _)
  | drop role =>
    obtain rfl := Option.some.inj hallows
    split
    · cases role with
      | reader => exact ⟨h.readers.release i,h.compressors,h.writers,h.publishers,h.feeds⟩
      | writer => exact ⟨h.readers,h.compressors,h.writers.release i,h.publishers,h.feeds⟩
      | publisher => exact ⟨h.readers,h.compressors,h.writers,h.publishers.release i,h.feeds⟩
    · exact h
  | _ =>
    obtain rfl := Option.some.inj hallows
    exact h

/-- What they make of a step of the scan keeps to the sizes. -/
theorem Bounded.allows {event : ScanRun.Event} (h : Bounded pools s)
    (hallows : allows config pools s event=some t) : Bounded pools t := by
  cases event with
  | startWalk =>
    obtain ⟨_,hallows⟩ := Option.ite_none_right_eq_some.mp hallows
    obtain rfl := Option.some.inj hallows
    exact ⟨h.readers,h.compressors,h.writers,h.publishers,h.feeds⟩
  | consider entry blocks =>
    obtain ⟨rest,_,rfl⟩ := allows_consider hallows
    refine ⟨h.readers,h.compressors,h.writers,h.publishers,fun d hd => ?_⟩
    rcases List.mem_append.mp hd with hold|hnew
    · exact h.feeds d hold
    · unfold newFeeds at hnew
      split at hnew
      · cases hnew
      · rw [List.mem_singleton.mp hnew]
        exact Nat.zero_le _
  | send =>
    simp only [PooledScan.allows] at hallows
    split at hallows
    · obtain ⟨q,hq,rfl⟩ := Option.map_eq_some_iff.mp hallows
      exact ⟨h.readers.send hq,h.compressors,h.writers,h.publishers,h.feeds⟩
    · cases hallows
  | finishWalk =>
    obtain ⟨_,hallows⟩ := Option.ite_none_right_eq_some.mp hallows
    obtain rfl := Option.some.inj hallows
    exact h
  | batch event =>
    cases event with
    | publish =>
      simp only [PooledScan.allows] at hallows
      split at hallows
      · obtain ⟨q,hq,rfl⟩ := Option.map_eq_some_iff.mp hallows
        exact ⟨h.readers,h.compressors,h.writers,h.publishers.send hq,h.feeds⟩
      · cases hallows
    | _ =>
      obtain rfl := Option.some.inj hallows
      exact h
  | file i move =>
    simp only [PooledScan.allows] at hallows
    split at hallows
    · next f d hfile hfeed => exact h.allowsMove hfeed hallows
    · cases hallows
  | _ =>
    obtain rfl := Option.some.inj hallows
    exact h

/-- Every step keeps to the sizes. -/
theorem Bounded.step {event : Event} (h : Bounded pools s)
    (hstep : step config pools s event=some t) : Bounded pools t := by
  cases event with
  | scan event =>
    obtain ⟨scan,u,_,hallows,rfl⟩ := step_scan hstep
    have hu := h.allows hallows
    exact ⟨hu.readers,hu.compressors,hu.writers,hu.publishers,hu.feeds⟩
  | takeJob i =>
    obtain ⟨q,hq,rfl⟩ := Option.map_eq_some_iff.mp hstep
    exact ⟨h.readers,h.compressors.take hq,h.writers,h.publishers,h.feeds⟩
  | finishJob i position ok =>
    obtain ⟨scan,d,_,hfeed,_,_,rfl⟩ := step_finishJob hstep
    have hset := h.setFeed hfeed (Nat.le_of_eq (queued_resolve position ok d))
    exact ⟨h.readers,h.compressors.release i,h.writers,h.publishers,hset.feeds⟩
  | feed i event =>
    obtain ⟨f,d,after,_,hfeed,hafter,rfl⟩ := step_feed hstep
    have hd := h.feeds d (List.mem_of_getElem? hfeed)
    exact ⟨h.readers,h.compressors,h.writers,h.publishers,
      forall_mem_set h.feeds (queued_step hd hafter)⟩

/-- Before the scan nothing is waiting. -/
theorem bounded_initial (pools : Pools) (stopped : Bool)
    (entries : List (ScanAdmission.DirEntry×ℕ)) (walks : ℕ) :
    Bounded pools (.initial stopped entries walks) where
  readers := Pool.within_empty _
  compressors := Pool.within_empty _
  writers := Pool.within_empty _
  publishers := Pool.within_empty _
  feeds := fun _ hbad => (List.not_mem_nil hbad).elim

end Bounds

section Results
variable {config : Config} {pools : Pools} {s t : State}

/-- The step of the scan that a step with pools is, if it is one. -/
def Event.inScan : Event→Option ScanRun.Event
  | .scan e => some e
  | .takeJob _ => none
  | .finishJob i _ _ => some (.file i .finishJob)
  | .feed _ _ => none

/-- Every step is one of the scan, or the scan does not notice it. -/
theorem step_inScan {e : Event} (hstep : step config pools s e=some t) :
    (∀ d, e.inScan=some d → ScanRun.step config s.scan d=some t.scan) ∧
      (e.inScan=none → t.scan=s.scan) := by
  cases e with
  | scan e =>
    obtain ⟨scan,u,hscan,_,rfl⟩ := step_scan hstep
    refine ⟨fun d hd => ?_,fun hbad => by cases hbad⟩
    obtain rfl := Option.some.inj hd
    exact hscan
  | takeJob i =>
    obtain ⟨q,_,rfl⟩ := Option.map_eq_some_iff.mp hstep
    exact ⟨fun d hbad => (by cases hbad),fun _ => rfl⟩
  | finishJob i position ok =>
    obtain ⟨scan,d,hscan,_,_,_,rfl⟩ := step_finishJob hstep
    refine ⟨fun d hd => ?_,fun hbad => by cases hbad⟩
    obtain rfl := Option.some.inj hd
    exact hscan
  | feed i e =>
    obtain ⟨f,d,after,_,_,_,rfl⟩ := step_feed hstep
    exact ⟨fun d hbad => (by cases hbad),fun _ => rfl⟩

/-- A run with pools is a run of the scan, and no channel and no pool is ever overfull. -/
theorem pooled_refines (config : Config) (pools : Pools) (stopped : Bool)
    (entries : List (ScanAdmission.DirEntry×ℕ)) (walks : ℕ) {trace : List (State×Event)} {s : State}
    (run : Run (step config pools) (.initial stopped entries walks) trace s) :
    Run (ScanRun.step config) (.initial stopped) (project State.scan Event.inScan trace) s.scan ∧
      Bounded pools s := by
  refine ⟨?_,?_⟩
  · exact run.project (fun hstep hseen => (step_inScan hstep).1 _ hseen)
      fun hstep hunseen => (step_inScan hstep).2 hunseen
  · exact run.invariant (bounded_initial pools stopped entries walks) fun h hstep => h.step hstep

/-- Two compressors, one publisher and queues of one slot. -/
def smallPools : Pools := .withScratchBatch 2 1 1 (by decide) (by decide) (by decide)

/-- A file of three bytes is decompressed by hand in a batch of its own, from the walk to the
return of the scan. -/
def oneFileEvents : List Event :=
  [.scan .startWalk,.scan (.consider BatchAdmission.threeByteEntry 1),.scan .endWalk,
    .scan .makeContext,.scan .submit,.scan (.batch .reserve),.scan .send,.scan .finishWalk,
    .scan (.file 0 .takeRead),.scan (.file 0 (.openFile true)),.scan (.file 0 .hand),
    .scan (.file 0 .takeWrite),.feed 0 .want,.feed 0 .prepare,.feed 0 .read,.feed 0 .start,
    .feed 0 .receive,.scan (.file 0 .spawn),.takeJob 0,.finishJob 0 0 true,.feed 0 .await,
    .feed 0 .apply,.scan (.file 0 .finishReading),.feed 0 .hangUp,.feed 0 .finish,
    .scan (.file 0 (.stage (some 3))),.scan (.file 0 (.drop .reader)),
    .scan (.file 0 (.drop .reader)),.scan (.file 0 (.drop .writer)),
    .scan (.file 0 (.drop .writer)),.scan (.file 0 .sendMessage),.scan (.batch (.receive 0)),
    .scan (.batch .collected),.scan (.batch .publish),.scan (.batch .published),
    .scan (.file 0 .takePublish),.scan (.file 0 (.publish true)),
    .scan (.file 0 (.report .publisher true)),
    .scan (.file 0 (.count .publisher ⟨0,.compressible⟩)),.scan (.file 0 (.close true)),
    .scan (.file 0 (.drop .publisher)),.scan (.file 0 (.drop .publisher)),
    .scan (.file 0 .dropContext),.scan (.file 0 .dropOperation),
    .scan (.file 0 (.drop .publisher)),.scan (.batch .acknowledge),.scan (.batch .acknowledged),
    .scan (.batch (.flush 1 true)),.scan (.batch .drained),.scan .dropOperation,
    .scan .receiveStats]

/-- The number of steps a scan can take. -/
def stepLimit (entries : List (ScanAdmission.DirEntry×ℕ)) (walks : ℕ) : ℕ :=
  7+tally entryCost entries+2*walks

/-- Before the scan all the entries and roots are left. -/
theorem cost_initial (stopped : Bool) (entries : List (ScanAdmission.DirEntry×ℕ)) (walks : ℕ) :
    cost (.initial stopped entries walks)=stepLimit entries walks := by
  simp only [cost,scanCost,aroundCost,State.initial,ScanRun.State.initial,phaseCost,Pool.empty,
    tally_nil,List.length_nil,stepLimit]
  omega

/-- As long as no handler panics, a scan with its pools returns, whatever the order of its steps: it
has only so many, when no further step is possible it has returned and every thread is idle, and
from every state that it reaches it can come to such an end. -/
theorem scan_returns (config : Config) (pools : Pools) (stopped : Bool)
    (entries : List (ScanAdmission.DirEntry×ℕ)) (walks : ℕ) {trace : List (State×Event)} {s : State}
    (run : Run (step config pools) (.initial stopped entries walks) trace s) :
    trace.length≤ stepLimit entries walks ∧ (Stuck config pools s → Ended s) ∧
      ∃ rest t, Run (step config pools) s rest t ∧ Stuck config pools t := by
  have hpooled := pooled_of_run run
  have hcourse := course_of_run run
  have hspent := run.length_le_of_invariant (pooled_initial config stopped entries walks)
    (fun h hstep => h.step hstep) fun h hstep => cost_step h hstep
  rw [cost_initial] at hspent
  refine ⟨by omega,fun hstuck => hstuck.ended hpooled hcourse,?_⟩
  exact exists_run_of_cost cost hpooled (fun h hstep => h.step hstep)
    fun h hstep => cost_step h hstep

/-- One file is decompressed in a batch of its own, and its scan returns. -/
theorem scan_returns_one_file : ∃ trace s,
    Run (step ⟨.decompressManually,.batched BatchAdmission.fiveOfEight,2,1⟩ smallPools)
      (.initial false [(BatchAdmission.threeByteEntry,1)] 1) trace s ∧
      s.scan.phase=.finished ⟨1,3,0,0,0,0,1⟩ ∧ trace.length≤101 ∧
      ∃ rest t, Run (step ⟨.decompressManually,.batched BatchAdmission.fiveOfEight,2,1⟩ smallPools)
        s rest t ∧ Stuck ⟨.decompressManually,.batched BatchAdmission.fiveOfEight,2,1⟩ smallPools t :=
  have run := @run_of_replay _ _
      (step ⟨.decompressManually,.batched BatchAdmission.fiveOfEight,2,1⟩ smallPools)
      (.initial false [(BatchAdmission.threeByteEntry,1)] 1) _ oneFileEvents _ rfl
  have h := scan_returns ⟨.decompressManually,.batched BatchAdmission.fiveOfEight,2,1⟩ smallPools
      false [(BatchAdmission.threeByteEntry,1)] 1 run
  ⟨_,_,run,rfl,h.1,h.2.2⟩

end Results

end Applesauce.PooledScan
