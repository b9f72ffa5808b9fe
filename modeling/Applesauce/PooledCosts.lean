import Applesauce.PooledInvariant

/-!
# What a scan has left to do

Every step of a scan with its pools uses something up: a thread comes further
with a file or drops something, a block is handed on, an entry is handed
over, the scanning thread goes on. A weight for each of these makes one
number of what is left, and every step makes it smaller.
-/

namespace Applesauce.PooledScan

open SharedHandles FileThreads ScanRun WorkerPool Tally
open Publication (Mode)

section Definitions

/-- What a thread has left at a stage, with what it hands to the next thread. -/
def stageCost : Role→Stage→ℕ
  | .reader,.queued => 32
  | .reader,.reserving => 31
  | .reader,.opening => 27
  | .reader,.handing => 26
  | .reader,.reading => 6
  | .writer,.queued => 14
  | .writer,.working => 12
  | .writer,.sending => 9
  | .writer,.reporting => 3
  | .writer,.counting => 2
  | .publisher,.queued => 5
  | .publisher,.working => 4
  | .publisher,.reporting => 3
  | .publisher,.counting => 2
  | .publisher,.closing => 1
  | _,_ => 0

/-- What a thread has left, with what it still drops. -/
def threadCost (role : Role) (thread : Thread) : ℕ := stageCost role thread.stage+thread.owned.length

/-- Whether a shared value is still to be dropped. -/
def handleCost (a : Arc) : ℕ := if a=.dropped then 0 else 1

/-- What is left to be done with a file, its feed apart. -/
def fileCost (f : File) : ℕ :=
  threadCost .reader f.reader+threadCost .writer f.writer+threadCost .publisher f.publisher+
    f.jobs+handleCost f.context+handleCost f.completion+f.operation.toNat

/-- What a reader has left before its next block. -/
def readingCost : Reading→ℕ
  | .deciding => 6
  | .preparing => 5
  | .holding => 1
  | .sending => 0

/-- What a writer has left before its next slot. -/
def writingCost : Writing→ℕ
  | .starting => 3
  | .receiving => 2
  | .awaiting => 1
  | .applying => 3
  | .finishing => 1
  | .ending => 0

/-- What is left to be done between a reader and a writer. -/
def feedCost (d : Feed) : ℕ :=
  16*d.left+readingCost d.reading+3*d.blocks.length+writingCost d.writing

/-- What the scanning thread has left after a drain. -/
def resumeCost : Resume→ℕ
  | .submit _ => 62
  | .walk => 7
  | .finish => 2

/-- What the scanning thread has left of an entry or of the end, with so many files pending. -/
def phaseCost (pending : ℕ) : Phase→ℕ
  | .walking => 13*pending+7
  | .ending _ _ => 13*pending+8
  | .admitting _ => 13*pending+71
  | .submitting _ => 13*pending+67
  | .reserving _ => 13*pending+62
  | .sending _ => 13*pending+12
  | .collecting left staged resume => 13*left+12*staged.length+4+resumeCost resume
  | .publishing rest count volumes resume =>
    11*rest.length+count+volumes.length+3+resumeCost resume
  | .awaiting left volumes resume => left+volumes.length+2+resumeCost resume
  | .flushing volumes resume => volumes.length+1+resumeCost resume
  | .dropping => 13*pending+2
  | .waiting => 13*pending+1
  | .finished _ => 13*pending

/-- What an entry costs that has not been handed over. -/
def entryCost (entry : ScanAdmission.DirEntry×ℕ) : ℕ := 76+16*entry.2

/-- What is left of the scan itself. -/
def scanCost (scan : ScanRun.State) : ℕ :=
  phaseCost scan.pending scan.phase+scan.walkers+tally fileCost scan.files

/-- What is left around the scan. -/
def aroundCost (s : State) : ℕ :=
  tally feedCost s.feeds+tally entryCost s.entries+2*s.walks+s.compressors.waiting.length

/-- What is left to be done. -/
def cost (s : State) : ℕ := scanCost s.scan+aroundCost s

end Definitions

section Files
variable {config : Config} {f g : File} {s t : Shared}

/-- No handle of a dropped value is dropped again. -/
@[simp]
theorem handleCost_release (a : Arc) : handleCost a.release=handleCost a := by
  unfold Arc.release
  split <;> rfl

/-- A clone of a handle is dropped with the others. -/
@[simp]
theorem handleCost_clone (a : Arc) : handleCost a.clone=handleCost a := by
  cases a <;> rfl

/-- So is the clone for the writer. -/
@[simp]
theorem handleCost_cloneCompletion (staging : Staging) (a : Arc) :
    handleCost (staging.cloneCompletion a)=handleCost a := by
  cases staging with
  | batched limits => exact handleCost_clone a
  | direct | scratch _ _ => rfl

/-- What the threads own of a file is little. -/
theorem lists_length_le (staging : Staging) : staging.item.length≤3 ∧
    staging.reserved.length≤3 ∧ staging.kept.length≤2 ∧ staging.handed.length≤3 ∧
    staging.published.length≤3 := by
  cases staging <;>
    simp [Staging.item,Staging.reserved,Staging.kept,Staging.handed,Staging.published]

/-- What is left of a file when one thread goes on with its share. -/
theorem fileCost_setThread (f : File) (thread : Thread) (role : Role) :
    fileCost (f.setThread thread role)+threadCost role (f.thread role)=
      fileCost f+threadCost role thread := by
  cases role <;> (simp only [fileCost,File.setThread,File.thread]; omega)

/-- A thread comes to a later stage with what it owns. -/
theorem fileCost_advance {role : Role} {stage : Stage}
    (h : stageCost role stage<stageCost role (f.thread role).stage) :
    fileCost (f.setThread ⟨stage,(f.thread role).owned⟩ role)<fileCost f := by
  have hset := fileCost_setThread f ⟨stage,(f.thread role).owned⟩ role
  simp only [threadCost] at hset
  omega

/-- After a report there is less left; a reader makes none. -/
theorem stageCost_afterReport {role : Role} (h : role≠.reader) :
    stageCost role role.afterReport<stageCost role .counting ∧
      stageCost role .counting<stageCost role .reporting := by
  cases role with
  | reader => exact absurd rfl h
  | writer | publisher => decide

/-- Dropping something does not bring anything back. -/
theorem fileCost_drop (o : Owned) (f : File) (s : Shared) : fileCost (o.drop f s).1=fileCost f := by
  cases o <;> simp [Owned.drop,dropReservation,fileCost]

/-- A reservation is dropped later by the thread that has got it. -/
theorem fileCost_reserve (hstep : f.step config .reserve s=some (g,t)) :
    fileCost g<fileCost f := by
  have hlists := lists_length_le config.staging
  obtain ⟨hstage,hstep⟩ := Option.ite_none_right_eq_some.mp hstep
  split at hstep
  · obtain ⟨rfl,rfl⟩ := Prod.mk.inj (Option.some.inj hstep)
    simp only [fileCost,threadCost,hstage,stageCost]
    omega
  · obtain ⟨rfl,rfl⟩ := Prod.mk.inj (Option.some.inj hstep)
    refine @fileCost_advance f .reader _ ?_
    rw [File.thread,hstage]
    decide
  · cases hstep

/-- A file that is handed over has the writer before it. -/
theorem fileCost_hand (hstep : f.step config .hand s=some (g,t)) :
    fileCost g<fileCost f := by
  have hlists := lists_length_le config.staging
  obtain ⟨hstage,hstep⟩ := Option.ite_none_right_eq_some.mp hstep
  obtain ⟨rfl,rfl⟩ := Prod.mk.inj (Option.some.inj hstep)
  simp only [fileCost,threadCost,hstage,stageCost,handleCost_clone,handleCost_cloneCompletion]
  omega

/-- A writer that takes a file clones the context for itself. -/
theorem fileCost_takeWrite (hstep : f.step config .takeWrite s=some (g,t)) :
    fileCost g<fileCost f := by
  obtain ⟨hstage,hstep⟩ := Option.ite_none_right_eq_some.mp hstep
  obtain ⟨rfl,rfl⟩ := Prod.mk.inj (Option.some.inj hstep)
  simp only [fileCost,threadCost,hstage,stageCost,handleCost_clone,List.length_append,
    List.length_singleton]
  omega

/-- A writer that has written keeps the context only. -/
theorem fileCost_write {published : Bool}
    (hstep : f.step config (.write published) s=some (g,t)) : fileCost g<fileCost f := by
  obtain ⟨⟨hstage,_⟩,hstep⟩ := Option.ite_none_right_eq_some.mp hstep
  obtain ⟨rfl,rfl⟩ := Prod.mk.inj (Option.some.inj hstep)
  have hafter : stageCost .writer (if published then .reporting else .leaving)≤3 := by
    cases published <;> decide
  have hworking : stageCost .writer .working=12 := rfl
  simp only [fileCost,threadCost,hstage,handleCost_release,List.length_singleton]
  omega

/-- A writer that has staged keeps little. -/
theorem fileCost_stage {outcome : Option ℕ}
    (hstep : f.step config (.stage outcome) s=some (g,t)) : fileCost g<fileCost f := by
  have hlists := lists_length_le config.staging
  obtain ⟨⟨hstage,_,_⟩,hstep⟩ := Option.ite_none_right_eq_some.mp hstep
  obtain ⟨rfl,rfl⟩ := Prod.mk.inj (Option.some.inj hstep)
  cases outcome with
  | none =>
    refine @fileCost_advance f .writer .leaving ?_
    rw [File.thread,hstage]
    decide
  | some kept =>
    have hafter : stageCost .writer config.staging.afterStaging≤9 := by
      cases config.staging with
      | direct | scratch _ _ | batched _ => exact of_decide_eq_true rfl
    have hworking : stageCost .writer .working=12 := rfl
    simp only [shrinkTo,fileCost,threadCost,hstage]
    omega

/-- A staged file that is sent has the publisher before it. -/
theorem fileCost_sendStaged (hstep : f.step config .sendStaged s=some (g,t)) :
    fileCost g<fileCost f := by
  have hlists := lists_length_le config.staging
  obtain ⟨hstage,hstep⟩ := Option.ite_none_right_eq_some.mp hstep
  obtain ⟨rfl,rfl⟩ := Prod.mk.inj (Option.some.inj hstep)
  simp only [fileCost,threadCost,hstage,stageCost]
  omega

/-- A report brings its thread on. -/
theorem fileCost_report {role : Role} {metadata : Bool} (h : Sound config.staging f)
    (hstep : f.step config (.report role metadata) s=some (g,t)) : fileCost g<fileCost f := by
  obtain ⟨hstage,hstep⟩ := Option.ite_none_right_eq_some.mp hstep
  have hunreported := h.unreported hstage
  have hrole : role≠.reader := by
    rintro rfl
    exact h.reader.silent (.inl hstage)
  obtain ⟨hcounting,hreporting⟩ := stageCost_afterReport hrole
  cases metadata with
  | true =>
    simp only [reportNewStats,hunreported,if_true,Bool.false_eq_true,if_false] at hstep
    obtain rfl := (Prod.mk.inj (Option.some.inj hstep)).1
    refine @fileCost_advance {f with reported := true} role .counting ?_
    have hsame : ({f with reported := true} : File).thread role=f.thread role := by
      cases role <;> rfl
    rw [hsame,hstage]
    exact hreporting
  | false =>
    obtain rfl := (Prod.mk.inj (Option.some.inj hstep)).1
    refine @fileCost_advance f role role.afterReport ?_
    rw [hstage]
    exact hcounting.trans hreporting

/-- So does counting an end. -/
theorem fileCost_count {role : Role} {info : Statistics.FileInfo} (h : Sound config.staging f)
    (hstep : f.step config (.count role info) s=some (g,t)) : fileCost g<fileCost f := by
  obtain ⟨hstage,hstep⟩ := Option.ite_none_right_eq_some.mp hstep
  obtain ⟨rfl,rfl⟩ := Prod.mk.inj (Option.some.inj hstep)
  have hrole : role≠.reader := by
    rintro rfl
    exact h.reader.silent (.inr hstage)
  refine @fileCost_advance f role role.afterReport ?_
  rw [hstage]
  exact (stageCost_afterReport hrole).1

/-- A thread that drops something owns less. -/
theorem fileCost_dropOwned {role : Role}
    (hstep : f.step config (.drop role) s=some (g,t)) : fileCost g<fileCost f := by
  simp only [File.step] at hstep
  split at hstep
  · next o owned hthread =>
    obtain rfl := (Prod.mk.inj (Option.some.inj hstep)).1
    have hset := fileCost_setThread f ⟨.leaving,owned⟩ role
    rw [hthread] at hset
    simp only [threadCost,List.length_cons] at hset
    refine Nat.lt_of_le_of_lt (Nat.le_of_eq (fileCost_drop o (f.setThread ⟨.leaving,owned⟩ role) s)) ?_
    omega
  · cases hstep

/-- A context is dropped once. -/
theorem fileCost_dropContext (hstep : f.step config .dropContext s=some (g,t)) :
    fileCost g<fileCost f := by
  obtain ⟨hdropping,hstep⟩ := Option.ite_none_right_eq_some.mp hstep
  have hstep := Option.some.inj hstep
  split at hstep
  · obtain ⟨rfl,rfl⟩ := Prod.mk.inj hstep
    simp [fileCost,hdropping,handleCost]
  · obtain ⟨rfl,rfl⟩ := Prod.mk.inj hstep
    simp [fileCost,hdropping,handleCost]

/-- The end of the reading is worth the way back between two blocks. -/
theorem fileCost_finishReading (hstep : f.step config .finishReading s=some (g,t)) :
    fileCost g+6=fileCost f := by
  obtain ⟨hstage,hstep⟩ := Option.ite_none_right_eq_some.mp hstep
  obtain ⟨rfl,rfl⟩ := Prod.mk.inj (Option.some.inj hstep)
  simp only [fileCost,threadCost,hstage,stageCost]
  omega

/-- A step of a thread on a file leaves less of it, unless a block goes to the compressors. -/
theorem fileCost_step {move : Move} (h : Sound config.staging f) (hmove : move≠.spawn)
    (hstep : f.step config move s=some (g,t)) : fileCost g<fileCost f := by
  cases move with
  | takeRead =>
    obtain ⟨hstage,hstep⟩ := Option.ite_none_right_eq_some.mp hstep
    obtain ⟨rfl,rfl⟩ := Prod.mk.inj (Option.some.inj hstep)
    refine @fileCost_advance f .reader _ ?_
    rw [File.thread,hstage]
    cases config.staging with
    | direct | scratch _ _ | batched _ => exact of_decide_eq_true rfl
  | reserve => exact fileCost_reserve hstep
  | openFile ok =>
    obtain ⟨hstage,hstep⟩ := Option.ite_none_right_eq_some.mp hstep
    obtain ⟨rfl,rfl⟩ := Prod.mk.inj (Option.some.inj hstep)
    refine @fileCost_advance f .reader _ ?_
    rw [File.thread,hstage]
    cases ok <;> decide
  | hand => exact fileCost_hand hstep
  | spawn => exact absurd rfl hmove
  | finishJob =>
    obtain ⟨hjobs,hstep⟩ := Option.ite_none_right_eq_some.mp hstep
    obtain ⟨rfl,rfl⟩ := Prod.mk.inj (Option.some.inj hstep)
    simp only [fileCost,handleCost_release]
    omega
  | finishReading =>
    have hfile := fileCost_finishReading hstep
    omega
  | takeWrite => exact fileCost_takeWrite hstep
  | write published => exact fileCost_write hstep
  | stage outcome => exact fileCost_stage hstep
  | sendStaged => exact fileCost_sendStaged hstep
  | takePublish =>
    obtain ⟨hstage,hstep⟩ := Option.ite_none_right_eq_some.mp hstep
    obtain ⟨rfl,rfl⟩ := Prod.mk.inj (Option.some.inj hstep)
    refine @fileCost_advance f .publisher _ ?_
    rw [File.thread,hstage]
    decide
  | publish published =>
    obtain ⟨hstage,hstep⟩ := Option.ite_none_right_eq_some.mp hstep
    obtain ⟨rfl,rfl⟩ := Prod.mk.inj (Option.some.inj hstep)
    refine @fileCost_advance f .publisher _ ?_
    rw [File.thread,hstage]
    cases published <;> decide
  | report role metadata => exact fileCost_report h hstep
  | count role info => exact fileCost_count h hstep
  | close ok =>
    obtain ⟨hstage,hstep⟩ := Option.ite_none_right_eq_some.mp hstep
    obtain ⟨rfl,rfl⟩ := Prod.mk.inj (Option.some.inj hstep)
    refine @fileCost_advance f .publisher .leaving ?_
    rw [File.thread,hstage]
    decide
  | drop role => exact fileCost_dropOwned hstep
  | sendMessage =>
    obtain ⟨hdropping,hstep⟩ := Option.ite_none_right_eq_some.mp hstep
    obtain ⟨rfl,rfl⟩ := Prod.mk.inj (Option.some.inj hstep)
    simp [fileCost,hdropping,handleCost]
  | dropContext => exact fileCost_dropContext hstep
  | dropOperation =>
    obtain ⟨hheld,hstep⟩ := Option.ite_none_right_eq_some.mp hstep
    obtain ⟨rfl,rfl⟩ := Prod.mk.inj (Option.some.inj hstep)
    simp [fileCost,hheld.2]

/-- A block that goes to the compressors brings them one more work item. -/
theorem fileCost_spawn (hstep : f.step config .spawn s=some (g,t)) : fileCost g=fileCost f+1 := by
  obtain ⟨_,hstep⟩ := Option.ite_none_right_eq_some.mp hstep
  obtain ⟨rfl,rfl⟩ := Prod.mk.inj (Option.some.inj hstep)
  simp only [fileCost,handleCost_clone]
  omega

end Files

section Feeds
variable {mode : Mode} {slots : ℕ} {f : File} {d e : Feed}

/-- A reader that returns is between two blocks again. -/
theorem feedCost_settle (b : Block) (h : d.MayFinish mode f) :
    feedCost (d.settle b)≤feedCost d+5 := by
  have hreading : 1≤readingCost d.reading := by
    unfold Feed.MayFinish at h
    split at h
    · next hreading => rw [hreading]; decide
    · next hreading => rw [hreading]; decide
    · next hreading => rw [hreading]; decide
    · exact h.elim
  have hdeciding : readingCost .deciding=6 := rfl
  simp only [feedCost,Feed.settle,List.length_map]
  omega

/-- A block handed on is worth the way to the next. -/
theorem feedCost_handOn (b : Block) {d : Feed} (h : 0< d.left) :
    feedCost (d.handOn b)+10≤feedCost d := by
  simp only [feedCost,Feed.handOn,Feed.settle,List.length_map,readingCost]
  omega

/-- A receiver is dropped with its slots. -/
theorem feedCost_close (d : Feed) : feedCost d.close≤feedCost d := by
  simp only [feedCost,Feed.close,List.length_nil,writingCost]
  omega

/-- A compressor does not change the number of slots. -/
theorem feedCost_resolve (position : ℕ) (ok : Bool) (d : Feed) :
    feedCost (d.resolve position ok)=feedCost d := by
  unfold Feed.resolve
  split
  · simp only [feedCost,List.length_set]
  · rfl

/-- A step of the reader or the writer of a file leaves less between them. -/
theorem feedCost_step {event : FeedEvent} (hstep : d.step mode slots f event=some e) :
    feedCost e<feedCost d := by
  cases event with
  | want =>
    obtain ⟨⟨_,hreading,_⟩,hstep⟩ := Option.ite_none_right_eq_some.mp hstep
    obtain rfl := Option.some.inj hstep
    simp only [feedCost,hreading,readingCost]
    omega
  | prepare =>
    obtain ⟨⟨_,hreading,_⟩,hstep⟩ := Option.ite_none_right_eq_some.mp hstep
    obtain rfl := Option.some.inj hstep
    simp only [feedCost,hreading,readingCost,List.length_append,List.length_singleton]
    omega
  | read =>
    obtain ⟨⟨_,hreading,_⟩,hstep⟩ := Option.ite_none_right_eq_some.mp hstep
    obtain rfl := Option.some.inj hstep
    simp only [feedCost,hreading,readingCost]
    omega
  | finishSlot =>
    obtain ⟨⟨_,_,hleft,_⟩,hstep⟩ := Option.ite_none_right_eq_some.mp hstep
    obtain rfl := Option.some.inj hstep
    have hless := feedCost_handOn .filled hleft
    omega
  | start =>
    obtain ⟨⟨_,hwriting⟩,hstep⟩ := Option.ite_none_right_eq_some.mp hstep
    obtain rfl := Option.some.inj hstep
    simp only [feedCost,hwriting,writingCost]
    omega
  | receive =>
    obtain ⟨⟨_,hwriting,_⟩,hstep⟩ := Option.ite_none_right_eq_some.mp hstep
    obtain rfl := Option.some.inj hstep
    simp only [feedCost,hwriting,writingCost]
    omega
  | await =>
    obtain ⟨⟨_,hwriting⟩,hstep⟩ := Option.ite_none_right_eq_some.mp hstep
    split at hstep
    · next rest hblocks =>
      obtain rfl := Option.some.inj hstep
      simp only [feedCost,hwriting,hblocks,writingCost,List.length_cons]
      omega
    · next rest hblocks =>
      obtain rfl := Option.some.inj hstep
      simp only [feedCost,hwriting,hblocks,writingCost,List.length_cons]
      omega
    · cases hstep
  | apply =>
    obtain ⟨⟨_,hwriting⟩,hstep⟩ := Option.ite_none_right_eq_some.mp hstep
    obtain rfl := Option.some.inj hstep
    simp only [feedCost,hwriting,writingCost]
    omega
  | hangUp =>
    obtain ⟨⟨_,hwriting,_⟩,hstep⟩ := Option.ite_none_right_eq_some.mp hstep
    obtain rfl := Option.some.inj hstep
    simp only [feedCost,hwriting,writingCost]
    omega
  | finish =>
    obtain ⟨⟨_,hwriting,_⟩,hstep⟩ := Option.ite_none_right_eq_some.mp hstep
    obtain rfl := Option.some.inj hstep
    simp only [feedCost,Feed.close,hwriting,writingCost,List.length_nil]
    omega

end Feeds

section Scanning
variable {config : Config} {limits : BatchLimits} {s t : ScanRun.State} {f g : File} {i : ℕ}

/-- What is left of the scan when a file is changed and the scanning thread goes on. -/
theorem scanCost_update (hfile : s.files[i]?=some f) (g : File) (shared : Shared) (phase : Phase) :
    scanCost (s.update i g shared phase)+fileCost f+phaseCost s.pending s.phase=
      scanCost s+fileCost g+phaseCost s.pending phase := by
  have hset := tally_set fileCost g hfile
  simp only [scanCost,ScanRun.State.update]
  omega

/-- What is left when only the phase changes. -/
theorem scanCost_phase (s : ScanRun.State) (phase : Phase) :
    scanCost {s with phase := phase}+phaseCost s.pending s.phase=
      scanCost s+phaseCost s.pending phase := by
  simp only [scanCost]
  omega

/-- After a drain nothing is pending. -/
theorem phaseCost_resume (resume : Resume) : phaseCost 0 resume.phase=resumeCost resume := by
  cases resume <;> rfl

/-- A drain costs the messages of the pending files and what follows it. -/
theorem scanCost_drain (s : ScanRun.State) (resume : Resume) :
    scanCost (s.drain resume)+phaseCost s.pending s.phase≤
      scanCost s+(13*s.pending+4+resumeCost resume) := by
  unfold ScanRun.State.drain
  split
  · next hnone =>
    have hphase := scanCost_phase s resume.phase
    have hresume := phaseCost_resume resume
    rw [hnone] at hphase ⊢
    omega
  · have hphase := scanCost_phase s (.collecting s.pending [] resume)
    have hcollecting : phaseCost s.pending (.collecting s.pending [] resume)=
        13*s.pending+4+resumeCost resume := rfl
    omega

/-- A volume is put into the list at most once. -/
theorem insertVolume_length (volume : ℕ) (volumes : List ℕ) :
    (insertVolume volume volumes).length≤volumes.length+1 := by
  unfold insertVolume
  split
  · exact Nat.le_succ _
  · rw [List.length_append,List.length_singleton]

/-- A file that is admitted has all its way before it. -/
theorem fileCost_admitFile (config : Config) (limits : BatchLimits) (number : ℕ) (f : File) :
    fileCost (admitFile config limits number f)≤fileCost f+36 := by
  have hqueued : stageCost .reader .queued=32 := rfl
  have hitem : (Staging.batched limits).item.length=3 := rfl
  have hlive : handleCost (.live 1)=1 := rfl
  simp only [admitFile,fileCost,threadCost,hitem]
  omega

/-- A staged file that is sent has the way of the publisher before it. -/
theorem fileCost_published (limits : BatchLimits) (f : File) :
    fileCost {f with
      staged := [], publisher := ⟨.queued,(Staging.batched limits).published⟩}≤fileCost f+8 := by
  have hqueued : stageCost .publisher .queued=5 := rfl
  have hpublished : (Staging.batched limits).published.length=3 := rfl
  simp only [fileCost,threadCost,hpublished]
  omega

/-- A step of the batch leaves less of the scan. -/
theorem scanCost_batch {e : BatchEvent} (h : BatchMoves config limits s e t) :
    scanCost t<scanCost s := by
  cases h with
  | @granted i f shared hphase hfile hreserve =>
    have hupdate := scanCost_update hfile (admitFile config limits s.number f) shared (.sending i)
    have hadmitted := fileCost_admitFile config limits s.number f
    have hpending : scanCost {s.update i (admitFile config limits s.number f) shared (.sending i)
        with pending := s.pending+1}=
        scanCost (s.update i (admitFile config limits s.number f) shared (.sending i))+13 := by
      simp only [scanCost,ScanRun.State.update,phaseCost]
      omega
    rw [hphase] at hupdate
    simp only [phaseCost] at hupdate
    omega
  | @refused i f shared hphase hfile hreserve =>
    have hupdate := scanCost_update hfile {f with reader := ⟨.leaving,[.context]⟩} shared .walking
    have hleaving : fileCost {f with reader := ⟨.leaving,[.context]⟩}≤fileCost f+1 := by
      simp only [fileCost,threadCost,stageCost,List.length_singleton]
      omega
    rw [hphase] at hupdate
    simp only [phaseCost] at hupdate
    omega
  | @receive i left staged resume f hphase hfile hmessage =>
    have hupdate := scanCost_update hfile {f with received := true} s.shared
      (.collecting left (if f.staged=[] then staged else staged++[i]) resume)
    have hsame : fileCost {f with received := true}=fileCost f := rfl
    have hlength : (if f.staged=[] then staged else staged++[i]).length≤ staged.length+1 := by
      split
      · exact Nat.le_succ _
      · rw [List.length_append,List.length_singleton]
    rw [hphase] at hupdate
    simp only [phaseCost] at hupdate
    omega
  | @collected staged resume hphase =>
    have hnext := scanCost_phase s (.publishing staged staged.length [] resume)
    rw [hphase] at hnext
    simp only [phaseCost,List.length_nil] at hnext
    omega
  | @publish i count rest volumes resume f hphase hfile =>
    have hupdate := scanCost_update hfile
      {f with staged := [], publisher := ⟨.queued,(Staging.batched limits).published⟩} s.shared
      (.publishing rest count (insertVolume f.found.metadata.dev volumes) resume)
    have hpublished := fileCost_published limits f
    have hvolumes := insertVolume_length f.found.metadata.dev volumes
    rw [hphase] at hupdate
    simp only [phaseCost,List.length_cons] at hupdate
    omega
  | @published count volumes resume hphase =>
    have hnext := scanCost_phase s (.awaiting count volumes resume)
    rw [hphase] at hnext
    simp only [phaseCost,List.length_nil] at hnext
    omega
  | @acknowledge left volumes resume hphase hsome =>
    simp only [scanCost,hphase,phaseCost]
    omega
  | @acknowledged volumes resume hphase =>
    have hnext := scanCost_phase s (.flushing volumes resume)
    rw [hphase] at hnext
    simp only [phaseCost] at hnext
    omega
  | @flush volume volumes resume ok hphase hvolume =>
    have herase := List.length_erase_of_mem hvolume
    have hpos := List.length_pos_of_mem hvolume
    simp only [scanCost,hphase,phaseCost]
    omega
  | @drained resume hphase =>
    have hresume := phaseCost_resume resume
    have hflushing : phaseCost s.pending (.flushing [] resume)=0+1+resumeCost resume := rfl
    simp only [scanCost,hphase]
    omega

end Scanning

section Steps
variable {config : Config} {pools : Pools} {s t : State} {scan : ScanRun.State} {f g : File}
  {d : Feed} {i : ℕ}

/-- What is left around the scan when a feed is changed. -/
theorem aroundCost_setFeed (hfeed : s.feeds[i]?=some d) (e : Feed) :
    aroundCost (s.setFeed i e)+feedCost d=aroundCost s+feedCost e := by
  have hset := tally_set feedCost e hfeed
  simp only [aroundCost,State.setFeed]
  omega

/-- A block sent to the compressors is one work item more in their channel. -/
theorem aroundCost_send {q : Pool ℕ} {sizes : Sizes} (hfeed : s.feeds[i]?=some d)
    (hsend : s.compressors.send sizes i=some q) (e : Feed) :
    aroundCost {s.setFeed i e with compressors := q}+feedCost d=aroundCost s+feedCost e+1 := by
  obtain ⟨_,rfl⟩ := Pool.send_eq_some hsend
  have hset := tally_set feedCost e hfeed
  simp only [aroundCost,State.setFeed,List.length_append,List.length_singleton]
  omega

/-- What the channels and pools make of a step on a file and its feed, together with what it
leaves of the file. -/
theorem aroundCost_move {move : Move} {shared : Shared} (h : Sound config.staging f)
    (hfed : Fed config.mode f d) (hfeed : s.feeds[i]?=some d)
    (hstep : f.step config move s.scan.shared=some (g,shared))
    (hallows : allowsMove config pools s i f d move=some t) :
    aroundCost t+fileCost g<aroundCost s+fileCost f := by
  cases move with
  | takeRead | hand | takeWrite | sendStaged | takePublish =>
    have hless := fileCost_step h (fun hbad => by cases hbad) hstep
    obtain ⟨q,_,rfl⟩ := Option.map_eq_some_iff.mp hallows
    exact Nat.add_lt_add_left hless _
  | spawn =>
    have hfile := fileCost_spawn hstep
    obtain ⟨hsending,hallows⟩ := Option.ite_none_right_eq_some.mp hallows
    obtain ⟨q,hsend,rfl⟩ := Option.map_eq_some_iff.mp hallows
    have hhandOn := feedCost_handOn .compressor (hfed.sending hsending).1
    have haround := aroundCost_send hfeed hsend (d.handOn .compressor)
    omega
  | finishJob => cases hallows
  | finishReading =>
    have hfile := fileCost_finishReading hstep
    obtain ⟨hmay,hallows⟩ := Option.ite_none_right_eq_some.mp hallows
    obtain rfl := Option.some.inj hallows
    have hsettle := feedCost_settle .lost hmay
    have hset := aroundCost_setFeed hfeed (d.settle .lost)
    omega
  | write _ | stage _ =>
    have hless := fileCost_step h (fun hbad => by cases hbad) hstep
    obtain ⟨_,hallows⟩ := Option.ite_none_right_eq_some.mp hallows
    obtain rfl := Option.some.inj hallows
    have hclose := feedCost_close d
    have hset := aroundCost_setFeed hfeed d.close
    omega
  | drop role =>
    have hless := fileCost_step h (fun hbad => by cases hbad) hstep
    obtain rfl := Option.some.inj hallows
    have hsame : aroundCost (if (f.thread role).owned.length=1 then s.release i role else s)=
        aroundCost s := by
      split
      · cases role <;> rfl
      · rfl
    rw [hsame]
    exact Nat.add_lt_add_left hless _
  | _ =>
    have hless := fileCost_step h (fun hbad => by cases hbad) hstep
    obtain rfl := Option.some.inj hallows
    exact Nat.add_lt_add_left hless _

/-- No step of the batch changes what is left around the scan. -/
theorem aroundCost_batch {e : BatchEvent} (h : allows config pools s (.batch e)=some t) :
    aroundCost t=aroundCost s := by
  cases e with
  | publish =>
    simp only [allows] at h
    split at h
    · obtain ⟨q,_,rfl⟩ := Option.map_eq_some_iff.mp h
      rfl
    · cases h
  | _ =>
    obtain rfl := Option.some.inj h
    rfl

/-- A file just counted has only its feed before it. -/
theorem scanCost_counted (s : ScanRun.State) (entry : ScanAdmission.DirEntry) (blocks : ℕ)
    (inode : SourceGuard.Inode) (info : Statistics.FileInfo) (phase : Phase) :
    scanCost (s.counted entry blocks inode info phase)+phaseCost s.pending s.phase=
      scanCost s+phaseCost s.pending phase+2 := by
  have hnew : ∀ found, fileCost (File.new found)=2 := fun _ => rfl
  simp only [scanCost,ScanRun.State.counted,tally_snoc,hnew]
  omega

/-- A new feed has its blocks before it. -/
theorem feedCost_new (blocks : ℕ) : feedCost (.new blocks)=16*blocks+9 := by
  simp only [feedCost,Feed.new,readingCost,writingCost,List.length_nil]

/-- A file that is counted has its feed. -/
theorem newFeeds_counted {entry : ScanAdmission.DirEntry}
    (h : ∀ reason, ScanAdmission.scanFile config.mode entry≠.skipped reason) (blocks : ℕ) :
    newFeeds config entry blocks=[.new blocks] := by
  unfold newFeeds
  split
  · next reason hscan => exact absurd hscan (h reason)
  · rfl

/-- An entry that is skipped is gone. -/
theorem cost_skip {reason : ScanAdmission.SkipReason} {entry : ScanAdmission.DirEntry} {blocks : ℕ}
    (hscan : ScanAdmission.scanFile config.mode entry=.skipped reason)
    (hallows : allows config pools s (.consider entry blocks)=some t) :
    aroundCost t<aroundCost s := by
  obtain ⟨rest,hentries,rfl⟩ := allows_consider hallows
  have hnone : newFeeds config entry blocks=[] := by
    unfold newFeeds
    rw [hscan]
  simp only [aroundCost,hentries,hnone,List.append_nil,tally_cons,entryCost]
  omega

/-- An entry that is counted has given its file and its feed less than it was worth itself. -/
theorem cost_counted {entry : ScanAdmission.DirEntry} {blocks : ℕ} {inode : SourceGuard.Inode}
    {info : Statistics.FileInfo} {phase : Phase} (hphase : s.scan.phase=.walking)
    (hscan : ∀ reason, ScanAdmission.scanFile config.mode entry≠.skipped reason)
    (hnext : phaseCost s.scan.pending phase≤13*s.scan.pending+71)
    (hallows : allows config pools s (.consider entry blocks)=some t) :
    scanCost (s.scan.counted entry blocks inode info phase)+aroundCost t<
      scanCost s.scan+aroundCost s := by
  obtain ⟨rest,hentries,rfl⟩ := allows_consider hallows
  have hcounted := scanCost_counted s.scan entry blocks inode info phase
  have hfeed := feedCost_new blocks
  have hwalking : phaseCost s.scan.pending .walking=13*s.scan.pending+7 := rfl
  rw [hphase] at hcounted
  simp only [aroundCost,hentries,newFeeds_counted hscan blocks,tally_cons,tally_snoc,entryCost]
  omega

/-- The end of a file that is not sent is counted once. -/
theorem scanCost_countEnd {last : Statistics.FileInfo} (hphase : scan.phase=.ending i last)
    (hfile : scan.files[i]?=some f) : scanCost (scan.update i
      (addEnd last {f with reader := ⟨.leaving,[]⟩} scan.shared).1
      (addEnd last {f with reader := ⟨.leaving,[]⟩} scan.shared).2 .walking)<scanCost scan := by
  have hupdate := scanCost_update hfile (addEnd last {f with reader := ⟨.leaving,[]⟩} scan.shared).1
    (addEnd last {f with reader := ⟨.leaving,[]⟩} scan.shared).2 .walking
  have hleaving : fileCost (addEnd last {f with reader := ⟨.leaving,[]⟩} scan.shared).1≤
      fileCost f := by
    simp only [addEnd,fileCost,threadCost,stageCost,List.length_nil]
    omega
  rw [hphase] at hupdate
  simp only [phaseCost] at hupdate
  omega

/-- A file gets its context before it is submitted. -/
theorem scanCost_makeContext (shared : Shared) (hphase : scan.phase=.admitting i)
    (hfile : scan.files[i]?=some f) : scanCost (scan.update i
      {f with reader := ⟨.submitting,[.context]⟩, context := .live 1, operation := true} shared
      (.submitting i))<scanCost scan := by
  have hupdate := scanCost_update hfile
    {f with reader := ⟨.submitting,[.context]⟩, context := .live 1, operation := true}
    shared (.submitting i)
  have hmade : fileCost {f with
      reader := ⟨.submitting,[.context]⟩, context := .live 1, operation := true}≤
      fileCost f+3 := by
    have hlive : handleCost (.live 1)=1 := rfl
    simp only [fileCost,threadCost,stageCost,List.length_singleton,Bool.toNat_true]
    omega
  rw [hphase] at hupdate
  simp only [phaseCost] at hupdate
  omega

/-- A file that is submitted has the way of the reader before it. -/
theorem scanCost_submit (hphase : scan.phase=.submitting i) (hfile : scan.files[i]?=some f) :
    scanCost (scan.update i {f with reader := ⟨.queued,config.staging.item⟩} scan.shared
      (.sending i))<scanCost scan := by
  have hupdate := scanCost_update hfile {f with reader := ⟨.queued,config.staging.item⟩}
    scan.shared (.sending i)
  have hqueued : fileCost {f with reader := ⟨.queued,config.staging.item⟩}≤fileCost f+35 := by
    have hitem := (lists_length_le config.staging).1
    have hstage : stageCost .reader .queued=32 := rfl
    simp only [fileCost,threadCost]
    omega
  rw [hphase] at hupdate
  simp only [phaseCost] at hupdate
  omega

/-- The scanning thread comes to a later phase, with a drain before that or without. -/
theorem scanCost_drainOr {full : Prop} [Decidable full] {resume : Resume} {phase : Phase}
    (hdrain : 13*scan.pending+4+resumeCost resume<phaseCost scan.pending scan.phase)
    (hnext : phaseCost scan.pending phase<phaseCost scan.pending scan.phase) :
    scanCost (if full then scan.drain resume else {scan with phase := phase})<scanCost scan := by
  split
  · have hcost := scanCost_drain scan resume
    omega
  · have hcost := scanCost_phase scan phase
    omega

/-- A step on a file leaves less of it, of its feed and of the channels. -/
theorem cost_file (h : Pooled config s) {move : Move} {shared : Shared}
    (hfile : s.scan.files[i]?=some f) (hstep : f.step config move s.scan.shared=some (g,shared))
    (hallows : allows config pools s (.file i move)=some t) :
    scanCost (s.scan.update i g shared s.scan.phase)+aroundCost t<
      scanCost s.scan+aroundCost s := by
  have hsound := (h.conserved.accounted.solvent.file hfile).1
  simp only [allows,hfile] at hallows
  split at hallows
  · next x d hget hfeed =>
    obtain rfl := Option.some.inj hget
    have hmove := aroundCost_move hsound (h.fed i f d hfile hfeed) hfeed hstep hallows
    have hupdate := scanCost_update hfile g shared s.scan.phase
    omega
  · cases hallows

/-- A step of the scan leaves less to be done. -/
theorem cost_scanStep (h : Pooled config s) {e : ScanRun.Event}
    (hmoves : ScanRun.Moves config s.scan e scan) (hallows : allows config pools s e=some t) :
    cost {t with scan := scan}<cost s := by
  change scanCost scan+aroundCost t<scanCost s.scan+aroundCost s
  cases hmoves with
  | startWalk hphase =>
    obtain ⟨hwalks,hallows⟩ := Option.ite_none_right_eq_some.mp hallows
    obtain rfl := Option.some.inj hallows
    simp only [scanCost,aroundCost]
    omega
  | endWalk hwalkers =>
    obtain rfl := Option.some.inj hallows
    simp only [scanCost]
    omega
  | skip blocks hphase hscan => exact Nat.add_lt_add_left (cost_skip hscan hallows) _
  | countSkipped blocks hphase hscan =>
    refine cost_counted hphase (by rw [hscan]; simp) ?_ hallows
    simp only [phaseCost]
    omega
  | countSent blocks hphase hscan =>
    exact cost_counted hphase (by rw [hscan]; simp) (Nat.le_refl _) hallows
  | countEnd hphase hfile =>
    obtain rfl := Option.some.inj hallows
    exact Nat.add_lt_add_right (scanCost_countEnd hphase hfile) _
  | makeContext hphase hfile =>
    obtain rfl := Option.some.inj hallows
    exact Nat.add_lt_add_right (scanCost_makeContext _ hphase hfile) _
  | submitBatched hphase hfile hstaging =>
    obtain rfl := Option.some.inj hallows
    refine Nat.add_lt_add_right (scanCost_drainOr ?_ ?_) _ <;> rw [hphase] <;>
      simp only [phaseCost,resumeCost] <;> omega
  | submit hphase hfile hplain =>
    obtain rfl := Option.some.inj hallows
    exact Nat.add_lt_add_right (scanCost_submit hphase hfile) _
  | sendBatched hphase hfile hstaging =>
    simp only [allows,hphase] at hallows
    obtain ⟨q,_,rfl⟩ := Option.map_eq_some_iff.mp hallows
    refine Nat.add_lt_add_right (scanCost_drainOr ?_ ?_) _ <;> rw [hphase] <;>
      simp only [phaseCost,resumeCost] <;> omega
  | send hphase hplain =>
    simp only [allows,hphase] at hallows
    obtain ⟨q,_,rfl⟩ := Option.map_eq_some_iff.mp hallows
    refine Nat.add_lt_add_right ?_ _
    have hnext := scanCost_phase s.scan .walking
    rw [hphase] at hnext
    simp only [phaseCost] at hnext
    omega
  | finishWalk hphase =>
    obtain ⟨_,hallows⟩ := Option.ite_none_right_eq_some.mp hallows
    obtain rfl := Option.some.inj hallows
    refine Nat.add_lt_add_right (scanCost_drainOr ?_ ?_) _ <;> rw [hphase] <;>
      simp only [phaseCost,resumeCost] <;> omega
  | dropOperation hphase =>
    obtain rfl := Option.some.inj hallows
    simp only [scanCost,hphase,phaseCost]
    omega
  | receiveStats hphase hsent =>
    obtain rfl := Option.some.inj hallows
    simp only [scanCost,hphase,phaseCost]
    omega
  | batch hstaging hbatch =>
    rw [aroundCost_batch hallows]
    exact Nat.add_lt_add_right (scanCost_batch hbatch) _
  | file hguard hfile hstep => exact cost_file h hfile hstep hallows

/-- Every step leaves less to be done. -/
theorem cost_step {e : Event} (h : Pooled config s) (hstep : step config pools s e=some t) :
    cost t<cost s := by
  cases e with
  | scan e =>
    obtain ⟨scan,u,hscan,hallows,rfl⟩ := step_scan hstep
    exact cost_scanStep h (moves_of_step hscan) hallows
  | takeJob i =>
    obtain ⟨q,htake,rfl⟩ := Option.map_eq_some_iff.mp hstep
    obtain ⟨rest,hwaiting,_,rfl⟩ := Pool.take_eq_some htake
    simp only [cost,aroundCost,hwaiting,List.length_cons]
    omega
  | finishJob i position ok =>
    obtain ⟨scan,d,hscan,hfeed,_,_,rfl⟩ := step_finishJob hstep
    have haround := aroundCost_setFeed hfeed (d.resolve position ok)
    rw [feedCost_resolve] at haround
    have hsame : cost {s.setFeed i (d.resolve position ok) with
        scan := scan, compressors := s.compressors.release i}=
        scanCost scan+aroundCost (s.setFeed i (d.resolve position ok)) := rfl
    cases moves_of_step hscan with
    | @file _ _ f g shared hguard hfile hmove =>
      have hless := fileCost_step (h.conserved.accounted.solvent.file hfile).1
        (fun hbad => by cases hbad) hmove
      have hupdate := scanCost_update hfile g shared s.scan.phase
      rw [hsame]
      unfold cost
      omega
  | feed i e =>
    obtain ⟨f,d,after,_,hfeed,hafter,rfl⟩ := step_feed hstep
    have hless := feedCost_step hafter
    have haround := aroundCost_setFeed hfeed after
    change scanCost s.scan+aroundCost (s.setFeed i after)<cost s
    unfold cost
    omega

end Steps

end Applesauce.PooledScan
