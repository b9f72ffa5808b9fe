import Applesauce.BatchAdmission
import Applesauce.PooledStations
import Applesauce.ScanStatistics

/-!
# What holds of a scan with its pools

The channel of a pool holds the files that wait for it, and its workers have
files they work on. Every block that a compressor has belongs to a work item,
and at most one slot is with the reader, while it reads. Each step keeps
this, together with what holds of the scan.
-/

namespace Applesauce.PooledScan

open RustIo FileThreads ScanRun WorkerPool Tally
open Publication (Mode)

section Definitions

/-- A file stands so with one kind of thread. -/
def Stationed (files : List File) (role : Role) (place : Station) (i : ℕ) :
    Prop :=
  ∃ f, files[i]?=some f ∧ station (f.thread role)=place

/-- A pool has the files that wait for it, except those still to be sent, and files its threads
work on. -/
def Queue (files : List File) (role : Role) (away : ℕ→Prop) (p : Pool ℕ) : Prop :=
  Lined (fun i => Stationed files role .waiting i ∧ ¬away i) (Stationed files role .working) p

/-- The number of compressor work items of a file. -/
def jobsOf (files : List File) (i : ℕ) : ℕ := (files[i]?.map File.jobs).getD 0

/-- The compressors have the work items of the files. -/
def Employed (files : List File) (p : Pool ℕ) : Prop :=
  ∀ i, p.waiting.count i+p.busy.count i=jobsOf files i

/-- What holds of a file between its reader and its writer. -/
structure Fed (mode : Mode) (f : File) (d : Feed) : Prop where
  /-- What the reader still hands on goes to the compressors. -/
  left : mode≠.decompressByReading → d.left=f.blocks
  /-- Only a block is sent. -/
  sending : d.reading=.sending → 0< d.left ∧ mode≠.decompressByReading
  /-- A manual decompression prepares a slot only for a block. -/
  manual : mode=.decompressManually → d.reading≠.deciding → 0< d.left
  /-- A slot of the reader is there only while it reads and has one. -/
  reader : .reader∈d.blocks → f.reader.stage=.reading ∧ (d.reading=.holding ∨ d.reading=.sending)
  /-- It is only one. -/
  once : d.blocks.count .reader≤1
  /-- Every slot of a compressor belongs to a work item. -/
  jobs : d.blocks.count .compressor≤f.jobs
  /-- A writer awaits the block of a slot. -/
  awaiting : d.writing=.awaiting → d.blocks≠[]

/-- What holds of every file between its reader and its writer. -/
def Feeding (mode : Mode) (files : List File) (feeds : List Feed) : Prop :=
  ∀ (i : ℕ) (f : File) (d : Feed), files[i]?=some f → feeds[i]?=some d → Fed mode f d

/-- Without batches a staged file is being sent. -/
def Sending (config : Config) (files : List File) : Prop :=
  config.staging.isBatched=false → ∀ f∈files, f.staged≠[] → f.writer.stage=.sending

/-- The invariant of a scan with its pools. -/
structure Pooled (config : Config) (s : State) : Prop where
  /-- What holds of the scan. -/
  conserved : ScanStatistics.Conserved config s.scan
  /-- What holds of its batches. -/
  roomy : ∀ limits, config.staging=.batched limits → BatchAdmission.Roomy config limits s.scan
  /-- Every file has its feed. -/
  feeds : s.feeds.length=s.scan.files.length
  /-- What holds of it. -/
  fed : Feeding config.mode s.scan.files s.feeds
  /-- The readers. -/
  readers : Queue s.scan.files .reader (fun i => s.scan.phase=.sending i) s.readers
  /-- The writers. -/
  writers : Queue s.scan.files .writer (fun _ => False) s.writers
  /-- The publishers. -/
  publishers : Queue s.scan.files .publisher (fun _ => False) s.publishers
  /-- The file that is being sent to the readers is with none of them. -/
  sent : ∀ i, s.scan.phase=.sending i → Stationed s.scan.files .reader .waiting i
  /-- The compressors. -/
  compressors : Employed s.scan.files s.compressors
  /-- The staged files. -/
  sending : Sending config s.scan.files

end Definitions

section Queues
variable {files : List File} {role : Role} {away away' : ℕ→Prop} {p q : Pool ℕ} {i j : ℕ}
  {f g : File} {st : Station} {sizes : Sizes}

/-- The station of a file that is there. -/
theorem stationed_iff (hfile : files[i]?=some f) :
    Stationed files role st i ↔ station (f.thread role)=st := by
  constructor
  · rintro ⟨x,hx,hst⟩
    obtain rfl := Option.some.inj (hfile.symm.trans hx)
    exact hst
  · exact fun hst => ⟨f,hfile,hst⟩

/-- The station of a file that was replaced. -/
theorem stationed_set (hfile : files[i]?=some f) :
    Stationed (files.set i g) role st i ↔ station (g.thread role)=st :=
  stationed_iff (List.getElem?_set_self (List.getElem?_eq_some_iff.mp hfile).1)

/-- The stations of the others stay. -/
theorem stationed_set_ne (hne : j≠i) :
    Stationed (files.set i g) role st j ↔ Stationed files role st j := by
  unfold Stationed
  rw [List.getElem?_set_ne hne.symm]

/-- A file is replaced, and still waits or not, works or not. -/
theorem Queue.change (h : Queue files role away p) (hfile : files[i]?=some f)
    (hothers : ∀ j, j≠i → (away' j ↔ away j))
    (hwaits : station (g.thread role)=.waiting ∧ ¬away' i ↔
      station (f.thread role)=.waiting ∧ ¬away i)
    (hworks : station (f.thread role)=.working → station (g.thread role)=.working) :
    Queue (files.set i g) role away' p := by
  refine h.keep (fun j => ?_) fun j hj => ?_
  · by_cases hji : j=i
    · subst hji
      rw [stationed_set hfile,stationed_iff hfile]
      exact hwaits
    · rw [stationed_set_ne hji,hothers j hji]
  · by_cases hji : j=i
    · subst hji
      exact (stationed_set hfile).mpr (hworks ((stationed_iff hfile).mp hj))
    · exact (stationed_set_ne hji).mpr hj

/-- A file is replaced by one of the same station. -/
theorem Queue.same (h : Queue files role away p) (hfile : files[i]?=some f)
    (hsame : station (g.thread role)=station (f.thread role)) :
    Queue (files.set i g) role away p :=
  h.change hfile (fun _ _ => Iff.rfl) (by rw [hsame]) fun hworks => hsame.trans hworks

/-- A file is replaced by one that neither waits nor works, like the old one. -/
theorem Queue.idle (h : Queue files role away p) (hfile : files[i]?=some f)
    (hold : station (f.thread role)=.before) (hnew : station (g.thread role)≠.waiting) :
    Queue (files.set i g) role away p := by
  refine h.change hfile (fun _ _ => Iff.rfl) (iff_of_false (fun hbad => hnew hbad.1) ?_) ?_
  · rw [hold]
    exact fun hbad => by cases hbad.1
  · rw [hold]
    exact fun hbad => by cases hbad

/-- A file that has come is sent. -/
theorem Queue.send (h : Queue files role away p) (hfile : files[i]?=some f)
    (hold : station (f.thread role)=.before) (hnew : station (g.thread role)=.waiting)
    (haway : ¬away i) (hsend : p.send sizes i=some q) : Queue (files.set i g) role away q := by
  obtain ⟨_,rfl⟩ := Pool.send_eq_some hsend
  refine Lined.send h ?_ (fun j => ?_) fun j hj => ?_
  · rw [stationed_iff hfile,hold]
    exact fun hbad => by cases hbad.1
  · by_cases hji : j=i
    · subst hji
      exact iff_of_true ⟨(stationed_set hfile).mpr hnew,haway⟩ (.inr rfl)
    · rw [stationed_set_ne hji]
      exact (or_iff_left hji).symm
  · by_cases hji : j=i
    · subst hji
      rw [stationed_iff hfile,hold] at hj
      cases hj
    · exact (stationed_set_ne hji).mpr hj

/-- A file that waits is taken. -/
theorem Queue.take (h : Queue files role away p) (hfile : files[i]?=some f)
    (hold : station (f.thread role)=.waiting) (hnew : station (g.thread role)=.working)
    (htake : p.take sizes i=some q) : Queue (files.set i g) role away q := by
  obtain ⟨rest,hwaiting,_,rfl⟩ := Pool.take_eq_some htake
  refine Lined.take h hwaiting ?_ (fun j => ?_) (fun j hj => ?_) ((stationed_set hfile).mpr hnew)
  · rw [stationed_iff hfile,hold]
    exact fun hbad => by cases hbad
  · by_cases hji : j=i
    · subst hji
      rw [stationed_set hfile,hnew]
      exact iff_of_false (fun hbad => by cases hbad.1) fun hbad => hbad.2 rfl
    · rw [stationed_set_ne hji]
      exact (and_iff_left hji).symm
  · by_cases hji : j=i
    · subst hji
      exact (stationed_set hfile).mpr hnew
    · exact (stationed_set_ne hji).mpr hj

/-- A thread is done with a file. -/
theorem Queue.release (h : Queue files role away p) (hfile : files[i]?=some f)
    (hold : station (f.thread role)=.working) (hnew : station (g.thread role)=.done) :
    Queue (files.set i g) role away (p.release i) := by
  refine Lined.release h (fun j => ?_) fun j hji hj => (stationed_set_ne hji).mpr hj
  by_cases hji : j=i
  · subst hji
    rw [stationed_set hfile,stationed_iff hfile,hold,hnew]
    exact iff_of_false (fun hbad => by cases hbad.1) fun hbad => by cases hbad.1
  · rw [stationed_set_ne hji]

/-- A file comes that is to be sent. -/
theorem Queue.announce (h : Queue files role away p) (hfile : files[i]?=some f)
    (hold : station (f.thread role)=.before) (hnone : ∀ j, ¬away j) (haway : ∀ j, away' j ↔ j=i) :
    Queue (files.set i g) role away' p := by
  refine h.change hfile (fun j hji => ?_) (iff_of_false (fun hbad => hbad.2 ?_) fun hbad => ?_)
    fun hbad => ?_
  · exact iff_of_false (fun hbad => hji ((haway j).mp hbad)) (hnone j)
  · exact (haway i).mpr rfl
  · rw [hold] at hbad
    cases hbad.1
  · rw [hold] at hbad
    cases hbad

/-- Other files are still to be sent, but none of those that wait. -/
theorem Queue.phase (h : Queue files role away p) (haway : ∀ j, away' j ↔ away j) :
    Queue files role away' p :=
  h.keep (fun j => by rw [haway j]) fun _ hj => hj

/-- A file is replaced by one of the same station, and none is to be sent. -/
theorem Queue.rest (h : Queue files role away p) (hfile : files[i]?=some f)
    (hsame : station (g.thread role)=station (f.thread role)) (hnone : ∀ j, ¬away j)
    (hnone' : ∀ j, ¬away' j) : Queue (files.set i g) role away' p :=
  (h.same hfile hsame).phase fun j => iff_of_false (hnone' j) (hnone j)

/-- The file that was to be sent is sent. -/
theorem Queue.sent (h : Queue files role away p) (haway : ∀ j, away j ↔ j=i)
    (hnone : ∀ j, ¬away' j) (hwaits : Stationed files role .waiting i)
    (hsend : p.send sizes i=some q) : Queue files role away' q := by
  obtain ⟨_,rfl⟩ := Pool.send_eq_some hsend
  refine Lined.send h (fun hbad => hbad.2 ((haway i).mpr rfl)) (fun j => ?_) fun _ hj => hj
  by_cases hji : j=i
  · subst hji
    exact iff_of_true ⟨hwaits,hnone j⟩ (.inr rfl)
  · have hnot : ¬away j := fun hbad => hji ((haway j).mp hbad)
    constructor
    · exact fun hj => .inl ⟨hj.1,hnot⟩
    · exact fun hj => ⟨(hj.resolve_right hji).1,hnone j⟩

/-- A new file neither waits nor works. -/
theorem Queue.snoc (h : Queue files role away p) (hnew : station (f.thread role)=.before) :
    Queue (files++[f]) role away p := by
  have hold : ∀ (st : Station) (j : ℕ), st≠.before →
      (Stationed (files++[f]) role st j ↔ Stationed files role st j) := by
    intro st j hst
    constructor
    · rintro ⟨x,hx,hstation⟩
      rcases getElem?_snoc_cases hx with hget|⟨_,rfl⟩
      · exact ⟨x,hget,hstation⟩
      · exact absurd (hstation.symm.trans hnew) hst
    · rintro ⟨x,hx,hstation⟩
      refine ⟨x,?_,hstation⟩
      rw [List.getElem?_append_left (List.getElem?_eq_some_iff.mp hx).1]
      exact hx
  refine h.keep (fun j => ?_) fun j hj => (hold .working j (fun hbad => by cases hbad)).mpr hj
  rw [hold .waiting j fun hbad => by cases hbad]

end Queues

section Frames
variable {config : Config} {f g : File} {s t : Shared}

/-- What a step on a file leaves alone, as far as its feed is concerned. -/
structure Frames (config : Config) (move : Move) (f g : File) : Prop where
  /-- The blocks to be handed on. -/
  blocks : move≠.spawn → g.blocks=f.blocks
  /-- The compressor work items. -/
  jobs : move≠.spawn → move≠.finishJob → g.jobs=f.jobs
  /-- A reader goes on reading. -/
  reading : move≠.finishReading → f.reader.stage=.reading → g.reader.stage=.reading
  /-- A staged file is sent without a batch. -/
  staged : g.staged=[] ∨ config.staging.usesScratch=true ∧ g.writer.stage=config.staging.afterStaging ∨
    g.staged=f.staged ∧ (f.writer.stage=.sending → g.writer.stage=.sending)

/-- A step that changes none of this. -/
theorem frames_of {move : Move} (hblocks : g.blocks=f.blocks ∧ g.jobs=f.jobs)
    (hreading : f.reader.stage=.reading → g.reader.stage=.reading) (hstaged : g.staged=f.staged)
    (hsending : f.writer.stage=.sending → g.writer.stage=.sending) : Frames config move f g :=
  ⟨fun _ => hblocks.1,fun _ _ => hblocks.2,fun _ => hreading,.inr (.inr ⟨hstaged,hsending⟩)⟩

/-- A thread that sets its share at one stage to another. -/
theorem frames_setThread {move : Move} {who : Role} {after : Thread}
    (hblocks : g.blocks=f.blocks ∧ g.jobs=f.jobs) (hstaged : g.staged=f.staged)
    (hg : ∀ other, g.thread other=if who=other then after else f.thread other)
    (hold : (f.thread who).stage≠.reading ∧ (f.thread who).stage≠.sending) :
    Frames config move f g := by
  have hreader := hg .reader
  have hwriter := hg .writer
  cases who with
  | reader =>
    refine frames_of hblocks (fun hbad => absurd hbad hold.1) hstaged fun hsending => ?_
    rw [if_neg (by decide)] at hwriter
    rw [File.thread,File.thread] at hwriter
    rw [hwriter]
    exact hsending
  | writer =>
    refine frames_of hblocks (fun hreading => ?_) hstaged fun hbad => absurd hbad hold.2
    rw [if_neg (by decide)] at hreader
    rw [File.thread,File.thread] at hreader
    rw [hreader]
    exact hreading
  | publisher =>
    refine frames_of hblocks (fun hreading => ?_) hstaged fun hsending => ?_
    · rw [if_neg (by decide),File.thread,File.thread] at hreader
      rw [hreader]
      exact hreading
    · rw [if_neg (by decide),File.thread,File.thread] at hwriter
      rw [hwriter]
      exact hsending

/-- A reservation leaves the blocks alone, and no reader that reserves is reading. -/
theorem frames_reserve (hstep : f.step config .reserve s=some (g,t)) :
    Frames config .reserve f g := by
  simp only [File.step] at hstep
  obtain ⟨hstage,hstep⟩ := Option.ite_none_right_eq_some.mp hstep
  have hnot : f.reader.stage≠.reading := by
    rw [hstage]
    decide
  split at hstep
  · obtain ⟨rfl,rfl⟩ := Prod.mk.inj (Option.some.inj hstep)
    exact frames_of ⟨rfl,rfl⟩ (fun hbad => absurd hbad hnot) rfl id
  · obtain ⟨rfl,rfl⟩ := Prod.mk.inj (Option.some.inj hstep)
    exact frames_of ⟨rfl,rfl⟩ (fun hbad => absurd hbad hnot) rfl id
  · cases hstep

/-- A reader that hands its file over is not reading, and no writer has the file. -/
theorem frames_hand (h : Sound config.staging f)
    (hstep : f.step config .hand s=some (g,t)) : Frames config .hand f g := by
  simp only [File.step] at hstep
  obtain ⟨hstage,hstep⟩ := Option.ite_none_right_eq_some.mp hstep
  obtain ⟨rfl,rfl⟩ := Prod.mk.inj (Option.some.inj hstep)
  have hwriter := (h.alone (by rw [hstage]; rfl)).1
  refine frames_of ⟨rfl,rfl⟩ (fun hbad => absurd (hstage.symm.trans hbad) (by decide)) rfl
    fun hbad => ?_
  rw [hwriter] at hbad
  cases hbad

/-- A writer that stages its file goes on to send it, without a batch. -/
theorem frames_stage {outcome : Option ℕ}
    (hstep : f.step config (.stage outcome) s=some (g,t)) : Frames config (.stage outcome) f g := by
  simp only [File.step] at hstep
  obtain ⟨⟨hstage,hscratch,_⟩,hstep⟩ := Option.ite_none_right_eq_some.mp hstep
  cases outcome with
  | none =>
    obtain ⟨rfl,rfl⟩ := Prod.mk.inj (Option.some.inj hstep)
    exact frames_of ⟨rfl,rfl⟩ id rfl fun hbad => by rw [hstage] at hbad; cases hbad
  | some kept =>
    obtain ⟨rfl,rfl⟩ := Prod.mk.inj (Option.some.inj hstep)
    exact ⟨fun _ => rfl,fun _ _ => rfl,fun _ => id,.inr (.inl ⟨hscratch,rfl⟩)⟩

/-- A thread that reports neither reads nor sends a staged file. -/
theorem frames_report {who : Role} {metadata : Bool}
    (hstep : f.step config (.report who metadata) s=some (g,t)) :
    Frames config (.report who metadata) f g := by
  simp only [File.step] at hstep
  obtain ⟨hstage,hstep⟩ := Option.ite_none_right_eq_some.mp hstep
  have hold : (f.thread who).stage≠.reading ∧ (f.thread who).stage≠.sending := by
    rw [hstage]
    decide
  simp only [reportNewStats] at hstep
  split_ifs at hstep
  · obtain ⟨rfl,rfl⟩ := Prod.mk.inj (Option.some.inj hstep)
    exact frames_of ⟨rfl,rfl⟩ id rfl id
  · obtain ⟨rfl,rfl⟩ := Prod.mk.inj (Option.some.inj hstep)
    refine frames_setThread ?_ ?_ (thread_setThread {f with reported := true} _ who) hold
    · cases who <;> exact ⟨rfl,rfl⟩
    · cases who <;> rfl
  · obtain ⟨rfl,rfl⟩ := Prod.mk.inj (Option.some.inj hstep)
    refine frames_setThread ?_ ?_ (thread_setThread f _ who) hold
    · cases who <;> exact ⟨rfl,rfl⟩
    · cases who <;> rfl

/-- Nor does a thread that counts an end. -/
theorem frames_count {who : Role} {info : Statistics.FileInfo}
    (hstep : f.step config (.count who info) s=some (g,t)) : Frames config (.count who info) f g := by
  simp only [File.step] at hstep
  obtain ⟨hstage,hstep⟩ := Option.ite_none_right_eq_some.mp hstep
  have hold : (f.thread who).stage≠.reading ∧ (f.thread who).stage≠.sending := by
    rw [hstage]
    decide
  obtain ⟨rfl,rfl⟩ := Prod.mk.inj (Option.some.inj hstep)
  refine frames_setThread ?_ ?_ (thread_setThread f _ who) hold
  · cases who <;> exact ⟨rfl,rfl⟩
  · cases who <;> rfl

/-- Nor does a thread that drops something. -/
theorem frames_drop {who : Role}
    (hstep : f.step config (.drop who) s=some (g,t)) : Frames config (.drop who) f g := by
  simp only [File.step] at hstep
  split at hstep
  · next o owned hthread =>
    have hold : (f.thread who).stage≠.reading ∧ (f.thread who).stage≠.sending := by
      rw [hthread]
      exact ⟨by simp,by simp⟩
    have hg : (o.drop (f.setThread ⟨.leaving,owned⟩ who) s).1=g :=
      congrArg Prod.fst (Option.some.inj hstep)
    rw [drop_eq] at hg
    subst hg
    refine frames_setThread ?_ ?_ (thread_setThread f _ who) hold
    · cases who <;> exact ⟨rfl,rfl⟩
    · cases who <;> rfl
  · cases hstep

/-- Every step on a file leaves this alone. -/
theorem frames_step {move : Move} (h : Sound config.staging f)
    (hstep : f.step config move s=some (g,t)) : Frames config move f g := by
  cases move with
  | takeRead | openFile _ =>
    simp only [File.step] at hstep
    obtain ⟨hstage,hstep⟩ := Option.ite_none_right_eq_some.mp hstep
    obtain ⟨rfl,rfl⟩ := Prod.mk.inj (Option.some.inj hstep)
    exact frames_of ⟨rfl,rfl⟩ (fun hbad => by rw [hstage] at hbad; cases hbad) rfl id
  | reserve => exact frames_reserve hstep
  | hand => exact frames_hand h hstep
  | spawn =>
    simp only [File.step] at hstep
    obtain ⟨_,hstep⟩ := Option.ite_none_right_eq_some.mp hstep
    obtain ⟨rfl,rfl⟩ := Prod.mk.inj (Option.some.inj hstep)
    exact ⟨fun hbad => absurd rfl hbad,fun hbad => absurd rfl hbad,fun _ => id,.inr (.inr ⟨rfl,id⟩)⟩
  | finishJob =>
    simp only [File.step] at hstep
    obtain ⟨_,hstep⟩ := Option.ite_none_right_eq_some.mp hstep
    obtain ⟨rfl,rfl⟩ := Prod.mk.inj (Option.some.inj hstep)
    exact ⟨fun _ => rfl,fun _ hbad => absurd rfl hbad,fun _ => id,.inr (.inr ⟨rfl,id⟩)⟩
  | finishReading =>
    simp only [File.step] at hstep
    obtain ⟨_,hstep⟩ := Option.ite_none_right_eq_some.mp hstep
    obtain ⟨rfl,rfl⟩ := Prod.mk.inj (Option.some.inj hstep)
    exact ⟨fun _ => rfl,fun _ _ => rfl,fun hbad => absurd rfl hbad,.inr (.inr ⟨rfl,id⟩)⟩
  | takeWrite =>
    simp only [File.step] at hstep
    obtain ⟨hstage,hstep⟩ := Option.ite_none_right_eq_some.mp hstep
    obtain ⟨rfl,rfl⟩ := Prod.mk.inj (Option.some.inj hstep)
    exact frames_of ⟨rfl,rfl⟩ id rfl fun hbad => by rw [hstage] at hbad; cases hbad
  | write published =>
    simp only [File.step] at hstep
    obtain ⟨⟨hstage,_⟩,hstep⟩ := Option.ite_none_right_eq_some.mp hstep
    obtain ⟨rfl,rfl⟩ := Prod.mk.inj (Option.some.inj hstep)
    exact frames_of ⟨rfl,rfl⟩ id rfl fun hbad => by rw [hstage] at hbad; cases hbad
  | stage outcome => exact frames_stage hstep
  | sendStaged =>
    simp only [File.step] at hstep
    obtain ⟨_,hstep⟩ := Option.ite_none_right_eq_some.mp hstep
    obtain ⟨rfl,rfl⟩ := Prod.mk.inj (Option.some.inj hstep)
    exact ⟨fun _ => rfl,fun _ _ => rfl,fun _ => id,.inl rfl⟩
  | takePublish | publish _ | close _ | sendMessage | dropOperation =>
    simp only [File.step] at hstep
    obtain ⟨_,hstep⟩ := Option.ite_none_right_eq_some.mp hstep
    obtain ⟨rfl,rfl⟩ := Prod.mk.inj (Option.some.inj hstep)
    exact frames_of ⟨rfl,rfl⟩ id rfl id
  | report who metadata => exact frames_report hstep
  | count who info => exact frames_count hstep
  | drop who => exact frames_drop hstep
  | dropContext =>
    simp only [File.step] at hstep
    obtain ⟨_,hstep⟩ := Option.ite_none_right_eq_some.mp hstep
    split at hstep
    · obtain ⟨rfl,rfl⟩ := Prod.mk.inj (Option.some.inj hstep)
      exact frames_of ⟨rfl,rfl⟩ id rfl id
    · obtain ⟨rfl,rfl⟩ := Prod.mk.inj (Option.some.inj hstep)
      exact frames_of ⟨rfl,rfl⟩ id rfl id

end Frames

section Feeds
variable {mode : Mode} {f g : File} {d e : Feed} {slots : ℕ}

/-- A new feed. -/
theorem fed_new (f : File) : Fed mode f (.new f.blocks) where
  left := fun _ => rfl
  sending := fun hbad => by cases hbad
  manual := fun _ hbad => absurd rfl hbad
  reader := fun hbad => (List.not_mem_nil hbad).elim
  once := Nat.zero_le 1
  jobs := Nat.zero_le _
  awaiting := fun hbad => by cases hbad

/-- A file that goes on, with the same blocks and work items. -/
theorem Fed.move (h : Fed mode f d) (hblocks : g.blocks=f.blocks) (hjobs : g.jobs=f.jobs)
    (hreading : f.reader.stage=.reading → g.reader.stage=.reading) : Fed mode g d where
  left := fun hmode => (h.left hmode).trans hblocks.symm
  sending := h.sending
  manual := h.manual
  reader := fun hmem => ⟨hreading (h.reader hmem).1,(h.reader hmem).2⟩
  once := h.once
  jobs := by
    rw [hjobs]
    exact h.jobs
  awaiting := h.awaiting

/-- What a settled slot of the reader becomes. -/
theorem count_settle (d : Feed) {b : Block} (hb : b≠.reader) (c : Block) :
    (d.settle b).blocks.count c=
      (if c=.reader then 0 else d.blocks.count c)+if c=b then d.blocks.count .reader else 0 := by
  unfold Feed.settle
  dsimp only
  induction d.blocks with
  | nil => simp
  | cons x xs ih =>
    rw [List.map_cons,List.count_cons,ih,List.count_cons,List.count_cons]
    cases x <;> cases b <;> cases c <;> simp_all <;> omega

/-- No slot is with the reader after its slot was settled. -/
theorem Fed.settle (h : Fed mode f d) {b : Block} (hb : b≠.reader)
    (hblocks : mode≠.decompressByReading → g.blocks=f.blocks)
    (hjobs : d.blocks.count .compressor+(if b=.compressor then 1 else 0)≤g.jobs) :
    Fed mode g (d.settle b) := by
  have hreader : (d.settle b).blocks.count .reader=0 := by
    rw [count_settle d hb,if_pos rfl,if_neg fun hbad => hb hbad.symm]
  have hcompressor := count_settle d hb .compressor
  have honce := h.once
  refine ⟨fun hmode => (h.left hmode).trans (hblocks hmode).symm,(fun hbad => by cases hbad),
    fun _ hbad => absurd rfl hbad,fun hbad => ?_,?_,?_,fun hawaiting hnil => ?_⟩
  · exact absurd hbad (List.count_eq_zero.mp hreader)
  · rw [hreader]
    exact Nat.zero_le 1
  · rw [hcompressor,if_neg (by decide)]
    by_cases hcomp : b=.compressor
    · subst hcomp
      rw [if_pos rfl] at hjobs ⊢
      omega
    · rw [if_neg fun hbad => hcomp hbad.symm]
      rw [if_neg hcomp] at hjobs
      exact hjobs
  · exact h.awaiting hawaiting (List.map_eq_nil_iff.mp hnil)

/-- The receiver is dropped. -/
theorem Fed.close (h : Fed mode f d) : Fed mode f d.close where
  left := h.left
  sending := h.sending
  manual := h.manual
  reader := fun hbad => (List.not_mem_nil hbad).elim
  once := Nat.zero_le 1
  jobs := Nat.zero_le _
  awaiting := fun hbad => by cases hbad

/-- A work item is sent to the compressors. -/
theorem Fed.spawn (h : Fed mode f d) (hblocks : g.blocks=f.blocks-1) (hjobs : g.jobs=f.jobs+1) :
    Fed mode g (d.handOn .compressor) := by
  have hsettled : Fed mode {g with blocks := f.blocks} (d.settle .compressor) := by
    refine h.settle (by decide) (fun _ => rfl) ?_
    rw [if_pos rfl]
    dsimp only
    rw [hjobs]
    exact Nat.add_le_add_right h.jobs 1
  refine ⟨fun hmode => ?_,(fun hbad => by cases hbad),fun _ hbad => absurd rfl hbad,
    hsettled.reader,hsettled.once,hsettled.jobs,hsettled.awaiting⟩
  rw [hblocks]
  exact congrArg (·-1) (h.left hmode)

/-- A compressor is done with a block. -/
theorem Fed.resolve (h : Fed mode f d) {position : ℕ} (hresolves : d.Resolves position) (ok : Bool)
    (hblocks : g.blocks=f.blocks) (hjobs : g.jobs+1=f.jobs) (hreader : g.reader=f.reader) :
    Fed mode g (d.resolve position ok) := by
  unfold Feed.resolve
  by_cases hget : d.blocks[position]?=some .compressor
  · rw [if_pos hget]
    obtain ⟨hlt,hat⟩ := List.getElem?_eq_some_iff.mp hget
    generalize hnew : (if ok then Block.filled else .lost)=b
    have hb : b≠.reader ∧ b≠.compressor := by
      subst hnew
      cases ok <;> exact ⟨by decide,by decide⟩
    have hcount := fun c => @List.count_set _ _ b c d.blocks position hlt
    rw [hat] at hcount
    have hreaders := hcount .reader
    have hcompressors := hcount .compressor
    have hpos : 0< d.blocks.count .compressor := List.count_pos_iff.mpr (List.mem_of_getElem? hget)
    rw [if_neg (by decide),if_neg (by simpa using hb.1)] at hreaders
    rw [if_pos (by decide),if_neg (by simpa using hb.2)] at hcompressors
    have honce := h.once
    have hmost := h.jobs
    refine ⟨fun hmode => (h.left hmode).trans hblocks.symm,h.sending,h.manual,fun hmem => ?_,?_,?_,
      fun hawaiting hnil => ?_⟩
    · rw [hreader]
      refine h.reader (List.count_pos_iff.mp ?_)
      have hposreader : 0<(d.blocks.set position b).count .reader := List.count_pos_iff.mpr hmem
      omega
    · dsimp only
      omega
    · dsimp only
      omega
    · have hlength := congrArg List.length hnil
      rw [List.length_set,List.length_nil] at hlength
      omega
  · rw [if_neg hget]
    have hnone := List.count_eq_zero.mpr (hresolves.resolve_left hget)
    refine ⟨fun hmode => (h.left hmode).trans hblocks.symm,h.sending,h.manual,fun hmem => ?_,h.once,
      ?_,h.awaiting⟩
    · rw [hreader]
      exact h.reader hmem
    · rw [hnone]
      exact Nat.zero_le _

/-- The receiver has come to another place with the same slots. -/
theorem Fed.receiver (h : Fed mode f d) {writing : Writing}
    (hawaiting : writing=.awaiting → d.blocks≠[]) :
    Fed mode f {d with writing := writing} :=
  ⟨h.left,h.sending,h.manual,h.reader,h.once,h.jobs,hawaiting⟩

/-- The receiver is done with the first slot. -/
theorem Fed.pop (h : Fed mode f d) {b : Block} {rest : List Block} (hblocks : d.blocks=b::rest)
    {writing : Writing} (hwriting : writing≠.awaiting) :
    Fed mode f {d with blocks := rest, writing := writing} := by
  have hle : ∀ c, rest.count c≤d.blocks.count c := by
    intro c
    rw [hblocks]
    exact List.count_le_count_cons
  refine ⟨h.left,h.sending,h.manual,fun hmem => h.reader ?_,(hle _).trans h.once,
    (hle _).trans h.jobs,fun hbad => absurd hbad hwriting⟩
  rw [hblocks]
  exact List.mem_cons_of_mem b hmem

/-- Every step of the reader or the writer keeps what holds of the feed. -/
theorem Fed.step {event : FeedEvent} (h : Fed mode f d) (hstep : d.step mode slots f event=some e) :
    Fed mode f e := by
  cases event with
  | want =>
    obtain ⟨⟨hstage,hreading,hmanual⟩,hstep⟩ := Option.ite_none_right_eq_some.mp hstep
    obtain rfl := Option.some.inj hstep
    refine ⟨h.left,(fun hbad => by cases hbad),fun hmode _ => hmanual hmode,fun hmem => ?_,h.once,
      h.jobs,h.awaiting⟩
    have hbad := (h.reader hmem).2
    rw [hreading] at hbad
    exact absurd hbad (by decide)
  | prepare =>
    obtain ⟨⟨hstage,hreading,_,_⟩,hstep⟩ := Option.ite_none_right_eq_some.mp hstep
    obtain rfl := Option.some.inj hstep
    have hnone : d.blocks.count .reader=0 := by
      refine List.count_eq_zero.mpr fun hmem => ?_
      have hbad := (h.reader hmem).2
      rw [hreading] at hbad
      exact absurd hbad (by decide)
    refine ⟨h.left,(fun hbad => by cases hbad),fun hmode _ => h.manual hmode ?_,
      fun _ => ⟨hstage,.inl rfl⟩,?_,?_,fun _ hbad => ?_⟩
    · rw [hreading]
      decide
    · rw [List.count_append,hnone]
      decide
    · rw [List.count_append]
      exact h.jobs
    · exact List.append_ne_nil_of_right_ne_nil _ (List.cons_ne_nil _ _) hbad
  | read =>
    obtain ⟨⟨hstage,hreading,hleft,hmode⟩,hstep⟩ := Option.ite_none_right_eq_some.mp hstep
    obtain rfl := Option.some.inj hstep
    exact ⟨h.left,fun _ => ⟨hleft,hmode⟩,fun _ _ => hleft,fun _ => ⟨hstage,.inr rfl⟩,h.once,h.jobs,
      h.awaiting⟩
  | finishSlot =>
    obtain ⟨⟨hstage,hreading,hleft,hmode⟩,hstep⟩ := Option.ite_none_right_eq_some.mp hstep
    obtain rfl := Option.some.inj hstep
    have hsettled : Fed mode f (d.settle .filled) := h.settle (by decide) (fun _ => rfl) h.jobs
    exact ⟨fun hbad => absurd hmode hbad,(fun hbad => by cases hbad),fun _ hbad => absurd rfl hbad,
      hsettled.reader,hsettled.once,hsettled.jobs,hsettled.awaiting⟩
  | start =>
    obtain ⟨_,hstep⟩ := Option.ite_none_right_eq_some.mp hstep
    obtain rfl := Option.some.inj hstep
    exact h.receiver fun hbad => by cases hbad
  | receive =>
    obtain ⟨⟨_,_,hblocks⟩,hstep⟩ := Option.ite_none_right_eq_some.mp hstep
    obtain rfl := Option.some.inj hstep
    exact h.receiver fun _ => hblocks
  | await =>
    obtain ⟨_,hstep⟩ := Option.ite_none_right_eq_some.mp hstep
    split at hstep
    · next rest hblocks =>
      obtain rfl := Option.some.inj hstep
      exact h.pop hblocks (by decide)
    · next rest hblocks =>
      obtain rfl := Option.some.inj hstep
      exact h.pop hblocks (by decide)
    · cases hstep
  | apply =>
    obtain ⟨_,hstep⟩ := Option.ite_none_right_eq_some.mp hstep
    obtain rfl := Option.some.inj hstep
    exact h.receiver fun hbad => by cases hbad
  | hangUp =>
    obtain ⟨_,hstep⟩ := Option.ite_none_right_eq_some.mp hstep
    obtain rfl := Option.some.inj hstep
    exact h.receiver fun hbad => by cases hbad
  | finish =>
    obtain ⟨_,hstep⟩ := Option.ite_none_right_eq_some.mp hstep
    obtain rfl := Option.some.inj hstep
    exact h.close

end Feeds

section Tables
variable {config : Config} {mode : Mode} {files : List File} {feeds : List Feed} {p q : Pool ℕ}
  {i : ℕ} {f g : File} {d e : Feed} {sizes : Sizes}

/-- A file and its feed are replaced. -/
theorem Feeding.set (h : Feeding mode files feeds) (hnew : Fed mode g e) :
    Feeding mode (files.set i g) (feeds.set i e) := by
  intro j x y hx hy
  rcases getElem?_set_cases hx with ⟨rfl,rfl⟩|⟨hne,hold⟩
  · rcases getElem?_set_cases hy with ⟨_,rfl⟩|⟨hbad,_⟩
    · exact hnew
    · exact absurd rfl hbad
  · rw [List.getElem?_set_ne hne.symm] at hy
    exact h j x y hold hy

/-- A feed is replaced. -/
theorem Feeding.setFeed (h : Feeding mode files feeds) (hfile : files[i]?=some f)
    (hnew : Fed mode f e) : Feeding mode files (feeds.set i e) := by
  intro j x y hx hy
  rcases getElem?_set_cases hy with ⟨rfl,rfl⟩|⟨_,hold⟩
  · obtain rfl := Option.some.inj (hfile.symm.trans hx)
    exact hnew
  · exact h j x y hx hold

/-- A file that goes on with the same blocks and work items. -/
theorem Feeding.go (h : Feeding mode files feeds) (hfile : files[i]?=some f)
    (hblocks : g.blocks=f.blocks) (hjobs : g.jobs=f.jobs)
    (hreading : f.reader.stage=.reading → g.reader.stage=.reading) :
    Feeding mode (files.set i g) feeds := by
  intro j x y hx hy
  rcases getElem?_set_cases hx with ⟨rfl,rfl⟩|⟨_,hold⟩
  · exact (h j f y hfile hy).move hblocks hjobs hreading
  · exact h j x y hold hy

/-- A file with its feed is new. -/
theorem Feeding.snoc (h : Feeding mode files feeds) (hlength : feeds.length=files.length)
    (hnew : Fed mode g e) : Feeding mode (files++[g]) (feeds++[e]) := by
  intro j x y hx hy
  rcases getElem?_snoc_cases hx with hold|⟨rfl,rfl⟩
  · rw [List.getElem?_append_left] at hy
    · exact h j x y hold hy
    · rw [hlength]
      exact (List.getElem?_eq_some_iff.mp hold).1
  · rw [←hlength,List.getElem?_append_right (Nat.le_refl _),Nat.sub_self] at hy
    obtain rfl := Option.some.inj hy
    exact hnew

/-- The work items of a file that was replaced. -/
theorem jobsOf_set (hfile : files[i]?=some f) (g : File) (j : ℕ) :
    jobsOf (files.set i g) j=if j=i then g.jobs else jobsOf files j := by
  unfold jobsOf
  by_cases hji : j=i
  · subst hji
    rw [if_pos rfl,List.getElem?_set_self (List.getElem?_eq_some_iff.mp hfile).1]
    rfl
  · rw [if_neg hji,List.getElem?_set_ne fun hbad => hji hbad.symm]

/-- The work items of a file. -/
theorem jobsOf_eq (hfile : files[i]?=some f) : jobsOf files i=f.jobs := by
  unfold jobsOf
  rw [hfile]
  rfl

/-- The compressors do not notice. -/
theorem Employed.same (h : Employed files p) (hfile : files[i]?=some f) (hjobs : g.jobs=f.jobs) :
    Employed (files.set i g) p := by
  intro j
  rw [jobsOf_set hfile,h j]
  by_cases hji : j=i
  · subst hji
    rw [if_pos rfl,jobsOf_eq hfile,hjobs]
  · rw [if_neg hji]

/-- A work item is sent. -/
theorem Employed.send (h : Employed files p) (hfile : files[i]?=some f) (hjobs : g.jobs=f.jobs+1)
    (hsend : p.send sizes i=some q) : Employed (files.set i g) q := by
  obtain ⟨_,rfl⟩ := Pool.send_eq_some hsend
  intro j
  have hold := h j
  dsimp only
  rw [jobsOf_set hfile,List.count_append,List.count_singleton]
  by_cases hji : j=i
  · subst hji
    rw [jobsOf_eq hfile] at hold
    rw [if_pos rfl,if_pos (beq_self_eq_true j),hjobs]
    omega
  · rw [if_neg hji,if_neg (by simpa using fun hbad => hji hbad.symm)]
    omega

/-- A work item is taken. -/
theorem Employed.take (h : Employed files p) (htake : p.take sizes i=some q) :
    Employed files q := by
  obtain ⟨rest,hwaiting,_,rfl⟩ := Pool.take_eq_some htake
  intro j
  have hold := h j
  rw [hwaiting,List.count_cons] at hold
  dsimp only
  rw [List.count_append,List.count_singleton]
  omega

/-- A compressor is done with a work item. -/
theorem Employed.release (h : Employed files p) (hfile : files[i]?=some f) (hjobs : g.jobs+1=f.jobs)
    (hmem : i∈p.busy) : Employed (files.set i g) (p.release i) := by
  intro j
  have hold := h j
  have hpos : 0<p.busy.count i := List.count_pos_iff.mpr hmem
  unfold Pool.release
  dsimp only
  rw [jobsOf_set hfile,List.count_erase]
  by_cases hji : j=i
  · subst hji
    rw [jobsOf_eq hfile] at hold
    rw [if_pos rfl,if_pos (beq_self_eq_true j)]
    omega
  · rw [if_neg hji,if_neg (by simpa using fun hbad => hji hbad.symm)]
    omega

/-- A new file has no work items. -/
theorem Employed.snoc (h : Employed files p) (hjobs : g.jobs=0) : Employed (files++[g]) p := by
  intro j
  rw [h j]
  unfold jobsOf
  by_cases hlt : j<files.length
  · rw [List.getElem?_append_left hlt]
  · rw [List.getElem?_append_right (Nat.le_of_not_lt hlt),List.getElem?_eq_none (Nat.le_of_not_lt hlt)]
    cases j-files.length with
    | zero => exact hjobs.symm
    | succ k => rfl

/-- A file is replaced that keeps to the rule. -/
theorem Sending.set (h : Sending config files) (hnew : config.staging.isBatched=false →
    g.staged≠[] → g.writer.stage=.sending) : Sending config (files.set i g) :=
  fun hplain => forall_mem_set (h hplain) (hnew hplain)

/-- A file that goes on. -/
theorem Sending.go (h : Sending config files) (hfile : files[i]?=some f) {move : Move}
    (hframes : Frames config move f g) : Sending config (files.set i g) := by
  refine h.set fun hplain hstaged => ?_
  rcases hframes.staged with hnil|⟨hscratch,hstage⟩|⟨hsame,hstage⟩
  · exact absurd hnil hstaged
  · rw [hstage]
    cases hstaging : config.staging with
    | direct =>
      rw [hstaging] at hscratch
      cases hscratch
    | scratch limit hlimit => rfl
    | batched limits =>
      rw [hstaging] at hplain
      cases hplain
  · rw [hsame] at hstaged
    exact hstage (h hplain f (List.mem_of_getElem? hfile) hstaged)

end Tables

section Steps
variable {config : Config} {pools : Pools} {s t u : State} {scan : ScanRun.State} {i : ℕ}
  {f g : File} {d : Feed}

/-- A state with these files is in order when its tables are. -/
theorem Pooled.of (h : Pooled config s) (hconserved : ScanStatistics.Conserved config scan)
    (hroomy : ∀ limits, config.staging=.batched limits → BatchAdmission.Roomy config limits scan)
    (hfiles : scan.files=s.scan.files.set i g)
    (hlength : t.feeds.length=s.feeds.length)
    (hfed : Feeding config.mode (s.scan.files.set i g) t.feeds)
    (hreaders : Queue (s.scan.files.set i g) .reader (fun j => scan.phase=.sending j) t.readers)
    (hwriters : Queue (s.scan.files.set i g) .writer (fun _ => False) t.writers)
    (hpublishers : Queue (s.scan.files.set i g) .publisher (fun _ => False) t.publishers)
    (hsent : ∀ j, scan.phase=.sending j → Stationed (s.scan.files.set i g) .reader .waiting j)
    (hcompressors : Employed (s.scan.files.set i g) t.compressors)
    (hsending : Sending config (s.scan.files.set i g)) :
    Pooled config {t with scan := scan} where
  conserved := hconserved
  roomy := hroomy
  feeds := by
    dsimp only
    rw [hfiles,List.length_set,hlength]
    exact h.feeds
  fed := by
    dsimp only
    rw [hfiles]
    exact hfed
  readers := by
    dsimp only
    rw [hfiles]
    exact hreaders
  writers := by
    dsimp only
    rw [hfiles]
    exact hwriters
  publishers := by
    dsimp only
    rw [hfiles]
    exact hpublishers
  sent := by
    dsimp only
    rw [hfiles]
    exact hsent
  compressors := by
    dsimp only
    rw [hfiles]
    exact hcompressors
  sending := by
    dsimp only
    rw [hfiles]
    exact hsending

/-- A file that waits for a reader still does unless one takes it. -/
theorem waiting_stays {move : Move} (hreader : Shifted f g .reader (shift f move .reader))
    (hold : station (f.thread .reader)=.waiting) (hmove : move≠.takeRead) :
    station (g.thread .reader)=.waiting := by
  cases move with
  | takeRead => exact absurd rfl hmove
  | drop role =>
    unfold shift at hreader
    dsimp only at hreader
    split at hreader
    · exact absurd (hreader.1.symm.trans hold) (by decide)
    · exact hreader.trans hold
  | _ => exact hreader.trans hold

/-- The file that is to be sent to the readers still waits for one. -/
theorem Pooled.sent_move (h : Pooled config s) {move : Move} {shared : Shared}
    (hguard : ¬(s.scan.phase=.sending i ∧ move=.takeRead)) (hfile : s.scan.files[i]?=some f)
    (hstep : f.step config move s.scan.shared=some (g,shared)) {j : ℕ}
    (hj : s.scan.phase=.sending j) : Stationed (s.scan.files.set i g) .reader .waiting j := by
  have hold := h.sent j hj
  by_cases hji : j=i
  · subst hji
    rw [stationed_iff hfile] at hold
    have hreader := shifted_step (h.conserved.accounted.solvent.file hfile).1 hstep .reader
    exact (stationed_set hfile).mpr (waiting_stays hreader hold fun hmove => hguard ⟨hj,hmove⟩)
  · exact (stationed_set_ne hji).mpr hold

/-- A thread that drops the last thing it owns goes back to its pool. -/
theorem Pooled.release (h : Pooled config s) {role : Role} (hfile : s.scan.files[i]?=some f)
    (hshifted : ∀ other, Shifted f g other (shift f (.drop role) other))
    (ht : t=if (f.thread role).owned.length=1 then s.release i role else s) :
    Queue (s.scan.files.set i g) .reader (fun j => s.scan.phase=.sending j) t.readers ∧
      Queue (s.scan.files.set i g) .writer (fun _ => False) t.writers ∧
      Queue (s.scan.files.set i g) .publisher (fun _ => False) t.publishers := by
  have hreader := hshifted .reader
  have hwriter := hshifted .writer
  have hpublisher := hshifted .publisher
  unfold shift at hreader hwriter hpublisher
  dsimp only at hreader hwriter hpublisher
  by_cases hlast : (f.thread role).owned.length=1
  · rw [if_pos hlast] at ht
    subst ht
    cases role with
    | reader =>
      rw [if_pos ⟨rfl,hlast⟩] at hreader
      rw [if_neg (by simp)] at hwriter hpublisher
      exact ⟨h.readers.release hfile hreader.1 hreader.2,h.writers.same hfile hwriter,
        h.publishers.same hfile hpublisher⟩
    | writer =>
      rw [if_pos ⟨rfl,hlast⟩] at hwriter
      rw [if_neg (by simp)] at hreader hpublisher
      exact ⟨h.readers.same hfile hreader,h.writers.release hfile hwriter.1 hwriter.2,
        h.publishers.same hfile hpublisher⟩
    | publisher =>
      rw [if_pos ⟨rfl,hlast⟩] at hpublisher
      rw [if_neg (by simp)] at hreader hwriter
      exact ⟨h.readers.same hfile hreader,h.writers.same hfile hwriter,
        h.publishers.release hfile hpublisher.1 hpublisher.2⟩
  · rw [if_neg hlast] at ht
    subst ht
    rw [if_neg fun hboth => hlast hboth.2] at hreader hwriter hpublisher
    exact ⟨h.readers.same hfile hreader,h.writers.same hfile hwriter,
      h.publishers.same hfile hpublisher⟩

/-- A step on a file that the channels and pools let happen keeps the invariant. -/
theorem Pooled.move (h : Pooled config s) {move : Move} {shared : Shared}
    (hguard : ¬(s.scan.phase=.sending i ∧ move=.takeRead)) (hfile : s.scan.files[i]?=some f)
    (hfeed : s.feeds[i]?=some d) (hstep : f.step config move s.scan.shared=some (g,shared))
    (hallows : allowsMove config pools s i f d move=some t) :
    Pooled config {t with scan := s.scan.update i g shared s.scan.phase} := by
  have hmoves : ScanRun.Moves config s.scan (.file i move) (s.scan.update i g shared s.scan.phase) :=
    .file hguard hfile hstep
  have hconserved := h.conserved.moves hmoves
  have hroomy := fun limits hstaging => (h.roomy limits hstaging).moves hstaging hmoves
  have hsound := (h.conserved.accounted.solvent.file hfile).1
  have hframes := frames_step hsound hstep
  have hreader := shifted_step hsound hstep .reader
  have hwriter := shifted_step hsound hstep .writer
  have hpublisher := shifted_step hsound hstep .publisher
  have hfed := h.fed i f d hfile hfeed
  have hsent := fun j => @Pooled.sent_move config s i f g h move shared hguard hfile hstep j
  have hof := @Pooled.of config s t _ i g h hconserved hroomy rfl
  have hsending := h.sending.go hfile hframes
  have hgo := fun hspawn hjob hread => h.fed.go hfile (hframes.blocks hspawn)
    (hframes.jobs hspawn hjob) (hframes.reading hread)
  have hsame := fun hspawn hjob => h.compressors.same hfile (hframes.jobs hspawn hjob)
  cases move with
  | takeRead =>
    obtain ⟨q,htake,rfl⟩ := Option.map_eq_some_iff.mp hallows
    exact hof rfl (hgo (by simp) (by simp) (by simp))
      (h.readers.take hfile hreader.1 hreader.2 htake) (h.writers.same hfile hwriter)
      (h.publishers.same hfile hpublisher) hsent (hsame (by simp) (by simp)) hsending
  | hand =>
    obtain ⟨q,hsend,rfl⟩ := Option.map_eq_some_iff.mp hallows
    exact hof rfl (hgo (by simp) (by simp) (by simp)) (h.readers.same hfile hreader)
      (h.writers.send hfile hwriter.1 hwriter.2 id hsend) (h.publishers.same hfile hpublisher) hsent
      (hsame (by simp) (by simp)) hsending
  | spawn =>
    obtain ⟨hreading,hallows⟩ := Option.ite_none_right_eq_some.mp hallows
    obtain ⟨q,hsend,rfl⟩ := Option.map_eq_some_iff.mp hallows
    simp only [File.step] at hstep
    obtain ⟨_,hstep⟩ := Option.ite_none_right_eq_some.mp hstep
    obtain ⟨rfl,rfl⟩ := Prod.mk.inj (Option.some.inj hstep)
    exact hof (List.length_set ..) (h.fed.set (hfed.spawn rfl rfl)) (h.readers.same hfile hreader)
      (h.writers.same hfile hwriter) (h.publishers.same hfile hpublisher) hsent
      (h.compressors.send hfile rfl hsend) hsending
  | finishJob => cases hallows
  | finishReading =>
    obtain ⟨hmay,hallows⟩ := Option.ite_none_right_eq_some.mp hallows
    obtain rfl := Option.some.inj hallows
    have hjobs := hframes.jobs (by simp) (by simp)
    refine hof (List.length_set ..) (h.fed.set (hfed.settle (by decide)
      (fun _ => hframes.blocks (by simp)) ?_)) (h.readers.same hfile hreader)
      (h.writers.same hfile hwriter) (h.publishers.same hfile hpublisher) hsent
      (hsame (by simp) (by simp)) hsending
    rw [hjobs]
    exact hfed.jobs
  | takeWrite =>
    obtain ⟨q,htake,rfl⟩ := Option.map_eq_some_iff.mp hallows
    exact hof rfl (hgo (by simp) (by simp) (by simp)) (h.readers.same hfile hreader)
      (h.writers.take hfile hwriter.1 hwriter.2 htake) (h.publishers.same hfile hpublisher) hsent
      (hsame (by simp) (by simp)) hsending
  | write _ | stage _ =>
    obtain ⟨_,hallows⟩ := Option.ite_none_right_eq_some.mp hallows
    obtain rfl := Option.some.inj hallows
    have hclosed := (hfed.move (hframes.blocks (by simp)) (hframes.jobs (by simp) (by simp))
      (hframes.reading (by simp))).close
    exact hof (List.length_set ..) (h.fed.set hclosed) (h.readers.same hfile hreader)
      (h.writers.same hfile hwriter) (h.publishers.same hfile hpublisher) hsent
      (hsame (by simp) (by simp)) hsending
  | sendStaged =>
    obtain ⟨q,hsend,rfl⟩ := Option.map_eq_some_iff.mp hallows
    exact hof rfl (hgo (by simp) (by simp) (by simp)) (h.readers.same hfile hreader)
      (h.writers.same hfile hwriter) (h.publishers.send hfile hpublisher.1 hpublisher.2 id hsend) hsent
      (hsame (by simp) (by simp)) hsending
  | takePublish =>
    obtain ⟨q,htake,rfl⟩ := Option.map_eq_some_iff.mp hallows
    exact hof rfl (hgo (by simp) (by simp) (by simp)) (h.readers.same hfile hreader)
      (h.writers.same hfile hwriter) (h.publishers.take hfile hpublisher.1 hpublisher.2 htake) hsent
      (hsame (by simp) (by simp)) hsending
  | drop role =>
    have ht := (Option.some.inj hallows).symm
    obtain ⟨hreaders,hwriters,hpublishers⟩ := h.release hfile (shifted_step hsound hstep) ht
    have htables : t.feeds=s.feeds ∧ t.compressors=s.compressors := by
      rw [ht]
      split
      · cases role <;> exact ⟨rfl,rfl⟩
      · exact ⟨rfl,rfl⟩
    refine hof (congrArg List.length htables.1) ?_ hreaders hwriters hpublishers hsent ?_ hsending
    · rw [htables.1]
      exact hgo (by simp) (by simp) (by simp)
    · rw [htables.2]
      exact hsame (by simp) (by simp)
  | _ =>
    obtain rfl := Option.some.inj hallows
    exact hof rfl (hgo (by simp) (by simp) (by simp)) (h.readers.same hfile hreader)
      (h.writers.same hfile hwriter) (h.publishers.same hfile hpublisher) hsent
      (hsame (by simp) (by simp)) hsending

/-- A step of the scanning thread that changes no file and sends none. -/
theorem Pooled.keep (h : Pooled config s) (hconserved : ScanStatistics.Conserved config scan)
    (hroomy : ∀ limits, config.staging=.batched limits → BatchAdmission.Roomy config limits scan)
    (hfiles : scan.files=s.scan.files) (htables : t={s with entries := t.entries, walks := t.walks})
    (haway : ∀ j, scan.phase=.sending j ↔ s.scan.phase=.sending j) :
    Pooled config {t with scan := scan} := by
  rw [htables]
  constructor
  · exact hconserved
  · exact hroomy
  · exact h.feeds.trans (congrArg List.length hfiles.symm)
  · dsimp only
    rw [hfiles]
    exact h.fed
  · dsimp only
    rw [hfiles]
    exact h.readers.phase haway
  · dsimp only
    rw [hfiles]
    exact h.writers
  · dsimp only
    rw [hfiles]
    exact h.publishers
  · dsimp only
    rw [hfiles]
    exact fun j hj => h.sent j ((haway j).mp hj)
  · dsimp only
    rw [hfiles]
    exact h.compressors
  · dsimp only
    rw [hfiles]
    exact h.sending

/-- A step of the scanning thread on a file that no writer and no compressor notices. -/
theorem Pooled.update (h : Pooled config s) (hconserved : ScanStatistics.Conserved config scan)
    (hroomy : ∀ limits, config.staging=.batched limits → BatchAdmission.Roomy config limits scan)
    (hfile : s.scan.files[i]?=some f) (hfiles : scan.files=s.scan.files.set i g)
    (hsame : g.blocks=f.blocks ∧ g.jobs=f.jobs ∧ g.writer=f.writer)
    (hreading : f.reader.stage=.reading → g.reader.stage=.reading)
    (hstaged : g.staged=[] ∨ g.staged=f.staged)
    (htables : t={s with publishers := t.publishers, entries := t.entries, walks := t.walks})
    (hreaders : Queue (s.scan.files.set i g) .reader (fun j => scan.phase=.sending j) s.readers)
    (hpublishers : Queue (s.scan.files.set i g) .publisher (fun _ => False) t.publishers)
    (hsent : ∀ j, scan.phase=.sending j → Stationed (s.scan.files.set i g) .reader .waiting j) :
    Pooled config {t with scan := scan} := by
  refine h.of hconserved hroomy hfiles ?_ ?_ ?_ ?_ hpublishers hsent ?_ (h.sending.set fun hplain hnew => ?_)
  · rw [htables]
  · rw [htables]
    exact h.fed.go hfile hsame.1 hsame.2.1 hreading
  · rw [htables]
    exact hreaders
  · rw [htables]
    exact h.writers.same hfile (congrArg station hsame.2.2)
  · rw [htables]
    exact h.compressors.same hfile hsame.2.1
  · rw [hsame.2.2]
    refine h.sending hplain f (List.mem_of_getElem? hfile) fun hnil => hnew ?_
    rcases hstaged with hnone|hold
    · exact hnone
    · rw [hold]
      exact hnil

/-- A file that the scanning thread has is with no reader. -/
theorem station_scanned (h : f.reader.stage.scanned=true) :
    station (f.thread .reader)=.before ∧ f.reader.stage≠.reading := by
  unfold station File.thread
  cases hstage : f.reader.stage with
  | considered | submitting => exact ⟨rfl,fun hbad => by cases hbad⟩
  | _ =>
    rw [hstage] at h
    cases h

/-- A step of the scanning thread on a file that it has and does not send next. -/
theorem Pooled.stay (h : Pooled config s) (hconserved : ScanStatistics.Conserved config scan)
    (hroomy : ∀ limits, config.staging=.batched limits → BatchAdmission.Roomy config limits scan)
    (hfile : s.scan.files[i]?=some f) (hfiles : scan.files=s.scan.files.set i g)
    (hscanned : f.reader.stage.scanned=true)
    (hsame : g.blocks=f.blocks ∧ g.jobs=f.jobs ∧ g.writer=f.writer)
    (hstaged : g.staged=f.staged ∧ g.publisher=f.publisher)
    (hnew : station (g.thread .reader)≠.waiting) (hnone : ∀ j, s.scan.phase≠.sending j)
    (hnone' : ∀ j, scan.phase≠.sending j) : Pooled config {s with scan := scan} := by
  obtain ⟨hbefore,hreading⟩ := station_scanned hscanned
  have hreaders := (h.readers.idle hfile hbefore hnew).phase fun j =>
    iff_of_false (hnone' j) (hnone j)
  exact h.update hconserved hroomy hfile hfiles hsame (fun hbad => absurd hbad hreading)
    (.inr hstaged.1) rfl hreaders (h.publishers.same hfile (congrArg station hstaged.2))
    fun j hbad => absurd hbad (hnone' j)

/-- A step of the scanning thread on a file that it has and sends next. -/
theorem Pooled.announce (h : Pooled config s) (hconserved : ScanStatistics.Conserved config scan)
    (hroomy : ∀ limits, config.staging=.batched limits → BatchAdmission.Roomy config limits scan)
    (hfile : s.scan.files[i]?=some f) (hfiles : scan.files=s.scan.files.set i g)
    (hscanned : f.reader.stage.scanned=true)
    (hsame : g.blocks=f.blocks ∧ g.jobs=f.jobs ∧ g.writer=f.writer)
    (hstaged : g.staged=f.staged ∧ g.publisher=f.publisher)
    (hnew : station (g.thread .reader)=.waiting) (hnone : ∀ j, s.scan.phase≠.sending j)
    (hnext : scan.phase=.sending i) : Pooled config {s with scan := scan} := by
  obtain ⟨hbefore,hreading⟩ := station_scanned hscanned
  have haway : ∀ j, scan.phase=.sending j ↔ j=i := by
    intro j
    rw [hnext]
    exact ⟨fun hj => (ScanRun.Phase.sending.inj hj).symm,fun hj => by rw [hj]⟩
  refine h.update hconserved hroomy hfile hfiles hsame (fun hbad => absurd hbad hreading)
    (.inr hstaged.1) rfl (h.readers.announce hfile hbefore hnone haway)
    (h.publishers.same hfile (congrArg station hstaged.2)) fun j hj => ?_
  rw [(haway j).mp hj]
  exact (stationed_set hfile).mpr hnew

/-- A new file comes with its feed. -/
theorem Pooled.counted (h : Pooled config s) (hconserved : ScanStatistics.Conserved config scan)
    (hroomy : ∀ limits, config.staging=.batched limits → BatchAdmission.Roomy config limits scan)
    (found : Found) (hfiles : scan.files=s.scan.files++[File.new found])
    (htables : t={s with feeds := s.feeds++[.new found.blocks], entries := t.entries})
    (haway : ∀ j, scan.phase≠.sending j ∧ s.scan.phase≠.sending j) :
    Pooled config {t with scan := scan} := by
  rw [htables]
  constructor
  · exact hconserved
  · exact hroomy
  · dsimp only
    rw [hfiles,List.length_append,List.length_append,h.feeds]
    rfl
  · dsimp only
    rw [hfiles]
    exact h.fed.snoc h.feeds (fed_new _)
  · dsimp only
    rw [hfiles]
    exact (h.readers.snoc rfl).phase fun j => iff_of_false (haway j).1 (haway j).2
  · dsimp only
    rw [hfiles]
    exact h.writers.snoc rfl
  · dsimp only
    rw [hfiles]
    exact h.publishers.snoc rfl
  · exact fun j hj => absurd hj (haway j).1
  · dsimp only
    rw [hfiles]
    exact h.compressors.snoc rfl
  · intro hplain x hx
    dsimp only at hx
    rw [hfiles] at hx
    rcases List.mem_append.mp hx with hold|hlast
    · exact h.sending hplain x hold
    · rw [List.mem_singleton.mp hlast]
      exact fun hbad => absurd rfl hbad

/-- An entry is handed over, with its feed if it counts. -/
theorem allows_consider {entry : ScanAdmission.DirEntry} {blocks : ℕ}
    (h : allows config pools s (.consider entry blocks)=some t) : ∃ rest,
      s.entries=(entry,blocks)::rest ∧
        t={s with entries := rest, feeds := s.feeds++newFeeds config entry blocks} := by
  simp only [allows] at h
  split at h
  · cases h
  · next rest hentries =>
    obtain ⟨hnext,hsome⟩ := Option.ite_none_right_eq_some.mp h
    rw [hnext] at hentries
    exact ⟨rest,hentries,(Option.some.inj hsome).symm⟩

/-- Draining sends nothing. -/
theorem drain_away (scan : ScanRun.State) (resume : Resume) (j : ℕ) :
    (scan.drain resume).phase≠.sending j := by
  unfold ScanRun.State.drain
  split
  · cases resume <;> simp [Resume.phase]
  · simp

/-- Nor does going on to a phase that sends nothing, with a drain before it or without. -/
theorem drainOr_away {full : Prop} [Decidable full] {resume : Resume} {phase : Phase}
    (h : ∀ j, phase≠.sending j) (j : ℕ) :
    (if full then s.scan.drain resume else {s.scan with phase := phase}).phase≠.sending j := by
  split
  · exact drain_away s.scan resume j
  · exact h j

/-- The files stay what they are. -/
theorem drainOr_files {full : Prop} [Decidable full] {resume : Resume} {phase : Phase} :
    (if full then s.scan.drain resume else {s.scan with phase := phase}).files=s.scan.files := by
  split
  · exact drain_files s.scan resume
  · rfl

/-- The file that was to be sent to the readers is sent. -/
theorem Pooled.send (h : Pooled config s) (hconserved : ScanStatistics.Conserved config scan)
    (hroomy : ∀ limits, config.staging=.batched limits → BatchAdmission.Roomy config limits scan)
    (hphase : s.scan.phase=.sending i) (hfiles : scan.files=s.scan.files)
    (haway : ∀ j, scan.phase≠.sending j) {q : Pool ℕ}
    (hsend : s.readers.send pools.readers i=some q) :
    Pooled config {s with readers := q, scan := scan} := by
  constructor
  · exact hconserved
  · exact hroomy
  · exact h.feeds.trans (congrArg List.length hfiles.symm)
  · dsimp only
    rw [hfiles]
    exact h.fed
  · dsimp only
    rw [hfiles]
    refine h.readers.sent (fun j => ?_) haway (h.sent i hphase) hsend
    rw [hphase]
    exact ⟨fun hj => (ScanRun.Phase.sending.inj hj).symm,fun hj => by rw [hj]⟩
  · dsimp only
    rw [hfiles]
    exact h.writers
  · dsimp only
    rw [hfiles]
    exact h.publishers
  · exact fun j hj => absurd hj (haway j)
  · dsimp only
    rw [hfiles]
    exact h.compressors
  · dsimp only
    rw [hfiles]
    exact h.sending

/-- The phases of a batch send nothing to the readers. -/
theorem batch_away {limits : BatchLimits} {e : BatchEvent} (h : BatchMoves config limits s.scan e scan)
    (j : ℕ) : s.scan.phase≠.sending j := by
  cases h <;> simp_all

/-- A step of the batch that the channels and pools let happen keeps the invariant. -/
theorem Pooled.batchStep (h : Pooled config s) {limits : BatchLimits} {e : BatchEvent}
    (hstaging : config.staging=.batched limits) (hbatch : BatchMoves config limits s.scan e scan)
    (hallows : allows config pools s (.batch e)=some t) : Pooled config {t with scan := scan} := by
  have hmoves : ScanRun.Moves config s.scan (.batch e) scan := .batch hstaging hbatch
  have hconserved := h.conserved.moves hmoves
  have hroomy := fun limits hstaging => (h.roomy limits hstaging).moves hstaging hmoves
  have hplaced := h.conserved.accounted.placed
  have hidle := batch_away hbatch
  cases hbatch with
  | @granted i f shared hphase hfile hreserve =>
    obtain rfl := Option.some.inj hallows
    rw [hphase] at hplaced
    exact h.announce hconserved hroomy hfile rfl (by rw [(hplaced.of_get hfile).1]; rfl)
      ⟨rfl,rfl,rfl⟩ ⟨rfl,rfl⟩ rfl hidle rfl
  | @refused i f shared hphase hfile hreserve =>
    obtain rfl := Option.some.inj hallows
    rw [hphase] at hplaced
    exact h.stay hconserved hroomy hfile rfl (by rw [(hplaced.of_get hfile).1]; rfl)
      ⟨rfl,rfl,rfl⟩ ⟨rfl,rfl⟩ (fun hbad => by cases hbad) hidle fun j hbad => by cases hbad
  | @receive i left staged resume f hphase hfile hmessage =>
    obtain rfl := Option.some.inj hallows
    exact h.update hconserved hroomy hfile rfl ⟨rfl,rfl,rfl⟩ id (.inr rfl) rfl
      (h.readers.rest hfile rfl hidle fun j hbad => by cases hbad) (h.publishers.same hfile rfl)
      fun j hbad => by cases hbad
  | @publish i count rest volumes resume f hphase hfile =>
    simp only [allows,hphase] at hallows
    obtain ⟨q,hsend,rfl⟩ := Option.map_eq_some_iff.mp hallows
    rw [hphase] at hplaced
    have hstaged := (hplaced.1.of_get List.mem_cons_self hfile).1
    have hsound := (h.conserved.accounted.solvent.file hfile).1
    have hbefore : station (f.thread .publisher)=.before := by
      rw [File.thread,(hsound.inOrder.staged.resolve_left hstaged).2.2]
      rfl
    exact h.update hconserved hroomy hfile rfl ⟨rfl,rfl,rfl⟩ id (.inl rfl) rfl
      (h.readers.rest hfile rfl hidle fun j hbad => by cases hbad)
      (h.publishers.send hfile hbefore rfl id hsend) fun j hbad => by cases hbad
  | drained hphase =>
    obtain rfl := Option.some.inj hallows
    refine h.keep hconserved hroomy rfl rfl fun j => iff_of_false ?_ (hidle j)
    rename_i resume
    cases resume <;> simp [Resume.phase]
  | _ =>
    obtain rfl := Option.some.inj hallows
    exact h.keep hconserved hroomy rfl rfl fun j =>
      iff_of_false (fun hbad => by cases hbad) (hidle j)

/-- A step of the scan that the channels and pools let happen keeps the invariant. -/
theorem Pooled.scanStep (h : Pooled config s) {e : ScanRun.Event}
    (hmoves : ScanRun.Moves config s.scan e scan) (hallows : allows config pools s e=some t) :
    Pooled config {t with scan := scan} := by
  have hconserved := h.conserved.moves hmoves
  have hroomy := fun limits hstaging => (h.roomy limits hstaging).moves hstaging hmoves
  have hplaced := h.conserved.accounted.placed
  cases hmoves with
  | startWalk hphase =>
    obtain ⟨_,hallows⟩ := Option.ite_none_right_eq_some.mp hallows
    obtain rfl := Option.some.inj hallows
    exact h.keep hconserved hroomy rfl rfl fun _ => Iff.rfl
  | endWalk hwalkers =>
    obtain rfl := Option.some.inj hallows
    exact h.keep hconserved hroomy rfl rfl fun _ => Iff.rfl
  | skip blocks hphase hscan =>
    obtain ⟨rest,_,rfl⟩ := allows_consider hallows
    refine h.keep hconserved hroomy rfl ?_ fun _ => Iff.rfl
    unfold newFeeds
    rw [hscan,List.append_nil]
  | countSkipped blocks hphase hscan =>
    obtain ⟨rest,_,rfl⟩ := allows_consider hallows
    refine h.counted hconserved hroomy _ rfl ?_ fun j => ?_
    · unfold newFeeds
      rw [hscan]
    · rw [hphase]
      exact ⟨(fun hbad => by cases hbad),fun hbad => by cases hbad⟩
  | countSent blocks hphase hscan =>
    obtain ⟨rest,_,rfl⟩ := allows_consider hallows
    refine h.counted hconserved hroomy _ rfl ?_ fun j => ?_
    · unfold newFeeds
      rw [hscan]
    · rw [hphase]
      exact ⟨(fun hbad => by cases hbad),fun hbad => by cases hbad⟩
  | countEnd hphase hfile | makeContext hphase hfile =>
    obtain rfl := Option.some.inj hallows
    rw [hphase] at hplaced
    exact h.stay hconserved hroomy hfile rfl (by rw [(hplaced.of_get hfile).1]; rfl)
      ⟨rfl,rfl,rfl⟩ ⟨rfl,rfl⟩ (fun hbad => by cases hbad) (by simp [hphase])
      fun j hbad => by cases hbad
  | submitBatched hphase hfile hstaging =>
    obtain rfl := Option.some.inj hallows
    exact h.keep hconserved hroomy drainOr_files rfl fun j =>
      iff_of_false (drainOr_away (by simp) j) (by simp [hphase])
  | submit hphase hfile hplain =>
    obtain rfl := Option.some.inj hallows
    rw [hphase] at hplaced
    exact h.announce hconserved hroomy hfile rfl (by rw [(hplaced.of_get hfile).1]; rfl)
      ⟨rfl,rfl,rfl⟩ ⟨rfl,rfl⟩ rfl (by simp [hphase]) rfl
  | sendBatched hphase hfile hstaging =>
    simp only [allows,hphase] at hallows
    obtain ⟨q,hsend,rfl⟩ := Option.map_eq_some_iff.mp hallows
    exact h.send hconserved hroomy hphase drainOr_files (drainOr_away (by simp)) hsend
  | send hphase hplain =>
    simp only [allows,hphase] at hallows
    obtain ⟨q,hsend,rfl⟩ := Option.map_eq_some_iff.mp hallows
    exact h.send hconserved hroomy hphase rfl (fun j hbad => by cases hbad) hsend
  | finishWalk hphase =>
    obtain ⟨_,hallows⟩ := Option.ite_none_right_eq_some.mp hallows
    obtain rfl := Option.some.inj hallows
    exact h.keep hconserved hroomy drainOr_files rfl fun j =>
      iff_of_false (drainOr_away (by simp) j) (by simp [hphase])
  | dropOperation hphase =>
    obtain rfl := Option.some.inj hallows
    refine h.keep hconserved hroomy rfl rfl fun j => ?_
    rw [hphase]
    exact iff_of_false (fun hbad => by cases hbad) fun hbad => by cases hbad
  | receiveStats hphase hsent =>
    obtain rfl := Option.some.inj hallows
    refine h.keep hconserved hroomy rfl rfl fun j => ?_
    rw [hphase]
    exact iff_of_false (fun hbad => by cases hbad) fun hbad => by cases hbad
  | @batch limits e _ hstaging hbatch => exact h.batchStep hstaging hbatch hallows
  | @file i move f g shared hguard hfile hstep =>
    simp only [allows,hfile] at hallows
    split at hallows
    · next x d hget hfeed =>
      obtain rfl := Option.some.inj hget
      exact h.move hguard hfile hfeed hstep hallows
    · cases hallows

/-- What a step of a scan with its pools does. -/
theorem step_scan {e : ScanRun.Event} (h : step config pools s (.scan e)=some t) :
    ∃ scan u, ScanRun.step config s.scan e=some scan ∧ allows config pools s e=some u ∧
      t={u with scan := scan} := by
  simp only [step] at h
  split at h
  · next scan u hscan hallows => exact ⟨scan,u,hscan,hallows,(Option.some.inj h).symm⟩
  · cases h

/-- What the end of a compressor work item does. -/
theorem step_finishJob {position : ℕ} {ok : Bool}
    (h : step config pools s (.finishJob i position ok)=some t) : ∃ scan d,
      ScanRun.step config s.scan (.file i .finishJob)=some scan ∧ s.feeds[i]?=some d ∧
      i∈s.compressors.busy ∧ d.Resolves position ∧
      t={s.setFeed i (d.resolve position ok) with
        scan := scan, compressors := s.compressors.release i} := by
  simp only [step] at h
  split at h
  · next scan d hscan hfeed =>
    obtain ⟨⟨hbusy,hresolves⟩,h⟩ := Option.ite_none_right_eq_some.mp h
    exact ⟨scan,d,hscan,hfeed,hbusy,hresolves,(Option.some.inj h).symm⟩
  · cases h

/-- What a step of a reader or writer does. -/
theorem step_feed {e : FeedEvent} (h : step config pools s (.feed i e)=some t) : ∃ f d after,
    s.scan.files[i]?=some f ∧ s.feeds[i]?=some d ∧
      d.step config.mode pools.slots f e=some after ∧ t=s.setFeed i after := by
  simp only [step] at h
  split at h
  · next f d hfile hfeed =>
    obtain ⟨after,hafter,ht⟩ := Option.map_eq_some_iff.mp h
    exact ⟨f,d,after,hfile,hfeed,hafter,ht.symm⟩
  · cases h

/-- A compressor is done with a work item. -/
theorem Pooled.finishJob (h : Pooled config s) {position : ℕ} {ok : Bool}
    (hstep : step config pools s (.finishJob i position ok)=some t) : Pooled config t := by
  obtain ⟨scan,d,hscan,hfeed,hbusy,hresolves,rfl⟩ := step_finishJob hstep
  have hmoves := ScanRun.moves_of_step hscan
  have hconserved := h.conserved.moves hmoves
  have hroomy := fun limits hstaging => (h.roomy limits hstaging).moves hstaging hmoves
  cases hmoves with
  | @file _ _ f g shared hguard hfile hmove =>
    simp only [File.step] at hmove
    obtain ⟨hjobs,hmove⟩ := Option.ite_none_right_eq_some.mp hmove
    obtain ⟨rfl,rfl⟩ := Prod.mk.inj (Option.some.inj hmove)
    have hless : f.jobs-1+1=f.jobs := Nat.sub_add_cancel hjobs
    have hfed : Fed config.mode {f with jobs := f.jobs-1, context := f.context.release}
        (d.resolve position ok) := (h.fed i f d hfile hfeed).resolve hresolves ok rfl hless rfl
    have hof := @Pooled.of config s
      {s.setFeed i (d.resolve position ok) with compressors := s.compressors.release i} _ i _ h
      hconserved hroomy rfl
    refine hof (List.length_set ..) (h.fed.set hfed) (h.readers.same hfile rfl)
      (h.writers.same hfile rfl) (h.publishers.same hfile rfl) (fun j hj => ?_)
      (h.compressors.release hfile hless hbusy) (h.sending.set (h.sending · f (List.mem_of_getElem? hfile)))
    by_cases hji : j=i
    · subst hji
      exact (stationed_set hfile).mpr ((stationed_iff hfile).mp (h.sent j hj))
    · exact (stationed_set_ne hji).mpr (h.sent j hj)

/-- Every step keeps the invariant. -/
theorem Pooled.step {e : Event} (h : Pooled config s) (hstep : step config pools s e=some t) :
    Pooled config t := by
  cases e with
  | scan e =>
    obtain ⟨scan,u,hscan,hallows,rfl⟩ := step_scan hstep
    exact h.scanStep (ScanRun.moves_of_step hscan) hallows
  | takeJob i =>
    obtain ⟨q,htake,rfl⟩ := Option.map_eq_some_iff.mp hstep
    exact ⟨h.conserved,h.roomy,h.feeds,h.fed,h.readers,h.writers,h.publishers,h.sent,
      h.compressors.take htake,h.sending⟩
  | finishJob i position ok => exact h.finishJob hstep
  | feed i e =>
    obtain ⟨f,d,after,hfile,hfeed,hafter,rfl⟩ := step_feed hstep
    exact ⟨h.conserved,h.roomy,(List.length_set ..).trans h.feeds,
      h.fed.setFeed hfile ((h.fed i f d hfile hfeed).step hafter),h.readers,h.writers,h.publishers,
      h.sent,h.compressors,h.sending⟩

/-- Before the scan all is in order. -/
theorem pooled_initial (config : Config) (stopped : Bool)
    (entries : List (ScanAdmission.DirEntry×ℕ)) (walks : ℕ) :
    Pooled config (.initial stopped entries walks) where
  conserved := ScanStatistics.conserved_initial config stopped
  roomy := fun limits _ => BatchAdmission.roomy_initial config limits stopped
  feeds := rfl
  fed := fun i f d hfile => by simp [State.initial,ScanRun.State.initial] at hfile
  readers := lined_empty fun i hbad => by
    obtain ⟨⟨f,hfile,_⟩,_⟩ := hbad
    simp [State.initial,ScanRun.State.initial] at hfile
  writers := lined_empty fun i hbad => by
    obtain ⟨⟨f,hfile,_⟩,_⟩ := hbad
    simp [State.initial,ScanRun.State.initial] at hfile
  publishers := lined_empty fun i hbad => by
    obtain ⟨⟨f,hfile,_⟩,_⟩ := hbad
    simp [State.initial,ScanRun.State.initial] at hfile
  sent := fun i hbad => by cases hbad
  compressors := fun i => rfl
  sending := fun _ f hf => (List.not_mem_nil hf).elim

/-- All is in order in every reachable state. -/
theorem pooled_of_run {stopped : Bool} {entries : List (ScanAdmission.DirEntry×ℕ)} {walks : ℕ}
    {trace : List (State×Event)}
    (h : TransitionSystem.Run (PooledScan.step config pools) (.initial stopped entries walks) trace s) :
    Pooled config s :=
  h.invariant (pooled_initial config stopped entries walks) fun hold hstep => hold.step hstep

end Steps

end Applesauce.PooledScan
