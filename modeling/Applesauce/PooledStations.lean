import Applesauce.FileInvariant
import Applesauce.FileSteps
import Applesauce.PooledScan

/-!
# Where a file stands with each kind of thread

For each kind of thread a file has not come yet, is in the channel, is with a
thread, or has left it. Only the steps that send, take or leave a file change
this, and each changes it for one kind of thread.
-/

namespace Applesauce.PooledScan

open RustIo FileThreads WorkerPool
open Publication (Mode)

/-- How a file stands with one kind of thread. -/
inductive Station where
  /-- It has not come. -/
  | before
  /-- It is in the channel. -/
  | waiting
  /-- A thread has it. -/
  | working
  /-- No thread will have it again. -/
  | done
  deriving DecidableEq,Repr

/-- How the share of a thread shows it. -/
def station (t : Thread) : Station :=
  match t.stage with
  | .absent => .before
  | .considered => .before
  | .submitting => .before
  | .queued => .waiting
  | .leaving => if t.owned=[] then .done else .working
  | _ => .working

/-- How a step moves a file from one station to the next with one kind of thread, if it does. -/
def shift (f : File) : Move→Role→Option (Station×Station)
  | .takeRead,.reader => some (.waiting,.working)
  | .hand,.writer => some (.before,.waiting)
  | .takeWrite,.writer => some (.waiting,.working)
  | .sendStaged,.publisher => some (.before,.waiting)
  | .takePublish,.publisher => some (.waiting,.working)
  | .drop role,other =>
    if role=other ∧ (f.thread role).owned.length=1 then some (.working,.done) else none
  | _,_ => none

/-- What a step does with the stations of one kind of thread. -/
def Shifted (f g : File) (role : Role) : Option (Station×Station)→Prop
  | some (old,new) => station (f.thread role)=old ∧ station (g.thread role)=new
  | none => station (g.thread role)=station (f.thread role)

section Stations
variable {config : Config} {staging : Staging} {f g : File} {s t : Shared} {role : Role}

/-- A thread that leaves and still owns something is not done. -/
theorem station_leaving {owned : List Owned} (h : owned≠[]) : station ⟨.leaving,owned⟩=.working :=
  if_neg h

/-- No list of a staging is empty. -/
theorem Staging.lists_ne_nil (staging : Staging) : staging.item≠[] ∧ staging.reserved≠[] ∧
    staging.kept≠[] ∧ staging.handed++[Owned.context]≠[] := by
  cases staging <;> simp [FileThreads.Staging.item,FileThreads.Staging.reserved,
    FileThreads.Staging.kept,FileThreads.Staging.handed]

/-- With scratch space a publisher is sent something. -/
theorem Staging.published_ne_nil {staging : Staging} (h : staging.usesScratch=true) :
    staging.published≠[] := by
  cases staging with
  | direct => cases h
  | scratch limit hlimit => simp [FileThreads.Staging.published]
  | batched limits => simp [FileThreads.Staging.published]

/-- The first three stages of a thread that has a file show that it works. -/
theorem station_working {thread : Thread} {stage : Stage} (h : thread.stage=stage)
    (hworking : station ⟨stage,thread.owned⟩=.working) : station thread=.working := by
  subst h
  exact hworking

/-- A step that moves the file nowhere keeps each station. -/
theorem shifted_none {move : Move} (hmove : shift f move role=none)
    (hreader : station g.reader=station f.reader) (hwriter : station g.writer=station f.writer)
    (hpublisher : station g.publisher=station f.publisher) :
    Shifted f g role (shift f move role) := by
  rw [hmove]
  cases role with
  | reader => exact hreader
  | writer => exact hwriter
  | publisher => exact hpublisher

/-- Only the share that is set changes. -/
theorem thread_setThread (f : File) (after : Thread) (who other : Role) :
    (f.setThread after who).thread other=if who=other then after else f.thread other := by
  cases who <;> cases other <;> rfl

/-- A thread that works on a file goes on working on it, and no other thread moves. -/
theorem shifted_working {move : Move} {who : Role} {after : Thread}
    (hmove : shift f move role=none) (hold : station (f.thread who)=.working)
    (hnew : station after=.working)
    (hg : ∀ other, g.thread other=if who=other then after else f.thread other) :
    Shifted f g role (shift f move role) := by
  rw [hmove]
  refine (congrArg station (hg role)).trans ?_
  by_cases hwho : who=role
  · subst hwho
    rw [if_pos rfl]
    exact hnew.trans hold.symm
  · rw [if_neg hwho]

/-- After a report a thread still owns something. -/
theorem reporting_owned (h : Sound staging f)
    (hstage : (f.thread role).stage=.reporting ∨ (f.thread role).stage=.counting) :
    (f.thread role).owned≠[] := by
  cases role with
  | reader => exact (h.reader.silent hstage).elim
  | writer =>
    have hwriter := h.writer
    unfold WriterOwns at hwriter
    rw [File.thread] at hstage ⊢
    have howned : f.writer.owned=[.context] := by
      rcases hstage with heq|heq <;> rw [heq] at hwriter <;> exact hwriter
    rw [howned]
    exact List.cons_ne_nil _ _
  | publisher =>
    have hpublisher := h.publisher
    unfold PublisherOwns at hpublisher
    rw [File.thread] at hstage ⊢
    have howned : f.publisher.owned=staging.published ∧ staging.usesScratch=true := by
      rcases hstage with heq|heq <;> rw [heq] at hpublisher <;> exact hpublisher
    rw [howned.1]
    exact Staging.published_ne_nil howned.2

/-- What follows a report is work. -/
theorem station_afterReport {owned : List Owned} (howned : owned≠[]) :
    station ⟨role.afterReport,owned⟩=.working := by
  cases role with
  | reader => exact station_leaving howned
  | writer => exact station_leaving howned
  | publisher => rfl

/-- A reader that has reserved, or could not, goes on working. -/
theorem shifted_reserve (h : Sound config.staging f) (hstep : f.step config .reserve s=some (g,t)) :
    Shifted f g role (shift f .reserve role) := by
  have hreader := h.reader
  unfold ReaderOwns at hreader
  simp only [File.step] at hstep
  obtain ⟨hstage,hstep⟩ := Option.ite_none_right_eq_some.mp hstep
  rw [hstage] at hreader
  have hold := station_working hstage rfl
  split at hstep
  · obtain ⟨rfl,rfl⟩ := Prod.mk.inj (Option.some.inj hstep)
    exact shifted_none rfl hold.symm rfl rfl
  · obtain ⟨rfl,rfl⟩ := Prod.mk.inj (Option.some.inj hstep)
    refine shifted_none rfl ((station_leaving ?_).trans hold.symm) rfl rfl
    rw [hreader.1]
    exact List.cons_ne_nil _ _
  · cases hstep

/-- A reader that has opened the file, or could not, goes on working. -/
theorem shifted_openFile {ok : Bool} (h : Sound config.staging f)
    (hstep : f.step config (.openFile ok) s=some (g,t)) :
    Shifted f g role (shift f (.openFile ok) role) := by
  have hreader := h.reader
  unfold ReaderOwns at hreader
  simp only [File.step] at hstep
  obtain ⟨hstage,hstep⟩ := Option.ite_none_right_eq_some.mp hstep
  obtain ⟨rfl,rfl⟩ := Prod.mk.inj (Option.some.inj hstep)
  rw [hstage] at hreader
  have hold := station_working hstage rfl
  refine shifted_none rfl (Eq.trans ?_ hold.symm) rfl rfl
  cases ok with
  | true => rfl
  | false =>
    refine station_leaving ?_
    rw [hreader]
    exact (Staging.lists_ne_nil config.staging).2.1

/-- A file that is handed on waits for a writer. -/
theorem shifted_hand (h : Sound config.staging f) (hstep : f.step config .hand s=some (g,t)) :
    Shifted f g role (shift f .hand role) := by
  simp only [File.step] at hstep
  obtain ⟨hstage,hstep⟩ := Option.ite_none_right_eq_some.mp hstep
  obtain ⟨rfl,rfl⟩ := Prod.mk.inj (Option.some.inj hstep)
  cases role with
  | reader => exact (station_working hstage rfl).symm
  | writer =>
    refine ⟨?_,rfl⟩
    rw [File.thread,(h.alone (by rw [hstage]; rfl)).1]
    rfl
  | publisher => rfl

/-- A reader that is done with reading goes on working. -/
theorem shifted_finishReading (h : Sound config.staging f)
    (hstep : f.step config .finishReading s=some (g,t)) :
    Shifted f g role (shift f .finishReading role) := by
  have hreader := h.reader
  unfold ReaderOwns at hreader
  simp only [File.step] at hstep
  obtain ⟨hstage,hstep⟩ := Option.ite_none_right_eq_some.mp hstep
  obtain ⟨rfl,rfl⟩ := Prod.mk.inj (Option.some.inj hstep)
  rw [hstage] at hreader
  have hold := station_working hstage rfl
  refine shifted_none rfl ((station_leaving ?_).trans hold.symm) rfl rfl
  rw [hreader]
  exact (Staging.lists_ne_nil config.staging).2.2.1

/-- A writer that has staged a file, or could not, goes on working. -/
theorem shifted_stage {outcome : Option ℕ} (h : Sound config.staging f)
    (hstep : f.step config (.stage outcome) s=some (g,t)) :
    Shifted f g role (shift f (.stage outcome) role) := by
  simp only [File.step] at hstep
  obtain ⟨⟨hstage,hscratch,_⟩,hstep⟩ := Option.ite_none_right_eq_some.mp hstep
  have hold := station_working hstage rfl
  cases outcome with
  | none =>
    obtain ⟨rfl,rfl⟩ := Prod.mk.inj (Option.some.inj hstep)
    refine shifted_none rfl rfl ((station_leaving ?_).trans hold.symm) rfl
    rw [h.working_owned hstage]
    exact (Staging.lists_ne_nil config.staging).2.2.2
  | some kept =>
    obtain ⟨rfl,rfl⟩ := Prod.mk.inj (Option.some.inj hstep)
    refine shifted_none rfl rfl (Eq.trans ?_ hold.symm) rfl
    cases hstaging : config.staging with
    | direct =>
      rw [hstaging] at hscratch
      cases hscratch
    | scratch limit hlimit => rfl
    | batched limits => rfl

/-- A file that is sent on waits for a publisher. -/
theorem shifted_sendStaged (h : Sound config.staging f)
    (hstep : f.step config .sendStaged s=some (g,t)) :
    Shifted f g role (shift f .sendStaged role) := by
  simp only [File.step] at hstep
  obtain ⟨hstage,hstep⟩ := Option.ite_none_right_eq_some.mp hstep
  obtain ⟨rfl,rfl⟩ := Prod.mk.inj (Option.some.inj hstep)
  have hwriter := h.writer
  unfold WriterOwns at hwriter
  rw [hstage] at hwriter
  cases role with
  | reader => rfl
  | writer =>
    refine (station_leaving ?_).trans (station_working hstage rfl).symm
    rw [hwriter.1]
    exact List.cons_ne_nil _ _
  | publisher =>
    obtain ⟨_,_,habsent⟩ := h.inOrder.staged.resolve_left (h.inOrder.sending hstage)
    refine ⟨?_,rfl⟩
    rw [File.thread,habsent]
    rfl

/-- A publisher that has closed the payload goes on working. -/
theorem shifted_close {ok : Bool} (h : Sound config.staging f)
    (hstep : f.step config (.close ok) s=some (g,t)) :
    Shifted f g role (shift f (.close ok) role) := by
  have hpublisher := h.publisher
  unfold PublisherOwns at hpublisher
  simp only [File.step] at hstep
  obtain ⟨hstage,hstep⟩ := Option.ite_none_right_eq_some.mp hstep
  obtain ⟨rfl,rfl⟩ := Prod.mk.inj (Option.some.inj hstep)
  rw [hstage] at hpublisher
  have hold := station_working hstage rfl
  refine shifted_none rfl rfl rfl ((station_leaving ?_).trans hold.symm)
  rw [hpublisher.1]
  exact Staging.published_ne_nil hpublisher.2

/-- A thread that reports goes on working. -/
theorem shifted_report {who : Role} {metadata : Bool}
    (h : Sound config.staging f) (hstep : f.step config (.report who metadata) s=some (g,t)) :
    Shifted f g role (shift f (.report who metadata) role) := by
  simp only [File.step] at hstep
  obtain ⟨hstage,hstep⟩ := Option.ite_none_right_eq_some.mp hstep
  have hold := station_working hstage rfl
  have howned := reporting_owned h (.inl hstage)
  simp only [reportNewStats] at hstep
  split_ifs at hstep
  · obtain ⟨rfl,rfl⟩ := Prod.mk.inj (Option.some.inj hstep)
    exact shifted_none rfl rfl rfl rfl
  · obtain ⟨rfl,rfl⟩ := Prod.mk.inj (Option.some.inj hstep)
    exact shifted_working rfl hold rfl (thread_setThread {f with reported := true} _ who)
  · obtain ⟨rfl,rfl⟩ := Prod.mk.inj (Option.some.inj hstep)
    exact shifted_working rfl hold (station_afterReport howned) (thread_setThread f _ who)

/-- A thread that drops the last of what it owns is done. -/
theorem shifted_drop {who : Role} (hstep : f.step config (.drop who) s=some (g,t)) :
    Shifted f g role (shift f (.drop who) role) := by
  simp only [File.step] at hstep
  split at hstep
  · next o owned hthread =>
    have hafter : ∀ other, g.thread other=if who=other then ⟨.leaving,owned⟩ else f.thread other := by
      intro other
      have hg : (o.drop (f.setThread ⟨.leaving,owned⟩ who) s).1=g :=
        congrArg Prod.fst (Option.some.inj hstep)
      rw [←hg,drop_eq]
      exact thread_setThread f _ who other
    have hold : station (f.thread who)=.working := by
      rw [hthread]
      exact station_leaving (List.cons_ne_nil o owned)
    unfold shift
    dsimp only
    rw [hthread,List.length_cons]
    by_cases hwho : who=role
    · subst hwho
      have hnew := hafter who
      rw [if_pos rfl] at hnew
      cases owned with
      | nil =>
        rw [if_pos ⟨rfl,rfl⟩]
        refine ⟨hold,?_⟩
        rw [hnew]
        rfl
      | cons next rest =>
        rw [if_neg (by simp)]
        refine Eq.trans ?_ hold.symm
        rw [hnew]
        exact station_leaving (List.cons_ne_nil _ _)
    · rw [if_neg fun hboth => hwho hboth.1]
      have hsame := hafter role
      rw [if_neg hwho] at hsame
      exact congrArg station hsame
  · cases hstep

/-- A step on a file moves it to the next station with one kind of thread, or with none. -/
theorem shifted_step {move : Move} (h : Sound config.staging f)
    (hstep : f.step config move s=some (g,t)) (role : Role) :
    Shifted f g role (shift f move role) := by
  cases move with
  | takeRead =>
    simp only [File.step] at hstep
    obtain ⟨hstage,hstep⟩ := Option.ite_none_right_eq_some.mp hstep
    obtain ⟨rfl,rfl⟩ := Prod.mk.inj (Option.some.inj hstep)
    cases role with
    | reader =>
      refine ⟨by simp [station,File.thread,hstage],?_⟩
      cases config.staging <;> rfl
    | writer => rfl
    | publisher => rfl
  | reserve => exact shifted_reserve h hstep
  | openFile ok => exact shifted_openFile h hstep
  | hand => exact shifted_hand h hstep
  | spawn =>
    simp only [File.step] at hstep
    obtain ⟨_,hstep⟩ := Option.ite_none_right_eq_some.mp hstep
    obtain ⟨rfl,rfl⟩ := Prod.mk.inj (Option.some.inj hstep)
    exact shifted_none rfl rfl rfl rfl
  | finishJob =>
    simp only [File.step] at hstep
    obtain ⟨_,hstep⟩ := Option.ite_none_right_eq_some.mp hstep
    obtain ⟨rfl,rfl⟩ := Prod.mk.inj (Option.some.inj hstep)
    exact shifted_none rfl rfl rfl rfl
  | finishReading => exact shifted_finishReading h hstep
  | takeWrite =>
    simp only [File.step] at hstep
    obtain ⟨hstage,hstep⟩ := Option.ite_none_right_eq_some.mp hstep
    obtain ⟨rfl,rfl⟩ := Prod.mk.inj (Option.some.inj hstep)
    cases role with
    | reader => rfl
    | writer => exact ⟨by simp [station,File.thread,hstage],rfl⟩
    | publisher => rfl
  | write published =>
    simp only [File.step] at hstep
    obtain ⟨⟨hstage,_⟩,hstep⟩ := Option.ite_none_right_eq_some.mp hstep
    obtain ⟨rfl,rfl⟩ := Prod.mk.inj (Option.some.inj hstep)
    have hold := station_working hstage rfl
    refine shifted_none rfl rfl (Eq.trans ?_ hold.symm) rfl
    cases published <;> rfl
  | stage outcome => exact shifted_stage h hstep
  | sendStaged => exact shifted_sendStaged h hstep
  | takePublish =>
    simp only [File.step] at hstep
    obtain ⟨hstage,hstep⟩ := Option.ite_none_right_eq_some.mp hstep
    obtain ⟨rfl,rfl⟩ := Prod.mk.inj (Option.some.inj hstep)
    cases role with
    | reader => rfl
    | writer => rfl
    | publisher => exact ⟨by simp [station,File.thread,hstage],rfl⟩
  | publish published =>
    simp only [File.step] at hstep
    obtain ⟨hstage,hstep⟩ := Option.ite_none_right_eq_some.mp hstep
    obtain ⟨rfl,rfl⟩ := Prod.mk.inj (Option.some.inj hstep)
    have hold := station_working hstage rfl
    refine shifted_none rfl rfl rfl (Eq.trans ?_ hold.symm)
    cases published <;> rfl
  | report who metadata => exact shifted_report h hstep
  | count who info =>
    simp only [File.step] at hstep
    obtain ⟨hstage,hstep⟩ := Option.ite_none_right_eq_some.mp hstep
    have hold := station_working hstage rfl
    have howned := reporting_owned h (.inr hstage)
    obtain ⟨rfl,rfl⟩ := Prod.mk.inj (Option.some.inj hstep)
    exact shifted_working rfl hold (station_afterReport howned) (thread_setThread f _ who)
  | close ok => exact shifted_close h hstep
  | drop who => exact shifted_drop hstep
  | sendMessage =>
    simp only [File.step] at hstep
    obtain ⟨_,hstep⟩ := Option.ite_none_right_eq_some.mp hstep
    obtain ⟨rfl,rfl⟩ := Prod.mk.inj (Option.some.inj hstep)
    exact shifted_none rfl rfl rfl rfl
  | dropContext =>
    simp only [File.step] at hstep
    obtain ⟨_,hstep⟩ := Option.ite_none_right_eq_some.mp hstep
    split at hstep
    · obtain ⟨rfl,rfl⟩ := Prod.mk.inj (Option.some.inj hstep)
      exact shifted_none rfl rfl rfl rfl
    · obtain ⟨rfl,rfl⟩ := Prod.mk.inj (Option.some.inj hstep)
      exact shifted_none rfl rfl rfl rfl
  | dropOperation =>
    simp only [File.step] at hstep
    obtain ⟨_,hstep⟩ := Option.ite_none_right_eq_some.mp hstep
    obtain ⟨rfl,rfl⟩ := Prod.mk.inj (Option.some.inj hstep)
    exact shifted_none rfl rfl rfl rfl

end Stations

end Applesauce.PooledScan
