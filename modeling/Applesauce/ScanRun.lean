import Applesauce.FileAccounts
import Applesauce.ScanAdmission

/-!
# One scan with all its threads

The scanning thread walks over the entries, counts files, makes their
contexts and submits them. In batches it reserves the scratch space itself
and, when a file would not fit the target, drains the batch: it receives the
message of every admitted file, sends the staged ones to the publishers,
awaits their acknowledgements and flushes the volumes. All other threads work
on single files between its steps. Queues and pools are unbounded here, and
the walker hands over its entries in any order: every run of the program is
one of these runs.
-/

namespace Applesauce.ScanRun

open RustIo SharedHandles Statistics ScratchBudget FileThreads ScanAdmission

/-- What the scanning thread goes on with after `Batch::drain`. -/
inductive Resume where
  /-- `Batch::submit` of a file: its reservation. -/
  | submit (file : ℕ)
  /-- The next entry. -/
  | walk
  /-- The end of the scan. -/
  | finish
  deriving DecidableEq,Repr

/-- Where the scanning thread is. -/
inductive Phase where
  /-- `Walker::run`, between two entries. -/
  | walking
  /-- About to count the end of a file it skips. -/
  | ending (file : ℕ) (last : FileInfo)
  /-- About to make the context of a file. -/
  | admitting (file : ℕ)
  /-- `Batch::submit` before its check, or about to send without a batch. -/
  | submitting (file : ℕ)
  /-- `Scratch::reserve_bytes`. -/
  | reserving (file : ℕ)
  /-- Sending the work item to the readers. -/
  | sending (file : ℕ)
  /-- `Batch::drain`, with so many messages to receive and the staged files received. -/
  | collecting (left : ℕ) (staged : List ℕ) (resume : Resume)
  /-- `Batch::drain`, with these files to send of so many, and the volumes of those sent. -/
  | publishing (rest : List ℕ) (count : ℕ) (volumes : List ℕ) (resume : Resume)
  /-- `Batch::drain`, with so many acknowledgements to receive. -/
  | awaiting (left : ℕ) (volumes : List ℕ) (resume : Resume)
  /-- `Batch::drain`, with these volumes to flush. -/
  | flushing (volumes : List ℕ) (resume : Resume)
  /-- About to drop its handle of the operation. -/
  | dropping
  /-- Waiting for the statistics. -/
  | waiting
  /-- `BackgroundThreads::scan` has returned. -/
  | finished (stats : Stats)
  deriving DecidableEq,Repr

/-- Everything the threads of one scan share and own. -/
structure State where
  /-- What all threads share. -/
  shared : Shared
  /-- The counted files in the order of the scan. -/
  files : List File
  /-- Where the scanning thread is. -/
  phase : Phase
  /-- `Batch::pending`. -/
  pending : ℕ
  /-- The number of the current batch; only statements read it. -/
  number : ℕ
  /-- The handles of the operation that the walkers hold. -/
  walkers : ℕ
  deriving DecidableEq,Repr

/-- The steps of a scan with a batch that belong to `Batch`. -/
inductive BatchEvent where
  /-- `Scratch::reserve_bytes` returns. -/
  | reserve
  /-- The message of a file is received. -/
  | receive (file : ℕ)
  /-- Every message was received. -/
  | collected
  /-- A staged file is sent to the publishers. -/
  | publish
  /-- Every staged file was sent. -/
  | published
  /-- An acknowledgement is received. -/
  | acknowledge
  /-- Every acknowledgement was received. -/
  | acknowledged
  /-- `flush_volume`. -/
  | flush (volume : ℕ) (ok : Bool)
  /-- Every volume was flushed: `drain` returns. -/
  | drained
  deriving DecidableEq,Repr

/-- The steps of a scan. -/
inductive Event where
  /-- A walker gets its handle of the operation. -/
  | startWalk
  /-- A walker drops it. -/
  | endWalk
  /-- An entry comes to the callback and, if it counts, its start is counted. -/
  | consider (entry : DirEntry) (blocks : ℕ)
  /-- The end of a skipped file is counted. -/
  | countEnd
  /-- The context is made. -/
  | makeContext
  /-- The check of `Batch::submit`, or the work item without a batch. -/
  | submit
  /-- The work item is in the channel to the readers. -/
  | send
  /-- The walk is over. -/
  | finishWalk
  /-- `drop(operation)`. -/
  | dropOperation
  /-- The statistics are received. -/
  | receiveStats
  /-- A step of the batch. -/
  | batch (e : BatchEvent)
  /-- A step of another thread on a file. -/
  | file (i : ℕ) (move : Move)
  deriving DecidableEq

/-- The state before the scan, with a budget that may have been stopped before. -/
def State.initial (stopped : Bool) : State where
  shared := ⟨⟨0,stopped⟩,.default,1,none,0,none⟩
  files := []
  phase := .walking
  pending := 0
  number := 0
  walkers := 0

/-- Change a file and what is shared, and go on. -/
def State.update (s : State) (i : ℕ) (f : File) (shared : Shared) (phase : Phase) : State :=
  {s with files := s.files.set i f, shared := shared, phase := phase}

/-- The phase after `drain`. -/
def Resume.phase : Resume→Phase
  | .submit i => .reserving i
  | .walk => .walking
  | .finish => .dropping

/-- `Batch::drain`: it returns at once when nothing is pending. -/
def State.drain (s : State) (resume : Resume) : State :=
  if s.pending=0 then {s with phase := resume.phase}
  else {s with phase := .collecting s.pending [] resume}

/-- A file that was counted. -/
def State.counted (s : State) (entry : DirEntry) (blocks : ℕ) (inode : SourceGuard.Inode)
    (info : FileInfo) (phase : Phase) : State :=
  {s with
    files := s.files++[File.new ⟨inode.metadata,info,entry.timesFailure,blocks⟩]
    shared := {s.shared with stats := s.shared.stats.addStartFile inode.metadata.len info}
    phase := phase}

/-- A volume once in the list of those to flush. -/
def insertVolume (volume : ℕ) (volumes : List ℕ) : List ℕ :=
  if volume∈volumes then volumes else volumes++[volume]

/-- The bytes that `Batch::submit` reserves for a file. -/
def requested (config : Config) (f : File) : ℕ := config.request f.found.metadata.len

/-- The check of `Batch::submit`: the file must wait for the end of the batch. -/
def mustDrain (config : Config) (limits : BatchLimits) (s : State) (f : File) : Prop :=
  requested config f≤limits.limit ∧ 0<s.pending ∧
    limits.target-s.shared.usage.bytes<requested config f

instance (config : Config) (limits : BatchLimits) (s : State) (f : File) :
    Decidable (mustDrain config limits s f) := inferInstanceAs (Decidable (_ ∧ _))

/-- A file that is admitted to a batch. -/
def admitFile (config : Config) (limits : BatchLimits) (number : ℕ) (f : File) : File :=
  {f with
    batch := some number
    reservation := some (requested config f)
    completion := .live 1
    reader := ⟨.queued,(Staging.batched limits).item⟩}

/-- A step of the batch, if it is possible. -/
def batchStep (config : Config) (limits : BatchLimits) (s : State) : BatchEvent→Option State
  | .reserve =>
    match s.phase with
    | .reserving i =>
      match s.files[i]? with
      | some f =>
        match reserveBytes limits.limit (requested config f) s.shared with
        | some (true,shared) =>
          some {s.update i (admitFile config limits s.number f) shared (.sending i) with
            pending := s.pending+1}
        | some (false,shared) =>
          some (s.update i {f with reader := ⟨.leaving,[.context]⟩} shared .walking)
        | none => none
      | none => none
    | _ => none
  | .receive i =>
    match s.phase,s.files[i]? with
    | .collecting (left+1) staged resume,some f =>
      if f.completion=.dropped ∧ f.received=false then
        some (s.update i {f with received := true} s.shared
          (.collecting left (if f.staged=[] then staged else staged++[i]) resume))
      else none
    | _,_ => none
  | .collected =>
    match s.phase with
    | .collecting 0 staged resume =>
      some {s with phase := .publishing staged staged.length [] resume}
    | _ => none
  | .publish =>
    match s.phase with
    | .publishing (i::rest) count volumes resume =>
      match s.files[i]? with
      | some f =>
        some (s.update i {f with staged := [], publisher := ⟨.queued,(Staging.batched limits).published⟩}
          s.shared (.publishing rest count (insertVolume f.found.metadata.dev volumes) resume))
      | none => none
    | _ => none
  | .published =>
    match s.phase with
    | .publishing [] count volumes resume => some {s with phase := .awaiting count volumes resume}
    | _ => none
  | .acknowledge =>
    match s.phase with
    | .awaiting (left+1) volumes resume =>
      if 0<s.shared.acknowledged then
        some {s with
          shared := {s.shared with acknowledged := s.shared.acknowledged-1}
          phase := .awaiting left volumes resume}
      else none
    | _ => none
  | .acknowledged =>
    match s.phase with
    | .awaiting 0 volumes resume => some {s with phase := .flushing volumes resume}
    | _ => none
  | .flush volume ok =>
    match s.phase with
    | .flushing volumes resume =>
      if volume∈volumes then
        some {s with
          shared := if ok then s.shared
            else {s.shared with usage := {s.shared.usage with stopped := true}}
          phase := .flushing (volumes.erase volume) resume}
      else none
    | _ => none
  | .drained =>
    match s.phase with
    | .flushing [] resume =>
      some {s with phase := resume.phase, pending := 0, number := s.number+1}
    | _ => none

/-- One step, if it is possible. -/
def step (config : Config) (s : State) : Event→Option State
  | .startWalk =>
    if s.phase=.walking then
      some {s with
        shared := {s.shared with operations := s.shared.operations+1}
        walkers := s.walkers+1}
    else none
  | .endWalk =>
    if 0<s.walkers then
      some {s with shared := s.shared.dropOperation, walkers := s.walkers-1}
    else none
  | .consider entry blocks =>
    if s.phase=.walking then
      match scanFile config.mode entry with
      | .skipped _ => some s
      | .ended _ inode first last =>
        some (s.counted entry blocks inode first (.ending s.files.length last))
      | .sent inode info => some (s.counted entry blocks inode info (.admitting s.files.length))
    else none
  | .countEnd =>
    match s.phase with
    | .ending i last =>
      match s.files[i]? with
      | some f =>
        let r := addEnd last {f with reader := ⟨.leaving,[]⟩} s.shared
        some (s.update i r.1 r.2 .walking)
      | none => none
    | _ => none
  | .makeContext =>
    match s.phase with
    | .admitting i =>
      match s.files[i]? with
      | some f =>
        some (s.update i {f with
            reader := ⟨.submitting,[.context]⟩
            context := .live 1
            operation := true}
          {s.shared with operations := s.shared.operations+1} (.submitting i))
      | none => none
    | _ => none
  | .submit =>
    match s.phase with
    | .submitting i =>
      match s.files[i]? with
      | some f =>
        match config.staging with
        | .batched limits =>
          some (if mustDrain config limits s f then s.drain (.submit i)
            else {s with phase := .reserving i})
        | staging =>
          some (s.update i {f with reader := ⟨.queued,staging.item⟩} s.shared (.sending i))
      | none => none
    | _ => none
  | .send =>
    match s.phase with
    | .sending i =>
      match s.files[i]? with
      | some f =>
        match config.staging with
        | .batched limits =>
          some (if limits.target<requested config f then s.drain .walk
            else {s with phase := .walking})
        | _ => some {s with phase := .walking}
      | none => none
    | _ => none
  | .finishWalk =>
    if s.phase=.walking then
      some (if config.staging.isBatched then s.drain .finish else {s with phase := .dropping})
    else none
  | .dropOperation =>
    if s.phase=.dropping then
      some {s with shared := s.shared.dropOperation, phase := .waiting}
    else none
  | .receiveStats =>
    match s.phase,s.shared.sent with
    | .waiting,some stats => some {s with phase := .finished stats}
    | _,_ => none
  | .batch e =>
    match config.staging with
    | .batched limits => batchStep config limits s e
    | _ => none
  | .file i move =>
    if s.phase=.sending i ∧ move=.takeRead then none
    else
      match s.files[i]? with
      | some f =>
        match f.step config move s.shared with
        | some (g,shared) => some (s.update i g shared s.phase)
        | none => none
      | none => none

section Moves

/-- A drain touches no file. -/
theorem drain_files (s : State) (resume : Resume) : (s.drain resume).files=s.files := by
  unfold State.drain
  split <;> rfl

/-- What a step of the batch does. -/
inductive BatchMoves (config : Config) (limits : BatchLimits) (s : State) : BatchEvent→State→Prop
  | granted {i : ℕ} {f : File} {shared : Shared} (hphase : s.phase=.reserving i)
      (hfile : s.files[i]?=some f)
      (hreserve : reserveBytes limits.limit (requested config f) s.shared=some (true,shared)) :
      BatchMoves config limits s .reserve
        {s.update i (admitFile config limits s.number f) shared (.sending i) with
          pending := s.pending+1}
  | refused {i : ℕ} {f : File} {shared : Shared} (hphase : s.phase=.reserving i)
      (hfile : s.files[i]?=some f)
      (hreserve : reserveBytes limits.limit (requested config f) s.shared=some (false,shared)) :
      BatchMoves config limits s .reserve
        (s.update i {f with reader := ⟨.leaving,[.context]⟩} shared .walking)
  | receive {i left : ℕ} {staged : List ℕ} {resume : Resume} {f : File}
      (hphase : s.phase=.collecting (left+1) staged resume) (hfile : s.files[i]?=some f)
      (hmessage : f.completion=.dropped ∧ f.received=false) :
      BatchMoves config limits s (.receive i) (s.update i {f with received := true} s.shared
        (.collecting left (if f.staged=[] then staged else staged++[i]) resume))
  | collected {staged : List ℕ} {resume : Resume} (hphase : s.phase=.collecting 0 staged resume) :
      BatchMoves config limits s .collected
        {s with phase := .publishing staged staged.length [] resume}
  | publish {i count : ℕ} {rest volumes : List ℕ} {resume : Resume} {f : File}
      (hphase : s.phase=.publishing (i::rest) count volumes resume) (hfile : s.files[i]?=some f) :
      BatchMoves config limits s .publish (s.update i
        {f with staged := [], publisher := ⟨.queued,(Staging.batched limits).published⟩}
        s.shared (.publishing rest count (insertVolume f.found.metadata.dev volumes) resume))
  | published {count : ℕ} {volumes : List ℕ} {resume : Resume}
      (hphase : s.phase=.publishing [] count volumes resume) :
      BatchMoves config limits s .published {s with phase := .awaiting count volumes resume}
  | acknowledge {left : ℕ} {volumes : List ℕ} {resume : Resume}
      (hphase : s.phase=.awaiting (left+1) volumes resume) (hsome : 0<s.shared.acknowledged) :
      BatchMoves config limits s .acknowledge {s with
        shared := {s.shared with acknowledged := s.shared.acknowledged-1}
        phase := .awaiting left volumes resume}
  | acknowledged {volumes : List ℕ} {resume : Resume} (hphase : s.phase=.awaiting 0 volumes resume) :
      BatchMoves config limits s .acknowledged {s with phase := .flushing volumes resume}
  | flush {volume : ℕ} {volumes : List ℕ} {resume : Resume} (ok : Bool)
      (hphase : s.phase=.flushing volumes resume) (hvolume : volume∈volumes) :
      BatchMoves config limits s (.flush volume ok) {s with
        shared := if ok then s.shared
          else {s.shared with usage := {s.shared.usage with stopped := true}}
        phase := .flushing (volumes.erase volume) resume}
  | drained {resume : Resume} (hphase : s.phase=.flushing [] resume) :
      BatchMoves config limits s .drained
        {s with phase := resume.phase, pending := 0, number := s.number+1}

/-- Every step of the batch is one of these. -/
theorem batchMoves_of_step {config : Config} {limits : BatchLimits} {s t : State} {e : BatchEvent}
    (h : batchStep config limits s e=some t) : BatchMoves config limits s e t := by
  cases e with
  | reserve =>
    simp only [batchStep] at h
    split at h
    · next i hphase =>
      split at h
      · next f hfile =>
        split at h
        · next shared hreserve =>
          obtain rfl := Option.some.inj h
          exact .granted hphase hfile hreserve
        · next shared hreserve =>
          obtain rfl := Option.some.inj h
          exact .refused hphase hfile hreserve
        · cases h
      · cases h
    · cases h
  | receive i =>
    simp only [batchStep] at h
    split at h
    · next left staged resume f hphase hfile =>
      obtain ⟨hmessage,h⟩ := Option.ite_none_right_eq_some.mp h
      obtain rfl := Option.some.inj h
      exact .receive hphase hfile hmessage
    · cases h
  | collected =>
    simp only [batchStep] at h
    split at h
    · next staged resume hphase =>
      obtain rfl := Option.some.inj h
      exact .collected hphase
    · cases h
  | publish =>
    simp only [batchStep] at h
    split at h
    · next i rest count volumes resume hphase =>
      split at h
      · next f hfile =>
        obtain rfl := Option.some.inj h
        exact .publish hphase hfile
      · cases h
    · cases h
  | published =>
    simp only [batchStep] at h
    split at h
    · next count volumes resume hphase =>
      obtain rfl := Option.some.inj h
      exact .published hphase
    · cases h
  | acknowledge =>
    simp only [batchStep] at h
    split at h
    · next left volumes resume hphase =>
      obtain ⟨hsome,h⟩ := Option.ite_none_right_eq_some.mp h
      obtain rfl := Option.some.inj h
      exact .acknowledge hphase hsome
    · cases h
  | acknowledged =>
    simp only [batchStep] at h
    split at h
    · next volumes resume hphase =>
      obtain rfl := Option.some.inj h
      exact .acknowledged hphase
    · cases h
  | flush volume ok =>
    simp only [batchStep] at h
    split at h
    · next volumes resume hphase =>
      obtain ⟨hvolume,h⟩ := Option.ite_none_right_eq_some.mp h
      obtain rfl := Option.some.inj h
      exact .flush ok hphase hvolume
    · cases h
  | drained =>
    simp only [batchStep] at h
    split at h
    · next resume hphase =>
      obtain rfl := Option.some.inj h
      exact .drained hphase
    · cases h

/-- What a step does. -/
inductive Moves (config : Config) (s : State) : Event→State→Prop
  | startWalk (hphase : s.phase=.walking) : Moves config s .startWalk {s with
      shared := {s.shared with operations := s.shared.operations+1}
      walkers := s.walkers+1}
  | endWalk (hwalkers : 0<s.walkers) : Moves config s .endWalk
      {s with shared := s.shared.dropOperation, walkers := s.walkers-1}
  | skip {reason : SkipReason} {entry : DirEntry} (blocks : ℕ) (hphase : s.phase=.walking)
      (hscan : scanFile config.mode entry=.skipped reason) :
      Moves config s (.consider entry blocks) s
  | countSkipped {reason : SkipReason} {entry : DirEntry} {inode : SourceGuard.Inode}
      {first last : FileInfo} (blocks : ℕ) (hphase : s.phase=.walking)
      (hscan : scanFile config.mode entry=.ended reason inode first last) :
      Moves config s (.consider entry blocks)
        (s.counted entry blocks inode first (.ending s.files.length last))
  | countSent {entry : DirEntry} {inode : SourceGuard.Inode} {info : FileInfo} (blocks : ℕ)
      (hphase : s.phase=.walking) (hscan : scanFile config.mode entry=.sent inode info) :
      Moves config s (.consider entry blocks)
        (s.counted entry blocks inode info (.admitting s.files.length))
  | countEnd {i : ℕ} {last : FileInfo} {f : File} (hphase : s.phase=.ending i last)
      (hfile : s.files[i]?=some f) : Moves config s .countEnd
        (s.update i (addEnd last {f with reader := ⟨.leaving,[]⟩} s.shared).1
          (addEnd last {f with reader := ⟨.leaving,[]⟩} s.shared).2 .walking)
  | makeContext {i : ℕ} {f : File} (hphase : s.phase=.admitting i) (hfile : s.files[i]?=some f) :
      Moves config s .makeContext
        (s.update i {f with
            reader := ⟨.submitting,[.context]⟩
            context := .live 1
            operation := true}
          {s.shared with operations := s.shared.operations+1} (.submitting i))
  | submitBatched {i : ℕ} {f : File} {limits : BatchLimits} (hphase : s.phase=.submitting i)
      (hfile : s.files[i]?=some f) (hstaging : config.staging=.batched limits) :
      Moves config s .submit (if mustDrain config limits s f then s.drain (.submit i)
        else {s with phase := .reserving i})
  | submit {i : ℕ} {f : File} (hphase : s.phase=.submitting i) (hfile : s.files[i]?=some f)
      (hplain : config.staging.isBatched=false) : Moves config s .submit
        (s.update i {f with reader := ⟨.queued,config.staging.item⟩} s.shared (.sending i))
  | sendBatched {i : ℕ} {f : File} {limits : BatchLimits} (hphase : s.phase=.sending i)
      (hfile : s.files[i]?=some f) (hstaging : config.staging=.batched limits) :
      Moves config s .send (if limits.target<requested config f then s.drain .walk
        else {s with phase := .walking})
  | send {i : ℕ} (hphase : s.phase=.sending i) (hplain : config.staging.isBatched=false) :
      Moves config s .send {s with phase := .walking}
  | finishWalk (hphase : s.phase=.walking) : Moves config s .finishWalk
      (if config.staging.isBatched then s.drain .finish else {s with phase := .dropping})
  | dropOperation (hphase : s.phase=.dropping) : Moves config s .dropOperation
      {s with shared := s.shared.dropOperation, phase := .waiting}
  | receiveStats {stats : Stats} (hphase : s.phase=.waiting) (hsent : s.shared.sent=some stats) :
      Moves config s .receiveStats {s with phase := .finished stats}
  | batch {limits : BatchLimits} {e : BatchEvent} {t : State}
      (hstaging : config.staging=.batched limits) (hmoves : BatchMoves config limits s e t) :
      Moves config s (.batch e) t
  | file {i : ℕ} {move : Move} {f g : File} {shared : Shared}
      (hguard : ¬(s.phase=.sending i ∧ move=.takeRead)) (hfile : s.files[i]?=some f)
      (hstep : f.step config move s.shared=some (g,shared)) :
      Moves config s (.file i move) (s.update i g shared s.phase)

/-- Every step is one of these. -/
theorem moves_of_step {config : Config} {s t : State} {e : Event} (h : step config s e=some t) :
    Moves config s e t := by
  cases e with
  | startWalk =>
    obtain ⟨hphase,h⟩ := Option.ite_none_right_eq_some.mp h
    obtain rfl := Option.some.inj h
    exact .startWalk hphase
  | endWalk =>
    obtain ⟨hwalkers,h⟩ := Option.ite_none_right_eq_some.mp h
    obtain rfl := Option.some.inj h
    exact .endWalk hwalkers
  | consider entry blocks =>
    obtain ⟨hphase,h⟩ := Option.ite_none_right_eq_some.mp h
    cases hscan : scanFile config.mode entry with
    | skipped reason =>
      rw [hscan] at h
      obtain rfl := Option.some.inj h
      exact .skip blocks hphase hscan
    | ended reason inode first last =>
      rw [hscan] at h
      obtain rfl := Option.some.inj h
      exact .countSkipped blocks hphase hscan
    | sent inode info =>
      rw [hscan] at h
      obtain rfl := Option.some.inj h
      exact .countSent blocks hphase hscan
  | countEnd =>
    simp only [step] at h
    split at h
    · next i last hphase =>
      split at h
      · next f hfile =>
        obtain rfl := Option.some.inj h
        exact .countEnd hphase hfile
      · cases h
    · cases h
  | makeContext =>
    simp only [step] at h
    split at h
    · next i hphase =>
      split at h
      · next f hfile =>
        obtain rfl := Option.some.inj h
        exact .makeContext hphase hfile
      · cases h
    · cases h
  | submit =>
    simp only [step] at h
    split at h
    · next i hphase =>
      split at h
      · next f hfile =>
        cases hstaging : config.staging with
        | direct | scratch _ _ =>
          simp only [hstaging] at h
          obtain rfl := Option.some.inj h
          have hmoves := @Moves.submit config s i f hphase hfile (by rw [hstaging]; rfl)
          rw [hstaging] at hmoves
          exact hmoves
        | batched limits =>
          simp only [hstaging] at h
          obtain rfl := Option.some.inj h
          exact .submitBatched hphase hfile hstaging
      · cases h
    · cases h
  | send =>
    simp only [step] at h
    split at h
    · next i hphase =>
      split at h
      · next f hfile =>
        cases hstaging : config.staging with
        | direct | scratch _ _ =>
          simp only [hstaging] at h
          obtain rfl := Option.some.inj h
          exact .send hphase (by rw [hstaging]; rfl)
        | batched limits =>
          simp only [hstaging] at h
          obtain rfl := Option.some.inj h
          exact .sendBatched hphase hfile hstaging
      · cases h
    · cases h
  | finishWalk =>
    obtain ⟨hphase,h⟩ := Option.ite_none_right_eq_some.mp h
    obtain rfl := Option.some.inj h
    exact .finishWalk hphase
  | dropOperation =>
    obtain ⟨hphase,h⟩ := Option.ite_none_right_eq_some.mp h
    obtain rfl := Option.some.inj h
    exact .dropOperation hphase
  | receiveStats =>
    simp only [step] at h
    split at h
    · next stats hphase hsent =>
      obtain rfl := Option.some.inj h
      exact .receiveStats hphase hsent
    · cases h
  | batch e =>
    simp only [step] at h
    split at h
    · next limits hstaging => exact .batch hstaging (batchMoves_of_step h)
    · cases h
  | file i move =>
    simp only [step] at h
    split_ifs at h with hguard
    split at h
    · next f hfile =>
      split at h
      · next g shared hstep =>
        obtain rfl := Option.some.inj h
        exact .file hguard hfile hstep
      · cases h
    · cases h

end Moves

end Applesauce.ScanRun
