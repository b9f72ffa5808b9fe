import Applesauce.SourceGuard
import Mathlib.Data.Finset.Insert

/-!
# Who has a file open for writing

The processes and their open files are listed into buffers that are doubled
while a call fills them, and what is found is kept for a few seconds. The
tables may change between any two calls. Files are looked for by device and
inode, in what was found at the latest collection.
-/

namespace Applesauce.OpenWriters

open RustIo SourceGuard

section Model
variable {α ρ : Type}

/-- What a call of libproc reports that counts entries. -/
inductive Reply (α : Type) where
  /-- No entries: the number is not positive. -/
  | failed (kind : ErrorKind)
  /-- The entries of the table at this time, as far as the buffer has room for them. -/
  | table (first : α) (rest : List α)
  deriving DecidableEq

/-- What a call of libproc reports that counts bytes. -/
inductive BytesReply (α : Type) where
  /-- The bytes of no or of whole entries. -/
  | whole (reply : Reply α)
  /-- A positive number of bytes that ends within an entry. -/
  | torn (entries : List α)
  deriving DecidableEq

/-- `byte_size`. -/
def byteSize (size items : ℕ) : Except IoError ℕ :=
  if items*size<2^31 then .ok (items*size)
  else .error (.new .other "libproc buffer is too large")

/-- `FileId`. -/
structure FileId where
  /-- The device, in 32 bits. -/
  device : ℕ
  /-- The inode on it. -/
  inode : ℕ
  deriving DecidableEq

/-- `FileId::from_metadata`. -/
def FileId.fromMetadata (metadata : Metadata) : FileId := ⟨metadata.dev%2^32,metadata.ino⟩

/-- `ProcFdInfo`. -/
structure ProcFdInfo where
  /-- The descriptor. -/
  fd : ℤ
  /-- What it refers to. -/
  kind : BitVec 32
  deriving DecidableEq

/-- The loop of `list_pids` and `list_fds`, whose entries have so many bytes, over the reply to
each of the coming calls, which they check and read off their buffer; without a result it has not
returned after these. -/
def fillLoop (size : ℕ) (filled : ρ→Except IoError (List α)) (replies : List ρ) (capacity : ℕ) :
    Option (Except IoError (List α)) :=
  match byteSize size capacity with
  | .error e => some (.error e)
  | .ok _ =>
    match replies with
    | [] => none
    | reply::replies =>
      match filled reply with
      | .error e => some (.error e)
      | .ok entries =>
        if capacity≤entries.length then fillLoop size filled replies (capacity*2)
        else some (.ok entries)

/-- `list_pids` and `list_fds`, with room for so many entries more than the first call needs. -/
def list (size slack : ℕ) (needed : ρ→Except IoError ℕ) (filled : ρ→Except IoError (List α)) :
    List ρ→Option (Except IoError (List α))
  | [] => none
  | reply::replies =>
    match needed reply with
    | .error e => some (.error e)
    | .ok count => fillLoop size filled replies (count+slack)

/-- The entries that a call with a buffer reports. -/
def Reply.entries : Reply α→Except IoError (List α)
  | .failed kind => .error (.ofKind kind)
  | .table first rest => .ok (first::rest)

/-- The number that a call without a buffer reports. -/
def Reply.count (reply : Reply α) : Except IoError ℕ := reply.entries.map List.length

/-- The entries that a call with a buffer reports in bytes. -/
def BytesReply.entries : BytesReply α→Except IoError (List α)
  | .whole reply => reply.entries
  | .torn _ => .error (.new .other "libproc returned partial FD data")

/-- The number that a call without a buffer reports in bytes, divided by the size of an entry. -/
def BytesReply.count : BytesReply α→Except IoError ℕ
  | .whole reply => reply.count
  | .torn entries => .ok entries.length

/-- `list_pids`. Its calls count entries. -/
def listPids (replies : List (Reply ℤ)) : Option (Except IoError (List ℤ)) :=
  list 4 32 Reply.count Reply.entries replies

/-- `list_fds`. Its calls count bytes. -/
def listFds (replies : List (BytesReply ProcFdInfo)) :
    Option (Except IoError (List ProcFdInfo)) :=
  list 8 8 BytesReply.count BytesReply.entries replies

/-- `PROX_FDTYPE_VNODE`. -/
def vnodeKind : BitVec 32 := 1

/-- `FWRITE`. -/
def fwrite : BitVec 32 := 0x2

/-- What `inspect_fd` reads of a descriptor. -/
structure VnodeFdInfo where
  /-- `fi_openflags`. -/
  openFlags : BitVec 32
  /-- The file. -/
  vnode : FileId
  deriving DecidableEq

/-- What libproc replies in the course of one collection. -/
structure Libproc where
  /-- The calls that list processes. -/
  pids : List (Reply ℤ)
  /-- The calls that list the descriptors of a process. -/
  fds : ℤ→List (BytesReply ProcFdInfo)
  /-- `inspect_fd` of a process and a descriptor. -/
  inspectFd : ℤ→ℤ→Except IoError VnodeFdInfo

/-- The variables of `collect_open_writers`. -/
structure Found where
  /-- `writers`. -/
  writers : Finset FileId
  /-- `inspected_vnodes`. -/
  inspectedVnodes : ℕ

/-- `collect_open_writers` for one descriptor. -/
def visitFd (system : Libproc) (pid : ℤ) (found : Found) (fd : ProcFdInfo) : Found :=
  if fd.kind≠vnodeKind then found
  else match system.inspectFd pid fd.fd with
    | .error _ => found
    | .ok info =>
      { writers := if info.openFlags &&& fwrite≠0 then insert info.vnode found.writers
          else found.writers
        inspectedVnodes := found.inspectedVnodes+1 }

/-- `collect_open_writers` for one process. -/
def visitPid (system : Libproc) (found : Found) (pid : ℤ) : Option Found :=
  (listFds (system.fds pid)).map fun r => match r with
    | .ok fds => fds.foldl (visitFd system pid) found
    -- The process denies inspection or has exited.
    | .error _ => found

/-- `collect_open_writers`. -/
def collectOpenWriters (system : Libproc) : Option (Except IoError (Finset FileId)) :=
  (listPids system.pids).bind fun r => match r with
    | .error e => some (.error e)
    | .ok pids => (pids.foldlM (visitPid system) ⟨∅,0⟩).map fun found =>
      if found.inspectedVnodes=0 then
        .error (.new .other "libproc could not inspect any open files")
      else .ok found.writers

/-- `REFRESH_INTERVAL`, in nanoseconds. -/
def refreshInterval : ℕ := 5*10^9

/-- `Snapshot`. -/
structure Snapshot where
  /-- When it was collected. -/
  collectedAt : ℕ
  /-- The files found, or the text of the error. -/
  result : Except String (Finset FileId)

/-- A call of `has_writer` by the thread that holds the lock. -/
structure Call where
  /-- The time that the age of the snapshot is taken at. -/
  checkedAt : ℕ
  /-- The replies of libproc, if they are asked for. -/
  system : Libproc
  /-- The time after these. -/
  collectedAt : ℕ
  /-- The metadata of the file. -/
  metadata : Metadata

/-- `error.to_string()`, with the system's text for an error that has none. -/
def errorText (text : ErrorKind→String) (e : IoError) : String := e.message.getD (text e.kind)

/-- The snapshot of a call that collects. -/
def Call.collect (text : ErrorKind→String) (call : Call) : Option Snapshot :=
  (collectOpenWriters call.system).map fun r => ⟨call.collectedAt,r.mapError (errorText text)⟩

/-- The snapshot that `has_writer` looks into: the last one, unless there is none or it is old. -/
def refresh (text : ErrorKind→String) (last : Option Snapshot) (call : Call) : Option Snapshot :=
  match last with
  | none => call.collect text
  | some snapshot =>
    if refreshInterval≤call.checkedAt-snapshot.collectedAt then call.collect text
    else some snapshot

/-- What `has_writer` reads off a snapshot. -/
def Snapshot.answer (snapshot : Snapshot) (metadata : Metadata) : Except IoError Bool :=
  match snapshot.result with
  | .ok writers => .ok (decide (FileId.fromMetadata metadata∈writers))
  | .error message => .error (.new .other message)

/-- `OpenWriters::has_writer`, with the snapshot behind it. -/
def hasWriter (text : ErrorKind→String) (last : Option Snapshot) (call : Call) :
    Option (Except IoError Bool×Snapshot) :=
  (refresh text last call).map fun snapshot => (snapshot.answer call.metadata,snapshot)

/-- The snapshot after calls by any threads, from `OpenWriters::new` on. -/
def snapshotAfter (text : ErrorKind→String) (calls : List Call) : Option (Option Snapshot) :=
  calls.foldlM (fun last call => (hasWriter text last call).map fun r => some r.2) none

end Model

section Listing
variable {α ρ : Type} {size capacity slack : ℕ} {needed : ρ→Except IoError ℕ}
  {filled : ρ→Except IoError (List α)} {replies : List ρ} {entries : List α}

/-- What the loop returns is what one call reports that does not fill its buffer. -/
theorem fillLoop_whole (h : fillLoop size filled replies capacity=some (.ok entries)) :
    ∃ reply∈replies, filled reply=.ok entries := by
  induction replies generalizing capacity with
  | nil =>
    unfold fillLoop at h
    cases hsize : byteSize size capacity <;> rw [hsize] at h <;> cases h
  | cons reply replies ih =>
    unfold fillLoop at h
    cases hsize : byteSize size capacity with
    | error e =>
      rw [hsize] at h
      cases h
    | ok bytes =>
      cases hfilled : filled reply with
      | error e =>
        rw [hsize] at h
        dsimp only at h
        rw [hfilled] at h
        cases h
      | ok listed =>
        rw [hsize] at h
        dsimp only at h
        rw [hfilled] at h
        dsimp only at h
        by_cases hfull : capacity≤listed.length
        · rw [if_pos hfull] at h
          obtain ⟨found,hmem,heq⟩ := ih h
          exact ⟨found,List.mem_cons_of_mem _ hmem,heq⟩
        · rw [if_neg hfull] at h
          obtain rfl := Except.ok.inj (Option.some.inj h)
          exact ⟨reply,List.mem_cons_self,hfilled⟩

/-- Both functions return what one call reports that does not fill its buffer. -/
theorem list_whole (h : list size slack needed filled replies=some (.ok entries)) :
    ∃ reply∈replies, filled reply=.ok entries := by
  cases replies with
  | nil => cases h
  | cons reply replies =>
    dsimp only [list] at h
    cases hneeded : needed reply with
    | error e =>
      rw [hneeded] at h
      cases h
    | ok count =>
      rw [hneeded] at h
      obtain ⟨found,hmem,heq⟩ := fillLoop_whole h
      exact ⟨found,List.mem_cons_of_mem _ hmem,heq⟩

end Listing

section Collecting
variable {system : Libproc} {id : FileId} {pid : ℤ} {found next : Found} {writers : Finset FileId}

/-- A descriptor of a process is inspected and has the file open for writing. -/
def WritesVia (system : Libproc) (id : FileId) (pid : ℤ) (fd : ProcFdInfo) : Prop :=
  fd.kind=vnodeKind ∧ ∃ info, system.inspectFd pid fd.fd=.ok info ∧ info.openFlags &&& fwrite≠0 ∧
    info.vnode=id

/-- A process whose descriptors are listed has the file open for writing. -/
def Writes (system : Libproc) (id : FileId) (pid : ℤ) : Prop :=
  ∃ fds, listFds (system.fds pid)=some (.ok fds) ∧ ∃ fd∈fds, WritesVia system id pid fd

/-- A process that is listed has the file open for writing. -/
def HasWriter (system : Libproc) (id : FileId) : Prop :=
  ∃ pids, listPids system.pids=some (.ok pids) ∧ ∃ pid∈pids, Writes system id pid

/-- A descriptor adds its file, if it has that open for writing. -/
theorem mem_visitFd (fd : ProcFdInfo) : id∈(visitFd system pid found fd).writers ↔
    id∈found.writers ∨ WritesVia system id pid fd := by
  unfold visitFd
  by_cases hkind : fd.kind=vnodeKind
  · rw [if_neg (not_not_intro hkind)]
    cases hinspect : system.inspectFd pid fd.fd with
    | error e =>
      refine ⟨.inl,fun h => h.resolve_right ?_⟩
      rintro ⟨_,info,hinfo,_⟩
      cases hinspect.symm.trans hinfo
    | ok info =>
      have hvia : WritesVia system id pid fd ↔ info.openFlags &&& fwrite≠0 ∧ info.vnode=id := by
        refine ⟨fun ⟨_,info',hinfo,hwrites⟩ => ?_,fun h => ⟨hkind,info,hinspect,h⟩⟩
        obtain rfl := Except.ok.inj (hinspect.symm.trans hinfo)
        exact hwrites
      rw [hvia]
      dsimp only
      by_cases hwrite : info.openFlags &&& fwrite≠0
      · rw [if_pos hwrite,Finset.mem_insert,or_comm]
        exact or_congr_right ⟨fun heq => ⟨hwrite,heq.symm⟩,fun h => h.2.symm⟩
      · rw [if_neg hwrite]
        exact ⟨.inl,fun h => h.resolve_right fun hbad => hwrite hbad.1⟩
  · rw [if_pos hkind]
    exact ⟨.inl,fun h => h.resolve_right fun hbad => hkind hbad.1⟩

/-- So do all descriptors of a process. -/
theorem mem_visitFds (fds : List ProcFdInfo) : id∈(fds.foldl (visitFd system pid) found).writers ↔
    id∈found.writers ∨ ∃ fd∈fds, WritesVia system id pid fd := by
  induction fds generalizing found with
  | nil => exact ⟨.inl,fun h => h.resolve_right fun ⟨_,hbad,_⟩ => List.not_mem_nil hbad⟩
  | cons fd fds ih => rw [List.foldl_cons,ih,mem_visitFd,or_assoc,List.exists_mem_cons_iff]

/-- A process adds the files that it has open for writing. -/
theorem mem_visitPid (h : visitPid system found pid=some next) :
    id∈next.writers ↔ id∈found.writers ∨ Writes system id pid := by
  obtain ⟨r,hlisted,rfl⟩ := Option.map_eq_some_iff.mp h
  cases r with
  | error e =>
    refine ⟨.inl,fun h => h.resolve_right ?_⟩
    rintro ⟨fds,hfds,_⟩
    cases hlisted.symm.trans hfds
  | ok fds =>
    refine (mem_visitFds fds).trans (or_congr_right ⟨fun h => ⟨fds,hlisted,h⟩,?_⟩)
    rintro ⟨fds',hfds,h⟩
    obtain rfl := Except.ok.inj (Option.some.inj (hlisted.symm.trans hfds))
    exact h

/-- So do all processes. -/
theorem mem_visitPids {pids : List ℤ} (h : pids.foldlM (visitPid system) found=some next) :
    id∈next.writers ↔ id∈found.writers ∨ ∃ pid∈pids, Writes system id pid := by
  induction pids generalizing found with
  | nil =>
    obtain rfl := Option.some.inj h
    exact ⟨.inl,fun h => h.resolve_right fun ⟨_,hbad,_⟩ => List.not_mem_nil hbad⟩
  | cons pid pids ih =>
    rw [List.foldlM_cons] at h
    obtain ⟨visited,hvisit,hrest⟩ := Option.bind_eq_some_iff.mp h
    rw [ih hrest,mem_visitPid hvisit,or_assoc,List.exists_mem_cons_iff]

/-- A collection finds exactly the files that a process that is listed has open for writing. -/
theorem mem_collectOpenWriters (h : collectOpenWriters system=some (.ok writers)) :
    id∈writers ↔ HasWriter system id := by
  obtain ⟨r,hlisted,h⟩ := Option.bind_eq_some_iff.mp h
  cases r with
  | error e => cases h
  | ok pids =>
    obtain ⟨found,hvisited,h⟩ := Option.map_eq_some_iff.mp h
    by_cases hnone : found.inspectedVnodes=0
    · rw [if_pos hnone] at h
      cases h
    · rw [if_neg hnone] at h
      obtain rfl := Except.ok.inj h
      rw [mem_visitPids hvisited]
      constructor
      · rintro (hbad|h)
        · exact absurd hbad (Finset.notMem_empty id)
        · exact ⟨pids,hlisted,h⟩
      · rintro ⟨pids',hpids,h⟩
        obtain rfl := Except.ok.inj (Option.some.inj (hlisted.symm.trans hpids))
        exact .inr h

/-- A collection succeeds, and each table that it goes through is the whole one at one call. -/
structure Collected (system : Libproc) : Prop where
  /-- It finds the files that are open for writing. -/
  found : ∃ writers, collectOpenWriters system=some (.ok writers)
  /-- The table of processes. -/
  pids : ∃ pids, listPids system.pids=some (.ok pids) ∧
    ∃ reply∈system.pids, reply.entries=.ok pids
  /-- The tables of descriptors, for the processes that let these be listed. -/
  fds (pid : ℤ) (fds : List ProcFdInfo) : listFds (system.fds pid)=some (.ok fds)→
    ∃ reply∈system.fds pid, reply.entries=.ok fds

/-- A collection that succeeds has gone through whole tables. -/
theorem collected_of_found (h : collectOpenWriters system=some (.ok writers)) :
    Collected system := by
  refine ⟨⟨writers,h⟩,?_,fun pid fds hfds => list_whole hfds⟩
  obtain ⟨r,hlisted,h⟩ := Option.bind_eq_some_iff.mp h
  cases r with
  | error e => cases h
  | ok pids => exact ⟨pids,hlisted,list_whole hlisted⟩

end Collecting

section Answers
variable {text : ErrorKind→String} {past : List Call} {last : Option Snapshot} {call : Call}
  {snapshot : Snapshot}

/-- An answer tells what one collection has found about a file, or why this has failed. -/
def Tells (text : ErrorKind→String) (system : Libproc) (metadata : Metadata) :
    Except IoError Bool→Prop
  | .ok writer => Collected system ∧
    (writer=true ↔ HasWriter system (FileId.fromMetadata metadata))
  | .error e => ∃ reason, collectOpenWriters system=some (.error reason) ∧
      e=.new .other (errorText text reason)

/-- A snapshot tells what its call has found. -/
theorem tells_of_collect (h : call.collect text=some snapshot) (metadata : Metadata) :
    Tells text call.system metadata (snapshot.answer metadata) := by
  obtain ⟨r,hcollect,rfl⟩ := Option.map_eq_some_iff.mp h
  cases r with
  | ok writers =>
    exact ⟨collected_of_found hcollect,
      decide_eq_true_iff.trans (mem_collectOpenWriters hcollect)⟩
  | error reason => exact ⟨reason,hcollect,rfl⟩

/-- A call does not find a snapshot that is recent. -/
def Outdated (last : Option Snapshot) (call : Call) : Prop :=
  ∀ old, last=some old → refreshInterval≤call.checkedAt-old.collectedAt

/-- After these calls a call asks libproc itself. -/
def Collects (text : ErrorKind→String) (past : List Call) (call : Call) : Prop :=
  ∃ last, snapshotAfter text past=some last ∧ Outdated last call

/-- The snapshot that is looked into is the last one, which is recent, or the one of this call. -/
theorem refresh_cases (h : refresh text last call=some snapshot) :
    last=some snapshot ∧ call.checkedAt-snapshot.collectedAt<refreshInterval ∨
      Outdated last call ∧ call.collect text=some snapshot := by
  unfold refresh at h
  cases last with
  | none =>
    refine .inr ⟨fun old hbad => ?_,h⟩
    cases hbad
  | some old =>
    dsimp only at h
    by_cases hold : refreshInterval≤call.checkedAt-old.collectedAt
    · rw [if_pos hold] at h
      refine .inr ⟨fun found hfound => ?_,h⟩
      obtain rfl := Option.some.inj hfound
      exact hold
    · rw [if_neg hold] at h
      obtain rfl := Option.some.inj h
      exact .inl ⟨rfl,Nat.lt_of_not_le hold⟩

/-- One more call. -/
theorem snapshotAfter_append (past : List Call) (call : Call) :
    snapshotAfter text (past++[call])=(snapshotAfter text past).bind fun last =>
      (hasWriter text last call).map fun r => some r.2 := by
  unfold snapshotAfter
  rw [List.foldlM_append]
  refine congrArg (Option.bind _) (funext fun last => ?_)
  rw [List.foldlM_cons]
  exact bind_pure _

/-- The last snapshot is that of one of the calls that have collected. -/
theorem snapshotAfter_collected (h : snapshotAfter text past=some (some snapshot)) :
    ∃ before source later, past=before++source::later ∧ Collects text before source ∧
      source.collect text=some snapshot := by
  induction past using List.reverseRecOn generalizing snapshot with
  | nil => cases h
  | append_singleton past call ih =>
    rw [snapshotAfter_append] at h
    obtain ⟨last,hlast,h⟩ := Option.bind_eq_some_iff.mp h
    obtain ⟨r,hr,heq⟩ := Option.map_eq_some_iff.mp h
    obtain ⟨looked,hlooked,rfl⟩ := Option.map_eq_some_iff.mp hr
    obtain rfl := Option.some.inj heq
    rcases refresh_cases hlooked with ⟨rfl,_⟩|⟨hold,hcollect⟩
    · obtain ⟨before,source,later,rfl,hcollects,hsource⟩ := ih hlast
      refine ⟨before,source,later++[call],?_,hcollects,hsource⟩
      rw [List.append_assoc,List.cons_append]
    · exact ⟨past,call,[],rfl,⟨last,hlast,hold⟩,hcollect⟩

/-- A snapshot has the time after its collection. -/
theorem collectedAt_of_collect (h : call.collect text=some snapshot) :
    snapshot.collectedAt=call.collectedAt := by
  obtain ⟨r,_,rfl⟩ := Option.map_eq_some_iff.mp h
  rfl

/-- A call looks into its own collection or into a recent one of an earlier call. -/
def LooksInto (text : ErrorKind→String) (past : List Call) (call source : Call) : Prop :=
  source=call ∧ Collects text past call ∨
    ∃ before later, past=before++source::later ∧ Collects text before source ∧
      call.checkedAt-source.collectedAt<refreshInterval

/-- The answer of a call is that of a recent collection or of its own. -/
theorem tells_of_hasWriter (hpast : snapshotAfter text past=some last)
    {answer : Except IoError Bool} (h : hasWriter text last call=some (answer,snapshot)) :
    ∃ source, LooksInto text past call source ∧
      Tells text source.system call.metadata answer := by
  obtain ⟨looked,hlooked,heq⟩ := Option.map_eq_some_iff.mp h
  obtain ⟨rfl,rfl⟩ := Prod.mk.inj heq
  rcases refresh_cases hlooked with ⟨rfl,hrecent⟩|⟨hold,hcollect⟩
  · obtain ⟨before,source,later,hsplit,hcollects,hsource⟩ := snapshotAfter_collected hpast
    rw [collectedAt_of_collect hsource] at hrecent
    exact ⟨source,.inr ⟨before,later,hsplit,hcollects,hrecent⟩,
      tells_of_collect hsource call.metadata⟩
  · exact ⟨call,.inl ⟨rfl,last,hpast,hold⟩,tells_of_collect hcollect call.metadata⟩

end Answers

section Guard
variable {original : Metadata} {w w' : World} {first second : Turn} {turns : List Turn}

/-- The check for writers gives an answer at this turn. -/
def Gives (answer : Except IoError Bool) (turn : Turn) : Prop :=
  match answer with
  | .ok writer => turn.failure=none ∧ turn.writer=writer
  | .error e => turn.failure=some (.error e)

/-- Looking up the path takes one turn. -/
theorem lookup_turns {inode : Inode} (hturns : w.turns=first::turns)
    (h : lookup w=.ok inode w') : w'.turns=turns := by
  obtain ⟨turn,s,hturn,h⟩ := bind_ok_iff.mp h
  unfold nextTurn at hturn
  rw [hturns] at hturn
  cases hturn
  obtain ⟨v,t,hget,h⟩ := bind_ok_iff.mp h
  cases hget
  dsimp only at h
  cases hfailure : first.failure with
  | some fault =>
    rw [hfailure] at h
    cases h
  | none =>
    cases hinode : (first.change.getD w.path).inode with
    | none =>
      rw [hfailure,hinode] at h
      cases h
    | some found =>
      rw [hfailure,hinode] at h
      cases h
      rfl

/-- Comparing the source takes one turn. -/
theorem currentSource_turns {reason : Option SkipReason} (hturns : w.turns=first::turns)
    (h : currentSource original w=.ok reason w') : w'.turns=turns := by
  obtain ⟨inode,s,hlookup,h⟩ := bind_ok_iff.mp h
  have hs := lookup_turns hturns hlookup
  by_cases hprotected : isProtected inode.metadata
  · rw [if_pos hprotected] at h
    cases h
    exact hs
  · rw [if_neg hprotected] at h
    obtain ⟨_,t,hsame,h⟩ := bind_ok_iff.mp h
    obtain ⟨_,u,hrecord,h⟩ := bind_ok_iff.mp h
    cases h
    cases hrecord
    unfold ensure at hsame
    split at hsame
    · cases hsame
      exact hs
    · cases hsame

/-- The guard only passes a source when the check for writers has found none. -/
theorem noWriter_of_passed {answer : Except IoError Bool} (hturns : w.turns=first::second::turns)
    (hgives : Gives answer second) (h : beforePublish original w=.ok none w') : answer=.ok false := by
  obtain ⟨reason,s,hfirst,h⟩ := bind_ok_iff.mp h
  have hs := currentSource_turns hturns hfirst
  cases reason with
  | some reason => cases h
  | none =>
    obtain ⟨given,t,hgiven,h⟩ := bind_ok_iff.mp h
    obtain ⟨turn,u,hturn,hgiven⟩ := bind_ok_iff.mp hgiven
    unfold nextTurn at hturn
    rw [hs] at hturn
    cases hturn
    cases answer with
    | error e =>
      rw [Gives] at hgives
      rw [hgives] at hgiven
      cases hgiven
      cases h
    | ok writer =>
      obtain ⟨hnone,rfl⟩ := hgives
      rw [hnone] at hgiven
      cases hgiven
      cases hwriter : second.writer with
      | false => rfl
      | true =>
        rw [hwriter] at h
        cases h

/-- When the guard passes a source, a collection less than the refresh interval ago, or one of its
own, has succeeded and not seen a listed process that had the file open for writing. -/
theorem passed_unwritten {text : ErrorKind→String} {past : List Call} {last : Option Snapshot}
    {call : Call} {answer : Except IoError Bool} {snapshot : Snapshot}
    (hpast : snapshotAfter text past=some last)
    (hanswer : hasWriter text last call=some (answer,snapshot))
    (hturns : w.turns=first::second::turns) (hgives : Gives answer second)
    (h : beforePublish call.metadata w=.ok none w') :
    ∃ source, LooksInto text past call source ∧ Collected source.system ∧
      ¬HasWriter source.system (FileId.fromMetadata call.metadata) := by
  obtain rfl := noWriter_of_passed hturns hgives h
  obtain ⟨source,hsource,hcollected,hwriter⟩ := tells_of_hasWriter hpast hanswer
  exact ⟨source,hsource,hcollected,fun hbad => Bool.false_ne_true (hwriter.mpr hbad)⟩

end Guard

end Applesauce.OpenWriters
