import Applesauce.FolderInfo
import Applesauce.XattrRead

/-!
# Listing the names of attributes that change

The names are listed by a query of their size and a call with a buffer of at
least that size, and both are repeated while the names have outgrown the
buffer. Other processes may add and remove attributes between any two calls.
Unlike a value, what is returned is cut down to what the last call has put
there, so the names that are passed on are those of one moment. The information
about a file is collected by a callback for these names.
-/

namespace Applesauce.XattrNames

open RustIo FolderInfo XattrRead
open SourceGuard (ufCompressed)

section Model

/-- The name of an attribute, which ends where its terminator is. -/
structure Name where
  /-- The bytes before the terminator. -/
  bytes : List UInt8
  /-- There is no other terminator. -/
  unterminated : 0∉bytes
  deriving DecidableEq

/-- The attributes at the time of one call. -/
inductive Listing where
  | names (names : List Name)
  /-- `ENOTSUP` or `EPERM`. -/
  | unsupported (kind : ErrorKind)
  /-- The call fails for a reason of its own. -/
  | fails (kind : ErrorKind)
  deriving DecidableEq

/-- Why `list_xattr` returned a negative number. -/
inductive Errno where
  | unsupported (kind : ErrorKind)
  /-- `ERANGE`: the names exceed the buffer. -/
  | range
  | other (kind : ErrorKind)
  deriving DecidableEq

/-- The names one behind the other, each with its terminator. -/
def nameBytes : List Name→List UInt8
  | [] => []
  | name::names => name.bytes++0::nameBytes names

/-- `list_xattr`: the buffer behind the call and the return code. A buffer of no bytes asks for
the size. -/
def listXattr (listing : Listing) (buf : List UInt8) : Except Errno (List UInt8×ℕ) :=
  match listing with
  | .names names =>
    if buf.length=0 then .ok (buf,(nameBytes names).length)
    else if buf.length<(nameBytes names).length then .error .range
    else .ok (nameBytes names++buf.drop (nameBytes names).length,(nameBytes names).length)
  | .unsupported kind => .error (.unsupported kind)
  | .fails kind => .error (.other kind)

/-- `io::Error::last_os_error` of a call that is not retried. -/
def lastOsError : Errno→Fault
  | .unsupported kind => .error (.ofKind kind)
  | .range => .error (.ofKind .other)
  | .other kind => .error (.ofKind kind)

/-- The loop of `raw_names` over the attributes at each of the coming calls; without a result it
has not returned after these. -/
def rawNames : List Listing→List UInt8→Option (Except Fault (List UInt8))
  | [],_ => none
  | query::states,buf =>
    match listXattr query [] with
    | .error (.unsupported _) => some (.ok [])
    | .error errno => some (.error (lastOsError errno))
    | .ok (_,size) =>
      let buf := if buf.length<size then resize buf size else buf
      match states with
      | [] => none
      | state::states =>
        match listXattr state buf with
        | .error .range => rawNames states buf
        | .error errno => some (.error (lastOsError errno))
        | .ok (buf,size) => some (.ok (buf.take size))

/-- `memchr`. -/
def memchr (needle : UInt8) : List UInt8→Option ℕ
  | [] => none
  | b::bs => if b=needle then some 0 else (memchr needle bs).map fun n => n+1

/-- The error of names without a terminator. -/
def unterminatedError : IoError := .new .other "expected null terminator in xattr names"

variable {σ : Type}

/-- The loop of `with_names`. -/
def eachName (f : List UInt8→Io σ Unit) (rawBuf : List UInt8) : Io σ Unit :=
  if rawBuf.length=0 then pure ()
  else match memchr 0 rawBuf with
    | none => fail unterminatedError
    | some nextEnd => do
      f (rawBuf.take nextEnd)
      eachName f (rawBuf.drop (nextEnd+1))
  termination_by rawBuf.length
  decreasing_by
    rw [List.length_drop]
    omega

/-- `with_names`, if it has returned from listing the names. -/
def withNames (states : List Listing) (f : List UInt8→Io σ Unit) : Option (Io σ Unit) :=
  (rawNames states []).map fun r => match r with
    | .ok rawBuf => eachName f rawBuf
    | .error e => throw e

end Model

section Names
variable {σ : Type}

/-- Call a function for one name after the other, up to the first failure. -/
def callEach (f : List UInt8→Io σ Unit) : List Name→Io σ Unit
  | [] => pure ()
  | name::names => do
    f name.bytes
    callEach f names

/-- A terminator is found behind what has none. -/
theorem memchr_append {needle : UInt8} {name : List UInt8} (h : needle∉name) (rest : List UInt8) :
    memchr needle (name++needle::rest)=some name.length := by
  induction name with
  | nil => exact if_pos rfl
  | cons b bs ih =>
    have hfirst : b≠needle := fun hbad => h (hbad ▸ List.mem_cons_self)
    have hrest : needle∉bs := fun hbad => h (List.mem_cons_of_mem b hbad)
    rw [List.cons_append,memchr,if_neg hfirst,ih hrest]
    rfl

/-- Names are split where they were joined. -/
theorem eachName_nameBytes (f : List UInt8→Io σ Unit) (names : List Name) :
    eachName f (nameBytes names)=callEach f names := by
  induction names with
  | nil =>
    rw [eachName]
    rfl
  | cons name names ih =>
    have hlength : (name.bytes++0::nameBytes names).length≠0 := by
      rw [List.length_append,List.length_cons]
      omega
    rw [nameBytes,eachName,if_neg hlength,memchr_append name.unterminated]
    dsimp only
    rw [List.take_left' rfl,←List.drop_drop,List.drop_left' rfl,List.drop_one,List.tail_cons,ih]
    rfl

/-- A name has its terminator at least. -/
theorem nameBytes_length_eq_zero {names : List Name} (h : (nameBytes names).length=0) :
    names=[] := by
  cases names with
  | nil => rfl
  | cons name names =>
    rw [nameBytes,List.length_append,List.length_cons] at h
    omega

end Names

section Snapshots
variable {σ : Type} {states : List Listing}

/-- What the attributes were at one of the calls. -/
inductive Snapshot (states : List Listing) : Except Fault (List Name)→Prop where
  /-- They had these names. -/
  | names {names : List Name} (h : .names names∈states) : Snapshot states (.ok names)
  /-- There is no support for attributes, and so there are none. -/
  | unsupported {kind : ErrorKind} (h : .unsupported kind∈states) : Snapshot states (.ok [])
  /-- The call failed. -/
  | failed {kind : ErrorKind} (h : .unsupported kind∈states ∨ .fails kind∈states) :
    Snapshot states (.error (.error (.ofKind kind)))

/-- A moment of later calls is one of all. -/
theorem Snapshot.mono {more : List Listing} {snapshot : Except Fault (List Name)}
    (h : Snapshot states snapshot) (hsub : ∀ listing∈states, listing∈more) :
    Snapshot more snapshot := by
  cases h with
  | names h => exact .names (hsub _ h)
  | unsupported h => exact .unsupported (hsub _ h)
  | failed h => exact .failed (h.imp (hsub _) (hsub _))

/-- In every turn the names grow between the query and the call behind it. -/
def AllGrow : List Listing→Prop
  | query::state::states => (∃ names more, query=.names names ∧ state=.names more ∧
      (nameBytes names).length<(nameBytes more).length) ∧ AllGrow states
  | _ => True

/-- A turn: it returns what one of its calls has found, or the names have outgrown the buffer. -/
theorem rawNames_turn (query state : Listing) (states : List Listing) (buf : List UInt8) :
    (∃ snapshot, Snapshot [query,state] snapshot ∧
      rawNames (query::state::states) buf=some (snapshot.map nameBytes)) ∨
    ∃ names more grown, query=.names names ∧ state=.names more ∧
      (nameBytes names).length<(nameBytes more).length ∧
      rawNames (query::state::states) buf=rawNames states grown := by
  have hquery : query∈[query,state] := List.mem_cons_self
  have hstate : state∈[query,state] := List.mem_cons_of_mem _ List.mem_cons_self
  cases query with
  | unsupported kind => exact .inl ⟨_,.unsupported hquery,rfl⟩
  | fails kind => exact .inl ⟨_,.failed (.inr hquery),rfl⟩
  | names names =>
    obtain ⟨grown,hgrown⟩ : ∃ grown, grown=if buf.length<(nameBytes names).length then
      resize buf (nameBytes names).length else buf := ⟨_,rfl⟩
    have hlength := grown_length buf (nameBytes names).length
    rw [←hgrown] at hlength
    have hturn : rawNames (.names names::state::states) buf=
        match listXattr state grown with
        | .error .range => rawNames states grown
        | .error errno => some (.error (lastOsError errno))
        | .ok (buf,size) => some (.ok (buf.take size)) := by
      rw [hgrown]
      rfl
    rw [hturn]
    cases state with
    | unsupported kind => exact .inl ⟨_,.failed (.inl hstate),rfl⟩
    | fails kind => exact .inl ⟨_,.failed (.inr hstate),rfl⟩
    | names more =>
      have hcall : listXattr (.names more) grown=
          if grown.length=0 then .ok (grown,(nameBytes more).length)
          else if grown.length<(nameBytes more).length then .error .range
          else .ok (nameBytes more++grown.drop (nameBytes more).length,(nameBytes more).length) :=
        rfl
      rw [hcall]
      by_cases hempty : grown.length=0
      · -- The query has found nothing, and without a buffer nothing is put anywhere.
        rw [if_pos hempty,List.length_eq_zero_iff.mp hempty]
        have hnone : names=[] := nameBytes_length_eq_zero (by omega)
        subst hnone
        exact .inl ⟨_,.names hquery,congrArg (fun xs => some (Except.ok xs)) List.take_nil⟩
      · rw [if_neg hempty]
        by_cases hrange : grown.length<(nameBytes more).length
        · rw [if_pos hrange]
          exact .inr ⟨names,more,grown,rfl,rfl,by omega,rfl⟩
        · rw [if_neg hrange]
          exact .inl ⟨_,.names hstate,congrArg (fun xs => some (Except.ok xs)) (List.take_left' rfl)⟩

/-- The loop returns what one of its calls has found, at the latest in the first turn in which the
names do not grow. -/
theorem rawNames_snapshot (states : List Listing) (buf : List UInt8) :
    (rawNames states buf=none → AllGrow states) ∧ ∀ r, rawNames states buf=some r →
      ∃ snapshot, Snapshot states snapshot ∧ r=snapshot.map nameBytes := by
  induction states using List.twoStepInduction generalizing buf with
  | nil => exact ⟨fun _ => trivial,fun r hbad => by cases hbad⟩
  | singleton query =>
    refine ⟨fun _ => trivial,fun r hr => ?_⟩
    cases query with
    | unsupported kind =>
      obtain rfl := Option.some.inj hr
      exact ⟨_,.unsupported List.mem_cons_self,rfl⟩
    | fails kind =>
      obtain rfl := Option.some.inj hr
      exact ⟨_,.failed (.inr List.mem_cons_self),rfl⟩
    | names names => cases hr
  | cons_cons query state states ih =>
    rcases rawNames_turn query state states buf with
      ⟨snapshot,hsnapshot,hresult⟩|⟨names,more,grown,hquery,hstate,hgrows,hresult⟩
    · rw [hresult]
      refine ⟨fun hbad => (by cases hbad),fun r hr => ⟨snapshot,hsnapshot.mono fun listing hl => ?_,
        (Option.some.inj hr).symm⟩⟩
      rcases List.mem_cons.mp hl with rfl|hl
      · exact List.mem_cons_self
      · exact List.mem_cons_of_mem _ (List.mem_singleton.mp hl ▸ List.mem_cons_self)
    · rw [hresult]
      obtain ⟨hnone,hsome⟩ := ih grown
      refine ⟨fun h => ⟨⟨names,more,hquery,hstate,hgrows⟩,hnone h⟩,fun r hr => ?_⟩
      obtain ⟨snapshot,hsnapshot,hmap⟩ := hsome r hr
      exact ⟨snapshot,hsnapshot.mono fun listing hl =>
        List.mem_cons_of_mem _ (List.mem_cons_of_mem _ hl),hmap⟩

/-- The callback is called for the names of one moment, or the error of a call is returned. -/
theorem withNames_snapshot {f : List UInt8→Io σ Unit} {program : Io σ Unit}
    (h : withNames states f=some program) :
    ∃ snapshot, Snapshot states snapshot ∧ program=match snapshot with
      | .ok names => callEach f names
      | .error e => throw e := by
  obtain ⟨r,hr,rfl⟩ := Option.map_eq_some_iff.mp h
  obtain ⟨snapshot,hsnapshot,rfl⟩ := (rawNames_snapshot states []).2 r hr
  refine ⟨snapshot,hsnapshot,?_⟩
  cases snapshot with
  | ok names => exact eachName_nameBytes f names
  | error e => rfl

/-- However the attributes change while they are listed, the callback is called for exactly the
names of one moment, in order and up to its first failure, or the error of a call is returned and
it is not called; a missing terminator is never found. Listing ends at the latest when the names do
not grow between a query and the call behind it. -/
theorem names_of_one_moment (states : List Listing) (f : List UInt8→Io σ Unit) :
    (withNames states f=none → AllGrow states) ∧ ∀ program, withNames states f=some program →
      ∃ snapshot, Snapshot states snapshot ∧ program=match snapshot with
        | .ok names => callEach f names
        | .error e => throw e :=
  ⟨fun h => (rawNames_snapshot states []).1 (Option.map_eq_none_iff.mp h),
    fun _ hprogram => withNames_snapshot hprogram⟩

/-- An attribute is added between the calls of the first turn, and another one is removed between
those of the second. -/
theorem names_of_one_moment_changed :
    let one : Name := ⟨[1],by decide⟩
    let two : Name := ⟨[2],by decide⟩
    let states : List Listing := [.names [one],.names [one,two],.names [one,two],.names [two]]
    ∃ program, withNames states (fun _ => (pure () : Io Unit Unit))=some program ∧
      ∃ snapshot, Snapshot states snapshot ∧ program=match snapshot with
        | .ok names => callEach (fun _ => pure ()) names
        | .error e => throw e := by
  intro one two states
  have hreturns : (withNames states (fun _ => (pure () : Io Unit Unit))).isSome=true := by decide
  obtain ⟨program,hprogram⟩ := Option.isSome_iff_exists.mp hreturns
  exact ⟨program,hprogram,(names_of_one_moment states _).2 program hprogram⟩

end Snapshots

section FileInfo
variable {build : Build} {entry : Entry} {text : List UInt8→String}

/-- The callback of `get`. It compares the names and prints them, and for both they are taken as
text. -/
def infoCallback (build : Build) (entry : Entry) (text : List UInt8→String)
    (xattrName : List UInt8) : Io Xattrs Unit := fun xattrs =>
  match visitXattr build entry xattrs (text xattrName) with
  | .ok xattrs => .ok () xattrs
  | .error e => .error e xattrs

/-- The variables of the callback behind a program, if it succeeds. -/
def leaves {σ : Type} (program : Io σ Unit) (s : σ) : Except Fault σ :=
  match program s with
  | .ok _ s => .ok s
  | .error e _ => .error e

/-- `get`, with the program that lists the names. -/
def getListed (build : Build) (entry : Entry) (program : Io Xattrs Unit) :
    Except Fault AfscFileInfo := do
  let stat ← question (entry.stat.answer entry.pathFailure)
  let onDiskSize ← stat.onDiskSize build
  let xattrs ← leaves program ⟨0,0,none,none⟩
  pure
    { isCompressed := stat.inode.metadata.flags &&& ufCompressed==ufCompressed
      onDiskSize := onDiskSize
      statSize := stat.inode.metadata.len
      xattrCount := xattrs.xattrCount
      totalXattrSize := xattrs.totalXattrSize
      resourceForkSize := xattrs.resourceForkSize
      decmpfsInfo := xattrs.decmpfsInfo }

/-- Calling the callback for one name after the other is a fold over the names. -/
theorem leaves_callEach (names : List Name) (xattrs : Xattrs) :
    leaves (callEach (infoCallback build entry text) names) xattrs=
      (names.map fun name => text name.bytes).foldlM (visitXattr build entry) xattrs := by
  induction names generalizing xattrs with
  | nil => rfl
  | cons name names ih =>
    rw [List.map_cons,List.foldlM_cons]
    cases hvisit : visitXattr build entry xattrs (text name.bytes) with
    | ok visited =>
      have hcall : infoCallback build entry text name.bytes xattrs=.ok () visited := by
        rw [infoCallback,hvisit]
      have hprogram : leaves (callEach (infoCallback build entry text) (name::names)) xattrs=
          leaves (callEach (infoCallback build entry text) names) visited := by
        unfold leaves
        rw [callEach,bind_of_ok hcall]
      rw [hprogram,ih]
      rfl
    | error e =>
      have hcall : infoCallback build entry text name.bytes xattrs=.error e xattrs := by
        rw [infoCallback,hvisit]
      unfold leaves
      rw [callEach,bind_of_error hcall]
      rfl

/-- The information about a file whose attributes change while they are listed is the information
about a file with the names of one moment. -/
theorem getListed_snapshot {states : List Listing} {program : Io Xattrs Unit}
    (h : withNames states (infoCallback build entry text)=some program) :
    ∃ snapshot, Snapshot states snapshot ∧
      getListed build entry program=FolderInfo.get build {entry with
        xattrNames := snapshot.map fun names => names.map fun name => text name.bytes} := by
  obtain ⟨snapshot,hsnapshot,rfl⟩ := withNames_snapshot h
  refine ⟨snapshot,hsnapshot,?_⟩
  unfold getListed FolderInfo.get
  cases snapshot with
  | ok names =>
    rw [leaves_callEach]
    rfl
  | error e => rfl

end FileInfo

end Applesauce.XattrNames
