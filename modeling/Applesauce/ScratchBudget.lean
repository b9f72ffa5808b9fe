import Applesauce.RustIo
import Applesauce.TransitionSystem
import Mathlib.Algebra.BigOperators.Group.List.Basic

/-!
# The scratch budget

Threads reserve bytes of one budget, wait for room, shrink or drop what they
hold, and may stop the budget. Every critical section is one step; waiting
releases the lock, and a woken thread checks again. The used bytes are the
sum of the live reservations in every interleaving.
-/

namespace Applesauce.ScratchBudget

open RustIo TransitionSystem

/-- The data behind the mutex. -/
structure Usage where
  /-- Bytes handed out and not given back. -/
  bytes : ℕ
  /-- Set once, after an I/O failure. -/
  stopped : Bool
  deriving DecidableEq,Repr

/-- The refusal of a request that can never fit. -/
def limitError (bytes limit : ℕ) : IoError :=
  .new .invalidInput s!"file requires a scratch reservation of {bytes} bytes, exceeding the {limit} byte scratch limit; increase --scratch-limit"

/-- The refusal of every request after a stop. -/
def stoppedError : IoError := .new .other "scratch staging stopped after an I/O failure"

/-- The refusal of an empty budget. -/
def zeroLimitError : IoError := .new .invalidInput "scratch limit must be greater than zero"

/-- One pass of the loop of `Budget::reserve` under the lock: granted, or wait. -/
def tryReserve (limit bytes : ℕ) : Io Usage Bool := do
  let used ← get
  if used.stopped then fail stoppedError
  else
    let room ← subU64 limit used.bytes
    if room<bytes then pure false
    else
      let total ← addU64 used.bytes bytes
      set {used with bytes := total}
      pure true

/-- Give bytes back: the subtraction of `shrink_to` and of the drop. -/
def release (bytes : ℕ) : Io Usage Unit := do
  let used ← get
  let left ← subU64 used.bytes bytes
  set {used with bytes := left}

/-- What became of a call of `Budget::reserve`. -/
inductive Phase where
  /-- About to take the lock and check. -/
  | checking
  /-- Waiting on the condition variable. -/
  | waiting
  /-- Returned a reservation. -/
  | granted (reservation : ℕ)
  /-- Returned an error. -/
  | refused (error : IoError)
  deriving DecidableEq,Repr

/-- A call of `Budget::reserve` on some thread. -/
structure Request where
  /-- The bytes asked for. -/
  bytes : ℕ
  /-- How far the call has come. -/
  phase : Phase
  deriving DecidableEq,Repr

/-- A budget, the calls made on it and the reservations handed out. -/
structure State where
  /-- The largest total. -/
  limit : ℕ
  /-- The data behind the mutex. -/
  used : Usage
  /-- Every call of `reserve`, in the order of the calls. -/
  requests : List Request
  /-- The size of every reservation in the order of the grants, until it is dropped. -/
  reservations : List (Option ℕ)
  /-- The panic of an operation that underflowed or overflowed. -/
  fault : Option String
  deriving DecidableEq,Repr

/-- `Scratch::budget`. -/
def State.new (limit : ℕ) : Except IoError State :=
  if limit=0 then .error zeroLimitError else .ok ⟨limit,⟨0,false⟩,[],[],none⟩

/-- The total of the live reservations. -/
def liveBytes (reservations : List (Option ℕ)) : ℕ := (reservations.map (fun r => r.getD 0)).sum

/-- A woken request checks again. -/
def Request.wake (r : Request) : Request :=
  match r.phase with
  | .waiting => {r with phase := .checking}
  | _ => r

/-- `Condvar::notify_all`. -/
def State.notifyAll (s : State) : State := {s with requests := s.requests.map Request.wake}

/-- A critical section: a panic inside it is recorded. -/
def State.locked {α : Type} (s : State) (op : Io Usage α) (next : Except IoError α→State→State) :
    State :=
  match op s.used with
  | .ok a used => next (.ok a) {s with used := used}
  | .error (.error e) used => next (.error e) {s with used := used}
  | .error (.panic message) used => {s with used := used, fault := some message}

/-- The steps of any number of threads. -/
inductive Event where
  /-- A thread calls `reserve`. -/
  | reserve (bytes : ℕ)
  /-- A call holds the lock at the loop condition. -/
  | check (request : ℕ)
  /-- The condition variable returns without a notification. -/
  | wake (request : ℕ)
  /-- The owner of a reservation calls `shrink_to`. -/
  | shrinkTo (reservation bytes : ℕ)
  /-- The owner of a reservation drops it. -/
  | drop (reservation : ℕ)
  /-- Some thread calls `stop`. -/
  | stop
  deriving DecidableEq,Repr

/-- The loop of `reserve` after its check: return the grant or the error, or wait. -/
def State.checked (request bytes : ℕ) : Except IoError Bool→State→State
  | .ok true,s =>
    {s with
      requests := s.requests.set request ⟨bytes,.granted s.reservations.length⟩
      reservations := s.reservations++[some bytes]}
  | .ok false,s => {s with requests := s.requests.set request ⟨bytes,.waiting⟩}
  | .error e,s => {s with requests := s.requests.set request ⟨bytes,.refused e⟩}

/-- After bytes were given back, the reservation has its new size and everyone is woken. -/
def State.released (reservation : ℕ) (size : Option ℕ) : Except IoError Unit→State→State
  | .ok _,s => State.notifyAll {s with reservations := s.reservations.set reservation size}
  | .error _,s => s

/-- One step of one thread. A failed assertion of `shrink_to` changes nothing;
a panic under the lock ends the run. -/
def step (s : State) (e : Event) : Option State :=
  if s.fault≠none then none else
  match e with
  | .reserve bytes =>
    if s.limit<bytes then
      some {s with requests := s.requests++[⟨bytes,.refused (limitError bytes s.limit)⟩]}
    else some {s with requests := s.requests++[⟨bytes,.checking⟩]}
  | .check request =>
    match s.requests[request]? with
    | some ⟨bytes,.checking⟩ => some (s.locked (tryReserve s.limit bytes) (.checked request bytes))
    | _ => none
  | .wake request =>
    match s.requests[request]? with
    | some r => some {s with requests := s.requests.set request r.wake}
    | none => none
  | .shrinkTo reservation bytes =>
    match s.reservations[reservation]? with
    | some (some size) =>
      if size<bytes then some s
      else some (s.locked (release (size-bytes)) (.released reservation (some bytes)))
    | _ => none
  | .drop reservation =>
    match s.reservations[reservation]? with
    | some (some size) => some (s.locked (release size) (.released reservation none))
    | _ => none
  | .stop => some (State.notifyAll {s with used := {s.used with stopped := true}})

section Operations

/-- The three answers of a check inside the limit. -/
theorem tryReserve_cases {limit bytes : ℕ} {used : Usage} (hlimit : limit≤u64Max)
    (hused : used.bytes≤limit) :
    (used.stopped=true ∧ tryReserve limit bytes used=.error (.error stoppedError) used) ∨
      (used.stopped=false ∧ limit-used.bytes<bytes ∧
        tryReserve limit bytes used=.ok false used) ∨
      (used.stopped=false ∧ used.bytes+bytes≤limit ∧
        tryReserve limit bytes used=.ok true {used with bytes := used.bytes+bytes}) := by
  have hget : (get : Io Usage Usage) used=.ok used used := rfl
  unfold tryReserve
  rw [bind_of_ok hget]
  cases hstop : used.stopped with
  | true => exact Or.inl ⟨rfl,rfl⟩
  | false =>
    refine Or.inr ?_
    rw [if_neg Bool.false_ne_true,bind_of_ok (subU64_of used hused)]
    by_cases hroom : limit-used.bytes<bytes
    · rw [if_pos hroom]
      exact Or.inl ⟨rfl,hroom,rfl⟩
    · have hfit : used.bytes+bytes≤limit := by omega
      rw [if_neg hroom,bind_of_ok (addU64_of used (hfit.trans hlimit))]
      exact Or.inr ⟨rfl,hfit,rfl⟩

/-- Giving back no more than is used. -/
theorem release_of {bytes : ℕ} {used : Usage} (h : bytes≤used.bytes) :
    release bytes used=.ok () {used with bytes := used.bytes-bytes} := by
  have hget : (get : Io Usage Usage) used=.ok used used := rfl
  unfold release
  rw [bind_of_ok hget,bind_of_ok (subU64_of used h)]
  rfl

/-- Changing one reservation changes the total by as much. -/
theorem liveBytes_set {reservations : List (Option ℕ)} {i : ℕ} {old : Option ℕ} (new : Option ℕ)
    (h : reservations[i]?=some old) :
    liveBytes (reservations.set i new)+old.getD 0=liveBytes reservations+new.getD 0 := by
  unfold liveBytes
  induction reservations generalizing i with
  | nil => cases h
  | cons r rs ih =>
    cases i with
    | zero =>
      obtain rfl := Option.some.inj h
      simp only [List.set_cons_zero,List.map_cons,List.sum_cons]
      omega
    | succ i =>
      have hrest := ih h
      simp only [List.set_cons_succ,List.map_cons,List.sum_cons]
      omega

/-- One more reservation adds its size. -/
theorem liveBytes_snoc (reservations : List (Option ℕ)) (bytes : ℕ) :
    liveBytes (reservations++[some bytes])=liveBytes reservations+bytes := by
  simp only [liveBytes,List.map_append,List.sum_append,List.map_cons,List.map_nil,List.sum_cons,
    List.sum_nil,Option.getD_some,Nat.add_zero]

/-- Nothing is live once every reservation has been dropped. -/
theorem liveBytes_of_dropped {reservations : List (Option ℕ)} (h : ∀ r∈reservations, r=none) :
    liveBytes reservations=0 := by
  refine List.sum_eq_zero ?_
  intro size hsize
  obtain ⟨r,hr,rfl⟩ := List.mem_map.mp hsize
  rw [h r hr]
  rfl

/-- A live reservation is part of the total. -/
theorem le_liveBytes {reservations : List (Option ℕ)} {i size : ℕ}
    (h : reservations[i]?=some (some size)) : size≤liveBytes reservations := by
  have hset := liveBytes_set none h
  simp only [Option.getD_some,Option.getD_none] at hset
  omega

end Operations

section Invariant

/-- What holds of one call: a request over the limit was refused, and a
waiting one could not be granted at this moment. -/
structure Request.Fits (limit : ℕ) (used : Usage) (r : Request) : Prop where
  overLimit : limit<r.bytes → r.phase=.refused (limitError r.bytes limit)
  wait : r.phase=.waiting → used.stopped=false ∧ limit-used.bytes<r.bytes

/-- The invariant of every run. -/
structure Accounted (limit : ℕ) (s : State) : Prop where
  /-- No operation underflowed or overflowed. -/
  fault : s.fault=none
  /-- The limit never changes. -/
  limit_eq : s.limit=limit
  /-- The used bytes are the live reservations. -/
  bytes : s.used.bytes=liveBytes s.reservations
  /-- They stay within the limit. -/
  le : s.used.bytes≤limit
  /-- Every call fits the state. -/
  requests : ∀ r∈s.requests, r.Fits limit s.used

/-- A fresh budget. -/
theorem new_accounted {limit : ℕ} {s : State} (h : State.new limit=.ok s) : Accounted limit s := by
  unfold State.new at h
  by_cases hzero : limit=0
  · rw [if_pos hzero] at h
    cases h
  · rw [if_neg hzero] at h
    obtain rfl := Except.ok.inj h
    exact ⟨rfl,rfl,rfl,Nat.zero_le _,fun r hr => (List.not_mem_nil hr).elim⟩

/-- Waking a request leaves nothing waiting. -/
theorem Request.Fits.wake {limit : ℕ} {used after : Usage} {r : Request} (h : r.Fits limit used) :
    r.wake.Fits limit after := by
  obtain ⟨bytes,phase⟩ := r
  cases phase with
  | waiting => exact ⟨fun hover => (by cases h.overLimit hover),nofun⟩
  | checking => exact ⟨h.overLimit,nofun⟩
  | granted reservation => exact ⟨h.overLimit,nofun⟩
  | refused e => exact ⟨h.overLimit,nofun⟩

/-- Notifying everyone fits any later usage. -/
theorem notifyAll_fits {limit : ℕ} {used after : Usage} {requests : List Request}
    (h : ∀ r∈requests, r.Fits limit used) :
    ∀ r∈requests.map Request.wake, r.Fits limit after := by
  intro r hr
  obtain ⟨old,hold,rfl⟩ := List.mem_map.mp hr
  exact (h old hold).wake

/-- More use keeps every waiting call waiting. -/
theorem Request.Fits.mono {limit : ℕ} {used after : Usage} {r : Request} (h : r.Fits limit used)
    (hstop : after.stopped=used.stopped) (hbytes : used.bytes≤after.bytes) :
    r.Fits limit after := by
  refine ⟨h.overLimit,fun hwait => ?_⟩
  obtain ⟨hs,hb⟩ := h.wait hwait
  exact ⟨hstop.trans hs,by omega⟩

/-- Replacing one call by one that fits. -/
theorem fits_set {limit : ℕ} {used after : Usage} {requests : List Request} {i : ℕ} {new : Request}
    (h : ∀ r∈requests, r.Fits limit used)
    (hmono : ∀ {r : Request}, r.Fits limit used → r.Fits limit after)
    (hnew : new.Fits limit after) : ∀ r∈requests.set i new, r.Fits limit after := by
  intro r hr
  rcases List.mem_or_eq_of_mem_set hr with hold|rfl
  · exact hmono (h r hold)
  · exact hnew

/-- A check keeps the accounts. -/
theorem accounted_check {limit request bytes : ℕ} {s : State} (hs : Accounted limit s)
    (hlimit : limit≤u64Max) (hrequest : s.requests[request]?=some ⟨bytes,.checking⟩) :
    Accounted limit (s.locked (tryReserve s.limit bytes) (.checked request bytes)) := by
  have hmem : (⟨bytes,.checking⟩ : Request)∈s.requests := List.mem_iff_getElem?.mpr ⟨request,hrequest⟩
  have hover : ¬limit<bytes := fun hlt => by cases (hs.requests _ hmem).overLimit hlt
  have hcases := @tryReserve_cases s.limit bytes s.used (by rw [hs.limit_eq]; exact hlimit)
    (by rw [hs.limit_eq]; exact hs.le)
  unfold State.locked
  rcases hcases with ⟨hstop,heq⟩|⟨hrun,hroom,heq⟩|⟨hrun,hfit,heq⟩
  · rw [heq]
    exact ⟨hs.fault,hs.limit_eq,hs.bytes,hs.le,
      fits_set hs.requests (fun h => h) ⟨fun hlt => (hover hlt).elim,nofun⟩⟩
  · rw [heq]
    rw [hs.limit_eq] at hroom
    exact ⟨hs.fault,hs.limit_eq,hs.bytes,hs.le,
      fits_set hs.requests (fun h => h) ⟨fun hlt => (hover hlt).elim,fun _ => ⟨hrun,hroom⟩⟩⟩
  · rw [heq]
    rw [hs.limit_eq] at hfit
    refine ⟨hs.fault,hs.limit_eq,?_,hfit,fits_set hs.requests
      (fun h => h.mono rfl (Nat.le_add_right _ _)) ⟨fun hlt => (hover hlt).elim,nofun⟩⟩
    dsimp only [State.checked]
    rw [liveBytes_snoc,hs.bytes]

/-- Giving back part or all of a reservation keeps the accounts. -/
theorem accounted_release {limit reservation size : ℕ} {s : State} (hs : Accounted limit s)
    (hlive : s.reservations[reservation]?=some (some size)) {new : Option ℕ}
    (hnew : new.getD 0≤ size) :
    Accounted limit (s.locked (release (size-new.getD 0)) (.released reservation new)) := by
  have hset := liveBytes_set new hlive
  have hsize := le_liveBytes hlive
  have hbytes := hs.bytes
  rw [Option.getD_some] at hset
  have hle : size-new.getD 0≤ s.used.bytes := by omega
  unfold State.locked
  rw [release_of hle]
  refine ⟨hs.fault,hs.limit_eq,?_,?_,notifyAll_fits hs.requests⟩
  · dsimp only [State.released,State.notifyAll]
    omega
  · have hlimit := hs.le
    dsimp only [State.released,State.notifyAll]
    omega

/-- Every step keeps the accounts. -/
theorem accounted_step {limit : ℕ} {s t : State} {e : Event} (hlimit : limit≤u64Max)
    (hs : Accounted limit s) (h : step s e=some t) : Accounted limit t := by
  unfold step at h
  rw [if_neg (not_not.mpr hs.fault)] at h
  cases e with
  | reserve bytes =>
    have hsnoc : ∀ {r : Request}, r.Fits limit s.used →
        ∀ other∈s.requests++[r], other.Fits limit s.used := by
      intro r hr other hother
      rcases List.mem_append.mp hother with hold|hnew
      · exact hs.requests other hold
      · rw [List.mem_singleton.mp hnew]
        exact hr
    dsimp only at h
    rw [hs.limit_eq] at h
    by_cases hover : limit<bytes
    · rw [if_pos hover] at h
      obtain rfl := Option.some.inj h
      exact ⟨hs.fault,rfl,hs.bytes,hs.le,hsnoc ⟨fun _ => rfl,nofun⟩⟩
    · rw [if_neg hover] at h
      obtain rfl := Option.some.inj h
      exact ⟨hs.fault,rfl,hs.bytes,hs.le,hsnoc ⟨fun hlt => (hover hlt).elim,nofun⟩⟩
  | check request =>
    dsimp only at h
    split at h
    case h_1 bytes hrequest =>
      obtain rfl := Option.some.inj h
      exact accounted_check hs hlimit hrequest
    case h_2 => cases h
  | wake request =>
    dsimp only at h
    split at h
    case h_1 r hr =>
      obtain rfl := Option.some.inj h
      have hfits := hs.requests r (List.mem_iff_getElem?.mpr ⟨request,hr⟩)
      exact ⟨hs.fault,hs.limit_eq,hs.bytes,hs.le,fits_set hs.requests (fun h => h) hfits.wake⟩
    case h_2 => cases h
  | shrinkTo reservation bytes =>
    dsimp only at h
    split at h
    case h_1 size hlive =>
      by_cases hassert : size<bytes
      · rw [if_pos hassert] at h
        obtain rfl := Option.some.inj h
        exact hs
      · rw [if_neg hassert] at h
        obtain rfl := Option.some.inj h
        exact @accounted_release limit reservation size s hs hlive (some bytes) (Nat.not_lt.mp hassert)
    case h_2 => cases h
  | drop reservation =>
    dsimp only at h
    split at h
    case h_1 size hlive =>
      obtain rfl := Option.some.inj h
      exact @accounted_release limit reservation size s hs hlive none (Nat.zero_le size)
    case h_2 => cases h
  | stop =>
    obtain rfl := Option.some.inj h
    exact ⟨hs.fault,hs.limit_eq,hs.bytes,hs.le,notifyAll_fits hs.requests⟩

/-- After a stop no step hands out a reservation, and the stop stays. -/
theorem stopped_step {limit count : ℕ} {s t : State} {e : Event} (hlimit : limit≤u64Max)
    (hs : Accounted limit s ∧ s.used.stopped=true ∧ s.reservations.length=count)
    (h : step s e=some t) :
    Accounted limit t ∧ t.used.stopped=true ∧ t.reservations.length=count := by
  obtain ⟨haccounts,hstop,hcount⟩ := hs
  refine ⟨accounted_step hlimit haccounts h,?_⟩
  have hrelease : ∀ {reservation size : ℕ} {new : Option ℕ} {amount : ℕ},
      amount≤ size → s.reservations[reservation]?=some (some size) →
      (s.locked (release amount) (.released reservation new)).used.stopped=true ∧
        (s.locked (release amount) (.released reservation new)).reservations.length=count := by
    intro reservation size new amount hamount hlive
    have hle := (hamount.trans (le_liveBytes hlive)).trans haccounts.bytes.ge
    unfold State.locked
    rw [release_of hle]
    dsimp only [State.released,State.notifyAll]
    rw [List.length_set]
    exact ⟨hstop,hcount⟩
  unfold step at h
  rw [if_neg (not_not.mpr haccounts.fault)] at h
  cases e with
  | reserve bytes =>
    dsimp only at h
    by_cases hover : s.limit<bytes
    · rw [if_pos hover] at h
      obtain rfl := Option.some.inj h
      exact ⟨hstop,hcount⟩
    · rw [if_neg hover] at h
      obtain rfl := Option.some.inj h
      exact ⟨hstop,hcount⟩
  | check request =>
    dsimp only at h
    split at h
    case h_1 bytes hrequest =>
      obtain rfl := Option.some.inj h
      unfold State.locked
      rw [haccounts.limit_eq]
      rcases @tryReserve_cases limit bytes s.used hlimit haccounts.le with
        ⟨_,heq⟩|⟨hrun,_⟩|⟨hrun,_⟩
      · rw [heq]
        exact ⟨hstop,hcount⟩
      · rw [hstop] at hrun
        cases hrun
      · rw [hstop] at hrun
        cases hrun
    case h_2 => cases h
  | wake request =>
    dsimp only at h
    split at h
    case h_1 r hr =>
      obtain rfl := Option.some.inj h
      exact ⟨hstop,hcount⟩
    case h_2 => cases h
  | shrinkTo reservation bytes =>
    dsimp only at h
    split at h
    case h_1 size hlive =>
      by_cases hassert : size<bytes
      · rw [if_pos hassert] at h
        obtain rfl := Option.some.inj h
        exact ⟨hstop,hcount⟩
      · rw [if_neg hassert] at h
        obtain rfl := Option.some.inj h
        exact hrelease (Nat.sub_le size bytes) hlive
    case h_2 => cases h
  | drop reservation =>
    dsimp only at h
    split at h
    case h_1 size hlive =>
      obtain rfl := Option.some.inj h
      exact hrelease (Nat.le_refl size) hlive
    case h_2 => cases h
  | stop =>
    obtain rfl := Option.some.inj h
    exact ⟨rfl,hcount⟩

end Invariant

section Runs

/-- The accounts hold in every reachable state. -/
theorem reachable_accounted {limit : ℕ} {s t : State} (hlimit : limit≤u64Max)
    (hnew : State.new limit=.ok s) (h : Reachable step s t) : Accounted limit t :=
  h.invariant (new_accounted hnew) (accounted_step hlimit)

/-- `Budget::stop` sets the flag and hands out nothing. -/
theorem stop_step {t u : State} (h : step t .stop=some u) :
    u.used.stopped=true ∧ u.reservations=t.reservations := by
  unfold step at h
  by_cases hfault : t.fault=none
  · rw [if_neg (not_not.mpr hfault)] at h
    obtain rfl := Option.some.inj h
    exact ⟨rfl,rfl⟩
  · rw [if_pos hfault] at h
    cases h

/-- A call that still waits could not be granted: no wakeup is lost. -/
theorem waiting_cannot_proceed {limit : ℕ} {s t : State} {r : Request} (hlimit : limit≤u64Max)
    (hnew : State.new limit=.ok s) (h : Reachable step s t) (hr : r∈t.requests)
    (hwait : r.phase=.waiting) : t.used.stopped=false ∧ limit-t.used.bytes<r.bytes :=
  ((reachable_accounted hlimit hnew h).requests r hr).wait hwait

/-- The budget in every interleaving: nothing underflows, the used bytes are
the live reservations and within the limit, requests over the limit were
refused, a stop ends all grants from its step on, and nothing is used once all
is dropped. -/
theorem budget_accounts {limit : ℕ} {s t : State} (hlimit : limit≤u64Max)
    (hnew : State.new limit=.ok s) (h : Reachable step s t) :
    t.fault=none ∧ t.used.bytes=liveBytes t.reservations ∧ t.used.bytes≤limit ∧
      (∀ r∈t.requests, limit<r.bytes → r.phase=.refused (limitError r.bytes limit)) ∧
      (t.used.stopped=true → ∀ u, Reachable step t u →
        u.used.stopped=true ∧ u.reservations.length=t.reservations.length) ∧
      (∀ u v, step t .stop=some u → Reachable step u v →
        v.used.stopped=true ∧ v.reservations.length=t.reservations.length) ∧
      ((∀ r∈t.reservations, r=none) → t.used.bytes=0) := by
  have haccounts := reachable_accounted hlimit hnew h
  refine ⟨haccounts.fault,haccounts.bytes,haccounts.le,fun r hr => (haccounts.requests r hr).overLimit,
    fun hstop u hu => ?_,fun u v hstop hv => ?_,fun hdropped => ?_⟩
  · exact (hu.invariant ⟨haccounts,hstop,rfl⟩ (stopped_step hlimit)).2
  · obtain ⟨hflag,hsame⟩ := stop_step hstop
    have hafter := accounted_step hlimit haccounts hstop
    exact (hv.invariant ⟨hafter,hflag,congrArg List.length hsame⟩ (stopped_step hlimit)).2
  · rw [haccounts.bytes]
    exact liveBytes_of_dropped hdropped

/-- A budget of ten bytes: the second request waits until the first shrinks. -/
def shrinkEvents : List Event :=
  [.reserve 8,.check 0,.reserve 11,.reserve 4,.check 2,.shrinkTo 0 3,.check 2,.stop,.drop 0,
    .reserve 1,.check 3,.drop 1]

/-- The accounts after the second request was granted and all was dropped. -/
theorem budget_accounts_shrink : ∃ s t, State.new 10=.ok s ∧ Reachable step s t ∧
    t.reservations=[none,none] ∧ t.fault=none ∧ t.used.bytes=0 := by
  have run : Reachable step (⟨10,⟨0,false⟩,[],[],none⟩ : State) _ :=
    (@run_of_replay _ _ step ⟨10,⟨0,false⟩,[],[],none⟩ _ shrinkEvents _ rfl).reachable
  have haccounts := @budget_accounts 10 _ _ (by decide) rfl run
  exact ⟨_,_,rfl,run,rfl,haccounts.1,haccounts.2.2.2.2.2.2 (by decide)⟩

end Runs

end Applesauce.ScratchBudget
