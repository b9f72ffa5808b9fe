import Applesauce.BlockReading

/-!
# Cutting a changing file into chunks

Another process may truncate and extend a file while it is read, so a read of
nothing can be followed by more bytes. What the reads deliver is a sequence of
runs, each closed by a read of nothing. A chunk is short exactly when a run
ends inside it. Success is decided from the total alone, which a run that
ended too early and the runs behind it can still add up to.
-/

namespace Applesauce.FileChunks

open RustIo DecmpfsValue BlockReading

section Reads

/-- What a read of the file can answer. -/
inductive ReadEvent where
  /-- These bytes, at most as many as fit; the others remain for the next read. -/
  | returns (data : List UInt8)
  /-- A failure; an interruption is one of them. -/
  | fails (kind : ErrorKind)
  deriving DecidableEq,Repr

/-- What is left of an answer when so many bytes were taken. -/
def putBack (data : List UInt8) (n : ℕ) (file : List ReadEvent) : List ReadEvent :=
  if data.length=n then file else .returns (data.drop n)::file

/-- The loop of `try_read_all` along the answers of the file, which is at its
end behind them; `remaining` is the length of the buffer still to be filled. -/
def readLoop : List ReadEvent→ℕ→List UInt8→EStateM.Result Fault (List ReadEvent) (List UInt8)
  | [],_,filled => .ok filled []
  | .fails kind::file,remaining,filled =>
    if kind=.interrupted then readLoop file remaining filled
    else .error (.error (.ofKind kind)) file
  | .returns data::file,remaining,filled =>
    let n := min remaining data.length
    if n=0 then .ok filled file
    else if n=remaining then .ok (filled++data.take n) (putBack data n file)
    else readLoop file (remaining-n) (filled++data.take n)

/-- `try_read_all` into a buffer of this size. -/
def tryReadAll (size : ℕ) : Io (List ReadEvent) (List UInt8) := fun file => readLoop file size []

end Reads

section Chunks

/-- What the surroundings answer in one turn of the loop. -/
structure Turn where
  /-- Whether `prepare_send` gives a slot. -/
  slot : Bool
  /-- The error of the callback, if it fails. -/
  callback : Option Fault
  deriving DecidableEq,Repr

/-- The chunks passed to the callback, and the result. -/
structure Outcome where
  /-- The chunks, in order. -/
  chunks : List (List UInt8)
  /-- What `with_file_chunks` returns. -/
  result : Except Fault Bool
  deriving DecidableEq

/-- One more chunk in front. -/
def Outcome.cons (chunk : List UInt8) (outcome : Outcome) : Outcome :=
  {outcome with chunks := chunk::outcome.chunks}

/-- The comparison behind the loop. -/
def checkTotal (expectedLen totalRead : ℕ) : Except Fault Bool :=
  if totalRead≠expectedLen then .error (.error sizeChangedError) else .ok true

/-- The loop of `with_file_chunks`; beyond the listed turns there is always a
slot and the callback never fails. -/
def chunkLoop (expectedLen : ℕ) : ℕ→ℕ→List Turn→List ReadEvent→Outcome
  | 0,_,_,_ => ⟨[],.error BufferedSink.boundFault⟩
  | fuel+1,totalRead,turns,file =>
    if totalRead=expectedLen then
      match tryReadAll 1 file with
      | .error e _ => ⟨[],.error e⟩
      | .ok buf _ => ⟨[],checkTotal expectedLen (totalRead+buf.length)⟩
    else
      let turn := turns.headD ⟨true,none⟩
      if turn.slot then
        match tryReadAll blockSize file with
        | .error e _ => ⟨[],.error e⟩
        | .ok buf file =>
          if buf.length=0 then ⟨[],checkTotal expectedLen totalRead⟩
          else if expectedLen<totalRead+buf.length then ⟨[],.error (.error sizeChangedError)⟩
          else
            match turn.callback with
            | some e => ⟨[buf],.error e⟩
            | none =>
              (chunkLoop expectedLen fuel (totalRead+buf.length) turns.tail file).cons buf
      else ⟨[],.ok false⟩

/-- `with_file_chunks`, one turn for every byte and one more. -/
def withFileChunks (expectedLen : ℕ) (turns : List Turn) (file : List ReadEvent) : Outcome :=
  chunkLoop expectedLen (expectedLen+1) 0 turns file

/-- What the format needs of the chunks: none is empty and none reaches beyond
the expected length, and after success they are as many as the length has
blocks, full but for the last, and of that length together. -/
structure Aligned (expectedLen : ℕ) (outcome : Outcome) : Prop where
  nonempty : ∀ chunk∈outcome.chunks, chunk≠[]
  within : outcome.chunks.flatten.length≤expectedLen
  count : outcome.result=.ok true → outcome.chunks.length=numBlocks expectedLen
  full : outcome.result=.ok true → ∀ chunk∈outcome.chunks.dropLast, chunk.length=blockSize
  total : outcome.result=.ok true → outcome.chunks.flatten.length=expectedLen

end Chunks

section Runs

/-- What reads can deliver: the lengths of the runs that a read of nothing
closes, and behind them a last run that either a failure or the end of the
file follows for good. -/
structure Runs where
  /-- The closed runs, in order. -/
  closed : List ℕ
  /-- The run behind them. -/
  last : ℕ
  /-- Whether a failing read ends it. -/
  failed : Bool
  deriving DecidableEq,Repr

/-- So many bytes more in front. -/
def Runs.extend (n : ℕ) (runs : Runs) : Runs :=
  match runs.closed with
  | [] => {runs with last := n+runs.last}
  | run::closed => {runs with closed := (n+run)::closed}

/-- The runs of a file. -/
def runsOf : List ReadEvent→Runs
  | [] => ⟨[],0,false⟩
  | .fails kind::file => if kind=.interrupted then runsOf file else ⟨[],0,true⟩
  | .returns data::file =>
    if data.length=0 then {runsOf file with closed := 0::(runsOf file).closed}
    else (runsOf file).extend data.length

/-- A full read: how many bytes it delivers, and the runs behind it. -/
def Runs.read (size : ℕ) (runs : Runs) : Option (ℕ×Runs) :=
  match runs.closed with
  | run::closed =>
    if size≤run then some (size,{runs with closed := (run-size)::closed})
    else some (run,{runs with closed := closed})
  | [] =>
    if size≤runs.last then some (size,{runs with last := runs.last-size})
    else if runs.failed then none
    else some (runs.last,{runs with last := 0})

/-- The runs from a place on have exactly so many bytes left, up to a read of
nothing that the loop does not take for part of a chunk: every run but the
one that reaches the end is cut short inside a chunk. -/
def Completes (last : ℕ) (failed : Bool) : List ℕ→ℕ→Prop
  | [],left => failed=false ∧ last=left
  | run::closed,left =>
    (run≤left ∧ run%blockSize≠0 ∧ Completes last failed closed (left-run)) ∨
      (run=left ∧ run%blockSize=0)

/-- The first run ends inside a chunk and before the expected length, and the
runs behind it complete that length. -/
def Stitched (runs : Runs) (expectedLen : ℕ) : Prop :=
  ∃ run closed, runs.closed=run::closed ∧ run<expectedLen ∧ run%blockSize≠0 ∧
    Completes runs.last runs.failed closed (expectedLen-run)

/-- No bytes more change nothing. -/
theorem Runs.extend_zero (runs : Runs) : runs.extend 0=runs := by
  obtain ⟨closed,last,failed⟩ := runs
  cases closed with
  | nil => simp only [extend,Nat.zero_add]
  | cons run closed => simp only [extend,Nat.zero_add]

/-- A read that ends inside the bytes in front. -/
theorem Runs.read_extend_le {size n : ℕ} (runs : Runs) (h : size≤n) :
    (runs.extend n).read size=some (size,runs.extend (n-size)) := by
  obtain ⟨closed,last,failed⟩ := runs
  cases closed with
  | nil =>
    have hle : size≤n+last := by omega
    have hleft : n+last-size=n-size+last := by omega
    simp only [extend,read,if_pos hle,hleft]
  | cons run closed =>
    have hle : size≤n+run := by omega
    have hleft : n+run-size=n-size+run := by omega
    simp only [extend,read,if_pos hle,hleft]

/-- A read that takes all the bytes in front and goes on behind them. -/
theorem Runs.read_extend_lt {size n : ℕ} (runs : Runs) (h : n<size) :
    (runs.extend n).read size=(runs.read (size-n)).map fun p => (n+p.1,p.2) := by
  obtain ⟨closed,last,failed⟩ := runs
  cases closed with
  | nil =>
    by_cases hle : size-n≤last
    · have hle' : size≤n+last := by omega
      have hleft : n+last-size=last-(size-n) := by omega
      have hsum : n+(size-n)=size := by omega
      simp only [extend,read,if_pos hle,if_pos hle',hleft,hsum,Option.map_some]
    · have hle' : ¬size≤n+last := by omega
      cases failed with
      | true => simp only [extend,read,if_neg hle,if_neg hle',if_true,Option.map_none]
      | false =>
        simp only [extend,read,if_neg hle,if_neg hle',Bool.false_eq_true,if_false,Option.map_some]
  | cons run closed =>
    by_cases hle : size-n≤run
    · have hle' : size≤n+run := by omega
      have hleft : n+run-size=run-(size-n) := by omega
      have hsum : n+(size-n)=size := by omega
      simp only [extend,read,if_pos hle,if_pos hle',hleft,hsum,Option.map_some]
    · have hle' : ¬size≤n+run := by omega
      simp only [extend,read,if_neg hle,if_neg hle',Option.map_some]

/-- What was taken from an answer is missing in front of the runs. -/
theorem runsOf_putBack (data : List UInt8) {n : ℕ} (h : n≤data.length) (file : List ReadEvent) :
    runsOf (putBack data n file)=(runsOf file).extend (data.length-n) := by
  unfold putBack
  by_cases hall : data.length=n
  · rw [if_pos hall,hall,Nat.sub_self,Runs.extend_zero]
  · have hpos : ¬(data.drop n).length=0 := by
      rw [List.length_drop]
      omega
    rw [if_neg hall,runsOf,if_neg hpos,List.length_drop]

/-- The loop reads what the runs say. -/
theorem readLoop_runs (file : List ReadEvent) {remaining : ℕ} (hpos : 0<remaining)
    (filled : List UInt8) :
    (∃ buf after n, readLoop file remaining filled=.ok buf after ∧
      buf.length=filled.length+n ∧ (runsOf file).read remaining=some (n,runsOf after)) ∨
    ∃ e after, readLoop file remaining filled=.error e after ∧
      (runsOf file).read remaining=none := by
  induction file generalizing remaining filled with
  | nil =>
    have hle : ¬remaining≤0 := by omega
    refine Or.inl ⟨filled,[],0,rfl,rfl,?_⟩
    simp only [runsOf,Runs.read,if_neg hle,Bool.false_eq_true,if_false]
  | cons event file ih =>
    cases event with
    | fails kind =>
      simp only [readLoop,runsOf]
      by_cases hi : kind=.interrupted
      · simp only [if_pos hi]
        exact ih hpos filled
      · have hle : ¬remaining≤0 := by omega
        simp only [if_neg hi]
        refine Or.inr ⟨_,file,rfl,?_⟩
        simp only [Runs.read,if_neg hle,if_true]
    | returns data =>
      simp only [readLoop,runsOf]
      by_cases hzero : data.length=0
      · have hnone : min remaining data.length=0 := by omega
        have hle : ¬remaining≤0 := by omega
        simp only [if_pos hnone,if_pos hzero]
        refine Or.inl ⟨filled,file,0,rfl,rfl,?_⟩
        simp only [Runs.read,if_neg hle]
      have hsome : ¬min remaining data.length=0 := by omega
      simp only [if_neg hsome,if_neg hzero]
      by_cases hfull : min remaining data.length=remaining
      · have hle : remaining≤data.length := by omega
        simp only [if_pos hfull]
        refine Or.inl ⟨_,_,remaining,rfl,?_,?_⟩
        · rw [List.length_append,List.length_take]
          omega
        · rw [hfull,Runs.read_extend_le _ hle,runsOf_putBack data hle]
      · have hlt : data.length<remaining := by omega
        have hmin : min remaining data.length=data.length := by omega
        simp only [if_neg hfull]
        rw [hmin,Runs.read_extend_lt _ hlt]
        rcases ih (by omega : 0<remaining-data.length) (filled++data.take data.length) with
          ⟨buf,after,n,hread,hlength,hruns⟩|⟨e,after,hread,hruns⟩
        · refine Or.inl ⟨buf,after,data.length+n,hread,?_,by rw [hruns]; rfl⟩
          rw [hlength,List.take_length,List.length_append]
          omega
        · exact Or.inr ⟨e,after,hread,by rw [hruns]; rfl⟩

/-- `try_read_all` reads what the runs say. -/
theorem tryReadAll_runs (file : List ReadEvent) {size : ℕ} (hpos : 0<size) :
    (∃ buf after, tryReadAll size file=.ok buf after ∧
      (runsOf file).read size=some (buf.length,runsOf after)) ∨
    ∃ e after, tryReadAll size file=.error e after ∧ (runsOf file).read size=none := by
  rcases readLoop_runs file hpos [] with ⟨buf,after,n,hread,hlength,hruns⟩|⟨e,after,hread,hruns⟩
  · rw [List.length_nil,Nat.zero_add] at hlength
    exact Or.inl ⟨buf,after,hread,by rw [hlength]; exact hruns⟩
  · exact Or.inr ⟨e,after,hread,hruns⟩

/-- The runs of a file complete the bytes that are left. -/
def Runs.Completes (runs : Runs) (left : ℕ) : Prop :=
  FileChunks.Completes runs.last runs.failed runs.closed left

/-- Where nothing is left, the next read returns nothing. -/
theorem Runs.completes_zero (runs : Runs) :
    runs.Completes 0 ↔ ∃ after, runs.read 1=some (0,after) := by
  obtain ⟨closed,last,failed⟩ := runs
  cases closed with
  | nil =>
    simp only [Completes,FileChunks.Completes,read]
    by_cases hle : 1≤last
    · simp only [if_pos hle]
      refine ⟨fun h => by omega,fun ⟨_,h⟩ => ?_⟩
      simp at h
    · have hzero : last=0 := by omega
      cases failed with
      | true => simp [hzero]
      | false => simp [hzero]
  | cons run closed =>
    simp only [Completes,FileChunks.Completes,read]
    by_cases hle : 1≤run
    · simp only [if_pos hle]
      refine ⟨fun h => by omega,fun ⟨_,h⟩ => ?_⟩
      simp at h
    · have hzero : run=0 := by omega
      simp [hzero]

/-- What a chunk of a full read does to the runs: it comes out of the middle of
the first run, or it is the rest of a closed run, or it is the last run. -/
theorem Runs.read_block {runs after : Runs} {n : ℕ} (h : runs.read blockSize=some (n,after)) :
    (n=blockSize ∧ runs=after.extend blockSize) ∨
    (n<blockSize ∧ runs=⟨n::after.closed,after.last,after.failed⟩) ∨
    (n<blockSize ∧ runs=⟨[],n,false⟩ ∧ after=⟨[],0,false⟩) := by
  obtain ⟨closed,last,failed⟩ := runs
  cases closed with
  | nil =>
    simp only [read] at h
    by_cases hle : blockSize≤last
    · rw [if_pos hle] at h
      cases h
      refine Or.inl ⟨rfl,?_⟩
      simp only [extend,Nat.add_sub_cancel' hle]
    · rw [if_neg hle] at h
      cases failed with
      | true => cases h
      | false =>
        cases h
        exact Or.inr (Or.inr ⟨Nat.lt_of_not_le hle,rfl,rfl⟩)
  | cons run closed =>
    simp only [read] at h
    by_cases hle : blockSize≤run
    · rw [if_pos hle] at h
      cases h
      refine Or.inl ⟨rfl,?_⟩
      simp only [extend,Nat.add_sub_cancel' hle]
    · rw [if_neg hle] at h
      cases h
      exact Or.inr (Or.inl ⟨Nat.lt_of_not_le hle,rfl⟩)

/-- A block in front of the runs adds to what they complete. -/
theorem Runs.completes_extend (runs : Runs) {left : ℕ} (h : blockSize≤left) :
    (runs.extend blockSize).Completes left ↔ runs.Completes (left-blockSize) := by
  obtain ⟨closed,last,failed⟩ := runs
  cases closed with
  | nil =>
    have heq : blockSize+last=left ↔ last=left-blockSize := by omega
    simp only [extend,Completes,FileChunks.Completes,heq]
  | cons run closed =>
    have hsub : left-(blockSize+run)=left-blockSize-run := by omega
    have hle : blockSize+run≤left ↔ run≤left-blockSize := by omega
    have heq : blockSize+run=left ↔ run=left-blockSize := by omega
    simp only [extend,Completes,FileChunks.Completes,Nat.add_mod_left,hsub,hle,heq]

/-- A block in front of the runs does not change where they are stitched. -/
theorem Runs.stitched_extend (runs : Runs) {left : ℕ} (h : blockSize≤left) :
    Stitched (runs.extend blockSize) left ↔ Stitched runs (left-blockSize) := by
  obtain ⟨closed,last,failed⟩ := runs
  cases closed with
  | nil => exact ⟨nofun,nofun⟩
  | cons run closed =>
    have hsub : left-(blockSize+run)=left-blockSize-run := by omega
    have hlt : blockSize+run<left ↔ run<left-blockSize := by omega
    simp only [Stitched,extend,List.cons.injEq]
    constructor
    · rintro ⟨_,_,⟨rfl,rfl⟩,hless,hmod,hrest⟩
      rw [Nat.add_mod_left] at hmod
      rw [hsub] at hrest
      exact ⟨_,_,⟨rfl,rfl⟩,hlt.mp hless,hmod,hrest⟩
    · rintro ⟨_,_,⟨rfl,rfl⟩,hless,hmod,hrest⟩
      refine ⟨_,_,⟨rfl,rfl⟩,hlt.mpr hless,by rwa [Nat.add_mod_left],by rwa [hsub]⟩

/-- A chunk takes from the runs what it takes from the bytes left. -/
theorem Runs.completes_read {runs after : Runs} {n left : ℕ}
    (h : runs.read blockSize=some (n,after)) (hpos : 0<n) (hle : n≤left) :
    runs.Completes left ↔ after.Completes (left-n) := by
  rcases Runs.read_block h with ⟨rfl,rfl⟩|⟨hlt,rfl⟩|⟨hlt,rfl,rfl⟩
  · exact after.completes_extend hle
  · have hmod : n%blockSize=n := Nat.mod_eq_of_lt hlt
    have hne : n%blockSize≠0 := by omega
    simp only [Completes,FileChunks.Completes,hne,hle,ne_eq,not_false_eq_true,true_and,and_false,
      or_false]
  · simp only [Completes,FileChunks.Completes,true_and]
    omega

/-- A chunk that is not full ends the file, unless the runs are stitched. -/
theorem Runs.short_is_last {runs after : Runs} {n left : ℕ}
    (h : runs.read blockSize=some (n,after)) (hpos : 0<n) (hle : n≤left) (hshort : n≠blockSize)
    (hstitched : ¬Stitched runs left) (hrest : after.Completes (left-n)) : n=left := by
  rcases Runs.read_block h with ⟨hfull,_⟩|⟨hlt,rfl⟩|⟨hlt,rfl,rfl⟩
  · exact (hshort hfull).elim
  · by_contra hne
    have hmod : n%blockSize=n := Nat.mod_eq_of_lt hlt
    exact hstitched ⟨n,after.closed,rfl,by omega,by omega,hrest⟩
  · have hzero : 0=left-n := hrest.2
    omega

/-- A full chunk does not change where the runs are stitched. -/
theorem Runs.stitched_read {runs after : Runs} {n left : ℕ} (h : runs.read blockSize=some (n,after))
    (hfull : n=blockSize) (hle : n≤left) (hafter : Stitched after (left-blockSize)) :
    Stitched runs left := by
  rcases Runs.read_block h with ⟨_,rfl⟩|⟨hlt,_⟩|⟨hlt,_⟩
  · exact (after.stitched_extend (by omega)).mpr hafter
  · omega
  · omega

/-- While bytes are left that the runs complete, there is a chunk among them. -/
theorem Runs.read_of_completes {runs : Runs} {left : ℕ} (h : runs.Completes left) (hpos : 0<left) :
    ∃ n after, runs.read blockSize=some (n,after) ∧ 0<n ∧ n≤left := by
  have hblock : 0<blockSize := by decide
  obtain ⟨closed,last,failed⟩ := runs
  cases closed with
  | nil =>
    obtain ⟨rfl,rfl⟩ := h
    by_cases hle : blockSize≤last
    · exact ⟨blockSize,_,if_pos hle,hblock,hle⟩
    · refine ⟨last,⟨[],0,false⟩,?_,hpos,Nat.le_refl _⟩
      simp only [read,if_neg hle,Bool.false_eq_true,if_false]
  | cons run closed =>
    have hrun : 0<run ∧ run≤left := by
      rcases h with ⟨hle,hmod,_⟩|⟨rfl,_⟩
      · refine ⟨Nat.pos_of_ne_zero fun hzero => hmod ?_,hle⟩
        rw [hzero,Nat.zero_mod]
      · exact ⟨hpos,Nat.le_refl _⟩
    by_cases hle : blockSize≤run
    · exact ⟨blockSize,_,if_pos hle,hblock,hle.trans hrun.2⟩
    · exact ⟨run,⟨closed,last,failed⟩,if_neg hle,hrun.1,hrun.2⟩

/-- Stitched runs complete the expected length. -/
theorem Stitched.completes {runs : Runs} {left : ℕ} (h : Stitched runs left) : runs.Completes left := by
  obtain ⟨run,closed,hclosed,hless,hmod,hrest⟩ := h
  unfold Runs.Completes
  rw [hclosed]
  exact Or.inl ⟨hless.le,hmod,hrest⟩

end Runs

section Lists
variable {chunk : List UInt8} {chunks : List (List UInt8)}

/-- One more full chunk in front of chunks that are full but for the last. -/
theorem dropLast_cons {n : ℕ} (hchunk : chunk.length=n) (h : ∀ c∈chunks.dropLast, c.length=n) :
    ∀ c∈(chunk::chunks).dropLast, c.length=n := by
  cases chunks with
  | nil => exact nofun
  | cons next chunks =>
    intro c hc
    rw [List.dropLast_cons_cons] at hc
    rcases List.mem_cons.mp hc with rfl|hrest
    · exact hchunk
    · exact h c hrest

/-- What stands in front of the last chunk does so behind one more chunk. -/
theorem mem_dropLast_cons {c : List UInt8} (h : c∈chunks.dropLast) : c∈(chunk::chunks).dropLast := by
  cases chunks with
  | nil => cases h
  | cons next chunks =>
    rw [List.dropLast_cons_cons]
    exact List.mem_cons_of_mem _ h

/-- A chunk in front of others is not the last. -/
theorem mem_dropLast_of_ne (h : chunks≠[]) : chunk∈(chunk::chunks).dropLast := by
  cases chunks with
  | nil => exact (h rfl).elim
  | cons next chunks =>
    rw [List.dropLast_cons_cons]
    exact List.mem_cons_self

end Lists

section Loop
variable {expectedLen fuel totalRead : ℕ} {turns : List Turn} {file : List ReadEvent}

/-- The last look for bytes behind the expected length. -/
theorem chunkLoop_probe (expectedLen fuel : ℕ) (turns : List Turn) (file : List ReadEvent) :
    ∃ result, chunkLoop expectedLen (fuel+1) expectedLen turns file=⟨[],result⟩ ∧
      (result=.ok true ↔ (runsOf file).Completes 0) := by
  rw [Runs.completes_zero]
  simp only [chunkLoop,if_true]
  rcases tryReadAll_runs file Nat.one_pos with ⟨buf,after,hread,hruns⟩|⟨e,after,hread,hruns⟩
  · rw [hread,hruns]
    refine ⟨_,rfl,?_⟩
    unfold checkTotal
    by_cases hzero : buf.length=0
    · have hsame : ¬expectedLen+buf.length≠expectedLen := by omega
      rw [if_neg hsame,hzero]
      exact ⟨fun _ => ⟨_,rfl⟩,fun _ => rfl⟩
    · have hmore : expectedLen+buf.length≠expectedLen := by omega
      rw [if_pos hmore]
      refine ⟨nofun,fun ⟨_,h⟩ => ?_⟩
      exact (hzero (congrArg Prod.fst (Option.some.inj h))).elim
  · rw [hread,hruns]
    exact ⟨_,rfl,nofun,nofun⟩

/-- A turn in front of the expected length: it stops without success, at most
after one more chunk, or it passes a chunk on and the loop continues. -/
theorem chunkLoop_turn (h : totalRead≠expectedLen) :
    (∃ result, chunkLoop expectedLen (fuel+1) totalRead turns file=⟨[],result⟩ ∧ result≠.ok true) ∨
    (∃ buf e, 0<buf.length ∧ totalRead+buf.length≤expectedLen ∧
      chunkLoop expectedLen (fuel+1) totalRead turns file=⟨[buf],.error e⟩) ∨
    ∃ buf after, 0<buf.length ∧ totalRead+buf.length≤expectedLen ∧
      (runsOf file).read blockSize=some (buf.length,runsOf after) ∧
      chunkLoop expectedLen (fuel+1) totalRead turns file=
        (chunkLoop expectedLen fuel (totalRead+buf.length) turns.tail after).cons buf := by
  simp only [chunkLoop,if_neg h]
  cases hslot : (turns.headD ⟨true,none⟩).slot with
  | false =>
    simp only [Bool.false_eq_true,if_false]
    exact Or.inl ⟨_,rfl,by simp⟩
  | true =>
    simp only [if_true]
    rcases tryReadAll_runs file (by decide : 0<blockSize) with
      ⟨buf,after,hread,hruns⟩|⟨e,after,hread,_⟩
    · rw [hread]
      by_cases hzero : buf.length=0
      · simp only [if_pos hzero]
        refine Or.inl ⟨_,rfl,?_⟩
        unfold checkTotal
        rw [if_pos h]
        exact nofun
      simp only [if_neg hzero]
      by_cases hlong : expectedLen<totalRead+buf.length
      · simp only [if_pos hlong]
        exact Or.inl ⟨_,rfl,nofun⟩
      simp only [if_neg hlong]
      cases (turns.headD ⟨true,none⟩).callback with
      | some e => exact Or.inr (Or.inl ⟨buf,e,by omega,by omega,rfl⟩)
      | none => exact Or.inr (Or.inr ⟨buf,after,by omega,by omega,hruns,rfl⟩)
    · rw [hread]
      exact Or.inl ⟨_,rfl,nofun⟩

/-- With a slot and a callback that returns, a chunk that fits is passed on. -/
theorem chunkLoop_free {n : ℕ} {runs : Runs} (hread : (runsOf file).read blockSize=some (n,runs))
    (hpos : 0<n) (hle : totalRead+n≤expectedLen) :
    ∃ buf after, buf.length=n ∧ runsOf after=runs ∧
      chunkLoop expectedLen (fuel+1) totalRead [] file=
        (chunkLoop expectedLen fuel (totalRead+n) [] after).cons buf := by
  rcases tryReadAll_runs file (by decide : 0<blockSize) with ⟨buf,after,hbuf,hruns⟩|⟨e,after,_,hruns⟩
  · rw [hread] at hruns
    obtain ⟨rfl,rfl⟩ := Prod.mk.inj (Option.some.inj hruns)
    have hne : totalRead≠expectedLen := by omega
    have hsome : ¬buf.length=0 := by omega
    have hfit : ¬expectedLen<totalRead+buf.length := by omega
    refine ⟨buf,after,rfl,rfl,?_⟩
    simp only [chunkLoop,if_neg hne,List.headD_nil,if_true,hbuf,if_neg hsome,if_neg hfit,
      List.tail_nil]
  · rw [hread] at hruns
    cases hruns

/-- Chunks are never empty and never reach beyond the expected length; after
success they reach it, the runs of the file complete it, and no chunk is longer
than a block. -/
theorem chunkLoop_sound (hle : totalRead≤expectedLen) :
    (∀ chunk∈(chunkLoop expectedLen fuel totalRead turns file).chunks, chunk≠[]) ∧
    (chunkLoop expectedLen fuel totalRead turns file).chunks.flatten.length≤expectedLen-totalRead ∧
    ((chunkLoop expectedLen fuel totalRead turns file).result=.ok true →
      (chunkLoop expectedLen fuel totalRead turns file).chunks.flatten.length=
        expectedLen-totalRead ∧
      (runsOf file).Completes (expectedLen-totalRead) ∧
      ∀ chunk∈(chunkLoop expectedLen fuel totalRead turns file).chunks,
        chunk.length≤blockSize) := by
  induction fuel generalizing totalRead turns file with
  | zero => exact ⟨nofun,Nat.zero_le _,nofun⟩
  | succ fuel ih =>
    by_cases hend : totalRead=expectedLen
    · subst hend
      obtain ⟨result,heq,hresult⟩ := chunkLoop_probe totalRead fuel turns file
      rw [heq,Nat.sub_self]
      exact ⟨nofun,Nat.le_refl _,fun h => ⟨rfl,hresult.mp h,nofun⟩⟩
    rcases chunkLoop_turn hend with ⟨result,heq,hne⟩|⟨buf,e,hpos,hfit,heq⟩|
      ⟨buf,after,hpos,hfit,hread,heq⟩
    · rw [heq]
      exact ⟨nofun,Nat.zero_le _,fun h => (hne h).elim⟩
    · rw [heq]
      refine ⟨fun chunk h => ?_,?_,nofun⟩
      · rw [List.mem_singleton.mp h]
        exact List.length_pos_iff.mp hpos
      · simp only [List.flatten_cons,List.flatten_nil,List.append_nil]
        omega
    · rw [heq]
      obtain ⟨hnonempty,hwithin,hok⟩ := ih hfit
      refine ⟨fun chunk h => ?_,?_,fun h => ?_⟩
      · rcases List.mem_cons.mp h with rfl|hrest
        · exact List.length_pos_iff.mp hpos
        · exact hnonempty chunk hrest
      · simp only [Outcome.cons,List.flatten_cons,List.length_append]
        omega
      · obtain ⟨htotal,hcompletes,hsize⟩ := hok h
        have hleft : expectedLen-totalRead-buf.length=expectedLen-(totalRead+buf.length) := by omega
        rw [Runs.completes_read hread hpos (by omega),hleft]
        refine ⟨?_,hcompletes,fun chunk hchunk => ?_⟩
        · simp only [Outcome.cons,List.flatten_cons,List.length_append]
          omega
        · rcases List.mem_cons.mp hchunk with rfl|hrest
          · rcases Runs.read_block hread with ⟨hfull,_⟩|⟨hlt,_⟩|⟨hlt,_⟩
            · exact hfull.le
            · exact hlt.le
            · exact hlt.le
          · exact hsize chunk hrest

/-- Where the runs are not stitched, every chunk but the last is full after success. -/
theorem chunkLoop_full (hle : totalRead≤expectedLen)
    (hstitched : ¬Stitched (runsOf file) (expectedLen-totalRead))
    (hok : (chunkLoop expectedLen fuel totalRead turns file).result=.ok true) :
    ∀ chunk∈(chunkLoop expectedLen fuel totalRead turns file).chunks.dropLast,
      chunk.length=blockSize := by
  induction fuel generalizing totalRead turns file with
  | zero => exact nofun
  | succ fuel ih =>
    by_cases hend : totalRead=expectedLen
    · subst hend
      obtain ⟨result,heq,_⟩ := chunkLoop_probe totalRead fuel turns file
      rw [heq]
      exact nofun
    rcases chunkLoop_turn hend with ⟨result,heq,hne⟩|⟨buf,e,hpos,hfit,heq⟩|
      ⟨buf,after,hpos,hfit,hread,heq⟩
    · rw [heq]
      exact nofun
    · rw [heq]
      exact nofun
    · rw [heq] at hok ⊢
      have hleft : expectedLen-totalRead-buf.length=expectedLen-(totalRead+buf.length) := by omega
      obtain ⟨hnonempty,_,hsound⟩ := 
        @chunkLoop_sound expectedLen fuel _ turns.tail after hfit
      obtain ⟨htotal,hcompletes,_⟩ := hsound hok
      by_cases hfull : buf.length=blockSize
      · have hrest : ¬Stitched (runsOf after) (expectedLen-(totalRead+buf.length)) := by
          rw [←hleft,hfull]
          exact fun h => hstitched (Runs.stitched_read hread hfull (by omega) h)
        exact dropLast_cons hfull (ih hfit hrest hok)
      · have hlast : buf.length=expectedLen-totalRead := by
          refine Runs.short_is_last hread hpos (by omega) hfull hstitched ?_
          rw [hleft]
          exact hcompletes
        have hnone : (chunkLoop expectedLen fuel (totalRead+buf.length) turns.tail after).chunks=[] := by
          cases hchunks : (chunkLoop expectedLen fuel (totalRead+buf.length) turns.tail after).chunks with
          | nil => rfl
          | cons chunk chunks =>
            rw [hchunks] at hnonempty htotal
            have hchunk := List.length_pos_iff.mpr (hnonempty chunk (List.mem_cons_self))
            rw [List.flatten_cons,List.length_append] at htotal
            omega
        simp only [Outcome.cons,hnone]
        exact nofun

/-- What the runs complete is read to its end, with a slot for every chunk. -/
theorem chunkLoop_completes (hle : totalRead≤expectedLen) (hfuel : expectedLen-totalRead<fuel)
    (h : (runsOf file).Completes (expectedLen-totalRead)) :
    (chunkLoop expectedLen fuel totalRead [] file).result=.ok true := by
  induction fuel generalizing totalRead file with
  | zero => exact (Nat.not_lt_zero _ hfuel).elim
  | succ fuel ih =>
    by_cases hend : totalRead=expectedLen
    · subst hend
      obtain ⟨result,heq,hresult⟩ := chunkLoop_probe totalRead fuel [] file
      rw [Nat.sub_self] at h
      rw [heq]
      exact hresult.mpr h
    obtain ⟨n,runs,hread,hpos,hfit⟩ := Runs.read_of_completes h (by omega)
    have hroom : totalRead+n≤expectedLen := by omega
    obtain ⟨buf,after,rfl,rfl,heq⟩ := @chunkLoop_free expectedLen fuel _ _ _ _ hread hpos hroom
    have hleft : expectedLen-totalRead-buf.length=expectedLen-(totalRead+buf.length) := by omega
    rw [Runs.completes_read hread hpos hfit,hleft] at h
    rw [heq]
    exact ih (by omega) (by omega) h

/-- Where the runs are stitched, a chunk in front of the last one is not full. -/
theorem chunkLoop_stitched (hle : totalRead≤expectedLen) (hfuel : expectedLen-totalRead<fuel)
    (h : Stitched (runsOf file) (expectedLen-totalRead)) :
    ∃ chunk∈(chunkLoop expectedLen fuel totalRead [] file).chunks.dropLast,
      chunk.length≠blockSize := by
  induction fuel generalizing totalRead file with
  | zero => exact (Nat.not_lt_zero _ hfuel).elim
  | succ fuel ih =>
    have hpositive : 0<expectedLen-totalRead := by
      obtain ⟨run,_,_,hless,_⟩ := h
      omega
    have hcompletes := h.completes
    obtain ⟨n,runs,hread,hpos,hfit⟩ := Runs.read_of_completes hcompletes hpositive
    have hroom : totalRead+n≤expectedLen := by omega
    obtain ⟨buf,after,rfl,rfl,heq⟩ := @chunkLoop_free expectedLen fuel _ _ _ _ hread hpos hroom
    have hleft : expectedLen-totalRead-buf.length=expectedLen-(totalRead+buf.length) := by omega
    rw [heq]
    rcases Runs.read_block hread with ⟨hfull,hruns⟩|⟨hlt,hruns⟩|⟨hlt,hruns,_⟩
    · rw [hruns,Runs.stitched_extend _ (by omega),←hfull,hleft] at h
      obtain ⟨chunk,hchunk,hshort⟩ := ih hroom (by omega) h
      exact ⟨chunk,mem_dropLast_cons hchunk,hshort⟩
    · refine ⟨buf,mem_dropLast_of_ne ?_,by omega⟩
      intro hnil
      rw [Runs.completes_read hread hpos hfit,hleft] at hcompletes
      have hturns : expectedLen-(totalRead+buf.length)<fuel := by omega
      have hok := chunkLoop_completes hroom hturns hcompletes
      have htotal := ((chunkLoop_sound hroom).2.2 hok).1
      rw [hnil,List.flatten_nil,List.length_nil] at htotal
      rw [hruns] at h
      obtain ⟨run,closed,hclosed,hless,_⟩ := h
      cases hclosed
      omega
    · rw [hruns] at h
      obtain ⟨run,closed,hclosed,_⟩ := h
      cases hclosed

end Loop

section Alignment

/-- Chunks that have bytes and no more than a block, and are full but for the
last, are as many as their total length has blocks. -/
theorem length_eq_numBlocks {chunks : List (List UInt8)}
    (hfull : ∀ chunk∈chunks.dropLast, chunk.length=blockSize)
    (hnonempty : ∀ chunk∈chunks, chunk≠[]) (hle : ∀ chunk∈chunks, chunk.length≤blockSize) :
    chunks.length=numBlocks chunks.flatten.length := by
  induction chunks with
  | nil => rfl
  | cons chunk chunks ih =>
    have hpos : 0<chunk.length := List.length_pos_iff.mpr (hnonempty chunk List.mem_cons_self)
    have hsize := hle chunk List.mem_cons_self
    have hrest := ih (fun c hc => hfull c (mem_dropLast_cons hc))
      (fun c hc => hnonempty c (List.mem_cons_of_mem _ hc))
      (fun c hc => hle c (List.mem_cons_of_mem _ hc))
    rw [List.flatten_cons,List.length_append,numBlocks_drop (by omega),List.length_cons,hrest]
    by_cases hnil : chunks=[]
    · have hnone : chunk.length+0-blockSize=0 := by omega
      rw [hnil,List.flatten_nil,List.length_nil,hnone]
    · rw [hfull chunk (mem_dropLast_of_ne hnil),Nat.add_sub_cancel_left]

/-- The chunks are aligned, whatever the slots and the callback do, if and only
if the runs of the file are not stitched to the expected length. -/
theorem aligned_iff (expectedLen : ℕ) (file : List ReadEvent) :
    (∀ turns, Aligned expectedLen (withFileChunks expectedLen turns file)) ↔
      ¬Stitched (runsOf file) expectedLen := by
  constructor
  · intro h hstitched
    have hok := chunkLoop_completes (Nat.zero_le expectedLen) (Nat.lt_succ_self _) hstitched.completes
    obtain ⟨chunk,hchunk,hshort⟩ :=
      chunkLoop_stitched (Nat.zero_le expectedLen) (Nat.lt_succ_self _) hstitched
    exact hshort ((h []).full hok chunk hchunk)
  · intro hstitched turns
    obtain ⟨hnonempty,hwithin,hsound⟩ :=
      @chunkLoop_sound expectedLen (expectedLen+1) 0 turns file (Nat.zero_le _)
    rw [Nat.sub_zero] at hwithin
    have hfull := @chunkLoop_full expectedLen (expectedLen+1) 0 turns file (Nat.zero_le _) hstitched
    refine ⟨hnonempty,hwithin,fun hok => ?_,hfull,fun hok => (hsound hok).1⟩
    obtain ⟨htotal,_,hsize⟩ := hsound hok
    have hcount := length_eq_numBlocks (hfull hok) hnonempty hsize
    rw [htotal] at hcount
    exact hcount

/-- A file of six bytes is truncated after three and extended again: two chunks
of three bytes are passed on, where there should be one. -/
theorem stitched_chunks :
    ¬∀ (expectedLen : ℕ) (turns : List Turn) (file : List ReadEvent),
      Aligned expectedLen (withFileChunks expectedLen turns file) := by
  intro h
  have haligned := h 6 [] [.returns [1,2,3],.returns [],.returns [4,5,6]]
  exact absurd (haligned.count rfl) (by decide)

end Alignment

section Reading

/-- The chunks and the end of a reading as an outcome. -/
def ofReading (reading : Reading (List UInt8)) : Outcome :=
  ⟨reading.items,reading.ending.map fun _ => true⟩

/-- With a slot for every chunk and a callback that returns, the loop passes on
what the reading of the file has. -/
theorem chunkLoop_reading (expectedLen fuel totalRead : ℕ) (file : List ReadEvent) :
    chunkLoop expectedLen fuel totalRead [] file=
      ofReading (BlockReading.chunkLoop tryReadAll expectedLen fuel totalRead file) := by
  have hcheck : ∀ n, checkTotal expectedLen n=(lengthCheck expectedLen n).map fun _ => true := by
    intro n
    unfold checkTotal lengthCheck
    by_cases h : n=expectedLen
    · rw [if_neg (not_not.mpr h),if_pos h]
      rfl
    · rw [if_pos h,if_neg h]
      rfl
  induction fuel generalizing totalRead file with
  | zero => rfl
  | succ fuel ih =>
    simp only [chunkLoop,BlockReading.chunkLoop]
    by_cases hend : totalRead=expectedLen
    · simp only [if_pos hend]
      cases tryReadAll 1 file with
      | error e after => rfl
      | ok buf after => simp only [hcheck,ofReading]
    simp only [if_neg hend,List.headD_nil,if_true]
    cases tryReadAll blockSize file with
    | error e after => rfl
    | ok buf after =>
      dsimp only
      by_cases hzero : buf.length=0
      · simp only [if_pos hzero,hcheck,ofReading]
      simp only [if_neg hzero]
      by_cases hlong : expectedLen<totalRead+buf.length
      · simp only [if_pos hlong]
        rfl
      · simp only [if_neg hlong,List.tail_nil,ih]
        rfl

end Reading

end Applesauce.FileChunks
