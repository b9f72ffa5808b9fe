import Applesauce.FolderSums
import Applesauce.ScanStatistics

/-!
# The recursive information and the statistics of a scan

The scan counts the files of a tree one after the other, with code of its own
to choose them and to size them. What it has counted at their starts are the
same shares that the recursive information adds up, so the numbers of files
and of compressed files and both totals agree.
-/

namespace Applesauce.InfoAccounting

open SourceGuard hiding Entry
open RustIo Statistics FileThreads ScanAdmission ScanRun ScanStatistics
open FolderInfo FolderSums ParallelFold Tally
open TransitionSystem

section Scans

/-- The entries that came to the callback of the scan. -/
def considered (trace : List (ScanRun.State×Event)) : List DirEntry :=
  trace.filterMap fun p =>
    match p.2 with
    | .consider entry _ => some entry
    | _ => none

/-- What a verdict counts at the start of a file. -/
def started : Verdict→Option (Metadata×FileInfo)
  | .skipped _ => none
  | .ended _ inode first _ => some (inode.metadata,first)
  | .sent inode info => some (inode.metadata,info)

/-- What the scan counts of an entry, whatever its mode. -/
def counts (entry : DirEntry) : Option (Metadata×FileInfo) :=
  if entry.isFile=false then none
  else
    match entry.metadata with
    | .error _ => none
    | .ok inode =>
      if 1< inode.metadata.nlink then none else some (inode.metadata,entry.fileInfo inode)

/-- What was counted of a file. -/
def noted (f : File) : Metadata×FileInfo := (f.found.metadata,f.found.info)

/-- No mode counts more or less. -/
theorem started_scanFile (mode : Publication.Mode) (entry : DirEntry) :
    started (scanFile mode entry)=counts entry := by
  unfold scanFile counts
  by_cases hfile : entry.isFile=false
  · rw [if_pos hfile,if_pos hfile]
    rfl
  rw [if_neg hfile,if_neg hfile]
  cases entry.metadata with
  | error e => rfl
  | ok inode =>
    dsimp only
    by_cases hlinks : 1< inode.metadata.nlink
    · rw [if_pos hlinks,if_pos hlinks]
      rfl
    rw [if_neg hlinks,if_neg hlinks]
    by_cases hprotected : isProtected inode.metadata
    · rw [if_pos hprotected]
      rfl
    rw [if_neg hprotected]
    rcases skipReason mode (entry.fileInfo inode).compressionState with ⟨reason,state⟩
    cases reason with
    | some reason => rfl
    | none => cases entry.timesFailure <;> rfl

variable {config : Config} {s t : ScanRun.State}

/-- A step of the batch leaves the notes as they are. -/
theorem noted_batch {limits : BatchLimits} {e : BatchEvent}
    (hmoves : BatchMoves config limits s e t) : t.files.map noted=s.files.map noted := by
  cases hmoves with
  | granted hphase hfile hreserve => exact map_set_same hfile rfl
  | refused hphase hfile hreserve => exact map_set_same hfile rfl
  | receive hphase hfile hmessage => exact map_set_same hfile rfl
  | publish hphase hfile => exact map_set_same hfile rfl
  | _ => rfl

/-- So does every step but that of an entry. -/
theorem noted_other {e : Event} (h : Accounted config s) (hmoves : Moves config s e t)
    (hother : ∀ entry blocks, e≠.consider entry blocks) : t.files.map noted=s.files.map noted := by
  cases hmoves with
  | skip blocks hphase hscan => exact absurd rfl (hother _ _)
  | countSkipped blocks hphase hscan => exact absurd rfl (hother _ _)
  | countSent blocks hphase hscan => exact absurd rfl (hother _ _)
  | countEnd hphase hfile => exact map_set_same hfile rfl
  | makeContext hphase hfile => exact map_set_same hfile rfl
  | submit hphase hfile hplain => exact map_set_same hfile rfl
  | submitBatched hphase hfile hstaging =>
    split
    · exact congrArg _ (drain_files s _)
    · rfl
  | sendBatched hphase hfile hstaging =>
    split
    · exact congrArg _ (drain_files s _)
    · rfl
  | finishWalk hphase =>
    split
    · exact congrArg _ (drain_files s _)
    · rfl
  | batch hstaging hbatch => exact noted_batch hbatch
  | file hguard hfile hstep =>
    have hfound := (h.kept hfile hstep).found
    refine map_set_same hfile ?_
    unfold noted
    rw [hfound]
  | _ => rfl

/-- The step of an entry notes what it counts. -/
theorem noted_entry {entry : DirEntry} {blocks : ℕ}
    (hmoves : Moves config s (.consider entry blocks) t) :
    t.files.map noted=s.files.map noted++(counts entry).toList := by
  have hcounts := started_scanFile config.mode entry
  cases hmoves with
  | skip blocks hphase hscan =>
    rw [←hcounts,hscan]
    exact (List.append_nil _).symm
  | countSkipped blocks hphase hscan =>
    rw [←hcounts,hscan]
    exact List.map_append
  | countSent blocks hphase hscan =>
    rw [←hcounts,hscan]
    exact List.map_append

/-- A step notes what it counts and forgets nothing. -/
theorem noted_of_moves {e : Event} (h : Accounted config s) (hmoves : Moves config s e t) :
    t.files.map noted=s.files.map noted++(considered [(s,e)]).filterMap counts := by
  by_cases hentry : ∃ entry blocks, e=.consider entry blocks
  · obtain ⟨entry,blocks,rfl⟩ := hentry
    rw [noted_entry hmoves]
    cases hcounts : counts entry <;> simp [considered,hcounts]
  · have hnone : considered [(s,e)]=[] := by
      cases e with
      | consider entry blocks => exact absurd ⟨entry,blocks,rfl⟩ hentry
      | _ => rfl
    rw [noted_other h hmoves fun entry blocks he => hentry ⟨entry,blocks,he⟩,hnone,
      List.filterMap_nil,List.append_nil]

/-- What is noted in the end are the counts of the entries that came, in their order. -/
theorem noted_of_run {stopped : Bool} {trace : List (ScanRun.State×Event)}
    (h : Run (step config) (.initial stopped) trace s) :
    s.files.map noted=(considered trace).filterMap counts := by
  induction h with
  | nil => rfl
  | @snoc a b trace e run last ih =>
    have hsplit : considered (trace++[(a,e)])=considered trace++considered [(a,e)] :=
      List.filterMap_append
    rw [noted_of_moves (conserved_of_run run).accounted (moves_of_step last),ih,hsplit,
      List.filterMap_append]

/-- What a note adds. -/
def ofNote (note : Metadata×FileInfo) : AfscFolderInfo :=
  ⟨1,0,note.2.isCompressed,note.1.len,note.2.onDiskSize⟩

/-- The sums that the counters of the start show. -/
def starts (notes : List (Metadata×FileInfo)) : AfscFolderInfo := (notes.map ofNote).sum

/-- One more note. -/
theorem starts_cons (note : Metadata×FileInfo) (notes : List (Metadata×FileInfo)) :
    starts (note::notes)=ofNote note+starts notes := List.sum_cons

/-- The counters show these sums, as far as they hold them. -/
structure Show (stats : Stats) (sums : AfscFolderInfo) : Prop where
  /-- The number of files. -/
  files : stats.files=sums.numFiles%2^64
  /-- The number of compressed files. -/
  compressed : stats.compressedFileCountStart=sums.numCompressedFiles%2^64
  /-- The total of the lengths. -/
  lengths : stats.totalFileSizes=sums.totalUncompressedSize%2^64
  /-- The total of the sizes on disk. -/
  disk : stats.compressedSizeStart=sums.totalCompressedSize%2^64

/-- The counters of files show the sums of their notes. -/
theorem show_counters (files : List File) : Show (counters files) (starts (files.map noted)) := by
  have hsums : (starts (files.map noted)).numFiles=files.length ∧
      (starts (files.map noted)).numCompressedFiles=
        tally (fun f => f.found.info.isCompressed) files ∧
      (starts (files.map noted)).totalUncompressedSize=
        tally (fun f => f.found.metadata.len) files ∧
      (starts (files.map noted)).totalCompressedSize=
        tally (fun f => f.found.info.onDiskSize) files := by
    induction files with
    | nil => exact ⟨rfl,rfl,rfl,rfl⟩
    | cons f files ih =>
      obtain ⟨hfiles,hcompressed,hlengths,hdisk⟩ := ih
      simp [starts_cons,ofNote,noted,hfiles,hcompressed,hlengths,hdisk,Nat.add_comm]
  obtain ⟨hfiles,hcompressed,hlengths,hdisk⟩ := hsums
  constructor
  · rw [hfiles]; rfl
  · rw [hcompressed]; rfl
  · rw [hlengths]; rfl
  · rw [hdisk]; rfl

/-- The statistics of a state: what the scan has returned, or what was counted so far. -/
def Reports (s : ScanRun.State) (stats : Stats) : Prop :=
  s.phase=.finished stats ∨ (s.shared.sent=none ∧ s.shared.stats=stats)

/-- The statistics of a run show the sums of what was counted of the entries that came. -/
theorem show_of_run {stopped : Bool} {trace : List (ScanRun.State×Event)}
    (h : Run (step config) (.initial stopped) trace s) {stats : Stats} (hstats : Reports s stats) :
    Show stats (starts ((considered trace).filterMap counts)) := by
  have hconserved := conserved_of_run h
  rw [←noted_of_run h]
  rcases hstats with hphase|⟨hnone,rfl⟩
  · obtain ⟨_,rfl⟩ := hconserved.counted (returned_of_run h stats hphase)
    exact show_counters s.files
  · rcases hconserved.ledger.reported with ⟨_,_,hcounters⟩|⟨hsent,_⟩
    · rw [hcounters]
      exact show_counters s.files
    · rw [hnone] at hsent
      cases hsent

end Scans

section Agreement

variable {build : Build}

/-- What the scan gets to see of an entry. -/
structure Seen (build : Build) (entry : Entry) (dirEntry : DirEntry) : Prop where
  /-- Its type. -/
  isFile : dirEntry.isFile=true ↔ entry.fileType=.file
  /-- The answer of `symlink_metadata`. -/
  metadata : dirEntry.metadata=(entry.stat.answer entry.linkFailure).map Stat.inode
  /-- The answer of `get_file_info` for a file that is counted. -/
  fileInfo : Counted entry → getFileInfo build entry.stat dirEntry.supported dirEntry.forkFailure
    dirEntry.decmpfsFailure=.ok (dirEntry.fileInfo entry.stat.inode)

/-- A walk over the tree was considered: its entries came in some order. -/
def Scans (build : Build) (skipHidden : Bool) (isTempDir : List UInt8→Bool) (tree : Tree)
    (trace : List (ScanRun.State×Event)) : Prop :=
  ∃ walked, walked.Perm (walkDirOver skipHidden isTempDir tree) ∧
    List.Forall₂ (Seen build) (walkerRun walked) (considered trace)

/-- What `get` returns comes from the metadata. -/
theorem get_ok {entry : Entry} {info : AfscFileInfo} (h : FolderInfo.get build entry=.ok info) :
    entry.stat.onDiskSize build=.ok info.onDiskSize ∧
      info.statSize=entry.stat.inode.metadata.len ∧
      info.isCompressed=(entry.stat.inode.metadata.flags &&& ufCompressed==ufCompressed) := by
  unfold FolderInfo.get at h
  obtain ⟨stat,hstat,h⟩ := except_bind_ok_iff.mp h
  obtain ⟨onDiskSize,hsize,h⟩ := except_bind_ok_iff.mp h
  obtain ⟨names,_,h⟩ := except_bind_ok_iff.mp h
  obtain ⟨xattrs,_,h⟩ := except_bind_ok_iff.mp h
  obtain rfl := Except.ok.inj h
  have hsame : stat=entry.stat := by
    unfold Stat.answer question at hstat
    cases hfailure : entry.pathFailure with
    | none =>
      rw [hfailure] at hstat
      exact (Except.ok.inj hstat).symm
    | some e =>
      rw [hfailure] at hstat
      cases hstat
  subst hsame
  exact ⟨hsize,rfl,rfl⟩

/-- What `get_file_info` returns comes from the metadata. -/
theorem getFileInfo_ok {stat : Stat} {supported : Except IoError Bool}
    {forkFailure decmpfsFailure : Option IoError} {info : FileInfo}
    (h : getFileInfo build stat supported forkFailure decmpfsFailure=.ok info) :
    stat.onDiskSize build=.ok info.onDiskSize ∧
      info.compressionState=getCompressionState supported forkFailure decmpfsFailure stat.inode := by
  unfold getFileInfo at h
  obtain ⟨onDiskSize,hsize,h⟩ := except_bind_ok_iff.mp h
  obtain rfl := Except.ok.inj h
  exact ⟨hsize,rfl⟩

/-- The flag is one bit: it is set as soon as anything of it is. -/
theorem ufCompressed_bit (flags : BitVec 32) :
    flags &&& ufCompressed=ufCompressed ↔ flags &&& ufCompressed≠0 := by
  have htwo : ufCompressed=BitVec.twoPow 32 5 := by decide
  rw [htwo,BitVec.and_twoPow]
  split
  · decide
  · decide

/-- Both ways to tell a compressed file agree. -/
theorem isCompressed_eq {supported : Except IoError Bool}
    {forkFailure decmpfsFailure : Option IoError} {inode : Inode} {info : FileInfo}
    (h : info.compressionState=getCompressionState supported forkFailure decmpfsFailure inode) :
    info.isCompressed=(inode.metadata.flags &&& ufCompressed==ufCompressed).toNat := by
  have hcompressed : info.compressionState=.compressed ↔
      inode.metadata.flags &&& ufCompressed=ufCompressed := by
    rw [h,compressed_iff,ufCompressed_bit]
  have hother : info.compressionState≠.compressed →
      (inode.metadata.flags &&& ufCompressed==ufCompressed)=false :=
    fun hne => beq_eq_false_iff_ne.mpr fun hbit => hne (hcompressed.mpr hbit)
  unfold FileInfo.isCompressed
  cases hinfo : info.compressionState with
  | compressed => rw [beq_iff_eq.mpr (hcompressed.mp hinfo),Bool.toNat_true]
  | compressible => rw [hother (by rw [hinfo]; nofun),Bool.toNat_false]
  | incompressible reason => rw [hother (by rw [hinfo]; nofun),Bool.toNat_false]

/-- The scan counts of an entry that is not a directory what the recursive information adds. -/
theorem counts_eq {item : Except IoError Entry} {entry : Entry} {dirEntry : DirEntry}
    (hread : Readable build item entry) (hdir : entry.fileType≠.dir)
    (hseen : Seen build entry dirEntry) :
    starts (counts dirEntry).toList=share build item := by
  obtain rfl := hread.had
  have hmetadata := hseen.metadata
  rw [hread.linkMetadata] at hmetadata
  cases htype : entry.fileType with
  | dir => exact absurd htype hdir
  | other =>
    have hfile : dirEntry.isFile=false := by
      have hno := hseen.isFile
      rw [htype] at hno
      simpa using hno
    simp [counts,share,hfile,htype,starts]
  | file =>
    have hfile : dirEntry.isFile=true := hseen.isFile.mpr htype
    by_cases hlinks : 1< entry.stat.inode.metadata.nlink
    · simp [counts,share,hfile,htype,hlinks,hmetadata,starts,Stat.answer,Except.map]
    · have hcounted : Counted entry := ⟨htype,Nat.not_lt.mp hlinks⟩
      obtain ⟨info,hinfo⟩ := hread.info hcounted
      obtain ⟨hsize,hlen,hflag⟩ := get_ok hinfo
      obtain ⟨hsame,hstate⟩ := getFileInfo_ok (hseen.fileInfo hcounted)
      have hdisk : (dirEntry.fileInfo entry.stat.inode).onDiskSize=info.onDiskSize :=
        Except.ok.inj (hsame.symm.trans hsize)
      have hcompressed := isCompressed_eq hstate
      rw [←hflag] at hcompressed
      simp [counts,share,hfile,htype,hlinks,hmetadata,hinfo,starts,ofNote,ofFile,Stat.answer,
        Except.map,hdisk,hcompressed,hlen]

end Agreement

section Trees

variable {skipHidden : Bool} {isTempDir : List UInt8→Bool}

/-- The name of a root does not change with what is left of its tree. -/
theorem hidden_without {t rest : Tree} (h : t.without isTempDir=some rest) :
    rest.hidden=t.hidden := by
  cases t with
  | node entry children =>
    unfold Tree.without at h
    split at h
    · cases h
    · obtain rfl := Option.some.inj h
      cases entry <;> rfl

mutual

/-- The walk of the scan is a walk over what is left without the directories of the operation. -/
theorem walkDirOver_eq (t : Tree) :
    walkDirOver skipHidden isTempDir t=((t.without isTempDir).map (walkDir skipHidden)).getD [] := by
  cases t with
  | node entry children =>
    unfold walkDirOver Tree.without
    split
    · rfl
    · rw [walkChildrenOver_eq children]
      rfl

/-- The same below a directory. -/
theorem walkChildrenOver_eq (ts : List Tree) :
    walkChildrenOver skipHidden isTempDir ts=
      walkChildren skipHidden (childrenWithout isTempDir ts) := by
  cases ts with
  | nil => rfl
  | cons t ts =>
    unfold walkChildrenOver childrenWithout
    rw [walkDirOver_eq t,walkChildrenOver_eq ts]
    cases hleft : t.without isTempDir with
    | none => simp
    | some rest => simp [walkChildren,hidden_without hleft]

end

end Trees

section Totals

variable {build : Build} {items : List (Except IoError Entry)}

/-- The number of files that are counted. -/
def countedFiles (items : List (Except IoError Entry)) : ℕ :=
  items.countP fun
    | .ok entry => decide (Counted entry)
    | .error _ => false

/-- The total of a list with one more entry. -/
theorem total_cons (item : Except IoError Entry) (items : List (Except IoError Entry)) :
    total build (item::items)=share build item+total build items := List.sum_cons

/-- An entry adds one file if it is counted, and no more compressed files than files. -/
theorem share_files {item : Except IoError Entry} {entry : Entry}
    (hread : Readable build item entry) :
    (share build item).numFiles=(decide (Counted entry)).toNat ∧
      (share build item).numCompressedFiles≤(share build item).numFiles := by
  obtain rfl := hread.had
  cases htype : entry.fileType with
  | dir => simp [share,htype,ofFolder,Counted]
  | other => simp [share,htype,Counted]
  | file =>
    by_cases hlinks : 1< entry.stat.inode.metadata.nlink
    · have hno : ¬Counted entry := fun hcounted => absurd hcounted.2 (Nat.not_le.mpr hlinks)
      simp [share,htype,hlinks,hno]
    · have hcounted : Counted entry := ⟨htype,Nat.not_lt.mp hlinks⟩
      obtain ⟨info,hinfo⟩ := hread.info hcounted
      simp [share,htype,hlinks,hinfo,ofFile,hcounted,Bool.toNat_le]

/-- The total has the number of counted files, and no more compressed files. -/
theorem total_files (hitems : ∀ item∈items, ∃ entry, Readable build item entry) :
    (total build items).numFiles=countedFiles items ∧
      (total build items).numCompressedFiles≤(total build items).numFiles := by
  induction items with
  | nil => exact ⟨rfl,Nat.le_refl 0⟩
  | cons item items ih =>
    obtain ⟨⟨entry,hread⟩,hrest⟩ := List.forall_mem_cons.mp hitems
    obtain ⟨hfiles,hcompressed⟩ := ih hrest
    obtain ⟨hone,hle⟩ := share_files hread
    obtain rfl := hread.had
    rw [total_cons]
    simp only [numFiles_add,numCompressedFiles_add,countedFiles,List.countP_cons] at hfiles ⊢
    constructor
    · rw [hone,hfiles]
      by_cases hcounted : Counted entry <;> simp [hcounted,Nat.add_comm]
    · omega

/-- Without the directories only the number of folders is missing from the total. -/
theorem total_walkerRun (hitems : ∀ item∈items, ∃ entry, Readable build item entry) :
    ∃ folders, total build items=total build ((walkerRun items).map .ok)+⟨0,folders,0,0,0⟩ := by
  induction items with
  | nil => exact ⟨0,rfl⟩
  | cons item items ih =>
    obtain ⟨⟨entry,hread⟩,hrest⟩ := List.forall_mem_cons.mp hitems
    obtain ⟨folders,hfolders⟩ := ih hrest
    obtain rfl := hread.had
    by_cases hdir : entry.fileType=.dir
    · have hskip : walkerRun (.ok entry::items)=walkerRun items := by
        simp [walkerRun,Stat.answer,hread.entryMetadata,hdir]
      have hshare : share build (.ok entry)=ofFolder := by simp [share,hdir]
      refine ⟨1+folders,?_⟩
      rw [total_cons,hskip,hshare,hfolders,add_left_comm]
      rfl
    · have hkeep : walkerRun (.ok entry::items)=entry::walkerRun items := by
        simp [walkerRun,Stat.answer,hread.entryMetadata,hdir]
      refine ⟨folders,?_⟩
      rw [total_cons,hkeep,hfolders,List.map_cons,total_cons,add_assoc]

/-- What came to the callback can be read and is not a directory. -/
theorem mem_walkerRun (hitems : ∀ item∈items, ∃ entry, Readable build item entry) {entry : Entry}
    (h : entry∈walkerRun items) : Readable build (.ok entry) entry ∧ entry.fileType≠.dir := by
  obtain ⟨item,hitem,hkept⟩ := List.mem_filterMap.mp h
  obtain ⟨found,hread⟩ := hitems item hitem
  obtain rfl := hread.had
  simp only [Stat.answer,hread.entryMetadata] at hkept
  split at hkept
  · cases hkept
  · next hdir =>
    obtain rfl := Option.some.inj hkept
    exact ⟨hread,hdir⟩

/-- The scan counts the shares of the entries that came to its callback. -/
theorem starts_eq_total {entries : List Entry} {dirEntries : List DirEntry}
    (hentries : ∀ entry∈entries, Readable build (.ok entry) entry ∧ entry.fileType≠.dir)
    (hseen : List.Forall₂ (Seen build) entries dirEntries) :
    starts (dirEntries.filterMap counts)=total build (entries.map .ok) := by
  induction hseen with
  | nil => rfl
  | @cons entry dirEntry entries dirEntries hfirst _ ih =>
    obtain ⟨⟨hread,hdir⟩,hrest⟩ := List.forall_mem_cons.mp hentries
    have hshare := counts_eq hread hdir hfirst
    rw [List.map_cons,total_cons,←ih hrest,←hshare]
    cases hcounts : counts dirEntry with
    | none => simp [hcounts,starts]
    | some note => simp [hcounts,starts]

end Totals

section Results

variable {build : Build} {skipHidden : Bool} {isTempDir : List UInt8→Bool}

/-- The information agrees with the statistics. -/
structure Agrees (info : AfscFolderInfo) (stats : Stats) : Prop where
  /-- The number of files. -/
  files : info.numFiles=stats.files
  /-- The number of compressed files. -/
  compressed : info.numCompressedFiles=stats.compressedFileCountStart
  /-- The total size. -/
  lengths : info.totalUncompressedSize=stats.totalFileSizes
  /-- The allocated size. -/
  disk : info.totalCompressedSize=stats.compressedSizeStart

/-- Counters and information that show the same sums agree, if they can hold the number of files. -/
theorem agrees_of_show {sum info : AfscFolderInfo} {stats : Stats} (h : Show stats sum)
    (hinfo : inRange build sum=.ok info) (hfew : sum.numFiles<2^32)
    (hle : sum.numCompressedFiles≤ sum.numFiles) : Agrees info stats := by
  have hcompressed : sum.numCompressedFiles<2^32 := Nat.lt_of_le_of_lt hle hfew
  obtain ⟨hf,hc,hl,hd⟩ := h
  cases build with
  | release =>
    obtain rfl := Except.ok.inj hinfo
    constructor
    · rw [hf]
      unfold wrap
      dsimp only
      omega
    · rw [hc]
      unfold wrap
      dsimp only
      omega
    · exact hl.symm
    · exact hd.symm
  | debug =>
    by_cases hfits : Fits sum
    · obtain rfl := Except.ok.inj ((inRange_of_fits .debug hfits).symm.trans hinfo)
      obtain ⟨_,_,_,hlength,hdisk⟩ := hfits
      constructor <;> omega
    · rw [inRange_of_not_fits hfits] at hinfo
      cases hinfo

/-- For every tree whose entries can be read and whose counted files are fewer than 2^32, in a
release build, or if the totals fit their counters: the recursive information is the same for every
way to split the entries into groups and every order of reducing the results, and it agrees with
what every scan of the tree counts, its own directories aside. In a debug build the additions of
totals that do not fit overflow, whatever the groups and the order. -/
theorem info_agrees_with_scan {seen shown : Tree} (hshown : seen.without isTempDir=some shown)
    (hread : ∀ item∈walkDir skipHidden shown, ∃ entry, Readable build item entry)
    (hfew : countedFiles (walkDir skipHidden shown)<2^32) :
    (build=.release ∨ Fits (total build (walkDir skipHidden shown)) →
      ∃ info, (∀ plan : Plan (Except IoError Entry), plan.items.Perm (walkDir skipHidden shown) →
          getRecursive build plan=.ok info) ∧
        ∀ config stopped trace s stats, Run (step config) (.initial stopped) trace s →
          Scans build skipHidden isTempDir seen trace → Reports s stats → Agrees info stats) ∧
    (¬(build=.release ∨ Fits (total build (walkDir skipHidden shown))) →
      ∀ plan : Plan (Except IoError Entry), plan.items.Perm (walkDir skipHidden shown) →
        getRecursive build plan=.error (.panic addOverflow)) := by
  obtain ⟨hfiles,hle⟩ := total_files hread
  rw [←hfiles] at hfew
  constructor
  · intro hrange
    obtain ⟨info,hinfo⟩ : ∃ info, inRange build (total build (walkDir skipHidden shown))=.ok info := by
      rcases hrange with rfl|hfits
      · exact ⟨_,rfl⟩
      · exact ⟨_,inRange_of_fits build hfits⟩
    refine ⟨info,fun plan hplan => (getRecursive_eq hread hplan).trans hinfo,?_⟩
    intro config stopped trace s stats hrun hscans hreports
    obtain ⟨walked,hwalked,hseen⟩ := hscans
    rw [walkDirOver_eq,hshown] at hwalked
    have hwalkedRead : ∀ item∈walked, ∃ entry, Readable build item entry :=
      fun item hitem => hread item (hwalked.mem_iff.mp hitem)
    obtain ⟨folders,hfolders⟩ := total_walkerRun hwalkedRead
    have htotal : total build walked=total build (walkDir skipHidden shown) :=
      (hwalked.map (share build)).sum_eq
    have hshow := show_of_run hrun hreports
    rw [starts_eq_total (fun entry => mem_walkerRun hwalkedRead) hseen] at hshow
    have hsums : Show stats (total build (walkDir skipHidden shown)) := by
      rw [←htotal,hfolders]
      exact ⟨hshow.files,hshow.compressed,hshow.lengths,hshow.disk⟩
    exact agrees_of_show hsums hinfo hfew hle
  · intro hrange plan hplan
    obtain ⟨hbuild,hfits⟩ := not_or.mp hrange
    rw [getRecursive_eq hread hplan]
    cases build with
    | release => exact absurd rfl hbuild
    | debug => exact inRange_of_not_fits hfits

/-- An entry without attributes for which everything succeeds. -/
def plainEntry (fileType : FileType) (stat : Stat) (path : List UInt8) : Entry where
  path := path
  hidden := false
  fileType := fileType
  stat := stat
  entryFailure := none
  linkFailure := none
  pathFailure := none
  xattrNames := .ok []
  xattrLen := fun _ => .ok none
  decmpfs := .ok none

/-- Without blocks nothing is on disk. -/
theorem noBlocks_onDiskSize (build : Build) (inode : Inode) :
    (⟨inode,0,4096⟩ : Stat).onDiskSize build=.ok 0 := by
  simp [Stat.onDiskSize,times,unsigned,roundToBlockSize,bind,Except.bind]

/-- What `get` returns of it. -/
theorem get_plainEntry {build : Build} {stat : Stat} {onDiskSize : ℕ}
    (h : stat.onDiskSize build=.ok onDiskSize) (fileType : FileType) (path : List UInt8) :
    FolderInfo.get build (plainEntry fileType stat path)=
      .ok ⟨stat.inode.metadata.flags &&& ufCompressed==ufCompressed,onDiskSize,
        stat.inode.metadata.len,0,0,none,none⟩ := by
  simp [FolderInfo.get,plainEntry,Stat.answer,question,h,bind,Except.bind,pure,Except.pure]

/-- It can be read if its size can be computed. -/
theorem plainEntry_readable {build : Build} {stat : Stat} {onDiskSize : ℕ}
    (h : stat.onDiskSize build=.ok onDiskSize) (fileType : FileType) (path : List UInt8) :
    Readable build (.ok (plainEntry fileType stat path)) (plainEntry fileType stat path) :=
  ⟨rfl,rfl,rfl,fun _ => ⟨_,get_plainEntry h fileType path⟩⟩

/-- A folder. -/
def folderEntry (path : List UInt8) : Entry := plainEntry .dir ⟨emptyFile,0,4096⟩ path

/-- A file of five bytes on one block. -/
def plainInode : Inode := ⟨⟨true,1,2,5,0,0,0,0,1,0⟩,[1,2,3,4,5],none,none⟩

/-- A compressed file of three bytes without blocks. -/
def compressedInode : Inode :=
  ⟨⟨true,1,3,3,0,0,0,0,1,ufCompressed⟩,[1,2,3],none,
    some (DecmpfsValue.Value.toBytes ⟨.new .lzvn .xattr,3,[6,1,2,3]⟩)⟩

/-- The first file in a folder. -/
def fiveByteEntry : Entry := plainEntry .file ⟨plainInode,8,4096⟩ [1]

/-- Its block is on disk. -/
theorem fiveByteEntry_onDiskSize : fiveByteEntry.stat.onDiskSize .debug=.ok 4096 := by
  simp [fiveByteEntry,plainEntry,Stat.onDiskSize,times,unsigned,roundToBlockSize,bind,Except.bind]

/-- The second one, with the attribute that holds it. -/
def compressedEntry : Entry :=
  {plainEntry .file ⟨compressedInode,0,4096⟩ [3] with
    xattrNames := .ok [decmpfsName]
    decmpfs := .ok compressedInode.decmpfs}

/-- It has no blocks. -/
theorem compressedEntry_onDiskSize : compressedEntry.stat.onDiskSize .debug=.ok 0 :=
  noBlocks_onDiskSize .debug compressedInode

/-- What is asked about it has answers. -/
theorem compressedEntry_readable : Readable .debug (.ok compressedEntry) compressedEntry := by
  have hstat : question (compressedEntry.stat.answer compressedEntry.pathFailure)=
      .ok compressedEntry.stat := rfl
  have hnames : compressedEntry.xattrNames=.ok [decmpfsName] := rfl
  have hvisit : visitXattr .debug compressedEntry ⟨0,0,none,none⟩ decmpfsName=
      .ok ⟨0,0,none,some (decmpfsInfoFromBytes
        (DecmpfsValue.Value.toBytes ⟨.new .lzvn .xattr,3,[6,1,2,3]⟩))⟩ := rfl
  have hget : FolderInfo.get .debug compressedEntry=.ok ⟨true,0,3,0,0,none,some (decmpfsInfoFromBytes
      (DecmpfsValue.Value.toBytes ⟨.new .lzvn .xattr,3,[6,1,2,3]⟩))⟩ := by
    unfold FolderInfo.get
    simp only [hstat,compressedEntry_onDiskSize,hnames,List.foldlM_cons,List.foldlM_nil,hvisit,bind,
      Except.bind,pure,Except.pure]
    rfl
  exact ⟨rfl,rfl,rfl,fun _ => ⟨_,hget⟩⟩

/-- The folder of both while the scan has its own directory in it. -/
def scannedFolder : Tree :=
  .node (.ok (folderEntry [])) [.node (.ok fiveByteEntry) [],.node (.ok (folderEntry [2])) [],
    .node (.ok compressedEntry) []]

/-- The folder of both. -/
def shownFolder : Tree :=
  .node (.ok (folderEntry [])) [.node (.ok fiveByteEntry) [],.node (.ok compressedEntry) []]

/-- What the scan sees of the first file. -/
def fiveByteDirEntry : DirEntry := ⟨true,.ok plainInode,4096,.ok true,none,none,none⟩

/-- What it sees of the second one. -/
def compressedDirEntry : DirEntry := ⟨true,.ok compressedInode,0,.ok true,none,none,none⟩

/-- A scan that decompresses skips the first file and reads the second one. -/
def twoFileEvents : List Event :=
  [.startWalk,.consider fiveByteDirEntry 1,.countEnd,.consider compressedDirEntry 1,.makeContext,
    .submit,.send,.finishWalk,.file 1 .takeRead,.endWalk,.file 1 (.openFile true),.file 1 .hand,
    .file 1 .takeWrite,.dropOperation,.file 1 .finishReading,.file 1 (.write true),
    .file 1 (.drop .reader),.file 1 (.report .writer true),
    .file 1 (.count .writer ⟨4096,.compressible⟩),.file 1 (.drop .writer),.file 1 .dropContext,
    .file 1 .dropOperation,.receiveStats]

/-- A debug build gets the same of the folder in two groups as the scan has counted: two files of
eight bytes, one of them compressed, on one block. -/
theorem info_agrees_with_scan_two_files : ∃ info trace s stats,
    getRecursive .debug (.join (.fold [.ok compressedEntry,.ok fiveByteEntry])
      (.fold [.ok (folderEntry [])]))=.ok info ∧
      Run (step ⟨.decompressByReading,.direct,1,1⟩) (.initial false) trace s ∧
      s.phase=.finished stats ∧ stats.files=2 ∧ stats.compressedFileCountStart=1 ∧
      stats.totalFileSizes=8 ∧ stats.compressedSizeStart=4096 ∧ Agrees info stats := by
  have hread : ∀ item∈walkDir false shownFolder, ∃ entry, Readable .debug item entry :=
    List.forall_mem_cons.mpr ⟨⟨_,plainEntry_readable (noBlocks_onDiskSize .debug emptyFile) .dir []⟩,
      List.forall_mem_cons.mpr ⟨⟨_,plainEntry_readable fiveByteEntry_onDiskSize .file [1]⟩,
        List.forall_mem_singleton.mpr ⟨_,compressedEntry_readable⟩⟩⟩
  have hagrees := @info_agrees_with_scan .debug false (fun path => path==[2]) scannedFolder
    shownFolder rfl hread (by decide +kernel)
  obtain ⟨info,hsame,hscan⟩ := hagrees.1 (.inr (by decide +kernel))
  have run := @run_of_replay _ _ (step ⟨.decompressByReading,.direct,1,1⟩) (.initial false) _
    twoFileEvents _ rfl
  have hplain : Seen .debug fiveByteEntry fiveByteDirEntry := by
    refine ⟨by decide,rfl,fun _ => ?_⟩
    unfold getFileInfo
    rw [fiveByteEntry_onDiskSize]
    rfl
  have hcompressed : Seen .debug compressedEntry compressedDirEntry := by
    refine ⟨by decide,rfl,fun _ => ?_⟩
    unfold getFileInfo
    rw [compressedEntry_onDiskSize]
    rfl
  have hplan : [Except.ok compressedEntry,.ok fiveByteEntry,.ok (folderEntry [])].Perm
      (walkDir false shownFolder) := List.reverse_perm (walkDir false shownFolder)
  exact ⟨info,_,_,_,hsame _ hplan,run,rfl,rfl,rfl,rfl,rfl,
    hscan _ _ _ _ _ run ⟨_,.refl _,.cons hplain (.cons hcompressed .nil)⟩ (.inl rfl)⟩

/-- A sparse file that is as long as a file can be. -/
def sparseEntry : Entry := plainEntry .file ⟨{emptyFile with
  metadata := {emptyFile.metadata with len := 2^63-1}},0,4096⟩ [1]

/-- Three of them in a folder. -/
def sparseFolder : Tree := .node (.ok (folderEntry []))
  [.node (.ok sparseEntry) [],.node (.ok sparseEntry) [],.node (.ok sparseEntry) []]

/-- A debug build has no result for them. -/
theorem sparse_folder_overflows : ¬∀ (build : Build) (skipHidden : Bool) (tree : Tree),
    (∀ item∈walkDir skipHidden tree, ∃ entry, Readable build item entry) →
      countedFiles (walkDir skipHidden tree)<2^32 →
        ∃ info, ∀ plan : Plan (Except IoError Entry), plan.items.Perm (walkDir skipHidden tree) →
          getRecursive build plan=.ok info := by
  intro hall
  have hsparse : ∃ entry, Readable .debug (.ok sparseEntry) entry :=
    ⟨_,plainEntry_readable (noBlocks_onDiskSize .debug _) .file [1]⟩
  have hread : ∀ item∈walkDir false sparseFolder, ∃ entry, Readable .debug item entry :=
    List.forall_mem_cons.mpr ⟨⟨_,plainEntry_readable (noBlocks_onDiskSize .debug emptyFile) .dir []⟩,
      List.forall_mem_cons.mpr ⟨hsparse,List.forall_mem_cons.mpr ⟨hsparse,
        List.forall_mem_singleton.mpr hsparse⟩⟩⟩
  obtain ⟨info,hinfo⟩ := hall .debug false sparseFolder hread (by decide +kernel)
  have hok := hinfo (.fold (walkDir false sparseFolder)) (.refl _)
  have hlarge : ¬Fits (total .debug (walkDir false sparseFolder)) := by decide +kernel
  rw [getRecursive_eq hread (.refl _),inRange_of_not_fits hlarge] at hok
  cases hok

end Results

end Applesauce.InfoAccounting
