import Applesauce.UntrustedForks

/-!
# Reading files that others have written

Once a reader is open no call of it panics, whatever table it has been given,
and every block it returns is one less to come, also when the caller goes on
after an error. Opening an LZVN or LZFSE file is the only place left where the
declared size matters.
-/

namespace Applesauce.UntrustedReads

open RustIo SparseFile SeekableFile ByteWords DecmpfsValue BlockTables DecmpfsReader PanicFreedom
open UntrustedForks

/-- Every number a reader calculates with fits 32 bits, so that the distance of a seek fits
a signed word of 64 bits. -/
def InReach (r : Reader) : Prop :=
  match r.state with
  | .xattr _ => True
  | .resourceFork blockInfos lastOffset _ => lastOffset≤u32Max ∧ InWords blockInfos

/-- One call with any buffer leads from one state of the reader to another, with the
number of blocks it returned. -/
def Call (r next : Reader) (returned : ℕ) : Prop :=
  ∃ dst out, (readBlockInto (r,dst)=.ok true (next,out) ∧ returned=1) ∨
    (readBlockInto (r,dst)=.ok false (next,out) ∧ returned=0) ∨
    ∃ e, readBlockInto (r,dst)=.error e (next,out) ∧ returned=0

/-- The states of a reader after calls with any buffers, and the number of blocks
that these calls have returned. A caller may go on after an error. -/
inductive Follows (r : Reader) : ℕ→Reader→Prop where
  /-- No call has been made. -/
  | start : Follows r 0 r
  /-- One more call. -/
  | call {count returned : ℕ} {mid next : Reader} (before : Follows r count mid)
      (last : Call mid next returned) : Follows r (count+returned) next

section Attribute

/-- The attribute is read to its end by the first call. -/
theorem remainingBlocks_readUpTo (kind : Kind) (cursor after : Cursor) {bytes : List UInt8}
    (h : Cursor.readUpTo (cursor.bytes.length-cursor.pos) cursor=.ok bytes after) :
    (⟨kind,.xattr after⟩ : Reader).remainingBlocks+(if 0<bytes.length then 1 else 0)≤
      (⟨kind,.xattr cursor⟩ : Reader).remainingBlocks := by
  obtain ⟨hbytes,hafter⟩ := EStateM.Result.ok.inj h
  have hlen : bytes.length=cursor.bytes.length-cursor.pos := by
    rw [←hbytes]
    unfold readAt
    rw [List.length_take,List.length_drop,Nat.min_self]
  subst hafter
  unfold Reader.remainingBlocks
  dsimp only
  rw [hbytes,hlen]
  split <;> split <;> omega

end Attribute

section Calls

/-- What a call that takes an entry from the table leaves behind. -/
theorem readBlockInto_entry_cases {kind : Kind} {block : BlockInfo} {blockInfos : List BlockInfo}
    {lastOffset : ℕ} {reader : Cursor} {dst : List UInt8} :
    ∃ last after out, (last=lastOffset ∨ last≤u32Max) ∧
      (readBlockInto (⟨kind,.resourceFork (block::blockInfos) lastOffset reader⟩,dst)=
          .ok true (⟨kind,.resourceFork blockInfos last after⟩,out) ∨
        ∃ e, readBlockInto (⟨kind,.resourceFork (block::blockInfos) lastOffset reader⟩,dst)=
          .error (.error e) (⟨kind,.resourceFork blockInfos last after⟩,out)) := by
  unfold readBlockInto
  dsimp only
  cases hseek : Cursor.seek (.current ((block.offset : ℤ)-lastOffset)) reader with
  | error fault after =>
    cases fault with
    | error e => exact ⟨lastOffset,after,dst,.inl rfl,.inr ⟨e,rfl⟩⟩
    | panic message => exact absurd hseek (calm_seek _ _ message after)
  | ok pos after =>
    simp only [Cursor.readUpTo]
    by_cases hshort : (readAt after.bytes after.pos block.compressedSize).length<block.compressedSize
    · rw [if_pos hshort]
      exact ⟨lastOffset,_,_,.inl rfl,.inr ⟨_,rfl⟩⟩
    · rw [if_neg hshort]
      by_cases hfit : block.offset+block.compressedSize≤u32Max
      · rw [if_pos hfit]
        exact ⟨_,_,_,.inr hfit,.inl rfl⟩
      · rw [if_neg hfit]
        exact ⟨lastOffset,_,_,.inl rfl,.inr ⟨_,rfl⟩⟩

/-- No call of an open reader panics. -/
theorem readBlockInto_calm (r : Reader) (dst : List UInt8) : Calm readBlockInto (r,dst) := by
  obtain ⟨kind,state⟩ := r
  cases state with
  | xattr cursor => exact fun message t hbad => nomatch hbad
  | resourceFork blockInfos lastOffset reader =>
    cases blockInfos with
    | nil => exact fun message t hbad => nomatch hbad
    | cons block blockInfos =>
      obtain ⟨last,after,out,_,hres|⟨e,hres⟩⟩ := @readBlockInto_entry_cases kind block blockInfos
        lastOffset reader dst
      · exact calm_of_ok hres
      · exact calm_of_error hres

/-- A call returns at most one block, which is then no longer among those to come, and
its numbers stay in reach. -/
theorem Call.remaining {r next : Reader} {returned : ℕ} (h : Call r next returned) :
    next.remainingBlocks+returned≤r.remainingBlocks ∧ (InReach r→InReach next) := by
  obtain ⟨dst,out,hcall⟩ := h
  obtain ⟨kind,state⟩ := r
  cases state with
  | xattr cursor =>
    have hread := remainingBlocks_readUpTo kind cursor _ rfl
    rcases hcall with ⟨hok,rfl⟩|⟨hok,rfl⟩|⟨e,herr,_⟩
    · obtain ⟨hmore,hnext⟩ := EStateM.Result.ok.inj hok
      obtain ⟨rfl,_⟩ := Prod.mk.inj hnext
      rw [if_pos (of_decide_eq_true hmore)] at hread
      exact ⟨hread,fun _ => trivial⟩
    · obtain ⟨hmore,hnext⟩ := EStateM.Result.ok.inj hok
      obtain ⟨rfl,_⟩ := Prod.mk.inj hnext
      rw [if_neg (of_decide_eq_false hmore)] at hread
      exact ⟨hread,fun _ => trivial⟩
    · cases herr
  | resourceFork blockInfos lastOffset reader =>
    cases blockInfos with
    | nil =>
      rcases hcall with ⟨hok,_⟩|⟨hok,rfl⟩|⟨e,herr,_⟩
      · cases hok
      · obtain ⟨_,hnext⟩ := EStateM.Result.ok.inj hok
        obtain ⟨rfl,_⟩ := Prod.mk.inj hnext
        exact ⟨Nat.le_refl _,id⟩
      · cases herr
    | cons block blockInfos =>
      obtain ⟨last,after,rest,hlast,hcases⟩ := @readBlockInto_entry_cases kind block blockInfos
        lastOffset reader dst
      have hnext : next=⟨kind,.resourceFork blockInfos last after⟩ ∧ returned≤1 := by
        rcases hcases with hres|⟨e,hres⟩
        · rw [hres] at hcall
          rcases hcall with ⟨hok,rfl⟩|⟨hok,_⟩|⟨e,herr,_⟩
          · obtain ⟨_,heq⟩ := EStateM.Result.ok.inj hok
            exact ⟨(Prod.mk.inj heq).1.symm,Nat.le_refl 1⟩
          · cases hok
          · cases herr
        · rw [hres] at hcall
          rcases hcall with ⟨hok,_⟩|⟨hok,_⟩|⟨e',herr,rfl⟩
          · cases hok
          · cases hok
          · obtain ⟨_,heq⟩ := EStateM.Result.error.inj herr
            exact ⟨(Prod.mk.inj heq).1.symm,Nat.zero_le 1⟩
      obtain ⟨rfl,hone⟩ := hnext
      refine ⟨Nat.add_le_add_left hone _,fun hreach => ?_⟩
      obtain ⟨hold,hwords⟩ := hreach
      refine ⟨?_,fun info hinfo => hwords info (List.mem_cons_of_mem _ hinfo)⟩
      rcases hlast with rfl|hfit
      · exact hold
      · exact hfit

/-- The blocks returned so far and those to come are never more than there were. -/
theorem Follows.remaining {r next : Reader} {count : ℕ} (h : Follows r count next) :
    next.remainingBlocks+count≤r.remainingBlocks ∧ (InReach r→InReach next) := by
  induction h with
  | start => exact ⟨Nat.le_refl _,id⟩
  | call before last ih =>
    obtain ⟨hcount,hreach⟩ := last.remaining
    refine ⟨?_,fun hr => hreach (ih.2 hr)⟩
    have hle := ih.1
    omega

/-- A loop of calls whose last one still returned a block has returned them all. -/
theorem readAll_true {count : ℕ} {r : Reader} {dst : List UInt8} {t : Reader×List UInt8}
    (h : readAll count (r,dst)=.ok true t) : count+1≤r.remainingBlocks := by
  induction count generalizing r dst with
  | zero =>
    have hcall : Call r t.1 1 := ⟨dst,t.2,.inl ⟨h,rfl⟩⟩
    have hle := hcall.remaining.1
    omega
  | succ count ih =>
    obtain ⟨more,u,hread,hrest⟩ := bind_ok_iff.mp h
    cases more with
    | false => cases hrest
    | true =>
      have hcall : Call r u.1 1 := ⟨dst,u.2,.inl ⟨hread,rfl⟩⟩
      have hle := hcall.remaining.1
      have hmore := ih hrest
      omega

end Calls

section Opening

/-- Opening a file and reading it to the end is total, if the attribute declares this size. -/
structure ReadsTotally (data fork : List UInt8) (uncompressedSize : ℕ) : Prop where
  /-- The 64-bit size of the offset table does not overflow. -/
  table : Lz.headerSize (numBlocks uncompressedSize)≤u64Max
  /-- Opening returns a reader or an error. -/
  opens : ∀ build message, Reader.new build data (.ok ⟨fork,0⟩)≠.error (.panic message)
  /-- So does each later call, whatever calls were made before it and with any buffer. -/
  calls : ∀ build r count next dst, Reader.new build data (.ok ⟨fork,0⟩)=.ok r →
    Follows r count next → Calm readBlockInto (next,dst)
  /-- The numbers of the reader stay in reach. -/
  reach : ∀ build r count next, Reader.new build data (.ok ⟨fork,0⟩)=.ok r →
    Follows r count next → InReach next
  /-- At most so many calls return a block, in whatever order calls are made. -/
  counted : ∀ build r count next, Reader.new build data (.ok ⟨fork,0⟩)=.ok r →
    Follows r count next → count≤ max 1 (numBlocks uncompressedSize)
  /-- A loop that goes on while blocks are returned has ended after one call more. -/
  ends : ∀ build r dst t, Reader.new build data (.ok ⟨fork,0⟩)=.ok r →
    readAll (max 1 (numBlocks uncompressedSize)) (r,dst)≠.ok true t

/-- A declared size is a number of 64 bits. -/
theorem fromData_uncompressedSize {data : List UInt8} {value : Value}
    (h : Value.fromData data=.ok value) : value.uncompressedSize≤u64Max := by
  unfold Value.fromData at h
  dsimp only at h
  split at h
  · cases h
  · split at h
    · cases h
    · obtain rfl := Except.ok.inj h
      dsimp only
      have hlt := leValue_lt (((data.take headerLen).drop 8).take 8)
      have hpow : 256^(((data.take headerLen).drop 8).take 8).length≤256^8 :=
        Nat.pow_le_pow_right (by decide) (List.length_take_le _ _)
      unfold u64Max
      omega

/-- The table of any file of 64 bits has a size of 64 bits. -/
theorem headerSize_le {size : ℕ} (h : size≤u64Max) : Lz.headerSize (numBlocks size)≤u64Max := by
  unfold Lz.headerSize numBlocks blockSize
  unfold u64Max at h ⊢
  omega

/-- Every known kind is compiled in. -/
theorem supported_storage {value : Value} {kind : Kind} {storage : Storage}
    (h : value.compressionType.compressionStorage=some (kind,storage)) :
    value.compressionType.compressionStorage.filter (fun p => p.1.supported)=some (kind,storage) := by
  rw [h]
  cases kind <;> rfl

/-- Opening a file whose data is in the attribute. -/
theorem new_xattr {data : List UInt8} {value : Value} {kind : Kind} (build : Build)
    (opener : Except Fault Cursor) (hvalue : Value.fromData data=.ok value)
    (hkind : value.compressionType.compressionStorage=some (kind,.xattr)) :
    Reader.new build data opener=.ok ⟨kind,.xattr ⟨value.extraData,0⟩⟩ := by
  have hstorage := supported_storage hkind
  simp only [Reader.new,hvalue,hstorage]

/-- Opening a file whose data is in the resource fork is parsing that. -/
theorem new_resourceFork {data : List UInt8} {value : Value} {kind : Kind} (build : Build)
    (rfork : Cursor) (hvalue : Value.fromData data=.ok value)
    (hkind : value.compressionType.compressionStorage=some (kind,.resourceFork)) :
    Reader.new build data (.ok rfork)=
      match readBlockInfo build kind value.uncompressedSize rfork with
      | .error fault _ => .error fault
      | .ok blocksInfo after => .ok ⟨kind,.resourceFork blocksInfo 0 {after with pos := 0}⟩ := by
  have hstorage := supported_storage hkind
  cases hread : readBlockInfo build kind value.uncompressedSize rfork with
  | error fault after => simp only [Reader.new,hvalue,hstorage,hread]
  | ok blocksInfo after => simp only [Reader.new,hvalue,hstorage,hread,Cursor.seek_start]

/-- A reader that was opened on a fork has parsed it. -/
theorem new_resourceFork_ok {data : List UInt8} {value : Value} {kind : Kind} {build : Build}
    {rfork : Cursor} {r : Reader} (hvalue : Value.fromData data=.ok value)
    (hkind : value.compressionType.compressionStorage=some (kind,.resourceFork))
    (h : Reader.new build data (.ok rfork)=.ok r) :
    ∃ infos after, readBlockInfo build kind value.uncompressedSize rfork=.ok infos after ∧
      r=⟨kind,.resourceFork infos 0 {after with pos := 0}⟩ := by
  rw [new_resourceFork build rfork hvalue hkind] at h
  cases hparse : readBlockInfo build kind value.uncompressedSize rfork with
  | error fault after =>
    rw [hparse] at h
    cases h
  | ok infos after =>
    rw [hparse] at h
    exact ⟨infos,after,rfl,(Except.ok.inj h).symm⟩

/-- The parser of an LZ kind. -/
theorem readBlockInfo_lz {kind : Kind} (build : Build) (origFileSize : ℕ) (hlz : kind≠.zlib) :
    readBlockInfo build kind origFileSize=Lz.readBlockInfo origFileSize := by
  cases kind with
  | zlib => exact absurd rfl hlz
  | lzvn => rfl
  | lzfse => rfl

/-- What is known of a reader that has just been opened is enough for everything after. -/
theorem readsTotally_of_opened {data fork : List UInt8} {uncompressedSize : ℕ}
    (hsize : uncompressedSize≤u64Max)
    (hopens : ∀ build message, Reader.new build data (.ok ⟨fork,0⟩)≠.error (.panic message))
    (hopened : ∀ build r, Reader.new build data (.ok ⟨fork,0⟩)=.ok r →
      r.remainingBlocks≤ max 1 (numBlocks uncompressedSize) ∧ InReach r) :
    ReadsTotally data fork uncompressedSize where
  table := headerSize_le hsize
  opens := hopens
  calls := fun _ _ _ next dst _ _ => readBlockInto_calm next dst
  reach := fun build r _ _ hnew hfollows => hfollows.remaining.2 (hopened build r hnew).2
  counted := by
    intro build r count next hnew hfollows
    have hle := hfollows.remaining.1
    have hbound := (hopened build r hnew).1
    omega
  ends := by
    intro build r dst t hnew hall
    have hle := readAll_true hall
    have hbound := (hopened build r hnew).1
    omega

/-- For every attribute of an LZ kind and every fork, opening and reading is total exactly
when the data is in the attribute or the offset table of the declared size fits 32 bits. -/
theorem lz_readsTotally_iff {data fork : List UInt8} {value : Value} {kind : Kind}
    {storage : Storage} (hvalue : Value.fromData data=.ok value)
    (hkind : value.compressionType.compressionStorage=some (kind,storage)) (hlz : kind≠.zlib) :
    ReadsTotally data fork value.uncompressedSize ↔
      storage=.xattr ∨ Lz.headerSize (numBlocks value.uncompressedSize)≤u32Max := by
  have hsize := fromData_uncompressedSize hvalue
  cases storage with
  | xattr =>
    refine iff_of_true ?_ (.inl rfl)
    refine readsTotally_of_opened hsize (fun build message hbad => ?_) fun build r hnew => ?_
    · rw [new_xattr build _ hvalue hkind] at hbad
      cases hbad
    · rw [new_xattr build _ hvalue hkind] at hnew
      obtain rfl := Except.ok.inj hnew
      refine ⟨?_,trivial⟩
      unfold Reader.remainingBlocks
      dsimp only
      split <;> omega
  | resourceFork =>
    have hnew := fun build => new_resourceFork build ⟨fork,0⟩ hvalue hkind
    simp only [readBlockInfo_lz _ _ hlz] at hnew
    have hcalm := lz_readBlockInfo_calm_iff value.uncompressedSize ⟨fork,0⟩
    constructor
    · intro htotal
      refine .inr (hcalm.mp fun message t hbad => ?_)
      refine htotal.opens .debug message ?_
      rw [hnew,hbad]
    · rintro (hxattr|hfit)
      · cases hxattr
      · have hquiet := hcalm.mpr hfit
        refine readsTotally_of_opened hsize (fun build message hbad => ?_) fun build r hopen => ?_
        · rw [hnew] at hbad
          cases hparse : Lz.readBlockInfo value.uncompressedSize ⟨fork,0⟩ with
          | error fault after =>
            rw [hparse] at hbad
            obtain rfl := Except.error.inj hbad
            exact hquiet message after hparse
          | ok infos after =>
            rw [hparse] at hbad
            cases hbad
        · obtain ⟨infos,after,hparse,rfl⟩ := new_resourceFork_ok hvalue hkind hopen
          rw [readBlockInfo_lz build _ hlz] at hparse
          obtain ⟨hlen,hwords⟩ := lz_readBlockInfo_ok hparse
          refine ⟨?_,Nat.zero_le _,hwords⟩
          have hcount : infos.length≤ max 1 (numBlocks value.uncompressedSize) := by
            rw [hlen]
            exact Nat.le_max_right _ _
          exact hcount

/-- An attribute of kind LZVN for a file of five bytes in a resource fork. -/
def smallFork : List UInt8 := magic++[8,0,0,0,5,0,0,0,0,0,0,0]

/-- The small file is opened and read totally. -/
theorem smallFork_readsTotally : ReadsTotally smallFork [8,0,0,0,10,0,0,0,6,1] 5 :=
  (@lz_readsTotally_iff smallFork _ ⟨⟨8⟩,5,[]⟩ .lzvn .resourceFork rfl rfl (by decide)).mpr
    (.inr (by decide))

/-- An attribute of kind LZVN that declares the largest size and a resource fork. -/
def hugeFork : List UInt8 := magic++[8,0,0,0,255,255,255,255,255,255,255,255]

/-- Opening the file with the largest declared size panics. -/
theorem hugeFork_panics :
    ¬∀ (data fork : List UInt8) (value : Value) (kind : Kind) (storage : Storage),
      Value.fromData data=.ok value →
      value.compressionType.compressionStorage=some (kind,storage) → kind≠.zlib →
      ReadsTotally data fork value.uncompressedSize := by
  intro hall
  have htotal := hall hugeFork [] ⟨⟨8⟩,18446744073709551615,[]⟩ .lzvn .resourceFork rfl rfl (by decide)
  exact htotal.opens .release "called `Result::unwrap()` on an `Err` value" rfl

end Opening

end Applesauce.UntrustedReads
