import Applesauce.FileThreads
import Mathlib.Data.List.DropRight
import Mathlib.Data.List.TakeWhile

/-!
# The sizes that scratch options accept

A size is a decimal number and an optional unit, with blanks around and
between them. It is accepted exactly when it is written so, is positive and
fits in 64 bits. What the options lead to is a scan with the limits that its
model asks for, or an error.
-/

namespace Applesauce.ScratchLimit

open RustIo FileThreads

section Model

/-- `char::is_whitespace`: the characters of the property `White_Space`. -/
def isWhitespace (c : Char) : Bool :=
  decide (9≤c.toNat ∧ c.toNat≤13 ∨ 0x2000≤c.toNat ∧ c.toNat≤0x200A ∨
    c.toNat∈[0x20,0x85,0xA0,0x1680,0x2028,0x2029,0x202F,0x205F,0x3000])

/-- `char::is_ascii_digit`. -/
def isAsciiDigit (c : Char) : Bool := decide (48≤c.toNat ∧ c.toNat≤57)

/-- `char::to_ascii_lowercase`. -/
def toAsciiLowercase (c : Char) : Char :=
  if 65≤c.toNat ∧ c.toNat≤90 then Char.ofNat (c.toNat+32) else c

/-- `str::trim`. -/
def trim (s : List Char) : List Char := (s.dropWhile isWhitespace).rdropWhile isWhitespace

/-- The number that digits stand for. -/
def digitsValue (digits : List Char) : ℕ := digits.foldl (fun n c => 10*n+(c.toNat-48)) 0

/-- `str::parse::<u64>` of digits. -/
def parseU64 (digits : List Char) : Option ℕ :=
  if digits≠[] ∧ digitsValue digits<2^64 then some (digitsValue digits) else none

/-- The units and what they stand for. -/
def units : List (List Char×ℕ) :=
  [([],1),(['b'],1),(['k','i','b'],1024),(['m','i','b'],1024^2),(['g','i','b'],1024^3),
    (['t','i','b'],1024^4),(['k','b'],1000),(['m','b'],1000^2),(['g','b'],1000^3),
    (['t','b'],1000^4)]

/-- `parse_scratch_limit`. -/
def parseScratchLimit (value : List Char) : Except String ℕ :=
  let value := trim value
  let number := value.takeWhile isAsciiDigit
  let suffix := value.dropWhile isAsciiDigit
  match parseU64 number,units.lookup ((trim suffix).map toAsciiLowercase) with
  | none,_ => .error "expected a positive integer size, such as 16GiB"
  | some _,none =>
    .error "expected bytes or a B, KB, MB, GB, TB, KiB, MiB, GiB, or TiB suffix"
  | some number,some multiplier =>
    if number*multiplier<2^64 ∧ 0<number*multiplier then .ok (number*multiplier)
    else .error "scratch limit must be greater than zero and fit in 64 bits"

/-- `DEFAULT_SCRATCH_LIMIT`. -/
def defaultScratchLimit : ℕ := 16*1024*1024*1024

end Model

section Words
variable {before middle after digits rest : List Char}

/-- All characters are blanks. -/
def Blank (s : List Char) : Prop := ∀ c∈s, isWhitespace c=true

/-- Neither end is a blank. -/
def Trimmed (s : List Char) : Prop :=
  ∀ h : s≠[], isWhitespace (s.head h)=false ∧ isWhitespace (s.getLast h)=false

/-- Blanks are removed before what does not start with one. -/
theorem dropWhile_blank (hbefore : Blank before)
    (hrest : ∀ h : rest≠[], isWhitespace (rest.head h)=false) :
    (before++rest).dropWhile isWhitespace=rest := by
  rw [List.dropWhile_append_of_pos hbefore]
  cases rest with
  | nil => rfl
  | cons c rest => exact List.dropWhile_cons_of_neg (Bool.eq_false_iff.mp (hrest (List.cons_ne_nil _ _)))

/-- Blanks around a word are removed. -/
theorem trim_append (hbefore : Blank before) (hafter : Blank after) (hmiddle : Trimmed middle) :
    trim (before++middle++after)=middle := by
  unfold trim
  by_cases hnone : middle=[]
  · have hall : ∀ c∈before++middle++after, isWhitespace c=true := by
      intro c hc
      rw [hnone,List.append_nil] at hc
      exact (List.mem_append.mp hc).elim (hbefore c) (hafter c)
    rw [List.dropWhile_eq_nil_iff.mpr hall,hnone]
    rfl
  · obtain ⟨hfirst,hlast⟩ := hmiddle hnone
    have hstart : (before++middle++after).dropWhile isWhitespace=middle++after := by
      rw [List.append_assoc]
      refine dropWhile_blank hbefore (fun h => ?_)
      rw [List.head_append_of_ne_nil hnone]
      exact hfirst
    have hreverse : middle.reverse≠[] := fun h => hnone (List.reverse_eq_nil_iff.mp h)
    rw [hstart,List.rdropWhile,List.reverse_append,dropWhile_blank,List.reverse_reverse]
    · exact fun c hc => hafter c (List.mem_reverse.mp hc)
    · intro h
      rw [List.head_reverse]
      exact hlast

/-- Only blanks are removed. -/
theorem trim_split (s : List Char) : ∃ before after, s=before++trim s++after ∧ Blank before ∧
    Blank after := by
  refine ⟨s.takeWhile isWhitespace,(s.dropWhile isWhitespace).rtakeWhile isWhitespace,?_,
    fun c hc => List.mem_takeWhile_imp hc,fun c hc => List.mem_rtakeWhile_imp hc⟩
  rw [List.append_assoc,trim,List.rdropWhile_append_rtakeWhile,List.takeWhile_append_dropWhile]

/-- Digits end where something else comes. -/
theorem span_digits (hdigits : ∀ c∈digits, isAsciiDigit c=true)
    (hrest : ∀ h : rest≠[], isAsciiDigit (rest.head h)=false) :
    (digits++rest).takeWhile isAsciiDigit=digits ∧ (digits++rest).dropWhile isAsciiDigit=rest := by
  rw [List.takeWhile_append_of_pos hdigits,List.dropWhile_append_of_pos hdigits]
  cases rest with
  | nil => exact ⟨List.append_nil digits,rfl⟩
  | cons c rest =>
    have hother : ¬isAsciiDigit c=true := Bool.eq_false_iff.mp (hrest (List.cons_ne_nil _ _))
    rw [List.takeWhile_cons_of_neg hother,List.append_nil]
    exact ⟨rfl,List.dropWhile_cons_of_neg hother⟩

/-- A digit is not a blank. -/
theorem not_blank_of_digit {c : Char} (h : isAsciiDigit c=true) : isWhitespace c=false := by
  have hrange := of_decide_eq_true h
  refine decide_eq_false fun hblank => ?_
  simp only [List.mem_cons,List.not_mem_nil,or_false] at hblank
  omega

/-- A blank is not a digit. -/
theorem not_digit_of_blank {c : Char} (h : isWhitespace c=true) : isAsciiDigit c=false := by
  refine Bool.eq_false_iff.mpr fun hdigit => ?_
  rw [not_blank_of_digit hdigit] at h
  cases h

/-- The units are written in small letters. -/
theorem units_letters : ∀ unit∈units, ∀ c∈unit.1, 97≤c.toNat ∧ c.toNat≤122 := by
  have hall : units.all (fun unit => unit.1.all fun c => decide (97≤c.toNat ∧ c.toNat≤122))=true :=
    rfl
  intro unit hunit c hc
  exact of_decide_eq_true (List.all_eq_true.mp (List.all_eq_true.mp hall unit hunit) c hc)

/-- No unit stands for nothing. -/
theorem units_pos : ∀ unit∈units, 0<unit.2 := by decide

/-- What is a small letter in lower case is neither a blank nor a digit. -/
theorem letter_of_lowercase {c : Char}
    (h : 97≤(toAsciiLowercase c).toNat ∧ (toAsciiLowercase c).toNat≤122) :
    isWhitespace c=false ∧ isAsciiDigit c=false := by
  have hrange : 65≤c.toNat ∧ c.toNat≤90 ∨ 97≤c.toNat ∧ c.toNat≤122 := by
    unfold toAsciiLowercase at h
    by_cases hupper : 65≤c.toNat ∧ c.toNat≤90
    · exact .inl hupper
    · rw [if_neg hupper] at h
      exact .inr h
  refine ⟨decide_eq_false fun hblank => ?_,decide_eq_false fun hdigit => ?_⟩
  · simp only [List.mem_cons,List.not_mem_nil,or_false] at hblank
    omega
  · omega

end Words

/-- How a size is written: a number and a unit in letters of any case, with blanks around them. -/
structure Size where
  /-- The blanks before the number. -/
  before : List Char
  /-- The digits of the number. -/
  digits : List Char
  /-- The blanks between it and the unit. -/
  between : List Char
  /-- The unit. -/
  unit : List Char
  /-- The blanks at the end. -/
  after : List Char
  /-- What the unit stands for. -/
  multiplier : ℕ
  blank_before : Blank before
  nonempty : digits≠[]
  are_digits : ∀ c∈digits, isAsciiDigit c=true
  blank_between : Blank between
  is_unit : (unit.map toAsciiLowercase,multiplier)∈units
  blank_after : Blank after

/-- Its text. -/
def Size.text (size : Size) : List Char :=
  size.before++(size.digits++(size.between++size.unit))++size.after

/-- The number of bytes. -/
def Size.bytes (size : Size) : ℕ := digitsValue size.digits*size.multiplier

section Sizes
variable {value : List Char} {n : ℕ}

/-- Where a unit is written, neither a blank nor a digit is. -/
theorem Size.unit_letters (size : Size) {c : Char} (hc : c∈size.unit) :
    isWhitespace c=false ∧ isAsciiDigit c=false :=
  letter_of_lowercase (units_letters _ size.is_unit _ (List.mem_map_of_mem hc))

/-- A unit is a word. -/
theorem Size.unit_trimmed (size : Size) : Trimmed size.unit := fun hne =>
  ⟨(size.unit_letters (List.head_mem hne)).1,(size.unit_letters (List.getLast_mem hne)).1⟩

/-- What stands behind the digits is no digit. -/
theorem Size.suffix_head (size : Size) {rest : List Char}
    (hrest : rest=size.between++size.unit) (hne : rest≠[]) : isAsciiDigit (rest.head hne)=false := by
  have hmem := List.head_mem hne
  generalize rest.head hne=c at hmem ⊢
  rw [hrest] at hmem
  rcases List.mem_append.mp hmem with hbetween|hunit
  · exact not_digit_of_blank (size.blank_between c hbetween)
  · exact (size.unit_letters hunit).2

/-- Without the blanks around it, a size starts with its digits and ends with its unit, or with
blanks that there is no unit behind. -/
theorem Size.trim_eq (size : Size) :
    ∃ rest, trim size.text=size.digits++rest ∧ trim rest=size.unit ∧
      ∀ hne : rest≠[], isAsciiDigit (rest.head hne)=false := by
  have hdigit : isWhitespace (size.digits.head size.nonempty)=false :=
    not_blank_of_digit (size.are_digits _ (List.head_mem size.nonempty))
  by_cases hnone : size.unit=[]
  · refine ⟨[],?_,hnone.symm ▸ rfl,fun hne => absurd rfl hne⟩
    have hafter : Blank (size.between++size.after) := fun c hc =>
      (List.mem_append.mp hc).elim (size.blank_between c) (size.blank_after c)
    have hdigits : Trimmed size.digits := fun hne =>
      ⟨hdigit,not_blank_of_digit (size.are_digits _ (List.getLast_mem hne))⟩
    have htext : size.text=size.before++size.digits++(size.between++size.after) := by
      rw [Size.text,hnone,List.append_nil]
      simp only [List.append_assoc]
    rw [htext,trim_append size.blank_before hafter hdigits,List.append_nil]
  · refine ⟨size.between++size.unit,?_,?_,size.suffix_head rfl⟩
    · have hmiddle : Trimmed (size.digits++(size.between++size.unit)) := by
        intro hne
        refine ⟨?_,?_⟩
        · rw [List.head_append_of_ne_nil size.nonempty]
          exact hdigit
        · rw [List.getLast_append_of_ne_nil _ (List.append_ne_nil_of_right_ne_nil _ hnone),
            List.getLast_append_of_ne_nil _ hnone]
          exact (size.unit_trimmed hnone).2
      exact trim_append size.blank_before size.blank_after hmiddle
    · have hspaced := trim_append size.blank_between (fun _ hbad => absurd hbad List.not_mem_nil)
        size.unit_trimmed
      rw [List.append_nil] at hspaced
      exact hspaced

/-- A unit is found in the table. -/
theorem lookup_units : ∀ unit∈units, units.lookup unit.1=some unit.2 := by decide

/-- What is found is in the table. -/
theorem mem_of_lookup {table : List (List Char×ℕ)} {word : List Char} {m : ℕ}
    (h : table.lookup word=some m) : (word,m)∈table := by
  induction table with
  | nil => cases h
  | cons entry table ih =>
    obtain ⟨key,k⟩ := entry
    by_cases heq : word=key
    · rw [List.lookup_cons,beq_iff_eq.mpr heq] at h
      rw [heq,Option.some.inj h]
      exact List.mem_cons_self
    · rw [List.lookup_cons,beq_eq_false_iff_ne.mpr heq] at h
      exact List.mem_cons_of_mem _ (ih h)

/-- A size that is written, is positive and fits in 64 bits is accepted. -/
theorem Size.accepted (size : Size) (hpos : 0<size.bytes) (hfits : size.bytes<2^64) :
    parseScratchLimit size.text=.ok size.bytes := by
  obtain ⟨rest,htrim,hunit,hrest⟩ := size.trim_eq
  obtain ⟨hnumber,hsuffix⟩ := span_digits size.are_digits hrest
  have hmultiplier : 0<size.multiplier := units_pos _ size.is_unit
  have hsmall : digitsValue size.digits<2^64 :=
    Nat.lt_of_le_of_lt (Nat.le_mul_of_pos_right _ hmultiplier) hfits
  have hparse : parseU64 size.digits=some (digitsValue size.digits) := if_pos ⟨size.nonempty,hsmall⟩
  have hlookup : units.lookup (size.unit.map toAsciiLowercase)=some size.multiplier :=
    lookup_units _ size.is_unit
  unfold parseScratchLimit
  dsimp only
  rw [htrim,hnumber,hsuffix,hunit,hparse,hlookup]
  exact if_pos ⟨hfits,hpos⟩

/-- What is accepted is written as a size, is positive and fits in 64 bits. -/
theorem size_of_accepted (h : parseScratchLimit value=.ok n) :
    (∃ size : Size, size.text=value ∧ size.bytes=n) ∧ 0<n ∧ n<2^64 := by
  obtain ⟨before,after,hvalue,hbefore,hafter⟩ := trim_split value
  obtain ⟨between,end',hsuffix,hbetween,hend⟩ :=
    trim_split ((trim value).dropWhile isAsciiDigit)
  unfold parseScratchLimit at h
  dsimp only at h
  cases hnumber : parseU64 ((trim value).takeWhile isAsciiDigit) with
  | none =>
    rw [hnumber] at h
    cases h
  | some number =>
    cases hunit : units.lookup
        ((trim ((trim value).dropWhile isAsciiDigit)).map toAsciiLowercase) with
    | none =>
      rw [hnumber,hunit] at h
      cases h
    | some multiplier =>
      rw [hnumber,hunit] at h
      dsimp only at h
      by_cases hfits : number*multiplier<2^64 ∧ 0<number*multiplier
      · rw [if_pos hfits] at h
        obtain rfl := Except.ok.inj h
        obtain ⟨⟨hnonempty,_⟩,hvalueOf⟩ := Option.ite_none_right_eq_some.mp hnumber
        have hblank : Blank (end'++after) := fun c hc =>
          (List.mem_append.mp hc).elim (hend c) (hafter c)
        have htext : value=before++((trim value).takeWhile isAsciiDigit++
            (between++trim ((trim value).dropWhile isAsciiDigit)))++(end'++after) :=
          calc value = before++trim value++after := hvalue
            _ = before++((trim value).takeWhile isAsciiDigit++
                (trim value).dropWhile isAsciiDigit)++after := by
              rw [List.takeWhile_append_dropWhile]
            _ = before++((trim value).takeWhile isAsciiDigit++
                (between++trim ((trim value).dropWhile isAsciiDigit)++end'))++after := by
              rw [←hsuffix]
            _ = _ := by simp only [List.append_assoc]
        refine ⟨⟨⟨before,_,between,_,end'++after,multiplier,hbefore,hnonempty,
          fun c hc => List.mem_takeWhile_imp hc,hbetween,mem_of_lookup hunit,hblank⟩,
          htext.symm,?_⟩,hfits.2,hfits.1⟩
        exact congrArg (fun x => x*multiplier) (Option.some.inj hvalueOf)
      · rw [if_neg hfits] at h
        cases h

/-- A scratch limit is accepted exactly when it is written as a size that is positive and fits in
64 bits, and it is the size that is written. -/
theorem parseScratchLimit_iff (value : List Char) (n : ℕ) :
    parseScratchLimit value=.ok n ↔ (∃ size : Size, size.text=value ∧ size.bytes=n) ∧ 0<n ∧ n<2^64 :=
  ⟨size_of_accepted,by
    rintro ⟨⟨size,rfl,rfl⟩,hpos,hfits⟩
    exact size.accepted hpos hfits⟩

end Sizes

section Options

/-- `ScratchOptions`. -/
structure ScratchOptions where
  /-- Whether there is a directory, and how a temporary one is made in it. -/
  scratch : Option (Except IoError Unit)
  /-- The number of publishers. -/
  scratchMemory : Option ℕ+
  /-- The limit that is given. -/
  scratchLimit : Option ℕ
  /-- Whether there are batches, and the target that is given for them. -/
  scratchBatch : Option (Option ℕ)

/-- `FileCompressor`, as far as its scans are configured. -/
structure FileCompressor where
  /-- `Scratch::limit`, if there is scratch space. -/
  limit : Option ℕ
  /-- `batch_target`. -/
  batchTarget : Option ℕ
  /-- The number of publishers. -/
  publishers : ℕ+

/-- `FileCompressor::new`. -/
def FileCompressor.new : FileCompressor := ⟨none,none,1⟩

/-- `Scratch::budget`. -/
def budget (limit : ℕ) : Except IoError ℕ :=
  if limit=0 then .error (.new .invalidInput "scratch limit must be greater than zero")
  else .ok limit

/-- `Scratch::new`, with its limit. -/
def scratchNew (made : Except IoError Unit) (limit : ℕ) : Except IoError ℕ := do
  let limit ← budget limit
  made
  pure limit

/-- The error of `from_scratch`. -/
def batchSizeError : IoError := .new .invalidInput
  "scratch batch size must be greater than zero and no larger than the scratch limit"

/-- `from_scratch`. -/
def fromScratch (limit : ℕ) (target : Option ℕ) (publishers : ℕ+) : Except IoError FileCompressor :=
  if ∃ t∈target, t=0 ∨ limit<t then .error batchSizeError else .ok ⟨some limit,target,publishers⟩

/-- `file_compressor`, up to the report of its error. -/
def ScratchOptions.fileCompressor (options : ScratchOptions) : Except IoError FileCompressor :=
  let limit := options.scratchLimit.getD defaultScratchLimit
  let target := options.scratchBatch.map fun target => target.getD limit
  match options.scratch,options.scratchMemory with
  | some made,_ => do fromScratch (← scratchNew made limit) target 1
  | none,some publishers => do fromScratch (← budget limit) target publishers
  | none,none => .ok .new

/-- The sizes among the options are those that the parser has accepted. -/
structure ScratchOptions.Parsed (options : ScratchOptions) : Prop where
  /-- The limit. -/
  limit : ∀ n∈options.scratchLimit, ∃ value, parseScratchLimit value=.ok n
  /-- The target. -/
  target : ∀ given∈options.scratchBatch, ∀ n∈given, ∃ value, parseScratchLimit value=.ok n

/-- The scans of a compressor keep their output in this way, within a limit that is not zero. -/
def Configures (compressor : FileCompressor) : Staging→Prop
  | .direct => compressor.limit=none ∧ compressor.batchTarget=none
  | .scratch limit _ => 0<limit ∧ compressor.limit=some limit ∧ compressor.batchTarget=none
  | .batched limits => compressor.limit=some limits.limit ∧
      compressor.batchTarget=some limits.target

variable {options : ScratchOptions} {limit : ℕ} {target : Option ℕ} {publishers : ℕ+}
  {compressor : FileCompressor}

/-- The limit is positive and fits in 64 bits. -/
theorem ScratchOptions.Parsed.limit_bounds (h : options.Parsed) :
    0<options.scratchLimit.getD defaultScratchLimit ∧
      options.scratchLimit.getD defaultScratchLimit≤u64Max := by
  cases hlimit : options.scratchLimit with
  | none => exact ⟨by decide,by decide⟩
  | some n =>
    obtain ⟨value,hparsed⟩ := h.limit n hlimit
    obtain ⟨_,hpos,hfits⟩ := size_of_accepted hparsed
    exact ⟨hpos,Nat.le_pred_of_lt hfits⟩

/-- A positive limit that is accepted, and a target within it, configure the scans. -/
theorem configures_of_fromScratch (hpos : 0<limit) (hlimit : limit≤u64Max)
    (h : fromScratch limit target publishers=.ok compressor) :
    ∃ staging, Configures compressor staging := by
  unfold fromScratch at h
  by_cases hbad : ∃ t∈target, t=0 ∨ limit<t
  · rw [if_pos hbad] at h
    cases h
  · rw [if_neg hbad] at h
    obtain rfl := Except.ok.inj h
    cases htarget : target with
    | none => exact ⟨.scratch limit hlimit,hpos,rfl,rfl⟩
    | some t =>
      have hfine : ¬(t=0 ∨ limit<t) := fun ht => hbad ⟨t,htarget,ht⟩
      have htpos : 0<t := Nat.pos_of_ne_zero fun ht => hfine (.inl ht)
      have hle : t≤limit := Nat.le_of_not_lt fun ht => hfine (.inr ht)
      exact ⟨.batched ⟨t,limit,htpos,hle,hlimit⟩,rfl,rfl⟩

/-- A target is only refused when it exceeds the limit. -/
theorem fromScratch_error {e : IoError} (htarget : ∀ t∈target, 0<t)
    (h : fromScratch limit target publishers=.error e) :
    e=batchSizeError ∧ ∃ t∈target, limit<t := by
  unfold fromScratch at h
  by_cases hbad : ∃ t∈target, t=0 ∨ limit<t
  · rw [if_pos hbad] at h
    obtain ⟨t,hmem,ht⟩ := hbad
    exact ⟨(Except.error.inj h).symm,t,hmem,ht.resolve_left (Nat.ne_of_gt (htarget t hmem))⟩
  · rw [if_neg hbad] at h
    cases h

/-- A positive limit is within the budget. -/
theorem budget_of_pos (h : 0<limit) : budget limit=.ok limit := if_neg (Nat.ne_of_gt h)

/-- A target is positive, whether it is given or not. -/
theorem ScratchOptions.Parsed.target_pos (h : options.Parsed) (hlimit : 0<limit) :
    ∀ t∈options.scratchBatch.map fun target => target.getD limit, 0<t := by
  intro t ht
  obtain ⟨given,hgiven,rfl⟩ := Option.map_eq_some_iff.mp ht
  cases hn : given with
  | none => exact hlimit
  | some n =>
    obtain ⟨value,hparsed⟩ := h.target given hgiven n hn
    exact (size_of_accepted hparsed).2.1

/-- Options whose sizes were accepted configure the scans in a way that their model has, unless
the temporary directory cannot be made or the target of batches is given and exceeds the limit:
the limit itself is never refused again. -/
theorem fileCompressor_configures (options : ScratchOptions) (h : options.Parsed) :
    (∀ compressor, options.fileCompressor=.ok compressor →
      ∃ staging, Configures compressor staging) ∧
    ∀ e, options.fileCompressor=.error e → options.scratch=some (.error e) ∨
      e=batchSizeError ∧ ∃ n, options.scratchBatch=some (some n) ∧
        options.scratchLimit.getD defaultScratchLimit<n := by
  obtain ⟨hpos,hfits⟩ := h.limit_bounds
  have htarget := h.target_pos hpos
  have hlarge : (∃ t∈options.scratchBatch.map fun target =>
      target.getD (options.scratchLimit.getD defaultScratchLimit),
      options.scratchLimit.getD defaultScratchLimit<t) →
      ∃ n, options.scratchBatch=some (some n) ∧
        options.scratchLimit.getD defaultScratchLimit<n := by
    rintro ⟨t,hmem,hlt⟩
    obtain ⟨given,hgiven,rfl⟩ := Option.map_eq_some_iff.mp hmem
    cases given with
    | none => exact absurd hlt (Nat.lt_irrefl _)
    | some n => exact ⟨n,hgiven,hlt⟩
  unfold ScratchOptions.fileCompressor scratchNew
  dsimp only
  rw [budget_of_pos hpos]
  cases hscratch : options.scratch with
  | some made =>
    cases made with
    | error e' =>
      refine ⟨fun compressor hbad => (by cases hbad),fun e he => .inl ?_⟩
      rw [Except.error.inj he]
    | ok made =>
      exact ⟨fun compressor hok => configures_of_fromScratch hpos hfits hok,fun e he =>
        .inr ((fromScratch_error htarget he).imp_right hlarge)⟩
  | none =>
    cases options.scratchMemory with
    | some publishers =>
      exact ⟨fun compressor hok => configures_of_fromScratch hpos hfits hok,fun e he =>
        .inr ((fromScratch_error htarget he).imp_right hlarge)⟩
    | none =>
      refine ⟨fun compressor hok => ⟨.direct,?_⟩,fun e hbad => (by cases hbad)⟩
      obtain rfl := Except.ok.inj hok
      exact ⟨rfl,rfl⟩

/-- A target within a limit that is given. -/
theorem fileCompressor_configures_batched :
    let options : ScratchOptions := ⟨none,some 4,some 16,some (some 8)⟩
    options.Parsed ∧ ∃ compressor, options.fileCompressor=.ok compressor ∧
      ∃ staging, Configures compressor staging := by
  intro options
  have hparsed : options.Parsed := by
    refine ⟨fun n hn => ⟨['1','6'],?_⟩,fun given hgiven n hn => ⟨['8'],?_⟩⟩
    · obtain rfl := Option.some.inj hn
      rfl
    · obtain rfl := Option.some.inj hgiven
      obtain rfl := Option.some.inj hn
      rfl
  exact ⟨hparsed,_,rfl,(fileCompressor_configures options hparsed).1 _ rfl⟩

end Options

end Applesauce.ScratchLimit
