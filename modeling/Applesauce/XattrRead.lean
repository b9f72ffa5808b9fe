import Applesauce.RustIo
import Applesauce.SparseFile
import Mathlib.Data.List.Induction

/-!
# Reading an extended attribute that changes

An attribute is read by a query of its length and a read into a buffer of at
least that size, and both are repeated until the attribute holds still. Other
processes may change it between any two calls. The buffer outlives a failed
turn, so what it held for a longer value can reach the result of a shorter one.
-/

namespace Applesauce.XattrRead

open RustIo SparseFile

section Model

/-- The attribute at the time of one call. -/
inductive Attr where
  | absent
  | present (value : List UInt8)
  /-- The call fails for a reason of its own. -/
  | fails (kind : ErrorKind)
  deriving DecidableEq,Repr

/-- The value that a successful call delivers. -/
def Attr.value : Attr→Option (List UInt8)
  | .present value => some value
  | _ => none

/-- Why `get_xattr` returned a negative number. -/
inductive Errno where
  /-- `ENOATTR`. -/
  | noAttr
  /-- `ERANGE`: the value exceeds the buffer. -/
  | range
  | other (kind : ErrorKind)
  deriving DecidableEq,Repr

/-- `get_xattr` without a buffer: the length of the value. -/
def queryXattr : Attr→Except Errno ℕ
  | .absent => .error .noAttr
  | .present value => .ok value.length
  | .fails kind => .error (.other kind)

/-- `get_xattr` into a buffer: the buffer behind the call and the return code.
The whole value is written over the front of the buffer, or nothing is. -/
def getXattr (attr : Attr) (buf : List UInt8) : Except Errno (List UInt8×ℕ) :=
  match attr with
  | .absent => .error .noAttr
  | .present value =>
    if buf.length<value.length then .error .range
    else .ok (value++buf.drop value.length,value.length)
  | .fails kind => .error (.other kind)

/-- `io::Error::last_os_error` of a call that is not retried. -/
def lastOsError : Errno→Fault
  | .noAttr => .error (.ofKind .notFound)
  | .range => .error (.ofKind .other)
  | .other kind => .error (.ofKind kind)

/-- `xattr::len`. -/
def len (attr : Attr) : Except Fault (Option ℕ) :=
  match queryXattr attr with
  | .ok rc => .ok (some rc)
  | .error .noAttr => .ok none
  | .error errno => .error (lastOsError errno)

/-- `Vec::resize` with zeros. -/
def resize (buf : List UInt8) (n : ℕ) : List UInt8 := buf.take n++zeros (n-buf.length)

/-- How a read ends. -/
structure Reply where
  /-- What `xattr::read` returns. -/
  result : Except Fault (Option (List UInt8))
  /-- The value that the last successful `get_xattr` into the buffer delivered. -/
  delivered : Option (List UInt8)
  /-- The attribute at the last call. -/
  last : Attr
  deriving DecidableEq

/-- The loop of `xattr::read` over the attribute at each of the coming calls;
without a reply it has not returned after these. -/
def readLoop : List Attr→List UInt8→Option (List UInt8)→Option Reply
  | [],_,_ => none
  | query::states,buf,delivered =>
    match len query with
    | .error e => some ⟨.error e,delivered,query⟩
    | .ok none => some ⟨.ok none,delivered,query⟩
    | .ok (some len) =>
      let buf := if buf.length<len then resize buf len else buf
      match states with
      | [] => none
      | state::states =>
        match getXattr state buf with
        | .error .range => readLoop states buf delivered
        | .error .noAttr => some ⟨.ok none,delivered,state⟩
        | .error errno => some ⟨.error (lastOsError errno),delivered,state⟩
        | .ok (buf,newLen) =>
          if len<newLen then some ⟨.ok (some (buf.take newLen)),state.value,state⟩
          else if len=newLen then some ⟨.ok (some buf),state.value,state⟩
          else readLoop states (resize buf newLen) state.value

/-- `xattr::read`. -/
def read (states : List Attr) : Option Reply := readLoop states [] none

end Model

section Exact

/-- A returned value is the one that was delivered last, and nothing is
returned only for an attribute that was absent at the last call. -/
structure Exact (reply : Reply) : Prop where
  value : ∀ {v}, reply.result=.ok (some v) → reply.delivered=some v
  absent : reply.result=.ok none → reply.last=.absent

/-- A turn is the attribute at a query and at the read behind it. The longest
length counts the queries since the attribute last shrank within a turn, and
that shrunken length. A turn settles if the value did not shrink and is no
longer than the longest length or its own query. What follows is that the first turn
to settle finds a value as long as its query and shorter than the longest length. -/
def Stale : List Attr→ℕ→Prop
  | .present queried::.present value::states,longest =>
    if value.length<queried.length then Stale states value.length
    else if max longest queried.length<value.length then
      Stale states (max longest queried.length)
    else value.length=queried.length ∧ value.length<longest
  | _,_ => False

variable {states : List Attr} {buf queried value : List UInt8} {delivered : Option (List UInt8)}

/-- Growing a buffer for a query leaves it as long as the longer of both. -/
theorem grown_length (buf : List UInt8) (n : ℕ) :
    (if buf.length<n then resize buf n else buf).length=max buf.length n := by
  by_cases h : buf.length<n
  · rw [if_pos h,resize,List.length_append,List.length_take,zeros_length]
    omega
  · rw [if_neg h]
    omega

/-- Cutting a buffer down leaves the length asked for. -/
theorem resize_length (buf : List UInt8) (n : ℕ) : (resize buf n).length=n := by
  rw [resize,List.length_append,List.length_take,zeros_length]
  omega

/-- A turn that finds a value both times. The value shrank and the buffer is
cut, or it outgrew the buffer and the buffer stays, or the loop returns: behind
a value as long as its query the rest of the buffer is returned too. -/
theorem readLoop_present :
    readLoop (.present queried::.present value::states) buf delivered=
      if value.length<queried.length then
        readLoop states (resize (value++
          (if buf.length<queried.length then resize buf queried.length else buf).drop value.length)
            value.length) (some value)
      else if max buf.length queried.length<value.length then
        readLoop states (if buf.length<queried.length then resize buf queried.length else buf)
          delivered
      else if value.length=queried.length then
        some ⟨.ok (some (value++
          (if buf.length<queried.length then resize buf queried.length else buf).drop
            value.length)),some value,.present value⟩
      else some ⟨.ok (some value),some value,.present value⟩ := by
  have hgrown := grown_length buf queried.length
  simp only [readLoop,len,queryXattr,getXattr]
  rw [hgrown]
  by_cases hshrank : value.length<queried.length
  · have hfits : ¬max buf.length queried.length<value.length := by omega
    have hless : ¬queried.length<value.length := by omega
    have hne : ¬queried.length=value.length := by omega
    rw [if_neg hfits,if_pos hshrank]
    dsimp only
    rw [if_neg hless,if_neg hne]
    rfl
  rw [if_neg hshrank]
  by_cases houtgrew : max buf.length queried.length<value.length
  · rw [if_pos houtgrew,if_pos houtgrew]
  rw [if_neg houtgrew,if_neg houtgrew]
  dsimp only
  by_cases hsame : value.length=queried.length
  · have hless : ¬queried.length<value.length := by omega
    rw [if_neg hless,if_pos hsame.symm,if_pos hsame]
    rfl
  · have hless : queried.length<value.length := by omega
    rw [if_pos hless,if_neg hsame,List.take_left']
    · rfl
    · rfl

/-- A turn that does not find a value both times returns, or does not finish
within the calls that are left. What it returns is no value, and no result
stands for an attribute that is absent at its last call. -/
theorem readLoop_other {query state : Attr} (states : List Attr) (buf : List UInt8)
    (delivered : Option (List UInt8))
    (h : ¬∃ queried value, query=.present queried ∧ state=.present value) :
    ∃ result last, readLoop (query::state::states) buf delivered=some ⟨result,delivered,last⟩ ∧
      (∀ v, result≠.ok (some v)) ∧ (result=.ok none → last=.absent) := by
  cases query with
  | absent => exact ⟨_,_,rfl,nofun,fun _ => rfl⟩
  | fails kind => exact ⟨_,_,rfl,nofun,nofun⟩
  | present queried =>
    cases state with
    | absent => exact ⟨_,_,rfl,nofun,fun _ => rfl⟩
    | fails kind => exact ⟨_,_,rfl,nofun,nofun⟩
    | present value => exact (h ⟨queried,value,rfl,rfl⟩).elim

/-- A turn that does not find a value both times does not settle. -/
theorem not_stale_of_other {query state : Attr}
    (h : ¬∃ queried value, query=.present queried ∧ state=.present value) (longest : ℕ) :
    ¬Stale (query::state::states) longest := by
  cases query with
  | absent => exact id
  | fails kind => exact id
  | present queried =>
    cases state with
    | absent => exact id
    | fails kind => exact id
    | present value => exact (h ⟨queried,value,rfl,rfl⟩).elim

/-- A reply without a value, which has none to differ from. -/
theorem Exact.of_no_value {result : Except Fault (Option (List UInt8))} {last : Attr}
    (hvalue : ∀ v, result≠.ok (some v)) (habsent : result=.ok none → last=.absent) :
    Exact ⟨result,delivered,last⟩ :=
  ⟨fun h => (hvalue _ h).elim,habsent⟩

/-- The loop is exact from a buffer on if and only if it is not stale for its length. -/
theorem readLoop_exact_iff (states : List Attr) (buf : List UInt8) (delivered : Option (List UInt8)) :
    (∀ reply, readLoop states buf delivered=some reply → Exact reply) ↔
      ¬Stale states buf.length := by
  induction states using List.twoStepInduction generalizing buf delivered with
  | nil => exact ⟨fun _ => id,fun _ => nofun⟩
  | singleton query =>
    refine ⟨fun _ => by cases query <;> exact id,fun _ reply h => ?_⟩
    cases query with
    | absent =>
      cases h
      exact .of_no_value nofun fun _ => rfl
    | fails kind =>
      cases h
      exact .of_no_value nofun nofun
    | present queried => cases h
  | cons_cons query state states ih _ =>
    by_cases hboth : ∃ queried value, query=.present queried ∧ state=.present value
    · obtain ⟨queried,value,rfl,rfl⟩ := hboth
      have hgrown := grown_length buf queried.length
      rw [readLoop_present,Stale]
      by_cases hshrank : value.length<queried.length
      · rw [if_pos hshrank,if_pos hshrank,ih,resize_length]
      rw [if_neg hshrank,if_neg hshrank]
      by_cases houtgrew : max buf.length queried.length<value.length
      · rw [if_pos houtgrew,if_pos houtgrew,ih,hgrown]
      rw [if_neg houtgrew,if_neg houtgrew]
      by_cases hsame : value.length=queried.length
      · rw [if_pos hsame]
        constructor
        · rintro hexact ⟨_,hlonger⟩
          have hdelivered := (hexact _ rfl).value rfl
          have hlength := congrArg List.length (Option.some.inj hdelivered)
          rw [List.length_append,List.length_drop,hgrown] at hlength
          omega
        · rintro hsettled reply h
          cases h
          refine ⟨fun {v} h => ?_,nofun⟩
          cases h
          have hall : (if buf.length<queried.length then resize buf queried.length else buf).drop
              value.length=[] := by
            apply List.drop_eq_nil_of_le
            omega
          rw [hall,List.append_nil]
      · rw [if_neg hsame]
        refine ⟨fun _ h => hsame h.1,fun _ reply h => ?_⟩
        cases h
        exact ⟨fun h => by cases h; rfl,nofun⟩
    · obtain ⟨result,last,heq,hvalue,habsent⟩ :=
        readLoop_other states buf delivered hboth
      rw [heq]
      refine ⟨fun _ => not_stale_of_other hboth _,fun _ reply h => ?_⟩
      cases h
      exact .of_no_value hvalue habsent

/-- `xattr::read` is exact if and only if the attribute does not settle at the
length of its query below a longer one. -/
theorem read_exact_iff (states : List Attr) :
    (∀ reply, read states=some reply → Exact reply) ↔ ¬Stale states 0 :=
  readLoop_exact_iff states [] none

/-- An attribute of ten bytes grows to eleven at the first read and has five
from the second turn on: ten bytes are returned for these five. -/
theorem read_not_exact : ¬∀ states reply, read states=some reply → Exact reply := by
  intro h
  have hexact := h [.present (zeros 10),.present (zeros 11),.present [1,2,3,4,5],.present [1,2,3,4,5]]
    ⟨.ok (some [1,2,3,4,5,0,0,0,0,0]),some [1,2,3,4,5],.present [1,2,3,4,5]⟩ (by decide)
  exact absurd (hexact.value rfl) (by decide)

end Exact

end Applesauce.XattrRead
