import Cdroid.Lib.Tally
import Cdroid.Lib.Runs

/-! `RefBase`: the strong and the weak count of one object, which threads change by atomic steps,
and the two deletions. -/

namespace Cdroid.Utils.RefBase
open Cdroid.Lib

def INITIAL_STRONG_VALUE : Int := 268435456

/-- What a count of 32 bits makes of a number. -/
def int32_t (c : Int) : Int := c.bmod (2 ^ 32)

/-- Where a thread is in `incStrong` or `forceIncStrong`, `decStrong`, `decWeak`, `attemptIncStrong`
or `attemptIncWeak`, by the step that it takes next; `curCount` is what it has read. -/
inductive Pc
  | idle
  | incStrong (force : Bool)
  | incStrong_add
  | onFirstRef
  | onLastStrongRef
  | decWeak
  | decWeak_last
  | delete_mBase
  | delete_impl
  | attempt_read (first : Bool)
  | attempt_cmpxchg (curCount : Int)
  | attempt_initial (curCount : Int)
  | attempt_reread
  | onIncStrongAttempted
  | attempt_inc
  | attempt_unneeded (curCount : Int)
  | fixup_read
  | fixup_cmpxchg (curCount : Int)
  | attemptIncWeak_read (first : Bool)
  | attemptIncWeak_cmpxchg (curCount : Int)
  deriving DecidableEq

/-- `strong` and `weak` are the references that the thread has. -/
structure Thread where
  pc : Pc
  strong : Nat
  weak : Nat
  deriving DecidableEq

/-- `extended` is `OBJECT_LIFETIME_WEAK` in `mFlags`; `base` and `impl` tell that the object and its
`weakref_impl` have not been deleted. The thread that made the object has a plain pointer to it,
until it forgets it. -/
structure State (ι : Type) where
  mStrong : Int
  mWeak : Int
  extended : Bool
  base : Bool
  impl : Bool
  plain : Option ι
  threads : ι → Thread

variable {ι : Type}

namespace State
variable (s : State ι)

def initial (extended : Bool) (maker : ι) : State ι where
  mStrong := INITIAL_STRONG_VALUE
  mWeak := 0
  extended := extended
  base := true
  impl := true
  plain := some maker
  threads _ := ⟨.idle, 0, 0⟩

def setStrong (c : Int) : State ι := { s with mStrong := int32_t c }

def setWeak (c : Int) : State ι := { s with mWeak := int32_t c }

/-- What is used has not been deleted, and the `ALOG_ASSERT` holds. -/
def checked (alive ok : Bool) (s : State ι) : Option (State ι) :=
  if alive && ok then some s else none

/-- `~RefBase` -/
def deleteBase : State ι :=
  { s with
    base := false
    impl := s.impl &&
      !(s.mStrong == INITIAL_STRONG_VALUE || s.extended && s.mWeak == 0) }

@[simp] theorem setStrong_threads (c : Int) : (s.setStrong c).threads = s.threads := rfl

@[simp] theorem setWeak_threads (c : Int) : (s.setWeak c).threads = s.threads := rfl

@[simp] theorem deleteBase_threads : s.deleteBase.threads = s.threads := rfl

@[simp] theorem checked_true : checked true true s = some s := rfl

variable [DecidableEq ι]

def setThread (i : ι) (th : Thread) : State ι :=
  { s with threads := Function.update s.threads i th }

def goto (i : ι) (pc : Pc) : State ι := s.setThread i { s.threads i with pc }

/-- The call returns, and the thread has a strong reference more. -/
def gotStrong (i : ι) : State ι :=
  s.setThread i { s.threads i with pc := .idle, strong := (s.threads i).strong + 1 }

def gotWeak (i : ι) : State ι :=
  s.setThread i { s.threads i with pc := .idle, weak := (s.threads i).weak + 1 }

/-! ## The first step of a call -/

/-- `incWeak`, and what comes after it -/
def incWeak (i : ι) (alive : Bool) (th : Thread) : Option (State ι) :=
  checked (s.impl && alive) (0 ≤ s.mWeak) ((s.setWeak (s.mWeak + 1)).setThread i th)

def decStrong (i : ι) : Option (State ι) :=
  let th := s.threads i
  let c := s.mStrong
  checked (s.impl && s.base) (1 ≤ c) ((s.setStrong (c - 1)).setThread i
    { th with pc := if c = 1 then .onLastStrongRef else .decWeak, strong := th.strong - 1 })

/-! ## The steps that come after it -/

/-- `decWeak` -/
def decWeakStep (i : ι) : Option (State ι) :=
  let c := s.mWeak
  checked s.impl (1 ≤ c)
    ((s.setWeak (c - 1)).goto i (if c = 1 then .decWeak_last else .idle))

/-- The next step of the call that the thread is in; `agrees` is what `onIncStrongAttempted`
returns. -/
def step (i : ι) (agrees : Bool) : Option (State ι) :=
  let c := s.mStrong
  match (s.threads i).pc with
  | .idle => some s
  | .incStrong force =>
    checked s.impl (0 < c || force && c == 0) <|
      if c = INITIAL_STRONG_VALUE then (s.setStrong (c + 1)).goto i .incStrong_add
      else if c = 0 then (s.setStrong (c + 1)).goto i .onFirstRef
      else (s.setStrong (c + 1)).gotStrong i
  | .incStrong_add =>
    checked s.impl true ((s.setStrong (c - INITIAL_STRONG_VALUE)).goto i .onFirstRef)
  | .onFirstRef => checked s.base true (s.gotStrong i)
  | .onLastStrongRef =>
    checked (s.base && s.impl) true
      ((if s.extended then s else s.deleteBase).goto i .decWeak)
  | .decWeak => s.decWeakStep i
  | .decWeak_last =>
    if s.extended then checked (s.impl && s.base) true (s.goto i .delete_mBase) -- onLastWeakRef
    else checked s.impl true (s.goto i
      (if c = INITIAL_STRONG_VALUE then .delete_mBase else .delete_impl))
  | .delete_mBase => checked (s.base && s.impl) true (s.deleteBase.goto i .idle)
  | .delete_impl => checked s.impl true ({ s with impl := false }.goto i .idle)
  | .attempt_read first =>
    checked s.impl (!first || 0 ≤ c) (s.goto i
      (if 0 < c ∧ c ≠ INITIAL_STRONG_VALUE then .attempt_cmpxchg c
      else if s.extended then .onIncStrongAttempted
      else if c ≤ 0 then .decWeak
      else .attempt_initial c))
  | .attempt_cmpxchg curCount =>
    checked s.impl true
      (if c = curCount then (s.setStrong (c + 1)).goto i .fixup_read
      else s.goto i (.attempt_read false))
  | .attempt_initial curCount =>
    checked s.impl true
      (if c = curCount then (s.setStrong (c + 1)).goto i (.attempt_unneeded curCount)
      else s.goto i .attempt_reread)
  | .attempt_reread =>
    checked s.impl true (s.goto i (if c ≤ 0 then .decWeak else .attempt_initial c))
  | .onIncStrongAttempted =>
    checked s.base true (s.goto i (if agrees then .attempt_inc else .decWeak))
  | .attempt_inc => checked s.impl true ((s.setStrong (c + 1)).goto i (.attempt_unneeded c))
  | .attempt_unneeded curCount =>
    -- onLastStrongRef, where another thread has the reference of onIncStrongAttempted
    checked (s.base || !(0 < curCount ∧ curCount < INITIAL_STRONG_VALUE)) true
      (s.goto i .fixup_read)
  | .fixup_read =>
    if INITIAL_STRONG_VALUE ≤ c then
      checked s.impl (INITIAL_STRONG_VALUE < c) (s.goto i (.fixup_cmpxchg c))
    else checked s.impl true (s.gotStrong i)
  | .fixup_cmpxchg curCount =>
    checked s.impl true
      (if c = curCount then (s.setStrong (c - INITIAL_STRONG_VALUE)).gotStrong i
      else s.goto i .fixup_read)
  | .attemptIncWeak_read first =>
    checked s.impl (!first || 0 ≤ s.mWeak)
      (s.goto i (if 0 < s.mWeak then .attemptIncWeak_cmpxchg s.mWeak else .idle))
  | .attemptIncWeak_cmpxchg curCount =>
    checked s.impl true
      (if s.mWeak = curCount then (s.setWeak (s.mWeak + 1)).gotWeak i
      else s.goto i (.attemptIncWeak_read false))

/-- The thread has a strong reference, or the plain pointer. -/
def holds (i : ι) : Bool := 0 < (s.threads i).strong || s.plain == some i

/-- The thread can name the object: it has a reference, or the plain pointer. -/
def names (i : ι) : Bool :=
  0 < (s.threads i).strong || 0 < (s.threads i).weak || s.plain == some i

end State

/-! ## Runs -/

inductive Action (ι : Type)
  | incStrong (i : ι)
  | forceIncStrong (i : ι)
  | incWeak (i : ι)
  | decStrong (i : ι)
  | decWeak (i : ι)
  | attemptIncStrong (i : ι)
  | attemptIncWeak (i : ι)
  /-- The call that the thread is in goes on. -/
  | step (i : ι) (agrees : Bool)
  | giveStrong (i j : ι)
  | giveWeak (i j : ι)
  /-- The thread that made the object has a reference, and does without the plain pointer. -/
  | forget

open State

variable [DecidableEq ι]

/-- What a thread may do that is in no call: it uses the references that it has. -/
def idle (s : State ι) (i : ι) (can : Bool) (u : Option (State ι)) : Option (State ι) :=
  if (s.threads i).pc = .idle ∧ can then u else some s

/-- The state after an action, or `none` where something is used that has been deleted, or an
`ALOG_ASSERT` fails. -/
def next (s : State ι) : Action ι → Option (State ι)
  | .incStrong i =>
    idle s i (s.holds i) (s.incWeak i s.base { s.threads i with pc := .incStrong false })
  | .forceIncStrong i =>
    idle s i (s.holds i || s.extended && s.names i)
      (s.incWeak i s.base { s.threads i with pc := .incStrong true })
  | .incWeak i =>
    idle s i (s.names i) (s.incWeak i true { s.threads i with weak := (s.threads i).weak + 1 })
  | .decStrong i => idle s i (0 < (s.threads i).strong) (s.decStrong i)
  | .decWeak i =>
    idle s i (0 < (s.threads i).weak)
      ((s.setThread i { s.threads i with weak := (s.threads i).weak - 1 }).decWeakStep i)
  | .attemptIncStrong i =>
    idle s i (s.names i) (s.incWeak i true { s.threads i with pc := .attempt_read true })
  | .attemptIncWeak i => idle s i (s.names i) (some (s.goto i (.attemptIncWeak_read true)))
  | .step i agrees => s.step i agrees
  | .giveStrong i j =>
    idle s i (0 < (s.threads i).strong && i != j)
      (some ((s.setThread i { s.threads i with strong := (s.threads i).strong - 1 }).setThread j
        { s.threads j with strong := (s.threads j).strong + 1 }))
  | .giveWeak i j =>
    idle s i (0 < (s.threads i).weak && i != j)
      (some ((s.setThread i { s.threads i with weak := (s.threads i).weak - 1 }).setThread j
        { s.threads j with weak := (s.threads j).weak + 1 }))
  | .forget =>
    match s.plain with
    | none => some s
    | some i =>
      idle s i (0 < (s.threads i).strong || 0 < (s.threads i).weak) (some { s with plain := none })

end Cdroid.Utils.RefBase
