import Cdroid.Lib.Comp
import Mathlib.Algebra.Group.Int.Defs

/-! The message looper of `lib/utils`, in the form that cdroid's `Looper` has it, which does not
allow non-callbacks: every file descriptor comes with a callback, so that no response has an
`ident` that `pollOnce` would return, and `loop` is `pollAll(-1)`. One thread polls; any thread
sends and removes messages. Each critical section is one step, and so is each system call outside
of one. What the clock and the kernel return, and what a handler or a callback leaves in `errno`,
is part of the step. -/

namespace Cdroid.Utils
open Cdroid.Lib.Comp

/-! ## Constants and times -/

def LLONG_MAX : Int := 2 ^ 63 - 1
def INT_MAX : Int := 2 ^ 31 - 1

def EINTR : Nat := 4
def EAGAIN : Nat := 11

def ALOOPER_POLL_WAKE : Int := -1
def ALOOPER_POLL_CALLBACK : Int := -2
def ALOOPER_POLL_TIMEOUT : Int := -3
def ALOOPER_POLL_ERROR : Int := -4

def EPOLL_MAX_EVENTS : Nat := 16

/-- The bytes that a pipe holds. -/
def PIPE_SIZE : Nat := 65536

def toMillisecondTimeoutDelay (referenceTime timeoutTime : Int) : Int :=
  if referenceTime < timeoutTime then
    if (INT_MAX - 1) * 1000000 < timeoutTime - referenceTime then -1
    else (timeoutTime - referenceTime + 999999) / 1000000
  else 0

/-! ## State -/

/-- The handler is an object of its own, the message an object with a `what`. -/
structure MessageEnvelope where
  uptime : Int
  handler : Nat
  message : Nat
  what : BitVec 32
  deriving DecidableEq

/-- How `epoll_wait` returns. -/
inductive PollResult
  | error (errno : Nat)
  | timeout
  | events (wake : Bool) (fds : List Nat)
  deriving DecidableEq

/-- Where the polling thread is. -/
inductive Pc
  /-- at the start of `pollInner` -/
  | poll
  /-- in `epoll_wait` with this timeout -/
  | waiting (timeoutMillis : Int)
  /-- before `mLock.lock()` -/
  | polled (r : PollResult)
  /-- in `handler->handleMessage(message)`, with the responses to come -/
  | handling (mResponses : List Nat)
  /-- after the last `mLock.unlock()`, with the responses that are left -/
  | callbacks (result : Int) (mResponses : List Nat)
  /-- out of `pollAll` -/
  | returned (result : Int)
  deriving DecidableEq

/-- `mRequests` are the registered file descriptors, `pipe` the bytes in the wake
pipe, `wakes` the senders that have left the critical section and are about to
`wake()`, and `dispatched` the messages handled so far, with the time at which each
was found due. `errno` is the polling thread's. -/
structure Looper where
  mMessageEnvelopes : List MessageEnvelope
  mNextMessageUptime : Int
  mSendingMessage : Bool
  mRequests : List Nat
  pipe : Nat
  wakes : Nat
  errno : Nat
  pc : Pc
  dispatched : List (Int × MessageEnvelope)

namespace Looper

/-- `Looper::Looper`, when the thread calls `loop`. -/
def init : Looper := ⟨[], LLONG_MAX, false, [], 0, 0, 0, .poll, []⟩

/-! ## Sending and removing -/

/-- Put the envelope behind those that are not due later. -/
def insertEnvelope (e : MessageEnvelope) : List MessageEnvelope → List MessageEnvelope
  | [] => [e]
  | e' :: es => if e'.uptime ≤ e.uptime then e' :: insertEnvelope e es else e :: e' :: es

/-- The loop's `i`: the place at which the envelope is put. -/
def insertIndex (uptime : Int) : List MessageEnvelope → Nat
  | [] => 0
  | e :: es => if e.uptime ≤ uptime then insertIndex uptime es + 1 else 0

/-- The critical section of `sendMessageAtTime`. -/
def sendMessageAtTime (l : Looper) (e : MessageEnvelope) : Looper :=
  let i := insertIndex e.uptime l.mMessageEnvelopes
  { l with
    mMessageEnvelopes := insertEnvelope e l.mMessageEnvelopes
    wakes := if l.mSendingMessage then l.wakes else if i = 0 then l.wakes + 1 else l.wakes }

/-- `wake`, once the lock is released. A full pipe takes no more. -/
def wake (l : Looper) : Looper :=
  { l with wakes := l.wakes - 1, pipe := min (l.pipe + 1) PIPE_SIZE }

/-- `removeMessages(handler)` -/
def removeMessages (l : Looper) (handler : Nat) : Looper :=
  { l with mMessageEnvelopes := l.mMessageEnvelopes.filter fun e => e.handler ≠ handler }

/-- `removeMessages(handler, what)` -/
def removeMessagesWhat (l : Looper) (handler : Nat) (what : BitVec 32) : Looper :=
  { l with
    mMessageEnvelopes :=
      l.mMessageEnvelopes.filter fun e => ¬ (e.handler = handler ∧ e.what = what) }

def addFd (l : Looper) (fd : Nat) : Looper :=
  if fd ∈ l.mRequests then l else { l with mRequests := l.mRequests ++ [fd] }

def removeFd (l : Looper) (fd : Nat) : Looper :=
  { l with mRequests := l.mRequests.filter fun f => f ≠ fd }

/-! ## Polling -/

/-- The timeout that `pollInner` waits with. -/
def adjustTimeout (l : Looper) (timeoutMillis now : Int) : Int :=
  if timeoutMillis ≠ 0 ∧ l.mNextMessageUptime ≠ LLONG_MAX then
    let messageTimeoutMillis := toMillisecondTimeoutDelay now l.mNextMessageUptime
    if 0 ≤ messageTimeoutMillis ∧ (timeoutMillis < 0 ∨ messageTimeoutMillis < timeoutMillis) then
      messageTimeoutMillis
    else timeoutMillis
  else timeoutMillis

/-- Can `epoll_wait` return this after a wait with this timeout? -/
def mayReturn (l : Looper) (timeoutMillis : Int) : PollResult → Bool
  | .error errno => errno ≠ 0
  | .timeout => 0 ≤ timeoutMillis
  | .events wake fds =>
    (wake || fds ≠ []) && (!wake || 0 < l.pipe) && fds.all (fun fd => fd ∈ l.mRequests) &&
      fds.length + wake.toNat ≤ EPOLL_MAX_EVENTS

/-- `awoken` reads 16 bytes at a time, until it gets fewer. A last read that finds the
pipe empty fails with `EAGAIN`; an earlier one may have been interrupted. -/
def awoken (l : Looper) (interrupted : Bool) : Looper :=
  { l with
    pipe := 0
    errno := if l.pipe % 16 = 0 then EAGAIN else if interrupted then EINTR else l.errno }

/-- `pollInner` from the lock to `Done`: the result so far and the responses. -/
def handleEvents (l : Looper) (interrupted : Bool) : PollResult → Looper × Int × List Nat
  | .error errno =>
    ({ l with errno }, if errno = EINTR then ALOOPER_POLL_WAKE else ALOOPER_POLL_ERROR, [])
  | .timeout => (l, ALOOPER_POLL_TIMEOUT, [])
  | .events wake fds =>
    (if wake then l.awoken interrupted else l, ALOOPER_POLL_WAKE,
      fds.filter fun fd => fd ∈ l.mRequests)

/-- One test of `while(mMessageEnvelopes.size() != 0)`, with the lock held: the head
is taken out to be handled, or is what the looper waits for next. -/
def dispatchHead (l : Looper) (now result : Int) (mResponses : List Nat) : Looper :=
  match l.mMessageEnvelopes with
  | [] => { l with pc := .callbacks result mResponses }
  | e :: es =>
    if e.uptime ≤ now then { l with
      mMessageEnvelopes := es
      mSendingMessage := true
      dispatched := l.dispatched ++ [(now, e)]
      pc := .handling mResponses }
    else { l with mNextMessageUptime := e.uptime, pc := .callbacks result mResponses }

/-- `pollInner` from the lock to the first unlock. -/
def pollLocked (l : Looper) (now : Int) (interrupted : Bool) (r : PollResult) : Looper :=
  let (l, result, mResponses) := l.handleEvents interrupted r
  { l with mNextMessageUptime := LLONG_MAX }.dispatchHead now result mResponses

/-- The lock is taken again after `handleMessage`. -/
def handled (l : Looper) (now : Int) (mResponses : List Nat) : Looper :=
  { l with mSendingMessage := false }.dispatchHead now ALOOPER_POLL_CALLBACK mResponses

/-- `handleEvent` has returned `callbackResult`. -/
def calledBack (l : Looper) (fd : Nat) (mResponses : List Nat) (callbackResult : Int) : Looper :=
  let l := if callbackResult = 0 then l.removeFd fd else l
  { l with pc := .callbacks ALOOPER_POLL_CALLBACK mResponses }

/-- The condition of the loop in `pollAll`. -/
def pollAgain (l : Looper) (result : Int) : Looper :=
  { l with
    pc := if result = ALOOPER_POLL_CALLBACK ∨ l.errno = EINTR then .poll else .returned result }

/-! ## Steps -/

/-- Steps of any thread, a handler's and a callback's own calls among them, and steps
of the polling thread. -/
inductive Action
  | sendMessageAtTime (e : MessageEnvelope)
  | wake
  | removeMessages (handler : Nat)
  | removeMessagesWhat (handler : Nat) (what : BitVec 32)
  | addFd (fd : Nat)
  | removeFd (fd : Nat)
  | epollWait (now : Int)
  | epollReturn (r : PollResult)
  | pollLocked (now : Int) (interrupted : Bool)
  | handleMessage (now : Int) (errno : Nat)
  | handleEvent (callbackResult : Int) (errno : Nat)
  | pollAgain
  deriving DecidableEq

/-- The looper after a step that can be taken now. -/
def next (l : Looper) : Action → Option Looper
  | .sendMessageAtTime e => some (l.sendMessageAtTime e)
  | .wake => if 0 < l.wakes then some l.wake else none
  | .removeMessages handler => some (l.removeMessages handler)
  | .removeMessagesWhat handler what => some (l.removeMessagesWhat handler what)
  | .addFd fd => some (l.addFd fd)
  | .removeFd fd => some (l.removeFd fd)
  | .epollWait now => match l.pc with
    | .poll => some { l with pc := .waiting (l.adjustTimeout (-1) now) }
    | _ => none
  | .epollReturn r => match l.pc with
    | .waiting timeoutMillis =>
      if l.mayReturn timeoutMillis r then some { l with pc := .polled r } else none
    | _ => none
  | .pollLocked now interrupted => match l.pc with
    | .polled r => some (l.pollLocked now interrupted r)
    | _ => none
  | .handleMessage now errno => match l.pc with
    | .handling mResponses => some ({ l with errno }.handled now mResponses)
    | _ => none
  | .handleEvent callbackResult errno => match l.pc with
    | .callbacks _ (fd :: mResponses) =>
      some ({ l with errno }.calledBack fd mResponses callbackResult)
    | _ => none
  | .pollAgain => match l.pc with
    | .callbacks result [] => some (l.pollAgain result)
    | _ => none

/-- Is the step one that any thread may take? -/
def Action.anywhere : Action → Bool
  | .sendMessageAtTime _ | .wake | .removeMessages _ | .removeMessagesWhat .. | .addFd _
  | .removeFd _ => true
  | _ => false

/-- What the polling thread works with is left alone. -/
structure Beside (l l' : Looper) : Prop where
  pc : l'.pc = l.pc
  errno : l'.errno = l.errno
  mNextMessageUptime : l'.mNextMessageUptime = l.mNextMessageUptime
  mSendingMessage : l'.mSendingMessage = l.mSendingMessage
  dispatched : l'.dispatched = l.dispatched

/-- The steps that can be taken, by kind. -/
inductive Taken (l : Looper) : Action → Looper → Prop
  | anywhere {a : Action} {l' : Looper} (ha : a.anywhere) (h : Beside l l') : Taken l a l'
  | epollWait {now : Int} (hpc : l.pc = .poll) :
    Taken l (.epollWait now) { l with pc := .waiting (l.adjustTimeout (-1) now) }
  | epollReturn {r : PollResult} {timeoutMillis : Int} (hpc : l.pc = .waiting timeoutMillis)
      (h : l.mayReturn timeoutMillis r) : Taken l (.epollReturn r) { l with pc := .polled r }
  | pollLocked {now : Int} {interrupted : Bool} {r : PollResult} (hpc : l.pc = .polled r) :
    Taken l (.pollLocked now interrupted) (l.pollLocked now interrupted r)
  | handleMessage {now : Int} {errno : Nat} {mResponses : List Nat}
      (hpc : l.pc = .handling mResponses) :
    Taken l (.handleMessage now errno) ({ l with errno }.handled now mResponses)
  | handleEvent {callbackResult : Int} {errno : Nat} {result : Int} {fd : Nat}
      {mResponses : List Nat} (hpc : l.pc = .callbacks result (fd :: mResponses)) :
    Taken l (.handleEvent callbackResult errno)
      ({ l with errno }.calledBack fd mResponses callbackResult)
  | pollAgain {result : Int} (hpc : l.pc = .callbacks result []) :
    Taken l .pollAgain (l.pollAgain result)

theorem next_taken {l l' : Looper} {a : Action} (hn : l.next a = some l') : Taken l a l' := by
  cases a with
  | sendMessageAtTime e =>
    cases hn
    exact .anywhere rfl ⟨rfl, rfl, rfl, rfl, rfl⟩
  | wake =>
    simp only [next, Option.ite_none_right_eq_some, Option.some.injEq] at hn
    rw [← hn.2]
    exact .anywhere rfl ⟨rfl, rfl, rfl, rfl, rfl⟩
  | removeMessages handler =>
    cases hn
    exact .anywhere rfl ⟨rfl, rfl, rfl, rfl, rfl⟩
  | removeMessagesWhat handler what =>
    cases hn
    exact .anywhere rfl ⟨rfl, rfl, rfl, rfl, rfl⟩
  | addFd fd =>
    cases hn
    unfold addFd
    split
    · exact .anywhere rfl ⟨rfl, rfl, rfl, rfl, rfl⟩
    · exact .anywhere rfl ⟨rfl, rfl, rfl, rfl, rfl⟩
  | removeFd fd =>
    cases hn
    exact .anywhere rfl ⟨rfl, rfl, rfl, rfl, rfl⟩
  | epollWait now =>
    simp only [next] at hn
    split at hn
    · next hpc =>
      cases hn
      exact .epollWait hpc
    · cases hn
  | epollReturn r =>
    simp only [next] at hn
    split at hn
    · next timeoutMillis hpc =>
      simp only [Option.ite_none_right_eq_some, Option.some.injEq] at hn
      rw [← hn.2]
      exact .epollReturn hpc hn.1
    · cases hn
  | pollLocked now interrupted =>
    simp only [next] at hn
    split at hn
    · next r hpc =>
      cases hn
      exact .pollLocked hpc
    · cases hn
  | handleMessage now errno =>
    simp only [next] at hn
    split at hn
    · next mResponses hpc =>
      cases hn
      exact .handleMessage hpc
    · cases hn
  | handleEvent callbackResult errno =>
    simp only [next] at hn
    split at hn
    · next result fd mResponses hpc =>
      cases hn
      exact .handleEvent hpc
    · cases hn
  | pollAgain =>
    simp only [next] at hn
    split at hn
    · next result hpc =>
      cases hn
      exact .pollAgain hpc
    · cases hn

/-- A step that cannot be taken now. -/
inductive Stuck
  | stuck

/-- One step as a computation; `Stuck` when it cannot be taken. -/
def step (a : Action) : EStateM Stuck Looper PUnit := do
  match (← get).next a with
  | some l => set l
  | none => throw .stuck

/-- The steps `as` lead from a new looper to `l`. -/
def Reached (as : List Action) (l : Looper) : Prop := run step as init = .ok ⟨⟩ l

theorem wp_step {a : Action} {l : Looper} {Q : Looper → Prop}
    (h : ∀ l', l.next a = some l' → Q l') :
    wp (step a) (fun _ => Q) (fun _ _ => True) l := by
  simp only [step, wp_bind, wp_get]
  cases hn : l.next a with
  | none => trivial
  | some l' => exact h l' hn

theorem step_ok {a : Action} {l l' : Looper} (h : l.next a = some l') : step a l = .ok ⟨⟩ l' := by
  rw [step, get_bind_apply, h]
  rfl

end Looper

end Cdroid.Utils
