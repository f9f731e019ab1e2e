import Cdroid.Lib.Runs
import Cdroid.Utils.Looper

/-! `pollAll` with any timeout. Without one it looks at `errno` to tell an interrupted wait, but
`errno` is what the last system call that failed has left, and a poll need not make one. -/

namespace Cdroid.Utils
open Cdroid.Lib

/-- A `pollOnce`: the `errno` that it begins with, how its wait has come back, what `awoken`
finds in the pipe and whether a read of it was interrupted, whether a handler or a callback has
run, and whether `pollAll` goes round again. -/
structure Round where
  errno : Nat
  wait : PollResult
  pipe : Nat
  interrupted : Bool
  callbacks : Bool
  again : Bool
  deriving DecidableEq

namespace Round

/-- `pollOnce` that begins with `errno`. -/
def begin_ (errno : Nat) : Round := ⟨errno, .timeout, 0, false, false, false⟩

def note (r : Round) (l : Looper) : Looper.Action → Round
  | .epollReturn wait => { r with wait }
  | .pollLocked _ interrupted => { r with pipe := l.pipe, interrupted }
  | .handleMessage _ _ => { r with callbacks := true }
  | .handleEvent _ _ => { r with callbacks := true }
  | _ => r

/-- What the wait makes the result, if nothing is called back. -/
def result (r : Round) : Int :=
  match r.wait with
  | .error errno => if errno = EINTR then ALOOPER_POLL_WAKE else ALOOPER_POLL_ERROR
  | .timeout => ALOOPER_POLL_TIMEOUT
  | .events _ _ => ALOOPER_POLL_WAKE

/-- What is left in `errno`, if nothing is called back. -/
def errnoLeft (r : Round) : Nat :=
  match r.wait with
  | .error errno => errno
  | .timeout => r.errno
  | .events false _ => r.errno
  | .events true _ =>
    if r.pipe % 16 = 0 then EAGAIN else if r.interrupted then EINTR else r.errno

/-- It ran a callback, or its wait was interrupted. -/
def Resumes (r : Round) : Prop := r.callbacks = true ∨ r.wait = .error EINTR

/-- Where it need not be repeated, its `errno` does not look as if the wait had been
interrupted. -/
def Clear (r : Round) : Prop := r.Resumes ∨ r.errnoLeft ≠ EINTR

end Round

/-- A looper in `pollAll`, with the `endTime` of a call that has a timeout, the poll it is in
and those that are over, the last one first. -/
structure PollAll where
  looper : Looper
  timeoutMillis : Int
  endTime : Option Int
  round : Round
  rounds : List Round

namespace PollAll
open Looper

/-- `pollAll(timeoutMillis)`, called on any looper at any time. -/
def start (l : Looper) (timeoutMillis now : Int) : PollAll where
  looper := { l with pc := .poll }
  timeoutMillis := timeoutMillis
  endTime := if timeoutMillis ≤ 0 then none else some (now + timeoutMillis * 1000000)
  round := .begin_ l.errno
  rounds := []

/-- The steps: into `epoll_wait`, those of the looper's threads, and the end of a round. -/
inductive Act
  | pollOnce (now : Int)
  | step (a : Action)
  | roundEnd (now : Int)
  deriving DecidableEq

/-- What `pollAll` does about the result of a `pollOnce`. -/
def again (s : PollAll) (result now : Int) : PollAll :=
  match s.endTime with
  | none => { s with looper := s.looper.pollAgain result }
  | some endTime =>
    if result ≠ ALOOPER_POLL_CALLBACK then
      { s with looper := { s.looper with pc := .returned result } }
    else if toMillisecondTimeoutDelay now endTime = 0 then
      { s with looper := { s.looper with pc := .returned ALOOPER_POLL_TIMEOUT } }
    else { s with
      looper := { s.looper with pc := .poll }
      timeoutMillis := toMillisecondTimeoutDelay now endTime }

/-- The round is over. -/
def close (s : PollAll) : PollAll :=
  { s with rounds := { s.round with again := s.looper.pc = .poll } :: s.rounds }

def next (s : PollAll) : Act → Option PollAll
  | .pollOnce now => match s.looper.pc with
    | .poll => some { s with
      looper := { s.looper with pc := .waiting (s.looper.adjustTimeout s.timeoutMillis now) }
      round := .begin_ s.looper.errno }
    | _ => none
  | .step (.epollWait _) => none
  | .step .pollAgain => none
  | .step a => (s.looper.next a).map fun l =>
    { s with looper := l, round := s.round.note s.looper a }
  | .roundEnd now => match s.looper.pc with
    | .callbacks result [] => some (s.again result now).close
    | _ => none

/-- The steps `as` of a call lead to `s`. -/
def Reached (l : Looper) (timeoutMillis now : Int) (as : List Act) (s : PollAll) : Prop :=
  Runs.after next as (start l timeoutMillis now) = some s

/-- It goes round again only where the poll ran a callback or was interrupted, and where it
returns after a poll without a callback, it returns the result of that poll. -/
structure Stops (s : PollAll) : Prop where
  goesRound : ∀ r ∈ s.rounds, r.again → r.Resumes
  returns : ∀ result, s.looper.pc = .returned result →
    ∃ r rs, s.rounds = r :: rs ∧ (r.callbacks = false → result = r.result)

/-! ## The current poll -/

/-- What is known about the poll that the looper is in. -/
def Current (r : Round) (l : Looper) : Prop :=
  match l.pc with
  | .waiting _ => r.callbacks = false ∧ l.errno = r.errno
  | .polled wait => r.callbacks = false ∧ l.errno = r.errno ∧ r.wait = wait
  | .callbacks result _ =>
    (r.callbacks = true ∧ result = ALOOPER_POLL_CALLBACK) ∨
      (r.callbacks = false ∧ result = r.result ∧ l.errno = r.errnoLeft)
  | _ => True

theorem current_of_same {r : Round} {l l' : Looper} (h : Current r l) (hpc : l'.pc = l.pc)
    (herrno : l'.errno = l.errno) : Current r l' := by
  unfold Current at h ⊢
  rw [hpc, herrno]
  exact h

/-- A test of the queue says nothing of the poll, or it ends the dispatch with the result. -/
theorem current_dispatchHead {r : Round} {l : Looper} {now result : Int} {mResponses : List Nat}
    (h : (r.callbacks = true ∧ result = ALOOPER_POLL_CALLBACK) ∨
      (r.callbacks = false ∧ result = r.result ∧ l.errno = r.errnoLeft)) :
    Current r (l.dispatchHead now result mResponses) := by
  unfold dispatchHead
  split
  · exact h
  · split
    · trivial
    · exact h

theorem current_pollLocked {r : Round} {l : Looper} {now : Int} {interrupted : Bool}
    {wait : PollResult} (hcallbacks : r.callbacks = false) (herrno : l.errno = r.errno)
    (hwait : r.wait = wait) :
    Current { r with pipe := l.pipe, interrupted } (l.pollLocked now interrupted wait) := by
  rw [pollLocked]
  apply current_dispatchHead
  refine .inr ⟨hcallbacks, ?_⟩
  rw [Round.result, Round.errnoLeft, hwait]
  cases wait with
  | error errno => exact ⟨rfl, rfl⟩
  | timeout => exact ⟨rfl, herrno⟩
  | events wake fds =>
    cases wake with
    | false => exact ⟨rfl, herrno⟩
    | true =>
      refine ⟨rfl, ?_⟩
      simp only [if_true, awoken, herrno]

theorem note_of_anywhere {r : Round} {l : Looper} {a : Action} (ha : a.anywhere) :
    r.note l a = r := by
  cases a with
  | epollReturn | pollLocked | handleMessage | handleEvent | epollWait | pollAgain => cases ha
  | _ => rfl

theorem current_next {r : Round} {l l' : Looper} {a : Action} (h : Current r l)
    (ha : ∀ now, a ≠ .epollWait now) (ha' : a ≠ .pollAgain) (hn : l.next a = some l') :
    Current (r.note l a) l' := by
  cases next_taken hn with
  | anywhere hany hbeside =>
    rw [note_of_anywhere hany]
    exact current_of_same h hbeside.pc hbeside.errno
  | epollWait hpc => exact absurd rfl (ha _)
  | epollReturn hpc _ =>
    unfold Current at h
    rw [hpc] at h
    exact ⟨h.1, h.2, rfl⟩
  | pollLocked hpc =>
    unfold Current at h
    rw [hpc] at h
    exact current_pollLocked h.1 h.2.1 h.2.2
  | handleMessage hpc => exact current_dispatchHead (.inl ⟨rfl, rfl⟩)
  | handleEvent hpc =>
    unfold calledBack
    exact .inl ⟨rfl, rfl⟩
  | pollAgain hpc => exact absurd rfl ha'

/-! ## Runs -/

theorem result_ne_callback (r : Round) : r.result ≠ ALOOPER_POLL_CALLBACK := by
  rw [Round.result]
  split
  · split <;> decide
  · decide
  · decide

/-- When `pollAll` goes round again. -/
def Repeats (endTime : Option Int) (r : Round) : Prop :=
  match endTime with
  | none => r.again = true ↔ (r.callbacks = true ∨ r.errnoLeft = EINTR)
  | some _ => r.again = true → r.callbacks = true

/-- What holds in every state of a call. -/
structure Inv (endTime : Option Int) (s : PollAll) : Prop where
  deadline : s.endTime = endTime
  current : Current s.round s.looper
  repeats : ∀ r ∈ s.rounds, Repeats endTime r
  returns : ∀ result, s.looper.pc = .returned result →
    ∃ r rs, s.rounds = r :: rs ∧ (r.callbacks = false → result = r.result)

theorem inv_start (l : Looper) (timeoutMillis now : Int) :
    Inv (start l timeoutMillis now).endTime (start l timeoutMillis now) :=
  ⟨rfl, trivial, fun _ hr => (nomatch hr), fun _ hpc => (nomatch hpc)⟩

/-- The end of a round without a timeout. -/
theorem pollAgain_inv {s : PollAll} {result : Int} (h : Inv none s)
    (hpc : s.looper.pc = .callbacks result []) :
    Inv none { s with looper := s.looper.pollAgain result }.close := by
  have hcurrent := h.current
  unfold Current at hcurrent
  rw [hpc] at hcurrent
  by_cases hagain : result = ALOOPER_POLL_CALLBACK ∨ s.looper.errno = EINTR
  · have hpoll : (s.looper.pollAgain result).pc = .poll := if_pos hagain
    refine ⟨h.deadline, ?_, ?_, ?_⟩
    · unfold Current close
      rw [hpoll]
      trivial
    · rw [close, List.forall_mem_cons]
      refine ⟨iff_of_true (decide_eq_true hpoll) ?_, h.repeats⟩
      rcases hcurrent with ⟨hcallbacks, _⟩ | ⟨_, hresult, herrno⟩
      · exact .inl hcallbacks
      · refine .inr (herrno.symm.trans (hagain.resolve_left ?_))
        rw [hresult]
        exact result_ne_callback s.round
    · intro result' hreturned
      cases hpoll.symm.trans hreturned
  · have hreturned : (s.looper.pollAgain result).pc = .returned result := if_neg hagain
    rw [not_or] at hagain
    obtain ⟨hcallbacks, hresult, herrno⟩ := hcurrent.resolve_left fun hc => hagain.1 hc.2
    refine ⟨h.deadline, ?_, ?_, ?_⟩
    · unfold Current close
      rw [hreturned]
      trivial
    · rw [close, List.forall_mem_cons]
      refine ⟨iff_of_false ?_ ?_, h.repeats⟩
      · simp [hreturned]
      · rintro (hc | he)
        · rw [hcallbacks] at hc
          cases hc
        · exact hagain.2 (herrno.trans he)
    · intro result' hpc'
      cases hreturned.symm.trans hpc'
      exact ⟨_, _, rfl, fun _ => hresult⟩

/-- The end of a round where there is a timeout: it goes on at most behind a callback. -/
theorem deadline_inv {endTime : Int} {s : PollAll} {result : Int} {pc : Pc} {timeoutMillis : Int}
    (h : Inv (some endTime) s) (hpc : s.looper.pc = .callbacks result [])
    (hpoll : pc = .poll ∧ result = ALOOPER_POLL_CALLBACK ∨
      ∃ result', pc = .returned result' ∧ (result ≠ ALOOPER_POLL_CALLBACK → result' = result)) :
    Inv (some endTime)
      { s with looper := { s.looper with pc := pc }, timeoutMillis := timeoutMillis }.close := by
  have hcurrent := h.current
  unfold Current at hcurrent
  rw [hpc] at hcurrent
  rcases hpoll with ⟨rfl, hresult⟩ | ⟨result', rfl, hresult⟩
  · refine ⟨h.deadline, trivial, ?_, fun _ hreturned => (nomatch hreturned)⟩
    rw [close, List.forall_mem_cons]
    refine ⟨fun _ => ?_, h.repeats⟩
    rcases hcurrent with ⟨hcallbacks, _⟩ | ⟨_, hround, _⟩
    · exact hcallbacks
    · exact absurd (hround.symm.trans hresult) (result_ne_callback s.round)
  · refine ⟨h.deadline, trivial, ?_, ?_⟩
    · rw [close, List.forall_mem_cons]
      exact ⟨fun hagain => (nomatch hagain), h.repeats⟩
    · intro result'' hreturned
      cases hreturned
      refine ⟨_, _, rfl, fun hcallbacks => ?_⟩
      rcases hcurrent with ⟨hcallbacks', _⟩ | ⟨_, hround, _⟩
      · exact absurd (hcallbacks.symm.trans hcallbacks') Bool.false_ne_true
      · rw [hresult (by rw [hround]; exact result_ne_callback s.round), hround]
        rfl

theorem roundEnd_inv {endTime : Option Int} {s : PollAll} {result now : Int}
    (h : Inv endTime s) (hpc : s.looper.pc = .callbacks result []) :
    Inv endTime (s.again result now).close := by
  obtain ⟨looper, timeoutMillis, deadline, round, rounds⟩ := s
  obtain rfl : deadline = endTime := h.deadline
  cases deadline with
  | none => exact pollAgain_inv h hpc
  | some endTime =>
    rw [again]
    dsimp only
    split
    · exact deadline_inv h hpc (.inr ⟨result, rfl, fun _ => rfl⟩)
    · next hresult =>
      have hcallback : result = ALOOPER_POLL_CALLBACK := by simpa using hresult
      split
      · exact deadline_inv h hpc (.inr ⟨_, rfl, fun hne => absurd hcallback hne⟩)
      · exact deadline_inv h hpc (.inl ⟨rfl, hcallback⟩)

theorem next_step {s s' : PollAll} {a : Action} (h : s.next (.step a) = some s') :
    (∀ now, a ≠ .epollWait now) ∧ a ≠ .pollAgain ∧ ∃ l, s.looper.next a = some l ∧
      s' = { s with looper := l, round := s.round.note s.looper a } := by
  have hlooper : a ≠ .pollAgain ∧ (∀ now, a ≠ .epollWait now) ∧
      s.next (.step a) =
        (s.looper.next a).map fun l =>
          { s with looper := l, round := s.round.note s.looper a } := by
    cases a <;> first | exact ⟨by simp, by simp, rfl⟩ | cases h
  obtain ⟨l, hl, e⟩ := Option.map_eq_some_iff.mp (hlooper.2.2.symm.trans h)
  exact ⟨hlooper.2.1, hlooper.1, l, hl, e.symm⟩

theorem dispatchHead_ne_returned (l : Looper) (now result : Int) (mResponses : List Nat)
    (result' : Int) : (l.dispatchHead now result mResponses).pc ≠ .returned result' := by
  unfold dispatchHead
  split
  · exact fun h => (nomatch h)
  · split
    · exact fun h => (nomatch h)
    · exact fun h => (nomatch h)

/-- No other step gets the looper out of `pollAll`. -/
theorem next_returned {l l' : Looper} {a : Action} {result : Int} (ha : a ≠ .pollAgain)
    (hn : l.next a = some l') (hpc : l'.pc = .returned result) : l.pc = .returned result := by
  cases next_taken hn with
  | anywhere _ hbeside => rwa [hbeside.pc] at hpc
  | pollAgain _ => exact absurd rfl ha
  | pollLocked _ => exact absurd hpc (dispatchHead_ne_returned _ _ _ _ _)
  | handleMessage _ => exact absurd hpc (dispatchHead_ne_returned _ _ _ _ _)
  | _ => cases hpc

theorem next_inv {endTime : Option Int} {s s' : PollAll} {a : Act} (h : Inv endTime s)
    (hn : s.next a = some s') : Inv endTime s' := by
  cases a with
  | pollOnce now =>
    simp only [next] at hn
    split at hn
    · cases hn
      exact ⟨h.deadline, ⟨rfl, rfl⟩, h.repeats, fun _ hpc => (nomatch hpc)⟩
    · cases hn
  | roundEnd now =>
    simp only [next] at hn
    split at hn
    · next result hpc =>
      cases hn
      exact roundEnd_inv h hpc
    · cases hn
  | step a =>
    obtain ⟨hwait, hagain, l, hl, rfl⟩ := next_step hn
    exact ⟨h.deadline, current_next h.current hwait hagain hl, h.repeats,
      fun result hpc => h.returns result (next_returned hagain hl hpc)⟩

theorem inv_of_reached {l : Looper} {timeoutMillis now : Int} {as : List Act} {s : PollAll}
    (h : Reached l timeoutMillis now as s) : Inv (start l timeoutMillis now).endTime s :=
  Runs.after_inv (fun _ _ _ hinv hn => next_inv hinv hn) as (inv_start l timeoutMillis now) h

/-- For every looper, every value of `errno`, every timeout and every run: `pollAll` goes round
again only where it has to, exactly if it has a timeout or every poll is clear. -/
theorem pollAll_stops_iff {l : Looper} {timeoutMillis now : Int} {as : List Act} {s : PollAll}
    (h : Reached l timeoutMillis now as s) :
    Stops s ↔ 0 < timeoutMillis ∨ ∀ r ∈ s.rounds, r.Clear := by
  have hinv := inv_of_reached h
  by_cases htimeout : 0 < timeoutMillis
  · have hend : (start l timeoutMillis now).endTime = some (now + timeoutMillis * 1000000) :=
      if_neg (by omega)
    rw [hend] at hinv
    exact iff_of_true ⟨fun r hr hagain => .inl (hinv.repeats r hr hagain), hinv.returns⟩
      (.inl htimeout)
  · have hend : (start l timeoutMillis now).endTime = none := if_pos (by omega)
    rw [hend] at hinv
    rw [or_iff_right htimeout]
    constructor
    · intro hstops r hr
      by_cases herrno : r.errnoLeft = EINTR
      · exact .inl (hstops.goesRound r hr ((hinv.repeats r hr).mpr (.inr herrno)))
      · exact .inr herrno
    · intro hclear
      refine ⟨fun r hr hagain => ?_, hinv.returns⟩
      rcases hclear r hr with hresumes | herrno
      · exact hresumes
      · exact .inl (((hinv.repeats r hr).mp hagain).resolve_right herrno)

/-- A wait that is not over at once, and nothing else. -/
def timedOut : List Act :=
  [.pollOnce 0, .step (.epollReturn .timeout), .step (.pollLocked 0 false), .roundEnd 0]

theorem timedOut_stops :
    Stops ((Runs.after next timedOut (start .init 0 0)).getD (start .init 0 0)) ↔
      0 < (0 : Int) ∨ ∀ r ∈ ((Runs.after next timedOut (start .init 0 0)).getD
        (start .init 0 0)).rounds, r.Clear :=
  pollAll_stops_iff (show Reached .init 0 0 timedOut _ from rfl)

/-- An interruption that is long over keeps `pollAll` from returning. -/
theorem stale_errno_goes_round : ¬ ∀ (l : Looper) (timeoutMillis now : Int) (as : List Act)
    (s : PollAll), Reached l timeoutMillis now as s → Stops s := by
  intro h
  have hstops := h { Looper.init with errno := EINTR } 0 0 timedOut _ rfl
  rcases hstops.goesRound ⟨EINTR, .timeout, 0, false, false, true⟩ (by decide) rfl with
    hcallbacks | hwait
  · cases hcallbacks
  · cases hwait

end PollAll

end Cdroid.Utils
