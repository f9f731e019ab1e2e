import Cdroid.Utils.Polls

/-! What ends a wait. A poller that blocks while there is a message in the queue has a
timeout for it, or has been woken, or is about to be: `wake` comes after the lock is
released. The timeout is in whole milliseconds, rounded up, and a time that is too far
off has none. -/

namespace Cdroid.Utils
open Cdroid.Lib

namespace Looper

/-- A wait with this timeout, from this time on, is over less than a millisecond after
`due`. -/
def EndsBy (timeoutMillis waitedAt due : Int) : Prop :=
  0 ≤ timeoutMillis ∧ waitedAt + timeoutMillis * 1000000 < max waitedAt due + 1000000

/-- A time for which there is no timeout. -/
def FarOff (waitedAt due : Int) : Prop :=
  (INT_MAX - 1) * 1000000 < due - waitedAt ∨ LLONG_MAX ≤ due

theorem FarOff.mono {waitedAt due due' : Int} (h : FarOff waitedAt due) (hle : due ≤ due') :
    FarOff waitedAt due' := by
  rcases h with h | h
  · exact Or.inl (by omega)
  · exact Or.inr (Int.le_trans h hle)

theorem EndsBy.mono {timeoutMillis waitedAt due due' : Int}
    (h : EndsBy timeoutMillis waitedAt due) (hle : due ≤ due') :
    EndsBy timeoutMillis waitedAt due' := by
  obtain ⟨hpos, hlt⟩ := h
  exact ⟨hpos, by omega⟩

/-! ## The timeout -/

theorem toMillisecondTimeoutDelay_cases (now due : Int) :
    (toMillisecondTimeoutDelay now due = -1 ∧ FarOff now due) ∨
      EndsBy (toMillisecondTimeoutDelay now due) now due := by
  unfold toMillisecondTimeoutDelay
  by_cases hdue : now < due
  · rw [if_pos hdue]
    by_cases hfar : (INT_MAX - 1) * 1000000 < due - now
    · rw [if_pos hfar]
      exact Or.inl ⟨rfl, Or.inl hfar⟩
    · rw [if_neg hfar]
      refine Or.inr ⟨?_, ?_⟩ <;> omega
  · rw [if_neg hdue]
    refine Or.inr ⟨?_, ?_⟩ <;> omega

/-- Whatever the caller's timeout, the wait ends in time for the next message. -/
theorem adjustTimeout_covers (l : Looper) (timeoutMillis now : Int) :
    FarOff now l.mNextMessageUptime ∨
      EndsBy (l.adjustTimeout timeoutMillis now) now l.mNextMessageUptime := by
  unfold adjustTimeout
  by_cases hadjust : timeoutMillis ≠ 0 ∧ l.mNextMessageUptime ≠ LLONG_MAX
  · rw [if_pos hadjust]
    rcases toMillisecondTimeoutDelay_cases now l.mNextMessageUptime with ⟨-, hfar⟩ | hends
    · exact Or.inl hfar
    · refine Or.inr ?_
      dsimp only
      split
      · exact hends
      · next hkeep =>
        -- the caller's timeout is the shorter one
        obtain ⟨hpos, hlt⟩ := hends
        have hle : 0 ≤ timeoutMillis ∧
            timeoutMillis ≤ toMillisecondTimeoutDelay now l.mNextMessageUptime := by
          constructor
          · by_contra hneg
            exact hkeep ⟨hpos, Or.inl (by omega)⟩
          · by_contra hgt
            exact hkeep ⟨hpos, Or.inr (by omega)⟩
        exact ⟨hle.1, by omega⟩
  · rw [if_neg hadjust]
    by_cases hzero : timeoutMillis = 0
    · refine Or.inr ⟨?_, ?_⟩ <;> omega
    · have hnext : l.mNextMessageUptime = LLONG_MAX := by
        by_contra hne
        exact hadjust ⟨hzero, hne⟩
      exact Or.inl (Or.inr (Int.le_of_eq hnext.symm))

/-- A call that leads into a wait starts it with an adjusted timeout, or finds the looper
in it and leaves alone what the looper waits for. -/
theorem call_waiting {l l' : Looper} {c : Call} (hc : l.call c = some l') {t : Int}
    (hpc : l'.pc = .waiting t) :
    (∃ timeoutMillis now, c.action = .epollWait now ∧ t = l.adjustTimeout timeoutMillis now ∧
      l'.mNextMessageUptime = l.mNextMessageUptime) ∨
    ((∀ now, c.action ≠ .epollWait now) ∧ l.pc = .waiting t ∧
      l'.mNextMessageUptime = l.mNextMessageUptime) := by
  have hhead : ∀ (l : Looper) (now result : Int) (mResponses : List Nat),
      (l.dispatchHead now result mResponses).pc ≠ .waiting t := by
    intro l now result mResponses
    rcases dispatchHead_cases l now result mResponses with ⟨e, es, -, -, -, -, hpc⟩ | ⟨-, -, -, hpc⟩
    · simp [hpc]
    · simp [hpc]
  cases c with
  | sendMessage now handler message what =>
    cases hc
    exact Or.inr ⟨by simp [Call.action], hpc, rfl⟩
  | sendMessageDelayed now uptimeDelay handler message what =>
    cases hc
    exact Or.inr ⟨by simp [Call.action], hpc, rfl⟩
  | pollInner timeoutMillis now =>
    obtain ⟨-, -, rfl⟩ := pollInner_cases hc
    cases hpc
    exact Or.inl ⟨timeoutMillis, now, rfl, rfl, rfl⟩
  | step a =>
    simp only [call] at hc
    cases next_taken hc with
    | anywhere ha hbeside =>
      rw [hbeside.pc] at hpc
      refine Or.inr ⟨?_, hpc, hbeside.mNextMessageUptime⟩
      rintro now rfl
      cases ha
    | epollWait _ =>
      cases hpc
      exact Or.inl ⟨-1, _, rfl, rfl, rfl⟩
    | epollReturn _ _ => cases hpc
    | pollLocked _ => exact absurd hpc (hhead _ _ _ _)
    | handleMessage _ => exact absurd hpc (hhead _ _ _ _)
    | handleEvent _ => cases hpc
    | pollAgain _ =>
      unfold pollAgain at hpc
      dsimp only at hpc
      split at hpc <;> cases hpc

end Looper

namespace Polls
open Looper

/-- A poller that waits does so for the next message that it knows of. -/
def Waits (s : Polls) : Prop :=
  ∀ t, s.looper.pc = .waiting t →
    FarOff s.waitedAt s.looper.mNextMessageUptime ∨
      EndsBy t s.waitedAt s.looper.mNextMessageUptime

theorem next_waitedAt {s s' : Polls} {c : Call} (hc : s.next c = some s') :
    (∀ now, c.action = .epollWait now → s'.waitedAt = now) ∧
      ((∀ now, c.action ≠ .epollWait now) → s'.waitedAt = s.waitedAt) := by
  obtain ⟨l, -, rfl⟩ := Option.map_eq_some_iff.mp hc
  constructor
  · intro now ha
    dsimp only
    rw [ha]
  · intro ha
    dsimp only
    split
    · next now hnow => exact absurd hnow (ha now)
    · rfl

theorem next_waits {s s' : Polls} {c : Call} (h : s.Waits) (hc : s.next c = some s') :
    s'.Waits := by
  intro t hpc
  obtain ⟨hcall, -⟩ := next_cases hc
  obtain ⟨hat, hsame⟩ := next_waitedAt hc
  rcases call_waiting hcall hpc with ⟨timeoutMillis, now, ha, rfl, hnext⟩ | ⟨ha, hwas, hnext⟩
  · rw [hat now ha, hnext]
    exact adjustTimeout_covers s.looper timeoutMillis now
  · rw [hsame ha, hnext]
    exact h t hwas

theorem waits_of_reached {cs : List Call} {s : Polls} (h : Reached cs s) : s.Waits :=
  Runs.after_inv (I := Waits) (fun _ _ _ hw hc => next_waits hw hc) cs
    (fun _ hpc => by cases hpc) h

/-- A message that is due in a millisecond and a half, and a poller that has seen it. -/
def seen : List Call :=
  [.step (.sendMessageAtTime ⟨1500000, 1, 10, 0⟩), .step .wake, .pollInner (-1) 0,
    .step (.epollReturn (.events true [])), .step (.pollLocked 0 false), .pollInner (-1) 1000]

/-- The wait is not over later than any message in the queue is due, or there is a byte
in the wake pipe. -/
def inTime (s : Polls) : Bool :=
  match s.looper.pc with
  | .waiting t => 0 < s.looper.pipe || s.looper.mMessageEnvelopes.all fun e =>
      0 ≤ t && s.waitedAt + t * 1000000 ≤ max s.waitedAt e.uptime
  | _ => true

/-- A sender that has not written its byte yet. -/
def unwritten : List Call := [.pollInner (-1) 0, .sendMessage 5 1 10 0]

/-- A message that is due in a year. -/
def nextYear : List Call :=
  [.step (.sendMessageAtTime ⟨31536000000000000, 1, 10, 0⟩), .step .wake, .pollInner (-1) 0,
    .step (.epollReturn (.events true [])), .step (.pollLocked 0 false), .pollInner (-1) 1000]

end Polls

end Cdroid.Utils
