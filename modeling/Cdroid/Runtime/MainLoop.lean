import Cdroid.Utils.Looper

/-! The main loop, `Looper::loop`, over every order of sends, removals and polls.
`pollAll` goes round again after a callback or an interrupted wait only, so the loop
goes on as long as every wait that is woken or times out finds something to do. -/

namespace Cdroid.Runtime
open Cdroid.Lib.Comp Cdroid.Utils

namespace MainLoop

/-- Is the head of the queue due? -/
def due (l : Looper) (now : Int) : Bool := l.mMessageEnvelopes.head?.any fun e => e.uptime ≤ now

/-- The wait has failed, or there is something to do when the lock is taken: a due
message or a callback. A stale `EINTR` makes up for both. -/
def findsWork (l : Looper) (now : Int) (interrupted : Bool) : PollResult → Bool
  | .error _ => true
  | .timeout => due l now || l.errno = EINTR
  | .events wake fds => due l now || fds.any (fun fd => fd ∈ l.mRequests) ||
      (if wake then (l.awoken interrupted).errno else l.errno) = EINTR

/-- When the polling thread takes the lock after a wait, it finds work. -/
def ready (l : Looper) : Looper.Action → Bool
  | .pollLocked now interrupted => match l.pc with
    | .polled r => findsWork l now interrupted r
    | _ => true
  | _ => true

/-! ## What the loop's condition will see -/

/-- The result makes `pollAll` go round again, or is the error. -/
def Alive (l : Looper) (result : Int) : Prop :=
  result = ALOOPER_POLL_ERROR ∨ result = ALOOPER_POLL_CALLBACK ∨ l.errno = EINTR

/-- The looper is on its way to a callback, or has such a result. -/
def LoopInv (l : Looper) : Prop :=
  match l.pc with
  | .callbacks result [] => Alive l result
  | .returned result => result = ALOOPER_POLL_ERROR
  | _ => True

theorem loopInv_of_pc {l l' : Looper} (h : LoopInv l) (hpc : l'.pc = l.pc)
    (herrno : l'.errno = l.errno) : LoopInv l' := by
  unfold LoopInv Alive at *
  rw [hpc, herrno]
  exact h

theorem dispatchHead_inv {l : Looper} {now result : Int} {mResponses : List Nat}
    (h : due l now ∨ mResponses ≠ [] ∨ Alive l result) :
    LoopInv (l.dispatchHead now result mResponses) := by
  have hcallbacks : ∀ l' : Looper, l'.errno = l.errno → l'.pc = .callbacks result mResponses →
      ¬ due l now → LoopInv l' := by
    intro l' herrno hpc hdue
    rcases h with h | h | h
    · exact absurd h hdue
    · unfold LoopInv
      rw [hpc]
      cases mResponses with
      | nil => exact absurd rfl h
      | cons fd fds => trivial
    · unfold LoopInv
      rw [hpc]
      cases mResponses with
      | nil => exact h.imp_right fun h => h.imp_right fun h => herrno.trans h
      | cons fd fds => trivial
  unfold Looper.dispatchHead
  split
  · next hq => exact hcallbacks _ rfl rfl (by simp [due, hq])
  · next e es hq =>
    split
    · trivial
    · next hlate => exact hcallbacks _ rfl rfl (by simpa [due, hq] using hlate)

theorem pollLocked_inv {l : Looper} {now : Int} {interrupted : Bool} {r : PollResult}
    (h : findsWork l now interrupted r) : LoopInv (l.pollLocked now interrupted r) := by
  refine dispatchHead_inv ?_
  cases r with
  | error errno =>
    refine Or.inr (Or.inr ?_)
    show _ ∨ _ ∨ errno = EINTR
    by_cases he : errno = EINTR
    · exact Or.inr (Or.inr he)
    · exact Or.inl (if_neg he)
  | timeout =>
    simp only [findsWork, Bool.or_eq_true, decide_eq_true_eq] at h
    rcases h with h | h
    · exact Or.inl h
    · exact Or.inr (Or.inr (Or.inr (Or.inr h)))
  | events wake fds =>
    simp only [findsWork, Bool.or_eq_true, decide_eq_true_eq] at h
    rcases h with (h | h) | h
    · refine Or.inl ?_
      cases wake <;> exact h
    · refine Or.inr (Or.inl fun hnil => ?_)
      obtain ⟨fd, hfd, hreq⟩ := List.any_eq_true.mp h
      have : fd ∈ fds.filter fun fd => fd ∈ l.mRequests := List.mem_filter.mpr ⟨hfd, hreq⟩
      rw [show fds.filter _ = [] from hnil] at this
      cases this
    · refine Or.inr (Or.inr (Or.inr (Or.inr ?_)))
      cases wake <;> exact h

theorem next_inv {l l' : Looper} {a : Looper.Action} (h : LoopInv l) (hready : ready l a)
    (hn : l.next a = some l') : LoopInv l' := by
  cases Looper.next_taken hn with
  | anywhere _ hbeside => exact loopInv_of_pc h hbeside.pc hbeside.errno
  | epollWait hpc => trivial
  | epollReturn hpc hreturn => trivial
  | pollLocked hpc =>
    simp only [ready, hpc] at hready
    exact pollLocked_inv hready
  | handleMessage hpc => exact dispatchHead_inv (Or.inr (Or.inr (Or.inr (Or.inl rfl))))
  | @handleEvent _ _ _ _ mResponses hpc =>
    unfold LoopInv
    cases mResponses with
    | nil => exact Or.inr (Or.inl rfl)
    | cons fd fds => trivial
  | @pollAgain result hpc =>
    unfold LoopInv at h ⊢
    rw [hpc] at h
    by_cases hagain : result = ALOOPER_POLL_CALLBACK ∨ l.errno = EINTR
    · rw [show (l.pollAgain result).pc = .poll from if_pos hagain]
      trivial
    · rw [show (l.pollAgain result).pc = .returned result from if_neg hagain]
      exact h.resolve_right hagain

theorem dispatchHead_of_not_due {l : Looper} {now : Int} (h : ¬ due l now) (result : Int)
    (mResponses : List Nat) :
    (l.dispatchHead now result mResponses).pc = .callbacks result mResponses ∧
      (l.dispatchHead now result mResponses).errno = l.errno := by
  unfold Looper.dispatchHead
  split
  · exact ⟨rfl, rfl⟩
  · next e es hq => rw [if_neg (by simpa [due, hq] using h)]; exact ⟨rfl, rfl⟩

/-- A wait that ends with nothing to do ends the loop, with no error. -/
theorem returns_of_not_findsWork {l : Looper} {now : Int} {interrupted : Bool} {r : PollResult}
    (hpc : l.pc = .polled r) (h : ¬ findsWork l now interrupted r) :
    ∃ l' result, run Looper.step [.pollLocked now interrupted, .pollAgain] l = .ok ⟨⟩ l' ∧
      l'.pc = .returned result ∧ result ≠ ALOOPER_POLL_ERROR := by
  have hend : ∀ (k : Looper) (result : Int), k.errno ≠ EINTR → ¬ due k now →
      result ≠ ALOOPER_POLL_CALLBACK →
      l.pollLocked now interrupted r = k.dispatchHead now result [] →
      result ≠ ALOOPER_POLL_ERROR →
      ∃ l' result, run Looper.step [.pollLocked now interrupted, .pollAgain] l = .ok ⟨⟩ l' ∧
        l'.pc = .returned result ∧ result ≠ ALOOPER_POLL_ERROR := by
    intro k result herrno hdue hcallback hk herror
    obtain ⟨hd, he⟩ := dispatchHead_of_not_due hdue result []
    refine ⟨(k.dispatchHead now result []).pollAgain result, result, ?_, ?_, herror⟩
    · refine run_cons_ok.mpr ⟨k.dispatchHead now result [], Looper.step_ok ?_, ?_⟩
      · simp only [Looper.next, hpc, hk]
      · refine run_cons_ok.mpr ⟨_, Looper.step_ok ?_, rfl⟩
        simp only [Looper.next, hd]
    · exact if_neg fun hagain => hagain.elim hcallback fun h => herrno (he ▸ h)
  cases r with
  | error errno => exact absurd rfl h
  | timeout =>
    simp only [findsWork, Bool.or_eq_true, decide_eq_true_eq, not_or] at h
    exact hend { l with mNextMessageUptime := LLONG_MAX } _ h.2 h.1 (by decide) rfl (by decide)
  | events wake fds =>
    simp only [findsWork, Bool.or_eq_true, decide_eq_true_eq, not_or] at h
    obtain ⟨⟨hdue, hfds⟩, herrno⟩ := h
    have hnil : fds.filter (fun fd => fd ∈ l.mRequests) = [] :=
      List.filter_eq_nil_iff.mpr fun fd hfd hreq => hfds (List.any_eq_true.mpr ⟨fd, hfd, hreq⟩)
    refine hend { (if wake then l.awoken interrupted else l) with mNextMessageUptime := LLONG_MAX }
      ALOOPER_POLL_WAKE ?_ ?_ (by decide) ?_ (by decide)
    · cases wake <;> exact herrno
    · cases wake <;> exact hdue
    · simp only [Looper.pollLocked, Looper.handleEvents, hnil]

/-- **Main loop.** In a run in which every wait finds work, the loop returns only with
the error of a poll. -/
theorem loop_returns_error (as : List Looper.Action)
    (hready : Along (fun l a => ready l a) Looper.step as Looper.init) (l : Looper)
    (hl : Looper.Reached as l) :
    ∀ result, l.pc = .returned result → result = ALOOPER_POLL_ERROR := by
  have hinit : LoopInv Looper.init := trivial
  have hstep : ∀ l a, LoopInv l → ready l a → wp (Looper.step a) (fun _ => LoopInv)
      (fun _ _ => True) l :=
    fun l a h ha => Looper.wp_step fun l' hn => next_inv h ha hn
  have hinv := wp_ok (wp_run hstep as hinit hready) hl
  intro result hpc
  unfold LoopInv at hinv
  rwa [hpc] at hinv

/-- A message is sent and handled, and the next wait fails. -/
def errorRun : List Looper.Action :=
  [.epollWait 0, .sendMessageAtTime ⟨5, 1, 1, 0⟩, .wake, .epollReturn (.events true []),
    .pollLocked 5 false, .handleMessage 6 0, .pollAgain, .epollWait 6, .epollReturn (.error 9),
    .pollLocked 7 false, .pollAgain]

theorem loop_returns_error_errorRun :
    Looper.Reached errorRun (final (run Looper.step errorRun Looper.init)) ∧
      ∀ result, (final (run Looper.step errorRun Looper.init)).pc = .returned result →
        result = ALOOPER_POLL_ERROR := by
  have hreached : Looper.Reached errorRun _ := eq_ok_final (by decide +kernel)
  exact ⟨hreached, loop_returns_error errorRun (by decide +kernel) _ hreached⟩

/-- A delayed message wakes the idle looper before it is due, and the loop returns. -/
theorem loop_returns_woken :
    ¬ ∀ (as : List Looper.Action) (l : Looper), Looper.Reached as l →
      ∀ result, l.pc = .returned result → result = ALOOPER_POLL_ERROR := by
  intro h
  have := h [.epollWait 0, .sendMessageAtTime ⟨1000, 1, 1, 0⟩, .wake,
    .epollReturn (.events true []), .pollLocked 1 false, .pollAgain] _
    (eq_ok_final (by decide +kernel)) ALOOPER_POLL_WAKE (by decide +kernel)
  revert this
  decide

end MainLoop

end Cdroid.Runtime
