import Mathlib.Data.List.Basic
import Cdroid.Utils.Looper

/-! The order in which the looper handles messages. The queue is sorted by due time
and equal times keep their order, so messages that are sent with non-decreasing
times are handled in the order they were sent in, whatever else is in the queue. -/

namespace Cdroid.Utils
open Cdroid.Lib.Comp

namespace Looper

/-! ## Inserting -/

theorem insertEnvelope_perm (e : MessageEnvelope) (es : List MessageEnvelope) :
    (insertEnvelope e es).Perm (e :: es) := by
  induction es with
  | nil => exact List.Perm.refl _
  | cons e' es ih =>
    unfold insertEnvelope
    split
    · exact (ih.cons e').trans (List.Perm.swap e e' es)
    · exact List.Perm.refl _

theorem mem_insertEnvelope {e q : MessageEnvelope} {es : List MessageEnvelope} :
    q ∈ insertEnvelope e es ↔ q = e ∨ q ∈ es := by
  rw [(insertEnvelope_perm e es).mem_iff, List.mem_cons]

/-- Sorted by the time at which a message is due. -/
def Sorted (es : List MessageEnvelope) : Prop := es.Pairwise fun e e' => e.uptime ≤ e'.uptime

theorem insertEnvelope_sorted (e : MessageEnvelope) {es : List MessageEnvelope} (h : Sorted es) :
    Sorted (insertEnvelope e es) := by
  induction es with
  | nil => exact List.pairwise_singleton _ _
  | cons e' es ih =>
    obtain ⟨hle, hrest⟩ := List.pairwise_cons.mp h
    unfold insertEnvelope
    split
    · next hlate =>
      apply List.pairwise_cons.mpr
      refine ⟨fun q hq => ?_, ih hrest⟩
      rcases mem_insertEnvelope.mp hq with rfl | hq
      · exact hlate
      · exact hle q hq
    · next hearly =>
      apply List.pairwise_cons.mpr
      refine ⟨fun q hq => ?_, h⟩
      have hlt := Int.le_of_lt (Int.not_le.mp hearly)
      rcases List.mem_cons.mp hq with rfl | hq
      · exact hlt
      · exact Int.le_trans hlt (hle q hq)

/-- Of the envelopes that `f` looks at, one that is not due before the others goes to
the end. -/
theorem filterMap_insertEnvelope {β : Type} {f : MessageEnvelope → Option β} {e : MessageEnvelope}
    {es : List MessageEnvelope} (hs : Sorted es)
    (h : f e ≠ none → ∀ q ∈ es, f q ≠ none → q.uptime ≤ e.uptime) :
    (insertEnvelope e es).filterMap f = es.filterMap f ++ (f e).toList := by
  induction es with
  | nil => cases hf : f e <;> simp [insertEnvelope, hf]
  | cons e' es ih =>
    obtain ⟨hle, hrest⟩ := List.pairwise_cons.mp hs
    have hnext := ih hrest fun hf q hq => h hf q (List.mem_cons_of_mem _ hq)
    unfold insertEnvelope
    split
    · rw [List.filterMap_cons, List.filterMap_cons, hnext]
      cases f e' <;> rfl
    · next hearly =>
      cases hf : f e with
      | none => simp [hf]
      | some b =>
        -- it is put in front of a rest in which nothing is looked at
        have hlater : ∀ q ∈ e' :: es, e.uptime < q.uptime := by
          intro q hq
          have hlt := Int.not_le.mp hearly
          rcases List.mem_cons.mp hq with rfl | hq
          · exact hlt
          · exact Int.lt_of_lt_of_le hlt (hle q hq)
        have hnone : (e' :: es).filterMap f = [] := by
          apply List.filterMap_eq_nil_iff.mpr
          intro q hq
          cases hfq : f q with
          | none => rfl
          | some b' =>
            have hle := h (by simp [hf]) q hq (by simp [hfq])
            exact absurd hle (Int.not_le.mpr (hlater q hq))
        rw [List.filterMap_cons, hf, hnone]
        rfl

/-! ## What is to be handled -/

/-- The message that is being handled. -/
def current (l : Looper) : Option MessageEnvelope :=
  match l.pc with
  | .handling _ => l.dispatched.getLast?.map Prod.snd
  | _ => none

def toHandle (l : Looper) : List MessageEnvelope := l.current.toList ++ l.mMessageEnvelopes

/-- Outside the critical section after a wait, and not in a handler. -/
def resting (l : Looper) : Bool :=
  match l.pc with
  | .polled _ => false
  | .handling _ => false
  | _ => true

/-- The queue is sorted, a message that is being handled has been taken out, and a
looper that is not about to test its queue has been woken for what is in it, or
knows when it is due. -/
structure QueueInv (l : Looper) : Prop where
  sorted : Sorted l.mMessageEnvelopes
  handling : ∀ mResponses, l.pc = .handling mResponses → l.dispatched ≠ []
  sending : (∀ mResponses, l.pc ≠ .handling mResponses) → l.mSendingMessage = false
  woken : l.resting → ∀ e ∈ l.mMessageEnvelopes,
    0 < l.pipe ∨ 0 < l.wakes ∨ l.mNextMessageUptime ≤ e.uptime

theorem resting_ne_handling {l : Looper} (h : l.resting) (mResponses : List Nat) :
    l.pc ≠ .handling mResponses := by
  intro hpc
  simp [resting, hpc] at h

theorem QueueInv.init : QueueInv init := by
  refine ⟨List.Pairwise.nil, ?_, ?_, ?_⟩
  · intro _ h
    cases h
  · intro _
    rfl
  · intro _ e he
    cases he

theorem QueueInv.current_isSome {l : Looper} (h : QueueInv l) {mResponses : List Nat}
    (hpc : l.pc = .handling mResponses) : ∃ e, l.current = some e := by
  simp only [current, hpc]
  cases hd : l.dispatched.getLast? with
  | none => exact absurd (List.getLast?_eq_none_iff.mp hd) (h.handling mResponses hpc)
  | some p => exact ⟨p.2, rfl⟩

/-! ## Testing the queue -/

/-- The head is taken out and is being handled, or nothing is due. -/
theorem dispatchHead_cases (l : Looper) (now result : Int) (mResponses : List Nat) :
    (∃ e es, l.mMessageEnvelopes = e :: es ∧ e.uptime ≤ now ∧
      (l.dispatchHead now result mResponses).mMessageEnvelopes = es ∧
      (l.dispatchHead now result mResponses).dispatched = l.dispatched ++ [(now, e)] ∧
      (l.dispatchHead now result mResponses).pc = .handling mResponses) ∨
    ((∀ e ∈ l.mMessageEnvelopes.head?, now < e.uptime ∧
        (l.dispatchHead now result mResponses).mNextMessageUptime = e.uptime) ∧
      (l.dispatchHead now result mResponses).mMessageEnvelopes = l.mMessageEnvelopes ∧
      (l.dispatchHead now result mResponses).mSendingMessage = l.mSendingMessage ∧
      (l.dispatchHead now result mResponses).pc = .callbacks result mResponses) := by
  unfold dispatchHead
  split
  · next hq => exact Or.inr ⟨by simp [hq], rfl, rfl, rfl⟩
  · next e es hq =>
    split
    · next hdue => exact Or.inl ⟨e, es, hq, hdue, rfl, rfl, rfl⟩
    · next hlate => exact Or.inr ⟨by simpa [hq] using hlate, rfl, rfl, rfl⟩

/-- The test neither loses nor reorders messages, and goes on to the callbacks only if
nothing is due. -/
theorem dispatchHead_spec {l : Looper} (h : Sorted l.mMessageEnvelopes)
    (hsending : l.mSendingMessage = false) (now result : Int) (mResponses : List Nat) :
    QueueInv (l.dispatchHead now result mResponses) ∧
      (l.dispatchHead now result mResponses).toHandle = l.mMessageEnvelopes ∧
      ((l.dispatchHead now result mResponses).resting →
        ∀ e ∈ (l.dispatchHead now result mResponses).toHandle, now < e.uptime) := by
  rcases dispatchHead_cases l now result mResponses with
    ⟨e, es, hq, -, hes, hd, hpc⟩ | ⟨hlate, hes, hs, hpc⟩
  · have hbusy : ¬ (l.dispatchHead now result mResponses).resting := by simp [resting, hpc]
    refine ⟨⟨?_, ?_, ?_, fun hr => absurd hr hbusy⟩, ?_, fun hr => absurd hr hbusy⟩
    · rw [hes]
      rw [hq] at h
      exact (List.pairwise_cons.mp h).2
    · intro _ _
      simp [hd]
    · intro hidle
      exact absurd hpc (hidle mResponses)
    · simp [toHandle, current, hpc, hd, hes, hq]
  · have hall : ∀ e ∈ l.mMessageEnvelopes, now < e.uptime ∧
        (l.dispatchHead now result mResponses).mNextMessageUptime ≤ e.uptime := by
      intro e he
      cases hq : l.mMessageEnvelopes with
      | nil =>
        rw [hq] at he
        cases he
      | cons e' es =>
        rw [hq] at h he
        obtain ⟨hnow, hnext⟩ := hlate e' (by simp [hq])
        have hle : e'.uptime ≤ e.uptime := by
          rcases List.mem_cons.mp he with rfl | he
          · exact Int.le_refl _
          · exact (List.pairwise_cons.mp h).1 e he
        exact ⟨Int.lt_of_lt_of_le hnow hle, Int.le_trans (Int.le_of_eq hnext) hle⟩
    have htoHandle : (l.dispatchHead now result mResponses).toHandle = l.mMessageEnvelopes := by
      simp [toHandle, current, hpc, hes]
    refine ⟨⟨?_, ?_, ?_, ?_⟩, htoHandle, ?_⟩
    · rw [hes]
      exact h
    · intro r hr
      rw [hpc] at hr
      cases hr
    · intro _
      rw [hs, hsending]
    · intro _ e he
      rw [hes] at he
      exact Or.inr (Or.inr (hall e he).2)
    · intro _ e he
      rw [htoHandle] at he
      exact (hall e he).1

/-! ## Steps -/

/-- What a step sends. -/
def sent : Action → List MessageEnvelope
  | .sendMessageAtTime e => [e]
  | _ => []

/-- What a step takes back. -/
def removes : Action → MessageEnvelope → Bool
  | .removeMessages handler, e => e.handler = handler
  | .removeMessagesWhat handler what, e => e.handler = handler ∧ e.what = what
  | _, _ => false

/-- When a step tests the queue. -/
def testsAt : Action → Option Int
  | .pollLocked now _ => some now
  | .handleMessage now _ => some now
  | _ => none

theorem exists_le_of_insertIndex {uptime : Int} {es : List MessageEnvelope}
    (h : insertIndex uptime es ≠ 0) : ∃ e ∈ es, e.uptime ≤ uptime := by
  cases es with
  | nil => exact absurd rfl h
  | cons e es =>
    refine ⟨e, List.mem_cons_self .., ?_⟩
    apply Decidable.byContradiction
    intro hlate
    exact h (if_neg hlate)

theorem sendMessageAtTime_inv {l : Looper} (h : QueueInv l) (e : MessageEnvelope) :
    QueueInv (l.sendMessageAtTime e) := by
  refine ⟨insertEnvelope_sorted e h.sorted, h.handling, h.sending, ?_⟩
  intro hrest q hq
  have hidle : l.mSendingMessage = false := h.sending (resting_ne_handling hrest)
  have hwakes : (l.sendMessageAtTime e).wakes =
      if insertIndex e.uptime l.mMessageEnvelopes = 0 then l.wakes + 1 else l.wakes := by
    simp [sendMessageAtTime, hidle]
  rw [hwakes]
  by_cases hi : insertIndex e.uptime l.mMessageEnvelopes = 0
  · rw [if_pos hi]
    exact Or.inr (Or.inl (Nat.succ_pos _))
  · rw [if_neg hi]
    rcases mem_insertEnvelope.mp hq with rfl | hq
    · -- it stands behind one that the looper knows of
      obtain ⟨e', he', hle⟩ := exists_le_of_insertIndex hi
      rcases h.woken hrest e' he' with hpipe | hwake | hnext
      · exact Or.inl hpipe
      · exact Or.inr (Or.inl hwake)
      · exact Or.inr (Or.inr (Int.le_trans hnext hle))
    · exact h.woken hrest q hq

theorem wake_inv {l : Looper} (h : QueueInv l) : QueueInv l.wake := by
  refine ⟨h.sorted, h.handling, h.sending, ?_⟩
  intro _ _ _
  refine Or.inl ?_
  show 0 < min (l.pipe + 1) PIPE_SIZE
  unfold PIPE_SIZE
  omega

theorem filter_inv {l : Looper} (h : QueueInv l) (p : MessageEnvelope → Bool) :
    QueueInv { l with mMessageEnvelopes := l.mMessageEnvelopes.filter p } := by
  refine ⟨h.sorted.filter p, h.handling, h.sending, ?_⟩
  intro hrest e he
  exact h.woken hrest e ((List.mem_filter.mp he).1)

/-- A step of the polling thread that leaves the queue alone. -/
theorem QueueInv.of_same {l l' : Looper} (h : QueueInv l)
    (hq : l'.mMessageEnvelopes = l.mMessageEnvelopes) (hs : l'.mSendingMessage = l.mSendingMessage)
    (hpipe : l'.pipe = l.pipe) (hwakes : l'.wakes = l.wakes)
    (hnext : l'.mNextMessageUptime = l.mNextMessageUptime)
    (hidle : ∀ mResponses, l.pc ≠ .handling mResponses)
    (hidle' : ∀ mResponses, l'.pc ≠ .handling mResponses)
    (hrest : l'.resting → l.resting) : QueueInv l' := by
  refine ⟨?_, ?_, ?_, ?_⟩
  · rw [hq]
    exact h.sorted
  · intro r hpc
    exact absurd hpc (hidle' r)
  · intro _
    rw [hs]
    exact h.sending hidle
  · rw [hq, hpipe, hwakes, hnext]
    exact fun hl' => h.woken (hrest hl')

/-- What is being handled before a step and still after it. -/
def carried (l : Looper) : Action → List MessageEnvelope
  | .handleMessage .. => []
  | _ => l.current.toList

/-- The queue as a step finds it when it tests it, or leaves it. -/
def queueAfter (l : Looper) : Action → List MessageEnvelope
  | .sendMessageAtTime e => insertEnvelope e l.mMessageEnvelopes
  | a => l.mMessageEnvelopes.filter fun e => !removes a e

theorem queueAfter_of_keeps {l : Looper} {a : Action} (hs : sent a = [])
    (hr : ∀ e, removes a e = false) : l.queueAfter a = l.mMessageEnvelopes := by
  have hfilter : (l.mMessageEnvelopes.filter fun e => !removes a e) = l.mMessageEnvelopes := by
    apply List.filter_eq_self.mpr
    intro e _
    simp [hr e]
  cases a with
  | sendMessageAtTime e => cases hs
  | _ => exact hfilter

theorem toHandle_of_idle {l : Looper} (h : ∀ mResponses, l.pc ≠ .handling mResponses) :
    l.current.toList = [] ∧ l.toHandle = l.mMessageEnvelopes := by
  have hcurrent : l.current = none := by
    unfold current
    split
    · next r hpc => exact absurd hpc (h r)
    · rfl
  simp [toHandle, hcurrent]

/-- A step of the polling thread between two handlers. -/
theorem polling_toHandle {l l' : Looper} {a : Action} (hs : sent a = [])
    (hr : ∀ e, removes a e = false) (hidle : ∀ mResponses, l.pc ≠ .handling mResponses)
    (h : l'.toHandle = l.mMessageEnvelopes) : l'.toHandle = l.carried a ++ l.queueAfter a := by
  obtain ⟨hcurrent, -⟩ := toHandle_of_idle hidle
  rw [h, queueAfter_of_keeps hs hr]
  cases a <;> simp [carried, hcurrent]

theorem handleEvents_sending (l : Looper) (interrupted : Bool) (r : PollResult) :
    (l.handleEvents interrupted r).1.mMessageEnvelopes = l.mMessageEnvelopes ∧
      (l.handleEvents interrupted r).1.mSendingMessage = l.mSendingMessage := by
  cases r with
  | error errno => exact ⟨rfl, rfl⟩
  | timeout => exact ⟨rfl, rfl⟩
  | events wake fds => cases wake <;> exact ⟨rfl, rfl⟩

theorem pollLocked_spec {l : Looper} (h : QueueInv l) {r : PollResult} (hpc : l.pc = .polled r)
    (now : Int) (interrupted : Bool) :
    QueueInv (l.pollLocked now interrupted r) ∧
      (l.pollLocked now interrupted r).toHandle = l.mMessageEnvelopes ∧
      ((l.pollLocked now interrupted r).resting →
        ∀ e ∈ (l.pollLocked now interrupted r).toHandle, now < e.uptime) := by
  obtain ⟨hq, hs⟩ := handleEvents_sending l interrupted r
  rw [h.sending (by simp [hpc])] at hs
  have hsorted := h.sorted
  rw [← hq] at hsorted
  have hspec := dispatchHead_spec (l := { (l.handleEvents interrupted r).1 with
    mNextMessageUptime := LLONG_MAX }) hsorted hs now (l.handleEvents interrupted r).2.1
    (l.handleEvents interrupted r).2.2
  refine ⟨hspec.1, ?_, hspec.2.2⟩
  rw [← hq]
  exact hspec.2.1

theorem handled_spec {l : Looper} (h : QueueInv l) (now : Int) (errno : Nat)
    (mResponses : List Nat) :
    QueueInv ({ l with errno }.handled now mResponses) ∧
      ({ l with errno }.handled now mResponses).toHandle = l.mMessageEnvelopes ∧
      (({ l with errno }.handled now mResponses).resting →
        ∀ e ∈ ({ l with errno }.handled now mResponses).toHandle, now < e.uptime) := by
  have hspec := dispatchHead_spec (l := { l with errno := errno, mSendingMessage := false })
    h.sorted rfl now ALOOPER_POLL_CALLBACK mResponses
  exact hspec

/-- What another thread does to the queue is to send or to remove, or nothing. -/
theorem anywhere_spec {l l' : Looper} {a : Action} (h : QueueInv l) (ha : a.anywhere)
    (hn : l.next a = some l') : QueueInv l' ∧ l'.toHandle = l.carried a ++ l.queueAfter a := by
  cases a with
  | sendMessageAtTime e =>
    cases hn
    exact ⟨sendMessageAtTime_inv h e, rfl⟩
  | wake =>
    simp only [next, Option.ite_none_right_eq_some, Option.some.injEq] at hn
    rw [← hn.2, queueAfter_of_keeps rfl fun _ => rfl]
    exact ⟨wake_inv h, rfl⟩
  | removeMessages handler =>
    cases hn
    refine ⟨filter_inv h _, ?_⟩
    simp [toHandle, current, carried, queueAfter, removeMessages, removes]
  | removeMessagesWhat handler what =>
    cases hn
    refine ⟨filter_inv h _, ?_⟩
    simp [toHandle, current, carried, queueAfter, removeMessagesWhat, removes]
  | addFd fd =>
    cases hn
    rw [queueAfter_of_keeps rfl fun _ => rfl]
    unfold addFd
    split
    · exact ⟨h, rfl⟩
    · exact ⟨⟨h.sorted, h.handling, h.sending, h.woken⟩, rfl⟩
  | removeFd fd =>
    cases hn
    rw [queueAfter_of_keeps rfl fun _ => rfl]
    exact ⟨⟨h.sorted, h.handling, h.sending, h.woken⟩, rfl⟩
  | _ => cases ha

/-- **Queue.** A step keeps the invariant, and what is to be handled after it is what
was and was not handled by it, in the queue that it leaves. -/
theorem next_spec {l l' : Looper} {a : Action} (h : QueueInv l) (hn : l.next a = some l') :
    QueueInv l' ∧ l'.toHandle = l.carried a ++ l.queueAfter a := by
  cases next_taken hn with
  | anywhere ha _ => exact anywhere_spec h ha hn
  | epollWait hpc =>
    have hrest : l.resting := by simp [resting, hpc]
    constructor
    · exact h.of_same rfl rfl rfl rfl rfl (resting_ne_handling hrest) (by simp) fun _ => hrest
    · exact polling_toHandle rfl (fun _ => rfl) (resting_ne_handling hrest) rfl
  | epollReturn hpc _ =>
    have hrest : l.resting := by simp [resting, hpc]
    constructor
    · exact h.of_same rfl rfl rfl rfl rfl (resting_ne_handling hrest) (by simp) fun _ => hrest
    · exact polling_toHandle rfl (fun _ => rfl) (resting_ne_handling hrest) rfl
  | @pollLocked now interrupted _ hpc =>
    obtain ⟨hinv, htoHandle, -⟩ := pollLocked_spec h hpc now interrupted
    refine ⟨hinv, ?_⟩
    exact polling_toHandle rfl (fun _ => rfl) (by simp [hpc]) htoHandle
  | @handleMessage now errno mResponses hpc =>
    obtain ⟨hinv, htoHandle, -⟩ := handled_spec h now errno mResponses
    refine ⟨hinv, ?_⟩
    rw [queueAfter_of_keeps rfl fun _ => rfl]
    exact htoHandle
  | handleEvent hpc =>
    have hrest : l.resting := by simp [resting, hpc]
    constructor
    · unfold calledBack
      split
      all_goals
        exact h.of_same rfl rfl rfl rfl rfl (resting_ne_handling hrest) (by simp) fun _ => hrest
    · apply polling_toHandle rfl (fun _ => rfl) (resting_ne_handling hrest)
      unfold calledBack
      split <;> rfl
  | @pollAgain result hpc =>
    have hrest : l.resting := by simp [resting, hpc]
    have hidle' : ∀ mResponses, (l.pollAgain result).pc ≠ .handling mResponses := by
      intro _
      unfold pollAgain
      split <;> simp
    constructor
    · exact h.of_same rfl rfl rfl rfl rfl (resting_ne_handling hrest) hidle' fun _ => hrest
    · exact polling_toHandle rfl (fun _ => rfl) (resting_ne_handling hrest)
        (toHandle_of_idle hidle').2

/-! ## What follows for what is to be handled -/

section Next
variable {l l' : Looper} {a : Action}

theorem mem_queueAfter {e : MessageEnvelope} (he : e ∈ l.queueAfter a) :
    e ∈ l.mMessageEnvelopes ∨ e ∈ sent a := by
  cases a with
  | sendMessageAtTime e' =>
    rcases mem_insertEnvelope.mp he with rfl | he
    · exact Or.inr (List.mem_singleton.mpr rfl)
    · exact Or.inl he
  | _ => exact Or.inl (List.mem_filter.mp he).1

theorem mem_of_carried {e : MessageEnvelope} (he : e ∈ l.carried a) : e ∈ l.toHandle := by
  cases a with
  | handleMessage now errno => cases he
  | _ => exact List.mem_append_left _ he

/-- Only what is sent comes to be handled. -/
theorem next_mem (h : QueueInv l) (hn : l.next a = some l') {e : MessageEnvelope}
    (he : e ∈ l'.toHandle) : e ∈ l.toHandle ∨ e ∈ sent a := by
  rw [(next_spec h hn).2] at he
  rcases List.mem_append.mp he with he | he
  · exact Or.inl (mem_of_carried he)
  · rcases mem_queueAfter he with he | he
    · exact Or.inl (List.mem_append_right _ he)
    · exact Or.inr he

/-- A message has been handled: the one that was the first. -/
theorem next_handleMessage {now : Int} {errno : Nat} (h : QueueInv l)
    (hn : l.next (.handleMessage now errno) = some l') :
    ∃ e, l.current = some e ∧ l.toHandle = e :: l'.toHandle := by
  have hspec := (next_spec h hn).2
  rw [queueAfter_of_keeps rfl fun _ => rfl] at hspec
  cases next_taken hn with
  | anywhere ha _ => cases ha
  | handleMessage hpc =>
    obtain ⟨e, he⟩ := h.current_isSome hpc
    refine ⟨e, he, ?_⟩
    rw [hspec, toHandle, he]
    rfl

/-- **Order.** If a step takes back nothing that `f` looks at, and sends it with a time
that is not before those in the queue, then what `f` looks at stays in order, with what is
sent at the end. -/
theorem next_filterMap {β : Type} {f : MessageEnvelope → Option β} (h : QueueInv l)
    (hn : l.next a = some l') (hremoves : ∀ e, removes a e → f e = none)
    (hsends : ∀ e ∈ sent a, f e ≠ none →
      ∀ q ∈ l.mMessageEnvelopes, f q ≠ none → q.uptime ≤ e.uptime) :
    l'.toHandle.filterMap f =
      (l.carried a ++ l.mMessageEnvelopes).filterMap f ++ (sent a).filterMap f := by
  have hqueue : (l.queueAfter a).filterMap f =
      l.mMessageEnvelopes.filterMap f ++ (sent a).filterMap f := by
    have hfilter : (l.mMessageEnvelopes.filter fun e => !removes a e).filterMap f =
        l.mMessageEnvelopes.filterMap f := by
      rw [List.filterMap_filter]
      apply List.filterMap_congr
      intro e _
      cases hr : removes a e with
      | false => rfl
      | true => exact (hremoves e hr).symm
    cases a with
    | sendMessageAtTime e =>
      rw [queueAfter, filterMap_insertEnvelope h.sorted
        (hsends e (List.mem_singleton.mpr rfl))]
      cases hf : f e <;> simp [sent, hf]
    | _ => exact hfilter.trans (List.append_nil _).symm
  rw [(next_spec h hn).2, List.filterMap_append, hqueue, List.filterMap_append, List.append_assoc]

/-- **Rounds.** When a test of the queue leads on to the callbacks, nothing that is to be
handled is due. -/
theorem next_round (h : QueueInv l) (hn : l.next a = some l') {now : Int}
    (ha : testsAt a = some now) (hrest : l'.resting) : ∀ e ∈ l'.toHandle, now < e.uptime := by
  cases next_taken hn with
  | anywhere hany _ =>
    cases a with
    | pollLocked | handleMessage => cases hany
    | _ => cases ha
  | pollLocked hpc =>
    cases ha
    exact (pollLocked_spec h hpc _ _).2.2 hrest
  | handleMessage hpc =>
    cases ha
    exact (handled_spec h _ _ _).2.2 hrest
  | _ => cases ha

end Next

end Looper

end Cdroid.Utils
