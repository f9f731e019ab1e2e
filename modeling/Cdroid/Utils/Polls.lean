import Mathlib.Algebra.GroupWithZero.Nat
import Mathlib.Algebra.Order.Group.Int
import Cdroid.Lib.Mailbox
import Cdroid.Lib.Runs
import Cdroid.Utils.Fifo

/-! Polls with any timeout. The looper's queue is a mailbox: what it dispatches is what
the mailbox gives out, whatever is sent or removed meanwhile, by the handlers too. A
handler and a callback do not poll themselves. -/

namespace Cdroid.Utils
open Cdroid.Lib Cdroid.Lib.Mailbox

namespace Looper

/-! ## Calls -/

def sendMessage (l : Looper) (now : Int) (handler message : Nat) (what : BitVec 32) : Looper :=
  l.sendMessageAtTime ⟨now, handler, message, what⟩

/-- What an `nsecs_t` of 64 bits holds of a sum. -/
def nsecsSum (a b : Int) : Int := (a + b).bmod (2 ^ 64)

def sendMessageDelayed (l : Looper) (now uptimeDelay : Int) (handler message : Nat)
    (what : BitVec 32) : Looper :=
  l.sendMessageAtTime ⟨nsecsSum now uptimeDelay, handler, message, what⟩

/-- `pollInner` up to `epoll_wait`. A `pollInner` whose callbacks are done has returned. -/
def pollInner (l : Looper) (timeoutMillis now : Int) : Option Looper :=
  match l.pc with
  | .poll | .returned _ | .callbacks _ [] =>
    some { l with pc := .waiting (l.adjustTimeout timeoutMillis now) }
  | _ => none

/-- What is called on the looper, and the steps that follow. -/
inductive Call
  | sendMessage (now : Int) (handler message : Nat) (what : BitVec 32)
  | sendMessageDelayed (now uptimeDelay : Int) (handler message : Nat) (what : BitVec 32)
  | pollInner (timeoutMillis now : Int)
  | step (a : Action)
  deriving DecidableEq

def call (l : Looper) : Call → Option Looper
  | .sendMessage now handler message what => some (l.sendMessage now handler message what)
  | .sendMessageDelayed now uptimeDelay handler message what =>
    some (l.sendMessageDelayed now uptimeDelay handler message what)
  | .pollInner timeoutMillis now => l.pollInner timeoutMillis now
  | .step a => l.next a

/-- The step that a call is, as far as the queue is concerned. -/
def Call.action : Call → Action
  | .sendMessage now handler message what => .sendMessageAtTime ⟨now, handler, message, what⟩
  | .sendMessageDelayed now uptimeDelay handler message what =>
    .sendMessageAtTime ⟨nsecsSum now uptimeDelay, handler, message, what⟩
  | .pollInner _ now => .epollWait now
  | .step a => a

/-- What a call asks to be sent, with its due time. -/
def Call.asked : Call → List MessageEnvelope
  | .sendMessageDelayed now uptimeDelay handler message what =>
    [⟨now + uptimeDelay, handler, message, what⟩]
  | c => sent c.action

/-- The due time can be held by an `nsecs_t`. -/
def Call.Fits : Call → Prop
  | .sendMessageDelayed now uptimeDelay _ _ _ =>
    -2 ^ 63 ≤ now + uptimeDelay ∧ now + uptimeDelay < 2 ^ 63
  | _ => True

theorem nsecsSum_eq {a b : Int} (hlower : -2 ^ 63 ≤ a + b) (hupper : a + b < 2 ^ 63) :
    nsecsSum a b = a + b :=
  Int.bmod_eq_of_le (by omega) (by omega)

theorem Call.Fits.sent {c : Call} (h : c.Fits) : Looper.sent c.action = c.asked := by
  cases c with
  | sendMessageDelayed now uptimeDelay handler message what =>
    obtain ⟨hlower, hupper⟩ := h
    rw [action, nsecsSum_eq hlower hupper]
    rfl
  | _ => rfl

theorem pollInner_cases {l l' : Looper} {timeoutMillis now : Int}
    (h : l.pollInner timeoutMillis now = some l') :
    l.resting ∧ (∀ mResponses, l.pc ≠ .handling mResponses) ∧
      l' = { l with pc := .waiting (l.adjustTimeout timeoutMillis now) } := by
  unfold pollInner at h
  split at h
  · next hpc =>
    cases h
    have hrest : l.resting := by simp [resting, hpc]
    exact ⟨hrest, resting_ne_handling hrest, rfl⟩
  · next result hpc =>
    cases h
    have hrest : l.resting := by simp [resting, hpc]
    exact ⟨hrest, resting_ne_handling hrest, rfl⟩
  · next result hpc =>
    cases h
    have hrest : l.resting := by simp [resting, hpc]
    exact ⟨hrest, resting_ne_handling hrest, rfl⟩
  · cases h

/-- Every call keeps the queue sorted and known. -/
theorem call_inv {l l' : Looper} {c : Call} (h : QueueInv l) (hc : l.call c = some l') :
    QueueInv l' := by
  cases c with
  | sendMessage now handler message what =>
    cases hc
    exact sendMessageAtTime_inv h _
  | sendMessageDelayed now uptimeDelay handler message what =>
    cases hc
    exact sendMessageAtTime_inv h _
  | pollInner timeoutMillis now =>
    obtain ⟨hrest, hidle, rfl⟩ := pollInner_cases hc
    exact h.of_same rfl rfl rfl rfl rfl hidle (by simp) fun _ => hrest
  | step a => exact (next_spec h hc).1

/-! ## What a call does to the queue -/

/-- The queue and what has been dispatched, after a test of the queue. -/
def afterTest (now : Int) (q : List MessageEnvelope) (d : List (Int × MessageEnvelope)) :
    List MessageEnvelope × List (Int × MessageEnvelope) :=
  match q with
  | [] => (q, d)
  | e :: es => if e.uptime ≤ now then (es, d ++ [(now, e)]) else (q, d)

def effect (q : List MessageEnvelope) (d : List (Int × MessageEnvelope)) :
    Action → List MessageEnvelope × List (Int × MessageEnvelope)
  | .sendMessageAtTime e => (insertEnvelope e q, d)
  | .removeMessages handler => (q.filter fun e => e.handler ≠ handler, d)
  | .removeMessagesWhat handler what =>
    (q.filter fun e => ¬ (e.handler = handler ∧ e.what = what), d)
  | .pollLocked now _ => afterTest now q d
  | .handleMessage now _ => afterTest now q d
  | _ => (q, d)

theorem dispatchHead_effect (l : Looper) (now result : Int) (mResponses : List Nat) :
    ((l.dispatchHead now result mResponses).mMessageEnvelopes,
      (l.dispatchHead now result mResponses).dispatched) =
        afterTest now l.mMessageEnvelopes l.dispatched := by
  unfold dispatchHead afterTest
  cases hq : l.mMessageEnvelopes with
  | nil => simp
  | cons e es =>
    dsimp only
    split
    · rfl
    · simp

theorem handleEvents_dispatched (l : Looper) (interrupted : Bool) (r : PollResult) :
    (l.handleEvents interrupted r).1.dispatched = l.dispatched := by
  cases r with
  | error errno => rfl
  | timeout => rfl
  | events wake fds => cases wake <;> rfl

theorem next_effect {l l' : Looper} {a : Action} (hn : l.next a = some l') :
    (l'.mMessageEnvelopes, l'.dispatched) = effect l.mMessageEnvelopes l.dispatched a := by
  cases next_taken hn with
  | anywhere ha hbeside =>
    rw [hbeside.dispatched]
    cases a with
    | sendMessageAtTime e => cases hn; rfl
    | removeMessages handler => cases hn; rfl
    | removeMessagesWhat handler what => cases hn; rfl
    | wake =>
      simp only [next, Option.ite_none_right_eq_some, Option.some.injEq] at hn
      rw [← hn.2]
      rfl
    | addFd fd =>
      cases hn
      unfold addFd
      split <;> rfl
    | removeFd fd => cases hn; rfl
    | _ => cases ha
  | epollWait hpc => rfl
  | epollReturn hpc _ => rfl
  | @pollLocked now interrupted r hpc =>
    rw [show effect l.mMessageEnvelopes l.dispatched (.pollLocked now interrupted) =
      afterTest now l.mMessageEnvelopes l.dispatched from rfl,
      ← (handleEvents_sending l interrupted r).1, ← handleEvents_dispatched l interrupted r]
    exact dispatchHead_effect { (l.handleEvents interrupted r).1 with
      mNextMessageUptime := LLONG_MAX } now _ _
  | handleMessage hpc => exact dispatchHead_effect _ _ ALOOPER_POLL_CALLBACK _
  | handleEvent hpc =>
    unfold calledBack
    split <;> rfl
  | pollAgain hpc => rfl

theorem call_effect {l l' : Looper} {c : Call} (hc : l.call c = some l') :
    (l'.mMessageEnvelopes, l'.dispatched) = effect l.mMessageEnvelopes l.dispatched c.action := by
  cases c with
  | sendMessage now handler message what => cases hc; rfl
  | sendMessageDelayed now uptimeDelay handler message what => cases hc; rfl
  | pollInner timeoutMillis now =>
    obtain ⟨-, -, rfl⟩ := pollInner_cases hc
    rfl
  | step a => exact next_effect hc

/-! ## The mailbox -/

/-- What a mailbox that is ordered by due time does at a step. -/
def expected (m : Mailbox MessageEnvelope) : Action → Mailbox MessageEnvelope
  | .sendMessageAtTime e => m.send e
  | .removeMessages handler => m.remove (removes (.removeMessages handler))
  | .removeMessagesWhat handler what => m.remove (removes (.removeMessagesWhat handler what))
  | .pollLocked now _ => m.takeDue MessageEnvelope.uptime now
  | .handleMessage now _ => m.takeDue MessageEnvelope.uptime now
  | _ => m

/-- The looper's queue is what is queued, in order, and it has dispatched what was taken,
each when it was due. -/
structure Refines (l : Looper) (m : Mailbox MessageEnvelope) : Prop where
  queue : InOrder MessageEnvelope.uptime m.queued l.mMessageEnvelopes
  taken : l.dispatched.map Prod.snd = m.taken.map Prod.fst
  due : ∀ d ∈ l.dispatched, d.2.uptime ≤ d.1
  accounts : m.Accounts

theorem Refines.init : Refines init Mailbox.empty :=
  ⟨InOrder.nil, rfl, fun _ hd => absurd hd (List.not_mem_nil), Accounts.empty⟩

/-- The envelope goes between those that are not due later and those that are. -/
theorem insertEnvelope_split (e : MessageEnvelope) {es : List MessageEnvelope} (h : Sorted es) :
    ∃ as bs, es = as ++ bs ∧ insertEnvelope e es = as ++ e :: bs ∧
      (∀ q ∈ as, q.uptime ≤ e.uptime) ∧ ∀ q ∈ bs, e.uptime < q.uptime := by
  induction es with
  | nil => exact ⟨[], [], rfl, rfl, by simp, by simp⟩
  | cons e' es ih =>
    obtain ⟨hle, hrest⟩ := List.pairwise_cons.mp h
    unfold insertEnvelope
    split
    · next hlate =>
      obtain ⟨as, bs, rfl, hins, has, hbs⟩ := ih hrest
      refine ⟨e' :: as, bs, rfl, by rw [hins]; rfl, ?_, hbs⟩
      intro q hq
      rcases List.mem_cons.mp hq with rfl | hq
      · exact hlate
      · exact has q hq
    · next hearly =>
      refine ⟨[], e' :: es, rfl, rfl, by simp, ?_⟩
      intro q hq
      have hlt := Int.not_le.mp hearly
      rcases List.mem_cons.mp hq with rfl | hq
      · exact hlt
      · exact Int.lt_of_lt_of_le hlt (hle q hq)

theorem Refines.send {l l' : Looper} {m : Mailbox MessageEnvelope} (h : Refines l m)
    (hs : Sorted l.mMessageEnvelopes) {e : MessageEnvelope}
    (hq : l'.mMessageEnvelopes = insertEnvelope e l.mMessageEnvelopes)
    (hd : l'.dispatched = l.dispatched) : Refines l' (m.send e) := by
  obtain ⟨as, bs, hsplit, hins, has, hbs⟩ := insertEnvelope_split e hs
  refine ⟨?_, ?_, ?_, h.accounts.send e⟩
  · have hqueue := h.queue
    rw [hsplit] at hqueue
    rw [hq, hins]
    exact hqueue.insert (fun _ => h.accounts.lt_length) has hbs
  · rw [hd]
    exact h.taken
  · rw [hd]
    exact h.due

theorem Refines.remove {l l' : Looper} {m : Mailbox MessageEnvelope} (h : Refines l m)
    {p : MessageEnvelope → Bool}
    (hq : l'.mMessageEnvelopes = l.mMessageEnvelopes.filter fun e => !p e)
    (hd : l'.dispatched = l.dispatched) : Refines l' (m.remove p) := by
  refine ⟨?_, ?_, ?_, h.accounts.remove p⟩
  · rw [hq]
    exact h.queue.filter fun e => !p e
  · rw [hd]
    exact h.taken
  · rw [hd]
    exact h.due

theorem Refines.test {l l' : Looper} {m : Mailbox MessageEnvelope} (h : Refines l m) {now : Int}
    (heffect : (l'.mMessageEnvelopes, l'.dispatched) =
      afterTest now l.mMessageEnvelopes l.dispatched) :
    Refines l' (m.takeDue MessageEnvelope.uptime now) := by
  have hqueue := h.queue
  have hsame : (l'.mMessageEnvelopes, l'.dispatched) = (l.mMessageEnvelopes, l.dispatched) →
      Refines l' m := by
    intro heq
    obtain ⟨hq, hd⟩ := Prod.mk.inj heq
    refine ⟨?_, ?_, ?_, h.accounts⟩
    · rw [hq]
      exact h.queue
    · rw [hd]
      exact h.taken
    · rw [hd]
      exact h.due
  cases hl : l.mMessageEnvelopes with
  | nil =>
    rw [hl] at hqueue hsame heffect
    have hfirst : first MessageEnvelope.uptime m.queued = none := first_eq_none.mpr hqueue.eq_nil
    simp only [takeDue, hfirst]
    exact hsame heffect
  | cons e es =>
    rw [hl] at hqueue hsame heffect
    obtain ⟨x, hfirst, rfl, hrest⟩ := hqueue.head h.accounts.inTurn
    simp only [takeDue, hfirst]
    unfold afterTest at heffect
    dsimp only at heffect
    split at heffect
    · next hdue =>
      obtain ⟨hq, hd⟩ := Prod.mk.inj heffect
      rw [if_pos hdue]
      refine ⟨?_, ?_, ?_, h.accounts.take (first_spec h.accounts.inTurn hfirst).1⟩
      · rw [hq]
        exact hrest
      · rw [hd, List.map_append, h.taken, take, List.map_append]
        rfl
      · rw [hd]
        intro d hmem
        rcases List.mem_append.mp hmem with hmem | hmem
        · exact h.due d hmem
        · rw [List.mem_singleton.mp hmem]
          exact hdue
    · next hlate =>
      rw [if_neg hlate]
      exact hsame heffect

/-- **Refinement.** A call does to the looper's queue what it does to the mailbox. -/
theorem Refines.call {l l' : Looper} {m : Mailbox MessageEnvelope} {c : Call} (h : Refines l m)
    (hs : Sorted l.mMessageEnvelopes) (hc : l.call c = some l') :
    Refines l' (expected m c.action) := by
  have heffect := call_effect hc
  generalize c.action = a at heffect ⊢
  have hkept : (l'.mMessageEnvelopes, l'.dispatched) = (l.mMessageEnvelopes, l.dispatched) →
      Refines l' m := by
    intro heq
    obtain ⟨hq, hd⟩ := Prod.mk.inj heq
    refine ⟨?_, ?_, ?_, h.accounts⟩
    · rw [hq]
      exact h.queue
    · rw [hd]
      exact h.taken
    · rw [hd]
      exact h.due
  cases a with
  | sendMessageAtTime e =>
    obtain ⟨hq, hd⟩ := Prod.mk.inj heffect
    exact h.send hs hq hd
  | removeMessages handler =>
    obtain ⟨hq, hd⟩ := Prod.mk.inj heffect
    refine h.remove ?_ hd
    rw [hq]
    simp [removes]
  | removeMessagesWhat handler what =>
    obtain ⟨hq, hd⟩ := Prod.mk.inj heffect
    refine h.remove ?_ hd
    rw [hq]
    simp [removes]
  | pollLocked now interrupted => exact h.test heffect
  | handleMessage now errno => exact h.test heffect
  | _ => exact hkept heffect

end Looper

/-! ## Runs -/

/-- The looper with the mailbox that it is, and the time at which the timeout of the
last `epoll_wait` was worked out. -/
structure Polls where
  looper : Looper
  box : Mailbox MessageEnvelope
  waitedAt : Int

namespace Polls
open Looper

def init : Polls := ⟨.init, .empty, 0⟩

def next (s : Polls) (c : Call) : Option Polls :=
  (s.looper.call c).map fun l =>
    { looper := l
      box := expected s.box c.action
      waitedAt := match c.action with
        | .epollWait now => now
        | _ => s.waitedAt }

/-- The calls `cs`, in this order, lead to `s`. -/
def Reached (cs : List Call) (s : Polls) : Prop := Runs.after next cs init = some s

theorem next_cases {s s' : Polls} {c : Call} (h : s.next c = some s') :
    s.looper.call c = some s'.looper ∧ s'.box = expected s.box c.action := by
  obtain ⟨l, hl, rfl⟩ := Option.map_eq_some_iff.mp h
  exact ⟨hl, rfl⟩

/-- What holds in every state that is reached: the queue is known, is the mailbox's, and
the mailbox has had what was sent. -/
structure Inv (cs : List Call) (s : Polls) : Prop where
  queue : QueueInv s.looper
  refines : Refines s.looper s.box
  sent : s.box.sent = cs.flatMap fun c : Call => Looper.sent c.action

theorem expected_sent (m : Mailbox MessageEnvelope) (a : Action) :
    (expected m a).sent = m.sent ++ Looper.sent a := by
  have htake : ∀ now, (m.takeDue MessageEnvelope.uptime now).sent = m.sent := by
    intro now
    unfold takeDue
    split
    · rfl
    · split <;> rfl
  cases a with
  | sendMessageAtTime e => rfl
  | pollLocked now interrupted => exact (htake now).trans (List.append_nil _).symm
  | handleMessage now errno => exact (htake now).trans (List.append_nil _).symm
  | _ => exact (List.append_nil _).symm

theorem inv_of_reached {cs : List Call} {s : Polls} (h : Reached cs s) : Inv cs s := by
  refine Runs.history_inv (P := fun _ _ => True) ?_ cs ?_ (Runs.along_true cs _) h
  · intro cs s c s' hinv _ hc
    obtain ⟨hcall, hbox⟩ := next_cases hc
    refine ⟨call_inv hinv.queue hcall, ?_, ?_⟩
    · rw [hbox]
      exact hinv.refines.call hinv.queue.sorted hcall
    · rw [hbox, expected_sent, hinv.sent, List.flatMap_append]
      simp
  · exact ⟨QueueInv.init, Refines.init, rfl⟩

/-! ## Order and delivery -/

/-- What one call delivers: at most one message, which is before all that stay. A message
stays in the queue unless it is taken, or a call removes it. A test of the queue that is
the poll's last leaves nothing that is due. -/
structure Delivers (s : Polls) (c : Call) (s' : Polls) : Prop where
  one : s'.box.taken = s.box.taken ∨
    ∃ x ∈ s.box.queued, s'.box.taken = s.box.taken ++ [x] ∧
      ∀ y ∈ s'.box.queued, Before MessageEnvelope.uptime x y
  kept : ∀ x ∈ s.box.queued, x ∈ s'.box.queued ∨ s'.box.taken = s.box.taken ++ [x] ∨
    removes c.action x.1 = true
  last : ∀ now, testsAt c.action = some now → s'.looper.resting →
    ∀ e ∈ s'.looper.mMessageEnvelopes, now < e.uptime

theorem takeDue_delivers {m : Mailbox MessageEnvelope} (h : m.Accounts) (now : Int) :
    ((m.takeDue MessageEnvelope.uptime now).taken = m.taken ∨
      ∃ x ∈ m.queued, (m.takeDue MessageEnvelope.uptime now).taken = m.taken ++ [x] ∧
        ∀ y ∈ (m.takeDue MessageEnvelope.uptime now).queued,
          Before MessageEnvelope.uptime x y) ∧
    ∀ x ∈ m.queued, x ∈ (m.takeDue MessageEnvelope.uptime now).queued ∨
      (m.takeDue MessageEnvelope.uptime now).taken = m.taken ++ [x] := by
  rcases takeDue_cases MessageEnvelope.uptime h now with hsame | ⟨x, hx, htake, hbefore⟩
  · rw [hsame]
    exact ⟨Or.inl rfl, fun x hx => Or.inl hx⟩
  · rw [htake]
    refine ⟨Or.inr ⟨x, hx, rfl, hbefore⟩, ?_⟩
    intro y hy
    rcases List.mem_cons.mp ((perm_cons_others h.inTurn hx).mem_iff.mp hy) with rfl | hy
    · exact Or.inr rfl
    · exact Or.inl hy

theorem call_last {l l' : Looper} {c : Call} (h : QueueInv l) (hc : l.call c = some l')
    (now : Int) (ht : testsAt c.action = some now) (hrest : l'.resting) :
    ∀ e ∈ l'.mMessageEnvelopes, now < e.uptime := by
  cases c with
  | step a =>
    intro e he
    exact next_round h hc ht hrest e (List.mem_append_right _ he)
  | _ => cases ht

theorem delivers {cs : List Call} {s s' : Polls} {c : Call} (h : Inv cs s)
    (hc : s.next c = some s') : Delivers s c s' := by
  obtain ⟨hcall, hbox⟩ := next_cases hc
  have hlast := fun now => call_last h.queue hcall now
  have htest := takeDue_delivers h.refines.accounts
  have hremove : ∀ p : MessageEnvelope → Bool, ∀ x ∈ s.box.queued,
      x ∈ (s.box.remove p).queued ∨ p x.1 = true := by
    intro p x hx
    cases hp : p x.1 with
    | true => exact Or.inr rfl
    | false => exact Or.inl (List.mem_filter.mpr ⟨hx, by simp [hp]⟩)
  refine ⟨?_, ?_, hlast⟩
  · rw [hbox]
    cases c.action with
    | pollLocked now interrupted => exact (htest now).1
    | handleMessage now errno => exact (htest now).1
    | _ => exact Or.inl rfl
  · rw [hbox]
    intro x hx
    cases c.action with
    | sendMessageAtTime e => exact Or.inl (List.mem_append_left _ hx)
    | removeMessages handler =>
      rcases hremove (removes (.removeMessages handler)) x hx with hin | hp
      · exact Or.inl hin
      · exact Or.inr (Or.inr hp)
    | removeMessagesWhat handler what =>
      rcases hremove (removes (.removeMessagesWhat handler what)) x hx with hin | hp
      · exact Or.inl hin
      · exact Or.inr (Or.inr hp)
    | pollLocked now interrupted =>
      rcases (htest now).2 x hx with hin | hout
      · exact Or.inl hin
      · exact Or.inr (Or.inl hout)
    | handleMessage now errno =>
      rcases (htest now).2 x hx with hin | hout
      · exact Or.inl hin
      · exact Or.inr (Or.inl hout)
    | _ => exact Or.inl hx

/-- What is to hold after the calls `cs`. The queue is what was asked to be sent and is neither
dispatched nor removed, by due time and equal times in the order sent; what was sent is in one
of the three, once; nothing has been dispatched before it was due; and every next call delivers
in this order and skips nothing. -/
structure DeliveredInOrder (cs : List Call) (s : Polls) : Prop where
  sent : s.box.sent = cs.flatMap Call.asked
  once : (s.box.taken ++ s.box.removed ++ s.box.queued).Perm s.box.sent.zipIdx
  sorted : InOrder MessageEnvelope.uptime s.box.queued s.looper.mMessageEnvelopes
  dispatched : s.looper.dispatched.map Prod.snd = s.box.taken.map Prod.fst
  due : ∀ d ∈ s.looper.dispatched, d.2.uptime ≤ d.1
  delivers : ∀ c s', s.next c = some s' → Delivers s c s'

/-- **Order and delivery.** Where every due time can be held, all states that are reached are
in order. -/
theorem messages_in_order (cs : List Call) (s : Polls) (h : Reached cs s)
    (hfits : ∀ c ∈ cs, c.Fits) : DeliveredInOrder cs s := by
  have hinv := inv_of_reached h
  refine ⟨?_, hinv.refines.accounts.perm, hinv.refines.queue, hinv.refines.taken,
    hinv.refines.due, fun c s' hc => delivers hinv hc⟩
  rw [hinv.sent]
  exact List.flatMap_congr fun c hc => (hfits c hc).sent

/-- Two messages that are due at once; the handler of the first sends one that is due
before the second. -/
def overtaking : List Call :=
  [.sendMessage 5 1 10 0, .sendMessage 5 1 11 0, .step .wake, .pollInner (-1) 5,
    .step (.epollReturn (.events true [])), .step (.pollLocked 5 false),
    .step (.sendMessageAtTime ⟨4, 1, 12, 0⟩), .step (.handleMessage 6 0),
    .step (.handleMessage 6 0)]

def overtaken : Polls := (Runs.after next overtaking init).getD init

theorem overtaken_in_order :
    Reached overtaking overtaken ∧
    (overtaken.looper.dispatched.map fun d => d.2.message) = [10, 12, 11] ∧
    DeliveredInOrder overtaking overtaken :=
  ⟨rfl, rfl, messages_in_order overtaking overtaken rfl (by simp [overtaking, Call.Fits])⟩

/-- A message that is to be delayed as long as can be asked for. Its due time comes out negative,
and the next poll dispatches it. -/
def delayedLongest : List Call :=
  [.sendMessageDelayed 1 LLONG_MAX 1 10 0, .step .wake, .pollInner (-1) 2,
    .step (.epollReturn (.events true [])), .step (.pollLocked 3 false)]

example : ((Runs.after next delayedLongest init).map fun s => s.looper.dispatched) =
    some [(3, ⟨-2 ^ 63, 1, 10, 0⟩)] := rfl

theorem delayedLongest_not_in_order : ¬ ∀ cs s, Reached cs s → DeliveredInOrder cs s := by
  intro hall
  have hsent := (hall delayedLongest _ rfl).sent
  exact absurd hsent (by decide)

end Polls

end Cdroid.Utils
