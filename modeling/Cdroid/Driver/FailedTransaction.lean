import Cdroid.Driver.Undo
import Cdroid.Driver.Allocator
import Cdroid.Driver.ReadCodes

/-! When a transaction that fails after its buffer was allocated leaves nothing behind, and who
is told of it. -/

namespace Cdroid.Driver.References
open Cdroid.Lib Cdroid.Lib.SearchTree State
open Cdroid.Driver.ThreadRead (Errors BR_OK BR_DEAD_REPLY BR_FAILED_REPLY
  BR_TRANSACTION_COMPLETE count_pending count_raise raise_cases)

variable {rb : Balance Nat} {k : Kernel} {c : Call} {proc thread : Nat}
  {tr : binder_transaction_data} {in_reply_to : Option InReplyTo} {unset : BitVec 32}
  {s₀ s s' t : State} {threads threads' : Threads}

/-! ## What was there -/

/-- The internal count and the local ones. -/
def binder_node.refCounts (n : binder_node) : Int × Int × Int :=
  (n.internal_strong_refs, n.local_strong_refs, n.local_weak_refs)

/-- Every reference and node has the counts that it had. One that had none may be freed. -/
structure Restored (s s' : State) : Prop where
  refs : ∀ k r, s.refs.get k = some r →
    s'.refs.get k = some r ∨ (s'.refs.get k = none ∧ r.strong = 0 ∧ r.weak = 0)
  nodes : ∀ a n, s.nodes.get a = some n →
    (∃ n', s'.nodes.get a = some n' ∧ n'.refCounts = n.refCounts) ∨
      (s'.nodes.get a = none ∧ n.refCounts = (0, 0, 0))

theorem Owes.restored {T : Nat} (h : Owes T s [] s') (hpeak : Within s t) (hst : Within s' t) :
    Restored s s' := by
  have hheld : ∀ p a st, s'.held p a st = s.held p a st := by
    intro p a st
    by_cases hp : p = T
    · subst hp
      have hlower := h.lower a st
      have hupper := h.upper a st
      simp only [heldOf, List.countP_nil] at hupper
      omega
    · exact h.others p a st hp
  have hlocals : ∀ a st, s'.locals a st = s.locals a st := by
    intro a st
    have hl := h.locals a st
    simpa [localsOf] using hl
  have hinternals : ∀ a, s'.internals a = s.internals a := by
    intro a
    have hi := h.internals a
    rw [hheld] at hi
    omega
  refine ⟨fun k r hr => ?_, fun a n hn => ?_⟩
  · obtain ⟨p, a⟩ := k
    have hcount : ∀ st, s'.held p a st = r.count st := fun st =>
      (hheld p a st).trans (held_eq hr st)
    cases hr' : s'.refs.get (p, a) with
    | none =>
      refine Or.inr ⟨rfl, ?_, ?_⟩
      · have hzero := hcount true
        unfold held at hzero
        rw [hr'] at hzero
        exact hzero.symm
      · have hzero := hcount false
        unfold held at hzero
        rw [hr'] at hzero
        exact hzero.symm
    | some r' =>
      obtain ⟨q, hq, hdesc⟩ := hpeak.refs (p, a) r hr
      obtain ⟨q', hq', hdesc'⟩ := hst.refs (p, a) r' hr'
      have hkey : r.key = (p, a) := Table.key_of_get hr
      have hkey' : r'.key = (p, a) := Table.key_of_get hr'
      have hsame : r'.desc = r.desc := by
        rw [← hdesc, ← hdesc', Option.some.inj (hq'.symm.trans hq)]
      have hstrong : r'.strong = r.strong := (held_eq hr' true).symm.trans (hcount true)
      have hweak : r'.weak = r.weak := (held_eq hr' false).symm.trans (hcount false)
      refine Or.inl (congrArg some ?_)
      cases r
      cases r'
      simp_all [binder_ref.key]
  · have hl := hlocals a
    have hi := hinternals a
    unfold State.locals at hl
    unfold State.internals at hi
    rw [hn] at hl hi
    cases hn' : s'.nodes.get a with
    | none =>
      rw [hn'] at hl hi
      exact Or.inr ⟨rfl, Prod.ext hi.symm (Prod.ext (hl true).symm (hl false).symm)⟩
    | some n' =>
      rw [hn'] at hl hi
      exact Or.inl ⟨n', rfl, Prod.ext hi (Prod.ext (hl true) (hl false))⟩

/-! ## The property -/

/-- Nothing is left of a transaction that has failed with the buffer. -/
structure Undone (proc : Nat) (tr : binder_transaction_data) (in_reply_to : Option InReplyTo)
    (s : State) (buffer : Nat) (s' : State) : Prop where
  counts : Restored s s'
  descriptors : ∃ fds, s'.installed = s.installed ++ fds ∧ s'.closed = s.closed ++ fds
  buffers : ∀ p x, (s'.procs p).Live x ↔ (s.procs p).Live x
  freed : ∀ node p, s.target proc tr in_reply_to = .ok (node, p) → ¬(s'.procs p).Live buffer

/-- The thread is told one of the two errors, behind what it had to be told before. -/
def ToldError (threads threads' : Threads) (x : Nat × Nat) : Prop :=
  ∃ code, (code = BR_FAILED_REPLY ∨ code = BR_DEAD_REPLY) ∧
    (threads' x).pending = (threads x).pending ++ [code]

/-- What is asked of a transaction that fails: the sender is told an error, and nothing is left. -/
structure Atomic (proc thread : Nat) (tr : binder_transaction_data)
    (in_reply_to : Option InReplyTo) (s : State) (threads : Threads) (buffer : Nat) (s' : State)
    (threads' : Threads) : Prop where
  undone : Undone proc tr in_reply_to s buffer s'
  error : ToldError threads threads' (proc, thread)

/-- What becomes of a reply that fails: the replier is told that it is done, and the thread that
waits is told an error, if there is room for one more. -/
structure ReplyFails (proc thread : Nat) (tr : binder_transaction_data) (t : InReplyTo)
    (s : State) (threads : Threads) (buffer : Nat) (s' : State) (threads' : Threads) :
    Prop where
  undone : Undone proc tr (some t) s buffer s'
  replier : BR_TRANSACTION_COMPLETE ∈ (threads' (proc, thread)).pending
  waiting : (t.proc, t.thread) ≠ (proc, thread) → (threads (t.proc, t.thread)).accepts →
    ToldError threads threads' (t.proc, t.thread)

/-- No object that is translated writes over the type or the handle of one before it. -/
def spared (rb : Balance Nat) (k : Kernel) (proc thread : Nat) (tr : binder_transaction_data)
    (in_reply_to : Option InReplyTo) (s : State) : Bool :=
  match reserve rb k proc thread tr in_reply_to s with
  | .ok (.ok (c, _), s) => tr.spares k c s
  | _ => true

/-- What is true of the driver between two calls: the counts agree, and the buffers of every
process are in order. -/
structure State.Sound (s : State) : Prop where
  counted : Counted s
  procs : ∀ p, (s.procs p).Sound

/-- The target node is held, and nothing is translated yet. -/
theorem holdTarget_filled {data_size : Nat} {data : Data}
    (hnode : ∀ a, c.target_node = some a → (s.nodes.get a).isSome) :
    Filled k c data_size s [] data (s.holdTarget c.target_node) := by
  unfold holdTarget
  cases hc : c.target_node with
  | none =>
    refine ⟨Within.refl s, [], ?_, .nil⟩
    rw [hc]
    exact Owes.init c.target_proc s
  | some a =>
    refine ⟨within_setNode.1, [], ?_, .nil⟩
    rw [hc]
    exact (Owes.init c.target_proc s).count (hnode a hc) rfl rfl rfl none

theorem target_present {node : Option Nat} {p a : Nat}
    (h : s.target proc tr in_reply_to = .ok (node, p)) (ha : node = some a) :
    (s.nodes.get a).isSome := by
  unfold target at h
  split at h
  · cases h
    cases ha
  · split at h
    · cases h
    · next n _ =>
      split at h
      · cases h
      · next q hq =>
        cases h
        cases ha
        obtain ⟨x, hx, -⟩ := Option.bind_eq_some_iff.mp hq
        rw [hx]
        rfl

theorem ok_of_bind {ε α β : Type} {x : Except ε α} {f : α → Except ε β} {r : β}
    (h : (x >>= f) = .ok r) : ∃ a, x = .ok a ∧ f a = .ok r := by
  cases x with
  | error e => cases h
  | ok a => exact ⟨a, rfl, h⟩

/-- What is done before the objects are translated. -/
theorem reserve_cases {buffer : Nat}
    (h : reserve rb k proc thread tr in_reply_to s = .ok (.ok (c, buffer), s')) :
    ∃ node T p, s.target proc tr in_reply_to = .ok (node, T) ∧
      (∃ is_async, (s.procs T).allocBuf rb (tr.data_size.setWidth 64)
        (tr.offsets_size.setWidth 64) is_async k.env = .ok (some buffer, p)) ∧
      c = ⟨proc, thread, T, node, in_reply_to⟩ ∧
      s' = (s.alloc.alloc.setProc T p).holdTarget node := by
  unfold reserve at h
  cases htarget : s.target proc tr in_reply_to with
  | error e =>
    rw [htarget] at h
    cases h
  | ok r =>
    obtain ⟨node, T⟩ := r
    rw [htarget] at h
    dsimp only at h
    split at h
    · cases h
    · split at h
      · cases h
      · obtain ⟨⟨found, p⟩, halloc, h⟩ := ok_of_bind h
        cases found with
        | none => cases h
        | some b =>
          cases h
          exact ⟨node, T, p, rfl, ⟨_, halloc⟩, rfl, rfl⟩

/-- How a transaction comes to fail with a buffer. -/
theorem failed_cases {exit : Exit} {buffer failed_at : Nat}
    (h : binderTransaction rb k proc thread tr in_reply_to unset s threads =
      .ok (.failed exit (some buffer) failed_at, s', threads')) :
    ∃ c t u p' prog, reserve rb k proc thread tr in_reply_to s = .ok (.ok (c, buffer), t) ∧
      fill k c tr t = .ok prog ∧ prog.exit = some exit ∧ prog.offp = failed_at ∧
      u = prog.state.bufferRelease k c.target_proc c.target_node tr.data_size.toNat prog.data
        true (tr.allOffs.take failed_at) ∧
      (u.procs c.target_proc).freeBuf rb buffer = .ok p' ∧ s' = u.setProc c.target_proc p' ∧
      sendFailed proc thread in_reply_to (exit.return_error unset) threads = .ok threads' := by
  unfold binderTransaction at h
  obtain ⟨⟨e | ⟨c, b⟩, t⟩, hreserve, h⟩ := ok_of_bind h
  · obtain ⟨u, -, h⟩ := ok_of_bind h
    cases h
  · obtain ⟨prog, hfill, h⟩ := ok_of_bind h
    obtain ⟨⟨result, u⟩, hfinish, h⟩ := ok_of_bind h
    unfold finish at hfinish
    split at hfinish
    · cases hfinish
      cases h
    · next e hexit =>
      obtain ⟨p', hfree, hfinish⟩ := ok_of_bind hfinish
      cases hfinish
      obtain ⟨v, hsend, h⟩ := ok_of_bind h
      cases h
      exact ⟨c, t, _, p', prog, hreserve, hfill, hexit, rfl, rfl, hfree, rfl, hsend⟩

/-- The buffer is free again, and the others are what they were. -/
theorem released_live {T buffer : Nat} {p p' : binder_proc} {data_size offsets_size : BitVec 64}
    {is_async : Bool} {env : Env} (hs : ∀ q, (s.procs q).Sound)
    (halloc : (s.procs T).allocBuf rb data_size offsets_size is_async env = .ok (some buffer, p))
    (hprocs : t.procs = (s.setProc T p).procs) (hfree : (t.procs T).freeBuf rb buffer = .ok p') :
    (∀ q x, ((t.setProc T p').procs q).Live x ↔ (s.procs q).Live x) ∧ ¬p'.Live buffer := by
  have hT : t.procs T = p := by
    rw [hprocs]
    exact if_pos rfl
  rw [hT] at hfree
  rcases (hs T).allocBuf rb data_size offsets_size is_async env with
    hnone | ⟨b, size, q, hsome, -, htaken, -⟩
  · cases halloc.symm.trans hnone
  · cases halloc.symm.trans hsome
    have hlive : p.Live buffer := (htaken.live buffer).mpr (Or.inr rfl)
    obtain ⟨q, hq, hfreed, -⟩ := htaken.sound.freeBuf hlive rb
    cases hfree.symm.trans hq
    have hnew : ¬(s.procs T).Live buffer := fun hold => by
      have hfree := htaken.was_free.2
      rw [hold.2] at hfree
      cases hfree
    refine ⟨fun r x => ?_, fun hx => ((hfreed.live buffer).mp hx).2 rfl⟩
    by_cases hr : r = T
    · subst hr
      have hset : (t.setProc r p').procs r = p' := if_pos rfl
      rw [hset, hfreed.live, htaken.live]
      constructor
      · rintro ⟨hold | hx, hne⟩
        · exact hold
        · exact absurd hx hne
      · intro hold
        refine ⟨Or.inl hold, ?_⟩
        rintro rfl
        exact hnew hold
    · have hset : (t.setProc T p').procs r = s.procs r := by
        unfold setProc
        dsimp only
        rw [if_neg hr, hprocs]
        exact if_neg hr
      rw [hset]

/-- Where no object writes over the type or the handle of one before it, nothing is left. -/
theorem failed_undone {exit : Exit} {buffer failed_at : Nat} (hs : s.Sound)
    (h : binderTransaction rb k proc thread tr in_reply_to unset s threads =
      .ok (.failed exit (some buffer) failed_at, s', threads'))
    (hspares : spared rb k proc thread tr in_reply_to s = true) :
    Undone proc tr in_reply_to s buffer s' := by
  obtain ⟨c, t, _, p', prog, hreserve, hfill, hexit, rfl, rfl, hfree, rfl, -⟩ := failed_cases h
  unfold spared at hspares
  rw [hreserve] at hspares
  obtain ⟨node, T, p, htarget, ⟨is_async, halloc⟩, rfl, rfl⟩ := reserve_cases hreserve
  have hfilled := fill_filled hfill hspares fun data =>
    holdTarget_filled (c := ⟨proc, thread, T, node, in_reply_to⟩) fun a ha =>
      target_present htarget ha
  obtain ⟨marks, howes, hshows⟩ := hfilled.marks
  obtain ⟨hdone, hwithin⟩ := bufferRelease_owes (s.alloc.alloc.setProc T p) node
    ⟨hs.counted.1, hs.counted.2⟩ hshows howes
  obtain ⟨hlive, hfreed⟩ := released_live hs.procs halloc hdone.procs hfree
  obtain ⟨hrefs, hnodes⟩ := hdone.restored hfilled.within hwithin
  obtain ⟨done, hinstalled, hclosed⟩ := hdone.fds
  refine ⟨⟨hrefs, hnodes⟩, ⟨done, ?_, hclosed⟩, hlive, fun node' q htarget' => ?_⟩
  · rw [fdsOf_nil, List.append_nil] at hinstalled
    exact hinstalled
  · cases htarget.symm.trans htarget'
    have hset : ∀ u : State, (u.setProc T p').procs T = p' := fun u => if_pos rfl
    rw [hset]
    exact hfreed

/-! ## Who is told -/

theorem pending_raise {e : Errors} {code : BitVec 32} (haccepts : e.accepts = true)
    (hcode : code ≠ BR_OK) : (e.raise code).pending = e.pending ++ [code] := by
  rcases raise_cases e code with ⟨-, hone, heq⟩ | ⟨-, hone, htwo, heq⟩ | ⟨hfull, -⟩
  · rw [heq]
    by_cases htwo : e.return_error2 = BR_OK
    · simp [Errors.pending, hone, htwo, hcode]
    · simp [Errors.pending, hone, htwo, hcode]
  · rw [heq]
    simp [Errors.pending, hone, htwo, hcode]
  · rw [haccepts] at hfull
    cases hfull

/-- Nothing that is pending is lost. -/
theorem count_le_raise (e : Errors) (code : BitVec 32) {x : BitVec 32} (hx : x ≠ BR_OK) :
    e.pending.count x ≤ (e.raise code).pending.count x := by
  by_cases hcode : code = BR_OK
  · subst hcode
    rw [count_pending _ hx, count_pending _ hx]
    rcases raise_cases e BR_OK with ⟨-, hone, heq⟩ | ⟨-, hone, htwo, heq⟩ | ⟨-, -, heq⟩
    · rw [heq, hone]
    · rw [heq]
      simp [htwo, Ne.symm hx]
    · rw [heq]
  · rw [count_raise e hcode]
    exact Nat.le_add_right _ _

theorem sendFailed_cases {e : BitVec 32}
    (h : sendFailed proc thread in_reply_to e threads = .ok threads') :
    (threads (proc, thread)).return_error = BR_OK ∧
      (in_reply_to = none ∧ threads' = threads.raise (proc, thread) e ∨
        ∃ t, in_reply_to = some t ∧ threads' = (threads.raise (proc, thread)
          BR_TRANSACTION_COMPLETE).raise (t.proc, t.thread) e) := by
  unfold sendFailed at h
  split at h
  · cases h
  · next herror =>
    refine ⟨not_not.mp herror, ?_⟩
    cases in_reply_to with
    | none =>
      cases h
      exact Or.inl ⟨rfl, rfl⟩
    | some t =>
      dsimp only at h
      split at h
      · cases h
      · cases h
        exact Or.inr ⟨t, rfl, rfl⟩

/-- The sender of what is no reply is told the error, and that only. -/
theorem toldError_sender {e : BitVec 32} (herror : (threads (proc, thread)).return_error = BR_OK) :
    ToldError threads (threads.raise (proc, thread) e) (proc, thread) ↔
      e = BR_FAILED_REPLY ∨ e = BR_DEAD_REPLY := by
  have haccepts : (threads (proc, thread)).accepts = true := by
    unfold Errors.accepts
    rw [herror]
    rfl
  have hsame : threads.raise (proc, thread) e (proc, thread) =
      (threads (proc, thread)).raise e := if_pos rfl
  unfold ToldError
  rw [hsame]
  constructor
  · rintro ⟨code, hcode, hpending⟩
    by_cases he : e = BR_OK
    · rcases raise_cases (threads (proc, thread)) e with
        ⟨-, hone, heq⟩ | ⟨-, hone, -⟩ | ⟨-, hone, -⟩
      · have hnothing : (threads (proc, thread)).raise e = threads (proc, thread) := by
          rw [heq, he, ← herror]
        rw [hnothing] at hpending
        simp at hpending
      · exact absurd herror hone
      · exact absurd herror hone
    · rw [pending_raise haccepts he] at hpending
      have hsame := List.append_cancel_left hpending
      cases hsame
      exact hcode
  · intro he
    refine ⟨e, he, pending_raise haccepts ?_⟩
    rintro rfl
    rcases he with he | he
    · exact absurd he (by decide)
    · exact absurd he (by decide)

/-- The one who replies is told that it is done. -/
theorem count_complete {e : BitVec 32} (x : Nat × Nat)
    (herror : (threads (proc, thread)).return_error = BR_OK) :
    (threads (proc, thread)).pending.count BR_TRANSACTION_COMPLETE <
      (((threads.raise (proc, thread) BR_TRANSACTION_COMPLETE).raise x e)
        (proc, thread)).pending.count BR_TRANSACTION_COMPLETE := by
  have hcomplete : BR_TRANSACTION_COMPLETE ≠ BR_OK := by decide
  have haccepts : (threads (proc, thread)).accepts = true := by
    unfold Errors.accepts
    rw [herror]
    rfl
  have hsame : threads.raise (proc, thread) BR_TRANSACTION_COMPLETE (proc, thread) =
      (threads (proc, thread)).raise BR_TRANSACTION_COMPLETE := if_pos rfl
  have hfirst : ((threads (proc, thread)).raise BR_TRANSACTION_COMPLETE).pending.count
      BR_TRANSACTION_COMPLETE =
        (threads (proc, thread)).pending.count BR_TRANSACTION_COMPLETE + 1 := by
    rw [count_raise _ hcomplete, if_pos ⟨haccepts, rfl⟩]
  rw [Threads.raise]
  split
  · have hle := count_le_raise ((threads (proc, thread)).raise BR_TRANSACTION_COMPLETE) e hcomplete
    rw [hsame]
    omega
  · rw [hsame]
    omega

theorem error_of_exit {exit : Exit} (hexit : exit ≠ .cookie_mismatch) :
    exit.return_error unset = BR_FAILED_REPLY ∨ exit.return_error unset = BR_DEAD_REPLY := by
  cases exit with
  | cookie_mismatch => exact absurd rfl hexit
  | no_context_mgr_node | dead_binder => exact Or.inr rfl
  | _ => exact Or.inl rfl

/-- **A failed transaction.** Where no object writes over the type or the handle of one before
it, nothing is left, and the sender is told an error exactly if it did not reply and `return_error`
had been set to one. The last part is about those who reply. -/
theorem failed_atomic_iff {exit : Exit} {buffer failed_at : Nat} (hs : s.Sound)
    (h : binderTransaction rb k proc thread tr in_reply_to unset s threads =
      .ok (.failed exit (some buffer) failed_at, s', threads'))
    (hspares : spared rb k proc thread tr in_reply_to s = true) :
    (Atomic proc thread tr in_reply_to s threads buffer s' threads' ↔ in_reply_to = none ∧
      (exit = .cookie_mismatch → unset = BR_FAILED_REPLY ∨ unset = BR_DEAD_REPLY)) ∧
    ∀ t, in_reply_to = some t → exit ≠ .cookie_mismatch →
      ReplyFails proc thread tr t s threads buffer s' threads' := by
  have hundone := failed_undone hs h hspares
  obtain ⟨-, -, -, -, -, -, -, -, -, -, -, -, hsend⟩ := failed_cases h
  obtain ⟨herror, ⟨rfl, rfl⟩ | ⟨t, rfl, rfl⟩⟩ := sendFailed_cases hsend
  · refine ⟨?_, fun t ht => nomatch ht⟩
    constructor
    · intro hatomic
      refine ⟨rfl, ?_⟩
      rintro rfl
      exact (toldError_sender herror).mp hatomic.error
    · rintro ⟨-, hcookie⟩
      refine ⟨hundone, (toldError_sender herror).mpr ?_⟩
      by_cases hexit : exit = .cookie_mismatch
      · subst hexit
        exact hcookie rfl
      · exact error_of_exit hexit
  · have hcount := count_complete (e := exit.return_error unset) (t.proc, t.thread) herror
    refine ⟨iff_of_false ?_ (fun hnone => nomatch hnone.1), ?_⟩
    · rintro ⟨-, code, hcode, hpending⟩
      rw [hpending, List.count_append] at hcount
      have hother : ([code] : List (BitVec 32)).count BR_TRANSACTION_COMPLETE = 0 := by
        rcases hcode with rfl | rfl <;> decide
      omega
    · rintro _ ⟨⟩ hexit
      refine ⟨hundone, List.count_pos_iff.mp (by omega), fun hother haccepts => ?_⟩
      have hwaits : ((threads.raise (proc, thread) BR_TRANSACTION_COMPLETE).raise
          (t.proc, t.thread) (exit.return_error unset)) (t.proc, t.thread) =
            (threads (t.proc, t.thread)).raise (exit.return_error unset) := by
        simp [Threads.raise, hother]
      have hcode : exit.return_error unset = BR_FAILED_REPLY ∨
          exit.return_error unset = BR_DEAD_REPLY := error_of_exit hexit
      refine ⟨_, hcode, ?_⟩
      rw [hwaits]
      refine pending_raise haccepts ?_
      intro hok
      rw [hok] at hcode
      exact absurd hcode (by decide)

/-! ## A transaction that is not undone -/

/-- A node of process 2 that takes descriptors. -/
def taker : binder_node := {
  addr := 1
  proc := some 2
  ptr := 0
  cookie := 0
  internal_strong_refs := 0
  local_weak_refs := 0
  local_strong_refs := 0
  has_strong_ref := true
  has_weak_ref := true
  accept_fds := true
  min_priority := 0
  work := none }

/-- It is the context manager, and process 1 has the descriptors 3 and 5. -/
def before : State where
  nodes := Table.empty.insert taker
  refs := Table.empty
  linked _ _ h := absurd h Bool.false_ne_true
  context_mgr_node := some 1
  procs _ := binderMmap .plain twoPages
  files p := if p = 1 then [3, 5] else []
  installed := []
  closed := []
  kzalloc := []

/-- Process 2 has 5, 6 and 7 left. -/
def fewFds : Kernel where
  has_files _ := true
  alloc_fd _ files := [5, 6, 7].find? fun fd => !files.contains fd
  env := ⟨true, true, []⟩

/-- Descriptor 3 is sent, by the objects at these offsets: there is one at 0, whose last word is
the first one of another. -/
def sendsFd (offsets : List (BitVec 32)) : binder_transaction_data where
  handle := 0
  flags := 0
  data_size := 28
  offsets_size := .ofNat 32 (4 * offsets.length)
  data := some fun x =>
    if x = 0 ∨ x = 12 then ObjectType.fd.code else if x = 8 ∨ x = 20 then 3 else 0
  offsets := some fun i => offsets.getD i 0

/-- No thread has anything to be told. -/
def quiet : Threads := fun _ => ⟨BR_OK, BR_OK⟩

theorem before_sound : before.Sound := by
  refine ⟨⟨fun a st => ?_, fun a _ => ?_⟩, fun _ => binderMmap_sound .plain twoPages⟩
  · unfold State.locals
    by_cases ha : a = 1
    · subst ha
      cases st <;> decide
    · rw [show before.nodes.get a = none from
        (Table.get_insert (by decide)).trans (if_neg (Ne.symm ha))]
      rfl
  · unfold State.internals
    by_cases ha : a = 1
    · subst ha
      decide
    · rw [show before.nodes.get a = none from
        (Table.get_insert (by decide)).trans (if_neg (Ne.symm ha))]
      rfl

/-- What a transaction came to that failed with a buffer. -/
def failure : Except Bug (Result × State × Threads) → Option (Exit × Nat × Nat × State × Threads)
  | .ok (.failed exit (some buffer) failed_at, s, threads) =>
    some (exit, buffer, failed_at, s, threads)
  | _ => none

theorem eq_of_failure {x : Except Bug (Result × State × Threads)} {exit : Exit}
    {buffer failed_at : Nat} (h : failure x = some (exit, buffer, failed_at, s, threads)) :
    x = .ok (.failed exit (some buffer) failed_at, s, threads) := by
  unfold failure at h
  split at h
  · cases h
    rfl
  · cases h

/-- What is told of a failure: the exit, how many objects were translated, and the descriptors. -/
def told (x : Exit × Nat × Nat × State × Threads) :
    Exit × Nat × List (Nat × BitVec 32) × List (Nat × BitVec 32) :=
  (x.1, x.2.2.1, x.2.2.2.1.installed, x.2.2.2.1.closed)

/-- The object at 0 is sent twice, before the offset 1: descriptor 6 is closed twice, and 5 stays
open. -/
theorem sentTwice_told :
    (failure (binderTransaction .plain fewFds 1 1 (sendsFd [0, 0, 1]) none 0 before quiet)).map
      told = some (.bad_offset, 2, [(2, 5), (2, 6)], [(2, 6), (2, 6)]) := by
  decide +kernel

theorem failed_not_atomic : ¬∀ (rb : Balance Nat) (k : Kernel) (proc thread : Nat)
    (tr : binder_transaction_data) (in_reply_to : Option InReplyTo) (unset : BitVec 32)
    (s : State) (threads : Threads) (exit : Exit) (buffer failed_at : Nat) (s' : State)
    (threads' : Threads), s.Sound →
    binderTransaction rb k proc thread tr in_reply_to unset s threads =
      .ok (.failed exit (some buffer) failed_at, s', threads') →
    Atomic proc thread tr in_reply_to s threads buffer s' threads' := by
  intro hall
  obtain ⟨⟨exit, buffer, failed_at, s', threads'⟩, hfailure, htold⟩ :=
    Option.map_eq_some_iff.mp sentTwice_told
  have hatomic := hall _ _ _ _ _ _ _ _ _ _ _ _ _ _ before_sound (eq_of_failure hfailure)
  obtain ⟨fds, hin, hout⟩ := hatomic.undone.descriptors
  have hinstalled : s'.installed = [(2, 5), (2, 6)] := congrArg (fun x => x.2.2.1) htold
  have hclosed : s'.closed = [(2, 6), (2, 6)] := congrArg (fun x => x.2.2.2) htold
  have hsame : [(2, 5), (2, 6)] = [(2, (6 : BitVec 32)), (2, 6)] :=
    (hinstalled.symm.trans hin).trans (hout.symm.trans hclosed)
  exact absurd hsame (by decide)

/-- The object at 12 is sent, and the one at 0 behind it. -/
theorem sentBoth_told :
    (failure (binderTransaction .plain fewFds 1 1 (sendsFd [12, 0, 1]) none 0 before quiet)).map
      told = some (.bad_offset, 2, [(2, 5), (2, 6)], [(2, 5), (2, 6)]) := by
  decide +kernel

theorem sentBoth_atomic : ∃ buffer s' threads',
    binderTransaction .plain fewFds 1 1 (sendsFd [12, 0, 1]) none 0 before quiet =
      .ok (.failed .bad_offset (some buffer) 2, s', threads') ∧
    Atomic 1 1 (sendsFd [12, 0, 1]) none before quiet buffer s' threads' := by
  obtain ⟨⟨exit, buffer, failed_at, s', threads'⟩, hfailure, htold⟩ :=
    Option.map_eq_some_iff.mp sentBoth_told
  have hexit : exit = .bad_offset := congrArg Prod.fst htold
  have hfailed : failed_at = 2 := congrArg (fun x => x.2.1) htold
  subst hexit hfailed
  have h := eq_of_failure hfailure
  have hspares : spared .plain fewFds 1 1 (sendsFd [12, 0, 1]) none before = true := by
    decide +kernel
  exact ⟨buffer, s', threads', h,
    (failed_atomic_iff before_sound h hspares).1.mpr ⟨rfl, fun hcookie => nomatch hcookie⟩⟩

end Cdroid.Driver.References
