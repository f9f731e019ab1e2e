import Cdroid.Driver.StackExits
import Cdroid.Lib.Runs

/-! Runs of two-way transactions: no `BUG_ON` fires and nothing is used after it has been freed,
each call is answered once, and what is not answered yet is not lost. -/

namespace Cdroid.Driver.Stacks
open Cdroid.Lib Cdroid.Lib.CallChains
open Cdroid.Driver.ThreadRead (Errors BR_OK BR_DEAD_REPLY BR_FAILED_REPLY
  BR_TRANSACTION_COMPLETE)

/-- A thread takes work from its own list, or from that of its process if it may wait for it. -/
theorem list_of_nextWork {l : WorkLists WorkList Work} {proc thread : Nat} {wait : Bool}
    {w : Work} (h : nextWork l proc thread wait = some w) :
    l.on w = some (.threadTodo proc thread) ∨ l.on w = some (.todo proc) ∧ wait = true := by
  unfold nextWork at h
  split at h
  · next rest hitems =>
    cases h
    exact Or.inl ((l.mem_iff _ _).mpr (hitems ▸ List.mem_cons_self))
  · rw [Option.ite_none_right_eq_some] at h
    exact Or.inr ⟨(l.mem_iff _ _).mpr (List.mem_of_head? h.2), h.1⟩

namespace State

variable {s s' : State} {chains : Chains} {cs : List (Call Nat Nat)}
  {r t x : Nat} {th : binder_thread} {tr : binder_transaction}

/-! ## Codes -/

theorem Still.setErrors (hx : s.threads x = some th) {errors : Errors}
    (herrors : errors = th.errors ∨ (errors.return_error2 ≠ BR_OK →
      errors.return_error ≠ BR_OK ∧ th.errors.return_error2 ≠ BR_OK)) :
    Still s (s.setThread x (some { th with errors })) chains where
  transactions _ _ _ _ _ := rfl
  lists _ _ _ _ _ := rfl
  threads y := by
    by_cases hy : y = x
    · simp [hy, hx]
    · simp [hy]
  errors y th₁ th₂ h₁ h₂ := by
    by_cases hy : y = x
    · subst hy
      obtain rfl : th = th₁ := Option.some.inj (hx.symm.trans h₁)
      simp only [threads_setThread, if_true] at h₂
      cases h₂
      exact herrors
    · simp only [threads_setThread, if_neg hy, h₁] at h₂
      cases h₂
      exact Or.inl rfl
  listed _ _ hon := Or.inl ⟨hon, rfl⟩
  freed _ _ ht := ht
  released := rfl
  last_id := Nat.le_refl _
  last_thread := rfl
  callers := rfl
  answers := rfl

theorem Holds.return_error2 (h : s.Holds chains) (hx : s.threads x = some th)
    (herror : th.errors.return_error = BR_OK) : th.errors.return_error2 = BR_OK := by
  by_contra htwo
  exact (h.errors x th hx htwo).1 herror

/-- The `BUG_ON` of a failed transaction does not fire. -/
theorem Holds.fail (h : s.Holds chains) (hx : s.threads x = some th)
    (herror : th.errors.return_error = BR_OK) (code : BitVec 32) :
    ∃ u, s.fail x code = some u ∧ u.Holds chains := by
  have hstill : Still s (s.setThread x (some { th with
      errors := { th.errors with return_error := code } })) chains :=
    Still.setErrors hx (Or.inr fun htwo => absurd (h.return_error2 hx herror) htwo)
  refine ⟨_, ?_, hstill.holds h⟩
  simp only [State.fail, hx, if_pos herror]

theorem Holds.readCodes (h : s.Holds chains) (x room : Nat) :
    (s.readCodes x room).Holds chains := by
  unfold State.readCodes
  cases hx : s.threads x with
  | none => exact h
  | some th =>
    refine (Still.setErrors hx ?_).holds h
    unfold readErrors
    split
    · exact Or.inl rfl
    · split
      · next htwo =>
        split
        · exact Or.inl rfl
        · exact Or.inr fun hne => absurd htwo hne
      · split
        · exact Or.inl rfl
        · exact Or.inl rfl
        · exact Or.inr fun hne => absurd rfl hne

/-! ## Calls -/

/-- The search for a thread of the target process ends, and finds one that waits. -/
theorem Linked.targetThread {receiver : Option Nat} {p n : Nat} (found : Option Nat)
    (hlinked : s.Linked receiver cs) (halive : ∀ y, awaited y cs ≠ none → s.threads y ≠ none)
    (hn : cs.length ≤ n) :
    ∃ o, State.targetThread n s p (innermost cs) found = some o ∧
      (o = found ∨ ∃ y, o = some y ∧ (s.threads y).map (·.proc) = some p ∧
        awaited y cs ≠ none) := by
  induction cs generalizing receiver n found with
  | nil =>
    refine ⟨found, ?_, Or.inl rfl⟩
    cases n <;> rfl
  | cons c cs ih =>
    obtain ⟨n, rfl⟩ : ∃ m, n = m + 1 := ⟨n - 1, by simp at hn; omega⟩
    obtain ⟨⟨tr, hreceived⟩, hlinked⟩ := hlinked
    have hbelow := fun found => ih (n := n) found hlinked
      (fun y hy => halive y (awaited_cons_ne_none hy)) (Nat.le_of_succ_le_succ hn)
    have hfrom := hreceived.from_thread
    rw [innermost_cons]
    simp only [State.targetThread, show s.transactions c.id = some tr from hreceived.transaction]
    cases hcaller : c.caller with
    | none =>
      obtain ⟨o, ho, hfound⟩ := hbelow found
      rw [hcaller] at hfrom
      refine ⟨o, by simp only [hfrom, hreceived.from_parent, ho], ?_⟩
      rcases hfound with hfound | ⟨y, hy, hp, hwait⟩
      · exact Or.inl hfound
      · exact Or.inr ⟨y, hy, hp, awaited_cons_ne_none hwait⟩
    | some z =>
      have hz : awaited z (c :: cs) ≠ none := awaited_ne_none.mpr ⟨c, List.mem_cons_self, hcaller⟩
      obtain ⟨th, hth⟩ := Option.ne_none_iff_exists'.mp (halive z hz)
      obtain ⟨o, ho, hfound⟩ := hbelow (if th.proc = p then some z else found)
      rw [hcaller] at hfrom
      refine ⟨o, by simp only [hfrom, hth, hreceived.from_parent, ho], ?_⟩
      rcases hfound with hfound | ⟨y, hy, hp, hwait⟩
      · split at hfound
        · next hproc => exact Or.inr ⟨z, hfound, by rw [hth, Option.map_some, hproc], hz⟩
        · exact Or.inl hfound
      · exact Or.inr ⟨y, hy, hp, awaited_cons_ne_none hwait⟩

/-- A call that a thread makes while it carries out another one, and that the driver would give to
the thread itself. -/
def callsItself (s : State) (x target_proc : Nat) : Bool :=
  (s.threads x).any fun th => th.transaction_stack.any fun tmp => (s.transactions tmp).any fun tr =>
    decide (tr.to_thread = some x) &&
      decide (State.targetThread s.last_id s target_proc (some tmp) none = some (some x))

theorem Settled.set (h : Settled chains) {o : Option CallChain}
    (ho : ∀ c, o = some c → c.place ≠ .returning) : Settled (set chains r o) := by
  intro r' c hc
  rcases cases_set hc with ⟨-, ho'⟩ | ⟨-, hc⟩
  · exact ho c ho'
  · exact h r' c hc

/-- A call is accepted, or fails. -/
theorem Holds.finishCall (h : s.Holds chains) (hsettled : Settled chains)
    (hx : s.threads x = some th) (hbefore : Before s chains x th r cs) {p : Nat}
    {target_thread : Option Nat} (hreaches : Reaches s x p cs target_thread)
    (herror : th.errors.return_error = BR_OK) (failure : Option (BitVec 32)) :
    ∃ u, s.finishCall x th p target_thread failure = some u ∧ Sound u := by
  cases failure with
  | some code =>
    obtain ⟨u, hu, hholds⟩ := h.fail hx herror code
    exact ⟨u, hu, chains, hholds, hsettled⟩
  | none =>
    obtain ⟨u, hu, hholds⟩ := h.sent hx hbefore hreaches herror
    exact ⟨u, hu, _, hholds, hsettled.set fun c hc => by cases hc; exact nofun⟩

theorem Holds.transaction (h : s.Holds chains) (hsettled : Settled chains) (x : Nat)
    (target : Target) (failure : Option (BitVec 32))
    (hself : ∀ p, target = .node p → callsItself s x p = false) :
    ∃ u, s.transaction x target failure = some u ∧ Sound u := by
  unfold State.transaction
  cases hx : s.threads x with
  | none => exact ⟨s, rfl, chains, h, hsettled⟩
  | some th =>
    by_cases herror : th.errors.return_error = BR_OK
    · have hfail : ∀ code, ∃ u, s.fail x code = some u ∧ Sound u := fun code =>
        (h.fail hx herror code).imp fun u hu => ⟨hu.1, chains, hu.2, hsettled⟩
      simp only [herror, ne_eq, not_true_eq_false, if_false]
      cases target with
      | invalid_handle => exact hfail _
      | no_context_mgr_node => exact hfail _
      | node p =>
        cases hreleased : s.released p with
        | true =>
          simp only [hreleased, if_true]
          exact hfail _
        | false =>
          simp only [hreleased, Bool.false_eq_true, if_false]
          cases hstack : th.transaction_stack with
          | none =>
            have hreaches : Reaches s x p [] none := hreleased
            exact h.finishCall hsettled hx (.idle hstack rfl) hreaches herror failure
          | some tmp =>
            obtain ⟨r, htop⟩ := (h.stack x th hx tmp).mp hstack
            obtain ⟨⟨place, calls⟩, hd, htop⟩ := topOf_eq_some.mp htop
            obtain ⟨tr, htr, hrunning⟩ := h.to_thread_iff hd (hsettled r _ hd) htop
            simp only [htr]
            by_cases hto : tr.to_thread = some x
            · simp only [hto, not_true_eq_false, if_false]
              obtain rfl := hrunning.mp hto
              have hbefore : Before s chains x th r calls := .running hd
              have hfirst : innermost calls = some tmp := by
                rw [← hbefore.stack h hx, hstack]
              have halive : ∀ y, awaited y calls ≠ none → s.threads y ≠ none := by
                intro y hy
                refine h.alive r y ?_
                rw [hd]
                exact top_ne_none (c := ⟨.running x, calls⟩) hy
              have hsearch := (hbefore.linked h).targetThread (p := p) (n := s.last_id)
                none halive (h.length_le hd)
              rw [hfirst] at hsearch
              obtain ⟨o, ho, hfound⟩ := hsearch
              rw [ho, Option.bind_some]
              refine h.finishCall hsettled hx hbefore ?_ herror failure
              rcases hfound with rfl | ⟨y, rfl, hp, hwait⟩
              · exact hreleased
              · refine ⟨hp, hwait, ?_⟩
                rintro rfl
                have hno := hself p rfl
                simp [callsItself, hx, hstack, htr, hto, ho] at hno
            · simp only [hto, not_false_eq_true, if_true]
              exact hfail _
    · simp only [herror, ne_eq, not_false_eq_true, if_true]
      exact ⟨s, rfl, chains, h, hsettled⟩

/-! ## Replies -/

/-- A reply goes to the list of the thread that waited. -/
theorem Still.queue {p : Nat} {k : WorkList} (h : s.Holds chains)
    (hbuffer : tr.buffer = some ⟨false⟩) (hfrom : tr.from_thread = none) :
    Still s (s.queue x p tr k) chains where
  transactions r c hc t ht := by
    have hne : t ≠ s.last_id := Nat.ne_of_lt (h.old r c hc t ht)
    simp [hne]
  lists r c t hc ht := by
    have hne : t ≠ s.last_id := Nat.ne_of_lt (h.old r c hc t (mem_ids_of_innermost ht))
    simp [hne]
  threads _ := rfl
  errors y th th' hy hy' := by
    rw [threads_queue, hy] at hy'
    cases hy'
    exact Or.inl rfl
  listed t k' hon := by
    by_cases ht : t = s.last_id
    · subst ht
      exact Or.inr ⟨tr, if_pos rfl, Or.inr ⟨hbuffer, hfrom, Nat.lt_succ_self _,
        fun r c hc => h.not_mem_of_le (Nat.le_refl _) hc⟩⟩
    · exact Or.inl ⟨by simpa [ht] using hon, by simp [ht]⟩
  freed t ht hnone := by simp [Nat.ne_of_lt ht, hnone]
  released := rfl
  last_id := Nat.le_succ _
  last_thread := rfl
  callers := rfl
  answers := rfl

/-- The thread that replies, and what it replies to. -/
structure Replies (s : State) (chains : Chains) (x : Nat) (th : binder_thread) (r : Nat)
    (c : Call Nat Nat) (cs : List (Call Nat Nat)) (tr : binder_transaction) : Prop where
  thread : s.threads x = some th
  error : th.errors.return_error = BR_OK
  chain : chains r = some ⟨.running x, c :: cs⟩
  received : s.Received (some x) c cs tr

/-- The state in which the thread is rid of the call. -/
theorem Replies.back {c : Call Nat Nat} (h : s.Holds chains)
    (hreplies : Replies s chains x th r c cs tr) (errors : Errors)
    (herrors : errors.return_error2 = BR_OK) {s' : State}
    (hs' : s' = s.setThread x (some ⟨th.proc, tr.to_parent, errors⟩)) :
    s'.Holds (set chains r (some ⟨.returning, c :: cs⟩)) ∧
      Returning s' (set chains r (some ⟨.returning, c :: cs⟩)) r c.id (c :: cs) := by
  obtain ⟨hx, -, hc, hreceived⟩ := hreplies
  rw [(hreceived.to_parent x rfl).1] at hs'
  subst hs'
  refine ⟨h.back hc hx herrors, set_self, rfl, ?_⟩
  rw [lists_setThread]
  cases hon : s.lists.on (.transaction c.id) with
  | none => rfl
  | some k => exact absurd rfl ((h.innermost_of_on hc List.mem_cons_self hon).2 x)

/-- A reply that fails: whoever is left to wait for it gets the code. -/
theorem Replies.failReply {c : Call Nat Nat} (h : s.Holds chains) (hsettled : Settled chains)
    (hreplies : Replies s chains x th r c cs tr) {code : BitVec 32} (hcode : code ≠ BR_OK) :
    ∃ u, (s.setThread x (some { th with transaction_stack := tr.to_parent })).failReply x c.id code
        = some u ∧ Sound u := by
  have htwo := h.return_error2 hreplies.thread hreplies.error
  obtain ⟨hholds, hret⟩ := hreplies.back h
    { th.errors with return_error := BR_TRANSACTION_COMPLETE } htwo rfl
  obtain ⟨u, hu, hholds', -⟩ := hholds.sendFailedReply hret (h.length_le hreplies.chain) code hcode
  rw [set_set] at hholds'
  refine ⟨u, ?_, _, hholds', hsettled.set fun c hc => answered_place hc⟩
  simp only [State.failReply, State.fail, threads_setThread, if_true, hreplies.error,
    setThread_setThread, Option.bind_some]
  exact hu

/-- **A reply** takes the call from the stack of the thread that waits for it. -/
theorem Replies.deliver {y : Nat} (h : s.Holds chains) (hsettled : Settled chains)
    (hreplies : Replies s chains x th r ⟨t, some y⟩ cs tr) :
    ∃ target, (s.setThread x (some { th with transaction_stack := tr.to_parent })).threads y =
        some target ∧ target.transaction_stack = some t ∧ ∀ (p q : Nat) (tr' : binder_transaction),
      tr'.buffer = some ⟨false⟩ → tr'.from_thread = none →
        ∃ u, ((s.setThread x (some { th with transaction_stack := tr.to_parent })).popTransaction
          (some y) t).map (fun s => (s.answer t .reply).queue x p tr' (.threadTodo q y)) = some u ∧
          Sound u := by
  obtain ⟨hholds, hret⟩ := hreplies.back h th.errors
    (h.return_error2 hreplies.thread hreplies.error) rfl
  obtain ⟨target, -, -, -, -, htarget, -, hstack, hpop⟩ := hholds.popTransaction hret
  refine ⟨target, htarget, hstack, fun p q tr' hbuffer hfrom => ?_⟩
  have herrors : target.errors.return_error2 ≠ BR_OK → target.errors.return_error ≠ BR_OK :=
    fun htwo => (hholds.errors y target htarget htwo).1
  have hanswered := hholds.pop hret.chain hret.on htarget target.errors herrors .reply
  rw [set_set] at hanswered
  refine ⟨_, by rw [hpop]; rfl, _, (Still.queue hanswered hbuffer hfrom).holds hanswered, ?_⟩
  refine hsettled.set fun c hc => ?_
  rw [answeredTo_calls hc]
  exact nofun

theorem Holds.reply (h : s.Holds chains) (hsettled : Settled chains) (x : Nat)
    {failure : Option (BitVec 32)} (hcode : failure ≠ some BR_OK) :
    ∃ u, s.reply x failure = some u ∧ Sound u := by
  unfold State.reply
  cases hx : s.threads x with
  | none => exact ⟨s, rfl, chains, h, hsettled⟩
  | some th =>
    by_cases herror : th.errors.return_error = BR_OK
    · have hfail : ∀ code, ∃ u, s.fail x code = some u ∧ Sound u := fun code =>
        (h.fail hx herror code).imp fun u hu => ⟨hu.1, chains, hu.2, hsettled⟩
      simp only [herror, ne_eq, not_true_eq_false, if_false]
      cases hstack : th.transaction_stack with
      | none => exact hfail _
      | some t =>
        obtain ⟨r, htop⟩ := (h.stack x th hx t).mp hstack
        obtain ⟨⟨place, calls⟩, hd, htop⟩ := topOf_eq_some.mp htop
        obtain ⟨tr, htr, hrunning⟩ := h.to_thread_iff hd (hsettled r _ hd) htop
        simp only [htr]
        by_cases hto : tr.to_thread = some x
        · simp only [hto, not_true_eq_false, if_false]
          obtain rfl := hrunning.mp hto
          have hplaced := h.placed r _ hd
          cases calls with
          | nil => exact absurd rfl hplaced.ne_nil
          | cons c cs =>
            obtain ⟨t', caller⟩ := c
            obtain rfl : t' = t := by simpa [Chain.top] using htop
            obtain ⟨⟨tr', hreceived⟩, -⟩ := hplaced
            obtain rfl : tr = tr' := Option.some.inj (htr.symm.trans hreceived.transaction)
            have hreplies : Replies s chains x th r ⟨t', caller⟩ cs tr :=
              ⟨hx, herror, hd, hreceived⟩
            obtain rfl : tr.from_thread = caller := hreceived.from_thread
            cases hfrom : tr.from_thread with
            | none => exact hreplies.failReply h hsettled (by decide)
            | some y =>
              rw [hfrom] at hreplies
              obtain ⟨target, htarget, htarget_stack, hdeliver⟩ := hreplies.deliver h hsettled
              simp only [htarget, htarget_stack, not_true_eq_false, if_false]
              cases failure with
              | some code => exact hreplies.failReply h hsettled fun he => hcode (congrArg some he)
              | none => exact hdeliver _ _ _ rfl rfl
        · simp only [hto, not_false_eq_true, if_true]
          exact hfail _
    · simp only [herror, ne_eq, not_false_eq_true, if_true]
      exact ⟨s, rfl, chains, h, hsettled⟩

/-! ## Reads -/

theorem Sound.still (h : s.Holds chains) (hsettled : Settled chains)
    (hstill : Still s s' chains) : Sound s' :=
  ⟨chains, hstill.holds h, hsettled⟩

/-- Who has sent a call that is on a list is still there, or known to have gone. -/
theorem Holds.sender_alive (h : s.Holds chains) {k : WorkList} {c : Call Nat Nat}
    {cs : List (Call Nat Nat)} (hc : chains r = some ⟨.queued k, c :: cs⟩) :
    c.caller.any (fun y => (s.threads y).isNone) = false := by
  cases hcaller : c.caller with
  | none => rfl
  | some y =>
    have htop : topOf (chains r) y ≠ none := by
      rw [hc]
      exact awaited_ne_none.mpr ⟨c, List.mem_cons_self, hcaller⟩
    obtain ⟨th, hth⟩ := Option.ne_none_iff_exists'.mp (h.alive r y htop)
    simp [hth]

theorem Holds.readTransaction (h : s.Holds chains) (hsettled : Settled chains)
    (hx : s.threads x = some th) {k : WorkList} (hon : s.lists.on (.transaction t) = some k)
    (hk : k = .threadTodo th.proc x ∨ k = .todo th.proc ∧ th.transaction_stack = none) :
    ∃ u, s.readTransaction x th t = some u ∧ Sound u := by
  obtain ⟨tr, htr, ⟨hbuffer, r, ⟨place, calls⟩, hc, hplace, hfirst⟩ | ⟨hbuffer, hfrom, -, hout⟩⟩ :=
    h.listed t k hon
  · have hplaced := h.placed r _ hc
    cases calls with
    | nil => cases hfirst
    | cons c cs =>
      obtain rfl : c.id = t := Option.some.inj hfirst
      cases place with
      | running y => exact absurd rfl (hplace y)
      | returning => exact absurd rfl (hsettled r _ hc)
      | queued k' =>
        obtain ⟨hon', ⟨tr', hsent, htargets⟩, -⟩ := hplaced
        obtain rfl : k' = k := Option.some.inj (hon'.symm.trans hon)
        have hstack : th.transaction_stack = awaited x cs ∧ c.caller ≠ some x := by
          rcases hk with rfl | ⟨-, hidle⟩
          · obtain ⟨-, -, hwait, hself⟩ := htargets
            have htop : topOf (chains r) x = awaited x cs := by
              rw [hc]
              exact awaited_of_ne hself
            exact ⟨(h.stack_eq hx (by rwa [htop])).trans htop, hself⟩
          · have htop := h.top_of_idle hx hidle r
            rw [hc] at htop
            have hself : c.caller ≠ some x := fun he =>
              absurd htop (awaited_ne_none.mpr ⟨c, List.mem_cons_self, he⟩)
            exact ⟨hidle.trans ((awaited_of_ne hself).symm.trans htop).symm, hself⟩
        refine ⟨_, ?_, _, h.take hc hx hstack.1 hstack.2 htr, hsettled.set fun c' hc' => ?_⟩
        · have hfrom := h.sender_alive hc
          obtain rfl : tr' = tr := Option.some.inj (hsent.transaction.symm.trans htr)
          rw [← hsent.from_thread] at hfrom
          simp only [State.readTransaction, htr, hbuffer, hfrom, Bool.false_eq_true, if_true,
            if_false]
        · cases hc'
          exact nofun
  · refine ⟨_, ?_, Sound.still h hsettled (Still.free hout)⟩
    simp only [State.readTransaction, htr, hbuffer, hfrom, Option.any_none, Bool.false_eq_true,
      if_false]

theorem Holds.read (h : s.Holds chains) (hsettled : Settled chains) (x : Nat) (idle : Bool) :
    ∃ u, s.read x idle = some u ∧ Sound u := by
  unfold State.read
  cases hx : s.threads x with
  | none => exact ⟨s, rfl, chains, h, hsettled⟩
  | some th =>
    cases hnext : nextWork s.lists th.proc x (th.transaction_stack.isNone && idle) with
    | none => exact ⟨s, by simp only [hnext], chains, h, hsettled⟩
    | some w =>
      cases w with
      | transaction t =>
        simp only [hnext]
        rcases list_of_nextWork hnext with hon | ⟨hon, hwait⟩
        · exact h.readTransaction hsettled hx hon (Or.inl rfl)
        · have hidle : th.transaction_stack = none := by
            rw [Bool.and_eq_true, Option.isNone_iff_eq_none] at hwait
            exact hwait.1
          exact h.readTransaction hsettled hx hon (Or.inr ⟨rfl, hidle⟩)
      | transaction_complete t =>
        exact ⟨_, by simp only [hnext],
          Sound.still h hsettled (Still.unlink (w := .transaction_complete t) nofun)⟩
      | other w =>
        exact ⟨_, by simp only [hnext], Sound.still h hsettled (Still.unlink (w := .other w) nofun)⟩

/-! ## Other steps -/

theorem Still.post (w : Nat) (k : WorkList) :
    Still s { s with lists := s.lists.moveTail (.other w) k } chains :=
  Still.of_lists (fun _ _ _ _ _ => rfl) (fun _ _ _ _ _ => by simp)
    (fun t k' hon => ⟨by simpa using hon, rfl⟩) (fun _ ht => ht) rfl

theorem Holds.newThread (h : s.Holds chains) (proc : Nat) : (s.newThread proc).Holds chains := by
  unfold State.newThread
  split
  · exact h
  · have hfresh := h.threads s.last_thread (Nat.le_refl _)
    have hne : ∀ {y}, s.threads y ≠ none → y ≠ s.last_thread := fun hy he => hy (he ▸ hfresh)
    have hout : ∀ r, topOf (chains r) s.last_thread = none := by
      intro r
      by_contra htop
      exact h.alive r _ htop hfresh
    refine { h with
      placed := ?_, alive := ?_, stack := ?_, errors := ?_, known := ?_, threads := ?_ }
    · intro r c hc
      refine (h.placed r c hc).congr (fun _ _ => rfl) (fun _ _ => rfl) rfl fun y p _ hp => ?_
      have hy : y ≠ s.last_thread := hne fun he => by rw [he] at hp; cases hp
      simpa [hy] using hp
    · intro r y hy
      have hold := h.alive r y hy
      simpa [hne hold] using hold
    · intro y th hy t
      by_cases hyx : y = s.last_thread
      · subst hyx
        simp only [threads_setThread, if_true] at hy
        cases hy
        exact ⟨nofun, fun ⟨r, hr⟩ => by rw [hout r] at hr; cases hr⟩
      · simp only [threads_setThread, if_neg hyx] at hy
        exact h.stack y th hy t
    · intro y th hy htwo
      by_cases hyx : y = s.last_thread
      · subst hyx
        simp only [threads_setThread, if_true] at hy
        cases hy
        exact absurd rfl htwo
      · simp only [threads_setThread, if_neg hyx] at hy
        exact h.errors y th hy htwo
    · intro t y hy
      obtain ⟨hlt, hthread, hacc⟩ := h.known t y hy
      refine ⟨hlt, Nat.lt_succ_of_lt hthread, ?_⟩
      unfold Accounted
      simp only [threads_setThread, if_neg (Nat.ne_of_lt hthread)]
      exact hacc
    · intro y hy
      have hyx : y ≠ s.last_thread := Nat.ne_of_gt hy
      simpa [hyx] using h.threads y (Nat.le_of_succ_le hy)

theorem initial_sound : Sound initial := by
  refine ⟨fun _ => none, ?_, nofun⟩
  exact {
    placed := nofun
    nodup := nofun
    apart := nofun
    old := nofun
    keys := nofun
    alive := fun _ _ htop => absurd rfl htop
    stack := nofun
    listed := nofun
    errors := nofun
    known := nofun
    unknown := fun _ _ => rfl
    threads := fun _ _ => rfl }

/-! ## What a sound state says -/

/-- The call is one that the other was made for, or is that one. -/
inductive MadeFor (s : State) (t : Nat) : Nat → Prop
  | refl : MadeFor s t t
  | step {u v : Nat} {tr : binder_transaction} (htr : s.transactions u = some tr)
      (hparent : tr.from_parent = some v) (h : MadeFor s t v) : MadeFor s t u

/-- A thread can take the call from its list, or has it before it and can reply. -/
inductive CanGoOn (s : State) (u : Nat) : Prop
  | todo (p : Nat) (hon : s.lists.on (.transaction u) = some (.todo p))
      (hreleased : s.released p = false)
  | threadTodo (y : Nat) (th : binder_thread) (hy : s.threads y = some th)
      (hon : s.lists.on (.transaction u) = some (.threadTodo th.proc y))
  | running (y : Nat) (th : binder_thread) (tr : binder_transaction) (hy : s.threads y = some th)
      (hstack : th.transaction_stack = some u) (htr : s.transactions u = some tr)
      (hto : tr.to_thread = some y)

/-- A call that its sender still waits for. -/
structure Pending (s : State) (t x : Nat) : Prop where
  answers : s.answers t = []
  transaction : ∃ tr, s.transactions t = some tr ∧ tr.from_thread = some x
  goes_on : ∃ u, MadeFor s t u ∧ CanGoOn s u

theorem Linked.madeFor {receiver : Option Nat} (h : s.Linked receiver cs) {caller : Option Nat}
    (hmem : ⟨t, caller⟩ ∈ cs) :
    ∃ u, innermost cs = some u ∧ MadeFor s t u ∧
      ∃ tr, s.transactions t = some tr ∧ tr.from_thread = caller := by
  induction cs generalizing receiver with
  | nil => cases hmem
  | cons c cs ih =>
    obtain ⟨⟨tr, hreceived⟩, hlinked⟩ := h
    rcases List.mem_cons.mp hmem with rfl | hmem
    · exact ⟨t, rfl, .refl, tr, hreceived.transaction, hreceived.from_thread⟩
    · obtain ⟨u, hu, hmade, htr⟩ := ih hlinked hmem
      exact ⟨c.id, rfl, .step hreceived.transaction (hreceived.from_parent.trans hu) hmade, htr⟩

theorem PlacedAt.madeFor {place : Place Nat WorkList} (h : s.PlacedAt place cs)
    {caller : Option Nat} (hmem : ⟨t, caller⟩ ∈ cs) :
    ∃ u, innermost cs = some u ∧ MadeFor s t u ∧
      ∃ tr, s.transactions t = some tr ∧ tr.from_thread = caller := by
  cases cs with
  | nil => cases hmem
  | cons c cs =>
    have hsent : ∀ {tr}, s.Sent c cs tr → s.Linked c.caller cs → ∃ u,
        innermost (c :: cs) = some u ∧ MadeFor s t u ∧
          ∃ tr, s.transactions t = some tr ∧ tr.from_thread = caller := by
      intro tr hsent hlinked
      rcases List.mem_cons.mp hmem with rfl | hmem
      · exact ⟨t, rfl, .refl, tr, hsent.transaction, hsent.from_thread⟩
      · obtain ⟨u, hu, hmade, htr⟩ := hlinked.madeFor hmem
        exact ⟨c.id, rfl, .step hsent.transaction (hsent.from_parent.trans hu) hmade, htr⟩
    cases place with
    | running y => exact Linked.madeFor h hmem
    | queued k => exact hsent h.2.1.choose_spec.1 h.2.2
    | returning => exact hsent h.1.choose_spec h.2

/-- The innermost call of a chain is not lost. -/
theorem Holds.canGoOn (h : s.Holds chains) {d : CallChain} (hd : chains r = some d)
    (hreturning : d.place ≠ .returning) (hfirst : innermost d.calls = some t) : CanGoOn s t := by
  obtain ⟨place, calls⟩ := d
  have hplaced := h.placed r _ hd
  cases calls with
  | nil => cases hfirst
  | cons c cs =>
    obtain rfl : c.id = t := Option.some.inj hfirst
    cases place with
    | returning => exact absurd rfl hreturning
    | running y =>
      obtain ⟨⟨tr, hreceived⟩, -⟩ := hplaced
      have htop : topOf (chains r) y = some c.id := by simp [hd, topOf, Chain.top]
      have halive := h.alive r y (by rw [htop]; exact Option.some_ne_none _)
      obtain ⟨th, hth⟩ := Option.ne_none_iff_exists'.mp halive
      exact .running y th tr hth ((h.stack y th hth _).mpr ⟨r, htop⟩) hreceived.transaction
        hreceived.to_thread
    | queued k =>
      obtain ⟨hon, ⟨tr, -, htargets⟩, -⟩ := hplaced
      cases k with
      | todo p => exact .todo p hon htargets.2
      | threadTodo p y =>
        obtain ⟨th, hth, rfl⟩ := Option.map_eq_some_iff.mp htargets.2.1
        exact .threadTodo y th hth hon
      | delivered_death p => exact htargets.elim
      | async_todo n => exact htargets.elim

theorem Sound.answered (h : Sound s) (ht : s.callers t = some x) (hx : s.threads x ≠ none) :
    (s.transactions t = none ∧ (s.answers t).length = 1) ∨ Pending s t x := by
  obtain ⟨chains, h, hsettled⟩ := h
  obtain ⟨-, -, ⟨hnone, r, d, hd, hcall⟩ | ⟨-, hfreed, hdone⟩⟩ := h.known t x ht
  · have hmem : ⟨t, some x⟩ ∈ d.calls := hcall.resolve_right fun hgone => hx hgone.2
    obtain ⟨u, hu, hmade, htr⟩ := (h.placed r d hd).madeFor hmem
    exact Or.inr ⟨hnone, htr, u, hmade, h.canGoOn hd (hsettled r d hd) hu⟩
  · exact Or.inl ⟨hfreed, hdone.resolve_right fun hgone => hx hgone.2⟩

/-- What is on top of the stack of a thread: a call that it sent, or one that came to it, and then
it is on top of the stack of its sender as well. -/
inductive OnTop (s : State) (x : Nat) (tr : binder_transaction) (t : Nat) : Prop
  | waits (hto : tr.to_thread ≠ some x) (hfrom : tr.from_thread = some x)
  | runs (hto : tr.to_thread = some x) (hfrom : ∀ y, tr.from_thread = some y →
      y ≠ x ∧ (s.threads y).map (·.transaction_stack) = some (some t))

theorem Sound.onTop (h : Sound s) (hx : s.threads x = some th)
    (ht : th.transaction_stack = some t) :
    ∃ tr, s.transactions t = some tr ∧ OnTop s x tr t := by
  obtain ⟨chains, h, hsettled⟩ := h
  obtain ⟨r, htop⟩ := (h.stack x th hx t).mp ht
  obtain ⟨⟨place, calls⟩, hd, htop⟩ := topOf_eq_some.mp htop
  obtain ⟨tr, htr, hrunning⟩ := h.to_thread_iff hd (hsettled r _ hd) htop
  refine ⟨tr, htr, ?_⟩
  by_cases hplace : place = .running x
  · subst hplace
    have hplaced := h.placed r _ hd
    cases calls with
    | nil => exact absurd rfl hplaced.ne_nil
    | cons c cs =>
      obtain rfl : c.id = t := by simpa [Chain.top] using htop
      obtain ⟨⟨tr', hreceived⟩, -⟩ := hplaced
      obtain rfl : tr = tr' := Option.some.inj (htr.symm.trans hreceived.transaction)
      refine .runs hreceived.to_thread fun y hy => ?_
      have hcaller : c.caller = some y := hreceived.from_thread.symm.trans hy
      have hne : y ≠ x := by
        rintro rfl
        exact (hreceived.to_parent y rfl).2 hcaller
      have hwaits : topOf (chains r) y = some c.id := by
        simp [hd, topOf, Chain.top, hne, awaited_cons, hcaller]
      obtain ⟨ty, hty⟩ := Option.ne_none_iff_exists'.mp
        (h.alive r y (by rw [hwaits]; exact Option.some_ne_none _))
      refine ⟨hne, ?_⟩
      rw [hty, Option.map_some, (h.stack y ty hty _).mpr ⟨r, hwaits⟩]
  · refine .waits (fun hto => hplace (hrunning.mp hto)) ?_
    have ha : awaited x calls = some t := by
      cases place with
      | returning => exact absurd rfl (hsettled r _ hd)
      | running y =>
        have hne : x ≠ y := fun he => hplace (he ▸ rfl)
        simpa [Chain.top, hne] using htop
      | queued k => exact htop
    obtain ⟨u, -, -, tr', htr', hfrom⟩ := (h.placed r _ hd).madeFor (mem_of_awaited ha)
    rwa [Option.some.inj (htr.symm.trans htr')]

end State

open State

/-- The condition of a step: no thread calls itself, and the code of a reply that fails is one. -/
def Meets (s : State) : Action → Prop
  | .transaction x (.node proc) _ => callsItself s x proc = false
  | .reply _ failure => failure ≠ some BR_OK
  | _ => True

instance (s : State) (a : Action) : Decidable (Meets s a) := by
  unfold Meets
  split <;> infer_instance

/-- **Step lemma.** -/
theorem next_sound {s : State} (h : Sound s) {a : Action} (hmeets : Meets s a) :
    ∃ u, next s a = some u ∧ Sound u := by
  obtain ⟨chains, hholds, hsettled⟩ := h
  cases a with
  | newThread proc => exact ⟨_, rfl, chains, hholds.newThread proc, hsettled⟩
  | transaction x target failure =>
    refine hholds.transaction hsettled x target failure ?_
    rintro p rfl
    exact hmeets
  | reply x failure => exact hholds.reply hsettled x hmeets
  | readCodes x room => exact ⟨_, rfl, chains, hholds.readCodes x room, hsettled⟩
  | read x idle => exact hholds.read hsettled x idle
  | post w k => exact ⟨_, rfl, Sound.still hholds hsettled (Still.post w k)⟩
  | freeThread x =>
    cases hx : s.threads x with
    | none => exact ⟨s, by simp only [next, State.freeThread, hx], chains, hholds, hsettled⟩
    | some th => exact hholds.freeThread hsettled hx
  | release proc => exact hholds.releaseProc hsettled proc

variable {as : List Action} {u : State}

theorem run_sound (hmeets : Runs.Along Meets next as initial)
    (hrun : Runs.after next as initial = some u) : Sound u :=
  Runs.along_inv (fun _ _ _ hs hmeets ht => by
    obtain ⟨v, hv, hsound⟩ := next_sound hs hmeets
    rwa [Option.some.inj (ht.symm.trans hv)]) as initial_sound hmeets hrun

/-- **No fault.** No `BUG_ON` fires in a run, and nothing is used after it has been freed. -/
theorem run_goes_through (hmeets : Runs.Along Meets next as initial) :
    ∃ u, Runs.after next as initial = some u :=
  (Runs.along_total (fun _ _ hs hmeets => next_sound hs hmeets) as initial_sound hmeets).imp
    fun _ h => h.1

/-- A thread calls another one, which calls it back and goes before it gets the reply. -/
def calledBack : List Action :=
  [.newThread 1, .newThread 2, .transaction 0 (.node 2) none, .read 1 true,
    .transaction 1 (.node 1) none, .read 0 false, .read 0 false, .freeThread 1, .reply 0 none]

theorem calledBack_goes_through : ∃ u, Runs.after next calledBack initial = some u :=
  run_goes_through (by decide)

/-- **The stacks match.** -/
theorem stacks_match (hmeets : Runs.Along Meets next as initial)
    (hrun : Runs.after next as initial = some u) (x : Nat) (th : binder_thread) (t : Nat)
    (hx : u.threads x = some th) (ht : th.transaction_stack = some t) :
    ∃ tr, u.transactions t = some tr ∧ OnTop u x tr t :=
  Sound.onTop (run_sound hmeets hrun) hx ht

theorem calledBack_stacks : ∃ u tr, Runs.after next (calledBack.take 7) initial = some u ∧
    u.transactions 1 = some tr ∧ OnTop u 0 tr 1 := by
  have hsome : (Runs.after next (calledBack.take 7) initial).isSome := by decide
  obtain ⟨tr, htr, htop⟩ := stacks_match
    (show Runs.Along Meets next (calledBack.take 7) initial by decide)
    (Option.some_get hsome).symm 0 ⟨1, some 1, ⟨BR_OK, BR_OK⟩⟩ 1 (by rfl) rfl
  exact ⟨_, tr, (Option.some_get hsome).symm, htr, htop⟩

/-- **One answer.** A call of a thread that has not gone has been answered once and is freed, or
the thread waits for it, and then it has not been lost. -/
theorem answered_once (hmeets : Runs.Along Meets next as initial)
    (hrun : Runs.after next as initial = some u) (t x : Nat) (ht : u.callers t = some x)
    (hx : u.threads x ≠ none) :
    (u.transactions t = none ∧ (u.answers t).length = 1) ∨ Pending u t x :=
  Sound.answered (run_sound hmeets hrun) ht hx

theorem calledBack_answered : ∃ u, Runs.after next calledBack initial = some u ∧
    ((u.transactions 0 = none ∧ (u.answers 0).length = 1) ∨ Pending u 0 0) := by
  have hsome : (Runs.after next calledBack initial).isSome := by decide
  have hsender : ((Runs.after next calledBack initial).bind (·.threads 0)).isSome := by decide
  refine ⟨_, (Option.some_get hsome).symm, answered_once
    (show Runs.Along Meets next calledBack initial by decide) (Option.some_get hsome).symm 0 0
    (by rfl) ?_⟩
  rw [← Option.some_get hsome, Option.bind_some, Option.isSome_iff_ne_none] at hsender
  exact hsender

/-- Without the condition a call that has been freed is used: the thread is the target of a call of
its own, and goes before it takes it. -/
example : Runs.after next [.newThread 1, .newThread 2, .transaction 0 (.node 2) none,
    .read 1 true, .transaction 1 (.node 1) none, .read 0 false, .read 0 false,
    .transaction 0 (.node 1) none, .freeThread 0] initial = none := by
  decide

end Cdroid.Driver.Stacks
