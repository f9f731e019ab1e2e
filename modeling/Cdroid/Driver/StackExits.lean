import Cdroid.Driver.StackSteps
import Mathlib.Data.List.Perm.Subperm

/-! Calls that fail, and threads that go: `binder_send_failed_reply`, `binder_free_thread` and
`binder_release_work` leave chains without the threads and the calls that are gone. -/

namespace Cdroid.Driver.Stacks
open Cdroid.Lib Cdroid.Lib.CallChains
open Cdroid.Driver.ThreadRead (Errors BR_OK BR_DEAD_REPLY BR_FAILED_REPLY
  BR_TRANSACTION_COMPLETE)

namespace State

variable {s s' : State} {chains : Chains} {cs : List (Call Nat Nat)}
  {r t x : Nat} {th : binder_thread} {tr : binder_transaction}

/-! ## Answers -/

/-- What answers leave alone. -/
structure Answered (s s' : State) : Prop where
  lists : s'.lists = s.lists
  released : s'.released = s.released
  last_id : s'.last_id = s.last_id
  threads : ∀ y, s'.threads y = none ↔ s.threads y = none

theorem Answered.trans {s'' : State} (h : Answered s s') (h' : Answered s' s'') :
    Answered s s'' where
  lists := h'.lists.trans h.lists
  released := h'.released.trans h.released
  last_id := h'.last_id.trans h.last_id
  threads y := (h'.threads y).trans (h.threads y)

theorem setThread_setTransaction (o : Option binder_transaction) (o' : Option binder_thread) :
    (s.setThread x o').setTransaction t o = (s.setTransaction t o).setThread x o' := rfl

theorem setThread_setThread (o o' : Option binder_thread) :
    (s.setThread x o).setThread x o' = s.setThread x o' := by
  unfold setThread
  congr 1
  funext y
  by_cases hy : y = x <;> simp [hy]

/-- Who waits for an answer has room for a code. -/
theorem Holds.accepts (h : s.Holds chains) (hx : s.threads x = some th)
    (hwaits : Waits (chains r) x) : th.errors.accepts = true := by
  have htwo : th.errors.return_error2 = BR_OK := by
    by_contra htwo
    exact (h.errors x th hx htwo).2 r hwaits
  simp [Errors.accepts, htwo]

theorem raise_proper {e : Errors} {code : BitVec 32} (haccepts : e.accepts = true)
    (hcode : code ≠ BR_OK) : (e.raise code).return_error ≠ BR_OK := by
  obtain ⟨-, -, hraise⟩ | ⟨-, -, -, hraise⟩ | ⟨hno, -⟩ := ThreadRead.raise_cases e code
  · rwa [hraise]
  · rwa [hraise]
  · rw [hno] at haccepts
    cases haccepts

/-- The innermost call has come back, and is on no list. -/
structure Returning (s : State) (chains : Chains) (r t : Nat) (cs : List (Call Nat Nat)) :
    Prop where
  chain : chains r = some ⟨.returning, cs⟩
  first : innermost cs = some t
  on : s.lists.on (.transaction t) = none

theorem Holds.popTransaction (h : s.Holds chains) {y : Nat}
    (hret : Returning s chains r t (⟨t, some y⟩ :: cs)) :
    ∃ th tr, s.transactions t = some tr ∧ tr.from_thread = some y ∧
      tr.from_parent = innermost cs ∧ s.threads y = some th ∧ th.errors.accepts = true ∧
      th.transaction_stack = some t ∧
      s.popTransaction (some y) t = some ((s.setTransaction t none).setThread y
        (some { th with transaction_stack := innermost cs })) := by
  obtain ⟨⟨tr, hsent⟩, -⟩ := h.placed r _ hret.chain
  have htop : topOf (chains r) y = some t := by
    rw [hret.chain]
    exact awaited_self
  have hne : topOf (chains r) y ≠ none := by rw [htop]; exact nofun
  obtain ⟨th, hth⟩ := Option.ne_none_iff_exists'.mp (h.alive r y hne)
  have hstack : th.transaction_stack = some t := (h.stack_eq hth hne).trans htop
  have hwaits : Waits (chains r) y :=
    ⟨_, hret.chain, nofun, by rw [hret.chain] at hne; exact hne⟩
  refine ⟨th, tr, hsent.transaction, hsent.from_thread, hsent.from_parent, hth,
    h.accepts hth hwaits, hstack, ?_⟩
  simp only [State.popTransaction, show s.transactions t = some tr from hsent.transaction, hth]
  rw [if_pos ⟨hstack, hsent.from_thread⟩, hsent.from_parent, setThread_setTransaction]

theorem Holds.popDead (h : s.Holds chains) (hret : Returning s chains r t (⟨t, none⟩ :: cs)) :
    ∃ tr, s.transactions t = some tr ∧ tr.from_thread = none ∧ tr.from_parent = innermost cs ∧
      s.popTransaction none t = some (s.setTransaction t none) := by
  obtain ⟨⟨tr, hsent⟩, -⟩ := h.placed r _ hret.chain
  have htr : s.transactions t = some tr := hsent.transaction
  refine ⟨tr, htr, hsent.from_thread, hsent.from_parent, ?_⟩
  simp only [State.popTransaction, htr]

theorem answered_some {y : Nat} : Chain.answered (κ := WorkList) ⟨.returning, ⟨t, some y⟩ :: cs⟩ =
    answeredTo y cs := by
  cases cs <;> rfl

/-- **A failed call.** The innermost caller that is left gets the code, and goes on. -/
theorem Holds.sendFailedReply (h : s.Holds chains) {n : Nat} (hret : Returning s chains r t cs)
    (hn : cs.length ≤ n) (code : BitVec 32) (hcode : code ≠ BR_OK) :
    ∃ u, sendFailedReply n s t code = some u ∧
      u.Holds (set chains r (Chain.answered ⟨.returning, cs⟩)) ∧ Answered s u := by
  induction cs generalizing s chains n t with
  | nil => exact absurd hret.first nofun
  | cons c cs ih =>
    obtain ⟨n, rfl⟩ : ∃ m, n = m + 1 := ⟨n - 1, by simp at hn; omega⟩
    obtain ⟨t', _ | y⟩ := c
    · obtain rfl : t' = t := Option.some.inj hret.first
      obtain ⟨tr, htr, hfrom, hparent, hpop⟩ := h.popDead hret
      have hholds := h.drop hret.chain hret.on
      have hdropped : Answered s (s.setTransaction t' none) :=
        ⟨rfl, rfl, rfl, fun _ => Iff.rfl⟩
      cases cs with
      | nil =>
        refine ⟨_, ?_, hholds, hdropped⟩
        simp only [State.sendFailedReply, htr, hfrom, hpop, hparent, innermost_nil]
      | cons d ds =>
        have hret' : Returning (s.setTransaction t' none) (set chains r (dropped (d :: ds))) r
            d.id (d :: ds) := by
          refine ⟨set_self, rfl, ?_⟩
          cases hon : s.lists.on (.transaction d.id) with
          | none => exact hon
          | some k =>
            -- only the innermost call may be on a list
            have hnodup := h.nodup r _ hret.chain
            have hmem : d.id ∈ ids (⟨t', none⟩ :: d :: ds) := by simp
            have hfirst := (h.innermost_of_on hret.chain hmem hon).1
            have hsame : t' = d.id := Option.some.inj hfirst
            simp [hsame] at hnodup
        obtain ⟨u, hu, hholds', hanswered⟩ := ih hholds hret' (Nat.le_of_succ_le_succ hn)
        rw [set_set] at hholds'
        refine ⟨u, ?_, hholds', hdropped.trans hanswered⟩
        simp only [State.sendFailedReply, htr, hfrom, hpop, hparent, innermost_cons]
        exact hu
    · obtain rfl : t' = t := Option.some.inj hret.first
      obtain ⟨th, tr, htr, hfrom, hparent, hth, haccepts, -, hpop⟩ := h.popTransaction hret
      have hholds := h.pop hret.chain hret.on hth (th.errors.raise code)
        (fun _ => raise_proper haccepts hcode) (.error code)
      rw [← answered_some (t := t')] at hholds
      refine ⟨_, ?_, hholds, ⟨rfl, rfl, rfl, fun z => ?_⟩⟩
      · simp only [State.sendFailedReply, htr, hfrom, hth, haccepts, if_true, hpop, Option.map_some,
          setThread_setThread, hparent]
      · by_cases hz : z = y
        · simp [hz, hth]
        · simp [hz]

/-- There are no more calls in a chain than there have been transactions. -/
theorem Holds.length_le (h : s.Holds chains) {d : CallChain} (hd : chains r = some d) :
    d.calls.length ≤ s.last_id := by
  have hsubset : ids d.calls ⊆ List.range s.last_id := fun t ht =>
    List.mem_range.mpr (h.old r d hd t ht)
  have hle := ((h.nodup r d hd).subperm hsubset).length_le
  rwa [List.length_range, CallChains.ids, List.length_map] at hle

/-! ## Threads that go -/

theorem Holds.accounted_of_mem (h : s.Holds chains) {d : CallChain} (hd : chains r = some d)
    (ht : t ∈ ids d.calls) {y : Nat} (hy : s.callers t = some y) :
    s.answers t = [] ∧ (⟨t, some y⟩ ∈ d.calls ∨ ⟨t, none⟩ ∈ d.calls ∧ s.threads y = none) := by
  obtain ⟨-, -, ⟨hnone, r', c, hc, hcall⟩ | ⟨hno, -⟩⟩ := h.known t y hy
  · have hr : r' = r := by
      refine h.apart r' r c d hc hd t (mem_ids.mpr ?_) ht
      rcases hcall with hcall | ⟨hcall, -⟩
      · exact ⟨_, hcall, rfl⟩
      · exact ⟨_, hcall, rfl⟩
    rw [hr, hd] at hc
    cases hc
    exact ⟨hnone, hcall⟩
  · exact absurd ht (hno r d hd)

/-- What the loop over a stack leaves alone. -/
structure Detached (s u : State) (cs : List (Call Nat Nat)) : Prop where
  transactions : ∀ t, t ∉ ids cs → u.transactions t = s.transactions t
  rest : u = { s with transactions := u.transactions }

/-- The loop can go over the calls: none of them names the thread afterwards. -/
def Detaches (s : State) (x : Nat) (receiver : Option Nat) (cs : List (Call Nat Nat)) : Prop :=
  ∀ n, cs.length ≤ n → ∃ u,
    s.detach n x (if receiver = some x then innermost cs else awaited x cs) = some u ∧
      u.Linked (if receiver = some x then none else receiver) (cut x cs) ∧ Detached s u cs

theorem detach_none {n : Nat} : s.detach n x none = some s := by
  cases n <;> rfl

theorem Detached.cons {c : Call Nat Nat} {o : Option binder_transaction} {u : State}
    (h : Detached (s.setTransaction c.id o) u cs) : Detached s u (c :: cs) where
  transactions t ht := by
    have hne : t ≠ c.id := fun he => ht (he ▸ List.mem_cons_self)
    rw [h.transactions t fun hmem => ht (List.mem_cons_of_mem _ hmem)]
    simp [hne]
  rest := by rw [h.rest]; rfl

/-- The loop over a call that the thread does not carry out. -/
theorem Sent.detach {c : Call Nat Nat} (hsent : s.Sent c cs tr)
    (hto : c.caller = some x → tr.to_thread ≠ some x) (hlinked : s.Linked c.caller cs)
    (hfresh : c.id ∉ ids cs)
    (hbelow : ∀ s' : State, s'.Linked c.caller cs → Detaches s' x c.caller cs) {n : Nat}
    (hn : (c :: cs).length ≤ n) :
    ∃ u, s.detach n x (awaited x (c :: cs)) = some u ∧
      u.Sent (c.cut x) (cut x cs) { tr with from_thread := (c.cut x).caller } ∧
      u.Linked (c.cut x).caller (cut x cs) ∧ Detached s u (c :: cs) := by
  have htr : s.transactions c.id = some tr := hsent.transaction
  by_cases hx : c.caller = some x
  · obtain ⟨n, rfl⟩ : ∃ m, n = m + 1 := ⟨n - 1, by simp at hn; omega⟩
    have hlinked' : (s.setTransaction c.id (some { tr with from_thread := none })).Linked
        c.caller cs := by
      refine hlinked.congr fun t ht => ?_
      have hne : t ≠ c.id := fun he => hfresh (he ▸ ht)
      simp [hne]
    obtain ⟨u, hu, hbelow, hdetached⟩ := hbelow _ hlinked' n (Nat.le_of_succ_le_succ hn)
    rw [if_pos hx] at hu hbelow
    refine ⟨u, ?_, ⟨?_, rfl, ?_⟩, ?_, hdetached.cons⟩
    · rw [awaited_cons, if_pos hx]
      rw [← hsent.from_parent] at hu
      simp only [State.detach, htr, if_neg (hto hx), hsent.from_thread.trans hx, if_true, hu]
    · rw [Call.id_cut, hdetached.transactions _ hfresh, Call.caller_cut, if_pos hx]
      simp
    · rw [innermost_cut]
      exact hsent.from_parent
    · rwa [Call.caller_cut, if_pos hx]
  · obtain ⟨u, hu, hbelow, hdetached⟩ := hbelow s hlinked n (Nat.le_of_succ_le hn)
    rw [if_neg hx] at hu hbelow
    have hcaller : (c.cut x).caller = c.caller := by rw [Call.caller_cut, if_neg hx]
    refine ⟨u, by rwa [awaited_of_ne hx], ⟨?_, rfl, ?_⟩, by rwa [hcaller], ?_⟩
    · rw [Call.id_cut, hdetached.transactions _ hfresh, htr, hcaller, ← hsent.from_thread]
    · rw [innermost_cut]
      exact hsent.from_parent
    · exact ⟨fun t ht => hdetached.transactions t fun hmem => ht (List.mem_cons_of_mem _ hmem),
        hdetached.rest⟩

/-- **The loop over a stack.** -/
theorem Linked.detach {receiver : Option Nat} (hlinked : s.Linked receiver cs)
    (hnodup : (ids cs).Nodup) : Detaches s x receiver cs := by
  induction cs generalizing s receiver with
  | nil =>
    intro n _
    refine ⟨s, ?_, trivial, fun _ _ => rfl, rfl⟩
    rw [innermost_nil, awaited_nil, ite_self, detach_none]
  | cons c cs ih =>
    intro n hn
    obtain ⟨⟨tr, hreceived⟩, hlinked⟩ := hlinked
    obtain ⟨hfresh, hnodup⟩ := List.nodup_cons.mp hnodup
    have htr : s.transactions c.id = some tr := hreceived.transaction
    by_cases hx : receiver = some x
    · obtain ⟨hparent, hself⟩ := hreceived.to_parent x hx
      obtain ⟨n, rfl⟩ : ∃ m, n = m + 1 := ⟨n - 1, by simp at hn; omega⟩
      have hlinked' : (s.setTransaction c.id (some { tr with
          to_thread := none
          buffer := none })).Linked c.caller cs := by
        refine hlinked.congr fun t ht => ?_
        have hne : t ≠ c.id := fun he => hfresh (he ▸ ht)
        simp [hne]
      obtain ⟨u, hu, hbelow, hdetached⟩ := ih hlinked' hnodup n (Nat.le_of_succ_le_succ hn)
      rw [if_neg hself] at hu hbelow
      have hcaller : (c.cut x).caller = c.caller := by rw [Call.caller_cut, if_neg hself]
      refine ⟨u, ?_, ?_, hdetached.cons⟩
      · rw [if_pos hx, innermost_cons]
        rw [← hparent] at hu
        simp only [State.detach, htr, hreceived.to_thread.trans hx, if_true, hu]
      · rw [if_pos hx, cut_cons]
        refine ⟨⟨{ tr with to_thread := none, buffer := none }, ⟨?_, ?_, ?_⟩, rfl, nofun⟩,
          hcaller.symm ▸ hbelow⟩
        · rw [Call.id_cut, hdetached.transactions _ hfresh]
          simp
        · exact hreceived.from_thread.trans hcaller.symm
        · exact hreceived.from_parent.trans innermost_cut.symm
    · have hto : c.caller = some x → tr.to_thread ≠ some x := fun _ he =>
        hx (hreceived.to_thread.symm.trans he)
      obtain ⟨u, hu, hsent, hbelow, hdetached⟩ := hreceived.toSent.detach hto hlinked hfresh
        (fun s' hs' => ih hs' hnodup) hn
      refine ⟨u, by rwa [if_neg hx], ?_, hdetached⟩
      rw [if_neg hx, cut_cons]
      refine ⟨⟨_, hsent, hreceived.to_thread, fun y hy => ?_⟩, hbelow⟩
      obtain ⟨hparent, hself⟩ := hreceived.to_parent y hy
      have hyx : y ≠ x := fun he => hx (he ▸ hy)
      refine ⟨by rw [awaited_cut, if_neg hyx]; exact hparent, ?_⟩
      rw [Call.caller_cut]
      split
      · exact nofun
      · exact hself

/-- Where the innermost call is when a thread has gone that it was with, or whose list it was
on. -/
def placeAfter (x : Nat) : Place Nat WorkList → Place Nat WorkList
  | .running y => if y = x then .returning else .running y
  | .queued (.threadTodo p y) => if y = x then .returning else .queued (.threadTodo p y)
  | place => place

theorem Targets.to_thread {c : Call Nat Nat} {k : WorkList} (h : s.Targets c cs tr k)
    (hx : c.caller = some x) : tr.to_thread ≠ some x := by
  cases k with
  | todo p =>
    rw [h.1]
    exact nofun
  | threadTodo p y =>
    rw [h.1, ← hx]
    exact fun he => h.2.2.2 he.symm
  | delivered_death p => exact h.elim
  | async_todo n => exact h.elim

theorem PlacedAt.detach {place : Place Nat WorkList} (h : s.PlacedAt place cs)
    (hreturning : place ≠ .returning) (hnodup : (ids cs).Nodup) {n : Nat} (hn : cs.length ≤ n) :
    ∃ u, s.detach n x (Chain.top ⟨place, cs⟩ x) = some u ∧
      (u.setThread x none).PlacedAt (placeAfter x place) (cut x cs) ∧ Detached s u cs ∧
      ∀ t, innermost cs = some t → (∀ y, place ≠ .running y) →
        (u.transactions t).map (·.buffer) = (s.transactions t).map (·.buffer) := by
  cases cs with
  | nil => exact absurd rfl h.ne_nil
  | cons c cs =>
    cases place with
    | returning => exact absurd rfl hreturning
    | running y =>
      obtain ⟨u, hu, hlinked, hdetached⟩ := Linked.detach (x := x) h hnodup n hn
      have hthread : ∀ {receiver : Option Nat} {ds : List (Call Nat Nat)},
          u.Linked receiver ds → (u.setThread x none).Linked receiver ds :=
        fun h => h.congr fun _ _ => rfl
      refine ⟨u, ?_, ?_, hdetached, fun t _ hrunning => absurd rfl (hrunning y)⟩
      · simpa [Chain.top, eq_comm] using hu
      · by_cases hy : y = x
        · rw [if_pos (congrArg some hy)] at hlinked
          rw [placeAfter, if_pos hy]
          exact ⟨(hthread hlinked).sent, (hthread hlinked).2⟩
        · rw [if_neg fun he => hy (Option.some.inj he)] at hlinked
          rw [placeAfter, if_neg hy]
          exact hthread hlinked
    | queued k =>
      obtain ⟨hon, ⟨tr, hsent, htargets⟩, hlinked⟩ := h
      obtain ⟨hfresh, hnodup⟩ := List.nodup_cons.mp hnodup
      obtain ⟨u, hu, hsent', hlinked', hdetached⟩ := hsent.detach (x := x) htargets.to_thread
        hlinked hfresh (fun s' hs' => hs'.detach hnodup) hn
      have hlists : u.lists = s.lists := by rw [hdetached.rest]
      have hreleased : u.released = s.released := by rw [hdetached.rest]
      have hthreads : u.threads = s.threads := by rw [hdetached.rest]
      have hon' : (u.setThread x none).lists.on (.transaction (c.cut x).id) = some k := by
        rw [Call.id_cut, lists_setThread, hlists, hon]
      have hsent'' : (u.setThread x none).Sent (c.cut x) (cut x cs)
          { tr with from_thread := (c.cut x).caller } := hsent'.congr rfl
      have hlinked'' : (u.setThread x none).Linked (c.cut x).caller (cut x cs) :=
        hlinked'.congr fun _ _ => rfl
      refine ⟨u, hu, ?_, hdetached, ?_⟩
      · cases k with
        | todo p =>
          exact ⟨hon', ⟨_, hsent'', htargets.1, (congrFun hreleased p).trans htargets.2⟩, hlinked''⟩
        | threadTodo p y =>
          obtain ⟨hto, hproc, hwaits, hself⟩ := htargets
          by_cases hy : y = x
          · rw [placeAfter, if_pos hy]
            exact ⟨⟨_, hsent''⟩, hlinked''⟩
          · rw [placeAfter, if_neg hy]
            refine ⟨hon', ⟨_, hsent'', hto, ?_, ?_, ?_⟩, hlinked''⟩
            · simpa [hy, hthreads] using hproc
            · have hkept : awaited y (cut x cs) = awaited y cs := by rw [awaited_cut, if_neg hy]
              exact hkept ▸ hwaits
            · rw [Call.caller_cut]
              split
              · exact (Option.some_ne_none y).symm
              · exact hself
        | delivered_death p => exact htargets.elim
        | async_todo n => exact htargets.elim
      · rintro t ⟨rfl⟩ -
        have htr := hsent'.transaction
        rw [Call.id_cut] at htr
        rw [htr, hsent.transaction]
        rfl

theorem top_placeAfter {place : Place Nat WorkList} {y : Nat} :
    Chain.top ⟨placeAfter x place, cut x cs⟩ y =
      if y = x then none else Chain.top ⟨place, cs⟩ y := by
  have hwait : awaited y (cut x cs) = if y = x then none else awaited y cs := awaited_cut
  cases place with
  | returning => exact hwait
  | running z =>
    by_cases hz : z = x
    · simp only [placeAfter, if_pos hz, Chain.top, hwait]
      by_cases hy : y = x
      · simp [hy]
      · simp [hy, hz]
    · by_cases hyz : y = z
      · simp [placeAfter, hz, Chain.top, hyz]
      · simp [placeAfter, hz, Chain.top, hyz, hwait]
  | queued k =>
    cases k with
    | threadTodo p z =>
      by_cases hz : z = x
      · simp [placeAfter, hz, Chain.top, hwait]
      · simp [placeAfter, hz, Chain.top, hwait]
    | todo p => exact hwait
    | delivered_death p => exact hwait
    | async_todo n => exact hwait

theorem placeAfter_ne_running {place : Place Nat WorkList} {y : Nat} (h : place ≠ .running y) :
    placeAfter x place ≠ .running y := by
  cases place with
  | returning => exact nofun
  | running z =>
    rw [placeAfter]
    split
    · exact nofun
    · exact h
  | queued k =>
    cases k with
    | threadTodo p z =>
      rw [placeAfter]
      split <;> exact nofun
    | _ => exact nofun

/-- The place afterwards tells who carries out the call, but for the thread that has gone. -/
theorem running_of_placeAfter {place : Place Nat WorkList} {y : Nat} (hy : y ≠ x)
    (h : placeAfter x place ≠ .running y) : place ≠ .running y := by
  rintro rfl
  rw [placeAfter, if_neg hy] at h
  exact h rfl

/-- The innermost call is still listed, with its buffer. -/
theorem Holds.listed_cut {u : State} (h : s.Holds chains) {d : CallChain} (hd : chains r = some d)
    {t : Nat} {k : WorkList} (hon : s.lists.on (.transaction t) = some k)
    (hfirst : innermost d.calls = some t)
    (hbuffer : (∀ y, d.place ≠ .running y) →
      (u.transactions t).map (·.buffer) = (s.transactions t).map (·.buffer)) :
    u.Listed (set chains r (some ⟨placeAfter x d.place, cut x d.calls⟩)) t := by
  obtain ⟨tr, htr, ⟨hbuf, -⟩ | ⟨-, -, -, hno⟩⟩ := h.listed t k hon
  · have hrunning := (h.innermost_of_on hd (mem_ids_of_innermost hfirst) hon).2
    have hmap := hbuffer hrunning
    rw [htr, Option.map_some, hbuf] at hmap
    obtain ⟨tr', htr', hbuf'⟩ := Option.map_eq_some_iff.mp hmap
    refine ⟨tr', htr', Or.inl ⟨hbuf', r, _, set_self, fun y => ?_, ?_⟩⟩
    · exact placeAfter_ne_running (hrunning y)
    · rw [innermost_cut]
      exact hfirst
  · exact absurd (mem_ids_of_innermost hfirst) (hno r d hd)

/-- A call is the chain's under its thread, or under none if that has gone. -/
theorem mem_cut_caller {t y : Nat} {threads threads' : Nat → Option binder_thread}
    (hx : threads' x = none) (hgone : threads y = none → threads' y = none)
    (h : ⟨t, some y⟩ ∈ cs ∨ ⟨t, none⟩ ∈ cs ∧ threads y = none) :
    ⟨t, some y⟩ ∈ cut x cs ∨ ⟨t, none⟩ ∈ cut x cs ∧ threads' y = none := by
  rcases h with hcall | ⟨hcall, hnone⟩
  · have hcut := mem_cut_of_mem (x := x) hcall
    by_cases hyx : y = x
    · rw [Call.cut, if_pos (congrArg some hyx)] at hcut
      exact Or.inr ⟨hcut, hyx ▸ hx⟩
    · rw [Call.cut, if_neg fun he => hyx (Option.some.inj he)] at hcut
      exact Or.inl hcut
  · have hcut := mem_cut_of_mem (x := x) hcall
    rw [Call.cut, if_neg nofun] at hcut
    exact Or.inr ⟨hcut, hgone hnone⟩

/-- **A thread goes** that is in a chain. -/
theorem Holds.cutChain (h : s.Holds chains) {d : CallChain} (hd : chains r = some d)
    (hreturning : d.place ≠ .returning) (hin : d.top x ≠ none) {n : Nat}
    (hn : d.calls.length ≤ n) :
    ∃ u, s.detach n x (d.top x) = some u ∧ u = { s with transactions := u.transactions } ∧
      (u.setThread x none).Holds
        (set chains r (some ⟨placeAfter x d.place, cut x d.calls⟩)) := by
  obtain ⟨u, hu, hplaced, hdetached, hbuffer⟩ :=
    (h.placed r d hd).detach (x := x) hreturning (h.nodup r d hd) hn
  have hlists : u.lists = s.lists := by rw [hdetached.rest]
  have hthreads : u.threads = s.threads := by rw [hdetached.rest]
  have hanswers : u.answers = s.answers := by rw [hdetached.rest]
  have hcallers : u.callers = s.callers := by rw [hdetached.rest]
  have hlast : u.last_id = s.last_id := by rw [hdetached.rest]
  have hkeep : ∀ {y th}, (u.setThread x none).threads y = some th →
      y ≠ x ∧ s.threads y = some th := by
    intro y th hy
    by_cases hyx : y = x
    · simp [hyx] at hy
    · exact ⟨hyx, by simpa [hyx, hthreads] using hy⟩
  have htops : ∀ y, y ≠ x → topOf (some ⟨placeAfter x d.place, cut x d.calls⟩) y =
      topOf (chains r) y := by
    intro y hy
    rw [hd]
    exact top_placeAfter.trans (if_neg hy)
  refine ⟨u, hu, hdetached.rest, Change.holds (s := s) ?_ h⟩
  exact {
    transactions := fun r' c' hr hc' t ht =>
      hdetached.transactions t (h.not_mem_of_mem hc' ht (Ne.symm hr) hd)
    lists := fun r' c' t _ _ _ => by rw [lists_setThread, hlists]
    procs := fun y p hp => by
      by_cases hy : y = x
      · refine Or.inr fun r' hr => ?_
        by_contra htop
        rw [hy] at htop
        exact hr (h.unique htop (by rw [hd]; exact hin))
      · exact Or.inl (by simpa [hy, hthreads] using hp)
    gone := fun y hy => by simp [hthreads, hy]
    released := by rw [hdetached.rest]; rfl
    last_id := Nat.le_of_eq hlast.symm
    last_thread := by rw [hdetached.rest]; rfl
    placed := fun c' hc' => by cases hc'; exact hplaced
    nodup := fun c' hc' => by
      cases hc'
      rw [ids_cut]
      exact h.nodup r d hd
    key := fun _ => hlast.symm ▸ h.keys r d hd
    ids := fun c' hc' t ht => by
      cases hc'
      rw [ids_cut] at ht
      exact Or.inl ⟨d, hd, ht⟩
    stack := fun y th th' hy hy' => by
      obtain ⟨hne, hy'⟩ := hkeep hy'
      rw [hy] at hy'
      cases hy'
      exact Or.inl ⟨rfl, htops y hne⟩
    alive := fun y hy => by
      by_cases hyx : y = x
      · refine absurd ?_ hy
        exact top_placeAfter.trans (if_pos hyx)
      · rw [htops y hyx] at hy
        simpa [hyx, hthreads] using h.alive r y hy
    listed := fun t k hon => by
      rw [lists_setThread, hlists] at hon
      by_cases hfirst : innermost d.calls = some t
      · exact Or.inr (h.listed_cut hd hon hfirst (hbuffer t hfirst))
      · refine Or.inl ⟨hon, hdetached.transactions t fun hmem => ?_, fun c' hc' => ?_⟩
        · exact hfirst (h.innermost_of_on hd hmem hon).1
        · rw [hd] at hc'
          cases hc'
          exact hfirst
    errors := fun y th th' hy hy' htwo => by
      obtain ⟨hne, hy'⟩ := hkeep hy'
      rw [hy] at hy'
      cases hy'
      obtain ⟨hone, hwaits⟩ := h.errors y th hy htwo
      refine ⟨hone, ?_, Or.inl htwo⟩
      rintro ⟨c', hc', hplace, htop⟩
      cases hc'
      refine hwaits r ⟨d, hd, running_of_placeAfter hne hplace, ?_⟩
      rwa [top_placeAfter, if_neg hne] at htop
    known := fun t y hy => by
      have hy' : s.callers t = some y := hcallers ▸ hy
      by_cases hmem : t ∈ ids d.calls
      · obtain ⟨hnone, hcall⟩ := h.accounted_of_mem hd hmem hy'
        obtain ⟨hlt, hthread, -⟩ := h.known t y hy'
        refine Or.inr ⟨hlast.symm ▸ hlt, hthread, Or.inl ⟨?_, r, _, set_self, ?_⟩⟩
        · rw [answers_setThread, hanswers, hnone]
        · exact mem_cut_caller (by simp) (fun hgone => by simp [hthreads, hgone]) hcall
      · refine Or.inl ⟨hy', by rw [answers_setThread, hanswers], fun c' hc' hmem' => ?_⟩
        rw [hd] at hc'
        cases hc'
        exact absurd hmem' hmem
    unknown := fun t _ => by rw [answers_setThread, hanswers]
    freed := fun t _ ht =>
      (hdetached.transactions t fun hmem => (h.placed r d hd).exists t hmem ht).trans ht }

/-- **A thread goes** that is in no chain. -/
theorem Holds.forget (h : s.Holds chains) (hout : ∀ r, topOf (chains r) x = none) :
    (s.setThread x none).Holds chains := by
  have hnone := h.fresh
  have hempty : ∀ c, chains s.last_id ≠ some c := fun c => by
    rw [hnone]
    exact nofun
  have hkeep : ∀ {y th}, (s.setThread x none).threads y = some th → s.threads y = some th := by
    intro y th hy
    by_cases hyx : y = x
    · simp [hyx] at hy
    · simpa [hyx] using hy
  have hchange : Change s (s.setThread x none) chains s.last_id none := {
    transactions := fun _ _ _ _ _ _ => rfl
    lists := fun _ _ _ _ _ _ => rfl
    procs := fun y p hp => by
      by_cases hy : y = x
      · exact Or.inr fun r' _ => hy ▸ hout r'
      · exact Or.inl (by simpa [hy] using hp)
    gone := fun y hy => by simp [hy]
    released := rfl
    last_id := Nat.le_refl _
    last_thread := rfl
    placed := nofun
    nodup := nofun
    key := fun hne => absurd rfl hne
    ids := nofun
    stack := fun y th th' hy hy' => by
      rw [hkeep hy'] at hy
      cases hy
      exact Or.inl ⟨rfl, by rw [hnone]⟩
    alive := fun y hy => absurd rfl hy
    listed := fun t k hon => Or.inl ⟨hon, rfl, fun c hc => absurd hc (hempty c)⟩
    errors := fun y th th' hy hy' htwo => by
      rw [hkeep hy'] at hy
      cases hy
      exact ⟨(h.errors y th (hkeep hy') htwo).1, fun hw => Waits.top hw rfl, Or.inl htwo⟩
    known := fun t y hy => Or.inl ⟨hy, rfl, fun c hc => absurd hc (hempty c)⟩
    unknown := fun _ _ => rfl
    freed := fun _ _ ht => ht }
  have hholds := hchange.holds h
  rwa [set_none hnone] at hholds

/-! ## Failed calls and other threads -/

theorem setThread_comm {y : Nat} (hy : y ≠ x) (o o' : Option binder_thread) :
    (s.setThread x o).setThread y o' = (s.setThread y o').setThread x o := by
  unfold setThread
  congr 1
  funext z
  by_cases hz : z = x
  · simp [hz, Ne.symm hy]
  · simp [hz]

/-- What is done without a thread could be done with it as well. -/
theorem popTransaction_hidden {o : Option Nat} {u : State}
    (h : (s.setThread x none).popTransaction o t = some u) :
    ∃ u', s.popTransaction o t = some u' ∧ u = u'.setThread x none := by
  simp only [popTransaction, transactions_setThread] at h ⊢
  cases htr : s.transactions t with
  | none => simp [htr] at h
  | some tr =>
    cases o with
    | none =>
      simp only [htr, Option.some.injEq] at h
      exact ⟨_, rfl, h.symm⟩
    | some y =>
      by_cases hy : y = x
      · simp [htr, hy] at h
      · simp only [htr, threads_setThread, if_neg hy] at h
        cases hth : s.threads y with
        | none => simp [hth] at h
        | some th =>
          simp only [hth, Option.ite_none_right_eq_some, Option.some.injEq] at h
          obtain ⟨hcond, rfl⟩ := h
          refine ⟨((s.setThread y (some { th with
            transaction_stack := tr.from_parent })).setTransaction t none), ?_, ?_⟩
          · simp only [hth, if_pos hcond]
          · rw [setThread_comm hy]
            rfl

theorem sendFailedReply_hidden {n : Nat} {code : BitVec 32} {u : State}
    (h : State.sendFailedReply n (s.setThread x none) t code = some u) :
    ∃ u', State.sendFailedReply n s t code = some u' ∧ u = u'.setThread x none := by
  induction n generalizing s t with
  | zero => cases h
  | succ n ih =>
    simp only [State.sendFailedReply, transactions_setThread] at h ⊢
    cases htr : s.transactions t with
    | none => simp [htr] at h
    | some tr =>
      cases hfrom : tr.from_thread with
      | none =>
        simp only [htr, hfrom] at h ⊢
        cases hpop : (s.setThread x none).popTransaction none t with
        | none => simp [hpop] at h
        | some v =>
          obtain ⟨v', hv', rfl⟩ := popTransaction_hidden hpop
          simp only [hpop] at h
          simp only [hv']
          cases hparent : tr.from_parent with
          | none =>
            simp only [hparent, Option.some.injEq] at h
            exact ⟨v', rfl, h.symm⟩
          | some next =>
            simp only [hparent] at h
            exact ih h
      | some y =>
        simp only [htr, hfrom] at h ⊢
        by_cases hy : y = x
        · simp [hy] at h
        · simp only [threads_setThread, if_neg hy] at h
          cases hth : s.threads y with
          | none => simp [hth] at h
          | some th =>
            simp only [hth] at h ⊢
            by_cases haccepts : th.errors.accepts
            · simp only [haccepts, if_true, Option.map_eq_some_iff] at h ⊢
              obtain ⟨v, hpop, rfl⟩ := h
              obtain ⟨v', hv', rfl⟩ := popTransaction_hidden hpop
              refine ⟨_, ⟨v', hv', rfl⟩, ?_⟩
              rw [setThread_comm hy]
              rfl
            · simp only [haccepts, if_false, Option.some.injEq, Bool.false_eq_true] at h ⊢
              exact ⟨s, rfl, h.symm⟩

theorem releaseWork_hidden {ws : List Work} {u : State}
    (h : releaseWork ws (s.setThread x none) = some u) :
    ∃ u', releaseWork ws s = some u' ∧ u = u'.setThread x none := by
  induction ws generalizing s with
  | nil => exact ⟨s, rfl, (Option.some.inj h).symm⟩
  | cons w ws ih =>
    cases w with
    | transaction t =>
      simp only [releaseWork, transactions_setThread] at h ⊢
      cases htr : s.transactions t with
      | none => simp [htr] at h
      | some tr =>
        cases hbuffer : tr.buffer with
        | none => simp [htr, hbuffer] at h
        | some b =>
          simp only [htr, hbuffer] at h ⊢
          by_cases hnode : b.target_node
          · simp only [hnode, if_true, Option.bind_eq_some_iff] at h ⊢
            obtain ⟨v, hv, h⟩ := h
            obtain ⟨v', hv', rfl⟩ := sendFailedReply_hidden (s := s.unlink (.transaction t)) hv
            obtain ⟨u', hu', rfl⟩ := ih h
            exact ⟨u', ⟨v', hv', hu'⟩, rfl⟩
          · simp only [hnode, if_false, Bool.false_eq_true] at h ⊢
            exact ih (s := (s.unlink (.transaction t)).setTransaction t none) h
    | transaction_complete t => exact ih (s := s.unlink (.transaction_complete t)) h
    | other w => exact ih (s := s.unlink (.other w)) h

/-! ## The work of a list -/

/-- No call is on its way back: what is still owed is done before the lock is given up. -/
def Settled (chains : Chains) : Prop := ∀ r c, chains r = some c → c.place ≠ .returning

/-- The calls that are still on their way back are among the work. -/
def Owes (chains : Chains) (ws : List Work) : Prop :=
  ∀ r c, chains r = some c → c.place = .returning →
    ∃ t, innermost c.calls = some t ∧ .transaction t ∈ ws

/-- Work that is the innermost call of no chain can be left out. -/
theorem Owes.tail {w : Work} {ws : List Work} (h : Owes chains (w :: ws))
    (hw : ∀ r c, chains r = some c → c.place = .returning → ∀ t, innermost c.calls = some t →
      w ≠ .transaction t) : Owes chains ws := by
  intro r c hc hplace
  obtain ⟨t, hfirst, hmem⟩ := h r c hc hplace
  rcases List.mem_cons.mp hmem with he | hmem
  · exact absurd he.symm (hw r c hc hplace t hfirst)
  · exact ⟨t, hfirst, hmem⟩

theorem Settled.owes (h : Settled chains) (ws : List Work) : Owes chains ws :=
  fun r c hc hplace => absurd hplace (h r c hc)

theorem answered_place {d c' : CallChain} (h : d.answered = some c') :
    c'.place ≠ .returning := by
  unfold Chain.answered at h
  split at h
  · cases h
  · cases h
    exact nofun
  · cases h

/-- The lists change, but not for transactions that the chains have. -/
theorem Still.of_lists (htransactions : ∀ r c, chains r = some c → ∀ t ∈ ids c.calls,
      s'.transactions t = s.transactions t)
    (hlists : ∀ r c t, chains r = some c → innermost c.calls = some t →
      s'.lists.on (.transaction t) = s.lists.on (.transaction t))
    (hlisted : ∀ t k, s'.lists.on (.transaction t) = some k →
      s.lists.on (.transaction t) = some k ∧ s'.transactions t = s.transactions t)
    (hfreed : ∀ t, s.transactions t = none → s'.transactions t = none)
    (hrest : s' = { s with transactions := s'.transactions, lists := s'.lists }) :
    Still s s' chains where
  transactions := htransactions
  lists := hlists
  threads _ := by rw [hrest]
  errors y th th' hy hy' := by
    rw [hrest, hy] at hy'
    cases hy'
    exact Or.inl rfl
  listed t k hon := Or.inl (hlisted t k hon)
  freed t _ ht := hfreed t ht
  released := by rw [hrest]
  last_id := Nat.le_of_eq (by rw [hrest])
  last_thread := by rw [hrest]
  callers := by rw [hrest]
  answers := by rw [hrest]

/-- Other work is taken from its list. -/
theorem Still.unlink {w : Work} (hw : ∀ t, w ≠ .transaction t) : Still s (s.unlink w) chains :=
  Still.of_lists (fun _ _ _ _ _ => rfl) (fun _ _ t _ _ => by simp [(hw t).symm])
    (fun t k hon => ⟨by simpa [(hw t).symm] using hon, rfl⟩) (fun _ ht => ht) rfl

/-- A reply is taken from its list, and freed. -/
theorem Still.free (hout : ∀ r c, chains r = some c → t ∉ ids c.calls) :
    Still s ((s.unlink (.transaction t)).setTransaction t none) chains := by
  have hne : ∀ {r c u}, chains r = some c → u ∈ ids c.calls → u ≠ t :=
    fun hc hu he => hout _ _ hc (he ▸ hu)
  refine Still.of_lists (fun r c hc u hu => ?_) (fun r c u hc hu => ?_) (fun u k hon => ?_)
    (fun u hu => ?_) rfl
  · simp [hne hc hu]
  · simp [hne hc (mem_ids_of_innermost hu)]
  · by_cases hut : u = t
    · simp [hut] at hon
    · exact ⟨by simpa [hut] using hon, by simp [hut]⟩
  · simp [hu]

/-- A call that nobody carries out is taken from its list, and its sender is told. -/
theorem Holds.failListed (h : s.Holds chains) {d : CallChain} (hd : chains r = some d)
    (hplace : ∀ x, d.place ≠ .running x) (hfirst : innermost d.calls = some t)
    (code : BitVec 32) (hcode : code ≠ BR_OK) :
    ∃ u, State.sendFailedReply s.last_id (s.unlink (.transaction t)) t code = some u ∧
      u.Holds (set chains r (Chain.answered ⟨.returning, d.calls⟩)) ∧
      Answered (s.unlink (.transaction t)) u := by
  obtain ⟨place, calls⟩ := d
  cases calls with
  | nil => cases hfirst
  | cons c cs =>
    cases hfirst
    have hholds := h.unlinked hd hplace
    have hret : Returning (s.unlink (.transaction c.id))
        (set chains r (some ⟨.returning, c :: cs⟩)) r c.id (c :: cs) :=
      ⟨set_self, rfl, by simp⟩
    obtain ⟨u, hu, hholds', hanswered⟩ := hholds.sendFailedReply hret (h.length_le hd) code hcode
    rw [set_set] at hholds'
    exact ⟨u, hu, hholds', hanswered⟩

/-- What `binder_release_work` does to a state: the work is on no list any more, and nothing is
owed. -/
structure Released (s u : State) (ws : List Work) : Prop where
  chains : ∃ chains, u.Holds chains ∧ Settled chains
  on : ∀ w, u.lists.on w = if w ∈ ws then none else s.lists.on w
  released : u.released = s.released
  threads : ∀ y, u.threads y = none ↔ s.threads y = none

theorem Released.cons {w : Work} {ws : List Work} {u : State} (h : Released s' u ws)
    (hlists : s'.lists = s.lists.unlink w) (hreleased : s'.released = s.released)
    (hthreads : ∀ y, s'.threads y = none ↔ s.threads y = none) : Released s u (w :: ws) where
  chains := h.chains
  on v := by
    rw [h.on v, hlists, WorkLists.on_unlink]
    by_cases hv : v = w
    · simp [hv]
    · simp [hv]
  released := h.released.trans hreleased
  threads y := (h.threads y).trans (hthreads y)

/-- **`binder_release_work`** frees the replies of a list, and fails its calls. -/
theorem Holds.releaseWork (h : s.Holds chains) {ws : List Work} (howes : Owes chains ws)
    (hnodup : ws.Nodup) (hon : ∀ w ∈ ws, s.lists.on w ≠ none) :
    ∃ u, State.releaseWork ws s = some u ∧ Released s u ws := by
  induction ws generalizing s chains with
  | nil =>
    refine ⟨s, rfl, ⟨chains, h, fun r c hc hplace => ?_⟩, fun w => by simp, rfl, fun _ => Iff.rfl⟩
    obtain ⟨t, -, hmem⟩ := howes r c hc hplace
    cases hmem
  | cons w ws ih =>
    obtain ⟨hw, hnodup'⟩ := List.nodup_cons.mp hnodup
    have hrest : ∀ {s' : State}, s'.lists = s.lists.unlink w →
        ∀ v ∈ ws, s'.lists.on v ≠ none := by
      intro s' hlists v hv
      have hne : v ≠ w := fun he => hw (he ▸ hv)
      rw [hlists, WorkLists.on_unlink, if_neg hne]
      exact hon v (List.mem_cons_of_mem _ hv)
    by_cases hother : ∃ t, w = .transaction t
    · obtain ⟨t, rfl⟩ := hother
      obtain ⟨k, hk⟩ := Option.ne_none_iff_exists'.mp (hon _ List.mem_cons_self)
      obtain ⟨tr, htr, ⟨hbuffer, r, c, hc, hplace, hfirst⟩ | ⟨hbuffer, -, -, hout⟩⟩ :=
        h.listed t k hk
      · obtain ⟨v, hv, hholds, hanswered⟩ := h.failListed hc hplace hfirst
          BR_DEAD_REPLY (by decide)
        have hall : Owes (set chains r (Chain.answered ⟨.returning, c.calls⟩))
            (.transaction t :: ws) := by
          intro r' c' hc' hplace'
          rcases cases_set hc' with ⟨-, ho⟩ | ⟨-, hc'⟩
          · exact absurd hplace' (answered_place ho)
          · exact howes r' c' hc' hplace'
        have howes' := hall.tail fun r' c' hc' hplace' t' hfirst' => by
          rcases cases_set hc' with ⟨-, ho⟩ | ⟨hr, hc'⟩
          · exact absurd hplace' (answered_place ho)
          · rintro ⟨⟩
            exact h.not_mem_of_mem hc (mem_ids_of_innermost hfirst) hr hc'
              (mem_ids_of_innermost hfirst')
        obtain ⟨u, hu, hreleased⟩ := ih hholds howes' hnodup' (hrest hanswered.lists)
        refine ⟨u, ?_, hreleased.cons hanswered.lists hanswered.released hanswered.threads⟩
        simp only [State.releaseWork, htr, hbuffer, if_true]
        rw [hv, Option.bind_some, hu]
      · have hholds := (Still.free (s := s) hout).holds h
        have howes' : Owes chains ws := by
          refine howes.tail fun r c hc _ t' hfirst => ?_
          rintro ⟨⟩
          exact hout r c hc (mem_ids_of_innermost hfirst)
        obtain ⟨u, hu, hreleased⟩ := ih hholds howes' hnodup' (hrest rfl)
        refine ⟨u, ?_, hreleased.cons rfl rfl fun _ => Iff.rfl⟩
        simp only [State.releaseWork, htr, hbuffer, if_false, Bool.false_eq_true]
        exact hu
    · have hne : ∀ t, w ≠ .transaction t := fun t he => hother ⟨t, he⟩
      have hholds := (Still.unlink (s := s) hne).holds h
      have howes' : Owes chains ws := howes.tail fun r c _ _ t _ => hne t
      obtain ⟨u, hu, hreleased⟩ := ih hholds howes' hnodup' (hrest rfl)
      refine ⟨u, ?_, hreleased.cons rfl rfl fun _ => Iff.rfl⟩
      cases w with
      | transaction t => exact absurd rfl (hne t)
      | transaction_complete t => exact hu
      | other w => exact hu

/-! ## Which transaction a thread carries out -/

theorem Linked.to_thread {receiver : Option Nat} (h : s.Linked receiver cs)
    (ha : awaited x cs = some t) :
    ∃ tr, s.transactions t = some tr ∧ tr.to_thread ≠ some x := by
  induction cs generalizing receiver with
  | nil => cases ha
  | cons c cs ih =>
    obtain ⟨⟨tr, hreceived⟩, hlinked⟩ := h
    by_cases hx : c.caller = some x
    · rw [awaited_cons, if_pos hx] at ha
      cases ha
      refine ⟨tr, hreceived.transaction, fun hto => ?_⟩
      exact (hreceived.to_parent x (hreceived.to_thread.symm.trans hto)).2 hx
    · rw [awaited_of_ne hx] at ha
      exact ih hlinked ha

/-- The transaction on top of a stack has come to the thread if, and only if, the thread carries
it out. -/
theorem Holds.to_thread_iff (h : s.Holds chains) {d : CallChain} (hd : chains r = some d)
    (hreturning : d.place ≠ .returning) (htop : d.top x = some t) :
    ∃ tr, s.transactions t = some tr ∧ (tr.to_thread = some x ↔ d.place = .running x) := by
  obtain ⟨place, calls⟩ := d
  have hplaced := h.placed r _ hd
  have hwaits : ∀ {P : Prop}, ¬ P → (∃ tr, s.transactions t = some tr ∧ tr.to_thread ≠ some x) →
      ∃ tr, s.transactions t = some tr ∧ (tr.to_thread = some x ↔ P) := by
    rintro P hP ⟨tr, htr, hto⟩
    exact ⟨tr, htr, iff_of_false hto hP⟩
  cases calls with
  | nil => exact absurd rfl hplaced.ne_nil
  | cons c cs =>
    cases place with
    | returning => exact absurd rfl hreturning
    | running y =>
      by_cases hx : x = y
      · subst hx
        obtain ⟨⟨tr, hreceived⟩, -⟩ := hplaced
        have hc : c.id = t := by simpa [Chain.top] using htop
        exact ⟨tr, hc ▸ hreceived.transaction, iff_of_true hreceived.to_thread rfl⟩
      · have ha : awaited x (c :: cs) = some t := by simpa [Chain.top, hx] using htop
        exact hwaits (fun he => hx (Place.running.inj he).symm) (Linked.to_thread hplaced ha)
    | queued k =>
      obtain ⟨-, ⟨tr, hsent, htargets⟩, hlinked⟩ := hplaced
      have ha : awaited x (c :: cs) = some t := htop
      by_cases hx : c.caller = some x
      · rw [awaited_cons, if_pos hx] at ha
        cases ha
        exact hwaits Place.queued_ne_running ⟨tr, hsent.transaction, htargets.to_thread hx⟩
      · rw [awaited_of_ne hx] at ha
        exact hwaits Place.queued_ne_running (hlinked.to_thread ha)

/-! ## `binder_free_thread` and the release of a process -/

/-- What goes on in a state that the stacks of hold chains, and that nothing is owed in. -/
def Sound (s : State) : Prop := ∃ chains, s.Holds chains ∧ Settled chains

/-- The work of a thread that has gone is released. -/
theorem Holds.release (h : (s.setThread x none).Holds chains) {k : WorkList}
    (howes : Owes chains (s.lists.items k)) :
    ∃ u, State.releaseWork (s.lists.items k) s = some u ∧ Sound (u.setThread x none) := by
  obtain ⟨v, hv, hreleased⟩ := h.releaseWork howes (s.lists.nodup k) fun w hw => by
    rw [lists_setThread, (s.lists.mem_iff w k).mpr hw]
    exact nofun
  obtain ⟨u, hu, rfl⟩ := releaseWork_hidden hv
  exact ⟨u, hu, hreleased.chains⟩

/-- The call is with the thread, or on its list. -/
theorem PlacedAt.of_placeAfter {place : Place Nat WorkList} (h : s.PlacedAt place cs)
    (hreturning : place ≠ .returning) (hafter : placeAfter x place = .returning)
    (hx : s.threads x = some th) :
    place = .running x ∨ ∃ t, innermost cs = some t ∧
      Work.transaction t ∈ s.lists.items (.threadTodo th.proc x) := by
  cases cs with
  | nil => exact absurd rfl h.ne_nil
  | cons c cs =>
    cases place with
    | returning => exact absurd rfl hreturning
    | running y =>
      by_cases hy : y = x
      · exact Or.inl (hy ▸ rfl)
      · rw [placeAfter, if_neg hy] at hafter
        cases hafter
    | queued k =>
      obtain ⟨hon, ⟨tr, -, htargets⟩, -⟩ := h
      cases k with
      | threadTodo p y =>
        by_cases hy : y = x
        · subst hy
          have hproc := htargets.2.1
          rw [hx, Option.map_some, Option.some.injEq] at hproc
          exact Or.inr ⟨c.id, rfl, (s.lists.mem_iff _ _).mp (hproc ▸ hon)⟩
        · rw [placeAfter, if_neg hy] at hafter
          cases hafter
      | todo p => cases hafter
      | delivered_death p => cases hafter
      | async_todo n => cases hafter

theorem owes_of_settled {place : Place Nat WorkList} (h : Settled chains)
    {ws : List Work} (hplace : placeAfter x place = .returning →
      ∃ t, innermost cs = some t ∧ .transaction t ∈ ws) :
    Owes (set chains r (some ⟨placeAfter x place, cut x cs⟩)) ws := by
  intro r' c hc hreturning
  rcases cases_set hc with ⟨-, ho⟩ | ⟨-, hc⟩
  · cases ho
    rw [innermost_cut]
    exact hplace hreturning
  · exact absurd hreturning (h r' c hc)

/-- **A thread is freed**, and everybody who waits for it is told. -/
theorem Holds.freeThread (h : s.Holds chains) (hsettled : Settled chains)
    (hx : s.threads x = some th) : ∃ u, s.freeThread x = some u ∧ Sound u := by
  cases hstack : th.transaction_stack with
  | none =>
    obtain ⟨u, hu, hsound⟩ := (h.forget (h.top_of_idle hx hstack)).release
      (k := .threadTodo th.proc x) (hsettled.owes _)
    refine ⟨_, ?_, hsound⟩
    simp only [State.freeThread, hx, hstack, detach_none, Option.filter_none, Option.elim_none,
      Option.bind_some, hu, Option.map_some]
  | some t =>
    obtain ⟨r, htop⟩ := (h.stack x th hx t).mp hstack
    obtain ⟨d, hd, htop⟩ := topOf_eq_some.mp htop
    have hin : d.top x ≠ none := by rw [htop]; exact nofun
    have hlength : d.calls.length ≤ 2 * s.last_id := by
      have hle := h.length_le hd
      omega
    obtain ⟨v, hv, hrest, hholds⟩ := h.cutChain hd (hsettled r d hd) hin hlength
    obtain ⟨tr, htr, hrunning⟩ := h.to_thread_iff hd (hsettled r d hd) htop
    have hlists : v.lists = s.lists := by rw [hrest]
    rw [htop] at hv
    by_cases hplace : d.place = .running x
    · -- the sender of what the thread carries out is told
      have hfirst : innermost d.calls = some t := by
        simpa [Chain.top, hplace] using htop
      have hafter : placeAfter x d.place = .returning := by rw [hplace, placeAfter, if_pos rfl]
      rw [hafter] at hholds
      have hret : Returning (v.setThread x none)
          (set chains r (some ⟨.returning, cut x d.calls⟩)) r t (cut x d.calls) := by
        refine ⟨set_self, by rw [innermost_cut, hfirst], ?_⟩
        rw [lists_setThread, hlists]
        cases hon : s.lists.on (.transaction t) with
        | none => rfl
        | some k =>
          exact absurd hplace ((h.innermost_of_on hd (mem_ids_of_innermost hfirst) hon).2 x)
      have hlength' : (cut x d.calls).length ≤ v.last_id := by
        have hle := h.length_le hd
        rw [hrest]
        simpa [cut] using hle
      obtain ⟨w, hw, hholds', hanswered⟩ := hholds.sendFailedReply hret hlength' BR_DEAD_REPLY
        (by decide)
      obtain ⟨w, hsent, rfl⟩ := sendFailedReply_hidden hw
      rw [set_set] at hholds'
      have hsettled' : Settled (set chains r
          (Chain.answered ⟨.returning, cut x d.calls⟩)) := by
        intro r' c hc
        rcases cases_set hc with ⟨-, ho⟩ | ⟨-, hc⟩
        · exact answered_place ho
        · exact hsettled r' c hc
      obtain ⟨u, hu, hsound⟩ := hholds'.release (k := .threadTodo th.proc x) (hsettled'.owes _)
      refine ⟨_, ?_, hsound⟩
      have hsend : th.transaction_stack.filter (fun t => (s.transactions t).any
          fun tr => tr.to_thread = some x) = some t := by
        simp [hstack, htr, hrunning.mpr hplace]
      rw [hstack] at hsend
      simp only [State.freeThread, hx, hstack, hv, Option.bind_some, hsend, Option.elim_some,
        hsent, hu, Option.map_some]
    · have hsend : (some t).filter (fun t => (s.transactions t).any
          fun tr => tr.to_thread = some x) = none := by
        have hto : tr.to_thread ≠ some x := fun he => hplace (hrunning.mp he)
        simp [htr, hto]
      have howes : Owes (set chains r (some ⟨placeAfter x d.place, cut x d.calls⟩))
          (v.lists.items (.threadTodo th.proc x)) := by
        refine owes_of_settled hsettled fun hafter => ?_
        rw [hlists]
        exact ((h.placed r d hd).of_placeAfter (hsettled r d hd) hafter hx).resolve_left hplace
      obtain ⟨u, hu, hsound⟩ := hholds.release howes
      refine ⟨_, ?_, hsound⟩
      simp only [State.freeThread, hx, hstack, hv, Option.bind_some, hsend, Option.elim_none,
        hu, Option.map_some]

/-- **A process is released**, after its threads have been freed. -/
theorem Holds.releaseProc (h : s.Holds chains) (hsettled : Settled chains) (proc : Nat) :
    ∃ u, s.release proc = some u ∧ Sound u := by
  obtain ⟨u, hu, ⟨chains', hholds, hsettled'⟩, hon, hreleased, hthreads⟩ :=
    h.releaseWork (hsettled.owes _) (s.lists.nodup (.todo proc)) fun w hw => by
      rw [(s.lists.mem_iff w _).mpr hw]
      exact nofun
  refine ⟨_, by rw [State.release, hu]; rfl, chains', ?_, hsettled'⟩
  refine { hholds with placed := fun r d hd => ?_ }
  have hplaced := hholds.placed r d hd
  obtain ⟨place, calls⟩ := d
  cases calls with
  | nil => exact absurd rfl hplaced.ne_nil
  | cons c cs =>
    cases place with
    | returning => exact absurd rfl (hsettled' r _ hd)
    | running y => exact Linked.congr hplaced fun _ _ => rfl
    | queued k =>
      obtain ⟨honk, ⟨tr, hsent, htargets⟩, hlinked⟩ := hplaced
      refine ⟨honk, ⟨tr, hsent.congr rfl, ?_⟩, hlinked.congr fun _ _ => rfl⟩
      cases k with
      | todo p =>
        have hp : p ≠ proc := by
          rintro rfl
          rw [hon] at honk
          split at honk
          · cases honk
          · next hmem => exact hmem ((s.lists.mem_iff _ _).mp honk)
        exact ⟨htargets.1, (if_neg hp).trans htargets.2⟩
      | _ => exact htargets

end State

end Cdroid.Driver.Stacks
