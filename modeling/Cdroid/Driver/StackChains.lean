import Cdroid.Driver.Stacks
import Cdroid.Lib.CallChains

/-! The stacks of the threads as chains of calls. A chain is changed by one step of one call; all
other chains are left alone. -/

namespace Cdroid.Driver.Stacks
open Cdroid.Lib Cdroid.Lib.CallChains
open Cdroid.Driver.ThreadRead (Errors BR_OK BR_FAILED_REPLY BR_TRANSACTION_COMPLETE)

abbrev CallChain := CallChains.Chain Nat Nat WorkList

/-- The chains, each under the first transaction that it had. -/
abbrev Chains := Nat → Option CallChain

def topOf (o : Option CallChain) (x : Nat) : Option Nat := o.bind (·.top x)

/-- The thread waits for an answer. -/
def Waits (o : Option CallChain) (x : Nat) : Prop :=
  ∃ c, o = some c ∧ c.place ≠ .running x ∧ c.top x ≠ none

def set (chains : Chains) (r : Nat) (o : Option CallChain) : Chains :=
  fun r' => if r' = r then o else chains r'

namespace State
variable (s : State)

/-- A call that was sent, and the calls that it was made for. -/
structure Sent (c : Call Nat Nat) (cs : List (Call Nat Nat)) (tr : binder_transaction) : Prop where
  transaction : s.transactions c.id = some tr
  from_thread : tr.from_thread = c.caller
  from_parent : tr.from_parent = innermost cs

/-- The call has come to a thread, and lies on its stack over what the thread waits for. -/
structure Received (receiver : Option Nat) (c : Call Nat Nat) (cs : List (Call Nat Nat))
    (tr : binder_transaction) : Prop extends Sent s c cs tr where
  to_thread : tr.to_thread = receiver
  to_parent : ∀ x, receiver = some x → tr.to_parent = awaited x cs ∧ c.caller ≠ some x

/-- Each call has come to the thread that made the next one. -/
def Linked : Option Nat → List (Call Nat Nat) → Prop
  | _, [] => True
  | receiver, c :: cs => (∃ tr, s.Received receiver c cs tr) ∧ Linked c.caller cs

/-- Which threads may take a call from its list: all of the process, or one that waits for a call
of the chain. -/
def Targets (c : Call Nat Nat) (cs : List (Call Nat Nat)) (tr : binder_transaction) :
    WorkList → Prop
  | .todo p => tr.to_thread = none ∧ s.released p = false
  | .threadTodo p y => tr.to_thread = some y ∧ (s.threads y).map (·.proc) = some p ∧
      awaited y cs ≠ none ∧ c.caller ≠ some y
  | _ => False

def PlacedAt : Place Nat WorkList → List (Call Nat Nat) → Prop
  | _, [] => False
  | .running x, c :: cs => s.Linked (some x) (c :: cs)
  | .queued k, c :: cs => s.lists.on (.transaction c.id) = some k ∧
      (∃ tr, s.Sent c cs tr ∧ s.Targets c cs tr k) ∧ s.Linked c.caller cs
  | .returning, c :: cs => (∃ tr, s.Sent c cs tr) ∧ s.Linked c.caller cs

/-- A transaction on a list is a call that has not been taken, or a reply. -/
def Listed (chains : Chains) (t : Nat) : Prop :=
  ∃ tr, s.transactions t = some tr ∧
    ((tr.buffer = some ⟨true⟩ ∧ ∃ r c, chains r = some c ∧ (∀ x, c.place ≠ .running x) ∧
        innermost c.calls = some t) ∨
      (tr.buffer = some ⟨false⟩ ∧ tr.from_thread = none ∧ t < s.last_id ∧
        ∀ r c, chains r = some c → t ∉ ids c.calls))

/-- A call of the thread is in a chain and has no answer yet, or it has left its chain, is freed,
and has one, unless the thread has gone. -/
def Accounted (chains : Chains) (t x : Nat) : Prop :=
  (s.answers t = [] ∧ ∃ r c, chains r = some c ∧ (⟨t, some x⟩ ∈ c.calls ∨
    (⟨t, none⟩ ∈ c.calls ∧ s.threads x = none))) ∨
  ((∀ r c, chains r = some c → t ∉ ids c.calls) ∧ s.transactions t = none ∧
    ((s.answers t).length = 1 ∨ (s.answers t = [] ∧ s.threads x = none)))

/-- The stacks hold these chains. -/
structure Holds (chains : Chains) : Prop where
  placed : ∀ r c, chains r = some c → s.PlacedAt c.place c.calls
  nodup : ∀ r c, chains r = some c → (ids c.calls).Nodup
  apart : ∀ r r' c c', chains r = some c → chains r' = some c' →
    ∀ t ∈ ids c.calls, t ∈ ids c'.calls → r = r'
  old : ∀ r c, chains r = some c → ∀ t ∈ ids c.calls, t < s.last_id
  keys : ∀ r c, chains r = some c → r < s.last_id
  alive : ∀ r x, topOf (chains r) x ≠ none → s.threads x ≠ none
  stack : ∀ x th, s.threads x = some th →
    ∀ t, th.transaction_stack = some t ↔ ∃ r, topOf (chains r) x = some t
  listed : ∀ t k, s.lists.on (.transaction t) = some k → s.Listed chains t
  errors : ∀ x th, s.threads x = some th → th.errors.return_error2 ≠ BR_OK →
    th.errors.return_error ≠ BR_OK ∧ ∀ r, ¬ Waits (chains r) x
  known : ∀ t x, s.callers t = some x → t < s.last_id ∧ x < s.last_thread ∧ s.Accounted chains t x
  unknown : ∀ t, s.last_id ≤ t → s.answers t = []
  threads : ∀ x, s.last_thread ≤ x → s.threads x = none

/-! ## Fields -/

section
variable {s} {x y t u : Nat} {th : Option binder_thread} {tr : Option binder_transaction}

@[simp] theorem threads_setThread :
    (s.setThread x th).threads y = if y = x then th else s.threads y := rfl

@[simp] theorem transactions_setThread : (s.setThread x th).transactions = s.transactions := rfl

@[simp] theorem lists_setThread : (s.setThread x th).lists = s.lists := rfl

@[simp] theorem answers_setThread : (s.setThread x th).answers = s.answers := rfl

@[simp] theorem last_id_setThread : (s.setThread x th).last_id = s.last_id := rfl

@[simp] theorem transactions_setTransaction :
    (s.setTransaction t tr).transactions u = if u = t then tr else s.transactions u := rfl

@[simp] theorem threads_setTransaction : (s.setTransaction t tr).threads = s.threads := rfl

@[simp] theorem lists_setTransaction : (s.setTransaction t tr).lists = s.lists := rfl

@[simp] theorem answers_setTransaction : (s.setTransaction t tr).answers = s.answers := rfl

@[simp] theorem last_id_setTransaction : (s.setTransaction t tr).last_id = s.last_id := rfl

@[simp] theorem transactions_answer (a : Answer) :
    (s.answer t a).transactions = s.transactions := rfl

@[simp] theorem threads_answer (a : Answer) : (s.answer t a).threads = s.threads := rfl

@[simp] theorem lists_answer (a : Answer) : (s.answer t a).lists = s.lists := rfl

@[simp] theorem answers_answer (a : Answer) :
    (s.answer t a).answers u = if u = t then s.answers u ++ [a] else s.answers u := rfl

@[simp] theorem transactions_unlink (w : Work) : (s.unlink w).transactions = s.transactions := rfl

@[simp] theorem threads_unlink (w : Work) : (s.unlink w).threads = s.threads := rfl

@[simp] theorem answers_unlink (w : Work) : (s.unlink w).answers = s.answers := rfl

@[simp] theorem lists_unlink (w : Work) : (s.unlink w).lists = s.lists.unlink w := rfl

end

/-! ## Chains that are left alone -/

section
variable {s} {s' : State} {c : Call Nat Nat} {cs : List (Call Nat Nat)}

theorem Sent.congr {tr : binder_transaction} (h : s.Sent c cs tr)
    (ht : s'.transactions c.id = s.transactions c.id) : s'.Sent c cs tr :=
  ⟨ht.trans h.transaction, h.from_thread, h.from_parent⟩

theorem Linked.congr {receiver : Option Nat} (h : s.Linked receiver cs)
    (ht : ∀ t ∈ ids cs, s'.transactions t = s.transactions t) : s'.Linked receiver cs := by
  induction cs generalizing receiver with
  | nil => trivial
  | cons c cs ih =>
    obtain ⟨⟨tr, hc⟩, hcs⟩ := h
    have hfirst := ht c.id List.mem_cons_self
    exact ⟨⟨tr, hc.toSent.congr hfirst, hc.to_thread, hc.to_parent⟩,
      ih hcs fun t hmem => ht t (List.mem_cons_of_mem _ hmem)⟩

theorem Targets.congr {tr : binder_transaction} {k : WorkList} (h : s.Targets c cs tr k)
    (hreleased : s'.released = s.released)
    (hprocs : ∀ y p, awaited y cs ≠ none → (s.threads y).map (·.proc) = some p →
      (s'.threads y).map (·.proc) = some p) :
    s'.Targets c cs tr k := by
  cases k with
  | todo p => exact ⟨h.1, hreleased ▸ h.2⟩
  | threadTodo p y => exact ⟨h.1, hprocs y p h.2.2.1 h.2.1, h.2.2⟩
  | _ => exact h

theorem PlacedAt.congr {place : Place Nat WorkList} (h : s.PlacedAt place cs)
    (ht : ∀ t ∈ ids cs, s'.transactions t = s.transactions t)
    (hlists : ∀ t, innermost cs = some t →
      s'.lists.on (.transaction t) = s.lists.on (.transaction t))
    (hreleased : s'.released = s.released)
    (hprocs : ∀ y p, awaited y cs ≠ none → (s.threads y).map (·.proc) = some p →
      (s'.threads y).map (·.proc) = some p) :
    s'.PlacedAt place cs := by
  cases cs with
  | nil => exact h
  | cons c cs =>
    have hfirst := ht c.id List.mem_cons_self
    have hrest : ∀ t ∈ ids cs, s'.transactions t = s.transactions t :=
      fun t hmem => ht t (List.mem_cons_of_mem _ hmem)
    cases place with
    | running x => exact Linked.congr h ht
    | queued k =>
      obtain ⟨hon, ⟨tr, hsent, htarget⟩, hcs⟩ := h
      have htarget' := htarget.congr hreleased fun y p hy => hprocs y p (awaited_cons_ne_none hy)
      exact ⟨(hlists _ rfl).trans hon, ⟨tr, hsent.congr hfirst, htarget'⟩, hcs.congr hrest⟩
    | returning =>
      obtain ⟨⟨tr, hsent⟩, hcs⟩ := h
      exact ⟨⟨tr, hsent.congr hfirst⟩, hcs.congr hrest⟩

theorem Linked.exists {receiver : Option Nat} (h : s.Linked receiver cs) :
    ∀ t ∈ ids cs, s.transactions t ≠ none := by
  induction cs generalizing receiver with
  | nil => exact nofun
  | cons c cs ih =>
    obtain ⟨⟨tr, hreceived⟩, hlinked⟩ := h
    intro t ht
    rcases List.mem_cons.mp ht with rfl | ht
    · rw [hreceived.transaction]
      exact nofun
    · exact ih hlinked t ht

/-- What a chain has is not freed. -/
theorem PlacedAt.exists {place : Place Nat WorkList} (h : s.PlacedAt place cs) :
    ∀ t ∈ ids cs, s.transactions t ≠ none := by
  cases cs with
  | nil => exact nofun
  | cons c cs =>
    have hsent : ∀ {tr}, s.Sent c cs tr → s.Linked c.caller cs →
        ∀ t ∈ ids (c :: cs), s.transactions t ≠ none := by
      intro tr hsent hlinked t ht
      rcases List.mem_cons.mp ht with rfl | ht
      · rw [hsent.transaction]
        exact nofun
      · exact hlinked.exists t ht
    cases place with
    | running x => exact Linked.exists h
    | queued k =>
      obtain ⟨-, ⟨tr, h, -⟩, hlinked⟩ := h
      exact hsent h hlinked
    | returning =>
      obtain ⟨⟨tr, h⟩, hlinked⟩ := h
      exact hsent h hlinked

theorem PlacedAt.ne_nil {place : Place Nat WorkList} (h : s.PlacedAt place cs) : cs ≠ [] := by
  rintro rfl
  cases place <;> exact h

end

/-! ## What the chains say -/

section
variable {chains : Chains} {o : Option CallChain} {c : CallChain} {r r' x t t' : Nat}

theorem topOf_eq_some : topOf o x = some t ↔ ∃ c, o = some c ∧ c.top x = some t := by
  simp [topOf, Option.bind_eq_some_iff]

theorem mem_of_top (h : c.top x = some t) : t ∈ ids c.calls := by
  have hmem : ∀ {cs : List (Call Nat Nat)}, awaited x cs = some t → t ∈ ids cs :=
    fun hp => mem_ids.mpr ⟨_, mem_of_awaited hp, rfl⟩
  obtain ⟨place, calls⟩ := c
  cases place with
  | running y =>
    simp only [Chain.top] at h
    split at h
    · cases calls with
      | nil => cases h
      | cons d ds =>
        cases h
        exact List.mem_cons_self
    · exact hmem h
  | queued k => exact hmem h
  | returning => exact hmem h

theorem top_ne_none (h : awaited x c.calls ≠ none) : c.top x ≠ none := by
  obtain ⟨place, calls⟩ := c
  cases place with
  | running y =>
    simp only [Chain.top]
    split
    · cases calls with
      | nil => exact h
      | cons d ds => exact Option.some_ne_none _
    · exact h
  | queued k => exact h
  | returning => exact h

@[simp] theorem set_self : set chains r o r = o := if_pos rfl

theorem set_ne (h : r' ≠ r) : set chains r o r' = chains r' := if_neg h

/-- Who is in a chain is in no other one. -/
theorem Holds.unique {s : State} (h : s.Holds chains) (hx : topOf (chains r) x ≠ none)
    (hx' : topOf (chains r') x ≠ none) : r = r' := by
  obtain ⟨t, ht⟩ := Option.ne_none_iff_exists'.mp hx
  obtain ⟨t', ht'⟩ := Option.ne_none_iff_exists'.mp hx'
  obtain ⟨th, hth⟩ := Option.ne_none_iff_exists'.mp (h.alive r x hx)
  have hone := (h.stack x th hth t).mpr ⟨r, ht⟩
  have htwo := (h.stack x th hth t').mpr ⟨r', ht'⟩
  obtain rfl : t = t' := Option.some.inj (hone.symm.trans htwo)
  obtain ⟨c, hc, htop⟩ := topOf_eq_some.mp ht
  obtain ⟨c', hc', htop'⟩ := topOf_eq_some.mp ht'
  exact h.apart r r' c c' hc hc' t (mem_of_top htop) (mem_of_top htop')

theorem Waits.top (h : Waits o x) : topOf o x ≠ none := by
  obtain ⟨c, rfl, -, htop⟩ := h
  exact htop

end

/-! ## One chain changes -/

/-- The chain at `r` becomes `o`. -/
structure Change (s s' : State) (chains : Chains) (r : Nat) (o : Option CallChain) : Prop where
  transactions : ∀ r' c, r' ≠ r → chains r' = some c →
    ∀ t ∈ ids c.calls, s'.transactions t = s.transactions t
  lists : ∀ r' c t, r' ≠ r → chains r' = some c → innermost c.calls = some t →
    s'.lists.on (.transaction t) = s.lists.on (.transaction t)
  procs : ∀ y p, (s.threads y).map (·.proc) = some p →
    (s'.threads y).map (·.proc) = some p ∨ ∀ r', r' ≠ r → topOf (chains r') y = none
  gone : ∀ y, s.threads y = none → s'.threads y = none
  released : s'.released = s.released
  last_id : s.last_id ≤ s'.last_id
  last_thread : s'.last_thread = s.last_thread
  placed : ∀ c', o = some c' → s'.PlacedAt c'.place c'.calls
  nodup : ∀ c', o = some c' → (ids c'.calls).Nodup
  key : o ≠ none → r < s'.last_id
  ids : ∀ c', o = some c' → ∀ t ∈ ids c'.calls,
    (∃ c, chains r = some c ∧ t ∈ CallChains.ids c.calls) ∨ s.last_id ≤ t ∧ t < s'.last_id
  stack : ∀ x th th', s.threads x = some th → s'.threads x = some th' →
    (th'.transaction_stack = th.transaction_stack ∧ topOf o x = topOf (chains r) x) ∨
      (th'.transaction_stack = topOf o x ∧
        (th.transaction_stack = none ∨ topOf (chains r) x ≠ none))
  alive : ∀ x, topOf o x ≠ none → s'.threads x ≠ none
  listed : ∀ t k, s'.lists.on (.transaction t) = some k →
    (s.lists.on (.transaction t) = some k ∧ s'.transactions t = s.transactions t ∧
        ∀ c, chains r = some c → innermost c.calls ≠ some t) ∨
      s'.Listed (set chains r o) t
  errors : ∀ x th th', s.threads x = some th → s'.threads x = some th' →
    th'.errors.return_error2 ≠ BR_OK → th'.errors.return_error ≠ BR_OK ∧ ¬ Waits o x ∧
      (th.errors.return_error2 ≠ BR_OK ∨ topOf (chains r) x ≠ none)
  known : ∀ t x, s'.callers t = some x →
    (s.callers t = some x ∧ s'.answers t = s.answers t ∧
        ∀ c, chains r = some c → t ∈ CallChains.ids c.calls →
          ∃ c', o = some c' ∧ ∀ caller, ⟨t, caller⟩ ∈ c.calls → ⟨t, caller⟩ ∈ c'.calls) ∨
      (t < s'.last_id ∧ x < s.last_thread ∧ s'.Accounted (set chains r o) t x)
  unknown : ∀ t, s'.last_id ≤ t → s'.answers t = s.answers t
  freed : ∀ t, t < s.last_id → s.transactions t = none → s'.transactions t = none

section
variable {s s' : State} {chains : Chains} {o : Option CallChain} {r : Nat}

theorem Change.proc (h : Change s s' chains r o) {r' y p : Nat} (hr : r' ≠ r)
    (hin : topOf (chains r') y ≠ none) (hy : (s.threads y).map (·.proc) = some p) :
    (s'.threads y).map (·.proc) = some p := by
  rcases h.procs y p hy with hsame | hnot
  · exact hsame
  · exact absurd (hnot r' hr) hin

/-- What the chains were that have not been changed. -/
theorem cases_set {r' : Nat} {c : CallChain} (h : set chains r o r' = some c) :
    (r' = r ∧ o = some c) ∨ (r' ≠ r ∧ chains r' = some c) := by
  by_cases hr : r' = r
  · rw [hr, set_self] at h
    exact Or.inl ⟨hr, h⟩
  · rw [set_ne hr] at h
    exact Or.inr ⟨hr, h⟩

/-- A transaction of another chain is none of the changed chain. -/
theorem Change.apart (h : Change s s' chains r o) (hs : s.Holds chains) {r' t : Nat}
    {c c' : CallChain} (hr : r' ≠ r) (hc : chains r' = some c) (ht : t ∈ CallChains.ids c.calls)
    (ho : o = some c') : t ∉ CallChains.ids c'.calls := by
  intro ht'
  rcases h.ids c' ho t ht' with ⟨d, hd, hmem⟩ | ⟨hle, -⟩
  · exact hr (hs.apart r' r c d hc hd t ht hmem)
  · exact absurd (hs.old r' c hc t ht) (Nat.not_lt.mpr hle)

theorem Change.listed_of_old (h : Change s s' chains r o) (hs : s.Holds chains) {t : Nat}
    {k : WorkList} (hon : s.lists.on (.transaction t) = some k)
    (htr : s'.transactions t = s.transactions t)
    (hnot : ∀ c, chains r = some c → innermost c.calls ≠ some t) :
    s'.Listed (set chains r o) t := by
  obtain ⟨tr, hsome, ⟨hbuffer, r', c, hc, hplace, hfirst⟩ | ⟨hbuffer, hfrom, hlt, hno⟩⟩ :=
    hs.listed t k hon
  · have hr : r' ≠ r := by
      rintro rfl
      exact hnot c hc hfirst
    exact ⟨tr, htr.trans hsome, Or.inl ⟨hbuffer, r', c, (set_ne hr).trans hc, hplace, hfirst⟩⟩
  · refine ⟨tr, htr.trans hsome, Or.inr ⟨hbuffer, hfrom, Nat.lt_of_lt_of_le hlt h.last_id, ?_⟩⟩
    intro r' c hc hmem
    rcases cases_set hc with ⟨-, ho⟩ | ⟨-, hc⟩
    · rcases h.ids c ho t hmem with ⟨d, hd, hmem⟩ | ⟨hle, -⟩
      · exact hno r d hd hmem
      · exact absurd hlt (Nat.not_lt.mpr hle)
    · exact hno r' c hc hmem

theorem Change.accounted_of_old (h : Change s s' chains r o) (hs : s.Holds chains) {t x : Nat}
    (hx : s.callers t = some x) (hanswers : s'.answers t = s.answers t)
    (hkept : ∀ c, chains r = some c → t ∈ CallChains.ids c.calls →
      ∃ c', o = some c' ∧ ∀ caller, ⟨t, caller⟩ ∈ c.calls → ⟨t, caller⟩ ∈ c'.calls) :
    s'.Accounted (set chains r o) t x := by
  obtain ⟨hlt, -, ⟨hnone, r', c, hc, hcall⟩ | ⟨hno, hfreed, hdone⟩⟩ := hs.known t x hx
  · refine Or.inl ⟨hanswers.trans hnone, ?_⟩
    have hmem : t ∈ CallChains.ids c.calls := by
      rcases hcall with hcall | ⟨hcall, -⟩
      · exact mem_ids.mpr ⟨_, hcall, rfl⟩
      · exact mem_ids.mpr ⟨_, hcall, rfl⟩
    by_cases hr : r' = r
    · subst hr
      obtain ⟨c', ho, hall⟩ := hkept c hc hmem
      refine ⟨r', c', by rw [set_self, ho], ?_⟩
      rcases hcall with hcall | ⟨hcall, hgone⟩
      · exact Or.inl (hall _ hcall)
      · exact Or.inr ⟨hall _ hcall, h.gone x hgone⟩
    · refine ⟨r', c, (set_ne hr).trans hc, ?_⟩
      rcases hcall with hcall | ⟨hcall, hgone⟩
      · exact Or.inl hcall
      · exact Or.inr ⟨hcall, h.gone x hgone⟩
  · refine Or.inr ⟨fun r' c hc hmem => ?_, h.freed t hlt hfreed, ?_⟩
    · rcases cases_set hc with ⟨-, ho⟩ | ⟨-, hc⟩
      · rcases h.ids c ho t hmem with ⟨d, hd, hmem⟩ | ⟨hle, -⟩
        · exact hno r d hd hmem
        · exact absurd hlt (Nat.not_lt.mpr hle)
      · exact hno r' c hc hmem
    · rw [hanswers]
      rcases hdone with hone | ⟨hnone, hgone⟩
      · exact Or.inl hone
      · exact Or.inr ⟨hnone, h.gone x hgone⟩

/-- **Frame rule.** The chains are what they were, but for the one that is changed. -/
theorem Change.holds (h : Change s s' chains r o) (hs : s.Holds chains) :
    s'.Holds (set chains r o) where
  placed r' c hc := by
    rcases cases_set hc with ⟨-, ho⟩ | ⟨hr, hc⟩
    · exact h.placed c ho
    · refine (hs.placed r' c hc).congr (h.transactions r' c hr hc)
        (fun t ht => h.lists r' c t hr hc ht) h.released fun y p hy => h.proc hr ?_
      rw [show topOf (chains r') y = c.top y by rw [topOf, hc]; rfl]
      exact top_ne_none hy
  nodup r' c hc := by
    rcases cases_set hc with ⟨-, ho⟩ | ⟨-, hc⟩
    · exact h.nodup c ho
    · exact hs.nodup r' c hc
  apart r₁ r₂ c₁ c₂ h₁ h₂ t ht₁ ht₂ := by
    rcases cases_set h₁ with ⟨rfl, ho₁⟩ | ⟨hr₁, hc₁⟩
    · rcases cases_set h₂ with ⟨rfl, -⟩ | ⟨hr₂, hc₂⟩
      · rfl
      · exact absurd ht₁ (h.apart hs hr₂ hc₂ ht₂ ho₁)
    · rcases cases_set h₂ with ⟨rfl, ho₂⟩ | ⟨-, hc₂⟩
      · exact absurd ht₂ (h.apart hs hr₁ hc₁ ht₁ ho₂)
      · exact hs.apart r₁ r₂ c₁ c₂ hc₁ hc₂ t ht₁ ht₂
  old r' c hc t ht := by
    have hlast := h.last_id
    rcases cases_set hc with ⟨-, ho⟩ | ⟨-, hc⟩
    · rcases h.ids c ho t ht with ⟨d, hd, hmem⟩ | ⟨-, hlt⟩
      · have hlt := hs.old r d hd t hmem
        omega
      · exact hlt
    · have hlt := hs.old r' c hc t ht
      omega
  keys r' c hc := by
    rcases cases_set hc with ⟨rfl, ho⟩ | ⟨-, hc⟩
    · exact h.key (by rw [ho]; exact nofun)
    · exact Nat.lt_of_lt_of_le (hs.keys r' c hc) h.last_id
  alive r' x htop := by
    by_cases hr : r' = r
    · rw [hr, set_self] at htop
      exact h.alive x htop
    · rw [set_ne hr] at htop
      obtain ⟨th, hth⟩ := Option.ne_none_iff_exists'.mp (hs.alive r' x htop)
      have hproc := h.proc hr htop (p := th.proc) (by rw [hth]; rfl)
      intro hnone
      rw [hnone] at hproc
      cases hproc
  stack x th' hth' t := by
    cases hth : s.threads x with
    | none => exact absurd hth' (by simp [h.gone x hth])
    | some th =>
      rcases h.stack x th th' hth hth' with ⟨hsame, htop⟩ | ⟨htop, hfree⟩
      · rw [hsame, hs.stack x th hth t]
        constructor
        · rintro ⟨r', hr'⟩
          refine ⟨r', ?_⟩
          by_cases hr : r' = r
          · rw [hr, set_self, htop, ← hr, hr']
          · rw [set_ne hr, hr']
        · rintro ⟨r', hr'⟩
          refine ⟨r', ?_⟩
          by_cases hr : r' = r
          · rw [hr, set_self, htop] at hr'
            rw [hr, hr']
          · rwa [set_ne hr] at hr'
      · -- the thread is in no other chain
        have hnot : ∀ r' u, r' ≠ r → topOf (chains r') x ≠ some u := by
          intro r' u hr hu
          rcases hfree with hnone | hin
          · rw [(hs.stack x th hth u).mpr ⟨r', hu⟩] at hnone
            cases hnone
          · exact hr (hs.unique (by rw [hu]; exact nofun) hin)
        rw [htop]
        constructor
        · exact fun ht => ⟨r, by rw [set_self, ht]⟩
        · rintro ⟨r', hr'⟩
          by_cases hr : r' = r
          · rwa [hr, set_self] at hr'
          · rw [set_ne hr] at hr'
            exact absurd hr' (hnot r' t hr)
  listed t k hon := by
    rcases h.listed t k hon with ⟨hold, htr, hnot⟩ | hnew
    · exact h.listed_of_old hs hold htr hnot
    · exact hnew
  errors x th' hth' htwo := by
    cases hth : s.threads x with
    | none => exact absurd hth' (by simp [h.gone x hth])
    | some th =>
      obtain ⟨hone, hwaits, hwhy⟩ := h.errors x th th' hth hth' htwo
      refine ⟨hone, fun r' hr' => ?_⟩
      by_cases hr : r' = r
      · rw [hr, set_self] at hr'
        exact hwaits hr'
      · rw [set_ne hr] at hr'
        rcases hwhy with hold | hin
        · exact (hs.errors x th hth hold).2 r' hr'
        · exact hr (hs.unique (Waits.top hr') hin)
  known t x hx := by
    have hlast := h.last_id
    rcases h.known t x hx with ⟨hold, hanswers, hkept⟩ | ⟨hlt, hthread, hacc⟩
    · obtain ⟨hlt, hthread, -⟩ := hs.known t x hold
      exact ⟨by omega, h.last_thread ▸ hthread, h.accounted_of_old hs hold hanswers hkept⟩
    · exact ⟨hlt, h.last_thread ▸ hthread, hacc⟩
  unknown t ht := (h.unknown t ht).trans (hs.unknown t (Nat.le_trans h.last_id ht))
  threads x hx := h.gone x (hs.threads x (h.last_thread ▸ hx))

end

end State

end Cdroid.Driver.Stacks
