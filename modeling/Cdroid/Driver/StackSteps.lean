import Cdroid.Driver.StackChains

/-! What a step does to the chain that it is about: a call is sent, is taken from its list, comes
back, and is answered. -/

namespace Cdroid.Driver.Stacks
open Cdroid.Lib Cdroid.Lib.CallChains
open Cdroid.Driver.ThreadRead (Errors BR_OK BR_FAILED_REPLY BR_TRANSACTION_COMPLETE)

namespace State

theorem set_none {chains : Chains} {r : Nat} (h : chains r = none) :
    set chains r none = chains := by
  funext r'
  by_cases hr : r' = r
  · rw [hr, set_self, h]
  · exact set_ne hr

theorem set_set (chains : Chains) (r : Nat) (o o' : Option CallChain) :
    set (set chains r o) r o' = set chains r o' := by
  funext r'
  by_cases hr : r' = r
  · rw [hr, set_self, set_self]
  · rw [set_ne hr, set_ne hr, set_ne hr]

variable {s s' : State} {chains : Chains} {c : Call Nat Nat} {cs : List (Call Nat Nat)}
  {r t x : Nat} {th : binder_thread} {tr : binder_transaction}

/-! ## What the chains say of a transaction and of a thread -/

theorem Holds.not_mem_of_mem (h : s.Holds chains) {r' : Nat} {c c' : CallChain}
    (hc : chains r = some c) (ht : t ∈ ids c.calls) (hr : r' ≠ r) (hc' : chains r' = some c') :
    t ∉ ids c'.calls :=
  fun ht' => hr (h.apart r' r c' c hc' hc t ht' ht)

theorem Holds.not_mem_of_le (h : s.Holds chains) {c : CallChain} (ht : s.last_id ≤ t)
    (hc : chains r = some c) : t ∉ ids c.calls :=
  fun hmem => absurd (h.old r c hc t hmem) (Nat.not_lt.mpr ht)

/-- The key after all others has no chain. -/
theorem Holds.fresh (h : s.Holds chains) : chains s.last_id = none := by
  cases hc : chains s.last_id with
  | none => rfl
  | some c => exact absurd (h.keys _ c hc) (Nat.lt_irrefl _)

/-- A thread that has nothing on its stack is in no chain. -/
theorem Holds.top_of_idle (h : s.Holds chains) (hx : s.threads x = some th)
    (hidle : th.transaction_stack = none) (r : Nat) : topOf (chains r) x = none := by
  cases htop : topOf (chains r) x with
  | none => rfl
  | some t =>
    have hstack := (h.stack x th hx t).mpr ⟨r, htop⟩
    rw [hidle] at hstack
    cases hstack

/-- The stack of a thread that is in a chain. -/
theorem Holds.stack_eq (h : s.Holds chains) (hx : s.threads x = some th)
    (htop : topOf (chains r) x ≠ none) : th.transaction_stack = topOf (chains r) x := by
  obtain ⟨t, ht⟩ := Option.ne_none_iff_exists'.mp htop
  rw [ht]
  exact (h.stack x th hx t).mpr ⟨r, ht⟩

/-! ## Steps that change no chain -/

/-- The chains and the stacks are left alone. -/
structure Still (s s' : State) (chains : Chains) : Prop where
  transactions : ∀ r c, chains r = some c → ∀ t ∈ ids c.calls,
    s'.transactions t = s.transactions t
  lists : ∀ r c t, chains r = some c → innermost c.calls = some t →
    s'.lists.on (.transaction t) = s.lists.on (.transaction t)
  threads : ∀ y, (s'.threads y).map (fun th => (th.proc, th.transaction_stack)) =
    (s.threads y).map fun th => (th.proc, th.transaction_stack)
  errors : ∀ y th th', s.threads y = some th → s'.threads y = some th' →
    th'.errors = th.errors ∨ (th'.errors.return_error2 ≠ BR_OK →
      th'.errors.return_error ≠ BR_OK ∧ th.errors.return_error2 ≠ BR_OK)
  listed : ∀ t k, s'.lists.on (.transaction t) = some k →
    (s.lists.on (.transaction t) = some k ∧ s'.transactions t = s.transactions t) ∨
      s'.Listed chains t
  freed : ∀ t, t < s.last_id → s.transactions t = none → s'.transactions t = none
  released : s'.released = s.released
  last_id : s.last_id ≤ s'.last_id
  last_thread : s'.last_thread = s.last_thread
  callers : s'.callers = s.callers
  answers : s'.answers = s.answers

theorem Still.holds (hsame : Still s s' chains) (h : s.Holds chains) : s'.Holds chains := by
  have hnone := h.fresh
  have hthread : ∀ {y th'}, s'.threads y = some th' → ∃ th, s.threads y = some th ∧
      th'.proc = th.proc ∧ th'.transaction_stack = th.transaction_stack := by
    intro y th' hy
    have hmap := hsame.threads y
    cases hth : s.threads y with
    | none => simp [hy, hth] at hmap
    | some th =>
      rw [hy, hth] at hmap
      obtain ⟨hproc, hstack⟩ := Prod.mk.inj (Option.some.inj hmap)
      exact ⟨th, rfl, hproc, hstack⟩
  have hchange : Change s s' chains s.last_id none := {
    transactions := fun r' c _ hc t ht => hsame.transactions r' c hc t ht
    lists := fun r' c t _ hc ht => hsame.lists r' c t hc ht
    procs := by
      intro y p hp
      refine Or.inl (Eq.trans ?_ hp)
      have hmap := congrArg (Option.map Prod.fst) (hsame.threads y)
      rwa [Option.map_map, Option.map_map] at hmap
    gone := fun y hy => by
      have hmap := hsame.threads y
      rw [hy, Option.map_none, Option.map_eq_none_iff] at hmap
      exact hmap
    released := hsame.released
    last_id := hsame.last_id
    last_thread := hsame.last_thread
    placed := nofun
    nodup := nofun
    key := fun hne => absurd rfl hne
    ids := nofun
    stack := fun x th th' hth hth' => by
      obtain ⟨th₀, hth₀, -, hstack⟩ := hthread hth'
      obtain rfl : th = th₀ := Option.some.inj (hth.symm.trans hth₀)
      exact Or.inl ⟨hstack, by rw [hnone]⟩
    alive := fun x hx => absurd rfl hx
    listed := fun t k hon => by
      rw [set_none hnone]
      refine (hsame.listed t k hon).imp_left fun hold => ⟨hold.1, hold.2, fun c hc => ?_⟩
      rw [hnone] at hc
      cases hc
    errors := fun x th th' hth hth' htwo => by
      obtain ⟨hone, hold⟩ : th'.errors.return_error ≠ BR_OK ∧ th.errors.return_error2 ≠ BR_OK := by
        rcases hsame.errors x th th' hth hth' with he | herrors
        · rw [he] at htwo ⊢
          exact ⟨(h.errors x th hth htwo).1, htwo⟩
        · exact herrors htwo
      exact ⟨hone, fun hwaits => Waits.top hwaits rfl, Or.inl hold⟩
    known := fun t x hx => by
      refine Or.inl ⟨hsame.callers ▸ hx, by rw [hsame.answers], fun c hc => ?_⟩
      rw [hnone] at hc
      cases hc
    unknown := fun t _ => by rw [hsame.answers]
    freed := hsame.freed }
  have hholds := hchange.holds h
  rwa [set_none hnone] at hholds

/-- Only the innermost call of a chain may be on a list. -/
theorem Holds.innermost_of_on (h : s.Holds chains) {d : CallChain} {k : WorkList}
    (hd : chains r = some d) (ht : t ∈ ids d.calls)
    (hon : s.lists.on (.transaction t) = some k) :
    innermost d.calls = some t ∧ ∀ x, d.place ≠ .running x := by
  obtain ⟨tr, -, ⟨-, r', c, hc, hplace, hfirst⟩ | ⟨-, -, -, hno⟩⟩ := h.listed t k hon
  · obtain rfl := h.apart r r' d c hd hc t ht (mem_ids_of_innermost hfirst)
    rw [hd] at hc
    cases hc
    exact ⟨hfirst, hplace⟩
  · exact absurd ht (hno r d hd)

/-! ## Steps of one chain -/

/-- A thread does something to a chain, of which nothing is left but what was there. -/
structure Move (s s' : State) (chains : Chains) (r : Nat) (c : CallChain) (o : Option CallChain)
    (x : Nat) : Prop where
  others : ∀ y, y ≠ x → s'.threads y = s.threads y
  proc : (s'.threads x).map (·.proc) = (s.threads x).map (·.proc)
  transactions : ∀ u, u ∉ ids c.calls → s'.transactions u = s.transactions u
  lists : ∀ u, innermost c.calls ≠ some u →
    s'.lists.on (.transaction u) = s.lists.on (.transaction u)
  answers : ∀ u, u ∉ ids c.calls → s'.answers u = s.answers u
  released : s'.released = s.released
  last_id : s'.last_id = s.last_id
  last_thread : s'.last_thread = s.last_thread
  callers : s'.callers = s.callers
  placed : ∀ c', o = some c' → s'.PlacedAt c'.place c'.calls
  sublist : ∀ c', o = some c' → (ids c'.calls).Sublist (ids c.calls)
  tops : ∀ y, y ≠ x → topOf o y = c.top y
  waits : ∀ y, y ≠ x → Waits o y → Waits (some c) y
  alive : topOf o x ≠ none → s.threads x ≠ none
  thread : ∀ th th', s.threads x = some th → s'.threads x = some th' →
    th'.transaction_stack = topOf o x ∧ (th.transaction_stack = none ∨ c.top x ≠ none) ∧
      (th'.errors.return_error2 ≠ BR_OK → th'.errors.return_error ≠ BR_OK ∧ ¬ Waits o x ∧
        (th.errors.return_error2 ≠ BR_OK ∨ c.top x ≠ none))
  listed : ∀ u k, innermost c.calls = some u → s'.lists.on (.transaction u) = some k →
    s'.Listed (set chains r o) u
  known : ∀ u ∈ ids c.calls, ∀ y, s.callers u = some y →
    (s'.answers u = s.answers u ∧ ∃ c', o = some c' ∧
        ∀ caller, ⟨u, caller⟩ ∈ c.calls → ⟨u, caller⟩ ∈ c'.calls) ∨
      s'.Accounted (set chains r o) u y

section
variable {c : CallChain} {o : Option CallChain}

theorem Move.threads_eq_none (m : Move s s' chains r c o x) (y : Nat) :
    s'.threads y = none ↔ s.threads y = none := by
  by_cases hy : y = x
  · have hmap := m.proc
    rw [hy, ← Option.map_eq_none_iff (f := (·.proc)), hmap, Option.map_eq_none_iff]
  · rw [m.others y hy]

theorem Move.change (m : Move s s' chains r c o x) (h : s.Holds chains)
    (hc : chains r = some c) : Change s s' chains r o where
  transactions r' c' hr hc' u hu :=
    m.transactions u fun hmem => h.not_mem_of_mem hc hmem hr hc' hu
  lists r' c' u hr hc' hu :=
    m.lists u fun hfirst => h.not_mem_of_mem hc (mem_ids_of_innermost hfirst) hr hc'
      (mem_ids_of_innermost hu)
  procs y p hp := by
    refine Or.inl ?_
    by_cases hy : y = x
    · rw [hy, m.proc, ← hy, hp]
    · rw [m.others y hy, hp]
  gone y hy := (m.threads_eq_none y).mpr hy
  released := m.released
  last_id := Nat.le_of_eq m.last_id.symm
  last_thread := m.last_thread
  placed := m.placed
  nodup c' hc' := (h.nodup r c hc).sublist (m.sublist c' hc')
  key _ := m.last_id ▸ h.keys r c hc
  ids c' hc' u hu := Or.inl ⟨c, hc, (m.sublist c' hc').subset hu⟩
  stack y th th' hy hy' := by
    by_cases hyx : y = x
    · subst hyx
      obtain ⟨hstack, hin, -⟩ := m.thread th th' hy hy'
      exact Or.inr ⟨hstack, by rwa [hc]⟩
    · rw [m.others y hyx, hy] at hy'
      cases hy'
      exact Or.inl ⟨rfl, by rw [m.tops y hyx, hc]; rfl⟩
  alive y hy := by
    rw [ne_eq, m.threads_eq_none]
    by_cases hyx : y = x
    · rw [hyx] at hy ⊢
      exact m.alive hy
    · rw [m.tops y hyx] at hy
      exact h.alive r y (by rwa [hc])
  listed u k hon := by
    by_cases hu : innermost c.calls = some u
    · exact Or.inr (m.listed u k hu hon)
    · rw [m.lists u hu] at hon
      refine Or.inl ⟨hon, m.transactions u fun hmem => hu (h.innermost_of_on hc hmem hon).1, ?_⟩
      intro c' hc'
      rw [hc] at hc'
      cases hc'
      exact hu
  errors y th th' hy hy' htwo := by
    by_cases hyx : y = x
    · subst hyx
      obtain ⟨-, -, herrors⟩ := m.thread th th' hy hy'
      obtain ⟨hone, hwaits, hwhy⟩ := herrors htwo
      exact ⟨hone, hwaits, by rwa [hc]⟩
    · rw [m.others y hyx, hy] at hy'
      cases hy'
      obtain ⟨hone, hwaits⟩ := h.errors y th hy htwo
      exact ⟨hone, fun hw => hwaits r (hc ▸ m.waits y hyx hw), Or.inl htwo⟩
  known u y hu := by
    rw [m.callers] at hu
    by_cases hmem : u ∈ CallChains.ids c.calls
    · rcases m.known u hmem y hu with ⟨hanswers, c', ho, hkept⟩ | hacc
      · refine Or.inl ⟨hu, hanswers, fun d hd _ => ?_⟩
        rw [hc] at hd
        cases hd
        exact ⟨c', ho, hkept⟩
      · obtain ⟨hlt, hthread, -⟩ := h.known u y hu
        exact Or.inr ⟨m.last_id ▸ hlt, hthread, hacc⟩
    · refine Or.inl ⟨hu, m.answers u hmem, fun d hd hmem' => ?_⟩
      rw [hc] at hd
      cases hd
      exact absurd hmem' hmem
  unknown u hu := m.answers u fun hmem =>
    absurd (h.old r c hc u hmem) (Nat.not_lt.mpr (m.last_id ▸ hu))
  freed u _ hu :=
    (m.transactions u fun hmem => (h.placed r c hc).exists u hmem hu).trans hu

theorem Move.holds (m : Move s s' chains r c o x) (h : s.Holds chains)
    (hc : chains r = some c) : s'.Holds (set chains r o) :=
  (m.change h hc).holds h

end

/-- A thread takes a call from its list: it carries it out, over what it waits for. -/
theorem Holds.take (h : s.Holds chains) {k : WorkList}
    (hc : chains r = some ⟨.queued k, c :: cs⟩) (hx : s.threads x = some th)
    (hstack : th.transaction_stack = awaited x cs) (hself : c.caller ≠ some x)
    (htr : s.transactions c.id = some tr) :
    (((s.unlink (.transaction c.id)).setTransaction c.id (some { tr with
        to_parent := th.transaction_stack
        to_thread := some x })).setThread x (some { th with
          transaction_stack := some c.id })).Holds
      (set chains r (some ⟨.running x, c :: cs⟩)) := by
  obtain ⟨-, ⟨tr', hsent, -⟩, hlinked⟩ := h.placed r _ hc
  obtain rfl : tr = tr' := Option.some.inj (htr.symm.trans hsent.transaction)
  have hnodup := h.nodup r _ hc
  refine Move.holds (s := s) (x := x) ?_ h hc
  exact {
    others := fun y hy => by simp [hy]
    proc := by simp [hx]
    transactions := fun u hu => by
      have hne : u ≠ c.id := fun he => hu (he ▸ List.mem_cons_self)
      simp [hne]
    lists := fun u hu => by
      have hne : u ≠ c.id := fun he => hu (he ▸ rfl)
      simp [hne]
    answers := fun _ _ => rfl
    released := rfl
    last_id := rfl
    last_thread := rfl
    callers := rfl
    placed := fun c' hc' => by
      cases hc'
      refine ⟨⟨_, ⟨⟨if_pos rfl, hsent.from_thread, hsent.from_parent⟩, rfl, ?_⟩⟩, ?_⟩
      · rintro y ⟨rfl⟩
        exact ⟨hstack, hself⟩
      · refine hlinked.congr fun u hu => ?_
        have hne : u ≠ c.id := fun he => (List.nodup_cons.mp hnodup).1 (he ▸ hu)
        simp [hne]
    sublist := fun c' hc' => by cases hc'; exact List.Sublist.refl _
    tops := fun y hy => by simp [topOf, Chain.top, hy]
    waits := by
      rintro y hy ⟨c', hc', -, hwait⟩
      cases hc'
      exact ⟨_, rfl, Place.queued_ne_running, by simpa [Chain.top, hy] using hwait⟩
    alive := fun _ => by simp [hx]
    thread := fun th₁ th₂ h₁ h₂ => by
      obtain rfl : th = th₁ := Option.some.inj (hx.symm.trans h₁)
      simp only [threads_setThread, if_true] at h₂
      cases h₂
      have hwait : Chain.top ⟨.queued k, c :: cs⟩ x = th.transaction_stack := by
        rw [hstack]
        exact awaited_of_ne hself
      refine ⟨by simp [topOf, Chain.top], ?_, fun htwo => ⟨(h.errors x th hx htwo).1, ?_,
        Or.inl htwo⟩⟩
      · rw [hwait]
        exact eq_or_ne th.transaction_stack none
      · rintro ⟨c', hc', hplace, -⟩
        cases hc'
        exact hplace rfl
    listed := fun u k' hu hon => by
      cases hu
      simp at hon
    known := fun u _ y _ => Or.inl ⟨rfl, _, rfl, fun _ hmem => hmem⟩ }

/-- A thread is rid of the call that it carries out. -/
theorem Holds.back (h : s.Holds chains) (hc : chains r = some ⟨.running x, c :: cs⟩)
    (hx : s.threads x = some th) {errors : Errors} (herrors : errors.return_error2 = BR_OK) :
    (s.setThread x (some ⟨th.proc, awaited x cs, errors⟩)).Holds
      (set chains r (some ⟨.returning, c :: cs⟩)) := by
  obtain ⟨⟨tr, hreceived⟩, hlinked⟩ := h.placed r _ hc
  have hself := (hreceived.to_parent x rfl).2
  refine Move.holds (s := s) (x := x) ?_ h hc
  exact {
    others := fun y hy => by simp [hy]
    proc := by simp [hx]
    transactions := fun _ _ => rfl
    lists := fun _ _ => rfl
    answers := fun _ _ => rfl
    released := rfl
    last_id := rfl
    last_thread := rfl
    callers := rfl
    placed := fun c' hc' => by
      cases hc'
      exact ⟨⟨tr, hreceived.toSent.congr rfl⟩, hlinked.congr fun _ _ => rfl⟩
    sublist := fun c' hc' => by cases hc'; exact List.Sublist.refl _
    tops := fun y hy => by simp [topOf, Chain.top, hy]
    waits := by
      rintro y hy ⟨c', hc', -, hwait⟩
      cases hc'
      exact ⟨_, rfl, fun he => hy (Place.running.inj he).symm,
        by simpa [Chain.top, hy] using hwait⟩
    alive := fun _ => by simp [hx]
    thread := fun th₁ th₂ h₁ h₂ => by
      simp only [threads_setThread, if_true] at h₂
      cases h₂
      exact ⟨(awaited_of_ne hself).symm, Or.inr (by simp [Chain.top]),
        fun htwo => absurd herrors htwo⟩
    listed := fun u k hu hon => by
      cases hu
      have hplace := (h.innermost_of_on hc List.mem_cons_self hon).2
      exact absurd rfl (hplace x)
    known := fun u _ y _ => Or.inl ⟨rfl, _, rfl, fun _ hmem => hmem⟩ }

/-- A call is taken from its list, and nobody carries it out. -/
theorem Holds.unlinked (h : s.Holds chains) {place : Place Nat WorkList}
    (hc : chains r = some ⟨place, c :: cs⟩) (hplace : ∀ x, place ≠ .running x) :
    (s.unlink (.transaction c.id)).Holds (set chains r (some ⟨.returning, c :: cs⟩)) := by
  obtain ⟨⟨tr, hsent⟩, hlinked⟩ : (∃ tr, s.Sent c cs tr) ∧ s.Linked c.caller cs := by
    have hplaced := h.placed r _ hc
    cases place with
    | running x => exact absurd rfl (hplace x)
    | queued k => exact ⟨hplaced.2.1.imp fun _ h => h.1, hplaced.2.2⟩
    | returning => exact hplaced
  have hfresh := h.threads s.last_thread (Nat.le_refl _)
  have htop : ∀ y, topOf (some ⟨.returning, c :: cs⟩) y = Chain.top ⟨place, c :: cs⟩ y := by
    intro y
    cases place with
    | running x => exact absurd rfl (hplace x)
    | queued k => rfl
    | returning => rfl
  refine Move.holds (s := s) (x := s.last_thread) ?_ h hc
  exact {
    others := fun _ _ => rfl
    proc := rfl
    transactions := fun _ _ => rfl
    lists := fun u hu => by
      have hne : u ≠ c.id := fun he => hu (he ▸ rfl)
      simp [hne]
    answers := fun _ _ => rfl
    released := rfl
    last_id := rfl
    last_thread := rfl
    callers := rfl
    placed := fun c' hc' => by
      cases hc'
      exact ⟨⟨tr, hsent.congr rfl⟩, hlinked.congr fun _ _ => rfl⟩
    sublist := fun c' hc' => by cases hc'; exact List.Sublist.refl _
    tops := fun y _ => htop y
    waits := by
      rintro y hy ⟨c', hc', -, hwait⟩
      cases hc'
      exact ⟨_, rfl, hplace y, htop y ▸ hwait⟩
    alive := fun hne => h.alive r _ (by rw [hc]; rwa [htop] at hne)
    thread := fun th₁ th₂ h₁ h₂ => by rw [hfresh] at h₁; cases h₁
    listed := fun u k' hu hon => by
      cases hu
      simp at hon
    known := fun u _ y _ => Or.inl ⟨rfl, _, rfl, fun _ hmem => hmem⟩ }

/-- What is left of a chain whose innermost call is gone. -/
theorem Holds.gone (h : s.Holds chains) {d : CallChain} (hd : chains r = some d)
    (hids : ids d.calls = t :: ids cs) {o : Option CallChain}
    (ho : ∀ c', o = some c' → c'.calls = cs) :
    ∀ r' c', set chains r o r' = some c' → t ∉ ids c'.calls := by
  intro r' c' hc' hmem
  have ht : t ∈ ids d.calls := by
    rw [hids]
    exact List.mem_cons_self
  rcases cases_set hc' with ⟨-, ho'⟩ | ⟨hr, hc'⟩
  · have hnodup := h.nodup r d hd
    rw [hids] at hnodup
    rw [ho c' ho'] at hmem
    exact (List.nodup_cons.mp hnodup).1 hmem
  · exact h.not_mem_of_mem hd ht hr hc' hmem

/-- The chain that is left when the innermost call of one is dropped. -/
def dropped : List (Call Nat Nat) → Option CallChain
  | [] => none
  | d :: ds => some ⟨.returning, d :: ds⟩

/-- The chain that is left when the innermost call of one is answered. -/
def answeredTo (x : Nat) : List (Call Nat Nat) → Option CallChain
  | [] => none
  | d :: ds => some ⟨.running x, d :: ds⟩

theorem dropped_calls {c' : CallChain} (h : dropped cs = some c') : c' = ⟨.returning, cs⟩ := by
  cases cs with
  | nil => cases h
  | cons d ds => cases h; rfl

theorem answeredTo_calls {c' : CallChain} (h : answeredTo x cs = some c') :
    c' = ⟨.running x, cs⟩ := by
  cases cs with
  | nil => cases h
  | cons d ds => cases h; rfl

theorem Linked.sent {d : Call Nat Nat} {receiver : Option Nat}
    (h : s.Linked receiver (d :: cs)) : ∃ tr, s.Sent d cs tr :=
  h.1.imp fun _ hreceived => hreceived.toSent

/-- What is known of a call that has left its chain, and of those that are left. -/
theorem Holds.accounted_of_gone (h : s.Holds chains) {d : CallChain} {a : Option Nat}
    (hd : chains r = some d) (hcalls : d.calls = ⟨t, a⟩ :: cs) {y : Nat}
    (hy : s.callers t = some y) :
    s.answers t = [] ∧ (a = some y ∨ a = none ∧ s.threads y = none) := by
  have hmem : t ∈ ids d.calls := by
    rw [hcalls]
    exact List.mem_cons_self
  have hnodup := h.nodup r d hd
  rw [hcalls] at hnodup
  have honly : ∀ b, ⟨t, b⟩ ∈ d.calls → b = a := by
    intro b hb
    rw [hcalls] at hb
    rcases List.mem_cons.mp hb with he | hb
    · cases he
      rfl
    · exact absurd (mem_ids.mpr ⟨_, hb, rfl⟩) (List.nodup_cons.mp hnodup).1
  obtain ⟨-, -, ⟨hnone, r', c, hc, hcall⟩ | ⟨hno, -⟩⟩ := h.known t y hy
  · have hr : r' = r := by
      refine h.apart r' r c d hc hd t (mem_ids.mpr ?_) hmem
      rcases hcall with hcall | ⟨hcall, -⟩
      · exact ⟨_, hcall, rfl⟩
      · exact ⟨_, hcall, rfl⟩
    rw [hr, hd] at hc
    cases hc
    refine ⟨hnone, ?_⟩
    rcases hcall with hcall | ⟨hcall, hgone⟩
    · exact Or.inl (honly _ hcall).symm
    · exact Or.inr ⟨(honly _ hcall).symm, hgone⟩
  · exact absurd hmem (hno r d hd)

/-- A call on its way back is dropped, since nobody waits for it. -/
theorem Holds.drop (h : s.Holds chains) (hc : chains r = some ⟨.returning, ⟨t, none⟩ :: cs⟩)
    (hon : s.lists.on (.transaction t) = none) :
    (s.setTransaction t none).Holds (set chains r (dropped cs)) := by
  obtain ⟨-, hlinked⟩ := h.placed r _ hc
  have hfresh := h.threads s.last_thread (Nat.le_refl _)
  have hnodup := h.nodup r _ hc
  have hgone := h.gone (o := dropped cs) hc rfl fun c' hc' => by rw [dropped_calls hc']
  have htops : ∀ y, topOf (dropped cs) y = awaited y cs := by
    intro y
    cases cs <;> rfl
  have hstill : ∀ y, topOf (dropped cs) y ≠ none →
      Chain.top (κ := WorkList) ⟨.returning, ⟨t, none⟩ :: cs⟩ y ≠ none := by
    intro y hy
    rw [htops] at hy
    exact awaited_cons_ne_none hy
  refine Move.holds (s := s) (x := s.last_thread) ?_ h hc
  exact {
    others := fun _ _ => rfl
    proc := rfl
    transactions := fun u hu => by
      have hne : u ≠ t := fun he => hu (he ▸ List.mem_cons_self)
      simp [hne]
    lists := fun _ _ => rfl
    answers := fun _ _ => rfl
    released := rfl
    last_id := rfl
    last_thread := rfl
    callers := rfl
    placed := fun c' hc' => by
      cases cs with
      | nil => cases hc'
      | cons d ds =>
        cases hc'
        have hsame : ∀ u ∈ ids (d :: ds), (s.setTransaction t none).transactions u =
            s.transactions u := by
          intro u hu
          have hne : u ≠ t := fun he => (List.nodup_cons.mp hnodup).1 (he ▸ hu)
          simp [hne]
        have hlinked' := hlinked.congr hsame
        exact ⟨hlinked'.sent, hlinked'.2⟩
    sublist := fun c' hc' => by
      rw [dropped_calls hc']
      exact List.sublist_cons_self _ _
    tops := fun y _ => htops y
    waits := fun y _ hw => ⟨_, rfl, Place.returning_ne_running, hstill y (Waits.top hw)⟩
    alive := fun htop => h.alive r _ (by rw [hc]; exact hstill _ htop)
    thread := fun th₁ th₂ h₁ h₂ => by rw [hfresh] at h₁; cases h₁
    listed := fun u k hu hon' => by
      cases hu
      rw [lists_setTransaction, hon] at hon'
      cases hon'
    known := fun u hu y hy => by
      rcases List.mem_cons.mp hu with he | hu
      · subst he
        obtain ⟨hnone, ha | ⟨-, hdead⟩⟩ := h.accounted_of_gone hc rfl hy
        · cases ha
        · exact Or.inr (Or.inr ⟨hgone, by simp, Or.inr ⟨hnone, hdead⟩⟩)
      · refine Or.inl ⟨rfl, ⟨.returning, cs⟩, ?_, fun caller hmem => ?_⟩
        · cases cs with
          | nil => cases hu
          | cons d ds => rfl
        · rcases List.mem_cons.mp hmem with he | hmem
          · cases he
            exact absurd hu (List.nodup_cons.mp hnodup).1
          · exact hmem }

/-- A call on its way back is answered: the thread that waited for it goes on. -/
theorem Holds.pop (h : s.Holds chains) {y : Nat}
    (hc : chains r = some ⟨.returning, ⟨t, some y⟩ :: cs⟩)
    (hon : s.lists.on (.transaction t) = none) (hy : s.threads y = some th) (errors : Errors)
    (herrors : errors.return_error2 ≠ BR_OK → errors.return_error ≠ BR_OK) (a : Answer) :
    (((s.setTransaction t none).setThread y (some ⟨th.proc, innermost cs, errors⟩)).answer t
      a).Holds (set chains r (answeredTo y cs)) := by
  obtain ⟨-, hlinked⟩ := h.placed r _ hc
  have hnodup := h.nodup r _ hc
  have hgone := h.gone (o := answeredTo y cs) hc rfl fun c' hc' => by rw [answeredTo_calls hc']
  have htops : ∀ z, z ≠ y → topOf (answeredTo y cs) z = awaited z cs := by
    intro z hz
    cases cs with
    | nil => rfl
    | cons d ds => exact if_neg hz
  refine Move.holds (s := s) (x := y) ?_ h hc
  exact {
    others := fun z hz => by simp [hz]
    proc := by simp [hy]
    transactions := fun u hu => by
      have hne : u ≠ t := fun he => hu (he ▸ List.mem_cons_self)
      simp [hne]
    lists := fun _ _ => rfl
    answers := fun u hu => by
      have hne : u ≠ t := fun he => hu (he ▸ List.mem_cons_self)
      simp [hne]
    released := rfl
    last_id := rfl
    last_thread := rfl
    callers := rfl
    placed := fun c' hc' => by
      cases cs with
      | nil => cases hc'
      | cons d ds =>
        cases hc'
        refine hlinked.congr fun u hu => ?_
        have hne : u ≠ t := fun he => (List.nodup_cons.mp hnodup).1 (he ▸ hu)
        simp [hne]
    sublist := fun c' hc' => by
      rw [answeredTo_calls hc']
      exact List.sublist_cons_self _ _
    tops := fun z hz => by
      rw [htops z hz]
      exact (awaited_of_ne fun he => hz (Option.some.inj he).symm).symm
    waits := fun z hz hw => by
      have htop := Waits.top hw
      rw [htops z hz] at htop
      exact ⟨_, rfl, Place.returning_ne_running, awaited_cons_ne_none htop⟩
    alive := fun _ => by simp [hy]
    thread := fun th₁ th₂ h₁ h₂ => by
      simp only [threads_answer, threads_setThread, if_true] at h₂
      cases h₂
      refine ⟨?_, Or.inr (by simp [Chain.top, awaited_self]), fun htwo => ⟨herrors htwo, ?_,
        Or.inr (by simp [Chain.top, awaited_self])⟩⟩
      · cases cs with
        | nil => rfl
        | cons d ds => exact (if_pos rfl).symm
      · rintro ⟨c', hc', hplace, -⟩
        rw [answeredTo_calls hc'] at hplace
        exact hplace rfl
    listed := fun u k hu hon' => by
      cases hu
      rw [lists_answer, lists_setThread, lists_setTransaction, hon] at hon'
      cases hon'
    known := fun u hu z hz => by
      rcases List.mem_cons.mp hu with he | hu
      · subst he
        obtain ⟨hnone, -⟩ := h.accounted_of_gone hc rfl hz
        exact Or.inr (Or.inr ⟨hgone, by simp, Or.inl (by simp [hnone])⟩)
      · have hne : u ≠ t := fun he => (List.nodup_cons.mp hnodup).1 (he ▸ hu)
        refine Or.inl ⟨by simp [hne], ⟨.running y, cs⟩, ?_, fun caller hmem => ?_⟩
        · cases cs with
          | nil => cases hu
          | cons d ds => rfl
        · rcases List.mem_cons.mp hmem with he | hmem
          · cases he
            exact absurd rfl hne
          · exact hmem }

/-! ## New transactions -/

section
variable {p u : Nat} {k : WorkList}

@[simp] theorem transactions_queue : (s.queue x p tr k).transactions u =
    if u = s.last_id then some tr else s.transactions u := rfl

@[simp] theorem threads_queue : (s.queue x p tr k).threads = s.threads := rfl

@[simp] theorem answers_queue : (s.queue x p tr k).answers = s.answers := rfl

@[simp] theorem last_id_queue : (s.queue x p tr k).last_id = s.last_id + 1 := rfl

@[simp] theorem on_queue : (s.queue x p tr k).lists.on (.transaction u) =
    if u = s.last_id then some k else s.lists.on (.transaction u) := by
  simp [queue]

end

/-- What the thread that sends a call carries out: a chain of its own, or nothing. -/
inductive Before (s : State) (chains : Chains) (x : Nat) (th : binder_thread) (r : Nat) :
    List (Call Nat Nat) → Prop
  | idle (hstack : th.transaction_stack = none) (hr : r = s.last_id) : Before s chains x th r []
  | running {cs : List (Call Nat Nat)} (hc : chains r = some ⟨.running x, cs⟩) :
    Before s chains x th r cs

/-- The call goes to a process, or to a thread of it that waits for another call of the chain. -/
def Reaches (s : State) (x p : Nat) (cs : List (Call Nat Nat)) : Option Nat → Prop
  | none => s.released p = false
  | some y => (s.threads y).map (·.proc) = some p ∧ awaited y cs ≠ none ∧ y ≠ x

theorem Before.stack (h : s.Holds chains) (hx : s.threads x = some th)
    (hbefore : Before s chains x th r cs) : th.transaction_stack = innermost cs := by
  cases hbefore with
  | idle hstack _ => exact hstack
  | running hc =>
    have htop : topOf (chains r) x = innermost cs := by simp [hc, topOf, Chain.top]
    have hne : topOf (chains r) x ≠ none := by
      rw [htop]
      have hplaced := (h.placed r _ hc).ne_nil
      cases cs with
      | nil => exact absurd rfl hplaced
      | cons d ds => exact Option.some_ne_none _
    rw [h.stack_eq hx hne, htop]

theorem Before.linked (h : s.Holds chains) (hbefore : Before s chains x th r cs) :
    s.Linked (some x) cs := by
  cases hbefore with
  | idle => trivial
  | running hc =>
    have hplaced := h.placed r _ hc
    cases cs with
    | nil => trivial
    | cons d ds => exact hplaced

theorem Before.ids (h : s.Holds chains) (hbefore : Before s chains x th r cs) :
    (ids cs).Nodup ∧ (∀ t ∈ ids cs, t < s.last_id) ∧
      (∀ t ∈ ids cs, ∃ c, chains r = some c ∧ t ∈ CallChains.ids c.calls) ∧
      (∀ c, chains r = some c → c = ⟨.running x, cs⟩) ∧ r ≤ s.last_id := by
  cases hbefore with
  | idle _ hr =>
    refine ⟨List.nodup_nil, by simp, by simp, fun c hc => ?_, Nat.le_of_eq hr⟩
    rw [hr, h.fresh] at hc
    cases hc
  | running hc =>
    refine ⟨h.nodup r _ hc, h.old r _ hc, fun t ht => ⟨_, hc, ht⟩, fun c hc' => ?_,
      Nat.le_of_lt (h.keys r _ hc)⟩
    rw [hc] at hc'
    cases hc'
    rfl

theorem Before.top (h : s.Holds chains) (hbefore : Before s chains x th r cs) {y : Nat}
    (hy : y ≠ x) : topOf (chains r) y = awaited y cs := by
  cases hbefore with
  | idle _ hr =>
    rw [hr, h.fresh]
    rfl
  | running hc => simp [hc, topOf, Chain.top, hy]

theorem Before.waits (hbefore : Before s chains x th r cs) {y : Nat} (hy : y ≠ x)
    (hwait : awaited y cs ≠ none) : Waits (chains r) y := by
  cases hbefore with
  | idle => exact absurd rfl hwait
  | running hc =>
    exact ⟨_, hc, fun he => hy (Place.running.inj he).symm, by simpa [Chain.top, hy] using hwait⟩

theorem Before.free (h : s.Holds chains) (hbefore : Before s chains x th r cs) :
    th.transaction_stack = none ∨ topOf (chains r) x ≠ none := by
  cases hbefore with
  | idle hstack _ => exact Or.inl hstack
  | running hc =>
    have hplaced := (h.placed r _ hc).ne_nil
    cases cs with
    | nil => exact absurd rfl hplaced
    | cons d ds => exact Or.inr (by simp [hc, topOf, Chain.top])

/-- **A call is sent.** It lies on the stack of its sender, over what the sender carries out. -/
theorem Holds.sent (h : s.Holds chains) (hx : s.threads x = some th)
    (hbefore : Before s chains x th r cs) {p : Nat} {target_thread : Option Nat}
    (hreaches : Reaches s x p cs target_thread) (herror : th.errors.return_error = BR_OK) :
    ∃ s', s.finishCall x th p target_thread none = some s' ∧ s'.Holds (set chains r
      (some ⟨.queued (targetList p target_thread), ⟨s.last_id, some x⟩ :: cs⟩)) := by
  have hstack := hbefore.stack h hx
  have hlinked := hbefore.linked h
  obtain ⟨hnodup, hlt, hold, hchain, hr⟩ := hbefore.ids h
  have hfresh : s.last_id ∉ ids cs := fun hmem => Nat.lt_irrefl _ (hlt _ hmem)
  have hnone : s.answers s.last_id = [] := h.unknown _ (Nat.le_refl _)
  have htwo : th.errors.return_error2 = BR_OK := by
    by_contra htwo
    exact (h.errors x th hx htwo).1 herror
  have hlast : x < s.last_thread := by
    by_contra hle
    rw [h.threads x (Nat.le_of_not_lt hle)] at hx
    cases hx
  refine ⟨_, rfl, Change.holds (s := s) ?_ h⟩
  exact {
    transactions := fun r' c' hr hc' u hu => by
      have hne : u ≠ s.last_id := Nat.ne_of_lt (h.old r' c' hc' u hu)
      simp [hne]
    lists := fun r' c' u hr hc' hu => by
      have hne : u ≠ s.last_id := Nat.ne_of_lt (h.old r' c' hc' u (mem_ids_of_innermost hu))
      simp [hne]
    procs := fun y p hp => Or.inl (by
      by_cases hy : y = x
      · subst hy
        rw [hx] at hp
        simpa using hp
      · simpa [hy] using hp)
    gone := fun y hy => by
      have hyx : y ≠ x := fun he => by rw [he, hx] at hy; cases hy
      simpa [hyx] using hy
    released := rfl
    last_id := Nat.le_succ _
    last_thread := rfl
    placed := fun c' hc' => by
      cases hc'
      refine ⟨by simp, ⟨_, ⟨by simp; rfl, rfl, hstack⟩, ?_⟩, hlinked.congr fun u hu => ?_⟩
      · cases target_thread with
        | none => exact ⟨rfl, hreaches⟩
        | some y =>
          obtain ⟨hproc, hwaits, hne⟩ := hreaches
          refine ⟨rfl, ?_, hwaits, fun he => hne (Option.some.inj he).symm⟩
          simpa [hne] using hproc
      · have hne : u ≠ s.last_id := Nat.ne_of_lt (hlt u hu)
        simp [hne]
    nodup := fun c' hc' => by
      cases hc'
      exact List.nodup_cons.mpr ⟨hfresh, hnodup⟩
    key := fun _ => Nat.lt_succ_of_le hr
    ids := fun c' hc' u hu => by
      cases hc'
      rcases List.mem_cons.mp hu with rfl | hu
      · exact Or.inr ⟨Nat.le_refl _, Nat.lt_succ_self _⟩
      · exact Or.inl (hold u hu)
    stack := fun y th₁ th₂ hy hy' => by
      by_cases hyx : y = x
      · subst hyx
        obtain rfl : th = th₁ := Option.some.inj (hx.symm.trans hy)
        simp only [threads_queue, threads_setThread, if_true] at hy'
        cases hy'
        exact Or.inr ⟨by simp [topOf, Chain.top, awaited_self], hbefore.free h⟩
      · simp only [threads_queue, threads_setThread, if_neg hyx, hy] at hy'
        cases hy'
        refine Or.inl ⟨rfl, (awaited_of_ne ?_).trans (hbefore.top h hyx).symm⟩
        exact fun he => hyx (Option.some.inj he).symm
    alive := fun y hy => by
      by_cases hyx : y = x
      · simp [hyx]
      · have htop : awaited y (⟨s.last_id, some x⟩ :: cs) ≠ none := hy
        rw [awaited_of_ne fun he => hyx (Option.some.inj he).symm, ← hbefore.top h hyx] at htop
        simpa [hyx] using h.alive r y htop
    listed := fun u k' hon => by
      by_cases hu : u = s.last_id
      · subst hu
        exact Or.inr ⟨_, if_pos rfl, Or.inl ⟨rfl, r, _, set_self,
          fun _ => Place.queued_ne_running, rfl⟩⟩
      · have hon' : s.lists.on (.transaction u) = some k' := by simpa [hu] using hon
        refine Or.inl ⟨hon', by simp [hu], fun c' hc' hfirst => ?_⟩
        have hplace := (h.innermost_of_on hc' (mem_ids_of_innermost hfirst) hon').2
        rw [hchain c' hc'] at hplace
        exact hplace x rfl
    errors := fun y th₁ th₂ hy hy' htwo' => by
      by_cases hyx : y = x
      · subst hyx
        simp only [threads_queue, threads_setThread, if_true] at hy'
        cases hy'
        exact absurd htwo htwo'
      · simp only [threads_queue, threads_setThread, if_neg hyx, hy] at hy'
        cases hy'
        obtain ⟨hone, hwaits⟩ := h.errors y th₁ hy htwo'
        refine ⟨hone, fun hw => hwaits r (hbefore.waits hyx ?_), Or.inl htwo'⟩
        have htop : awaited y (⟨s.last_id, some x⟩ :: cs) ≠ none := Waits.top hw
        rwa [awaited_of_ne fun he => hyx (Option.some.inj he).symm] at htop
    known := fun u y hu => by
      by_cases hul : u = s.last_id
      · subst hul
        obtain rfl : x = y := by simpa using hu
        refine Or.inr ⟨Nat.lt_succ_self _, hlast, Or.inl ⟨hnone, r, _, set_self, ?_⟩⟩
        exact Or.inl List.mem_cons_self
      · refine Or.inl ⟨by simpa [hul] using hu, rfl, fun c' hc' _ => ⟨_, rfl, fun a hmem => ?_⟩⟩
        rw [hchain c' hc'] at hmem
        exact List.mem_cons_of_mem _ hmem
    unknown := fun _ _ => rfl
    freed := fun u hu hnone => by simp [Nat.ne_of_lt hu, hnone] }

end State

end Cdroid.Driver.Stacks
