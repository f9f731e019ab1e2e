import Cdroid.Driver.OneWay

/-! Runs of one-way transactions: the condition under which every node gets them in order, and
the steps that bring what is left to it. -/

namespace Cdroid.Driver.OneWay
open Cdroid.Lib Cdroid.Lib.Runs

/-! ## Runs -/

def Work.isOther : Work → Bool
  | .transaction _ => false
  | .other _ => true

/-- A thread exits without a one-way transaction on its list. -/
def Action.Meets (s : State) : Action → Prop
  | .threadExit p t => ∀ w ∈ s.lists.items (.threadTodo p t), w.isOther = true
  | _ => True

instance : ∀ s a, Decidable (Action.Meets s a)
  | s, .threadExit p t =>
    inferInstanceAs (Decidable (∀ w ∈ s.lists.items (.threadTodo p t), w.isOther = true))
  | _, .transaction _ => .isTrue trivial
  | _, .read .. => .isTrue trivial
  | _, .freeBuffer .. => .isTrue trivial
  | _, .post .. => .isTrue trivial

/-- **Step lemma.** No assertion fails, and the nodes keep their order. -/
theorem next_inv {s : State} (h : s.Inv) {a : Action} (ha : a.Meets s) :
    ∃ t, next s a = some t ∧ t.Inv := by
  cases a with
  | transaction node => exact ⟨_, rfl, State.transaction_inv h node⟩
  | read p t wait_for_proc_work => exact ⟨_, rfl, State.read_inv h p t wait_for_proc_work⟩
  | freeBuffer p t b => exact State.freeBuffer_inv h p t b
  | threadExit p t =>
    exact ⟨_, rfl, State.threadExit_inv h p t fun x hx => absurd (ha _ hx) nofun⟩
  | post w p t => exact ⟨_, rfl, State.post_inv h w p t⟩

/-! ## Progress -/

/-- What the threads of a process do to serve it. -/
def Action.Serves (proc : Nat) : Action → Prop
  | .read p _ _ => p = proc
  | .freeBuffer p _ _ => p = proc
  | _ => False

theorem Action.Serves.meets {proc : Nat} {a : Action} (h : a.Serves proc) (s : State) :
    a.Meets s := by
  cases a with
  | threadExit p t => exact h.elim
  | _ => trivial

/-- A step that serves a process takes nothing back. -/
structure Later (n : Nat) (s t : State) : Prop where
  node_proc : t.node_proc = s.node_proc
  accepted : t.accepted n = s.accepted n
  delivered : (s.delivered n).length ≤ (t.delivered n).length

theorem Later.trans {n : Nat} {s t u : State} (h : Later n s t) (h' : Later n t u) :
    Later n s u where
  node_proc := h'.node_proc.trans h.node_proc
  accepted := h'.accepted.trans h.accepted
  delivered := Nat.le_trans h.delivered h'.delivered

/-- A round of the loop takes the first item. -/
theorem read_first {s : State} {proc thread : Nat} {w : Work} {ws : List Work}
    (h : pending s.lists proc thread = w :: ws) (n : Nat) :
    pending (s.read proc thread true).lists proc thread = ws ∧
      Later n s (s.read proc thread true) ∧
      (∀ x, ((s.read proc thread true).buffer x).target_node = (s.buffer x).target_node) ∧
      ∀ t, w = .transaction t → (s.buffer t).target_node = n →
        ((s.read proc thread true).delivered n).length = (s.delivered n).length + 1 := by
  have hnext : nextWork s.lists proc thread true = some w := by
    rw [nextWork_pending, h]
    rfl
  unfold State.read
  rw [hnext]
  cases w with
  | other w => exact ⟨pending_unlink h, ⟨rfl, rfl, Nat.le_refl _⟩, fun _ => rfl, nofun⟩
  | transaction t =>
    refine ⟨pending_unlink h, ⟨rfl, rfl, ?_⟩, fun x => ?_, fun t' ht hn => ?_⟩
    · dsimp only
      split
      · simp
      · exact Nat.le_refl _
    · simp only [State.buffer_setBuffer]
      split <;> rfl
    · obtain rfl := Work.transaction.inj ht
      dsimp only
      rw [if_pos hn.symm]
      simp

/-- Reading its list delivers a transaction. -/
theorem reads_deliver {s : State} {proc thread n t : Nat} {pre post : List Work}
    (hn : (s.buffer t).target_node = n)
    (h : pending s.lists proc thread = pre ++ .transaction t :: post) :
    ∃ u, after next (List.replicate (pre.length + 1) (.read proc thread true)) s = some u ∧
      Later n s u ∧ (s.delivered n).length < (u.delivered n).length := by
  induction pre generalizing s with
  | nil =>
    obtain ⟨-, hlater, -, hdelivered⟩ := read_first h n
    exact ⟨_, after_cons.mpr ⟨_, rfl, rfl⟩, hlater,
      Nat.lt_of_lt_of_eq (Nat.lt_succ_self _) (hdelivered t rfl hn).symm⟩
  | cons w pre ih =>
    obtain ⟨hpending, hlater, htarget, -⟩ := read_first h n
    obtain ⟨u, hu, hlater', hlt⟩ := ih ((htarget t).trans hn) hpending
    exact ⟨u, after_cons.mpr ⟨_, rfl, hu⟩, hlater.trans hlater',
      Nat.lt_of_le_of_lt hlater.delivered hlt⟩

theorem freeBuffer_later {s u : State} {proc thread b : Nat} (n : Nat)
    (hu : s.freeBuffer proc thread b = some u) : Later n s u ∧
      ((s.buffer b).allow_user_free = true → s.node_proc (s.buffer b).target_node = proc →
        (u.buffer b).allocated = false) ∧ u.delivered n = s.delivered n := by
  unfold State.freeBuffer at hu
  dsimp only at hu
  split at hu
  · next hmatch =>
    cases hu
    refine ⟨⟨rfl, rfl, Nat.le_refl _⟩, fun _ hproc => ?_, rfl⟩
    exact hmatch.resolve_right (not_not_intro hproc)
  · split at hu
    · next huser =>
      cases hu
      exact ⟨⟨rfl, rfl, Nat.le_refl _⟩, fun h => absurd (h.symm.trans huser) nofun, rfl⟩
    · split at hu
      · cases hu
      · split at hu
        · cases hu
          exact ⟨⟨rfl, rfl, Nat.le_refl _⟩, fun _ _ => by simp [State.setHasAsync], rfl⟩
        · cases hu
          exact ⟨⟨rfl, rfl, Nat.le_refl _⟩, fun _ _ => by simp, rfl⟩

/-- As long as something is not delivered, the process can have more delivered. -/
theorem serve_more {s : State} (h : s.Inv) {n : Nat} (hmore : s.delivered n ≠ s.accepted n) :
    ∃ as u, (∀ a ∈ as, Action.Serves (s.node_proc n) a) ∧ after next as s = some u ∧
      Later n s u ∧ (s.delivered n).length < (u.delivered n).length := by
  have hsent : ∀ {s : State} {o rest}, s.Inv → s.Sent n o rest →
      ∃ as u, (∀ a ∈ as, Action.Serves (s.node_proc n) a) ∧ after next as s = some u ∧
        Later n s u ∧ (s.delivered n).length < (u.delivered n).length := by
    intro s o rest h hsent
    obtain ⟨⟨k, hk, htodo⟩, hacc, -⟩ := hsent
    have hn : (s.buffer o).target_node = n := by
      refine (h.known n o ?_).2
      rw [hacc]
      exact List.mem_append_right _ List.mem_cons_self
    obtain ⟨thread, hin⟩ := mem_pending hk htodo
    obtain ⟨pre, post, hsplit⟩ := List.append_of_mem hin
    obtain ⟨u, hu, hlater, hlt⟩ := reads_deliver hn hsplit
    refine ⟨_, u, fun a ha => ?_, hu, hlater, hlt⟩
    rw [List.eq_of_mem_replicate ha]
    rfl
  rcases h.node n with ⟨-, -, heq, -⟩ | ⟨-, o, rest, -, hcase | huse⟩
  · exact absurd heq.symm hmore
  · exact hsent h hcase
  · -- the buffer of the last one is freed first
    obtain ⟨before, heq, hacc, halloc, huser, -⟩ := huse
    have hdel : o ∈ s.delivered n := heq ▸ List.mem_append_right _ List.mem_cons_self
    have hn : (s.buffer o).target_node = n := (h.known n o (h.delivered_accepted hdel)).2
    obtain ⟨u, hu, hinv⟩ := State.freeBuffer_inv h (s.node_proc n) 0 o
    obtain ⟨hlater, hfreed, hsame⟩ := freeBuffer_later n hu
    have hfreed := hfreed huser (hn ▸ rfl)
    rcases hinv.node n with ⟨-, -, heq', -⟩ | ⟨-, o', rest', -, hcase | huse'⟩
    · exact absurd (hsame.symm.trans (heq'.symm.trans hlater.accepted)) hmore
    · obtain ⟨as, v, hserves, hv, hlater', hlt⟩ := hsent hinv hcase
      refine ⟨.freeBuffer (s.node_proc n) 0 o :: as, v, fun a ha => ?_,
        after_cons.mpr ⟨u, hu, hv⟩, hlater.trans hlater', hsame ▸ hlt⟩
      rcases List.mem_cons.mp ha with rfl | ha
      · rfl
      · exact hlater.node_proc ▸ hserves a ha
    · obtain ⟨before', heq', -, halloc', -⟩ := huse'
      have hsplit := heq.symm.trans (hsame.symm.trans heq')
      obtain ⟨-, hlast⟩ := List.append_inj' hsplit rfl
      rw [← List.singleton_inj.mp hlast] at halloc'
      exact absurd (hfreed.symm.trans halloc') nofun

/-- The process can have everything delivered. -/
theorem serve_all {s : State} (h : s.Inv) (n : Nat) :
    ∃ as u, (∀ a ∈ as, Action.Serves (s.node_proc n) a) ∧ after next as s = some u ∧
      u.accepted n = s.accepted n ∧ u.delivered n = s.accepted n := by
  generalize hm : (s.accepted n).length - (s.delivered n).length = m
  induction m using Nat.strongRecOn generalizing s with
  | _ m ih =>
    by_cases hdone : s.delivered n = s.accepted n
    · exact ⟨[], s, fun _ ha => absurd ha List.not_mem_nil, rfl, rfl, hdone⟩
    · obtain ⟨as, u, hserves, hu, hlater, hlt⟩ := serve_more h hdone
      have hmeets : Along (fun s a => Action.Meets s a) next as s :=
        along_of_forall (fun a ha s => (hserves a ha).meets s) s
      have hinv : u.Inv := by
        obtain ⟨v, hv, hinv⟩ := along_total (fun _ _ h ha => next_inv h ha) as h hmeets
        exact Option.some.inj (hv.symm.trans hu) ▸ hinv
      have hle : (u.delivered n).length ≤ (u.accepted n).length :=
        (hinv.initial_part n).length_le
      have hless : (u.accepted n).length - (u.delivered n).length < m := by
        rw [hlater.accepted] at hle ⊢
        omega
      obtain ⟨bs, v, hserves', hv, hacc, hdel⟩ := ih _ hless hinv rfl
      refine ⟨as ++ bs, v, fun a ha => ?_, after_append.mpr ⟨u, hu, hv⟩,
        hacc.trans hlater.accepted, hdel.trans hlater.accepted⟩
      rcases List.mem_append.mp ha with ha | ha
      · exact hserves a ha
      · exact hlater.node_proc ▸ hserves' a ha

/-! ## The order of the transactions -/

/-- The order of the transactions of each node, in a state between two steps. -/
structure State.Ordered (s : State) : Prop where
  /-- What is delivered is delivered once, and in the order of acceptance. -/
  order : ∀ n, (s.accepted n).Nodup ∧ s.delivered n <+: s.accepted n
  /-- One is outstanding at most. -/
  single : ∀ n x y, s.Outstanding n x → s.Outstanding n y → x = y
  flag : ∀ n, s.has_async_transaction n = true → ∃ x, s.Outstanding n x
  /-- The process can read and free until everything is delivered. -/
  served : ∀ n, ∃ as u, (∀ a ∈ as, Action.Serves (s.node_proc n) a) ∧
    after next as s = some u ∧ u.accepted n = s.accepted n ∧ u.delivered n = s.accepted n

theorem State.Inv.ordered {s : State} (h : s.Inv) : s.Ordered where
  order n := ⟨h.nodup n, h.initial_part n⟩
  single _ _ _ := h.outstanding_unique
  flag n hyes := by
    rcases h.node n with ⟨hno, -⟩ | ⟨-, o, rest, -, hcase⟩
    · exact absurd (hyes.symm.trans hno) nofun
    · exact ⟨o, h.outstanding_of hcase⟩
  served := serve_all h

/-- In every run in which no thread exits with a one-way transaction on its list, no assertion
fails and every node gets its one-way transactions in their order. -/
theorem one_way_ordered (node_proc : Nat → Nat) (as : List Action)
    (h : Along (fun s a => a.Meets s) next as (State.initial node_proc)) :
    ∃ s, after next as (State.initial node_proc) = some s ∧ s.Ordered := by
  obtain ⟨s, hs, hinv⟩ := along_total (fun _ _ h ha => next_inv h ha) as
    (State.initial_inv node_proc) h
  exact ⟨s, hs, hinv.ordered⟩

/-- Two transactions to a node; the thread that frees the buffer of the first one exits. -/
def exitRun : List Action :=
  [.transaction 0, .transaction 0, .read 0 10 true, .freeBuffer 0 10 0, .threadExit 0 10]

theorem exitRun_isSome : (after next exitRun (State.initial fun _ => 0)).isSome = true := by
  decide

/-- The second one is on no list, and the flag stays set. -/
theorem exitRun_not_ordered :
    ∃ s, after next exitRun (State.initial fun _ => 0) = some s ∧ s.accepted 0 = [0, 1] ∧
      s.delivered 0 = [0] ∧ s.has_async_transaction 0 = true ∧ s.entry 1 = none ∧
      ¬ s.Ordered := by
  refine ⟨(after next exitRun (State.initial fun _ => 0)).get exitRun_isSome,
    (Option.some_get _).symm, by decide, by decide, by decide, by decide, fun hordered => ?_⟩
  obtain ⟨x, -, hacc, hcase⟩ := hordered.flag 0 (by decide)
  have hlists : ∀ x ∈ [0, 1], ((after next exitRun (State.initial fun _ => 0)).get
      exitRun_isSome).entry x = none := by decide
  have hdelivered : ∀ x ∈ [0], (((after next exitRun (State.initial fun _ => 0)).get
      exitRun_isSome).buffer x).allocated = false := by decide
  rcases hcase with ⟨k, hk, -⟩ | ⟨hmem, halloc⟩
  · exact absurd ((hlists x hacc).symm.trans hk) nofun
  · exact absurd ((hdelivered x hmem).symm.trans halloc) nofun

/-- Three transactions and one for another node, with a thread that exits after its work. -/
def orderedRun : List Action :=
  [.transaction 0, .transaction 0, .transaction 1, .read 0 10 true, .freeBuffer 0 11 0,
    .transaction 0, .read 0 11 true, .threadExit 0 11, .freeBuffer 0 10 1]

theorem one_way_ordered_orderedRun :
    ∃ s, after next orderedRun (State.initial fun _ => 0) = some s ∧ s.Ordered :=
  one_way_ordered (fun _ => 0) orderedRun (by decide)

end Cdroid.Driver.OneWay
