import Cdroid.Driver.Works
import Cdroid.Lib.Runs
import Mathlib.Tactic.ByContra

/-! One-way transactions in the driver. The next one for a node comes to a thread when the
buffer of the one before it is freed. No process is released. -/

namespace Cdroid.Driver.OneWay
open Cdroid.Lib Cdroid.Lib.Runs

/-- `struct binder_buffer` of a one-way transaction. -/
structure binder_buffer where
  target_node : Nat
  allocated : Bool
  allow_user_free : Bool
  deriving DecidableEq

/-- An item of a list: a one-way transaction, by its `debug_id`, or other work. -/
inductive Work
  | transaction (t : Nat)
  | other (w : Nat)
  deriving DecidableEq

/-- `node_proc` is `node->proc`. The buffer of a transaction has its `debug_id`. The last two
fields tell what was accepted for a node and delivered to it, in order; no code reads them. -/
structure State where
  node_proc : Nat → Nat
  has_async_transaction : Nat → Bool
  buffer : Nat → binder_buffer
  lists : WorkLists WorkList Work
  last_id : Nat
  accepted : Nat → List Nat
  delivered : Nat → List Nat

namespace State

def initial (node_proc : Nat → Nat) : State where
  node_proc := node_proc
  has_async_transaction _ := false
  buffer _ := ⟨0, false, false⟩
  lists := WorkLists.empty
  last_id := 0
  accepted _ := []
  delivered _ := []

/-! ## Operations -/

def setBuffer (s : State) (t : Nat) (f : binder_buffer → binder_buffer) : State :=
  { s with buffer := fun x => if x = t then f (s.buffer x) else s.buffer x }

def setHasAsync (s : State) (node : Nat) (v : Bool) : State :=
  { s with
    has_async_transaction := fun n => if n = node then v else s.has_async_transaction n }

/-- The end of `binder_transaction`, for a one-way transaction that has not failed. -/
def transaction (s : State) (node : Nat) : State :=
  let t := s.last_id
  let sent : State := { s.setBuffer t fun _ => ⟨node, true, false⟩ with
    last_id := t + 1
    accepted := fun n => if n = node then s.accepted n ++ [t] else s.accepted n }
  if s.has_async_transaction node then
    { sent with lists := s.lists.moveTail (.transaction t) (.async_todo node) }
  else
    { sent.setHasAsync node true with
      lists := s.lists.moveTail (.transaction t) (.todo (s.node_proc node)) }

/-- One round of the loop of `binder_thread_read` -/
def read (s : State) (proc thread : Nat) (wait_for_proc_work : Bool) : State :=
  match nextWork s.lists proc thread wait_for_proc_work with
  | none => s
  | some (.other w) => { s with lists := s.lists.unlink (.other w) }
  | some (.transaction t) =>
    let node := (s.buffer t).target_node
    { s.setBuffer t fun b => { b with allow_user_free := true } with
      lists := s.lists.unlink (.transaction t)
      delivered := fun n => if n = node then s.delivered n ++ [t] else s.delivered n }

/-- `BC_FREE_BUFFER`, or `none` where `BUG_ON` fires -/
def freeBuffer (s : State) (proc thread b : Nat) : Option State :=
  let node := (s.buffer b).target_node
  if (s.buffer b).allocated = false ∨ s.node_proc node ≠ proc then some s -- no match
  else if (s.buffer b).allow_user_free = false then some s -- matched unreturned buffer
  else if s.has_async_transaction node = false then none
  else
    let freed := s.setBuffer b fun x => { x with allocated := false }
    match s.lists.items (.async_todo node) with
    | [] => some (freed.setHasAsync node false)
    | next :: _ =>
      some { freed with lists := s.lists.moveTail next (.threadTodo proc thread) }

/-- `BINDER_THREAD_EXIT`: `binder_release_work` frees the transactions of the thread, and not
their buffers. -/
def threadExit (s : State) (proc thread : Nat) : State :=
  { s with lists := s.lists.clear fun k => k == .threadTodo proc thread }

end State

/-! ## Runs -/

inductive Action
  | transaction (node : Nat)
  | read (proc thread : Nat) (wait_for_proc_work : Bool)
  | freeBuffer (proc thread b : Nat)
  | threadExit (proc thread : Nat)
  /-- Other work comes to a process or to one of its threads. -/
  | post (w proc : Nat) (thread : Option Nat)

def postList (proc : Nat) : Option Nat → WorkList
  | none => .todo proc
  | some thread => .threadTodo proc thread

/-- The state after an action, or `none` after a `BUG`. -/
def next (s : State) : Action → Option State
  | .transaction node => some (s.transaction node)
  | .read proc thread wait_for_proc_work => some (s.read proc thread wait_for_proc_work)
  | .freeBuffer proc thread b => s.freeBuffer proc thread b
  | .threadExit proc thread => some (s.threadExit proc thread)
  | .post w proc thread =>
    some { s with lists := s.lists.moveTail (.other w) (postList proc thread) }

/-! ## The order of a node -/

namespace State

variable {s s' : State} {n t : Nat}

/-- The list that a transaction is on. -/
def entry (s : State) (t : Nat) : Option WorkList := s.lists.on (.transaction t)

/-- No transaction of the node is outstanding. -/
def Quiet (s : State) (n : Nat) : Prop :=
  s.has_async_transaction n = false ∧ s.lists.items (.async_todo n) = [] ∧
    s.accepted n = s.delivered n ∧ ∀ x ∈ s.delivered n, (s.buffer x).allocated = false

/-- The transaction `o` waits to be read, and the ones of `rest` wait for it. -/
def Sent (s : State) (n o : Nat) (rest : List Nat) : Prop :=
  (∃ k, s.entry o = some k ∧ k.IsTodo (s.node_proc n)) ∧
    s.accepted n = s.delivered n ++ o :: rest ∧
    ∀ x ∈ s.delivered n, (s.buffer x).allocated = false

/-- The transaction `o` has been delivered, and its buffer is in use. -/
def InUse (s : State) (n o : Nat) (rest : List Nat) : Prop :=
  ∃ before, s.delivered n = before ++ [o] ∧ s.accepted n = s.delivered n ++ rest ∧
    (s.buffer o).allocated = true ∧ (s.buffer o).allow_user_free = true ∧
    ∀ x ∈ before, (s.buffer x).allocated = false

/-- One transaction is outstanding, and the others are in their order in `async_todo`. -/
def Busy (s : State) (n : Nat) : Prop :=
  s.has_async_transaction n = true ∧ ∃ o rest,
    s.lists.items (.async_todo n) = rest.map Work.transaction ∧
      (s.Sent n o rest ∨ s.InUse n o rest)

/-- What holds between the commands. -/
structure Inv (s : State) : Prop where
  node : ∀ n, s.Quiet n ∨ s.Busy n
  nodup : ∀ n, (s.accepted n).Nodup
  known : ∀ n, ∀ x ∈ s.accepted n, x < s.last_id ∧ (s.buffer x).target_node = n
  listed : ∀ x k, s.entry x = some k → x ∈ s.accepted (s.buffer x).target_node ∧
    (s.buffer x).allocated = true ∧ (s.buffer x).allow_user_free = false ∧
    (k.IsTodo (s.node_proc (s.buffer x).target_node) ∨
      k = .async_todo (s.buffer x).target_node)
  returned : ∀ x, (s.buffer x).allow_user_free = true →
    x ∈ s.delivered (s.buffer x).target_node

theorem initial_inv (node_proc : Nat → Nat) : (initial node_proc).Inv where
  node n := Or.inl ⟨rfl, rfl, rfl, fun _ h => absurd h List.not_mem_nil⟩
  nodup _ := List.nodup_nil
  known _ _ h := absurd h List.not_mem_nil
  listed x k h := by simp [entry, initial, WorkLists.empty] at h
  returned x h := by simp [initial] at h

/-! ## What the invariant says -/

theorem Inv.delivered_accepted (h : s.Inv) {x : Nat} (hx : x ∈ s.delivered n) :
    x ∈ s.accepted n := by
  rcases h.node n with ⟨-, -, heq, -⟩ | ⟨-, o, rest, -, ⟨-, heq, -⟩ | ⟨before, -, heq, -⟩⟩
  · rw [heq]
    exact hx
  · rw [heq]
    exact List.mem_append_left _ hx
  · rw [heq]
    exact List.mem_append_left _ hx

/-- What is delivered is on no list. -/
theorem Inv.entry_of_delivered (h : s.Inv) {x : Nat} (hx : x ∈ s.delivered n) :
    s.entry x = none := by
  by_contra hne
  obtain ⟨k, hk⟩ := Option.ne_none_iff_exists'.mp hne
  obtain ⟨-, halloc, huser, -⟩ := h.listed x k hk
  rcases h.node n with ⟨-, -, -, hfree⟩ | ⟨-, o, rest, -, hcase⟩
  · exact absurd ((hfree x hx).symm.trans halloc) nofun
  · rcases hcase with ⟨-, -, hfree⟩ | ⟨before, heq, -, -, ho, hfree⟩
    · exact absurd ((hfree x hx).symm.trans halloc) nofun
    · rw [heq, List.mem_append, List.mem_singleton] at hx
      rcases hx with hx | rfl
      · exact absurd ((hfree x hx).symm.trans halloc) nofun
      · exact absurd (huser.symm.trans ho) nofun

/-- A transaction that waits to be read is the first one that is not delivered. -/
theorem Inv.sent_of_entry (h : s.Inv) {k : WorkList} {proc : Nat} (hk : s.entry t = some k)
    (htodo : k.IsTodo proc) (hn : (s.buffer t).target_node = n) :
    s.has_async_transaction n = true ∧ s.node_proc n = proc ∧
      ∃ rest, s.lists.items (.async_todo n) = rest.map Work.transaction ∧ s.Sent n t rest := by
  obtain ⟨hacc, halloc, huser, hplace⟩ := h.listed t k hk
  rw [hn] at hacc hplace
  have hnot : k ≠ .async_todo n := by
    rintro rfl
    exact htodo
  have hproc : s.node_proc n = proc := by
    rcases hplace with hp | hp
    · cases k with
      | todo p => exact hp.symm.trans htodo
      | threadTodo p u => exact hp.symm.trans htodo
      | delivered_death p => exact htodo.elim
      | async_todo m => exact htodo.elim
    · exact absurd hp hnot
  have hdel : t ∉ s.delivered n := fun hmem =>
    absurd ((h.entry_of_delivered hmem).symm.trans hk) nofun
  have hrest : ∀ rest : List Nat, s.lists.items (.async_todo n) = rest.map Work.transaction →
      t ∉ rest := by
    intro rest hitems hmem
    have hon := (s.lists.mem_iff _ _).mpr (hitems ▸ List.mem_map_of_mem hmem)
    exact hnot (Option.some.inj (hk.symm.trans hon))
  rcases h.node n with ⟨-, -, heq, -⟩ | ⟨hasync, o, rest, hitems, hcase⟩
  · exact absurd (heq ▸ hacc) hdel
  · rcases hcase with hsent | ⟨before, -, heq, -⟩
    · rw [hsent.2.1, List.mem_append, List.mem_cons] at hacc
      rcases hacc with hmem | rfl | hmem
      · exact absurd hmem hdel
      · exact ⟨hasync, hproc, rest, hitems, hsent⟩
      · exact absurd hmem (hrest rest hitems)
    · rw [heq, List.mem_append] at hacc
      rcases hacc with hmem | hmem
      · exact absurd hmem hdel
      · exact absurd hmem (hrest rest hitems)

/-- A buffer that the process may free is that of the last one that was delivered. -/
theorem Inv.inUse_of_returned (h : s.Inv) (halloc : (s.buffer t).allocated = true)
    (huser : (s.buffer t).allow_user_free = true) (hn : (s.buffer t).target_node = n) :
    s.has_async_transaction n = true ∧
      ∃ rest, s.lists.items (.async_todo n) = rest.map Work.transaction ∧ s.InUse n t rest := by
  have hdel := h.returned t huser
  rw [hn] at hdel
  rcases h.node n with ⟨-, -, -, hfree⟩ | ⟨hasync, o, rest, hitems, ⟨-, -, hfree⟩ | huse⟩
  · exact absurd ((hfree t hdel).symm.trans halloc) nofun
  · exact absurd ((hfree t hdel).symm.trans halloc) nofun
  · obtain ⟨before, heq, hacc, ho, huser', hfree⟩ := huse
    have hlast := hdel
    rw [heq, List.mem_append, List.mem_singleton] at hlast
    rcases hlast with hmem | rfl
    · exact absurd ((hfree t hmem).symm.trans halloc) nofun
    · exact ⟨hasync, rest, hitems, before, heq, hacc, ho, huser', hfree⟩

theorem Inv.initial_part (h : s.Inv) (n : Nat) : s.delivered n <+: s.accepted n := by
  rcases h.node n with ⟨-, -, heq, -⟩ | ⟨-, o, rest, -, ⟨-, heq, -⟩ | ⟨before, -, heq, -⟩⟩
  · exact heq ▸ List.prefix_rfl
  · exact heq ▸ List.prefix_append _ _
  · exact heq ▸ List.prefix_append _ _

/-- The transaction is queued outside `async_todo`, or delivered with its buffer in use. -/
def Outstanding (s : State) (n t : Nat) : Prop :=
  (s.buffer t).target_node = n ∧ t ∈ s.accepted n ∧
    ((∃ k, s.entry t = some k ∧ k ≠ .async_todo n) ∨
      (t ∈ s.delivered n ∧ (s.buffer t).allocated = true))

theorem Inv.outstanding_cases (h : s.Inv) (ht : s.Outstanding n t) :
    ∃ rest, s.Sent n t rest ∨ s.InUse n t rest := by
  obtain ⟨hn, -, ⟨k, hk, hne⟩ | ⟨hdel, halloc⟩⟩ := ht
  · obtain ⟨-, -, -, hplace⟩ := h.listed t k hk
    rw [hn] at hplace
    obtain ⟨-, -, rest, -, hsent⟩ := h.sent_of_entry hk (hplace.resolve_right hne) hn
    exact ⟨rest, Or.inl hsent⟩
  · rcases h.node n with ⟨-, -, -, hfree⟩ | ⟨-, o, rest, -, ⟨-, -, hfree⟩ | huse⟩
    · exact absurd ((hfree t hdel).symm.trans halloc) nofun
    · exact absurd ((hfree t hdel).symm.trans halloc) nofun
    · refine ⟨rest, Or.inr ?_⟩
      obtain ⟨before, heq, hrest⟩ := huse
      rw [heq, List.mem_append, List.mem_singleton] at hdel
      rcases hdel with hmem | rfl
      · exact absurd ((hrest.2.2.2 t hmem).symm.trans halloc) nofun
      · exact ⟨before, heq, hrest⟩

theorem Inv.outstanding_unique (h : s.Inv) {x y : Nat} (hx : s.Outstanding n x)
    (hy : s.Outstanding n y) : x = y := by
  have hapart : ∀ {a b rest rest'}, s.Sent n a rest → ¬ s.InUse n b rest' := by
    rintro a b rest rest' ⟨-, -, hfree⟩ ⟨before, heq, -, halloc, -⟩
    have hmem : b ∈ s.delivered n := heq ▸ List.mem_append_right _ List.mem_cons_self
    exact absurd ((hfree b hmem).symm.trans halloc) nofun
  obtain ⟨rest, hx⟩ := h.outstanding_cases hx
  obtain ⟨rest', hy⟩ := h.outstanding_cases hy
  rcases hx with hx | hx
  · rcases hy with hy | hy
    · exact (List.cons.inj (List.append_cancel_left (hx.2.1.symm.trans hy.2.1))).1
    · exact absurd hy (hapart hx)
  · rcases hy with hy | hy
    · exact absurd hx (hapart hy)
    · obtain ⟨before, hx, -⟩ := hx
      obtain ⟨before', hy, -⟩ := hy
      obtain ⟨-, hlast⟩ := List.append_inj' (hx.symm.trans hy) rfl
      exact List.singleton_inj.mp hlast

theorem Inv.outstanding_of (h : s.Inv) {o : Nat} {rest : List Nat}
    (ho : s.Sent n o rest ∨ s.InUse n o rest) : s.Outstanding n o := by
  rcases ho with ⟨⟨k, hk, htodo⟩, hacc, -⟩ | ⟨before, heq, -, halloc, -⟩
  · have hmem : o ∈ s.accepted n := hacc ▸ List.mem_append_right _ List.mem_cons_self
    refine ⟨(h.known n o hmem).2, hmem, Or.inl ⟨k, hk, ?_⟩⟩
    rintro rfl
    exact htodo
  · have hdel : o ∈ s.delivered n := heq ▸ List.mem_append_right _ List.mem_cons_self
    have hmem := h.delivered_accepted hdel
    exact ⟨(h.known n o hmem).2, hmem, Or.inr ⟨hdel, halloc⟩⟩

/-- Nothing that other nodes do changes the order of a node. -/
theorem node_congr (h : s.Quiet n ∨ s.Busy n) (hdel : ∀ x ∈ s.delivered n, x ∈ s.accepted n)
    (hproc : s'.node_proc = s.node_proc)
    (hasync : s'.has_async_transaction n = s.has_async_transaction n)
    (hitems : s'.lists.items (.async_todo n) = s.lists.items (.async_todo n))
    (haccepted : s'.accepted n = s.accepted n) (hdelivered : s'.delivered n = s.delivered n)
    (hbuffer : ∀ x ∈ s.accepted n, s'.buffer x = s.buffer x)
    (hentry : ∀ x ∈ s.accepted n, s'.entry x = s.entry x) : s'.Quiet n ∨ s'.Busy n := by
  have hfree : (∀ x ∈ s.delivered n, (s.buffer x).allocated = false) →
      ∀ x ∈ s'.delivered n, (s'.buffer x).allocated = false := by
    intro hfree x hx
    rw [hdelivered] at hx
    rw [hbuffer x (hdel x hx)]
    exact hfree x hx
  rcases h with ⟨hno, hempty, heq, hall⟩ | ⟨hyes, o, rest, hrest, hcase⟩
  · exact Or.inl ⟨hasync.trans hno, hitems.trans hempty,
      haccepted.trans (heq.trans hdelivered.symm), hfree hall⟩
  · refine Or.inr ⟨hasync.trans hyes, o, rest, hitems.trans hrest, ?_⟩
    rcases hcase with ⟨⟨k, hk, htodo⟩, heq, hall⟩ | ⟨before, heq, hacc, halloc, huser, hall⟩
    · have ho : o ∈ s.accepted n := by
        rw [heq]
        exact List.mem_append_right _ List.mem_cons_self
      exact Or.inl ⟨⟨k, (hentry o ho).trans hk, by rw [hproc]; exact htodo⟩,
        by rw [haccepted, hdelivered, heq], hfree hall⟩
    · have hmem : ∀ x ∈ s.delivered n, s'.buffer x = s.buffer x := fun x hx =>
        hbuffer x (hdel x hx)
      have ho : s'.buffer o = s.buffer o :=
        hmem o (heq ▸ List.mem_append_right _ List.mem_cons_self)
      refine Or.inr ⟨before, hdelivered.trans heq, by rw [haccepted, hdelivered, hacc],
        ho ▸ halloc, ho ▸ huser, fun x hx => ?_⟩
      rw [hmem x (heq ▸ List.mem_append_left _ hx)]
      exact hall x hx

/-! ## Steps -/

@[simp] theorem buffer_setBuffer (x : Nat) (f : binder_buffer → binder_buffer) :
    (s.setBuffer t f).buffer x = if x = t then f (s.buffer x) else s.buffer x := rfl

@[simp] theorem accepted_setBuffer (f : binder_buffer → binder_buffer) :
    (s.setBuffer t f).accepted = s.accepted := rfl

@[simp] theorem node_proc_setBuffer (f : binder_buffer → binder_buffer) :
    (s.setBuffer t f).node_proc = s.node_proc := rfl

/-- A transaction that is not made yet is on no list. -/
theorem Inv.entry_last (h : s.Inv) (k : WorkList) :
    s.lists.on (.transaction s.last_id) ≠ some k := fun hk =>
  absurd (h.known _ _ (h.listed _ k hk).1).1 (Nat.lt_irrefl _)

/-- A transaction that is accepted for one node leaves the others alone. -/
theorem Inv.ne_last (h : s.Inv) {x : Nat} (hx : x ∈ s.accepted n) : x ≠ s.last_id :=
  Nat.ne_of_lt (h.known n x hx).1

/-- The transaction, with its buffer and its place. -/
theorem accept_inv (h : s.Inv) (node : Nat) (async : Bool) (target : WorkList)
    (hs' : s' = { (s.setBuffer s.last_id fun _ => ⟨node, true, false⟩).setHasAsync node async with
      last_id := s.last_id + 1
      accepted := fun n => if n = node then s.accepted n ++ [s.last_id] else s.accepted n
      lists := s.lists.moveTail (.transaction s.last_id) target })
    (htarget : target.IsTodo (s.node_proc node) ∨ target = .async_todo node)
    (hnode : s'.Quiet node ∨ s'.Busy node) : s'.Inv := by
  have hlast := h.entry_last
  have hentry : ∀ x, s'.entry x = if x = s.last_id then some target else s.entry x := by
    intro x
    simp [hs', entry]
  have hbuffer : ∀ x, s'.buffer x =
      if x = s.last_id then ⟨node, true, false⟩ else s.buffer x := by
    intro x
    rw [hs']
    rfl
  have hacc : ∀ n, s'.accepted n =
      if n = node then s.accepted n ++ [s.last_id] else s.accepted n := by
    intro n
    rw [hs']
  have hmono : ∀ {n x}, x ∈ s.accepted n → x ∈ s'.accepted n := by
    intro n x hx
    rw [hacc]
    split
    · exact List.mem_append_left _ hx
    · exact hx
  constructor
  case node =>
    intro n
    by_cases hn : n = node
    · rw [hn]
      exact hnode
    · refine node_congr (h.node n) (fun _ hx => h.delivered_accepted hx) (by rw [hs']; rfl) ?_ ?_
        ?_ (by rw [hs']; rfl) (fun x hx => ?_) (fun x hx => ?_)
      · rw [hs']
        exact if_neg hn
      · rw [hs']
        refine WorkLists.items_moveTail_of_ne _ (hlast _) ?_
        rintro rfl
        rcases htarget with htodo | heq
        · exact htodo
        · exact hn (WorkList.async_todo.inj heq)
      · rw [hacc, if_neg hn]
      · rw [hbuffer, if_neg (h.ne_last hx)]
      · rw [hentry, if_neg (h.ne_last hx)]
  case nodup =>
    intro n
    rw [hacc]
    split
    · exact List.nodup_append.mpr ⟨h.nodup n, List.pairwise_singleton _ _, fun x hx y hy heq =>
        h.ne_last hx (heq.trans (List.mem_singleton.mp hy))⟩
    · exact h.nodup n
  case known =>
    intro n x hx
    rw [hacc] at hx
    have hold : x ∈ s.accepted n → x < s'.last_id ∧ (s'.buffer x).target_node = n := by
      intro hx
      rw [hbuffer, if_neg (h.ne_last hx)]
      exact ⟨by rw [hs']; exact Nat.lt_succ_of_lt (h.known n x hx).1, (h.known n x hx).2⟩
    split at hx
    · next hn =>
      rcases List.mem_append.mp hx with hx | hx
      · exact hold hx
      · rw [List.mem_singleton.mp hx, hbuffer, if_pos rfl]
        exact ⟨by rw [hs']; exact Nat.lt_succ_self _, hn.symm⟩
    · exact hold hx
  case listed =>
    intro x k hk
    rw [hentry] at hk
    rw [hbuffer]
    have hproc : s'.node_proc = s.node_proc := by rw [hs']; rfl
    rw [hproc]
    split at hk
    · next hx =>
      cases hk
      rw [if_pos hx, hacc, if_pos rfl, hx]
      exact ⟨List.mem_append_right _ List.mem_cons_self, rfl, rfl, htarget⟩
    · next hx =>
      rw [if_neg hx]
      obtain ⟨hmem, hrest⟩ := h.listed x k hk
      exact ⟨hmono hmem, hrest⟩
  case returned =>
    intro x
    rw [hbuffer]
    split
    · exact nofun
    · rw [show s'.delivered = s.delivered by rw [hs']; rfl]
      exact h.returned x

theorem transaction_inv (h : s.Inv) (node : Nat) : (s.transaction node).Inv := by
  have hlast := h.entry_last
  have hfresh : ∀ x ∈ s.delivered node, x ≠ s.last_id := fun x hx =>
    h.ne_last (h.delivered_accepted hx)
  unfold transaction
  dsimp only
  by_cases hasync : s.has_async_transaction node = true
  · rw [if_pos hasync]
    refine accept_inv h node true (.async_todo node) ?_ (Or.inr rfl) ?_
    · simp only [setHasAsync, setBuffer, State.mk.injEq, true_and, and_true]
      funext n
      split
      · next hn => rw [hn, hasync]
      · rfl
    · -- it waits behind the others
      have hitems : ∀ rest : List Nat,
          s.lists.items (.async_todo node) = rest.map Work.transaction →
          (s.lists.moveTail (.transaction s.last_id) (.async_todo node)).items
            (.async_todo node) = (rest ++ [s.last_id]).map Work.transaction := by
        intro rest hrest
        rw [WorkLists.items_moveTail, if_pos rfl, List.map_append, ← hrest,
          List.erase_of_not_mem (mt (s.lists.mem_iff _ _).mpr (hlast _))]
        rfl
      rcases h.node node with ⟨hno, -⟩ | ⟨-, o, rest, hrest, hcase⟩
      · exact absurd (hasync.symm.trans hno) nofun
      · refine Or.inr ⟨hasync, o, rest ++ [s.last_id], hitems rest hrest, ?_⟩
        rcases hcase with ⟨⟨k, hk, htodo⟩, heq, hfree⟩ | ⟨before, heq, hacc, halloc, huser, hfree⟩
        · refine Or.inl ⟨⟨k, ?_, htodo⟩, ?_, fun x hx => ?_⟩
          · have ho : o ≠ s.last_id := by
              rintro rfl
              exact hlast k hk
            have hsame : (s.lists.moveTail (.transaction s.last_id) (.async_todo node)).on
                (.transaction o) = s.entry o := by simp [entry, ho]
            exact hsame.trans hk
          · simp [heq, setBuffer]
          · rw [show State.buffer _ x = s.buffer x from if_neg (hfresh x hx)]
            exact hfree x hx
        · have hmem : ∀ x ∈ s.delivered node, State.buffer { s.setBuffer s.last_id
              fun _ => ⟨node, true, false⟩ with } x = s.buffer x := fun x hx =>
            if_neg (hfresh x hx)
          have ho := hmem o (heq ▸ List.mem_append_right _ List.mem_cons_self)
          refine Or.inr ⟨before, heq, ?_, ?_, ?_, fun x hx => ?_⟩
          · simp [hacc, setBuffer]
          · exact (congrArg binder_buffer.allocated ho).trans halloc
          · exact (congrArg binder_buffer.allow_user_free ho).trans huser
          · have hx' := hmem x (heq ▸ List.mem_append_left _ hx)
            exact (congrArg binder_buffer.allocated hx').trans (hfree x hx)
  · rw [if_neg hasync]
    refine accept_inv h node true (.todo (s.node_proc node)) rfl (Or.inl rfl) ?_
    -- it is the one that is outstanding
    rcases h.node node with ⟨-, hempty, heq, hfree⟩ | ⟨hyes, -⟩
    · refine Or.inr ⟨if_pos rfl, s.last_id, [], ?_, Or.inl ⟨⟨.todo (s.node_proc node), ?_, rfl⟩,
        ?_, fun x hx => ?_⟩⟩
      · rw [List.map_nil, ← hempty]
        exact WorkLists.items_moveTail_of_ne _ (hlast _) nofun
      · simp [entry]
      · simp [setHasAsync, setBuffer, heq]
      · rw [show State.buffer _ x = s.buffer x from if_neg (hfresh x hx)]
        exact hfree x hx
    · exact absurd hyes hasync

/-- A step that moves other work only. -/
theorem Inv.frame (h : s.Inv) (lists : WorkLists WorkList Work)
    (hon : ∀ x, lists.on (.transaction x) = s.entry x)
    (hitems : ∀ n, lists.items (.async_todo n) = s.lists.items (.async_todo n)) :
    Inv { s with lists } where
  node n := node_congr (h.node n) (fun _ hx => h.delivered_accepted hx) rfl rfl (hitems n) rfl rfl
    (fun _ _ => rfl) (fun x _ => hon x)
  nodup := h.nodup
  known := h.known
  listed x k hk := h.listed x k ((hon x).symm.trans hk)
  returned := h.returned

/-- Only transactions wait in `async_todo`. -/
theorem Inv.async_items (h : s.Inv) (n w : Nat) :
    Work.other w ∉ s.lists.items (.async_todo n) := by
  rcases h.node n with ⟨-, hempty, -⟩ | ⟨-, o, rest, hrest, -⟩
  · simp [hempty]
  · simp [hrest]

theorem post_inv (h : s.Inv) (w proc : Nat) (thread : Option Nat) :
    Inv { s with lists := s.lists.moveTail (.other w) (postList proc thread) } := by
  refine h.frame _ (fun x => by simp [entry]) fun n => ?_
  have hne : WorkList.async_todo n ≠ postList proc thread := by
    cases thread <;> exact nofun
  exact WorkLists.items_moveTail_of_ne _ (mt (s.lists.mem_iff _ _).mp (h.async_items n w)) hne

/-- The first transaction that is not delivered is taken from its list. -/
theorem deliver_inv (h : s.Inv) {k : WorkList} {proc : Nat} (hk : s.entry t = some k)
    (htodo : k.IsTodo proc) (hn : (s.buffer t).target_node = n) :
    Inv { s.setBuffer t fun b => { b with allow_user_free := true } with
      lists := s.lists.unlink (.transaction t)
      delivered := fun m => if m = n then s.delivered m ++ [t] else s.delivered m } := by
  obtain ⟨hasync, -, rest, hrest, -, heq, hfree⟩ := h.sent_of_entry hk htodo hn
  obtain ⟨hacc, halloc, -⟩ := h.listed t k hk
  rw [hn] at hacc
  have hother : ∀ {m x}, m ≠ n → x ∈ s.accepted m → x ≠ t := by
    rintro m x hm hx rfl
    exact hm ((h.known m x hx).2.symm.trans hn)
  have hdel : t ∉ s.delivered n := fun hmem =>
    absurd ((h.entry_of_delivered hmem).symm.trans hk) nofun
  have hkeep : ∀ m, (s.lists.unlink (.transaction t)).items (.async_todo m) =
      s.lists.items (.async_todo m) := by
    refine fun m => WorkLists.items_unlink_of_ne _ fun hon => ?_
    rw [Option.some.inj (hk.symm.trans hon)] at htodo
    exact htodo
  constructor
  case node =>
    intro m
    by_cases hm : m = n
    · refine Or.inr ⟨hm ▸ hasync, t, rest, (hkeep m).trans (hm ▸ hrest),
        Or.inr ⟨s.delivered n, ?_, ?_, ?_, ?_, fun x hx => ?_⟩⟩
      · simp [hm]
      · simp [hm, setBuffer, heq]
      · simp [halloc]
      · simp
      · have hx' : x ≠ t := fun h => hdel (h ▸ hx)
        simp [hx', hfree x hx]
    · refine node_congr (h.node m) (fun _ hx => h.delivered_accepted hx) rfl rfl (hkeep m) rfl
        (if_neg hm) (fun x hx => if_neg (hother hm hx)) fun x hx => ?_
      simp [entry, hother hm hx]
  case nodup => exact h.nodup
  case known =>
    intro m x hx
    refine ⟨(h.known m x hx).1, ?_⟩
    simp only [buffer_setBuffer]
    split <;> exact (h.known m x hx).2
  case listed =>
    intro x j hj
    have hx : x ≠ t := by
      rintro rfl
      simp [entry] at hj
    have hold : s.entry x = some j := by simpa [entry, hx] using hj
    simpa [hx] using h.listed x j hold
  case returned =>
    intro x hx
    by_cases hxt : x = t
    · simp [hxt, hn]
    · have hmem := h.returned x (by simpa [hxt] using hx)
      simp only [buffer_setBuffer, if_neg hxt]
      split
      · exact List.mem_append_left _ hmem
      · exact hmem

theorem read_inv (h : s.Inv) (proc thread : Nat) (wait_for_proc_work : Bool) :
    (s.read proc thread wait_for_proc_work).Inv := by
  unfold read
  split
  · exact h
  · next w hnext =>
    exact h.frame _ (fun x => by simp [entry]) fun n =>
      List.erase_of_not_mem (h.async_items n w)
  · next x hnext =>
    obtain ⟨k, hk, htodo⟩ := on_of_nextWork hnext
    exact deliver_inv h hk htodo rfl

theorem threadExit_inv (h : s.Inv) (proc thread : Nat)
    (hclear : ∀ x, .transaction x ∉ s.lists.items (.threadTodo proc thread)) :
    (s.threadExit proc thread).Inv := by
  refine h.frame _ (fun x => ?_) fun n => by simp [WorkLists.items_clear]
  have hnot : s.lists.on (.transaction x) ≠ some (.threadTodo proc thread) :=
    mt (s.lists.mem_iff _ _).mp (hclear x)
  cases hon : s.lists.on (.transaction x) with
  | none => simp [entry, hon]
  | some k =>
    have hk : k ≠ .threadTodo proc thread := fun heq => hnot (heq ▸ hon)
    simp [entry, hon, hk]

/-- No assertion fails, and the next transaction is sent to the thread that frees. -/
theorem freeBuffer_inv (h : s.Inv) (proc thread b : Nat) :
    ∃ u, s.freeBuffer proc thread b = some u ∧ u.Inv := by
  unfold freeBuffer
  dsimp only
  by_cases hmatch : (s.buffer b).allocated = false ∨
      s.node_proc (s.buffer b).target_node ≠ proc
  · exact ⟨s, if_pos hmatch, h⟩
  rw [if_neg hmatch]
  by_cases huser : (s.buffer b).allow_user_free = false
  · exact ⟨s, if_pos huser, h⟩
  rw [if_neg huser]
  rw [not_or, Bool.not_eq_false, not_not] at hmatch
  obtain ⟨halloc, hproc⟩ := hmatch
  obtain ⟨hasync, rest, hrest, before, heq, hacc, -, -, hfree⟩ :=
    h.inUse_of_returned halloc (Bool.not_eq_false _ ▸ huser) rfl
  rw [if_neg (by simp [hasync])]
  generalize hn : (s.buffer b).target_node = n at *
  have hother : ∀ {m x}, m ≠ n → x ∈ s.accepted m → x ≠ b := by
    rintro m x hm hx rfl
    exact hm ((h.known m x hx).2.symm.trans hn)
  have hfreed : ∀ x ∈ s.delivered n, (if x = b then
      { s.buffer x with allocated := false } else s.buffer x).allocated = false := by
    intro x hx
    rw [heq, List.mem_append, List.mem_singleton] at hx
    rcases hx with hx | rfl
    · split
      · rfl
      · exact hfree x hx
    · rw [if_pos rfl]
  have hkeep : ∀ x, ((s.setBuffer b fun x => { x with allocated := false }).buffer x).target_node =
      (s.buffer x).target_node ∧
      ((s.setBuffer b fun x => { x with allocated := false }).buffer x).allow_user_free =
      (s.buffer x).allow_user_free := by
    intro x
    simp only [buffer_setBuffer]
    split <;> exact ⟨rfl, rfl⟩
  have hlisted : ∀ x k, s.entry x = some k → x ≠ b := by
    rintro x k hk rfl
    exact huser ((h.listed x k hk).2.2.1)
  cases rest with
  | nil =>
    rw [hrest, List.map_nil]
    refine ⟨_, rfl, ?_⟩
    constructor
    case node =>
      intro m
      by_cases hm : m = n
      · exact Or.inl ⟨if_pos hm, hm ▸ hrest, hm ▸ (hacc.trans (List.append_nil _)),
          hm ▸ hfreed⟩
      · exact node_congr (h.node m) (fun _ hx => h.delivered_accepted hx) rfl (if_neg hm) rfl rfl
          rfl (fun x hx => if_neg (hother hm hx)) fun _ _ => rfl
    case nodup => exact h.nodup
    case known => exact fun m x hx => ⟨(h.known m x hx).1, (hkeep x).1.trans (h.known m x hx).2⟩
    case listed =>
      intro x k hk
      have hx := hlisted x k hk
      simpa [setHasAsync, hx] using h.listed x k hk
    case returned =>
      intro x hx
      have hmem := h.returned x ((hkeep x).2.symm.trans hx)
      exact (hkeep x).1 ▸ hmem
  | cons r rest =>
    rw [hrest, List.map_cons]
    refine ⟨_, rfl, ?_⟩
    have hr : s.entry r = some (.async_todo n) :=
      (s.lists.mem_iff _ _).mpr (hrest ▸ List.mem_cons_self)
    have hrn : (s.buffer r).target_node = n := by
      have hmem : r ∈ s.accepted n := by
        rw [hacc]
        exact List.mem_append_right _ List.mem_cons_self
      exact (h.known n r hmem).2
    constructor
    case node =>
      intro m
      by_cases hm : m = n
      · refine Or.inr ⟨hm ▸ hasync, r, rest, ?_,
          Or.inl ⟨⟨.threadTodo proc thread, ?_, ?_⟩, hm ▸ hacc, hm ▸ hfreed⟩⟩
        · rw [hm, WorkLists.items_moveTail, if_neg nofun, hrest]
          exact List.erase_cons_head _ _
        · simp [entry]
        · rw [hm]
          exact hproc.symm
      · refine node_congr (h.node m) (fun _ hx => h.delivered_accepted hx) rfl rfl ?_ rfl
          rfl (fun x hx => if_neg (hother hm hx)) fun x hx => ?_
        · refine WorkLists.items_moveTail_of_ne _ (fun hon => hm ?_) nofun
          exact (WorkList.async_todo.inj (Option.some.inj (hr.symm.trans hon))).symm
        · have hx : x ≠ r := by
            rintro rfl
            exact hm ((h.known m x hx).2.symm.trans hrn)
          simp [entry, hx]
    case nodup => exact h.nodup
    case known => exact fun m x hx => ⟨(h.known m x hx).1, (hkeep x).1.trans (h.known m x hx).2⟩
    case listed =>
      intro x k hk
      by_cases hx : x = r
      · obtain ⟨hmem, halloc, huser, -⟩ := h.listed r _ hr
        have hrb := hlisted r _ hr
        have hk : WorkList.threadTodo proc thread = k := by simpa [entry, hx] using hk
        rw [hx, ← hk]
        simp only [buffer_setBuffer, if_neg hrb, hrn]
        rw [hrn] at hmem
        exact ⟨hmem, halloc, huser, Or.inl hproc.symm⟩
      · have hold : s.entry x = some k := by simpa [entry, hx] using hk
        simpa [hlisted x k hold] using h.listed x k hold
    case returned =>
      intro x hx
      have hmem := h.returned x ((hkeep x).2.symm.trans hx)
      exact (hkeep x).1 ▸ hmem

end State

end Cdroid.Driver.OneWay
