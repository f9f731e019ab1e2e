import Cdroid.Driver.Transaction
import Mathlib.Tactic.ByContra

/-! What the operations on nodes and references do to the counts. -/

namespace Cdroid.Driver.References
open Cdroid.Lib

/-- `local_strong_refs` or `local_weak_refs` -/
def binder_node.locals (n : binder_node) (strong : Bool) : Int :=
  if strong then n.local_strong_refs else n.local_weak_refs

namespace binder_node
variable (n : binder_node)

theorem locals_add (strong internal st : Bool) (k : Int) :
    (n.add strong internal k).locals st =
      n.locals st + if st = strong ∧ internal = false then k else 0 := by
  cases strong <;> cases internal <;> cases st <;> simp [add, locals]

theorem internals_add (strong internal : Bool) (k : Int) :
    (n.add strong internal k).internal_strong_refs =
      n.internal_strong_refs + if strong = true ∧ internal = true then k else 0 := by
  cases strong <;> cases internal <;> simp [add]

/-- A local count is one more whatever `binder_inc_node` returns, the internal one if it
succeeds. -/
theorem inc_counts (is_context_mgr strong internal : Bool) (l : Option WorkList) :
    (∀ st, (n.inc is_context_mgr strong internal l).2.locals st =
      n.locals st + if st = strong ∧ internal = false then 1 else 0) ∧
    (n.inc is_context_mgr strong internal l).2.internal_strong_refs =
      n.internal_strong_refs + if strong = true ∧ internal = true ∧
        (n.inc is_context_mgr strong internal l).1 = true then 1 else 0 := by
  have hadd := fun st => n.locals_add strong internal st 1
  have hadd' := n.internals_add strong internal 1
  unfold inc
  cases strong with
  | true =>
    rw [if_pos rfl]
    split
    · next hfails =>
      have hinternal : internal = true := by
        simp only [Bool.and_eq_true] at hfails
        exact hfails.1.1.1
      subst hinternal
      simp
    · dsimp only
      refine ⟨fun st => ?_, ?_⟩
      · rw [← hadd]
        split <;> rfl
      · simp only [true_and, and_true]
        simp only [true_and] at hadd'
        rw [← hadd']
        split <;> rfl
  | false =>
    rw [if_neg Bool.false_ne_true]
    dsimp only
    simp only [Bool.false_eq_true, false_and] at hadd' ⊢
    split
    · cases l with
      | none => exact ⟨hadd, hadd'⟩
      | some l => exact ⟨hadd, hadd'⟩
    · exact ⟨hadd, hadd'⟩

end binder_node

namespace State

/-! ## Counts -/

section
variable (s : State)

/-- A count of the reference of a process to a node. One that is not there has none. -/
def held (p a : Nat) (strong : Bool) : Nat := ((s.refs.get (p, a)).map (·.count strong)).getD 0

/-- A local count of a node. One that is not there has none. -/
def locals (a : Nat) (strong : Bool) : Int := ((s.nodes.get a).map (·.locals strong)).getD 0

def internals (a : Nat) : Int := ((s.nodes.get a).map binder_node.internal_strong_refs).getD 0

end

variable {s t u : State} {a b p q : Nat} {st strong internal : Bool}

/-- Nothing that is counted is different. -/
structure Same (s t : State) : Prop where
  held : ∀ p a st, t.held p a st = s.held p a st
  locals : ∀ a st, t.locals a st = s.locals a st
  internals : ∀ a, t.internals a = s.internals a
  procs : t.procs = s.procs
  installed : t.installed = s.installed
  closed : t.closed = s.closed

theorem Same.refl (s : State) : Same s s where
  held _ _ _ := rfl
  locals _ _ := rfl
  internals _ := rfl
  procs := rfl
  installed := rfl
  closed := rfl

theorem Same.trans (h : Same s t) (h' : Same t u) : Same s u where
  held p a st := (h'.held p a st).trans (h.held p a st)
  locals a st := (h'.locals a st).trans (h.locals a st)
  internals a := (h'.internals a).trans (h.internals a)
  procs := h'.procs.trans h.procs
  installed := h'.installed.trans h.installed
  closed := h'.closed.trans h.closed

/-- Everything of the one is found in the other, under the same names. -/
structure Within (s t : State) : Prop where
  nodes : ∀ a n, s.nodes.get a = some n → ∃ m, t.nodes.get a = some m ∧ m.name = n.name
  refs : ∀ k r, s.refs.get k = some r → ∃ q, t.refs.get k = some q ∧ q.desc = r.desc

theorem Within.refl (s : State) : Within s s := ⟨fun _ n h => ⟨n, h, rfl⟩, fun _ r h => ⟨r, h, rfl⟩⟩

theorem Within.trans (h : Within s t) (h' : Within t u) : Within s u := by
  refine ⟨fun a n hn => ?_, fun k r hr => ?_⟩
  · obtain ⟨m, hm, hname⟩ := h.nodes a n hn
    obtain ⟨m', hm', hname'⟩ := h'.nodes a m hm
    exact ⟨m', hm', hname'.trans hname⟩
  · obtain ⟨q, hq, hdesc⟩ := h.refs k r hr
    obtain ⟨q', hq', hdesc'⟩ := h'.refs k q hq
    exact ⟨q', hq', hdesc'.trans hdesc⟩

theorem Within.of_eq (hnodes : t.nodes = s.nodes) (hrefs : t.refs = s.refs) : Within s t :=
  ⟨fun _ n h => ⟨n, hnodes ▸ h, rfl⟩, fun _ r h => ⟨r, hrefs ▸ h, rfl⟩⟩

/-! ## A node is changed -/

section SetNode
variable {k : Int}
variable {f : binder_node → binder_node} {hf : ∀ n, (f n).addr = n.addr ∧ (f n).name = n.name}

theorem get_setNode : (s.setNode a f hf).nodes.get b =
    if b = a then (s.nodes.get b).map f else s.nodes.get b :=
  @Table.get_modify _ _ _ _ _ _ s.nodes a b f hf

theorem within_setNode : Within s (s.setNode a f hf) ∧ Within (s.setNode a f hf) s := by
  refine ⟨⟨fun b n hn => ?_, fun k r hr => ⟨r, hr, rfl⟩⟩, ⟨fun b n hn => ?_, fun k r hr =>
    ⟨r, hr, rfl⟩⟩⟩
  · rw [get_setNode, hn]
    split
    · exact ⟨f n, rfl, (hf n).2⟩
    · exact ⟨n, rfl, rfl⟩
  · rw [get_setNode] at hn
    split at hn
    · obtain ⟨m, hm, rfl⟩ := Option.map_eq_some_iff.mp hn
      exact ⟨m, hm, (hf m).2.symm⟩
    · exact ⟨n, hn, rfl⟩

theorem locals_setNode (h : ∀ n, s.nodes.get a = some n →
      ∀ st, (f n).locals st = n.locals st + if st = strong ∧ internal = false then k else 0)
    (ha : (s.nodes.get a).isSome) :
    (s.setNode a f hf).locals b st =
      s.locals b st + if b = a ∧ st = strong ∧ internal = false then k else 0 := by
  unfold locals
  rw [get_setNode]
  by_cases hb : b = a
  · subst hb
    obtain ⟨n, hn⟩ := Option.isSome_iff_exists.mp ha
    rw [if_pos rfl, hn]
    simpa using h n hn st
  · simp [hb]

theorem internals_setNode {c : Prop} [Decidable c] (h : ∀ n, s.nodes.get a = some n →
      (f n).internal_strong_refs = n.internal_strong_refs + if c then k else 0)
    (ha : (s.nodes.get a).isSome) :
    (s.setNode a f hf).internals b = s.internals b + if b = a ∧ c then k else 0 := by
  unfold internals
  rw [get_setNode]
  by_cases hb : b = a
  · subst hb
    obtain ⟨n, hn⟩ := Option.isSome_iff_exists.mp ha
    rw [if_pos rfl, hn]
    simpa using h n hn
  · simp [hb]

theorem same_setNode (hl : ∀ n st, (f n).locals st = n.locals st)
    (hi : ∀ n, (f n).internal_strong_refs = n.internal_strong_refs) :
    Same s (s.setNode a f hf) where
  held _ _ _ := rfl
  locals b st := by
    unfold locals
    rw [get_setNode]
    split
    · simp [Function.comp_def, hl]
    · rfl
  internals b := by
    unfold internals
    rw [get_setNode]
    split
    · simp [Function.comp_def, hi]
    · rfl
  procs := rfl
  installed := rfl
  closed := rfl

end SetNode

/-- One more or one less of a count of a node. -/
theorem setNode_add (strong internal : Bool) {k : Int} (ha : (s.nodes.get a).isSome) :
    (∀ b st, (s.setNode a (·.add strong internal k)
      (binder_node.add_keeps strong internal k)).locals b st =
        s.locals b st + if b = a ∧ st = strong ∧ internal = false then k else 0) ∧
    ∀ b, (s.setNode a (·.add strong internal k)
      (binder_node.add_keeps strong internal k)).internals b =
        s.internals b + if b = a ∧ strong = true ∧ internal = true then k else 0 :=
  ⟨fun _ _ => locals_setNode (fun n _ st => n.locals_add strong internal st k) ha,
    fun _ => internals_setNode (fun n _ => n.internals_add strong internal k) ha⟩

/-- The internal count is one more if the call succeeds. -/
theorem incNode_counts (strong internal : Bool) (ha : (s.nodes.get a).isSome) (l : Option WorkList) :
    (∀ b st, (s.incNode a strong internal l).locals b st =
      s.locals b st + if b = a ∧ st = strong ∧ internal = false then 1 else 0) ∧
    ∀ b, (s.incNode a strong internal l).internals b =
      s.internals b + if b = a ∧ strong = true ∧ internal = true ∧
        s.incNodeOk a strong internal l = true then 1 else 0 := by
  have hinc := fun n : binder_node =>
    n.inc_counts (s.context_mgr_node = some a) strong internal l
  refine ⟨fun b st => locals_setNode (fun n _ => (hinc n).1) ha,
    fun b => internals_setNode (fun n hn => ?_) ha⟩
  unfold incNodeOk
  rw [hn]
  exact (hinc n).2

/-! ## A node is settled or freed -/

theorem referred_eq_false : s.referred a = false ↔ ∀ p, s.refs.get (p, a) = none := by
  unfold referred
  rw [List.any_eq_false]
  constructor
  · intro h p
    rw [Table.get_eq_none]
    intro r hr hkey
    refine h r hr ?_
    rw [decide_eq_true_iff]
    exact congrArg Prod.snd hkey
  · intro h r hr hnode
    rw [decide_eq_true_iff] at hnode
    exact Table.get_eq_none.mp (h r.proc) r hr (congrArg (Prod.mk r.proc) hnode)

theorem get_freeNode (h : s.referred a = false) :
    (s.freeNode a).nodes.get b = if b = a then none else s.nodes.get b := by
  unfold freeNode
  rw [dif_neg (by rw [h]; exact Bool.false_ne_true)]
  exact Table.get_erase

theorem freeNode_frame : (s.freeNode a).refs = s.refs ∧ (s.freeNode a).procs = s.procs ∧
    (s.freeNode a).installed = s.installed ∧ (s.freeNode a).closed = s.closed := by
  unfold freeNode
  split
  · exact ⟨rfl, rfl, rfl, rfl⟩
  · exact ⟨rfl, rfl, rfl, rfl⟩

theorem refs_settleNode : (s.settleNode a strong).refs = s.refs := by
  unfold settleNode
  split
  · rfl
  · split
    · rfl
    · split
      · split
        · rfl
        · rfl
      · split
        · exact freeNode_frame.1
        · rfl

theorem refs_decNode : (s.decNode a strong internal).refs = s.refs := refs_settleNode

/-- Settling a node leaves the counts as they are, if a node that nothing refers to has no
internal count; and it enters nothing. -/
theorem settleNode_same (strong : Bool) (h : s.referred a = false → s.internals a = 0) :
    Same s (s.settleNode a strong) ∧ Within (s.settleNode a strong) s := by
  unfold settleNode
  split
  · exact ⟨Same.refl s, Within.refl s⟩
  · next n hn =>
    split
    · exact ⟨Same.refl s, Within.refl s⟩
    · split
      · split
        · exact ⟨same_setNode (fun _ _ => rfl) fun _ => rfl, within_setNode.2⟩
        · exact ⟨Same.refl s, Within.refl s⟩
      · split
        · next hfree =>
          obtain ⟨hreferred, hstrong, hweak⟩ := hfree
          rw [Bool.not_eq_true] at hreferred
          obtain ⟨hrefs, hprocs, hinstalled, hclosed⟩ := @freeNode_frame s a
          have hinternal : n.internal_strong_refs = 0 := by
            have hzero := h hreferred
            unfold internals at hzero
            rwa [hn] at hzero
          refine ⟨⟨fun p b st => ?_, fun b st => ?_, fun b => ?_, hprocs, hinstalled, hclosed⟩,
            fun b m hm => ?_, fun k r hr => ⟨r, hrefs ▸ hr, rfl⟩⟩
          · unfold held
            rw [hrefs]
          · unfold locals
            rw [get_freeNode hreferred]
            split
            · next hb =>
              rw [hb, hn]
              cases st
              · exact hweak.symm
              · exact hstrong.symm
            · rfl
          · unfold internals
            rw [get_freeNode hreferred]
            split
            · next hb =>
              rw [hb, hn]
              exact hinternal.symm
            · rfl
          · rw [get_freeNode hreferred] at hm
            split at hm
            · cases hm
            · exact ⟨m, hm, rfl⟩
        · exact ⟨Same.refl s, Within.refl s⟩

/-! ## A reference is changed -/

theorem held_setRef {f : binder_ref → Nat} :
    (s.setRef (q, a) (fun r => r.set strong (f r)) (binder_ref.set_keeps strong f)).held p b st =
      if p = q ∧ b = a ∧ st = strong then ((s.refs.get (q, a)).map f).getD 0
      else s.held p b st := by
  unfold held setRef
  rw [Table.get_modify]
  by_cases hk : (p, b) = (q, a)
  · obtain ⟨rfl, rfl⟩ := Prod.mk.inj hk
    rw [if_pos rfl]
    cases s.refs.get (p, b) with
    | none => simp
    | some r => cases strong <;> cases st <;> simp [binder_ref.set, binder_ref.count]
  · rw [if_neg hk, if_neg]
    rintro ⟨rfl, rfl, -⟩
    exact hk rfl

theorem within_setRef {k : Nat × Nat} {f : binder_ref → Nat} :
    Within s (s.setRef k (fun r => r.set strong (f r)) (binder_ref.set_keeps strong f)) ∧
      Within (s.setRef k (fun r => r.set strong (f r)) (binder_ref.set_keeps strong f)) s := by
  have hdesc : ∀ r : binder_ref, (r.set strong (f r)).desc = r.desc := fun r => by
    cases strong <;> rfl
  refine ⟨⟨fun _ n hn => ⟨n, hn, rfl⟩, fun q r hr => ?_⟩, ⟨fun _ n hn => ⟨n, hn, rfl⟩,
    fun q r hr => ?_⟩⟩
  · unfold setRef
    rw [Table.get_modify, hr]
    split
    · exact ⟨_, rfl, hdesc r⟩
    · exact ⟨r, rfl, rfl⟩
  · unfold setRef at hr
    rw [Table.get_modify] at hr
    split at hr
    · obtain ⟨x, hx, rfl⟩ := Option.map_eq_some_iff.mp hr
      exact ⟨x, hx, (hdesc x).symm⟩
    · exact ⟨r, hr, rfl⟩

theorem get_eraseRef {k x : Nat × Nat} :
    (s.eraseRef k).refs.get x = if x = k then none else s.refs.get x := Table.get_erase

/-- A reference without counts is taken out. -/
theorem eraseRef_same (h : ∀ st, s.held p a st = 0) :
    Same s (s.eraseRef (p, a)) ∧ Within (s.eraseRef (p, a)) s := by
  refine ⟨⟨fun q b st => ?_, fun _ _ => rfl, fun _ => rfl, rfl, rfl, rfl⟩,
    fun _ n hn => ⟨n, hn, rfl⟩, fun k r hr => ?_⟩
  · by_cases hk : (q, b) = (p, a)
    · obtain ⟨rfl, rfl⟩ := Prod.mk.inj hk
      rw [h st]
      unfold held
      rw [get_eraseRef, if_pos rfl]
      rfl
    · unfold held
      rw [get_eraseRef, if_neg hk]
  · rw [get_eraseRef] at hr
    split at hr
    · cases hr
    · exact ⟨r, hr, rfl⟩

/-! ## Something is entered -/

theorem lt_fresh {n : binder_node} (h : n ∈ s.nodes.rows) : n.addr < s.fresh := by
  have hle : ∀ l : List Nat, ∀ x ∈ l, x ≤ l.foldr max 0 := by
    intro l
    induction l with
    | nil => exact fun x hx => nomatch hx
    | cons y l ih =>
      intro x hx
      rcases List.mem_cons.mp hx with rfl | hx
      · exact Nat.le_max_left ..
      · exact Nat.le_trans (ih x hx) (Nat.le_max_right ..)
  exact Nat.lt_succ_of_le (hle _ _ (List.mem_map_of_mem h))

theorem get_fresh : s.nodes.get s.fresh = none := by
  rw [Table.get_eq_none]
  intro n hn haddr
  exact Nat.lt_irrefl _ (haddr ▸ lt_fresh hn)

theorem get_addNode {n : binder_node} (h : s.nodes.fits n = true) :
    (s.addNode n).nodes.get b = if n.addr = b then some n else s.nodes.get b := Table.get_insert h

/-- A node without counts is entered, under a new address. -/
theorem addNode_same {n : binder_node} (h : s.nodes.fits n = true)
    (hl : ∀ st, n.locals st = 0) (hi : n.internal_strong_refs = 0) :
    Same s (s.addNode n) ∧ Within s (s.addNode n) := by
  have hnone : s.nodes.get n.addr = none := by
    unfold Table.fits at h
    rw [Bool.and_eq_true, Option.isNone_iff_eq_none] at h
    exact h.1
  refine ⟨⟨fun _ _ _ => rfl, fun b st => ?_, fun b => ?_, rfl, rfl, rfl⟩, fun b m hm => ?_,
    fun k r hr => ⟨r, hr, rfl⟩⟩
  · unfold locals
    rw [get_addNode h]
    split
    · next hb =>
      rw [← hb, hnone]
      exact hl st
    · rfl
  · unfold internals
    rw [get_addNode h]
    split
    · next hb =>
      rw [← hb, hnone]
      exact hi
    · rfl
  · rw [get_addNode h]
    split
    · next hb =>
      rw [← hb, hnone] at hm
      cases hm
    · exact ⟨m, hm, rfl⟩

/-- A reference without counts is entered, if neither its node nor its descriptor is taken. -/
theorem addRef_same {r : binder_ref} (h : s.refs.fits r = true) (hcount : ∀ st, r.count st = 0)
    (ha : (s.nodes.get r.node).isSome) :
    Same s (s.addRef r) ∧ Within s (s.addRef r) ∧ (s.addRef r).refs.get r.key = some r := by
  have hnone : s.refs.get r.key = none := by
    unfold Table.fits at h
    rw [Bool.and_eq_true, Option.isNone_iff_eq_none] at h
    exact h.1
  have hget : ∀ k, (s.addRef r).refs.get k = if r.key = k then some r else s.refs.get k := by
    intro k
    unfold addRef
    rw [dif_pos ha]
    exact Table.get_insert h
  have hnodes : (s.addRef r).nodes = s.nodes := by
    unfold addRef
    rw [dif_pos ha]
  have hrest : (s.addRef r).procs = s.procs ∧ (s.addRef r).installed = s.installed ∧
      (s.addRef r).closed = s.closed := by
    unfold addRef
    rw [dif_pos ha]
    exact ⟨rfl, rfl, rfl⟩
  refine ⟨⟨fun p b st => ?_, fun b st => ?_, fun b => ?_, hrest.1, hrest.2.1, hrest.2.2⟩,
    ⟨fun b m hm => ⟨m, hnodes ▸ hm, rfl⟩, fun k q hq => ?_⟩, ?_⟩
  · unfold held
    rw [hget]
    split
    · next hk =>
      rw [← hk, hnone]
      exact hcount st
    · rfl
  · unfold locals
    rw [hnodes]
  · unfold internals
    rw [hnodes]
  · rw [hget]
    split
    · next hk =>
      rw [← hk, hnone] at hq
      cases hq
    · exact ⟨q, hq, rfl⟩
  · rw [hget, if_pos rfl]

theorem alloc_same : Same s s.alloc ∧ Within s s.alloc :=
  ⟨⟨fun _ _ _ => rfl, fun _ _ => rfl, fun _ => rfl, rfl, rfl, rfl⟩, Within.of_eq rfl rfl⟩

/-- What `binder_get_ref_for_node` gives: the reference of the process to the node, which it
has or which is entered without counts; and nothing is counted. -/
theorem getRefForNode_spec {ref : Option binder_ref} (ha : (s.nodes.get a).isSome)
    (h : s.getRefForNode p a = .ok (ref, t)) :
    Same s t ∧ Within s t ∧ ∀ r, ref = some r → r.key = (p, a) ∧ t.refs.get (p, a) = some r := by
  unfold getRefForNode at h
  split at h
  · next r hr =>
    cases h
    refine ⟨Same.refl s, Within.refl s, fun r' hr' => ?_⟩
    cases hr'
    exact ⟨Table.key_of_get hr, hr⟩
  · next hnone =>
    dsimp only at h
    split at h
    · split at h
      · cases h
      · next hdesc =>
        cases h
        rw [Bool.not_eq_true, Option.isSome_eq_false_iff] at hdesc
        have hfits : s.alloc.refs.fits ⟨p, a, nextDesc (s.alloc.firstDesc a) (s.alloc.descs p), 0, 0⟩ =
            true := by
          unfold Table.fits
          rw [Bool.and_eq_true, Option.isNone_iff_eq_none]
          exact ⟨hnone, hdesc⟩
        obtain ⟨hsame, hwithin, hget⟩ := addRef_same hfits (fun st => by cases st <;> rfl) ha
        refine ⟨alloc_same.1.trans hsame, alloc_same.2.trans hwithin, fun r hr => ?_⟩
        cases hr
        exact ⟨rfl, hget⟩
    · cases h
      exact ⟨alloc_same.1, alloc_same.2, fun r hr => nomatch hr⟩

end State

end Cdroid.Driver.References
