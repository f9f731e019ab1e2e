import Cdroid.Driver.References
import Cdroid.Lib.SearchTree
import Cdroid.Lib.Runs

/-! The handle table of a process: its references in two trees, by descriptor and by node. -/

namespace Cdroid.Driver.References
open Cdroid.Lib Cdroid.Lib.SearchTree Cdroid.Lib.Runs

/-- The two trees of a `binder_proc`. A reference is named by its address, where `ref` has it. -/
structure Handles where
  refs_by_desc : BinTree Nat
  refs_by_node : BinTree Nat
  ref : Nat → binder_ref

namespace Handles

variable (h : Handles)

def byDesc (desc : BitVec 32) (b : Nat) : Ordering := compare desc.toNat (h.ref b).desc.toNat

def byNode (node b : Nat) : Ordering := compare node (h.ref b).node

/-- `binder_get_ref` -/
def getRef (desc : BitVec 32) : Option Nat := h.refs_by_desc.find (h.byDesc desc)

/-- The descriptors of `refs_by_desc`, from `rb_first` on. -/
def descs : List (BitVec 32) := h.refs_by_desc.inorder.map fun b => (h.ref b).desc

/-- Descriptor 0 is for `binder_context_mgr_node`. -/
def firstDesc (context_mgr_node : Option Nat) (node : Nat) : BitVec 32 :=
  if context_mgr_node = some node then 0 else 1

/-- The new reference is linked in by both keys; one that has its descriptor is a `BUG()`. -/
def enter (rb : Balance Nat) (new_ref : Nat) (r : binder_ref) : Except Bug Handles :=
  match h.refs_by_node.insert (h.byNode r.node) new_ref,
      h.refs_by_desc.insert (h.byDesc r.desc) new_ref with
  | some by_node, some by_desc =>
    .ok {
      refs_by_desc := rb.insertColor by_desc
      refs_by_node := rb.insertColor by_node
      ref := fun x => if x = new_ref then r else h.ref x }
  | _, _ => .error .assertion

/-- `binder_get_ref_for_node`; `kzalloc` is what it gives, if it is called. -/
def getRefForNode (rb : Balance Nat) (context_mgr_node : Option Nat) (proc node : Nat)
    (kzalloc : Option Nat) : Except Bug (Option Nat × Handles) :=
  match h.refs_by_node.find (h.byNode node) with
  | some ref => .ok (some ref, h)
  | none =>
    match kzalloc with
    | none => .ok (none, h)
    | some new_ref =>
      let desc := State.nextDesc (firstDesc context_mgr_node node) h.descs
      (h.enter rb new_ref ⟨proc, node, desc, 0, 0⟩).map fun h => (some new_ref, h)

/-- `binder_delete_ref`, as far as the trees go -/
def deleteRef (rb : Balance Nat) (ref : Nat) : Handles :=
  { h with
    refs_by_desc := rb.erase ref h.refs_by_desc
    refs_by_node := rb.erase ref h.refs_by_node }

/-! ## Runs -/

/-- The reference is in the table. -/
def Live (x : Nat) : Prop := x ∈ h.refs_by_node.inorder

instance (x : Nat) : Decidable (h.Live x) := inferInstanceAs (Decidable (x ∈ _))

/-- What is called. The context manager may be another one at each time. -/
inductive Op
  | get (context_mgr_node : Option Nat) (node : Nat) (kzalloc : Option Nat)
  | delete (ref : Nat)

/-- `kzalloc` gives no address that is in use. -/
def Fresh (kzalloc : Option Nat) : Prop := ∀ x ∈ kzalloc, ¬h.Live x

instance (kzalloc : Option Nat) : Decidable (h.Fresh kzalloc) :=
  inferInstanceAs (Decidable (∀ x ∈ kzalloc, _))

/-- A call, where it returns. -/
def next (rb : Balance Nat) (proc : Nat) (h : Handles) : Op → Option Handles
  | .get context_mgr_node node kzalloc =>
    if h.Fresh kzalloc then
      (h.getRefForNode rb context_mgr_node proc node kzalloc).toOption.map Prod.snd
    else none
  | .delete ref => if h.Live ref then some (h.deleteRef rb ref) else none

/-- A process without references. -/
def empty : Handles := ⟨.leaf, .leaf, fun _ => ⟨0, 0, 0, 0, 0⟩⟩

/-! ## The trees -/

/-- Both trees are ordered by their keys and have the same references. -/
structure InStep : Prop where
  by_desc : Holds (fun a b => (h.ref a).desc.toNat < (h.ref b).desc.toNat) h.refs_by_desc h.Live
  by_node : Holds (fun a b => (h.ref a).node < (h.ref b).node) h.refs_by_node h.Live

section InStep
variable {h}

theorem empty_inStep : empty.InStep :=
  have hnone : ∀ x, False ↔ empty.Live x := fun _ => ⟨False.elim, List.not_mem_nil⟩
  ⟨(holds_leaf (· < ·)).congr hnone fun _ _ hx => hx.elim,
    (holds_leaf (· < ·)).congr hnone fun _ _ hx => hx.elim⟩

/-- A key that grows along the tree tells the references apart. -/
theorem eq_of_sorted {key : Nat → Nat} {t : BinTree Nat} {S : Nat → Prop}
    (ht : Holds (fun a b => key a < key b) t S) {x y : Nat} (hx : S x) (hy : S y)
    (hkey : key x = key y) : x = y := by
  refine List.Pairwise.forall_of_forall_of_flip (R := fun a b => key a = key b → a = b)
    (fun _ _ _ => rfl) (ht.sorted.imp fun hlt heq => absurd heq (Nat.ne_of_lt hlt)) ?_
    ((ht.mem x).mpr hx) ((ht.mem y).mpr hy) hkey
  exact ht.sorted.imp fun hlt heq => absurd heq.symm (Nat.ne_of_lt hlt)

/-- A search finds the reference with the key. -/
theorem find_iff {key : Nat → Nat} {t : BinTree Nat} {S : Nat → Prop}
    (ht : Holds (fun a b => key a < key b) t S) (k x : Nat) :
    t.find (fun b => compare k (key b)) = some x ↔ S x ∧ key x = k := by
  constructor
  · intro hfind
    obtain ⟨hmem, hcmp⟩ := BinTree.find_some hfind
    exact ⟨(ht.mem x).mp hmem, (Nat.compare_eq_eq.mp hcmp).symm⟩
  · rintro ⟨hx, rfl⟩
    refine BinTree.find_eq ((ht.mem x).mpr hx) (Nat.compare_eq_eq.mpr rfl)
      (ht.sorted.imp fun {a b} hlt => ⟨?_, ?_⟩)
    · rintro rfl
      exact Nat.compare_eq_gt.mpr hlt
    · rintro rfl
      exact Nat.compare_eq_lt.mpr hlt

/-- A new reference is linked in, if no other one has its key. -/
theorem insert_holds (key' : Nat → Nat) {key : Nat → Nat} {t : BinTree Nat} {S : Nat → Prop}
    {x k : Nat} (ht : Holds (fun a b => key a < key b) t S) (hx : ¬S x) (hk : ∀ y, S y → key y ≠ k)
    (hkey : ∀ y, key' y = if y = x then k else key y) :
    ∃ t', t.insert (fun b => compare k (key b)) x = some t' ∧
      Holds (fun a b => key' a < key' b) t' fun y => S y ∨ y = x := by
  have hne : ∀ y, S y → y ≠ x := by
    rintro y hy rfl
    exact hx hy
  have hold : ∀ y, S y → key' y = key y := fun y hy => (hkey y).trans (if_neg (hne y hy))
  have hnew : key' x = k := (hkey x).trans (if_pos rfl)
  refine (ht.congr (fun _ => Iff.rfl) fun a b ha hb hlt => ?_).insert
    (fun b => compare k (key b)) x (fun _ _ _ => Nat.lt_trans) hx (fun b hb hcmp => ?_)
    (fun b hb hcmp => ?_) fun b hb hcmp => ?_
  · rwa [hold a ha, hold b hb]
  · exact hk b hb (Nat.compare_eq_eq.mp hcmp).symm
  · rw [hnew, hold b hb]
    exact Nat.compare_eq_lt.mp hcmp
  · rw [hnew, hold b hb]
    exact Nat.compare_eq_gt.mp hcmp

theorem getRef_iff (hs : h.InStep) (desc : BitVec 32) (x : Nat) :
    h.getRef desc = some x ↔ h.Live x ∧ (h.ref x).desc = desc :=
  (find_iff hs.by_desc desc.toNat x).trans (and_congr_right fun _ => BitVec.toNat_inj)

theorem mem_descs (hs : h.InStep) (desc : BitVec 32) :
    desc ∈ h.descs ↔ ∃ x, h.Live x ∧ (h.ref x).desc = desc := by
  unfold descs
  rw [List.mem_map]
  exact exists_congr fun x => and_congr_left fun _ => hs.by_desc.mem x

theorem descs_sorted (hs : h.InStep) : h.descs.Pairwise fun a b => a.toNat < b.toNat :=
  List.pairwise_map.mpr hs.by_desc.sorted

/-! ## A new descriptor -/

/-- The descriptor is not in use, and is the first one from `first` on that is not. -/
structure Smallest (used : BitVec 32 → Prop) (first desc : BitVec 32) : Prop where
  above : first ≤ desc
  unused : ¬used desc
  least : ∀ e, first ≤ e → e < desc → used e

/-- The walk stops at the first gap, if there is one. -/
theorem nextDesc_smallest {ds : List (BitVec 32)} {desc : BitVec 32}
    (hds : ds.Pairwise fun a b => a.toNat < b.toNat)
    (hdesc : ∀ d ∈ ds, desc.toNat ≤ d.toNat + 1) (hgap : ∃ e, desc ≤ e ∧ e ∉ ds) :
    Smallest (· ∈ ds) desc (State.nextDesc desc ds) := by
  induction ds generalizing desc with
  | nil =>
    exact ⟨BitVec.le_refl desc, List.not_mem_nil,
      fun e hle hlt => absurd hlt (BitVec.not_lt.mpr hle)⟩
  | cons d ds ih =>
    obtain ⟨hd, hds⟩ := List.pairwise_cons.mp hds
    unfold State.nextDesc
    split
    · next hlt =>
      refine ⟨BitVec.le_refl desc, fun hmem => ?_,
        fun e hle hlt => absurd hlt (BitVec.not_lt.mpr hle)⟩
      rw [BitVec.lt_def] at hlt
      rcases List.mem_cons.mp hmem with rfl | hmem
      · exact Nat.lt_irrefl _ hlt
      · exact Nat.lt_irrefl _ (hlt.trans (hd desc hmem))
    · next hle =>
      rw [BitVec.lt_def, Nat.not_lt] at hle
      have hfirst := hdesc d List.mem_cons_self
      obtain ⟨e, hle', hmem⟩ := hgap
      rw [BitVec.le_def] at hle'
      rw [List.mem_cons, not_or] at hmem
      obtain ⟨hed, hmem⟩ := hmem
      have hne : e.toNat ≠ d.toNat := fun heq => hed (BitVec.eq_of_toNat_eq heq)
      have hbound := e.isLt
      -- there is a gap above, so that the next descriptor does not wrap
      have hnext : (d + 1).toNat = d.toNat + 1 := by
        rw [BitVec.toNat_add]
        change (d.toNat + 1) % 2 ^ 32 = d.toNat + 1
        exact Nat.mod_eq_of_lt (by omega)
      have hgap : d + 1 ≤ e ∧ e ∉ ds := by
        rw [BitVec.le_def, hnext]
        exact ⟨by omega, hmem⟩
      obtain ⟨habove, hunused, hleast⟩ := ih hds
        (fun c hc => by rw [hnext]; exact Nat.succ_le_succ (Nat.le_of_lt (hd c hc))) ⟨e, hgap⟩
      rw [BitVec.le_def, hnext] at habove
      refine ⟨?_, fun hmem => ?_, fun c hc hlt => ?_⟩
      · rw [BitVec.le_def]
        omega
      · rcases List.mem_cons.mp hmem with heq | hmem
        · rw [heq] at habove
          omega
        · exact hunused hmem
      · by_cases hcd : c.toNat = d.toNat
        · rw [BitVec.eq_of_toNat_eq hcd]
          exact List.mem_cons_self
        · rw [BitVec.le_def] at hc
          refine List.mem_cons_of_mem d (hleast c ?_ hlt)
          rw [BitVec.le_def, hnext]
          omega

/-- The walk ends at 0 if every descriptor from `desc` on is in use. -/
theorem nextDesc_wraps {ds : List (BitVec 32)} {desc : BitVec 32}
    (hds : ds.Pairwise fun a b => a.toNat < b.toNat)
    (hdesc : ∀ d ∈ ds, desc.toNat ≤ d.toNat + 1) (hfull : ∀ e, desc ≤ e → e ∈ ds) :
    State.nextDesc desc ds = 0 := by
  induction ds generalizing desc with
  | nil => exact absurd (hfull desc (BitVec.le_refl desc)) List.not_mem_nil
  | cons d ds ih =>
    obtain ⟨hd, hds⟩ := List.pairwise_cons.mp hds
    unfold State.nextDesc
    split
    · next hlt =>
      rw [BitVec.lt_def] at hlt
      rcases List.mem_cons.mp (hfull desc (BitVec.le_refl desc)) with rfl | hmem
      · exact absurd hlt (Nat.lt_irrefl _)
      · exact absurd (hlt.trans (hd desc hmem)) (Nat.lt_irrefl _)
    · next hle =>
      rw [BitVec.lt_def, Nat.not_lt] at hle
      by_cases hlast : d.toNat + 1 = 2 ^ 32
      · have hzero : d + 1 = 0 := BitVec.eq_of_toNat_eq (by
          rw [BitVec.toNat_add]
          change (d.toNat + 1) % 2 ^ 32 = 0
          rw [hlast, Nat.mod_self])
        rw [hzero]
        cases ds with
        | nil => rfl
        | cons c ds =>
          have hgt := hd c List.mem_cons_self
          have hbound := c.isLt
          omega
      · have hbound := d.isLt
        have hnext : (d + 1).toNat = d.toNat + 1 := by
          rw [BitVec.toNat_add]
          exact Nat.mod_eq_of_lt (by change d.toNat + 1 < 2 ^ 32; omega)
        have hfirst := hdesc d List.mem_cons_self
        refine ih hds
          (fun c hc => by rw [hnext]; exact Nat.succ_le_succ (Nat.le_of_lt (hd c hc))) fun e he => ?_
        rw [BitVec.le_def, hnext] at he
        rcases List.mem_cons.mp (hfull e (by rw [BitVec.le_def]; omega)) with rfl | hmem
        · omega
        · exact hmem

/-! ## The operations -/

/-- A reference that was not in the table is entered, and the others stay. -/
structure Entered (h h' : Handles) (new_ref : Nat) (r : binder_ref) : Prop where
  inStep : h'.InStep
  live : ∀ x, h'.Live x ↔ h.Live x ∨ x = new_ref
  ref : h'.ref new_ref = r
  others : ∀ x, h.Live x → h'.ref x = h.ref x

theorem enter_entered (hs : h.InStep) (rb : Balance Nat) (new_ref : Nat) {r : binder_ref}
    (hnew : ¬h.Live new_ref) (hnode : ∀ x, h.Live x → (h.ref x).node ≠ r.node)
    (hdesc : ∀ x, h.Live x → (h.ref x).desc ≠ r.desc) :
    ∃ h', h.enter rb new_ref r = .ok h' ∧ Entered h h' new_ref r := by
  let ref := fun x => if x = new_ref then r else h.ref x
  obtain ⟨by_node, hn, hholds⟩ := insert_holds (fun x => (ref x).node) hs.by_node hnew
    hnode fun y => apply_ite binder_ref.node _ _ _
  obtain ⟨by_desc, hd, hholds'⟩ :=
    insert_holds (fun x => (ref x).desc.toNat) hs.by_desc hnew
      (fun y hy heq => hdesc y hy (BitVec.eq_of_toNat_eq heq))
      fun y => apply_ite (fun r : binder_ref => r.desc.toNat) _ _ _
  have henter : h.enter rb new_ref r =
      .ok ⟨rb.insertColor by_desc, rb.insertColor by_node, ref⟩ := by
    unfold enter byNode byDesc
    rw [hn, hd]
  have hlive : ∀ x, (Handles.mk (rb.insertColor by_desc) (rb.insertColor by_node) ref).Live x ↔
      h.Live x ∨ x = new_ref := (hholds.insertColor rb).mem
  refine ⟨_, henter, ⟨?_, ?_⟩, hlive, if_pos rfl, fun x hx => if_neg ?_⟩
  · exact (hholds'.insertColor rb).congr (fun x => (hlive x).symm) fun _ _ _ _ hlt => hlt
  · exact (hholds.insertColor rb).congr (fun x => (hlive x).symm) fun _ _ _ _ hlt => hlt
  · rintro rfl
    exact hnew hx

/-- A reference that is entered has a node and a descriptor of its own. -/
theorem entered_of_enter (hs : h.InStep) {rb : Balance Nat} {new_ref : Nat} {r : binder_ref}
    {h' : Handles} (hnew : ¬h.Live new_ref) (henter : h.enter rb new_ref r = .ok h') :
    Entered h h' new_ref r := by
  have hunfold := henter
  unfold enter at hunfold
  split at hunfold
  · next by_node by_desc hn hd =>
    have hnode : ∀ x, h.Live x → (h.ref x).node ≠ r.node := by
      intro x hx heq
      have hsome := (find_iff hs.by_node r.node x).mpr ⟨hx, heq⟩
      cases hsome.symm.trans (BinTree.find_of_insert hn)
    have hdesc : ∀ x, h.Live x → (h.ref x).desc ≠ r.desc := by
      intro x hx heq
      have hsome := (getRef_iff hs r.desc x).mpr ⟨hx, heq⟩
      cases hsome.symm.trans (BinTree.find_of_insert hd)
    obtain ⟨u, hu, hentered⟩ := enter_entered hs rb new_ref hnew hnode hdesc
    cases henter.symm.trans hu
    exact hentered
  · cases hunfold

/-- What is left when a reference is deleted. -/
theorem deleteRef_inStep (hs : h.InStep) (rb : Balance Nat) (ref : Nat) :
    (h.deleteRef rb ref).InStep ∧ ∀ x, (h.deleteRef rb ref).Live x ↔ h.Live x ∧ x ≠ ref := by
  have hlive : ∀ x, (h.deleteRef rb ref).Live x ↔ h.Live x ∧ x ≠ ref :=
    (hs.by_node.erase rb ref).mem
  exact ⟨⟨(hs.by_desc.erase rb ref).congr (fun x => (hlive x).symm) fun _ _ _ _ hlt => hlt,
    (hs.by_node.erase rb ref).congr (fun x => (hlive x).symm) fun _ _ _ _ hlt => hlt⟩, hlive⟩

/-- The descriptor is in use. -/
def Used (h : Handles) (desc : BitVec 32) : Prop := ∃ x, h.Live x ∧ (h.ref x).desc = desc

/-- What `binder_get_ref_for_node` is to do: it finds the reference of the node, or makes one
with the smallest descriptor; only the context manager gets 0. -/
inductive Gets (h : Handles) (context_mgr_node : Option Nat) (node : Nat) :
    Option Nat → Except Bug (Option Nat × Handles) → Prop
  | found {kzalloc : Option Nat} {x : Nat} (live : h.Live x) (node_eq : (h.ref x).node = node) :
    Gets h context_mgr_node node kzalloc (.ok (some x, h))
  | noMemory : Gets h context_mgr_node node none (.ok (none, h))
  | entered {new_ref : Nat} {r : binder_ref} {h' : Handles} (entered : Entered h h' new_ref r)
    (unknown : ∀ x, h.Live x → (h.ref x).node ≠ node) (node_eq : r.node = node)
    (smallest : Smallest h.Used (firstDesc context_mgr_node node) r.desc)
    (zero : r.desc = 0 → context_mgr_node = some node) :
    Gets h context_mgr_node node (some new_ref) (.ok (some new_ref, h'))

/-- There is a descriptor left, if one is needed. -/
def Room (h : Handles) (context_mgr_node : Option Nat) (node : Nat) (kzalloc : Option Nat) : Prop :=
  (∃ x, h.Live x ∧ (h.ref x).node = node) ∨ kzalloc = none ∨
    ∃ desc, firstDesc context_mgr_node node ≤ desc ∧ ¬h.Used desc

theorem Gets.room {context_mgr_node : Option Nat} {node : Nat} {kzalloc : Option Nat}
    {result : Except Bug (Option Nat × Handles)}
    (hgets : Gets h context_mgr_node node kzalloc result) :
    h.Room context_mgr_node node kzalloc := by
  cases hgets with
  | found live node_eq => exact Or.inl ⟨_, live, node_eq⟩
  | noMemory => exact Or.inr (Or.inl rfl)
  | entered _ _ _ smallest _ => exact Or.inr (Or.inr ⟨_, smallest.above, smallest.unused⟩)

/-- Where there is room, `binder_get_ref_for_node` does what it is to do. -/
theorem getRefForNode_gets (hs : h.InStep) (rb : Balance Nat) {context_mgr_node : Option Nat}
    (proc : Nat) {node : Nat} {kzalloc : Option Nat} (hfresh : h.Fresh kzalloc)
    (hroom : h.Room context_mgr_node node kzalloc) :
    Gets h context_mgr_node node kzalloc
      (h.getRefForNode rb context_mgr_node proc node kzalloc) := by
  unfold getRefForNode
  cases hfind : h.refs_by_node.find (h.byNode node) with
  | some x =>
    obtain ⟨hlive, hnode⟩ := (find_iff hs.by_node node x).mp hfind
    exact .found hlive hnode
  | none =>
    have hunknown : ∀ x, h.Live x → (h.ref x).node ≠ node := by
      intro x hx hnode
      have hsome := (find_iff hs.by_node node x).mpr ⟨hx, hnode⟩
      cases hfind.symm.trans hsome
    cases kzalloc with
    | none => exact .noMemory
    | some new_ref =>
      rcases hroom with ⟨x, hx, hnode⟩ | hnone | ⟨desc, hle, hunused⟩
      · exact absurd hnode (hunknown x hx)
      · cases hnone
      · have hfirst : ∀ d ∈ h.descs, (firstDesc context_mgr_node node).toNat ≤ d.toNat + 1 := by
          intro d _
          unfold firstDesc
          split
          · exact Nat.zero_le _
          · exact Nat.succ_le_succ (Nat.zero_le _)
        obtain ⟨habove, hnot, hleast⟩ := nextDesc_smallest (descs_sorted hs) hfirst
          ⟨desc, hle, fun hmem => hunused ((mem_descs hs desc).mp hmem)⟩
        have hdesc : ∀ x, h.Live x → (h.ref x).desc ≠
            State.nextDesc (firstDesc context_mgr_node node) h.descs :=
          fun x hx heq => hnot ((mem_descs hs _).mpr ⟨x, hx, heq⟩)
        obtain ⟨h', henter, hentered⟩ := enter_entered hs rb new_ref (hfresh new_ref rfl)
          (r := ⟨proc, node, State.nextDesc (firstDesc context_mgr_node node) h.descs, 0, 0⟩)
          hunknown hdesc
        dsimp only
        rw [henter]
        refine .entered hentered hunknown rfl
          ⟨habove, fun hused => hnot ((mem_descs hs _).mpr hused),
            fun e hle hlt => (mem_descs hs e).mp (hleast e hle hlt)⟩ fun hzero => ?_
        by_contra hother
        dsimp only at hzero
        rw [hzero] at habove
        have hone : firstDesc context_mgr_node node = 1 := if_neg hother
        rw [hone] at habove
        exact absurd habove (by decide)

/-- Whatever the descriptor, the trees stay in step if the call returns. -/
theorem getRefForNode_inStep (hs : h.InStep) {rb : Balance Nat} {context_mgr_node : Option Nat}
    {proc node : Nat} {kzalloc result : Option Nat} {h' : Handles} (hfresh : h.Fresh kzalloc)
    (hget : h.getRefForNode rb context_mgr_node proc node kzalloc = .ok (result, h')) :
    h'.InStep := by
  unfold getRefForNode at hget
  split at hget
  · cases hget
    exact hs
  · cases kzalloc with
    | none =>
      cases hget
      exact hs
    | some new_ref =>
      dsimp only at hget
      cases henter : h.enter rb new_ref
          ⟨proc, node, State.nextDesc (firstDesc context_mgr_node node) h.descs, 0, 0⟩ with
      | error bug =>
        rw [henter] at hget
        cases hget
      | ok u =>
        rw [henter] at hget
        cases hget
        exact (entered_of_enter hs (hfresh new_ref rfl) henter).inStep

theorem next_inStep {rb : Balance Nat} {proc : Nat} {op : Op} {h' : Handles} (hs : h.InStep)
    (hnext : next rb proc h op = some h') : h'.InStep := by
  cases op with
  | get context_mgr_node node kzalloc =>
    dsimp only [next] at hnext
    split at hnext
    · next hfresh =>
      cases hget : h.getRefForNode rb context_mgr_node proc node kzalloc with
      | error bug =>
        rw [hget] at hnext
        cases hnext
      | ok result =>
        rw [hget] at hnext
        cases hnext
        exact getRefForNode_inStep hs hfresh hget
    · cases hnext
  | delete ref =>
    dsimp only [next] at hnext
    split at hnext
    · cases hnext
      exact (deleteRef_inStep hs rb ref).1
    · cases hnext

/-! ## Every run -/

/-- What the two trees are to be. -/
structure WellFormed (h : Handles) : Prop where
  same : ∀ x, x ∈ h.refs_by_desc.inorder ↔ x ∈ h.refs_by_node.inorder
  by_desc : h.refs_by_desc.inorder.Pairwise fun a b => (h.ref a).desc.toNat < (h.ref b).desc.toNat
  by_node : h.refs_by_node.inorder.Pairwise fun a b => (h.ref a).node < (h.ref b).node
  one_node : ∀ x y, h.Live x → h.Live y → (h.ref x).node = (h.ref y).node → x = y
  one_desc : ∀ x y, h.Live x → h.Live y → (h.ref x).desc = (h.ref y).desc → x = y
  lookup : ∀ desc x, h.getRef desc = some x ↔ h.Live x ∧ (h.ref x).desc = desc

theorem InStep.wellFormed (hs : h.InStep) : h.WellFormed where
  same := hs.by_desc.mem
  by_desc := hs.by_desc.sorted
  by_node := hs.by_node.sorted
  one_node _ _ hx hy heq := eq_of_sorted hs.by_node hx hy heq
  one_desc _ _ hx hy heq := eq_of_sorted hs.by_desc hx hy (congrArg BitVec.toNat heq)
  lookup := getRef_iff hs

theorem after_inStep {rb : Balance Nat} {proc : Nat} {ops : List Op}
    (h' : after (next rb proc) ops empty = some h) : h.InStep :=
  after_inv (fun _ _ _ hs hnext => next_inStep hs hnext) ops empty_inStep h'

/-- **The handle table.** After every run the trees are in step, and the next
`binder_get_ref_for_node` does what it is to do exactly if there is room for it. -/
theorem handles_iff (rb : Balance Nat) (proc : Nat) (ops : List Op) (h : Handles)
    (hrun : after (next rb proc) ops empty = some h) :
    h.WellFormed ∧ (∀ ref, h.Live ref → (h.deleteRef rb ref).WellFormed ∧
      ∀ x, (h.deleteRef rb ref).Live x ↔ h.Live x ∧ x ≠ ref) ∧
    ∀ context_mgr_node node kzalloc, h.Fresh kzalloc →
      (Gets h context_mgr_node node kzalloc
        (h.getRefForNode rb context_mgr_node proc node kzalloc) ↔
      h.Room context_mgr_node node kzalloc) := by
  have hs := after_inStep hrun
  refine ⟨hs.wellFormed, fun ref _ => ?_, fun context_mgr_node node kzalloc hfresh => ?_⟩
  · obtain ⟨hdeleted, hlive⟩ := deleteRef_inStep hs rb ref
    exact ⟨hdeleted.wellFormed, hlive⟩
  · exact ⟨Gets.room, getRefForNode_gets hs rb proc hfresh⟩

/-- Two references are made, one of them to the context manager, and the other is deleted. -/
def twoRefs : List Op := [.get (some 9) 7 (some 1), .get (some 9) 9 (some 2), .delete 1]

theorem twoRefs_wellFormed :
    ∃ h, after (next .plain 1) twoRefs empty = some h ∧ h.WellFormed := by
  have hsome : (after (next .plain 1) twoRefs empty).isSome := by decide
  exact ⟨_, (Option.some_get hsome).symm,
    (handles_iff .plain 1 twoRefs _ (Option.some_get hsome).symm).1⟩

end InStep

/-! ## A full table -/

/-- References to as many nodes, at the same addresses, none of them to a context manager. -/
def manyRefs (k : Nat) : List Op := (List.range k).map fun i => .get none (i + 1) (some (i + 1))

/-- The table has the references from 1 to `k`, with their own numbers for descriptors. -/
structure Full (k : Nat) (h : Handles) : Prop where
  inStep : h.InStep
  live : ∀ x, h.Live x ↔ 1 ≤ x ∧ x ≤ k
  node : ∀ x, h.Live x → (h.ref x).node = x
  desc : ∀ x, h.Live x → (h.ref x).desc.toNat = x

section Full
variable {k : Nat} {h : Handles}

theorem Full.used (hfull : Full k h) (desc : BitVec 32) :
    h.Used desc ↔ 1 ≤ desc.toNat ∧ desc.toNat ≤ k := by
  constructor
  · rintro ⟨x, hx, rfl⟩
    rw [hfull.desc x hx]
    exact (hfull.live x).mp hx
  · intro hdesc
    have hlive := (hfull.live desc.toNat).mpr hdesc
    exact ⟨desc.toNat, hlive, BitVec.eq_of_toNat_eq (hfull.desc _ hlive)⟩

theorem one_le_iff (desc : BitVec 32) : firstDesc none k ≤ desc ↔ 1 ≤ desc.toNat := Iff.rfl

/-- The next reference has the next descriptor. -/
theorem Full.next (hfull : Full k h) (hk : k + 1 < 2 ^ 32) :
    ∃ h', next .plain 1 h (.get none (k + 1) (some (k + 1))) = some h' ∧ Full (k + 1) h' := by
  have hnew : ¬h.Live (k + 1) := fun hlive => absurd ((hfull.live _).mp hlive).2 (by omega)
  have hfresh : h.Fresh (some (k + 1)) := by
    rintro x ⟨⟩
    exact hnew
  have hdesc : (BitVec.ofNat 32 (k + 1)).toNat = k + 1 := Nat.mod_eq_of_lt hk
  have hunused : ¬h.Used (BitVec.ofNat 32 (k + 1)) := by
    rw [hfull.used, hdesc]
    omega
  have hroom : h.Room none (k + 1) (some (k + 1)) :=
    Or.inr (Or.inr ⟨BitVec.ofNat 32 (k + 1), by rw [one_le_iff, hdesc]; omega, hunused⟩)
  have hgets := getRefForNode_gets hfull.inStep .plain 1 hfresh hroom
  cases hget : h.getRefForNode .plain none 1 (k + 1) (some (k + 1)) with
  | error bug =>
    rw [hget] at hgets
    cases hgets
  | ok result =>
    rw [hget] at hgets
    cases hgets with
    | found live node_eq =>
      rw [hfull.node _ live] at node_eq
      rw [node_eq] at live
      exact absurd live hnew
    | @entered _ r h' hentered _ hnode hsmallest _ =>
      have habove := (one_le_iff r.desc).mp hsmallest.above
      have hnot := hsmallest.unused
      rw [hfull.used] at hnot
      have hle : r.desc.toNat ≤ k + 1 := by
        by_contra hgt
        refine hunused (hsmallest.least _ ?_ ?_)
        · rw [one_le_iff, hdesc]
          omega
        · rw [BitVec.lt_def, hdesc]
          omega
      refine ⟨h', ?_, hentered.inStep, fun x => ?_, fun x hx => ?_, fun x hx => ?_⟩
      · dsimp only [Handles.next]
        rw [if_pos hfresh, hget]
        rfl
      · rw [hentered.live, hfull.live]
        omega
      · rcases (hentered.live x).mp hx with hold | rfl
        · rw [hentered.others x hold]
          exact hfull.node x hold
        · rw [hentered.ref]
          exact hnode
      · rcases (hentered.live x).mp hx with hold | rfl
        · rw [hentered.others x hold]
          exact hfull.desc x hold
        · rw [hentered.ref]
          omega

theorem manyRefs_full (hk : k < 2 ^ 32) :
    ∃ h, after (Handles.next .plain 1) (manyRefs k) empty = some h ∧ Full k h := by
  induction k with
  | zero =>
    refine ⟨empty, rfl, empty_inStep, fun x => ⟨fun hx => absurd hx List.not_mem_nil, ?_⟩,
      fun x hx => absurd hx List.not_mem_nil, fun x hx => absurd hx List.not_mem_nil⟩
    omega
  | succ k ih =>
    obtain ⟨h, hrun, hfull⟩ := ih (by omega)
    obtain ⟨h', hnext, hfull'⟩ := hfull.next hk
    refine ⟨h', ?_, hfull'⟩
    unfold manyRefs
    rw [List.range_succ, List.map_append]
    exact after_append.mpr ⟨h, hrun, after_cons.mpr ⟨h', hnext, rfl⟩⟩

/-- When all descriptors from 1 on are in use, a new node gets 0. -/
theorem Full.gets_zero (hfull : Full (2 ^ 32 - 1) h) :
    ∃ h', h.getRefForNode .plain none 1 (2 ^ 32) (some (2 ^ 32)) = .ok (some (2 ^ 32), h') ∧
      (h'.ref (2 ^ 32)).desc = 0 := by
  have hunknown : ∀ x, h.Live x → (h.ref x).node ≠ 2 ^ 32 := by
    intro x hx hnode
    rw [hfull.node x hx] at hnode
    have hle := ((hfull.live x).mp hx).2
    omega
  have hwraps : State.nextDesc (firstDesc none (2 ^ 32)) h.descs = 0 := by
    refine nextDesc_wraps (descs_sorted hfull.inStep)
      (fun d _ => Nat.succ_le_succ (Nat.zero_le _)) fun e he => ?_
    have hbound := e.isLt
    exact (mem_descs hfull.inStep e).mpr
      ((hfull.used e).mpr ⟨(one_le_iff e).mp he, by omega⟩)
  obtain ⟨h', henter, hentered⟩ := enter_entered hfull.inStep .plain (2 ^ 32)
    (r := ⟨1, 2 ^ 32, 0, 0, 0⟩) (fun hlive => absurd ((hfull.live _).mp hlive).2 (by omega))
    hunknown fun x hx hzero => absurd ((hfull.used 0).mp ⟨x, hx, hzero⟩).1 (by decide)
  refine ⟨h', ?_, by rw [hentered.ref]⟩
  have hfind : h.refs_by_node.find (h.byNode (2 ^ 32)) = none := by
    rw [Option.eq_none_iff_forall_ne_some]
    intro x hx
    obtain ⟨hlive, hnode⟩ := (find_iff hfull.inStep.by_node _ x).mp hx
    exact hunknown x hlive hnode
  unfold getRefForNode
  rw [hfind]
  dsimp only
  rw [hwraps, henter]
  rfl

theorem full_table_gives_zero : ∃ ops h h',
    after (Handles.next .plain 1) ops empty = some h ∧ h.Fresh (some (2 ^ 32)) ∧
    h.getRefForNode .plain none 1 (2 ^ 32) (some (2 ^ 32)) = .ok (some (2 ^ 32), h') ∧
    (h'.ref (2 ^ 32)).desc = 0 ∧
    ¬Gets h none (2 ^ 32) (some (2 ^ 32)) (.ok (some (2 ^ 32), h')) := by
  obtain ⟨h, hrun, hfull⟩ := manyRefs_full (k := 2 ^ 32 - 1) (by omega)
  obtain ⟨h', hget, hzero⟩ := hfull.gets_zero
  refine ⟨_, h, h', hrun, ?_, hget, hzero, fun hgets => ?_⟩
  · rintro x ⟨⟩ hlive
    exact absurd ((hfull.live _).mp hlive).2 (by omega)
  · cases hgets with
    | found live =>
      exact absurd ((hfull.live _).mp live).2 (by omega)
    | entered hentered _ _ _ hzero' =>
      cases hzero' (hentered.ref ▸ hzero)

end Full

end Handles

end Cdroid.Driver.References
