import Mathlib.Data.List.Basic
import Mathlib.Data.List.Nodup

/-! Binary search trees whose nodes are linked in below a leaf and which some other code
keeps balanced. The keys are not stored in the tree: they are compared by a function, which
may change as long as the order stays. -/

namespace Cdroid.Lib.SearchTree

inductive BinTree (α : Type) where
  | leaf
  | node (l : BinTree α) (a : α) (r : BinTree α)
  deriving DecidableEq

namespace BinTree

variable {α : Type}

def inorder : BinTree α → List α
  | leaf => []
  | node l a r => l.inorder ++ a :: r.inorder

/-- Link `a` in below the leaf where it belongs; `cmp b` is the order of `a` and `b`. There is
none beside an equal node. -/
def insert (cmp : α → Ordering) (a : α) : BinTree α → Option (BinTree α)
  | leaf => some (node leaf a leaf)
  | node l b r =>
    match cmp b with
    | .lt => (insert cmp a l).map fun l => node l b r
    | .gt => (insert cmp a r).map fun r => node l b r
    | .eq => none

/-- The node that fits best, starting with `best`, and whether it fits exactly; `cmp b` is the
order of what is wanted and `b`. -/
def bestFit (cmp : α → Ordering) : BinTree α → Option α → Option α × Bool
  | leaf, best => (best, false)
  | node l b r, best =>
    match cmp b with
    | .lt => bestFit cmp l (some b)
    | .gt => bestFit cmp r best
    | .eq => (some b, true)

def find (cmp : α → Ordering) : BinTree α → Option α
  | leaf => none
  | node l b r =>
    match cmp b with
    | .lt => find cmp l
    | .gt => find cmp r
    | .eq => some b

/-! ## Insertion -/

section Insert
variable {cmp : α → Ordering} {a : α}

theorem insert_perm {t t' : BinTree α} (h : t.insert cmp a = some t') :
    t'.inorder.Perm (a :: t.inorder) := by
  induction t generalizing t' with
  | leaf =>
    cases h
    rfl
  | node l b r ihl ihr =>
    unfold insert at h
    split at h
    · obtain ⟨l', hl, rfl⟩ := Option.map_eq_some_iff.mp h
      exact (ihl hl).append_right (b :: r.inorder)
    · obtain ⟨r', hr, rfl⟩ := Option.map_eq_some_iff.mp h
      refine (((ihr hr).cons b).append_left l.inorder).trans ?_
      refine ((List.Perm.swap a b r.inorder).append_left l.inorder).trans ?_
      exact List.perm_middle
    · cases h

theorem mem_insert {t t' : BinTree α} (h : t.insert cmp a = some t') {x : α} :
    x ∈ t'.inorder ↔ x = a ∨ x ∈ t.inorder := by
  rw [(insert_perm h).mem_iff, List.mem_cons]

/-- A node that is equal to no other one is linked in. -/
theorem insert_isSome {t : BinTree α} (h : ∀ b ∈ t.inorder, cmp b ≠ .eq) :
    ∃ t', t.insert cmp a = some t' := by
  induction t with
  | leaf => exact ⟨_, rfl⟩
  | node l b r ihl ihr =>
    unfold insert
    split
    · obtain ⟨l', hl⟩ := ihl fun c hc => h c (List.mem_append_left _ hc)
      exact ⟨_, by rw [hl]; rfl⟩
    · obtain ⟨r', hr⟩ := ihr fun c hc => h c (List.mem_append_right _ (List.mem_cons_of_mem b hc))
      exact ⟨_, by rw [hr]; rfl⟩
    · next heq => exact absurd heq (h b (List.mem_append_right _ List.mem_cons_self))

/-- What comes before a node stays before it. -/
theorem insert_sorted {r : α → α → Prop} {t t' : BinTree α}
    (htrans : ∀ x y z, r x y → r y z → r x z) (h : t.insert cmp a = some t')
    (ht : t.inorder.Pairwise r) (hlt : ∀ b ∈ t.inorder, cmp b = .lt → r a b)
    (hgt : ∀ b ∈ t.inorder, cmp b = .gt → r b a) :
    t'.inorder.Pairwise r := by
  induction t generalizing t' with
  | leaf =>
    cases h
    exact List.pairwise_singleton r a
  | node l b u ihl ihu =>
    have hb : b ∈ (node l b u).inorder := List.mem_append_right _ List.mem_cons_self
    obtain ⟨hl, hbu, hcross⟩ := List.pairwise_append.mp ht
    obtain ⟨hbu, hu⟩ := List.pairwise_cons.mp hbu
    unfold insert at h
    split at h
    · next hcmp =>
      obtain ⟨l', hl', rfl⟩ := Option.map_eq_some_iff.mp h
      have hab := hlt b hb hcmp
      have hsorted := ihl hl' hl (fun c hc => hlt c (List.mem_append_left _ hc))
        (fun c hc => hgt c (List.mem_append_left _ hc))
      refine List.pairwise_append.mpr ⟨hsorted, List.pairwise_cons.mpr ⟨hbu, hu⟩, ?_⟩
      intro x hx y hy
      rcases (mem_insert hl').mp hx with rfl | hx
      · rcases List.mem_cons.mp hy with rfl | hy
        · exact hab
        · exact htrans _ _ _ hab (hbu y hy)
      · exact hcross x hx y hy
    · next hcmp =>
      obtain ⟨u', hu', rfl⟩ := Option.map_eq_some_iff.mp h
      have hba := hgt b hb hcmp
      have hsorted := ihu hu' hu
        (fun c hc => hlt c (List.mem_append_right _ (List.mem_cons_of_mem b hc)))
        (fun c hc => hgt c (List.mem_append_right _ (List.mem_cons_of_mem b hc)))
      have hbu' : ∀ y ∈ u'.inorder, r b y := by
        intro y hy
        rcases (mem_insert hu').mp hy with rfl | hy
        · exact hba
        · exact hbu y hy
      refine List.pairwise_append.mpr ⟨hl, List.pairwise_cons.mpr ⟨hbu', hsorted⟩, ?_⟩
      intro x hx y hy
      have hxb := hcross x hx b List.mem_cons_self
      rcases List.mem_cons.mp hy with rfl | hy
      · exact hxb
      · exact htrans _ _ _ hxb (hbu' y hy)
    · cases h

end Insert

/-! ## Search -/

section Search
variable {cmp : α → Ordering}

/-- What is found is in the tree, or was there before, and is not too small. -/
theorem bestFit_some {t : BinTree α} {best : Option α} {b : α} {exact : Bool}
    (h : t.bestFit cmp best = (some b, exact)) :
    (b ∈ t.inorder ∧ cmp b = if exact then .eq else .lt) ∨ (best = some b ∧ exact = false) := by
  induction t generalizing best with
  | leaf =>
    cases h
    exact Or.inr ⟨rfl, rfl⟩
  | node l c r ihl ihr =>
    unfold bestFit at h
    split at h
    · next hcmp =>
      rcases ihl h with ⟨hmem, hb⟩ | ⟨hc, hexact⟩
      · exact Or.inl ⟨List.mem_append_left _ hmem, hb⟩
      · cases hc
        refine Or.inl ⟨List.mem_append_right _ List.mem_cons_self, ?_⟩
        rw [hexact]
        exact hcmp
    · rcases ihr h with ⟨hmem, hb⟩ | hbest
      · exact Or.inl ⟨List.mem_append_right _ (List.mem_cons_of_mem c hmem), hb⟩
      · exact Or.inr hbest
    · next hcmp =>
      cases h
      exact Or.inl ⟨List.mem_append_right _ List.mem_cons_self, hcmp⟩

theorem find_some {t : BinTree α} {b : α} (h : t.find cmp = some b) :
    b ∈ t.inorder ∧ cmp b = .eq := by
  induction t with
  | leaf => cases h
  | node l c r ihl ihr =>
    unfold find at h
    split at h
    · exact ⟨List.mem_append_left _ (ihl h).1, (ihl h).2⟩
    · exact ⟨List.mem_append_right _ (List.mem_cons_of_mem c (ihr h).1), (ihr h).2⟩
    · next hcmp =>
      cases h
      exact ⟨List.mem_append_right _ List.mem_cons_self, hcmp⟩

/-- Where a node is linked in, there was none that is equal. -/
theorem find_of_insert {a : α} {t t' : BinTree α} (h : t.insert cmp a = some t') :
    t.find cmp = none := by
  induction t generalizing t' with
  | leaf => rfl
  | node l b r ihl ihr =>
    unfold insert at h
    unfold find
    split at h
    · obtain ⟨l', hl, -⟩ := Option.map_eq_some_iff.mp h
      exact ihl hl
    · obtain ⟨r', hr, -⟩ := Option.map_eq_some_iff.mp h
      exact ihr hr
    · cases h

/-- In a sorted tree, a node that is equal to what is wanted is found, if it is the only one. -/
theorem find_eq {t : BinTree α} {b : α} (hb : b ∈ t.inorder) (heq : cmp b = .eq)
    (hbefore : t.inorder.Pairwise fun x y => (y = b → cmp x = .gt) ∧ (x = b → cmp y = .lt)) :
    t.find cmp = some b := by
  induction t with
  | leaf => cases hb
  | node l c r ihl ihr =>
    obtain ⟨hl, hcr, hcross⟩ := List.pairwise_append.mp hbefore
    obtain ⟨hcr, hr⟩ := List.pairwise_cons.mp hcr
    unfold find
    rcases List.mem_append.mp hb with hbl | hbr
    · have hcmp : cmp c = .lt := (hcross b hbl c List.mem_cons_self).2 rfl
      rw [hcmp]
      exact ihl hbl hl
    · rcases List.mem_cons.mp hbr with rfl | hbr
      · rw [heq]
      · have hcmp : cmp c = .gt := (hcr b hbr).1 rfl
        rw [hcmp]
        exact ihr hbr hr

end Search

end BinTree

/-! ## Balancing -/

/-- What keeps a tree balanced after a node has been linked in, and unlinks one. Only the
order of the nodes is promised. -/
structure Balance (α : Type) [DecidableEq α] where
  insertColor : BinTree α → BinTree α
  erase : α → BinTree α → BinTree α
  inorder_insertColor : ∀ t, (insertColor t).inorder = t.inorder
  inorder_erase : ∀ a t, (erase a t).inorder = t.inorder.erase a

/-! ## What a tree holds -/

/-- The tree has the elements of `S`, each once and in the order `r`. -/
structure Holds {α : Type} (r : α → α → Prop) (t : BinTree α) (S : α → Prop) : Prop where
  nodup : t.inorder.Nodup
  mem : ∀ x, x ∈ t.inorder ↔ S x
  sorted : t.inorder.Pairwise r

section Holds
variable {α : Type} {r r' : α → α → Prop} {t : BinTree α} {S S' : α → Prop}

/-- The order may change where it is the same on the elements. -/
theorem Holds.congr (h : Holds r t S) (hS : ∀ x, S x ↔ S' x)
    (hr : ∀ x y, S x → S y → r x y → r' x y) : Holds r' t S' where
  nodup := h.nodup
  mem := fun x => (h.mem x).trans (hS x)
  sorted := h.sorted.imp_of_mem fun hx hy => hr _ _ ((h.mem _).mp hx) ((h.mem _).mp hy)

theorem holds_singleton (r : α → α → Prop) (a : α) :
    Holds r (.node .leaf a .leaf) fun x => x = a where
  nodup := List.nodup_singleton a
  mem := fun _ => List.mem_singleton
  sorted := List.pairwise_singleton r a

theorem holds_leaf (r : α → α → Prop) : Holds r .leaf fun _ => False where
  nodup := List.nodup_nil
  mem := fun _ => List.mem_nil_iff _
  sorted := .nil

variable [DecidableEq α]

theorem Holds.insertColor (h : Holds r t S) (rb : Balance α) : Holds r (rb.insertColor t) S where
  nodup := by
    rw [rb.inorder_insertColor]
    exact h.nodup
  mem := by
    rw [rb.inorder_insertColor]
    exact h.mem
  sorted := by
    rw [rb.inorder_insertColor]
    exact h.sorted

theorem Holds.erase (h : Holds r t S) (rb : Balance α) (a : α) :
    Holds r (rb.erase a t) fun x => S x ∧ x ≠ a where
  nodup := by
    rw [rb.inorder_erase]
    exact h.nodup.erase a
  mem := by
    intro x
    rw [rb.inorder_erase, h.nodup.mem_erase_iff, h.mem, and_comm]
  sorted := by
    rw [rb.inorder_erase]
    exact h.sorted.sublist List.erase_sublist

omit [DecidableEq α] in
/-- An element that is new is linked in, wherever it is compared as the order wants it. -/
theorem Holds.insert (h : Holds r t S) (cmp : α → Ordering) (a : α)
    (htrans : ∀ x y z, r x y → r y z → r x z) (ha : ¬ S a) (hne : ∀ b, S b → cmp b ≠ .eq)
    (hlt : ∀ b, S b → cmp b = .lt → r a b) (hgt : ∀ b, S b → cmp b = .gt → r b a) :
    ∃ t', t.insert cmp a = some t' ∧ Holds r t' fun x => S x ∨ x = a := by
  obtain ⟨t', ht'⟩ : ∃ t', t.insert cmp a = some t' :=
    BinTree.insert_isSome fun b hb => hne b ((h.mem b).mp hb)
  refine ⟨t', ht', ?_, ?_, ?_⟩
  · rw [(BinTree.insert_perm ht').nodup_iff, List.nodup_cons, h.mem]
    exact ⟨ha, h.nodup⟩
  · intro x
    rw [BinTree.mem_insert ht', h.mem, or_comm]
  · exact BinTree.insert_sorted htrans ht' h.sorted (fun b hb => hlt b ((h.mem b).mp hb))
      fun b hb => hgt b ((h.mem b).mp hb)

end Holds

section Plain
variable {α : Type}

/-- The first node, and the tree without it. -/
def BinTree.popMin : BinTree α → Option (α × BinTree α)
  | leaf => none
  | node l a r =>
    match popMin l with
    | none => some (a, r)
    | some (m, l') => some (m, node l' a r)

theorem BinTree.inorder_popMin (t : BinTree α) :
    t.inorder = match t.popMin with
      | none => []
      | some (m, t') => m :: t'.inorder := by
  induction t with
  | leaf => rfl
  | node l a r ihl ihr =>
    rw [inorder, popMin]
    cases hl : l.popMin with
    | none =>
      rw [hl] at ihl
      rw [ihl]
      rfl
    | some p =>
      obtain ⟨m, l'⟩ := p
      rw [hl] at ihl
      rw [ihl]
      rfl

/-- Both trees, with the first node of the right one on top. -/
def BinTree.join (l r : BinTree α) : BinTree α :=
  match r.popMin with
  | none => l
  | some (m, r') => node l m r'

theorem BinTree.inorder_join (l r : BinTree α) : (l.join r).inorder = l.inorder ++ r.inorder := by
  have hr := r.inorder_popMin
  unfold join
  cases hpop : r.popMin with
  | none =>
    rw [hpop] at hr
    rw [hr, List.append_nil]
  | some p =>
    obtain ⟨m, r'⟩ := p
    rw [hpop] at hr
    rw [hr]
    rfl

variable [DecidableEq α]

def BinTree.eraseNode (a : α) : BinTree α → BinTree α
  | leaf => leaf
  | node l b r =>
    if a ∈ l.inorder then node (eraseNode a l) b r
    else if b = a then l.join r
    else node l b (eraseNode a r)

theorem BinTree.inorder_eraseNode (a : α) (t : BinTree α) :
    (t.eraseNode a).inorder = t.inorder.erase a := by
  induction t with
  | leaf => rfl
  | node l b r ihl ihr =>
    unfold eraseNode
    split
    · next hl =>
      rw [inorder, inorder, ihl, List.erase_append_left _ hl]
    · next hl =>
      rw [inorder, List.erase_append_right _ hl]
      split
      · next hb => rw [hb, List.erase_cons_head, inorder_join]
      · next hb => rw [inorder, ihr, List.erase_cons_tail (by simpa using hb)]

/-- Trees that are not balanced. -/
def Balance.plain : Balance α := ⟨id, BinTree.eraseNode, fun _ => rfl, BinTree.inorder_eraseNode⟩

end Plain

end Cdroid.Lib.SearchTree
