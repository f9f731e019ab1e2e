/-! Two containers: a store of objects addressed by typed references, in which
an allocation never reuses an address, and an ordered map kept as the list of
its entries in key order. -/

namespace Cdroid.Lib.Containers

/-! ## Objects and references -/

/-- The address of an object of class `c`. -/
@[ext] structure Ref {ι : Type} (c : ι) where
  idx : Nat

instance {ι : Type} {c : ι} : DecidableEq (Ref c) := fun r q =>
  decidable_of_iff (r.idx = q.idx) Ref.ext_iff.symm

/-- The objects of class `c`; addresses from `next` on are not in use. -/
structure Store {ι : Type} (c : ι) (α : Type) where
  next : Nat
  object : Nat → α

namespace Store
variable {ι : Type} {c : ι} {α : Type}

def empty (a : α) : Store c α := ⟨0, fun _ => a⟩

def get (m : Store c α) (r : Ref c) : α := m.object r.idx

/-- Overwrite the object at `r`. -/
def set (m : Store c α) (r : Ref c) (a : α) : Store c α :=
  { m with object := fun i => if i = r.idx then a else m.object i }

def update (m : Store c α) (r : Ref c) (f : α → α) : Store c α := m.set r (f (m.get r))

/-- The address the next allocation returns. -/
def fresh (m : Store c α) : Ref c := ⟨m.next⟩

/-- Put a new object at `fresh`. -/
def alloc (m : Store c α) (a : α) : Store c α := { m.set m.fresh a with next := m.next + 1 }

/-- The object at `r` has been allocated. -/
def Live (m : Store c α) (r : Ref c) : Prop := r.idx < m.next

@[simp] theorem get_set_self (m : Store c α) (r : Ref c) (a : α) : (m.set r a).get r = a := by
  simp [get, set]

theorem get_set (m : Store c α) (r q : Ref c) (a : α) :
    (m.set r a).get q = if q = r then a else m.get q := by
  simp only [get, set]
  by_cases h : q = r
  · simp [h]
  · have hi : q.idx ≠ r.idx := fun e => h (Ref.ext e)
    simp [h, hi]

theorem get_set_ne (m : Store c α) {r q : Ref c} (a : α) (h : q ≠ r) :
    (m.set r a).get q = m.get q := by
  rw [get_set, if_neg h]

@[simp] theorem get_update_self (m : Store c α) (r : Ref c) (f : α → α) :
    (m.update r f).get r = f (m.get r) := get_set_self ..

theorem get_update (m : Store c α) (r q : Ref c) (f : α → α) :
    (m.update r f).get q = if q = r then f (m.get q) else m.get q := by
  rw [update, get_set]
  split
  · next h => rw [h]
  · rfl

theorem get_update_ne (m : Store c α) {r q : Ref c} (f : α → α) (h : q ≠ r) :
    (m.update r f).get q = m.get q := get_set_ne _ _ h

@[simp] theorem get_alloc_fresh (m : Store c α) (a : α) : (m.alloc a).get m.fresh = a :=
  get_set_self m m.fresh a

theorem get_alloc (m : Store c α) (a : α) (q : Ref c) :
    (m.alloc a).get q = if q = m.fresh then a else m.get q := get_set m m.fresh q a

theorem Live.ne_fresh {m : Store c α} {r : Ref c} (h : m.Live r) : r ≠ m.fresh := by
  intro e
  subst e
  exact Nat.lt_irrefl _ h

theorem get_alloc_live {m : Store c α} {r : Ref c} (a : α) (h : m.Live r) :
    (m.alloc a).get r = m.get r := get_set_ne m a h.ne_fresh

@[simp] theorem live_update (m : Store c α) (r q : Ref c) (f : α → α) :
    (m.update r f).Live q ↔ m.Live q := Iff.rfl

theorem live_alloc (m : Store c α) (a : α) (q : Ref c) :
    (m.alloc a).Live q ↔ m.Live q ∨ q = m.fresh := by
  rw [Ref.ext_iff]
  simp only [Live, alloc, fresh]
  omega

theorem Live.alloc {m : Store c α} {r : Ref c} (h : m.Live r) (a : α) : (m.alloc a).Live r :=
  (live_alloc m a r).mpr (Or.inl h)

@[simp] theorem live_fresh_alloc (m : Store c α) (a : α) : (m.alloc a).Live m.fresh :=
  (live_alloc m a _).mpr (Or.inr rfl)

@[simp] theorem not_live_empty (a : α) (r : Ref c) : ¬ (empty a : Store c α).Live r :=
  Nat.not_lt_zero _

end Store

/-! ## Ordered maps -/

/-- The entries of a map in key order, as `std::map` iterates over them. -/
abbrev OrdMap (κ β : Type) := List (κ × β)

namespace OrdMap
variable {κ β : Type} [DecidableEq κ]

/-- The value at a key. -/
def find (m : OrdMap κ β) (k : κ) : Option β := (m.find? fun e => e.1 = k).map Prod.snd

/-- Insert before the first larger key; `find` decides beforehand whether the
key is new, as `insert` of a key that is present does nothing. -/
def place (lt : κ → κ → Bool) (k : κ) (b : β) : OrdMap κ β → OrdMap κ β
  | [] => [(k, b)]
  | e :: m => if lt k e.1 then (k, b) :: e :: m else e :: place lt k b m

def insert (lt : κ → κ → Bool) (m : OrdMap κ β) (k : κ) (b : β) : OrdMap κ β :=
  if (m.find k).isSome then m else place lt k b m

/-- Change the value at a key that is present. -/
def adjust (m : OrdMap κ β) (k : κ) (f : β → β) : OrdMap κ β :=
  m.map fun e => if e.1 = k then (e.1, f e.2) else e

omit [DecidableEq κ] in
theorem place_perm (lt : κ → κ → Bool) (k : κ) (b : β) (m : OrdMap κ β) :
    (place lt k b m).Perm ((k, b) :: m) := by
  induction m with
  | nil => exact List.Perm.refl _
  | cons e m ih =>
    unfold place
    split
    · exact List.Perm.refl _
    · exact (ih.cons e).trans (List.Perm.swap (k, b) e m)

theorem insert_of_mem {lt : κ → κ → Bool} {m : OrdMap κ β} {k : κ} {b b' : β}
    (h : m.find k = some b) : insert lt m k b' = m := by
  simp [insert, h]

theorem insert_perm {lt : κ → κ → Bool} {m : OrdMap κ β} {k : κ} (h : m.find k = none) (b : β) :
    (insert lt m k b).Perm ((k, b) :: m) := by
  simpa [insert, h] using place_perm lt k b m

theorem find_none {m : OrdMap κ β} {k : κ} : m.find k = none ↔ ∀ e ∈ m, e.1 ≠ k := by
  simp [find]

theorem find_cons (e : κ × β) (m : OrdMap κ β) (k : κ) :
    find (e :: m) k = if e.1 = k then some e.2 else find m k := by
  unfold find
  rw [List.find?_cons]
  by_cases h : e.1 = k <;> simp [h]

theorem find_place {lt : κ → κ → Bool} {m : OrdMap κ β} {k : κ} (h : m.find k = none) (b : β)
    (q : κ) : (place lt k b m).find q = if k = q then some b else m.find q := by
  induction m with
  | nil => exact find_cons ..
  | cons e m ih =>
    unfold place
    split
    · exact find_cons ..
    · rw [find_cons] at h
      split at h
      · cases h
      · next hek =>
        rw [find_cons, ih h, find_cons]
        by_cases heq : e.1 = q
        · rw [if_pos heq, if_pos heq, if_neg fun hk => hek (heq.trans hk.symm)]
        · rw [if_neg heq, if_neg heq]

/-- What is inserted at a new key is found there, and the rest as before. -/
theorem find_insert {lt : κ → κ → Bool} {m : OrdMap κ β} {k : κ} (h : m.find k = none) (b : β)
    (q : κ) : (insert lt m k b).find q = if k = q then some b else m.find q := by
  rw [insert, h]
  exact find_place h b q

theorem mem_of_find {m : OrdMap κ β} {k : κ} {b : β} (h : m.find k = some b) : (k, b) ∈ m := by
  unfold find at h
  obtain ⟨e, he, rfl⟩ := Option.map_eq_some_iff.mp h
  have hk : e.1 = k := by simpa using List.find?_some he
  subst hk
  exact List.mem_of_find?_eq_some he

/-- Keys that do not repeat make `find` the only way to an entry. -/
theorem find_of_mem {m : OrdMap κ β} (h : (m.map Prod.fst).Nodup) {k : κ} {b : β}
    (hm : (k, b) ∈ m) : m.find k = some b := by
  induction m with
  | nil => cases hm
  | cons e m ih =>
    rw [List.map_cons, List.nodup_cons] at h
    rcases List.mem_cons.mp hm with rfl | hm
    · simp [find]
    · have hne : e.1 ≠ k := by
        rintro rfl
        exact h.1 (List.mem_map.mpr ⟨(e.1, b), hm, rfl⟩)
      simpa [find, hne] using ih h.2 hm

end OrdMap

end Cdroid.Lib.Containers
