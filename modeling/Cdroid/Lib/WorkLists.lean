/-! Linked lists whose links are in the items, as a kernel's are: an item is on one list at
most, and tells which. -/

namespace Cdroid.Lib

/-- Lists with names in `κ` of items in `ι`. -/
structure WorkLists (κ ι : Type) where
  items : κ → List ι
  on : ι → Option κ
  mem_iff : ∀ x k, on x = some k ↔ x ∈ items k
  nodup : ∀ k, (items k).Nodup

namespace WorkLists

variable {κ ι : Type} (l : WorkLists κ ι)

def empty : WorkLists κ ι where
  items _ := []
  on _ := none
  mem_iff _ _ := by simp
  nodup _ := List.nodup_nil

/-- Each of the lists that are meant is emptied, with `list_del_init` for its items. -/
def clear (P : κ → Bool) : WorkLists κ ι where
  items k := if P k then [] else l.items k
  on y := (l.on y).filter fun k => !P k
  mem_iff y k := by
    have h := l.mem_iff y k
    by_cases hk : P k
    · simp [hk, Option.filter_eq_some_iff]
    · simp [hk, Option.filter_eq_some_iff, h]
  nodup k := by
    split
    · exact List.nodup_nil
    · exact l.nodup k

@[simp] theorem on_clear (P : κ → Bool) (y : ι) :
    (l.clear P).on y = (l.on y).filter fun k => !P k := rfl

theorem items_clear (P : κ → Bool) (k : κ) :
    (l.clear P).items k = if P k then [] else l.items k := rfl

section
variable [DecidableEq ι]

/-- `list_del`, of an item that may be on no list -/
def unlink (x : ι) : WorkLists κ ι where
  items k := (l.items k).erase x
  on y := if y = x then none else l.on y
  mem_iff y k := by
    by_cases hy : y = x
    · simp [hy, (l.nodup k).mem_erase_iff]
    · simp [hy, (l.nodup k).mem_erase_iff, l.mem_iff]
  nodup k := (l.nodup k).erase x

@[simp] theorem on_unlink (x y : ι) : (l.unlink x).on y = if y = x then none else l.on y := rfl

@[simp] theorem items_unlink (x : ι) (k : κ) : (l.unlink x).items k = (l.items k).erase x := rfl

theorem not_mem_erase (x : ι) (k : κ) : x ∉ (l.items k).erase x := by
  rw [(l.nodup k).mem_erase_iff]
  exact fun h => h.1 rfl

/-- A list that the item is not on stays as it is. -/
theorem items_unlink_of_ne {x : ι} {k : κ} (h : l.on x ≠ some k) :
    (l.unlink x).items k = l.items k :=
  List.erase_of_not_mem (mt (l.mem_iff x k).mpr h)

variable [DecidableEq κ]

/-- `list_move_tail`, which for an item that is on no list is `list_add_tail` -/
def moveTail (x : ι) (target : κ) : WorkLists κ ι where
  items k := if k = target then (l.items k).erase x ++ [x] else (l.items k).erase x
  on y := if y = x then some target else l.on y
  mem_iff y k := by
    have h := (l.nodup k).mem_erase_iff (a := x) (b := y)
    by_cases hy : y = x
    · by_cases hk : k = target
      · simp [hy, hk]
      · simp [hy, hk, l.not_mem_erase, Ne.symm hk]
    · by_cases hk : k = target
      · simp [hy, hk, l.mem_iff]
      · simp [hy, hk, l.mem_iff]
  nodup k := by
    split
    · exact List.nodup_append.mpr ⟨(l.nodup k).erase x, List.pairwise_singleton _ x,
        fun y hy z hz h => l.not_mem_erase x k (by rwa [h, List.mem_singleton.mp hz] at hy)⟩
    · exact (l.nodup k).erase x

@[simp] theorem on_moveTail (x y : ι) (target : κ) :
    (l.moveTail x target).on y = if y = x then some target else l.on y := rfl

theorem items_moveTail (x : ι) (target k : κ) : (l.moveTail x target).items k =
    if k = target then (l.items k).erase x ++ [x] else (l.items k).erase x := rfl

/-- A list that the item is not on and does not go to stays as it is. -/
theorem items_moveTail_of_ne {x : ι} {target k : κ} (h : l.on x ≠ some k) (hk : k ≠ target) :
    (l.moveTail x target).items k = l.items k := by
  rw [items_moveTail, if_neg hk, List.erase_of_not_mem (mt (l.mem_iff x k).mpr h)]

/-- `list_move`, to the head -/
def moveHead (x : ι) (target : κ) : WorkLists κ ι where
  items k := if k = target then x :: (l.items k).erase x else (l.items k).erase x
  on y := if y = x then some target else l.on y
  mem_iff y k := by
    rw [← on_moveTail l, (l.moveTail x target).mem_iff y k, items_moveTail]
    split <;> simp [or_comm]
  nodup k := by
    split
    · exact List.nodup_cons.mpr ⟨l.not_mem_erase x k, (l.nodup k).erase x⟩
    · exact (l.nodup k).erase x

@[simp] theorem on_moveHead (x y : ι) (target : κ) :
    (l.moveHead x target).on y = if y = x then some target else l.on y := rfl

theorem items_moveHead (x : ι) (target k : κ) : (l.moveHead x target).items k =
    if k = target then x :: (l.items k).erase x else (l.items k).erase x := rfl

end

end WorkLists

end Cdroid.Lib
