import Mathlib.Data.List.Basic

/-! Lists in strictly ascending order, for a comparison that is a total order up to what
compares equal. -/

namespace Cdroid.Lib.OrderedLists

variable {α : Type} (cmp : α → α → Ordering)

def Ascending (l : List α) : Prop := l.Pairwise fun a b => cmp a b = .lt

instance (l : List α) : Decidable (Ascending cmp l) :=
  inferInstanceAs (Decidable (l.Pairwise fun a b => cmp a b = .lt))

/-- An entry that compares equal to `a` -/
def Present (a : α) (l : List α) : Prop := ∃ b ∈ l, cmp b a = .eq

variable {cmp} {l m : List α} {a b : α}

theorem Ascending.lt (h : Ascending cmp l) {i j : Nat} (hi : l[i]? = some a) (hj : l[j]? = some b)
    (hij : i < j) : cmp a b = .lt := by
  obtain ⟨hilt, rfl⟩ := List.getElem?_eq_some_iff.mp hi
  obtain ⟨hjlt, rfl⟩ := List.getElem?_eq_some_iff.mp hj
  exact List.pairwise_iff_getElem.mp h i j hilt hjlt hij

section Trans
variable [Std.TransCmp cmp]

/-- An entry between those that are less and those that are greater -/
theorem Ascending.insert (h : Ascending cmp (l ++ m)) (hl : ∀ b ∈ l, cmp b a = .lt)
    (hm : ∀ b ∈ m, cmp b a = .gt) : Ascending cmp (l ++ a :: m) := by
  obtain ⟨hleft, hright, hcross⟩ := List.pairwise_append.mp h
  refine List.pairwise_append.mpr ⟨hleft, List.pairwise_cons.mpr ⟨fun b hb => ?_, hright⟩, ?_⟩
  · exact Std.OrientedCmp.lt_of_gt (hm b hb)
  · intro b hb c hc
    rcases List.mem_cons.mp hc with rfl | hc
    · exact hl b hb
    · exact hcross b hb c hc

/-- An entry may be put for one that compares equal. -/
theorem Ascending.replace (h : Ascending cmp (l ++ b :: m)) (hb : cmp b a = .eq) :
    Ascending cmp (l ++ a :: m) := by
  obtain ⟨hleft, hmid, hcross⟩ := List.pairwise_append.mp h
  obtain ⟨hhead, hright⟩ := List.pairwise_cons.mp hmid
  have hrest : Ascending cmp (l ++ m) := List.pairwise_append.mpr
    ⟨hleft, hright, fun c hc d hd => hcross c hc d (List.mem_cons_of_mem b hd)⟩
  refine hrest.insert ?_ ?_
  · exact fun c hc => Std.TransCmp.lt_of_lt_of_eq (hcross c hc b List.mem_cons_self) hb
  · intro c hc
    refine Std.OrientedCmp.gt_of_lt ?_
    exact Std.TransCmp.lt_of_eq_of_lt (Std.OrientedCmp.eq_symm hb) (hhead c hc)

theorem Ascending.head_le (h : Ascending cmp l) (hhead : l.head? = some a) (hb : b ∈ l) :
    (cmp a b).isLE := by
  cases l with
  | nil => cases hhead
  | cons c l =>
    obtain rfl := Option.some.inj hhead
    rcases List.mem_cons.mp hb with rfl | hb
    · exact Std.ReflCmp.isLE_rfl
    · rw [(List.pairwise_cons.mp h).1 b hb]
      rfl

theorem Ascending.le_last (h : Ascending cmp l) (hlast : l.getLast? = some a) (hb : b ∈ l) :
    (cmp b a).isLE := by
  obtain ⟨l, rfl⟩ := List.getLast?_eq_some_iff.mp hlast
  rcases List.mem_append.mp hb with hb | hb
  · rw [(List.pairwise_append.mp h).2.2 b hb a List.mem_cons_self]
    rfl
  · rw [List.mem_singleton.mp hb]
    exact Std.ReflCmp.isLE_rfl

/-- Of two blocks the boundaries decide. -/
theorem Ascending.append_iff (hl : Ascending cmp l) (hm : Ascending cmp m)
    (ha : l.getLast? = some a) (hb : m.head? = some b) :
    Ascending cmp (l ++ m) ↔ cmp a b = .lt := by
  constructor
  · intro h
    exact (List.pairwise_append.mp h).2.2 a (List.mem_of_getLast? ha) b (List.mem_of_head? hb)
  · intro hab
    refine List.pairwise_append.mpr ⟨hl, hm, fun c hc d hd => ?_⟩
    exact Std.TransCmp.lt_of_isLE_of_lt (hl.le_last ha hc)
      (Std.TransCmp.lt_of_lt_of_isLE hab (hm.head_le hb hd))

end Trans

end Cdroid.Lib.OrderedLists
