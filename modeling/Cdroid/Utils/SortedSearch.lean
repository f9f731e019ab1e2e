import Cdroid.Utils.SortedVector
import Mathlib.Tactic.ByContra

/-! The binary search finds the place of an element in a vector that is in order, and the
operations keep it in order. A sorted vector is merged well if there is something to compare
it with and the boundaries are not equal. -/

namespace Cdroid.Utils.SortedVector
open Cdroid.Lib.OrderedLists Cdroid.Lib.Runs

variable {α : Type} {cmp : α → α → Ordering} {v vector : List α} {item : α}

/-! ## The search -/

/-- The item is at `index`, or is not there and belongs in front of `order`. -/
def Found (cmp : α → α → Ordering) (item : α) (v : List α) (r : Int × Int) : Prop :=
  (∃ pre a post, v = pre ++ a :: post ∧ r = ((pre.length : Int), (pre.length : Int)) ∧
    cmp a item = .eq) ∨
  ∃ pre post, v = pre ++ post ∧ r = (NAME_NOT_FOUND, (pre.length : Int)) ∧
    (∀ a ∈ pre, cmp a item = .lt) ∧ ∀ a ∈ post, cmp a item = .gt

theorem itemLocation_append {pre post : List α} {a : α} :
    itemLocation (pre ++ a :: post) pre.length = some a := by
  unfold itemLocation
  rw [if_neg (by omega), Int.toNat_natCast, List.getElem?_append_right (Nat.le_refl _),
    Nat.sub_self]
  rfl

section Search
variable [Std.TransCmp cmp]

/-- What is in front of `l` is less, and what is behind `h` greater. -/
theorem search_found (pre mid post : List α) {l h : Int} (hv : Ascending cmp v)
    (hsplit : v = pre ++ (mid ++ post)) (hl : l = pre.length)
    (hh : h = pre.length + mid.length - 1) (hpre : ∀ a ∈ pre, cmp a item = .lt)
    (hpost : ∀ a ∈ post, cmp a item = .gt) :
    ∃ r, search cmp item v l h = some r ∧ Found cmp item v r := by
  induction hn : mid.length using Nat.strongRecOn generalizing pre mid post l h with
  | ind n ih =>
  rw [search]
  by_cases hempty : mid = []
  · subst hempty
    rw [dif_neg (by simp only [List.length_nil] at hh; omega)]
    exact ⟨_, rfl, .inr ⟨pre, post, hsplit, by rw [hl], hpre, hpost⟩⟩
  have hpos : 0 < mid.length := List.length_pos_of_ne_nil hempty
  rw [dif_pos (by omega)]
  -- the middle of what is left
  obtain ⟨left, c, right, rfl, hleft⟩ : ∃ left c right, mid = left ++ c :: right ∧
      left.length = (mid.length - 1) / 2 := by
    have hlt : (mid.length - 1) / 2 < mid.length := by omega
    refine ⟨mid.take ((mid.length - 1) / 2), mid[(mid.length - 1) / 2],
      mid.drop ((mid.length - 1) / 2 + 1), ?_, ?_⟩
    · rw [List.getElem_cons_drop, List.take_append_drop]
    · rw [List.length_take, Nat.min_eq_left (Nat.le_of_lt hlt)]
  have hlength : (left ++ c :: right).length = left.length + right.length + 1 := by
    rw [List.length_append]
    rfl
  have hindex : l + (h - l) / 2 = ((pre ++ left).length : Int) := by
    rw [List.length_append]
    omega
  have haround : v = (pre ++ left) ++ c :: (right ++ post) := by
    rw [hsplit]
    simp
  have hget : itemLocation v (l + (h - l) / 2) = some c := by
    rw [hindex, haround, itemLocation_append]
  rw [hget]
  dsimp only
  rw [haround] at hv
  obtain ⟨-, hbehind, hcross⟩ := List.pairwise_append.mp hv
  split
  · next heq => exact ⟨_, rfl, .inl ⟨pre ++ left, c, right ++ post, haround, by rw [hindex], heq⟩⟩
  · next hlt =>
    have hsnoc : (pre ++ left ++ [c]).length = (pre ++ left).length + 1 := List.length_append
    refine ih right.length (by omega) (pre ++ left ++ [c]) right post ?_ ?_ ?_ ?_ hpost rfl
    · rw [haround]
      simp
    · rw [hindex, hsnoc]
      rfl
    · rw [hsnoc, List.length_append]
      omega
    · intro a ha
      rcases List.mem_append.mp ha with ha | ha
      · exact Std.TransCmp.lt_trans (hcross a ha c List.mem_cons_self) hlt
      · rw [List.mem_singleton.mp ha]
        exact hlt
  · next hgt =>
    refine ih left.length (by omega) pre left (c :: (right ++ post)) ?_ hl ?_ hpre ?_ rfl
    · rw [haround, List.append_assoc]
    · rw [hindex, List.length_append]
      omega
    · intro a ha
      rcases List.mem_cons.mp ha with rfl | ha
      · exact hgt
      · have hca := (List.pairwise_cons.mp hbehind).1 a ha
        exact Std.TransCmp.gt_trans (Std.OrientedCmp.gt_of_lt hca) hgt

theorem indexOrderOf_found (hv : Ascending cmp v) (item : α) :
    ∃ r, indexOrderOf cmp item v = some r ∧ Found cmp item v r :=
  search_found [] v [] hv (by simp) rfl (by simp) nofun nofun

theorem kept_of_ascending (hv : Ascending cmp v) : Kept cmp v := by
  refine ⟨hv, fun item => ?_⟩
  obtain ⟨r, hr, hfound⟩ := indexOrderOf_found hv item
  refine ⟨r.1, by rw [indexOf, hr]; rfl, ?_⟩
  rcases hfound with ⟨pre, a, post, rfl, rfl, ha⟩ | ⟨pre, post, rfl, rfl, hpre, hpost⟩
  · refine ⟨iff_of_true (Int.natCast_nonneg _) ⟨a, by simp, ha⟩, fun _ => ⟨a, ?_, ha⟩⟩
    rw [Int.toNat_natCast, List.getElem?_append_right (Nat.le_refl _), Nat.sub_self]
    rfl
  · have hneg : ¬ 0 ≤ NAME_NOT_FOUND := by decide
    refine ⟨iff_of_false hneg ?_, fun h => absurd h hneg⟩
    rintro ⟨b, hb, heq⟩
    rcases List.mem_append.mp hb with hb | hb
    · rw [hpre b hb] at heq
      cases heq
    · rw [hpost b hb] at heq
      cases heq

end Search

/-! ## The operations -/

theorem insertArrayAt_append (array pre post : List α) :
    insertArrayAt array pre.length (pre ++ post) =
      ((pre.length : Int), pre ++ (array ++ post)) := by
  rw [insertArrayAt, if_neg (by simp), List.take_left, List.drop_left]

theorem replaceAt_append {pre post : List α} {a : α} :
    replaceAt item pre.length (pre ++ a :: post) = ((pre.length : Int), pre ++ item :: post) := by
  rw [replaceAt, if_neg (by simp), List.set_append_right _ _ (Nat.le_refl _), Nat.sub_self]
  rfl

theorem removeItemsAt_append {pre post : List α} {a : α} :
    removeItemsAt pre.length 1 (pre ++ a :: post) = ((pre.length : Int), pre ++ post) := by
  rw [removeItemsAt, if_neg (by simp), List.take_left, ← List.drop_drop, List.drop_left]
  rfl

section Operations
variable [Std.TransCmp cmp]

theorem add_ascending (hv : Ascending cmp v) (item : α) :
    ∃ err v', add cmp item v = some (err, v') ∧ 0 ≤ err ∧ Ascending cmp v' := by
  obtain ⟨r, hr, hfound⟩ := indexOrderOf_found hv item
  rw [add, hr]
  rcases hfound with ⟨pre, a, post, rfl, rfl, ha⟩ | ⟨pre, post, rfl, rfl, hpre, hpost⟩
  · refine ⟨pre.length, pre ++ item :: post, ?_, Int.natCast_nonneg _, hv.replace ha⟩
    rw [Option.map_some]
    dsimp only
    rw [if_neg (by omega), Int.toNat_natCast, replaceAt_append]
  · refine ⟨pre.length, pre ++ item :: post, ?_, Int.natCast_nonneg _, hv.insert hpre hpost⟩
    rw [Option.map_some]
    dsimp only
    rw [if_pos (by decide), Int.toNat_natCast, insertAt, insertArrayAt_append]
    rfl

theorem mergeVector_ascending (hv : Ascending cmp v) (vector : List α) :
    ∃ err v', mergeVector cmp vector v = some (err, v') ∧ 0 ≤ err ∧ Ascending cmp v' := by
  induction vector generalizing v with
  | nil => exact ⟨NO_ERROR, v, rfl, Int.le_refl 0, hv⟩
  | cons item vector ih =>
    obtain ⟨err, w, hadd, herr, hw⟩ := add_ascending hv item
    obtain ⟨err', u, hmerge, hrest⟩ := ih hw
    refine ⟨err', u, ?_, hrest⟩
    simp only [mergeVector, hadd, Option.bind_eq_bind, Option.bind_some]
    rw [if_neg (by omega), hmerge]

theorem remove_ascending (hv : Ascending cmp v) (item : α) :
    ∃ i v', remove cmp item v = some (i, v') ∧ Ascending cmp v' := by
  obtain ⟨r, hr, hfound⟩ := indexOrderOf_found hv item
  rw [remove, indexOf, hr]
  rcases hfound with ⟨pre, a, post, rfl, rfl, ha⟩ | ⟨pre, post, rfl, rfl, hpre, hpost⟩
  · refine ⟨pre.length, pre ++ post, ?_, ?_⟩
    · rw [Option.map_some, Option.map_some, if_pos (Int.natCast_nonneg _), Int.toNat_natCast,
        removeItemsAt_append]
    · exact hv.sublist (List.Sublist.append_left (List.sublist_cons_self a post) pre)
  · exact ⟨NAME_NOT_FOUND, pre ++ post, rfl, hv⟩

end Operations

/-- There is something to compare a sorted vector with, and its boundaries are not there. -/
def Fitting (cmp : α → α → Ordering) (v : List α) : Action cmp → Prop
  | .mergeSortedVector vector =>
      ∀ first ∈ vector.elements.head?, ∀ last ∈ vector.elements.getLast?,
        ∃ front ∈ v.head?, ∃ back ∈ v.getLast?, cmp last front ≠ .eq ∧ cmp first back ≠ .eq
  | _ => True

section Merge
variable [Std.TransCmp cmp]

theorem itemLocation_head (l : List α) : itemLocation l 0 = l.head? := by
  rw [List.head?_eq_getElem?]
  rfl

theorem itemLocation_last (l : List α) : itemLocation l (l.length - 1) = l.getLast? := by
  cases l with
  | nil => rfl
  | cons a l =>
    have hindex : (((a :: l).length : Int) - 1) = (l.length : Nat) := by
      rw [List.length_cons]
      omega
    rw [itemLocation, hindex, if_neg (by omega), List.getLast?_eq_getElem?]
    rfl

omit [Std.TransCmp cmp] in
/-- What a merge does with a block, where there is something to compare it with. -/
theorem mergeSortedVector_eq {first last front back : α} (hfirst : vector.head? = some first)
    (hlast : vector.getLast? = some last) (hfront : v.head? = some front)
    (hback : v.getLast? = some back) :
    mergeSortedVector cmp vector v =
      if (cmp last front).isLE then some (0, vector ++ v)
      else if (cmp first back).isGE then some ((v.length : Int), v ++ vector)
      else mergeVector cmp vector v := by
  have hempty : ¬ vector.isEmpty = true := by
    intro h
    rw [List.isEmpty_iff.mp h] at hfirst
    cases hfirst
  have hinsert : insertVectorAt vector 0 v = (0, vector ++ v) :=
    insertArrayAt_append vector [] v
  have happend : appendVector vector v = ((v.length : Int), v ++ vector) := by
    have := insertArrayAt_append vector v []
    rwa [List.append_nil, List.append_nil] at this
  rw [mergeSortedVector, if_neg hempty, itemLocation_last, itemLocation_head, itemLocation_last,
    itemLocation_head, hfirst, hlast, hfront, hback, hinsert, happend]
  rfl

/-- A block that is put in front or behind keeps the order if the boundaries are not equal. -/
theorem mergeSortedVector_ascending (hv : Ascending cmp v) (vector : Sorted cmp)
    (hfit : Fitting cmp v (.mergeSortedVector vector)) :
    ∃ err v', mergeSortedVector cmp vector.elements v = some (err, v') ∧ 0 ≤ err ∧
      Ascending cmp v' := by
  obtain ⟨vector, hvector⟩ := vector
  cases vector with
  | nil => exact ⟨NO_ERROR, v, rfl, Int.le_refl 0, hv⟩
  | cons first rest =>
    obtain ⟨last, hlast⟩ : ∃ last, (first :: rest).getLast? = some last :=
      ⟨_, List.getLast?_eq_some_getLast (l := first :: rest) (by simp)⟩
    obtain ⟨front, hfront, back, hback, hne, hne'⟩ := hfit first rfl last hlast
    rw [mergeSortedVector_eq rfl hlast hfront hback]
    split
    · next hle =>
      refine ⟨0, _, rfl, Int.le_refl 0, (hvector.append_iff hv hlast hfront).mpr ?_⟩
      exact (Ordering.isLE_iff_eq_lt_or_eq_eq.mp hle).resolve_right hne
    split
    · next hge =>
      refine ⟨_, _, rfl, Int.natCast_nonneg _, (hv.append_iff hvector hback rfl).mpr ?_⟩
      exact Std.OrientedCmp.lt_of_gt ((Ordering.isGE_iff_eq_gt_or_eq_eq.mp hge).resolve_right hne')
    · exact mergeVector_ascending hv (first :: rest)

/-- Else the merge compares with what is not there, or an element is there twice. -/
theorem mergeSortedVector_unfitting (hv : Ascending cmp v) (vector : Sorted cmp)
    (hunfit : ¬ Fitting cmp v (.mergeSortedVector vector)) {err : Int} {v' : List α}
    (hmerge : mergeSortedVector cmp vector.elements v = some (err, v')) : ¬ Ascending cmp v' := by
  obtain ⟨vector, hvector⟩ := vector
  cases vector with
  | nil => exact absurd nofun hunfit
  | cons first rest =>
  obtain ⟨last, hlast⟩ : ∃ last, (first :: rest).getLast? = some last :=
    ⟨_, List.getLast?_eq_some_getLast (l := first :: rest) (by simp)⟩
  cases v with
  | nil =>
    rw [mergeSortedVector, itemLocation_last, hlast] at hmerge
    cases hmerge
  | cons front v =>
  obtain ⟨back, hback⟩ : ∃ back, (front :: v).getLast? = some back :=
    ⟨_, List.getLast?_eq_some_getLast (l := front :: v) (by simp)⟩
  have hequal : cmp last front = .eq ∨ cmp first back = .eq := by
    by_contra hnone
    obtain ⟨hne, hne'⟩ := not_or.mp hnone
    refine hunfit fun f hf l hl => ⟨front, rfl, back, hback, ?_, ?_⟩
    · rw [← Option.some.inj (hlast.symm.trans hl)]
      exact hne
    · rw [← Option.some.inj hf]
      exact hne'
  rw [mergeSortedVector_eq rfl hlast rfl hback] at hmerge
  split at hmerge
  · cases hmerge
    rw [hvector.append_iff hv hlast rfl]
    intro hlt
    rcases hequal with heq | heq
    · rw [hlt] at heq
      cases heq
    · -- the first element would be less than the last one
      have hle := hvector.head_le rfl (List.mem_of_getLast? hlast)
      have hle' := hv.head_le rfl (List.mem_of_getLast? hback)
      rw [Std.TransCmp.lt_of_isLE_of_lt hle (Std.TransCmp.lt_of_lt_of_isLE hlt hle')] at heq
      cases heq
  next hgt =>
  have heq : cmp first back = .eq := hequal.resolve_left fun heq => hgt (by rw [heq]; rfl)
  rw [if_pos (by rw [heq]; rfl)] at hmerge
  cases hmerge
  rw [hv.append_iff hvector hback rfl, Std.OrientedCmp.eq_symm heq]
  exact nofun

end Merge

/-! ## Runs -/

section Runs
variable [Std.TransCmp cmp]

theorem next_ascending {a : Action cmp} (hv : Ascending cmp v) (hfit : Fitting cmp v a) :
    ∃ v', next cmp v a = some v' ∧ Ascending cmp v' := by
  cases a with
  | add item =>
    obtain ⟨err, v', hadd, -, hv'⟩ := add_ascending hv item
    exact ⟨v', congrArg (Option.map Prod.snd) hadd, hv'⟩
  | remove item =>
    obtain ⟨i, v', hremove, hv'⟩ := remove_ascending hv item
    exact ⟨v', congrArg (Option.map Prod.snd) hremove, hv'⟩
  | mergeVector vector =>
    obtain ⟨err, v', hmerge, -, hv'⟩ := mergeVector_ascending hv vector
    exact ⟨v', congrArg (Option.map Prod.snd) hmerge, hv'⟩
  | mergeSortedVector vector =>
    obtain ⟨err, v', hmerge, -, hv'⟩ := mergeSortedVector_ascending hv vector hfit
    exact ⟨v', congrArg (Option.map Prod.snd) hmerge, hv'⟩

end Runs

/-- As long as sorted vectors are merged that have something to be compared with and no
boundary in common, the elements are in order and can be searched. -/
theorem sortedVector_kept (cmp : α → α → Ordering) [Std.TransCmp cmp] (as : List (Action cmp))
    (hfit : Along (Fitting cmp) (next cmp) as []) :
    ∃ v, after (next cmp) as [] = some v ∧ Kept cmp v := by
  obtain ⟨v, hrun, hv⟩ := along_total (I := Ascending cmp) (fun _ _ => next_ascending) as .nil hfit
  exact ⟨v, hrun, kept_of_ascending hv⟩

instance (v : List α) (a : Action cmp) : Decidable (Fitting cmp v a) :=
  match a with
  | .add _ => .isTrue trivial
  | .remove _ => .isTrue trivial
  | .mergeVector _ => .isTrue trivial
  | .mergeSortedVector vector => inferInstanceAs (Decidable (∀ first ∈ vector.elements.head?,
      ∀ last ∈ vector.elements.getLast?, ∃ front ∈ v.head?, ∃ back ∈ v.getLast?,
        cmp last front ≠ .eq ∧ cmp first back ≠ .eq))

/-- A block behind, one in front, and one that overlaps. -/
def blocksRun : List (Action (compare : Nat → Nat → Ordering)) :=
  [.add 5, .add 3, .mergeSortedVector ⟨[6, 8], by decide⟩, .remove 5,
   .mergeSortedVector ⟨[1, 2], by decide⟩, .mergeSortedVector ⟨[2, 4], by decide⟩,
   .mergeVector [9, 0, 9]]

theorem sortedVector_kept_blocksRun :
    ∃ v, after (next compare) blocksRun [] = some v ∧ Kept compare v :=
  sortedVector_kept compare blocksRun (by decide +kernel)

/-- A block with the element that is there already is put in front of it. -/
theorem merged_not_kept : ¬ ∀ (cmp : Nat → Nat → Ordering) [Std.TransCmp cmp]
    (as : List (Action cmp)), ∃ v, after (next cmp) as [] = some v ∧ Kept cmp v := by
  intro h
  obtain ⟨v, hrun, hkept⟩ := h compare [.add 1, .mergeSortedVector ⟨[1], by decide⟩]
  have hv : after (next compare) [.add 1, .mergeSortedVector ⟨[1], by decide⟩] [] =
      some [1, 1] := by decide +kernel
  rw [hv] at hrun
  cases hrun
  exact absurd hkept.ascending (by decide)

end Cdroid.Utils.SortedVector
