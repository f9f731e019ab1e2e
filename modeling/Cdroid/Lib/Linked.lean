import Mathlib.Logic.Function.Basic
import Mathlib.Data.List.Nodup

/-! Members of a list that know those before and after them. -/

namespace Cdroid.Lib.Linked

structure Node (α : Type) where
  parent : Option α
  child : Option α

structure Links (α : Type) where
  nodes : α → Node α
  oldest : Option α
  youngest : Option α

variable {α : Type} [DecidableEq α]

namespace Links

def setParent (s : Links α) (i : α) (parent : Option α) : Links α :=
  { s with nodes := Function.update s.nodes i { s.nodes i with parent } }

def setChild (s : Links α) (i : α) (child : Option α) : Links α :=
  { s with nodes := Function.update s.nodes i { s.nodes i with child } }

/-- A member that comes last. -/
def attach (s : Links α) (i : α) : Links α :=
  match s.youngest with
  | none => { s with oldest := some i, youngest := some i }
  | some y => { (s.setParent i (some y)).setChild y (some i) with youngest := some i }

def setBefore (s : Links α) (i : Option α) (child : Option α) : Links α :=
  match i with
  | some i => s.setChild i child
  | none => { s with oldest := child }

def setAfter (s : Links α) (i : Option α) (parent : Option α) : Links α :=
  match i with
  | some i => s.setParent i parent
  | none => { s with youngest := parent }

/-- A member that goes: those beside it are joined. -/
def detach (s : Links α) (i : α) : Links α :=
  let s := s.setBefore (s.nodes i).parent (s.nodes i).child
  let s := s.setAfter (s.nodes i).child (s.nodes i).parent
  { s with nodes := Function.update s.nodes i ⟨none, none⟩ }

end Links

/-- The members are those of `l`, in this order. -/
structure Listed (s : Links α) (l : List α) : Prop where
  nodup : l.Nodup
  oldest : s.oldest = l.head?
  youngest : s.youngest = l.getLast?
  node : ∀ a i b, l = a ++ i :: b → s.nodes i = ⟨a.getLast?, b.head?⟩

variable {s : Links α} {l : List α} {i : α}

omit [DecidableEq α] in
theorem Listed.nil (nodes : α → Node α) : Listed ⟨nodes, none, none⟩ [] where
  nodup := List.nodup_nil
  oldest := rfl
  youngest := rfl
  node a i b h := by simp at h

theorem Listed.update (h : Listed s l) (hi : i ∉ l) (node : Node α) :
    Listed { s with nodes := Function.update s.nodes i node } l where
  nodup := h.nodup
  oldest := h.oldest
  youngest := h.youngest
  node a j b hsplit := by
    have hj : j ≠ i := by
      rintro rfl
      exact hi (by rw [hsplit]; simp)
    exact (Function.update_of_ne hj node s.nodes).trans (h.node a j b hsplit)

theorem attach_nodes {y : α} (hy : s.youngest = some y) (hne : i ≠ y) (j : α) :
    (s.attach i).nodes j =
      if j = y then ⟨(s.nodes y).parent, some i⟩
      else if j = i then ⟨some y, (s.nodes i).child⟩ else s.nodes j := by
  simp only [Links.attach, hy, Links.setChild, Links.setParent]
  by_cases hjy : j = y
  · subst hjy
    simp [Function.update_of_ne (Ne.symm hne)]
  · by_cases hji : j = i <;> simp [hjy, hji, Function.update_of_ne, hne]

theorem setBefore_nodes (o child : Option α) (j : α) :
    (s.setBefore o child).nodes j =
      if o = some j then ⟨(s.nodes j).parent, child⟩ else s.nodes j := by
  cases o with
  | none => rfl
  | some p =>
    by_cases hj : j = p
    · subst hj
      simp [Links.setBefore, Links.setChild]
    · simp [Links.setBefore, Links.setChild, hj, Ne.symm hj]

theorem setAfter_nodes (o parent : Option α) (j : α) :
    (s.setAfter o parent).nodes j =
      if o = some j then ⟨parent, (s.nodes j).child⟩ else s.nodes j := by
  cases o with
  | none => rfl
  | some c =>
    by_cases hj : j = c
    · subst hj
      simp [Links.setAfter, Links.setParent]
    · simp [Links.setAfter, Links.setParent, hj, Ne.symm hj]

section
variable (hparent : (s.nodes i).parent ≠ some i)
include hparent

theorem detach_nodes {j : α} (hj : j ≠ i) :
    (s.detach i).nodes j =
      ⟨if (s.nodes i).child = some j then (s.nodes i).parent else (s.nodes j).parent,
        if (s.nodes i).parent = some j then (s.nodes i).child else (s.nodes j).child⟩ := by
  simp only [Links.detach, Function.update_of_ne hj, setAfter_nodes, setBefore_nodes,
    if_neg hparent]
  split <;> split <;> rfl

theorem detach_ends :
    (s.detach i).oldest =
      (if (s.nodes i).parent = none then (s.nodes i).child else s.oldest) ∧
    (s.detach i).youngest =
      if (s.nodes i).child = none then (s.nodes i).parent else s.youngest := by
  have hsame := setBefore_nodes (s := s) (s.nodes i).parent (s.nodes i).child i
  rw [if_neg hparent] at hsame
  simp only [Links.detach, hsame]
  cases (s.nodes i).parent <;> cases (s.nodes i).child <;> exact ⟨rfl, rfl⟩

end

theorem Listed.attach (h : Listed s l) (hi : i ∉ l) (hnode : s.nodes i = ⟨none, none⟩) :
    Listed (s.attach i) (l ++ [i]) := by
  have hnodup : (l ++ [i]).Nodup := by
    rw [← List.concat_eq_append]
    exact h.nodup.concat hi
  rcases List.eq_nil_or_concat l with rfl | ⟨l, y, rfl⟩
  · have hnone : s.youngest = none := h.youngest
    refine ⟨hnodup, by simp [Links.attach, hnone], by simp [Links.attach, hnone],
      fun a j b hsplit => ?_⟩
    cases a with
    | nil =>
      obtain ⟨rfl, rfl⟩ : i = j ∧ [] = b := by simpa using hsplit
      simpa [Links.attach, hnone] using hnode
    | cons x a => simp at hsplit
  · have hy : s.youngest = some y := by simpa using h.youngest
    have hne : i ≠ y := by
      rintro rfl
      exact hi (by simp)
    have hyoungest : (s.attach i).youngest = some i := by simp [Links.attach, hy]
    have holdest : (s.attach i).oldest = s.oldest := by
      simp [Links.attach, hy, Links.setChild, Links.setParent]
    refine ⟨hnodup, ?_, by simp [hyoungest], fun a j b hsplit => ?_⟩
    · rw [holdest, h.oldest]
      cases l <;> simp
    · rw [attach_nodes hy hne]
      rcases List.eq_nil_or_concat b with rfl | ⟨b, z, rfl⟩
      · obtain ⟨rfl, rfl⟩ : l.concat y = a ∧ i = j := by
          simpa using List.append_inj' hsplit rfl
        simp [hne, hnode]
      · obtain ⟨hl, rfl⟩ : l.concat y = a ++ j :: b ∧ i = z := by
          have hlast : (l.concat y) ++ [i] = (a ++ j :: b) ++ [z] := by simpa using hsplit
          simpa using List.append_inj' hlast rfl
        have hji : j ≠ i := by
          rintro rfl
          exact hi (by rw [hl]; simp)
        have hj := h.node a j b hl
        have hl' := h.nodup
        rw [hl] at hl'
        rcases List.eq_nil_or_concat b with rfl | ⟨b, w, rfl⟩
        · obtain ⟨-, rfl⟩ : l = a ∧ y = j := by
            rw [List.concat_eq_append] at hl
            simpa using List.append_inj' hl rfl
          simp [hj]
        · obtain ⟨-, rfl⟩ : l = a ++ j :: b ∧ y = w := by
            have hlast : l ++ [y] = (a ++ j :: b) ++ [w] := by simpa using hl
            simpa using List.append_inj' hlast rfl
          have hjy : j ≠ y := by
            rintro rfl
            have := (List.nodup_append.mp hl').2.1
            simp at this
          rw [if_neg hjy, if_neg hji, hj]
          cases b <;> simp

theorem Listed.detach {a b : List α} (h : Listed s (a ++ i :: b)) :
    Listed (s.detach i) (a ++ b) ∧ (s.detach i).nodes i = ⟨none, none⟩ := by
  have hi := h.node a i b rfl
  have hnodup := h.nodup
  have hmid := List.nodup_middle.mp hnodup
  obtain ⟨hout, hrest⟩ := List.nodup_cons.mp hmid
  have hparent : (s.nodes i).parent ≠ some i := by
    rw [hi]
    exact fun hlast => hout (List.mem_append_left b (List.mem_of_getLast? hlast))
  obtain ⟨holdest, hyoungest⟩ := detach_ends hparent
  rw [hi] at holdest hyoungest
  refine ⟨⟨hrest, ?_, ?_, fun a' j b' hsplit => ?_⟩, by simp [Links.detach]⟩
  · rw [holdest, h.oldest]
    cases a <;> simp
  · rw [hyoungest, h.youngest]
    cases b <;> simp [List.getLast?_append]
  · have hj : j ≠ i := by
      rintro rfl
      exact hout (by rw [hsplit]; simp)
    rw [detach_nodes hparent hj, hi]
    have happart := (List.nodup_append.mp hrest).2.2
    rcases List.append_eq_append_iff.mp hsplit with ⟨m, rfl, rfl⟩ | ⟨c, rfl, hc⟩
    · have hbefore : ¬ a.getLast? = some j := fun hlast =>
        happart j (List.mem_of_getLast? hlast) j (by simp) rfl
      rw [h.node (a ++ i :: m) j b' (by simp), if_neg hbefore]
      cases m with
      | nil => simp
      | cons x m =>
        have hx : x ≠ j := by
          rintro rfl
          have := (List.nodup_append.mp hrest).2.1
          simp at this
        simp [hx, List.getLast?_append]
    · cases c with
      | nil =>
        obtain rfl : j :: b' = b := by simpa using hc
        have hbefore : ¬ a'.getLast? = some j := fun hlast =>
          happart j (by simpa using List.mem_of_getLast? hlast) j (by simp) rfl
        rw [h.node (a' ++ [i]) j b' (by simp)]
        simp [hbefore]
      | cons x c =>
        obtain ⟨rfl, rfl⟩ : j = x ∧ b' = c ++ b := by simpa using hc
        have hafter : ¬ b.head? = some j := fun hhead =>
          happart j (by simp) j (List.mem_of_head? hhead) rfl
        rw [h.node a' j (c ++ i :: b) (by simp), if_neg hafter]
        rcases List.eq_nil_or_concat c with rfl | ⟨c, y, rfl⟩
        · simp
        · have hy : y ≠ j := by
            rintro rfl
            have := (List.nodup_append.mp (List.nodup_append.mp hrest).1).2.1
            simp at this
          cases c <;> simp [hy, List.getLast?_cons]

end Cdroid.Lib.Linked
