import Cdroid.Lib.Loop
import Mathlib.Data.List.Basic

/-! Loops that look for a mark in a text, replace a stretch from its first occurrence on, and
look again. Beside the text they build up a second list, longer by the same piece in every
round. -/

namespace Cdroid.Lib.Substitution
open Cdroid.Lib.Loop

variable {α β : Type} [DecidableEq α]

/-- The `n` entries from place `i` on give way to `t`. -/
def replace (s : List α) (i n : Nat) (t : List α) : List α := s.take i ++ t ++ s.drop (i + n)

/-- A round: without the mark `c` the loop is left. -/
def substitute (c : α) (n : Nat) (t : List α) (more : List β) :
    List α × List β → Option ((List α × List β) ⊕ (List α × List β))
  | (s, r) => match s.findIdx? (· = c) with
    | none => some (.inr (s, r))
    | some i => some (.inl (replace s i n t, r ++ more))

variable {c : α} {n : Nat} {t p s s' : List α} {more r r' : List β}

theorem findIdx?_absent (h : c ∉ s) : s.findIdx? (· = c) = none := by
  rw [List.findIdx?_eq_none_iff]
  intro x hx
  simp only [decide_eq_false_iff_not]
  exact fun hc => h (hc ▸ hx)

theorem findIdx?_first (h : c ∉ p) : (p ++ c :: s).findIdx? (· = c) = some p.length := by
  rw [List.findIdx?_append, findIdx?_absent h, List.findIdx?_cons]
  simp

theorem substitute_absent (h : c ∉ s) : substitute c n t more (s, r) = some (.inr (s, r)) := by
  simp only [substitute, findIdx?_absent h]

/-- The first mark is replaced, and what follows it as far as the stretch goes. -/
theorem substitute_first (h : c ∉ p) :
    substitute c n t more (p ++ c :: s, r) =
      some (.inl (p ++ t ++ (c :: s).drop n, r ++ more)) := by
  simp only [substitute, findIdx?_first h, replace]
  rw [List.take_left, List.drop_append]
  simp

/-- A text without the mark, or its part before the first mark and the part behind. -/
theorem absent_or_first (c : α) (s : List α) : c ∉ s ∨ ∃ p s', c ∉ p ∧ s = p ++ c :: s' := by
  by_cases h : c ∈ s
  · obtain ⟨p, s', rfl, hp⟩ := List.eq_append_cons_of_mem h
    exact Or.inr ⟨p, s', hp, rfl⟩
  · exact Or.inl h

/-! ## Every such loop ends, and leaves no mark -/

theorem loop_total (more : List β) (ht : c ∉ t) (hn : 0 < n) (m : Nat) (h : s.count c < m) :
    ∃ s' r', loop (substitute c n t more) m (s, r) = some (s', r') := by
  induction m generalizing s r with
  | zero => omega
  | succ m ih =>
    rcases absent_or_first c s with habs | ⟨p, q, hp, rfl⟩
    · exact ⟨s, r, loop_leave (substitute_absent habs) m⟩
    · rw [loop_next (substitute_first hp)]
      apply ih
      obtain ⟨n, rfl⟩ : ∃ k, n = k + 1 := ⟨n - 1, by omega⟩
      have hdrop : (q.drop n).count c ≤ q.count c := (List.drop_sublist n q).count_le c
      simp only [List.count_append, List.count_eq_zero_of_not_mem hp,
        List.count_eq_zero_of_not_mem ht, List.count_cons_self, List.drop_succ_cons] at h ⊢
      omega

theorem not_mem_of_loop {m : Nat} (h : loop (substitute c n t more) m (s, r) = some (s', r')) :
    c ∉ s' := by
  induction m generalizing s r with
  | zero => cases h
  | succ m ih =>
    rcases absent_or_first c s with habs | ⟨p, q, hp, rfl⟩
    · rw [loop_leave (substitute_absent habs)] at h
      cases h
      exact habs
    · rw [loop_next (substitute_first hp)] at h
      exact ih h

/-! ## Joined parts -/

/-- Over parts without the mark, joined by a separator that starts with it and is as long as
the stretch, the loop replaces the separators and nothing else. -/
theorem loop_join (more : List β) {parts : List (List α)} {u : List α} (ht : c ∉ t)
    (hlen : (c :: u).length = n) (hparts : ∀ l ∈ parts, c ∉ l) (hp : c ∉ p)
    {m : Nat} (hm : parts.length < m) :
    loop (substitute c n t more) m (p ++ parts.flatMap (c :: u ++ ·), r) =
      some (p ++ parts.flatMap (t ++ ·), r ++ parts.flatMap fun _ => more) := by
  induction parts generalizing p r m with
  | nil =>
    obtain ⟨m, rfl⟩ : ∃ k, m = k + 1 := ⟨m - 1, by omega⟩
    simpa using loop_leave (substitute_absent hp) m
  | cons l parts ih =>
    obtain ⟨m, rfl⟩ : ∃ k, m = k + 1 := ⟨m - 1, by omega⟩
    have hpre : c ∉ p ++ t ++ l := by
      simp [hp, ht, hparts l List.mem_cons_self]
    have hround : substitute c n t more (p ++ (l :: parts).flatMap (c :: u ++ ·), r) =
        some (.inl (p ++ t ++ l ++ parts.flatMap (c :: u ++ ·), r ++ more)) := by
      have hdrop : (c :: (u ++ (l ++ parts.flatMap (c :: u ++ ·)))).drop n =
          l ++ parts.flatMap (c :: u ++ ·) := by
        rw [← List.cons_append, ← hlen, List.drop_left]
      have hfirst : substitute c n t more
          (p ++ c :: (u ++ (l ++ parts.flatMap (c :: u ++ ·))), r) =
            some (.inl (p ++ t ++ (l ++ parts.flatMap (c :: u ++ ·)), r ++ more)) := by
        rw [substitute_first hp, hdrop]
      simpa using hfirst
    rw [loop_next hround, ih (fun l' hl' => hparts l' (List.mem_cons_of_mem l hl')) hpre
      (by simpa using hm)]
    simp

end Cdroid.Lib.Substitution
