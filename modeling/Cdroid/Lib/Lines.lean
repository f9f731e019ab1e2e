import Mathlib.Data.List.TakeWhile

/-! Text read through a buffer of limited size, a line or a full buffer at a time, and
cut at the last occurrence of a character. -/

namespace Cdroid.Lib.Lines

variable {α : Type} [DecidableEq α]

section Reading
variable (nl : α)

/-- At most `n` characters of the text, not past a `nl`, and the text behind them. -/
def fgets : Nat → List α → List α × List α
  | 0, s => ([], s)
  | _ + 1, [] => ([], [])
  | n + 1, a :: s =>
    if a = nl then ([a], s)
    else (a :: (fgets n s).1, (fgets n s).2)

/-- What `fgets` comes back with in turn, up to the end of the text. -/
def linesAux (n : Nat) : Nat → List α → List (List α)
  | 0, _ => []
  | _, [] => []
  | k + 1, a :: s => (fgets nl n (a :: s)).1 :: linesAux n k (fgets nl n (a :: s)).2

def lines (n : Nat) (s : List α) : List (List α) := linesAux nl n s.length s

end Reading

variable {nl a : α} {n : Nat} {l s p q : List α}

theorem fgets_append (nl : α) (n : Nat) (s : List α) :
    (fgets nl n s).1 ++ (fgets nl n s).2 = s := by
  induction n generalizing s with
  | zero => rfl
  | succ n ih =>
    cases s with
    | nil => rfl
    | cons a s =>
      rw [fgets]
      split
      · rfl
      · simp [ih s]

theorem length_rest_lt (nl : α) (n : Nat) (a : α) (s : List α) :
    (fgets nl (n + 1) (a :: s)).2.length ≤ s.length := by
  rw [fgets]
  split
  · exact le_refl _
  · have h := congrArg List.length (fgets_append nl n s)
    rw [List.length_append] at h
    dsimp only
    omega

theorem linesAux_eq {k k' : Nat} (h : s.length ≤ k) (h' : s.length ≤ k') :
    linesAux nl (n + 1) k s = linesAux nl (n + 1) k' s := by
  induction k generalizing s k' with
  | zero =>
    have e : s = [] := by simpa using h
    subst e
    cases k' <;> rfl
  | succ k ih =>
    cases s with
    | nil => cases k' <;> rfl
    | cons a s =>
      cases k' with
      | zero => simp at h'
      | succ k' =>
        have hlt := length_rest_lt nl n a s
        simp only [List.length_cons] at h h'
        rw [linesAux, linesAux]
        exact congrArg _ (ih (by omega) (by omega))

theorem lines_cons (n : Nat) (a : α) (s : List α) :
    lines nl (n + 1) (a :: s) =
      (fgets nl (n + 1) (a :: s)).1 :: lines nl (n + 1) (fgets nl (n + 1) (a :: s)).2 := by
  have hlt := length_rest_lt nl n a s
  rw [lines, List.length_cons, linesAux]
  exact congrArg _ (linesAux_eq hlt (le_refl _))

/-! ## Reading a line -/

/-- A line that fits is read whole. -/
theorem fgets_line (h : nl ∉ l) (hn : l.length < n) (s : List α) :
    fgets nl n (l ++ nl :: s) = (l ++ [nl], s) := by
  induction l generalizing n with
  | nil =>
    obtain ⟨m, rfl⟩ : ∃ m, n = m + 1 := ⟨n - 1, by simp at hn; omega⟩
    simp [fgets]
  | cons a l ih =>
    obtain ⟨m, rfl⟩ : ∃ m, n = m + 1 := ⟨n - 1, by simp at hn; omega⟩
    have ha : a ≠ nl := fun e => h (by simp [e])
    have hl : nl ∉ l := fun e => h (by simp [e])
    rw [List.cons_append, fgets, if_neg ha, ih hl (by simpa using hn)]
    rfl

/-- Of a longer one a full buffer is read. -/
theorem fgets_full (h : nl ∉ l) (hn : n ≤ l.length) (s : List α) :
    fgets nl n (l ++ s) = (l.take n, l.drop n ++ s) := by
  induction l generalizing n with
  | nil =>
    have e : n = 0 := by simpa using hn
    subst e
    rfl
  | cons a l ih =>
    cases n with
    | zero => rfl
    | succ n =>
      have ha : a ≠ nl := fun e => h (by simp [e])
      have hl : nl ∉ l := fun e => h (by simp [e])
      rw [List.cons_append, fgets, if_neg ha, ih hl (by simpa using hn)]
      rfl

theorem lines_line (h : nl ∉ l) (hn : l.length ≤ n) (s : List α) :
    lines nl (n + 1) (l ++ nl :: s) = (l ++ [nl]) :: lines nl (n + 1) s := by
  have hf := fgets_line h (by omega : l.length < n + 1) s
  cases l with
  | nil =>
    rw [List.nil_append, lines_cons]
    rw [List.nil_append] at hf
    rw [hf]
  | cons a l =>
    rw [List.cons_append, lines_cons]
    rw [List.cons_append] at hf
    rw [hf]

theorem lines_full (h : nl ∉ l) (hn : n < l.length) (s : List α) :
    lines nl (n + 1) (l ++ s) = l.take (n + 1) :: lines nl (n + 1) (l.drop (n + 1) ++ s) := by
  cases l with
  | nil => simp at hn
  | cons a l =>
    have hf := fgets_full (s := s) h hn
    rw [List.cons_append, lines_cons]
    rw [List.cons_append] at hf
    rw [hf]

/-- A line that is short enough for a smaller buffer is read into it all the same. -/
theorem fgets_of_short {m : Nat} (hn : n ≤ m) (h : (fgets nl m s).1.length ≤ n) :
    fgets nl n s = fgets nl m s := by
  induction m generalizing n s with
  | zero => rw [Nat.le_zero.mp hn]
  | succ m ih =>
    cases s with
    | nil => cases n <;> rfl
    | cons a s =>
      rw [fgets] at h ⊢
      cases n with
      | zero => split at h <;> simp at h
      | succ n =>
        rw [fgets]
        split
        · rfl
        · next ha =>
          rw [if_neg ha] at h
          rw [ih (by omega) (by simpa using h)]

theorem lines_of_short {m : Nat} (hn : n ≤ m)
    (h : ∀ l ∈ lines nl (m + 1) s, l.length ≤ n + 1) :
    lines nl (n + 1) s = lines nl (m + 1) s := by
  induction hk : s.length using Nat.strong_induction_on generalizing s with
  | _ k ih =>
    cases s with
    | nil => rfl
    | cons a s =>
      rw [lines_cons] at h
      rw [lines_cons, lines_cons]
      rw [List.forall_mem_cons] at h
      rw [fgets_of_short (by omega : n + 1 ≤ m + 1) h.1]
      have hlt := length_rest_lt nl m a s
      rw [List.length_cons] at hk
      rw [ih _ (by omega) h.2 rfl]

theorem length_of_mem_lines (h : l ∈ lines nl (n + 1) s) : l.length ≤ s.length := by
  induction hk : s.length using Nat.strong_induction_on generalizing s with
  | _ k ih =>
    cases s with
    | nil => cases h
    | cons a s =>
      have hsum := congrArg List.length (fgets_append nl (n + 1) (a :: s))
      rw [List.length_append] at hsum
      rw [lines_cons] at h
      rcases List.mem_cons.mp h with rfl | h
      · omega
      · have hlt := length_rest_lt nl n a s
        rw [List.length_cons] at hk
        have hl := ih _ (by omega) h rfl
        omega

/-! ## The last occurrence -/

/-- The text before and behind the last `c`. -/
def rfind (c : α) : List α → Option (List α × List α)
  | [] => none
  | a :: s => match rfind c s with
    | some (p, q) => some (a :: p, q)
    | none => if a = c then some ([], s) else none

theorem rfind_eq_none {c : α} (h : c ∉ s) : rfind c s = none := by
  induction s with
  | nil => rfl
  | cons a s ih =>
    have ha : a ≠ c := fun e => h (by simp [e])
    have hs : c ∉ s := fun e => h (by simp [e])
    rw [rfind, ih hs]
    exact if_neg ha

theorem rfind_append {c : α} (p : List α) (h : c ∉ q) :
    rfind c (p ++ c :: q) = some (p, q) := by
  induction p with
  | nil =>
    rw [List.nil_append, rfind, rfind_eq_none h]
    exact if_pos rfl
  | cons a p ih => rw [List.cons_append, rfind, ih]

/-- Behind the last occurrence there may be more. -/
theorem rfind_append_of_not_mem {c : α} (s : List α) (h : c ∉ q) :
    rfind c (s ++ q) = (rfind c s).map fun (p, r) => (p, r ++ q) := by
  induction s with
  | nil => exact rfind_eq_none h
  | cons a s ih =>
    rw [List.cons_append, rfind, rfind, ih]
    cases rfind c s with
    | some r => rfl
    | none =>
      simp only [Option.map_none]
      split <;> rfl

theorem rfind_cases (c : α) (s : List α) :
    (c ∉ s ∧ rfind c s = none) ∨ ∃ p q, s = p ++ c :: q ∧ c ∉ q ∧ rfind c s = some (p, q) := by
  induction s with
  | nil => exact .inl ⟨by simp, rfl⟩
  | cons a s ih =>
    rcases ih with ⟨hs, _⟩ | ⟨p, q, rfl, hq, _⟩
    · by_cases ha : a = c
      · subst ha
        exact .inr ⟨[], s, rfl, hs, rfind_append [] hs⟩
      · have h : c ∉ a :: s := by simp [hs, Ne.symm ha]
        exact .inl ⟨h, rfind_eq_none h⟩
    · exact .inr ⟨a :: p, q, rfl, hq, rfind_append (a :: p) hq⟩

end Cdroid.Lib.Lines
