/-! Loops that may go on for ever. A round goes on with a new state, leaves the loop
with a result, or does not come back itself. A number of rounds is tried, and the loop
ends with a result if some number is enough. -/

namespace Cdroid.Lib.Loop

variable {σ β : Type}

/-- At most `n` rounds from `s`. -/
def loop (body : σ → Option (σ ⊕ β)) : Nat → σ → Option β
  | 0, _ => none
  | n + 1, s => match body s with
    | some (.inl s) => loop body n s
    | some (.inr b) => some b
    | none => none

/-- The loop ends, with `b`. -/
def Ends (body : σ → Option (σ ⊕ β)) (s : σ) (b : β) : Prop := ∃ n, loop body n s = some b

variable {body : σ → Option (σ ⊕ β)} {s s' : σ} {b : β}

theorem loop_leave (h : body s = some (.inr b)) (n : Nat) :
    loop body (n + 1) s = some b := by
  rw [loop, h]

theorem loop_next (h : body s = some (.inl s')) (n : Nat) :
    loop body (n + 1) s = loop body n s' := by
  rw [loop, h]

theorem ends_of_leave (h : body s = some (.inr b)) : Ends body s b := ⟨1, loop_leave h 0⟩

/-- A round that changes nothing is repeated for ever. -/
theorem not_ends_of_same (h : body s = some (.inl s)) : ¬ Ends body s b := by
  rintro ⟨n, hn⟩
  induction n with
  | zero => cases hn
  | succ n ih =>
    rw [loop_next h] at hn
    exact ih hn

/-- A loop along a list, with a round for each entry. -/
theorem loop_list {τ α : Type} {body : τ × List α → Option ((τ × List α) ⊕ β)}
    (f : τ → α → τ) (leave : τ → β) (hnil : ∀ t, body (t, []) = some (.inr (leave t)))
    (hcons : ∀ t a l, body (t, a :: l) = some (.inl (f t a, l))) (n : Nat) (t : τ) (l : List α) :
    loop body n (t, l) = if l.length < n then some (leave (l.foldl f t)) else none := by
  induction n generalizing t l with
  | zero => rfl
  | succ n ih =>
    cases l with
    | nil =>
      rw [loop_leave (hnil t), if_pos (by simp)]
      rfl
    | cons a l =>
      rw [loop_next (hcons t a l), ih, List.foldl_cons, List.length_cons]
      simp only [Nat.add_lt_add_iff_right]

end Cdroid.Lib.Loop
