/-! Runs of a machine that is given by a partial next-state function. An action that
cannot be taken has no next state. -/

namespace Cdroid.Lib.Runs

variable {σ α : Type} {next : σ → α → Option σ}

/-- The state after the actions `as`, if each of them can be taken in its turn. -/
def after (next : σ → α → Option σ) : List α → σ → Option σ
  | [], s => some s
  | a :: as, s => (next s a).bind (after next as)

theorem after_cons {a : α} {as : List α} {s u : σ} :
    after next (a :: as) s = some u ↔ ∃ t, next s a = some t ∧ after next as t = some u :=
  Option.bind_eq_some_iff

theorem after_append {as bs : List α} {s u : σ} :
    after next (as ++ bs) s = some u ↔
      ∃ t, after next as s = some t ∧ after next bs t = some u := by
  induction as generalizing s with
  | nil => simp [after]
  | cons a as ih =>
    rw [List.cons_append, after_cons]
    simp only [after_cons, ih]
    constructor
    · rintro ⟨v, hv, t, ht, hu⟩
      exact ⟨t, ⟨v, hv, ht⟩, hu⟩
    · rintro ⟨t, ⟨v, hv, ht⟩, hu⟩
      exact ⟨v, hv, t, ht, hu⟩

/-- Every action of the run meets `P` in the state in which it is taken. -/
def Along (P : σ → α → Prop) (next : σ → α → Option σ) : List α → σ → Prop
  | [], _ => True
  | a :: as, s => P s a ∧ ∀ t, next s a = some t → Along P next as t

/-- A condition that can be decided can be decided along a run. -/
instance decidableAlong {P : σ → α → Prop} [∀ s a, Decidable (P s a)]
    (next : σ → α → Option σ) : ∀ as s, Decidable (Along P next as s)
  | [], _ => .isTrue trivial
  | a :: as, s =>
    match hs : next s a with
    | some t =>
      have := decidableAlong (P := P) next as t
      decidable_of_iff (P s a ∧ Along P next as t) (by simp [Along, hs])
    | none => decidable_of_iff (P s a) (by simp [Along, hs])

/-- **Invariant rule.** `I` relates a state to the actions that led to it, and every
action that meets `P` keeps it. -/
theorem history_inv {P : σ → α → Prop} {I : List α → σ → Prop} {s t : σ}
    (h : ∀ as s a t, I as s → P s a → next s a = some t → I (as ++ [a]) t)
    (as : List α) (hs : I [] s) (hP : Along P next as s) (ht : after next as s = some t) :
    I as t := by
  have hrun : ∀ (bs as : List α) (s : σ), I bs s → Along P next as s →
      after next as s = some t → I (bs ++ as) t := by
    intro bs as
    induction as generalizing bs with
    | nil =>
      intro s hs _ ht
      cases ht
      rw [List.append_nil]
      exact hs
    | cons a as ih =>
      intro s hs hP ht
      obtain ⟨u, hu, ht⟩ := after_cons.mp ht
      rw [List.append_cons]
      exact ih (bs ++ [a]) u (h bs s a u hs hP.1 hu) (hP.2 u hu) ht
  exact hrun [] as s hs hP ht

theorem along_true (as : List α) (s : σ) : Along (fun _ _ => True) next as s := by
  induction as generalizing s with
  | nil => trivial
  | cons a as ih => exact ⟨trivial, fun t _ => ih t⟩

theorem along_of_forall {P : σ → α → Prop} {as : List α} (h : ∀ a ∈ as, ∀ s, P s a) (s : σ) :
    Along P next as s := by
  induction as generalizing s with
  | nil => trivial
  | cons a as ih =>
    exact ⟨h a List.mem_cons_self s, fun t _ => ih (fun b hb => h b (List.mem_cons_of_mem a hb)) t⟩

/-- An invariant of every step is one of every run. -/
theorem after_inv {I : σ → Prop} {s t : σ} (h : ∀ s a t, I s → next s a = some t → I t)
    (as : List α) (hs : I s) (ht : after next as s = some t) : I t :=
  history_inv (I := fun _ s => I s) (fun _ s a t hs _ => h s a t hs) as hs (along_true as s) ht

/-- An invariant of every step that meets `P` is one of every run whose steps do. -/
theorem along_inv {P : σ → α → Prop} {I : σ → Prop} {s t : σ}
    (h : ∀ s a t, I s → P s a → next s a = some t → I t)
    (as : List α) (hs : I s) (hP : Along P next as s) (ht : after next as s = some t) : I t :=
  history_inv (I := fun _ s => I s) (fun _ s a t => h s a t) as hs hP ht

/-- A condition that follows from the invariant is met by every step of a run. -/
theorem along_of_inv {P Q : σ → α → Prop} {I : σ → Prop} {s : σ}
    (h : ∀ s a t, I s → P s a → next s a = some t → I t) (hQ : ∀ s a, I s → P s a → Q s a)
    (as : List α) (hs : I s) (hP : Along P next as s) : Along Q next as s := by
  induction as generalizing s with
  | nil => trivial
  | cons a as ih => exact ⟨hQ s a hs hP.1, fun t ht => ih (h s a t hs hP.1 ht) (hP.2 t ht)⟩

/-- A run goes through if every step that meets `P` can be taken and keeps the invariant. -/
theorem along_total {P : σ → α → Prop} {I : σ → Prop} {s : σ}
    (h : ∀ s a, I s → P s a → ∃ t, next s a = some t ∧ I t)
    (as : List α) (hs : I s) (hP : Along P next as s) : ∃ t, after next as s = some t ∧ I t := by
  induction as generalizing s with
  | nil => exact ⟨s, rfl, hs⟩
  | cons a as ih =>
    obtain ⟨t, ht, hI⟩ := h s a hs hP.1
    obtain ⟨u, hu, hIu⟩ := ih hI (hP.2 t ht)
    exact ⟨u, after_cons.mpr ⟨t, ht, hu⟩, hIu⟩

end Cdroid.Lib.Runs
