/-! Stateful computations that may fault (`EStateM`), and the rules by which
properties of their parts give properties of the whole: weakest preconditions
(`wp`), relations that a computation keeps whatever its outcome (`Keeps`), the
faults it can raise (`Raises`), and runs of a step function with a side condition
on every step (`Along`). -/

namespace Cdroid.Lib.Comp

variable {ε σ α β ι : Type}

/-- The state a computation leaves behind, whether it returned or faulted. -/
def final : EStateM.Result ε σ α → σ
  | .ok _ s => s
  | .error _ s => s

def returned : EStateM.Result ε σ α → Bool
  | .ok .. => true
  | .error .. => false

theorem eq_ok_final {r : EStateM.Result ε σ PUnit} (h : returned r = true) :
    r = .ok ⟨⟩ (final r) := by
  cases r with
  | ok a s => rfl
  | error e s => cases h

/-! ## Weakest preconditions -/

/-- From `s`, the computation returns with `Q` or faults with `E`. -/
def wp (x : EStateM ε σ α) (Q : α → σ → Prop) (E : ε → σ → Prop) (s : σ) : Prop :=
  match x s with
  | .ok a t => Q a t
  | .error e t => E e t

section Rules
variable {Q : α → σ → Prop} {Q' : β → σ → Prop} {E : ε → σ → Prop} {s : σ}

@[simp] theorem wp_pure (a : α) : wp (pure a : EStateM ε σ α) Q E s = Q a s := rfl

@[simp] theorem wp_throw (e : ε) : wp (throw e : EStateM ε σ α) Q E s = E e s := rfl

theorem get_bind_apply (f : σ → EStateM ε σ α) (s : σ) : (get >>= f) s = f s s := rfl

@[simp] theorem wp_get {Q : σ → σ → Prop} : wp (get : EStateM ε σ σ) Q E s = Q s s := rfl

@[simp] theorem wp_modify {Q : PUnit → σ → Prop} (f : σ → σ) :
    wp (modify f : EStateM ε σ PUnit) Q E s = Q ⟨⟩ (f s) := rfl

@[simp] theorem wp_bind (x : EStateM ε σ α) (f : α → EStateM ε σ β) :
    wp (x >>= f) Q' E s = wp x (fun a t => wp (f a) Q' E t) E s := by
  simp only [wp, bind, EStateM.bind]
  cases x s <;> rfl

theorem wp_map {f : α → β} {x : EStateM ε σ α} (h : wp x (fun a => Q' (f a)) E s) :
    wp (f <$> x) Q' E s := by
  simp only [wp, Functor.map, EStateM.map] at *
  cases hx : x s <;> rw [hx] at h <;> exact h

/-- Consequence: both postconditions may be weakened. -/
theorem wp_mono {x : EStateM ε σ α} {R : α → σ → Prop} {F : ε → σ → Prop}
    (h : wp x Q E s) (hQ : ∀ a t, Q a t → R a t) (hE : ∀ e t, E e t → F e t) :
    wp x R F s := by
  unfold wp at *
  cases hx : x s with
  | ok a t => rw [hx] at h; exact hQ a t h
  | error e t => rw [hx] at h; exact hE e t h

/-- Consequence where faults do not matter. -/
theorem wp_mono_ok {x : EStateM ε σ α} {R : α → σ → Prop} (h : wp x Q E s)
    (hQ : ∀ a t, Q a t → R a t) : wp x R (fun _ _ => True) s :=
  wp_mono h hQ fun _ _ _ => trivial

theorem wp_and {x : EStateM ε σ α} {R : α → σ → Prop} {F : ε → σ → Prop}
    (h : wp x Q E s) (h' : wp x R F s) :
    wp x (fun a t => Q a t ∧ R a t) (fun e t => E e t ∧ F e t) s := by
  unfold wp at *
  cases hx : x s with
  | ok a t => rw [hx] at h h'; exact ⟨h, h'⟩
  | error e t => rw [hx] at h h'; exact ⟨h, h'⟩

theorem wp_true (x : EStateM ε σ α) (s : σ) : wp x (fun _ _ => True) (fun _ _ => True) s := by
  unfold wp
  cases x s <;> trivial

theorem wp_ok {x : EStateM ε σ α} {a : α} {t : σ} (h : wp x Q E s) (hx : x s = .ok a t) :
    Q a t := by
  unfold wp at h
  rwa [hx] at h

theorem wp_error {x : EStateM ε σ α} {e : ε} {t : σ} (h : wp x Q E s) (hx : x s = .error e t) :
    E e t := by
  unfold wp at h
  rwa [hx] at h

theorem wp_final {x : EStateM ε σ α} {P : σ → Prop} (h : wp x (fun _ t => P t) (fun _ t => P t) s) :
    P (final (x s)) := by
  unfold wp at h
  cases hx : x s with
  | ok a t => rwa [hx] at h
  | error e t => rwa [hx] at h

end Rules

/-! ## Conditionals and loops -/

/-- An `if` without an `else`. -/
def when (c : Prop) [Decidable c] (x : EStateM ε σ PUnit) : EStateM ε σ PUnit :=
  if c then x else pure ⟨⟩

theorem wp_when {c : Prop} [Decidable c] {x : EStateM ε σ PUnit} {Q : PUnit → σ → Prop}
    {E : ε → σ → Prop} {s : σ} (h : c → wp x Q E s) (h' : ¬ c → Q ⟨⟩ s) : wp (when c x) Q E s := by
  unfold when
  split
  · next hc => exact h hc
  · next hc => exact h' hc

/-- Do `f` for every element of a list, in order. -/
def each (f : ι → EStateM ε σ PUnit) : List ι → EStateM ε σ PUnit
  | [] => pure ⟨⟩
  | i :: l => do f i; each f l

/-- A loop keeps what each pass keeps. -/
theorem wp_each {E : ε → σ → Prop} {f : ι → EStateM ε σ PUnit} {I : σ → Prop} (l : List ι)
    {s : σ} (h : ∀ i ∈ l, ∀ t, I t → wp (f i) (fun _ => I) E t) (hs : I s) :
    wp (each f l) (fun _ => I) E s := by
  induction l generalizing s with
  | nil => exact hs
  | cons i l ih =>
    rw [each, wp_bind]
    exact wp_mono (h i (List.mem_cons_self ..) s hs)
      (fun _ t ht => ih (fun j hj => h j (List.mem_cons_of_mem _ hj)) ht) (fun _ _ he => he)

/-! ## Parts of the state -/

/-- Run a computation on a part of the state. -/
def within {τ : Type} (part : σ → τ) (put : τ → σ → σ) (x : EStateM ε τ α) : EStateM ε σ α :=
  fun s => match x (part s) with
    | .ok a t => .ok a (put t s)
    | .error e t => .error e (put t s)

theorem wp_within {τ : Type} {part : σ → τ} {put : τ → σ → σ} {x : EStateM ε τ α}
    {Q : α → σ → Prop} {E : ε → σ → Prop} {s : σ}
    (h : wp x (fun a t => Q a (put t s)) (fun e t => E e (put t s)) (part s)) :
    wp (within part put x) Q E s := by
  unfold wp within at *
  cases hx : x (part s) <;> rw [hx] at h <;> exact h

/-! ## Relations that a computation keeps -/

/-- A relation between the states before and after, closed under doing nothing
and under doing one thing after another. -/
structure Frame (σ : Type) where
  rel : σ → σ → Prop
  refl : ∀ s, rel s s
  trans : ∀ {s t u}, rel s t → rel t u → rel s u

/-- The states after satisfy `I` when the states before do. -/
def Frame.invariant (I : σ → Prop) : Frame σ where
  rel s t := I s → I t
  refl _ h := h
  trans h h' hs := h' (h hs)

/-- The part of the state that `f` looks at does not change. -/
def Frame.same {τ : Type} (f : σ → τ) : Frame σ where
  rel s t := f t = f s
  refl _ := rfl
  trans h h' := h'.trans h

/-- `x` ends in a state related to the one it began in, fault or no fault. -/
def Keeps (F : Frame σ) (x : EStateM ε σ α) : Prop := ∀ s, F.rel s (final (x s))

namespace Keeps
variable {F : Frame σ} {x : EStateM ε σ α}

theorem pure (a : α) : Keeps F (pure a : EStateM ε σ α) := fun s => F.refl s

theorem throw (e : ε) : Keeps F (throw e : EStateM ε σ α) := fun s => F.refl s

theorem get : Keeps F (get : EStateM ε σ σ) := fun s => F.refl s

theorem modify {f : σ → σ} (h : ∀ s, F.rel s (f s)) :
    Keeps F (modify f : EStateM ε σ PUnit) := fun s => h s

theorem bind {f : α → EStateM ε σ β} (hx : Keeps F x) (hf : ∀ a, Keeps F (f a)) :
    Keeps F (x >>= f) := by
  intro s
  have h := hx s
  simp only [Bind.bind, EStateM.bind]
  cases hs : x s with
  | ok a t => rw [hs] at h; exact F.trans h (hf a t)
  | error e t => rw [hs] at h; exact h

theorem map {f : α → β} (hx : Keeps F x) : Keeps F (f <$> x) := by
  intro s
  have h := hx s
  simp only [Functor.map, EStateM.map]
  cases hs : x s with
  | ok a t => rw [hs] at h; exact h
  | error e t => rw [hs] at h; exact h

theorem ite {c : Prop} [Decidable c] {y : EStateM ε σ α} (hx : Keeps F x) (hy : Keeps F y) :
    Keeps F (if c then x else y) := by
  split
  · exact hx
  · exact hy

theorem when {c : Prop} [Decidable c] {y : EStateM ε σ PUnit} (h : Keeps F y) :
    Keeps F (when c y) := h.ite (.pure _)

/-- A computation that first looks at the state may use what it sees there. -/
theorem get_bind {f : σ → EStateM ε σ α} (h : ∀ s, F.rel s (final (f s s))) :
    Keeps F (MonadState.get >>= f) := fun s => h s

theorem each {f : ι → EStateM ε σ PUnit} (l : List ι) (h : ∀ i ∈ l, Keeps F (f i)) :
    Keeps F (each f l) := by
  induction l with
  | nil => exact Keeps.pure _
  | cons i l ih =>
    exact (h i (List.mem_cons_self ..)).bind fun _ =>
      ih fun j hj => h j (List.mem_cons_of_mem _ hj)

/-- An invariant is kept if it holds after the computation, whatever the outcome. -/
theorem of_invariant {I : σ → Prop} {x : EStateM ε σ α}
    (h : ∀ s, I s → Comp.wp x (fun _ => I) (fun _ => I) s) : Keeps (.invariant I) x :=
  fun s hs => wp_final (h s hs)

theorem of_wp {F : Frame σ} {x : EStateM ε σ α}
    (h : ∀ s, Comp.wp x (fun _ t => F.rel s t) (fun _ t => F.rel s t) s) : Keeps F x :=
  fun s => wp_final (h s)

/-- What a computation keeps holds of it after every outcome. -/
theorem wp (hx : Keeps F x) (s : σ) :
    Comp.wp x (fun _ t => F.rel s t) (fun _ t => F.rel s t) s := by
  have h := hx s
  unfold Comp.wp
  cases hs : x s with
  | ok a t => rw [hs] at h; exact h
  | error e t => rw [hs] at h; exact h

end Keeps

/-! ## Faults -/

/-- Every fault of `x` is one of `P`. -/
def Raises (P : ε → Prop) (x : EStateM ε σ α) : Prop :=
  ∀ s, wp x (fun _ _ => True) (fun e _ => P e) s

namespace Raises
variable {P : ε → Prop} {x : EStateM ε σ α}

theorem pure (a : α) : Raises P (pure a : EStateM ε σ α) := fun _ => trivial

theorem throw {e : ε} (h : P e) : Raises P (throw e : EStateM ε σ α) := fun _ => h

theorem get : Raises P (get : EStateM ε σ σ) := fun _ => trivial

theorem modify (f : σ → σ) : Raises P (modify f : EStateM ε σ PUnit) := fun _ => trivial

theorem bind {f : α → EStateM ε σ β} (hx : Raises P x) (hf : ∀ a, Raises P (f a)) :
    Raises P (x >>= f) := by
  intro s
  rw [wp_bind]
  exact wp_mono (hx s) (fun a t _ => hf a t) fun _ _ he => he

theorem ite {c : Prop} [Decidable c] {y : EStateM ε σ α} (hx : Raises P x) (hy : Raises P y) :
    Raises P (if c then x else y) := by
  split
  · exact hx
  · exact hy

theorem when {c : Prop} [Decidable c] {y : EStateM ε σ PUnit} (h : Raises P y) :
    Raises P (when c y) := h.ite (.pure _)

theorem each {f : ι → EStateM ε σ PUnit} (l : List ι) (h : ∀ i, Raises P (f i)) :
    Raises P (each f l) := by
  induction l with
  | nil => exact Raises.pure _
  | cons i l ih => exact (h i).bind fun _ => ih

end Raises

/-! ## Runs -/

/-- A run takes one step for each action; a fault ends it. -/
abbrev run (step : α → EStateM ε σ PUnit) (as : List α) : EStateM ε σ PUnit := each step as

/-- Every step of the run `as` from `s` meets the condition `P` in the state
before it. -/
def Along (P : σ → α → Prop) (step : α → EStateM ε σ PUnit) : List α → σ → Prop
  | [], _ => True
  | a :: as, s => P s a ∧ ∀ t, step a s = .ok ⟨⟩ t → Along P step as t

theorem along_true {step : α → EStateM ε σ PUnit} (as : List α) (s : σ) :
    Along (fun _ _ => True) step as s := by
  induction as generalizing s with
  | nil => trivial
  | cons a as ih => exact ⟨trivial, fun t _ => ih t⟩

/-- A condition that can be decided can be decided along a run. -/
instance decidableAlong {P : σ → α → Prop} [∀ s a, Decidable (P s a)]
    (step : α → EStateM ε σ PUnit) : ∀ as s, Decidable (Along P step as s)
  | [], _ => .isTrue trivial
  | a :: as, s =>
    match hs : step a s with
    | .ok ⟨⟩ t =>
      have := decidableAlong (P := P) step as t
      decidable_of_iff (P s a ∧ Along P step as t) (by simp [Along, hs])
    | .error _ _ => decidable_of_iff (P s a) (by simp [Along, hs])

theorem run_cons_ok {step : α → EStateM ε σ PUnit} {a : α} {as : List α} {s u : σ} :
    run step (a :: as) s = .ok ⟨⟩ u ↔ ∃ t, step a s = .ok ⟨⟩ t ∧ run step as t = .ok ⟨⟩ u := by
  simp only [run, each, bind, EStateM.bind]
  cases step a s with
  | ok v t =>
    constructor
    · exact fun h => ⟨t, rfl, h⟩
    · rintro ⟨t', ht, h⟩
      cases ht
      exact h
  | error e t => simp

theorem run_append_ok {step : α → EStateM ε σ PUnit} {as bs : List α} {s u : σ} :
    run step (as ++ bs) s = .ok ⟨⟩ u ↔
      ∃ t, run step as s = .ok ⟨⟩ t ∧ run step bs t = .ok ⟨⟩ u := by
  induction as generalizing s with
  | nil =>
    constructor
    · exact fun h => ⟨s, rfl, h⟩
    · rintro ⟨t, ht, h⟩
      cases ht
      exact h
  | cons a as ih =>
    rw [List.cons_append, run_cons_ok]
    constructor
    · rintro ⟨t, ht, h⟩
      obtain ⟨v, hv, h⟩ := ih.mp h
      exact ⟨v, run_cons_ok.mpr ⟨t, ht, hv⟩, h⟩
    · rintro ⟨v, hv, h⟩
      obtain ⟨t, ht, hv⟩ := run_cons_ok.mp hv
      exact ⟨t, ht, ih.mpr ⟨v, hv, h⟩⟩

/-- **Invariant rule.** If a step that meets `P` takes `I` to `I`, and a fault
on the way leaves `J`, then so does every run whose steps all meet `P`. -/
theorem wp_run {P : σ → α → Prop} {step : α → EStateM ε σ PUnit} {I : σ → Prop}
    {J : ε → σ → Prop} (h : ∀ s a, I s → P s a → wp (step a) (fun _ => I) J s)
    (as : List α) {s : σ} (hs : I s) (hP : Along P step as s) :
    wp (run step as) (fun _ => I) J s := by
  induction as generalizing s with
  | nil => exact hs
  | cons a as ih =>
    obtain ⟨ha, hrest⟩ := hP
    have hstep := h s a hs ha
    rw [run, each, wp_bind]
    unfold wp at hstep ⊢
    cases hx : step a s with
    | ok u t =>
      rw [hx] at hstep
      exact ih hstep (hrest t hx)
    | error e t => rw [hx] at hstep; exact hstep

/-- **Invariant rule** for an invariant over the steps taken so far. -/
theorem wp_run_history {step : α → EStateM ε σ PUnit} {I : List α → σ → Prop}
    {J : ε → σ → Prop} {as : List α}
    (h : ∀ done a rest s, as = done ++ a :: rest → I done s →
      wp (step a) (fun _ => I (done ++ [a])) J s) {s : σ} (hs : I [] s) :
    wp (run step as) (fun _ => I as) J s := by
  have hrest : ∀ rest done s, as = done ++ rest → I done s →
      wp (run step rest) (fun _ => I as) J s := by
    intro rest
    induction rest with
    | nil =>
      intro done s has hdone
      rw [List.append_nil] at has
      rw [has]
      exact hdone
    | cons a rest ih =>
      intro done s has hdone
      rw [run, each, wp_bind]
      apply wp_mono (h done a rest s has hdone)
      · intro _ t ht
        exact ih (done ++ [a]) t (by rw [has, List.append_assoc]; rfl) ht
      · exact fun _ _ he => he
  exact hrest as [] s rfl hs

/-- **Completion rule.** Where a step, from a state with `I`, returns exactly if it meets
`P`, and keeps `I`, a run returns exactly if all its steps meet `P`. -/
theorem run_ok_iff {P : σ → α → Prop} {K : α → Prop} {step : α → EStateM ε σ PUnit} {I : σ → Prop}
    (h : ∀ s a, I s → K a → wp (step a) (fun _ t => P s a ∧ I t) (fun _ _ => ¬ P s a) s)
    (as : List α) {s : σ} (hs : I s) (hK : ∀ a ∈ as, K a) :
    (∃ t, run step as s = .ok ⟨⟩ t) ↔ Along P step as s := by
  induction as generalizing s with
  | nil => exact ⟨fun _ => trivial, fun _ => ⟨s, rfl⟩⟩
  | cons a as ih =>
    have hstep := h s a hs (hK a (List.mem_cons_self ..))
    have hrest : ∀ b ∈ as, K b := fun b hb => hK b (List.mem_cons_of_mem _ hb)
    constructor
    · rintro ⟨u, hu⟩
      obtain ⟨t, ht, hu⟩ := run_cons_ok.mp hu
      obtain ⟨hP, hI⟩ := wp_ok hstep ht
      refine ⟨hP, fun t' ht' => ?_⟩
      rw [ht] at ht'
      cases ht'
      exact (ih hI hrest).mp ⟨u, hu⟩
    · rintro ⟨hP, hnext⟩
      cases hx : step a s with
      | ok v t =>
        obtain ⟨u, hu⟩ := (ih (wp_ok hstep hx).2 hrest).mpr (hnext t hx)
        exact ⟨u, run_cons_ok.mpr ⟨t, hx, hu⟩⟩
      | error e t => exact absurd hP (wp_error hstep hx)

/-! ## What a run shows -/

/-- What the steps of a run show, one after another; `obs` sees the state before
the step. -/
def trail (obs : σ → α → List β) (step : α → EStateM ε σ PUnit) : List α → σ → List β
  | [], _ => []
  | a :: as, s => obs s a ++ match step a s with
    | .ok _ t => trail obs step as t
    | .error _ _ => []

section Trail
variable {obs : σ → α → List β} {step : α → EStateM ε σ PUnit}

theorem trail_append {as bs : List α} {s t : σ} (h : run step as s = .ok ⟨⟩ t) :
    trail obs step (as ++ bs) s = trail obs step as s ++ trail obs step bs t := by
  induction as generalizing s with
  | nil =>
    cases h
    rfl
  | cons a as ih =>
    obtain ⟨u, hu, h⟩ := run_cons_ok.mp h
    simp only [List.cons_append, trail, hu, List.append_assoc, ih h]

/-- **Invariant rule** for an invariant over what the run has shown so far. -/
theorem wp_run_trail (obs : σ → α → List β) {P : σ → α → Prop} {I : List β → σ → Prop}
    {J : List β → ε → σ → Prop}
    (h : ∀ l s a, I l s → P s a →
      wp (step a) (fun _ => I (l ++ obs s a)) (J (l ++ obs s a)) s)
    (as : List α) {l : List β} {s : σ} (hs : I l s) (hP : Along P step as s) :
    wp (run step as) (fun _ => I (l ++ trail obs step as s)) (J (l ++ trail obs step as s)) s := by
  induction as generalizing l s with
  | nil =>
    rw [trail, List.append_nil]
    exact hs
  | cons a as ih =>
    obtain ⟨ha, hrest⟩ := hP
    have hstep := h l s a hs ha
    rw [run, each, wp_bind]
    unfold wp at hstep ⊢
    rw [trail, ← List.append_assoc]
    cases hx : step a s with
    | ok u t =>
      rw [hx] at hstep
      exact ih hstep (hrest t hx)
    | error e t =>
      rw [hx] at hstep
      rw [List.append_nil]
      exact hstep

/-- **Fault rule.** Where a step, from a state with `I`, raises the fault `f` exactly if it
does not meet `P`, and otherwise keeps `I`, a run does without `f` exactly if all its steps
meet `P`. -/
theorem run_spares_iff (obs : σ → α → List β) {P : σ → α → Prop} {I : List β → σ → Prop} {f : ε}
    (h : ∀ l s a, I l s →
      wp (step a) (fun _ t => P s a ∧ I (l ++ obs s a) t) (fun e _ => e = f ↔ ¬ P s a) s)
    (as : List α) {l : List β} {s : σ} (hs : I l s) :
    (∀ t, run step as s ≠ .error f t) ↔ Along P step as s := by
  induction as generalizing l s with
  | nil => exact ⟨fun _ => trivial, fun _ _ => nofun⟩
  | cons a as ih =>
    have hstep := h l s a hs
    have hrun : ∀ t, run step (a :: as) s = .error f t ↔
        step a s = .error f t ∨ ∃ u, step a s = .ok ⟨⟩ u ∧ run step as u = .error f t := by
      intro t
      simp only [run, each, bind, EStateM.bind]
      cases step a s <;> simp
    simp only [ne_eq, hrun, not_or, not_exists, not_and]
    cases hx : step a s with
    | ok v u =>
      obtain ⟨hP, hI⟩ := wp_ok hstep hx
      have hrest := ih hI
      constructor
      · refine fun hall => ⟨hP, fun t ht => ?_⟩
        rw [hx] at ht
        cases ht
        exact hrest.mp fun t => (hall t).2 u rfl
      · exact fun hall t => ⟨nofun, fun u' hu' => by
          cases hu'
          exact hrest.mpr (hall.2 u hx) t⟩
    | error e u =>
      have hiff := wp_error hstep hx
      constructor
      · refine fun hall => ⟨Classical.not_not.mp fun hP => ?_, fun t ht => ?_⟩
        · exact (hall u).1 (by rw [hiff.mpr hP])
        · rw [hx] at ht
          cases ht
      · exact fun hall t => ⟨fun he => by
          cases he
          exact hiff.mp rfl hall.1, nofun⟩

end Trail

end Cdroid.Lib.Comp
