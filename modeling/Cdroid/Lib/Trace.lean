import Mathlib.Data.List.Basic

/-! Computations on a state that log events, and their weakest preconditions: what has to
hold of the state for every event and the outcome to be good. -/

namespace Cdroid.Lib.Trace

def Traced (ε σ α : Type) : Type := σ → α × σ × List ε

variable {ε σ α β : Type}

namespace Traced

instance : Monad (Traced ε σ) where
  pure a s := (a, s, [])
  bind m f s :=
    let r := m s
    let r' := f r.1 r.2.1
    (r'.1, r'.2.1, r.2.2 ++ r'.2.2)

def get : Traced ε σ σ := fun s => (s, s, [])

def set (t : σ) : Traced ε σ Unit := fun _ => ((), t, [])

def emit (e : ε) : Traced ε σ Unit := fun s => ((), s, [e])

theorem get_bind (f : σ → Traced ε σ α) (s : σ) : (get >>= f) s = f s s := rfl

/-- One computation after another, by what each of them gives. -/
theorem bind_eq {m : Traced ε σ α} {f : α → Traced ε σ β} {s t u : σ} {a : α} {b : β}
    {e e' : List ε} (hm : m s = (a, t, e)) (hf : f a t = (b, u, e')) :
    (m >>= f) s = (b, u, e ++ e') := by
  show ((f (m s).1 (m s).2.1).1, (f (m s).1 (m s).2.1).2.1,
    (m s).2.2 ++ (f (m s).1 (m s).2.1).2.2) = _
  rw [hm, hf]

end Traced

open Traced

/-- From `s`, every event meets `E`, and the result and the state left meet `Q`. -/
def wp (E : ε → Prop) (m : Traced ε σ α) (Q : α → σ → Prop) (s : σ) : Prop :=
  (∀ e ∈ (m s).2.2, E e) ∧ Q (m s).1 (m s).2.1

variable {E : ε → Prop} {Q : α → σ → Prop} {s : σ}

@[simp] theorem wp_pure (a : α) : wp E (pure a) Q s ↔ Q a s :=
  ⟨fun h => h.2, fun h => ⟨nofun, h⟩⟩

@[simp] theorem wp_get {Q : σ → σ → Prop} : wp E get Q s ↔ Q s s :=
  ⟨fun h => h.2, fun h => ⟨nofun, h⟩⟩

@[simp] theorem wp_set {Q : Unit → σ → Prop} (t : σ) : wp E (set t) Q s ↔ Q () t :=
  ⟨fun h => h.2, fun h => ⟨nofun, h⟩⟩

@[simp] theorem wp_emit {Q : Unit → σ → Prop} (e : ε) : wp E (emit e) Q s ↔ E e ∧ Q () s := by
  simp [wp, emit]

@[simp] theorem wp_bind (m : Traced ε σ α) (f : α → Traced ε σ β) {Q : β → σ → Prop} :
    wp E (m >>= f) Q s ↔ wp E m (fun a t => wp E (f a) Q t) s := by
  show (∀ e ∈ (m s).2.2 ++ (f (m s).1 (m s).2.1).2.2, E e) ∧ _ ↔ _
  rw [List.forall_mem_append, and_assoc]
  exact Iff.rfl

@[simp] theorem wp_ite {c : Prop} [Decidable c] (m m' : Traced ε σ α) :
    wp E (if c then m else m') Q s ↔ if c then wp E m Q s else wp E m' Q s := by
  split <;> exact Iff.rfl

/-- Consequence. -/
theorem wp_mono {m : Traced ε σ α} {R : α → σ → Prop} (h : wp E m Q s)
    (hQ : ∀ a t, Q a t → R a t) : wp E m R s :=
  ⟨h.1, hQ _ _ h.2⟩

/-- One computation after another, by what is known of the first. -/
theorem wp_seq {m : Traced ε σ α} {f : α → Traced ε σ β} {R : β → σ → Prop} (h : wp E m Q s)
    (hf : ∀ a t, Q a t → wp E (f a) R t) : wp E (m >>= f) R s :=
  (wp_bind m f).mpr (wp_mono h hf)

end Cdroid.Lib.Trace
