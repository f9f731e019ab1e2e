import Cdroid.Lib.Comp
import Mathlib.Data.List.Forall2

/-! Memo tables: a question that has been answered gets the same answer again, and another
one an answer of its own. `look` is what a state answers. -/

namespace Cdroid.Lib.Memo
open Cdroid.Lib.Comp

variable {ε σ γ κ α : Type}

/-- `t` answers whatever `s` does, and in the same way. -/
def Extends (look : σ → κ → Option α) (s t : σ) : Prop :=
  ∀ k a, look s k = some a → look t k = some a

/-- Different questions have different answers. -/
def Distinct (look : σ → κ → Option α) (s : σ) : Prop :=
  ∀ k k' a, look s k = some a → look s k' = some a → k = k'

/-- The answers to questions that are asked one after another. -/
def asks (ask : γ → EStateM ε σ α) : List γ → EStateM ε σ (List α)
  | [] => pure []
  | c :: cs => do
    let a ← ask c
    let as ← asks ask cs
    pure (a :: as)

variable {look : σ → κ → Option α} {s t u : σ}

theorem Extends.refl (s : σ) : Extends look s s := fun _ _ h => h

theorem Extends.trans (h : Extends look s t) (h' : Extends look t u) : Extends look s u :=
  fun k a hk => h' k a (h k a hk)

/-- Answers are the same just if the questions are. -/
theorem Distinct.answer_eq_iff (h : Distinct look s) {k k' : κ} {a a' : α}
    (ha : look s k = some a) (ha' : look s k' = some a') : a = a' ↔ k = k' := by
  constructor
  · rintro rfl
    exact h k k' a ha ha'
  · rintro rfl
    rw [ha] at ha'
    exact Option.some.inj ha'

section Asks
variable {ask : γ → EStateM ε σ α} {key : γ → κ} {Clash : κ → κ → Prop} {I : List κ → σ → Prop}

variable (look key) in
/-- **Memo rule.** Where a question is answered exactly if it clashes with none of those asked
before, and no answer is lost, questions are all answered exactly if no two of them clash, and
the last state gives the answers. -/
theorem asks_spec (h : ∀ ks s c, I ks s → wp (ask c)
      (fun a t => (∀ k ∈ ks, ¬ Clash k (key c)) ∧ look t (key c) = some a ∧ Extends look s t ∧
        I (ks ++ [key c]) t)
      (fun _ _ => ∃ k ∈ ks, Clash k (key c)) s)
    (cs : List γ) {ks : List κ} (hs : I ks s) :
    wp (asks ask cs)
      (fun as t => ((∀ k ∈ ks, ∀ c ∈ cs, ¬ Clash k (key c)) ∧
          cs.Pairwise fun c d => ¬ Clash (key c) (key d)) ∧
        List.Forall₂ (fun c a => look t (key c) = some a) cs as ∧ Extends look s t ∧
        I (ks ++ cs.map key) t)
      (fun _ _ => (∃ k ∈ ks, ∃ c ∈ cs, Clash k (key c)) ∨
        ¬ cs.Pairwise fun c d => ¬ Clash (key c) (key d)) s := by
  induction cs generalizing ks s with
  | nil =>
    rw [asks, wp_pure, List.map_nil, List.append_nil]
    exact ⟨⟨fun _ _ _ => nofun, .nil⟩, .nil, .refl s, hs⟩
  | cons c cs ih =>
    rw [asks, wp_bind]
    refine wp_mono (h ks s c hs) ?_ ?_
    · rintro a t ⟨hfree, hanswer, hext, ht⟩
      simp only [wp_bind, wp_pure]
      refine wp_mono (ih ht) ?_ ?_
      · rintro as u ⟨⟨hclash, hpairs⟩, hanswers, hext', hu⟩
        have hrest : ∀ d ∈ cs, ¬ Clash (key c) (key d) := fun d hd =>
          hclash (key c) (List.mem_append_right _ List.mem_cons_self) d hd
        refine ⟨⟨fun k hk d hd => ?_, .cons hrest hpairs⟩, .cons (hext' _ _ hanswer) hanswers,
          hext.trans hext', ?_⟩
        · rcases List.mem_cons.mp hd with rfl | hd
          · exact hfree k hk
          · exact hclash k (List.mem_append_left _ hk) d hd
        · rw [List.map_cons, List.append_cons]
          exact hu
      · rintro _ _ (⟨k, hk, d, hd, hclash⟩ | hpairs)
        · rcases List.mem_append.mp hk with hk | hk
          · exact .inl ⟨k, hk, d, List.mem_cons_of_mem _ hd, hclash⟩
          · rw [List.mem_singleton.mp hk] at hclash
            exact .inr fun hall => List.rel_of_pairwise_cons hall hd hclash
        · exact .inr fun hall => hpairs hall.of_cons
    · rintro _ _ ⟨k, hk, hclash⟩
      exact .inl ⟨k, hk, c, List.mem_cons_self, hclash⟩

end Asks

end Cdroid.Lib.Memo
