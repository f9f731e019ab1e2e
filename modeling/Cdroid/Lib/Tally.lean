import Mathlib.Algebra.BigOperators.Group.Finset.Basic
import Mathlib.Algebra.Order.BigOperators.Group.Finset
import Mathlib.Data.Fintype.BigOperators
import Mathlib.Tactic.Abel

/-! What the members of a finite group hold together, when one of them changes. -/

namespace Cdroid.Lib.Tally

variable {ι α : Type}

theorem sum_update [DecidableEq ι] {M : Type} [AddCommMonoid M] (f : α → M) (members : ι → α)
    {among : Finset ι} {i : ι} (hi : i ∈ among) (x : α) :
    ∑ j ∈ among, f (Function.update members i x j) + f (members i) =
      ∑ j ∈ among, f (members j) + f x := by
  have hrest : ∑ j ∈ among.erase i, f (Function.update members i x j) =
      ∑ j ∈ among.erase i, f (members j) :=
    Finset.sum_congr rfl fun j hj => by rw [Function.update_of_ne (Finset.ne_of_mem_erase hj)]
  rw [← Finset.add_sum_erase _ _ hi, ← Finset.add_sum_erase _ (fun j => f (members j)) hi, hrest,
    Function.update_self]
  abel

variable [Fintype ι]

def tally (f : α → Nat) (members : ι → α) : Nat := ∑ i, f (members i)

variable {f g : α → Nat} {members : ι → α}

theorem le_tally (i : ι) : f (members i) ≤ tally f members :=
  Finset.single_le_sum (f := fun j => f (members j)) (fun _ _ => Nat.zero_le _) (Finset.mem_univ i)

theorem tally_le (h : ∀ x, f x ≤ g x) : tally f members ≤ tally g members :=
  Finset.sum_le_sum fun i _ => h (members i)

theorem tally_add : tally (fun x => f x + g x) members = tally f members + tally g members :=
  Finset.sum_add_distrib

theorem tally_pos : 0 < tally f members ↔ ∃ i, 0 < f (members i) := by
  simp [tally, Finset.sum_pos_iff]

theorem tally_const_zero (h : ∀ i, f (members i) = 0) : tally f members = 0 := by
  simp [tally, h]

/-- What one member holds is exchanged for what it holds afterwards. -/
theorem tally_update [DecidableEq ι] (i : ι) (x : α) :
    tally f (Function.update members i x) + f (members i) = tally f members + f x :=
  sum_update f members (Finset.mem_univ i) x

end Cdroid.Lib.Tally
