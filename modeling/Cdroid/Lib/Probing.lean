import Mathlib.Data.Nat.Prime.Basic
import Mathlib.Data.Nat.Sqrt
import Mathlib.Algebra.Ring.Parity
import Mathlib.Data.Nat.ModEq
import Mathlib.Data.Fintype.EquivFin

/-! Open addressing: the positions of a ring that are probed one after the other, by a step that
stays the same. -/

namespace Cdroid.Lib.Probing

/-- The position that is probed after `k` steps. -/
def probe (count start inc k : Nat) : Nat := (start + k * inc) % count

variable {count start inc : Nat}

theorem probe_lt (hpos : 0 < count) (k : Nat) : probe count start inc k < count :=
  Nat.mod_lt _ hpos

theorem probe_zero (hstart : start < count) : probe count start inc 0 = start := by
  simp [probe, Nat.mod_eq_of_lt hstart]

theorem probe_succ (k : Nat) :
    probe count start inc (k + 1) = (probe count start inc k + inc) % count := by
  simp [probe, Nat.add_mul, Nat.add_assoc]

theorem probe_eq (hcoprime : Nat.Coprime count inc) {k l : Nat} (hk : k < count) (hl : l < count)
    (h : probe count start inc k = probe count start inc l) : k = l := by
  have hsteps : k * inc ≡ l * inc [MOD count] := Nat.ModEq.add_left_cancel' start h
  have hmod : k ≡ l [MOD count] := Nat.ModEq.cancel_right_of_coprime hcoprime hsteps
  exact hmod.eq_of_lt_of_lt hk hl

/-- Every position is probed. -/
theorem exists_probe (start : Nat) (hcoprime : Nat.Coprime count inc) {i : Nat} (hi : i < count) :
    ∃ k < count, probe count start inc k = i := by
  have hpos : 0 < count := Nat.zero_lt_of_lt hi
  let f : Fin count → Fin count := fun k => ⟨probe count start inc k, probe_lt hpos k⟩
  have hinj : Function.Injective f := fun k l h =>
    Fin.ext (probe_eq hcoprime k.isLt l.isLt (congrArg Fin.val h))
  obtain ⟨k, hk⟩ := (Finite.injective_iff_surjective.mp hinj) ⟨i, hi⟩
  exact ⟨k, k.isLt, congrArg Fin.val hk⟩

/-- The first probe that finds what it looks for, where something is to be found. -/
theorem first_probe (start : Nat) (hcoprime : Nat.Coprime count inc) (good : Nat → Bool)
    {i : Nat} (hi : i < count) (hgood : good i = true) :
    ∃ k < count, good (probe count start inc k) = true ∧
      ∀ j < k, good (probe count start inc j) = false := by
  obtain ⟨l, hl, rfl⟩ := exists_probe start hcoprime hi
  have hex : ∃ k, good (probe count start inc k) = true := ⟨l, hgood⟩
  refine ⟨Nat.find hex, (Nat.find_min' hex hgood).trans_lt hl, Nat.find_spec hex, fun j hj => ?_⟩
  exact Bool.eq_false_iff.mpr (Nat.find_min hex hj)

/-! ## Prime numbers of positions -/

/-- None of the odd numbers from 3 to `2 * k + 1` divides `n`. -/
def undivided (n : Nat) : Nat → Bool
  | 0 => true
  | k + 1 =>
    match n % (2 * k + 3) with
    | 0 => false
    | _ + 1 => undivided n k

theorem undivided_spec {n k : Nat} (h : undivided n k = true) : ∀ j < k, ¬ 2 * j + 3 ∣ n := by
  induction k with
  | zero => exact fun j hj => absurd hj (Nat.not_lt_zero j)
  | succ k ih =>
    rw [undivided] at h
    split at h
    case h_1 => cases h
    case h_2 r hr =>
      intro j hj hdvd
      rcases Nat.lt_succ_iff_lt_or_eq.mp hj with hj | rfl
      · exact ih h j hj hdvd
      · rw [Nat.mod_eq_zero_of_dvd hdvd] at hr
        cases hr

/-- The odd numbers below `2 ^ (log2 n / 2 + 1)`, whose square is more than `n`, are tried. -/
def tried (n : Nat) : Bool := n % 2 == 1 && 2 ≤ n && undivided n (2 ^ (n.log2 / 2) - 1)

theorem prime_of_tried {n : Nat} (h : tried n = true) : n.Prime := by
  simp only [tried, Bool.and_eq_true, beq_iff_eq, decide_eq_true_eq] at h
  obtain ⟨⟨hodd, htwo⟩, hundivided⟩ := h
  have hsquare : n < (2 * 2 ^ (n.log2 / 2)) * (2 * 2 ^ (n.log2 / 2)) := by
    calc n < 2 ^ (n.log2 + 1) := Nat.lt_log2_self
      _ ≤ 2 ^ ((n.log2 / 2 + 1) + (n.log2 / 2 + 1)) := Nat.pow_le_pow_right (by omega) (by omega)
      _ = (2 * 2 ^ (n.log2 / 2)) * (2 * 2 ^ (n.log2 / 2)) := by
        rw [Nat.pow_add, Nat.pow_succ, Nat.mul_comm _ 2]
  refine Nat.prime_def_le_sqrt.mpr ⟨htwo, fun m hm hsqrt hdvd => ?_⟩
  have hlt : m < 2 * 2 ^ (n.log2 / 2) := by
    by_contra hge
    have hmul := Nat.mul_le_mul (not_lt.mp hge) (not_lt.mp hge)
    have hle := Nat.le_sqrt.mp hsqrt
    omega
  rcases Nat.even_or_odd' m with ⟨c, rfl | rfl⟩
  · have htwo : 2 ∣ n := (Nat.dvd_mul_right 2 c).trans hdvd
    omega
  · have hc : 2 * (c - 1) + 3 = 2 * c + 1 := by omega
    exact undivided_spec hundivided (c - 1) (by omega) (hc ▸ hdvd)

end Cdroid.Lib.Probing
