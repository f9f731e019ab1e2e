import Mathlib.Algebra.Order.Ring.Nat
import Mathlib.Tactic.Linarith
import Mathlib.Tactic.Ring

/-! Rounding of a quotient to so many binary digits, and then up to an integer: what `ceil` makes of
a floating-point division. -/

namespace Cdroid.Lib.Rounding

/-- `a / b` to the nearest integer, and to the even one of two. -/
def nearest (a b : Nat) : Nat :=
  if 2 * (a % b) < b ∨ 2 * (a % b) = b ∧ a / b % 2 = 0 then a / b else a / b + 1

/-- `a / b`, rounded to `digits` binary digits and then up. Below 1 the digits do not matter. -/
def ceil (digits a b : Nat) : Nat :=
  if a < b then min a 1
  else
    let bits := Nat.log2 (a / b) + 1
    if bits ≤ digits then
      let unit := 2 ^ (digits - bits)
      (nearest (a * unit) b + (unit - 1)) / unit
    else nearest a (b * 2 ^ (bits - digits)) * 2 ^ (bits - digits)

variable {a b n digits : Nat}

/-! ## The nearest integer -/

/-- It is at most one half away. -/
theorem nearest_spec (hb : 0 < b) :
    2 * (nearest a b * b) ≤ 2 * a + b ∧ 2 * a ≤ 2 * (nearest a b * b) + b := by
  have hdiv := Nat.div_add_mod a b
  have hmod := Nat.mod_lt a hb
  have hnext : (a / b + 1) * b = b * (a / b) + b := by ring
  unfold nearest
  split
  · rw [Nat.mul_comm (a / b)]
    omega
  · rw [hnext]
    omega

theorem nearest_le (hb : 0 < b) (h : a ≤ n * b) : nearest a b ≤ n := by
  have hnear := (nearest_spec (a := a) hb).1
  by_contra hlt
  have hmore : (n + 1) * b ≤ nearest a b * b := Nat.mul_le_mul_right b (Nat.not_le.mp hlt)
  rw [Nat.add_mul] at hmore
  omega

theorem le_nearest (hb : 0 < b) (h : n * b ≤ a) : n ≤ nearest a b := by
  have hnear := (nearest_spec (a := a) hb).2
  by_contra hlt
  have hless : (nearest a b + 1) * b ≤ n * b := Nat.mul_le_mul_right b (Nat.not_le.mp hlt)
  rw [Nat.add_mul] at hless
  omega

/-! ## The ceiling -/

/-- The quotient has as many bits as its logarithm says. -/
theorem two_pow_log2_mul_le (hb : 0 < b) (hab : b ≤ a) : 2 ^ Nat.log2 (a / b) * b ≤ a := by
  have hne : a / b ≠ 0 := (Nat.div_pos hab hb).ne'
  exact (Nat.mul_le_mul_right b (Nat.log2_self_le hne)).trans (Nat.div_mul_le_self a b)

/-- How the ceiling comes about, above 1: the quotient is rounded to a multiple of a fraction of 1,
or of a power of 2 that is greater than 1. -/
theorem ceil_cases (digits : Nat) (hb : 0 < b) (hab : b ≤ a) :
    (∃ unit, 0 < unit ∧ 2 ^ digits * b ≤ 2 * (a * unit) ∧
      ceil digits a b = (nearest (a * unit) b + (unit - 1)) / unit) ∨
    ∃ unit, 2 ≤ unit ∧ 2 ^ digits * b ≤ a ∧ 2 ^ digits * (b * unit) ≤ 2 * a ∧
      ceil digits a b = nearest a (b * unit) * unit := by
  have hlow := two_pow_log2_mul_le hb hab
  unfold ceil
  rw [if_neg (Nat.not_lt.mpr hab)]
  generalize Nat.log2 (a / b) = k at hlow
  dsimp only
  split
  case isTrue hbits =>
    obtain ⟨m, rfl⟩ := Nat.exists_eq_add_of_le hbits
    rw [Nat.add_sub_cancel_left]
    refine Or.inl ⟨2 ^ m, Nat.two_pow_pos m, ?_, rfl⟩
    calc
      2 ^ (k + 1 + m) * b = 2 * (2 ^ k * b * 2 ^ m) := by ring
      _ ≤ 2 * (a * 2 ^ m) := Nat.mul_le_mul_left 2 (Nat.mul_le_mul_right _ hlow)
  case isFalse hbits =>
    obtain ⟨m, hm⟩ := Nat.exists_eq_add_of_lt (Nat.not_le.mp hbits)
    obtain rfl : k = digits + m := by omega
    have hunit : digits + m + 1 - digits = m + 1 := by omega
    rw [hunit]
    have hpow : 2 ^ digits ≤ 2 ^ (digits + m) := Nat.pow_le_pow_right (by decide) (by omega)
    refine Or.inr ⟨2 ^ (m + 1), ?_, ?_, ?_, rfl⟩
    · rw [Nat.pow_succ]
      have hpos := Nat.two_pow_pos m
      omega
    · exact (Nat.mul_le_mul_right b hpow).trans hlow
    · calc
        2 ^ digits * (b * 2 ^ (m + 1)) = 2 * (2 ^ (digits + m) * b) := by ring
        _ ≤ 2 * a := Nat.mul_le_mul_left 2 hlow

theorem ceil_below (hab : a < b) : ceil digits a b = min a 1 := if_pos hab

theorem ceil_le (hb : 0 < b) (hn : n < 2 ^ digits) (h : a ≤ n * b) : ceil digits a b ≤ n := by
  rcases Nat.lt_or_ge a b with hab | hab
  · rw [ceil_below hab]
    rcases Nat.eq_zero_or_pos n with rfl | hpos
    · omega
    · exact (min_le_right a 1).trans hpos
  · rcases ceil_cases digits hb hab with ⟨unit, hpos, -, hceil⟩ | ⟨-, -, hlarge, -, -⟩
    · have hnear : nearest (a * unit) b ≤ n * unit :=
        nearest_le hb ((Nat.mul_le_mul_right unit h).trans_eq (Nat.mul_right_comm n b unit))
      rw [hceil]
      refine Nat.lt_succ_iff.mp ((Nat.div_lt_iff_lt_mul hpos).mpr ?_)
      rw [Nat.succ_mul]
      omega
    · have hle : 2 ^ digits ≤ n := Nat.le_of_mul_le_mul_right (hlarge.trans h) hb
      omega

theorem le_ceil (hb : 0 < b) (hn : n < 2 ^ digits) (h : n * b ≤ a) : n ≤ ceil digits a b := by
  rcases Nat.lt_or_ge a b with hab | hab
  · have hzero : n = 0 := by
      by_contra hne
      have hone : b ≤ n * b := Nat.le_mul_of_pos_left b (Nat.pos_of_ne_zero hne)
      omega
    exact hzero ▸ Nat.zero_le _
  · rcases ceil_cases digits hb hab with ⟨unit, hpos, -, hceil⟩ | ⟨unit, htwo, -, hlarge, hceil⟩
    · have hnear : n * unit ≤ nearest (a * unit) b :=
        le_nearest hb ((Nat.mul_right_comm n unit b).trans_le (Nat.mul_le_mul_right unit h))
      rw [hceil]
      exact (Nat.le_div_iff_mul_le hpos).mpr (by omega)
    · have hunit : 0 < b * unit := Nat.mul_pos hb (by omega)
      have hnear := (nearest_spec (a := a) hunit).2
      rw [hceil]
      generalize nearest a (b * unit) = m at hnear
      have hmany : 2 ^ digits ≤ 2 * m + 1 := by
        refine Nat.le_of_mul_le_mul_right (hlarge.trans (hnear.trans_eq ?_)) hunit
        ring
      have htwice : m * 2 ≤ m * unit := Nat.mul_le_mul_left m htwo
      omega

/-- An integer of so many digits stays what it is. -/
theorem ceil_eq (hb : 0 < b) (hn : n < 2 ^ digits) : ceil digits (n * b) b = n :=
  Nat.le_antisymm (ceil_le hb hn le_rfl) (le_ceil hb hn le_rfl)

/-- With a digit to spare, the ceiling is no more than a quarter below the quotient. -/
theorem of_ceil_le (hb : 0 < b) (hn : n < 2 ^ digits) (h : ceil (digits + 1) a b ≤ n) :
    4 * a ≤ (4 * n + 1) * b := by
  rcases Nat.lt_or_ge a b with hab | hab
  · rw [ceil_below hab] at h
    rcases Nat.eq_zero_or_pos n with rfl | hpos
    · omega
    · have hone : 4 * b ≤ 4 * n * b := Nat.mul_le_mul_right b (by omega)
      rw [Nat.add_mul]
      omega
  · have hpow : 2 ^ (digits + 1) = 2 * 2 ^ digits := by ring
    rcases ceil_cases (digits + 1) hb hab with
      ⟨unit, hpos, hmany, hceil⟩ | ⟨unit, htwo, -, hlarge, hceil⟩
    · have hnear := (nearest_spec (a := a * unit) hb).2
      have hdigits : 2 ^ digits ≤ nearest (a * unit) b := le_nearest hb (by
        rw [hpow, Nat.mul_assoc] at hmany
        omega)
      have hround : nearest (a * unit) b ≤ n * unit := by
        rw [hceil] at h
        have hlt := (Nat.div_lt_iff_lt_mul hpos).mp (Nat.lt_succ_of_le h)
        rw [Nat.succ_mul] at hlt
        omega
      have htwo : 2 ≤ unit := by
        by_contra hone
        obtain rfl : unit = 1 := by omega
        omega
      refine Nat.le_of_mul_le_mul_right (c := unit) ?_ hpos
      calc
        4 * a * unit = 2 * (2 * (a * unit)) := by ring
        _ ≤ 2 * (2 * (nearest (a * unit) b * b) + b) := Nat.mul_le_mul_left 2 hnear
        _ ≤ 4 * (n * unit * b) + unit * b := by
          have hmul := Nat.mul_le_mul_right b hround
          have hunit := Nat.mul_le_mul_right b htwo
          omega
        _ = (4 * n + 1) * b * unit := by ring
    · have hdigits : 2 ^ digits ≤ nearest a (b * unit) :=
        le_nearest (Nat.mul_pos hb (by omega)) (by
          rw [hpow, Nat.mul_assoc] at hlarge
          omega)
      have htwice := Nat.mul_le_mul_left (nearest a (b * unit)) htwo
      rw [hceil] at h
      omega

/-- The ceiling is never much less than the quotient. -/
theorem le_ceil_mul (hb : 0 < b) (hdigits : 4 ≤ digits) : 15 * a ≤ 16 * (ceil digits a b * b) := by
  rcases Nat.lt_or_ge a b with hab | hab
  · rw [ceil_below hab]
    rcases Nat.eq_zero_or_pos a with rfl | hpos
    · simp
    · rw [min_eq_right hpos]
      omega
  · have hpow : 2 ^ 4 ≤ 2 ^ digits := Nat.pow_le_pow_right (by decide) hdigits
    rcases ceil_cases digits hb hab with
      ⟨unit, hpos, hmany, hceil⟩ | ⟨unit, htwo, -, hlarge, hceil⟩
    · have hnear := (nearest_spec (a := a * unit) hb).2
      have hround : nearest (a * unit) b ≤ ceil digits a b * unit := by
        have hlt := (Nat.div_lt_iff_lt_mul hpos).mp (Nat.lt_succ_of_le hceil.ge)
        rw [Nat.succ_mul] at hlt
        omega
      have hsmall : 2 ^ 4 * b ≤ 2 * (a * unit) := (Nat.mul_le_mul_right b hpow).trans hmany
      refine Nat.le_of_mul_le_mul_right (c := unit) ?_ hpos
      calc
        15 * a * unit = 15 * (a * unit) := by ring
        _ ≤ 16 * (nearest (a * unit) b * b) := by omega
        _ ≤ 16 * (ceil digits a b * unit * b) :=
          Nat.mul_le_mul_left 16 (Nat.mul_le_mul_right b hround)
        _ = 16 * (ceil digits a b * b) * unit := by ring
    · have hnear := (nearest_spec (a := a) (Nat.mul_pos hb (Nat.lt_of_lt_of_le Nat.two_pos htwo))).2
      have hsmall : 2 ^ 4 * (b * unit) ≤ 2 * a := (Nat.mul_le_mul_right _ hpow).trans hlarge
      calc
        15 * a ≤ 16 * (nearest a (b * unit) * (b * unit)) := by omega
        _ = 16 * (ceil digits a b * b) := by rw [hceil]; ring

end Cdroid.Lib.Rounding
