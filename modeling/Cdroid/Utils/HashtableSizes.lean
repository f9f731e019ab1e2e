import Cdroid.Lib.Probing
import Cdroid.Utils.BasicHashtable

/-! The sizes of a `BasicHashtable`, which are computed with a `float`: what rounding leaves of
them. -/

namespace Cdroid.Utils.BasicHashtable
open Cdroid.Lib

/-! ## Rounding -/

theorem toFloat_eq {n : Nat} (hn : n < 2 ^ 24) : toFloat n = n := by
  have heq : Rounding.ceil 24 (n * 1) 1 = n := Rounding.ceil_eq Nat.one_pos hn
  rwa [Nat.mul_one] at heq

theorem le_of_toFloat_le {m n : Nat} (hn : n < 2 ^ 23) (h : toFloat m ≤ n) : m ≤ n := by
  have hquarter := Rounding.of_ceil_le Nat.one_pos hn h
  omega

theorem le_toFloat (n : Nat) : 15 * n ≤ 16 * toFloat n := by
  have hround := Rounding.le_ceil_mul (a := n) Nat.one_pos (show 4 ≤ FLT_MANT_DIG by decide)
  rwa [Nat.mul_one] at hround

namespace LoadFactor
variable (lf : LoadFactor) {m n : Nat}

theorem times_le (hn : n < 2 ^ 23) : lf.times n ≤ n := by
  unfold times
  rw [toFloat_eq (by omega)]
  exact Rounding.ceil_le (Nat.two_pow_pos _) (show n < 2 ^ 24 by omega)
    (Nat.mul_le_mul_left n lf.le_one)

/-- The capacity of so many buckets is what they were made for. -/
theorem le_times (hn : n < 2 ^ 23) (h : lf.divided m ≤ n) : m ≤ lf.times n := by
  have hone := lf.le_one
  have hpos := Nat.two_pow_pos lf.scale
  have hdivided := Rounding.of_ceil_le lf.pos hn h
  have hfloat : toFloat m ≤ n := by
    have hscaled : (4 * n + 1) * lf.significand ≤ (4 * n + 1) * 2 ^ lf.scale :=
      Nat.mul_le_mul_left _ hone
    by_contra hlt
    have hmore : (n + 1) * 2 ^ lf.scale ≤ toFloat m * 2 ^ lf.scale :=
      Nat.mul_le_mul_right _ (Nat.not_le.mp hlt)
    simp only [Nat.add_mul, Nat.mul_assoc, Nat.one_mul] at hdivided hscaled hmore
    omega
  have hm := le_of_toFloat_le hn hfloat
  by_contra hlt
  obtain ⟨k, rfl⟩ := Nat.exists_eq_add_of_le' (Nat.one_le_of_lt (Nat.not_le.mp hlt))
  have htimes := Rounding.of_ceil_le hpos (show k < 2 ^ 23 by omega)
    (Nat.lt_succ_iff.mp (Nat.not_le.mp hlt))
  rw [toFloat_eq (by omega)] at hdivided htimes
  simp only [Nat.add_mul, Nat.mul_assoc, Nat.one_mul] at hdivided htimes
  omega

theorem times_large (n : Nat) : 225 * (n * lf.significand) ≤ 256 * (lf.times n * 2 ^ lf.scale) := by
  have hround := Rounding.le_ceil_mul (a := toFloat n * lf.significand)
    (Nat.two_pow_pos lf.scale) (show 4 ≤ FLT_MANT_DIG by decide)
  have hfloat := Nat.mul_le_mul_right lf.significand (le_toFloat n)
  rw [Nat.mul_assoc, Nat.mul_assoc] at hfloat
  unfold times
  omega

theorem divided_large (n : Nat) :
    225 * (n * 2 ^ lf.scale) ≤ 256 * (lf.divided n * lf.significand) := by
  have hround := Rounding.le_ceil_mul (a := toFloat n * 2 ^ lf.scale) lf.pos
    (show 4 ≤ FLT_MANT_DIG by decide)
  have hfloat := Nat.mul_le_mul_right (2 ^ lf.scale) (le_toFloat n)
  rw [Nat.mul_assoc, Nat.mul_assoc] at hfloat
  unfold divided
  omega

theorem times_pos (hn : 0 < n) : 0 < lf.times n := by
  have hlarge := lf.times_large n
  have hpos := Nat.mul_pos hn lf.pos
  by_contra hzero
  rw [Nat.eq_zero_of_not_pos hzero] at hlarge
  omega

/-- Twice the capacity takes more buckets, whatever is lost by rounding. -/
theorem lt_doubled (hn : 0 < n) : n + 1 < toFloat (lf.divided (lf.times n * 2) + 1) := by
  have htimes := lf.times_large n
  have hdivided := lf.divided_large (lf.times n * 2)
  have hfloat := le_toFloat (lf.divided (lf.times n * 2) + 1)
  generalize lf.divided (lf.times n * 2) = d at hdivided hfloat
  have hmore : 101250 * n ≤ 65536 * d := by
    refine Nat.le_of_mul_le_mul_right (c := lf.significand) ?_ lf.pos
    rw [Nat.mul_assoc, Nat.mul_assoc]
    rw [Nat.mul_right_comm] at hdivided
    omega
  omega

end LoadFactor

/-! ## Numbers of buckets -/

theorem primes_tried : PRIMES.all Probing.tried = true := by decide +kernel

theorem primes_prime {p : Nat} (hp : p ∈ PRIMES) : p.Prime :=
  Probing.prime_of_tried (List.all_eq_true.mp primes_tried p hp)

theorem determineCapacity_spec {m count capacity : Nat} {lf : LoadFactor}
    (h : determineCapacity m lf = some (count, capacity)) :
    count ∈ PRIMES ∧ capacity = lf.times (count - 1) ∧ toFloat (lf.divided m + 1) ≤ count := by
  obtain ⟨p, hp, heq⟩ := Option.map_eq_some_iff.mp h
  obtain ⟨rfl, rfl⟩ := Prod.mk.inj heq
  exact ⟨List.mem_of_find?_eq_some hp, rfl, by simpa using List.find?_some hp⟩

/-- There is room for what was asked for, and a bucket more. -/
structure Fitting (minimumCapacity count capacity : Nat) : Prop where
  enough : minimumCapacity ≤ capacity
  below : capacity < count

/-- A table of fewer than `2 ^ 23` buckets, which a `float` can tell from one another with a digit
to spare, can be made for the capacity. -/
def InRange (minimumCapacity : Nat) (loadFactor : LoadFactor) : Prop :=
  (determineCapacity minimumCapacity loadFactor).any (·.1 < 2 ^ 23) = true

instance (m : Nat) (lf : LoadFactor) : Decidable (InRange m lf) :=
  inferInstanceAs (Decidable (_ = true))

theorem InRange.sizes {m : Nat} {lf : LoadFactor} (h : InRange m lf) :
    ∃ count capacity, determineCapacity m lf = some (count, capacity) ∧
      Fitting m count capacity := by
  obtain ⟨⟨count, capacity⟩, hsizes, hsmall⟩ := (Option.any_eq_true _ _).mp h
  have hfew : count < 2 ^ 23 := by simpa using hsmall
  obtain ⟨hp, rfl, hdivided⟩ := determineCapacity_spec hsizes
  have hroom := le_of_toFloat_le hfew hdivided
  have hpos := (primes_prime hp).pos
  have hle := lf.times_le (show count - 1 < 2 ^ 23 by omega)
  exact ⟨count, _, hsizes, lf.le_times (by omega) (by omega), by omega⟩

/-- With the load factor that a table has by default, no size is too large. -/
theorem default_below : ∀ p ∈ PRIMES, LoadFactor.default.times (p - 1) < p := by decide +kernel

theorem default_doubled : PRIMES.all fun p =>
    (determineCapacity (LoadFactor.default.times (p - 1) * 2) .default).all fun sizes =>
      LoadFactor.default.times (p - 1) * 2 ≤ sizes.2 := by decide +kernel

theorem Fitting.doubled {p count capacity : Nat} (hp : p ∈ PRIMES)
    (h : determineCapacity (LoadFactor.default.times (p - 1) * 2) .default =
      some (count, capacity)) :
    Fitting (LoadFactor.default.times (p - 1) * 2) count capacity := by
  have hall := List.all_eq_true.mp default_doubled p hp
  rw [h] at hall
  obtain ⟨hcount, rfl, -⟩ := determineCapacity_spec h
  exact ⟨by simpa using hall, default_below count hcount⟩

-- 1.0, and a table that has as many buckets as entries it was made for
example : determineCapacity 26339969 ⟨1, 0, by decide, by decide⟩ = some (26339969, 26339968) := by
  decide

end Cdroid.Utils.BasicHashtable
