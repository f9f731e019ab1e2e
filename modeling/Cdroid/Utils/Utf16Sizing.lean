import Cdroid.Utils.Unicode
import Mathlib.Tactic.IntervalCases

/-! What `utf16_to_utf8` writes against what `utf16_to_utf8_length` measures. Both take a high
surrogate and the unit behind it together, but measure and write something else where that unit
is no low surrogate. -/

namespace Cdroid.Utils.Unicode

/-! ## Surrogates -/

theorem high_bits (unit : char16_t) : unit &&& (0xFC00 : char16_t) = (unit >>> 10) <<< 10 := by
  ext i hi
  rw [BitVec.getElem_and, BitVec.getElem_shiftLeft]
  interval_cases i <;> simp

theorem toNat_high_bits (unit : char16_t) :
    (unit &&& 0xFC00).toNat = unit.toNat / 1024 * 1024 := by
  have hunit := unit.isLt
  rw [high_bits, BitVec.toNat_shiftLeft, BitVec.toNat_ushiftRight, Nat.shiftRight_eq_div_pow,
    Nat.shiftLeft_eq, Nat.mod_eq_of_lt (by omega)]

theorem isHigh_iff (unit : char16_t) :
    isHigh unit = true ↔ 0xD800 ≤ unit.toNat ∧ unit.toNat < 0xDC00 := by
  unfold isHigh
  rw [beq_iff_eq, ← BitVec.toNat_inj, toNat_high_bits]
  change unit.toNat / 1024 * 1024 = 0xD800 ↔ _
  omega

theorem isLow_iff (unit : char16_t) :
    isLow unit = true ↔ 0xDC00 ≤ unit.toNat ∧ unit.toNat < 0xE000 := by
  unfold isLow
  rw [beq_iff_eq, ← BitVec.toNat_inj, toNat_high_bits]
  change unit.toNat / 1024 * 1024 = 0xDC00 ↔ _
  omega

/-- A pair of surrogates stands for a code point from 0x10000 on. -/
theorem fromPair_toNat {high low : char16_t} (hhigh : isHigh high = true)
    (hlow : isLow low = true) : (fromPair high low).toNat =
      (high.toNat - 0xD800) * 1024 + (low.toNat - 0xDC00) + 0x10000 := by
  obtain ⟨hhigh, hhigh'⟩ := (isHigh_iff high).mp hhigh
  obtain ⟨hlow, hlow'⟩ := (isLow_iff low).mp hlow
  have hh : (high.setWidth 32 - 0xD800 : char32_t).toNat = high.toNat - 0xD800 := by bv_omega
  have hl : (low.setWidth 32 - 0xDC00 : char32_t).toNat = low.toNat - 0xDC00 := by bv_omega
  have hshift : ((high.setWidth 32 - 0xD800 : char32_t) <<< 10).toNat =
      (high.toNat - 0xD800) <<< 10 := by
    rw [BitVec.toNat_shiftLeft, hh, Nat.shiftLeft_eq]
    exact Nat.mod_eq_of_lt (by omega)
  have hor : ((high.setWidth 32 - 0xD800 : char32_t) <<< 10 |||
      (low.setWidth 32 - 0xDC00)).toNat = (high.toNat - 0xD800) * 1024 + (low.toNat - 0xDC00) := by
    rw [BitVec.toNat_or, hshift, hl, ← Nat.shiftLeft_add_eq_or_of_lt (by omega), Nat.shiftLeft_eq]
  unfold fromPair
  rw [BitVec.toNat_add, hor]
  exact Nat.mod_eq_of_lt (by change _ + 0x10000 < 2 ^ 32; omega)

/-! ## Lengths -/

theorem length_trailBytes (k : Nat) (srcChar : char32_t) (out : List uint8_t) :
    (trailBytes k srcChar out).2.length = k + out.length := by
  induction k generalizing srcChar out with
  | zero => exact (Nat.zero_add _).symm
  | succ k ih =>
    unfold trailBytes
    rw [ih, List.length_cons]
    omega

theorem utf32_codepoint_utf8_length_le (srcChar : char32_t) :
    utf32_codepoint_utf8_length srcChar ≤ 4 := by
  unfold utf32_codepoint_utf8_length
  split_ifs <;> decide

/-- As many bytes are written as are measured. -/
theorem length_bytesOf (utf32 : char32_t) :
    (bytesOf utf32).length = utf32_codepoint_utf8_length utf32 := by
  have hle := utf32_codepoint_utf8_length_le utf32
  unfold bytesOf
  cases hk : utf32_codepoint_utf8_length utf32 with
  | zero => rfl
  | succ k =>
    unfold utf32_codepoint_to_utf8
    dsimp only
    rw [if_pos (hk ▸ hle), List.length_cons, length_trailBytes, List.length_nil, Nat.add_zero]

theorem pair_length {high low : char16_t} (hhigh : isHigh high = true)
    (hlow : isLow low = true) : utf32_codepoint_utf8_length (fromPair high low) = 4 := by
  have hpair := fromPair_toNat hhigh hlow
  obtain ⟨hhigh, hhigh'⟩ := (isHigh_iff high).mp hhigh
  obtain ⟨hlow, hlow'⟩ := (isLow_iff low).mp hlow
  unfold utf32_codepoint_utf8_length kUnicodeMaxCodepoint
  rw [if_neg (by bv_omega), if_neg (by bv_omega), if_neg (by bv_omega), if_pos (by bv_omega)]

/-! ## What is measured and what is written -/

/-- Behind the last pair there is a high surrogate left. -/
def loneHigh : List char16_t → Bool
  | [] => false
  | [unit] => isHigh unit
  | unit :: next :: src => if isHigh unit then loneHigh src else loneHigh (next :: src)

/-- How many bytes the units take, each unit behind a high surrogate as part of a pair. -/
def encodedSize : List char16_t → Nat
  | [] => 0
  | [unit] => utf32_codepoint_utf8_length (unit.setWidth 32)
  | unit :: next :: src =>
    if isHigh unit then utf32_codepoint_utf8_length (fromPair unit next) + encodedSize src
    else utf32_codepoint_utf8_length (unit.setWidth 32) + encodedSize (next :: src)

/-- How much longer the pair is than the second unit by itself, where that is no low
surrogate. -/
def pairExcess (unit next : char16_t) : Int :=
  if isLow next then 0
  else utf32_codepoint_utf8_length (fromPair unit next) -
    utf32_codepoint_utf8_length (next.setWidth 32)

def excess : List char16_t → Int
  | [] => 0
  | [_] => 0
  | unit :: next :: src =>
    if isHigh unit then pairExcess unit next + excess src else excess (next :: src)

theorem map_length_append (bytes : List uint8_t) (written : Option (List uint8_t)) :
    (written.map (bytes ++ ·)).map List.length =
      (written.map List.length).map (bytes.length + ·) := by
  cases written with
  | none => rfl
  | some out => exact congrArg some List.length_append

/-- The source is left exactly behind a lone high surrogate. -/
theorem writeUnits_length (src : List char16_t) :
    (writeUnits src).map List.length = if loneHigh src then none else some (encodedSize src) := by
  fun_induction writeUnits src with
  | case1 => rfl
  | case2 unit hhigh => simp [loneHigh, hhigh]
  | case3 unit hhigh => simp [loneHigh, hhigh, encodedSize, length_bytesOf]
  | case4 unit next src hhigh ih =>
    unfold loneHigh encodedSize
    rw [if_pos hhigh, if_pos hhigh, map_length_append, ih, length_bytesOf]
    split <;> rfl
  | case5 unit next src hhigh ih =>
    unfold loneHigh encodedSize
    rw [if_neg hhigh, if_neg hhigh, map_length_append, ih, length_bytesOf]
    split <;> rfl

/-- What is measured, but for the excess, is what the units take. -/
theorem measureUnits_eq (ret : size_t) (src : List char16_t) :
    ∃ measured : Nat, measureUnits ret src = ret + .ofNat 32 measured ∧
      (encodedSize src : Int) = measured + excess src := by
  fun_induction measureUnits ret src with
  | case1 ret => exact ⟨0, (BitVec.add_zero ret).symm, rfl⟩
  | case2 ret unit => exact ⟨_, rfl, (Int.add_zero _).symm⟩
  | case3 ret unit next src hhigh hlow ih =>
    obtain ⟨measured, hmeasured, hsize⟩ := ih
    refine ⟨4 + measured, ?_, ?_⟩
    · rw [hmeasured, BitVec.ofNat_add, BitVec.add_assoc]
      rfl
    · unfold encodedSize excess pairExcess
      rw [if_pos hhigh, if_pos hhigh, if_pos hlow, pair_length hhigh hlow]
      omega
  | case4 ret unit next src hhigh hlow ih =>
    obtain ⟨measured, hmeasured, hsize⟩ := ih
    refine ⟨utf32_codepoint_utf8_length (next.setWidth 32) + measured, ?_, ?_⟩
    · rw [hmeasured, BitVec.ofNat_add, BitVec.add_assoc]
      rfl
    · unfold encodedSize excess pairExcess
      rw [if_pos hhigh, if_pos hhigh, if_neg hlow]
      omega
  | case5 ret unit next src hhigh ih =>
    obtain ⟨measured, hmeasured, hsize⟩ := ih
    refine ⟨utf32_codepoint_utf8_length (unit.setWidth 32) + measured, ?_, ?_⟩
    · rw [hmeasured, BitVec.ofNat_add, BitVec.add_assoc]
      rfl
    · unfold encodedSize excess
      rw [if_neg hhigh, if_neg hhigh]
      omega

/-! ## The property -/

/-- The source is not left, and as many bytes are written as `utf16_to_utf8_length` says, and the
terminator; with a length of -1 there is nothing to write. -/
def WritesMeasured (src : List char16_t) : Prop :=
  ∃ out, utf16_to_utf8 src = some out ∧ (out.length : Int) = (utf16_to_utf8_length src).toInt + 1 ∧
    (src ≠ [] → out.getLast? = some 0)

/-- And a `String8` has room for what is written. -/
structure Sized (src : List char16_t) : Prop where
  written : WritesMeasured src
  fits : ∀ room out, allocFromUTF16 src = some (room, out) →
    ∃ bytes, out = some bytes ∧ bytes.length ≤ room.toNat

theorem WritesMeasured.sized {src : List char16_t} (h : WritesMeasured src) : Sized src := by
  refine ⟨h, fun room out halloc => ?_⟩
  obtain ⟨bytes, hbytes, hlength, -⟩ := h
  unfold allocFromUTF16 at halloc
  split at halloc
  · cases halloc
  · dsimp only at halloc
    split at halloc
    · cases halloc
    · next hpos =>
      cases halloc
      refine ⟨bytes, hbytes, ?_⟩
      generalize utf16_to_utf8_length src = size at hpos hlength
      have hroom : (size + 1).toNat = (size.toNat + 1) % 2 ^ 32 := BitVec.toNat_add size 1
      rw [BitVec.toInt_eq_toNat_cond] at hpos hlength
      split at hlength <;> omega

theorem toInt_ofNat_eq {measured size : Nat} {e : Int} (h : (size : Int) = measured + e) :
    (size : Int) = (BitVec.ofNat 32 measured).toInt ↔ size < 2 ^ 31 ∧ e % 2 ^ 32 = 0 := by
  rw [BitVec.toInt_eq_toNat_cond, BitVec.toNat_ofNat]
  split <;> omega

theorem writesMeasured_iff (src : List char16_t) : WritesMeasured src ↔
    loneHigh src = false ∧ encodedSize src < 2 ^ 31 ∧ excess src % 2 ^ 32 = 0 := by
  by_cases hempty : src = []
  · subst hempty
    exact ⟨fun _ => ⟨rfl, by decide, rfl⟩, fun _ => ⟨[], rfl, rfl, fun h => absurd rfl h⟩⟩
  obtain ⟨measured, hmeasured, hsize⟩ := measureUnits_eq 0 src
  have hzero : measureUnits 0 src = .ofNat 32 measured := hmeasured.trans (BitVec.zero_add _)
  have hlength := writeUnits_length src
  have hinted := toInt_ofNat_eq hsize
  unfold WritesMeasured utf16_to_utf8 utf16_to_utf8_length
  rw [if_neg hempty, if_neg hempty, hzero]
  cases hlone : loneHigh src with
  | true =>
    rw [hlone, if_pos rfl, Option.map_eq_none_iff] at hlength
    rw [hlength]
    constructor
    · rintro ⟨out, hout, -⟩
      cases hout
    · rintro ⟨hfalse, -⟩
      cases hfalse
  | false =>
    rw [hlone, if_neg Bool.false_ne_true, Option.map_eq_some_iff] at hlength
    obtain ⟨out, hwrite, hout⟩ := hlength
    have htotal : ((out ++ [0]).length : Int) = encodedSize src + 1 := by
      rw [List.length_append, hout]
      rfl
    rw [hwrite, Option.map_some, ← hinted]
    constructor
    · rintro ⟨_, ⟨⟩, hsame, -⟩
      exact ⟨rfl, by omega⟩
    · rintro ⟨-, hsame⟩
      exact ⟨_, rfl, by omega, fun _ => List.getLast?_concat⟩

/-- **Sizing.** The two functions agree exactly if no high surrogate is left at the end, and what
the pairs with no low surrogate take more than is measured adds up to nothing. -/
theorem sized_iff (src : List char16_t) :
    Sized src ↔ loneHigh src = false ∧ encodedSize src < 2 ^ 31 ∧ excess src % 2 ^ 32 = 0 := by
  rw [← writesMeasured_iff]
  exact ⟨Sized.written, WritesMeasured.sized⟩

/-- A high surrogate and a unit behind the low ones: five bytes are written where there is room
for four. -/
theorem unpaired_overruns :
    allocFromUTF16 [0xD800, 0xE000] = some (4, some [0xF0, 0x90, 0x90, 0x80, 0]) ∧
      ¬Sized [0xD800, 0xE000] := by
  refine ⟨by decide, fun h => ?_⟩
  exact absurd ((writesMeasured_iff _).mp h.written).2.2 (by decide)

end Cdroid.Utils.Unicode
