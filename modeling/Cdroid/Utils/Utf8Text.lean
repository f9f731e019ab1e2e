import Cdroid.Utils.Utf16Sizing

/-! UTF-8 to UTF-16 and back: both functions take the characters of a text for what they are, so
that a text comes back as it was; and what is measured is what is written, of any bytes. -/

namespace Cdroid.Utils.Unicode
open Cdroid.Lib.Unicode

/-! ## Bytes of a character -/

theorem tail_mark : ∀ byte : uint8_t, (byte ||| 0x80) &&& 0xBF = tailByte byte.toNat := by
  decide +kernel

theorem first_mark : ∀ byte : uint8_t,
    (byte.toNat < 0x20 → byte ||| 0xC0 = .ofNat 8 (0xC0 + byte.toNat)) ∧
    (byte.toNat < 0x10 → byte ||| 0xE0 = .ofNat 8 (0xE0 + byte.toNat)) ∧
    (byte.toNat < 0x08 → byte ||| 0xF0 = .ofNat 8 (0xF0 + byte.toNat)) := by
  decide +kernel

theorem tailByte_mod (n : Nat) : tailByte (n % 256) = tailByte n := by
  have hmod : n % 256 % 64 = n % 64 := by omega
  unfold tailByte
  rw [hmod]

theorem trail_byte (srcChar : char32_t) :
    ((srcChar ||| kByteMark) &&& kByteMask).setWidth 8 = tailByte srcChar.toNat := by
  rw [BitVec.setWidth_and, BitVec.setWidth_or, ← tailByte_mod]
  exact (tail_mark (srcChar.setWidth 8)).trans (congrArg tailByte (BitVec.toNat_setWidth 8 srcChar))

theorem toNat_shiftRight6 (srcChar : char32_t) : (srcChar >>> 6).toNat = srcChar.toNat / 64 := by
  rw [BitVec.toNat_ushiftRight, Nat.shiftRight_eq_div_pow]

/-- The first byte has its mark, and what is left of the character. -/
theorem first_byte (srcChar : char32_t) :
    (srcChar.toNat < 0x20 → (srcChar ||| 0xC0).setWidth 8 = .ofNat 8 (0xC0 + srcChar.toNat)) ∧
    (srcChar.toNat < 0x10 → (srcChar ||| 0xE0).setWidth 8 = .ofNat 8 (0xE0 + srcChar.toNat)) ∧
    (srcChar.toNat < 0x08 → (srcChar ||| 0xF0).setWidth 8 = .ofNat 8 (0xF0 + srcChar.toNat)) := by
  have hwidth : (srcChar.setWidth 8).toNat = srcChar.toNat % 256 := BitVec.toNat_setWidth 8 srcChar
  obtain ⟨h2, h3, h4⟩ := first_mark (srcChar.setWidth 8)
  rw [hwidth] at h2 h3 h4
  refine ⟨fun h => ?_, fun h => ?_, fun h => ?_⟩
  · rw [Nat.mod_eq_of_lt (by omega)] at h2
    exact BitVec.setWidth_or.trans (h2 h)
  · rw [Nat.mod_eq_of_lt (by omega)] at h3
    exact BitVec.setWidth_or.trans (h3 h)
  · rw [Nat.mod_eq_of_lt (by omega)] at h4
    exact BitVec.setWidth_or.trans (h4 h)

/-- A code point that is no surrogate is written in UTF-8. -/
theorem bytesOf_scalar (s : Scalar) {utf32 : char32_t} (h : utf32.toNat = s.val) :
    bytesOf utf32 = s.utf8 := by
  have hvalid := s.valid
  have h6 : (utf32 >>> 6).toNat = s.val / 64 := h ▸ toNat_shiftRight6 utf32
  have h12 : (utf32 >>> 6 >>> 6).toNat = s.val / 4096 := by
    rw [toNat_shiftRight6, h6, Nat.div_div_eq_div_mul]
  have h18 : (utf32 >>> 6 >>> 6 >>> 6).toNat = s.val / 262144 := by
    rw [toNat_shiftRight6, h12, Nat.div_div_eq_div_mul]
  have htail := trail_byte utf32
  have htail6 := trail_byte (utf32 >>> 6)
  have htail12 := trail_byte (utf32 >>> 6 >>> 6)
  rw [h] at htail
  rw [h6] at htail6
  rw [h12] at htail12
  unfold bytesOf utf32_codepoint_utf8_length Scalar.utf8 kUnicodeSurrogateStart
    kUnicodeSurrogateEnd kUnicodeMaxCodepoint
  by_cases h1 : s.val < 0x80
  · rw [if_pos (by bv_omega), if_pos h1, ← h, BitVec.ofNat_toNat]
    exact congrArg (fun x : char32_t => [x.setWidth 8]) BitVec.or_zero
  rw [if_neg (by bv_omega), if_neg h1]
  by_cases h2 : s.val < 0x800
  · have hfirst := (first_byte (utf32 >>> 6)).1 (by omega)
    rw [h6] at hfirst
    rw [if_pos (by bv_omega), if_pos h2, ← hfirst, ← htail]
    rfl
  rw [if_neg (by bv_omega), if_neg h2]
  by_cases h3 : s.val < 0x10000
  · have hfirst := (first_byte (utf32 >>> 6 >>> 6)).2.1 (by omega)
    rw [h12] at hfirst
    rw [if_pos (by bv_omega), if_pos (by bv_omega), if_pos h3, ← hfirst, ← htail6, ← htail]
    rfl
  · have hfirst := (first_byte (utf32 >>> 6 >>> 6 >>> 6)).2.2 (by omega)
    rw [h18] at hfirst
    rw [if_neg (by bv_omega), if_pos (by bv_omega), if_neg h3, ← hfirst, ← htail12, ← htail6,
      ← htail]
    rfl

/-! ## From UTF-16 -/

theorem writeUnits_unit {unit : char16_t} (h : isHigh unit = false) (src : List char16_t) :
    writeUnits (unit :: src) = (writeUnits src).map (bytesOf (unit.setWidth 32) ++ ·) := by
  cases src with
  | nil =>
    unfold writeUnits
    rw [if_neg (by rw [h]; exact Bool.false_ne_true)]
    exact congrArg some (List.append_nil _).symm
  | cons next src =>
    rw [writeUnits, if_neg (by rw [h]; exact Bool.false_ne_true)]

theorem toNat_unit {n : Nat} (h : n < 0x10000) : (BitVec.ofNat 16 n).toNat = n := by
  rw [BitVec.toNat_ofNat]
  exact Nat.mod_eq_of_lt h

/-- A code point in UTF-16 is written in UTF-8. -/
theorem writeUnits_scalar (s : Scalar) (src : List char16_t) :
    writeUnits (s.utf16 ++ src) = (writeUnits src).map (s.utf8 ++ ·) := by
  have hvalid := s.valid
  unfold Scalar.utf16
  split
  · next hsmall =>
    have hunit : (BitVec.ofNat 16 s.val).toNat = s.val := toNat_unit hsmall
    have hhigh : isHigh (.ofNat 16 s.val) = false := by
      rw [Bool.eq_false_iff, Ne, isHigh_iff, hunit]
      omega
    rw [List.singleton_append, writeUnits_unit hhigh, bytesOf_scalar s]
    rw [BitVec.toNat_setWidth, hunit]
    exact Nat.mod_eq_of_lt (by omega)
  · next hlarge =>
    have hh : (BitVec.ofNat 16 (0xD800 + (s.val - 0x10000) / 1024)).toNat =
        0xD800 + (s.val - 0x10000) / 1024 := toNat_unit (by omega)
    have hl : (BitVec.ofNat 16 (0xDC00 + s.val % 1024)).toNat = 0xDC00 + s.val % 1024 :=
      toNat_unit (by omega)
    have hhigh := (isHigh_iff (.ofNat 16 (0xD800 + (s.val - 0x10000) / 1024))).mpr (by omega)
    have hlow := (isLow_iff (.ofNat 16 (0xDC00 + s.val % 1024))).mpr (by omega)
    have hpair := fromPair_toNat hhigh hlow
    rw [List.cons_append, List.singleton_append, writeUnits, if_pos hhigh,
      bytesOf_scalar s (by rw [hpair]; omega)]

theorem writeUnits_text (text : List Scalar) : writeUnits (utf16 text) = some (utf8 text) := by
  induction text with
  | nil => rfl
  | cons s text ih =>
    unfold utf16 utf8 at *
    rw [List.flatMap_cons, List.flatMap_cons, writeUnits_scalar, ih]
    rfl

/-! ## From UTF-8, of any bytes -/

theorem length_unitsOf (codepoint : char32_t) :
    (unitsOf codepoint).length = unitCount codepoint := by
  unfold unitsOf unitCount
  by_cases hsmall : codepoint ≤ 0xFFFF
  · rw [if_pos hsmall, if_neg (BitVec.not_lt.mpr hsmall)]
    rfl
  · rw [if_neg hsmall, if_pos (BitVec.not_le.mp hsmall)]
    rfl

theorem mem_readsAt {i u8cur u8charLen : Nat} (h : i ∈ readsAt u8cur u8charLen) :
    i < u8cur + u8charLen := by
  obtain ⟨k, hk, rfl⟩ := List.mem_map.mp h
  have hlt := List.mem_range.mp hk
  omega

variable (u8str : Nat → uint8_t) (u8end : Nat)

theorem le_measureBytes (u8cur u16measuredLen : Nat) :
    u8cur ≤ (measureBytes u8str u8end u8cur u16measuredLen).1 := by
  fun_induction measureBytes u8str u8end u8cur u16measuredLen with
  | case1 u8cur u16measuredLen hlt u8charLen codepoint hchar stop count reads hrec ih =>
    rw [hrec] at ih
    exact Nat.le_trans (Nat.le_add_right _ _) ih
  | case2 => exact Nat.le_refl _

/-- Where the loop that measures stops at the end, both loops read inside of the array, and the
other writes as many units as are counted. -/
theorem measureBytes_end {u8cur u16measuredLen : Nat}
    (h : (measureBytes u8str u8end u8cur u16measuredLen).1 = u8end) :
    (measureBytes u8str u8end u8cur u16measuredLen).2.1 =
        u16measuredLen + (writeBytes u8str u8end u8cur).1.length ∧
      (∀ i ∈ (measureBytes u8str u8end u8cur u16measuredLen).2.2, i < u8end) ∧
      ∀ i ∈ (writeBytes u8str u8end u8cur).2, i < u8end := by
  fun_induction measureBytes u8str u8end u8cur u16measuredLen with
  | case1 u8cur u16measuredLen hlt u8charLen codepoint hchar stop count reads hrec ih =>
    rw [hrec] at ih
    obtain ⟨hcount, hreads, hwrites⟩ := ih h
    have hle := le_measureBytes u8str u8end (u8cur + utf8_codepoint_len (u8str u8cur))
      (u16measuredLen + unitCount codepoint)
    have hlen : u8charLen = utf8_codepoint_len (u8str u8cur) := (congrArg Prod.fst hchar).symm
    rw [hrec, ← hlen] at hle
    change stop = u8end at h
    have hhere : ∀ i ∈ readsAt u8cur u8charLen, i < u8end := fun i hi =>
      Nat.lt_of_lt_of_le (mem_readsAt hi) (h ▸ hle)
    rw [writeBytes, if_pos hlt, hchar]
    refine ⟨?_, List.forall_mem_append.mpr ⟨hhere, hreads⟩,
      List.forall_mem_append.mpr ⟨hhere, hwrites⟩⟩
    dsimp only at hcount ⊢
    rw [hcount, List.length_append, length_unitsOf]
    omega
  | case2 u8cur u16measuredLen hstop =>
    rw [writeBytes, if_neg hstop]
    exact ⟨rfl, fun _ hi => absurd hi List.not_mem_nil, fun _ hi => absurd hi List.not_mem_nil⟩

/-! ## From UTF-8, of a text -/

/-- The bytes are there from an offset on. -/
def BytesAt (u8str : Nat → uint8_t) : Nat → List uint8_t → Prop
  | _, [] => True
  | u8cur, byte :: bytes => u8str u8cur = byte ∧ BytesAt u8str (u8cur + 1) bytes

theorem bytesAt_append (u8str : Nat → uint8_t) (u8cur : Nat) (first bytes : List uint8_t) :
    BytesAt u8str u8cur (first ++ bytes) ↔
      BytesAt u8str u8cur first ∧ BytesAt u8str (u8cur + first.length) bytes := by
  induction first generalizing u8cur with
  | nil => exact ⟨fun h => ⟨trivial, h⟩, fun h => h.2⟩
  | cons byte first ih =>
    rw [List.cons_append, BytesAt, BytesAt, ih, List.length_cons, and_assoc, Nat.add_right_comm,
      Nat.add_assoc]

theorem codepoint_len : ∀ byte : uint8_t,
    (byte.toNat < 0x80 → utf8_codepoint_len byte = 1) ∧
    (0xC0 ≤ byte.toNat → byte.toNat < 0xE0 → utf8_codepoint_len byte = 2) ∧
    (0xE0 ≤ byte.toNat → byte.toNat < 0xF0 → utf8_codepoint_len byte = 3) ∧
    (0xF0 ≤ byte.toNat → utf8_codepoint_len byte = 4) := by
  decide +kernel

theorem first_mask : ∀ byte : uint8_t,
    (byte.setWidth 32 &&& (0x1f : char32_t)).toNat = byte.toNat % 32 ∧
    (byte.setWidth 32 &&& (0x0f : char32_t)).toNat = byte.toNat % 16 ∧
    (byte.setWidth 32 &&& (0x07 : char32_t)).toNat = byte.toNat % 8 ∧
    ((0x3F : char32_t) &&& byte.setWidth 32).toNat = byte.toNat % 64 := by
  decide +kernel

/-- Six more bits. -/
theorem shift_and_mask_toNat (codePoint : char32_t) (h : codePoint.toNat < 2 ^ 26) (n : Nat) :
    (utf8_shift_and_mask codePoint (tailByte n)).toNat = codePoint.toNat * 64 + n % 64 := by
  have hbyte : (tailByte n).toNat % 64 = n % 64 := by
    unfold tailByte
    rw [BitVec.toNat_ofNat]
    omega
  unfold utf8_shift_and_mask
  rw [BitVec.toNat_or, (first_mask _).2.2.2, hbyte, BitVec.toNat_shiftLeft, Nat.shiftLeft_eq,
    Nat.mod_eq_of_lt (by omega), ← Nat.shiftLeft_eq, ← Nat.shiftLeft_add_eq_or_of_lt (by omega),
    Nat.shiftLeft_eq]

theorem toNat_first {byte : uint8_t} {n : Nat} (h : byte = .ofNat 8 n) (hn : n < 256) :
    byte.toNat = n := by
  rw [h, BitVec.toNat_ofNat]
  exact Nat.mod_eq_of_lt hn

/-- A character of a text is read for what it is. -/
theorem charAt_scalar {u8cur : Nat} (s : Scalar) (h : BytesAt u8str u8cur s.utf8) :
    (charAt u8str u8cur).1 = s.utf8.length ∧ (charAt u8str u8cur).2.toNat = s.val := by
  have hvalid := s.valid
  unfold charAt
  unfold Scalar.utf8 at h ⊢
  obtain ⟨hlen1, hlen2, hlen3, hlen4⟩ := codepoint_len (u8str u8cur)
  obtain ⟨hmask2, hmask3, hmask4, -⟩ := first_mask (u8str u8cur)
  by_cases h1 : s.val < 0x80
  · rw [if_pos h1] at h ⊢
    have hfirst := toNat_first h.1 (by omega)
    rw [hlen1 (by omega)]
    refine ⟨rfl, ?_⟩
    change ((u8str u8cur).setWidth 32).toNat = s.val
    rw [BitVec.toNat_setWidth, hfirst]
    exact Nat.mod_eq_of_lt (by omega)
  rw [if_neg h1] at h ⊢
  by_cases h2 : s.val < 0x800
  · rw [if_pos h2] at h ⊢
    obtain ⟨hbyte, hbyte1, -⟩ := h
    have hfirst := toNat_first hbyte (by omega)
    rw [hlen2 (by omega) (by omega)]
    refine ⟨rfl, ?_⟩
    change (utf8_shift_and_mask ((u8str u8cur).setWidth 32 &&& 0x1f) (u8str (u8cur + 1))).toNat =
      s.val
    rw [hbyte1, shift_and_mask_toNat _ (by omega), hmask2]
    omega
  rw [if_neg h2] at h ⊢
  by_cases h3 : s.val < 0x10000
  · rw [if_pos h3] at h ⊢
    obtain ⟨hbyte, hbyte1, hbyte2, -⟩ := h
    have hfirst := toNat_first hbyte (by omega)
    rw [hlen3 (by omega) (by omega)]
    refine ⟨rfl, ?_⟩
    change (utf8_shift_and_mask (utf8_shift_and_mask ((u8str u8cur).setWidth 32 &&& 0x0f)
      (u8str (u8cur + 1))) (u8str (u8cur + 1 + 1))).toNat = s.val
    have hmid := shift_and_mask_toNat ((u8str u8cur).setWidth 32 &&& 0x0f)
      (by omega) (s.val / 64)
    rw [hbyte1, hbyte2, shift_and_mask_toNat _ (by omega), hmid, hmask3]
    omega
  · rw [if_neg h3] at h ⊢
    obtain ⟨hbyte, hbyte1, hbyte2, hbyte3, -⟩ := h
    have hfirst := toNat_first hbyte (by omega)
    rw [hlen4 (by omega)]
    refine ⟨rfl, ?_⟩
    change (utf8_shift_and_mask (utf8_shift_and_mask (utf8_shift_and_mask
      ((u8str u8cur).setWidth 32 &&& 0x07) (u8str (u8cur + 1))) (u8str (u8cur + 1 + 1)))
      (u8str (u8cur + 1 + 1 + 1))).toNat = s.val
    have hmid := shift_and_mask_toNat ((u8str u8cur).setWidth 32 &&& 0x07)
      (by omega) (s.val / 4096)
    have hmid' := shift_and_mask_toNat (utf8_shift_and_mask
      ((u8str u8cur).setWidth 32 &&& 0x07) (tailByte (s.val / 4096))) (by omega) (s.val / 64)
    rw [hbyte1, hbyte2, hbyte3, shift_and_mask_toNat _ (by omega), hmid', hmid, hmask4]
    omega

theorem and_low_bits (codepoint : char32_t) :
    (codepoint &&& (0x3FF : char32_t)).toNat = codepoint.toNat % 1024 := by
  rw [BitVec.toNat_and]
  exact Nat.and_two_pow_sub_one_eq_mod codepoint.toNat 10

/-- A code point that is no surrogate is written in UTF-16. -/
theorem unitsOf_scalar (s : Scalar) {codepoint : char32_t} (h : codepoint.toNat = s.val) :
    unitsOf codepoint = s.utf16 := by
  have hvalid := s.valid
  unfold unitsOf Scalar.utf16
  by_cases hsmall : s.val < 0x10000
  · rw [if_pos (by bv_omega), if_pos hsmall, ← h]
    rfl
  rw [if_neg (by bv_omega), if_neg hsmall]
  have hless : (codepoint - 0x10000 : char32_t).toNat = s.val - 0x10000 := by bv_omega
  have hhigh : ((codepoint - 0x10000 : char32_t) >>> 10).toNat = (s.val - 0x10000) / 1024 := by
    rw [BitVec.toNat_ushiftRight, Nat.shiftRight_eq_div_pow, hless]
  have hlow : ((codepoint - 0x10000 : char32_t) &&& 0x3FF).toNat = s.val % 1024 := by
    rw [and_low_bits, hless]
    omega
  have hunit : ((codepoint - 0x10000 : char32_t) >>> 10 + 0xD800).setWidth 16 =
      BitVec.ofNat 16 (0xD800 + (s.val - 0x10000) / 1024) := by
    refine BitVec.eq_of_toNat_eq ?_
    rw [toNat_unit (by omega), BitVec.toNat_setWidth, BitVec.toNat_add, hhigh]
    change ((s.val - 0x10000) / 1024 + 0xD800) % 2 ^ 32 % 2 ^ 16 = _
    omega
  have hunit' : (((codepoint - 0x10000 : char32_t) &&& 0x3FF) + 0xDC00).setWidth 16 =
      BitVec.ofNat 16 (0xDC00 + s.val % 1024) := by
    refine BitVec.eq_of_toNat_eq ?_
    rw [toNat_unit (by omega), BitVec.toNat_setWidth, BitVec.toNat_add, hlow]
    change (s.val % 1024 + 0xDC00) % 2 ^ 32 % 2 ^ 16 = _
    omega
  dsimp only
  rw [hunit, hunit']

theorem utf8_length_pos (s : Scalar) : 0 < s.utf8.length := by
  unfold Scalar.utf8
  split_ifs <;> exact Nat.succ_pos _

theorem utf16_length_pos (s : Scalar) : 0 < s.utf16.length := by
  unfold Scalar.utf16
  split_ifs <;> exact Nat.succ_pos _

theorem cons_ne_nil (s : Scalar) (text : List Scalar) :
    utf8 (s :: text) ≠ [] ∧ utf16 (s :: text) ≠ [] := by
  unfold utf8 utf16
  rw [List.flatMap_cons, List.flatMap_cons]
  refine ⟨fun h => ?_, fun h => ?_⟩
  · have hpos := utf8_length_pos s
    rw [(List.append_eq_nil_iff.mp h).1] at hpos
    cases hpos
  · have hpos := utf16_length_pos s
    rw [(List.append_eq_nil_iff.mp h).1] at hpos
    cases hpos

/-- A text is written in UTF-16, and the loop that measures stops at its end. -/
theorem loops_text (text : List Scalar) {u8cur : Nat} (u16measuredLen : Nat)
    (h : BytesAt u8str u8cur (utf8 text)) :
    (writeBytes u8str (u8cur + (utf8 text).length) u8cur).1 = utf16 text ∧
      (measureBytes u8str (u8cur + (utf8 text).length) u8cur u16measuredLen).1 =
        u8cur + (utf8 text).length := by
  induction text generalizing u8cur u16measuredLen with
  | nil =>
    have hend : u8cur + (utf8 []).length = u8cur := rfl
    rw [hend, writeBytes, measureBytes, if_neg (Nat.lt_irrefl _), if_neg (Nat.lt_irrefl _)]
    exact ⟨rfl, rfl⟩
  | cons s text ih =>
    have hcons : utf8 (s :: text) = s.utf8 ++ utf8 text := List.flatMap_cons
    rw [hcons, bytesAt_append] at h
    obtain ⟨hlen, hval⟩ := charAt_scalar u8str s h.1
    have hnext : utf8_codepoint_len (u8str u8cur) = s.utf8.length := hlen
    have hpos := utf8_length_pos s
    obtain ⟨hwrite, hmeasure⟩ := ih (u16measuredLen + unitCount (charAt u8str u8cur).2) h.2
    have hend : u8cur + (s.utf8 ++ utf8 text).length =
        u8cur + s.utf8.length + (utf8 text).length := by
      rw [List.length_append, Nat.add_assoc]
    rw [hcons, hend, writeBytes, measureBytes, if_pos (by omega), if_pos (by omega), hnext]
    refine ⟨?_, hmeasure⟩
    change unitsOf (charAt u8str u8cur).2 ++
      (writeBytes u8str (u8cur + s.utf8.length + (utf8 text).length) (u8cur + s.utf8.length)).1 = _
    rw [hwrite, unitsOf_scalar s hval]
    rfl

/-! ## The property -/

/-- The bytes of an array, and what lies behind it. -/
def inArray (bytes : List uint8_t) (behind : Nat → uint8_t) (i : Nat) : uint8_t :=
  if h : i < bytes.length then bytes[i] else behind i

theorem bytesAt_inArray (first bytes : List uint8_t) (behind : Nat → uint8_t) :
    BytesAt (inArray (first ++ bytes) behind) first.length bytes := by
  induction bytes generalizing first with
  | nil => trivial
  | cons byte bytes ih =>
    refine ⟨?_, ?_⟩
    · unfold inArray
      rw [dif_pos (by simp)]
      simp
    · have hrest := ih (first ++ [byte])
      rwa [List.append_assoc, List.length_append] at hrest

/-- The terminated text. -/
def terminated (bytes : List uint8_t) : List uint8_t := if bytes = [] then [] else bytes ++ [0]

/-- **UTF-8 to UTF-16.** Where the length is not -1, as many units are written, before the
terminator, and neither function reads outside of the array; and a text that is well formed comes
back from UTF-16 as it was. -/
theorem utf8_to_utf16_faithful :
    (∀ (u8str : Nat → uint8_t) (u8len count : Nat), utf8_to_utf16_length u8str u8len = some count →
      (utf8_to_utf16 u8str u8len).length = count + 1 ∧
      (∀ i ∈ (measureBytes u8str u8len 0 0).2.2, i < u8len) ∧
      ∀ i ∈ (writeBytes u8str u8len 0).2, i < u8len) ∧
    ∀ (bytes : List uint8_t) (behind : Nat → uint8_t), WellFormed bytes →
      (utf8_to_utf16_length (inArray bytes behind) bytes.length).isSome ∧
      utf16_to_utf8 (utf8_to_utf16_no_null_terminator (inArray bytes behind) bytes.length) =
        some (terminated bytes) := by
  refine ⟨fun u8str u8len count hcount => ?_, fun bytes behind hbytes => ?_⟩
  · unfold utf8_to_utf16_length at hcount
    dsimp only at hcount
    split at hcount
    · cases hcount
    · next hstop =>
      cases hcount
      obtain ⟨hsame, hreads, hwrites⟩ := measureBytes_end u8str u8len (not_not.mp hstop)
      refine ⟨?_, hreads, hwrites⟩
      rw [hsame]
      unfold utf8_to_utf16 utf8_to_utf16_no_null_terminator
      rw [List.length_append, Nat.zero_add]
      rfl
  · obtain ⟨text, rfl⟩ := hbytes
    have hat : BytesAt (inArray (utf8 text) behind) 0 (utf8 text) :=
      bytesAt_inArray [] (utf8 text) behind
    obtain ⟨hwrite, hmeasure⟩ := loops_text _ text 0 hat
    rw [Nat.zero_add] at hwrite hmeasure
    refine ⟨?_, ?_⟩
    · unfold utf8_to_utf16_length
      dsimp only
      rw [hmeasure, if_neg (not_not.mpr rfl)]
      rfl
    · unfold utf8_to_utf16_no_null_terminator utf16_to_utf8 terminated
      rw [hwrite, writeUnits_text]
      cases text with
      | nil => rfl
      | cons s text =>
        obtain ⟨hne, hne'⟩ := cons_ne_nil s text
        rw [if_neg hne, if_neg hne', Option.map_some]

def euroSign : Scalar := ⟨0x20AC, Or.inl (Nat.le_of_ble_eq_true rfl)⟩

/-- It stands in an array, and more bytes behind it. -/
def euroBytes : Nat → uint8_t := inArray [0xE2, 0x82, 0xAC] fun _ => 0xFF

theorem euroSign_comes_back :
    (∃ count, utf8_to_utf16_length euroBytes 3 = some count ∧
      (utf8_to_utf16 euroBytes 3).length = count + 1) ∧
    utf16_to_utf8 (utf8_to_utf16_no_null_terminator euroBytes 3) =
      some [0xE2, 0x82, 0xAC, 0] := by
  obtain ⟨hlength, htext⟩ := utf8_to_utf16_faithful
  obtain ⟨hsome, hback⟩ := htext [0xE2, 0x82, 0xAC] (fun _ => 0xFF) ⟨[euroSign], rfl⟩
  obtain ⟨count, hcount⟩ := Option.isSome_iff_exists.mp hsome
  exact ⟨⟨count, hcount, (hlength _ _ count hcount).1⟩, hback⟩

end Cdroid.Utils.Unicode
