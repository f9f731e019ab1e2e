import Cdroid.Lib.Unicode

/-! The conversions between UTF-8 and UTF-16. An array that is converted is a list where a read
behind its end is a failure, and else the bytes at their offsets, where reads are told. -/

namespace Cdroid.Utils.Unicode

abbrev uint8_t := BitVec 8
abbrev char16_t := BitVec 16
abbrev char32_t := BitVec 32
abbrev size_t := BitVec 32

def kByteMask : char32_t := 0x000000BF
def kByteMark : char32_t := 0x00000080
def kUnicodeSurrogateStart : char32_t := 0x0000D800
def kUnicodeSurrogateEnd : char32_t := 0x0000DFFF
def kUnicodeMaxCodepoint : char32_t := 0x0010FFFF

/-- Indexed by the number of bytes of a character. -/
def kFirstByteMark : Nat → char32_t
  | 2 => 0x000000C0
  | 3 => 0x000000E0
  | 4 => 0x000000F0
  | _ => 0x00000000

/-! ## UTF-32 -/

def utf32_codepoint_utf8_length (srcChar : char32_t) : Nat :=
  if srcChar < 0x00000080 then 1
  else if srcChar < 0x00000800 then 2
  else if srcChar < 0x00010000 then
    if srcChar < kUnicodeSurrogateStart ∨ kUnicodeSurrogateEnd < srcChar then 3
    else 0
  else if srcChar ≤ kUnicodeMaxCodepoint then 4
  else 0

/-- `k` bytes are written before `out`, the last of them first, and what is left of the
character. -/
def trailBytes : Nat → char32_t → List uint8_t → char32_t × List uint8_t
  | 0, srcChar, out => (srcChar, out)
  | k + 1, srcChar, out =>
    trailBytes k (srcChar >>> 6) (((srcChar ||| kByteMark) &&& kByteMask).setWidth 8 :: out)

/-- The cases of the switch fall through. -/
def utf32_codepoint_to_utf8 (srcChar : char32_t) : Nat → List uint8_t
  | 0 => []
  | k + 1 =>
    if k + 1 ≤ 4 then
      let (srcChar, out) := trailBytes k srcChar []
      (srcChar ||| kFirstByteMark (k + 1)).setWidth 8 :: out
    else []

/-! ## UTF-16 to UTF-8 -/

def isHigh (unit : char16_t) : Bool := unit &&& 0xFC00 == 0xD800

def isLow (unit : char16_t) : Bool := unit &&& 0xFC00 == 0xDC00

/-- The sum of two units that are taken for a pair of surrogates. -/
def fromPair (high low : char16_t) : char32_t :=
  ((high.setWidth 32 - 0xD800) <<< 10 ||| (low.setWidth 32 - 0xDC00)) + 0x10000

def bytesOf (utf32 : char32_t) : List uint8_t :=
  utf32_codepoint_to_utf8 utf32 (utf32_codepoint_utf8_length utf32)

/-- The loop of `utf16_to_utf8`. Behind a high surrogate the next unit is read, whatever it is;
behind the last unit this is a read outside of the source. -/
def writeUnits : List char16_t → Option (List uint8_t)
  | [] => some []
  | [unit] => if isHigh unit then none else some (bytesOf (unit.setWidth 32))
  | unit :: next :: src =>
    if isHigh unit then (writeUnits src).map (bytesOf (fromPair unit next) ++ ·)
    else (writeUnits (next :: src)).map (bytesOf (unit.setWidth 32) ++ ·)

/-- What `utf16_to_utf8` writes, with the terminator. -/
def utf16_to_utf8 (src : List char16_t) : Option (List uint8_t) :=
  if src = [] then some [] else (writeUnits src).map (· ++ [0])

def unitLength (unit : char16_t) : size_t :=
  .ofNat 32 (utf32_codepoint_utf8_length (unit.setWidth 32))

/-- The loop of `utf16_to_utf8_length`. A unit behind a high surrogate is measured in its place
if it is no low one. -/
def measureUnits (ret : size_t) : List char16_t → size_t
  | [] => ret
  | [unit] => ret + unitLength unit
  | unit :: next :: src =>
    if isHigh unit then
      if isLow next then measureUnits (ret + 4) src
      else measureUnits (ret + unitLength next) src
    else measureUnits (ret + unitLength unit) (next :: src)

/-- A `ssize_t` -/
def utf16_to_utf8_length (src : List char16_t) : size_t :=
  if src = [] then -1 else measureUnits 0 src

/-- `allocFromUTF16`: the size of the buffer and what is written there, or `none` for the empty
string. -/
def allocFromUTF16 (src : List char16_t) : Option (size_t × Option (List uint8_t)) :=
  if src = [] then none
  else
    let bytes := utf16_to_utf8_length src
    if bytes.toInt < 0 then none else some (bytes + 1, utf16_to_utf8 src)

/-! ## UTF-8 to UTF-16 -/

/-- From 1 to 4, by the leading bits. -/
def utf8_codepoint_len (ch : uint8_t) : Nat :=
  (((0xe5000000 : BitVec 32) >>> ((ch >>> 3) &&& 0x1e).toNat) &&& 3).toNat + 1

theorem utf8_codepoint_len_pos (ch : uint8_t) : 0 < utf8_codepoint_len ch := Nat.succ_pos _

def utf8_shift_and_mask (codePoint : char32_t) (byte : uint8_t) : char32_t :=
  codePoint <<< 6 ||| (0x3F &&& byte.setWidth 32)

/-- `src` tells the bytes from the character on. -/
def utf8_to_utf32_codepoint (src : Nat → uint8_t) : Nat → char32_t
  | 1 => (src 0).setWidth 32
  | 2 => utf8_shift_and_mask ((src 0).setWidth 32 &&& 0x1f) (src 1)
  | 3 => utf8_shift_and_mask (utf8_shift_and_mask ((src 0).setWidth 32 &&& 0x0f) (src 1)) (src 2)
  | 4 =>
    utf8_shift_and_mask (utf8_shift_and_mask
      (utf8_shift_and_mask ((src 0).setWidth 32 &&& 0x07) (src 1)) (src 2)) (src 3)
  | _ => 0xffff

/-- The offsets of a character. -/
def readsAt (u8cur u8charLen : Nat) : List Nat := (List.range u8charLen).map (u8cur + ·)

section
variable (u8str : Nat → uint8_t) (u8end : Nat)

/-- The character at `u8cur`: its length and what it stands for. -/
def charAt (u8cur : Nat) : Nat × char32_t :=
  let u8charLen := utf8_codepoint_len (u8str u8cur)
  (u8charLen, utf8_to_utf32_codepoint (fun i => u8str (u8cur + i)) u8charLen)

/-- Two, if it will be a surrogate pair in UTF-16. -/
def unitCount (codepoint : char32_t) : Nat := if 0xFFFF < codepoint then 2 else 1

/-- The loop of `utf8_to_utf16_length`: where it stops, what it has counted, and the offsets
that it has read. -/
def measureBytes (u8cur u16measuredLen : Nat) : Nat × Nat × List Nat :=
  if u8cur < u8end then
    let (u8charLen, codepoint) := charAt u8str u8cur
    let (stop, count, reads) := measureBytes (u8cur + utf8_codepoint_len (u8str u8cur))
      (u16measuredLen + unitCount codepoint)
    (stop, count, readsAt u8cur u8charLen ++ reads)
  else (u8cur, u16measuredLen, [])
termination_by u8end - u8cur
decreasing_by
  have := utf8_codepoint_len_pos (u8str u8cur)
  omega

/-- One unit, or two surrogates. -/
def unitsOf (codepoint : char32_t) : List char16_t :=
  if codepoint ≤ 0xFFFF then [codepoint.setWidth 16]
  else
    let codepoint := codepoint - 0x10000
    [((codepoint >>> 10) + 0xD800).setWidth 16, ((codepoint &&& 0x3FF) + 0xDC00).setWidth 16]

/-- The loop of `utf8_to_utf16_no_null_terminator`: what it writes, and the offsets that it has
read. -/
def writeBytes (u8cur : Nat) : List char16_t × List Nat :=
  if u8cur < u8end then
    let (u8len, codepoint) := charAt u8str u8cur
    let (units, reads) := writeBytes (u8cur + utf8_codepoint_len (u8str u8cur))
    (unitsOf codepoint ++ units, readsAt u8cur u8len ++ reads)
  else ([], [])
termination_by u8end - u8cur
decreasing_by
  have := utf8_codepoint_len_pos (u8str u8cur)
  omega

end

/-- `none` is -1. The count is at most `u8len`, so that it does not wrap. -/
def utf8_to_utf16_length (u8str : Nat → uint8_t) (u8len : Nat) : Option Nat :=
  let (u8cur, u16measuredLen, _) := measureBytes u8str u8len 0 0
  if u8cur ≠ u8len then none else some u16measuredLen

def utf8_to_utf16_no_null_terminator (u8str : Nat → uint8_t) (u8len : Nat) : List char16_t :=
  (writeBytes u8str u8len 0).1

def utf8_to_utf16 (u8str : Nat → uint8_t) (u8len : Nat) : List char16_t :=
  utf8_to_utf16_no_null_terminator u8str u8len ++ [0]

end Cdroid.Utils.Unicode
