/-! Unicode scalar values, and how UTF-8 and UTF-16 encode them. -/

namespace Cdroid.Lib.Unicode

/-- A code point that is no surrogate. -/
structure Scalar where
  val : Nat
  valid : val < 0xD800 ∨ (0xE000 ≤ val ∧ val < 0x110000)

/-- The last six bits of `n`, in a byte that is not the first one. -/
def tailByte (n : Nat) : BitVec 8 := .ofNat 8 (0x80 + n % 64)

namespace Scalar

def utf8 (s : Scalar) : List (BitVec 8) :=
  if s.val < 0x80 then [.ofNat 8 s.val]
  else if s.val < 0x800 then [.ofNat 8 (0xC0 + s.val / 64), tailByte s.val]
  else if s.val < 0x10000 then
    [.ofNat 8 (0xE0 + s.val / 4096), tailByte (s.val / 64), tailByte s.val]
  else
    [.ofNat 8 (0xF0 + s.val / 262144), tailByte (s.val / 4096), tailByte (s.val / 64),
      tailByte s.val]

def utf16 (s : Scalar) : List (BitVec 16) :=
  if s.val < 0x10000 then [.ofNat 16 s.val]
  else [.ofNat 16 (0xD800 + (s.val - 0x10000) / 1024), .ofNat 16 (0xDC00 + s.val % 1024)]

end Scalar

def utf8 (text : List Scalar) : List (BitVec 8) := text.flatMap Scalar.utf8

def utf16 (text : List Scalar) : List (BitVec 16) := text.flatMap Scalar.utf16

/-- The bytes are the UTF-8 of some text. -/
def WellFormed (bytes : List (BitVec 8)) : Prop := ∃ text, bytes = utf8 text

end Cdroid.Lib.Unicode
