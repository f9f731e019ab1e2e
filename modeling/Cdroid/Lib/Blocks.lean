import Mathlib.Data.List.Basic

/-! Blocks of memory as the bytes at their offsets, and the accesses to them. A block
has a size, which an access may miss. -/

namespace Cdroid.Lib.Blocks

/-- The byte at each offset. -/
abbrev Block := Nat → UInt8

/-- `n` bytes of `source` in the place of those from `offset` on. -/
def blit (source : Block) (n offset : Nat) (target : Block) : Block := fun i =>
  if offset ≤ i ∧ i < offset + n then source (i - offset) else target i

/-- The bytes of a list. -/
def ofList (bytes : List UInt8) : Block := fun i => bytes.getD i 0

def store (bytes : List UInt8) (offset : Nat) (target : Block) : Block :=
  blit (ofList bytes) bytes.length offset target

/-- A block whose first `n` bytes are those of `source`. -/
def copy (n : Nat) (source target : Block) : Block := blit source n 0 target

/-- The bytes from `offset` on. -/
def shift (offset : Nat) (source : Block) : Block := fun i => source (offset + i)

/-! ## The first bytes -/

def toList (n : Nat) (b : Block) : List UInt8 := (List.range n).map b

@[simp] theorem length_toList (n : Nat) (b : Block) : (toList n b).length = n := by
  rw [toList, List.length_map, List.length_range]

@[simp] theorem getElem_toList {n : Nat} {b : Block} {i : Nat} (hi : i < (toList n b).length) :
    (toList n b)[i] = b i := by
  simp [toList]

theorem toList_congr {n : Nat} {b c : Block} (h : ∀ i < n, b i = c i) :
    toList n b = toList n c :=
  List.map_congr_left fun i hi => h i (List.mem_range.mp hi)

theorem toList_add (m n : Nat) (b : Block) :
    toList (m + n) b = toList m b ++ toList n (shift m b) := by
  rw [toList, List.range_add, List.map_append, List.map_map]
  rfl

theorem ofList_getElem {l : List UInt8} {i : Nat} (hi : i < l.length) : ofList l i = l[i] := by
  simp [ofList, hi]

theorem toList_ofList (l : List UInt8) : toList l.length (ofList l) = l := by
  refine List.ext_getElem (length_toList _ _) fun i hi hi' => ?_
  rw [getElem_toList, ofList_getElem hi']

/-- A list of bytes in the place of another of that length. -/
theorem toList_blit {n : Nat} {b : Block} {pre gap post l : List UInt8}
    (h : toList n b = pre ++ (gap ++ post)) (hl : l.length = gap.length) :
    toList n (blit (ofList l) l.length pre.length b) = pre ++ (l ++ post) := by
  have hn : n = pre.length + (gap.length + post.length) := by
    simpa using congrArg List.length h
  have hb : ∀ i (hi : i < (pre ++ (gap ++ post)).length), (pre ++ (gap ++ post))[i] = b i := by
    intro i hi
    rw [← List.getElem_of_eq h (h ▸ hi), getElem_toList]
  refine List.ext_getElem (by simp; omega) fun i hi hi' => ?_
  rw [length_toList] at hi
  rw [getElem_toList, blit]
  split
  · next hin =>
    rw [List.getElem_append_right hin.1, List.getElem_append_left (by omega),
      ofList_getElem (by omega)]
  · next hout =>
    rw [← hb i (by simpa [hn] using hi)]
    by_cases hpre : i < pre.length
    · rw [List.getElem_append_left hpre, List.getElem_append_left hpre]
    · have hge : l.length ≤ i - pre.length := by omega
      rw [List.getElem_append_right (by omega), List.getElem_append_right (by omega),
        List.getElem_append_right (by omega), List.getElem_append_right hge]
      simp only [hl]

/-- The bytes that a blit has put there. -/
theorem toList_shift_blit (data : Block) (m offset : Nat) (target : Block) :
    toList m (shift offset (blit data m offset target)) = toList m data := by
  refine toList_congr fun i hi => ?_
  have hin : offset ≤ offset + i ∧ offset + i < offset + m := by omega
  rw [shift, blit, if_pos hin, Nat.add_sub_cancel_left]

/-! ## Accesses -/

/-- An access to a block of `size` bytes. -/
structure Access where
  offset : Int
  length : Nat
  size : Nat
  deriving DecidableEq

namespace Access

/-- Every byte lies in the block. -/
def InBounds (a : Access) : Prop := a.length = 0 ∨ 0 ≤ a.offset ∧ a.offset + a.length ≤ a.size

/-- No byte is one of the `n` bytes from `offset` on. -/
def Misses (a : Access) (offset n : Nat) : Prop :=
  a.offset + a.length ≤ offset ∨ offset + n ≤ a.offset

instance (a : Access) : Decidable a.InBounds := inferInstanceAs (Decidable (_ ∨ _))

instance (a : Access) (offset n : Nat) : Decidable (a.Misses offset n) :=
  inferInstanceAs (Decidable (_ ∨ _))

end Access

end Cdroid.Lib.Blocks
