import Cdroid.Binder.Codecs

/-! The sum of the bytes that are written, and of those that are read. -/

namespace Cdroid.Binder
open Cdroid.Lib.Codec Cdroid.Runtime

def byteSum (bytes : List UInt8) : Nat := (bytes.map UInt8.toNat).sum

theorem byteSum_append (l l' : List UInt8) : byteSum (l ++ l') = byteSum l + byteSum l' := by
  rw [byteSum, List.map_append, List.sum_append]
  rfl

theorem byteSum_take_drop (bytes : List UInt8) (n : Nat) :
    byteSum (bytes.take n) + byteSum (bytes.drop n) = byteSum bytes := by
  rw [← byteSum_append, List.take_append_drop]

def Chunk.weight (c : Chunk) : Nat := byteSum c.bytes

@[simp] theorem Chunk.weight_add (c d : Chunk) : (c + d).weight = c.weight + d.weight := by
  rw [weight, bytes_add, byteSum_append]
  rfl

theorem Chunk.weight_sum (l : List Chunk) : l.sum.weight = (l.map weight).sum := by
  induction l with
  | nil => rfl
  | cons c l ih => rw [List.sum_cons, weight_add, ih, List.map_cons, List.sum_cons]

/-- A write that cannot be made weighs nothing. -/
def weightOf (c : Option Chunk) : Nat := c.elim 0 Chunk.weight

theorem weight_writeAll {α : Type} {w : α → Option Chunk} {l : List α} {c : Chunk}
    (h : writeAll w l = some c) : c.weight = (l.map fun a => weightOf (w a)).sum := by
  induction l generalizing c with
  | nil =>
    cases h
    rfl
  | cons a l ih =>
    obtain ⟨c', hc, d, hd, rfl⟩ := andThen_eq_some.mp h
    rw [Chunk.weight_add, ih hd, List.map_cons, List.sum_cons, hc]
    rfl

/-- The bytes that are left to read. -/
def Parcel.rest (p : Parcel) : Nat := byteSum (p.mData.drop p.mDataPos)

theorem At.rest {p : Parcel} {pre c : Chunk} (h : At p pre (c + 0)) : p.rest = c.weight := by
  rw [Parcel.rest, h.drop, Chunk.bytes_zero, List.append_nil]
  rfl

theorem rest_skip (p : Parcel) (n hint : Nat) :
    byteSum ((p.mData.drop p.mDataPos).take n) +
      Parcel.rest { p with mDataPos := p.mDataPos + n, mNextObjectHint := hint } = p.rest := by
  rw [Parcel.rest, Parcel.rest, ← List.drop_drop]
  exact byteSum_take_drop _ n

/-! ## Words -/

theorem wordBytes_wordOf {bytes : List UInt8} (h : 4 ≤ bytes.length) :
    wordBytes (wordOf bytes) = bytes.take 4 := by
  match bytes, h with
  | a :: b :: c :: d :: bytes, _ =>
    have ha := a.toNat_lt
    have hb := b.toNat_lt
    have hc := c.toNat_lt
    have hd := d.toNat_lt
    have hword : (wordOf (a :: b :: c :: d :: bytes)).toNat =
        a.toNat + 256 * b.toNat + 65536 * c.toNat + 16777216 * d.toNat := by
      simp only [wordOf, List.getD_cons_zero, List.getD_cons_succ, BitVec.toNat_ofNat]
      omega
    simp only [wordBytes, hword, List.take_succ_cons, List.take_zero, List.cons.injEq, and_true,
      ← UInt8.toNat_inj, Nat.toUInt8_eq, UInt8.toNat_ofNat']
    omega

theorem weight_int32_pos {v : BitVec 32} (h : v ≠ 0) : 0 < (writeInt32 v).weight := by
  have hlt := v.isLt
  have hpos : v.toNat ≠ 0 := fun hz => h (BitVec.eq_of_toNat_eq hz)
  simp only [Chunk.weight, byteSum, writeInt32, wordBytes, List.map_cons, List.map_nil,
    List.sum_cons, List.sum_nil, Nat.toUInt8_eq, UInt8.toNat_ofNat']
  by_contra hsum
  obtain ⟨h0, h1, h2, h3⟩ : v.toNat % 2 ^ 8 = 0 ∧ v.toNat / 256 % 2 ^ 8 = 0 ∧
      v.toNat / 65536 % 2 ^ 8 = 0 ∧ v.toNat / 16777216 % 2 ^ 8 = 0 := by omega
  omega

@[simp] theorem weight_int32_zero : (writeInt32 0).weight = 0 := rfl

theorem weighs_int32 : Weighs Parcel.rest readInt32 fun v => (writeInt32 v).weight := by
  intro p
  rw [readInt32]
  split
  · next h =>
    have hlen : 4 ≤ (p.mData.drop p.mDataPos).length := by
      rw [List.length_drop]
      omega
    have := rest_skip p 4 p.mNextObjectHint
    rw [← wordBytes_wordOf hlen] at this
    exact Nat.le_of_eq this
  · show (writeInt32 0).weight + p.rest ≤ p.rest
    rw [weight_int32_zero]
    omega

/-! ## Strings -/

theorem weight_write (data : List UInt8) : (write data).weight = byteSum data := by
  show byteSum (data ++ List.replicate _ 0) = _
  rw [byteSum_append]
  simp [byteSum]

@[simp] theorem weight_string8_nil : (writeString8 []).weight = 0 := rfl

theorem weight_string8 (str : String8) :
    (writeString8 str).weight = (writeInt32 (BitVec.ofNat 32 str.length)).weight + byteSum str := by
  rw [writeString8]
  split
  · next h => rw [h]; rfl
  · rw [Chunk.weight_add, weight_write, byteSum_append]
    rfl

/-- A buffer that is not there weighs nothing. -/
theorem weighs_inplace (len : Nat) :
    Weighs Parcel.rest (readInplace len) fun buf => byteSum (buf.getD []) := by
  intro p
  rw [readInplace]
  split
  · have hskip := rest_skip p (padSize len) p.mNextObjectHint
    have hmin : min len (padSize len) = len := by
      unfold padSize
      omega
    have hpad := byteSum_take_drop ((p.mData.drop p.mDataPos).take (padSize len)) len
    rw [List.take_take, hmin] at hpad
    show byteSum ((p.mData.drop p.mDataPos).take len) +
      Parcel.rest { p with mDataPos := p.mDataPos + padSize len } ≤ p.rest
    omega
  · show byteSum [] + p.rest ≤ p.rest
    rw [byteSum, List.map_nil, List.sum_nil]
    omega

theorem length_readInplace {len : Nat} {p : Parcel} {buf : List UInt8}
    (h : (readInplace len p).1 = some buf) : buf.length = len := by
  rw [readInplace] at h
  split at h
  · next hle =>
    cases h
    rw [List.length_take, List.length_drop]
    unfold padSize at hle
    omega
  · cases h

theorem weighs_string8 : Weighs Parcel.rest readString8 fun str => (writeString8 str).weight := by
  refine weighs_int32.bind fun p => ?_
  generalize (readInt32 p).1 = size
  split
  · refine (weighs_inplace (size.toNat + 1)).bind fun p => ?_
    cases hbuf : (readInplace (size.toNat + 1) p).1 with
    | none => exact .pure (by simp)
    | some buf =>
      refine .pure ?_
      have hlen : (buf.take size.toNat).length = size.toNat := by
        rw [List.length_take, length_readInplace hbuf]
        omega
      have htake := byteSum_take_drop buf size.toNat
      rw [weight_string8, hlen, BitVec.ofNat_toNat, BitVec.setWidth_eq, Option.getD_some]
      omega
  · exact .pure (by simp)

end Cdroid.Binder
