import Cdroid.Lib.Codec
import Cdroid.Runtime.Values
import Mathlib.Algebra.Group.Int.Defs

/-! `Parcel`: the bytes and the object table that a sequence of writes leaves, and the
reads over them. A write appends to the parcel, so it is what it appends. This is so as long
as there is memory for the parcel and no computation of a size wraps: that of `growData` can
from `0x55555556` bytes on. `Framing` connects it with the parcel of `Memory`. The word size is
the driver's, 32 bits. -/

namespace Cdroid.Binder
open Cdroid.Lib.Codec Cdroid.Runtime

/-! ## Chunks -/

/-- Bytes, and the offsets in them at which objects stand. -/
structure Chunk where
  bytes : List UInt8
  objects : List Nat
  deriving DecidableEq

namespace Chunk

def append (c d : Chunk) : Chunk :=
  ⟨c.bytes ++ d.bytes, c.objects ++ d.objects.map fun o => c.bytes.length + o⟩

instance : Add Chunk := ⟨append⟩

instance : Zero Chunk := ⟨⟨[], []⟩⟩

@[simp] theorem bytes_zero : (0 : Chunk).bytes = [] := rfl

@[simp] theorem objects_zero : (0 : Chunk).objects = [] := rfl

@[simp] theorem bytes_add (c d : Chunk) : (c + d).bytes = c.bytes ++ d.bytes := rfl

@[simp] theorem objects_add (c d : Chunk) :
    (c + d).objects = c.objects ++ d.objects.map fun o => c.bytes.length + o := rfl

@[ext] theorem ext {c d : Chunk} (hb : c.bytes = d.bytes) (ho : c.objects = d.objects) : c = d := by
  cases c
  cases d
  cases hb
  cases ho
  rfl

instance : AddMonoid Chunk where
  add_assoc c d e := by ext1 <;> simp [Nat.add_assoc, Function.comp_def]
  zero_add c := by ext1 <;> simp
  add_zero c := by ext1 <;> simp
  nsmul := nsmulRec

/-- The offsets lie inside the bytes. -/
def Valid (c : Chunk) : Prop := ∀ o ∈ c.objects, o < c.bytes.length

theorem Valid.add {c d : Chunk} (hc : c.Valid) (hd : d.Valid) : (c + d).Valid := by
  intro o ho
  rw [objects_add, List.mem_append, List.mem_map] at ho
  rw [bytes_add, List.length_append]
  rcases ho with ho | ⟨i, hi, rfl⟩
  · have := hc o ho
    omega
  · have := hd i hi
    omega

end Chunk

/-! ## Words -/

/-- The four bytes of a word, the lowest first. -/
def wordBytes (v : BitVec 32) : List UInt8 :=
  [v.toNat.toUInt8, (v.toNat / 256).toUInt8, (v.toNat / 65536).toUInt8,
    (v.toNat / 16777216).toUInt8]

/-- The word in the first four bytes. -/
def wordOf (bytes : List UInt8) : BitVec 32 :=
  BitVec.ofNat 32 ((bytes.getD 0 0).toNat + 256 * (bytes.getD 1 0).toNat +
    65536 * (bytes.getD 2 0).toNat + 16777216 * (bytes.getD 3 0).toNat)

@[simp] theorem length_wordBytes (v : BitVec 32) : (wordBytes v).length = 4 := rfl

theorem wordOf_wordBytes (v : BitVec 32) (rest : List UInt8) :
    wordOf (wordBytes v ++ rest) = v := by
  apply BitVec.eq_of_toNat_eq
  have hv := v.isLt
  simp only [wordOf, wordBytes, List.cons_append, List.getD_cons_zero, List.getD_cons_succ,
    Nat.toUInt8_eq, UInt8.toNat_ofNat', BitVec.toNat_ofNat]
  omega

/-- `PAD_SIZE` -/
def padSize (n : Nat) : Nat := (n + 3) / 4 * 4

/-- The bytes, with zeroes up to the next multiple of four. -/
def padded (bytes : List UInt8) : List UInt8 :=
  bytes ++ List.replicate (padSize bytes.length - bytes.length) 0

theorem length_padded (bytes : List UInt8) : (padded bytes).length = padSize bytes.length := by
  rw [padded, List.length_append, List.length_replicate]
  unfold padSize
  omega

/-! ## Binders -/

/-- The address of a local binder object. -/
def Address : Type := { a : BitVec 32 // a ≠ 0 }

instance : DecidableEq Address := inferInstanceAs (DecidableEq { a : BitVec 32 // a ≠ 0 })

/-- An `IBinder` of a process: an object of its own, or the proxy of a handle. -/
inductive IBinder
  | local (a : Address)
  | proxy (handle : BitVec 32)
  deriving DecidableEq

/-- `BINDER_TYPE_BINDER` and `BINDER_TYPE_HANDLE` -/
def BINDER_TYPE_BINDER : BitVec 32 := 0x73622a85
def BINDER_TYPE_HANDLE : BitVec 32 := 0x73682a85

/-- `0x7f | FLAT_BINDER_FLAG_ACCEPTS_FDS` -/
def FLAT_BINDER_FLAGS : BitVec 32 := 0x17f

/-- The second member is `binder` or `handle`. -/
structure flat_binder_object where
  type : BitVec 32
  flags : BitVec 32
  binder : BitVec 32
  cookie : BitVec 32

namespace flat_binder_object

def bytes (f : flat_binder_object) : List UInt8 :=
  wordBytes f.type ++ (wordBytes f.flags ++ (wordBytes f.binder ++ wordBytes f.cookie))

def ofBytes (bytes : List UInt8) : flat_binder_object :=
  ⟨wordOf bytes, wordOf (bytes.drop 4), wordOf (bytes.drop 8), wordOf (bytes.drop 12)⟩

theorem ofBytes_bytes (f : flat_binder_object) (rest : List UInt8) :
    ofBytes (f.bytes ++ rest) = f := by
  simp only [ofBytes, bytes, List.append_assoc]
  rw [wordOf_wordBytes, List.drop_left' (length_wordBytes _)]
  rw [show (8 : Nat) = 4 + 4 from rfl, show (12 : Nat) = 4 + 4 + 4 from rfl]
  simp only [← List.drop_drop]
  rw [List.drop_left' (length_wordBytes _), wordOf_wordBytes, List.drop_left' (length_wordBytes _),
    wordOf_wordBytes, List.drop_left' (length_wordBytes _), wordOf_wordBytes]

end flat_binder_object

/-! ## Writing -/

def writeInt32 (val : BitVec 32) : Chunk := ⟨wordBytes val, []⟩

/-- `write(data, len)` -/
def write (data : List UInt8) : Chunk := ⟨padded data, []⟩

/-- The length is stored as an `int32_t`; nothing follows an empty string. -/
def writeString8 (str : String8) : Chunk :=
  if str = [] then writeInt32 0 else writeInt32 (BitVec.ofNat 32 str.length) + write (str ++ [0])

/-- The characters of a `String16`. -/
abbrev String16 := List (BitVec 16)

/-- `String16(o)` of an ASCII literal. -/
def String16.ofAscii (s : String8) : String16 := s.map fun c => c.toBitVec.zeroExtend 16

def charBytes (c : BitVec 16) : List UInt8 := [c.toNat.toUInt8, (c.toNat / 256).toUInt8]

def writeString16 (str : String16) : Chunk :=
  writeInt32 (BitVec.ofNat 32 str.length) + write (str.flatMap charBytes ++ [0, 0])

/-- `writeObject(val, false)`: an object with a zero second member is not entered in
the table. -/
def writeObject (val : flat_binder_object) : Chunk :=
  ⟨val.bytes, if val.binder ≠ 0 then [0] else []⟩

def STRICT_MODE_PENALTY_GATHER : BitVec 32 := 0x100

/-- `strictModePolicy` is the writing thread's. -/
def writeInterfaceToken (strictModePolicy : BitVec 32) (interface : String16) : Chunk :=
  writeInt32 (strictModePolicy ||| STRICT_MODE_PENALTY_GATHER) + writeString16 interface

/-- `writeInt32` of a flag, 1 or 0. -/
def writeBool (b : Bool) : Chunk := writeInt32 (if b then 1 else 0)

/-- The object that `flatten_binder` makes. `getWeakRefs` gives the address of a local
binder's reference counts. -/
def flattenBinder (getWeakRefs : Address → Address) : Option IBinder → flat_binder_object
  | none => ⟨BINDER_TYPE_BINDER, FLAT_BINDER_FLAGS, 0, 0⟩
  | some (.local a) => ⟨BINDER_TYPE_BINDER, FLAT_BINDER_FLAGS, (getWeakRefs a).1, a.1⟩
  | some (.proxy handle) => ⟨BINDER_TYPE_HANDLE, FLAT_BINDER_FLAGS, handle, 0⟩

def writeStrongBinder (getWeakRefs : Address → Address) (val : Option IBinder) : Chunk :=
  writeObject (flattenBinder getWeakRefs val)

/-! ## Reading -/

structure Parcel where
  mData : List UInt8
  mObjects : List Nat
  mDataPos : Nat
  mNextObjectHint : Nat

/-- A parcel with what was written, as its receiver gets it. -/
def Parcel.received (c : Chunk) : Parcel := ⟨c.bytes, c.objects, 0, 0⟩

abbrev Read := Reader Parcel

/-- `readAligned<int32_t>`: 0 if there are not four bytes left. -/
def readInt32 : Read (BitVec 32) := fun p =>
  if p.mDataPos + 4 ≤ p.mData.length then
    (wordOf (p.mData.drop p.mDataPos), { p with mDataPos := p.mDataPos + 4 })
  else (0, p)

def readInplace (len : Nat) : Read (Option (List UInt8)) := fun p =>
  if p.mDataPos + padSize len ≤ p.mData.length then
    (some ((p.mData.drop p.mDataPos).take len), { p with mDataPos := p.mDataPos + padSize len })
  else (none, p)

def INT32_MAX : Int := 2 ^ 31 - 1

def readString8 : Read String8 := do
  let size ← readInt32
  if 0 < size.toInt ∧ size.toInt < INT32_MAX then
    match ← readInplace (size.toNat + 1) with
    | some str => pure (str.take size.toNat)
    | none => pure []
  else pure []

/-- The characters in pairs of bytes. -/
def charsOf : Nat → List UInt8 → String16
  | 0, _ => []
  | n + 1, bytes =>
    BitVec.ofNat 16 ((bytes.getD 0 0).toNat + 256 * (bytes.getD 1 0).toNat) ::
      charsOf n (bytes.drop 2)

def readString16 : Read String16 := do
  let size ← readInt32
  if 0 ≤ size.toInt ∧ size.toInt < INT32_MAX then
    match ← readInplace ((size.toNat + 1) * 2) with
    | some str => pure (charsOf size.toNat str)
    | none => pure []
  else pure []

/-- From the index `opos` forward to an offset that is not below `dpos`, or the last. -/
def searchForward (objs : List Nat) (dpos : Nat) : Nat → Nat → Nat
  | 0, opos => opos
  | n + 1, opos =>
    if opos < objs.length - 1 ∧ objs.getD opos 0 < dpos then searchForward objs dpos n (opos + 1)
    else opos

/-- From the index `opos` back to an offset that is not above `dpos`, or the first. -/
def searchBackward (objs : List Nat) (dpos : Nat) : Nat → Nat
  | 0 => 0
  | opos + 1 =>
    if dpos < objs.getD (opos + 1) 0 then searchBackward objs dpos opos else opos + 1

/-- The index of `dpos` in the object table, looked for from the hint. -/
def findObject (objs : List Nat) (hint dpos : Nat) : Option Nat :=
  if objs.length = 0 then none
  else
    let opos := if hint < objs.length then searchForward objs dpos objs.length hint
      else objs.length - 1
    if objs.getD opos 0 = dpos then some opos
    else
      let opos := searchBackward objs dpos opos
      if objs.getD opos 0 = dpos then some opos else none

/-- `readObject(false)` -/
def readObject : Read (Option flat_binder_object) := fun p =>
  if p.mDataPos + 16 ≤ p.mData.length then
    let obj := flat_binder_object.ofBytes (p.mData.drop p.mDataPos)
    let p' := { p with mDataPos := p.mDataPos + 16 }
    if obj.cookie = 0 ∧ obj.binder = 0 then (some obj, p')
    else match findObject p.mObjects p.mNextObjectHint p.mDataPos with
      | some opos => (some obj, { p' with mNextObjectHint := opos + 1 })
      | none => (none, p')
  else (none, p)

/-- `unflatten_binder`: a cookie is the object's address. -/
def unflattenBinder : Option flat_binder_object → Option IBinder
  | some flat =>
    if flat.type = BINDER_TYPE_BINDER then
      if h : flat.cookie ≠ 0 then some (.local ⟨flat.cookie, h⟩) else none
    else if flat.type = BINDER_TYPE_HANDLE then some (.proxy flat.binder)
    else none
  | none => none

def readStrongBinder : Read (Option IBinder) := do
  let flat ← readObject
  pure (unflattenBinder flat)

def EX_HAS_REPLY_HEADER : BitVec 32 := -128

/-- A reply header is skipped by setting the position, which resets the hint. -/
def skipReplyHeader : Read (BitVec 32) := fun p =>
  let header_start := BitVec.ofNat 32 p.mDataPos
  let header_size := (readInt32 p).1
  (0, { p with mDataPos := (header_start + header_size).toNat, mNextObjectHint := 0 })

def readExceptionCode : Read (BitVec 32) := do
  let exception_code ← readInt32
  if exception_code = EX_HAS_REPLY_HEADER then skipReplyHeader else pure exception_code

/-- `CHECK_INTERFACE`: the strict mode policy, and the name of the interface. -/
def checkInterface (interface : String16) : Read Bool := do
  let _ ← readInt32
  let str ← readString16
  pure (str = interface)

end Cdroid.Binder
