import Cdroid.Binder.Parcel

/-! `binder_io` of the service manager: a cursor over the data and the offsets of a
transaction, and one over the buffer of a reply. A pointer into the data is the offset
there, or null. An access through null or outside of what was received is a fault. -/

namespace Cdroid.Servicemanager
open Cdroid.Binder Cdroid.Runtime

inductive Fault
  | null
  | outOfBounds
  deriving DecidableEq

/-! ## Memory -/

def readUint32 (d : List UInt8) (p : Nat) : Except Fault (BitVec 32) :=
  if p + 4 ≤ d.length then .ok (wordOf (d.drop p)) else .error .outOfBounds

/-- The 16-bit character at `p`. -/
def charAt (d : List UInt8) (p : Nat) : BitVec 16 :=
  BitVec.ofNat 16 (((d.drop p).getD 0 0).toNat + 256 * ((d.drop p).getD 1 0).toNat)

def readUint16 (d : List UInt8) (p : Nat) : Except Fault (BitVec 16) :=
  if p + 2 ≤ d.length then .ok (charAt d p) else .error .outOfBounds

/-- The `n` characters from `p` on. -/
def chars (d : List UInt8) (p n : Nat) : String16 := charsOf n (d.drop p)

theorem chars_succ (d : List UInt8) (p n : Nat) :
    chars d p (n + 1) = charAt d p :: chars d (p + 2) n := by
  rw [chars, charsOf, List.drop_drop]
  rfl

theorem length_chars (d : List UInt8) (p n : Nat) : (chars d p n).length = n := by
  induction n generalizing p with
  | zero => rfl
  | succ n ih => rw [chars_succ, List.length_cons, ih]

theorem getElem?_chars (d : List UInt8) (p : Nat) {n k : Nat} (hk : k < n) :
    (chars d p n)[k]? = some (charAt d (p + 2 * k)) := by
  induction n generalizing p k with
  | zero => omega
  | succ n ih =>
    rw [chars_succ]
    cases k with
    | zero => rfl
    | succ k =>
      rw [List.getElem?_cons_succ, ih (p + 2) (by omega)]
      congr 2
      omega

/-- Is `!memcmp(s, b, 2 * b.length)`? -/
def memEq (d : List UInt8) (s : Option Nat) (b : String16) : Except Fault Bool :=
  match s with
  | none => .error .null
  | some p =>
    if p + 2 * b.length ≤ d.length then .ok (chars d p b.length = b) else .error .outOfBounds

/-! ## Reading -/

/-- `offs` are the entries of the offsets table, `offs_avail` of them. -/
structure binder_io where
  data0 : List UInt8
  data : Nat
  data_avail : Nat
  offs : List (BitVec 32)

structure binder_txn where
  target : BitVec 32
  code : BitVec 32
  sender_euid : Nat
  data : List UInt8
  offs : List (BitVec 32)

def bioInitFromTxn (txn : binder_txn) : binder_io := ⟨txn.data, 0, txn.data.length, txn.offs⟩

/-- `(size + 3) & (~3)` of a `uint32_t` -/
def roundUp (size : Nat) : Nat := (size + 3) % 2 ^ 32 / 4 * 4

def bioGet (bio : binder_io) (size : Nat) : Option Nat × binder_io :=
  if bio.data_avail < roundUp size then (none, { bio with data_avail := 0 })
  else (some bio.data, { bio with
    data := bio.data + roundUp size
    data_avail := bio.data_avail - roundUp size })

def bioGetUint32 (bio : binder_io) : Except Fault (BitVec 32 × binder_io) :=
  match bioGet bio 4 with
  | (none, bio) => pure (0, bio)
  | (some ptr, bio) => do
    let n ← readUint32 bio.data0 ptr
    pure (n, bio)

/-- The bytes of a string of this length, as a `uint32_t`. -/
def string16Size (len : BitVec 32) : Nat := (len.toNat + 1) * 2 % 2 ^ 32

/-- The string and `*sz`. -/
def bioGetString16 (bio : binder_io) : Except Fault (Option Nat × BitVec 32 × binder_io) := do
  let (len, bio) ← bioGetUint32 bio
  let (s, bio) := bioGet bio (string16Size len)
  pure (s, len, bio)

/-- `_bio_get_obj` -/
def bioGetObj (bio : binder_io) : Option Nat × binder_io :=
  if bio.offs.any fun off => off.toNat = bio.data then bioGet bio 16
  else (none, { bio with data_avail := 0 })

/-- The object's `pointer`, of a handle. -/
def bioGetRef (bio : binder_io) : Except Fault (BitVec 32 × binder_io) :=
  match bioGetObj bio with
  | (none, bio) => pure (0, bio)
  | (some obj, bio) => do
    let type ← readUint32 bio.data0 obj
    if type = BINDER_TYPE_HANDLE then
      let pointer ← readUint32 bio.data0 (obj + 8)
      pure (pointer, bio)
    else pure (0, bio)

/-! ## Writing -/

/-- `data0` is the whole buffer, of which the first `data` bytes are written. -/
structure reply_io where
  data0 : List UInt8
  data : Nat
  data_avail : Nat
  offs : List Nat
  offs_avail : Nat
  deriving DecidableEq

/-- `bio_init` with `rdata`, 64 words of the stack, and four offsets. -/
def bioInit (rdata : List UInt8) : reply_io := ⟨rdata, 0, 240, [], 4⟩

def store (d : List UInt8) (p : Nat) (bytes : List UInt8) : List UInt8 :=
  d.take p ++ (bytes ++ d.drop (p + bytes.length))

def bioAlloc (bio : reply_io) (size : Nat) : Option Nat × reply_io :=
  if bio.data_avail < roundUp size then (none, bio)
  else (some bio.data, { bio with
    data := bio.data + roundUp size
    data_avail := bio.data_avail - roundUp size })

def bioPutUint32 (bio : reply_io) (n : BitVec 32) : reply_io :=
  match bioAlloc bio 4 with
  | (none, bio) => bio
  | (some ptr, bio) => { bio with data0 := store bio.data0 ptr (wordBytes n) }

/-- `bio_alloc_obj` -/
def bioAllocObj (bio : reply_io) : Option Nat × reply_io :=
  match bioAlloc bio 16 with
  | (none, bio) => (none, bio)
  | (some obj, bio) =>
    if bio.offs_avail = 0 then (none, bio)
    else (some obj, { bio with offs := bio.offs ++ [obj], offs_avail := bio.offs_avail - 1 })

def bioPutRef (bio : reply_io) (ptr : BitVec 32) : reply_io :=
  match if ptr = 0 then bioAlloc bio 16 else bioAllocObj bio with
  | (none, bio) => bio
  | (some obj, bio) => { bio with
      data0 := store bio.data0 obj
        (flat_binder_object.bytes ⟨BINDER_TYPE_HANDLE, FLAT_BINDER_FLAGS, ptr, 0⟩) }

/-- `str` up to its first zero, with a zero behind it. The name of a service is no null pointer, and
is not of `MAX_BIO_SIZE`: both branches for that are left out. -/
def bioPutString16 (bio : reply_io) (str : String16) : reply_io :=
  let str := str.takeWhile fun c => c ≠ 0
  let bio := bioPutUint32 bio (BitVec.ofNat 32 str.length)
  match bioAlloc bio ((str.length + 1) * 2) with
  | (none, bio) => bio
  | (some ptr, bio) =>
    { bio with data0 := store bio.data0 ptr ((str ++ [0]).flatMap charBytes) }

/-! ## What the reads find -/

/-- The cursor has only what was received in front of it. -/
def binder_io.Valid (bio : binder_io) : Prop := bio.data + bio.data_avail ≤ bio.data0.length

theorem valid_init (txn : binder_txn) : (bioInitFromTxn txn).Valid := by
  simp [bioInitFromTxn, binder_io.Valid]

/-- What is there is all in front of the cursor. -/
theorem bioGet_some {bio bio' : binder_io} (h : bio.Valid) {size p : Nat}
    (hget : bioGet bio size = (some p, bio')) :
    p = bio.data ∧ p + roundUp size ≤ bio.data0.length ∧ roundUp size ≤ bio.data_avail ∧
      bio' = { bio with
        data := bio.data + roundUp size
        data_avail := bio.data_avail - roundUp size } := by
  unfold binder_io.Valid at h
  unfold bioGet at hget
  split at hget
  · cases hget
  · next havail =>
    cases hget
    exact ⟨rfl, by omega, by omega, rfl⟩

theorem bioGet_none {bio bio' : binder_io} {size : Nat} (hget : bioGet bio size = (none, bio')) :
    bio.data_avail < roundUp size ∧ bio' = { bio with data_avail := 0 } := by
  unfold bioGet at hget
  split at hget
  · next havail =>
    cases hget
    exact ⟨havail, rfl⟩
  · cases hget

theorem roundUp_four : roundUp 4 = 4 := rfl

theorem roundUp_sixteen : roundUp 16 = 16 := rfl

/-- The word and the cursor behind it. -/
def word (bio : binder_io) : BitVec 32 :=
  if bio.data_avail < 4 then 0 else wordOf (bio.data0.drop bio.data)

/-- A word is read in front of the cursor, or is 0. -/
theorem bioGetUint32_eq {bio : binder_io} (h : bio.Valid) :
    bioGetUint32 bio = .ok (word bio, (bioGet bio 4).2) := by
  unfold bioGetUint32 word
  split
  · next bio' hget =>
    obtain ⟨havail, rfl⟩ := bioGet_none hget
    rw [roundUp_four] at havail
    rw [if_pos havail, hget]
    rfl
  · next ptr bio' hget =>
    obtain ⟨rfl, hin, havail, rfl⟩ := bioGet_some h hget
    rw [roundUp_four] at hin havail
    rw [if_neg (by omega), hget]
    simp only [readUint32, hin, if_true]
    rfl

end Cdroid.Servicemanager
