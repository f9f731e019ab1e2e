import Cdroid.Servicemanager.Bio
import Cdroid.Lib.Runs

/-! The reader of the service manager with its overflow flag. The cursor and what is left of the
data go together, and behind an overflow nothing is left. The size of a string is worked out in
32 bits, though, so a length near the end of them asks for next to nothing. -/

namespace Cdroid.Servicemanager
open Cdroid.Binder Cdroid.Runtime Cdroid.Lib

def BIO_F_SHARED : BitVec 32 := 0x01
def BIO_F_OVERFLOW : BitVec 32 := 0x02

/-- `binder_io` as it is read, with its `flags`. -/
structure reader_io where
  io : binder_io
  flags : BitVec 32

namespace reader_io

def initFromTxn (txn : binder_txn) : reader_io := ⟨bioInitFromTxn txn, BIO_F_SHARED⟩

/-- Has it run out of data? -/
def overflow (bio : reader_io) : Bool := bio.flags.getLsbD 1

/-- A read that comes back with null has set the flag. -/
def flagged (bio : reader_io) (r : Option Nat × binder_io) : Option Nat × reader_io :=
  match r with
  | (none, io) => (none, ⟨io, bio.flags ||| BIO_F_OVERFLOW⟩)
  | (some ptr, io) => (some ptr, { bio with io })

/-- `bio_get` -/
def get (bio : reader_io) (size : Nat) : Option Nat × reader_io :=
  bio.flagged (bioGet bio.io size)

/-- `_bio_get_obj` -/
def getObj (bio : reader_io) : Option Nat × reader_io := bio.flagged (bioGetObj bio.io)

/-- `bio_get_uint32` -/
def getUint32 (bio : reader_io) : Except Fault (BitVec 32 × reader_io) :=
  match bio.get 4 with
  | (none, bio) => pure (0, bio)
  | (some ptr, bio) => do
    let n ← readUint32 bio.io.data0 ptr
    pure (n, bio)

/-- `bio_get_string16`: the string and `*sz`. -/
def getString16 (bio : reader_io) : Except Fault (Option Nat × BitVec 32 × reader_io) := do
  let (len, bio) ← bio.getUint32
  let (s, bio) := bio.get (string16Size len)
  pure (s, len, bio)

/-- `bio_get_ref` -/
def getRef (bio : reader_io) : Except Fault (BitVec 32 × reader_io) :=
  match bio.getObj with
  | (none, bio) => pure (0, bio)
  | (some obj, bio) => do
    let type ← readUint32 bio.io.data0 obj
    if type = BINDER_TYPE_HANDLE then
      let pointer ← readUint32 bio.io.data0 (obj + 8)
      pure (pointer, bio)
    else pure (0, bio)

/-! ## Runs of reads -/

inductive Read
  | uint32
  | string16
  | ref
  deriving DecidableEq

/-- What a read returns. -/
inductive Value
  | uint32 (n : BitVec 32)
  | string16 (s : Option Nat) (len : BitVec 32)
  | ref (pointer : BitVec 32)
  deriving DecidableEq

/-- What a read returns when there is nothing. -/
def Read.nothing : Read → Value
  | .uint32 => .uint32 0
  | .string16 => .string16 none 0
  | .ref => .ref 0

def read (bio : reader_io) : Read → Except Fault (Value × reader_io)
  | .uint32 => do
    let (n, bio) ← bio.getUint32
    pure (.uint32 n, bio)
  | .string16 => do
    let (s, len, bio) ← bio.getString16
    pure (.string16 s len, bio)
  | .ref => do
    let (pointer, bio) ← bio.getRef
    pure (.ref pointer, bio)

def next (bio : reader_io) (r : Read) : Option reader_io :=
  match bio.read r with
  | .ok (_, bio) => some bio
  | .error _ => none

/-- The reads `rs` of the transaction lead to `bio`. -/
def Reached (txn : binder_txn) (rs : List Read) (bio : reader_io) : Prop :=
  Runs.after next rs (initFromTxn txn) = some bio

/-- The end of the remaining data. -/
def limit (bio : reader_io) : Nat := bio.io.data + bio.io.data_avail

/-- A string that is returned is there with its zero, the cursor and the data that is left add
up until there is an overflow, and after one, nothing is returned. -/
structure Sound (txn : binder_txn) (bio : reader_io) : Prop where
  string : ∀ s len bio', bio.getString16 = .ok (some s, len, bio') →
    s + (len.toNat + 1) * 2 ≤ bio.limit
  conserved : bio.overflow = false → bio.limit = txn.data.length
  exhausted : bio.overflow = true → ∀ r, ∃ bio', bio.read r = .ok (r.nothing, bio')

/-- The next word, taken for the length of a string, is not one whose size wraps to less than
what is left behind it. -/
def Fits (bio : reader_io) : Prop :=
  (word bio.io).toNat < 0x7ffffffe ∨
    bio.io.data_avail < 4 + roundUp (string16Size (word bio.io))

/-! ## One read -/

/-- What holds after any reads of `n` bytes. -/
structure Inv (n : Nat) (bio : reader_io) : Prop where
  valid : bio.io.Valid
  bound : bio.limit ≤ n
  conserved : bio.overflow = false → bio.limit = n
  exhausted : bio.overflow = true → bio.io.data_avail = 0

variable {n : Nat} {bio : reader_io}

theorem overflow_flagged (f : BitVec 32) : (f ||| BIO_F_OVERFLOW).getLsbD 1 = true := by
  rw [BitVec.getLsbD_or]
  exact Bool.or_true _

theorem Inv.init (txn : binder_txn) : Inv txn.data.length (initFromTxn txn) := by
  refine ⟨valid_init txn, ?_, fun _ => ?_, fun h => ?_⟩
  · simp [limit, initFromTxn, bioInitFromTxn]
  · simp [limit, initFromTxn, bioInitFromTxn]
  · have hflag : BIO_F_SHARED.getLsbD 1 = false := by decide
    rw [overflow, initFromTxn, hflag] at h
    cases h

/-- A read of a size keeps what holds: the cursor moves over what is taken, or nothing is
left. -/
theorem Inv.get (h : Inv n bio) (size : Nat) : Inv n (bio.get size).2 := by
  rw [reader_io.get]
  cases hget : bioGet bio.io size with
  | mk s io =>
    cases s with
    | none =>
      obtain ⟨_, rfl⟩ := bioGet_none hget
      have hvalid := h.valid
      have hbound := h.bound
      simp only [limit, binder_io.Valid] at hvalid hbound
      refine ⟨?_, ?_, ?_, fun _ => rfl⟩
      · simp only [flagged, binder_io.Valid]
        omega
      · simp only [flagged, limit]
        omega
      · intro hflag
        rw [overflow, flagged, overflow_flagged] at hflag
        cases hflag
    | some ptr =>
      obtain ⟨_, _, havail, rfl⟩ := bioGet_some h.valid hget
      have hlimit : (bio.flagged (some ptr, { bio.io with
          data := bio.io.data + roundUp size
          data_avail := bio.io.data_avail - roundUp size })).2.limit = bio.limit := by
        simp only [flagged, limit]
        omega
      refine ⟨?_, by rw [hlimit]; exact h.bound, fun hflag => ?_, fun hflag => ?_⟩
      · have hvalid := h.valid
        simp only [flagged, binder_io.Valid] at hvalid ⊢
        omega
      · rw [hlimit]
        exact h.conserved hflag
      · have hzero := h.exhausted hflag
        simp only [flagged]
        omega

theorem Inv.getObj (h : Inv n bio) : Inv n bio.getObj.2 := by
  rw [reader_io.getObj, bioGetObj]
  split
  · exact h.get 16
  · have hvalid := h.valid
    have hbound := h.bound
    simp only [limit, binder_io.Valid] at hvalid hbound
    refine ⟨?_, ?_, fun hflag => ?_, fun _ => rfl⟩
    · simp only [flagged, binder_io.Valid]
      omega
    · simp only [flagged, limit]
      omega
    · rw [overflow, flagged, overflow_flagged] at hflag
      cases hflag

theorem getUint32_eq (h : bio.io.Valid) : bio.getUint32 = .ok (word bio.io, (bio.get 4).2) := by
  have herase := bioGetUint32_eq h
  rw [bioGetUint32] at herase
  rw [getUint32, get]
  cases hget : bioGet bio.io 4 with
  | mk ptr io =>
    rw [hget] at herase
    cases ptr with
    | none =>
      have hword : (0, io) = (word bio.io, io) := Except.ok.inj herase
      simp only [flagged]
      rw [← (Prod.mk.inj hword).1]
      rfl
    | some ptr =>
      simp only [flagged]
      cases hread : readUint32 io.data0 ptr with
      | error fault =>
        simp only [hread] at herase
        cases herase
      | ok w =>
        simp only [hread] at herase
        have hword : (w, io) = (word bio.io, io) := Except.ok.inj herase
        rw [← (Prod.mk.inj hword).1]
        rfl

theorem getString16_eq (h : bio.io.Valid) : bio.getString16 =
    .ok (((bio.get 4).2.get (string16Size (word bio.io))).1, word bio.io,
      ((bio.get 4).2.get (string16Size (word bio.io))).2) := by
  rw [getString16, getUint32_eq h]
  rfl

theorem getRef_inv {pointer : BitVec 32} {bio' : reader_io} (h : Inv n bio)
    (hget : bio.getRef = .ok (pointer, bio')) : Inv n bio' := by
  have hobj := h.getObj
  rw [getRef] at hget
  cases hcase : bio.getObj with
  | mk obj b =>
    rw [hcase] at hobj hget
    cases obj with
    | none =>
      cases hget
      exact hobj
    | some obj =>
      simp only [bind, Except.bind] at hget
      split at hget
      · cases hget
      · split at hget
        · split at hget
          · cases hget
          · cases hget
            exact hobj
        · cases hget
          exact hobj

theorem next_inv {bio' : reader_io} {r : Read} (h : Inv n bio) (hn : bio.next r = some bio') :
    Inv n bio' := by
  cases r with
  | uint32 =>
    rw [next, read, getUint32_eq h.valid] at hn
    cases hn
    exact h.get 4
  | string16 =>
    rw [next, read, getString16_eq h.valid] at hn
    cases hn
    exact (h.get 4).get _
  | ref =>
    rw [next, read] at hn
    cases hget : bio.getRef with
    | error fault =>
      rw [hget] at hn
      cases hn
    | ok r =>
      rw [hget] at hn
      cases hn
      exact getRef_inv h hget

theorem inv_of_reached {txn : binder_txn} {rs : List Read} (h : Reached txn rs bio) :
    Inv txn.data.length bio :=
  Runs.after_inv (fun _ _ _ hinv hn => next_inv hinv hn) rs (.init txn) h

/-! ## Behind an overflow -/

theorem get_exhausted (h : bio.io.data_avail = 0) {size : Nat} (hsize : 0 < roundUp size) :
    (bio.get size).1 = none ∧ (bio.get size).2.io.data_avail = 0 := by
  have hget : bioGet bio.io size = (none, { bio.io with data_avail := 0 }) :=
    if_pos (by omega)
  rw [get, hget]
  exact ⟨rfl, rfl⟩

theorem getObj_exhausted (h : bio.io.data_avail = 0) : bio.getObj.1 = none := by
  rw [getObj, bioGetObj]
  split
  · exact (get_exhausted h (by decide)).1
  · rfl

theorem word_exhausted (h : bio.io.data_avail = 0) : word bio.io = 0 := if_pos (by omega)

theorem read_exhausted (hvalid : bio.io.Valid) (h : bio.io.data_avail = 0) (r : Read) :
    ∃ bio', bio.read r = .ok (r.nothing, bio') := by
  cases r with
  | uint32 =>
    rw [read, getUint32_eq hvalid, word_exhausted h]
    exact ⟨_, rfl⟩
  | string16 =>
    have hword := get_exhausted h (show 0 < roundUp 4 by decide)
    have hstring := get_exhausted hword.2 (show 0 < roundUp (string16Size 0) by decide)
    rw [read, getString16_eq hvalid, word_exhausted h, hstring.1]
    exact ⟨_, rfl⟩
  | ref =>
    have hobj := getObj_exhausted h
    rw [read, getRef]
    cases hcase : bio.getObj with
    | mk obj b =>
      rw [hcase] at hobj
      cases hobj
      exact ⟨_, rfl⟩

/-! ## Strings -/

theorem size_le_roundUp {len : BitVec 32} (h : len.toNat < 0x7ffffffe) :
    (len.toNat + 1) * 2 ≤ roundUp (string16Size len) := by
  unfold roundUp string16Size
  omega

/-- A string is returned within the limit exactly if it fits. -/
theorem string_iff (hinv : Inv n bio) (hn : n < 2 ^ 32) :
    (∀ s len bio', bio.getString16 = .ok (some s, len, bio') →
      s + (len.toNat + 1) * 2 ≤ bio.limit) ↔ bio.Fits := by
  have hbound := hinv.bound
  rw [getString16_eq hinv.valid, Fits]
  by_cases hword : bio.io.data_avail < 4
  · -- the length is not there, and neither is the string
    have hzero : word bio.io = 0 := if_pos hword
    have hget : bioGet bio.io 4 = (none, { bio.io with data_avail := 0 }) := if_pos hword
    have hnone : ((bio.get 4).2.get (string16Size (word bio.io))).1 = none := by
      rw [hzero]
      apply (get_exhausted ?_ (by decide)).1
      rw [get, hget]
      rfl
    rw [hnone]
    refine iff_of_true (fun s len bio' h => by cases h) (.inl ?_)
    rw [hzero]
    decide
  · have hget : bioGet bio.io 4 = (some bio.io.data, { bio.io with
        data := bio.io.data + 4
        data_avail := bio.io.data_avail - 4 }) := if_neg hword
    have hcursor : (bio.get 4).2.io = { bio.io with
        data := bio.io.data + 4
        data_avail := bio.io.data_avail - 4 } := by
      rw [get, hget]
      rfl
    have hstring : ((bio.get 4).2.get (string16Size (word bio.io))).1 =
        if bio.io.data_avail - 4 < roundUp (string16Size (word bio.io)) then none
        else some (bio.io.data + 4) := by
      rw [get, hcursor, bioGet]
      split <;> rfl
    rw [hstring]
    simp only [limit] at hbound ⊢
    by_cases hfit : bio.io.data_avail - 4 < roundUp (string16Size (word bio.io))
    · rw [if_pos hfit]
      exact iff_of_true (fun s len bio' h => by cases h) (.inr (by omega))
    · rw [if_neg hfit]
      constructor
      · intro h
        have hin := h _ _ _ rfl
        exact .inl (by omega)
      · rintro (hshort | hlong) s len bio' h
        · cases h
          have hle := size_le_roundUp hshort
          omega
        · omega

/-- For every transaction and every run of reads: the reader is sound in the state that is
reached exactly if the next word is not the length of a string whose size wraps to what fits. -/
theorem reader_sound_iff {txn : binder_txn} {rs : List Read} (h : Reached txn rs bio)
    (hsize : txn.data.length < 2 ^ 32) : Sound txn bio ↔ bio.Fits := by
  have hinv := inv_of_reached h
  constructor
  · exact fun hsound => (string_iff hinv hsize).mp hsound.string
  · intro hfits
    exact ⟨(string_iff hinv hsize).mpr hfits, hinv.conserved,
      fun hflag r => read_exhausted hinv.valid (hinv.exhausted hflag) r⟩

/-- A message of one word, that is taken for the length of a string. -/
def lengthOnly (len : BitVec 32) : binder_txn := ⟨0, 0, 0, wordBytes len, []⟩

theorem read_length : Sound (lengthOnly 1) (initFromTxn (lengthOnly 1)) ↔
    (initFromTxn (lengthOnly 1)).Fits :=
  reader_sound_iff (show Reached (lengthOnly 1) [] _ from rfl) (by decide)

/-- A string of all the characters there can be, in a message that ends with its length. -/
theorem wrapped_length : ¬ ∀ (txn : binder_txn) (rs : List Read) (bio : reader_io),
    Reached txn rs bio → txn.data.length < 2 ^ 32 → Sound txn bio := by
  intro h
  have hsound := h (lengthOnly 0xffffffff) [] _ rfl (by decide)
  have hin := hsound.string 4 0xffffffff _ rfl
  revert hin
  decide

end reader_io

end Cdroid.Servicemanager
