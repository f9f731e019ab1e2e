import Cdroid.Binder.Memory
import Cdroid.Lib.Trace

/-! The reads of a received parcel over its memory: which bytes each of them looks at, and
where it leaves the position. Lengths and sizes come with the data; sums of sizes wrap. -/

namespace Cdroid.Binder.Memory
open Cdroid.Lib.Blocks Cdroid.Lib.Runs Cdroid.Lib.Trace Cdroid.Lib.Trace.Traced

/-- The data and the object table of a parcel that has been received. The bytes have
32-bit addresses, none of which is in the first page. -/
structure Received where
  mData : Block
  mDataSize : size_t
  mObjects : List size_t
  addressable : mDataSize.toNat + 4096 ≤ 2 ^ 32

/-- What a read changes. -/
structure Cursor where
  mDataPos : size_t
  mNextObjectHint : Nat
  deriving DecidableEq

abbrev Read := Traced Access Cursor

namespace Received

variable (d : Received)

/-! ## Words and bytes -/

/-- The bytes are looked at. -/
def look (offset length : Nat) : Read Unit := emit ⟨offset, length, d.mDataSize.toNat⟩

def bytesAt (offset length : Nat) : List UInt8 := (List.range length).map (shift offset d.mData)

/-- For a type of `size` bytes; the result is where they are. -/
def readAligned (size : size_t) : Read (Option size_t) := do
  let c ← get
  if c.mDataPos + size ≤ d.mDataSize then
    d.look c.mDataPos.toNat size.toNat
    set { c with mDataPos := c.mDataPos + size }
    pure (some c.mDataPos)
  else pure none

/-- `none` is read as 0 by those who do not ask for the status. -/
def readInt32 : Read (Option (BitVec 32)) := do
  let data ← d.readAligned 4
  pure (data.map fun data => wordAt d.mData data.toNat)

def readInt64 : Read (Option (BitVec 64)) := do
  let data ← d.readAligned 8
  pure (data.map fun data => wordAt d.mData (data.toNat + 4) ++ wordAt d.mData data.toNat)

/-- The guard of `read` and `readInplace`. -/
def Padded (len : size_t) (c : Cursor) : Prop :=
  c.mDataPos ≤ c.mDataPos + PAD_SIZE len ∧ c.mDataPos + PAD_SIZE len ≤ d.mDataSize

instance (len : size_t) (c : Cursor) : Decidable (d.Padded len c) :=
  inferInstanceAs (Decidable (_ ∧ _))

def read (len : size_t) : Read (Option Block) := do
  let c ← get
  if d.Padded len c then
    d.look c.mDataPos.toNat len.toNat
    set { c with mDataPos := c.mDataPos + PAD_SIZE len }
    pure (some (shift c.mDataPos.toNat d.mData))
  else pure none

/-- Nothing is looked at; the result is where the bytes are. -/
def readInplace (len : size_t) : Read (Option size_t) := do
  let c ← get
  if d.Padded len c then
    set { c with mDataPos := c.mDataPos + PAD_SIZE len }
    pure (some c.mDataPos)
  else pure none

/-! ## Strings -/

/-- How far the first of the `n` bytes from `offset` on that is zero is from there. -/
def memchr (data : Block) : Nat → Nat → Option Nat
  | _, 0 => none
  | offset, n + 1 =>
    if data offset = 0 then some 0 else (memchr data (offset + 1) n).map (· + 1)

def readCString : Read (Option size_t) := do
  let c ← get
  let avail := d.mDataSize - c.mDataPos
  if 0 < avail then
    match memchr d.mData c.mDataPos.toNat avail.toNat with
    | some len =>
      d.look c.mDataPos.toNat (len + 1)
      set { c with mDataPos := c.mDataPos + PAD_SIZE (BitVec.ofNat 32 (len + 1)) }
      pure (some c.mDataPos)
    | none =>
      d.look c.mDataPos.toNat avail.toNat
      pure none
  else pure none

/-- `none` is an empty string. -/
def readString8 : Read (Option (List UInt8)) := do
  let size := (← d.readInt32).getD 0
  if 0 < size.toInt ∧ size.toInt < INT32_MAX then
    match ← d.readInplace (size + 1) with
    | some str =>
      d.look str.toNat size.toNat
      pure (some (d.bytesAt str.toNat size.toNat))
    | none => pure none
  else pure none

/-- Where the characters are, and how many. -/
def readString16Inplace : Read (Option (size_t × size_t)) := do
  let size := (← d.readInt32).getD 0
  if 0 ≤ size.toInt ∧ size.toInt < INT32_MAX then
    match ← d.readInplace ((size + 1) * 2) with
    | some str => pure (some (str, size))
    | none => pure none
  else pure none

def readString16 : Read (Option String16) := do
  match ← d.readString16Inplace with
  | some (str, len) =>
    d.look str.toNat (2 * len.toNat)
    pure (some (charsOf len.toNat (d.bytesAt str.toNat (2 * len.toNat))))
  | none => pure none

/-! ## Objects -/

def readObject (nullMetaData : Bool) : Read (Option flat_binder_object) := do
  let c ← get
  if c.mDataPos + 16 ≤ d.mDataSize then
    d.look c.mDataPos.toNat 16
    let obj := flat_binder_object.ofBytes (d.bytesAt c.mDataPos.toNat 16)
    if nullMetaData = false ∧ obj.cookie = 0 ∧ obj.binder = 0 then
      set { c with mDataPos := c.mDataPos + 16 }
      pure (some obj)
    else
      match findObject (d.mObjects.map (·.toNat)) c.mNextObjectHint c.mDataPos.toNat with
      | some opos =>
        set ⟨c.mDataPos + 16, opos + 1⟩
        pure (some obj)
      | none =>
        set { c with mDataPos := c.mDataPos + 16 }
        pure none
  else pure none

def readStrongBinder : Read (Option IBinder) := do
  let flat ← d.readObject false
  pure (unflattenBinder flat)

/-- The object that a weak pointer is made of. -/
def readWeakBinder : Read (Option flat_binder_object) := do
  let flat ← d.readObject false
  pure (flat.filter fun flat =>
    flat.type = BINDER_TYPE_BINDER ∨ flat.type = BINDER_TYPE_WEAK_BINDER ∨
      flat.type = BINDER_TYPE_HANDLE ∨ flat.type = BINDER_TYPE_WEAK_HANDLE)

/-- `none` is `BAD_TYPE`. -/
def readFileDescriptor : Read (Option (BitVec 32)) := do
  match ← d.readObject true with
  | some flat => pure (if flat.type = BINDER_TYPE_FD then some flat.binder else none)
  | none => pure none

/-- Read and duplicate `n` descriptors, until one cannot be. -/
def dupDescriptors (dup : Nat → BitVec 32 → Option (BitVec 32)) : Nat → Nat → Read Bool
  | _, 0 => pure true
  | i, n + 1 => do
    match (← d.readFileDescriptor).bind (dup i) with
    | some _ => dupDescriptors dup (i + 1) n
    | none => pure false

/-- The integers are read even if a descriptor was not. -/
def readNativeHandle (dup : Nat → BitVec 32 → Option (BitVec 32)) : Read (Option Block) := do
  match ← d.readInt32 with
  | none => pure none
  | some numFds =>
    match ← d.readInt32 with
    | none => pure none
    | some numInts =>
      let _ ← d.dupDescriptors dup 0 numFds.toInt.toNat
      d.read (4 * numInts)

/-- In place, or by a descriptor that is mapped. -/
def readBlob (len : size_t) : Read Bool := do
  match ← d.readInt32 with
  | none => pure false
  | some useAshmem =>
    if useAshmem = 0 then
      let ptr ← d.readInplace len
      pure ptr.isSome
    else
      let fd ← d.readFileDescriptor
      pure fd.isSome

/-- `read(Flattenable&)`; `unflatten` looks at the payload. -/
def readFlattenable (dup : Nat → BitVec 32 → Option (BitVec 32)) : Read Bool := do
  let len := (← d.readInt32).getD 0
  let fd_count := (← d.readInt32).getD 0
  match ← d.readInplace (PAD_SIZE len) with
  | none => pure false
  | some buf =>
    if ← d.dupDescriptors dup 0 fd_count.toNat then
      d.look buf.toNat len.toNat
      pure true
    else pure false

/-- `read(LightFlattenable&)`, of a type whose values are all of the size `fixed`, or come with
their size; `unflatten` looks at the payload. -/
def readLightFlattenable (fixed : Option size_t) : Read Bool := do
  let size ← fixed.elim d.readInt32 fun size => pure (some size)
  match size with
  | none => pure false
  | some size =>
    if size = 0 then pure true
    else
      match ← d.readInplace size with
      | none => pure false
      | some buffer =>
        d.look buffer.toNat size.toNat
        pure true

/-! ## Headers and positions -/

def setDataPosition (pos : size_t) : Read Unit := set ⟨pos, 0⟩

def readExceptionCode : Read (BitVec 32) := do
  let exception_code := (← d.readInt32).getD 0
  if exception_code = EX_HAS_REPLY_HEADER then
    let header_start := (← get).mDataPos
    let header_size := (← d.readInt32).getD 0
    setDataPosition (header_start + header_size)
    pure 0
  else pure exception_code

def enforceInterface (interface : String16) : Read Bool := do
  let _ ← d.readInt32
  let str := (← d.readString16).getD []
  pure (str = interface)

end Received

/-- The reads, and the position change. A float or a pointer is read as an integer of its
size is. -/
inductive Reading
  | readInt32
  | readInt64
  | read (len : size_t)
  | readInplace (len : size_t)
  | readCString
  | readString8
  | readString16Inplace
  | readString16
  | readObject (nullMetaData : Bool)
  | readStrongBinder
  | readWeakBinder
  | readFileDescriptor
  | readNativeHandle (dup : Nat → BitVec 32 → Option (BitVec 32))
  | readBlob (len : size_t)
  | readFlattenable (dup : Nat → BitVec 32 → Option (BitVec 32))
  | readLightFlattenable (fixed : Option size_t)
  | readExceptionCode
  | enforceInterface (interface : String16)
  | setDataPosition (pos : size_t)

/-- Whether the read succeeds. -/
def Received.perform (d : Received) : Reading → Read Bool
  | .readInt32 => do let r ← d.readInt32; pure r.isSome
  | .readInt64 => do let r ← d.readInt64; pure r.isSome
  | .read len => do let r ← d.read len; pure r.isSome
  | .readInplace len => do let r ← d.readInplace len; pure r.isSome
  | .readCString => do let r ← d.readCString; pure r.isSome
  | .readString8 => do let r ← d.readString8; pure r.isSome
  | .readString16Inplace => do let r ← d.readString16Inplace; pure r.isSome
  | .readString16 => do let r ← d.readString16; pure r.isSome
  | .readObject nullMetaData => do let r ← d.readObject nullMetaData; pure r.isSome
  | .readStrongBinder => do let r ← d.readStrongBinder; pure r.isSome
  | .readWeakBinder => do let r ← d.readWeakBinder; pure r.isSome
  | .readFileDescriptor => do let r ← d.readFileDescriptor; pure r.isSome
  | .readNativeHandle dup => do let r ← d.readNativeHandle dup; pure r.isSome
  | .readBlob len => d.readBlob len
  | .readFlattenable dup => d.readFlattenable dup
  | .readLightFlattenable fixed => d.readLightFlattenable fixed
  | .readExceptionCode => do let _ ← d.readExceptionCode; pure true
  | .enforceInterface interface => d.enforceInterface interface
  | .setDataPosition pos => do Received.setDataPosition pos; pure true

def Received.next (d : Received) (c : Cursor) (x : Reading) : Option Cursor :=
  some (d.perform x c).2.1

/-! ## Where the reads look -/

section
variable {d : Received} {c : Cursor} {n len : size_t}

/-- Inside the data, no sum with a small size wraps. -/
theorem Received.add_le (hc : c.mDataPos ≤ d.mDataSize) (hn : n.toNat ≤ 16) :
    (c.mDataPos + n).toNat = c.mDataPos.toNat + n.toNat := by
  have := d.addressable
  bv_omega

theorem look_inBounds {offset length : Nat} (hle : offset + length ≤ d.mDataSize.toNat) :
    Access.InBounds ⟨offset, length, d.mDataSize.toNat⟩ := by
  refine .inr ⟨Int.natCast_nonneg _, ?_⟩
  show (offset : Int) + length ≤ d.mDataSize.toNat
  omega

/-- The next word, as it is read. -/
def Received.nextWord (d : Received) (c : Cursor) : BitVec 32 :=
  if c.mDataPos + 4 ≤ d.mDataSize then wordAt d.mData c.mDataPos.toNat else 0

/-- The position when the next word has been read. -/
def Received.afterWord (d : Received) (c : Cursor) : Cursor :=
  if c.mDataPos + 4 ≤ d.mDataSize then { c with mDataPos := c.mDataPos + 4 } else c

/-- The position is inside the data. -/
def Received.Inside (d : Received) (c : Cursor) : Prop := c.mDataPos ≤ d.mDataSize

theorem readAligned_wp (hc : d.Inside c) (hn : n.toNat ≤ 16) :
    wp Access.InBounds (d.readAligned n) (fun r c' => d.Inside c' ∧
      (c.mDataPos + n ≤ d.mDataSize → r = some c.mDataPos ∧
        c' = { c with mDataPos := c.mDataPos + n }) ∧
      (¬ c.mDataPos + n ≤ d.mDataSize → r = none ∧ c' = c)) c := by
  have hadd := Received.add_le hc hn
  simp only [Received.readAligned, wp_bind, wp_get, wp_ite, Received.look, wp_emit, wp_set, wp_pure]
  by_cases hle : c.mDataPos + n ≤ d.mDataSize
  · rw [if_pos hle]
    exact ⟨look_inBounds (by bv_omega), hle, fun _ => ⟨trivial, trivial⟩, fun hno => absurd hle hno⟩
  · rw [if_neg hle]
    exact ⟨hc, fun hyes => absurd hyes hle, fun _ => ⟨trivial, trivial⟩⟩

theorem readInt32_wp (hc : d.Inside c) :
    wp Access.InBounds d.readInt32 (fun r c' => d.Inside c' ∧ c' = d.afterWord c ∧
      r.getD 0 = d.nextWord c) c := by
  refine wp_seq (readAligned_wp hc (by decide)) ?_
  rintro r c' ⟨hc', hyes, hno⟩
  rw [wp_pure]
  unfold Received.afterWord Received.nextWord
  by_cases hle : c.mDataPos + 4 ≤ d.mDataSize
  · obtain ⟨rfl, rfl⟩ := hyes hle
    rw [if_pos hle, if_pos hle]
    exact ⟨hc', rfl, rfl⟩
  · obtain ⟨rfl, rfl⟩ := hno hle
    rw [if_neg hle, if_neg hle]
    exact ⟨hc', rfl, rfl⟩

theorem readInt32_inside (hc : d.Inside c) :
    wp Access.InBounds d.readInt32 (fun _ c' => d.Inside c') c :=
  wp_mono (readInt32_wp hc) fun _ _ h => h.1

theorem readInt64_inside (hc : d.Inside c) :
    wp Access.InBounds d.readInt64 (fun _ c' => d.Inside c') c :=
  wp_seq (readAligned_wp hc (by decide)) fun _ _ h => (wp_pure _).mpr h.1

/-- The bytes that the guard lets through are inside the data. -/
theorem Received.Padded.le (hpadded : d.Padded len c) (hlen : len.toNat + 3 < 2 ^ 32) :
    c.mDataPos.toNat + len.toNat ≤ d.mDataSize.toNat := by
  have hmod := toNat_PAD_SIZE len
  obtain ⟨hwraps, hle⟩ := hpadded
  bv_omega

theorem read_inside (hc : d.Inside c) (hlen : len.toNat + 3 < 2 ^ 32) :
    wp Access.InBounds (d.read len) (fun _ c' => d.Inside c') c := by
  simp only [Received.read, wp_bind, wp_get, wp_ite, Received.look, wp_emit, wp_set, wp_pure]
  by_cases hpadded : d.Padded len c
  · rw [if_pos hpadded]
    exact ⟨look_inBounds (hpadded.le hlen), hpadded.2⟩
  · rw [if_neg hpadded]
    exact hc

theorem readInplace_wp (hc : d.Inside c) :
    wp Access.InBounds (d.readInplace len) (fun r c' => d.Inside c' ∧
      ∀ str ∈ r, str = c.mDataPos ∧ d.Padded len c) c := by
  simp only [Received.readInplace, wp_bind, wp_get, wp_ite, wp_set, wp_pure]
  by_cases hpadded : d.Padded len c
  · rw [if_pos hpadded]
    exact ⟨hpadded.2, fun str hstr => ⟨(Option.some.inj hstr).symm, hpadded⟩⟩
  · rw [if_neg hpadded]
    exact ⟨hc, fun str hstr => by cases hstr⟩

/-- The bytes of what is read in place may be looked at. -/
theorem readInplace_look (hc : d.Inside c) (hlen : len.toNat + 3 < 2 ^ 32) :
    wp Access.InBounds (d.readInplace len) (fun r c' => d.Inside c' ∧
      ∀ str ∈ r, str.toNat + len.toNat ≤ d.mDataSize.toNat) c := by
  refine wp_mono (readInplace_wp hc) fun r c' h => ⟨h.1, fun str hstr => ?_⟩
  obtain ⟨rfl, hpadded⟩ := h.2 str hstr
  exact hpadded.le hlen

/-! ## Strings -/

theorem memchr_lt {data : Block} {offset n len : Nat}
    (hfound : Received.memchr data offset n = some len) : len < n := by
  induction n generalizing offset len with
  | zero => cases hfound
  | succ n ih =>
    rw [Received.memchr] at hfound
    split at hfound
    · cases hfound
      exact Nat.zero_lt_succ n
    · obtain ⟨k, hk, rfl⟩ := Option.map_eq_some_iff.mp hfound
      exact Nat.succ_lt_succ (ih hk)

theorem readCString_wp (hc : d.Inside c) :
    wp Access.InBounds d.readCString (fun r c' => r = none → d.Inside c') c := by
  have havail : (d.mDataSize - c.mDataPos).toNat = d.mDataSize.toNat - c.mDataPos.toNat := by
    unfold Received.Inside at hc
    bv_omega
  unfold Received.Inside at hc
  simp only [Received.readCString, wp_bind, wp_get, wp_ite]
  by_cases hlt : 0 < d.mDataSize - c.mDataPos
  · rw [if_pos hlt]
    split
    · next len hfound =>
      have := memchr_lt hfound
      simp only [Received.look, wp_bind, wp_emit, wp_set, wp_pure]
      exact ⟨look_inBounds (by bv_omega), fun hnone => by cases hnone⟩
    · simp only [Received.look, wp_bind, wp_emit, wp_pure]
      exact ⟨look_inBounds (by bv_omega), fun _ => hc⟩
  · rw [if_neg hlt, wp_pure]
    exact fun _ => hc

theorem readString8_inside (hc : d.Inside c) :
    wp Access.InBounds d.readString8 (fun _ c' => d.Inside c') c := by
  refine wp_seq (readInt32_wp hc) ?_
  rintro r c' ⟨hc', -, -⟩
  generalize r.getD 0 = size
  rw [wp_ite]
  split
  · next hsize =>
    have hle : (size + 1).toNat = size.toNat + 1 ∧ (size + 1).toNat + 3 < 2 ^ 32 := by
      have := BitVec.toInt_eq_toNat_cond size
      rw [INT32_MAX] at hsize
      split at this <;> bv_omega
    refine wp_seq (readInplace_look hc' hle.2) ?_
    rintro s c'' ⟨hc'', hstr⟩
    cases s with
    | none => exact (wp_pure _).mpr hc''
    | some str =>
      have := hstr str rfl
      simp only [Received.look, wp_bind, wp_emit, wp_pure]
      exact ⟨look_inBounds (by omega), hc''⟩
  · exact (wp_pure _).mpr hc'

/-- The one length whose padded size in bytes wraps. -/
def maxString16 : BitVec 32 := 0x7ffffffe

theorem readString16Inplace_wp (hc : d.Inside c) :
    wp Access.InBounds d.readString16Inplace (fun r c' => d.Inside c' ∧
      (d.nextWord c ≠ maxString16 → ∀ s ∈ r, s.1.toNat + 2 * s.2.toNat ≤ d.mDataSize.toNat)) c := by
  refine wp_seq (readInt32_wp hc) ?_
  rintro r c' ⟨hc', -, hsize⟩
  rw [hsize]
  generalize d.nextWord c = size
  rw [wp_ite]
  split
  · next hpos =>
    have hnat : ((size + 1) * 2).toNat = 2 * size.toNat + 2 := by
      have := BitVec.toInt_eq_toNat_cond size
      rw [INT32_MAX] at hpos
      rw [BitVec.toNat_mul, BitVec.toNat_add]
      show (size.toNat + 1) % 2 ^ 32 * 2 % 2 ^ 32 = _
      split at this <;> omega
    refine wp_seq (readInplace_wp hc') ?_
    rintro s c'' ⟨hc'', hstr⟩
    cases s with
    | none => exact (wp_pure _).mpr ⟨hc'', fun _ => nofun⟩
    | some str =>
      obtain ⟨rfl, hpadded⟩ := hstr str rfl
      rw [wp_pure]
      refine ⟨hc'', fun hmax s hs => ?_⟩
      cases hs
      have hlen : ((size + 1) * 2).toNat + 3 < 2 ^ 32 := by
        have hne : size.toNat ≠ 0x7ffffffe := fun h => hmax (BitVec.eq_of_toNat_eq h)
        have := BitVec.toInt_eq_toNat_cond size
        rw [INT32_MAX] at hpos
        split at this <;> omega
      have := hpadded.le hlen
      dsimp only
      omega
  · exact (wp_pure _).mpr ⟨hc', fun _ => nofun⟩

theorem readString16_inside (hc : d.Inside c) (hmax : d.nextWord c ≠ maxString16) :
    wp Access.InBounds d.readString16 (fun _ c' => d.Inside c') c := by
  refine wp_seq (readString16Inplace_wp hc) ?_
  rintro r c' ⟨hc', hstr⟩
  cases r with
  | none => exact (wp_pure _).mpr hc'
  | some s =>
    simp only [Received.look, wp_bind, wp_emit, wp_pure]
    exact ⟨look_inBounds (hstr hmax s rfl), hc'⟩

/-! ## Objects -/

theorem readObject_inside (hc : d.Inside c) (nullMetaData : Bool) :
    wp Access.InBounds (d.readObject nullMetaData) (fun _ c' => d.Inside c') c := by
  have hadd := Received.add_le (n := 16) hc (by decide)
  simp only [Received.readObject, wp_bind, wp_get, wp_ite]
  by_cases hle : c.mDataPos + 16 ≤ d.mDataSize
  · rw [if_pos hle]
    simp only [Received.look, wp_emit]
    refine ⟨look_inBounds (by bv_omega), ?_⟩
    split
    · simp only [wp_set, wp_pure]
      exact hle
    · split <;> simp only [wp_bind, wp_set, wp_pure] <;> exact hle
  · rw [if_neg hle, wp_pure]
    exact hc

theorem readFileDescriptor_inside (hc : d.Inside c) :
    wp Access.InBounds d.readFileDescriptor (fun _ c' => d.Inside c') c := by
  refine wp_seq (readObject_inside hc true) fun r c' hc' => ?_
  cases r <;> exact (wp_pure _).mpr hc'

variable {dup : Nat → BitVec 32 → Option (BitVec 32)}

theorem dupDescriptors_inside (hc : d.Inside c) (i n : Nat) :
    wp Access.InBounds (d.dupDescriptors dup i n) (fun _ c' => d.Inside c') c := by
  induction n generalizing c i with
  | zero => exact (wp_pure _).mpr hc
  | succ n ih =>
    refine wp_seq (readFileDescriptor_inside hc) fun r c' hc' => ?_
    cases r.bind (dup i) with
    | none => exact (wp_pure _).mpr hc'
    | some fd => exact ih hc' (i + 1)

/-- The integers of a handle come in whole words, so that their size needs no padding. -/
theorem read_ints (hc : d.Inside c) (numInts : BitVec 32) :
    wp Access.InBounds (d.read (4 * numInts)) (fun _ c' => d.Inside c') c := by
  refine read_inside hc ?_
  rw [BitVec.toNat_mul]
  show 4 * numInts.toNat % 2 ^ 32 + 3 < 2 ^ 32
  omega

theorem readNativeHandle_inside (hc : d.Inside c) :
    wp Access.InBounds (d.readNativeHandle dup) (fun _ c' => d.Inside c') c := by
  refine wp_seq (readInt32_inside hc) fun numFds c₁ hc₁ => ?_
  cases numFds with
  | none => exact (wp_pure _).mpr hc₁
  | some numFds =>
    refine wp_seq (readInt32_inside hc₁) fun numInts c₂ hc₂ => ?_
    cases numInts with
    | none => exact (wp_pure _).mpr hc₂
    | some numInts =>
      exact wp_seq (dupDescriptors_inside hc₂ 0 _) fun _ _ hc₃ => read_ints hc₃ numInts

theorem readBlob_inside (hc : d.Inside c) (len : size_t) :
    wp Access.InBounds (d.readBlob len) (fun _ c' => d.Inside c') c := by
  refine wp_seq (readInt32_inside hc) fun useAshmem c' hc' => ?_
  cases useAshmem with
  | none => exact (wp_pure _).mpr hc'
  | some useAshmem =>
    dsimp only
    rw [wp_ite]
    split
    · exact wp_seq (readInplace_wp hc') fun _ _ h => (wp_pure _).mpr h.1
    · exact wp_seq (readFileDescriptor_inside hc') fun _ _ h => (wp_pure _).mpr h

theorem readFlattenable_inside (hc : d.Inside c) (hlen : (d.nextWord c).toNat + 3 < 2 ^ 32) :
    wp Access.InBounds (d.readFlattenable dup) (fun _ c' => d.Inside c') c := by
  refine wp_seq (readInt32_wp hc) ?_
  rintro r c₁ ⟨hc₁, -, hsize⟩
  rw [hsize]
  generalize d.nextWord c = len at hlen
  have hpad := toNat_PAD_SIZE len
  refine wp_seq (readInt32_inside hc₁) fun fd_count c₂ hc₂ => ?_
  refine wp_seq (readInplace_look hc₂ (by omega)) ?_
  rintro buf c₃ ⟨hc₃, hbuf⟩
  cases buf with
  | none => exact (wp_pure _).mpr hc₃
  | some buf =>
    have hle := hbuf buf rfl
    refine wp_seq (dupDescriptors_inside hc₃ 0 _) fun ok c₄ hc₄ => ?_
    rw [wp_ite]
    split
    · simp only [Received.look, wp_bind, wp_emit, wp_pure]
      exact ⟨look_inBounds (by omega), hc₄⟩
    · exact (wp_pure _).mpr hc₄

/-- The size of a value: that of its type, or the next word. -/
def Received.lightSize (d : Received) (c : Cursor) (fixed : Option size_t) : size_t :=
  fixed.getD (d.nextWord c)

theorem readLightSize_wp (hc : d.Inside c) (fixed : Option size_t) :
    wp Access.InBounds (fixed.elim d.readInt32 fun size => pure (some size) : Read _)
      (fun r c' => d.Inside c' ∧ ∀ size ∈ r, size = d.lightSize c fixed) c := by
  cases fixed with
  | none =>
    refine wp_mono (readInt32_wp hc) ?_
    rintro r c' ⟨hc', -, hsize⟩
    refine ⟨hc', fun size hmem => ?_⟩
    cases hmem
    exact hsize
  | some size => exact (wp_pure _).mpr ⟨hc, fun _ hmem => (Option.some.inj hmem).symm⟩

theorem readLightFlattenable_inside (hc : d.Inside c) {fixed : Option size_t}
    (hlen : (d.lightSize c fixed).toNat + 3 < 2 ^ 32) :
    wp Access.InBounds (d.readLightFlattenable fixed) (fun _ c' => d.Inside c') c := by
  refine wp_seq (readLightSize_wp hc fixed) ?_
  rintro r c₁ ⟨hc₁, hsize⟩
  cases r with
  | none => exact (wp_pure _).mpr hc₁
  | some size =>
    obtain rfl := hsize size rfl
    dsimp only
    rw [wp_ite]
    split
    · exact (wp_pure _).mpr hc₁
    · refine wp_seq (readInplace_look hc₁ hlen) ?_
      rintro buffer c₂ ⟨hc₂, hbuffer⟩
      cases buffer with
      | none => exact (wp_pure _).mpr hc₂
      | some buffer =>
        simp only [Received.look, wp_bind, wp_emit, wp_pure]
        exact ⟨look_inBounds (hbuffer buffer rfl), hc₂⟩

/-! ## Headers -/

theorem readExceptionCode_wp (hc : d.Inside c) :
    wp Access.InBounds d.readExceptionCode (fun _ _ => True) c := by
  refine wp_seq (readInt32_inside hc) fun code c' hc' => ?_
  rw [wp_ite]
  split
  · simp only [wp_bind, wp_get, Received.setDataPosition, wp_set, wp_pure]
    exact wp_mono (readInt32_inside hc') fun _ _ _ => trivial
  · exact (wp_pure _).mpr trivial

theorem enforceInterface_inside (hc : d.Inside c) (interface : String16)
    (hmax : d.nextWord (d.afterWord c) ≠ maxString16) :
    wp Access.InBounds (d.enforceInterface interface) (fun _ c' => d.Inside c') c := by
  refine wp_seq (readInt32_wp hc) ?_
  rintro _ c' ⟨hc', rfl, -⟩
  exact wp_seq (readString16_inside hc' hmax) fun _ _ h => (wp_pure _).mpr h

/-! ## Runs -/

/-- The position is inside the data, and the length that is given or found there does not
wrap when it is padded. -/
def ReadFits (d : Received) (c : Cursor) : Reading → Prop
  | .read len => d.Inside c ∧ len.toNat + 3 < 2 ^ 32
  | .readString16 => d.Inside c ∧ d.nextWord c ≠ maxString16
  | .enforceInterface _ => d.Inside c ∧ d.nextWord (d.afterWord c) ≠ maxString16
  | .readFlattenable _ => d.Inside c ∧ (d.nextWord c).toNat + 3 < 2 ^ 32
  | .readLightFlattenable fixed => d.Inside c ∧ (d.lightSize c fixed).toNat + 3 < 2 ^ 32
  | .setDataPosition _ => True
  | _ => d.Inside c

/-- The read looks at no byte outside the data, and one that fails leaves the position
inside it. -/
def ReadsInside (d : Received) (c : Cursor) (x : Reading) : Prop :=
  wp Access.InBounds (d.perform x) (fun ok c' => ok = false → d.Inside c') c

/-- A read that always leaves the position inside the data. -/
theorem perform_of_inside {α : Type} {m : Read α} {f : α → Bool}
    (hm : wp Access.InBounds m (fun _ c' => d.Inside c') c) :
    wp Access.InBounds (do let r ← m; pure (f r)) (fun ok c' => ok = false → d.Inside c') c :=
  wp_seq hm fun _ _ h => (wp_pure _).mpr fun _ => h

theorem perform_inside {x : Reading} (hfits : ReadFits d c x) : ReadsInside d c x := by
  unfold ReadsInside
  cases x with
  | readInt32 => exact perform_of_inside (readInt32_inside hfits)
  | readInt64 => exact perform_of_inside (readInt64_inside hfits)
  | read len => exact perform_of_inside (read_inside hfits.1 hfits.2)
  | readInplace len => exact perform_of_inside (wp_mono (readInplace_wp hfits) fun _ _ h => h.1)
  | readCString =>
    refine wp_seq (readCString_wp hfits) fun r c' h => (wp_pure _).mpr fun hfail => h ?_
    simpa using hfail
  | readString8 => exact perform_of_inside (readString8_inside hfits)
  | readString16Inplace =>
    exact perform_of_inside (wp_mono (readString16Inplace_wp hfits) fun _ _ h => h.1)
  | readString16 => exact perform_of_inside (readString16_inside hfits.1 hfits.2)
  | readObject nullMetaData => exact perform_of_inside (readObject_inside hfits nullMetaData)
  | readStrongBinder =>
    refine perform_of_inside (wp_seq (readObject_inside hfits false) fun _ _ h => ?_)
    exact (wp_pure _).mpr h
  | readWeakBinder =>
    refine perform_of_inside (wp_seq (readObject_inside hfits false) fun _ _ h => ?_)
    exact (wp_pure _).mpr h
  | readFileDescriptor => exact perform_of_inside (readFileDescriptor_inside hfits)
  | readNativeHandle dup => exact perform_of_inside (readNativeHandle_inside hfits)
  | readBlob len => exact wp_mono (readBlob_inside hfits len) fun _ _ h _ => h
  | readFlattenable dup => exact wp_mono (readFlattenable_inside hfits.1 hfits.2) fun _ _ h _ => h
  | readLightFlattenable fixed =>
    exact wp_mono (readLightFlattenable_inside hfits.1 hfits.2) fun _ _ h _ => h
  | readExceptionCode =>
    exact wp_seq (readExceptionCode_wp hfits) fun _ _ _ => (wp_pure _).mpr nofun
  | enforceInterface interface =>
    exact wp_mono (enforceInterface_inside hfits.1 interface hfits.2) fun _ _ h _ => h
  | setDataPosition pos =>
    simp only [Received.perform, Received.setDataPosition, wp_bind, wp_set, wp_pure]
    nofun

/-- **Read bounds.** In a run whose reads all start inside the data, and meet no length that
wraps, each looks at bytes inside the data only, and leaves the position inside if it fails. -/
theorem reads_inside (d : Received) (c : Cursor) (xs : List Reading)
    (hfits : Along (ReadFits d) d.next xs c) : Along (ReadsInside d) d.next xs c := by
  induction xs generalizing c with
  | nil => trivial
  | cons x xs ih => exact ⟨perform_inside hfits.1, fun c' hc' => ih c' (hfits.2 c' hc')⟩

instance (d : Received) (c : Cursor) : Decidable (d.Inside c) := inferInstanceAs (Decidable (_ ≤ _))

instance (d : Received) (c : Cursor) : ∀ x, Decidable (ReadFits d c x)
  | .readInt32 => inferInstanceAs (Decidable (d.Inside c))
  | .readInt64 => inferInstanceAs (Decidable (d.Inside c))
  | .read _ => inferInstanceAs (Decidable (d.Inside c ∧ _))
  | .readInplace _ => inferInstanceAs (Decidable (d.Inside c))
  | .readCString => inferInstanceAs (Decidable (d.Inside c))
  | .readString8 => inferInstanceAs (Decidable (d.Inside c))
  | .readString16Inplace => inferInstanceAs (Decidable (d.Inside c))
  | .readString16 => inferInstanceAs (Decidable (d.Inside c ∧ ¬ _))
  | .readObject _ => inferInstanceAs (Decidable (d.Inside c))
  | .readStrongBinder => inferInstanceAs (Decidable (d.Inside c))
  | .readWeakBinder => inferInstanceAs (Decidable (d.Inside c))
  | .readFileDescriptor => inferInstanceAs (Decidable (d.Inside c))
  | .readNativeHandle _ => inferInstanceAs (Decidable (d.Inside c))
  | .readBlob _ => inferInstanceAs (Decidable (d.Inside c))
  | .readFlattenable _ => inferInstanceAs (Decidable (d.Inside c ∧ _))
  | .readLightFlattenable _ => inferInstanceAs (Decidable (d.Inside c ∧ _))
  | .readExceptionCode => inferInstanceAs (Decidable (d.Inside c))
  | .enforceInterface _ => inferInstanceAs (Decidable (d.Inside c ∧ ¬ _))
  | .setDataPosition _ => .isTrue trivial

instance (d : Received) (c : Cursor) (x : Reading) : Decidable (ReadsInside d c x) :=
  inferInstanceAs (Decidable ((∀ a ∈ _, Access.InBounds a) ∧ (_ = false → d.Inside _)))

/-- A string of five bytes behind its length, and eight bytes more. -/
def stringData : Received :=
  ⟨ofList (wordBytes 5 ++ [72, 101, 108, 108, 111, 0, 0, 0] ++ List.replicate 8 1), 20, [],
    by decide⟩

/-- The position where a word ends at the wrapped address of the data. -/
def wrappedReads : List Reading := [.setDataPosition 0xfffffffc, .readInt32]

/-- The word in front of the data is read. -/
theorem wrappedReads_not_inside : ¬ Along (ReadsInside stringData) stringData.next wrappedReads
    ⟨0, 0⟩ := by
  decide

/-- A string, a word, a string that the data are too short for, and the start again. -/
def shortReads : List Reading :=
  [.readString8, .readInt32, .readString16, .readCString, .setDataPosition 4, .readCString,
    .read 8, .readInt64]

theorem reads_inside_shortReads :
    Along (ReadsInside stringData) stringData.next shortReads ⟨0, 0⟩ :=
  reads_inside stringData ⟨0, 0⟩ shortReads (by decide +kernel)

end

end Cdroid.Binder.Memory
