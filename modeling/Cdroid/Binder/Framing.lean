import Cdroid.Binder.Codecs
import Cdroid.Binder.WriteBounds

/-! What a parcel of one's own holds after a row of writes. Where no size wraps and there
is memory, each write leaves behind the bytes that are already there the bytes that
`Binder.write` and its companions say. -/

namespace Cdroid.Binder
open Cdroid.Lib.Codec Cdroid.Lib.Blocks Cdroid.Runtime

/-! ## The other writes and reads -/

/-- A string without a NUL in it. -/
def CString : Type := { str : List UInt8 // 0 ∉ str }

instance : DecidableEq CString := inferInstanceAs (DecidableEq { str : List UInt8 // 0 ∉ str })

def writeInt64 (val : BitVec 64) : Chunk := ⟨Memory.doubleWordBytes val, []⟩

def writeCString (str : CString) : Chunk := write (str.1 ++ [0])

/-- The double word in the first eight bytes. -/
def doubleWordOf (bytes : List UInt8) : BitVec 64 :=
  (wordOf (bytes.drop 4)).zeroExtend 64 <<< 32 ||| (wordOf bytes).zeroExtend 64

/-- `readAligned<int64_t>` -/
def readInt64 : Read (BitVec 64) := fun p =>
  if p.mDataPos + 8 ≤ p.mData.length then
    (doubleWordOf (p.mData.drop p.mDataPos), { p with mDataPos := p.mDataPos + 8 })
  else (0, p)

/-- The bytes in front of the first NUL. -/
def cStringOf (bytes : List UInt8) : CString :=
  ⟨bytes.takeWhile fun c => c ≠ 0, fun h => by simpa using List.mem_takeWhile_imp h⟩

/-- Up to the first NUL in the rest of the parcel, if there is one. -/
def readCString : Read (Option CString) := fun p =>
  let rest := p.mData.drop p.mDataPos
  if 0 ∈ rest then
    let str := cStringOf rest
    (some str, { p with mDataPos := p.mDataPos + padSize (str.1.length + 1) })
  else (none, p)

/-- `read(outData, len)` copies what `readInplace` points to. -/
def read (len : Nat) : Read (Option (List UInt8)) := readInplace len

theorem doubleWordOf_bytes (val : BitVec 64) (rest : List UInt8) :
    doubleWordOf (Memory.doubleWordBytes val ++ rest) = val := by
  rw [doubleWordOf, Memory.doubleWordBytes, List.append_assoc, wordOf_wordBytes,
    List.drop_left' (length_wordBytes _), wordOf_wordBytes]
  ext i hi
  simp only [BitVec.getElem_or, BitVec.getElem_shiftLeft, BitVec.getElem_setWidth,
    BitVec.getLsbD_setWidth, BitVec.getLsbD_ushiftRight, BitVec.truncate_eq_setWidth]
  by_cases h : i < 32
  · simp [h, BitVec.getLsbD_eq_getElem hi]
  · have hback : 32 + (i - 32) = i := by omega
    simp [h, hback, show i - 32 < 32 by omega, BitVec.getLsbD_eq_getElem hi]

theorem reads_int64 (val : BitVec 64) : Reads At readInt64 (writeInt64 val) val := by
  intro p pre post h
  have hle : p.mDataPos + 8 ≤ p.mData.length := h.length_le
  refine ⟨{ p with mDataPos := p.mDataPos + 8 }, ?_, h.advance (valid_bytes _) rfl h.hint_le⟩
  rw [readInt64, if_pos hle, h.drop]
  exact congrArg (·, _) (doubleWordOf_bytes val _)

theorem reads_cString (str : CString) :
    Reads At readCString (writeCString str) (some str) := by
  intro p pre post h
  have hlen : (writeCString str).bytes.length = padSize (str.1.length + 1) := by
    rw [writeCString, write, length_padded, List.length_append, List.length_singleton]
  have hrest : ∃ rest, p.mData.drop p.mDataPos = str.1 ++ 0 :: rest :=
    ⟨_, by rw [h.drop]; simp [writeCString, write, padded]; rfl⟩
  obtain ⟨rest, hrest⟩ := hrest
  have hstr : cStringOf (str.1 ++ 0 :: rest) = str := by
    refine Subtype.ext ?_
    show (str.1 ++ 0 :: rest).takeWhile (fun c => c ≠ 0) = str.1
    rw [List.takeWhile_append_of_pos, List.takeWhile_cons_of_neg (by simp), List.append_nil]
    intro c hc
    exact decide_eq_true fun h0 => str.2 (h0 ▸ hc)
  refine ⟨{ p with mDataPos := p.mDataPos + padSize (str.1.length + 1) }, ?_,
    h.advance (valid_bytes _) (by rw [hlen]) h.hint_le⟩
  unfold readCString
  dsimp only
  rw [hrest, if_pos (by simp), hstr]

theorem reads_block (data : List UInt8) :
    Reads At (read data.length) (write data) (some data) :=
  reads_inplace data

namespace Memory

/-! ## Writing -/

variable {h : Heap} {p q : Parcel} {bytes : List UInt8} {n : size_t}

/-- `write(str, strlen(str)+1)` -/
def writeCString (h : Heap) (str : CString) : Parcel → Outcome Status :=
  write h (ofList (str.1 ++ [0])) (BitVec.ofNat 32 str.1.length + 1)

/-- The allocations of the two calls are `h 0` and `h 1`. -/
def writeString8 (h : Nat → Heap) (str : String8) (p : Parcel) : Outcome Status :=
  let size := BitVec.ofNat 32 str.length
  let first := writeInt32 (h 0) size p
  if 0 < size ∧ first.result = .NO_ERROR then
    let rest := write (h 1) (ofList (str ++ [0])) (size + 1) first.parcel
    { rest with writes := first.writes ++ rest.writes }
  else first

/-- The characters go into the room that `writeInplace` hands out, and the terminator
behind them. -/
def writeString16 (h : Nat → Heap) (str : String16) (p : Parcel) : Outcome Status :=
  let len := BitVec.ofNat 32 str.length
  let first := writeInt32 (h 0) len p
  if first.result = .NO_ERROR then
    let len := len * 2
    let room := writeInplace (h 1) (len + 2) first.parcel
    let writes := first.writes ++ room.writes
    match room.result with
    | some data =>
      let p := room.parcel.poke (ofList (str.flatMap charBytes)) len.toNat data.toNat
      ⟨.NO_ERROR, p.poke (ofList [0, 0]) 2 (data.toNat + len.toNat), writes⟩
    | none => ⟨room.parcel.mError, room.parcel, writes⟩
  else first

/-- What one writer is called with. -/
inductive Item
  | int32 (val : BitVec 32)
  | int64 (val : BitVec 64)
  | cString (str : CString)
  | string8 (str : String8)
  | string16 (str : String16)
  | block (data : List UInt8)
  deriving DecidableEq

namespace Item

def write (h : Nat → Heap) : Item → Parcel → Outcome Status
  | int32 val => writeInt32 (h 0) val
  | int64 val => writeInt64 (h 0) val
  | cString str => writeCString (h 0) str
  | string8 str => writeString8 h str
  | string16 str => writeString16 h str
  | block data => Memory.write (h 0) (ofList data) (BitVec.ofNat 32 data.length)

/-- The bytes, as they are appended to a parcel. -/
def chunk : Item → Chunk
  | int32 val => Binder.writeInt32 val
  | int64 val => Binder.writeInt64 val
  | cString str => Binder.writeCString str
  | string8 str => Binder.writeString8 str
  | string16 str => Binder.writeString16 str
  | block data => Binder.write data

end Item

/-! ## No size wraps -/

/-- There is memory, and neither the position behind `n` bytes nor the size to grow to
wraps. -/
def RoomFits (h : Heap) (n : size_t) (p : Parcel) : Prop :=
  h.data.isSome = true ∧ p.mDataPos.toNat + n.toNat < 2 ^ 32 ∧
    (p.mDataCapacity < p.mDataPos + n → (p.mDataSize.toNat + n.toNat) * 3 < 2 ^ 32)

/-- `len` is a length, and can be padded. -/
def PaddedFits (h : Heap) (len : Nat) (p : Parcel) : Prop :=
  len + 3 < 2 ^ 32 ∧ RoomFits h (PAD_SIZE (BitVec.ofNat 32 len)) p

def Item.Fits (h : Nat → Heap) (p : Parcel) : Item → Prop
  | int32 _ => RoomFits (h 0) 4 p
  | int64 _ => RoomFits (h 0) 8 p
  | cString str => PaddedFits (h 0) (str.1.length + 1) p
  | string8 str => RoomFits (h 0) 4 p ∧ (str ≠ [] → PaddedFits (h 1) (str.length + 1)
      (writeInt32 (h 0) (BitVec.ofNat 32 str.length) p).parcel)
  | string16 str => RoomFits (h 0) 4 p ∧ PaddedFits (h 1) ((str.length + 1) * 2)
      (writeInt32 (h 0) (BitVec.ofNat 32 str.length) p).parcel
  | block data => PaddedFits (h 0) data.length p

instance (h : Heap) (n : size_t) (p : Parcel) : Decidable (RoomFits h n p) :=
  inferInstanceAs (Decidable (_ ∧ _ ∧ (_ → _)))

instance (h : Heap) (len : Nat) (p : Parcel) : Decidable (PaddedFits h len p) :=
  inferInstanceAs (Decidable (_ ∧ _))

instance (h : Nat → Heap) (p : Parcel) : ∀ i : Item, Decidable (i.Fits h p)
  | .int32 _ => inferInstanceAs (Decidable (RoomFits (h 0) 4 p))
  | .int64 _ => inferInstanceAs (Decidable (RoomFits (h 0) 8 p))
  | .cString str => inferInstanceAs (Decidable (PaddedFits (h 0) (str.1.length + 1) p))
  | .string8 str => inferInstanceAs (Decidable (RoomFits (h 0) 4 p ∧ (str ≠ [] →
      PaddedFits (h 1) (str.length + 1)
        (writeInt32 (h 0) (BitVec.ofNat 32 str.length) p).parcel)))
  | .string16 str => inferInstanceAs (Decidable (RoomFits (h 0) 4 p ∧
      PaddedFits (h 1) ((str.length + 1) * 2)
        (writeInt32 (h 0) (BitVec.ofNat 32 str.length) p).parcel))
  | .block data => inferInstanceAs (Decidable (PaddedFits (h 0) data.length p))

/-! ## What the parcel holds -/

/-- A parcel of one's own that has the bytes, and is at their end. -/
structure Holds (p : Parcel) (bytes : List UInt8) : Prop where
  error : p.mError = .NO_ERROR
  owner : p.mOwner = false
  objects : p.mObjects = []
  pos : p.mDataPos = p.mDataSize
  size : p.mDataSize.toNat = bytes.length
  capacity : p.mDataSize ≤ p.mDataCapacity
  bound : p.mDataCapacity.toNat < 2 ^ 31
  block : p.mData = none → p.mDataCapacity = 0
  data : ∀ data, p.mData = some data → toList bytes.length data = bytes

theorem holds_initState : Holds .initState [] where
  error := rfl
  owner := rfl
  objects := rfl
  pos := rfl
  size := rfl
  capacity := BitVec.le_refl 0
  bound := by decide
  block _ := rfl
  data := nofun

theorem Holds.length_lt (hp : Holds p bytes) :
    bytes.length < 2 ^ 31 := by
  have hcapacity : p.mDataSize.toNat ≤ p.mDataCapacity.toNat := hp.capacity
  have hbound := hp.bound
  rw [← hp.size]
  omega

/-- A capacity that is grown to is below 2^31. -/
theorem RoomFits.grown (hfits : RoomFits h n p) (hfull : p.mDataCapacity < p.mDataPos + n) :
    (grownSize n p).toNat = (p.mDataSize.toNat + n.toNat) * 3 / 2 := by
  have := hfits.2.2 hfull
  rw [toNat_grownSize]
  omega

/-- **Growth.** The bytes stay, and there is room behind them. -/
theorem Holds.makeRoom (hp : Holds p bytes) (hfits : RoomFits h n p) :
    ∃ q, Memory.makeRoom (p.mDataPos + n ≤ p.mDataCapacity) h n p = (.NO_ERROR, q) ∧
      Holds q bytes ∧ bytes.length + n.toNat ≤ q.mDataCapacity.toNat := by
  have hpos := hp.pos
  have hsize := hp.size
  have hsum : (p.mDataPos + n).toNat = bytes.length + n.toNat := by
    rw [BitVec.toNat_add, Nat.mod_eq_of_lt hfits.2.1, hpos, hsize]
  unfold Memory.makeRoom
  by_cases henough : p.mDataPos + n ≤ p.mDataCapacity
  · refine ⟨p, if_pos henough, hp, ?_⟩
    rw [← hsum]
    exact henough
  rw [if_neg henough]
  have hfull := BitVec.not_le.mp henough
  have hgrown := hfits.grown hfull
  have hcapacity : p.mDataSize.toNat ≤ p.mDataCapacity.toNat := hp.capacity
  have hlt : p.mDataCapacity.toNat < bytes.length + n.toNat := hsum ▸ hfull
  have hbound := hfits.2.2 hfull
  have hnot : ¬ grownSize n p ≤ p.mDataSize := by
    rw [BitVec.le_def]
    omega
  have hle : p.mDataSize ≤ grownSize n p := by
    rw [BitVec.le_def]
    omega
  have hmore : p.mDataCapacity < grownSize n p := by
    rw [BitVec.lt_def]
    omega
  obtain ⟨data, hdata⟩ := Option.isSome_iff_exists.mp hfits.1
  unfold growData
  dsimp only
  rw [if_neg hnot, continueWrite, if_neg (by simp [hp.owner])]
  cases hold : p.mData with
  | none =>
    -- the first block: there are no bytes yet
    have hnil : bytes = [] := by
      have hzero := hp.block hold
      rw [hzero] at hcapacity
      exact List.length_eq_zero_iff.mp (by simpa [hsize] using hcapacity)
    subst hnil
    simp only [hdata]
    refine ⟨_, rfl, ⟨hp.error, hp.owner, hp.objects, rfl, rfl, Nat.zero_le _, ?_, nofun, ?_⟩, ?_⟩
    · dsimp only
      omega
    · exact fun _ _ => rfl
    · dsimp only
      rw [List.length_nil] at hsize ⊢
      omega
  | some old =>
    simp only [hdata, if_pos hmore, dropObjects_of_le hle]
    refine ⟨_, rfl, ⟨hp.error, hp.owner, hp.objects, hp.pos, hp.size, hle, ?_, nofun, ?_⟩, ?_⟩
    · dsimp only
      omega
    · rintro _ ⟨⟩
      rw [← hp.data old hold]
      simp only [length_toList]
      refine toList_congr fun i hi => if_pos ?_
      omega
    · dsimp only
      omega

/-- Bytes over others, as many. -/
theorem Holds.poke {pre gap post l : List UInt8} (hp : Holds p (pre ++ (gap ++ post)))
    (hl : l.length = gap.length) :
    Holds (p.poke (ofList l) l.length pre.length) (pre ++ (l ++ post)) where
  error := hp.error
  owner := hp.owner
  objects := hp.objects
  pos := hp.pos
  size := by
    rw [show (p.poke (ofList l) l.length pre.length).mDataSize = p.mDataSize from rfl, hp.size]
    simp [hl]
  capacity := hp.capacity
  bound := hp.bound
  block hnone := hp.block (Option.map_eq_none_iff.mp hnone)
  data := by
    intro data hdata
    obtain ⟨old, hold, rfl⟩ := Option.map_eq_some_iff.mp hdata
    rw [← toList_blit (hp.data old hold) hl]
    simp only [List.length_append, hl, length_toList]

/-- The position moves over bytes that happen to be there. -/
theorem Holds.finishWrite (hp : Holds p bytes)
    (hroom : bytes.length + n.toNat ≤ p.mDataCapacity.toNat) :
    ∃ gap, gap.length = n.toNat ∧ Holds (p.finishWrite n) (bytes ++ gap) ∧
      ∀ data, p.mData = some data → gap = toList n.toNat (shift bytes.length data) := by
  have hbound := hp.bound
  have hsize := hp.size
  have hsum : (p.mDataPos + n).toNat = bytes.length + n.toNat := by
    rw [BitVec.toNat_add, hp.pos, hsize]
    omega
  have hfin : (p.finishWrite n).mDataSize = p.mDataPos + n := by
    unfold Parcel.finishWrite
    dsimp only
    split
    · rfl
    · next hnot =>
      apply BitVec.eq_of_toNat_eq
      rw [BitVec.lt_def] at hnot
      omega
  refine ⟨(p.mData.elim (List.replicate n.toNat 0) fun data =>
    toList n.toNat (shift bytes.length data)), ?_, ⟨hp.error, hp.owner, hp.objects, hfin.symm,
      ?_, ?_, hbound, hp.block, ?_⟩, ?_⟩
  · cases p.mData <;> simp
  · rw [hfin, hsum, List.length_append]
    cases p.mData <;> simp
  · rw [hfin, BitVec.le_def, hsum]
    exact hroom
  · intro data hdata
    have hold : p.mData = some data := hdata
    rw [hold]
    simp only [Option.elim_some, List.length_append, length_toList]
    rw [toList_add, hp.data data hold]
  · intro data hold
    rw [hold]
    rfl

/-! ## Padding -/

/-- The mask leaves the bytes below the padding. -/
theorem toNat_mask (w : BitVec 32) {k : size_t} (hk : 1 ≤ k.toNat ∧ k.toNat ≤ 3) :
    (w &&& mask k).toNat = w.toNat % 2 ^ (8 * (4 - k.toNat)) := by
  have hmask : mask k = BitVec.ofNat 32 (2 ^ (8 * (4 - k.toNat)) - 1) := by
    rcases (by omega : k.toNat = 1 ∨ k.toNat = 2 ∨ k.toNat = 3) with h | h | h <;>
      · unfold mask
        rw [h]
        decide
  have hlt : 2 ^ (8 * (4 - k.toNat)) - 1 < 2 ^ 32 := by
    have := Nat.pow_le_pow_right (n := 2) (by decide) (show 8 * (4 - k.toNat) ≤ 24 by omega)
    omega
  rw [BitVec.toNat_and, hmask, BitVec.toNat_ofNat, Nat.mod_eq_of_lt hlt,
    Nat.and_two_pow_sub_one_eq_mod]

theorem masked_eq_zero (w : BitVec 32) {k : size_t} {j : Nat} (hk : 1 ≤ k.toNat ∧ k.toNat ≤ 3)
    (hj : 4 - k.toNat ≤ j) (hlt : j < 4) : ofList (wordBytes (w &&& mask k)) j = 0 := by
  have hnat := toNat_mask w hk
  have hsmall : (w &&& mask k).toNat < 2 ^ (8 * j) := by
    rw [hnat]
    exact (Nat.mod_lt _ (Nat.two_pow_pos _)).trans_le
      (Nat.pow_le_pow_right (by decide) (by omega))
  generalize w &&& mask k = v at hsmall
  have hzero : ∀ n : Nat, v.toNat < n → (v.toNat / n).toUInt8 = 0 := fun n hn => by
    rw [Nat.div_eq_of_lt hn]
    rfl
  rcases (by omega : j = 1 ∨ j = 2 ∨ j = 3) with rfl | rfl | rfl
  · exact hzero 256 hsmall
  · exact hzero 65536 hsmall
  · exact hzero 16777216 hsmall

/-- The mask is applied behind the bytes. -/
theorem Holds.applyMask (hp : Holds p bytes) (hge : 4 ≤ (PAD_SIZE n).toNat) :
    Holds (applyMask n p) bytes where
  error := hp.error
  owner := hp.owner
  objects := hp.objects
  pos := hp.pos
  size := hp.size
  capacity := hp.capacity
  bound := hp.bound
  block hnone := hp.block (Option.map_eq_none_iff.mp hnone)
  data := by
    intro data hdata
    obtain ⟨old, hold, rfl⟩ := Option.map_eq_some_iff.mp hdata
    rw [← hp.data old hold]
    simp only [length_toList]
    have hpos := hp.pos
    have hsize := hp.size
    refine toList_congr fun i hi => if_neg ?_
    rw [hpos, hsize]
    omega

theorem eq_padded_take {l : List UInt8} {len : Nat} (hlen : l.length = padSize len)
    (hzero : ∀ i (hi : i < l.length), len ≤ i → l[i] = 0) : l = padded (l.take len) := by
  have hle : len ≤ l.length := by
    rw [hlen, padSize]
    omega
  have hdrop : l.drop len = List.replicate (padSize len - len) 0 := by
    refine List.ext_getElem (by simp [hlen]) fun i hi _ => ?_
    rw [List.getElem_drop, List.getElem_replicate]
    exact hzero _ _ (Nat.le_add_right _ _)
  rw [padded, List.length_take, Nat.min_eq_left hle, ← hdrop, List.take_append_drop]

theorem toNat_padded {len : Nat} (hlen : len + 3 < 2 ^ 32) :
    (PAD_SIZE (BitVec.ofNat 32 len)).toNat = padSize len := by
  rw [toNat_PAD_SIZE, BitVec.toNat_ofNat, padSize]
  omega

/-- Only where there is no room at all the pointer is null. -/
theorem Holds.place_cases (hp : Holds p bytes)
    (hroom : bytes.length + n.toNat ≤ p.mDataCapacity.toNat) :
    place p = none ∧ n.toNat = 0 ∨ place p = some p.mDataPos := by
  unfold place
  split
  · next hnull =>
    rw [hp.block (by simpa using hnull.1)] at hroom
    exact Or.inl ⟨rfl, Nat.le_zero.mp (Nat.le_trans (Nat.le_add_left _ _) hroom)⟩
  · exact Or.inr rfl

/-- **Room.** What is handed out is `len` bytes, whatever they are, and zeroes behind them.
The pointer to no bytes may be null. -/
theorem Holds.writeInplace {len : Nat} (hp : Holds p bytes) (hfits : PaddedFits h len p) :
    let room := Memory.writeInplace h (BitVec.ofNat 32 len) p
    ∃ gap offset, gap.length = len ∧ (room.result = none ∧ len = 0 ∨ room.result = some offset) ∧
      offset.toNat = bytes.length ∧ Holds room.parcel (bytes ++ padded gap) := by
  obtain ⟨hlen, hroom⟩ := hfits
  have hpad := toNat_padded hlen
  have hnat : (BitVec.ofNat 32 len).toNat = len := by
    rw [BitVec.toNat_ofNat]
    omega
  have hle : len ≤ padSize len ∧ padSize len < len + 4 := by
    unfold padSize
    omega
  have hfin := hroom.2.1
  have hwrap : ¬ p.mDataPos + PAD_SIZE (BitVec.ofNat 32 len) < p.mDataPos := by
    rw [BitVec.lt_def, BitVec.toNat_add]
    omega
  obtain ⟨q, hq, hholds, hcapacity⟩ := hp.makeRoom hroom
  have hoffset : q.mDataPos.toNat = bytes.length := by rw [hholds.pos, hholds.size]
  intro room
  have hresult : room = if PAD_SIZE (BitVec.ofNat 32 len) ≠ BitVec.ofNat 32 len then
      ⟨place q, (Memory.applyMask (BitVec.ofNat 32 len) q).finishWrite
        (PAD_SIZE (BitVec.ofNat 32 len)),
        [access (q.mDataPos.toNat + (PAD_SIZE (BitVec.ofNat 32 len)).toNat - 4) 4 q,
          access q.mDataPos.toNat (BitVec.ofNat 32 len).toNat q]⟩
      else ⟨place q, q.finishWrite (PAD_SIZE (BitVec.ofNat 32 len)),
        [access q.mDataPos.toNat (BitVec.ofNat 32 len).toNat q]⟩ := by
    show Memory.writeInplace h _ p = _
    unfold Memory.writeInplace restartingWrite
    dsimp only
    rw [if_neg hwrap, hq, if_pos rfl]
  have hplace : place q = none ∧ len = 0 ∨ place q = some q.mDataPos := by
    refine (hholds.place_cases hcapacity).imp_left fun hnull => ⟨hnull.1, ?_⟩
    omega
  rw [hresult]
  by_cases heq : PAD_SIZE (BitVec.ofNat 32 len) = BitVec.ofNat 32 len
  · have hsame : padSize len = len := by rw [← hpad, heq, hnat]
    obtain ⟨gap, hgap, hgapped, -⟩ := hholds.finishWrite hcapacity
    rw [hpad, hsame] at hgap
    rw [if_neg (not_not_intro heq)]
    refine ⟨gap, q.mDataPos, hgap, hplace, hoffset, ?_⟩
    rw [padded, hgap, hsame, Nat.sub_self, List.replicate_zero, List.append_nil]
    exact hgapped
  · have hne : padSize len ≠ len := fun hsame =>
      heq (BitVec.eq_of_toNat_eq (by rw [hpad, hnat, hsame]))
    have hge : 4 ≤ padSize len := by
      unfold padSize at hne hle ⊢
      omega
    obtain ⟨gap, hgap, hgapped, hdata⟩ :=
      (hholds.applyMask (hpad ▸ hge : 4 ≤ (PAD_SIZE (BitVec.ofNat 32 len)).toNat)).finishWrite
        hcapacity
    rw [hpad] at hgap
    have hpadding : gap = padded (gap.take len) := by
      obtain ⟨data, hsome⟩ : ∃ data, q.mData = some data := by
        cases hnone : q.mData with
        | some data => exact ⟨data, rfl⟩
        | none =>
          rw [hholds.block hnone, hpad] at hcapacity
          exact absurd (Nat.le_trans (Nat.le_add_left _ _) hcapacity) (by simp; omega)
      have hk : (PAD_SIZE (BitVec.ofNat 32 len) - BitVec.ofNat 32 len).toNat =
          padSize len - len := by
        rw [BitVec.toNat_sub_of_le (by rw [BitVec.le_def, hpad, hnat]; exact hle.1), hpad, hnat]
      have hmasked : (Memory.applyMask (BitVec.ofNat 32 len) q).mData = some _ :=
        congrArg (Option.map _) hsome
      refine eq_padded_take hgap fun i hi hlast => ?_
      have hget := List.getElem_of_eq (hdata _ hmasked) hi
      have hin : q.mDataPos.toNat + (PAD_SIZE (BitVec.ofNat 32 len)).toNat - 4 ≤
            bytes.length + i ∧ bytes.length + i <
          q.mDataPos.toNat + (PAD_SIZE (BitVec.ofNat 32 len)).toNat - 4 + 4 := by
        omega
      rw [hget, getElem_toList]
      refine (if_pos hin).trans ?_
      exact masked_eq_zero _ (by omega) (by omega) (by omega)
    rw [if_pos heq]
    refine ⟨gap.take len, q.mDataPos, ?_, hplace, hoffset, ?_⟩
    · rw [List.length_take, hgap]
      omega
    · rw [← hpadding]
      exact hgapped

/-! ## The writers -/

theorem Holds.writeAligned {l : List UInt8} (hp : Holds p bytes) (hl : l.length = n.toNat)
    (hfits : RoomFits h n p) :
    (Memory.writeAligned h (ofList l) n p).result = .NO_ERROR ∧
      Holds (Memory.writeAligned h (ofList l) n p).parcel (bytes ++ l) := by
  obtain ⟨q, hq, hholds, hcapacity⟩ := hp.makeRoom hfits
  have heq : Memory.writeAligned h (ofList l) n p = putData (ofList l) n q := by
    unfold Memory.writeAligned ifOk restartingWrite
    rw [hq, if_pos rfl]
  obtain ⟨gap, hgap, hgapped, -⟩ := hholds.finishWrite hcapacity
  rw [heq]
  refine ⟨rfl, ?_⟩
  have hgapped : Holds (q.finishWrite n) (bytes ++ (gap ++ [])) := by rwa [List.append_nil]
  have hpoked := hgapped.poke (hl.trans hgap.symm)
  rw [List.append_nil, hl] at hpoked
  show Holds ((q.poke (ofList l) n.toNat q.mDataPos.toNat).finishWrite n) (bytes ++ l)
  rw [hholds.pos, hholds.size]
  exact hpoked

theorem Holds.write {l : List UInt8} (hp : Holds p bytes) (hfits : PaddedFits h l.length p) :
    (Memory.write h (ofList l) (BitVec.ofNat 32 l.length) p).result = .NO_ERROR ∧
      Holds (Memory.write h (ofList l) (BitVec.ofNat 32 l.length) p).parcel
        (bytes ++ padded l) := by
  obtain ⟨gap, offset, hgap, hresult, hoffset, hholds⟩ := hp.writeInplace hfits
  have hlen : (BitVec.ofNat 32 l.length).toNat = l.length := by
    have := hfits.1
    rw [BitVec.toNat_ofNat]
    omega
  unfold Memory.write
  dsimp only
  rcases hresult with ⟨hnull, hzero⟩ | hresult
  · have hnil : gap = l := by
      rw [List.length_eq_zero_iff.mp hzero, List.length_eq_zero_iff.mp (hgap.trans hzero)]
    rw [hnull]
    exact ⟨hholds.error, hnil ▸ hholds⟩
  · rw [hresult]
    refine ⟨rfl, ?_⟩
    have hpoked := hholds.poke hgap.symm
    rw [hgap] at hpoked
    dsimp only
    rw [hlen, hoffset]
    exact hpoked

theorem ofNat_succ (n : Nat) : BitVec.ofNat 32 (n + 1) = BitVec.ofNat 32 n + 1 :=
  BitVec.ofNat_add n 1

theorem Holds.writeInt32 (hp : Holds p bytes) (val : BitVec 32) (hfits : RoomFits h 4 p) :
    (Memory.writeInt32 h val p).result = .NO_ERROR ∧
      Holds (Memory.writeInt32 h val p).parcel (bytes ++ (Binder.writeInt32 val).bytes) :=
  hp.writeAligned rfl hfits

theorem Holds.writeString8 {h : Nat → Heap} {str : String8} (hp : Holds p bytes)
    (hfits : (Item.string8 str).Fits h p) :
    (Memory.writeString8 h str p).result = .NO_ERROR ∧
      Holds (Memory.writeString8 h str p).parcel (bytes ++ (Binder.writeString8 str).bytes) := by
  obtain ⟨hword, hrest⟩ := hfits
  obtain ⟨hok, hfirst⟩ := hp.writeInt32 (BitVec.ofNat 32 str.length) hword
  unfold Memory.writeString8 Binder.writeString8
  dsimp only
  by_cases hnil : str = []
  · subst hnil
    exact ⟨hok, hfirst⟩
  · have hlen := (hrest hnil).1
    have hpos : 0 < BitVec.ofNat 32 str.length := by
      have := List.length_pos_iff.mpr hnil
      have hzero : (0 : BitVec 32).toNat = 0 := rfl
      rw [BitVec.lt_def, BitVec.toNat_ofNat]
      omega
    rw [if_pos ⟨hpos, hok⟩, if_neg hnil]
    have hsize : (str ++ [0]).length = str.length + 1 := by simp
    obtain ⟨hok', hholds⟩ := hfirst.write (l := str ++ [0]) (h := h 1) (hsize ▸ hrest hnil)
    rw [hsize, ofNat_succ] at hok' hholds
    refine ⟨hok', ?_⟩
    rw [Chunk.bytes_add, ← List.append_assoc]
    exact hholds

theorem length_flatMap_chars (str : String16) :
    (str.flatMap charBytes).length = str.length * 2 := by
  simp [List.length_flatMap, charBytes, List.map_const']

theorem Holds.writeString16 {h : Nat → Heap} {str : String16} (hp : Holds p bytes)
    (hfits : (Item.string16 str).Fits h p) :
    (Memory.writeString16 h str p).result = .NO_ERROR ∧
      Holds (Memory.writeString16 h str p).parcel
        (bytes ++ (Binder.writeString16 str).bytes) := by
  obtain ⟨hword, hrest⟩ := hfits
  obtain ⟨hok, hfirst⟩ := hp.writeInt32 (BitVec.ofNat 32 str.length) hword
  have hlen := hrest.1
  have hlen16 : BitVec.ofNat 32 ((str.length + 1) * 2) = BitVec.ofNat 32 str.length * 2 + 2 := by
    rw [Nat.add_mul, BitVec.ofNat_add, BitVec.ofNat_mul]
    rfl
  have hnat : (BitVec.ofNat 32 str.length * 2).toNat = (str.flatMap charBytes).length := by
    have htwo : (2 : BitVec 32).toNat = 2 := rfl
    rw [length_flatMap_chars, BitVec.toNat_mul, BitVec.toNat_ofNat, htwo]
    omega
  obtain ⟨gap, offset, hgap, hresult, hoffset, hholds⟩ := hfirst.writeInplace hrest
  have hresult := hresult.resolve_left fun hnull => by omega
  rw [hlen16] at hresult hholds
  unfold Memory.writeString16
  dsimp only
  rw [if_pos hok, hresult]
  refine ⟨rfl, ?_⟩
  dsimp only
  rw [hnat, hoffset]
  -- the room is that of the characters and that of the terminator
  have hsplit : (gap.take (str.flatMap charBytes).length).length =
      (str.flatMap charBytes).length := by
    rw [List.length_take, hgap, length_flatMap_chars]
    omega
  have hback : (gap.drop (str.flatMap charBytes).length).length = [(0 : UInt8), 0].length := by
    rw [List.length_drop, hgap, length_flatMap_chars, List.length_cons, List.length_singleton]
    omega
  have hpadded : padded gap = gap.take (str.flatMap charBytes).length ++
      (gap.drop (str.flatMap charBytes).length ++
        List.replicate (padSize gap.length - gap.length) 0) := by
    rw [padded, ← List.append_assoc, List.take_append_drop]
  rw [hpadded] at hholds
  have hchars := hholds.poke hsplit.symm
  rw [← List.append_assoc (_ ++ _)] at hchars
  have hpoked := hchars.poke hback.symm
  have hpad : gap.length = (str.flatMap charBytes ++ [0, 0]).length := by
    rw [hgap, List.length_append, length_flatMap_chars, List.length_cons, List.length_singleton]
    omega
  rw [Binder.writeString16, Chunk.bytes_add, Binder.write, padded, ← hpad]
  simp only [List.length_append, List.append_assoc, Nat.add_assoc] at hpoked ⊢
  exact hpoked

/-- **Write lemma.** A writer succeeds, and its bytes are behind those that were there. -/
theorem Item.write_holds {h : Nat → Heap} (i : Item) (hp : Holds p bytes) (hfits : i.Fits h p) :
    (i.write h p).result = .NO_ERROR ∧ Holds (i.write h p).parcel (bytes ++ i.chunk.bytes) := by
  cases i with
  | int32 val => exact hp.writeInt32 val hfits
  | int64 val => exact hp.writeAligned rfl hfits
  | cString str =>
    have hsize : (str.1 ++ [0]).length = str.1.length + 1 := by simp
    have hroom : PaddedFits (h 0) (str.1 ++ [0]).length p := by
      rw [hsize]
      exact hfits
    have hwrite := hp.write hroom
    rwa [hsize, ofNat_succ] at hwrite
  | string8 str => exact hp.writeString8 hfits
  | string16 str => exact hp.writeString16 hfits
  | block data => exact hp.write hfits

/-- Only `writeObject` enters objects. -/
@[simp] theorem Item.objects_chunk (i : Item) : i.chunk.objects = [] := by
  cases i with
  | string8 str =>
    show (Binder.writeString8 str).objects = []
    unfold Binder.writeString8
    split <;> rfl
  | _ => rfl

end Memory

end Cdroid.Binder
