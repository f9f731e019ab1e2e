import Cdroid.Binder.Framing

/-! What a write to a parcel reports, and what it has done. A write that says it succeeded
has put its bytes at the position that the parcel had, inside the block, and has moved the
position and the size by the padded length; one that says it failed has left the parcel as
it was. -/

namespace Cdroid.Binder.Memory
open Cdroid.Lib.Blocks Cdroid.Lib.Codec Cdroid.Runtime

variable {h : Heap} {p q : Parcel} {n len : size_t}

/-! ## Writes -/

/-- A call of a writer. `writeCString` is `write`, a null `writeString16` is `writeInt32`,
and floating-point numbers are written as the words they are. -/
inductive Write
  | int32 (val : BitVec 32)
  | int64 (val : BitVec 64)
  | unpadded (data : Block) (len : size_t)
  | inplace (len : size_t)
  | block (data : Block) (len : size_t)
  | string8 (str : String8)
  | string16 (str : String16)

/-- Whether `NO_ERROR` is returned. -/
def Outcome.ok (o : Outcome Status) : Outcome Bool := ⟨o.result = .NO_ERROR, o.parcel, o.writes⟩

/-- Whether a pointer is returned that is not null. -/
def Outcome.nonnull (o : Outcome (Option size_t)) : Outcome Bool :=
  ⟨o.result.isSome, o.parcel, o.writes⟩

namespace Write

def call (h : Nat → Heap) (p : Parcel) : Write → Outcome Bool
  | int32 val => (writeInt32 (h 0) val p).ok
  | int64 val => (writeInt64 (h 0) val p).ok
  | unpadded data len => (writeUnpadded (h 0) data len p).ok
  | inplace len => (writeInplace (h 0) len p).nonnull
  | block data len => (write (h 0) data len p).ok
  | string8 str => (writeString8 h str p).ok
  | string16 str => (writeString16 h str p).ok

/-- The bytes asked for. Those of a room are up to the caller. -/
def bytes : Write → List UInt8
  | int32 val => wordBytes val
  | int64 val => doubleWordBytes val
  | unpadded data len => toList len.toNat data
  | inplace _ => []
  | block data len => toList len.toNat data
  | string8 str => wordBytes (BitVec.ofNat 32 str.length) ++ if str = [] then [] else str ++ [0]
  | string16 str =>
    wordBytes (BitVec.ofNat 32 str.length) ++ (str.flatMap charBytes ++ [0, 0])

/-- The length asked for, each part padded. -/
def paddedLength : Write → Nat
  | int32 _ => 4
  | int64 _ => 8
  | unpadded _ len => len.toNat
  | inplace len => padSize len.toNat
  | block _ len => padSize len.toNat
  | string8 str => 4 + if str = [] then 0 else padSize (str.length + 1)
  | string16 str => 4 + padSize ((str.length + 1) * 2)

end Write

/-- From `p` the call has left `q`, with the bytes and `padded` more at the position. -/
structure Written (bytes : List UInt8) (padded : Nat) (p q : Parcel) (writes : List Access) :
    Prop where
  inBounds : ∀ a ∈ writes, a.InBounds
  room : p.mDataPos.toNat + padded ≤ q.blockSize
  bytes : ∀ data, q.mData = some data →
    toList bytes.length (shift p.mDataPos.toNat data) = bytes
  pos : q.mDataPos.toNat = p.mDataPos.toNat + padded
  size : q.mDataSize.toNat = max p.mDataSize.toNat (p.mDataPos.toNat + padded)

/-- Size, position, content and object table are as before. -/
structure Unchanged (p q : Parcel) : Prop where
  size : q.mDataSize = p.mDataSize
  pos : q.mDataPos = p.mDataPos
  content : q.mData = p.mData
  objects : q.mObjects = p.mObjects

/-- What is reported is what was done, and a failure has done nothing, outside the block
neither. -/
structure Truthful (bytes : List UInt8) (padded : Nat) (p : Parcel) (o : Outcome Bool) :
    Prop where
  reported : o.result = true ↔ Written bytes padded p o.parcel o.writes
  failed : o.result = false → Unchanged p o.parcel ∧ ∀ a ∈ o.writes, a.InBounds

def Faithful (h : Nat → Heap) (p : Parcel) (w : Write) : Prop :=
  Truthful w.bytes w.paddedLength p (w.call h p)

/-! ## When a write is faithful -/

/-- The 32-bit sum of the position and the length is within the capacity. -/
def Enough (n : size_t) (p : Parcel) : Prop := p.mDataPos + n ≤ p.mDataCapacity

instance : Decidable (Enough n p) := inferInstanceAs (Decidable (_ ≤ _))

/-- A block of `desired` bytes has to be allocated, and there is no memory for what that
takes. -/
def Lacking (h : Heap) (desired : size_t) (p : Parcel) : Prop :=
  (p.mOwner = true ∨ p.mData = none ∨ p.mDataCapacity < desired) ∧
    (h.data = none ∨ p.mOwner = true ∧ p.mObjects ≠ [] ∧ h.table = false)

/-- The block has to grow, and does not. -/
def Refused (h : Heap) (n : size_t) (p : Parcel) : Prop :=
  ¬ Enough n p ∧ (grownSize n p ≤ p.mDataSize ∨ Lacking h (grownSize n p) p)

/-- There is room for the bytes at the position, or a growth that is not refused makes
it. -/
def Serves (n : size_t) (p : Parcel) : Prop :=
  if Enough n p then p.mDataPos.toNat + n.toNat < 2 ^ 32
  else if p.mData.isSome then
    (p.mOwner = true ∨ p.mDataCapacity < grownSize n p) ∧
      p.mDataPos.toNat + n.toNat ≤ (grownSize n p).toNat
  else p.mDataPos = 0 ∧ n ≤ grownSize n p

/-- No bytes at the start of a parcel without a block: the pointer to them is null. -/
def Null (n : size_t) (p : Parcel) : Prop := p.mData = none ∧ p.mDataPos = 0 ∧ n = 0

instance : Decidable (Null n p) :=
  decidable_of_iff (p.mData.isNone = true ∧ p.mDataPos = 0 ∧ n = 0) (by simp [Null])

/-- A refusal that `mError` tells of: for want of memory, or because it told of an error
before. -/
def Told (h : Heap) (n : size_t) (p : Parcel) : Prop :=
  Refused h n p ∧ (grownSize n p ≤ p.mDataSize → p.mError ≠ .NO_ERROR)

/-- The parcel behind a word, as far as the next growth looks at it. -/
def behindWord (p : Parcel) : Parcel :=
  Parcel.finishWrite 4 { p with
    mData := some fun _ => 0
    mDataCapacity := if p.mDataPos + 4 ≤ p.mDataCapacity then p.mDataCapacity else grownSize 4 p
    mOwner := p.mOwner && decide (p.mDataPos + 4 ≤ p.mDataCapacity) }

/-- The word of a string is refused, or it is written, and so is the rest of `len` bytes. -/
def StringServed (h : Nat → Heap) (p : Parcel) (len : Nat) : Prop :=
  let n := PAD_SIZE (BitVec.ofNat 32 len)
  Refused (h 0) 4 p ∨ Serves 4 p ∧ len + 3 < 2 ^ 32 ∧
    ¬ Refused (h 1) n (behindWord p) ∧ Serves n (behindWord p)

/-- The condition for each writer, on its arguments, the parcel and the memory there is. -/
def Served (h : Nat → Heap) (p : Parcel) : Write → Prop
  | .int32 _ => Refused (h 0) 4 p ∨ Serves 4 p
  | .int64 _ => Refused (h 0) 8 p ∨ Serves 8 p
  | .unpadded _ len =>
    2 ^ 32 ≤ p.mDataPos.toNat + len.toNat ∨ Refused (h 0) len p ∨ Serves len p
  | .inplace len =>
    let n := PAD_SIZE len
    if len.toNat + 3 < 2 ^ 32 then
      2 ^ 32 ≤ p.mDataPos.toNat + n.toNat ∨ Refused (h 0) n p ∨ Serves n p ∧ ¬ Null n p
    else Refused (h 0) n p
  | .block _ len =>
    let n := PAD_SIZE len
    if len.toNat + 3 < 2 ^ 32 then
      2 ^ 32 ≤ p.mDataPos.toNat + n.toNat ∧ p.mError ≠ .NO_ERROR ∨
        p.mDataPos.toNat + n.toNat < 2 ^ 32 ∧ Told (h 0) n p ∨
          Serves n p ∧ (Null n p → p.mError = .NO_ERROR)
    else Told (h 0) n p
  | .string8 str =>
    if str = [] then Refused (h 0) 4 p ∨ Serves 4 p else StringServed h p (str.length + 1)
  | .string16 str => StringServed h p ((str.length + 1) * 2)

/-! ## Growth -/

theorem continueWrite_lacking {desired : size_t} (hlt : p.mDataSize < desired)
    (hlack : Lacking h desired p) :
    continueWrite h desired p = (.NO_MEMORY, { p with mError := .NO_MEMORY }) := by
  obtain ⟨hneeds, hnone⟩ := hlack
  have hle : p.mDataSize ≤ desired := BitVec.le_of_lt hlt
  unfold continueWrite
  by_cases howner : p.mOwner = true
  · have hne : desired ≠ 0 := by bv_omega
    rw [if_pos howner, if_neg hne, keptObjects_of_le hle]
    cases hdata : h.data with
    | none => rfl
    | some data =>
      have htable : p.mObjects ≠ [] ∧ h.table = false := by simpa [hdata, howner] using hnone
      simp only [if_pos htable]
  · have hdata : h.data = none := by simpa [howner] using hnone
    rw [if_neg howner]
    cases hold : p.mData with
    | some old =>
      have hmore : p.mDataCapacity < desired := by simpa [howner, hold] using hneeds
      simp only [if_pos hmore, hdata, dropObjects_of_le hle]
      rw [← hold]
    | none => simp only [hdata]

theorem continueWrite_ok {desired : size_t} (hlt : p.mDataSize < desired)
    (henough : ¬ Lacking h desired p) : (continueWrite h desired p).1 = .NO_ERROR := by
  have hle : p.mDataSize ≤ desired := BitVec.le_of_lt hlt
  unfold continueWrite
  by_cases howner : p.mOwner = true
  · have hne : desired ≠ 0 := by bv_omega
    rw [if_pos howner, if_neg hne, keptObjects_of_le hle]
    cases hdata : h.data with
    | none => exact absurd ⟨Or.inl howner, Or.inl hdata⟩ henough
    | some data =>
      have htable : ¬ (p.mObjects ≠ [] ∧ h.table = false) := fun htable =>
        henough ⟨Or.inl howner, Or.inr ⟨howner, htable⟩⟩
      simp only [if_neg htable]
  · rw [if_neg howner]
    cases hold : p.mData with
    | some old =>
      by_cases hmore : p.mDataCapacity < desired
      · simp only [if_pos hmore]
        cases hdata : h.data with
        | none => exact absurd ⟨Or.inr (Or.inr hmore), Or.inl hdata⟩ henough
        | some data => rfl
      · simp only [if_neg hmore]
    | none =>
      cases hdata : h.data with
      | none => exact absurd ⟨Or.inr (Or.inl hold), Or.inl hdata⟩ henough
      | some data => rfl

/-- What the writers start with. -/
abbrev roomFor (h : Heap) (n : size_t) (p : Parcel) : Status × Parcel :=
  makeRoom (p.mDataPos + n ≤ p.mDataCapacity) h n p

theorem roomFor_enough (henough : Enough n p) : roomFor h n p = (.NO_ERROR, p) := if_pos henough

theorem roomFor_full (hfull : ¬ Enough n p) : roomFor h n p = growData h n p := if_neg hfull

/-- What a refusal leaves: for want of memory it sets `mError`. -/
def afterRefusal (n : size_t) (p : Parcel) : Parcel :=
  { p with mError := if grownSize n p ≤ p.mDataSize then p.mError else .NO_MEMORY }

theorem Refused.roomFor (hrefused : Refused h n p) :
    roomFor h n p = (.NO_MEMORY, afterRefusal n p) := by
  unfold afterRefusal
  obtain ⟨hfull, hcause⟩ := hrefused
  rw [roomFor_full hfull]
  unfold growData
  by_cases hle : grownSize n p ≤ p.mDataSize
  · simp [hle]
  · simp only [if_neg hle]
    exact continueWrite_lacking (BitVec.not_le.mp hle) (hcause.resolve_left hle)

theorem Refused.restartingWrite {α : Type} (hrefused : Refused h n p)
    (write : Parcel → Outcome α) (refused : Status → Parcel → α) :
    restartingWrite (Memory.roomFor h n p) write refused =
      ⟨refused .NO_MEMORY (afterRefusal n p), afterRefusal n p, []⟩ := by
  unfold Memory.restartingWrite
  rw [hrefused.roomFor]
  rfl

theorem roomFor_ok (hrefused : ¬ Refused h n p) : (roomFor h n p).1 = .NO_ERROR := by
  by_cases henough : Enough n p
  · rw [roomFor_enough henough]
  · rw [roomFor_full henough]
    unfold growData
    by_cases hle : grownSize n p ≤ p.mDataSize
    · exact absurd ⟨henough, Or.inl hle⟩ hrefused
    · simp only [if_neg hle]
      exact continueWrite_ok (BitVec.not_le.mp hle) fun hlack =>
        hrefused ⟨henough, Or.inr hlack⟩

/-- The parcel to write to has the position and room for `n` bytes behind it. -/
def Ready (n : Nat) (p q : Parcel) : Prop :=
  q.mDataPos = p.mDataPos ∧ p.mDataPos.toNat + n ≤ q.blockSize

theorem Sound.ready_iff (hq : Sound q) {m : Nat} : Ready m p q ↔
    q.mDataPos = p.mDataPos ∧ p.mDataPos.toNat + m ≤ q.mDataCapacity.toNat := by
  unfold Ready
  rw [hq.blockSize]

/-- If the data grows, the position stays. -/
def Unmoved (n : size_t) (p : Parcel) : Prop :=
  Enough n p ∨ if p.mData.isSome then
    p.mOwner = true ∨ p.mDataCapacity < grownSize n p ∨ p.mDataPos ≤ grownSize n p
  else p.mDataPos = 0

/-- How many bytes of the block a growth keeps. -/
def keptBytes (p : Parcel) : Nat :=
  if p.mOwner then p.mDataSize.toNat else p.mDataCapacity.toNat

theorem Sound.size_le_kept (hp : Sound p) : p.mDataSize.toNat ≤ keptBytes p := by
  have hsize : p.mDataSize.toNat ≤ p.mDataCapacity.toNat := hp.size_le
  unfold keptBytes
  split <;> omega

/-- What a growth that is not refused makes of the parcel. -/
structure Roomy (n : size_t) (p q : Parcel) : Prop where
  sound : Sound q
  size : q.mDataSize = p.mDataSize
  pos : q.mDataPos ≤ p.mDataPos
  moved : q.mDataPos = p.mDataPos ∨ p.mDataSize ≤ q.mDataPos
  objects : q.mObjects = p.mObjects
  error : q.mError = p.mError
  allowFds : q.mAllowFds = p.mAllowFds
  ready : Ready n.toNat p q ↔ Serves n p
  same : Enough n p → q = p
  grown : ¬ Enough n p → q.mData.isSome = true
  owner : ¬ Enough n p → q.mOwner = false
  stays : q.mDataPos = p.mDataPos ↔ Unmoved n p
  served : Serves n p → ¬ Enough n p → q.mOwner = false ∧ q.mDataCapacity = grownSize n p
  front : ∀ old, p.mData = some old → ∀ new, q.mData = some new →
    ∀ i < keptBytes p, new i = old i

theorem Sound.enough_ready (hp : Sound p) (henough : Enough n p) :
    Ready n.toNat p p ↔ Serves n p := by
  unfold Serves
  rw [if_pos henough, hp.ready_iff]
  unfold Enough at henough
  constructor
  · rintro ⟨-, hroom⟩
    have := p.mDataCapacity.isLt
    omega
  · intro hsum
    refine ⟨rfl, ?_⟩
    rw [BitVec.le_def, BitVec.toNat_add, Nat.mod_eq_of_lt hsum] at henough
    exact henough

theorem roomFor_roomy (hp : Sound p) (hrefused : ¬ Refused h n p) :
    Roomy n p (roomFor h n p).2 := by
  have hok := roomFor_ok hrefused
  by_cases henough : Enough n p
  · rw [roomFor_enough henough]
    exact {
      sound := hp, size := rfl, pos := BitVec.le_refl _, moved := Or.inl rfl
      objects := rfl, error := rfl, allowFds := rfl
      ready := hp.enough_ready henough, same := fun _ => rfl, grown := absurd henough
      owner := absurd henough, stays := iff_of_true rfl (Or.inl henough)
      served := fun _ => absurd henough
      front := by
        rintro old hold new hnew i -
        cases hold.symm.trans hnew
        rfl }
  · rw [roomFor_full henough] at hok ⊢
    obtain ⟨hlt, hcontinued⟩ := growData_continued hok
    have hle : p.mDataSize ≤ grownSize n p := BitVec.le_of_lt hlt
    have hsound := (hcontinued.sound hp).1
    generalize (growData h n p).2 = q at hcontinued hsound
    have hserves : Serves n p ↔ if p.mData.isSome then
        (p.mOwner = true ∨ p.mDataCapacity < grownSize n p) ∧
          p.mDataPos.toNat + n.toNat ≤ (grownSize n p).toNat
      else p.mDataPos = 0 ∧ n ≤ grownSize n p := by
      unfold Serves
      rw [if_neg henough]
    cases hcontinued with
    | freed howner hzero => bv_omega
    | taken data howner hne =>
      obtain ⟨old, hold⟩ := Option.isSome_iff_exists.mp (hp.owned howner)
      simp only [if_pos hlt, keptObjects_of_le hle] at hsound ⊢
      refine ⟨hsound, rfl, BitVec.le_refl _, Or.inl rfl, rfl, rfl, rfl, ?_,
        fun he => absurd he henough, fun _ => rfl, fun _ => rfl, ?_, fun _ _ => ⟨rfl, rfl⟩, ?_⟩
      · rw [hserves, hsound.ready_iff]
        simp [hold, howner]
      · simp [Unmoved, hold, howner]
      · rintro old' hold' new hnew i hi
        cases hold.symm.trans hold'
        rw [hold] at hnew
        cases hnew
        rw [keptBytes, if_pos howner] at hi
        exact if_pos (by omega)
    | grown old data howner hold hmore hdata =>
      rw [dropObjects_of_le hle] at hsound ⊢
      refine ⟨hsound, rfl, BitVec.le_refl _, Or.inl rfl, rfl, rfl, rfl, ?_,
        fun he => absurd he henough, fun _ => rfl, fun _ => howner, ?_, fun _ _ => ⟨howner, rfl⟩, ?_⟩
      · rw [hserves, hsound.ready_iff]
        simp [hold, hmore]
      · simp [Unmoved, hold, hmore]
      · rintro old' hold' new hnew i hi
        cases hold.symm.trans hold'
        cases hnew
        rw [keptBytes, howner] at hi
        exact if_pos (by simpa using hi)
    | cut old howner hold hlarge =>
      rw [dropObjects_of_le hle] at hsound ⊢
      have hnot : ¬ grownSize n p < p.mDataSize := BitVec.not_lt.mpr hle
      have hfull : p.mDataCapacity.toNat < p.mDataPos.toNat + n.toNat := by
        unfold Enough at henough
        bv_omega
      refine ⟨hsound, if_neg hnot, ?_, ?_, rfl, rfl, rfl, ?_, fun he => absurd he henough,
        fun _ => by simp [hold], fun _ => howner, ?_, ?_, ?_⟩
      · dsimp only
        split <;> bv_omega
      · dsimp only
        split
        · exact Or.inr hle
        · exact Or.inl rfl
      · -- the position is cut, or the block is too small for it
        rw [hserves, hsound.ready_iff]
        simp only [hold, Option.isSome_some, if_true, howner, Bool.false_eq_true, false_or]
        constructor
        · rintro ⟨-, hroom⟩
          omega
        · rintro ⟨hmore, -⟩
          bv_omega
      · simp only [Unmoved, henough, hold, Option.isSome_some, if_true, howner,
          Bool.false_eq_true, false_or]
        split
        · next hcut => exact iff_of_false (by bv_omega) (by bv_omega)
        · next hkeep => exact iff_of_true rfl (Or.inr (BitVec.not_lt.mp hkeep))
      · intro hs
        rw [hserves] at hs
        simp only [hold, Option.isSome_some, if_true, howner, Bool.false_eq_true, false_or] at hs
        bv_omega
      · rintro old' hold' new hnew i -
        cases hold'.symm.trans hnew
        rfl
    | first data howner hnone hdata =>
      have hcapacity := hp.null hnone
      have hzero : p.mDataSize = 0 := by
        have := hp.size_le
        bv_omega
      refine ⟨hsound, hzero.symm, BitVec.le_def.mpr (Nat.zero_le _),
        Or.inr (BitVec.le_of_eq hzero), rfl, rfl, rfl, ?_, fun he => absurd he henough,
        fun _ => rfl, fun _ => howner, ?_, fun _ _ => ⟨howner, rfl⟩, ?_⟩
      · rw [hserves, hsound.ready_iff]
        simp only [hnone, Option.isSome_none, Bool.false_eq_true, if_false]
        constructor
        · rintro ⟨hpos, hroom⟩
          exact ⟨hpos.symm, by bv_omega⟩
        · rintro ⟨hpos, hroom⟩
          exact ⟨hpos.symm, by bv_omega⟩
      · simp only [Unmoved, henough, hnone, Option.isSome_none, Bool.false_eq_true, if_false,
          false_or]
        exact eq_comm
      · rintro old hold
        cases hnone.symm.trans hold

/-! ## Writes that are made -/

@[simp] theorem blockSize_finishWrite (n : size_t) (p : Parcel) :
    (p.finishWrite n).blockSize = p.blockSize := rfl

@[simp] theorem blockSize_poke (data : Block) (m offset : Nat) (p : Parcel) :
    (p.poke data m offset).blockSize = p.blockSize := by
  simp [Parcel.poke, Parcel.blockSize]

@[simp] theorem blockSize_applyMask (len : size_t) (p : Parcel) :
    (applyMask len p).blockSize = p.blockSize := by
  simp [applyMask, Parcel.blockSize]

theorem blockSize_lt (p : Parcel) : p.blockSize < 2 ^ 32 := by
  unfold Parcel.blockSize
  have := p.mDataCapacity.isLt
  split <;> omega

/-- A call that leaves the parcel behind `q` has written what it should if and only if `q`
was ready. -/
theorem written_iff {bytes : List UInt8} {r : Parcel} {writes : List Access}
    (hq : q.mDataSize = p.mDataSize) (hpos : r.mDataPos = q.mDataPos + n)
    (hsize : r.mDataSize = if q.mDataSize < q.mDataPos + n then q.mDataPos + n else q.mDataSize)
    (hblock : r.blockSize = q.blockSize)
    (hin : Ready n.toNat p q → ∀ a ∈ writes, a.InBounds)
    (hbytes : Ready n.toNat p q → ∀ data, r.mData = some data →
      toList bytes.length (shift p.mDataPos.toNat data) = bytes) :
    Written bytes n.toNat p r writes ↔ Ready n.toNat p q := by
  have hlt := blockSize_lt q
  constructor
  · intro hw
    have hroom := hw.room
    have hmoved := hw.pos
    rw [hblock] at hroom
    rw [hpos, BitVec.toNat_add] at hmoved
    refine ⟨BitVec.eq_of_toNat_eq ?_, hroom⟩
    omega
  · intro hready
    have hsame := hready.1
    have hroom := hready.2
    have hsum : (q.mDataPos + n).toNat = p.mDataPos.toNat + n.toNat := by
      rw [BitVec.toNat_add, hsame]
      omega
    refine ⟨hin hready, hblock ▸ hroom, hbytes hready, by rw [hpos, hsum], ?_⟩
    rw [hsize, ← hq, ← hsum]
    split <;> bv_omega

theorem access_inBounds {m k : Nat} (hready : Ready k p q) (hle : m ≤ k) :
    (access q.mDataPos.toNat m q).InBounds := by
  obtain ⟨hsame, hroom⟩ := hready
  refine Or.inr ⟨Int.natCast_nonneg _, ?_⟩
  show (q.mDataPos.toNat : Int) + m ≤ q.blockSize
  rw [hsame]
  omega

theorem access_room {m : Nat} (hm : 0 < m) (hin : (access q.mDataPos.toNat m q).InBounds) :
    q.mDataPos.toNat + m ≤ q.blockSize := by
  rcases hin with hnil | ⟨-, hfits⟩
  · have hnil : (m : Nat) = 0 := hnil
    omega
  · have hfits : (q.mDataPos.toNat : Int) + m ≤ q.blockSize := hfits
    omega

theorem putData_written (data : Block) (hq : q.mDataSize = p.mDataSize) :
    Written (toList n.toNat data) n.toNat p (putData data n q).parcel (putData data n q).writes ↔
      Ready n.toNat p q := by
  refine written_iff hq rfl rfl (by simp [putData]) (fun hready a ha => ?_) ?_
  · rw [List.mem_singleton.mp ha]
    exact access_inBounds hready (Nat.le_refl _)
  · rintro ⟨hsame, -⟩ new hnew
    obtain ⟨old, -, rfl⟩ := Option.map_eq_some_iff.mp hnew
    rw [length_toList, hsame, toList_shift_blit]

/-! ## Aligned and unpadded writes -/

theorem wraps_iff : p.mDataPos + n < p.mDataPos ↔ 2 ^ 32 ≤ p.mDataPos.toNat + n.toNat := by
  rw [BitVec.lt_def, BitVec.toNat_add]
  have := p.mDataPos.isLt
  omega

/-- A refusal was not for nothing: the block has no room at the position. -/
theorem Refused.room (hrefused : Refused h n p) (hp : Sound p) :
    p.blockSize < p.mDataPos.toNat + n.toNat := by
  have hfull := hrefused.1
  unfold Enough at hfull
  rw [hp.blockSize]
  bv_omega

section
variable {bytes : List UInt8} {padded : Nat} {o : Outcome Bool}

/-- Where success is reported, the bytes have to be there. -/
theorem truthful_iff_written (hresult : o.result = true) :
    Truthful bytes padded p o ↔ Written bytes padded p o.parcel o.writes := by
  refine ⟨fun ht => ht.reported.mp hresult, fun hw => ⟨iff_of_true hresult hw, ?_⟩⟩
  simp [hresult]

/-- A parcel without room at its position, of which no more than `mError` has changed: a failure
is to be reported. -/
theorem truthful_refused_iff {e : Status} (hparcel : o.parcel = { p with mError := e })
    (hnone : o.writes = []) (hroom : p.blockSize < p.mDataPos.toNat + padded) :
    Truthful bytes padded p o ↔ o.result = false := by
  have hnot : ¬ Written bytes padded p o.parcel o.writes := by
    intro hw
    have hle := hw.room
    rw [hparcel] at hle
    exact absurd hle (Nat.not_le.mpr hroom)
  constructor
  · intro ht
    cases hresult : o.result with
    | false => rfl
    | true => exact absurd (ht.reported.mp hresult) hnot
  · intro hresult
    refine ⟨iff_of_false (by simp [hresult]) hnot, fun _ => ⟨?_, ?_⟩⟩
    · rw [hparcel]
      exact ⟨rfl, rfl, rfl, rfl⟩
    · rw [hnone]
      simp

end

theorem putData_truthful (data : Block) (hp : Sound p) :
    Truthful (toList n.toNat data) n.toNat p (ifOk (roomFor h n p) (putData data n)).ok ↔
      Refused h n p ∨ Serves n p := by
  by_cases hrefused : Refused h n p
  · rw [ifOk, hrefused.restartingWrite]
    have hfailed : Truthful (toList n.toNat data) n.toNat p
        (Outcome.ok ⟨.NO_MEMORY, afterRefusal n p, []⟩) :=
      (truthful_refused_iff (p := p) rfl rfl (hrefused.room hp)).mpr rfl
    exact iff_of_true hfailed (Or.inl hrefused)
  · have hroomy := roomFor_roomy hp hrefused
    have hmade : ifOk (roomFor h n p) (putData data n) = putData data n (roomFor h n p).2 :=
      if_pos (roomFor_ok hrefused)
    rw [hmade, truthful_iff_written (by rfl), or_iff_right hrefused, ← hroomy.ready]
    exact putData_written data hroomy.size

theorem aligned_truthful (l : List UInt8) (hl : l.length = n.toNat) (hp : Sound p) :
    Truthful l n.toNat p (writeAligned h (ofList l) n p).ok ↔ Refused h n p ∨ Serves n p := by
  have htruthful := putData_truthful (h := h) (n := n) (ofList l) hp
  rwa [← hl, toList_ofList, hl] at htruthful

theorem unpadded_truthful (data : Block) (hp : Sound p) :
    Truthful (toList len.toNat data) len.toNat p (writeUnpadded h data len p).ok ↔
      2 ^ 32 ≤ p.mDataPos.toNat + len.toNat ∨ Refused h len p ∨ Serves len p := by
  unfold writeUnpadded
  dsimp only
  by_cases hwraps : p.mDataPos + len < p.mDataPos
  · have hsum := wraps_iff.mp hwraps
    have hlt := blockSize_lt p
    rw [if_pos hwraps]
    refine iff_of_true ((truthful_refused_iff (e := p.mError) rfl rfl ?_).mpr rfl) (Or.inl hsum)
    omega
  · rw [if_neg hwraps, or_iff_right (fun hsum => hwraps (wraps_iff.mpr hsum))]
    exact putData_truthful data hp

/-! ## Rooms -/

/-- `writeInplace` from `restart_write` on. -/
def handOut (len : size_t) (q : Parcel) : Outcome (Option size_t) :=
  let room := access q.mDataPos.toNat len.toNat q
  if PAD_SIZE len ≠ len then
    ⟨place q, (applyMask len q).finishWrite (PAD_SIZE len),
      [access (q.mDataPos.toNat + (PAD_SIZE len).toNat - 4) 4 q, room]⟩
  else ⟨place q, q.finishWrite (PAD_SIZE len), [room]⟩

theorem writeInplace_wraps (hsum : 2 ^ 32 ≤ p.mDataPos.toNat + (PAD_SIZE len).toNat) :
    writeInplace h len p = ⟨none, p, []⟩ := by
  unfold writeInplace
  exact if_pos (wraps_iff.mpr hsum)

theorem writeInplace_refused (hsum : p.mDataPos.toNat + (PAD_SIZE len).toNat < 2 ^ 32)
    (hrefused : Refused h (PAD_SIZE len) p) :
    writeInplace h len p = ⟨none, afterRefusal (PAD_SIZE len) p, []⟩ := by
  unfold writeInplace
  dsimp only
  rw [if_neg (fun hw => absurd (wraps_iff.mp hw) (Nat.not_le.mpr hsum))]
  exact hrefused.restartingWrite _ _

theorem writeInplace_made (hsum : p.mDataPos.toNat + (PAD_SIZE len).toNat < 2 ^ 32)
    (hrefused : ¬ Refused h (PAD_SIZE len) p) :
    writeInplace h len p = handOut len (roomFor h (PAD_SIZE len) p).2 := by
  unfold writeInplace
  dsimp only
  rw [if_neg (fun hw => absurd (wraps_iff.mp hw) (Nat.not_le.mpr hsum))]
  exact if_pos (roomFor_ok hrefused)

section
variable (len : size_t) (q : Parcel)

@[simp] theorem handOut_result : (handOut len q).result = place q := by
  unfold handOut
  dsimp only
  split <;> rfl

@[simp] theorem handOut_mDataPos :
    (handOut len q).parcel.mDataPos = q.mDataPos + PAD_SIZE len := by
  unfold handOut
  dsimp only
  split <;> rfl

@[simp] theorem handOut_mDataSize : (handOut len q).parcel.mDataSize =
    if q.mDataSize < q.mDataPos + PAD_SIZE len then q.mDataPos + PAD_SIZE len
    else q.mDataSize := by
  unfold handOut
  dsimp only
  split <;> rfl

@[simp] theorem handOut_mObjects : (handOut len q).parcel.mObjects = q.mObjects := by
  unfold handOut
  dsimp only
  split <;> rfl

@[simp] theorem handOut_mError : (handOut len q).parcel.mError = q.mError := by
  unfold handOut
  dsimp only
  split <;> rfl

@[simp] theorem handOut_blockSize : (handOut len q).parcel.blockSize = q.blockSize := by
  unfold handOut
  dsimp only
  split <;> simp

end

/-- A length can be padded, or the padding wraps to nothing. -/
theorem padSize_cases (len : size_t) :
    len.toNat + 3 < 2 ^ 32 ∧ (PAD_SIZE len).toNat = padSize len.toNat ∨
      ¬ len.toNat + 3 < 2 ^ 32 ∧ PAD_SIZE len = 0 ∧ padSize len.toNat = 2 ^ 32 := by
  have hpad := toNat_PAD_SIZE len
  have hlt := len.isLt
  unfold padSize
  by_cases hlen : len.toNat + 3 < 2 ^ 32
  · exact Or.inl ⟨hlen, by omega⟩
  · refine Or.inr ⟨hlen, BitVec.eq_of_toNat_eq ?_, by omega⟩
    have hzero : (0 : size_t).toNat = 0 := rfl
    omega

/-- The mask is on the last word, behind the position. -/
theorem handOut_front (hlen : len.toNat + 3 < 2 ^ 32) {old new : Block} (hold : q.mData = some old)
    (hnew : (handOut len q).parcel.mData = some new) {i : Nat} (hi : i < q.mDataPos.toNat) :
    new i = old i := by
  unfold handOut at hnew
  dsimp only at hnew
  split at hnew
  · next hne =>
    obtain ⟨old', hold', rfl⟩ := Option.map_eq_some_iff.mp hnew
    cases hold.symm.trans hold'
    have hpad := le_PAD_SIZE hlen
    have hmod := toNat_PAD_SIZE len
    have hword : 4 ≤ (PAD_SIZE len).toNat := by bv_omega
    exact if_neg (by omega)
  · cases hold.symm.trans hnew
    rfl

theorem handOut_inBounds (hlen : len.toNat + 3 < 2 ^ 32)
    (hready : Ready (PAD_SIZE len).toNat p q) :
    ∀ a ∈ (handOut len q).writes, a.InBounds := by
  have hpad := le_PAD_SIZE hlen
  have hroom := access_inBounds hready hpad.1
  intro a ha
  unfold handOut at ha
  dsimp only at ha
  split at ha
  · next hne =>
    rcases List.mem_cons.mp ha with rfl | ha
    · have hmod := toNat_PAD_SIZE len
      have hword : 4 ≤ (PAD_SIZE len).toNat := by bv_omega
      obtain ⟨hsame, hfits⟩ := hready
      refine Or.inr ⟨?_, ?_⟩
      · show (0 : Int) ≤ q.mDataPos.toNat + (PAD_SIZE len).toNat - 4
        omega
      · show (q.mDataPos.toNat + (PAD_SIZE len).toNat - 4 : Int) + 4 ≤ q.blockSize
        rw [hsame]
        omega
    · rw [List.mem_singleton.mp ha]
      exact hroom
  · rw [List.mem_singleton.mp ha]
    exact hroom

theorem handOut_written (hlen : len.toNat + 3 < 2 ^ 32) (hq : q.mDataSize = p.mDataSize) :
    Written [] (PAD_SIZE len).toNat p (handOut len q).parcel (handOut len q).writes ↔
      Ready (PAD_SIZE len).toNat p q :=
  written_iff hq (handOut_mDataPos len q) (handOut_mDataSize len q) (handOut_blockSize len q)
    (handOut_inBounds hlen) fun _ _ _ => rfl

theorem handOut_poke_written (data : Block) (hlen : len.toNat + 3 < 2 ^ 32)
    (hq : q.mDataSize = p.mDataSize) :
    Written (toList len.toNat data) (PAD_SIZE len).toNat p
        ((handOut len q).parcel.poke data len.toNat q.mDataPos.toNat) (handOut len q).writes ↔
      Ready (PAD_SIZE len).toNat p q := by
  refine written_iff hq (handOut_mDataPos len q) (handOut_mDataSize len q) (by simp)
    (handOut_inBounds hlen) ?_
  rintro ⟨hsame, -⟩ new hnew
  obtain ⟨old, -, rfl⟩ := Option.map_eq_some_iff.mp hnew
  rw [length_toList, hsame, toList_shift_blit]

/-- More than there are addresses is never written. -/
theorem not_written_of_large {bytes : List UInt8} {padded : Nat} {writes : List Access}
    (hlarge : 2 ^ 32 ≤ padded) : ¬ Written bytes padded p q writes := by
  intro hw
  have := hw.room
  have := blockSize_lt q
  omega

theorem Null.enough (hnull : Null n p) : Enough n p := by
  obtain ⟨-, hpos, rfl⟩ := hnull
  unfold Enough
  rw [hpos]
  exact BitVec.le_def.mpr (Nat.zero_le _)

/-- A pointer is null only where no room is asked for in a parcel that has none. -/
theorem Roomy.place_eq (hq : Roomy n p q) (hp : Sound p) :
    place q = if Null n p then none else some q.mDataPos := by
  by_cases hnull : Null n p
  · rw [hq.same hnull.enough, if_pos hnull, place, if_pos ⟨by simp [hnull.1], hnull.2.1⟩]
  · rw [if_neg hnull, place, if_neg]
    rintro ⟨hnone, hpos⟩
    by_cases henough : Enough n p
    · cases hq.same henough
      have hnone : p.mData = none := by simpa using hnone
      have hcapacity := hp.null hnone
      unfold Enough at henough
      rw [hcapacity, hpos] at henough
      exact hnull ⟨hnone, hpos, by bv_omega⟩
    · have hsome := hq.grown henough
      simp [Option.isNone_iff_eq_none.mp hnone] at hsome

/-! ## Rooms and blocks -/

theorem Serves.sum (hserves : Serves n p) : p.mDataPos.toNat + n.toNat < 2 ^ 32 := by
  unfold Serves at hserves
  have hgrown := (grownSize n p).isLt
  split at hserves
  · exact hserves
  · split at hserves
    · omega
    · rw [hserves.1]
      have := n.isLt
      have hzero : (0 : size_t).toNat = 0 := rfl
      omega

/-- A growth that would not make the block larger does not serve. -/
theorem Refused.not_serves (hrefused : Refused h n p) (hp : Sound p)
    (hle : grownSize n p ≤ p.mDataSize) : ¬ Serves n p := by
  intro hserves
  have hfull := hrefused.room hp
  have hsize := hp.size_le
  unfold Serves at hserves
  rw [if_neg hrefused.1] at hserves
  rw [hp.blockSize] at hfull
  split at hserves
  · bv_omega
  · bv_omega

theorem Null.serves (hnull : Null n p) : Serves n p := by
  have henough := hnull.enough
  obtain ⟨-, hpos, rfl⟩ := hnull
  unfold Serves
  rw [if_pos henough, hpos]
  decide

/-- Nothing is asked for, so nothing is missing. -/
theorem Null.written (hnull : Null (PAD_SIZE len) p) (hp : Sound p)
    (hlen : len.toNat + 3 < 2 ^ 32) :
    Written [] (PAD_SIZE len).toNat p (handOut len p).parcel (handOut len p).writes :=
  (handOut_written (p := p) hlen rfl).mpr
    ((hp.enough_ready hnull.enough).mpr hnull.serves)

/-- A padded length that has wrapped to nothing: the mask goes to the word before the null
pointer. -/
theorem Null.outside (hnull : Null (PAD_SIZE len) p) (hlen : ¬ len.toNat + 3 < 2 ^ 32) :
    ¬ ∀ a ∈ (handOut len p).writes, a.InBounds := by
  obtain ⟨-, hpos, hzero⟩ := hnull
  have hne : PAD_SIZE len ≠ len := by
    rw [hzero]
    rintro rfl
    exact hlen (by decide)
  intro hin
  have hmask := hin (access (p.mDataPos.toNat + (PAD_SIZE len).toNat - 4) 4 p) (by
    unfold handOut
    simp [hne])
  rw [hpos, hzero] at hmask
  rcases hmask with hnil | ⟨hfirst, -⟩
  · cases hnil
  · have hbefore : (0 : Int) ≤ 0 + 0 - 4 := hfirst
    omega

/-- The ways in which `writeInplace` comes back. -/
inductive Handed (h : Heap) (len : size_t) (p : Parcel) : Outcome (Option size_t) → Prop
  | wrapped (hlen : len.toNat + 3 < 2 ^ 32)
      (hsum : 2 ^ 32 ≤ p.mDataPos.toNat + (PAD_SIZE len).toNat) : Handed h len p ⟨none, p, []⟩
  | refused (hsum : p.mDataPos.toNat + (PAD_SIZE len).toNat < 2 ^ 32)
      (hrefused : Refused h (PAD_SIZE len) p) :
      Handed h len p ⟨none, afterRefusal (PAD_SIZE len) p, []⟩
  | null (hrefused : ¬ Refused h (PAD_SIZE len) p) (hnull : Null (PAD_SIZE len) p) :
      Handed h len p ⟨none, (handOut len p).parcel, (handOut len p).writes⟩
  | made (q : Parcel) (hsum : p.mDataPos.toNat + (PAD_SIZE len).toNat < 2 ^ 32)
      (hrefused : ¬ Refused h (PAD_SIZE len) p) (hnull : ¬ Null (PAD_SIZE len) p)
      (hroomy : Roomy (PAD_SIZE len) p q) :
      Handed h len p ⟨some q.mDataPos, (handOut len q).parcel, (handOut len q).writes⟩

theorem handOut_eq (len : size_t) (q : Parcel) :
    handOut len q = ⟨place q, (handOut len q).parcel, (handOut len q).writes⟩ := by
  rw [← handOut_result len q]

theorem writeInplace_handed (h : Heap) (len : size_t) (hp : Sound p) :
    Handed h len p (writeInplace h len p) := by
  by_cases hsum : 2 ^ 32 ≤ p.mDataPos.toNat + (PAD_SIZE len).toNat
  · rw [writeInplace_wraps hsum]
    rcases padSize_cases len with ⟨hlen, -⟩ | ⟨-, hzero, -⟩
    · exact .wrapped hlen hsum
    · rw [hzero] at hsum
      have := p.mDataPos.isLt
      have hnil : (0 : size_t).toNat = 0 := rfl
      omega
  · have hsum := Nat.not_le.mp hsum
    by_cases hrefused : Refused h (PAD_SIZE len) p
    · rw [writeInplace_refused hsum hrefused]
      exact .refused hsum hrefused
    · have hroomy := roomFor_roomy hp hrefused
      rw [writeInplace_made hsum hrefused]
      generalize (roomFor h (PAD_SIZE len) p).2 = q at hroomy
      rw [handOut_eq, hroomy.place_eq hp]
      by_cases hnull : Null (PAD_SIZE len) p
      · cases hroomy.same hnull.enough
        rw [if_pos hnull]
        exact .null hrefused hnull
      · rw [if_neg hnull]
        exact .made q hsum hrefused hnull hroomy

/-- Where growth is refused, or the sum wraps, the padded length does not fit either. -/
theorem Refused.padded_room (hrefused : Refused h (PAD_SIZE len) p) (hp : Sound p) :
    p.blockSize < p.mDataPos.toNat + padSize len.toNat := by
  have hroom := hrefused.room hp
  rcases padSize_cases len with ⟨-, hpad⟩ | ⟨-, hzero, hpad⟩
  · rwa [← hpad]
  · have := blockSize_lt p
    omega

theorem inplace_faithful (h : Nat → Heap) (hp : Sound p) :
    Faithful h p (.inplace len) ↔ Served h p (.inplace len) := by
  show Truthful [] (padSize len.toNat) p (writeInplace (h 0) len p).nonnull ↔ _
  unfold Served
  dsimp only
  have hlt := blockSize_lt p
  have hhanded := writeInplace_handed (h 0) len hp
  generalize writeInplace (h 0) len p = d at hhanded
  cases hhanded with
  | wrapped hlen hsum =>
    have hpad : (PAD_SIZE len).toNat = padSize len.toNat := by
      have := padSize_cases len
      omega
    have hfailed : Truthful [] (padSize len.toNat) p (Outcome.nonnull ⟨none, p, []⟩) :=
      (truthful_refused_iff (p := p) (e := p.mError) rfl rfl (by omega)).mpr rfl
    rw [if_pos hlen]
    exact iff_of_true hfailed (Or.inl hsum)
  | refused hsum hrefused =>
    have hfailed : Truthful [] (padSize len.toNat) p
        (Outcome.nonnull ⟨none, afterRefusal (PAD_SIZE len) p, []⟩) :=
      (truthful_refused_iff (p := p) rfl rfl (hrefused.padded_room hp)).mpr rfl
    refine iff_of_true hfailed ?_
    split
    · exact Or.inr (Or.inl hrefused)
    · exact hrefused
  | null hrefused hnull =>
    rcases padSize_cases len with ⟨hlen, hpad⟩ | ⟨hlen, hzero, hpad⟩
    · have hwritten := hnull.written hp hlen
      rw [if_pos hlen, ← hpad]
      refine iff_of_false (fun ht => ?_) ?_
      · cases ht.reported.mpr hwritten
      · rintro (hsum | hrefused' | ⟨-, hnot⟩)
        · exact absurd hnull.serves.sum (Nat.not_lt.mpr hsum)
        · exact hrefused hrefused'
        · exact hnot hnull
    · rw [if_neg hlen]
      exact iff_of_false (fun ht => hnull.outside hlen (ht.failed rfl).2) hrefused
  | made q hsum hrefused hnull hroomy =>
    rw [truthful_iff_written rfl]
    rcases padSize_cases len with ⟨hlen, hpad⟩ | ⟨hlen, hzero, hpad⟩
    · rw [if_pos hlen, or_iff_right (Nat.not_le.mpr hsum), or_iff_right hrefused,
        and_iff_left hnull, ← hroomy.ready, ← hpad]
      exact handOut_written hlen hroomy.size
    · rw [if_neg hlen]
      exact iff_of_false (not_written_of_large hpad.ge) hrefused

/-- What `write` makes of the pointer. -/
theorem write_eq (data : Block) : write h data len p = match writeInplace h len p with
    | ⟨some offset, q, writes⟩ => ⟨.NO_ERROR, q.poke data len.toNat offset.toNat, writes⟩
    | ⟨none, q, writes⟩ => ⟨q.mError, q, writes⟩ := by
  unfold write
  generalize writeInplace h len p = d
  obtain ⟨result, q, writes⟩ := d
  cases result <;> rfl

/-- A null pointer is reported by way of `mError`. -/
theorem ok_eq_false (q : Parcel) (writes : List Access) :
    (Outcome.ok ⟨q.mError, q, writes⟩).result = false ↔ q.mError ≠ .NO_ERROR := by
  simp [Outcome.ok]

theorem told_iff (hrefused : Refused h n p) :
    Told h n p ↔ (afterRefusal n p).mError ≠ .NO_ERROR := by
  unfold Told afterRefusal
  rw [and_iff_right hrefused]
  dsimp only
  split
  · next hle => exact ⟨fun ht => ht hle, fun ht _ => ht⟩
  · next hle => exact ⟨fun _ => by simp, fun _ h => absurd h hle⟩

theorem block_faithful (h : Nat → Heap) (data : Block) (hp : Sound p) :
    Faithful h p (.block data len) ↔ Served h p (.block data len) := by
  show Truthful (toList len.toNat data) (padSize len.toNat) p (write (h 0) data len p).ok ↔ _
  rw [write_eq]
  unfold Served
  dsimp only
  have hlt := blockSize_lt p
  have hhanded := writeInplace_handed (h 0) len hp
  generalize writeInplace (h 0) len p = d at hhanded
  cases hhanded with
  | wrapped hlen hsum =>
    have hpad : (PAD_SIZE len).toNat = padSize len.toNat := by
      have := padSize_cases len
      omega
    have hserves : ¬ Serves (PAD_SIZE len) p := fun hs => absurd hs.sum (Nat.not_lt.mpr hsum)
    have hroom : p.blockSize < p.mDataPos.toNat + padSize len.toNat := by omega
    rw [if_pos hlen, truthful_refused_iff (e := p.mError) rfl rfl hroom, ok_eq_false]
    simp only [hsum, true_and, Nat.not_lt.mpr hsum, false_and, hserves, or_false]
  | refused hsum hrefused =>
    have htold := told_iff hrefused
    rw [truthful_refused_iff (p := p) rfl rfl (hrefused.padded_room hp), ok_eq_false, ← htold]
    split
    · constructor
      · exact fun ht => Or.inr (Or.inl ⟨hsum, ht⟩)
      · rintro (⟨hwraps, -⟩ | ⟨-, ht⟩ | ⟨hserves, -⟩)
        · exact absurd hsum (Nat.not_lt.mpr hwraps)
        · exact ht
        · exact ⟨hrefused, fun hle => absurd hserves (hrefused.not_serves hp hle)⟩
    · exact Iff.rfl
  | null hrefused hnull =>
    have hnot : ¬ Told (h 0) (PAD_SIZE len) p := fun ht => hrefused ht.1
    have herror : (handOut len p).parcel.mError = p.mError := handOut_mError len p
    rcases padSize_cases len with ⟨hlen, hpad⟩ | ⟨hlen, hzero, hpad⟩
    · have hsum := hnull.serves.sum
      have hnil : len.toNat = 0 := by
        have := le_PAD_SIZE hlen
        rw [hnull.2.2] at this
        exact Nat.le_zero.mp this.1
      have hwritten := hnull.written hp hlen
      rw [if_pos hlen, ← hpad, hnil]
      simp only [Nat.not_le.mpr hsum, false_and, hnot, and_false, false_or, hnull.serves,
        true_and, hnull, true_imp_iff]
      -- no bytes are there whatever is reported
      constructor
      · intro ht
        have hok := ht.reported.mpr hwritten
        rw [← herror]
        exact of_decide_eq_true hok
      · intro hok
        rw [← herror] at hok
        exact (truthful_iff_written (decide_eq_true hok)).mpr hwritten
    · rw [if_neg hlen]
      refine iff_of_false (fun ht => ?_) hnot
      cases hresult : (Outcome.ok ⟨(handOut len p).parcel.mError, (handOut len p).parcel,
        (handOut len p).writes⟩).result with
      | true => exact not_written_of_large hpad.ge (ht.reported.mp hresult)
      | false => exact hnull.outside hlen (ht.failed hresult).2
  | made q hsum hrefused hnull hroomy =>
    have hnot : ¬ Told (h 0) (PAD_SIZE len) p := fun ht => hrefused ht.1
    rw [truthful_iff_written rfl]
    rcases padSize_cases len with ⟨hlen, hpad⟩ | ⟨hlen, hzero, hpad⟩
    · rw [if_pos hlen, ← hpad]
      simp only [Nat.not_le.mpr hsum, false_and, hnot, and_false, false_or, hnull,
        false_imp_iff, and_true, ← hroomy.ready]
      exact handOut_poke_written data hlen hroomy.size
    · rw [if_neg hlen]
      exact iff_of_false (not_written_of_large hpad.ge) hnot

/-! ## Strings -/

/-- The bytes of a string go to the pointer that `writeInplace` returned. -/
def fillRoom (fill : size_t → Parcel → Parcel) (d : Outcome (Option size_t)) : Outcome Status :=
  match d with
  | ⟨some offset, q, writes⟩ => ⟨.NO_ERROR, fill offset q, writes⟩
  | ⟨none, q, writes⟩ => ⟨q.mError, q, writes⟩

/-- A word, and `len` bytes behind it. -/
def wordAndRoom (h : Nat → Heap) (val : BitVec 32) (fill : size_t → Parcel → Parcel)
    (len : size_t) (p : Parcel) : Outcome Status :=
  let first := writeInt32 (h 0) val p
  if first.result = .NO_ERROR then
    let rest := fillRoom fill (writeInplace (h 1) len first.parcel)
    { rest with writes := first.writes ++ rest.writes }
  else first

/-- What is filled in is `rest`, and nothing else changes. -/
structure Fills (rest : List UInt8) (fill : size_t → Parcel → Parcel) : Prop where
  pos : ∀ offset q, (fill offset q).mDataPos = q.mDataPos
  size : ∀ offset q, (fill offset q).mDataSize = q.mDataSize
  block : ∀ offset q, (fill offset q).blockSize = q.blockSize
  data : ∀ offset q new, (fill offset q).mData = some new → ∃ old, q.mData = some old ∧
    toList rest.length (shift offset.toNat new) = rest ∧ ∀ i < offset.toNat, new i = old i

/-- Growth never moves the position on. -/
theorem roomFor_pos_le (hrefused : ¬ Refused h n p) :
    (roomFor h n p).2.mDataPos ≤ p.mDataPos := by
  have hok := roomFor_ok hrefused
  by_cases henough : Enough n p
  · rw [roomFor_enough henough]
    exact BitVec.le_refl _
  · rw [roomFor_full henough] at hok ⊢
    obtain ⟨hlt, hcontinued⟩ := growData_continued hok
    generalize (growData h n p).2 = q at hcontinued
    cases hcontinued with
    | freed howner hzero => bv_omega
    | taken data howner hne => exact BitVec.le_refl _
    | grown old data howner hold hmore hdata =>
      rw [dropObjects_of_le (BitVec.le_of_lt hlt)]
      exact BitVec.le_refl _
    | cut old howner hold hlarge =>
      dsimp only
      split <;> bv_omega
    | first data howner hnone hdata => exact BitVec.le_def.mpr (Nat.zero_le _)

theorem growData_isSome (hok : (growData h n p).1 = .NO_ERROR) :
    (growData h n p).2.mData.isSome = true := by
  obtain ⟨hlt, hcontinued⟩ := growData_continued hok
  generalize (growData h n p).2 = q at hcontinued
  cases hcontinued with
  | freed howner hzero => bv_omega
  | cut old howner hold hlarge => simp [hold]
  | _ => rfl

/-- Whatever the state, a null pointer comes with the position and the size as they were,
and another with a position that is the padded length behind the old one or less. -/
theorem writeInplace_pos (h : Heap) (len : size_t)
    (hblock : p.mData = none → p.mDataCapacity = 0) :
    ((writeInplace h len p).result = none →
      (writeInplace h len p).parcel.mDataPos = p.mDataPos ∧
        (writeInplace h len p).parcel.mDataSize = p.mDataSize) ∧
    (∀ offset, (writeInplace h len p).result = some offset → offset ≤ p.mDataPos ∧
      (writeInplace h len p).parcel.mDataPos = offset + PAD_SIZE len) := by
  by_cases hsum : 2 ^ 32 ≤ p.mDataPos.toNat + (PAD_SIZE len).toNat
  · rw [writeInplace_wraps hsum]
    exact ⟨fun _ => ⟨rfl, rfl⟩, nofun⟩
  · have hsum := Nat.not_le.mp hsum
    by_cases hrefused : Refused h (PAD_SIZE len) p
    · rw [writeInplace_refused hsum hrefused]
      exact ⟨fun _ => ⟨rfl, rfl⟩, nofun⟩
    · have hle := roomFor_pos_le hrefused
      rw [writeInplace_made hsum hrefused]
      simp only [handOut_result, handOut_mDataPos, handOut_mDataSize]
      refine ⟨fun hplace => ?_, fun offset hplace => ?_⟩
      · -- without a block there is room for nothing only
        unfold place at hplace
        split at hplace
        · next hnull =>
          have henough : Enough (PAD_SIZE len) p := by
            by_contra hfull
            have hsome := growData_isSome (roomFor_full (h := h) hfull ▸ roomFor_ok hrefused)
            rw [roomFor_full hfull] at hnull
            simp [Option.isNone_iff_eq_none.mp hnull.1] at hsome
          rw [roomFor_enough henough] at hnull ⊢
          have hcapacity := hblock (Option.isNone_iff_eq_none.mp hnull.1)
          have hpos : p.mDataPos = 0 := hnull.2
          unfold Enough at henough
          rw [hcapacity, hpos] at henough
          have hzero : PAD_SIZE len = 0 := by bv_omega
          simp only [hzero, hpos]
          refine ⟨rfl, if_neg ?_⟩
          bv_omega
        · cases hplace
      · unfold place at hplace
        split at hplace
        · cases hplace
        · cases hplace
          exact ⟨hle, rfl⟩

/-- The word of a string, where there is room for it. -/
abbrev putWord (val : BitVec 32) : Parcel → Outcome Status := putData (ofList (wordBytes val)) 4

/-- The parcel has changed then, wherever the word went. -/
theorem Roomy.word_changed (hroomy : Roomy 4 p q) (val : BitVec 32) :
    ¬ ((putWord val q).parcel.mDataPos = p.mDataPos ∧
      (putWord val q).parcel.mDataSize = p.mDataSize) := by
  rintro ⟨hpos, hsize⟩
  have hmoved := hroomy.moved
  have hle := hroomy.pos
  have hsame := hroomy.size
  have hpos : q.mDataPos + 4 = p.mDataPos := hpos
  have hsize : (if q.mDataSize < q.mDataPos + 4 then q.mDataPos + 4 else q.mDataSize) =
    p.mDataSize := hsize
  split at hsize <;> bv_omega

theorem Roomy.word_isSome (hroomy : Roomy 4 p q) (hserves : Serves 4 p) :
    q.mData.isSome = true := by
  have hroom := (hroomy.ready.mpr hserves).2
  have hfour : (4 : size_t).toNat = 4 := rfl
  unfold Parcel.blockSize at hroom
  split at hroom
  · assumption
  · omega

theorem Roomy.word_sound (hroomy : Roomy 4 p q) (hserves : Serves 4 p) (val : BitVec 32) :
    Sound (putWord val q).parcel := by
  have hready := hroomy.sound.ready_iff.mp (hroomy.ready.mpr hserves)
  refine (hroomy.sound.poke _ _ _).finishWrite ?_
  show q.mDataPos.toNat + (4 : size_t).toNat ≤ q.mDataCapacity.toNat
  rw [hready.1]
  exact hready.2

/-- What the next growth looks at. -/
structure SameExtent (p q : Parcel) : Prop where
  pos : p.mDataPos = q.mDataPos
  size : p.mDataSize = q.mDataSize
  capacity : p.mDataCapacity = q.mDataCapacity
  owner : p.mOwner = q.mOwner
  block : p.mData.isSome = q.mData.isSome
  objects : p.mObjects = q.mObjects

theorem SameExtent.enough (hsame : SameExtent p q) : Enough n p ↔ Enough n q := by
  unfold Enough
  rw [hsame.pos, hsame.capacity]

theorem SameExtent.grownSize (hsame : SameExtent p q) :
    Memory.grownSize n p = Memory.grownSize n q := by
  unfold Memory.grownSize
  rw [hsame.size]

theorem SameExtent.serves (hsame : SameExtent p q) : Serves n p ↔ Serves n q := by
  simp only [Serves, hsame.enough, hsame.grownSize, hsame.pos, hsame.capacity, hsame.owner,
    hsame.block]

theorem SameExtent.refused (hsame : SameExtent p q) : Refused h n p ↔ Refused h n q := by
  have hnone : p.mData = none ↔ q.mData = none := by
    rw [← Option.isSome_eq_false_iff.trans Option.isNone_iff_eq_none,
      ← Option.isSome_eq_false_iff.trans Option.isNone_iff_eq_none, hsame.block]
  simp only [Refused, Lacking, hsame.enough, hsame.grownSize, hsame.size, hsame.capacity,
    hsame.owner, hsame.objects, hnone]

theorem Roomy.behindWord (hroomy : Roomy 4 p q) (hserves : Serves 4 p) (val : BitVec 32) :
    SameExtent (putWord val q).parcel (behindWord p) := by
  have hpos := (hroomy.ready.mpr hserves).1
  have hsize := hroomy.size
  refine ⟨?_, ?_, ?_, ?_, ?_, hroomy.objects⟩
  · show q.mDataPos + 4 = p.mDataPos + 4
    rw [hpos]
  · show (if q.mDataSize < q.mDataPos + 4 then q.mDataPos + 4 else q.mDataSize) =
      if p.mDataSize < p.mDataPos + 4 then p.mDataPos + 4 else p.mDataSize
    rw [hpos, hsize]
  · show q.mDataCapacity =
      if p.mDataPos + 4 ≤ p.mDataCapacity then p.mDataCapacity else grownSize 4 p
    split
    · next henough => rw [hroomy.same henough]
    · next hfull => exact (hroomy.served hserves hfull).2
  · show q.mOwner = (p.mOwner && decide (p.mDataPos + 4 ≤ p.mDataCapacity))
    by_cases henough : p.mDataPos + 4 ≤ p.mDataCapacity
    · rw [hroomy.same henough, decide_eq_true henough, Bool.and_true]
    · rw [(hroomy.served hserves henough).1, decide_eq_false henough, Bool.and_false]
  · have hsome := hroomy.word_isSome hserves
    show (q.mData.map _).isSome = true
    rw [Option.isSome_map]
    exact hsome

/-- The word stays where it is while the rest is written behind it. -/
theorem Roomy.string_bytes {fill : size_t → Parcel → Parcel} {rest : List UInt8} {q' : Parcel}
    (val : BitVec 32) (hfill : Fills rest fill) (hlen : len.toNat + 3 < 2 ^ 32)
    (hq : q.mDataPos = p.mDataPos) (hsum : p.mDataPos.toNat + 4 < 2 ^ 32)
    (hsound : Sound (putWord val q).parcel) (hroomy : Roomy n (putWord val q).parcel q')
    (hq' : q'.mDataPos.toNat = p.mDataPos.toNat + 4) (hsome : q.mData.isSome = true) {new : Block}
    (hnew : (fill q'.mDataPos (handOut len q').parcel).mData = some new) :
    toList (wordBytes val ++ rest).length (shift p.mDataPos.toNat new) =
      wordBytes val ++ rest := by
  obtain ⟨handed, hhanded, hrest, hbehind⟩ := hfill.data _ _ _ hnew
  obtain ⟨block, hblock⟩ := Option.isSome_iff_exists.mp hsome
  have hword : (putWord val q).parcel.mData =
      some (blit (ofList (wordBytes val)) 4 p.mDataPos.toNat block) := by
    show (q.mData.map _) = _
    rw [hblock, hq]
    rfl
  have hsize : p.mDataPos.toNat + 4 ≤
      (putWord val q).parcel.mDataSize.toNat := by
    show _ ≤ (if q.mDataSize < q.mDataPos + 4 then q.mDataPos + 4 else q.mDataSize).toNat
    rw [hq]
    have hfour : (p.mDataPos + 4).toNat = p.mDataPos.toNat + 4 := by
      rw [BitVec.toNat_add]
      exact Nat.mod_eq_of_lt hsum
    split <;> bv_omega
  obtain ⟨grown, hgrown⟩ : ∃ grown, q'.mData = some grown := by
    by_cases henough : Enough n (putWord val q).parcel
    · rw [hroomy.same henough]
      exact ⟨_, hword⟩
    · exact Option.isSome_iff_exists.mp (hroomy.grown henough)
  rw [hq'] at hrest hbehind
  rw [List.length_append, length_wordBytes, toList_add]
  congr 1
  · refine Eq.trans (toList_congr fun i hi => ?_)
      (toList_shift_blit (ofList (wordBytes val)) 4 p.mDataPos.toNat block)
    show new (p.mDataPos.toNat + i) = blit _ 4 _ block (p.mDataPos.toNat + i)
    rw [hbehind _ (by omega), handOut_front hlen hgrown hhanded (by omega)]
    have hkept := hsound.size_le_kept
    exact hroomy.front _ hword _ hgrown _ (by omega)
  · have hshift : shift 4 (shift p.mDataPos.toNat new) = shift (p.mDataPos.toNat + 4) new := by
      funext i
      rw [shift, shift, shift, Nat.add_assoc]
    rw [hshift]
    exact hrest

theorem padSize_pos {len : Nat} (hlen : 0 < len) : 4 ≤ padSize len := by
  unfold padSize
  omega

/-- A length that can be padded, or more bytes than there are addresses. -/
theorem padded_or_large (len : Nat) :
    len + 3 < 2 ^ 32 ∧ (BitVec.ofNat 32 len).toNat = len ∨ 2 ^ 32 ≤ padSize len := by
  unfold padSize
  rw [BitVec.toNat_ofNat]
  omega

section
variable {fill : size_t → Parcel → Parcel} {rest : List UInt8}

theorem wordAndRoom_refused {h : Nat → Heap} (val : BitVec 32) (hrefused : Refused (h 0) 4 p) :
    wordAndRoom h val fill len p = ⟨.NO_MEMORY, afterRefusal 4 p, []⟩ := by
  have hfirst : writeInt32 (h 0) val p = ⟨.NO_MEMORY, afterRefusal 4 p, []⟩ :=
    hrefused.restartingWrite (putWord val) fun err _ => err
  unfold wordAndRoom
  dsimp only
  rw [hfirst]
  rfl

theorem wordAndRoom_made {h : Nat → Heap} (val : BitVec 32) (hrefused : ¬ Refused (h 0) 4 p) :
    wordAndRoom h val fill len p =
      let first := putWord val (roomFor (h 0) 4 p).2
      let rest := fillRoom fill (writeInplace (h 1) len first.parcel)
      ⟨rest.result, rest.parcel, first.writes ++ rest.writes⟩ := by
  have hfirst : writeInt32 (h 0) val p = putWord val (roomFor (h 0) 4 p).2 :=
    if_pos (roomFor_ok hrefused)
  unfold wordAndRoom
  dsimp only
  rw [hfirst]
  rfl

/-- A string that is truthful has got its word, and a pointer behind it. -/
theorem string_made {len : Nat} {d : Outcome (Option size_t)}
    (val : BitVec 32) (hlen : 0 < len) (hfill : len + 3 < 2 ^ 32 → Fills rest fill)
    (hroomy : Roomy 4 p q)
    (hnull : d.result = none → d.parcel.mDataPos = (putWord val q).parcel.mDataPos ∧
      d.parcel.mDataSize = (putWord val q).parcel.mDataSize)
    (hsome : ∀ offset, d.result = some offset → offset ≤ (putWord val q).parcel.mDataPos ∧
      d.parcel.mDataPos = offset + PAD_SIZE (BitVec.ofNat 32 len))
    (ht : Truthful (wordBytes val ++ rest) (4 + padSize len) p (Outcome.ok
      ⟨(fillRoom fill d).result, (fillRoom fill d).parcel,
        (putWord val q).writes ++ (fillRoom fill d).writes⟩)) :
    Serves 4 p ∧ len + 3 < 2 ^ 32 ∧ ∃ offset, d.result = some offset ∧
      offset.toNat = p.mDataPos.toNat + 4 ∧
        p.mDataPos.toNat + (4 + padSize len) ≤ d.parcel.blockSize := by
  have hpad := padSize_pos hlen
  have hle : q.mDataPos.toNat ≤ p.mDataPos.toNat := hroomy.pos
  have hword : ((putWord val q).parcel.mDataPos).toNat ≤ q.mDataPos.toNat + 4 := by
    show (q.mDataPos + 4).toNat ≤ _
    rw [BitVec.toNat_add]
    exact Nat.mod_le _ _
  obtain ⟨result, r, made⟩ := d
  cases result with
  | none =>
    exfalso
    obtain ⟨hpos, hsize⟩ := hnull rfl
    cases hresult : decide (r.mError = .NO_ERROR) with
    | true =>
      have hmoved : r.mDataPos.toNat = p.mDataPos.toNat + (4 + padSize len) :=
        (ht.reported.mp hresult).pos
      have hpos : r.mDataPos = (putWord val q).parcel.mDataPos := hpos
      rw [hpos] at hmoved
      omega
    | false =>
      have hsame : Unchanged p r := (ht.failed hresult).1
      exact hroomy.word_changed val ⟨hpos.symm.trans hsame.pos, hsize.symm.trans hsame.size⟩
  | some offset =>
    obtain ⟨hoffset, hpos⟩ := hsome offset rfl
    have hwritten := ht.reported.mp rfl
    rcases padded_or_large len with ⟨hsmall, hnat⟩ | hlarge
    · have hfill := hfill hsmall
      have hmoved : (fill offset r).mDataPos.toNat = p.mDataPos.toNat + (4 + padSize len) :=
        hwritten.pos
      have hlength : (PAD_SIZE (BitVec.ofNat 32 len)).toNat = padSize len := toNat_padded hsmall
      have hpos : r.mDataPos = offset + PAD_SIZE (BitVec.ofNat 32 len) := hpos
      have hoffset : offset.toNat ≤ (putWord val q).parcel.mDataPos.toNat := hoffset
      rw [hfill.pos, hpos, BitVec.toNat_add, hlength] at hmoved
      have hroom : p.mDataPos.toNat + (4 + padSize len) ≤ (fill offset r).blockSize :=
        hwritten.room
      rw [hfill.block] at hroom
      have hmod := Nat.mod_le (offset.toNat + padSize len) (2 ^ 32)
      have hsame : q.mDataPos.toNat = p.mDataPos.toNat := by omega
      refine ⟨hroomy.ready.mp ⟨BitVec.eq_of_toNat_eq hsame, ?_⟩, hsmall, offset, rfl, ?_, hroom⟩
      · have hin := access_room (by decide) (hwritten.inBounds (access q.mDataPos.toNat 4 q)
          (List.mem_append_left _ List.mem_cons_self))
        rw [hsame] at hin
        exact hin
      · omega
    · exact absurd hwritten (not_written_of_large (by omega))

/-- With the word and the pointer, the rest is there. -/
theorem string_written {len : Nat} {q' : Parcel} (val : BitVec 32) (hfill : Fills rest fill)
    (hlen : len + 3 < 2 ^ 32) (hroomy : Roomy 4 p q) (hserves : Serves 4 p)
    (hmade : Roomy (PAD_SIZE (BitVec.ofNat 32 len)) (putWord val q).parcel q')
    (hbehind : Serves (PAD_SIZE (BitVec.ofNat 32 len)) (putWord val q).parcel) :
    Written (wordBytes val ++ rest) (4 + padSize len) p
      (fill q'.mDataPos (handOut (BitVec.ofNat 32 len) q').parcel)
      ((putWord val q).writes ++ (handOut (BitVec.ofNat 32 len) q').writes) := by
  have hready := hroomy.ready.mpr hserves
  have hready' := hmade.ready.mpr hbehind
  have hlength : (PAD_SIZE (BitVec.ofNat 32 len)).toNat = padSize len := toNat_padded hlen
  have hnat : (BitVec.ofNat 32 len).toNat = len := by
    rw [BitVec.toNat_ofNat]
    omega
  have hfour : (4 : size_t).toNat = 4 := rfl
  have hlt := blockSize_lt q
  have hsum : p.mDataPos.toNat + 4 < 2 ^ 32 := by
    have := hready.2
    omega
  have hword : (putWord val q).parcel.mDataPos.toNat = p.mDataPos.toNat + 4 := by
    show (q.mDataPos + 4).toNat = _
    rw [hready.1, BitVec.toNat_add]
    exact Nat.mod_eq_of_lt hsum
  have hsmall : (BitVec.ofNat 32 len).toNat + 3 < 2 ^ 32 := by
    rw [hnat]
    exact hlen
  have hwritten := (handOut_written hsmall hmade.size).mpr hready'
  have hfirst := (putData_written (ofList (wordBytes val)) hroomy.size).mpr hready
  refine ⟨?_, ?_, ?_, ?_, ?_⟩
  · intro a ha
    rcases List.mem_append.mp ha with ha | ha
    · exact hfirst.inBounds a ha
    · exact hwritten.inBounds a ha
  · rw [hfill.block]
    have := hwritten.room
    omega
  · intro new hnew
    refine hmade.string_bytes val hfill hsmall hready.1 hsum (hroomy.word_sound hserves val) ?_
      (hroomy.word_isSome hserves) hnew
    rw [hready'.1, hword]
  · rw [hfill.pos]
    have := hwritten.pos
    omega
  · rw [hfill.size, hwritten.size, hword, hlength]
    have hsize : (putWord val q).parcel.mDataSize.toNat = _ := hfirst.size
    rw [hsize]
    omega

theorem string_truthful {len : Nat} (h : Nat → Heap) (val : BitVec 32) (hp : Sound p)
    (hlen : 0 < len) (hfill : len + 3 < 2 ^ 32 → Fills rest fill) :
    Truthful (wordBytes val ++ rest) (4 + padSize len) p
        (wordAndRoom h val fill (BitVec.ofNat 32 len) p).ok ↔ StringServed h p len := by
  unfold StringServed
  dsimp only
  by_cases hrefused : Refused (h 0) 4 p
  · have hroom : p.blockSize < p.mDataPos.toNat + (4 + padSize len) := by
      have := hrefused.room hp
      have hfour : (4 : size_t).toNat = 4 := rfl
      omega
    have hfailed : Truthful (wordBytes val ++ rest) (4 + padSize len) p
        (Outcome.ok ⟨.NO_MEMORY, afterRefusal 4 p, []⟩) :=
      (truthful_refused_iff (p := p) rfl rfl hroom).mpr rfl
    rw [wordAndRoom_refused val hrefused]
    exact iff_of_true hfailed (Or.inl hrefused)
  have hroomy := roomFor_roomy hp hrefused
  rw [or_iff_right hrefused, wordAndRoom_made val hrefused]
  generalize (roomFor (h 0) 4 p).2 = q at hroomy
  dsimp only
  constructor
  · intro ht
    have hblock : (putWord val q).parcel.mData = none →
        (putWord val q).parcel.mDataCapacity = 0 := fun hnone =>
      hroomy.sound.null (by simpa [putData, Parcel.finishWrite, Parcel.poke] using hnone)
    obtain ⟨hnull, hsome⟩ := writeInplace_pos (h 1) (BitVec.ofNat 32 len) hblock
    obtain ⟨hserves, hsmall, offset, hresult, hoffset, hroom⟩ :=
      string_made val hlen hfill hroomy hnull hsome ht
    have hsame := hroomy.behindWord hserves val
    have hhanded := writeInplace_handed (h 1) (BitVec.ofNat 32 len)
      (hroomy.word_sound hserves val)
    generalize writeInplace (h 1) (BitVec.ofNat 32 len) (putWord val q).parcel = d
      at hhanded hresult hroom
    cases hhanded with
    | made q' hsum hmore hnull' hmade =>
      cases hresult
      have hword : (putWord val q).parcel.mDataPos.toNat = p.mDataPos.toNat + 4 := by
        show (q.mDataPos + 4).toNat = _
        rw [(hroomy.ready.mpr hserves).1, BitVec.toNat_add]
        have hlt : q'.mDataPos.toNat < 2 ^ 32 := q'.mDataPos.isLt
        rw [hoffset] at hlt
        exact Nat.mod_eq_of_lt hlt
      refine ⟨hserves, hsmall, fun hno => hmore (hsame.refused.mpr hno), ?_⟩
      refine hsame.serves.mp (hmade.ready.mp ⟨BitVec.eq_of_toNat_eq (hoffset.trans hword.symm), ?_⟩)
      rw [hword, toNat_padded hsmall]
      simp only [handOut_blockSize] at hroom
      omega
    | _ => cases hresult
  · rintro ⟨hserves, hsmall, hmore, hbehind⟩
    have hsame := hroomy.behindWord hserves val
    have hbehind := hsame.serves.mpr hbehind
    have hhanded := writeInplace_handed (h 1) (BitVec.ofNat 32 len)
      (hroomy.word_sound hserves val)
    generalize writeInplace (h 1) (BitVec.ofNat 32 len) (putWord val q).parcel = d at hhanded
    cases hhanded with
    | wrapped hlen' hsum => exact absurd hbehind.sum (Nat.not_lt.mpr hsum)
    | refused hsum hno => exact absurd (hsame.refused.mp hno) hmore
    | null hno hnull =>
      have hnone : q.mData.map _ = none := hnull.1
      have hsome := hroomy.word_isSome hserves
      simp [Option.map_eq_none_iff.mp hnone] at hsome
    | made q' hsum hno hnull hmade =>
      exact (truthful_iff_written rfl).mpr
        (string_written val (hfill hsmall) hsmall hroomy hserves hmade hbehind)

end

/-! ## Every write -/

theorem fills_string8 (str : String8) (hlen : str.length + 1 + 3 < 2 ^ 32) :
    Fills (str ++ [0]) fun offset q => q.poke (ofList (str ++ [0]))
      (BitVec.ofNat 32 str.length + 1).toNat offset.toNat := by
  have hnat : (BitVec.ofNat 32 str.length + 1).toNat = (str ++ [0]).length := by
    rw [← ofNat_succ, BitVec.toNat_ofNat, List.length_append, List.length_singleton]
    omega
  refine ⟨fun _ _ => rfl, fun _ _ => rfl, fun _ _ => blockSize_poke _ _ _ _, ?_⟩
  intro offset q new hnew
  obtain ⟨old, hold, rfl⟩ := Option.map_eq_some_iff.mp hnew
  refine ⟨old, hold, ?_, fun i hi => if_neg (by omega)⟩
  rw [hnat, toList_shift_blit, toList_ofList]

theorem fills_string16 (str : String16) (hlen : (str.length + 1) * 2 + 3 < 2 ^ 32) :
    Fills (str.flatMap charBytes ++ [0, 0]) fun offset q =>
      (q.poke (ofList (str.flatMap charBytes)) (BitVec.ofNat 32 str.length * 2).toNat
        offset.toNat).poke (ofList [0, 0]) 2
          (offset.toNat + (BitVec.ofNat 32 str.length * 2).toNat) := by
  have hnat : (BitVec.ofNat 32 str.length * 2).toNat = (str.flatMap charBytes).length := by
    have htwo : (2 : BitVec 32).toNat = 2 := rfl
    rw [length_flatMap_chars, BitVec.toNat_mul, BitVec.toNat_ofNat, htwo]
    omega
  refine ⟨fun _ _ => rfl, fun _ _ => rfl, fun _ _ => by simp, ?_⟩
  intro offset q new hnew
  obtain ⟨mid, hmid, rfl⟩ := Option.map_eq_some_iff.mp hnew
  obtain ⟨old, hold, rfl⟩ := Option.map_eq_some_iff.mp hmid
  refine ⟨old, hold, ?_, fun i hi => (if_neg (by omega)).trans (if_neg (by omega))⟩
  rw [hnat, List.length_append, toList_add]
  congr 1
  · -- the terminator is behind the characters
    refine Eq.trans (toList_congr fun i hi => if_neg (by omega)) ?_
    exact (toList_shift_blit _ _ _ old).trans (toList_ofList _)
  · have hshift : ∀ b : Block, shift (str.flatMap charBytes).length (shift offset.toNat b) =
        shift (offset.toNat + (str.flatMap charBytes).length) b := by
      intro b
      funext i
      rw [shift, shift, shift, Nat.add_assoc]
    rw [hshift]
    exact (toList_shift_blit _ 2 _ _).trans (toList_ofList [0, 0])

theorem writeString8_eq (h : Nat → Heap) (str : String8) (hsize : 0 < BitVec.ofNat 32 str.length) :
    writeString8 h str p = wordAndRoom h (BitVec.ofNat 32 str.length)
      (fun offset q => q.poke (ofList (str ++ [0])) (BitVec.ofNat 32 str.length + 1).toNat
        offset.toNat) (BitVec.ofNat 32 (str.length + 1)) p := by
  unfold writeString8 wordAndRoom
  dsimp only
  rw [ofNat_succ]
  split
  · next hok =>
    rw [if_pos hok.2, write_eq]
    generalize writeInplace (h 1) _ _ = d
    obtain ⟨result, q, writes⟩ := d
    cases result <;> rfl
  · next hno => rw [if_neg fun hok => hno ⟨hsize, hok⟩]

theorem writeString16_eq (h : Nat → Heap) (str : String16) :
    writeString16 h str p = wordAndRoom h (BitVec.ofNat 32 str.length)
      (fun offset q => (q.poke (ofList (str.flatMap charBytes))
        (BitVec.ofNat 32 str.length * 2).toNat offset.toNat).poke (ofList [0, 0]) 2
          (offset.toNat + (BitVec.ofNat 32 str.length * 2).toNat))
      (BitVec.ofNat 32 ((str.length + 1) * 2)) p := by
  have hlen : BitVec.ofNat 32 ((str.length + 1) * 2) = BitVec.ofNat 32 str.length * 2 + 2 := by
    rw [Nat.add_mul, BitVec.ofNat_add, BitVec.ofNat_mul]
    rfl
  unfold writeString16 wordAndRoom
  dsimp only
  rw [hlen]
  split
  · generalize writeInplace (h 1) _ _ = d
    obtain ⟨result, q, writes⟩ := d
    cases result <;> rfl
  · rfl

theorem string8_faithful (h : Nat → Heap) (str : String8) (hp : Sound p) :
    Faithful h p (.string8 str) ↔ Served h p (.string8 str) := by
  show Truthful _ _ p (writeString8 h str p).ok ↔ _
  unfold Served
  dsimp only
  by_cases hnil : str = []
  · subst hnil
    rw [if_pos rfl]
    exact aligned_truthful (n := 4) (wordBytes 0) rfl hp
  have hlen : 0 < str.length := List.length_pos_iff.mpr hnil
  rw [if_neg hnil, Write.bytes, Write.paddedLength, if_neg hnil, if_neg hnil]
  by_cases hsize : 0 < BitVec.ofNat 32 str.length
  · rw [writeString8_eq h str hsize]
    exact string_truthful h _ hp (Nat.succ_pos _) (fills_string8 str)
  · -- a length of no 32-bit word: only the word is written
    have hlarge : 2 ^ 32 ≤ padSize (str.length + 1) := by
      have hmod : (BitVec.ofNat 32 str.length).toNat = 0 := by bv_omega
      rw [BitVec.toNat_ofNat] at hmod
      unfold padSize
      omega
    have hnot : ¬ (str.length + 1 + 3 < 2 ^ 32) := by
      unfold padSize at hlarge
      omega
    have hfirst : writeString8 h str p = writeInt32 (h 0) (BitVec.ofNat 32 str.length) p :=
      if_neg fun hok => hsize hok.1
    have hroom : ∀ hrefused : Refused (h 0) 4 p,
        p.blockSize < p.mDataPos.toNat + (4 + padSize (str.length + 1)) := fun _ => by
      have := blockSize_lt p
      omega
    rw [hfirst]
    unfold StringServed
    simp only [hnot, false_and, and_false, or_false]
    by_cases hrefused : Refused (h 0) 4 p
    · have hgone : writeInt32 (h 0) (BitVec.ofNat 32 str.length) p =
          ⟨.NO_MEMORY, afterRefusal 4 p, []⟩ :=
        hrefused.restartingWrite (putWord _) fun err _ => err
      rw [hgone]
      refine iff_of_true ?_ hrefused
      exact (truthful_refused_iff (p := p) rfl rfl (hroom hrefused)).mpr rfl
    · have hmade : writeInt32 (h 0) (BitVec.ofNat 32 str.length) p =
          putWord (BitVec.ofNat 32 str.length) (roomFor (h 0) 4 p).2 :=
        if_pos (roomFor_ok hrefused)
      rw [hmade, truthful_iff_written rfl]
      exact iff_of_false (not_written_of_large (by omega)) hrefused

theorem string16_faithful (h : Nat → Heap) (str : String16) (hp : Sound p) :
    Faithful h p (.string16 str) ↔ Served h p (.string16 str) := by
  show Truthful _ _ p (writeString16 h str p).ok ↔ StringServed h p ((str.length + 1) * 2)
  rw [writeString16_eq h str]
  exact string_truthful h _ hp (by omega) (fills_string16 str)

/-- **Write status.** What a write reports is what it has done if and only if it is one of
those that `Served` names. -/
theorem faithful_iff (h : Nat → Heap) (hp : Sound p) (w : Write) :
    Faithful h p w ↔ Served h p w := by
  cases w with
  | int32 val => exact aligned_truthful (n := 4) (wordBytes val) rfl hp
  | int64 val => exact aligned_truthful (n := 8) (doubleWordBytes val) rfl hp
  | unpadded data len => exact unpadded_truthful data hp
  | inplace len => exact inplace_faithful h hp
  | block data len => exact block_faithful h data hp
  | string8 str => exact string8_faithful h str hp
  | string16 str => exact string16_faithful h str hp

/-! ## Cases -/

/-- A parcel with one word in it. -/
def oneWord : Parcel := (writeInt32 freshHeap 1 .initState).parcel

theorem sound_oneWord : Sound oneWord where
  size_le := by decide
  null hnone := absurd (congrArg Option.isNone hnone) (by decide)
  owned howner := absurd howner (by decide)

theorem faithful_oneWord : Faithful (fun _ => freshHeap) oneWord (.string8 [65]) ↔
    Served (fun _ => freshHeap) oneWord (.string8 [65]) :=
  faithful_iff (fun _ => freshHeap) sound_oneWord (.string8 [65])

/-- Nothing is written, for the size to grow to wraps to 4, and `NO_ERROR` is returned. -/
theorem wrappedGrowth_not_faithful :
    ¬ ∀ (h : Nat → Heap) (p : Parcel), Sound p → ∀ w : Write, Faithful h p w := by
  intro hall
  have hfaithful := hall (fun _ => freshHeap) oneWord sound_oneWord
    (.block (fun _ => 65) 0x55555554)
  have hwritten := hfaithful.reported.mp (by decide +kernel)
  have hpos := hwritten.pos
  revert hpos
  decide +kernel

end Cdroid.Binder.Memory
