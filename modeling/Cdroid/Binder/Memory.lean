import Cdroid.Binder.Parcel
import Cdroid.Lib.Blocks
import Cdroid.Lib.Runs
import Mathlib.Data.List.DropRight

/-! `Parcel` over its memory: the block behind `mData` with its capacity, the position,
the object table, and the growth of both. `size_t` has 32 bits, and sums of sizes wrap.
What an allocation returns is up to the heap. A call leaves the parcel, and the list of
what it wrote into the block. -/

namespace Cdroid.Binder.Memory
open Cdroid.Lib.Blocks

/-! ## Sizes -/

abbrev size_t := BitVec 32

/-- `PAD_SIZE(s)`: the sum wraps. -/
def PAD_SIZE (s : size_t) : size_t := (s + 3) &&& ~~~3

theorem toNat_PAD_SIZE (s : size_t) : (PAD_SIZE s).toNat = (s.toNat + 3) % 2 ^ 32 / 4 * 4 := by
  have hmask : PAD_SIZE s = (s + 3) >>> 2 <<< 2 := (BitVec.shiftLeft_ushiftRight (n := 2)).symm
  rw [hmask, BitVec.toNat_shiftLeft, BitVec.toNat_ushiftRight, BitVec.toNat_add]
  simp only [Nat.shiftRight_eq_div_pow, Nat.shiftLeft_eq]
  show (s.toNat + 3) % 2 ^ 32 / 2 ^ 2 * 2 ^ 2 % 2 ^ 32 = _
  omega

/-! ## The parcel -/

inductive Status
  | NO_ERROR
  | NO_MEMORY
  | BAD_VALUE
  | FDS_NOT_ALLOWED
  deriving DecidableEq

/-- `mObjects` lists the entries of the object table that are in use; `tableSize` is how
many the block behind it has, which `mObjectsCapacity` is meant to say. -/
structure Parcel where
  mError : Status
  mData : Option Block
  mDataSize : size_t
  mDataCapacity : size_t
  mDataPos : size_t
  mObjects : List size_t
  mObjectsCapacity : Nat
  tableSize : Nat
  mNextObjectHint : Nat
  mAllowFds : Bool
  mOwner : Bool

namespace Parcel

def initState : Parcel :=
  { mError := .NO_ERROR, mData := none, mDataSize := 0, mDataCapacity := 0, mDataPos := 0,
    mObjects := [], mObjectsCapacity := 0, tableSize := 0, mNextObjectHint := 0,
    mAllowFds := true, mOwner := false }

/-- `ipcSetDataReference`: data that the driver owns. -/
def ipcSetDataReference (data : Block) (dataSize : size_t) (objects : List size_t) : Parcel :=
  { initState with
    mData := some data, mDataSize := dataSize, mDataCapacity := dataSize, mObjects := objects,
    mObjectsCapacity := objects.length, tableSize := objects.length, mOwner := true }

/-- The bytes behind `mData`. -/
def blockSize (p : Parcel) : Nat := if p.mData.isSome then p.mDataCapacity.toNat else 0

def poke (data : Block) (n offset : Nat) (p : Parcel) : Parcel :=
  { p with mData := p.mData.map (blit data n offset) }

def finishWrite (len : size_t) (p : Parcel) : Parcel :=
  let pos := p.mDataPos + len
  { p with mDataPos := pos, mDataSize := if p.mDataSize < pos then pos else p.mDataSize }

end Parcel

open Cdroid.Binder.Memory.Parcel

/-- What the allocations of a call return: the data block with what happens to be in it,
the copy of a table that had an owner, and the table that is grown. A duplicated
descriptor is `dup`. What is read behind a pointer to a block that has been freed is
`staleData` and `staleObjects`. -/
structure Heap where
  data : Option Block
  table : Bool
  objects : Bool
  dup : Nat → BitVec 32
  staleData : Block
  staleObjects : Nat → size_t

/-- A call's result, the parcel that it leaves and the accesses with which it wrote. -/
structure Outcome (α : Type) where
  result : α
  parcel : Parcel
  writes : List Access

/-! ## Growth -/

/-- The objects that stay if the data is cut to `desired`. -/
def keptObjects (desired : size_t) (p : Parcel) : List size_t :=
  if desired < p.mDataSize then
    if desired = 0 then [] else p.mObjects.rdropWhile fun o => ¬ o < desired
  else p.mObjects

/-- The references of the others are released. The table's block shrinks, and for no
object at all it is freed; its capacity is left. -/
def dropObjects (desired : size_t) (p : Parcel) : Parcel :=
  let objects := keptObjects desired p
  if objects.length < p.mObjects.length then
    { p with mObjects := objects, tableSize := objects.length, mNextObjectHint := 0 }
  else p

/-- An owner's data is copied, a block of the parcel's own is reallocated, and a first
one is allocated. -/
def continueWrite (h : Heap) (desired : size_t) (p : Parcel) : Status × Parcel :=
  if p.mOwner then
    if desired = 0 then (.NO_ERROR, initState)
    else match h.data with
      | none => (.NO_MEMORY, { p with mError := .NO_MEMORY })
      | some data =>
        let objects := keptObjects desired p
        if objects ≠ [] ∧ h.table = false then (.NO_MEMORY, { p with mError := .NO_MEMORY })
        else
          let size := if p.mDataSize < desired then p.mDataSize else desired
          (.NO_ERROR, { p with
            mData := some (p.mData.elim data fun old => copy size.toNat old data)
            mDataSize := size
            mDataCapacity := desired
            mObjects := objects
            mObjectsCapacity := objects.length
            tableSize := objects.length
            mNextObjectHint := 0
            mOwner := false })
  else match p.mData with
    | some old =>
      if p.mDataCapacity < desired then
        match h.data with
        | none => (.NO_MEMORY, { dropObjects desired p with mError := .NO_MEMORY })
        | some data => (.NO_ERROR, { dropObjects desired p with
            mData := some (copy p.mDataCapacity.toNat old data), mDataCapacity := desired })
      else
        (.NO_ERROR, { dropObjects desired p with
          mDataSize := if desired < p.mDataSize then desired else p.mDataSize
          mDataPos := if desired < p.mDataPos then desired else p.mDataPos })
    | none => match h.data with
      | none => (.NO_MEMORY, { p with mError := .NO_MEMORY })
      | some data => (.NO_ERROR, { p with
          mData := some data, mDataSize := 0, mDataPos := 0, mDataCapacity := desired })

/-- `((mDataSize+len)*3)/2` -/
def grownSize (len : size_t) (p : Parcel) : size_t := (p.mDataSize + len) * 3 / 2

theorem toNat_grownSize (len : size_t) (p : Parcel) :
    (grownSize len p).toNat = (p.mDataSize.toNat + len.toNat) % 2 ^ 32 * 3 % 2 ^ 32 / 2 := by
  rw [grownSize, BitVec.toNat_udiv, BitVec.toNat_mul, BitVec.toNat_add]
  rfl

def growData (h : Heap) (len : size_t) (p : Parcel) : Status × Parcel :=
  let newSize := grownSize len p
  if newSize ≤ p.mDataSize then (.NO_MEMORY, p) else continueWrite h newSize p

/-! ## Writing -/

/-- Grow by `len` if there is not enough room. -/
def makeRoom (enough : Prop) [Decidable enough] (h : Heap) (len : size_t) (p : Parcel) :
    Status × Parcel :=
  if enough then (.NO_ERROR, p) else growData h len p

/-- `restart_write`: the write is made where there is room for it. -/
def restartingWrite {α : Type} (grown : Status × Parcel) (write : Parcel → Outcome α)
    (refused : Status → Parcel → α) : Outcome α :=
  if grown.1 = .NO_ERROR then write grown.2 else ⟨refused grown.1 grown.2, grown.2, []⟩

/-- An error is returned as it is. -/
abbrev ifOk (grown : Status × Parcel) (write : Parcel → Outcome Status) : Outcome Status :=
  restartingWrite grown write fun err _ => err

/-- An access to the parcel's block. -/
def access (offset : Int) (length : Nat) (p : Parcel) : Access := ⟨offset, length, p.blockSize⟩

/-- `memcpy(mData+mDataPos, data, len)` and `finishWrite(len)` -/
def putData (data : Block) (len : size_t) (p : Parcel) : Outcome Status :=
  ⟨.NO_ERROR, finishWrite len (p.poke data len.toNat p.mDataPos.toNat),
    [access p.mDataPos.toNat len.toNat p]⟩

/-- For a type of `size` bytes. -/
def writeAligned (h : Heap) (data : Block) (size : size_t) (p : Parcel) : Outcome Status :=
  ifOk (makeRoom (p.mDataPos + size ≤ p.mDataCapacity) h size p) (putData data size)

def writeInt32 (h : Heap) (val : BitVec 32) : Parcel → Outcome Status :=
  writeAligned h (ofList (wordBytes val)) 4

/-- The low word comes first. -/
def doubleWordBytes (val : BitVec 64) : List UInt8 :=
  wordBytes (val.truncate 32) ++ wordBytes ((val >>> 32).truncate 32)

def writeInt64 (h : Heap) (val : BitVec 64) : Parcel → Outcome Status :=
  writeAligned h (ofList (doubleWordBytes val)) 8

def writeUnpadded (h : Heap) (data : Block) (len : size_t) (p : Parcel) : Outcome Status :=
  let fin := p.mDataPos + len
  if fin < p.mDataPos then ⟨.BAD_VALUE, p, []⟩
  else ifOk (makeRoom (fin ≤ p.mDataCapacity) h len p) (putData data len)

/-- The masks of a little-endian machine. -/
def mask (k : size_t) : BitVec 32 := [0, 0x00ffffff, 0x0000ffff, 0x000000ff].getD k.toNat 0

def wordAt (data : Block) (offset : Nat) : BitVec 32 :=
  wordOf ((List.range 4).map (shift offset data))

/-- `*reinterpret_cast<uint32_t*>(data+padded-4) &= mask[padded-len]` -/
def applyMask (len : size_t) (p : Parcel) : Parcel :=
  let offset := p.mDataPos.toNat + (PAD_SIZE len).toNat - 4
  { p with mData := p.mData.map fun data =>
      store (wordBytes (wordAt data offset &&& mask (PAD_SIZE len - len))) offset data }

/-- `mData+mDataPos` as an offset. Without a block it is null at the start. -/
def place (p : Parcel) : Option size_t :=
  if p.mData.isNone ∧ p.mDataPos = 0 then none else some p.mDataPos

/-- The room for the bytes is handed out, and what is written into it counts as written
here. The result is its offset. -/
def writeInplace (h : Heap) (len : size_t) (p : Parcel) : Outcome (Option size_t) :=
  let padded := PAD_SIZE len
  if p.mDataPos + padded < p.mDataPos then ⟨none, p, []⟩
  else restartingWrite (makeRoom (p.mDataPos + padded ≤ p.mDataCapacity) h padded p)
    (fun p =>
      let room := access p.mDataPos.toNat len.toNat p
      if padded ≠ len then
        ⟨place p, finishWrite padded (applyMask len p),
          [access (p.mDataPos.toNat + padded.toNat - 4) 4 p, room]⟩
      else ⟨place p, finishWrite padded p, [room]⟩)
    fun _ _ => none

def write (h : Heap) (data : Block) (len : size_t) (p : Parcel) : Outcome Status :=
  let d := writeInplace h len p
  match d.result with
  | some offset => ⟨.NO_ERROR, d.parcel.poke data len.toNat offset.toNat, d.writes⟩
  | none => ⟨d.parcel.mError, d.parcel, d.writes⟩

/-! ## Objects -/

/-- `B_PACK_CHARS('f', 'd', '*', 0x85)`, and with `'w', 'b'` and `'w', 'h'` -/
def BINDER_TYPE_FD : BitVec 32 := 0x66642a85
def BINDER_TYPE_WEAK_BINDER : BitVec 32 := 0x77622a85
def BINDER_TYPE_WEAK_HANDLE : BitVec 32 := 0x77682a85

/-- Whether the object gets an entry in the table. -/
def Entered (val : flat_binder_object) (nullMetaData : Bool) : Prop :=
  nullMetaData = true ∨ val.binder ≠ 0

instance (val : flat_binder_object) (nullMetaData : Bool) : Decidable (Entered val nullMetaData) :=
  inferInstanceAs (Decidable (_ ∨ _))

/-- The object at the position, and the entry in the table. A descriptor that is not
allowed is refused after that, and the position stays. -/
def putObject (val : flat_binder_object) (nullMetaData : Bool) (p : Parcel) : Outcome Status :=
  let p' := p.poke (ofList val.bytes) 16 p.mDataPos.toNat
  let p' := if Entered val nullMetaData then
    { p' with mObjects := p'.mObjects ++ [p.mDataPos] } else p'
  let writes := [access p.mDataPos.toNat 16 p]
  if val.type = BINDER_TYPE_FD ∧ p.mAllowFds = false then ⟨.FDS_NOT_ALLOWED, p', writes⟩
  else ⟨.NO_ERROR, finishWrite 16 p', writes⟩

/-- `realloc(mObjects, newSize*sizeof(size_t))` -/
def growTable (h : Heap) (newSize : Nat) (p : Parcel) : Status × Parcel :=
  if h.objects then (.NO_ERROR, { p with mObjectsCapacity := newSize, tableSize := newSize })
  else (.NO_MEMORY, p)

/-- Whether there is room in the table is asked before the data grows. -/
def writeObject (h : Heap) (val : flat_binder_object) (nullMetaData : Bool) (p : Parcel) :
    Outcome Status :=
  let enoughObjects := p.mObjects.length < p.mObjectsCapacity
  ifOk (makeRoom (p.mDataPos + 16 ≤ p.mDataCapacity) h 16 p) fun p₁ =>
    ifOk (if enoughObjects then (.NO_ERROR, p₁)
        else growTable h ((p₁.mObjects.length + 2) * 3 / 2) p₁)
      (putObject val nullMetaData)

/-! ## Size, position and capacity -/

def setDataSize (h : Heap) (size : size_t) (p : Parcel) : Outcome Status :=
  let r := continueWrite h size p
  if r.1 = .NO_ERROR then ⟨.NO_ERROR, { r.2 with mDataSize := size }, []⟩ else ⟨r.1, r.2, []⟩

def setDataPosition (pos : size_t) (p : Parcel) : Outcome Status :=
  ⟨.NO_ERROR, { p with mDataPos := pos, mNextObjectHint := 0 }, []⟩

def setDataCapacity (h : Heap) (size : size_t) (p : Parcel) : Outcome Status :=
  if p.mDataCapacity < size then
    let r := continueWrite h size p
    ⟨r.1, r.2, []⟩
  else ⟨.NO_ERROR, p, []⟩

/-- `realloc(mData, 0)` frees the block and returns no other, which is then no failure. -/
def restartWrite (h : Heap) (desired : size_t) (p : Parcel) : Status × Parcel :=
  if p.mOwner then continueWrite h desired initState
  else
    let data := if desired = 0 ∧ p.mData.isSome then none else h.data
    if data = none ∧ p.mDataCapacity < desired then
      (.NO_MEMORY, { p with mError := .NO_MEMORY })
    else
      let p := match data with
        | some fresh => { p with
            mData := some (p.mData.elim fresh fun old =>
              copy (min p.mDataCapacity.toNat desired.toNat) old fresh)
            mDataCapacity := desired }
        | none => { p with mData := if desired = 0 then none else p.mData }
      (.NO_ERROR, { p with
        mDataSize := 0, mDataPos := 0, mObjects := [], mObjectsCapacity := 0, tableSize := 0,
        mNextObjectHint := 0, mAllowFds := true })

def setData (h : Heap) (buffer : Block) (len : size_t) (p : Parcel) : Outcome Status :=
  let r := restartWrite h len p
  if r.1 = .NO_ERROR then
    ⟨.NO_ERROR, { r.2.poke buffer len.toNat 0 with mDataSize := len },
      [access 0 len.toNat r.2]⟩
  else ⟨r.1, r.2, []⟩

/-! ## Appending -/

/-- The parcel that is appended from: this one, or another. -/
inductive Source
  | self
  | other (q : Parcel)

namespace Source

def parcel (p : Parcel) : Source → Parcel
  | self => p
  | other q => q

def isSelf : Source → Bool
  | self => true
  | other _ => false

end Source

def inRange (offset len o : size_t) : Bool := offset ≤ o ∧ o < offset + len

/-- From the first object in the range to the last one. -/
def objectsInRange (offset len : size_t) (objects : List size_t) : List size_t :=
  (objects.dropWhile fun o => !inRange offset len o).rdropWhile fun o => !inRange offset len o

/-- The object at `off` enters the table; a descriptor is duplicated in place. -/
def adoptObject (h : Heap) (off : size_t) (p : Parcel) : Outcome Status :=
  let p' := { p with mObjects := p.mObjects ++ [off] }
  if p.mData.elim 0 (wordAt · off.toNat) = BINDER_TYPE_FD then
    let fd := ofList (wordBytes (h.dup p.mObjects.length) ++ wordBytes 1)
    ⟨if p.mAllowFds then .NO_ERROR else .FDS_NOT_ALLOWED, p'.poke fd 8 (off.toNat + 8),
      [access (off.toNat + 8) 8 p]⟩
  else ⟨.NO_ERROR, p', []⟩

def adoptObjects (h : Heap) : List size_t → Parcel → Outcome Status
  | [], p => ⟨.NO_ERROR, p, []⟩
  | off :: offs, p =>
    let first := adoptObject h off p
    let rest := adoptObjects h offs first.parcel
    ⟨if rest.result = .NO_ERROR then first.result else rest.result, rest.parcel,
      first.writes ++ rest.writes⟩

/-- `memcpy(mData + mDataPos, data + offset, len)`; the size grows by `len` wherever the
position is. -/
def appendData (data : Block) (offset len : size_t) (p : Parcel) : Parcel :=
  { p.poke (shift offset.toNat data) len.toNat p.mDataPos.toNat with
    mDataPos := p.mDataPos + len, mDataSize := p.mDataSize + len }

/-- The objects are entered from the position before the data grew. A parcel that is
appended to itself has its old blocks read, which may have been freed by then. -/
def appendFrom (h : Heap) (source : Source) (offset len : size_t) (p : Parcel) :
    Outcome Status :=
  let q := source.parcel p
  if len = 0 then ⟨.NO_ERROR, p, []⟩
  else if q.mDataSize < offset ∨ q.mDataSize < len ∨ q.mDataSize < offset + len then
    ⟨.BAD_VALUE, p, []⟩
  else
    let objects := objectsInRange offset len q.mObjects
    let full := p.mDataCapacity < p.mDataSize + len
    ifOk (makeRoom (¬ full) h len p) fun p₁ =>
      let data := if source.isSelf ∧ full then h.staleData else q.mData.getD h.staleData
      let p₂ := appendData data offset len p₁
      let copied := [access p₁.mDataPos.toNat len.toNat p₁]
      if objects = [] then ⟨.NO_ERROR, p₂, copied⟩
      else
        let moves := p₂.mObjectsCapacity < p₂.mObjects.length + objects.length
        let table := if moves then growTable h ((p₂.mObjects.length + objects.length) * 3 / 2) p₂
          else (.NO_ERROR, p₂)
        let entries := if source.isSelf ∧ (moves ∨ full ∧ p.mOwner) then
            (List.range objects.length).map h.staleObjects
          else objects
        let adopted := ifOk table (adoptObjects h (entries.map fun o => o - offset + p.mDataPos))
        ⟨adopted.result, adopted.parcel, copied ++ adopted.writes⟩

/-! ## Calls -/

/-- The calls that the public operations are made of: `writeString8`, `writeString16`,
`writeBlob`, `writeNativeHandle` and the like are some of them in a row, and write into the
room that `writeInplace` hands out. A read moves the position as `setDataPosition` does.
`ipcSetDataReference` is none of them: a parcel is bound to received data before a run. -/
inductive Call
  | writeInt32 (val : BitVec 32)
  | writeInt64 (val : BitVec 64)
  | writeUnpadded (data : Block) (len : size_t)
  | writeInplace (len : size_t)
  | write (data : Block) (len : size_t)
  | writeObject (val : flat_binder_object) (nullMetaData : Bool)
  | setDataSize (size : size_t)
  | setDataPosition (pos : size_t)
  | setDataCapacity (size : size_t)
  | setData (buffer : Block) (len : size_t)
  | appendFrom (parcel : Nat) (offset len : size_t)
  | pushAllowFds (allowFds : Bool)
  | restoreAllowFds (lastValue : Bool)
  | freeData

/-- Some parcels, one of which may be appended to another. -/
abbrev State := Nat → Parcel

/-- A call on one of the parcels. -/
structure Step where
  parcel : Nat
  call : Call
  heap : Heap

/-- What is appended to the parcel of the step. -/
def Step.source (s : State) (x : Step) (j : Nat) : Source :=
  if j = x.parcel then .self else .other (s j)

/-- The result of a call, without the pointer that it may return. -/
def Outcome.quiet {α : Type} (o : Outcome α) : Parcel × List Access := (o.parcel, o.writes)

def perform (s : State) (x : Step) : Parcel × List Access :=
  let p := s x.parcel
  match x.call with
  | .writeInt32 val => (writeInt32 x.heap val p).quiet
  | .writeInt64 val => (writeInt64 x.heap val p).quiet
  | .writeUnpadded data len => (writeUnpadded x.heap data len p).quiet
  | .writeInplace len => (writeInplace x.heap len p).quiet
  | .write data len => (write x.heap data len p).quiet
  | .writeObject val nullMetaData => (writeObject x.heap val nullMetaData p).quiet
  | .setDataSize size => (setDataSize x.heap size p).quiet
  | .setDataPosition pos => (setDataPosition pos p).quiet
  | .setDataCapacity size => (setDataCapacity x.heap size p).quiet
  | .setData buffer len => (setData x.heap buffer len p).quiet
  | .appendFrom j offset len =>
    (appendFrom x.heap (x.source s j) offset len p).quiet
  | .pushAllowFds allowFds =>
    ({ p with mAllowFds := if allowFds then p.mAllowFds else false }, [])
  | .restoreAllowFds lastValue => ({ p with mAllowFds := lastValue }, [])
  | .freeData => (.initState, [])

def next (s : State) (x : Step) : Option State :=
  some fun i => if i = x.parcel then (perform s x).1 else s i

end Cdroid.Binder.Memory
