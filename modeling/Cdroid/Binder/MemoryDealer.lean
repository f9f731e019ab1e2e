import Cdroid.Lib.Segments
import Cdroid.Lib.Runs
import Mathlib.Data.List.Perm.Basic
import Mathlib.Data.List.Chain
import Mathlib.Algebra.Group.Nat.Defs

/-! `SimpleBestFitAllocator`, in the words of a 32-bit process. The list of chunks is a list
in their order; a chunk is known by its place in it. -/

namespace Cdroid.Binder.MemoryDealer
open Cdroid.Lib.Runs Cdroid.Lib.Segments

/-! ## The allocator -/

/-- `getpagesize()`, a power of two that is at least `kMemoryAlign` -/
structure PageSize where
  shift : Nat
  align_le : 5 ≤ shift
  shift_lt : shift < 32

def PageSize.toBits (page : PageSize) : BitVec 32 := .twoPow 32 page.shift

def kMemoryAlign : BitVec 32 := 32
def PAGE_ALIGNED : BitVec 32 := 1
def NO_MEMORY : BitVec 32 := -12

inductive Status
  | NO_ERROR
  | NAME_NOT_FOUND
deriving DecidableEq

/-- In units of `kMemoryAlign`. -/
structure chunk_t where
  start : BitVec 32
  size : BitVec 28
  free : Bool
deriving DecidableEq

structure SimpleBestFitAllocator where
  mList : List chunk_t
  mHeapSize : BitVec 32
deriving DecidableEq

namespace SimpleBestFitAllocator

def create (page : PageSize) (size : BitVec 32) : SimpleBestFitAllocator :=
  let mHeapSize := (size + page.toBits - 1) &&& ~~~(page.toBits - 1)
  { mList := [⟨0, (mHeapSize / kMemoryAlign).setWidth 28, true⟩], mHeapSize }

end SimpleBestFitAllocator

variable (page : PageSize)

/-- What has to be left free in front of a block at `start`. -/
def extra (flags start : BitVec 32) : BitVec 32 :=
  if flags &&& PAGE_ALIGNED = 0 then 0 else -start &&& (page.toBits / kMemoryAlign - 1)

/-- `free_chunk` with its place. The search ends early at a chunk of the very size. -/
def bestFit (size flags : BitVec 32) (i : Nat) (free_chunk : Option (Nat × chunk_t)) :
    List chunk_t → Option (Nat × chunk_t)
  | [] => free_chunk
  | cur :: rest =>
    if cur.free ∧ size + extra page flags cur.start ≤ cur.size.setWidth 32 then
      let free_chunk := match free_chunk with
        | none => some (i, cur)
        | some (j, c) => if cur.size < c.size then some (i, cur) else some (j, c)
      if cur.size.setWidth 32 = size then free_chunk
      else bestFit size flags (i + 1) free_chunk rest
    else bestFit size flags (i + 1) free_chunk rest

/-- What is split off before the block, the block, and what is split off behind it. -/
def carve (size flags : BitVec 32) (free_chunk : chunk_t) :
    List chunk_t × chunk_t × List chunk_t :=
  let free_size := free_chunk.size.setWidth 32
  let block := { free_chunk with free := false, size := size.setWidth 28 }
  if size < free_size then
    let extra := extra page flags block.start
    let before := if extra = 0 then [] else [⟨block.start, extra.setWidth 28, true⟩]
    let block := { block with start := block.start + extra }
    let tail_free := free_size - (size + extra)
    let after := if tail_free.toInt > 0 then
      [⟨block.start + block.size.setWidth 32, tail_free.setWidth 28, true⟩] else []
    (before, block, after)
  else ([], block, [])

def rounded (size : BitVec 32) : BitVec 32 := (size + kMemoryAlign - 1) / kMemoryAlign

def alloc (size flags : BitVec 32) (mList : List chunk_t) : BitVec 32 × List chunk_t :=
  if size = 0 then (0, mList)
  else match bestFit page (rounded size) flags 0 none mList with
    | none => (NO_MEMORY, mList)
    | some (i, free_chunk) =>
      let (before, block, after) := carve page (rounded size) flags free_chunk
      (block.start * kMemoryAlign,
        mList.take i ++ ((before ++ block :: after) ++ mList.drop (i + 1)))

/-- One round of the loop of `dealloc`. What is in front of `cur` is held in reverse. -/
def mergeLeft : List chunk_t → chunk_t → List chunk_t
  | p :: left, cur =>
    if p.free ∨ cur.size = 0 then { p with size := p.size + cur.size } :: left
    else cur :: p :: left
  | [], cur => [cur]

/-- The loop goes on while what is behind `cur` is free. -/
def release (left : List chunk_t) (cur : chunk_t) : List chunk_t → List chunk_t
  | [] => (mergeLeft left cur).reverse
  | n :: right =>
    if n.free then release (mergeLeft left cur) n right
    else (mergeLeft left cur).reverse ++ n :: right

/-- The chunk that begins at `start` is freed and merged with its neighbours. -/
def deallocFrom (start : BitVec 32) (left : List chunk_t) : List chunk_t → Option (List chunk_t)
  | [] => none
  | cur :: rest =>
    if cur.start = start then some (release left { cur with free := true } rest)
    else deallocFrom start (cur :: left) rest

def dealloc (offset : BitVec 32) (mList : List chunk_t) : Option (List chunk_t) :=
  deallocFrom (offset / kMemoryAlign) [] mList

/-! ## Runs -/

/-- An allocation that succeeded: where it is and what was asked for. -/
structure Allocation where
  offset : BitVec 32
  size : BitVec 32
deriving DecidableEq

/-- The allocator and the allocations that have not been given back. -/
structure State extends SimpleBestFitAllocator where
  live : List Allocation

namespace State

def initial (size : BitVec 32) : State := ⟨.create page size, []⟩

def allocate (size flags : BitVec 32) (s : State) : State :=
  let (offset, mList) := alloc page size flags s.mList
  { s with
    mList
    live := if offset = NO_MEMORY then s.live else ⟨offset, size⟩ :: s.live }

/-- What was at the block that is named by `offset` is not live any more. -/
def deallocate (offset : BitVec 32) (s : State) : Status × State :=
  match dealloc offset s.mList with
  | none => (.NAME_NOT_FOUND, s)
  | some mList => (.NO_ERROR, { s with
      mList
      live := s.live.filter fun a => a.offset / kMemoryAlign ≠ offset / kMemoryAlign })

end State

inductive Action
  | allocate (size flags : BitVec 32)
  | deallocate (offset : BitVec 32)

def next (s : State) : Action → Option State
  | .allocate size flags => some (s.allocate page size flags)
  | .deallocate offset => some (s.deallocate offset).2

/-! ## What is meant -/

namespace chunk_t

/-- The bytes of a chunk -/
def first (c : chunk_t) : Nat := 32 * c.start.toNat
def last (c : chunk_t) : Nat := 32 * (c.start.toNat + c.size.toNat)

end chunk_t

namespace Allocation

/-- The bytes of its block -/
def first (a : Allocation) : Nat := a.offset.toNat
def last (a : Allocation) : Nat := a.offset.toNat + 32 * ((a.size.toNat + 31) / 32)

end Allocation

/-- The byte at `b` is free. -/
def FreeAt (mList : List chunk_t) (b : Nat) : Prop :=
  ∃ c ∈ mList, c.free = true ∧ c.first ≤ b ∧ b < c.last

/-- The byte at `b` is in the block of an allocation. -/
def HeldAt (live : List Allocation) (b : Nat) : Prop := ∃ a ∈ live, a.first ≤ b ∧ b < a.last

/-- An empty heap has one chunk, which is empty. -/
structure State.Kept (s : State) : Prop where
  partition : Cuts chunk_t.first chunk_t.last s.mHeapSize.toNat 0 s.mList
  filled : s.mHeapSize ≠ 0 → ∀ c ∈ s.mList, c.first < c.last
  apart : s.mList.IsChain fun c d => ¬ (c.free = true ∧ d.free = true)
  inside : ∀ a ∈ s.live, a.offset.toNat + a.size.toNat ≤ s.mHeapSize.toNat
  disjoint : s.live.Pairwise fun a b => a.offset.toNat + a.size.toNat ≤ b.offset.toNat ∨
    b.offset.toNat + b.size.toNat ≤ a.offset.toNat
  held : ∀ b < s.mHeapSize.toNat, FreeAt s.mList b ↔ ¬ HeldAt s.live b
  found : ∀ a ∈ s.live, a.size ≠ 0 → (s.deallocate a.offset).1 = .NO_ERROR
  freed : ∀ offset b, FreeAt (s.deallocate offset).2.mList b ↔ FreeAt s.mList b ∨
    ∃ a ∈ s.live, a.offset / kMemoryAlign = offset / kMemoryAlign ∧ a.first ≤ b ∧ b < a.last

end Cdroid.Binder.MemoryDealer
