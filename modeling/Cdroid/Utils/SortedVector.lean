import Cdroid.Lib.OrderedLists
import Cdroid.Lib.Runs

/-! `SortedVectorImpl`, over what the vector holds. An operation that compares with an element
outside of the array has no result. Memory is always there. -/

namespace Cdroid.Utils.SortedVector
open Cdroid.Lib.OrderedLists Cdroid.Lib.Runs

def NO_ERROR : Int := 0
def NAME_NOT_FOUND : Int := -2
def BAD_VALUE : Int := -22
def BAD_INDEX : Int := -75

variable {α : Type}

/-! ## VectorImpl -/

/-- The element at `itemLocation(index)`, if there is one. -/
def itemLocation (v : List α) (index : Int) : Option α :=
  if index < 0 then none else v[index.toNat]?

def insertArrayAt (array : List α) (index : Nat) (v : List α) : Int × List α :=
  if v.length < index then (BAD_INDEX, v) else (index, v.take index ++ (array ++ v.drop index))

def insertAt (item : α) (index numItems : Nat) (v : List α) : Int × List α :=
  insertArrayAt (List.replicate numItems item) index v

def insertVectorAt (vector : List α) (index : Nat) (v : List α) : Int × List α :=
  insertArrayAt vector index v

def appendVector (vector v : List α) : Int × List α := insertVectorAt vector v.length v

def replaceAt (prototype : α) (index : Nat) (v : List α) : Int × List α :=
  if v.length ≤ index then (BAD_INDEX, v) else (index, v.set index prototype)

def removeItemsAt (index count : Nat) (v : List α) : Int × List α :=
  if v.length < index + count then (BAD_VALUE, v)
  else (index, v.take index ++ v.drop (index + count))

/-! ## SortedVectorImpl -/

section Sorted
variable (cmp : α → α → Ordering)

/-- The loop of `_indexOrderOf`: `err` and the order. -/
def search (item : α) (v : List α) (l h : Int) : Option (Int × Int) :=
  if _hle : l ≤ h then
    match itemLocation v (l + (h - l) / 2) with
    | none => none
    | some curr => match cmp curr item with
      | .eq => some (l + (h - l) / 2, l + (h - l) / 2)
      | .lt => search item v (l + (h - l) / 2 + 1) h
      | .gt => search item v l (l + (h - l) / 2 - 1)
  else some (NAME_NOT_FOUND, l)
termination_by (h + 1 - l).toNat

def indexOrderOf (item : α) (v : List α) : Option (Int × Int) := search cmp item v 0 (v.length - 1)

def indexOf (item : α) (v : List α) : Option Int := (indexOrderOf cmp item v).map Prod.fst

def add (item : α) (v : List α) : Option (Int × List α) :=
  (indexOrderOf cmp item v).map fun (index, order) =>
    if index < 0 then insertAt item order.toNat 1 v else replaceAt item index.toNat v

/-- The elements are added one by one. -/
def mergeVector : List α → List α → Option (Int × List α)
  | [], v => some (NO_ERROR, v)
  | item :: vector, v => do
    let (err, v) ← add cmp item v
    if err < 0 then some (err, v) else mergeVector vector v

/-- Whole blocks are put in front or behind if the boundaries say so. -/
def mergeSortedVector (vector v : List α) : Option (Int × List α) :=
  if vector.isEmpty then some (NO_ERROR, v)
  else do
    let last ← itemLocation vector (vector.length - 1)
    let front ← itemLocation v 0
    if (cmp last front).isLE then some (insertVectorAt vector 0 v)
    else do
      let first ← itemLocation vector 0
      let back ← itemLocation v (v.length - 1)
      if (cmp first back).isGE then some (appendVector vector v)
      else mergeVector cmp vector v

def remove (item : α) (v : List α) : Option (Int × List α) :=
  (indexOf cmp item v).map fun i => (i, if 0 ≤ i then (removeItemsAt i.toNat 1 v).2 else v)

/-! ## Runs -/

/-- A vector that is sorted, to be merged. -/
structure Sorted where
  elements : List α
  ascending : Ascending cmp elements

inductive Action
  | add (item : α)
  | remove (item : α)
  | mergeVector (vector : List α)
  | mergeSortedVector (vector : Sorted cmp)

def next (v : List α) : Action cmp → Option (List α)
  | .add item => (add cmp item v).map Prod.snd
  | .remove item => (remove cmp item v).map Prod.snd
  | .mergeVector vector => (mergeVector cmp vector v).map Prod.snd
  | .mergeSortedVector vector => (mergeSortedVector cmp vector.elements v).map Prod.snd

/-- What is sorted can be searched. -/
structure Kept (v : List α) : Prop where
  ascending : Ascending cmp v
  searched : ∀ item, ∃ i, indexOf cmp item v = some i ∧ (0 ≤ i ↔ Present cmp item v) ∧
    (0 ≤ i → ∃ a, v[i.toNat]? = some a ∧ cmp a item = .eq)

end Sorted

end Cdroid.Utils.SortedVector
