import Cdroid.Lib.Linked
import Cdroid.Utils.BasicHashtable

/-! `LruCache`: a `BasicHashtable` whose entries are also in a list, from the one that has been
used the longest time ago to the one that has been used last. -/

namespace Cdroid.Utils
open Cdroid.Lib.Linked BasicHashtable

/-- A pointer to an entry is the index of its bucket. `parent` and `child` of the entries, `mOldest`
and `mYoungest` are `links`. `told` is what `mListener` has been called with. -/
structure LruCache (Key Value : Type) where
  mTable : Table (Key × Value)
  links : Links Nat
  mMaxCapacity : Nat
  told : List (Key × Value)

def kUnlimitedCapacity : Nat := 0

namespace LruCache

variable {Key Value : Type} [DecidableEq Key] (hash_type : Key → BitVec 32)
  (s : LruCache Key Value)

def new (maxCapacity : Nat) : Option (LruCache Key Value) :=
  (Table.new 0 .default).map fun table =>
    ⟨table, ⟨fun _ => ⟨none, none⟩, none, none⟩, maxCapacity, []⟩

def size : Nat := s.mTable.size

def find (key : Key) : Option (Option Nat) := s.mTable.find Prod.fst none (hash_type key) key

def attachToCache (i : Nat) : LruCache Key Value := { s with links := s.links.attach i }

def detachFromCache (i : Nat) : LruCache Key Value := { s with links := s.links.detach i }

/-- `none` inside stands for `mNullValue`. -/
def get (key : Key) : Option (LruCache Key Value × Option Value) :=
  (s.find hash_type key).bind fun
    | none => some (s, none)
    | some index =>
      (s.mTable.entryAt index).map fun entry =>
        ((s.detachFromCache index).attachToCache index, some entry.2)

def remove (key : Key) : Option (LruCache Key Value × Bool) :=
  (s.find hash_type key).bind fun
    | none => some (s, false)
    | some index =>
      (s.mTable.entryAt index).map fun entry =>
        let s := { s with told := s.told ++ [entry] }
        let s := s.detachFromCache index
        ({ s with mTable := s.mTable.removeAt index }, true)

def removeOldest : Option (LruCache Key Value × Bool) :=
  match s.links.oldest with
  | some oldest => (s.mTable.entryAt oldest).bind fun entry => s.remove hash_type entry.1
  | none => some (s, false)

/-- The entries from one on, as far as `fuel` lets them be followed. -/
def follow (table : Table (Key × Value)) (links : Links Nat) :
    Nat → Option Nat → Option (List (Key × Value))
  | _, none => some []
  | 0, some _ => none
  | fuel + 1, some p =>
    (table.entryAt p).bind fun entry =>
      (follow table links fuel (links.nodes p).child).map (entry :: ·)

def entries : Option (List (Key × Value)) :=
  follow s.mTable s.links s.mTable.mBucketCount s.links.oldest

def clear : Option (LruCache Key Value) :=
  s.entries.map fun entries =>
    { s with
      mTable := s.mTable.clear
      links := { s.links with oldest := none, youngest := none }
      told := s.told ++ entries }

/-- An entry is added for which there is room. -/
def addEntry (key : Key) (value : Value) : Option (LruCache Key Value) :=
  (s.mTable.add (hash_type key) (key, value)).map fun (table, index) =>
    let s := { s with
      mTable := table
      links := { s.links with nodes := Function.update s.links.nodes index ⟨none, none⟩ } }
    s.attachToCache index

/-- A new table, to which `put` adds the entries of the old one, which it does not change. -/
def rehash (put : LruCache Key Value → Key → Value → Option (LruCache Key Value × Bool))
    (newCapacity : Nat) : Option (LruCache Key Value) :=
  (Table.new newCapacity .default).bind fun table =>
    s.entries.bind fun entries =>
      entries.foldlM (fun s entry => (put s entry.1 entry.2).map (·.1))
        { s with mTable := table, links := { s.links with oldest := none, youngest := none } }

/-- `put`, which `rehash` may call again: `depth` times. -/
def putWithin : Nat → LruCache Key Value → Key → Value → Option (LruCache Key Value × Bool)
  | 0, _, _, _ => none
  | depth + 1, s, key, value =>
    (if s.mMaxCapacity ≠ kUnlimitedCapacity ∧ s.mMaxCapacity ≤ s.size then
      (s.removeOldest hash_type).map (·.1) else some s).bind fun s =>
    (s.find hash_type key).bind fun
      | some _ => some (s, false)
      | none =>
        (if s.mTable.hasMoreRoom then some s
          else s.rehash (putWithin depth) (s.mTable.capacity * 2)).bind fun s =>
        (s.addEntry hash_type key value).map (·, true)

def put (key : Key) (value : Value) : Option (LruCache Key Value × Bool) :=
  putWithin hash_type 2 s key value

end LruCache

end Cdroid.Utils
