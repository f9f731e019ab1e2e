import Cdroid.Lib.Rounding
import Mathlib.Logic.Function.Basic

/-! `BasicHashtable`: entries in buckets that are probed by a second hash, with a mark on each
bucket that another entry has gone past. -/

namespace Cdroid.Utils.BasicHashtable
open Cdroid.Lib

/-! ## Buckets -/

def COLLISION : BitVec 32 := 0x80000000#32
def PRESENT : BitVec 32 := 0x40000000#32
def HASH_MASK : BitVec 32 := 0x3fffffff#32

structure Bucket (Entry : Type) where
  cookie : BitVec 32
  entry : Option Entry

namespace Bucket
variable {Entry : Type}

def isPresent (b : Bucket Entry) : Bool := b.cookie &&& PRESENT != 0#32

def isCollision (b : Bucket Entry) : Bool := b.cookie &&& COLLISION != 0#32

def hash (b : Bucket Entry) : BitVec 32 := b.cookie &&& HASH_MASK

def collide (b : Bucket Entry) : Bucket Entry := { b with cookie := b.cookie ||| COLLISION }

end Bucket

def trimHash (hash : BitVec 32) : BitVec 32 := (hash &&& HASH_MASK) ^^^ (hash >>> 30)

def chainStart (hash : BitVec 32) (count : Nat) : Nat := hash.toNat % count

def chainIncrement (hash : BitVec 32) (count : Nat) : Nat :=
  ((hash >>> 7) ||| (hash <<< 25)).toNat % (count - 1) + 1

def chainSeek (index increment count : Nat) : Nat := (index + increment) % count

/-! ## Sizes -/

/-- The digits of the significand of a `float`. -/
def FLT_MANT_DIG : Nat := 24

/-- A number of buckets as a `float`. -/
def toFloat (n : Nat) : Nat := Rounding.ceil FLT_MANT_DIG n 1

/-- A `float` that is more than 0 and not more than 1: `significand / 2 ^ scale`. -/
structure LoadFactor where
  significand : Nat
  scale : Nat
  pos : 0 < significand
  le_one : significand ≤ 2 ^ scale

namespace LoadFactor
variable (loadFactor : LoadFactor) (n : Nat)

/-- `ceilf(n / loadFactor)` -/
def divided : Nat :=
  Rounding.ceil FLT_MANT_DIG (toFloat n * 2 ^ loadFactor.scale) loadFactor.significand

/-- `ceilf(n * loadFactor)` -/
def times : Nat :=
  Rounding.ceil FLT_MANT_DIG (toFloat n * loadFactor.significand) (2 ^ loadFactor.scale)

/-- 0.75, the load factor that a table has by default -/
def default : LoadFactor := ⟨3, 2, by decide, by decide⟩

end LoadFactor

def PRIMES : List Nat :=
  [5, 11, 23, 47, 97, 197, 397, 797, 1597, 3203, 6421, 12853, 25717, 51437, 102877, 205759, 411527,
    823117, 1646237, 3292489, 6584983, 13169977, 26339969, 52679969, 105359939, 210719881,
    421439783, 842879579, 1685759167]

/-- The numbers of buckets and of those that may be filled, or `none` past the end of the table. -/
def determineCapacity (minimumCapacity : Nat) (loadFactor : LoadFactor) : Option (Nat × Nat) :=
  (PRIMES.find? (toFloat (loadFactor.divided minimumCapacity + 1) ≤ ·)).map fun count =>
    (count, loadFactor.times (count - 1))

/-! ## Tables -/

/-- `mFilledBuckets` counts the buckets that are present or have a collision. -/
structure Table (Entry : Type) where
  mCapacity : Nat
  mLoadFactor : LoadFactor
  mSize : Nat
  mFilledBuckets : Nat
  mBucketCount : Nat
  mBuckets : Option (Nat → Bucket Entry)

variable {Key Entry : Type} [DecidableEq Key] (getKey : Entry → Key)

def allocateBuckets : Nat → Bucket Entry := fun _ => ⟨0#32, none⟩

/-- The loop that goes past the buckets that are present, in `add` and in `rehash`. -/
def seekFree (inc count : Nat) :
    Nat → (Nat → Bucket Entry) → Nat → Option ((Nat → Bucket Entry) × Nat)
  | 0, _, _ => none
  | fuel + 1, buckets, index =>
    if (buckets index).isPresent then
      seekFree inc count fuel (Function.update buckets index (buckets index).collide)
        (chainSeek index inc count)
    else some (buckets, index)

def seek (count : Nat) (hash : BitVec 32) (buckets : Nat → Bucket Entry) :
    Option ((Nat → Bucket Entry) × Nat) :=
  seekFree (chainIncrement hash count) count count buckets (chainStart hash count)

namespace Table
variable (t : Table Entry)

def new (minimumInitialCapacity : Nat) (loadFactor : LoadFactor) : Option (Table Entry) :=
  (determineCapacity minimumInitialCapacity loadFactor).map fun (count, capacity) =>
    { mCapacity := capacity
      mLoadFactor := loadFactor
      mSize := 0
      mFilledBuckets := 0
      mBucketCount := count
      mBuckets := none }

def bucketAt (index : Nat) : Bucket Entry := (t.mBuckets.getD allocateBuckets) index

/-- `entryAt`, where the bucket is present -/
def entryAt (index : Nat) : Option Entry :=
  if (t.bucketAt index).isPresent then (t.bucketAt index).entry else none

def size : Nat := t.mSize

def capacity : Nat := t.mCapacity

def hasMoreRoom : Bool := t.mFilledBuckets < t.mCapacity

def compareBucketKey (b : Bucket Entry) (key : Key) : Bool := b.entry.any (getKey · == key)

/-- `none` stands for -1. -/
def next (index : Option Nat) : Option Nat :=
  if t.mSize = 0 then none
  else
    let first := index.elim 0 (· + 1)
    (List.range' first (t.mBucketCount - first)).find? fun i => (t.bucketAt i).isPresent

/-- The loop of `find` after the first bucket. -/
def findLoop (key : Key) (hash : BitVec 32) (inc : Nat) : Nat → Nat → Option (Option Nat)
  | 0, _ => none
  | fuel + 1, index =>
    let index := chainSeek index inc t.mBucketCount
    let bucket := t.bucketAt index
    if bucket.isPresent && bucket.hash == hash && compareBucketKey getKey bucket key then
      some (some index)
    else if !bucket.isCollision then some none
    else findLoop key hash inc fuel index

/-- `none` inside stands for -1; the loop that does not end has no result. -/
def find (index : Option Nat) (hash : BitVec 32) (key : Key) : Option (Option Nat) :=
  if t.mSize = 0 then some none
  else
    let hash := trimHash hash
    let inc := chainIncrement hash t.mBucketCount
    match index with
    | some index => t.findLoop getKey key hash inc t.mBucketCount index
    | none =>
      let index := chainStart hash t.mBucketCount
      let bucket := t.bucketAt index
      if bucket.isPresent then
        if compareBucketKey getKey bucket key then some (some index)
        else t.findLoop getKey key hash inc t.mBucketCount index
      else if !bucket.isCollision then some none
      else t.findLoop getKey key hash inc t.mBucketCount index

def clear : Table Entry :=
  match t.mBuckets with
  | none => t
  | some _ =>
    { t with
      mBuckets := if t.mFilledBuckets = 0 then t.mBuckets else some allocateBuckets
      mFilledBuckets := 0
      mSize := 0 }

def removeAt (index : Nat) : Table Entry :=
  let bucket := t.bucketAt index
  { t with
    mBuckets := t.mBuckets.map fun buckets =>
      Function.update buckets index ⟨bucket.cookie &&& ~~~PRESENT, none⟩
    mFilledBuckets := if bucket.isCollision then t.mFilledBuckets else t.mFilledBuckets - 1
    mSize := t.mSize - 1 }

/-- What `rehash` does with the bucket of the old table at an index. -/
def moveBucket (newBucketCount : Nat) (newBuckets : Nat → Bucket Entry) (index : Nat) :
    Option (Nat → Bucket Entry) :=
  let fromBucket := t.bucketAt index
  if fromBucket.isPresent then
    (seek newBucketCount fromBucket.hash newBuckets).map fun (newBuckets, index) =>
      Function.update newBuckets index ⟨PRESENT ||| fromBucket.hash, fromBucket.entry⟩
  else some newBuckets

def moveBuckets (newBucketCount : Nat) : Option (Nat → Bucket Entry) :=
  (List.range t.mBucketCount).foldlM (t.moveBucket newBucketCount) allocateBuckets

def rehash (minimumCapacity : Nat) (loadFactor : LoadFactor) : Option (Table Entry) :=
  (determineCapacity (max minimumCapacity t.mSize) loadFactor).bind
    fun (newBucketCount, newCapacity) =>
      if newBucketCount = t.mBucketCount ∧ newCapacity = t.mCapacity then
        some { t with mLoadFactor := loadFactor }
      else
        let resized := { t with
          mBucketCount := newBucketCount, mCapacity := newCapacity, mLoadFactor := loadFactor }
        if t.mBuckets.isNone then some resized
        else if t.mSize = 0 then some { resized with mBuckets := none, mFilledBuckets := 0 }
        else (t.moveBuckets newBucketCount).map fun newBuckets =>
          { resized with mBuckets := some newBuckets, mFilledBuckets := t.mSize }

/-- The entry is put into the bucket that the loop of `add` has found. -/
def put (buckets : Nat → Bucket Entry) (index : Nat) (hash : BitVec 32) (entry : Entry) :
    Table Entry :=
  let bucket := buckets index
  { t with
    mBuckets := some (Function.update buckets index
      ⟨bucket.cookie &&& COLLISION ||| PRESENT ||| hash, some entry⟩)
    mFilledBuckets := if bucket.isCollision then t.mFilledBuckets else t.mFilledBuckets + 1
    mSize := t.mSize + 1 }

/-- The rounds of `add`: one that makes the table grow is followed by another. A null pointer is
followed where there are no buckets. -/
def addLoop (hash : BitVec 32) (entry : Entry) : Nat → Table Entry → Option (Table Entry × Nat)
  | 0, _ => none
  | fuel + 1, t =>
    (t.mBuckets.bind (seek t.mBucketCount hash)).bind fun (buckets, index) =>
      if !(buckets index).isCollision && t.mCapacity ≤ t.mFilledBuckets then
        (rehash { t with mBuckets := some buckets } (t.mCapacity * 2) t.mLoadFactor).bind
          (addLoop hash entry fuel)
      else some (t.put buckets index hash entry, index)

/-- The buckets are allocated when the first entry is added. -/
def allocated : Table Entry := { t with mBuckets := some (t.mBuckets.getD allocateBuckets) }

def add (hash : BitVec 32) (entry : Entry) : Option (Table Entry × Nat) :=
  addLoop (trimHash hash) entry 2 t.allocated

end Table

end Cdroid.Utils.BasicHashtable
