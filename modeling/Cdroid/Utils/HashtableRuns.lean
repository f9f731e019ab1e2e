import Cdroid.Lib.Runs
import Cdroid.Utils.HashtableFinds

/-! Runs of the operations on a `BasicHashtable`: the table is a bag of entries, `find` finds all of
them, and `add` fails in one kind of state only. -/

namespace Cdroid.Utils.BasicHashtable
open Cdroid.Lib Table

variable {Key Entry : Type} {getKey : Entry → Key} {hashCode : Key → BitVec 32}

inductive Action (Entry : Type)
  | add (entry : Entry)
  | removeAt (index : Nat)
  | clear
  | rehash (minimumCapacity : Nat) (loadFactor : LoadFactor)

/-- An operation of a caller that hands over the hash of the key, and removes what is there. -/
def next (getKey : Entry → Key) (hashCode : Key → BitVec 32) (t : Table Entry) :
    Action Entry → Option (Table Entry)
  | .add entry => (t.add (hashCode (getKey entry)) entry).map (·.1)
  | .removeAt index =>
    some (if index < t.mBucketCount ∧ (t.entryAt index).isSome then t.removeAt index else t)
  | .clear => some t.clear
  | .rehash minimumCapacity loadFactor => t.rehash minimumCapacity loadFactor

/-- The table grows to sizes in range only, and no entry is added to a table that is stranded. -/
def Meets (getKey : Entry → Key) (hashCode : Key → BitVec 32) (t : Table Entry) :
    Action Entry → Prop
  | .add e => (t.mCapacity ≤ t.mFilledBuckets → InRange (t.mCapacity * 2) t.mLoadFactor) ∧
      ¬ t.Stranded (hashOf getKey hashCode e)
  | .rehash m lf => InRange (max m t.mSize) lf
  | _ => True

instance (t : Table Entry) : (a : Action Entry) → Decidable (Meets getKey hashCode t a)
  | .add _ => inferInstanceAs (Decidable (_ ∧ _))
  | .rehash m lf => inferInstanceAs (Decidable (InRange (max m t.mSize) lf))
  | .removeAt _ | .clear => inferInstanceAs (Decidable True)

/-- What the table is for: a bag of entries. -/
inductive Bag : Multiset Entry → Action Entry → Multiset Entry → Prop
  | add (e : Entry) (m : Multiset Entry) : Bag m (.add e) (e ::ₘ m)
  | removeAt (i : Nat) (e : Entry) (m : Multiset Entry) : Bag (e ::ₘ m) (.removeAt i) m
  | nothing (i : Nat) (m : Multiset Entry) : Bag m (.removeAt i) m
  | clear (m : Multiset Entry) : Bag m .clear 0
  | rehash (n : Nat) (lf : LoadFactor) (m : Multiset Entry) : Bag m (.rehash n lf) m

inductive Bags : Multiset Entry → List (Action Entry) → Multiset Entry → Prop
  | nil (m : Multiset Entry) : Bags m [] m
  | cons {m m' m'' : Multiset Entry} {a : Action Entry} {as : List (Action Entry)} :
    Bag m a m' → Bags m' as m'' → Bags m (a :: as) m''

/-- **Step lemma**, of every table. -/
theorem next_sound {t u : Table Entry} (h : t.Sound (hashOf getKey hashCode)) {a : Action Entry}
    (hu : next getKey hashCode t a = some u) :
    u.Sound (hashOf getKey hashCode) ∧ Bag t.contents a u.contents := by
  cases a with
  | add e =>
    obtain ⟨⟨v, i⟩, hadd, rfl⟩ := Option.map_eq_some_iff.mp hu
    obtain ⟨hsound, hcontents⟩ := h.add hashOf_trimmed rfl hadd
    refine ⟨hsound, ?_⟩
    rw [hcontents]
    exact .add e _
  | removeAt i =>
    obtain rfl := Option.some.inj hu
    split
    case isTrue hi =>
      obtain ⟨e, he⟩ := Option.isSome_iff_exists.mp hi.2
      obtain ⟨hsound, hcontents⟩ := h.removeAt hi.1 he
      refine ⟨hsound, ?_⟩
      rw [hcontents]
      exact .removeAt i e _
    case isFalse => exact ⟨h, .nothing i _⟩
  | clear =>
    obtain rfl := Option.some.inj hu
    obtain ⟨hsound, hcontents⟩ := h.clear
    refine ⟨hsound, ?_⟩
    rw [hcontents]
    exact .clear _
  | rehash m lf =>
    have hu : t.rehash m lf = some u := hu
    obtain ⟨⟨count, capacity⟩, hcapacity, -⟩ := Option.bind_eq_some_iff.mp hu
    have hrehashed := h.rehashed hashOf_trimmed hcapacity hu
    refine ⟨hrehashed.sound, ?_⟩
    rw [hrehashed.contents]
    exact .rehash m lf _

/-- **Step lemma**, of tables with sizes in range. -/
theorem next_ok {t : Table Entry} (h : t.Ok (hashOf getKey hashCode)) {a : Action Entry}
    (hmeets : Meets getKey hashCode t a) :
    ∃ u, next getKey hashCode t a = some u ∧ u.Ok (hashOf getKey hashCode) := by
  cases a with
  | add e =>
    obtain ⟨u, i, hu, hadded⟩ := h.add hashOf_trimmed rfl hmeets.1 hmeets.2
    exact ⟨u, by rw [next, hu, Option.map_some], hadded.ok⟩
  | removeAt i =>
    by_cases hi : i < t.mBucketCount ∧ (t.entryAt i).isSome = true
    · obtain ⟨e, he⟩ := Option.isSome_iff_exists.mp hi.2
      refine ⟨t.removeAt i, by rw [next, if_pos hi], ?_⟩
      exact h.of_sameSizes (h.removeAt hi.1 he).1 (removeAt_sizes t i)
    · exact ⟨t, by rw [next, if_neg hi], h⟩
  | clear => exact ⟨t.clear, rfl, h.of_sameSizes h.clear.1 (clear_sizes t)⟩
  | rehash m lf =>
    obtain ⟨count, capacity, hcapacity, hfits⟩ := InRange.sizes hmeets
    obtain ⟨u, hu, hok, -⟩ := h.rehash hashOf_trimmed hcapacity hfits
    exact ⟨u, hu, hok⟩

section
variable {m : Nat} {lf : LoadFactor} {t u : Table Entry} {as : List (Action Entry)}

theorem run_sound (h : t.Sound (hashOf getKey hashCode))
    (hu : Runs.after (next getKey hashCode) as t = some u) :
    u.Sound (hashOf getKey hashCode) ∧ Bags t.contents as u.contents := by
  induction as generalizing t with
  | nil =>
    obtain rfl := Option.some.inj hu
    exact ⟨h, .nil _⟩
  | cons a as ih =>
    obtain ⟨v, hv, hrest⟩ := Runs.after_cons.mp hu
    obtain ⟨hsound, hbag⟩ := next_sound h hv
    obtain ⟨hsound', hbags⟩ := ih hsound hrest
    exact ⟨hsound', .cons hbag hbags⟩

theorem run_ok (hnew : Table.new m lf = some t) (hrange : InRange m lf)
    (hmeets : Runs.Along (Meets getKey hashCode) (next getKey hashCode) as t) :
    ∃ u, Runs.after (next getKey hashCode) as t = some u ∧ u.Ok (hashOf getKey hashCode) := by
  obtain ⟨count, capacity, hsizes, hfits⟩ := hrange.sizes
  have hbelow : t.mCapacity < t.mBucketCount := by
    rw [Table.new, hsizes] at hnew
    obtain rfl := Option.some.inj hnew
    exact hfits.below
  exact Runs.along_total (fun _ _ hok => next_ok hok) as (Ok.new _ hnew hbelow) hmeets

theorem reached_ok (hnew : Table.new m lf = some t) (hrange : InRange m lf)
    (hmeets : Runs.Along (Meets getKey hashCode) (next getKey hashCode) as t)
    (hu : Runs.after (next getKey hashCode) as t = some u) : u.Ok (hashOf getKey hashCode) := by
  obtain ⟨v, hv, hok⟩ := run_ok hnew hrange hmeets
  rwa [Option.some.inj (hu.symm.trans hv)]

/-- **`find`**, called with -1 and then with the index that it has returned, until it returns -1,
returns every index of an entry with the key, and none twice. -/
theorem run_findAll [DecidableEq Key] (hnew : Table.new m lf = some t) (hrange : InRange m lf)
    (hmeets : Runs.Along (Meets getKey hashCode) (next getKey hashCode) as t)
    (hu : Runs.after (next getKey hashCode) as t = some u) (key : Key) :
    ∃ l, findAll getKey u (hashCode key) key (u.mBucketCount + 1) none = some l ∧ l.Nodup ∧
      ∀ i, i ∈ l ↔ i < u.mBucketCount ∧ ∃ e, u.entryAt i = some e ∧ getKey e = key :=
  (reached_ok hnew hrange hmeets hu).findAll

/-- **`next`**, called with -1 and then with the index that it has returned, until it returns -1,
goes through all the entries of the table, in the order of the indices, whatever the sizes are. -/
theorem run_nextAll (hnew : Table.new m lf = some t)
    (hu : Runs.after (next getKey hashCode) as t = some u) :
    ∃ l, nextAll u (u.mBucketCount + 1) none = some l ∧ l.Pairwise (· < ·) ∧
      ((l.filterMap u.entryAt : List Entry) : Multiset Entry) = u.contents :=
  (run_sound (Sound.new (hashOf getKey hashCode) hnew).1 hu).1.nextAll

end

/-! ## A table of numbers -/

/-- The table that is made with the default values. -/
def small : Table Nat := ⟨3, .default, 0, 0, 5, none⟩

def hashNumber (n : Nat) : BitVec 32 := BitVec.ofNat 32 n

/-- Numbers that collide, one of them twice; the table grows. -/
def colliding : List (Action Nat) := [.add 0, .add 5, .add 10, .add 5, .removeAt 0, .add 16]

theorem colliding_findAll :
    ∃ u, Runs.after (next id hashNumber) colliding small = some u ∧
    ∃ l, findAll id u (hashNumber 5) 5 (u.mBucketCount + 1) none = some l ∧ l.Nodup ∧
      ∀ i, i ∈ l ↔ i < u.mBucketCount ∧ ∃ e, u.entryAt i = some e ∧ e = 5 := by
  have hsome : (Runs.after (next id hashNumber) colliding small).isSome = true := by decide
  exact ⟨_, (Option.some_get hsome).symm, run_findAll
    (show Table.new 0 .default = some small from rfl) (by decide)
    (show Runs.Along (Meets id hashNumber) _ colliding small by decide)
    (Option.some_get hsome).symm 5⟩

theorem colliding_nextAll :
    ∃ u, Runs.after (next id hashNumber) colliding small = some u ∧
    ∃ l, nextAll u (u.mBucketCount + 1) none = some l ∧ l.Pairwise (· < ·) ∧
      ((l.filterMap u.entryAt : List Nat) : Multiset Nat) = u.contents := by
  have hsome : (Runs.after (next id hashNumber) colliding small).isSome = true := by decide
  exact ⟨_, (Option.some_get hsome).symm, run_nextAll
    (show Table.new 0 .default = some small from rfl) (Option.some_get hsome).symm⟩

/-- Three buckets are marked, and then all the entries are removed. -/
def marking : List (Action Nat) :=
  [.add 0, .add 5, .add 10, .removeAt 2, .removeAt 0, .add 2, .removeAt 1, .add 257, .removeAt 2,
    .removeAt 0]

-- The table is stranded after this run.
example : ((Runs.after (next id hashNumber) (marking ++ [.add 3]) small)).isNone = true := by
  decide

end Cdroid.Utils.BasicHashtable
