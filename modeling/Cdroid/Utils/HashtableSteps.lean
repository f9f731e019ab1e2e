import Cdroid.Utils.HashtableChains
import Cdroid.Utils.HashtableSizes

/-! What the operations of a `BasicHashtable` do to its entries, and when their loops end. -/

namespace Cdroid.Utils.BasicHashtable
open Cdroid.Lib

section
variable {Entry : Type} {hashOf : Entry → BitVec 32} {t : Table Entry}

namespace Table

def contents (t : Table Entry) : Multiset Entry :=
  BasicHashtable.contents t.mBucketCount t.bucketAt

theorem bucketAt_eq : t.bucketAt = t.mBuckets.getD allocateBuckets := rfl

/-- **The invariant** of every table: the entries are in their chains, and they are counted. -/
structure Sound (hashOf : Entry → BitVec 32) (t : Table Entry) : Prop where
  count : t.mBucketCount ∈ PRIMES
  chained : Chained hashOf t.mBucketCount t.bucketAt
  size : t.mSize = t.contents.card
  filled : t.mFilledBuckets = filled t.mBucketCount t.bucketAt

/-- The invariant of a table in which there are more buckets than may be filled. -/
structure Ok (hashOf : Entry → BitVec 32) (t : Table Entry) : Prop extends Sound hashOf t where
  capacity : t.mCapacity = t.mLoadFactor.times (t.mBucketCount - 1)
  below : t.mCapacity < t.mBucketCount
  room : t.mFilledBuckets ≤ t.mCapacity

theorem Sound.prime (h : t.Sound hashOf) : t.mBucketCount.Prime := primes_prime h.count

theorem Sound.size_le (h : t.Sound hashOf) : t.mSize ≤ t.mFilledBuckets := by
  rw [h.size, h.filled]
  exact card_le_filled h.chained

theorem Sound.absent (h : t.Sound hashOf) (hsize : t.mSize = 0) {i : Nat}
    (hi : i < t.mBucketCount) : (t.bucketAt i).isPresent = false := by
  by_contra hp
  obtain ⟨e, he, -⟩ := h.chained.entry i hi (by simpa using hp)
  have hmem : e ∈ t.contents := mem_contents.mpr ⟨i, hi, by simpa using hp, he⟩
  rw [Multiset.card_eq_zero.mp (h.size.symm.trans hsize)] at hmem
  exact Multiset.notMem_zero e hmem

theorem Ok.capacity_pos (h : t.Ok hashOf) : 0 < t.mCapacity := by
  have htwo := h.prime.two_le
  rw [h.capacity]
  exact t.mLoadFactor.times_pos (by omega)

/-- There is always a bucket that has never been used. -/
theorem Ok.exists_unused (h : t.Ok hashOf) :
    ∃ i < t.mBucketCount,
      (t.bucketAt i).isPresent = false ∧ (t.bucketAt i).isCollision = false := by
  have hbelow := h.below
  have hroom := h.room
  rw [h.filled] at hroom
  exact BasicHashtable.exists_unused (by omega)

theorem Sound.new (hashOf : Entry → BitVec 32) {m : Nat} {lf : LoadFactor}
    (h : Table.new m lf = some t) : t.Sound hashOf ∧ t.contents = 0 := by
  obtain ⟨⟨count, capacity⟩, hcapacity, rfl⟩ := Option.map_eq_some_iff.mp h
  have hnone : contents (⟨capacity, lf, 0, 0, count, none⟩ : Table Entry) = 0 := contents_empty
  refine ⟨⟨(determineCapacity_spec hcapacity).1, Chained.empty, ?_, filled_empty.symm⟩, hnone⟩
  rw [hnone]
  rfl

theorem Ok.new (hashOf : Entry → BitVec 32) {m : Nat} {lf : LoadFactor}
    (h : Table.new m lf = some t) (hbelow : t.mCapacity < t.mBucketCount) : t.Ok hashOf := by
  refine ⟨(Sound.new hashOf h).1, ?_, hbelow, ?_⟩
  all_goals
    obtain ⟨⟨count, capacity⟩, hcapacity, rfl⟩ := Option.map_eq_some_iff.mp h
  · exact (determineCapacity_spec hcapacity).2.1
  · exact Nat.zero_le _

/-- Sizes that an operation leaves as they are. -/
structure SameSizes (t t' : Table Entry) : Prop where
  capacity : t'.mCapacity = t.mCapacity
  loadFactor : t'.mLoadFactor = t.mLoadFactor
  count : t'.mBucketCount = t.mBucketCount
  filled : t'.mFilledBuckets ≤ t.mFilledBuckets

theorem Ok.of_sameSizes {t' : Table Entry} (h : t.Ok hashOf) (hsound : t'.Sound hashOf)
    (hsame : SameSizes t t') : t'.Ok hashOf where
  toSound := hsound
  capacity := by rw [hsame.capacity, hsame.loadFactor, hsame.count, h.capacity]
  below := by rw [hsame.capacity, hsame.count]; exact h.below
  room := by rw [hsame.capacity]; exact hsame.filled.trans h.room

theorem clear_sizes (t : Table Entry) : SameSizes t t.clear := by
  unfold Table.clear
  split
  · exact ⟨rfl, rfl, rfl, le_rfl⟩
  · exact ⟨rfl, rfl, rfl, Nat.zero_le _⟩

theorem Sound.clear (h : t.Sound hashOf) : t.clear.Sound hashOf ∧ t.clear.contents = 0 := by
  unfold Table.clear
  cases hb : t.mBuckets with
  | none =>
    have hnone : t.contents = 0 := by
      rw [contents, bucketAt_eq, hb]
      exact contents_empty
    exact ⟨h, hnone⟩
  | some buckets =>
    by_cases hzero : t.mFilledBuckets = 0
    · have hsize : t.mSize = 0 := by
        have hle := h.size_le
        omega
      have hnone : t.contents = 0 := by
        rw [← Multiset.card_eq_zero, ← h.size, hsize]
      have hsame : { t with mBuckets := t.mBuckets, mFilledBuckets := 0, mSize := 0 } = t := by
        cases t
        simp_all
      simp only [hzero, if_true]
      rw [← hb, hsame]
      exact ⟨h, hnone⟩
    · have hnone : contents { t with
          mBuckets := some (allocateBuckets : Nat → Bucket Entry)
          mFilledBuckets := 0
          mSize := 0 } = 0 :=
        contents_empty
      simp only [hzero, if_false]
      refine ⟨⟨h.count, Chained.empty, ?_, filled_empty.symm⟩, hnone⟩
      rw [hnone]
      rfl

/-! ## `removeAt` -/

theorem removeAt_sizes (t : Table Entry) (i : Nat) : SameSizes t (t.removeAt i) := by
  refine ⟨rfl, rfl, rfl, ?_⟩
  show (if (t.bucketAt i).isCollision = true then _ else _) ≤ _
  split <;> omega

theorem Sound.removeAt (h : t.Sound hashOf) {i : Nat} (hi : i < t.mBucketCount) {e : Entry}
    (he : t.entryAt i = some e) :
    (t.removeAt i).Sound hashOf ∧ t.contents = e ::ₘ (t.removeAt i).contents := by
  obtain ⟨hpresent, hentry⟩ : (t.bucketAt i).isPresent = true ∧ (t.bucketAt i).entry = some e := by
    rw [entryAt] at he
    split at he
    case isTrue hp => exact ⟨hp, he⟩
    case isFalse => cases he
  obtain ⟨buckets, hb⟩ : ∃ buckets, t.mBuckets = some buckets := by
    cases hb : t.mBuckets with
    | none => simp [bucketAt, hb, allocateBuckets] at hpresent
    | some buckets => exact ⟨buckets, rfl⟩
  have hcookie := removed_cookie (t.bucketAt i).cookie (none : Option Entry)
  generalize hnew : (⟨(t.bucketAt i).cookie &&& ~~~PRESENT, none⟩ : Bucket Entry) = new at hcookie
  obtain ⟨hgone, hmark⟩ := hcookie
  have hbuckets : (t.removeAt i).bucketAt = Function.update t.bucketAt i new := by
    rw [bucketAt_eq, bucketAt_eq, Table.removeAt, hb, hnew]
    rfl
  have hcontents : (t.removeAt i).contents + {e} = t.contents := by
    have hupdate := contents_update t.bucketAt hi new
    have hheld : (t.bucketAt i).held = {e} := by simp [Bucket.held, hpresent, hentry]
    have hnone : new.held = 0 := by simp [Bucket.held, hgone]
    rw [hheld, hnone, add_zero, ← hbuckets] at hupdate
    exact hupdate
  have hcard : t.contents.card = (t.removeAt i).contents.card + 1 := by
    rw [← hcontents, Multiset.card_add, Multiset.card_singleton]
  have hfilled : BasicHashtable.filled t.mBucketCount (t.removeAt i).bucketAt + 1 =
      BasicHashtable.filled t.mBucketCount t.bucketAt +
        if (t.bucketAt i).isCollision then 1 else 0 := by
    have hupdate := filled_update t.bucketAt hi new
    have hold : (t.bucketAt i).used = 1 := by simp [Bucket.used, hpresent]
    have hused : new.used = if (t.bucketAt i).isCollision then 1 else 0 := by
      rw [Bucket.used, hgone, hmark, Bool.false_or]
      rfl
    rwa [hold, hused, ← hbuckets] at hupdate
  have hsame : (t.removeAt i).mFilledBuckets =
      BasicHashtable.filled t.mBucketCount (t.removeAt i).bucketAt := by
    have hsize := h.size
    have hle := h.size_le
    have hcount := h.filled
    have hnew : (t.removeAt i).mFilledBuckets =
        if (t.bucketAt i).isCollision then t.mFilledBuckets else t.mFilledBuckets - 1 := rfl
    split at hfilled
    case isTrue hm =>
      rw [hnew, if_pos hm]
      omega
    case isFalse hm =>
      rw [hnew, if_neg hm]
      omega
  refine ⟨⟨h.count, ?_, ?_, hsame⟩, ?_⟩
  · rw [hbuckets]
    exact h.chained.update (fun hm => hmark.trans hm) (fun hp =>
      absurd (hgone.symm.trans hp) Bool.false_ne_true) fun hp =>
      absurd (hgone.symm.trans hp) Bool.false_ne_true
  · show t.mSize - 1 = (t.removeAt i).contents.card
    rw [h.size, hcard]
    rfl
  · rw [← hcontents, Multiset.add_comm, Multiset.singleton_add]

theorem removeAt_entryAt (t : Table Entry) (i j : Nat) :
    (t.removeAt i).entryAt j = if j = i then none else t.entryAt j := by
  have hgone := (removed_cookie (t.bucketAt i).cookie (none : Option Entry)).1
  cases hb : t.mBuckets with
  | none => simp [entryAt, bucketAt, Table.removeAt, hb, allocateBuckets]
  | some buckets =>
    by_cases hj : j = i
    · subst hj
      rw [bucketAt, hb, Option.getD_some] at hgone
      simp [entryAt, bucketAt, Table.removeAt, hb, hgone]
    · simp [entryAt, bucketAt, Table.removeAt, hb, hj]

/-! ## `rehash` -/

/-- A bucket is not marked in the new table before it is present. -/
def Solid (buckets : Nat → Bucket Entry) : Prop :=
  ∀ l, (buckets l).isCollision = true → (buckets l).isPresent = true

theorem filled_of_solid {count : Nat} {buckets : Nat → Bucket Entry} (hsolid : Solid buckets)
    (h : Chained hashOf count buckets) :
    BasicHashtable.filled count buckets = (BasicHashtable.contents count buckets).card := by
  rw [card_contents h]
  refine Finset.sum_congr rfl fun i _ => ?_
  have hmark := hsolid i
  cases hp : (buckets i).isPresent <;> simp_all [Bucket.used]

/-- The new buckets when the first `n` buckets of the old table have been moved. -/
structure Moved (hashOf : Entry → BitVec 32) (t : Table Entry) (count n : Nat)
    (buckets : Nat → Bucket Entry) : Prop where
  chained : Chained hashOf count buckets
  solid : Solid buckets
  contents : BasicHashtable.contents count buckets = BasicHashtable.contents n t.bucketAt

theorem contents_succ (n : Nat) (buckets : Nat → Bucket Entry) :
    BasicHashtable.contents (n + 1) buckets =
      BasicHashtable.contents n buckets + (buckets n).held :=
  Finset.sum_range_succ _ n

theorem contents_le {n count : Nat} (h : n ≤ count) (buckets : Nat → Bucket Entry) :
    (BasicHashtable.contents n buckets).card ≤ (BasicHashtable.contents count buckets).card := by
  induction count, h using Nat.le_induction with
  | base => exact le_rfl
  | succ count _ ih =>
    rw [contents_succ, Multiset.card_add]
    omega

variable (htrimmed : ∀ e, Trimmed (hashOf e))

include htrimmed in
/-- A bucket that has been moved is in the new table. -/
theorem Sound.moved (h : t.Sound hashOf) {count n : Nat} {buckets buckets' : Nat → Bucket Entry}
    (hprime : count.Prime) (hn : n < t.mBucketCount) (hmoved : Moved hashOf t count n buckets)
    (hmove : t.moveBucket count buckets n = some buckets') :
    Moved hashOf t count (n + 1) buckets' := by
  rw [Table.moveBucket] at hmove
  split at hmove
  case isTrue hp =>
    obtain ⟨⟨marked, i⟩, hseek, hput⟩ := Option.map_eq_some_iff.mp hmove
    dsimp only at hput
    subst hput
    obtain ⟨e, he, hhash⟩ := h.chained.entry n hn hp
    have hseeks := hmoved.chained.seeks_of_some hprime hseek
    have hcookie := filled_cookie 0#32 (hhash ▸ htrimmed e) (t.bucketAt n).entry
    rw [BitVec.zero_and, BitVec.zero_or] at hcookie
    obtain ⟨hpresent, hmark, hnew⟩ := hcookie
    have hsolid : Solid marked := fun l hl => (hseeks.marks l hl).elim
      (fun hold => (hseeks.same l).1.trans (hmoved.solid l hold)) id
    have hclear : (marked i).isCollision = false := by
      by_contra hm
      exact Bool.false_ne_true (hseeks.free.symm.trans (hsolid i (by simpa using hm)))
    obtain ⟨hchained, hcontents, -⟩ := hseeks.put hpresent hnew hhash he (by
      rw [hmark, hclear]
      rfl)
    refine ⟨hchained, fun l hl => ?_, ?_⟩
    · by_cases hli : l = i
      · subst hli
        rw [Function.update_self]
        exact hpresent
      · rw [Function.update_of_ne hli] at hl ⊢
        exact hsolid l hl
    · rw [hcontents, hmoved.contents, contents_succ, Bucket.held, if_pos hp, he, Option.elim_some,
        Multiset.add_comm, Multiset.singleton_add]
  case isFalse hp =>
    obtain rfl : buckets = buckets' := Option.some.inj hmove
    refine ⟨hmoved.chained, hmoved.solid, ?_⟩
    rw [hmoved.contents, contents_succ, Bucket.held, if_neg hp, add_zero]

theorem Moved.start (hashOf : Entry → BitVec 32) (t : Table Entry) (count : Nat) :
    Moved hashOf t count 0 allocateBuckets :=
  ⟨Chained.empty, fun l hl => by simp [allocateBuckets] at hl, contents_empty⟩

theorem moveBuckets_succ (t : Table Entry) (count n : Nat) (buckets : Nat → Bucket Entry) :
    (List.range (n + 1)).foldlM (t.moveBucket count) buckets =
      ((List.range n).foldlM (t.moveBucket count) buckets).bind (t.moveBucket count · n) := by
  rw [List.range_succ, List.foldlM_append]
  simp

include htrimmed in
theorem Sound.movedAll (h : t.Sound hashOf) {count : Nat} {buckets : Nat → Bucket Entry}
    (hprime : count.Prime) (hmove : t.moveBuckets count = some buckets) :
    Moved hashOf t count t.mBucketCount buckets := by
  have hprefix : ∀ n ≤ t.mBucketCount, ∀ buckets,
      (List.range n).foldlM (t.moveBucket count) allocateBuckets = some buckets →
        Moved hashOf t count n buckets := by
    intro n
    induction n with
    | zero =>
      intro _ buckets hfold
      obtain rfl : allocateBuckets = buckets := Option.some.inj hfold
      exact Moved.start hashOf t count
    | succ n ih =>
      intro hn buckets hfold
      rw [moveBuckets_succ] at hfold
      obtain ⟨before, hbefore, hlast⟩ := Option.bind_eq_some_iff.mp hfold
      exact h.moved htrimmed hprime hn (ih (by omega) before hbefore) hlast
  exact hprefix _ le_rfl buckets hmove

include htrimmed in
/-- The loop ends where there are more buckets than entries. -/
theorem Sound.moveBuckets (h : t.Sound hashOf) {count : Nat} (hprime : count.Prime)
    (hroom : t.mSize < count) : ∃ buckets, t.moveBuckets count = some buckets := by
  have hprefix : ∀ n ≤ t.mBucketCount, ∃ buckets,
      (List.range n).foldlM (t.moveBucket count) allocateBuckets = some buckets ∧
        Moved hashOf t count n buckets := by
    intro n
    induction n with
    | zero => exact fun _ => ⟨_, rfl, Moved.start hashOf t count⟩
    | succ n ih =>
      intro hn
      obtain ⟨buckets, hfold, hmoved⟩ := ih (by omega)
      obtain ⟨buckets', hmove⟩ : ∃ buckets', t.moveBucket count buckets n = some buckets' := by
        rw [Table.moveBucket]
        split
        case isTrue =>
          have hfew : BasicHashtable.filled count buckets < count := by
            have hle := contents_le (Nat.le_of_lt hn) t.bucketAt
            rw [filled_of_solid hmoved.solid hmoved.chained, hmoved.contents]
            exact (hle.trans_eq h.size.symm).trans_lt hroom
          obtain ⟨j, hj, hfree, -⟩ := BasicHashtable.exists_unused hfew
          obtain ⟨marked, i, hseek, -⟩ :=
            hmoved.chained.seeks hprime hj hfree (t.bucketAt n).hash
          exact ⟨_, by rw [hseek]; rfl⟩
        case isFalse => exact ⟨buckets, rfl⟩
      refine ⟨buckets', ?_, h.moved htrimmed hprime hn hmoved hmove⟩
      rw [moveBuckets_succ, hfold]
      exact hmove
  obtain ⟨buckets, hfold, -⟩ := hprefix _ le_rfl
  exact ⟨buckets, hfold⟩

/-- The entries stay, and so does the size; the table has other sizes, where these are new, and
then no marks, and no buckets where there are no entries. -/
structure Rehashed (hashOf : Entry → BitVec 32) (t : Table Entry) (lf : LoadFactor)
    (count capacity : Nat) (t' : Table Entry) : Prop where
  sound : t'.Sound hashOf
  contents : t'.contents = t.contents
  size : t'.mSize = t.mSize
  count_eq : t'.mBucketCount = count
  capacity_eq : t'.mCapacity = capacity
  loadFactor_eq : t'.mLoadFactor = lf
  room : t.mFilledBuckets ≤ t.mCapacity → t.mSize ≤ capacity → t'.mFilledBuckets ≤ t'.mCapacity
  other : count ≠ t.mBucketCount → t'.mFilledBuckets = t.mSize ∧
    (t'.mBuckets.isSome ↔ t.mBuckets.isSome = true ∧ t.mSize ≠ 0)

include htrimmed in
theorem Sound.rehashed (h : t.Sound hashOf) {m count capacity : Nat} {lf : LoadFactor}
    {t' : Table Entry}
    (hcapacity : determineCapacity (max m t.mSize) lf = some (count, capacity))
    (hrehash : t.rehash m lf = some t') : Rehashed hashOf t lf count capacity t' := by
  obtain ⟨hcount, -, -⟩ := determineCapacity_spec hcapacity
  unfold Table.rehash at hrehash
  rw [hcapacity, Option.bind_some] at hrehash
  dsimp only at hrehash
  split at hrehash
  case isTrue hsame =>
    obtain rfl : { t with mLoadFactor := lf } = t' := Option.some.inj hrehash
    exact ⟨⟨h.count, h.chained, h.size, h.filled⟩, rfl, rfl, hsame.1.symm, hsame.2.symm, rfl,
      fun hroom _ => hroom, fun hne => absurd hsame.1 hne⟩
  case isFalse hother =>
    have hgood : ∀ (buckets : Option (Nat → Bucket Entry)) (used : Nat),
        Chained hashOf count (buckets.getD allocateBuckets) →
        BasicHashtable.contents count (buckets.getD allocateBuckets) = t.contents →
        used = BasicHashtable.filled count (buckets.getD allocateBuckets) → used = t.mSize →
        (buckets.isSome ↔ t.mBuckets.isSome = true ∧ t.mSize ≠ 0) →
        Rehashed hashOf t lf count capacity ⟨capacity, lf, t.mSize, used, count, buckets⟩ := by
      intro buckets used hchained hcontents hused hsize hsome
      exact ⟨⟨hcount, hchained, h.size.trans (congrArg Multiset.card hcontents.symm), hused⟩,
        hcontents, rfl, rfl, rfl, rfl, fun _ hfew => hsize.trans_le hfew, fun _ => ⟨hsize, hsome⟩⟩
    split at hrehash
    case isTrue hnone =>
      rw [Option.isNone_iff_eq_none] at hnone
      have hempty : t.contents = 0 := by
        rw [contents, bucketAt_eq, hnone]
        exact contents_empty
      have hfilled : t.mFilledBuckets = 0 := by
        rw [h.filled, bucketAt_eq, hnone]
        exact filled_empty
      have hsize : t.mSize = 0 := by rw [h.size, hempty, Multiset.card_zero]
      obtain rfl := Option.some.inj hrehash
      refine hgood t.mBuckets t.mFilledBuckets ?_ ?_ ?_ (hfilled.trans hsize.symm) ?_
      · rw [hnone]
        exact Chained.empty
      · rw [hnone, hempty]
        exact contents_empty
      · rw [hnone, hfilled]
        exact filled_empty.symm
      · simp [hsize, hnone]
    case isFalse hsome =>
      split at hrehash
      case isTrue hsize =>
        have hempty : t.contents = 0 := by
          rw [← Multiset.card_eq_zero, ← h.size, hsize]
        obtain rfl := Option.some.inj hrehash
        exact hgood none 0 Chained.empty (contents_empty.trans hempty.symm) filled_empty.symm
          hsize.symm (by simp [hsize])
      case isFalse hsize =>
        obtain ⟨buckets, hmove, rfl⟩ := Option.map_eq_some_iff.mp hrehash
        have hmoved := h.movedAll htrimmed (primes_prime hcount) hmove
        refine hgood (some buckets) t.mSize hmoved.chained hmoved.contents ?_ rfl ?_
        · rw [Option.getD_some, filled_of_solid hmoved.solid hmoved.chained, hmoved.contents]
          exact h.size
        · simpa [hsize, Option.isSome_iff_ne_none] using hsome

include htrimmed in
theorem Sound.rehash (h : t.Sound hashOf) {m count capacity : Nat} {lf : LoadFactor}
    (hcapacity : determineCapacity (max m t.mSize) lf = some (count, capacity))
    (hroom : t.mSize < count) : ∃ t', t.rehash m lf = some t' := by
  obtain ⟨buckets, hmove⟩ :=
    h.moveBuckets htrimmed (primes_prime (determineCapacity_spec hcapacity).1) hroom
  unfold Table.rehash
  rw [hcapacity, Option.bind_some]
  dsimp only
  split
  case isTrue => exact ⟨_, rfl⟩
  case isFalse =>
    split
    case isTrue => exact ⟨_, rfl⟩
    case isFalse =>
      split
      case isTrue => exact ⟨_, rfl⟩
      case isFalse => exact ⟨_, by rw [hmove]; rfl⟩

include htrimmed in
/-- **`rehash`** into a table that has room for what is asked for, and a bucket more. -/
theorem Ok.rehash (h : t.Ok hashOf) {m count capacity : Nat} {lf : LoadFactor}
    (hcapacity : determineCapacity (max m t.mSize) lf = some (count, capacity))
    (hfits : Fitting (max m t.mSize) count capacity) :
    ∃ t', t.rehash m lf = some t' ∧ t'.Ok hashOf ∧ Rehashed hashOf t lf count capacity t' := by
  have hfew : t.mSize ≤ capacity := (le_max_right m _).trans hfits.enough
  obtain ⟨t', hrehash⟩ := h.toSound.rehash htrimmed hcapacity (hfew.trans_lt hfits.below)
  have hrehashed := h.rehashed htrimmed hcapacity hrehash
  refine ⟨t', hrehash, ⟨hrehashed.sound, ?_, ?_, hrehashed.room h.room hfew⟩, hrehashed⟩
  · rw [hrehashed.capacity_eq, hrehashed.loadFactor_eq, hrehashed.count_eq]
    exact (determineCapacity_spec hcapacity).2.1
  · rw [hrehashed.capacity_eq, hrehashed.count_eq]
    exact hfits.below

/-! ## `add` -/

/-- The entry is in the table, at the index that `add` returns. -/
structure Added (hashOf : Entry → BitVec 32) (t : Table Entry) (e : Entry) (t' : Table Entry)
    (i : Nat) : Prop where
  ok : t'.Ok hashOf
  contents : t'.contents = e ::ₘ t.contents
  lt : i < t'.mBucketCount
  entryAt : t'.entryAt i = some e

/-- Nothing else has moved. -/
structure InPlace (t t' : Table Entry) (i : Nat) : Prop where
  count : t'.mBucketCount = t.mBucketCount
  capacity : t'.mCapacity = t.mCapacity
  loadFactor : t'.mLoadFactor = t.mLoadFactor
  filled : t'.mFilledBuckets ≤ t.mFilledBuckets + 1
  free : t.entryAt i = none
  others : ∀ j ≠ i, t'.entryAt j = t.entryAt j

variable {buckets' : Nat → Bucket Entry} {e : Entry} {i : Nat}

/-- The table when the loop has marked buckets. -/
theorem Sound.passed (h : t.Sound hashOf)
    (hseeks : Seeks hashOf t.mBucketCount (hashOf e) t.bucketAt buckets' i) :
    Table.Sound hashOf { t with mBuckets := some buckets' } :=
  ⟨h.count, hseeks.chained, h.size.trans (congrArg Multiset.card hseeks.contents.symm),
    h.filled.trans hseeks.filled.symm⟩

theorem put_filled (t : Table Entry) (buckets' : Nat → Bucket Entry) (i : Nat) (hash : BitVec 32)
    (e : Entry) : (t.put buckets' i hash e).mFilledBuckets =
      t.mFilledBuckets + if (buckets' i).isCollision then 0 else 1 := by
  show (if (buckets' i).isCollision then _ else _) = _
  split <;> rfl

include htrimmed in
theorem Sound.put (h : t.Sound hashOf)
    (hseeks : Seeks hashOf t.mBucketCount (hashOf e) t.bucketAt buckets' i) :
    (t.put buckets' i (hashOf e) e).Sound hashOf ∧
      (t.put buckets' i (hashOf e) e).contents = e ::ₘ t.contents := by
  obtain ⟨hpresent, hmark, hnew⟩ := filled_cookie (buckets' i).cookie (htrimmed e) (some e)
  obtain ⟨hchained, hcontents, hfilled⟩ := hseeks.put hpresent hnew rfl rfl hmark
  have hall : (t.put buckets' i (hashOf e) e).contents = e ::ₘ t.contents := hcontents
  refine ⟨⟨h.count, hchained, ?_, ?_⟩, hall⟩
  · show t.mSize + 1 = _
    rw [hall, Multiset.card_cons, h.size]
  · rw [put_filled, h.filled]
    exact hfilled.symm

include htrimmed in
/-- What `add` has done, if its loops have ended. -/
theorem Sound.addLoop (h : t.Sound hashOf) {fuel : Nat} {t' : Table Entry}
    (hadd : Table.addLoop (hashOf e) e fuel t = some (t', i)) :
    t'.Sound hashOf ∧ t'.contents = e ::ₘ t.contents := by
  induction fuel generalizing t with
  | zero => cases hadd
  | succ fuel ih =>
    rw [Table.addLoop] at hadd
    obtain ⟨⟨buckets', j⟩, hseek, hrest⟩ := Option.bind_eq_some_iff.mp hadd
    obtain ⟨buckets, hb, hseek⟩ := Option.bind_eq_some_iff.mp hseek
    obtain rfl : t.bucketAt = buckets := by rw [bucketAt_eq, hb, Option.getD_some]
    have hseeks := h.chained.seeks_of_some h.prime hseek
    dsimp only at hrest
    split at hrest
    case isTrue =>
      obtain ⟨u, hrehash, hrest⟩ := Option.bind_eq_some_iff.mp hrest
      obtain ⟨⟨count, capacity⟩, hcapacity, -⟩ := Option.bind_eq_some_iff.mp hrehash
      have hrehashed := (h.passed hseeks).rehashed htrimmed hcapacity hrehash
      obtain ⟨hsound, hcontents⟩ := ih hrehashed.sound hrest
      refine ⟨hsound, ?_⟩
      rw [hcontents, hrehashed.contents]
      exact congrArg (e ::ₘ ·) hseeks.contents
    case isFalse =>
      obtain ⟨rfl, rfl⟩ := Prod.mk.inj (Option.some.inj hrest)
      exact h.put htrimmed hseeks

theorem Sound.allocated (h : t.Sound hashOf) : t.allocated.Sound hashOf :=
  ⟨h.count, h.chained, h.size, h.filled⟩

include htrimmed in
theorem Sound.add (h : t.Sound hashOf) {hash : BitVec 32} (hhash : trimHash hash = hashOf e)
    {t' : Table Entry} (hadd : t.add hash e = some (t', i)) :
    t'.Sound hashOf ∧ t'.contents = e ::ₘ t.contents := by
  rw [Table.add, hhash] at hadd
  exact h.allocated.addLoop htrimmed hadd

theorem Ok.passed (h : t.Ok hashOf)
    (hseeks : Seeks hashOf t.mBucketCount (hashOf e) t.bucketAt buckets' i) :
    Table.Ok hashOf { t with mBuckets := some buckets' } :=
  h.of_sameSizes (h.toSound.passed hseeks) ⟨rfl, rfl, rfl, le_rfl⟩

include htrimmed in
theorem Ok.put (h : t.Ok hashOf)
    (hseeks : Seeks hashOf t.mBucketCount (hashOf e) t.bucketAt buckets' i)
    (hput : (buckets' i).isCollision = true ∨ t.mFilledBuckets < t.mCapacity) :
    Added hashOf t e (t.put buckets' i (hashOf e) e) i ∧
      InPlace t (t.put buckets' i (hashOf e) e) i := by
  obtain ⟨hsound, hall⟩ := h.toSound.put htrimmed hseeks
  obtain ⟨hpresent, -, -⟩ := filled_cookie (buckets' i).cookie (htrimmed e) (some e)
  have hroom := h.room
  refine ⟨⟨⟨hsound, h.capacity, h.below, ?_⟩, hall, hseeks.lt, ?_⟩, rfl, rfl, rfl, ?_, ?_, ?_⟩
  · show _ ≤ t.mCapacity
    rw [put_filled]
    split
    case isTrue => omega
    case isFalse hm =>
      rcases hput with hput | hput
      · exact absurd hput hm
      · omega
  · simp only [entryAt, bucketAt_eq, Table.put, Option.getD_some, Function.update_self, hpresent,
      if_true]
  · rw [put_filled]
    split <;> omega
  · rw [entryAt, ← (hseeks.same i).1, hseeks.free]
    rfl
  · intro j hj
    have hnewAt : (t.put buckets' i (hashOf e) e).bucketAt = Function.update buckets' i
      ⟨(buckets' i).cookie &&& COLLISION ||| PRESENT ||| hashOf e, some e⟩ := rfl
    rw [entryAt, entryAt, hnewAt, Function.update_of_ne hj, (hseeks.same j).1, (hseeks.same j).2]

theorem allocated_eq (h : t.mBuckets.isSome = true) : t.allocated = t := by
  obtain ⟨buckets, hb⟩ := Option.isSome_iff_exists.mp h
  rw [allocated, hb, Option.getD_some, ← hb]

theorem addLoop_put (fuel : Nat)
    (hseek : seek t.mBucketCount (hashOf e) t.bucketAt = some (buckets', i))
    (hput : (buckets' i).isCollision = true ∨ t.mFilledBuckets < t.mCapacity) :
    Table.addLoop (hashOf e) e (fuel + 1) t.allocated =
      some (t.put buckets' i (hashOf e) e, i) := by
  have hno : (!(buckets' i).isCollision && decide (t.mCapacity ≤ t.mFilledBuckets)) = false := by
    rcases hput with hm | hlt
    · simp [hm]
    · simp [Nat.not_le.mpr hlt]
  rw [addLoop, allocated, Option.bind_some, ← bucketAt_eq, hseek, Option.bind_some]
  simp only [hno, Bool.false_eq_true, if_false]
  rfl

theorem addLoop_grow {fuel : Nat}
    (hseek : seek t.mBucketCount (hashOf e) t.bucketAt = some (buckets', i))
    (hm : (buckets' i).isCollision = false) (hfull : t.mCapacity ≤ t.mFilledBuckets) :
    Table.addLoop (hashOf e) e (fuel + 1) t.allocated =
      (rehash { t with mBuckets := some buckets' } (t.mCapacity * 2) t.mLoadFactor).bind
        (addLoop (hashOf e) e fuel) := by
  have hyes : (!(buckets' i).isCollision && decide (t.mCapacity ≤ t.mFilledBuckets)) = true := by
    simp [hm, hfull]
  rw [addLoop, allocated, Option.bind_some, ← bucketAt_eq, hseek, Option.bind_some]
  simp only [hyes, if_true]

theorem Ok.seeks (h : t.Ok hashOf) (hash : BitVec 32) :
    ∃ buckets' i, seek t.mBucketCount hash t.bucketAt = some (buckets', i) ∧
      Seeks hashOf t.mBucketCount hash t.bucketAt buckets' i := by
  obtain ⟨j, hj, hfree, -⟩ := h.exists_unused
  exact h.chained.seeks h.prime hj hfree hash

include htrimmed in
/-- **With room for it**, the entry is put into a bucket that was free, and nothing else moves. -/
theorem Ok.addInPlace (h : t.Ok hashOf) {hash : BitVec 32} (hhash : trimHash hash = hashOf e)
    (hroom : t.hasMoreRoom = true) :
    ∃ t' i, t.add hash e = some (t', i) ∧ Added hashOf t e t' i ∧ InPlace t t' i := by
  obtain ⟨buckets', i, hseek, hseeks⟩ := h.seeks (hashOf e)
  have hput : (buckets' i).isCollision = true ∨ t.mFilledBuckets < t.mCapacity :=
    Or.inr (by simpa [hasMoreRoom] using hroom)
  refine ⟨_, i, ?_, h.put htrimmed hseeks hput⟩
  rw [Table.add, hhash]
  exact addLoop_put _ hseek hput

/-- The size that `add` grows to is another one. -/
theorem Ok.grows (h : t.Ok hashOf) {count capacity : Nat}
    (hcapacity : determineCapacity (t.mCapacity * 2) t.mLoadFactor = some (count, capacity)) :
    count ≠ t.mBucketCount := by
  obtain ⟨-, -, hdivided⟩ := determineCapacity_spec hcapacity
  have htwo := h.prime.two_le
  have hlt := t.mLoadFactor.lt_doubled (n := t.mBucketCount - 1) (by omega)
  rw [← h.capacity] at hlt
  omega

include htrimmed in
/-- What `add` does when it goes past marks to a bucket for which there is no room. -/
theorem Ok.growAndAdd (h : t.Ok hashOf)
    (hseeks : Seeks hashOf t.mBucketCount (hashOf e) t.bucketAt buckets' i) {count capacity : Nat}
    (hcapacity : determineCapacity (t.mCapacity * 2) t.mLoadFactor = some (count, capacity))
    (hfits : Fitting (t.mCapacity * 2) count capacity) (fuel : Nat) :
    ∃ t', Table.rehash { t with mBuckets := some buckets' } (t.mCapacity * 2) t.mLoadFactor =
        some t' ∧
      (t.mSize = 0 → Table.addLoop (hashOf e) e (fuel + 1) t' = none) ∧
      (t.mSize ≠ 0 → ∃ t'' j, Table.addLoop (hashOf e) e (fuel + 1) t' = some (t'', j) ∧
        Added hashOf t e t'' j) := by
  have hpassed := h.passed hseeks
  have hle := h.size_le
  have hroom := h.room
  have hpos := h.capacity_pos
  have hmax : max (t.mCapacity * 2) t.mSize = t.mCapacity * 2 := max_eq_left (by omega)
  obtain ⟨t', hrehash, hok, hrehashed⟩ := hpassed.rehash htrimmed
    (hmax.symm ▸ hcapacity : determineCapacity (max (t.mCapacity * 2) t.mSize) t.mLoadFactor = _)
    (hmax.symm ▸ hfits : Fitting (max (t.mCapacity * 2) t.mSize) count capacity)
  obtain ⟨hfilled, hbuckets⟩ := hrehashed.other (h.grows hcapacity)
  have hbuckets : t'.mBuckets.isSome = true ↔ t.mSize ≠ 0 := by simpa using hbuckets
  refine ⟨t', hrehash, fun hzero => ?_, fun hmany => ?_⟩
  · have hnone : t'.mBuckets = none := by
      rw [← Option.not_isSome_iff_eq_none, hbuckets]
      exact not_not_intro hzero
    rw [Table.addLoop, hnone, Option.bind_none, Option.bind_none]
  · obtain ⟨buckets'', j, hseek, hseeks'⟩ := hok.seeks (hashOf e)
    have hput : (buckets'' j).isCollision = true ∨ t'.mFilledBuckets < t'.mCapacity := by
      have hfew : t'.mFilledBuckets = t.mSize := hfilled
      have hmore := hfits.enough
      have hnew := hrehashed.capacity_eq
      exact Or.inr (by omega)
    have hadded := (hok.put htrimmed hseeks' hput).1
    have hend := addLoop_put fuel hseek hput
    rw [allocated_eq (hbuckets.mpr hmany)] at hend
    refine ⟨_, j, hend, hadded.ok, ?_, hadded.lt, hadded.entryAt⟩
    exact hadded.contents.trans
      (congrArg (e ::ₘ ·) (hrehashed.contents.trans hseeks.contents))

/-- There are no entries left, but so many marks that there is no room, and the first bucket is free
of both: `rehash` leaves no buckets, and `add` goes on with a null pointer. -/
def Stranded (t : Table Entry) (hash : BitVec 32) : Prop :=
  t.mSize = 0 ∧ t.mCapacity ≤ t.mFilledBuckets ∧
    (t.bucketAt (chainStart hash t.mBucketCount)).isCollision = false

instance (t : Table Entry) (hash : BitVec 32) : Decidable (Stranded t hash) :=
  inferInstanceAs (Decidable (_ ∧ _))

theorem Sound.seek_first (h : t.Sound hashOf) (hsize : t.mSize = 0) (hash : BitVec 32) :
    seek t.mBucketCount hash t.bucketAt = some (t.bucketAt, chainStart hash t.mBucketCount) :=
  BasicHashtable.seek_first h.prime.pos (h.absent hsize (Nat.mod_lt _ h.prime.pos))

include htrimmed in
/-- **`add`** puts the entry into the table, which grows if it has to. -/
theorem Ok.add (h : t.Ok hashOf) {hash : BitVec 32} (hhash : trimHash hash = hashOf e)
    (hgrow : t.mCapacity ≤ t.mFilledBuckets → InRange (t.mCapacity * 2) t.mLoadFactor)
    (hstranded : ¬ t.Stranded (hashOf e)) :
    ∃ t' i, t.add hash e = some (t', i) ∧ Added hashOf t e t' i := by
  obtain ⟨buckets', i, hseek, hseeks⟩ := h.seeks (hashOf e)
  rw [Table.add, hhash]
  by_cases hput : (buckets' i).isCollision = true ∨ t.mFilledBuckets < t.mCapacity
  · exact ⟨_, i, addLoop_put _ hseek hput, (h.put htrimmed hseeks hput).1⟩
  · rw [not_or, Bool.not_eq_true, Nat.not_lt] at hput
    obtain ⟨hm, hfull⟩ := hput
    obtain ⟨count, capacity, hcapacity, hfits⟩ := (hgrow hfull).sizes
    obtain ⟨t', hrehash, -, hadd⟩ := h.growAndAdd htrimmed hseeks hcapacity hfits 0
    have hmany : t.mSize ≠ 0 := by
      intro hsize
      rw [h.seek_first hsize] at hseek
      obtain ⟨rfl, rfl⟩ := Prod.mk.inj (Option.some.inj hseek)
      exact hstranded ⟨hsize, hfull, hm⟩
    rw [addLoop_grow hseek hm hfull, hrehash, Option.bind_some]
    exact hadd hmany

include htrimmed in
theorem Ok.add_stranded (h : t.Ok hashOf) {hash : BitVec 32} (hhash : trimHash hash = hashOf e)
    (hgrow : InRange (t.mCapacity * 2) t.mLoadFactor) (hstranded : t.Stranded (hashOf e)) :
    t.add hash e = none := by
  obtain ⟨hsize, hfull, hm⟩ := hstranded
  have hseek := h.seek_first hsize (hashOf e)
  obtain ⟨buckets', i, hseek', hseeks⟩ := h.seeks (hashOf e)
  obtain ⟨rfl, rfl⟩ := Prod.mk.inj (Option.some.inj (hseek.symm.trans hseek'))
  obtain ⟨count, capacity, hcapacity, hfits⟩ := hgrow.sizes
  obtain ⟨t', hrehash, hnone, -⟩ := h.growAndAdd htrimmed hseeks hcapacity hfits 0
  rw [Table.add, hhash, addLoop_grow hseek hm hfull, hrehash, Option.bind_some]
  exact hnone hsize

end Table

end

end Cdroid.Utils.BasicHashtable
