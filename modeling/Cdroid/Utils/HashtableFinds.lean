import Cdroid.Utils.HashtableSteps

/-! What `find` and `next` return, called again and again with the index that they have returned. -/

namespace Cdroid.Utils.BasicHashtable
open Cdroid.Lib

variable {Key Entry : Type} {getKey : Entry → Key} {hashCode : Key → BitVec 32}
  {t : Table Entry}

/-- The hash of an entry is that of its key, trimmed. -/
def hashOf (getKey : Entry → Key) (hashCode : Key → BitVec 32) (e : Entry) : BitVec 32 :=
  trimHash (hashCode (getKey e))

theorem hashOf_trimmed (e : Entry) : Trimmed (hashOf getKey hashCode e) := trimHash_trimmed _

namespace Table

/-- An entry with the key is at the index. -/
def Matches (getKey : Entry → Key) (t : Table Entry) (key : Key) (i : Nat) : Prop :=
  ∃ e, t.entryAt i = some e ∧ getKey e = key

/-- What `find` returns is the first match among the buckets of the chain from the `m`-th on. -/
def FirstFrom (getKey : Entry → Key) (t : Table Entry) (key : Key) (hash : BitVec 32) (m : Nat) :
    Option Nat → Prop
  | none => ∀ k < t.mBucketCount, m ≤ k → ¬ t.Matches getKey key (chain t.mBucketCount hash k)
  | some i => ∃ k < t.mBucketCount, m ≤ k ∧ chain t.mBucketCount hash k = i ∧
      t.Matches getKey key i ∧
      ∀ l < k, m ≤ l → ¬ t.Matches getKey key (chain t.mBucketCount hash l)

/-- A bucket that does not match is gone past. -/
theorem FirstFrom.skip {key : Key} {hash : BitVec 32} {m : Nat} {r : Option Nat}
    (h : t.FirstFrom getKey key hash (m + 1) r)
    (hno : ¬ t.Matches getKey key (chain t.mBucketCount hash m)) :
    t.FirstFrom getKey key hash m r := by
  cases r with
  | none =>
    intro k hk hle
    rcases Nat.lt_or_eq_of_le hle with hle | rfl
    · exact h k hk hle
    · exact hno
  | some i =>
    obtain ⟨k, hk, hle, hi, hmatch, hbefore⟩ := h
    refine ⟨k, hk, by omega, hi, hmatch, fun l hl hle => ?_⟩
    rcases Nat.lt_or_eq_of_le hle with hle | rfl
    · exact hbefore l hl hle
    · exact hno

theorem entryAt_eq_some {i : Nat} {e : Entry} :
    t.entryAt i = some e ↔ (t.bucketAt i).isPresent = true ∧ (t.bucketAt i).entry = some e := by
  rw [entryAt]
  split <;> simp_all

theorem Sound.no_match {hashOf : Entry → BitVec 32} {key : Key} {i : Nat} (h : t.Sound hashOf)
    (hsize : t.mSize = 0) (hi : i < t.mBucketCount) : ¬ t.Matches getKey key i := by
  rintro ⟨e, he, -⟩
  exact Bool.false_ne_true ((h.absent hsize hi).symm.trans (entryAt_eq_some.mp he).1)

section
variable {key : Key} {i : Nat} (h : t.Ok (hashOf getKey hashCode))
include h

theorem Ok.behind (hi : i < t.mBucketCount) (hmatch : t.Matches getKey key i) :
    ∃ k < t.mBucketCount, chain t.mBucketCount (trimHash (hashCode key)) k = i ∧
      ∀ j < k,
        (t.bucketAt (chain t.mBucketCount (trimHash (hashCode key)) j)).isCollision = true := by
  obtain ⟨e, he, hkey⟩ := hmatch
  obtain ⟨hp, he⟩ := entryAt_eq_some.mp he
  obtain ⟨e', he', hhash⟩ := h.chained.entry i hi hp
  obtain rfl : e = e' := Option.some.inj (he.symm.trans he')
  have hbehind := h.chained.behind i hi hp
  rwa [hhash, hashOf, hkey] at hbehind

/-- Behind a bucket without a mark there is no match. -/
theorem Ok.no_match_behind {k l : Nat} (hk : k < l) (hl : l < t.mBucketCount)
    (hmark : (t.bucketAt (chain t.mBucketCount (trimHash (hashCode key)) k)).isCollision = false) :
    ¬ t.Matches getKey key (chain t.mBucketCount (trimHash (hashCode key)) l) := by
  intro hmatch
  obtain ⟨l', hl', heq, hmarks⟩ := h.behind (chain_lt h.prime.pos _ l) hmatch
  obtain rfl := chain_inj h.prime _ hl' hl heq
  exact Bool.false_ne_true (hmark.symm.trans (hmarks k hk))

/-- The bucket that ends the loop is behind every match. -/
theorem Ok.exists_end (key : Key) : ∃ u < t.mBucketCount,
    (t.bucketAt (chain t.mBucketCount (trimHash (hashCode key)) u)).isPresent = false ∧
    (t.bucketAt (chain t.mBucketCount (trimHash (hashCode key)) u)).isCollision = false ∧
    ∀ k < t.mBucketCount, t.Matches getKey key (chain t.mBucketCount (trimHash (hashCode key)) k) →
      k < u := by
  obtain ⟨i, hi, hfree, hmark⟩ := h.exists_unused
  obtain ⟨u, hu, rfl⟩ := Probing.exists_probe
    (chainStart (trimHash (hashCode key)) t.mBucketCount)
    (chain_coprime h.prime (trimHash (hashCode key))) hi
  refine ⟨u, hu, hfree, hmark, fun k hk hmatch => ?_⟩
  rcases Nat.lt_trichotomy k u with hlt | rfl | hgt
  · exact hlt
  · obtain ⟨e, he, -⟩ := hmatch
    exact absurd (hfree.symm.trans (entryAt_eq_some.mp he).1) Bool.false_ne_true
  · exact absurd hmatch (h.no_match_behind hgt hk hmark)

variable [DecidableEq Key]

/-- What the loop of `find` asks of a bucket. -/
theorem Ok.asks (key : Key) (hi : i < t.mBucketCount) :
    ((t.bucketAt i).isPresent && (t.bucketAt i).hash == trimHash (hashCode key) &&
      compareBucketKey getKey (t.bucketAt i) key) = true ↔ t.Matches getKey key i := by
  simp only [Bool.and_eq_true, beq_iff_eq, compareBucketKey, Option.any_eq_true, Matches,
    entryAt_eq_some]
  constructor
  · rintro ⟨⟨hp, -⟩, e, he, hkey⟩
    exact ⟨e, ⟨hp, he⟩, hkey⟩
  · rintro ⟨e, ⟨hp, he⟩, hkey⟩
    obtain ⟨e', he', hhash⟩ := h.chained.entry i hi hp
    obtain rfl : e = e' := Option.some.inj (he.symm.trans he')
    exact ⟨⟨hp, by rw [hhash, hashOf, hkey]⟩, e, he, hkey⟩

theorem Ok.findLoop {u : Nat} (hu : u < t.mBucketCount)
    (hunused : (t.bucketAt (chain t.mBucketCount (trimHash (hashCode key)) u)).isCollision = false)
    (fuel m : Nat) (hm : m < u) (hfuel : u - m ≤ fuel) :
    ∃ r, t.findLoop getKey key (trimHash (hashCode key))
        (chainIncrement (trimHash (hashCode key)) t.mBucketCount) fuel
        (chain t.mBucketCount (trimHash (hashCode key)) m) = some r ∧
      t.FirstFrom getKey key (trimHash (hashCode key)) (m + 1) r := by
  induction fuel generalizing m with
  | zero => omega
  | succ fuel ih =>
    have hlt : m + 1 < t.mBucketCount := by omega
    have hasks := h.asks key
      (chain_lt h.prime.pos (trimHash (hashCode key)) (m + 1) : _ < t.mBucketCount)
    rw [Table.findLoop, ← chain_succ]
    generalize hi : chain t.mBucketCount (trimHash (hashCode key)) (m + 1) = i at hasks
    by_cases hmatch : t.Matches getKey key i
    · rw [if_pos (hasks.mpr hmatch)]
      exact ⟨some i, rfl, m + 1, hlt, le_rfl, hi, hmatch, fun l hl hle => by omega⟩
    · rw [if_neg (fun hyes => hmatch (hasks.mp hyes))]
      by_cases hmark : (t.bucketAt i).isCollision = true
      · rw [hmark, Bool.not_true, if_neg Bool.false_ne_true]
        have hne : m + 1 ≠ u := by
          rintro rfl
          rw [hi, hmark] at hunused
          cases hunused
        obtain ⟨r, hr, hfirst⟩ := ih (m + 1) (by omega) (by omega)
        rw [hi] at hr
        exact ⟨r, hr, hfirst.skip (hi ▸ hmatch)⟩
      · rw [Bool.not_eq_true] at hmark
        rw [hmark, Bool.not_false, if_pos rfl]
        refine ⟨none, rfl, fun k hk hle => ?_⟩
        rcases Nat.lt_or_eq_of_le hle with hle | rfl
        · exact h.no_match_behind hle hk (hi ▸ hmark)
        · rwa [hi]

/-- **`find`** from the start returns the first match of the chain. -/
theorem Ok.find_first (key : Key) : ∃ r, t.find getKey none (hashCode key) key = some r ∧
    t.FirstFrom getKey key (trimHash (hashCode key)) 0 r := by
  by_cases hsize : t.mSize = 0
  · refine ⟨none, by rw [Table.find, if_pos hsize], fun k _ _ => ?_⟩
    exact h.no_match hsize (chain_lt h.prime.pos _ k)
  · have hpos := h.prime.pos
    have hzero : chainStart (trimHash (hashCode key)) t.mBucketCount =
        chain t.mBucketCount (trimHash (hashCode key)) 0 := (chain_zero hpos _).symm
    obtain ⟨u, hu, hfree, hmark, hend⟩ := h.exists_end key
    have hloop := h.findLoop hu hmark t.mBucketCount 0
    rw [Table.find, if_neg hsize]
    simp only [hzero]
    generalize hi : chain t.mBucketCount (trimHash (hashCode key)) 0 = i at hloop ⊢
    by_cases hmatch : t.Matches getKey key i
    · obtain ⟨e, he, hkey⟩ := hmatch
      obtain ⟨hp, he'⟩ := entryAt_eq_some.mp he
      have hcompare : compareBucketKey getKey (t.bucketAt i) key = true := by
        rw [compareBucketKey, he', Option.any_some, hkey]
        exact beq_self_eq_true key
      rw [if_pos hp, if_pos hcompare]
      exact ⟨some i, rfl, 0, hpos, le_rfl, hi, ⟨e, he, hkey⟩,
        fun l hl => absurd hl (Nat.not_lt_zero l)⟩
    · have hgo : u ≠ 0 → ∃ r, t.findLoop getKey key (trimHash (hashCode key))
          (chainIncrement (trimHash (hashCode key)) t.mBucketCount) t.mBucketCount i = some r ∧
          t.FirstFrom getKey key (trimHash (hashCode key)) 0 r := fun hne => by
        obtain ⟨r, hr, hfirst⟩ := hloop (Nat.pos_of_ne_zero hne) (by omega)
        exact ⟨r, hr, hfirst.skip (hi ▸ hmatch)⟩
      by_cases hp : (t.bucketAt i).isPresent = true
      · have hother : ¬ compareBucketKey getKey (t.bucketAt i) key = true := by
          intro hsame
          obtain ⟨e, he, hkey⟩ := (Option.any_eq_true _ _).mp hsame
          exact hmatch ⟨e, entryAt_eq_some.mpr ⟨hp, he⟩, by simpa using hkey⟩
        rw [if_pos hp, if_neg hother]
        refine hgo ?_
        rintro rfl
        rw [hi] at hfree
        exact Bool.false_ne_true (hfree.symm.trans hp)
      · rw [if_neg hp]
        by_cases hm : (t.bucketAt i).isCollision = true
        · rw [hm, Bool.not_true, if_neg Bool.false_ne_true]
          refine hgo ?_
          rintro rfl
          rw [hi] at hmark
          exact Bool.false_ne_true (hmark.symm.trans hm)
        · rw [Bool.not_eq_true] at hm
          rw [hm, Bool.not_false, if_pos rfl]
          refine ⟨none, rfl, fun k hk hle => ?_⟩
          rcases Nat.eq_zero_or_pos k with rfl | hk'
          · rwa [hi]
          · exact h.no_match_behind hk' hk (hi ▸ hm)

/-- **`find`** from a match returns the next match of the chain. -/
theorem Ok.find_next {m : Nat} (hm : m < t.mBucketCount)
    (hmatch : t.Matches getKey key (chain t.mBucketCount (trimHash (hashCode key)) m)) :
    ∃ r, t.find getKey (some (chain t.mBucketCount (trimHash (hashCode key)) m)) (hashCode key)
        key = some r ∧ t.FirstFrom getKey key (trimHash (hashCode key)) (m + 1) r := by
  have hsize : t.mSize ≠ 0 := fun hsize => h.no_match hsize (chain_lt h.prime.pos _ m) hmatch
  obtain ⟨u, hu, -, hmark, hend⟩ := h.exists_end key
  rw [Table.find, if_neg hsize]
  exact h.findLoop hu hmark t.mBucketCount m (hend m hm hmatch) (by omega)

end

/-! ## Every match, and every entry -/

/-- The indices that `find` returns, each from the one before, until it returns -1. -/
def findAll [DecidableEq Key] (getKey : Entry → Key) (t : Table Entry) (hash : BitVec 32)
    (key : Key) : Nat → Option Nat → Option (List Nat)
  | 0, _ => none
  | fuel + 1, index =>
    (t.find getKey index hash key).bind fun
      | none => some []
      | some i => (findAll getKey t hash key fuel (some i)).map (i :: ·)

/-- The indices that `next` returns, each from the one before, until it returns -1. -/
def nextAll (t : Table Entry) : Nat → Option Nat → Option (List Nat)
  | 0, _ => none
  | fuel + 1, index =>
    match t.next index with
    | none => some []
    | some i => (nextAll t fuel (some i)).map (i :: ·)

section
variable {key : Key} (h : t.Ok (hashOf getKey hashCode))
include h

theorem Ok.findAll_from [DecidableEq Key] (fuel m : Nat) (r index : Option Nat)
    (hfuel : t.mBucketCount - m < fuel) (hfind : t.find getKey index (hashCode key) key = some r)
    (hfirst : t.FirstFrom getKey key (trimHash (hashCode key)) m r) :
    ∃ l, findAll getKey t (hashCode key) key fuel index = some l ∧ l.Nodup ∧ ∀ i, i ∈ l ↔
      ∃ k < t.mBucketCount, m ≤ k ∧ chain t.mBucketCount (trimHash (hashCode key)) k = i ∧
        t.Matches getKey key i := by
  induction fuel generalizing m r index with
  | zero => omega
  | succ fuel ih =>
    rw [findAll, hfind, Option.bind_some]
    cases r with
    | none =>
      refine ⟨[], rfl, List.nodup_nil, fun i => ?_⟩
      simp only [List.not_mem_nil, false_iff]
      rintro ⟨k, hk, hle, rfl, hmatch⟩
      exact hfirst k hk hle hmatch
    | some i =>
      obtain ⟨k, hk, hle, rfl, hmatch, hbefore⟩ := hfirst
      obtain ⟨r, hr, hfirst⟩ := h.find_next hk hmatch
      obtain ⟨l, hl, hnodup, hmem⟩ := ih (k + 1) r _ (by omega) hr hfirst
      refine ⟨chain t.mBucketCount (trimHash (hashCode key)) k :: l,
        by simp only [hl, Option.map_some], List.nodup_cons.mpr ⟨fun hin => ?_, hnodup⟩,
        fun j => ?_⟩
      · obtain ⟨k', hk', hle', heq, -⟩ := (hmem _).mp hin
        obtain rfl := chain_inj h.prime _ hk' hk heq
        omega
      · rw [List.mem_cons, hmem]
        constructor
        · rintro (rfl | ⟨k', hk', hle', hj⟩)
          · exact ⟨k, hk, hle, rfl, hmatch⟩
          · exact ⟨k', hk', by omega, hj⟩
        · rintro ⟨k', hk', hle', rfl, hmatch'⟩
          rcases Nat.lt_trichotomy k' k with hlt | rfl | hgt
          · exact absurd hmatch' (hbefore k' hlt hle')
          · exact Or.inl rfl
          · exact Or.inr ⟨k', hk', hgt, rfl, hmatch'⟩

/-- **Every entry with the key is found, and none is found twice.** -/
theorem Ok.findAll [DecidableEq Key] :
    ∃ l, findAll getKey t (hashCode key) key (t.mBucketCount + 1) none = some l ∧ l.Nodup ∧
      ∀ i, i ∈ l ↔ i < t.mBucketCount ∧ t.Matches getKey key i := by
  obtain ⟨r, hr, hfirst⟩ := h.find_first key
  obtain ⟨l, hl, hnodup, hmem⟩ := h.findAll_from _ 0 r none (Nat.lt_succ_self _) hr hfirst
  refine ⟨l, hl, hnodup, fun i => (hmem i).trans ⟨?_, fun ⟨hi, hmatch⟩ => ?_⟩⟩
  · rintro ⟨k, -, -, rfl, hmatch⟩
    exact ⟨chain_lt h.prime.pos _ k, hmatch⟩
  · obtain ⟨k, hk, hchain, -⟩ := h.behind hi hmatch
    exact ⟨k, hk, Nat.zero_le k, hchain, hmatch⟩

end

/-- What is found first is followed by what is found behind it. -/
theorem filter_of_find {p : Nat → Bool} {n a i : Nat}
    (hfind : (List.range' a n).find? p = some i) :
    (List.range' a n).filter p = i :: (List.range' (i + 1) (a + n - (i + 1))).filter p := by
  induction n generalizing a with
  | zero => cases hfind
  | succ n ih =>
    rw [List.range'_succ, List.find?_cons] at hfind
    rw [List.range'_succ, List.filter_cons]
    by_cases hp : p a = true
    · rw [hp] at hfind
      obtain rfl : a = i := Option.some.inj hfind
      have hn : a + (n + 1) - (a + 1) = n := by omega
      rw [if_pos hp, hn]
    · rw [Bool.not_eq_true] at hp
      rw [hp] at hfind
      have hn : a + 1 + n = a + (n + 1) := by omega
      rw [hp, if_neg Bool.false_ne_true, ih hfind, hn]

theorem nextAll_from (hsize : t.mSize ≠ 0) (fuel : Nat) (index : Option Nat)
    (hfuel : t.mBucketCount - index.elim 0 (· + 1) < fuel) :
    nextAll t fuel index = some ((List.range' (index.elim 0 (· + 1))
      (t.mBucketCount - index.elim 0 (· + 1))).filter fun i => (t.bucketAt i).isPresent) := by
  induction fuel generalizing index with
  | zero => omega
  | succ fuel ih =>
    rw [nextAll, Table.next, if_neg hsize]
    cases hfind : (List.range' (index.elim 0 (· + 1))
        (t.mBucketCount - index.elim 0 (· + 1))).find? fun i => (t.bucketAt i).isPresent with
    | none =>
      have hnone := List.find?_eq_none.mp hfind
      simp only [List.filter_eq_nil_iff.mpr hnone]
    | some i =>
      have hi := List.mem_range'_1.mp (List.mem_of_find?_eq_some hfind)
      have hrest : index.elim 0 (· + 1) + (t.mBucketCount - index.elim 0 (· + 1)) =
        t.mBucketCount := by omega
      have hnext := ih (some i) (by simp only [Option.elim_some]; omega)
      rw [filter_of_find hfind, hrest]
      simp only [hnext, Option.elim_some, Option.map_some]

theorem contents_eq (n : Nat) (buckets : Nat → Bucket Entry)
    (hentry : ∀ i < n, (buckets i).isPresent = true → ∃ e, (buckets i).entry = some e) :
    BasicHashtable.contents n buckets =
      (((List.range n).filter fun i => (buckets i).isPresent).filterMap fun i =>
        (buckets i).entry : List Entry) := by
  induction n with
  | zero => rfl
  | succ n ih =>
    rw [contents_succ, ih fun i hi => hentry i (by omega), List.range_succ, List.filter_append,
      List.filterMap_append, ← Multiset.coe_add, List.filter_singleton]
    by_cases hp : (buckets n).isPresent = true
    · obtain ⟨e, he⟩ := hentry n (Nat.lt_succ_self n) hp
      simp [Bucket.held, hp, he]
    · simp [Bucket.held, hp]

theorem Sound.entries {hashOf : Entry → BitVec 32} (h : t.Sound hashOf) :
    ((((List.range t.mBucketCount).filter fun i => (t.bucketAt i).isPresent).filterMap
      t.entryAt : List Entry) : Multiset Entry) = t.contents := by
  rw [contents, contents_eq _ _ fun i hi hp => (h.chained.entry i hi hp).imp fun _ he => he.1]
  refine congrArg _ (List.filterMap_congr fun i hi => ?_)
  rw [entryAt, if_pos (List.mem_filter.mp hi).2]

/-- **Every entry is gone through once**, in the order of the buckets. -/
theorem Sound.nextAll {hashOf : Entry → BitVec 32} (h : t.Sound hashOf) :
    ∃ l, nextAll t (t.mBucketCount + 1) none = some l ∧ l.Pairwise (· < ·) ∧
      ((l.filterMap t.entryAt : List Entry) : Multiset Entry) = t.contents := by
  refine ⟨(List.range t.mBucketCount).filter fun i => (t.bucketAt i).isPresent, ?_,
    List.pairwise_lt_range.filter _, h.entries⟩
  by_cases hsize : t.mSize = 0
  · have hnone : ∀ i ∈ List.range t.mBucketCount, ¬ (t.bucketAt i).isPresent = true := by
      intro i hi
      rw [h.absent hsize (List.mem_range.mp hi)]
      exact Bool.false_ne_true
    rw [Table.nextAll, Table.next, if_pos hsize, List.filter_eq_nil_iff.mpr hnone]
  · rw [nextAll_from hsize _ none (Nat.lt_succ_of_le (Nat.sub_le _ _)), List.range_eq_range']
    rfl

end Table

end Cdroid.Utils.BasicHashtable
