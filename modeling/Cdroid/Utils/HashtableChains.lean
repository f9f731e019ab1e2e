import Cdroid.Lib.Probing
import Cdroid.Lib.Tally
import Cdroid.Utils.BasicHashtable

/-! The chains of a `BasicHashtable`: every bucket that an entry has gone past has a mark, so that
whoever looks for the entry goes past it too. -/

namespace Cdroid.Utils.BasicHashtable
open Cdroid.Lib Cdroid.Lib.Tally

/-! ## Cookies -/

theorem present_bit {c : BitVec 32} : (c &&& PRESENT != 0#32) = c.getLsbD 30 := by
  have htwo : PRESENT = BitVec.twoPow 32 30 := by decide
  rw [htwo, BitVec.and_twoPow]
  cases c.getLsbD 30 <;> decide

theorem collision_bit {c : BitVec 32} : (c &&& COLLISION != 0#32) = c.getLsbD 31 := by
  have htwo : COLLISION = BitVec.twoPow 32 31 := by decide
  rw [htwo, BitVec.and_twoPow]
  cases c.getLsbD 31 <;> decide

/-- A hash of 30 bits. -/
def Trimmed (hash : BitVec 32) : Prop := hash &&& HASH_MASK = hash

theorem hash_mask_bit : ∀ i < 32, HASH_MASK.getLsbD i = decide (i < 30) := by decide

theorem trimHash_trimmed (hash : BitVec 32) : Trimmed (trimHash hash) := by
  refine BitVec.eq_of_getLsbD_eq fun i hi => ?_
  have hbit := hash_mask_bit i hi
  have hout : ¬ i < 30 → hash.getLsbD (30 + i) = false := fun h =>
    BitVec.getLsbD_of_ge _ _ (by omega)
  by_cases h : i < 30 <;> simp [trimHash, hbit, h, hout]

namespace Bucket
variable {Entry : Type} (b : Bucket Entry)

@[simp] theorem isPresent_collide : b.collide.isPresent = b.isPresent := by
  have hbit : COLLISION.getLsbD 30 = false := by decide
  simp only [isPresent, collide, present_bit, BitVec.getLsbD_or, hbit, Bool.or_false]

@[simp] theorem isCollision_collide : b.collide.isCollision = true := by
  have hbit : COLLISION.getLsbD 31 = true := by decide
  simp only [isCollision, collide, collision_bit, BitVec.getLsbD_or, hbit, Bool.or_true]

@[simp] theorem hash_collide : b.collide.hash = b.hash := by
  have hnone : COLLISION &&& HASH_MASK = 0#32 := by decide
  simp only [hash, collide, BitVec.and_or_distrib_right, hnone, BitVec.or_zero]

@[simp] theorem entry_collide : b.collide.entry = b.entry := rfl

end Bucket

variable {Entry : Type}

@[simp] theorem empty_isPresent : (⟨0#32, none⟩ : Bucket Entry).isPresent = false := by
  simp [Bucket.isPresent]

@[simp] theorem empty_isCollision : (⟨0#32, none⟩ : Bucket Entry).isCollision = false := by
  simp [Bucket.isCollision]

/-- The cookie of a bucket that an entry is put into. -/
theorem filled_cookie (c : BitVec 32) {hash : BitVec 32} (h : Trimmed hash) (entry : Option Entry) :
    let b : Bucket Entry := ⟨c &&& COLLISION ||| PRESENT ||| hash, entry⟩
    b.isPresent = true ∧ b.isCollision = (c &&& COLLISION != 0#32) ∧ b.hash = hash := by
  have hcollision : COLLISION.getLsbD 30 = false ∧ COLLISION.getLsbD 31 = true := by decide
  have hpresent : PRESENT.getLsbD 30 = true ∧ PRESENT.getLsbD 31 = false := by decide
  have hmask : COLLISION &&& HASH_MASK = 0#32 ∧ PRESENT &&& HASH_MASK = 0#32 := by decide
  have hhigh : hash.getLsbD 31 = false := by
    rw [← h, BitVec.getLsbD_and, hash_mask_bit 31 (by decide)]
    simp
  refine ⟨?_, ?_, ?_⟩
  · simp only [Bucket.isPresent, present_bit, BitVec.getLsbD_or, BitVec.getLsbD_and, hcollision,
      hpresent, Bool.and_false, Bool.or_true, Bool.true_or]
  · simp only [Bucket.isCollision, collision_bit, BitVec.getLsbD_or, BitVec.getLsbD_and, hcollision,
      hpresent, hhigh, Bool.and_true, Bool.or_false]
  · simp only [Bucket.hash, BitVec.and_or_distrib_right, BitVec.and_assoc, hmask, BitVec.and_zero,
      BitVec.zero_or]
    exact h

/-- The cookie of a bucket that an entry has been taken out of. -/
theorem removed_cookie (c : BitVec 32) (entry : Option Entry) :
    let b : Bucket Entry := ⟨c &&& ~~~PRESENT, entry⟩
    b.isPresent = false ∧ b.isCollision = (c &&& COLLISION != 0#32) := by
  have hpresent : (~~~PRESENT).getLsbD 30 = false := by decide
  have hcollision : (~~~PRESENT).getLsbD 31 = true := by decide
  simp only [Bucket.isPresent, Bucket.isCollision, present_bit, collision_bit, BitVec.getLsbD_and,
    hpresent, hcollision, Bool.and_false, Bool.and_true, and_self]

/-! ## The loop that goes past the buckets that are present -/

/-- The `k`-th bucket that is looked at for a hash. -/
def chain (count : Nat) (hash : BitVec 32) (k : Nat) : Nat :=
  Probing.probe count (chainStart hash count) (chainIncrement hash count) k

theorem chain_lt {count : Nat} (hpos : 0 < count) (hash : BitVec 32) (k : Nat) :
    chain count hash k < count :=
  Probing.probe_lt hpos k

theorem chain_zero {count : Nat} (hpos : 0 < count) (hash : BitVec 32) :
    chain count hash 0 = chainStart hash count :=
  Probing.probe_zero (Nat.mod_lt _ hpos)

theorem chain_succ (count : Nat) (hash : BitVec 32) (k : Nat) :
    chain count hash (k + 1) = chainSeek (chain count hash k) (chainIncrement hash count) count :=
  Probing.probe_succ k

theorem chain_coprime {count : Nat} (hprime : count.Prime) (hash : BitVec 32) :
    Nat.Coprime count (chainIncrement hash count) := by
  have hbelow : chainIncrement hash count < count := by
    have htwo := hprime.two_le
    have hmod := Nat.mod_lt ((hash >>> 7) ||| (hash <<< 25)).toNat (y := count - 1) (by omega)
    unfold chainIncrement
    omega
  exact Nat.coprime_of_lt_prime (Nat.succ_ne_zero _) hbelow hprime

theorem chain_inj {count : Nat} (hprime : count.Prime) (hash : BitVec 32) {k l : Nat}
    (hk : k < count) (hl : l < count) (h : chain count hash k = chain count hash l) : k = l :=
  Probing.probe_eq (chain_coprime hprime hash) hk hl h

/-- The buckets after a loop that has gone past the first `k`. -/
def passed (count : Nat) (hash : BitVec 32) (buckets : Nat → Bucket Entry) :
    Nat → (Nat → Bucket Entry)
  | 0 => buckets
  | k + 1 => Function.update (passed count hash buckets k) (chain count hash k)
      (passed count hash buckets k (chain count hash k)).collide

section
variable {count : Nat} {hash : BitVec 32} {buckets : Nat → Bucket Entry}

/-- Nothing but marks has changed. -/
theorem passed_same (k i : Nat) :
    (passed count hash buckets k i).isPresent = (buckets i).isPresent ∧
    (passed count hash buckets k i).hash = (buckets i).hash ∧
    (passed count hash buckets k i).entry = (buckets i).entry := by
  induction k with
  | zero => simp [passed]
  | succ k ih =>
    by_cases h : i = chain count hash k
    · simpa [passed, h] using h ▸ ih
    · simpa [passed, h] using ih

theorem passed_isCollision (k i : Nat) :
    (passed count hash buckets k i).isCollision = true ↔
      (buckets i).isCollision = true ∨ ∃ j < k, chain count hash j = i := by
  induction k with
  | zero => simp [passed]
  | succ k ih =>
    by_cases h : i = chain count hash k
    · subst h
      simp only [passed, Function.update_self, Bucket.isCollision_collide, true_iff]
      exact Or.inr ⟨k, Nat.lt_succ_self k, rfl⟩
    · simp only [passed, Function.update_of_ne h, ih, Nat.lt_succ_iff_lt_or_eq]
      refine or_congr_right ⟨fun ⟨j, hj, hi⟩ => ⟨j, Or.inl hj, hi⟩, ?_⟩
      rintro ⟨j, hj | rfl, hi⟩
      · exact ⟨j, hj, hi⟩
      · exact absurd hi.symm h

theorem seekFree_passed {k : Nat} (hpresent : ∀ j < k, (buckets (chain count hash j)).isPresent)
    (hfree : (buckets (chain count hash k)).isPresent = false) (fuel m : Nat) (hm : m ≤ k)
    (hfuel : k - m < fuel) :
    seekFree (chainIncrement hash count) count fuel (passed count hash buckets m)
      (chain count hash m) = some (passed count hash buckets k, chain count hash k) := by
  induction fuel generalizing m with
  | zero => omega
  | succ fuel ih =>
    by_cases h : m = k
    · subst h
      simp [seekFree, (passed_same m _).1, hfree]
    · have hgo := ih (m + 1) (by omega) (by omega)
      rw [chain_succ] at hgo
      have hpass : (passed count hash buckets m (chain count hash m)).isPresent := by
        rw [(passed_same m _).1]
        exact hpresent m (by omega)
      rw [seekFree, if_pos hpass]
      exact hgo

/-- **The loop ends**, at the first bucket of the chain that is not present. -/
theorem seek_eq (hprime : count.Prime) (hash : BitVec 32) {i : Nat} (hi : i < count)
    (hfree : (buckets i).isPresent = false) :
    ∃ k < count, (∀ j < k, (buckets (chain count hash j)).isPresent) ∧
      (buckets (chain count hash k)).isPresent = false ∧
      seek count hash buckets = some (passed count hash buckets k, chain count hash k) := by
  obtain ⟨k, hk, hgood, hpresent⟩ := Probing.first_probe (chainStart hash count)
    (chain_coprime hprime hash) (fun i => !(buckets i).isPresent) hi (by simp [hfree])
  simp only [Bool.not_eq_true', Bool.not_eq_false'] at hgood hpresent
  have hend := seekFree_passed hpresent hgood count 0 (Nat.zero_le k) (by omega)
  rw [chain_zero hprime.pos] at hend
  exact ⟨k, hk, hpresent, hgood, hend⟩

end

/-! ## What the buckets hold -/

namespace Bucket
variable (b : Bucket Entry)

def held : Multiset Entry := if b.isPresent then b.entry.elim 0 fun e => {e} else 0

/-- The bucket is one of the `mFilledBuckets`. -/
def used : Nat := if b.isPresent || b.isCollision then 1 else 0

end Bucket

def contents (count : Nat) (buckets : Nat → Bucket Entry) : Multiset Entry :=
  ∑ i ∈ Finset.range count, (buckets i).held

def filled (count : Nat) (buckets : Nat → Bucket Entry) : Nat :=
  ∑ i ∈ Finset.range count, (buckets i).used

/-- **The chains.** An entry is in the chain of its hash, behind buckets that have all been
marked. -/
structure Chained (hashOf : Entry → BitVec 32) (count : Nat) (buckets : Nat → Bucket Entry) :
    Prop where
  entry : ∀ i < count, (buckets i).isPresent = true →
    ∃ e, (buckets i).entry = some e ∧ (buckets i).hash = hashOf e
  behind : ∀ i < count, (buckets i).isPresent = true →
    ∃ k < count, chain count (buckets i).hash k = i ∧
      ∀ j < k, (buckets (chain count (buckets i).hash j)).isCollision = true

section
variable {hashOf : Entry → BitVec 32} {count : Nat} {hash : BitVec 32}
  {buckets buckets' : Nat → Bucket Entry}

theorem Chained.empty : Chained hashOf count (allocateBuckets : Nat → Bucket Entry) where
  entry i _ h := by simp [allocateBuckets] at h
  behind i _ h := by simp [allocateBuckets] at h

theorem contents_empty : contents count (allocateBuckets : Nat → Bucket Entry) = 0 := by
  simp [contents, allocateBuckets, Bucket.held]

theorem filled_empty : filled count (allocateBuckets : Nat → Bucket Entry) = 0 := by
  simp [filled, allocateBuckets, Bucket.used]

theorem mem_contents {e : Entry} :
    e ∈ contents count buckets ↔
      ∃ i < count, (buckets i).isPresent = true ∧ (buckets i).entry = some e := by
  simp only [contents, Multiset.mem_sum, Finset.mem_range]
  refine exists_congr fun i => and_congr_right fun _ => ?_
  cases hp : (buckets i).isPresent <;> cases he : (buckets i).entry <;>
    simp [Bucket.held, hp, he, eq_comm]

theorem contents_update (buckets : Nat → Bucket Entry) {i : Nat} (hi : i < count)
    (b : Bucket Entry) :
    contents count (Function.update buckets i b) + (buckets i).held =
      contents count buckets + b.held :=
  sum_update Bucket.held buckets (Finset.mem_range.mpr hi) b

theorem filled_update (buckets : Nat → Bucket Entry) {i : Nat} (hi : i < count)
    (b : Bucket Entry) :
    filled count (Function.update buckets i b) + (buckets i).used = filled count buckets + b.used :=
  sum_update Bucket.used buckets (Finset.mem_range.mpr hi) b

/-- Some bucket has never been used, as long as not all of them are filled. -/
theorem exists_unused (h : filled count buckets < count) :
    ∃ i < count, (buckets i).isPresent = false ∧ (buckets i).isCollision = false := by
  by_contra hall
  simp only [not_exists, not_and, Bool.not_eq_false] at hall
  have hone : ∀ i ∈ Finset.range count, (buckets i).used = 1 := fun i hi => by
    have hused := hall i (Finset.mem_range.mp hi)
    cases hp : (buckets i).isPresent <;> simp_all [Bucket.used]
  rw [filled, Finset.sum_congr rfl hone] at h
  simp at h

/-- As many entries as there are buckets that are present. -/
theorem card_contents (h : Chained hashOf count buckets) :
    (contents count buckets).card =
      ∑ i ∈ Finset.range count, if (buckets i).isPresent then 1 else 0 := by
  rw [contents, Multiset.card_sum]
  refine Finset.sum_congr rfl fun i hi => ?_
  by_cases hp : (buckets i).isPresent
  · obtain ⟨e, he, -⟩ := h.entry i (Finset.mem_range.mp hi) hp
    simp [Bucket.held, hp, he]
  · simp [Bucket.held, hp]

theorem card_le_filled (h : Chained hashOf count buckets) :
    (contents count buckets).card ≤ filled count buckets := by
  rw [card_contents h]
  refine Finset.sum_le_sum fun i _ => ?_
  cases hp : (buckets i).isPresent <;> simp [Bucket.used, hp]

/-! ### Marks -/

/-- Marks change neither what is held nor how much is filled, where they are on buckets that are
present. -/
theorem passed_held (k i : Nat) : (passed count hash buckets k i).held = (buckets i).held := by
  rw [Bucket.held, (passed_same k i).1, (passed_same k i).2.2]
  rfl

theorem contents_passed (k : Nat) :
    contents count (passed count hash buckets k) = contents count buckets :=
  Finset.sum_congr rfl fun i _ => passed_held k i

theorem filled_passed {k : Nat} (hpresent : ∀ j < k, (buckets (chain count hash j)).isPresent) :
    filled count (passed count hash buckets k) = filled count buckets := by
  refine Finset.sum_congr rfl fun i _ => ?_
  have hmark : (passed count hash buckets k i).isCollision = true ↔ _ := passed_isCollision k i
  by_cases h : ∃ j < k, chain count hash j = i
  · obtain ⟨j, hj, rfl⟩ := h
    simp [Bucket.used, (passed_same k _).1, hpresent j hj]
  · simp only [h, or_false] at hmark
    rw [Bucket.used, Bucket.used, (passed_same k _).1, Bool.eq_iff_iff.mpr hmark]

theorem Chained.passed (h : Chained hashOf count buckets) (k : Nat) :
    Chained hashOf count (passed count hash buckets k) where
  entry i hi hp := by
    obtain ⟨hpresent, hhash, hentry⟩ :
        (BasicHashtable.passed count hash buckets k i).isPresent = _ ∧ _ := passed_same k i
    rw [hhash, hentry]
    exact h.entry i hi (hpresent ▸ hp)
  behind i hi hp := by
    obtain ⟨hpresent, hhash, -⟩ :
        (BasicHashtable.passed count hash buckets k i).isPresent = _ ∧ _ := passed_same k i
    rw [hhash]
    obtain ⟨l, hl, hil, hmarked⟩ := h.behind i hi (hpresent ▸ hp)
    exact ⟨l, hl, hil, fun j hj => (passed_isCollision k _).mpr (Or.inl (hmarked j hj))⟩

/-! ### One bucket that changes -/

theorem Chained.update (h : Chained hashOf count buckets) {i : Nat} {new : Bucket Entry}
    (hmark : (buckets i).isCollision = true → new.isCollision = true)
    (hentry : new.isPresent = true → ∃ e, new.entry = some e ∧ new.hash = hashOf e)
    (hbehind : new.isPresent = true → ∃ k < count, chain count new.hash k = i ∧
      ∀ j < k, (buckets (chain count new.hash j)).isCollision = true) :
    Chained hashOf count (Function.update buckets i new) := by
  have hmarks : ∀ l, (buckets l).isCollision = true →
      (Function.update buckets i new l).isCollision = true := by
    intro l hl
    by_cases hli : l = i
    · subst hli
      simpa using hmark hl
    · simpa [hli] using hl
  constructor
  · intro l hl hp
    by_cases hli : l = i
    · subst hli
      simpa using hentry (by simpa using hp)
    · simpa [hli] using h.entry l hl (by simpa [hli] using hp)
  · intro l hl hp
    by_cases hli : l = i
    · subst hli
      rw [Function.update_self] at hp ⊢
      obtain ⟨k, hk, hi, hmarked⟩ := hbehind hp
      exact ⟨k, hk, hi, fun j hj => hmarks _ (hmarked j hj)⟩
    · rw [Function.update_of_ne hli] at hp ⊢
      obtain ⟨k, hk, hi, hmarked⟩ := h.behind l hl hp
      exact ⟨k, hk, hi, fun j hj => hmarks _ (hmarked j hj)⟩

/-- Where an entry with a hash is to be put, and the buckets when the loop has come there. -/
structure Seeks (hashOf : Entry → BitVec 32) (count : Nat) (hash : BitVec 32)
    (buckets buckets' : Nat → Bucket Entry) (i : Nat) : Prop where
  lt : i < count
  free : (buckets' i).isPresent = false
  chained : Chained hashOf count buckets'
  contents : contents count buckets' = contents count buckets
  filled : filled count buckets' = filled count buckets
  same : ∀ l, (buckets' l).isPresent = (buckets l).isPresent ∧
    (buckets' l).entry = (buckets l).entry
  marks : ∀ l, (buckets' l).isCollision = true →
    (buckets l).isCollision = true ∨ (buckets' l).isPresent = true
  behind : ∃ k < count, chain count hash k = i ∧
    ∀ j < k, (buckets' (chain count hash j)).isCollision = true

theorem Chained.seeks (h : Chained hashOf count buckets) (hprime : count.Prime) {i : Nat}
    (hi : i < count) (hfree : (buckets i).isPresent = false) (hash : BitVec 32) :
    ∃ buckets' i, seek count hash buckets = some (buckets', i) ∧
      Seeks hashOf count hash buckets buckets' i := by
  obtain ⟨k, hk, hpresent, hend, hseek⟩ := seek_eq hprime hash hi hfree
  refine ⟨_, _, hseek, ?_⟩
  constructor
  case lt => exact chain_lt hprime.pos hash k
  case free => exact (passed_same k _).1.trans hend
  case chained => exact h.passed k
  case contents => exact contents_passed k
  case filled => exact filled_passed hpresent
  case same => exact fun l => ⟨(passed_same k l).1, (passed_same k l).2.2⟩
  case marks =>
    intro l hl
    rcases (passed_isCollision k l).mp hl with hl | ⟨j, hj, rfl⟩
    · exact Or.inl hl
    · exact Or.inr ((passed_same k _).1.trans (hpresent j hj))
  case behind =>
    exact ⟨k, hk, rfl, fun j hj => (passed_isCollision k _).mpr (Or.inr ⟨j, hj, rfl⟩)⟩

/-- Among buckets that are all present the loop does not end. -/
theorem seekFree_none (hall : ∀ i < count, (buckets i).isPresent = true) (inc fuel : Nat)
    {index : Nat} (hindex : index < count) : seekFree inc count fuel buckets index = none := by
  induction fuel generalizing buckets index with
  | zero => rfl
  | succ fuel ih =>
    rw [seekFree, if_pos (hall index hindex)]
    refine ih (fun i hi => ?_) (Nat.mod_lt _ (Nat.zero_lt_of_lt hindex))
    by_cases h : i = index
    · simpa [h] using hall index hindex
    · simpa [h] using hall i hi

theorem Chained.seeks_of_some (h : Chained hashOf count buckets) (hprime : count.Prime) {i : Nat}
    (hseek : seek count hash buckets = some (buckets', i)) :
    Seeks hashOf count hash buckets buckets' i := by
  by_cases hall : ∀ j < count, (buckets j).isPresent = true
  · have hstart : chainStart hash count < count := Nat.mod_lt _ hprime.pos
    rw [seek, seekFree_none hall _ _ hstart] at hseek
    cases hseek
  · simp only [not_forall, Bool.not_eq_true] at hall
    obtain ⟨j, hj, hfree⟩ := hall
    obtain ⟨buckets'', i', hseek', hseeks⟩ := h.seeks hprime hj hfree hash
    cases hseek.symm.trans hseek'
    exact hseeks

/-- The first bucket of the chain is taken, if it is not present. -/
theorem seek_first (hpos : 0 < count)
    (hfree : (buckets (chainStart hash count)).isPresent = false) :
    seek count hash buckets = some (buckets, chainStart hash count) := by
  obtain ⟨n, rfl⟩ := Nat.exists_eq_succ_of_ne_zero hpos.ne'
  rw [seek, seekFree, if_neg (by rw [hfree]; exact Bool.false_ne_true)]

/-- The entry is put there. -/
theorem Seeks.put {i : Nat} (h : Seeks hashOf count hash buckets buckets' i) {e : Entry}
    {new : Bucket Entry} (hpresent : new.isPresent = true) (hnew : new.hash = hash)
    (hhash : hash = hashOf e) (hentry : new.entry = some e)
    (hmark : new.isCollision = (buckets' i).isCollision) :
    Chained hashOf count (Function.update buckets' i new) ∧
      BasicHashtable.contents count (Function.update buckets' i new) =
        e ::ₘ BasicHashtable.contents count buckets ∧
      BasicHashtable.filled count (Function.update buckets' i new) =
        BasicHashtable.filled count buckets + if (buckets' i).isCollision then 0 else 1 := by
  refine ⟨?_, ?_, ?_⟩
  · exact h.chained.update (fun hm => hmark.trans hm) (fun _ => ⟨e, hentry, hnew.trans hhash⟩)
      fun _ => hnew ▸ h.behind
  · have hupdate := contents_update buckets' h.lt new
    have hnone : (buckets' i).held = 0 := by simp [Bucket.held, h.free]
    have hone : new.held = {e} := by simp [Bucket.held, hpresent, hentry]
    rw [hnone, hone, add_zero, h.contents] at hupdate
    rw [hupdate, Multiset.add_comm, Multiset.singleton_add]
  · have hupdate := filled_update buckets' h.lt new
    have hone : new.used = 1 := by simp [Bucket.used, hpresent]
    rw [hone, h.filled] at hupdate
    cases hm : (buckets' i).isCollision <;> simp [Bucket.used, h.free, hm] at hupdate ⊢ <;> omega

end

end Cdroid.Utils.BasicHashtable
