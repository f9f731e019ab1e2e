import Cdroid.Utils.HashtableFinds
import Cdroid.Utils.LruCache

/-! What the operations of an `LruCache` do to the list of its entries. -/

namespace Cdroid.Utils
open Cdroid.Lib.Linked BasicHashtable

/-! ## The list of the entries -/

/-- What the cache is for: entries from the one that has been used the longest time ago to the one
that has been used last, at most `max` of them, and those that the listener has been told of. -/
structure Lru (Key Value : Type) where
  max : Nat
  entries : List (Key × Value)
  told : List (Key × Value)

namespace Lru
variable {Key Value : Type} [DecidableEq Key] (c : Lru Key Value)

def get (key : Key) : Lru Key Value × Option Value :=
  match c.entries.find? (·.1 = key) with
  | none => (c, none)
  | some e => ({ c with entries := c.entries.filter (·.1 ≠ key) ++ [e] }, some e.2)

def remove (key : Key) : Lru Key Value × Bool :=
  match c.entries.find? (·.1 = key) with
  | none => (c, false)
  | some e =>
    ({ c with entries := c.entries.filter (·.1 ≠ key), told := c.told ++ [e] }, true)

def removeOldest : Lru Key Value × Bool :=
  match c.entries with
  | [] => (c, false)
  | e :: rest => ({ c with entries := rest, told := c.told ++ [e] }, true)

def clear : Lru Key Value := { c with entries := [], told := c.told ++ c.entries }

/-- The oldest entry makes room, even for a key that the cache has. -/
def put (key : Key) (value : Value) : Lru Key Value × Bool :=
  let c := if c.max ≠ 0 ∧ c.max ≤ c.entries.length then c.removeOldest.1 else c
  if key ∈ c.entries.map Prod.fst then (c, false)
  else ({ c with entries := c.entries ++ [(key, value)] }, true)

end Lru

namespace LruCache
variable {Key Value : Type} {hash_type : Key → BitVec 32} {s : LruCache Key Value}
  {t : Table (Key × Value)} {l : List Nat}

@[simp] theorem attachToCache_mTable (i : Nat) : (s.attachToCache i).mTable = s.mTable := rfl

@[simp] theorem detachFromCache_mTable (i : Nat) : (s.detachFromCache i).mTable = s.mTable := rfl

/-- The entries at the indices. -/
def held (t : Table (Key × Value)) (l : List Nat) : List (Key × Value) := l.filterMap t.entryAt

/-- **The invariant.** The entries of the table are linked, at the indices `l`. -/
structure Repr (hash_type : Key → BitVec 32) (s : LruCache Key Value) (l : List Nat) : Prop where
  ok : s.mTable.Ok (hashOf Prod.fst hash_type)
  loadFactor : s.mTable.mLoadFactor = .default
  listed : Listed s.links l
  mem : ∀ i, i ∈ l ↔ i < s.mTable.mBucketCount ∧ ∃ e, s.mTable.entryAt i = some e
  keys : ((held s.mTable l).map Prod.fst).Nodup
  few : s.mMaxCapacity ≠ kUnlimitedCapacity → l.length ≤ s.mMaxCapacity

theorem held_append (l l' : List Nat) : held t (l ++ l') = held t l ++ held t l' :=
  List.filterMap_append

theorem held_cons {i : Nat} {e : Key × Value} (he : t.entryAt i = some e) (l : List Nat) :
    held t (i :: l) = e :: held t l := by
  rw [held, List.filterMap_cons, he]
  rfl

theorem Repr.length_held (h : Repr hash_type s l) : (held s.mTable l).length = l.length := by
  have hall : ∀ l' : List Nat, (∀ i ∈ l', i ∈ l) → (held s.mTable l').length = l'.length := by
    intro l'
    induction l' with
    | nil => exact fun _ => rfl
    | cons i l' ih =>
      intro hsub
      obtain ⟨e, he⟩ := ((h.mem i).mp (hsub i List.mem_cons_self)).2
      rw [held_cons he, List.length_cons, List.length_cons,
        ih fun j hj => hsub j (List.mem_cons_of_mem i hj)]
  exact hall l fun _ hi => hi

/-- The table holds nothing else. -/
theorem Repr.contents (h : Repr hash_type s l) :
    (held s.mTable l : Multiset (Key × Value)) = s.mTable.contents := by
  rw [← h.ok.entries]
  refine Multiset.coe_eq_coe.mpr (List.Perm.filterMap _ ?_)
  refine (List.perm_ext_iff_of_nodup h.listed.nodup (List.nodup_range.filter _)).mpr fun i => ?_
  rw [h.mem, List.mem_filter, List.mem_range]
  refine and_congr_right fun hi => ⟨fun ⟨e, he⟩ => (Table.entryAt_eq_some.mp he).1, fun hp => ?_⟩
  obtain ⟨e, he, -⟩ := h.ok.chained.entry i hi hp
  exact ⟨e, Table.entryAt_eq_some.mpr ⟨hp, he⟩⟩

theorem Repr.size (h : Repr hash_type s l) : s.size = l.length := by
  have hsize : s.size = s.mTable.contents.card := h.ok.size
  rw [hsize, ← h.contents, Multiset.coe_card, h.length_held]

/-! ## What is found -/

theorem mem_held {e : Key × Value} :
    e ∈ held t l ↔ ∃ i ∈ l, t.entryAt i = some e :=
  List.mem_filterMap

/-- The entries that `find` can find: the one with the key, if there is one. -/
theorem Repr.find [DecidableEq Key] (h : Repr hash_type s l) (key : Key) :
    (∃ a i b e, l = a ++ i :: b ∧ s.find hash_type key = some (some i) ∧
      s.mTable.entryAt i = some e ∧ e.1 = key) ∨
    s.find hash_type key = some none ∧ key ∉ (held s.mTable l).map Prod.fst := by
  obtain ⟨r, hr, hfirst⟩ := h.ok.find_first key
  cases r with
  | some i =>
    obtain ⟨k, hk, -, rfl, ⟨e, he, hkey⟩, -⟩ := hfirst
    have hi := (h.mem _).mpr ⟨chain_lt h.ok.prime.pos _ k, e, he⟩
    obtain ⟨a, b, hsplit⟩ := List.append_of_mem hi
    exact Or.inl ⟨a, _, b, e, hsplit, hr, he, hkey⟩
  | none =>
    refine Or.inr ⟨hr, fun hkey => ?_⟩
    obtain ⟨e, hmem, rfl⟩ := List.mem_map.mp hkey
    obtain ⟨i, hi, he⟩ := mem_held.mp hmem
    obtain ⟨k, hk, rfl, -⟩ := h.ok.behind ((h.mem i).mp hi).1 ⟨e, he, rfl⟩
    exact hfirst k hk (Nat.zero_le k) ⟨e, he, rfl⟩

/-- An entry is alone with its key. -/
theorem filter_others [DecidableEq Key] {a b : List (Key × Value)} {e : Key × Value}
    (h : ((a ++ e :: b).map Prod.fst).Nodup) :
    (a ++ e :: b).filter (·.1 ≠ e.1) = a ++ b ∧ (a ++ e :: b).find? (·.1 = e.1) = some e := by
  simp only [List.map_append, List.map_cons, List.nodup_append, List.nodup_cons, List.mem_cons] at h
  obtain ⟨-, ⟨hb, -⟩, ha⟩ := h
  have hbefore : ∀ x ∈ a, x.1 ≠ e.1 := fun x hx =>
    ha x.1 (List.mem_map_of_mem hx) e.1 (Or.inl rfl)
  have hafter : ∀ x ∈ b, x.1 ≠ e.1 := fun x hx he => hb (he ▸ List.mem_map_of_mem hx)
  constructor
  · rw [List.filter_append, List.filter_cons]
    rw [List.filter_eq_self.mpr fun x hx => by simpa using hbefore x hx,
      List.filter_eq_self.mpr fun x hx => by simpa using hafter x hx]
    simp
  · rw [List.find?_append, List.find?_eq_none.mpr fun x hx => by simpa using hbefore x hx]
    simp

/-! ## What the operations do -/

variable {α : Type}

/-- The list that the cache stands for. -/
def abs (s : LruCache Key Value) (l : List Nat) : Lru Key Value :=
  ⟨s.mMaxCapacity, held s.mTable l, s.told⟩

/-- What an operation does and returns is what the one on the list does and returns. -/
def Refines (hash_type : Key → BitVec 32) (o : Option (LruCache Key Value × α))
    (r : Lru Key Value × α) : Prop :=
  ∃ s' l', o = some (s', r.2) ∧ Repr hash_type s' l' ∧ abs s' l' = r.1

theorem keys_append {entries : List (Key × Value)} {key : Key}
    (h : (entries.map Prod.fst).Nodup) (hout : key ∉ entries.map Prod.fst) (value : Value) :
    ((entries ++ [(key, value)]).map Prod.fst).Nodup := by
  rw [List.map_append, List.map_singleton, ← List.concat_eq_append]
  exact h.concat hout

theorem find_none [DecidableEq Key] {entries : List (Key × Value)} {key : Key}
    (h : key ∉ entries.map Prod.fst) : entries.find? (·.1 = key) = none := by
  refine List.find?_eq_none.mpr fun e hmem => ?_
  simpa using fun he : e.1 = key => h (he ▸ List.mem_map_of_mem hmem)

section
variable [DecidableEq Key] (h : Repr hash_type s l)
include h

theorem Repr.get (key : Key) : Refines hash_type (s.get hash_type key) ((abs s l).get key) := by
  rcases h.find key with ⟨a, i, b, e, rfl, hfind, he, rfl⟩ | ⟨hfind, hout⟩
  · have hkeys := h.keys
    rw [held_append, held_cons he] at hkeys
    obtain ⟨hfilter, hfound⟩ := filter_others hkeys
    obtain ⟨hlisted, hnode⟩ := h.listed.detach
    have hout : i ∉ a ++ b := (List.nodup_cons.mp (List.nodup_middle.mp h.listed.nodup)).1
    have hsame : held s.mTable (a ++ b ++ [i]) = held s.mTable a ++ held s.mTable b ++ [e] := by
      rw [held_append, held_append, held_cons he]
      rfl
    refine ⟨(s.detachFromCache i).attachToCache i, a ++ b ++ [i], ?_, ⟨h.ok, h.loadFactor,
      hlisted.attach hout hnode, fun j => ?_, ?_, fun hmax => ?_⟩, ?_⟩
    · simp only [LruCache.get, hfind, Option.bind_some, he, Option.map_some, Lru.get, abs,
        held_append, held_cons he, hfound]
    · simp only [attachToCache_mTable, detachFromCache_mTable, ← h.mem j]
      simp [or_comm, or_left_comm]
    · simp only [attachToCache_mTable, detachFromCache_mTable, hsame]
      refine (List.Perm.nodup_iff (List.Perm.map _ ?_)).mp hkeys
      rw [List.append_assoc]
      exact List.Perm.append_left _ (List.perm_append_singleton e (held s.mTable b)).symm
    · refine le_trans (le_of_eq ?_) (h.few hmax)
      simp
    · simp only [abs, attachToCache_mTable, detachFromCache_mTable, Lru.get, held_append a (i :: b),
        held_cons he, hfound, hfilter, hsame]
      rfl
  · have hnone : (held s.mTable l).find? (·.1 = key) = none := find_none hout
    refine ⟨s, l, ?_, h, ?_⟩
    · simp only [LruCache.get, hfind, Option.bind_some, Lru.get, abs, hnone]
    · simp only [Lru.get, abs, hnone]

theorem Repr.remove (key : Key) :
    Refines hash_type (s.remove hash_type key) ((abs s l).remove key) := by
  rcases h.find key with ⟨a, i, b, e, rfl, hfind, he, rfl⟩ | ⟨hfind, hout⟩
  · have hkeys := h.keys
    rw [held_append, held_cons he] at hkeys
    obtain ⟨hfilter, hfound⟩ := filter_others hkeys
    obtain ⟨hlisted, -⟩ := h.listed.detach
    have hout : i ∉ a ++ b := (List.nodup_cons.mp (List.nodup_middle.mp h.listed.nodup)).1
    have hi : i < s.mTable.mBucketCount := ((h.mem i).mp (by simp)).1
    have hsame : held (s.mTable.removeAt i) (a ++ b) = held s.mTable a ++ held s.mTable b := by
      rw [← held_append]
      refine List.filterMap_congr fun j hj => ?_
      rw [Table.removeAt_entryAt, if_neg]
      rintro rfl
      exact hout hj
    have hok := h.ok.of_sameSizes (h.ok.removeAt hi he).1 (s.mTable.removeAt_sizes i)
    refine ⟨⟨s.mTable.removeAt i, s.links.detach i, s.mMaxCapacity, s.told ++ [e]⟩, a ++ b, ?_,
      ⟨hok, h.loadFactor, hlisted, fun j => ?_, ?_, fun hmax => ?_⟩, ?_⟩
    · simp only [LruCache.remove, hfind, Option.bind_some, he, Option.map_some, Lru.remove, abs,
        held_append, held_cons he, hfound]
      rfl
    · have hj := h.mem j
      show j ∈ a ++ b ↔ j < s.mTable.mBucketCount ∧ ∃ e, (s.mTable.removeAt i).entryAt j = some e
      simp only [List.mem_append, List.mem_cons] at hj hout ⊢
      rw [Table.removeAt_entryAt]
      by_cases hji : j = i
      · subst hji
        simpa using hout
      · simpa [hji] using hj
    · show ((held (s.mTable.removeAt i) (a ++ b)).map Prod.fst).Nodup
      rw [hsame]
      refine hkeys.sublist (List.Sublist.map _ ?_)
      exact List.Sublist.append_left (List.sublist_cons_self e _) _
    · have hle := h.few hmax
      simp only [List.length_append, List.length_cons] at hle ⊢
      exact le_trans (by omega) hle
    · show Lru.mk s.mMaxCapacity (held (s.mTable.removeAt i) (a ++ b)) (s.told ++ [e]) = _
      simp only [abs, Lru.remove, held_append a (i :: b), held_cons he, hfound, hfilter, hsame]
  · have hnone : (held s.mTable l).find? (·.1 = key) = none := find_none hout
    refine ⟨s, l, ?_, h, ?_⟩
    · simp only [LruCache.remove, hfind, Option.bind_some, Lru.remove, abs, hnone]
    · simp only [Lru.remove, abs, hnone]

theorem Repr.removeOldest :
    Refines hash_type (s.removeOldest hash_type) (abs s l).removeOldest := by
  have holdest := h.listed.oldest
  cases l with
  | nil => exact ⟨s, [], by simp only [LruCache.removeOldest, holdest, List.head?_nil]; rfl, h, rfl⟩
  | cons i rest =>
    obtain ⟨e, he⟩ := ((h.mem i).mp List.mem_cons_self).2
    have hkeys := h.keys
    rw [held_cons he] at hkeys
    obtain ⟨hfilter, hfound⟩ := filter_others (a := []) hkeys
    have hremove := h.remove e.1
    have hspec : (abs s (i :: rest)).remove e.1 = (abs s (i :: rest)).removeOldest := by
      rw [List.nil_append] at hfilter hfound
      simp only [Lru.remove, Lru.removeOldest, abs, held_cons he, hfound, hfilter, List.nil_append]
    rw [hspec] at hremove
    simpa only [LruCache.removeOldest, holdest, List.head?_cons, he, Option.bind_some] using hremove

omit [DecidableEq Key] in
theorem Repr.follow (fuel : Nat) (a b : List Nat) (hl : l = a ++ b) (hfuel : b.length ≤ fuel) :
    follow s.mTable s.links fuel b.head? = some (held s.mTable b) := by
  induction b generalizing a fuel with
  | nil => cases fuel <;> rfl
  | cons i b ih =>
    obtain ⟨fuel, rfl⟩ := Nat.exists_eq_add_of_le' (Nat.one_le_of_lt hfuel)
    obtain ⟨e, he⟩ := ((h.mem i).mp (by simp [hl])).2
    have hnode := h.listed.node a i b hl
    have hrest := ih fuel (a ++ [i]) (by simpa using hl) (by simpa using hfuel)
    rw [List.head?_cons, LruCache.follow, he, Option.bind_some, hnode, hrest, held_cons he]
    rfl

omit [DecidableEq Key] in
theorem Repr.entries : s.entries = some (held s.mTable l) := by
  have hle := h.ok.size_le
  have hroom := h.ok.room
  have hbelow := h.ok.below
  have hsize : s.mTable.mSize = l.length := h.size
  rw [LruCache.entries, h.listed.oldest]
  exact h.follow _ [] l rfl (by omega)

end

theorem Repr.empty (hok : s.mTable.Ok (hashOf Prod.fst hash_type))
    (hfactor : s.mTable.mLoadFactor = .default) (hnone : s.mTable.contents = 0)
    (holdest : s.links.oldest = none) (hyoungest : s.links.youngest = none) :
    Repr hash_type s [] where
  ok := hok
  loadFactor := hfactor
  listed := ⟨List.nodup_nil, holdest, hyoungest, fun a i b hl => by simp at hl⟩
  mem i := by
    refine ⟨fun hi => absurd hi List.not_mem_nil, fun ⟨hi, e, he⟩ => ?_⟩
    obtain ⟨hp, hentry⟩ := Table.entryAt_eq_some.mp he
    have hmem : e ∈ s.mTable.contents := mem_contents.mpr ⟨i, hi, hp, hentry⟩
    rw [hnone] at hmem
    exact absurd hmem (Multiset.notMem_zero e)
  keys := List.nodup_nil
  few _ := Nat.zero_le _

theorem Repr.clear (h : Repr hash_type s l) :
    ∃ s', s.clear = some s' ∧ Repr hash_type s' [] ∧ abs s' [] = (abs s l).clear := by
  obtain ⟨hsound, hnone⟩ := h.ok.clear
  have hsame := s.mTable.clear_sizes
  have hclear : s.clear = some ⟨s.mTable.clear, { s.links with oldest := none, youngest := none },
      s.mMaxCapacity, s.told ++ held s.mTable l⟩ := by
    rw [LruCache.clear, h.entries]
    rfl
  exact ⟨_, hclear, Repr.empty (h.ok.of_sameSizes hsound hsame)
    (hsame.loadFactor.trans h.loadFactor) hnone rfl rfl, rfl⟩

/-! ## What `put` does -/

/-- The cache has more entries, which come last, and it has not taken more room than they need. -/
structure Extended (hash_type : Key → BitVec 32) (s : LruCache Key Value) (l : List Nat)
    (entries : List (Key × Value)) (s' : LruCache Key Value) (l' : List Nat) : Prop where
  repr : Repr hash_type s' l'
  abs : abs s' l' = { abs s l with entries := held s.mTable l ++ entries }
  capacity : s'.mTable.mCapacity = s.mTable.mCapacity
  filled : s'.mTable.mFilledBuckets ≤ s.mTable.mFilledBuckets + entries.length

section
variable [DecidableEq Key] {key : Key}

omit [DecidableEq Key] in
theorem Repr.addEntry (h : Repr hash_type s l) (key : Key) (value : Value)
    (hroom : s.mTable.hasMoreRoom = true)
    (hout : key ∉ (held s.mTable l).map Prod.fst)
    (hfew : s.mMaxCapacity ≠ kUnlimitedCapacity → l.length < s.mMaxCapacity) :
    ∃ s' l', s.addEntry hash_type key value = some s' ∧
      Extended hash_type s l [(key, value)] s' l' := by
  obtain ⟨t', i, hadd, hadded, hplace⟩ := h.ok.addInPlace hashOf_trimmed
    (show trimHash (hash_type key) = hashOf Prod.fst hash_type (key, value) from rfl) hroom
  have hnew : i ∉ l := by
    intro hi
    obtain ⟨e, he⟩ := ((h.mem i).mp hi).2
    exact Option.some_ne_none e (he.symm.trans hplace.free)
  have hlisted := (h.listed.update hnew ⟨none, none⟩).attach hnew (Function.update_self ..)
  have hheld : held t' (l ++ [i]) = held s.mTable l ++ [(key, value)] := by
    rw [held_append, held_cons hadded.entryAt]
    congr 1
    exact List.filterMap_congr fun j hj => hplace.others j fun hji => hnew (hji ▸ hj)
  refine ⟨_, l ++ [i], by rw [LruCache.addEntry, hadd]; rfl, ⟨hadded.ok,
    hplace.loadFactor.trans h.loadFactor, hlisted, fun j => ?_, ?_, fun hmax => ?_⟩, ?_,
    hplace.capacity, hplace.filled⟩
  · show j ∈ l ++ [i] ↔ j < t'.mBucketCount ∧ ∃ e, t'.entryAt j = some e
    rw [List.mem_append, List.mem_singleton]
    by_cases hji : j = i
    · subst hji
      exact iff_of_true (Or.inr rfl) ⟨hadded.lt, _, hadded.entryAt⟩
    · rw [hplace.others j hji, hplace.count, ← h.mem j]
      simp [hji]
  · show ((held t' (l ++ [i])).map Prod.fst).Nodup
    rw [hheld]
    exact keys_append h.keys hout value
  · rw [List.length_append, List.length_singleton]
    exact hfew hmax
  · show Lru.mk s.mMaxCapacity (held t' (l ++ [i])) s.told = _
    rw [hheld]
    rfl

/-- `put`, where nothing has to go and the table does not have to grow. -/
theorem Repr.putThere (h : Repr hash_type s l) (key : Key) (value : Value)
    (hroom : s.mTable.hasMoreRoom = true)
    (hout : key ∉ (held s.mTable l).map Prod.fst)
    (hfew : s.mMaxCapacity ≠ kUnlimitedCapacity → l.length < s.mMaxCapacity) (depth : Nat) :
    ∃ s' l', putWithin hash_type (depth + 1) s key value = some (s', true) ∧
      Extended hash_type s l [(key, value)] s' l' := by
  obtain ⟨s', l', hadd, hextended⟩ := h.addEntry key value hroom hout hfew
  have hfind : s.find hash_type key = some none := by
    rcases h.find key with ⟨a, i, b, e, rfl, -, he, rfl⟩ | ⟨hfind, -⟩
    · rw [held_append, held_cons he] at hout
      simp at hout
    · exact hfind
  have hkeep : ¬ (s.mMaxCapacity ≠ kUnlimitedCapacity ∧ s.mMaxCapacity ≤ s.size) := by
    rintro ⟨hmax, hle⟩
    rw [h.size] at hle
    exact absurd (hfew hmax) (Nat.not_lt.mpr hle)
  refine ⟨s', l', ?_, hextended⟩
  rw [putWithin, if_neg hkeep, Option.bind_some, hfind, Option.bind_some]
  dsimp only
  rw [if_pos hroom, Option.bind_some, hadd]
  rfl

/-- The loop of `rehash`. -/
theorem Repr.putAll (depth : Nat) (entries : List (Key × Value)) (h : Repr hash_type s l)
    (hkeys : ((held s.mTable l ++ entries).map Prod.fst).Nodup)
    (hroom : s.mTable.mFilledBuckets + entries.length ≤ s.mTable.mCapacity)
    (hfew : s.mMaxCapacity ≠ kUnlimitedCapacity → l.length + entries.length ≤ s.mMaxCapacity) :
    ∃ s' l', entries.foldlM (fun s entry =>
        (putWithin hash_type (depth + 1) s entry.1 entry.2).map (·.1)) s = some s' ∧
      Extended hash_type s l entries s' l' := by
  induction entries generalizing s l with
  | nil =>
    refine ⟨s, l, rfl, h, ?_, rfl, le_rfl⟩
    rw [List.append_nil]
    rfl
  | cons e entries ih =>
    have hout : e.1 ∉ (held s.mTable l).map Prod.fst := by
      intro hmem
      rw [List.map_append] at hkeys
      exact (List.nodup_append.mp hkeys).2.2 _ hmem e.1 (by simp) rfl
    rw [List.length_cons] at hroom hfew
    obtain ⟨s₁, l₁, hput, hone⟩ := h.putThere e.1 e.2
      (by simp only [Table.hasMoreRoom, decide_eq_true_eq]; omega) hout
      (fun hmax => by have := hfew hmax; omega) depth
    have hheld : held s₁.mTable l₁ = held s.mTable l ++ [e] := congrArg Lru.entries hone.abs
    have hmax : s₁.mMaxCapacity = s.mMaxCapacity := congrArg Lru.max hone.abs
    have hlength := congrArg List.length hheld
    rw [hone.repr.length_held, List.length_append, h.length_held, List.length_singleton] at hlength
    have hfilled := hone.filled
    rw [List.length_singleton] at hfilled
    obtain ⟨s', l', hfold, hall⟩ := ih hone.repr
      (by rwa [hheld, List.append_assoc]) (by rw [hone.capacity]; omega)
      (fun hmax' => by rw [hmax] at hmax' ⊢; have := hfew hmax'; omega)
    refine ⟨s', l', ?_, hall.repr, ?_, hall.capacity.trans hone.capacity, ?_⟩
    · rw [List.foldlM_cons, hput]
      exact hfold
    · rw [hall.abs, hheld, List.append_assoc, hone.abs]
      rfl
    · have := hall.filled
      rw [List.length_cons]
      omega

/-- `rehash` leaves the entries and their order as they are. -/
theorem Repr.rehash (h : Repr hash_type s l) (depth newCapacity : Nat) {count capacity : Nat}
    (hsizes : determineCapacity newCapacity .default = some (count, capacity))
    (hfits : Fitting newCapacity count capacity) (hmany : l.length ≤ newCapacity) :
    ∃ s' l', s.rehash (putWithin hash_type (depth + 1)) newCapacity = some s' ∧
      Repr hash_type s' l' ∧ abs s' l' = abs s l ∧ newCapacity ≤ s'.mTable.mCapacity ∧
      s'.mTable.mFilledBuckets ≤ l.length := by
  have hnew : (Table.new newCapacity .default : Option (Table (Key × Value))) =
      some ⟨capacity, .default, 0, 0, count, none⟩ := by
    rw [Table.new, hsizes]
    rfl
  have hok := Table.Ok.new (hashOf Prod.fst hash_type) hnew hfits.below
  have hnone := (Table.Sound.new (hashOf Prod.fst hash_type) hnew).2
  have hlength := h.length_held
  have henough := hfits.enough
  obtain ⟨s', l', hfold, hall⟩ := Repr.putAll depth (held s.mTable l)
    (Repr.empty (s := { s with
      mTable := ⟨capacity, .default, 0, 0, count, none⟩
      links := { s.links with oldest := none, youngest := none } }) hok rfl hnone rfl rfl)
    h.keys (by rw [hlength]; exact (Nat.zero_add _).trans_le (hmany.trans henough))
    (fun hmax => by rw [hlength, List.length_nil, Nat.zero_add]; exact h.few hmax)
  refine ⟨s', l', ?_, hall.repr, hall.abs, hall.capacity ▸ henough, ?_⟩
  · rw [LruCache.rehash, hnew, Option.bind_some, h.entries, Option.bind_some]
    exact hfold
  · have hfilled := hall.filled
    rw [hlength] at hfilled
    exact hfilled.trans_eq (Nat.zero_add _)

omit [DecidableEq Key] in
/-- The sizes of a table of twice the capacity, if there is one. -/
theorem Repr.doubled (h : Repr hash_type s l)
    (hsome : (determineCapacity (s.mTable.mCapacity * 2) .default).isSome = true) :
    ∃ count capacity,
      determineCapacity (s.mTable.mCapacity * 2) .default = some (count, capacity) ∧
        Fitting (s.mTable.mCapacity * 2) count capacity := by
  obtain ⟨⟨count, capacity⟩, hsizes⟩ := Option.isSome_iff_exists.mp hsome
  have hcapacity := h.ok.capacity
  rw [h.loadFactor] at hcapacity
  refine ⟨count, capacity, hsizes, ?_⟩
  rw [hcapacity] at hsizes ⊢
  exact Fitting.doubled h.ok.count hsizes

theorem remove_sizes {s s' : LruCache Key Value} {b : Bool}
    (hremove : s.remove hash_type key = some (s', b)) :
    s'.mTable.mCapacity = s.mTable.mCapacity ∧
      s'.mTable.mFilledBuckets ≤ s.mTable.mFilledBuckets := by
  obtain ⟨r, -, hrest⟩ := Option.bind_eq_some_iff.mp hremove
  cases r with
  | none =>
    obtain ⟨rfl, -⟩ := Prod.mk.inj (Option.some.inj hrest)
    exact ⟨rfl, le_rfl⟩
  | some i =>
    obtain ⟨e, -, heq⟩ := Option.map_eq_some_iff.mp hrest
    obtain ⟨rfl, -⟩ := Prod.mk.inj heq
    have hsame := s.mTable.removeAt_sizes i
    exact ⟨hsame.capacity, hsame.filled⟩

theorem removeOldest_sizes {s s' : LruCache Key Value} {b : Bool}
    (hremove : s.removeOldest hash_type = some (s', b)) :
    s'.mTable.mCapacity = s.mTable.mCapacity ∧
      s'.mTable.mFilledBuckets ≤ s.mTable.mFilledBuckets := by
  unfold LruCache.removeOldest at hremove
  split at hremove
  · obtain ⟨e, -, hremove⟩ := Option.bind_eq_some_iff.mp hremove
    exact remove_sizes hremove
  · obtain ⟨rfl, -⟩ := Prod.mk.inj (Option.some.inj hremove)
    exact ⟨rfl, le_rfl⟩

/-- The oldest entry goes if the cache is full. -/
theorem Repr.makeRoom (h : Repr hash_type s l) :
    ∃ s' l', (if s.mMaxCapacity ≠ kUnlimitedCapacity ∧ s.mMaxCapacity ≤ s.size then
        (s.removeOldest hash_type).map (·.1) else some s) = some s' ∧
      Repr hash_type s' l' ∧
      abs s' l' = (if (abs s l).max ≠ 0 ∧ (abs s l).max ≤ (abs s l).entries.length then
        (abs s l).removeOldest.1 else abs s l) ∧
      (s'.mMaxCapacity ≠ kUnlimitedCapacity → l'.length < s'.mMaxCapacity) ∧
      s'.mTable.mCapacity = s.mTable.mCapacity ∧
      s'.mTable.mFilledBuckets ≤ s.mTable.mFilledBuckets := by
  have hlength : (abs s l).entries.length = l.length := h.length_held
  rw [h.size, hlength]
  by_cases hfull : s.mMaxCapacity ≠ kUnlimitedCapacity ∧ s.mMaxCapacity ≤ l.length
  · obtain ⟨s', l', hremove, hrepr, habs⟩ := h.removeOldest
    obtain ⟨hcapacity, hfilled⟩ := removeOldest_sizes hremove
    rw [if_pos hfull, if_pos (show (abs s l).max ≠ 0 ∧ (abs s l).max ≤ l.length from hfull)]
    refine ⟨s', l', by rw [hremove]; rfl, hrepr, habs, fun _ => ?_, hcapacity, hfilled⟩
    have hshorter : (abs s' l').entries.length = (abs s l).entries.length - 1 ∧
        (abs s' l').max = s.mMaxCapacity := by
      rw [habs]
      unfold Lru.removeOldest
      split
      case h_1 hnil => exact ⟨by rw [hnil]; rfl, rfl⟩
      case h_2 hcons => exact ⟨by rw [hcons]; rfl, rfl⟩
    have hheld : (abs s' l').entries.length = l'.length := hrepr.length_held
    have hmax : s'.mMaxCapacity = s.mMaxCapacity := hshorter.2
    have hpos : 0 < s.mMaxCapacity := Nat.pos_of_ne_zero hfull.1
    have hfew := h.few hfull.1
    omega
  · rw [if_neg hfull, if_neg (show ¬ ((abs s l).max ≠ 0 ∧ (abs s l).max ≤ l.length) from hfull)]
    refine ⟨s, l, rfl, h, rfl, fun hmax => ?_, rfl, le_rfl⟩
    exact Nat.not_le.mp fun hle => hfull ⟨hmax, hle⟩

/-- **`put`.** The table is rehashed once at most. -/
theorem Repr.put (h : Repr hash_type s l) (key : Key) (value : Value)
    (hgrow : s.mTable.mCapacity ≤ s.mTable.mFilledBuckets →
      (determineCapacity (s.mTable.mCapacity * 2) .default).isSome = true) :
    Refines hash_type (s.put hash_type key value) ((abs s l).put key value) := by
  obtain ⟨s₁, l₁, hmake, hrepr, habs, hfew, hcapacity, hfilled⟩ := h.makeRoom
  rw [LruCache.put, putWithin, hmake, Option.bind_some, Lru.put, ← habs]
  rcases hrepr.find key with ⟨a, i, b, e, rfl, hfind, he, rfl⟩ | ⟨hfind, hout⟩
  · have hmem : e.1 ∈ (abs s₁ (a ++ i :: b)).entries.map Prod.fst := by
      simp [abs, held_append, held_cons he]
    rw [hfind, if_pos hmem]
    exact ⟨s₁, _, rfl, hrepr, rfl⟩
  · rw [hfind, Option.bind_some, if_neg (show key ∉ (abs s₁ l₁).entries.map Prod.fst from hout)]
    by_cases hroom : s₁.mTable.hasMoreRoom = true
    · obtain ⟨s', l', hadd, hone⟩ := hrepr.addEntry key value hroom hout hfew
      refine ⟨s', l', ?_, hone.repr, hone.abs⟩
      dsimp only
      rw [if_pos hroom, Option.bind_some, hadd]
      rfl
    · have hfull : s₁.mTable.mCapacity ≤ s₁.mTable.mFilledBuckets := by
        simpa [Table.hasMoreRoom] using hroom
      have hpos := hrepr.ok.capacity_pos
      have hmany : l₁.length ≤ s₁.mTable.mCapacity := by
        have hle := hrepr.ok.size_le.trans hrepr.ok.room
        have hsize : s₁.mTable.mSize = l₁.length := hrepr.size
        rwa [hsize] at hle
      rw [← hcapacity] at hgrow
      obtain ⟨count, capacity, hsizes, hfits⟩ := hrepr.doubled (hgrow (hfull.trans hfilled))
      obtain ⟨s₂, l₂, hrehash, hrepr₂, habs₂, hcapacity₂, hfilled₂⟩ :=
        hrepr.rehash 0 (s₁.mTable.capacity * 2) hsizes hfits
          (hmany.trans (Nat.le_mul_of_pos_right _ (by decide)))
      have hheld : held s₂.mTable l₂ = held s₁.mTable l₁ := congrArg Lru.entries habs₂
      have hmax : s₂.mMaxCapacity = s₁.mMaxCapacity := congrArg Lru.max habs₂
      have hlength : l₂.length = l₁.length := by
        rw [← hrepr₂.length_held, hheld, hrepr.length_held]
      obtain ⟨s', l', hadd, hone⟩ := hrepr₂.addEntry key value
        (by
          have hcap : s₁.mTable.capacity = s₁.mTable.mCapacity := rfl
          simp only [Table.hasMoreRoom, decide_eq_true_eq]
          omega)
        (hheld ▸ hout) (by rwa [hmax, hlength])
      refine ⟨s', l', ?_, hone.repr, ?_⟩
      · dsimp only
        rw [if_neg hroom, hrehash, Option.bind_some, hadd]
        rfl
      · rw [hone.abs, hheld, habs₂]
        rfl

end

end LruCache

end Cdroid.Utils
