import Cdroid.Lib.Runs
import Cdroid.Utils.LruSteps

/-! Runs of the operations on an `LruCache`: what they return, which entries there are, in which
order they go, and what the listener is told. -/

namespace Cdroid.Utils
open Cdroid.Lib BasicHashtable

namespace LruCache

inductive Action (Key Value : Type)
  | get (key : Key)
  | put (key : Key) (value : Value)
  | remove (key : Key)
  | removeOldest
  | clear

inductive Answer (Value : Type)
  | value (value : Option Value)
  | flag (flag : Bool)
  | nothing

/-- The operations of a run and what they have returned. -/
abbrev Log (Key Value : Type) := List (Action Key Value × Answer Value)

/-- The entries that `put` has said it has put. -/
def Log.added {Key Value : Type} (log : Log Key Value) : List (Key × Value) :=
  log.flatMap fun
    | (.put key value, .flag true) => [(key, value)]
    | _ => []

theorem Log.added_append {Key Value : Type} (log log' : Log Key Value) :
    Log.added (log ++ log') = log.added ++ log'.added :=
  List.flatMap_append

end LruCache

/-! ## The list -/

namespace Lru
open LruCache
variable {Key Value : Type} [DecidableEq Key] {c : Lru Key Value}

def act (c : Lru Key Value) : Action Key Value → Lru Key Value × Answer Value
  | .get key => ((c.get key).1, .value (c.get key).2)
  | .put key value => ((c.put key value).1, .flag (c.put key value).2)
  | .remove key => ((c.remove key).1, .flag (c.remove key).2)
  | .removeOldest => (c.removeOldest.1, .flag c.removeOldest.2)
  | .clear => (c.clear, .nothing)

def run (c : Lru Key Value) (log : Log Key Value) :
    List (Action Key Value) → Lru Key Value × Log Key Value
  | [] => (c, log)
  | a :: as => run (c.act a).1 (log ++ [(a, (c.act a).2)]) as

/-- Each key has one entry. -/
def Keyed (c : Lru Key Value) : Prop := (c.entries.map Prod.fst).Nodup

/-- What has been put is in the cache, or the listener has been told of it. -/
def Kept (c : Lru Key Value) (log : Log Key Value) : Prop :=
  (c.entries ++ c.told).Perm log.added

theorem find_perm (h : c.Keyed) {key : Key} {e : Key × Value}
    (hfind : c.entries.find? (·.1 = key) = some e) :
    c.entries.Perm (e :: c.entries.filter (·.1 ≠ key)) := by
  obtain rfl : e.1 = key := by simpa using List.find?_some hfind
  obtain ⟨a, b, hsplit⟩ := List.append_of_mem (List.mem_of_find?_eq_some hfind)
  rw [Keyed, hsplit] at h
  rw [hsplit, (filter_others h).1]
  exact List.perm_middle

theorem get_perm (h : c.Keyed) (key : Key) :
    (c.get key).1.entries.Perm c.entries ∧ (c.get key).1.told = c.told := by
  unfold get
  split
  · exact ⟨List.Perm.refl _, rfl⟩
  · rename_i e hfind
    exact ⟨(List.perm_append_singleton e _).trans (find_perm h hfind).symm, rfl⟩

omit [DecidableEq Key] in
theorem perm_told {e : Key × Value} {entries rest told : List (Key × Value)}
    (h : entries.Perm (e :: rest)) : (rest ++ (told ++ [e])).Perm (entries ++ told) :=
  calc (rest ++ (told ++ [e])).Perm (rest ++ ([e] ++ told)) :=
        List.perm_append_comm.append_left rest
    _ = (rest ++ e :: told) := rfl
    _ |>.Perm (e :: rest ++ told) := List.perm_middle
    _ |>.Perm (entries ++ told) := h.symm.append_right told

theorem remove_perm (h : c.Keyed) (key : Key) : (c.remove key).1.Keyed ∧
    ((c.remove key).1.entries ++ (c.remove key).1.told).Perm (c.entries ++ c.told) := by
  unfold remove
  split
  · exact ⟨h, List.Perm.refl _⟩
  · rename_i e hfind
    exact ⟨h.sublist (List.filter_sublist.map Prod.fst), perm_told (find_perm h hfind)⟩

omit [DecidableEq Key] in
theorem removeOldest_perm (h : c.Keyed) : c.removeOldest.1.Keyed ∧
    (c.removeOldest.1.entries ++ c.removeOldest.1.told).Perm (c.entries ++ c.told) := by
  unfold removeOldest
  split
  · exact ⟨h, List.Perm.refl _⟩
  · rename_i e rest hentries
    rw [Keyed, hentries] at h
    exact ⟨(List.nodup_cons.mp h).2, perm_told (hentries ▸ List.Perm.refl _)⟩

theorem put_perm (h : c.Keyed) (key : Key) (value : Value) : (c.put key value).1.Keyed ∧
    ((c.put key value).1.entries ++ (c.put key value).1.told).Perm
      (c.entries ++ c.told ++ Log.added [(.put key value, .flag (c.put key value).2)]) := by
  have hroom : ∀ c' : Lru Key Value, c'.Keyed → (c'.entries ++ c'.told).Perm (c.entries ++ c.told) →
      ∀ r, r = (if key ∈ c'.entries.map Prod.fst then (c', false)
        else ({ c' with entries := c'.entries ++ [(key, value)] }, true)) →
      r.1.Keyed ∧ (r.1.entries ++ r.1.told).Perm
        (c.entries ++ c.told ++ Log.added [(.put key value, .flag r.2)]) := by
    rintro c' hkeyed hperm r rfl
    split
    · exact ⟨hkeyed, by simpa [Log.added] using hperm⟩
    case isFalse hout =>
      refine ⟨keys_append hkeyed hout value, ?_⟩
      show (c'.entries ++ [(key, value)] ++ c'.told).Perm (c.entries ++ c.told ++ [(key, value)])
      calc
        (c'.entries ++ [(key, value)] ++ c'.told).Perm
            (c'.entries ++ ([(key, value)] ++ c'.told)) :=
            List.append_assoc .. ▸ List.Perm.refl _
        _ |>.Perm (c'.entries ++ (c'.told ++ [(key, value)])) :=
            List.perm_append_comm.append_left _
        _ |>.Perm (c.entries ++ c.told ++ [(key, value)]) :=
            List.append_assoc .. ▸ hperm.append_right _
  refine hroom (if c.max ≠ 0 ∧ c.max ≤ c.entries.length then c.removeOldest.1 else c) ?_ ?_ _ rfl
  · split
    · exact (removeOldest_perm h).1
    · exact h
  · split
    · exact (removeOldest_perm h).2
    · exact List.Perm.refl _

/-- **Step lemma.** -/
theorem act_perm (h : c.Keyed) (a : Action Key Value) : (c.act a).1.Keyed ∧
    ((c.act a).1.entries ++ (c.act a).1.told).Perm
      (c.entries ++ c.told ++ Log.added [(a, (c.act a).2)]) := by
  cases a with
  | get key =>
    obtain ⟨hperm, htold⟩ := get_perm h key
    refine ⟨((hperm.map Prod.fst).nodup_iff).mpr h, ?_⟩
    simp only [act, Log.added, List.flatMap_cons, List.flatMap_nil, List.append_nil, htold]
    exact hperm.append_right c.told
  | put key value => exact put_perm h key value
  | remove key => simpa [act, Log.added] using remove_perm h key
  | removeOldest => simpa [act, Log.added] using removeOldest_perm h
  | clear =>
    refine ⟨List.nodup_nil, ?_⟩
    simpa [act, clear, Log.added] using List.perm_append_comm

/-- **Run lemma.** -/
theorem run_kept (as : List (Action Key Value)) {log : Log Key Value} (h : c.Keyed)
    (hkept : c.Kept log) : (c.run log as).1.Keyed ∧ (c.run log as).1.Kept (c.run log as).2 := by
  induction as generalizing c log with
  | nil => exact ⟨h, hkept⟩
  | cons a as ih =>
    obtain ⟨hkeyed, hperm⟩ := act_perm h a
    refine ih hkeyed (hperm.trans ?_)
    rw [Log.added_append]
    exact hkept.append_right _

/-! The number of the entries that there may be stays as it is. -/

omit [DecidableEq Key] in
theorem removeOldest_max : c.removeOldest.1.max = c.max := by
  unfold removeOldest
  split <;> rfl

theorem act_max (a : Action Key Value) : (c.act a).1.max = c.max := by
  cases a with
  | get key =>
    simp only [act, get]
    split <;> rfl
  | put key value =>
    simp only [act, put]
    split <;> split <;> first | exact removeOldest_max | rfl
  | remove key =>
    simp only [act, remove]
    split <;> rfl
  | removeOldest => exact removeOldest_max
  | clear => rfl

theorem run_max (as : List (Action Key Value)) (log : Log Key Value) :
    (c.run log as).1.max = c.max := by
  induction as generalizing c log with
  | nil => rfl
  | cons a as ih => exact (ih _).trans (act_max a)

end Lru

/-! ## The cache -/

namespace LruCache
variable {Key Value : Type} [DecidableEq Key] {hash_type : Key → BitVec 32}

def act (hash_type : Key → BitVec 32) (s : LruCache Key Value) :
    Action Key Value → Option (LruCache Key Value × Answer Value)
  | .get key => (s.get hash_type key).map fun r => (r.1, .value r.2)
  | .put key value => (s.put hash_type key value).map fun r => (r.1, .flag r.2)
  | .remove key => (s.remove hash_type key).map fun r => (r.1, .flag r.2)
  | .removeOldest => (s.removeOldest hash_type).map fun r => (r.1, .flag r.2)
  | .clear => s.clear.map fun s => (s, .nothing)

def next (hash_type : Key → BitVec 32) (s : LruCache Key Value × Log Key Value)
    (a : Action Key Value) : Option (LruCache Key Value × Log Key Value) :=
  (s.1.act hash_type a).map fun r => (r.1, s.2 ++ [(a, r.2)])

/-- The table of primes is not left. -/
def Meets (s : LruCache Key Value × Log Key Value) : Action Key Value → Prop
  | .put _ _ => s.1.mTable.mCapacity ≤ s.1.mTable.mFilledBuckets →
      (determineCapacity (s.1.mTable.mCapacity * 2) .default).isSome = true
  | _ => True

instance (s : LruCache Key Value × Log Key Value) : (a : Action Key Value) → Decidable (Meets s a)
  | .put _ _ => inferInstanceAs (Decidable (_ → _))
  | .get _ | .remove _ | .removeOldest | .clear => inferInstanceAs (Decidable True)

variable {s : LruCache Key Value} {l : List Nat} {as : List (Action Key Value)}
  {log : Log Key Value}

omit [DecidableEq Key] in
theorem Refines.answer {α : Type} {o : Option (LruCache Key Value × α)} {r : Lru Key Value × α}
    (h : Refines hash_type o r) (answer : α → Answer Value) :
    Refines hash_type (o.map fun r => (r.1, answer r.2)) (r.1, answer r.2) := by
  obtain ⟨s', l', rfl, hrepr, habs⟩ := h
  exact ⟨s', l', rfl, hrepr, habs⟩

/-- **Step lemma.** -/
theorem Repr.act (h : Repr hash_type s l) {a : Action Key Value} (hmeets : Meets (s, log) a) :
    Refines hash_type (s.act hash_type a) ((abs s l).act a) := by
  cases a with
  | get key => exact (h.get key).answer .value
  | put key value => exact (h.put key value hmeets).answer .flag
  | remove key => exact (h.remove key).answer .flag
  | removeOldest => exact h.removeOldest.answer .flag
  | clear =>
    obtain ⟨s', hclear, hrepr, habs⟩ := h.clear
    exact ⟨s', [], by rw [LruCache.act, hclear]; rfl, hrepr, habs⟩

/-- **Run lemma.** -/
theorem Repr.run (h : Repr hash_type s l)
    (hmeets : Runs.Along Meets (next hash_type) as (s, log)) :
    ∃ u l', Runs.after (next hash_type) as (s, log) = some (u, ((abs s l).run log as).2) ∧
      Repr hash_type u l' ∧ abs u l' = ((abs s l).run log as).1 := by
  induction as generalizing s l log with
  | nil => exact ⟨s, l, rfl, h, rfl⟩
  | cons a as ih =>
    obtain ⟨s', l', hact, hrepr, habs⟩ := h.act hmeets.1
    have hnext : next hash_type (s, log) a = some (s', log ++ [(a, ((abs s l).act a).2)]) := by
      rw [next, hact]
      rfl
    obtain ⟨u, m, hafter, hu, heq⟩ := ih hrepr (hmeets.2 _ hnext)
    rw [habs] at hafter heq
    exact ⟨u, m, Runs.after_cons.mpr ⟨_, hnext, hafter⟩, hu, heq⟩

omit [DecidableEq Key] in
theorem Repr.new (hash_type : Key → BitVec 32) {max : Nat} (hnew : LruCache.new max = some s) :
    Repr hash_type s [] ∧ abs s [] = ⟨max, [], []⟩ := by
  obtain ⟨table, htable, rfl⟩ := Option.map_eq_some_iff.mp hnew
  obtain ⟨hsound, hnone⟩ := Table.Sound.new (hashOf Prod.fst hash_type) htable
  have hsizes : table.mLoadFactor = .default ∧
      table.mCapacity = LoadFactor.default.times (table.mBucketCount - 1) := by
    obtain ⟨sizes, hsizes, rfl⟩ := Option.map_eq_some_iff.mp htable
    exact ⟨rfl, (determineCapacity_spec hsizes).2.1⟩
  have hok := Table.Ok.new (hashOf Prod.fst hash_type) htable
    (hsizes.2 ▸ default_below _ hsound.count)
  exact ⟨Repr.empty hok hsizes.1 hnone rfl rfl, rfl⟩

section
variable {max : Nat}

/-- **The cache is the list.** In a run nothing fails, what the operations return and what the
listener is told is what it is for the list of the entries, from the oldest one, and the table has
these entries and no others, not more of them than the cache may have. -/
theorem run_entries (hnew : LruCache.new max = some s)
    (hmeets : Runs.Along Meets (next hash_type) as (s, [])) :
    ∃ u, Runs.after (next hash_type) as (s, []) = some (u, ((Lru.mk max [] []).run [] as).2) ∧
      u.entries = some ((Lru.mk max [] []).run [] as).1.entries ∧
      u.told = ((Lru.mk max [] []).run [] as).1.told ∧
      u.mTable.contents = ((Lru.mk max [] []).run [] as).1.entries ∧
      u.size = ((Lru.mk max [] []).run [] as).1.entries.length ∧
      (max ≠ kUnlimitedCapacity → u.size ≤ max) := by
  obtain ⟨h, habs⟩ := Repr.new hash_type hnew
  obtain ⟨u, l, hafter, hu, heq⟩ := h.run hmeets
  rw [habs] at hafter heq
  have hheld := congrArg Lru.entries heq
  refine ⟨u, hafter, hheld ▸ hu.entries, congrArg Lru.told heq, ?_, ?_, fun hmax => ?_⟩
  · rw [← hu.contents, ← hheld]
    rfl
  · rw [hu.size, ← hu.length_held, ← hheld]
    rfl
  · have hsame : u.mMaxCapacity = max := (congrArg Lru.max heq).trans (Lru.run_max as [])
    rw [hu.size, ← hsame]
    exact hu.few (hsame ▸ hmax)

/-- **Nothing is lost.** In a run, each entry that has been put is in the cache, or the listener has
been told of it, as often as it has been put; and the cache has one entry for a key. -/
theorem run_told (hnew : LruCache.new max = some s)
    (hmeets : Runs.Along Meets (next hash_type) as (s, [])) :
    ∃ u log entries, Runs.after (next hash_type) as (s, []) = some (u, log) ∧
      u.entries = some entries ∧ (entries.map Prod.fst).Nodup ∧
      (entries ++ u.told).Perm log.added := by
  obtain ⟨h, habs⟩ := Repr.new hash_type hnew
  obtain ⟨u, l, hafter, hu, heq⟩ := h.run hmeets
  rw [habs] at hafter heq
  obtain ⟨-, hkept⟩ := Lru.run_kept as (show (Lru.mk max [] []).Keyed from List.nodup_nil)
    (show Lru.Kept _ [] from List.Perm.refl _)
  rw [← heq] at hkept
  exact ⟨u, _, _, hafter, hu.entries, hu.keys, hkept⟩

end

/-! ## A cache of three numbers -/

def three : LruCache Nat Nat :=
  ⟨⟨3, .default, 0, 0, 5, none⟩, ⟨fun _ => ⟨none, none⟩, none, none⟩, 3, []⟩

def hashNumber (n : Nat) : BitVec 32 := BitVec.ofNat 32 n

/-- Keys that collide; the cache is full, and the table grows because of the marks. -/
def evicting : List (Action Nat Nat) :=
  [.put 0 1, .put 5 2, .put 10 3, .get 0, .put 3 4, .put 3 5, .remove 0, .put 1 6, .put 2 7,
    .put 4 8]

theorem evicting_entries :
    ∃ u, Runs.after (next hashNumber) evicting (three, []) =
        some (u, ((Lru.mk 3 [] []).run [] evicting).2) ∧
      u.entries = some ((Lru.mk 3 [] []).run [] evicting).1.entries ∧
      u.told = ((Lru.mk 3 [] []).run [] evicting).1.told ∧
      u.mTable.contents = ((Lru.mk 3 [] []).run [] evicting).1.entries ∧
      u.size = ((Lru.mk 3 [] []).run [] evicting).1.entries.length ∧
      (3 ≠ kUnlimitedCapacity → u.size ≤ 3) :=
  run_entries rfl (by decide)

theorem evicting_told :
    ∃ u log entries, Runs.after (next hashNumber) evicting (three, []) = some (u, log) ∧
      u.entries = some entries ∧ (entries.map Prod.fst).Nodup ∧
      (entries ++ u.told).Perm log.added :=
  run_told (show LruCache.new 3 = some three from rfl) (by decide)

end LruCache

end Cdroid.Utils
