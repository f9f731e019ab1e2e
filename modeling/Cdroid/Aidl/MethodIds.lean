import Cdroid.Aidl.Language
import Mathlib.Data.List.Nodup
import Mathlib.Algebra.Group.Int.Defs
import Mathlib.Algebra.Group.Nat.Defs

/-! `check_and_assign_method_ids`: the ids that the methods of an interface are given, and the
transaction codes that are made of them. Numbering the methods does not look at the range. -/

namespace Cdroid.Aidl
open Cdroid.Runtime

def MIN_USER_SET_METHOD_ID : Int := 0
def MAX_USER_SET_METHOD_ID : Int := 16777214

def FIRST_CALL_TRANSACTION : Int := 0x00000001
def LAST_CALL_TRANSACTION : Int := 0x00ffffff

/-! ## atoi -/

/-- The text of an `IDVALUE`. -/
structure Digits where
  data : String8
  digits : data.all digit

def digitValue (b : UInt8) : Nat := (b - byte '0').toNat

/-- The number that is written, behind one that was read before. -/
def valueFrom (n : Nat) (s : String8) : Nat := s.foldl (fun n b => 10 * n + digitValue b) n

def Digits.value (d : Digits) : Nat := valueFrom 0 d.data

/-- The greatest `long`, of 32 bits. -/
def LONG_MAX : Nat := 2 ^ 31 - 1

/-- `strtol` to the base ten, which stays at `LONG_MAX` once it gets there. -/
def strtol (n : Nat) : String8 → Nat
  | [] => n
  | b :: s =>
    if LONG_MAX < 10 * n + digitValue b then LONG_MAX
    else strtol (10 * n + digitValue b) s

def atoi (d : Digits) : Int := strtol 0 d.data

/-! ## check_and_assign_method_ids -/

/-- The locals of the first loop. -/
structure IdScan where
  usedIds : List Int
  hasUnassignedIds : Bool
  hasAssignedIds : Bool

/-- A method, with its id if it has one; `none` is a return of 1. -/
def scanMethod (s : IdScan) : Option Digits → Option IdScan
  | some id =>
    if atoi id ∈ s.usedIds then none
    else if atoi id < MIN_USER_SET_METHOD_ID ∨ MAX_USER_SET_METHOD_ID < atoi id then none
    else if s.hasUnassignedIds then none
    else some ⟨atoi id :: s.usedIds, s.hasUnassignedIds, true⟩
  | none =>
    if s.hasAssignedIds then none
    else some ⟨s.usedIds, true, s.hasAssignedIds⟩

def scanMethods : IdScan → List (Option Digits) → Option IdScan
  | s, [] => some s
  | s, m :: ms => do
    let s ← scanMethod s m
    scanMethods s ms

/-- What an `int` holds after it has been counted up `n` times from zero. -/
def counted (n : Nat) : Int := (n : Int).bmod (2 ^ 32)

/-- The `assigned_id` of every method, or a return of 1. -/
def checkAndAssignMethodIds (methods : List (Option Digits)) : Option (List Int) := do
  let s ← scanMethods ⟨[], false, false⟩ methods
  if s.hasUnassignedIds then some ((List.range methods.length).map counted)
  else some (methods.filterMap (Option.map atoi))

def transactCode (id : Int) : Int := FIRST_CALL_TRANSACTION + id

/-! ## What is to be checked -/

/-- No method has an id, or all have different ones that are not too great. -/
def Admissible (methods : List (Option Digits)) : Prop :=
  (∀ m ∈ methods, m = none) ∨
    ∃ ids : List Digits, methods = ids.map some ∧ (ids.map Digits.value).Nodup ∧
      ∀ id ∈ ids, (id.value : Int) ≤ MAX_USER_SET_METHOD_ID

/-- Different codes, in the range that is reserved for the user. -/
structure UserCodes (codes : List Int) : Prop where
  nodup : codes.Nodup
  range : ∀ code ∈ codes, FIRST_CALL_TRANSACTION ≤ code ∧ code ≤ LAST_CALL_TRANSACTION

/-- It succeeds for what is admissible, and gives every method a code of its own. -/
structure Assigned (methods : List (Option Digits)) : Prop where
  succeeds : (checkAndAssignMethodIds methods).isSome ↔ Admissible methods
  codes : ∀ ids, checkAndAssignMethodIds methods = some ids →
    ids.length = methods.length ∧ ids.Nodup ∧ UserCodes (ids.map transactCode)

/-! ## The value of an id -/

theorem le_valueFrom (n : Nat) (s : String8) : n ≤ valueFrom n s := by
  induction s generalizing n with
  | nil => exact Nat.le_refl n
  | cons b s ih =>
    have h := ih (10 * n + digitValue b)
    rw [valueFrom, List.foldl_cons, ← valueFrom]
    omega

/-- The value, as long as it can be held. -/
theorem strtol_eq {n : Nat} (hn : n ≤ LONG_MAX) (s : String8) :
    strtol n s = min (valueFrom n s) LONG_MAX := by
  induction s generalizing n with
  | nil => exact (Nat.min_eq_left hn).symm
  | cons b s ih =>
    have hle := le_valueFrom (10 * n + digitValue b) s
    rw [strtol, valueFrom, List.foldl_cons, ← valueFrom]
    split
    · next hgt => exact (Nat.min_eq_right (by omega)).symm
    · next hle => exact ih (by omega)

theorem atoi_eq (d : Digits) : atoi d = (min d.value LONG_MAX : Nat) :=
  congrArg Nat.cast (strtol_eq (by decide) d.data)

theorem atoi_le_iff (d : Digits) :
    atoi d ≤ MAX_USER_SET_METHOD_ID ↔ (d.value : Int) ≤ MAX_USER_SET_METHOD_ID := by
  rw [atoi_eq]
  simp only [LONG_MAX, MAX_USER_SET_METHOD_ID]
  omega

theorem atoi_of_le {d : Digits} (h : (d.value : Int) ≤ MAX_USER_SET_METHOD_ID) :
    atoi d = d.value := by
  rw [atoi_eq]
  simp only [LONG_MAX, MAX_USER_SET_METHOD_ID] at h ⊢
  omega

theorem atoi_nonneg (d : Digits) : MIN_USER_SET_METHOD_ID ≤ atoi d := by
  rw [atoi_eq]
  exact Int.natCast_nonneg _

/-! ## The first loop -/

/-- Nothing else is in the way of an id, once no method was without. -/
theorem scanMethod_some (used : List Int) (assigned : Bool) (id : Digits) :
    scanMethod ⟨used, false, assigned⟩ (some id) =
      if atoi id ∉ used ∧ atoi id ≤ MAX_USER_SET_METHOD_ID then
        some ⟨atoi id :: used, false, true⟩
      else none := by
  rw [scanMethod]
  by_cases hused : atoi id ∈ used
  · rw [if_pos hused, if_neg (fun h => h.1 hused)]
  · rw [if_neg hused]
    by_cases hmax : atoi id ≤ MAX_USER_SET_METHOD_ID
    · have hmin := atoi_nonneg id
      rw [if_neg (by omega), if_neg Bool.false_ne_true, if_pos ⟨hused, hmax⟩]
    · rw [if_pos (by omega), if_neg (fun h => hmax h.2)]

/-- Behind a method with an id, all have one. -/
theorem scan_assigned (used : List Int) (ms : List (Option Digits)) :
    (scanMethods ⟨used, false, true⟩ ms).isSome ↔
      ∃ ids : List Digits, ms = ids.map some ∧ (ids.map atoi).Nodup ∧
        ∀ id ∈ ids, atoi id ∉ used ∧ atoi id ≤ MAX_USER_SET_METHOD_ID := by
  induction ms generalizing used with
  | nil =>
    refine iff_of_true rfl ⟨[], rfl, List.nodup_nil, ?_⟩
    simp
  | cons m ms ih =>
    rw [scanMethods, Option.bind_eq_bind]
    cases m with
    | none =>
      refine iff_of_false Bool.false_ne_true ?_
      rintro ⟨ids, hids, _⟩
      cases ids <;> cases hids
    | some id =>
      rw [scanMethod_some]
      by_cases hid : atoi id ∉ used ∧ atoi id ≤ MAX_USER_SET_METHOD_ID
      · rw [if_pos hid, Option.bind_some, ih]
        constructor
        · rintro ⟨ids, rfl, hnodup, hids⟩
          refine ⟨id :: ids, rfl, List.nodup_cons.mpr ⟨?_, hnodup⟩, ?_⟩
          · intro hmem
            obtain ⟨id', hid', heq⟩ := List.mem_map.mp hmem
            exact (hids id' hid').1 (by simp [heq])
          · rw [List.forall_mem_cons]
            exact ⟨hid, fun id' hid' =>
              ⟨fun h => (hids id' hid').1 (List.mem_cons_of_mem _ h), (hids id' hid').2⟩⟩
        · rintro ⟨ids, hms, hnodup, hids⟩
          cases ids with
          | nil => cases hms
          | cons id' ids =>
            obtain ⟨rfl, rfl⟩ : id = id' ∧ ms = ids.map some := by simpa using hms
            rw [List.map_cons, List.nodup_cons] at hnodup
            rw [List.forall_mem_cons] at hids
            refine ⟨ids, rfl, hnodup.2, fun id' hid' => ⟨?_, (hids.2 id' hid').2⟩⟩
            intro hmem
            rcases List.mem_cons.mp hmem with heq | hmem
            · exact hnodup.1 (heq ▸ List.mem_map_of_mem hid')
            · exact (hids.2 id' hid').1 hmem
      · rw [if_neg hid]
        refine iff_of_false Bool.false_ne_true ?_
        rintro ⟨ids, hms, _, hids⟩
        cases ids with
        | nil => cases hms
        | cons id' ids =>
          obtain ⟨rfl, _⟩ : id = id' ∧ ms = ids.map some := by simpa using hms
          exact hid (hids id (by simp))

/-- Behind one without, none has. -/
theorem scan_unassigned (used : List Int) (ms : List (Option Digits)) :
    (scanMethods ⟨used, true, false⟩ ms).isSome ↔ ∀ m ∈ ms, m = none := by
  induction ms with
  | nil => simp [scanMethods]
  | cons m ms ih =>
    rw [scanMethods, Option.bind_eq_bind, List.forall_mem_cons]
    cases m with
    | none =>
      rw [← ih]
      exact ⟨fun h => ⟨rfl, h⟩, fun h => h.2⟩
    | some id =>
      have hfail : scanMethod ⟨used, true, false⟩ (some id) = none := by
        simp only [scanMethod, if_true, ite_self]
      rw [hfail]
      simp

theorem scan_hasUnassignedIds {s s' : IdScan} {ms : List (Option Digits)}
    (h : scanMethods s ms = some s') :
    s'.hasUnassignedIds = (s.hasUnassignedIds || ms.any Option.isNone) := by
  induction ms generalizing s with
  | nil =>
    cases h
    simp
  | cons m ms ih =>
    rw [scanMethods, Option.bind_eq_bind, Option.bind_eq_some_iff] at h
    obtain ⟨t, hm, ht⟩ := h
    rw [ih ht, List.any_cons]
    cases m with
    | none =>
      rw [scanMethod] at hm
      split at hm
      · cases hm
      · cases hm
        simp
    | some id =>
      rw [scanMethod] at hm
      split at hm
      · cases hm
      · split at hm
        · cases hm
        · split at hm
          · cases hm
          · cases hm
            simp

/-- The ids can be told apart by what `atoi` makes of them, within the bounds. -/
theorem nodup_atoi {ids : List Digits} (h : ∀ id ∈ ids, atoi id ≤ MAX_USER_SET_METHOD_ID) :
    (ids.map atoi).Nodup ↔ (ids.map Digits.value).Nodup := by
  have hmap : ids.map atoi = (ids.map Digits.value).map Nat.cast := by
    rw [List.map_map]
    exact List.map_congr_left fun id hid => atoi_of_le ((atoi_le_iff id).mp (h id hid))
  rw [hmap]
  exact List.nodup_map_iff fun _ _ => Int.ofNat.inj

theorem admissible_ids {ids : List Digits} :
    ((ids.map atoi).Nodup ∧ ∀ id ∈ ids, atoi id ≤ MAX_USER_SET_METHOD_ID) ↔
      (ids.map Digits.value).Nodup ∧ ∀ id ∈ ids, (id.value : Int) ≤ MAX_USER_SET_METHOD_ID := by
  simp only [← atoi_le_iff]
  exact and_congr_left nodup_atoi

theorem scanMethods_isSome (ms : List (Option Digits)) :
    (scanMethods ⟨[], false, false⟩ ms).isSome ↔ Admissible ms := by
  cases ms with
  | nil => exact iff_of_true rfl (.inl (by simp))
  | cons m ms =>
    rw [scanMethods, Option.bind_eq_bind]
    cases m with
    | none =>
      refine (scan_unassigned [] ms).trans ⟨fun h => .inl ?_, ?_⟩
      · rw [List.forall_mem_cons]
        exact ⟨rfl, h⟩
      · rintro (h | ⟨ids, hids, _⟩)
        · exact fun m hm => h m (List.mem_cons_of_mem _ hm)
        · cases ids <;> cases hids
    | some id =>
      -- the flag is all that tells the first method from the next one
      have hfirst : (scanMethod ⟨[], false, false⟩ (some id)).bind (scanMethods · ms) =
          scanMethods ⟨[], false, true⟩ (some id :: ms) := by
        rw [scanMethods, Option.bind_eq_bind, scanMethod_some, scanMethod_some]
      rw [hfirst, scan_assigned]
      constructor
      · rintro ⟨ids, hms, hnodup, hids⟩
        exact .inr ⟨ids, hms, admissible_ids.mp ⟨hnodup, fun id hid => (hids id hid).2⟩⟩
      · rintro (h | ⟨ids, hms, hids⟩)
        · cases h (some id) (by simp)
        · obtain ⟨hnodup, hmax⟩ := admissible_ids.mpr hids
          exact ⟨ids, hms, hnodup, fun id hid => ⟨by simp, hmax id hid⟩⟩

/-! ## The ids -/

theorem checkAndAssignMethodIds_eq (ms : List (Option Digits)) :
    checkAndAssignMethodIds ms =
      (scanMethods ⟨[], false, false⟩ ms).map fun _ =>
        if ms.any Option.isNone then (List.range ms.length).map counted
        else ms.filterMap (Option.map atoi) := by
  rw [checkAndAssignMethodIds, Option.bind_eq_bind]
  cases h : scanMethods ⟨[], false, false⟩ ms with
  | none => rfl
  | some s =>
    rw [Option.bind_some, scan_hasUnassignedIds h, Bool.false_or, Option.map_some]
    split <;> rfl

theorem checkAndAssignMethodIds_isSome (ms : List (Option Digits)) :
    (checkAndAssignMethodIds ms).isSome ↔ Admissible ms := by
  rw [checkAndAssignMethodIds_eq, Option.isSome_map, scanMethods_isSome]

theorem counted_eq {n : Nat} (h : n < 2 ^ 31) : counted n = n :=
  Int.bmod_eq_of_le (by omega) (by omega)

/-- The methods are numbered. -/
theorem assigned_numbered {ms : List (Option Digits)} (h : ∀ m ∈ ms, m = none) :
    checkAndAssignMethodIds ms = some ((List.range ms.length).map counted) := by
  obtain ⟨s, hs⟩ := Option.isSome_iff_exists.mp ((scanMethods_isSome ms).mpr (.inl h))
  rw [checkAndAssignMethodIds_eq, hs, Option.map_some]
  cases ms with
  | nil => rfl
  | cons m ms => rw [List.any_cons, h m (by simp), Option.isNone_none, Bool.true_or, if_pos rfl]

/-- The ids are those that are written. -/
theorem assigned_written {ids : List Digits} (h : Admissible (ids.map some)) :
    checkAndAssignMethodIds (ids.map some) = some (ids.map atoi) := by
  obtain ⟨s, hs⟩ := Option.isSome_iff_exists.mp ((scanMethods_isSome (ids.map some)).mpr h)
  rw [checkAndAssignMethodIds_eq, hs, Option.map_some]
  simp

theorem transactCode_injective : Function.Injective transactCode := by
  intro a b h
  simpa [transactCode] using h

/-- Different ids within the bounds make codes of the user. -/
theorem userCodes {ids : List Int} (hnodup : ids.Nodup)
    (hids : ∀ id ∈ ids, MIN_USER_SET_METHOD_ID ≤ id ∧ id ≤ MAX_USER_SET_METHOD_ID) :
    UserCodes (ids.map transactCode) := by
  constructor
  · exact hnodup.map transactCode_injective
  · intro code hcode
    obtain ⟨id, hid, rfl⟩ := List.mem_map.mp hcode
    have h := hids id hid
    simp only [MIN_USER_SET_METHOD_ID, MAX_USER_SET_METHOD_ID] at h
    simp only [transactCode, FIRST_CALL_TRANSACTION, LAST_CALL_TRANSACTION]
    omega

theorem counted_nodup {n : Nat} (hn : n ≤ 2 ^ 31) : ((List.range n).map counted).Nodup := by
  have hmap : (List.range n).map counted = (List.range n).map Nat.cast :=
    List.map_congr_left fun i hi => counted_eq (by have := List.mem_range.mp hi; omega)
  rw [hmap]
  exact List.nodup_range.map fun _ _ => Int.ofNat.inj

/-- The numbers of more methods than there are codes leave the range. -/
theorem not_userCodes {n : Nat} (h : 16777215 < n) :
    ¬ UserCodes (((List.range n).map counted).map transactCode) := by
  intro hcodes
  obtain ⟨i, hi⟩ : ∃ i, i = 16777215 := ⟨_, rfl⟩
  have hmem : i ∈ List.range n := List.mem_range.mpr (by omega)
  have hrange := (hcodes.range _ (List.mem_map_of_mem (List.mem_map_of_mem hmem))).2
  rw [counted_eq (by omega)] at hrange
  simp only [transactCode, FIRST_CALL_TRANSACTION, LAST_CALL_TRANSACTION] at hrange
  omega

/-- For every list of methods: the check and the ids are as they should be except where there
are more methods than codes and none has an id. -/
theorem assigned_iff (methods : List (Option Digits)) :
    Assigned methods ↔ methods.length ≤ 16777215 ∨ ∃ m ∈ methods, m ≠ none := by
  constructor
  · intro h
    by_contra hmany
    rw [not_or] at hmany
    have hnone : ∀ m ∈ methods, m = none := by simpa using hmany.2
    exact not_userCodes (by omega) (h.codes _ (assigned_numbered hnone)).2.2
  · intro hfew
    refine ⟨checkAndAssignMethodIds_isSome methods, fun ids hids => ?_⟩
    have hadm : Admissible methods :=
      (checkAndAssignMethodIds_isSome methods).mp (by rw [hids]; rfl)
    rcases hadm with hnone | ⟨ds, rfl, hds⟩
    · have hlen : methods.length ≤ 16777215 := by
        rcases hfew with hlen | ⟨m, hm, hne⟩
        · exact hlen
        · exact absurd (hnone m hm) hne
      rw [assigned_numbered hnone] at hids
      cases hids
      have hnodup := counted_nodup (n := methods.length) (by omega)
      refine ⟨by simp, hnodup, userCodes hnodup ?_⟩
      intro id hid
      obtain ⟨i, hi, rfl⟩ := List.mem_map.mp hid
      have hi := List.mem_range.mp hi
      rw [counted_eq (by omega)]
      simp only [MIN_USER_SET_METHOD_ID, MAX_USER_SET_METHOD_ID]
      omega
    · rw [assigned_written (.inr ⟨ds, rfl, hds⟩)] at hids
      cases hids
      obtain ⟨hnodup, hmax⟩ := admissible_ids.mpr hds
      refine ⟨by simp, hnodup, userCodes hnodup ?_⟩
      intro id hid
      obtain ⟨d, hd, rfl⟩ := List.mem_map.mp hid
      exact ⟨atoi_nonneg d, hmax d hd⟩

/-- What the tool holds for a method, to its end, in bytes: the parser's `method_type`, 176 bytes
in a block of 184 where pointers have 32 bits, and at least five tokens that are never freed, each
in a block of 16. -/
def METHOD_SIZE : Nat := 264

/-- For every list of methods that the parser can have made, in an address space of 32 bits. -/
theorem assigned_parsed (methods : List (Option Digits))
    (hspace : METHOD_SIZE * methods.length ≤ 2 ^ 32) : Assigned methods := by
  have hlen : methods.length ≤ 16777215 := by
    rw [METHOD_SIZE] at hspace
    omega
  exact (assigned_iff methods).mpr (.inl hlen)

theorem assigned_parsed_three :
    METHOD_SIZE * (List.replicate 3 (none : Option Digits)).length ≤ 2 ^ 32 ∧
      Assigned (List.replicate 3 none) :=
  ⟨by decide, assigned_parsed (List.replicate 3 none) (by decide)⟩

end Cdroid.Aidl
