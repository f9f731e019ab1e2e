import Cdroid.Binder.ReadBounds
import Cdroid.Lib.Loop
import Mathlib.Data.List.GetD

/-! The search of `readObject` for its position in the object table: the two loops index the
table, start from any hint, come to an end and find what is there. -/

namespace Cdroid.Binder.Memory
open Cdroid.Lib.Blocks Cdroid.Lib.Loop Cdroid.Lib.Trace

/-! ## The loops -/

/-- `while (opos < (N-1) && OBJS[opos] < DPOS) opos++`; an index outside of the table does not
come back. -/
def forwardRound (OBJS : List Nat) (DPOS : Nat) (opos : Nat) : Option (Nat ⊕ Nat) :=
  if opos < OBJS.length - 1 then
    OBJS[opos]?.map fun o => if o < DPOS then .inl (opos + 1) else .inr opos
  else some (.inr opos)

/-- `while (opos > 0 && OBJS[opos] > DPOS) opos--` -/
def backwardRound (OBJS : List Nat) (DPOS : Nat) (opos : Nat) : Option (Nat ⊕ Nat) :=
  if 0 < opos then
    OBJS[opos]?.map fun o => if DPOS < o then .inl (opos - 1) else .inr opos
  else some (.inr opos)

/-- The search, with at most `n` rounds of each loop: the index of the object, if it is found. -/
def searchObject (n : Nat) (OBJS : List Nat) (DPOS hint : Nat) : Option (Option Nat) :=
  let N := OBJS.length
  if 0 < N then do
    let opos ← (if hint < N then loop (forwardRound OBJS DPOS) n hint else some (N - 1))
    if (← OBJS[opos]?) = DPOS then some (some opos)
    else
      let opos ← loop (backwardRound OBJS DPOS) n opos
      if (← OBJS[opos]?) = DPOS then some (some opos) else some none
  else some none

/-- The object, if it is in the table, and the hint behind it. -/
def foundObject (obj : flat_binder_object) (c : Cursor) :
    Option Nat → Option flat_binder_object × Cursor
  | some opos => (some obj, { c with mNextObjectHint := opos + 1 })
  | none => (none, c)

/-- `readObject`, with at most `n` rounds of each loop -/
def Received.readObjectWithin (d : Received) (n : Nat) (nullMetaData : Bool) (c : Cursor) :
    Option (Option flat_binder_object × Cursor) :=
  let DPOS := c.mDataPos
  if DPOS + 16 ≤ d.mDataSize then
    let obj := flat_binder_object.ofBytes (d.bytesAt DPOS.toNat 16)
    let c := { c with mDataPos := DPOS + 16 }
    if nullMetaData = false ∧ obj.cookie = 0 ∧ obj.binder = 0 then some (some obj, c)
    else
      (searchObject n (d.mObjects.map (·.toNat)) DPOS.toNat c.mNextObjectHint).map
        (foundObject obj c)
  else some (none, c)

/-! ## They come to an end -/

section Loops
variable {objs : List Nat} {dpos opos n : Nat}

theorem getElem?_eq_getD (h : opos < objs.length) : objs[opos]? = some (objs.getD opos 0) := by
  rw [List.getD_eq_getElem?_getD, List.getElem?_eq_getElem h, Option.getD_some]

/-- The forward search stays inside of the table, and takes a round for each step and one to
leave. -/
theorem forward_loop {m : Nat} (hopos : opos < objs.length) (hn : objs.length - 1 - opos ≤ n)
    (hm : objs.length - 1 - opos ≤ m) :
    loop (forwardRound objs dpos) (n + 1) opos = some (searchForward objs dpos m opos) ∧
      searchForward objs dpos m opos < objs.length := by
  induction m generalizing n opos with
  | zero =>
    refine ⟨loop_leave ?_ n, hopos⟩
    exact if_neg (by omega)
  | succ m ih =>
    unfold searchForward
    have hround : forwardRound objs dpos opos =
        some (if opos < objs.length - 1 ∧ objs.getD opos 0 < dpos then .inl (opos + 1)
          else .inr opos) := by
      unfold forwardRound
      rw [getElem?_eq_getD hopos]
      by_cases hlast : opos < objs.length - 1
      · simp [hlast]
      · simp [hlast]
    split at hround
    · next hgo =>
      rw [if_pos hgo, loop_next hround]
      obtain ⟨k, rfl⟩ : ∃ k, n = k + 1 := ⟨n - 1, by omega⟩
      exact ih (by omega) (by omega) (by omega)
    · next hstop =>
      rw [if_neg hstop, loop_leave hround]
      exact ⟨rfl, hopos⟩

theorem backward_loop (dpos : Nat) (hopos : opos < objs.length) (hn : opos ≤ n) :
    loop (backwardRound objs dpos) (n + 1) opos = some (searchBackward objs dpos opos) ∧
      searchBackward objs dpos opos ≤ opos := by
  induction opos generalizing n with
  | zero => exact ⟨loop_leave rfl n, Nat.le_refl 0⟩
  | succ opos ih =>
    unfold searchBackward
    have hround : backwardRound objs dpos (opos + 1) =
        some (if dpos < objs.getD (opos + 1) 0 then .inl opos else .inr (opos + 1)) := by
      unfold backwardRound
      rw [if_pos (Nat.succ_pos opos), getElem?_eq_getD hopos]
      rfl
    split at hround
    · next hgo =>
      rw [if_pos hgo, loop_next hround]
      obtain ⟨m, rfl⟩ : ∃ m, n = m + 1 := ⟨n - 1, by omega⟩
      obtain ⟨hloop, hle⟩ := ih (n := m) (by omega) (by omega)
      exact ⟨hloop, by omega⟩
    · next hstop =>
      rw [if_neg hstop, loop_leave hround]
      exact ⟨rfl, Nat.le_refl _⟩

/-- More rounds than there are entries are enough, and no index is outside of the table. -/
theorem searchObject_eq (hn : objs.length < n) (dpos hint : Nat) :
    searchObject n objs dpos hint = some (findObject objs hint dpos) := by
  obtain ⟨m, rfl⟩ : ∃ m, n = m + 1 := ⟨n - 1, by omega⟩
  unfold searchObject findObject
  by_cases hempty : objs.length = 0
  · rw [if_neg (by omega), if_pos hempty]
  · rw [if_pos (Nat.pos_of_ne_zero hempty), if_neg hempty]
    have hstart : (if hint < objs.length then loop (forwardRound objs dpos) (m + 1) hint
          else some (objs.length - 1)) =
        some (if hint < objs.length then searchForward objs dpos objs.length hint
          else objs.length - 1) := by
      split
      · next hhint => exact (forward_loop hhint (by omega) (by omega)).1
      · rfl
    have hinside : (if hint < objs.length then searchForward objs dpos objs.length hint
        else objs.length - 1) < objs.length := by
      split
      · next hhint => exact (forward_loop hhint (n := m) (by omega) (by omega)).2
      · omega
    rw [hstart]
    generalize (if hint < objs.length then searchForward objs dpos objs.length hint
      else objs.length - 1) = opos at hinside ⊢
    obtain ⟨hloop, hle⟩ := backward_loop dpos hinside (n := m) (by omega)
    dsimp only [Option.bind_eq_bind, Option.bind_some]
    rw [getElem?_eq_getD hinside, hloop]
    dsimp only [Option.bind_some]
    rw [getElem?_eq_getD (Nat.lt_of_le_of_lt hle hinside)]
    dsimp only [Option.bind_some]
    split
    · rfl
    · split <;> rfl

/-! ## They find what is there -/

/-- The forward search stops at an offset that is not below, or at the last. -/
theorem searchForward_stop (hopos : opos < objs.length) (hn : objs.length - 1 - opos ≤ n) :
    searchForward objs dpos n opos = objs.length - 1 ∨
      dpos ≤ objs.getD (searchForward objs dpos n opos) 0 := by
  induction n generalizing opos with
  | zero =>
    refine Or.inl ?_
    unfold searchForward
    omega
  | succ n ih =>
    unfold searchForward
    split
    · exact ih (by omega) (by omega)
    · omega

/-- What the backward search has passed is above, and where it stops is not, or is the first. -/
theorem searchBackward_spec (objs : List Nat) (dpos opos : Nat) :
    (∀ i, searchBackward objs dpos opos < i → i ≤ opos → dpos < objs.getD i 0) ∧
      (searchBackward objs dpos opos = 0 ∨
        objs.getD (searchBackward objs dpos opos) 0 ≤ dpos) := by
  induction opos with
  | zero => exact ⟨fun i hlt hle => absurd hlt (Nat.not_lt.mpr hle), Or.inl rfl⟩
  | succ opos ih =>
    unfold searchBackward
    split
    · next hgo =>
      obtain ⟨hpassed, hstop⟩ := ih
      refine ⟨fun i hlt hle => ?_, hstop⟩
      rcases Nat.eq_or_lt_of_le hle with rfl | hlt'
      · exact hgo
      · exact hpassed i hlt (by omega)
    · next hstop =>
      exact ⟨fun i hlt hle => absurd hlt (Nat.not_lt.mpr hle), Or.inr (Nat.not_lt.mp hstop)⟩

theorem getD_lt (hsorted : objs.Pairwise (· < ·)) {i j : Nat} (hij : i < j)
    (hj : j < objs.length) : objs.getD i 0 < objs.getD j 0 := by
  rw [List.getD_eq_getElem _ _ (hij.trans hj), List.getD_eq_getElem _ _ hj]
  exact List.pairwise_iff_getElem.mp hsorted i j _ _ hij

/-- The forward search does not stop before the index of `dpos`, and the backward one stops
there. -/
theorem searches_find {k j : Nat} (hsorted : objs.Pairwise (· < ·)) (hk : k < objs.length)
    (hat : objs.getD k 0 = dpos) (hj : j < objs.length)
    (hstop : j = objs.length - 1 ∨ dpos ≤ objs.getD j 0) :
    k ≤ j ∧ searchBackward objs dpos j = k := by
  have hkj : k ≤ j := by
    by_contra hlt
    have hbelow := getD_lt hsorted (Nat.not_le.mp hlt) hk
    omega
  obtain ⟨habove, hback⟩ := searchBackward_spec objs dpos j
  have hle := (backward_loop dpos hj (Nat.le_refl j)).2
  refine ⟨hkj, ?_⟩
  rcases Nat.lt_trichotomy (searchBackward objs dpos j) k with hlt | heq | hgt
  · have hpast := habove k hlt hkj
    omega
  · exact heq
  · have hlt := getD_lt hsorted hgt (by omega)
    omega

/-- From any hint, an offset of an ascending table is found at its index. -/
theorem findObject_iff (hsorted : objs.Pairwise (· < ·)) (hint k : Nat) :
    findObject objs hint dpos = some k ↔ k < objs.length ∧ objs.getD k 0 = dpos := by
  unfold findObject
  by_cases hempty : objs.length = 0
  · rw [if_pos hempty]
    constructor
    · intro h
      cases h
    · omega
  rw [if_neg hempty]
  have hstart : (if hint < objs.length then searchForward objs dpos objs.length hint
        else objs.length - 1) < objs.length ∧
      ((if hint < objs.length then searchForward objs dpos objs.length hint
        else objs.length - 1) = objs.length - 1 ∨ dpos ≤ objs.getD
          (if hint < objs.length then searchForward objs dpos objs.length hint
            else objs.length - 1) 0) := by
    split
    · next hhint =>
      exact ⟨(forward_loop hhint (Nat.le_refl _) (by omega)).2,
        searchForward_stop hhint (by omega)⟩
    · exact ⟨by omega, Or.inl rfl⟩
  generalize (if hint < objs.length then searchForward objs dpos objs.length hint
    else objs.length - 1) = opos at hstart ⊢
  obtain ⟨hinside, hstop⟩ := hstart
  have hle := (backward_loop dpos hinside (Nat.le_refl opos)).2
  dsimp only
  constructor
  · intro h
    split at h
    · next hat =>
      cases h
      exact ⟨hinside, hat⟩
    · split at h
      · next hat =>
        cases h
        exact ⟨Nat.lt_of_le_of_lt hle hinside, hat⟩
      · cases h
  · rintro ⟨hk, hat⟩
    obtain ⟨hkj, hback⟩ := searches_find hsorted hk hat hinside hstop
    split
    · next hhere =>
      rcases Nat.eq_or_lt_of_le hkj with rfl | hlt
      · rfl
      · have habove := getD_lt hsorted hlt hinside
        omega
    · rw [hback, if_pos hat]

end Loops

/-! ## `readObject` -/

section
variable {d : Received} {c : Cursor} {n : Nat}

/-- The loops come to what `readObject` comes to. -/
theorem readObject_loops (hn : d.mObjects.length < n) (nullMetaData : Bool) :
    wp (fun _ => True) (d.readObject nullMetaData)
      (fun r c' => d.readObjectWithin n nullMetaData c = some (r, c')) c := by
  have hlength : (d.mObjects.map (·.toNat)).length < n := by rwa [List.length_map]
  have hsearch := searchObject_eq hlength c.mDataPos.toNat c.mNextObjectHint
  unfold Received.readObjectWithin
  dsimp only
  rw [hsearch]
  simp only [Received.readObject, wp_bind, wp_get, wp_ite]
  by_cases hroom : c.mDataPos + 16 ≤ d.mDataSize
  · simp only [if_pos hroom, Received.look, wp_emit]
    refine ⟨trivial, ?_⟩
    split
    · simp only [wp_set, wp_pure]
    · cases findObject (d.mObjects.map (·.toNat)) c.mNextObjectHint c.mDataPos.toNat <;>
        simp only [wp_bind, wp_set, wp_pure] <;> rfl
  · rw [if_neg hroom, if_neg hroom, wp_pure]

/-- The object at a position. -/
def Received.objectAt (d : Received) (pos : size_t) : flat_binder_object :=
  flat_binder_object.ofBytes (d.bytesAt pos.toNat 16)

theorem mem_objects (hsorted : d.mObjects.Pairwise fun a b => a.toNat < b.toNat) (hint : Nat) :
    (findObject (d.mObjects.map (·.toNat)) hint c.mDataPos.toNat).isSome ↔
      c.mDataPos ∈ d.mObjects := by
  rw [Option.isSome_iff_exists]
  simp only [findObject_iff (List.pairwise_map.mpr hsorted)]
  constructor
  · rintro ⟨k, hk, hat⟩
    rw [List.getD_eq_getElem _ _ hk, List.getElem_map] at hat
    rw [← BitVec.eq_of_toNat_eq hat]
    exact List.getElem_mem _
  · intro hmem
    obtain ⟨k, hk, hat⟩ := List.getElem_of_mem hmem
    refine ⟨k, by rwa [List.length_map], ?_⟩
    rw [List.getD_eq_getElem _ _ (by rwa [List.length_map]), List.getElem_map, hat]

/-- **Object lookup.** The search comes to an end inside of the table, from any hint, and the
object is returned exactly if it is in the table or is the null object. -/
theorem readObject_iff (d : Received) (c : Cursor) (n : Nat)
    (hsorted : d.mObjects.Pairwise fun a b => a.toNat < b.toNat)
    (hroom : c.mDataPos.toNat + 16 ≤ d.mDataSize.toNat) (hn : d.mObjects.length < n) :
    ∃ r c', d.readObjectWithin n false c = some (r, c') ∧
      (r.isSome ↔ c.mDataPos ∈ d.mObjects ∨
        ((d.objectAt c.mDataPos).cookie = 0 ∧ (d.objectAt c.mDataPos).binder = 0)) ∧
      (∀ obj, r = some obj → obj = d.objectAt c.mDataPos) ∧ c'.mDataPos = c.mDataPos + 16 := by
  have hlength : (d.mObjects.map (·.toNat)).length < n := by rwa [List.length_map]
  have hsearch := searchObject_eq hlength c.mDataPos.toNat c.mNextObjectHint
  have hmem := mem_objects (c := c) hsorted c.mNextObjectHint
  unfold Received.readObjectWithin
  dsimp only
  rw [hsearch, if_pos (by bv_omega), Option.map_some]
  change ∃ r c', (if false = false ∧ (d.objectAt c.mDataPos).cookie = 0 ∧
    (d.objectAt c.mDataPos).binder = 0 then _ else _) = some (r, c') ∧ _
  split
  · next hnull =>
    exact ⟨_, _, rfl, ⟨fun _ => Or.inr hnull.2, fun _ => rfl⟩, fun _ h => (Option.some.inj h).symm,
      rfl⟩
  · next hnull =>
    have hnot : ¬((d.objectAt c.mDataPos).cookie = 0 ∧ (d.objectAt c.mDataPos).binder = 0) :=
      fun h => hnull ⟨rfl, h⟩
    cases hfind : findObject (d.mObjects.map (·.toNat)) c.mNextObjectHint c.mDataPos.toNat with
    | none =>
      rw [hfind] at hmem
      refine ⟨_, _, rfl, ⟨fun h => (by cases h), ?_⟩, fun _ h => (by cases h), rfl⟩
      rintro (hin | hzero)
      · exact hmem.mpr hin
      · exact absurd hzero hnot
    | some opos =>
      rw [hfind] at hmem
      exact ⟨_, _, rfl, ⟨fun _ => Or.inl (hmem.mp rfl), fun _ => rfl⟩,
        fun _ h => (Option.some.inj h).symm, rfl⟩

/-- Two handles, of which the second one is looked for with a hint behind the table. -/
def twoHandles : Received where
  mData := ofList (List.replicate 8 1 ++ List.replicate 8 0 ++ List.replicate 8 2 ++
    List.replicate 8 0)
  mDataSize := 32
  mObjects := [0, 16]
  addressable := Nat.le_of_ble_eq_true rfl

theorem twoHandles_found :
    ∃ r c', twoHandles.readObjectWithin 3 false ⟨16, 9⟩ = some (r, c') ∧ r.isSome := by
  obtain ⟨r, c', hread, hsome, -⟩ :=
    readObject_iff twoHandles ⟨16, 9⟩ 3 (by decide) (by decide) (by decide)
  exact ⟨r, c', hread, hsome.mpr (Or.inl (by decide))⟩

end

end Cdroid.Binder.Memory
