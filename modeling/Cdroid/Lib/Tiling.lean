import Mathlib.Data.List.Basic
import Mathlib.Data.List.Nodup
import Mathlib.Tactic.Tauto

/-! Linked lists of places that cut an interval into tiles: a tile goes from its place to the
next one, or to the end, and is at least `h` long. -/

namespace Cdroid.Lib.Tiling

/-! ## Neighbours -/

section Neighbours
variable {α : Type} [DecidableEq α]

/-- The entry behind `a`. -/
def next? (a : α) : List α → Option α
  | b :: c :: l => if b = a then some c else next? a (c :: l)
  | _ => none

/-- The entry in front of `a`. -/
def prev? (a : α) : List α → Option α
  | b :: c :: l => if c = a then some b else prev? a (c :: l)
  | _ => none

/-- `new` behind `a`. -/
def insertAfter (a new : α) : List α → List α
  | [] => []
  | b :: l => if b = a then b :: new :: l else b :: insertAfter a new l

variable {a : α} {pre post : List α}

theorem next?_append (h : a ∉ pre) : next? a (pre ++ a :: post) = post.head? := by
  induction pre with
  | nil =>
    cases post with
    | nil => rfl
    | cons c post => exact if_pos rfl
  | cons b pre ih =>
    rw [List.mem_cons, not_or] at h
    cases pre with
    | nil =>
      show (if b = a then _ else next? a (a :: post)) = _
      rw [if_neg (Ne.symm h.1)]
      exact ih h.2
    | cons c pre =>
      show (if b = a then _ else next? a (c :: pre ++ a :: post)) = _
      rw [if_neg (Ne.symm h.1)]
      exact ih h.2

theorem prev?_append (h : a ∉ pre) (hpost : a ∉ post) :
    prev? a (pre ++ a :: post) = pre.getLast? := by
  induction pre with
  | nil =>
    have hnone : ∀ l : List α, ∀ b, a ∉ l → prev? a (b :: l) = none := by
      intro l
      induction l with
      | nil =>
        intro b _
        rfl
      | cons c l ih =>
        intro b hl
        rw [List.mem_cons, not_or] at hl
        show (if c = a then _ else prev? a (c :: l)) = _
        rw [if_neg (Ne.symm hl.1)]
        exact ih c hl.2
    exact hnone post a hpost
  | cons b pre ih =>
    rw [List.mem_cons, not_or] at h
    cases pre with
    | nil => exact if_pos rfl
    | cons c pre =>
      have hc : c ≠ a := by
        intro heq
        exact h.2 (heq ▸ List.mem_cons_self)
      show (if c = a then _ else prev? a (c :: pre ++ a :: post)) = _
      rw [if_neg hc, List.getLast?_cons_cons]
      exact ih h.2

theorem insertAfter_append (new : α) (h : a ∉ pre) :
    insertAfter a new (pre ++ a :: post) = pre ++ a :: new :: post := by
  induction pre with
  | nil => exact if_pos rfl
  | cons b pre ih =>
    rw [List.mem_cons, not_or] at h
    show (if b = a then _ else b :: insertAfter a new (pre ++ a :: post)) = _
    rw [if_neg (Ne.symm h.1), ih h.2]
    rfl

omit [DecidableEq α] in
/-- An entry stands nowhere else. -/
theorem not_mem_front (h : (pre ++ a :: post).Nodup) : a ∉ pre ∧ a ∉ post := by
  rw [List.nodup_append, List.nodup_cons] at h
  exact ⟨fun ha => h.2.2 a ha a List.mem_cons_self rfl, h.2.1.1⟩

omit [DecidableEq α] in
theorem ne_of_mem {x : α} (h : (pre ++ a :: post).Nodup) (hx : x ∈ pre ++ post) : x ≠ a := by
  rcases List.mem_append.mp hx with hx | hx
  · exact ne_of_mem_of_not_mem hx (not_mem_front h).1
  · exact ne_of_mem_of_not_mem hx (not_mem_front h).2

omit [DecidableEq α] in
theorem mem_mid {x : α} : x ∈ pre ++ a :: post ↔ x ∈ pre ++ post ∨ x = a := by
  rw [List.mem_append, List.mem_cons, List.mem_append]
  tauto

omit [DecidableEq α] in
/-- The same, of an entry that stands behind another one. -/
theorem mem_behind {b x : α} : x ∈ pre ++ a :: b :: post ↔ x ∈ pre ++ a :: post ∨ x = b := by
  rw [List.append_cons, mem_mid, ← List.append_cons]

omit [DecidableEq α] in
theorem not_mem_behind {b : α} (h : (pre ++ a :: b :: post).Nodup) : b ∉ pre ++ a :: post := by
  rw [List.append_cons] at h ⊢
  exact fun hb => ne_of_mem h hb rfl

theorem erase_append (h : a ∉ pre) : (pre ++ a :: post).erase a = pre ++ post := by
  rw [List.erase_append_right _ h, List.erase_cons_head]

end Neighbours

/-! ## Tiles -/

/-- The places cut the interval from `s` to `e`. -/
def Tiles (h e : Nat) : Nat → List Nat → Prop
  | s, [] => s = e
  | s, a :: l => a = s ∧ ∃ t, a + h ≤ t ∧ Tiles h e t l

/-- Where the tile of `a` ends. -/
def endOf (e : Nat) (l : List Nat) (a : Nat) : Nat := (next? a l).getD e

section
variable {h e s : Nat} {l m : List Nat}

theorem tiles_append : Tiles h e s (l ++ m) ↔ ∃ t, Tiles h t s l ∧ Tiles h e t m := by
  induction l generalizing s with
  | nil =>
    constructor
    · intro hm
      exact ⟨s, rfl, hm⟩
    · rintro ⟨t, rfl, hm⟩
      exact hm
  | cons a l ih =>
    constructor
    · rintro ⟨rfl, u, hu, hl⟩
      obtain ⟨t, hl, hm⟩ := ih.mp hl
      exact ⟨t, ⟨rfl, u, hu, hl⟩, hm⟩
    · rintro ⟨t, ⟨rfl, u, hu, hl⟩, hm⟩
      exact ⟨rfl, u, hu, ih.mpr ⟨t, hl, hm⟩⟩

theorem Tiles.head (ht : Tiles h e s l) : l.headD e = s := by
  cases l with
  | nil => exact ht.symm
  | cons a l => exact ht.1

theorem Tiles.le (ht : Tiles h e s l) : s ≤ e := by
  induction l generalizing s with
  | nil => exact Nat.le_of_eq ht
  | cons a l ih =>
    obtain ⟨rfl, t, hle, hl⟩ := ht
    have hte := ih hl
    omega

/-- Every place has its tile inside of the interval. -/
theorem Tiles.mem_le (ht : Tiles h e s l) {a : Nat} (ha : a ∈ l) : s ≤ a ∧ a + h ≤ e := by
  induction l generalizing s with
  | nil => cases ha
  | cons b l ih =>
    obtain ⟨rfl, t, hle, hl⟩ := ht
    have hte := hl.le
    rcases List.mem_cons.mp ha with rfl | ha
    · omega
    · have hmem := ih hl ha
      omega

/-- Around one of the places. -/
theorem Tiles.split {pre post : List Nat} {a : Nat} (ht : Tiles h e s (pre ++ a :: post)) :
    Tiles h a s pre ∧ a + h ≤ post.headD e ∧ Tiles h e (post.headD e) post := by
  obtain ⟨t, hpre, rfl, u, hle, hpost⟩ := tiles_append.mp ht
  rw [hpost.head]
  exact ⟨hpre, hle, hpost⟩

theorem Tiles.join {pre post : List Nat} {a t : Nat} (hpre : Tiles h a s pre) (hle : a + h ≤ t)
    (hpost : Tiles h e t post) : Tiles h e s (pre ++ a :: post) :=
  tiles_append.mpr ⟨a, hpre, rfl, t, hle, hpost⟩

/-- The places stand in their order, a tile apart at least. -/
theorem Tiles.pairwise (ht : Tiles h e s l) : l.Pairwise fun a b => a + h ≤ b := by
  induction l generalizing s with
  | nil => exact .nil
  | cons a l ih =>
    obtain ⟨rfl, t, hle, hl⟩ := ht
    refine List.pairwise_cons.mpr ⟨?_, ih hl⟩
    intro b hb
    have hmem := hl.mem_le hb
    omega

theorem Tiles.nodup (hh : 0 < h) (ht : Tiles h e s l) : l.Nodup := by
  refine ht.pairwise.imp ?_
  intro a b hab
  omega

/-- A tile in front of a place ends there at the latest, and is followed by others. -/
theorem endOf_append {pre post : List Nat} {a : Nat} (ha : a ∉ pre) :
    endOf e (pre ++ a :: post) a = post.headD e := by
  unfold endOf
  rw [next?_append ha]
  cases post <;> rfl

/-- What stands behind another place does not matter to the tiles in front of it. -/
theorem endOf_pre {pre post post' : List Nat} {a x : Nat} (hnodup : (pre ++ [a]).Nodup)
    (hx : x ∈ pre) : endOf e (pre ++ a :: post) x = endOf e (pre ++ a :: post') x := by
  obtain ⟨u, v, rfl⟩ := List.append_of_mem hx
  have hxu : x ∉ u := by
    rw [List.append_assoc] at hnodup
    exact (not_mem_front hnodup).1
  rw [List.append_assoc, List.append_assoc, List.cons_append, List.cons_append,
    endOf_append hxu, endOf_append hxu]
  cases v <;> rfl

/-- What stands in front of a place does not matter to its tile. -/
theorem endOf_post {pre pre' post : List Nat} {x : Nat} (hx : x ∈ post) (hpre : x ∉ pre)
    (hpre' : x ∉ pre') : endOf e (pre ++ post) x = endOf e (pre' ++ post) x := by
  have hmem : ∃ u v, post = u ++ x :: v ∧ x ∉ u := by
    induction post with
    | nil => cases hx
    | cons b post ih =>
      by_cases hb : x = b
      · exact ⟨[], post, by rw [hb]; rfl, List.not_mem_nil⟩
      · obtain ⟨u, v, rfl, hu⟩ := ih ((List.mem_cons.mp hx).resolve_left hb)
        exact ⟨b :: u, v, rfl, by rw [List.mem_cons, not_or]; exact ⟨hb, hu⟩⟩
  obtain ⟨u, v, rfl, hu⟩ := hmem
  rw [← List.append_assoc, ← List.append_assoc, endOf_append, endOf_append]
  · rw [List.mem_append, not_or]
    exact ⟨hpre', hu⟩
  · rw [List.mem_append, not_or]
    exact ⟨hpre, hu⟩

/-- A new place behind `a` changes the tile of `a` alone. -/
theorem endOf_insert {pre post : List Nat} {a new x : Nat}
    (hnodup : (pre ++ a :: new :: post).Nodup) (hx : x ∈ pre ++ post) :
    endOf e (pre ++ a :: new :: post) x = endOf e (pre ++ a :: post) x := by
  rcases List.mem_append.mp hx with hx | hx
  · refine endOf_pre ?_ hx
    rw [List.append_cons] at hnodup
    exact hnodup.of_append_left
  · rw [List.append_cons, List.append_cons, List.append_cons pre a post] at *
    have hcross := (List.nodup_append.mp hnodup).2.2
    refine endOf_post hx (fun hmem => hcross x hmem x hx rfl) fun hmem => ?_
    exact hcross x (List.mem_append_left _ hmem) x hx rfl

/-- The tiles end where the next ones begin, at the latest. -/
theorem Tiles.endOf_le {pre post : List Nat} (hh : 0 < h) (ht : Tiles h e s (pre ++ post)) {x : Nat}
    (hx : x ∈ pre) : endOf e (pre ++ post) x ≤ post.headD e := by
  obtain ⟨t, hpre, hpost⟩ := tiles_append.mp ht
  obtain ⟨u, v, rfl⟩ := List.append_of_mem hx
  have hxu : x ∉ u := (not_mem_front (hpre.nodup hh)).1
  rw [List.append_assoc, List.cons_append, endOf_append hxu]
  obtain ⟨-, -, hv⟩ := hpre.split
  cases v with
  | nil => exact Nat.le_refl _
  | cons b v =>
    rw [hpost.head]
    exact hv.le

theorem Tiles.endOf_eq {pre post : List Nat} {a : Nat} (hh : 0 < h)
    (ht : Tiles h e s (pre ++ a :: post)) : endOf e (pre ++ a :: post) a = post.headD e :=
  endOf_append (not_mem_front (ht.nodup hh)).1

/-- Every tile is long enough. -/
theorem Tiles.le_endOf (hh : 0 < h) (ht : Tiles h e s l) {x : Nat} (hx : x ∈ l) :
    x + h ≤ endOf e l x := by
  obtain ⟨u, v, rfl⟩ := List.append_of_mem hx
  have hxu : x ∉ u := (not_mem_front (ht.nodup hh)).1
  rw [endOf_append hxu]
  exact ht.split.2.1

/-- Every point of the interval is in a tile. -/
theorem Tiles.covers (hh : 0 < h) (ht : Tiles h e s l) {p : Nat} (hs : s ≤ p) (he : p < e) :
    ∃ a ∈ l, a ≤ p ∧ p < endOf e l a := by
  induction l generalizing s with
  | nil =>
    have hse : s = e := ht
    omega
  | cons a l ih =>
    obtain ⟨rfl, t, hle, hl⟩ := ht
    by_cases hp : p < t
    · refine ⟨a, List.mem_cons_self, hs, ?_⟩
      have hend : endOf e ([] ++ a :: l) a = l.headD e := endOf_append List.not_mem_nil
      rw [List.nil_append] at hend
      rw [hend, hl.head]
      exact hp
    · obtain ⟨b, hb, hle', hlt⟩ := ih hl (by omega)
      refine ⟨b, List.mem_cons_of_mem a hb, hle', ?_⟩
      have hba := hl.mem_le hb
      have hpost : endOf e ([a] ++ l) b = endOf e ([] ++ l) b :=
        endOf_post hb (by rw [List.mem_singleton]; omega) List.not_mem_nil
      rw [List.singleton_append, List.nil_append] at hpost
      rw [hpost]
      exact hlt

end

end Cdroid.Lib.Tiling
