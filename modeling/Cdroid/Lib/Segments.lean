import Mathlib.Data.List.Basic

/-! Lists of segments that follow one another. `lo` and `hi` are where a segment begins and
where it ends. -/

namespace Cdroid.Lib.Segments

variable {α : Type} (lo hi : α → Nat)

/-- The segments cut the interval from `s` to `e`. -/
def Cuts (e : Nat) : Nat → List α → Prop
  | s, [] => s = e
  | s, a :: l => lo a = s ∧ lo a ≤ hi a ∧ Cuts e (hi a) l

variable {lo hi} {s e : Nat} {l m : List α}

theorem cuts_append : Cuts lo hi e s (l ++ m) ↔ ∃ t, Cuts lo hi t s l ∧ Cuts lo hi e t m := by
  induction l generalizing s with
  | nil =>
    constructor
    · intro hm
      exact ⟨s, rfl, hm⟩
    · rintro ⟨t, rfl, hm⟩
      exact hm
  | cons a l ih =>
    constructor
    · rintro ⟨rfl, hle, hl⟩
      obtain ⟨t, hl, hm⟩ := ih.mp hl
      exact ⟨t, ⟨rfl, hle, hl⟩, hm⟩
    · rintro ⟨t, ⟨rfl, hle, hl⟩, hm⟩
      exact ⟨rfl, hle, ih.mpr ⟨t, hl, hm⟩⟩

theorem Cuts.le (h : Cuts lo hi e s l) : s ≤ e := by
  induction l generalizing s with
  | nil => exact Nat.le_of_eq h
  | cons a l ih =>
    obtain ⟨rfl, hle, hl⟩ := h
    exact Nat.le_trans hle (ih hl)

/-- Segments may be put for others that cut the same interval. -/
theorem Cuts.replace {pre mid mid' post : List α}
    (hmid : ∀ t u, u ≤ e → Cuts lo hi u t mid → Cuts lo hi u t mid')
    (h : Cuts lo hi e s (pre ++ (mid ++ post))) : Cuts lo hi e s (pre ++ (mid' ++ post)) := by
  obtain ⟨t, hpre, h⟩ := cuts_append.mp h
  obtain ⟨u, h, hpost⟩ := cuts_append.mp h
  exact cuts_append.mpr ⟨t, hpre, cuts_append.mpr ⟨u, hmid t u hpost.le h, hpost⟩⟩

theorem Cuts.mem (h : Cuts lo hi e s l) {a : α} (ha : a ∈ l) :
    s ≤ lo a ∧ lo a ≤ hi a ∧ hi a ≤ e := by
  induction l generalizing s with
  | nil => cases ha
  | cons b l ih =>
    obtain ⟨rfl, hle, hl⟩ := h
    rcases List.mem_cons.mp ha with rfl | ha
    · exact ⟨Nat.le_refl _, hle, hl.le⟩
    · obtain ⟨hlo, hrest⟩ := ih hl ha
      exact ⟨Nat.le_trans hle hlo, hrest⟩

/-- The segments stand in their order. -/
theorem Cuts.pairwise (h : Cuts lo hi e s l) : l.Pairwise fun a b => hi a ≤ lo b := by
  induction l generalizing s with
  | nil => exact .nil
  | cons a l ih =>
    obtain ⟨rfl, hle, hl⟩ := h
    exact List.pairwise_cons.mpr ⟨fun b hb => (hl.mem hb).1, ih hl⟩

/-- Every point of the interval is in a segment. -/
theorem Cuts.covers (h : Cuts lo hi e s l) {p : Nat} (hs : s ≤ p) (he : p < e) :
    ∃ a ∈ l, lo a ≤ p ∧ p < hi a := by
  induction l generalizing s with
  | nil =>
    have hse : s = e := h
    omega
  | cons a l ih =>
    obtain ⟨rfl, hle, hl⟩ := h
    by_cases hp : p < hi a
    · exact ⟨a, List.mem_cons_self, hs, hp⟩
    · obtain ⟨b, hb, hin⟩ := ih hl (Nat.le_of_not_lt hp)
      exact ⟨b, List.mem_cons_of_mem a hb, hin⟩

/-- No point is in two of them. -/
theorem Cuts.unique (h : Cuts lo hi e s l) {a b : α} {p : Nat} (ha : a ∈ l) (hb : b ∈ l)
    (hap : lo a ≤ p ∧ p < hi a) (hbp : lo b ≤ p ∧ p < hi b) : a = b := by
  induction l generalizing s with
  | nil => cases ha
  | cons c l ih =>
    obtain ⟨rfl, hle, hl⟩ := h
    rcases List.mem_cons.mp ha with rfl | ha' <;> rcases List.mem_cons.mp hb with rfl | hb'
    · rfl
    · have hlo := (hl.mem hb').1
      omega
    · have hlo := (hl.mem ha').1
      omega
    · exact ih hl ha' hb'

end Cdroid.Lib.Segments
