import Mathlib.Data.List.Basic

/-! Registries of things with names: each thing has a full name and a short one, what is
registered first is found first, and a full name is registered once. -/

namespace Cdroid.Lib.Names

variable {α κ : Type} [DecidableEq κ]

/-- The first one of that name. -/
def find (key : α → κ) (names : List α) (n : κ) : Option α :=
  List.find? (fun t => key t = n) names

/-- Nothing is registered twice. -/
def add (key : α → κ) (names : List α) (t : α) : List α :=
  match find key names (key t) with
  | some _ => names
  | none => names ++ [t]

/-- The full name is tried before the short one. -/
def search (full short : α → κ) (names : List α) (n : κ) : Option α :=
  match find full names n with
  | some t => some t
  | none => find short names n

section Find
variable {key : α → κ} {names : List α} {n : κ} {t u : α}

theorem key_of_find (h : find key names n = some u) : key u = n := by
  simpa using List.find?_some h

theorem find_eq_none : find key names n = none ↔ ∀ u ∈ names, key u ≠ n := by
  simp [find]

theorem find_append_of_some (h : find key names n = some u) (l : List α) :
    find key (names ++ l) n = some u := by
  rw [find, List.find?_append]
  rw [find] at h
  rw [h]
  rfl

/-- What is found is found again, whatever is registered behind it. -/
theorem find_add (h : find key names n = some u) (t : α) :
    find key (add key names t) n = some u := by
  rw [add]
  split
  · exact h
  · exact find_append_of_some h [t]

theorem find_adds (h : find key names n = some u) (ts : List α) :
    find key (ts.foldl (add key) names) n = some u := by
  induction ts generalizing names with
  | nil => exact h
  | cons t ts ih => exact ih (find_add h t)

/-- What is new is found by its name. -/
theorem find_adds_self (h : find key names (key t) = none) (ts : List α) :
    find key ((t :: ts).foldl (add key) names) (key t) = some t := by
  rw [List.foldl_cons]
  apply find_adds
  rw [add, h]
  rw [find] at h
  simp [find, List.find?_append, h]

theorem find_of_mem (h : u ∈ names) : ∃ v, find key names (key u) = some v := by
  cases hf : find key names (key u) with
  | some v => exact ⟨v, rfl⟩
  | none => exact absurd rfl (find_eq_none.mp hf u h)

end Find

section Search
variable {full short : α → κ} {names : List α} {n : κ} {t u : α}

/-- The thing is the first one of its short name, and nothing has this for its full name. -/
structure First (full short : α → κ) (names : List α) (t : α) : Prop where
  absent : ∀ u ∈ names, full u ≠ short t
  first : ∃ before own after, names = before ++ own :: after ∧
    (∀ u ∈ before, short u ≠ short t) ∧ short own = short t ∧ full own = full t

/-- The search for the short name of a thing finds the thing. -/
theorem search_own_iff (h : full t ≠ short t) :
    (∃ u, search full short names (short t) = some u ∧ full u = full t) ↔
      First full short names t := by
  rw [search]
  constructor
  · rintro ⟨u, hu, hq⟩
    cases hf : find full names (short t) with
    | some v =>
      -- an exact match is not the thing itself
      rw [hf] at hu
      cases hu
      exact absurd (hq.symm.trans (key_of_find hf)) h
    | none =>
      rw [hf] at hu
      obtain ⟨hn, before, after, e, hb⟩ := List.find?_eq_some_iff_append.mp hu
      constructor
      · exact find_eq_none.mp hf
      · exact ⟨before, u, after, e, by simpa using hb, by simpa using hn, hq⟩
  · rintro ⟨hfull, before, own, after, e, hb, hn, hq⟩
    refine ⟨own, ?_, hq⟩
    rw [find_eq_none.mpr hfull]
    apply List.find?_eq_some_iff_append.mpr
    exact ⟨by simpa using hn, before, after, e, by simpa using hb⟩

/-- What is found by its short name has this name. -/
theorem short_of_search (h : search full short names n = some u) (hq : full u ≠ n) :
    short u = n := by
  rw [search] at h
  cases hf : find full names n with
  | some v =>
    rw [hf] at h
    cases h
    exact absurd (key_of_find hf) hq
  | none =>
    rw [hf] at h
    exact key_of_find h

end Search

/-! ## Lists that are mapped by a partial function -/

variable {β γ : Type}

/-- The images of the elements, one by one. -/
theorem mapM_eq_some {f : β → Option γ} {l : List β} {l' : List γ} (h : l.mapM f = some l') :
    List.Forall₂ (fun a b => f a = some b) l l' := by
  induction l generalizing l' with
  | nil =>
    cases h
    exact .nil
  | cons a l ih =>
    simp only [List.mapM_cons, Option.pure_def, Option.bind_eq_bind, Option.bind_eq_some_iff] at h
    obtain ⟨b, hb, l₁, hl, e⟩ := h
    cases e
    exact .cons hb (ih hl)

theorem exists_of_mem_mapM {f : β → Option γ} {l : List β} {l' : List γ} (h : l.mapM f = some l')
    {b : γ} (hb : b ∈ l') : ∃ a ∈ l, f a = some b := by
  have hf := mapM_eq_some h
  clear h
  induction hf with
  | nil => cases hb
  | cons ha _ ih =>
    rcases List.mem_cons.mp hb with rfl | hb
    · exact ⟨_, List.mem_cons_self, ha⟩
    · obtain ⟨a, hm, e⟩ := ih hb
      exact ⟨a, List.mem_cons_of_mem _ hm, e⟩

theorem getElem?_mapM {f : β → Option γ} {l : List β} {l' : List γ} (h : l.mapM f = some l')
    {i : Nat} {a : β} (ha : l[i]? = some a) : ∃ b, l'[i]? = some b ∧ f a = some b := by
  have hf := mapM_eq_some h
  clear h
  induction hf generalizing i with
  | nil => cases ha
  | cons hb _ ih =>
    cases i with
    | zero =>
      cases ha
      exact ⟨_, rfl, hb⟩
    | succ i => exact ih ha

theorem mapM_isSome {f : β → Option γ} {l : List β} (h : ∀ a ∈ l, ∃ b, f a = some b) :
    ∃ l', l.mapM f = some l' := by
  induction l with
  | nil => exact ⟨[], rfl⟩
  | cons a l ih =>
    simp only [List.mem_cons, forall_eq_or_imp] at h
    obtain ⟨⟨b, hb⟩, h⟩ := h
    obtain ⟨l', hl⟩ := ih h
    refine ⟨b :: l', ?_⟩
    simp [List.mapM_cons, hb, hl]

end Cdroid.Lib.Names
