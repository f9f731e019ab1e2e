import Mathlib.Data.List.Basic

/-! Tables of records that are found by a key, or by a name that not all of them have. No two
records of a table share a key or a name. -/

namespace Cdroid.Lib

structure Table {ν κ μ : Type} (key : ν → κ) (name : ν → Option μ) where
  rows : List ν
  keys : rows.Pairwise fun a b => key a ≠ key b
  names : rows.Pairwise fun a b => ∀ n, name a = some n → name b ≠ some n

namespace Table

variable {ν κ μ : Type} {key : ν → κ} {name : ν → Option μ}

def empty : Table key name := ⟨[], .nil, .nil⟩

variable [DecidableEq κ] [DecidableEq μ] (t : Table key name)

omit [DecidableEq μ] in
/-- The record with the key. -/
def get (k : κ) : Option ν := t.rows.find? fun v => key v = k

omit [DecidableEq κ] in
/-- The record with the name. -/
def lookup (n : μ) : Option ν := t.rows.find? fun v => name v = some n

/-- Neither the key nor the name of the record is taken. -/
def fits (v : ν) : Bool :=
  (t.get (key v)).isNone && (name v).all fun n => (t.lookup n).isNone

/-! ## What is found -/

section Found
variable {t} {k q : κ} {n : μ} {v w : ν}

omit [DecidableEq κ] [DecidableEq μ] in
theorem eq_of_key (hv : v ∈ t.rows) (hw : w ∈ t.rows) (h : key v = key w) : v = w := by
  refine List.Pairwise.forall_of_forall_of_flip (R := fun a b => key a = key b → a = b)
    (fun _ _ _ => rfl) (t.keys.imp fun hab h => absurd h hab) ?_ hv hw h
  exact t.keys.imp fun hab h => absurd h.symm hab

omit [DecidableEq κ] [DecidableEq μ] in
theorem eq_of_name (hv : v ∈ t.rows) (hw : w ∈ t.rows) (hn : name v = some n)
    (h : name w = some n) : v = w := by
  refine List.Pairwise.forall_of_forall_of_flip
    (R := fun a b => name a = some n → name b = some n → a = b)
    (fun _ _ _ _ => rfl) (t.names.imp fun hab h h' => absurd h' (hab n h)) ?_ hv hw hn h
  exact t.names.imp fun hab h h' => absurd h (hab n h')

omit [DecidableEq μ] in
theorem get_eq_some : t.get k = some v ↔ v ∈ t.rows ∧ key v = k := by
  constructor
  · intro h
    exact ⟨List.mem_of_find?_eq_some h, by simpa using List.find?_some h⟩
  · rintro ⟨hv, hk⟩
    obtain ⟨w, hw⟩ := Option.isSome_iff_exists.mp
      (List.find?_isSome (p := fun v => decide (key v = k)).mpr ⟨v, hv, by simpa using hk⟩)
    have hwk : key w = k := by simpa using List.find?_some hw
    rw [eq_of_key hv (List.mem_of_find?_eq_some hw) (hk.trans hwk.symm)]
    exact hw

omit [DecidableEq κ] in
theorem lookup_eq_some : t.lookup n = some v ↔ v ∈ t.rows ∧ name v = some n := by
  constructor
  · intro h
    exact ⟨List.mem_of_find?_eq_some h, by simpa using List.find?_some h⟩
  · rintro ⟨hv, hn⟩
    obtain ⟨w, hw⟩ := Option.isSome_iff_exists.mp
      (List.find?_isSome (p := fun v => decide (name v = some n)).mpr ⟨v, hv, by simpa using hn⟩)
    have hwn : name w = some n := by simpa using List.find?_some hw
    rw [eq_of_name hv (List.mem_of_find?_eq_some hw) hn hwn]
    exact hw

omit [DecidableEq μ] in
theorem key_of_get (h : t.get k = some v) : key v = k := (get_eq_some.mp h).2

/-- What is found by its name is what has the name. -/
theorem lookup_iff_get : t.lookup n = some v ↔ t.get (key v) = some v ∧ name v = some n := by
  rw [lookup_eq_some, get_eq_some]
  exact ⟨fun h => ⟨⟨h.1, rfl⟩, h.2⟩, fun h => ⟨h.1.1, h.2⟩⟩

omit [DecidableEq μ] in
theorem get_eq_none : t.get k = none ↔ ∀ v ∈ t.rows, key v ≠ k := by
  simp [get]

omit [DecidableEq κ] in
theorem lookup_eq_none : t.lookup n = none ↔ ∀ v ∈ t.rows, name v ≠ some n := by
  simp [lookup]

end Found

/-! ## Changes -/

/-- A record that fits is entered. -/
def insert (v : ν) : Table key name :=
  if h : t.fits v then
    { rows := v :: t.rows
      keys := by
        rw [List.pairwise_cons]
        refine ⟨fun w hw hk => ?_, t.keys⟩
        rw [fits, Bool.and_eq_true, Option.isNone_iff_eq_none, get_eq_none] at h
        exact h.1 w hw hk.symm
      names := by
        rw [List.pairwise_cons]
        refine ⟨fun w hw n hn hn' => ?_, t.names⟩
        rw [fits, Bool.and_eq_true, hn, Option.all_some] at h
        exact lookup_eq_none.mp (Option.isNone_iff_eq_none.mp h.2) w hw hn' }
  else t

omit [DecidableEq μ] in
/-- The record with the key is changed, but not its key or its name. -/
def modify (k : κ) (f : ν → ν) (hf : ∀ v, key (f v) = key v ∧ name (f v) = name v) :
    Table key name where
  rows := t.rows.map fun v => if key v = k then f v else v
  keys := by
    rw [List.pairwise_map]
    refine t.keys.imp fun {a b} hab => ?_
    have hkey : ∀ v, key (if key v = k then f v else v) = key v := by
      intro v
      split
      · exact (hf v).1
      · rfl
    rw [hkey, hkey]
    exact hab
  names := by
    rw [List.pairwise_map]
    refine t.names.imp fun {a b} hab => ?_
    have hname : ∀ v, name (if key v = k then f v else v) = name v := by
      intro v
      split
      · exact (hf v).2
      · rfl
    rw [hname, hname]
    exact hab

omit [DecidableEq μ] in
/-- The record with the key is taken out. -/
def erase (k : κ) : Table key name where
  rows := t.rows.filter fun v => key v ≠ k
  keys := t.keys.filter _
  names := t.names.filter _

section Changed
variable {t} {k q : κ} {n : μ} {v : ν} {f : ν → ν}
  {hf : ∀ v, key (f v) = key v ∧ name (f v) = name v}

theorem insert_of_not_fits (h : t.fits v = false) : t.insert v = t := by
  rw [insert, dif_neg (by rw [h]; exact Bool.false_ne_true)]

theorem rows_insert (h : t.fits v = true) : (t.insert v).rows = v :: t.rows := by
  rw [insert, dif_pos h]

theorem get_insert (h : t.fits v = true) :
    (t.insert v).get q = if key v = q then some v else t.get q := by
  rw [get, rows_insert h, List.find?_cons]
  by_cases hq : key v = q <;> simp [hq, get]

omit [DecidableEq μ] in
theorem get_modify : (t.modify k f hf).get q = if q = k then (t.get q).map f else t.get q := by
  have hkey : ((fun v => decide (key v = q)) ∘ fun v => if key v = k then f v else v) =
      fun v => decide (key v = q) := by
    funext v
    rw [Function.comp_apply]
    split
    · rw [(hf v).1]
    · rfl
  rw [get, modify, List.find?_map, hkey]
  change Option.map _ (t.get q) = _
  cases hv : t.get q with
  | none => simp
  | some v =>
    rw [Option.map_some, key_of_get hv]
    split <;> rfl

omit [DecidableEq μ] in
theorem get_erase : (t.erase k).get q = if q = k then none else t.get q := by
  rw [get, erase, List.find?_filter]
  split
  · next h => simp [h]
  · next h =>
    refine congrArg (List.find? · t.rows) (funext fun v => ?_)
    by_cases hv : key v = q
    · simp [hv, h]
    · simp [hv]

end Changed

end Table

end Cdroid.Lib
