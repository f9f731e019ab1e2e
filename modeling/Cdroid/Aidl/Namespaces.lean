import Cdroid.Aidl.Language
import Cdroid.Lib.Substitution

/-! The namespaces that the generated C++ opens and closes for a package. The name with a
`::` for each dot goes through two loops, one for either end of the file. Both look for a
single colon and take two characters away from there. Positions are counted without the
bound of the `int` they are kept in. -/

namespace Cdroid.Aidl
open Cdroid.Runtime Cdroid.Lib.Loop Cdroid.Lib.Substitution

def dot : UInt8 := byte '.'
def colon : UInt8 := byte ':'

/-! ## The loops of the generator -/

/-- `package2namespace`, round by round. -/
def package2namespaceLoop (package : String8) : Option String8 :=
  (loop (substitute dot 1 (ascii "::") ([] : String8)) (package.count dot + 1)
    (package, [])).map (·.1)

def namespace2hierarchyBegin (ns : String8) : Option String8 :=
  (loop (substitute colon 2 (ascii " \x7b\nnamespace ") ([] : String8)) (ns.count colon + 1)
    (ns, [])).map fun s => ascii "namespace " ++ s.1 ++ ascii "\x7b\n"

def namespace2hierarchyEnd (ns : String8) : Option String8 :=
  (loop (substitute colon 2 [] (ascii "\x7d;\n")) (ns.count colon + 1)
    (ns, ascii "\x7d;\n")).map (·.2)

/-! ## What they are for -/

/-- The components of a package, between its dots. -/
def components (package : String8) : List String8 := package.splitOn dot

/-- One namespace opened in the other. -/
def openings : List String8 → String8
  | [] => []
  | [c] => ascii "namespace " ++ c ++ ascii "\x7b\n"
  | c :: cs => ascii "namespace " ++ c ++ ascii " \x7b\n" ++ openings cs

/-- One brace for each namespace. -/
def closings (cs : List String8) : String8 := cs.flatMap fun _ => ascii "\x7d;\n"

/-- The texts at the two ends of the file open and close the components of the package. -/
def Nests (package : String8) : Prop :=
  ∃ ns, package2namespaceLoop package = some ns ∧
    namespace2hierarchyBegin ns = some (openings (components package)) ∧
    namespace2hierarchyEnd ns = some (closings (components package))

/-! ## Components -/

theorem not_mem_splitOn (c : UInt8) (s : String8) : ∀ l ∈ s.splitOn c, c ∉ l := by
  induction s with
  | nil => simp
  | cons x s ih =>
    rw [List.splitOn_cons_eq_if_modifyHead]
    by_cases hx : x = c
    · rw [if_pos (beq_iff_eq.mpr hx)]
      intro l hl
      rcases List.mem_cons.mp hl with rfl | hl
      · exact List.not_mem_nil
      · exact ih l hl
    · rw [if_neg (by simpa using hx)]
      cases hs : s.splitOn c with
      | nil => exact absurd hs (List.splitOn_ne_nil c s)
      | cons d ds =>
        rw [hs] at ih
        intro l hl
        rw [List.modifyHead_cons] at hl
        rcases List.mem_cons.mp hl with rfl | hl
        · simpa using ⟨fun h => hx h.symm, ih d List.mem_cons_self⟩
        · exact ih l (List.mem_cons_of_mem d hl)

theorem intercalate_cons_eq (sep c : String8) (cs : List String8) :
    sep.intercalate (c :: cs) = c ++ cs.flatMap (sep ++ ·) := by
  induction cs generalizing c with
  | nil => simp
  | cons d ds ih => simp [ih]

/-- A package is its first component and the others, each behind a dot. -/
theorem exists_components (package : String8) :
    ∃ c cs, components package = c :: cs ∧ package = c ++ cs.flatMap ([dot] ++ ·) ∧
      dot ∉ c ∧ ∀ l ∈ cs, dot ∉ l := by
  obtain ⟨c, cs, hcs⟩ := List.exists_cons_of_ne_nil (List.splitOn_ne_nil dot package)
  have hmem := not_mem_splitOn dot package
  have hjoin : [dot].intercalate (package.splitOn dot) = package := List.intercalate_splitOn dot
  rw [hcs] at hmem hjoin
  rw [intercalate_cons_eq] at hjoin
  exact ⟨c, cs, hcs, hjoin.symm, hmem c List.mem_cons_self,
    fun l hl => hmem l (List.mem_cons_of_mem c hl)⟩

theorem openings_cons (c : String8) (cs : List String8) :
    openings (c :: cs) = ascii "namespace " ++
      (c ++ cs.flatMap (ascii " \x7b\nnamespace " ++ ·)) ++ ascii "\x7b\n" := by
  induction cs generalizing c with
  | nil => simp [openings]
  | cons d ds ih =>
    rw [openings, ih d]
    · have hsplit : ascii " \x7b\nnamespace " = ascii " \x7b\n" ++ ascii "namespace " := rfl
      simp only [List.flatMap_cons, hsplit, List.append_assoc]
    · simp

theorem mem_openings {b : UInt8} {c l : String8} {cs : List String8} (hl : l ∈ c :: cs)
    (hb : b ∈ l) : b ∈ openings (c :: cs) := by
  rw [openings_cons]
  rcases List.mem_cons.mp hl with rfl | hl
  · simp [hb]
  · have : b ∈ cs.flatMap (ascii " \x7b\nnamespace " ++ ·) :=
      List.mem_flatMap.mpr ⟨l, hl, List.mem_append_right _ hb⟩
    simp [this]

/-! ## What the loops make of the components -/

/-- A separator has its first character, so the marks are enough rounds. -/
theorem length_le_count (b : UInt8) (u p : String8) (cs : List String8) :
    cs.length < (p ++ cs.flatMap (b :: u ++ ·)).count b + 1 := by
  have hcs : cs.length ≤ (cs.flatMap (b :: u ++ ·)).count b := by
    induction cs with
    | nil => simp
    | cons c cs ih =>
      simp only [List.flatMap_cons, List.count_append, List.count_cons_self, List.length_cons]
      omega
  rw [List.count_append]
  omega

theorem package2namespaceLoop_eq {c : String8} {cs : List String8} (hc : dot ∉ c)
    (hcs : ∀ l ∈ cs, dot ∉ l) :
    package2namespaceLoop (c ++ cs.flatMap ([dot] ++ ·)) =
      some (c ++ cs.flatMap (ascii "::" ++ ·)) := by
  have hmark : dot ∉ ascii "::" := by decide
  have hloop := loop_join (u := []) (n := 1) (r := []) ([] : String8) hmark rfl hcs hc
    (length_le_count dot [] c cs)
  exact congrArg (Option.map _) hloop

theorem namespace2hierarchyBegin_eq {c : String8} {cs : List String8} (hc : colon ∉ c)
    (hcs : ∀ l ∈ cs, colon ∉ l) :
    namespace2hierarchyBegin (c ++ cs.flatMap (ascii "::" ++ ·)) = some (openings (c :: cs)) := by
  have hmark : colon ∉ ascii " \x7b\nnamespace " := by decide
  have hloop := loop_join (u := [colon]) (n := 2) (r := []) ([] : String8) hmark rfl hcs hc
    (length_le_count colon [colon] c cs)
  rw [namespace2hierarchyBegin, openings_cons]
  exact congrArg (Option.map _) hloop

theorem namespace2hierarchyEnd_eq {c : String8} {cs : List String8} (hc : colon ∉ c)
    (hcs : ∀ l ∈ cs, colon ∉ l) :
    namespace2hierarchyEnd (c ++ cs.flatMap (ascii "::" ++ ·)) = some (closings (c :: cs)) := by
  have hloop := loop_join (u := [colon]) (n := 2) (t := []) (r := ascii "\x7d;\n")
    (ascii "\x7d;\n") List.not_mem_nil rfl hcs hc
    (length_le_count colon [colon] c cs)
  exact congrArg (Option.map _) hloop

/-- The two forms of the function are one. -/
theorem package2namespaceLoop_package (package : String8) :
    package2namespaceLoop package = some (package2namespace package) := by
  obtain ⟨c, cs, -, hpackage, hc, hcs⟩ := exists_components package
  have hkeep : ∀ s : String8, dot ∉ s → package2namespace s = s := by
    intro s hs
    induction s with
    | nil => rfl
    | cons b s ih =>
      have hb : b ≠ byte '.' := fun h => hs (h ▸ List.mem_cons_self)
      have htail := ih fun h => hs (List.mem_cons_of_mem b h)
      rw [package2namespace] at htail ⊢
      rw [List.flatMap_cons, if_neg hb, htail]
      rfl
  have hparts : ∀ ds : List String8, (∀ l ∈ ds, dot ∉ l) →
      package2namespace (ds.flatMap ([dot] ++ ·)) = ds.flatMap (ascii "::" ++ ·) := by
    intro ds hds
    induction ds with
    | nil => rfl
    | cons d ds ih =>
      have hd := hkeep d (hds d List.mem_cons_self)
      have htail := ih fun l hl => hds l (List.mem_cons_of_mem d hl)
      rw [package2namespace] at hd htail ⊢
      simp only [List.flatMap_cons, List.flatMap_append, hd, htail]
      rfl
  rw [hpackage, package2namespaceLoop_eq hc hcs]
  have hc' := hkeep c hc
  have hcs' := hparts cs hcs
  rw [package2namespace] at hc' hcs' ⊢
  rw [List.flatMap_append, hc', hcs']

/-- For every text both loops end. -/
theorem namespace2hierarchy_ends (ns : String8) :
    (∃ s, namespace2hierarchyBegin ns = some s) ∧ ∃ s, namespace2hierarchyEnd ns = some s := by
  have hmark : colon ∉ ascii " \x7b\nnamespace " := by decide
  constructor
  · obtain ⟨s, r, h⟩ := loop_total (n := 2) (r := []) ([] : String8) hmark
      Nat.two_pos (ns.count colon + 1) (Nat.lt_succ_self _)
    exact ⟨_, congrArg (Option.map _) h⟩
  · obtain ⟨s, r, h⟩ := loop_total (n := 2) (t := []) (r := ascii "\x7d;\n")
      (ascii "\x7d;\n") List.not_mem_nil Nat.two_pos (ns.count colon + 1) (Nat.lt_succ_self _)
    exact ⟨_, congrArg (Option.map _) h⟩

/-- What is opened never has a colon in it. -/
theorem colon_not_mem_begin {ns s : String8} (h : namespace2hierarchyBegin ns = some s) :
    colon ∉ s := by
  rw [namespace2hierarchyBegin, Option.map_eq_some_iff] at h
  obtain ⟨⟨t, r⟩, hloop, rfl⟩ := h
  have ht := not_mem_of_loop hloop
  have hfirst : colon ∉ ascii "namespace " := by decide
  have hlast : colon ∉ ascii "\x7b\n" := by decide
  simp [ht, hfirst, hlast]

/-- The texts nest the components of a package exactly when none of them has a colon: a
single colon is taken for the two between components, with the character behind it. -/
theorem nests_iff (package : String8) : Nests package ↔ ∀ l ∈ components package, colon ∉ l := by
  obtain ⟨c, cs, hcomp, hpackage, hc, hcs⟩ := exists_components package
  rw [hcomp]
  constructor
  · rintro ⟨ns, -, hbegin, -⟩ l hl hcolon
    rw [hcomp] at hbegin
    exact colon_not_mem_begin hbegin (mem_openings hl hcolon)
  · intro hnone
    have hc' : colon ∉ c := hnone c List.mem_cons_self
    have hcs' : ∀ l ∈ cs, colon ∉ l := fun l hl => hnone l (List.mem_cons_of_mem c hl)
    refine ⟨c ++ cs.flatMap (ascii "::" ++ ·), ?_, ?_, ?_⟩
    · rw [hpackage]
      exact package2namespaceLoop_eq hc hcs
    · rw [hcomp]
      exact namespace2hierarchyBegin_eq hc' hcs'
    · rw [hcomp]
      exact namespace2hierarchyEnd_eq hc' hcs'

/-- Of `a:b` the second name is lost, and one more namespace is opened than the package has
components. -/
theorem not_nests_single_colon : packageText (ascii "a:b") = true ∧
    namespace2hierarchyBegin (package2namespace (ascii "a:b")) =
      some (ascii "namespace a \x7b\nnamespace \x7b\n") ∧
    ¬ Nests (ascii "a:b") := by
  refine ⟨by decide, by decide, ?_⟩
  rintro ⟨ns, -, hbegin, -⟩
  refine colon_not_mem_begin hbegin ?_
  decide

/-- Components without a name are nested like the others. -/
example : openings (components (ascii "a..b")) =
    ascii "namespace a \x7b\nnamespace  \x7b\nnamespace b\x7b\n" := by decide

end Cdroid.Aidl
