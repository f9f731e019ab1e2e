import Cdroid.Aidl.MethodIds
import Cdroid.Aidl.CppInterface
import Cdroid.Aidl.ExtraText

/-! The imports of `ccompile_aidl`: the records that the parser makes of the `IMPORT` tokens,
the loop that looks for their files, and the names that `generate_cpp` makes the includes of.
While an imported file is parsed, its own imports are recorded in front of the list that is
walked, so nothing looks for their files. -/

namespace Cdroid.Aidl
open Cdroid.Runtime Cdroid.Lib.Lines Cdroid.Lib.Names

/-! ## The statement -/

/-- `^{whitespace}?import{whitespace}[^ \t\r\n]+{whitespace}?;` -/
structure ImportStatement where
  before : String8
  between : String8
  given : String8
  behind : String8
  spaces : before.all whitespace && between.all whitespace && behind.all whitespace
  apart : between ≠ []
  visible : given.all (!whitespace ·)
  nonempty : given ≠ []

/-- The copy that `SET_BUFFER` makes of the text. -/
def ImportStatement.data (s : ImportStatement) : String8 :=
  cString (s.before ++ ascii "import" ++ s.between ++ s.given ++ s.behind ++ ascii ";")

/-- `parse_import_statement`. It takes it that a space or a semicolon follows, and reads on
behind the end of a text that has none. -/
def parseImportStatement (text : String8) : Option String8 :=
  let text := ((text.dropWhile isspace).dropWhile (!isspace ·)).dropWhile isspace
  if text.any fun b => isspace b || b = byte ';' then
    some (text.takeWhile fun b => !isspace b && b ≠ byte ';')
  else none

def ImportStatement.neededClass (s : ImportStatement) : Option String8 :=
  parseImportStatement s.data

/-! ## The file -/

inductive Target
  | TARGET_CPP
  | TARGET_JAVA
  deriving DecidableEq

def OS_PATH_SEPARATOR : UInt8 := byte '/'

/-- `get_import_file_name`. For C++ it takes what is behind the last dot; where there is no
dot, it reads behind a null pointer. -/
def getImportFileName (given : String8) : Target → Option String8
  | .TARGET_CPP => (rfind (byte '.') given).map fun (_, expected) => expected ++ ascii ".aidl"
  | .TARGET_JAVA =>
    some ((given.map fun c => if c = byte '.' then OS_PATH_SEPARATOR else c) ++ ascii ".aidl")

/-- What a file is parsed to. -/
structure Parsed where
  err : Bool
  /-- The `IMPORT` tokens that are reduced, in the order of the file. -/
  imports : List ImportStatement
  /-- What `g_callbacks->document` is called with, if it is; no item is a null pointer. -/
  document : Option Document
  /-- The ids of the methods of the first item. -/
  ids : List (Option Digits)
  /-- What the lexer does about comments and copy blocks. -/
  lexed : List Action

/-- The options and the files. -/
structure Files where
  importPaths : List String8
  access : String8 → Bool
  /-- A file that cannot be opened is `none`. -/
  parse : String8 → Option Parsed

/-- The path of a file in a directory. -/
def filePath (directory expected : String8) : String8 :=
  if directory = [] then ascii "." ++ OS_PATH_SEPARATOR :: expected
  else if directory.getLast? ≠ some OS_PATH_SEPARATOR then
    directory ++ OS_PATH_SEPARATOR :: expected
  else directory ++ expected

/-- `find_import_file`; the outer `none` is a read outside of the name. -/
def findImportFile (files : Files) (given : String8) (lang : Target) : Option (Option String8) :=
  (getImportFileName given lang).map fun expected =>
    (files.importPaths.map (filePath · expected)).find? files.access

/-! ## parse_aidl -/

/-- `import_info`: the file name is null until it is resolved, and so is the document. -/
structure ImportInfo where
  neededClass : String8
  filename : Option String8
  doc : Document

/-- No items, as a null pointer. -/
def Document.null : Document := ⟨[], by simp⟩

/-- `g_imports` and `g_document`, and the globals of the lexer. -/
structure Globals where
  g_imports : List ImportInfo
  g_document : Document
  extra : ExtraTexts

def Globals.initial : Globals := ⟨[], .null, .empty⟩

def mainImportParsed (statement : ImportStatement) (g : Globals) : Option Globals :=
  statement.neededClass.map fun neededClass =>
    { g with g_imports := ⟨neededClass, none, .null⟩ :: g.g_imports }

/-- `yyparse` with `g_mainCallbacks`: the globals, and whether it fails. The grammar reduces
the last import first. -/
def yyparse (p : Parsed) (g : Globals) : Option (Globals × Bool) := do
  let g ← p.imports.foldrM mainImportParsed g
  some ({ g with
    g_document := p.document.getD g.g_document
    extra := g.extra.run p.lexed }, p.err)

/-- `parse_aidl` -/
def parseAidl (files : Files) (filename : String8) (g : Globals) : Option (Globals × Bool) :=
  match files.parse filename with
  | some p => yyparse p g
  | none => some (g, true)

/-! ## ccompile_aidl -/

/-- The state of the loop over the imports. Its globals hold what is put in front of the list
while the loop walks it. -/
structure Walk where
  g : Globals
  err : Bool
  /-- What `find_import_file` was called with. -/
  searched : List String8

/-- A round of the loop. -/
def importRound (files : Files) (names : CNames) (i : ImportInfo) (w : Walk) :
    Option (ImportInfo × Walk) :=
  match names.find i.neededClass with
  | some _ => some (i, w)
  | none => do
    let filename ← findImportFile files i.neededClass .TARGET_CPP
    let w := { w with searched := i.neededClass :: w.searched }
    match filename with
    | none => some (i, { w with err := true })
    | some filename =>
      let (g, rv) ← parseAidl files filename w.g
      some ({ i with filename := some filename, doc := g.g_document },
        { w with g := g, err := w.err || rv || g.g_document.items.isEmpty })

/-- The loop: the records as it leaves them, and the state. -/
def importLoop (files : Files) (names : CNames) :
    List ImportInfo → Walk → Option (List ImportInfo × Walk)
  | [], w => some ([], w)
  | i :: rest, w => do
    let (i, w) ← importRound files names i w
    let (rest, w) ← importLoop files names rest w
    some (i :: rest, w)

/-- What is behind the loop: gathering, and the checks of the main file. -/
def accepted (names : CNames) (mainDoc : Document) (docs : List Document)
    (ids : List (Option Digits)) : Bool :=
  !(cgatherTypes names (items (mainDoc :: docs))).2 &&
    ((mainDoc.items.mapM (ccheckItem (cgatherTypes names (items (mainDoc :: docs))).1)).bind
      exactlyOneInterface).isSome &&
    (checkAndAssignMethodIds ids).isSome

/-- What `generate_cpp` finds when it is called: the records of the imports, and what the lexer
has kept. -/
structure Generation where
  visited : List ImportInfo
  extra : ExtraTexts

/-- `ccompile_aidl` behind the preprocessed files; `some none` if `generate_cpp` is not called.
The outer `none` is a read outside of a string. -/
def ccompileImports (files : Files) (names : CNames) (main : Parsed) :
    Option (Option Generation) := do
  let (g, err) ← yyparse main .initial
  let mainDoc := g.g_document
  let (imports, w) ← importLoop files names g.g_imports ⟨⟨[], .null, g.extra⟩, err, []⟩
  let visited := w.g.g_imports ++ imports
  if w.err || mainDoc.items.isEmpty then some none
  else if accepted names mainDoc (visited.map ImportInfo.doc) main.ids then
    some (some ⟨visited, w.g.extra⟩)
  else some none

/-! ## Imports that are declared in a preprocessed file -/

/-- A text declares an item. -/
def Declares (texts : List String8) (d : DocumentItem) : Prop :=
  ∃ text ∈ texts, ∃ ds, parsePreprocessedFile text = some ds ∧ d ∈ ds

/-- Wherever the import stands in the list and whatever the loop has come to there, it does
nothing about it. -/
def Satisfied (files : Files) (names : CNames) (n : String8) : Prop :=
  ∀ (i : ImportInfo) (before after : List ImportInfo) (w : Walk), i.neededClass = n →
    importLoop files names (before ++ i :: after) w =
      (importLoop files names before w).bind fun (before, w) =>
        (importLoop files names after w).map fun (after, w) => (before ++ i :: after, w)

/-- No full name has a dot. -/
def Undotted (names : CNames) : Prop := ∀ t ∈ names, byte '.' ∉ t.qualifiedName

section Registry
variable {names : CNames}

theorem not_mem_package2namespace (p : String8) : byte '.' ∉ package2namespace p := by
  intro h
  obtain ⟨c, _, hc⟩ := List.mem_flatMap.mp h
  by_cases hdot : c = byte '.'
  · rw [if_pos hdot] at hc
    revert hc
    decide
  · rw [if_neg hdot] at hc
    exact hdot (List.mem_singleton.mp hc).symm

theorem not_mem_namespaceOf (p : Option String8) : byte '.' ∉ namespaceOf p := by
  cases p with
  | none => simp [namespaceOf]
  | some p => exact not_mem_package2namespace p

theorem not_mem_qualify {ns n : String8} (hns : byte '.' ∉ ns) (hn : byte '.' ∉ n) :
    byte '.' ∉ qualify ns n := by
  have hcolons : byte '.' ∉ ascii "::" := by decide
  rw [qualify]
  split
  · exact hn
  · simp only [List.mem_append, not_or]
    exact ⟨⟨hns, hcolons⟩, hn⟩

theorem not_mem_className {pre : String} {n : String8} (hpre : byte '.' ∉ ascii pre)
    (hn : byte '.' ∉ n) : byte '.' ∉ className pre n := by
  rw [className, List.mem_append, not_or]
  exact ⟨hpre, fun h => hn (List.mem_of_mem_drop h)⟩

theorem Undotted.add (h : Undotted names) {t : CType} (ht : byte '.' ∉ t.qualifiedName) :
    Undotted (names.add t) := by
  intro u hu
  rw [CNames.add] at hu
  split at hu
  · exact h u hu
  · rcases List.mem_append.mp hu with hu | hu
    · exact h u hu
    · rw [List.mem_singleton.mp hu]
      exact ht

theorem Undotted.adds (h : Undotted names) {ts : List CType}
    (hts : ∀ t ∈ ts, byte '.' ∉ t.qualifiedName) : Undotted (ts.foldl CNames.add names) := by
  induction ts generalizing names with
  | nil => exact h
  | cons t ts ih =>
    rw [List.forall_mem_cons] at hts
    exact ih (h.add hts.1) hts.2

theorem ctype_undotted {d : DocumentItem} (h : byte '.' ∉ d.name) :
    byte '.' ∉ d.ctype.qualifiedName := by
  cases d <;> exact not_mem_qualify (not_mem_namespaceOf _) h

theorem template_undotted {name arg : String8} (hname : byte '.' ∉ name) (harg : byte '.' ∉ arg) :
    byte '.' ∉ (CType.template (ascii "android") name [arg]).qualifiedName := by
  have hfixed : byte '.' ∉ ascii "android" ∧ byte '.' ∉ ascii "::" ∧ byte '.' ∉ ascii "<" ∧
      byte '.' ∉ ascii ">" := by decide
  obtain ⟨handroid, hcolons, hopen, hclose⟩ := hfixed
  have hargs : (ascii ",").intercalate [arg] = arg := by simp [List.intercalate]
  simp only [CType.qualifiedName, templateArguments, hargs, List.mem_append, not_or]
  exact ⟨⟨⟨handroid, hcolons⟩, hname⟩, ⟨hopen, harg⟩, hclose⟩

theorem ctypes_undotted {d : DocumentItem} (h : byte '.' ∉ d.name) :
    ∀ t ∈ d.ctypes, byte '.' ∉ t.qualifiedName := by
  rcases d with p | ⟨_ | _, oneway, package, name, members⟩
  · simpa [DocumentItem.ctypes] using ctype_undotted h
  · simp only [DocumentItem.ctypes, Interface.companions, List.forall_mem_cons, List.not_mem_nil,
      false_implies, implies_true, and_true]
    have hself := ctype_undotted h
    exact ⟨hself, template_undotted (by decide) hself, template_undotted (by decide) hself,
      not_mem_qualify (not_mem_namespaceOf _) (not_mem_className (by decide) h),
      not_mem_qualify (not_mem_namespaceOf _) (not_mem_className (by decide) h)⟩
  · simpa [DocumentItem.ctypes] using ctype_undotted h

theorem Undotted.gather (h : Undotted names) {ds : List DocumentItem}
    (hds : ∀ d ∈ ds, byte '.' ∉ d.name) : Undotted (cgatherTypes names ds).1 := by
  induction ds generalizing names with
  | nil => exact h
  | cons d ds ih =>
    rw [List.forall_mem_cons] at hds
    refine ih ?_ hds.2
    split
    · exact h.adds (ctypes_undotted hds.1)
    · exact h

/-- No declaration of a preprocessed file brings a dot into the registry. -/
theorem Undotted.gatherPreprocessed (h : Undotted names) {texts : List String8} {names' : CNames}
    (hg : cgatherPreprocessed names texts = some names') : Undotted names' := by
  induction texts generalizing names with
  | nil =>
    cases hg
    exact h
  | cons text texts ih =>
    obtain ⟨ds, hds, hg⟩ := Option.bind_eq_some_iff.mp hg
    refine ih (h.gather fun d hd => ?_) hg
    rw [← d.signature_name]
    exact (parsePreprocessedFile_readable hds d hd).name

theorem undotted_base : Undotted cregisterBaseTypes := by
  have h : cregisterBaseTypes.all (fun t => byte '.' ∉ t.qualifiedName) = true := by
    decide +kernel
  simpa [Undotted] using h

theorem find_gatherPreprocessed {texts : List String8} {names' : CNames} {n : String8} {u : CType}
    (h : names.find n = some u) (hg : cgatherPreprocessed names texts = some names') :
    names'.find n = some u := by
  induction texts generalizing names with
  | nil =>
    cases hg
    exact h
  | cons text texts ih =>
    obtain ⟨ds, _, hg⟩ := Option.bind_eq_some_iff.mp hg
    exact ih (cgatherTypes_find h ds) hg

/-- What is declared is registered under its full name. -/
theorem find_declared {texts : List String8} {names' : CNames} {d : DocumentItem}
    (hg : cgatherPreprocessed names texts = some names') (hd : Declares texts d) :
    ∃ u, names'.find d.ctype.qualifiedName = some u := by
  induction texts generalizing names with
  | nil =>
    obtain ⟨text, htext, _⟩ := hd
    cases htext
  | cons text texts ih =>
    obtain ⟨ds, hds, hg⟩ := Option.bind_eq_some_iff.mp hg
    obtain ⟨text', htext, ds', hds', hd⟩ := hd
    rcases List.mem_cons.mp htext with rfl | htext
    · obtain rfl : ds' = ds := Option.some.inj (hds'.symm.trans hds)
      obtain ⟨u, hu⟩ : ∃ u, (cgatherTypes names ds').1.find d.ctype.qualifiedName = some u :=
        cgatherTypes_self hd
      exact ⟨u, find_gatherPreprocessed hu hg⟩
    · exact ih hg ⟨text', htext, ds', hds', hd⟩

theorem fullname_undotted {d : DocumentItem} (h : byte '.' ∉ d.fullname) :
    d.ctype.qualifiedName = d.fullname := by
  have hpackage : d.package = none := by
    rw [DocumentItem.fullname] at h
    split at h
    · simp at h
    · next hp => exact hp
  rw [DocumentItem.fullname, hpackage]
  cases d with
  | userData p =>
    obtain ⟨package, name, methods⟩ := p
    cases hpackage
    rfl
  | interface c =>
    obtain ⟨kind, oneway, package, name, members⟩ := c
    cases hpackage
    rfl

/-- The declarations whose full name finds them. -/
theorem find_fullname {texts : List String8} {d : DocumentItem}
    (hg : cgatherPreprocessed cregisterBaseTypes texts = some names) (hd : Declares texts d) :
    (names.find d.fullname).isSome ↔ byte '.' ∉ d.fullname := by
  constructor
  · intro h
    obtain ⟨u, hu⟩ := Option.isSome_iff_exists.mp h
    have hname : u.qualifiedName = d.fullname := by simpa using List.find?_some hu
    rw [← hname]
    exact undotted_base.gatherPreprocessed hg u (List.mem_of_find?_eq_some hu)
  · intro h
    obtain ⟨u, hu⟩ := find_declared hg hd
    rw [fullname_undotted h] at hu
    rw [hu]
    rfl

end Registry

section Loop
variable {files : Files} {names : CNames}

theorem importLoop_append (before after : List ImportInfo) (w : Walk) :
    importLoop files names (before ++ after) w =
      (importLoop files names before w).bind fun (before, w) =>
        (importLoop files names after w).map fun (after, w) => (before ++ after, w) := by
  induction before generalizing w with
  | nil => simp [importLoop]
  | cons i before ih =>
    rw [List.cons_append, importLoop, importLoop]
    cases importRound files names i w with
    | none => rfl
    | some r =>
      simp only [Option.bind_eq_bind, Option.bind_some, ih]
      cases importLoop files names before r.2 with
      | none => rfl
      | some r' => cases h : importLoop files names after r'.2 <;> simp [h]

/-- A class that is not found is searched for. -/
theorem importRound_searched {i i' : ImportInfo} {w w' : Walk}
    (hfind : names.find i.neededClass = none)
    (h : importRound files names i w = some (i', w')) :
    w'.searched = i.neededClass :: w.searched := by
  simp only [importRound, hfind, Option.bind_eq_bind, Option.bind_eq_some_iff] at h
  obtain ⟨filename, _, h⟩ := h
  cases filename with
  | none =>
    cases h
    rfl
  | some filename =>
    obtain ⟨⟨g, rv⟩, _, h⟩ := Option.bind_eq_some_iff.mp h
    cases h
    rfl

/-- An import is satisfied exactly if its class is found. -/
theorem satisfied_iff (n : String8) :
    Satisfied files names n ↔ (names.find n).isSome := by
  constructor
  · intro h
    cases hfind : names.find n with
    | some u => rfl
    | none =>
      -- alone in the list, it is searched for
      have hone := h ⟨n, none, .null⟩ [] [] ⟨.initial, false, []⟩ rfl
      simp only [List.nil_append, importLoop, Option.bind_eq_bind, Option.bind_some,
        Option.map_some, Option.bind_eq_some_iff, Option.some.injEq, Prod.exists,
        Prod.mk.injEq] at hone
      obtain ⟨i, _, hround, _, rfl⟩ := hone
      cases importRound_searched hfind hround
  · intro h i before after w hi
    obtain ⟨u, hu⟩ := Option.isSome_iff_exists.mp h
    have hround : ∀ w, importRound files names i w = some (i, w) := by
      intro w
      rw [importRound, hi, hu]
    rw [importLoop_append]
    simp only [importLoop, hround, Option.bind_eq_bind, Option.bind_some]
    cases importLoop files names before w with
    | none => rfl
    | some r => cases h : importLoop files names after r.2 <;> simp [h]

/-- For everything that preprocessed files declare and every import of its full name: the import
is taken as satisfied exactly if the full name has no dot. -/
theorem declared_import_iff {texts : List String8} {d : DocumentItem}
    (hg : cgatherPreprocessed cregisterBaseTypes texts = some names) (hd : Declares texts d) :
    Satisfied files names d.fullname ↔ byte '.' ∉ d.fullname :=
  (satisfied_iff d.fullname).trans (find_fullname hg hd)

end Loop

/-- No directory and no file. -/
def noFiles : Files := ⟨[], fun _ => false, fun _ => none⟩

/-- A parcelable with a package, and the same without. -/
def packaged : DocumentItem := .userData ⟨some (ascii "a"), ascii "B", PARCELABLE_DATA⟩

def unpackaged : DocumentItem := .userData ⟨none, ascii "B", PARCELABLE_DATA⟩

theorem declares_line {d : DocumentItem} (h : parsePreprocessedFile d.line = some [d]) :
    Declares [d.line] d :=
  ⟨d.line, by simp, [d], h, by simp⟩

theorem gather_line {d : DocumentItem} (h : parsePreprocessedFile d.line = some [d]) :
    cgatherPreprocessed cregisterBaseTypes [d.line] =
      some (cgatherTypes cregisterBaseTypes [d]).1 := by
  simp [cgatherPreprocessed, h]

theorem unpackaged_import :
    Satisfied noFiles (cgatherTypes cregisterBaseTypes [unpackaged]).1 (ascii "B") ↔
      byte '.' ∉ ascii "B" :=
  have h : parsePreprocessedFile unpackaged.line = some [unpackaged] := by decide
  declared_import_iff (gather_line h) (declares_line h)

/-- A declaration of a package does not satisfy its import. -/
theorem declared_import_searched : ¬ ∀ files texts names d,
    cgatherPreprocessed cregisterBaseTypes texts = some names → Declares texts d →
      Satisfied files names d.fullname := by
  intro h
  have hline : parsePreprocessedFile packaged.line = some [packaged] := by decide
  have hfound := (satisfied_iff _).mp
    (h noFiles _ _ packaged (gather_line hline) (declares_line hline))
  revert hfound
  decide +kernel

/-! ## Includes -/

/-- The file is parsed for an import of the class. -/
def Reaches (files : Files) (given : String8) (p : Parsed) : Prop :=
  ∃ filename, findImportFile files given .TARGET_CPP = some (some filename) ∧
    files.parse filename = some p

/-- The class names of the imports, if all are terminated. -/
def Parsed.classes (p : Parsed) : Option (List String8) :=
  p.imports.mapM ImportStatement.neededClass

/-- `generate_cpp` is called, and finds this. -/
def Generates (files : Files) (names : CNames) (main : Parsed) (run : Generation) : Prop :=
  ccompileImports files names main = some (some run)

/-- Nothing is read outside of a string, and where `generate_cpp` is called, every record that
it visits has a file name. -/
structure Resolves (files : Files) (names : CNames) (main : Parsed) : Prop where
  inside : (ccompileImports files names main).isSome
  resolved : ∀ run, Generates files names main run → ∀ i ∈ run.visited, i.filename.isSome

/-- The imports that the code can do with. -/
structure Resolvable (files : Files) (names : CNames) (main : Parsed) (given : List String8) :
    Prop where
  /-- The classes that have to be searched for have a dot. -/
  dotted : ∀ c ∈ given, names.find c = none → byte '.' ∈ c
  /-- Their files have terminated imports only. -/
  terminated : ∀ c ∈ given, names.find c = none → ∀ p, Reaches files c p → p.classes.isSome
  /-- If the main file is accepted, no class is known before, and their files import nothing. -/
  flat : (∃ run, Generates files names main run) → ∀ c ∈ given,
    names.find c = none ∧ ∀ p, Reaches files c p → p.imports = []

section Records
variable {files : Files} {names : CNames}

/-- What the parser records of the imports of a file. -/
def records (given : List String8) : List ImportInfo :=
  given.map fun c => ⟨c, none, .null⟩

theorem foldrM_mainImportParsed (l : List ImportStatement) (g : Globals) :
    l.foldrM mainImportParsed g =
      (l.mapM ImportStatement.neededClass).map fun given =>
        { g with g_imports := records given ++ g.g_imports } := by
  induction l with
  | nil => rfl
  | cons s l ih =>
    rw [List.foldrM_cons, ih, List.mapM_cons]
    cases hl : l.mapM ImportStatement.neededClass with
    | none => cases s.neededClass <;> rfl
    | some given =>
      cases hs : s.neededClass with
      | none => simp [mainImportParsed, hs]
      | some c => simp [mainImportParsed, hs, records]

theorem yyparse_eq (p : Parsed) (g : Globals) :
    yyparse p g = p.classes.map fun given =>
      (⟨records given ++ g.g_imports, p.document.getD g.g_document, g.extra.run p.lexed⟩,
        p.err) := by
  rw [yyparse, foldrM_mainImportParsed, Parsed.classes]
  cases p.imports.mapM ImportStatement.neededClass <;> rfl

theorem getImportFileName_isSome (given : String8) :
    (getImportFileName given .TARGET_CPP).isSome ↔ byte '.' ∈ given := by
  rw [getImportFileName, Option.isSome_map]
  rcases rfind_cases (byte '.') given with ⟨hdot, hnone⟩ | ⟨p, q, rfl, _, hsome⟩
  · rw [hnone]
    exact iff_of_false Bool.false_ne_true hdot
  · rw [hsome]
    exact iff_of_true rfl (by simp)

theorem findImportFile_isSome (given : String8) :
    (findImportFile files given .TARGET_CPP).isSome ↔ byte '.' ∈ given := by
  rw [findImportFile, Option.isSome_map, getImportFileName_isSome]

theorem parseAidl_isSome (filename : String8) (g : Globals) :
    (parseAidl files filename g).isSome ↔
      ∀ p, files.parse filename = some p → p.classes.isSome := by
  rw [parseAidl]
  cases files.parse filename with
  | none => simp
  | some p => simp [yyparse_eq]

/-- The records that parsing a file puts in front of the others have no file name. -/
theorem parseAidl_imports {filename : String8} {g g' : Globals} {rv : Bool}
    (h : parseAidl files filename g = some (g', rv)) :
    (∀ e ∈ g'.g_imports, e.filename.isSome) ↔
      (∀ e ∈ g.g_imports, e.filename.isSome) ∧
        ∀ p, files.parse filename = some p → p.imports = [] := by
  rw [parseAidl] at h
  cases hp : files.parse filename with
  | none =>
    rw [hp] at h
    cases h
    simp
  | some p =>
    rw [hp] at h
    change yyparse p g = _ at h
    rw [yyparse_eq, Option.map_eq_some_iff] at h
    obtain ⟨given, hgiven, e⟩ := h
    cases e
    have hlen : given = [] ↔ p.imports = [] := by
      rw [← List.length_eq_zero_iff, ← List.length_eq_zero_iff,
        (mapM_eq_some hgiven).length_eq]
    have hnone : (∀ e ∈ records given, e.filename.isSome) ↔ given = [] := by
      cases given <;> simp [records]
    simp only [List.forall_mem_append, hnone, hlen, Option.some.injEq, forall_eq']
    exact and_comm

/-- A round reads nothing outside of a string. -/
def Inside (files : Files) (names : CNames) (c : String8) : Prop :=
  names.find c = none → byte '.' ∈ c ∧ ∀ p, Reaches files c p → p.classes.isSome

theorem importRound_isSome (i : ImportInfo) (w : Walk) :
    (importRound files names i w).isSome ↔ Inside files names i.neededClass := by
  cases hfind : names.find i.neededClass with
  | some u =>
    simp only [importRound, hfind, Option.isSome_some, true_iff]
    intro hnone
    rw [hfind] at hnone
    cases hnone
  | none =>
    simp only [importRound, hfind, Option.bind_eq_bind, Inside, true_implies, Reaches,
      ← @findImportFile_isSome files]
    cases hfile : findImportFile files i.neededClass .TARGET_CPP with
    | none => simp
    | some filename =>
      cases filename with
      | none => simp
      | some filename =>
        simp only [Option.bind_some, Option.isSome_some, true_and, Option.some.injEq,
          exists_eq_left', ← parseAidl_isSome filename w.g]
        cases parseAidl files filename w.g <;> rfl

/-- What becomes of a record, and of what is in front of the list. -/
theorem importRound_resolved {i i' : ImportInfo} {w w' : Walk} (hi : i.filename = none)
    (h : importRound files names i w = some (i', w')) (herr : w'.err = false) :
    w.err = false ∧ ((i'.filename.isSome ∧ ∀ e ∈ w'.g.g_imports, e.filename.isSome) ↔
      (∀ e ∈ w.g.g_imports, e.filename.isSome) ∧ names.find i.neededClass = none ∧
        ∀ p, Reaches files i.neededClass p → p.imports = []) := by
  cases hfind : names.find i.neededClass with
  | some u =>
    simp only [importRound, hfind, Option.some.injEq, Prod.mk.injEq] at h
    obtain ⟨rfl, rfl⟩ := h
    simp [herr, hi]
  | none =>
    simp only [importRound, hfind, Option.bind_eq_bind, Option.bind_eq_some_iff] at h
    obtain ⟨filename, hfile, h⟩ := h
    cases filename with
    | none =>
      cases h
      cases herr
    | some filename =>
      obtain ⟨⟨g, rv⟩, hparse, h⟩ := Option.bind_eq_some_iff.mp h
      cases h
      simp only [Bool.or_eq_false_iff] at herr
      refine ⟨herr.1.1, ?_⟩
      simp only [parseAidl_imports hparse, Reaches, hfile, Option.isSome_some, true_and,
        Option.some.injEq, exists_eq_left']

theorem importLoop_isSome (is : List ImportInfo) (w : Walk) :
    (importLoop files names is w).isSome ↔ ∀ i ∈ is, Inside files names i.neededClass := by
  induction is generalizing w with
  | nil => simp [importLoop]
  | cons i is ih =>
    rw [importLoop, List.forall_mem_cons, ← importRound_isSome i w]
    cases importRound files names i w with
    | none => simp
    | some r =>
      simp only [Option.bind_eq_bind, Option.bind_some, Option.isSome_some, true_and, ← ih r.2]
      cases importLoop files names is r.2 <;> rfl

/-- Where the loop finds no error, every record gets a file name exactly if no class was known
and no file imports anything. -/
theorem importLoop_resolved {is es : List ImportInfo} {w w' : Walk}
    (his : ∀ i ∈ is, i.filename = none) (h : importLoop files names is w = some (es, w'))
    (herr : w'.err = false) :
    w.err = false ∧ ((∀ e ∈ w'.g.g_imports ++ es, e.filename.isSome) ↔
      (∀ e ∈ w.g.g_imports, e.filename.isSome) ∧
        ∀ i ∈ is, names.find i.neededClass = none ∧
          ∀ p, Reaches files i.neededClass p → p.imports = []) := by
  induction is generalizing w es with
  | nil =>
    cases h
    simp [herr]
  | cons i is ih =>
    rw [List.forall_mem_cons] at his
    simp only [importLoop, Option.bind_eq_bind, Option.bind_eq_some_iff] at h
    obtain ⟨⟨i', w₁⟩, hround, ⟨es', w₂⟩, hloop, e⟩ := h
    cases e
    obtain ⟨herr₁, hrest⟩ := ih his.2 hloop
    obtain ⟨herr₀, hhead⟩ := importRound_resolved his.1 hround herr₁
    refine ⟨herr₀, ?_⟩
    rw [List.forall_mem_append] at hrest
    rw [List.forall_mem_append, List.forall_mem_cons, List.forall_mem_cons]
    constructor
    · rintro ⟨hpushed, hi', hes⟩
      obtain ⟨hpushed₁, his'⟩ := hrest.mp ⟨hpushed, hes⟩
      obtain ⟨hpushed₀, hi⟩ := hhead.mp ⟨hi', hpushed₁⟩
      exact ⟨hpushed₀, hi, his'⟩
    · rintro ⟨hpushed₀, hi, his'⟩
      obtain ⟨hi', hpushed₁⟩ := hhead.mpr ⟨hpushed₀, hi⟩
      obtain ⟨hpushed, hes⟩ := hrest.mpr ⟨hpushed₁, his'⟩
      exact ⟨hpushed, hi', hes⟩

end Records

section Includes
variable {files : Files} {names : CNames} {main : Parsed} {given : List String8}

/-- The state in which the loop begins. -/
def Walk.start (main : Parsed) : Walk :=
  ⟨⟨[], .null, ExtraTexts.empty.run main.lexed⟩, main.err, []⟩

/-- What is behind the loop. -/
def afterImports (names : CNames) (main : Parsed) (imports : List ImportInfo) (w : Walk) :
    Option Generation :=
  let mainDoc := main.document.getD .null
  let visited := w.g.g_imports ++ imports
  if w.err || mainDoc.items.isEmpty then none
  else if accepted names mainDoc (visited.map ImportInfo.doc) main.ids then
    some ⟨visited, w.g.extra⟩
  else none

theorem ccompileImports_eq (h : main.classes = some given) :
    ccompileImports files names main =
      (importLoop files names (records given) (.start main)).map fun (imports, w) =>
        afterImports names main imports w := by
  simp only [ccompileImports, yyparse_eq, h, Option.map_some, Option.bind_eq_bind,
    Option.bind_some, Globals.initial, List.append_nil]
  change (importLoop files names (records given) (.start main)).bind _ = _
  cases importLoop files names (records given) (.start main) with
  | none => rfl
  | some r =>
    simp only [Option.bind_some, Option.map_some, afterImports]
    split
    · rfl
    · split <;> rfl

theorem ccompileImports_isSome (h : main.classes = some given) :
    (ccompileImports files names main).isSome ↔ ∀ c ∈ given, Inside files names c := by
  rw [ccompileImports_eq h, Option.isSome_map, importLoop_isSome]
  simp [records]

/-- A run that generates comes out of the loop without an error. -/
theorem generates_loop {run : Generation} (h : main.classes = some given)
    (hg : Generates files names main run) :
    ∃ imports w, importLoop files names (records given) (.start main) = some (imports, w) ∧
      w.err = false ∧ run.visited = w.g.g_imports ++ imports ∧ run.extra = w.g.extra := by
  rw [Generates, ccompileImports_eq h, Option.map_eq_some_iff] at hg
  obtain ⟨⟨imports, w⟩, hloop, hafter⟩ := hg
  simp only [afterImports] at hafter
  split at hafter
  · cases hafter
  · next hor =>
    split at hafter
    · cases hafter
      rw [Bool.or_eq_true, not_or] at hor
      exact ⟨imports, w, hloop, by simpa using hor.1, rfl, rfl⟩
    · cases hafter

theorem generates_resolved {run : Generation} (h : main.classes = some given)
    (hg : Generates files names main run) :
    (∀ e ∈ run.visited, e.filename.isSome) ↔
      ∀ c ∈ given, names.find c = none ∧ ∀ p, Reaches files c p → p.imports = [] := by
  obtain ⟨imports, w, hloop, herr, hvisited, _⟩ := generates_loop h hg
  have hnone : ∀ i ∈ records given, i.filename = none := by simp [records]
  rw [hvisited, (importLoop_resolved hnone hloop herr).2]
  simp [records, Walk.start]

/-- For every main file, every graph of imports and whatever is registered: all names are
resolved and read within their bounds exactly if the imports are of the kind that the code can
do with. -/
theorem resolves_iff (files : Files) (names : CNames) (main : Parsed) :
    Resolves files names main ↔
      ∃ given, main.classes = some given ∧ Resolvable files names main given := by
  cases h : main.classes with
  | none =>
    refine iff_of_false (fun hr => ?_) (by simp)
    have hnone : ccompileImports files names main = none := by
      simp [ccompileImports, yyparse_eq, h]
    have hinside := hr.inside
    rw [hnone] at hinside
    cases hinside
  | some given =>
    simp only [Option.some.injEq, exists_eq_left']
    constructor
    · intro hr
      have hinside := (ccompileImports_isSome h).mp hr.inside
      refine ⟨fun c hc hfind => (hinside c hc hfind).1, fun c hc hfind => (hinside c hc hfind).2,
        ?_⟩
      rintro ⟨run, hg⟩
      exact (generates_resolved h hg).mp (hr.resolved run hg)
    · intro hr
      refine ⟨(ccompileImports_isSome h).mpr ?_, fun run hg => ?_⟩
      · exact fun c hc hfind => ⟨hr.dotted c hc hfind, hr.terminated c hc hfind⟩
      · exact (generates_resolved h hg).mpr (hr.flat ⟨run, hg⟩)

end Includes

/-- `import a.B;`, at the beginning of a file. -/
def importB : ImportStatement where
  before := []
  between := [32]
  given := ascii "a.B"
  behind := []
  spaces := by decide
  apart := by decide
  visible := by decide
  nonempty := by decide

/-- `import c.D;`, on the line behind the package. -/
def importD : ImportStatement where
  before := [10]
  between := [32]
  given := ascii "c.D"
  behind := []
  spaces := by decide
  apart := by decide
  visible := by decide
  nonempty := by decide

/-- An interface of a package, that imports a parcelable. -/
def importingMain : Parsed where
  err := false
  imports := [importB]
  document := some ⟨[.interface ⟨.binder, false, some (ascii "m"), ascii "I", []⟩], by decide⟩
  ids := []
  lexed := []

/-- A parcelable that imports another one. -/
def importingFile : Parsed where
  err := false
  imports := [importD]
  document := some ⟨[.userData ⟨some (ascii "a"), ascii "B", PARCELABLE_DATA⟩], by decide⟩
  ids := []
  lexed := []

/-- The files of the example, in the working directory. -/
def twoFiles : Files where
  importPaths := [[]]
  access := fun path => path = ascii "./B.aidl"
  parse := fun path => if path = ascii "./B.aidl" then some importingFile else none

/-- The import of an imported file is visited, and has no file name. -/
theorem transitive_import_unresolved : ¬ ∀ files names main, Resolves files names main := by
  intro h
  have hrun : ((ccompileImports twoFiles cregisterBaseTypes importingMain).map
      (Option.map fun run => run.visited.map ImportInfo.filename)) =
        some (some [none, some (ascii "./B.aidl")]) := by
    decide +kernel
  obtain ⟨r, hr, hvisited⟩ := Option.map_eq_some_iff.mp hrun
  obtain ⟨run, rfl, hnames⟩ := Option.map_eq_some_iff.mp hvisited
  have hall := (h twoFiles cregisterBaseTypes importingMain).resolved run hr
  have hnone : none ∈ run.visited.map ImportInfo.filename := by
    rw [hnames]
    simp
  obtain ⟨i, hi, hfile⟩ := List.mem_map.mp hnone
  have hsome := hall i hi
  rw [hfile] at hsome
  cases hsome

end Cdroid.Aidl
