import Cdroid.Aidl.Imports

/-! The copy block of the main file: what of it gets to the head of the generated header, and
what gets there in its place. -/

namespace Cdroid.Aidl
open Cdroid.Runtime

/-- A main file with one copy block: the comments in front of it, and what the lexer does about
the rest of the file. -/
structure CopyFile where
  comments : List Comment
  block : CopyBlock
  rest : List Action
  single : .copied ∉ rest

def CopyFile.lexed (f : CopyFile) : List Action :=
  f.comments.flatMap Comment.actions ++ (f.block.actions ++ f.rest)

/-- A main file that is parsed like this one, with a copy block. -/
def Parsed.withBlock (p : Parsed) (f : CopyFile) : Parsed := { p with lexed := f.lexed }

/-- The file that is opened for an import. -/
def opened (files : Files) (names : CNames) (given : String8) : Option Parsed :=
  if (names.find given).isSome then none
  else (findImportFile files given .TARGET_CPP).join.bind files.parse

/-- What the lexer does about the imported files, one after the other. -/
def lexedLater (files : Files) (names : CNames) (main : Parsed) : List Action :=
  ((main.classes.getD []).filterMap (opened files names)).flatMap Parsed.lexed

/-- The texts that get to the header: an imported file with a block, or else a first comment,
would have to leave the very same one; with neither, the text is made of lines without a percent
sign. -/
def CopyFile.Copies (f : CopyFile) (later : List Action) : Prop :=
  if .copied ∈ later then written (handedOver (f.rest ++ later)) = some f.block.text
  else match f.comments with
    | c :: _ => (ExtraText.of c.texts).data = some f.block.text
    | [] => Copyable f.block.text

section Files
variable {files : Files} {names : CNames}

theorem parseAidl_extra {filename : String8} {g g' : Globals} {rv : Bool}
    (h : parseAidl files filename g = some (g', rv)) :
    g'.extra = g.extra.run ((files.parse filename).toList.flatMap Parsed.lexed) := by
  rw [parseAidl] at h
  cases hp : files.parse filename with
  | none =>
    rw [hp] at h
    cases h
    rfl
  | some p =>
    rw [hp] at h
    change yyparse p g = _ at h
    rw [yyparse_eq, Option.map_eq_some_iff] at h
    obtain ⟨given, _, e⟩ := h
    cases e
    simp

theorem importRound_extra {i i' : ImportInfo} {w w' : Walk}
    (h : importRound files names i w = some (i', w')) :
    w'.g.extra =
      w.g.extra.run ((opened files names i.neededClass).toList.flatMap Parsed.lexed) := by
  cases hfind : names.find i.neededClass with
  | some u =>
    simp only [importRound, hfind, Option.some.injEq, Prod.mk.injEq] at h
    rw [← h.2, opened, hfind]
    rfl
  | none =>
    simp only [importRound, hfind, Option.bind_eq_bind, Option.bind_eq_some_iff] at h
    obtain ⟨filename, hfile, h⟩ := h
    rw [opened, hfind, hfile]
    cases filename with
    | none =>
      cases h
      rfl
    | some filename =>
      obtain ⟨⟨g, rv⟩, hparse, h⟩ := Option.bind_eq_some_iff.mp h
      cases h
      exact parseAidl_extra hparse

/-- The loop lexes the files that it opens, and nothing else. -/
theorem importLoop_extra {is es : List ImportInfo} {w w' : Walk}
    (h : importLoop files names is w = some (es, w')) :
    w'.g.extra = w.g.extra.run
      (((is.map ImportInfo.neededClass).filterMap (opened files names)).flatMap
        Parsed.lexed) := by
  induction is generalizing w es with
  | nil =>
    cases h
    rfl
  | cons i is ih =>
    simp only [importLoop, Option.bind_eq_bind, Option.bind_eq_some_iff] at h
    obtain ⟨⟨i', w₁⟩, hround, ⟨es', w₂⟩, hloop, e⟩ := h
    cases e
    rw [ih hloop, importRound_extra hround, ← ExtraTexts.run_append]
    cases hopened : opened files names i.neededClass <;> simp [hopened]

theorem generates_extra {main : Parsed} {run : Generation} (hg : Generates files names main run) :
    run.extra = ExtraTexts.empty.run (main.lexed ++ lexedLater files names main) := by
  cases h : main.classes with
  | none =>
    have hnone : ccompileImports files names main = none := by
      simp [ccompileImports, yyparse_eq, h]
    rw [Generates, hnone] at hg
    cases hg
  | some given =>
    obtain ⟨imports, w, hloop, _, _, hextra⟩ := generates_loop h hg
    have hgiven : (records given).map ImportInfo.neededClass = given := by
      simp [records, Function.comp_def]
    rw [hextra, importLoop_extra hloop, hgiven, ExtraTexts.run_append, lexedLater, h]
    rfl

end Files

section Copies
variable (f : CopyFile)

theorem CopyBlock.run (block : CopyBlock) (s : ExtraTexts) :
    s.run block.actions =
      ⟨[], (s.texts ++ [ExtraText.of (copyTexts block.text.length block.text)]).head?⟩ := by
  have hlex := lexCopying_closing block.open_
    (show block.text.length < block.text.length + closing.length by
      have : closing.length = 3 := by decide
      omega) (Nat.le_refl _) []
  rw [List.append_nil] at hlex
  rw [actions, hlex, ← List.cons_append, ExtraTexts.run_append, ExtraTexts.run_record]
  rfl

/-- What the main file leaves behind its block. -/
theorem CopyFile.run (actions : List Action) :
    ExtraTexts.empty.run (f.lexed ++ actions) =
      ExtraTexts.run ⟨[], (f.comments.map (fun c => ExtraText.of c.texts) ++
        [ExtraText.of (copyTexts f.block.text.length f.block.text)]).head?⟩
          (f.rest ++ actions) := by
  rw [lexed, List.append_assoc, List.append_assoc, ExtraTexts.run_append, ExtraTexts.run_comments,
    ExtraTexts.run_append, CopyBlock.run]
  rfl

theorem CopyFile.written_iff (later : List Action) :
    written (ExtraTexts.empty.run (f.lexed ++ later)).g_copyExtra = some f.block.text ↔
      f.Copies later := by
  rw [CopyFile.run, Copies]
  by_cases hlater : .copied ∈ later
  · rw [if_pos hlater, ExtraTexts.run_copied _ (List.mem_append_right _ hlater)]
  · have hnone : .copied ∉ f.rest ++ later := by
      simpa [f.single] using hlater
    rw [if_neg hlater, ExtraTexts.run_not_copied _ hnone]
    cases f.comments with
    | nil => exact copied_iff f.block.text
    | cons c cs => rfl

/-- For every main file with a copy block, every file it imports and all that is registered: the
header begins with the text of the block exactly if the text is one that is copied. -/
theorem header_iff {files : Files} {names : CNames} {p : Parsed} {run : Generation}
    (hg : Generates files names (p.withBlock f) run) (document : String8) :
    header run.extra document = some (f.block.text ++ document) ↔
      f.Copies (lexedLater files names p) := by
  have hextra := generates_extra hg
  change run.extra = ExtraTexts.empty.run (f.lexed ++ lexedLater files names p) at hextra
  rw [← f.written_iff, header, hextra, Option.map_eq_some_iff]
  constructor
  · rintro ⟨text, htext, happend⟩
    rw [htext, List.append_cancel_right happend]
  · exact fun h => ⟨_, h, rfl⟩

end Copies

/-- An interface in a package, with no imports. -/
def plainMain : Parsed := { importingMain with imports := [] }

/-- A block with nothing in front of it and nothing behind. -/
def CopyBlock.file (block : CopyBlock) : CopyFile := ⟨[], block, [], by simp⟩

/-- What `generate_cpp` finds of a file that imports nothing. -/
def CopyFile.generation (f : CopyFile) : Generation := ⟨[], ExtraTexts.empty.run f.lexed⟩

theorem plainMain_generates (f : CopyFile) :
    Generates noFiles cregisterBaseTypes (plainMain.withBlock f) f.generation := by
  have hitems : (plainMain.document.getD .null).items.isEmpty = false := rfl
  have haccepted : accepted cregisterBaseTypes (plainMain.document.getD .null) [] [] = true := by
    decide +kernel
  have hafter : afterImports cregisterBaseTypes (plainMain.withBlock f) []
      (.start (plainMain.withBlock f)) = some f.generation := by
    change (if (false || (plainMain.document.getD .null).items.isEmpty) = true then none
      else if accepted cregisterBaseTypes (plainMain.document.getD .null) [] [] = true then
        some f.generation else none) = some f.generation
    rw [hitems, haccepted]
    rfl
  have hclasses : (plainMain.withBlock f).classes = some [] := rfl
  rw [Generates, ccompileImports_eq hclasses]
  exact congrArg some hafter

/-- A block of one line. -/
def lineBlock : CopyBlock := ⟨ascii "#include <a.h>\n", by decide +kernel⟩

/-- A block with a percent sign in its line. -/
def percentBlock : CopyBlock := ⟨ascii "100%\n", by decide +kernel⟩

theorem line_copied :
    header lineBlock.file.generation.extra [] = some (lineBlock.text ++ []) ↔
      lineBlock.file.Copies (lexedLater noFiles cregisterBaseTypes plainMain) :=
  header_iff lineBlock.file (plainMain_generates lineBlock.file) []

/-- Of the line with the percent sign only its end is copied. -/
theorem percent_not_copied : ¬ ∀ (f : CopyFile) (files : Files) (names : CNames) (p : Parsed)
    (run : Generation) (document : String8), Generates files names (p.withBlock f) run →
      header run.extra document = some (f.block.text ++ document) := by
  intro h
  have hheader := h percentBlock.file _ _ _ _ [] (plainMain_generates percentBlock.file)
  revert hheader
  decide +kernel

end Cdroid.Aidl
