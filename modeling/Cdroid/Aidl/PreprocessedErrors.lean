import Cdroid.Aidl.CType
import Cdroid.Aidl.Preprocess

/-! What `parse_preprocessed_file` returns. Only a type that is none of the three words is an
error: the value of `gather_types` is dropped, and a line that lacks something is completed
from the line before. -/

namespace Cdroid.Aidl
open Cdroid.Runtime Cdroid.Lib.Lines

/-! ## The return value -/

/-- What a round of the loop comes to; `unsaid` where a buffer that is not initialised is
read. -/
inductive Round
  | skipped
  | badType
  | declared (doc : DocumentItem) (b : Buffers)
  | unsaid

def round (b : Buffers) (line : String8) : Round :=
  if cString line = [] ∨ (cString line).take 2 = ascii "//" then .skipped
  else match sscanf (cString line) b with
    | ⟨some type, some fullname⟩ =>
      match item type (split fullname).1 (split fullname).2 with
      | some doc => .declared doc ⟨some type, some ((split fullname).1.getD fullname)⟩
      | none => .badType
    | _ => .unsaid

variable {σ : Type} (gather_types : σ → DocumentItem → σ × Bool)

/-- The loop, with what `gather_types` keeps and the return value. Its `err` is not looked
at. -/
def parseLines : σ → Buffers → List String8 → Option (σ × Nat)
  | s, _, [] => some (s, 0)
  | s, b, line :: ls =>
    match round b line with
    | .skipped => parseLines s b ls
    | .badType => some (s, 1)
    | .declared doc b => parseLines (gather_types s doc).1 b ls
    | .unsaid => none

/-- What `fgets` returns of a file, a line or a full buffer at a time. -/
def pieces (text : String8) : List String8 := lines (byte '\n') 1023 text

/-- `parse_preprocessed_file` -/
def parsePreprocessed (s : σ) (text : String8) : Option (σ × Nat) :=
  parseLines gather_types s ⟨none, none⟩ (pieces text)

/-- The rounds are those that tell which items are declared. -/
theorem readLine_round (b : Buffers) (line : String8) : readLine b line =
    match round b line with
    | .skipped => some ([], b)
    | .declared doc b => some ([doc], b)
    | _ => none := by
  unfold readLine round cString
  by_cases hskip : line.takeWhile (· ≠ 0) = [] ∨ (line.takeWhile (· ≠ 0)).take 2 = ascii "//"
  · simp only [if_pos hskip]
  · simp only [if_neg hskip]
    rcases sscanf (line.takeWhile (· ≠ 0)) b with ⟨_ | type, _ | fullname⟩
    · rfl
    · rfl
    · rfl
    · dsimp only
      rw [declare]
      cases item type (split fullname).1 (split fullname).2 <;> rfl

/-! ## Lines -/

/-- The lines of the file, however long. -/
def wholeLines (text : String8) : List String8 := lines (byte '\n') (text.length + 1) text

def blank (line : String8) : Bool := line.all isspace

def comment (line : String8) : Bool := line.take 2 = ascii "//"

/-- What stands behind the name. -/
def behindName (line : String8) : String8 :=
  (((line.dropWhile isspace).dropWhile (!isspace ·)).dropWhile isspace).dropWhile (!stop ·)

/-- A semicolon, and nothing behind it. -/
def closed : String8 → Bool
  | [] => false
  | b :: s => b = byte ';' && s.all isspace

/-- The item that a well-formed line declares: one of the three words, a name, and a
semicolon. -/
def declaration (line : String8) : Option DocumentItem :=
  if 0 ∉ line ∧ name line ≠ [] ∧ closed (behindName line) then
    item (word line) (split (name line)).1 (split (name line)).2
  else none

/-- Every line that is not blank and no comment is a declaration that `gather_types` takes. -/
def Registers : σ → List String8 → Prop
  | _, [] => True
  | s, line :: ls =>
    if blank line ∨ comment line then Registers s ls
    else ∃ doc, declaration line = some doc ∧ (gather_types s doc).2 = false ∧
      Registers (gather_types s doc).1 ls

/-- The return value tells whether there is anything wrong with the lines of the file. -/
def Reports (s : σ) (text : String8) : Prop :=
  ∃ s' r, parsePreprocessed gather_types s text = some (s', r) ∧
    (r ≠ 0 ↔ ¬ Registers gather_types s (wholeLines text))

/-! ## Pieces -/

def skipped (piece : String8) : Bool :=
  cString piece = [] || (cString piece).take 2 = ascii "//"

/-- Both buffers are filled from the piece. -/
def full (piece : String8) : Bool :=
  word (cString piece) ≠ [] && name (cString piece) ≠ []

def keyword (type : String8) : Bool :=
  type = ascii "parcelable" || type = ascii "flattenable" || type = ascii "interface"

/-- The piece begins with a word that is no type. -/
def foreign (piece : String8) : Bool :=
  !skipped piece && word (cString piece) ≠ [] &&
    !keyword (word (cString piece))

/-- What the code hears of: the first line fills both buffers, and where no piece begins with
another word, and only there, every line is a declaration that is taken. -/
structure Heard (s : σ) (text : String8) : Prop where
  begun : ∀ piece, (pieces text).find? (!skipped ·) = some piece → full piece
  noticed : (∀ piece ∈ pieces text, foreign piece = false) →
    Registers gather_types s (wholeLines text)
  quiet : Registers gather_types s (wholeLines text) → ∀ piece ∈ pieces text, foreign piece = false

/-! ## The loop -/

section Loop
variable {gather_types} {s : σ} {b : Buffers} {piece : String8}

theorem item_eq_none {type : String8} {p : Option String8} {n : String8} :
    item type p n = none ↔ keyword type = false := by
  unfold item keyword
  by_cases hp : type = ascii "parcelable"
  · rw [if_pos hp]
    simp [hp]
  · rw [if_neg hp]
    by_cases hf : type = ascii "flattenable"
    · rw [if_pos hf]
      simp [decide_eq_true hf]
    · rw [if_neg hf]
      by_cases hi : type = ascii "interface"
      · rw [if_pos hi]
        simp [decide_eq_true hi]
      · rw [if_neg hi]
        simp [hp, hf, hi]

/-- Both buffers have been filled, and the type has been found to be one. -/
def Buffers.Begun (b : Buffers) : Prop :=
  ∃ type fullname, b = ⟨some type, some fullname⟩ ∧ keyword type = true

/-- Whatever is scanned, the type is that of the piece or, if it has no word, the one
before. -/
theorem round_scanned {type fullname : String8} (hskip : skipped piece = false)
    (hscan : sscanf (cString piece) b = ⟨some type, some fullname⟩) :
    if keyword type then ∃ doc b', round b piece = .declared doc b' ∧ b'.Begun
    else round b piece = .badType := by
  have hnot : ¬(cString piece = [] ∨
      (cString piece).take 2 = ascii "//") := by
    simpa [skipped] using hskip
  unfold round
  simp only [if_neg hnot, hscan]
  cases hitem : item type (split fullname).1 (split fullname).2 with
  | none => simp [item_eq_none.mp hitem]
  | some doc =>
    have hkey : keyword type = true := by
      by_contra hkey
      rw [item_eq_none.mpr (by simpa using hkey)] at hitem
      cases hitem
    rw [if_pos hkey]
    exact ⟨doc, _, rfl, type, _, rfl, hkey⟩

theorem round_skipped (hskip : skipped piece = true) : round b piece = .skipped := by
  have hyes : cString piece = [] ∨
      (cString piece).take 2 = ascii "//" := by
    simpa [skipped] using hskip
  unfold round
  simp only [if_pos hyes]

theorem foreign_of_skipped (hskip : skipped piece = true) : foreign piece = false := by
  simp [foreign, hskip]

theorem foreign_eq (hskip : skipped piece = false)
    (hword : word (cString piece) ≠ []) :
    foreign piece = !keyword (word (cString piece)) := by
  simp [foreign, hskip, hword]

/-- A piece that fills both buffers fails exactly at a word that is no type. -/
theorem round_full (hskip : skipped piece = false) (hfull : full piece = true) :
    if foreign piece then round b piece = .badType
    else ∃ doc b', round b piece = .declared doc b' ∧ b'.Begun := by
  simp only [full, ne_eq, Bool.and_eq_true, decide_eq_true_eq] at hfull
  obtain ⟨hword, hname⟩ := hfull
  have h := round_scanned (b := b) hskip ((if_neg hword).trans (if_neg hname))
  rw [foreign_eq hskip hword]
  cases hk : keyword (word (cString piece)) <;> rw [hk] at h <;> exact h

/-- One that does not reads what nothing was written to. -/
theorem round_unsaid (hskip : skipped piece = false) (hfull : full piece = false) :
    round ⟨none, none⟩ piece = .unsaid := by
  have hnot : ¬(cString piece = [] ∨
      (cString piece).take 2 = ascii "//") := by
    simpa [skipped] using hskip
  unfold round
  simp only [if_neg hnot]
  by_cases hword : word (cString piece) = []
  · rw [sscanf, if_pos hword]
  · have hname : name (cString piece) = [] := by
      simpa [full, hword] using hfull
    rw [sscanf, if_neg hword, if_pos hname]

/-- Once both buffers are filled, a round fails exactly at a word that is no type. -/
theorem round_begun (hb : b.Begun) (hskip : skipped piece = false) :
    if foreign piece then round b piece = .badType
    else ∃ doc b', round b piece = .declared doc b' ∧ b'.Begun := by
  obtain ⟨type, fullname, rfl, hkey⟩ := hb
  by_cases hword : word (cString piece) = []
  · have h := round_scanned (b := ⟨some type, some fullname⟩) hskip (if_pos hword)
    have hforeign : foreign piece = false := by simp [foreign, hword]
    rw [if_pos hkey] at h
    rw [hforeign, if_neg Bool.false_ne_true]
    exact h
  · by_cases hname : name (cString piece) = []
    · have h := round_scanned (b := ⟨some type, some fullname⟩) hskip
        ((if_neg hword).trans (if_pos hname))
      rw [foreign_eq hskip hword]
      cases hk : keyword (word (cString piece)) <;> rw [hk] at h <;> exact h
    · exact round_full hskip (by simp [full, hword, hname])

/-- The return value, once both buffers are filled. -/
theorem parseLines_begun (s : σ) (hb : b.Begun) (ps : List String8) :
    ∃ s', parseLines gather_types s b ps = some (s', if ps.any foreign then 1 else 0) := by
  induction ps generalizing s b with
  | nil => exact ⟨s, rfl⟩
  | cons piece ps ih =>
    rw [parseLines, List.any_cons]
    cases hskip : skipped piece with
    | true =>
      rw [round_skipped hskip, foreign_of_skipped hskip, Bool.false_or]
      exact ih s hb
    | false =>
      have h := round_begun hb hskip
      cases hforeign : foreign piece with
      | true =>
        rw [hforeign, if_pos rfl] at h
        rw [h]
        exact ⟨s, rfl⟩
      | false =>
        rw [hforeign, if_neg Bool.false_ne_true] at h
        obtain ⟨doc, b', hround, hb'⟩ := h
        rw [hround, Bool.false_or]
        exact ih _ hb'

/-- The buffers are filled by the first piece that is not skipped, or read as they are. -/
theorem parseLines_initial (s : σ) (ps : List String8) :
    if ∀ piece, ps.find? (!skipped ·) = some piece → full piece then
      ∃ s', parseLines gather_types s ⟨none, none⟩ ps = some (s', if ps.any foreign then 1 else 0)
    else parseLines gather_types s ⟨none, none⟩ ps = none := by
  induction ps with
  | nil => exact ⟨s, rfl⟩
  | cons piece ps ih =>
    rw [parseLines, List.any_cons, List.find?_cons]
    cases hskip : skipped piece with
    | true =>
      rw [round_skipped hskip, foreign_of_skipped hskip]
      exact ih
    | false =>
      simp only [Bool.not_false, Option.some.injEq, forall_eq']
      cases hfull : full piece with
      | false =>
        rw [if_neg Bool.false_ne_true, round_unsaid hskip hfull]
      | true =>
        rw [if_pos rfl]
        have h := round_full (b := ⟨none, none⟩) hskip hfull
        cases hforeign : foreign piece with
        | true =>
          rw [hforeign, if_pos rfl] at h
          rw [h]
          exact ⟨s, rfl⟩
        | false =>
          rw [hforeign, if_neg Bool.false_ne_true] at h
          obtain ⟨doc, b', hround, hb'⟩ := h
          rw [hround]
          exact parseLines_begun _ hb' ps

end Loop

/-! ## Lines that fit into the buffer -/

section Short
variable {gather_types} {s : σ} {line text : String8}

theorem Registers.declared {ls : List String8} (h : Registers gather_types s ls) :
    ∀ line ∈ ls, blank line ∨ comment line ∨ ∃ doc, declaration line = some doc := by
  induction ls generalizing s with
  | nil => simp
  | cons line ls ih =>
    rw [Registers] at h
    rw [List.forall_mem_cons]
    by_cases hskip : blank line ∨ comment line
    · rw [if_pos hskip] at h
      exact ⟨hskip.elim .inl (.inr ∘ .inl), ih h⟩
    · rw [if_neg hskip] at h
      obtain ⟨doc, hdoc, _, h⟩ := h
      exact ⟨.inr (.inr ⟨doc, hdoc⟩), ih h⟩

theorem not_foreign_of_comment (h : comment line) : foreign line = false := by
  apply foreign_of_skipped
  match line, h with
  | [], h => simp [comment, ascii] at h
  | [a], h => simp [comment, ascii] at h
  | a :: b :: line, h =>
    have hab : [a, b] = ascii "//" := of_decide_eq_true h
    obtain ⟨rfl, rfl⟩ : a = byte '/' ∧ b = byte '/' := by simpa [ascii, byte] using hab
    rfl

theorem not_foreign_of_blank (h : blank line) : foreign line = false := by
  have hcut : ∀ b ∈ cString line, isspace b = true :=
    fun b hb => List.all_eq_true.mp h b (List.takeWhile_subset _ hb)
  have hword : word (cString line) = [] := by
    rw [word, List.dropWhile_eq_nil_iff.mpr hcut]
    rfl
  simp [foreign, hword]

theorem not_foreign_of_declared {doc : DocumentItem} (h : declaration line = some doc) :
    foreign line = false := by
  rw [declaration] at h
  split at h
  · next hline =>
    have hcut : cString line = line := by
      rw [cString, List.takeWhile_eq_self_iff]
      intro b hb
      simpa using fun e : b = 0 => hline.1 (e ▸ hb)
    have hkey : keyword (word line) = true := by
      by_contra hkey
      rw [item_eq_none.mpr (by simpa using hkey)] at h
      cases h
    simp [foreign, hcut, hkey]
  · cases h

/-- A file is read line by line if none is too long for the buffer. -/
theorem pieces_of_short (h : ∀ line ∈ wholeLines text, line.length ≤ 1023) :
    pieces text = wholeLines text := by
  by_cases hlen : 1022 ≤ text.length
  · exact lines_of_short hlen h
  · refine (lines_of_short (by omega) ?_).symm
    intro line hl
    have := length_of_mem_lines hl
    omega

/-- Then a file without fault is read without fault. -/
theorem quiet_of_short (hshort : ∀ line ∈ wholeLines text, line.length ≤ 1023)
    (h : Registers gather_types s (wholeLines text)) :
    ∀ piece ∈ pieces text, foreign piece = false := by
  rw [pieces_of_short hshort]
  intro line hl
  rcases h.declared line hl with hblank | hcomment | ⟨doc, hdoc⟩
  · exact not_foreign_of_blank hblank
  · exact not_foreign_of_comment hcomment
  · exact not_foreign_of_declared hdoc

end Short

/-! ## The errors of the file -/

/-- For every text and whatever `gather_types` does: the return value tells whether there is
anything wrong with the lines of the file exactly if what is wrong can be heard of. -/
theorem preprocessed_errors_iff (s : σ) (text : String8) :
    Reports gather_types s text ↔ Heard gather_types s text := by
  have hrun := @parseLines_initial σ gather_types s (pieces text)
  by_cases hbegun : ∀ piece, (pieces text).find? (!skipped ·) = some piece → full piece
  · rw [if_pos hbegun] at hrun
    obtain ⟨s', hrun⟩ := hrun
    have hany : (pieces text).any foreign = false ↔
        ∀ piece ∈ pieces text, foreign piece = false := by
      simp
    constructor
    · rintro ⟨s'', r, hparse, hr⟩
      obtain ⟨rfl, rfl⟩ : s' = s'' ∧ (if (pieces text).any foreign then 1 else 0) = r := by
        simpa [parsePreprocessed, hrun] using hparse
      refine ⟨hbegun, fun hquiet => ?_, fun hreg => ?_⟩
      · by_contra hreg
        exact hr.mpr hreg (by simp [hany.mpr hquiet])
      · apply hany.mp
        by_contra hforeign
        exact hr.mp (by simp [hforeign]) hreg
    · rintro ⟨_, hnoticed, hquiet⟩
      refine ⟨s', _, hrun, ?_⟩
      cases hforeign : (pieces text).any foreign with
      | false => simpa using hnoticed (hany.mp hforeign)
      | true =>
        have hreg : ¬ Registers gather_types s (wholeLines text) := by
          intro hreg
          rw [hany.mpr (hquiet hreg)] at hforeign
          cases hforeign
        simpa using hreg
  · rw [if_neg hbegun] at hrun
    constructor
    · rintro ⟨_, _, hparse, _⟩
      rw [parsePreprocessed, hrun] at hparse
      cases hparse
    · exact fun h => absurd h.begun hbegun

/-- An item is handed to `cgather_types`. -/
def cgatherDeclared (names : CNames) (doc : DocumentItem) : CNames × Bool :=
  cgatherTypes names [doc]

/-- A parcelable, and an interface of its name. -/
def clash : String8 := ascii "parcelable a.B;\ninterface a.B;\n"

theorem clash_lines :
    wholeLines clash = [ascii "parcelable a.B;\n", ascii "interface a.B;\n"] := by
  decide +kernel

/-- The second line cannot be registered, and no error is returned. -/
theorem registration_not_reported : ¬ ∀ text, Reports cgatherDeclared cregisterBaseTypes text := by
  intro h
  obtain ⟨s', r, hparse, hr⟩ := h clash
  have hzero : (parsePreprocessed cgatherDeclared cregisterBaseTypes clash).map Prod.snd =
      some 0 := by
    decide +kernel
  rw [hparse] at hzero
  have hreg : Registers cgatherDeclared cregisterBaseTypes (wholeLines clash) := by
    by_contra hreg
    exact hr.mpr hreg (by simpa using hzero)
  rw [clash_lines, Registers, if_neg (by decide +kernel)] at hreg
  obtain ⟨doc, hdoc, _, hreg⟩ := hreg
  obtain rfl : DocumentItem.userData ⟨some (ascii "a"), ascii "B", PARCELABLE_DATA⟩ = doc := by
    have hline : declaration (ascii "parcelable a.B;\n") =
        some (.userData ⟨some (ascii "a"), ascii "B", PARCELABLE_DATA⟩) := by decide +kernel
    rw [hline] at hdoc
    exact Option.some.inj hdoc
  rw [Registers, if_neg (by decide +kernel)] at hreg
  obtain ⟨doc, hdoc, hgather, _⟩ := hreg
  obtain rfl : DocumentItem.interface ⟨.binder, false, some (ascii "a"), ascii "B", []⟩ = doc := by
    have hline : declaration (ascii "interface a.B;\n") =
        some (.interface ⟨.binder, false, some (ascii "a"), ascii "B", []⟩) := by decide +kernel
    rw [hline] at hdoc
    exact Option.some.inj hdoc
  revert hgather
  decide +kernel

end Cdroid.Aidl
