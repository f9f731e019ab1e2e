import Cdroid.Aidl.Language
import Cdroid.Lib.Lines

/-! What the lexer keeps of comments and of copy blocks. Both go to one list of records, and a
copy block hands over the first record of the list. -/

namespace Cdroid.Aidl
open Cdroid.Runtime Cdroid.Lib.Lines

/-! ## The records -/

/-- `extra_text_type` without the line; no text is a null pointer. -/
structure ExtraText where
  data : Option String8
  deriving DecidableEq

def ExtraText.append (r : ExtraText) (text : String8) : ExtraText :=
  ⟨some (r.data.getD [] ++ cString text)⟩

/-- The list of records from `g_extraText` to `g_nextExtraText`, and `g_copyExtra`. -/
structure ExtraTexts where
  texts : List ExtraText
  g_copyExtra : Option ExtraText
  deriving DecidableEq

def ExtraTexts.empty : ExtraTexts := ⟨[], none⟩

/-- `append_extra_text`, on the last record. The rules that append are those of the states
that a record was begun for. -/
def appendExtraText (text : String8) : List ExtraText → List ExtraText
  | [] => []
  | [r] => [r.append text]
  | r :: rs => r :: appendExtraText text rs

/-- What the rules of the lexer do about the records. -/
inductive Action
  | begin_extra_text
  | append_extra_text (text : String8)
  /-- The end of a copy block. -/
  | copied
  /-- `SET_BUFFER` -/
  | token
  deriving DecidableEq

/-- A rule. `get_extra_text` clears the list. -/
def ExtraTexts.act (s : ExtraTexts) : Action → ExtraTexts
  | .begin_extra_text => { s with texts := s.texts ++ [⟨none⟩] }
  | .append_extra_text text => { s with texts := appendExtraText text s.texts }
  | .copied => ⟨[], s.texts.head?⟩
  | .token => { s with texts := [] }

def ExtraTexts.run (s : ExtraTexts) (actions : List Action) : ExtraTexts :=
  actions.foldl ExtraTexts.act s

/-! ## Copy blocks -/

def closing : String8 := ascii "\x7d%%"

/-- What `[^\%]*\n` matches. -/
def copyLine (s : String8) : Nat :=
  match rfind (byte '\n') (s.takeWhile (· ≠ byte '%')) with
  | some (line, _) => line.length + 1
  | none => 0

/-- The state `COPYING`, and what is behind it. The longest match wins, and the first rule
among equals; the rule for newlines never matches more than the one for lines. What no rule
matches is echoed. -/
def lexCopying : Nat → String8 → List Action × String8
  | 0, s => ([], s)
  | _, [] => ([], [])
  | k + 1, b :: s =>
    if closing.isPrefixOf (b :: s) ∧ copyLine (b :: s) ≤ closing.length then
      ([.copied], (b :: s).drop closing.length)
    else if 0 < copyLine (b :: s) then
      let (actions, rest) := lexCopying k ((b :: s).drop (copyLine (b :: s)))
      (.append_extra_text ((b :: s).take (copyLine (b :: s))) :: actions, rest)
    else lexCopying k s

/-- A text between the two marks. -/
structure CopyBlock where
  text : String8
  open_ : ¬ closing <:+: text

def CopyBlock.actions (block : CopyBlock) : List Action :=
  .begin_extra_text ::
    (lexCopying (block.text.length + closing.length) (block.text ++ closing)).1

/-! ## Comments -/

/-- The state `LONG_COMMENT`, and what is behind it: text with no star, or stars with the
character behind them. A slash there ends the comment. -/
def lexLongComment : Nat → String8 → List Action × String8
  | 0, s => ([], s)
  | _, [] => ([], [])
  | k + 1, b :: s =>
    if b ≠ byte '*' then
      let (actions, rest) := lexLongComment k ((b :: s).dropWhile (· ≠ byte '*'))
      (.append_extra_text ((b :: s).takeWhile (· ≠ byte '*')) :: actions, rest)
    else match (b :: s).dropWhile (· = byte '*') with
      | [] =>
        -- at the end of the file the last star counts as the character behind
        if s = [] then ([], []) else ([.append_extra_text (b :: s)], [])
      | c :: rest =>
        if c = byte '/' then ([], rest)
        else
          let (actions, rest') := lexLongComment k rest
          (.append_extra_text ((b :: s).takeWhile (· = byte '*') ++ [c]) :: actions, rest')

/-- A comment: to the end of the line, or between the two marks. -/
inductive Comment
  | short (text : String8) (line : byte '\n' ∉ text)
  | long (text : String8) (open_ : ¬ ascii "*/" <:+: text)

/-- What a comment begins with, and what it appends. -/
def Comment.texts : Comment → List String8
  | .short text _ => [ascii "//" ++ text ++ ascii "\n"]
  | .long text _ =>
    (lexLongComment (text.length + 2) (text ++ ascii "*/")).1.filterMap fun
      | .append_extra_text text => some text
      | _ => none

def Comment.actions (c : Comment) : List Action :=
  .begin_extra_text :: c.texts.map .append_extra_text

/-! ## generate_cpp -/

/-- What is printed of `g_copyExtra`. A record without text is printed through a null
pointer. -/
def written : Option ExtraText → Option String8
  | none => some []
  | some r => r.data

/-- The header: what is copied, and the document. -/
def header (s : ExtraTexts) (document : String8) : Option String8 :=
  (written s.g_copyExtra).map (· ++ document)

/-! ## What is appended -/

/-- A record of these texts. -/
def ExtraText.of (texts : List String8) : ExtraText :=
  ⟨if texts = [] then none else some (texts.map cString).flatten⟩

theorem ExtraText.append_of (texts : List String8) (text : String8) :
    (ExtraText.of texts).append text = ExtraText.of (texts ++ [text]) := by
  cases texts <;> simp [ExtraText.of, ExtraText.append]

theorem appendExtraText_snoc (text : String8) (rs : List ExtraText) (r : ExtraText) :
    appendExtraText text (rs ++ [r]) = rs ++ [r.append text] := by
  induction rs with
  | nil => rfl
  | cons r' rs ih =>
    cases rs with
    | nil => rfl
    | cons r'' rs => exact congrArg (r' :: ·) ih

namespace ExtraTexts

theorem run_append (s : ExtraTexts) (as bs : List Action) : s.run (as ++ bs) = (s.run as).run bs :=
  List.foldl_append

theorem run_texts (rs : List ExtraText) (before texts : List String8) (g : Option ExtraText) :
    run ⟨rs ++ [.of before], g⟩ (texts.map .append_extra_text) =
      ⟨rs ++ [.of (before ++ texts)], g⟩ := by
  induction texts generalizing before with
  | nil => simp [run]
  | cons text texts ih =>
    have hstep : act ⟨rs ++ [.of before], g⟩ (.append_extra_text text) =
        ⟨rs ++ [.of (before ++ [text])], g⟩ := by
      rw [act, appendExtraText_snoc, ExtraText.append_of]
    rw [List.map_cons, run, List.foldl_cons, hstep, ← run, ih, List.append_assoc]
    rfl

/-- A record that is begun and written. -/
theorem run_record (s : ExtraTexts) (texts : List String8) :
    s.run (.begin_extra_text :: texts.map .append_extra_text) =
      { s with texts := s.texts ++ [.of texts] } :=
  run_texts s.texts [] texts s.g_copyExtra

theorem run_comments (s : ExtraTexts) (cs : List Comment) :
    s.run (cs.flatMap Comment.actions) =
      { s with texts := s.texts ++ cs.map fun c => .of c.texts } := by
  induction cs generalizing s with
  | nil => simp [run]
  | cons c cs ih =>
    rw [List.flatMap_cons, run_append, Comment.actions, run_record, ih]
    simp

end ExtraTexts

/-! ## What is copied -/

/-- What the state `COPYING` appends of a text with no closing mark. -/
def copyTexts : Nat → String8 → List String8
  | 0, _ => []
  | _, [] => []
  | k + 1, b :: s =>
    if 0 < copyLine (b :: s) then
      (b :: s).take (copyLine (b :: s)) :: copyTexts k ((b :: s).drop (copyLine (b :: s)))
    else copyTexts k s

/-- What is copied goes up to the last newline in front of a percent sign. -/
theorem copyLine_pos {s : String8} (h : 0 < copyLine s) :
    ∃ line rest, s = line ++ byte '\n' :: rest ∧ byte '%' ∉ line ∧
      copyLine s = line.length + 1 := by
  rcases rfind_cases (byte '\n') (s.takeWhile (· ≠ byte '%')) with
    ⟨_, hnone⟩ | ⟨line, q, hline, _, hsome⟩
  · rw [copyLine, hnone] at h
    exact absurd h (Nat.lt_irrefl 0)
  · refine ⟨line, q ++ s.dropWhile (· ≠ byte '%'), ?_, ?_, ?_⟩
    · rw [← List.cons_append, ← List.append_assoc, ← hline, List.takeWhile_append_dropWhile]
    · intro hmem
      have hmem' : byte '%' ∈ s.takeWhile (· ≠ byte '%') := by
        rw [hline]
        exact List.mem_append_left _ hmem
      simpa using List.mem_takeWhile_imp hmem'
    · rw [copyLine, hsome]

/-- A line as it is copied. -/
theorem take_copyLine {s : String8} (h : 0 < copyLine s) :
    ∃ line, s.take (copyLine s) = line ++ [byte '\n'] ∧ byte '%' ∉ line := by
  obtain ⟨line, rest, hs, hpercent, hlen⟩ := copyLine_pos h
  refine ⟨line, ?_, hpercent⟩
  rw [hlen, hs]
  simp [List.take_append, List.take_of_length_le]

theorem copyTexts_line {k : Nat} {s : String8} :
    ∀ text ∈ copyTexts k s, ∃ line, text = line ++ [byte '\n'] ∧ byte '%' ∉ line := by
  induction k generalizing s with
  | zero => simp [copyTexts]
  | succ k ih =>
    cases s with
    | nil => simp [copyTexts]
    | cons b s =>
      rw [copyTexts]
      split
      · next hpos =>
        rw [List.forall_mem_cons]
        exact ⟨take_copyLine hpos, ih⟩
      · exact ih

theorem copyTexts_subset {k : Nat} {s : String8} : ∀ text ∈ copyTexts k s, text ⊆ s := by
  induction k generalizing s with
  | zero => simp [copyTexts]
  | succ k ih =>
    cases s with
    | nil => simp [copyTexts]
    | cons b s =>
      rw [copyTexts]
      split
      · rw [List.forall_mem_cons]
        exact ⟨List.take_subset _ _, fun text ht _ hc => List.mem_of_mem_drop (ih text ht hc)⟩
      · exact fun text ht _ hc => List.mem_cons_of_mem b (ih text ht hc)

/-- The texts that are copied whole: lines, with no percent sign and no zero. -/
structure Copyable (text : String8) : Prop where
  newline : text.getLast? = some (byte '\n')
  percent : byte '%' ∉ text
  zero : 0 ∉ text

theorem cString_eq_self {s : String8} (h : 0 ∉ s) : cString s = s := by
  rw [cString, List.takeWhile_eq_self_iff]
  intro b hb
  simpa using fun e : b = 0 => h (e ▸ hb)

theorem zero_not_mem_cString (s : String8) : 0 ∉ cString s := by
  intro h
  simpa using List.mem_takeWhile_imp h

theorem copyTexts_copyable {text : String8} (h : Copyable text) :
    copyTexts text.length text = [text] := by
  obtain ⟨line, rfl⟩ := List.getLast?_eq_some_iff.mp h.newline
  have hwhole : (line ++ [byte '\n']).takeWhile (· ≠ byte '%') = line ++ [byte '\n'] := by
    rw [List.takeWhile_eq_self_iff]
    intro b hb
    simpa using fun e : b = byte '%' => h.percent (e ▸ hb)
  have hlen : copyLine (line ++ [byte '\n']) = (line ++ [byte '\n']).length := by
    rw [copyLine, hwhole, rfind_append line (by simp)]
    simp
  have hpos : 0 < copyLine (line ++ [byte '\n']) := by
    rw [hlen]
    simp
  obtain ⟨b, s, hs⟩ := List.exists_cons_of_ne_nil (show line ++ [byte '\n'] ≠ [] by simp)
  rw [hs] at hlen hpos ⊢
  rw [List.length_cons, copyTexts, if_pos hpos, hlen, List.take_length, List.drop_length]
  cases s <;> rfl

/-- A text is copied whole exactly if it is copyable. -/
theorem copied_iff (text : String8) :
    (ExtraText.of (copyTexts text.length text)).data = some text ↔ Copyable text := by
  constructor
  · intro h
    have hne : copyTexts text.length text ≠ [] := by
      intro hnil
      rw [hnil] at h
      cases h
    have htext : ((copyTexts text.length text).map cString).flatten = text := by
      simpa [ExtraText.of, hne] using h
    have hzero : 0 ∉ text := by
      rw [← htext, List.mem_flatten]
      rintro ⟨s, hs, hmem⟩
      obtain ⟨s', _, rfl⟩ := List.mem_map.mp hs
      exact zero_not_mem_cString s' hmem
    have hpercent : byte '%' ∉ text := by
      rw [← htext, List.mem_flatten]
      rintro ⟨s, hs, hmem⟩
      obtain ⟨s', hs', rfl⟩ := List.mem_map.mp hs
      obtain ⟨line, rfl, hline⟩ := copyTexts_line s' hs'
      rcases List.mem_append.mp (List.takeWhile_subset _ hmem) with hmem | hmem
      · exact hline hmem
      · exact absurd (List.mem_singleton.mp hmem) (by decide)
    refine ⟨?_, hpercent, hzero⟩
    -- the last text that is copied is a line, and with no zero it is there to its end
    obtain ⟨texts, last, hlast⟩ := (List.eq_nil_or_concat _).resolve_left hne
    have hmem : last ∈ copyTexts text.length text := by simp [hlast]
    have hkept : cString last = last :=
      cString_eq_self fun h0 => hzero (copyTexts_subset last hmem h0)
    obtain ⟨line, rfl, _⟩ := copyTexts_line last hmem
    rw [← htext, hlast, List.concat_eq_append, List.map_append, List.map_singleton, hkept,
      List.flatten_append]
    simp
  · intro h
    rw [copyTexts_copyable h]
    simp [ExtraText.of, cString_eq_self h.zero]

/-! ## The end of a block -/

theorem copyLine_closing (text rest : String8) :
    copyLine (text ++ closing ++ rest) = copyLine text := by
  rw [copyLine, copyLine, List.append_assoc]
  by_cases hpercent : byte '%' ∈ text
  · -- the first percent sign is in the text
    have hshort : (text.takeWhile (· ≠ byte '%')).length ≠ text.length := by
      intro hlen
      have hself := (List.takeWhile_prefix _).eq_of_length hlen
      rw [← hself] at hpercent
      simpa using List.mem_takeWhile_imp hpercent
    rw [List.takeWhile_append, if_neg hshort]
  · have htext : ∀ b ∈ text, decide (b ≠ byte '%') = true := by
      intro b hb
      simpa using fun e : b = byte '%' => hpercent (e ▸ hb)
    have hclosing : (closing ++ rest).takeWhile (· ≠ byte '%') = [byte '}'] := rfl
    rw [List.takeWhile_append_of_pos htext, hclosing,
      List.takeWhile_eq_self_iff.mpr htext, rfind_append_of_not_mem _ (by decide)]
    cases rfind (byte '\n') text <;> rfl

/-- The closing mark does not begin in the text. -/
theorem not_prefix_closing {text : String8} (h : ¬ closing <:+: text) (hne : text ≠ [])
    (rest : String8) : ¬ closing <+: text ++ closing ++ rest := by
  have hclosing : closing = [byte '}', byte '%', byte '%'] := by decide
  have hbytes : byte '%' ≠ byte '}' := by decide
  intro hpre
  match text, h, hne, hpre with
  | [a], _, _, hpre =>
    simp [hclosing, hbytes] at hpre
  | [a, b], _, _, hpre =>
    simp [hclosing, hbytes] at hpre
  | a :: b :: c :: text, h, _, hpre =>
    refine h (List.IsPrefix.isInfix ?_)
    simpa [hclosing] using hpre

theorem lexCopying_closing {k k' : Nat} {text : String8} (h : ¬ closing <:+: text)
    (hk : text.length < k) (hk' : text.length ≤ k') (rest : String8) :
    lexCopying k (text ++ closing ++ rest) =
      ((copyTexts k' text).map .append_extra_text ++ [.copied], rest) := by
  induction k generalizing text k' with
  | zero => exact absurd hk (Nat.not_lt_zero _)
  | succ k ih =>
    cases text with
    | nil =>
      have hzero : copyLine (closing ++ rest) = 0 := copyLine_closing [] rest
      have hnone : copyTexts k' [] = [] := by cases k' <;> rfl
      rw [hnone]
      change lexCopying (k + 1) (byte '}' :: byte '%' :: byte '%' :: rest) = _
      have hpre : closing.isPrefixOf (byte '}' :: byte '%' :: byte '%' :: rest) := rfl
      have hle : copyLine (byte '}' :: byte '%' :: byte '%' :: rest) ≤ closing.length :=
        hzero.le.trans (Nat.zero_le _)
      rw [lexCopying, if_pos ⟨hpre, hle⟩]
      rfl
    | cons b text =>
      have hpre : ¬ closing.isPrefixOf (b :: (text ++ closing ++ rest)) := by
        rw [List.isPrefixOf_iff_prefix]
        exact not_prefix_closing h (by simp) rest
      obtain ⟨k', rfl⟩ : ∃ n, k' = n + 1 := ⟨k' - 1, by simp at hk'; omega⟩
      have hline := copyLine_closing (b :: text) rest
      simp only [List.length_cons] at hk hk'
      simp only [List.cons_append] at hline ⊢
      rw [lexCopying, if_neg (fun hc => hpre hc.1), copyTexts, hline]
      split
      · next hpos =>
        have hle : copyLine (b :: text) ≤ (b :: text).length := by
          obtain ⟨line, tail, hs, _, hlen⟩ := copyLine_pos hpos
          rw [hlen, hs]
          simp
        have htake : (b :: (text ++ closing ++ rest)).take (copyLine (b :: text)) =
            (b :: text).take (copyLine (b :: text)) := by
          rw [← List.cons_append, ← List.cons_append, List.append_assoc,
            List.take_append_of_le_length hle]
        have hdrop : (b :: (text ++ closing ++ rest)).drop (copyLine (b :: text)) =
            (b :: text).drop (copyLine (b :: text)) ++ closing ++ rest := by
          rw [← List.cons_append, ← List.cons_append, List.append_assoc,
            List.drop_append_of_le_length hle, List.append_assoc]
        have hopen : ¬ closing <:+: (b :: text).drop (copyLine (b :: text)) :=
          fun hin => h (hin.trans (List.drop_suffix _ _).isInfix)
        have hlen := List.length_drop (i := copyLine (b :: text)) (l := b :: text)
        rw [List.length_cons] at hlen
        have hrest := ih hopen (by omega) (show _ ≤ k' by omega)
        rw [htake, hdrop, hrest]
        rfl
      · have hopen : ¬ closing <:+: text :=
          fun hin => h (hin.trans (List.suffix_cons b text).isInfix)
        exact ih hopen (by omega) (by omega)

/-! ## What a block hands over -/

def Action.clears : Action → Bool
  | .begin_extra_text | .append_extra_text _ => false
  | .copied | .token => true

def Action.text : Action → Option String8
  | .append_extra_text text => some text
  | _ => none

/-- The first record of a part in which the list is not cleared: what is appended up to the
next one. -/
def firstRecord (part : List Action) : Option ExtraText :=
  match part.dropWhile (·.text.isSome) with
  | [] => none
  | _ :: more => some (.of ((more.takeWhile (·.text.isSome)).filterMap Action.text))

/-- The part in front of the end of the last block, back to where the list was cleared. -/
def lastPart (actions : List Action) : List Action :=
  (((actions.reverse.dropWhile (· ≠ .copied)).drop 1).takeWhile (!·.clears)).reverse

/-- The record that the last block hands over. -/
def handedOver (actions : List Action) : Option ExtraText := firstRecord (lastPart actions)

namespace ExtraTexts

variable {actions : List Action}

theorem run_not_copied (s : ExtraTexts) (h : .copied ∉ actions) :
    (s.run actions).g_copyExtra = s.g_copyExtra := by
  induction actions generalizing s with
  | nil => rfl
  | cons a actions ih =>
    rw [List.mem_cons, not_or] at h
    have hact : (s.act a).g_copyExtra = s.g_copyExtra := by
      cases a with
      | copied => exact absurd rfl h.1
      | begin_extra_text => rfl
      | append_extra_text text => rfl
      | token => rfl
    exact (ih (s.act a) h.2).trans hact

/-- Behind the first two records, nothing changes the first. -/
theorem run_second (r r' : ExtraText) (rs : List ExtraText) (g : Option ExtraText)
    (h : ∀ a ∈ actions, a.clears = false) :
    (run ⟨r :: r' :: rs, g⟩ actions).texts.head? = some r := by
  induction actions generalizing r' rs with
  | nil => rfl
  | cons a actions ih =>
    rw [List.forall_mem_cons] at h
    cases a with
    | begin_extra_text => exact ih r' (rs ++ [⟨none⟩]) h.2
    | append_extra_text text =>
      obtain ⟨r'', rs', hrs⟩ : ∃ r'' rs', appendExtraText text (r' :: rs) = r'' :: rs' := by
        cases rs <;> exact ⟨_, _, rfl⟩
      have hact : act ⟨r :: r' :: rs, g⟩ (.append_extra_text text) = ⟨r :: r'' :: rs', g⟩ := by
        rw [act, appendExtraText, hrs]
        simp
      rw [run, List.foldl_cons, hact]
      exact ih r'' rs' h.2
    | copied => cases h.1
    | token => cases h.1

theorem run_first (before : List String8) (g : Option ExtraText)
    (h : ∀ a ∈ actions, a.clears = false) :
    (run ⟨[.of before], g⟩ actions).texts.head? =
      some (.of (before ++ (actions.takeWhile (·.text.isSome)).filterMap Action.text)) := by
  induction actions generalizing before with
  | nil => simp [run]
  | cons a actions ih =>
    rw [List.forall_mem_cons] at h
    cases a with
    | begin_extra_text =>
      have hact : act ⟨[.of before], g⟩ .begin_extra_text = ⟨[.of before, ⟨none⟩], g⟩ := rfl
      rw [run, List.foldl_cons, hact, ← run, run_second _ _ _ g h.2]
      simp [Action.text]
    | append_extra_text text =>
      have hact : act ⟨[.of before], g⟩ (.append_extra_text text) =
          ⟨[.of (before ++ [text])], g⟩ := by
        rw [act, appendExtraText, ExtraText.append_of]
      rw [run, List.foldl_cons, hact, ← run, ih _ h.2]
      simp [Action.text]
    | copied => cases h.1
    | token => cases h.1

theorem run_part (g : Option ExtraText) (h : ∀ a ∈ actions, a.clears = false) :
    (run ⟨[], g⟩ actions).texts.head? = firstRecord actions := by
  induction actions with
  | nil => rfl
  | cons a actions ih =>
    rw [List.forall_mem_cons] at h
    cases a with
    | begin_extra_text => exact run_first [] g h.2
    | append_extra_text text => exact ih h.2
    | copied => cases h.1
    | token => cases h.1

/-- The part of a run in which the list is not cleared begins with an empty list. -/
theorem run_cleared (g : Option ExtraText) (actions : List Action) :
    (run ⟨[], g⟩ actions).texts.head? =
      firstRecord (actions.reverse.takeWhile (!·.clears)).reverse := by
  have hsplit : actions = (actions.reverse.dropWhile (!·.clears)).reverse ++
      (actions.reverse.takeWhile (!·.clears)).reverse := by
    rw [← List.reverse_append, List.takeWhile_append_dropWhile, List.reverse_reverse]
  have hpart : ∀ a ∈ (actions.reverse.takeWhile (!·.clears)).reverse, a.clears = false := by
    intro a ha
    simpa using List.mem_takeWhile_imp (List.mem_reverse.mp ha)
  have hempty : (run ⟨[], g⟩ (actions.reverse.dropWhile (!·.clears)).reverse).texts = [] := by
    cases hdrop : actions.reverse.dropWhile (!·.clears) with
    | nil => rfl
    | cons a before =>
      have hclears : a.clears = true := by
        have hnot := List.head_dropWhile_not (!·.clears) (l := actions.reverse)
          (by rw [hdrop]; exact List.cons_ne_nil _ _)
        simpa [hdrop] using hnot
      rw [List.reverse_cons, run_append]
      cases a with
      | begin_extra_text => cases hclears
      | append_extra_text text => cases hclears
      | copied => rfl
      | token => rfl
  have hrun := run_append ⟨[], g⟩ (actions.reverse.dropWhile (!·.clears)).reverse
    (actions.reverse.takeWhile (!·.clears)).reverse
  rw [← hsplit] at hrun
  generalize run ⟨[], g⟩ (actions.reverse.dropWhile (!·.clears)).reverse = s at hrun hempty
  obtain ⟨texts, g'⟩ := s
  obtain rfl : texts = [] := hempty
  rw [hrun, run_part g' hpart]

/-- What the last block hands over. -/
theorem run_copied (g : Option ExtraText) (h : .copied ∈ actions) :
    (run ⟨[], g⟩ actions).g_copyExtra = handedOver actions := by
  have hsplit : actions.reverse = actions.reverse.takeWhile (· ≠ .copied) ++
      actions.reverse.dropWhile (· ≠ .copied) := List.takeWhile_append_dropWhile.symm
  have hafter : .copied ∉ (actions.reverse.takeWhile (· ≠ .copied)).reverse := by
    intro hmem
    simpa using List.mem_takeWhile_imp (List.mem_reverse.mp hmem)
  rw [handedOver, lastPart]
  cases hdrop : actions.reverse.dropWhile (· ≠ .copied) with
  | nil =>
    rw [hdrop, List.append_nil] at hsplit
    rw [← hsplit, List.reverse_reverse] at hafter
    exact absurd h hafter
  | cons a before =>
    have ha : a = .copied := by
      have hnot := List.head_dropWhile_not (· ≠ .copied) (l := actions.reverse)
        (by rw [hdrop]; exact List.cons_ne_nil _ _)
      simp only [hdrop, List.head_cons] at hnot
      simpa using hnot
    rw [hdrop] at hsplit
    have hactions := congrArg List.reverse hsplit
    rw [List.reverse_reverse, List.reverse_append, List.reverse_cons, ha] at hactions
    rw [hactions, run_append, run_not_copied _ hafter, run_append]
    have hcleared := run_cleared g before.reverse
    rw [List.reverse_reverse] at hcleared
    exact hcleared

end ExtraTexts

end Cdroid.Aidl
