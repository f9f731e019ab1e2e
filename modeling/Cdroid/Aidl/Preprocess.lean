import Cdroid.Aidl.Language
import Cdroid.Lib.Lines
import Mathlib.Data.List.Chain

/-! The preprocessed files: the text that `preprocess_aidl` writes of a list of documents,
and the documents that `parse_preprocessed_file` makes of a text. -/

namespace Cdroid.Aidl
open Cdroid.Runtime Cdroid.Lib.Lines

/-! ## preprocess_aidl -/

namespace DocumentItem

/-- What the line begins with. -/
def head : DocumentItem → String8
  | .userData p =>
    let line := if p.flattening_methods &&& PARCELABLE_DATA ≠ 0 then ascii "parcelable " else []
    if p.flattening_methods &&& RPC_DATA ≠ 0 then ascii "flattenable " else line
  | .interface _ => ascii "interface "

def fullname (d : DocumentItem) : String8 :=
  match d.package with
  | some package => package ++ byte '.' :: d.name
  | none => d.name

def line (d : DocumentItem) : String8 := d.head ++ d.fullname ++ ascii ";\n"

end DocumentItem

/-- The text of the file. A document with no item leaves `g_document` null. -/
def preprocessAidl (docs : List Document) : Option String8 :=
  (docs.mapM fun (doc : Document) => doc.items.head?.map DocumentItem.line).map List.flatten

/-! ## parse_preprocessed_file -/

/-- The local `type` and `fullname`; `none` is not initialised. -/
structure Buffers where
  type : Option String8
  fullname : Option String8
  deriving DecidableEq

/-- The characters that end `%[^; \r\n\t]`. -/
def stop (b : UInt8) : Bool := b = byte ';' || whitespace b

/-- What `%s` reads. -/
def word (line : String8) : String8 := (line.dropWhile isspace).takeWhile (!isspace ·)

/-- What `%[^; \r\n\t]` reads behind it. -/
def name (line : String8) : String8 :=
  (((line.dropWhile isspace).dropWhile (!isspace ·)).dropWhile isspace).takeWhile (!stop ·)

/-- `sscanf(line, "%s %[^; \r\n\t];", type, fullname)`. What matches nothing is not
assigned, nor is what follows it. -/
def sscanf (line : String8) (b : Buffers) : Buffers :=
  if word line = [] then b
  else if name line = [] then { b with type := some (word line) }
  else ⟨some (word line), some (name line)⟩

/-- The item that a line declares. -/
def item (type : String8) (package : Option String8) (name : String8) : Option DocumentItem :=
  if type = ascii "parcelable" then some (.userData ⟨package, name, PARCELABLE_DATA⟩)
  else if type = ascii "flattenable" then some (.userData ⟨package, name, RPC_DATA⟩)
  else if type = ascii "interface" then some (.interface ⟨.binder, false, package, name, []⟩)
  else none

/-- `packagename` and `classname`. -/
def split (fullname : String8) : Option String8 × String8 :=
  match rfind (byte '.') fullname with
  | some (packagename, classname) => (some packagename, classname)
  | none => (none, fullname)

/-- What is made of the two buffers. The full name is cut in place. -/
def declare (type fullname : String8) : Option (List DocumentItem × Buffers) :=
  (item type (split fullname).1 (split fullname).2).map fun d =>
    ([d], ⟨some type, some ((split fullname).1.getD fullname)⟩)

/-- A round of the loop: what is handed to `gather_types`. A bad type is an error, and
what comes of a buffer that is not initialised is not said. -/
def readLine (b : Buffers) (line : String8) : Option (List DocumentItem × Buffers) :=
  let line := line.takeWhile (· ≠ 0)
  if line = [] ∨ line.take 2 = ascii "//" then some ([], b)
  else match sscanf line b with
    | ⟨some type, some fullname⟩ => declare type fullname
    | _ => none

def readLines : Buffers → List String8 → Option (List DocumentItem)
  | _, [] => some []
  | b, line :: ls => do
    let (ds, b) ← readLine b line
    let rest ← readLines b ls
    some (ds ++ rest)

/-- The items of a preprocessed file; `gather_types` cannot make the reading fail. -/
def parsePreprocessedFile (text : String8) : Option (List DocumentItem) :=
  readLines ⟨none, none⟩ (lines (byte '\n') 1023 text)

/-! ## What is declared -/

/-- The kind of an item (`none` for user data), its package, its name and its flattening
methods. -/
structure Signature where
  interface : Option InterfaceKind
  package : Option String8
  name : String8
  flattening_methods : Nat
  deriving DecidableEq

def DocumentItem.signature : DocumentItem → Signature
  | .userData p => ⟨none, p.package, p.name, p.flattening_methods⟩
  | .interface c => ⟨some c.kind, c.package, c.name, 0⟩

def items (docs : List Document) : List DocumentItem := docs.flatMap Document.items

/-- What is read of the file that is written of the documents. -/
def reread (docs : List Document) : Option (List DocumentItem) :=
  (preprocessAidl docs).bind parsePreprocessedFile

/-- The file declares what the documents declare. -/
def RoundTrips (docs : List Document) : Prop :=
  ∃ ds, reread docs = some ds ∧
    ∀ s, s ∈ ds.map DocumentItem.signature ↔ s ∈ (items docs).map DocumentItem.signature

/-! ## What a reading can declare -/

/-- No reading of any text declares anything else. -/
structure Signature.Readable (s : Signature) : Prop where
  name : byte '.' ∉ s.name
  visible : s.package = none → s.name.head?.any isspace = false
  flattening : s.flattening_methods ≠ PARCELABLE_DATA ||| RPC_DATA
  kind : s.interface ≠ some .rpc

/-- The full name does not begin with a space. -/
def Buffers.Trimmed (b : Buffers) : Prop :=
  ∀ f, b.fullname = some f → f.head?.any isspace = false

theorem split_none {f : String8} (h : byte '.' ∉ f) : split f = (none, f) := by
  rw [split, rfind_eq_none h]

theorem split_some {c : String8} (p : String8) (h : byte '.' ∉ c) :
    split (p ++ byte '.' :: c) = (some p, c) := by
  rw [split, rfind_append p h]

theorem head_dropWhile (p : UInt8 → Bool) (s : String8) : (s.dropWhile p).head?.any p = false := by
  induction s with
  | nil => rfl
  | cons a s ih =>
    by_cases h : p a
    · rw [List.dropWhile_cons_of_pos h]
      exact ih
    · rw [List.dropWhile_cons_of_neg h]
      simpa using h

theorem head_takeWhile {p q : UInt8 → Bool} {s : String8} (h : s.head?.any p = false) :
    (s.takeWhile q).head?.any p = false := by
  cases s with
  | nil => rfl
  | cons a s =>
    rw [List.takeWhile_cons]
    split
    · exact h
    · rfl

theorem sscanf_trimmed {b : Buffers} (h : b.Trimmed) (line : String8) :
    (sscanf line b).Trimmed := by
  rw [sscanf]
  split
  · exact h
  · split
    · exact h
    · intro f hf
      cases hf
      exact head_takeWhile (head_dropWhile isspace _)

theorem item_eq_some {type n : String8} {p : Option String8} {d : DocumentItem}
    (h : item type p n = some d) : d.signature.package = p ∧ d.signature.name = n ∧
      d.signature.flattening_methods ≠ PARCELABLE_DATA ||| RPC_DATA ∧
      d.signature.interface ≠ some .rpc := by
  simp only [item] at h
  split at h
  · cases h
    simp [DocumentItem.signature, PARCELABLE_DATA, RPC_DATA]
  · split at h
    · cases h
      simp [DocumentItem.signature, PARCELABLE_DATA, RPC_DATA]
    · split at h
      · cases h
        simp [DocumentItem.signature, PARCELABLE_DATA, RPC_DATA]
      · cases h

theorem declare_readable {type f : String8} {ds : List DocumentItem} {b : Buffers}
    (hf : f.head?.any isspace = false) (h : declare type f = some (ds, b)) :
    (∀ d ∈ ds, d.signature.Readable) ∧ b.Trimmed := by
  obtain ⟨d, hd, e⟩ := Option.map_eq_some_iff.mp h
  cases e
  obtain ⟨hp, hn, hfl, hi⟩ := item_eq_some hd
  simp only [List.mem_singleton, forall_eq]
  rcases rfind_cases (byte '.') f with ⟨hdot, _⟩ | ⟨p, q, rfl, hq, _⟩
  · rw [split_none hdot] at hp hn ⊢
    constructor
    · exact ⟨hn ▸ hdot, fun _ => hn ▸ hf, hfl, hi⟩
    · intro f' hf'
      cases hf'
      exact hf
  · rw [split_some p hq] at hp hn ⊢
    constructor
    · exact ⟨hn ▸ hq, fun e => by simp [hp] at e, hfl, hi⟩
    · intro f' hf'
      cases hf'
      cases p with
      | nil => rfl
      | cons a p => simpa using hf

theorem readLine_readable {b b' : Buffers} {line : String8} {ds : List DocumentItem}
    (hb : b.Trimmed) (h : readLine b line = some (ds, b')) :
    (∀ d ∈ ds, d.signature.Readable) ∧ b'.Trimmed := by
  simp only [readLine] at h
  split at h
  · cases h
    exact ⟨by simp, hb⟩
  · have ht := sscanf_trimmed hb (line.takeWhile (· ≠ 0))
    split at h
    · rename_i type f e
      apply declare_readable _ h
      exact ht f (by rw [e])
    · cases h

theorem readLines_readable {ls : List String8} {b : Buffers} {ds : List DocumentItem}
    (hb : b.Trimmed) (h : readLines b ls = some ds) : ∀ d ∈ ds, d.signature.Readable := by
  induction ls generalizing b ds with
  | nil =>
    cases h
    simp
  | cons line ls ih =>
    simp only [readLines, Option.bind_eq_bind, Option.bind_eq_some_iff] at h
    obtain ⟨⟨ds₁, b'⟩, h₁, ds₂, h₂, e⟩ := h
    cases e
    obtain ⟨hd, hb'⟩ := readLine_readable hb h₁
    intro d hm
    rcases List.mem_append.mp hm with hm | hm
    · exact hd d hm
    · exact ih hb' h₂ d hm

theorem parsePreprocessedFile_readable {text : String8} {ds : List DocumentItem}
    (h : parsePreprocessedFile text = some ds) : ∀ d ∈ ds, d.signature.Readable := by
  apply readLines_readable _ h
  intro f hf
  cases hf

/-! ## The line of an item -/

namespace DocumentItem

/-- A parcelable or a binder interface. -/
def plain : DocumentItem → Bool
  | .userData p => p.flattening_methods = PARCELABLE_DATA
  | .interface c => c.kind = .binder

def keyword : DocumentItem → String8
  | .userData _ => ascii "parcelable"
  | .interface _ => ascii "interface"

/-- The item, declared with another full name. -/
def rename (d : DocumentItem) (fullname : String8) : DocumentItem :=
  match d with
  | .userData _ => .userData ⟨(split fullname).1, (split fullname).2, PARCELABLE_DATA⟩
  | .interface _ => .interface ⟨.binder, false, (split fullname).1, (split fullname).2, []⟩

/-- What the cut leaves of the full name. -/
def rest (d : DocumentItem) : String8 := d.package.getD d.name

/-- A plain item whose name is not lost in the space before it. -/
structure Legible (d : DocumentItem) : Prop where
  parsed : d.parsed
  plain : d.plain
  visible : d.package = none → d.name.head?.any isspace = false

variable {d : DocumentItem}

theorem head_eq (h : d.plain) : d.head = d.keyword ++ [32] := by
  cases d with
  | userData p =>
    simp only [DocumentItem.plain, decide_eq_true_eq] at h
    rw [head, h]
    rfl
  | interface c => rfl

theorem keyword_bytes (d : DocumentItem) : ∀ b ∈ d.keyword, isspace b = false ∧ b ≠ 0 := by
  have h : d.keyword.all (fun b => !isspace b && b ≠ 0) = true := by
    cases d <;> simp only [keyword] <;> decide
  simpa using h

theorem keyword_spec (d : DocumentItem) : d.keyword ≠ [] ∧ d.keyword.length ≤ 10 ∧
    d.keyword.take 2 ≠ ascii "//" ∧ byte '\n' ∉ d.keyword ∧ 2 ≤ d.keyword.length := by
  cases d <;> simp only [keyword] <;> decide

/-- A name has no space in it, or it is one character. -/
theorem identifier_cases {s : String8} (h : identifier s) :
    (s ≠ [] ∧ ∀ b ∈ s, isspace b = false ∧ stop b = false ∧ b ≠ 0) ∨
      ∃ w, s = [w] ∧ stop w = false ∧ w ≠ 0 := by
  have tail : ∀ c, (letter c || digit c || c = byte '.') = true →
      isspace c = false ∧ stop c = false ∧ c ≠ 0 := by
    intro c hc
    simp only [isspace, stop, whitespace, letter, digit, byte, Bool.or_eq_false_iff,
      Bool.or_eq_true, Bool.and_eq_true, decide_eq_true_eq, decide_eq_false_iff_not,
      UInt8.le_iff_toNat_le, ← UInt8.toNat_inj, Bool.and_eq_false_imp, ne_eq] at hc ⊢
    simp at hc ⊢
    omega
  cases s with
  | nil => cases h
  | cons b s =>
    simp only [identifier, Bool.or_eq_true, Bool.and_eq_true] at h
    rcases h with ⟨hb, hs⟩ | ⟨⟨⟨hs, hw⟩, hp⟩, _⟩
    · refine .inl ⟨by simp, ?_⟩
      intro c hc
      rcases List.mem_cons.mp hc with rfl | hc
      · exact tail c (by simp [hb])
      · exact tail c (by simpa using List.all_eq_true.mp hs c hc)
    · obtain rfl : s = [] := by simpa using hs
      simp only [punctuation, Bool.not_eq_true', Bool.or_eq_false_iff, List.any_eq_false,
        decide_eq_true_eq, decide_eq_false_iff_not] at hp hw
      have hsemi : b ≠ byte ';' := fun e => hp.2 (byte ';') (by decide) e
      exact .inr ⟨b, rfl, by simp [stop, hsemi, hw], hp.1⟩

theorem identifier_text {s : String8} (h : identifier s) :
    s ≠ [] ∧ ∀ b ∈ s, stop b = false ∧ b ≠ 0 := by
  rcases identifier_cases h with ⟨hne, hs⟩ | ⟨w, rfl, hw⟩
  · exact ⟨hne, fun b hb => (hs b hb).2⟩
  · exact ⟨by simp, by simpa using hw⟩

theorem packageText_text {s : String8} (h : packageText s) :
    ∀ b ∈ s, isspace b = false ∧ stop b = false ∧ b ≠ 0 := by
  intro b hb
  have hs := List.all_eq_true.mp h b hb
  simp only [Bool.and_eq_true, Bool.not_eq_true', decide_eq_true_eq] at hs
  have hw : whitespace b = false := by
    by_contra hw
    simp only [whitespace, Bool.not_eq_false, Bool.or_eq_true, decide_eq_true_eq] at hw
    rcases hw with ((rfl | rfl) | rfl) | rfl <;> exact absurd hs.1.1 (by decide)
  exact ⟨hs.1.1, by simp [stop, hw, hs.1.2], hs.2⟩

theorem parsed_name (h : d.parsed) : identifier d.name := by
  simp only [DocumentItem.parsed, Bool.and_eq_true] at h
  exact h.1.2

theorem parsed_package {p : String8} (h : d.parsed) (hp : d.package = some p) : packageText p := by
  simp only [DocumentItem.parsed, Bool.and_eq_true, hp] at h
  exact h.2

theorem fullname_text (h : d.parsed) : ∀ b ∈ d.fullname, stop b = false ∧ b ≠ 0 := by
  have hn := (identifier_text (parsed_name h)).2
  intro b hb
  rw [fullname] at hb
  cases hp : d.package with
  | none =>
    rw [hp] at hb
    exact hn b hb
  | some p =>
    rw [hp] at hb
    rcases List.mem_append.mp hb with hb | hb
    · exact (packageText_text (parsed_package h hp) b hb).2
    · rcases List.mem_cons.mp hb with rfl | hb
      · decide
      · exact hn b hb

theorem fullname_ne_nil (h : d.parsed) : d.fullname ≠ [] := by
  rw [fullname]
  split
  · simp
  · exact (identifier_text (parsed_name h)).1

theorem Legible.head_fullname (h : d.Legible) : d.fullname.head?.any isspace = false := by
  rw [fullname]
  cases hp : d.package with
  | none => exact h.visible hp
  | some p =>
    cases p with
    | nil => rfl
    | cons a p => simpa using (packageText_text (parsed_package h.parsed hp) a (by simp)).1

theorem line_eq (h : d.plain) : d.line = d.keyword ++ 32 :: (d.fullname ++ ascii ";\n") := by
  rw [line, head_eq h]
  simp

end DocumentItem

/-! ## Reading the line of an item -/

theorem dropWhile_of_head {p : UInt8 → Bool} {s : String8} (h : s.head?.any p = false) :
    s.dropWhile p = s := by
  cases s with
  | nil => rfl
  | cons a s => exact List.dropWhile_cons_of_neg (by simpa using h)

theorem word_append {kw : String8} (hkw : ∀ b ∈ kw, isspace b = false) (s : String8) :
    word (kw ++ 32 :: s) = kw ∧
      ((kw ++ 32 :: s).dropWhile isspace).dropWhile (!isspace ·) = 32 :: s ∨ kw = [] := by
  cases kw with
  | nil => exact .inr rfl
  | cons a kw =>
    have ha : isspace a = false := hkw a (by simp)
    have hd : (a :: kw ++ 32 :: s).dropWhile isspace = a :: kw ++ 32 :: s :=
      dropWhile_of_head (by simp [ha])
    have hp : ∀ b ∈ a :: kw, (!isspace b) = true := by
      intro b hb
      simp [hkw b hb]
    apply Or.inl
    constructor
    · rw [word, hd, List.takeWhile_append_of_pos hp, List.takeWhile_cons_of_neg (by decide),
        List.append_nil]
    · rw [hd, List.dropWhile_append_of_pos hp, List.dropWhile_cons_of_neg (by decide)]

theorem sscanf_line {kw f tail : String8} (hkw : ∀ b ∈ kw, isspace b = false) (hne : kw ≠ [])
    (hf : ∀ b ∈ f, stop b = false) (hfne : f ≠ []) (hhead : f.head?.any isspace = false)
    (htail : tail.takeWhile (!stop ·) = []) (b : Buffers) :
    sscanf (kw ++ 32 :: (f ++ tail)) b = ⟨some kw, some f⟩ := by
  have hw := (word_append hkw (f ++ tail)).resolve_right hne
  have hd : (f ++ tail).dropWhile isspace = f ++ tail := by
    cases f with
    | nil => exact absurd rfl hfne
    | cons a f => exact dropWhile_of_head (by simpa using hhead)
  have hn : name (kw ++ 32 :: (f ++ tail)) = f := by
    rw [name, hw.2, List.dropWhile_cons_of_pos (by decide), hd,
      List.takeWhile_append_of_pos (by simpa using hf), htail, List.append_nil]
  rw [sscanf, hw.1, hn, if_neg hne, if_neg hfne]

variable {d : DocumentItem}

theorem declare_keyword (h : d.plain) (f : String8) : declare d.keyword f =
    some ([d.rename f], ⟨some d.keyword, some ((split f).1.getD f)⟩) := by
  cases d <;> rfl

/-- The first piece of the line of an item, with as much of the full name as is in it. -/
theorem readLine_first (h : d.Legible) {f : String8} (tail : String8)
    (hf : f <+: d.fullname) (hne : f ≠ []) (htail : tail.takeWhile (!stop ·) = [])
    (hzero : 0 ∉ tail) (b : Buffers) :
    readLine b (d.keyword ++ 32 :: (f ++ tail)) =
      some ([d.rename f], ⟨some d.keyword, some ((split f).1.getD f)⟩) := by
  obtain ⟨hkne, _, hk2, _, hlen⟩ := d.keyword_spec
  have hkw := fun b hb => (d.keyword_bytes b hb).1
  have hmem := fun b hb => DocumentItem.fullname_text h.parsed b (hf.subset hb)
  have hhead : f.head?.any isspace = false := by
    obtain ⟨g, hg⟩ := hf
    have hd := h.head_fullname
    rw [← hg] at hd
    cases f with
    | nil => rfl
    | cons a f => simpa using hd
  have hz : (d.keyword ++ 32 :: (f ++ tail)).takeWhile (· ≠ 0) =
      d.keyword ++ 32 :: (f ++ tail) := by
    rw [List.takeWhile_eq_self_iff]
    intro b hb
    simp only [List.mem_append, List.mem_cons] at hb
    rcases hb with hb | rfl | hb | hb
    · simpa using (d.keyword_bytes b hb).2
    · decide
    · simpa using (hmem b hb).2
    · simpa using fun e : b = 0 => hzero (e ▸ hb)
  have htake : (d.keyword ++ 32 :: (f ++ tail)).take 2 = d.keyword.take 2 :=
    List.take_append_of_le_length hlen
  simp only [readLine, hz, htake, hk2, List.append_eq_nil_iff, hkne, false_and, or_self, if_false,
    sscanf_line hkw hkne (fun b hb => (hmem b hb).1) hne hhead htail]
  exact declare_keyword h.plain f

/-- The last piece of a line may be the end of it alone. -/
theorem readLine_end (h : d.plain) (f : String8) :
    readLine ⟨some d.keyword, some f⟩ (ascii "\n") =
      some ([d.rename f], ⟨some d.keyword, some ((split f).1.getD f)⟩) := by
  rw [← declare_keyword h f]
  rfl

/-! ## The pieces of a line -/

namespace DocumentItem

/-- The line without its end. -/
def body (d : DocumentItem) : String8 := d.keyword ++ 32 :: (d.fullname ++ ascii ";")

theorem line_body (h : d.plain) : d.line = d.body ++ [byte '\n'] := by
  rw [line_eq h, body]
  simp [ascii, byte]

theorem length_body : d.body.length = d.keyword.length + d.fullname.length + 2 := by
  simp [body, ascii]
  omega

theorem newline_notMem (h : d.parsed) : byte '\n' ∉ d.body := by
  obtain ⟨_, _, _, hk, _⟩ := d.keyword_spec
  intro hm
  simp only [body, List.mem_append, List.mem_cons] at hm
  rcases hm with hm | hm | hm | hm
  · exact hk hm
  · exact absurd hm (by decide)
  · exact absurd (fullname_text h _ hm).1 (by decide)
  · exact absurd hm (by decide)

variable (h : d.Legible) (text : String8)
include h

theorem Legible.lines_line (hl : d.line.length ≤ 1023) :
    lines (byte '\n') 1023 (d.line ++ text) = d.line :: lines (byte '\n') 1023 text := by
  rw [line_body h.plain] at hl ⊢
  rw [List.append_assoc]
  apply Lib.Lines.lines_line (newline_notMem h.parsed)
  simp only [List.length_append, List.length_singleton] at hl
  omega

theorem Legible.lines_full (hl : d.line.length = 1024) : lines (byte '\n') 1023 (d.line ++ text) =
    d.body :: ascii "\n" :: lines (byte '\n') 1023 text := by
  have hb : d.body.length = 1023 := by simpa [line_body h.plain] using hl
  rw [line_body h.plain, List.append_assoc,
    Lib.Lines.lines_full (newline_notMem h.parsed) (by omega),
    List.take_of_length_le (by omega), List.drop_of_length_le (by omega)]
  exact congrArg _ (Lib.Lines.lines_line (by simp) (by simp) text)

theorem Legible.lines_long (hl : 1025 ≤ d.line.length) :
    lines (byte '\n') 1023 (d.line ++ text) =
      (d.keyword ++ 32 :: d.fullname.take (1022 - d.keyword.length)) ::
        lines (byte '\n') 1023 (d.body.drop 1023 ++ byte '\n' :: text) := by
  have hb : 1024 ≤ d.body.length := by simpa [line_body h.plain] using hl
  have hk := d.keyword_spec.2.1
  rw [line_body h.plain, List.append_assoc,
    Lib.Lines.lines_full (newline_notMem h.parsed) (by omega)]
  rw [length_body] at hb
  congr 1
  rw [body, List.take_append, List.take_of_length_le (by omega)]
  obtain ⟨m, hm⟩ : ∃ m, 1023 - d.keyword.length = m + 1 := ⟨1022 - d.keyword.length, by omega⟩
  have e : 1022 - d.keyword.length = m := by omega
  rw [hm, List.take_succ_cons, e, List.take_append_of_le_length (by omega)]

end DocumentItem

/-! ## Lines that fit -/

namespace DocumentItem

/-- What is read of the line of an item. If the buffer holds all of the line but its end,
the item is declared once more, with what the cut has left of its name. -/
def readings (d : DocumentItem) : List DocumentItem :=
  d.rename d.fullname :: if d.line.length = 1024 then [d.rename d.rest] else []

theorem split_fullname (h : byte '.' ∉ d.name) : split d.fullname = (d.package, d.name) := by
  rw [fullname]
  cases hp : d.package with
  | none => exact split_none h
  | some p => exact split_some p h

theorem rest_eq (h : byte '.' ∉ d.name) : (split d.fullname).1.getD d.fullname = d.rest := by
  rw [split_fullname h, rest]
  cases hp : d.package with
  | none => simp [fullname, hp]
  | some p => rfl

theorem Legible.readLines_line (h : d.Legible) (hdot : byte '.' ∉ d.name)
    (hl : d.line.length ≤ 1024) (text : String8) (b : Buffers) : ∃ b',
      readLines b (lines (byte '\n') 1023 (d.line ++ text)) =
        (readLines b' (lines (byte '\n') 1023 text)).map (d.readings ++ ·) := by
  have first := fun tail ht hz => readLine_first h tail (List.prefix_refl d.fullname)
    (fullname_ne_nil h.parsed) ht hz b
  by_cases he : d.line.length = 1024
  · refine ⟨⟨some d.keyword, some ((split d.rest).1.getD d.rest)⟩, ?_⟩
    rw [h.lines_full text he, body, readLines, first _ (by decide) (by decide), rest_eq hdot]
    simp only [Option.bind_eq_bind, Option.bind_some, readLines, readLine_end h.plain]
    rw [readings, if_pos he]
    cases readLines _ (lines (byte '\n') 1023 text) <;> rfl
  · refine ⟨⟨some d.keyword, some d.rest⟩, ?_⟩
    rw [h.lines_line text (by omega), line_eq h.plain, readLines,
      first _ (by decide) (by decide), rest_eq hdot]
    simp only [Option.bind_eq_bind, Option.bind_some]
    rw [readings, if_neg he]
    cases readLines _ (lines (byte '\n') 1023 text) <;> rfl

/-- A file of lines that fit. -/
theorem readLines_file {hs : List DocumentItem} (h : ∀ d ∈ hs, d.Legible)
    (hdot : ∀ d ∈ hs, byte '.' ∉ d.name) (hl : ∀ d ∈ hs, d.line.length ≤ 1024) (b : Buffers) :
    readLines b (lines (byte '\n') 1023 (hs.map line).flatten) = some (hs.flatMap readings) := by
  induction hs generalizing b with
  | nil => rfl
  | cons d hs ih =>
    simp only [List.mem_cons, forall_eq_or_imp] at h hdot hl
    obtain ⟨b', e⟩ := h.1.readLines_line hdot.1 hl.1 (hs.map line).flatten b
    rw [List.map_cons, List.flatten_cons, e, ih h.2 hdot.2 hl.2, List.flatMap_cons]
    rfl

end DocumentItem

/-! ## Lines that do not fit -/

/-- Short enough to be read in one piece behind its type. -/
def Short (type fullname : String8) : Prop := type.length + fullname.length ≤ 1022

def Buffers.Short (b : Buffers) : Prop :=
  ∃ t f, b = ⟨some t, some f⟩ ∧ Aidl.Short t f

def DocumentItem.Short (d : DocumentItem) : Prop := Aidl.Short d.keyword d.fullname

theorem join_split (f : String8) (d : DocumentItem) (hp : d.package = (split f).1)
    (hn : d.name = (split f).2) : d.fullname = f := by
  rcases rfind_cases (byte '.') f with ⟨hdot, _⟩ | ⟨p, q, rfl, hq, _⟩
  · rw [split_none hdot] at hp hn
    rw [DocumentItem.fullname, hp]
    exact hn
  · rw [split_some p hq] at hp hn
    rw [DocumentItem.fullname, hp, hn]

theorem item_keyword {type n : String8} {p : Option String8} {d : DocumentItem}
    (h : item type p n = some d) :
    d.package = p ∧ d.name = n ∧ d.keyword.length ≤ type.length := by
  simp only [item] at h
  split at h
  · rename_i e
    cases h
    exact ⟨rfl, rfl, by rw [e]; exact le_refl _⟩
  · split at h
    · rename_i e
      cases h
      exact ⟨rfl, rfl, by rw [e]; exact Nat.le_succ 10⟩
    · split at h
      · rename_i e
        cases h
        exact ⟨rfl, rfl, by rw [e]; exact le_refl _⟩
      · cases h

theorem length_split_le (f : String8) : ((split f).1.getD f).length ≤ f.length := by
  rcases rfind_cases (byte '.') f with ⟨hdot, _⟩ | ⟨p, q, rfl, hq, _⟩
  · rw [split_none hdot]
    exact le_refl _
  · rw [split_some p hq]
    simp

theorem declare_short {t f : String8} {ds : List DocumentItem} {b : Buffers} (hs : Short t f)
    (h : declare t f = some (ds, b)) : (∀ d ∈ ds, d.Short) ∧ b.Short := by
  obtain ⟨d, hd, e⟩ := Option.map_eq_some_iff.mp h
  cases e
  obtain ⟨hp, hn, hk⟩ := item_keyword hd
  have hl := length_split_le f
  rw [Short] at hs
  constructor
  · intro d' hd'
    obtain rfl : d' = d := by simpa using hd'
    rw [DocumentItem.Short, Short, join_split f d' hp hn]
    omega
  · refine ⟨t, _, rfl, ?_⟩
    rw [Short]
    omega

/-- No space directly behind a letter, and nothing but a semicolon behind a space. -/
def Spaced : String8 → Prop :=
  List.IsChain fun x y => (isspace y → letter x = false) ∧ (isspace x → y = byte ';')

theorem spaced_of_forall {s : String8} (h : ∀ b ∈ s, isspace b = false) : Spaced s := by
  induction s with
  | nil => exact .nil
  | cons a s ih =>
    cases s with
    | nil => exact .singleton a
    | cons c s =>
      have ha := h a (by simp)
      have hc := h c (by simp)
      exact .cons_cons ⟨by simp [hc], by simp [ha]⟩ (ih fun b hb => h b (by simp [hb]))

/-- A word of letters stands alone. -/
theorem spaced_word {ws kw tail : String8} (h : Spaced (ws ++ (kw ++ tail))) (hne : kw ≠ [])
    (hws : ∀ b ∈ ws, isspace b) (hkw : ∀ b ∈ kw, letter b)
    (htail : tail.head?.any (!isspace ·) = false) : ws = [] ∧ tail = [] := by
  constructor
  · rcases ws.eq_nil_or_concat' with rfl | ⟨w, x, rfl⟩
    · rfl
    · cases kw with
      | nil => exact absurd rfl hne
      | cons l k =>
        rw [Spaced, List.append_assoc, List.singleton_append, List.cons_append,
          List.isChain_append_cons_cons] at h
        have e := h.2.1.2 (hws x (by simp))
        subst e
        exact absurd (hkw (byte ';') (by simp)) (by decide)
  · cases tail with
    | nil => rfl
    | cons t tail =>
      obtain ⟨k, l, rfl⟩ := kw.eq_nil_or_concat'.resolve_left hne
      rw [Spaced, List.append_assoc, List.singleton_append, ← List.append_assoc,
        List.isChain_append_cons_cons] at h
      have ht : isspace t := by simpa using htail
      have hl := h.2.1.1 ht
      rw [hkw l (by simp)] at hl
      cases hl

theorem types_letters {kw : String8}
    (h : kw = ascii "parcelable" ∨ kw = ascii "flattenable" ∨ kw = ascii "interface") :
    kw ≠ [] ∧ kw.length < 12 ∧ kw.all letter ∧ kw.getLast? ≠ some (byte '\n') := by
  rcases h with rfl | rfl | rfl <;> decide

/-- The rest of a long line does not begin with a type. -/
theorem item_word {c : String8} (h : Spaced c)
    (hend : c.getLast? = some (byte '\n') ∨ 12 ≤ c.length) (p : Option String8) (n : String8) :
    item (word c) p n = none := by
  have hno : ¬ (word c = ascii "parcelable" ∨ word c = ascii "flattenable" ∨
      word c = ascii "interface") := by
    intro hw
    obtain ⟨hne, hlen, hletter, hlast⟩ := types_letters hw
    have e : c = c.takeWhile isspace ++
        (word c ++ (c.dropWhile isspace).dropWhile (!isspace ·)) := by
      rw [word, List.takeWhile_append_dropWhile, List.takeWhile_append_dropWhile]
    rw [e] at h
    obtain ⟨hws, htail⟩ := spaced_word h hne (fun b hb => List.mem_takeWhile_imp hb)
      (List.all_eq_true.mp hletter) (head_dropWhile _ _)
    rw [hws, htail, List.nil_append, List.append_nil] at e
    rw [← e] at hlen hlast
    rcases hend with hl | hl
    · exact hlast hl
    · omega
  simp only [not_or] at hno
  rw [item, if_neg hno.1, if_neg hno.2.1, if_neg hno.2.2]

theorem readLine_rest {c : String8} {b b' : Buffers} {ds : List DocumentItem} (hc : Spaced c)
    (hz : ∀ x ∈ c, x ≠ 0) (hend : c.getLast? = some (byte '\n') ∨ 12 ≤ c.length)
    (hb : b.Short) (h : readLine b c = some (ds, b')) : (∀ d ∈ ds, d.Short) ∧ b'.Short := by
  have e : c.takeWhile (· ≠ 0) = c := by
    rw [List.takeWhile_eq_self_iff]
    simpa using hz
  obtain ⟨t, f, rfl, hs⟩ := hb
  have hnone := item_word hc hend
  simp only [readLine, e] at h
  split at h
  · cases h
    exact ⟨by simp, t, f, rfl, hs⟩
  · by_cases hw : word c = []
    · rw [sscanf, if_pos hw] at h
      exact declare_short hs h
    · by_cases hn : name c = []
      · rw [sscanf, if_neg hw, if_pos hn] at h
        simp [declare, hnone] at h
      · rw [sscanf, if_neg hw, if_neg hn] at h
        simp [declare, hnone] at h

/-- Whatever is read of the rest of a long line is short. -/
theorem readLines_rest {s text : String8} {b : Buffers} {ds : List DocumentItem}
    (hs : Spaced (s ++ [byte '\n'])) (hz : ∀ x ∈ s, x ≠ 0) (hnl : byte '\n' ∉ s) (hb : b.Short)
    (h : readLines b (lines (byte '\n') 1023 (s ++ byte '\n' :: text)) = some ds) :
    ∃ ds₀ ds₁ b', ds = ds₀ ++ ds₁ ∧ (∀ d ∈ ds₀, d.Short) ∧
      readLines b' (lines (byte '\n') 1023 text) = some ds₁ := by
  induction hm : s.length using Nat.strong_induction_on generalizing s b ds with
  | _ m ih =>
    by_cases hl : s.length ≤ 1022
    · rw [Lib.Lines.lines_line hnl hl] at h
      simp only [readLines, Option.bind_eq_bind, Option.bind_eq_some_iff] at h
      obtain ⟨⟨ds₀, b'⟩, h₀, ds₁, h₁, e⟩ := h
      cases e
      have hz' : ∀ x ∈ s ++ [byte '\n'], x ≠ 0 := by
        intro x hx
        rcases List.mem_append.mp hx with hx | hx
        · exact hz x hx
        · obtain rfl : x = byte '\n' := by simpa using hx
          decide
      have hd := readLine_rest hs hz' (.inl (by simp)) hb h₀
      exact ⟨ds₀, ds₁, b', rfl, hd.1, h₁⟩
    · rw [Lib.Lines.lines_full hnl (by omega)] at h
      simp only [readLines, Option.bind_eq_bind, Option.bind_eq_some_iff] at h
      obtain ⟨⟨ds₀, b₀⟩, h₀, ds₁, h₁, e⟩ := h
      cases e
      have hpre : s.take 1023 <+: s ++ [byte '\n'] :=
        (List.take_prefix 1023 s).trans (List.prefix_append s _)
      have hpre' : Spaced (s.take 1023) := List.IsChain.prefix hs hpre
      have hd := readLine_rest hpre'
        (fun x hx => hz x (List.mem_of_mem_take hx)) (.inr (by simp; omega)) hb h₀
      have hsuf : s.drop 1023 ++ [byte '\n'] <:+ s ++ [byte '\n'] :=
        ⟨s.take 1023, by rw [← List.append_assoc, List.take_append_drop]⟩
      obtain ⟨ds₂, ds₃, b', e, h₂, h₃⟩ := ih (s.drop 1023).length (by simp; omega)
        (List.IsChain.suffix hs hsuf) (fun x hx => hz x (List.mem_of_mem_drop hx))
        (fun hx => hnl (List.mem_of_mem_drop hx)) hd.2 h₁ rfl
      refine ⟨ds₀ ++ ds₂, ds₃, b', by rw [e, List.append_assoc], ?_, h₃⟩
      intro d hm
      rcases List.mem_append.mp hm with hm | hm
      · exact hd.1 d hm
      · exact h₂ d hm

namespace DocumentItem

theorem fullname_spaced {d : DocumentItem} (h : d.parsed) : Spaced (d.fullname ++ ascii ";\n") := by
  -- a space is the whole of a name of one character, or there is none
  have key : ∀ p : String8, (∀ b ∈ p, isspace b = false) →
      (∀ x ∈ p.getLast?, letter x = false) → Spaced (p ++ d.name ++ ascii ";\n") := by
    intro p hp hlast
    rcases identifier_cases (parsed_name h) with ⟨_, hn⟩ | ⟨w, hw, _⟩
    · have hs : Spaced (p ++ d.name ++ [byte ';']) := by
        apply spaced_of_forall
        intro b hb
        simp only [List.mem_append, List.mem_singleton] at hb
        rcases hb with (hb | hb) | rfl
        · exact hp b hb
        · exact (hn b hb).1
        · decide
      have e : p ++ d.name ++ ascii ";\n" = (p ++ d.name ++ [byte ';']) ++ [byte '\n'] := by
        simp [ascii, byte]
      rw [e, Spaced, List.isChain_append]
      refine ⟨hs, .singleton _, ?_⟩
      intro x hx y hy
      obtain rfl : byte ';' = x := by simpa using hx
      obtain rfl : byte '\n' = y := by simpa using hy
      decide
    · have he : Spaced (w :: ascii ";\n") :=
        .cons_cons ⟨fun e => absurd e (by decide), fun _ => rfl⟩
          (.cons_cons ⟨by decide, by decide⟩ (.singleton _))
      rw [hw, List.append_assoc, Spaced, List.isChain_append]
      refine ⟨spaced_of_forall hp, he, ?_⟩
      intro x hx y _
      exact ⟨fun _ => hlast x hx, fun e => by
        rw [hp x (List.mem_of_getLast? hx)] at e
        cases e⟩
  rw [fullname]
  cases hp : d.package with
  | none => exact key [] (by simp) (by simp)
  | some p =>
    have e : p ++ byte '.' :: d.name ++ ascii ";\n" = p ++ [byte '.'] ++ d.name ++ ascii ";\n" := by
      simp
    dsimp only
    rw [e]
    apply key
    · intro b hb
      rcases List.mem_append.mp hb with hb | hb
      · exact (packageText_text (parsed_package h hp) b hb).1
      · obtain rfl : b = byte '.' := by simpa using hb
        decide
    · intro x hx
      obtain rfl : byte '.' = x := by simpa using hx
      decide

variable {d : DocumentItem}

theorem Legible.first_short (h : d.Legible) {f : String8} (tail : String8)
    (hf : f <+: d.fullname) (hne : f ≠ []) (htail : tail.takeWhile (!stop ·) = [])
    (hzero : 0 ∉ tail) (hs : Aidl.Short d.keyword f) (b : Buffers) :
    ∃ b' : Buffers, b'.Short ∧ (d.rename f).Short ∧
      readLine b (d.keyword ++ 32 :: (f ++ tail)) = some ([d.rename f], b') := by
  have hd := declare_short hs (declare_keyword h.plain f)
  exact ⟨_, hd.2, hd.1 _ (by simp), readLine_first h tail hf hne htail hzero b⟩

theorem length_line (h : d.plain) : d.line.length = d.keyword.length + d.fullname.length + 3 := by
  rw [line_body h, List.length_append, length_body]
  rfl

/-- What a full buffer leaves over of the line. -/
theorem drop_body (d : DocumentItem) :
    d.body.drop 1023 = (d.fullname ++ ascii ";").drop (1022 - d.keyword.length) := by
  have hk := d.keyword_spec.2.1
  obtain ⟨m, hm⟩ : ∃ m, 1023 - d.keyword.length = m + 1 := ⟨1022 - d.keyword.length, by omega⟩
  rw [body, List.drop_append, List.drop_of_length_le (by omega), List.nil_append, hm,
    List.drop_succ_cons]
  congr 1
  omega

theorem drop_body_spaced (h : d.parsed) : Spaced (d.body.drop 1023 ++ [byte '\n']) := by
  apply (fullname_spaced h).suffix
  have e : d.fullname ++ ascii ";\n" = (d.fullname ++ ascii ";") ++ [byte '\n'] := by
    simp [ascii, byte]
  rw [drop_body, e]
  exact ⟨_, by rw [← List.append_assoc, List.take_append_drop]⟩

/-- The semicolon is not a type. -/
theorem readLines_semicolon (b : Buffers) (ls : List String8) :
    readLines b (ascii ";\n" :: ls) = none := by
  obtain ⟨t, f⟩ := b
  cases f <;> rfl

/-- What is read of the line of an item, and that the line does not leave its end over. -/
theorem Legible.readLines_short (h : d.Legible) {text : String8} {b : Buffers}
    {ds : List DocumentItem}
    (hr : readLines b (lines (byte '\n') 1023 (d.line ++ text)) = some ds) :
    d.line.length ≠ 1025 ∧ ∃ ds₀ ds₁ b', ds = ds₀ ++ ds₁ ∧ (∀ r ∈ ds₀, r.Short) ∧
      readLines b' (lines (byte '\n') 1023 text) = some ds₁ := by
  have hlen := length_line h.plain
  have hk := d.keyword_spec.2.1
  have hne := fullname_ne_nil h.parsed
  by_cases hl : d.line.length ≤ 1023
  · obtain ⟨b', _, hs, e⟩ := h.first_short (ascii ";\n") List.prefix_rfl hne (by decide)
      (by decide) (show _ + _ ≤ _ by omega) b
    rw [h.lines_line text hl, line_eq h.plain, readLines, e] at hr
    simp only [Option.bind_eq_bind, Option.bind_some, Option.bind_eq_some_iff] at hr
    obtain ⟨ds₁, h₁, e⟩ := hr
    cases e
    exact ⟨by omega, [d.rename d.fullname], ds₁, b', rfl, by simpa using hs, h₁⟩
  · by_cases he : d.line.length = 1024
    · obtain ⟨b₁, hb₁, hs, e⟩ := h.first_short (ascii ";") List.prefix_rfl hne (by decide)
        (by decide) (show _ + _ ≤ _ by omega) b
      rw [h.lines_full text he, body, readLines, e] at hr
      simp only [readLines, Option.bind_eq_bind, Option.bind_some, Option.bind_eq_some_iff] at hr
      obtain ⟨_, ⟨⟨ds₀, b₂⟩, h₀, ds₁, h₁, e₁⟩, e₂⟩ := hr
      cases e₁
      cases e₂
      have hd := readLine_rest (.singleton _) (by simp) (.inl rfl) hb₁ h₀
      refine ⟨by omega, d.rename d.fullname :: ds₀, ds₁, b₂, rfl, ?_, h₁⟩
      intro r hm
      rcases List.mem_cons.mp hm with rfl | hm
      · exact hs
      · exact hd.1 r hm
    · have hshort : Aidl.Short d.keyword (d.fullname.take (1022 - d.keyword.length)) := by
        have hle := List.length_take_le (1022 - d.keyword.length) d.fullname
        show _ + _ ≤ _
        omega
      have hnil : d.fullname.take (1022 - d.keyword.length) ≠ [] := by
        intro e
        rcases List.take_eq_nil_iff.mp e with e | e
        · omega
        · exact hne e
      obtain ⟨b₁, hb₁, hs, e⟩ := h.first_short [] (List.take_prefix _ _) hnil rfl
        (by simp) hshort b
      rw [List.append_nil] at e
      rw [h.lines_long text (by omega), readLines, e] at hr
      simp only [Option.bind_eq_bind, Option.bind_some, Option.bind_eq_some_iff] at hr
      obtain ⟨ds', h', e'⟩ := hr
      cases e'
      have hz : ∀ x ∈ d.body.drop 1023, x ≠ 0 := by
        intro x hx
        rw [drop_body] at hx
        rcases List.mem_append.mp (List.mem_of_mem_drop hx) with hx | hx
        · exact (fullname_text h.parsed x hx).2
        · obtain rfl : x = byte ';' := by simpa [ascii, byte] using hx
          decide
      have hnl : byte '\n' ∉ d.body.drop 1023 :=
        fun hx => newline_notMem h.parsed (List.mem_of_mem_drop hx)
      obtain ⟨ds₀, ds₁, b', e₁, h₀, h₁⟩ :=
        readLines_rest (drop_body_spaced h.parsed) hz hnl hb₁ h'
      refine ⟨?_, d.rename _ :: ds₀, ds₁, b', by rw [e₁]; rfl, ?_, h₁⟩
      · intro hm
        have hd : d.body.drop 1023 = ascii ";" := by
          rw [drop_body]
          exact List.drop_left' (by omega)
        rw [hd] at h'
        have hl' : lines (byte '\n') 1023 (ascii ";" ++ byte '\n' :: text) =
            ascii ";\n" :: lines (byte '\n') 1023 text :=
          Lib.Lines.lines_line (by decide) (by decide) text
        rw [hl'] at h'
        exact absurd (h'.symm.trans (readLines_semicolon b₁ _)) (by simp)
      · intro r hm
        rcases List.mem_cons.mp hm with rfl | hm
        · exact hs
        · exact h₀ r hm

/-- What is read of a file, and that no line of it leaves its end over. -/
theorem readLines_file_short {hs : List DocumentItem} (h : ∀ d ∈ hs, d.Legible) {b : Buffers}
    {ds : List DocumentItem}
    (hr : readLines b (lines (byte '\n') 1023 (hs.map line).flatten) = some ds) :
    (∀ d ∈ hs, d.line.length ≠ 1025) ∧ ∀ r ∈ ds, r.Short := by
  induction hs generalizing b ds with
  | nil =>
    cases hr
    simp
  | cons d hs ih =>
    simp only [List.mem_cons, forall_eq_or_imp] at h ⊢
    rw [List.map_cons, List.flatten_cons] at hr
    obtain ⟨hl, ds₀, ds₁, b', e, h₀, h₁⟩ := h.1.readLines_short hr
    obtain ⟨hl', hs'⟩ := ih h.2 h₁
    refine ⟨⟨hl, hl'⟩, ?_⟩
    intro r hm
    rw [e] at hm
    rcases List.mem_append.mp hm with hm | hm
    · exact h₀ r hm
    · exact hs' r hm

end DocumentItem

/-! ## The round trip -/

/-- The items that are written: the first one of each document. -/
def heads (docs : List Document) : List DocumentItem := docs.filterMap fun doc => doc.items.head?

theorem preprocessAidl_eq (docs : List Document) : preprocessAidl docs =
    if ∀ doc ∈ docs, doc.items ≠ [] then some ((heads docs).map DocumentItem.line).flatten
    else none := by
  have key : (docs.mapM fun (doc : Document) => doc.items.head?.map DocumentItem.line) =
      if ∀ doc ∈ docs, doc.items ≠ [] then some ((heads docs).map DocumentItem.line)
      else none := by
    induction docs with
    | nil => rfl
    | cons doc docs ih =>
      rw [List.mapM_cons, ih]
      by_cases hd : doc.items = []
      · simp [hd]
      · obtain ⟨d, hd'⟩ := Option.ne_none_iff_exists'.mp (mt List.head?_eq_none_iff.mp hd)
        by_cases h : ∀ doc ∈ docs, doc.items ≠ []
        · rw [if_pos h, if_pos (by simpa [hd] using h)]
          simp [heads, hd']
        · rw [if_neg h, if_neg (by simpa [hd] using h)]
          simp [hd']
  rw [preprocessAidl, key]
  split <;> rfl

theorem heads_mem {docs : List Document} {d : DocumentItem} (h : d ∈ heads docs) :
    d ∈ items docs := by
  obtain ⟨doc, hdoc, hd⟩ := List.mem_filterMap.mp h
  exact List.mem_flatMap.mpr ⟨doc, hdoc, List.mem_of_mem_head? hd⟩

theorem items_parsed {docs : List Document} {d : DocumentItem} (h : d ∈ items docs) : d.parsed := by
  obtain ⟨doc, _, hd⟩ := List.mem_flatMap.mp h
  exact doc.parsed d hd

namespace DocumentItem

variable {d : DocumentItem}

theorem signature_rename (h : d.plain) (hdot : byte '.' ∉ d.name) :
    (d.rename d.fullname).signature = d.signature := by
  have hs := split_fullname hdot
  cases d with
  | userData p =>
    simp only [DocumentItem.plain, decide_eq_true_eq] at h
    simp [rename, signature, hs, h, DocumentItem.package, DocumentItem.name]
  | interface c =>
    simp only [DocumentItem.plain, decide_eq_true_eq] at h
    simp [rename, signature, hs, h, DocumentItem.package, DocumentItem.name]

theorem signature_name (d : DocumentItem) : d.signature.name = d.name := by
  cases d <;> rfl

theorem signature_package (d : DocumentItem) : d.signature.package = d.package := by
  cases d <;> rfl

theorem plain_of_readable (h : d.parsed) (hr : d.signature.Readable) : d.plain := by
  simp only [DocumentItem.parsed, Bool.and_eq_true] at h
  have hd := h.1.1
  cases d with
  | userData p =>
    simp only [declared, Bool.or_eq_true, decide_eq_true_eq] at hd
    simpa [DocumentItem.plain] using hd.resolve_right hr.flattening
  | interface c =>
    have hk : c.kind ≠ .rpc := fun e => hr.kind (by rw [signature, e])
    cases hc : c.kind with
    | binder => simp [DocumentItem.plain, hc]
    | rpc => exact absurd hc hk

/-- How long the names may be is told by what is declared. -/
theorem short_congr {r : DocumentItem} (h : r.signature = d.signature) (hr : r.Short) :
    d.Short := by
  have hp : r.package = d.package := by rw [← signature_package, h, signature_package]
  have hn : r.name = d.name := by rw [← signature_name, h, signature_name]
  have hk : r.keyword = d.keyword := by
    cases r <;> cases d <;> first | rfl | simp [signature] at h
  rw [Short, ← hk]
  have hf : d.fullname = r.fullname := by rw [fullname, fullname, hp, hn]
  rw [hf]
  exact hr

end DocumentItem

/-- The documents whose preprocessed file tells all that they declare. -/
structure Preprocessable (docs : List Document) : Prop where
  /-- No document is empty. -/
  nonempty : ∀ doc ∈ docs, doc.items ≠ []
  /-- Every item is a parcelable or a binder interface. -/
  plain : ∀ d ∈ items docs, d.plain
  /-- Its name has no dot. -/
  undotted : ∀ d ∈ items docs, byte '.' ∉ d.name
  /-- Its name is not a vertical tab or a form feed behind a keyword. -/
  visible : ∀ d ∈ items docs, d.package = none → d.name.head?.any isspace = false
  /-- The line of a first item fits into the buffer, but for its end. -/
  fits : ∀ h ∈ heads docs, h.line.length ≤ 1024
  /-- If its end does not fit, what is left of the name is declared as well. -/
  full : ∀ h ∈ heads docs, h.line.length = 1024 →
    ∃ d ∈ items docs, d.signature = (h.rename h.rest).signature
  /-- Every item is declared by a first item, or by what is left of the name of one. -/
  covered : ∀ d ∈ items docs, ∃ h ∈ heads docs, d.signature = h.signature ∨
    (h.line.length = 1024 ∧ d.signature = (h.rename h.rest).signature)

theorem reread_eq {docs : List Document} (h : ∀ doc ∈ docs, doc.items ≠ []) : reread docs =
    readLines ⟨none, none⟩
      (lines (byte '\n') 1023 ((heads docs).map DocumentItem.line).flatten) := by
  rw [reread, preprocessAidl_eq, if_pos h]
  rfl

theorem mem_readings {hs : List DocumentItem} (hp : ∀ h ∈ hs, h.plain)
    (hdot : ∀ h ∈ hs, byte '.' ∉ h.name) (s : Signature) :
    s ∈ (hs.flatMap DocumentItem.readings).map DocumentItem.signature ↔
      ∃ h ∈ hs, s = h.signature ∨
        (h.line.length = 1024 ∧ s = (h.rename h.rest).signature) := by
  have key : ∀ h ∈ hs, (s ∈ h.readings.map DocumentItem.signature ↔ s = h.signature ∨
      (h.line.length = 1024 ∧ s = (h.rename h.rest).signature)) := by
    intro h hm
    rw [DocumentItem.readings, List.map_cons, List.mem_cons,
      DocumentItem.signature_rename (hp h hm) (hdot h hm)]
    by_cases he : h.line.length = 1024 <;> simp [he]
  simp only [List.map_flatMap, List.mem_flatMap]
  constructor
  · rintro ⟨h, hm, hs⟩
    exact ⟨h, hm, (key h hm).mp hs⟩
  · rintro ⟨h, hm, hs⟩
    exact ⟨h, hm, (key h hm).mpr hs⟩

theorem mem_signatures {docs : List Document} {s : Signature} :
    s ∈ (items docs).map DocumentItem.signature ↔ ∃ d ∈ items docs, d.signature = s :=
  List.mem_map

theorem Preprocessable.legible {docs : List Document} (h : Preprocessable docs) :
    ∀ d ∈ heads docs, d.Legible := by
  intro d hd
  have hm := heads_mem hd
  exact ⟨items_parsed hm, h.plain d hm, h.visible d hm⟩

theorem Preprocessable.roundTrips {docs : List Document} (h : Preprocessable docs) :
    RoundTrips docs := by
  have hp := fun d hd => h.plain d (heads_mem hd)
  have hdot := fun d hd => h.undotted d (heads_mem hd)
  refine ⟨_, (reread_eq h.nonempty).trans
    (DocumentItem.readLines_file h.legible hdot h.fits _), ?_⟩
  intro s
  rw [mem_readings hp hdot, mem_signatures]
  constructor
  · rintro ⟨d, hd, rfl | ⟨hl, rfl⟩⟩
    · exact ⟨d, heads_mem hd, rfl⟩
    · exact h.full d hd hl
  · rintro ⟨d, hd, rfl⟩
    exact h.covered d hd

theorem preprocessable_of_roundTrips {docs : List Document} (h : RoundTrips docs) :
    Preprocessable docs := by
  obtain ⟨ds, hds, hs⟩ := h
  have hne : ∀ doc ∈ docs, doc.items ≠ [] := by
    by_contra hne
    rw [reread, preprocessAidl_eq, if_neg hne] at hds
    cases hds
  obtain ⟨text, _, hread⟩ := Option.bind_eq_some_iff.mp hds
  have hr : ∀ d ∈ items docs, d.signature.Readable := by
    intro d hd
    obtain ⟨r, hr, e⟩ := List.mem_map.mp ((hs d.signature).mpr (List.mem_map_of_mem hd))
    rw [← e]
    exact parsePreprocessedFile_readable hread r hr
  have hp : ∀ d ∈ items docs, d.plain :=
    fun d hd => DocumentItem.plain_of_readable (items_parsed hd) (hr d hd)
  have hdot : ∀ d ∈ items docs, byte '.' ∉ d.name := by
    intro d hd
    rw [← d.signature_name]
    exact (hr d hd).name
  have hv : ∀ d ∈ items docs, d.package = none → d.name.head?.any isspace = false := by
    intro d hd
    rw [← d.signature_name, ← d.signature_package]
    exact (hr d hd).visible
  have hleg : ∀ d ∈ heads docs, d.Legible := by
    intro d hd
    have hm := heads_mem hd
    exact ⟨items_parsed hm, hp d hm, hv d hm⟩
  rw [reread_eq hne] at hds
  have hshort := DocumentItem.readLines_file_short hleg hds
  have hfits : ∀ d ∈ heads docs, d.line.length ≤ 1024 := by
    intro d hd
    obtain ⟨r, hr, e⟩ := List.mem_map.mp
      ((hs d.signature).mpr (List.mem_map_of_mem (heads_mem hd)))
    have hd' : d.Short := DocumentItem.short_congr e (hshort.2 r hr)
    have hl := DocumentItem.length_line (hp d (heads_mem hd))
    have hne' := hshort.1 d hd
    rw [DocumentItem.Short, Short] at hd'
    omega
  have hdot' := fun d hd => hdot d (heads_mem hd)
  rw [DocumentItem.readLines_file hleg hdot' hfits] at hds
  cases hds
  have hmem := fun s => (mem_readings (fun d hd => hp d (heads_mem hd)) hdot' s).symm.trans (hs s)
  refine ⟨hne, hp, hdot, hv, hfits, ?_, ?_⟩
  · intro d hd hl
    exact mem_signatures.mp ((hmem _).mp ⟨d, hd, .inr ⟨hl, rfl⟩⟩)
  · intro d hd
    exact (hmem _).mpr (List.mem_map_of_mem hd)

/-- The file declares what the documents declare exactly if they are preprocessable. -/
theorem preprocessed_iff (docs : List Document) : RoundTrips docs ↔ Preprocessable docs :=
  ⟨preprocessable_of_roundTrips, Preprocessable.roundTrips⟩

/-- A file with two parcelables: the second one is lost. -/
def twoParcelables : Document where
  items :=
    [.userData ⟨some (ascii "a"), ascii "P", PARCELABLE_DATA⟩,
     .userData ⟨some (ascii "a"), ascii "Q", PARCELABLE_DATA⟩]
  parsed := by decide

theorem second_item_lost : ¬ ∀ docs, RoundTrips docs := by
  intro h
  obtain ⟨ds, hds, hs⟩ := h [twoParcelables]
  have e : reread [twoParcelables] =
      some [.userData ⟨some (ascii "a"), ascii "P", PARCELABLE_DATA⟩] := by decide
  rw [e] at hds
  cases hds
  exact absurd ((hs ⟨none, some (ascii "a"), ascii "Q", PARCELABLE_DATA⟩).mpr (by decide))
    (by decide)

end Cdroid.Aidl
