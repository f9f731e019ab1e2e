import Mathlib.Data.List.Forall2

/-! Two parties that exchange values in a fixed order: what one writes on a channel and
what the other reads of it. A value may be null, and is then written as a mark alone. -/

namespace Cdroid.Lib.Exchange

variable {ω ρ : Type}

/-- A statement of the writing party. -/
inductive Write (ω : Type)
  | put (w : ω)
  /-- `if (v != NULL) { mark(1); body(v) } else { mark(0) }` -/
  | nullable (mark body : ω)
  deriving DecidableEq

/-- A statement of the reading party. -/
inductive Read (ρ : Type)
  | get (r : ρ)
  /-- `if (0 != mark()) { body() }` -/
  | nullable (mark body : ρ)
  deriving DecidableEq

/-- The operations that a statement names. -/
def Write.ops : Write ω → List ω
  | .put w => [w]
  | .nullable mark body => [mark, body]

def Read.ops : Read ρ → List ρ
  | .get r => [r]
  | .nullable mark body => [mark, body]

/-- A sequence of operations that the statements can perform, each with the mark it
writes, if it writes one. -/
inductive Performs : List (Write ω) → List (ω × Option Bool) → Prop
  | nil : Performs [] []
  | put {w ws es} : Performs ws es → Performs (.put w :: ws) ((w, none) :: es)
  | present {mark body ws es} : Performs ws es →
      Performs (.nullable mark body :: ws) ((mark, some true) :: (body, none) :: es)
  | absent {mark body ws es} : Performs ws es →
      Performs (.nullable mark body :: ws) ((mark, some false) :: es)

section Reading
variable (inverse : ω → ρ → Bool)

/-- Every operation of the sequence is read by an inverse of it, in its place, and nothing
is left on either side. -/
def consumes : List (Read ρ) → List (ω × Option Bool) → Bool
  | [], [] => true
  | .get r :: rs, (w, _) :: es => inverse w r && consumes rs es
  | .nullable mark _ :: rs, (w, some false) :: es => inverse w mark && consumes rs es
  | .nullable mark body :: rs, (w, some true) :: (w', _) :: es =>
    inverse w mark && (inverse w' body && consumes rs es)
  | _, _ => false

/-- Whatever is written is read. -/
def Agrees (ws : List (Write ω)) (rs : List (Read ρ)) : Prop :=
  ∀ es, Performs ws es → consumes inverse rs es

/-- The statements are inverse to each other. -/
def mates : Write ω → Read ρ → Bool
  | .put w, .get r => inverse w r
  | .nullable mark body, .nullable mark' body' => inverse mark mark' && inverse body body'
  | _, _ => false

end Reading

variable {inverse : ω → ρ → Bool} {ws ws' : List (Write ω)} {rs rs' : List (Read ρ)}

theorem agrees_of_mates (h : List.Forall₂ (fun w r => mates inverse w r = true) ws rs) :
    Agrees inverse ws rs := by
  intro es hp
  induction h generalizing es with
  | nil =>
    cases hp
    rfl
  | @cons w r ws rs hwr _ ih =>
    cases hp with
    | put hp =>
      cases r with
      | get r =>
        rw [consumes, Bool.and_eq_true]
        exact ⟨hwr, ih _ hp⟩
      | nullable mark body => cases hwr
    | present hp =>
      cases r with
      | get r => cases hwr
      | nullable mark body =>
        rw [mates, Bool.and_eq_true] at hwr
        rw [consumes, Bool.and_eq_true, Bool.and_eq_true]
        exact ⟨hwr.1, hwr.2, ih _ hp⟩
    | absent hp =>
      cases r with
      | get r => cases hwr
      | nullable mark body =>
        rw [mates, Bool.and_eq_true] at hwr
        rw [consumes, Bool.and_eq_true]
        exact ⟨hwr.1, ih _ hp⟩

/-- Where nothing is read, nothing may be written. -/
theorem agrees_nil : Agrees inverse ws [] ↔ ws = [] := by
  constructor
  · intro h
    cases ws with
    | nil => rfl
    | cons w ws =>
      have hp : ∃ es, Performs ws es := by
        clear h
        induction ws with
        | nil => exact ⟨_, .nil⟩
        | cons w ws ih =>
          obtain ⟨es, hp⟩ := ih
          cases w with
          | put w => exact ⟨_, .put hp⟩
          | nullable mark body => exact ⟨_, .absent hp⟩
      obtain ⟨es, hp⟩ := hp
      cases w with
      | put w => cases h _ (.put hp)
      | nullable mark body => cases h _ (.absent hp)
  · rintro rfl es hp
    cases hp
    rfl

end Cdroid.Lib.Exchange
