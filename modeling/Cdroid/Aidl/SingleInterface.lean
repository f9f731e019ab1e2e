import Cdroid.Aidl.CppInterface

/-! `exactly_one_interface`: what is accepted of the items of the main file. The check looks
at the first two items and at no others. -/

namespace Cdroid.Aidl
open Cdroid.Runtime

namespace DocumentItem

def isInterface : DocumentItem → Bool
  | .userData _ => false
  | .interface _ => true

end DocumentItem

/-- What `exactly_one_interface` returns, and what it leaves in `onlyParcelable`. -/
structure InterfaceCheck where
  err : Bool
  onlyParcelable : Bool
  deriving DecidableEq

/-- `exactly_one_interface`, with the option `failOnParcelable`. -/
def checkExactlyOne (failOnParcelable : Bool) (items : List DocumentItem)
    (onlyParcelable : Bool) : InterfaceCheck :=
  match items with
  | [] => ⟨true, onlyParcelable⟩
  | item :: rest =>
    -- parcelables are allowed to skip the "one-only" rule
    if rest.head?.any DocumentItem.isInterface then ⟨true, onlyParcelable⟩
    else match item with
      | .userData _ => ⟨failOnParcelable, true⟩
      | .interface _ => ⟨false, false⟩

/-- An interface is what code is generated for, and there is no other one. -/
structure SingleInterface (items : List DocumentItem) (onlyParcelable : Bool) : Prop where
  atMostOne : items.countP DocumentItem.isInterface ≤ 1
  onlyParcelable : onlyParcelable ↔ items.countP DocumentItem.isInterface = 0

/-- Whatever `onlyParcelable` is before the call, success tells what the items are. -/
def ChecksSingle (failOnParcelable : Bool) (items : List DocumentItem) : Prop :=
  ∀ onlyParcelable, (checkExactlyOne failOnParcelable items onlyParcelable).err = false →
    SingleInterface items (checkExactlyOne failOnParcelable items onlyParcelable).onlyParcelable

/-- The first two items are enough to refuse the list. -/
def Refused (failOnParcelable : Bool) : List DocumentItem → Prop
  | [] => True
  | item :: rest => rest.head?.any DocumentItem.isInterface ∨
      (failOnParcelable ∧ item.isInterface = false)

variable {failOnParcelable : Bool} {items : List DocumentItem}

theorem checkExactlyOne_err (onlyParcelable : Bool) :
    (checkExactlyOne failOnParcelable items onlyParcelable).err = true ↔
      Refused failOnParcelable items := by
  cases items with
  | nil => exact iff_of_true rfl trivial
  | cons item rest =>
    rw [checkExactlyOne.eq_def, Refused]
    dsimp only
    by_cases hnext : rest.head?.any DocumentItem.isInterface
    · rw [if_pos hnext]
      exact iff_of_true rfl (.inl hnext)
    · rw [if_neg hnext]
      cases item <;> simp [DocumentItem.isInterface, hnext]

/-- Where it succeeds, the first item decides. -/
theorem checkExactlyOne_accepted {item : DocumentItem} {rest : List DocumentItem}
    (h : ¬ Refused failOnParcelable (item :: rest)) (onlyParcelable : Bool) :
    checkExactlyOne failOnParcelable (item :: rest) onlyParcelable =
      ⟨false, !item.isInterface⟩ := by
  rw [Refused, not_or] at h
  rw [checkExactlyOne.eq_def]
  dsimp only
  rw [if_neg h.1]
  cases item with
  | userData p =>
    have hfail : failOnParcelable = false := by simpa [DocumentItem.isInterface] using h.2
    rw [hfail]
    rfl
  | interface c => rfl

/-- An accepted list has one interface in front or none, and those behind the second item. -/
theorem countP_accepted {item : DocumentItem} {rest : List DocumentItem}
    (h : ¬ Refused failOnParcelable (item :: rest)) :
    (item :: rest).countP DocumentItem.isInterface =
      (if item.isInterface then 1 else 0) +
        ((item :: rest).drop 2).countP DocumentItem.isInterface := by
  rw [Refused, not_or] at h
  rw [List.countP_cons, Nat.add_comm]
  cases rest with
  | nil => rfl
  | cons next rest =>
    have hnext : ¬ next.isInterface := by simpa using h.1
    rw [List.countP_cons_of_neg hnext]
    rfl

/-- For every list of items: a list that is accepted has at most one interface, and
`onlyParcelable` tells whether it has one, exactly if none stands behind the second item. -/
theorem checksSingle_iff (failOnParcelable : Bool) (items : List DocumentItem) :
    ChecksSingle failOnParcelable items ↔
      Refused failOnParcelable items ∨ ∀ item ∈ items.drop 2, item.isInterface = false := by
  by_cases hrefused : Refused failOnParcelable items
  · refine iff_of_true ?_ (.inl hrefused)
    intro onlyParcelable herr
    rw [(checkExactlyOne_err onlyParcelable).mpr hrefused] at herr
    cases herr
  · rw [or_iff_right hrefused]
    cases items with
    | nil => exact absurd trivial hrefused
    | cons item rest =>
      have hcount := countP_accepted hrefused
      have hzero : ((item :: rest).drop 2).countP DocumentItem.isInterface = 0 ↔
          ∀ d ∈ (item :: rest).drop 2, d.isInterface = false := by
        simp only [List.countP_eq_zero, Bool.not_eq_true]
      rw [← hzero]
      constructor
      · intro h
        have hsingle := h false (by rw [checkExactlyOne_accepted hrefused])
        rw [checkExactlyOne_accepted hrefused] at hsingle
        have hmost := hsingle.atMostOne
        have honly := hsingle.onlyParcelable
        cases hitem : item.isInterface with
        | true =>
          rw [hcount, hitem, if_pos rfl] at hmost
          omega
        | false =>
          rw [hcount, hitem, if_neg Bool.false_ne_true] at honly
          have := honly.mp rfl
          omega
      · intro hnone onlyParcelable _
        rw [checkExactlyOne_accepted hrefused]
        rw [hnone] at hcount
        cases hitem : item.isInterface with
        | true =>
          rw [hitem, if_pos rfl] at hcount
          exact ⟨by omega, by simp [hcount]⟩
        | false =>
          rw [hitem, if_neg Bool.false_ne_true] at hcount
          exact ⟨by omega, by simp [hcount]⟩

/-- The items that code is generated for are those that are accepted as an interface. -/
theorem exactlyOneInterface_isSome (onlyParcelable : Bool) :
    (exactlyOneInterface items).isSome ↔
      checkExactlyOne failOnParcelable items onlyParcelable = ⟨false, false⟩ := by
  rcases items with _ | ⟨_ | c, _ | ⟨_ | d, rest⟩⟩ <;>
    simp [exactlyOneInterface, checkExactlyOne, DocumentItem.isInterface]

/-- Two interfaces, with a parcelable in between. -/
def twoInterfaces : Document where
  items :=
    [.interface ⟨.binder, false, none, ascii "A", []⟩,
     .userData ⟨none, ascii "P", PARCELABLE_DATA⟩,
     .interface ⟨.binder, false, none, ascii "B", []⟩]
  parsed := by decide

theorem second_interface_accepted : ¬ ∀ (doc : Document) (failOnParcelable : Bool),
    ChecksSingle failOnParcelable doc.items := by
  intro h
  exact absurd (h twoInterfaces true false (by decide)).atMostOne (by decide)

end Cdroid.Aidl
