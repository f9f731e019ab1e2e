import Cdroid.Runtime.Parcelable

/-! Which values of the runtime's Parcelables come back equal when an object is created
from the parcel that they have been written to. Whatever the parcel holds, a receiver that is
created from it is one of these. -/

namespace Cdroid.Runtime
open Cdroid.Lib.Codec Cdroid.Binder

namespace ReceiverInfo

/-- The filter has to be there, and be transported itself. -/
def Transported (ri : ReceiverInfo) : Prop :=
  Short ri.mName ∧ Short ri.mApplicationName ∧ Short ri.mFilename ∧
    ∃ inf, ri.mINF = some inf ∧ inf.Transported

theorem isCodec : IsCodec At writeToParcel createFromParcel Transported := by
  have h := (isCodec_short.pair (isCodec_short.pair (isCodec_short.pair
    IntentFilter.isCodec.pointer))).iso
    (fun p => { ReceiverInfo.new p.1 p.2.2.1 with
      mApplicationName := p.2.1, mINF := p.2.2.2 })
    (fun ri => (ri.mName, ri.mApplicationName, ri.mFilename, ri.mINF)) fun _ => rfl
  simp only [bind_assoc, pure_bind] at h
  apply h.congr
  intro ri
  constructor
  · exact fun hri => ⟨hri, rfl⟩
  · exact fun hri => hri.1

end ReceiverInfo

/-! ## What is created -/

theorem yields_string8 : Yields readString8 Short := by
  have hnil : Yields (pure [] : Read String8) Short := .pure (Nat.zero_lt_succ _)
  refine (Yields.trivial readInt32).bind fun size _ => ?_
  split
  · next h =>
    refine (Yields.trivial (readInplace _)).bind fun str _ => ?_
    cases str with
    | some str =>
      refine .pure (Nat.lt_of_le_of_lt (List.length_take_le _ _) ?_)
      have hsize := BitVec.toInt_eq_toNat_cond size
      unfold INT32_MAX at h
      split at hsize <;> omega
    | none => exact hnil
  · exact hnil

theorem yields_strings : Yields readStrings ShortStrings := by
  refine (Yields.trivial readInt32).bind fun N _ s => ?_
  obtain ⟨hlength, hshort⟩ := yields_string8.times N.toInt.toNat s
  have hlt := BitVec.toInt_lt (x := N)
  exact ⟨by omega, hshort⟩

theorem IntentFilter.yields : Yields createFromParcel Transported :=
  yields_strings.bind fun _ hactions => yields_strings.bind fun _ hcategories =>
    .pure ⟨hactions, hcategories, rfl⟩

theorem ReceiverInfo.yields : Yields createFromParcel Transported :=
  yields_string8.bind fun _ hname => yields_string8.bind fun _ happ =>
    yields_string8.bind fun _ hf => IntentFilter.yields.bind fun inf hinf =>
      .pure ⟨hname, happ, hf, inf, rfl, hinf⟩

/-- A value of one of the classes. -/
inductive ParcelableValue
  | intent (i : Intent)
  | componentName (cn : ComponentName)
  | intentFilter (inf : IntentFilter)
  | activityInfo (ai : ActivityInfo)
  | serviceInfo (si : ServiceInfo)
  | receiverInfo (ri : ReceiverInfo)
  | text (txt : Text)
  | keyEvent (e : KeyEvent)
  deriving DecidableEq

namespace ParcelableValue

/-- `none` if a null pointer is followed. -/
def writeToParcel : ParcelableValue → Option Chunk
  | intent i => some i.writeToParcel
  | componentName cn => some cn.writeToParcel
  | intentFilter inf => some inf.writeToParcel
  | activityInfo ai => some ai.writeToParcel
  | serviceInfo si => some si.writeToParcel
  | receiverInfo ri => ri.writeToParcel
  | text txt => some txt.writeToParcel
  | keyEvent e => some e.writeToParcel

/-- `createFromParcel` of the value's class; what the value holds is not looked at. -/
def createFromParcel (leftToRight : Bool) : ParcelableValue → Read ParcelableValue
  | intent _ => do let i ← Intent.createFromParcel; pure (.intent i)
  | componentName _ => do let cn ← ComponentName.createFromParcel; pure (.componentName cn)
  | intentFilter _ => do let inf ← IntentFilter.createFromParcel; pure (.intentFilter inf)
  | activityInfo _ => do let ai ← ActivityInfo.createFromParcel; pure (.activityInfo ai)
  | serviceInfo _ => do let si ← ServiceInfo.createFromParcel; pure (.serviceInfo si)
  | receiverInfo _ => do let ri ← ReceiverInfo.createFromParcel; pure (.receiverInfo ri)
  | text _ => do let txt ← Text.createFromParcel; pure (.text txt)
  | keyEvent _ => do let e ← KeyEvent.createFromParcel leftToRight; pure (.keyEvent e)

/-- Wherever the value is written in a parcel, the object that is created there is equal
to it, in whichever order the arguments of a constructor are evaluated. -/
def RoundTrips (v : ParcelableValue) : Prop :=
  ∀ leftToRight, ∃ c, v.writeToParcel = some c ∧
    ∀ p pre post, At p pre (c + post) → (createFromParcel leftToRight v p).1 = v

/-- All that the value holds is written, and read in its place. -/
def Transported : ParcelableValue → Prop
  | intent i => i.Transported
  | componentName cn => Short cn.mName
  | intentFilter inf => inf.Transported
  | activityInfo ai => ai.Transported
  | serviceInfo si => si.Transported
  | receiverInfo ri => ri.Transported
  | text txt => Short txt.mString
  | keyEvent e => e.mCode = e.mAction

/-- A value of a class with a codec comes back exactly if the codec transports it. -/
theorem comesBack_iff {α : Type} {w : α → Option Chunk} {r : Read α} {P : α → Prop}
    (h : IsCodec At w r P) (mk : α → ParcelableValue)
    (hmk : ∀ {a b}, mk a = mk b → a = b) (a : α) :
    (∃ c, w a = some c ∧ ∀ p pre post, At p pre (c + post) →
      ((do let a ← r; pure (mk a) : Read ParcelableValue) p).1 = mk a) ↔ P a := by
  constructor
  · rintro ⟨c, hc, hread⟩
    apply Classical.byContradiction
    intro hnot
    have hat : At (.received c) 0 (c + 0) := by
      rw [add_zero]
      exact at_received c
    exact h.misreads a c hnot hc _ _ _ hat (hmk (hread _ _ _ hat))
  · intro ha
    obtain ⟨c, hc, hr⟩ := h.reads a ha
    refine ⟨c, hc, ?_⟩
    intro p pre post hat
    obtain ⟨p', hp, -⟩ := hr.bind_pure mk p pre post hat
    rw [hp]

/-- **Round trip.** A value comes back equal if and only if it is transported. -/
theorem roundTrips_iff (v : ParcelableValue) : RoundTrips v ↔ Transported v := by
  have hall : ∀ {P : Prop}, (Bool → P) ↔ P := fun {P} => ⟨fun h => h true, fun h _ => h⟩
  cases v with
  | intent i => exact hall.trans (comesBack_iff Intent.isCodec .intent intent.inj i)
  | componentName cn =>
    exact hall.trans (comesBack_iff ComponentName.isCodec .componentName componentName.inj cn)
  | intentFilter inf =>
    exact hall.trans (comesBack_iff IntentFilter.isCodec .intentFilter intentFilter.inj inf)
  | activityInfo ai =>
    exact hall.trans (comesBack_iff ActivityInfo.isCodec .activityInfo activityInfo.inj ai)
  | serviceInfo si =>
    exact hall.trans (comesBack_iff ServiceInfo.isCodec .serviceInfo serviceInfo.inj si)
  | receiverInfo ri =>
    exact hall.trans (comesBack_iff ReceiverInfo.isCodec .receiverInfo receiverInfo.inj ri)
  | text txt => exact hall.trans (comesBack_iff Text.isCodec .text text.inj txt)
  | keyEvent e =>
    have hkey := fun order =>
      comesBack_iff (KeyEvent.isCodec order) .keyEvent keyEvent.inj e
    constructor
    · intro h
      exact (hkey false).mp (h false) rfl
    · intro h order
      exact (hkey order).mpr fun _ => h

/-- An intent loses its component. -/
theorem component_not_roundTrips :
    ¬ RoundTrips (.intent ⟨ascii "a", [], ⟨ascii "c"⟩⟩) := by
  intro h
  obtain ⟨c, hc, hread⟩ := h true
  cases hc
  have hat := at_received (Intent.writeToParcel ⟨ascii "a", [], ⟨ascii "c"⟩⟩)
  have := hread _ _ _ (by rw [add_zero]; exact hat)
  revert this
  decide +kernel

end ParcelableValue

end Cdroid.Runtime
