import Cdroid.Runtime.RoundTrip

/-! `readFromParcel` fills an object that is there already, from the bytes that
`createFromParcel` makes a new one of. It sets the members that it reads and appends to
the lists, and no member is reset before: `refilled_iff` says for each class what the
object may have held if the two are to agree. -/

namespace Cdroid.Runtime
open Cdroid.Lib.Codec Cdroid.Binder

/-! ## The classes -/

def ComponentName.readFromParcel (cn : ComponentName) : Read ComponentName := do
  let name ← readString8
  pure { cn with mName := name }

def Intent.readFromParcel (i : Intent) : Read Intent := do
  let action ← readString8
  let category ← readString8
  pure { i with mAction := action, mCategory := category }

def ActivityInfo.readFromParcel (ai : ActivityInfo) : Read ActivityInfo := do
  let name ← readString8
  let appname ← readString8
  let f ← readString8
  pure { ai with mName := name, mApplicationName := appname, mFilename := f }

def ServiceInfo.readFromParcel (si : ServiceInfo) : Read ServiceInfo := do
  let name ← readString8
  let appname ← readString8
  let f ← readString8
  pure { si with mName := name, mApplicationName := appname, mFilename := f }

/-- `push_back` of each string that is read. -/
def pushStrings (l : List String8) : Read (List String8) := do
  let N ← readInt32
  let more ← readTimes readString8 N.toInt.toNat
  pure (l ++ more)

def IntentFilter.readFromParcel (inf : IntentFilter) : Read IntentFilter := do
  let actions ← pushStrings inf.mActions
  let categories ← pushStrings inf.mCategories
  pure { inf with mActions := actions, mCategories := categories }

/-- `mINF->createFromParcel(source)` follows no pointer: it may be null, and the object
behind it is replaced. -/
def ReceiverInfo.readFromParcel (ri : ReceiverInfo) : Read ReceiverInfo := do
  let name ← readString8
  let appname ← readString8
  let f ← readString8
  let inf ← IntentFilter.createFromParcel
  pure { ri with mName := name, mApplicationName := appname, mFilename := f, mINF := some inf }

def Text.readFromParcel (txt : Text) : Read Text := do
  let str ← readString8
  pure { txt with mString := str }

/-- Two statements, unlike the arguments in `createFromParcel`. -/
def KeyEvent.readFromParcel (e : KeyEvent) : Read KeyEvent := do
  let code ← readInt32
  let action ← readInt32
  pure { e with mCode := code, mAction := action }

namespace ParcelableValue

def readFromParcel : ParcelableValue → Read ParcelableValue
  | intent i => do let i ← i.readFromParcel; pure (.intent i)
  | componentName cn => do let cn ← cn.readFromParcel; pure (.componentName cn)
  | intentFilter inf => do let inf ← inf.readFromParcel; pure (.intentFilter inf)
  | activityInfo ai => do let ai ← ai.readFromParcel; pure (.activityInfo ai)
  | serviceInfo si => do let si ← si.readFromParcel; pure (.serviceInfo si)
  | receiverInfo ri => do let ri ← ri.readFromParcel; pure (.receiverInfo ri)
  | text txt => do let txt ← txt.readFromParcel; pure (.text txt)
  | keyEvent e => do let e ← e.readFromParcel; pure (.keyEvent e)

/-- The object holds nothing that a new one does not hold, in the members that
`readFromParcel` leaves or appends to. Where all members are set, that is no condition;
a key event has to be one whose two numbers the compiler reads in their order, or that
are equal. -/
def Bare (leftToRight : Bool) (p : Parcel) : ParcelableValue → Prop
  | intent i => i.mComponent = ⟨[]⟩
  | componentName _ => True
  | intentFilter inf => inf.mActions = [] ∧ inf.mCategories = [] ∧ inf.mPriority = 0
  | activityInfo ai => ai.mAction = [] ∧ ai.mCategory = []
  | serviceInfo si => si.mAction = [] ∧ si.mCategory = []
  | receiverInfo _ => True
  | text _ => True
  | keyEvent _ => leftToRight = false → (readInt32 p).1 = (readInt32 (readInt32 p).2).1

/-! ## What the two make of a parcel -/

theorem pushStrings_apply (l : List String8) (p : Parcel) :
    pushStrings l p = (l ++ (readStrings p).1, (readStrings p).2) :=
  rfl

theorem intentFilter_readFromParcel (inf : IntentFilter) (p : Parcel) :
    inf.readFromParcel p =
      (⟨inf.mActions ++ (readStrings p).1, inf.mCategories ++ (readStrings (readStrings p).2).1,
        inf.mPriority⟩, (readStrings (readStrings p).2).2) := by
  rw [IntentFilter.readFromParcel, bind_apply, pushStrings_apply, bind_apply, pushStrings_apply]
  rfl

theorem intentFilter_createFromParcel (p : Parcel) :
    IntentFilter.createFromParcel p =
      (⟨(readStrings p).1, (readStrings (readStrings p).2).1, 0⟩,
        (readStrings (readStrings p).2).2) :=
  rfl

/-- The same is read, wherever it is put. -/
theorem readFromParcel_parcel (leftToRight : Bool) (v : ParcelableValue) (p : Parcel) :
    (v.readFromParcel p).2 = (v.createFromParcel leftToRight p).2 := by
  cases v with
  | intentFilter inf =>
    rw [readFromParcel, createFromParcel, bind_apply, bind_apply, intentFilter_readFromParcel,
      intentFilter_createFromParcel]
    rfl
  | _ => rfl

theorem componentName_refilled (cn : ComponentName) :
    cn.readFromParcel = ComponentName.createFromParcel := rfl

theorem receiverInfo_refilled (ri : ReceiverInfo) :
    ri.readFromParcel = ReceiverInfo.createFromParcel := by
  simp only [ReceiverInfo.readFromParcel, ReceiverInfo.createFromParcel, ReceiverInfo.new]

theorem text_refilled (txt : Text) : txt.readFromParcel = Text.createFromParcel := rfl

theorem intent_refilled_iff (i : Intent) (p : Parcel) :
    (i.readFromParcel p).1 = (Intent.createFromParcel p).1 ↔ i.mComponent = ⟨[]⟩ := by
  constructor
  · intro h
    exact congrArg Intent.mComponent h
  · intro h
    exact congrArg (Intent.mk _ _) h

theorem activityInfo_refilled_iff (ai : ActivityInfo) (p : Parcel) :
    (ai.readFromParcel p).1 = (ActivityInfo.createFromParcel p).1 ↔
      ai.mAction = [] ∧ ai.mCategory = [] := by
  constructor
  · intro h
    exact ⟨congrArg ActivityInfo.mAction h, congrArg ActivityInfo.mCategory h⟩
  · rintro ⟨haction, hcategory⟩
    have hread : ai.readFromParcel = ActivityInfo.createFromParcel := by
      simp only [ActivityInfo.readFromParcel, ActivityInfo.createFromParcel, ActivityInfo.new,
        haction, hcategory]
    rw [hread]

theorem serviceInfo_refilled_iff (si : ServiceInfo) (p : Parcel) :
    (si.readFromParcel p).1 = (ServiceInfo.createFromParcel p).1 ↔
      si.mAction = [] ∧ si.mCategory = [] := by
  constructor
  · intro h
    exact ⟨congrArg ServiceInfo.mAction h, congrArg ServiceInfo.mCategory h⟩
  · rintro ⟨haction, hcategory⟩
    have hread : si.readFromParcel = ServiceInfo.createFromParcel := by
      simp only [ServiceInfo.readFromParcel, ServiceInfo.createFromParcel, ServiceInfo.new,
        haction, hcategory]
    rw [hread]

/-- Strings that stand in front show, whatever is read behind them. -/
theorem intentFilter_refilled_iff (inf : IntentFilter) (p : Parcel) :
    (inf.readFromParcel p).1 = (IntentFilter.createFromParcel p).1 ↔
      inf.mActions = [] ∧ inf.mCategories = [] ∧ inf.mPriority = 0 := by
  rw [intentFilter_readFromParcel, intentFilter_createFromParcel]
  constructor
  · intro h
    have hactions := congrArg IntentFilter.mActions h
    have hcategories := congrArg IntentFilter.mCategories h
    exact ⟨List.append_left_eq_self.mp hactions, List.append_left_eq_self.mp hcategories,
      congrArg IntentFilter.mPriority h⟩
  · rintro ⟨hactions, hcategories, hpriority⟩
    rw [hactions, hcategories, hpriority, List.nil_append, List.nil_append]

/-- The words are the same, and in one order only if the compiler reads them so. -/
theorem keyEvent_refilled_iff (leftToRight : Bool) (e : KeyEvent) (p : Parcel) :
    (e.readFromParcel p).1 = (KeyEvent.createFromParcel leftToRight p).1 ↔
      (leftToRight = false → (readInt32 p).1 = (readInt32 (readInt32 p).2).1) := by
  cases leftToRight with
  | true => exact iff_of_true rfl (fun h => nomatch h)
  | false =>
    constructor
    · intro h _
      exact congrArg KeyEvent.mCode h
    · intro h
      exact congrArg₂ KeyEvent.mk (h rfl) (h rfl).symm

/-- **Refilling.** Whatever the parcel holds, `readFromParcel` makes an object equal to the
one that `createFromParcel` builds from the same bytes, and reads as far, if and only if
the object holds nothing that is left over. -/
theorem refilled_iff (leftToRight : Bool) (v : ParcelableValue) (p : Parcel) :
    v.readFromParcel p = v.createFromParcel leftToRight p ↔ v.Bare leftToRight p := by
  have hmk : ∀ {α : Type} {x y : α} (mk : α → ParcelableValue)
      (_ : ∀ {a b}, mk a = mk b → a = b), mk x = mk y ↔ x = y :=
    fun mk hmk => ⟨hmk, congrArg mk⟩
  rw [Prod.ext_iff, and_iff_left (readFromParcel_parcel leftToRight v p)]
  cases v with
  | intent i => exact (hmk .intent intent.inj).trans (intent_refilled_iff i p)
  | componentName cn =>
    have hread := componentName_refilled cn
    exact (hmk .componentName componentName.inj).trans (iff_of_true (by rw [hread]) trivial)
  | intentFilter inf =>
    exact (hmk .intentFilter intentFilter.inj).trans (intentFilter_refilled_iff inf p)
  | activityInfo ai =>
    exact (hmk .activityInfo activityInfo.inj).trans (activityInfo_refilled_iff ai p)
  | serviceInfo si =>
    exact (hmk .serviceInfo serviceInfo.inj).trans (serviceInfo_refilled_iff si p)
  | receiverInfo ri =>
    have hread := receiverInfo_refilled ri
    exact (hmk .receiverInfo receiverInfo.inj).trans (iff_of_true (by rw [hread]) trivial)
  | text txt =>
    exact (hmk .text text.inj).trans (iff_of_true (by rw [text_refilled]) trivial)
  | keyEvent e =>
    exact (hmk .keyEvent keyEvent.inj).trans (keyEvent_refilled_iff leftToRight e p)

/-- The actions of a filter that is refilled are still there. -/
theorem intentFilter_not_refilled :
    ¬ ∀ inf written : IntentFilter, (inf.readFromParcel (.received written.writeToParcel)).1 =
      (IntentFilter.createFromParcel (.received written.writeToParcel)).1 := by
  intro h
  have := h ⟨[ascii "a"], [], 0⟩ ⟨[ascii "b"], [], 0⟩
  revert this
  decide +kernel

end ParcelableValue

end Cdroid.Runtime
