import Cdroid.Binder.Weights
import Cdroid.Runtime.Values

/-! The runtime's Parcelables: what `writeToParcel` writes, what `createFromParcel`
makes of it, and the values that come back. -/

namespace Cdroid.Runtime
open Cdroid.Lib.Codec Cdroid.Binder

/-- Short enough for the `int32_t` in front of a string. -/
def Short (s : String8) : Prop := s.length < 2 ^ 31 - 1

/-- `p->writeToParcel(..)`; `none` if the pointer is null and the object's members are
read. -/
def throughPointer {α : Type} (writeToParcel : α → Chunk) (p : Option α) : Option Chunk :=
  p.bind fun a => some (writeToParcel a)

theorem isCodec_short : IsCodec At (fun s => some (writeString8 s)) readString8 Short :=
  isCodec_string8

/-! ## Intents -/

namespace ComponentName

def writeToParcel (cn : ComponentName) : Chunk := writeString8 cn.mName

def createFromParcel : Read ComponentName := do
  let name ← readString8
  pure ⟨name⟩

theorem isCodec : IsCodec At (fun cn => some (writeToParcel cn)) createFromParcel
    fun cn => Short cn.mName :=
  (isCodec_short.iso ComponentName.mk ComponentName.mName fun _ => rfl).congr
    fun _ => ⟨fun h => ⟨h, rfl⟩, fun h => h.1⟩

end ComponentName

namespace Intent

def writeToParcel (i : Intent) : Chunk := writeString8 i.mAction + writeString8 i.mCategory

def createFromParcel : Read Intent := do
  let action ← readString8
  let category ← readString8
  pure (.ofActionCategory action category)

/-- The component is not written. -/
def Transported (i : Intent) : Prop := Short i.mAction ∧ Short i.mCategory ∧ i.mComponent = ⟨[]⟩

theorem isCodec : IsCodec At (fun i => some (writeToParcel i)) createFromParcel Transported := by
  have h := (isCodec_short.pair isCodec_short).iso (fun p => ofActionCategory p.1 p.2)
    (fun i => (i.mAction, i.mCategory)) fun _ => rfl
  simp only [bind_assoc, pure_bind] at h
  refine h.congr fun ⟨action, category, component⟩ => ?_
  constructor
  · rintro ⟨haction, hcategory, rfl⟩
    exact ⟨⟨haction, hcategory⟩, rfl⟩
  · rintro ⟨⟨haction, hcategory⟩, he⟩
    cases he
    exact ⟨haction, hcategory, rfl⟩

end Intent

/-! ## Components -/

namespace ActivityInfo

def writeToParcel (ai : ActivityInfo) : Chunk :=
  writeString8 ai.mName + (writeString8 ai.mApplicationName + writeString8 ai.mFilename)

def createFromParcel : Read ActivityInfo := do
  let name ← readString8
  let appname ← readString8
  let f ← readString8
  pure { ActivityInfo.new name f with mApplicationName := appname }

/-- The action and the category are not written. -/
def Transported (ai : ActivityInfo) : Prop :=
  Short ai.mName ∧ Short ai.mApplicationName ∧ Short ai.mFilename ∧
    ai.mAction = [] ∧ ai.mCategory = []

theorem isCodec : IsCodec At (fun ai => some (writeToParcel ai)) createFromParcel Transported := by
  have h := (isCodec_short.pair (isCodec_short.pair isCodec_short)).iso
    (fun p => { ActivityInfo.new p.1 p.2.2 with mApplicationName := p.2.1 })
    (fun ai => (ai.mName, ai.mApplicationName, ai.mFilename)) fun _ => rfl
  simp only [bind_assoc, pure_bind] at h
  refine h.congr fun ⟨name, appname, action, category, f⟩ => ?_
  constructor
  · rintro ⟨hname, happ, hf, rfl, rfl⟩
    exact ⟨⟨hname, happ, hf⟩, rfl⟩
  · rintro ⟨⟨hname, happ, hf⟩, he⟩
    injection he with _ _ haction hcategory _
    exact ⟨hname, happ, hf, haction.symm, hcategory.symm⟩

theorem weighs : Weighs Parcel.rest createFromParcel fun i => (writeToParcel i).weight := by
  refine weighs_string8.bind fun p => weighs_string8.bind fun q => weighs_string8.bind fun r =>
    .pure ?_
  simp only [writeToParcel, new, Chunk.weight_add]
  omega

end ActivityInfo

namespace ServiceInfo

def writeToParcel (si : ServiceInfo) : Chunk :=
  writeString8 si.mName + (writeString8 si.mApplicationName + writeString8 si.mFilename)

def createFromParcel : Read ServiceInfo := do
  let name ← readString8
  let appname ← readString8
  let f ← readString8
  pure { ServiceInfo.new name f with mApplicationName := appname }

/-- The action and the category are not written. -/
def Transported (si : ServiceInfo) : Prop :=
  Short si.mName ∧ Short si.mApplicationName ∧ Short si.mFilename ∧
    si.mAction = [] ∧ si.mCategory = []

theorem isCodec : IsCodec At (fun si => some (writeToParcel si)) createFromParcel Transported := by
  have h := (isCodec_short.pair (isCodec_short.pair isCodec_short)).iso
    (fun p => { ServiceInfo.new p.1 p.2.2 with mApplicationName := p.2.1 })
    (fun si => (si.mName, si.mApplicationName, si.mFilename)) fun _ => rfl
  simp only [bind_assoc, pure_bind] at h
  refine h.congr fun ⟨name, appname, action, category, f⟩ => ?_
  constructor
  · rintro ⟨hname, happ, hf, rfl, rfl⟩
    exact ⟨⟨hname, happ, hf⟩, rfl⟩
  · rintro ⟨⟨hname, happ, hf⟩, he⟩
    injection he with _ _ haction hcategory _
    exact ⟨hname, happ, hf, haction.symm, hcategory.symm⟩

theorem weighs : Weighs Parcel.rest createFromParcel fun i => (writeToParcel i).weight := by
  refine weighs_string8.bind fun p => weighs_string8.bind fun q => weighs_string8.bind fun r =>
    .pure ?_
  simp only [writeToParcel, new, Chunk.weight_add]
  omega

end ServiceInfo

/-! ## Filters and receivers -/

/-- The length, and each string. -/
def writeStrings (l : List String8) : Chunk :=
  writeInt32 (BitVec.ofNat 32 l.length) + (l.map writeString8).sum

/-- `for(int i = 0; i < N; ++i)` -/
def readStrings : Read (List String8) := do
  let N ← readInt32
  readTimes readString8 N.toInt.toNat

def ShortStrings (l : List String8) : Prop := l.length < 2 ^ 31 ∧ ∀ s ∈ l, Short s

theorem isCodec_strings :
    IsCodec At (fun l => some (writeStrings l)) readStrings ShortStrings := by
  have h := isCodec_count.list isCodec_short
  simp only [writeAll_some] at h
  exact h

theorem weighs_strings : Weighs Parcel.rest readStrings fun l => (writeStrings l).weight := by
  have hcount : ∀ N : BitVec 32,
      (writeInt32 (BitVec.ofNat 32 N.toInt.toNat)).weight ≤ (writeInt32 N).weight := by
    intro N
    have hN := BitVec.toInt_eq_toNat_cond N
    split at hN
    · exact Nat.le_of_eq (by rw [hN, Int.toNat_natCast, BitVec.ofNat_toNat, BitVec.setWidth_eq])
    · -- a negative count is no count
      rw [Int.toNat_of_nonpos (by have := N.isLt; omega)]
      exact Nat.zero_le _
  refine (weighs_string8.list weighs_int32 _ (fun n => (writeInt32 (BitVec.ofNat 32 n)).weight)
    hcount).mono fun l => Nat.le_of_eq ?_
  rw [writeStrings, Chunk.weight_add, Chunk.weight_sum, List.map_map]
  rfl

namespace IntentFilter

def writeToParcel (inf : IntentFilter) : Chunk :=
  writeStrings inf.mActions + writeStrings inf.mCategories

def createFromParcel : Read IntentFilter := do
  let actions ← readStrings
  let categories ← readStrings
  pure { IntentFilter.new with mActions := actions, mCategories := categories }

/-- The priority is not written, and read back as 0. -/
def Transported (inf : IntentFilter) : Prop :=
  ShortStrings inf.mActions ∧ ShortStrings inf.mCategories ∧ inf.mPriority = 0

theorem isCodec :
    IsCodec At (fun inf => some (writeToParcel inf)) createFromParcel Transported := by
  have h := (isCodec_strings.pair isCodec_strings).iso
    (fun p => { IntentFilter.new with mActions := p.1, mCategories := p.2 })
    (fun inf => (inf.mActions, inf.mCategories)) fun _ => rfl
  simp only [bind_assoc, pure_bind] at h
  refine h.congr fun ⟨actions, categories, priority⟩ => ?_
  constructor
  · rintro ⟨hactions, hcategories, rfl⟩
    exact ⟨⟨hactions, hcategories⟩, rfl⟩
  · rintro ⟨⟨hactions, hcategories⟩, he⟩
    cases he
    exact ⟨hactions, hcategories, rfl⟩

theorem weighs : Weighs Parcel.rest createFromParcel fun i => (writeToParcel i).weight := by
  refine weighs_strings.bind fun p => weighs_strings.bind fun q => .pure ?_
  simp only [writeToParcel, Chunk.weight_add]
  omega

end IntentFilter

namespace ReceiverInfo

/-- The filter is written through its pointer. -/
def writeToParcel (ri : ReceiverInfo) : Option Chunk :=
  andThen (some (writeString8 ri.mName)) <| andThen (some (writeString8 ri.mApplicationName)) <|
    andThen (some (writeString8 ri.mFilename)) (throughPointer IntentFilter.writeToParcel ri.mINF)

def createFromParcel : Read ReceiverInfo := do
  let name ← readString8
  let appname ← readString8
  let f ← readString8
  let inf ← IntentFilter.createFromParcel
  pure { ReceiverInfo.new name f with mApplicationName := appname, mINF := some inf }

theorem weighs : Weighs Parcel.rest createFromParcel fun ri => weightOf ri.writeToParcel := by
  refine weighs_string8.bind fun p => weighs_string8.bind fun q => weighs_string8.bind fun r =>
    IntentFilter.weighs.bind fun s => .pure ?_
  simp only [weightOf, writeToParcel, new, andThen, throughPointer, Option.bind_eq_bind,
    Option.bind_some, Option.elim_some, Chunk.weight_add]
  omega

end ReceiverInfo

/-! ## Bundles, keys and texts -/

namespace Bundle

/-- `writeToParcel` looks at no member, so a null pointer is no fault. -/
def writeToParcel (_ : Option Bundle) : Chunk := 0

def createFromParcel : Read Bundle := pure ⟨⟩

/-- A null bundle comes back as an object. -/
theorem isCodec : IsCodec At (fun b => some (writeToParcel b))
    (do let b ← createFromParcel; pure (some b)) fun b => b ≠ none where
  reads b hb := by
    obtain ⟨b, rfl⟩ := Option.ne_none_iff_exists'.mp hb
    exact ⟨0, rfl, .pure (some b)⟩
  misreads b _ hnot _ p _ _ _ he := hnot (he ▸ Option.some_ne_none _)

end Bundle

namespace KeyEvent

def writeToParcel (e : KeyEvent) : Chunk := writeInt32 e.mCode + writeInt32 e.mAction

/-- The two reads are arguments of one constructor call, and a compiler may evaluate
them in either order. -/
def createFromParcel (leftToRight : Bool) : Read KeyEvent := do
  let first ← readInt32
  let second ← readInt32
  pure (if leftToRight then ⟨first, second⟩ else ⟨second, first⟩)

def Transported (leftToRight : Bool) (e : KeyEvent) : Prop :=
  leftToRight = false → e.mCode = e.mAction

theorem isCodec (leftToRight : Bool) :
    IsCodec At (fun e => some (writeToParcel e)) (createFromParcel leftToRight)
      (Transported leftToRight) := by
  have hreads : ∀ e, Reads At (createFromParcel leftToRight) (writeToParcel e)
      (if leftToRight then e else ⟨e.mAction, e.mCode⟩) := fun e =>
    (reads_int32 e.mCode).bind ((reads_int32 e.mAction).bind_pure fun second =>
      (if leftToRight then ⟨e.mCode, second⟩ else ⟨second, e.mCode⟩ : KeyEvent))
  have hfits : ∀ e, Transported leftToRight e ↔
      (if leftToRight then e else ⟨e.mAction, e.mCode⟩) = e := by
    rintro ⟨code, action⟩
    cases leftToRight <;> simp [Transported, eq_comm (a := action)]
  constructor
  · intro e he
    have := hreads e
    rw [(hfits e).mp he] at this
    exact ⟨_, rfl, this⟩
  · rintro e _ hnot ⟨⟩ p pre post h he
    obtain ⟨p', hp, -⟩ := hreads e p pre post h
    rw [hp] at he
    exact hnot ((hfits e).mpr he)

end KeyEvent

namespace Text

def writeToParcel (txt : Text) : Chunk := writeString8 txt.mString

def createFromParcel : Read Text := do
  let str ← readString8
  pure ⟨str⟩

theorem isCodec : IsCodec At (fun txt => some (writeToParcel txt)) createFromParcel
    fun txt => Short txt.mString :=
  (isCodec_short.iso Text.mk Text.mString fun _ => rfl).congr
    fun _ => ⟨fun h => ⟨h, rfl⟩, fun h => h.1⟩

end Text

end Cdroid.Runtime
