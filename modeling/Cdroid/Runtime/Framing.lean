import Cdroid.Binder.Framing
import Cdroid.Runtime.RoundTrip

/-! Typed values that are written to a parcel in a row and read back from its start: each
read stops where the write stopped, and what comes back is what is transported. -/

namespace Cdroid.Runtime
open Cdroid.Lib.Blocks Cdroid.Lib.Codec Cdroid.Lib.Runs Cdroid.Binder
open Memory (Item Heap Holds)

/-! ## What the runtime's classes write -/

/-- The length, and each string. -/
def stringItems (l : List String8) : List Item :=
  .int32 (BitVec.ofNat 32 l.length) :: l.map .string8

namespace ParcelableValue

/-- The calls of `writeToParcel`; `none` if a null pointer is followed. -/
def items : ParcelableValue → Option (List Item)
  | intent i => some [.string8 i.mAction, .string8 i.mCategory]
  | componentName cn => some [.string8 cn.mName]
  | intentFilter inf => some (filterItems inf)
  | activityInfo ai => some [.string8 ai.mName, .string8 ai.mApplicationName, .string8 ai.mFilename]
  | serviceInfo si => some [.string8 si.mName, .string8 si.mApplicationName, .string8 si.mFilename]
  | receiverInfo ri => ri.mINF.map fun inf =>
      [.string8 ri.mName, .string8 ri.mApplicationName, .string8 ri.mFilename] ++ filterItems inf
  | text txt => some [.string8 txt.mString]
  | keyEvent e => some [.int32 e.mCode, .int32 e.mAction]
where
  filterItems (inf : IntentFilter) : List Item :=
    stringItems inf.mActions ++ stringItems inf.mCategories

/-- The value with the members that are not transported as the reader leaves them. -/
def transported : ParcelableValue → ParcelableValue
  | intent i => intent { i with mComponent := ⟨[]⟩ }
  | componentName cn => componentName cn
  | intentFilter inf => intentFilter { inf with mPriority := 0 }
  | activityInfo ai => activityInfo { ai with mAction := [], mCategory := [] }
  | serviceInfo si => serviceInfo { si with mAction := [], mCategory := [] }
  | receiverInfo ri =>
    receiverInfo { ri with mINF := ri.mINF.map fun inf => { inf with mPriority := 0 } }
  | text txt => text txt
  | keyEvent e => keyEvent e

theorem transported_transported (v : ParcelableValue) :
    v.transported.transported = v.transported := by
  cases v with
  | receiverInfo ri => simp [transported, Function.comp_def]
  | _ => rfl

end ParcelableValue

/-- The bytes of some writes in a row. -/
def itemsChunk (l : List Item) : Chunk := (l.map Item.chunk).sum

@[simp] theorem itemsChunk_nil : itemsChunk [] = 0 := rfl

@[simp] theorem itemsChunk_cons (i : Item) (l : List Item) :
    itemsChunk (i :: l) = i.chunk + itemsChunk l := rfl

@[simp] theorem itemsChunk_append (l l' : List Item) :
    itemsChunk (l ++ l') = itemsChunk l + itemsChunk l' := by
  induction l with
  | nil => exact (zero_add _).symm
  | cons i l ih => rw [List.cons_append, itemsChunk_cons, ih, itemsChunk_cons, add_assoc]

@[simp] theorem objects_itemsChunk (l : List Item) : (itemsChunk l).objects = [] := by
  induction l with
  | nil => rfl
  | cons i l ih => simp [ih]

theorem itemsChunk_strings (l : List String8) : itemsChunk (stringItems l) = writeStrings l := by
  rw [stringItems, itemsChunk_cons, itemsChunk, List.map_map]
  rfl

/-- The calls write what `writeToParcel` does. -/
theorem ParcelableValue.items_written (v : ParcelableValue) :
    v.items.map itemsChunk = v.writeToParcel := by
  have hfilter : ∀ inf : IntentFilter,
      itemsChunk (items.filterItems inf) = inf.writeToParcel := fun inf => by
    rw [items.filterItems, itemsChunk_append, itemsChunk_strings, itemsChunk_strings]
    rfl
  cases v with
  | intentFilter inf => exact congrArg some (hfilter inf)
  | receiverInfo ri =>
    cases hinf : ri.mINF with
    | none => simp [items, writeToParcel, ReceiverInfo.writeToParcel, hinf, throughPointer, andThen]
    | some inf =>
      simp [items, writeToParcel, ReceiverInfo.writeToParcel, hinf, throughPointer, andThen,
        hfilter, Item.chunk]
  | _ => simp [items, writeToParcel, Intent.writeToParcel, ComponentName.writeToParcel,
      ActivityInfo.writeToParcel, ServiceInfo.writeToParcel, Text.writeToParcel,
      KeyEvent.writeToParcel, Item.chunk]

/-! ## Values -/

/-- A `float` and a `double` are their bits. -/
inductive TypedValue
  | int32 (val : BitVec 32)
  | int64 (val : BitVec 64)
  | float (bits : BitVec 32)
  | double (bits : BitVec 64)
  | cString (str : CString)
  | string8 (str : String8)
  | string16 (str : String16)
  | block (data : List UInt8)
  | parcelable (v : ParcelableValue)
  | bundle (b : Bundle)
  deriving DecidableEq

namespace TypedValue

def items : TypedValue → Option (List Item)
  | int32 val | float val => some [.int32 val]
  | int64 val | double val => some [.int64 val]
  | cString str => some [.cString str]
  | string8 str => some [.string8 str]
  | string16 str => some [.string16 str]
  | block data => some [.block data]
  | parcelable v => v.items
  | bundle _ => some []

/-- The matching read; only the length of a block is looked at. A read that has nothing
to return gives `none`. -/
def read (leftToRight : Bool) : TypedValue → Read (Option TypedValue)
  | int32 _ => do let val ← readInt32; pure (some (int32 val))
  | int64 _ => do let val ← readInt64; pure (some (int64 val))
  | float _ => do let val ← readInt32; pure (some (float val))
  | double _ => do let val ← readInt64; pure (some (double val))
  | cString _ => do let str ← readCString; pure (str.map cString)
  | string8 _ => do let str ← readString8; pure (some (string8 str))
  | string16 _ => do let str ← readString16; pure (some (string16 str))
  | block data => do let data ← Binder.read data.length; pure (data.map block)
  | parcelable v => do
    let v ← v.createFromParcel leftToRight
    pure (some (parcelable v))
  | bundle _ => do let b ← Bundle.createFromParcel; pure (some (bundle b))

def transported : TypedValue → TypedValue
  | parcelable v => parcelable v.transported
  | v => v

/-- What the matching read returns: a right-to-left compiler exchanges the members of a
key event. -/
def comesBack (leftToRight : Bool) : TypedValue → TypedValue
  | parcelable (.keyEvent e) =>
    parcelable (.keyEvent (if leftToRight then e else ⟨e.mAction, e.mCode⟩))
  | v => v.transported

end TypedValue

/-! ## Lengths -/

theorem short_of_length {s : String8} (h : (writeString8 s).bytes.length < 2 ^ 31) : Short s := by
  unfold Short
  by_cases hnil : s = []
  · rw [hnil]
    exact Nat.zero_lt_succ _
  · rw [writeString8, if_neg hnil, Chunk.bytes_add, List.length_append, write, length_padded,
      padSize, List.length_append, List.length_singleton, writeInt32, length_wordBytes] at h
    omega

theorem length_sum_strings (l : List String8) :
    4 * l.length ≤ (l.map writeString8).sum.bytes.length ∧
      ∀ s ∈ l, (writeString8 s).bytes.length ≤ (l.map writeString8).sum.bytes.length := by
  induction l with
  | nil => exact ⟨Nat.le_refl 0, nofun⟩
  | cons s l ih =>
    have hfour : 4 ≤ (writeString8 s).bytes.length := by
      unfold writeString8
      split
      · exact Nat.le_refl 4
      · rw [Chunk.bytes_add, List.length_append]
        exact Nat.le_add_right 4 _
    rw [List.map_cons, List.sum_cons, Chunk.bytes_add, List.length_append, List.length_cons]
    refine ⟨by omega, fun t ht => ?_⟩
    rcases List.mem_cons.mp ht with rfl | ht
    · exact Nat.le_add_right _ _
    · exact Nat.le_trans (ih.2 t ht) (Nat.le_add_left _ _)

theorem shortStrings_of_length {l : List String8} (h : (writeStrings l).bytes.length < 2 ^ 31) :
    ShortStrings l := by
  have hsum := length_sum_strings l
  rw [writeStrings, Chunk.bytes_add, List.length_append] at h
  exact ⟨by omega, fun s hs => short_of_length (by have := hsum.2 s hs; omega)⟩

/-- Whatever fits into a parcel is short enough to be transported. -/
theorem ParcelableValue.transported_of_length {v : ParcelableValue} {c : Chunk}
    (hc : v.writeToParcel = some c) (h : c.bytes.length < 2 ^ 31)
    (hkey : ∀ e, v ≠ keyEvent e) : v.transported.Transported := by
  have hfilter : ∀ inf : IntentFilter, inf.writeToParcel.bytes.length < 2 ^ 31 →
      IntentFilter.Transported { inf with mPriority := 0 } := by
    intro inf hinf
    rw [IntentFilter.writeToParcel, Chunk.bytes_add, List.length_append] at hinf
    have hactions : ShortStrings inf.mActions := shortStrings_of_length (by omega)
    have hcategories : ShortStrings inf.mCategories := shortStrings_of_length (by omega)
    exact ⟨hactions, hcategories, rfl⟩
  cases v with
  | intent i =>
    cases hc
    rw [Intent.writeToParcel, Chunk.bytes_add, List.length_append] at h
    have haction : Short i.mAction := short_of_length (by omega)
    have hcategory : Short i.mCategory := short_of_length (by omega)
    exact ⟨haction, hcategory, rfl⟩
  | componentName cn =>
    cases hc
    exact short_of_length h
  | intentFilter inf =>
    cases hc
    exact hfilter inf h
  | activityInfo ai =>
    cases hc
    simp only [ActivityInfo.writeToParcel, Chunk.bytes_add, List.length_append] at h
    have hname : Short ai.mName := short_of_length (by omega)
    have happ : Short ai.mApplicationName := short_of_length (by omega)
    have hfile : Short ai.mFilename := short_of_length (by omega)
    exact ⟨hname, happ, hfile, rfl, rfl⟩
  | serviceInfo si =>
    cases hc
    simp only [ServiceInfo.writeToParcel, Chunk.bytes_add, List.length_append] at h
    have hname : Short si.mName := short_of_length (by omega)
    have happ : Short si.mApplicationName := short_of_length (by omega)
    have hfile : Short si.mFilename := short_of_length (by omega)
    exact ⟨hname, happ, hfile, rfl, rfl⟩
  | receiverInfo ri =>
    obtain ⟨c₁, hc₁, d₁, hd₁, rfl⟩ := andThen_eq_some.mp hc
    obtain ⟨c₂, hc₂, d₂, hd₂, rfl⟩ := andThen_eq_some.mp hd₁
    obtain ⟨c₃, hc₃, d₃, hd₃, rfl⟩ := andThen_eq_some.mp hd₂
    obtain ⟨inf, hinf, hd₃⟩ := Option.bind_eq_some_iff.mp hd₃
    cases hc₁
    cases hc₂
    cases hc₃
    cases hd₃
    simp only [Chunk.bytes_add, List.length_append] at h
    have hname : Short ri.mName := short_of_length (by omega)
    have happ : Short ri.mApplicationName := short_of_length (by omega)
    have hfile : Short ri.mFilename := short_of_length (by omega)
    refine ⟨hname, happ, hfile, { inf with mPriority := 0 }, ?_, hfilter inf (by omega)⟩
    rw [hinf]
    rfl
  | text txt =>
    cases hc
    exact short_of_length h
  | keyEvent e => exact absurd rfl (hkey e)

/-- What is not transported is not written. -/
theorem ParcelableValue.written_transported (v : ParcelableValue) :
    v.transported.writeToParcel = v.writeToParcel := by
  cases v with
  | receiverInfo ri => cases h : ri.mINF <;> simp [transported, writeToParcel,
      ReceiverInfo.writeToParcel, h, throughPointer, IntentFilter.writeToParcel]
  | _ => rfl

/-! ## Reading a value -/

theorem ParcelableValue.reads_keyEvent (leftToRight : Bool) (e : KeyEvent) :
    Reads At (createFromParcel leftToRight (keyEvent e)) e.writeToParcel
      (keyEvent (if leftToRight then e else ⟨e.mAction, e.mCode⟩)) := by
  have hreads : Reads At (KeyEvent.createFromParcel leftToRight) e.writeToParcel
      (if leftToRight then e else ⟨e.mAction, e.mCode⟩) :=
    (reads_int32 e.mCode).bind ((reads_int32 e.mAction).bind_pure fun second =>
      (if leftToRight then ⟨e.mCode, second⟩ else ⟨second, e.mCode⟩ : KeyEvent))
  exact hreads.bind_pure keyEvent

/-- A codec of a class reads its values as values of any class. -/
theorem reads_of_isCodec {α : Type} {w : α → Option Chunk} {r : Read α} {P : α → Prop}
    (h : IsCodec At w r P) (mk : α → ParcelableValue) {a : α} (ha : P a) {c : Chunk}
    (hc : w a = some c) :
    Reads At (do let a ← r; pure (mk a) : Read ParcelableValue) c (mk a) := by
  obtain ⟨d, hd, hreads⟩ := h.reads a ha
  cases hc.symm.trans hd
  exact hreads.bind_pure mk

/-- The object that is created is the value, as far as it is transported. -/
theorem ParcelableValue.reads_transported (leftToRight : Bool) {v : ParcelableValue} {c : Chunk}
    (hc : v.writeToParcel = some c) (h : c.bytes.length < 2 ^ 31) (hkey : ∀ e, v ≠ keyEvent e) :
    Reads At (v.createFromParcel leftToRight) c v.transported := by
  have htransported := transported_of_length hc h hkey
  rw [← written_transported] at hc
  cases v with
  | intent i => exact reads_of_isCodec Intent.isCodec intent htransported hc
  | componentName cn => exact reads_of_isCodec ComponentName.isCodec componentName htransported hc
  | intentFilter inf => exact reads_of_isCodec IntentFilter.isCodec intentFilter htransported hc
  | activityInfo ai => exact reads_of_isCodec ActivityInfo.isCodec activityInfo htransported hc
  | serviceInfo si => exact reads_of_isCodec ServiceInfo.isCodec serviceInfo htransported hc
  | receiverInfo ri => exact reads_of_isCodec ReceiverInfo.isCodec receiverInfo htransported hc
  | text txt => exact reads_of_isCodec Text.isCodec text htransported hc
  | keyEvent e => exact absurd rfl (hkey e)

/-- **Read lemma.** In front of what was written, the matching read returns what comes
back of the value and stops behind it. -/
theorem TypedValue.reads (leftToRight : Bool) {v : TypedValue} {l : List Item}
    (hl : v.items = some l) (h : (itemsChunk l).bytes.length < 2 ^ 31) :
    Reads At (v.read leftToRight) (itemsChunk l) (some (v.comesBack leftToRight)) := by
  cases v with
  | int32 val =>
    cases hl
    rw [itemsChunk_cons, itemsChunk_nil, add_zero]
    exact (reads_int32 val).bind_pure fun val => some (int32 val)
  | int64 val =>
    cases hl
    rw [itemsChunk_cons, itemsChunk_nil, add_zero]
    exact (reads_int64 val).bind_pure fun val => some (int64 val)
  | float val =>
    cases hl
    rw [itemsChunk_cons, itemsChunk_nil, add_zero]
    exact (reads_int32 val).bind_pure fun val => some (float val)
  | double val =>
    cases hl
    rw [itemsChunk_cons, itemsChunk_nil, add_zero]
    exact (reads_int64 val).bind_pure fun val => some (double val)
  | cString str =>
    cases hl
    rw [itemsChunk_cons, itemsChunk_nil, add_zero]
    exact (reads_cString str).bind_pure fun str => str.map cString
  | string8 str =>
    cases hl
    rw [itemsChunk_cons, itemsChunk_nil, add_zero] at h ⊢
    exact (reads_string8 (short_of_length h)).bind_pure fun str => some (string8 str)
  | string16 str =>
    cases hl
    rw [itemsChunk_cons, itemsChunk_nil, add_zero] at h ⊢
    refine (reads_string16 ?_).bind_pure fun str => some (string16 str)
    have hlen : (writeString16 str).bytes.length < 2 ^ 31 := h
    rw [writeString16, Chunk.bytes_add, List.length_append, write, length_padded, padSize,
      List.length_append, Memory.length_flatMap_chars] at hlen
    omega
  | block data =>
    cases hl
    rw [itemsChunk_cons, itemsChunk_nil, add_zero]
    exact (reads_block data).bind_pure fun data => data.map block
  | parcelable v =>
    have hc : v.writeToParcel = some (itemsChunk l) := by
      rw [← v.items_written, show v.items = some l from hl]
      rfl
    by_cases hkey : ∃ e, v = .keyEvent e
    · obtain ⟨e, rfl⟩ := hkey
      have hchunk : e.writeToParcel = itemsChunk l := Option.some.inj hc
      rw [← hchunk]
      exact (ParcelableValue.reads_keyEvent leftToRight e).bind_pure fun v => some (parcelable v)
    · have hback : (parcelable v).comesBack leftToRight = parcelable v.transported := by
        cases v with
        | keyEvent e => exact absurd ⟨e, rfl⟩ hkey
        | _ => rfl
      rw [hback]
      exact (ParcelableValue.reads_transported leftToRight hc h
        fun e he => hkey ⟨e, he⟩).bind_pure fun v => some (parcelable v)
  | bundle b =>
    cases hl
    rw [itemsChunk_nil]
    exact Reads.pure (some (bundle b))

/-! ## Runs -/

/-- A value, and what the allocations of each of its writes return. -/
structure Writing where
  value : TypedValue
  heap : Nat → Nat → Heap

def writeItems (heap : Nat → Nat → Heap) : List Item → Memory.Parcel → Memory.Parcel
  | [], p => p
  | i :: l, p => writeItems (fun n => heap (n + 1)) l (i.write (heap 0) p).parcel

def ItemsFit (heap : Nat → Nat → Heap) : List Item → Memory.Parcel → Prop
  | [], _ => True
  | i :: l, p =>
    i.Fits (heap 0) p ∧ ItemsFit (fun n => heap (n + 1)) l (i.write (heap 0) p).parcel

instance decidableItemsFit : ∀ heap l p, Decidable (ItemsFit heap l p)
  | _, [], _ => .isTrue trivial
  | heap, i :: l, p =>
    have := decidableItemsFit (fun n => heap (n + 1)) l (i.write (heap 0) p).parcel
    inferInstanceAs (Decidable (_ ∧ _))

namespace Writing

/-- There is no parcel after a null pointer is followed. -/
def next (p : Memory.Parcel) (s : Writing) : Option Memory.Parcel :=
  s.value.items.map fun l => writeItems s.heap l p

/-- There is memory, and no size wraps. -/
def Fits (p : Memory.Parcel) (s : Writing) : Prop := ∀ l ∈ s.value.items, ItemsFit s.heap l p

instance (p : Memory.Parcel) (s : Writing) : Decidable (s.Fits p) :=
  match h : s.value.items with
  | some l => decidable_of_iff (ItemsFit s.heap l p) (by simp [Fits, h])
  | none => .isTrue (by simp [Fits, h])

end Writing

/-- The parcel at position 0, for the reads. -/
def rewound (p : Memory.Parcel) : Binder.Parcel :=
  ⟨toList p.mDataSize.toNat (p.mData.getD fun _ => 0), p.mObjects.map BitVec.toNat, 0, 0⟩

/-- Each read returns what is transported of the value that was written, and moves the
position by as many bytes as were added for it. The last one ends at the end. -/
def ReadsBack (leftToRight : Bool) : List Writing → Memory.Parcel → Binder.Parcel → Prop
  | [], p, r => r.mDataPos = p.mDataSize.toNat
  | s :: ss, p, r => ∃ p', s.next p = some p' ∧
    let back := s.value.read leftToRight r
    back.1.map TypedValue.transported = some s.value.transported ∧
    back.2.mDataPos + p.mDataSize.toNat = r.mDataPos + p'.mDataSize.toNat ∧
    ReadsBack leftToRight ss p' back.2

/-- The values are written to an empty parcel, and read back from its start, in whichever
order the arguments of a constructor are evaluated. -/
def Framed (ss : List Writing) : Prop :=
  ∀ leftToRight, ∃ p, after Writing.next ss .initState = some p ∧
    ReadsBack leftToRight ss .initState (rewound p)

/-- The two members that a compiler may exchange are equal; a pointer that is followed is
not null. -/
def TypedValue.Framable : TypedValue → Prop
  | parcelable (.keyEvent e) => e.mCode = e.mAction
  | parcelable (.receiverInfo ri) => ri.mINF ≠ none
  | _ => True

theorem TypedValue.framable_of_items {v : TypedValue} (h : v.items = none) : ¬ v.Framable := by
  cases v with
  | parcelable v =>
    cases v with
    | receiverInfo ri =>
      have hnone : ri.mINF = none := Option.map_eq_none_iff.mp h
      exact not_not_intro hnone
    | _ => cases h
  | _ => cases h

/-- Where the write was made, what comes back is right in both orders only if the value
can be framed. -/
theorem TypedValue.comesBack_iff {v : TypedValue} {l : List Item} (h : v.items = some l) :
    (∀ leftToRight, (v.comesBack leftToRight).transported = v.transported) ↔ v.Framable := by
  cases v with
  | parcelable v =>
    cases v with
    | keyEvent e =>
      constructor
      · intro hback
        have hswapped := hback false
        simp only [comesBack, transported, ParcelableValue.transported] at hswapped
        injection hswapped with hswapped
        injection hswapped with hswapped
        exact (congrArg KeyEvent.mAction hswapped)
      · intro heq leftToRight
        have hsame : e.mCode = e.mAction := heq
        obtain ⟨code, action⟩ := e
        cases hsame
        cases leftToRight <;> rfl
    | receiverInfo ri =>
      refine ⟨fun _ hnone => ?_, fun _ _ => ?_⟩
      · rw [items, ParcelableValue.items, hnone] at h
        cases h
      · exact congrArg parcelable (ParcelableValue.transported_transported _)
    | _ => exact ⟨fun _ => trivial, fun _ _ => rfl⟩
  | _ => exact ⟨fun _ => trivial, fun _ _ => rfl⟩

theorem writeItems_holds {heap : Nat → Nat → Heap} {l : List Item} {p : Memory.Parcel}
    {bytes : List UInt8} (hp : Holds p bytes) (hfits : ItemsFit heap l p) :
    Holds (writeItems heap l p) (bytes ++ (itemsChunk l).bytes) := by
  induction l generalizing heap p bytes with
  | nil => simpa [writeItems] using hp
  | cons i l ih =>
    have hwritten := i.write_holds hp hfits.1
    rw [itemsChunk_cons, Chunk.bytes_add, ← List.append_assoc]
    exact ih hwritten.2 hfits.2

theorem at_rewound {p : Memory.Parcel} {c : Chunk} (hp : Holds p c.bytes) (hc : c.objects = []) :
    At (rewound p) 0 c := by
  refine ⟨?_, ?_, rfl, Nat.le_refl 0, nofun⟩ <;> rw [zero_add]
  · show toList p.mDataSize.toNat _ = _
    rw [hp.size]
    cases hdata : p.mData with
    | some data => exact hp.data data hdata
    | none =>
      have hcapacity : p.mDataSize.toNat ≤ p.mDataCapacity.toNat := hp.capacity
      rw [hp.block hdata, hp.size] at hcapacity
      rw [List.length_eq_zero_iff.mp (Nat.le_zero.mp hcapacity)]
      rfl
  · rw [hc, rewound, hp.objects]
    rfl

/-- **Run lemma.** From a parcel that holds `bytes` the run appends `rest`, and the reads
in front of it go along with the writes exactly if what comes back is right. -/
theorem readsBack_iff {ss : List Writing} {p pf : Memory.Parcel} {bytes : List UInt8}
    (hp : Holds p bytes) (hfits : Along (fun p s => s.Fits p) Writing.next ss p)
    (hpf : after Writing.next ss p = some pf) :
    ∃ rest : Chunk, rest.objects = [] ∧ Holds pf (bytes ++ rest.bytes) ∧
      ∀ leftToRight r pre, pre.bytes = bytes → At r pre rest →
        (ReadsBack leftToRight ss p r ↔ ∀ s ∈ ss,
          (s.value.comesBack leftToRight).transported = s.value.transported) := by
  induction ss generalizing p bytes with
  | nil =>
    have hsame : p = pf := Option.some.inj hpf
    subst hsame
    refine ⟨0, rfl, by simpa using hp, fun leftToRight r pre hpre hat => ?_⟩
    have hpos : r.mDataPos = p.mDataSize.toNat := by rw [hat.pos, hpre, hp.size]
    exact iff_of_true hpos nofun
  | cons s ss ih =>
    obtain ⟨p', hp', hpf⟩ := after_cons.mp hpf
    obtain ⟨l, hl, rfl⟩ := Option.map_eq_some_iff.mp hp'
    have hholds := writeItems_holds hp (hfits.1 l hl)
    have hlen : (itemsChunk l).bytes.length < 2 ^ 31 := by
      have := hholds.length_lt
      rw [List.length_append] at this
      omega
    obtain ⟨rest, hobjects, hfinal, hiff⟩ := ih hholds (hfits.2 _ hp') hpf
    refine ⟨itemsChunk l + rest, by simp [hobjects], ?_, fun leftToRight r pre hpre hat => ?_⟩
    · rw [Chunk.bytes_add, ← List.append_assoc]
      exact hfinal
    · obtain ⟨r', hr', hat'⟩ := TypedValue.reads leftToRight hl hlen r pre rest hat
      have hrest := hiff leftToRight r' (pre + itemsChunk l) (by simp [hpre]) hat'
      have hmoved : r'.mDataPos + p.mDataSize.toNat =
          r.mDataPos + (writeItems s.heap l p).mDataSize.toNat := by
        rw [hat'.pos, hat.pos, hp.size, hholds.size, Chunk.bytes_add, List.length_append,
          List.length_append]
        omega
      rw [List.forall_mem_cons, ← hrest, ReadsBack]
      simp only [hr', Option.map_some, Option.some.injEq]
      constructor
      · rintro ⟨p'', hp'', hback, -, hreads⟩
        cases hp'.symm.trans hp''
        exact ⟨hback, hreads⟩
      · rintro ⟨hback, hreads⟩
        exact ⟨_, hp', hback, hmoved, hreads⟩

/-- The run goes to its end if no null pointer is followed. -/
theorem written_iff {ss : List Writing} {p : Memory.Parcel} :
    (∃ pf, after Writing.next ss p = some pf) ↔ ∀ s ∈ ss, ∃ l, s.value.items = some l := by
  induction ss generalizing p with
  | nil => exact iff_of_true ⟨p, rfl⟩ nofun
  | cons s ss ih =>
    rw [List.forall_mem_cons]
    constructor
    · rintro ⟨pf, hpf⟩
      obtain ⟨p', hp', hpf⟩ := after_cons.mp hpf
      obtain ⟨l, hl, -⟩ := Option.map_eq_some_iff.mp hp'
      exact ⟨⟨l, hl⟩, ih.mp ⟨pf, hpf⟩⟩
    · rintro ⟨⟨l, hl⟩, hrest⟩
      obtain ⟨pf, hpf⟩ := ih.mpr hrest
      exact ⟨pf, after_cons.mpr ⟨_, Option.map_eq_some_iff.mpr ⟨l, hl, rfl⟩, hpf⟩⟩

/-- **Framing.** Where there is memory and no size wraps, the values are framed if and
only if each of them can be. -/
theorem framed_iff (ss : List Writing)
    (hfits : Along (fun p s => s.Fits p) Writing.next ss .initState) :
    Framed ss ↔ ∀ s ∈ ss, s.value.Framable := by
  constructor
  · intro hframed s hs
    obtain ⟨pf, hpf, -⟩ := hframed true
    obtain ⟨rest, hobjects, hfinal, hiff⟩ := readsBack_iff Memory.holds_initState hfits hpf
    obtain ⟨l, hl⟩ := written_iff.mp ⟨pf, hpf⟩ s hs
    refine (TypedValue.comesBack_iff hl).mp fun leftToRight => ?_
    obtain ⟨pf', hpf', hreads⟩ := hframed leftToRight
    cases hpf.symm.trans hpf'
    exact (hiff leftToRight _ 0 rfl (at_rewound hfinal hobjects)).mp hreads s hs
  · intro hframable leftToRight
    have hitems : ∀ s ∈ ss, ∃ l, s.value.items = some l := by
      intro s hs
      cases hl : s.value.items with
      | some l => exact ⟨l, rfl⟩
      | none => exact absurd (hframable s hs) (TypedValue.framable_of_items hl)
    obtain ⟨pf, hpf⟩ := written_iff.mpr hitems
    obtain ⟨rest, hobjects, hfinal, hiff⟩ := readsBack_iff Memory.holds_initState hfits hpf
    refine ⟨pf, hpf, (hiff leftToRight _ 0 rfl (at_rewound hfinal hobjects)).mpr fun s hs => ?_⟩
    obtain ⟨l, hl⟩ := hitems s hs
    exact (TypedValue.comesBack_iff hl).mpr (hframable s hs) leftToRight

/-- Memory that is there, with ones in it. -/
def someHeap : Nat → Nat → Heap := fun _ _ =>
  { data := some fun _ => 255, table := true, objects := true, dup := fun _ => 0,
    staleData := fun _ => 0, staleObjects := fun _ => 0 }

/-- A key whose code is not its action. -/
def keyRun : List Writing := [⟨.parcelable (.keyEvent ⟨1, 0⟩), someHeap⟩]

/-- Read right to left, the key comes back with its members exchanged. -/
theorem keyRun_not_framed : ¬ ∀ ss : List Writing,
    Along (fun p s => s.Fits p) Writing.next ss .initState → Framed ss := by
  intro hall
  have hfits : Along (fun p s => s.Fits p) Writing.next keyRun .initState := by decide +kernel
  obtain ⟨p, hp, p', hp', hback, -⟩ := hall keyRun hfits false
  cases hp
  revert hback
  decide +kernel

/-- Strings, a receiver with a filter, a block, a double word and a key. -/
def mixedRun : List Writing := [
  ⟨.string8 (ascii "key"), someHeap⟩,
  ⟨.parcelable (.receiverInfo ⟨ascii "r", ascii "app", [], some ⟨[ascii "a", []], [], 7⟩⟩),
    someHeap⟩,
  ⟨.block [1, 2, 3, 4, 5], someHeap⟩,
  ⟨.int64 (-1), someHeap⟩,
  ⟨.string16 [104, 105], someHeap⟩,
  ⟨.parcelable (.keyEvent ⟨3, 3⟩), someHeap⟩]

theorem framed_mixedRun : Framed mixedRun ↔ ∀ s ∈ mixedRun, s.value.Framable :=
  framed_iff mixedRun (by decide +kernel)

end Cdroid.Runtime
