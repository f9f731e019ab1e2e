import Cdroid.Aidl.CType
import Cdroid.Lib.Exchange
import Cdroid.Lib.Names

/-! The types of the Java back end, the name set that finds them, and what they emit. -/

namespace Cdroid.Aidl
open Cdroid.Runtime Cdroid.Lib.Exchange

/-- A `BasicType` with the methods of a parcel that it names. -/
structure BasicType where
  name : String8
  marshallParcel : String8
  unmarshallParcel : String8
  writeArrayParcel : String8
  createArrayParcel : String8
  readArrayParcel : String8
  deriving DecidableEq

/-- A `Type`, by its class. The arguments of a list are given by their full names, and
with them the creator of the first one. -/
inductive JType
  | basic (b : BasicType)
  | boolean
  | char
  | string
  | charSequence
  /-- A built in type that no value is written of. -/
  | unwritten (package name : String8)
  | ibinder
  | map
  | list
  | userData (package name : String8) (builtIn canWriteToParcel canWriteToRpcData : Bool)
  | interface (package name : String8) (oneway : Bool)
  | genericList (args : List String8) (creator : String8)
  | generated (package name : String8)
  deriving DecidableEq

/-- The full name that the constructor makes of a package and a name. -/
def qualifyJava (package name : String8) : String8 :=
  if package = [] then name else package ++ byte '.' :: name

namespace JType

def name : JType → String8
  | .basic b => b.name
  | .boolean => ascii "boolean"
  | .char => ascii "char"
  | .string => ascii "String"
  | .charSequence => ascii "CharSequence"
  | .unwritten _ n => n
  | .ibinder => ascii "IBinder"
  | .map => ascii "Map"
  | .list => ascii "List"
  | .userData _ n _ _ _ => n
  | .interface _ n _ => n
  | .genericList .. => ascii "List"
  | .generated _ n => n

def qualifiedName : JType → String8
  | .string => ascii "java.lang.String"
  | .charSequence => ascii "java.lang.CharSequence"
  | .unwritten p n => qualifyJava p n
  | .ibinder => ascii "android.os.IBinder"
  | .map => ascii "java.util.Map"
  | .list => ascii "java.util.List"
  | .userData p n _ _ _ => qualifyJava p n
  | .interface p n _ => qualifyJava p n
  | .genericList args _ => ascii "java.util.List" ++ templateArguments args
  | .generated p n => qualifyJava p n
  | t => t.name

def kind : JType → Kind
  | .userData _ _ builtIn _ _ => if builtIn then .BUILT_IN else .USERDATA
  | .interface .. => .INTERFACE
  | .generated .. => .GENERATED
  | _ => .BUILT_IN

def canWriteToParcel : JType → Bool
  | .unwritten .. | .generated .. => false
  | .userData _ _ _ p _ => p
  | _ => true

def canWriteToRpcData : JType → Bool
  | .unwritten .. | .ibinder | .map | .interface .. | .generated .. => false
  | .userData _ _ _ _ r => r
  | _ => true

def canBeOutParameter : JType → Bool
  | .map | .list | .userData .. | .genericList .. => true
  | _ => false

def canBeArray : JType → Bool
  | .basic _ | .boolean | .char | .string | .userData .. => true
  | _ => false

/-- `CreatorName` -/
def creatorName : JType → String8
  | .string | .charSequence => ascii "android.os.Parcel.STRING_CREATOR"
  | .userData p n b w r => (JType.userData p n b w r).qualifiedName ++ ascii ".CREATOR"
  | .genericList .. => ascii "android.os.Parcel.arrayListCreator"
  | _ => []

/-- `OneWay` of an `InterfaceType`. -/
def oneWay : JType → Option Bool
  | .interface _ _ oneway => some oneway
  | _ => none

end JType

/-- `EVENT_FAKE_TYPE` -/
def EVENT_FAKE_TYPE : JType := .unwritten [] (ascii "event")

/-! ## Namespace -/

/-- `NAMES`: the registered types, the first one first. -/
abbrev JNames := List JType

/-- `Generic`, without the number of its arguments: nothing reads it. -/
structure Generic where
  package : String8
  name : String8

def Generic.qualified (g : Generic) : String8 := g.package ++ byte '.' :: g.name

/-- `m_generics` -/
def generics : List Generic :=
  [⟨ascii "java.util", ascii "List"⟩, ⟨ascii "java.util", ascii "Map"⟩]

/-- `search_generic` -/
def searchGeneric (name : String8) : Option Generic :=
  Lib.Names.search Generic.qualified Generic.name generics name

/-- `normalize_generic` -/
def normalizeGeneric (s : String8) : String8 := s.filter (!isspace ·)

/-- The arguments in what stands behind the `<`, each up to the next comma or, if there
is none, up to the `>`. Every round takes a character at least. -/
def genericArguments : Nat → String8 → List String8
  | 0, _ => []
  | _, [] => []
  | fuel + 1, s =>
    let stop := if byte ',' ∈ s then byte ',' else byte '>'
    s.takeWhile (· ≠ stop) :: genericArguments fuel ((s.dropWhile (· ≠ stop)).drop 1)

/-- `make_generic_type` -/
def makeGenericType (g : Generic) (args : List JType) : Option JType :=
  if g.package = ascii "java.util" ∧ g.name = ascii "List" then
    args.head?.map fun t => .genericList (args.map JType.qualifiedName) t.creatorName
  else none

namespace JNames

def find (names : JNames) (name : String8) : Option JType :=
  Lib.Names.find JType.qualifiedName names name

def add (names : JNames) (type : JType) : JNames := Lib.Names.add JType.qualifiedName names type

/-- `Search` of what is no generic. -/
def searchClass (names : JNames) (name : String8) : Option JType :=
  Lib.Names.search JType.qualifiedName JType.name names name

/-- `Search`. The arguments of a generic are no generics, by the lexer. A list that was made
before is the list that would be made again, so none is kept. -/
def search (names : JNames) (name : String8) : Option JType :=
  match names.searchClass name with
  | some t => some t
  | none =>
    if byte '<' ∉ name then none
    else do
      let normalized := normalizeGeneric name
      let base := normalized.takeWhile (· ≠ byte '<')
      let g ← searchGeneric base
      let rest := normalized.drop (base.length + 1)
      let args ← (genericArguments rest.length rest).mapM names.searchClass
      let result ← makeGenericType g args
      some ((names.find result.qualifiedName).getD result)

end JNames

def VOID_TYPE : BasicType :=
  ⟨ascii "void", ascii "XXX", ascii "XXX", ascii "XXX", ascii "XXX", ascii "XXX"⟩

def BYTE_TYPE : BasicType :=
  ⟨ascii "byte", ascii "writeByte", ascii "readByte", ascii "writeByteArray",
    ascii "createByteArray", ascii "readByteArray"⟩

def INT_TYPE : BasicType :=
  ⟨ascii "int", ascii "writeInt", ascii "readInt", ascii "writeIntArray", ascii "createIntArray",
    ascii "readIntArray"⟩

def LONG_TYPE : BasicType :=
  ⟨ascii "long", ascii "writeLong", ascii "readLong", ascii "writeLongArray",
    ascii "createLongArray", ascii "readLongArray"⟩

def FLOAT_TYPE : BasicType :=
  ⟨ascii "float", ascii "writeFloat", ascii "readFloat", ascii "writeFloatArray",
    ascii "createFloatArray", ascii "readFloatArray"⟩

def DOUBLE_TYPE : BasicType :=
  ⟨ascii "double", ascii "writeDouble", ascii "readDouble", ascii "writeDoubleArray",
    ascii "createDoubleArray", ascii "readDoubleArray"⟩

/-- `jregister_base_types` -/
def jregisterBaseTypes : JNames :=
  [.basic VOID_TYPE, .boolean, .basic BYTE_TYPE, .char, .basic INT_TYPE, .basic LONG_TYPE,
    .basic FLOAT_TYPE, .basic DOUBLE_TYPE, .string, .unwritten (ascii "java.lang") (ascii "Object"),
    .charSequence, .map, .list, .unwritten (ascii "android.text") (ascii "TextUtils"),
    .unwritten (ascii "android.os") (ascii "RemoteException"),
    .unwritten (ascii "java.lang") (ascii "RuntimeException"), .ibinder,
    .unwritten (ascii "android.os") (ascii "IInterface"),
    .unwritten (ascii "android.os") (ascii "Binder"),
    .unwritten (ascii "android.os") (ascii "BinderProxy"),
    .unwritten (ascii "android.os") (ascii "Parcel"),
    .unwritten (ascii "android.os") (ascii "Parcelable"),
    .unwritten (ascii "android.content") (ascii "Context"),
    .userData (ascii "android.support.place.rpc") (ascii "RpcData") true true true,
    .userData (ascii "android.support.place.rpc") (ascii "RpcError") true true true,
    EVENT_FAKE_TYPE, .unwritten (ascii "java.lang") (ascii "ClassLoader")].foldl JNames.add []

/-! ## gather_types -/

def DocumentItem.jtype : DocumentItem → JType
  | .userData p => .userData (p.package.getD []) p.name false
      (p.flattening_methods &&& PARCELABLE_DATA ≠ 0) (p.flattening_methods &&& RPC_DATA ≠ 0)
  | .interface c => .interface (c.package.getD []) c.name c.oneway

/-- The types that an item registers, if its own name is new. -/
def DocumentItem.jtypes (d : DocumentItem) : List JType :=
  d.jtype :: match d with
  | .userData _ => []
  | .interface c =>
    match c.kind with
    | .binder => [.generated (c.package.getD []) (c.name ++ ascii ".Stub"),
        .generated (c.package.getD []) (c.name ++ ascii ".Stub.Proxy")]
    | .rpc => [.generated (c.package.getD []) (c.name ++ ascii ".ServiceBase")]

/-- An item of the document, and whether it is in error. -/
def gatherItem (names : JNames) (d : DocumentItem) : JNames × Bool :=
  match names.find d.jtype.qualifiedName with
  | none => (d.jtypes.foldl JNames.add names, false)
  | some old => (names, old.kind = .BUILT_IN || d.jtype.kind ≠ old.kind)

/-- `gather_types`: the name set, and whether there was an error. -/
def gatherTypes (names : JNames) : List DocumentItem → JNames × Bool
  | [] => (names, false)
  | d :: ds =>
    let (names, err) := gatherItem names d
    let (names, err') := gatherTypes names ds
    (names, err || err')

/-! ## What the types emit -/

/-- A call on the parcel, or a call that hands the parcel to a value of a type. -/
inductive JParcelOp
  | parcel (method : String8)
  | writeToParcel (type : String8)
  | createFromParcel (type : String8)
  | readFromParcel (type : String8)
  deriving DecidableEq

/-- A call that writes, or a call that reads. -/
def putJava (method : String8) : List (Write JParcelOp) := [.put (.parcel method)]
def getJava (method : String8) : List (Read JParcelOp) := [.get (.parcel method)]

namespace JType

/-- What the creator of its argument makes a list call. -/
def creatorMethod (creator : String8) (string binder typed : String) : String8 :=
  if creator = JType.string.creatorName then ascii string
  else if creator = JType.ibinder.creatorName then ascii binder
  else ascii typed

/-- `WriteToParcel` -/
def writeToParcel : JType → List (Write JParcelOp)
  | .basic b => putJava b.marshallParcel
  | .boolean | .char => putJava (ascii "writeInt")
  | .string => putJava (ascii "writeString")
  | .charSequence =>
    [.nullable (.parcel (ascii "writeInt")) (.writeToParcel (ascii "android.text.TextUtils"))]
  | .ibinder | .interface .. => putJava (ascii "writeStrongBinder")
  | .map => putJava (ascii "writeMap")
  | .list => putJava (ascii "writeList")
  | .userData p n b w r =>
    [.nullable (.parcel (ascii "writeInt"))
      (.writeToParcel (JType.userData p n b w r).qualifiedName)]
  | .genericList _ creator =>
    putJava (creatorMethod creator "writeStringList" "writeBinderList" "writeTypedList")
  | .unwritten .. | .generated .. => []

/-- `CreateFromParcel` -/
def createFromParcel : JType → List (Read JParcelOp)
  | .basic b => getJava b.unmarshallParcel
  | .boolean | .char => getJava (ascii "readInt")
  | .string => getJava (ascii "readString")
  | .charSequence =>
    [.nullable (.parcel (ascii "readInt")) (.createFromParcel (ascii "android.text.TextUtils"))]
  | .ibinder | .interface .. => getJava (ascii "readStrongBinder")
  | .map => getJava (ascii "readHashMap")
  | .list => getJava (ascii "readArrayList")
  | .userData p n b w r =>
    [.nullable (.parcel (ascii "readInt"))
      (.createFromParcel (JType.userData p n b w r).qualifiedName)]
  | .genericList _ creator =>
    getJava (creatorMethod creator "createStringArrayList" "createBinderArrayList"
      "createTypedArrayList")
  | .unwritten .. | .generated .. => []

/-- `ReadFromParcel`. The other classes have no operation there. -/
def readFromParcel : JType → List (Read JParcelOp)
  | .map => getJava (ascii "readMap")
  | .list => getJava (ascii "readList")
  | .userData p n b w r =>
    [.nullable (.parcel (ascii "readInt"))
      (.readFromParcel (JType.userData p n b w r).qualifiedName)]
  | .genericList _ creator =>
    getJava (creatorMethod creator "readStringList" "readBinderList" "readTypedList")
  | _ => []

/-- `WriteArrayToParcel` -/
def writeArrayToParcel : JType → List (Write JParcelOp)
  | .basic b => putJava b.writeArrayParcel
  | .boolean => putJava (ascii "writeBooleanArray")
  | .char => putJava (ascii "writeCharArray")
  | .string => putJava (ascii "writeStringArray")
  | .ibinder => putJava (ascii "writeBinderArray")
  | .userData .. => putJava (ascii "writeTypedArray")
  | _ => []

/-- `CreateArrayFromParcel` -/
def createArrayFromParcel : JType → List (Read JParcelOp)
  | .basic b => getJava b.createArrayParcel
  | .boolean => getJava (ascii "createBooleanArray")
  | .char => getJava (ascii "createCharArray")
  | .string => getJava (ascii "createStringArray")
  | .ibinder => getJava (ascii "createBinderArray")
  | .userData .. => getJava (ascii "createTypedArray")
  | _ => []

/-- `ReadArrayFromParcel` -/
def readArrayFromParcel : JType → List (Read JParcelOp)
  | .basic b => getJava b.readArrayParcel
  | .boolean => getJava (ascii "readBooleanArray")
  | .char => getJava (ascii "readCharArray")
  | .string => getJava (ascii "readStringArray")
  | .ibinder => getJava (ascii "readBinderArray")
  | .userData .. => getJava (ascii "readTypedArray")
  | _ => []

end JType

/-- `generate_write_to_parcel` -/
def generateWriteToParcel (t : JType) (dimension : Nat) : List (Write JParcelOp) :=
  if dimension = 0 then t.writeToParcel
  else if dimension = 1 then t.writeArrayToParcel
  else []

/-- `generate_create_from_parcel` -/
def generateCreateFromParcel (t : JType) (dimension : Nat) : List (Read JParcelOp) :=
  if dimension = 0 then t.createFromParcel
  else if dimension = 1 then t.createArrayFromParcel
  else []

/-- `generate_read_from_parcel` -/
def generateReadFromParcel (t : JType) (dimension : Nat) : List (Read JParcelOp) :=
  if dimension = 0 then t.readFromParcel
  else if dimension = 1 then t.readArrayFromParcel
  else []

/-- What can be an out parameter, or an array, is written. -/
theorem generateWriteToParcel_ne_nil {t : JType} {dimension : Nat} (h : dimension ≤ 1)
    (hout : dimension = 0 → t.canBeOutParameter) (harr : dimension ≠ 0 → t.canBeArray) :
    generateWriteToParcel t dimension ≠ [] := by
  rw [generateWriteToParcel]
  by_cases hd : dimension = 0
  · rw [if_pos hd]
    have ho := hout hd
    cases t <;> simp_all [JType.canBeOutParameter, JType.writeToParcel, putJava]
  · have h1 : dimension = 1 := by omega
    rw [if_neg hd, if_pos h1]
    have ha := harr hd
    cases t <;> simp_all [JType.canBeArray, JType.writeArrayToParcel, putJava]

/-! ## What is registered -/

variable {names : JNames} {n : String8} {u : JType}

theorem JNames.find_adds (h : names.find n = some u) (ts : List JType) :
    (ts.foldl JNames.add names).find n = some u :=
  Lib.Names.find_adds h ts

theorem gatherItem_find (h : names.find n = some u) (d : DocumentItem) :
    (gatherItem names d).1.find n = some u := by
  rw [gatherItem]
  split
  · exact JNames.find_adds h _
  · exact h

theorem gatherTypes_find (h : names.find n = some u) (ds : List DocumentItem) :
    (gatherTypes names ds).1.find n = some u := by
  induction ds generalizing names with
  | nil => exact h
  | cons d ds ih => exact ih (gatherItem_find h d)

/-- What the name of the first item finds. -/
theorem gatherTypes_head (names : JNames) (d : DocumentItem) (ds : List DocumentItem) :
    ∃ u, (gatherTypes names (d :: ds)).1.find d.jtype.qualifiedName = some u ∧
      (u ∈ names ∨ u = d.jtype) := by
  have key : ∃ u, (gatherItem names d).1.find d.jtype.qualifiedName = some u ∧
      (u ∈ names ∨ u = d.jtype) := by
    rw [gatherItem]
    split
    next h => exact ⟨d.jtype, Lib.Names.find_adds_self h _, .inr rfl⟩
    next old h => exact ⟨old, h, .inl (List.mem_of_find?_eq_some h)⟩
  obtain ⟨u, hu, hmem⟩ := key
  exact ⟨u, gatherTypes_find hu ds, hmem⟩

theorem JNames.mem_adds {ts : List JType} (h : u ∈ ts.foldl JNames.add names) :
    u ∈ names ∨ u ∈ ts := by
  induction ts generalizing names with
  | nil => exact .inl h
  | cons t ts ih =>
    rcases ih h with h | h
    · simp only [JNames.add, Lib.Names.add] at h
      split at h
      · exact .inl h
      · rcases List.mem_append.mp h with h | h
        · exact .inl h
        · exact .inr (List.mem_cons.mpr (.inl (List.mem_singleton.mp h)))
    · exact .inr (List.mem_cons_of_mem _ h)

/-- Whatever is registered is a type of an item. -/
theorem mem_gatherTypes {ds : List DocumentItem} (h : u ∈ (gatherTypes names ds).1) :
    u ∈ names ∨ ∃ d ∈ ds, u ∈ d.jtypes := by
  induction ds generalizing names with
  | nil => exact .inl h
  | cons d ds ih =>
    have key : u ∈ (gatherItem names d).1 → u ∈ names ∨ u ∈ d.jtypes := by
      intro hu
      unfold gatherItem at hu
      split at hu
      · exact JNames.mem_adds hu
      · exact .inl hu
    rcases ih h with h | ⟨x, hx, h⟩
    · rcases key h with h | h
      · exact .inl h
      · exact .inr ⟨d, List.mem_cons_self, h⟩
    · exact .inr ⟨x, List.mem_cons_of_mem _ hx, h⟩

end Cdroid.Aidl
