import Cdroid.Aidl.Language

/-! The types of the C++ back end and the registry that finds them by name. -/

namespace Cdroid.Aidl
open Cdroid.Runtime

inductive Kind
  | BUILT_IN
  | USERDATA
  | INTERFACE
  | GENERATED
  deriving DecidableEq

/-- The types that `cregister_base_types` makes a `CBasicType` of. -/
inductive CBasicType
  | void
  | byte
  | int
  | uint32_t
  | long
  | float
  | double
  deriving DecidableEq

def CBasicType.name : CBasicType → String8
  | .void => ascii "void"
  | .byte => ascii "byte"
  | .int => ascii "int"
  | .uint32_t => ascii "uint32_t"
  | .long => ascii "long"
  | .float => ascii "float"
  | .double => ascii "double"

/-- A `CType`, by its class. The arguments of a template are given by their full names. -/
inductive CType
  | basic (b : CBasicType)
  | boolean
  | char
  | enum
  | string
  | ibinder
  | iinterface
  | parcel
  | parcelableInterface
  | interface (_namespace name : String8) (oneway : Bool)
  | userData (_namespace name : String8) (canWriteToParcel canWriteToRpcData : Bool)
  | template (_namespace name : String8) (args : List String8)
  | generated (_namespace name : String8)
  deriving DecidableEq

/-- The full name that the constructor makes of a namespace and a name. -/
def qualify (_namespace name : String8) : String8 :=
  if _namespace = [] then name else _namespace ++ ascii "::" ++ name

/-- `m_templateArguments` -/
def templateArguments (args : List String8) : String8 :=
  ascii "<" ++ (ascii ",").intercalate args ++ ascii ">"

namespace CType

def name : CType → String8
  | .basic b => b.name
  | .boolean => ascii "bool"
  | .char => ascii "char"
  | .enum => ascii "enum"
  | .string => ascii "String8"
  | .ibinder => ascii "IBinder"
  | .iinterface => ascii "IInterface"
  | .parcel => ascii "Parcel"
  | .parcelableInterface => ascii "Parcelable"
  | .interface _ n _ => n
  | .userData _ n _ _ => n
  | .template _ n _ => n
  | .generated _ n => n

def qualifiedName : CType → String8
  | .string => qualify (ascii "android") (ascii "String8")
  | .ibinder => qualify (ascii "android") (ascii "IBinder")
  | .iinterface => qualify (ascii "android") (ascii "IInterface")
  | .parcel => qualify (ascii "android") (ascii "Parcel")
  | .parcelableInterface => qualify (ascii "android") (ascii "Parcelable")
  | .interface ns n _ => qualify ns n
  | .userData ns n _ _ => qualify ns n
  | .template ns n args => ns ++ ascii "::" ++ n ++ templateArguments args
  | .generated ns n => qualify ns n
  | t => t.name

def kind : CType → Kind
  | .string | .parcel | .userData .. | .template .. => .USERDATA
  | .interface .. => .INTERFACE
  | .generated .. => .GENERATED
  | _ => .BUILT_IN

def canWriteToParcel : CType → Bool
  | .iinterface | .parcel | .parcelableInterface | .generated .. => false
  | .userData _ _ p _ => p
  | _ => true

def canWriteToRpcData : CType → Bool
  | .ibinder | .iinterface | .parcel | .parcelableInterface | .interface .. | .generated .. => false
  | .userData _ _ _ r => r
  | _ => true

def canBeOutParameter : CType → Bool
  | .userData .. | .template .. => true
  | _ => false

end CType

/-! ## CNameContainer -/

/-- `CNAMES`: the registered types, the first one first. -/
abbrev CNames := List CType

namespace CNames

def find (names : CNames) (name : String8) : Option CType :=
  List.find? (fun t => t.qualifiedName = name) names

def add (names : CNames) (type : CType) : CNames :=
  match names.find type.qualifiedName with
  | some _ => names
  | none => names ++ [type]

/-- An exact match wins, then the first type of that class name. -/
def search (names : CNames) (name : String8) : Option CType :=
  match names.find name with
  | some t => some t
  | none => List.find? (fun t => t.name = name) names

end CNames

/-- `cregister_base_types` -/
def cregisterBaseTypes : CNames :=
  [.basic .void, .boolean, .basic .byte, .char, .enum, .basic .int, .basic .uint32_t, .basic .long,
    .basic .float, .basic .double, .string, .ibinder, .iinterface, .parcel, .parcelableInterface,
    .template (ascii "android") (ascii "sp") [CType.ibinder.qualifiedName]].foldl CNames.add []

/-! ## cgather_types -/

/-- The namespace of a package, if there is one. -/
def namespaceOf (package : Option String8) : String8 := (package.map package2namespace).getD []

/-- The name of a class that is made of an interface: the prefix takes the place of the
first letter. -/
def className (pre : String) (name : String8) : String8 := ascii pre ++ name.drop 1

def DocumentItem.ctype : DocumentItem → CType
  | .userData p => .userData (namespaceOf p.package) p.name
      (p.flattening_methods &&& PARCELABLE_DATA ≠ 0) (p.flattening_methods &&& RPC_DATA ≠ 0)
  | .interface c => .interface (namespaceOf c.package) c.name c.oneway

/-- The types that are registered behind a binder interface. -/
def Interface.companions (c : Interface) : List CType :=
  let type := DocumentItem.ctype (.interface c)
  [.template (ascii "android") (ascii "BnInterface") [type.qualifiedName],
    .template (ascii "android") (ascii "BpInterface") [type.qualifiedName],
    .generated (namespaceOf c.package) (className "Bn" c.name),
    .generated (namespaceOf c.package) (className "Bp" c.name)]

/-- The types that an item registers, if its own name is new. -/
def DocumentItem.ctypes (d : DocumentItem) : List CType :=
  match d with
  | .interface ⟨.binder, oneway, package, name, items⟩ =>
    d.ctype :: Interface.companions ⟨.binder, oneway, package, name, items⟩
  | _ => [d.ctype]

/-- An item of the document, and whether it is in error. -/
def cgatherItem (names : CNames) (d : DocumentItem) : CNames × Bool :=
  match names.find d.ctype.qualifiedName with
  | none => (d.ctypes.foldl CNames.add names, false)
  | some old => (names, old.kind = .BUILT_IN || d.ctype.kind ≠ old.kind)

/-- `cgather_types`: the registry, and whether there was an error. -/
def cgatherTypes (names : CNames) : List DocumentItem → CNames × Bool
  | [] => (names, false)
  | d :: ds =>
    let (names, err) := cgatherItem names d
    let (names, err') := cgatherTypes names ds
    (names, err || err')

end Cdroid.Aidl
