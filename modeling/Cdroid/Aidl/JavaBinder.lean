import Cdroid.Aidl.CppInterface
import Cdroid.Aidl.JavaType

/-! The Java back end, from the files to the methods of the stub and of the proxy. -/

namespace Cdroid.Aidl
open Cdroid.Runtime Cdroid.Lib.Exchange

/-! ## jcheck_method -/

/-- `matches_keyword` -/
def matchesKeyword (str : String8) : Bool :=
  ["abstract", "assert", "boolean", "break", "byte", "case", "catch", "char", "class", "const",
    "continue", "default", "do", "double", "else", "enum", "extends", "final", "finally", "float",
    "for", "goto", "if", "implements", "import", "instanceof", "int", "interface", "long", "native",
    "new", "package", "private", "protected", "public", "return", "short", "static", "strictfp",
    "super", "switch", "synchronized", "this", "throw", "throws", "transient", "try", "void",
    "volatile", "while", "true", "false", "null"].any fun k => str = ascii k

/-- Can values of the type be marshalled for an interface of the kind? -/
def JType.marshallable (kind : InterfaceKind) (t : JType) : Bool :=
  match kind with
  | .binder => t.canWriteToParcel
  | .rpc => t.canWriteToRpcData

/-- The checks of a parameter. -/
def jcheckArg (names : JNames) (kind : InterfaceKind) (returnType : JType) (arg : Arg) : Bool :=
  match names.search arg.type.data with
  | none => false
  | some t =>
    t ≠ EVENT_FAKE_TYPE &&
    t.marshallable kind &&
    !(returnType = EVENT_FAKE_TYPE && convertDirection arg.direction ≠ IN_PARAMETER) &&
    !(arg.direction = none && (arg.type.dimension ≠ 0 || t.canBeOutParameter)) &&
    !(convertDirection arg.direction ≠ IN_PARAMETER && !t.canBeOutParameter &&
      arg.type.dimension = 0) &&
    !(0 < arg.type.dimension && !t.canBeArray) &&
    !(1 < arg.type.dimension) &&
    !matchesKeyword arg.name

/-- `jcheck_method` has no error. -/
def jcheckMethod (names : JNames) (kind : InterfaceKind) (m : Method) : Bool :=
  match names.search m.type.data with
  | none => false
  | some returnType =>
    (if returnType = EVENT_FAKE_TYPE then kind = .rpc else returnType.marshallable kind) &&
    !(0 < m.type.dimension && !returnType.canBeArray) &&
    !(1 < m.type.dimension) &&
    m.args.all (jcheckArg names kind returnType)

/-! ## generate_method -/

/-- The code of a method: what the proxy does with `_data` and `_reply`, and what the stub
does with `data` and `reply`. -/
structure JMethodCode where
  /-- The proxy passes `FLAG_ONEWAY` and no `_reply`. -/
  flagOneway : Bool
  proxyData : List (Write JParcelOp)
  proxyReply : List (Read JParcelOp)
  stubData : List (Read JParcelOp)
  stubReply : List (Write JParcelOp)
  deriving DecidableEq

/-- The types of the parameters. A type that is not found is a null pointer. -/
def jargs (names : JNames) (args : List Arg) : Option (List (Arg × JType)) :=
  args.mapM fun arg => (names.search arg.type.data).map (arg, ·)

/-- The parameters that the proxy writes; of an array that is only out it is the length. -/
def proxyWrites (args : List (Arg × JType)) : List (Write JParcelOp) :=
  args.flatMap fun (arg, t) =>
    let dir := convertDirection arg.direction
    if dir = OUT_PARAMETER ∧ arg.type.dimension ≠ 0 then putJava (ascii "writeInt")
    else if dir &&& IN_PARAMETER ≠ 0 then generateWriteToParcel t arg.type.dimension
    else []

/-- The parameters that the stub reads, or makes. -/
def stubReads (args : List (Arg × JType)) : List (Read JParcelOp) :=
  args.flatMap fun (arg, t) =>
    if convertDirection arg.direction &&& IN_PARAMETER ≠ 0 then
      generateCreateFromParcel t arg.type.dimension
    else if arg.type.dimension = 1 then getJava (ascii "readInt")
    else []

/-- The parameters that the stub writes. -/
def stubWrites (args : List (Arg × JType)) : List (Write JParcelOp) :=
  args.flatMap fun (arg, t) =>
    if convertDirection arg.direction &&& OUT_PARAMETER ≠ 0 then
      generateWriteToParcel t arg.type.dimension
    else []

/-- The parameters that the proxy reads. -/
def proxyReads (args : List (Arg × JType)) : List (Read JParcelOp) :=
  args.flatMap fun (arg, t) =>
    if convertDirection arg.direction &&& OUT_PARAMETER ≠ 0 then
      generateReadFromParcel t arg.type.dimension
    else []

/-- `generate_method`, with the `mOneWay` of the proxy class. -/
def generateMethod (names : JNames) (mOneWay : Bool) (method : Method) : Option JMethodCode := do
  let oneway := mOneWay || method.oneway
  let result ← names.search method.type.data
  let args ← jargs names method.args
  some {
    flagOneway := oneway
    proxyData := putJava (ascii "writeInterfaceToken") ++ proxyWrites args
    proxyReply :=
      if oneway then []
      else getJava (ascii "readException") ++
        (if method.type.data = ascii "void" then []
          else generateCreateFromParcel result method.type.dimension) ++
        proxyReads args
    stubData := getJava (ascii "enforceInterface") ++ stubReads args
    stubReply :=
      (if oneway then [] else putJava (ascii "writeNoException")) ++
      (if method.type.data = ascii "void" then []
        else generateWriteToParcel result method.type.dimension) ++
      stubWrites args }

/-! ## generate_binder_interface_class -/

/-- What is generated for an interface. -/
structure JBinderClasses where
  interface : JType
  stub : JType
  proxy : JType
  descriptor : String8
  /-- The class that `asInterface` makes an object of. -/
  asInterface : JType
  methods : List JMethodCode
  deriving DecidableEq

/-- `Namespace::Find` of a package, if it is not null, and a name. -/
def findIn (names : JNames) (package : Option String8) (name : String8) : Option JType :=
  match package with
  | some p => names.find (p ++ byte '.' :: name)
  | none => names.find name

/-- `generate_binder_interface_class`; a null pointer, or a type that is no interface, is
`none`. -/
def generateBinderInterfaceClass (names : JNames) (iface : Interface) : Option JBinderClasses := do
  let interfaceType ← findIn names iface.package iface.name
  let stub ← findIn names iface.package (iface.name ++ ascii ".Stub")
  let asInterface ← names.find (interfaceType.qualifiedName ++ ascii ".Stub.Proxy")
  let proxy ← findIn names iface.package (iface.name ++ ascii ".Stub.Proxy")
  let mOneWay ← interfaceType.oneWay
  let methods ← iface.interface_items.mapM (generateMethod names mOneWay)
  some {
    interface := interfaceType
    stub := stub
    proxy := proxy
    descriptor := interfaceType.qualifiedName
    asInterface := asInterface
    methods := methods }

/-! ## jcompile_aidl -/

/-- `parse_preprocessed_file` of each file. It drops what `gather_types` returns. -/
def gatherPreprocessed (names : JNames) : List String8 → Option JNames
  | [] => some names
  | text :: texts => do
    let items ← parsePreprocessedFile text
    gatherPreprocessed (gatherTypes names items).1 texts

/-- The name set: base types, preprocessed files, the main file, the imports. -/
def gatherAll (preprocessed : List String8) (main : Document) (imports : List Document) :
    Option JNames := do
  let names ← gatherPreprocessed jregisterBaseTypes preprocessed
  let (names, err) := gatherTypes names (items (main :: imports))
  if err then none else some names

/-- `check_types` of an item; no two methods have one name. -/
def jcheckItem (names : JNames) : DocumentItem → Bool
  | .userData _ => true
  | .interface c =>
    c.interface_items.all (jcheckMethod names c.kind) && (c.interface_items.map Method.name).Nodup

/-- `jcompile_aidl` without the file names and the method ids: the name set and the
interface that `generate_java` is called with. -/
def jcompileAidl (preprocessed : List String8) (main : Document) (imports : List Document) :
    Option (JNames × Interface) := do
  let names ← gatherAll preprocessed main imports
  if main.items.all (jcheckItem names) then
    (exactlyOneInterface main.items).map (names, ·)
  else none

/-! ## Accepted methods -/

variable {names : JNames} {m : Method}

/-- A parameter that the check has accepted, with its type. -/
structure JAccepted (names : JNames) (a : Arg) (t : JType) : Prop where
  found : names.search a.type.data = some t
  dimension : a.type.dimension ≤ 1
  direction : convertDirection a.direction ≠ IN_PARAMETER → a.type.dimension = 0 →
    t.canBeOutParameter
  array : a.type.dimension ≠ 0 → t.canBeArray

theorem jaccepted_of_check {returnType : JType} {kind : InterfaceKind} {a : Arg}
    (h : jcheckArg names kind returnType a) : ∃ t, JAccepted names a t := by
  rw [jcheckArg] at h
  cases hs : names.search a.type.data with
  | none =>
    rw [hs] at h
    cases h
  | some t =>
    simp only [hs, Bool.and_eq_true, Bool.not_eq_true', decide_eq_false_iff_not] at h
    obtain ⟨⟨⟨⟨_, hout⟩, harr⟩, hdim⟩, _⟩ := h
    refine ⟨t, hs, by omega, ?_, ?_⟩
    · intro hdir hd
      simpa [hdir, hd] using hout
    · intro hd
      simpa [Nat.pos_of_ne_zero hd] using harr

theorem jaccepted_of_checkMethod {kind : InterfaceKind} (h : jcheckMethod names kind m) :
    ∀ a ∈ m.args, ∃ t, JAccepted names a t := by
  rw [jcheckMethod] at h
  cases hs : names.search m.type.data with
  | none =>
    rw [hs] at h
    cases h
  | some returnType =>
    simp only [hs, Bool.and_eq_true, List.all_eq_true] at h
    intro a ha
    exact jaccepted_of_check (h.2 a ha)

theorem out_ne_in {d : Option Direction} (h : convertDirection d &&& OUT_PARAMETER ≠ 0) :
    convertDirection d ≠ IN_PARAMETER := by
  intro e
  rw [e] at h
  exact h (by decide)

/-- The stub writes nothing of the parameters exactly if none of them is an out parameter. -/
theorem stubWrites_eq_nil {args : List Arg} {l : List (Arg × JType)}
    (hl : jargs names args = some l) (h : ∀ a ∈ args, ∃ t, JAccepted names a t) :
    stubWrites l = [] ↔ ∀ a ∈ args, convertDirection a.direction &&& OUT_PARAMETER = 0 := by
  induction args generalizing l with
  | nil =>
    cases hl
    simp [stubWrites]
  | cons a args ih =>
    simp only [List.mem_cons, forall_eq_or_imp] at h ⊢
    obtain ⟨⟨t, ha⟩, h⟩ := h
    simp only [jargs, List.mapM_cons, ha.found, Option.map_some, Option.bind_eq_bind,
      Option.bind_some, Option.pure_def, Option.bind_eq_some_iff] at hl
    obtain ⟨l', hl', e⟩ := hl
    cases e
    have hrest := ih hl' h
    rw [stubWrites] at hrest ⊢
    rw [List.flatMap_cons, List.append_eq_nil_iff, hrest]
    apply and_congr_left
    intro _
    by_cases hb : convertDirection a.direction &&& OUT_PARAMETER = 0
    · simp [hb]
    · have hw := generateWriteToParcel_ne_nil ha.dimension (ha.direction (out_ne_in hb)) ha.array
      simp [hb, hw]

end Cdroid.Aidl
