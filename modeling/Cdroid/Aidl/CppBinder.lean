import Cdroid.Aidl.CType
import Cdroid.Lib.Exchange

/-! The methods that the C++ back end accepts and the code that it generates for them: the
operations on the parcels, in the proxy and in the stub. -/

namespace Cdroid.Aidl
open Cdroid.Runtime Cdroid.Lib.Exchange

/-! ## Parcel operations -/

/-- The methods of a parcel that generated code names. -/
inductive ParcelMethod
  | writeInterfaceToken
  | checkInterface
  | writeNoException
  | readExceptionCode
  | writeInt32
  | readInt32
  | writeFloat
  | readFloat
  | writeDouble
  | readDouble
  | writeString8
  | readString8
  | writeStrongBinder
  | readStrongBinder
  | writeByte
  | readByte
  | readInt
  | XXX
  deriving DecidableEq

/-- What class `Parcel` declares. -/
def ParcelMethod.declared : ParcelMethod → Bool
  | .writeByte | .readByte | .readInt | .XXX => false
  | _ => true

/-- A call on the parcel, or a call that hands the parcel to a value of a type. -/
inductive ParcelOp
  | parcel (method : ParcelMethod)
  | writeToParcel (type : String8)
  | createFromParcel (type : String8)
  | readFromParcel (type : String8)
  deriving DecidableEq

def ParcelOp.declared : ParcelOp → Bool
  | .parcel method => method.declared
  | _ => true

/-- The operation on the right reads what the operation on the left has written. -/
def ParcelOp.inverse : ParcelOp → ParcelOp → Bool
  | .parcel .writeInterfaceToken, .parcel .checkInterface => true
  | .parcel .writeNoException, .parcel .readExceptionCode => true
  | .parcel .writeInt32, .parcel .readInt32 => true
  | .parcel .writeFloat, .parcel .readFloat => true
  | .parcel .writeDouble, .parcel .readDouble => true
  | .parcel .writeString8, .parcel .readString8 => true
  | .parcel .writeStrongBinder, .parcel .readStrongBinder => true
  | .parcel .writeByte, .parcel .readByte => true
  | .writeToParcel t, .createFromParcel t' => t = t'
  | .writeToParcel t, .readFromParcel t' => t = t'
  | _, _ => false

/-! ## What the types emit -/

/-- `m_marshallParcel`; the build's configuration has `LONG_BITS_32`. -/
def CBasicType.marshallParcel : CBasicType → ParcelMethod
  | .void => .XXX
  | .byte => .writeByte
  | .int | .uint32_t | .long => .writeInt32
  | .float => .writeFloat
  | .double => .writeDouble

/-- `m_unmarshallParcel` -/
def CBasicType.unmarshallParcel : CBasicType → ParcelMethod
  | .void => .XXX
  | .byte => .readByte
  | .int | .uint32_t | .long => .readInt32
  | .float => .readFloat
  | .double => .readDouble

namespace CType

/-- `WriteToParcel`. The classes that are not written emit nothing. -/
def writeToParcel : CType → List (Write ParcelOp)
  | .basic b => [.put (.parcel b.marshallParcel)]
  | .boolean | .char | .enum => [.put (.parcel .writeInt32)]
  | .string => [.put (.parcel .writeString8)]
  | .ibinder | .interface .. => [.put (.parcel .writeStrongBinder)]
  | .userData ns n p r =>
    [.nullable (.parcel .writeInt32) (.writeToParcel (CType.userData ns n p r).qualifiedName)]
  | _ => []

/-- `CreateFromParcel` -/
def createFromParcel : CType → List (Read ParcelOp)
  | .basic b => [.get (.parcel b.unmarshallParcel)]
  | .boolean | .char | .enum => [.get (.parcel .readInt32)]
  | .string => [.get (.parcel .readString8)]
  | .ibinder | .interface .. => [.get (.parcel .readStrongBinder)]
  | .userData ns n p r =>
    [.nullable (.parcel .readInt32) (.createFromParcel (CType.userData ns n p r).qualifiedName)]
  | _ => []

/-- `ReadFromParcel`. Only user data has one of its own that emits anything. -/
def readFromParcel : CType → List (Read ParcelOp)
  | .userData ns n p r =>
    [.nullable (.parcel .readInt) (.readFromParcel (CType.userData ns n p r).qualifiedName)]
  | _ => []

/-- `CSPTemplateType::WriteToParcel` of an `sp` of the type. -/
def spWriteToParcel (t : CType) : List (Write ParcelOp) :=
  [.nullable (.parcel .writeInt32) (.writeToParcel t.qualifiedName)]

/-- `CSPTemplateType::CreateFromParcel` -/
def spCreateFromParcel (t : CType) : List (Read ParcelOp) :=
  [.nullable (.parcel .readInt32) (.createFromParcel t.qualifiedName)]

end CType

/-! ## ccheck_method -/

/-- `cmatches_keyword` -/
def cmatchesKeyword (str : String8) : Bool :=
  ["and", "and_eq", "asm", "auto", "bitand", "bitor", "bool", "break", "case", "catch",
    "char", "class", "compl", "const", "const_cast", "continue", "default", "delete",
    "do", "double", "dynamic_cast", "else", "enum", "explicit", "export", "extern", "false",
    "float", "for", "friend", "goto", "if", "inline", "int", "long", "mutable", "namespace",
    "new", "not", "not_eq", "operator", "or", "or_eq", "private", "protected", "public",
    "register", "reinterpret_cast", "return", "short", "signed", "sizeof", "static",
    "static_cast", "struct", "switch", "template", "this", "throw", "true", "try", "typedef",
    "typeid", "typename", "union", "unsigned", "using(1)", "virtual", "void", "volatile",
    "wchar_t", "while", "xor", "xor_eq", "NULL"].any fun k => str = ascii k

/-- `_aidl_type_translate` -/
def aidlTypeTranslate (origin : String8) : String8 :=
  if origin = ascii "String" then ascii "String8"
  else if origin = ascii "boolean" then ascii "bool"
  else origin

def TypeText.translate (t : TypeText) : TypeText := { t with data := aidlTypeTranslate t.data }

/-- The method as the check leaves it. -/
def Method.translate (m : Method) : Method :=
  { m with
    type := m.type.translate
    args := m.args.map fun a => { a with type := a.type.translate } }

/-- Can values of the type be marshalled for an interface of the kind? -/
def CType.marshallable (kind : InterfaceKind) (t : CType) : Bool :=
  match kind with
  | .binder => t.canWriteToParcel
  | .rpc => t.canWriteToRpcData

/-- The checks of a parameter. -/
def ccheckArg (names : CNames) (kind : InterfaceKind) (arg : Arg) : Bool :=
  match names.search arg.type.data with
  | none => false
  | some t =>
    t.marshallable kind &&
    !(arg.direction = none && (arg.type.dimension ≠ 0 || t.canBeOutParameter)) &&
    !(convertDirection arg.direction ≠ IN_PARAMETER && !t.canBeOutParameter &&
      arg.type.dimension = 0) &&
    !(0 < arg.type.dimension) &&
    !cmatchesKeyword arg.name

/-- `ccheck_method` has no error, for a method whose types are translated. -/
def ccheckTranslated (names : CNames) (kind : InterfaceKind) (m : Method) : Bool :=
  match names.search m.type.data with
  | none => false
  | some returnType =>
    returnType.marshallable kind && !(0 < m.type.dimension) && m.args.all (ccheckArg names kind)

/-- `ccheck_method`: the method as it is then compiled, if there is no error. -/
def ccheckMethod (names : CNames) (kind : InterfaceKind) (m : Method) : Option Method :=
  if ccheckTranslated names kind m.translate then some m.translate else none

/-! ## cgenerate_method -/

/-- The code of a method: what the proxy does with `_data` and `_reply`, and what the stub
does with `data` and `reply`. -/
structure CMethodCode where
  /-- The proxy passes `IBinder::FLAG_ONEWAY` and no `_reply`. -/
  flagOneway : Bool
  proxyData : List (Write ParcelOp)
  proxyReply : List (Read ParcelOp)
  stubData : List (Read ParcelOp)
  stubReply : List (Write ParcelOp)
  deriving DecidableEq

/-- `cgenerate_write_to_parcel` for the parameters whose direction has the bit. -/
def cgenerateWrite (bit : Nat) (args : List (Arg × CType)) : List (Write ParcelOp) :=
  args.flatMap fun (arg, t) =>
    if convertDirection arg.direction &&& bit ≠ 0 then
      if arg.type.dimension = 0 then t.writeToParcel else []
    else []

/-- `cgenerate_create_from_parcel` and `cgenerate_read_from_parcel`. -/
def cgenerateRead (read : CType → List (Read ParcelOp)) (bit : Nat) (args : List (Arg × CType)) :
    List (Read ParcelOp) :=
  args.flatMap fun (arg, t) =>
    if convertDirection arg.direction &&& bit ≠ 0 then
      if arg.type.dimension = 0 then read t else []
    else []

/-- The types of the parameters. A type that is not found is a null pointer. -/
def cargs (names : CNames) (args : List Arg) : Option (List (Arg × CType)) :=
  args.mapM fun arg => (names.search arg.type.data).map (arg, ·)

/-- `cgenerate_method` -/
def cgenerateMethod (names : CNames) (method : Method) : Option CMethodCode := do
  let oneway := method.oneway
  let result ← names.search method.type.data
  let args ← cargs names method.args
  some {
    flagOneway := oneway
    proxyData := .put (.parcel .writeInterfaceToken) :: cgenerateWrite IN_PARAMETER args
    proxyReply :=
      if oneway then []
      else .get (.parcel .readExceptionCode) ::
        ((if method.type.data = ascii "void" then []
          else if method.type.dimension = 0 then result.spCreateFromParcel else []) ++
        cgenerateRead CType.readFromParcel OUT_PARAMETER args)
    stubData := .get (.parcel .checkInterface) ::
      cgenerateRead CType.createFromParcel IN_PARAMETER args
    stubReply :=
      (if oneway then [] else [.put (.parcel .writeNoException)]) ++
      (if method.type.data = ascii "void" then [] else result.spWriteToParcel) ++
      cgenerateWrite OUT_PARAMETER args }

/-! ## Proxy and stub -/

/-- Whatever one side writes on a parcel the other side reads, by the inverse operations in
their places, and class `Parcel` has all of them. -/
structure CMethodCode.Agrees (c : CMethodCode) : Prop where
  data : Lib.Exchange.Agrees ParcelOp.inverse c.proxyData c.stubData
  reply : Lib.Exchange.Agrees ParcelOp.inverse c.stubReply c.proxyReply
  writes : ∀ w ∈ c.proxyData ++ c.stubReply, ∀ op ∈ w.ops, op.declared
  reads : ∀ r ∈ c.stubData ++ c.proxyReply, ∀ op ∈ r.ops, op.declared

def CType.isUserData : CType → Bool
  | .userData .. => true
  | _ => false

/-- The methods that are compiled to code that agrees with itself. -/
structure Consistent (names : CNames) (m : Method) : Prop where
  /-- No parameter is a `void` or a `byte`. -/
  args : ∀ a ∈ m.args, ∀ t, names.search a.type.data = some t →
    t ≠ .basic .void ∧ t ≠ .basic .byte
  /-- No `out` or `inout` parameter is user data. -/
  out : ∀ a ∈ m.args, ∀ t, names.search a.type.data = some t →
    convertDirection a.direction &&& OUT_PARAMETER ≠ 0 → t.isUserData = false
  /-- A `oneway` method has no result. -/
  oneway : m.oneway → m.type.data = ascii "void"

namespace CType

variable {t : CType}

theorem mates_create (h : t ≠ .basic .void) :
    List.Forall₂ (fun w r => mates ParcelOp.inverse w r = true) t.writeToParcel
      t.createFromParcel := by
  cases t with
  | basic b =>
    cases b with
    | void => exact absurd rfl h
    | byte => exact .cons rfl .nil
    | int => exact .cons rfl .nil
    | uint32_t => exact .cons rfl .nil
    | long => exact .cons rfl .nil
    | float => exact .cons rfl .nil
    | double => exact .cons rfl .nil
  | userData ns n p r =>
    refine .cons ?_ .nil
    simp [mates, ParcelOp.inverse]
  | interface ns n oneway => exact .cons rfl .nil
  | boolean => exact .cons rfl .nil
  | char => exact .cons rfl .nil
  | enum => exact .cons rfl .nil
  | string => exact .cons rfl .nil
  | ibinder => exact .cons rfl .nil
  | _ => exact .nil

theorem write_declared (hv : t ≠ .basic .void) (hb : t ≠ .basic .byte) :
    ∀ w ∈ t.writeToParcel, ∀ op ∈ w.ops, op.declared := by
  cases t with
  | basic b => cases b <;> simp_all [writeToParcel, Write.ops, ParcelOp.declared,
      CBasicType.marshallParcel, ParcelMethod.declared]
  | _ => simp [writeToParcel, Write.ops, ParcelOp.declared, ParcelMethod.declared]

theorem create_declared (hv : t ≠ .basic .void) (hb : t ≠ .basic .byte) :
    ∀ r ∈ t.createFromParcel, ∀ op ∈ r.ops, op.declared := by
  cases t with
  | basic b => cases b <;> simp_all [createFromParcel, Read.ops, ParcelOp.declared,
      CBasicType.unmarshallParcel, ParcelMethod.declared]
  | _ => simp [createFromParcel, Read.ops, ParcelOp.declared, ParcelMethod.declared]

/-- Of the types that can be an out parameter only user data is written at all. -/
theorem write_out (h : t.canBeOutParameter) (hu : t.isUserData = false) : t.writeToParcel = [] := by
  cases t <;> simp_all [canBeOutParameter, isUserData, writeToParcel]

theorem read_eq_nil (hu : t.isUserData = false) : t.readFromParcel = [] := by
  cases t <;> simp_all [isUserData, readFromParcel]

end CType

/-! ## Accepted methods -/

/-- A parameter that the check has accepted, with its type. -/
structure Accepted (names : CNames) (a : Arg) (t : CType) : Prop where
  found : names.search a.type.data = some t
  written : t.canWriteToParcel
  dimension : a.type.dimension = 0
  direction : convertDirection a.direction ≠ IN_PARAMETER → t.canBeOutParameter

variable {names : CNames} {m m' : Method}

theorem accepted_of_check {a : Arg} (h : ccheckArg names .binder a) : ∃ t, Accepted names a t := by
  rw [ccheckArg] at h
  cases hs : names.search a.type.data with
  | none =>
    rw [hs] at h
    cases h
  | some t =>
    simp only [hs, Bool.and_eq_true, Bool.not_eq_true', decide_eq_false_iff_not] at h
    obtain ⟨⟨⟨⟨hw, _⟩, hout⟩, hdim⟩, _⟩ := h
    have hd : a.type.dimension = 0 := by omega
    refine ⟨t, hs, hw, hd, ?_⟩
    intro hdir
    simpa [hdir, hd] using hout

theorem ccheckMethod_eq (h : ccheckMethod names .binder m = some m') :
    (∃ t, names.search m'.type.data = some t) ∧ m'.type.dimension = 0 ∧
      ∀ a ∈ m'.args, ∃ t, Accepted names a t := by
  simp only [ccheckMethod, Option.ite_none_right_eq_some, Option.some.injEq] at h
  obtain ⟨hc, rfl⟩ := h
  rw [ccheckTranslated] at hc
  cases hs : names.search m.translate.type.data with
  | none =>
    rw [hs] at hc
    cases hc
  | some t =>
    simp only [hs, Bool.and_eq_true, Bool.not_eq_true', decide_eq_false_iff_not,
      List.all_eq_true] at hc
    exact ⟨⟨t, rfl⟩, by omega, fun a ha => accepted_of_check (hc.2 a ha)⟩

/-- The parameters of an accepted method are all found. -/
theorem cargs_eq {args : List Arg} (h : ∀ a ∈ args, ∃ t, Accepted names a t) :
    ∃ l, cargs names args = some l ∧ (∀ p ∈ l, p.1 ∈ args ∧ Accepted names p.1 p.2) ∧
      ∀ a ∈ args, ∀ t, names.search a.type.data = some t → (a, t) ∈ l := by
  induction args with
  | nil => exact ⟨[], rfl, by simp, by simp⟩
  | cons a args ih =>
    simp only [List.mem_cons, forall_eq_or_imp] at h
    obtain ⟨⟨t, ha⟩, h⟩ := h
    obtain ⟨l, hl, hmem, hall⟩ := ih h
    refine ⟨(a, t) :: l, ?_, ?_, ?_⟩
    · rw [cargs] at hl ⊢
      simp [List.mapM_cons, ha.found, hl]
    · intro p hp
      rcases List.mem_cons.mp hp with rfl | hp
      · exact ⟨by simp, ha⟩
      · exact ⟨List.mem_cons_of_mem _ (hmem p hp).1, (hmem p hp).2⟩
    · intro a' ha' t' ht'
      rcases List.mem_cons.mp ha' with rfl | ha'
      · rw [ha.found] at ht'
        cases ht'
        simp
      · exact List.mem_cons_of_mem _ (hall a' ha' t' ht')

section Args
variable {l : List (Arg × CType)} (hl : ∀ p ∈ l, Accepted names p.1 p.2)
include hl

theorem mem_cgenerateWrite {bit : Nat} {w : Write ParcelOp} : w ∈ cgenerateWrite bit l ↔
    ∃ p ∈ l, convertDirection p.1.direction &&& bit ≠ 0 ∧ w ∈ p.2.writeToParcel := by
  simp only [cgenerateWrite, List.mem_flatMap]
  constructor
  · rintro ⟨p, hp, hw⟩
    by_cases hb : convertDirection p.1.direction &&& bit ≠ 0
    · rw [if_pos hb, if_pos (hl p hp).dimension] at hw
      exact ⟨p, hp, hb, hw⟩
    · rw [if_neg hb] at hw
      cases hw
  · rintro ⟨p, hp, hb, hw⟩
    refine ⟨p, hp, ?_⟩
    rw [if_pos hb, if_pos (hl p hp).dimension]
    exact hw

theorem mem_cgenerateRead {read : CType → List (Read ParcelOp)} {bit : Nat} {r : Read ParcelOp} :
    r ∈ cgenerateRead read bit l ↔
      ∃ p ∈ l, convertDirection p.1.direction &&& bit ≠ 0 ∧ r ∈ read p.2 := by
  simp only [cgenerateRead, List.mem_flatMap]
  constructor
  · rintro ⟨p, hp, hr⟩
    by_cases hb : convertDirection p.1.direction &&& bit ≠ 0
    · rw [if_pos hb, if_pos (hl p hp).dimension] at hr
      exact ⟨p, hp, hb, hr⟩
    · rw [if_neg hb] at hr
      cases hr
  · rintro ⟨p, hp, hb, hr⟩
    refine ⟨p, hp, ?_⟩
    rw [if_pos hb, if_pos (hl p hp).dimension]
    exact hr

end Args

/-- What the proxy writes of the parameters the stub reads. -/
theorem mates_args {l : List (Arg × CType)} {bit : Nat} (h : ∀ p ∈ l, p.2 ≠ .basic .void) :
    List.Forall₂ (fun w r => mates ParcelOp.inverse w r = true) (cgenerateWrite bit l)
      (cgenerateRead CType.createFromParcel bit l) := by
  induction l with
  | nil => exact .nil
  | cons p l ih =>
    simp only [List.mem_cons, forall_eq_or_imp] at h
    simp only [cgenerateWrite, cgenerateRead, List.flatMap_cons] at ih ⊢
    apply List.rel_append
    · split
      · split
        · exact CType.mates_create h.1
        · exact .nil
      · exact .nil
    · exact ih h.2

theorem cgenerateMethod_eq {result : CType} {l : List (Arg × CType)}
    (hr : names.search m.type.data = some result) (hl : cargs names m.args = some l) :
    cgenerateMethod names m = some {
      flagOneway := m.oneway
      proxyData := .put (.parcel .writeInterfaceToken) :: cgenerateWrite IN_PARAMETER l
      proxyReply :=
        if m.oneway then []
        else .get (.parcel .readExceptionCode) ::
          ((if m.type.data = ascii "void" then []
            else if m.type.dimension = 0 then result.spCreateFromParcel else []) ++
          cgenerateRead CType.readFromParcel OUT_PARAMETER l)
      stubData := .get (.parcel .checkInterface) ::
        cgenerateRead CType.createFromParcel IN_PARAMETER l
      stubReply :=
        (if m.oneway then [] else [.put (.parcel .writeNoException)]) ++
        (if m.type.data = ascii "void" then [] else result.spWriteToParcel) ++
        cgenerateWrite OUT_PARAMETER l } := by
  simp only [cgenerateMethod, hr, hl, Option.bind_eq_bind, Option.bind_some]

/-- A parameter that cannot be an out parameter is written by the proxy. -/
theorem Accepted.in_of_not_out {a : Arg} {t : CType} (h : Accepted names a t)
    (ht : t.canBeOutParameter = false) : convertDirection a.direction &&& IN_PARAMETER ≠ 0 := by
  by_cases hd : convertDirection a.direction = IN_PARAMETER
  · rw [hd]
    decide
  · rw [h.direction hd] at ht
    cases ht

theorem consistent_of_agrees (h : ccheckMethod names .binder m = some m') {c : CMethodCode}
    (hc : cgenerateMethod names m' = some c) (hag : c.Agrees) : Consistent names m' := by
  obtain ⟨⟨result, hr⟩, _, hargs⟩ := ccheckMethod_eq h
  obtain ⟨l, hl, hmem, hall⟩ := cargs_eq hargs
  have hacc := fun p hp => (hmem p hp).2
  rw [cgenerateMethod_eq hr hl] at hc
  cases hc
  have written : ∀ a ∈ m'.args, ∀ t, names.search a.type.data = some t →
      t.canBeOutParameter = false → ∀ w ∈ t.writeToParcel, ∀ op ∈ w.ops, op.declared := by
    intro a ha t ht hout w hw op hop
    have hp := hall a ha t ht
    have hin := (hacc _ hp).in_of_not_out hout
    have hmw := (mem_cgenerateWrite hacc).mpr ⟨_, hp, hin, hw⟩
    exact hag.writes w (List.mem_append_left _ (List.mem_cons_of_mem _ hmw)) op hop
  constructor
  · intro a ha t ht
    constructor
    · rintro rfl
      exact absurd (written a ha _ ht rfl (.put (.parcel .XXX)) (List.mem_singleton_self _)
        (.parcel .XXX) (List.mem_singleton_self _)) (by decide)
    · rintro rfl
      exact absurd (written a ha _ ht rfl (.put (.parcel .writeByte)) (List.mem_singleton_self _)
        (.parcel .writeByte) (List.mem_singleton_self _)) (by decide)
  · intro a ha t ht hout
    have hp := hall a ha t ht
    cases t with
    | userData ns n p r =>
      cases hone : m'.oneway with
      | true =>
        -- the stub writes the parameter to a reply that nobody reads
        have hnil := hag.reply
        simp only [hone, if_true, agrees_nil, List.append_eq_nil_iff] at hnil
        have hw := (mem_cgenerateWrite hacc).mpr ⟨_, hp, hout, List.mem_singleton_self _⟩
        rw [hnil.2] at hw
        cases hw
      | false =>
        -- the proxy reads it with `readInt`
        have hw : _ ∈ cgenerateRead CType.readFromParcel OUT_PARAMETER l :=
          (mem_cgenerateRead hacc).mpr ⟨_, hp, hout, List.mem_singleton_self _⟩
        have hreads := hag.reads
        simp only [hone, Bool.false_eq_true, if_false] at hreads
        have hd := hreads _
          (List.mem_append_right _ (List.mem_cons_of_mem _ (List.mem_append_right _ hw)))
          (.parcel .readInt) List.mem_cons_self
        exact absurd hd (by decide)
    | _ => rfl
  · intro hone
    by_contra hv
    have hnil := hag.reply
    simp only [hone, hv, if_true, if_false, agrees_nil, List.append_eq_nil_iff] at hnil
    simp [CType.spWriteToParcel] at hnil

section Args
variable {l : List (Arg × CType)} (hl : ∀ p ∈ l, Accepted names p.1 p.2)
include hl

/-- Of out parameters that are no user data nothing is written, and nothing is read. -/
theorem out_eq_nil (hout : ∀ p ∈ l, convertDirection p.1.direction &&& OUT_PARAMETER ≠ 0 →
    p.2.isUserData = false) :
    cgenerateWrite OUT_PARAMETER l = [] ∧
      cgenerateRead CType.readFromParcel OUT_PARAMETER l = [] := by
  have key : ∀ p ∈ l, convertDirection p.1.direction &&& OUT_PARAMETER ≠ 0 →
      p.2.writeToParcel = [] ∧ p.2.readFromParcel = [] := by
    intro p hp hb
    have hu := hout p hp hb
    have hdir : convertDirection p.1.direction ≠ IN_PARAMETER := by
      intro e
      rw [e] at hb
      exact hb (by decide)
    exact ⟨CType.write_out ((hl p hp).direction hdir) hu, CType.read_eq_nil hu⟩
  constructor
  · apply List.eq_nil_iff_forall_not_mem.mpr
    intro w hw
    obtain ⟨p, hp, hb, hw⟩ := (mem_cgenerateWrite hl).mp hw
    rw [(key p hp hb).1] at hw
    cases hw
  · apply List.eq_nil_iff_forall_not_mem.mpr
    intro r hr
    obtain ⟨p, hp, hb, hr⟩ := (mem_cgenerateRead hl).mp hr
    rw [(key p hp hb).2] at hr
    cases hr

theorem args_declared (hbasic : ∀ p ∈ l, p.2 ≠ .basic .void ∧ p.2 ≠ .basic .byte) (bit : Nat) :
    (∀ w ∈ cgenerateWrite bit l, ∀ op ∈ w.ops, op.declared) ∧
      ∀ r ∈ cgenerateRead CType.createFromParcel bit l, ∀ op ∈ r.ops, op.declared := by
  constructor
  · intro w hw
    obtain ⟨p, hp, _, hw⟩ := (mem_cgenerateWrite hl).mp hw
    exact CType.write_declared (hbasic p hp).1 (hbasic p hp).2 w hw
  · intro r hr
    obtain ⟨p, hp, _, hr⟩ := (mem_cgenerateRead hl).mp hr
    exact CType.create_declared (hbasic p hp).1 (hbasic p hp).2 r hr

end Args

theorem CType.sp_declared (t : CType) :
    (∀ w ∈ t.spWriteToParcel, ∀ op ∈ w.ops, op.declared) ∧
      ∀ r ∈ t.spCreateFromParcel, ∀ op ∈ r.ops, op.declared := by
  simp [spWriteToParcel, spCreateFromParcel, Write.ops, Read.ops, ParcelOp.declared,
    ParcelMethod.declared]

theorem agrees_of_consistent (h : ccheckMethod names .binder m = some m')
    (hcon : Consistent names m') : ∃ c, cgenerateMethod names m' = some c ∧ c.Agrees := by
  obtain ⟨⟨result, hr⟩, hdim, hargs⟩ := ccheckMethod_eq h
  obtain ⟨l, hl, hmem, _⟩ := cargs_eq hargs
  have hacc := fun p hp => (hmem p hp).2
  have hbasic : ∀ p ∈ l, p.2 ≠ .basic .void ∧ p.2 ≠ .basic .byte :=
    fun p hp => hcon.args p.1 (hmem p hp).1 p.2 (hacc p hp).found
  obtain ⟨hwrite, hread⟩ := out_eq_nil hacc fun p hp hb =>
    hcon.out p.1 (hmem p hp).1 p.2 (hacc p hp).found hb
  have hin := args_declared hacc hbasic IN_PARAMETER
  refine ⟨_, cgenerateMethod_eq hr hl, ?_, ?_, ?_, ?_⟩
  · apply agrees_of_mates
    exact .cons rfl (mates_args fun p hp => (hbasic p hp).1)
  · rw [hwrite, hread]
    cases hone : m'.oneway with
    | true =>
      dsimp only
      rw [if_pos (hcon.oneway hone)]
      exact agrees_nil.mpr rfl
    | false =>
      apply agrees_of_mates
      refine .cons rfl ?_
      rw [if_pos hdim]
      split
      · exact .nil
      · refine .cons ?_ .nil
        simp [mates, ParcelOp.inverse]
  · rw [hwrite]
    intro w hw op hop
    simp only [List.append_nil, List.mem_append, List.mem_cons] at hw
    rcases hw with (rfl | hw) | hw | hw
    · obtain rfl : op = .parcel .writeInterfaceToken := by simpa [Write.ops] using hop
      rfl
    · exact hin.1 w hw op hop
    · split at hw
      · cases hw
      · obtain rfl : w = .put (.parcel .writeNoException) := by simpa using hw
        obtain rfl : op = .parcel .writeNoException := by simpa [Write.ops] using hop
        rfl
    · split at hw
      · cases hw
      · exact result.sp_declared.1 w hw op hop
  · rw [hread, if_pos hdim, List.append_nil]
    intro r hr op hop
    simp only [List.mem_append, List.mem_cons] at hr
    rcases hr with (rfl | hr) | hr
    · obtain rfl : op = .parcel .checkInterface := by simpa [Read.ops] using hop
      rfl
    · exact hin.2 r hr op hop
    · split at hr
      · cases hr
      · rcases List.mem_cons.mp hr with rfl | hr
        · obtain rfl : op = .parcel .readExceptionCode := by simpa [Read.ops] using hop
          rfl
        · split at hr
          · cases hr
          · exact result.sp_declared.2 r hr op hop

/-- The code of an accepted method agrees with itself exactly if the method is consistent. -/
theorem generated_agrees_iff (h : ccheckMethod names .binder m = some m') :
    (∃ c, cgenerateMethod names m' = some c ∧ c.Agrees) ↔ Consistent names m' := by
  constructor
  · rintro ⟨c, hc, hag⟩
    exact consistent_of_agrees h hc hag
  · exact agrees_of_consistent h

/-- The registry after `parcelable a.P`. -/
def namesOfP : CNames :=
  (cgatherTypes cregisterBaseTypes
    [.userData ⟨some (ascii "a"), ascii "P", PARCELABLE_DATA⟩]).1

/-- `String get(int i, in P p)` -/
def getOfP : Method where
  type := ⟨ascii "String", 0⟩
  oneway := false
  name := ascii "get"
  args := [⟨none, ⟨ascii "int", 0⟩, ascii "i"⟩, ⟨some .in_, ⟨ascii "P", 0⟩, ascii "p"⟩]

/-- `void fill(out P p)` -/
def fillOfP : Method where
  type := ⟨ascii "void", 0⟩
  oneway := false
  name := ascii "fill"
  args := [⟨some .out, ⟨ascii "P", 0⟩, ascii "p"⟩]

theorem generated_agrees_get :
    (∃ c, cgenerateMethod namesOfP getOfP.translate = some c ∧ c.Agrees) ↔
      Consistent namesOfP getOfP.translate :=
  generated_agrees_iff (show ccheckMethod namesOfP .binder getOfP = _ by decide)

/-- The proxy reads an out parameter with a method that no parcel has. -/
theorem out_parameter_not_read : ¬ ∀ names m m', ccheckMethod names .binder m = some m' →
    ∃ c, cgenerateMethod names m' = some c ∧ c.Agrees := by
  intro h
  have hc : ccheckMethod namesOfP .binder fillOfP = some fillOfP := by decide
  obtain ⟨c, hg, hag⟩ := h _ _ _ hc
  have hout := (consistent_of_agrees hc hg hag).out _ List.mem_cons_self
    (.userData (ascii "a") (ascii "P") true false) (by decide) (by decide)
  cases hout

end Cdroid.Aidl
