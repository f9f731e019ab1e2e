import Cdroid.Aidl.CppBinder
import Cdroid.Aidl.Preprocess
import Cdroid.Lib.Names

/-! The C++ back end from the files to the classes of the main interface: what is gathered
in the registry, and which of the registered types the classes name. -/

namespace Cdroid.Aidl
open Cdroid.Runtime Cdroid.Lib.Names

/-! ## ccompile_aidl -/

/-- `parse_preprocessed_file` of each file. It drops what `cgather_types` returns. -/
def cgatherPreprocessed (names : CNames) : List String8 → Option CNames
  | [] => some names
  | text :: texts => do
    let items ← parsePreprocessedFile text
    cgatherPreprocessed (cgatherTypes names items).1 texts

/-- The registry: base types, preprocessed files, the main file, the imports. -/
def cgatherAll (preprocessed : List String8) (main : Document) (imports : List Document) :
    Option CNames := do
  let names ← cgatherPreprocessed cregisterBaseTypes preprocessed
  let (names, err) := cgatherTypes names (items (main :: imports))
  if err then none else some names

/-- `check_types` of an item; no two methods have one name. -/
def ccheckItem (names : CNames) : DocumentItem → Option DocumentItem
  | .userData p => some (.userData p)
  | .interface c => do
    let interface_items ← c.interface_items.mapM (ccheckMethod names c.kind)
    if (interface_items.map Method.name).Nodup then
      some (.interface { c with interface_items := interface_items })
    else none

/-- `exactly_one_interface`: the interface that code is generated for, if there is one. -/
def exactlyOneInterface : List DocumentItem → Option Interface
  | [.interface c] => some c
  | .interface c :: .userData _ :: _ => some c
  | _ => none

/-- `ccompile_aidl` without the method ids: the registry and the interface that
`generate_cpp` is called with. -/
def ccompileAidl (preprocessed : List String8) (main : Document) (imports : List Document) :
    Option (CNames × Interface) := do
  let names ← cgatherAll preprocessed main imports
  let mainDoc ← main.items.mapM (ccheckItem names)
  let iface ← exactlyOneInterface mainDoc
  some (names, iface)

/-! ## cgenerate_binder_interface_class -/

/-- A class with its base class. -/
structure CClass where
  type : CType
  inherit : CType
  deriving DecidableEq

/-- What is generated for an interface. -/
structure CBinderClasses where
  interface : CType
  /-- What `IMPLEMENT_META_INTERFACE` is given. -/
  descriptor : String8
  BnXXX : CClass
  BpXXX : CClass
  /-- The name of the constructor of `BpXXX`, and what its list initialises. -/
  ctor : String8
  initial : String8
  methods : List CMethodCode
  deriving DecidableEq

/-- `cgenerate_binder_interface_class`; a null pointer is `none`. -/
def cgenerateBinderInterfaceClass (names : CNames) (iface : Interface) : Option CBinderClasses := do
  let package ← iface.package
  let interfaceType ← names.find (package2namespace package ++ ascii "::" ++ iface.name)
  let bnInterface ← names.search (ascii "BnInterface")
  let bn ← names.search (className "Bn" iface.name)
  let bpInterface ← names.search (ascii "BpInterface")
  let bp ← names.search (className "Bp" iface.name)
  let methods ← iface.interface_items.mapM (cgenerateMethod names)
  some {
    interface := interfaceType
    descriptor := interfaceType.qualifiedName
    BnXXX := ⟨bn, bnInterface⟩
    BpXXX := ⟨bp, bpInterface⟩
    ctor := bp.name
    initial := bpInterface.qualifiedName
    methods := methods }

/-! ## The own types -/

namespace Interface

def type (c : Interface) : CType := DocumentItem.ctype (.interface c)

def bnInterface (c : Interface) : CType :=
  .template (ascii "android") (ascii "BnInterface") [c.type.qualifiedName]

def bpInterface (c : Interface) : CType :=
  .template (ascii "android") (ascii "BpInterface") [c.type.qualifiedName]

def bn (c : Interface) : CType := .generated (namespaceOf c.package) (className "Bn" c.name)

def bp (c : Interface) : CType := .generated (namespaceOf c.package) (className "Bp" c.name)

theorem companions_eq (c : Interface) :
    c.companions = [c.bnInterface, c.bpInterface, c.bn, c.bp] := rfl

end Interface

/-- The classes derive from the templates of the interface and name no types but its own. -/
structure CBinderClasses.Own (k : CBinderClasses) (c : Interface) : Prop where
  interface : k.interface.qualifiedName = c.type.qualifiedName
  descriptor : k.descriptor = c.type.qualifiedName
  bnInherit : k.BnXXX.inherit.qualifiedName = c.bnInterface.qualifiedName
  bn : k.BnXXX.type.qualifiedName = c.bn.qualifiedName
  bpInherit : k.BpXXX.inherit.qualifiedName = c.bpInterface.qualifiedName
  bp : k.BpXXX.type.qualifiedName = c.bp.qualifiedName
  ctor : k.ctor = c.bp.name
  initial : k.initial = c.bpInterface.qualifiedName

/-- The class name of each type of the interface finds this type. -/
structure Unambiguous (names : CNames) (c : Interface) : Prop where
  package : ∃ p, c.package = some p ∧ p ≠ []
  first : ∀ t ∈ c.companions, First CType.qualifiedName CType.name names t

/-! ## Gathering -/

variable {names : CNames} {n : String8} {u : CType} {c : Interface}

theorem CNames.add_eq : CNames.add = Lib.Names.add CType.qualifiedName := by
  funext names t
  rw [CNames.add, Lib.Names.add]
  cases h : names.find t.qualifiedName with
  | some u => rw [show Lib.Names.find CType.qualifiedName names t.qualifiedName = some u from h]
  | none => rw [show Lib.Names.find CType.qualifiedName names t.qualifiedName = none from h]

theorem CNames.search_eq : CNames.search = Lib.Names.search CType.qualifiedName CType.name := by
  funext names n
  rw [CNames.search, Lib.Names.search]
  cases h : names.find n with
  | some u => rw [show Lib.Names.find CType.qualifiedName names n = some u from h]
  | none =>
    rw [show Lib.Names.find CType.qualifiedName names n = none from h]
    rfl

theorem CNames.find_adds (h : names.find n = some u) (ts : List CType) :
    (ts.foldl CNames.add names).find n = some u := by
  rw [CNames.add_eq]
  exact Lib.Names.find_adds h ts

theorem cgatherItem_find (h : names.find n = some u) (d : DocumentItem) :
    (cgatherItem names d).1.find n = some u := by
  rw [cgatherItem]
  split
  · exact CNames.find_adds h _
  · exact h

/-- The name of an item finds a type. -/
theorem cgatherItem_self (names : CNames) (d : DocumentItem) :
    ∃ u, (cgatherItem names d).1.find d.ctype.qualifiedName = some u := by
  rw [cgatherItem]
  split
  next h =>
    obtain ⟨ts, e⟩ : ∃ ts, d.ctypes = d.ctype :: ts := by
      rcases d with p | ⟨_ | _, _⟩
      · exact ⟨[], rfl⟩
      · exact ⟨_, rfl⟩
      · exact ⟨[], rfl⟩
    rw [e, CNames.add_eq]
    exact ⟨_, find_adds_self h ts⟩
  next old h => exact ⟨old, h⟩

theorem cgatherTypes_find (h : names.find n = some u) (ds : List DocumentItem) :
    (cgatherTypes names ds).1.find n = some u := by
  induction ds generalizing names with
  | nil => exact h
  | cons d ds ih => exact ih (cgatherItem_find h d)

theorem cgatherTypes_self {ds : List DocumentItem} {d : DocumentItem} (h : d ∈ ds) :
    ∃ u, (cgatherTypes names ds).1.find d.ctype.qualifiedName = some u := by
  induction ds generalizing names with
  | nil => cases h
  | cons x ds ih =>
    rcases List.mem_cons.mp h with rfl | h
    · obtain ⟨u, hu⟩ := cgatherItem_self names d
      exact ⟨u, cgatherTypes_find hu ds⟩
    · exact ih h

theorem exactlyOneInterface_head {ds : List DocumentItem} (h : exactlyOneInterface ds = some c) :
    ∃ rest, ds = .interface c :: rest := by
  unfold exactlyOneInterface at h
  split at h
  · cases h
    exact ⟨[], rfl⟩
  · cases h
    exact ⟨_, rfl⟩
  · cases h

variable {preprocessed : List String8} {main : Document} {imports : List Document}

/-- The interface that is compiled is the first item of the main file, checked. -/
theorem ccompileAidl_eq (h : ccompileAidl preprocessed main imports = some (names, c)) :
    ∃ c₀ rest, main.items = .interface c₀ :: rest ∧
      cgatherAll preprocessed main imports = some names ∧
      c = { c₀ with interface_items := c.interface_items } ∧
      c₀.interface_items.mapM (ccheckMethod names c₀.kind) = some c.interface_items := by
  simp only [ccompileAidl, Option.bind_eq_bind, Option.bind_eq_some_iff] at h
  obtain ⟨names', hg, mainDoc, hd, iface, hi, e⟩ := h
  cases e
  obtain ⟨rest, rfl⟩ := exactlyOneInterface_head hi
  cases hm : main.items with
  | nil =>
    rw [hm] at hd
    cases hd
  | cons d ds =>
    rw [hm] at hd
    have hd' := mapM_eq_some hd
    cases hd' with
    | cons hc _ =>
      cases d with
      | userData p => cases hc
      | interface c₀ =>
        simp only [ccheckItem, Option.bind_eq_bind, Option.bind_eq_some_iff] at hc
        obtain ⟨interface_items, hitems, hc⟩ := hc
        split at hc
        · cases hc
          exact ⟨c₀, ds, rfl, hg, rfl, hitems⟩
        · cases hc

/-- The full name of the interface finds a type. -/
theorem ccompileAidl_find (h : ccompileAidl preprocessed main imports = some (names, c)) :
    ∃ u, names.find c.type.qualifiedName = some u := by
  obtain ⟨c₀, rest, hm, hg, hc, _⟩ := ccompileAidl_eq h
  simp only [cgatherAll, Option.bind_eq_bind, Option.bind_eq_some_iff] at hg
  obtain ⟨names₀, _, hg⟩ := hg
  split at hg
  · cases hg
  · cases hg
    have hmem : DocumentItem.interface c₀ ∈ items (main :: imports) := by
      simp [items, hm]
    have ht : c.type = DocumentItem.ctype (.interface c₀) := by
      rw [hc]
      rfl
    rw [ht]
    exact cgatherTypes_self hmem

/-- Every method is compiled. -/
theorem ccompileAidl_methods (h : ccompileAidl preprocessed main imports = some (names, c))
    (hk : c.kind = .binder) : ∃ ms, c.interface_items.mapM (cgenerateMethod names) = some ms := by
  obtain ⟨c₀, _, _, _, hc, hitems⟩ := ccompileAidl_eq h
  have hk₀ : c₀.kind = .binder := by
    rw [hc] at hk
    exact hk
  rw [hk₀] at hitems
  apply mapM_isSome
  intro m hm
  obtain ⟨m₀, _, hm₀⟩ := exists_of_mem_mapM hitems hm
  obtain ⟨⟨result, hr⟩, _, hargs⟩ := ccheckMethod_eq hm₀
  obtain ⟨l, hl, _⟩ := cargs_eq hargs
  exact ⟨_, cgenerateMethod_eq hr hl⟩

/-! ## The names of the types -/

theorem package2namespace_ne_nil {p : String8} (h : p ≠ []) : package2namespace p ≠ [] := by
  cases p with
  | nil => exact absurd rfl h
  | cons b p =>
    intro e
    simp only [package2namespace, List.flatMap_cons, List.append_eq_nil_iff] at e
    split at e
    · exact absurd e.1 (by decide)
    · exact absurd e.1 (by simp)

theorem qualify_ne {ns n : String8} (h : ns ≠ []) : qualify ns n ≠ n := by
  intro e
  rw [qualify, if_neg h] at e
  have hl := congrArg List.length e
  simp only [List.length_append] at hl
  have hns := List.length_pos_iff.mpr h
  omega

/-- A type of an interface in a package has another full name than class name. -/
theorem companion_qualified {t : CType} (hp : namespaceOf c.package ≠ []) (ht : t ∈ c.companions) :
    t.qualifiedName ≠ t.name := by
  have htemplate : ∀ n args, (CType.template (ascii "android") n args).qualifiedName ≠ n := by
    intro n args e
    have hl := congrArg List.length e
    simp only [CType.qualifiedName, List.length_append] at hl
    have ha : 0 < (ascii "android").length := by decide
    omega
  rw [c.companions_eq] at ht
  simp only [List.mem_cons, List.not_mem_nil, or_false] at ht
  rcases ht with rfl | rfl | rfl | rfl
  · exact htemplate _ _
  · exact htemplate _ _
  · exact qualify_ne hp
  · exact qualify_ne hp

/-- What the search for the class name of a type of the interface finds. -/
theorem search_companion_iff {t : CType} (hp : namespaceOf c.package ≠ [])
    (ht : t ∈ c.companions) :
    (∃ u, names.search t.name = some u ∧ u.qualifiedName = t.qualifiedName) ↔
      First CType.qualifiedName CType.name names t := by
  rw [CNames.search_eq]
  exact search_own_iff (companion_qualified hp ht)

/-! ## The classes of the main interface -/

theorem cgenerateBinderInterfaceClass_eq {k : CBinderClasses}
    (h : cgenerateBinderInterfaceClass names c = some k) :
    ∃ p, c.package = some p ∧
      names.find (package2namespace p ++ ascii "::" ++ c.name) = some k.interface ∧
      k.descriptor = k.interface.qualifiedName ∧
      names.search c.bnInterface.name = some k.BnXXX.inherit ∧
      names.search c.bn.name = some k.BnXXX.type ∧
      names.search c.bpInterface.name = some k.BpXXX.inherit ∧
      names.search c.bp.name = some k.BpXXX.type := by
  simp only [cgenerateBinderInterfaceClass, Option.bind_eq_bind, Option.bind_eq_some_iff] at h
  obtain ⟨p, hp, u, hu, bni, hbni, bn, hbn, bpi, hbpi, bp, hbp, ms, _, e⟩ := h
  cases e
  exact ⟨p, hp, hu, rfl, hbni, hbn, hbpi, hbp⟩

theorem unambiguous_of_own {k : CBinderClasses}
    (h : cgenerateBinderInterfaceClass names c = some k) (hk : k.Own c) : Unambiguous names c := by
  obtain ⟨p, hp, hu, _, hbni, hbn, hbpi, hbp⟩ := cgenerateBinderInterfaceClass_eq h
  have hne : p ≠ [] := by
    -- without a package the full name has no colons in front
    rintro rfl
    have hq := (key_of_find hu).symm.trans hk.interface
    have hl := congrArg List.length hq
    simp only [Interface.type, DocumentItem.ctype, CType.qualifiedName, namespaceOf, hp, qualify,
      package2namespace, Option.map_some, Option.getD_some, List.flatMap_nil, if_true,
      List.length_append, List.length_nil] at hl
    have hcolons : (ascii "::").length = 2 := rfl
    omega
  have hns : namespaceOf c.package ≠ [] := by
    rw [hp]
    exact package2namespace_ne_nil hne
  refine ⟨⟨p, hp, hne⟩, ?_⟩
  intro t ht
  apply (search_companion_iff hns ht).mp
  rw [c.companions_eq] at ht
  simp only [List.mem_cons, List.not_mem_nil, or_false] at ht
  rcases ht with rfl | rfl | rfl | rfl
  · exact ⟨_, hbni, hk.bnInherit⟩
  · exact ⟨_, hbpi, hk.bpInherit⟩
  · exact ⟨_, hbn, hk.bn⟩
  · exact ⟨_, hbp, hk.bp⟩

theorem own_of_unambiguous {interfaceType : CType} {ms : List CMethodCode}
    (hf : names.find c.type.qualifiedName = some interfaceType)
    (hms : c.interface_items.mapM (cgenerateMethod names) = some ms) (h : Unambiguous names c) :
    ∃ k, cgenerateBinderInterfaceClass names c = some k ∧ k.Own c := by
  obtain ⟨p, hp, hne⟩ := h.package
  have hns : namespaceOf c.package ≠ [] := by
    rw [hp]
    exact package2namespace_ne_nil hne
  have hq : package2namespace p ++ ascii "::" ++ c.name = c.type.qualifiedName := by
    simp only [Interface.type, DocumentItem.ctype, CType.qualifiedName, qualify, if_neg hns]
    simp [namespaceOf, hp]
  have found : ∀ t ∈ c.companions, ∃ u, names.search t.name = some u ∧
      u.qualifiedName = t.qualifiedName :=
    fun t ht => (search_companion_iff hns ht).mpr (h.first t ht)
  obtain ⟨bnInterface, hbni, hbniq⟩ := found c.bnInterface (by simp [c.companions_eq])
  obtain ⟨bpInterface, hbpi, hbpiq⟩ := found c.bpInterface (by simp [c.companions_eq])
  obtain ⟨bn, hbn, hbnq⟩ := found c.bn (by simp [c.companions_eq])
  obtain ⟨bp, hbp, hbpq⟩ := found c.bp (by simp [c.companions_eq])
  have hctor : bp.name = c.bp.name := by
    rw [CNames.search_eq] at hbp
    apply short_of_search hbp
    rw [hbpq]
    exact companion_qualified hns (by simp [c.companions_eq])
  have hi := key_of_find hf
  refine ⟨⟨interfaceType, interfaceType.qualifiedName, ⟨bn, bnInterface⟩, ⟨bp, bpInterface⟩,
    bp.name, bpInterface.qualifiedName, ms⟩, ?_,
    ⟨hi, hi, hbniq, hbnq, hbpiq, hbpq, hctor, hbpiq⟩⟩
  simp only [cgenerateBinderInterfaceClass, Option.bind_eq_bind, hp, Option.bind_some, hq, hf, hms]
  rw [show names.search (ascii "BnInterface") = _ from hbni,
    show names.search (ascii "BpInterface") = _ from hbpi,
    show names.search (className "Bn" c.name) = _ from hbn,
    show names.search (className "Bp" c.name) = _ from hbp]
  rfl

/-- The classes of the main interface are its own exactly if its types are unambiguous. -/
theorem derives_iff (h : ccompileAidl preprocessed main imports = some (names, c))
    (hk : c.kind = .binder) :
    (∃ k, cgenerateBinderInterfaceClass names c = some k ∧ k.Own c) ↔ Unambiguous names c := by
  constructor
  · rintro ⟨k, hg, hown⟩
    exact unambiguous_of_own hg hown
  · obtain ⟨u, hu⟩ := ccompileAidl_find h
    obtain ⟨ms, hms⟩ := ccompileAidl_methods h hk
    exact own_of_unambiguous hu hms

/-- `package b; interface IBar { }` -/
def interfaceBar : Interface where
  kind := .binder
  oneway := false
  package := some (ascii "b")
  name := ascii "IBar"
  interface_items := []

def documentBar : Document where
  items := [.interface interfaceBar]
  parsed := by decide

/-- The registry of `documentBar` behind a preprocessed file. -/
def namesOfBar (preprocessed : List DocumentItem) : CNames :=
  (cgatherTypes (cgatherTypes cregisterBaseTypes preprocessed).1 documentBar.items).1

theorem derives_bar :
    (∃ k, cgenerateBinderInterfaceClass (namesOfBar []) interfaceBar = some k ∧
      k.Own interfaceBar) ↔ Unambiguous (namesOfBar []) interfaceBar :=
  derives_iff (show ccompileAidl [] documentBar [] = _ by decide) rfl

/-- Behind a preprocessed `interface a.IFoo;` the class `BnBar` derives from
`android::BnInterface<a::IFoo>`. -/
theorem first_interface_wins : ¬ ∀ preprocessed main imports names c,
    ccompileAidl preprocessed main imports = some (names, c) → c.kind = .binder →
      ∃ k, cgenerateBinderInterfaceClass names c = some k ∧ k.Own c := by
  intro h
  have hc : ccompileAidl [ascii "interface a.IFoo;\n"] documentBar [] =
      some (namesOfBar [.interface ⟨.binder, false, some (ascii "a"), ascii "IFoo", []⟩],
        interfaceBar) := by decide
  obtain ⟨k, hg, hk⟩ := h _ _ _ _ _ hc rfl
  obtain ⟨_, _, _, _, hbni, _⟩ := cgenerateBinderInterfaceClass_eq hg
  have hfoo : k.BnXXX.inherit =
      .template (ascii "android") (ascii "BnInterface") [ascii "a::IFoo"] :=
    Option.some.inj (hbni.symm.trans (by decide))
  have hown := hk.bnInherit
  rw [hfoo] at hown
  exact absurd hown (by decide)

end Cdroid.Aidl
