import Cdroid.Aidl.JavaBinder

/-! Which methods the two back ends generate as one-way, and which are declared so. -/

namespace Cdroid.Aidl
open Cdroid.Runtime Cdroid.Lib.Exchange Cdroid.Lib.Names

/-- The flag is passed, and no reply is written or read. -/
structure CMethodCode.OneWay (code : CMethodCode) : Prop where
  flag : code.flagOneway
  written : code.stubReply = []
  read : code.proxyReply = []

structure JMethodCode.OneWay (code : JMethodCode) : Prop where
  flag : code.flagOneway
  written : code.stubReply = []
  read : code.proxyReply = []

/-- The method at `i` of the interface is one-way in C++ exactly if it is declared so, and
it is the same in the Java classes of the interface. -/
structure OneWayAsDeclared (c : Interface) (i : Nat) (m : Method) (k : CBinderClasses)
    (jk : JBinderClasses) : Prop where
  descriptor : jk.descriptor = (DocumentItem.interface c).jtype.qualifiedName
  generated : ∃ code jcode, k.methods[i]? = some code ∧ jk.methods[i]? = some jcode ∧
    (code.OneWay ↔ c.oneway ∨ m.oneway) ∧ (code.OneWay ↔ jcode.OneWay)

/-- A one-way method says so itself, and it has nothing to reply. -/
structure Unreplied (c : Interface) (m : Method) : Prop where
  package : c.package ≠ some []
  /-- The methods of a `oneway` interface are `oneway`. -/
  method : c.oneway → m.oneway
  result : m.oneway → m.type.data = ascii "void"
  out : m.oneway → ∀ a ∈ m.args, convertDirection a.direction &&& OUT_PARAMETER = 0

/-! ## C++ -/

section Cpp
variable {names : CNames} {m m' : Method} {code : CMethodCode}

theorem aidlTypeTranslate_eq_void {s : String8} :
    aidlTypeTranslate s = ascii "void" ↔ s = ascii "void" := by
  rw [aidlTypeTranslate]
  split
  next h =>
    subst h
    decide
  next =>
    split
    next h =>
      subst h
      decide
    next => rfl

theorem ccheckMethod_translate {kind : InterfaceKind} (h : ccheckMethod names kind m = some m') :
    m' = m.translate := by
  rw [ccheckMethod] at h
  split at h
  · exact (Option.some.inj h).symm
  · cases h

/-- Only a `oneway` method without a result is one-way. -/
theorem oneway_of_cgenerate (hc : cgenerateMethod names m = some code) (h : code.OneWay) :
    m.oneway ∧ m.type.data = ascii "void" := by
  simp only [cgenerateMethod, Option.bind_eq_bind, Option.bind_eq_some_iff] at hc
  obtain ⟨result, _, l, _, e⟩ := hc
  cases e
  have hone : m.oneway := h.flag
  have hw := h.written
  dsimp only at hw
  rw [if_pos hone, List.nil_append, List.append_eq_nil_iff] at hw
  refine ⟨hone, ?_⟩
  by_contra hv
  rw [if_neg hv] at hw
  cases hw.1

theorem cgenerate_oneway (hc : cgenerateMethod names m = some code) (hone : m.oneway)
    (hv : m.type.data = ascii "void")
    (hout : ∀ a ∈ m.args, convertDirection a.direction &&& OUT_PARAMETER = 0) : code.OneWay := by
  simp only [cgenerateMethod, Option.bind_eq_bind, Option.bind_eq_some_iff] at hc
  obtain ⟨result, _, l, hl, e⟩ := hc
  cases e
  have hnil : cgenerateWrite OUT_PARAMETER l = [] := by
    rw [cgenerateWrite, List.flatMap_eq_nil_iff]
    intro p hp
    obtain ⟨a, ha, e⟩ := exists_of_mem_mapM hl hp
    obtain ⟨t, _, rfl⟩ := Option.map_eq_some_iff.mp e
    simp [hout a ha]
  constructor
  · exact hone
  · dsimp only
    rw [if_pos hone, if_pos hv, hnil]
    rfl
  · exact if_pos hone

end Cpp

/-! ## Java -/

section Java
variable {names : JNames} {m : Method} {code : JMethodCode} {mOneWay : Bool}

/-- A one-way method has no out parameter. -/
theorem oneway_of_generate (hc : generateMethod names mOneWay m = some code) (h : code.OneWay)
    (hargs : ∀ a ∈ m.args, ∃ t, JAccepted names a t) :
    (mOneWay || m.oneway) = true ∧
      ∀ a ∈ m.args, convertDirection a.direction &&& OUT_PARAMETER = 0 := by
  simp only [generateMethod, Option.bind_eq_bind, Option.bind_eq_some_iff] at hc
  obtain ⟨result, _, l, hl, e⟩ := hc
  cases e
  have hone : (mOneWay || m.oneway) = true := h.flag
  have hw := h.written
  dsimp only at hw
  rw [if_pos hone, List.nil_append, List.append_eq_nil_iff] at hw
  exact ⟨hone, (stubWrites_eq_nil hl hargs).mp hw.2⟩

theorem generate_oneway (hc : generateMethod names mOneWay m = some code)
    (hargs : ∀ a ∈ m.args, ∃ t, JAccepted names a t) (hone : m.oneway)
    (hv : m.type.data = ascii "void")
    (hout : ∀ a ∈ m.args, convertDirection a.direction &&& OUT_PARAMETER = 0) : code.OneWay := by
  simp only [generateMethod, Option.bind_eq_bind, Option.bind_eq_some_iff] at hc
  obtain ⟨result, _, l, hl, e⟩ := hc
  cases e
  have hflag : (mOneWay || m.oneway) = true := by
    rw [hone, Bool.or_true]
  constructor
  · exact hflag
  · dsimp only
    rw [if_pos hflag, if_pos hv, (stubWrites_eq_nil hl hargs).mpr hout]
    rfl
  · exact if_pos hflag

end Java

/-! ## The registered interface -/

/-- No registered interface is `oneway`. -/
def Quiet (names : JNames) : Prop := ∀ u ∈ names, u.oneWay ≠ some true

/-- The interfaces of a preprocessed file are not `oneway`. -/
def DocumentItem.quiet : DocumentItem → Bool
  | .userData _ => true
  | .interface c => !c.oneway

theorem quiet_jtypes {d : DocumentItem} (h : d.quiet) {u : JType} (hu : u ∈ d.jtypes) :
    u.oneWay ≠ some true := by
  cases d with
  | userData p =>
    simp only [DocumentItem.jtypes, List.mem_singleton] at hu
    subst hu
    simp [DocumentItem.jtype, JType.oneWay]
  | interface c =>
    simp only [DocumentItem.quiet, Bool.not_eq_true'] at h
    rcases List.mem_cons.mp hu with rfl | hu
    · simp [DocumentItem.jtype, JType.oneWay, h]
    · cases hk : c.kind <;> simp only [hk, List.mem_cons, List.not_mem_nil, or_false] at hu
      · rcases hu with rfl | rfl <;> simp [JType.oneWay]
      · subst hu
        simp [JType.oneWay]

theorem declare_quiet {type fullname : String8} {ds : List DocumentItem} {b : Buffers}
    (h : declare type fullname = some (ds, b)) : ∀ d ∈ ds, d.quiet := by
  obtain ⟨d, hd, e⟩ := Option.map_eq_some_iff.mp h
  cases e
  intro x hx
  obtain rfl := List.mem_singleton.mp hx
  simp only [item] at hd
  split at hd
  · cases hd
    rfl
  · split at hd
    · cases hd
      rfl
    · split at hd
      · cases hd
        rfl
      · cases hd

theorem readLines_quiet {ls : List String8} {b : Buffers} {ds : List DocumentItem}
    (h : readLines b ls = some ds) : ∀ d ∈ ds, d.quiet := by
  induction ls generalizing b ds with
  | nil =>
    cases h
    simp
  | cons line ls ih =>
    simp only [readLines, Option.bind_eq_bind, Option.bind_eq_some_iff] at h
    obtain ⟨⟨ds₁, b'⟩, h₁, ds₂, h₂, e⟩ := h
    cases e
    intro d hd
    rcases List.mem_append.mp hd with hd | hd
    · simp only [readLine] at h₁
      split at h₁
      · cases h₁
        cases hd
      · split at h₁
        · exact declare_quiet h₁ d hd
        · cases h₁
    · exact ih h₂ d hd

theorem gatherPreprocessed_quiet {texts : List String8} {names names' : JNames} (hn : Quiet names)
    (h : gatherPreprocessed names texts = some names') : Quiet names' := by
  induction texts generalizing names with
  | nil =>
    cases h
    exact hn
  | cons text texts ih =>
    simp only [gatherPreprocessed, Option.bind_eq_bind, Option.bind_eq_some_iff] at h
    obtain ⟨ds, hds, h⟩ := h
    apply ih _ h
    intro u hu
    rcases mem_gatherTypes hu with hu | ⟨d, hd, hu⟩
    · exact hn u hu
    · exact quiet_jtypes (readLines_quiet hds d hd) hu

theorem jregisterBaseTypes_quiet : Quiet jregisterBaseTypes := by
  have h : jregisterBaseTypes.all (fun u => u.oneWay ≠ some true) = true := by decide
  simpa [Quiet] using h

section Compiled
variable {preprocessed : List String8} {main : Document} {imports : List Document}
  {names : JNames} {c : Interface}

/-- The interface that is compiled is the first item of the main file. -/
theorem jcompileAidl_eq (h : jcompileAidl preprocessed main imports = some (names, c)) :
    (∃ rest, main.items = .interface c :: rest) ∧
      gatherAll preprocessed main imports = some names ∧
      ∀ m ∈ c.interface_items, jcheckMethod names c.kind m := by
  simp only [jcompileAidl, Option.bind_eq_bind, Option.bind_eq_some_iff] at h
  obtain ⟨names', hg, h⟩ := h
  split at h
  next hall =>
    obtain ⟨iface, hi, e⟩ := Option.map_eq_some_iff.mp h
    cases e
    obtain ⟨rest, hrest⟩ := exactlyOneInterface_head hi
    refine ⟨⟨rest, hrest⟩, hg, ?_⟩
    rw [hrest, List.all_cons, Bool.and_eq_true] at hall
    simp only [jcheckItem, Bool.and_eq_true, List.all_eq_true] at hall
    exact hall.1.1
  next => cases h

/-- The full name of the interface finds an interface that is `oneway` only if it is
declared so. -/
theorem jcompileAidl_oneWay (h : jcompileAidl preprocessed main imports = some (names, c))
    {u : JType} (hu : names.find (DocumentItem.interface c).jtype.qualifiedName = some u)
    (ho : u.oneWay = some true) : c.oneway := by
  obtain ⟨⟨rest, hm⟩, hg, _⟩ := jcompileAidl_eq h
  simp only [gatherAll, Option.bind_eq_bind, Option.bind_eq_some_iff] at hg
  obtain ⟨names₀, hp, hg⟩ := hg
  split at hg
  · cases hg
  · cases hg
    have hitems : items (main :: imports) = .interface c :: (rest ++ items imports) := by
      simp [items, hm]
    obtain ⟨v, hv, hmem⟩ := gatherTypes_head names₀ (.interface c) (rest ++ items imports)
    rw [hitems, hv] at hu
    cases hu
    rcases hmem with hmem | rfl
    · exact absurd ho (gatherPreprocessed_quiet jregisterBaseTypes_quiet hp u hmem)
    · simpa [DocumentItem.jtype, JType.oneWay] using ho

end Compiled

/-! ## The two back ends -/

theorem findIn_eq {names : JNames} {c : Interface} (h : c.package ≠ some []) :
    findIn names c.package c.name = names.find (DocumentItem.interface c).jtype.qualifiedName := by
  cases hp : c.package with
  | none => simp [findIn, DocumentItem.jtype, JType.qualifiedName, qualifyJava, hp]
  | some p =>
    have hne : p ≠ [] := by
      rintro rfl
      exact h hp
    simp [findIn, DocumentItem.jtype, JType.qualifiedName, qualifyJava, hp, hne]

theorem generateBinderInterfaceClass_eq {names : JNames} {c : Interface} {jk : JBinderClasses}
    (h : generateBinderInterfaceClass names c = some jk) :
    ∃ u mOneWay, findIn names c.package c.name = some u ∧ jk.descriptor = u.qualifiedName ∧
      u.oneWay = some mOneWay ∧
      c.interface_items.mapM (generateMethod names mOneWay) = some jk.methods := by
  simp only [generateBinderInterfaceClass, Option.bind_eq_bind, Option.bind_eq_some_iff] at h
  obtain ⟨u, hu, _, _, _, _, _, _, mOneWay, ho, ms, hms, e⟩ := h
  cases e
  exact ⟨u, mOneWay, hu, rfl, ho, hms⟩

theorem cgenerateBinderInterfaceClass_methods {names : CNames} {c : Interface} {k : CBinderClasses}
    (h : cgenerateBinderInterfaceClass names c = some k) :
    c.interface_items.mapM (cgenerateMethod names) = some k.methods := by
  simp only [cgenerateBinderInterfaceClass, Option.bind_eq_bind, Option.bind_eq_some_iff] at h
  obtain ⟨_, _, _, _, _, _, _, _, _, _, _, _, ms, hms, e⟩ := h
  cases e
  exact hms

section Both
variable {preprocessed : List String8} {main : Document} {imports jimports : List Document}
  {names : CNames} {jnames : JNames} {c jc : Interface} {k : CBinderClasses} {jk : JBinderClasses}
  {i : Nat} {m : Method}

/-- The code of a method in C++ is that of the method that the document declares, with its
types translated. -/
theorem cpp_method (h : ccompileAidl preprocessed main imports = some (names, c))
    (hg : cgenerateBinderInterfaceClass names c = some k)
    (hj : ∃ rest, main.items = .interface jc :: rest) (hm : jc.interface_items[i]? = some m) :
    ∃ code, k.methods[i]? = some code ∧ cgenerateMethod names m.translate = some code := by
  obtain ⟨c₀, rest, hmain, _, _, hitems⟩ := ccompileAidl_eq h
  obtain ⟨rest', hmain'⟩ := hj
  rw [hmain] at hmain'
  cases hmain'
  obtain ⟨m', hm', hcheck⟩ := getElem?_mapM hitems hm
  obtain ⟨code, hcode, hgen⟩ := getElem?_mapM (cgenerateBinderInterfaceClass_methods hg) hm'
  rw [ccheckMethod_translate hcheck] at hgen
  exact ⟨code, hcode, hgen⟩

theorem translate_void : m.translate.type.data = ascii "void" ↔ m.type.data = ascii "void" :=
  aidlTypeTranslate_eq_void

theorem translate_out (h : ∀ a ∈ m.args, convertDirection a.direction &&& OUT_PARAMETER = 0) :
    ∀ a ∈ m.translate.args, convertDirection a.direction &&& OUT_PARAMETER = 0 := by
  intro a ha
  obtain ⟨a₀, ha₀, rfl⟩ := List.mem_map.mp ha
  exact h a₀ ha₀

/-- A method is one-way in both back ends exactly as it is declared, if and only if all
that is declared `oneway` says so itself and has nothing to reply. -/
theorem oneway_iff (h : ccompileAidl preprocessed main imports = some (names, c))
    (hg : cgenerateBinderInterfaceClass names c = some k)
    (hj : jcompileAidl preprocessed main jimports = some (jnames, jc))
    (hjg : generateBinderInterfaceClass jnames jc = some jk)
    (hm : jc.interface_items[i]? = some m) :
    OneWayAsDeclared jc i m k jk ↔ Unreplied jc m := by
  obtain ⟨hmain, _, hcheck⟩ := jcompileAidl_eq hj
  obtain ⟨code, hcode, hgen⟩ := cpp_method h hg hmain hm
  obtain ⟨u, mOneWay, hu, hdesc, ho, hms⟩ := generateBinderInterfaceClass_eq hjg
  obtain ⟨jcode, hjcode, hjgen⟩ := getElem?_mapM hms hm
  have hargs := jaccepted_of_checkMethod (hcheck m (List.mem_of_getElem? hm))
  constructor
  · intro hp
    have hpackage : jc.package ≠ some [] := by
      -- the name with a dot in front is not the name of the interface
      intro e
      simp only [findIn, e, List.nil_append] at hu
      have hq : u.qualifiedName = byte '.' :: jc.name := key_of_find hu
      have hown := hp.descriptor
      rw [hdesc, hq] at hown
      simp only [DocumentItem.jtype, JType.qualifiedName, qualifyJava, e, Option.getD_some,
        if_true] at hown
      exact absurd (congrArg List.length hown) (by simp)
    obtain ⟨_, _, e, je, hdecl, hagree⟩ := hp.generated
    cases hcode.symm.trans e
    cases hjcode.symm.trans je
    have key : jc.oneway ∨ m.oneway → m.oneway ∧ m.type.data = ascii "void" ∧
        ∀ a ∈ m.args, convertDirection a.direction &&& OUT_PARAMETER = 0 := by
      intro hd
      have hcpp := hdecl.mpr hd
      have hres := oneway_of_cgenerate hgen hcpp
      have hjava := oneway_of_generate hjgen (hagree.mp hcpp) hargs
      exact ⟨hres.1, translate_void.mp hres.2, hjava.2⟩
    exact ⟨hpackage, fun hd => (key (.inl hd)).1, fun hd => (key (.inr hd)).2.1,
      fun hd => (key (.inr hd)).2.2⟩
  · intro hp
    rw [findIn_eq hp.package] at hu
    refine ⟨hdesc.trans (key_of_find hu), code, jcode, hcode, hjcode, ?_⟩
    by_cases hone : m.oneway
    · have hv := hp.result hone
      have hout := hp.out hone
      have hcpp := cgenerate_oneway hgen hone (translate_void.mpr hv) (translate_out hout)
      have hjava := generate_oneway hjgen hargs hone hv hout
      constructor
      · exact iff_of_true hcpp (.inr hone)
      · exact iff_of_true hcpp hjava
    · have hcpp : ¬ code.OneWay := fun ho => hone (oneway_of_cgenerate hgen ho).1
      have hdecl : ¬ jc.oneway := fun hd => hone (hp.method hd)
      have hjava : ¬ jcode.OneWay := by
        -- the registered interface is not `oneway` either
        intro hj'
        have hflag := (oneway_of_generate hjgen hj' hargs).1
        rw [Bool.or_eq_true] at hflag
        rcases hflag with hflag | hflag
        · rw [hflag] at ho
          exact hdecl (jcompileAidl_oneWay hj hu ho)
        · exact hone hflag
      constructor
      · exact iff_of_false hcpp (not_or.mpr ⟨hdecl, hone⟩)
      · exact iff_of_false hcpp hjava

end Both

/-- `package a; interface IX { void f(); }`, where one of the two can be `oneway`. -/
def interfaceX (ofInterface ofMethod : Bool) : Interface where
  kind := .binder
  oneway := ofInterface
  package := some (ascii "a")
  name := ascii "IX"
  interface_items := [⟨⟨ascii "void", 0⟩, ofMethod, ascii "f", []⟩]

def documentX (ofInterface ofMethod : Bool) : Document where
  items := [.interface (interfaceX ofInterface ofMethod)]
  parsed := by
    cases ofInterface <;> cases ofMethod <;> decide

/-- The names after the document alone. -/
def namesOfX (ofInterface ofMethod : Bool) : CNames :=
  (cgatherTypes cregisterBaseTypes (documentX ofInterface ofMethod).items).1

def jnamesOfX (ofInterface ofMethod : Bool) : JNames :=
  (gatherTypes jregisterBaseTypes (documentX ofInterface ofMethod).items).1

/-- `oneway void f();` in an interface that is not `oneway`. -/
theorem oneway_method_unreplied : ∃ k jk,
    cgenerateBinderInterfaceClass (namesOfX false true) (interfaceX false true) = some k ∧
    generateBinderInterfaceClass (jnamesOfX false true) (interfaceX false true) = some jk ∧
    OneWayAsDeclared (interfaceX false true) 0 ⟨⟨ascii "void", 0⟩, true, ascii "f", []⟩ k jk := by
  have hg := Option.some_get
    (show (cgenerateBinderInterfaceClass (namesOfX false true) (interfaceX false true)).isSome
      by decide +kernel)
  have hjg := Option.some_get
    (show (generateBinderInterfaceClass (jnamesOfX false true) (interfaceX false true)).isSome
      by decide +kernel)
  have hc : ccompileAidl [] (documentX false true) [] =
      some (namesOfX false true, interfaceX false true) := by decide +kernel
  have hj : jcompileAidl [] (documentX false true) [] =
      some (jnamesOfX false true, interfaceX false true) := by decide +kernel
  refine ⟨_, _, hg.symm, hjg.symm, ?_⟩
  apply (oneway_iff hc hg.symm hj hjg.symm rfl).mpr
  exact ⟨by decide, fun _ => rfl, fun _ => rfl, by simp⟩

/-- The methods of a `oneway` interface are not one-way in C++. -/
theorem oneway_interface_replies :
    ¬ ∀ preprocessed main imports jimports names c k jnames jc jk i m,
    ccompileAidl preprocessed main imports = some (names, c) →
    cgenerateBinderInterfaceClass names c = some k →
    jcompileAidl preprocessed main jimports = some (jnames, jc) →
    generateBinderInterfaceClass jnames jc = some jk →
    jc.interface_items[i]? = some m → OneWayAsDeclared jc i m k jk := by
  intro h
  have hg := Option.some_get
    (show (cgenerateBinderInterfaceClass (namesOfX true false) (interfaceX true false)).isSome
      by decide +kernel)
  have hjg := Option.some_get
    (show (generateBinderInterfaceClass (jnamesOfX true false) (interfaceX true false)).isSome
      by decide +kernel)
  have hc : ccompileAidl [] (documentX true false) [] =
      some (namesOfX true false, interfaceX true false) := by decide +kernel
  have hj : jcompileAidl [] (documentX true false) [] =
      some (jnamesOfX true false, interfaceX true false) := by decide +kernel
  obtain ⟨code, _, hcode, _, hdecl, _⟩ := (h _ _ _ _ _ _ _ _ _ _ 0 _ hc hg.symm hj hjg.symm
    rfl).generated
  obtain ⟨code', hcode', hgen⟩ := cpp_method hc hg.symm (jcompileAidl_eq hj).1
    (show (interfaceX true false).interface_items[0]? = some _ from rfl)
  cases hcode.symm.trans hcode'
  have hone := (oneway_of_cgenerate hgen (hdecl.mpr (.inl rfl))).1
  cases hone

end Cdroid.Aidl
