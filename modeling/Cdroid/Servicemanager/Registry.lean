import Mathlib.Data.List.Nodup
import Cdroid.Lib.Runs
import Cdroid.Servicemanager.Messages

/-! The registry over whole runs. The driver keeps one death notification for a handle,
with the entry that it is for, and delivers it once; it forgets it with the handle, once
the service manager has no reference to it. -/

namespace Cdroid.Servicemanager
open Cdroid.Binder Cdroid.Lib

/-! ## The driver's side -/

inductive Notification
  | none
  | armed (death : Nat)
  | delivered
  deriving DecidableEq

/-- What the driver has for the handles of the service manager. -/
structure Handles where
  death : BitVec 32 → Notification
  strong : BitVec 32 → Nat

/-- A notification that is set already is kept. -/
def Handles.execute (k : Handles) : Command → Handles
  | .acquire ptr =>
    { k with strong := fun h => if h = ptr then k.strong h + 1 else k.strong h }
  | .release ptr =>
    { k with strong := fun h => if h = ptr then k.strong h - 1 else k.strong h }
  | .requestDeathNotification ptr death =>
    if k.death ptr = .none then
      { k with death := fun h => if h = ptr then .armed death else k.death h }
    else k

/-! ## Events -/

/-- The service manager, the driver, and what the latest successful adds say: the handle
that a name has, and whether an isolated caller may have it. -/
structure Registry where
  services : Services
  handles : Handles
  latest : String16 → Option (BitVec 32 × Bool)

/-- An add, with the memory in which its name stands; the notification of a death; and a
handle that the driver forgets. -/
inductive Event
  | add (d : List UInt8) (s : Option Nat) (len : Nat) (ptr : BitVec 32) (uid : Nat)
      (allow_isolated malloc : Bool)
  | died (h : BitVec 32)
  | forget (h : BitVec 32)

namespace Registry

def init : Registry := ⟨⟨[], []⟩, ⟨fun _ => .none, fun _ => 0⟩, fun _ => none⟩

/-- The driver has executed what was written. -/
def executed (handles : Handles) (b : Services) : Services × Handles :=
  ({ b with written := [] }, b.written.foldl Handles.execute handles)

/-- The name of an add. -/
def nameOf (d : List UInt8) (s : Option Nat) (len : Nat) : String16 :=
  match s with
  | none => []
  | some p => chars d p len

def next (r : Registry) : Event → Option Registry
  | .add d s len ptr uid allow_isolated malloc =>
    match r.services.doAddService d s len ptr uid allow_isolated malloc with
    | .error _ => none
    | .ok (res, b) =>
      let (services, handles) := executed r.handles b
      some ⟨services, handles, if res = 0 then
        fun n => if n = nameOf d s len then some (ptr, allow_isolated) else r.latest n
        else r.latest⟩
  | .died h =>
    match r.handles.death h with
    | .armed death =>
      let (services, handles) := executed
        { r.handles with death := fun h' => if h' = h then .delivered else r.handles.death h' }
        (r.services.svcinfoDeath death)
      some ⟨services, handles, fun n => (r.latest n).filter fun e => e.1 ≠ h⟩
    | _ => none
  | .forget h =>
    if r.handles.strong h = 0 then
      some { r with handles := { r.handles with
        death := fun h' => if h' = h then .none else r.handles.death h' } }
    else none

/-- The events, in this order, lead to `r`. -/
def Reached (events : List Event) (r : Registry) : Prop := Runs.after next events init = some r

/-- What a lookup is to find. -/
def found (r : Registry) (n : String16) (uid : Nat) : BitVec 32 :=
  match r.latest n with
  | none => 0
  | some (ptr, allow_isolated) => if ¬ allow_isolated ∧ Services.isolated uid then 0 else ptr

/-- A name keeps the flag of its first add; and a death is notified for the only entry with
the handle, and for no entry that has another one by now. -/
def clean (r : Registry) : Event → Bool
  | .add d s len ptr uid allow_isolated _ =>
    match r.services.svclist.find? fun si => si.name = nameOf d s len with
    | none => true
    | some si => ptr = 0 || result (svcCanRegister d uid s) ≠ some true ||
        si.allow_isolated = allow_isolated
  | .died h =>
    match r.handles.death h with
    | .armed death => r.services.svclist.all fun si =>
        decide (si.ptr = h ↔ si.addr = death ∧ si.ptr ≠ 0)
    | _ => true
  | .forget _ => true

end Registry

/-! ## Entries -/

/-- An entry with another handle. -/
def svcinfo.withPtr (addr : Nat) (ptr : BitVec 32) (si : svcinfo) : svcinfo :=
  if si.addr = addr then { si with ptr } else si

@[simp] theorem name_withPtr (addr : Nat) (ptr : BitVec 32) (si : svcinfo) :
    (si.withPtr addr ptr).name = si.name := by
  unfold svcinfo.withPtr
  split <;> rfl

@[simp] theorem addr_withPtr (addr : Nat) (ptr : BitVec 32) (si : svcinfo) :
    (si.withPtr addr ptr).addr = si.addr := by
  unfold svcinfo.withPtr
  split <;> rfl

theorem withPtr_withPtr (addr : Nat) (ptr ptr' : BitVec 32) (si : svcinfo) :
    (si.withPtr addr ptr).withPtr addr ptr' = si.withPtr addr ptr' := by
  unfold svcinfo.withPtr
  split
  · rfl
  · rfl

/-- Overriding an entry only changes its handle. -/
theorem override_svclist (b : Services) (si : svcinfo) (ptr : BitVec 32) :
    (b.override si ptr).svclist = b.svclist.map (svcinfo.withPtr si.addr ptr) := by
  unfold Services.override
  split
  · unfold Services.svcinfoDeath
    split
    · show (b.svclist.map (svcinfo.withPtr si.addr 0)).map (svcinfo.withPtr si.addr ptr) = _
      rw [List.map_map]
      apply List.map_congr_left
      intro si' _
      exact withPtr_withPtr _ _ _ _
    · rfl
  · rfl

theorem find?_withPtr (l : List svcinfo) (n : String16) (addr : Nat) (ptr : BitVec 32) :
    (l.map (svcinfo.withPtr addr ptr)).find? (fun si => si.name = n) =
      (l.find? fun si => si.name = n).map (svcinfo.withPtr addr ptr) := by
  rw [List.find?_map]
  congr 2
  funext si
  simp

/-- The list is kept in order: an entry has its place and its name to itself. -/
structure Entries (l : List svcinfo) : Prop where
  addrs : (l.map svcinfo.addr).Nodup
  below : ∀ si ∈ l, si.addr < l.length
  names : (l.map svcinfo.name).Nodup

theorem map_name_withPtr (l : List svcinfo) (addr : Nat) (ptr : BitVec 32) :
    (l.map (svcinfo.withPtr addr ptr)).map svcinfo.name = l.map svcinfo.name := by
  rw [List.map_map]
  exact List.map_congr_left fun si _ => name_withPtr addr ptr si

/-- A name that was not found is a new one. -/
theorem nodup_cons_name {l : List svcinfo} (h : (l.map svcinfo.name).Nodup) {si : svcinfo}
    (hname : (l.find? fun si' => si'.name = si.name) = none) :
    ((si :: l).map svcinfo.name).Nodup := by
  apply List.nodup_cons.mpr
  refine ⟨?_, h⟩
  intro hmem
  obtain ⟨si', hsi', heq⟩ := List.mem_map.mp hmem
  have hnot := List.find?_eq_none.mp hname si' hsi'
  exact hnot (by simpa using heq)

theorem Entries.withPtr {l : List svcinfo} (h : Entries l) (addr : Nat) (ptr : BitVec 32) :
    Entries (l.map (svcinfo.withPtr addr ptr)) := by
  have haddr : (l.map (svcinfo.withPtr addr ptr)).map svcinfo.addr = l.map svcinfo.addr := by
    rw [List.map_map]
    exact List.map_congr_left fun si _ => addr_withPtr addr ptr si
  refine ⟨haddr ▸ h.addrs, ?_, map_name_withPtr l addr ptr ▸ h.names⟩
  intro si hsi
  obtain ⟨si', hsi', rfl⟩ := List.mem_map.mp hsi
  rw [addr_withPtr, List.length_map]
  exact h.below si' hsi'

theorem Entries.cons {l : List svcinfo} (h : Entries l) {si : svcinfo} (haddr : si.addr = l.length)
    (hname : (l.find? fun si' => si'.name = si.name) = none) : Entries (si :: l) := by
  refine ⟨?_, ?_, nodup_cons_name h.names hname⟩
  · apply List.nodup_cons.mpr
    refine ⟨?_, h.addrs⟩
    intro hmem
    obtain ⟨si', hsi', heq⟩ := List.mem_map.mp hmem
    have := h.below si' hsi'
    omega
  · intro si' hsi'
    rw [List.length_cons]
    rcases List.mem_cons.mp hsi' with rfl | hsi'
    · omega
    · have := h.below si' hsi'
      omega

theorem Entries.eq_of_addr {l : List svcinfo} (h : Entries l) {si si' : svcinfo} (hsi : si ∈ l)
    (hsi' : si' ∈ l) (heq : si.addr = si'.addr) : si = si' :=
  List.inj_on_of_nodup_map h.addrs hsi hsi' heq

theorem Entries.ptrAt {b : Services} (h : Entries b.svclist) {si : svcinfo}
    (hsi : si ∈ b.svclist) : b.ptrAt si.addr = si.ptr := by
  unfold Services.ptrAt
  cases hfind : b.svclist.find? fun si' => si'.addr = si.addr with
  | none =>
    have hnot := List.find?_eq_none.mp hfind si hsi
    exact absurd (decide_eq_true rfl) hnot
  | some si' =>
    have haddr := List.find?_some hfind
    have heq := h.eq_of_addr (List.mem_of_find?_eq_some hfind) hsi (of_decide_eq_true haddr)
    rw [heq]
    rfl

/-! ## Successful adds -/

/-- A length that a name may have. -/
def Accepted (name : String16) : Prop := name.length ≠ 0 ∧ name.length ≤ 127

theorem findSvc_in_bounds {d : List UInt8} {p len : Nat} {l : List svcinfo} {si : svcinfo}
    (h : Services.findSvc d (some p) len l = .ok (some si)) : p + 2 * len ≤ d.length := by
  induction l with
  | nil => cases h
  | cons si' l ih =>
    unfold Services.findSvc at h
    split at h
    · next hlen =>
      unfold memEq at h
      by_cases hin : p + 2 * si'.name.length ≤ d.length
      · rw [hlen]
        exact hin
      · dsimp only at h
        rw [if_neg hin] at h
        cases h
    · exact ih h

/-- A registration that succeeds has a handle, a name that is there and the permission,
and enters the name, which has a length that is accepted. -/
theorem doAddService_ok {b b' : Services} {d : List UInt8} {s : Option Nat} {len uid : Nat}
    {ptr : BitVec 32} {allow_isolated malloc : Bool} {res : Int}
    (h : b.doAddService d s len ptr uid allow_isolated malloc = .ok (res, b')) :
    (res = -1 ∧ b' = b) ∨
    (res = 0 ∧ ptr ≠ 0 ∧ svcCanRegister d uid s = .ok true ∧ Accepted (Registry.nameOf d s len) ∧
      b' = b.register (Registry.nameOf d s len) ptr allow_isolated) := by
  unfold Services.doAddService at h
  split at h
  · cases h
    exact Or.inl ⟨rfl, rfl⟩
  · next hvalid =>
    have hptr : ptr ≠ 0 := fun hz => hvalid (Or.inl hz)
    have haccepted : ∀ p, Accepted (Registry.nameOf d (some p) len) := by
      intro p
      unfold Accepted Registry.nameOf
      rw [length_chars]
      omega
    obtain ⟨can, hcan, h⟩ := bind_ok h
    cases can with
    | false =>
      obtain ⟨text, -, h⟩ := bind_ok h
      cases h
      exact Or.inl ⟨rfl, rfl⟩
    | true =>
      obtain ⟨entry, hfind, h⟩ := bind_ok h
      have hin : ∀ {p : Nat}, p + 2 * len ≤ d.length → s = some p →
          entry = b.svclist.find? fun si => si.name = Registry.nameOf d s len := by
        intro p hp hs
        rw [hs, findSvc_some hp] at hfind
        rw [hs]
        exact (Except.ok.inj hfind).symm
      cases entry with
      | some si =>
        cases s with
        | none =>
          cases findSvc_none d len b.svclist hfind
        | some p =>
          have hreg : b.register (Registry.nameOf d (some p) len) ptr allow_isolated =
              b.override si ptr := by
            unfold Services.register
            rw [← hin (findSvc_in_bounds hfind) rfl]
          refine Or.inr ?_
          rw [hreg]
          unfold Services.override
          dsimp only at h
          split at h
          · next hlive =>
            obtain ⟨text, -, h⟩ := bind_ok h
            cases h
            exact ⟨rfl, hptr, hcan, haccepted p, (if_pos hlive).symm⟩
          · next hdead =>
            cases h
            exact ⟨rfl, hptr, hcan, haccepted p, (if_neg hdead).symm⟩
      | none =>
        dsimp only at h
        split at h
        · obtain ⟨text, -, h⟩ := bind_ok h
          cases h
          exact Or.inl ⟨rfl, rfl⟩
        · cases s with
          | none => cases h
          | some p =>
            dsimp only at h
            split at h
            · next hmem =>
              cases h
              refine Or.inr ⟨rfl, hptr, hcan, haccepted p, ?_⟩
              unfold Services.register
              rw [← hin (by omega) rfl]
              rfl
            · cases h

/-! ## Runs -/

namespace Registry

/-- The handle and the flag of an entry that has one. -/
def live (si : svcinfo) : Option (BitVec 32 × Bool) :=
  if si.ptr = 0 then none else some (si.ptr, si.allow_isolated)

/-- What the latest adds say of the names is what the entries say. -/
def Agrees (l : List svcinfo) (latest : String16 → Option (BitVec 32 × Bool)) : Prop :=
  ∀ n, latest n = (l.find? fun si => si.name = n).bind live

structure Inv (r : Registry) : Prop where
  entries : Entries r.services.svclist
  agrees : Agrees r.services.svclist r.latest

theorem mem_of_find {l : List svcinfo} {n : String16} {si : svcinfo}
    (h : l.find? (fun si => si.name = n) = some si) : si ∈ l ∧ si.name = n :=
  ⟨List.mem_of_find?_eq_some h, of_decide_eq_true (List.find?_some (p := fun si : svcinfo =>
    decide (si.name = n)) h)⟩

section Steps
variable {l : List svcinfo} {latest : String16 → Option (BitVec 32 × Bool)}

/-- An entry gets another handle. -/
theorem Agrees.override (h : Agrees l latest) (hl : Entries l) {n : String16} {si : svcinfo}
    (hsi : l.find? (fun si => si.name = n) = some si) {ptr : BitVec 32} (hptr : ptr ≠ 0) :
    Agrees (l.map (svcinfo.withPtr si.addr ptr))
      fun n' => if n' = n then some (ptr, si.allow_isolated) else latest n' := by
  obtain ⟨hmem, hname⟩ := mem_of_find hsi
  intro n'
  rw [find?_withPtr]
  have hzero : ¬ ptr = 0#32 := hptr
  by_cases hn : n' = n
  · subst hn
    rw [hsi]
    simp [live, svcinfo.withPtr, hzero]
  · dsimp only
    rw [if_neg hn, h n']
    cases hfind : l.find? fun si => si.name = n' with
    | none => rfl
    | some si' =>
      obtain ⟨hmem', hname'⟩ := mem_of_find hfind
      have hne : si'.addr ≠ si.addr := by
        intro heq
        rw [hl.eq_of_addr hmem' hmem heq] at hname'
        exact hn (hname'.symm.trans hname)
      simp [svcinfo.withPtr, hne]

/-- A name gets its first entry. -/
theorem Agrees.enter (h : Agrees l latest) (si : svcinfo) (hptr : si.ptr ≠ 0) :
    Agrees (si :: l)
      fun n => if n = si.name then some (si.ptr, si.allow_isolated) else latest n := by
  intro n
  have hzero : ¬ si.ptr = 0#32 := hptr
  by_cases hn : n = si.name
  · subst hn
    simp [live, hzero]
  · have hne : ¬ si.name = n := fun heq => hn heq.symm
    simp [hn, hne, h n]

/-- The only entry with a handle loses it. -/
theorem Agrees.died (h : Agrees l latest) {dead : BitVec 32} {addr : Nat}
    (hclean : ∀ si ∈ l, si.ptr = dead ↔ si.addr = addr ∧ si.ptr ≠ 0) :
    Agrees (l.map (svcinfo.withPtr addr 0)) fun n => (latest n).filter fun e => e.1 ≠ dead := by
  intro n
  dsimp only
  rw [find?_withPtr, h n]
  cases hfind : l.find? fun si => si.name = n with
  | none => rfl
  | some si =>
    obtain ⟨hmem, -⟩ := mem_of_find hfind
    have hsi := hclean si hmem
    by_cases haddr : si.addr = addr
    · by_cases hptr : si.ptr = 0#32
      · simp [live, svcinfo.withPtr, haddr, hptr]
      · have hdead := hsi.mpr ⟨haddr, hptr⟩
        simp [live, svcinfo.withPtr, haddr, hdead]
    · have hne : si.ptr ≠ dead := fun heq => haddr (hsi.mp heq).1
      by_cases hptr : si.ptr = 0#32
      · simp [live, svcinfo.withPtr, haddr, hptr]
      · simp [live, svcinfo.withPtr, haddr, hptr, hne]

/-- No entry has the handle. -/
theorem Agrees.gone (h : Agrees l latest) {dead : BitVec 32}
    (hclean : ∀ si ∈ l, si.ptr ≠ dead) :
    Agrees l fun n => (latest n).filter fun e => e.1 ≠ dead := by
  intro n
  dsimp only
  rw [h n]
  cases hfind : l.find? fun si => si.name = n with
  | none => rfl
  | some si =>
    have hne := hclean si (mem_of_find hfind).1
    by_cases hptr : si.ptr = 0#32
    · simp [live, hptr]
    · simp [live, hptr, hne]

end Steps

theorem inv_init : Inv init := ⟨⟨List.nodup_nil, by simp [init], List.nodup_nil⟩, fun _ => rfl⟩

/-- **Step.** A clean event keeps the entries and what they say. -/
theorem next_inv {r r' : Registry} {e : Event} (h : Inv r) (hclean : r.clean e = true)
    (hn : r.next e = some r') : Inv r' := by
  cases e with
  | add d s len ptr uid allow_isolated malloc =>
    simp only [next] at hn
    split at hn
    · cases hn
    · next res b hadd =>
      rcases doAddService_ok hadd with ⟨rfl, rfl⟩ | ⟨rfl, hptr, hcan, -, rfl⟩
      · cases hn
        exact ⟨h.entries, h.agrees⟩
      · cases hn
        simp only [clean, hcan, result] at hclean
        unfold Services.register executed
        cases hfind : r.services.svclist.find? fun si => si.name = nameOf d s len with
        | some si =>
          rw [hfind] at hclean
          have hflag : si.allow_isolated = allow_isolated := by
            simpa [show ¬ ptr = 0#32 from hptr] using hclean
          constructor
          · show Entries (r.services.override si ptr).svclist
            rw [override_svclist]
            exact h.entries.withPtr si.addr ptr
          · show Agrees (r.services.override si ptr).svclist _
            rw [override_svclist, ← hflag]
            exact h.agrees.override h.entries hfind hptr
        | none =>
          constructor
          · exact h.entries.cons rfl hfind
          · exact h.agrees.enter
              ⟨r.services.svclist.length, ptr, allow_isolated, nameOf d s len⟩ hptr
  | died dead =>
    simp only [next] at hn
    split at hn
    · next addr harmed =>
      cases hn
      simp only [clean, harmed, List.all_eq_true] at hclean
      have honly : ∀ si ∈ r.services.svclist, si.ptr = dead ↔ si.addr = addr ∧ si.ptr ≠ 0 :=
        fun si hsi => of_decide_eq_true (hclean si hsi)
      unfold Services.svcinfoDeath executed
      by_cases hlive : r.services.ptrAt addr ≠ 0
      · rw [if_pos hlive]
        exact ⟨h.entries.withPtr addr 0, h.agrees.died honly⟩
      · rw [if_neg hlive]
        refine ⟨h.entries, h.agrees.gone ?_⟩
        intro si hsi hdead
        obtain ⟨haddr, hptr⟩ := (honly si hsi).mp hdead
        rw [← haddr, h.entries.ptrAt hsi] at hlive
        exact hlive hptr
    · cases hn
  | forget handle =>
    simp only [next] at hn
    split at hn
    · cases hn
      exact ⟨h.entries, h.agrees⟩
    · cases hn

theorem lookup_eq {r : Registry} (h : Inv r) (n : String16) (uid : Nat) :
    r.services.lookup n uid = r.found n uid := by
  unfold Services.lookup found
  rw [h.agrees n]
  cases r.services.svclist.find? fun si => si.name = n with
  | none => rfl
  | some si =>
    by_cases hptr : si.ptr = 0#32
    · simp [live, hptr]
    · simp [live, hptr]

/-- **Registry.** In a run whose events are all clean, a lookup finds the handle of the latest
successful add of its name, if this has not died since and the caller may have it, and 0
otherwise; and no name has two entries. -/
theorem lookup_latest (events : List Event) (r : Registry) (h : Reached events r)
    (hclean : Runs.Along (fun r e => r.clean e = true) next events init) :
    (r.services.svclist.map svcinfo.name).Nodup ∧
    ∀ (d : List UInt8) (p len uid : Nat), p + 2 * len ≤ d.length →
      r.services.doFindService d (some p) len uid = .ok (r.found (chars d p len) uid) := by
  have hinv : Inv r := Runs.along_inv (fun _ _ _ hi hc hn => next_inv hi hc hn) events inv_init
    hclean h
  refine ⟨hinv.entries.names, ?_⟩
  intro d p len uid hin
  rw [doFindService_some hin, lookup_eq hinv]

/-! ## Runs that are not clean -/

/-- An add of a one-character name by root. -/
def addChar (c : UInt8) (ptr : BitVec 32) (allow_isolated : Bool) : Event :=
  .add [c, 0, 0, 0] (some 0) 1 ptr 0 allow_isolated true

/-- What a lookup of the name finds after the events, and what it is to find. -/
def lookupAfter (events : List Event) (c : UInt8) (uid : Nat) : Option (BitVec 32 × BitVec 32) :=
  (Runs.after next events init).bind fun r =>
    (result (r.services.doFindService [c, 0, 0, 0] (some 0) 1 uid)).map fun ptr =>
      (ptr, r.found [c.toBitVec.zeroExtend 16] uid)

/-- A service that dies and comes back under a new handle. -/
def comesBack : List Event := [addChar 97 5 true, .died 5, addChar 97 6 true]

theorem comesBack_found :
    ((Runs.after next comesBack init).getD init).services.doFindService [97, 0, 0, 0] (some 0) 1
      AID_ISOLATED_START = .ok 6 :=
  (lookup_latest comesBack ((Runs.after next comesBack init).getD init) rfl
    (by decide +kernel)).2 [97, 0, 0, 0] 0 1 AID_ISOLATED_START (by decide)

/-- An override that now allows isolated callers: one of them finds nothing. -/
def overridden : List Event := [addChar 97 5 false, addChar 97 6 true]

/-- Two names with one handle, which dies: the second name still has it. -/
def shared : List Event := [addChar 97 5 false, addChar 98 5 false, .died 5]

/-- The first of two names with one handle gets another one; when the old one dies, the first
name loses the new one. -/
def moved : List Event :=
  [addChar 97 5 false, addChar 98 5 false, addChar 97 6 false, .died 5]

theorem not_latest :
    lookupAfter overridden 97 AID_ISOLATED_START = some (0, 6) ∧
    lookupAfter shared 98 0 = some (5, 0) ∧
    lookupAfter moved 97 0 = some (0, 6) := by
  decide +kernel

end Registry

end Cdroid.Servicemanager
