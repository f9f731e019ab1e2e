import Mathlib.Tactic.ByContra
import Cdroid.Servicemanager.ServiceManager

/-! What the handler makes of any message: when it reads only what was received, and what
it answers to one that is too short. -/

namespace Cdroid.Servicemanager
open Cdroid.Binder Cdroid.Runtime

theorem bind_ok {α β : Type} {x : Except Fault α} {f : α → Except Fault β} {b : β}
    (h : x >>= f = .ok b) : ∃ a, x = .ok a ∧ f a = .ok b := by
  cases x with
  | error e => cases h
  | ok a => exact ⟨a, rfl, h⟩

/-! ## Strings -/

/-- `str8` comes to an end inside of the data: at a zero, or after 127 characters. -/
def Terminated (d : List UInt8) (p : Nat) : Prop :=
  ∃ k ≤ 127, p + 2 * k + 2 ≤ d.length ∧ (charAt d (p + 2 * k) = 0 ∨ k = 127)

instance (d : List UInt8) (p : Nat) : Decidable (Terminated d p) :=
  decidable_of_iff
    (∃ k ∈ List.range 128, p + 2 * k + 2 ≤ d.length ∧ (charAt d (p + 2 * k) = 0 ∨ k = 127))
    (by simp only [Terminated, List.mem_range, Nat.lt_succ_iff])

theorem str8Loop_ok_iff (d : List UInt8) (max p : Nat) :
    (∃ s, str8Loop d max p = .ok s) ↔
      ∃ k ≤ max, p + 2 * k + 2 ≤ d.length ∧ (charAt d (p + 2 * k) = 0 ∨ k = max) := by
  induction max generalizing p with
  | zero =>
    unfold str8Loop readUint16
    by_cases hin : p + 2 ≤ d.length
    · simp only [hin, if_true]
      constructor
      · intro _
        exact ⟨0, Nat.le_refl _, by omega, Or.inr rfl⟩
      · intro _
        refine ⟨[], ?_⟩
        show (if charAt d p = 0 then _ else _ : Except Fault String8) = _
        split <;> rfl
    · simp only [hin, if_false]
      constructor
      · rintro ⟨s, hs⟩
        cases hs
      · rintro ⟨k, hk, hle, -⟩
        omega
  | succ max ih =>
    unfold str8Loop readUint16
    by_cases hin : p + 2 ≤ d.length
    · simp only [hin, if_true]
      by_cases hzero : charAt d p = 0
      · constructor
        · intro _
          exact ⟨0, Nat.zero_le _, by omega, Or.inl hzero⟩
        · intro _
          refine ⟨[], ?_⟩
          show (if charAt d p = 0 then _ else _ : Except Fault String8) = _
          rw [if_pos hzero]
          rfl
      · have hnext : (∃ s, (do
            let rest ← str8Loop d max (p + 2)
            pure ((charAt d p).toNat.toUInt8 :: rest) : Except Fault String8) = .ok s) ↔
            ∃ s, str8Loop d max (p + 2) = .ok s := by
          cases str8Loop d max (p + 2) with
          | ok rest => exact ⟨fun _ => ⟨rest, rfl⟩, fun _ => ⟨_, rfl⟩⟩
          | error e =>
            constructor
            · rintro ⟨s, hs⟩
              cases hs
            · rintro ⟨s, hs⟩
              cases hs
        show (∃ s, (if charAt d p = 0 then _ else _ : Except Fault String8) = .ok s) ↔ _
        rw [if_neg hzero, hnext, ih]
        constructor
        · rintro ⟨k, hk, hle, hend⟩
          refine ⟨k + 1, by omega, by omega, ?_⟩
          rcases hend with hend | hend
          · refine Or.inl ?_
            rw [show p + 2 * (k + 1) = p + 2 + 2 * k by omega]
            exact hend
          · exact Or.inr (by omega)
        · rintro ⟨k, hk, hle, hend⟩
          cases k with
          | zero =>
            rcases hend with hend | hend
            · exact absurd hend hzero
            · omega
          | succ k =>
            refine ⟨k, by omega, by omega, ?_⟩
            rcases hend with hend | hend
            · refine Or.inl ?_
              rw [show p + 2 + 2 * k = p + 2 * (k + 1) by omega]
              exact hend
            · exact Or.inr (by omega)
    · simp only [hin, if_false]
      constructor
      · rintro ⟨s, hs⟩
        cases hs
      · rintro ⟨k, hk, hle, -⟩
        omega

theorem str8_ok_iff (d : List UInt8) (p : Nat) :
    (∃ s, str8 d (some p) = .ok s) ↔ Terminated d p := str8Loop_ok_iff d 127 p

/-- The text at `p` is `name`, with a zero behind it. -/
def TextIs (d : List UInt8) (p : Nat) (name : String8) : Prop :=
  chars d p name.length = String16.ofAscii name ∧ charAt d (p + 2 * name.length) = 0

instance (d : List UInt8) (p : Nat) (name : String8) : Decidable (TextIs d p name) :=
  inferInstanceAs (Decidable (_ ∧ _))

/-- The characters of an ASCII text. -/
def isAscii (name : String8) : Bool := name.all fun c => 0 < c.toNat && c.toNat < 128

theorem textIs_cons (d : List UInt8) (p : Nat) (b : UInt8) (bs : String8) :
    TextIs d p (b :: bs) ↔ (charAt d p).toNat = b.toNat ∧ TextIs d (p + 2) bs := by
  have hchar : charAt d p = b.toBitVec.zeroExtend 16 ↔ (charAt d p).toNat = b.toNat := by
    rw [← BitVec.toNat_inj]
    have hb : b.toBitVec.toNat < 2 ^ 8 := b.toBitVec.isLt
    simp only [BitVec.truncate_eq_setWidth, BitVec.toNat_setWidth, UInt8.toNat_toBitVec]
    rw [Nat.mod_eq_of_lt (by have := b.toNat_lt; omega)]
  unfold TextIs
  rw [List.length_cons, chars_succ, String16.ofAscii, List.map_cons, List.cons.injEq, hchar,
    and_assoc]
  have hpos : p + 2 * (bs.length + 1) = p + 2 + 2 * bs.length := by omega
  rw [hpos]
  rfl

/-- A comparison with an ASCII text ends at the latest at a character that is not ASCII. -/
theorem str16eqLoop_eq {d : List UInt8} {p k : Nat} {b : String8} (hb : isAscii b = true)
    (hk : p + 2 * k + 2 ≤ d.length) (hstop : 127 < (charAt d (p + 2 * k)).toNat) :
    str16eqLoop d p b = .ok (decide (TextIs d p b)) := by
  induction b generalizing p k with
  | nil =>
    have hin : p + 2 ≤ d.length := by omega
    simp only [str16eqLoop, readUint16, hin, if_true]
    show Except.ok (decide (charAt d p = 0)) = _
    simp [TextIs, chars, charsOf, String16.ofAscii]
  | cons b bs ih =>
    have hin : p + 2 ≤ d.length := by omega
    simp only [isAscii, List.all_cons, Bool.and_eq_true, decide_eq_true_eq] at hb
    obtain ⟨⟨hpos, hlt⟩, hbs⟩ := hb
    simp only [str16eqLoop, readUint16, hin, if_true]
    show (if charAt d p = 0 then pure false else if (charAt d p).toNat ≠ b.toNat then pure false
      else str16eqLoop d (p + 2) bs : Except Fault Bool) = _
    by_cases hzero : charAt d p = 0
    · have hnot : ¬ TextIs d p (b :: bs) := by
        rw [textIs_cons, hzero]
        rintro ⟨heq, -⟩
        rw [← heq] at hpos
        exact absurd hpos (by decide)
      rw [if_pos hzero, decide_eq_false hnot]
      rfl
    · by_cases heq : (charAt d p).toNat = b.toNat
      · -- an ASCII character: the one that ends it is further on
        obtain ⟨k, rfl⟩ : ∃ k', k = k' + 1 := by
          cases k with
          | zero =>
            rw [show p + 2 * 0 = p by omega, heq] at hstop
            omega
          | succ k => exact ⟨k, rfl⟩
        rw [show p + 2 * (k + 1) = p + 2 + 2 * k by omega] at hk hstop
        rw [if_neg hzero, if_neg (by simpa using heq), ih hbs hk hstop]
        congr 1
        exact decide_eq_decide.mpr (by rw [textIs_cons]; exact (and_iff_right heq).symm)
      · have hnot : ¬ TextIs d p (b :: bs) := by
          rw [textIs_cons]
          exact fun h => heq h.1
        rw [if_neg hzero, if_pos heq, decide_eq_false hnot]
        rfl

/-- May the caller register the text at `p`? -/
def MayRegister (d : List UInt8) (uid p : Nat) : Prop :=
  uid = 0 ∨ uid = AID_SYSTEM ∨ ∃ e ∈ allowed, uid = e.1 ∧ TextIs d p e.2

instance (d : List UInt8) (uid p : Nat) : Decidable (MayRegister d uid p) :=
  inferInstanceAs (Decidable (_ ∨ _ ∨ _))

theorem allowed_ascii : allowed.all (fun e => isAscii e.2) = true := by decide +kernel

theorem svcCanRegisterLoop_eq {d : List UInt8} {uid p k : Nat} {l : List (Nat × String8)}
    (hl : l.all (fun e => isAscii e.2) = true) (hk : p + 2 * k + 2 ≤ d.length)
    (hstop : 127 < (charAt d (p + 2 * k)).toNat) :
    svcCanRegisterLoop d uid (some p) l =
      .ok (decide (∃ e ∈ l, uid = e.1 ∧ TextIs d p e.2)) := by
  induction l with
  | nil => simp [svcCanRegisterLoop, pure, Except.pure]
  | cons e l ih =>
    obtain ⟨uid', name'⟩ := e
    simp only [List.all_cons, Bool.and_eq_true] at hl
    unfold svcCanRegisterLoop
    by_cases huid : uid = uid'
    · rw [if_pos huid, str16eq, str16eqLoop_eq hl.1 hk hstop, ih hl.2]
      by_cases htext : TextIs d p name'
      · simp [htext, huid, bind, Except.bind, pure, Except.pure]
      · simp [htext, bind, Except.bind]
    · rw [if_neg huid, ih hl.2]
      simp [huid]

theorem svcCanRegister_eq {d : List UInt8} {uid p k : Nat} (hk : p + 2 * k + 2 ≤ d.length)
    (hstop : 127 < (charAt d (p + 2 * k)).toNat) :
    svcCanRegister d uid (some p) = .ok (decide (MayRegister d uid p)) := by
  unfold svcCanRegister
  by_cases hroot : uid = 0 ∨ uid = AID_SYSTEM
  · rw [if_pos hroot]
    have hmay : MayRegister d uid p := by
      rcases hroot with h | h
      · exact Or.inl h
      · exact Or.inr (Or.inl h)
    rw [decide_eq_true hmay]
    rfl
  · rw [if_neg hroot, svcCanRegisterLoop_eq allowed_ascii hk hstop]
    congr 1
    apply decide_eq_decide.mpr
    unfold MayRegister
    constructor
    · exact fun h => Or.inr (Or.inr h)
    · rintro (h | h | h)
      · exact absurd (Or.inl h) hroot
      · exact absurd (Or.inr h) hroot
      · exact h

/-! ## The list -/

/-- A name in the data is looked up by its characters. -/
theorem findSvc_some {d : List UInt8} {p len : Nat} (h : p + 2 * len ≤ d.length)
    (l : List svcinfo) :
    Services.findSvc d (some p) len l = .ok (l.find? fun si => si.name = chars d p len) := by
  induction l with
  | nil => rfl
  | cons si l ih =>
    unfold Services.findSvc
    by_cases hlen : len = si.len
    · subst hlen
      unfold svcinfo.len at *
      simp only [if_true, memEq, h]
      by_cases hname : chars d p si.name.length = si.name
      · rw [List.find?_cons_of_pos (by simp [hname])]
        simp [hname, bind, Except.bind, pure, Except.pure]
      · rw [List.find?_cons_of_neg (by simpa using fun h => hname h.symm), ← ih]
        simp [hname, bind, Except.bind]
    · have hname : ¬ si.name = chars d p len := by
        intro heq
        apply hlen
        rw [svcinfo.len, heq, length_chars]
      rw [if_neg hlen, ih, List.find?_cons_of_neg (by simpa using hname)]

/-- A missing name is looked up only if no name has its length. -/
theorem findSvc_none (d : List UInt8) (len : Nat) (l : List svcinfo) {r : Option svcinfo}
    (h : Services.findSvc d none len l = .ok r) : r = none := by
  induction l with
  | nil =>
    cases h
    rfl
  | cons si l ih =>
    unfold Services.findSvc at h
    split at h
    · cases h
    · exact ih h

/-- The entry `si` with this handle from now on. -/
def Services.override (b : Services) (si : svcinfo) (ptr : BitVec 32) : Services :=
  if si.ptr ≠ 0 then ((b.svcinfoDeath si.addr).setPtr si.addr ptr).link ptr si.addr
  else (b.setPtr si.addr ptr).link ptr si.addr

/-- A new entry, at the head of the list. -/
def Services.enter (b : Services) (name : String16) (ptr : BitVec 32) (allow_isolated : Bool) :
    Services :=
  { b with svclist := ⟨b.svclist.length, ptr, allow_isolated, name⟩ :: b.svclist }.link ptr
    b.svclist.length

/-- What a successful registration does. -/
def Services.register (b : Services) (name : String16) (ptr : BitVec 32) (allow_isolated : Bool) :
    Services :=
  match b.svclist.find? fun si => si.name = name with
  | some si => b.override si ptr
  | none => b.enter name ptr allow_isolated

/-- `str8` for the log, and then `a`. -/
def logged {α : Type} (d : List UInt8) (s : Option Nat) (a : α) : Except Fault α :=
  (str8 d s).map fun _ => a

theorem logged_eq {α : Type} {d : List UInt8} {p : Nat} {a a' : α} :
    logged d (some p) a = .ok a' ↔ Terminated d p ∧ a' = a := by
  unfold logged
  rw [← str8_ok_iff]
  cases str8 d (some p) with
  | ok s =>
    constructor
    · intro h
      cases h
      exact ⟨⟨s, rfl⟩, rfl⟩
    · rintro ⟨-, rfl⟩
      rfl
  | error e =>
    constructor
    · intro h
      cases h
    · rintro ⟨⟨s, hs⟩, -⟩
      cases hs

/-- A registration with a handle and a name that is there. -/
theorem doAddService_eq {b : Services} {d : List UInt8} {p len uid k : Nat} {ptr : BitVec 32}
    {allow_isolated malloc : Bool} (hptr : ptr ≠ 0) (hpos : len ≠ 0) (hlen : len ≤ 127)
    (hin : p + 2 * (len + 1) ≤ d.length) (hk : p + 2 * k + 2 ≤ d.length)
    (hstop : 127 < (charAt d (p + 2 * k)).toNat) :
    b.doAddService d (some p) len ptr uid allow_isolated malloc =
      if MayRegister d uid p then
        match b.svclist.find? fun si => si.name = chars d p len with
        | some si =>
          if si.ptr ≠ 0 then logged d (some p) (0, b.register (chars d p len) ptr allow_isolated)
          else .ok (0, b.register (chars d p len) ptr allow_isolated)
        | none =>
          if malloc then .ok (0, b.register (chars d p len) ptr allow_isolated)
          else logged d (some p) (-1, b)
      else logged d (some p) (-1, b) := by
  unfold Services.doAddService
  have hvalid : ¬ (ptr = 0 ∨ len = 0 ∨ 127 < len) := by
    rintro (h | h | h)
    · exact hptr h
    · exact hpos h
    · omega
  rw [if_neg hvalid, svcCanRegister_eq hk hstop, findSvc_some (by omega)]
  by_cases hmay : MayRegister d uid p
  · rw [if_pos hmay, decide_eq_true hmay]
    show (match b.svclist.find? fun si => si.name = chars d p len with
      | some si => _
      | none => _ : Except Fault (Int × Services)) = _
    cases hfind : b.svclist.find? fun si => si.name = chars d p len with
    | some si =>
      have hreg : b.register (chars d p len) ptr allow_isolated = b.override si ptr := by
        unfold Services.register
        rw [hfind]
      rw [hreg]
      unfold Services.override
      dsimp only
      split
      · unfold logged
        cases str8 d (some p) <;> rfl
      · rfl
    | none =>
      have hreg : b.register (chars d p len) ptr allow_isolated =
          b.enter (chars d p len) ptr allow_isolated := by
        unfold Services.register
        rw [hfind]
      rw [hreg]
      cases malloc with
      | true =>
        dsimp only
        rw [if_pos hin]
        rfl
      | false =>
        unfold logged
        cases str8 d (some p) <;> rfl
  · rw [if_neg hmay, decide_eq_false hmay]
    unfold logged
    cases str8 d (some p) <;> rfl

/-- Without a handle, or with a name of no length or too long, nothing is looked at. -/
theorem doAddService_invalid {b : Services} {d : List UInt8} {s : Option Nat} {len uid : Nat}
    {ptr : BitVec 32} {allow_isolated malloc : Bool} (h : ptr = 0 ∨ len = 0 ∨ 127 < len) :
    b.doAddService d s len ptr uid allow_isolated malloc = .ok (-1, b) := by
  unfold Services.doAddService
  rw [if_pos h]
  rfl

/-! ## Cursors -/

section Cursors
variable {d : List UInt8} {offs : List (BitVec 32)} {p : Nat}

/-- The cursor at `p`, when no read has failed. -/
def cursor (d : List UInt8) (offs : List (BitVec 32)) (p : Nat) : binder_io :=
  ⟨d, p, d.length - p, offs⟩

/-- The cursor at `p`, when a read has failed. -/
def spent (d : List UInt8) (offs : List (BitVec 32)) (p : Nat) : binder_io := ⟨d, p, 0, offs⟩

/-- The length of the string at `p`, and the bytes of its characters. -/
def lenAt (d : List UInt8) (p : Nat) : BitVec 32 := wordOf (d.drop p)

def stringSize (d : List UInt8) (p : Nat) : Nat := roundUp (string16Size (lenAt d p))

theorem bioGet_cursor (hp : p ≤ d.length) (size : Nat) :
    bioGet (cursor d offs p) size = if p + roundUp size ≤ d.length
      then (some p, cursor d offs (p + roundUp size)) else (none, spent d offs p) := by
  unfold bioGet cursor
  dsimp only
  by_cases hin : p + roundUp size ≤ d.length
  · rw [if_pos hin, if_neg (by omega), Nat.sub_sub]
  · rw [if_neg hin, if_pos (by omega)]
    rfl

theorem bioGetUint32_cursor (hp : p ≤ d.length) :
    bioGetUint32 (cursor d offs p) = .ok (if p + 4 ≤ d.length
      then (lenAt d p, cursor d offs (p + 4)) else (0, spent d offs p)) := by
  unfold bioGetUint32
  rw [bioGet_cursor hp, roundUp_four]
  by_cases hin : p + 4 ≤ d.length
  · rw [if_pos hin, if_pos hin]
    simp only [readUint32, cursor, hin, if_true]
    rfl
  · rw [if_neg hin, if_neg hin]
    rfl

theorem bioGetString16_cursor (hp : p ≤ d.length) :
    bioGetString16 (cursor d offs p) = .ok (if p + 4 ≤ d.length
      then if p + 4 + stringSize d p ≤ d.length
        then (some (p + 4), lenAt d p, cursor d offs (p + 4 + stringSize d p))
        else (none, lenAt d p, spent d offs (p + 4))
      else (none, 0, spent d offs p)) := by
  unfold bioGetString16
  rw [bioGetUint32_cursor hp]
  by_cases hin : p + 4 ≤ d.length
  · rw [if_pos hin, if_pos hin]
    show Except.ok ((bioGet (cursor d offs (p + 4)) (string16Size (lenAt d p))).1, lenAt d p,
      (bioGet (cursor d offs (p + 4)) (string16Size (lenAt d p))).2) = _
    rw [bioGet_cursor hin]
    unfold stringSize
    split <;> rfl
  · rw [if_neg hin, if_neg hin]
    rfl

/-- The handle of the object at `p`. -/
def refAt (d : List UInt8) (p : Nat) : BitVec 32 :=
  if wordOf (d.drop p) = BINDER_TYPE_HANDLE then wordOf (d.drop (p + 8)) else 0

/-- The offsets have an object at `p`, and the data has it. -/
def HasObject (d : List UInt8) (offs : List (BitVec 32)) (p : Nat) : Prop :=
  (∃ off ∈ offs, off.toNat = p) ∧ p + 16 ≤ d.length

instance : Decidable (HasObject d offs p) := inferInstanceAs (Decidable (_ ∧ _))

theorem bioGetRef_cursor (hp : p ≤ d.length) :
    bioGetRef (cursor d offs p) = .ok (if HasObject d offs p
      then (refAt d p, cursor d offs (p + 16)) else (0, spent d offs p)) := by
  have hany : ((cursor d offs p).offs.any fun off => off.toNat = (cursor d offs p).data) = true ↔
      ∃ off ∈ offs, off.toNat = p := by
    rw [List.any_eq_true]
    constructor
    · rintro ⟨off, hoff, heq⟩
      exact ⟨off, hoff, of_decide_eq_true heq⟩
    · rintro ⟨off, hoff, heq⟩
      exact ⟨off, hoff, decide_eq_true heq⟩
  unfold bioGetRef bioGetObj
  by_cases hoff : ∃ off ∈ offs, off.toNat = p
  · rw [if_pos (hany.mpr hoff), bioGet_cursor hp, roundUp_sixteen]
    by_cases hin : p + 16 ≤ d.length
    · have htype : p + 4 ≤ d.length := by omega
      have hptr : p + 8 + 4 ≤ d.length := by omega
      rw [if_pos hin, if_pos (show HasObject d offs p from ⟨hoff, hin⟩)]
      simp only [readUint32, cursor, htype, hptr, if_true, refAt]
      show (if wordOf (d.drop p) = BINDER_TYPE_HANDLE then _ else _ :
        Except Fault (BitVec 32 × binder_io)) = _
      split <;> rfl
    · rw [if_neg hin, if_neg fun h : HasObject d offs p => hin h.2]
      rfl
  · rw [if_neg fun h => hoff (hany.mp h), if_neg fun h : HasObject d offs p => hoff h.1]
    rfl

theorem bioGetRef_spent : bioGetRef (spent d offs p) = .ok (0, spent d offs p) := by
  have hobj : bioGetObj (spent d offs p) = (none, spent d offs p) := by
    unfold bioGetObj
    split <;> rfl
  unfold bioGetRef
  rw [hobj]
  rfl

/-- The rounded size of a string is at most that of its characters, and is that of a
string that is not too long. -/
theorem stringSize_le (d : List UInt8) (p : Nat) :
    stringSize d p ≤ padSize (((lenAt d p).toNat + 1) * 2) := by
  unfold stringSize string16Size roundUp padSize
  omega

theorem stringSize_eq (h : (lenAt d p).toNat ≤ 127) :
    stringSize d p = padSize (((lenAt d p).toNat + 1) * 2) := by
  unfold stringSize string16Size roundUp padSize
  omega

theorem le_padSize (n : Nat) : n ≤ padSize n := by
  unfold padSize
  omega

/-- The character at `p` is the low half of the word there. -/
theorem charAt_of_word (d : List UInt8) (p : Nat) :
    (charAt d p).toNat = (wordOf (d.drop p)).toNat % 65536 := by
  have h0 := ((d.drop p).getD 0 0).toNat_lt
  have h1 := ((d.drop p).getD 1 0).toNat_lt
  have h2 := ((d.drop p).getD 2 0).toNat_lt
  have h3 := ((d.drop p).getD 3 0).toNat_lt
  unfold charAt wordOf
  simp only [BitVec.toNat_ofNat]
  omega

end Cursors

/-! ## The interface name -/

/-- The message begins with the name of the interface. -/
def HeaderOk (d : List UInt8) : Prop :=
  64 ≤ d.length ∧ (lenAt d 4).toNat = 26 ∧ chars d 8 26 = svcmgr_id

instance (d : List UInt8) : Decidable (HeaderOk d) := inferInstanceAs (Decidable (_ ∧ _))

/-- Another name is compared, and goes to the log. -/
def HeaderLogged (d : List UInt8) : Prop :=
  d.length < 8 ∨ (d.length < 8 + stringSize d 4 ∧ (lenAt d 4).toNat ≠ 26) ∨
    (8 + stringSize d 4 ≤ d.length ∧ Terminated d 8)

instance (d : List UInt8) : Decidable (HeaderLogged d) :=
  inferInstanceAs (Decidable (_ ∨ _ ∨ _))

theorem length_svcmgr_id : svcmgr_id.length = 26 := by decide +kernel

theorem stringSize_id {d : List UInt8} {p : Nat} (h : (lenAt d p).toNat = 26) :
    stringSize d p = 56 := by
  unfold stringSize string16Size
  rw [h]
  rfl

section Handler
variable {b : Services} {malloc : Bool} {txn : binder_txn} {reply : reply_io}

/-- The handler of a request to the service manager, up to the `switch`. -/
theorem svcmgrHandler_eq (ht : txn.target = svcmgr_handle) :
    svcmgrHandler b malloc txn reply =
      if 8 ≤ txn.data.length then
        if 8 + stringSize txn.data 4 ≤ txn.data.length then
          if HeaderOk txn.data then svcmgrSwitch b malloc txn (cursor txn.data txn.offs 64) reply
          else logged txn.data (some 8) ⟨-1, reply, b⟩
        else if (lenAt txn.data 4).toNat = 26 then .error .null
        else .ok ⟨-1, reply, b⟩
      else .ok ⟨-1, reply, b⟩ := by
  have hinit : bioInitFromTxn txn = cursor txn.data txn.offs 0 := rfl
  unfold svcmgrHandler
  rw [if_neg (fun h => h ht), hinit, bioGetUint32_cursor (Nat.zero_le _)]
  by_cases h4 : 0 + 4 ≤ txn.data.length
  · rw [if_pos h4]
    show (bioGetString16 (cursor txn.data txn.offs 4) >>= fun __x => _ : Except Fault Handled) = _
    rw [bioGetString16_cursor (by omega)]
    by_cases h8 : 4 + 4 ≤ txn.data.length
    · rw [if_pos h8, if_pos h8]
      by_cases hs : 4 + 4 + stringSize txn.data 4 ≤ txn.data.length
      · rw [if_pos hs, if_pos hs]
        show (isSvcmgrId txn.data (some 8) (lenAt txn.data 4) >>= fun __x => _ :
          Except Fault Handled) = _
        unfold isSvcmgrId
        rw [length_svcmgr_id]
        by_cases hlen : (lenAt txn.data 4).toNat = 26
        · have h64 : 64 ≤ txn.data.length := by
            rw [stringSize_id hlen] at hs
            omega
          have hin : 8 + 2 * svcmgr_id.length ≤ txn.data.length := by
            rw [length_svcmgr_id]
            omega
          rw [if_neg (by simpa using hlen), memEq]
          dsimp only
          rw [if_pos hin, length_svcmgr_id]
          by_cases hid : chars txn.data 8 26 = svcmgr_id
          · rw [if_pos (show HeaderOk txn.data from ⟨h64, hlen, hid⟩), decide_eq_true hid,
              stringSize_id hlen]
            rfl
          · rw [if_neg (fun h : HeaderOk txn.data => hid h.2.2), decide_eq_false hid]
            unfold logged
            show (str8 txn.data (some 8) >>= fun __x => _ : Except Fault Handled) = _
            cases str8 txn.data (some 8) <;> rfl
        · rw [if_pos (by simpa using hlen), if_neg (fun h : HeaderOk txn.data => hlen h.2.1)]
          unfold logged
          show (str8 txn.data (some 8) >>= fun __x => _ : Except Fault Handled) = _
          cases str8 txn.data (some 8) <;> rfl
      · rw [if_neg hs, if_neg hs]
        show (isSvcmgrId txn.data none (lenAt txn.data 4) >>= fun __x => _ :
          Except Fault Handled) = _
        unfold isSvcmgrId
        rw [length_svcmgr_id]
        by_cases hlen : (lenAt txn.data 4).toNat = 26
        · rw [if_neg (by simpa using hlen), if_pos hlen]
          rfl
        · rw [if_pos (by simpa using hlen), if_neg hlen]
          rfl
    · rw [if_neg h8, if_neg h8]
      rfl
  · rw [if_neg h4, if_neg (by omega)]
    rfl

/-- Behind the right header, the handler goes on with the code. -/
theorem svcmgrHandler_of_header (ht : txn.target = svcmgr_handle) (h : HeaderOk txn.data) :
    svcmgrHandler b malloc txn reply =
      svcmgrSwitch b malloc txn (cursor txn.data txn.offs 64) reply := by
  have h64 := h.1
  rw [svcmgrHandler_eq ht, stringSize_id h.2.1, if_pos (by omega), if_pos (by omega), if_pos h]

/-! ## The requests -/

/-- What a lookup of `name` finds. -/
def Services.lookup (b : Services) (name : String16) (uid : Nat) : BitVec 32 :=
  match b.svclist.find? fun si => si.name = name with
  | none => 0
  | some si =>
    if si.ptr ≠ 0 then if ¬ si.allow_isolated ∧ isolated uid then 0 else si.ptr else 0

theorem doFindService_some {d : List UInt8} {p len : Nat} (h : p + 2 * len ≤ d.length)
    (uid : Nat) : b.doFindService d (some p) len uid = .ok (b.lookup (chars d p len) uid) := by
  unfold Services.doFindService Services.lookup
  rw [findSvc_some h]
  show (match b.svclist.find? fun si => si.name = chars d p len with
    | none => _
    | some si => _ : Except Fault (BitVec 32)) = _
  cases b.svclist.find? fun si => si.name = chars d p len with
  | none => rfl
  | some si =>
    dsimp only
    split
    · split <;> rfl
    · rfl

/-- The reply of a lookup. -/
def replyRef (reply : reply_io) (ptr : BitVec 32) : reply_io :=
  if ptr = 0 then bioPutUint32 reply 0 else bioPutRef reply ptr

theorem onGetService_res {msg : binder_io} {h : Handled}
    (hg : onGetService b txn msg reply = .ok h) : h.res = 0 ∧ h.services = b := by
  unfold onGetService at hg
  obtain ⟨⟨s, len, msg⟩, -, hg⟩ := bind_ok hg
  obtain ⟨ptr, -, hg⟩ := bind_ok hg
  split at hg <;> cases hg <;> exact ⟨rfl, rfl⟩

theorem onGetService_eq (hin : 68 ≤ txn.data.length)
    (hs : 68 + stringSize txn.data 64 ≤ txn.data.length)
    (hlen : 68 + 2 * (lenAt txn.data 64).toNat ≤ txn.data.length) :
    onGetService b txn (cursor txn.data txn.offs 64) reply =
      .ok ⟨0, replyRef reply (b.lookup (chars txn.data 68 (lenAt txn.data 64).toNat)
        txn.sender_euid), b⟩ := by
  unfold onGetService
  rw [bioGetString16_cursor (by omega), if_pos hin, if_pos hs]
  show (b.doFindService txn.data (some 68) (lenAt txn.data 64).toNat txn.sender_euid >>=
    fun ptr => _ : Except Fault Handled) = _
  rw [doFindService_some hlen]
  unfold replyRef
  show (if b.lookup _ _ = 0 then _ else _ : Except Fault Handled) = _
  split <;> rfl

/-- The flag behind the object at `p`. -/
def flagAt (d : List UInt8) (p : Nat) : Bool :=
  if p + 4 ≤ d.length then lenAt d p ≠ 0 else false

/-- The name of an add, as many characters as the message says. -/
def addName (d : List UInt8) : String16 := chars d 68 (lenAt d 64).toNat

/-- What the handler answers to an add. -/
def addReply (reply : reply_io) : Int × Services → Handled
  | (res, b) => if res ≠ 0 then ⟨-1, reply, b⟩ else ⟨0, bioPutUint32 reply 0, b⟩

/-- An add has an object at this place, behind the name. -/
def addEnd (d : List UInt8) : Nat := 68 + stringSize d 64

theorem onAddService_eq (h64 : 64 ≤ txn.data.length) :
    onAddService b malloc txn (cursor txn.data txn.offs 64) reply =
      if 68 ≤ txn.data.length ∧ HasObject txn.data txn.offs (addEnd txn.data) then
        (b.doAddService txn.data (some 68) (lenAt txn.data 64).toNat
          (refAt txn.data (addEnd txn.data)) txn.sender_euid
          (flagAt txn.data (addEnd txn.data + 16)) malloc).map (addReply reply)
      else .ok ⟨-1, reply, b⟩ := by
  have hfinish : ∀ x : Except Fault (Int × Services), (x >>= fun __x => match __x with
      | (res, b) => if res ≠ 0 then pure ⟨-1, reply, b⟩ else pure ⟨0, bioPutUint32 reply 0, b⟩) =
      x.map (addReply reply) := by
    intro x
    cases x with
    | error e => rfl
    | ok r =>
      obtain ⟨res, b⟩ := r
      show (if res ≠ 0 then _ else _ : Except Fault Handled) = .ok (if res ≠ 0 then _ else _)
      split <;> rfl
  have hnull : ∀ (s : Option Nat) (len : BitVec 32), (b.doAddService txn.data s len.toNat 0
      txn.sender_euid (decide ((0 : BitVec 32) ≠ 0)) malloc).map (addReply reply) =
      .ok ⟨-1, reply, b⟩ := by
    intro s len
    rw [doAddService_invalid (Or.inl rfl)]
    rfl
  unfold onAddService
  rw [bioGetString16_cursor h64]
  by_cases h68 : 64 + 4 ≤ txn.data.length
  · rw [if_pos h68]
    by_cases hs : 64 + 4 + stringSize txn.data 64 ≤ txn.data.length
    · rw [if_pos hs]
      show (bioGetRef (cursor txn.data txn.offs (addEnd txn.data)) >>= fun __x => _ :
        Except Fault Handled) = _
      rw [bioGetRef_cursor (show addEnd txn.data ≤ txn.data.length from hs)]
      by_cases hobj : HasObject txn.data txn.offs (addEnd txn.data)
      · rw [if_pos hobj, if_pos ⟨h68, hobj⟩]
        show (bioGetUint32 (cursor txn.data txn.offs (addEnd txn.data + 16)) >>= fun __x => _ :
          Except Fault Handled) = _
        rw [bioGetUint32_cursor hobj.2, ← hfinish]
        unfold flagAt
        split <;> rfl
      · rw [if_neg hobj, if_neg fun h => hobj h.2]
        exact (hfinish _).trans (hnull (some 68) (lenAt txn.data 64))
    · have hobj : ¬ HasObject txn.data txn.offs (addEnd txn.data) := by
        intro hobj
        have hend := hobj.2
        unfold addEnd at hend
        omega
      rw [if_neg hs, if_neg fun h => hobj h.2]
      show (bioGetRef (spent txn.data txn.offs 68) >>= fun __x => _ : Except Fault Handled) = _
      rw [bioGetRef_spent]
      exact (hfinish _).trans (hnull none (lenAt txn.data 64))
  · rw [if_neg h68, if_neg fun h => h68 h.1]
    show (bioGetRef (spent txn.data txn.offs 64) >>= fun __x => _ : Except Fault Handled) = _
    rw [bioGetRef_spent]
    exact (hfinish _).trans (hnull none 0)

/-- The type of a handle is not ASCII. -/
theorem charAt_handle {d : List UInt8} {p : Nat} (h : refAt d p ≠ 0) :
    127 < (charAt d p).toNat := by
  have htype : wordOf (d.drop p) = BINDER_TYPE_HANDLE := by
    by_contra hnot
    unfold refAt at h
    rw [if_neg hnot] at h
    exact h rfl
  rw [charAt_of_word, htype]
  decide

/-- What `b` is after the registration. -/
def registered (b : Services) (txn : binder_txn) : Services :=
  b.register (addName txn.data) (refAt txn.data (addEnd txn.data))
    (flagAt txn.data (addEnd txn.data + 16))

/-- A valid add is compared, looked up and entered. -/
theorem onAddService_valid (hh : HeaderOk txn.data)
    (hobj : HasObject txn.data txn.offs (addEnd txn.data))
    (hptr : refAt txn.data (addEnd txn.data) ≠ 0) (hpos : (lenAt txn.data 64).toNat ≠ 0)
    (hlen : (lenAt txn.data 64).toNat ≤ 127) :
    onAddService b malloc txn (cursor txn.data txn.offs 64) reply =
      (if MayRegister txn.data txn.sender_euid 68 then
        match b.svclist.find? fun si => si.name = addName txn.data with
        | some si =>
          if si.ptr ≠ 0 then logged txn.data (some 68) (0, registered b txn)
          else .ok (0, registered b txn)
        | none =>
          if malloc then .ok (0, registered b txn) else logged txn.data (some 68) (-1, b)
      else logged txn.data (some 68) (-1, b)).map (addReply reply) := by
  have hsize := stringSize_eq (d := txn.data) hlen
  have hpad := le_padSize (((lenAt txn.data 64).toNat + 1) * 2)
  have hfour : padSize (((lenAt txn.data 64).toNat + 1) * 2) % 4 = 0 := by
    unfold padSize
    omega
  have hin := hobj.2
  have hplace : addEnd txn.data = 68 + 2 * (stringSize txn.data 64 / 2) := by
    unfold addEnd
    omega
  have h68 : 68 ≤ addEnd txn.data := Nat.le_add_right _ _
  rw [onAddService_eq hh.1, if_pos ⟨by omega, hobj⟩,
    doAddService_eq hptr hpos hlen (by unfold addEnd at hin; omega)
      (by rw [← hplace]; omega) (by rw [← hplace]; exact charAt_handle hptr)]
  rfl

end Handler

/-! ## Messages that are too short -/

/-- Where the string at `p` ends, with its zero and up to the next word. -/
def stringEnd (d : List UInt8) (p : Nat) : Nat := p + 4 + padSize (((lenAt d p).toNat + 1) * 2)

/-- The message has all that a request with its code consists of: the name of the interface
and, behind it, the name of the service, an object and a flag, or an index. -/
def Complete (txn : binder_txn) : Prop :=
  8 ≤ txn.data.length ∧ stringEnd txn.data 4 ≤ txn.data.length ∧
  (txn.code = SVC_MGR_GET_SERVICE ∨ txn.code = SVC_MGR_CHECK_SERVICE →
    stringEnd txn.data 4 + 4 ≤ txn.data.length ∧
      stringEnd txn.data (stringEnd txn.data 4) ≤ txn.data.length) ∧
  (txn.code = SVC_MGR_ADD_SERVICE →
    stringEnd txn.data 4 + 4 ≤ txn.data.length ∧
      stringEnd txn.data (stringEnd txn.data 4) + 20 ≤ txn.data.length) ∧
  (txn.code = SVC_MGR_LIST_SERVICES → stringEnd txn.data 4 + 4 ≤ txn.data.length)

/-- The handler comes to an end, and a message that is too short gets an error and
registers nothing. -/
def Safe (b : Services) (malloc : Bool) (txn : binder_txn) (reply : reply_io) : Prop :=
  ∃ h, svcmgrHandler b malloc txn reply = .ok h ∧
    (¬ Complete txn → h.res ≠ 0 ∧ h.services = b)

/-- An add that is refused for its handle or the length of its name, or whose name is
terminated where it goes to the log, and that has its flag where it is registered. -/
def AddOk (b : Services) (malloc : Bool) (txn : binder_txn) : Prop :=
  68 ≤ txn.data.length → HasObject txn.data txn.offs (addEnd txn.data) →
  refAt txn.data (addEnd txn.data) ≠ 0 → (lenAt txn.data 64).toNat ≠ 0 →
  (lenAt txn.data 64).toNat ≤ 127 →
    if MayRegister txn.data txn.sender_euid 68 then
      match b.svclist.find? fun si => si.name = addName txn.data with
      | some si => addEnd txn.data + 20 ≤ txn.data.length ∧ (si.ptr ≠ 0 → Terminated txn.data 68)
      | none => if malloc then addEnd txn.data + 20 ≤ txn.data.length else Terminated txn.data 68
    else Terminated txn.data 68

/-- What a message has to be like to be answered as it should. -/
def Careful (b : Services) (malloc : Bool) (txn : binder_txn) : Prop :=
  if txn.target ≠ svcmgr_handle then True
  else if ¬ HeaderOk txn.data then HeaderLogged txn.data
  else if txn.code = SVC_MGR_GET_SERVICE ∨ txn.code = SVC_MGR_CHECK_SERVICE then
    68 ≤ txn.data.length ∧ stringEnd txn.data 64 ≤ txn.data.length
  else if txn.code = SVC_MGR_ADD_SERVICE then AddOk b malloc txn
  else if txn.code = SVC_MGR_LIST_SERVICES then 68 ≤ txn.data.length ∨ b.svclist = []
  else True

section Short
variable {b : Services} {malloc : Bool} {txn : binder_txn} {reply : reply_io}

theorem refused (b : Services) (reply : reply_io) :
    (Handled.mk (-1) reply b).res ≠ 0 ∧ (Handled.mk (-1) reply b).services = b :=
  ⟨show (-1 : Int) ≠ 0 by decide, rfl⟩

theorem stringEnd_header (h : HeaderOk txn.data) : stringEnd txn.data 4 = 64 := by
  unfold stringEnd
  rw [h.2.1]
  rfl

theorem safe_get (h : HeaderOk txn.data)
    (hcode : txn.code = SVC_MGR_GET_SERVICE ∨ txn.code = SVC_MGR_CHECK_SERVICE) :
    (∃ r, onGetService b txn (cursor txn.data txn.offs 64) reply = .ok r ∧
      (¬ Complete txn → r.res ≠ 0 ∧ r.services = b)) ↔
    68 ≤ txn.data.length ∧ stringEnd txn.data 64 ≤ txn.data.length := by
  constructor
  · rintro ⟨r, hr, hshort⟩
    have hres := (onGetService_res hr).1
    have hcomplete : Complete txn := by
      by_contra hnot
      exact (hshort hnot).1 hres
    have hname := hcomplete.2.2.1 hcode
    rw [stringEnd_header h] at hname
    exact hname
  · rintro ⟨h68, hend⟩
    have hle := stringSize_le txn.data 64
    have hpad := le_padSize (((lenAt txn.data 64).toNat + 1) * 2)
    unfold stringEnd at hend
    refine ⟨_, onGetService_eq h68 (by omega) (by omega), ?_⟩
    intro hnot
    refine absurd ⟨by omega, ?_, ?_, ?_, ?_⟩ hnot
    · rw [stringEnd_header h]
      omega
    · intro _
      rw [stringEnd_header h]
      exact ⟨h68, hend⟩
    · intro hadd
      rw [hadd] at hcode
      exact absurd hcode (by decide)
    · intro hlist
      rw [hlist] at hcode
      exact absurd hcode (by decide)

theorem onListServices_eq (h64 : 64 ≤ txn.data.length) :
    onListServices b (cursor txn.data txn.offs 64) reply =
      match b.svclist[(if 68 ≤ txn.data.length then lenAt txn.data 64 else 0).toNat]? with
      | some si => .ok ⟨0, bioPutString16 reply si.name, b⟩
      | none => .ok ⟨-1, reply, b⟩ := by
  unfold onListServices
  rw [bioGetUint32_cursor h64]
  by_cases h68 : 64 + 4 ≤ txn.data.length
  · rw [if_pos h68, if_pos h68]
    rfl
  · rw [if_neg h68, if_neg h68]
    rfl

theorem safe_list (h : HeaderOk txn.data) (hcode : txn.code = SVC_MGR_LIST_SERVICES) :
    (∃ r, onListServices b (cursor txn.data txn.offs 64) reply = .ok r ∧
      (¬ Complete txn → r.res ≠ 0 ∧ r.services = b)) ↔
    68 ≤ txn.data.length ∨ b.svclist = [] := by
  have hcomplete : Complete txn ↔ 68 ≤ txn.data.length := by
    unfold Complete
    rw [stringEnd_header h, hcode]
    constructor
    · exact fun hc => hc.2.2.2.2 rfl
    · intro h68
      exact ⟨by omega, h.1, fun hget => absurd hget (by decide),
        fun hadd => absurd hadd (by decide), fun _ => h68⟩
  rw [onListServices_eq h.1, hcomplete]
  by_cases h68 : 68 ≤ txn.data.length
  · constructor
    · exact fun _ => Or.inl h68
    · intro _
      split
      · exact ⟨_, rfl, fun hnot => absurd h68 hnot⟩
      · exact ⟨_, rfl, fun hnot => absurd h68 hnot⟩
  · rw [if_neg h68]
    cases hl : b.svclist with
    | nil => exact ⟨fun _ => Or.inr rfl, fun _ => ⟨_, rfl, fun _ => refused b reply⟩⟩
    | cons si rest =>
      constructor
      · rintro ⟨r, hr, hshort⟩
        cases hr
        exact absurd rfl (hshort h68).1
      · rintro (h68' | hnil)
        · exact absurd h68' h68
        · cases hnil

theorem complete_add (h : HeaderOk txn.data) (hcode : txn.code = SVC_MGR_ADD_SERVICE)
    (hlen : (lenAt txn.data 64).toNat ≤ 127) :
    Complete txn ↔ addEnd txn.data + 20 ≤ txn.data.length := by
  have hend : stringEnd txn.data 64 = addEnd txn.data := by
    unfold stringEnd addEnd
    rw [stringSize_eq hlen]
  unfold Complete
  rw [stringEnd_header h, hcode, hend]
  constructor
  · exact fun hc => (hc.2.2.2.1 rfl).2
  · intro h20
    have hle : 68 ≤ addEnd txn.data := Nat.le_add_right _ _
    exact ⟨by omega, h.1, fun hget => absurd hget (by decide), fun _ => ⟨by omega, h20⟩,
      fun hlist => absurd hlist (by decide)⟩

theorem logged_map {α β : Type} (d : List UInt8) (s : Option Nat) (a : α) (f : α → β) :
    (logged d s a).map f = logged d s (f a) := by
  unfold logged
  cases str8 d s <;> rfl

theorem safe_add (h : HeaderOk txn.data) (hcode : txn.code = SVC_MGR_ADD_SERVICE) :
    (∃ r, onAddService b malloc txn (cursor txn.data txn.offs 64) reply = .ok r ∧
      (¬ Complete txn → r.res ≠ 0 ∧ r.services = b)) ↔ AddOk b malloc txn := by
  by_cases hobj : 68 ≤ txn.data.length ∧ HasObject txn.data txn.offs (addEnd txn.data)
  · by_cases hvalid : refAt txn.data (addEnd txn.data) ≠ 0 ∧ (lenAt txn.data 64).toNat ≠ 0 ∧
        (lenAt txn.data 64).toNat ≤ 127
    · obtain ⟨hptr, hpos, hlen⟩ := hvalid
      have hcomplete := complete_add h hcode hlen
      have hok : AddOk b malloc txn ↔ _ :=
        ⟨fun hok => hok hobj.1 hobj.2 hptr hpos hlen, fun hok _ _ _ _ _ => hok⟩
      rw [hok, onAddService_valid h hobj.2 hptr hpos hlen]
      by_cases hmay : MayRegister txn.data txn.sender_euid 68
      · rw [if_pos hmay, if_pos hmay]
        cases b.svclist.find? fun si => si.name = addName txn.data with
        | some si =>
          dsimp only
          rw [← hcomplete]
          by_cases hlive : si.ptr ≠ 0
          · rw [if_pos hlive, logged_map]
            constructor
            · rintro ⟨r, hr, hshort⟩
              obtain ⟨hterm, rfl⟩ := logged_eq.mp hr
              refine ⟨?_, fun _ => hterm⟩
              by_contra hnot
              exact (hshort hnot).1 rfl
            · rintro ⟨hc, hterm⟩
              exact ⟨_, logged_eq.mpr ⟨hterm hlive, rfl⟩, fun hnot => absurd hc hnot⟩
          · rw [if_neg hlive]
            constructor
            · rintro ⟨r, hr, hshort⟩
              cases hr
              refine ⟨?_, fun hl => absurd hl hlive⟩
              by_contra hnot
              exact (hshort hnot).1 rfl
            · rintro ⟨hc, -⟩
              exact ⟨_, rfl, fun hnot => absurd hc hnot⟩
        | none =>
          dsimp only
          rw [← hcomplete]
          cases malloc with
          | true =>
            constructor
            · rintro ⟨r, hr, hshort⟩
              cases hr
              show Complete txn
              by_contra hnot
              exact (hshort hnot).1 rfl
            · intro hc
              exact ⟨_, rfl, fun hnot => absurd hc hnot⟩
          | false =>
            show (∃ r, (logged txn.data (some 68) (-1, b)).map (addReply reply) = .ok r ∧ _) ↔
              Terminated txn.data 68
            rw [logged_map]
            constructor
            · rintro ⟨r, hr, -⟩
              exact (logged_eq.mp hr).1
            · intro hterm
              exact ⟨_, logged_eq.mpr ⟨hterm, rfl⟩, fun _ => refused b reply⟩
      · rw [if_neg hmay, if_neg hmay, logged_map]
        constructor
        · rintro ⟨r, hr, -⟩
          exact (logged_eq.mp hr).1
        · intro hterm
          exact ⟨_, logged_eq.mpr ⟨hterm, rfl⟩, fun _ => refused b reply⟩
    · have hinvalid : refAt txn.data (addEnd txn.data) = 0 ∨ (lenAt txn.data 64).toNat = 0 ∨
          127 < (lenAt txn.data 64).toNat := by
        by_contra hnot
        apply hvalid
        refine ⟨fun hz => hnot (Or.inl hz), fun hz => hnot (Or.inr (Or.inl hz)), ?_⟩
        by_contra hlt
        exact hnot (Or.inr (Or.inr (by omega)))
      rw [onAddService_eq h.1, if_pos hobj, doAddService_invalid hinvalid]
      constructor
      · intro _ _ _ hptr hpos hlen
        exact absurd ⟨hptr, hpos, hlen⟩ hvalid
      · intro _
        exact ⟨_, rfl, fun _ => refused b reply⟩
  · rw [onAddService_eq h.1, if_neg hobj]
    constructor
    · intro _ h68 ho
      exact absurd ⟨h68, ho⟩ hobj
    · intro _
      exact ⟨_, rfl, fun _ => refused b reply⟩

/-- **Message safety.** Exactly the careful messages are read inside of what was received
and, if they are too short, answered with an error. -/
theorem safe_iff (b : Services) (malloc : Bool) (txn : binder_txn) (reply : reply_io) :
    Safe b malloc txn reply ↔ Careful b malloc txn := by
  unfold Safe Careful
  by_cases ht : txn.target ≠ svcmgr_handle
  · rw [if_pos ht]
    have hres : svcmgrHandler b malloc txn reply = .ok ⟨-1, reply, b⟩ := by
      unfold svcmgrHandler
      rw [if_pos ht]
      rfl
    rw [hres]
    exact ⟨fun _ => trivial, fun _ => ⟨_, rfl, fun _ => refused b reply⟩⟩
  · rw [if_neg ht, svcmgrHandler_eq (by simpa using ht)]
    have herror : (∃ h, (Except.ok ⟨-1, reply, b⟩ : Except Fault Handled) = .ok h ∧
        (¬ Complete txn → h.res ≠ 0 ∧ h.services = b)) :=
      ⟨_, rfl, fun _ => refused b reply⟩
    by_cases h8 : 8 ≤ txn.data.length
    · rw [if_pos h8]
      by_cases hs : 8 + stringSize txn.data 4 ≤ txn.data.length
      · rw [if_pos hs]
        by_cases hok : HeaderOk txn.data
        · rw [if_pos hok, if_neg (not_not.mpr hok)]
          unfold svcmgrSwitch
          by_cases hget : txn.code = SVC_MGR_GET_SERVICE ∨ txn.code = SVC_MGR_CHECK_SERVICE
          · rw [if_pos hget, if_pos hget]
            exact safe_get hok hget
          · rw [if_neg hget, if_neg hget]
            by_cases hadd : txn.code = SVC_MGR_ADD_SERVICE
            · rw [if_pos hadd, if_pos hadd]
              exact safe_add hok hadd
            · rw [if_neg hadd, if_neg hadd]
              by_cases hlist : txn.code = SVC_MGR_LIST_SERVICES
              · rw [if_pos hlist, if_pos hlist]
                exact safe_list hok hlist
              · rw [if_neg hlist, if_neg hlist]
                exact ⟨fun _ => trivial, fun _ => herror⟩
        · rw [if_neg hok, if_pos hok]
          constructor
          · rintro ⟨r, hr, -⟩
            exact Or.inr (Or.inr ⟨hs, (logged_eq.mp hr).1⟩)
          · rintro (h | ⟨h, -⟩ | ⟨-, hterm⟩)
            · omega
            · omega
            · exact ⟨_, logged_eq.mpr ⟨hterm, rfl⟩, fun _ => refused b reply⟩
      · have hnot : ¬ HeaderOk txn.data := by
          rintro ⟨h64, hlen, -⟩
          rw [stringSize_id hlen] at hs
          omega
        rw [if_neg hs, if_pos hnot]
        by_cases hlen : (lenAt txn.data 4).toNat = 26
        · rw [if_pos hlen]
          constructor
          · rintro ⟨r, hr, -⟩
            cases hr
          · rintro (h | ⟨-, h⟩ | ⟨h, -⟩)
            · omega
            · exact absurd hlen h
            · exact absurd h hs
        · rw [if_neg hlen]
          exact ⟨fun _ => Or.inr (Or.inl ⟨by omega, hlen⟩), fun _ => herror⟩
    · have hnot : ¬ HeaderOk txn.data := by
        intro hok
        have := hok.1
        omega
      rw [if_neg h8, if_pos hnot]
      exact ⟨fun _ => Or.inl (by omega), fun _ => herror⟩

end Short

/-! ## When the handler returns -/

/-- The handler comes to an end. -/
def Returns (b : Services) (malloc : Bool) (txn : binder_txn) (reply : reply_io) : Prop :=
  ∃ h, svcmgrHandler b malloc txn reply = .ok h

/-- A name that is there is compared inside of the data, and one that is missing with no
other. -/
def NameReadable (b : Services) (d : List UInt8) : Prop :=
  if 68 ≤ d.length ∧ 68 + stringSize d 64 ≤ d.length then
    ∀ si ∈ b.svclist, (lenAt d 64).toNat = si.len → 68 + 2 * si.len ≤ d.length
  else ∀ si ∈ b.svclist, (if 68 ≤ d.length then (lenAt d 64).toNat else 0) ≠ si.len

/-- An add whose name is terminated where it goes to the log. -/
def AddReadable (b : Services) (malloc : Bool) (txn : binder_txn) : Prop :=
  68 ≤ txn.data.length → HasObject txn.data txn.offs (addEnd txn.data) →
  refAt txn.data (addEnd txn.data) ≠ 0 → (lenAt txn.data 64).toNat ≠ 0 →
  (lenAt txn.data 64).toNat ≤ 127 →
    if MayRegister txn.data txn.sender_euid 68 then
      match b.svclist.find? fun si => si.name = addName txn.data with
      | some si => si.ptr ≠ 0 → Terminated txn.data 68
      | none => malloc = false → Terminated txn.data 68
    else Terminated txn.data 68

/-- What a message has to be like to be read inside of what was received. -/
def Readable (b : Services) (malloc : Bool) (txn : binder_txn) : Prop :=
  if txn.target ≠ svcmgr_handle then True
  else if ¬ HeaderOk txn.data then HeaderLogged txn.data
  else if txn.code = SVC_MGR_GET_SERVICE ∨ txn.code = SVC_MGR_CHECK_SERVICE then
    NameReadable b txn.data
  else if txn.code = SVC_MGR_ADD_SERVICE then AddReadable b malloc txn
  else True

section Readable
variable {b : Services} {malloc : Bool} {txn : binder_txn} {reply : reply_io}

theorem findSvc_some_ok_iff {d : List UInt8} {p len : Nat} (l : List svcinfo) :
    (∃ r, Services.findSvc d (some p) len l = .ok r) ↔
      ∀ si ∈ l, len = si.len → p + 2 * si.len ≤ d.length := by
  by_cases hin : p + 2 * len ≤ d.length
  · constructor
    · intro _ si _ hlen
      rw [← hlen]
      exact hin
    · exact fun _ => ⟨_, findSvc_some hin l⟩
  · induction l with
    | nil => exact ⟨fun _ si hsi => absurd hsi List.not_mem_nil, fun _ => ⟨none, rfl⟩⟩
    | cons si l ih =>
      unfold Services.findSvc
      by_cases hlen : len = si.len
      · have hout : ¬ p + 2 * si.name.length ≤ d.length := by
          rw [hlen] at hin
          exact hin
        rw [if_pos hlen, memEq, if_neg hout]
        constructor
        · rintro ⟨r, hr⟩
          cases hr
        · intro hall
          exact absurd (hall si (List.mem_cons_self ..) hlen) hout
      · rw [if_neg hlen, ih]
        constructor
        · intro hall si' hsi' hlen'
          rcases List.mem_cons.mp hsi' with rfl | hsi'
          · exact absurd hlen' hlen
          · exact hall si' hsi' hlen'
        · exact fun hall si' hsi' => hall si' (List.mem_cons_of_mem _ hsi')

theorem findSvc_none_ok_iff {d : List UInt8} {len : Nat} (l : List svcinfo) :
    (∃ r, Services.findSvc d none len l = .ok r) ↔ ∀ si ∈ l, len ≠ si.len := by
  induction l with
  | nil => exact ⟨fun _ si hsi => absurd hsi List.not_mem_nil, fun _ => ⟨none, rfl⟩⟩
  | cons si l ih =>
    unfold Services.findSvc
    by_cases hlen : len = si.len
    · rw [if_pos hlen]
      constructor
      · rintro ⟨r, hr⟩
        cases hr
      · intro hall
        exact absurd hlen (hall si (List.mem_cons_self ..))
    · rw [if_neg hlen, ih]
      constructor
      · intro hall si' hsi'
        rcases List.mem_cons.mp hsi' with rfl | hsi'
        · exact hlen
        · exact hall si' hsi'
      · exact fun hall si' hsi' => hall si' (List.mem_cons_of_mem _ hsi')

/-- A lookup comes to an end when the list has been gone through. -/
theorem doFindService_ok_iff {d : List UInt8} {s : Option Nat} {len uid : Nat} :
    (∃ ptr, b.doFindService d s len uid = .ok ptr) ↔
      ∃ r, Services.findSvc d s len b.svclist = .ok r := by
  unfold Services.doFindService
  constructor
  · rintro ⟨ptr, hptr⟩
    obtain ⟨r, hr, -⟩ := bind_ok hptr
    exact ⟨r, hr⟩
  · rintro ⟨r, hr⟩
    rw [hr]
    cases r with
    | none => exact ⟨0, rfl⟩
    | some si =>
      show ∃ ptr, (if si.ptr ≠ 0 then
        if ¬ si.allow_isolated ∧ Services.isolated uid then _ else _ else _ :
          Except Fault (BitVec 32)) = .ok ptr
      split
      · split <;> exact ⟨_, rfl⟩
      · exact ⟨_, rfl⟩

theorem onGetService_ok_iff {msg msg' : binder_io} {s : Option Nat} {len : BitVec 32}
    (hname : bioGetString16 msg = .ok (s, len, msg')) :
    (∃ h, onGetService b txn msg reply = .ok h) ↔
      ∃ r, Services.findSvc txn.data s len.toNat b.svclist = .ok r := by
  rw [← @doFindService_ok_iff b txn.data s len.toNat txn.sender_euid]
  unfold onGetService
  rw [hname]
  show (∃ h, (b.doFindService txn.data s len.toNat txn.sender_euid >>= fun ptr => _ :
    Except Fault Handled) = .ok h) ↔ _
  constructor
  · rintro ⟨h, hok⟩
    obtain ⟨ptr, hptr, -⟩ := bind_ok hok
    exact ⟨ptr, hptr⟩
  · rintro ⟨ptr, hptr⟩
    rw [hptr]
    show ∃ h, (if ptr = 0 then _ else _ : Except Fault Handled) = .ok h
    split <;> exact ⟨_, rfl⟩

theorem returns_get (h : HeaderOk txn.data) :
    (∃ r, onGetService b txn (cursor txn.data txn.offs 64) reply = .ok r) ↔
      NameReadable b txn.data := by
  have hname := @bioGetString16_cursor txn.data txn.offs 64 h.1
  unfold NameReadable
  by_cases h68 : 64 + 4 ≤ txn.data.length
  · rw [if_pos h68] at hname
    by_cases hs : 64 + 4 + stringSize txn.data 64 ≤ txn.data.length
    · rw [if_pos hs] at hname
      rw [if_pos ⟨h68, hs⟩, onGetService_ok_iff hname, findSvc_some_ok_iff]
    · rw [if_neg hs] at hname
      rw [if_neg (fun hboth => hs hboth.2), onGetService_ok_iff hname, findSvc_none_ok_iff,
        if_pos h68]
  · rw [if_neg h68] at hname
    rw [if_neg (fun hboth => h68 hboth.1), onGetService_ok_iff hname, findSvc_none_ok_iff,
      if_neg h68]
    rfl

theorem returns_add (h : HeaderOk txn.data) :
    (∃ r, onAddService b malloc txn (cursor txn.data txn.offs 64) reply = .ok r) ↔
      AddReadable b malloc txn := by
  by_cases hobj : 68 ≤ txn.data.length ∧ HasObject txn.data txn.offs (addEnd txn.data)
  · by_cases hvalid : refAt txn.data (addEnd txn.data) = 0 ∨ (lenAt txn.data 64).toNat = 0 ∨
        127 < (lenAt txn.data 64).toNat
    · rw [onAddService_eq h.1, if_pos hobj, doAddService_invalid hvalid]
      refine ⟨?_, fun _ => ⟨_, rfl⟩⟩
      intro _ _ _ hptr hpos hlen
      rcases hvalid with hz | hz | hz
      · exact absurd hz hptr
      · exact absurd hz hpos
      · omega
    · obtain ⟨hptr, hlens⟩ := not_or.mp hvalid
      obtain ⟨hpos, hlen⟩ := not_or.mp hlens
      have hiff : AddReadable b malloc txn ↔ _ :=
        ⟨fun hr => hr hobj.1 hobj.2 hptr hpos (Nat.not_lt.mp hlen), fun hr _ _ _ _ _ => hr⟩
      rw [hiff, onAddService_valid h hobj.2 hptr hpos (Nat.not_lt.mp hlen)]
      have hlog : ∀ a : Int × Services,
          (∃ r, (logged txn.data (some 68) a).map (addReply reply) = .ok r) ↔
            Terminated txn.data 68 := by
        intro a
        rw [logged_map]
        constructor
        · rintro ⟨r, hr⟩
          exact (logged_eq.mp hr).1
        · exact fun hterm => ⟨_, logged_eq.mpr ⟨hterm, rfl⟩⟩
      by_cases hmay : MayRegister txn.data txn.sender_euid 68
      · rw [if_pos hmay, if_pos hmay]
        cases b.svclist.find? fun si => si.name = addName txn.data with
        | some si =>
          dsimp only
          by_cases hlive : si.ptr ≠ 0
          · rw [if_pos hlive, hlog]
            exact ⟨fun hterm _ => hterm, fun hterm => hterm hlive⟩
          · rw [if_neg hlive]
            exact ⟨fun _ hl => absurd hl hlive, fun _ => ⟨_, rfl⟩⟩
        | none =>
          dsimp only
          cases malloc with
          | true =>
            refine ⟨fun _ hno => ?_, fun _ => ⟨_, rfl⟩⟩
            cases hno
          | false =>
            rw [if_neg (by decide), hlog]
            exact ⟨fun hterm _ => hterm, fun hterm => hterm rfl⟩
      · rw [if_neg hmay, if_neg hmay, hlog]
  · rw [onAddService_eq h.1, if_neg hobj]
    exact ⟨fun _ h68 ho => absurd ⟨h68, ho⟩ hobj, fun _ => ⟨_, rfl⟩⟩

theorem returns_list (msg : binder_io) (hmsg : msg.Valid) :
    ∃ r, onListServices b msg reply = .ok r := by
  unfold onListServices
  rw [bioGetUint32_eq hmsg]
  show ∃ r, (match b.svclist[(word msg).toNat]? with
    | some si => _
    | none => _ : Except Fault Handled) = .ok r
  cases b.svclist[(word msg).toNat]? <;> exact ⟨_, rfl⟩

/-- Exactly the readable messages are handled to the end. -/
theorem returns_iff (b : Services) (malloc : Bool) (txn : binder_txn) (reply : reply_io) :
    Returns b malloc txn reply ↔ Readable b malloc txn := by
  unfold Returns Readable
  by_cases ht : txn.target ≠ svcmgr_handle
  · rw [if_pos ht]
    refine ⟨fun _ => trivial, fun _ => ⟨⟨-1, reply, b⟩, ?_⟩⟩
    unfold svcmgrHandler
    rw [if_pos ht]
    rfl
  · rw [if_neg ht, svcmgrHandler_eq (by simpa using ht)]
    by_cases h8 : 8 ≤ txn.data.length
    · rw [if_pos h8]
      by_cases hs : 8 + stringSize txn.data 4 ≤ txn.data.length
      · rw [if_pos hs]
        by_cases hok : HeaderOk txn.data
        · rw [if_pos hok, if_neg (not_not.mpr hok)]
          unfold svcmgrSwitch
          by_cases hget : txn.code = SVC_MGR_GET_SERVICE ∨ txn.code = SVC_MGR_CHECK_SERVICE
          · rw [if_pos hget, if_pos hget]
            exact returns_get hok
          · rw [if_neg hget, if_neg hget]
            by_cases hadd : txn.code = SVC_MGR_ADD_SERVICE
            · rw [if_pos hadd, if_pos hadd]
              exact returns_add hok
            · rw [if_neg hadd, if_neg hadd]
              refine ⟨fun _ => trivial, fun _ => ?_⟩
              split
              · apply returns_list
                have h64 := hok.1
                simp only [binder_io.Valid, cursor]
                omega
              · exact ⟨_, rfl⟩
        · rw [if_neg hok, if_pos hok]
          constructor
          · rintro ⟨r, hr⟩
            exact Or.inr (Or.inr ⟨hs, (logged_eq.mp hr).1⟩)
          · rintro (h | ⟨h, -⟩ | ⟨-, hterm⟩)
            · omega
            · omega
            · exact ⟨_, logged_eq.mpr ⟨hterm, rfl⟩⟩
      · have hnot : ¬ HeaderOk txn.data := by
          rintro ⟨h64, hlen, -⟩
          rw [stringSize_id hlen] at hs
          omega
        rw [if_neg hs, if_pos hnot]
        by_cases hlen : (lenAt txn.data 4).toNat = 26
        · rw [if_pos hlen]
          constructor
          · rintro ⟨r, hr⟩
            cases hr
          · rintro (h | ⟨-, h⟩ | ⟨h, -⟩)
            · omega
            · exact absurd hlen h
            · exact absurd h hs
        · rw [if_neg hlen]
          exact ⟨fun _ => Or.inr (Or.inl ⟨by omega, hlen⟩), fun _ => ⟨_, rfl⟩⟩
    · have hnot : ¬ HeaderOk txn.data := by
        intro hok
        have := hok.1
        omega
      rw [if_neg h8, if_pos hnot]
      exact ⟨fun _ => Or.inl (by omega), fun _ => ⟨_, rfl⟩⟩

end Readable

/-! ## Messages that are not careful -/

def fault {α : Type} : Except Fault α → Option Fault
  | .ok _ => none
  | .error e => some e

def result {α : Type} : Except Fault α → Option α
  | .ok a => some a
  | .error _ => none

instance (txn : binder_txn) : Decidable (Complete txn) :=
  inferInstanceAs (Decidable (_ ∧ _ ∧ (_ → _ ∧ _) ∧ (_ → _ ∧ _) ∧ (_ → _)))

/-- The header of a request. -/
def token : List UInt8 := (writeInterfaceToken 0 svcmgr_id).bytes

/-- The length of the interface name, and no name. -/
def namelessId : binder_txn :=
  ⟨0, SVC_MGR_CHECK_SERVICE, 10000, wordBytes 0 ++ wordBytes 26, []⟩

/-- An interface name of one character, without a zero. -/
def endlessId : binder_txn :=
  ⟨0, SVC_MGR_CHECK_SERVICE, 10000, wordBytes 0 ++ wordBytes 1 ++ wordBytes 0x410041, []⟩

/-- A lookup of no name. -/
def namelessCheck : binder_txn := ⟨0, SVC_MGR_CHECK_SERVICE, 10000, token, []⟩

/-- An add that ends with its object. -/
def flaglessAdd : binder_txn :=
  ⟨0, SVC_MGR_ADD_SERVICE, AID_NFC, token ++ (writeString16 (.ofAscii (ascii "nfc"))).bytes ++
    flat_binder_object.bytes ⟨BINDER_TYPE_HANDLE, FLAT_BINDER_FLAGS, 5, 0⟩, [76]⟩

def noServices : Services := ⟨[], []⟩

/-- Null is read, what is behind the data is read, and two messages that are too short are
answered without an error, one of them with a registration. -/
theorem not_safe :
    fault (svcmgrHandler noServices true namelessId (bioInit [])) = some .null ∧
    fault (svcmgrHandler noServices true endlessId (bioInit [])) = some .outOfBounds ∧
    ¬ Complete namelessCheck ∧
    (result (svcmgrHandler noServices true namelessCheck (bioInit []))).map Handled.res = some 0 ∧
    ¬ Complete flaglessAdd ∧
    ((result (svcmgrHandler noServices true flaglessAdd (bioInit []))).map fun h =>
      h.services.svclist.map svcinfo.ptr) = some [5] ∧
    ¬ ∀ b malloc txn reply, Safe b malloc txn reply := by
  refine ⟨by decide +kernel, by decide +kernel, by decide +kernel, by decide +kernel,
    by decide +kernel, by decide +kernel, ?_⟩
  intro h
  obtain ⟨r, hr, -⟩ := h noServices true namelessId (bioInit [])
  have hnull : fault (svcmgrHandler noServices true namelessId (bioInit [])) = some .null := by
    decide +kernel
  rw [hr] at hnull
  cases hnull

end Cdroid.Servicemanager
