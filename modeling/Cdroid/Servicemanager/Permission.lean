import Mathlib.Data.List.Basic
import Cdroid.Servicemanager.Messages

/-! Who registers what. `svc_can_register` compares the name up to its first zero, and the
list keeps and compares as many characters as the message says. The two agree on a name
whose first zero is the one behind its last character. -/

namespace Cdroid.Servicemanager
open Cdroid.Binder Cdroid.Runtime

/-- The table lists `name` for the caller. -/
def Listed (uid : Nat) (name : String16) : Prop :=
  ∃ e ∈ allowed, uid = e.1 ∧ name = String16.ofAscii e.2

instance (uid : Nat) (name : String16) : Decidable (Listed uid name) :=
  inferInstanceAs (Decidable (∃ e ∈ allowed, _))

/-- The first zero is behind the last character. -/
def EndsAtLength (d : List UInt8) : Prop :=
  0 ∉ addName d ∧ charAt d (68 + 2 * (lenAt d 64).toNat) = 0

instance (d : List UInt8) : Decidable (EndsAtLength d) := inferInstanceAs (Decidable (_ ∧ _))

/-- An add with a handle and a name that the caller may register, when there is nothing in
its way. -/
structure Admitted (b : Services) (malloc : Bool) (txn : binder_txn) : Prop where
  target : txn.target = svcmgr_handle
  header : HeaderOk txn.data
  object : HasObject txn.data txn.offs (addEnd txn.data)
  handle : refAt txn.data (addEnd txn.data) ≠ 0
  pos : (lenAt txn.data 64).toNat ≠ 0
  short : (lenAt txn.data 64).toNat ≤ 127
  may : MayRegister txn.data txn.sender_euid 68
  place : match b.svclist.find? fun si => si.name = addName txn.data with
    | some si => si.ptr ≠ 0 → Terminated txn.data 68
    | none => malloc = true

section Add
variable {b : Services} {malloc : Bool} {txn : binder_txn} {reply : reply_io}

theorem svcmgrHandler_add (ht : txn.target = svcmgr_handle) (hh : HeaderOk txn.data)
    (hcode : txn.code = SVC_MGR_ADD_SERVICE) : svcmgrHandler b malloc txn reply =
      onAddService b malloc txn (cursor txn.data txn.offs 64) reply := by
  rw [svcmgrHandler_of_header ht hh]
  unfold svcmgrSwitch
  rw [hcode, if_neg (by decide), if_pos rfl]

theorem not_logged_zero {d : List UInt8} {p : Nat} {h : Handled} (hres : h.res = 0) :
    logged d (some p) (⟨-1, reply, b⟩ : Handled) ≠ .ok h := by
  intro heq
  obtain ⟨-, rfl⟩ := logged_eq.mp heq
  cases hres

theorem not_refused_zero {h : Handled} (hres : h.res = 0) :
    (Except.ok ⟨-1, reply, b⟩ : Except Fault Handled) ≠ .ok h := by
  intro heq
  cases heq
  cases hres

/-- An add that succeeds was admitted, and is in the list. -/
theorem admitted_of_res {h : Handled} (hcode : txn.code = SVC_MGR_ADD_SERVICE)
    (hok : svcmgrHandler b malloc txn reply = .ok h) (hres : h.res = 0) :
    Admitted b malloc txn ∧ h.services = registered b txn := by
  by_cases ht : txn.target = svcmgr_handle
  · by_cases hh : HeaderOk txn.data
    · rw [svcmgrHandler_add ht hh hcode] at hok
      by_cases hobj : HasObject txn.data txn.offs (addEnd txn.data)
      · by_cases hvalid : refAt txn.data (addEnd txn.data) = 0 ∨ (lenAt txn.data 64).toNat = 0 ∨
            127 < (lenAt txn.data 64).toNat
        · rw [onAddService_eq hh.1, doAddService_invalid hvalid] at hok
          split at hok <;> exact absurd hok (not_refused_zero hres)
        · obtain ⟨hptr, hlens⟩ := not_or.mp hvalid
          obtain ⟨hpos, hlen⟩ := not_or.mp hlens
          rw [onAddService_valid hh hobj hptr hpos (Nat.not_lt.mp hlen)] at hok
          by_cases hmay : MayRegister txn.data txn.sender_euid 68
          · rw [if_pos hmay] at hok
            cases hfind : b.svclist.find? fun si => si.name = addName txn.data with
            | some si =>
              rw [hfind] at hok
              have hplace : (si.ptr ≠ 0 → Terminated txn.data 68) ∧
                  h.services = registered b txn := by
                dsimp only at hok
                split at hok
                · rw [logged_map] at hok
                  obtain ⟨hterm, rfl⟩ := logged_eq.mp hok
                  exact ⟨fun _ => hterm, rfl⟩
                · next hdead =>
                  cases hok
                  exact ⟨fun hlive => absurd hlive hdead, rfl⟩
              refine ⟨⟨ht, hh, hobj, hptr, hpos, Nat.not_lt.mp hlen, hmay, ?_⟩, hplace.2⟩
              rw [hfind]
              exact hplace.1
            | none =>
              rw [hfind] at hok
              dsimp only at hok
              cases malloc with
              | true =>
                cases hok
                refine ⟨⟨ht, hh, hobj, hptr, hpos, Nat.not_lt.mp hlen, hmay, ?_⟩, rfl⟩
                rw [hfind]
              | false =>
                rw [if_neg (by decide), logged_map] at hok
                exact absurd hok (not_logged_zero hres)
          · rw [if_neg hmay, logged_map] at hok
            exact absurd hok (not_logged_zero hres)
      · rw [onAddService_eq hh.1, if_neg fun ho => hobj ho.2] at hok
        exact absurd hok (not_refused_zero hres)
    · rw [svcmgrHandler_eq ht, if_neg hh] at hok
      split at hok
      · split at hok
        · exact absurd hok (not_logged_zero hres)
        · split at hok
          · cases hok
          · exact absurd hok (not_refused_zero hres)
      · exact absurd hok (not_refused_zero hres)
  · unfold svcmgrHandler at hok
    rw [if_pos ht] at hok
    exact absurd hok (not_refused_zero hres)

theorem res_of_admitted (reply : reply_io) (hcode : txn.code = SVC_MGR_ADD_SERVICE)
    (h : Admitted b malloc txn) :
    ∃ r, svcmgrHandler b malloc txn reply = .ok r ∧ r.res = 0 := by
  rw [svcmgrHandler_add h.target h.header hcode,
    onAddService_valid h.header h.object h.handle h.pos h.short, if_pos h.may]
  have hplace := h.place
  cases hfind : b.svclist.find? fun si => si.name = addName txn.data with
  | some si =>
    rw [hfind] at hplace
    dsimp only
    split
    · next hlive =>
      rw [logged_map]
      exact ⟨_, logged_eq.mpr ⟨hplace hlive, rfl⟩, rfl⟩
    · exact ⟨_, rfl, rfl⟩
  | none =>
    rw [hfind] at hplace
    dsimp only at hplace ⊢
    rw [if_pos hplace]
    exact ⟨_, rfl, rfl⟩

end Add

/-! ## The name that is compared and the one that is kept -/

section Names
variable {d : List UInt8}

theorem toNat_ofAscii {name : String8} {k : Nat} {c : UInt8} (hc : name[k]? = some c) :
    ∃ w, (String16.ofAscii name)[k]? = some w ∧ w.toNat = c.toNat := by
  refine ⟨c.toBitVec.zeroExtend 16, by simp [String16.ofAscii, hc], ?_⟩
  have := c.toNat_lt
  simp only [BitVec.truncate_eq_setWidth, BitVec.toNat_setWidth, UInt8.toNat_toBitVec]
  omega

/-- Before its zero, the text has its characters. -/
theorem charAt_of_text {p k : Nat} {name : String8} (h : TextIs d p name)
    (hascii : isAscii name = true) (hk : k < name.length) :
    0 < (charAt d (p + 2 * k)).toNat ∧ (charAt d (p + 2 * k)).toNat < 128 := by
  obtain ⟨c, hc⟩ : ∃ c, name[k]? = some c := ⟨name[k], List.getElem?_eq_getElem hk⟩
  obtain ⟨w, hw, heq⟩ := toNat_ofAscii hc
  have hchar := getElem?_chars d p hk
  rw [h.1, hw] at hchar
  rw [← Option.some.inj hchar, heq]
  have hall := List.all_eq_true.mp hascii c (List.mem_of_getElem? hc)
  simpa using hall

theorem allowed_isAscii {e : Nat × String8} (he : e ∈ allowed) : isAscii e.2 = true :=
  List.all_eq_true.mp allowed_ascii e he

/-- No name in the table is another one of the same caller without its last character. -/
theorem allowed_dropLast : (allowed.all fun e => allowed.all fun e' =>
    !(e.1 = e'.1 ∧ e.2.dropLast = e'.2)) = true := by decide +kernel

theorem ofAscii_injective {name name' : String8}
    (h : String16.ofAscii name = String16.ofAscii name') : name = name' := by
  refine List.map_injective_iff.mpr ?_ h
  intro c c' heq
  have hnat := congrArg BitVec.toNat heq
  have := c.toNat_lt
  have := c'.toNat_lt
  simp only [BitVec.truncate_eq_setWidth, BitVec.toNat_setWidth, UInt8.toNat_toBitVec] at hnat
  apply UInt8.toNat_inj.mp
  omega

/-- A listed text that ends where the name does is the name. -/
theorem listed_of_ends {uid : Nat} (hends : EndsAtLength d) {e : Nat × String8}
    (he : e ∈ allowed) (huid : uid = e.1) (htext : TextIs d 68 e.2) :
    Listed uid (addName d) := by
  have hlen : e.2.length = (lenAt d 64).toNat := by
    rcases Nat.lt_trichotomy e.2.length (lenAt d 64).toNat with hlt | heq | hgt
    · -- the zero of the text would be a character of the name
      exfalso
      have hchar := getElem?_chars d 68 hlt
      rw [htext.2] at hchar
      exact hends.1 (List.mem_of_getElem? hchar)
    · exact heq
    · exfalso
      have hpos := (charAt_of_text htext (allowed_isAscii he) hgt).1
      rw [hends.2] at hpos
      exact absurd hpos (by decide)
  refine ⟨e, he, huid, ?_⟩
  rw [addName, ← hlen]
  exact htext.1

/-- A listed text that ends elsewhere is not, and neither is the name. -/
theorem not_listed_of_not_ends {uid k : Nat} (hends : ¬ EndsAtLength d) {e : Nat × String8}
    (he : e ∈ allowed) (huid : uid = e.1) (htext : TextIs d 68 e.2)
    (hk : k ≤ (lenAt d 64).toNat + 2) (hstop : 127 < (charAt d (68 + 2 * k)).toNat) :
    ¬ Listed uid (addName d) := by
  rintro ⟨e', he', huid', hname⟩
  have hascii := allowed_isAscii he
  have hascii' := allowed_isAscii he'
  -- the text ends before the object
  have hlt : e.2.length < k := by
    rcases Nat.lt_trichotomy e.2.length k with hlt | heq | hgt
    · exact hlt
    · rw [← heq, htext.2] at hstop
      exact absurd hstop (by decide)
    · have := (charAt_of_text htext hascii hgt).2
      omega
  have hlen' : e'.2.length = (lenAt d 64).toNat := by
    have hlength := congrArg List.length hname
    rw [addName, length_chars, String16.ofAscii, List.length_map] at hlength
    exact hlength.symm
  rcases Nat.lt_trichotomy e.2.length (lenAt d 64).toNat with hshort | heq | hlong
  · -- the name has the zero of the text in it
    have hchar := getElem?_chars d 68 hshort
    rw [htext.2, ← addName, hname] at hchar
    rw [← hlen'] at hshort
    obtain ⟨w, hw, hnat⟩ := toNat_ofAscii (List.getElem?_eq_getElem hshort)
    rw [hw] at hchar
    have hall := List.all_eq_true.mp hascii' _ (List.getElem_mem hshort)
    rw [Option.some.inj hchar] at hnat
    simp only [Bool.and_eq_true, decide_eq_true_eq] at hall
    rw [← hnat] at hall
    exact absurd hall.1 (by decide)
  · -- then the name is the text
    apply hends
    refine ⟨?_, by rw [← heq]; exact htext.2⟩
    intro hzero
    obtain ⟨i, hi, hget⟩ := List.getElem_of_mem hzero
    have hi' : i < (lenAt d 64).toNat := by
      rw [addName, length_chars] at hi
      exact hi
    have hchar := getElem?_chars d 68 hi'
    rw [← addName, List.getElem?_eq_getElem hi, hget] at hchar
    have hpos := (charAt_of_text htext hascii (by omega : i < e.2.length)).1
    rw [← Option.some.inj hchar] at hpos
    exact absurd hpos (by decide)
  · -- the name is the text without its last character
    have hone : e.2.length = (lenAt d 64).toNat + 1 := by omega
    have htake : e.2.dropLast = e'.2 := by
      apply ofAscii_injective
      rw [← hname]
      apply List.ext_getElem?
      intro i
      by_cases hi : i < (lenAt d 64).toNat
      · have hin : i < e.2.length := by omega
        rw [addName, getElem?_chars d 68 hi, ← getElem?_chars d 68 hin, htext.1]
        simp only [String16.ofAscii, List.getElem?_map, List.getElem?_dropLast]
        rw [if_pos (by omega)]
      · rw [List.getElem?_eq_none (by simp [String16.ofAscii]; omega),
          List.getElem?_eq_none (by rw [addName, length_chars]; omega)]
    have hno := List.all_eq_true.mp (List.all_eq_true.mp allowed_dropLast e he) e' he'
    simp only [Bool.not_eq_true', decide_eq_false_iff_not] at hno
    exact hno ⟨huid.symm.trans huid', htake⟩

end Names

/-- **Permission.** Of the adds of a caller that is neither root nor the system, those that
are admitted register a name that is listed for the caller exactly if the first zero is
behind the last character. -/
theorem registers_listed_iff (b : Services) (malloc : Bool) (txn : binder_txn) (reply : reply_io)
    (hcode : txn.code = SVC_MGR_ADD_SERVICE) (hroot : txn.sender_euid ≠ 0)
    (hsystem : txn.sender_euid ≠ AID_SYSTEM) :
    (∀ h, svcmgrHandler b malloc txn reply = .ok h → h.res = 0 →
      h.services = b.register (addName txn.data) (refAt txn.data (addEnd txn.data))
        (flagAt txn.data (addEnd txn.data + 16))) ∧
    ((∀ h, svcmgrHandler b malloc txn reply = .ok h → h.res = 0 →
      Listed txn.sender_euid (addName txn.data)) ↔
      Admitted b malloc txn → EndsAtLength txn.data) := by
  refine ⟨fun h hok hres => (admitted_of_res hcode hok hres).2, ?_, ?_⟩
  · intro hlisted hadm
    obtain ⟨r, hok, hres⟩ := res_of_admitted reply hcode hadm
    have hin := hlisted r hok hres
    by_contra hends
    rcases hadm.may with h | h | ⟨e, he, huid, htext⟩
    · exact hroot h
    · exact hsystem h
    · have hplace : addEnd txn.data = 68 + 2 * (stringSize txn.data 64 / 2) ∧
          stringSize txn.data 64 / 2 ≤ (lenAt txn.data 64).toNat + 2 := by
        have hsize := stringSize_eq (d := txn.data) hadm.short
        unfold padSize at hsize
        unfold addEnd
        omega
      have hstop := charAt_handle hadm.handle
      rw [hplace.1] at hstop
      exact not_listed_of_not_ends hends he huid htext hplace.2 hstop hin
  · intro hends h hok hres
    obtain ⟨hadm, -⟩ := admitted_of_res hcode hok hres
    rcases hadm.may with h | h | ⟨e, he, huid, htext⟩
    · exact absurd h hroot
    · exact absurd h hsystem
    · exact listed_of_ends (hends hadm) he huid htext

/-- An add of `name` by `uid`, with the handle 5. -/
def addOf (uid : Nat) (name : String16) : binder_txn :=
  ⟨0, SVC_MGR_ADD_SERVICE, uid, token ++ (writeString16 name).bytes ++
    flat_binder_object.bytes ⟨BINDER_TYPE_HANDLE, FLAT_BINDER_FLAGS, 5, 0⟩ ++ wordBytes 0,
    [BitVec.ofNat 32 (token.length + (writeString16 name).bytes.length)]⟩

/-- The name that a caller may register, a zero, and more. -/
def nfcName : String16 := .ofAscii (ascii "nfc")
def hiddenName : String16 := nfcName ++ [0] ++ .ofAscii (ascii "evil")

theorem nfc_listed_iff :
    (∀ h, svcmgrHandler noServices true (addOf AID_NFC nfcName) (bioInit []) = .ok h → h.res = 0 →
      Listed AID_NFC nfcName) ↔
      (Admitted noServices true (addOf AID_NFC nfcName) →
        EndsAtLength (addOf AID_NFC nfcName).data) := by
  have hname : addName (addOf AID_NFC nfcName).data = nfcName := by decide +kernel
  have h := (registers_listed_iff noServices true (addOf AID_NFC nfcName) (bioInit [])
    rfl (by decide) (by decide)).2
  rw [hname] at h
  exact h

theorem hidden_registered :
    ((result (svcmgrHandler noServices true (addOf AID_NFC hiddenName) (bioInit []))).map
      fun h => h.services.svclist.map svcinfo.name) = some [hiddenName] ∧
    ¬ Listed AID_NFC hiddenName := by
  decide +kernel

end Cdroid.Servicemanager
