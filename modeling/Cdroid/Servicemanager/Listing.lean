import Mathlib.Algebra.Order.BigOperators.Group.List
import Mathlib.Algebra.Order.Group.Nat
import Mathlib.Data.List.TakeWhile
import Cdroid.Servicemanager.Client
import Cdroid.Servicemanager.Registry

/-! `listServices`: the client asks for one index after the other, and each name comes in a
reply of 240 bytes. -/

namespace Cdroid.Servicemanager
open Cdroid.Binder Cdroid.Lib Cdroid.Lib.Codec

/-! ## What is registered -/

/-- No name is there twice, and each has a length that is accepted. -/
structure Held (l : List svcinfo) : Prop where
  names : (l.map svcinfo.name).Nodup
  accepted : ∀ name ∈ l.map svcinfo.name, Accepted name

/-- A registry. The entry of a service that has died is still there. -/
def Contents : Type := { b : Services // Held b.svclist }

theorem Held.of_map {l l' : List svcinfo} (h : Held l)
    (heq : l'.map svcinfo.name = l.map svcinfo.name) : Held l' :=
  ⟨heq ▸ h.names, heq ▸ h.accepted⟩

theorem Held.register {b : Services} (h : Held b.svclist) {name : String16}
    (hname : Accepted name) (ptr : BitVec 32) (allow_isolated : Bool) :
    Held (b.register name ptr allow_isolated).svclist := by
  unfold Services.register
  cases hfind : b.svclist.find? fun si => si.name = name with
  | some si =>
    show Held (b.override si ptr).svclist
    rw [override_svclist]
    exact h.of_map (map_name_withPtr _ _ _)
  | none =>
    refine ⟨nodup_cons_name h.names hfind, ?_⟩
    intro name' hmem
    rcases List.mem_cons.mp hmem with rfl | hmem
    · exact hname
    · exact h.accepted name' hmem

theorem Held.died {b : Services} (h : Held b.svclist) (addr : Nat) :
    Held (b.svcinfoDeath addr).svclist := by
  unfold Services.svcinfoDeath
  split
  · exact h.of_map (map_name_withPtr _ _ _)
  · exact h

namespace Registry

/-- **Step.** -/
theorem next_held {r r' : Registry} {e : Event} (h : Held r.services.svclist)
    (hn : r.next e = some r') : Held r'.services.svclist := by
  cases e with
  | add d s len ptr uid allow_isolated malloc =>
    simp only [next] at hn
    split at hn
    · cases hn
    · next res b hadd =>
      rcases doAddService_ok hadd with ⟨rfl, rfl⟩ | ⟨rfl, -, -, hname, rfl⟩
      · cases hn
        exact h
      · cases hn
        exact h.register hname ptr allow_isolated
  | died dead =>
    simp only [next] at hn
    split at hn
    · next addr harmed =>
      cases hn
      exact h.died addr
    · cases hn
  | forget handle =>
    simp only [next] at hn
    split at hn
    · cases hn
      exact h
    · cases hn

/-- Every run leaves such a list. -/
theorem reached_held (events : List Event) (r : Registry) (h : Reached events r) :
    Held r.services.svclist := by
  have hinit : Held init.services.svclist := ⟨List.nodup_nil, by simp [init]⟩
  exact Runs.after_inv (I := fun r => Held r.services.svclist)
    (fun _ _ _ hi hn => next_held hi hn) events hinit h

end Registry

/-! ## The reply -/

/-- The words behind the offsets, with what the stack has there. -/
def Rdata : Type := { d : List UInt8 // d.length = 240 }

/-- What is written of a name. -/
def cut (name : String16) : String16 := name.takeWhile fun c => c ≠ 0

/-- What the client makes of the reply with a name: without room for the characters there is
only their number. -/
def listed (name : String16) : String16 := if (cut name).length ≤ 117 then cut name else []

/-- The bytes that are sent. -/
def reply_io.sent (bio : reply_io) : List UInt8 := bio.data0.take bio.data

section Reply

theorem roundUp_eq {size : Nat} (h : size < 2 ^ 32 - 3) : roundUp size = padSize size := by
  unfold roundUp padSize
  omega

theorem readInt32_word (v : BitVec 32) (rest : List UInt8) :
    readInt32 (.received ⟨wordBytes v ++ rest, []⟩) =
      (v, { Parcel.received ⟨wordBytes v ++ rest, []⟩ with mDataPos := 4 }) := by
  have hin : 0 + 4 ≤ (wordBytes v ++ rest).length := by
    rw [List.length_append, length_wordBytes]
    omega
  show (if 0 + 4 ≤ (wordBytes v ++ rest).length then _ else _ : BitVec 32 × Parcel) = _
  rw [if_pos hin]
  exact congrArg (·, _) (wordOf_wordBytes v rest)

theorem readInplace_pos {len : Nat} {p : Parcel}
    (h : p.mDataPos + padSize len ≤ p.mData.length) :
    readInplace len p = (some ((p.mData.drop p.mDataPos).take len),
      { p with mDataPos := p.mDataPos + padSize len }) :=
  if_pos h

theorem readInplace_neg {len : Nat} {p : Parcel}
    (h : ¬ p.mDataPos + padSize len ≤ p.mData.length) : readInplace len p = (none, p) :=
  if_neg h

theorem length_text (str : String16) :
    ((str ++ [0]).flatMap charBytes).length = 2 * (str.length + 1) := by
  rw [length_flatMap_charBytes, List.length_append]
  rfl

/-- A string behind its length, if all of its bytes are there. -/
theorem readString16_received {n : Nat} (hn : n ≤ 127) (rest : List UInt8) :
    (readString16 (.received ⟨wordBytes (BitVec.ofNat 32 n) ++ rest, []⟩)).1 =
      if padSize ((n + 1) * 2) ≤ rest.length then charsOf n (rest.take ((n + 1) * 2)) else [] := by
  have hint := toInt_length (n := n) (by omega)
  have hnat := toNat_length (n := n) (by omega)
  have hlen : 0 ≤ (BitVec.ofNat 32 n).toInt ∧ (BitVec.ofNat 32 n).toInt < INT32_MAX := by
    unfold INT32_MAX
    omega
  have hdrop : (wordBytes (BitVec.ofNat 32 n) ++ rest).drop 4 = rest :=
    List.drop_left' (length_wordBytes _)
  have hroom : 4 + padSize ((n + 1) * 2) ≤ (wordBytes (BitVec.ofNat 32 n) ++ rest).length ↔
      padSize ((n + 1) * 2) ≤ rest.length := by
    rw [List.length_append, length_wordBytes]
    omega
  rw [readString16, bind_apply, readInt32_word]
  dsimp only
  rw [if_pos hlen, hnat, bind_apply]
  by_cases hin : padSize ((n + 1) * 2) ≤ rest.length
  · rw [readInplace_pos (hroom.mpr hin), if_pos hin]
    show charsOf n (((wordBytes (BitVec.ofNat 32 n) ++ rest).drop 4).take ((n + 1) * 2)) = _
    rw [hdrop]
  · rw [readInplace_neg fun h => hin (hroom.mp h), if_neg hin]
    rfl

theorem length_cut_le (name : String16) : (cut name).length ≤ name.length :=
  (List.takeWhile_sublist _).length_le

/-- What `bio_put_string16` leaves of an empty reply. -/
theorem bioPutString16_eq (d : List UInt8) {name : String16} (hname : name.length ≤ 127) :
    bioPutString16 (bioInit d) name =
      let d := store d 0 (wordBytes (BitVec.ofNat 32 (cut name).length))
      if (cut name).length ≤ 117 then
        ⟨store d 4 ((cut name ++ [0]).flatMap charBytes), 4 + padSize (((cut name).length + 1) * 2),
          236 - padSize (((cut name).length + 1) * 2), [], 4⟩
      else ⟨d, 4, 236, [], 4⟩ := by
  have hle := length_cut_le name
  have hround : roundUp (((cut name).length + 1) * 2) = padSize (((cut name).length + 1) * 2) :=
    roundUp_eq (by omega)
  have hroom : 236 < padSize (((cut name).length + 1) * 2) ↔ ¬ (cut name).length ≤ 117 := by
    unfold padSize
    omega
  have hput : bioPutUint32 (bioInit d) (BitVec.ofNat 32 (cut name).length) =
      ⟨store d 0 (wordBytes (BitVec.ofNat 32 (cut name).length)), 4, 236, [], 4⟩ := rfl
  unfold bioPutString16
  rw [show (name.takeWhile fun c => decide (c ≠ 0)) = cut name from rfl]
  dsimp only
  rw [hput]
  unfold bioAlloc
  dsimp only
  rw [hround]
  by_cases hfits : (cut name).length ≤ 117
  · rw [if_pos hfits, if_neg fun h => hroom.mp h hfits]
  · rw [if_neg hfits, if_pos (hroom.mpr hfits)]

/-- There are no objects in it. -/
theorem offs_bioPutString16 (d : List UInt8) {name : String16} (hname : name.length ≤ 127) :
    (bioPutString16 (bioInit d) name).offs = [] := by
  rw [bioPutString16_eq d hname]
  dsimp only
  split <;> rfl

/-- Behind a text, what the buffer had there fills the last word. -/
theorem take_store_text (rdata : Rdata) {word text : List UInt8} {n : Nat}
    (hword : word.length = 4) (hle : text.length ≤ n) (hin : 4 + n ≤ 240) :
    ∃ pad, (store (store rdata.1 0 word) 4 text).take (4 + n) = word ++ (text ++ pad) ∧
      text.length + pad.length = n := by
  have hlen : (store rdata.1 0 word).length = 240 := by
    have hdata := rdata.2
    unfold store
    rw [List.length_append, List.length_append, List.length_take, List.length_drop, hword]
    omega
  have hfour : (store rdata.1 0 word).take 4 = word := List.take_left' hword
  obtain ⟨k, rfl⟩ := Nat.exists_eq_add_of_le hle
  refine ⟨((store rdata.1 0 word).drop (4 + text.length)).take k, ?_, ?_⟩
  · rw [store, hfour, ← hword, List.take_length_add_append, List.take_length_add_append]
  · rw [List.length_take, List.length_drop, hlen]
    omega

/-- **Reply.** A name with up to 117 characters before its first zero is sent in full. -/
theorem readString16_sent (rdata : Rdata) {name : String16} (hname : name.length ≤ 127) :
    (readString16 (.received ⟨(bioPutString16 (bioInit rdata.1) name).sent, []⟩)).1 =
      listed name := by
  have hle := length_cut_le name
  have hword := length_wordBytes (BitVec.ofNat 32 (cut name).length)
  rw [bioPutString16_eq rdata.1 hname]
  unfold listed
  dsimp only
  by_cases hfits : (cut name).length ≤ 117
  · have htext := length_text (cut name)
    have hpad : 2 * ((cut name).length + 1) ≤ padSize (((cut name).length + 1) * 2) ∧
        padSize (((cut name).length + 1) * 2) ≤ 236 := by
      unfold padSize
      omega
    obtain ⟨pad, hsent, hrest⟩ := take_store_text rdata hword (htext ▸ hpad.1) (by omega)
    rw [if_pos hfits, if_pos hfits, reply_io.sent, hsent, readString16_received (by omega),
      List.length_append, if_pos hrest.ge, List.take_left' (by omega), List.flatMap_append]
    exact charsOf_charBytes (cut name) _
  · have hsent : (store rdata.1 0 (wordBytes (BitVec.ofNat 32 (cut name).length))).take 4 =
        wordBytes (BitVec.ofNat 32 (cut name).length) ++ [] := by
      rw [List.append_nil]
      exact List.take_left' hword
    rw [if_neg hfits, if_neg hfits, reply_io.sent, hsent, readString16_received (by omega), if_neg]
    unfold padSize
    rw [List.length_nil]
    omega

end Reply

/-- The transactions with a registry that stays as it is. What the stack holds may differ. -/
def Contents.transact (c : Contents) (w : Wire) (s : Sender) (malloc : Nat → Bool) (uid : Nat)
    (rdata : Nat → Rdata) : Nat → Transact :=
  fun n => w.transact s c.1 (malloc n) uid (rdata n).1

namespace BpServiceManager

/-! ## One round -/

section Round
variable (w : Wire) (s : Sender) {c : Contents} (malloc : Bool) (uid : Nat) (rdata : Rdata)
  {n : Nat}

/-- The handler takes the index that was written. -/
theorem list_read (b : Services) (reply : reply_io) (v : BitVec 32) :
    svcmgrHandler b malloc (w.deliver LIST_SERVICES_TRANSACTION uid (listData s v)) reply =
      match b.svclist[v.toNat]? with
      | some si => .ok ⟨0, bioPutString16 reply si.name, b⟩
      | none => .ok ⟨-1, reply, b⟩ := by
  have h26 : interfaceDescriptor.length = 26 := length_svcmgr_id
  have hlen : (listData s v).bytes.length = 68 := by
    rw [listData, writeInterfaceToken, Chunk.bytes_add, Chunk.bytes_add, List.length_append,
      List.length_append, length_writeString16, h26]
    rfl
  have hd : (w.deliver LIST_SERVICES_TRANSACTION uid (listData s v)).data = (listData s v).bytes :=
    rfl
  have htoken : (listData s v).bytes = (writeInterfaceToken s.strictModePolicy
      interfaceDescriptor).bytes ++ wordBytes v := rfl
  obtain ⟨hh, hdrop⟩ := headerOk_of_token htoken (by omega)
  have hindex : lenAt (listData s v).bytes 64 = v := by
    unfold lenAt
    rw [hdrop]
    exact wordOf_wordBytes v []
  rw [svcmgrHandler_of_header rfl (hd ▸ hh), svcmgrSwitch]
  show onListServices b _ reply = _
  cases hget : b.svclist[v.toNat]? with
  | some si =>
    rw [onListServices_eq (hd ▸ hh.1), hd, hlen, if_pos (Nat.le_refl 68), hindex, hget]
  | none =>
    rw [onListServices_eq (hd ▸ hh.1), hd, hlen, if_pos (Nat.le_refl 68), hindex, hget]

/-- An index of the list brings a name. -/
theorem transact_listed {si : svcinfo} (h : c.1.svclist[n % 2 ^ 32]? = some si) :
    ∃ reply, w.transact s c.1 malloc uid rdata.1 LIST_SERVICES_TRANSACTION
        (listData s (BitVec.ofNat 32 n)) = .ok (0, reply) ∧
      (readString16 reply).1 = listed si.name := by
  have hmem : si ∈ c.1.svclist := List.mem_of_getElem? h
  have haccepted := c.2.accepted si.name (List.mem_map_of_mem hmem)
  refine ⟨.received ⟨(bioPutString16 (bioInit rdata.1) si.name).sent, []⟩, ?_,
    readString16_sent rdata haccepted.2⟩
  have hoffs := offs_bioPutString16 rdata.1 haccepted.2
  unfold Wire.transact
  rw [list_read, BitVec.toNat_ofNat, h]
  show Except.ok (0, Parcel.received ⟨translate _ (bioPutString16 _ _).sent
    (bioPutString16 _ _).offs, (bioPutString16 _ _).offs⟩) = _
  rw [hoffs]
  rfl

/-- Behind the list there is the error. -/
theorem transact_past (h : c.1.svclist[n % 2 ^ 32]? = none) :
    w.transact s c.1 malloc uid rdata.1 LIST_SERVICES_TRANSACTION
      (listData s (BitVec.ofNat 32 n)) = .ok (BitVec.ofInt 32 (-1), .received 0) := by
  unfold Wire.transact
  rw [list_read, BitVec.toNat_ofNat, h]
  exact congrArg (fun err => Except.ok (err, Parcel.received 0))
    (wordOf_wordBytes (BitVec.ofInt 32 (-1)) [])

end Round

/-! ## All rounds -/

section Rounds
variable {w : Wire} {s : Sender} {c : Contents} {malloc : Nat → Bool} {uid : Nat}
  {rdata : Nat → Rdata}

/-- The loop ends behind the last index. -/
theorem listServicesLoop_eq (hlen : c.1.svclist.length < 2 ^ 32) (fuel n : Nat)
    (res : List String16) (hn : n ≤ c.1.svclist.length) :
    listServicesLoop s (c.transact w s malloc uid rdata) fuel n res =
      .ok (if c.1.svclist.length - n < fuel
        then some (res ++ (c.1.svclist.drop n).map fun si => listed si.name) else none) := by
  induction fuel generalizing n res with
  | zero => rfl
  | succ fuel ih =>
    have hmod : n % 2 ^ 32 = n := Nat.mod_eq_of_lt (by omega)
    unfold listServicesLoop
    by_cases hlt : n < c.1.svclist.length
    · have hget : c.1.svclist[n % 2 ^ 32]? = some c.1.svclist[n] := by
        rw [hmod, List.getElem?_eq_getElem hlt]
      obtain ⟨reply, hok, hread⟩ := transact_listed w s (malloc n) uid (rdata n) hget
      have hcond : c.1.svclist.length - (n + 1) < fuel ↔ c.1.svclist.length - n < fuel + 1 := by
        omega
      show ((w.transact s c.1 (malloc n) uid (rdata n).1 _ _) >>= fun __x => _ :
        Except Fault (Option (List String16))) = _
      rw [hok]
      show listServicesLoop s _ fuel (n + 1) (res ++ [(readString16 reply).1]) = _
      rw [hread, ih (n + 1) _ hlt, List.append_assoc, List.drop_eq_getElem_cons hlt, List.map_cons]
      simp only [hcond]
      rfl
    · have hget : c.1.svclist[n % 2 ^ 32]? = none := by
        rw [hmod]
        exact List.getElem?_eq_none (by omega)
      show ((w.transact s c.1 (malloc n) uid (rdata n).1 _ _) >>= fun __x => _ :
        Except Fault (Option (List String16))) = _
      rw [transact_past w s (malloc n) uid (rdata n) hget, if_pos (by omega),
        List.drop_eq_nil_of_le (by omega), List.map_nil, List.append_nil]
      rfl

/-- With an entry for each index there is no error. -/
theorem listServicesLoop_endless (hlen : 2 ^ 32 ≤ c.1.svclist.length) (fuel n : Nat)
    (res : List String16) :
    listServicesLoop s (c.transact w s malloc uid rdata) fuel n res = .ok none := by
  induction fuel generalizing n res with
  | zero => rfl
  | succ fuel ih =>
    have hlt : n % 2 ^ 32 < c.1.svclist.length := by omega
    obtain ⟨reply, hok, -⟩ := transact_listed w s (malloc n) uid (rdata n)
      (List.getElem?_eq_getElem hlt)
    unfold listServicesLoop
    show ((w.transact s c.1 (malloc n) uid (rdata n).1 _ _) >>= fun __x => _ :
      Except Fault (Option (List String16))) = _
    rw [hok]
    exact ih (n + 1) _

end Rounds

/-! ## Complete listings -/

/-- The listing comes to an end with each of `names` once and nothing else. -/
def Lists (s : Sender) (transact : Nat → Transact) (names : List String16) : Prop :=
  ∃ fuel res, listServices s transact fuel = .ok (some res) ∧
    ∀ name, res.count name = if name ∈ names then 1 else 0

theorem listed_sublist (name : String16) : (listed name).Sublist name := by
  unfold listed
  split
  · exact List.takeWhile_sublist _
  · exact List.nil_sublist name

theorem listed_eq_iff (name : String16) :
    listed name = name ↔ name.length ≤ 117 ∧ 0 ∉ name := by
  unfold listed
  constructor
  · split
    · next hfits =>
      intro heq
      refine ⟨heq ▸ hfits, ?_⟩
      intro hzero
      rw [← heq, cut] at hzero
      have hne := List.mem_takeWhile_imp hzero
      exact of_decide_eq_true hne rfl
    · rintro rfl
      exact ⟨Nat.zero_le _, List.not_mem_nil⟩
  · rintro ⟨hlen, hzero⟩
    have hcut : cut name = name := by
      refine List.takeWhile_eq_self_iff.mpr ?_
      intro c hc
      exact decide_eq_true fun h => hzero (h ▸ hc)
    rw [hcut, if_pos hlen]

/-- Lists that are shortened are all kept only if none gets shorter. -/
theorem map_perm_iff {α : Type} {l : List (List α)} {f : List α → List α}
    (hf : ∀ a, (f a).Sublist a) : (l.map f).Perm l ↔ ∀ a ∈ l, f a = a := by
  constructor
  · intro hperm
    by_contra hnot
    push Not at hnot
    obtain ⟨a, ha, hne⟩ := hnot
    have hsum := (hperm.map List.length).sum_eq
    have hlt : (f a).length < a.length :=
      lt_of_le_of_ne (hf a).length_le fun h => hne ((hf a).eq_of_length h)
    rw [List.map_map] at hsum
    exact (List.sum_lt_sum (List.length ∘ f) List.length (fun b _ => (hf b).length_le)
      ⟨a, ha, hlt⟩).ne hsum
  · intro hall
    rw [List.map_congr_left hall, List.map_id']

section Complete
variable (w : Wire) (s : Sender) (c : Contents) (malloc : Nat → Bool) (uid : Nat)
  (rdata : Nat → Rdata)

/-- Whatever of the names is to be listed, it is listed if these are all names and each comes as
it is. -/
theorem lists_iff {names : List String16}
    (hnames : names.Sublist (c.1.svclist.map svcinfo.name)) :
    Lists s (c.transact w s malloc uid rdata) names ↔ c.1.svclist.length < 2 ^ 32 ∧
      names = c.1.svclist.map svcinfo.name ∧ ∀ si ∈ c.1.svclist, listed si.name = si.name := by
  have hnodup := c.2.names.sublist hnames
  have hperm : ∀ res : List String16,
      (∀ name, res.count name = if name ∈ names then 1 else 0) ↔ res.Perm names := by
    intro res
    rw [List.perm_iff_count]
    simp only [hnodup.count]
  have hall : ((c.1.svclist.map svcinfo.name).map listed).Perm (c.1.svclist.map svcinfo.name) ↔
      ∀ si ∈ c.1.svclist, listed si.name = si.name := by
    rw [map_perm_iff listed_sublist, List.forall_mem_map]
  unfold Lists listServices
  by_cases hlen : c.1.svclist.length < 2 ^ 32
  · constructor
    · rintro ⟨fuel, res, hres, hcount⟩
      rw [listServicesLoop_eq hlen fuel 0 [] (Nat.zero_le _)] at hres
      split at hres
      · cases hres
        rw [hperm, List.drop_zero, List.nil_append] at hcount
        have hsame : names = c.1.svclist.map svcinfo.name := by
          refine hnames.eq_of_length ?_
          rw [← hcount.length_eq, List.length_map, List.length_map]
        refine ⟨hlen, hsame, hall.mp ?_⟩
        rw [List.map_map, ← hsame]
        exact hcount
      · cases hres
    · rintro ⟨-, rfl, hlisted⟩
      refine ⟨c.1.svclist.length + 1, c.1.svclist.map fun si => listed si.name, ?_, ?_⟩
      · rw [listServicesLoop_eq hlen _ 0 [] (Nat.zero_le _), if_pos (by omega)]
        rfl
      · rw [hperm]
        have hgoal := hall.mpr hlisted
        rw [List.map_map] at hgoal
        exact hgoal
  · constructor
    · rintro ⟨fuel, res, hres, -⟩
      rw [listServicesLoop_endless (by omega)] at hres
      cases hres
    · exact fun h => absurd h.1 hlen

/-- **Listing.** `listServices` is complete exactly if no registered name has more than 117
characters or a zero among them, and there is an index for each. -/
theorem listServices_iff :
    Lists s (c.transact w s malloc uid rdata) (c.1.svclist.map svcinfo.name) ↔
      c.1.svclist.length < 2 ^ 32 ∧ ∀ si ∈ c.1.svclist, si.len ≤ 117 ∧ 0 ∉ si.name := by
  rw [lists_iff w s c malloc uid rdata (List.Sublist.refl _)]
  simp only [listed_eq_iff, true_and]
  rfl

/-- A service that has died is listed as well. -/
theorem lists_alive_iff :
    Lists s (c.transact w s malloc uid rdata)
        ((c.1.svclist.filter fun si => si.ptr ≠ 0).map svcinfo.name) ↔
      c.1.svclist.length < 2 ^ 32 ∧
        ∀ si ∈ c.1.svclist, si.ptr ≠ 0 ∧ si.len ≤ 117 ∧ 0 ∉ si.name := by
  have hsame : (c.1.svclist.filter fun si => si.ptr ≠ 0).map svcinfo.name =
      c.1.svclist.map svcinfo.name ↔ ∀ si ∈ c.1.svclist, si.ptr ≠ 0 := by
    constructor
    · intro heq si hsi
      have hlen := congrArg List.length heq
      rw [List.length_map, List.length_map, List.length_filter_eq_length_iff] at hlen
      exact of_decide_eq_true (hlen si hsi)
    · intro hall
      rw [List.filter_eq_self.mpr fun si hsi => decide_eq_true (hall si hsi)]
  rw [lists_iff w s c malloc uid rdata (List.filter_sublist.map _), hsame]
  simp only [listed_eq_iff, forall_and]
  rfl

end Complete

/-! ## A name of 118 characters -/

/-- Root registers it, which is accepted. -/
def addLong : Event :=
  .add ((List.replicate 119 [97, 0]).flatten) (some 0) 118 5 0 true true

theorem addLong_next : (Runs.after Registry.next [addLong] Registry.init).isSome = true := by
  decide +kernel

/-- It is the only service. -/
def oneLong : Contents :=
  ⟨(Option.get _ addLong_next).services,
    Registry.reached_held [addLong] _ (Option.some_get addLong_next).symm⟩

def zeroes : Rdata := ⟨List.replicate 240 0, List.length_replicate⟩

/-- Its name comes as an empty one. -/
theorem long_unlisted :
    oneLong.1.svclist.map svcinfo.name = [List.replicate 118 97] ∧
    result (listServices plainSender
      (oneLong.transact plainWire plainSender (fun _ => true) 0 fun _ => zeroes) 2) =
        some (some [[]]) ∧
    ¬ ∀ (w : Wire) (s : Sender) (c : Contents) (malloc : Nat → Bool) (uid : Nat)
      (rdata : Nat → Rdata),
      Lists s (c.transact w s malloc uid rdata) (c.1.svclist.map svcinfo.name) := by
  have hnames : oneLong.1.svclist.map svcinfo.name = [List.replicate 118 97] := by decide +kernel
  refine ⟨hnames, by decide +kernel, ?_⟩
  intro h
  have hall := h plainWire plainSender oneLong (fun _ => true) 0 fun _ => zeroes
  rw [lists_iff _ _ _ _ _ _ (List.Sublist.refl _)] at hall
  have hlisted : ∀ name ∈ oneLong.1.svclist.map svcinfo.name, listed name = name :=
    List.forall_mem_map.mpr hall.2.2
  rw [hnames] at hlisted
  exact absurd (hlisted _ (List.mem_singleton_self _)) (by decide +kernel)

end BpServiceManager

end Cdroid.Servicemanager
