import Cdroid.Binder.Transaction
import Cdroid.Servicemanager.Messages

/-! `BpServiceManager`: what it writes, what the driver makes of it on the way, and what it
reads of the handler's reply. -/

namespace Cdroid.Servicemanager
open Cdroid.Binder Cdroid.Runtime Cdroid.Lib.Codec

/-! ## The driver -/

/-- A handle of a node that is not the service manager's own. -/
def Handle : Type := { h : BitVec 32 // h ≠ 0 }

/-- The service manager's handle for an object of the client, and what the client has for a
handle of the service manager. -/
structure Wire where
  refFor : flat_binder_object → Handle
  behind : BitVec 32 → IBinder

/-- An object on its way to the service manager. -/
def Wire.toManager (w : Wire) (fp : flat_binder_object) : flat_binder_object :=
  { fp with type := BINDER_TYPE_HANDLE, binder := (w.refFor fp).1 }

/-- An object on its way to the client, who may have the node itself. -/
def Wire.toClient (w : Wire) (getWeakRefs : Address → Address) (fp : flat_binder_object) :
    flat_binder_object :=
  match w.behind fp.binder with
  | .proxy handle => { fp with binder := handle }
  | .local a => { fp with type := BINDER_TYPE_BINDER, binder := (getWeakRefs a).1, cookie := a.1 }

/-- The loop over the offsets in `binder_transaction`. -/
def translate (f : flat_binder_object → flat_binder_object) : List UInt8 → List Nat → List UInt8
  | d, [] => d
  | d, off :: offs =>
    translate f (store d off (f (flat_binder_object.ofBytes (d.drop off))).bytes) offs

/-- A transaction as the service manager gets it. -/
def Wire.deliver (w : Wire) (code : BitVec 32) (uid : Nat) (data : Chunk) : binder_txn :=
  ⟨svcmgr_handle, code, uid, translate w.toManager data.bytes data.objects,
    data.objects.map (BitVec.ofNat 32)⟩

/-- `BR_REPLY`, with `TF_STATUS_CODE` or without. -/
structure Response where
  isStatus : Bool
  data : List UInt8
  offsets : List Nat

/-- `binder_send_reply` -/
def binderSendReply (h : Handled) : Response :=
  if h.res ≠ 0 then ⟨true, wordBytes (BitVec.ofInt 32 h.res), []⟩
  else ⟨false, h.reply.data0.take h.reply.data, h.reply.offs⟩

/-- `waitForResponse`: the error, and the reply, which a status leaves empty. -/
def waitForResponse (r : Response) : BitVec 32 × Parcel :=
  if r.isStatus then (wordOf r.data, .received 0) else (0, .received ⟨r.data, r.offsets⟩)

/-! ## The client -/

/-- `remote()->transact`: a code and the data. -/
abbrev Transact := BitVec 32 → Chunk → Except Fault (BitVec 32 × Parcel)

/-- A transaction with the service manager, in the state `b`. -/
def Wire.transact (w : Wire) (s : Sender) (b : Services) (malloc : Bool) (uid : Nat)
    (rdata : List UInt8) : Transact := fun code data => do
  let h ← svcmgrHandler b malloc (w.deliver code uid data) (bioInit rdata)
  let r := binderSendReply h
  pure (waitForResponse { r with data := translate (w.toClient s.getWeakRefs) r.data r.offsets })

namespace BpServiceManager

def CHECK_SERVICE_TRANSACTION : BitVec 32 := 2
def ADD_SERVICE_TRANSACTION : BitVec 32 := 3
def LIST_SERVICES_TRANSACTION : BitVec 32 := 4

def interfaceDescriptor : String16 := .ofAscii (ascii "android.os.IServiceManager")

/-- `data` of `checkService` -/
def checkData (s : Sender) (name : String16) : Chunk :=
  writeInterfaceToken s.strictModePolicy interfaceDescriptor + writeString16 name

/-- `data` of `addService` -/
def addData (s : Sender) (name : String16) (service : Option IBinder) (allowIsolated : Bool) :
    Chunk :=
  checkData s name + (s.writeStrongBinder service + writeBool allowIsolated)

/-- The error of the transaction is not looked at. -/
def checkService (s : Sender) (transact : Transact) (name : String16) :
    Except Fault (Option IBinder) := do
  let (_, reply) ← transact CHECK_SERVICE_TRANSACTION (checkData s name)
  pure (readStrongBinder reply).1

/-- The rounds of `getService` from the `n`th on. Each may meet another state. -/
def getServiceLoop (s : Sender) (transact : Nat → Transact) (name : String16) :
    Nat → Nat → Except Fault (Option IBinder)
  | 0, _ => pure none
  | rounds + 1, n => do
    let svc ← checkService s (transact n) name
    if svc ≠ none then pure svc else getServiceLoop s transact name rounds (n + 1)

def getService (s : Sender) (transact : Nat → Transact) (name : String16) :
    Except Fault (Option IBinder) :=
  getServiceLoop s transact name 5 0

def addService (s : Sender) (transact : Transact) (name : String16) (service : Option IBinder)
    (allowIsolated : Bool) : Except Fault (BitVec 32) := do
  let (err, reply) ← transact ADD_SERVICE_TRANSACTION (addData s name service allowIsolated)
  if err = 0 then pure (readExceptionCode reply).1 else pure err

/-- `data` of `listServices` -/
def listData (s : Sender) (n : BitVec 32) : Chunk :=
  writeInterfaceToken s.strictModePolicy interfaceDescriptor + writeInt32 n

/-- The rounds of `listServices` from the `n`th on, with `res` so far. Without the fuel for all
of them there is no result. -/
def listServicesLoop (s : Sender) (transact : Nat → Transact) :
    Nat → Nat → List String16 → Except Fault (Option (List String16))
  | 0, _, _ => pure none
  | fuel + 1, n, res => do
    let (err, reply) ← transact n LIST_SERVICES_TRANSACTION (listData s (BitVec.ofNat 32 n))
    if err ≠ 0 then pure (some res)
    else listServicesLoop s transact fuel (n + 1) (res ++ [(readString16 reply).1])

def listServices (s : Sender) (transact : Nat → Transact) (fuel : Nat) :
    Except Fault (Option (List String16)) :=
  listServicesLoop s transact fuel 0 []

end BpServiceManager

/-! ## What the handler reads -/

/-- Up to the `switch`. -/
def readHeader (txn : binder_txn) : Except Fault binder_io := do
  let (_, msg) ← bioGetUint32 (bioInitFromTxn txn)
  let (_, _, msg) ← bioGetString16 msg
  pure msg

/-- The name of a lookup, and its length. -/
def readName (txn : binder_txn) : Except Fault (Option Nat × BitVec 32) := do
  let msg ← readHeader txn
  let (s, len, _) ← bioGetString16 msg
  pure (s, len)

/-- The name of an add, its length, the handle, and the flag. -/
def readAdd (txn : binder_txn) : Except Fault (Option Nat × BitVec 32 × BitVec 32 × BitVec 32) := do
  let msg ← readHeader txn
  let (s, len, msg) ← bioGetString16 msg
  let (ptr, msg) ← bioGetRef msg
  let (allow_isolated, _) ← bioGetUint32 msg
  pure (s, len, ptr, allow_isolated)

/-- The text at `p` is `name`, with a zero behind it. -/
def StringAt (d : List UInt8) (p : Nat) (name : String16) : Prop :=
  p + 2 * name.length + 2 ≤ d.length ∧ chars d p name.length = name ∧
    charAt d (p + 2 * name.length) = 0

section Decode
variable {txn : binder_txn}

theorem readHeader_eq (h : HeaderOk txn.data) :
    readHeader txn = .ok (cursor txn.data txn.offs 64) := by
  have hinit : bioInitFromTxn txn = cursor txn.data txn.offs 0 := rfl
  have h64 := h.1
  unfold readHeader
  rw [hinit, bioGetUint32_cursor (Nat.zero_le _), if_pos (by omega)]
  show (bioGetString16 (cursor txn.data txn.offs 4) >>= fun __x => _ :
    Except Fault binder_io) = _
  rw [bioGetString16_cursor (by omega), if_pos (by omega), stringSize_id h.2.1,
    if_pos (by omega)]
  rfl

theorem readName_eq (h : HeaderOk txn.data) (hs : addEnd txn.data ≤ txn.data.length) :
    readName txn = .ok (some 68, lenAt txn.data 64) := by
  have h68 : 68 ≤ addEnd txn.data := Nat.le_add_right _ _
  unfold readName
  rw [readHeader_eq h]
  show (bioGetString16 (cursor txn.data txn.offs 64) >>= fun __x => _ : Except Fault _) = _
  rw [bioGetString16_cursor h.1, if_pos (by omega),
    if_pos (show 64 + 4 + stringSize txn.data 64 ≤ txn.data.length from hs)]
  rfl

/-- The object is found by its offset; without it, nothing more is read. -/
theorem readAdd_eq (h : HeaderOk txn.data) (hs : addEnd txn.data + 20 ≤ txn.data.length) :
    readAdd txn = .ok (some 68, lenAt txn.data 64,
      if HasObject txn.data txn.offs (addEnd txn.data) then
        (refAt txn.data (addEnd txn.data), lenAt txn.data (addEnd txn.data + 16))
      else (0, 0)) := by
  have h68 : 68 ≤ addEnd txn.data := Nat.le_add_right _ _
  have hend : 64 + 4 + stringSize txn.data 64 ≤ txn.data.length := by
    unfold addEnd at hs
    omega
  unfold readAdd
  rw [readHeader_eq h]
  show (bioGetString16 (cursor txn.data txn.offs 64) >>= fun __x => _ : Except Fault _) = _
  rw [bioGetString16_cursor h.1, if_pos (by omega), if_pos hend]
  show (bioGetRef (cursor txn.data txn.offs (addEnd txn.data)) >>= fun __x => _ :
    Except Fault _) = _
  rw [bioGetRef_cursor (by omega)]
  by_cases hobj : HasObject txn.data txn.offs (addEnd txn.data)
  · rw [if_pos hobj, if_pos hobj]
    show (bioGetUint32 (cursor txn.data txn.offs (addEnd txn.data + 16)) >>= fun __x => _ :
      Except Fault _) = _
    rw [bioGetUint32_cursor hobj.2, if_pos (by omega)]
    rfl
  · rw [if_neg hobj, if_neg hobj]
    rfl

end Decode

/-! ## What the client writes -/

section Layout
variable {d rest : List UInt8} {p : Nat} {name : String16}

theorem length_flatMap_charBytes (name : String16) :
    (name.flatMap charBytes).length = 2 * name.length := by
  induction name with
  | nil => rfl
  | cons c name ih =>
    rw [List.flatMap_cons, List.length_append, ih, List.length_cons]
    show 2 + _ = _
    omega

theorem length_writeString16 (name : String16) :
    (writeString16 name).bytes.length = 4 + padSize ((name.length + 1) * 2) := by
  have hlen : (name.flatMap charBytes ++ [0, 0]).length = (name.length + 1) * 2 := by
    rw [List.length_append, length_flatMap_charBytes]
    simp only [List.length_cons, List.length_nil]
    omega
  simp only [writeString16, writeInt32, write, Chunk.bytes_add, List.length_append,
    length_wordBytes, length_padded] at hlen ⊢
  rw [hlen]

/-- A string that was written. -/
theorem stringAt_of_drop (h : d.drop p = (writeString16 name).bytes ++ rest)
    (hlen : d.length < 2 ^ 32) :
    (lenAt d p).toNat = name.length ∧ lenAt d p = BitVec.ofNat 32 name.length ∧
      stringSize d p = padSize ((name.length + 1) * 2) ∧ StringAt d (p + 4) name ∧
      d.drop (p + 4 + stringSize d p) = rest := by
  have hword : lenAt d p = BitVec.ofNat 32 name.length := by
    unfold lenAt
    rw [h, writeString16, Chunk.bytes_add, List.append_assoc]
    exact wordOf_wordBytes _ _
  have hdrop : d.drop (p + 4) = padded (name.flatMap charBytes ++ [0, 0]) ++ rest := by
    rw [← List.drop_drop, h, writeString16, Chunk.bytes_add, List.append_assoc]
    exact List.drop_left' (length_wordBytes _)
  have hsize := length_writeString16 name
  have hpad := le_padSize ((name.length + 1) * 2)
  have hd : d.length - p = 4 + padSize ((name.length + 1) * 2) + rest.length := by
    rw [← hsize, ← List.length_append, ← h, List.length_drop]
  have hnat : (lenAt d p).toNat = name.length := by
    rw [hword, BitVec.toNat_ofNat]
    omega
  have hround : stringSize d p = padSize ((name.length + 1) * 2) := by
    unfold stringSize string16Size roundUp padSize
    unfold padSize at hd hpad
    rw [hnat]
    omega
  refine ⟨hnat, hword, hround, ⟨by omega, ?_, ?_⟩, ?_⟩
  · unfold chars
    rw [hdrop, padded, List.append_assoc, List.append_assoc]
    exact charsOf_charBytes name _
  · have hzero : d.drop (p + 4 + 2 * name.length) = [0, 0] ++ (List.replicate
        (padSize (name.flatMap charBytes ++ [0, 0]).length -
          (name.flatMap charBytes ++ [0, 0]).length) 0 ++ rest) := by
      rw [← List.drop_drop, hdrop, padded, List.append_assoc, List.append_assoc]
      exact List.drop_left' (length_flatMap_charBytes name)
    unfold charAt
    rw [hzero]
    rfl
  · rw [hround, Nat.add_assoc, ← List.drop_drop, h]
    exact List.drop_left' hsize

/-- A message of the client's begins with the header. -/
theorem headerOk_of_token {policy : BitVec 32}
    (hd : d = (writeInterfaceToken policy BpServiceManager.interfaceDescriptor).bytes ++ rest)
    (hlen : d.length < 2 ^ 32) : HeaderOk d ∧ d.drop 64 = rest := by
  have h26 : BpServiceManager.interfaceDescriptor.length = 26 := length_svcmgr_id
  have hdrop : d.drop 4 =
      (writeString16 BpServiceManager.interfaceDescriptor).bytes ++ rest := by
    rw [hd, writeInterfaceToken, Chunk.bytes_add, List.append_assoc]
    exact List.drop_left' (length_wordBytes _)
  obtain ⟨hnat, -, hsize, ⟨-, hchars, -⟩, hrest⟩ := stringAt_of_drop hdrop hlen
  rw [h26] at hnat hsize hchars
  rw [hsize] at hrest
  refine ⟨⟨?_, hnat, hchars⟩, hrest⟩
  rw [hd, List.length_append, writeInterfaceToken, Chunk.bytes_add, List.length_append,
    length_writeString16, h26]
  show 64 ≤ 4 + (4 + 56) + _
  omega

/-- A request with a name. -/
theorem headerOk_of_request {policy : BitVec 32}
    (hd : d = (writeInterfaceToken policy BpServiceManager.interfaceDescriptor +
      writeString16 name).bytes ++ rest) (hlen : d.length < 2 ^ 32) :
    HeaderOk d ∧ d.drop 64 = (writeString16 name).bytes ++ rest := by
  rw [Chunk.bytes_add, List.append_assoc] at hd
  exact headerOk_of_token hd hlen

theorem translate_one (f : flat_binder_object → flat_binder_object) (pre post : List UInt8)
    (o : flat_binder_object) :
    translate f (pre ++ (o.bytes ++ post)) [pre.length] = pre ++ ((f o).bytes ++ post) := by
  have hlen : (f o).bytes.length = o.bytes.length := rfl
  rw [translate, translate, store, List.drop_left' rfl, flat_binder_object.ofBytes_bytes,
    List.take_left' rfl, hlen, ← List.drop_drop, List.drop_left' rfl, List.drop_left' rfl]

end Layout

/-! ## What the handler is told -/

namespace BpServiceManager

variable {s : Sender} {w : Wire} {uid : Nat} {name : String16} {service : Option IBinder}
  {allowIsolated : Bool}

/-- The object that is written for a service. -/
def objectOf (s : Sender) (service : Option IBinder) : flat_binder_object :=
  flattenBinder s.getWeakRefs service

/-- The service has an object that the driver translates: it is neither null nor the proxy of
the handle 0. -/
def HasNode (s : Sender) (service : Option IBinder) : Prop := (objectOf s service).binder ≠ 0

instance (s : Sender) (service : Option IBinder) : Decidable (HasNode s service) :=
  inferInstanceAs (Decidable (_ ≠ _))

/-- The handle that the service manager has for the service. -/
def handleOf (w : Wire) (s : Sender) (service : Option IBinder) : BitVec 32 :=
  if HasNode s service then (w.refFor (objectOf s service)).1 else 0

/-- The object that is delivered: the driver translates those that have an offset. -/
def deliveredObject (w : Wire) (s : Sender) (service : Option IBinder) : flat_binder_object :=
  if HasNode s service then w.toManager (objectOf s service) else objectOf s service

/-- An add, as it is delivered. -/
theorem deliver_add (w : Wire) (s : Sender) (uid : Nat) (name : String16)
    (service : Option IBinder) (allowIsolated : Bool) (code : BitVec 32) :
    w.deliver code uid (addData s name service allowIsolated) =
      ⟨svcmgr_handle, code, uid, (checkData s name).bytes ++
        ((deliveredObject w s service).bytes ++ (writeBool allowIsolated).bytes),
        if HasNode s service then [BitVec.ofNat 32 (checkData s name).bytes.length] else []⟩ := by
  have hcheck : (checkData s name).objects = [] := rfl
  have hbytes : (addData s name service allowIsolated).bytes = (checkData s name).bytes ++
      ((objectOf s service).bytes ++ (writeBool allowIsolated).bytes) := rfl
  have hobjects : (addData s name service allowIsolated).objects =
      if HasNode s service then [(checkData s name).bytes.length] else [] := by
    simp only [addData, Sender.writeStrongBinder, writeStrongBinder, writeObject, writeBool,
      writeInt32, Chunk.objects_add, hcheck, List.nil_append, List.map_nil, List.append_nil]
    show List.map _ (if HasNode s service then [0] else []) = _
    split
    · simp
    · rfl
  unfold Wire.deliver deliveredObject
  rw [hbytes, hobjects]
  split
  · rw [translate_one]
    rfl
  · rfl

/-- A lookup is read as the lookup of the same name. -/
theorem check_read (b : Services) (malloc : Bool) (reply : reply_io) (w : Wire) (s : Sender)
    (uid : Nat) (name : String16) (hfits : (checkData s name).bytes.length < 2 ^ 32) :
    let txn := w.deliver CHECK_SERVICE_TRANSACTION uid (checkData s name)
    readName txn = .ok (some 68, BitVec.ofNat 32 name.length) ∧ StringAt txn.data 68 name ∧
      svcmgrHandler b malloc txn reply = .ok ⟨0, replyRef reply (b.lookup name uid), b⟩ := by
  intro txn
  have hd : txn.data = (writeInterfaceToken s.strictModePolicy interfaceDescriptor +
      writeString16 name).bytes ++ [] := (List.append_nil _).symm
  have hlen : txn.data.length < 2 ^ 32 := hfits
  obtain ⟨hh, hdrop⟩ := headerOk_of_request hd hlen
  obtain ⟨hnat, hword, hsize, hat, hrest⟩ := stringAt_of_drop hdrop hlen
  have hend : addEnd txn.data ≤ txn.data.length := by
    have hle := congrArg List.length hdrop
    have h64 := hh.1
    rw [List.length_drop, List.length_append, length_writeString16, List.length_nil] at hle
    unfold addEnd
    rw [hsize]
    omega
  have hin := hat.1
  refine ⟨?_, hat, ?_⟩
  · rw [readName_eq hh hend, hword]
  · have h68 : 68 ≤ addEnd txn.data := Nat.le_add_right _ _
    have hcode : txn.code = SVC_MGR_GET_SERVICE ∨ txn.code = SVC_MGR_CHECK_SERVICE := Or.inr rfl
    rw [svcmgrHandler_of_header rfl hh, svcmgrSwitch, if_pos hcode,
      onGetService_eq (by omega) hend (by rw [hnat]; omega), hnat, hat.2.1]
    rfl

/-- A message that begins as an add does, with an object and a flag behind the name. -/
theorem add_layout {d : List UInt8} (s : Sender) (name : String16) (o : flat_binder_object)
    (flag : BitVec 32) (hd : d = (checkData s name).bytes ++ (o.bytes ++ wordBytes flag))
    (hlen : d.length < 2 ^ 32) :
    HeaderOk d ∧ (lenAt d 64).toNat = name.length ∧ lenAt d 64 = BitVec.ofNat 32 name.length ∧
      StringAt d 68 name ∧ addEnd d = (checkData s name).bytes.length ∧
      addEnd d + 20 = d.length ∧ wordOf (d.drop (addEnd d)) = o.type ∧
      wordOf (d.drop (addEnd d + 8)) = o.binder ∧ lenAt d (addEnd d + 16) = flag := by
  obtain ⟨hh, hdrop⟩ := headerOk_of_request hd hlen
  obtain ⟨hnat, hword, hsize, hat, hrest⟩ := stringAt_of_drop hdrop hlen
  have hlast : d.drop (addEnd d) = o.bytes ++ wordBytes flag := hrest
  have hdlen : d.length = (checkData s name).bytes.length + 20 := by
    rw [hd, List.length_append]
    rfl
  have hend : addEnd d = (checkData s name).bytes.length := by
    have hle := congrArg List.length hdrop
    have h64 := hh.1
    have htail : (o.bytes ++ wordBytes flag).length = 20 := rfl
    rw [List.length_drop, List.length_append, length_writeString16, htail] at hle
    unfold addEnd
    rw [hsize]
    omega
  refine ⟨hh, hnat, hword, hat, hend, by omega, ?_, ?_, ?_⟩
  · rw [hlast, flat_binder_object.bytes, List.append_assoc]
    exact wordOf_wordBytes _ _
  · rw [← List.drop_drop, hlast]
    exact wordOf_wordBytes o.binder _
  · unfold lenAt
    rw [← List.drop_drop, hlast]
    exact wordOf_wordBytes flag []

/-- A registration comes to an end when what goes to the log does. -/
theorem doAddService_returns {b : Services} {d : List UInt8} {p len uid k : Nat} {ptr : BitVec 32}
    {allow_isolated malloc : Bool} (hptr : ptr ≠ 0) (hpos : len ≠ 0) (hlen : len ≤ 127)
    (hin : p + 2 * (len + 1) ≤ d.length) (hk : p + 2 * k + 2 ≤ d.length)
    (hstop : 127 < (charAt d (p + 2 * k)).toNat) (hterm : Terminated d p) :
    ∃ res b', b.doAddService d (some p) len ptr uid allow_isolated malloc = .ok (res, b') ∧
      (res = 0 ∨ res = -1) := by
  rw [doAddService_eq hptr hpos hlen hin hk hstop]
  split
  · split
    · split
      · exact ⟨_, _, logged_eq.mpr ⟨hterm, rfl⟩, Or.inl rfl⟩
      · exact ⟨_, _, rfl, Or.inl rfl⟩
    · split
      · exact ⟨_, _, rfl, Or.inl rfl⟩
      · exact ⟨_, _, logged_eq.mpr ⟨hterm, rfl⟩, Or.inr rfl⟩
  · exact ⟨_, _, logged_eq.mpr ⟨hterm, rfl⟩, Or.inr rfl⟩

/-- The add of a service, as it is delivered, has all that it is to have. -/
theorem add_delivered (w : Wire) (s : Sender) (uid : Nat) (name : String16)
    (service : Option IBinder) (allowIsolated : Bool)
    (hfits : (addData s name service allowIsolated).bytes.length < 2 ^ 32) :
    let txn := w.deliver ADD_SERVICE_TRANSACTION uid (addData s name service allowIsolated)
    HeaderOk txn.data ∧ (lenAt txn.data 64).toNat = name.length ∧
      lenAt txn.data 64 = BitVec.ofNat 32 name.length ∧ StringAt txn.data 68 name ∧
      addEnd txn.data + 20 = txn.data.length ∧
      (HasObject txn.data txn.offs (addEnd txn.data) ↔ HasNode s service) ∧
      (HasNode s service → refAt txn.data (addEnd txn.data) = handleOf w s service) ∧
      lenAt txn.data (addEnd txn.data + 16) = if allowIsolated then 1 else 0 := by
  intro txn
  have htxn := deliver_add w s uid name service allowIsolated ADD_SERVICE_TRANSACTION
  have hdata := congrArg binder_txn.data htxn
  have hoffs := congrArg binder_txn.offs htxn
  change txn.data = _ at hdata
  change txn.offs = _ at hoffs
  have hsize : (addData s name service allowIsolated).bytes.length =
      (checkData s name).bytes.length + 20 := by
    rw [addData, Chunk.bytes_add, List.length_append]
    rfl
  have hlen : txn.data.length < 2 ^ 32 := by
    rw [hdata, List.length_append]
    show (checkData s name).bytes.length + 20 < _
    omega
  obtain ⟨hh, hnat, hword, hat, hend, hall, htype, hbinder, hflag⟩ := add_layout s name _
    (if allowIsolated then 1 else 0) hdata hlen
  refine ⟨hh, hnat, hword, hat, hall, ⟨?_, ?_⟩, ?_, hflag⟩
  · rintro ⟨⟨off, hoff, -⟩, -⟩
    rw [hoffs] at hoff
    by_cases hn : HasNode s service
    · exact hn
    · rw [if_neg hn] at hoff
      cases hoff
  · intro hn
    refine ⟨⟨_, by rw [hoffs, if_pos hn]; exact List.mem_singleton_self _, ?_⟩, by omega⟩
    rw [hend, BitVec.toNat_ofNat]
    omega
  · intro hn
    unfold deliveredObject at htype hbinder
    rw [if_pos hn] at htype hbinder
    unfold refAt handleOf
    rw [htype, if_pos hn, hbinder]
    exact if_pos rfl

/-- An add is read as the add of the same name, with the service manager's handle, and the same
flag where there is a handle. -/
theorem add_read (b : Services) (malloc : Bool) (reply : reply_io) (w : Wire) (s : Sender)
    (uid : Nat) (name : String16) (service : Option IBinder) (allowIsolated : Bool)
    (hfits : (addData s name service allowIsolated).bytes.length < 2 ^ 32) :
    let txn := w.deliver ADD_SERVICE_TRANSACTION uid (addData s name service allowIsolated)
    readAdd txn = .ok (some 68, BitVec.ofNat 32 name.length, handleOf w s service,
      if HasNode s service ∧ allowIsolated then 1 else 0) ∧ StringAt txn.data 68 name ∧
      svcmgrHandler b malloc txn reply = (b.doAddService txn.data (some 68) name.length
        (handleOf w s service) uid allowIsolated malloc).map (addReply reply) := by
  intro txn
  obtain ⟨hh, hnat, hword, hat, hall, hobj, href, hflag⟩ :=
    add_delivered w s uid name service allowIsolated hfits
  change HeaderOk txn.data at hh
  change addEnd txn.data + 20 = txn.data.length at hall
  have h68 : 68 ≤ addEnd txn.data := Nat.le_add_right _ _
  have hcode : txn.code = SVC_MGR_ADD_SERVICE := rfl
  have hhandler : svcmgrHandler b malloc txn reply =
      onAddService b malloc txn (cursor txn.data txn.offs 64) reply := by
    rw [svcmgrHandler_of_header rfl hh, svcmgrSwitch, if_neg (by rw [hcode]; decide),
      if_pos hcode]
  by_cases hn : HasNode s service
  · have hflagAt : flagAt txn.data (addEnd txn.data + 16) = allowIsolated := by
      unfold flagAt
      rw [if_pos (by omega), hflag]
      cases allowIsolated <;> rfl
    refine ⟨?_, hat, ?_⟩
    · rw [readAdd_eq hh (by omega), if_pos (hobj.mpr hn), href hn, hflag, hword]
      simp [hn]
    · rw [hhandler, onAddService_eq hh.1, if_pos ⟨by omega, hobj.mpr hn⟩, hnat, href hn, hflagAt]
      rfl
  · have hzero : handleOf w s service = 0 := if_neg hn
    have hnot : ¬ HasObject txn.data txn.offs (addEnd txn.data) := fun h => hn (hobj.mp h)
    rw [hzero]
    refine ⟨?_, hat, ?_⟩
    · rw [readAdd_eq hh (by omega), if_neg hnot, hword]
      simp [hn]
    · rw [hhandler, onAddService_eq hh.1, if_neg fun h => hnot h.2,
        doAddService_invalid (Or.inl rfl)]
      rfl

/-- The registration comes to an end. -/
theorem add_returns (b : Services) (malloc : Bool) (w : Wire) (s : Sender) (uid : Nat)
    (name : String16) (service : Option IBinder) (allowIsolated : Bool)
    (hfits : (addData s name service allowIsolated).bytes.length < 2 ^ 32) :
    let txn := w.deliver ADD_SERVICE_TRANSACTION uid (addData s name service allowIsolated)
    ∃ res b', b.doAddService txn.data (some 68) name.length (handleOf w s service) uid
      allowIsolated malloc = .ok (res, b') ∧ (res = 0 ∨ res = -1) := by
  intro txn
  obtain ⟨hh, hnat, hword, hat, hall, hobj, href, hflag⟩ :=
    add_delivered w s uid name service allowIsolated hfits
  change StringAt txn.data 68 name at hat
  change addEnd txn.data + 20 = txn.data.length at hall
  have hin := hat.1
  by_cases hvalid : handleOf w s service = 0 ∨ name.length = 0 ∨ 127 < name.length
  · exact ⟨-1, b, doAddService_invalid hvalid, Or.inr rfl⟩
  · rw [not_or, not_or] at hvalid
    obtain ⟨hptr, hpos, hlong⟩ := hvalid
    have hn : HasNode s service := by
      by_contra hnot
      exact hptr (if_neg hnot)
    have hplace : addEnd txn.data = 68 + 2 * (stringSize txn.data 64 / 2) := by
      have hfour : stringSize txn.data 64 % 4 = 0 := by
        unfold stringSize roundUp
        omega
      unfold addEnd
      omega
    have hterm : Terminated txn.data 68 := ⟨name.length, by omega, by omega, Or.inl hat.2.2⟩
    have hstop : 127 < (charAt txn.data (68 + 2 * (stringSize txn.data 64 / 2))).toNat := by
      rw [← hplace]
      exact charAt_handle (by rw [href hn]; exact hptr)
    exact doAddService_returns hptr hpos (by omega) (by omega) (by omega) hstop hterm

/-! ## What the client is told -/

/-- What the buffer of a reply has after its first write. -/
theorem take_store (rdata bytes : List UInt8) {n : Nat} (hn : bytes.length = n) :
    (store rdata 0 bytes).take n = bytes := List.take_left' hn

/-- The object of a handle, as the client gets and reads it. -/
theorem readStrongBinder_object (o : flat_binder_object) :
    (readStrongBinder (.received ⟨o.bytes, [0]⟩)).1 = unflattenBinder (some o) := by
  have hof : flat_binder_object.ofBytes (o.bytes.drop 0) = o := by
    have h := flat_binder_object.ofBytes_bytes o []
    rw [List.append_nil] at h
    exact h
  have hobject : (readObject (.received ⟨o.bytes, [0]⟩)).1 = some o := by
    have hin : 0 + 16 ≤ o.bytes.length := Nat.le_refl _
    simp only [readObject, Parcel.received, hin, if_true, hof]
    split <;> rfl
  show unflattenBinder (readObject _).1 = _
  rw [hobject]

theorem unflatten_toClient (w : Wire) (getWeakRefs : Address → Address) (ptr : BitVec 32) :
    unflattenBinder
        (some (w.toClient getWeakRefs ⟨BINDER_TYPE_HANDLE, FLAT_BINDER_FLAGS, ptr, 0⟩)) =
      some (w.behind ptr) := by
  unfold Wire.toClient
  dsimp only
  cases w.behind ptr with
  | proxy handle => rfl
  | «local» a =>
    unfold unflattenBinder
    dsimp only
    rw [if_pos rfl, dif_pos a.2]
    rfl

/-- The handle that was found, or null. -/
def found (w : Wire) (b : Services) (name : String16) (uid : Nat) : Option IBinder :=
  if b.lookup name uid = 0 then none else some (w.behind (b.lookup name uid))

theorem checkService_eq (b : Services) (malloc : Bool) (rdata : List UInt8) (w : Wire) (s : Sender)
    (uid : Nat) (name : String16) (hfits : (checkData s name).bytes.length < 2 ^ 32) :
    checkService s (w.transact s b malloc uid rdata) name = .ok (found w b name uid) := by
  have hread := (check_read b malloc (bioInit rdata) w s uid name hfits).2.2
  unfold checkService Wire.transact
  rw [hread]
  unfold found replyRef
  by_cases hzero : b.lookup name uid = 0
  · rw [if_pos hzero, if_pos hzero]
    show Except.ok (readStrongBinder (.received
      ⟨(store rdata 0 (wordBytes 0)).take 4, []⟩)).1 = _
    rw [take_store rdata (wordBytes 0) (length_wordBytes 0)]
    rfl
  · rw [if_neg hzero, if_neg hzero]
    have hput : bioPutRef (bioInit rdata) (b.lookup name uid) = ⟨store rdata 0
        (flat_binder_object.bytes ⟨BINDER_TYPE_HANDLE, FLAT_BINDER_FLAGS, b.lookup name uid, 0⟩),
        16, 224, [0], 3⟩ := by
      unfold bioPutRef
      rw [if_neg hzero]
      rfl
    rw [hput]
    show Except.ok (readStrongBinder (.received ⟨translate (w.toClient s.getWeakRefs)
      ((store rdata 0 (flat_binder_object.bytes _)).take 16) [0], [0]⟩)).1 = _
    rw [take_store rdata _ (show (flat_binder_object.bytes _).length = 16 from rfl)]
    have hone := translate_one (w.toClient s.getWeakRefs) [] []
      ⟨BINDER_TYPE_HANDLE, FLAT_BINDER_FLAGS, b.lookup name uid, 0⟩
    rw [List.append_nil, List.nil_append, List.append_nil, List.nil_append] at hone
    change translate (w.toClient s.getWeakRefs) _ [0] = _ at hone
    rw [hone, readStrongBinder_object, unflatten_toClient]

/-- The first of five rounds that finds a service. -/
theorem getService_eq (bs : Nat → Services) (malloc : Nat → Bool) (rdata : Nat → List UInt8)
    (w : Wire) (s : Sender) (uid : Nat) (name : String16)
    (hfits : (checkData s name).bytes.length < 2 ^ 32) :
    getService s (fun n => w.transact s (bs n) (malloc n) uid (rdata n)) name =
      .ok ((List.range' 0 5).findSome? fun n => found w (bs n) name uid) := by
  have hloop : ∀ rounds n, getServiceLoop s
      (fun n => w.transact s (bs n) (malloc n) uid (rdata n)) name rounds n =
      .ok ((List.range' n rounds).findSome? fun n => found w (bs n) name uid) := by
    intro rounds
    induction rounds with
    | zero =>
      intro n
      rfl
    | succ rounds ih =>
      intro n
      unfold getServiceLoop
      rw [checkService_eq (bs n) (malloc n) (rdata n) w s uid name hfits, List.range'_succ,
        List.findSome?_cons]
      cases hfound : found w (bs n) name uid with
      | none => exact ih (n + 1)
      | some svc => rfl
  exact hloop 5 0

theorem addService_eq (b : Services) (malloc : Bool) (rdata : List UInt8) (w : Wire) (s : Sender)
    (uid : Nat) (name : String16) (service : Option IBinder) (allowIsolated : Bool) {res : Int}
    {b' : Services} (hh : svcmgrHandler b malloc (w.deliver ADD_SERVICE_TRANSACTION uid
      (addData s name service allowIsolated)) (bioInit rdata) =
        .ok (addReply (bioInit rdata) (res, b'))) :
    addService s (w.transact s b malloc uid rdata) name service allowIsolated =
      .ok (if res = 0 then 0 else BitVec.ofInt 32 (-1)) := by
  unfold addService Wire.transact
  rw [hh]
  by_cases hres : res = 0
  · have hreply : addReply (bioInit rdata) (res, b') =
        ⟨0, bioPutUint32 (bioInit rdata) 0, b'⟩ := if_neg (not_not.mpr hres)
    rw [if_pos hres, hreply]
    show Except.ok (readExceptionCode (.received
      ⟨(store rdata 0 (wordBytes 0)).take 4, []⟩)).1 = _
    rw [take_store rdata (wordBytes 0) (length_wordBytes 0)]
    rfl
  · have hreply : addReply (bioInit rdata) (res, b') = ⟨-1, bioInit rdata, b'⟩ := if_pos hres
    have hsend : binderSendReply ⟨-1, bioInit rdata, b'⟩ =
        ⟨true, wordBytes (BitVec.ofInt 32 (-1)), []⟩ :=
      if_pos (show (-1 : Int) ≠ 0 by decide)
    have hword : wordOf (wordBytes (BitVec.ofInt 32 (-1))) = BitVec.ofInt 32 (-1) :=
      wordOf_wordBytes _ []
    rw [if_neg hres, hreply]
    simp only [bind, Except.bind, hsend]
    show (if wordOf (wordBytes (BitVec.ofInt 32 (-1))) = 0 then _ else
      Except.ok (wordOf (wordBytes (BitVec.ofInt 32 (-1)))) : Except Fault (BitVec 32)) = _
    rw [hword]
    rfl

/-! ## The same format -/

/-- The handler reads each request as it was written, if the service of an add has a node;
and the client reads what the handler found, or its status. -/
theorem same_format (w : Wire) (s : Sender) (b : Services) (malloc : Bool) (uid : Nat)
    (rdata : List UInt8) (name : String16) :
    ((checkData s name).bytes.length < 2 ^ 32 →
      let txn := w.deliver CHECK_SERVICE_TRANSACTION uid (checkData s name)
      readName txn = .ok (some 68, BitVec.ofNat 32 name.length) ∧ StringAt txn.data 68 name ∧
      svcmgrHandler b malloc txn (bioInit rdata) =
        .ok ⟨0, replyRef (bioInit rdata) (b.lookup name uid), b⟩ ∧
      checkService s (w.transact s b malloc uid rdata) name = .ok (found w b name uid) ∧
      ∀ bs : Nat → Services,
        getService s (fun n => w.transact s (bs n) malloc uid rdata) name =
          .ok ((List.range' 0 5).findSome? fun n => found w (bs n) name uid)) ∧
    ∀ service allowIsolated,
      (addData s name service allowIsolated).bytes.length < 2 ^ 32 →
      let txn := w.deliver ADD_SERVICE_TRANSACTION uid (addData s name service allowIsolated)
      readAdd txn = .ok (some 68, BitVec.ofNat 32 name.length, handleOf w s service,
        if HasNode s service ∧ allowIsolated then 1 else 0) ∧ StringAt txn.data 68 name ∧
      ∃ res b', b.doAddService txn.data (some 68) name.length (handleOf w s service) uid
          allowIsolated malloc = .ok (res, b') ∧
        svcmgrHandler b malloc txn (bioInit rdata) = .ok (addReply (bioInit rdata) (res, b')) ∧
        addService s (w.transact s b malloc uid rdata) name service allowIsolated =
          .ok (BitVec.ofInt 32 res) := by
  constructor
  · intro hfits txn
    obtain ⟨hread, hat, hhandler⟩ := check_read b malloc (bioInit rdata) w s uid name hfits
    refine ⟨hread, hat, hhandler, checkService_eq b malloc rdata w s uid name hfits, ?_⟩
    intro bs
    exact getService_eq bs (fun _ => malloc) (fun _ => rdata) w s uid name hfits
  · intro service allowIsolated hfits txn
    obtain ⟨hread, hat, hhandler⟩ :=
      add_read b malloc (bioInit rdata) w s uid name service allowIsolated hfits
    obtain ⟨res, b', hok, hres⟩ := add_returns b malloc w s uid name service allowIsolated hfits
    rw [hok] at hhandler
    refine ⟨hread, hat, res, b', hok, hhandler, ?_⟩
    rw [addService_eq b malloc rdata w s uid name service allowIsolated hhandler]
    rcases hres with rfl | rfl
    · rfl
    · rfl

/-! ## A client -/

/-- The service manager has the handle 7 for everything, and the client its handles. -/
def plainWire : Wire := ⟨fun _ => ⟨7, by decide⟩, .proxy⟩

def plainSender : Sender := ⟨0, id⟩

def nfc : String16 := .ofAscii (ascii "nfc")

theorem nfc_same_format :
    checkService plainSender (plainWire.transact plainSender noServices true 0 []) nfc =
      .ok (found plainWire noServices nfc 0) ∧
    ∃ res : Int, addService plainSender (plainWire.transact plainSender noServices true 0 []) nfc
      (some (.proxy 5)) true = .ok (BitVec.ofInt 32 res) := by
  obtain ⟨hcheck, hadd⟩ := same_format plainWire plainSender noServices true 0 [] nfc
  obtain ⟨-, -, -, hfound, -⟩ := hcheck (by decide +kernel)
  obtain ⟨-, -, res, -, -, -, hstatus⟩ := hadd (some (.proxy 5)) true (by decide +kernel)
  exact ⟨hfound, res, hstatus⟩

/-- The service manager itself, the handle 0, is offered to isolated callers: its object has no
offset, and nothing behind it is read, the flag neither. -/
theorem manager_flag_lost :
    result (readAdd (plainWire.deliver ADD_SERVICE_TRANSACTION 0
      (addData plainSender nfc (some (.proxy 0)) true))) = some (some 68, 3, 0, 0) ∧
    ¬ ∀ (w : Wire) (s : Sender) (uid : Nat) (name : String16) (service : Option IBinder)
      (allowIsolated : Bool), (addData s name service allowIsolated).bytes.length < 2 ^ 32 →
      readAdd (w.deliver ADD_SERVICE_TRANSACTION uid (addData s name service allowIsolated)) =
        .ok (some 68, BitVec.ofNat 32 name.length, handleOf w s service,
          if allowIsolated then 1 else 0) := by
  have hread : result (readAdd (plainWire.deliver ADD_SERVICE_TRANSACTION 0
      (addData plainSender nfc (some (.proxy 0)) true))) = some (some 68, 3, 0, 0) := by
    decide +kernel
  refine ⟨hread, ?_⟩
  intro h
  rw [h plainWire plainSender 0 nfc (some (.proxy 0)) true (by decide +kernel)] at hread
  exact absurd hread (by decide +kernel)

end BpServiceManager

end Cdroid.Servicemanager
