import Cdroid.Servicemanager.Bio

/-! `service_manager.c`: the list of services, who may register which, and the handler
of the requests. -/

namespace Cdroid.Servicemanager
open Cdroid.Binder Cdroid.Runtime

/-! ## Who may register -/

def AID_SYSTEM : Nat := 1000
def AID_RADIO : Nat := 1001
def AID_BLUETOOTH : Nat := 1002
def AID_MEDIA : Nat := 1013
def AID_KEYSTORE : Nat := 1017
def AID_DRM : Nat := 1019
def AID_NFC : Nat := 1027
def AID_ISOLATED_START : Nat := 99000
def AID_ISOLATED_END : Nat := 99999
def AID_USER : Nat := 100000

def allowed : List (Nat × String8) :=
  [(AID_MEDIA, ascii "media.audio_flinger"),
    (AID_MEDIA, ascii "media.log"),
    (AID_MEDIA, ascii "media.player"),
    (AID_MEDIA, ascii "media.camera"),
    (AID_MEDIA, ascii "media.audio_policy"),
    (AID_DRM, ascii "drm.drmManager"),
    (AID_NFC, ascii "nfc"),
    (AID_BLUETOOTH, ascii "bluetooth"),
    ( AID_RADIO, ascii "radio.phone"),
    ( AID_RADIO, ascii "radio.sms"),
    ( AID_RADIO, ascii "radio.phonesubinfo"),
    ( AID_RADIO, ascii "radio.simphonebook"),
    ( AID_RADIO, ascii "phone"),
    ( AID_RADIO, ascii "sip"),
    ( AID_RADIO, ascii "isms"),
    ( AID_RADIO, ascii "iphonesubinfo"),
    ( AID_RADIO, ascii "simphonebook"),
    (AID_MEDIA, ascii "common_time.clock"),
    (AID_MEDIA, ascii "common_time.config"),
    (AID_KEYSTORE, ascii "android.security.keystore")]

/-- The loop of `str8`, with `max` characters to go. -/
def str8Loop (d : List UInt8) : Nat → Nat → Except Fault String8
  | max, p => do
    let c ← readUint16 d p
    if c = 0 then pure []
    else match max with
      | 0 => pure []
      | max + 1 => do
        let rest ← str8Loop d max (p + 2)
        pure (c.toNat.toUInt8 :: rest)

/-- For the log. -/
def str8 (d : List UInt8) : Option Nat → Except Fault String8
  | none => pure []
  | some p => str8Loop d 127 p

def str16eqLoop (d : List UInt8) (p : Nat) : String8 → Except Fault Bool
  | [] => do
    let a ← readUint16 d p
    pure (a = 0)
  | b :: bs => do
    let a ← readUint16 d p
    if a = 0 then pure false
    else if a.toNat ≠ b.toNat then pure false
    else str16eqLoop d (p + 2) bs

def str16eq (d : List UInt8) (a : Option Nat) (b : String8) : Except Fault Bool :=
  match a with
  | none => .error .null
  | some p => str16eqLoop d p b

/-- The loop over `allowed`. -/
def svcCanRegisterLoop (d : List UInt8) (uid : Nat) (name : Option Nat) :
    List (Nat × String8) → Except Fault Bool
  | [] => pure false
  | (uid', name') :: rest =>
    if uid = uid' then do
      if ← str16eq d name name' then pure true
      else svcCanRegisterLoop d uid name rest
    else svcCanRegisterLoop d uid name rest

def svcCanRegister (d : List UInt8) (uid : Nat) (name : Option Nat) : Except Fault Bool :=
  if uid = 0 ∨ uid = AID_SYSTEM then pure true else svcCanRegisterLoop d uid name allowed

/-! ## The list -/

/-- An entry is never freed, so `addr`, where it stands, is its own. `name` are the `len`
characters before the zero that ends it, and `death.ptr` is the entry. -/
structure svcinfo where
  addr : Nat
  ptr : BitVec 32
  allow_isolated : Bool
  name : String16
  deriving DecidableEq

def svcinfo.len (si : svcinfo) : Nat := si.name.length

/-- What is written to the driver. -/
inductive Command
  | acquire (ptr : BitVec 32)
  | release (ptr : BitVec 32)
  | requestDeathNotification (ptr : BitVec 32) (death : Nat)
  deriving DecidableEq

/-- `svclist`, the last registered first, and what has been written. -/
structure Services where
  svclist : List svcinfo
  written : List Command
  deriving DecidableEq

namespace Services

def findSvc (d : List UInt8) (s16 : Option Nat) (len : Nat) :
    List svcinfo → Except Fault (Option svcinfo)
  | [] => pure none
  | si :: rest =>
    if len = si.len then do
      if ← memEq d s16 si.name then pure (some si)
      else findSvc d s16 len rest
    else findSvc d s16 len rest

def write (b : Services) (c : Command) : Services := { b with written := b.written ++ [c] }

/-- `si->ptr = ptr`, of the entry at `addr`. -/
def setPtr (b : Services) (addr : Nat) (ptr : BitVec 32) : Services :=
  { b with svclist := b.svclist.map fun si => if si.addr = addr then { si with ptr } else si }

/-- `si->ptr` of the entry at `addr`. -/
def ptrAt (b : Services) (addr : Nat) : BitVec 32 :=
  ((b.svclist.find? fun si => si.addr = addr).map svcinfo.ptr).getD 0

/-- With the entry that `ptr` points to. -/
def svcinfoDeath (b : Services) (addr : Nat) : Services :=
  if b.ptrAt addr ≠ 0 then (b.write (.release (b.ptrAt addr))).setPtr addr 0 else b

def isolated (uid : Nat) : Prop :=
  AID_ISOLATED_START ≤ uid % AID_USER ∧ uid % AID_USER ≤ AID_ISOLATED_END

instance (uid : Nat) : Decidable (isolated uid) := inferInstanceAs (Decidable (_ ∧ _))

def doFindService (b : Services) (d : List UInt8) (s : Option Nat) (len uid : Nat) :
    Except Fault (BitVec 32) := do
  match ← findSvc d s len b.svclist with
  | none => pure 0
  | some si =>
    if si.ptr ≠ 0 then
      if ¬ si.allow_isolated ∧ isolated uid then pure 0 else pure si.ptr
    else pure 0

/-- `binder_acquire` and `binder_link_to_death`, at the end of `do_add_service`. -/
def link (b : Services) (ptr : BitVec 32) (addr : Nat) : Services :=
  (b.write (.acquire ptr)).write (.requestDeathNotification ptr addr)

/-- 0, or -1. `malloc` says whether there is memory for an entry. -/
def doAddService (b : Services) (d : List UInt8) (s : Option Nat) (len : Nat) (ptr : BitVec 32)
    (uid : Nat) (allow_isolated malloc : Bool) : Except Fault (Int × Services) := do
  if ptr = 0 ∨ len = 0 ∨ 127 < len then return (-1, b)
  if !(← svcCanRegister d uid s) then
    let _ ← str8 d s
    return (-1, b)
  match ← findSvc d s len b.svclist with
  | some si =>
    if si.ptr ≠ 0 then
      let _ ← str8 d s
      return (0, ((b.svcinfoDeath si.addr).setPtr si.addr ptr).link ptr si.addr)
    return (0, (b.setPtr si.addr ptr).link ptr si.addr)
  | none =>
    if !malloc then
      let _ ← str8 d s
      return (-1, b)
    match s with
    | none => .error .null
    | some p =>
      if p + 2 * (len + 1) ≤ d.length then
        let addr := b.svclist.length
        let b := { b with svclist := ⟨addr, ptr, allow_isolated, chars d p len⟩ :: b.svclist }
        return (0, b.link ptr addr)
      else .error .outOfBounds

end Services

/-! ## The handler -/

def SVC_MGR_GET_SERVICE : BitVec 32 := 1
def SVC_MGR_CHECK_SERVICE : BitVec 32 := 2
def SVC_MGR_ADD_SERVICE : BitVec 32 := 3
def SVC_MGR_LIST_SERVICES : BitVec 32 := 4

def svcmgr_handle : BitVec 32 := 0

def svcmgr_id : String16 := .ofAscii (ascii "android.os.IServiceManager")

/-- What the handler returns, and leaves. -/
structure Handled where
  res : Int
  reply : reply_io
  services : Services
  deriving DecidableEq

/-- `memcmp(svcmgr_id, s, sizeof(svcmgr_id))` is looked at when the length is right. -/
def isSvcmgrId (d : List UInt8) (s : Option Nat) (len : BitVec 32) : Except Fault Bool :=
  if len.toNat ≠ svcmgr_id.length then pure false else memEq d s svcmgr_id

/-- `SVC_MGR_GET_SERVICE` and `SVC_MGR_CHECK_SERVICE` -/
def onGetService (b : Services) (txn : binder_txn) (msg : binder_io) (reply : reply_io) :
    Except Fault Handled := do
  let (s, len, _) ← bioGetString16 msg
  let ptr ← b.doFindService txn.data s len.toNat txn.sender_euid
  if ptr = 0 then return ⟨0, bioPutUint32 reply 0, b⟩
  return ⟨0, bioPutRef reply ptr, b⟩

/-- `SVC_MGR_ADD_SERVICE` -/
def onAddService (b : Services) (malloc : Bool) (txn : binder_txn) (msg : binder_io)
    (reply : reply_io) : Except Fault Handled := do
  let (s, len, msg) ← bioGetString16 msg
  let (ptr, msg) ← bioGetRef msg
  let (allow_isolated, _) ← bioGetUint32 msg
  let (res, b) ← b.doAddService txn.data s len.toNat ptr txn.sender_euid (allow_isolated ≠ 0) malloc
  if res ≠ 0 then return ⟨-1, reply, b⟩
  return ⟨0, bioPutUint32 reply 0, b⟩

/-- `SVC_MGR_LIST_SERVICES`: the loop goes on `n` entries, or to the end. -/
def onListServices (b : Services) (msg : binder_io) (reply : reply_io) : Except Fault Handled := do
  let (n, _) ← bioGetUint32 msg
  match b.svclist[n.toNat]? with
  | some si => return ⟨0, bioPutString16 reply si.name, b⟩
  | none => return ⟨-1, reply, b⟩

/-- `switch(txn->code)` -/
def svcmgrSwitch (b : Services) (malloc : Bool) (txn : binder_txn) (msg : binder_io)
    (reply : reply_io) : Except Fault Handled :=
  if txn.code = SVC_MGR_GET_SERVICE ∨ txn.code = SVC_MGR_CHECK_SERVICE then
    onGetService b txn msg reply
  else if txn.code = SVC_MGR_ADD_SERVICE then onAddService b malloc txn msg reply
  else if txn.code = SVC_MGR_LIST_SERVICES then onListServices b msg reply
  else pure ⟨-1, reply, b⟩

def svcmgrHandler (b : Services) (malloc : Bool) (txn : binder_txn) (reply : reply_io) :
    Except Fault Handled := do
  if txn.target ≠ svcmgr_handle then return ⟨-1, reply, b⟩
  let (_, msg) ← bioGetUint32 (bioInitFromTxn txn)
  let (s, len, msg) ← bioGetString16 msg
  if !(← isSvcmgrId txn.data s len) then
    let _ ← str8 txn.data s
    return ⟨-1, reply, b⟩
  svcmgrSwitch b malloc txn msg reply

end Cdroid.Servicemanager
