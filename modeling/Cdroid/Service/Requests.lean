import Cdroid.Binder.Transaction
import Cdroid.Runtime.Parcelable

/-! The requests on `IActivityManager`, `IIntentReceiver`, `IServiceConnection` and
`IWindowManager`: what the proxies send, and the calls that the stubs make of it. -/

namespace Cdroid.Service.Requests
open Cdroid.Lib.Codec Cdroid.Binder Cdroid.Runtime

/-- Both branches of the test for 1 set the flag. -/
theorem isCodec_true : IsCodec At (fun b => some (writeBool b))
    (do let _ ← readInt32; pure true) fun b => b = true where
  reads b hb := by
    subst hb
    exact ⟨_, rfl, (reads_int32 1).bind_pure fun _ => true⟩
  misreads _ _ hnot _ _ _ _ _ he := hnot he.symm

/-! ## IActivityManager -/

namespace ActivityManager

def descriptor : String16 := .ofAscii (ascii "com::cdroid::service::IActivityManager")

/-- `FIRST_CALL_TRANSACTION + 0` -/
@[match_pattern] abbrev TRANSACTION_attachApplication : Nat := 1
@[match_pattern] abbrev TRANSACTION_startActivity : Nat := 2
@[match_pattern] abbrev TRANSACTION_startService : Nat := 3
@[match_pattern] abbrev TRANSACTION_bindService : Nat := 4
@[match_pattern] abbrev TRANSACTION_publishService : Nat := 5
@[match_pattern] abbrev TRANSACTION_registerReceiver : Nat := 6
@[match_pattern] abbrev TRANSACTION_broadcastIntent : Nat := 7

/-- `BpActivityManager` -/
def transact (s : Sender) : ActivityManagerCall Binder.IBinder → Option (Nat × Chunk)
  | .attachApplication appThread =>
    s.transact descriptor TRANSACTION_attachApplication (some (s.writeStrongBinder appThread))
  | .startActivity caller resultTo intent requestCode =>
    s.transact descriptor TRANSACTION_startActivity <|
      andThen (some (s.writeStrongBinder caller)) <|
      andThen (some (s.writeStrongBinder resultTo)) <|
      andThen (throughPointer Intent.writeToParcel intent) (some (writeInt32 requestCode))
  | .startService caller intent =>
    s.transact descriptor TRANSACTION_startService <|
      andThen (some (s.writeStrongBinder caller)) (throughPointer Intent.writeToParcel intent)
  | .bindService caller token intent connection flags =>
    s.transact descriptor TRANSACTION_bindService <|
      andThen (some (s.writeStrongBinder caller)) <|
      andThen (some (s.writeStrongBinder token)) <|
      andThen (throughPointer Intent.writeToParcel intent) <|
      andThen (some (s.writeStrongBinder connection)) (some (writeInt32 flags))
  | .publishService token intent service =>
    s.transact descriptor TRANSACTION_publishService <|
      andThen (some (s.writeStrongBinder token)) <|
      andThen (throughPointer Intent.writeToParcel intent) (some (s.writeStrongBinder service))
  | .registerReceiver caller receiver filter =>
    s.transact descriptor TRANSACTION_registerReceiver <|
      andThen (some (s.writeStrongBinder caller)) <|
      andThen (some (s.writeStrongBinder receiver))
        (throughPointer IntentFilter.writeToParcel filter)
  | .broadcastIntent caller intent resultTo map serialized sticky =>
    s.transact descriptor TRANSACTION_broadcastIntent <|
      andThen (some (s.writeStrongBinder caller)) <|
      andThen (throughPointer Intent.writeToParcel intent) <|
      andThen (some (s.writeStrongBinder resultTo)) <|
      andThen (some (Bundle.writeToParcel map)) <|
      andThen (some (writeBool serialized)) (some (writeBool sticky))

/-- `BnActivityManager::onTransact`, up to the call. -/
def onTransact (code : Nat) : Read (Option (ActivityManagerCall Binder.IBinder)) :=
  match code with
  | TRANSACTION_attachApplication => checked descriptor do
    let _arg0 ← readStrongBinder
    pure (.attachApplication _arg0)
  | TRANSACTION_startActivity => checked descriptor do
    let _arg0 ← readStrongBinder
    let _arg1 ← readStrongBinder
    let _arg2 ← Intent.createFromParcel
    let _arg3 ← readInt32
    pure (.startActivity _arg0 _arg1 (some _arg2) _arg3)
  | TRANSACTION_startService => checked descriptor do
    let _arg0 ← readStrongBinder
    let _arg1 ← Intent.createFromParcel
    pure (.startService _arg0 (some _arg1))
  | TRANSACTION_bindService => checked descriptor do
    let _arg0 ← readStrongBinder
    let _arg1 ← readStrongBinder
    let _arg2 ← Intent.createFromParcel
    let _arg3 ← readStrongBinder
    let _arg4 ← readInt32
    pure (.bindService _arg0 _arg1 (some _arg2) _arg3 _arg4)
  | TRANSACTION_publishService => checked descriptor do
    let _arg0 ← readStrongBinder
    let _arg1 ← Intent.createFromParcel
    let _arg2 ← readStrongBinder
    pure (.publishService _arg0 (some _arg1) _arg2)
  | TRANSACTION_registerReceiver => checked descriptor do
    let _arg0 ← readStrongBinder
    let _arg1 ← readStrongBinder
    let _arg2 ← IntentFilter.createFromParcel
    pure (.registerReceiver _arg0 _arg1 (some _arg2))
  | TRANSACTION_broadcastIntent => checked descriptor do
    let _arg0 ← readStrongBinder
    let _arg1 ← Intent.createFromParcel
    let _arg2 ← readStrongBinder
    let _arg3 ← Bundle.createFromParcel
    -- `_arg4` and `_arg5` are true in either branch
    let _ ← readInt32
    let _ ← readInt32
    pure (.broadcastIntent _arg0 (some _arg1) _arg2 (some _arg3) true true)
  | _ => pure none

def Transported : ActivityManagerCall Binder.IBinder → Prop
  | .attachApplication _ => True
  | .startActivity _ _ intent _ => ∃ i, intent = some i ∧ i.Transported
  | .startService _ intent => ∃ i, intent = some i ∧ i.Transported
  | .bindService _ _ intent _ _ => ∃ i, intent = some i ∧ i.Transported
  | .publishService _ intent _ => ∃ i, intent = some i ∧ i.Transported
  | .registerReceiver _ _ filter => ∃ inf, filter = some inf ∧ inf.Transported
  | .broadcastIntent _ intent _ map serialized sticky =>
    (∃ i, intent = some i ∧ i.Transported) ∧ map ≠ none ∧ serialized = true ∧ sticky = true

theorem delivered (s : Sender) (call : ActivityManagerCall Binder.IBinder) :
    Delivered (transact s) onTransact call ↔ Transported call := by
  have hlen : descriptor.length < 2 ^ 31 - 1 := by decide
  have hintent := Intent.isCodec.pointer
  have hfilter := IntentFilter.isCodec.pointer
  have hbinder := isCodec_binder s.getWeakRefs
  cases call with
  | attachApplication appThread =>
    exact transact_iff hbinder ActivityManagerCall.attachApplication
      (fun _ _ h => by cases h; rfl) s hlen onTransact rfl appThread
  | startActivity caller resultTo intent requestCode =>
    refine (transact_iff (hbinder.pair (hbinder.pair (hintent.pair isCodec_int32)))
      (fun p => ActivityManagerCall.startActivity p.1 p.2.1 p.2.2.1 p.2.2.2)
      (fun ⟨_, _, _, _⟩ ⟨_, _, _, _⟩ h => by cases h; rfl) s hlen onTransact ?_
      (caller, resultTo, intent, requestCode)).trans ?_
    · simp only [onTransact, bind_assoc, pure_bind]
    · simp [Transported]
  | startService caller intent =>
    refine (transact_iff (hbinder.pair hintent)
      (fun p => ActivityManagerCall.startService p.1 p.2)
      (fun ⟨_, _⟩ ⟨_, _⟩ h => by cases h; rfl) s hlen onTransact ?_ (caller, intent)).trans ?_
    · simp only [onTransact, bind_assoc, pure_bind]
    · simp [Transported]
  | bindService caller token intent connection flags =>
    refine (transact_iff (hbinder.pair (hbinder.pair (hintent.pair (hbinder.pair isCodec_int32))))
      (fun p => ActivityManagerCall.bindService p.1 p.2.1 p.2.2.1 p.2.2.2.1 p.2.2.2.2)
      (fun ⟨_, _, _, _, _⟩ ⟨_, _, _, _, _⟩ h => by cases h; rfl) s hlen onTransact ?_
      (caller, token, intent, connection, flags)).trans ?_
    · simp only [onTransact, bind_assoc, pure_bind]
    · simp [Transported]
  | publishService token intent service =>
    refine (transact_iff (hbinder.pair (hintent.pair hbinder))
      (fun p => ActivityManagerCall.publishService p.1 p.2.1 p.2.2)
      (fun ⟨_, _, _⟩ ⟨_, _, _⟩ h => by cases h; rfl) s hlen onTransact ?_
      (token, intent, service)).trans ?_
    · simp only [onTransact, bind_assoc, pure_bind]
    · simp [Transported]
  | registerReceiver caller receiver filter =>
    refine (transact_iff (hbinder.pair (hbinder.pair hfilter))
      (fun p => ActivityManagerCall.registerReceiver p.1 p.2.1 p.2.2)
      (fun ⟨_, _, _⟩ ⟨_, _, _⟩ h => by cases h; rfl) s hlen onTransact ?_
      (caller, receiver, filter)).trans ?_
    · simp only [onTransact, bind_assoc, pure_bind]
    · simp [Transported]
  | broadcastIntent caller intent resultTo map serialized sticky =>
    refine (transact_iff (hbinder.pair (hintent.pair (hbinder.pair (Bundle.isCodec.pair
      (isCodec_true.pair isCodec_true)))))
      (fun p => ActivityManagerCall.broadcastIntent p.1 p.2.1 p.2.2.1 p.2.2.2.1
        p.2.2.2.2.1 p.2.2.2.2.2)
      (fun ⟨_, _, _, _, _, _⟩ ⟨_, _, _, _, _, _⟩ h => by cases h; rfl) s hlen onTransact ?_
      (caller, intent, resultTo, map, serialized, sticky)).trans ?_
    · simp only [onTransact, bind_assoc, pure_bind]
    · simp [Transported]

end ActivityManager

/-! ## IIntentReceiver -/

namespace IntentReceiver

def descriptor : String16 :=
  .ofAscii (ascii "com::cdroid::service::internal::intentreceiver")

@[match_pattern] abbrev TRANSACTION_performReceive : Nat := 1

/-- `BpIntentReceiver` -/
def transact (s : Sender) : IntentReceiverCall → Option (Nat × Chunk)
  | .performReceive intent extra ordered sticky =>
    s.transact descriptor TRANSACTION_performReceive <|
      andThen (throughPointer Intent.writeToParcel intent) <|
      andThen (some (Bundle.writeToParcel extra)) <|
      andThen (some (writeBool ordered)) (some (writeBool sticky))

/-- `BnIntentReceiver::onTransact`, up to the call. -/
def onTransact (code : Nat) : Read (Option IntentReceiverCall) :=
  match code with
  | TRANSACTION_performReceive => checked descriptor do
    let _arg0 ← Intent.createFromParcel
    let _arg1 ← Bundle.createFromParcel
    -- `_arg2` and `_arg3` are true in either branch
    let _ ← readInt32
    let _ ← readInt32
    pure (.performReceive (some _arg0) (some _arg1) true true)
  | _ => pure none

def Transported : IntentReceiverCall → Prop
  | .performReceive intent extra ordered sticky =>
    (∃ i, intent = some i ∧ i.Transported) ∧ extra ≠ none ∧ ordered = true ∧ sticky = true

theorem delivered (s : Sender) (call : IntentReceiverCall) :
    Delivered (transact s) onTransact call ↔ Transported call := by
  have hlen : descriptor.length < 2 ^ 31 - 1 := by decide
  obtain ⟨intent, extra, ordered, sticky⟩ := call
  refine (transact_iff (Intent.isCodec.pointer.pair (Bundle.isCodec.pair
    (isCodec_true.pair isCodec_true)))
    (fun p => IntentReceiverCall.performReceive p.1 p.2.1 p.2.2.1 p.2.2.2)
    (fun ⟨_, _, _, _⟩ ⟨_, _, _, _⟩ h => by cases h; rfl) s hlen onTransact ?_
    (intent, extra, ordered, sticky)).trans ?_
  · simp only [onTransact, bind_assoc, pure_bind]
  · simp [Transported]

end IntentReceiver

/-! ## IServiceConnection -/

namespace ServiceConnection

def descriptor : String16 :=
  .ofAscii (ascii "com::cdroid::service::internal::serviceconnection")

@[match_pattern] abbrev TRANSACTION_connected : Nat := 1

/-- `BpServiceConnection` -/
def transact (s : Sender) : ServiceConnectionCall Binder.IBinder → Option (Nat × Chunk)
  | .connected name service =>
    s.transact descriptor TRANSACTION_connected <|
      andThen (throughPointer ComponentName.writeToParcel name) (some (s.writeStrongBinder service))

/-- `BnServiceConnection::onTransact`, up to the call. -/
def onTransact (code : Nat) : Read (Option (ServiceConnectionCall Binder.IBinder)) :=
  match code with
  | TRANSACTION_connected => checked descriptor do
    let _arg0 ← ComponentName.createFromParcel
    let _arg1 ← readStrongBinder
    pure (.connected (some _arg0) _arg1)
  | _ => pure none

def Transported : ServiceConnectionCall Binder.IBinder → Prop
  | .connected name _ => ∃ cn, name = some cn ∧ Short cn.mName

theorem delivered (s : Sender) (call : ServiceConnectionCall Binder.IBinder) :
    Delivered (transact s) onTransact call ↔ Transported call := by
  have hlen : descriptor.length < 2 ^ 31 - 1 := by decide
  obtain ⟨name, service⟩ := call
  refine (transact_iff (ComponentName.isCodec.pointer.pair (isCodec_binder s.getWeakRefs))
    (fun p => ServiceConnectionCall.connected p.1 p.2)
    (fun ⟨_, _⟩ ⟨_, _⟩ h => by cases h; rfl) s hlen onTransact ?_
    (name, service)).trans ?_
  · simp only [onTransact, bind_assoc, pure_bind]
  · simp [Transported]

end ServiceConnection

/-! ## IWindowManager -/

namespace WindowManager

def descriptor : String16 := .ofAscii (ascii "com::cdroid::service::IWindowManager")

/-- `FIRST_CALL_TRANSACTION + 0` -/
@[match_pattern] abbrev TRANSACTION_wmOnKeyEvent : Nat := 1
@[match_pattern] abbrev TRANSACTION_wmRegisterFocusWindow : Nat := 2
@[match_pattern] abbrev TRANSACTION_wmDisplayText : Nat := 3

/-- `BpWindowManager` -/
def transact (s : Sender) : WindowManagerCall Binder.IBinder → Option (Nat × Chunk)
  | .onKeyEvent keyEvent =>
    s.transact descriptor TRANSACTION_wmOnKeyEvent (throughPointer KeyEvent.writeToParcel keyEvent)
  | .registerFocusWindow binder =>
    s.transact descriptor TRANSACTION_wmRegisterFocusWindow (some (s.writeStrongBinder binder))
  | .displayText txt =>
    s.transact descriptor TRANSACTION_wmDisplayText (throughPointer Text.writeToParcel txt)

/-- `BnWindowManager::onTransact`, up to the call. -/
def onTransact (leftToRight : Bool) (code : Nat) :
    Read (Option (WindowManagerCall Binder.IBinder)) :=
  match code with
  | TRANSACTION_wmOnKeyEvent => checked descriptor do
    let keyEvent ← KeyEvent.createFromParcel leftToRight
    pure (.onKeyEvent (some keyEvent))
  | TRANSACTION_wmRegisterFocusWindow => checked descriptor do
    let binder ← readStrongBinder
    pure (.registerFocusWindow binder)
  | TRANSACTION_wmDisplayText => checked descriptor do
    let txt ← Text.createFromParcel
    pure (.displayText (some txt))
  | _ => pure none

def Transported (leftToRight : Bool) : WindowManagerCall Binder.IBinder → Prop
  | .onKeyEvent keyEvent => ∃ e, keyEvent = some e ∧ e.Transported leftToRight
  | .registerFocusWindow _ => True
  | .displayText txt => ∃ t, txt = some t ∧ Short t.mString

theorem delivered (leftToRight : Bool) (s : Sender) (call : WindowManagerCall Binder.IBinder) :
    Delivered (transact s) (onTransact leftToRight) call ↔ Transported leftToRight call := by
  have hlen : descriptor.length < 2 ^ 31 - 1 := by decide
  cases call with
  | onKeyEvent keyEvent =>
    refine (transact_iff (KeyEvent.isCodec leftToRight).pointer
      WindowManagerCall.onKeyEvent (fun _ _ h => by cases h; rfl) s hlen
      (onTransact leftToRight) ?_ keyEvent)
    simp only [onTransact, bind_assoc, pure_bind]
  | registerFocusWindow binder =>
    exact transact_iff (isCodec_binder s.getWeakRefs)
      WindowManagerCall.registerFocusWindow (fun _ _ h => by cases h; rfl) s hlen
      (onTransact leftToRight) rfl binder
  | displayText txt =>
    refine (transact_iff Text.isCodec.pointer WindowManagerCall.displayText
      (fun _ _ h => by cases h; rfl) s hlen (onTransact leftToRight) ?_ txt)
    simp only [onTransact, bind_assoc, pure_bind]

end WindowManager

/-! ## All of them -/

inductive Request
  | activityManager (call : ActivityManagerCall Binder.IBinder)
  | intentReceiver (call : IntentReceiverCall)
  | serviceConnection (call : ServiceConnectionCall Binder.IBinder)
  | windowManager (call : WindowManagerCall Binder.IBinder)

/-- The proxy follows no null pointer, and the stub makes the same call. -/
def Request.Delivered (leftToRight : Bool) (s : Sender) : Request → Prop
  | .activityManager call =>
    Binder.Delivered (ActivityManager.transact s) ActivityManager.onTransact call
  | .intentReceiver call =>
    Binder.Delivered (IntentReceiver.transact s) IntentReceiver.onTransact call
  | .serviceConnection call =>
    Binder.Delivered (ServiceConnection.transact s) ServiceConnection.onTransact call
  | .windowManager call =>
    Binder.Delivered (WindowManager.transact s) (WindowManager.onTransact leftToRight) call

/-- The objects are there, what is written of them is all that they hold, and the flags
of a broadcast and of a receive are both set. -/
def Request.Transported (leftToRight : Bool) : Request → Prop
  | .activityManager call => ActivityManager.Transported call
  | .intentReceiver call => IntentReceiver.Transported call
  | .serviceConnection call => ServiceConnection.Transported call
  | .windowManager call => WindowManager.Transported leftToRight call

/-- **Requests.** A request arrives as the same call with equal arguments if and only if
it is transported. -/
theorem request_delivered_iff (leftToRight : Bool) (s : Sender) (request : Request) :
    request.Delivered leftToRight s ↔ request.Transported leftToRight := by
  cases request with
  | activityManager call => exact ActivityManager.delivered s call
  | intentReceiver call => exact IntentReceiver.delivered s call
  | serviceConnection call => exact ServiceConnection.delivered s call
  | windowManager call => exact WindowManager.delivered leftToRight s call

/-- A broadcast that is not sticky arrives as one that is. -/
theorem broadcast_not_delivered :
    ¬ ∀ (leftToRight : Bool) (s : Sender) (request : Request), request.Delivered leftToRight s := by
  intro h
  obtain ⟨code, parcel, hparcel, hcall⟩ := h true ⟨0, fun _ => ⟨1, by decide⟩⟩ (.activityManager
    (.broadcastIntent none (some (.ofAction [97])) none (some ⟨⟩) true false))
  cases hparcel
  revert hcall
  decide +kernel

end Cdroid.Service.Requests
