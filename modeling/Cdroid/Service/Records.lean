import Cdroid.Lib.Comp
import Cdroid.Lib.Containers
import Cdroid.Runtime.Values

/-! The state of the system server: the records of `ActivityManagerService`,
`ActivityStack`, `ActiveServices` and `ReceiverHub`, the binders that reach it,
and the world it runs in. A `sp<T>` to a record is a reference into the store of
its class; pids and uids that are only stored are left out. -/

namespace Cdroid.Service
open Cdroid.Lib.Comp Cdroid.Lib.Containers Cdroid.Runtime

/-! ## References, binders and interfaces -/

inductive RecordClass
  | process | activity | service | connection | receiverList | filter | broadcast

abbrev ProcessRef := Ref RecordClass.process
abbrev ActivityRef := Ref RecordClass.activity
abbrev ServiceRef := Ref RecordClass.service
abbrev ConnectionRef := Ref RecordClass.connection
abbrev ReceiverListRef := Ref RecordClass.receiverList
abbrev FilterRef := Ref RecordClass.filter
abbrev BroadcastRef := Ref RecordClass.broadcast

/-- The interfaces whose descriptors `asInterface` asks a local binder for. -/
inductive Descriptor
  | applicationToken | applicationThread | serviceConnection | intentReceiver
  | other (n : Nat)
  deriving DecidableEq

/-- The stub classes of local binders other than `ActivityRecord::Token`, which
is the only class under `BnApplicationToken`. -/
inductive StubClass
  | applicationThread | serviceConnection | intentReceiver
  | other (n : Nat)
  deriving DecidableEq

def StubClass.descriptor : StubClass → Descriptor
  | .applicationThread => .applicationThread
  | .serviceConnection => .serviceConnection
  | .intentReceiver => .intentReceiver
  | .other n => .other n

/-- A binder object as the system server sees it: its own objects come back
from the driver as themselves, everything else as the proxy of a handle. -/
inductive IBinder
  | proxy (handle : Nat)
  | token (r : ActivityRef)
  | service (r : ServiceRef)
  | stub (c : StubClass) (id : Nat)
  deriving DecidableEq

/-- Does `queryLocalInterface` of this descriptor return the object itself? A
`ServiceRecord` is a plain `BBinder` and answers no descriptor. -/
def IBinder.queryLocalInterface : IBinder → Descriptor → Bool
  | .proxy _, _ => false
  | .token _, d => d = .applicationToken
  | .service _, _ => false
  | .stub c _, d => c.descriptor = d

/-- A pointer to an interface: a local object, or a `Bp` object of its own
address over the remote binder. -/
inductive InterfacePtr
  | local (obj : IBinder)
  | bp (address : Nat) (remote : IBinder)
  deriving DecidableEq

/-- `asBinder` tolerates a null `this` and then gives a null binder. -/
def asBinder : Option InterfacePtr → Option IBinder
  | none => none
  | some (.local obj) => some obj
  | some (.bp _ remote) => some remote

/-! ## Records -/

structure ProcessRecord where
  thread : Option InterfacePtr
  name : String8
  pid : Int

structure ActivityRecord where
  mToken : IBinder
  mIntent : Intent
  mCaller : Option ProcessRef
  mResultTo : Option ActivityRef
  mApp : Option ProcessRef
  mActivityInfo : ActivityInfo

/-- The `apps` map holds one `AppBindRecord` for each calling process, which is
its key together with the binding it belongs to. -/
structure IntentBindRecord where
  mIntent : Intent
  apps : List (Option ProcessRef)
  requested : Bool
  received : Bool
  hasBound : Bool
  binder : Option IBinder

/-- `mAppBindRecord` is the service, the action of its binding and the calling
process. -/
structure ConnectionRecord where
  mService : ServiceRef
  mAction : String8
  mCaller : Option ProcessRef
  mActivity : Option ActivityRef
  mConnection : Option InterfacePtr
  mFlags : BitVec 32

structure ServiceRecord where
  mIntent : Intent
  mCaller : Option ProcessRef
  mApp : Option ProcessRef
  mServiceInfo : ServiceInfo
  mBindings : OrdMap String8 IntentBindRecord
  mConnections : OrdMap (Option IBinder) (List ConnectionRef)

structure ReceiverList where
  mApp : ProcessRef
  mReceiver : Option InterfacePtr
  filters : List FilterRef

structure BroadcastFilter where
  mActions : List String8
  mCategories : List String8
  mReceiverList : ReceiverListRef

structure BroadcastRecord where
  mIntent : Option Intent
  mApp : ProcessRef
  mCurApp : Option ProcessRef
  mMap : Option Bundle
  mSerialized : Bool
  mSticky : Bool
  mBroadcastFilter : List FilterRef
  mReceiverInfo : List ReceiverInfo

/-! ## Observations and faults -/

/-- What is done through the `thread` of a `ProcessRecord`. -/
inductive ThreadUse
  | call (c : ApplicationThreadCall IBinder)
  | asBinder
  deriving DecidableEq

/-- What the activity manager does to the outside, in order. A use of a null
`thread` is observed as `throughNull`. -/
inductive Event
  | startViaZygote (niceName : String8) (pid : Int)
  | killProcessByPid (pid : Int)
  | thread (app : ProcessRef) (c : ApplicationThreadCall IBinder)
  | throughNull (app : ProcessRef) (u : ThreadUse)
  | performReceive (bf : FilterRef) (c : IntentReceiverCall)
  | connected (c : ConnectionRef) (call : ServiceConnectionCall IBinder)
  deriving DecidableEq

/-- Why the system server went down. -/
inductive Fault
  | nullThread
  | nullInterface
  | nullRecord
  | nullList
  | typeConfusion
  deriving DecidableEq

/-! ## The world and the state -/

/-- The components that are registered, whatever manifests they come from. -/
structure PackageManagerService where
  mActivities : List ActivityInfo
  mServices : List ServiceInfo
  mReceivers : List ReceiverInfo
  /-- `addApplicationManifest` gives a `ReceiverInfo` its `IntentFilter` before it
  pushes it. -/
  filtered : ∀ ri ∈ mReceivers, ri.mINF.isSome

theorem filtered_nil : ∀ ri ∈ ([] : List ReceiverInfo), ri.mINF.isSome := by simp

/-- What `Process::startViaZygote` returns and stores through its pid pointer. -/
structure ZygoteReply where
  ret : Int
  pid : Int

/-- The surroundings of the activity manager. The package manager lives in the
same process, so `PackageManager::getDefault` reaches it without a parcel.
`zygote` answers a start request after what has happened so far, `before` is the
order of object addresses, and `indeterminate n` is what an unset member or a
missing `return` gives after `n` events. -/
structure World where
  pm : PackageManagerService
  zygote : List Event → ZygoteReply
  before : Option IBinder → Option IBinder → Bool
  indeterminate : Nat → Int

structure State where
  processes : Store RecordClass.process ProcessRecord
  activities : Store RecordClass.activity ActivityRecord
  services : Store RecordClass.service ServiceRecord
  connections : Store RecordClass.connection ConnectionRecord
  receiverLists : Store RecordClass.receiverList ReceiverList
  filters : Store RecordClass.filter BroadcastFilter
  broadcasts : Store RecordClass.broadcast BroadcastRecord
  mProcesses : List ProcessRef
  mProcessesPending : List ProcessRef
  mHistory : List ActivityRef
  mServices : List ServiceRef
  mRegisteredReceivers : OrdMap (Option IBinder) ReceiverListRef
  mReceivers : List FilterRef
  mParallelBroadcasts : List BroadcastRef
  mOrderedBroadcasts : List BroadcastRef
  mBroadcastScheduled : Bool
  mPendingRecord : Option BroadcastRef
  mLastPendingIndex : Int
  /-- `ON_SCHEDULE_BROADCAST` messages sent to the queue's handler and not handled. -/
  messages : Nat
  /-- How many `Bp` objects `interface_cast` has made. -/
  proxies : Nat
  log : List Event

abbrev AM := EStateM Fault State

def emit (e : Event) : AM PUnit := modify fun s => { s with log := s.log ++ [e] }

def modifyProcess (r : ProcessRef) (f : ProcessRecord → ProcessRecord) : AM PUnit :=
  modify fun s => { s with processes := s.processes.update r f }

def modifyActivity (r : ActivityRef) (f : ActivityRecord → ActivityRecord) : AM PUnit :=
  modify fun s => { s with activities := s.activities.update r f }

def modifyService (r : ServiceRef) (f : ServiceRecord → ServiceRecord) : AM PUnit :=
  modify fun s => { s with services := s.services.update r f }

def modifyBroadcast (r : BroadcastRef) (f : BroadcastRecord → BroadcastRecord) : AM PUnit :=
  modify fun s => { s with broadcasts := s.broadcasts.update r f }

/-- `interface_cast`: the object itself where it answers the descriptor, else a
new proxy object. -/
def interfaceCast (d : Descriptor) : Option IBinder → AM (Option InterfacePtr)
  | none => pure none
  | some obj =>
    if obj.queryLocalInterface d then pure (some (.local obj))
    else do
      let s ← get
      modify fun s => { s with proxies := s.proxies + 1 }
      pure (some (.bp s.proxies obj))

/-- A call of an `IApplicationThread` method through `app->thread`. -/
def callThread (app : ProcessRef) (c : ApplicationThreadCall IBinder) : AM PUnit := do
  let s ← get
  match (s.processes.get app).thread with
  | none =>
    emit (.throughNull app (.call c))
    throw .nullThread
  | some _ => emit (.thread app c)

/-- An argument that the callee dereferences at once. -/
def deref {α : Type} : Option α → AM α
  | none => throw .nullRecord
  | some a => pure a

end Cdroid.Service
