import Cdroid.Service.Records

/-! The activity manager as the source computes it: `PackageManagerService`'s
lookups, `ActivityStack`, `ActiveServices`, `ReceiverHub` with its
`BroadcastMessageQueue`, and the entry points of `ActivityManagerService`.
A C++ function that falls off its end returns nothing here, unless a caller
looks at the value. -/

namespace Cdroid.Service
open Cdroid.Lib.Comp Cdroid.Lib.Containers Cdroid.Runtime

/-! ## PackageManagerService -/

namespace PackageManagerService

def resolveActivityInfo (pm : PackageManagerService) (action : String8) : Option ActivityInfo :=
  pm.mActivities.find? fun ai => ai.mAction = action

def resolveServiceInfo (pm : PackageManagerService) (action : String8) : Option ServiceInfo :=
  pm.mServices.find? fun si => si.mAction = action

def resolveIntentReceivers (pm : PackageManagerService) (intent : Option Intent) :
    List ReceiverInfo :=
  pm.mReceivers.filter fun ri => ri.mINF.any fun inf => intent.any inf.matchIntent

end PackageManagerService

/-- `matchIntent` over a list of filters reads the intent's action as soon as one
of them has an action to compare with. -/
def derefToMatch (intent : Option Intent) (actions : List (List String8)) : AM PUnit :=
  if intent = none ∧ ∃ l ∈ actions, l ≠ [] then throw .nullRecord else pure ⟨⟩

/-! ## Process records -/

/-- `getRecordForAppLocked`: compares interface pointers. -/
def State.getRecordForAppLocked (s : State) (thread : Option InterfacePtr) : Option ProcessRef :=
  s.mProcesses.find? fun p => (s.processes.get p).thread = thread

/-- `getProcessRecordLocked(appName)` -/
def State.getProcessRecordLocked (s : State) (appName : String8) : Option ProcessRef :=
  s.mProcesses.find? fun p => (s.processes.get p).name = appName

/-- The loop of `getProcessRecordLocked(thread)`: compares the binders, calling
`asBinder` through the `thread` of every record up to the one found. -/
def findByBinder (binder : Option IBinder) : List ProcessRef → AM (Option ProcessRef)
  | [] => pure none
  | p :: ps => do
    let s ← get
    when ((s.processes.get p).thread = none) (emit (.throughNull p .asBinder))
    if asBinder (s.processes.get p).thread = binder then pure (some p)
    else findByBinder binder ps

def getProcessRecordLocked (thread : Option InterfacePtr) : AM (Option ProcessRef) := do
  let s ← get
  findByBinder (asBinder thread) s.mProcesses

section
variable (w : World)

def startProcessLocked (appName : String8) : AM ProcessRef := do
  let s ← get
  match s.getProcessRecordLocked appName with
  | some app => pure app
  | none =>
    let app := s.processes.fresh
    let reply := w.zygote s.log
    emit (.startViaZygote appName reply.pid)
    modify fun s => { s with
      processes := s.processes.alloc ⟨none, appName, reply.pid⟩
      mProcesses := s.mProcesses ++ [app] }
    when (reply.ret = 0)
      (modify fun s => { s with mProcessesPending := s.mProcessesPending ++ [app] })
    pure app

/-! ## ActivityStack -/

/-- The `reinterpret_cast` to `ActivityRecord::Token` and the read of its
`mActivity`. A `BpApplicationToken` has no such member. -/
def readToken : Option InterfacePtr → AM (Option ActivityRef)
  | none => pure none
  | some (.local (.token r)) => pure (some r)
  | some _ => throw .typeConfusion

/-- `none` for the index -1. -/
def indexOfTokenLocked (token : Option IBinder) : AM (Option Nat) := do
  let t ← interfaceCast .applicationToken token
  match ← readToken t with
  | none => pure none
  | some r =>
    let s ← get
    pure (s.mHistory.findIdx? fun q => q = r)

def getActivityRecordByToken (token : Option IBinder) : AM (Option ActivityRef) := do
  match ← indexOfTokenLocked token with
  | none => pure none
  | some index =>
    let s ← get
    pure s.mHistory[index]?

def realStartActivityLocked (r : ActivityRef) (app : ProcessRef) : AM Int := do
  modifyActivity r fun a => { a with mApp := some app }
  let s ← get
  let a := s.activities.get r
  callThread app (.scheduleLaunchActivity (some a.mActivityInfo) (some a.mToken) (some a.mIntent))
  pure 0

/-- The first statement of the second `startActivityLocked`, which checks `thread`
before the call. -/
def pauseSource (sourceRecord : Option ActivityRef) : AM PUnit := do
  let s ← get
  match sourceRecord with
  | none => pure ⟨⟩
  | some source =>
    match (s.activities.get source).mApp with
    | none => pure ⟨⟩
    | some app =>
      when ((s.processes.get app).thread ≠ none)
        (callThread app (.schedulePauseActivity (some (s.activities.get source).mToken)))

/-- The second `startActivityLocked`. -/
def startRecordLocked (r : ActivityRef) (sourceRecord : Option ActivityRef) : AM Int := do
  pauseSource sourceRecord
  let s ← get
  let name := (s.activities.get r).mActivityInfo.mApplicationName
  let app := s.getProcessRecordLocked name
  modify fun s => { s with mHistory := s.mHistory ++ [r] }
  match app with
  | none =>
    let _ ← startProcessLocked w name
    pure 0
  | some app => realStartActivityLocked r app

def startActivityLocked (caller : Option InterfacePtr) (intent : Intent) (resultTo : Option IBinder)
    (requestCode : BitVec 32) : AM Int := do
  let s ← get
  let callerApp := if caller = none then none else s.getRecordForAppLocked caller
  let sourceRecord ← getActivityRecordByToken resultTo
  let resultRecord := if 0 ≤ requestCode.toInt then sourceRecord else none
  match w.pm.resolveActivityInfo intent.mAction with
  | none => pure (-1)
  | some ai =>
    let s ← get
    let r := s.activities.fresh
    modify fun s => { s with
      activities :=
        s.activities.alloc ⟨.token r, intent, callerApp, resultRecord, none, ai⟩ }
    startRecordLocked w r sourceRecord

/-- `ActivityStack::attachApplicationLocked` -/
def attachActivityLocked (app : ProcessRef) : AM Int := do
  let s ← get
  let name := (s.processes.get app).name
  match s.mHistory.find? fun r => (s.activities.get r).mActivityInfo.mApplicationName = name with
  | none => pure (-1)
  | some r => realStartActivityLocked r app

/-! ## ActiveServices -/

def State.retrieveServiceLocked (s : State) (intent : Intent) : Option ServiceRef :=
  s.mServices.find? fun r => (s.services.get r).mServiceInfo.mAction = intent.mAction

/-- `requestServiceBindingsLocked(r, i, false)` for the binding at `action`. Past
the first test it falls off the end, and the loop looks at that value. -/
def requestBindingLocked (r : ServiceRef) (action : String8) (i : IntentBindRecord) : AM Int := do
  let s ← get
  match (s.services.get r).mApp with
  | none => pure (-1)
  | some app =>
    if (s.processes.get app).thread = none then pure (-1)
    else do
      when (!i.requested && 0 < i.apps.length) do
        callThread app (.scheduleBindService (some (.service r)) (some i.mIntent) false)
        modifyService r fun sr => { sr with
          mBindings :=
            sr.mBindings.adjust action fun i => { i with requested := true, hasBound := true } }
      let s ← get
      pure (w.indeterminate s.log.length)

def requestBindings (r : ServiceRef) : OrdMap String8 IntentBindRecord → AM PUnit
  | [] => pure ⟨⟩
  | (action, i) :: rest => do
    let ret ← requestBindingLocked w r action i
    if ret < 0 then pure ⟨⟩ else requestBindings r rest

def requestServiceBindingsLocked (r : ServiceRef) : AM PUnit := do
  let s ← get
  requestBindings w r (s.services.get r).mBindings

/-- Has the service been given a process whose `thread` is set? -/
def State.running (s : State) (r : ServiceRef) : Bool :=
  (s.services.get r).mApp.any fun app => (s.processes.get app).thread.isSome

def realStartServiceLocked (r : ServiceRef) (app : ProcessRef) : AM Int := do
  let s ← get
  when (!s.running r) do
    modifyService r fun sr => { sr with mApp := some app }
    let sr := s.services.get r
    callThread app
      (.scheduleCreateService (some sr.mServiceInfo) (some (.service r)) (some sr.mIntent))
  requestServiceBindingsLocked w r
  pure 0

/-- The second `startServiceLocked`. -/
def startServiceRecordLocked (r : ServiceRef) : AM Int := do
  let s ← get
  let sr := s.services.get r
  let app := s.getProcessRecordLocked sr.mServiceInfo.mApplicationName
  when (sr.mApp = none) (modify fun s => { s with mServices := s.mServices ++ [r] })
  match app with
  | none =>
    let _ ← startProcessLocked w sr.mServiceInfo.mApplicationName
    pure 0
  | some app => realStartServiceLocked w r app

/-- `new ServiceRecord` -/
def newServiceRecord (si : ServiceInfo) (intent : Intent) (callerApp : Option ProcessRef) :
    AM ServiceRef := do
  let s ← get
  modify fun s => { s with services := s.services.alloc ⟨intent, callerApp, none, si, [], []⟩ }
  pure s.services.fresh

def startServiceLocked (caller : Option InterfacePtr) (intent : Intent) : AM Int := do
  let s ← get
  let callerApp := if caller = none then none else s.getRecordForAppLocked caller
  match w.pm.resolveServiceInfo intent.mAction with
  | none => pure (-1)
  | some si =>
    match s.retrieveServiceLocked intent with
    | some _ => pure 0
    | none =>
      let r ← newServiceRecord si intent callerApp
      startServiceRecordLocked w r

/-- `ActiveServices::attachApplicationLocked` -/
def attachServiceLocked (app : ProcessRef) : AM Int := do
  let s ← get
  let name := (s.processes.get app).name
  match s.mServices.find? fun r => (s.services.get r).mServiceInfo.mApplicationName = name with
  | none => pure (-1)
  | some r => realStartServiceLocked w r app

/-- `ServiceRecord::retrieveAppBindingLocked`: afterwards the binding for the
intent's action exists and `app` is among its `apps`. -/
def ServiceRecord.retrieveAppBindingLocked (sr : ServiceRecord) (intent : Intent)
    (app : Option ProcessRef) : ServiceRecord :=
  let bindings := sr.mBindings.insert (fun a b => a < b) intent.mAction
    ⟨intent, [], false, false, false, none⟩
  { sr with mBindings := bindings.adjust intent.mAction fun i =>
      if app ∈ i.apps then i else { i with apps := i.apps ++ [app] } }

/-- `c->mConnection->connected(cm, binder)` -/
def callConnected (c : ConnectionRef) (name : ComponentName) (binder : Option IBinder) :
    AM PUnit := do
  let s ← get
  match (s.connections.get c).mConnection with
  | none => throw .nullInterface
  | some _ => emit (.connected c (.connected (some name) binder))

/-- The record that a `bindService` for this intent works on. -/
def serviceForBind (caller : Option InterfacePtr) (intent : Intent) : AM (Option ServiceRef) := do
  let s ← get
  let callerApp := if caller = none then none else s.getRecordForAppLocked caller
  match s.retrieveServiceLocked intent with
  | some r => pure (some r)
  | none =>
    match w.pm.resolveServiceInfo intent.mAction with
    | none => pure none
    | some si =>
      let r ← newServiceRecord si intent callerApp
      pure (some r)

/-- The connection's list. `clist` stays null when the map has the binder
already. -/
def addConnection (r : ServiceRef) (c : ConnectionRef) (binder : Option IBinder) : AM PUnit := do
  let s ← get
  match (s.services.get r).mConnections.find binder with
  | some _ => throw .nullList
  | none =>
    modifyService r fun sr => { sr with mConnections := sr.mConnections.insert w.before binder [c] }

def bindServiceLocked (caller : Option InterfacePtr) (token : Option IBinder) (intent : Intent)
    (connection : Option InterfacePtr) (flags : BitVec 32) : AM PUnit := do
  let s ← get
  let callerApp := if caller = none then none else s.getRecordForAppLocked caller
  match ← serviceForBind w caller intent with
  | none => pure ⟨⟩
  | some r =>
    let activity ← getActivityRecordByToken token
    modifyService r fun sr => sr.retrieveAppBindingLocked intent callerApp
    let s ← get
    let c := s.connections.fresh
    modify fun s => { s with
      connections :=
        s.connections.alloc ⟨r, intent.mAction, callerApp, activity, connection, flags⟩ }
    addConnection w r c (asBinder connection)
    let _ ← startServiceRecordLocked w r
    let s ← get
    let sr := s.services.get r
    match sr.mApp, sr.mBindings.find intent.mAction with
    | some _, some i => when i.received (callConnected c ⟨sr.mServiceInfo.mName⟩ i.binder)
    | _, _ => pure ⟨⟩

/-- The `reinterpret_cast` of a token to `ServiceRecord`. -/
def readServiceToken : Option IBinder → AM (Option ServiceRef)
  | none => pure none
  | some (.service r) => pure (some r)
  | some _ => throw .typeConfusion

def publishServiceLocked (token : Option IBinder) (intent : Option Intent)
    (service : Option IBinder) : AM Int := do
  match ← readServiceToken token with
  | none => pure (-1)
  | some r =>
    let intent ← deref intent
    let s ← get
    match (s.services.get r).mBindings.find intent.mAction with
    | none => pure (-1)
    | some _ =>
      modifyService r fun sr => { sr with
        mBindings :=
          sr.mBindings.adjust intent.mAction fun i =>
            { i with binder := service, received := true } }
      let sr := s.services.get r
      each (fun c => callConnected c ⟨sr.mServiceInfo.mName⟩ service)
        (sr.mConnections.flatMap fun e => e.2)
      pure 0

/-! ## ReceiverHub and its queue -/

def scheduleBroadcastLocked : AM PUnit := modify fun s => { s with messages := s.messages + 1 }

def processCurBroadcastLocked (r : Option BroadcastRef) (app : ProcessRef) : AM PUnit := do
  let r ← deref r
  let s ← get
  let b := s.broadcasts.get r
  callThread app (.scheduleReceiver b.mIntent b.mMap false b.mSticky)
  scheduleBroadcastLocked

/-- `bf->mReceiverList->mReceiver->performReceive(..)` -/
def performReceive (r : BroadcastRef) (bf : FilterRef) : AM PUnit := do
  let s ← get
  let b := s.broadcasts.get r
  match (s.receiverLists.get (s.filters.get bf).mReceiverList).mReceiver with
  | none => throw .nullInterface
  | some _ => emit (.performReceive bf (.performReceive b.mIntent b.mMap false b.mSticky))

/-- One receiver of the loop over `mReceiverInfo`, `k` being the iterator's
distance from the start. -/
def processReceiverInfo (r : BroadcastRef) (k : Nat) (ri : ReceiverInfo) : AM PUnit := do
  let s ← get
  match s.getProcessRecordLocked ri.mApplicationName with
  | none =>
    let app ← startProcessLocked w ri.mApplicationName
    modifyBroadcast r fun b => { b with mCurApp := some app }
    modify fun s => { s with mPendingRecord := some r, mLastPendingIndex := k }
  | some app => processCurBroadcastLocked (some r) app

/-- The loop itself. The counter `i` that is compared with `mLastPendingIndex`
stays 0. -/
def processReceiverInfos (r : BroadcastRef) : Nat → List ReceiverInfo → AM PUnit
  | _, [] => pure ⟨⟩
  | k, ri :: rest => do
    let s ← get
    if 0 ≤ s.mLastPendingIndex then processReceiverInfos r (k + 1) rest
    else do
      processReceiverInfo w r k ri
      processReceiverInfos r (k + 1) rest

def processBroadcast (r : BroadcastRef) : AM PUnit := do
  let s ← get
  each (performReceive r) (s.broadcasts.get r).mBroadcastFilter
  modifyBroadcast r fun b => { b with mBroadcastFilter := [] }
  processReceiverInfos w r 0 (s.broadcasts.get r).mReceiverInfo
  modify fun s => { s with mLastPendingIndex := -1 }

/-- The loop `while(mParallelBroadcasts.size() > 0)`, at most `n` times round. -/
def drainParallelBroadcasts : Nat → AM PUnit
  | 0 => pure ⟨⟩
  | n + 1 => do
    let s ← get
    match s.mParallelBroadcasts with
    | [] => pure ⟨⟩
    | r :: _ =>
      processBroadcast w r
      modify fun s => { s with mParallelBroadcasts := s.mParallelBroadcasts.tail }
      drainParallelBroadcasts n

/-- `processNextBroadcast(true)`; nothing in the loop lengthens the queue. -/
def processNextBroadcast : AM PUnit := do
  modify fun s => { s with mBroadcastScheduled := false }
  let s ← get
  drainParallelBroadcasts w s.mParallelBroadcasts.length

/-- `BroadcastMessageQueue::attachApplicationLocked`, which clears the pending
record before it passes it on. -/
def attachReceiverLocked (app : ProcessRef) : AM Int := do
  let s ← get
  match s.mPendingRecord with
  | none => pure (-1)
  | some r =>
    let cur ← deref (s.broadcasts.get r).mCurApp
    if (s.processes.get cur).pid = (s.processes.get app).pid then do
      modify fun s => { s with mPendingRecord := none }
      processCurBroadcastLocked none app
      pure 0
    else pure (-1)

/-- The list of the receiver's binder, made on its first registration. -/
def receiverListFor (callerApp : ProcessRef) (receiver : Option InterfacePtr) :
    AM ReceiverListRef := do
  let s ← get
  match s.mRegisteredReceivers.find (asBinder receiver) with
  | some rl => pure rl
  | none =>
    modify fun s => { s with
      receiverLists := s.receiverLists.alloc ⟨callerApp, receiver, []⟩
      mRegisteredReceivers :=
        s.mRegisteredReceivers.insert w.before (asBinder receiver) s.receiverLists.fresh }
    pure s.receiverLists.fresh

/-- `new BroadcastFilter`, entered in its list and in `mReceivers`. -/
def addFilter (callerApp : ProcessRef) (receiver : Option InterfacePtr)
    (filter : Option IntentFilter) : AM PUnit := do
  let rl ← receiverListFor w callerApp receiver
  let inf ← deref filter
  let s ← get
  let bf := s.filters.fresh
  modify fun s => { s with
    filters := s.filters.alloc ⟨inf.mActions, inf.mCategories, rl⟩
    receiverLists := s.receiverLists.update rl fun l => { l with filters := l.filters ++ [bf] }
    mReceivers := s.mReceivers ++ [bf] }

def registerReceiverLocked (caller receiver : Option InterfacePtr) (filter : Option IntentFilter) :
    AM Int := do
  match ← getProcessRecordLocked caller with
  | none => pure (-1)
  | some callerApp =>
    addFilter w callerApp receiver filter
    pure 0

/-- `new BroadcastRecord` -/
def newBroadcastRecord (b : BroadcastRecord) : AM BroadcastRef := do
  let s ← get
  modify fun s => { s with broadcasts := s.broadcasts.alloc b }
  pure s.broadcasts.fresh

/-- Non-serialized broadcasts are put into the queue as two records. -/
def enqueueBroadcast (callerApp : ProcessRef) (intent : Option Intent) (map : Option Bundle)
    (serialized sticky : Bool) (filters : List FilterRef) (receivers : List ReceiverInfo) :
    AM PUnit :=
  if serialized then do
    let r ← newBroadcastRecord
      ⟨intent, callerApp, none, map, serialized, sticky, filters, receivers⟩
    modify fun s => { s with mOrderedBroadcasts := s.mOrderedBroadcasts ++ [r] }
  else do
    let r ← newBroadcastRecord ⟨intent, callerApp, none, map, serialized, sticky, filters, []⟩
    let r2 ← newBroadcastRecord ⟨intent, callerApp, none, map, serialized, sticky, [], receivers⟩
    modify fun s => { s with mParallelBroadcasts := s.mParallelBroadcasts ++ [r, r2] }

/-- The broadcast of a known caller. -/
def acceptBroadcast (callerApp : ProcessRef) (intent : Option Intent) (map : Option Bundle)
    (serialized sticky : Bool) : AM PUnit := do
  let s ← get
  derefToMatch intent (s.mReceivers.map fun bf => (s.filters.get bf).mActions)
  let registeredReceivers := s.mReceivers.filter fun bf =>
    intent.any fun i => (s.filters.get bf).mActions.any fun action => action = i.mAction
  derefToMatch intent (w.pm.mReceivers.map fun ri => (ri.mINF.map fun inf => inf.mActions).getD [])
  let receivers := w.pm.resolveIntentReceivers intent
  enqueueBroadcast callerApp intent map serialized sticky registeredReceivers receivers
  scheduleBroadcastLocked

def broadcastIntentLocked (caller : Option InterfacePtr) (intent : Option Intent)
    (map : Option Bundle) (serialized sticky : Bool) : AM Int := do
  match ← getProcessRecordLocked caller with
  | none => pure (-1)
  | some callerApp =>
    acceptBroadcast w callerApp intent map serialized sticky
    pure 0

/-! ## ActivityManagerService -/

/-- `ActivityManagerService::attachApplicationLocked` -/
def attachApplicationLocked (appThread : Option IBinder) (callingPid : Int) : AM PUnit := do
  let s ← get
  match s.mProcessesPending.find? fun p => (s.processes.get p).pid = callingPid with
  | none => emit (.killProcessByPid callingPid)
  | some app =>
    modify fun s => { s with
      mProcessesPending :=
        s.mProcessesPending.eraseP fun p => (s.processes.get p).pid = callingPid }
    let thread ← interfaceCast .applicationThread appThread
    modifyProcess app fun p => { p with thread := thread }
    when (thread ≠ none) (callThread app (.bindApplication (s.processes.get app).name))
    let res1 ← attachActivityLocked app
    let res2 ← attachServiceLocked w app
    let res3 ← attachReceiverLocked app
    when (res1 = -1 ∧ res2 = -1 ∧ res3 = -1)
      (emit (.killProcessByPid (s.processes.get app).pid))

/-- One request on the `IActivityManager` binder, by the process `callingPid`. -/
def request (callingPid : Int) : ActivityManagerCall IBinder → AM PUnit
  | .attachApplication appThread => attachApplicationLocked w appThread callingPid
  | .startActivity caller resultTo intent requestCode => do
    let appThread ← interfaceCast .applicationThread caller
    let intent ← deref intent
    let _ ← startActivityLocked w appThread intent resultTo requestCode
  | .startService caller intent => do
    let appThread ← interfaceCast .applicationThread caller
    let intent ← deref intent
    let _ ← startServiceLocked w appThread intent
  | .bindService caller token intent connection flags => do
    let appThread ← interfaceCast .applicationThread caller
    let conn ← interfaceCast .serviceConnection connection
    let intent ← deref intent
    bindServiceLocked w appThread token intent conn flags
  | .publishService token intent service => do
    let _ ← publishServiceLocked token intent service
  | .registerReceiver caller receiver filter => do
    let appThread ← interfaceCast .applicationThread caller
    let r ← interfaceCast .intentReceiver receiver
    let _ ← registerReceiverLocked w appThread r filter
  | .broadcastIntent caller intent resultTo map serialized sticky => do
    let appThread ← interfaceCast .applicationThread caller
    let _ ← interfaceCast .intentReceiver resultTo
    let _ ← broadcastIntentLocked w appThread intent map serialized sticky

/-- One atomic step: a request, or the broadcast thread handling one
`ON_SCHEDULE_BROADCAST` message. -/
inductive Action
  | request (callingPid : Int) (call : ActivityManagerCall IBinder)
  | handleMessage
  deriving DecidableEq

def step : Action → AM PUnit
  | .request callingPid call => request w callingPid call
  | .handleMessage => do
    let s ← get
    match s.messages with
    | 0 => pure ⟨⟩
    | n + 1 =>
      modify fun s => { s with messages := n }
      processNextBroadcast w

/-- The state that `ActivityManagerService::main` constructs. `mLastPendingIndex`
is left unset. -/
def init : State where
  processes := .empty ⟨none, [], 0⟩
  activities := .empty ⟨.proxy 0, .ofAction [], none, none, none, .new [] []⟩
  services := .empty ⟨.ofAction [], none, none, .new [] [], [], []⟩
  connections := .empty ⟨⟨0⟩, [], none, none, none, 0⟩
  receiverLists := .empty ⟨⟨0⟩, none, []⟩
  filters := .empty ⟨[], [], ⟨0⟩⟩
  broadcasts := .empty ⟨none, ⟨0⟩, none, none, false, false, [], []⟩
  mProcesses := []
  mProcessesPending := []
  mHistory := []
  mServices := []
  mRegisteredReceivers := []
  mReceivers := []
  mParallelBroadcasts := []
  mOrderedBroadcasts := []
  mBroadcastScheduled := false
  mPendingRecord := none
  mLastPendingIndex := w.indeterminate 0
  messages := 0
  proxies := 0
  log := []

/-- The run `as` leads from the constructed state to `s`, and no step faults. -/
def Reached (as : List Action) (s : State) : Prop := run (step w) as (init w) = .ok ⟨⟩ s

end

end Cdroid.Service
