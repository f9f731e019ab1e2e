import Cdroid.Lib.Comp
import Cdroid.Utils.Fifo
import Cdroid.Runtime.ApplicationLoader

/-! `ActivityThread`: the calls of `IApplicationThread` come in on binder threads and
are posted to the handler of the main thread, whose loop carries them out. Activities
and services are objects of the application's own; what its functions return may
depend on all that has happened. -/

namespace Cdroid.Runtime
open Cdroid.Lib.Comp Cdroid.Utils

section Data
variable (B : Type)

structure ActivityClientRecord where
  mActivityInfo : Option ActivityInfo
  mToken : Option B
  mIntent : Option Intent
  mActivity : Option Nat

structure ServiceClientRecord where
  mServiceInfo : Option ServiceInfo
  mToken : Option B
  mIntent : Option Intent
  mService : Option Nat

structure BindServiceData where
  mToken : Option B
  mIntent : Option Intent
  mRebind : Bool

structure ScheduleReceiverData where
  mIntent : Option Intent
  mBundle : Option Bundle
  mOrdered : Bool
  mSticky : Bool

/-- What the untyped `obj` of a message is. -/
inductive MessageObject
  | activityClientRecord (r : ActivityClientRecord B)
  | iBinderMessageObject (mBinder : Option B)
  | serviceClientRecord (r : ServiceClientRecord B)
  | bindServiceData (d : BindServiceData B)
  | scheduleReceiverData (d : ScheduleReceiverData)

structure Message where
  what : BitVec 32
  obj : Option (MessageObject B)
  runnable : Option Nat

/-- What the main thread does, and the calls that are carried out at once. -/
inductive Event
  /-- a call is carried out, with these arguments -/
  | handled (call : ApplicationThreadCall B)
  | attachActivity (activity : Nat) (token : Option B) (ai : Option ActivityInfo)
  | activityOnCreate (activity : Nat)
  | activityOnStart (activity : Nat)
  | activityOnResume (activity : Nat)
  | activityOnPause (activity : Nat)
  | attachService (service : Nat) (token : Option B) (si : Option ServiceInfo)
  | serviceOnCreate (service : Nat)
  | serviceOnStart (service : Nat)
  | serviceOnStartCommand (service : Nat) (intent : Option Intent)
  | serviceOnBind (service : Nat) (intent : Option Intent)
  | publishService (token : Option B) (intent : Option Intent) (binder : Option B)
  | run (runnable : Nat)
  deriving DecidableEq

/-- A manifest's `create` function: given the intent and what has happened so far, it
makes an object or returns null. -/
abbrev Create := Option Intent → List (Event B) → Option Nat

/-- The application's own code. -/
structure Application where
  handleFile : Files (Create B)
  onBind : Nat → Option Intent → List (Event B) → Option B

structure ActivityThread where
  mAppName : String8
  mActivities : List (ActivityClientRecord B)
  mServices : List (ServiceClientRecord B)
  events : List (Event B)

end Data

inductive Fault
  | nullDereference
  /-- `reinterpret_cast` of an object of another class -/
  | typeConfusion
  /-- the main thread does not come back -/
  | hung
  /-- the step cannot be taken now -/
  | stuck
  deriving DecidableEq

variable {B : Type}

namespace ActivityThread

def init : ActivityThread B := ⟨[], [], [], []⟩

def log (e : Event B) : EStateM Fault (ActivityThread B) PUnit :=
  modify fun t => { t with events := t.events ++ [e] }

def deref {σ α : Type} : Option α → EStateM Fault σ α
  | some a => pure a
  | none => throw .nullDereference

/-! ## The main thread -/

/-- The entry that a loader's search has found; `none` is its null. -/
def await {σ α : Type} : Found α → EStateM Fault σ (Option α)
  | .entry a => pure (some a)
  | .nothing => pure none
  | .never => throw .hung

def scheduleLaunchActivity (app : Application B) (r : ActivityClientRecord B) :
    EStateM Fault (ActivityThread B) PUnit := do
  log (.handled (.scheduleLaunchActivity r.mActivityInfo r.mToken r.mIntent))
  let ai ← deref r.mActivityInfo
  match ← await (loadActivity app.handleFile ai.mFilename ai.mName) with
  | none => pure ⟨⟩
  | some am =>
    match am.createActivity r.mIntent (← get).events with
    | none => pure ⟨⟩
    | some activity =>
      log (.attachActivity activity r.mToken r.mActivityInfo)
      modify fun t =>
        { t with mActivities := t.mActivities ++ [{ r with mActivity := some activity }] }
      log (.activityOnCreate activity)
      log (.activityOnStart activity)
      log (.activityOnResume activity)

/-- The loop goes on after a match, so the last one counts. -/
def activityRecord [DecidableEq B] (t : ActivityThread B) (token : Option B) :
    Option (ActivityClientRecord B) :=
  if token = none then none else t.mActivities.reverse.find? fun r => r.mToken = token

def schedulePauseActivity [DecidableEq B] (token : Option B) :
    EStateM Fault (ActivityThread B) PUnit := do
  log (.handled (.schedulePauseActivity token))
  match activityRecord (← get) token with
  | some r =>
    let _ ← deref r.mActivityInfo
    let activity ← deref r.mActivity
    log (.activityOnPause activity)
  | none => pure ⟨⟩

def scheduleCreateService (app : Application B) (r : ServiceClientRecord B) :
    EStateM Fault (ActivityThread B) PUnit := do
  log (.handled (.scheduleCreateService r.mServiceInfo r.mToken r.mIntent))
  let si ← deref r.mServiceInfo
  match ← await (loadService app.handleFile si.mFilename si.mName) with
  | none => pure ⟨⟩
  | some sMF =>
    match sMF.createService r.mIntent (← get).events with
    | none => pure ⟨⟩
    | some service =>
      log (.attachService service r.mToken r.mServiceInfo)
      modify fun t =>
        { t with mServices := t.mServices ++ [{ r with mService := some service }] }
      log (.serviceOnCreate service)
      log (.serviceOnStart service)
      log (.serviceOnStartCommand service r.mIntent)

def getServiceRecordByToken [DecidableEq B] (t : ActivityThread B) (token : Option B) :
    Option (ServiceClientRecord B) :=
  t.mServices.find? fun r => r.mToken = token

def scheduleBindService [DecidableEq B] (app : Application B) (d : BindServiceData B) :
    EStateM Fault (ActivityThread B) PUnit := do
  log (.handled (.scheduleBindService d.mToken d.mIntent d.mRebind))
  match getServiceRecordByToken (← get) d.mToken with
  | none => pure ⟨⟩
  | some r =>
    let service ← deref r.mService
    let binder := app.onBind service d.mIntent (← get).events
    log (.serviceOnBind service d.mIntent)
    log (.publishService d.mToken d.mIntent binder)

def scheduleReceiver (d : ScheduleReceiverData) : EStateM Fault (ActivityThread B) PUnit :=
  log (.handled (.scheduleReceiver d.mIntent d.mBundle d.mOrdered d.mSticky))

/-- `reinterpret_cast` of `message->obj.get()`, and the first use of the result. -/
def reinterpret_cast {σ α : Type} (view : MessageObject B → Option α) :
    Option (MessageObject B) → EStateM Fault σ α
  | none => throw .nullDereference
  | some obj => match view obj with
    | some a => pure a
    | none => throw .typeConfusion

namespace H

def LAUNCH_ACTIVITY : BitVec 32 := 1
def PAUSE_ACTIVITY : BitVec 32 := 2
def CREATE_SERVICE : BitVec 32 := 3
def BIND_SERVICE : BitVec 32 := 4
def SCHEDULE_RECEIVER : BitVec 32 := 5

/-- `ActivityThread::H::handleMessage` -/
def handleMessage [DecidableEq B] (app : Application B) (message : Message B) :
    EStateM Fault (ActivityThread B) PUnit := do
  if message.what = LAUNCH_ACTIVITY then
    let r ← reinterpret_cast
      (fun | .activityClientRecord r => some r | _ => none) message.obj
    scheduleLaunchActivity app r
  else if message.what = PAUSE_ACTIVITY then
    let token ← reinterpret_cast
      (fun | .iBinderMessageObject mBinder => some mBinder | _ => none) message.obj
    schedulePauseActivity token
  else if message.what = CREATE_SERVICE then
    let r ← reinterpret_cast
      (fun | .serviceClientRecord r => some r | _ => none) message.obj
    scheduleCreateService app r
  else if message.what = BIND_SERVICE then
    let d ← reinterpret_cast
      (fun | .bindServiceData d => some d | _ => none) message.obj
    scheduleBindService app d
  else if message.what = SCHEDULE_RECEIVER then
    let d ← reinterpret_cast
      (fun | .scheduleReceiverData d => some d | _ => none) message.obj
    scheduleReceiver d
  else pure ⟨⟩

/-- `Handler::handleMessage` -/
def dispatchMessage [DecidableEq B] (app : Application B) (message : Message B) :
    EStateM Fault (ActivityThread B) PUnit :=
  match message.runnable with
  | some runnable => log (.run runnable)
  | none => handleMessage app message

end H

end ActivityThread

/-! ## The process -/

/-- The main thread's looper with the messages that have been made, which its queue
knows by their place in the list, and the thread itself. -/
structure ClientProcess (B : Type) where
  looper : Looper
  messages : List (Message B)
  thread : ActivityThread B

namespace ClientProcess
open ActivityThread

/-- The main thread's `H` among the looper's handlers. -/
def mH : Nat := 0

def init : ClientProcess B := ⟨.init, [], .init⟩

/-- `Handler::sendMessage`, when the clock is at `now`. -/
def sendMessage (msg : Message B) (now : Int) : EStateM Fault (ClientProcess B) PUnit :=
  modify fun p => { p with
    looper := p.looper.sendMessageAtTime ⟨now, mH, p.messages.length, msg.what⟩
    messages := p.messages ++ [msg] }

def onThread (x : EStateM Fault (ActivityThread B) PUnit) :
    EStateM Fault (ClientProcess B) PUnit := fun p =>
  match x p.thread with
  | .ok a t => .ok a { p with thread := t }
  | .error e t => .error e { p with thread := t }

/-- `ActivityThread::ApplicationThread` -/
def schedule (now : Int) : ApplicationThreadCall B → EStateM Fault (ClientProcess B) PUnit
  | .schedulePauseActivity token =>
    sendMessage ⟨H.PAUSE_ACTIVITY, some (.iBinderMessageObject token), none⟩ now
  -- carried out on the binder thread
  | .bindApplication appName => onThread do
    log (.handled (.bindApplication appName))
    modify fun t => { t with mAppName := appName }
  | .scheduleLaunchActivity ai token intent =>
    sendMessage ⟨H.LAUNCH_ACTIVITY,
      some (.activityClientRecord ⟨ai, token, intent, none⟩), none⟩ now
  | .scheduleCreateService si token intent =>
    sendMessage ⟨H.CREATE_SERVICE,
      some (.serviceClientRecord ⟨si, token, intent, none⟩), none⟩ now
  | .scheduleBindService token intent rebind =>
    sendMessage ⟨H.BIND_SERVICE, some (.bindServiceData ⟨token, intent, rebind⟩), none⟩ now
  | .scheduleReceiver intent bundle ordered sticky =>
    sendMessage ⟨H.SCHEDULE_RECEIVER,
      some (.scheduleReceiverData ⟨intent, bundle, ordered, sticky⟩), none⟩ now

/-- `Handler::post` of a runnable to the main thread. -/
def post (runnable : Nat) (now : Int) : EStateM Fault (ClientProcess B) PUnit :=
  sendMessage ⟨0, none, some runnable⟩ now

/-- Steps of the looper that others cause, or that it takes by itself. Nobody else
sends to `H`, and nobody takes its messages back. -/
def foreign : Looper.Action → Bool
  | .sendMessageAtTime e => e.handler ≠ mH
  | .removeMessages handler => handler ≠ mH
  | .removeMessagesWhat handler _ => handler ≠ mH
  | .handleMessage .. => false
  | _ => true

inductive Action (B : Type)
  /-- a call comes in when the clock is at `now` -/
  | call (call : ApplicationThreadCall B) (now : Int)
  | post (runnable : Nat) (now : Int)
  /-- the handler returns; the queue is tested again at `now` -/
  | handleMessage (now : Int) (errno : Nat)
  | looper (a : Looper.Action)

/-- The looper takes a step. -/
def advance (a : Looper.Action) : EStateM Fault (ClientProcess B) PUnit := do
  match (← get).looper.next a with
  | some looper => modify fun p => { p with looper }
  | none => throw .stuck

/-- The message that is being handled is carried out, if it is for `H`. -/
def handleCurrent [DecidableEq B] (app : Application B) :
    EStateM Fault (ClientProcess B) PUnit := do
  match (← get).looper.current with
  | none => throw .stuck
  | some e =>
    when (e.handler = mH) do
      let message ← deref (← get).messages[e.message]?
      onThread (H.dispatchMessage app message)

def step [DecidableEq B] (app : Application B) :
    Action B → EStateM Fault (ClientProcess B) PUnit
  | .call call now => schedule now call
  | .post runnable now => post runnable now
  | .handleMessage now errno => do
    handleCurrent app
    advance (.handleMessage now errno)
  | .looper a => if foreign a then advance a else throw .stuck

end ClientProcess

end Cdroid.Runtime
