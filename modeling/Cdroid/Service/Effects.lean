import Cdroid.Service.ActivityManager

/-! What each part of the activity manager can change. A relation between states
that allows the updates of a part's own fields and the events of its kind is kept
by every function of that part, so an invariant about one part is proved against
that part's functions only. A use of a null `thread` is allowed apart: some
functions look at `thread` first and need no such permission. -/

namespace Cdroid.Service
open Cdroid.Lib.Comp Cdroid.Lib.Containers Cdroid.Runtime

/-- The part of the activity manager that an event comes from. -/
inductive Part
  | process | activity | service | receiver
  deriving DecidableEq

def callPart : ApplicationThreadCall IBinder → Part
  | .schedulePauseActivity .. => .activity
  | .bindApplication .. => .process
  | .scheduleLaunchActivity .. => .activity
  | .scheduleCreateService .. => .service
  | .scheduleBindService .. => .service
  | .scheduleReceiver .. => .receiver

def Event.part : Event → Part
  | .startViaZygote .. => .process
  | .killProcessByPid .. => .process
  | .thread _ c => callPart c
  | .throughNull _ (.call c) => callPart c
  | .throughNull _ .asBinder => .receiver
  | .performReceive .. => .receiver
  | .connected .. => .service

def Event.isNull : Event → Bool
  | .throughNull .. => true
  | _ => false

/-! ## Relations that allow a part's updates -/

structure AllowsEvents (F : Frame State) (part : Part) : Prop where
  emit : ∀ s e, e.part = part → e.isNull = false → F.rel s { s with log := s.log ++ [e] }

def AllowsNull (F : Frame State) : Prop :=
  ∀ s app u, F.rel s { s with log := s.log ++ [.throughNull app u] }

structure AllowsProcesses (F : Frame State) : Prop extends AllowsEvents F .process where
  own : ∀ s processes mProcesses mProcessesPending,
    F.rel s { s with processes, mProcesses, mProcessesPending }

/-- Two states of an activity record. -/
structure ActivityRecord.Same (a a' : ActivityRecord) : Prop where
  token : a'.mToken = a.mToken
  info : a'.mActivityInfo = a.mActivityInfo

structure AllowsActivities (F : Frame State) : Prop extends AllowsEvents F .activity where
  record : ∀ s r f, (∀ a : ActivityRecord, a.Same (f a)) →
    F.rel s { s with activities := s.activities.update r f }
  new : ∀ s a, a.mToken = .token s.activities.fresh →
    F.rel s { s with activities := s.activities.alloc a }
  history : ∀ s mHistory, F.rel s { s with mHistory }

def AllowsServiceRecords (F : Frame State) : Prop :=
  ∀ s r f, (∀ sr : ServiceRecord, (f sr).mServiceInfo = sr.mServiceInfo) →
    F.rel s { s with services := s.services.update r f }

/-- Two states of a service record with the same connections. -/
structure ServiceRecord.Same (sr sr' : ServiceRecord) : Prop where
  info : sr'.mServiceInfo = sr.mServiceInfo
  connections : sr'.mConnections = sr.mConnections

structure AllowsServices (F : Frame State) : Prop extends AllowsEvents F .service where
  record : ∀ s r f, (∀ sr : ServiceRecord, sr.Same (f sr)) →
    F.rel s { s with services := s.services.update r f }

structure AllowsServiceList (F : Frame State) : Prop extends AllowsServices F where
  list : ∀ s mServices, F.rel s { s with mServices }

structure AllowsNewServices (F : Frame State) : Prop extends AllowsServiceList F where
  new : ∀ s sr, sr.mConnections = [] → F.rel s { s with services := s.services.alloc sr }

structure AllowsBinding (F : Frame State) : Prop extends AllowsNewServices F where
  lists : AllowsServiceRecords F
  connection : ∀ s connections, F.rel s { s with connections }

def AllowsSignals (F : Frame State) : Prop :=
  ∀ s mOrderedBroadcasts mBroadcastScheduled mPendingRecord messages,
    F.rel s { s with mOrderedBroadcasts, mBroadcastScheduled, mPendingRecord, messages }

def AllowsPending (F : Frame State) : Prop :=
  ∀ s mPendingRecord, F.rel s { s with mPendingRecord }

structure AllowsReceivers (F : Frame State) : Prop extends AllowsEvents F .receiver where
  registry : ∀ s receiverLists filters mRegisteredReceivers mReceivers,
    F.rel s { s with receiverLists, filters, mRegisteredReceivers, mReceivers }
  signal : AllowsSignals F

/-- Two states of a record on its way through the queue. -/
structure BroadcastRecord.Same (b b' : BroadcastRecord) : Prop where
  intent : b'.mIntent = b.mIntent
  infos : b'.mReceiverInfo = b.mReceiverInfo

structure AllowsRecords (F : Frame State) : Prop extends AllowsReceivers F where
  record : ∀ s r f, (∀ b : BroadcastRecord, b.Same (f b)) →
    F.rel s { s with broadcasts := s.broadcasts.update r f }
  index : ∀ s mLastPendingIndex, F.rel s { s with mLastPendingIndex }

/-- What the handler of the queue does to the records, without the tables of receivers. -/
structure AllowsHandling (F : Frame State) : Prop extends AllowsEvents F .receiver where
  signal : AllowsSignals F
  record : ∀ s r f, (∀ b : BroadcastRecord, b.Same (f b)) →
    F.rel s { s with broadcasts := s.broadcasts.update r f }
  index : ∀ s mLastPendingIndex, F.rel s { s with mLastPendingIndex }

theorem AllowsRecords.handling {F : Frame State} (h : AllowsRecords F) : AllowsHandling F :=
  ⟨h.toAllowsEvents, h.signal, h.record, h.index⟩

structure AllowsQueue (F : Frame State) : Prop extends AllowsRecords F where
  new : ∀ s b, F.rel s { s with broadcasts := s.broadcasts.alloc b }
  queue : ∀ s mParallelBroadcasts, F.rel s { s with mParallelBroadcasts }

def AllowsProxies (F : Frame State) : Prop := ∀ s proxies, F.rel s { s with proxies }

/-- A cast makes at most one object. -/
def AllowsCasts (F : Frame State) : Prop := ∀ s, F.rel s { s with proxies := s.proxies + 1 }

variable {F : Frame State} (w : World)

theorem AllowsProxies.casts (h : AllowsProxies F) : AllowsCasts F := fun s => h s _

theorem AllowsSignals.pending (h : AllowsSignals F) : AllowsPending F := fun s _ => h s _ _ _ _

theorem keeps_emit {e : Event} (h : AllowsEvents F e.part) (he : e.isNull = false) :
    Keeps F (emit e) := .modify fun s => h.emit s e rfl he

theorem keeps_callThread {app : ProcessRef} {c : ApplicationThreadCall IBinder}
    (h : AllowsEvents F (callPart c)) (hn : AllowsNull F) : Keeps F (callThread app c) := by
  refine .bind .get fun s => ?_
  split
  · exact .bind (.modify fun s => hn s _ _) fun _ => .throw _
  · exact keeps_emit h rfl

theorem wp_callThread {app : ProcessRef} {c : ApplicationThreadCall IBinder} {s : State}
    {Q : PUnit → State → Prop} {E : Fault → State → Prop}
    (hnull : (s.processes.get app).thread = none →
      E .nullThread { s with log := s.log ++ [.throughNull app (.call c)] })
    (hcall : (s.processes.get app).thread ≠ none →
      Q ⟨⟩ { s with log := s.log ++ [.thread app c] }) : wp (callThread app c) Q E s := by
  simp only [callThread, emit, wp_bind, wp_get]
  split
  · next h => exact hnull h
  · next p h => exact hcall (by rw [h]; exact Option.some_ne_none p)

theorem keeps_deref {α : Type} (a : Option α) : Keeps F (deref a) := by
  cases a with
  | none => exact .throw _
  | some a => exact .pure _

/-! ## Tokens and interfaces -/

theorem wp_interfaceCast {d : Descriptor} {b : Option IBinder} {s : State}
    {Q : Option InterfacePtr → State → Prop} {E : Fault → State → Prop}
    (h : ∀ p n, asBinder p = b → Q p { s with proxies := n }) : wp (interfaceCast d b) Q E s := by
  cases b with
  | none => exact h none s.proxies rfl
  | some obj =>
    simp only [interfaceCast]
    split
    · exact h (some (.local obj)) s.proxies rfl
    · exact h (some (.bp s.proxies obj)) (s.proxies + 1) rfl

section Tokens
variable (hx : AllowsCasts F)
include hx

theorem keeps_interfaceCast (d : Descriptor) (b : Option IBinder) :
    Keeps F (interfaceCast d b) := by
  cases b with
  | none => exact .pure _
  | some obj =>
    refine .ite (.pure _) ?_
    exact .bind .get fun s => .bind (.modify hx) fun _ => .pure _

theorem keeps_indexOfTokenLocked (token : Option IBinder) : Keeps F (indexOfTokenLocked token) := by
  refine .bind (keeps_interfaceCast hx _ _) fun t => .bind ?_ fun r => ?_
  · unfold readToken
    split
    · exact .pure _
    · exact .pure _
    · exact .throw _
  · cases r with
    | none => exact .pure _
    | some r => exact .bind .get fun s => .pure _

theorem keeps_getActivityRecordByToken (token : Option IBinder) :
    Keeps F (getActivityRecordByToken token) := by
  refine .bind (keeps_indexOfTokenLocked hx token) fun index => ?_
  cases index with
  | none => exact .pure _
  | some index => exact .bind .get fun s => .pure _

end Tokens

/-! ## Processes -/

theorem keeps_startProcessLocked (h : AllowsProcesses F) (appName : String8) :
    Keeps F (startProcessLocked w appName) := by
  refine .bind .get fun s => ?_
  split
  · exact .pure _
  · refine .bind (keeps_emit h.toAllowsEvents rfl) fun _ => .bind (.modify fun s => h.own s _ _ _)
      fun _ => .bind (.when (.modify fun s => h.own s _ _ _)) fun _ => .pure _

/-! ## Activities -/

/-- The paused activity's `thread` is not null. -/
theorem keeps_pauseSource (h : AllowsEvents F .activity) (sourceRecord : Option ActivityRef) :
    Keeps F (pauseSource sourceRecord) := by
  refine .of_wp fun s => ?_
  simp only [pauseSource, wp_bind, wp_get]
  split
  · exact F.refl s
  · split
    · exact F.refl s
    · refine wp_when (fun hc => wp_callThread (fun hnull => absurd hnull hc) fun _ => ?_)
        fun _ => F.refl s
      exact h.emit s _ rfl rfl

section Activities
variable (h : AllowsActivities F)
include h

theorem keeps_realStartActivityLocked (hn : AllowsNull F) (r : ActivityRef) (app : ProcessRef) :
    Keeps F (realStartActivityLocked r app) :=
  .bind (.modify fun s => h.record s r _ fun _ => ⟨rfl, rfl⟩) fun _ => .bind .get fun _ =>
    .bind (keeps_callThread h.toAllowsEvents hn) fun _ => .pure _

theorem keeps_attachActivityLocked (hn : AllowsNull F) (app : ProcessRef) :
    Keeps F (attachActivityLocked app) := by
  refine .bind .get fun s => ?_
  dsimp only
  split
  · exact .pure _
  · exact keeps_realStartActivityLocked h hn _ _

theorem keeps_newActivity (hx : AllowsCasts F) (caller : Option InterfacePtr) (intent : Intent)
    (resultTo : Option IBinder) (requestCode : BitVec 32)
    (hstart : ∀ r source, Keeps F (startRecordLocked w r source)) :
    Keeps F (startActivityLocked w caller intent resultTo requestCode) := by
  refine .bind .get fun s => .bind (keeps_getActivityRecordByToken hx resultTo) fun source => ?_
  dsimp only
  split
  · exact .pure _
  · exact .get_bind fun s => F.trans (h.new s _ rfl) (hstart _ _ _)

theorem keeps_startActivityLocked (hx : AllowsCasts F) (hn : AllowsNull F)
    (hp : ∀ name, Keeps F (startProcessLocked w name)) (caller : Option InterfacePtr)
    (intent : Intent) (resultTo : Option IBinder) (requestCode : BitVec 32) :
    Keeps F (startActivityLocked w caller intent resultTo requestCode) := by
  refine keeps_newActivity w h hx _ _ _ _ fun r source => ?_
  refine .bind (keeps_pauseSource h.toAllowsEvents source) fun _ => .bind .get fun s => ?_
  refine .bind (.modify fun s => h.history s _) fun _ => ?_
  split
  · exact .bind (hp _) fun _ => .pure _
  · exact keeps_realStartActivityLocked h hn _ _

end Activities

/-! ## Services -/

theorem keeps_modifyService (h : AllowsServices F) (r : ServiceRef)
    {f : ServiceRecord → ServiceRecord} (hf : ∀ sr : ServiceRecord, sr.Same (f sr)) :
    Keeps F (modifyService r f) := .modify fun s => h.record s r f hf

theorem keeps_addConnection (h : AllowsServiceRecords F) (r : ServiceRef) (c : ConnectionRef)
    (binder : Option IBinder) : Keeps F (addConnection w r c binder) := by
  refine .bind .get fun s => ?_
  split
  · exact .throw _
  · exact .modify fun s => h s r _ fun _ => rfl

section Services
variable (h : AllowsServices F)
include h

theorem keeps_callConnected (c : ConnectionRef) (name : ComponentName) (binder : Option IBinder) :
    Keeps F (callConnected c name binder) := by
  refine .bind .get fun s => ?_
  split
  · exact .throw _
  · exact keeps_emit h.toAllowsEvents rfl

/-- The `thread` that a binding is requested through is not null. -/
theorem keeps_requestBindingLocked (r : ServiceRef) (action : String8) (i : IntentBindRecord) :
    Keeps F (requestBindingLocked w r action i) := by
  refine .of_wp fun s => ?_
  simp only [requestBindingLocked, wp_bind, wp_get]
  split
  · exact F.refl s
  · split
    · exact F.refl s
    · next hthread =>
      rw [wp_bind]
      refine wp_when (fun _ => ?_) fun _ => F.refl s
      rw [wp_bind]
      refine wp_callThread (fun hnull => absurd hnull hthread) fun _ => ?_
      exact F.trans (h.emit s _ rfl rfl) (h.record _ _ _ fun _ => ⟨rfl, rfl⟩)

theorem keeps_requestBindings (r : ServiceRef) (m : OrdMap String8 IntentBindRecord) :
    Keeps F (requestBindings w r m) := by
  induction m with
  | nil => exact .pure _
  | cons e m ih =>
    exact .bind (keeps_requestBindingLocked w h r e.1 e.2) fun ret => .ite (.pure _) ih

theorem keeps_requestServiceBindingsLocked (r : ServiceRef) :
    Keeps F (requestServiceBindingsLocked w r) :=
  .bind .get fun _ => keeps_requestBindings w h r _

theorem keeps_realStartServiceLocked (hn : AllowsNull F) (r : ServiceRef) (app : ProcessRef) :
    Keeps F (realStartServiceLocked w r app) := by
  refine .bind .get fun s => .bind (.when ?_) fun _ =>
    .bind (keeps_requestServiceBindingsLocked w h r) fun _ => .pure _
  exact .bind (keeps_modifyService h _ fun _ => ⟨rfl, rfl⟩)
    fun _ => keeps_callThread h.toAllowsEvents hn

theorem keeps_attachServiceLocked (hn : AllowsNull F) (app : ProcessRef) :
    Keeps F (attachServiceLocked w app) := by
  refine .bind .get fun s => ?_
  dsimp only
  split
  · exact .pure _
  · exact keeps_realStartServiceLocked w h hn _ _

theorem keeps_publishServiceLocked (token : Option IBinder) (intent : Option Intent)
    (service : Option IBinder) : Keeps F (publishServiceLocked token intent service) := by
  refine .bind ?_ fun r => ?_
  · unfold readServiceToken
    split
    · exact .pure _
    · exact .pure _
    · exact .throw _
  · cases r with
    | none => exact .pure _
    | some r =>
      refine .bind (keeps_deref intent) fun intent => .bind .get fun s => ?_
      split
      · exact .pure _
      · refine .bind (keeps_modifyService h _ fun _ => ⟨rfl, rfl⟩)
          fun _ => .bind ?_ fun _ => .pure _
        exact .each _ fun c _ => keeps_callConnected h c _ _

end Services

theorem keeps_startServiceRecordLocked (h : AllowsServiceList F) (hn : AllowsNull F)
    (hp : ∀ name, Keeps F (startProcessLocked w name)) (r : ServiceRef) :
    Keeps F (startServiceRecordLocked w r) := by
  refine .bind .get fun s => .bind (.when (.modify fun s => h.list s _)) fun _ => ?_
  split
  · exact .bind (hp _) fun _ => .pure _
  · exact keeps_realStartServiceLocked w h.toAllowsServices hn _ _

/-- What is left of `startServiceRecordLocked` once the record is in `mServices`. -/
def startInProcess (r : ServiceRef) (name : String8) : Option ProcessRef → AM Int
  | none => do
    let _ ← startProcessLocked w name
    pure 0
  | some app => realStartServiceLocked w r app

theorem wp_startServiceRecordLocked {s : State} {r : ServiceRef} {Q : Int → State → Prop}
    {E : Fault → State → Prop}
    (h : ∀ t, ((s.services.get r).mApp = none ∧
        t = { s with mServices := s.mServices ++ [r] }) ∨
        ((s.services.get r).mApp ≠ none ∧ t = s) →
      wp (startInProcess w r (s.services.get r).mServiceInfo.mApplicationName
        (s.getProcessRecordLocked (s.services.get r).mServiceInfo.mApplicationName)) Q E t) :
    wp (startServiceRecordLocked w r) Q E s := by
  simp only [startServiceRecordLocked, wp_bind, wp_get]
  exact wp_when (fun hnew => h _ (.inl ⟨hnew, rfl⟩)) fun hold => h s (.inr ⟨hold, rfl⟩)

section Creation
variable (h : AllowsNewServices F)
include h

theorem keeps_newServiceRecord (si : ServiceInfo) (intent : Intent)
    (callerApp : Option ProcessRef) :
    Keeps F (newServiceRecord si intent callerApp) :=
  .bind .get fun _ => .bind (.modify fun s => h.new s _ rfl) fun _ => .pure _

theorem keeps_serviceForBind (caller : Option InterfacePtr) (intent : Intent) :
    Keeps F (serviceForBind w caller intent) := by
  refine .bind .get fun s => ?_
  dsimp only
  split
  · exact .pure _
  · split
    · exact .pure _
    · exact .bind (keeps_newServiceRecord h _ _ _) fun r => .pure _

theorem keeps_startServiceLocked (hn : AllowsNull F)
    (hp : ∀ name, Keeps F (startProcessLocked w name)) (caller : Option InterfacePtr)
    (intent : Intent) : Keeps F (startServiceLocked w caller intent) := by
  refine .bind .get fun s => ?_
  dsimp only
  split
  · exact .pure _
  · split
    · exact .pure _
    · exact .bind (keeps_newServiceRecord h _ _ _) fun r =>
        keeps_startServiceRecordLocked w h.toAllowsServiceList hn hp r

end Creation

theorem keeps_bindServiceLocked (h : AllowsBinding F) (hn : AllowsNull F)
    (hp : ∀ name, Keeps F (startProcessLocked w name)) (hx : AllowsCasts F)
    (caller : Option InterfacePtr) (token : Option IBinder) (intent : Intent)
    (connection : Option InterfacePtr) (flags : BitVec 32) :
    Keeps F (bindServiceLocked w caller token intent connection flags) := by
  refine .bind .get fun s =>
    .bind (keeps_serviceForBind w h.toAllowsNewServices caller intent) fun r => ?_
  cases r with
  | none => exact .pure _
  | some r =>
    refine .bind (keeps_getActivityRecordByToken hx token) fun activity => ?_
    refine .bind (keeps_modifyService h.toAllowsServices _ fun _ => ⟨rfl, rfl⟩) fun _ =>
      .bind .get fun s => ?_
    refine .bind (.modify fun s => h.connection s _) fun _ => ?_
    refine .bind (keeps_addConnection w h.lists r _ _) fun _ => ?_
    refine .bind (keeps_startServiceRecordLocked w h.toAllowsServiceList hn hp r) fun _ =>
      .bind .get fun s => ?_
    dsimp only
    split
    · exact .when (keeps_callConnected h.toAllowsServices _ _ _)
    · exact .pure _

/-! ## Receivers -/

theorem keeps_getProcessRecordLocked (hn : AllowsNull F) (thread : Option InterfacePtr) :
    Keeps F (getProcessRecordLocked thread) := by
  have hfind : ∀ b ps, Keeps F (findByBinder b ps) := by
    intro b ps
    induction ps with
    | nil => exact .pure _
    | cons p ps ih =>
      exact .bind .get fun s => .bind (.when (.modify fun s => hn s _ _)) fun _ => .ite (.pure _) ih
  exact .bind .get fun s => hfind _ _

/-- The pending record is cleared before it is passed on, so nothing is called. -/
theorem keeps_attachReceiverLocked (h : AllowsPending F) (app : ProcessRef) :
    Keeps F (attachReceiverLocked app) := by
  have hnone : Keeps F (processCurBroadcastLocked none app) := .of_wp fun s => by
    simp only [processCurBroadcastLocked, deref, wp_bind, wp_throw]
    exact F.refl s
  refine .bind .get fun s => ?_
  split
  · exact .pure _
  · refine .bind (keeps_deref _) fun cur => .ite ?_ (.pure _)
    exact .bind (.modify fun s => h s _) fun _ => .bind hnone fun _ => .pure _

theorem keeps_performReceive (h : AllowsEvents F .receiver) (r : BroadcastRef) (bf : FilterRef) :
    Keeps F (performReceive r bf) := by
  refine .bind .get fun s => ?_
  dsimp only
  split
  · exact .throw _
  · exact keeps_emit h rfl

theorem keeps_scheduleBroadcastLocked (h : AllowsSignals F) : Keeps F scheduleBroadcastLocked :=
  .modify fun s => h s _ _ _ _

theorem keeps_processCurBroadcastLocked (hev : AllowsEvents F .receiver) (h : AllowsSignals F)
    (hn : AllowsNull F) (r : Option BroadcastRef) (app : ProcessRef) :
    Keeps F (processCurBroadcastLocked r app) :=
  .bind (keeps_deref r) fun _ => .bind .get fun _ =>
    .bind (keeps_callThread hev hn) fun _ => keeps_scheduleBroadcastLocked h

theorem keeps_addFilter (h : AllowsReceivers F) (callerApp : ProcessRef)
    (receiver : Option InterfacePtr) (filter : Option IntentFilter) :
    Keeps F (addFilter w callerApp receiver filter) := by
  refine .bind ?_ fun rl => .bind (keeps_deref filter) fun inf => .bind .get fun s => ?_
  · refine .bind .get fun s => ?_
    split
    · exact .pure _
    · exact .bind (.modify fun s => h.registry s _ _ _ _) fun _ => .pure _
  · exact .modify fun s => h.registry s _ _ _ _

theorem keeps_registerReceiverLocked (h : AllowsReceivers F) (hn : AllowsNull F)
    (caller receiver : Option InterfacePtr) (filter : Option IntentFilter) :
    Keeps F (registerReceiverLocked w caller receiver filter) := by
  refine .bind (keeps_getProcessRecordLocked hn caller) fun callerApp => ?_
  cases callerApp with
  | none => exact .pure _
  | some callerApp => exact .bind (keeps_addFilter w h _ _ _) fun _ => .pure _

section Broadcasts
variable (h : AllowsSignals F)
include h

theorem keeps_acceptBroadcast
    (hq : ∀ callerApp intent map serialized sticky filters receivers,
      Keeps F (enqueueBroadcast callerApp intent map serialized sticky filters receivers))
    (callerApp : ProcessRef) (intent : Option Intent) (map : Option Bundle)
    (serialized sticky : Bool) :
    Keeps F (acceptBroadcast w callerApp intent map serialized sticky) := by
  have hmatch : ∀ actions, Keeps F (derefToMatch intent actions) :=
    fun _ => .ite (.throw _) (.pure _)
  exact .bind .get fun s => .bind (hmatch _) fun _ => .bind (hmatch _) fun _ =>
    .bind (hq _ _ _ _ _ _ _) fun _ => keeps_scheduleBroadcastLocked h

theorem keeps_broadcastIntentLocked (hn : AllowsNull F)
    (hq : ∀ callerApp intent map serialized sticky filters receivers,
      Keeps F (enqueueBroadcast callerApp intent map serialized sticky filters receivers))
    (caller : Option InterfacePtr) (intent : Option Intent) (map : Option Bundle)
    (serialized sticky : Bool) :
    Keeps F (broadcastIntentLocked w caller intent map serialized sticky) := by
  refine .bind (keeps_getProcessRecordLocked hn caller) fun callerApp => ?_
  cases callerApp with
  | none => exact .pure _
  | some callerApp => exact .bind (keeps_acceptBroadcast w h hq _ _ _ _ _) fun _ => .pure _

end Broadcasts

section Queue

/-- Making and queueing records, and nothing else. -/
structure AllowsEnqueue (F : Frame State) : Prop where
  signal : AllowsSignals F
  new : ∀ s b, F.rel s { s with broadcasts := s.broadcasts.alloc b }
  queue : ∀ s mParallelBroadcasts, F.rel s { s with mParallelBroadcasts }

theorem AllowsQueue.enqueue (h : AllowsQueue F) : AllowsEnqueue F := ⟨h.signal, h.new, h.queue⟩

theorem keeps_newBroadcastRecord (h : AllowsEnqueue F) (b : BroadcastRecord) :
    Keeps F (newBroadcastRecord b) :=
  .bind .get fun _ => .bind (.modify fun s => h.new s _) fun _ => .pure _

theorem keeps_enqueueBroadcast (h : AllowsEnqueue F) (callerApp : ProcessRef)
    (intent : Option Intent) (map : Option Bundle) (serialized sticky : Bool)
    (filters : List FilterRef) (receivers : List ReceiverInfo) :
    Keeps F (enqueueBroadcast callerApp intent map serialized sticky filters receivers) := by
  refine .ite (.bind (keeps_newBroadcastRecord h _) fun _ => ?_)
    (.bind (keeps_newBroadcastRecord h _) fun _ => .bind (keeps_newBroadcastRecord h _) fun _ => ?_)
  · exact .modify fun s => h.signal s _ _ _ _
  · exact .modify fun s => h.queue s _

variable (h : AllowsHandling F)
include h

theorem keeps_modifyBroadcast (r : BroadcastRef) {f : BroadcastRecord → BroadcastRecord}
    (hf : ∀ b : BroadcastRecord, b.Same (f b)) : Keeps F (modifyBroadcast r f) :=
  .modify fun s => h.record s r f hf

variable (hn : AllowsNull F) (hp : ∀ name, Keeps F (startProcessLocked w name))
include hn hp

theorem keeps_processReceiverInfo (r : BroadcastRef) (k : Nat) (ri : ReceiverInfo) :
    Keeps F (processReceiverInfo w r k ri) := by
  refine .bind .get fun s => ?_
  split
  · refine .bind (hp _) fun app => .bind (keeps_modifyBroadcast h _ fun _ => ⟨rfl, rfl⟩) fun _ => ?_
    exact .modify fun s => F.trans (h.signal s _ _ (some r) _) (h.index _ _)
  · exact keeps_processCurBroadcastLocked h.toAllowsEvents h.signal hn _ _

theorem keeps_processReceiverInfos (r : BroadcastRef) (k : Nat) (infos : List ReceiverInfo) :
    Keeps F (processReceiverInfos w r k infos) := by
  induction infos generalizing k with
  | nil => exact .pure _
  | cons ri infos ih =>
    exact .bind .get fun s =>
      .ite (ih _) (.bind (keeps_processReceiverInfo w h hn hp r k ri) fun _ => ih _)

theorem keeps_processBroadcast (r : BroadcastRef) : Keeps F (processBroadcast w r) :=
  .bind .get fun _ =>
    .bind (.each _ fun bf _ => keeps_performReceive h.toAllowsEvents r bf) fun _ =>
      .bind (keeps_modifyBroadcast h _ fun _ => ⟨rfl, rfl⟩) fun _ =>
        .bind (keeps_processReceiverInfos w h hn hp r 0 _) fun _ => .modify fun s => h.index s _

theorem keeps_drainParallelBroadcasts (hq : AllowsEnqueue F) (n : Nat) :
    Keeps F (drainParallelBroadcasts w n) := by
  induction n with
  | zero => exact .pure _
  | succ n ih =>
    refine .bind .get fun s => ?_
    split
    · exact .pure _
    · exact .bind (keeps_processBroadcast w h hn hp _) fun _ =>
        .bind (.modify fun s => hq.queue s _) fun _ => ih

theorem keeps_handleMessage (hq : AllowsEnqueue F) : Keeps F (step w .handleMessage) := by
  refine .bind .get fun s => ?_
  split
  · exact .pure _
  · refine .bind (.modify fun s => h.signal s _ _ _ _) fun _ =>
      .bind (.modify fun s => h.signal s _ _ _ _) fun _ => .bind .get fun s => ?_
    exact keeps_drainParallelBroadcasts w h hn hp hq _

end Queue

/-! ## Attaching -/

/-- How an attaching process gets its `thread`, and the look at the broadcast queue, are
left to the caller of this rule. -/
theorem keeps_attachWith (hn : AllowsNull F) (hev : AllowsEvents F .process)
    (hpend : ∀ s mProcessesPending, F.rel s { s with mProcessesPending })
    (hset : ∀ b app (rest : Option InterfacePtr → AM PUnit), (∀ thread, Keeps F (rest thread)) →
      Keeps F (do
        let thread ← interfaceCast .applicationThread b
        modifyProcess app fun p => { p with thread := thread }
        rest thread))
    (ha : AllowsActivities F) (hs : ∀ app, Keeps F (attachServiceLocked w app))
    (hr : ∀ app, Keeps F (attachReceiverLocked app)) (appThread : Option IBinder)
    (callingPid : Int) : Keeps F (attachApplicationLocked w appThread callingPid) := by
  refine .bind .get fun s => ?_
  split
  · exact keeps_emit hev rfl
  · refine .bind (.modify fun s => hpend s _) fun _ => hset _ _ _ fun thread => ?_
    refine .bind (.when (keeps_callThread hev hn)) fun _ => ?_
    refine .bind (keeps_attachActivityLocked ha hn _) fun res1 => ?_
    refine .bind (hs _) fun res2 => ?_
    refine .bind (hr _) fun res3 => ?_
    exact .when (keeps_emit hev rfl)

theorem keeps_setThreadTo (hx : AllowsCasts F) (hp : AllowsProcesses F) (b : Option IBinder)
    (app : ProcessRef) {rest : Option InterfacePtr → AM PUnit}
    (hrest : ∀ thread, Keeps F (rest thread)) :
    Keeps F (do
      let thread ← interfaceCast .applicationThread b
      modifyProcess app fun p => { p with thread := thread }
      rest thread) :=
  .bind (keeps_interfaceCast hx _ _) fun thread =>
    .bind (.modify fun s => hp.own s _ _ _) fun _ => hrest thread

theorem keeps_attachApplicationLocked (hx : AllowsCasts F) (hn : AllowsNull F)
    (hp : AllowsProcesses F) (ha : AllowsActivities F)
    (hs : ∀ app, Keeps F (attachServiceLocked w app)) (hr : AllowsSignals F)
    (appThread : Option IBinder) (callingPid : Int) :
    Keeps F (attachApplicationLocked w appThread callingPid) :=
  keeps_attachWith w hn hp.toAllowsEvents (fun s _ => hp.own s _ _ _)
    (fun b app _ hrest => keeps_setThreadTo hx hp b app hrest) ha hs
    (keeps_attachReceiverLocked hr.pending) appThread callingPid

/-! ## Requests -/

/-- The requests that attach, start a service, bind or go to the receivers' part are left to
the caller of this rule. -/
theorem keeps_requestLeft (hx : AllowsCasts F) (hn : AllowsNull F)
    (hp : ∀ name, Keeps F (startProcessLocked w name)) (ha : AllowsActivities F)
    (hs : AllowsServices F) (pid : Int) (call : ActivityManagerCall IBinder)
    (hattach : ∀ appThread, call = .attachApplication appThread →
      Keeps F (attachApplicationLocked w appThread pid))
    (hstart : ∀ caller intent, call = .startService caller intent →
      ∀ p i, Keeps F (startServiceLocked w p i))
    (hbind : ∀ caller token intent connection flags,
      call = .bindService caller token intent connection flags →
      ∀ p q i, Keeps F (bindServiceLocked w p token i q flags))
    (hregister : ∀ caller receiver filter, call = .registerReceiver caller receiver filter →
      ∀ p q, Keeps F (registerReceiverLocked w p q filter))
    (hbroadcast : ∀ caller intent resultTo map serialized sticky,
      call = .broadcastIntent caller intent resultTo map serialized sticky →
      ∀ p, Keeps F (broadcastIntentLocked w p intent map serialized sticky)) :
    Keeps F (request w pid call) := by
  have hcast := keeps_interfaceCast hx
  cases call with
  | attachApplication appThread => exact hattach appThread rfl
  | startActivity caller resultTo intent requestCode =>
    exact .bind (hcast _ _) fun _ => .bind (keeps_deref _) fun _ =>
      .bind (keeps_startActivityLocked w ha hx hn hp _ _ _ _) fun _ => .pure _
  | startService caller intent =>
    exact .bind (hcast _ _) fun p => .bind (keeps_deref _) fun i =>
      .bind (hstart _ _ rfl p i) fun _ => .pure _
  | bindService caller token intent connection flags =>
    exact .bind (hcast _ _) fun p => .bind (hcast _ _) fun q => .bind (keeps_deref _) fun i =>
      hbind _ _ _ _ _ rfl p q i
  | publishService token intent service =>
    exact .bind (keeps_publishServiceLocked hs _ _ _) fun _ => .pure _
  | registerReceiver caller receiver filter =>
    exact .bind (hcast _ _) fun p => .bind (hcast _ _) fun q =>
      .bind (hregister _ _ _ rfl p q) fun _ => .pure _
  | broadcastIntent caller intent resultTo map serialized sticky =>
    exact .bind (hcast _ _) fun p => .bind (hcast _ _) fun _ =>
      .bind (hbroadcast _ _ _ _ _ _ rfl p) fun _ => .pure _

/-- The requests that attach or go to the receivers' part are left to the caller of this
rule. -/
theorem keeps_requestWith (hx : AllowsCasts F) (hn : AllowsNull F)
    (hp : ∀ name, Keeps F (startProcessLocked w name)) (ha : AllowsActivities F)
    (hs : AllowsBinding F) (pid : Int) (call : ActivityManagerCall IBinder)
    (hattach : ∀ appThread, call = .attachApplication appThread →
      Keeps F (attachApplicationLocked w appThread pid))
    (hregister : ∀ caller receiver filter, call = .registerReceiver caller receiver filter →
      ∀ p q, Keeps F (registerReceiverLocked w p q filter))
    (hbroadcast : ∀ caller intent resultTo map serialized sticky,
      call = .broadcastIntent caller intent resultTo map serialized sticky →
      ∀ p, Keeps F (broadcastIntentLocked w p intent map serialized sticky)) :
    Keeps F (request w pid call) :=
  keeps_requestLeft w hx hn hp ha hs.toAllowsServices pid call hattach
    (fun _ _ _ _ _ => keeps_startServiceLocked w hs.toAllowsNewServices hn hp _ _)
    (fun _ _ _ _ _ _ _ _ _ => keeps_bindServiceLocked w hs hn hp hx _ _ _ _ _) hregister hbroadcast

theorem keeps_request (hx : AllowsCasts F) (hn : AllowsNull F)
    (hp : ∀ name, Keeps F (startProcessLocked w name)) (ha : AllowsActivities F)
    (hs : AllowsBinding F) (hr : AllowsReceivers F)
    (hq : ∀ callerApp intent map serialized sticky filters receivers,
      Keeps F (enqueueBroadcast callerApp intent map serialized sticky filters receivers))
    (pid : Int) (call : ActivityManagerCall IBinder)
    (hattach : ∀ appThread, call = .attachApplication appThread →
      Keeps F (attachApplicationLocked w appThread pid)) : Keeps F (request w pid call) :=
  keeps_requestWith w hx hn hp ha hs pid call hattach
    (fun _ _ _ _ _ _ => keeps_registerReceiverLocked w hr hn _ _ _)
    (fun _ _ _ _ _ _ _ _ => keeps_broadcastIntentLocked w hr.signal hn hq _ _ _ _ _)

end Cdroid.Service
