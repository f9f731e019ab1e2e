import Cdroid.Service.ActivityManager

/-! The faults that a part of the activity manager can raise. Only a token that is misread and
a connection list that is null make up for faults of their own. -/

namespace Cdroid.Service
open Cdroid.Lib.Comp Cdroid.Lib.Containers Cdroid.Runtime

/-- `P` lets a null pointer be used, but for that to a connection list. -/
structure AllowsNullPointers (P : Fault → Prop) : Prop where
  thread : P .nullThread
  interface : P .nullInterface
  record : P .nullRecord

variable {P : Fault → Prop}

theorem raises_emit (e : Event) : Raises P (emit e) := .modify _

theorem raises_interfaceCast (d : Descriptor) (b : Option IBinder) :
    Raises P (interfaceCast d b) := by
  cases b with
  | none => exact .pure _
  | some obj => exact .ite (.pure _) <| .bind .get fun _ => .bind (.modify _) fun _ => .pure _

section
variable (w : World)

/-! ## Activities and services -/

theorem raises_startProcessLocked (appName : String8) :
    Raises P (startProcessLocked w appName) := by
  refine .bind .get fun s => ?_
  split
  · exact .pure _
  · exact .bind (raises_emit _) fun _ => .bind (.modify _) fun _ =>
      .bind (.when (.modify _)) fun _ => .pure _

theorem raises_serviceForBind (caller : Option InterfacePtr) (intent : Intent) :
    Raises P (serviceForBind w caller intent) := by
  refine .bind .get fun s => ?_
  dsimp only
  split
  · exact .pure _
  · split
    · exact .pure _
    · exact .bind (.bind .get fun _ => .bind (.modify _) fun _ => .pure _) fun _ => .pure _

theorem raises_addConnection (h : P .nullList) (r : ServiceRef) (c : ConnectionRef)
    (binder : Option IBinder) : Raises P (addConnection w r c binder) := by
  refine .bind .get fun s => ?_
  split
  · exact .throw h
  · exact .modify _

theorem raises_getActivityRecordByToken (h : P .typeConfusion) (token : Option IBinder) :
    Raises P (getActivityRecordByToken token) := by
  have hread : Raises P (indexOfTokenLocked token) := by
    refine .bind (raises_interfaceCast _ _) fun t => .bind ?_ fun r => ?_
    · unfold readToken
      split
      · exact .pure _
      · exact .pure _
      · exact .throw h
    · split
      · exact .pure _
      · exact .bind .get fun _ => .pure _
  refine .bind hread fun index => ?_
  split
  · exact .pure _
  · exact .bind .get fun _ => .pure _

variable (hP : AllowsNullPointers P)
include hP

omit w in
theorem raises_deref {α : Type} (a : Option α) : Raises P (deref a) := by
  cases a with
  | none => exact .throw hP.record
  | some a => exact .pure a

omit w in
theorem raises_callThread (app : ProcessRef) (c : ApplicationThreadCall IBinder) :
    Raises P (callThread app c) := by
  refine .bind .get fun s => ?_
  split
  · exact .bind (raises_emit _) fun _ => .throw hP.thread
  · exact raises_emit _

omit w in
theorem raises_pauseSource (sourceRecord : Option ActivityRef) :
    Raises P (pauseSource sourceRecord) := by
  refine .bind .get fun s => ?_
  split
  · exact .pure _
  · split
    · exact .pure _
    · exact .when (raises_callThread hP _ _)

omit w in
theorem raises_realStartActivityLocked (r : ActivityRef) (app : ProcessRef) :
    Raises P (realStartActivityLocked r app) :=
  .bind (.modify _) fun _ => .bind .get fun _ => .bind (raises_callThread hP _ _) fun _ => .pure _

theorem raises_startRecordLocked (r : ActivityRef) (sourceRecord : Option ActivityRef) :
    Raises P (startRecordLocked w r sourceRecord) := by
  refine .bind (raises_pauseSource hP _) fun _ => .bind .get fun s => .bind (.modify _) fun _ => ?_
  split
  · exact .bind (raises_startProcessLocked w _) fun _ => .pure _
  · exact raises_realStartActivityLocked hP _ _

/-- The token that is looked up may be one that is known not to be misread. -/
theorem raises_startActivityLocked (caller : Option InterfacePtr) (intent : Intent)
    {resultTo : Option IBinder} (h : Raises P (getActivityRecordByToken resultTo))
    (requestCode : BitVec 32) :
    Raises P (startActivityLocked w caller intent resultTo requestCode) := by
  refine .bind .get fun s => .bind h fun source => ?_
  dsimp only
  split
  · exact .pure _
  · exact .bind .get fun _ => .bind (.modify _) fun _ => raises_startRecordLocked w hP _ _

omit w in
theorem raises_callConnected (c : ConnectionRef) (name : ComponentName)
    (binder : Option IBinder) : Raises P (callConnected c name binder) := by
  refine .bind .get fun s => ?_
  split
  · exact .throw hP.interface
  · exact raises_emit _

theorem raises_requestBindings (r : ServiceRef) (m : OrdMap String8 IntentBindRecord) :
    Raises P (requestBindings w r m) := by
  induction m with
  | nil => exact .pure _
  | cons e m ih =>
    refine .bind (.bind .get fun s => ?_) fun _ => .ite (.pure _) ih
    split
    · exact .pure _
    · exact .ite (.pure _) <| .bind (.when (.bind (raises_callThread hP _ _) fun _ => .modify _))
        fun _ => .bind .get fun _ => .pure _

theorem raises_realStartServiceLocked (r : ServiceRef) (app : ProcessRef) :
    Raises P (realStartServiceLocked w r app) := by
  refine .bind .get fun s => .bind (.when ?_) fun _ => .bind ?_ fun _ => .pure _
  · exact .bind (.modify _) fun _ => raises_callThread hP _ _
  · exact .bind .get fun _ => raises_requestBindings w hP _ _

theorem raises_startServiceRecordLocked (r : ServiceRef) :
    Raises P (startServiceRecordLocked w r) := by
  refine .bind .get fun s => .bind (.when (.modify _)) fun _ => ?_
  split
  · exact .bind (raises_startProcessLocked w _) fun _ => .pure _
  · exact raises_realStartServiceLocked w hP _ _

theorem raises_startServiceLocked (caller : Option InterfacePtr) (intent : Intent) :
    Raises P (startServiceLocked w caller intent) := by
  refine .bind .get fun s => ?_
  dsimp only
  split
  · exact .pure _
  · split
    · exact .pure _
    · exact .bind (.bind .get fun _ => .bind (.modify _) fun _ => .pure _) fun _ =>
        raises_startServiceRecordLocked w hP _

theorem raises_bindServiceLocked (hl : P .nullList) (caller : Option InterfacePtr)
    {token : Option IBinder} (h : Raises P (getActivityRecordByToken token)) (intent : Intent)
    (connection : Option InterfacePtr) (flags : BitVec 32) :
    Raises P (bindServiceLocked w caller token intent connection flags) := by
  refine .bind .get fun s => .bind (raises_serviceForBind w _ _) fun r => ?_
  split
  · exact .pure _
  · refine .bind h fun _ => .bind (.modify _) fun _ => .bind .get fun _ =>
      .bind (.modify _) fun _ => .bind (raises_addConnection w hl _ _ _) fun _ =>
      .bind (raises_startServiceRecordLocked w hP _) fun _ => .bind .get fun _ => ?_
    dsimp only
    split
    · exact .when (raises_callConnected hP _ _ _)
    · exact .pure _

omit w in
theorem raises_publishServiceLocked (h : P .typeConfusion) (token : Option IBinder)
    (intent : Option Intent) (service : Option IBinder) :
    Raises P (publishServiceLocked token intent service) := by
  refine .bind ?_ fun r => ?_
  · unfold readServiceToken
    split
    · exact .pure _
    · exact .pure _
    · exact .throw h
  · split
    · exact .pure _
    · refine .bind (raises_deref hP _) fun _ => .bind .get fun s => ?_
      split
      · exact .pure _
      · exact .bind (.modify _) fun _ =>
          .bind (.each _ fun c => raises_callConnected hP c _ _) fun _ => .pure _

/-! ## Receivers -/

omit w hP in
theorem raises_getProcessRecordLocked (thread : Option InterfacePtr) :
    Raises P (getProcessRecordLocked thread) := by
  refine .bind .get fun s => ?_
  generalize s.mProcesses = ps
  induction ps with
  | nil => exact .pure _
  | cons p ps ih =>
    exact .bind .get fun s => .bind (.when (raises_emit _)) fun _ => .ite (.pure _) ih

omit w in
theorem raises_processCurBroadcastLocked (r : Option BroadcastRef) (app : ProcessRef) :
    Raises P (processCurBroadcastLocked r app) :=
  .bind (raises_deref hP _) fun _ => .bind .get fun _ => .bind (raises_callThread hP _ _)
    fun _ => .modify _

theorem raises_processReceiverInfos (r : BroadcastRef) (k : Nat) (infos : List ReceiverInfo) :
    Raises P (processReceiverInfos w r k infos) := by
  induction infos generalizing k with
  | nil => exact .pure _
  | cons ri infos ih =>
    refine .bind .get fun s => .ite (ih _) (.bind (.bind .get fun s => ?_) fun _ => ih _)
    split
    · exact .bind (raises_startProcessLocked w _) fun _ => .bind (.modify _) fun _ => .modify _
    · exact raises_processCurBroadcastLocked hP _ _

theorem raises_drainParallelBroadcasts (n : Nat) : Raises P (drainParallelBroadcasts w n) := by
  induction n with
  | zero => exact .pure _
  | succ n ih =>
    refine .bind .get fun s => ?_
    split
    · exact .pure _
    · refine .bind ?_ fun _ => .bind (.modify _) fun _ => ih
      refine .bind .get fun s => .bind (.each _ fun bf => .bind .get fun s => ?_) fun _ =>
        .bind (.modify _) fun _ => .bind (raises_processReceiverInfos w hP _ _ _) fun _ =>
        .modify _
      split
      · exact .throw hP.interface
      · exact raises_emit _

omit w in
theorem raises_attachReceiverLocked (app : ProcessRef) : Raises P (attachReceiverLocked app) := by
  refine .bind .get fun s => ?_
  split
  · exact .pure _
  · exact .bind (raises_deref hP _) fun _ => .ite
      (.bind (.modify _) fun _ => .bind (raises_processCurBroadcastLocked hP _ _) fun _ => .pure _)
      (.pure _)

theorem raises_registerReceiverLocked (caller receiver : Option InterfacePtr)
    (filter : Option IntentFilter) :
    Raises P (registerReceiverLocked w caller receiver filter) := by
  refine .bind (raises_getProcessRecordLocked _) fun app => ?_
  split
  · exact .pure _
  · refine .bind (.bind ?_ fun rl => .bind (raises_deref hP _) fun _ => .bind .get fun _ =>
      .modify _) fun _ => .pure _
    refine .bind .get fun s => ?_
    split
    · exact .pure _
    · exact .bind (.modify _) fun _ => .pure _

theorem raises_broadcastIntentLocked (caller : Option InterfacePtr) (intent : Option Intent)
    (map : Option Bundle) (serialized sticky : Bool) :
    Raises P (broadcastIntentLocked w caller intent map serialized sticky) := by
  have hmatch : ∀ actions, Raises P (derefToMatch intent actions) := fun actions =>
    .ite (.throw hP.record) (.pure _)
  have hnew : ∀ b, Raises P (newBroadcastRecord b) := fun b =>
    .bind .get fun _ => .bind (.modify _) fun _ => .pure _
  refine .bind (raises_getProcessRecordLocked _) fun app => ?_
  split
  · exact .pure _
  · refine .bind (.bind .get fun s => .bind (hmatch _) fun _ => .bind (hmatch _) fun _ =>
      .bind (.ite ?_ ?_) fun _ => .modify _) fun _ => .pure _
    · exact .bind (hnew _) fun _ => .modify _
    · exact .bind (hnew _) fun _ => .bind (hnew _) fun _ => .modify _

/-! ## Steps -/

theorem raises_attachApplicationLocked (appThread : Option IBinder) (callingPid : Int) :
    Raises P (attachApplicationLocked w appThread callingPid) := by
  refine .bind .get fun s => ?_
  split
  · exact raises_emit _
  · refine .bind (.modify _) fun _ => .bind (raises_interfaceCast _ _) fun thread =>
      .bind (.modify _) fun _ => .bind (.when (raises_callThread hP _ _)) fun _ =>
      .bind (.bind .get fun s => ?_) fun _ => .bind (.bind .get fun s => ?_) fun _ =>
      .bind (raises_attachReceiverLocked hP _) fun _ => .when (raises_emit _)
    · dsimp only
      split
      · exact .pure _
      · exact raises_realStartActivityLocked hP _ _
    · dsimp only
      split
      · exact .pure _
      · exact raises_realStartServiceLocked w hP _ _

/-- The fault of a bind is left to the caller of this rule. -/
theorem raises_step (h : P .typeConfusion) (a : Action)
    (hbind : ∀ pid caller token intent connection flags,
      a ≠ .request pid (.bindService caller token intent connection flags)) :
    Raises P (step w a) := by
  have hcast := raises_interfaceCast (P := P)
  cases a with
  | handleMessage =>
    refine .bind .get fun s => ?_
    split
    · exact .pure _
    · exact .bind (.modify _) fun _ => .bind (.modify _) fun _ => .bind .get fun _ =>
        raises_drainParallelBroadcasts w hP _
  | request pid call =>
    cases call with
    | attachApplication appThread => exact raises_attachApplicationLocked w hP _ _
    | startActivity caller resultTo intent requestCode =>
      exact .bind (hcast _ _) fun _ => .bind (raises_deref hP _) fun _ =>
        .bind (raises_startActivityLocked w hP _ _ (raises_getActivityRecordByToken h _) _)
          fun _ => .pure _
    | startService caller intent =>
      exact .bind (hcast _ _) fun _ => .bind (raises_deref hP _) fun _ =>
        .bind (raises_startServiceLocked w hP _ _) fun _ => .pure _
    | bindService => exact absurd rfl (hbind _ _ _ _ _ _)
    | publishService token intent service =>
      exact .bind (raises_publishServiceLocked hP h _ _ _) fun _ => .pure _
    | registerReceiver caller receiver filter =>
      exact .bind (hcast _ _) fun _ => .bind (hcast _ _) fun _ =>
        .bind (raises_registerReceiverLocked w hP _ _ _) fun _ => .pure _
    | broadcastIntent caller intent resultTo map serialized sticky =>
      exact .bind (hcast _ _) fun _ => .bind (hcast _ _) fun _ =>
        .bind (raises_broadcastIntentLocked w hP _ _ _ _ _) fun _ => .pure _

end

end Cdroid.Service
