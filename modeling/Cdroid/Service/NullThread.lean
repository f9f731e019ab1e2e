import Cdroid.Service.Broadcast

/-! Calls through the `thread` of a process that has not attached. A record is in
`mProcesses` from the start request on, and most paths use its `thread` without
looking. No call goes through null in a run in which no step asks for an
application that is still waiting to attach. -/

namespace Cdroid.Service
open Cdroid.Lib.Comp Cdroid.Lib.Containers Cdroid.Runtime

/-- Nothing has been done through a null `thread`. -/
def State.Quiet (s : State) : Prop := ∀ e ∈ s.log, e.isNull = false

/-- Only the applications that wait to attach are without a thread. -/
structure CalmInv (s : State) : Prop where
  live : ∀ p ∈ s.mProcesses, s.processes.Live p
  pendingLive : ∀ p ∈ s.mProcessesPending, s.processes.Live p
  quiet : s.Quiet
  nullPending : ∀ p ∈ s.mProcesses, (s.processes.get p).thread = none → p ∈ s.mProcessesPending

theorem CalmInv.init (w : World) : CalmInv (init w) where
  live := by simp [Service.init]
  pendingLive := by simp [Service.init]
  quiet := by simp [State.Quiet, Service.init]
  nullPending := by simp [Service.init]

theorem CalmInv.same {s t : State} (h : CalmInv s) (hp : t.processes = s.processes)
    (hm : t.mProcesses = s.mProcesses) (hn : t.mProcessesPending = s.mProcessesPending)
    (hl : t.log = s.log) : CalmInv t := by
  refine ⟨?_, ?_, ?_, ?_⟩
  · rw [hm, hp]; exact h.live
  · rw [hn, hp]; exact h.pendingLive
  · unfold State.Quiet; rw [hl]; exact h.quiet
  · rw [hm, hp, hn]; exact h.nullPending

theorem CalmInv.emit {s : State} {e : Event} (h : CalmInv s) (he : e.isNull = false) :
    CalmInv { s with log := s.log ++ [e] } := by
  refine ⟨h.live, h.pendingLive, fun d hd => ?_, h.nullPending⟩
  rcases List.mem_append.mp hd with hd | hd
  · exact h.quiet d hd
  · rw [List.mem_singleton.mp hd]; exact he

abbrev calmFrame : Frame State := .invariant CalmInv

theorem allowsProxies_calm : AllowsProxies calmFrame := fun _ _ h => h.same rfl rfl rfl rfl

theorem allowsActivities_calm : AllowsActivities calmFrame where
  emit _ _ _ he h := h.emit he
  record _ _ _ _ h := h.same rfl rfl rfl rfl
  new _ _ _ h := h.same rfl rfl rfl rfl
  history _ _ h := h.same rfl rfl rfl rfl

theorem allowsBinding_calm : AllowsBinding calmFrame where
  emit _ _ _ he h := h.emit he
  record _ _ _ _ h := h.same rfl rfl rfl rfl
  new _ _ _ h := h.same rfl rfl rfl rfl
  list _ _ h := h.same rfl rfl rfl rfl
  lists _ _ _ _ h := h.same rfl rfl rfl rfl
  connection _ _ h := h.same rfl rfl rfl rfl

theorem allowsQueue_calm : AllowsQueue calmFrame where
  emit _ _ _ he h := h.emit he
  registry _ _ _ _ _ h := h.same rfl rfl rfl rfl
  signal _ _ _ _ _ h := h.same rfl rfl rfl rfl
  record _ _ _ _ h := h.same rfl rfl rfl rfl
  index _ _ h := h.same rfl rfl rfl rfl
  new _ _ h := h.same rfl rfl rfl rfl
  queue _ _ h := h.same rfl rfl rfl rfl

/-! ## Applications that wait to attach -/

def State.names (s : State) : List String8 := s.mProcesses.map fun p => (s.processes.get p).name

/-- The applications that were started and have not attached. -/
def State.waiting (s : State) : List String8 :=
  s.mProcessesPending.map fun p => (s.processes.get p).name

theorem getProcessRecordLocked_none {s : State} {name : String8} :
    s.getProcessRecordLocked name = none ↔ name ∉ s.names := by
  simp [State.getProcessRecordLocked, State.names]

theorem names_started {s : State} (h : CalmInv s) (name : String8) (pid : Int) :
    (s.started name pid).names = s.names ++ [name] ∧
      (s.started name pid).waiting = s.waiting ++ [name] := by
  have hold : ∀ p, s.processes.Live p →
      (s.processes.alloc ⟨none, name, pid⟩).get p = s.processes.get p :=
    fun p hp => Store.get_alloc_live _ hp
  constructor
  · simp only [State.names, State.started, List.map_append, List.map_cons, List.map_nil,
      Store.get_alloc_fresh]
    rw [List.map_congr_left fun p hp => by rw [hold p (h.live p hp)]]
  · simp only [State.waiting, State.started, List.map_append, List.map_cons, List.map_nil,
      Store.get_alloc_fresh]
    rw [List.map_congr_left fun p hp => by rw [hold p (h.pendingLive p hp)]]

theorem CalmInv.thread {s : State} (h : CalmInv s) {name : String8} {app : ProcessRef}
    (happ : s.getProcessRecordLocked name = some app) (hready : name ∉ s.waiting) :
    (s.processes.get app).thread ≠ none := by
  intro hnull
  have hname : (s.processes.get app).name = name := by simpa using List.find?_some happ
  refine hready (List.mem_map.mpr ⟨app, ?_, hname⟩)
  exact h.nullPending app (List.mem_of_find?_eq_some happ) hnull

theorem CalmInv.start {s : State} (h : CalmInv s) (name : String8) (pid : Int) :
    CalmInv (s.started name pid) := by
  have hget : ∀ p ∈ s.mProcesses, (s.started name pid).processes.get p = s.processes.get p :=
    fun p hp => Store.get_alloc_live _ (h.live p hp)
  refine ⟨?_, ?_, ?_, ?_⟩
  · simp only [State.started, List.mem_append, List.mem_singleton]
    rintro p (hp | rfl)
    · exact (h.live p hp).alloc _
    · exact Store.live_fresh_alloc _ _
  · simp only [State.started, List.mem_append, List.mem_singleton]
    rintro p (hp | rfl)
    · exact (h.pendingLive p hp).alloc _
    · exact Store.live_fresh_alloc _ _
  · exact (h.emit (e := .startViaZygote name pid) rfl).quiet
  · intro p hp hnull
    rcases List.mem_append.mp hp with hp | hp
    · rw [hget p hp] at hnull
      exact List.mem_append_left _ (h.nullPending p hp hnull)
    · exact List.mem_append_right _ hp

/-! ## Steps that stay calm -/

/-- The computation ends calm, or at least quiet where something else makes it fault. -/
abbrev Calm {α : Type} (x : AM α) (s : State) : Prop :=
  wp x (fun _ => CalmInv) (fun _ => State.Quiet) s

theorem Calm.of_keeps {α : Type} {x : AM α} {s : State} (hx : Keeps calmFrame x) (h : CalmInv s) :
    Calm x s := wp_mono (hx.wp s) (fun _ _ ht => ht h) fun _ _ ht => (ht h).quiet

theorem calm_callThread {s : State} {app : ProcessRef} (c : ApplicationThreadCall IBinder)
    (h : CalmInv s) (hthread : (s.processes.get app).thread ≠ none) : Calm (callThread app c) s :=
  wp_callThread (fun hnull => absurd hnull hthread) fun _ => h.emit rfl

section
variable {w : World} {s : State}

theorem calm_realStartActivityLocked (r : ActivityRef) {app : ProcessRef} (h : CalmInv s)
    (hthread : (s.processes.get app).thread ≠ none) : Calm (realStartActivityLocked r app) s := by
  simp only [Calm, realStartActivityLocked, modifyActivity, wp_bind, wp_modify, wp_get, wp_pure]
  exact calm_callThread _ (h.same rfl rfl rfl rfl) hthread

theorem calm_attachActivityLocked {app : ProcessRef} (h : CalmInv s)
    (hthread : (s.processes.get app).thread ≠ none) : Calm (attachActivityLocked app) s := by
  simp only [Calm, attachActivityLocked, wp_bind, wp_get]
  split
  · exact h
  · exact calm_realStartActivityLocked _ h hthread

theorem calm_realStartServiceLocked (r : ServiceRef) {app : ProcessRef} (h : CalmInv s)
    (hthread : (s.processes.get app).thread ≠ none) : Calm (realStartServiceLocked w r app) s := by
  have hrest := fun t ht => Calm.of_keeps
    (keeps_requestServiceBindingsLocked w allowsBinding_calm.toAllowsServices r) (s := t) ht
  simp only [Calm, realStartServiceLocked, wp_bind, wp_get, wp_pure]
  refine wp_when (fun _ => ?_) fun _ => hrest s h
  simp only [modifyService, wp_bind, wp_modify]
  exact wp_mono (calm_callThread _ (h.same rfl rfl rfl rfl) hthread)
    (fun _ t ht => hrest t ht) fun _ _ ht => ht

theorem calm_attachServiceLocked {app : ProcessRef} (h : CalmInv s)
    (hthread : (s.processes.get app).thread ≠ none) : Calm (attachServiceLocked w app) s := by
  simp only [Calm, attachServiceLocked, wp_bind, wp_get]
  split
  · exact h
  · exact calm_realStartServiceLocked _ h hthread

variable (hw : ∀ log, (w.zygote log).ret = 0)
include hw

theorem calm_startProcessLocked (h : CalmInv s) (name : String8) :
    Calm (startProcessLocked w name) s :=
  wp_startProcessLocked (hw s.log) (fun _ _ => h) fun _ => h.start name _

theorem calm_startRecordLocked (r : ActivityRef) (source : Option ActivityRef) (h : CalmInv s)
    (hready : (s.activities.get r).mActivityInfo.mApplicationName ∉ s.waiting) :
    Calm (startRecordLocked w r source) s := by
  have hsame := (keeps_pauseSource (F := .same fun s : State =>
    (s.processes, s.mProcessesPending, s.activities)) ⟨fun _ _ _ _ => rfl⟩ source).wp s
  have hcalm := Calm.of_keeps (keeps_pauseSource allowsActivities_calm.toAllowsEvents source) h
  simp only [Calm, startRecordLocked, wp_bind, wp_get]
  refine wp_mono (wp_and hcalm hsame) ?_ fun _ _ ht => ht.1
  rintro ⟨⟩ t ⟨ht, heq⟩
  obtain ⟨hproc, heq⟩ := Prod.mk.inj heq
  obtain ⟨hpend, hact⟩ := Prod.mk.inj heq
  rw [wp_modify]
  have ht' : CalmInv { t with mHistory := t.mHistory ++ [r] } := ht.same rfl rfl rfl rfl
  split
  · rw [wp_bind]
    exact calm_startProcessLocked hw ht' _
  · next app happ =>
    refine calm_realStartActivityLocked r ht' (ht.thread happ ?_)
    unfold State.waiting
    rw [hact, hproc, hpend]
    exact hready

theorem calm_startActivityLocked (caller : Option InterfacePtr) (intent : Intent)
    (resultTo : Option IBinder) (requestCode : BitVec 32) (h : CalmInv s)
    (hready : ∀ ai ∈ w.pm.resolveActivityInfo intent.mAction, ai.mApplicationName ∉ s.waiting) :
    Calm (startActivityLocked w caller intent resultTo requestCode) s := by
  have hsame := (keeps_getActivityRecordByToken (F := .same State.waiting) (fun _ => rfl)
    resultTo).wp s
  have hcalm := Calm.of_keeps (keeps_getActivityRecordByToken allowsProxies_calm.casts resultTo) h
  simp only [Calm, startActivityLocked, wp_bind, wp_get]
  refine wp_mono (wp_and hcalm hsame) ?_ fun _ _ ht => ht.1
  rintro source t ⟨ht, heq⟩
  split
  · exact ht
  · next ai hai =>
    simp only [wp_bind, wp_get, wp_modify]
    refine calm_startRecordLocked hw _ _ (ht.same rfl rfl rfl rfl) ?_
    rw [Store.get_alloc_fresh]
    have : ai.mApplicationName ∉ t.waiting := by
      rw [show t.waiting = s.waiting from heq]
      exact hready ai hai
    exact this

theorem calm_startServiceRecordLocked (r : ServiceRef) (h : CalmInv s)
    (hready : (s.services.get r).mServiceInfo.mApplicationName ∉ s.waiting) :
    Calm (startServiceRecordLocked w r) s := by
  refine wp_startServiceRecordLocked w fun t ht => ?_
  have hcalm : CalmInv t ∧ t.processes = s.processes := by
    rcases ht with ⟨-, rfl⟩ | ⟨-, rfl⟩
    · exact ⟨h.same rfl rfl rfl rfl, rfl⟩
    · exact ⟨h, rfl⟩
  cases happ : s.getProcessRecordLocked (s.services.get r).mServiceInfo.mApplicationName with
  | none =>
    rw [startInProcess, wp_bind]
    exact calm_startProcessLocked hw hcalm.1 _
  | some app =>
    exact calm_realStartServiceLocked r hcalm.1 (by rw [hcalm.2]; exact h.thread happ hready)

theorem calm_startServiceLocked (caller : Option InterfacePtr) (intent : Intent) (h : CalmInv s)
    (hready : s.retrieveServiceLocked intent = none →
      ∀ si ∈ w.pm.resolveServiceInfo intent.mAction, si.mApplicationName ∉ s.waiting) :
    Calm (startServiceLocked w caller intent) s := by
  simp only [Calm, startServiceLocked, wp_bind, wp_get]
  split
  · exact h
  · next si hsi =>
    split
    · exact h
    · next hnone =>
      simp only [newServiceRecord, wp_bind, wp_get, wp_modify, wp_pure]
      refine calm_startServiceRecordLocked hw _ (h.same rfl rfl rfl rfl) ?_
      rw [Store.get_alloc_fresh]
      exact hready hnone si hsi

/-- The application that a `bindService` for this intent goes to. -/
def State.boundApplication (s : State) (w : World) (intent : Intent) : Option String8 :=
  match s.retrieveServiceLocked intent with
  | some r => some (s.services.get r).mServiceInfo.mApplicationName
  | none => (w.pm.resolveServiceInfo intent.mAction).map ServiceInfo.mApplicationName

omit hw in
theorem wp_serviceForBind {Q : Option ServiceRef → State → Prop} {E : Fault → State → Prop}
    (caller : Option InterfacePtr) (intent : Intent) (hnone : Q none s)
    (hsome : ∀ r services, s.boundApplication w intent =
      some (services.get r).mServiceInfo.mApplicationName → Q (some r) { s with services }) :
    wp (serviceForBind w caller intent) Q E s := by
  simp only [serviceForBind, wp_bind, wp_get]
  split
  · next r hr => exact hsome r s.services (by simp [State.boundApplication, hr])
  · next hr =>
    split
    · exact hnone
    · next si hsi =>
      simp only [newServiceRecord, wp_bind, wp_get, wp_modify, wp_pure]
      exact hsome _ _ (by simp [State.boundApplication, hr, hsi])

theorem calm_bindServiceLocked (caller : Option InterfacePtr) (token : Option IBinder)
    (intent : Intent) (connection : Option InterfacePtr) (flags : BitVec 32) (h : CalmInv s)
    (hready : ∀ name ∈ s.boundApplication w intent, name ∉ s.waiting) :
    Calm (bindServiceLocked w caller token intent connection flags) s := by
  simp only [Calm, bindServiceLocked, wp_bind, wp_get]
  generalize (if caller = none then none else s.getRecordForAppLocked caller) = callerApp
  refine wp_serviceForBind caller intent h fun r services happ => ?_
  -- the application of `r` and the waiting ones stay what they are up to the start
  let F : Frame State := .same fun t : State =>
    (t.waiting, fun r => (t.services.get r).mServiceInfo)
  have hF : AllowsServiceRecords F := fun t q f hf => by
    refine Prod.ext rfl (funext fun p => ?_)
    simp only [Store.get_update]
    split
    · exact hf _
    · rfl
  have h0 : CalmInv { s with services } := h.same rfl rfl rfl rfl
  have htoken := wp_and
    (Calm.of_keeps (keeps_getActivityRecordByToken allowsProxies_calm.casts token) h0)
    ((keeps_getActivityRecordByToken (F := F) (fun _ => rfl) token).wp { s with services })
  simp only [wp_bind, wp_get]
  refine wp_mono htoken ?_ fun _ _ ht => ht.1
  rintro activity t ⟨ht, hsame⟩
  simp only [modifyService, wp_modify]
  let t' : State := { t with
    services := t.services.update r fun sr => sr.retrieveAppBindingLocked intent callerApp
    connections := t.connections.alloc
      ⟨r, intent.mAction, callerApp, activity, connection, flags⟩ }
  have ht' : CalmInv t' := ht.same rfl rfl rfl rfl
  have hbound : F.rel t t' :=
    hF t r (fun sr => sr.retrieveAppBindingLocked intent callerApp) fun _ => rfl
  have hadd := wp_and
    (Calm.of_keeps (keeps_addConnection w allowsBinding_calm.lists r t.connections.fresh
      (asBinder connection)) ht')
    ((keeps_addConnection w hF r t.connections.fresh (asBinder connection)).wp t')
  refine wp_mono hadd ?_ fun _ _ hu => hu.1
  rintro ⟨⟩ u ⟨hu, hsame'⟩
  have hframe : F.rel { s with services } u := F.trans (F.trans hsame hbound) hsame'
  obtain ⟨hwait, hinfo⟩ := Prod.mk.inj hframe
  have hname : (u.services.get r).mServiceInfo = (services.get r).mServiceInfo :=
    congrFun hinfo r
  refine wp_mono (calm_startServiceRecordLocked hw r hu ?_) ?_ fun _ _ hv => hv
  · rw [hname, show u.waiting = s.waiting from hwait]
    exact hready _ happ
  · intro _ v hv
    split
    · refine wp_when (fun _ => ?_) fun _ => hv
      exact Calm.of_keeps (keeps_callConnected allowsBinding_calm.toAllowsServices _ _ _) hv
    · exact hv

end

/-! ## Looking up a caller -/

/-- The search for the caller ends before it comes to a waiting process, or there is
none. -/
def State.callerReady (s : State) (caller : Option IBinder) : Prop :=
  (∀ p ∈ s.mProcesses, p ∉ s.mProcessesPending) ∨
  ∃ p ∈ s.mProcesses.takeWhile fun p => p ∉ s.mProcessesPending,
    asBinder (s.processes.get p).thread = caller

theorem findByBinder_quiet {s : State} {binder : Option IBinder} (ps : List ProcessRef)
    (hnull : ∀ p ∈ ps, (s.processes.get p).thread = none → p ∈ s.mProcessesPending)
    (hready : (∀ p ∈ ps, p ∉ s.mProcessesPending) ∨
      ∃ p ∈ ps.takeWhile fun p => p ∉ s.mProcessesPending,
        asBinder (s.processes.get p).thread = binder) :
    wp (findByBinder binder ps) (fun _ t => t = s) (fun _ _ => False) s := by
  induction ps with
  | nil => rfl
  | cons p ps ih =>
    have hp : p ∉ s.mProcessesPending := by
      rcases hready with hready | ⟨q, hq, -⟩
      · exact hready p (List.mem_cons_self ..)
      · intro hmem
        simp [hmem] at hq
    simp only [findByBinder, wp_bind, wp_get]
    refine wp_when (fun hthread => absurd (hnull p (List.mem_cons_self ..) hthread) hp) fun _ => ?_
    split
    · rfl
    · next hne =>
      refine ih (fun q hq => hnull q (List.mem_cons_of_mem _ hq)) ?_
      refine hready.imp (fun hready q hq => hready q (List.mem_cons_of_mem _ hq)) ?_
      rintro ⟨q, hq, hbinder⟩
      rw [List.takeWhile_cons_of_pos (by simpa using hp)] at hq
      rcases List.mem_cons.mp hq with rfl | hq
      · exact absurd hbinder hne
      · exact ⟨q, hq, hbinder⟩

section
variable {w : World} {s : State}

theorem getProcessRecordLocked_quiet {caller : Option InterfacePtr} (h : CalmInv s)
    (hready : s.callerReady (asBinder caller)) :
    wp (getProcessRecordLocked caller) (fun _ t => t = s) (fun _ _ => False) s := by
  simp only [getProcessRecordLocked, wp_bind, wp_get]
  exact findByBinder_quiet _ h.nullPending hready

theorem calm_registerReceiverLocked {caller : Option InterfacePtr} (receiver : Option InterfacePtr)
    (filter : Option IntentFilter) (h : CalmInv s) (hready : s.callerReady (asBinder caller)) :
    Calm (registerReceiverLocked w caller receiver filter) s := by
  simp only [Calm, registerReceiverLocked, wp_bind]
  refine wp_mono (getProcessRecordLocked_quiet h hready) ?_ fun _ _ hf => hf.elim
  rintro callerApp t rfl
  split
  · exact h
  · rw [wp_bind]
    exact Calm.of_keeps (keeps_addFilter w allowsQueue_calm.toAllowsReceivers _ _ _) h

theorem calm_broadcastIntentLocked {caller : Option InterfacePtr} (intent : Option Intent)
    (map : Option Bundle) (serialized sticky : Bool) (h : CalmInv s)
    (hready : s.callerReady (asBinder caller)) :
    Calm (broadcastIntentLocked w caller intent map serialized sticky) s := by
  simp only [Calm, broadcastIntentLocked, wp_bind]
  refine wp_mono (getProcessRecordLocked_quiet h hready) ?_ fun _ _ hf => hf.elim
  rintro callerApp t rfl
  split
  · exact h
  · rw [wp_bind]
    exact Calm.of_keeps (keeps_acceptBroadcast w allowsQueue_calm.signal
      (keeps_enqueueBroadcast allowsQueue_calm.enqueue) _ _ _ _ _) h

/-! ## The queue -/

/-- The first application of these receivers that is not in the table; it is started
and the receivers after it are skipped. -/
def firstUnknown (known : List String8) (infos : List ReceiverInfo) : List String8 :=
  ((infos.map ReceiverInfo.mApplicationName).find? fun name => name ∉ known).toList

/-- No receiver that comes before the first unknown application is of a waiting one;
an application started for one record waits when the next is processed. -/
def receiversReady : List String8 → List String8 → List (List ReceiverInfo) → Prop
  | _, _, [] => True
  | known, waiting, infos :: rest =>
    (∀ name ∈ (infos.map ReceiverInfo.mApplicationName).takeWhile fun name => name ∈ known,
      name ∉ waiting) ∧
    receiversReady (known ++ firstUnknown known infos) (waiting ++ firstUnknown known infos) rest

variable (hw : ∀ log, (w.zygote log).ret = 0)
include hw

theorem calm_processReceiverInfos (r : BroadcastRef) (k : Nat) (infos : List ReceiverInfo)
    (h : CalmInv s) (hi : 0 ≤ s.mLastPendingIndex → infos = [])
    (hready : ∀ name ∈ (infos.map ReceiverInfo.mApplicationName).takeWhile fun name =>
      name ∈ s.names, name ∉ s.waiting) :
    wp (processReceiverInfos w r k infos)
      (fun _ t => CalmInv t ∧ t.names = s.names ++ firstUnknown s.names infos ∧
        t.waiting = s.waiting ++ firstUnknown s.names infos)
      (fun _ => State.Quiet) s := by
  induction infos generalizing s k with
  | nil => exact ⟨h, by simp [firstUnknown], by simp [firstUnknown]⟩
  | cons ri infos ih =>
    simp only [processReceiverInfos, processReceiverInfo, wp_bind, wp_get]
    rw [if_neg fun h => List.cons_ne_nil _ _ (hi h)]
    simp only [wp_bind, wp_get]
    cases happ : s.getProcessRecordLocked ri.mApplicationName with
    | none =>
      have hnew := getProcessRecordLocked_none.mp happ
      have hfirst : firstUnknown s.names (ri :: infos) = [ri.mApplicationName] := by
        simp [firstUnknown, hnew]
      simp only [wp_bind, modifyBroadcast, wp_modify]
      refine wp_startProcessLocked (hw s.log) (fun app hsome => ?_) fun _ => ?_
      · rw [happ] at hsome
        cases hsome
      · refine skip_receiverInfos _ _ (Int.natCast_nonneg k) ?_
        have hstarted := names_started h ri.mApplicationName (w.zygote s.log).pid
        rw [hfirst]
        exact ⟨(h.start ri.mApplicationName (w.zygote s.log).pid).same rfl rfl rfl rfl,
          hstarted.1, hstarted.2⟩
    | some p =>
      have hknown : ri.mApplicationName ∈ s.names := by
        by_contra hnot
        rw [getProcessRecordLocked_none.mpr hnot] at happ
        cases happ
      rw [List.map_cons, List.takeWhile_cons_of_pos (by simpa using hknown)] at hready
      have hthread := h.thread happ (hready _ (List.mem_cons_self ..))
      have hfirst : firstUnknown s.names (ri :: infos) = firstUnknown s.names infos := by
        simp [firstUnknown, hknown]
      simp only [processCurBroadcastLocked, deref, scheduleBroadcastLocked, wp_bind, wp_pure,
        wp_get]
      refine wp_callThread (fun hnull => absurd hnull hthread) fun _ => ?_
      rw [wp_modify, hfirst]
      exact ih (k + 1) ((h.emit rfl).same rfl rfl rfl rfl)
        (fun h => absurd (hi h) (List.cons_ne_nil _ _))
        fun name hname => hready name (List.mem_cons_of_mem _ hname)

theorem calm_processBroadcast (r : BroadcastRef) (h : CalmInv s)
    (hi : 0 ≤ s.mLastPendingIndex → s.receiverInfos r = [])
    (hready : ∀ name ∈ ((s.receiverInfos r).map ReceiverInfo.mApplicationName).takeWhile
      fun name => name ∈ s.names, name ∉ s.waiting) :
    wp (processBroadcast w r)
      (fun _ t => CalmInv t ∧ t.mLastPendingIndex < 0 ∧
        t.names = s.names ++ firstUnknown s.names (s.receiverInfos r) ∧
        t.waiting = s.waiting ++ firstUnknown s.names (s.receiverInfos r))
      (fun _ => State.Quiet) s := by
  have hkeeps : ∀ {F : Frame State}, AllowsEvents F .receiver →
      Keeps F (each (performReceive r) (s.broadcasts.get r).mBroadcastFilter) :=
    fun hF => .each _ fun bf _ => keeps_performReceive hF r bf
  have hsame := (hkeeps (F := .same fun t => (t.names, t.waiting, t.mLastPendingIndex))
    ⟨fun _ _ _ _ => rfl⟩).wp s
  have hcalm := Calm.of_keeps (hkeeps allowsQueue_calm.toAllowsEvents) h
  simp only [processBroadcast, wp_bind, wp_get]
  refine wp_mono (wp_and hcalm hsame) ?_ fun _ _ ht => ht.1
  rintro ⟨⟩ t ⟨ht, heq⟩
  obtain ⟨hnames, heq⟩ := Prod.mk.inj heq
  obtain ⟨hwait, hidx⟩ := Prod.mk.inj heq
  simp only [modifyBroadcast, wp_modify]
  let t' : State := { t with
    broadcasts := t.broadcasts.update r fun b => { b with mBroadcastFilter := [] } }
  have ht' : CalmInv t' := ht.same rfl rfl rfl rfl
  have hnames' : t'.names = s.names := hnames
  have hwait' : t'.waiting = s.waiting := hwait
  have hspec := calm_processReceiverInfos hw r 0 (s.receiverInfos r) ht'
    (by rw [show t'.mLastPendingIndex = s.mLastPendingIndex from hidx]; exact hi)
    (by rw [hnames', hwait']; exact hready)
  rw [hnames', hwait'] at hspec
  refine wp_mono hspec ?_ fun _ _ hu => hu
  rintro ⟨⟩ u ⟨hu, hn, hwt⟩
  exact ⟨hu.same rfl rfl rfl rfl, (by decide : (-1 : Int) < 0), hn, hwt⟩

theorem calm_drainParallelBroadcasts (n : Nat) (h : CalmInv s)
    (hi : 0 ≤ s.mLastPendingIndex → ∀ r ∈ s.mParallelBroadcasts.head?, s.receiverInfos r = [])
    (hready : receiversReady s.names s.waiting (s.mParallelBroadcasts.map s.receiverInfos)) :
    Calm (drainParallelBroadcasts w n) s := by
  induction n generalizing s with
  | zero => exact h
  | succ n ih =>
    simp only [Calm, drainParallelBroadcasts, wp_bind, wp_get]
    split
    · exact h
    · next r rest hq =>
      rw [hq, List.map_cons] at hready
      obtain ⟨hfirst, hrest⟩ := hready
      rw [wp_bind]
      have hspec := calm_processBroadcast hw r h (fun h => hi h r (by simp [hq])) hfirst
      refine wp_mono (wp_and hspec ((keeps_processBroadcast_infos w r).wp s)) ?_ fun _ _ ht => ht.1
      rintro ⟨⟩ t ⟨⟨ht, hneg, hnames, hwait⟩, hsame⟩
      obtain ⟨hqueue, hinfos⟩ := Prod.mk.inj hsame
      rw [wp_bind, wp_modify]
      have ht' : CalmInv { t with mParallelBroadcasts := t.mParallelBroadcasts.tail } :=
        ht.same rfl rfl rfl rfl
      refine ih ht' (fun h => absurd h (Int.not_le.mpr hneg)) ?_
      show receiversReady t.names t.waiting (t.mParallelBroadcasts.tail.map t.receiverInfos)
      rw [hnames, hwait, hinfos, hqueue, hq]
      exact hrest

end

/-! ## Attaching -/

section
variable {w : World} {s : State}

theorem CalmInv.attached {pid : Int} {app : ProcessRef} {thread : Option InterfacePtr} {n : Nat}
    (h : CalmInv s) (hfind : s.pendingFor pid = some app) (hthread : thread ≠ none) :
    CalmInv (s.attached pid app thread n) := by
  obtain ⟨l₁, l₂, hl, herase⟩ := eraseP_of_find? hfind
  have hpend : (s.attached pid app thread n).mProcessesPending = l₁ ++ l₂ := herase
  refine ⟨h.live, fun p hp => h.pendingLive p ?_, h.quiet, fun p hp hnull => ?_⟩
  · rw [hpend] at hp
    rw [hl]
    rcases List.mem_append.mp hp with hp | hp
    · exact List.mem_append_left _ hp
    · exact List.mem_append_right _ (List.mem_cons_of_mem _ hp)
  · have hne : p ≠ app := by
      rintro rfl
      exact hthread (attached_thread.symm.trans hnull)
    have hsame : (s.attached pid app thread n).processes.get p = s.processes.get p :=
      Store.get_update_ne s.processes (fun p => { p with thread := thread }) hne
    have hmem := h.nullPending p hp (hsame ▸ hnull)
    rw [hl] at hmem
    rw [hpend]
    rcases List.mem_append.mp hmem with hmem | hmem
    · exact List.mem_append_left _ hmem
    · exact List.mem_append_right _ ((List.mem_cons.mp hmem).resolve_left hne)

theorem calm_attachApplicationLocked {appThread : Option IBinder} {pid : Int} (h : CalmInv s)
    (hready : s.pendingFor pid ≠ none → appThread ≠ none) :
    Calm (attachApplicationLocked w appThread pid) s := by
  simp only [Calm, attachApplicationLocked, wp_bind, wp_get]
  split
  · exact h.emit rfl
  · next app hfind =>
    have hsome : s.pendingFor pid = some app := hfind
    simp only [wp_bind, wp_modify, modifyProcess]
    refine wp_interfaceCast fun thread n hb => ?_
    have hne : thread ≠ none := fun e => hready (by simp [hsome]) (by rw [← hb, e]; rfl)
    have ht : CalmInv (s.attached pid app thread n) := h.attached hsome hne
    refine wp_when (fun _ => wp_callThread (fun hnull => ?_) fun hthread => ?_)
      fun hn => absurd hne hn
    · exact absurd hnull (by simpa [State.attached] using hne)
    · -- the thread is still set when the service and the activity are launched through it
      let F : Frame State := .same State.processes
      have hA : AllowsActivities F :=
        ⟨⟨fun _ _ _ _ => rfl⟩, fun _ _ _ _ => rfl, fun _ _ _ => rfl, fun _ _ => rfl⟩
      refine wp_mono (wp_and (calm_attachActivityLocked (ht.emit rfl) hthread)
        ((keeps_attachActivityLocked hA (fun _ _ _ => rfl) app).wp _)) ?_ fun _ _ hu => hu.1
      rintro res1 u ⟨hu, hproc⟩
      refine wp_mono
        (calm_attachServiceLocked hu (by rw [show u.processes = _ from hproc]; exact hthread))
        (fun res2 v hv => ?_) fun _ _ hv => hv
      have hreceiver := keeps_attachReceiverLocked allowsQueue_calm.signal.pending app
      refine wp_mono (Calm.of_keeps hreceiver hv)
        (fun res3 x hx => wp_when (fun _ => hx.emit rfl) fun _ => hx) fun _ _ hx => hx

end

/-! ## Runs -/

/-- The step asks for no application that waits to attach, looks past none of them for
its caller, and is no attach without a thread. -/
def Ready (w : World) (s : State) : Action → Prop
  | .request pid (.attachApplication appThread) => s.pendingFor pid ≠ none → appThread ≠ none
  | .request _ (.startActivity _ _ intent _) => ∀ i ∈ intent,
      ∀ ai ∈ w.pm.resolveActivityInfo i.mAction, ai.mApplicationName ∉ s.waiting
  | .request _ (.startService _ intent) => ∀ i ∈ intent, s.retrieveServiceLocked i = none →
      ∀ si ∈ w.pm.resolveServiceInfo i.mAction, si.mApplicationName ∉ s.waiting
  | .request _ (.bindService _ _ intent _ _) => ∀ i ∈ intent,
      ∀ name ∈ s.boundApplication w i, name ∉ s.waiting
  | .request _ (.publishService ..) => True
  | .request _ (.registerReceiver caller _ _) => s.callerReady caller
  | .request _ (.broadcastIntent caller _ _ _ _ _) => s.callerReady caller
  | .handleMessage => 0 < s.messages →
      receiversReady s.names s.waiting (s.mParallelBroadcasts.map s.receiverInfos)

instance decidableReceiversReady :
    ∀ known waiting infos, Decidable (receiversReady known waiting infos)
  | _, _, [] => .isTrue trivial
  | known, waiting, infos :: rest =>
    have := decidableReceiversReady (known ++ firstUnknown known infos)
      (waiting ++ firstUnknown known infos) rest
    instDecidableAnd

instance (s : State) (caller : Option IBinder) : Decidable (s.callerReady caller) :=
  inferInstanceAs (Decidable ((∀ p ∈ s.mProcesses, _) ∨ ∃ p ∈ s.mProcesses.takeWhile _, _))

instance (w : World) (s : State) : ∀ a, Decidable (Ready w s a)
  | .request pid (.attachApplication appThread) =>
    inferInstanceAs (Decidable (s.pendingFor pid ≠ none → appThread ≠ none))
  | .request _ (.startActivity _ _ intent _) => inferInstanceAs (Decidable (∀ i ∈ intent,
      ∀ ai ∈ w.pm.resolveActivityInfo i.mAction, ai.mApplicationName ∉ s.waiting))
  | .request _ (.startService _ intent) => inferInstanceAs (Decidable (∀ i ∈ intent,
      s.retrieveServiceLocked i = none →
        ∀ si ∈ w.pm.resolveServiceInfo i.mAction, si.mApplicationName ∉ s.waiting))
  | .request _ (.bindService _ _ intent _ _) => inferInstanceAs (Decidable (∀ i ∈ intent,
      ∀ name ∈ s.boundApplication w i, name ∉ s.waiting))
  | .request _ (.publishService ..) => .isTrue trivial
  | .request _ (.registerReceiver caller _ _) => inferInstanceAs (Decidable (s.callerReady caller))
  | .request _ (.broadcastIntent caller ..) => inferInstanceAs (Decidable (s.callerReady caller))
  | .handleMessage => inferInstanceAs (Decidable (0 < s.messages → receiversReady ..))

section
variable {w : World} {s : State} {α : Type}

theorem calm_interfaceCast {d : Descriptor} {b : Option IBinder} {f : Option InterfacePtr → AM α}
    (h : ∀ p n, asBinder p = b → Calm (f p) { s with proxies := n }) :
    Calm (interfaceCast d b >>= f) s := by
  rw [Calm, wp_bind]
  exact wp_interfaceCast h

theorem calm_deref {β : Type} {b : Option β} {f : β → AM α} (h : CalmInv s)
    (hf : ∀ x ∈ b, Calm (f x) s) : Calm (deref b >>= f) s := by
  rw [Calm, wp_bind]
  cases b with
  | none => exact h.quiet
  | some x => exact hf x rfl

theorem calm_discard {x : AM α} (hx : Calm x s) : Calm (do let _ ← x; pure PUnit.unit) s := by
  rw [Calm, wp_bind]
  exact hx

theorem step_calm (hw : ∀ log, (w.zygote log).ret = 0) {a : Action} (h : CalmInv s)
    (hq : QueueInv s) (ha : Ready w s a) : Calm (step w a) s := by
  have hx : ∀ n, CalmInv { s with proxies := n } := fun n => h.same rfl rfl rfl rfl
  cases a with
  | handleMessage =>
    simp only [Calm, step, wp_bind, wp_get]
    split
    · exact h
    · next n hn =>
      simp only [processNextBroadcast, wp_bind, wp_modify, wp_get]
      exact calm_drainParallelBroadcasts hw _ (h.same rfl rfl rfl rfl) hq.idle
        (ha (by rw [hn]; exact Nat.succ_pos n))
  | request pid call =>
    cases call with
    | attachApplication appThread => exact calm_attachApplicationLocked h ha
    | startActivity caller resultTo intent requestCode =>
      exact calm_interfaceCast fun p n _ => calm_deref (hx n) fun i hi => calm_discard <|
        calm_startActivityLocked hw _ _ _ _ (hx n) (ha i hi)
    | startService caller intent =>
      exact calm_interfaceCast fun p n _ => calm_deref (hx n) fun i hi => calm_discard <|
        calm_startServiceLocked hw _ _ (hx n) (ha i hi)
    | bindService caller token intent connection flags =>
      exact calm_interfaceCast fun p n _ => calm_interfaceCast fun q m _ =>
        calm_deref (hx m) fun i hi => calm_bindServiceLocked hw _ _ _ _ _ (hx m) (ha i hi)
    | publishService token intent service =>
      exact calm_discard <| Calm.of_keeps
        (keeps_publishServiceLocked allowsBinding_calm.toAllowsServices _ _ _) h
    | registerReceiver caller receiver filter =>
      exact calm_interfaceCast fun p n hp => calm_interfaceCast fun q m _ => calm_discard <|
        calm_registerReceiverLocked _ _ (hx m) (hp ▸ ha)
    | broadcastIntent caller intent resultTo map serialized sticky =>
      exact calm_interfaceCast fun p n hp => calm_interfaceCast fun q m _ => calm_discard <|
        calm_broadcastIntentLocked _ _ _ _ (hx m) (hp ▸ ha)

end

/-- **No null thread.** In a run whose steps are all ready, nothing is done through a
null `thread`, not even by a step that faults for another reason. -/
theorem quiet_of_ready (w : World) (hw : ∀ log, (w.zygote log).ret = 0) (as : List Action)
    (hready : Along (Ready w) (step w) as (init w)) :
    (final (run (step w) as (init w))).Quiet := by
  have hstep : ∀ s a, CalmInv s ∧ QueueInv s → Ready w s a →
      wp (step w a) (fun _ t => CalmInv t ∧ QueueInv t) (fun _ => State.Quiet) s :=
    fun s a ⟨h, hq⟩ ha => wp_mono (wp_and (step_calm hw h hq ha) (step_queue w a hq))
      (fun _ _ ht => ht) fun _ _ ht => ht.1
  refine wp_final (wp_mono (wp_run hstep as ⟨.init w, .init w⟩ hready)
    (fun _ _ ht => ht.1.quiet) fun _ _ ht => ht)

/-- The activity is started, its process attaches and registers a receiver, and the
activity is started again. -/
theorem quiet_launch :
    (final (run (step (.counting onePackage))
      (launch ++ [.request 1 (.registerReceiver (some (.proxy 1)) (some (.proxy 2)) (some .new)),
        .request 0 (.startActivity none none (some (.ofAction [3])) 0)])
      (init (.counting onePackage)))).Quiet :=
  quiet_of_ready (.counting onePackage) (fun log => (counting_fresh _ log).1) _ (by decide +kernel)

/-- The same activity, started twice before its process attaches. -/
theorem null_thread_called :
    ¬ ∀ (w : World) (as : List Action), w.Fresh →
      (final (run (step w) as (init w))).Quiet := by
  intro h
  have := h (.counting onePackage) [.request 0 (.startActivity none none (some (.ofAction [3])) 0),
    .request 0 (.startActivity none none (some (.ofAction [3])) 0)] (counting_fresh _)
  revert this
  unfold State.Quiet
  decide +kernel

end Cdroid.Service
