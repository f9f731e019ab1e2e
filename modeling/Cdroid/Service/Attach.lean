import Cdroid.Service.ProcessTable
import Cdroid.Service.Token

/-! What an attaching process is given to start. Both lists are searched for the name of the
application, and the search ends at the first record that has it. -/

namespace Cdroid.Service
open Cdroid.Lib.Comp Cdroid.Lib.Containers Cdroid.Runtime

/-! ## Launches -/

/-- The activity that an event launches in the process of `app`. -/
def Event.launchIn (app : ProcessRef) : Event → Option ActivityRef
  | .thread p (.scheduleLaunchActivity _ (some (.token r)) _) => if p = app then some r else none
  | _ => none

/-- The service that an event creates in the process of `app`. -/
def Event.createIn (app : ProcessRef) : Event → Option ServiceRef
  | .thread p (.scheduleCreateService _ (some (.service r)) _) => if p = app then some r else none
  | _ => none

namespace State

def launchedIn (s : State) (app : ProcessRef) : List ActivityRef :=
  s.log.filterMap (Event.launchIn app)

def createdIn (s : State) (app : ProcessRef) : List ServiceRef :=
  s.log.filterMap (Event.createIn app)

/-- The activity of the application that the search finds. -/
def firstActivity (s : State) (name : String8) : Option ActivityRef :=
  s.mHistory.find? fun r => (s.activities.get r).mActivityInfo.mApplicationName = name

def firstService (s : State) (name : String8) : Option ServiceRef :=
  s.mServices.find? fun r => (s.services.get r).mServiceInfo.mApplicationName = name

/-- An activity of the application that has not been launched -/
def activityWaits (s : State) (name : String8) (r : ActivityRef) : Prop :=
  (s.activities.get r).mActivityInfo.mApplicationName = name ∧ (s.activities.get r).mApp = none

def serviceWaits (s : State) (name : String8) (r : ServiceRef) : Prop :=
  (s.services.get r).mServiceInfo.mApplicationName = name ∧ (s.services.get r).mApp = none

/-- Has the service a process with a thread, once `app` has one? -/
def runningWith (s : State) (app : ProcessRef) (r : ServiceRef) : Bool :=
  (s.services.get r).mApp.any fun p => p = app || (s.processes.get p).thread.isSome

end State

/-- Every record that waits is started once, in the order of the list, and no other. -/
structure StartsAll {ι : Type} (records : List ι) (waits : ι → Prop) (started : List ι) : Prop where
  order : started.Sublist records
  once : started.Nodup
  all : ∀ r, r ∈ started ↔ r ∈ records ∧ waits r

/-- From `s` to `t`, these are started in the process of `app`. -/
def State.Starts (s : State) (app : ProcessRef) (started : List ActivityRef × List ServiceRef)
    (t : State) : Prop :=
  t.launchedIn app = s.launchedIn app ++ started.1 ∧ t.createdIn app = s.createdIn app ++ started.2

/-- The frame of what starts nothing. -/
abbrev startFrame (app : ProcessRef) : Frame State :=
  .same fun s => (s.launchedIn app, s.createdIn app)

section
variable {app : ProcessRef} {s t : State} {e : Event}

theorem launchedIn_emit (h : t.log = s.log ++ [e]) :
    t.launchedIn app = s.launchedIn app ++ (e.launchIn app).toList := by
  rw [State.launchedIn, h, List.filterMap_append]
  cases he : e.launchIn app <;> simp [State.launchedIn, he]

theorem createdIn_emit (h : t.log = s.log ++ [e]) :
    t.createdIn app = s.createdIn app ++ (e.createIn app).toList := by
  rw [State.createdIn, h, List.filterMap_append]
  cases he : e.createIn app <;> simp [State.createdIn, he]

theorem startFrame_emit (h : t.log = s.log ++ [e]) (hl : e.launchIn app = none)
    (hc : e.createIn app = none) : (startFrame app).rel s t := by
  refine Prod.ext ((launchedIn_emit h).trans ?_) ((createdIn_emit h).trans ?_)
  · rw [hl]
    exact List.append_nil _
  · rw [hc]
    exact List.append_nil _

/-- The `thread` that a binding is requested through is not null. -/
theorem requestBindings_start (w : World) (r : ServiceRef) (m : OrdMap String8 IntentBindRecord)
    (s : State) :
    wp (requestBindings w r m) (fun _ t => (startFrame app).rel s t) (fun _ _ => False) s := by
  have hone : ∀ action i s, wp (requestBindingLocked w r action i)
      (fun _ t => (startFrame app).rel s t) (fun _ _ => False) s := by
    intro action i s
    simp only [requestBindingLocked, wp_bind, wp_get]
    split
    · rfl
    · split
      · rfl
      · next hthread =>
        rw [wp_bind]
        refine wp_when (fun _ => ?_) fun _ => rfl
        rw [wp_bind]
        refine wp_callThread (fun hnull => absurd hnull hthread) fun _ => ?_
        exact startFrame_emit rfl rfl rfl
  induction m generalizing s with
  | nil => rfl
  | cons e m ih =>
    rw [requestBindings, wp_bind]
    refine wp_mono (hone e.1 e.2 s) (fun ret t ht => ?_) fun _ _ h => h
    split
    · exact ht
    · exact wp_mono (ih t) (fun _ u hu => (startFrame app).trans ht hu) fun _ _ h => h

theorem keeps_attachReceiverLocked_start (p : ProcessRef) :
    Keeps (startFrame app) (attachReceiverLocked p) :=
  keeps_attachReceiverLocked (fun _ _ => rfl) p

/-! ## The two searches -/

/-- What the search for an activity starts -/
theorem attachActivityLocked_launches {name : String8} (hname : (s.processes.get app).name = name)
    (htoken : ∀ r ∈ s.mHistory, (s.activities.get r).mToken = .token r) :
    wp (attachActivityLocked app)
      (fun _ t => t.launchedIn app = s.launchedIn app ++ (s.firstActivity name).toList ∧
        t.createdIn app = s.createdIn app ∧ t.processes = s.processes ∧
        t.services = s.services ∧ t.mServices = s.mServices ∧
        (s.firstActivity name ≠ none → (s.processes.get app).thread ≠ none))
      (fun _ t => (startFrame app).rel s t ∧ s.firstActivity name ≠ none ∧
        (s.processes.get app).thread = none) s := by
  subst hname
  unfold attachActivityLocked
  simp only [wp_bind, wp_get]
  split
  · next hnone =>
    have hfirst : s.firstActivity (s.processes.get app).name = none := hnone
    rw [wp_pure, hfirst]
    exact ⟨(List.append_nil _).symm, rfl, rfl, rfl, rfl, fun h => absurd rfl h⟩
  · next r hr =>
    have hfirst : s.firstActivity (s.processes.get app).name = some r := hr
    unfold realStartActivityLocked modifyActivity
    simp only [wp_bind, wp_modify, wp_get, Store.get_update_self]
    refine wp_callThread (fun hnull => ?_) fun hthread => ?_
    · exact ⟨startFrame_emit rfl rfl rfl, by rw [hfirst]; exact Option.some_ne_none r, hnull⟩
    · rw [wp_pure, hfirst]
      have hevent := htoken r (List.mem_of_find?_eq_some hr)
      refine ⟨(launchedIn_emit rfl).trans ?_, (createdIn_emit rfl).trans (List.append_nil _), rfl,
        rfl, rfl, fun _ => hthread⟩
      rw [hevent]
      simp only [Event.launchIn, if_true]
      rfl

/-- What the search for a service starts -/
theorem attachServiceLocked_creates (w : World) {name : String8}
    (hname : (s.processes.get app).name = name) :
    wp (attachServiceLocked w app)
      (fun _ t => t.launchedIn app = s.launchedIn app ∧ t.createdIn app =
        s.createdIn app ++ ((s.firstService name).toList.filter fun r => !s.running r) ∧
        ((s.processes.get app).thread = none →
          (s.firstService name).toList.filter (fun r => !s.running r) = []))
      (fun _ t => (startFrame app).rel s t ∧ (s.processes.get app).thread = none) s := by
  subst hname
  unfold attachServiceLocked
  simp only [wp_bind, wp_get]
  split
  · next hnone =>
    have hfirst : s.firstService (s.processes.get app).name = none := hnone
    rw [wp_pure, hfirst]
    exact ⟨rfl, (List.append_nil _).symm, fun _ => rfl⟩
  · next r hr =>
    have hfirst : s.firstService (s.processes.get app).name = some r := hr
    rw [hfirst]
    unfold realStartServiceLocked requestServiceBindingsLocked
    simp only [wp_bind, wp_get]
    have hrest : ∀ t, t.launchedIn app = s.launchedIn app →
        t.createdIn app = s.createdIn app ++ (some r).toList.filter (fun r => !s.running r) →
        ((s.processes.get app).thread = none →
          (some r).toList.filter (fun r => !s.running r) = []) →
        wp (requestBindings w r (t.services.get r).mBindings)
          (fun _ t => t.launchedIn app = s.launchedIn app ∧
            t.createdIn app = s.createdIn app ++
              ((some r).toList.filter fun r => !s.running r) ∧
            ((s.processes.get app).thread = none →
              (some r).toList.filter (fun r => !s.running r) = []))
          (fun _ t => (startFrame app).rel s t ∧ (s.processes.get app).thread = none) t := by
      intro t hl hc hnone
      have hkeep : wp (requestBindings w r (t.services.get r).mBindings)
          (fun _ u => (startFrame app).rel t u) (fun _ _ => False) t :=
        requestBindings_start w r _ t
      refine wp_mono hkeep (fun _ u hu => ?_) fun _ _ h => h.elim
      exact ⟨(congrArg Prod.fst hu).trans hl, (congrArg Prod.snd hu).trans hc, hnone⟩
    refine wp_when (fun hrun => ?_) fun hrun => ?_
    · have hfilter : (some r).toList.filter (fun r => !s.running r) = [r] :=
        List.filter_cons_of_pos hrun
      unfold modifyService
      simp only [wp_bind, wp_modify]
      refine wp_callThread (fun hnull => ?_) fun hthread => ?_
      · exact ⟨startFrame_emit rfl rfl rfl, hnull⟩
      · refine hrest _ ((launchedIn_emit rfl).trans (List.append_nil _)) ?_
          fun hnull => absurd hnull hthread
        refine (createdIn_emit rfl).trans ?_
        rw [hfilter]
        simp only [Event.createIn, if_true]
        rfl
    · have hfilter : (some r).toList.filter (fun r => !s.running r) = [] :=
        List.filter_cons_of_neg hrun
      refine hrest s rfl ?_ fun _ => hfilter
      rw [hfilter]
      exact (List.append_nil _).symm

/-! ## Attaching -/

/-- What starts with the attach of `app` -/
def State.attachStarts (s : State) (app : ProcessRef) (appThread : Option IBinder) :
    List ActivityRef × List ServiceRef :=
  if appThread = none then ([], [])
  else ((s.firstActivity (s.processes.get app).name).toList,
    (s.firstService (s.processes.get app).name).toList.filter fun r => !s.runningWith app r)

theorem running_attached {pid : Int} {thread : Option InterfacePtr} {n : Nat} (r : ServiceRef)
    (hthread : thread ≠ none) : (s.attached pid app thread n).running r = s.runningWith app r := by
  unfold State.running State.runningWith
  refine congrArg (fun f => Option.any f (s.services.get r).mApp) (funext fun p => ?_)
  by_cases hp : p = app
  · subst hp
    rw [attached_thread, decide_eq_true rfl, Bool.true_or]
    exact Option.isSome_iff_ne_none.mpr hthread
  · rw [decide_eq_false hp, Bool.false_or]
    have hget : (s.attached pid app thread n).processes.get p = s.processes.get p := by
      simp [State.attached, Store.get_update_ne _ _ hp]
    rw [hget]

theorem attach_rest (w : World) {v : State} {A : List ActivityRef} {B : List ServiceRef}
    {name : String8} {pid : Int} (hname : (v.processes.get app).name = name)
    (htoken : ∀ r ∈ v.mHistory, (v.activities.get r).mToken = .token r)
    (hA : v.launchedIn app ++ (if (v.processes.get app).thread = none then []
      else (v.firstActivity name).toList) = A)
    (hB : v.createdIn app ++ (if (v.processes.get app).thread = none then []
      else (v.firstService name).toList.filter fun r => !v.running r) = B) :
    wp (do
        let res1 ← attachActivityLocked app
        let res2 ← attachServiceLocked w app
        let res3 ← attachReceiverLocked app
        when (res1 = -1 ∧ res2 = -1 ∧ res3 = -1) (emit (.killProcessByPid pid)))
      (fun _ t => t.launchedIn app = A ∧ t.createdIn app = B)
      (fun _ t => t.launchedIn app = A ∧ t.createdIn app = B) v := by
  simp only [wp_bind]
  refine wp_mono (attachActivityLocked_launches hname htoken) ?_ ?_
  · rintro res1 t ⟨hl, hc, hprocesses, hservices, hmServices, hthread⟩
    have hfirst : t.firstService name = v.firstService name := by
      rw [State.firstService, hmServices, hservices]
      rfl
    have hrunning : ∀ r, t.running r = v.running r := by
      intro r
      rw [State.running, hprocesses, hservices]
      rfl
    have hA' : t.launchedIn app = A := by
      rw [hl, ← hA]
      split
      · next hnull =>
        have hnone : v.firstActivity name = none := by
          by_contra hne
          exact hthread hne hnull
        rw [hnone]
        rfl
      · rfl
    have hname' : (t.processes.get app).name = name := by
      rw [hprocesses]
      exact hname
    refine wp_mono (attachServiceLocked_creates w hname') ?_ ?_
    · rintro res2 u ⟨hl', hc', hnull⟩
      simp only [hfirst, hrunning, hprocesses] at hc' hnull
      have hB' : u.createdIn app = B := by
        rw [hc', hc, ← hB]
        split
        · next hn => rw [hnull hn]
        · rfl
      have hkeeps : Keeps (startFrame app) (attachReceiverLocked app) :=
        keeps_attachReceiverLocked_start app
      refine wp_mono (hkeeps.wp u) (fun res3 x hx => ?_) fun _ x hx => ?_
      · have hx' : x.launchedIn app = A ∧ x.createdIn app = B :=
          ⟨(congrArg Prod.fst hx).trans (hl'.trans hA'), (congrArg Prod.snd hx).trans hB'⟩
        refine wp_when (fun _ => ?_) fun _ => hx'
        have hkill : (startFrame app).rel x
            { x with log := x.log ++ [.killProcessByPid pid] } := startFrame_emit rfl rfl rfl
        exact ⟨(congrArg Prod.fst hkill).trans hx'.1, (congrArg Prod.snd hkill).trans hx'.2⟩
      · exact ⟨(congrArg Prod.fst hx).trans (hl'.trans hA'), (congrArg Prod.snd hx).trans hB'⟩
    · rintro e u ⟨hu, hnull⟩
      rw [hprocesses] at hnull
      rw [if_pos hnull, List.append_nil] at hB
      exact ⟨(congrArg Prod.fst hu).trans hA', (congrArg Prod.snd hu).trans (hc.trans hB)⟩
  · rintro e t ⟨ht, -, hnull⟩
    rw [if_pos hnull, List.append_nil] at hA hB
    exact ⟨(congrArg Prod.fst ht).trans hA, (congrArg Prod.snd ht).trans hB⟩

theorem attachApplicationLocked_starts (w : World) {pid : Int} (appThread : Option IBinder)
    (hpending : s.pendingFor pid = some app)
    (htoken : ∀ r ∈ s.mHistory, (s.activities.get r).mToken = .token r) :
    s.Starts app (s.attachStarts app appThread)
      (final (attachApplicationLocked w appThread pid s)) := by
  have hfind : s.mProcessesPending.find? (fun p => (s.processes.get p).pid = pid) = some app :=
    hpending
  refine wp_final ?_
  unfold attachApplicationLocked
  simp only [wp_bind, wp_get]
  rw [hfind]
  simp only [wp_bind, wp_modify]
  refine wp_interfaceCast fun thread n hthread => ?_
  have hnone : thread = none ↔ appThread = none := by
    rw [← hthread]
    cases thread with
    | none => simp [asBinder]
    | some p => cases p <;> simp [asBinder]
  unfold modifyProcess
  simp only [wp_modify]
  -- the state in which the lists are searched
  have hsearch : ∀ v : State, (startFrame app).rel s v →
      v.processes = (s.attached pid app thread n).processes →
      v.activities = s.activities → v.mHistory = s.mHistory → v.services = s.services →
      v.mServices = s.mServices →
      wp (do
          let res1 ← attachActivityLocked app
          let res2 ← attachServiceLocked w app
          let res3 ← attachReceiverLocked app
          when (res1 = -1 ∧ res2 = -1 ∧ res3 = -1)
            (emit (.killProcessByPid (s.processes.get app).pid)))
        (fun _ => s.Starts app (s.attachStarts app appThread))
        (fun _ => s.Starts app (s.attachStarts app appThread)) v := by
    intro v hv hprocesses hactivities hmHistory hservices hmServices
    have hname : (v.processes.get app).name = (s.processes.get app).name := by
      rw [hprocesses, attached_name]
    have hget : (v.processes.get app).thread = thread := by
      rw [hprocesses, attached_thread]
    have hrunning : ∀ r, v.running r = (s.attached pid app thread n).running r := by
      intro r
      rw [State.running, hprocesses, hservices]
      rfl
    refine attach_rest w hname (fun r hr => ?_) ?_ ?_
    · rw [hactivities]
      exact htoken r (hmHistory ▸ hr)
    · rw [hget]
      refine congrArg₂ (· ++ ·) (congrArg Prod.fst hv) ?_
      unfold State.attachStarts State.firstActivity
      rw [hactivities, hmHistory]
      by_cases hn : appThread = none
      · rw [if_pos (hnone.mpr hn), if_pos hn]
      · rw [if_neg (mt hnone.mp hn), if_neg hn]
    · rw [hget]
      refine congrArg₂ (· ++ ·) (congrArg Prod.snd hv) ?_
      unfold State.attachStarts State.firstService
      rw [hservices, hmServices]
      by_cases hn : appThread = none
      · rw [if_pos (hnone.mpr hn), if_pos hn]
      · rw [if_neg (mt hnone.mp hn), if_neg hn]
        refine List.filter_congr fun r _ => ?_
        rw [hrunning, running_attached r (mt hnone.mp hn)]
  simp only [wp_bind] at hsearch
  refine wp_when (fun hsome => ?_) fun _ => hsearch _ rfl rfl rfl rfl rfl rfl
  refine wp_callThread (fun hnull => ?_) fun _ => ?_
  · exact absurd (attached_thread.symm.trans hnull) hsome
  · exact hsearch _ (startFrame_emit rfl rfl rfl) rfl rfl rfl rfl rfl

/-! ## What waits -/

/-- The attach starts what waits for the application, and nothing that is running. -/
def State.AttachStartsAll (w : World) (s : State) (app : ProcessRef) (pid : Int)
    (appThread : Option IBinder) : Prop :=
  ∃ started, s.Starts app started (final (attachApplicationLocked w appThread pid s)) ∧
    StartsAll s.mHistory (s.activityWaits (s.processes.get app).name) started.1 ∧
    StartsAll s.mServices (s.serviceWaits (s.processes.get app).name) started.2

/-- In each list the first record of the application is the only one that may wait. An
activity that is first does wait, and a service that does not is running. Without a thread,
nothing waits. -/
def State.OnlyFirstWaits (s : State) (app : ProcessRef) (appThread : Option IBinder) : Prop :=
  if appThread = none then
    (∀ r ∈ s.mHistory, ¬ s.activityWaits (s.processes.get app).name r) ∧
      ∀ r ∈ s.mServices, ¬ s.serviceWaits (s.processes.get app).name r
  else
    ((∀ r ∈ s.firstActivity (s.processes.get app).name, (s.activities.get r).mApp = none) ∧
      ∀ r ∈ s.mHistory, s.activityWaits (s.processes.get app).name r →
        s.firstActivity (s.processes.get app).name = some r) ∧
    (∀ r ∈ s.firstService (s.processes.get app).name,
        (s.services.get r).mApp = none ∨ s.runningWith app r = true) ∧
      ∀ r ∈ s.mServices, s.serviceWaits (s.processes.get app).name r →
        s.firstService (s.processes.get app).name = some r

/-- One record at most is started. -/
theorem startsAll_toList {ι : Type} {records : List ι} {waits : ι → Prop} {first : Option ι}
    (hmem : ∀ r, first = some r → r ∈ records) :
    StartsAll records waits first.toList ↔
      (∀ r, first = some r → waits r) ∧ ∀ r ∈ records, waits r → first = some r := by
  constructor
  · rintro ⟨-, -, hall⟩
    constructor
    · rintro r rfl
      exact ((hall r).mp (by simp)).2
    · intro r hr hwaits
      have := (hall r).mpr ⟨hr, hwaits⟩
      rwa [Option.mem_toList] at this
  · rintro ⟨hfirst, hwaits⟩
    refine ⟨?_, ?_, fun r => ?_⟩
    · cases hr : first with
      | none => exact List.nil_sublist _
      | some r => exact List.singleton_sublist.mpr (hmem r hr)
    · cases first with
      | none => exact .nil
      | some r => exact List.nodup_singleton r
    · rw [Option.mem_toList]
      exact ⟨fun hr => ⟨hmem r hr, hfirst r hr⟩, fun hr => hwaits r hr.1 hr.2⟩

theorem startsAll_nil {ι : Type} {records : List ι} {waits : ι → Prop} :
    StartsAll records waits [] ↔ ∀ r ∈ records, ¬ waits r :=
  ⟨fun h r hr hwaits => List.not_mem_nil ((h.all r).mpr ⟨hr, hwaits⟩),
    fun h => ⟨List.nil_sublist _, .nil, fun r => iff_of_false List.not_mem_nil
      fun hr => h r hr.1 hr.2⟩⟩

/-- What is started is known from the state before. -/
theorem attachStartsAll_iff (w : World) {pid : Int} {appThread : Option IBinder}
    (hpending : s.pendingFor pid = some app)
    (htoken : ∀ r ∈ s.mHistory, (s.activities.get r).mToken = .token r) :
    s.AttachStartsAll w app pid appThread ↔
      StartsAll s.mHistory (s.activityWaits (s.processes.get app).name)
          (s.attachStarts app appThread).1 ∧
        StartsAll s.mServices (s.serviceWaits (s.processes.get app).name)
          (s.attachStarts app appThread).2 := by
  have hstarts := attachApplicationLocked_starts w appThread hpending htoken
  constructor
  · rintro ⟨started, ⟨hl, hc⟩, hall⟩
    have heq : started = s.attachStarts app appThread :=
      Prod.ext (List.append_cancel_left (hl.symm.trans hstarts.1))
        (List.append_cancel_left (hc.symm.trans hstarts.2))
    rwa [heq] at hall
  · exact fun hall => ⟨_, hstarts, hall⟩

theorem attach_starts_iff (w : World) {pid : Int} {appThread : Option IBinder}
    (hpending : s.pendingFor pid = some app)
    (htoken : ∀ r ∈ s.mHistory, (s.activities.get r).mToken = .token r) :
    s.AttachStartsAll w app pid appThread ↔ s.OnlyFirstWaits app appThread := by
  rw [attachStartsAll_iff w hpending htoken]
  unfold State.attachStarts State.OnlyFirstWaits
  split
  · rw [startsAll_nil, startsAll_nil]
  generalize (s.processes.get app).name = name
  have hfilter : (s.firstService name).toList.filter (fun r => !s.runningWith app r) =
      ((s.firstService name).filter fun r => !s.runningWith app r).toList := by
    cases s.firstService name with
    | none => rfl
    | some r => cases hr : s.runningWith app r <;> simp [Option.filter, hr]
  have hactivity : ∀ r, s.firstActivity name = some r → r ∈ s.mHistory ∧
      (s.activities.get r).mActivityInfo.mApplicationName = name := fun r hr =>
    ⟨List.mem_of_find?_eq_some hr, by simpa using List.find?_some hr⟩
  have hservice : ∀ r, s.firstService name = some r → r ∈ s.mServices ∧
      (s.services.get r).mServiceInfo.mApplicationName = name := fun r hr =>
    ⟨List.mem_of_find?_eq_some hr, by simpa using List.find?_some hr⟩
  have hstopped : ∀ r, s.serviceWaits name r → s.runningWith app r = false := by
    rintro r ⟨-, hnone⟩
    rw [State.runningWith, hnone]
    rfl
  rw [hfilter, startsAll_toList fun r hr => (hactivity r hr).1,
    startsAll_toList fun r hr => (hservice r (Option.filter_eq_some_iff.mp hr).1).1]
  simp only [Option.filter_eq_some_iff, Bool.not_eq_true']
  refine and_congr (and_congr (forall_congr' fun r => imp_congr_right fun hr => ?_) Iff.rfl)
    (and_congr ?_ ?_)
  · exact and_iff_right (hactivity r hr).2
  · constructor
    · intro h r hr
      cases hrun : s.runningWith app r with
      | true => exact .inr rfl
      | false => exact .inl (h r ⟨hr, hrun⟩).2
    · rintro h r ⟨hr, hrun⟩
      refine ⟨(hservice r hr).2, (h r hr).resolve_right fun hrun' => ?_⟩
      rw [hrun] at hrun'
      cases hrun'
  · refine forall_congr' fun r => imp_congr_right fun _ => imp_congr_right fun hwaits => ?_
    exact and_iff_left (hstopped r hwaits)

end

instance (s : State) (name : String8) (r : ActivityRef) : Decidable (s.activityWaits name r) :=
  inferInstanceAs (Decidable (_ ∧ _))

instance (s : State) (name : String8) (r : ServiceRef) : Decidable (s.serviceWaits name r) :=
  inferInstanceAs (Decidable (_ ∧ _))

instance (s : State) (app : ProcessRef) (appThread : Option IBinder) :
    Decidable (s.OnlyFirstWaits app appThread) :=
  inferInstanceAs (Decidable (if appThread = none then (∀ r ∈ s.mHistory, _) ∧ ∀ r ∈ s.mServices, _
    else ((∀ r ∈ s.firstActivity _, _) ∧ ∀ r ∈ s.mHistory, _ → _) ∧
      (∀ r ∈ s.firstService _, _) ∧ ∀ r ∈ s.mServices, _ → _))

/-- The process of an activity has been forked. -/
def forked : State :=
  final (run (step (.counting onePackage)) [.request 0 (.startActivity none none
    (some (.ofAction [3])) 0)] (init (.counting onePackage)))

theorem attach_starts_forked :
    forked.AttachStartsAll (.counting onePackage) ⟨0⟩ 1 (some (.proxy 1)) :=
  (attach_starts_iff (.counting onePackage) (by decide +kernel) (by decide +kernel)).mpr
    (by decide +kernel)

/-- The same with a second activity that waits. -/
def forkedForTwo : State := { forked with
  activities := forked.activities.alloc
    { forked.activities.get ⟨0⟩ with mToken := .token forked.activities.fresh }
  mHistory := forked.mHistory ++ [forked.activities.fresh] }

/-- The second one is not launched. -/
theorem attach_not_all : ¬ ∀ (w : World) (s : State) (app : ProcessRef) (pid : Int)
    (appThread : Option IBinder), s.pendingFor pid = some app →
      (∀ r ∈ s.mHistory, (s.activities.get r).mToken = .token r) →
      s.AttachStartsAll w app pid appThread := by
  intro h
  have hall := (attachStartsAll_iff (.counting onePackage) (by decide +kernel)
    (by decide +kernel)).mp (h (.counting onePackage) forkedForTwo ⟨0⟩ 1 (some (.proxy 1))
      (by decide +kernel) (by decide +kernel))
  have hwaits : (⟨1⟩ : ActivityRef) ∈ (forkedForTwo.attachStarts ⟨0⟩ (some (.proxy 1))).1 :=
    (hall.1.all ⟨1⟩).mpr (by decide +kernel)
  revert hwaits
  decide +kernel

end Cdroid.Service
