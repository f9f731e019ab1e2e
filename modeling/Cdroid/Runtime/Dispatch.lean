import Cdroid.Runtime.ActivityThread
import Cdroid.Runtime.ApplicationThread

/-! What the main thread makes of the calls that the process receives: which are
carried out and in what order, and which services it publishes. -/

namespace Cdroid.Runtime
open Cdroid.Lib.Comp Cdroid.Utils

variable {B : Type}

/-! ## What a log says -/

/-- What `f` gives for every event of `es`, given the log before it. -/
def eachPrefix {α β : Type} (f : List α → α → List β) (log : List α) : List α → List β
  | [] => []
  | e :: es => f log e ++ eachPrefix f (log ++ [e]) es

theorem eachPrefix_append {α β : Type} (f : List α → α → List β) (log es es' : List α) :
    eachPrefix f log (es ++ es') = eachPrefix f log es ++ eachPrefix f (log ++ es) es' := by
  induction es generalizing log with
  | nil => simp [eachPrefix]
  | cons e es ih => simp [eachPrefix, ih]

/-- Events for which `f` gives nothing. -/
theorem eachPrefix_nil {α β : Type} {f : List α → α → List β} {es : List α}
    (h : ∀ log, ∀ e ∈ es, f log e = []) (log : List α) : eachPrefix f log es = [] := by
  induction es generalizing log with
  | nil => rfl
  | cons e es ih =>
    rw [eachPrefix, h log e (List.mem_cons_self ..), List.nil_append]
    exact ih (fun log' e' he' => h log' e' (List.mem_cons_of_mem _ he')) _

/-- The call of an event. -/
def Event.call : Event B → Option (ApplicationThreadCall B)
  | .handled call => some call
  | _ => none

/-- The calls that have been carried out. -/
def handledCalls (es : List (Event B)) : List (ApplicationThreadCall B) := es.filterMap Event.call

/-- The token and the service, when carrying out a call makes a service. -/
def created (app : Application B) (log : List (Event B)) (e : Event B) : List (Option B × Nat) :=
  match e with
  | .handled (.scheduleCreateService (some si) token intent) =>
    match loadService app.handleFile si.mFilename si.mName with
    | .entry sMF => (sMF.createService intent (log ++ [e])).toList.map fun service =>
      (token, service)
    | _ => []
  | _ => []

/-- The first service that has been created with the token. -/
def serviceOf [DecidableEq B] (app : Application B) (log : List (Event B)) (token : Option B) :
    Option Nat :=
  ((eachPrefix (created app) [] log).find? fun p => p.1 = token).map Prod.snd

/-- The arguments of `publishService`. -/
abbrev Publication (B : Type) := Option B × Option Intent × Option B

/-- What a bind is to lead to: the binder of the service, if there is one. -/
def answer [DecidableEq B] (app : Application B) (log : List (Event B)) (e : Event B) :
    List (Publication B) :=
  match e with
  | .handled (.scheduleBindService token intent _) =>
    (serviceOf app log token).toList.map fun service =>
      (token, intent, app.onBind service intent (log ++ [e]))
  | _ => []

def Event.publication : Event B → Option (Publication B)
  | .publishService token intent binder => some (token, intent, binder)
  | _ => none

/-- The calls of `publishService`. -/
def published (es : List (Event B)) : List (Publication B) := es.filterMap Event.publication

/-! ## Two properties of calls -/

/-- What the stub makes of a parcel has an info where the call has one. -/
def Received : ApplicationThreadCall B → Bool
  | .scheduleLaunchActivity ai _ _ => ai.isSome
  | .scheduleCreateService si _ _ => si.isSome
  | _ => true

theorem received_of_onTransact {code : Nat} {p : Binder.Parcel}
    {call : ApplicationThreadCall Binder.IBinder}
    (h : (ApplicationThread.onTransact code p).1 = some call) : Received call := by
  unfold ApplicationThread.onTransact at h
  split at h
  case h_7 => cases h
  all_goals
    obtain ⟨p', rfl⟩ := Binder.checked_eq_some h
    rfl

/-- Is the call posted to the main thread? -/
def posted : ApplicationThreadCall B → Bool
  | .bindApplication _ => false
  | _ => true

/-- The component that is to be made comes first in its list. -/
def Loadable (app : Application B) : ApplicationThreadCall B → Prop
  | .scheduleLaunchActivity (some ai) _ _ => Foremost ActivityManifest.name ai.mName
      ((app.handleFile ai.mFilename).map ApplicationManifest.activity)
  | .scheduleCreateService (some si) _ _ => Foremost ServiceManifest.name si.mName
      ((app.handleFile si.mFilename).map ApplicationManifest.service)
  | _ => True

/-- The main thread hangs in one of these calls, whose component does not come first. -/
def Hangs (app : Application B) (cs : List (ApplicationThreadCall B)) (e : Fault)
    (t : ActivityThread B) : Prop :=
  e = .hung ∧ ∃ c ∈ cs, c ∈ handledCalls t.events ∧ ¬ Loadable app c

theorem Hangs.mono {app : Application B} {cs cs' : List (ApplicationThreadCall B)} {e : Fault}
    {t : ActivityThread B} (h : Hangs app cs e t) (hsub : cs ⊆ cs') : Hangs app cs' e t := by
  obtain ⟨he, c, hc, hhandled, hload⟩ := h
  exact ⟨he, c, hsub hc, hhandled, hload⟩

theorem hangs_of_handled {app : Application B} {call : ApplicationThreadCall B}
    {t t' : ActivityThread B}
    (hevents : t'.events = t.events ++ [.handled call]) (hload : ¬ Loadable app call) :
    Hangs app [call] .hung t' := by
  refine ⟨rfl, call, List.mem_singleton.mpr rfl, ?_, hload⟩
  rw [handledCalls, hevents, List.filterMap_append]
  exact List.mem_append_right _ (List.mem_singleton.mpr rfl)

/-! ## The main thread -/

namespace ActivityThread
variable {app : Application B}

theorem created_of_no_call {e : Event B} (h : e.call = none) (log : List (Event B)) :
    created app log e = [] := by
  cases e with
  | handled c => cases h
  | _ => rfl

theorem answer_of_no_call [DecidableEq B] {e : Event B} (h : e.call = none)
    (log : List (Event B)) : answer app log e = [] := by
  cases e with
  | handled c => cases h
  | _ => rfl

variable [DecidableEq B]

/-- The records of the thread are those of the components that have been made, and it
has published what it was to. -/
structure ThreadInv (app : Application B) (t : ActivityThread B) : Prop where
  activities : ∀ r ∈ t.mActivities, r.mActivityInfo.isSome ∧ r.mActivity.isSome
  services : t.mServices.map (fun r => (r.mToken, r.mService)) =
    (eachPrefix (created app) [] t.events).map fun p => (p.1, some p.2)
  publications : published t.events = eachPrefix (answer app) [] t.events

theorem ThreadInv.init : ThreadInv app ActivityThread.init := by
  refine ⟨?_, rfl, rfl⟩
  intro _ h
  cases h

/-- A call has been carried out: it is logged, then what it makes the thread do. -/
theorem ThreadInv.carryOut {t t' : ActivityThread B} (h : ThreadInv app t)
    {call : ApplicationThreadCall B} (es : List (Event B))
    (hevents : t'.events = t.events ++ .handled call :: es) (hes : ∀ e ∈ es, e.call = none)
    (hactivities : ∀ r ∈ t'.mActivities, r ∈ t.mActivities ∨
      r.mActivityInfo.isSome ∧ r.mActivity.isSome)
    (hservices : t'.mServices.map (fun r => (r.mToken, r.mService)) =
      t.mServices.map (fun r => (r.mToken, r.mService)) ++
        (created app t.events (.handled call)).map fun p => (p.1, some p.2))
    (hpublished : es.filterMap Event.publication = answer app t.events (.handled call)) :
    ThreadInv app t' ∧ handledCalls t'.events = handledCalls t.events ++ [call] := by
  have hquiet : ∀ {β : Type} {f : List (Event B) → Event B → List β} (log : List (Event B)),
      (∀ log e, e.call = none → f log e = []) →
        eachPrefix f log (.handled call :: es) = f log (.handled call) := by
    intro β f log hf
    rw [eachPrefix, eachPrefix_nil (fun log' e he => hf log' e (hes e he)), List.append_nil]
  refine ⟨⟨?_, ?_, ?_⟩, ?_⟩
  · intro r hr
    rcases hactivities r hr with hr | hr
    · exact h.activities r hr
    · exact hr
  · rw [hservices, h.services, hevents, eachPrefix_append, List.nil_append,
      hquiet _ fun log e he => created_of_no_call he log, List.map_append]
  · have hlog : published t'.events =
        published t.events ++ es.filterMap Event.publication := by
      rw [hevents, published, List.filterMap_append]
      rfl
    rw [hlog, h.publications, hevents, eachPrefix_append, List.nil_append,
      hquiet _ fun log e he => answer_of_no_call he log, hpublished]
  · have hnone : es.filterMap Event.call = [] := List.filterMap_eq_nil_iff.mpr hes
    rw [hevents, handledCalls, List.filterMap_append, List.filterMap_cons, hnone]
    rfl

/-- The thread carries out `call`, unless it hangs in it. -/
def CarriesOut (app : Application B) (call : ApplicationThreadCall B)
    (x : EStateM Fault (ActivityThread B) PUnit) : Prop :=
  ∀ t, ThreadInv app t →
    wp x (fun _ t' => ThreadInv app t' ∧ handledCalls t'.events = handledCalls t.events ++ [call])
      (Hangs app [call]) t

/-- A call that leaves the records as they are and publishes nothing. -/
theorem ThreadInv.carryOut_same {t t' : ActivityThread B} (h : ThreadInv app t)
    {call : ApplicationThreadCall B} (es : List (Event B))
    (hevents : t'.events = t.events ++ .handled call :: es)
    (hes : ∀ e ∈ es, e.call = none ∧ e.publication = none)
    (hactivities : t'.mActivities = t.mActivities) (hservices : t'.mServices = t.mServices)
    (hcreated : created app t.events (.handled call) = [])
    (hanswer : answer app t.events (.handled call) = []) :
    ThreadInv app t' ∧ handledCalls t'.events = handledCalls t.events ++ [call] := by
  apply h.carryOut es hevents fun e he => (hes e he).1
  · rw [hactivities]
    exact fun r hr => Or.inl hr
  · rw [hcreated, hservices]
    exact (List.append_nil _).symm
  · rw [hanswer]
    exact List.filterMap_eq_nil_iff.mpr fun e he => (hes e he).2

theorem scheduleLaunchActivity_carriesOut {r : ActivityClientRecord B}
    (hr : r.mActivityInfo.isSome) :
    CarriesOut app (.scheduleLaunchActivity r.mActivityInfo r.mToken r.mIntent)
      (scheduleLaunchActivity app r) := by
  intro t h
  obtain ⟨ai, hai⟩ := Option.isSome_iff_exists.mp hr
  simp only [scheduleLaunchActivity, log, wp_bind, wp_modify, hai, deref, wp_pure]
  cases hl : loadActivity app.handleFile ai.mFilename ai.mName with
  | never =>
    exact hangs_of_handled (t := t) rfl (loadActivity_never hl)
  | nothing => exact h.carryOut_same [] rfl (by simp) rfl rfl rfl rfl
  | entry am =>
    simp only [await, wp_pure, wp_bind, wp_get]
    cases hc : am.createActivity r.mIntent _ with
    | none => exact h.carryOut_same [] rfl (by simp) rfl rfl rfl rfl
    | some activity =>
      apply h.carryOut [.attachActivity activity r.mToken (some ai),
        .activityOnCreate activity, .activityOnStart activity, .activityOnResume activity]
        (by simp)
      · simp [Event.call]
      · intro r' hr'
        rcases List.mem_append.mp hr' with hr' | hr'
        · exact Or.inl hr'
        · rw [List.mem_singleton.mp hr']
          exact Or.inr ⟨rfl, rfl⟩
      · exact (List.append_nil _).symm
      · rfl

theorem schedulePauseActivity_carriesOut (token : Option B) :
    CarriesOut app (.schedulePauseActivity token) (schedulePauseActivity token) := by
  intro t h
  simp only [schedulePauseActivity, log, wp_bind, wp_modify, wp_get]
  cases hr : activityRecord _ token with
  | none => exact h.carryOut_same [] rfl (by simp) rfl rfl rfl rfl
  | some r =>
    have hmem : r ∈ t.mActivities := by
      unfold activityRecord at hr
      split at hr
      · cases hr
      · exact List.mem_reverse.mp (List.mem_of_find?_eq_some hr)
    obtain ⟨hai, hactivity⟩ := h.activities r hmem
    obtain ⟨ai, hai⟩ := Option.isSome_iff_exists.mp hai
    obtain ⟨activity, hactivity⟩ := Option.isSome_iff_exists.mp hactivity
    simp only [hai, hactivity, deref, wp_bind, wp_pure, wp_modify]
    exact h.carryOut_same [.activityOnPause activity] (by simp)
      (by simp [Event.call, Event.publication]) rfl rfl rfl rfl

theorem scheduleCreateService_carriesOut {r : ServiceClientRecord B}
    (hr : r.mServiceInfo.isSome) :
    CarriesOut app (.scheduleCreateService r.mServiceInfo r.mToken r.mIntent)
      (scheduleCreateService app r) := by
  intro t h
  obtain ⟨si, hsi⟩ := Option.isSome_iff_exists.mp hr
  simp only [scheduleCreateService, log, wp_bind, wp_modify, hsi, deref, wp_pure]
  cases hl : loadService app.handleFile si.mFilename si.mName with
  | never =>
    exact hangs_of_handled (t := t) rfl (loadService_never hl)
  | nothing =>
    exact h.carryOut_same [] rfl (by simp) rfl rfl (by simp [created, hl]) rfl
  | entry sMF =>
    simp only [await, wp_pure, wp_bind, wp_get]
    cases hc : sMF.createService r.mIntent _ with
    | none =>
      exact h.carryOut_same [] rfl (by simp) rfl rfl (by simp [created, hl, hc]) rfl
    | some service =>
      apply h.carryOut [.attachService service r.mToken (some si),
        .serviceOnCreate service, .serviceOnStart service,
        .serviceOnStartCommand service r.mIntent] (by simp)
      · simp [Event.call]
      · exact fun r hr => Or.inl hr
      · simp [created, hl, hc]
      · rfl

theorem getServiceRecordByToken_events (t : ActivityThread B) (es : List (Event B))
    (token : Option B) :
    getServiceRecordByToken { t with events := es } token = getServiceRecordByToken t token := rfl

theorem scheduleBindService_carriesOut (d : BindServiceData B) :
    CarriesOut app (.scheduleBindService d.mToken d.mIntent d.mRebind)
      (scheduleBindService app d) := by
  intro t h
  have hrecord : (getServiceRecordByToken t d.mToken).map (fun r => r.mService) =
      (serviceOf app t.events d.mToken).map some := by
    have hfind := congrArg (fun l => (l.find? fun p => p.1 = d.mToken).map Prod.snd) h.services
    simp only [List.find?_map, Option.map_map] at hfind
    rw [serviceOf, Option.map_map]
    exact hfind
  simp only [scheduleBindService, log, wp_bind, wp_modify, wp_get]
  rw [getServiceRecordByToken_events]
  cases hr : getServiceRecordByToken t d.mToken with
  | none =>
    have hnone : serviceOf app t.events d.mToken = none := by
      simpa [hr] using hrecord.symm
    exact h.carryOut_same [] rfl (by simp) rfl rfl rfl (by simp [answer, hnone])
  | some r =>
    obtain ⟨service, hservice, hr'⟩ : ∃ service,
        serviceOf app t.events d.mToken = some service ∧ r.mService = some service := by
      rw [hr] at hrecord
      cases hs : serviceOf app t.events d.mToken with
      | none =>
        rw [hs] at hrecord
        cases hrecord
      | some service =>
        rw [hs] at hrecord
        exact ⟨service, rfl, Option.some.inj hrecord⟩
    simp only [hr', deref, wp_bind, wp_pure, wp_get, wp_modify]
    apply h.carryOut [.serviceOnBind service d.mIntent, .publishService d.mToken d.mIntent
      (app.onBind service d.mIntent (t.events ++
        [.handled (.scheduleBindService d.mToken d.mIntent d.mRebind)]))] (by simp)
    · simp [Event.call]
    · exact fun r hr => Or.inl hr
    · exact (List.append_nil _).symm
    · simp only [answer, hservice]
      rfl

theorem scheduleReceiver_carriesOut (d : ScheduleReceiverData) :
    CarriesOut app (.scheduleReceiver d.mIntent d.mBundle d.mOrdered d.mSticky)
      (scheduleReceiver d) := by
  intro t h
  exact h.carryOut_same [] rfl (by simp) rfl rfl rfl rfl

theorem bindApplication_carriesOut (appName : String8) :
    CarriesOut app (.bindApplication appName) (do
      log (.handled (.bindApplication appName))
      modify fun t => { t with mAppName := appName }) := by
  intro t h
  exact h.carryOut_same [] rfl (by simp) rfl rfl rfl rfl

end ActivityThread

/-! ## Calls and messages -/

/-- The call that a message was made for. -/
def Message.call (m : Message B) : Option (ApplicationThreadCall B) :=
  match m.runnable with
  | some _ => none
  | none => m.obj.map fun
    | .activityClientRecord r => .scheduleLaunchActivity r.mActivityInfo r.mToken r.mIntent
    | .iBinderMessageObject mBinder => .schedulePauseActivity mBinder
    | .serviceClientRecord r => .scheduleCreateService r.mServiceInfo r.mToken r.mIntent
    | .bindServiceData d => .scheduleBindService d.mToken d.mIntent d.mRebind
    | .scheduleReceiverData d => .scheduleReceiver d.mIntent d.mBundle d.mOrdered d.mSticky

namespace ClientProcess
open ActivityThread

/-- A call that is not posted is carried out at once; the others send a message. -/
theorem schedule_cases (call : ApplicationThreadCall B) (now : Int) :
    (posted call = false ∧ ∃ appName, call = .bindApplication appName) ∨
    (posted call ∧ ∃ m : Message B, schedule now call = sendMessage m now ∧
      m.call = some call ∧ (Received call → ∀ [DecidableEq B] (app : Application B),
        CarriesOut app call (H.dispatchMessage app m))) := by
  cases call with
  | bindApplication appName => exact Or.inl ⟨rfl, appName, rfl⟩
  | schedulePauseActivity token =>
    refine Or.inr ⟨rfl, _, rfl, rfl, ?_⟩
    exact fun _ _ app => schedulePauseActivity_carriesOut token
  | scheduleLaunchActivity ai token intent =>
    refine Or.inr ⟨rfl, _, rfl, rfl, ?_⟩
    exact fun hr _ app => scheduleLaunchActivity_carriesOut (r := ⟨ai, token, intent, none⟩) hr
  | scheduleCreateService si token intent =>
    refine Or.inr ⟨rfl, _, rfl, rfl, ?_⟩
    exact fun hr _ app => scheduleCreateService_carriesOut (r := ⟨si, token, intent, none⟩) hr
  | scheduleBindService token intent rebind =>
    refine Or.inr ⟨rfl, _, rfl, rfl, ?_⟩
    exact fun _ _ app => scheduleBindService_carriesOut ⟨token, intent, rebind⟩
  | scheduleReceiver intent bundle ordered sticky =>
    refine Or.inr ⟨rfl, _, rfl, rfl, ?_⟩
    exact fun _ _ app => scheduleReceiver_carriesOut ⟨intent, bundle, ordered, sticky⟩

/-- The calls that the process has received. -/
def calls (as : List (Action B)) : List (ApplicationThreadCall B) :=
  as.filterMap fun
    | .call call _ => some call
    | _ => none

/-- What the clock showed at each of them. -/
def times (as : List (Action B)) : List Int :=
  as.filterMap fun
    | .call _ now => some now
    | _ => none

theorem calls_append (as bs : List (Action B)) : calls (as ++ bs) = calls as ++ calls bs :=
  List.filterMap_append

theorem times_append (as bs : List (Action B)) : times (as ++ bs) = times as ++ times bs :=
  List.filterMap_append

/-- When a step tests the queue. -/
def testsAt : Action B → Option Int
  | .handleMessage now _ => some now
  | .looper a => Looper.testsAt a
  | _ => none

theorem times_of_testsAt {a : Action B} {now : Int} (h : testsAt a = some now) :
    calls [a] = [] ∧ times [a] = [] := by
  cases a with
  | call call now => cases h
  | _ => exact ⟨rfl, rfl⟩

/-- The call that an envelope in the queue is for. -/
def callOf (messages : List (Message B)) (e : MessageEnvelope) :
    Option (ApplicationThreadCall B) :=
  if e.handler = mH then messages[e.message]?.bind Message.call else none

/-- The calls that are still to be carried out, the one that is being among them. -/
def pending (p : ClientProcess B) : List (ApplicationThreadCall B) :=
  p.looper.toHandle.filterMap (callOf p.messages)

/-! ## Invariant -/

variable {app : Application B} {p : ClientProcess B}

theorem callOf_of_foreign {messages : List (Message B)} {e : MessageEnvelope}
    (h : e.handler ≠ mH) : callOf messages e = none := if_neg h

/-- A new message changes nothing for the envelopes of older ones. -/
theorem callOf_append {messages : List (Message B)} {m : Message B} {e : MessageEnvelope}
    (h : e.handler = mH → e.message < messages.length) :
    callOf (messages ++ [m]) e = callOf messages e := by
  unfold callOf
  split
  · next hh => rw [List.getElem?_append_left (h hh)]
  · rfl

theorem callOf_new {messages : List (Message B)} {m : Message B} {now : Int} {what : BitVec 32} :
    callOf (messages ++ [m]) ⟨now, mH, messages.length, what⟩ = m.call := by
  simp [callOf]

theorem wp_onThread {x : EStateM Fault (ActivityThread B) PUnit}
    {Q : PUnit → ClientProcess B → Prop} {E : Fault → ClientProcess B → Prop} :
    wp (onThread x) Q E p = wp x (fun a t => Q a { p with thread := t })
      (fun e t => E e { p with thread := t }) p.thread := by
  simp only [onThread, wp]
  cases x p.thread <;> rfl

/-- The calls of a kind are carried out, or to be, in the order they came in. -/
structure Ordered (as : List (Action B)) (p : ClientProcess B) : Prop where
  uptimes : ∀ e ∈ p.looper.toHandle, callOf p.messages e ≠ none → e.uptime ∈ times as
  order : ∀ kind : Bool, (handledCalls p.thread.events ++ pending p).filter
    (fun c => posted c = kind) = (calls as).filter fun c => posted c = kind

/-- A step that is no call. -/
theorem Ordered.of_same {as : List (Action B)} {a : Action B} {p' : ClientProcess B}
    (h : Ordered as p) (hcalls : calls [a] = []) (htimes : times [a] = [])
    (hkept : handledCalls p'.thread.events ++ pending p' =
      handledCalls p.thread.events ++ pending p)
    (hold : ∀ e ∈ p'.looper.toHandle, callOf p'.messages e ≠ none →
      e ∈ p.looper.toHandle ∧ callOf p.messages e ≠ none) : Ordered (as ++ [a]) p' := by
  constructor
  · intro e he hcall
    obtain ⟨he, hcall⟩ := hold e he hcall
    rw [times_append, htimes, List.append_nil]
    exact h.uptimes e he hcall
  · intro kind
    rw [hkept, calls_append, hcalls, List.append_nil]
    exact h.order kind

/-- A step that takes a call. -/
theorem Ordered.of_call {as : List (Action B)} {call : ApplicationThreadCall B} {now : Int}
    {p' : ClientProcess B} (h : Ordered as p)
    (hkept : ∀ kind : Bool, (handledCalls p'.thread.events ++ pending p').filter
        (fun c => posted c = kind) =
      (handledCalls p.thread.events ++ pending p ++ [call]).filter fun c => posted c = kind)
    (hold : ∀ e ∈ p'.looper.toHandle, callOf p'.messages e ≠ none →
      (e ∈ p.looper.toHandle ∧ callOf p.messages e ≠ none) ∨ e.uptime = now) :
    Ordered (as ++ [.call call now]) p' := by
  constructor
  · intro e he hcall
    rw [times_append]
    rcases hold e he hcall with ⟨he, hcall⟩ | hnow
    · exact List.mem_append_left _ (h.uptimes e he hcall)
    · exact List.mem_append_right _ (List.mem_singleton.mpr hnow)
  · intro kind
    rw [hkept kind, calls_append, List.filter_append, h.order kind, List.filter_append]
    rfl

variable [DecidableEq B]

/-- A runnable, or a message that makes the thread carry out the call it was made for. -/
def Valid (app : Application B) (m : Message B) : Prop :=
  m.runnable.isSome ∨ ∃ call, m.call = some call ∧ posted call ∧
    CarriesOut app call (H.dispatchMessage app m)

/-- What keeps the process going, whatever it has received. -/
structure Sound (app : Application B) (p : ClientProcess B) : Prop where
  queue : p.looper.QueueInv
  thread : ThreadInv app p.thread
  messages : ∀ m ∈ p.messages, Valid app m
  known : ∀ e ∈ p.looper.toHandle, e.handler = mH → e.message < p.messages.length

/-- A message comes behind all calls that are to be carried out, if it is not due before
them or is not for a call. -/
theorem sendMessage_spec {m : Message B} {now : Int} (h : Sound app p) (hm : Valid app m)
    (hlate : m.call ≠ none → ∀ e ∈ p.looper.toHandle, callOf p.messages e ≠ none →
      e.uptime ≤ now) :
    wp (sendMessage m now)
      (fun _ p' => Sound app p' ∧ p'.thread = p.thread ∧
        pending p' = pending p ++ m.call.toList ∧
        ∀ e ∈ p'.looper.toHandle, callOf p'.messages e ≠ none →
          (e ∈ p.looper.toHandle ∧ callOf p.messages e ≠ none) ∨ (e.uptime = now ∧ m.call ≠ none))
      (fun _ _ => False) p := by
  rw [sendMessage, wp_modify]
  have hold : ∀ e ∈ p.looper.toHandle, callOf (p.messages ++ [m]) e = callOf p.messages e :=
    fun e he => callOf_append (h.known e he)
  have hn : p.looper.next (.sendMessageAtTime ⟨now, mH, p.messages.length, m.what⟩) =
    some (p.looper.sendMessageAtTime ⟨now, mH, p.messages.length, m.what⟩) := rfl
  refine ⟨⟨(Looper.next_spec h.queue hn).1, h.thread, ?_, ?_⟩, rfl, ?_, ?_⟩
  · intro m' hm'
    rcases List.mem_append.mp hm' with hm' | hm'
    · exact h.messages m' hm'
    · rw [List.mem_singleton.mp hm']
      exact hm
  · intro e he hh
    rw [List.length_append, List.length_singleton]
    rcases Looper.next_mem h.queue hn he with he | he
    · have := h.known e he hh
      omega
    · rw [List.mem_singleton.mp he]
      exact Nat.lt_succ_self _
  · have horder := Looper.next_filterMap (f := callOf (p.messages ++ [m])) h.queue hn
      (fun e he => by cases he) ?_
    · have hpending : p.looper.toHandle.filterMap (callOf (p.messages ++ [m])) = pending p :=
        List.filterMap_congr hold
      rw [pending, horder]
      change p.looper.toHandle.filterMap _ ++ _ = _
      rw [hpending, Looper.sent]
      cases hcall : m.call <;> simp [callOf_new, hcall]
    · intro e he hcall q hq hq'
      rw [List.mem_singleton.mp he] at hcall ⊢
      rw [callOf_new] at hcall
      have hq := List.mem_append_right p.looper.current.toList hq
      rw [hold q hq] at hq'
      exact hlate hcall q hq hq'
  · intro e he hcall
    rcases Looper.next_mem h.queue hn he with he | he
    · rw [hold e he] at hcall
      exact Or.inl ⟨he, hcall⟩
    · rw [List.mem_singleton.mp he] at hcall ⊢
      rw [callOf_new] at hcall
      exact Or.inr ⟨rfl, hcall⟩

theorem carried_of_foreign {l : Looper} {a : Looper.Action} (h : foreign a) :
    l.carried a ++ l.mMessageEnvelopes = l.toHandle := by
  cases a with
  | handleMessage now errno => cases h
  | _ => rfl

theorem handler_of_removes {a : Looper.Action} (h : foreign a) {e : MessageEnvelope}
    (he : Looper.removes a e) : e.handler ≠ mH := by
  cases a with
  | removeMessages handler =>
    simp only [foreign, Looper.removes, decide_eq_true_eq] at h he
    exact he ▸ h
  | removeMessagesWhat handler what =>
    simp only [foreign, Looper.removes, decide_eq_true_eq] at h he
    exact he.1 ▸ h
  | _ => cases he

theorem handler_of_sent {a : Looper.Action} (h : foreign a) {e : MessageEnvelope}
    (he : e ∈ Looper.sent a) : e.handler ≠ mH := by
  cases a with
  | sendMessageAtTime e' =>
    simp only [foreign, decide_eq_true_eq] at h
    rwa [List.mem_singleton.mp he]
  | _ => cases he

/-- What others do with the looper leaves the calls as they are. -/
theorem advance_spec {a : Looper.Action} (h : Sound app p) (ha : foreign a) :
    wp (advance a)
      (fun _ p' => Sound app p' ∧ p'.thread = p.thread ∧ pending p' = pending p ∧
        ∀ e ∈ p'.looper.toHandle, callOf p'.messages e ≠ none →
          e ∈ p.looper.toHandle ∧ callOf p.messages e ≠ none)
      (fun e _ => e = .stuck) p := by
  simp only [advance, wp_bind, wp_get]
  cases hn : p.looper.next a with
  | none => rfl
  | some looper =>
    refine ⟨⟨(Looper.next_spec h.queue hn).1, h.thread, h.messages, ?_⟩, rfl, ?_, ?_⟩
    · intro e he hh
      rcases Looper.next_mem h.queue hn he with he | he
      · exact h.known e he hh
      · exact absurd hh (handler_of_sent ha he)
    · have horder := Looper.next_filterMap (f := callOf p.messages) h.queue hn
        (fun e he => callOf_of_foreign (handler_of_removes ha he))
        (fun e he hcall => absurd (callOf_of_foreign (handler_of_sent ha he)) hcall)
      have hsent : (Looper.sent a).filterMap (callOf p.messages) = [] :=
        List.filterMap_eq_nil_iff.mpr fun e he => callOf_of_foreign (handler_of_sent ha he)
      rw [carried_of_foreign ha, hsent, List.append_nil] at horder
      exact horder
    · intro e he hcall
      rcases Looper.next_mem h.queue hn he with he | he
      · exact ⟨he, hcall⟩
      · exact absurd (callOf_of_foreign (handler_of_sent ha he)) hcall

theorem dispatchMessage_spec {m : Message B} (hm : Valid app m) {t : ActivityThread B}
    (ht : ThreadInv app t) :
    wp (H.dispatchMessage app m)
      (fun _ t' => ThreadInv app t' ∧
        handledCalls t'.events = handledCalls t.events ++ m.call.toList)
      (Hangs app m.call.toList) t := by
  rcases hm with hm | ⟨call, hcall, -, hm⟩
  · obtain ⟨runnable, hrunnable⟩ := Option.isSome_iff_exists.mp hm
    simp only [H.dispatchMessage, Message.call, hrunnable, log, wp_modify]
    refine ⟨⟨ht.activities, ?_, ?_⟩, ?_⟩
    · rw [eachPrefix_append]
      simp [eachPrefix, created, ht.services]
    · rw [eachPrefix_append, published, List.filterMap_append]
      simp only [eachPrefix, answer, List.append_nil]
      exact (List.append_nil _).trans ht.publications
    · rw [handledCalls, List.filterMap_append]
      rfl
  · rw [hcall]
    exact hm t ht

/-- The call that the current message is for, if it is for one, is carried out. -/
theorem handleCurrent_spec (h : Sound app p) :
    wp (handleCurrent app)
      (fun _ p' => p'.looper = p.looper ∧ p'.messages = p.messages ∧ ThreadInv app p'.thread ∧
        ∃ e, p.looper.current = some e ∧
          handledCalls p'.thread.events =
            handledCalls p.thread.events ++ (callOf p.messages e).toList)
      (fun e p' => Hangs app (pending p) e p'.thread ∨ e = .stuck) p := by
  simp only [handleCurrent, wp_bind, wp_get]
  cases hc : p.looper.current with
  | none => exact Or.inr rfl
  | some e =>
    have he : e ∈ p.looper.toHandle := by simp [Looper.toHandle, hc]
    apply wp_when
    · intro hh
      obtain ⟨m, hm⟩ : ∃ m, p.messages[e.message]? = some m :=
        ⟨_, List.getElem?_eq_getElem (h.known e he hh)⟩
      have hcall : callOf p.messages e = m.call := by simp [callOf, hh, hm]
      simp only [wp_bind, wp_get, hm, deref, wp_pure]
      rw [wp_onThread]
      apply wp_mono (dispatchMessage_spec (h.messages m (List.mem_of_getElem? hm)) h.thread)
      · rintro _ t ⟨ht, hhandled⟩
        refine ⟨rfl, rfl, ht, e, rfl, ?_⟩
        rw [hcall]
        exact hhandled
      · intro fault t hhangs
        refine Or.inl (hhangs.mono ?_)
        intro c hc
        have hcall' : callOf p.messages e = some c := hcall.trans (Option.mem_toList.mp hc)
        exact List.mem_filterMap.mpr ⟨e, he, hcall'⟩
    · intro hh
      refine ⟨rfl, rfl, h.thread, e, rfl, ?_⟩
      rw [callOf_of_foreign hh]
      exact (List.append_nil _).symm

/-- The handler has returned: what was pending first has been carried out. -/
theorem handleMessage_spec {now : Int} {errno : Nat} (h : Sound app p) :
    wp (step app (.handleMessage now errno))
      (fun _ p' => Sound app p' ∧ p'.messages = p.messages ∧
        handledCalls p'.thread.events ++ pending p' = handledCalls p.thread.events ++ pending p ∧
        ∀ e ∈ p'.looper.toHandle, e ∈ p.looper.toHandle)
      (fun e p' => Hangs app (pending p) e p'.thread ∨ e = .stuck) p := by
  simp only [step, wp_bind]
  apply wp_mono (handleCurrent_spec h)
  · rintro _ p' ⟨hlooper, hmessages, hthread, e, he, hhandled⟩
    simp only [advance, wp_bind, wp_get, hlooper]
    cases hn : p.looper.next (.handleMessage now errno) with
    | none => exact Or.inr rfl
    | some looper =>
      obtain ⟨e', he', htoHandle⟩ := Looper.next_handleMessage h.queue hn
      rw [he] at he'
      cases he'
      have hsub : ∀ q ∈ looper.toHandle, q ∈ p.looper.toHandle := by
        intro q hq
        rw [htoHandle]
        exact List.mem_cons_of_mem _ hq
      refine ⟨⟨(Looper.next_spec h.queue hn).1, hthread, ?_, ?_⟩, hmessages, ?_, hsub⟩
      · exact fun m hm => h.messages m (hmessages ▸ hm)
      · exact fun q hq hh => hmessages ▸ h.known q (hsub q hq) hh
      · simp only [pending, hmessages, hhandled, htoHandle, List.append_assoc]
        congr 1
        cases hcall : callOf p.messages e <;> simp [hcall]
  · exact fun _ _ he => he

/-! ## Runs -/

/-- Only posted calls are ever pending. -/
theorem posted_of_pending (h : Sound app p) {c : ApplicationThreadCall B} (hc : c ∈ pending p) :
    posted c := by
  obtain ⟨e, he, hcall⟩ := List.mem_filterMap.mp hc
  unfold callOf at hcall
  split at hcall
  · obtain ⟨m, hm, hcall⟩ := Option.bind_eq_some_iff.mp hcall
    rcases h.messages m (List.mem_of_getElem? hm) with hrun | ⟨c', hc', hposted, -⟩
    · obtain ⟨r, hr⟩ := Option.isSome_iff_exists.mp hrun
      simp [Message.call, hr] at hcall
    · rw [hcall] at hc'
      cases hc'
      exact hposted
  · cases hcall

theorem schedule_spec {as : List (Action B)} {call : ApplicationThreadCall B} {now : Int}
    (h : Sound app p) (ho : Ordered as p) (hr : Received call) (hnow : ∀ t ∈ times as, t ≤ now) :
    wp (schedule now call) (fun _ p' => Sound app p' ∧ Ordered (as ++ [.call call now]) p')
      (fun _ _ => False) p := by
  rcases schedule_cases call now with ⟨hposted, appName, rfl⟩ | ⟨hposted, m, hm, hcall, hcarries⟩
  · rw [schedule, wp_onThread]
    apply wp_mono (bindApplication_carriesOut appName p.thread h.thread)
    · rintro _ t ⟨hthread, hhandled⟩
      refine ⟨⟨h.queue, hthread, h.messages, h.known⟩, ho.of_call ?_ fun e he hc => Or.inl ⟨he, hc⟩⟩
      intro kind
      have hpending : (pending { p with thread := t }) = pending p := rfl
      rw [hhandled, hpending]
      -- it overtakes what is pending, which is of the other kind
      cases kind with
      | true => simp [posted]
      | false =>
        have hnone : (pending p).filter (fun c => posted c = false) = [] := by
          apply List.filter_eq_nil_iff.mpr
          intro c hc
          simp [posted_of_pending h hc]
        simp only [List.filter_append, hnone, List.append_nil]
    · rintro _ _ ⟨-, c, hc, -, hload⟩
      rw [List.mem_singleton.mp hc] at hload
      exact hload trivial
  · rw [hm]
    have hvalid : Valid app m := Or.inr ⟨call, hcall, hposted, hcarries hr app⟩
    apply wp_mono (sendMessage_spec h hvalid
      fun _ e he hcall => hnow _ (ho.uptimes e he hcall))
    · rintro _ p' ⟨hsound, hthread, hpending, hold⟩
      refine ⟨hsound, ho.of_call ?_ ?_⟩
      · intro kind
        rw [hthread, hpending, hcall, List.append_assoc]
        rfl
      · intro e he hc
        exact (hold e he hc).imp_right And.left
    · exact fun _ _ hf => hf.elim

theorem step_spec {as : List (Action B)} {a : Action B} (h : Sound app p) (ho : Ordered as p)
    (hr : ∀ c ∈ calls [a], Received c) (hnow : ∀ t ∈ times as, ∀ t' ∈ times [a], t ≤ t') :
    wp (step app a) (fun _ p' => Sound app p' ∧ Ordered (as ++ [a]) p')
      (fun e p' => Hangs app (pending p) e p'.thread ∨ e = .stuck) p := by
  cases a with
  | call call now =>
    apply wp_mono (schedule_spec h ho (hr call (List.mem_singleton.mpr rfl))
      fun t ht => hnow t ht now (List.mem_singleton.mpr rfl))
    · exact fun _ _ hp => hp
    · exact fun _ _ hf => hf.elim
  | post runnable now =>
    apply wp_mono (sendMessage_spec h (Or.inl rfl) fun hcall => absurd rfl hcall)
    · rintro _ p' ⟨hsound, hthread, hpending, hold⟩
      refine ⟨hsound, ho.of_same rfl rfl ?_ ?_⟩
      · rw [hthread, hpending]
        exact congrArg _ (List.append_nil _)
      · intro e he hc
        rcases hold e he hc with hold | ⟨-, hcall⟩
        · exact hold
        · exact absurd rfl hcall
    · exact fun _ _ hf => hf.elim
  | handleMessage now errno =>
    apply wp_mono (handleMessage_spec h)
    · rintro _ p' ⟨hsound, hmessages, hkept, hold⟩
      refine ⟨hsound, ho.of_same rfl rfl hkept ?_⟩
      intro e he hc
      exact ⟨hold e he, hmessages ▸ hc⟩
    · exact fun _ _ he => he
  | looper a =>
    simp only [step]
    split
    · next ha =>
      apply wp_mono (advance_spec h ha)
      · rintro _ p' ⟨hsound, hthread, hpending, hold⟩
        refine ⟨hsound, ho.of_same rfl rfl ?_ hold⟩
        rw [hthread, hpending]
      · exact fun _ _ he => Or.inr he
    · exact Or.inr rfl

/-! ## Dispatch -/

/-- What holds after the steps `as`. -/
structure Dispatched (app : Application B) (as : List (Action B)) (p : ClientProcess B) :
    Prop where
  /-- the posted calls are carried out once each, in order -/
  order : (handledCalls p.thread.events).filter (fun c => posted c) ++ pending p =
    (calls as).filter fun c => posted c
  /-- the others are carried out when they come in -/
  atOnce : (handledCalls p.thread.events).filter (fun c => !posted c) =
    (calls as).filter fun c => !posted c
  /-- a bind publishes the binder of its service, if there is one, and nothing else is
  published -/
  publications : published p.thread.events = eachPrefix (answer app) [] p.thread.events
  /-- a test of the queue that does not come before the calls leaves none pending when it
  leads on to the callbacks -/
  rounds : ∀ a now p', step app a p = .ok ⟨⟩ p' → testsAt a = some now →
    (∀ t ∈ times as, t ≤ now) → p'.looper.resting → pending p' = []
  /-- a looper that waits has been woken for what is pending, or wakes up in time -/
  awake : p.looper.resting → pending p ≠ [] →
    0 < p.looper.pipe ∨ 0 < p.looper.wakes ∨ ∃ t ∈ times as, p.looper.mNextMessageUptime ≤ t

/-- A step that tests the queue is one that the looper takes. -/
theorem step_advances {a : Action B} {now : Int} (h : Sound app p) (ha : testsAt a = some now) :
    wp (step app a)
      (fun _ p' => ∃ la, Looper.testsAt la = some now ∧ p.looper.next la = some p'.looper)
      (fun _ _ => True) p := by
  have hadvance : ∀ (q : ClientProcess B) la, q.looper = p.looper →
      Looper.testsAt la = some now →
      wp (advance la)
        (fun _ p' => ∃ la, Looper.testsAt la = some now ∧ p.looper.next la = some p'.looper)
        (fun _ _ => True) q := by
    intro q la hq hla
    simp only [advance, wp_bind, wp_get, hq]
    cases hn : p.looper.next la with
    | none => trivial
    | some looper => exact ⟨la, hla, hn⟩
  cases a with
  | call call now => cases ha
  | post runnable now => cases ha
  | handleMessage now errno =>
    rw [step, wp_bind]
    exact wp_mono_ok (handleCurrent_spec h) fun _ q hq => hadvance q _ hq.1 ha
  | looper a =>
    simp only [step]
    split
    · exact hadvance p a rfl ha
    · trivial

theorem dispatched_of_sound {as : List (Action B)} (h : Sound app p) (ho : Ordered as p) :
    Dispatched app as p := by
  refine ⟨?_, ?_, h.thread.publications, ?_, ?_⟩
  · have hpending : (pending p).filter (fun c => posted c) = pending p :=
      List.filter_eq_self.mpr fun c hc => posted_of_pending h hc
    have horder := ho.order true
    simp only [Bool.decide_eq_true, List.filter_append, hpending] at horder
    exact horder
  · have hpending : (pending p).filter (fun c => !posted c) = [] := by
      apply List.filter_eq_nil_iff.mpr
      intro c hc
      simp [posted_of_pending h hc]
    have horder := ho.order false
    simp only [Bool.decide_eq_false, List.filter_append, hpending, List.append_nil] at horder
    exact horder
  · intro a now p' hstep htests hnow hrest
    obtain ⟨hcalls, htimes⟩ := times_of_testsAt htests
    have hspec := step_spec (a := a) h ho (by simp [hcalls]) (by simp [htimes])
    obtain ⟨hsound, hordered⟩ := wp_ok hspec hstep
    obtain ⟨la, hla, hn⟩ := wp_ok (step_advances h htests) hstep
    apply List.filterMap_eq_nil_iff.mpr
    intro e he
    -- it would be due
    apply Decidable.byContradiction
    intro hcall
    have huptime := hordered.uptimes e he hcall
    rw [times_append, htimes, List.append_nil] at huptime
    have hlate := Looper.next_round h.queue hn hla hrest e he
    have hdue := hnow _ huptime
    omega
  · intro hrest hne
    obtain ⟨c, hc⟩ := List.exists_mem_of_ne_nil _ hne
    obtain ⟨e, he, hcall⟩ := List.mem_filterMap.mp hc
    have htime := ho.uptimes e he (by simp [hcall])
    rw [(Looper.toHandle_of_idle (Looper.resting_ne_handling hrest)).2] at he
    rcases h.queue.woken hrest e he with hpipe | hwakes | hnext
    · exact Or.inl hpipe
    · exact Or.inr (Or.inl hwakes)
    · exact Or.inr (Or.inr ⟨_, htime, hnext⟩)

/-- What is to be carried out has come in. -/
theorem Ordered.pending_subset {as : List (Action B)} (h : Sound app p) (ho : Ordered as p) :
    pending p ⊆ calls as := by
  intro c hc
  have horder := ho.order true
  have hmem : c ∈ (handledCalls p.thread.events ++ pending p).filter
      fun c => posted c = true := by
    rw [List.mem_filter]
    exact ⟨List.mem_append_right _ hc, decide_eq_true (posted_of_pending h hc)⟩
  rw [horder] at hmem
  exact (List.mem_filter.mp hmem).1

theorem run_spec (app : Application B) {as : List (Action B)}
    (hreceived : ∀ c ∈ calls as, Received c)
    (hclock : (times as).Pairwise (· ≤ ·)) :
    wp (run (step app) as) (fun _ p => Sound app p ∧ Ordered as p)
      (fun e p => Hangs app (calls as) e p.thread ∨ e = .stuck) init := by
  apply wp_run_history (I := fun as p => Sound app p ∧ Ordered as p)
  · rintro done a rest p has ⟨hsound, hordered⟩
    have hsplit : as = done ++ ([a] ++ rest) := has
    have hcalls : calls as = calls done ++ (calls [a] ++ calls rest) := by
      rw [hsplit, calls_append, calls_append]
    rw [hsplit, times_append, times_append, List.pairwise_append] at hclock
    rw [hcalls] at hreceived
    apply wp_mono (step_spec (a := a) hsound hordered ?_ ?_)
    · exact fun _ _ hp => hp
    · intro e p' he
      refine he.imp_left fun hhangs => hhangs.mono ?_
      rw [hcalls]
      exact List.Subset.trans (hordered.pending_subset hsound) (List.subset_append_left _ _)
    · intro c hc
      exact hreceived c (List.mem_append_right _ (List.mem_append_left _ hc))
    · intro t ht t' ht'
      exact hclock.2.2 t ht t' (List.mem_append_left _ ht')
  · refine ⟨⟨.init, .init, ?_, ?_⟩, ?_, fun _ => rfl⟩
    · intro m hm
      cases hm
    · intro e he
      cases he
    · intro e he
      cases he

/-- **Dispatch.** Whatever calls come in, and however they and others' messages mix with
the main loop, the process dispatches them. It faults on none, and hangs only in a call that
it carries out and whose component does not come first in its list. -/
theorem calls_dispatched (app : Application B) (as : List (Action B))
    (hreceived : ∀ c ∈ calls as, Received c) (hclock : (times as).Pairwise (· ≤ ·)) :
    (∀ p, run (step app) as init = .ok ⟨⟩ p → Dispatched app as p) ∧
      ∀ e p, run (step app) as init = .error e p →
        Hangs app (calls as) e p.thread ∨ e = .stuck := by
  have hspec := run_spec app hreceived hclock
  constructor
  · intro p hp
    obtain ⟨hsound, hordered⟩ := wp_ok hspec hp
    exact dispatched_of_sound hsound hordered
  · intro e p hp
    have he := wp_error hspec hp
    exact he

/-- A library with one service, which binds to `9`. -/
def serviceApp : Application Nat where
  handleFile filename :=
    if filename = ascii "lib/s.so" then
      some ⟨ascii "app", [], [⟨ascii "s", [], [], fun _ _ => some 7⟩], []⟩
    else none
  onBind _ _ _ := some 9

/-- A service is created and bound while the looper sleeps, and the name is set. -/
def boundServiceRun : List (Action Nat) :=
  [.looper (.epollWait 0),
    .call (.scheduleCreateService (some (.new (ascii "s") (ascii "lib/s.so"))) (some 3)
      (some (.ofAction (ascii "a")))) 1,
    .call (.scheduleBindService (some 3) (some (.ofAction (ascii "b"))) false) 2,
    .call (.bindApplication (ascii "app")) 2,
    .looper .wake, .looper (.epollReturn (.events true [])), .looper (.pollLocked 3 false),
    .handleMessage 4 0, .handleMessage 5 0, .looper .pollAgain]

theorem calls_dispatched_boundService :
    published (final (run (step serviceApp) boundServiceRun init)).thread.events =
        [(some 3, some (.ofAction (ascii "b")), some 9)] ∧
      Dispatched serviceApp boundServiceRun
        (final (run (step serviceApp) boundServiceRun init)) := by
  have hok := eq_ok_final (r := run (step serviceApp) boundServiceRun init) (by decide +kernel)
  refine ⟨by decide +kernel, ?_⟩
  exact (calls_dispatched serviceApp boundServiceRun (by decide +kernel)
    (by decide +kernel)).1 _ hok

/-- The name of the application overtakes a launch that came in before it. -/
theorem bindApplication_overtakes :
    ¬ ∀ (app : Application Nat) (as : List (Action Nat)) (p : ClientProcess Nat),
      (∀ c ∈ calls as, Received c) → (times as).Pairwise (· ≤ ·) →
      run (step app) as init = .ok ⟨⟩ p →
      handledCalls p.thread.events ++ pending p = calls as := by
  intro h
  have := h serviceApp [.call (.scheduleLaunchActivity (some (.new (ascii "a") (ascii "lib/a.so")))
    (some 3) none) 0, .call (.bindApplication (ascii "app")) 1] _ (by decide +kernel)
    (by decide +kernel) (eq_ok_final (by decide +kernel))
  revert this
  decide +kernel

end ClientProcess

end Cdroid.Runtime
