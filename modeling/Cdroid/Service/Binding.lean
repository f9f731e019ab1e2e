import Cdroid.Service.Effects
import Mathlib.Data.List.Induction
import Mathlib.Data.List.Nodup

/-! Service bindings, over the runs of `bindService`, `attachApplication` and
`publishService`. A service has one `ServiceRecord` and one binding, for the action
that its manifest gives it. The binding is requested once; a connection hears of
the published binder when it is published, or, if that has been before, when the
connection is made. -/

namespace Cdroid.Service
open Cdroid.Lib.Comp Cdroid.Lib.Containers Cdroid.Runtime

/-! ## What a run asks for, publishes and reports -/

/-- Is the event a `scheduleBindService` for this token and action? -/
def asks (token : Option IBinder) (action : String8) : Event → Bool
  | .thread _ (.scheduleBindService t (some i) _) => t = token && i.mAction = action
  | _ => false

/-- How often the log asks for a binding. -/
def asked (log : List Event) (token : Option IBinder) (action : String8) : Nat :=
  log.countP (asks token action)

/-- The binder that an action publishes for this token and action. -/
def publishes (token : Option IBinder) (action : String8) : Action → Option (Option IBinder)
  | .request _ (.publishService t (some i) service) =>
    if t = token ∧ i.mAction = action then some service else none
  | _ => none

def published (as : List Action) (token : Option IBinder) (action : String8) :
    List (Option IBinder) := as.filterMap (publishes token action)

/-- Is the event a `connected` call on this connection? -/
def reports (c : ConnectionRef) : Event → Bool
  | .connected d _ => d = c
  | _ => false

/-- The service has been asked for one more binder than it has published. -/
def MayPublish (as : List Action) (s : State) : Action → Prop
  | .request _ (.publishService token (some i) _) =>
    (published as token i.mAction).length < asked s.log token i.mAction
  | _ => True

instance (as : List Action) (s : State) (a : Action) : Decidable (MayPublish as s a) := by
  unfold MayPublish
  split <;> infer_instance

/-- A service publishes one binder for each `scheduleBindService` that it has received. -/
def PublishesWhenAsked (w : World) (as : List Action) : Prop :=
  ∀ n (h : n < as.length),
    MayPublish (as.take n) (final (run (step w) (as.take n) (init w))) as[n]

/-- A bind, an attach or a publish. -/
def Action.isBinding : Action → Bool
  | .request _ (.bindService ..) => true
  | .request _ (.attachApplication ..) => true
  | .request _ (.publishService ..) => true
  | _ => false

theorem asked_append (l l' : List Event) (token : Option IBinder) (action : String8) :
    asked (l ++ l') token action = asked l token action + asked l' token action :=
  List.countP_append

theorem asks_of_part {e : Event} (he : e.part ≠ .service) (token : Option IBinder)
    (action : String8) : asks token action e = false := by
  unfold asks
  split
  · exact absurd rfl he
  · rfl

theorem reports_of_part {e : Event} (he : e.part ≠ .service) (c : ConnectionRef) :
    reports c e = false := by
  unfold reports
  split
  · exact absurd rfl he
  · rfl

/-! ## The invariant -/

def State.action (s : State) (r : ServiceRef) : String8 := (s.services.get r).mServiceInfo.mAction

def State.connectionsOf (s : State) (r : ServiceRef) : List ConnectionRef :=
  (s.services.get r).mConnections.flatMap fun e => e.2

/-- What has been published for the service's binding. -/
def State.publishedBinder (s : State) (r : ServiceRef) : List (Option IBinder) :=
  match (s.services.get r).mBindings.find (s.action r) with
  | some i => if i.received then [i.binder] else []
  | none => []

/-- The `connected` call that reports a binder to a connection. -/
def State.report (s : State) (c : ConnectionRef) (binder : Option IBinder) : Event :=
  .connected c (.connected
    (some ⟨(s.services.get (s.connections.get c).mService).mServiceInfo.mName⟩) binder)

/-- A service record with its binding `i`. -/
structure ServiceInv (as : List Action) (s : State) (r : ServiceRef) (i : IntentBindRecord) :
    Prop where
  bindings : (s.services.get r).mBindings = [(s.action r, i)]
  intent : i.mIntent.mAction = s.action r
  app : i.requested = true → (s.services.get r).mApp ≠ none
  received : i.received = true → i.requested = true
  asked : asked s.log (some (.service r)) (s.action r) = i.requested.toNat
  published : published as (some (.service r)) (s.action r) = if i.received then [i.binder] else []
  other : ∀ action, action ≠ s.action r →
    Service.asked s.log (some (.service r)) action = 0 ∧
      Service.published as (some (.service r)) action = []

/-- The invariant after the actions `as`. Within a bind, `new` is a record that is not
yet in `mServices`, and `late` a connection that has not heard yet. -/
structure BindInv (as : List Action) (new : Option ServiceRef) (late : Option ConnectionRef)
    (s : State) : Prop where
  live : ∀ r ∈ s.mServices, s.services.Live r
  listed : ∀ r, s.services.Live r → r ∈ s.mServices ∨ new = some r ∧ (s.services.get r).mApp = none
  distinct : ∀ r q, s.services.Live r → s.services.Live q → s.action r = s.action q → r = q
  service : ∀ r, s.services.Live r → ∃ i, ServiceInv as s r i
  stranger : ∀ token action, (∀ r, s.services.Live r → token ≠ some (.service r)) →
    asked s.log token action = 0 ∧ published as token action = []
  connection : ∀ c, s.connections.Live c → s.services.Live (s.connections.get c).mService ∧
    (s.connections.get c).mAction = s.action (s.connections.get c).mService ∧
    c ∈ s.connectionsOf (s.connections.get c).mService
  connections : ∀ r, s.services.Live r → (s.connectionsOf r).Nodup ∧
    ∀ c ∈ s.connectionsOf r, s.connections.Live c ∧ (s.connections.get c).mService = r
  told : ∀ c, s.connections.Live c → s.log.filter (reports c) =
    if late = some c then [] else
      (s.publishedBinder (s.connections.get c).mService).map (s.report c)
  untold : ∀ c, ¬ s.connections.Live c → s.log.filter (reports c) = []

theorem ServiceInv.publishedBinder {as : List Action} {s : State} {r : ServiceRef}
    {i : IntentBindRecord} (h : ServiceInv as s r i) :
    s.publishedBinder r = if i.received then [i.binder] else [] := by
  simp [State.publishedBinder, h.bindings, OrdMap.find]

theorem BindInv.init (w : World) : BindInv [] none none (init w) where
  live := by simp [Service.init]
  listed r hr := absurd hr (Store.not_live_empty _ r)
  distinct r q hr := absurd hr (Store.not_live_empty _ r)
  service r hr := absurd hr (Store.not_live_empty _ r)
  stranger _ _ _ := ⟨rfl, rfl⟩
  connection c hc := absurd hc (Store.not_live_empty _ c)
  connections r hr := absurd hr (Store.not_live_empty _ r)
  told c hc := absurd hc (Store.not_live_empty _ c)
  untold _ _ := rfl

/-- The invariant looks at the services, the connections and those events of the log
that ask for a binding or report one. -/
theorem BindInv.same {as : List Action} {new : Option ServiceRef} {late : Option ConnectionRef}
    {s t : State} (h : BindInv as new late s) (hs : t.services = s.services)
    (hm : t.mServices = s.mServices) (hc : t.connections = s.connections)
    (ha : ∀ token action, asked t.log token action = asked s.log token action)
    (hf : ∀ c, t.log.filter (reports c) = s.log.filter (reports c)) : BindInv as new late t := by
  obtain ⟨processes, activities, services, connections⟩ := t
  obtain ⟨processes', activities', services', connections'⟩ := s
  dsimp only at hs hm hc
  subst hs hm hc
  refine ⟨h.live, h.listed, h.distinct, fun r hr => ?_, fun token action hr => ?_, h.connection,
    h.connections, fun c hc => ?_, fun c hc => ?_⟩
  · obtain ⟨i, hi⟩ := h.service r hr
    exact ⟨i, hi.bindings, hi.intent, hi.app, hi.received, (ha _ _).trans hi.asked, hi.published,
      fun a hne => ⟨(ha _ _).trans (hi.other a hne).1, (hi.other a hne).2⟩⟩
  · exact ⟨(ha _ _).trans (h.stranger token action hr).1, (h.stranger token action hr).2⟩
  · exact (hf c).trans (h.told c hc)
  · exact (hf c).trans (h.untold c hc)

theorem BindInv.emit {as : List Action} {new : Option ServiceRef} {late : Option ConnectionRef}
    {s : State} {e : Event} (h : BindInv as new late s)
    (ha : ∀ token action, asks token action e = false) (hf : ∀ c, reports c e = false) :
    BindInv as new late { s with log := s.log ++ [e] } :=
  h.same rfl rfl rfl (fun token action => by simp [asked, ha]) fun c => by simp [hf]

/-! ## The parts that leave bindings alone -/

section
variable (as : List Action) (new : Option ServiceRef) (late : Option ConnectionRef)

abbrev bindFrame : Frame State := .invariant (BindInv as new late)

theorem bindFrame_emit {e : Event} (he : e.part ≠ .service) (s : State) :
    (bindFrame as new late).rel s { s with log := s.log ++ [e] } :=
  fun h => h.emit (asks_of_part he) (reports_of_part he)

theorem allowsNull_bind : AllowsNull (bindFrame as new late) :=
  fun _ _ _ h => h.emit (fun _ _ => rfl) fun _ => rfl

theorem allowsProxies_bind : AllowsProxies (bindFrame as new late) :=
  fun _ _ h => h.same rfl rfl rfl (fun _ _ => rfl) fun _ => rfl

theorem allowsSignals_bind : AllowsSignals (bindFrame as new late) :=
  fun _ _ _ _ _ h => h.same rfl rfl rfl (fun _ _ => rfl) fun _ => rfl

theorem allowsProcesses_bind : AllowsProcesses (bindFrame as new late) where
  emit s e he _ := bindFrame_emit as new late (by rw [he]; decide) s
  own _ _ _ _ h := h.same rfl rfl rfl (fun _ _ => rfl) fun _ => rfl

theorem allowsActivities_bind : AllowsActivities (bindFrame as new late) where
  emit s e he _ := bindFrame_emit as new late (by rw [he]; decide) s
  record _ _ _ _ h := h.same rfl rfl rfl (fun _ _ => rfl) fun _ => rfl
  new _ _ _ h := h.same rfl rfl rfl (fun _ _ => rfl) fun _ => rfl
  history _ _ h := h.same rfl rfl rfl (fun _ _ => rfl) fun _ => rfl

end

/-! ## Changing one record -/

/-- The record `r` is changed by `f`, and the log grows by `l`. -/
def State.withService (s : State) (r : ServiceRef) (f : ServiceRecord → ServiceRecord)
    (l : List Event) : State := { s with services := s.services.update r f, log := s.log ++ l }

/-- Of a record, neither the manifest's data nor the connections change. -/
structure KeepsInfo (f : ServiceRecord → ServiceRecord) : Prop where
  info : ∀ sr, (f sr).mServiceInfo = sr.mServiceInfo
  connections : ∀ sr, (f sr).mConnections = sr.mConnections

section
variable {s : State} {r : ServiceRef} {f : ServiceRecord → ServiceRecord} {l : List Event}

theorem withService_self : (s.withService r f l).services.get r = f (s.services.get r) :=
  Store.get_update_self ..

theorem withService_ne {q : ServiceRef} (hq : q ≠ r) :
    (s.withService r f l).services.get q = s.services.get q := Store.get_update_ne s.services f hq

theorem withService_info (hf : KeepsInfo f) (q : ServiceRef) :
    ((s.withService r f l).services.get q).mServiceInfo = (s.services.get q).mServiceInfo := by
  by_cases hq : q = r
  · rw [hq, withService_self, hf.info]
  · rw [withService_ne hq]

theorem withService_action (hf : KeepsInfo f) (q : ServiceRef) :
    (s.withService r f l).action q = s.action q :=
  congrArg ServiceInfo.mAction (withService_info hf q)

theorem withService_connectionsOf (hf : KeepsInfo f) (q : ServiceRef) :
    (s.withService r f l).connectionsOf q = s.connectionsOf q := by
  unfold State.connectionsOf
  by_cases hq : q = r
  · rw [hq, withService_self, hf.connections]
  · rw [withService_ne hq]

theorem withService_report (hf : KeepsInfo f) (c : ConnectionRef) (binder : Option IBinder) :
    (s.withService r f l).report c binder = s.report c binder := by
  unfold State.report
  rw [show (s.withService r f l).connections = s.connections from rfl, withService_info hf]

theorem withService_publishedBinder (hf : KeepsInfo f) {q : ServiceRef} (hq : q ≠ r) :
    (s.withService r f l).publishedBinder q = s.publishedBinder q := by
  unfold State.publishedBinder
  rw [withService_ne hq, withService_action hf]

end

section
variable {as : List Action} {new : Option ServiceRef} {late : Option ConnectionRef} {s : State}
  {r : ServiceRef} {i : IntentBindRecord}

theorem ServiceInv.congr {as' : List Action} {t : State} {q : ServiceRef} (h : ServiceInv as s q i)
    (hinfo : (t.services.get q).mServiceInfo = (s.services.get q).mServiceInfo)
    (hbindings : (t.services.get q).mBindings = (s.services.get q).mBindings)
    (happ : (t.services.get q).mApp = (s.services.get q).mApp)
    (ha : ∀ action, Service.asked t.log (some (.service q)) action =
      Service.asked s.log (some (.service q)) action)
    (hp : ∀ action, Service.published as' (some (.service q)) action =
      Service.published as (some (.service q)) action) : ServiceInv as' t q i := by
  have haction : t.action q = s.action q := congrArg ServiceInfo.mAction hinfo
  refine ⟨?_, ?_, ?_, h.received, ?_, ?_, ?_⟩
  · rw [hbindings, haction]; exact h.bindings
  · rw [haction]; exact h.intent
  · rw [happ]; exact h.app
  · rw [haction, ha]; exact h.asked
  · rw [haction, hp]; exact h.published
  · intro a hne
    rw [haction] at hne
    rw [ha, hp]
    exact h.other a hne

/-- Nothing but the binding and the process of `r` differs, and what it has published
is what it had published. -/
theorem BindInv.modify (h : BindInv as new late s) (hr : s.services.Live r)
    {f : ServiceRecord → ServiceRecord} {l : List Event} (hf : KeepsInfo f)
    (happ : new = some r → (s.services.get r).mApp = none → (f (s.services.get r)).mApp = none)
    (hasks : ∀ token action, token ≠ some (.service r) → asked l token action = 0)
    (hreports : ∀ c, l.filter (reports c) = [])
    (hinv : ServiceInv as (s.withService r f l) r i)
    (hpub : s.publishedBinder r = if i.received then [i.binder] else []) :
    BindInv as new late (s.withService r f l) := by
  have hasked : ∀ token action, token ≠ some (.service r) →
      asked (s.log ++ l) token action = asked s.log token action := fun token action ht => by
    rw [asked_append, hasks token action ht, Nat.add_zero]
  have hfilter : ∀ c, (s.log ++ l).filter (reports c) = s.log.filter (reports c) := fun c => by
    rw [List.filter_append, hreports, List.append_nil]
  have hbinder : ∀ q, (s.withService r f l).publishedBinder q = s.publishedBinder q := by
    intro q
    by_cases hqr : q = r
    · subst hqr
      rw [hinv.publishedBinder, hpub]
    · exact withService_publishedBinder hf hqr
  refine ⟨h.live, fun q hq => ?_, fun q p hq hp e => ?_, fun q hq => ?_, fun token action ht => ?_,
    fun c hc => ?_, fun q hq => ?_, fun c hc => ?_, fun c hc => ?_⟩
  · refine (h.listed q hq).imp id fun ⟨hnew, hnone⟩ => ⟨hnew, ?_⟩
    by_cases hqr : q = r
    · subst hqr
      rw [withService_self]
      exact happ hnew hnone
    · rw [withService_ne hqr]
      exact hnone
  · rw [withService_action hf, withService_action hf] at e
    exact h.distinct q p hq hp e
  · by_cases hqr : q = r
    · subst hqr
      exact ⟨i, hinv⟩
    · obtain ⟨j, hj⟩ := h.service q hq
      have hget := withService_ne (s := s) (f := f) (l := l) hqr
      exact ⟨j, hj.congr (by rw [hget]) (by rw [hget]) (by rw [hget])
        (fun a => hasked _ a (by simpa using hqr)) fun _ => rfl⟩
  · exact ⟨(hasked token action (ht r hr)).trans (h.stranger token action ht).1,
      (h.stranger token action ht).2⟩
  · rw [withService_connectionsOf hf, withService_action hf]
    exact h.connection c hc
  · rw [withService_connectionsOf hf]
    exact h.connections q hq
  · refine (hfilter c).trans ((h.told c hc).trans ?_)
    rw [hbinder]
    split
    · rfl
    · exact List.map_congr_left fun b _ => (withService_report hf c b).symm
  · exact (hfilter c).trans (h.untold c hc)

/-! ## Starting a service and asking for its binding -/

variable {w : World}

/-- `r->mApp = app` -/
theorem BindInv.setApp (h : BindInv as none late s) (hr : s.services.Live r) (app : ProcessRef)
    (e : Event) (ha : ∀ token action, asks token action e = false) (hf : ∀ c, reports c e = false) :
    BindInv as none late (s.withService r (fun sr => { sr with mApp := some app }) [e]) := by
  obtain ⟨i, hi⟩ := h.service r hr
  have hkeeps : KeepsInfo fun sr => { sr with mApp := some app } := ⟨fun _ => rfl, fun _ => rfl⟩
  have hasked : ∀ token action, asked (s.log ++ [e]) token action = asked s.log token action := by
    intro token action
    simp [asked, ha]
  refine h.modify hr hkeeps (fun e => by cases e) (fun _ _ _ => by simp [asked, ha])
    (fun c => by simp [hf]) (i := i) ⟨?_, ?_, ?_, hi.received, ?_, ?_, ?_⟩ hi.publishedBinder
  · rw [withService_self, withService_action hkeeps]; exact hi.bindings
  · rw [withService_action hkeeps]; exact hi.intent
  · intro _
    rw [withService_self]
    exact Option.some_ne_none app
  · rw [withService_action hkeeps]; exact (hasked _ _).trans hi.asked
  · rw [withService_action hkeeps]; exact hi.published
  · intro a hne
    rw [withService_action hkeeps] at hne
    exact ⟨(hasked _ _).trans (hi.other a hne).1, (hi.other a hne).2⟩

/-- The binding is asked for, and marked so. -/
theorem BindInv.request (h : BindInv as none late s) (hr : s.services.Live r)
    (hi : ServiceInv as s r i) (hreq : i.requested = false) (happ : (s.services.get r).mApp ≠ none)
    (app : ProcessRef) :
    BindInv as none late (s.withService r
      (fun sr => { sr with mBindings := sr.mBindings.adjust (s.action r) fun i =>
        { i with requested := true, hasBound := true } })
      [.thread app (.scheduleBindService (some (.service r)) (some i.mIntent) false)]) := by
  have hkeeps : KeepsInfo fun sr => { sr with mBindings := sr.mBindings.adjust (s.action r) fun i =>
      { i with requested := true, hasBound := true } } := ⟨fun _ => rfl, fun _ => rfl⟩
  have hrec : i.received = false := by
    cases hc : i.received with
    | false => rfl
    | true => rw [hi.received hc] at hreq; cases hreq
  refine h.modify hr hkeeps (fun e => by cases e)
    (fun token action ht => by simp [asked, asks, Ne.symm ht]) (fun _ => rfl)
    (i := { i with requested := true, hasBound := true }) ⟨?_, ?_, ?_, fun _ => rfl, ?_, ?_, ?_⟩
    hi.publishedBinder
  · rw [withService_self, withService_action hkeeps]
    simp [hi.bindings, OrdMap.adjust]
  · rw [withService_action hkeeps]; exact hi.intent
  · intro _
    rw [withService_self]
    exact happ
  · rw [withService_action hkeeps]
    refine (asked_append _ _ _ _).trans ?_
    rw [hi.asked, hreq]
    simp [asked, asks, hi.intent]
  · rw [withService_action hkeeps]; exact hi.published
  · intro a hne
    rw [withService_action hkeeps] at hne
    refine ⟨(asked_append _ _ _ _).trans ?_, (hi.other a hne).2⟩
    rw [(hi.other a hne).1]
    simp [asked, asks, hi.intent, Ne.symm hne]

theorem requestServiceBindingsLocked_bind (h : BindInv as none late s) (hr : s.services.Live r) :
    wp (requestServiceBindingsLocked w r) (fun _ => BindInv as none late)
      (fun _ => BindInv as none late) s := by
  obtain ⟨i, hi⟩ := h.service r hr
  simp only [requestServiceBindingsLocked, wp_bind, wp_get, hi.bindings, requestBindings,
    requestBindingLocked]
  have hend : ∀ (ret : Int) t, BindInv as none late t →
      wp (if ret < 0 then pure ⟨⟩ else pure ⟨⟩ : AM PUnit) (fun _ => BindInv as none late)
        (fun _ => BindInv as none late) t := by
    intro ret t ht
    split <;> exact ht
  split
  · exact hend (-1) s h
  · next app happ =>
    split
    · exact hend (-1) s h
    · next hthread =>
      simp only [wp_bind, wp_get, wp_pure]
      refine wp_when (fun hc => ?_) fun _ => hend _ s h
      have hreq : i.requested = false := by
        simp only [Bool.and_eq_true, Bool.not_eq_true'] at hc
        exact hc.1
      rw [wp_bind]
      refine wp_callThread (fun hnull => absurd hnull hthread) fun _ => ?_
      simp only [modifyService, wp_modify]
      exact hend _ _ (h.request hr hi hreq (by simp [happ]) app)

theorem realStartServiceLocked_bind (h : BindInv as none late s) (hr : s.services.Live r)
    (app : ProcessRef) :
    wp (realStartServiceLocked w r app) (fun _ => BindInv as none late)
      (fun _ => BindInv as none late) s := by
  simp only [realStartServiceLocked, wp_bind, wp_get, wp_pure]
  refine wp_when (fun _ => ?_) fun _ => requestServiceBindingsLocked_bind h hr
  simp only [modifyService, wp_bind, wp_modify]
  have hset := fun e => h.setApp hr app e
  refine wp_callThread (fun _ => hset _ (fun _ _ => rfl) fun _ => rfl) fun _ => ?_
  exact requestServiceBindingsLocked_bind (hset _ (fun _ _ => rfl) fun _ => rfl) hr

end

/-! ## Attaching -/

theorem keeps_attachServiceLocked_bind (as : List Action) (w : World) (app : ProcessRef) :
    Keeps (bindFrame as none none) (attachServiceLocked w app) := by
  refine .of_invariant fun s h => ?_
  simp only [attachServiceLocked, wp_bind, wp_get]
  split
  · exact h
  · next r hr =>
    exact realStartServiceLocked_bind h (h.live r (List.mem_of_find?_eq_some hr)) app

theorem keeps_attachApplicationLocked_bind (as : List Action) (w : World)
    (appThread : Option IBinder) (pid : Int) :
    Keeps (bindFrame as none none) (attachApplicationLocked w appThread pid) :=
  keeps_attachApplicationLocked w (allowsProxies_bind as none none).casts
    (allowsNull_bind as none none)
    (allowsProcesses_bind as none none) (allowsActivities_bind as none none)
    (keeps_attachServiceLocked_bind as w) (allowsSignals_bind as none none) appThread pid

/-! ## Publishing -/

section
variable {as : List Action} {s : State} {r : ServiceRef} {i : IntentBindRecord} {pid : Int}
  {intent : Intent} {service : Option IBinder}

theorem published_snoc (token : Option IBinder) (action : String8) :
    published (as ++ [.request pid (.publishService (some (.service r)) (some intent) service)])
      token action = published as token action ++
        if token = some (.service r) ∧ intent.mAction = action then [service] else [] := by
  unfold published
  rw [List.filterMap_append]
  refine congrArg _ ?_
  simp only [List.filterMap_cons, List.filterMap_nil, publishes, eq_comm (a := token)]
  split <;> simp_all

theorem filter_reports {cs : List ConnectionRef} {c : ConnectionRef} (hnodup : cs.Nodup)
    (name : ComponentName) (binder : Option IBinder) :
    (cs.map fun d => Event.connected d (.connected (some name) binder)).filter (reports c) =
      if c ∈ cs then [.connected c (.connected (some name) binder)] else [] := by
  induction cs with
  | nil => rfl
  | cons d cs ih =>
    obtain ⟨hd, hcs⟩ := List.nodup_cons.mp hnodup
    rw [List.map_cons, List.filter_cons, ih hcs]
    by_cases hcd : d = c
    · subst hcd
      simp [reports, hd]
    · simp [reports, hcd, Ne.symm hcd]

/-- `i->binder = service; i->received = true` -/
def publishBinder (action : String8) (service : Option IBinder) (sr : ServiceRecord) :
    ServiceRecord :=
  { sr with mBindings := sr.mBindings.adjust action fun i =>
      { i with binder := service, received := true } }

theorem keepsInfo_publishBinder (action : String8) (service : Option IBinder) :
    KeepsInfo (publishBinder action service) := ⟨fun _ => rfl, fun _ => rfl⟩

/-- The `connected` calls of a publish. -/
def State.announced (s : State) (r : ServiceRef) (service : Option IBinder) : List Event :=
  (s.connectionsOf r).map fun c => .connected c
    (.connected (some ⟨(s.services.get r).mServiceInfo.mName⟩) service)

theorem filter_announced (hnodup : (s.connectionsOf r).Nodup) (c : ConnectionRef) :
    (s.announced r service).filter (reports c) = if c ∈ s.connectionsOf r then
      [.connected c (.connected (some ⟨(s.services.get r).mServiceInfo.mName⟩) service)] else [] :=
  filter_reports hnodup _ _

/-- The binder is published, and every connection of the service hears of it. -/
theorem BindInv.publish (h : BindInv as none none s) (hr : s.services.Live r)
    (hi : ServiceInv as s r i) (hintent : intent.mAction = s.action r) (hreq : i.requested = true)
    (hrec : i.received = false) :
    BindInv (as ++ [.request pid (.publishService (some (.service r)) (some intent) service)])
      none none (s.withService r (publishBinder (s.action r) service) (s.announced r service)) := by
  have hf := keepsInfo_publishBinder (s.action r) service
  have hasked : ∀ token action,
      asked (s.log ++ s.announced r service) token action = asked s.log token action := by
    intro token action
    rw [asked_append]
    simp [State.announced, asked, asks]
  have hother : ∀ token action, token ≠ some (.service r) →
      published (as ++ [.request pid (.publishService (some (.service r)) (some intent) service)])
        token action = published as token action := by
    intro token action ht
    rw [published_snoc, if_neg fun e => ht e.1, List.append_nil]
  have hempty : s.publishedBinder r = [] := by
    rw [hi.publishedBinder, hrec]
    rfl
  have hself : ServiceInv
      (as ++ [.request pid (.publishService (some (.service r)) (some intent) service)])
      (s.withService r (publishBinder (s.action r) service) (s.announced r service)) r
      { i with binder := service, received := true } := by
    refine ⟨?_, ?_, ?_, fun _ => hreq, ?_, ?_, ?_⟩
    · rw [withService_self, withService_action hf]
      simp [publishBinder, hi.bindings, OrdMap.adjust]
    · rw [withService_action hf]; exact hi.intent
    · rw [withService_self]; exact hi.app
    · rw [withService_action hf]; exact (hasked _ _).trans hi.asked
    · rw [withService_action hf, published_snoc, hi.published, hrec]
      simp [hintent]
    · intro a hne
      rw [withService_action hf] at hne
      refine ⟨(hasked _ _).trans (hi.other a hne).1, ?_⟩
      rw [published_snoc, (hi.other a hne).2]
      simp [hintent, Ne.symm hne]
  have hmem : ∀ c, s.connections.Live c →
      (c ∈ s.connectionsOf r ↔ (s.connections.get c).mService = r) := fun c hc =>
    ⟨fun hcr => ((h.connections r hr).2 c hcr).2, fun e => e ▸ (h.connection c hc).2.2⟩
  refine ⟨h.live, fun q hq => ?_, fun q p hq hp e => ?_, fun q hq => ?_, fun token action ht => ?_,
    fun c hc => ?_, fun q hq => ?_, fun c hc => ?_, fun c hc => ?_⟩
  · exact (h.listed q hq).imp id fun hnone => by cases hnone.1
  · rw [withService_action hf, withService_action hf] at e
    exact h.distinct q p hq hp e
  · by_cases hqr : q = r
    · subst hqr
      exact ⟨_, hself⟩
    · obtain ⟨j, hj⟩ := h.service q hq
      have hget := withService_ne (s := s) (f := publishBinder (s.action r) service)
        (l := s.announced r service) hqr
      exact ⟨j, hj.congr (congrArg _ hget) (congrArg _ hget) (congrArg _ hget)
        (fun a => hasked _ a) fun a => hother _ a (by simpa using hqr)⟩
  · have := h.stranger token action ht
    exact ⟨(hasked token action).trans this.1, (hother token action (ht r hr)).trans this.2⟩
  · rw [withService_connectionsOf hf, withService_action hf]
    exact h.connection c hc
  · rw [withService_connectionsOf hf]
    exact h.connections q hq
  · have hlive : s.connections.Live c := hc
    refine (List.filter_append ..).trans ?_
    rw [h.told c hlive, filter_announced (h.connections r hr).1]
    simp only [reduceCtorEq, if_false, hmem c hlive]
    show _ = ((s.withService r _ _).publishedBinder (s.connections.get c).mService).map _
    by_cases hcr : (s.connections.get c).mService = r
    · rw [if_pos hcr, hcr, hempty, hself.publishedBinder]
      show _ = [State.report _ c service]
      rw [withService_report hf, State.report, hcr]
      rfl
    · rw [if_neg hcr, List.append_nil, withService_publishedBinder hf hcr]
      exact List.map_congr_left fun b _ => (withService_report hf c b).symm
  · refine (List.filter_append ..).trans ?_
    rw [h.untold c hc, filter_announced (h.connections r hr).1]
    exact if_neg fun hcr => hc ((h.connections r hr).2 c hcr).1

theorem each_callConnected (cs : List ConnectionRef) (name : ComponentName)
    (binder : Option IBinder) (s : State) :
    wp (each (fun c => callConnected c name binder) cs)
      (fun _ t => t = { s with
        log := s.log ++ cs.map fun c => .connected c (.connected (some name) binder) })
      (fun _ _ => True) s := by
  induction cs generalizing s with
  | nil => exact by simp [each]
  | cons c cs ih =>
    simp only [each, callConnected, wp_bind, wp_get]
    split
    · trivial
    · simp only [emit, wp_modify]
      refine wp_mono_ok (ih _) (fun _ t ht => ?_)
      rw [ht, List.map_cons, List.append_assoc]
      rfl

theorem publishServiceLocked_bind (h : BindInv as none none s) (token : Option IBinder)
    (hguard : (published as token intent.mAction).length < asked s.log token intent.mAction) :
    wp (publishServiceLocked token (some intent) service)
      (fun _ =>
        BindInv (as ++ [.request pid (.publishService token (some intent) service)]) none none)
      (fun _ _ => True) s := by
  have hpos : asked s.log token intent.mAction ≠ 0 := by omega
  obtain ⟨r, hr, rfl⟩ : ∃ r, s.services.Live r ∧ token = some (.service r) := by
    by_contra hnone
    refine hpos (h.stranger token intent.mAction fun r hr e => hnone ⟨r, hr, e⟩).1
  obtain ⟨i, hi⟩ := h.service r hr
  have hintent : intent.mAction = s.action r := by
    by_contra hne
    exact hpos (hi.other _ hne).1
  rw [hintent, hi.asked, hi.published] at hguard
  have hreq : i.requested = true := by
    cases hc : i.requested with
    | true => rfl
    | false => simp [hc] at hguard
  have hrec : i.received = false := by
    cases hc : i.received with
    | false => rfl
    | true => simp [hc, hreq] at hguard
  simp only [publishServiceLocked, readServiceToken, deref, wp_bind, wp_pure, wp_get, hi.bindings,
    hintent, OrdMap.find, List.find?_cons, decide_true, Option.map_some, modifyService, wp_modify]
  refine wp_mono_ok (each_callConnected _ _ _ _) (fun _ t ht => ?_)
  subst ht
  exact h.publish hr hi hintent hreq hrec

end

/-! ## Binding -/

section
variable {as : List Action} {s : State} {r : ServiceRef} {intent : Intent}

/-- An existing record's binding gets the caller among its `apps`. -/
theorem BindInv.retrieve (h : BindInv as none none s) (hr : s.services.Live r)
    (haction : s.action r = intent.mAction) (app : Option ProcessRef) :
    BindInv as none none { s with
      services := s.services.update r fun sr => sr.retrieveAppBindingLocked intent app } := by
  obtain ⟨i, hi⟩ := h.service r hr
  let f : ServiceRecord → ServiceRecord := fun sr => sr.retrieveAppBindingLocked intent app
  let i' : IntentBindRecord := if app ∈ i.apps then i else { i with apps := i.apps ++ [app] }
  have hf : KeepsInfo f := ⟨fun _ => rfl, fun _ => rfl⟩
  have hi' : i'.mIntent = i.mIntent ∧ i'.requested = i.requested ∧ i'.received = i.received ∧
      i'.binder = i.binder := by
    dsimp only [i']
    split <;> simp
  obtain ⟨hintent, hreq, hrec, hbinder⟩ := hi'
  have hinv : ServiceInv as (s.withService r f []) r i' := by
    refine ⟨?_, ?_, ?_, ?_, ?_, ?_, ?_⟩
    · rw [withService_self, withService_action hf]
      have hb : (s.services.get r).mBindings = [(intent.mAction, i)] := by rw [hi.bindings, haction]
      have hfind : OrdMap.find [(intent.mAction, i)] intent.mAction = some i := by
        simp [OrdMap.find]
      simp only [f, ServiceRecord.retrieveAppBindingLocked, hb, OrdMap.insert_of_mem hfind, haction]
      simp [OrdMap.adjust, i']
    · rw [withService_action hf, hintent]; exact hi.intent
    · rw [withService_self, hreq]; exact hi.app
    · rw [hreq, hrec]; exact hi.received
    · rw [withService_action hf, hreq]
      simpa [State.withService] using hi.asked
    · rw [withService_action hf, hrec, hbinder]; exact hi.published
    · rw [withService_action hf]
      simpa [State.withService] using hi.other
  have := h.modify hr hf (fun e => by cases e) (fun _ _ _ => rfl) (fun _ => rfl) hinv
    (by rw [hrec, hbinder]; exact hi.publishedBinder)
  simpa [State.withService] using this

/-- A new record for an action that no record has yet, with its binding. -/
theorem BindInv.create (h : BindInv as none none s) {si : ServiceInfo}
    {callerApp app : Option ProcessRef}
    (haction : si.mAction = intent.mAction)
    (hnew : ∀ q, s.services.Live q → s.action q ≠ intent.mAction) :
    BindInv as (some s.services.fresh) none { s with
      services := (s.services.alloc ⟨intent, callerApp, none, si, [], []⟩).update s.services.fresh
        fun sr => sr.retrieveAppBindingLocked intent app } := by
  let t : State := { s with
    services := (s.services.alloc ⟨intent, callerApp, none, si, [], []⟩).update s.services.fresh
      fun sr => sr.retrieveAppBindingLocked intent app }
  have hself : t.services.get s.services.fresh = ⟨intent, callerApp, none, si,
      [(intent.mAction, ⟨intent, [app], false, false, false, none⟩)], []⟩ := by
    simp [t, ServiceRecord.retrieveAppBindingLocked, OrdMap.insert, OrdMap.find, OrdMap.place,
      OrdMap.adjust]
  have hold : ∀ q, s.services.Live q → t.services.get q = s.services.get q := fun q hq => by
    simp only [t]
    rw [Store.get_update_ne _ _ hq.ne_fresh, Store.get_alloc_live _ hq]
  have hlive : ∀ q, t.services.Live q ↔ s.services.Live q ∨ q = s.services.fresh :=
    fun q => Store.live_alloc s.services ⟨intent, callerApp, none, si, [], []⟩ q
  have hactionOld : ∀ q, s.services.Live q → t.action q = s.action q := fun q hq => by
    unfold State.action
    rw [hold q hq]
  have hactionNew : t.action s.services.fresh = intent.mAction := by
    unfold State.action
    rw [hself]
    exact haction
  have hconnsOld : ∀ q, s.services.Live q → t.connectionsOf q = s.connectionsOf q := fun q hq => by
    unfold State.connectionsOf
    rw [hold q hq]
  have hstranger : ∀ action, asked s.log (some (.service s.services.fresh)) action = 0 ∧
      published as (some (.service s.services.fresh)) action = [] := fun action =>
    h.stranger _ action fun q hq e => hq.ne_fresh (by simpa using e.symm)
  refine ⟨fun q hq => (hlive q).mpr (Or.inl (h.live q hq)), fun q hq => ?_, fun q p hq hp e => ?_,
    fun q hq => ?_, fun token action ht => ?_, fun c hc => ?_, fun q hq => ?_, fun c hc => ?_,
    h.untold⟩
  · rcases (hlive q).mp hq with hq | rfl
    · exact Or.inl ((h.listed q hq).resolve_right fun hnone => by cases hnone.1)
    · exact Or.inr ⟨rfl, congrArg ServiceRecord.mApp hself⟩
  · rcases (hlive q).mp hq with hq | rfl <;> rcases (hlive p).mp hp with hp | rfl
    · exact h.distinct q p hq hp ((hactionOld q hq).symm.trans (e.trans (hactionOld p hp)))
    · exact absurd ((hactionOld q hq).symm.trans (e.trans hactionNew)) (hnew q hq)
    · exact absurd ((hactionOld p hp).symm.trans (e.symm.trans hactionNew)) (hnew p hp)
    · rfl
  · rcases (hlive q).mp hq with hq | rfl
    · obtain ⟨i, hi⟩ := h.service q hq
      exact ⟨i, hi.congr (congrArg _ (hold q hq)) (congrArg _ (hold q hq)) (congrArg _ (hold q hq))
        (fun _ => rfl) fun _ => rfl⟩
    · refine ⟨⟨intent, [app], false, false, false, none⟩, ?_, ?_, by simp, by simp, ?_, ?_, ?_⟩
      · rw [hactionNew, hself]
      · exact hactionNew.symm
      · exact (hstranger _).1
      · exact (hstranger _).2
      · exact fun a _ => hstranger a
  · exact h.stranger token action fun q hq => ht q ((hlive q).mpr (Or.inl hq))
  · obtain ⟨hserv, hact, hmem⟩ := h.connection c hc
    refine ⟨(hlive _).mpr (Or.inl hserv), ?_, ?_⟩
    · rw [show t.connections = s.connections from rfl, hactionOld _ hserv]
      exact hact
    · rw [show t.connections = s.connections from rfl, hconnsOld _ hserv]
      exact hmem
  · rcases (hlive q).mp hq with hq | rfl
    · rw [hconnsOld q hq]
      exact h.connections q hq
    · have : t.connectionsOf s.services.fresh = [] := by simp [State.connectionsOf, hself]
      rw [this]
      exact ⟨List.nodup_nil, fun c hc => by cases hc⟩
  · have hserv := (h.connection c hc).1
    refine (h.told c hc).trans ?_
    have hpub : t.publishedBinder (s.connections.get c).mService =
        s.publishedBinder (s.connections.get c).mService := by
      unfold State.publishedBinder
      rw [hactionOld _ hserv, hold _ hserv]
    have hrep : t.report c = s.report c := funext fun b => by
      unfold State.report
      rw [show t.connections = s.connections from rfl, hold _ hserv]
    show _ = if none = some c then [] else
      (t.publishedBinder (s.connections.get c).mService).map (t.report c)
    rw [hpub, hrep]

/-- A new connection enters the list of its service and is still to hear. -/
theorem BindInv.connect {new : Option ServiceRef} (h : BindInv as new none s)
    (hr : s.services.Live r) (before : Option IBinder → Option IBinder → Bool)
    {binder : Option IBinder} (hbinder : (s.services.get r).mConnections.find binder = none)
    {k : ConnectionRecord} (hk : k.mService = r) (hka : k.mAction = s.action r) :
    BindInv as new (some s.connections.fresh) { s with
      connections := s.connections.alloc k
      services := s.services.update r fun sr => { sr with
        mConnections := sr.mConnections.insert before binder [s.connections.fresh] } } := by
  let f : ServiceRecord → ServiceRecord := fun sr => { sr with
    mConnections := sr.mConnections.insert before binder [s.connections.fresh] }
  let t : State :=
    { s with connections := s.connections.alloc k, services := s.services.update r f }
  have hself : t.services.get r = f (s.services.get r) := Store.get_update_self s.services r f
  have hne : ∀ q, q ≠ r → t.services.get q = s.services.get q :=
    fun q hq => Store.get_update_ne s.services f hq
  have hsame : ∀ q, (t.services.get q).mServiceInfo = (s.services.get q).mServiceInfo ∧
      (t.services.get q).mBindings = (s.services.get q).mBindings ∧
      (t.services.get q).mApp = (s.services.get q).mApp := by
    intro q
    by_cases hq : q = r
    · rw [hq, hself]
      exact ⟨rfl, rfl, rfl⟩
    · rw [hne q hq]
      exact ⟨rfl, rfl, rfl⟩
  have haction : ∀ q, t.action q = s.action q := fun q => congrArg ServiceInfo.mAction (hsame q).1
  have hpub : ∀ q, t.publishedBinder q = s.publishedBinder q := fun q => by
    unfold State.publishedBinder
    rw [(hsame q).2.1, haction]
  have hperm : (t.connectionsOf r).Perm (s.connections.fresh :: s.connectionsOf r) := by
    unfold State.connectionsOf
    rw [hself]
    exact (OrdMap.insert_perm hbinder [s.connections.fresh]).flatMap_right _
  have hconns : ∀ q, q ≠ r → t.connectionsOf q = s.connectionsOf q := fun q hq => by
    unfold State.connectionsOf
    rw [hne q hq]
  have hlive : ∀ c, t.connections.Live c ↔ s.connections.Live c ∨ c = s.connections.fresh :=
    fun c => Store.live_alloc s.connections k c
  have hold : ∀ c, s.connections.Live c → t.connections.get c = s.connections.get c :=
    fun c hc => Store.get_alloc_live k hc
  have hfresh : t.connections.get s.connections.fresh = k := Store.get_alloc_fresh s.connections k
  refine ⟨h.live, fun q hq => ?_, fun q p hq hp e => ?_, fun q hq => ?_, h.stranger, fun c hc => ?_,
    fun q hq => ?_, fun c hc => ?_, fun c hc => h.untold c fun hl => hc ((hlive c).mpr (Or.inl hl))⟩
  · exact (h.listed q hq).imp id fun hnone => ⟨hnone.1, (hsame q).2.2.trans hnone.2⟩
  · exact h.distinct q p hq hp ((haction q).symm.trans (e.trans (haction p)))
  · obtain ⟨i, hi⟩ := h.service q hq
    exact ⟨i, hi.congr (hsame q).1 (hsame q).2.1 (hsame q).2.2 (fun _ => rfl) fun _ => rfl⟩
  · show s.services.Live (t.connections.get c).mService ∧ _
    rw [haction]
    rcases (hlive c).mp hc with hc | rfl
    · obtain ⟨hserv, hact, hmem⟩ := h.connection c hc
      rw [hold c hc]
      refine ⟨hserv, hact, ?_⟩
      by_cases hcr : (s.connections.get c).mService = r
      · rw [hcr] at hmem ⊢
        exact hperm.mem_iff.mpr (List.mem_cons_of_mem _ hmem)
      · rw [hconns _ hcr]
        exact hmem
    · rw [hfresh, hk]
      exact ⟨hr, hka, hperm.mem_iff.mpr (List.mem_cons_self ..)⟩
  · by_cases hqr : q = r
    · subst hqr
      obtain ⟨hnodup, hof⟩ := h.connections q hq
      refine ⟨hperm.nodup_iff.mpr (List.nodup_cons.mpr ⟨fun hmem => ?_, hnodup⟩), fun c hc => ?_⟩
      · exact (hof _ hmem).1.ne_fresh rfl
      · rcases List.mem_cons.mp (hperm.mem_iff.mp hc) with rfl | hc
        · exact ⟨(hlive _).mpr (Or.inr rfl), by rw [hfresh, hk]⟩
        · refine ⟨(hlive c).mpr (Or.inl (hof c hc).1), ?_⟩
          rw [hold c (hof c hc).1]
          exact (hof c hc).2
    · obtain ⟨hnodup, hof⟩ := h.connections q hq
      rw [hconns q hqr]
      refine ⟨hnodup, fun c hc => ⟨(hlive c).mpr (Or.inl (hof c hc).1), ?_⟩⟩
      rw [hold c (hof c hc).1]
      exact (hof c hc).2
  · rcases (hlive c).mp hc with hc | rfl
    · have hcne : some s.connections.fresh ≠ some c := fun e => hc.ne_fresh (by simpa using e.symm)
      refine (h.told c hc).trans ?_
      show _ = if some s.connections.fresh = some c then [] else
        (t.publishedBinder (t.connections.get c).mService).map (t.report c)
      rw [if_neg hcne, hold c hc, hpub]
      refine List.map_congr_left fun b _ => ?_
      unfold State.report
      rw [hold c hc, (hsame _).1]
    · rw [if_pos rfl]
      exact h.untold _ (fun hl => hl.ne_fresh rfl)

/-- `mServices.push_back(r)` where the record has no process yet. -/
theorem BindInv.push {new : Option ServiceRef} {late : Option ConnectionRef}
    (h : BindInv as new late s) (hr : s.services.Live r) (hnew : new = none ∨ new = some r) :
    BindInv as none late { s with mServices := s.mServices ++ [r] } := by
  refine ⟨fun q hq => ?_, fun q hq => Or.inl ?_, h.distinct, fun q hq => ?_, h.stranger,
    h.connection, h.connections, h.told, h.untold⟩
  · rcases List.mem_append.mp hq with hq | hq
    · exact h.live q hq
    · rw [List.mem_singleton.mp hq]
      exact hr
  · rcases h.listed q hq with hmem | ⟨hsome, -⟩
    · exact List.mem_append_left _ hmem
    · rcases hnew with hnew | hnew
      · rw [hnew] at hsome
        cases hsome
      · rw [hnew] at hsome
        cases hsome
        exact List.mem_append_right _ (List.mem_singleton_self _)
  · obtain ⟨i, hi⟩ := h.service q hq
    exact ⟨i, hi.congr rfl rfl rfl (fun _ => rfl) fun _ => rfl⟩

/-- A record that has a process is in `mServices` already. -/
theorem BindInv.pushed {new : Option ServiceRef} {late : Option ConnectionRef}
    (h : BindInv as new late s) (hnew : new = none ∨ new = some r)
    (happ : (s.services.get r).mApp ≠ none) : BindInv as none late s := by
  refine { h with listed := fun q hq => Or.inl ?_ }
  rcases h.listed q hq with hmem | ⟨hsome, hnone⟩
  · exact hmem
  · rcases hnew with hnew | hnew
    · rw [hnew] at hsome
      cases hsome
    · rw [hnew] at hsome
      cases hsome
      exact absurd hnone happ

/-- Nothing has been published that the connection would have to hear of. -/
theorem BindInv.settled {c : ConnectionRef} (h : BindInv as none (some c) s)
    (hpub : s.publishedBinder (s.connections.get c).mService = []) : BindInv as none none s := by
  refine { h with told := fun d hd => ?_ }
  rw [h.told d hd]
  by_cases hdc : some c = some d
  · cases hdc
    simp [hpub]
  · rw [if_neg hdc]
    simp

/-- The connection hears of the binder that was published before. -/
theorem BindInv.settle {c : ConnectionRef} {b : Option IBinder} (h : BindInv as none (some c) s)
    (hpub : s.publishedBinder (s.connections.get c).mService = [b]) (hc : s.connections.Live c) :
    BindInv as none none { s with log := s.log ++ [s.report c b] } := by
  have hfilter : ∀ d, (s.log ++ [s.report c b]).filter (reports d) =
      s.log.filter (reports d) ++ if c = d then [s.report c b] else [] := by
    intro d
    rw [List.filter_append]
    by_cases hcd : c = d <;> simp [State.report, reports, hcd]
  have hasked : ∀ token action,
      asked (s.log ++ [s.report c b]) token action = asked s.log token action := by
    intro token action
    rw [asked_append]
    simp [State.report, asked, asks]
  refine ⟨h.live, h.listed, h.distinct, fun q hq => ?_, fun token action ht => ?_, h.connection,
    h.connections, fun d hd => ?_, fun d hd => ?_⟩
  · obtain ⟨i, hi⟩ := h.service q hq
    exact ⟨i, hi.congr rfl rfl rfl (fun _ => hasked _ _) fun _ => rfl⟩
  · exact ⟨(hasked token action).trans (h.stranger token action ht).1,
      (h.stranger token action ht).2⟩
  · refine (hfilter d).trans ?_
    rw [h.told d hd]
    by_cases hcd : c = d
    · subst hcd
      rw [if_pos rfl, if_pos rfl]
      show [s.report c b] = (s.publishedBinder (s.connections.get c).mService).map (s.report c)
      rw [hpub]
      rfl
    · rw [if_neg hcd, if_neg fun e => hcd (by simpa using e), List.append_nil]
      rfl
  · refine (hfilter d).trans ?_
    rw [h.untold d hd, if_neg fun e : c = d => hd (e ▸ hc)]
    rfl

/-- What a bind has in hand after it has looked for the service of its intent. -/
inductive Found (as : List Action) (intent : Intent) (r : ServiceRef) : State → Prop
  | existing {s : State} (h : BindInv as none none s) (hr : s.services.Live r)
      (haction : s.action r = intent.mAction) : Found as intent r s
  | created {s : State} {si : ServiceInfo} {callerApp : Option ProcessRef}
      (h : BindInv as none none s) (hr : r = s.services.fresh)
      (haction : si.mAction = intent.mAction)
      (hnew : ∀ q, s.services.Live q → s.action q ≠ intent.mAction) :
      Found as intent r
        { s with services := s.services.alloc ⟨intent, callerApp, none, si, [], []⟩ }

theorem serviceForBind_found (w : World) (h : BindInv as none none s)
    (caller : Option InterfacePtr) (intent : Intent) :
    wp (serviceForBind w caller intent) (fun r t => match r with
      | none => BindInv as none none t
      | some r => Found as intent r t) (fun _ _ => True) s := by
  simp only [serviceForBind, wp_bind, wp_get]
  split
  · next r hr =>
    have hmem := List.mem_of_find?_eq_some hr
    exact .existing h (h.live r hmem) (by simpa [State.action] using List.find?_some hr)
  · next hnone =>
    split
    · exact h
    · next si hsi =>
      simp only [newServiceRecord, wp_bind, wp_get, wp_modify, wp_pure]
      refine .created h rfl (by simpa using List.find?_some hsi) fun q hq e => ?_
      have hmem := (h.listed q hq).resolve_right fun hn => by cases hn.1
      exact absurd e (by simpa [State.action] using List.find?_eq_none.mp hnone q hmem)

theorem Found.proxies (h : Found as intent r s) (n : Nat) :
    Found as intent r { s with proxies := n } := by
  cases h with
  | existing h hr haction =>
    exact .existing (allowsProxies_bind as none none _ n h) hr haction
  | created h hr haction hnew =>
    exact .created (allowsProxies_bind as none none _ n h) hr haction hnew

theorem Found.retrieve (h : Found as intent r s) (app : Option ProcessRef) :
    let t : State := { s with
      services := s.services.update r fun sr => sr.retrieveAppBindingLocked intent app }
    ∃ new, (new = none ∨ new = some r) ∧ BindInv as new none t ∧ t.services.Live r ∧
      t.action r = intent.mAction := by
  intro t
  have haction : t.action r = s.action r := by
    have : t.services.get r = (s.services.get r).retrieveAppBindingLocked intent app :=
      Store.get_update_self s.services r fun sr => sr.retrieveAppBindingLocked intent app
    simp only [State.action]
    rw [this]
    rfl
  cases h with
  | existing h hr hact =>
    exact ⟨none, Or.inl rfl, h.retrieve hr hact app, hr, haction.trans hact⟩
  | @created s si callerApp h hr hact hnew =>
    subst hr
    have hget : ((s.services.alloc ⟨intent, callerApp, none, si, [], []⟩).get
        s.services.fresh).mServiceInfo = si := by rw [Store.get_alloc_fresh]
    have hlive : t.services.Live s.services.fresh := Store.live_fresh_alloc s.services
      ⟨intent, callerApp, none, si, [], []⟩
    refine ⟨some s.services.fresh, Or.inr rfl, h.create hact hnew, hlive, ?_⟩
    rw [haction]
    exact (congrArg ServiceInfo.mAction hget).trans hact

theorem startServiceRecordLocked_bind (w : World) {new : Option ServiceRef}
    {late : Option ConnectionRef} (h : BindInv as new late s) (hr : s.services.Live r)
    (hnew : new = none ∨ new = some r) :
    wp (startServiceRecordLocked w r) (fun _ => BindInv as none late) (fun _ _ => True) s := by
  refine wp_startServiceRecordLocked w fun t ht => ?_
  have hpushed : BindInv as none late t ∧ t.services.Live r := by
    rcases ht with ⟨-, rfl⟩ | ⟨happ, rfl⟩
    · exact ⟨h.push hr hnew, hr⟩
    · exact ⟨h.pushed hnew happ, hr⟩
  cases s.getProcessRecordLocked (s.services.get r).mServiceInfo.mApplicationName with
  | none =>
    rw [startInProcess, wp_bind]
    have := (keeps_startProcessLocked w (allowsProcesses_bind as none late)
      (s.services.get r).mServiceInfo.mApplicationName).wp t
    exact wp_mono_ok this (fun _ _ hu => hu hpushed.1)
  | some app =>
    exact wp_mono_ok (realStartServiceLocked_bind hpushed.1 hpushed.2 app) (fun _ _ hu => hu)

/-- The last statement of a bind: the connection hears at once if there is a binder. -/
theorem lateConnection_bind {c : ConnectionRef} (h : BindInv as none (some c) s)
    (hc : s.connections.Live c) (hcr : (s.connections.get c).mService = r)
    (haction : s.action r = intent.mAction) :
    wp (match (s.services.get r).mApp, (s.services.get r).mBindings.find intent.mAction with
      | some _, some i => when i.received
          (callConnected c ⟨(s.services.get r).mServiceInfo.mName⟩ i.binder)
      | _, _ => pure ⟨⟩)
      (fun _ => BindInv as none none) (fun _ _ => True) s := by
  obtain ⟨i, hi⟩ := h.service r (hcr ▸ (h.connection c hc).1)
  have hfind : (s.services.get r).mBindings.find intent.mAction = some i := by
    rw [hi.bindings, haction]
    simp [OrdMap.find]
  have hpub := hi.publishedBinder
  rw [← hcr] at hpub
  rw [hfind]
  split
  · next app i' happ hsome =>
    cases hsome
    refine wp_when (fun hrec => ?_) fun hrec => h.settled (by rw [hpub, if_neg hrec])
    simp only [callConnected, wp_bind, wp_get]
    split
    · trivial
    · have := h.settle (by rw [hpub, if_pos hrec]) hc
      rwa [State.report, hcr] at this
  · next hnot =>
    refine h.settled ?_
    rw [hpub, if_neg]
    intro hrec
    obtain ⟨app, happ⟩ := Option.ne_none_iff_exists'.mp (hi.app (hi.received hrec))
    exact hnot app i happ rfl

theorem bindServiceLocked_bind (w : World) (h : BindInv as none none s)
    (caller : Option InterfacePtr) (token : Option IBinder) (intent : Intent)
    (connection : Option InterfacePtr) (flags : BitVec 32) :
    wp (bindServiceLocked w caller token intent connection flags) (fun _ => BindInv as none none)
      (fun _ _ => True) s := by
  simp only [bindServiceLocked, wp_bind, wp_get]
  generalize (if caller = none then none else s.getRecordForAppLocked caller) = callerApp
  refine wp_mono_ok (serviceForBind_found w h caller intent) ?_
  rintro (_ | r) t ht
  · exact ht
  simp only [wp_bind, wp_get]
  have htoken := (keeps_getActivityRecordByToken (F := .invariant (Found as intent r))
    (fun _ h => h.proxies _) token).wp t
  refine wp_mono_ok htoken (fun activity u hu => ?_)
  obtain ⟨new, hnew, hbound, hr, haction⟩ := (hu ht).retrieve callerApp
  simp only [modifyService, wp_modify, addConnection, wp_bind, wp_get]
  split
  · trivial
  · next hnone =>
    rw [wp_modify]
    have hconn := hbound.connect hr w.before hnone
      (k := ⟨r, intent.mAction, callerApp, activity, connection, flags⟩) rfl haction.symm
    -- the connections are not touched while the service is started
    let F : Frame State := .same State.connections
    have hF : AllowsServiceList F := ⟨⟨⟨fun _ _ _ _ => rfl⟩, fun _ _ _ _ => rfl⟩, fun _ _ => rfl⟩
    have hstart := keeps_startServiceRecordLocked w hF (fun _ _ _ => rfl)
      (keeps_startProcessLocked w ⟨⟨fun _ _ _ _ => rfl⟩, fun _ _ _ _ => rfl⟩) r
    refine wp_mono_ok (wp_and (startServiceRecordLocked_bind w hconn hr hnew) (hstart.wp _)) ?_
    rintro _ v ⟨hv, hsame⟩
    have hlive : v.connections.Live u.connections.fresh := by
      rw [show v.connections = _ from hsame]
      exact Store.live_fresh_alloc _ _
    have hget : v.connections.get u.connections.fresh =
        ⟨r, intent.mAction, callerApp, activity, connection, flags⟩ := by
      rw [show v.connections = _ from hsame]
      exact Store.get_alloc_fresh _ _
    have hcr : (v.connections.get u.connections.fresh).mService = r := by rw [hget]
    refine lateConnection_bind hv hlive hcr ?_
    have := (hv.connection _ hlive).2.1
    rw [hcr, hget] at this
    exact this.symm

end

/-! ## Runs -/

theorem published_skip {as : List Action} {a : Action}
    (ha : ∀ token action, publishes token action a = none) {new : Option ServiceRef}
    {late : Option ConnectionRef} {s : State} (h : BindInv as new late s) :
    BindInv (as ++ [a]) new late s := by
  have hp : ∀ token action, published (as ++ [a]) token action = published as token action := by
    intro token action
    simp [published, ha]
  refine ⟨h.live, h.listed, h.distinct, fun q hq => ?_, fun token action ht => ?_, h.connection,
    h.connections, h.told, h.untold⟩
  · obtain ⟨i, hi⟩ := h.service q hq
    exact ⟨i, hi.congr rfl rfl rfl (fun _ => rfl) fun _ => hp _ _⟩
  · rw [hp]
    exact h.stranger token action ht

theorem step_bind (w : World) {as : List Action} {a : Action} {s : State}
    (h : BindInv as none none s) (ha : a.isBinding) (hp : MayPublish as s a) :
    wp (step w a) (fun _ => BindInv (as ++ [a]) none none) (fun _ _ => True) s := by
  cases a with
  | handleMessage => cases ha
  | request pid call =>
    cases call with
    | attachApplication appThread =>
      refine wp_mono_ok ((keeps_attachApplicationLocked_bind as w appThread pid).wp s)
        (fun _ t ht => ?_)
      exact published_skip (fun _ _ => rfl) (ht h)
    | bindService caller token intent connection flags =>
      refine wp_mono_ok (Q := fun _ => BindInv as none none) (E := fun _ _ => True) ?_
        (fun _ t ht => published_skip (fun _ _ => rfl) ht)
      simp only [step, request, wp_bind]
      refine wp_interfaceCast fun p n _ => wp_interfaceCast fun q m _ => ?_
      cases intent with
      | none => trivial
      | some intent =>
        exact bindServiceLocked_bind w (allowsProxies_bind as none none s m h) p token intent q
          flags
    | publishService token intent service =>
      simp only [step, request, wp_bind, wp_pure]
      cases intent with
      | some intent => exact publishServiceLocked_bind h token hp
      | none =>
        cases token with
        | none => exact published_skip (fun _ _ => rfl) h
        | some obj => cases obj <;> trivial
    | startActivity => cases ha
    | startService => cases ha
    | registerReceiver => cases ha
    | broadcastIntent => cases ha

theorem reached_bind (w : World) (as : List Action) {s : State} (hs : Reached w as s)
    (ha : ∀ a ∈ as, a.isBinding) (hp : PublishesWhenAsked w as) : BindInv as none none s := by
  induction as using List.reverseRecOn generalizing s with
  | nil =>
    cases hs
    exact .init w
  | append_singleton as a ih =>
    obtain ⟨t, ht, hstep⟩ := run_append_ok.mp hs
    have hinv : BindInv as none none t := by
      refine ih ht (fun b hb => ha b (List.mem_append_left _ hb)) fun n hn => ?_
      have := hp n (by rw [List.length_append]; omega)
      rwa [List.take_append_of_le_length (Nat.le_of_lt hn), List.getElem_append_left hn] at this
    have hlast : MayPublish as t a := by
      have := hp as.length (by simp)
      rw [List.take_left, List.getElem_concat_length rfl] at this
      rwa [show run (step w) as (init w) = .ok ⟨⟩ t from ht] at this
    obtain ⟨u, hu, hnil⟩ := run_cons_ok.mp hstep
    cases hnil
    have := step_bind w hinv (ha a (by simp)) hlast
    unfold wp at this
    rwa [hu] at this

/-- **Connected once.** A connection hears once of the binder that its service has
published for its intent, and of nothing before that; no binding is asked for twice. -/
theorem connected_once (w : World) (as : List Action) (s : State) (hs : Reached w as s)
    (ha : ∀ a ∈ as, a.isBinding) (hp : PublishesWhenAsked w as) :
    (∀ c, s.connections.Live c →
      let k := s.connections.get c
      let binders := published as (some (.service k.mService)) k.mAction
      binders.length ≤ 1 ∧ s.log.filter (reports c) = binders.map (s.report c)) ∧
    ∀ token action, asked s.log token action ≤ 1 := by
  have h := reached_bind w as hs ha hp
  refine ⟨fun c hc => ?_, fun token action => ?_⟩
  · obtain ⟨hlive, haction, -⟩ := h.connection c hc
    obtain ⟨i, hi⟩ := h.service _ hlive
    have hpub := hi.published.trans hi.publishedBinder.symm
    refine ⟨?_, ?_⟩
    · rw [haction, hi.published]
      split <;> simp
    · rw [haction, hpub, h.told c hc]
      rfl
  · by_cases htoken : ∃ r, s.services.Live r ∧ token = some (.service r)
    · obtain ⟨r, hr, rfl⟩ := htoken
      obtain ⟨i, hi⟩ := h.service r hr
      by_cases haction : action = s.action r
      · rw [haction, hi.asked]
        exact Bool.toNat_le _
      · rw [(hi.other action haction).1]
        exact Nat.zero_le 1
    · rw [(h.stranger token action fun r hr e => htoken ⟨r, hr, e⟩).1]
      exact Nat.zero_le 1

/-- One service, whose process gets the pid 1. -/
def oneService : World where
  pm := ⟨[], [⟨[1], [2], [3], [], []⟩], [], filtered_nil⟩
  zygote _ := ⟨0, 1⟩
  before _ _ := false
  indeterminate _ := 0

/-- The service is bound before it has started and after it has published. -/
def bindTwice : List Action :=
  [.request 0 (.bindService none none (some (.ofAction [3])) (some (.proxy 5)) 0),
    .request 1 (.attachApplication (some (.proxy 1))),
    .request 1 (.publishService (some (.service ⟨0⟩)) (some (.ofAction [3])) (some (.proxy 9))),
    .request 0 (.bindService none none (some (.ofAction [3])) (some (.proxy 6)) 0)]

theorem connected_once_bindTwice :
    let s := final (run (step oneService) bindTwice (init oneService))
    (∀ c, s.connections.Live c →
      let k := s.connections.get c
      let binders := published bindTwice (some (.service k.mService)) k.mAction
      binders.length ≤ 1 ∧ s.log.filter (reports c) = binders.map (s.report c)) ∧
    ∀ token action, asked s.log token action ≤ 1 :=
  connected_once oneService bindTwice _ (eq_ok_final (by decide +kernel)) (by decide +kernel)
    (by unfold PublishesWhenAsked; decide +kernel)

end Cdroid.Service
