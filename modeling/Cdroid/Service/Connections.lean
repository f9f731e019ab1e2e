import Cdroid.Service.Token

/-! The connections of a service. `bindServiceLocked` looks for the list of the connection's
binder, and has a list to append to only if it has made one. -/

namespace Cdroid.Service
open Cdroid.Lib.Comp Cdroid.Lib.Containers Cdroid.Runtime

/-! ## Accepted binds -/

/-- A bind to a service that there is. -/
structure Bind where
  service : ServiceRef
  binder : Option IBinder
  action : String8
  flags : BitVec 32

/-- The connection record is the one that the bind asks for. -/
structure Bind.Made (b : Bind) (c : ConnectionRecord) : Prop where
  service : c.mService = b.service
  binder : asBinder c.mConnection = b.binder
  action : c.mAction = b.action
  flags : c.mFlags = b.flags

namespace State

/-- The service record for an intent, or the one that is made for it. -/
def serviceFor (s : State) (w : World) (intent : Intent) : Option ServiceRef :=
  match s.retrieveServiceLocked intent with
  | some r => some r
  | none => (w.pm.resolveServiceInfo intent.mAction).map fun _ => s.services.fresh

/-- The bind that a step comes to, unless its token is misread. -/
def binds (w : World) (s : State) : Action → List Bind
  | .request _ (.bindService _ token (some intent) connection flags) =>
    if token.all IBinder.isActivityToken then
      (s.serviceFor w intent).toList.map fun r => ⟨r, connection, intent.mAction, flags⟩
    else []
  | _ => []

/-- The list that the service keeps for the binder. -/
def clist (s : State) (r : ServiceRef) (binder : Option IBinder) : List ConnectionRef :=
  ((s.services.get r).mConnections.find binder).getD []

end State

/-- The records of the binds with this service and binder, in the order of the binds. -/
def connectionsFor (bs : List Bind) (r : ServiceRef) (binder : Option IBinder) :
    List ConnectionRef :=
  (bs.zipIdx.filter fun b => b.1.service = r ∧ b.1.binder = binder).map fun b => ⟨b.2⟩

/-- Every bind has made a record, and the lists hold the records of their binders' binds. -/
structure State.ListsKept (s : State) (bs : List Bind) : Prop where
  made : ∀ n (b : Bind), bs[n]? = some b → b.Made (s.connections.get ⟨n⟩)
  lists : ∀ r binder, s.clist r binder = connectionsFor bs r binder

/-- No bind comes with a binder that the service keeps a list for. -/
def State.ListFree (w : World) (s : State) (a : Action) : Prop :=
  ∀ b ∈ s.binds w a, (s.services.get b.service).mConnections.find b.binder = none

instance (w : World) (s : State) (a : Action) : Decidable (s.ListFree w a) := by
  unfold State.ListFree
  infer_instance

/-! ## What leaves the connections alone -/

/-- The service records that are listed have been made, and the others are empty. -/
structure State.ServicesMade (s : State) : Prop where
  listed : ∀ r ∈ s.mServices, s.services.Live r
  empty : ∀ r, ¬ s.services.Live r → (s.services.get r).mConnections = []

/-- The connections are the same, and no service record is gone. -/
structure State.SameConnections (s t : State) : Prop where
  made : t.ServicesMade
  live : ∀ r, s.services.Live r → t.services.Live r
  connections : t.connections = s.connections
  lists : ∀ r, (t.services.get r).mConnections = (s.services.get r).mConnections

def connectionFrame : Frame State where
  rel s t := s.ServicesMade → s.SameConnections t
  refl _ h := ⟨h, fun _ hr => hr, rfl, fun _ => rfl⟩
  trans h h' hs :=
    have ht := h hs
    have hu := h' ht.made
    ⟨hu.made, fun r hr => hu.live r (ht.live r hr), hu.connections.trans ht.connections,
      fun r => (hu.lists r).trans (ht.lists r)⟩

theorem connectionFrame_same {s t : State} (hs : t.services = s.services)
    (hm : t.mServices = s.mServices) (hc : t.connections = s.connections) :
    connectionFrame.rel s t := by
  intro h
  refine ⟨⟨?_, ?_⟩, ?_, hc, fun r => by rw [hs]⟩
  · rw [hs, hm]
    exact h.listed
  · rw [hs]
    exact h.empty
  · rw [hs]
    exact fun _ hr => hr

theorem allowsServices_connection : AllowsServices connectionFrame where
  emit _ _ _ _ := connectionFrame_same rfl rfl rfl
  record s r f hf h := by
    have hlists : ∀ q, ((s.services.update r f).get q).mConnections =
        (s.services.get q).mConnections := by
      intro q
      rw [Store.get_update]
      split
      · exact (hf _).connections
      · rfl
    exact ⟨⟨h.listed, fun q hq => (hlists q).trans (h.empty q hq)⟩, fun _ hq => hq, rfl, hlists⟩

section
variable (w : World)

theorem keeps_startProcessLocked_connection (name : String8) :
    Keeps connectionFrame (startProcessLocked w name) :=
  keeps_startProcessLocked w ⟨⟨fun _ _ _ _ => connectionFrame_same rfl rfl rfl⟩,
    fun _ _ _ _ => connectionFrame_same rfl rfl rfl⟩ name

omit w in
theorem allowsNull_connection : AllowsNull connectionFrame :=
  fun _ _ _ => connectionFrame_same rfl rfl rfl

/-- A record is listed once it has been made. -/
theorem startServiceRecordLocked_connection {s : State} {r : ServiceRef} (hs : s.ServicesMade)
    (hr : s.services.Live r) :
    wp (startServiceRecordLocked w r) (fun _ t => s.SameConnections t)
      (fun _ t => s.SameConnections t) s := by
  refine wp_startServiceRecordLocked w fun t ht => ?_
  have hsame : s.SameConnections t := by
    rcases ht with ⟨-, rfl⟩ | ⟨-, rfl⟩
    · refine ⟨⟨fun q hq => ?_, hs.empty⟩, fun _ hq => hq, rfl, fun _ => rfl⟩
      rcases List.mem_append.mp hq with hq | hq
      · exact hs.listed q hq
      · rw [List.mem_singleton.mp hq]
        exact hr
    · exact connectionFrame.refl _ hs
  have hkeeps : ∀ app, Keeps connectionFrame
      (startInProcess w r (s.services.get r).mServiceInfo.mApplicationName app) := by
    intro app
    cases app with
    | none => exact .bind (keeps_startProcessLocked_connection w _) fun _ => .pure _
    | some app =>
      exact keeps_realStartServiceLocked w allowsServices_connection allowsNull_connection _ _
  have htrans : ∀ u, connectionFrame.rel t u → s.SameConnections u := fun u hu =>
    connectionFrame.trans (fun _ => hsame) hu hs
  exact wp_mono ((hkeeps _).wp t) (fun _ => htrans) fun _ => htrans

omit w in
theorem keeps_of_sameConnections {α : Type} {x : AM α}
    (h : ∀ s : State, s.ServicesMade →
      wp x (fun _ t => s.SameConnections t) (fun _ t => s.SameConnections t) s) :
    Keeps connectionFrame x := fun s hs => wp_final (h s hs)

omit w in
/-- A new service record has no connections. -/
theorem State.ServicesMade.create {s : State} (h : s.ServicesMade) {sr : ServiceRecord}
    (hsr : sr.mConnections = []) :
    s.SameConnections { s with services := s.services.alloc sr } := by
  have hlists : ∀ q, ((s.services.alloc sr).get q).mConnections =
      (s.services.get q).mConnections := by
    intro q
    rw [Store.get_alloc]
    split
    · next hq =>
      rw [hsr, hq]
      exact (h.empty _ fun hlive => hlive.ne_fresh rfl).symm
    · rfl
  refine ⟨⟨fun q hq => (h.listed q hq).alloc sr, fun q hq => ?_⟩, fun q hq => hq.alloc sr, rfl,
    hlists⟩
  exact (hlists q).trans (h.empty q fun hlive => hq (hlive.alloc sr))

theorem keeps_startServiceLocked_connection (caller : Option InterfacePtr) (intent : Intent) :
    Keeps connectionFrame (startServiceLocked w caller intent) := by
  refine keeps_of_sameConnections fun s hs => ?_
  have hrefl := connectionFrame.refl s hs
  simp only [startServiceLocked, wp_bind, wp_get]
  split
  · exact hrefl
  · split
    · exact hrefl
    · next si _ _ _ =>
      simp only [newServiceRecord, wp_bind, wp_get, wp_modify, wp_pure]
      let sr : ServiceRecord :=
        ⟨intent, if caller = none then none else s.getRecordForAppLocked caller, none, si, [], []⟩
      have hmade : s.SameConnections { s with services := s.services.alloc sr } := hs.create rfl
      have hstart := startServiceRecordLocked_connection w hmade.made
        (Store.live_fresh_alloc s.services _)
      have htrans : ∀ t, State.SameConnections _ t → s.SameConnections t := fun t ht =>
        connectionFrame.trans (fun _ => hmade) (fun _ => ht) hs
      exact wp_mono hstart (fun _ => htrans) fun _ => htrans

/-- Only a bind makes connections. -/
theorem keeps_step_connection (a : Action)
    (hbind : ∀ pid caller token intent connection flags,
      a ≠ .request pid (.bindService caller token intent connection flags)) :
    Keeps connectionFrame (step w a) := by
  have same : ∀ s t : State, t.services = s.services → t.mServices = s.mServices →
      t.connections = s.connections → connectionFrame.rel s t := fun _ _ => connectionFrame_same
  have hev : ∀ part, AllowsEvents connectionFrame part :=
    fun _ => ⟨fun s _ _ _ => same s _ rfl rfl rfl⟩
  have hx : AllowsCasts connectionFrame := fun s => same s _ rfl rfl rfl
  have hn := allowsNull_connection
  have hp := keeps_startProcessLocked_connection w
  have hA : AllowsActivities connectionFrame :=
    ⟨hev _, fun s _ _ _ => same s _ rfl rfl rfl, fun s _ _ => same s _ rfl rfl rfl,
      fun s _ => same s _ rfl rfl rfl⟩
  have hQ : AllowsQueue connectionFrame :=
    ⟨⟨⟨hev _, fun s _ _ _ _ => same s _ rfl rfl rfl, fun s _ _ _ _ => same s _ rfl rfl rfl⟩,
      fun s _ _ _ => same s _ rfl rfl rfl, fun s _ => same s _ rfl rfl rfl⟩,
      fun s _ => same s _ rfl rfl rfl, fun s _ => same s _ rfl rfl rfl⟩
  have hP : AllowsProcesses connectionFrame := ⟨hev _, fun s _ _ _ => same s _ rfl rfl rfl⟩
  cases a with
  | handleMessage => exact keeps_handleMessage w hQ.handling hn hp hQ.enqueue
  | request pid call =>
    apply keeps_requestLeft w hx hn hp hA allowsServices_connection
    · exact fun appThread _ => keeps_attachApplicationLocked w hx hn hP hA
        (keeps_attachServiceLocked w allowsServices_connection hn) hQ.signal appThread pid
    · exact fun _ _ _ _ _ => keeps_startServiceLocked_connection w _ _
    · rintro caller token intent connection flags rfl
      exact absurd rfl (hbind _ _ _ _ _ _)
    · exact fun _ _ _ _ _ _ => keeps_registerReceiverLocked w hQ.toAllowsReceivers hn _ _ _
    · exact fun _ _ _ _ _ _ _ _ => keeps_broadcastIntentLocked w hQ.signal hn
        (keeps_enqueueBroadcast hQ.enqueue) _ _ _ _ _

/-! ## Binds -/

variable {bs : List Bind} {s t : State}

/-- The invariant after the binds `bs`: the n-th one has made the n-th record. -/
structure ConnectionInv (bs : List Bind) (s : State) : Prop extends State.ListsKept s bs where
  services : s.ServicesMade
  next : s.connections.next = bs.length

omit w in
theorem ConnectionInv.keep (h : ConnectionInv bs s) (hsame : s.SameConnections t) :
    ConnectionInv bs t := by
  refine ⟨⟨?_, fun r binder => ?_⟩, hsame.made, ?_⟩
  · rw [hsame.connections]
    exact h.made
  · rw [State.clist, hsame.lists]
    exact h.lists r binder
  · rw [hsame.connections]
    exact h.next

theorem ConnectionInv.init : ConnectionInv [] (init w) where
  made _ _ h := by cases h
  lists _ _ := rfl
  services := ⟨nofun, fun _ _ => rfl⟩
  next := rfl

omit w in
theorem connectionsFor_append (b : Bind) (r : ServiceRef) (binder : Option IBinder) :
    connectionsFor (bs ++ [b]) r binder = connectionsFor bs r binder ++
      if b.service = r ∧ b.binder = binder then [⟨bs.length⟩] else [] := by
  unfold connectionsFor
  rw [List.zipIdx_append, List.filter_append, List.map_append]
  congr 1
  rw [Nat.zero_add, List.zipIdx_singleton]
  by_cases h : b.service = r ∧ b.binder = binder <;> simp [h]

omit w in
/-- A record that is entered in a new list is that of a further bind. -/
theorem ConnectionInv.connect (h : ConnectionInv bs s) {b : Bind}
    (hfree : (s.services.get b.service).mConnections.find b.binder = none)
    (before : Option IBinder → Option IBinder → Bool) {c : ConnectionRecord} (hc : b.Made c)
    (hlive : s.services.Live b.service) :
    ConnectionInv (bs ++ [b]) { s with
      connections := s.connections.alloc c
      services := s.services.update b.service fun sr => { sr with
        mConnections := sr.mConnections.insert before b.binder [s.connections.fresh] } } := by
  have hget : ∀ r, ((s.services.update b.service fun sr => { sr with
      mConnections := sr.mConnections.insert before b.binder [s.connections.fresh] }).get
        r).mConnections = if r = b.service then
          (s.services.get r).mConnections.insert before b.binder [s.connections.fresh]
        else (s.services.get r).mConnections := by
    intro r
    rw [Store.get_update]
    split <;> rfl
  have hfresh : s.connections.fresh = ⟨bs.length⟩ := by rw [Store.fresh, h.next]
  refine ⟨⟨fun n d hd => ?_, fun r binder => ?_⟩, ⟨h.services.listed, fun r hr => ?_⟩, ?_⟩
  · rw [Store.get_alloc, hfresh]
    rcases Nat.lt_trichotomy n bs.length with hn | rfl | hn
    · rw [List.getElem?_append_left hn] at hd
      rw [if_neg fun e => Nat.ne_of_lt hn (congrArg Ref.idx e)]
      exact h.made n d hd
    · rw [List.getElem?_append_right (Nat.le_refl _), Nat.sub_self] at hd
      cases hd
      rw [if_pos rfl]
      exact hc
    · rw [List.getElem?_append_right (Nat.le_of_lt hn),
        List.getElem?_eq_none (by simp only [List.length_singleton]; omega)] at hd
      cases hd
  · rw [State.clist, hget, connectionsFor_append, ← h.lists r binder, State.clist]
    by_cases hr : r = b.service
    · subst hr
      rw [if_pos rfl, OrdMap.find_insert hfree]
      by_cases hbinder : b.binder = binder
      · subst hbinder
        rw [if_pos rfl, if_pos ⟨rfl, rfl⟩, hfree, hfresh]
        rfl
      · rw [if_neg hbinder, if_neg fun e => hbinder e.2, List.append_nil]
    · rw [if_neg hr, if_neg fun e => hr e.1.symm, List.append_nil]
  · rw [hget, if_neg fun e => hr (by rw [e]; exact hlive)]
    exact h.services.empty r hr
  · rw [List.length_append]
    exact congrArg (· + 1) h.next

theorem serviceForBind_connection (hs : s.ServicesMade) (caller : Option InterfacePtr)
    (intent : Intent) :
    wp (serviceForBind w caller intent) (fun r t => r = s.serviceFor w intent ∧
      s.SameConnections t ∧ ∀ q ∈ r, t.services.Live q) (fun _ _ => False) s := by
  simp only [serviceForBind, wp_bind, wp_get, State.serviceFor]
  cases hr : s.retrieveServiceLocked intent with
  | some r =>
    have hlive := hs.listed r (List.mem_of_find?_eq_some hr)
    exact ⟨rfl, connectionFrame.refl s hs, by rintro _ ⟨⟩; exact hlive⟩
  | none =>
    cases hsi : w.pm.resolveServiceInfo intent.mAction with
    | none => exact ⟨rfl, connectionFrame.refl s hs, fun q hq => by cases hq⟩
    | some si =>
      simp only [newServiceRecord, wp_bind, wp_get, wp_modify, wp_pure]
      refine ⟨rfl, hs.create rfl, ?_⟩
      rintro _ ⟨⟩
      exact Store.live_fresh_alloc _ _

omit w in
theorem getActivityRecordByToken_connection (hs : s.ServicesMade) (token : Option IBinder) :
    wp (getActivityRecordByToken token)
      (fun _ t => token.all IBinder.isActivityToken = true ∧ s.SameConnections t)
      (fun e _ => token.all IBinder.isActivityToken ≠ true ∧ e = .typeConfusion) s := by
  have hkeeps := (keeps_getActivityRecordByToken (F := connectionFrame)
    (fun _ => connectionFrame_same rfl rfl rfl) token).wp s
  by_cases htoken : token.all IBinder.isActivityToken = true
  · have hraises := raises_getActivityRecordByToken_token (P := fun _ => False) (b := token)
      (by simpa [Option.all_eq_true] using htoken)
    exact wp_mono (wp_and hkeeps (hraises s)) (fun _ t ht => ⟨htoken, ht.1 hs⟩)
      fun _ _ he => he.2.elim
  · cases token with
    | none => cases htoken rfl
    | some obj =>
      unfold wp
      rw [getActivityRecordByToken_other htoken]
      exact ⟨htoken, rfl⟩

/-- The rest of a bind, once the connection has been entered. -/
theorem startBound_connection (h : ConnectionInv bs s) {r : ServiceRef} (hr : s.services.Live r)
    (action : String8) (c : ConnectionRef) :
    wp (do
        let _ ← startServiceRecordLocked w r
        let s ← get
        let sr := s.services.get r
        match sr.mApp, sr.mBindings.find action with
        | some _, some i => when i.received (callConnected c ⟨sr.mServiceInfo.mName⟩ i.binder)
        | _, _ => pure ⟨⟩)
      (fun _ => ConnectionInv bs) (fun e _ => e ≠ .nullList) s := by
  have hP : AllowsNullPointers fun e => e ≠ .nullList := ⟨nofun, nofun, nofun⟩
  simp only [wp_bind, wp_get]
  have hstart := wp_and (startServiceRecordLocked_connection w h.services hr)
    (raises_startServiceRecordLocked w hP r s)
  refine wp_mono hstart ?_ fun _ _ he => he.2
  rintro _ t ⟨ht, -⟩
  have hkept := h.keep ht
  split
  · next i _ _ =>
    refine wp_when (fun _ => ?_) fun _ => hkept
    have hcall := wp_and
      ((keeps_callConnected allowsServices_connection c ⟨(t.services.get r).mServiceInfo.mName⟩
        i.binder).wp t)
      (raises_callConnected hP c ⟨(t.services.get r).mServiceInfo.mName⟩ i.binder t)
    exact wp_mono hcall (fun _ u hu => hkept.keep (hu.1 hkept.services)) fun _ _ he => he.2
  · exact hkept

/-- A bind makes one more record, or finds the list that it takes to be null. -/
theorem bindServiceLocked_connection (h : ConnectionInv bs s) (caller : Option InterfacePtr)
    (token : Option IBinder) (intent : Intent) (connection : Option InterfacePtr)
    (flags : BitVec 32) :
    let new : List Bind := if token.all IBinder.isActivityToken then
      (s.serviceFor w intent).toList.map fun r => ⟨r, asBinder connection, intent.mAction, flags⟩
      else []
    let free := ∀ b ∈ new, (s.services.get b.service).mConnections.find b.binder = none
    wp (bindServiceLocked w caller token intent connection flags)
      (fun _ t => free ∧ ConnectionInv (bs ++ new) t) (fun e _ => e = .nullList ↔ ¬ free) s := by
  intro new free
  have hempty : new = [] → free := fun hnew b hb => by
    rw [hnew] at hb
    cases hb
  simp only [bindServiceLocked, wp_bind, wp_get]
  generalize (if caller = none then none else s.getRecordForAppLocked caller) = callerApp
  refine wp_mono (serviceForBind_connection w h.services caller intent) ?_ fun _ _ he => he.elim
  rintro found t ⟨hfound, ht, hlive⟩
  cases found with
  | none =>
    have hnew : new = [] := by
      simp only [new, ← hfound]
      split <;> rfl
    rw [wp_pure, hnew, List.append_nil]
    exact ⟨hempty hnew, h.keep ht⟩
  | some r =>
    simp only [wp_bind]
    refine wp_mono (getActivityRecordByToken_connection ht.made token) ?_ ?_
    · rintro activity u ⟨htoken, hu⟩
      have hnew : new = [⟨r, asBinder connection, intent.mAction, flags⟩] := by
        simp only [new, if_pos htoken, ← hfound]
        rfl
      simp only [modifyService, wp_modify, addConnection, wp_bind, wp_get]
      let v : State := { u with services := u.services.update r fun sr =>
        sr.retrieveAppBindingLocked intent callerApp }
      have hv : s.SameConnections v := connectionFrame.trans (fun _ => ht)
        (connectionFrame.trans (fun _ => hu)
          (allowsServices_connection.record u r _ fun _ => ⟨rfl, rfl⟩)) h.services
      have hfree : free ↔ (v.services.get r).mConnections.find (asBinder connection) = none := by
        rw [hv.lists]
        simp only [free, hnew, List.forall_mem_singleton]
      split
      · next l hl =>
        refine iff_of_true rfl fun hall => ?_
        rw [show (v.services.get r).mConnections.find (asBinder connection) = some l from hl]
          at hfree
        cases hfree.mp hall
      · next hnone =>
        have hlive' : v.services.Live r := hu.live r (hlive r rfl)
        let b : Bind := ⟨r, asBinder connection, intent.mAction, flags⟩
        have hconn := (h.keep hv).connect (b := b) hnone w.before
          (c := ⟨r, intent.mAction, callerApp, activity, connection, flags⟩) ⟨rfl, rfl, rfl, rfl⟩
          hlive'
        have hholds : free := hfree.mpr hnone
        rw [wp_modify, hnew]
        have hrest := startBound_connection w hconn hlive' intent.mAction u.connections.fresh
        simp only [wp_bind, wp_get] at hrest
        have hfault : ∀ (e : Fault) (_ : State), e ≠ .nullList → (e = .nullList ↔ ¬ free) :=
          fun e _ he => iff_of_false he fun hnot => hnot hholds
        exact wp_mono hrest (fun _ x hx => wp_mono hx (fun _ y hy => ⟨hholds, hy⟩) hfault) hfault
    · rintro _ u ⟨htoken, rfl⟩
      exact iff_of_false (fun he => by cases he) fun hfree => hfree (hempty (if_neg htoken))

/-! ## Runs -/

theorem step_connection (h : ConnectionInv bs s) (a : Action) :
    wp (step w a) (fun _ t => s.ListFree w a ∧ ConnectionInv (bs ++ s.binds w a) t)
      (fun e _ => e = .nullList ↔ ¬ s.ListFree w a) s := by
  by_cases hbind : ∃ pid caller token intent connection flags,
      a = .request pid (.bindService caller token intent connection flags)
  · obtain ⟨pid, caller, token, intent, connection, flags, rfl⟩ := hbind
    simp only [step, request, wp_bind]
    refine wp_interfaceCast fun p m _ => wp_interfaceCast fun q n hq => ?_
    cases intent with
    | none =>
      have hfree : s.ListFree w (.request pid (.bindService caller token none connection flags)) :=
        fun b hb => by cases hb
      exact iff_of_false (fun he => by cases he) fun hnot => hnot hfree
    | some intent =>
      have hcast := h.keep (connectionFrame_same (t := { s with proxies := n }) rfl rfl rfl
        h.services)
      have hspec := bindServiceLocked_connection w hcast p token intent q flags
      rw [hq] at hspec
      exact hspec
  · have hnone : s.binds w a = [] := by
      cases a with
      | handleMessage => rfl
      | request pid call =>
        cases call with
        | bindService caller token intent connection flags =>
          exact absurd ⟨_, _, _, _, _, _, rfl⟩ hbind
        | _ => rfl
    have hfree : s.ListFree w a := by
      unfold State.ListFree
      rw [hnone]
      intro b hb
      cases hb
    have hother : ∀ pid caller token intent connection flags,
        a ≠ .request pid (.bindService caller token intent connection flags) :=
      fun _ _ _ _ _ _ e => hbind ⟨_, _, _, _, _, _, e⟩
    rw [hnone, List.append_nil]
    have hstep := wp_and ((keeps_step_connection w a hother).wp s)
      (raises_step w (P := fun e => e ≠ .nullList) ⟨by simp, by simp, by simp⟩ (by simp) a hother s)
    refine wp_mono hstep (fun _ t ht => ⟨hfree, h.keep (ht.1 h.services)⟩) fun e _ he => ?_
    exact iff_of_false he.2 fun hnot => hnot hfree

/-- The run `as` uses no null list, and has kept the lists if it comes to an end. -/
def ConnectionsKept (as : List Action) : Prop :=
  (∀ t, run (step w) as (init w) ≠ .error .nullList t) ∧
    ∀ t, run (step w) as (init w) = .ok ⟨⟩ t →
      t.ListsKept (trail (State.binds w) (step w) as (init w))

/-- **Connection lists.** They are kept in exactly the runs in which no bind comes with a
binder that its service has a list for. -/
theorem connections_kept_iff (as : List Action) :
    ConnectionsKept w as ↔ Along (State.ListFree w) (step w) as (init w) := by
  have hspares := run_spares_iff (State.binds w) (P := State.ListFree w) (I := ConnectionInv)
    (fun _ _ a hs => step_connection w hs a) as (ConnectionInv.init w)
  constructor
  · exact fun h => hspares.mp h.1
  · intro hall
    refine ⟨hspares.mpr hall, fun t ht => ?_⟩
    have hrun : wp (run (step w) as)
        (fun _ => ConnectionInv ([] ++ trail (State.binds w) (step w) as (init w)))
        (fun _ _ => True) (init w) :=
      wp_run_trail (State.binds w) (P := fun _ _ => True) (I := ConnectionInv)
        (J := fun _ _ _ => True) (fun _ _ a hs _ => wp_mono_ok (step_connection w hs a)
          fun _ _ hu => hu.2) as (ConnectionInv.init w) (along_true _ _)
    exact (wp_ok hrun ht).toListsKept

end

/-- A service is started, its process attaches, and it is bound to twice with one binder. -/
def bindAgain : List Action :=
  let bind : Action :=
    .request 1 (.bindService (some (.proxy 1)) none (some (.ofAction [3])) (some (.proxy 2)) 0)
  [bind, .request 1 (.attachApplication (some (.proxy 1))), bind]

/-- The second bind uses the list that it has not taken from the map. -/
theorem connections_not_kept : ¬ ∀ (w : World) (as : List Action), ConnectionsKept w as := by
  intro h
  have hrun := (h tokenWorld bindAgain).1
  have hfault : ∃ t, run (step tokenWorld) bindAgain (init tokenWorld) = .error .nullList t :=
    ⟨_, rfl⟩
  obtain ⟨t, ht⟩ := hfault
  exact hrun t ht

end Cdroid.Service
