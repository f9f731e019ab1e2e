import Cdroid.Service.Registry
import Cdroid.Service.NullThread
import Mathlib.Data.List.Find

/-! Broadcasts to registered receivers. The filters that match are picked when the
broadcast is accepted, and hear of it when the queue is processed. What has been
heard and what is still queued together are what the accepted broadcasts call for,
in their order, as long as nothing takes the queue down. -/

namespace Cdroid.Service
open Cdroid.Lib.Comp Cdroid.Lib.Containers Cdroid.Runtime

/-! ## What a run calls for -/

/-- What the receivers' part has taken on. -/
inductive Entry
  | registered (r : Registration)
  | accepted (intent : Option Intent) (map : Option Bundle) (sticky : Bool)

/-- The broadcast that a step has it take on: none from an unknown caller, and serialized
ones go another way. -/
def State.accepts (s : State) : Action → List Entry
  | .request _ (.broadcastIntent caller intent _ map false sticky) =>
    if s.processOf caller = none then [] else [.accepted intent map sticky]
  | _ => []

def State.entries (s : State) (a : Action) : List Entry :=
  (s.registers a).map Entry.registered ++ s.accepts a

def Entry.registration : Entry → Option Registration
  | .registered r => some r
  | .accepted .. => none

def registrations (es : List Entry) : List Registration := es.filterMap Entry.registration

/-- The calls that one broadcast makes, after these registrations. -/
def hearings (rs : List Registration) (intent : Option Intent) (map : Option Bundle)
    (sticky : Bool) : List Event :=
  (refs rs fun r => intent.any r.filter.matchIntent).map fun bf =>
    .performReceive bf (.performReceive intent map false sticky)

/-- For each accepted broadcast in turn, the filters that were registered before it and
match its action. -/
def expectedAfter (rs : List Registration) : List Entry → List Event
  | [] => []
  | .registered r :: es => expectedAfter (rs ++ [r]) es
  | .accepted intent map sticky :: es => hearings rs intent map sticky ++ expectedAfter rs es

def expectedHearings (es : List Entry) : List Event := expectedAfter [] es

theorem expectedAfter_append (rs : List Registration) (es es' : List Entry) :
    expectedAfter rs (es ++ es') =
      expectedAfter rs es ++ expectedAfter (rs ++ registrations es) es' := by
  induction es generalizing rs with
  | nil => simp [expectedAfter, registrations]
  | cons e es ih =>
    cases e with
    | registered r =>
      simp only [List.cons_append, expectedAfter, ih]
      simp [registrations, Entry.registration]
    | accepted intent map sticky =>
      simp only [List.cons_append, expectedAfter, ih, List.append_assoc]
      rfl

theorem expectedHearings_append (es es' : List Entry) :
    expectedHearings (es ++ es') = expectedHearings es ++ expectedAfter (registrations es) es' := by
  simp [expectedHearings, expectedAfter_append]

theorem registrations_append (es es' : List Entry) :
    registrations (es ++ es') = registrations es ++ registrations es' :=
  List.filterMap_append

/-! ## What has been heard and what is queued -/

def Event.isHearing : Event → Bool
  | .performReceive .. => true
  | _ => false

def heard (log : List Event) : List Event := log.filter Event.isHearing

theorem heard_append (l l' : List Event) : heard (l ++ l') = heard l ++ heard l' :=
  List.filter_append ..

/-- The calls that are left to make for a record. -/
def State.hearingsOf (s : State) (r : BroadcastRef) : List Event :=
  let b := s.broadcasts.get r
  b.mBroadcastFilter.map fun bf =>
    .performReceive bf (.performReceive b.mIntent b.mMap false b.mSticky)

def State.stillToHear (s : State) : List Event := s.mParallelBroadcasts.flatMap s.hearingsOf

/-- Nothing is lost, doubled or out of order, and a message is on its way as long as
something is queued. -/
structure HearingInv (es : List Entry) (s : State) : Prop where
  registry : RegistryInv (registrations es) s
  calls : heard s.log ++ s.stillToHear = expectedHearings es
  awake : s.messages = 0 → s.mParallelBroadcasts = []

theorem HearingInv.init (w : World) : HearingInv [] (init w) := ⟨.init w, rfl, fun _ => rfl⟩

theorem HearingInv.same {es : List Entry} {s t : State} (h : HearingInv es s)
    (hr : SameRegistry s t) (hl : heard t.log = heard s.log)
    (hq : t.mParallelBroadcasts = s.mParallelBroadcasts) (hb : t.hearingsOf = s.hearingsOf)
    (hm : t.messages = s.messages) : HearingInv es t := by
  refine ⟨h.registry.same hr, ?_, ?_⟩
  · unfold State.stillToHear
    rw [hl, hq, hb]
    exact h.calls
  · rw [hm, hq]
    exact h.awake

theorem HearingInv.emit {es : List Entry} {s : State} {e : Event} (h : HearingInv es s)
    (he : e.isHearing = false) : HearingInv es { s with log := s.log ++ [e] } := by
  have hlog : heard (s.log ++ [e]) = heard s.log := by
    rw [heard_append]
    simp [heard, he]
  exact h.same ⟨rfl, rfl, rfl, rfl⟩ hlog rfl rfl rfl

/-! ## The other parts -/

abbrev hearingFrame (es : List Entry) : Frame State := .invariant (HearingInv es)

theorem isHearing_of_part {e : Event} (he : e.part ≠ .receiver) : e.isHearing = false := by
  unfold Event.isHearing
  split
  · exact absurd rfl he
  · rfl

section
variable (es : List Entry)

theorem allowsNull_hearing : AllowsNull (hearingFrame es) := fun _ _ _ h => h.emit rfl

theorem allowsCasts_hearing : AllowsCasts (hearingFrame es) :=
  fun _ h => h.same ⟨rfl, rfl, rfl, rfl⟩ rfl rfl rfl rfl

theorem allowsProcesses_hearing : AllowsProcesses (hearingFrame es) where
  emit _ e he _ h := h.emit (isHearing_of_part (by rw [he]; decide))
  own _ _ _ _ h := h.same ⟨rfl, rfl, rfl, rfl⟩ rfl rfl rfl rfl

theorem allowsActivities_hearing : AllowsActivities (hearingFrame es) where
  emit _ e he _ h := h.emit (isHearing_of_part (by rw [he]; decide))
  record _ _ _ _ h := h.same ⟨rfl, rfl, rfl, rfl⟩ rfl rfl rfl rfl
  new _ _ _ h := h.same ⟨rfl, rfl, rfl, rfl⟩ rfl rfl rfl rfl
  history _ _ h := h.same ⟨rfl, rfl, rfl, rfl⟩ rfl rfl rfl rfl

theorem allowsBinding_hearing : AllowsBinding (hearingFrame es) where
  emit _ e he _ h := h.emit (isHearing_of_part (by rw [he]; decide))
  record _ _ _ _ h := h.same ⟨rfl, rfl, rfl, rfl⟩ rfl rfl rfl rfl
  new _ _ _ h := h.same ⟨rfl, rfl, rfl, rfl⟩ rfl rfl rfl rfl
  list _ _ h := h.same ⟨rfl, rfl, rfl, rfl⟩ rfl rfl rfl rfl
  lists _ _ _ _ h := h.same ⟨rfl, rfl, rfl, rfl⟩ rfl rfl rfl rfl
  connection _ _ h := h.same ⟨rfl, rfl, rfl, rfl⟩ rfl rfl rfl rfl

theorem keeps_attachApplicationLocked_hearing (w : World) (appThread : Option IBinder)
    (pid : Int) : Keeps (hearingFrame es) (attachApplicationLocked w appThread pid) := by
  apply keeps_attachWith w (allowsNull_hearing es) (allowsProcesses_hearing es).toAllowsEvents
  · exact fun s _ => (allowsProcesses_hearing es).own s _ _ _
  · exact fun b app _ hrest =>
      keeps_setThreadTo (allowsCasts_hearing es) (allowsProcesses_hearing es) b app hrest
  · exact allowsActivities_hearing es
  · exact keeps_attachServiceLocked w (allowsBinding_hearing es).toAllowsServices
      (allowsNull_hearing es)
  · apply keeps_attachReceiverLocked
    exact fun _ _ h => h.same ⟨rfl, rfl, rfl, rfl⟩ rfl rfl rfl rfl

end

/-! ## Accepting a broadcast -/

/-- The lists of actions that a broadcast's action is compared with. -/
def State.actionLists (s : State) (w : World) : List (List String8) :=
  (s.mReceivers.map fun bf => (s.filters.get bf).mActions) ++
    w.pm.mReceivers.map fun ri => (ri.mINF.map fun inf => inf.mActions).getD []

/-- There is an intent, or there is nothing that would look at its action. -/
def State.canMatch (s : State) (w : World) (intent : Option Intent) : Prop :=
  intent ≠ none ∨ ∀ l ∈ s.actionLists w, l = []

theorem wp_derefToMatch {intent : Option Intent} {actions : List (List String8)} {s : State}
    {Q : PUnit → State → Prop} {E : Fault → State → Prop}
    (hok : (intent ≠ none ∨ ∀ l ∈ actions, l = []) → Q ⟨⟩ s)
    (hfail : ¬ (intent ≠ none ∨ ∀ l ∈ actions, l = []) → E .nullRecord s) :
    wp (derefToMatch intent actions) Q E s := by
  unfold derefToMatch
  split
  · next h =>
    apply hfail
    rintro (hne | hnil)
    · exact hne h.1
    · obtain ⟨l, hl, hne⟩ := h.2
      exact hne (hnil l hl)
  · next h =>
    apply hok
    by_cases hi : intent = none
    · right
      intro l hl
      by_contra hne
      exact h ⟨hi, l, hl, hne⟩
    · exact Or.inl hi

/-- The filters that match now are those of the registrations that match. -/
theorem RegistryInv.matching {rs : List Registration} {s : State} (h : RegistryInv rs s)
    (intent : Option Intent) :
    (s.mReceivers.filter fun bf =>
      intent.any fun i => (s.filters.get bf).mActions.any fun action => action = i.mAction) =
      refs rs fun r => intent.any r.filter.matchIntent := by
  rw [h.receivers]
  apply filter_refs
  intro i r hr
  obtain ⟨rl, -, hget⟩ := h.filter i r hr
  rw [hget]
  rfl

theorem hearingsOf_alloc {s : State} {r : BroadcastRef} (hr : s.broadcasts.Live r)
    (b : BroadcastRecord) :
    State.hearingsOf { s with broadcasts := s.broadcasts.alloc b } r = s.hearingsOf r := by
  unfold State.hearingsOf
  simp only [Store.get_alloc_live b hr]

/-- A record that is not queued calls for nothing. -/
theorem HearingInv.new {es : List Entry} {s : State} (h : HearingInv es s)
    (hq : ∀ r ∈ s.mParallelBroadcasts, s.broadcasts.Live r) (b : BroadcastRecord) :
    HearingInv es { s with broadcasts := s.broadcasts.alloc b } := by
  refine ⟨h.registry.same ⟨rfl, rfl, rfl, rfl⟩, ?_, h.awake⟩
  rw [← h.calls]
  apply congrArg (heard s.log ++ ·)
  apply List.flatMap_congr
  intro r hr
  exact hearingsOf_alloc (hq r hr) b

section
variable {w : World} {es : List Entry} {s : State}

theorem enqueueBroadcast_hearing (h : HearingInv es s)
    (hq : ∀ r ∈ s.mParallelBroadcasts, s.broadcasts.Live r) (callerApp : ProcessRef)
    (intent : Option Intent) (map : Option Bundle) (sticky : Bool)
    (receivers : List ReceiverInfo) :
    wp (do
        enqueueBroadcast callerApp intent map false sticky
          (refs (registrations es) fun r => intent.any r.filter.matchIntent) receivers
        scheduleBroadcastLocked)
      (fun _ => HearingInv (es ++ [.accepted intent map sticky])) (fun _ _ => False) s := by
  have hregs : registrations (es ++ [.accepted intent map sticky]) = registrations es := by
    rw [registrations_append]
    simp [registrations, Entry.registration]
  simp only [enqueueBroadcast, newBroadcastRecord, scheduleBroadcastLocked, wp_bind, wp_get,
    wp_modify, wp_pure, Bool.false_eq_true, if_false]
  have hfresh : ∀ b : BroadcastRecord,
      (s.broadcasts.alloc b).Live s.broadcasts.fresh := Store.live_fresh_alloc s.broadcasts
  refine ⟨?_, ?_, fun hzero => absurd hzero (Nat.succ_ne_zero _)⟩
  · rw [hregs]
    exact h.registry.same ⟨rfl, rfl, rfl, rfl⟩
  · rw [expectedHearings_append, ← h.calls, List.append_assoc]
    apply congrArg (heard s.log ++ ·)
    simp only [State.stillToHear, List.flatMap_append]
    congr 1
    · apply List.flatMap_congr
      intro r hr
      have hlive := hq r hr
      unfold State.hearingsOf
      simp only [Store.get_alloc_live _ (hlive.alloc _), Store.get_alloc_live _ hlive]
    · simp only [State.hearingsOf, List.flatMap_cons, List.flatMap_nil, List.append_nil,
        Store.get_alloc_fresh, Store.get_alloc_live _ (hfresh _), List.map_nil, expectedAfter]
      rfl

theorem acceptBroadcast_hearing (h : HearingInv es s)
    (hq : ∀ r ∈ s.mParallelBroadcasts, s.broadcasts.Live r) (callerApp : ProcessRef)
    (intent : Option Intent) (map : Option Bundle) (serialized sticky : Bool) :
    wp (acceptBroadcast w callerApp intent map serialized sticky)
      (fun _ t => s.canMatch w intent ∧
        HearingInv (es ++ if serialized then [] else [.accepted intent map sticky]) t)
      (fun _ _ => ¬ s.canMatch w intent) s := by
  have hcan : s.canMatch w intent ↔
      (intent ≠ none ∨ ∀ l ∈ s.mReceivers.map fun bf => (s.filters.get bf).mActions, l = []) ∧
      (intent ≠ none ∨ ∀ l ∈ w.pm.mReceivers.map fun ri =>
        (ri.mINF.map fun inf => inf.mActions).getD [], l = []) := by
    unfold State.canMatch State.actionLists
    rw [List.forall_mem_append, ← or_and_left]
  rw [acceptBroadcast, wp_bind, wp_get, wp_bind]
  apply wp_derefToMatch
  · intro h1
    rw [wp_bind]
    apply wp_derefToMatch
    · intro h2
      rw [h.registry.matching]
      cases serialized with
      | true =>
        simp only [enqueueBroadcast, newBroadcastRecord, scheduleBroadcastLocked, wp_bind, wp_get,
          wp_modify, wp_pure, if_true, List.append_nil]
        have hnew := h.new hq ⟨intent, callerApp, none, map, true, sticky,
          refs (registrations es) fun r => intent.any r.filter.matchIntent,
          w.pm.resolveIntentReceivers intent⟩
        refine ⟨hcan.mpr ⟨h1, h2⟩, hnew.registry.same ⟨rfl, rfl, rfl, rfl⟩, hnew.calls, ?_⟩
        exact fun hzero => absurd hzero (Nat.succ_ne_zero _)
      | false =>
        apply wp_mono (enqueueBroadcast_hearing h hq callerApp intent map sticky _)
        · exact fun _ t ht => ⟨hcan.mpr ⟨h1, h2⟩, ht⟩
        · exact fun _ _ he => he.elim
    · exact fun h2 hboth => h2 (hcan.mp hboth).2
  · exact fun h1 hboth => h1 (hcan.mp hboth).1

theorem heard_nulls {l : List Event} (h : ∀ e ∈ l, e.isNull = true) : heard l = [] := by
  apply List.filter_eq_nil_iff.mpr
  intro e he
  cases e with
  | performReceive bf c => cases h _ he
  | _ => exact Bool.false_ne_true

theorem HearingInv.nulls {t : State} (h : HearingInv es s) (ht : s.OnlyNulls t) :
    HearingInv es t := by
  obtain ⟨l, hl, rfl⟩ := ht
  have hlog : heard (s.log ++ l) = heard s.log := by
    rw [heard_append, heard_nulls hl, List.append_nil]
  exact h.same ⟨rfl, rfl, rfl, rfl⟩ hlog rfl rfl rfl

theorem broadcastIntentLocked_hearing (h : HearingInv es s)
    (hq : ∀ r ∈ s.mParallelBroadcasts, s.broadcasts.Live r) (caller : Option InterfacePtr)
    (intent : Option Intent) (map : Option Bundle) (serialized sticky : Bool) :
    wp (broadcastIntentLocked w caller intent map serialized sticky)
      (fun _ t => (s.processOf (asBinder caller) = none ∨ s.canMatch w intent) ∧
        HearingInv (es ++ if s.processOf (asBinder caller) = none ∨ serialized = true then []
          else [.accepted intent map sticky]) t)
      (fun _ _ => ¬ (s.processOf (asBinder caller) = none ∨ s.canMatch w intent)) s := by
  rw [broadcastIntentLocked, wp_bind]
  apply wp_mono (getProcessRecordLocked_spec caller s)
  · rintro found t ⟨rfl, ht⟩
    have hinv := h.nulls ht
    have hlive : ∀ r ∈ t.mParallelBroadcasts, t.broadcasts.Live r := by
      obtain ⟨l, -, rfl⟩ := ht
      exact hq
    have hcan : t.canMatch w intent ↔ s.canMatch w intent := by
      obtain ⟨l, -, rfl⟩ := ht
      exact Iff.rfl
    cases hfound : s.processOf (asBinder caller) with
    | none =>
      rw [if_pos (Or.inl rfl), List.append_nil]
      exact ⟨Or.inl rfl, hinv⟩
    | some callerApp =>
      rw [wp_bind]
      apply wp_mono (acceptBroadcast_hearing hinv hlive callerApp intent map serialized sticky)
      · rintro _ u ⟨hm, hu⟩
        refine ⟨Or.inr (hcan.mp hm), ?_⟩
        cases serialized with
        | true => simpa using hu
        | false => simpa using hu
      · rintro _ _ hnot (hnone | hm)
        · cases hnone
        · exact hnot (hcan.mpr hm)
  · exact fun _ _ he => he.elim

end

/-! ## Applications without a thread -/

def State.ProcessesLive (s : State) : Prop := ∀ p ∈ s.mProcesses, s.processes.Live p

abbrev liveFrame : Frame State := .invariant State.ProcessesLive

theorem ProcessesLive.start {s : State} (h : s.ProcessesLive) (p : ProcessRecord) :
    State.ProcessesLive { s with
      processes := s.processes.alloc p
      mProcesses := s.mProcesses ++ [s.processes.fresh] } := by
  intro q hq
  rcases List.mem_append.mp hq with hq | hq
  · exact (h q hq).alloc _
  · rw [List.mem_singleton.mp hq]
    exact Store.live_fresh_alloc _ _

/-- An unknown application gets a record, and its process is pending unless the fork fails. -/
theorem wp_startUnknown {w : World} {name : String8} {s : State}
    {Q : ProcessRef → State → Prop} {E : Fault → State → Prop}
    (hnew : s.getProcessRecordLocked name = none)
    (h : ∀ mProcessesPending, Q s.processes.fresh { s with
      processes := s.processes.alloc ⟨none, name, (w.zygote s.log).pid⟩
      mProcesses := s.mProcesses ++ [s.processes.fresh]
      mProcessesPending := mProcessesPending
      log := s.log ++ [.startViaZygote name (w.zygote s.log).pid] }) :
    wp (startProcessLocked w name) Q E s := by
  simp only [startProcessLocked, wp_bind, wp_get, hnew, emit, wp_modify, wp_pure]
  exact wp_when (fun _ => h _) fun _ => h _

theorem keeps_startProcessLocked_live (w : World) (name : String8) :
    Keeps liveFrame (startProcessLocked w name) := by
  apply Keeps.of_wp
  intro s
  cases hfind : s.getProcessRecordLocked name with
  | none => exact wp_startUnknown hfind fun _ h => ProcessesLive.start h _
  | some p =>
    simp only [startProcessLocked, wp_bind, wp_get, hfind]
    exact id

theorem keeps_step_live (w : World) (a : Action) : Keeps liveFrame (step w a) := by
  have hn : AllowsNull liveFrame := fun _ _ _ h => h
  have hx : AllowsCasts liveFrame := fun _ h => h
  have hev : ∀ part, AllowsEvents liveFrame part := fun _ => ⟨fun _ _ _ _ h => h⟩
  have hp := keeps_startProcessLocked_live w
  have hA : AllowsActivities liveFrame :=
    ⟨hev _, fun _ _ _ _ h => h, fun _ _ _ h => h, fun _ _ h => h⟩
  have hB : AllowsBinding liveFrame :=
    ⟨⟨⟨⟨hev _, fun _ _ _ _ h => h⟩, fun _ _ h => h⟩, fun _ _ _ h => h⟩, fun _ _ _ _ h => h,
      fun _ _ h => h⟩
  have hQ : AllowsQueue liveFrame :=
    ⟨⟨⟨hev _, fun _ _ _ _ _ h => h, fun _ _ _ _ _ h => h⟩, fun _ _ _ _ h => h, fun _ _ h => h⟩,
      fun _ _ h => h, fun _ _ h => h⟩
  cases a with
  | handleMessage => exact keeps_handleMessage w hQ.handling hn hp hQ.enqueue
  | request pid call =>
    apply keeps_request w hx hn hp hA hB hQ.toAllowsReceivers (keeps_enqueueBroadcast hQ.enqueue)
    intro appThread _
    apply keeps_attachWith w hn (hev _) (fun _ _ h => h)
    · exact fun b app _ hrest => .bind (keeps_interfaceCast hx _ _) fun _ =>
        .bind (.modify fun _ h => h) fun _ => hrest _
    · exact hA
    · exact keeps_attachServiceLocked w hB.toAllowsServices hn
    · exact keeps_attachReceiverLocked fun _ _ h => h

/-- The applications in the table whose process has no thread. -/
def State.missing (s : State) : List String8 :=
  s.names.filter fun name =>
    (s.getProcessRecordLocked name).any fun p => (s.processes.get p).thread = none

theorem mem_missing {s : State} {name : String8} {p : ProcessRef}
    (hp : s.getProcessRecordLocked name = some p) :
    name ∈ s.missing ↔ (s.processes.get p).thread = none := by
  have hname : name ∈ s.names := by
    by_contra hnot
    rw [getProcessRecordLocked_none.mpr hnot] at hp
    cases hp
  simp [State.missing, hname, hp]

theorem names_start {s t : State} (h : s.ProcessesLive) {name : String8} {pid : Int}
    (hnew : s.getProcessRecordLocked name = none)
    (hproc : t.processes = s.processes.alloc ⟨none, name, pid⟩)
    (hlist : t.mProcesses = s.mProcesses ++ [s.processes.fresh]) :
    t.names = s.names ++ [name] ∧ t.missing = s.missing ++ [name] := by
  have hold : ∀ p ∈ s.mProcesses, t.processes.get p = s.processes.get p := by
    intro p hp
    rw [hproc]
    exact Store.get_alloc_live _ (h p hp)
  have hfresh : t.processes.get s.processes.fresh = ⟨none, name, pid⟩ := by
    rw [hproc]
    exact Store.get_alloc_fresh _ _
  have hnames : t.names = s.names ++ [name] := by
    unfold State.names
    rw [hlist, List.map_append, List.map_cons, List.map_nil, hfresh,
      List.map_congr_left fun p hp => by rw [hold p hp]]
  have hfind : ∀ n ∈ s.names, t.getProcessRecordLocked n = s.getProcessRecordLocked n := by
    intro n hn
    unfold State.getProcessRecordLocked
    rw [hlist, List.find?_append]
    have hsame : (s.mProcesses.find? fun p => (t.processes.get p).name = n) =
        s.mProcesses.find? fun p => (s.processes.get p).name = n := by
      apply List.find?_congr
      intro p hp
      rw [hold p hp]
    rw [hsame]
    cases hs : s.mProcesses.find? fun p => (s.processes.get p).name = n with
    | some p => rfl
    | none => exact absurd hn (getProcessRecordLocked_none.mp hs)
  have hself : t.getProcessRecordLocked name = some s.processes.fresh := by
    unfold State.getProcessRecordLocked
    have hnone : (s.mProcesses.find? fun p => (t.processes.get p).name = name) = none := by
      apply List.find?_eq_none.mpr
      intro p hp
      rw [hold p hp]
      exact List.find?_eq_none.mp hnew p hp
    rw [hlist, List.find?_append, hnone]
    simp [hfresh]
  refine ⟨hnames, ?_⟩
  unfold State.missing
  rw [hnames, List.filter_append]
  congr 1
  · apply List.filter_congr
    intro n hn
    rw [hfind n hn]
    cases hs : s.getProcessRecordLocked n with
    | none => rfl
    | some p =>
      have hp : p ∈ s.mProcesses := List.mem_of_find?_eq_some hs
      simp [hold p hp]
  · simp [hself, hfresh]

/-! ## Processing the queue -/

/-- Every receiver up to the first unknown application has a thread to be called through. -/
def receiversServed (known missing : List String8) (infos : List ReceiverInfo) : Prop :=
  ∀ name ∈ (infos.map ReceiverInfo.mApplicationName).takeWhile fun name => name ∈ known,
    name ∉ missing

/-- Processing the record `r` leaves the tables and the rest of the queue alone. -/
structure Beside (r : BroadcastRef) (s t : State) : Prop where
  registry : SameRegistry s t
  queue : t.mParallelBroadcasts = s.mParallelBroadcasts
  others : ∀ q, q ≠ r → t.broadcasts.get q = s.broadcasts.get q

theorem Beside.refl (r : BroadcastRef) (s : State) : Beside r s s :=
  ⟨⟨rfl, rfl, rfl, rfl⟩, rfl, fun _ _ => rfl⟩

theorem Beside.trans {r : BroadcastRef} {s t u : State} (h : Beside r s t) (h' : Beside r t u) :
    Beside r s u := by
  constructor
  · exact ⟨h'.registry.1.trans h.registry.1, h'.registry.2.trans h.registry.2,
      h'.registry.3.trans h.registry.3, h'.registry.4.trans h.registry.4⟩
  · exact h'.queue.trans h.queue
  · intro q hq
    exact (h'.others q hq).trans (h.others q hq)

/-- After the receivers of `infos`: an unknown application has been started. -/
structure Served (r : BroadcastRef) (infos : List ReceiverInfo) (s t : State) : Prop where
  beside : Beside r s t
  names : t.names = s.names ++ firstUnknown s.names infos
  missing : t.missing = s.missing ++ firstUnknown s.names infos
  live : t.ProcessesLive

section
variable {w : World} {s : State}

theorem processReceiverInfos_hearing (r : BroadcastRef) (k : Nat) (infos : List ReceiverInfo)
    (hlive : s.ProcessesLive) (hi : 0 ≤ s.mLastPendingIndex → infos = []) :
    wp (processReceiverInfos w r k infos)
      (fun _ t => receiversServed s.names s.missing infos ∧ Served r infos s t ∧
        heard t.log = heard s.log)
      (fun _ _ => ¬ receiversServed s.names s.missing infos) s := by
  induction infos generalizing s k with
  | nil =>
    refine ⟨by simp [receiversServed], ⟨.refl r s, ?_, ?_, hlive⟩, rfl⟩
    · simp [firstUnknown]
    · simp [firstUnknown]
  | cons ri infos ih =>
    simp only [processReceiverInfos, processReceiverInfo, wp_bind, wp_get]
    rw [if_neg fun h => List.cons_ne_nil _ _ (hi h)]
    simp only [wp_bind, wp_get]
    cases happ : s.getProcessRecordLocked ri.mApplicationName with
    | none =>
      have hnew := getProcessRecordLocked_none.mp happ
      have hfirst : firstUnknown s.names (ri :: infos) = [ri.mApplicationName] := by
        simp [firstUnknown, hnew]
      have hserved : receiversServed s.names s.missing (ri :: infos) := by
        simp [receiversServed, hnew]
      simp only [wp_bind, modifyBroadcast, wp_modify]
      apply wp_startUnknown happ
      intro mProcessesPending
      apply skip_receiverInfos _ _ (Int.natCast_nonneg k)
      refine ⟨hserved, ⟨⟨⟨rfl, rfl, rfl, rfl⟩, rfl, ?_⟩, ?_, ?_, ?_⟩, ?_⟩
      · intro q hq
        exact Store.get_update_ne s.broadcasts
          (fun b => { b with mCurApp := some s.processes.fresh }) hq
      · rw [hfirst]
        exact (names_start hlive happ rfl rfl).1
      · rw [hfirst]
        exact (names_start hlive happ rfl rfl).2
      · exact ProcessesLive.start hlive _
      · rw [heard_append]
        simp [heard, Event.isHearing]
    | some p =>
      have hknown : ri.mApplicationName ∈ s.names := by
        by_contra hnot
        rw [getProcessRecordLocked_none.mpr hnot] at happ
        cases happ
      have hsplit : receiversServed s.names s.missing (ri :: infos) ↔
          (s.processes.get p).thread ≠ none ∧ receiversServed s.names s.missing infos := by
        unfold receiversServed
        rw [List.map_cons, List.takeWhile_cons_of_pos (by simpa using hknown), List.forall_mem_cons,
          mem_missing happ]
      have hfirst : firstUnknown s.names (ri :: infos) = firstUnknown s.names infos := by
        simp [firstUnknown, hknown]
      simp only [processCurBroadcastLocked, deref, scheduleBroadcastLocked, wp_bind, wp_pure,
        wp_get]
      apply wp_callThread
      · exact fun hnull h => (hsplit.mp h).1 hnull
      · intro hthread
        rw [wp_modify]
        have hrest := fun log messages => ih (s := { s with log := log, messages := messages })
          (k + 1) hlive fun h => absurd (hi h) (List.cons_ne_nil _ _)
        apply wp_mono (hrest _ _)
        · rintro _ t ⟨hok, ⟨hbeside, hnames, hmissing, ht⟩, hlog⟩
          refine ⟨hsplit.mpr ⟨hthread, hok⟩, ⟨?_, ?_, ?_, ht⟩, ?_⟩
          · apply Beside.trans _ hbeside
            exact ⟨⟨rfl, rfl, rfl, rfl⟩, rfl, fun _ _ => rfl⟩
          · rw [hnames, hfirst]
            rfl
          · rw [hmissing, hfirst]
            rfl
          · rw [hlog, heard_append]
            simp [heard, Event.isHearing]
        · exact fun _ _ hnot h => hnot (hsplit.mp h).2

/-- Nothing that the record goes to is null. -/
def State.recordReady (s : State) (r : BroadcastRef) : Prop :=
  (∀ bf ∈ (s.broadcasts.get r).mBroadcastFilter, s.hears bf) ∧
    receiversServed s.names s.missing (s.receiverInfos r)

theorem processBroadcast_hearing (r : BroadcastRef) (hlive : s.ProcessesLive)
    (hi : 0 ≤ s.mLastPendingIndex → s.receiverInfos r = []) :
    wp (processBroadcast w r)
      (fun _ t => s.recordReady r ∧ Served r (s.receiverInfos r) s t ∧ t.mLastPendingIndex < 0 ∧
        heard t.log = heard s.log ++ s.hearingsOf r)
      (fun _ _ => ¬ s.recordReady r) s := by
  simp only [processBroadcast, wp_bind, wp_get]
  apply wp_mono (performReceives_spec r _ s)
  · rintro _ t ⟨hfilters, rfl⟩
    simp only [modifyBroadcast, wp_modify]
    have hinfos := fun log broadcasts => processReceiverInfos_hearing (w := w) r 0
      (s.receiverInfos r) (s := { s with log := log, broadcasts := broadcasts }) hlive hi
    apply wp_mono (hinfos _ _)
    · rintro _ u ⟨hok, ⟨hbeside, hnames, hmissing, hu⟩, hlog⟩
      refine ⟨⟨hfilters, hok⟩, ⟨?_, hnames, hmissing, hu⟩, (by decide : (-1 : Int) < 0), ?_⟩
      · have hend : Beside r u { u with mLastPendingIndex := -1 } :=
          ⟨⟨rfl, rfl, rfl, rfl⟩, rfl, fun _ _ => rfl⟩
        apply Beside.trans _ (hbeside.trans hend)
        refine ⟨⟨rfl, rfl, rfl, rfl⟩, rfl, fun q hq => ?_⟩
        exact Store.get_update_ne s.broadcasts (fun b => { b with mBroadcastFilter := [] }) hq
      · show heard u.log = _
        rw [hlog, heard_append]
        congr 1
        simp [heard, State.hearingsOf, Event.isHearing]
    · exact fun _ _ hnot h => hnot h.2
  · exact fun _ _ hnot h => hnot h.1

/-- The queue can be processed to its end: no filter's receiver is null, and every receiver
of a manifest that is called has a thread. -/
def State.QueueReady (s : State) : Prop :=
  (∀ r ∈ s.mParallelBroadcasts, ∀ bf ∈ (s.broadcasts.get r).mBroadcastFilter, s.hears bf) ∧
    receiversReady s.names s.missing (s.mParallelBroadcasts.map s.receiverInfos)

theorem recordReady_head {r : BroadcastRef} {rest : List BroadcastRef}
    (hq : s.mParallelBroadcasts = r :: rest) (h : s.QueueReady) : s.recordReady r := by
  obtain ⟨hfilters, hreceivers⟩ := h
  rw [hq] at hfilters hreceivers
  exact ⟨hfilters r (List.mem_cons_self ..), hreceivers.1⟩

/-- The first record, and then the others as they are after it. -/
theorem queueReady_cons {t : State} {r : BroadcastRef} {rest : List BroadcastRef}
    (hq : s.mParallelBroadcasts = r :: rest) (hr : r ∉ rest)
    (h : Served r (s.receiverInfos r) s t) :
    s.QueueReady ↔ s.recordReady r ∧ State.QueueReady { t with mParallelBroadcasts := rest } := by
  have hrecord : ∀ q ∈ rest, t.broadcasts.get q = s.broadcasts.get q :=
    fun q hmem => h.beside.others q fun e => hr (e ▸ hmem)
  have hhears : t.hears = s.hears := by
    unfold State.hears
    rw [h.beside.registry.receiverLists, h.beside.registry.filters]
  have hmap : rest.map t.receiverInfos = rest.map s.receiverInfos := by
    apply List.map_congr_left
    intro q hmem
    exact congrArg BroadcastRecord.mReceiverInfo (hrecord q hmem)
  have hnext : State.QueueReady { t with mParallelBroadcasts := rest } ↔
      (∀ q ∈ rest, ∀ bf ∈ (s.broadcasts.get q).mBroadcastFilter, s.hears bf) ∧
      receiversReady (s.names ++ firstUnknown s.names (s.receiverInfos r))
        (s.missing ++ firstUnknown s.names (s.receiverInfos r)) (rest.map s.receiverInfos) := by
    rw [← h.names, ← h.missing, ← hmap]
    apply and_congr_left'
    apply forall₂_congr
    intro q hmem
    show (∀ bf ∈ (t.broadcasts.get q).mBroadcastFilter, t.hears bf) ↔ _
    rw [hrecord q hmem, hhears]
  rw [hnext, State.QueueReady, hq, List.forall_mem_cons, List.map_cons, receiversReady]
  exact and_and_and_comm

theorem nothingToHear (hq : s.mParallelBroadcasts = []) :
    s.QueueReady ∧ s.mParallelBroadcasts = [] ∧ SameRegistry s s ∧
      heard s.log = heard s.log ++ s.stillToHear := by
  refine ⟨?_, hq, ⟨rfl, rfl, rfl, rfl⟩, ?_⟩
  · simp [State.QueueReady, hq, receiversReady]
  · simp [State.stillToHear, hq]

theorem drainParallelBroadcasts_hearing (n : Nat) (hlive : s.ProcessesLive)
    (hnodup : s.mParallelBroadcasts.Nodup)
    (hi : 0 ≤ s.mLastPendingIndex → ∀ r ∈ s.mParallelBroadcasts.head?, s.receiverInfos r = [])
    (hn : s.mParallelBroadcasts.length ≤ n) :
    wp (drainParallelBroadcasts w n)
      (fun _ t => s.QueueReady ∧ t.mParallelBroadcasts = [] ∧ SameRegistry s t ∧
        heard t.log = heard s.log ++ s.stillToHear)
      (fun _ _ => ¬ s.QueueReady) s := by
  induction n generalizing s with
  | zero => exact nothingToHear (List.eq_nil_of_length_eq_zero (Nat.le_zero.mp hn))
  | succ n ih =>
    simp only [drainParallelBroadcasts, wp_bind, wp_get]
    split
    · next hq => exact nothingToHear hq
    · next r rest hq =>
      rw [hq] at hnodup hi hn
      obtain ⟨hr, hrest⟩ := List.nodup_cons.mp hnodup
      rw [wp_bind]
      apply wp_mono (processBroadcast_hearing (w := w) r hlive fun h => hi h r rfl)
      · rintro _ t ⟨hready, hserved, hneg, hlog⟩
        have hqueue : t.mParallelBroadcasts.tail = rest := by
          rw [hserved.beside.queue, hq]
          rfl
        rw [wp_bind, wp_modify, hqueue]
        have hcons := queueReady_cons hq hr hserved
        have hnext := ih (s := { t with mParallelBroadcasts := rest }) hserved.live hrest
          (fun h => absurd h (Int.not_le.mpr hneg)) (Nat.le_of_succ_le_succ hn)
        apply wp_mono hnext
        · rintro _ u ⟨hu, hdone, hsame, hheard⟩
          refine ⟨hcons.mpr ⟨hready, hu⟩, hdone, ?_, ?_⟩
          · obtain ⟨h1, h2, h3, h4⟩ := hserved.beside.registry
            exact ⟨hsame.1.trans h1, hsame.2.trans h2, hsame.3.trans h3, hsame.4.trans h4⟩
          · rw [hheard]
            show heard t.log ++ rest.flatMap t.hearingsOf = _
            rw [hlog, List.append_assoc, State.stillToHear, hq, List.flatMap_cons]
            congr 2
            apply List.flatMap_congr
            intro q hmem
            unfold State.hearingsOf
            rw [hserved.beside.others q fun e => hr (e ▸ hmem)]
        · exact fun _ _ hnot h => hnot (hcons.mp h).2
      · exact fun _ _ hnot h => hnot (recordReady_head hq h)

theorem handleMessage_hearing {es : List Entry} (h : HearingInv es s) (hlive : s.ProcessesLive)
    (hq : QueueInv s) :
    wp (step w .handleMessage)
      (fun _ t => (s.messages = 0 ∨ s.QueueReady) ∧ HearingInv es t)
      (fun _ _ => ¬ (s.messages = 0 ∨ s.QueueReady)) s := by
  simp only [step, wp_bind, wp_get]
  split
  · next hzero => exact ⟨Or.inl hzero, h⟩
  · next n hsucc =>
    simp only [processNextBroadcast, wp_bind, wp_modify, wp_get]
    have hdrain := drainParallelBroadcasts_hearing (w := w) s.mParallelBroadcasts.length
      (s := { s with messages := n, mBroadcastScheduled := false }) hlive hq.nodup hq.idle
      (Nat.le_refl _)
    apply wp_mono hdrain
    · rintro _ t ⟨hready, hdone, hsame, hlog⟩
      have hregistry := h.registry.same ⟨hsame.1, hsame.2, hsame.3, hsame.4⟩
      refine ⟨Or.inr hready, hregistry, ?_, fun _ => hdone⟩
      rw [State.stillToHear, hdone, List.flatMap_nil, List.append_nil, hlog]
      exact h.calls
    · rintro _ _ hnot (hzero | hready)
      · rw [hsucc] at hzero
        cases hzero
      · exact hnot hready

end

/-! ## Runs -/

/-- What a step has to meet so that it does not take the system server down. -/
def HearingReady (w : World) (s : State) : Action → Prop
  | .request _ (.registerReceiver caller _ filter) => s.processOf caller = none ∨ filter ≠ none
  | .request _ (.broadcastIntent caller intent ..) =>
    s.processOf caller = none ∨ s.canMatch w intent
  | .request .. => True
  | .handleMessage => s.messages = 0 ∨ s.QueueReady

/-- A registration, a broadcast that is not serialized, or the queue handling a message. -/
def Action.toReceivers : Action → Bool
  | .request _ (.registerReceiver ..) => true
  | .request _ (.broadcastIntent _ _ _ _ serialized _) => !serialized
  | .request .. => false
  | .handleMessage => true

section
variable {w : World} {es : List Entry} {s : State}

theorem expectedAfter_registered (rs rs' : List Registration) :
    expectedAfter rs (rs'.map Entry.registered) = [] := by
  induction rs' generalizing rs with
  | nil => rfl
  | cons r rs' ih => exact ih (rs ++ [r])

/-- New registrations call for nothing yet. -/
theorem HearingInv.register {t : State} (h : HearingInv es s) (ht : s.OnlyTables t)
    {rs : List Registration} (hr : RegistryInv (registrations es ++ rs) t) :
    HearingInv (es ++ rs.map Entry.registered) t := by
  obtain ⟨l, hl, ht⟩ := ht
  have hlog : heard t.log = heard s.log := by
    rw [show t.log = s.log ++ l from congrArg State.log ht, heard_append, heard_nulls hl,
      List.append_nil]
  have hqueue : t.mParallelBroadcasts = s.mParallelBroadcasts := by rw [ht]; rfl
  have hcalls : t.hearingsOf = s.hearingsOf := by rw [ht]; rfl
  have hmessages : t.messages = s.messages := by rw [ht]; rfl
  constructor
  · rw [registrations_append]
    simpa [registrations, List.filterMap_map, Function.comp_def, Entry.registration] using hr
  · rw [expectedHearings_append, expectedAfter_registered, List.append_nil, ← h.calls, hlog]
    unfold State.stillToHear
    rw [hqueue, hcalls]
  · rw [hmessages, hqueue]
    exact h.awake

theorem registerReceiver_hearing (h : HearingInv es s) (pid : Int)
    (caller receiver : Option IBinder) (filter : Option IntentFilter) :
    let a := Action.request pid (.registerReceiver caller receiver filter)
    wp (step w a) (fun _ t => HearingReady w s a ∧ HearingInv (es ++ s.entries a) t)
      (fun _ _ => ¬ HearingReady w s a) s := by
  intro a
  have hp : ∀ n, HearingInv es { s with proxies := n } :=
    fun n => h.same ⟨rfl, rfl, rfl, rfl⟩ rfl rfl rfl rfl
  have hentries : s.entries a = (s.registers a).map Entry.registered := List.append_nil _
  rw [hentries]
  simp only [a, step, request, wp_bind]
  apply wp_interfaceCast
  rintro p m rfl
  apply wp_interfaceCast
  rintro q n rfl
  by_cases hcaller : s.processOf (asBinder p) = none
  · have hnil : s.registers a = [] := by
      cases filter with
      | none => rfl
      | some inf => exact if_pos hcaller
    rw [hnil]
    apply wp_mono (registerReceiverLocked_unknown (s := { s with proxies := n }) hcaller q filter)
    · rintro ret t ⟨-, ht⟩
      refine ⟨Or.inl hcaller, ?_⟩
      rw [List.map_nil, List.append_nil]
      exact (hp n).nulls ht
    · exact fun _ _ he => he.elim
  · apply wp_mono (registerReceiverLocked_known (hp n).registry hcaller q filter)
    · rintro ret t ⟨ht, inf, hinf, hr⟩
      rw [Option.mem_def] at hinf
      subst hinf
      have hone : s.registers a = [⟨asBinder q, inf⟩] := if_neg hcaller
      rw [hone]
      exact ⟨Or.inr (Option.some_ne_none inf), (hp n).register ht hr⟩
    · rintro e t ⟨rfl, -⟩ (hnone | hsome)
      · exact hcaller hnone
      · exact hsome rfl

theorem broadcastIntent_hearing (h : HearingInv es s)
    (hq : ∀ r ∈ s.mParallelBroadcasts, s.broadcasts.Live r) (pid : Int)
    (caller : Option IBinder) (intent : Option Intent) (resultTo : Option IBinder)
    (map : Option Bundle) (serialized sticky : Bool) :
    let a := Action.request pid (.broadcastIntent caller intent resultTo map serialized sticky)
    wp (step w a) (fun _ t => HearingReady w s a ∧ HearingInv (es ++ s.entries a) t)
      (fun _ _ => ¬ HearingReady w s a) s := by
  intro a
  have hp : ∀ n, HearingInv es { s with proxies := n } :=
    fun n => h.same ⟨rfl, rfl, rfl, rfl⟩ rfl rfl rfl rfl
  simp only [a, step, request, wp_bind]
  apply wp_interfaceCast
  rintro p m rfl
  apply wp_interfaceCast
  intro q n _
  have hentries : s.entries a = if s.processOf (asBinder p) = none ∨ serialized = true then []
      else [.accepted intent map sticky] := by
    cases serialized with
    | true => simp [a, State.entries, State.registers, State.accepts]
    | false => simp [a, State.entries, State.registers, State.accepts]
  rw [hentries]
  exact broadcastIntentLocked_hearing (hp n) hq p intent map serialized sticky

/-- Every step, whatever part it is of, keeps the account as long as it does not fault. -/
theorem step_hearing (h : HearingInv es s) (hlive : s.ProcessesLive) (hq : QueueInv s)
    (a : Action) :
    wp (step w a) (fun _ => HearingInv (es ++ s.entries a)) (fun _ _ => True) s := by
  cases a with
  | handleMessage =>
    rw [show s.entries .handleMessage = [] from rfl, List.append_nil]
    exact wp_mono_ok (handleMessage_hearing h hlive hq) fun _ _ ht => ht.2
  | request pid call =>
    have hother : (∀ caller receiver filter, call ≠ .registerReceiver caller receiver filter) →
        (∀ caller intent resultTo map serialized sticky,
          call ≠ .broadcastIntent caller intent resultTo map serialized sticky) →
        s.entries (.request pid call) = [] →
        wp (step w (.request pid call)) (fun _ => HearingInv (es ++ s.entries (.request pid call)))
          (fun _ _ => True) s := by
      intro hreg hbc hnil
      have hkeeps := keeps_requestWith w (allowsCasts_hearing es) (allowsNull_hearing es)
        (keeps_startProcessLocked w (allowsProcesses_hearing es)) (allowsActivities_hearing es)
        (allowsBinding_hearing es) pid call
        (fun appThread _ => keeps_attachApplicationLocked_hearing es w appThread pid)
        (fun caller receiver filter e => absurd e (hreg caller receiver filter))
        (fun caller intent resultTo map serialized sticky e =>
          absurd e (hbc caller intent resultTo map serialized sticky))
      rw [hnil, List.append_nil]
      exact wp_mono_ok (hkeeps.wp s) fun _ _ ht => ht h
    cases call with
    | registerReceiver caller receiver filter =>
      exact wp_mono_ok (registerReceiver_hearing h pid caller receiver filter) fun _ _ ht => ht.2
    | broadcastIntent caller intent resultTo map serialized sticky =>
      exact wp_mono_ok (broadcastIntent_hearing h hq.live pid caller intent resultTo map serialized
        sticky) fun _ _ ht => ht.2
    | attachApplication appThread => exact hother (by simp) (by simp) rfl
    | startActivity caller resultTo intent requestCode => exact hother (by simp) (by simp) rfl
    | startService caller intent => exact hother (by simp) (by simp) rfl
    | bindService caller token intent connection flags => exact hother (by simp) (by simp) rfl
    | publishService token intent service => exact hother (by simp) (by simp) rfl

/-- A step of the receivers' part returns exactly if it is ready. -/
theorem step_ready (h : HearingInv es s) (hlive : s.ProcessesLive) (hq : QueueInv s) {a : Action}
    (ha : a.toReceivers = true) :
    wp (step w a) (fun _ _ => HearingReady w s a) (fun _ _ => ¬ HearingReady w s a) s := by
  cases a with
  | handleMessage =>
    exact wp_mono (handleMessage_hearing h hlive hq) (fun _ _ ht => ht.1) fun _ _ he => he
  | request pid call =>
    cases call with
    | registerReceiver caller receiver filter =>
      exact wp_mono (registerReceiver_hearing h pid caller receiver filter) (fun _ _ ht => ht.1)
        fun _ _ he => he
    | broadcastIntent caller intent resultTo map serialized sticky =>
      exact wp_mono (broadcastIntent_hearing h hq.live pid caller intent resultTo map serialized
        sticky) (fun _ _ ht => ht.1) fun _ _ he => he
    | _ => cases ha

/-- What the runs of the system keep. -/
structure Accounted (es : List Entry) (s : State) : Prop where
  hearing : HearingInv es s
  live : s.ProcessesLive
  queue : QueueInv s

theorem Accounted.init (w : World) : Accounted [] (init w) :=
  ⟨.init w, fun _ hp => absurd hp (List.not_mem_nil), .init w⟩

theorem step_accounted (h : Accounted es s) (a : Action) :
    wp (step w a) (fun _ => Accounted (es ++ s.entries a)) (fun _ _ => True) s := by
  have hhearing := step_hearing (w := w) h.hearing h.live h.queue a
  have hlive := (keeps_step_live w a).wp s
  have hqueue := step_queue w a h.queue
  apply wp_mono_ok (wp_and hhearing (wp_and hlive hqueue))
  rintro _ t ⟨ht, hl, hq⟩
  exact ⟨ht, hl h.live, hq⟩

theorem run_accounted {t : State} (h : Accounted es s) {as : List Action}
    (hrun : run (step w) as s = .ok ⟨⟩ t) :
    Accounted (es ++ trail State.entries (step w) as s) t := by
  have hwp : wp (run (step w) as) (fun _ => Accounted (es ++ trail State.entries (step w) as s))
      (fun _ _ => True) s :=
    wp_run_trail State.entries (P := fun _ _ => True) (I := Accounted) (J := fun _ _ _ => True)
      (fun _ _ a hs _ => step_accounted hs a) as h (along_true _ _)
  have ht := wp_ok hwp hrun
  exact ht

end

/-- The steps `as` after the run `pre` come to an end; all the calls of the accepted
broadcasts have been made or are queued in their order, and they have all been made
once no message is left. -/
def State.HearsExactly (s : State) (w : World) (pre as : List Action) : Prop :=
  ∃ t, run (step w) as s = .ok ⟨⟩ t ∧
    heard t.log ++ t.stillToHear =
      expectedHearings (trail State.entries (step w) (pre ++ as) (init w)) ∧
    (t.messages = 0 → heard t.log =
      expectedHearings (trail State.entries (step w) (pre ++ as) (init w)))

/-- **Registered receivers.** From every state that a run reaches, registrations,
broadcasts and queue messages in any order have the filters hear exactly of what they
are to hear, if and only if every one of the steps is ready. -/
theorem hearsExactly_iff (w : World) (pre : List Action) (s : State) (hs : Reached w pre s)
    (as : List Action) (has : ∀ a ∈ as, a.toReceivers = true) :
    s.HearsExactly w pre as ↔ Along (HearingReady w) (step w) as s := by
  have hpre := run_accounted (Accounted.init w) hs
  have hstep : ∀ t a, (∃ es, Accounted es t) → Action.toReceivers a = true →
      wp (step w a) (fun _ u => HearingReady w t a ∧ ∃ es, Accounted es u)
        (fun _ _ => ¬ HearingReady w t a) t := by
    rintro t a ⟨es, ht⟩ ha
    have hready := step_ready (w := w) ht.hearing ht.live ht.queue ha
    apply wp_mono (wp_and hready (step_accounted ht a))
    · exact fun _ u hu => ⟨hu.1, _, hu.2⟩
    · exact fun _ _ hu => hu.1
  have hreturns := run_ok_iff hstep as ⟨_, hpre⟩ has
  rw [← hreturns]
  constructor
  · rintro ⟨t, ht, -⟩
    exact ⟨t, ht⟩
  · rintro ⟨t, ht⟩
    have hacc := run_accounted hpre ht
    rw [List.nil_append, ← trail_append hs] at hacc
    refine ⟨t, ht, hacc.hearing.calls, fun hzero => ?_⟩
    have hqueue := hacc.hearing.awake hzero
    have hcalls := hacc.hearing.calls
    rwa [State.stillToHear, hqueue, List.flatMap_nil, List.append_nil] at hcalls

/-- The activity is started and its process attaches. No manifest has a receiver. -/
def startedPackage : State :=
  final (run (step (.counting onePackage)) launch (init (.counting onePackage)))

theorem reached_startedPackage : Reached (.counting onePackage) launch startedPackage :=
  eq_ok_final (by decide +kernel)

/-- The process registers these receivers for the action, and sends a broadcast with it. -/
def broadcastTo (receivers : List (Option IBinder)) : List Action :=
  (receivers.map fun receiver => .request 1
    (.registerReceiver (some (.proxy 1)) receiver (some ⟨[[6]], [], 0⟩))) ++
    [.request 1 (.broadcastIntent (some (.proxy 1)) (some (.ofAction [6])) none none false false),
      .handleMessage]

theorem hearsExactly_iff_startedPackage :
    startedPackage.HearsExactly (.counting onePackage) launch (broadcastTo [some (.proxy 2)]) ↔
      Along (HearingReady (.counting onePackage)) (step (.counting onePackage))
        (broadcastTo [some (.proxy 2)]) startedPackage :=
  hearsExactly_iff _ launch _ reached_startedPackage (broadcastTo [some (.proxy 2)]) (by decide)

/-- The first receiver is null: the queue goes down there, and the second never hears. -/
theorem broadcast_not_heard :
    ¬ ∀ (w : World) (pre : List Action) (s : State), Reached w pre s →
      ∀ as : List Action, (∀ a ∈ as, a.toReceivers = true) → s.HearsExactly w pre as := by
  intro h
  obtain ⟨t, ht, -⟩ := h (.counting onePackage) launch startedPackage
    reached_startedPackage (broadcastTo [none, some (.proxy 2)]) (by decide)
  have hbad : returned (run (step (.counting onePackage)) (broadcastTo [none, some (.proxy 2)])
      startedPackage) = false := by
    decide +kernel
  rw [ht] at hbad
  cases hbad

end Cdroid.Service
