import Cdroid.Service.ProcessTable
import Mathlib.Data.List.Perm.Basic
import Mathlib.Algebra.GroupWithZero.Nat

/-! Broadcasts to the receivers of a manifest. The queue sends a record's
`scheduleReceiver` calls one after another until it comes to an application that
is not running; from there on the rest of the record's receivers are skipped and
never come back; ordered records stay in their queue. So every receiver is served
exactly once if and only if all of their applications are attached when the queue is
processed and no ordered record has any. -/

namespace Cdroid.Service
open Cdroid.Lib.Comp Cdroid.Lib.Containers Cdroid.Runtime

/-! ## The queue between two messages -/

def State.receiverInfos (s : State) (r : BroadcastRef) : List ReceiverInfo :=
  (s.broadcasts.get r).mReceiverInfo

/-- The queued records exist and are distinct. The index is negative, except that
before the first record, which has no receivers, it may still be unset. -/
structure QueueInv (s : State) : Prop where
  live : ∀ r ∈ s.mParallelBroadcasts, s.broadcasts.Live r
  nodup : s.mParallelBroadcasts.Nodup
  idle : 0 ≤ s.mLastPendingIndex → ∀ r ∈ s.mParallelBroadcasts.head?, s.receiverInfos r = []

theorem QueueInv.init (w : World) : QueueInv (init w) where
  live := by simp [Service.init]
  nodup := by simp [Service.init]
  idle := by simp [Service.init]

theorem QueueInv.of_empty {s : State} (h : s.mParallelBroadcasts = []) : QueueInv s where
  live := by simp [h]
  nodup := by simp [h]
  idle := by simp [h]

/-- A new record changes none that is queued. -/
theorem QueueInv.new {s : State} (h : QueueInv s) (b : BroadcastRecord) :
    QueueInv { s with broadcasts := s.broadcasts.alloc b } where
  live r hr := (h.live r hr).alloc b
  nodup := h.nodup
  idle hi r hr := by
    have hlive := h.live r (List.mem_of_mem_head? hr)
    simpa [State.receiverInfos, Store.get_alloc_live b hlive] using h.idle hi r hr

/-- Queued at the end, behind a record without receivers. -/
theorem QueueInv.push {s : State} (h : QueueInv s) (b b' : BroadcastRecord)
    (hb : b.mReceiverInfo = []) :
    QueueInv { s with
      broadcasts := (s.broadcasts.alloc b).alloc b'
      mParallelBroadcasts := s.mParallelBroadcasts ++
        [s.broadcasts.fresh, (s.broadcasts.alloc b).fresh] } := by
  have h2 := (h.new b).new b'
  have hfresh : (s.broadcasts.alloc b).Live s.broadcasts.fresh := Store.live_fresh_alloc _ b
  refine ⟨?_, ?_, ?_⟩
  · simp only [List.mem_append, List.mem_cons, List.not_mem_nil, or_false]
    rintro r (hr | rfl | rfl)
    · exact h2.live r hr
    · exact hfresh.alloc b'
    · exact Store.live_fresh_alloc _ b'
  · refine List.nodup_append.mpr ⟨h.nodup, ?_, ?_⟩
    · simpa using hfresh.ne_fresh
    · intro r hr q hq e
      subst e
      have hlive := h.live r hr
      rcases List.mem_cons.mp hq with rfl | hq
      · exact hlive.ne_fresh rfl
      · exact (hlive.alloc b).ne_fresh (List.mem_singleton.mp hq)
  · intro hi r hr
    cases hq : s.mParallelBroadcasts with
    | nil =>
      simp only [hq, List.nil_append, List.head?_cons, Option.mem_def, Option.some.injEq] at hr
      subst hr
      simp [State.receiverInfos, Store.get_alloc_live b' hfresh, hb]
    | cons q qs =>
      simp only [hq, List.cons_append, List.head?_cons, Option.mem_def, Option.some.injEq] at hr
      exact h2.idle hi r (by simp [hq, hr])

abbrev queueFrame : Frame State := .invariant QueueInv

theorem allowsProxies_queue : AllowsProxies queueFrame := fun _ _ h => ⟨h.live, h.nodup, h.idle⟩

theorem allowsNull_queue : AllowsNull queueFrame := fun _ _ _ h => ⟨h.live, h.nodup, h.idle⟩

theorem allowsProcesses_queue : AllowsProcesses queueFrame where
  emit _ _ _ _ h := ⟨h.live, h.nodup, h.idle⟩
  own _ _ _ _ h := ⟨h.live, h.nodup, h.idle⟩

theorem allowsActivities_queue : AllowsActivities queueFrame where
  emit _ _ _ _ h := ⟨h.live, h.nodup, h.idle⟩
  record _ _ _ _ h := ⟨h.live, h.nodup, h.idle⟩
  new _ _ _ h := ⟨h.live, h.nodup, h.idle⟩
  history _ _ h := ⟨h.live, h.nodup, h.idle⟩

theorem allowsBinding_queue : AllowsBinding queueFrame where
  emit _ _ _ _ h := ⟨h.live, h.nodup, h.idle⟩
  record _ _ _ _ h := ⟨h.live, h.nodup, h.idle⟩
  new _ _ _ h := ⟨h.live, h.nodup, h.idle⟩
  list _ _ h := ⟨h.live, h.nodup, h.idle⟩
  lists _ _ _ _ h := ⟨h.live, h.nodup, h.idle⟩
  connection _ _ h := ⟨h.live, h.nodup, h.idle⟩

theorem allowsReceivers_queue : AllowsReceivers queueFrame where
  emit _ _ _ _ h := ⟨h.live, h.nodup, h.idle⟩
  registry _ _ _ _ _ h := ⟨h.live, h.nodup, h.idle⟩
  signal _ _ _ _ _ h := ⟨h.live, h.nodup, h.idle⟩

theorem keeps_enqueueBroadcast_queue (callerApp : ProcessRef) (intent : Option Intent)
    (map : Option Bundle) (serialized sticky : Bool) (filters : List FilterRef)
    (receivers : List ReceiverInfo) :
    Keeps queueFrame
      (enqueueBroadcast callerApp intent map serialized sticky filters receivers) := by
  refine .ite (.of_wp fun s => ?_) (.of_wp fun s => ?_)
  · simp only [newBroadcastRecord, wp_bind, wp_get, wp_modify, wp_pure]
    exact fun h => ⟨(h.new _).live, h.nodup, (h.new _).idle⟩
  · simp only [newBroadcastRecord, wp_bind, wp_get, wp_modify, wp_pure]
    exact fun h => h.push _ _ rfl

/-- The parallel queue is one of the fields that processing a record leaves alone. -/
theorem allowsRecords_same : AllowsRecords (.same State.mParallelBroadcasts) where
  emit _ _ _ _ := rfl
  registry _ _ _ _ _ := rfl
  signal _ _ _ _ _ := rfl
  record _ _ _ _ := rfl
  index _ _ := rfl

theorem drainParallelBroadcasts_empties (w : World) (n : Nat) {s : State}
    (h : s.mParallelBroadcasts.length ≤ n) :
    wp (drainParallelBroadcasts w n) (fun _ t => t.mParallelBroadcasts = [])
      (fun _ _ => True) s := by
  induction n generalizing s with
  | zero => exact List.eq_nil_of_length_eq_zero (Nat.le_zero.mp h)
  | succ n ih =>
    simp only [drainParallelBroadcasts, wp_bind, wp_get]
    split
    · next hq => exact hq
    · next r rest hq =>
      have hstart : ∀ name, Keeps (.same State.mParallelBroadcasts) (startProcessLocked w name) :=
        keeps_startProcessLocked w ⟨⟨fun _ _ _ _ => rfl⟩, fun _ _ _ _ => rfl⟩
      rw [wp_bind]
      refine wp_mono_ok
        ((keeps_processBroadcast w allowsRecords_same.handling (fun _ _ _ => rfl) hstart r).wp s)
        (fun _ t ht => ?_)
      rw [wp_bind, wp_modify]
      refine ih ?_
      have htail : t.mParallelBroadcasts = r :: rest := ht.trans hq
      rw [hq] at h
      simpa [htail] using h

theorem handleMessage_queue (w : World) {s : State} (h : QueueInv s) :
    wp (step w .handleMessage) (fun _ => QueueInv) (fun _ _ => True) s := by
  simp only [step, wp_bind, wp_get]
  split
  · exact h
  · simp only [processNextBroadcast, wp_bind, wp_modify, wp_get]
    exact wp_mono_ok (drainParallelBroadcasts_empties w _ (Nat.le_refl _))
      (fun _ _ ht => .of_empty ht)

theorem step_queue (w : World) {s : State} (a : Action) (h : QueueInv s) :
    wp (step w a) (fun _ => QueueInv) (fun _ _ => True) s := by
  cases a with
  | handleMessage => exact handleMessage_queue w h
  | request pid call =>
    have hattach := fun appThread => keeps_attachApplicationLocked w allowsProxies_queue.casts
      allowsNull_queue allowsProcesses_queue allowsActivities_queue
      (keeps_attachServiceLocked w allowsBinding_queue.toAllowsServices allowsNull_queue)
      allowsReceivers_queue.signal appThread pid
    have hkeeps := keeps_request w allowsProxies_queue.casts allowsNull_queue
      (keeps_startProcessLocked w allowsProcesses_queue) allowsActivities_queue
      allowsBinding_queue allowsReceivers_queue keeps_enqueueBroadcast_queue pid call
      fun appThread _ => hattach appThread
    exact wp_mono_ok (hkeeps.wp s) (fun _ _ ht => ht h)

theorem reached_queue {w : World} {as : List Action} {s : State} (hs : Reached w as s) :
    QueueInv s :=
  wp_ok (wp_run (P := fun _ _ => True) (fun _ a h _ => step_queue w a h) as (.init w)
    (along_true _ _)) hs

/-! ## What is to be delivered -/

/-- The application and the intent of a `scheduleReceiver` call. -/
def Event.delivery (processes : Store RecordClass.process ProcessRecord) :
    Event → Option (String8 × Option Intent)
  | .thread app (.scheduleReceiver intent _ _ _) => some ((processes.get app).name, intent)
  | _ => none

def Event.isDelivery : Event → Bool
  | .thread _ (.scheduleReceiver ..) => true
  | _ => false

def Event.forkedPid : Event → Option Int
  | .startViaZygote _ pid => some pid
  | _ => none

/-- The records of both queues. -/
def State.queued (s : State) : List BroadcastRef := s.mParallelBroadcasts ++ s.mOrderedBroadcasts

/-- One delivery for each receiver of each queued record. -/
def State.expected (s : State) : List (String8 × Option Intent) :=
  s.queued.flatMap fun r =>
    (s.receiverInfos r).map fun ri => (ri.mApplicationName, (s.broadcasts.get r).mIntent)

def State.applicationAttached (s : State) (name : String8) : Prop :=
  ∃ p ∈ s.getProcessRecordLocked name, (s.processes.get p).thread ≠ none

/-- The receiver that a filter was registered with is not null. -/
def State.hears (s : State) (bf : FilterRef) : Prop :=
  (s.receiverLists.get (s.filters.get bf).mReceiverList).mReceiver ≠ none

def State.infosAttached (s : State) (infos : List ReceiverInfo) : Prop :=
  ∀ ri ∈ infos, s.applicationAttached ri.mApplicationName

/-- Nobody the record goes to is missing. -/
def State.servable (s : State) (r : BroadcastRef) : Prop :=
  (∀ bf ∈ (s.broadcasts.get r).mBroadcastFilter, s.hears bf) ∧ s.infosAttached (s.receiverInfos r)

def State.parallelServable (s : State) : Prop := ∀ r ∈ s.mParallelBroadcasts, s.servable r

/-- The ordered records are never processed, so they may not go to anybody. -/
structure State.allServable (s : State) : Prop where
  parallel : s.parallelServable
  ordered : ∀ r ∈ s.mOrderedBroadcasts, s.receiverInfos r = []

/-- The call that serves one receiver of the record `b`. -/
def State.deliver (s : State) (b : BroadcastRecord) (ri : ReceiverInfo) : Event :=
  .thread ((s.getProcessRecordLocked ri.mApplicationName).getD ⟨0⟩)
    (.scheduleReceiver b.mIntent b.mMap false b.mSticky)

/-- The `performReceive` calls and the `scheduleReceiver` calls of a record. -/
def State.served (s : State) (r : BroadcastRef) : List Event :=
  let b := s.broadcasts.get r
  b.mBroadcastFilter.map (fun bf => .performReceive bf
    (.performReceive b.mIntent b.mMap false b.mSticky)) ++ (s.receiverInfos r).map (s.deliver b)

def deliveries (log : List Event) : Nat := log.countP Event.isDelivery

theorem deliveries_append (l l' : List Event) :
    deliveries (l ++ l') = deliveries l + deliveries l' :=
  List.countP_append

theorem isSome_delivery (processes : Store RecordClass.process ProcessRecord) (e : Event) :
    (e.delivery processes).isSome = e.isDelivery := by
  unfold Event.delivery Event.isDelivery
  split <;> simp_all

theorem length_filterMap_delivery (processes : Store RecordClass.process ProcessRecord)
    (l : List Event) : (l.filterMap (Event.delivery processes)).length = deliveries l := by
  rw [List.length_filterMap_eq_countP, deliveries]
  simp only [isSome_delivery]

theorem filterMap_deliver {s : State} {infos : List ReceiverInfo} (h : s.infosAttached infos)
    (b : BroadcastRecord) : (infos.map (s.deliver b)).filterMap (Event.delivery s.processes) =
      infos.map fun ri => (ri.mApplicationName, b.mIntent) := by
  rw [List.filterMap_map]
  refine List.filterMap_eq_map_iff_forall_eq_some.mpr fun ri hri => ?_
  obtain ⟨p, hp, -⟩ := h ri hri
  have hname : (s.processes.get p).name = ri.mApplicationName := by
    simpa using List.find?_some (Option.mem_def.mp hp)
  simp [State.deliver, Event.delivery, Option.mem_def.mp hp, hname]

theorem filterMap_served {s : State} {r : BroadcastRef} (h : s.servable r) :
    (s.served r).filterMap (Event.delivery s.processes) =
      (s.receiverInfos r).map fun ri => (ri.mApplicationName, (s.broadcasts.get r).mIntent) := by
  unfold State.served
  rw [List.filterMap_append, filterMap_deliver h.2, List.filterMap_map]
  simp [Function.comp_def, Event.delivery]

theorem deliveries_served (s : State) (r : BroadcastRef) :
    deliveries (s.served r) = (s.receiverInfos r).length := by
  unfold State.served
  rw [deliveries_append]
  simp [deliveries, Event.isDelivery, State.deliver, Function.comp_def]

theorem part_served {s : State} {r : BroadcastRef} {e : Event} (he : e ∈ s.served r) :
    e.part = .receiver := by
  unfold State.served at he
  rcases List.mem_append.mp he with he | he
  · obtain ⟨bf, -, rfl⟩ := List.mem_map.mp he
    rfl
  · obtain ⟨ri, -, rfl⟩ := List.mem_map.mp he
    rfl

/-! ## Other parts deliver nothing -/

abbrev deliveryFrame : Frame State := .same fun s => deliveries s.log

theorem deliveryFrame_emit {e : Event} (he : e.isDelivery = false) (s : State) :
    deliveryFrame.rel s { s with log := s.log ++ [e] } := by
  show deliveries (s.log ++ [e]) = deliveries s.log
  simp [deliveries, he]

theorem isDelivery_of_part {e : Event} (he : e.part ≠ .receiver) : e.isDelivery = false := by
  unfold Event.isDelivery
  split
  · exact absurd rfl he
  · rfl

theorem allowsNull_delivery : AllowsNull deliveryFrame := fun s _ _ => deliveryFrame_emit rfl s

theorem allowsProcesses_delivery : AllowsProcesses deliveryFrame where
  emit s e he _ := deliveryFrame_emit (isDelivery_of_part (by rw [he]; decide)) s
  own _ _ _ _ := rfl

theorem allowsActivities_delivery : AllowsActivities deliveryFrame where
  emit s e he _ := deliveryFrame_emit (isDelivery_of_part (by rw [he]; decide)) s
  record _ _ _ _ := rfl
  new _ _ _ := rfl
  history _ _ := rfl

theorem allowsServices_delivery : AllowsServices deliveryFrame where
  emit s e he _ := deliveryFrame_emit (isDelivery_of_part (by rw [he]; decide)) s
  record _ _ _ _ := rfl

/-- An attaching application gets no broadcast. -/
theorem keeps_attachApplicationLocked_delivery (w : World) (appThread : Option IBinder)
    (pid : Int) :
    Keeps deliveryFrame (attachApplicationLocked w appThread pid) :=
  keeps_attachApplicationLocked w (fun _ => rfl) allowsNull_delivery allowsProcesses_delivery
    allowsActivities_delivery
    (keeps_attachServiceLocked w allowsServices_delivery allowsNull_delivery)
    (fun _ _ _ _ _ => rfl) _ _

/-! ## Processing the queue -/

section
variable {w : World} {r : BroadcastRef} {Q : PUnit → State → Prop} {E : Fault → State → Prop}

/-- With an index set, the loop over the receivers does nothing any more. -/
theorem skip_receiverInfos (k : Nat) (infos : List ReceiverInfo) {s : State}
    (hi : 0 ≤ s.mLastPendingIndex) (hQ : Q ⟨⟩ s) : wp (processReceiverInfos w r k infos) Q E s := by
  induction infos generalizing k with
  | nil => exact hQ
  | cons ri infos ih =>
    simp only [processReceiverInfos, wp_bind, wp_get]
    rw [if_pos hi]
    exact ih (k + 1)

/-- Either every receiver's application is attached and each is served, or some are not
served. -/
theorem processReceiverInfos_spec (k : Nat) (infos : List ReceiverInfo) {s : State}
    (hi : 0 ≤ s.mLastPendingIndex → infos = []) :
    wp (processReceiverInfos w r k infos)
      (fun _ t => (s.infosAttached infos ∧ t = { s with
          log := s.log ++ infos.map (s.deliver (s.broadcasts.get r))
          messages := s.messages + infos.length }) ∨
        (¬ s.infosAttached infos ∧ deliveries t.log < deliveries s.log + infos.length))
      (fun _ _ => ¬ s.infosAttached infos) s := by
  induction infos generalizing k s with
  | nil => exact Or.inl ⟨by simp [State.infosAttached], by simp⟩
  | cons ri infos ih =>
    simp only [processReceiverInfos, processReceiverInfo, wp_bind, wp_get]
    rw [if_neg fun h => List.cons_ne_nil _ _ (hi h)]
    simp only [wp_bind, wp_get]
    cases happ : s.getProcessRecordLocked ri.mApplicationName with
    | none =>
      have hno : ¬ s.infosAttached (ri :: infos) := by
        intro h
        obtain ⟨p, hp, -⟩ := h ri (List.mem_cons_self ..)
        rw [happ] at hp
        cases hp
      simp only [wp_bind, modifyBroadcast, wp_modify]
      refine wp_mono ((keeps_startProcessLocked w allowsProcesses_delivery _).wp s)
        (fun app t ht => skip_receiverInfos _ _ (Int.natCast_nonneg k) ?_) fun _ _ _ => hno
      refine Or.inr ⟨hno, ?_⟩
      have hsame : deliveries t.log = deliveries s.log := ht
      show deliveries t.log < deliveries s.log + (infos.length + 1)
      omega
    | some p =>
      simp only [processCurBroadcastLocked, deref, scheduleBroadcastLocked, wp_bind, wp_pure,
        wp_get]
      refine wp_callThread (fun hnull h => ?_) fun hthread => ?_
      · obtain ⟨q, hq, hne⟩ := h ri (List.mem_cons_self ..)
        rw [happ] at hq
        cases hq
        exact hne hnull
      · rw [wp_modify]
        have hat : s.infosAttached (ri :: infos) ↔ s.infosAttached infos := by
          refine ⟨fun h q hq => h q (List.mem_cons_of_mem _ hq), fun h q hq => ?_⟩
          rcases List.mem_cons.mp hq with rfl | hq
          · exact ⟨p, happ, hthread⟩
          · exact h q hq
        have hev : s.deliver (s.broadcasts.get r) ri = .thread p (.scheduleReceiver
            (s.broadcasts.get r).mIntent (s.broadcasts.get r).mMap false
            (s.broadcasts.get r).mSticky) := by
          simp [State.deliver, happ]
        refine wp_mono (ih (k + 1) (s := { s with log := _, messages := _ })
          fun h => absurd (hi h) (List.cons_ne_nil _ _)) ?_
          fun _ _ h h' => h (hat.mp h')
        rintro ⟨⟩ t (⟨h, rfl⟩ | ⟨h, hlt⟩)
        · refine Or.inl ⟨hat.mpr h, ?_⟩
          rw [List.map_cons, hev, List.length_cons, List.append_assoc]
          congr 1
          dsimp only
          omega
        · refine Or.inr ⟨fun h' => h (hat.mp h'), ?_⟩
          rw [deliveries_append] at hlt
          rw [List.length_cons]
          exact Nat.lt_of_lt_of_eq hlt (by simp [deliveries, Event.isDelivery]; omega)

/-- The filters of a record hear of it one after another, up to a null receiver. -/
theorem performReceives_spec (r : BroadcastRef) (filters : List FilterRef) (s : State) :
    wp (each (performReceive r) filters)
      (fun _ t => (∀ bf ∈ filters, s.hears bf) ∧ t = { s with
        log := s.log ++ filters.map fun bf => .performReceive bf (.performReceive
          (s.broadcasts.get r).mIntent (s.broadcasts.get r).mMap false
          (s.broadcasts.get r).mSticky) })
      (fun _ _ => ¬ ∀ bf ∈ filters, s.hears bf) s := by
  induction filters generalizing s with
  | nil => exact ⟨by simp, by simp⟩
  | cons bf filters ih =>
    simp only [each, performReceive, wp_bind, wp_get]
    split
    · next hnull => exact fun h => h bf (List.mem_cons_self ..) hnull
    · next p hp =>
      have hbf : s.hears bf := by simp [State.hears, hp]
      simp only [emit, wp_modify]
      refine wp_mono (ih _) ?_ fun _ _ h h' => h fun q hq => h' q (List.mem_cons_of_mem _ hq)
      rintro _ t ⟨h, ht⟩
      refine ⟨?_, ?_⟩
      · intro q hq
        rcases List.mem_cons.mp hq with rfl | hq
        · exact hbf
        · exact h q hq
      · rw [ht, List.map_cons, List.append_assoc]
        rfl

/-- The state after all receivers of a record have been served. -/
def State.afterServing (s : State) (r : BroadcastRef) (messages : Nat) : State := { s with
  log := s.log ++ s.served r
  broadcasts := s.broadcasts.update r fun b => { b with mBroadcastFilter := [] }
  messages := messages
  mLastPendingIndex := -1 }

/-- One record, from a state in which the index is negative or the record has no
receivers. -/
theorem processBroadcast_spec (r : BroadcastRef) {s : State}
    (hi : 0 ≤ s.mLastPendingIndex → s.receiverInfos r = []) :
    wp (processBroadcast w r)
      (fun _ t => t.mLastPendingIndex < 0 ∧
        ((s.servable r ∧ ∃ messages, t = s.afterServing r messages) ∨
          (¬ s.servable r ∧ deliveries t.log < deliveries s.log + (s.receiverInfos r).length)))
      (fun _ _ => ¬ s.servable r) s := by
  simp only [processBroadcast, wp_bind, wp_get]
  refine wp_mono (performReceives_spec r _ s) ?_ fun _ _ h h' => h h'.1
  rintro ⟨⟩ t ⟨hfilters, rfl⟩
  simp only [modifyBroadcast, wp_modify]
  refine wp_mono (processReceiverInfos_spec 0 _ hi) ?_ fun _ _ h h' => h h'.2
  rintro ⟨⟩ t (⟨h, rfl⟩ | ⟨h, hlt⟩)
  · refine ⟨(by decide : (-1 : Int) < 0), Or.inl
      ⟨⟨hfilters, h⟩, s.messages + (s.receiverInfos r).length, ?_⟩⟩
    dsimp only
    rw [Store.get_update_self, List.append_assoc]
    rfl
  · refine ⟨(by decide : (-1 : Int) < 0), Or.inr ⟨fun h' => h h'.2, ?_⟩⟩
    rw [deliveries_append] at hlt
    refine Nat.lt_of_lt_of_eq hlt ?_
    have : deliveries ((s.broadcasts.get r).mBroadcastFilter.map fun bf => .performReceive bf
        (.performReceive (s.broadcasts.get r).mIntent (s.broadcasts.get r).mMap false
          (s.broadcasts.get r).mSticky)) = 0 := by
      simp [deliveries, Event.isDelivery]
    rw [this]
    rfl

end

/-- Processing a record changes neither the queue nor what any record has to deliver. -/
theorem allowsRecords_infos :
    AllowsRecords (.same fun s : State => (s.mParallelBroadcasts, s.receiverInfos)) where
  emit _ _ _ _ := rfl
  registry _ _ _ _ _ := rfl
  signal _ _ _ _ _ := rfl
  record s r f hf := by
    refine Prod.ext rfl (funext fun q => ?_)
    simp only [State.receiverInfos, Store.get_update]
    split
    · exact (hf _).infos
    · rfl
  index _ _ := rfl

theorem keeps_processBroadcast_infos (w : World) (r : BroadcastRef) :
    Keeps (.same fun s : State => (s.mParallelBroadcasts, s.receiverInfos))
      (processBroadcast w r) :=
  keeps_processBroadcast w allowsRecords_infos.handling (fun _ _ _ => rfl)
    (keeps_startProcessLocked w ⟨⟨fun _ _ _ _ => rfl⟩, fun _ _ _ _ => rfl⟩) r

/-- How many receivers the parallel records hold. -/
def State.toDeliver (s : State) : Nat :=
  (s.mParallelBroadcasts.map fun r => (s.receiverInfos r).length).sum

/-- How many receivers the ordered records hold. -/
def State.ordered (s : State) : Nat :=
  (s.mOrderedBroadcasts.map fun r => (s.receiverInfos r).length).sum

theorem length_expected (s : State) : s.expected.length = s.toDeliver + s.ordered := by
  simp [State.expected, State.queued, State.toDeliver, State.ordered, List.length_flatMap]

theorem deliveries_flatMap_served (s : State) (l : List BroadcastRef) :
    deliveries (l.flatMap s.served) = (l.map fun r => (s.receiverInfos r).length).sum := by
  induction l with
  | nil => rfl
  | cons r l ih =>
    rw [List.flatMap_cons, deliveries_append, deliveries_served, ih, List.map_cons, List.sum_cons]

/-- After a record has been served, the others are as before. -/
theorem afterServing_other (s : State) {r q : BroadcastRef} (hq : q ≠ r) (messages : Nat) :
    ((s.afterServing r messages).servable q ↔ s.servable q) ∧
      (s.afterServing r messages).served q = s.served q := by
  have hget : (s.afterServing r messages).broadcasts.get q = s.broadcasts.get q :=
    Store.get_update_ne s.broadcasts (fun b => { b with mBroadcastFilter := [] }) hq
  have hinfos : (s.afterServing r messages).receiverInfos q = s.receiverInfos q :=
    congrArg BroadcastRecord.mReceiverInfo hget
  unfold State.servable State.served
  rw [hget, hinfos]
  exact ⟨Iff.rfl, rfl⟩

theorem afterServing_rest (s : State) {r : BroadcastRef} {rest : List BroadcastRef}
    (hr : r ∉ rest) (messages : Nat) :
    ((∀ q ∈ rest, (s.afterServing r messages).servable q) ↔ ∀ q ∈ rest, s.servable q) ∧
      rest.flatMap (s.afterServing r messages).served = rest.flatMap s.served := by
  have hother : ∀ q ∈ rest, _ := fun q hmem =>
    afterServing_other s (r := r) (q := q) (fun e => hr (e ▸ hmem)) messages
  exact ⟨forall₂_congr fun q hmem => (hother q hmem).1,
    List.flatMap_congr fun q hmem => (hother q hmem).2⟩

theorem parallelServable_cons {s : State} {r : BroadcastRef} {rest : List BroadcastRef}
    (hq : s.mParallelBroadcasts = r :: rest) :
    s.parallelServable ↔ s.servable r ∧ ∀ q ∈ rest, s.servable q := by
  simp [State.parallelServable, hq]

theorem toDeliver_cons {s : State} {r : BroadcastRef} {rest : List BroadcastRef}
    (hq : s.mParallelBroadcasts = r :: rest) :
    s.toDeliver =
      (s.receiverInfos r).length + (rest.map fun q => (s.receiverInfos q).length).sum := by
  simp [State.toDeliver, hq]

theorem drainParallelBroadcasts_spec (w : World) (n : Nat) {s : State}
    (hnodup : s.mParallelBroadcasts.Nodup)
    (hi : 0 ≤ s.mLastPendingIndex → ∀ r ∈ s.mParallelBroadcasts.head?, s.receiverInfos r = [])
    (hn : s.mParallelBroadcasts.length ≤ n) :
    wp (drainParallelBroadcasts w n)
      (fun _ t => (s.parallelServable ∧ t.processes = s.processes ∧
          t.log = s.log ++ s.mParallelBroadcasts.flatMap s.served) ∨
        (¬ s.parallelServable ∧ deliveries t.log < deliveries s.log + s.toDeliver))
      (fun _ _ => ¬ s.parallelServable) s := by
  induction n generalizing s with
  | zero =>
    have hq : s.mParallelBroadcasts = [] := List.eq_nil_of_length_eq_zero (Nat.le_zero.mp hn)
    exact Or.inl ⟨by simp [State.parallelServable, hq], rfl, by simp [hq]⟩
  | succ n ih =>
    simp only [drainParallelBroadcasts, wp_bind, wp_get]
    split
    · next hq => exact Or.inl ⟨by simp [State.parallelServable, hq], rfl, by simp [hq]⟩
    · next r rest hq =>
      rw [hq] at hnodup hi hn
      obtain ⟨hr, hrest⟩ := List.nodup_cons.mp hnodup
      have hall := parallelServable_cons hq
      have htotal := toDeliver_cons hq
      rw [wp_bind]
      have hspec := processBroadcast_spec (w := w) r (s := s) fun h => hi h r rfl
      refine wp_mono (wp_and hspec ((keeps_processBroadcast_infos w r).wp s)) ?_
        fun _ _ ⟨h, _⟩ h' => h (hall.mp h').1
      rintro ⟨⟩ t ⟨⟨hneg, hcase⟩, hsame⟩
      obtain ⟨hqueue, hinfos⟩ := Prod.mk.inj hsame
      have htail : t.mParallelBroadcasts.tail = rest := by rw [hqueue, hq]; rfl
      rw [wp_bind, wp_modify]
      have hnext := ih (s := { t with mParallelBroadcasts := t.mParallelBroadcasts.tail })
        (by simpa [htail] using hrest) (fun h => absurd h (Int.not_le.mpr hneg))
        (by simpa [htail] using Nat.le_of_succ_le_succ hn)
      have hrestTotal :
          State.toDeliver { t with mParallelBroadcasts := t.mParallelBroadcasts.tail } =
          (rest.map fun q => (s.receiverInfos q).length).sum := by
        simp only [State.toDeliver, htail]
        exact congrArg (fun f => (rest.map fun q => List.length (f q)).sum) hinfos
      rcases hcase with ⟨hserv, messages, rfl⟩ | ⟨hserv, hlt⟩
      · obtain ⟨hservable, hserved⟩ := afterServing_rest s hr messages
        have hallNext : State.parallelServable { s.afterServing r messages with
            mParallelBroadcasts := (s.afterServing r messages).mParallelBroadcasts.tail } ↔
              ∀ q ∈ rest, s.servable q := by
          unfold State.parallelServable
          rw [htail]
          exact hservable
        refine wp_mono hnext ?_ fun _ _ h h' => h (hallNext.mpr (hall.mp h').2)
        rintro ⟨⟩ u (⟨h, hproc, hlog⟩ | ⟨h, hlt⟩)
        · refine Or.inl ⟨hall.mpr ⟨hserv, hallNext.mp h⟩, hproc, ?_⟩
          rw [hlog, hq, List.flatMap_cons, ← List.append_assoc]
          refine congrArg _ ?_
          dsimp only
          rw [htail]
          exact hserved
        · refine Or.inr ⟨fun h' => h (hallNext.mpr (hall.mp h').2), ?_⟩
          rw [hrestTotal] at hlt
          have hmid : deliveries (s.afterServing r messages).log =
              deliveries s.log + (s.receiverInfos r).length := by
            rw [← deliveries_served]
            exact deliveries_append _ _
          dsimp only at hlt
          omega
      · have hnot : ¬ s.parallelServable := fun h => hserv (hall.mp h).1
        refine wp_mono hnext ?_ fun _ _ _ => hnot
        rintro ⟨⟩ u hu
        refine Or.inr ⟨hnot, ?_⟩
        have hle : deliveries u.log ≤ deliveries t.log +
            (rest.map fun q => (s.receiverInfos q).length).sum := by
          rcases hu with ⟨-, -, hlog⟩ | ⟨-, hu⟩
          · rw [hlog, deliveries_append, deliveries_flatMap_served, ← hrestTotal]
            exact Nat.le_refl _
          · rw [hrestTotal] at hu
            exact Nat.le_of_lt hu
        omega

/-! ## Delivery -/

/-- `processNextBroadcast` serves every receiver of every queued record, or fewer
than all. -/
theorem processNextBroadcast_spec (w : World) {s : State} (h : QueueInv s) :
    wp (processNextBroadcast w)
      (fun _ t => (s.parallelServable ∧ t.processes = s.processes ∧
          t.log = s.log ++ s.mParallelBroadcasts.flatMap s.served) ∨
        (¬ s.parallelServable ∧ deliveries t.log < deliveries s.log + s.toDeliver))
      (fun _ _ => ¬ s.parallelServable) s := by
  simp only [processNextBroadcast, wp_bind, wp_modify, wp_get]
  exact drainParallelBroadcasts_spec w _ (s := { s with mBroadcastScheduled := false }) h.nodup
    h.idle (Nat.le_refl _)

/-- The log only grows. -/
def logFrame : Frame State where
  rel s t := s.log <+: t.log
  refl _ := List.prefix_rfl
  trans := List.IsPrefix.trans

theorem allowsNull_log : AllowsNull logFrame := fun _ _ _ => List.prefix_append _ _

theorem allowsProcesses_log : AllowsProcesses logFrame where
  emit s e _ _ := List.prefix_append s.log [e]
  own _ _ _ _ := List.prefix_rfl

theorem allowsActivities_log : AllowsActivities logFrame where
  emit s e _ _ := List.prefix_append s.log [e]
  record _ _ _ _ := List.prefix_rfl
  new _ _ _ := List.prefix_rfl
  history _ _ := List.prefix_rfl

theorem allowsServices_log : AllowsServices logFrame where
  emit s e _ _ := List.prefix_append s.log [e]
  record _ _ _ _ := List.prefix_rfl

theorem allowsQueue_log : AllowsQueue logFrame where
  emit s e _ _ := List.prefix_append s.log [e]
  registry _ _ _ _ _ := List.prefix_rfl
  signal _ _ _ _ _ := List.prefix_rfl
  record _ _ _ _ := List.prefix_rfl
  index _ _ := List.prefix_rfl
  new _ _ := List.prefix_rfl
  queue _ _ := List.prefix_rfl

theorem keeps_processNextBroadcast_log (w : World) : Keeps logFrame (processNextBroadcast w) :=
  .bind (.modify fun _ => List.prefix_rfl) fun _ => .bind .get fun _ =>
    keeps_drainParallelBroadcasts w allowsQueue_log.handling allowsNull_log
      (keeps_startProcessLocked w allowsProcesses_log) allowsQueue_log.enqueue _

/-- An attach, by the process with this pid and with this thread. -/
def attach (a : Int × IBinder) : Action := .request a.1 (.attachApplication (some a.2))

/-- What a step has added to the log. -/
def State.since (t s : State) : List Event := t.log.drop s.log.length

/-- The pids of the processes that processing the queue starts. -/
def State.startedPids (s : State) (w : World) : List Int :=
  ((final (processNextBroadcast w s)).since s).filterMap Event.forkedPid

/-- Nothing faults while the queue is processed and the started applications attach;
each receiver is sent exactly one `scheduleReceiver` with its record's intent; and
a record with an application that was not running is still there to be finished. -/
def State.Delivered (s : State) (w : World) (attaches : List (Int × IBinder)) : Prop :=
  ∃ t u, processNextBroadcast w s = .ok ⟨⟩ t ∧ run (step w) (attaches.map attach) t = .ok ⟨⟩ u ∧
    ((u.since s).filterMap (Event.delivery u.processes)).Perm s.expected ∧
    ∀ r ∈ s.queued,
      (∃ ri ∈ s.receiverInfos r, s.getProcessRecordLocked ri.mApplicationName = none) →
        t.mPendingRecord = some r ∨ r ∈ t.queued

theorem run_attaches_delivery (w : World) (attaches : List (Int × IBinder)) {s t : State}
    (h : run (step w) (attaches.map attach) s = .ok ⟨⟩ t) :
    deliveries t.log = deliveries s.log ∧ s.log <+: t.log := by
  have hkeeps : ∀ {F : Frame State},
      (∀ appThread pid, Keeps F (attachApplicationLocked w appThread pid)) →
      Keeps F (run (step w) (attaches.map attach)) := fun h => .each _ fun a ha => by
    obtain ⟨b, -, rfl⟩ := List.mem_map.mp ha
    exact h _ _
  have hd := hkeeps (keeps_attachApplicationLocked_delivery w) s
  have hl := hkeeps (keeps_attachApplicationLocked w (fun _ => List.prefix_rfl) allowsNull_log
    allowsProcesses_log allowsActivities_log
    (keeps_attachServiceLocked w allowsServices_log allowsNull_log) allowsQueue_log.signal) s
  rw [h] at hd hl
  exact ⟨hd, hl⟩

theorem deliveries_since {s t : State} (h : s.log <+: t.log) :
    deliveries t.log = deliveries s.log + deliveries (t.since s) := by
  obtain ⟨l, hl⟩ := h
  rw [State.since, ← hl, List.drop_left, deliveries_append]

theorem flatMap_served_delivery {s : State} {l : List BroadcastRef} (h : ∀ r ∈ l, s.servable r) :
    (l.flatMap s.served).filterMap (Event.delivery s.processes) = l.flatMap fun r =>
      (s.receiverInfos r).map fun ri => (ri.mApplicationName, (s.broadcasts.get r).mIntent) := by
  rw [List.filterMap_flatMap]
  exact List.flatMap_congr fun r hr => filterMap_served (h r hr)

/-- **Broadcast delivery.** In every state that a run reaches, and for every order in
which the started applications attach, the queued records are delivered if and only
if no filter's receiver is null, the application of each receiver is attached
before the queue is processed, and no ordered record has a receiver. -/
theorem delivered_iff_allServable (w : World) (as : List Action) (s : State) (hs : Reached w as s)
    (attaches : List (Int × IBinder)) (hall : (attaches.map Prod.fst).Perm (s.startedPids w)) :
    s.Delivered w attaches ↔ s.allServable := by
  have hspec := processNextBroadcast_spec w (reached_queue hs)
  constructor
  · rintro ⟨t, u, ht, hu, hperm, -⟩
    have hst : s.log <+: t.log := by
      have := keeps_processNextBroadcast_log w s
      rwa [ht] at this
    obtain ⟨hdel, htu⟩ := run_attaches_delivery w attaches hu
    have hlen := hperm.length_eq
    rw [length_filterMap_delivery, length_expected] at hlen
    have hsince := deliveries_since (hst.trans htu)
    rcases wp_ok hspec ht with ⟨hparallel, -, hlog⟩ | ⟨-, hlt⟩
    · refine ⟨hparallel, fun r hr => ?_⟩
      rw [hdel, hlog, deliveries_append, deliveries_flatMap_served] at hsince
      have hnone : s.ordered = 0 := by
        rw [State.toDeliver] at hlen
        omega
      have hzero := List.sum_eq_zero_iff_forall_eq_nat.mp hnone _ (List.mem_map_of_mem hr)
      exact List.eq_nil_of_length_eq_zero hzero
    · omega
  · rintro ⟨hparallel, hordered⟩
    cases hx : processNextBroadcast w s with
    | error e t => exact absurd hparallel (wp_error hspec hx)
    | ok v t =>
      obtain ⟨hproc, hlog⟩ : t.processes = s.processes ∧
          t.log = s.log ++ s.mParallelBroadcasts.flatMap s.served := by
        rcases wp_ok hspec hx with ⟨-, hproc, hlog⟩ | ⟨hnot, -⟩
        · exact ⟨hproc, hlog⟩
        · exact absurd hparallel hnot
      have hsince : t.since s = s.mParallelBroadcasts.flatMap s.served := by
        rw [State.since, hlog, List.drop_left]
      have hnone : s.startedPids w = [] := by
        unfold State.startedPids
        rw [hx, show final (.ok v t : EStateM.Result Fault State PUnit) = t from rfl, hsince]
        refine List.filterMap_eq_nil_iff.mpr fun e he => ?_
        obtain ⟨r, -, he⟩ := List.mem_flatMap.mp he
        have := part_served he
        cases e with
        | startViaZygote name pid => cases this
        | _ => rfl
      rw [hnone] at hall
      have hnil : attaches = [] := List.map_eq_nil_iff.mp hall.eq_nil
      subst hnil
      have hexpected : s.expected = s.mParallelBroadcasts.flatMap fun r =>
          (s.receiverInfos r).map fun ri =>
            (ri.mApplicationName, (s.broadcasts.get r).mIntent) := by
        rw [State.expected, State.queued, List.flatMap_append, List.append_right_eq_self]
        exact List.flatMap_eq_nil_iff.mpr fun r hr => by rw [hordered r hr, List.map_nil]
      refine ⟨t, t, hx, rfl, ?_, ?_⟩
      · rw [hsince, hproc, flatMap_served_delivery hparallel, hexpected]
      · rintro r hr ⟨ri, hri, hnone⟩
        rcases List.mem_append.mp hr with hr | hr
        · obtain ⟨p, hp, -⟩ := (hparallel r hr).2 ri hri
          rw [hnone] at hp
          cases hp
        · rw [hordered r hr] at hri
          cases hri

/-- A package whose receiver belongs to an application of its own, beside the activity. -/
def broadcastPackage : PackageManagerService where
  mActivities := [⟨[1], [2], [3], [], []⟩]
  mServices := []
  mReceivers := [⟨[4], [5], [], some ⟨[[6]], [], 0⟩⟩]
  filtered := by simp

/-- The activity is started and sends the broadcast. -/
def sendBroadcast : List Action :=
  [.request 0 (.startActivity none none (some (.ofAction [3])) 0),
    .request 1 (.attachApplication (some (.proxy 1))),
    .request 1 (.broadcastIntent (some (.proxy 1)) (some (.ofAction [6])) none none false false)]

def broadcastState : State :=
  final (run (step (.counting broadcastPackage)) sendBroadcast (init (.counting broadcastPackage)))

theorem reached_broadcastState :
    Reached (.counting broadcastPackage) sendBroadcast broadcastState :=
  eq_ok_final (by decide +kernel)

theorem delivered_iff_allServable_broadcastState :
    broadcastState.Delivered (.counting broadcastPackage) [(2, .proxy 2)] ↔
      broadcastState.allServable :=
  delivered_iff_allServable _ sendBroadcast _ reached_broadcastState _ (by decide +kernel)

/-- The application of the receiver is started and attaches, but the cleared record
is passed on: the queue goes down with a null pointer. -/
theorem broadcastState_not_delivered :
    ¬ ∀ (w : World) (as : List Action) (s : State), Reached w as s →
      ∀ attaches : List (Int × IBinder), (attaches.map Prod.fst).Perm (s.startedPids w) →
        s.Delivered w attaches := by
  intro h
  obtain ⟨t, u, ht, hu, -⟩ := h (.counting broadcastPackage) sendBroadcast broadcastState
    reached_broadcastState [(2, .proxy 2)] (by decide +kernel)
  have hfinal : t = final (processNextBroadcast (.counting broadcastPackage) broadcastState) := by
    rw [ht]; rfl
  subst hfinal
  have hbad : returned (run (step (.counting broadcastPackage)) ([(2, IBinder.proxy 2)].map attach)
      (final (processNextBroadcast (.counting broadcastPackage) broadcastState))) = false := by
    decide +kernel
  rw [hu] at hbad
  cases hbad

end Cdroid.Service
