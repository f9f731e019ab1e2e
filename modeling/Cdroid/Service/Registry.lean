import Cdroid.Service.Callers

/-! The tables of registered receivers: `mReceivers` holds every `BroadcastFilter` in
the order of registration, `mRegisteredReceivers` the `ReceiverList` of each binder.
What the two hold is told by the registrations that the run has made so far. -/

namespace Cdroid.Service
open Cdroid.Lib.Comp Cdroid.Lib.Containers Cdroid.Runtime

/-! ## Registrations -/

/-- What a known caller registers. -/
structure Registration where
  receiver : Option IBinder
  filter : IntentFilter

/-- The filters made for those of the registrations that `p` picks; the `i`-th
registration makes the `i`-th filter. -/
def refs (rs : List Registration) (p : Registration → Bool) : List FilterRef :=
  (rs.zipIdx.filter fun e => p e.1).map fun e => ⟨e.2⟩

theorem mem_refs {rs : List Registration} {p : Registration → Bool} {bf : FilterRef} :
    bf ∈ refs rs p ↔ ∃ r, rs[bf.idx]? = some r ∧ p r = true := by
  simp only [refs, List.mem_map, List.mem_filter]
  constructor
  · rintro ⟨⟨r, i⟩, ⟨hmem, hp⟩, rfl⟩
    exact ⟨r, List.mem_zipIdx_iff_getElem?.mp hmem, hp⟩
  · rintro ⟨r, hr, hp⟩
    exact ⟨(r, bf.idx), ⟨List.mem_zipIdx_iff_getElem?.mpr hr, hp⟩, rfl⟩

theorem refs_append (rs : List Registration) (r : Registration) (p : Registration → Bool) :
    refs (rs ++ [r]) p = refs rs p ++ if p r then [⟨rs.length⟩] else [] := by
  simp only [refs, List.zipIdx_append, List.filter_append, List.map_append, List.zipIdx_cons,
    List.zipIdx_nil, Nat.zero_add]
  cases hp : p r <;> simp [hp]

theorem nodup_refs (rs : List Registration) (p : Registration → Bool) : (refs rs p).Nodup := by
  have hidx : (rs.zipIdx.map Prod.snd).Nodup := by
    rw [List.zipIdx_map_snd]
    exact List.nodup_range'
  have hsub : ((rs.zipIdx.filter fun e => p e.1).map Prod.snd).Nodup :=
    hidx.sublist ((List.filter_sublist).map Prod.snd)
  have heq : refs rs p = ((rs.zipIdx.filter fun e => p e.1).map Prod.snd).map Ref.mk := by
    rw [refs, List.map_map]
    rfl
  rw [heq]
  exact hsub.map fun i j h => congrArg Ref.idx h

/-- All filters, in the order of registration. -/
theorem filter_refs (rs : List Registration) (p : Registration → Bool) (q : FilterRef → Bool)
    (h : ∀ i r, rs[i]? = some r → q ⟨i⟩ = p r) :
    (refs rs fun _ => true).filter q = refs rs p := by
  simp only [refs, List.filter_map, List.filter_true]
  apply congrArg (List.map _)
  apply List.filter_congr
  rintro ⟨r, i⟩ hmem
  exact h i r (List.mem_zipIdx_iff_getElem?.mp hmem)

/-! ## The tables after these registrations -/

def State.filtersOf (s : State) (rl : ReceiverListRef) : List FilterRef :=
  (s.receiverLists.get rl).filters

structure RegistryInv (rs : List Registration) (s : State) : Prop where
  next : s.filters.next = rs.length
  receivers : s.mReceivers = refs rs fun _ => true
  keys : (s.mRegisteredReceivers.map Prod.fst).Nodup
  lists : (s.mRegisteredReceivers.map Prod.snd).Nodup
  live : ∀ e ∈ s.mRegisteredReceivers, s.receiverLists.Live e.2
  binder : ∀ e ∈ s.mRegisteredReceivers, asBinder (s.receiverLists.get e.2).mReceiver = e.1
  content : ∀ e ∈ s.mRegisteredReceivers, s.filtersOf e.2 = refs rs fun r => r.receiver = e.1
  filter : ∀ i r, rs[i]? = some r → ∃ rl, (r.receiver, rl) ∈ s.mRegisteredReceivers ∧
    s.filters.get ⟨i⟩ = ⟨r.filter.mActions, r.filter.mCategories, rl⟩

theorem RegistryInv.init (w : World) : RegistryInv [] (init w) where
  next := rfl
  receivers := rfl
  keys := List.nodup_nil
  lists := List.nodup_nil
  live := by simp [Service.init]
  binder := by simp [Service.init]
  content := by simp [Service.init]
  filter := by simp

/-- The tables alone. -/
structure SameRegistry (s t : State) : Prop where
  receiverLists : t.receiverLists = s.receiverLists
  filters : t.filters = s.filters
  registered : t.mRegisteredReceivers = s.mRegisteredReceivers
  receivers : t.mReceivers = s.mReceivers

theorem RegistryInv.same {rs : List Registration} {s t : State} (h : RegistryInv rs s)
    (hst : SameRegistry s t) : RegistryInv rs t := by
  obtain ⟨hl, hf, hm, hr⟩ := hst
  constructor
  · rw [hf]; exact h.next
  · rw [hr]; exact h.receivers
  · rw [hm]; exact h.keys
  · rw [hm]; exact h.lists
  · rw [hm, hl]; exact h.live
  · rw [hm, hl]; exact h.binder
  · unfold State.filtersOf
    rw [hm, hl]
    exact h.content
  · rw [hm, hf]; exact h.filter

/-- A binder is registered for the first time: its list is empty. -/
theorem RegistryInv.newList {rs : List Registration} {s : State} (h : RegistryInv rs s)
    (w : World) (app : ProcessRef) (receiver : Option InterfacePtr)
    (hnew : s.mRegisteredReceivers.find (asBinder receiver) = none) :
    RegistryInv rs { s with
      receiverLists := s.receiverLists.alloc ⟨app, receiver, []⟩
      mRegisteredReceivers :=
        s.mRegisteredReceivers.insert w.before (asBinder receiver) s.receiverLists.fresh } := by
  have hperm : (s.mRegisteredReceivers.insert w.before (asBinder receiver)
      s.receiverLists.fresh).Perm
      ((asBinder receiver, s.receiverLists.fresh) :: s.mRegisteredReceivers) :=
    OrdMap.insert_perm hnew _
  have hget : ∀ e ∈ s.mRegisteredReceivers,
      (s.receiverLists.alloc ⟨app, receiver, []⟩).get e.2 = s.receiverLists.get e.2 :=
    fun e he => Store.get_alloc_live _ (h.live e he)
  have hfresh : ∀ r ∈ rs, r.receiver ≠ asBinder receiver := by
    intro r hr e
    obtain ⟨i, hi⟩ := List.mem_iff_getElem?.mp hr
    obtain ⟨rl, hmem, -⟩ := h.filter i r hi
    exact OrdMap.find_none.mp hnew _ hmem e
  constructor
  · exact h.next
  · exact h.receivers
  · apply (hperm.map Prod.fst).nodup_iff.mpr
    rw [List.map_cons, List.nodup_cons]
    refine ⟨fun hmem => ?_, h.keys⟩
    obtain ⟨e, he, hk⟩ := List.mem_map.mp hmem
    exact OrdMap.find_none.mp hnew e he hk
  · apply (hperm.map Prod.snd).nodup_iff.mpr
    rw [List.map_cons, List.nodup_cons]
    refine ⟨fun hmem => ?_, h.lists⟩
    obtain ⟨e, he, hk⟩ := List.mem_map.mp hmem
    exact (h.live e he).ne_fresh hk
  · intro e he
    rcases List.mem_cons.mp (hperm.mem_iff.mp he) with rfl | he
    · exact Store.live_fresh_alloc _ _
    · exact (h.live e he).alloc _
  · intro e he
    rcases List.mem_cons.mp (hperm.mem_iff.mp he) with rfl | he
    · exact congrArg (fun l => asBinder (ReceiverList.mReceiver l)) (Store.get_alloc_fresh _ _)
    · exact (congrArg (fun l => asBinder (ReceiverList.mReceiver l)) (hget e he)).trans
        (h.binder e he)
  · intro e he
    rcases List.mem_cons.mp (hperm.mem_iff.mp he) with rfl | he
    · have hnone : refs rs (fun r => r.receiver = asBinder receiver) = [] := by
        apply List.eq_nil_iff_forall_not_mem.mpr
        intro bf hbf
        obtain ⟨r, hr, he⟩ := mem_refs.mp hbf
        exact hfresh r (List.mem_of_getElem? hr) (by simpa using he)
      rw [hnone]
      exact congrArg ReceiverList.filters (Store.get_alloc_fresh _ _)
    · exact (congrArg ReceiverList.filters (hget e he)).trans (h.content e he)
  · intro i r hr
    obtain ⟨rl, hmem, hf⟩ := h.filter i r hr
    exact ⟨rl, hperm.mem_iff.mpr (List.mem_cons_of_mem _ hmem), hf⟩

/-- A filter is entered in the list of its binder and in `mReceivers`. -/
theorem RegistryInv.newFilter {rs : List Registration} {s : State} (h : RegistryInv rs s)
    {r : Registration} {rl : ReceiverListRef} (hrl : (r.receiver, rl) ∈ s.mRegisteredReceivers) :
    RegistryInv (rs ++ [r]) { s with
      filters := s.filters.alloc ⟨r.filter.mActions, r.filter.mCategories, rl⟩
      receiverLists := s.receiverLists.update rl fun l =>
        { l with filters := l.filters ++ [s.filters.fresh] }
      mReceivers := s.mReceivers ++ [s.filters.fresh] } := by
  have hfresh : s.filters.fresh = ⟨rs.length⟩ := congrArg Ref.mk h.next
  have hkey : ∀ e ∈ s.mRegisteredReceivers, e.2 = rl ↔ r.receiver = e.1 := by
    intro e he
    constructor
    · rintro rfl
      exact congrArg Prod.fst (List.inj_on_of_nodup_map h.lists hrl he rfl)
    · intro hk
      exact congrArg Prod.snd (List.inj_on_of_nodup_map h.keys he hrl hk.symm)
  constructor
  · show s.filters.next + 1 = _
    rw [h.next, List.length_append]
    rfl
  · rw [refs_append, ← h.receivers, hfresh]
    rfl
  · exact h.keys
  · exact h.lists
  · exact h.live
  · intro e he
    rw [← h.binder e he]
    apply congrArg asBinder
    show ReceiverList.mReceiver (Store.get _ _) = _
    rw [Store.get_update]
    split <;> rfl
  · intro e he
    rw [refs_append, ← h.content e he, ← hfresh]
    show ReceiverList.filters (Store.get _ _) = _
    rw [Store.get_update]
    by_cases hk : e.2 = rl
    · rw [if_pos hk, if_pos (by simpa using (hkey e he).mp hk)]
      rfl
    · rw [if_neg hk, if_neg (by simpa using fun hr => hk ((hkey e he).mpr hr)), List.append_nil]
      rfl
  · intro i q hq
    by_cases hi : i < rs.length
    · rw [List.getElem?_append_left hi] at hq
      obtain ⟨rl', hmem, hf⟩ := h.filter i q hq
      refine ⟨rl', hmem, ?_⟩
      rw [← hf]
      apply Store.get_alloc_live
      rw [Store.Live, h.next]
      exact hi
    · have hle := Nat.le_of_not_lt hi
      rw [List.getElem?_append_right hle] at hq
      have hzero : i = rs.length := by
        have hlt := (List.getElem?_eq_some_iff.mp hq).1
        rw [List.length_singleton] at hlt
        omega
      subst hzero
      rw [Nat.sub_self] at hq
      cases hq
      refine ⟨rl, hrl, ?_⟩
      rw [← hfresh]
      exact Store.get_alloc_fresh _ _

/-! ## Registering -/

/-- With the tables of `u` and with more in the log. -/
def State.tabled (s u : State) (l : List Event) : State := { s with
  log := s.log ++ l
  receiverLists := u.receiverLists
  filters := u.filters
  mRegisteredReceivers := u.mRegisteredReceivers
  mReceivers := u.mReceivers }

/-- Only the tables have been changed between the two states, and uses of a null `thread`
recorded. -/
def State.OnlyTables (s t : State) : Prop :=
  ∃ l, (∀ e ∈ l, Event.isNull e = true) ∧ t = s.tabled t l

theorem State.OnlyNulls.sameRegistry {s t : State} (h : s.OnlyNulls t) : SameRegistry s t := by
  obtain ⟨l, -, rfl⟩ := h
  exact ⟨rfl, rfl, rfl, rfl⟩

theorem State.OnlyNulls.onlyTables {s t : State} (h : s.OnlyNulls t) : s.OnlyTables t := by
  obtain ⟨l, hl, rfl⟩ := h
  exact ⟨l, hl, rfl⟩

theorem State.OnlyTables.refl (s : State) : s.OnlyTables s := (State.OnlyNulls.refl s).onlyTables

theorem State.OnlyTables.of_log {s t : State} (h : t = s.tabled t []) : s.OnlyTables t :=
  ⟨[], by simp, h⟩

theorem State.OnlyTables.trans {s t u : State} (h : s.OnlyTables t) (h' : t.OnlyTables u) :
    s.OnlyTables u := by
  obtain ⟨l, hl, ht⟩ := h
  obtain ⟨l', hl', hu⟩ := h'
  refine ⟨l ++ l', List.forall_mem_append.mpr ⟨hl, hl'⟩, ?_⟩
  calc u = t.tabled u l' := hu
    _ = (s.tabled t l).tabled u l' := congrArg (fun v : State => v.tabled u l') ht
    _ = s.tabled u (l ++ l') := by simp [State.tabled]

section
variable {w : World} {rs : List Registration} {s : State}

theorem receiverListFor_spec (h : RegistryInv rs s) (app : ProcessRef)
    (receiver : Option InterfacePtr) :
    wp (receiverListFor w app receiver)
      (fun rl t => RegistryInv rs t ∧ (asBinder receiver, rl) ∈ t.mRegisteredReceivers ∧
        s.OnlyTables t)
      (fun _ _ => False) s := by
  simp only [receiverListFor, wp_bind, wp_get]
  cases hfind : s.mRegisteredReceivers.find (asBinder receiver) with
  | some rl => exact ⟨h, OrdMap.mem_of_find hfind, .refl s⟩
  | none =>
    refine ⟨h.newList w app receiver hfind, ?_, .of_log (by simp [State.tabled])⟩
    exact (OrdMap.insert_perm hfind _).mem_iff.mpr (List.mem_cons_self ..)

theorem addFilter_spec (h : RegistryInv rs s) (app : ProcessRef) (receiver : Option InterfacePtr)
    (filter : Option IntentFilter) :
    wp (addFilter w app receiver filter)
      (fun _ t => s.OnlyTables t ∧ ∃ inf ∈ filter, RegistryInv (rs ++ [⟨asBinder receiver, inf⟩]) t)
      (fun _ t => filter = none ∧ RegistryInv rs t) s := by
  rw [addFilter, wp_bind]
  apply wp_mono (receiverListFor_spec h app receiver)
  · rintro rl t ⟨ht, hmem, hst⟩
    cases filter with
    | none => exact ⟨rfl, ht⟩
    | some inf =>
      simp only [deref, wp_bind, wp_pure, wp_get, wp_modify]
      refine ⟨hst.trans (.of_log (by simp [State.tabled])), inf, rfl, ?_⟩
      exact ht.newFilter (r := ⟨asBinder receiver, inf⟩) hmem
  · exact fun _ _ he => he.elim

/-- An unknown caller registers nothing. -/
theorem registerReceiverLocked_unknown {caller : Option InterfacePtr}
    (hcaller : s.processOf (asBinder caller) = none) (receiver : Option InterfacePtr)
    (filter : Option IntentFilter) :
    wp (registerReceiverLocked w caller receiver filter)
      (fun ret t => ret = -1 ∧ s.OnlyNulls t) (fun _ _ => False) s := by
  rw [registerReceiverLocked, wp_bind]
  apply wp_mono (getProcessRecordLocked_spec caller s)
  · rintro found t ⟨rfl, ht⟩
    rw [hcaller]
    exact ⟨rfl, ht⟩
  · exact fun _ _ he => he

theorem registerReceiverLocked_known (h : RegistryInv rs s) {caller : Option InterfacePtr}
    (hcaller : s.processOf (asBinder caller) ≠ none) (receiver : Option InterfacePtr)
    (filter : Option IntentFilter) :
    wp (registerReceiverLocked w caller receiver filter)
      (fun _ t => s.OnlyTables t ∧ ∃ inf ∈ filter, RegistryInv (rs ++ [⟨asBinder receiver, inf⟩]) t)
      (fun _ t => filter = none ∧ RegistryInv rs t) s := by
  rw [registerReceiverLocked, wp_bind]
  apply wp_mono (getProcessRecordLocked_spec caller s)
  · rintro found t ⟨rfl, ht⟩
    cases hfound : s.processOf (asBinder caller) with
    | none => exact absurd hfound hcaller
    | some app =>
      rw [wp_bind]
      apply wp_mono (addFilter_spec (h.same ht.sameRegistry) app receiver filter)
      · rintro _ u ⟨hu, hinf⟩
        exact ⟨ht.onlyTables.trans hu, hinf⟩
      · exact fun _ _ he => he
  · exact fun _ _ he => he.elim

end

/-! ## Runs -/

/-- What a step registers: nothing for an unknown caller. -/
def State.registers (s : State) : Action → List Registration
  | .request _ (.registerReceiver caller receiver (some filter)) =>
    if s.processOf caller = none then [] else [⟨receiver, filter⟩]
  | _ => []

abbrev registryFrame (rs : List Registration) : Frame State := .invariant (RegistryInv rs)

section
variable (rs : List Registration)

theorem allowsProcesses_registry : AllowsProcesses (registryFrame rs) where
  emit _ _ _ _ h := h.same ⟨rfl, rfl, rfl, rfl⟩
  own _ _ _ _ h := h.same ⟨rfl, rfl, rfl, rfl⟩

theorem allowsActivities_registry : AllowsActivities (registryFrame rs) where
  emit _ _ _ _ h := h.same ⟨rfl, rfl, rfl, rfl⟩
  record _ _ _ _ h := h.same ⟨rfl, rfl, rfl, rfl⟩
  new _ _ _ h := h.same ⟨rfl, rfl, rfl, rfl⟩
  history _ _ h := h.same ⟨rfl, rfl, rfl, rfl⟩

theorem allowsBinding_registry : AllowsBinding (registryFrame rs) where
  emit _ _ _ _ h := h.same ⟨rfl, rfl, rfl, rfl⟩
  record _ _ _ _ h := h.same ⟨rfl, rfl, rfl, rfl⟩
  new _ _ _ h := h.same ⟨rfl, rfl, rfl, rfl⟩
  list _ _ h := h.same ⟨rfl, rfl, rfl, rfl⟩
  lists _ _ _ _ h := h.same ⟨rfl, rfl, rfl, rfl⟩
  connection _ _ h := h.same ⟨rfl, rfl, rfl, rfl⟩

theorem allowsHandling_registry : AllowsHandling (registryFrame rs) where
  emit _ _ _ _ h := h.same ⟨rfl, rfl, rfl, rfl⟩
  signal _ _ _ _ _ h := h.same ⟨rfl, rfl, rfl, rfl⟩
  record _ _ _ _ h := h.same ⟨rfl, rfl, rfl, rfl⟩
  index _ _ h := h.same ⟨rfl, rfl, rfl, rfl⟩

theorem allowsEnqueue_registry : AllowsEnqueue (registryFrame rs) where
  signal _ _ _ _ _ h := h.same ⟨rfl, rfl, rfl, rfl⟩
  new _ _ h := h.same ⟨rfl, rfl, rfl, rfl⟩
  queue _ _ h := h.same ⟨rfl, rfl, rfl, rfl⟩

/-- Only `registerReceiver` changes the tables. -/
theorem keeps_step_registry (w : World) (a : Action)
    (ha : ∀ pid caller receiver filter,
      a ≠ .request pid (.registerReceiver caller receiver filter)) :
    Keeps (registryFrame rs) (step w a) := by
  have hn : AllowsNull (registryFrame rs) := fun _ _ _ h => h.same ⟨rfl, rfl, rfl, rfl⟩
  have hx : AllowsCasts (registryFrame rs) := fun _ h => h.same ⟨rfl, rfl, rfl, rfl⟩
  have hp := keeps_startProcessLocked w (allowsProcesses_registry rs)
  cases a with
  | handleMessage =>
    exact keeps_handleMessage w (allowsHandling_registry rs) hn hp (allowsEnqueue_registry rs)
  | request pid call =>
    apply keeps_requestWith w hx hn hp (allowsActivities_registry rs) (allowsBinding_registry rs)
    · intro appThread _
      exact keeps_attachApplicationLocked w hx hn (allowsProcesses_registry rs)
        (allowsActivities_registry rs)
        (keeps_attachServiceLocked w (allowsBinding_registry rs).toAllowsServices hn)
        (allowsHandling_registry rs).signal appThread pid
    · rintro caller receiver filter rfl
      exact absurd rfl (ha pid caller receiver filter)
    · intro caller intent resultTo map serialized sticky _ p
      exact keeps_broadcastIntentLocked w (allowsHandling_registry rs).signal hn
        (keeps_enqueueBroadcast (allowsEnqueue_registry rs)) _ _ _ _ _

end

section
variable {w : World} {rs : List Registration} {s : State}

/-- A request to register, whatever becomes of it. -/
theorem registerReceiver_step (h : RegistryInv rs s) (pid : Int)
    (caller receiver : Option IBinder) (filter : Option IntentFilter) :
    let a := Action.request pid (.registerReceiver caller receiver filter)
    wp (step w a) (fun _ => RegistryInv (rs ++ s.registers a))
      (fun _ => RegistryInv (rs ++ s.registers a)) s := by
  intro a
  have hp : ∀ n, RegistryInv rs { s with proxies := n } := fun n => h.same ⟨rfl, rfl, rfl, rfl⟩
  simp only [a, step, request, wp_bind]
  apply wp_interfaceCast
  rintro p m rfl
  apply wp_interfaceCast
  rintro q n rfl
  by_cases hcaller : s.processOf (asBinder p) = none
  · have hnil : s.registers a = [] := by
      cases filter with
      | none => rfl
      | some inf => exact if_pos hcaller
    rw [hnil, List.append_nil]
    apply wp_mono (registerReceiverLocked_unknown (s := { s with proxies := n }) hcaller q filter)
    · rintro ret t ⟨-, ht⟩
      exact (hp n).same ht.sameRegistry
    · exact fun _ _ he => he.elim
  · apply wp_mono (registerReceiverLocked_known (hp n) hcaller q filter)
    · rintro ret t ⟨-, inf, hinf, ht⟩
      rw [Option.mem_def] at hinf
      subst hinf
      have hone : s.registers a = [⟨asBinder q, inf⟩] := if_neg hcaller
      rw [hone]
      exact ht
    · rintro e t ⟨rfl, ht⟩
      rw [show s.registers a = [] from rfl, List.append_nil]
      exact ht

theorem step_registry (h : RegistryInv rs s) (a : Action) :
    wp (step w a) (fun _ => RegistryInv (rs ++ s.registers a))
      (fun _ => RegistryInv (rs ++ s.registers a)) s := by
  by_cases ha : ∃ pid caller receiver filter,
      a = .request pid (.registerReceiver caller receiver filter)
  · obtain ⟨pid, caller, receiver, filter, rfl⟩ := ha
    exact registerReceiver_step h pid caller receiver filter
  · have hnil : s.registers a = [] := by
      unfold State.registers
      split
      · exact absurd ⟨_, _, _, _, rfl⟩ ha
      · rfl
    rw [hnil, List.append_nil]
    have hkeeps := keeps_step_registry rs w a fun pid caller receiver filter e =>
      ha ⟨pid, caller, receiver, filter, e⟩
    exact wp_mono (hkeeps.wp s) (fun _ _ ht => ht h) fun _ _ ht => ht h

theorem run_registry (w : World) (as : List Action) :
    RegistryInv (trail State.registers (step w) as (init w))
      (final (run (step w) as (init w))) := by
  apply wp_final
  have h := wp_run_trail State.registers (P := fun _ _ => True) (I := RegistryInv)
    (J := fun rs _ => RegistryInv rs) (fun rs s a hs _ => step_registry (w := w) hs a) as (.init w)
    (along_true _ _)
  rwa [List.nil_append] at h

end

/-! ## Consistent tables -/

/-- The keys of the lists that the filter lies in, with repetitions. -/
def State.keysOf (s : State) (bf : FilterRef) : List (Option IBinder) :=
  s.mRegisteredReceivers.flatMap fun e =>
    ((s.filtersOf e.2).filter fun q => q = bf).map fun _ => e.1

/-- The `i`-th filter of `mReceivers` lies once in the list of the binder of the `i`-th
registration and in no other list, and the lists hold no other filters. -/
structure State.RegistryConsistent (s : State) (rs : List Registration) : Prop where
  listed : List.Forall₂ (fun bf r => s.keysOf bf = [r.receiver]) s.mReceivers rs
  registered : ∀ e ∈ s.mRegisteredReceivers, ∀ bf ∈ s.filtersOf e.2, bf ∈ s.mReceivers

/-- A binder that is a key picks the one entry of the map it is the key of. -/
theorem flatMap_key {κ β : Type} [DecidableEq κ] {m : OrdMap κ β} (h : (m.map Prod.fst).Nodup)
    {k : κ} {b : β} (hm : (k, b) ∈ m) :
    (m.flatMap fun e => if k = e.1 then [e.1] else []) = [k] := by
  induction m with
  | nil => cases hm
  | cons e m ih =>
    rw [List.map_cons, List.nodup_cons] at h
    rw [List.flatMap_cons]
    by_cases hk : k = e.1
    · have hrest : (m.flatMap fun e => if k = e.1 then [e.1] else []) = [] := by
        apply List.flatMap_eq_nil_iff.mpr
        intro d hd
        apply if_neg
        rintro rfl
        exact h.1 (hk ▸ List.mem_map_of_mem hd)
      rw [hrest, if_pos hk, hk]
      rfl
    · rcases List.mem_cons.mp hm with rfl | hm
      · exact absurd rfl hk
      · rw [if_neg hk, List.nil_append]
        exact ih h.2 hm

theorem RegistryInv.keysOf {rs : List Registration} {s : State} (h : RegistryInv rs s) {i : Nat}
    {r : Registration} (hr : rs[i]? = some r) : s.keysOf ⟨i⟩ = [r.receiver] := by
  obtain ⟨rl, hmem, -⟩ := h.filter i r hr
  rw [← flatMap_key h.keys hmem]
  apply List.flatMap_congr
  intro e he
  rw [h.content e he]
  by_cases hk : r.receiver = e.1
  · have hin : (⟨i⟩ : FilterRef) ∈ refs rs fun r => r.receiver = e.1 :=
      mem_refs.mpr ⟨r, hr, by simpa using hk⟩
    rw [if_pos hk, List.filter_eq, (nodup_refs _ _).count, if_pos hin]
    rfl
  · have hout : ∀ q ∈ refs rs (fun r => r.receiver = e.1), ¬ q = ⟨i⟩ := by
      rintro q hq rfl
      obtain ⟨r', hr', hk'⟩ := mem_refs.mp hq
      rw [hr] at hr'
      cases hr'
      exact hk (by simpa using hk')
    rw [if_neg hk, List.filter_eq_nil_iff.mpr fun q hq => by simpa using hout q hq]
    rfl

theorem RegistryInv.consistent {rs : List Registration} {s : State} (h : RegistryInv rs s) :
    s.RegistryConsistent rs := by
  have hall : s.mReceivers = rs.zipIdx.map fun e => ⟨e.2⟩ := by
    rw [h.receivers, refs, List.filter_true]
  constructor
  · rw [hall]
    apply List.forall₂_iff_get.mpr
    refine ⟨by simp, fun i hi hj => ?_⟩
    have hget : (rs.zipIdx.map fun e => (⟨e.2⟩ : FilterRef)).get ⟨i, hi⟩ = ⟨i⟩ := by simp
    rw [hget]
    exact h.keysOf (List.getElem?_eq_getElem hj)
  · intro e he bf hbf
    rw [h.content e he] at hbf
    obtain ⟨r, hr, -⟩ := mem_refs.mp hbf
    rw [h.receivers]
    exact mem_refs.mpr ⟨r, hr, rfl⟩

/-- **Registration.** After every run, also one that a fault ends, the two tables agree
on what has been registered, and a request by an unknown caller changes neither. -/
theorem registry_consistent (w : World) (as : List Action) :
    (final (run (step w) as (init w))).RegistryConsistent
        (trail State.registers (step w) as (init w)) ∧
      ∀ pid caller receiver filter, (final (run (step w) as (init w))).processOf caller = none →
        ∃ t, step w (.request pid (.registerReceiver caller receiver filter))
            (final (run (step w) as (init w))) = .ok ⟨⟩ t ∧
          SameRegistry (final (run (step w) as (init w))) t := by
  refine ⟨(run_registry w as).consistent, ?_⟩
  generalize final (run (step w) as (init w)) = s
  intro pid caller receiver filter hcaller
  have hspec : wp (step w (.request pid (.registerReceiver caller receiver filter)))
      (fun _ t => SameRegistry s t) (fun _ _ => False) s := by
    simp only [step, request, wp_bind]
    apply wp_interfaceCast
    rintro p m rfl
    apply wp_interfaceCast
    intro q n _
    apply wp_mono (registerReceiverLocked_unknown (s := { s with proxies := n }) hcaller q filter)
    · rintro ret t ⟨-, ht⟩
      exact ⟨ht.sameRegistry.1, ht.sameRegistry.2, ht.sameRegistry.3, ht.sameRegistry.4⟩
    · exact fun _ _ he => he
  unfold wp at hspec
  cases hx : step w (.request pid (.registerReceiver caller receiver filter)) s with
  | ok v t =>
    rw [hx] at hspec
    exact ⟨t, rfl, hspec⟩
  | error e t =>
    rw [hx] at hspec
    cases hspec

end Cdroid.Service
