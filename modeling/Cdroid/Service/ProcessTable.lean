import Cdroid.Service.Effects
import Mathlib.Data.List.Nodup

/-! The process table: `mProcesses` and `mProcessesPending`. Every record gets
there by `startProcessLocked` and leaves the pending list, with its thread, by
`attachApplicationLocked`; no other function touches the table. The table stays
consistent over every run in which an attaching process has something waiting for
it and no attached process attaches again. -/

namespace Cdroid.Service
open Cdroid.Lib.Comp Cdroid.Lib.Containers Cdroid.Runtime

/-- `startViaZygote` succeeds, with a pid that no process forked or killed so far
has had. -/
def World.Fresh (w : World) : Prop :=
  ∀ log, (w.zygote log).ret = 0 ∧ ∀ e ∈ log,
    e ≠ .killProcessByPid (w.zygote log).pid ∧ ∀ name, e ≠ .startViaZygote name (w.zygote log).pid

/-- The names in `mProcesses` are pairwise distinct, and each of its records
either waits for its process or has a thread in a process that was not killed. -/
def State.TableConsistent (s : State) : Prop :=
  (s.mProcesses.map fun p => (s.processes.get p).name).Nodup ∧
  ∀ p ∈ s.mProcesses,
    (s.mProcessesPending.count p = 1 ∧ (s.processes.get p).thread = none) ∨
    (p ∉ s.mProcessesPending ∧ (s.processes.get p).thread ≠ none ∧
      .killProcessByPid (s.processes.get p).pid ∉ s.log)

/-- What makes the table consistent, step after step. -/
structure TableInv (s : State) : Prop where
  live : ∀ p ∈ s.mProcesses, s.processes.Live p
  pending : ∀ p ∈ s.mProcessesPending, p ∈ s.mProcesses
  once : s.mProcessesPending.Nodup
  names : (s.mProcesses.map fun p => (s.processes.get p).name).Nodup
  pids : ∀ p ∈ s.mProcesses, ∀ q ∈ s.mProcesses,
    (s.processes.get p).pid = (s.processes.get q).pid → p = q
  forked : ∀ p ∈ s.mProcesses, ∃ name, .startViaZygote name (s.processes.get p).pid ∈ s.log
  unkilled : ∀ p ∈ s.mProcesses, .killProcessByPid (s.processes.get p).pid ∉ s.log
  threads : ∀ p ∈ s.mProcesses, (s.processes.get p).thread = none ↔ p ∈ s.mProcessesPending

theorem TableInv.consistent {s : State} (h : TableInv s) : s.TableConsistent := by
  refine ⟨h.names, fun p hp => ?_⟩
  by_cases hpend : p ∈ s.mProcessesPending
  · exact Or.inl ⟨List.count_eq_one_of_mem h.once hpend, (h.threads p hp).mpr hpend⟩
  · exact Or.inr ⟨hpend, fun ht => hpend ((h.threads p hp).mp ht), h.unkilled p hp⟩

theorem TableInv.init (w : World) : TableInv (init w) where
  live := by simp [Service.init]
  pending := by simp [Service.init]
  once := by simp [Service.init]
  names := by simp [Service.init]
  pids := by simp [Service.init]
  forked := by simp [Service.init]
  unkilled := by simp [Service.init]
  threads := by simp [Service.init]

/-- Only the table, and the forks and kills in the log, matter. -/
theorem TableInv.emit {s : State} {e : Event} (h : TableInv s)
    (he : ∀ p ∈ s.mProcesses, e ≠ .killProcessByPid (s.processes.get p).pid) :
    TableInv { s with log := s.log ++ [e] } := by
  refine { h with forked := fun p hp => ?_, unkilled := fun p hp hk => ?_ }
  · obtain ⟨name, hn⟩ := h.forked p hp
    exact ⟨name, List.mem_append_left _ hn⟩
  · rcases List.mem_append.mp hk with hk | hk
    · exact h.unkilled p hp hk
    · exact he p hp (List.mem_singleton.mp hk).symm

theorem TableInv.same {s t : State} (h : TableInv s) (hp : t.processes = s.processes)
    (hm : t.mProcesses = s.mProcesses) (hn : t.mProcessesPending = s.mProcessesPending)
    (hl : t.log = s.log) : TableInv t := by
  constructor
  · rw [hm, hp]; exact h.live
  · rw [hm, hn]; exact h.pending
  · rw [hn]; exact h.once
  · rw [hm, hp]; exact h.names
  · rw [hm, hp]; exact h.pids
  · rw [hm, hp, hl]; exact h.forked
  · rw [hm, hp, hl]; exact h.unkilled
  · rw [hm, hp, hn]; exact h.threads

/-! ## The parts that leave the table alone -/

abbrev tableFrame : Frame State := .invariant TableInv

theorem tableFrame_emit {e : Event} (he : e.part ≠ .process) (s : State) :
    tableFrame.rel s { s with log := s.log ++ [e] } :=
  fun h => h.emit fun p _ hk => he (by rw [hk]; rfl)

theorem allowsNull_table : AllowsNull tableFrame :=
  fun _ _ _ h => h.emit fun _ _ hk => by cases hk

theorem allowsProxies_table : AllowsProxies tableFrame := fun _ _ h => h.same rfl rfl rfl rfl

theorem allowsActivities_table : AllowsActivities tableFrame where
  emit s e he _ := tableFrame_emit (by rw [he]; decide) s
  record _ _ _ _ h := h.same rfl rfl rfl rfl
  new _ _ _ h := h.same rfl rfl rfl rfl
  history _ _ h := h.same rfl rfl rfl rfl

theorem allowsBinding_table : AllowsBinding tableFrame where
  emit s e he _ := tableFrame_emit (by rw [he]; decide) s
  record _ _ _ _ h := h.same rfl rfl rfl rfl
  new _ _ _ h := h.same rfl rfl rfl rfl
  list _ _ h := h.same rfl rfl rfl rfl
  lists _ _ _ _ h := h.same rfl rfl rfl rfl
  connection _ _ h := h.same rfl rfl rfl rfl

theorem allowsQueue_table : AllowsQueue tableFrame where
  emit s e he _ := tableFrame_emit (by rw [he]; decide) s
  registry _ _ _ _ _ h := h.same rfl rfl rfl rfl
  signal _ _ _ _ _ h := h.same rfl rfl rfl rfl
  record _ _ _ _ h := h.same rfl rfl rfl rfl
  index _ _ h := h.same rfl rfl rfl rfl
  new _ _ h := h.same rfl rfl rfl rfl
  queue _ _ h := h.same rfl rfl rfl rfl

/-! ## Starting a process -/

/-- The state after `startProcessLocked` has added a record for a new process. -/
def State.started (s : State) (name : String8) (pid : Int) : State := { s with
  processes := s.processes.alloc ⟨none, name, pid⟩
  mProcesses := s.mProcesses ++ [s.processes.fresh]
  mProcessesPending := s.mProcessesPending ++ [s.processes.fresh]
  log := s.log ++ [.startViaZygote name pid] }

theorem wp_startProcessLocked {w : World} {name : String8} {s : State}
    {Q : ProcessRef → State → Prop} {E : Fault → State → Prop} (hret : (w.zygote s.log).ret = 0)
    (hknown : ∀ app, s.getProcessRecordLocked name = some app → Q app s)
    (hnew : s.getProcessRecordLocked name = none →
      Q s.processes.fresh (s.started name (w.zygote s.log).pid)) :
    wp (startProcessLocked w name) Q E s := by
  unfold startProcessLocked
  simp only [wp_bind, wp_get]
  split
  · next app hs => exact hknown app hs
  · next hs =>
    simp only [emit, wp_bind, wp_modify]
    exact wp_when (fun _ => hnew hs) fun h => absurd hret h

/-- A record that `startProcessLocked` adds has a name and a pid of its own. -/
theorem TableInv.start {s : State} {name : String8} {pid : Int} (h : TableInv s)
    (hname : s.getProcessRecordLocked name = none)
    (hpid : ∀ e ∈ s.log, e ≠ .killProcessByPid pid ∧ ∀ n, e ≠ .startViaZygote n pid) :
    TableInv (s.started name pid) := by
  have hold : ∀ p ∈ s.mProcesses, (s.processes.alloc ⟨none, name, pid⟩).get p = s.processes.get p :=
    fun p hp => Store.get_alloc_live _ (h.live p hp)
  have hne : ∀ p ∈ s.mProcesses, p ≠ s.processes.fresh := fun p hp => (h.live p hp).ne_fresh
  have hother : ∀ p ∈ s.mProcesses, (s.processes.get p).pid ≠ pid := by
    intro p hp e
    obtain ⟨n, hn⟩ := h.forked p hp
    exact (hpid _ hn).2 n (by rw [e])
  have hnew : ∀ p ∈ s.mProcesses, (s.processes.get p).name ≠ name := by
    intro p hp e
    have := List.find?_eq_none.mp hname p hp
    simp [e] at this
  unfold State.started
  constructor
  · simp only [List.mem_append, List.mem_singleton]
    rintro p (hp | rfl)
    · exact (h.live p hp).alloc _
    · exact Store.live_fresh_alloc _ _
  · simp only [List.mem_append, List.mem_singleton]
    rintro p (hp | rfl)
    · exact Or.inl (h.pending p hp)
    · exact Or.inr rfl
  · refine List.nodup_append.mpr ⟨h.once, List.nodup_singleton _, ?_⟩
    intro p hp q hq
    rw [List.mem_singleton.mp hq]
    exact hne p (h.pending p hp)
  · rw [List.map_append, List.map_congr_left (fun p hp => by rw [hold p hp])]
    refine List.nodup_append.mpr ⟨h.names, List.nodup_singleton _, ?_⟩
    intro n hn m hm
    obtain ⟨p, hp, rfl⟩ := List.mem_map.mp hn
    simp only [List.map_cons, List.map_nil, List.mem_singleton, Store.get_alloc_fresh] at hm
    exact hm ▸ hnew p hp
  · simp only [List.mem_append, List.mem_singleton]
    rintro p (hp | rfl) q (hq | rfl)
    · rw [hold p hp, hold q hq]; exact h.pids p hp q hq
    · rw [hold p hp, Store.get_alloc_fresh]; exact fun e => absurd e (hother p hp)
    · rw [hold q hq, Store.get_alloc_fresh]; exact fun e => absurd e.symm (hother q hq)
    · exact fun _ => rfl
  · simp only [List.mem_append, List.mem_singleton]
    rintro p (hp | rfl)
    · obtain ⟨n, hn⟩ := h.forked p hp
      exact ⟨n, Or.inl (by rw [hold p hp]; exact hn)⟩
    · exact ⟨name, Or.inr (by rw [Store.get_alloc_fresh])⟩
  · simp only [List.mem_append, List.mem_singleton]
    rintro p (hp | rfl)
    · rw [hold p hp]
      rintro (hk | hk)
      · exact h.unkilled p hp hk
      · cases hk
    · rw [Store.get_alloc_fresh]
      rintro (hk | hk)
      · exact (hpid _ hk).1 rfl
      · cases hk
  · simp only [List.mem_append, List.mem_singleton]
    rintro p (hp | rfl)
    · rw [hold p hp, h.threads p hp]
      simp [hne p hp]
    · simp

theorem keeps_startProcessLocked_table {w : World} (hw : w.Fresh) (appName : String8) :
    Keeps tableFrame (startProcessLocked w appName) :=
  .of_wp fun s => wp_startProcessLocked (hw s.log).1 (fun _ _ h => h)
    fun hname h => h.start hname (hw s.log).2

/-! ## Attaching -/

theorem eraseP_of_find? {α : Type} {l : List α} {q : α → Bool} {a : α}
    (h : l.find? q = some a) : ∃ l₁ l₂, l = l₁ ++ a :: l₂ ∧ l.eraseP q = l₁ ++ l₂ := by
  obtain ⟨ha, l₁, l₂, rfl, hl⟩ := List.find?_eq_some_iff_append.mp h
  refine ⟨l₁, l₂, rfl, ?_⟩
  rw [List.eraseP_append_right _ fun b hb => by simpa using hl b hb, List.eraseP_cons_of_pos ha]

/-- The record that an attaching process is looked up as. -/
def State.pendingFor (s : State) (callingPid : Int) : Option ProcessRef :=
  s.mProcessesPending.find? fun p => (s.processes.get p).pid = callingPid

/-- The state after `attachApplicationLocked` has given `app` its thread. -/
def State.attached (s : State) (callingPid : Int) (app : ProcessRef) (thread : Option InterfacePtr)
    (proxies : Nat) : State := { s with
  mProcessesPending := s.mProcessesPending.eraseP fun p => (s.processes.get p).pid = callingPid
  processes := s.processes.update app fun p => { p with thread := thread }
  proxies := proxies }

theorem attached_thread {s : State} {pid : Int} {app : ProcessRef} {thread : Option InterfacePtr}
    {n : Nat} : ((s.attached pid app thread n).processes.get app).thread = thread := by
  simp [State.attached]

theorem attached_name {s : State} {pid : Int} {app p : ProcessRef} {thread : Option InterfacePtr}
    {n : Nat} :
    ((s.attached pid app thread n).processes.get p).name = (s.processes.get p).name := by
  simp only [State.attached, Store.get_update]
  split <;> rfl

theorem attached_pid {s : State} {pid : Int} {app p : ProcessRef} {thread : Option InterfacePtr}
    {n : Nat} : ((s.attached pid app thread n).processes.get p).pid = (s.processes.get p).pid := by
  simp only [State.attached, Store.get_update]
  split <;> rfl

theorem TableInv.attached {s : State} {pid : Int} {app : ProcessRef} {thread : Option InterfacePtr}
    {n : Nat} (h : TableInv s) (hfind : s.pendingFor pid = some app) (hthread : thread ≠ none) :
    TableInv (s.attached pid app thread n) := by
  obtain ⟨l₁, l₂, hl, herase⟩ := eraseP_of_find? hfind
  have hpend : (s.attached pid app thread n).mProcessesPending = l₁ ++ l₂ := herase
  have hnodup : (app :: (l₁ ++ l₂)).Nodup := by
    have := h.once
    rw [hl] at this
    exact List.nodup_middle.mp this
  have hmem : ∀ p, p ∈ l₁ ++ l₂ ↔ p ∈ s.mProcessesPending ∧ p ≠ app := by
    intro p
    have hnot : app ∉ l₁ ++ l₂ := (List.nodup_cons.mp hnodup).1
    rw [hl, List.mem_append, List.mem_append, List.mem_cons]
    constructor
    · intro hp
      refine ⟨hp.imp id Or.inr, fun e => hnot (e ▸ List.mem_append.mpr hp)⟩
    · rintro ⟨hp | hp | hp, hne⟩
      · exact Or.inl hp
      · exact absurd hp hne
      · exact Or.inr hp
  constructor
  · exact h.live
  · exact fun p hp => h.pending p ((hmem p).mp (hpend ▸ hp)).1
  · rw [hpend]; exact (List.nodup_cons.mp hnodup).2
  · simp only [attached_name]; exact h.names
  · simp only [attached_pid]; exact h.pids
  · simp only [attached_pid]; exact h.forked
  · simp only [attached_pid]; exact h.unkilled
  · intro p hp
    rw [hpend, hmem p]
    by_cases hpa : p = app
    · subst hpa
      simp [attached_thread, hthread]
    · have : ((s.attached pid app thread n).processes.get p).thread =
          (s.processes.get p).thread := by
        simp [State.attached, Store.get_update_ne _ _ hpa]
      rw [this, h.threads p hp]
      exact ⟨fun hq => ⟨hq, hpa⟩, fun hq => hq.1⟩

/-- An activity of this application is in the history. -/
def State.hasActivity (s : State) (name : String8) : Prop :=
  ∃ r ∈ s.mHistory, (s.activities.get r).mActivityInfo.mApplicationName = name

/-- A service of this application is in `mServices`. -/
def State.hasService (s : State) (name : String8) : Prop :=
  ∃ r ∈ s.mServices, (s.services.get r).mServiceInfo.mApplicationName = name

/-- The broadcast queue waits for the process `pid`. -/
def State.awaits (s : State) (pid : Int) : Prop :=
  ∃ r ∈ s.mPendingRecord, ∃ app ∈ (s.broadcasts.get r).mCurApp, (s.processes.get app).pid = pid

section
variable {E : Fault → State → Prop} {s : State} {app : ProcessRef}

/-- The three results are -1 only where nothing waits for the process. -/
theorem attachActivityLocked_result (h : s.hasActivity (s.processes.get app).name) :
    wp (attachActivityLocked app) (fun res _ => res ≠ -1) (fun _ _ => True) s := by
  unfold attachActivityLocked
  simp only [wp_bind, wp_get]
  split
  · next hnone =>
    obtain ⟨r, hr, hname⟩ := h
    exact absurd (List.find?_eq_none.mp hnone r hr) (by simp [hname])
  · simp only [realStartActivityLocked, wp_bind, wp_pure]
    exact wp_mono (wp_true _ _) (fun _ t _ => wp_mono (wp_true _ t)
      (fun _ t _ => wp_mono (wp_true _ t) (fun _ _ _ => by decide) fun _ _ h => h) fun _ _ h => h)
      fun _ _ h => h

theorem attachServiceLocked_result {w : World} (h : s.hasService (s.processes.get app).name) :
    wp (attachServiceLocked w app) (fun res _ => res ≠ -1) (fun _ _ => True) s := by
  unfold attachServiceLocked
  simp only [wp_bind, wp_get]
  split
  · next hnone =>
    obtain ⟨r, hr, hname⟩ := h
    exact absurd (List.find?_eq_none.mp hnone r hr) (by simp [hname])
  · simp only [realStartServiceLocked, wp_bind, wp_pure, wp_get]
    exact wp_mono (wp_true _ _)
      (fun _ t _ => wp_mono (wp_true _ t) (fun _ _ _ => by decide) fun _ _ h => h) fun _ _ h => h

theorem attachReceiverLocked_result (h : s.awaits (s.processes.get app).pid) :
    wp (attachReceiverLocked app) (fun res _ => res ≠ -1) (fun _ _ => True) s := by
  obtain ⟨r, hr, cur, hcur, hpid⟩ := h
  rw [Option.mem_def] at hr hcur
  unfold attachReceiverLocked
  simp [hr, hcur, hpid, deref, processCurBroadcastLocked]

end

/-- The pid of an attaching process belongs to no record at all, or else to a
pending one; then the process passes its thread, and an activity, a service or
the broadcast queue waits for it. -/
def State.attachReady (s : State) (pid : Int) (appThread : Option IBinder) : Prop :=
  match s.pendingFor pid with
  | none => ∀ p ∈ s.mProcesses, (s.processes.get p).pid ≠ pid
  | some app => appThread ≠ none ∧
    (s.hasActivity (s.processes.get app).name ∨ s.hasService (s.processes.get app).name ∨
      s.awaits pid)

instance (s : State) (name : String8) : Decidable (s.hasActivity name) :=
  inferInstanceAs (Decidable (∃ r ∈ s.mHistory, _))

instance (s : State) (name : String8) : Decidable (s.hasService name) :=
  inferInstanceAs (Decidable (∃ r ∈ s.mServices, _))

instance (s : State) (pid : Int) : Decidable (s.awaits pid) :=
  inferInstanceAs (Decidable (∃ r ∈ s.mPendingRecord, ∃ app ∈ (s.broadcasts.get r).mCurApp, _))

instance (s : State) (pid : Int) (appThread : Option IBinder) :
    Decidable (s.attachReady pid appThread) :=
  match h : s.pendingFor pid with
  | none => decidable_of_iff (∀ p ∈ s.mProcesses, (s.processes.get p).pid ≠ pid)
      (by simp [State.attachReady, h])
  | some app => decidable_of_iff (appThread ≠ none ∧
      (s.hasActivity (s.processes.get app).name ∨ s.hasService (s.processes.get app).name ∨
        s.awaits pid)) (by simp [State.attachReady, h])

/-- Every attach of a run has to meet this; nothing is asked of other actions. -/
def AttachReady (s : State) : Action → Prop
  | .request pid (.attachApplication appThread) => s.attachReady pid appThread
  | _ => True

instance (s : State) : ∀ a, Decidable (AttachReady s a)
  | .request _ (.attachApplication _) => inferInstanceAs (Decidable (s.attachReady ..))
  | .request _ (.startActivity ..) => .isTrue trivial
  | .request _ (.startService ..) => .isTrue trivial
  | .request _ (.bindService ..) => .isTrue trivial
  | .request _ (.publishService ..) => .isTrue trivial
  | .request _ (.registerReceiver ..) => .isTrue trivial
  | .request _ (.broadcastIntent ..) => .isTrue trivial
  | .handleMessage => .isTrue trivial

section
variable {w : World} {s : State} {app : ProcessRef}

/-- What follows the assignment of `thread` kills nothing if some result is not -1. -/
private theorem attach_results (w : World) (app : ProcessRef) (h : TableInv s)
    (hwait : s.hasActivity (s.processes.get app).name ∨ s.hasService (s.processes.get app).name ∨
      s.awaits (s.processes.get app).pid) (pid : Int) :
    wp (do
        let res1 ← attachActivityLocked app
        let res2 ← attachServiceLocked w app
        let res3 ← attachReceiverLocked app
        when (res1 = -1 ∧ res2 = -1 ∧ res3 = -1) (emit (.killProcessByPid pid)))
      (fun _ => TableInv) (fun _ _ => True) s := by
  have hA := (keeps_attachActivityLocked allowsActivities_table allowsNull_table app).wp s
  have hS := fun t =>
    (keeps_attachServiceLocked w allowsBinding_table.toAllowsServices allowsNull_table app).wp t
  have hR := fun t => (keeps_attachReceiverLocked allowsQueue_table.signal.pending app).wp t
  simp only [wp_bind]
  rcases hwait with hwait | hwait | hwait
  · refine wp_mono_ok (wp_and hA (attachActivityLocked_result hwait)) ?_
    rintro res1 t ⟨ht, h1⟩
    refine wp_mono_ok (hS t) (fun res2 u hu => ?_)
    refine wp_mono_ok (hR u) (fun res3 v hv => ?_)
    exact wp_when (fun hk => absurd hk.1 h1) fun _ => hv (hu (ht h))
  · let I : State → Prop := fun t => t.hasService (t.processes.get app).name
    have hI : AllowsActivities (.invariant I) :=
      ⟨⟨fun _ _ _ _ h => h⟩, fun _ _ _ _ h => h, fun _ _ _ h => h, fun _ _ h => h⟩
    refine wp_mono_ok (wp_and hA ((keeps_attachActivityLocked hI (fun _ _ _ h => h) app).wp s)) ?_
    rintro res1 t ⟨ht, hIt⟩
    refine wp_mono_ok (wp_and (hS t) (attachServiceLocked_result (hIt hwait))) ?_
    rintro res2 u ⟨hu, h2⟩
    refine wp_mono_ok (hR u) (fun res3 v hv => ?_)
    exact wp_when (fun hk => absurd hk.2.1 h2) fun _ => hv (hu (ht h))
  · let I : State → Prop := fun t => t.awaits (t.processes.get app).pid
    have hIa : AllowsActivities (.invariant I) :=
      ⟨⟨fun _ _ _ _ h => h⟩, fun _ _ _ _ h => h, fun _ _ _ h => h, fun _ _ h => h⟩
    have hIs : AllowsServices (.invariant I) := ⟨⟨fun _ _ _ _ h => h⟩, fun _ _ _ _ h => h⟩
    refine wp_mono_ok (wp_and hA ((keeps_attachActivityLocked hIa (fun _ _ _ h => h) app).wp s)) ?_
    rintro res1 t ⟨ht, hIt⟩
    refine wp_mono_ok
      (wp_and (hS t) ((keeps_attachServiceLocked w hIs (fun _ _ _ h => h) app).wp t)) ?_
    rintro res2 u ⟨hu, hIu⟩
    refine wp_mono_ok (wp_and (hR u) (attachReceiverLocked_result (hIu (hIt hwait)))) ?_
    rintro res3 v ⟨hv, h3⟩
    exact wp_when (fun hk => absurd hk.2.2 h3) fun _ => hv (hu (ht h))

theorem attachApplicationLocked_table (h : TableInv s) {pid : Int} {appThread : Option IBinder}
    (hready : s.attachReady pid appThread) :
    wp (attachApplicationLocked w appThread pid) (fun _ => TableInv) (fun _ _ => True) s := by
  unfold State.attachReady at hready
  unfold attachApplicationLocked
  simp only [wp_bind, wp_get]
  split
  · next hfind =>
    have hnone : s.pendingFor pid = none := hfind
    rw [hnone] at hready
    exact h.emit fun p hp e => hready p hp (Event.killProcessByPid.inj e).symm
  · next app hfind =>
    have hsome : s.pendingFor pid = some app := hfind
    rw [hsome] at hready
    obtain ⟨hthread, hwait⟩ := hready
    have happ : (s.processes.get app).pid = pid := by simpa using List.find?_some hfind
    simp only [wp_bind, wp_modify, modifyProcess]
    refine wp_interfaceCast fun thread n hb => ?_
    have hne : thread ≠ none := fun e => hthread (by rw [← hb, e]; rfl)
    have ht : TableInv (s.attached pid app thread n) := h.attached hsome hne
    refine wp_when (fun _ => wp_callThread (fun _ => trivial) fun _ => ?_) fun hn => absurd hne hn
    have hemit := ht.emit (e := .thread app (.bindApplication (s.processes.get app).name))
      fun _ _ e => by cases e
    have := attach_results w app hemit (by
      dsimp only
      rw [attached_name, attached_pid, happ]
      refine hwait.imp id (.imp id ?_)
      rintro ⟨r, hr, cur, hcur, hpid⟩
      refine ⟨r, hr, cur, hcur, ?_⟩
      dsimp only
      rw [attached_pid]
      exact hpid) (s.processes.get app).pid
    simp only [wp_bind] at this
    exact this

end

/-! ## Runs -/

/-- Every request but an attach keeps the table, and so does the queue. -/
theorem keeps_step_table {w : World} (hw : w.Fresh) (a : Action)
    (ha : ∀ pid appThread, a ≠ .request pid (.attachApplication appThread)) :
    Keeps tableFrame (step w a) := by
  have hp := keeps_startProcessLocked_table hw
  cases a with
  | handleMessage =>
    exact keeps_handleMessage w allowsQueue_table.handling allowsNull_table hp
      allowsQueue_table.enqueue
  | request pid call =>
    exact keeps_request w allowsProxies_table.casts allowsNull_table hp allowsActivities_table
      allowsBinding_table allowsQueue_table.toAllowsReceivers
      (keeps_enqueueBroadcast allowsQueue_table.enqueue) pid call
      fun appThread e => absurd (by rw [e]) (ha pid appThread)

theorem step_table {w : World} (hw : w.Fresh) {s : State} {a : Action} (h : TableInv s)
    (ha : AttachReady s a) : wp (step w a) (fun _ => TableInv) (fun _ _ => True) s := by
  by_cases hattach : ∃ pid appThread, a = .request pid (.attachApplication appThread)
  · obtain ⟨pid, appThread, rfl⟩ := hattach
    exact attachApplicationLocked_table h ha
  · have := (keeps_step_table hw a fun pid appThread e => hattach ⟨pid, appThread, e⟩).wp s
    exact wp_mono_ok this (fun _ _ ht => ht h)

/-- **Process table.** It is consistent in every state reached by a run in which
every attach is one the table is ready for. -/
theorem tableConsistent_of_ready (w : World) (hw : w.Fresh) (as : List Action) (s : State)
    (hs : Reached w as s) (hready : Along AttachReady (step w) as (init w)) :
    s.TableConsistent :=
  TableInv.consistent <| wp_ok (wp_run (fun _ _ h ha => step_table hw h ha) as (.init w) hready) hs

/-! ## Runs of an application that is started once -/

/-- The pid an event is about. -/
def Event.pid : Event → Int
  | .startViaZygote _ pid => pid
  | .killProcessByPid pid => pid
  | _ => 0

/-- A zygote that numbers its processes after every pid it has seen. -/
def countingZygote (log : List Event) : ZygoteReply := ⟨0, (log.map Event.pid).foldr max 0 + 1⟩

/-- A world with these components and the counting zygote. -/
def World.counting (pm : PackageManagerService) : World :=
  ⟨pm, countingZygote, fun _ _ => false, fun _ => 0⟩

theorem counting_fresh (pm : PackageManagerService) : (World.counting pm).Fresh := by
  intro log
  refine ⟨rfl, fun e he => ?_⟩
  have hle : ∀ (l : List Int) n, n ∈ l → n ≤ l.foldr max 0 := by
    intro l
    induction l with
    | nil => simp
    | cons m l ih =>
      intro n hn
      rw [List.foldr_cons]
      rcases List.mem_cons.mp hn with rfl | hn
      · exact Int.le_max_left _ _
      · exact Int.le_trans (ih n hn) (Int.le_max_right _ _)
  have hlt : e.pid ≤ (log.map Event.pid).foldr max 0 := hle _ _ (List.mem_map_of_mem he)
  constructor
  · rintro rfl
    exact absurd hlt (Int.not_le.mpr (Int.lt_succ _))
  · rintro name rfl
    exact absurd hlt (Int.not_le.mpr (Int.lt_succ _))

/-- One application with one activity. -/
def onePackage : PackageManagerService where
  mActivities := [⟨[1], [2], [3], [], []⟩]
  mServices := []
  mReceivers := []
  filtered := filtered_nil

/-- The activity is started, and the process forked for it attaches. -/
def launch : List Action :=
  [.request 0 (.startActivity none none (some (.ofAction [3])) 0),
    .request 1 (.attachApplication (some (.proxy 1)))]

theorem tableConsistent_launch :
    State.TableConsistent (final (run (step (.counting onePackage)) launch
      (init (.counting onePackage)))) :=
  tableConsistent_of_ready (.counting onePackage) (counting_fresh _) launch _
    (eq_ok_final (by decide +kernel)) (by decide +kernel)

/-- A second attach by the same process has the process killed, and its record
stays where it is. -/
theorem table_not_consistent :
    ¬ ∀ (w : World) (as : List Action) (s : State), w.Fresh → Reached w as s →
      s.TableConsistent := by
  intro h
  have := h (.counting onePackage) (launch ++ [.request 1 (.attachApplication (some (.proxy 1)))]) _
    (counting_fresh _) (eq_ok_final (by decide +kernel))
  revert this
  unfold State.TableConsistent
  decide +kernel

end Cdroid.Service
