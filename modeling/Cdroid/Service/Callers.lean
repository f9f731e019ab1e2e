import Cdroid.Service.ProcessTable

/-! How the activity manager finds out who is calling. `getRecordForAppLocked`
compares interface pointers and `getProcessRecordLocked` the binders under them.
`interface_cast` makes a new `Bp` object of every remote binder that is delivered,
so the first lookup never finds an application that runs in another process. -/

namespace Cdroid.Service
open Cdroid.Lib.Comp Cdroid.Lib.Containers Cdroid.Runtime

/-! ## Interface pointers that casts have made -/

/-- A cast to `IApplicationThread` has made the pointer, and at most `proxies`
objects have been made so far. -/
def InterfacePtr.CastBefore (proxies : Nat) : InterfacePtr → Prop
  | .local obj => obj.queryLocalInterface .applicationThread = true
  | .bp address remote =>
    address < proxies ∧ remote.queryLocalInterface .applicationThread = false

theorem InterfacePtr.CastBefore.mono {m n : Nat} {p : InterfacePtr} (h : p.CastBefore m)
    (hmn : m ≤ n) : p.CastBefore n := by
  cases p with
  | «local» obj => exact h
  | bp address remote => exact ⟨Nat.lt_of_lt_of_le h.1 hmn, h.2⟩

/-- Every `thread` comes from a cast. -/
def CastInv (s : State) : Prop :=
  ∀ p, ∀ t ∈ (s.processes.get p).thread, t.CastBefore s.proxies

theorem CastInv.init (w : World) : CastInv (init w) := by
  intro p t ht
  cases ht

theorem CastInv.cast {s : State} (h : CastInv s) {n : Nat} (hn : s.proxies ≤ n) :
    CastInv { s with proxies := n } := fun p t ht => (h p t ht).mono hn

/-- A record is made without a thread. -/
theorem CastInv.start {s : State} (h : CastInv s) (name : String8) (pid : Int) :
    CastInv { s with processes := s.processes.alloc ⟨none, name, pid⟩ } := by
  intro p t ht
  simp only [Store.get_alloc] at ht
  split at ht
  · cases ht
  · exact h p t ht

theorem CastInv.attach {s : State} (h : CastInv s) (app : ProcessRef) {thread : Option InterfacePtr}
    (hthread : ∀ t ∈ thread, t.CastBefore s.proxies) :
    CastInv { s with
      processes := s.processes.update app fun p => { p with thread := thread } } := by
  intro p t ht
  simp only [Store.get_update] at ht
  split at ht
  · exact hthread t ht
  · exact h p t ht

/-- What a cast returns is of its own making, and a new object is unlike any before. -/
theorem wp_cast {b : Option IBinder} {s : State} {Q : Option InterfacePtr → State → Prop}
    {E : Fault → State → Prop}
    (h : ∀ thread n, s.proxies ≤ n → (∀ t ∈ thread, t.CastBefore n) →
      Q thread { s with proxies := n }) : wp (interfaceCast .applicationThread b) Q E s := by
  cases b with
  | none =>
    apply h none s.proxies (Nat.le_refl _)
    intro t ht
    cases ht
  | some obj =>
    simp only [interfaceCast]
    split
    · next hq =>
      apply h (some (.local obj)) s.proxies (Nat.le_refl _)
      intro t ht
      cases ht
      exact hq
    · next hq =>
      apply h (some (.bp s.proxies obj)) (s.proxies + 1) (Nat.le_succ _)
      intro t ht
      cases ht
      exact ⟨Nat.lt_succ_self _, Bool.eq_false_iff.mpr hq⟩

/-! ## The invariant over runs -/

abbrev castFrame : Frame State := .invariant CastInv

theorem allowsActivities_cast : AllowsActivities castFrame :=
  ⟨⟨fun _ _ _ _ h => h⟩, fun _ _ _ _ h => h, fun _ _ _ h => h, fun _ _ h => h⟩

theorem allowsBinding_cast : AllowsBinding castFrame :=
  ⟨⟨⟨⟨⟨fun _ _ _ _ h => h⟩, fun _ _ _ _ h => h⟩, fun _ _ h => h⟩, fun _ _ _ h => h⟩,
    fun _ _ _ _ h => h, fun _ _ h => h⟩

theorem allowsQueue_cast : AllowsQueue castFrame :=
  ⟨⟨⟨⟨fun _ _ _ _ h => h⟩, fun _ _ _ _ _ h => h, fun _ _ _ _ _ h => h⟩, fun _ _ _ _ h => h,
    fun _ _ h => h⟩, fun _ _ h => h, fun _ _ h => h⟩

theorem keeps_startProcessLocked_cast (w : World) (appName : String8) :
    Keeps castFrame (startProcessLocked w appName) := by
  apply Keeps.bind .get
  intro s
  split
  · exact .pure _
  · apply Keeps.of_wp
    intro t
    simp only [emit, wp_bind, wp_modify, wp_pure]
    exact wp_when (fun _ h => h.start appName _) fun _ h => h.start appName _

/-- The only place where a `thread` is set. -/
theorem keeps_setThread {α : Type} (b : Option IBinder) (app : ProcessRef)
    {rest : Option InterfacePtr → AM α} (hrest : ∀ thread, Keeps castFrame (rest thread)) :
    Keeps castFrame (do
      let thread ← interfaceCast .applicationThread b
      modifyProcess app fun p => { p with thread := thread }
      rest thread) := by
  apply Keeps.of_wp
  intro s
  rw [wp_bind]
  apply wp_cast
  intro thread n hn hthread
  rw [wp_bind, modifyProcess, wp_modify]
  have hset : CastInv s → CastInv { s with
      proxies := n
      processes := s.processes.update app fun p => { p with thread := thread } } :=
    fun h => (h.cast hn).attach app hthread
  exact wp_mono ((hrest thread).wp _) (fun _ _ hu h => hu (hset h)) fun _ _ hu h => hu (hset h)

theorem keeps_attachApplicationLocked_cast (w : World) (appThread : Option IBinder) (pid : Int) :
    Keeps castFrame (attachApplicationLocked w appThread pid) := by
  have hn : AllowsNull castFrame := fun _ _ _ h => h
  apply keeps_attachWith w hn ⟨fun _ _ _ _ h => h⟩ (fun _ _ h => h)
  · exact fun b app rest hrest => keeps_setThread b app hrest
  · exact allowsActivities_cast
  · exact keeps_attachServiceLocked w allowsBinding_cast.toAllowsServices hn
  · exact keeps_attachReceiverLocked allowsQueue_cast.signal.pending

theorem keeps_step_cast (w : World) (a : Action) : Keeps castFrame (step w a) := by
  have hn : AllowsNull castFrame := fun _ _ _ h => h
  have hx : AllowsCasts castFrame := fun s h => h.cast (Nat.le_succ s.proxies)
  have hp := keeps_startProcessLocked_cast w
  cases a with
  | handleMessage =>
    exact keeps_handleMessage w allowsQueue_cast.handling hn hp allowsQueue_cast.enqueue
  | request pid call =>
    exact keeps_request w hx hn hp allowsActivities_cast allowsBinding_cast
      allowsQueue_cast.toAllowsReceivers (keeps_enqueueBroadcast allowsQueue_cast.enqueue) pid call
      fun appThread _ => keeps_attachApplicationLocked_cast w appThread pid

theorem reached_cast {w : World} {as : List Action} {s : State} (hs : Reached w as s) :
    CastInv s := by
  have hstep : ∀ s a, CastInv s → True → wp (step w a) (fun _ => CastInv) (fun _ _ => True) s :=
    fun s a h _ => wp_mono_ok ((keeps_step_cast w a).wp s) (fun _ _ ht => ht h)
  exact wp_ok (wp_run hstep as (.init w) (along_true _ _)) hs

/-! ## The two lookups -/

/-- What both lookups make of a binder that a transaction delivers. -/
def lookUpCaller (b : IBinder) : AM (Option ProcessRef × Option ProcessRef) := do
  let caller ← interfaceCast .applicationThread (some b)
  let s ← get
  let record := s.getRecordForAppLocked caller
  let process ← getProcessRecordLocked caller
  pure (record, process)

def State.AttachedWith (s : State) (b : IBinder) (p : ProcessRef) : Prop :=
  p ∈ s.mProcesses ∧ asBinder (s.processes.get p).thread = some b

/-- Both lookups find the same record, and it is one that attached with the binder
if there is one. -/
def State.CallerIdentified (s : State) (b : IBinder) : Prop :=
  ∃ found t, lookUpCaller b s = .ok (found, found) t ∧
    ∀ p, s.AttachedWith b p → ∃ q ∈ found, s.AttachedWith b q

/-- The first record that attached with the binder. -/
def State.processOf (s : State) (binder : Option IBinder) : Option ProcessRef :=
  s.mProcesses.find? fun p => asBinder (s.processes.get p).thread = binder

/-- Only uses of a null `thread` have been recorded between the two states. -/
def State.OnlyNulls (s t : State) : Prop :=
  ∃ l, (∀ e ∈ l, e.isNull = true) ∧ t = { s with log := s.log ++ l }

theorem State.OnlyNulls.refl (s : State) : s.OnlyNulls s := ⟨[], by simp, by simp⟩

theorem findByBinder_spec (binder : Option IBinder) (ps : List ProcessRef) (s : State) :
    wp (findByBinder binder ps)
      (fun found t => found = (ps.find? fun p => asBinder (s.processes.get p).thread = binder) ∧
        s.OnlyNulls t)
      (fun _ _ => False) s := by
  induction ps generalizing s with
  | nil => exact ⟨rfl, .refl s⟩
  | cons p ps ih =>
    have hrest : ∀ l : List Event, (∀ e ∈ l, e.isNull = true) →
        wp (if asBinder (s.processes.get p).thread = binder then pure (some p)
          else findByBinder binder ps)
          (fun found t =>
            found = ((p :: ps).find? fun p => asBinder (s.processes.get p).thread = binder) ∧
              s.OnlyNulls t)
          (fun _ _ => False) { s with log := s.log ++ l } := by
      intro l hl
      by_cases h : asBinder (s.processes.get p).thread = binder
      · rw [if_pos h, List.find?_cons_of_pos (by simpa using h)]
        exact ⟨rfl, l, hl, rfl⟩
      · rw [if_neg h, List.find?_cons_of_neg (by simpa using h)]
        apply wp_mono (ih { s with log := s.log ++ l })
        · rintro found t ⟨hfound, l', hl', rfl⟩
          refine ⟨hfound, l ++ l', ?_, by rw [← List.append_assoc]⟩
          exact List.forall_mem_append.mpr ⟨hl, hl'⟩
        · exact fun _ _ he => he
    simp only [findByBinder, wp_bind, wp_get]
    apply wp_when
    · exact fun _ => hrest [.throughNull p .asBinder] (by simp [Event.isNull])
    · intro _
      have := hrest [] (by simp)
      rwa [List.append_nil] at this

/-- Only the log records that a null `thread` was asked for its binder. -/
theorem getProcessRecordLocked_spec (thread : Option InterfacePtr) (s : State) :
    wp (getProcessRecordLocked thread)
      (fun found t => found = s.processOf (asBinder thread) ∧ s.OnlyNulls t)
      (fun _ _ => False) s := by
  simp only [getProcessRecordLocked, wp_bind, wp_get]
  exact findByBinder_spec (asBinder thread) s.mProcesses s

theorem attachedWith_processOf {s : State} {b : IBinder} {p : ProcessRef}
    (h : s.processOf (some b) = some p) : s.AttachedWith b p :=
  ⟨List.mem_of_find?_eq_some h, by simpa using List.find?_some h⟩

theorem processOf_none {s : State} {b : IBinder} :
    s.processOf (some b) = none ↔ ∀ p, ¬ s.AttachedWith b p := by
  simp [State.processOf, State.AttachedWith]

/-- A local object is its own interface, so both comparisons agree on it. -/
theorem getRecordForAppLocked_local {s : State} (h : CastInv s) {b : IBinder}
    (hb : b.queryLocalInterface .applicationThread = true) :
    s.getRecordForAppLocked (some (.local b)) = s.processOf (some b) := by
  apply congrArg (fun q => s.mProcesses.find? q)
  funext p
  apply decide_eq_decide.mpr
  cases ht : (s.processes.get p).thread with
  | none => simp [asBinder]
  | some t =>
    cases t with
    | «local» obj => simp [asBinder]
    | bp address remote =>
      have hremote : remote ≠ b := by
        rintro rfl
        rw [(h p _ ht).2] at hb
        cases hb
      simp [asBinder, hremote]

/-- No record has the pointer that the next cast will return. -/
theorem getRecordForAppLocked_fresh {s : State} (h : CastInv s) (b : IBinder) :
    s.getRecordForAppLocked (some (.bp s.proxies b)) = none := by
  apply List.find?_eq_none.mpr
  intro p _ e
  have ht : (s.processes.get p).thread = some (.bp s.proxies b) := by simpa using e
  exact Nat.lt_irrefl _ (h p _ ht).1

theorem lookUpCaller_spec {s : State} (h : CastInv s) (b : IBinder) :
    ∃ t, lookUpCaller b s = .ok
      (if b.queryLocalInterface .applicationThread then s.processOf (some b) else none,
        s.processOf (some b)) t := by
  have hspec : wp (lookUpCaller b)
      (fun found _ => found = (if b.queryLocalInterface .applicationThread then
        s.processOf (some b) else none, s.processOf (some b)))
      (fun _ _ => False) s := by
    unfold lookUpCaller
    rw [wp_bind, interfaceCast]
    by_cases hb : b.queryLocalInterface .applicationThread = true
    · simp only [hb, if_true, wp_pure, wp_bind, wp_get]
      apply wp_mono (getProcessRecordLocked_spec (some (.local b)) s)
      · rintro found t ⟨rfl, -⟩
        rw [getRecordForAppLocked_local h hb]
        rfl
      · exact fun _ _ he => he
    · simp only [hb, wp_pure, wp_bind, wp_get]
      apply wp_mono (getProcessRecordLocked_spec (some (.bp s.proxies b)) _)
      · rintro found t ⟨rfl, -⟩
        have hfresh : State.getRecordForAppLocked { s with proxies := s.proxies + 1 }
            (some (.bp s.proxies b)) = none := getRecordForAppLocked_fresh h b
        rw [hfresh]
        rfl
      · exact fun _ _ he => he
  unfold wp at hspec
  cases hx : lookUpCaller b s with
  | ok found t =>
    rw [hx] at hspec
    exact ⟨t, by rw [← hspec]⟩
  | error e t =>
    rw [hx] at hspec
    cases hspec

/-- **Caller identification.** In every state that a run reaches, the two lookups
agree on a binder and find the record that attached with it, if and only if the
binder is an `IApplicationThread` of the system server itself or nobody attached
with it. -/
theorem callerIdentified_iff (w : World) (as : List Action) (s : State) (hs : Reached w as s)
    (b : IBinder) :
    s.CallerIdentified b ↔
      b.queryLocalInterface .applicationThread = true ∨ ∀ p, ¬ s.AttachedWith b p := by
  obtain ⟨t, ht⟩ := lookUpCaller_spec (reached_cast hs) b
  by_cases hb : b.queryLocalInterface .applicationThread = true
  · rw [if_pos hb] at ht
    constructor
    · exact fun _ => Or.inl hb
    · intro _
      refine ⟨_, t, ht, fun p hp => ?_⟩
      cases hfind : s.processOf (some b) with
      | none => exact absurd hp (processOf_none.mp hfind p)
      | some q => exact ⟨q, rfl, attachedWith_processOf hfind⟩
  · rw [if_neg hb] at ht
    constructor
    · rintro ⟨found, t', ht', -⟩
      rw [ht] at ht'
      obtain ⟨hnone, hfind⟩ := Prod.mk.inj (EStateM.Result.ok.inj ht').1
      exact Or.inr (processOf_none.mp (hfind.trans hnone.symm))
    · intro h
      have hnone := h.resolve_left hb
      rw [processOf_none.mpr hnone] at ht
      exact ⟨none, t, ht, fun p hp => absurd hp (hnone p)⟩

/-- The activity is started and its process attaches. -/
def launched : State :=
  final (run (step (.counting onePackage)) launch (init (.counting onePackage)))

theorem reached_launched : Reached (.counting onePackage) launch launched :=
  eq_ok_final (by decide +kernel)

theorem callerIdentified_iff_launched :
    launched.CallerIdentified (.stub .applicationThread 0) ↔
      IBinder.queryLocalInterface (.stub .applicationThread 0) .applicationThread = true ∨
        ∀ p, ¬ launched.AttachedWith (.stub .applicationThread 0) p :=
  callerIdentified_iff _ launch launched reached_launched _

/-- The process has attached with its remote thread. Delivered again, the binder gets
another proxy object, which only one of the lookups sees through. -/
theorem caller_not_identified :
    ¬ ∀ (w : World) (as : List Action) (s : State), Reached w as s →
      ∀ b, s.CallerIdentified b := by
  intro h
  obtain ⟨found, t, hfound, -⟩ :=
    h (.counting onePackage) launch launched reached_launched (.proxy 1)
  have hrun : (match lookUpCaller (.proxy 1) launched with
      | .ok (record, process) _ => decide (record = process)
      | .error .. => true) = false := by
    decide +kernel
  rw [hfound] at hrun
  simp at hrun

end Cdroid.Service
