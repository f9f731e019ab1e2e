import Cdroid.Runtime.ApplicationLoader
import Cdroid.Service.ActivityManager
import Mathlib.Algebra.GroupWithZero.Nat

/-! The registry of `PackageManagerService`: what `addApplicationManifest` makes of an
application's manifest, and which receivers `resolveIntentReceivers` then finds. -/

namespace Cdroid.Service
open Cdroid.Lib.Loop Cdroid.Runtime

variable {F : Type}

/-- `PackageManagerService` with the manifests that it has been given. -/
structure PackageRegistry (F : Type) extends PackageManagerService where
  mActivityMF : List (ActivityManifest F)
  mServiceMF : List (ServiceManifest F)
  mReceiverMF : List (ReceiverManifest F)
  mApplicationMF : List (ApplicationManifest F)
  mApplicationMF_file : List String8

namespace PackageRegistry

/-- `PackageManagerService::PackageManagerService`, before any file is loaded. -/
def init : PackageRegistry F where
  mActivities := []
  mServices := []
  mReceivers := []
  filtered := filtered_nil
  mActivityMF := []
  mServiceMF := []
  mReceiverMF := []
  mApplicationMF := []
  mApplicationMF_file := []

/-! ## addApplicationManifest -/

section Loops
variable (appM : ApplicationManifest F) (filename : String8)

def addActivity (pm : PackageRegistry F) (amf : ActivityManifest F) : PackageRegistry F :=
  let ai := { ActivityInfo.new amf.name filename with
    mAction := amf.action
    mCategory := amf.category
    mApplicationName := appM.name }
  { pm with
    mActivityMF := pm.mActivityMF ++ [amf]
    mActivities := pm.mActivities ++ [ai] }

def addService (pm : PackageRegistry F) (smf : ServiceManifest F) : PackageRegistry F :=
  let si := { ServiceInfo.new smf.name filename with
    mAction := smf.action
    mCategory := smf.category
    mApplicationName := appM.name }
  { pm with
    mServiceMF := pm.mServiceMF ++ [smf]
    mServices := pm.mServices ++ [si] }

def addReceiver (pm : PackageRegistry F) (rmf : ReceiverManifest F) (inf : IntentFilter) :
    PackageRegistry F :=
  let ri := { ReceiverInfo.new rmf.name filename with
    mApplicationName := appM.name
    mINF := some inf }
  { pm with
    mReceiverMF := pm.mReceiverMF ++ [rmf]
    mReceivers := pm.mReceivers ++ [ri]
    filtered := by
      intro ri' hri'
      rcases List.mem_append.mp hri' with h | h
      · exact pm.filtered ri' h
      · rw [List.mem_singleton.mp h]
        rfl }

/-- `while(amf)` -/
def activityLoop : PackageRegistry F × List (ActivityManifest F) →
    Option ((PackageRegistry F × List (ActivityManifest F)) ⊕ PackageRegistry F)
  | (pm, []) => some (.inr pm)
  | (pm, amf :: next) => some (.inl (pm.addActivity appM filename amf, next))

/-- `while(smf)`; it leaves `smf` null. -/
def serviceLoop : PackageRegistry F × List (ServiceManifest F) →
    Option ((PackageRegistry F × List (ServiceManifest F)) ⊕
      (PackageRegistry F × List (ServiceManifest F)))
  | (pm, []) => some (.inr (pm, []))
  | (pm, smf :: next) => some (.inl (pm.addService appM filename smf, next))

/-- `while(it)`, which does not go on to `it->next`. -/
def itemLoop : IntentFilter × List IntentFilter_ManifestItem →
    Option ((IntentFilter × List IntentFilter_ManifestItem) ⊕ IntentFilter)
  | (inf, []) => some (.inr inf)
  | (inf, it :: next) => some (.inl
    ({ inf with
        mActions := inf.mActions ++ [it.action]
        mCategories := inf.mCategories ++ [it.category] }, it :: next))

/-- The third loop, which is `while(smf)` as well; a null `rmf` stops the process. -/
def receiverLoop (n : Nat) (smf : List (ServiceManifest F)) :
    PackageRegistry F × List (ReceiverManifest F) →
    Option ((PackageRegistry F × List (ReceiverManifest F)) ⊕ PackageRegistry F)
  | (pm, rmf) => match smf, rmf with
    | [], _ => some (.inr pm)
    | _ :: _, [] => none
    | _ :: _, rmf :: next => do
      let inf ← loop itemLoop n (IntentFilter.new, rmf.inf)
      some (.inl (pm.addReceiver appM filename rmf inf, next))

end Loops

/-- With at most `n` rounds of each loop. -/
def addApplicationManifest (n : Nat) (pm : PackageRegistry F) (appM : ApplicationManifest F)
    (filename : String8) : Option (PackageRegistry F) := do
  let pm := { pm with
    mApplicationMF := pm.mApplicationMF ++ [appM]
    mApplicationMF_file := pm.mApplicationMF_file ++ [filename] }
  let pm ← loop (activityLoop appM filename) n (pm, appM.activity)
  let (pm, smf) ← loop (serviceLoop appM filename) n (pm, appM.service)
  loop (receiverLoop appM filename n smf) n (pm, appM.receiver)

/-- Every manifest that the loader finds, with its file. -/
def addApplicationManifests (n : Nat) (pm : PackageRegistry F) :
    List (ApplicationManifest F × String8) → Option (PackageRegistry F)
  | [] => some pm
  | (appM, filename) :: ms => do
    let pm ← addApplicationManifest n pm appM filename
    addApplicationManifests n pm ms

/-! ## What the manifests declare -/

def activityInfos (appM : ApplicationManifest F) (filename : String8) : List ActivityInfo :=
  appM.activity.map fun amf => ⟨amf.name, appM.name, amf.action, amf.category, filename⟩

def serviceInfos (appM : ApplicationManifest F) (filename : String8) : List ServiceInfo :=
  appM.service.map fun smf => ⟨smf.name, appM.name, smf.action, smf.category, filename⟩

/-- A receiver's filter holds what its items hold, in order. -/
def receiverInfos (appM : ApplicationManifest F) (filename : String8) : List ReceiverInfo :=
  appM.receiver.map fun rmf => ⟨rmf.name, appM.name, filename, some
    ⟨rmf.inf.map fun it => it.action, rmf.inf.map fun it => it.category, 0⟩⟩

/-- The registry ends up with what the manifests declare, in their order, and finds the
receivers that have the intent's action. -/
def Registered (ms : List (ApplicationManifest F × String8)) : Prop :=
  ∃ n pm, addApplicationManifests n init ms = some pm ∧
    pm.mActivities = ms.flatMap (fun m => activityInfos m.1 m.2) ∧
    pm.mServices = ms.flatMap (fun m => serviceInfos m.1 m.2) ∧
    pm.mReceivers = ms.flatMap (fun m => receiverInfos m.1 m.2) ∧
    ∀ intent : Intent, pm.resolveIntentReceivers (some intent) =
      (ms.flatMap fun m => receiverInfos m.1 m.2).filter fun ri =>
        ri.mINF.any fun inf => intent.mAction ∈ inf.mActions

/-! ## What comes of them -/

theorem foldl_addActivity (appM : ApplicationManifest F) (filename : String8)
    (l : List (ActivityManifest F)) (pm : PackageRegistry F) :
    (l.foldl (addActivity appM filename) pm).mActivities = pm.mActivities ++
        l.map (fun amf => ⟨amf.name, appM.name, amf.action, amf.category, filename⟩) ∧
      (l.foldl (addActivity appM filename) pm).mServices = pm.mServices ∧
      (l.foldl (addActivity appM filename) pm).mReceivers = pm.mReceivers := by
  induction l generalizing pm with
  | nil => simp
  | cons amf l ih =>
    obtain ⟨ha, hs, hr⟩ := ih (pm.addActivity appM filename amf)
    rw [List.foldl_cons, ha, hs, hr]
    simp [addActivity, ActivityInfo.new]

theorem foldl_addService (appM : ApplicationManifest F) (filename : String8)
    (l : List (ServiceManifest F)) (pm : PackageRegistry F) :
    (l.foldl (addService appM filename) pm).mServices = pm.mServices ++
        l.map (fun smf => ⟨smf.name, appM.name, smf.action, smf.category, filename⟩) ∧
      (l.foldl (addService appM filename) pm).mActivities = pm.mActivities ∧
      (l.foldl (addService appM filename) pm).mReceivers = pm.mReceivers := by
  induction l generalizing pm with
  | nil => simp
  | cons smf l ih =>
    obtain ⟨hs, ha, hr⟩ := ih (pm.addService appM filename smf)
    rw [List.foldl_cons, hs, ha, hr]
    simp [addService, ServiceInfo.new]

theorem loop_receiverLoop (appM : ApplicationManifest F) (filename : String8) (k : Nat)
    (pm : PackageRegistry F) (rmf : List (ReceiverManifest F)) :
    loop (receiverLoop appM filename (k + 1) []) (k + 1) (pm, rmf) = some pm := loop_leave rfl k

/-- The third loop is not entered, for `smf` is null after the second. -/
theorem addApplicationManifest_eq (n : Nat) (pm : PackageRegistry F)
    (appM : ApplicationManifest F) (filename : String8) :
    addApplicationManifest n pm appM filename =
      if appM.activity.length < n ∧ appM.service.length < n then
        some (appM.service.foldl (addService appM filename)
          (appM.activity.foldl (addActivity appM filename) { pm with
            mApplicationMF := pm.mApplicationMF ++ [appM]
            mApplicationMF_file := pm.mApplicationMF_file ++ [filename] }))
      else none := by
  have hactivities : ∀ t l, loop (activityLoop appM filename) n (t, l) =
      if l.length < n then some (l.foldl (addActivity appM filename) t) else none :=
    loop_list _ (fun pm => pm) (fun _ => rfl) (fun _ _ _ => rfl) n
  have hservices : ∀ t l, loop (serviceLoop appM filename) n (t, l) =
      if l.length < n then some (l.foldl (addService appM filename) t, []) else none :=
    loop_list _ (fun pm => (pm, [])) (fun _ => rfl) (fun _ _ _ => rfl) n
  simp only [addApplicationManifest, hactivities]
  by_cases ha : appM.activity.length < n
  · rw [if_pos ha, Option.bind_eq_bind, Option.bind_some, hservices]
    by_cases hs : appM.service.length < n
    · rw [if_pos hs, if_pos ⟨ha, hs⟩]
      obtain ⟨k, rfl⟩ := Nat.exists_eq_add_of_lt ha
      exact loop_receiverLoop appM filename (appM.activity.length + k) _ appM.receiver
    · rw [if_neg hs, if_neg fun h => hs h.2]
      rfl
  · rw [if_neg ha, if_neg fun h => ha h.1]
    rfl

/-- The activities and services of a manifest are registered, and no receiver is. -/
theorem addApplicationManifest_spec {n : Nat} {pm pm' : PackageRegistry F}
    {appM : ApplicationManifest F} {filename : String8}
    (h : addApplicationManifest n pm appM filename = some pm') :
    pm'.mActivities = pm.mActivities ++ activityInfos appM filename ∧
      pm'.mServices = pm.mServices ++ serviceInfos appM filename ∧
      pm'.mReceivers = pm.mReceivers := by
  rw [addApplicationManifest_eq, Option.ite_none_right_eq_some] at h
  obtain ⟨-, h⟩ := h
  cases h
  obtain ⟨hs, ha, hr⟩ := foldl_addService appM filename appM.service
    (appM.activity.foldl (addActivity appM filename) { pm with
      mApplicationMF := pm.mApplicationMF ++ [appM]
      mApplicationMF_file := pm.mApplicationMF_file ++ [filename] })
  obtain ⟨ha', hs', hr'⟩ := foldl_addActivity appM filename appM.activity { pm with
    mApplicationMF := pm.mApplicationMF ++ [appM]
    mApplicationMF_file := pm.mApplicationMF_file ++ [filename] }
  exact ⟨ha.trans ha', hs.trans (by rw [hs']; rfl), hr.trans hr'⟩

theorem addApplicationManifests_spec {n : Nat} {ms : List (ApplicationManifest F × String8)}
    {pm pm' : PackageRegistry F} (h : addApplicationManifests n pm ms = some pm') :
    pm'.mActivities = pm.mActivities ++ ms.flatMap (fun m => activityInfos m.1 m.2) ∧
      pm'.mServices = pm.mServices ++ ms.flatMap (fun m => serviceInfos m.1 m.2) ∧
      pm'.mReceivers = pm.mReceivers := by
  induction ms generalizing pm with
  | nil =>
    cases h
    simp
  | cons m ms ih =>
    obtain ⟨pm₁, h₁, h⟩ := Option.bind_eq_some_iff.mp h
    obtain ⟨ha₁, hs₁, hr₁⟩ := addApplicationManifest_spec h₁
    obtain ⟨ha, hs, hr⟩ := ih h
    refine ⟨?_, ?_, hr.trans hr₁⟩
    · rw [ha, ha₁, List.flatMap_cons, List.append_assoc]
    · rw [hs, hs₁, List.flatMap_cons, List.append_assoc]

/-- A number of rounds that is enough for every manifest. -/
def rounds (ms : List (ApplicationManifest F × String8)) : Nat :=
  (ms.map fun m => m.1.activity.length + m.1.service.length).sum + 1

/-- Whatever the manifests are, every loop ends. -/
theorem addApplicationManifests_ends {n : Nat} {ms : List (ApplicationManifest F × String8)}
    (hn : rounds ms ≤ n) (pm : PackageRegistry F) :
    ∃ pm', addApplicationManifests n pm ms = some pm' := by
  induction ms generalizing pm with
  | nil => exact ⟨pm, rfl⟩
  | cons m ms ih =>
    simp only [rounds, List.map_cons, List.sum_cons] at hn ih
    have hlengths : m.1.activity.length < n ∧ m.1.service.length < n := by omega
    rw [addApplicationManifests, addApplicationManifest_eq, if_pos hlengths]
    exact ih (by omega) _

/-- What the registry finds for an intent is what it holds that matches. -/
theorem resolveIntentReceivers_eq (pm : PackageManagerService) (intent : Intent) :
    pm.resolveIntentReceivers (some intent) = pm.mReceivers.filter fun ri =>
      ri.mINF.any fun inf => intent.mAction ∈ inf.mActions := by
  apply List.filter_congr
  intro ri _
  cases ri.mINF with
  | none => rfl
  | some inf =>
    rw [Bool.eq_iff_iff]
    simp [IntentFilter.matchIntent]

theorem no_receivers_of_registered {ms : List (ApplicationManifest F × String8)}
    (h : Registered ms) : ∀ m ∈ ms, m.1.receiver = [] := by
  obtain ⟨n, pm, h, -, -, hreceivers, -⟩ := h
  intro m hm
  have hnone := (addApplicationManifests_spec h).2.2
  rw [hreceivers] at hnone
  exact List.map_eq_nil_iff.mp (List.flatMap_eq_nil_iff.mp hnone m hm)

/-- **Package registry.** The registry holds what the manifests declare, and resolves
intents accordingly, if and only if none of them declares a receiver. -/
theorem registered_iff (ms : List (ApplicationManifest F × String8)) :
    Registered ms ↔ ∀ m ∈ ms, m.1.receiver = [] := by
  constructor
  · exact no_receivers_of_registered
  · intro hnone
    obtain ⟨pm, h⟩ := addApplicationManifests_ends (Nat.le_refl (rounds ms)) init
    obtain ⟨ha, hs, hr⟩ := addApplicationManifests_spec h
    have hreceivers : ms.flatMap (fun m => receiverInfos m.1 m.2) = [] := by
      apply List.flatMap_eq_nil_iff.mpr
      intro m hm
      exact List.map_eq_nil_iff.mpr (hnone m hm)
    refine ⟨rounds ms, pm, h, ha, hs, hr.trans hreceivers.symm, ?_⟩
    intro intent
    rw [resolveIntentReceivers_eq, hr, hreceivers]
    rfl

/-- A manifest with one receiver, for one action. -/
theorem receiver_not_registered :
    ¬ Registered [((⟨ascii "app", [], [], [⟨ascii "r", [⟨ascii "a", ascii "c"⟩], ()⟩]⟩ :
      ApplicationManifest Unit), ascii "lib/app.so")] := by
  intro h
  have hnone := no_receivers_of_registered h _ (List.mem_singleton.mpr rfl)
  cases hnone

end PackageRegistry

end Cdroid.Service
