import Cdroid.Lib.Loop
import Cdroid.Runtime.Values

/-! What an application's library declares, and how the process finds a component in
it. A manifest's `next` chain is a list; `F` is the type of its entries' `create`
functions. -/

namespace Cdroid.Runtime
open Cdroid.Lib.Loop

section Manifests
variable (F : Type)

structure ActivityManifest where
  name : String8
  action : String8
  category : String8
  createActivity : F

structure ServiceManifest where
  name : String8
  action : String8
  category : String8
  createService : F

structure IntentFilter_ManifestItem where
  action : String8
  category : String8
  deriving DecidableEq

structure ReceiverManifest where
  name : String8
  inf : List IntentFilter_ManifestItem
  createBroadcastReceiver : F

structure ApplicationManifest where
  name : String8
  activity : List (ActivityManifest F)
  service : List (ServiceManifest F)
  receiver : List (ReceiverManifest F)

end Manifests

variable {F α : Type}

/-- What comes of a search. -/
inductive Found (α : Type)
  | entry (a : α)
  | nothing
  /-- the search does not return -/
  | never

/-- The body of `while(am)`: it does not go on to `am->next`. -/
def searchBody (name : α → String8) (wanted : String8) : List α → Option (List α ⊕ Option α)
  | [] => some (.inr none)
  | a :: l => some (if name a = wanted then .inr (some a) else .inl (a :: l))

/-- The search of both loaders, through a file's list of entries. -/
def search (name : α → String8) (wanted : String8) : List α → Found α
  | [] => .nothing
  | a :: _ => if name a = wanted then .entry a else .never

/-- The search gives what the loop ends with, and does not return if it does not end. -/
theorem search_ends (name : α → String8) (wanted : String8) (l : List α) :
    match search name wanted l with
    | .entry a => Ends (searchBody name wanted) l (some a)
    | .nothing => Ends (searchBody name wanted) l none
    | .never => ∀ r, ¬ Ends (searchBody name wanted) l r := by
  cases l with
  | nil => exact ends_of_leave rfl
  | cons a l =>
    by_cases hname : name a = wanted
    · rw [search, if_pos hname]
      exact ends_of_leave (congrArg some (if_pos hname))
    · rw [search, if_neg hname]
      exact fun r => not_ends_of_same (congrArg some (if_neg hname))

/-- What `handleFile` finds in the file with this name: a library that has the symbol,
or none. -/
abbrev Files (F : Type) := String8 → Option (ApplicationManifest F)

def loadActivity (handleFile : Files F) (filename activityName : String8) :
    Found (ActivityManifest F) :=
  match handleFile filename with
  | some app => search ActivityManifest.name activityName app.activity
  | none => .nothing

def loadService (handleFile : Files F) (filename serviceName : String8) :
    Found (ServiceManifest F) :=
  match handleFile filename with
  | some app => search ServiceManifest.name serviceName app.service
  | none => .nothing

/-! ## The first entry of a name -/

/-- What a loader returns is `r`: null without a library, and else what its loop ends with. -/
def Loads (name : α → String8) (wanted : String8) : Option (List α) → Option α → Prop
  | none, r => r = none
  | some l, r => Ends (searchBody name wanted) l r

/-- The first entry of that name, if the library has one. -/
def firstEntry (name : α → String8) (wanted : String8) (entries : Option (List α)) : Option α :=
  entries.bind fun l => l.find? fun a => name a = wanted

/-- Nothing comes before an entry of that name. -/
def Foremost (name : α → String8) (wanted : String8) (entries : Option (List α)) : Prop :=
  ∀ l ∈ entries, ∀ a ∈ l.head?, name a = wanted

/-- What comes of the search is the result that meets `P`, or there is none. -/
def Found.Tells (P : Option α → Prop) : Found α → Prop
  | .entry a => P (some a)
  | .nothing => P none
  | .never => ∀ r, ¬ P r

theorem search_loads (name : α → String8) (wanted : String8) (l : List α) :
    (search name wanted l).Tells (Loads name wanted (some l)) := by
  have h := search_ends name wanted l
  cases hsearch : search name wanted l <;> rw [hsearch] at h <;> exact h

theorem loadActivity_loads (handleFile : Files F) (filename activityName : String8) :
    (loadActivity handleFile filename activityName).Tells (Loads ActivityManifest.name activityName
      ((handleFile filename).map ApplicationManifest.activity)) := by
  unfold loadActivity
  cases handleFile filename with
  | none => rfl
  | some app => exact search_loads _ _ _

theorem loadService_loads (handleFile : Files F) (filename serviceName : String8) :
    (loadService handleFile filename serviceName).Tells (Loads ServiceManifest.name serviceName
      ((handleFile filename).map ApplicationManifest.service)) := by
  unfold loadService
  cases handleFile filename with
  | none => rfl
  | some app => exact search_loads _ _ _

theorem loads_first_iff (name : α → String8) (wanted : String8) (entries : Option (List α)) :
    Loads name wanted entries (firstEntry name wanted entries) ↔ Foremost name wanted entries := by
  rcases entries with _ | (_ | ⟨a, l⟩)
  · exact iff_of_true rfl nofun
  · refine iff_of_true (ends_of_leave rfl) ?_
    rintro _ ⟨⟩ _ ⟨⟩
  · by_cases hname : name a = wanted
    · have hfirst : firstEntry name wanted (some (a :: l)) = some a := by
        rw [firstEntry, Option.bind_some, List.find?_cons_of_pos (by simpa using hname)]
      rw [hfirst]
      refine iff_of_true (ends_of_leave (congrArg some (if_pos hname))) ?_
      rintro _ ⟨⟩ _ ⟨⟩
      exact hname
    · refine iff_of_false (not_ends_of_same (congrArg some (if_neg hname))) fun h => hname ?_
      exact h _ rfl a rfl

/-- A search that does not return is through a list that begins with another name. -/
theorem search_never {name : α → String8} {wanted : String8} {l : List α}
    (h : search name wanted l = .never) : ¬ Foremost name wanted (some l) := by
  cases l with
  | nil => cases h
  | cons a l =>
    intro hforemost
    have hname : name a = wanted := hforemost _ rfl a rfl
    rw [search, if_pos hname] at h
    cases h

theorem loadActivity_never {handleFile : Files F} {filename activityName : String8}
    (h : loadActivity handleFile filename activityName = .never) :
    ¬ Foremost ActivityManifest.name activityName
      ((handleFile filename).map ApplicationManifest.activity) := by
  unfold loadActivity at h
  split at h
  · next app happ =>
    rw [happ]
    exact search_never h
  · cases h

theorem loadService_never {handleFile : Files F} {filename serviceName : String8}
    (h : loadService handleFile filename serviceName = .never) :
    ¬ Foremost ServiceManifest.name serviceName
      ((handleFile filename).map ApplicationManifest.service) := by
  unfold loadService at h
  split at h
  · next app happ =>
    rw [happ]
    exact search_never h
  · cases h

/-- **Component loaders.** A loader returns the first entry of the name, or null if there is
none, exactly where the list is empty or begins with an entry of that name. -/
theorem loaders_first_iff (handleFile : Files F) (filename activityName serviceName : String8) :
    let activities := (handleFile filename).map ApplicationManifest.activity
    let services := (handleFile filename).map ApplicationManifest.service
    (Loads ActivityManifest.name activityName activities
        (firstEntry ActivityManifest.name activityName activities) ↔
      Foremost ActivityManifest.name activityName activities) ∧
    (Loads ServiceManifest.name serviceName services
        (firstEntry ServiceManifest.name serviceName services) ↔
      Foremost ServiceManifest.name serviceName services) :=
  ⟨loads_first_iff _ _ _, loads_first_iff _ _ _⟩

/-- The loop does not get past an activity of another name. -/
theorem loaders_not_first :
    ¬ ∀ (handleFile : Files Unit) (filename activityName : String8),
      let activities := (handleFile filename).map ApplicationManifest.activity
      Loads ActivityManifest.name activityName activities
        (firstEntry ActivityManifest.name activityName activities) := by
  intro h
  have hloads := h (fun _ => some ⟨[1], [⟨[2], [], [], ()⟩, ⟨[3], [], [], ()⟩], [], []⟩) [0] [3]
  exact not_ends_of_same rfl hloads

end Cdroid.Runtime
