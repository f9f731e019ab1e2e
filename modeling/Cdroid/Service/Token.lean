import Cdroid.Service.Effects
import Cdroid.Service.Faults
import Mathlib.Tactic.ByContra

/-! Tokens that applications pass back. An `IBinder` parameter is cast to
`ActivityRecord::Token` by `startActivity` and `bindService`, and to `ServiceRecord`
by `publishService`, whatever object it is. -/

namespace Cdroid.Service
open Cdroid.Lib.Comp Cdroid.Lib.Containers Cdroid.Runtime

def IBinder.isActivityToken : IBinder → Bool
  | .token _ => true
  | _ => false

def IBinder.isServiceRecord : IBinder → Bool
  | .service _ => true
  | _ => false

/-- Is this a binder that an application can hold? The records behind the system
server's own tokens exist. -/
def State.Holds (s : State) : IBinder → Prop
  | .token r => s.activities.Live r
  | .service r => s.services.Live r
  | _ => True

/-! ## Calls that do not misread a token -/

/-- `x` never reads an object as a record that it is not. -/
abbrev Typed {α : Type} (x : AM α) : Prop := Raises (fun e => e ≠ Fault.typeConfusion) x

theorem typed_nullPointers : AllowsNullPointers fun e => e ≠ .typeConfusion := ⟨nofun, nofun, nofun⟩

/-! ## Activity tokens -/

/-- An activity's token is its own, and no other object. -/
def TokenInv (s : State) : Prop :=
  ∀ q, (s.activities.Live q → (s.activities.get q).mToken = .token q) ∧
    (¬ s.activities.Live q → (s.activities.get q).mToken = .proxy 0)

abbrev tokenFrame : Frame State := .invariant TokenInv

theorem TokenInv.init (w : World) : TokenInv (init w) :=
  fun q => ⟨fun hq => absurd hq (Store.not_live_empty _ q), fun _ => rfl⟩

theorem allowsActivities_token : AllowsActivities tokenFrame where
  emit _ _ _ _ h := h
  history _ _ h := h
  record s r f hf h q := by
    have hget : ((s.activities.update r f).get q).mToken = (s.activities.get q).mToken := by
      rw [Store.get_update]
      split
      · exact (hf _).token
      · rfl
    simp only [Store.live_update, hget]
    exact h q
  new s a ha h q := by
    simp only [Store.get_alloc, Store.live_alloc]
    split
    · next hq =>
      subst hq
      exact ⟨fun _ => ha, fun hn => absurd (Or.inr rfl) hn⟩
    · next hq =>
      exact ⟨fun hl => (h q).1 (hl.resolve_right hq), fun hn => (h q).2 fun hl => hn (Or.inl hl)⟩

theorem allowsProcesses_token : AllowsProcesses tokenFrame :=
  ⟨⟨fun _ _ _ _ h => h⟩, fun _ _ _ _ h => h⟩

theorem allowsBinding_token : AllowsBinding tokenFrame :=
  ⟨⟨⟨⟨⟨fun _ _ _ _ h => h⟩, fun _ _ _ _ h => h⟩, fun _ _ h => h⟩, fun _ _ _ h => h⟩,
    fun _ _ _ _ h => h, fun _ _ h => h⟩

theorem allowsQueue_token : AllowsQueue tokenFrame :=
  ⟨⟨⟨⟨fun _ _ _ _ h => h⟩, fun _ _ _ _ _ h => h, fun _ _ _ _ _ h => h⟩, fun _ _ _ _ h => h,
    fun _ _ h => h⟩, fun _ _ h => h, fun _ _ h => h⟩

theorem keeps_step_token (w : World) (a : Action) : Keeps tokenFrame (step w a) := by
  have hn : AllowsNull tokenFrame := fun _ _ _ h => h
  have hx : AllowsCasts tokenFrame := fun _ h => h
  have hp := keeps_startProcessLocked w allowsProcesses_token
  cases a with
  | handleMessage =>
    exact keeps_handleMessage w allowsQueue_token.handling hn hp allowsQueue_token.enqueue
  | request pid call =>
    exact keeps_request w hx hn hp allowsActivities_token allowsBinding_token
      allowsQueue_token.toAllowsReceivers
      (keeps_enqueueBroadcast allowsQueue_token.enqueue) pid call
      fun appThread _ => keeps_attachApplicationLocked w hx hn allowsProcesses_token
        allowsActivities_token (keeps_attachServiceLocked w allowsBinding_token.toAllowsServices hn)
        allowsQueue_token.signal appThread pid

theorem reached_token {w : World} {as : List Action} {s : State} (hs : Reached w as s) :
    TokenInv s := by
  have hstep : ∀ s a, TokenInv s → True → wp (step w a) (fun _ => TokenInv) (fun _ _ => True) s :=
    fun s a h _ => wp_mono_ok ((keeps_step_token w a).wp s) (fun _ _ ht => ht h)
  exact wp_ok (wp_run hstep as (.init w) (along_true _ _)) hs

/-- The history record whose token is this binder. -/
def State.recordOf (s : State) (b : Option IBinder) : Option ActivityRef :=
  s.mHistory.find? fun q => some (s.activities.get q).mToken = b

theorem recordOf_token {s : State} (h : TokenInv s) {r : ActivityRef} (hr : s.activities.Live r) :
    s.recordOf (some (.token r)) = s.mHistory.find? fun q => q = r := by
  refine congrArg (fun p => s.mHistory.find? p) (funext fun q => decide_eq_decide.mpr ?_)
  constructor
  · intro e
    by_cases hq : s.activities.Live q
    · rw [(h q).1 hq] at e
      cases e
      rfl
    · rw [(h q).2 hq] at e
      cases e
  · rintro rfl
    rw [(h q).1 hr]

theorem getElem?_findIdx? {α : Type} (l : List α) (p : α → Bool) :
    (l.findIdx? p).bind (fun i => l[i]?) = l.find? p := by
  induction l with
  | nil => rfl
  | cons a l ih =>
    rw [List.findIdx?_cons, List.find?_cons]
    cases p a with
    | true => rfl
    | false =>
      rw [← ih]
      cases l.findIdx? p <;> rfl

/-- A token is resolved, and nothing else happens. -/
theorem getActivityRecordByToken_token {s : State} (h : TokenInv s) {b : Option IBinder}
    (hb : ∀ obj ∈ b, s.Holds obj) (htoken : ∀ obj ∈ b, obj.isActivityToken) :
    getActivityRecordByToken b s = .ok (s.recordOf b) s := by
  cases b with
  | none =>
    have : s.recordOf none = none := List.find?_eq_none.mpr fun q _ => by simp
    rw [this]
    rfl
  | some obj =>
    cases obj with
    | token r =>
      rw [recordOf_token h (hb _ rfl), ← getElem?_findIdx?]
      have hindex : indexOfTokenLocked (some (.token r)) s =
          .ok (s.mHistory.findIdx? fun q => q = r) s := rfl
      simp only [getActivityRecordByToken, bind, EStateM.bind, hindex]
      cases s.mHistory.findIdx? fun q => q = r <;> rfl
    | proxy => cases htoken _ rfl
    | service => cases htoken _ rfl
    | stub => cases htoken _ rfl

/-- Anything else is read as a `Token`. -/
theorem getActivityRecordByToken_other {obj : IBinder} (h : ¬ obj.isActivityToken) (s : State) :
    getActivityRecordByToken (some obj) s =
      .error .typeConfusion { s with proxies := s.proxies + 1 } := by
  cases obj with
  | token => cases h rfl
  | proxy => rfl
  | service => rfl
  | stub c id => cases c <;> rfl

theorem raises_getActivityRecordByToken_token {P : Fault → Prop} {b : Option IBinder}
    (htoken : ∀ obj ∈ b, obj.isActivityToken) : Raises P (getActivityRecordByToken b) := by
  have hread : Raises P (indexOfTokenLocked b) := by
    cases b with
    | none => exact fun _ => trivial
    | some obj =>
      cases obj with
      | token r => exact fun _ => trivial
      | proxy => cases htoken _ rfl
      | service => cases htoken _ rfl
      | stub => cases htoken _ rfl
  refine .bind hread fun index => ?_
  split
  · exact .pure _
  · exact .bind .get fun _ => .pure _

/-! ## Service tokens -/

/-- A publish reaches the record of its token only. -/
def PublishesAt (s : State) (token : Option IBinder) (t : State) : Prop :=
  ∀ q, t.services.get q ≠ s.services.get q → token = some (.service q) ∧ s.services.Live q

theorem publishesAt_update {s : State} {r : ServiceRef} (hr : s.services.Live r)
    (f : ServiceRecord → ServiceRecord) :
    PublishesAt s (some (.service r)) { s with services := s.services.update r f } := by
  intro q hq
  have hqr : q = r := by
    by_contra hne
    exact hq (Store.get_update_ne s.services f hne)
  subst hqr
  exact ⟨rfl, hr⟩

theorem wp_publishServiceLocked {s : State} {token : Option IBinder}
    (hb : ∀ obj ∈ token, s.Holds obj) (htoken : ∀ obj ∈ token, obj.isServiceRecord)
    (intent : Option Intent) (service : Option IBinder) :
    wp (publishServiceLocked token intent service) (fun _ t => PublishesAt s token t)
      (fun e t => e ≠ .typeConfusion ∧ PublishesAt s token t) s := by
  have hsame : PublishesAt s token s := fun q hq => absurd rfl hq
  cases token with
  | none => exact hsame
  | some obj =>
    cases obj with
    | service r =>
      simp only [publishServiceLocked, readServiceToken, wp_bind, wp_pure]
      cases intent with
      | none => exact ⟨by simp, hsame⟩
      | some intent =>
        simp only [deref, wp_pure, wp_get]
        split
        · exact hsame
        · simp only [modifyService, wp_bind, wp_modify, wp_pure]
          refine wp_mono (wp_each (I := PublishesAt s (some (.service r)))
            (E := fun e t => e ≠ .typeConfusion ∧ PublishesAt s (some (.service r)) t) _
            (fun c _ t ht => ?_) (publishesAt_update (hb _ rfl) _)) (fun _ _ ht => ht)
              fun _ _ he => he
          simp only [callConnected, wp_bind, wp_get]
          split
          · exact ⟨by simp, ht⟩
          · exact ht
    | proxy => cases htoken _ rfl
    | token => cases htoken _ rfl
    | stub => cases htoken _ rfl

theorem publishServiceLocked_other {obj : IBinder} (h : ¬ obj.isServiceRecord)
    (intent : Option Intent)
    (service : Option IBinder) (s : State) :
    publishServiceLocked (some obj) intent service s = .error .typeConfusion s := by
  cases obj with
  | service => cases h rfl
  | proxy => rfl
  | token => rfl
  | stub => rfl

/-! ## Soundness -/

/-- As `resultTo` or as the token of a bind, the binder is resolved to the history
record whose token it is, or to null, and no request that passes it misreads it. -/
def State.ActivityTokenSound (s : State) (w : World) (b : Option IBinder) : Prop :=
  (∃ t, getActivityRecordByToken b s = .ok (s.recordOf b) t) ∧
    ∀ pid caller intent requestCode connection flags,
      (∀ t, request w pid (.startActivity caller b intent requestCode) s ≠
        .error .typeConfusion t) ∧
      ∀ t, request w pid (.bindService caller b intent connection flags) s ≠
        .error .typeConfusion t

/-- As the token of a publish, the binder is not misread, and no record is written
but the existing one that it is. -/
def State.ServiceTokenSound (s : State) (w : World) (b : Option IBinder) : Prop :=
  ∀ pid intent service,
    wp (request w pid (.publishService b intent service)) (fun _ t => PublishesAt s b t)
      (fun e t => e ≠ .typeConfusion ∧ PublishesAt s b t) s

theorem Typed.ne_error {α : Type} {x : AM α} (h : Typed x) (s t : State) :
    x s ≠ .error .typeConfusion t := fun e => wp_error (h s) e rfl

/-- **Tokens.** In every state that a run reaches, a binder is sound as an activity
token if and only if it is null or an activity's, and as a service token if and only
if it is null or a service record. -/
theorem token_sound_iff (w : World) (as : List Action) (s : State) (hs : Reached w as s)
    (b : Option IBinder) (hb : ∀ obj ∈ b, s.Holds obj) :
    (s.ActivityTokenSound w b ↔ ∀ obj ∈ b, obj.isActivityToken) ∧
      (s.ServiceTokenSound w b ↔ ∀ obj ∈ b, obj.isServiceRecord) := by
  refine ⟨⟨?_, fun h => ⟨⟨s, getActivityRecordByToken_token (reached_token hs) hb h⟩, ?_⟩⟩,
    ⟨?_, fun h pid intent service => ?_⟩⟩
  · rintro ⟨⟨t, ht⟩, -⟩ obj rfl
    by_contra hobj
    rw [getActivityRecordByToken_other hobj] at ht
    cases ht
  · refine fun pid caller intent requestCode connection flags =>
      ⟨Typed.ne_error ?_ s, Typed.ne_error ?_ s⟩
    · exact .bind (raises_interfaceCast _ _) fun _ => .bind (raises_deref typed_nullPointers _)
        fun _ => .bind (raises_startActivityLocked w typed_nullPointers _ _
          (raises_getActivityRecordByToken_token h) _) fun _ => .pure _
    · exact .bind (raises_interfaceCast _ _) fun _ => .bind (raises_interfaceCast _ _) fun _ =>
        .bind (raises_deref typed_nullPointers _) fun _ => raises_bindServiceLocked w
          typed_nullPointers nofun _ (raises_getActivityRecordByToken_token h) _ _ _
  · rintro h obj rfl
    by_contra hobj
    have := h 0 none none
    simp only [request, wp_bind] at this
    exact (wp_error this (publishServiceLocked_other hobj _ _ s)).1 rfl
  · simp only [request, wp_bind, wp_pure]
    exact wp_publishServiceLocked hb h intent service

/-- One service, whose process gets the pid 1. -/
def tokenWorld : World where
  pm := ⟨[⟨[4], [2], [5], [], []⟩], [⟨[1], [2], [3], [], []⟩], [], filtered_nil⟩
  zygote _ := ⟨0, 1⟩
  before _ _ := false
  indeterminate _ := 0

/-- The service is started and is given its record as its token. -/
def startToken : List Action :=
  [.request 0 (.startService none (some (.ofAction [3]))),
    .request 1 (.attachApplication (some (.proxy 1)))]

def tokenState : State := final (run (step tokenWorld) startToken (init tokenWorld))

theorem token_sound_iff_service :
    (tokenState.ActivityTokenSound tokenWorld (some (.service ⟨0⟩)) ↔
      ∀ obj ∈ some (IBinder.service ⟨0⟩), obj.isActivityToken) ∧
    (tokenState.ServiceTokenSound tokenWorld (some (.service ⟨0⟩)) ↔
      ∀ obj ∈ some (IBinder.service ⟨0⟩), obj.isServiceRecord) :=
  token_sound_iff tokenWorld startToken tokenState (eq_ok_final (by decide +kernel)) _
    (by
      rintro _ ⟨⟩
      show 0 < tokenState.services.next
      decide +kernel)

/-- The service starts an activity from its own context, which passes its token. -/
theorem service_token_misread :
    ¬ ∀ (w : World) (as : List Action) (s : State), Reached w as s →
      ∀ b : Option IBinder, (∀ obj ∈ b, s.Holds obj) → s.ActivityTokenSound w b := by
  intro h
  have hlive : tokenState.services.Live ⟨0⟩ := by
    show 0 < tokenState.services.next
    decide +kernel
  have := (h tokenWorld startToken tokenState (eq_ok_final (by decide +kernel))
    (some (.service ⟨0⟩)) (by rintro _ ⟨⟩; exact hlive)).2 1 (some (.proxy 1))
    (some (.ofAction [5])) (-1) none 0
  exact this.1 _ rfl

end Cdroid.Service
