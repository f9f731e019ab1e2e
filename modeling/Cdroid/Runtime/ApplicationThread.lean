import Cdroid.Binder.Transaction
import Cdroid.Runtime.Parcelable

/-! `IApplicationThread`: what `BpApplicationThread` sends for a call of the activity
manager, and the call that `BnApplicationThread::onTransact` makes of it. -/

namespace Cdroid.Runtime
open Cdroid.Lib.Codec Cdroid.Binder

namespace ApplicationThread

def descriptor : String16 := .ofAscii (ascii "com::cdroid::runtime::IApplicationThread")

/-- `FIRST_CALL_TRANSACTION + 0` -/
@[match_pattern] abbrev TRANSACTION_schedulePauseActivity : Nat := 1
@[match_pattern] abbrev TRANSACTION_bindApplication : Nat := 2
@[match_pattern] abbrev TRANSACTION_scheduleLaunchActivity : Nat := 3
@[match_pattern] abbrev TRANSACTION_scheduleCreateService : Nat := 4
@[match_pattern] abbrev TRANSACTION_scheduleBindService : Nat := 5
@[match_pattern] abbrev TRANSACTION_scheduleReceiver : Nat := 6

/-- `BpApplicationThread` -/
def transact (s : Sender) : ApplicationThreadCall IBinder → Option (Nat × Chunk)
  | .schedulePauseActivity token =>
    s.transact descriptor TRANSACTION_schedulePauseActivity (some (s.writeStrongBinder token))
  | .bindApplication appName =>
    s.transact descriptor TRANSACTION_bindApplication (some (writeString8 appName))
  | .scheduleLaunchActivity ai token intent =>
    s.transact descriptor TRANSACTION_scheduleLaunchActivity <|
      andThen (throughPointer ActivityInfo.writeToParcel ai) <|
      andThen (some (s.writeStrongBinder token)) (throughPointer Intent.writeToParcel intent)
  | .scheduleCreateService si token intent =>
    s.transact descriptor TRANSACTION_scheduleCreateService <|
      andThen (throughPointer ServiceInfo.writeToParcel si) <|
      andThen (some (s.writeStrongBinder token)) (throughPointer Intent.writeToParcel intent)
  | .scheduleBindService token intent rebind =>
    s.transact descriptor TRANSACTION_scheduleBindService <|
      andThen (some (s.writeStrongBinder token)) <|
      andThen (throughPointer Intent.writeToParcel intent) (some (writeBool rebind))
  -- the code is that of `scheduleBindService`
  | .scheduleReceiver intent bundle ordered sticky =>
    s.transact descriptor TRANSACTION_scheduleBindService <|
      andThen (throughPointer Intent.writeToParcel intent) <|
      andThen (some (Bundle.writeToParcel bundle)) <|
      andThen (some (writeBool ordered)) (some (writeBool sticky))

/-- `BnApplicationThread::onTransact`, up to the call. -/
def onTransact (code : Nat) : Read (Option (ApplicationThreadCall IBinder)) :=
  match code with
  | TRANSACTION_schedulePauseActivity => checked descriptor do
    let _arg0 ← readStrongBinder
    pure (.schedulePauseActivity _arg0)
  | TRANSACTION_bindApplication => checked descriptor do
    let _arg0 ← readString8
    pure (.bindApplication _arg0)
  | TRANSACTION_scheduleLaunchActivity => checked descriptor do
    let _arg0 ← ActivityInfo.createFromParcel
    let _arg1 ← readStrongBinder
    let _arg2 ← Intent.createFromParcel
    pure (.scheduleLaunchActivity (some _arg0) _arg1 (some _arg2))
  | TRANSACTION_scheduleCreateService => checked descriptor do
    let _arg0 ← ServiceInfo.createFromParcel
    let _arg1 ← readStrongBinder
    let _arg2 ← Intent.createFromParcel
    pure (.scheduleCreateService (some _arg0) _arg1 (some _arg2))
  | TRANSACTION_scheduleBindService => checked descriptor do
    let _arg0 ← readStrongBinder
    let _arg1 ← Intent.createFromParcel
    let _arg2 ← readInt32
    pure (.scheduleBindService _arg0 (some _arg1) (_arg2 = 1))
  | TRANSACTION_scheduleReceiver => checked descriptor do
    let _arg0 ← Intent.createFromParcel
    let _arg1 ← Bundle.createFromParcel
    let _arg2 ← readInt32
    let _arg3 ← readInt32
    pure (.scheduleReceiver (some _arg0) (some _arg1) (_arg2 = 1) (_arg3 = 1))
  | _ => pure none

/-- The objects are there, what is written of them is all that they hold, and the
method is not `scheduleReceiver`. -/
def Transported : ApplicationThreadCall IBinder → Prop
  | .schedulePauseActivity _ => True
  | .bindApplication appName => Short appName
  | .scheduleLaunchActivity ai _ intent =>
    (∃ a, ai = some a ∧ a.Transported) ∧ ∃ i, intent = some i ∧ i.Transported
  | .scheduleCreateService si _ intent =>
    (∃ a, si = some a ∧ a.Transported) ∧ ∃ i, intent = some i ∧ i.Transported
  | .scheduleBindService _ intent _ => ∃ i, intent = some i ∧ i.Transported
  | .scheduleReceiver .. => False

/-- What comes with the code of `scheduleBindService` is taken for such a call. -/
theorem onTransact_scheduleBindService (p : Parcel) {call : ApplicationThreadCall IBinder}
    (h : (onTransact TRANSACTION_scheduleBindService p).1 = some call) :
    ∃ token intent rebind, call = .scheduleBindService token intent rebind := by
  obtain ⟨p', rfl⟩ := checked_eq_some h
  exact ⟨_, _, _, rfl⟩

/-- **Application thread.** A call arrives as the same call with equal arguments if and
only if it is transported. -/
theorem delivered_iff (s : Sender) (call : ApplicationThreadCall IBinder) :
    Delivered (transact s) onTransact call ↔ Transported call := by
  have hlen : descriptor.length < 2 ^ 31 - 1 := by decide
  have hactivity := ActivityInfo.isCodec.pointer
  have hservice := ServiceInfo.isCodec.pointer
  have hintent := Intent.isCodec.pointer
  have hbinder := isCodec_binder s.getWeakRefs
  cases call with
  | schedulePauseActivity token =>
    exact transact_iff hbinder ApplicationThreadCall.schedulePauseActivity
      (fun _ _ h => by cases h; rfl) s hlen onTransact rfl token
  | bindApplication appName =>
    exact transact_iff isCodec_short ApplicationThreadCall.bindApplication
      (fun _ _ h => by cases h; rfl) s hlen onTransact rfl appName
  | scheduleLaunchActivity ai token intent =>
    refine (transact_iff (hactivity.pair (hbinder.pair hintent))
      (fun p => ApplicationThreadCall.scheduleLaunchActivity p.1 p.2.1 p.2.2)
      (fun ⟨_, _, _⟩ ⟨_, _, _⟩ h => by cases h; rfl) s hlen onTransact ?_
      (ai, token, intent)).trans ?_
    · simp only [onTransact, bind_assoc, pure_bind]
    · simp [Transported]
  | scheduleCreateService si token intent =>
    refine (transact_iff (hservice.pair (hbinder.pair hintent))
      (fun p => ApplicationThreadCall.scheduleCreateService p.1 p.2.1 p.2.2)
      (fun ⟨_, _, _⟩ ⟨_, _, _⟩ h => by cases h; rfl) s hlen onTransact ?_
      (si, token, intent)).trans ?_
    · simp only [onTransact, bind_assoc, pure_bind]
    · simp [Transported]
  | scheduleBindService token intent rebind =>
    refine (transact_iff (hbinder.pair (hintent.pair isCodec_bool))
      (fun p => ApplicationThreadCall.scheduleBindService p.1 p.2.1 p.2.2)
      (fun ⟨_, _, _⟩ ⟨_, _, _⟩ h => by cases h; rfl) s hlen onTransact ?_
      (token, intent, rebind)).trans ?_
    · simp only [onTransact, bind_assoc, pure_bind]
    · simp [Transported]
  | scheduleReceiver intent bundle ordered sticky =>
    refine ⟨?_, False.elim⟩
    rintro ⟨code, parcel, hparcel, hcall⟩
    obtain ⟨c, -, he⟩ := Option.map_eq_some_iff.mp hparcel
    cases he
    obtain ⟨token, i, rebind, h⟩ := onTransact_scheduleBindService _ hcall
    cases h

/-- A receiver's intent is taken for a binder, and the call for a bind. -/
theorem scheduleReceiver_not_delivered :
    ¬ ∀ (s : Sender) (call : ApplicationThreadCall IBinder),
      Delivered (transact s) onTransact call := by
  intro h
  let s : Sender := ⟨0, fun _ => ⟨1, by decide⟩⟩
  obtain ⟨code, parcel, hparcel, hcall⟩ :=
    h s (.scheduleReceiver (some (.ofAction [97])) (some ⟨⟩) false false)
  cases hparcel
  revert hcall
  decide +kernel

end ApplicationThread

end Cdroid.Runtime
