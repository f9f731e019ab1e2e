import Cdroid.Runtime.Parcelable
import Mathlib.Algebra.BigOperators.Group.List.Basic

/-! The replies on `IActivityManager`, `IPackageManager` and `IWindowManager`: what the
stubs write for a result, and what the proxies make of it. A proxy begins with
`readExceptionCode`. No stub calls `writeNoException`, so the marker that tells a result
from none is read as the exception code, and the result as the marker. -/

namespace Cdroid.Service.Replies
open Cdroid.Lib.Codec Cdroid.Binder Cdroid.Runtime

/-! ## Methods -/

/-- The methods, none of them one-way. -/
inductive Method
  | attachApplication
  | startActivity
  | startService
  | bindService
  | publishService
  | registerReceiver
  | broadcastIntent
  | getActivityInfo
  | resolveActivityInfo
  | resolveServiceInfo
  | resolveIntentReceivers
  | onKeyEvent
  | registerFocusWindow
  | displayText
  deriving DecidableEq

/-- What a method returns. A null `sp<T>` or `Vector<T> *` is `none`. -/
def Method.Result : Method → Type
  | .attachApplication => Unit
  | .startActivity => BitVec 32
  | .startService => BitVec 32
  | .bindService => BitVec 32
  | .publishService => BitVec 32
  | .registerReceiver => BitVec 32
  | .broadcastIntent => BitVec 32
  | .getActivityInfo => Option ActivityInfo
  | .resolveActivityInfo => Option ActivityInfo
  | .resolveServiceInfo => Option ServiceInfo
  | .resolveIntentReceivers => Option (List (Option ReceiverInfo))
  | .onKeyEvent => Unit
  | .registerFocusWindow => BitVec 32
  | .displayText => BitVec 32

/-! ## Stubs -/

/-- One call on `reply`. An object that is not there cannot be written. -/
inductive ReplyWrite
  | writeNoException
  | writeInt32 (val : BitVec 32)
  | writeToParcel (object : Option Chunk)
  deriving DecidableEq

def ReplyWrite.chunk : ReplyWrite → Option Chunk
  | .writeNoException => some (Binder.writeInt32 0)
  | .writeInt32 val => some (Binder.writeInt32 val)
  | .writeToParcel object => object

def writeVoid : List ReplyWrite := [.writeInt32 1]

def writeInt (_result : BitVec 32) : List ReplyWrite := [.writeInt32 1, .writeInt32 _result]

/-- `if(_result != NULL)` -/
def writePointer {α : Type} (write : α → List ReplyWrite) : Option α → List ReplyWrite
  | some a => .writeInt32 1 :: write a
  | none => [.writeInt32 0]

def writeActivityInfo (ai : ActivityInfo) : List ReplyWrite :=
  [.writeToParcel (some ai.writeToParcel)]

def writeServiceInfo (si : ServiceInfo) : List ReplyWrite :=
  [.writeToParcel (some si.writeToParcel)]

/-- `while(N--)`: the last receiver is written first. -/
def writeReceivers (_result : List (Option ReceiverInfo)) : List ReplyWrite :=
  .writeInt32 (BitVec.ofNat 32 _result.length) ::
    _result.reverse.map fun ri => .writeToParcel (ri.bind ReceiverInfo.writeToParcel)

/-- `BnActivityManager`, `BnPackageManager` and `BnWindowManager`, from the result on. -/
def onTransact : (m : Method) → m.Result → List ReplyWrite
  | .attachApplication, _ => writeVoid
  | .startActivity, _result => writeInt _result
  | .startService, _result => writeInt _result
  | .bindService, _result => writeInt _result
  | .publishService, _result => writeInt _result
  | .registerReceiver, _result => writeInt _result
  | .broadcastIntent, _result => writeInt _result
  | .getActivityInfo, _result => writePointer writeActivityInfo _result
  | .resolveActivityInfo, _result => writePointer writeActivityInfo _result
  | .resolveServiceInfo, _result => writePointer writeServiceInfo _result
  | .resolveIntentReceivers, _result => writePointer writeReceivers _result
  | .onKeyEvent, _ => writeVoid
  | .registerFocusWindow, result => writeInt result
  | .displayText, result => writeInt result

/-! ## Proxies -/

/-- `if ((0!=_reply.readInt32()))` behind the exception code, which is not looked at. -/
def readReply {α : Type} (present : Read α) (absent : α) : Read α := do
  let _ ← readExceptionCode
  let marker ← readInt32
  if 0 ≠ marker then present else pure absent

def readVoid : Read Unit := readReply (pure ()) ()

def readInt : Read (BitVec 32) := readReply readInt32 (-1)

def readPointer {α : Type} (create : Read α) : Read (Option α) :=
  readReply (do let a ← create; pure (some a)) none

/-- `while(N--)`: the first receiver that is read is the first of the vector. -/
def readReceivers : Read (List (Option ReceiverInfo)) := do
  let N ← readInt32
  readTimes (do let rf ← ReceiverInfo.createFromParcel; pure (some rf)) N.toNat

/-- `BpActivityManager`, `BpPackageManager` and `BpWindowManager`, from the reply on. -/
def transact : (m : Method) → Read m.Result
  | .attachApplication => readVoid
  | .startActivity => readInt
  | .startService => readInt
  | .bindService => readInt
  | .publishService => readInt
  | .registerReceiver => readInt
  | .broadcastIntent => readInt
  | .getActivityInfo => readPointer ActivityInfo.createFromParcel
  | .resolveActivityInfo => readPointer ActivityInfo.createFromParcel
  | .resolveServiceInfo => readPointer ServiceInfo.createFromParcel
  | .resolveIntentReceivers => readPointer readReceivers
  | .onKeyEvent => readVoid
  | .registerFocusWindow => readInt
  | .displayText => readInt

/-! ## Agreement -/

section
variable {α : Type}

/-- The reply is written, and read as `a`. -/
def Replied (writes : List ReplyWrite) (read : Read α) (a : α) : Prop :=
  ∃ c, writeAll ReplyWrite.chunk writes = some c ∧ (read (.received c)).1 = a

/-- Behind a word that is taken for the exception code, the reader finds the rest. -/
theorem readReply_behind (code : BitVec 32) (h : code ≠ EX_HAS_REPLY_HEADER) (present : Read α)
    (absent : α) (c : Chunk) : ∃ p, At p (writeInt32 code) (c + 0) ∧
      (readReply present absent (.received (writeInt32 code + c))).1 =
        ((if 0 ≠ (readInt32 p).1 then present else pure absent : Read α) (readInt32 p).2).1 := by
  obtain ⟨p, hp, hat⟩ := reads_exceptionCode h _ 0 c (at_received _)
  rw [zero_add] at hat
  refine ⟨p, by rwa [add_zero], ?_⟩
  show ((if 0 ≠ (readInt32 (readExceptionCode _).2).1 then present else pure absent : Read α)
    (readInt32 (readExceptionCode _).2).2).1 = _
  rw [hp]

/-- The result stands where the marker is looked for, and nothing behind it. -/
theorem readInt_shifted (_result : BitVec 32) :
    (readInt (.received (writeInt32 1 + writeInt32 _result))).1 =
      if 0 ≠ _result then 0 else -1 := by
  obtain ⟨p, hat, hread⟩ := readReply_behind 1 (by decide) readInt32 (-1)
    (writeInt32 _result)
  obtain ⟨p', hp, hend⟩ := reads_int32 _result p _ 0 hat
  rw [readInt, hread, hp]
  split
  · exact readInt32_end hend
  · rfl

theorem replied_int (_result : BitVec 32) : ¬ Replied (writeInt _result) readInt _result := by
  rintro ⟨c, hc, hread⟩
  cases hc
  rw [add_zero, readInt_shifted] at hread
  split at hread
  · next h => exact h hread
  · next h =>
    rw [← not_not.mp h] at hread
    exact absurd hread (by decide)

/-- A result with bytes of its own comes back with fewer: the first word is gone. -/
theorem replied_pointer (write : α → List ReplyWrite) {create : Read α} {weight : α → Nat}
    (hwrite : ∀ a, ((write a).map fun w => weightOf w.chunk).sum ≤ weight a)
    (hcreate : Weighs Parcel.rest create weight) (o : Option α) :
    Replied (writePointer write o) (readPointer create) o ↔ o = none := by
  constructor
  · rintro ⟨c, hc, hread⟩
    cases o with
    | none => rfl
    | some a =>
      exfalso
      obtain ⟨_, ⟨⟩, d, hd, rfl⟩ := andThen_eq_some.mp hc
      obtain ⟨p, hat, he⟩ := readReply_behind 1 (by decide)
        (do let a ← create; pure (some a)) none d
      rw [readPointer, he] at hread
      have hmarker : (writeInt32 (readInt32 p).1).weight + Parcel.rest (readInt32 p).2 ≤ p.rest :=
        weighs_int32 p
      split at hread
      · next hne =>
        have hpos := weight_int32_pos (Ne.symm hne)
        have hbound := hcreate (readInt32 p).2
        have ha : (create (readInt32 p).2).1 = a := Option.some.inj hread
        have hle := hwrite a
        rw [← weight_writeAll hd, ← hat.rest] at hle
        rw [ha] at hbound
        omega
      · cases hread
  · rintro rfl
    exact ⟨_, rfl, rfl⟩

theorem replied_void : Replied writeVoid readVoid () := ⟨_, rfl, rfl⟩

end

/-- The count and the receivers, in whatever order. -/
def receiversWeight (l : List (Option ReceiverInfo)) : Nat :=
  (writeInt32 (BitVec.ofNat 32 l.length)).weight +
    (l.map fun ri => weightOf (ri.bind ReceiverInfo.writeToParcel)).sum

theorem weight_writeReceivers (l : List (Option ReceiverInfo)) :
    ((writeReceivers l).map fun w => weightOf w.chunk).sum = receiversWeight l := by
  rw [writeReceivers, List.map_cons, List.sum_cons, List.map_map, List.map_reverse,
    List.sum_reverse]
  rfl

theorem weighs_receivers : Weighs Parcel.rest readReceivers receiversWeight := by
  have hcreate : Weighs Parcel.rest (do let rf ← ReceiverInfo.createFromParcel; pure (some rf))
      fun ri => weightOf (ri.bind ReceiverInfo.writeToParcel) :=
    ReceiverInfo.weighs.bind fun p => .pure (Nat.sub_self _)
  refine hcreate.list weighs_int32 BitVec.toNat
    (fun n => (writeInt32 (BitVec.ofNat 32 n)).weight) fun N => ?_
  exact Nat.le_of_eq (by rw [BitVec.ofNat_toNat, BitVec.setWidth_eq])

/-- The proxy returns what the implementation has returned. -/
def Agrees (m : Method) (result : m.Result) : Prop :=
  Replied (onTransact m result) (transact m) result

/-- What `readExceptionCode` reads is an exception code of the stub's. -/
def HeaderWritten (m : Method) (result : m.Result) : Prop :=
  (onTransact m result).head? = some .writeNoException

/-- No result to return: a method without one, or a null pointer. -/
def Nothing : (m : Method) → m.Result → Prop
  | .attachApplication, _ => True
  | .startActivity, _ => False
  | .startService, _ => False
  | .bindService, _ => False
  | .publishService, _ => False
  | .registerReceiver, _ => False
  | .broadcastIntent, _ => False
  | .getActivityInfo, _result => _result = none
  | .resolveActivityInfo, _result => _result = none
  | .resolveServiceInfo, _result => _result = none
  | .resolveIntentReceivers, _result => _result = none
  | .onKeyEvent, _ => True
  | .registerFocusWindow, _ => False
  | .displayText, _ => False

theorem not_headerWritten (m : Method) (result : m.Result) : ¬ HeaderWritten m result := by
  have hpointer : ∀ {α : Type} (write : α → List ReplyWrite) (o : Option α),
      (writePointer write o).head? ≠ some .writeNoException := by
    intro α write o
    cases o <;> simp [writePointer]
  cases m <;> first | exact hpointer _ _ | (intro h; cases h)

theorem agrees_iff (m : Method) (result : m.Result) : Agrees m result ↔ Nothing m result := by
  have hint : ∀ _result, Replied (writeInt _result) readInt _result ↔ False :=
    fun _result => iff_false_intro (replied_int _result)
  have hvoid : Replied writeVoid readVoid () ↔ True := iff_true_intro replied_void
  have hactivity := replied_pointer writeActivityInfo (fun _ => Nat.le_refl _)
    ActivityInfo.weighs
  have hservice := replied_pointer writeServiceInfo (fun _ => Nat.le_refl _)
    ServiceInfo.weighs
  have hreceivers := replied_pointer writeReceivers
    (fun l => Nat.le_of_eq (weight_writeReceivers l)) weighs_receivers
  cases m with
  | attachApplication => exact hvoid
  | startActivity => exact hint result
  | startService => exact hint result
  | bindService => exact hint result
  | publishService => exact hint result
  | registerReceiver => exact hint result
  | broadcastIntent => exact hint result
  | getActivityInfo => exact hactivity result
  | resolveActivityInfo => exact hactivity result
  | resolveServiceInfo => exact hservice result
  | resolveIntentReceivers => exact hreceivers result
  | onKeyEvent => exact hvoid
  | registerFocusWindow => exact hint result
  | displayText => exact hint result

/-- **Replies.** No reply has the header, and the value alone comes back if and only if
there is none. -/
theorem reply_agrees_iff (m : Method) (result : m.Result) :
    ¬ (Agrees m result ∧ HeaderWritten m result) ∧ (Agrees m result ↔ Nothing m result) :=
  ⟨fun h => not_headerWritten m result h.2, agrees_iff m result⟩

/-- The 0 of `startActivity` comes back as -1. -/
theorem startActivity_disagrees :
    ¬ ∀ (m : Method) (result : m.Result), Agrees m result ∧ HeaderWritten m result := by
  intro h
  obtain ⟨c, hc, hread⟩ := (h .startActivity 0#32).1
  cases hc
  change (readInt _).1 = 0#32 at hread
  revert hread
  decide +kernel

end Cdroid.Service.Replies
