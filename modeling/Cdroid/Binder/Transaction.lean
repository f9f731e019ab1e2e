import Cdroid.Binder.Codecs

/-! One transaction from a `Bp` proxy to a `Bn` stub: the proxy's parcel is the
interface token and the arguments, and the stub checks the token before it reads the
arguments and calls the method. -/

namespace Cdroid.Binder
open Cdroid.Lib.Codec Cdroid.Runtime

/-- What the writes of a thread depend on beside the values. -/
structure Sender where
  strictModePolicy : BitVec 32
  getWeakRefs : Address → Address

def Sender.writeStrongBinder (s : Sender) (val : Option IBinder) : Chunk :=
  Binder.writeStrongBinder s.getWeakRefs val

/-- `_data` of a call with these arguments, with the code of the transaction. No
arguments stand for a fault on the way. -/
def Sender.transact (s : Sender) (interface : String16) (code : Nat) (args : Option Chunk) :
    Option (Nat × Chunk) :=
  args.map fun c => (code, writeInterfaceToken s.strictModePolicy interface + c)

/-- `CHECK_INTERFACE`, and a method behind it. -/
def checked {γ : Type} (interface : String16) (method : Read γ) : Read (Option γ) := do
  let ok ← checkInterface interface
  if ok then
    let call ← method
    pure (some call)
  else pure none

/-- The proxy makes a transaction of the call, and the stub makes the same call of it,
with equal arguments. -/
def Delivered {γ : Type} (transact : γ → Option (Nat × Chunk)) (onTransact : Nat → Read (Option γ))
    (call : γ) : Prop :=
  ∃ code parcel, transact call = some (code, parcel) ∧
    (onTransact code (.received parcel)).1 = some call

/-- A call comes from the method that was checked. -/
theorem checked_eq_some {γ : Type} {interface : String16} {method : Read γ} {p : Parcel} {call : γ}
    (h : (checked interface method p).1 = some call) : ∃ p', call = (method p').1 := by
  refine ⟨(checkInterface interface p).2, ?_⟩
  change ((if (checkInterface interface p).1 = true then _ else _ : Read _) _).1 = _ at h
  split at h
  · exact (Option.some.inj h).symm
  · cases h

section
variable {α γ : Type} {w : α → Option Chunk} {r : Read α} {P : α → Prop} {interface : String16}

/-- The stub gets behind the token. -/
theorem checked_received (strictModePolicy : BitVec 32) (h : interface.length < 2 ^ 31 - 1)
    (c : Chunk) : ∃ p, At p (writeInterfaceToken strictModePolicy interface) (c + 0) ∧
      ∀ {γ : Type} (method : Read γ), (checked interface method
        (.received (writeInterfaceToken strictModePolicy interface + c))).1 =
          some (method p).1 := by
  obtain ⟨p, hp, hat⟩ := reads_interface strictModePolicy h _ 0 c (at_received _)
  rw [zero_add] at hat
  refine ⟨p, by rwa [add_zero], fun method => ?_⟩
  show ((if (checkInterface interface _).1 = true then _ else _ : Read _)
    (checkInterface interface _).2).1 = _
  rw [hp]
  rfl

/-- The call arrives as it was made if and only if its arguments are transported. -/
theorem transact_iff (hcodec : IsCodec At w r P) (call : α → γ) (hcall : Function.Injective call)
    (s : Sender) (h : interface.length < 2 ^ 31 - 1) {code : Nat}
    (onTransact : Nat → Read (Option γ))
    (hon : onTransact code = checked interface (do let a ← r; pure (call a))) (a : α) :
    (∃ code' parcel, s.transact interface code (w a) = some (code', parcel) ∧
      (onTransact code' (.received parcel)).1 = some (call a)) ↔ P a := by
  constructor
  · rintro ⟨code', parcel, hparcel, hread⟩
    obtain ⟨c, hc, he⟩ := Option.map_eq_some_iff.mp hparcel
    cases he
    obtain ⟨p, hat, hp⟩ := checked_received s.strictModePolicy h c
    rw [hon, hp] at hread
    by_contra hnot
    exact hcodec.misreads a c hnot hc p _ 0 hat (hcall (Option.some.inj hread))
  · intro ha
    obtain ⟨c, hc, hr⟩ := hcodec.reads a ha
    obtain ⟨p, hat, hp⟩ := checked_received s.strictModePolicy h c
    obtain ⟨p', hread, -⟩ := hr p _ 0 hat
    refine ⟨code, _, by rw [hc]; rfl, ?_⟩
    rw [hon, hp]
    show some (call (r p).1) = _
    rw [hread]

end

end Cdroid.Binder
