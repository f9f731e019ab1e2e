import Cdroid.Lib.Runs
import Mathlib.Data.List.Nodup
import Mathlib.Data.List.Perm.Basic
import Mathlib.Data.List.Range

/-! The death recipients of one proxy. Links and unlinks are made under the proxy's lock;
an obituary is entered without it, takes the list under it, and reports without it. -/

namespace Cdroid.Binder.Obituaries
open Cdroid.Lib.Runs

variable (R K : Type)

/-! ## The proxy -/

/-- A link to a recipient that stays alive. Its number tells it from the others. -/
structure Obituary where
  recipient : R
  cookie : K
  flags : BitVec 32
  number : Nat

structure BpBinder where
  mAlive : Bool
  mObitsSent : Bool
  mObituaries : Option (List (Obituary R K))

inductive Status
  | NO_ERROR
  | NO_MEMORY
  | DEAD_OBJECT
  | NAME_NOT_FOUND
deriving DecidableEq

/-- Where a call of `sendObituary` is: it has seen that no obituary was sent, or it has
come through the critical section as the `order`-th one and has still to report `obits`. -/
inductive Sending
  | entered
  | reporting (order : Nat) (obits : List (Obituary R K))

/-- The proxy, the calls of `sendObituary` that have not returned, and what has happened:
how many links succeeded, which of them were undone and which were reported by which
obituary, how many obituaries came through the critical section, the requests to the
driver, and what was done to the proxy's weak count. -/
structure State extends BpBinder R K where
  sending : Nat → Option (Sending R K)
  linked : Nat
  unlinked : List Nat
  reported : List (Nat × Nat)
  obituaries : Nat
  requests : Nat
  clears : Nat
  incWeaks : Nat
  decWeaks : Nat

namespace State

def initial : State R K :=
  { mAlive := true, mObitsSent := false, mObituaries := none, sending := fun _ => none,
    linked := 0, unlinked := [], reported := [], obituaries := 0, requests := 0, clears := 0,
    incWeaks := 0, decWeaks := 0 }

variable {R K} [DecidableEq R] [DecidableEq K]

/-- The links that are in the list. -/
def obits (s : State R K) : List (Obituary R K) := s.mObituaries.getD []

/-- `mObituaries->add(ob)`; `added` is whether there was memory. -/
def add (recipient : R) (cookie : K) (flags : BitVec 32) (added : Bool) (s : State R K) :
    Status × State R K :=
  if added then
    (.NO_ERROR, { s with
      mObituaries := some (s.obits ++ [⟨recipient, cookie, flags, s.linked⟩])
      linked := s.linked + 1 })
  else (.NO_MEMORY, s)

/-- The first link takes a weak reference and asks the driver for the notification.
`created` is whether there was memory for the list. -/
def linkToDeath (recipient : R) (cookie : K) (flags : BitVec 32) (created added : Bool)
    (s : State R K) : Status × State R K :=
  if s.mObitsSent then (.DEAD_OBJECT, s)
  else if s.mObituaries.isSome then s.add recipient cookie flags added
  else if created then
    ({ s with
      mObituaries := some [], incWeaks := s.incWeaks + 1, requests := s.requests + 1 } :
        State R K).add recipient cookie flags added
  else (.NO_MEMORY, s)

end State

variable {R K} [DecidableEq R] [DecidableEq K]

def Obituary.matches (recipient : Option R) (cookie : K) (flags : BitVec 32)
    (obit : Obituary R K) : Bool :=
  (some obit.recipient = recipient ∨ recipient = none ∧ obit.cookie = cookie) ∧
    obit.flags = flags

namespace State

/-- The first link that matches is removed and its recipient is `outRecipient`. With the
last one the notification is cleared and the list deleted. -/
def unlinkToDeath (recipient : Option R) (cookie : K) (flags : BitVec 32) (s : State R K) :
    Status × Option R × State R K :=
  if s.mObitsSent then (.DEAD_OBJECT, none, s)
  else match s.obits.find? (·.matches recipient cookie flags) with
    | none => (.NAME_NOT_FOUND, none, s)
    | some obit =>
      let rest := s.obits.eraseP (·.matches recipient cookie flags)
      let s := { s with unlinked := s.unlinked ++ [obit.number] }
      (.NO_ERROR, some obit.recipient,
        if rest = [] then { s with mObituaries := none, clears := s.clears + 1 }
        else { s with mObituaries := some rest })

/-- `sendObituary` before the lock is taken. -/
def sendObituary (t : Nat) (s : State R K) : State R K :=
  if s.mObitsSent then { s with mAlive := false }
  else { s with
    mAlive := false, sending := fun u => if u = t then some .entered else s.sending u }

/-- Under the lock, the list is taken and the notification cleared. -/
def takeObituaries (t : Nat) (s : State R K) : State R K :=
  { s with
    mObituaries := none
    mObitsSent := true
    clears := if s.mObituaries.isSome then s.clears + 1 else s.clears
    sending := fun u => if u = t then some (.reporting s.obituaries s.obits) else s.sending u
    obituaries := s.obituaries + 1 }

/-- `reportOneDeath`, or the return if all are reported. -/
def reportDeath (t order : Nat) (obits : List (Obituary R K)) (s : State R K) : State R K :=
  match obits with
  | [] => { s with sending := fun u => if u = t then none else s.sending u }
  | obit :: rest => { s with
      reported := s.reported ++ [(order, obit.number)]
      sending := fun u => if u = t then some (.reporting order rest) else s.sending u }

end State

/-- A step of one of the operations, or the driver's answer to a clear request. The calls
of `sendObituary` are told apart by numbers. -/
inductive Action (R K : Type)
  | linkToDeath (recipient : R) (cookie : K) (flags : BitVec 32) (created added : Bool)
  | unlinkToDeath (recipient : Option R) (cookie : K) (flags : BitVec 32)
  | sendObituary (t : Nat)
  | takeObituaries (t : Nat)
  | reportDeath (t : Nat)
  | clearDone

def next (s : State R K) : Action R K → Option (State R K)
  | .linkToDeath recipient cookie flags created added =>
    some (s.linkToDeath recipient cookie flags created added).2
  | .unlinkToDeath recipient cookie flags => some (s.unlinkToDeath recipient cookie flags).2.2
  | .sendObituary t => match s.sending t with
    | none => some (s.sendObituary t)
    | some _ => none
  | .takeObituaries t => match s.sending t with
    | some .entered => some (s.takeObituaries t)
    | _ => none
  | .reportDeath t => match s.sending t with
    | some (.reporting order obits) => some (s.reportDeath t order obits)
    | _ => none
  | .clearDone =>
    if s.decWeaks < s.clears then some { s with decWeaks := s.decWeaks + 1 } else none

omit [DecidableEq R] [DecidableEq K] in
/-- The links are counted by what `linkToDeath` returns. -/
theorem linkToDeath_linked (s : State R K) (recipient : R) (cookie : K) (flags : BitVec 32)
    (created added : Bool) :
    (s.linkToDeath recipient cookie flags created added).2.linked =
      if (s.linkToDeath recipient cookie flags created added).1 = .NO_ERROR then s.linked + 1
      else s.linked := by
  cases hsent : s.mObitsSent <;> cases hsome : s.mObituaries.isSome <;> cases created <;>
    cases added <;> simp [State.linkToDeath, State.add, hsent, hsome]

/-- An unlink that finds its link undoes that one. -/
theorem unlinkToDeath_unlinked (s : State R K) (recipient : Option R) (cookie : K)
    (flags : BitVec 32) :
    (s.unlinkToDeath recipient cookie flags).2.2.unlinked =
      if (s.unlinkToDeath recipient cookie flags).1 = .NO_ERROR then
        s.unlinked ++ ((s.obits.find? (·.matches recipient cookie flags)).map
          Obituary.number).toList
      else s.unlinked := by
  unfold State.unlinkToDeath
  split
  · rfl
  · cases s.obits.find? (·.matches recipient cookie flags) with
    | none => rfl
    | some obit =>
      dsimp only
      split <;> rfl

/-! ## The invariant -/

/-- What is still to be reported is in the hands of the first obituary. -/
structure Pending (s : State R K) (pending : List Nat) : Prop where
  order_lt : ∀ t k l, s.sending t = some (.reporting k l) → k < s.obituaries
  first : ∀ t l, s.sending t = some (.reporting 0 l) → l.map Obituary.number = pending
  later : ∀ t k l, s.sending t = some (.reporting k l) → k ≠ 0 → l = []
  unique : ∀ t t' l l', s.sending t = some (.reporting 0 l) →
    s.sending t' = some (.reporting 0 l') → t = t'
  held : pending ≠ [] → ∃ t l, s.sending t = some (.reporting 0 l)

structure Inv (s : State R K) : Prop where
  sent : s.mObitsSent = true → s.mObituaries = none
  unsent : s.mObitsSent = true ↔ 0 < s.obituaries
  requests : s.requests = s.clears + if s.mObituaries.isSome then 1 else 0
  incWeaks : s.incWeaks = s.requests
  decWeaks : s.decWeaks ≤ s.clears
  first : ∀ r ∈ s.reported, r.1 = 0
  pending : ∃ pending, Pending s pending ∧ (List.range s.linked).Perm
    (s.obits.map Obituary.number ++ (s.unlinked ++ (s.reported.map Prod.snd ++ pending)))

omit [DecidableEq R] [DecidableEq K] in
theorem initial_inv : Inv (State.initial R K) where
  sent := nofun
  unsent := by simp [State.initial]
  requests := rfl
  incWeaks := rfl
  decWeaks := Nat.le_refl 0
  first := nofun
  pending := ⟨[], ⟨nofun, nofun, nofun, nofun, fun h => absurd rfl h⟩, .refl _⟩

variable {s t : State R K}

omit [DecidableEq R] [DecidableEq K] in
/-- It depends on the calls of `sendObituary` alone. -/
theorem Pending.congr {pending : List Nat} (h : Pending s pending)
    (hsending : t.sending = s.sending) (hobituaries : t.obituaries = s.obituaries) :
    Pending t pending := by
  constructor <;> rw [hsending]
  · rw [hobituaries]
    exact h.order_lt
  · exact h.first
  · exact h.later
  · exact h.unique
  · exact h.held

omit [DecidableEq R] [DecidableEq K] in
theorem add_inv (h : Inv s) (hsome : s.mObituaries.isSome = true) (recipient : R) (cookie : K)
    (flags : BitVec 32) (added : Bool) : Inv (s.add recipient cookie flags added).2 := by
  unfold State.add
  split
  · obtain ⟨pending, hpending, hperm⟩ := h.pending
    have hnot : s.mObitsSent ≠ true := fun hsent => by
      rw [h.sent hsent] at hsome
      cases hsome
    refine ⟨fun hsent => absurd hsent hnot, h.unsent, ?_, h.incWeaks, h.decWeaks, h.first,
      pending, hpending.congr rfl rfl, ?_⟩
    · rw [h.requests, hsome]
      rfl
    · show (List.range (s.linked + 1)).Perm
        ((s.obits ++ [(⟨recipient, cookie, flags, s.linked⟩ : Obituary R K)]).map
          Obituary.number ++ (s.unlinked ++ (s.reported.map Prod.snd ++ pending)))
      rw [List.range_succ, List.map_append, List.append_assoc]
      refine (List.perm_append_singleton _ _).trans (((List.Perm.cons _ hperm)).trans ?_)
      exact List.perm_middle.symm
  · exact h

omit [DecidableEq R] [DecidableEq K] in
theorem linkToDeath_inv (h : Inv s) (recipient : R) (cookie : K) (flags : BitVec 32)
    (created added : Bool) : Inv (s.linkToDeath recipient cookie flags created added).2 := by
  unfold State.linkToDeath
  split
  · exact h
  next hsent =>
  split
  · next hsome => exact add_inv h hsome recipient cookie flags added
  next hnone =>
  split
  · have hempty : s.mObituaries = none := by simpa using hnone
    obtain ⟨pending, hpending, hperm⟩ := h.pending
    have hcreated : Inv ({ s with
        mObituaries := some []
        incWeaks := s.incWeaks + 1
        requests := s.requests + 1 } : State R K) := by
      refine ⟨fun hs => absurd hs hsent, h.unsent, ?_, congrArg Nat.succ h.incWeaks, h.decWeaks,
        h.first, pending, hpending.congr rfl rfl, ?_⟩
      · show s.requests + 1 = s.clears + 1
        rw [h.requests, hempty]
        rfl
      · rw [State.obits, hempty] at hperm
        exact hperm
    exact add_inv hcreated rfl recipient cookie flags added
  · exact h

/-- What was found is what is removed. -/
theorem find_eraseP {α : Type} {p : α → Bool} {l : List α} {a : α} (h : l.find? p = some a) :
    l.Perm (a :: l.eraseP p) := by
  induction l with
  | nil => cases h
  | cons b l ih =>
    cases hb : p b with
    | true =>
      rw [List.find?_cons_of_pos hb] at h
      rw [List.eraseP_cons_of_pos hb, Option.some.inj h]
    | false =>
      rw [List.find?_cons_of_neg (by simp [hb])] at h
      rw [List.eraseP_cons_of_neg (by simp [hb])]
      exact ((ih h).cons b).trans (.swap a b _)

theorem unlinkToDeath_inv (h : Inv s) (recipient : Option R) (cookie : K) (flags : BitVec 32) :
    Inv (s.unlinkToDeath recipient cookie flags).2.2 := by
  unfold State.unlinkToDeath
  split
  · exact h
  next hsent =>
  split
  · exact h
  next obit hfind =>
  obtain ⟨pending, hpending, hperm⟩ := h.pending
  have hsome : s.mObituaries.isSome = true := by
    cases hnone : s.mObituaries with
    | some l => rfl
    | none =>
      rw [State.obits, hnone] at hfind
      cases hfind
  have hmoved : (List.range s.linked).Perm
      ((s.obits.eraseP (·.matches recipient cookie flags)).map Obituary.number ++
        ((s.unlinked ++ [obit.number]) ++ (s.reported.map Prod.snd ++ pending))) := by
    refine hperm.trans ?_
    refine (((find_eraseP hfind).map Obituary.number).append_right _).trans ?_
    rw [List.map_cons, List.cons_append, List.append_assoc s.unlinked, List.singleton_append]
    refine .trans ?_ (.append_left _ List.perm_middle.symm)
    exact List.perm_middle.symm
  dsimp only
  split
  · next hempty =>
    refine ⟨fun _ => rfl, h.unsent, ?_, h.incWeaks, ?_, h.first, pending,
      hpending.congr rfl rfl, ?_⟩
    · show s.requests = s.clears + 1 + 0
      rw [h.requests, hsome]
      rfl
    · exact Nat.le_succ_of_le h.decWeaks
    · rw [hempty] at hmoved
      exact hmoved
  · refine ⟨fun hs => absurd hs hsent, h.unsent, ?_, h.incWeaks, h.decWeaks, h.first, pending,
      hpending.congr rfl rfl, hmoved⟩
    rw [h.requests, hsome]
    rfl

omit [DecidableEq R] [DecidableEq K] in
theorem sendObituary_inv (h : Inv s) {c : Nat} (hc : s.sending c = none) :
    Inv (s.sendObituary c) := by
  unfold State.sendObituary
  split
  · obtain ⟨pending, hpending, hperm⟩ := h.pending
    exact ⟨h.sent, h.unsent, h.requests, h.incWeaks, h.decWeaks, h.first, pending,
      hpending.congr rfl rfl, hperm⟩
  · obtain ⟨pending, hpending, hperm⟩ := h.pending
    refine ⟨h.sent, h.unsent, h.requests, h.incWeaks, h.decWeaks, h.first, pending, ?_, hperm⟩
    -- the call reports nothing yet
    have hold : ∀ u k l, (if u = c then some .entered else s.sending u) =
        some (Sending.reporting k l) → s.sending u = some (.reporting k l) := by
      intro u k l hu
      split at hu
      · cases hu
      · exact hu
    refine ⟨fun u k l hu => hpending.order_lt u k l (hold u k l hu),
      fun u l hu => hpending.first u l (hold u 0 l hu),
      fun u k l hu => hpending.later u k l (hold u k l hu),
      fun u u' l l' hu hu' => hpending.unique u u' l l' (hold u 0 l hu) (hold u' 0 l' hu'),
      fun hne => ?_⟩
    obtain ⟨u, l, hu⟩ := hpending.held hne
    refine ⟨u, l, (if_neg ?_).trans hu⟩
    rintro rfl
    rw [hc] at hu
    cases hu

omit [DecidableEq R] [DecidableEq K] in
theorem takeObituaries_inv (h : Inv s) {c : Nat} (hc : s.sending c = some .entered) :
    Inv (s.takeObituaries c) := by
  obtain ⟨pending, hpending, hperm⟩ := h.pending
  have hrequests : s.requests = if s.mObituaries.isSome then s.clears + 1 else s.clears := by
    rw [h.requests]
    split <;> rfl
  have hclears : s.decWeaks ≤ if s.mObituaries.isSome then s.clears + 1 else s.clears := by
    have := h.decWeaks
    split <;> omega
  have hcases : ∀ u k l, (s.takeObituaries c).sending u = some (.reporting k l) →
      (u = c ∧ k = s.obituaries ∧ l = s.obits) ∨
        (u ≠ c ∧ s.sending u = some (.reporting k l)) := by
    intro u k l hu
    by_cases heq : u = c
    · have hnew := hu.symm.trans (if_pos heq)
      cases hnew
      exact .inl ⟨heq, rfl, rfl⟩
    · exact .inr ⟨heq, (if_neg heq).symm.trans hu⟩
  refine ⟨fun _ => rfl, iff_of_true rfl (Nat.succ_pos _), hrequests, h.incWeaks, hclears, h.first,
    ?_⟩
  by_cases hfirst : s.obituaries = 0
  · -- the first obituary takes the list
    have hnone : ∀ u k l, s.sending u ≠ some (.reporting k l) := by
      intro u k l hu
      have := hpending.order_lt u k l hu
      omega
    have hempty : pending = [] := by
      by_contra hne
      obtain ⟨u, l, hu⟩ := hpending.held hne
      exact hnone u 0 l hu
    subst hempty
    refine ⟨s.obits.map Obituary.number, ⟨?_, ?_, ?_, ?_, ?_⟩, ?_⟩
    · intro u k l hu
      rcases hcases u k l hu with ⟨-, rfl, -⟩ | ⟨-, hu⟩
      · exact Nat.lt_succ_self _
      · exact absurd hu (hnone u k l)
    · intro u l hu
      rcases hcases u 0 l hu with ⟨-, -, rfl⟩ | ⟨-, hu⟩
      · rfl
      · exact absurd hu (hnone u 0 l)
    · intro u k l hu hk
      rcases hcases u k l hu with ⟨-, rfl, -⟩ | ⟨-, hu⟩
      · exact absurd hfirst hk
      · exact absurd hu (hnone u k l)
    · intro u u' l l' hu hu'
      rcases hcases u 0 l hu with ⟨rfl, -⟩ | ⟨-, hu⟩
      · rcases hcases u' 0 l' hu' with ⟨rfl, -⟩ | ⟨-, hu'⟩
        · rfl
        · exact absurd hu' (hnone u' 0 l')
      · exact absurd hu (hnone u 0 l)
    · exact fun _ => ⟨c, s.obits, (if_pos rfl).trans (by rw [hfirst])⟩
    · show (List.range s.linked).Perm
        ([] ++ (s.unlinked ++ (s.reported.map Prod.snd ++ s.obits.map Obituary.number)))
      refine hperm.trans ?_
      rw [List.append_nil, List.nil_append, ← List.append_assoc s.unlinked]
      exact List.perm_append_comm
  · -- a later one finds no list
    have hsent : s.mObitsSent = true := h.unsent.mpr (by omega)
    have hobits : s.obits = [] := by
      rw [State.obits, h.sent hsent]
      rfl
    refine ⟨pending, ⟨?_, ?_, ?_, ?_, ?_⟩, ?_⟩
    · intro u k l hu
      rcases hcases u k l hu with ⟨-, rfl, -⟩ | ⟨-, hu⟩
      · exact Nat.lt_succ_self _
      · exact Nat.lt_succ_of_lt (hpending.order_lt u k l hu)
    · intro u l hu
      rcases hcases u 0 l hu with ⟨-, hzero, -⟩ | ⟨-, hu⟩
      · exact absurd hzero.symm hfirst
      · exact hpending.first u l hu
    · intro u k l hu hk
      rcases hcases u k l hu with ⟨-, -, rfl⟩ | ⟨-, hu⟩
      · exact hobits
      · exact hpending.later u k l hu hk
    · intro u u' l l' hu hu'
      rcases hcases u 0 l hu with ⟨-, hzero, -⟩ | ⟨-, hu⟩
      · exact absurd hzero.symm hfirst
      · rcases hcases u' 0 l' hu' with ⟨-, hzero, -⟩ | ⟨-, hu'⟩
        · exact absurd hzero.symm hfirst
        · exact hpending.unique u u' l l' hu hu'
    · intro hne
      obtain ⟨u, l, hu⟩ := hpending.held hne
      refine ⟨u, l, (if_neg ?_).trans hu⟩
      rintro rfl
      rw [hc] at hu
      cases hu
    · rw [hobits] at hperm
      exact hperm

omit [DecidableEq R] [DecidableEq K] in
theorem reportDeath_inv (h : Inv s) {c order : Nat} {obits : List (Obituary R K)}
    (hc : s.sending c = some (.reporting order obits)) : Inv (s.reportDeath c order obits) := by
  obtain ⟨pending, hpending, hperm⟩ := h.pending
  cases obits with
  | nil =>
    have hcases : ∀ u k l, (s.reportDeath c order []).sending u = some (.reporting k l) →
        u ≠ c ∧ s.sending u = some (.reporting k l) := by
      intro u k l hu
      by_cases heq : u = c
      · cases hu.symm.trans (if_pos heq)
      · exact ⟨heq, (if_neg heq).symm.trans hu⟩
    refine ⟨h.sent, h.unsent, h.requests, h.incWeaks, h.decWeaks, h.first, pending,
      ⟨fun u k l hu => hpending.order_lt u k l (hcases u k l hu).2,
        fun u l hu => hpending.first u l (hcases u 0 l hu).2,
        fun u k l hu => hpending.later u k l (hcases u k l hu).2,
        fun u u' l l' hu hu' =>
          hpending.unique u u' l l' (hcases u 0 l hu).2 (hcases u' 0 l' hu').2,
        fun hne => ?_⟩, hperm⟩
    obtain ⟨u, l, hu⟩ := hpending.held hne
    refine ⟨u, l, (if_neg ?_).trans hu⟩
    rintro rfl
    -- the first obituary does not return before all is reported
    have hl := hpending.first u l hu
    cases hc.symm.trans hu
    exact hne hl.symm
  | cons obit rest =>
    obtain rfl : order = 0 := by
      by_contra hne
      cases hpending.later c order _ hc hne
    have hfirst := hpending.first c _ hc
    have hcases : ∀ u k l, (s.reportDeath c 0 (obit :: rest)).sending u =
        some (.reporting k l) → (u = c ∧ k = 0 ∧ l = rest) ∨
          (u ≠ c ∧ s.sending u = some (.reporting k l)) := by
      intro u k l hu
      by_cases heq : u = c
      · have hnew := hu.symm.trans (if_pos heq)
        cases hnew
        exact .inl ⟨heq, rfl, rfl⟩
      · exact .inr ⟨heq, (if_neg heq).symm.trans hu⟩
    have hother : ∀ u l, u ≠ c → s.sending u ≠ some (.reporting 0 l) := fun u l hne hu =>
      hne (hpending.unique u c l _ hu hc)
    refine ⟨h.sent, h.unsent, h.requests, h.incWeaks, h.decWeaks, ?_, rest.map Obituary.number,
      ⟨?_, ?_, ?_, ?_, ?_⟩, ?_⟩
    · intro r hr
      rcases List.mem_append.mp hr with hr | hr
      · exact h.first r hr
      · rw [List.mem_singleton.mp hr]
    · intro u k l hu
      rcases hcases u k l hu with ⟨-, rfl, -⟩ | ⟨-, hu⟩
      · exact hpending.order_lt c 0 _ hc
      · exact hpending.order_lt u k l hu
    · intro u l hu
      rcases hcases u 0 l hu with ⟨-, -, rfl⟩ | ⟨hne, hu⟩
      · rfl
      · exact absurd hu (hother u l hne)
    · intro u k l hu hk
      rcases hcases u k l hu with ⟨-, hzero, -⟩ | ⟨-, hu⟩
      · exact absurd hzero hk
      · exact hpending.later u k l hu hk
    · intro u u' l l' hu hu'
      rcases hcases u 0 l hu with ⟨rfl, -⟩ | ⟨hne, hu⟩
      · rcases hcases u' 0 l' hu' with ⟨rfl, -⟩ | ⟨hne, hu'⟩
        · rfl
        · exact absurd hu' (hother u' l' hne)
      · exact absurd hu (hother u l hne)
    · exact fun _ => ⟨c, rest, if_pos rfl⟩
    · rw [← hfirst, List.map_cons] at hperm
      show (List.range s.linked).Perm (s.obits.map Obituary.number ++ (s.unlinked ++
        ((s.reported ++ [(0, obit.number)]).map Prod.snd ++ rest.map Obituary.number)))
      rw [List.map_append, List.append_assoc (s.reported.map Prod.snd)]
      exact hperm

/-- **Step lemma.** -/
theorem next_inv {a : Action R K} (h : Inv s) (ht : next s a = some t) : Inv t := by
  cases a with
  | linkToDeath recipient cookie flags created added =>
    cases ht
    exact linkToDeath_inv h recipient cookie flags created added
  | unlinkToDeath recipient cookie flags =>
    cases ht
    exact unlinkToDeath_inv h recipient cookie flags
  | sendObituary c =>
    dsimp only [next] at ht
    split at ht
    · next hc =>
      cases ht
      exact sendObituary_inv h hc
    · cases ht
  | takeObituaries c =>
    dsimp only [next] at ht
    split at ht
    · next hc =>
      cases ht
      exact takeObituaries_inv h hc
    · cases ht
  | reportDeath c =>
    dsimp only [next] at ht
    split at ht
    · next hc =>
      cases ht
      exact reportDeath_inv h hc
    · cases ht
  | clearDone =>
    dsimp only [next] at ht
    split at ht
    · next hlt =>
      cases ht
      obtain ⟨pending, hpending, hperm⟩ := h.pending
      exact ⟨h.sent, h.unsent, h.requests, h.incWeaks, hlt, h.first, pending,
        hpending.congr rfl rfl, hperm⟩
    · cases ht

/-! ## Runs -/

/-- The first obituary has come through the critical section and has reported all. -/
def State.Over (s : State R K) : Prop :=
  s.mObitsSent = true ∧ ∀ c l, s.sending c = some (.reporting 0 l) → l = []

/-- What the proxy owes to its recipients and to the driver. -/
structure State.Kept (s : State R K) : Prop where
  once : (s.reported.map Prod.snd).Nodup
  first : ∀ r ∈ s.reported, r.1 = 0
  sound : ∀ r ∈ s.reported, r.2 < s.linked ∧ r.2 ∉ s.unlinked
  complete : s.Over → ∀ n < s.linked, n ∉ s.unlinked → (0, n) ∈ s.reported
  ends : s.mObitsSent = true → ∃ as u, after next as s = some u ∧ u.Over ∧
    u.linked = s.linked ∧ u.unlinked = s.unlinked
  requests : s.requests = s.clears + if s.mObituaries.isSome then 1 else 0
  weaks : s.incWeaks = s.requests ∧ s.decWeaks ≤ s.clears
  answers : ∃ as u, after next as s = some u ∧ u.clears = s.clears ∧ u.decWeaks = s.clears

omit [DecidableEq R] [DecidableEq K] in
/-- No link is in two of the lists. -/
theorem Inv.apart (h : Inv s) : (s.unlinked ++ s.reported.map Prod.snd).Nodup := by
  obtain ⟨pending, -, hperm⟩ := h.pending
  have hnodup := hperm.nodup_iff.mp List.nodup_range
  rw [← List.append_assoc s.unlinked] at hnodup
  exact (List.nodup_append.mp (List.nodup_append.mp hnodup).2.1).1

omit [DecidableEq R] [DecidableEq K] in
theorem Inv.sound (h : Inv s) {r : Nat × Nat} (hr : r ∈ s.reported) :
    r.2 < s.linked ∧ r.2 ∉ s.unlinked := by
  have hmem : r.2 ∈ s.reported.map Prod.snd := List.mem_map_of_mem hr
  obtain ⟨pending, -, hperm⟩ := h.pending
  constructor
  · rw [← List.mem_range, hperm.mem_iff]
    simp [hmem]
  · exact fun hunlinked => (List.nodup_append.mp h.apart).2.2 _ hunlinked _ hmem rfl

omit [DecidableEq R] [DecidableEq K] in
theorem Inv.complete (h : Inv s) (hover : s.Over) {n : Nat} (hn : n < s.linked)
    (hkept : n ∉ s.unlinked) : (0, n) ∈ s.reported := by
  obtain ⟨pending, hpending, hperm⟩ := h.pending
  have hempty : pending = [] := by
    by_contra hne
    obtain ⟨c, l, hc⟩ := hpending.held hne
    have hl := hpending.first c l hc
    rw [hover.2 c l hc] at hl
    exact hne hl.symm
  have hmem := hperm.mem_iff.mp (List.mem_range.mpr hn)
  rw [hempty, State.obits, h.sent hover.1] at hmem
  obtain ⟨r, hr, rfl⟩ : ∃ r ∈ s.reported, r.2 = n := by
    simpa [hkept] using hmem
  have := h.first r hr
  exact (Prod.ext this rfl : r = (0, r.2)) ▸ hr

/-- A call that goes on reports all it has. -/
theorem reports_run {c k : Nat} {l : List (Obituary R K)}
    (hc : s.sending c = some (.reporting k l)) :
    ∃ u, after next (List.replicate l.length (.reportDeath c)) s = some u ∧
      u.sending c = some (.reporting k []) ∧ u.mObitsSent = s.mObitsSent ∧
      u.linked = s.linked ∧ u.unlinked = s.unlinked := by
  induction l generalizing s with
  | nil => exact ⟨s, rfl, hc, rfl, rfl, rfl⟩
  | cons obit rest ih =>
    have hstep : next s (.reportDeath c) = some (s.reportDeath c k (obit :: rest)) := by
      simp [next, hc]
    obtain ⟨u, hu, hrest⟩ := ih (s := s.reportDeath c k (obit :: rest)) (if_pos rfl)
    exact ⟨u, after_cons.mpr ⟨_, hstep, hu⟩, hrest⟩

theorem Inv.ends (h : Inv s) (hsent : s.mObitsSent = true) :
    ∃ as u, after next as s = some u ∧ u.Over ∧ u.linked = s.linked ∧
      u.unlinked = s.unlinked := by
  obtain ⟨pending, hpending, -⟩ := h.pending
  by_cases hempty : pending = []
  · refine ⟨[], s, rfl, ⟨hsent, fun c l hc => ?_⟩, rfl, rfl⟩
    have := hpending.first c l hc
    rwa [hempty, List.map_eq_nil_iff] at this
  · obtain ⟨c, l, hc⟩ := hpending.held hempty
    obtain ⟨u, hu, hend, hobits, hlinks⟩ := reports_run hc
    refine ⟨_, u, hu, ⟨hobits.trans hsent, fun c' l' hc' => ?_⟩, hlinks⟩
    -- no other call reports for the first obituary
    obtain ⟨_, hthen, -⟩ := (after_inv (fun _ _ _ => next_inv) _ h hu).pending
    obtain rfl := hthen.unique c c' _ _ hend hc'
    cases hend.symm.trans hc'
    rfl

theorem answers_run (n : Nat) (hn : s.decWeaks + n ≤ s.clears) :
    ∃ u, after next (List.replicate n .clearDone) s = some u ∧ u.clears = s.clears ∧
      u.decWeaks = s.decWeaks + n := by
  induction n generalizing s with
  | zero => exact ⟨s, rfl, rfl, rfl⟩
  | succ n ih =>
    have hstep : next s .clearDone = some { s with decWeaks := s.decWeaks + 1 } :=
      if_pos (by omega)
    obtain ⟨u, hu, hclears, hweaks⟩ := ih (s := { s with decWeaks := s.decWeaks + 1 })
      (by show s.decWeaks + 1 + n ≤ s.clears; omega)
    exact ⟨u, after_cons.mpr ⟨_, hstep, hu⟩, hclears,
      hweaks.trans (Nat.succ_add_eq_add_succ _ _)⟩

theorem Inv.kept (h : Inv s) : s.Kept where
  once := (List.nodup_append.mp h.apart).2.1
  first := h.first
  sound _ hr := h.sound hr
  complete hover _ hn hkept := h.complete hover hn hkept
  ends := h.ends
  requests := h.requests
  weaks := ⟨h.incWeaks, h.decWeaks⟩
  answers := by
    obtain ⟨u, hu, hclears, hweaks⟩ := answers_run (s := s) (s.clears - s.decWeaks)
      (Nat.le_of_eq (Nat.add_sub_cancel' h.decWeaks))
    exact ⟨_, u, hu, hclears, hweaks.trans (Nat.add_sub_cancel' h.decWeaks)⟩

/-- Whatever the order of the steps, each link that was not undone is reported once, at the
first obituary, and each request and its weak reference end with one clear. -/
theorem obituaries_kept (as : List (Action R K)) (h : after next as (State.initial R K) = some s) :
    s.Kept :=
  (after_inv (fun _ _ _ => next_inv) as initial_inv h).kept

/-- Two links, one undone before the binder dies, and an obituary that comes twice. -/
def linkRun : List (Action Nat Nat) :=
  [.linkToDeath 7 0 0 true true, .linkToDeath 8 0 0 true true, .unlinkToDeath (some 7) 0 0,
   .sendObituary 0, .sendObituary 1, .takeObituaries 1, .takeObituaries 0, .reportDeath 1,
   .linkToDeath 9 0 0 true true, .clearDone]

theorem obituaries_kept_linkRun :
    ∃ s, after next linkRun (State.initial Nat Nat) = some s ∧ s.Kept ∧
      s.reported = [(0, 1)] ∧ s.unlinked = [0] ∧ s.decWeaks = 1 :=
  ⟨_, rfl, obituaries_kept linkRun rfl, rfl, rfl, rfl⟩

end Cdroid.Binder.Obituaries
