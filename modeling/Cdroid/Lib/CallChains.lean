import Mathlib.Data.List.Nodup

/-! Chains of calls between threads that wait for one another. The innermost call comes first;
the thread that made a call waits until it is answered, and may be called back meanwhile. -/

namespace Cdroid.Lib.CallChains

variable {τ ι κ : Type}

/-- A call, and the thread that made it: `none` once that thread has gone. -/
structure Call (τ ι : Type) where
  id : ι
  caller : Option τ
  deriving DecidableEq

/-- Where the innermost call of a chain is: in a queue, with the thread that carries it out, or
on its way back. -/
inductive Place (τ κ : Type)
  | queued (k : κ)
  | running (x : τ)
  | returning
  deriving DecidableEq

structure Chain (τ ι κ : Type) where
  place : Place τ κ
  calls : List (Call τ ι)

def ids (cs : List (Call τ ι)) : List ι := cs.map Call.id

def innermost (cs : List (Call τ ι)) : Option ι := cs.head?.map Call.id

/-- The answer goes to the innermost caller that is still there: its call, and the calls that it
was made for. -/
def unwind : List (Call τ ι) → Option (ι × τ × List (Call τ ι))
  | [] => none
  | ⟨_, none⟩ :: cs => unwind cs
  | ⟨t, some x⟩ :: cs => some (t, x, cs)

theorem Place.queued_ne_running {k : κ} {x : τ} : Place.queued k ≠ Place.running x := by
  simp

theorem Place.returning_ne_running {x : τ} :
    (Place.returning : Place τ κ) ≠ Place.running x := by
  simp

/-- The chain after an answer to its innermost call. -/
def Chain.answered (c : Chain τ ι κ) : Option (Chain τ ι κ) :=
  match unwind c.calls with
  | some (_, _, []) => none
  | some (_, x, d :: ds) => some ⟨.running x, d :: ds⟩
  | none => none

section
variable {x y : τ} {t : ι} {c : Call τ ι} {cs ds : List (Call τ ι)}

@[simp] theorem ids_nil : ids ([] : List (Call τ ι)) = [] := rfl

@[simp] theorem ids_cons : ids (c :: cs) = c.id :: ids cs := rfl

@[simp] theorem innermost_nil : innermost ([] : List (Call τ ι)) = none := rfl

@[simp] theorem innermost_cons : innermost (c :: cs) = some c.id := rfl

theorem mem_ids : t ∈ ids cs ↔ ∃ c ∈ cs, c.id = t := by
  simp [ids]

theorem mem_ids_of_innermost (h : innermost cs = some t) : t ∈ ids cs := by
  cases cs with
  | nil => cases h
  | cons c cs =>
    cases h
    exact List.mem_cons_self

end

section
variable [DecidableEq τ]

/-- The innermost call that a thread waits for. -/
def awaited (x : τ) : List (Call τ ι) → Option ι
  | [] => none
  | c :: cs => if c.caller = some x then some c.id else awaited x cs

def Call.cut (x : τ) (c : Call τ ι) : Call τ ι :=
  if c.caller = some x then ⟨c.id, none⟩ else c

/-- A thread goes: nobody waits in its place. -/
def cut (x : τ) (cs : List (Call τ ι)) : List (Call τ ι) := cs.map (Call.cut x)

/-- The call that a thread of the chain has before it: the one that it carries out, or else the
one that it waits for. -/
def Chain.top (c : Chain τ ι κ) (x : τ) : Option ι :=
  match c.place with
  | .running y => if x = y then innermost c.calls else awaited x c.calls
  | _ => awaited x c.calls

variable {x y : τ} {t : ι} {c : Call τ ι} {cs ds : List (Call τ ι)}

/-! ## Waiting -/

@[simp] theorem awaited_nil : awaited x ([] : List (Call τ ι)) = none := rfl

theorem awaited_cons : awaited x (c :: cs) =
    if c.caller = some x then some c.id else awaited x cs := rfl

theorem awaited_of_ne (h : c.caller ≠ some x) : awaited x (c :: cs) = awaited x cs := if_neg h

theorem awaited_self : awaited x (⟨t, some x⟩ :: cs) = some t := if_pos rfl

/-- Who waits has made a call of the chain. -/
theorem mem_of_awaited (h : awaited x cs = some t) : ⟨t, some x⟩ ∈ cs := by
  induction cs with
  | nil => cases h
  | cons c cs ih =>
    rw [awaited_cons] at h
    split at h
    · next hc =>
      cases h
      rw [← hc]
      exact List.mem_cons_self
    · exact List.mem_cons_of_mem _ (ih h)

theorem awaited_ne_none : awaited x cs ≠ none ↔ ∃ c ∈ cs, c.caller = some x := by
  induction cs with
  | nil => simp
  | cons c cs ih =>
    by_cases hc : c.caller = some x
    · simp [awaited_cons, hc]
    · simp [awaited_cons, hc, ih]

theorem awaited_cons_ne_none (h : awaited x cs ≠ none) : awaited x (c :: cs) ≠ none := by
  rw [awaited_cons]
  split
  · exact nofun
  · exact h

/-! ## Threads that go -/

@[simp] theorem Call.id_cut : (c.cut x).id = c.id := by
  unfold Call.cut
  split <;> rfl

theorem Call.caller_cut : (c.cut x).caller = if c.caller = some x then none else c.caller := by
  unfold Call.cut
  split <;> rfl

@[simp] theorem cut_nil : cut x ([] : List (Call τ ι)) = [] := rfl

@[simp] theorem cut_cons : cut x (c :: cs) = c.cut x :: cut x cs := rfl

@[simp] theorem ids_cut : ids (cut x cs) = ids cs := by
  simp [ids, cut]

@[simp] theorem innermost_cut : innermost (cut x cs) = innermost cs := by
  cases cs with
  | nil => rfl
  | cons c cs => simp

theorem mem_cut_of_mem (h : c ∈ cs) : c.cut x ∈ cut x cs := List.mem_map_of_mem h

theorem awaited_cut : awaited y (cut x cs) = if y = x then none else awaited y cs := by
  induction cs with
  | nil => simp
  | cons c cs ih =>
    rw [cut_cons, awaited_cons, awaited_cons, ih, Call.caller_cut, Call.id_cut]
    by_cases hc : c.caller = some x
    · by_cases hy : y = x
      · simp [hc, hy]
      · simp [hc, hy, Ne.symm hy]
    · by_cases hy : y = x
      · simp [hc, hy]
      · simp [hc, hy]

end

end Cdroid.Lib.CallChains
