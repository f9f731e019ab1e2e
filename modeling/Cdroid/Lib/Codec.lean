import Mathlib.Algebra.Group.Defs
import Mathlib.Algebra.GroupWithZero.Nat

/-! Values that are written one after another and read back in the same order. What
is written is an element of a monoid; a reader moves along it. `At s pre rest` says
that the state `s` stands between `pre` and `rest`. A codec comes with the exact set
of values that it transports: in front of what it wrote for a value, the reader gives
that value back if it is in the set, and anything but that value if it is not. -/

namespace Cdroid.Lib.Codec

/-! ## Readers -/

def Reader (σ α : Type) : Type := σ → α × σ

instance (σ : Type) : Monad (Reader σ) where
  pure a s := (a, s)
  bind r f s := f (r s).1 (r s).2

instance (σ : Type) : LawfulMonad (Reader σ) := LawfulMonad.mk' (Reader σ)
  (fun _ => rfl) (fun _ _ => rfl) fun _ _ _ => rfl

variable {σ C α β : Type}

theorem bind_apply (r : Reader σ α) (q : α → Reader σ β) (s : σ) :
    (r >>= q) s = q (r s).1 (r s).2 :=
  rfl

/-- Read `n` values. -/
def readTimes (r : Reader σ α) : Nat → Reader σ (List α)
  | 0 => pure []
  | n + 1 => do
    let a ← r
    let l ← readTimes r n
    pure (a :: l)

theorem length_readTimes (r : Reader σ α) (n : Nat) (s : σ) : (readTimes r n s).1.length = n := by
  induction n generalizing s with
  | zero => rfl
  | succ n ih => exact congrArg (· + 1) (ih (r s).2)

/-- Whatever there is to read, the result meets `P`. -/
def Yields (r : Reader σ α) (P : α → Prop) : Prop := ∀ s, P (r s).1

namespace Yields

variable {r : Reader σ α} {q : α → Reader σ β} {P : α → Prop} {Q : β → Prop}

theorem pure {a : α} (h : P a) : Yields (Pure.pure a : Reader σ α) P := fun _ => h

theorem bind (h : Yields r P) (h' : ∀ a, P a → Yields (q a) Q) : Yields (r >>= q) Q :=
  fun s => h' (r s).1 (h s) (r s).2

theorem trivial (r : Reader σ α) : Yields r fun _ => True := fun _ => True.intro

theorem times (h : Yields r P) (n : Nat) :
    Yields (readTimes r n) fun l => l.length = n ∧ ∀ a ∈ l, P a := by
  induction n with
  | zero => exact .pure ⟨rfl, fun _ ha => nomatch ha⟩
  | succ n ih =>
    refine h.bind fun a ha => ih.bind fun l hl => .pure ⟨?_, ?_⟩
    · rw [List.length_cons, hl.1]
    · rw [List.forall_mem_cons]
      exact ⟨ha, hl.2⟩

end Yields

variable [AddMonoid C]

/-- One write after another. A write that cannot be made is `none`. -/
def andThen (c d : Option C) : Option C := do
  let c ← c
  let d ← d
  some (c + d)

theorem andThen_eq_some {c d : Option C} {e : C} :
    andThen c d = some e ↔ ∃ c', c = some c' ∧ ∃ d', d = some d' ∧ c' + d' = e := by
  simp [andThen, Option.bind_eq_some_iff]

/-- Write the values of a list. -/
def writeAll (w : α → Option C) : List α → Option C
  | [] => some 0
  | a :: l => andThen (w a) (writeAll w l)

theorem writeAll_some (f : α → C) (l : List α) :
    writeAll (fun a => some (f a)) l = some (l.map f).sum := by
  induction l with
  | nil => rfl
  | cons a l ih =>
    rw [writeAll, ih, List.map_cons, List.sum_cons]
    rfl

theorem writeAll_map (w : β → Option C) (f : α → β) (l : List α) :
    writeAll w (l.map f) = writeAll (fun a => w (f a)) l := by
  induction l with
  | nil => rfl
  | cons a l ih => rw [List.map_cons, writeAll, writeAll, ih]

/-! ## Reading what was written -/

section
variable (At : σ → C → C → Prop)

/-- In front of `c`, the reader returns `a` and moves behind `c`. -/
def Reads (r : Reader σ α) (c : C) (a : α) : Prop :=
  ∀ s pre post, At s pre (c + post) → ∃ s', r s = (a, s') ∧ At s' (pre + c) post

/-- In front of `c`, the reader does not return `a`. -/
def Misreads (r : Reader σ α) (c : C) (a : α) : Prop :=
  ∀ s pre post, At s pre (c + post) → (r s).1 ≠ a

/-- What `write` writes for a value, `read` reads as that value if it is in `fits`,
and not otherwise. -/
structure IsCodec (write : α → Option C) (read : Reader σ α) (fits : α → Prop) : Prop where
  reads : ∀ a, fits a → ∃ c, write a = some c ∧ Reads At read c a
  misreads : ∀ a c, ¬ fits a → write a = some c → Misreads At read c a

end

variable {At : σ → C → C → Prop} {r : Reader σ α} {q : α → Reader σ β}
  {w : α → Option C} {P : α → Prop} {w' : β → Option C} {r' : Reader σ β} {P' : β → Prop}

theorem Reads.pure (a : α) : Reads At (Pure.pure a) 0 a := by
  intro s pre post h
  rw [zero_add] at h
  exact ⟨s, rfl, by rwa [add_zero]⟩

theorem Reads.bind {c d : C} {a : α} {b : β} (h : Reads At r c a) (h' : Reads At (q a) d b) :
    Reads At (r >>= q) (c + d) b := by
  intro s pre post hs
  rw [add_assoc] at hs
  obtain ⟨s', hr, hs'⟩ := h s pre (d + post) hs
  obtain ⟨s'', hq, hs''⟩ := h' s' (pre + c) post hs'
  refine ⟨s'', ?_, by rwa [← add_assoc]⟩
  show q (r s).1 (r s).2 = _
  rw [hr]
  exact hq

/-- The rest of what is written is not looked at. -/
theorem Reads.bind_pure {c : C} {a : α} (h : Reads At r c a) (f : α → β) :
    Reads At (do let a ← r; Pure.pure (f a)) c (f a) := by
  have := h.bind (q := fun a => Pure.pure (f a)) (.pure (f a))
  rwa [add_zero] at this

/-- Reading goes wrong behind what was read right. -/
theorem Misreads.behind {c d : C} {a : α} {b : β} (h : Reads At r c a)
    (h' : Misreads At (q a) d b) : Misreads At (r >>= q) (c + d) b := by
  intro s pre post hs
  rw [add_assoc] at hs
  obtain ⟨s', hr, hs'⟩ := h s pre (d + post) hs
  show (q (r s).1 (r s).2).1 ≠ b
  rw [hr]
  exact h' s' (pre + c) post hs'

/-- A first value that goes wrong stays wrong if the result shows it. -/
theorem Misreads.first {c d : C} {a : α} {b : β} (h : Misreads At r c a)
    (hq : ∀ x s, (q x s).1 = b → x = a) : Misreads At (r >>= q) (c + d) b := by
  intro s pre post hs he
  rw [add_assoc] at hs
  exact h s pre (d + post) hs (hq _ _ he)

/-! ## Weights -/

/-- What the reader makes weighs no more than what it has passed of the rest. -/
def Weighs (rest : σ → Nat) (r : Reader σ α) (weight : α → Nat) : Prop :=
  ∀ s, weight (r s).1 + rest (r s).2 ≤ rest s

namespace Weighs

variable {rest : σ → Nat} {weight : α → Nat} {weight' : β → Nat}

theorem pure {a : α} (h : weight a = 0) : Weighs rest (Pure.pure a) weight := by
  intro s
  show weight a + rest s ≤ rest s
  omega

/-- Only a value that the first reader returns has to be followed. -/
theorem bind (h : Weighs rest r weight)
    (h' : ∀ s, Weighs rest (q (r s).1) fun b => weight' b - weight (r s).1) :
    Weighs rest (r >>= q) weight' := by
  intro s
  have hr := h s
  have hq : weight' (q (r s).1 (r s).2).1 - weight (r s).1 + rest (q (r s).1 (r s).2).2 ≤
    rest (r s).2 := h' s (r s).2
  show weight' (q (r s).1 (r s).2).1 + rest (q (r s).1 (r s).2).2 ≤ rest s
  omega

theorem mono {weight₂ : α → Nat} (h : Weighs rest r weight) (hle : ∀ a, weight₂ a ≤ weight a) :
    Weighs rest r weight₂ := by
  intro s
  have hr := h s
  have := hle (r s).1
  omega

theorem times (h : Weighs rest r weight) (n : Nat) :
    Weighs rest (readTimes r n) fun l => (l.map weight).sum := by
  induction n with
  | zero => exact .pure rfl
  | succ n ih =>
    refine h.bind fun a => ih.bind fun l => .pure ?_
    simp only [List.map_cons, List.sum_cons]
    omega

/-- A list behind its count, with what its length weighs. -/
theorem list (h : Weighs rest r weight) (hr' : Weighs rest r' weight') (n : β → Nat)
    (weightₙ : Nat → Nat) (hn : ∀ b, weightₙ (n b) ≤ weight' b) :
    Weighs rest (do let b ← r'; readTimes r (n b))
      fun l => weightₙ l.length + (l.map weight).sum := by
  refine hr'.bind fun t s => ?_
  have hlen : weightₙ (readTimes r (n (r' t).1) s).1.length ≤ weight' (r' t).1 := by
    rw [length_readTimes]
    exact hn (r' t).1
  have ht : ((readTimes r (n (r' t).1) s).1.map weight).sum +
    rest (readTimes r (n (r' t).1) s).2 ≤ rest s := h.times (n (r' t).1) s
  show weightₙ (readTimes r (n (r' t).1) s).1.length +
    ((readTimes r (n (r' t).1) s).1.map weight).sum - weight' (r' t).1 +
      rest (readTimes r (n (r' t).1) s).2 ≤ rest s
  omega

end Weighs

/-! ## Codecs -/

namespace IsCodec

theorem congr {P' : α → Prop} (h : IsCodec At w r P) (hP : ∀ a, P' a ↔ P a) :
    IsCodec At w r P' where
  reads a ha := h.reads a ((hP a).mp ha)
  misreads a c hnot := h.misreads a c fun ha => hnot ((hP a).mpr ha)

/-- Two values, one after the other. -/
theorem pair (h : IsCodec At w r P) (h' : IsCodec At w' r' P') :
    IsCodec At (fun p : α × β => andThen (w p.1) (w' p.2))
      (do let a ← r; let b ← r'; Pure.pure (a, b)) (fun p => P p.1 ∧ P' p.2) where
  reads := by
    rintro ⟨a, b⟩ ⟨ha, hb⟩
    obtain ⟨c, hc, hr⟩ := h.reads a ha
    obtain ⟨d, hd, hr'⟩ := h'.reads b hb
    exact ⟨c + d, andThen_eq_some.mpr ⟨c, hc, d, hd, rfl⟩, hr.bind (hr'.bind_pure fun b => (a, b))⟩
  misreads := by
    rintro ⟨a, b⟩ e hnot he
    obtain ⟨c, hc, d, hd, rfl⟩ := andThen_eq_some.mp he
    by_cases ha : P a
    · obtain ⟨c', hc', hr⟩ := h.reads a ha
      cases hc.symm.trans hc'
      refine .behind hr fun s pre post hs he => ?_
      exact h'.misreads b d (fun hb => hnot ⟨ha, hb⟩) hd s pre post hs (Prod.ext_iff.mp he).2
    · exact .first (h.misreads a c ha hc) fun x s he => (Prod.ext_iff.mp he).1

/-- A value that is made from what is transported, and may hold more than that. -/
theorem iso (h : IsCodec At w r P) (f : α → β) (g : β → α) (hg : ∀ a, g (f a) = a) :
    IsCodec At (fun b => w (g b)) (do let a ← r; Pure.pure (f a))
      (fun b => P (g b) ∧ f (g b) = b) where
  reads := by
    rintro b ⟨hb, hf⟩
    obtain ⟨c, hc, hr⟩ := h.reads (g b) hb
    exact ⟨c, hc, hf ▸ hr.bind_pure f⟩
  misreads := by
    intro b c hnot hc s pre post hs he
    have hr : (r s).1 = g b := (hg _).symm.trans (congrArg g he)
    by_cases hb : P (g b)
    · exact hnot ⟨hb, hr ▸ he⟩
    · exact h.misreads (g b) c hb hc s pre post hs hr

/-- A pointer that is followed to write its object, and set to a new object by the
reader. -/
theorem pointer (h : IsCodec At w r P) :
    IsCodec At (fun o : Option α => o.bind w) (do let a ← r; Pure.pure (some a))
      (fun o => ∃ a, o = some a ∧ P a) where
  reads := by
    rintro _ ⟨a, rfl, ha⟩
    obtain ⟨c, hc, hr⟩ := h.reads a ha
    exact ⟨c, hc, hr.bind_pure some⟩
  misreads := by
    intro o c hnot hc s pre post hs he
    cases o with
    | none => cases hc
    | some a =>
      exact h.misreads a c (fun ha => hnot ⟨a, rfl, ha⟩) hc s pre post hs (Option.some.inj he)

theorem times (h : IsCodec At w r P) (l : List α) :
    (∀ a ∈ l, P a) → ∃ c, writeAll w l = some c ∧ Reads At (readTimes r l.length) c l := by
  induction l with
  | nil => exact fun _ => ⟨0, rfl, .pure []⟩
  | cons a l ih =>
    intro hl
    rw [List.forall_mem_cons] at hl
    obtain ⟨c, hc, hr⟩ := h.reads a hl.1
    obtain ⟨d, hd, hr'⟩ := ih hl.2
    exact ⟨c + d, andThen_eq_some.mpr ⟨c, hc, d, hd, rfl⟩, hr.bind (hr'.bind_pure fun l => a :: l)⟩

theorem times_misreads (h : IsCodec At w r P) (l : List α) {c : C} (hnot : ¬ ∀ a ∈ l, P a)
    (hc : writeAll w l = some c) : Misreads At (readTimes r l.length) c l := by
  induction l generalizing c with
  | nil => exact absurd (by simp) hnot
  | cons a l ih =>
    rw [List.forall_mem_cons] at hnot
    obtain ⟨c, hca, d, hd, rfl⟩ := andThen_eq_some.mp hc
    by_cases ha : P a
    · obtain ⟨c', hc', hr⟩ := h.reads a ha
      cases hca.symm.trans hc'
      refine .behind hr fun s pre post hs he => ?_
      exact ih (fun hl => hnot ⟨ha, hl⟩) hd s pre post hs (List.cons.inj he).2
    · exact .first (h.misreads a c ha hca) fun x s he => (List.cons.inj he).1

/-- A list behind its length. -/
theorem list {wn : Nat → Option C} {rn : Reader σ Nat} {N : Nat → Prop} (hn : IsCodec At wn rn N)
    (h : IsCodec At w r P) :
    IsCodec At (fun l : List α => andThen (wn l.length) (writeAll w l))
      (do let n ← rn; readTimes r n) (fun l => N l.length ∧ ∀ a ∈ l, P a) where
  reads := by
    rintro l ⟨hlen, hl⟩
    obtain ⟨c, hc, hr⟩ := hn.reads l.length hlen
    obtain ⟨d, hd, hr'⟩ := h.times l hl
    exact ⟨c + d, andThen_eq_some.mpr ⟨c, hc, d, hd, rfl⟩, hr.bind hr'⟩
  misreads := by
    intro l e hnot he
    obtain ⟨c, hc, d, hd, rfl⟩ := andThen_eq_some.mp he
    by_cases hlen : N l.length
    · obtain ⟨c', hc', hr⟩ := hn.reads l.length hlen
      cases hc.symm.trans hc'
      exact .behind hr (h.times_misreads l (fun hl => hnot ⟨hlen, hl⟩) hd)
    · refine .first (hn.misreads l.length c hlen hc) fun n s he => ?_
      rw [← he, length_readTimes]

end IsCodec

end Cdroid.Lib.Codec
