import Mathlib.Data.List.Basic
import Mathlib.Data.List.Perm.Basic
import Mathlib.Order.Defs.LinearOrder
import Mathlib.Order.Lattice

/-! A mailbox: what is sent to it is taken out again in the order of its due times,
equal times in the order in which they were sent, unless it is removed before. What is
sent is numbered, and the mailbox keeps what it had, so that it can be said that nothing
is lost and nothing is taken twice. -/

namespace Cdroid.Lib

variable {α κ : Type}

/-- `taken` and `removed` are what was in the mailbox before. -/
structure Mailbox (α : Type) where
  sent : List α
  queued : List (α × Nat)
  taken : List (α × Nat)
  removed : List (α × Nat)

namespace Mailbox

def empty : Mailbox α := ⟨[], [], [], []⟩

def send (m : Mailbox α) (a : α) : Mailbox α :=
  { m with sent := m.sent ++ [a], queued := m.queued ++ [(a, m.sent.length)] }

def remove (m : Mailbox α) (p : α → Bool) : Mailbox α :=
  { m with
    queued := m.queued.filter fun x => !p x.1
    removed := m.removed ++ m.queued.filter fun x => p x.1 }

def others (x : α × Nat) (q : List (α × Nat)) : List (α × Nat) :=
  q.filter fun y => decide (y.2 ≠ x.2)

def take (m : Mailbox α) (x : α × Nat) : Mailbox α :=
  { m with queued := others x m.queued, taken := m.taken ++ [x] }

/-- What was sent is queued, taken or removed, and no number is there twice. -/
structure Accounts (m : Mailbox α) : Prop where
  perm : (m.taken ++ m.removed ++ m.queued).Perm m.sent.zipIdx
  inTurn : m.queued.Pairwise fun x y => x.2 < y.2

theorem Accounts.lt_length {m : Mailbox α} (h : m.Accounts) {x : α × Nat} (hx : x ∈ m.queued) :
    x.2 < m.sent.length := by
  have hmem : x ∈ m.sent.zipIdx := h.perm.mem_iff.mp (List.mem_append_right _ hx)
  have hlt := List.snd_lt_add_of_mem_zipIdx hmem
  omega

theorem Accounts.empty : (empty : Mailbox α).Accounts := ⟨List.Perm.refl _, List.Pairwise.nil⟩

theorem Accounts.send {m : Mailbox α} (h : m.Accounts) (a : α) : (m.send a).Accounts := by
  constructor
  · show (m.taken ++ m.removed ++ (m.queued ++ [(a, m.sent.length)])).Perm (m.sent ++ [a]).zipIdx
    rw [← List.append_assoc, List.zipIdx_append]
    simp only [Nat.zero_add, List.zipIdx_cons, List.zipIdx_nil]
    exact h.perm.append_right _
  · apply List.pairwise_append.mpr
    refine ⟨h.inTurn, List.pairwise_singleton _ _, ?_⟩
    intro x hx y hy
    rw [List.mem_singleton.mp hy]
    exact h.lt_length hx

theorem Accounts.remove {m : Mailbox α} (h : m.Accounts) (p : α → Bool) :
    (m.remove p).Accounts := by
  constructor
  · refine List.Perm.trans ?_ h.perm
    show (m.taken ++ (m.removed ++ m.queued.filter fun x => p x.1) ++
      m.queued.filter fun x => !p x.1).Perm _
    rw [← List.append_assoc, List.append_assoc]
    exact (List.filter_append_perm (fun x => p x.1) m.queued).append_left _
  · exact h.inTurn.filter _

theorem eq_of_number {q : List (α × Nat)} (h : q.Pairwise fun x y => x.2 < y.2) {x y : α × Nat}
    (hx : x ∈ q) (hy : y ∈ q) (hn : x.2 = y.2) : x = y := by
  induction q with
  | nil => cases hx
  | cons z q ih =>
    obtain ⟨hlt, hq⟩ := List.pairwise_cons.mp h
    rcases List.mem_cons.mp hx with hxz | hx
    · rcases List.mem_cons.mp hy with hyz | hy
      · exact hxz.trans hyz.symm
      · have hz := hlt y hy
        rw [← hxz] at hz
        omega
    · rcases List.mem_cons.mp hy with hyz | hy
      · have hz := hlt x hx
        rw [← hyz] at hz
        omega
      · exact ih hq hx hy

theorem perm_cons_others {q : List (α × Nat)} {x : α × Nat}
    (h : q.Pairwise fun x y => x.2 < y.2) (hx : x ∈ q) : q.Perm (x :: others x q) := by
  induction q with
  | nil => cases hx
  | cons y q ih =>
    obtain ⟨hlt, hq⟩ := List.pairwise_cons.mp h
    rcases List.mem_cons.mp hx with rfl | hx
    · have hkeep : others x q = q := by
        apply List.filter_eq_self.mpr
        intro y hy
        exact decide_eq_true (Nat.ne_of_gt (hlt y hy))
      have hdrop : others x (x :: q) = others x q :=
        List.filter_cons_of_neg (by simp)
      rw [hdrop, hkeep]
    · have hkeep : others x (y :: q) = y :: others x q :=
        List.filter_cons_of_pos (decide_eq_true (Nat.ne_of_lt (hlt x hx)))
      rw [hkeep]
      exact ((ih hq hx).cons y).trans (List.Perm.swap x y _)

theorem Accounts.take {m : Mailbox α} (h : m.Accounts) {x : α × Nat} (hx : x ∈ m.queued) :
    (m.take x).Accounts := by
  constructor
  · refine List.Perm.trans ?_ h.perm
    show (m.taken ++ [x] ++ m.removed ++ others x m.queued).Perm _
    have hmove : (m.taken ++ [x] ++ m.removed).Perm (m.taken ++ m.removed ++ [x]) := by
      rw [List.append_assoc, List.append_assoc]
      exact List.perm_append_comm.append_left _
    refine (hmove.append_right _).trans ?_
    rw [List.append_assoc]
    exact (perm_cons_others h.inTurn hx).symm.append_left _
  · exact h.inTurn.filter _

/-! ## The order -/

section Order
variable [LinearOrder κ] (due : α → κ)

def Before (x y : α × Nat) : Prop := due x.1 < due y.1 ∨ due x.1 = due y.1 ∧ x.2 < y.2

theorem Before.asymm {x y : α × Nat} (h : Before due x y) : ¬ Before due y x := by
  intro h'
  rcases h with hlt | ⟨heq, hn⟩
  · rcases h' with hlt' | ⟨heq', -⟩
    · exact lt_asymm hlt hlt'
    · exact absurd heq'.symm (ne_of_lt hlt)
  · rcases h' with hlt' | ⟨-, hn'⟩
    · exact absurd heq.symm (ne_of_lt hlt')
    · omega

/-- The entry before all the others, of entries in the order in which they were sent. -/
def first : List (α × Nat) → Option (α × Nat)
  | [] => none
  | x :: xs => match first xs with
    | none => some x
    | some y => if due x.1 ≤ due y.1 then some x else some y

/-- Take out what is to be taken next, if it is due. -/
def takeDue (m : Mailbox α) (now : κ) : Mailbox α :=
  match first due m.queued with
  | none => m
  | some x => if due x.1 ≤ now then m.take x else m

/-- `es` are the queued entries in the order in which they are to be taken. -/
def InOrder (q : List (α × Nat)) (es : List α) : Prop :=
  ∃ s : List (α × Nat), s.Perm q ∧ s.Pairwise (Before due) ∧ s.map Prod.fst = es

variable {due}

theorem first_eq_none {q : List (α × Nat)} : first due q = none ↔ q = [] := by
  cases q with
  | nil => simp [first]
  | cons x q =>
    unfold first
    cases first due q with
    | none => simp
    | some y =>
      dsimp only
      split <;> simp

/-- Of entries in the order in which they were sent, `first` is one and is before the
others. -/
theorem first_spec {q : List (α × Nat)} (h : q.Pairwise fun x y => x.2 < y.2) {x : α × Nat}
    (hx : first due q = some x) : x ∈ q ∧ ∀ y ∈ q, y.2 ≠ x.2 → Before due x y := by
  induction q generalizing x with
  | nil => cases hx
  | cons z q ih =>
    obtain ⟨hlt, hq⟩ := List.pairwise_cons.mp h
    unfold first at hx
    cases hf : first due q with
    | none =>
      rw [hf] at hx
      cases hx
      rw [first_eq_none.mp hf]
      refine ⟨List.mem_cons_self .., ?_⟩
      intro y hy hne
      rw [List.mem_singleton.mp hy] at hne
      exact absurd rfl hne
    | some w =>
      rw [hf] at hx
      obtain ⟨hw, hbefore⟩ := ih hq hf
      dsimp only at hx
      split at hx
      · next hle =>
        cases hx
        refine ⟨List.mem_cons_self .., ?_⟩
        intro y hy hne
        rcases List.mem_cons.mp hy with rfl | hy
        · exact absurd rfl hne
        · have hn := hlt y hy
          have hwy : due w.1 ≤ due y.1 := by
            by_cases hsame : y.2 = w.2
            · rw [eq_of_number hq hy hw hsame]
            · rcases hbefore y hy hsame with hlt | ⟨heq, -⟩
              · exact le_of_lt hlt
              · exact le_of_eq heq
          rcases lt_or_eq_of_le (le_trans hle hwy) with hlt | heq
          · exact Or.inl hlt
          · exact Or.inr ⟨heq, hn⟩
      · next hlate =>
        cases hx
        refine ⟨List.mem_cons_of_mem _ hw, ?_⟩
        intro y hy hne
        rcases List.mem_cons.mp hy with rfl | hy
        · exact Or.inl (not_le.mp hlate)
        · exact hbefore y hy hne

theorem Accounts.takeDue {m : Mailbox α} (h : m.Accounts) (now : κ) :
    (m.takeDue due now).Accounts := by
  unfold Mailbox.takeDue
  split
  · exact h
  · next x hx =>
    split
    · exact h.take (first_spec h.inTurn hx).1
    · exact h

/-- What is taken was queued, and is before what stays. -/
theorem takeDue_cases (due : α → κ) {m : Mailbox α} (h : m.Accounts) (now : κ) :
    m.takeDue due now = m ∨
      ∃ x ∈ m.queued, m.takeDue due now = m.take x ∧ ∀ y ∈ others x m.queued, Before due x y := by
  unfold Mailbox.takeDue
  split
  · exact Or.inl rfl
  · next x hx =>
    split
    · obtain ⟨hmem, hfirst⟩ := first_spec h.inTurn hx
      refine Or.inr ⟨x, hmem, rfl, ?_⟩
      intro y hy
      obtain ⟨hy, hne⟩ := List.mem_filter.mp hy
      exact hfirst y hy (of_decide_eq_true hne)
    · exact Or.inl rfl

theorem InOrder.nil : InOrder due [] [] := ⟨[], List.Perm.refl _, List.Pairwise.nil, rfl⟩

theorem InOrder.filter {q : List (α × Nat)} {es : List α} (h : InOrder due q es) (p : α → Bool) :
    InOrder due (q.filter fun x => p x.1) (es.filter p) := by
  obtain ⟨s, hperm, hsorted, rfl⟩ := h
  refine ⟨s.filter fun x => p x.1, hperm.filter _, hsorted.filter _, ?_⟩
  rw [List.filter_map]
  rfl

/-- What is sent last goes between what is not due later and what is. -/
theorem InOrder.insert {q : List (α × Nat)} {as bs : List α} {a : α} {n : Nat}
    (h : InOrder due q (as ++ bs)) (hn : ∀ x ∈ q, x.2 < n) (has : ∀ b ∈ as, due b ≤ due a)
    (hbs : ∀ b ∈ bs, due a < due b) : InOrder due (q ++ [(a, n)]) (as ++ a :: bs) := by
  obtain ⟨s, hperm, hsorted, hs⟩ := h
  obtain ⟨s₁, s₂, rfl, rfl, rfl⟩ := List.map_eq_append_iff.mp hs
  refine ⟨s₁ ++ (a, n) :: s₂, ?_, ?_, by simp⟩
  · exact List.perm_middle.trans ((hperm.cons _).trans (List.perm_append_singleton _ _).symm)
  · obtain ⟨h₁, h₂, h₁₂⟩ := List.pairwise_append.mp hsorted
    apply List.pairwise_append.mpr
    refine ⟨h₁, List.pairwise_cons.mpr ⟨?_, h₂⟩, ?_⟩
    · intro y hy
      exact Or.inl (hbs y.1 (List.mem_map_of_mem hy))
    · intro x hx y hy
      rcases List.mem_cons.mp hy with rfl | hy
      · rcases lt_or_eq_of_le (has x.1 (List.mem_map_of_mem hx)) with hlt | heq
        · exact Or.inl hlt
        · exact Or.inr ⟨heq, hn x (hperm.mem_iff.mp (List.mem_append_left _ hx))⟩
      · exact h₁₂ x hx y hy

/-- The head is the first of what is queued, and the rest is in order without it. -/
theorem InOrder.head {q : List (α × Nat)} {e : α} {es : List α}
    (h : InOrder due q (e :: es)) (hturn : q.Pairwise fun x y => x.2 < y.2) :
    ∃ x, first due q = some x ∧ x.1 = e ∧ InOrder due (others x q) es := by
  obtain ⟨s, hperm, hsorted, hs⟩ := h
  obtain ⟨x, s, rfl, rfl, rfl⟩ := List.map_eq_cons_iff.mp hs
  obtain ⟨hbefore, hrest⟩ := List.pairwise_cons.mp hsorted
  have hx : x ∈ q := hperm.mem_iff.mp (List.mem_cons_self ..)
  cases hf : first due q with
  | none =>
    rw [first_eq_none.mp hf] at hx
    cases hx
  | some w =>
    obtain ⟨hw, hfirst⟩ := first_spec hturn hf
    have hwx : w = x := by
      rcases List.mem_cons.mp (hperm.mem_iff.mpr hw) with rfl | hws
      · rfl
      · by_cases hn : x.2 = w.2
        · exact eq_of_number hturn hw hx hn.symm
        · exact absurd (hfirst x hx hn) (Before.asymm due (hbefore w hws))
    subst hwx
    refine ⟨w, rfl, rfl, s, ?_, hrest, rfl⟩
    exact List.Perm.cons_inv (hperm.trans (perm_cons_others hturn hx))

/-- Nothing is queued if nothing is in order. -/
theorem InOrder.eq_nil {q : List (α × Nat)} (h : InOrder due q []) : q = [] := by
  obtain ⟨s, hperm, -, hs⟩ := h
  rw [List.map_eq_nil_iff.mp hs] at hperm
  exact hperm.symm.eq_nil

end Order

end Mailbox

end Cdroid.Lib
