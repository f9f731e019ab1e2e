import Cdroid.Driver.Counts

/-! What a transaction that is not finished owes: each object that has been translated is a
mark, which counts a node, a reference or a descriptor until it is taken back. -/

namespace Cdroid.Driver.References
open Cdroid.Lib State

/-! ## Marks -/

/-- The target node that the buffer holds, a node of the target, by its `ptr`, a reference of
the target, by its descriptor, or a descriptor that is installed. -/
inductive Mark
  | target (a : Nat)
  | node (a : Nat) (ptr : BitVec 32) (strong : Bool)
  | ref (a : Nat) (desc : BitVec 32) (strong : Bool)
  | fd (fd : BitVec 32)
  deriving DecidableEq

namespace Mark

/-- The local count that it stands for. -/
def counts : Mark → Option (Nat × Bool)
  | target a => some (a, true)
  | node a _ strong => some (a, strong)
  | _ => none

/-- The reference that it counts. -/
def holds : Mark → Option (Nat × Bool)
  | ref a _ strong => some (a, strong)
  | _ => none

def fd? : Mark → Option (BitVec 32)
  | fd f => some f
  | _ => none

end Mark

def localsOf (marks : List Mark) (a : Nat) (strong : Bool) : Nat :=
  marks.countP fun m => m.counts = some (a, strong)

def heldOf (marks : List Mark) (a : Nat) (strong : Bool) : Nat :=
  marks.countP fun m => m.holds = some (a, strong)

def fdsOf (T : Nat) (marks : List Mark) : List (Nat × BitVec 32) :=
  marks.filterMap fun m => m.fd?.map (T, ·)

/-- 1 if there is any. -/
def any (k : Nat) : Int := if k = 0 then 0 else 1

/-! ## What is owed -/

section Owes
variable {T : Nat} {s₀ s t : State} {marks rest : List Mark} {m : Mark} {a : Nat} {strong : Bool}

/-- Since `s₀` the marks were counted, or none of them where `binder_inc_ref` failed, which it
does for a reference that has no such count only. -/
structure Owes (T : Nat) (s₀ : State) (marks : List Mark) (s : State) : Prop where
  others : ∀ p a st, p ≠ T → s.held p a st = s₀.held p a st
  lower : ∀ a st, s₀.held T a st ≤ s.held T a st
  upper : ∀ a st, s.held T a st ≤ s₀.held T a st + heldOf marks a st
  exact : ∀ a st, 0 < s₀.held T a st → s.held T a st = s₀.held T a st + heldOf marks a st
  locals : ∀ a st, s.locals a st = s₀.locals a st + localsOf marks a st
  internals : ∀ a, s.internals a = s₀.internals a + any (s.held T a true) - any (s₀.held T a true)
  procs : s.procs = s₀.procs
  fds : ∃ done, s.installed = s₀.installed ++ (done ++ fdsOf T marks) ∧
    s.closed = s₀.closed ++ done

theorem Owes.init (T : Nat) (s : State) : Owes T s [] s where
  others _ _ _ _ := rfl
  lower _ _ := Nat.le_refl _
  upper _ _ := Nat.le_refl _
  exact _ _ _ := rfl
  locals _ _ := by simp [localsOf]
  internals _ := by omega
  procs := rfl
  fds := ⟨[], by simp [fdsOf], by simp⟩

theorem Owes.same (h : Owes T s₀ marks s) (hst : Same s t) : Owes T s₀ marks t where
  others p a st hp := (hst.held p a st).trans (h.others p a st hp)
  lower a st := hst.held T a st ▸ h.lower a st
  upper a st := hst.held T a st ▸ h.upper a st
  exact a st hpos := (hst.held T a st).trans (h.exact a st hpos)
  locals a st := (hst.locals a st).trans (h.locals a st)
  internals a := by
    rw [hst.internals, hst.held]
    exact h.internals a
  procs := hst.procs.trans h.procs
  fds := by
    rw [hst.installed, hst.closed]
    exact h.fds

/-- What the counts of a state are to agree with: no local count is negative, and a node that
no reference holds strongly has no internal one. -/
structure Counted (s : State) : Prop where
  locals : ∀ a st, 0 ≤ s.locals a st
  internals : ∀ a, (∀ p, s.held p a true = 0) → s.internals a = 0

theorem Owes.unreferred (h : Owes T s₀ marks s) (hs : Counted s₀) (ha : s.referred a = false) :
    s.internals a = 0 := by
  have hzero : ∀ p, s.held p a true = 0 := by
    intro p
    unfold held
    rw [referred_eq_false.mp ha p]
    rfl
  have hT : s₀.held T a true = 0 := Nat.le_zero.mp (hzero T ▸ h.lower a true)
  have hzero₀ : ∀ p, s₀.held p a true = 0 := by
    intro p
    by_cases hp : p = T
    · rw [hp, hT]
    · rw [← h.others p a true hp, hzero p]
  rw [h.internals, hs.internals a hzero₀, hzero T, hT]
  rfl

theorem Owes.settle (strong : Bool) (h : Owes T s₀ marks s) (hs : Counted s₀) :
    Owes T s₀ marks (s.settleNode a strong) ∧ Within (s.settleNode a strong) s := by
  obtain ⟨hsame, hwithin⟩ := settleNode_same strong (h.unreferred hs (a := a))
  exact ⟨h.same hsame, hwithin⟩

/-! ## Local counts -/

theorem localsOf_cons (b : Nat) (st : Bool) : localsOf (m :: rest) b st =
    localsOf rest b st + if m.counts = some (b, st) then 1 else 0 := by
  simp [localsOf, List.countP_cons]

theorem localsOf_snoc (b : Nat) (st : Bool) : localsOf (marks ++ [m]) b st =
    localsOf marks b st + if m.counts = some (b, st) then 1 else 0 := by
  simp [localsOf, List.countP_append, List.countP_cons]

theorem heldOf_cons (b : Nat) (st : Bool) : heldOf (m :: rest) b st =
    heldOf rest b st + if m.holds = some (b, st) then 1 else 0 := by
  simp [heldOf, List.countP_cons]

theorem heldOf_snoc (b : Nat) (st : Bool) : heldOf (marks ++ [m]) b st =
    heldOf marks b st + if m.holds = some (b, st) then 1 else 0 := by
  simp [heldOf, List.countP_append, List.countP_cons]

theorem fdsOf_cons : fdsOf T (m :: rest) = (m.fd?.map (T, ·)).toList ++ fdsOf T rest := by
  unfold fdsOf
  rw [List.filterMap_cons]
  cases m.fd? <;> rfl

theorem fdsOf_snoc : fdsOf T (marks ++ [m]) = fdsOf T marks ++ (m.fd?.map (T, ·)).toList := by
  unfold fdsOf
  rw [List.filterMap_append]
  cases h : m.fd? <;> simp [h]

theorem fdsOf_nil : fdsOf T [] = [] := rfl

/-- The mark stands for this count. -/
theorem mark_iff {x : Option (Nat × Bool)} (h : x = some (a, strong)) (b : Nat) (st : Bool) :
    x = some (b, st) ↔ b = a ∧ st = strong := by
  rw [h, Option.some.injEq, Prod.mk.injEq]
  exact ⟨fun ⟨hb, hst⟩ => ⟨hb.symm, hst.symm⟩, fun ⟨hb, hst⟩ => ⟨hb.symm, hst.symm⟩⟩

/-- The local counts are others, and so are the marks for them. -/
theorem Owes.recount {marks' : List Mark} (h : Owes T s₀ marks s)
    (hlocals : ∀ b st,
      t.locals b st + localsOf marks b st = s.locals b st + localsOf marks' b st)
    (hheld : ∀ b st, heldOf marks' b st = heldOf marks b st)
    (hfds : fdsOf T marks' = fdsOf T marks) (hrefs : t.refs = s.refs)
    (hinternals : ∀ b, t.internals b = s.internals b) (hprocs : t.procs = s.procs)
    (hinstalled : t.installed = s.installed) (hclosed : t.closed = s.closed) :
    Owes T s₀ marks' t := by
  have hsame : ∀ p b st, t.held p b st = s.held p b st := by
    intro p b st
    unfold held
    rw [hrefs]
  refine ⟨fun p b st hp => ?_, fun b st => ?_, fun b st => ?_, fun b st hpos => ?_, fun b st => ?_,
    fun b => ?_, hprocs.trans h.procs, ?_⟩
  · rw [hsame, h.others p b st hp]
  · rw [hsame]
    exact h.lower b st
  · rw [hsame, hheld]
    exact h.upper b st
  · rw [hsame, hheld]
    exact h.exact b st hpos
  · have hb := hlocals b st
    have hs := h.locals b st
    omega
  · rw [hsame, hinternals]
    exact h.internals b
  · rw [hfds, hinstalled, hclosed]
    exact h.fds

/-- A local count is one more for a mark that is added. -/
theorem Owes.count (h : Owes T s₀ marks s) (ha : (s.nodes.get a).isSome)
    (hcounts : m.counts = some (a, strong)) (hholds : m.holds = none) (hfd : m.fd? = none)
    (l : Option WorkList) : Owes T s₀ (marks ++ [m]) (s.incNode a strong false l) := by
  obtain ⟨hlocals, hinternals⟩ := incNode_counts strong false ha l
  refine h.recount (fun b st => ?_) (fun b st => ?_) ?_ rfl (fun b => ?_) rfl rfl rfl
  · rw [hlocals, localsOf_snoc]
    simp only [mark_iff hcounts, and_true]
    split
    · omega
    · omega
  · simp [heldOf_snoc, hholds]
  · simp [fdsOf_snoc, hfd]
  · simp [hinternals]

/-- A node is not freed as long as there is a mark for it. -/
theorem Owes.present (strong : Bool) (h : Owes T s₀ (m :: rest) s) (hs : Counted s₀)
    (hcounts : m.counts = some (a, strong)) : (s.nodes.get a).isSome := by
  by_contra hnone
  have hzero : s.locals a strong = 0 := by
    rw [Bool.not_eq_true, Option.isSome_eq_false_iff, Option.isNone_iff_eq_none] at hnone
    unfold State.locals
    rw [hnone]
    rfl
  have hcount := h.locals a strong
  have hnonneg := hs.locals a strong
  rw [localsOf_cons, if_pos hcounts, hzero] at hcount
  omega

/-- It is one less for a mark that is taken back. -/
theorem Owes.uncount (strong : Bool) (h : Owes T s₀ (m :: rest) s) (hs : Counted s₀)
    (hcounts : m.counts = some (a, strong)) (hholds : m.holds = none) (hfd : m.fd? = none) :
    Owes T s₀ rest (s.decNode a strong false) ∧ Within (s.decNode a strong false) s := by
  have ha := h.present strong hs hcounts
  obtain ⟨hlocals, hinternals⟩ := setNode_add strong false (k := -1) ha
  have hless : Owes T s₀ rest (s.setNode a (·.add strong false (-1))
      (binder_node.add_keeps strong false (-1))) := by
    refine h.recount (fun b st => ?_) (fun b st => ?_) ?_ rfl (fun b => ?_) rfl rfl rfl
    · rw [hlocals, localsOf_cons]
      simp only [mark_iff hcounts, and_true]
      split
      · omega
      · omega
    · simp [heldOf_cons, hholds]
    · simp [fdsOf_cons, hfd]
    · simp [hinternals]
  obtain ⟨howes, hwithin⟩ := hless.settle (a := a) strong hs
  exact ⟨howes, hwithin.trans within_setNode.2⟩

/-! ## References -/

/-- The counts of a reference of the target are others, and so is the mark for it. -/
theorem Owes.reheld (strong : Bool) {marks' : List Mark} (h : Owes T s₀ marks s)
    (hother : ∀ p b st, ¬(p = T ∧ b = a ∧ st = strong) → t.held p b st = s.held p b st)
    (hlower : s₀.held T a strong ≤ t.held T a strong)
    (hupper : t.held T a strong ≤ s₀.held T a strong + heldOf marks' a strong)
    (hexact : 0 < s₀.held T a strong →
      t.held T a strong = s₀.held T a strong + heldOf marks' a strong)
    (hheld : ∀ b st, ¬(b = a ∧ st = strong) → heldOf marks' b st = heldOf marks b st)
    (hlocalsOf : ∀ b st, localsOf marks' b st = localsOf marks b st)
    (hfds : fdsOf T marks' = fdsOf T marks)
    (hinternals : ∀ b, t.internals b =
      s.internals b + any (t.held T b true) - any (s.held T b true))
    (hlocals : ∀ b st, t.locals b st = s.locals b st) (hprocs : t.procs = s.procs)
    (hinstalled : t.installed = s.installed) (hclosed : t.closed = s.closed) :
    Owes T s₀ marks' t := by
  refine ⟨fun p b st hp => ?_, fun b st => ?_, fun b st => ?_, fun b st hpos => ?_, fun b st => ?_,
    fun b => ?_, hprocs.trans h.procs, ?_⟩
  · rw [hother p b st fun hx => hp hx.1, h.others p b st hp]
  · by_cases hx : b = a ∧ st = strong
    · obtain ⟨rfl, rfl⟩ := hx
      exact hlower
    · rw [hother T b st fun hy => hx hy.2]
      exact h.lower b st
  · by_cases hx : b = a ∧ st = strong
    · obtain ⟨rfl, rfl⟩ := hx
      exact hupper
    · rw [hother T b st fun hy => hx hy.2, hheld b st hx]
      exact h.upper b st
  · by_cases hx : b = a ∧ st = strong
    · obtain ⟨rfl, rfl⟩ := hx
      exact hexact hpos
    · rw [hother T b st fun hy => hx hy.2, hheld b st hx]
      exact h.exact b st hpos
  · rw [hlocals, hlocalsOf]
    exact h.locals b st
  · rw [hinternals, h.internals]
    omega
  · rw [hfds, hinstalled, hclosed]
    exact h.fds

theorem held_eq {r : binder_ref} (hr : s.refs.get (T, a) = some r) (st : Bool) :
    s.held T a st = r.count st := by
  unfold held
  rw [hr]
  rfl

/-- The counts of the reference are set, and those of its node brought up to date. -/
theorem Owes.setRef {marks' : List Mark} {r : binder_ref} {f : binder_ref → Nat}
    (h : Owes T s₀ marks s) (hr : s.refs.get (T, a) = some r)
    (hlower : s₀.held T a strong ≤ f r)
    (hupper : f r ≤ s₀.held T a strong + heldOf marks' a strong)
    (hexact : 0 < s₀.held T a strong → f r = s₀.held T a strong + heldOf marks' a strong)
    (hheld : ∀ b st, ¬(b = a ∧ st = strong) → heldOf marks' b st = heldOf marks b st)
    (hlocalsOf : ∀ b st, localsOf marks' b st = localsOf marks b st)
    (hfds : fdsOf T marks' = fdsOf T marks)
    (hrefs : t.refs =
      (s.setRef (T, a) (fun r => r.set strong (f r)) (binder_ref.set_keeps strong f)).refs)
    (hinternals : ∀ b, t.internals b =
      s.internals b + if b = a ∧ strong = true then any (f r) - any (r.count strong) else 0)
    (hlocals : ∀ b st, t.locals b st = s.locals b st) (hprocs : t.procs = s.procs)
    (hinstalled : t.installed = s.installed) (hclosed : t.closed = s.closed) :
    Owes T s₀ marks' t := by
  have hset : ∀ p b st, t.held p b st =
      if p = T ∧ b = a ∧ st = strong then f r else s.held p b st := by
    intro p b st
    have hs := @held_setRef s a b p T st strong f
    rw [hr] at hs
    unfold held
    rw [hrefs]
    exact hs
  have hself : t.held T a strong = f r := (hset T a strong).trans (if_pos ⟨rfl, rfl, rfl⟩)
  refine h.reheld (a := a) strong (fun p b st hx => (hset p b st).trans (if_neg hx))
    (hself ▸ hlower) (hself ▸ hupper) (hself ▸ hexact) hheld hlocalsOf hfds (fun b => ?_) hlocals
    hprocs hinstalled hclosed
  rw [hinternals, hset]
  by_cases hb : b = a ∧ strong = true
  · obtain ⟨rfl, rfl⟩ := hb
    rw [held_eq hr]
    simp
    omega
  · rw [if_neg hb, if_neg]
    · omega
    · rintro ⟨-, rfl, rfl⟩
      exact hb ⟨rfl, rfl⟩

/-- `binder_inc_ref` counts the mark, or fails where there was no such count. -/
theorem Owes.lend (strong : Bool) {r : binder_ref} (h : Owes T s₀ marks s)
    (hr : s.refs.get (T, a) = some r)
    (desc : BitVec 32) (l : Option WorkList) :
    Owes T s₀ (marks ++ [.ref a desc strong]) (s.incRef (T, a) strong l) ∧
      Within s (s.incRef (T, a) strong l) := by
  have hholds : (Mark.ref a desc strong).holds = some (a, strong) := rfl
  have hcount := held_eq hr strong
  have hlower := hcount ▸ h.lower a strong
  have hupper := hcount ▸ h.upper a strong
  have hexact := hcount ▸ h.exact a strong
  have hmore : heldOf (marks ++ [.ref a desc strong]) a strong = heldOf marks a strong + 1 := by
    rw [heldOf_snoc, if_pos hholds]
  have hheld : ∀ b st, ¬(b = a ∧ st = strong) →
      heldOf (marks ++ [.ref a desc strong]) b st = heldOf marks b st := by
    intro b st hx
    rw [heldOf_snoc, if_neg fun hy => hx ((mark_iff hholds b st).mp hy), Nat.add_zero]
  have hlocalsOf : ∀ b st,
      localsOf (marks ++ [.ref a desc strong]) b st = localsOf marks b st := by
    intro b st
    simp [localsOf_snoc, Mark.counts]
  have hfds : fdsOf T (marks ++ [.ref a desc strong]) = fdsOf T marks := by
    simp [fdsOf_snoc, Mark.fd?]
  have hnode : r.node = a := congrArg Prod.snd (Table.key_of_get hr)
  have ha : (s.nodes.get r.node).isSome :=
    hnode ▸ s.linked T a (Option.isSome_iff_exists.mpr ⟨r, hr⟩)
  unfold incRef
  rw [hr]
  dsimp only
  split
  · next hne =>
    refine ⟨h.setRef (f := fun r => r.count strong + 1) hr ?_ ?_ ?_ hheld hlocalsOf hfds rfl
      (fun b => ?_) (fun _ _ => rfl) rfl rfl rfl, within_setRef.1⟩
    · omega
    · omega
    · intro hpos
      have := hexact hpos
      omega
    · have hany : any (r.count strong + 1) - any (r.count strong) = 0 := by
        simp [any, hne]
      rw [hany, ite_self, Int.add_zero]
      rfl
  · next hzero =>
    rw [ne_eq, not_not] at hzero
    have hzero₀ : ¬0 < s₀.held T a strong := by omega
    obtain ⟨hlocals, hinternals⟩ :=
      incNode_counts (s := s) strong true ha l
    have hlocals' : ∀ b st, (s.incNode r.node strong true l).locals b st = s.locals b st := by
      intro b st
      simp [hlocals]
    split
    · next hok =>
      refine ⟨h.setRef (f := fun r => r.count strong + 1) hr ?_ ?_ ?_ hheld hlocalsOf hfds rfl
        (fun b => ?_) hlocals' rfl rfl rfl, within_setNode.1.trans within_setRef.1⟩
      · omega
      · omega
      · exact fun hpos => absurd hpos hzero₀
      · have hany : any (r.count strong + 1) - any (r.count strong) = 1 := by
          simp [any, hzero]
        rw [hany]
        refine (hinternals b).trans ?_
        simp [hnode, hnode ▸ hok]
    · next hfail =>
      have hsame : ∀ b, (s.incNode r.node strong true l).internals b = s.internals b := by
        intro b
        rw [hinternals, if_neg fun hx => hfail hx.2.2.2, Int.add_zero]
      refine ⟨h.reheld (a := a) strong (fun _ _ _ _ => rfl) (h.lower a strong) ?_
        (fun hpos => absurd hpos hzero₀) hheld hlocalsOf hfds (fun b => ?_) hlocals' rfl rfl rfl,
        within_setNode.1⟩
      · show s.held T a strong ≤ _
        omega
      · rw [hsame]
        show s.internals b = s.internals b + any (s.held T b true) - any (s.held T b true)
        omega

/-- Where there is no such count, nothing is owed for the mark. -/
theorem Owes.forget {desc : BitVec 32} (h : Owes T s₀ (.ref a desc strong :: rest) s)
    (hzero : s.held T a strong = 0) : Owes T s₀ rest s := by
  have hholds : (Mark.ref a desc strong).holds = some (a, strong) := rfl
  have hlower := h.lower a strong
  refine h.reheld (a := a) strong (fun _ _ _ _ => rfl) hlower ?_ ?_ ?_ ?_ ?_
    (fun b => ?_) (fun _ _ => rfl) rfl rfl rfl
  · omega
  · intro hpos
    omega
  · intro b st hx
    rw [heldOf_cons, if_neg fun hy => hx ((mark_iff hholds b st).mp hy), Nat.add_zero]
  · intro b st
    simp [localsOf_cons, Mark.counts]
  · rw [fdsOf_cons]
    rfl
  · omega

/-- A reference without counts is deleted. -/
theorem Owes.deleteRef (h : Owes T s₀ marks s) (hs : Counted s₀) {r : binder_ref}
    (hr : s.refs.get (T, a) = some r) (hcount : ∀ st, r.count st = 0) :
    Owes T s₀ marks (s.deleteRef (T, a)) ∧ Within (s.deleteRef (T, a)) s := by
  have hnode : r.node = a := congrArg Prod.snd (Table.key_of_get hr)
  unfold State.deleteRef
  rw [hr]
  dsimp only
  rw [if_neg (fun hne => hne (hcount true)), hnode]
  obtain ⟨hsame, hwithin⟩ := eraseRef_same (s := s) (p := T) (a := a)
    (fun st => (held_eq hr st).trans (hcount st))
  have hset : Same (s.eraseRef (T, a)) ((s.eraseRef (T, a)).setNode a (·.add false true (-1))
      (binder_node.add_keeps false true (-1))) :=
    same_setNode (fun _ _ => rfl) fun _ => rfl
  obtain ⟨howes, hwithin'⟩ := (h.same (hsame.trans hset)).settle (a := a) false hs
  exact ⟨howes, hwithin'.trans (within_setNode.2.trans hwithin)⟩

section Unlend
variable {desc : BitVec 32} {r : binder_ref} (h : Owes T s₀ (.ref a desc strong :: rest) s)
  (hr : s.refs.get (T, a) = some r)
include h hr

/-- The count of the reference is one less, and that of its node where it was the last. -/
theorem Owes.less
    (hrefs : t.refs = (s.setRef (T, a) (fun r => r.set strong (r.count strong - 1))
      (binder_ref.set_keeps strong _)).refs)
    (hinternals : ∀ b, t.internals b = s.internals b +
      if b = a ∧ strong = true then any (r.count strong - 1) - any (r.count strong) else 0)
    (hlocals : ∀ b st, t.locals b st = s.locals b st) (hprocs : t.procs = s.procs)
    (hinstalled : t.installed = s.installed) (hclosed : t.closed = s.closed) :
    Owes T s₀ rest t := by
  have hholds : (Mark.ref a desc strong).holds = some (a, strong) := rfl
  have hcount := held_eq hr strong
  have hlower := hcount ▸ h.lower a strong
  have hupper := hcount ▸ h.upper a strong
  have hexact := hcount ▸ h.exact a strong
  rw [heldOf_cons, if_pos hholds] at hupper hexact
  refine h.setRef (f := fun r => r.count strong - 1) hr ?_ ?_ ?_ (fun b st hx => ?_)
    (fun b st => ?_) ?_ hrefs hinternals hlocals hprocs hinstalled hclosed
  · by_cases hpos : 0 < s₀.held T a strong
    · have := hexact hpos
      omega
    · omega
  · omega
  · intro hpos
    have := hexact hpos
    omega
  · rw [heldOf_cons, if_neg fun hy => hx ((mark_iff hholds b st).mp hy), Nat.add_zero]
  · simp [localsOf_cons, Mark.counts]
  · rw [fdsOf_cons]
    rfl

/-- `binder_dec_ref` takes the mark back. -/
theorem Owes.unlend (hs : Counted s₀) :
    Owes T s₀ rest (s.decRef (T, a) strong) ∧ Within (s.decRef (T, a) strong) s := by
  have hnode : r.node = a := congrArg Prod.snd (Table.key_of_get hr)
  have ha : (s.nodes.get a).isSome := s.linked T a (Option.isSome_iff_exists.mpr ⟨r, hr⟩)
  unfold decRef
  rw [hr]
  dsimp only
  split
  · next hzero => exact ⟨h.forget ((held_eq hr strong).trans hzero), Within.refl s⟩
  · next hne =>
    rw [hnode]
    -- the node is brought up to date
    suffices hback : ∀ t, t = (if strong = true ∧
          (r.set strong (r.count strong - 1)).strong = 0 then
        (s.setRef (T, a) (fun r => r.set strong (r.count strong - 1))
          (binder_ref.set_keeps strong _)).decNode a true true
        else s.setRef (T, a) (fun r => r.set strong (r.count strong - 1))
          (binder_ref.set_keeps strong _)) →
        Owes T s₀ rest t ∧ Within t s ∧
          t.refs.get (T, a) = some (r.set strong (r.count strong - 1)) by
      obtain ⟨howes, hwithin, hget⟩ := hback _ rfl
      split
      · next hzero =>
        obtain ⟨howes', hwithin'⟩ := howes.deleteRef hs hget fun st => by
          cases st
          · exact hzero.2
          · exact hzero.1
        exact ⟨howes', hwithin'.trans hwithin⟩
      · exact ⟨howes, hwithin⟩
    rintro t rfl
    have hset : (s.setRef (T, a) (fun r => r.set strong (r.count strong - 1))
        (binder_ref.set_keeps strong _)).refs.get (T, a) =
          some (r.set strong (r.count strong - 1)) := by
      unfold State.setRef
      rw [Table.get_modify, if_pos rfl, hr]
      rfl
    split
    · next hlast =>
      obtain ⟨rfl, hless⟩ := hlast
      have hone : r.count true = 1 := by
        have hminus : r.count true - 1 = 0 := hless
        omega
      obtain ⟨hlocals, hinternals⟩ :=
        setNode_add (s := s.setRef (T, a) (fun r => r.set true (r.count true - 1))
          (binder_ref.set_keeps true _)) true true (k := -1) ha
      have hless' : Owes T s₀ rest ((s.setRef (T, a) (fun r => r.set true (r.count true - 1))
          (binder_ref.set_keeps true _)).setNode a (·.add true true (-1))
          (binder_node.add_keeps true true (-1))) := by
        refine h.less hr rfl (fun b => ?_) (fun b st => ?_) rfl rfl rfl
        · refine (hinternals b).trans ?_
          rw [hone]
          simp [any]
          rfl
        · refine (hlocals b st).trans ?_
          simp
          rfl
      obtain ⟨howes, hwithin⟩ := hless'.settle (a := a) true hs
      refine ⟨howes, hwithin.trans (within_setNode.2.trans within_setRef.2), ?_⟩
      rw [refs_decNode]
      exact hset
    · next hmore =>
      refine ⟨h.less hr rfl (fun b => ?_) (fun _ _ => rfl) rfl rfl rfl, within_setRef.2, hset⟩
      have hsame : (if b = a ∧ strong = true then any (r.count strong - 1) - any (r.count strong)
          else 0) = 0 := by
        split
        · next hx =>
          obtain ⟨rfl, rfl⟩ := hx
          have hminus : r.count true - 1 ≠ 0 := fun hz => hmore ⟨rfl, hz⟩
          simp [any, hne, hminus]
        · rfl
      rw [hsame, Int.add_zero]
      rfl

end Unlend

end Owes

end Cdroid.Driver.References
