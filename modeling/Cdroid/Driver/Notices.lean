import Cdroid.Driver.Deaths
import Mathlib.Data.List.Nodup

/-! What a process is told about the nodes it holds references to. Every notification is
followed through its lists, from the command that registers it on. -/

namespace Cdroid.Driver.Deaths
open Cdroid.Lib Cdroid.Lib.Runs
open WorkType Return

namespace State

variable {s s' : State} {d : Nat}

/-! ## One notification -/

/-- The list that a notification is on. -/
def entry (s : State) (d : Nat) : Option WorkList := s.lists.on (.death d)

/-- A notification of this type is on a list that the threads of the process read. -/
def Waits (s : State) (d proc : Nat) (type : WorkType) : Prop :=
  ∃ k, s.entry d = some k ∧ k.IsTodo proc ∧ (s.deaths d).type = some type

/-- What may be read about one notification, in this order. -/
def Told (proc : Nat) (told : List (Nat × Return)) : Prop :=
  told = [] ∨ told = [(proc, BR_DEAD_BINDER)] ∨
    told = [(proc, BR_CLEAR_DEATH_NOTIFICATION_DONE)] ∨
    told = [(proc, BR_DEAD_BINDER), (proc, BR_CLEAR_DEATH_NOTIFICATION_DONE)]

/-- The owner is dead, and the process has been told so or will be when it reads. -/
def Due (s : State) (d proc : Nat) : Prop :=
  ((s.deaths d).told = [] ∧ s.Waits d proc BINDER_WORK_DEAD_BINDER) ∨
    ((s.deaths d).told = [(proc, BR_DEAD_BINDER)] ∧
      (s.entry d = none ∨ (s.entry d = some (.delivered_death proc) ∧
        (s.deaths d).type = some BINDER_WORK_DEAD_BINDER)))

/-- The clear has been answered; or the answer waits to be read; or it waits for the process
to read of the death, or to say that it is done with it. -/
def Answering (s : State) (d proc : Nat) : Prop :=
  (s.entry d = none ∧
    ((s.deaths d).told = [(proc, BR_CLEAR_DEATH_NOTIFICATION_DONE)] ∨
      (s.deaths d).told =
        [(proc, BR_DEAD_BINDER), (proc, BR_CLEAR_DEATH_NOTIFICATION_DONE)])) ∨
  (s.Waits d proc BINDER_WORK_CLEAR_DEATH_NOTIFICATION ∧
    ((s.deaths d).told = [] ∨ (s.deaths d).told = [(proc, BR_DEAD_BINDER)])) ∨
  (s.Waits d proc BINDER_WORK_DEAD_BINDER_AND_CLEAR ∧ (s.deaths d).told = []) ∨
  (s.entry d = some (.delivered_death proc) ∧
    (s.deaths d).type = some BINDER_WORK_DEAD_BINDER_AND_CLEAR ∧
    (s.deaths d).told = [(proc, BR_DEAD_BINDER)])

/-- What holds of each notification: of one that is not made yet, of one that a reference
has, of one whose clear was accepted, and of one whose reference was deleted. -/
structure Kept (s : State) (d : Nat) : Prop where
  place : ∀ k, s.entry d = some k →
    k.IsTodo (s.deaths d).proc ∨ k = .delivered_death (s.deaths d).proc
  told : Told (s.deaths d).proc (s.deaths d).told
  fresh : s.lastDeath ≤ d → s.entry d = none ∧ (s.deaths d).told = [] ∧
    (s.deaths d).cleared = false ∧ ∀ r ∈ s.refs, r.death ≠ some d
  registered : ∀ r ∈ s.refs, r.death = some d →
    (s.deaths d).proc = r.proc ∧ (s.deaths d).cleared = false ∧
    (s.node_proc r.node ≠ none → s.entry d = none ∧ (s.deaths d).told = []) ∧
    (s.node_proc r.node = none → s.released r.proc = false → s.Due d r.proc)
  cleared : (s.deaths d).cleared = true → s.released (s.deaths d).proc = false →
    s.Answering d (s.deaths d).proc
  gone : (s.deaths d).cleared = false → (∀ r ∈ s.refs, r.death ≠ some d) → s.entry d = none

/-- `Kept` is about the notification, the reference that has it and the node of that. -/
theorem Kept.congr (h : s.Kept d) (hdeath : s'.deaths d = s.deaths d)
    (hentry : s'.entry d = s.entry d) (hlast : s.lastDeath ≤ s'.lastDeath)
    (hrefs : ∀ r, r.death = some d → (r ∈ s'.refs ↔ r ∈ s.refs))
    (hnode : ∀ r ∈ s.refs, r.death = some d → s'.node_proc r.node = s.node_proc r.node)
    (hrel : ∀ p, s.released p = true → s'.released p = true) : s'.Kept d := by
  have hfalse : ∀ p, s'.released p = false → s.released p = false := by
    intro p hp
    cases hs : s.released p with
    | false => rfl
    | true => rw [hrel p hs] at hp; cases hp
  have hnone : (∀ r ∈ s'.refs, r.death ≠ some d) ↔ ∀ r ∈ s.refs, r.death ≠ some d :=
    ⟨fun h r hr hd => h r ((hrefs r hd).mpr hr) hd, fun h r hr hd => h r ((hrefs r hd).mp hr) hd⟩
  constructor
  case place => rw [hentry, hdeath]; exact h.place
  case told => rw [hdeath]; exact h.told
  case fresh => rw [hentry, hdeath, hnone]; exact fun hle => h.fresh (Nat.le_trans hlast hle)
  case registered =>
    intro r hr hd
    have hr := (hrefs r hd).mp hr
    obtain ⟨hproc, hclear, halive, hdead⟩ := h.registered r hr hd
    rw [hentry, hdeath, hnode r hr hd]
    refine ⟨hproc, hclear, halive, fun hnull hreleased => ?_⟩
    have hdue := hdead hnull (hfalse _ hreleased)
    simpa only [Due, Waits, hentry, hdeath] using hdue
  case cleared =>
    intro hclear hreleased
    rw [hdeath] at hclear hreleased
    simpa only [Answering, Waits, hentry, hdeath] using h.cleared hclear (hfalse _ hreleased)
  case gone =>
    rw [hentry, hdeath, hnone]
    exact h.gone

/-! ## All of them -/

/-- The references and the nodes, apart from the notifications. -/
structure Wf (s : State) : Prop where
  refs : s.refs.Nodup
  keys : ∀ a ∈ s.refs, ∀ b ∈ s.refs, a.proc = b.proc → a.node = b.node → a = b
  apart : ∀ a ∈ s.refs, ∀ b ∈ s.refs, ∀ d, a.death = some d → b.death = some d → a = b
  known : ∀ r ∈ s.refs, r.node < s.lastNode
  nodes : ∀ n p, s.node_proc n = some p ↔ n ∈ s.nodes p
  nodup : ∀ p, (s.nodes p).Nodup
  nodeNew : ∀ n p, s.node_proc n = some p → n < s.lastNode

/-- What holds between the commands, and inside a release. -/
structure Inv (s : State) : Prop extends Wf s where
  kept : ∀ d, s.Kept d

theorem initial_inv : initial.Inv where
  refs := List.nodup_nil
  keys _ h := absurd h List.not_mem_nil
  apart _ h := absurd h List.not_mem_nil
  known _ h := absurd h List.not_mem_nil
  nodes n p := by simp [initial]
  nodup _ := List.nodup_nil
  nodeNew n p h := by simp [initial] at h
  kept d := by
    constructor
    case place => intro k h; simp [entry, initial, WorkLists.empty] at h
    case told => exact Or.inl rfl
    case fresh => intro _; simp [entry, initial, WorkLists.empty]
    case registered => intro r h; simp [initial] at h
    case cleared => intro h; simp [initial] at h
    case gone => intro _ _; rfl

/-- A step that changes no reference and no node leaves them well-formed. -/
theorem Wf.frame (h : s.Wf) (hrefs : s'.refs = s.refs) (hnode_proc : s'.node_proc = s.node_proc)
    (hnodes : s'.nodes = s.nodes) (hlastNode : s'.lastNode = s.lastNode) : s'.Wf where
  refs := hrefs ▸ h.refs
  keys := hrefs ▸ h.keys
  apart := hrefs ▸ h.apart
  known := by rw [hrefs, hlastNode]; exact h.known
  nodes := by rw [hnode_proc, hnodes]; exact h.nodes
  nodup := hnodes ▸ h.nodup
  nodeNew := by rw [hnode_proc, hlastNode]; exact h.nodeNew

/-- A step that changes no notification. -/
theorem Inv.frame (h : s.Inv) (hwf : s'.Wf) (hdeaths : s'.deaths = s.deaths)
    (hentry : ∀ d, s'.entry d = s.entry d) (hlast : s'.lastDeath = s.lastDeath)
    (hrefs : ∀ r d, r.death = some d → (r ∈ s'.refs ↔ r ∈ s.refs))
    (hnode : ∀ r ∈ s.refs, s'.node_proc r.node = s.node_proc r.node)
    (hreleased : ∀ p, s.released p = true → s'.released p = true) : s'.Inv where
  toWf := hwf
  kept d := (h.kept d).congr (congrFun hdeaths d) (hentry d) (Nat.le_of_eq hlast.symm)
    (fun r => hrefs r d) (fun r hr _ => hnode r hr) hreleased

/-- A step that changes the notification `d`. -/
theorem Inv.one (h : s.Inv) (hwf : s'.Wf) (d : Nat)
    (hsame : ∀ x, x ≠ d → s'.deaths x = s.deaths x ∧ s'.entry x = s.entry x)
    (hlast : s.lastDeath ≤ s'.lastDeath)
    (hrefs : ∀ r x, x ≠ d → r.death = some x → (r ∈ s'.refs ↔ r ∈ s.refs))
    (hnode_proc : s'.node_proc = s.node_proc) (hreleased : s'.released = s.released)
    (hd : s'.Kept d) : s'.Inv where
  toWf := hwf
  kept x := by
    by_cases hx : x = d
    · rw [hx]
      exact hd
    · exact (h.kept x).congr (hsame x hx).1 (hsame x hx).2 hlast (fun r => hrefs r x hx)
        (fun r _ _ => by rw [hnode_proc]) (fun p => by rw [hreleased]; exact id)

/-! ## Parts of the steps -/

@[simp] theorem entry_setDeath (x : Nat) (f : binder_ref_death → binder_ref_death) :
    (s.setDeath d f).entry x = s.entry x := rfl

@[simp] theorem entry_queue (x : Nat) (type : WorkType) (target : WorkList) :
    (s.queue d type target).entry x = if x = d then some target else s.entry x := by
  simp [entry, queue]

@[simp] theorem deaths_queue (x : Nat) (type : WorkType) (target : WorkList) :
    (s.queue d type target).deaths x =
      if x = d then { s.deaths x with type := some type } else s.deaths x := rfl

theorem answers_isTodo (proc thread : Nat) : (s.answers proc thread).IsTodo proc := by
  unfold answers
  split <;> rfl

theorem ref?_some {proc node : Nat} {ref : binder_ref} (h : s.ref? proc node = some ref) :
    ref ∈ s.refs ∧ ref.proc = proc ∧ ref.node = node := by
  have hkey := List.find?_some h
  simp only [decide_eq_true_eq] at hkey
  exact ⟨List.mem_of_find?_eq_some h, hkey⟩

/-- The references after one of them has got or lost its notification. -/
theorem Wf.mem_setRefDeath (h : s.Wf) {proc node : Nat} {ref : binder_ref}
    (href : s.ref? proc node = some ref) {death : Option Nat} {r : binder_ref} :
    r ∈ (s.setRefDeath proc node death).refs ↔
      r = { ref with death } ∨ (r ∈ s.refs ∧ r ≠ ref) := by
  obtain ⟨hmem, hproc, hnode⟩ := ref?_some href
  have hkey : ∀ a ∈ s.refs, (a.proc = proc ∧ a.node = node) ↔ a = ref := fun a ha =>
    ⟨fun hk => h.keys a ha ref hmem (hk.1.trans hproc.symm) (hk.2.trans hnode.symm),
      fun heq => heq ▸ ⟨hproc, hnode⟩⟩
  simp only [setRefDeath, List.mem_map]
  constructor
  · rintro ⟨a, ha, rfl⟩
    by_cases hk : a = ref
    · rw [if_pos ((hkey a ha).mpr hk), hk]
      exact Or.inl rfl
    · rw [if_neg (mt (hkey a ha).mp hk)]
      exact Or.inr ⟨ha, hk⟩
  · rintro (rfl | ⟨hr, hne⟩)
    · exact ⟨ref, hmem, if_pos ⟨hproc, hnode⟩⟩
    · exact ⟨r, hr, if_neg (mt (hkey r hr).mp hne)⟩

/-- A notification that a reference gets is one that no other has. -/
theorem Wf.setRefDeath (h : s.Wf) {proc node : Nat} {ref : binder_ref}
    (href : s.ref? proc node = some ref) {death : Option Nat}
    (hdeath : ∀ d, death = some d → ∀ r ∈ s.refs, r.death ≠ some d) :
    (s.setRefDeath proc node death).Wf := by
  obtain ⟨hmem, hproc, hnode⟩ := ref?_some href
  constructor
  case refs =>
    refine List.Nodup.map_on (fun a ha b hb heq => h.keys a ha b hb ?_ ?_) h.refs
    · have := congrArg binder_ref.proc heq
      revert this
      split <;> split <;> exact id
    · have := congrArg binder_ref.node heq
      revert this
      split <;> split <;> exact id
  case keys =>
    intro a ha b hb hp hn
    rcases (h.mem_setRefDeath href).mp ha with rfl | ⟨ha, hane⟩
    · rcases (h.mem_setRefDeath href).mp hb with rfl | ⟨hb, hbne⟩
      · rfl
      · exact absurd (h.keys ref hmem b hb hp hn).symm hbne
    · rcases (h.mem_setRefDeath href).mp hb with rfl | ⟨hb, hbne⟩
      · exact absurd (h.keys a ha ref hmem hp hn) hane
      · exact h.keys a ha b hb hp hn
  case apart =>
    intro a ha b hb d had hbd
    rcases (h.mem_setRefDeath href).mp ha with rfl | ⟨ha, hane⟩
    · rcases (h.mem_setRefDeath href).mp hb with rfl | ⟨hb, hbne⟩
      · rfl
      · exact absurd hbd (hdeath d had b hb)
    · rcases (h.mem_setRefDeath href).mp hb with rfl | ⟨hb, hbne⟩
      · exact absurd had (hdeath d hbd a ha)
      · exact h.apart a ha b hb d had hbd
  case known =>
    intro r hr
    rcases (h.mem_setRefDeath href).mp hr with rfl | ⟨hr, -⟩
    · exact h.known ref hmem
    · exact h.known r hr
  case nodes => exact h.nodes
  case nodup => exact h.nodup
  case nodeNew => exact h.nodeNew

theorem Due.place {proc : Nat} (h : s.Due d proc) {k : WorkList} (hk : s.entry d = some k) :
    k.IsTodo proc ∨ k = .delivered_death proc := by
  rcases h with ⟨-, k', hk', htodo, -⟩ | ⟨-, hnone | ⟨hdel, -⟩⟩
  · exact Or.inl (Option.some.inj (hk'.symm.trans hk) ▸ htodo)
  · exact absurd (hnone.symm.trans hk) nofun
  · exact Or.inr (Option.some.inj (hk.symm.trans hdel))

theorem Due.told {proc : Nat} (h : s.Due d proc) : Told proc (s.deaths d).told := by
  rcases h with ⟨htold, -⟩ | ⟨htold, -⟩
  · exact Or.inl htold
  · exact Or.inr (Or.inl htold)

theorem Answering.place {proc : Nat} (h : s.Answering d proc) {k : WorkList}
    (hk : s.entry d = some k) : k.IsTodo proc ∨ k = .delivered_death proc := by
  rcases h with ⟨hnone, -⟩ | ⟨⟨k', hk', htodo, -⟩, -⟩ | ⟨⟨k', hk', htodo, -⟩, -⟩ | ⟨hdel, -⟩
  · exact absurd (hnone.symm.trans hk) nofun
  · exact Or.inl (Option.some.inj (hk'.symm.trans hk) ▸ htodo)
  · exact Or.inl (Option.some.inj (hk'.symm.trans hk) ▸ htodo)
  · exact Or.inr (Option.some.inj (hk.symm.trans hdel))

theorem Answering.told {proc : Nat} (h : s.Answering d proc) :
    Told proc (s.deaths d).told := by
  rcases h with ⟨-, htold | htold⟩ | ⟨-, htold | htold⟩ | ⟨-, htold⟩ | ⟨-, -, htold⟩
  · exact Or.inr (Or.inr (Or.inl htold))
  · exact Or.inr (Or.inr (Or.inr htold))
  · exact Or.inl htold
  · exact Or.inr (Or.inl htold)
  · exact Or.inl htold
  · exact Or.inr (Or.inl htold)

/-- A notification that a reference has. -/
theorem Kept.of_registered (hwf : s.Wf) {r : binder_ref} (hr : r ∈ s.refs)
    (hd : r.death = some d) (hlast : d < s.lastDeath) (hproc : (s.deaths d).proc = r.proc)
    (hcleared : (s.deaths d).cleared = false)
    (halive : s.node_proc r.node ≠ none → s.entry d = none ∧ (s.deaths d).told = [])
    (hdue : s.node_proc r.node = none → s.Due d r.proc) : s.Kept d := by
  have honly : ∀ q ∈ s.refs, q.death = some d → q = r := fun q hq hqd =>
    hwf.apart q hq r hr d hqd hd
  have hcase : (s.entry d = none ∧ (s.deaths d).told = []) ∨ s.Due d r.proc := by
    by_cases hnode : s.node_proc r.node = none
    · exact Or.inr (hdue hnode)
    · exact Or.inl (halive hnode)
  constructor
  case place =>
    intro k hk
    rcases hcase with ⟨hnone, -⟩ | hdue
    · exact absurd (hnone.symm.trans hk) nofun
    · exact hproc ▸ hdue.place hk
  case told =>
    rcases hcase with ⟨-, htold⟩ | hdue
    · exact Or.inl htold
    · exact hproc ▸ hdue.told
  case fresh => exact fun hle => absurd hle (Nat.not_le.mpr hlast)
  case registered =>
    intro q hq hqd
    rw [honly q hq hqd]
    exact ⟨hproc, hcleared, halive, fun hnode _ => hdue hnode⟩
  case cleared => exact fun htrue => absurd (hcleared.symm.trans htrue) nofun
  case gone => exact fun _ hnone => absurd hd (hnone r hr)

/-- A notification that is cleared. -/
theorem Kept.of_cleared (hnone : ∀ r ∈ s.refs, r.death ≠ some d) (hlast : d < s.lastDeath)
    (hcleared : (s.deaths d).cleared = true) (hanswer : s.Answering d (s.deaths d).proc) :
    s.Kept d where
  place _ hk := hanswer.place hk
  told := hanswer.told
  fresh hle := absurd hle (Nat.not_le.mpr hlast)
  registered r hr hd := absurd hd (hnone r hr)
  cleared _ _ := hanswer
  gone hfalse := absurd (hcleared.symm.trans hfalse) nofun

theorem Kept.lt_last (h : s.Kept d) {k : WorkList} (hk : s.entry d = some k) :
    d < s.lastDeath := by
  by_contra hge
  exact absurd ((h.fresh (Nat.not_lt.mp hge)).1.symm.trans hk) nofun

/-- What is on a list is cleared, or a reference has it. -/
theorem Kept.cases_on_list (h : s.Kept d) {k : WorkList} (hk : s.entry d = some k) :
    (s.deaths d).cleared = true ∨ ∃ r ∈ s.refs, r.death = some d := by
  by_cases hcleared : (s.deaths d).cleared = true
  · exact Or.inl hcleared
  · refine Or.inr ?_
    by_contra hnone
    have hgone := h.gone (Bool.eq_false_iff.mpr hcleared) fun r hr hd => hnone ⟨r, hr, hd⟩
    exact absurd (hgone.symm.trans hk) nofun

/-- What the type of a notification that waits to be read says. -/
theorem Kept.waits (h : s.Kept d) {proc : Nat} (hreleased : s.released proc = false)
    {k : WorkList} (hk : s.entry d = some k) (htodo : k.IsTodo proc) :
    (s.deaths d).proc = proc ∧
    (((∃ r ∈ s.refs, r.death = some d) ∧ (s.deaths d).type = some BINDER_WORK_DEAD_BINDER ∧
        (s.deaths d).told = []) ∨
      ((s.deaths d).cleared = true ∧
        (((s.deaths d).type = some BINDER_WORK_CLEAR_DEATH_NOTIFICATION ∧
            ((s.deaths d).told = [] ∨ (s.deaths d).told = [(proc, BR_DEAD_BINDER)])) ∨
          ((s.deaths d).type = some BINDER_WORK_DEAD_BINDER_AND_CLEAR ∧
            (s.deaths d).told = [])))) := by
  have hproc : (s.deaths d).proc = proc := by
    rcases h.place k hk with hin | hdel
    · cases k with
      | todo p => exact hin.symm.trans htodo
      | threadTodo p t => exact hin.symm.trans htodo
      | delivered_death p => exact htodo.elim
      | async_todo n => exact htodo.elim
    · rw [hdel] at htodo
      exact htodo.elim
  refine ⟨hproc, ?_⟩
  have hnotDel : k ≠ .delivered_death proc := by
    rintro rfl
    exact htodo
  rcases h.cases_on_list hk with hcleared | ⟨r, hr, hd⟩
  · have hanswer := h.cleared hcleared (hproc ▸ hreleased)
    rw [hproc] at hanswer
    rcases hanswer with ⟨hnone, -⟩ | ⟨⟨-, -, -, htype⟩, htold⟩ | ⟨⟨-, -, -, htype⟩, htold⟩ |
      ⟨hdel, -⟩
    · exact absurd (hnone.symm.trans hk) nofun
    · exact Or.inr ⟨hcleared, Or.inl ⟨htype, htold⟩⟩
    · exact Or.inr ⟨hcleared, Or.inr ⟨htype, htold⟩⟩
    · exact absurd (Option.some.inj (hk.symm.trans hdel)) hnotDel
  · obtain ⟨hp, -, halive, hdue⟩ := h.registered r hr hd
    have hp' : r.proc = proc := hp.symm.trans hproc
    by_cases hnode : s.node_proc r.node = none
    · rcases hdue hnode (hp' ▸ hreleased) with ⟨htold, -, -, -, htype⟩ | ⟨-, hnone | ⟨hdel, -⟩⟩
      · exact Or.inl ⟨⟨r, hr, hd⟩, htype, htold⟩
      · exact absurd (hnone.symm.trans hk) nofun
      · rw [hp'] at hdel
        exact absurd (Option.some.inj (hk.symm.trans hdel)) hnotDel
    · exact absurd ((halive hnode).1.symm.trans hk) nofun

/-- What the type of a notification that has been read says. -/
theorem Kept.delivered (h : s.Kept d) {proc : Nat} (hreleased : s.released proc = false)
    (hk : s.entry d = some (.delivered_death proc)) :
    (s.deaths d).proc = proc ∧ (s.deaths d).told = [(proc, BR_DEAD_BINDER)] ∧
    (((∃ r ∈ s.refs, r.death = some d) ∧ (s.deaths d).type = some BINDER_WORK_DEAD_BINDER) ∨
      ((s.deaths d).cleared = true ∧
        (s.deaths d).type = some BINDER_WORK_DEAD_BINDER_AND_CLEAR)) := by
  have hproc : (s.deaths d).proc = proc := by
    rcases h.place _ hk with hin | hdel
    · exact hin.elim
    · exact (WorkList.delivered_death.inj hdel).symm
  have hnotTodo : ∀ k, s.entry d = some k → ¬ k.IsTodo proc := by
    intro k hk' htodo
    rw [← Option.some.inj (hk.symm.trans hk')] at htodo
    exact htodo
  rcases h.cases_on_list hk with hcleared | ⟨r, hr, hd⟩
  · have hanswer := h.cleared hcleared (hproc ▸ hreleased)
    rw [hproc] at hanswer
    rcases hanswer with ⟨hnone, -⟩ | ⟨⟨k, hk', htodo, -⟩, -⟩ | ⟨⟨k, hk', htodo, -⟩, -⟩ |
      ⟨-, htype, htold⟩
    · exact absurd (hnone.symm.trans hk) nofun
    · exact absurd htodo (hnotTodo k hk')
    · exact absurd htodo (hnotTodo k hk')
    · exact ⟨hproc, htold, Or.inr ⟨hcleared, htype⟩⟩
  · obtain ⟨hp, -, halive, hdue⟩ := h.registered r hr hd
    have hp' : r.proc = proc := hp.symm.trans hproc
    by_cases hnode : s.node_proc r.node = none
    · rw [hp'] at hdue
      rcases hdue hnode hreleased with ⟨-, k, hk', htodo, -⟩ | ⟨htold, hnone | ⟨-, htype⟩⟩
      · exact absurd htodo (hnotTodo k hk')
      · exact absurd (hnone.symm.trans hk) nofun
      · exact ⟨hproc, htold, Or.inl ⟨⟨r, hr, hd⟩, htype⟩⟩
    · exact absurd ((halive hnode).1.symm.trans hk) nofun

/-! ## Commands -/

theorem request_inv (h : s.Inv) (proc thread node cookie : Nat) :
    (s.request proc thread node cookie).Inv := by
  unfold request
  cases href : s.ref? proc node with
  | none => exact h
  | some ref =>
    dsimp only
    by_cases hset : ref.death ≠ none
    · rw [if_pos hset]
      exact h
    rw [if_neg hset]
    have hnew : ∀ r ∈ s.refs, r.death ≠ some s.lastDeath :=
      ((h.kept s.lastDeath).fresh (Nat.le_refl _)).2.2.2
    have hentry := ((h.kept s.lastDeath).fresh (Nat.le_refl _)).1
    have hwf : (s.setRefDeath proc node (some s.lastDeath)).Wf :=
      h.setRefDeath href fun d hd r hr => Option.some.inj hd ▸ hnew r hr
    obtain ⟨hmem, hproc, hnode⟩ := ref?_some href
    have hother : ∀ r x, x ≠ s.lastDeath → r.death = some x →
        (r ∈ (s.setRefDeath proc node (some s.lastDeath)).refs ↔ r ∈ s.refs) := by
      intro r x hx hr
      rw [h.mem_setRefDeath href]
      constructor
      · rintro (rfl | ⟨hr, -⟩)
        · exact absurd (Option.some.inj hr).symm hx
        · exact hr
      · intro hmem
        refine Or.inr ⟨hmem, ?_⟩
        rintro rfl
        exact hset (hr ▸ Option.some_ne_none x)
    have honly : ∀ r ∈ (s.setRefDeath proc node (some s.lastDeath)).refs,
        r.death = some s.lastDeath → r.proc = proc ∧ r.node = node := by
      intro r hr hd
      rcases (h.mem_setRefDeath href).mp hr with rfl | ⟨hr, -⟩
      · exact ⟨hproc, hnode⟩
      · exact absurd hd (hnew r hr)
    have hhas : { ref with death := some s.lastDeath } ∈
        (s.setRefDeath proc node (some s.lastDeath)).refs :=
      (h.mem_setRefDeath href).mpr (Or.inl rfl)
    have hlt : s.lastDeath < (s.register proc node cookie).lastDeath := Nat.lt_succ_self _
    by_cases hdead : s.node_proc node = none
    · rw [if_pos hdead]
      have hwf : ((s.register proc node cookie).queue s.lastDeath
          BINDER_WORK_DEAD_BINDER (s.answers proc thread)).Wf := hwf.frame rfl rfl rfl rfl
      refine h.one hwf s.lastDeath (fun x hx => ?_) (Nat.le_succ _) hother rfl rfl ?_
      · exact ⟨by simp [hx, register, setDeath, setRefDeath], by simp [hx]; rfl⟩
      · refine .of_registered hwf hhas rfl hlt ?_ ?_ (fun halive => ?_) fun _ => Or.inl ⟨?_, ?_⟩
        · simp [register, setDeath, setRefDeath, hproc]
        · simp [register, setDeath, setRefDeath]
        · exact absurd (hnode ▸ hdead) halive
        · simp [register, setDeath, setRefDeath]
        · refine ⟨_, by rw [entry_queue, if_pos rfl], ?_, by simp⟩
          rw [hproc]
          exact answers_isTodo _ _
    · rw [if_neg hdead]
      have hwf : (s.register proc node cookie).Wf := hwf.frame rfl rfl rfl rfl
      refine h.one hwf s.lastDeath (fun x hx => ?_) (Nat.le_succ _) hother rfl rfl ?_
      · exact ⟨by simp [hx, register, setDeath, setRefDeath], rfl⟩
      · refine .of_registered hwf hhas rfl hlt ?_ ?_ (fun _ => ⟨hentry, ?_⟩) fun hnull => ?_
        · simp [register, setDeath, setRefDeath, hproc]
        · simp [register, setDeath, setRefDeath]
        · simp [register, setDeath, setRefDeath]
        · exact absurd (hnode ▸ hnull) hdead

/-- No assertion of the command fails. -/
theorem clear_inv (h : s.Inv) {proc : Nat} (hreleased : s.released proc = false)
    (thread node cookie : Nat) :
    ∃ t, s.clear proc thread node cookie = some t ∧ t.Inv ∧ t.node_proc = s.node_proc ∧
      t.released = s.released := by
  unfold clear
  cases href : s.ref? proc node with
  | none => exact ⟨s, rfl, h, rfl, rfl⟩
  | some ref =>
    rw [Option.bind_some]
    obtain ⟨hmem, hproc, hnode⟩ := ref?_some href
    cases hset : ref.death with
    | none => exact ⟨s, rfl, h, rfl, rfl⟩
    | some d =>
      dsimp only
      by_cases hcookie : (s.deaths d).cookie ≠ cookie
      · rw [if_pos hcookie]
        exact ⟨s, rfl, h, rfl, rfl⟩
      rw [if_neg hcookie]
      have hd := h.kept d
      obtain ⟨hp, -, halive, hdue⟩ := hd.registered ref hmem hset
      rw [hproc] at hp hdue
      have hlast : d < s.lastDeath := by
        by_contra hge
        exact (hd.fresh (Nat.not_lt.mp hge)).2.2.2 ref hmem hset
      have hwf : (s.setRefDeath proc node none).Wf := h.setRefDeath href nofun
      have hnone : ∀ r ∈ (s.setRefDeath proc node none).refs, r.death ≠ some d := by
        intro r hr hrd
        rcases (h.mem_setRefDeath href).mp hr with rfl | ⟨hr, hne⟩
        · exact absurd hrd nofun
        · exact hne (h.apart r hr ref hmem d hrd hset)
      have hother : ∀ r x, x ≠ d → r.death = some x →
          (r ∈ (s.setRefDeath proc node none).refs ↔ r ∈ s.refs) := by
        intro r x hx hr
        rw [h.mem_setRefDeath href]
        constructor
        · rintro (rfl | ⟨hr, -⟩)
          · exact absurd hr nofun
          · exact hr
        · intro hrmem
          refine Or.inr ⟨hrmem, ?_⟩
          rintro rfl
          exact hx (Option.some.inj (hr.symm.trans hset))
      by_cases hempty : s.entry d = none
      · -- the answer is queued
        have htold : (s.deaths d).told = [] ∨ (s.deaths d).told = [(proc, BR_DEAD_BINDER)] := by
          by_cases hnull : s.node_proc ref.node = none
          · rcases hdue hnull hreleased with ⟨-, k, hk, -⟩ | ⟨htold, -⟩
            · exact absurd (hempty.symm.trans hk) nofun
            · exact Or.inr htold
          · exact Or.inl (halive hnull).2
        refine ⟨_, if_pos hempty, h.one (hwf.frame rfl rfl rfl rfl) d (fun x hx => ?_)
          (Nat.le_refl _) hother rfl rfl (.of_cleared hnone hlast ?_ (Or.inr (Or.inl ⟨?_, ?_⟩))),
          rfl, rfl⟩
        · exact ⟨by simp [hx, setDeath, setRefDeath], by simp [hx]; rfl⟩
        · simp [setDeath, setRefDeath]
        · refine ⟨_, by rw [entry_queue, if_pos rfl], ?_, by simp⟩
          simpa [setDeath, setRefDeath, hp] using answers_isTodo _ _
        · simpa [setDeath, setRefDeath, hp] using htold
      · -- the type is changed
        have hnull : s.node_proc ref.node = none := by
          by_contra hnull
          exact hempty (halive hnull).1
        have htype : (s.deaths d).type = some BINDER_WORK_DEAD_BINDER := by
          rcases hdue hnull hreleased with ⟨-, -, -, -, htype⟩ | ⟨-, hnone | ⟨-, htype⟩⟩
          · exact htype
          · exact absurd hnone hempty
          · exact htype
        have htype' : ¬ (((s.setRefDeath proc node none).setDeath d
            fun x => { x with cleared := true }).deaths d).type ≠ some BINDER_WORK_DEAD_BINDER := by
          simpa [setDeath, setRefDeath] using htype
        refine ⟨_, (if_neg hempty).trans (if_neg htype'), h.one (hwf.frame rfl rfl rfl rfl) d
          (fun x hx => ?_) (Nat.le_refl _) hother rfl rfl (.of_cleared hnone hlast ?_ ?_), rfl, rfl⟩
        · exact ⟨by simp [hx, setDeath, setRefDeath], rfl⟩
        · simp [setDeath, setRefDeath]
        · rw [show ((State.setDeath _ d _).deaths d).proc = proc by
            simp [setDeath, setRefDeath, hp]]
          rcases hdue hnull hreleased with ⟨htold, k, hk, htodo, -⟩ | ⟨htold, hno | ⟨hdel, -⟩⟩
          · refine Or.inr (Or.inr (Or.inl ⟨⟨k, hk, htodo, ?_⟩, ?_⟩))
            · simp [setDeath]
            · simpa [setDeath, setRefDeath] using htold
          · exact absurd hno hempty
          · refine Or.inr (Or.inr (Or.inr ⟨hdel, ?_, ?_⟩))
            · simp [setDeath]
            · simpa [setDeath, setRefDeath] using htold

/-- A notification that keeps its reference, or its clear. -/
theorem Kept.update (h : s.Kept d) (hwf : s'.Wf) (hlt : d < s.lastDeath)
    (hlast : s'.lastDeath = s.lastDeath) (hrefs : s'.refs = s.refs)
    (hnode_proc : s'.node_proc = s.node_proc)
    (hproc : (s'.deaths d).proc = (s.deaths d).proc)
    (hcleared : (s'.deaths d).cleared = (s.deaths d).cleared)
    (hcase : ((∃ r ∈ s.refs, r.death = some d) ∧ s.entry d ≠ none ∧ s'.Due d (s.deaths d).proc) ∨
      ((s.deaths d).cleared = true ∧ s'.Answering d (s.deaths d).proc)) : s'.Kept d := by
  rcases hcase with ⟨⟨r, hr, hd⟩, hentry, hdue⟩ | ⟨htrue, hanswer⟩
  · obtain ⟨hp, hfalse, halive, -⟩ := h.registered r hr hd
    refine .of_registered hwf (hrefs ▸ hr) hd (hlast ▸ hlt) (hproc.trans hp)
      (hcleared.trans hfalse) (fun hnode => ?_) (fun _ => hp ▸ hdue)
    rw [hnode_proc] at hnode
    exact absurd (halive hnode).1 hentry
  · refine .of_cleared (fun r hr hd => ?_) (hlast ▸ hlt) (hcleared.trans htrue)
      (hproc ▸ hanswer)
    have hfalse := (h.registered r (hrefs ▸ hr) hd).2.1
    exact absurd (htrue.symm.trans hfalse) nofun

theorem deadBinderDone_inv (h : s.Inv) {proc : Nat} (hreleased : s.released proc = false)
    (thread cookie : Nat) : (s.deadBinderDone proc thread cookie).Inv := by
  unfold deadBinderDone
  split
  · next d hfind =>
    have hk : s.entry d = some (.delivered_death proc) :=
      (s.lists.mem_iff _ _).mpr (List.mem_of_find?_eq_some hfind)
    have hd := h.kept d
    obtain ⟨hproc, htold, hcase⟩ := hd.delivered hreleased hk
    have hsome : s.entry d ≠ none := hk ▸ Option.some_ne_none _
    dsimp only
    rcases hcase with ⟨hreg, htype⟩ | ⟨hcleared, htype⟩
    · rw [if_neg (by rw [htype]; exact nofun)]
      have hwf : Wf { s with lists := s.lists.unlink (.death d) } :=
        h.toWf.frame rfl rfl rfl rfl
      refine h.one hwf d (fun x hx => ⟨rfl, by simp [entry, hx]⟩) (Nat.le_refl _)
        (fun _ _ _ _ => Iff.rfl) rfl rfl (hd.update hwf (hd.lt_last hk) rfl rfl rfl rfl rfl
          (Or.inl ⟨hreg, hsome, Or.inr ⟨hproc ▸ htold, Or.inl ?_⟩⟩))
      simp [entry]
    · rw [if_pos htype]
      have hwf : Wf (({ s with lists := s.lists.unlink (.death d) } : State).queue d
          BINDER_WORK_CLEAR_DEATH_NOTIFICATION (s.answers proc thread)) :=
        h.toWf.frame rfl rfl rfl rfl
      refine h.one hwf d (fun x hx => ⟨by simp [hx], by simp [entry, queue, hx]⟩) (Nat.le_refl _)
        (fun _ _ _ _ => Iff.rfl) rfl rfl (hd.update hwf (hd.lt_last hk) rfl rfl rfl (by simp)
          (by simp) (Or.inr ⟨hcleared, Or.inr (Or.inl ⟨⟨s.answers proc thread, ?_, ?_, ?_⟩, ?_⟩)⟩))
      · simp [answers]
      · rw [hproc]
        exact answers_isTodo proc thread
      · simp
      · exact Or.inr (by simp [hproc, htold])
  · exact h

theorem deadBinderDone_frame (s : State) (proc thread cookie : Nat) :
    (s.deadBinderDone proc thread cookie).node_proc = s.node_proc ∧
      (s.deadBinderDone proc thread cookie).released = s.released := by
  unfold deadBinderDone
  split
  · dsimp only
    split <;> exact ⟨rfl, rfl⟩
  · exact ⟨rfl, rfl⟩

/-- The state after a command is returned for a notification. -/
def returned (s : State) (d proc : Nat) (cmd : Return) (lists : WorkLists WorkList Work) :
    State :=
  { s.setDeath d fun x => { x with told := x.told ++ [(proc, cmd)] } with lists }

/-- What a round of the loop does. -/
theorem read_cases (s : State) (proc thread : Nat) (wait_for_proc_work : Bool) :
    (nextWork s.lists proc thread wait_for_proc_work = none ∧
      s.read proc thread wait_for_proc_work = s) ∨
    (∃ w, nextWork s.lists proc thread wait_for_proc_work = some (.other w) ∧
      s.read proc thread wait_for_proc_work =
        { s with lists := s.lists.unlink (.other w) }) ∨
    (∃ d, nextWork s.lists proc thread wait_for_proc_work = some (.death d) ∧
      (((s.deaths d).type = some BINDER_WORK_CLEAR_DEATH_NOTIFICATION ∧
        s.read proc thread wait_for_proc_work = s.returned d proc
          BR_CLEAR_DEATH_NOTIFICATION_DONE (s.lists.unlink (.death d))) ∨
      ((s.deaths d).type ≠ some BINDER_WORK_CLEAR_DEATH_NOTIFICATION ∧
        s.read proc thread wait_for_proc_work = s.returned d proc BR_DEAD_BINDER
          (s.lists.moveHead (.death d) (.delivered_death proc))))) := by
  unfold read
  split
  · next h => exact Or.inl ⟨h, rfl⟩
  · next w h => exact Or.inr (Or.inl ⟨w, h, rfl⟩)
  · next d h =>
    refine Or.inr (Or.inr ⟨d, h, ?_⟩)
    by_cases htype : (s.deaths d).type = some BINDER_WORK_CLEAR_DEATH_NOTIFICATION
    · exact Or.inl ⟨htype, by rw [htype]; rfl⟩
    · have hcmd : command (s.deaths d).type = BR_DEAD_BINDER := by
        unfold command
        split
        · next heq => exact absurd heq htype
        · rfl
      exact Or.inr ⟨htype, by rw [hcmd]; rfl⟩

theorem read_inv (h : s.Inv) {proc : Nat} (hreleased : s.released proc = false)
    (thread : Nat) (wait_for_proc_work : Bool) :
    (s.read proc thread wait_for_proc_work).Inv := by
  rcases s.read_cases proc thread wait_for_proc_work with
    ⟨-, hread⟩ | ⟨w, -, hread⟩ | ⟨d, hnext, hread⟩
  · rw [hread]
    exact h
  · rw [hread]
    exact h.frame (h.toWf.frame rfl rfl rfl rfl) rfl (fun d => by simp [entry]) rfl
      (fun _ _ _ => Iff.rfl) (fun _ _ => rfl) (fun _ => id)
  · obtain ⟨k, hk, htodo⟩ := on_of_nextWork hnext
    have hk : s.entry d = some k := hk
    have hd := h.kept d
    have hsome : s.entry d ≠ none := hk ▸ Option.some_ne_none _
    obtain ⟨hproc, hcase⟩ := hd.waits hreleased hk htodo
    rcases hread with ⟨hclear, hread⟩ | ⟨hdead, hread⟩
    · -- the answer to a clear
      have hwf : (s.returned d proc BR_CLEAR_DEATH_NOTIFICATION_DONE
          (s.lists.unlink (.death d))).Wf := h.toWf.frame rfl rfl rfl rfl
      rw [hread]
      refine h.one hwf d (fun x hx => ?_) (Nat.le_refl _) (fun _ _ _ _ => Iff.rfl) rfl rfl
        (hd.update hwf (hd.lt_last hk) rfl rfl rfl ?_ ?_ (Or.inr ?_))
      · exact ⟨by simp [hx, returned, setDeath], by simp [hx, returned, entry]⟩
      · simp [returned, setDeath]
      · simp [returned, setDeath]
      · rcases hcase with ⟨-, htype, -⟩ | ⟨hcleared, ⟨-, htold⟩ | ⟨htype, -⟩⟩
        · exact absurd (hclear.symm.trans htype) nofun
        · refine ⟨hcleared, Or.inl ⟨by simp [returned, entry], ?_⟩⟩
          rcases htold with htold | htold
          · exact Or.inl (by simp [returned, setDeath, htold, hproc])
          · exact Or.inr (by simp [returned, setDeath, htold, hproc])
        · exact absurd (hclear.symm.trans htype) nofun
    · -- the death of the owner
      have hwf : (s.returned d proc BR_DEAD_BINDER
          (s.lists.moveHead (.death d) (.delivered_death proc))).Wf :=
        h.toWf.frame rfl rfl rfl rfl
      rw [hread]
      refine h.one hwf d (fun x hx => ?_) (Nat.le_refl _) (fun _ _ _ _ => Iff.rfl) rfl rfl
        (hd.update hwf (hd.lt_last hk) rfl rfl rfl ?_ ?_ ?_)
      · exact ⟨by simp [hx, returned, setDeath], by simp [hx, returned, entry]⟩
      · simp [returned, setDeath]
      · simp [returned, setDeath]
      · rcases hcase with ⟨hreg, htype, htold⟩ | ⟨hcleared, ⟨htype, -⟩ | ⟨htype, htold⟩⟩
        · refine Or.inl ⟨hreg, hsome, Or.inr ⟨?_, Or.inr ⟨?_, ?_⟩⟩⟩
          · simp [returned, setDeath, htold, hproc]
          · simp [returned, entry, hproc]
          · simp [returned, setDeath, htype]
        · exact absurd htype hdead
        · refine Or.inr ⟨hcleared, Or.inr (Or.inr (Or.inr ⟨?_, ?_, ?_⟩))⟩
          · simp [returned, entry, hproc]
          · simp [returned, setDeath, htype]
          · simp [returned, setDeath, htold, hproc]

end State

end Cdroid.Driver.Deaths
