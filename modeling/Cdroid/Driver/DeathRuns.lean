import Cdroid.Driver.Notices

/-! The releases of threads and processes, and what holds in every run of death
notifications. -/

namespace Cdroid.Driver.Deaths
open Cdroid.Lib Cdroid.Lib.Runs
open WorkType Return

namespace State

variable {s s' : State} {d : Nat}

/-! ## Nodes and references -/

theorem newNode_inv (h : s.Inv) (p i : Nat) :
    Inv { s with
      nodes := fun q =>
        if q = p then (s.nodes q).take i ++ s.lastNode :: (s.nodes q).drop i else s.nodes q
      node_proc := fun n => if n = s.lastNode then some p else s.node_proc n
      lastNode := s.lastNode + 1 } := by
  have hnew : ∀ q, s.lastNode ∉ s.nodes q := fun q hq =>
    Nat.lt_irrefl _ (h.nodeNew _ q ((h.nodes _ q).mpr hq))
  refine h.frame ?_ rfl (fun _ => rfl) rfl (fun _ _ _ => Iff.rfl)
    (fun r hr => if_neg (Nat.ne_of_lt (h.known r hr))) (fun _ => id)
  constructor
  case refs => exact h.refs
  case keys => exact h.keys
  case apart => exact h.apart
  case known => exact fun r hr => Nat.lt_succ_of_lt (h.known r hr)
  case nodes =>
    intro n q
    dsimp only
    by_cases hn : n = s.lastNode
    · by_cases hq : q = p
      · simp [hn, hq]
      · simp [hn, hq, hnew q, Ne.symm hq]
    · by_cases hq : q = p
      · rw [if_neg hn, if_pos hq, h.nodes, List.mem_append, List.mem_cons, or_left_comm,
          ← List.mem_append, List.take_append_drop]
        simp [hn]
      · rw [if_neg hn, if_neg hq, h.nodes]
  case nodup =>
    intro q
    dsimp only
    split
    · rw [List.nodup_middle, List.take_append_drop]
      exact List.nodup_cons.mpr ⟨hnew q, h.nodup q⟩
    · exact h.nodup q
  case nodeNew =>
    intro n q hn
    dsimp only at hn ⊢
    split at hn
    · omega
    · exact Nat.lt_succ_of_lt (h.nodeNew n q hn)

theorem getRef_inv (h : s.Inv) {p n : Nat} (hnone : s.ref? p n = none) (hlast : n < s.lastNode) :
    Inv { s with refs := ⟨p, n, none⟩ :: s.refs } := by
  have hkey : ∀ r ∈ s.refs, r.proc = p → r.node ≠ n := by
    intro r hr hp hn
    have := List.find?_eq_none.mp hnone r hr
    simp [hp, hn] at this
  refine h.frame ?_ rfl (fun _ => rfl) rfl (fun r d hd => ?_) (fun _ _ => rfl) (fun _ => id)
  · constructor
    case refs => exact List.nodup_cons.mpr ⟨fun hmem => hkey _ hmem rfl rfl, h.refs⟩
    case keys =>
      intro a ha b hb hp hn
      rcases List.mem_cons.mp ha with rfl | ha
      · rcases List.mem_cons.mp hb with rfl | hb
        · rfl
        · exact absurd hn.symm (hkey b hb hp.symm)
      · rcases List.mem_cons.mp hb with rfl | hb
        · exact absurd hn (hkey a ha hp)
        · exact h.keys a ha b hb hp hn
    case apart =>
      intro a ha b hb d had hbd
      rcases List.mem_cons.mp ha with rfl | ha
      · exact absurd had nofun
      · rcases List.mem_cons.mp hb with rfl | hb
        · exact absurd hbd nofun
        · exact h.apart a ha b hb d had hbd
    case known =>
      intro r hr
      rcases List.mem_cons.mp hr with rfl | hr
      · exact hlast
      · exact h.known r hr
    case nodes => exact h.nodes
    case nodup => exact h.nodup
    case nodeNew => exact h.nodeNew
  · rw [List.mem_cons]
    exact or_iff_right (by rintro rfl; exact absurd hd nofun)

theorem Wf.erase (h : s.Wf) (ref : binder_ref) (lists : WorkLists WorkList Work) :
    Wf { s with refs := s.refs.erase ref, lists } where
  refs := h.refs.erase ref
  keys a ha b hb := h.keys a (List.mem_of_mem_erase ha) b (List.mem_of_mem_erase hb)
  apart a ha b hb := h.apart a (List.mem_of_mem_erase ha) b (List.mem_of_mem_erase hb)
  known r hr := h.known r (List.mem_of_mem_erase hr)
  nodes := h.nodes
  nodup := h.nodup
  nodeNew := h.nodeNew

theorem deleteRef_inv (h : s.Inv) {ref : binder_ref} (hmem : ref ∈ s.refs) :
    (s.deleteRef ref).Inv := by
  unfold deleteRef
  cases hset : ref.death with
  | none =>
    refine h.frame (h.erase ref s.lists) rfl (fun _ => rfl) rfl (fun r d hd => ?_)
      (fun _ _ => rfl) (fun _ => id)
    exact List.mem_erase_of_ne (by rintro rfl; cases hset.symm.trans hd)
  | some d =>
    have hd := h.kept d
    have hfalse := (hd.registered ref hmem hset).2.1
    have hnone : ∀ r ∈ s.refs.erase ref, r.death ≠ some d := by
      intro r hr hrd
      have hr := h.refs.mem_erase_iff.mp hr
      exact hr.1 (h.apart r hr.2 ref hmem d hrd hset)
    refine h.one (h.erase ref _) d (fun x hx => ⟨rfl, by simp [entry, hx]⟩) (Nat.le_refl _)
      (fun r x hx hr => List.mem_erase_of_ne ?_) rfl rfl ?_
    · rintro rfl
      exact hx (Option.some.inj (hr.symm.trans hset))
    · have hempty : State.entry { s with
          refs := s.refs.erase ref, lists := s.lists.unlink (.death d) } d = none := by
        simp [entry]
      constructor
      case place => exact fun k hk => by cases hempty.symm.trans hk
      case told => exact hd.told
      case fresh => exact fun hle => absurd hset ((hd.fresh hle).2.2.2 ref hmem)
      case registered => exact fun r hr hrd => absurd hrd (hnone r hr)
      case cleared => exact fun htrue => by cases hfalse.symm.trans htrue
      case gone => exact fun _ _ => hempty

/-! ## Releases -/

/-- Lists may be emptied whose notifications are those of processes that go. -/
theorem releaseWork_inv (h : s.Inv) (P : WorkList → Bool)
    (hP : ∀ d k, s.entry d = some k → P k = true → s.released (s.deaths d).proc = true) :
    (s.releaseWork P).Inv := by
  have hwf : (s.releaseWork P).Wf := h.toWf.frame rfl rfl rfl rfl
  refine ⟨hwf, fun d => ?_⟩
  have hd := h.kept d
  cases hk : s.entry d with
  | none =>
    refine hd.congr rfl ?_ (Nat.le_refl _) (fun _ _ => Iff.rfl) (fun _ _ _ => rfl) (fun _ => id)
    have hk' : s.lists.on (.death d) = none := hk
    simp [entry, releaseWork, hk']
  | some k =>
    have hk' : s.lists.on (.death d) = some k := hk
    by_cases hPk : P k = true
    · have hempty : (s.releaseWork P).entry d = none := by
        simp [entry, releaseWork, hk', hPk]
      have hreleased := hP d k hk hPk
      constructor
      case place => exact fun k hk => by cases hempty.symm.trans hk
      case told => exact hd.told
      case fresh => exact fun hle => absurd hle (Nat.not_le.mpr (hd.lt_last hk))
      case registered =>
        intro r hr hrd
        obtain ⟨hproc, hfalse, halive, -⟩ := hd.registered r hr hrd
        refine ⟨hproc, hfalse, fun hnode => ⟨hempty, (halive hnode).2⟩, fun _ hno => ?_⟩
        cases (hproc ▸ hreleased).symm.trans hno
      case cleared => exact fun _ hno => by cases hreleased.symm.trans hno
      case gone => exact fun _ _ => hempty
    · refine hd.congr rfl ?_ (Nat.le_refl _) (fun _ _ => Iff.rfl) (fun _ _ _ => rfl) (fun _ => id)
      rw [hk]
      simp [entry, releaseWork, hk', hPk]

/-- What the loop over `node->refs` does to each notification. -/
theorem notifyRefs_spec (l : List binder_ref) (s : State)
    (hnone : ∀ r ∈ l, ∀ d, r.death = some d → s.entry d = none)
    (hapart : l.Pairwise fun a b => ∀ d, a.death = some d → b.death ≠ some d) :
    ∃ deaths lists, notifyRefs l s = some { s with deaths, lists } ∧ ∀ d,
      (∃ r ∈ l, r.death = some d ∧ lists.on (.death d) = some (.todo r.proc) ∧
        deaths d = { s.deaths d with type := some BINDER_WORK_DEAD_BINDER }) ∨
      ((∀ r ∈ l.takeWhile fun r => r.death.isSome, r.death ≠ some d) ∧
        lists.on (.death d) = s.entry d ∧ deaths d = s.deaths d) := by
  induction l generalizing s with
  | nil => exact ⟨s.deaths, s.lists, rfl, fun d => Or.inr ⟨by simp, rfl, rfl⟩⟩
  | cons ref l ih =>
    rw [List.pairwise_cons] at hapart
    unfold notifyRefs
    cases hset : ref.death with
    | none =>
      exact ⟨s.deaths, s.lists, rfl, fun d => Or.inr ⟨by simp [hset], rfl, rfl⟩⟩
    | some x =>
      have hx : s.entry x = none := hnone ref List.mem_cons_self x hset
      obtain ⟨deaths, lists, hrun, hspec⟩ :=
        ih (s.queue x BINDER_WORK_DEAD_BINDER (.todo ref.proc)) (fun r hr d hd => by
          have hne : d ≠ x := fun heq => hapart.1 r hr x hset (heq ▸ hd)
          rw [entry_queue, if_neg hne]
          exact hnone r (List.mem_cons_of_mem ref hr) d hd) hapart.2
      refine ⟨deaths, lists, (if_pos hx).trans hrun, fun d => ?_⟩
      rcases hspec d with ⟨r, hr, hd, hon, hdeath⟩ | ⟨hnot, hon, hdeath⟩
      · refine Or.inl ⟨r, List.mem_cons_of_mem ref hr, hd, hon, hdeath.trans ?_⟩
        rw [deaths_queue]
        split <;> rfl
      · by_cases hdx : d = x
        · refine Or.inl ⟨ref, List.mem_cons_self, hset.trans (hdx ▸ rfl), hon.trans ?_,
            hdeath.trans ?_⟩
          · rw [entry_queue, if_pos hdx]
          · rw [deaths_queue, if_pos hdx]
        · refine Or.inr ⟨?_, hon.trans ?_, hdeath.trans ?_⟩
          · intro r hr
            simp only [List.takeWhile_cons, hset, Option.isSome_some, ↓reduceIte,
              List.mem_cons] at hr
            rcases hr with rfl | hr
            · rw [hset]
              exact fun heq => hdx (Option.some.inj heq).symm
            · exact hnot r hr
          · rw [entry_queue, if_neg hdx]
          · rw [deaths_queue, if_neg hdx]

/-- The references of a node that the loop of `binder_node_release` comes to. -/
def reached (s : State) (node : Nat) : List binder_ref :=
  (s.nodeRefs node).takeWhile fun r => r.death.isSome

/-- What `binder_node_release` leaves, apart from the notifications. -/
def withoutNode (s : State) (node : Nat) : State :=
  { s with
    nodes := fun p => (s.nodes p).erase node
    node_proc := fun n => if n = node then none else s.node_proc n }

theorem Wf.withoutNode (h : s.Wf) (node : Nat) : (s.withoutNode node).Wf where
  refs := h.refs
  keys := h.keys
  apart := h.apart
  known := h.known
  nodes n p := by
    simp only [State.withoutNode, (h.nodup p).mem_erase_iff, ← h.nodes]
    by_cases hn : n = node
    · simp [hn]
    · simp [hn]
  nodup p := (h.nodup p).erase node
  nodeNew n p hn := by
    simp only [State.withoutNode] at hn
    split at hn
    · cases hn
    · exact h.nodeNew n p hn

/-- A node that is released has told every reference with a notification, if the loop comes
to all of them. -/
theorem nodeRelease_inv (h : s.Inv) {node : Nat} (halive : s.node_proc node ≠ none)
    (hreach : ∀ r ∈ s.nodeRefs node, r.death ≠ none → s.released r.proc = false →
      r ∈ s.reached node) :
    ∃ deaths lists, s.nodeRelease node = some { s.withoutNode node with deaths, lists } ∧
      Inv { s.withoutNode node with deaths, lists } := by
  have hmemRefs : ∀ r, r ∈ s.nodeRefs node ↔ r ∈ s.refs ∧ r.node = node := by
    simp [nodeRefs, List.mem_filter]
  obtain ⟨deaths, lists, hrun, hspec⟩ := notifyRefs_spec (s.nodeRefs node) (s.withoutNode node)
    (fun r hr d hd => by
      obtain ⟨hr, hn⟩ := (hmemRefs r).mp hr
      exact (((h.kept d).registered r hr hd).2.2.1 (hn ▸ halive)).1)
    (by
      refine (h.refs.filter _).pairwise_of_forall_ne fun a ha b hb hne d had hbd => hne ?_
      exact h.apart a (List.mem_of_mem_filter ha) b (List.mem_of_mem_filter hb) d had hbd)
  have hwf : Wf { s.withoutNode node with deaths, lists } :=
    (h.toWf.withoutNode node).frame rfl rfl rfl rfl
  refine ⟨deaths, lists, hrun, hwf, fun d => ?_⟩
  have hd := h.kept d
  rcases hspec d with ⟨r, hr, hset, hon, hdeath⟩ | ⟨hnot, hon, hdeath⟩
  · -- the loop has come to it
    obtain ⟨hr, hn⟩ := (hmemRefs r).mp hr
    obtain ⟨hproc, hfalse, hold, -⟩ := hd.registered r hr hset
    have hlast : d < s.lastDeath := by
      by_contra hge
      exact (hd.fresh (Nat.not_lt.mp hge)).2.2.2 r hr hset
    refine .of_registered hwf hr hset hlast ?_ ?_ (fun hnode => ?_) fun _ => Or.inl ⟨?_, ?_⟩
    · exact (congrArg binder_ref_death.proc hdeath).trans hproc
    · exact (congrArg binder_ref_death.cleared hdeath).trans hfalse
    · exact absurd (if_pos hn) hnode
    · exact (congrArg binder_ref_death.told hdeath).trans (hold (hn ▸ halive)).2
    · exact ⟨.todo r.proc, hon, rfl, congrArg binder_ref_death.type hdeath⟩
  · by_cases hhas : ∃ r ∈ s.nodeRefs node, r.death = some d
    · -- the loop does not come to it: its process goes as well
      obtain ⟨r, hr, hset⟩ := hhas
      have hgoes : s.released r.proc = true := by
        by_contra hstays
        exact hnot r (hreach r hr (hset ▸ Option.some_ne_none d) (Bool.eq_false_iff.mpr hstays))
          hset
      obtain ⟨hr, hn⟩ := (hmemRefs r).mp hr
      obtain ⟨hproc, hfalse, hold, -⟩ := hd.registered r hr hset
      have hempty : lists.on (.death d) = none := hon.trans (hold (hn ▸ halive)).1
      constructor
      case place => exact fun k hk => absurd (hempty.symm.trans hk) nofun
      case told =>
        dsimp only
        rw [hdeath]
        exact hd.told
      case fresh => exact fun hle => absurd hset ((hd.fresh hle).2.2.2 r hr)
      case registered =>
        intro q hq hqd
        rw [h.apart q hq r hr d hqd hset]
        refine ⟨?_, ?_, fun hnode => absurd (if_pos hn) hnode, fun _ hno => ?_⟩
        · exact (congrArg binder_ref_death.proc hdeath).trans hproc
        · exact (congrArg binder_ref_death.cleared hdeath).trans hfalse
        · exact absurd (hgoes.symm.trans hno) nofun
      case cleared =>
        have hno := (congrArg binder_ref_death.cleared hdeath).trans hfalse
        exact fun htrue => absurd (hno.symm.trans htrue) nofun
      case gone => exact fun _ _ => hempty
    · refine hd.congr hdeath hon (Nat.le_refl _) (fun _ _ => Iff.rfl) (fun r hr hset => ?_)
        (fun _ => id)
      exact if_neg fun hn => hhas ⟨r, (hmemRefs r).mpr ⟨hr, hn⟩, hset⟩

/-- The nodes of a process that goes. -/
theorem nodesRelease_inv (l : List Nat) (hl : l.Nodup) (h : s.Inv)
    (halive : ∀ n ∈ l, s.node_proc n ≠ none)
    (hreach : ∀ n ∈ l, ∀ r ∈ s.nodeRefs n, r.death ≠ none → s.released r.proc = false →
      r ∈ s.reached n) :
    ∃ t, nodesRelease l s = some t ∧ t.Inv ∧ t.refs = s.refs ∧ t.released = s.released ∧
      ∀ n, t.node_proc n = if n ∈ l then none else s.node_proc n := by
  induction l generalizing s with
  | nil => exact ⟨s, rfl, h, rfl, rfl, fun n => (if_neg List.not_mem_nil).symm⟩
  | cons node l ih =>
    obtain ⟨hnew, hl⟩ := List.nodup_cons.mp hl
    obtain ⟨deaths, lists, hrun, hinv⟩ := nodeRelease_inv h (halive node List.mem_cons_self)
      (hreach node List.mem_cons_self)
    have hother : ∀ n ∈ l, n ≠ node := fun n hn heq => hnew (heq ▸ hn)
    obtain ⟨t, ht, htinv, hrefs, hreleased, hnode_proc⟩ := ih hl hinv
      (fun n hn => by
        rw [show State.node_proc _ n = s.node_proc n from if_neg (hother n hn)]
        exact halive n (List.mem_cons_of_mem node hn))
      (fun n hn => hreach n (List.mem_cons_of_mem node hn))
    refine ⟨t, ?_, htinv, hrefs, hreleased, fun n => ?_⟩
    · unfold nodesRelease
      rw [hrun]
      exact ht
    · rw [hnode_proc]
      by_cases hn : n = node
      · simp [hn, withoutNode]
      · simp [hn, withoutNode]

theorem deleteRefs_inv (l : List binder_ref) (hl : l.Nodup) (h : s.Inv)
    (hmem : ∀ r ∈ l, r ∈ s.refs) :
    (l.foldl deleteRef s).Inv ∧ (l.foldl deleteRef s).released = s.released ∧
      (l.foldl deleteRef s).node_proc = s.node_proc := by
  induction l generalizing s with
  | nil => exact ⟨h, rfl, rfl⟩
  | cons ref l ih =>
    obtain ⟨hnew, hl⟩ := List.nodup_cons.mp hl
    have hrefs : (s.deleteRef ref).refs = s.refs.erase ref := by
      unfold deleteRef
      split <;> rfl
    have hsame : (s.deleteRef ref).released = s.released ∧
        (s.deleteRef ref).node_proc = s.node_proc := by
      unfold deleteRef
      split <;> exact ⟨rfl, rfl⟩
    obtain ⟨hinv, hreleased, hnode_proc⟩ := ih hl (deleteRef_inv h (hmem ref List.mem_cons_self))
      fun r hr => by
        rw [hrefs]
        exact (List.mem_erase_of_ne (show r ≠ ref from fun heq => hnew (heq ▸ hr))).mpr
          (hmem r (List.mem_cons_of_mem ref hr))
    exact ⟨hinv, hreleased.trans hsame.1, hnode_proc.trans hsame.2⟩

/-- A node has its owner until the owner is released. -/
def Owned (s : State) : Prop := ∀ n p, s.node_proc n = some p → s.released p = false

theorem Owned.congr (h : s.Owned) (hnode : s'.node_proc = s.node_proc)
    (hreleased : s'.released = s.released) : s'.Owned := by
  unfold Owned
  rw [hnode, hreleased]
  exact h

theorem deferredRelease_inv (h : s.Inv) (howned : s.Owned) (proc : Nat)
    (hreach : ∀ n ∈ s.nodes proc, ∀ r ∈ s.nodeRefs n, r.death ≠ none → r.proc ≠ proc →
      s.released r.proc = false → r ∈ s.reached n) :
    ∃ t, s.deferredRelease proc = some t ∧ t.Inv ∧ t.Owned := by
  let s₁ : State := { s with released := fun p => if p = proc then true else s.released p }
  let s₂ := s₁.releaseWork (WorkList.isThreadTodoOf proc)
  have h₁ : s₁.Inv := by
    refine h.frame (h.toWf.frame rfl rfl rfl rfl) rfl (fun _ => rfl) rfl (fun _ _ _ => Iff.rfl)
      (fun _ _ => rfl) fun p hp => ?_
    dsimp only [s₁]
    split
    · rfl
    · exact hp
  have hgoes : ∀ p, s₁.released p = false → p ≠ proc ∧ s.released p = false := by
    intro p hp
    dsimp only [s₁] at hp
    split at hp
    · cases hp
    · next hne => exact ⟨hne, hp⟩
  have h₂ : s₂.Inv := by
    refine releaseWork_inv h₁ _ fun d k hk hPk => ?_
    have hplace := (h₁.kept d).place k hk
    cases k with
    | threadTodo p t =>
      rcases hplace with hin | hdel
      · have hp : p = proc := by simpa [WorkList.isThreadTodoOf] using hPk
        exact if_pos (hin.symm.trans hp)
      · cases hdel
    | _ => simp [WorkList.isThreadTodoOf] at hPk
  obtain ⟨t, ht, hinv, hrefs, hreleased, hnode_proc⟩ := nodesRelease_inv (s.nodes proc)
    (h.nodup proc) h₂
    (fun n hn => by
      rw [show s₂.node_proc n = some proc from (h.nodes n proc).mpr hn]
      exact Option.some_ne_none proc)
    (fun n hn r hr hd hno => by
      obtain ⟨hne, hno⟩ := hgoes _ hno
      exact hreach n hn r hr hd hne hno)
  obtain ⟨hinv', hreleased', hnode_proc'⟩ := deleteRefs_inv
    (t.refs.filter fun r => r.proc = proc) (hinv.refs.filter _) hinv
    fun r hr => List.mem_of_mem_filter hr
  refine ⟨_, congrArg (Option.map _) ht, releaseWork_inv hinv' _ fun d k hk hPk => ?_, ?_⟩
  · have hproc : ((List.foldl deleteRef t (t.refs.filter fun r => r.proc = proc)).deaths d).proc =
        proc := by
      have hplace := (hinv'.kept d).place k hk
      rw [Bool.or_eq_true, beq_iff_eq, beq_iff_eq] at hPk
      rcases hPk with rfl | rfl
      · rcases hplace with hin | hdel
        · exact hin.symm
        · cases hdel
      · rcases hplace with hin | hdel
        · exact hin.elim
        · exact (WorkList.delivered_death.inj hdel).symm
    rw [hproc, hreleased', hreleased]
    exact if_pos rfl
  · intro n p hn
    have hn : t.node_proc n = some p := (congrFun hnode_proc' n).symm.trans hn
    have hold : s₂.node_proc n = some p ∧ n ∉ s.nodes proc := by
      rw [hnode_proc] at hn
      split at hn
      · cases hn
      · next hnot => exact ⟨hn, hnot⟩
    have hne : p ≠ proc := fun heq => hold.2 ((h.nodes n proc).mp (heq ▸ hold.1))
    refine (congrFun (hreleased'.trans hreleased) p).trans ((if_neg hne).trans ?_)
    exact howned n p hold.1

end State

/-! ## Runs -/

open State

def Work.isOther : Work → Bool
  | .death _ => false
  | .other _ => true

/-- A thread exits without a notification on its list; an owner is released when no reference
without a notification stands before one with a notification in `node->refs`. -/
def Action.Meets (s : State) : Action → Prop
  | .threadExit p t => ∀ w ∈ s.lists.items (.threadTodo p t), w.isOther = true
  | .release p => ∀ n ∈ s.nodes p, (s.nodeRefs n).Pairwise fun a b =>
      b.death ≠ none → b.proc ≠ p → a.death ≠ none
  | _ => True

instance : ∀ s a, Decidable (Action.Meets s a)
  | s, .threadExit p t =>
    inferInstanceAs (Decidable (∀ w ∈ s.lists.items (.threadTodo p t), w.isOther = true))
  | s, .release p =>
    inferInstanceAs (Decidable (∀ n ∈ s.nodes p, (s.nodeRefs n).Pairwise fun a b =>
      b.death ≠ none → b.proc ≠ p → a.death ≠ none))
  | _, .newNode .. => .isTrue trivial
  | _, .getRefForNode .. => .isTrue trivial
  | _, .deleteRef .. => .isTrue trivial
  | _, .enterLooper .. => .isTrue trivial
  | _, .request .. => .isTrue trivial
  | _, .clear .. => .isTrue trivial
  | _, .deadBinderDone .. => .isTrue trivial
  | _, .post .. => .isTrue trivial
  | _, .read .. => .isTrue trivial

/-- The loop comes to a reference if all before it have notifications. -/
theorem mem_takeWhile_of_pairwise {p : Nat} {l : List binder_ref} {r : binder_ref}
    (hl : l.Pairwise fun a b => b.death ≠ none → b.proc ≠ p → a.death ≠ none) (hr : r ∈ l)
    (hdeath : r.death ≠ none) (hproc : r.proc ≠ p) :
    r ∈ l.takeWhile fun r => r.death.isSome := by
  induction l with
  | nil => exact absurd hr List.not_mem_nil
  | cons a l ih =>
    rw [List.pairwise_cons] at hl
    rcases List.mem_cons.mp hr with rfl | hr
    · rw [List.takeWhile_cons, if_pos (Option.isSome_iff_ne_none.mpr hdeath)]
      exact List.mem_cons_self
    · have ha := hl.1 r hr hdeath hproc
      rw [List.takeWhile_cons, if_pos (Option.isSome_iff_ne_none.mpr ha)]
      exact List.mem_cons_of_mem a (ih hl.2 hr)

/-- **Step lemma.** No assertion fails, and every notification is kept. -/
theorem next_inv {s : State} (h : s.Inv) (howned : s.Owned) {a : Action} (ha : a.Meets s) :
    ∃ t, State.next s a = some t ∧ t.Inv ∧ t.Owned := by
  unfold State.next
  by_cases hgone : a.proc.any s.released
  · exact ⟨s, if_pos hgone, h, howned⟩
  rw [if_neg hgone]
  cases a with
  | newNode p i =>
    refine ⟨_, rfl, newNode_inv h p i, fun n q hn => ?_⟩
    dsimp only at hn ⊢
    split at hn
    · rw [← Option.some.inj hn]
      simpa [Action.proc] using hgone
    · exact howned n q hn
  | getRefForNode p n =>
    refine ⟨_, rfl, ?_⟩
    split
    · next hguard =>
      refine ⟨getRef_inv h hguard.1 ?_, howned⟩
      rcases hguard.2 with hnode | hrefs
      · obtain ⟨q, hq⟩ := Option.ne_none_iff_exists'.mp hnode
        exact h.nodeNew n q hq
      · obtain ⟨r, hr⟩ := List.exists_mem_of_ne_nil _ hrefs
        simp only [nodeRefs, List.mem_filter, decide_eq_true_eq] at hr
        exact hr.2 ▸ h.known r hr.1
    · exact ⟨h, howned⟩
  | deleteRef p n =>
    refine ⟨_, rfl, ?_⟩
    cases href : s.ref? p n with
    | none => exact ⟨h, howned⟩
    | some ref =>
      refine ⟨deleteRef_inv h (ref?_some href).1, ?_⟩
      simp only [Option.map_some, Option.getD_some, deleteRef]
      split <;> exact howned
  | enterLooper p t =>
    exact ⟨_, rfl, h.frame (h.toWf.frame rfl rfl rfl rfl) rfl (fun _ => rfl) rfl
      (fun _ _ _ => Iff.rfl) (fun _ _ => rfl) (fun _ => id), howned⟩
  | request p t n cookie =>
    refine ⟨_, rfl, request_inv h p t n cookie, ?_⟩
    unfold request
    split
    · exact howned
    · split
      · exact howned
      · split <;> exact howned
  | clear p t n cookie =>
    have hp : s.released p = false := by simpa [Action.proc] using hgone
    obtain ⟨u, hu, hinv, hnode, hreleased⟩ := clear_inv h hp t n cookie
    exact ⟨u, hu, hinv, howned.congr hnode hreleased⟩
  | deadBinderDone p t cookie =>
    have hp : s.released p = false := by simpa [Action.proc] using hgone
    obtain ⟨hnode, hreleased⟩ := s.deadBinderDone_frame p t cookie
    exact ⟨_, rfl, deadBinderDone_inv h hp t cookie, howned.congr hnode hreleased⟩
  | post w target =>
    exact ⟨_, rfl, h.frame (h.toWf.frame rfl rfl rfl rfl) rfl (fun d => by simp [entry]) rfl
      (fun _ _ _ => Iff.rfl) (fun _ _ => rfl) (fun _ => id), howned⟩
  | read p t wait_for_proc_work =>
    have hp : s.released p = false := by simpa [Action.proc] using hgone
    refine ⟨_, rfl, read_inv h hp t wait_for_proc_work, ?_⟩
    rcases s.read_cases p t wait_for_proc_work with
      ⟨-, hread⟩ | ⟨w, -, hread⟩ | ⟨d, -, ⟨-, hread⟩ | ⟨-, hread⟩⟩ <;>
    · rw [hread]
      exact howned
  | threadExit p t =>
    have hinv : (s.releaseWork fun k => k == .threadTodo p t).Inv := by
      refine releaseWork_inv h _ fun d k hk hPk => ?_
      rw [beq_iff_eq] at hPk
      have hmem := (s.lists.mem_iff _ _).mp (hPk ▸ hk : s.lists.on (.death d) = _)
      cases ha _ hmem
    exact ⟨_, rfl, hinv.frame (hinv.toWf.frame rfl rfl rfl rfl) rfl (fun _ => rfl) rfl
      (fun _ _ _ => Iff.rfl) (fun _ _ => rfl) (fun _ => id), howned⟩
  | release p =>
    refine deferredRelease_inv h howned p fun n hn r hr hdeath hproc _ => ?_
    exact mem_takeWhile_of_pairwise (ha n hn) hr hdeath hproc

/-! ## What is read -/

/-- A round of the loop takes the first item, and leaves the other notifications alone. -/
theorem read_first {s : State} {proc thread : Nat} {w : Work} {ws : List Work}
    (h : pending s.lists proc thread = w :: ws) :
    pending (s.read proc thread true).lists proc thread = ws ∧
      (s.read proc thread true).released = s.released ∧
      (∀ d, w ≠ .death d → (s.read proc thread true).deaths d = s.deaths d) ∧
      ∀ d, w = .death d → ((s.read proc thread true).deaths d).told =
        (s.deaths d).told ++ [(proc, command (s.deaths d).type)] := by
  have hnext : nextWork s.lists proc thread true = some w := by
    rw [nextWork_pending, h]
    rfl
  rcases s.read_cases proc thread true with
    ⟨hnone, -⟩ | ⟨v, hv, hread⟩ | ⟨d, hd, ⟨htype, hread⟩ | ⟨htype, hread⟩⟩
  · exact absurd (hnext.symm.trans hnone) nofun
  · obtain rfl := Option.some.inj (hnext.symm.trans hv)
    rw [hread]
    exact ⟨pending_unlink h, rfl, fun _ _ => rfl, nofun⟩
  · obtain rfl := Option.some.inj (hnext.symm.trans hd)
    rw [hread]
    refine ⟨pending_unlink h, rfl, fun x hx => ?_, fun x hx => ?_⟩
    · exact if_neg fun heq : x = d => hx (heq ▸ rfl)
    · obtain rfl := Work.death.inj hx
      simp [returned, setDeath, htype, command]
  · obtain rfl := Option.some.inj (hnext.symm.trans hd)
    rw [hread]
    refine ⟨?_, rfl, fun x hx => ?_, fun x hx => ?_⟩
    · rw [← pending_unlink h]
      simp [pending, returned, WorkLists.items_moveHead]
    · exact if_neg fun heq : x = d => hx (heq ▸ rfl)
    · obtain rfl := Work.death.inj hx
      have hcmd : command (s.deaths d).type = BR_DEAD_BINDER := by
        unfold command
        split
        · next heq => exact absurd heq htype
        · rfl
      simp [returned, setDeath, hcmd]

/-- A notification on a list of a process is told to it when the list is read. -/
theorem reads_tell {s : State} {proc thread d : Nat} {pre post : List Work}
    (hreleased : s.released proc = false)
    (hnodup : Work.death d ∉ pre) (h : pending s.lists proc thread = pre ++ .death d :: post) :
    ∃ t, after State.next (List.replicate (pre.length + 1) (.read proc thread true)) s = some t ∧
      (t.deaths d).told = (s.deaths d).told ++ [(proc, command (s.deaths d).type)] := by
  have hstep : ∀ s : State, s.released proc = false →
      State.next s (.read proc thread true) = some (s.read proc thread true) := by
    intro s hs
    exact if_neg (by simp [Action.proc, hs])
  induction pre generalizing s with
  | nil =>
    obtain ⟨-, -, -, htold⟩ := read_first h
    exact ⟨_, after_cons.mpr ⟨_, hstep s hreleased, rfl⟩, htold d rfl⟩
  | cons w pre ih =>
    obtain ⟨hpending, hsame, hother, -⟩ := read_first h
    have hd := hother d fun heq => hnodup (heq ▸ List.mem_cons_self)
    obtain ⟨t, ht, htold⟩ := ih (hsame ▸ hreleased)
      (fun hmem => hnodup (List.mem_cons_of_mem w hmem)) hpending
    exact ⟨t, after_cons.mpr ⟨_, hstep s hreleased, ht⟩, hd ▸ htold⟩

/-! ## What the processes are told -/

/-- What the processes that hold references are told, in a state between two steps. -/
structure State.Notified (s : State) : Prop where
  /-- A node has an owner only as long as that is there. -/
  owned : s.Owned
  /-- Nothing is told while the owner lives. -/
  alive : ∀ r ∈ s.refs, ∀ d, r.death = some d → s.node_proc r.node ≠ none →
    s.entry d = none ∧ (s.deaths d).told = []
  /-- The death is told once, or waits to be read, for each notification that is set. -/
  dead : ∀ r ∈ s.refs, ∀ d, r.death = some d → s.released r.proc = false →
    s.node_proc r.node = none → s.Due d r.proc
  /-- Each accepted clear is answered once, or the answer is to come. -/
  cleared : ∀ d, (s.deaths d).cleared = true → s.released (s.deaths d).proc = false →
    s.Answering d (s.deaths d).proc
  /-- Nothing is told twice, and nothing after the answer. -/
  told : ∀ d, Told (s.deaths d).proc (s.deaths d).told
  /-- What waits is told to a thread that reads. -/
  read : ∀ d proc type, s.released proc = false → s.Waits d proc type →
    ∃ thread n t, after State.next (List.replicate n (.read proc thread true)) s = some t ∧
      (t.deaths d).told = (s.deaths d).told ++ [(proc, command (some type))]

theorem State.Inv.notified {s : State} (h : s.Inv) (howned : s.Owned) : s.Notified where
  owned := howned
  alive r hr d hd := ((h.kept d).registered r hr hd).2.2.1
  dead r hr d hd hreleased hnode := ((h.kept d).registered r hr hd).2.2.2 hnode hreleased
  cleared d := (h.kept d).cleared
  told d := (h.kept d).told
  read d proc type hreleased := by
    rintro ⟨k, hk, htodo, htype⟩
    obtain ⟨thread, hin⟩ := mem_pending hk htodo
    obtain ⟨pre, post, hnot, hsplit⟩ := List.eq_append_cons_of_mem hin
    obtain ⟨t, ht, htold⟩ := reads_tell hreleased hsplit hnot
    exact ⟨thread, _, t, ht, htype ▸ htold⟩

/-- In every run whose steps meet the condition, no assertion fails, and every process is told
what it asked for. -/
theorem deaths_notified (as : List Action)
    (h : Along (fun s a => a.Meets s) State.next as initial) :
    ∃ s, after State.next as initial = some s ∧ s.Notified := by
  obtain ⟨s, hs, hinv, howned⟩ := along_total (I := fun s => s.Inv ∧ s.Owned)
    (fun s a hs ha => next_inv hs.1 hs.2 ha) as ⟨initial_inv, fun n p hn => nomatch hn⟩ h
  exact ⟨s, hs, hinv.notified howned⟩

/-- Two processes hold references to a node, and the older one asks for a notification; then
the owner is released. -/
def hiddenRun : List Action :=
  [.newNode 0 0, .getRefForNode 1 0, .getRefForNode 2 0, .request 1 10 0 7, .release 0]

theorem hiddenRun_isSome : (after State.next hiddenRun initial).isSome = true := by decide

/-- The loop ends at the newer reference, and the older one is told nothing. -/
theorem hiddenRun_not_notified :
    ∃ s, after State.next hiddenRun initial = some s ∧ s.refs = [⟨2, 0, none⟩, ⟨1, 0, some 0⟩] ∧
      s.node_proc 0 = none ∧ s.released 1 = false ∧ (s.deaths 0).told = [] ∧
      s.entry 0 = none ∧ ¬ s.Notified := by
  refine ⟨(after State.next hiddenRun initial).get hiddenRun_isSome, (Option.some_get _).symm,
    by decide, by decide, by decide, by decide, by decide, fun hnotified => ?_⟩
  have hdue := hnotified.dead ⟨1, 0, some 0⟩ (by decide) 0 rfl (by decide) (by decide)
  have hentry : ((after State.next hiddenRun initial).get hiddenRun_isSome).entry 0 = none := by
    decide
  rcases hdue with ⟨-, k, hk, -⟩ | ⟨htold, -⟩
  · exact absurd (hentry.symm.trans hk) nofun
  · exact absurd htold (by decide)

/-- A notification that is read, one that is cleared after the death and one that is asked for
afterwards. -/
def toldRun : List Action :=
  [.newNode 0 0, .getRefForNode 1 0, .getRefForNode 2 0, .request 1 10 0 7, .request 2 20 0 8,
    .release 0, .read 1 10 true, .clear 2 20 0 8, .read 2 20 true, .deadBinderDone 2 20 8,
    .getRefForNode 3 0, .enterLooper 3 30, .request 3 30 0 9]

theorem deaths_notified_toldRun :
    ∃ s, after State.next toldRun initial = some s ∧ s.Notified :=
  deaths_notified toldRun (by decide)

end Cdroid.Driver.Deaths
