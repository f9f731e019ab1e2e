import Cdroid.Driver.HandleTable
import Cdroid.Driver.Counts

/-! The trees of a process hold what the table of all references has of that process. -/

namespace Cdroid.Driver.References
open Cdroid.Lib Cdroid.Lib.SearchTree State Handles

variable {proc node : Nat} {s : State} {h : Handles}

/-- The trees have the references of the process. -/
structure Represents (proc : Nat) (s : State) (h : Handles) : Prop where
  inStep : h.InStep
  row : ∀ r, r ∈ s.refs.rows ∧ r.proc = proc ↔ ∃ x, h.Live x ∧ h.ref x = r

namespace Represents

theorem proc_eq (hr : Represents proc s h) {x : Nat} (hx : h.Live x) : (h.ref x).proc = proc :=
  ((hr.row _).mpr ⟨x, hx, rfl⟩).2

theorem mem (hr : Represents proc s h) {x : Nat} (hx : h.Live x) : h.ref x ∈ s.refs.rows :=
  ((hr.row _).mpr ⟨x, hx, rfl⟩).1

/-! ## What is found -/

theorem get_iff (hr : Represents proc s h) (r : binder_ref) :
    s.refs.get (proc, node) = some r ↔ ∃ x, h.Live x ∧ h.ref x = r ∧ r.node = node := by
  rw [Table.get_eq_some]
  constructor
  · rintro ⟨hmem, hkey⟩
    obtain ⟨x, hx, hxr⟩ := (hr.row r).mp ⟨hmem, congrArg Prod.fst hkey⟩
    exact ⟨x, hx, hxr, congrArg Prod.snd hkey⟩
  · rintro ⟨x, hx, rfl, hnode⟩
    exact ⟨hr.mem hx, Prod.ext (hr.proc_eq hx) hnode⟩

theorem getRef_iff (hr : Represents proc s h) (desc : BitVec 32) (r : binder_ref) :
    s.getRef proc desc = some r ↔ ∃ x, h.getRef desc = some x ∧ h.ref x = r := by
  unfold State.getRef
  rw [Table.lookup_eq_some]
  constructor
  · rintro ⟨hmem, hname⟩
    obtain ⟨hproc, hdesc⟩ := Prod.mk.inj (Option.some.inj hname)
    obtain ⟨x, hx, hxr⟩ := (hr.row r).mp ⟨hmem, hproc⟩
    exact ⟨x, (Handles.getRef_iff hr.inStep desc x).mpr ⟨hx, hxr ▸ hdesc⟩, hxr⟩
  · rintro ⟨x, hx, rfl⟩
    obtain ⟨hlive, hdesc⟩ := (Handles.getRef_iff hr.inStep desc x).mp hx
    exact ⟨hr.mem hlive, congrArg some (Prod.ext (hr.proc_eq hlive) hdesc)⟩

/-- Both have the descriptors in the same order. -/
theorem descs_eq (hr : Represents proc s h) : s.descs proc = h.descs := by
  have hsorted := descs_sorted hr.inStep
  have hnodup : h.descs.Nodup := hsorted.imp fun hlt heq => Nat.ne_of_lt hlt (congrArg _ heq)
  have hnodup' :
      ((s.refs.rows.filter fun r => r.proc = proc).map binder_ref.desc).Nodup := by
    unfold List.Nodup
    rw [List.pairwise_map]
    refine (s.refs.names.filter _).imp_of_mem fun {a b} ha hb hname heq => ?_
    have hproc : a.proc = proc := of_decide_eq_true (List.mem_filter.mp ha).2
    have hproc' : b.proc = proc := of_decide_eq_true (List.mem_filter.mp hb).2
    exact hname _ rfl (congrArg some (Prod.ext (hproc'.trans hproc.symm) heq.symm))
  have hsame : ∀ d, d ∈ (s.refs.rows.filter fun r => r.proc = proc).map binder_ref.desc ↔
      d ∈ h.descs := by
    intro d
    rw [mem_descs hr.inStep, List.mem_map]
    constructor
    · rintro ⟨r, hmem, hdesc⟩
      obtain ⟨hmem, hproc⟩ := List.mem_filter.mp hmem
      obtain ⟨x, hx, hxr⟩ := (hr.row r).mp ⟨hmem, of_decide_eq_true hproc⟩
      exact ⟨x, hx, hxr ▸ hdesc⟩
    · rintro ⟨x, hx, hdesc⟩
      exact ⟨h.ref x, List.mem_filter.mpr ⟨hr.mem hx, decide_eq_true (hr.proc_eq hx)⟩, hdesc⟩
  refine List.Perm.eq_of_pairwise (fun a b _ _ => BitVec.le_antisymm)
    (List.pairwise_insertionSort (· ≤ ·) _)
    (hsorted.imp fun hlt => BitVec.le_def.mpr (Nat.le_of_lt hlt)) ?_
  exact (List.perm_insertionSort _ _).trans
    ((List.perm_ext_iff_of_nodup hnodup' hnodup).mpr hsame)

/-! ## What is done -/

theorem get_none (hr : Represents proc s h) (hunknown : ∀ x, h.Live x → (h.ref x).node ≠ node) :
    s.refs.get (proc, node) = none := by
  rw [Option.eq_none_iff_forall_ne_some]
  intro r hget
  obtain ⟨x, hx, rfl, hnode⟩ := hr.get_iff r |>.mp hget
  exact hunknown x hx hnode

/-- The new reference is entered on both sides. -/
theorem addRef (hr : Represents proc s h) {h' : Handles} {new_ref : Nat} {r : binder_ref}
    (hentered : Entered h h' new_ref r) (hproc : r.proc = proc)
    (hnode : (s.nodes.get r.node).isSome) (hget : s.refs.get (proc, r.node) = none)
    (hdesc : s.getRef proc r.desc = none) : Represents proc (s.addRef r) h' := by
  have hfits : s.refs.fits r = true := by
    have hkey : r.key = (proc, r.node) := Prod.ext hproc rfl
    have hname : r.name = some (proc, r.desc) := congrArg some (Prod.ext hproc rfl)
    unfold State.getRef at hdesc
    unfold Table.fits
    rw [hkey, hget, hname, Option.all_some, hdesc]
    rfl
  have hrows : (s.addRef r).refs.rows = r :: s.refs.rows := by
    unfold State.addRef
    rw [dif_pos hnode]
    exact Table.rows_insert hfits
  refine ⟨hentered.inStep, fun q => ?_⟩
  rw [hrows, List.mem_cons]
  constructor
  · rintro ⟨rfl | hmem, hq⟩
    · exact ⟨new_ref, (hentered.live _).mpr (Or.inr rfl), hentered.ref⟩
    · obtain ⟨x, hx, hxq⟩ := (hr.row q).mp ⟨hmem, hq⟩
      exact ⟨x, (hentered.live x).mpr (Or.inl hx), (hentered.others x hx).trans hxq⟩
  · rintro ⟨x, hx, rfl⟩
    rcases (hentered.live x).mp hx with hold | rfl
    · rw [hentered.others x hold]
      exact ⟨Or.inr (hr.mem hold), hr.proc_eq hold⟩
    · rw [hentered.ref]
      exact ⟨Or.inl rfl, hproc⟩

/-- `binder_get_ref_for_node` does the same on the trees and on the table. -/
theorem getRefForNode (hr : Represents proc s h) (rb : Balance Nat)
    (hnode : (s.nodes.get node).isSome) {kzalloc : Option Nat} (hfresh : h.Fresh kzalloc)
    (halloc : s.allocOk = kzalloc.isSome) :
    (∀ bug, h.getRefForNode rb s.context_mgr_node proc node kzalloc = .error bug →
      s.getRefForNode proc node = .error bug) ∧
    ∀ x h', h.getRefForNode rb s.context_mgr_node proc node kzalloc = .ok (x, h') →
      ∃ s', s.getRefForNode proc node = .ok (x.map h'.ref, s') ∧ Represents proc s' h' := by
  unfold Handles.getRefForNode State.getRefForNode
  cases hfind : h.refs_by_node.find (h.byNode node) with
  | some x =>
    obtain ⟨hx, hxnode⟩ := (find_iff hr.inStep.by_node node x).mp hfind
    rw [(hr.get_iff (h.ref x)).mpr ⟨x, hx, rfl, hxnode⟩]
    refine ⟨fun bug hbug => (by cases hbug), fun y h' hok => ?_⟩
    cases hok
    exact ⟨s, rfl, hr⟩
  | none =>
    have hunknown : ∀ x, h.Live x → (h.ref x).node ≠ node := by
      intro x hx hxnode
      cases hfind.symm.trans ((find_iff hr.inStep.by_node node x).mpr ⟨hx, hxnode⟩)
    rw [hr.get_none hunknown, halloc]
    cases kzalloc with
    | none =>
      refine ⟨fun bug hbug => (by cases hbug), fun y h' hok => ?_⟩
      cases hok
      exact ⟨s.alloc, rfl, ⟨hr.inStep, hr.row⟩⟩
    | some new_ref =>
      have hr' : Represents proc s.alloc h := ⟨hr.inStep, hr.row⟩
      have hdescs : s.alloc.descs proc = h.descs := hr'.descs_eq
      have hfirst : s.alloc.firstDesc node = Handles.firstDesc s.context_mgr_node node := rfl
      dsimp only [Option.isSome_some]
      rw [if_pos rfl, hdescs, hfirst]
      generalize State.nextDesc (Handles.firstDesc s.context_mgr_node node) h.descs = desc
      by_cases hused : h.Used desc
      · obtain ⟨x, hx, hdesc⟩ := hused
        have hsome : (s.alloc.getRef proc desc).isSome := by
          rw [(hr'.getRef_iff desc (h.ref x)).mpr
            ⟨x, (Handles.getRef_iff hr.inStep desc x).mpr ⟨hx, hdesc⟩, rfl⟩]
          rfl
        rw [if_pos hsome]
        cases henter : h.enter rb new_ref ⟨proc, node, desc, 0, 0⟩ with
        | error bug =>
          refine ⟨fun b hb => ?_, fun y h' hok => (by cases hok)⟩
          cases hb
          unfold enter at henter
          split at henter
          · cases henter
          · cases henter
            rfl
        | ok u =>
          -- both have the same descriptor, but only one of them was there before
          have hentered := entered_of_enter hr.inStep (hfresh new_ref rfl) henter
          have hsame := hentered.inStep.wellFormed.one_desc x new_ref
            ((hentered.live x).mpr (Or.inl hx)) ((hentered.live _).mpr (Or.inr rfl))
            (by rw [hentered.others x hx, hentered.ref, hdesc])
          rw [hsame] at hx
          exact absurd hx (hfresh new_ref rfl)
      · have hdesc : s.alloc.getRef proc desc = none := by
          rw [Option.eq_none_iff_forall_ne_some]
          intro r hget
          obtain ⟨x, hx, rfl⟩ := (hr'.getRef_iff desc r).mp hget
          exact hused ⟨x, (Handles.getRef_iff hr.inStep desc x).mp hx⟩
        obtain ⟨u, henter, hentered⟩ := enter_entered hr.inStep rb new_ref
          (r := ⟨proc, node, desc, 0, 0⟩) (hfresh new_ref rfl) hunknown
          fun x hx heq => hused ⟨x, hx, heq⟩
        rw [henter, hdesc]
        refine ⟨fun bug hbug => (by cases hbug), fun y h' hok => ?_⟩
        cases hok
        refine ⟨_, ?_, hr'.addRef hentered rfl hnode (hr'.get_none hunknown) hdesc⟩
        rw [Option.map_some, hentered.ref]
        rfl

/-- `binder_delete_ref` takes the same reference out of the trees and of the table. -/
theorem deleteRef (hr : Represents proc s h) (rb : Balance Nat) {x : Nat} (hx : h.Live x) :
    Represents proc (s.deleteRef (proc, (h.ref x).node)) (h.deleteRef rb x) := by
  obtain ⟨hs, hlive⟩ := deleteRef_inStep hr.inStep rb x
  have hget : s.refs.get (proc, (h.ref x).node) = some (h.ref x) :=
    (hr.get_iff _).mpr ⟨x, hx, rfl, rfl⟩
  have hrows : (s.deleteRef (proc, (h.ref x).node)).refs.rows =
      s.refs.rows.filter fun r => r.key ≠ (proc, (h.ref x).node) := by
    unfold State.deleteRef
    rw [hget]
    dsimp only
    rw [refs_decNode]
    split
    · unfold eraseRef
      dsimp only
      rw [refs_decNode]
      rfl
    · rfl
  refine ⟨hs, fun r => ?_⟩
  rw [hrows, List.mem_filter, decide_eq_true_iff]
  constructor
  · rintro ⟨⟨hmem, hne⟩, hproc⟩
    obtain ⟨y, hy, rfl⟩ := (hr.row r).mp ⟨hmem, hproc⟩
    refine ⟨y, (hlive y).mpr ⟨hy, ?_⟩, rfl⟩
    rintro rfl
    exact hne (Prod.ext hproc rfl)
  · rintro ⟨y, hy, rfl⟩
    obtain ⟨hy, hne⟩ := (hlive y).mp hy
    refine ⟨⟨hr.mem hy, fun hkey => hne ?_⟩, hr.proc_eq hy⟩
    exact hr.inStep.wellFormed.one_node y x hy hx (congrArg Prod.snd hkey)

end Represents

end Cdroid.Driver.References
