import Cdroid.Lib.Table
import Cdroid.Driver.Buffers
import Cdroid.Driver.Works
import Mathlib.Data.List.Sort
import Mathlib.Algebra.Group.Int.Defs

/-! Nodes and references in the driver: how they are counted, found, made and freed. -/

namespace Cdroid.Driver.References
open Cdroid.Lib

/-! ## Nodes -/

/-- `struct binder_node`, named by its address. `work` is the list that its work is on. -/
structure binder_node where
  addr : Nat
  proc : Option Nat
  ptr : BitVec 32
  cookie : BitVec 32
  internal_strong_refs : Int
  local_weak_refs : Int
  local_strong_refs : Int
  has_strong_ref : Bool
  has_weak_ref : Bool
  accept_fds : Bool
  min_priority : BitVec 8
  work : Option WorkList
  deriving DecidableEq

namespace binder_node

/-- The nodes of a process are found by their `ptr`. -/
def name (n : binder_node) : Option (Nat × BitVec 32) := n.proc.map (·, n.ptr)

/-- One more of a count, or one less. -/
def add (n : binder_node) (strong internal : Bool) (k : Int) : binder_node :=
  match strong, internal with
  | true, true => { n with internal_strong_refs := n.internal_strong_refs + k }
  | true, false => { n with local_strong_refs := n.local_strong_refs + k }
  | false, true => n
  | false, false => { n with local_weak_refs := n.local_weak_refs + k }

/-- `binder_inc_node`, and whether it succeeds. -/
def inc (n : binder_node) (is_context_mgr strong internal : Bool)
    (target_list : Option WorkList) : Bool × binder_node :=
  if strong then
    if internal && target_list.isNone && n.internal_strong_refs == 0 &&
        !(is_context_mgr && n.has_strong_ref) then (false, n)
    else
      let n := n.add true internal 1
      (true, if !n.has_strong_ref && target_list.isSome then { n with work := target_list } else n)
  else
    let n := n.add false internal 1
    if !n.has_weak_ref && n.work.isNone then
      match target_list with
      | none => (false, n)
      | some l => (true, { n with work := some l })
    else (true, n)

/-- Whether there is a count of the kind left. Every reference is weak as well. -/
def counted (n : binder_node) (referred strong : Bool) : Bool :=
  if strong then n.local_strong_refs != 0 || n.internal_strong_refs != 0
  else n.local_weak_refs != 0 || referred

theorem add_keeps (strong internal : Bool) (k : Int) (n : binder_node) :
    (n.add strong internal k).addr = n.addr ∧ (n.add strong internal k).name = n.name := by
  cases strong <;> cases internal <;> exact ⟨rfl, rfl⟩

theorem inc_keeps (is_context_mgr strong internal : Bool) (target_list : Option WorkList)
    (n : binder_node) :
    (n.inc is_context_mgr strong internal target_list).2.addr = n.addr ∧
      (n.inc is_context_mgr strong internal target_list).2.name = n.name := by
  have hadd := add_keeps strong internal 1 n
  unfold inc
  cases strong with
  | true =>
    rw [if_pos rfl]
    split
    · exact ⟨rfl, rfl⟩
    · dsimp only
      split
      · exact hadd
      · exact hadd
  | false =>
    rw [if_neg Bool.false_ne_true]
    dsimp only
    split
    · cases target_list with
      | none => exact hadd
      | some l => exact hadd
    · exact hadd

theorem queue_keeps (l : Option WorkList) (n : binder_node) :
    ({ n with work := l } : binder_node).addr = n.addr ∧
      ({ n with work := l } : binder_node).name = n.name := ⟨rfl, rfl⟩

end binder_node

/-! ## References -/

/-- `struct binder_ref`, without its death notification. -/
structure binder_ref where
  proc : Nat
  node : Nat
  desc : BitVec 32
  strong : Nat
  weak : Nat
  deriving DecidableEq

namespace binder_ref

/-- The place in `refs_by_node` of its process. -/
def key (r : binder_ref) : Nat × Nat := (r.proc, r.node)

/-- The place in `refs_by_desc` of its process. -/
def name (r : binder_ref) : Option (Nat × BitVec 32) := some (r.proc, r.desc)

def count (r : binder_ref) (strong : Bool) : Nat := if strong then r.strong else r.weak

def set (r : binder_ref) (strong : Bool) (k : Nat) : binder_ref :=
  if strong then { r with strong := k } else { r with weak := k }

theorem set_keeps (strong : Bool) (f : binder_ref → Nat) (r : binder_ref) :
    (r.set strong (f r)).key = r.key ∧ (r.set strong (f r)).name = r.name := by
  cases strong <;> exact ⟨rfl, rfl⟩

end binder_ref

/-! ## The driver -/

/-- The nodes and references of all processes, the buffers and open descriptors of each, and
what `kzalloc` gives when it is called next. A reference has its node. The descriptors that
the driver installed and those that it closed are told in order; no code reads that. -/
structure State where
  nodes : Table binder_node.addr binder_node.name
  refs : Table binder_ref.key binder_ref.name
  linked : ∀ p a, (refs.get (p, a)).isSome → (nodes.get a).isSome
  context_mgr_node : Option Nat
  procs : Nat → binder_proc
  files : Nat → List (BitVec 32)
  installed : List (Nat × BitVec 32)
  closed : List (Nat × BitVec 32)
  kzalloc : List Bool

namespace State

variable (s : State)

/-- `!hlist_empty(&node->refs)` -/
def referred (a : Nat) : Bool := s.refs.rows.any fun r => r.node = a

/-- `binder_get_node` -/
def getNode (proc : Nat) (ptr : BitVec 32) : Option binder_node := s.nodes.lookup (proc, ptr)

/-- `binder_get_ref` -/
def getRef (proc : Nat) (desc : BitVec 32) : Option binder_ref := s.refs.lookup (proc, desc)

def setNode (a : Nat) (f : binder_node → binder_node)
    (hf : ∀ n, (f n).addr = n.addr ∧ (f n).name = n.name) : State :=
  { s with
    nodes := s.nodes.modify a f hf
    linked := fun p b h => by
      rw [Table.get_modify]
      split
      · rw [Option.isSome_map]
        exact s.linked p b h
      · exact s.linked p b h }

def setRef (k : Nat × Nat) (f : binder_ref → binder_ref)
    (hf : ∀ r, (f r).key = r.key ∧ (f r).name = r.name) : State :=
  { s with
    refs := s.refs.modify k f hf
    linked := fun p b h => by
      rw [Table.get_modify] at h
      refine s.linked p b ?_
      split at h
      · rwa [Option.isSome_map] at h
      · exact h }

/-! ## Counting -/

/-- `binder_inc_node` -/
def incNode (a : Nat) (strong internal : Bool) (target_list : Option WorkList) : State :=
  s.setNode a (fun n => (n.inc (s.context_mgr_node = some a) strong internal target_list).2)
    (binder_node.inc_keeps _ strong internal target_list)

/-- What `binder_inc_node` returns. -/
def incNodeOk (a : Nat) (strong internal : Bool) (target_list : Option WorkList) : Bool :=
  match s.nodes.get a with
  | some n => (n.inc (s.context_mgr_node = some a) strong internal target_list).1
  | none => false

/-- A node that nothing refers to is freed. -/
def freeNode (a : Nat) : State :=
  if h : s.referred a then s
  else
    { s with
      nodes := s.nodes.erase a
      linked := fun p b hb => by
        rw [Table.get_erase]
        split
        · next hab =>
          obtain ⟨r, hr⟩ := Option.isSome_iff_exists.mp hb
          obtain ⟨hmem, hkey⟩ := Table.get_eq_some.mp hr
          refine absurd (List.any_eq_true.mpr ⟨r, hmem, ?_⟩) h
          rw [decide_eq_true_iff, ← hab]
          exact congrArg Prod.snd hkey
        · exact s.linked p b hb }

/-- The rest of `binder_dec_node`, when the count is one less: where no count of the kind is
left, the owner is told, or the node is freed. -/
def settleNode (a : Nat) (strong : Bool) : State :=
  match s.nodes.get a with
  | none => s
  | some n =>
    if n.counted (s.referred a) strong then s
    else if n.proc.isSome ∧ (n.has_strong_ref ∨ n.has_weak_ref) then
      if n.work.isNone then
        s.setNode a (fun x => { x with work := n.proc.map .todo }) (binder_node.queue_keeps _)
      else s
    else if ¬s.referred a ∧ n.local_strong_refs = 0 ∧ n.local_weak_refs = 0 then s.freeNode a
    else s

/-- `binder_dec_node` -/
def decNode (a : Nat) (strong internal : Bool) : State :=
  (s.setNode a (·.add strong internal (-1)) (binder_node.add_keeps strong internal (-1))).settleNode
    a strong

/-- `binder_inc_ref` -/
def incRef (k : Nat × Nat) (strong : Bool) (target_list : Option WorkList) : State :=
  match s.refs.get k with
  | none => s
  | some r =>
    if r.count strong ≠ 0 then
      s.setRef k (fun r => r.set strong (r.count strong + 1)) (binder_ref.set_keeps strong _)
    else
      let t := s.incNode r.node strong true target_list
      if s.incNodeOk r.node strong true target_list then
        t.setRef k (fun r => r.set strong (r.count strong + 1)) (binder_ref.set_keeps strong _)
      else t

/-- The reference is taken out of its trees and of the list of its node. -/
def eraseRef (k : Nat × Nat) : State :=
  { s with
    refs := s.refs.erase k
    linked := fun p b h => by
      rw [Table.get_erase] at h
      split at h
      · cases h
      · exact s.linked p b h }

/-- `binder_delete_ref` -/
def deleteRef (k : Nat × Nat) : State :=
  match s.refs.get k with
  | none => s
  | some r =>
    let s := if r.strong ≠ 0 then s.decNode r.node true true else s
    (s.eraseRef k).decNode r.node false true

/-- `binder_dec_ref` -/
def decRef (k : Nat × Nat) (strong : Bool) : State :=
  match s.refs.get k with
  | none => s
  | some r =>
    if r.count strong = 0 then s
    else
      let less := r.set strong (r.count strong - 1)
      let s := s.setRef k (fun r => r.set strong (r.count strong - 1))
        (binder_ref.set_keeps strong _)
      let s := if strong ∧ less.strong = 0 then s.decNode r.node true true else s
      if less.strong = 0 ∧ less.weak = 0 then s.deleteRef k else s

/-! ## New nodes and references -/

/-- `kzalloc` is called, and whether it gives anything. -/
def alloc : State := { s with kzalloc := s.kzalloc.tail }

def allocOk : Bool := s.kzalloc.headD true

/-- An address that is not in use. -/
def fresh : Nat := (s.nodes.rows.map binder_node.addr).foldr max 0 + 1

def addNode (n : binder_node) : State :=
  { s with
    nodes := s.nodes.insert n
    linked := fun p b h => by
      cases hfits : s.nodes.fits n with
      | false =>
        rw [Table.insert_of_not_fits hfits]
        exact s.linked p b h
      | true =>
        rw [Table.get_insert hfits]
        split
        · rfl
        · exact s.linked p b h }

/-- `desc` starts at 0 or 1 and goes past the descriptors in use, until there is a gap. -/
def nextDesc (desc : BitVec 32) : List (BitVec 32) → BitVec 32
  | [] => desc
  | d :: ds => if desc < d then desc else nextDesc (d + 1) ds

/-- Descriptor 0 is for the context manager. -/
def firstDesc (a : Nat) : BitVec 32 := if s.context_mgr_node = some a then 0 else 1

/-- The descriptors of a process, in their order. -/
def descs (proc : Nat) : List (BitVec 32) :=
  ((s.refs.rows.filter fun r => r.proc = proc).map binder_ref.desc).insertionSort (· ≤ ·)

/-- A reference to a node that is there is entered. -/
def addRef (r : binder_ref) : State :=
  if h : (s.nodes.get r.node).isSome then
    { s with
      refs := s.refs.insert r
      linked := fun p b hb => by
        cases hfits : s.refs.fits r with
        | false =>
          rw [Table.insert_of_not_fits hfits] at hb
          exact s.linked p b hb
        | true =>
          rw [Table.get_insert hfits] at hb
          split at hb
          · next hkey =>
            have hnode : r.node = b := congrArg Prod.snd hkey
            rw [← hnode]
            exact h
          · exact s.linked p b hb }
  else s

/-- `binder_get_ref_for_node`; where the descriptor is taken, `BUG()` is called. -/
def getRefForNode (proc a : Nat) : Except Bug (Option binder_ref × State) :=
  match s.refs.get (proc, a) with
  | some r => pure (some r, s)
  | none =>
    if s.allocOk then
      let s := s.alloc
      let desc := nextDesc (s.firstDesc a) (s.descs proc)
      if (s.getRef proc desc).isSome then .error .assertion
      else
        let r : binder_ref := ⟨proc, a, desc, 0, 0⟩
        pure (some r, s.addRef r)
    else pure (none, s.alloc)

end State

end Cdroid.Driver.References
