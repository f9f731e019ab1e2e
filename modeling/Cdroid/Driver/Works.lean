import Cdroid.Lib.WorkLists

/-! The lists of work in the driver, and which item a thread that reads takes first. -/

namespace Cdroid.Driver
open Cdroid.Lib

/-- `proc->todo`, `thread->todo`, `proc->delivered_death` and `node->async_todo` -/
inductive WorkList
  | todo (proc : Nat)
  | threadTodo (proc thread : Nat)
  | delivered_death (proc : Nat)
  | async_todo (node : Nat)
  deriving DecidableEq

/-- The lists that the threads of a process take their work from. -/
def WorkList.IsTodo (proc : Nat) : WorkList → Prop
  | todo p => p = proc
  | threadTodo p _ => p = proc
  | _ => False

/-- The lists of the threads of a process. -/
def WorkList.isThreadTodoOf (proc : Nat) : WorkList → Bool
  | threadTodo p _ => p == proc
  | _ => false

variable {ι : Type}

/-- The item that `binder_thread_read` looks at: that of the thread comes before that of the
process. -/
def nextWork (l : WorkLists WorkList ι) (proc thread : Nat) (wait_for_proc_work : Bool) :
    Option ι :=
  match l.items (.threadTodo proc thread) with
  | w :: _ => some w
  | [] => if wait_for_proc_work then (l.items (.todo proc)).head? else none

/-- What a thread takes is on one of the lists that its process takes work from. -/
theorem on_of_nextWork {l : WorkLists WorkList ι} {proc thread : Nat} {wait_for_proc_work : Bool}
    {w : ι} (h : nextWork l proc thread wait_for_proc_work = some w) :
    ∃ k, l.on w = some k ∧ k.IsTodo proc := by
  unfold nextWork at h
  split at h
  · next rest hitems =>
    cases h
    exact ⟨.threadTodo proc thread, (l.mem_iff _ _).mpr (hitems ▸ List.mem_cons_self), rfl⟩
  · rw [Option.ite_none_right_eq_some] at h
    exact ⟨.todo proc, (l.mem_iff _ _).mpr (List.mem_of_head? h.2), rfl⟩

/-- What a thread that serves its process has before it. -/
def pending (l : WorkLists WorkList ι) (proc thread : Nat) : List ι :=
  l.items (.threadTodo proc thread) ++ l.items (.todo proc)

theorem nextWork_pending (l : WorkLists WorkList ι) (proc thread : Nat) :
    nextWork l proc thread true = (pending l proc thread).head? := by
  unfold nextWork pending
  split
  · next w ws h => simp [h]
  · next h => simp [h]

/-- What is on a list of the process is before one of its threads. -/
theorem mem_pending {l : WorkLists WorkList ι} {w : ι} {k : WorkList} {proc : Nat}
    (hk : l.on w = some k) (htodo : k.IsTodo proc) : ∃ thread, w ∈ pending l proc thread := by
  have hmem := (l.mem_iff w k).mp hk
  cases k with
  | todo p => exact ⟨0, List.mem_append_right _ (htodo ▸ hmem)⟩
  | threadTodo p t => exact ⟨t, List.mem_append_left _ (htodo ▸ hmem)⟩
  | delivered_death p => exact htodo.elim
  | async_todo n => exact htodo.elim

/-- An item is on one of the two lists only. -/
theorem pending_unlink [DecidableEq ι] {l : WorkLists WorkList ι} {proc thread : Nat} {w : ι}
    {ws : List ι} (h : pending l proc thread = w :: ws) :
    pending (l.unlink w) proc thread = ws := by
  unfold pending at h ⊢
  rw [WorkLists.items_unlink, WorkLists.items_unlink]
  cases hitems : l.items (.threadTodo proc thread) with
  | nil =>
    rw [hitems] at h
    rw [show l.items (.todo proc) = w :: ws from h]
    simp
  | cons x xs =>
    rw [hitems] at h
    obtain ⟨rfl, rfl⟩ := List.cons.inj h
    have hnot : x ∉ l.items (.todo proc) := by
      intro hmem
      have hon := (l.mem_iff x _).mpr (hitems ▸ List.mem_cons_self)
      exact absurd (hon.symm.trans ((l.mem_iff x _).mpr hmem)) nofun
    rw [List.erase_cons_head, List.erase_of_not_mem hnot]
    rfl

end Cdroid.Driver
