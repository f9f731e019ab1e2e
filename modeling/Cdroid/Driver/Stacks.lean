import Cdroid.Driver.ReadCodes

/-! The stacks of two-way transactions: how `binder_transaction`, `binder_thread_read`,
`binder_free_thread` and `binder_release_work` link threads and transactions, and who is told
of a failure. One-way transactions are other work here. Left out are the threads and processes
that messages name, the pointer of a buffer back to its transaction, and `BC_FREE_BUFFER`, which
clears it and the pointer of the transaction to the buffer. -/

namespace Cdroid.Driver.Stacks
open Cdroid.Lib
open Cdroid.Driver.ThreadRead (Errors BR_OK BR_DEAD_REPLY BR_FAILED_REPLY
  BR_TRANSACTION_COMPLETE)

/-- `target_node` tells that there is one: a reply has none. -/
structure binder_buffer where
  target_node : Bool
  deriving DecidableEq

/-- `struct binder_transaction`; `from_thread` is `from`. -/
structure binder_transaction where
  from_thread : Option Nat
  from_parent : Option Nat
  to_thread : Option Nat
  to_parent : Option Nat
  buffer : Option binder_buffer
  deriving DecidableEq

/-- `struct binder_thread` -/
structure binder_thread where
  proc : Nat
  transaction_stack : Option Nat
  errors : Errors

/-- An item of a list; that a transaction is complete is told under its `debug_id`. -/
inductive Work
  | transaction (t : Nat)
  | transaction_complete (t : Nat)
  | other (w : Nat)
  deriving DecidableEq

/-- What the sender of a call gets: `BR_REPLY`, or a code. -/
inductive Answer
  | reply
  | error (code : BitVec 32)
  deriving DecidableEq

/-- Threads and transactions are freed: `none` is what does not exist, or not any more. No code
reads the last two fields, who made a call and what has been answered to it. -/
structure State where
  threads : Nat → Option binder_thread
  transactions : Nat → Option binder_transaction
  lists : WorkLists WorkList Work
  released : Nat → Bool
  last_thread : Nat
  last_id : Nat
  callers : Nat → Option Nat
  answers : Nat → List Answer

namespace State
variable (s : State)

def initial : State where
  threads _ := none
  transactions _ := none
  lists := WorkLists.empty
  released _ := false
  last_thread := 0
  last_id := 0
  callers _ := none
  answers _ := []

def setThread (x : Nat) (th : Option binder_thread) : State :=
  { s with threads := fun y => if y = x then th else s.threads y }

def setTransaction (t : Nat) (tr : Option binder_transaction) : State :=
  { s with transactions := fun u => if u = t then tr else s.transactions u }

def unlink (w : Work) : State := { s with lists := s.lists.unlink w }

def answer (t : Nat) (a : Answer) : State :=
  { s with answers := fun u => if u = t then s.answers u ++ [a] else s.answers u }

/-! ## Answers -/

/-- `binder_pop_transaction`, or `none` where a `BUG_ON` fires or something freed is used -/
def popTransaction (target_thread : Option Nat) (t : Nat) : Option State :=
  match s.transactions t, target_thread with
  | none, _ => none
  | some _, none => some (s.setTransaction t none)
  | some tr, some x =>
    match s.threads x with
    | none => none
    | some th =>
      if th.transaction_stack = some t ∧ tr.from_thread = some x then
        some ((s.setThread x (some { th with transaction_stack := tr.from_parent })).setTransaction
          t none)
      else none

/-- `binder_send_failed_reply`, for at most so many transactions -/
def sendFailedReply : Nat → State → Nat → BitVec 32 → Option State
  | 0, _, _, _ => none
  | n + 1, s, t, error_code =>
    match s.transactions t with
    | none => none
    | some tr =>
      match tr.from_thread with
      | some x =>
        match s.threads x with
        | none => none
        | some th =>
          if th.errors.accepts then
            (s.popTransaction (some x) t).map fun s =>
              (s.setThread x (some { th with
                transaction_stack := tr.from_parent
                errors := th.errors.raise error_code })).answer t (.error error_code)
          else some s -- reply failed, target thread has an error code already
      | none =>
        match s.popTransaction none t, tr.from_parent with
        | none, _ => none
        | some s, none => some s -- no target thread at root
        | some s, some next => sendFailedReply n s next error_code

/-! ## `binder_transaction` -/

/-- The thread gets the code: the `BUG_ON` is for one that has not been read yet. -/
def fail (x : Nat) (return_error : BitVec 32) : Option State :=
  match s.threads x with
  | none => none
  | some th =>
    if th.errors.return_error = BR_OK then
      some (s.setThread x (some { th with errors := { th.errors with return_error } }))
    else none

/-- A reply that fails: the call that it was for is answered with the code. -/
def failReply (x in_reply_to : Nat) (return_error : BitVec 32) : Option State :=
  (s.fail x BR_TRANSACTION_COMPLETE).bind fun s =>
    sendFailedReply s.last_id s in_reply_to return_error

/-- The loop along `from_parent`: the last thread of the target process that is found. -/
def targetThread : Nat → State → Nat → Option Nat → Option Nat → Option (Option Nat)
  | _, _, _, none, target_thread => some target_thread
  | 0, _, _, some _, _ => none
  | n + 1, s, target_proc, some tmp, target_thread =>
    match s.transactions tmp with
    | none => none
    | some tr =>
      match tr.from_thread with
      | none => targetThread n s target_proc tr.from_parent target_thread
      | some y =>
        match s.threads y with
        | none => none
        | some th => targetThread n s target_proc tr.from_parent
            (if th.proc = target_proc then some y else target_thread)

/-- `target_list` -/
def targetList (target_proc : Nat) : Option Nat → WorkList
  | none => .todo target_proc
  | some target_thread => .threadTodo target_proc target_thread

/-- A transaction gets a `debug_id`, and goes to the end of its list. -/
def queue (x proc : Nat) (tr : binder_transaction) (target_list : WorkList) : State :=
  let t := s.last_id
  { s.setTransaction t (some tr) with
    lists := (s.lists.moveTail (.transaction t) target_list).moveTail (.transaction_complete t)
      (.threadTodo proc x)
    last_id := t + 1 }

/-- The call is accepted, or fails after its target has been found: there is no memory for it, or
its objects are bad. The code is `BR_FAILED_REPLY`, but `return_error` has not been set where the
cookie of an object is not that of its node. -/
def finishCall (x : Nat) (th : binder_thread) (target_proc : Nat) (target_thread : Option Nat) :
    Option (BitVec 32) → Option State
  | some return_error => s.fail x return_error
  | none =>
    let t := s.last_id
    some { (s.setThread x (some { th with transaction_stack := some t })).queue x th.proc
        { from_thread := some x
          from_parent := th.transaction_stack
          to_thread := target_thread
          to_parent := none
          buffer := some ⟨true⟩ } (targetList target_proc target_thread) with
      callers := fun u => if u = t then some x else s.callers u }

/-- What the handle stands for. -/
inductive Target
  | invalid_handle
  | no_context_mgr_node
  | node (proc : Nat)

/-- `BC_TRANSACTION` without `TF_ONE_WAY`. The loop over the commands ends when a code is to be
read. -/
def transaction (x : Nat) (target : Target) (failure : Option (BitVec 32)) : Option State :=
  match s.threads x with
  | none => some s
  | some th =>
    if th.errors.return_error ≠ BR_OK then some s
    else match target with
    | .invalid_handle => s.fail x BR_FAILED_REPLY
    | .no_context_mgr_node => s.fail x BR_DEAD_REPLY
    | .node target_proc =>
      if s.released target_proc then s.fail x BR_DEAD_REPLY
      else match th.transaction_stack with
      | none => s.finishCall x th target_proc none failure
      | some tmp =>
        match s.transactions tmp with
        | none => none
        | some tr =>
          if tr.to_thread ≠ some x then s.fail x BR_FAILED_REPLY -- bad transaction stack
          else (targetThread s.last_id s target_proc (some tmp) none).bind fun target_thread =>
            s.finishCall x th target_proc target_thread failure

/-- `BC_REPLY` -/
def reply (x : Nat) (failure : Option (BitVec 32)) : Option State :=
  match s.threads x with
  | none => some s
  | some th =>
    if th.errors.return_error ≠ BR_OK then some s
    else match th.transaction_stack with
    | none => s.fail x BR_FAILED_REPLY -- no transaction stack
    | some t =>
      match s.transactions t with
      | none => none
      | some tr =>
        if tr.to_thread ≠ some x then s.fail x BR_FAILED_REPLY -- bad transaction stack
        else
          let s := s.setThread x (some { th with transaction_stack := tr.to_parent })
          match tr.from_thread with
          | none => s.failReply x t BR_DEAD_REPLY
          | some y =>
            match s.threads y with
            | none => none
            | some target =>
              if target.transaction_stack ≠ some t then s.fail x BR_FAILED_REPLY -- bad target stack
              else match failure with
              | some return_error => s.failReply x t return_error
              | none => (s.popTransaction (some y) t).map fun s =>
                (s.answer t .reply).queue x th.proc
                  { from_thread := none
                    from_parent := none
                    to_thread := some y
                    to_parent := none
                    buffer := some ⟨false⟩ } (.threadTodo target.proc y)

/-! ## `binder_thread_read` -/

/-- The codes are read before any work, as far as there is room for them. Where the first one
takes all the room, it stays, and is read again. -/
def readErrors (e : Errors) (room : Nat) : Errors :=
  if e.return_error = BR_OK then e
  else if e.return_error2 = BR_OK then
    if room = 0 then e else { e with return_error := BR_OK }
  else match room with
  | 0 => e
  | 1 => e
  | _ => ⟨BR_OK, BR_OK⟩

def readCodes (x room : Nat) : State :=
  match s.threads x with
  | none => s
  | some th => s.setThread x (some { th with errors := readErrors th.errors room })

/-- The reader is told of the process that `from` belongs to. -/
def readTransaction (x : Nat) (th : binder_thread) (t : Nat) : Option State :=
  match s.transactions t with
  | none => none
  | some tr =>
    match tr.buffer with
    | none => none
    | some b =>
      if tr.from_thread.any fun y => (s.threads y).isNone then none
      else if b.target_node then
        some (((s.unlink (.transaction t)).setTransaction t (some { tr with
          to_parent := th.transaction_stack
          to_thread := some x })).setThread x (some { th with transaction_stack := some t }))
      else some ((s.unlink (.transaction t)).setTransaction t none)

/-- A round of the loop. The thread waits for the work of its process if it had nothing to do
when it began to wait; no other thread puts a transaction on its stack. -/
def read (x : Nat) (idle : Bool) : Option State :=
  match s.threads x with
  | none => some s
  | some th =>
    match nextWork s.lists th.proc x (th.transaction_stack.isNone && idle) with
    | none => some s
    | some (.transaction t) => s.readTransaction x th t
    | some w => some (s.unlink w)

/-! ## `binder_free_thread` and `binder_release_work` -/

/-- The loop over the stack of a thread, for at most so many transactions -/
def detach : Nat → State → Nat → Option Nat → Option State
  | _, s, _, none => some s
  | 0, _, _, some _ => none
  | n + 1, s, x, some t =>
    match s.transactions t with
    | none => none
    | some tr =>
      if tr.to_thread = some x then
        detach n (s.setTransaction t (some { tr with to_thread := none, buffer := none })) x
          tr.to_parent
      else if tr.from_thread = some x then
        detach n (s.setTransaction t (some { tr with from_thread := none })) x tr.from_parent
      else none

/-- Nothing is added to the list meanwhile. -/
def releaseWork : List Work → State → Option State
  | [], s => some s
  | .transaction t :: ws, s =>
    match s.transactions t with
    | none => none
    | some tr =>
      match tr.buffer with
      | none => none
      | some b =>
        if b.target_node then
          (sendFailedReply s.last_id (s.unlink (.transaction t)) t BR_DEAD_REPLY).bind
            (releaseWork ws)
        else releaseWork ws ((s.unlink (.transaction t)).setTransaction t none)
  | w :: ws, s => releaseWork ws (s.unlink w)

def freeThread (x : Nat) : Option State :=
  match s.threads x with
  | none => some s
  | some th =>
    let send_reply := th.transaction_stack.filter fun t =>
      (s.transactions t).any fun tr => tr.to_thread = some x
    (detach (2 * s.last_id) s x th.transaction_stack).bind fun s =>
      (send_reply.elim (some s) (sendFailedReply s.last_id s · BR_DEAD_REPLY)).bind fun s =>
          (releaseWork (s.lists.items (.threadTodo th.proc x)) s).map (·.setThread x none)

/-- `binder_deferred_release`, after the threads of the process have been freed -/
def release (proc : Nat) : Option State :=
  (releaseWork (s.lists.items (.todo proc)) s).map fun s =>
    { s with released := fun p => if p = proc then true else s.released p }

/-- `binder_get_thread` for a thread that has none -/
def newThread (proc : Nat) : State :=
  if s.released proc then s
  else { s.setThread s.last_thread (some ⟨proc, none, ⟨BR_OK, BR_OK⟩⟩) with
    last_thread := s.last_thread + 1 }

end State

/-! ## Runs -/

inductive Action
  | newThread (proc : Nat)
  | transaction (x : Nat) (target : State.Target) (failure : Option (BitVec 32))
  | reply (x : Nat) (failure : Option (BitVec 32))
  | readCodes (x room : Nat)
  | read (x : Nat) (idle : Bool)
  /-- Other work comes to a list. -/
  | post (w : Nat) (k : WorkList)
  | freeThread (x : Nat)
  | release (proc : Nat)

/-- The state after an action, or `none` where a `BUG` fires or something freed is used. -/
def next (s : State) : Action → Option State
  | .newThread proc => some (s.newThread proc)
  | .transaction x target failure => s.transaction x target failure
  | .reply x failure => s.reply x failure
  | .readCodes x room => some (s.readCodes x room)
  | .read x idle => s.read x idle
  | .post w k => some { s with lists := s.lists.moveTail (.other w) k }
  | .freeThread x => s.freeThread x
  | .release proc => s.release proc

end Cdroid.Driver.Stacks
