import Cdroid.Driver.Deaths
import Cdroid.Lib.Comp

/-! `binder_thread_read`: the codes of failed transactions and the work of a thread and its
process, written into the buffer of the reader. The lock is given up while a thread waits. -/

namespace Cdroid.Driver.ThreadRead
open Cdroid.Lib Cdroid.Lib.Comp
open Cdroid.Driver.Deaths (WorkType)

/-! ## Commands -/

/-- `_IO('r', nr)` and `_IOR('r', nr, type)`; the size is that of the type. -/
def returnCode (dir : BitVec 2) (size : BitVec 14) (nr : BitVec 8) : BitVec 32 :=
  dir ++ size ++ 0x72#8 ++ nr

/-- `_IOC_SIZE` -/
def iocSize (cmd : BitVec 32) : Nat := (cmd.extractLsb' 16 14).toNat

def BR_OK : BitVec 32 := returnCode 0 0 1
def BR_TRANSACTION : BitVec 32 := returnCode 2 40 2
def BR_REPLY : BitVec 32 := returnCode 2 40 3
def BR_DEAD_REPLY : BitVec 32 := returnCode 0 0 5
def BR_TRANSACTION_COMPLETE : BitVec 32 := returnCode 0 0 6
def BR_INCREFS : BitVec 32 := returnCode 2 8 7
def BR_ACQUIRE : BitVec 32 := returnCode 2 8 8
def BR_RELEASE : BitVec 32 := returnCode 2 8 9
def BR_DECREFS : BitVec 32 := returnCode 2 8 10
def BR_NOOP : BitVec 32 := returnCode 0 0 12
def BR_SPAWN_LOOPER : BitVec 32 := returnCode 0 0 13
def BR_DEAD_BINDER : BitVec 32 := returnCode 2 4 15
def BR_CLEAR_DEATH_NOTIFICATION_DONE : BitVec 32 := returnCode 2 4 16
def BR_FAILED_REPLY : BitVec 32 := returnCode 0 0 17

def TF_ONE_WAY : BitVec 32 := 0x01

/-- `struct binder_transaction_data`, as the reader gets it. All its parts are words. -/
structure binder_transaction_data where
  target : BitVec 32
  cookie : BitVec 32
  code : BitVec 32
  flags : BitVec 32
  sender_pid : BitVec 32
  sender_euid : BitVec 32
  data_size : BitVec 32
  offsets_size : BitVec 32
  buffer : BitVec 32
  offsets : BitVec 32

def binder_transaction_data.words (tr : binder_transaction_data) : List (BitVec 32) :=
  [tr.target, tr.cookie, tr.code, tr.flags, tr.sender_pid, tr.sender_euid, tr.data_size,
    tr.offsets_size, tr.buffer, tr.offsets]

/-- An item of a todo list: `BINDER_WORK_TRANSACTION`, `BINDER_WORK_TRANSACTION_COMPLETE`,
`BINDER_WORK_NODE`, or that of a death notification, which keeps the type. -/
inductive Work
  | transaction (t : Nat)
  | transaction_complete (i : Nat)
  | node (n : Nat)
  | death (d : Nat)
  deriving DecidableEq

/-- What a command is written for. -/
inductive Origin
  | noop
  | spawn_looper
  | error
  | work (w : Work)
  deriving DecidableEq

structure Command where
  origin : Origin
  cmd : BitVec 32
  args : List (BitVec 32)
  deriving DecidableEq

def Command.words (c : Command) : List (BitVec 32) := c.cmd :: c.args

/-! ## The driver -/

/-- `struct binder_node`: `refs` tells that the list of its references is not empty, and
`freed` that it has been erased. -/
structure binder_node where
  ptr : BitVec 32
  cookie : BitVec 32
  refs : Bool
  internal_strong_refs : Int
  local_weak_refs : Int
  local_strong_refs : Int
  has_strong_ref : Bool
  pending_strong_ref : Bool
  has_weak_ref : Bool
  pending_weak_ref : Bool
  min_priority : Int
  freed : Bool

namespace binder_node
variable (n : binder_node)

def strong : Bool := n.internal_strong_refs != 0 || n.local_strong_refs != 0

def weak : Bool := n.refs || n.local_weak_refs != 0 || n.strong

/-- The command for a node, `BR_NOOP` if it has none, and the node that has been told of. -/
def tell : BitVec 32 × binder_node :=
  if n.weak && !n.has_weak_ref then
    (BR_INCREFS, { n with
      has_weak_ref := true
      pending_weak_ref := true
      local_weak_refs := n.local_weak_refs + 1 })
  else if n.strong && !n.has_strong_ref then
    (BR_ACQUIRE, { n with
      has_strong_ref := true
      pending_strong_ref := true
      local_strong_refs := n.local_strong_refs + 1 })
  else if !n.strong && n.has_strong_ref then (BR_RELEASE, { n with has_strong_ref := false })
  else if !n.weak && n.has_weak_ref then (BR_DECREFS, { n with has_weak_ref := false })
  else (BR_NOOP, n)

end binder_node

/-- `struct binder_buffer`; `transaction` tells that it has one. -/
structure binder_buffer where
  target_node : Option Nat
  data_size : BitVec 64
  offsets_size : BitVec 64
  data : BitVec 64
  allow_user_free : Bool
  transaction : Bool

/-- `struct binder_transaction`; of the thread that it is from, the pid as the reader sees it. -/
structure binder_transaction where
  sender_pid : Option (BitVec 32)
  to_parent : Option Nat
  to_thread : Option Nat
  buffer : Option binder_buffer
  code : BitVec 32
  flags : BitVec 32
  priority : Int
  saved_priority : Int
  sender_euid : BitVec 32

structure binder_ref_death where
  type : WorkType
  cookie : BitVec 32

def BINDER_LOOPER_STATE_REGISTERED : BitVec 32 := 0x01
def BINDER_LOOPER_STATE_ENTERED : BitVec 32 := 0x02
def BINDER_LOOPER_STATE_WAITING : BitVec 32 := 0x10
def BINDER_LOOPER_STATE_NEED_RETURN : BitVec 32 := 0x20

/-- The thread that reads and its process, without the codes; `nice` is that of the task. -/
structure Binder where
  nodes : Nat → binder_node
  transactions : Nat → binder_transaction
  deaths : Nat → binder_ref_death
  lists : WorkLists WorkList Work
  transaction_stack : Option Nat
  looper : BitVec 32
  max_threads : Int
  requested_threads : Int
  requested_threads_started : Int
  ready_threads : Int
  default_priority : Int
  user_buffer_offset : BitVec 64
  nice : Int

namespace Binder
variable (s : Binder)

def setNode (n : Nat) (x : binder_node) : Binder :=
  { s with nodes := fun i => if i = n then x else s.nodes i }

def setTransaction (t : Nat) (f : binder_transaction → binder_transaction) : Binder :=
  { s with transactions := fun i => if i = t then f (s.transactions i) else s.transactions i }

def needReturn : Bool := s.looper &&& BINDER_LOOPER_STATE_NEED_RETURN != 0

/-- `binder_has_proc_work` -/
def hasProcWork (proc : Nat) : Bool := s.lists.items (.todo proc) != [] || s.needReturn

/-- What a transaction is read as: `BR_TRANSACTION` where there is a node, `BR_REPLY` else. -/
def transactionCommand (x : binder_transaction) (b : binder_buffer) :
    BitVec 32 × binder_transaction_data :=
  let (cmd, target, cookie) := match b.target_node with
    | some n => (BR_TRANSACTION, (s.nodes n).ptr, (s.nodes n).cookie)
    | none => (BR_REPLY, 0, 0)
  let buffer := (b.data + s.user_buffer_offset).setWidth 32
  -- `ALIGN(data_size, sizeof(binder_ptr))`
  let aligned := (b.data_size + 3) &&& ~~~3
  (cmd, { target, cookie, code := x.code, flags := x.flags, sender_pid := x.sender_pid.getD 0,
          sender_euid := x.sender_euid, data_size := b.data_size.setWidth 32,
          offsets_size := b.offsets_size.setWidth 32, buffer
          offsets := buffer + aligned.setWidth 32 })

def deathCommand : WorkType → BitVec 32
  | .BINDER_WORK_CLEAR_DEATH_NOTIFICATION => BR_CLEAR_DEATH_NOTIFICATION_DONE
  | _ => BR_DEAD_BINDER

/-- The command that an item calls for. A node may have none, and there is none without a
buffer. -/
def due : Work → Option Command
  | .transaction t => (s.transactions t).buffer.map fun b =>
    let c := s.transactionCommand (s.transactions t) b
    ⟨.work (.transaction t), c.1, c.2.words⟩
  | .transaction_complete i =>
    some ⟨.work (.transaction_complete i), BR_TRANSACTION_COMPLETE, []⟩
  | .node n =>
    let x := s.nodes n
    if x.tell.1 = BR_NOOP then none
    else some ⟨.work (.node n), x.tell.1, [x.ptr, x.cookie]⟩
  | .death d =>
    some ⟨.work (.death d), deathCommand (s.deaths d).type, [(s.deaths d).cookie]⟩

end Binder

/-- The codes that a thread has to be told of: `BR_OK` stands for none. -/
structure Errors where
  return_error : BitVec 32
  return_error2 : BitVec 32

namespace Errors
variable (e : Errors)

/-- `binder_send_failed_reply`, at a thread that has not been released. With one code set, the
second place takes it; with two, the code is lost. -/
def raise (error_code : BitVec 32) : Errors :=
  let e := if e.return_error ≠ BR_OK ∧ e.return_error2 = BR_OK then ⟨BR_OK, e.return_error⟩ else e
  if e.return_error = BR_OK then { e with return_error := error_code } else e

/-- A code that is raised finds a place. -/
def accepts : Bool := e.return_error = BR_OK ∨ e.return_error2 = BR_OK

/-- The codes, in the order in which they are read. -/
def pending : List (BitVec 32) := [e.return_error2, e.return_error].filter (· ≠ BR_OK)

end Errors

structure State where
  binder : Binder
  errors : Errors

/-- What other threads do to the driver: the codes that they raise for the thread, and the rest. -/
structure Meanwhile where
  raised : List (BitVec 32)
  act : Binder → Binder

/-- What they do while the lock is given up: until the wait is over, and from then on until the
thread has the lock again, in which they can take what it has been woken for. -/
structure Others where
  waiting : Meanwhile
  waking : Meanwhile

def Others.raised (o : Others) : List (BitVec 32) := o.waiting.raised ++ o.waking.raised

/-! ## The call -/

/-- Who reads, the arguments, where the memory of the reader can be written, which nice
values the task may take, and what others do each time the thread waits. Offsets are from
the start of the buffer. -/
structure Call where
  proc : Nat
  thread : Nat
  size : BitVec 32
  consumed : BitVec 64
  non_block : Bool
  writable : Int → Bool
  can_nice : Int → Bool
  rlim_nice : Int
  others : List Others

/-- How far a call has come: `stores` has the words in the order in which they are stored. No
code reads the last three fields: the commands that have been written, what was due for the
items that were removed, and the codes that found a place. -/
structure Progress where
  state : State
  ptr : Int
  consumed : Int
  stores : List (Int × BitVec 32)
  written : List (Int × Command)
  removed : List (Work × Option Command)
  raised : List (BitVec 32)

/-- The call ends with `-EFAULT`, or a `BUG`, or has not come back yet. -/
inductive Fault
  | EFAULT
  | BUG
  | asleep
  deriving DecidableEq

inductive Ret
  | OK
  | EAGAIN
  deriving DecidableEq

/-- How a round of the loop ends. -/
inductive Next
  | again
  | done
  | retry
  deriving DecidableEq

abbrev Act := EStateM Fault Progress

def Progress.onBinder (p : Progress) (f : Binder → Binder) : Progress :=
  { p with state := { p.state with binder := f p.state.binder } }

def Progress.onErrors (p : Progress) (f : Errors → Errors) : Progress :=
  { p with state := { p.state with errors := f p.state.errors } }

/-- What was due for the item is looked up as it is removed. -/
def Progress.remove (p : Progress) (w : Work)
    (f : WorkLists WorkList Work → WorkLists WorkList Work) : Progress :=
  { p.onBinder fun s => { s with lists := f s.lists } with
    removed := p.removed ++ [(w, p.state.binder.due w)] }

def onBinder (f : Binder → Binder) : Act PUnit := modify (·.onBinder f)

def onErrors (f : Errors → Errors) : Act PUnit := modify (·.onErrors f)

/-- `list_del`, `list_del_init` and `list_move` -/
def remove (w : Work) (f : WorkLists WorkList Work → WorkLists WorkList Work) : Act PUnit :=
  modify (·.remove w f)

/-- `binder_set_nice` -/
def Call.nice (c : Call) (nice : Int) : Int := if c.can_nice nice then nice else 20 - c.rlim_nice

/-- `put_user(val, ptr); ptr += sizeof(val)`; `copy_to_user` does so for each word. -/
def put (c : Call) (val : BitVec 32) : Act PUnit := do
  let p ← get
  if c.writable p.ptr then
    modify fun p => { p with stores := p.stores ++ [(p.ptr, val)], ptr := p.ptr + 4 }
  else throw .EFAULT

def putCommand (c : Call) (cmd : Command) : Act PUnit := do
  let p ← get
  each (put c) cmd.words
  modify fun q => { q with written := q.written ++ [(p.ptr, cmd)] }

/-! ## Work -/

def readComplete (c : Call) (i : Nat) : Act PUnit := do
  putCommand c ⟨.work (.transaction_complete i), BR_TRANSACTION_COMPLETE, []⟩
  remove (.transaction_complete i) (·.unlink (.transaction_complete i))

/-- A node is told of before its command is written, and stays on the list until it has
nothing to tell. -/
def readNode (c : Call) (n : Nat) : Act PUnit := do
  let p ← get
  let x := p.state.binder.nodes n
  if x.tell.1 ≠ BR_NOOP then
    onBinder (·.setNode n x.tell.2)
    putCommand c ⟨.work (.node n), x.tell.1, [x.ptr, x.cookie]⟩
  else
    remove (.node n) (·.unlink (.node n))
    when (!x.weak && !x.strong) (onBinder (·.setNode n { x with freed := true }))

def readDeath (c : Call) (d : Nat) : Act Next := do
  let p ← get
  let death := p.state.binder.deaths d
  putCommand c ⟨.work (.death d), Binder.deathCommand death.type, [death.cookie]⟩
  if death.type = .BINDER_WORK_CLEAR_DEATH_NOTIFICATION then
    remove (.death d) (·.unlink (.death d))
    pure .again
  else
    remove (.death d) (·.moveHead (.death d) (.delivered_death c.proc))
    pure .done

def isOneWay (x : binder_transaction) : Bool := x.flags &&& TF_ONE_WAY != 0

/-- For a node, the priority of the task is saved, and set to that of the transaction or to
that of the node. -/
def Call.setPriority (c : Call) (t : Nat) (target_node : Option Nat) (s : Binder) : Binder :=
  match target_node with
  | none => s
  | some n =>
    let x := s.transactions t
    let min_priority := (s.nodes n).min_priority
    let saved := s.setTransaction t fun x => { x with saved_priority := s.nice }
    if x.priority < min_priority ∧ !isOneWay x then { saved with nice := c.nice x.priority }
    else if !isOneWay x ∨ s.nice > min_priority then { saved with nice := c.nice min_priority }
    else saved

/-- A call goes on the stack of the thread. A reply, or a call that is one-way, is over. -/
def handOver (c : Call) (t : Nat) (cmd : BitVec 32) (x : binder_transaction)
    (b : binder_buffer) : Act PUnit :=
  onBinder fun s =>
    if cmd = BR_TRANSACTION ∧ !isOneWay x then
      { s.setTransaction t fun x => { x with
          buffer := some { b with allow_user_free := true }
          to_parent := s.transaction_stack
          to_thread := some c.thread } with
        transaction_stack := some t }
    else
      s.setTransaction t fun x =>
        { x with buffer := some { b with allow_user_free := true, transaction := false } }

def readTransaction (c : Call) (t : Nat) : Act PUnit := do
  let p ← get
  let x := p.state.binder.transactions t
  match x.buffer with
  | none => throw .BUG
  | some b =>
    onBinder (c.setPriority t b.target_node)
    let cmd := p.state.binder.transactionCommand x b
    putCommand c ⟨.work (.transaction t), cmd.1, cmd.2.words⟩
    remove (.transaction t) (·.unlink (.transaction t))
    handOver c t cmd.1 x b

def serve (c : Call) : Work → Act Next
  | .transaction t => do readTransaction c t; pure .done
  | .transaction_complete i => do readComplete c i; pure .again
  | .node n => do readNode c n; pure .again
  | .death d => readDeath c d

/-- `end - ptr < sizeof(tr) + 4`: the difference is made unsigned for that. -/
def Call.full (c : Call) (ptr : Int) : Bool := BitVec.ofInt 64 (c.size.toInt - ptr) < 44

/-- One round of the loop. -/
def round (c : Call) (wait_for_proc_work : Bool) : Act Next := do
  let p ← get
  match nextWork p.state.binder.lists c.proc c.thread wait_for_proc_work with
  | none => pure (if p.ptr = 4 ∧ !p.state.binder.needReturn then .retry else .done)
  | some w => if c.full p.ptr then pure .done else serve c w

/-- At most so many rounds. -/
def work (c : Call) (wait_for_proc_work : Bool) : Nat → Act Next
  | 0 => throw .asleep
  | n + 1 => do
    let next ← round c wait_for_proc_work
    if next = .again then work c wait_for_proc_work n else pure next

/-- An item takes one round, a node at most three. -/
def Call.rounds (c : Call) (s : Binder) : Nat :=
  3 * ((s.lists.items (.threadTodo c.proc c.thread)).length +
    (s.lists.items (.todo c.proc)).length) + 1

/-! ## Codes and sleep -/

def putError (c : Call) : Act PUnit := do
  let p ← get
  putCommand c ⟨.error, p.state.errors.return_error, []⟩
  onErrors fun e => { e with return_error := BR_OK }

/-- If the first code takes the rest of the buffer, it is not cleared. -/
def putErrors (c : Call) : Act PUnit := do
  let p ← get
  if p.state.errors.return_error2 ≠ BR_OK then
    putCommand c ⟨.error, p.state.errors.return_error2, []⟩
    let q ← get
    when (q.ptr ≠ c.size.toInt) do
      onErrors fun e => { e with return_error2 := BR_OK }
      putError c
  else putError c

def Progress.spawned (p : Progress) : Progress :=
  { p with
    stores := p.stores ++ [(0, BR_SPAWN_LOOPER)]
    written := p.written ++ [(0, ⟨.spawn_looper, BR_SPAWN_LOOPER, []⟩)] }

/-- `put_user(BR_SPAWN_LOOPER, buffer)` -/
def putSpawn (c : Call) : Act PUnit :=
  if c.writable 0 then modify (·.spawned) else throw .EFAULT

/-- There is no thread that waits for work or has been asked for, and there may be more. -/
def Binder.wantsLooper (s : Binder) : Bool :=
  s.requested_threads + s.ready_threads = 0 ∧ s.requested_threads_started < s.max_threads ∧
    s.looper &&& (BINDER_LOOPER_STATE_REGISTERED ||| BINDER_LOOPER_STATE_ENTERED) ≠ 0

/-- From `done` on. -/
def finish (c : Call) : Act Ret := do
  modify fun p => { p with consumed := p.ptr }
  let p ← get
  when (p.state.binder.wantsLooper) do
    onBinder fun s => { s with requested_threads := s.requested_threads + 1 }
    putSpawn c
  pure .OK

/-- A code is raised for the thread. -/
def Progress.raise (p : Progress) (code : BitVec 32) : Progress :=
  { p.onErrors (·.raise code) with
    raised := if p.state.errors.accepts then p.raised ++ [code] else p.raised }

def raise (code : BitVec 32) : Act PUnit := modify (·.raise code)

def meanwhile (m : Meanwhile) : Act PUnit := do
  each raise m.raised
  onBinder m.act

/-- `binder_has_thread_work` -/
def State.hasThreadWork (s : State) (proc thread : Nat) : Bool :=
  s.binder.lists.items (.threadTodo proc thread) != [] || s.errors.return_error != BR_OK ||
    s.binder.needReturn

/-- What the wait is for. -/
def Call.awake (c : Call) (wait_for_proc_work : Bool) (s : State) : Bool :=
  if wait_for_proc_work then s.binder.hasProcWork c.proc else s.hasThreadWork c.proc c.thread

/-- The lock is given up, and taken again when the wait is over: that there was something to do is
found out without it. -/
def sleep (c : Call) (wait_for_proc_work : Bool) (o : Others) : Act Bool := do
  onBinder fun s => { s with
    looper := s.looper ||| BINDER_LOOPER_STATE_WAITING
    ready_threads := if wait_for_proc_work then s.ready_threads + 1 else s.ready_threads
    nice := if wait_for_proc_work then c.nice s.default_priority else s.nice }
  meanwhile o.waiting
  let p ← get
  meanwhile o.waking
  onBinder fun s => { s with
    looper := s.looper &&& ~~~BINDER_LOOPER_STATE_WAITING
    ready_threads := if wait_for_proc_work then s.ready_threads - 1 else s.ready_threads }
  pure (c.awake wait_for_proc_work p.state)

/-- Codes are written first, and end the call. -/
def errorsOr (c : Call) (sleeping : Bool → Act Ret) : Act Ret := do
  let p ← get
  let s := p.state.binder
  if p.state.errors.return_error ≠ BR_OK ∧ p.ptr < c.size.toInt then
    putErrors c
    finish c
  else sleeping (s.transaction_stack = none ∧ s.lists.items (.threadTodo c.proc c.thread) = [])

/-- From `retry` on. A wait that is over with nothing to do was ended by a signal, for which
zero is returned, or was none, also if there is something to do by the time of the lock. -/
def retry (c : Call) : List Others → Act Ret
  | [] => errorsOr c fun _ => throw .asleep
  | o :: os => errorsOr c fun wait_for_proc_work => do
    if ← sleep c wait_for_proc_work o then
      let p ← get
      let next ← work c wait_for_proc_work (c.rounds p.state.binder)
      if next = .retry then retry c os else finish c
    else pure (if c.non_block then .EAGAIN else .OK)

def threadRead (c : Call) : Act Ret := do
  when (c.consumed = 0) (putCommand c ⟨.noop, BR_NOOP, []⟩)
  retry c c.others

/-- The call has not written anything. -/
def Call.start (c : Call) (s : State) : Progress :=
  { state := s, ptr := c.consumed.toInt, consumed := c.consumed.toInt, stores := [],
    written := [], removed := [], raised := [] }

def Call.read (c : Call) (s : State) : EStateM.Result Fault Progress Ret :=
  threadRead c (c.start s)

end Cdroid.Driver.ThreadRead
