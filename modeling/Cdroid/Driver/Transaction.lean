import Cdroid.Driver.References
import Cdroid.Driver.ThreadRead

/-! `binder_transaction` from the target on: the buffer, the objects that are translated in it,
what is undone when it fails, and who is told of it. The stacks and lists of transactions are
left out. -/

namespace Cdroid.Driver.References
open Cdroid.Lib Cdroid.Lib.SearchTree
open Cdroid.Driver.ThreadRead (Errors BR_OK BR_DEAD_REPLY BR_FAILED_REPLY
  BR_TRANSACTION_COMPLETE)

/-! ## Objects -/

def B_TYPE_LARGE : BitVec 8 := 0x85

def B_PACK_CHARS (c1 c2 c3 c4 : BitVec 8) : BitVec 32 := c1 ++ c2 ++ c3 ++ c4

inductive ObjectType
  | binder (strong : Bool)
  | handle (strong : Bool)
  | fd
  deriving DecidableEq

/-- `BINDER_TYPE_BINDER`, `BINDER_TYPE_WEAK_BINDER`, `BINDER_TYPE_HANDLE`,
`BINDER_TYPE_WEAK_HANDLE` and `BINDER_TYPE_FD` -/
def ObjectType.code : ObjectType → BitVec 32
  | .binder true => B_PACK_CHARS 0x73 0x62 0x2a B_TYPE_LARGE -- sb*
  | .binder false => B_PACK_CHARS 0x77 0x62 0x2a B_TYPE_LARGE -- wb*
  | .handle true => B_PACK_CHARS 0x73 0x68 0x2a B_TYPE_LARGE -- sh*
  | .handle false => B_PACK_CHARS 0x77 0x68 0x2a B_TYPE_LARGE -- wh*
  | .fd => B_PACK_CHARS 0x66 0x64 0x2a B_TYPE_LARGE -- fd*

def ObjectType.all : List ObjectType :=
  [.binder true, .binder false, .handle true, .handle false, .fd]

/-- The cases of `switch (fp->type)` -/
def objectType (type : BitVec 32) : Option ObjectType := ObjectType.all.find? fun t => t.code = type

theorem objectType_code (t : ObjectType) : objectType t.code = some t := by
  rcases t with ⟨_ | _⟩ | ⟨_ | _⟩ | _ <;> decide

theorem code_of_objectType {type : BitVec 32} {t : ObjectType} (h : objectType type = some t) :
    type = t.code := by
  have hcode := List.find?_some h
  rw [decide_eq_true_iff] at hcode
  exact hcode.symm

def FLAT_BINDER_FLAG_ACCEPTS_FDS : BitVec 32 := 0x100

/-- `struct flat_binder_object`; `binder` and `handle` are one word. -/
structure flat_binder_object where
  type : BitVec 32
  flags : BitVec 32
  binder : BitVec 32
  cookie : BitVec 32
  deriving DecidableEq

def sizeof_flat_binder_object : Nat := 16

/-- The data of a buffer: the word at each offset. -/
abbrev Data := Nat → BitVec 32

def Data.object (data : Data) (off : Nat) : flat_binder_object :=
  ⟨data off, data (off + 4), data (off + 8), data (off + 12)⟩

/-- The object is written back. Its flags are never changed. -/
def Data.store (data : Data) (off : Nat) (fp : flat_binder_object) : Data := fun x =>
  if x = off then fp.type else if x = off + 8 then fp.binder else if x = off + 12 then fp.cookie
  else data x

/-- There is no object at the offset. -/
def badOffset (data_size : Nat) (off : Nat) : Bool :=
  decide (data_size < off + sizeof_flat_binder_object) || decide (off % sizeof_binder_ptr ≠ 0)

/-! ## The parties -/

def TF_ONE_WAY : BitVec 32 := 0x01
def TF_ACCEPT_FDS : BitVec 32 := 0x10

/-- `struct binder_transaction_data`: what is in the memory of the sender, where it can be read -/
structure binder_transaction_data where
  handle : BitVec 32
  flags : BitVec 32
  data_size : BitVec 32
  offsets_size : BitVec 32
  data : Option Data
  offsets : Option (Nat → BitVec 32)

/-- What a reply takes from the transaction that it answers: `from->proc`, `from`, which has
not been released, and `flags`. -/
structure InReplyTo where
  proc : Nat
  thread : Nat
  flags : BitVec 32

/-- The sender, and where the transaction goes. A reply has no node. -/
structure Call where
  proc : Nat
  thread : Nat
  target_proc : Nat
  target_node : Option Nat
  in_reply_to : Option InReplyTo

/-- The kernel: whether a process has its `files`, the descriptor that `__alloc_fd` finds, and
the pages. -/
structure Kernel where
  has_files : Nat → Bool
  alloc_fd : Nat → List (BitVec 32) → Option (BitVec 32)
  env : Env

/-- Where `binder_transaction` fails. The mismatch of a cookie shares its label with the
failure of `binder_get_ref_for_node`. -/
inductive Exit
  | invalid_target_handle
  | no_context_mgr_node
  | dead_binder
  | alloc_t_failed
  | alloc_tcomplete_failed
  | binder_alloc_buf_failed
  | copy_data_failed
  | bad_offset
  | binder_new_node_failed
  | cookie_mismatch
  | binder_get_ref_for_node_failed
  | binder_get_ref_failed
  | fd_not_allowed
  | fget_failed
  | get_unused_fd_failed
  | bad_object_type
  deriving DecidableEq

/-- The local `return_error`; `unset` is what is in its place when it has not been set. -/
def Exit.return_error (unset : BitVec 32) : Exit → BitVec 32
  | no_context_mgr_node => BR_DEAD_REPLY
  | dead_binder => BR_DEAD_REPLY
  | cookie_mismatch => unset
  | _ => BR_FAILED_REPLY

/-- An object as it is written back, or where it fails. -/
abbrev Translated := Except Exit flat_binder_object × State

namespace State

variable (s : State)

/-! ## Descriptors -/

/-- `task_get_unused_fd_flags`, where it is not negative. -/
def getUnusedFd (k : Kernel) (proc : Nat) : Option (BitVec 32) :=
  if k.has_files proc then k.alloc_fd proc (s.files proc) else none

/-- `task_fd_install` -/
def fdInstall (k : Kernel) (proc : Nat) (fd : BitVec 32) : State :=
  if k.has_files proc then
    { s with
      files := fun p => if p = proc then fd :: s.files p else s.files p
      installed := s.installed ++ [(proc, fd)] }
  else s

/-- `task_close_fd` -/
def closeFd (k : Kernel) (proc : Nat) (fd : BitVec 32) : State :=
  if k.has_files proc then
    { s with
      files := fun p => if p = proc then (s.files p).erase fd else s.files p
      closed := s.closed ++ [(proc, fd)] }
  else s

/-! ## Translation -/

/-- `binder_new_node`, for a `ptr` that has no node, and what is set behind it. -/
def newNode (proc : Nat) (fp : flat_binder_object) : Option binder_node × State :=
  if s.allocOk then
    let s := s.alloc
    let node : binder_node := {
      addr := s.fresh
      proc := some proc
      ptr := fp.binder
      cookie := fp.cookie
      internal_strong_refs := 0
      local_weak_refs := 0
      local_strong_refs := 0
      has_strong_ref := false
      has_weak_ref := false
      accept_fds := fp.flags &&& FLAT_BINDER_FLAG_ACCEPTS_FDS != 0
      min_priority := fp.flags.setWidth 8
      work := none }
    (some node, s.addNode node)
  else (none, s.alloc)

/-- The node of an object of the sender. -/
def ownNode (proc : Nat) (fp : flat_binder_object) : Option binder_node × State :=
  match s.getNode proc fp.binder with
  | some node => (some node, s)
  | none => s.newNode proc fp

/-- `BINDER_TYPE_BINDER` and `BINDER_TYPE_WEAK_BINDER` -/
def sendBinder (c : Call) (strong : Bool) (fp : flat_binder_object) : Except Bug Translated :=
  match s.ownNode c.proc fp with
  | (none, s) => pure (.error .binder_new_node_failed, s)
  | (some node, s) =>
    if fp.cookie ≠ node.cookie then pure (.error .cookie_mismatch, s)
    else do
      let (ref, s) ← s.getRefForNode c.target_proc node.addr
      match ref with
      | none => pure (.error .binder_get_ref_for_node_failed, s)
      | some ref =>
        pure (.ok { fp with type := (ObjectType.handle strong).code, binder := ref.desc },
          s.incRef ref.key strong (some (.threadTodo c.proc c.thread)))

/-- `BINDER_TYPE_HANDLE` and `BINDER_TYPE_WEAK_HANDLE` -/
def sendHandle (c : Call) (strong : Bool) (fp : flat_binder_object) : Except Bug Translated :=
  match s.getRef c.proc fp.binder with
  | none => pure (.error .binder_get_ref_failed, s)
  | some ref =>
    match s.nodes.get ref.node with
    | none => pure (.error .binder_get_ref_failed, s) -- a reference has its node
    | some node =>
      if node.proc = some c.target_proc then
        pure (.ok { fp with
            type := (ObjectType.binder strong).code, binder := node.ptr, cookie := node.cookie },
          s.incNode ref.node strong false none)
      else do
        let (new_ref, s) ← s.getRefForNode c.target_proc ref.node
        match new_ref with
        | none => pure (.error .binder_get_ref_for_node_failed, s)
        | some new_ref =>
          pure (.ok { fp with binder := new_ref.desc }, s.incRef new_ref.key strong none)

/-- Whether the receiver takes descriptors. -/
def acceptsFds (c : Call) : Bool :=
  match c.in_reply_to with
  | some t => t.flags &&& TF_ACCEPT_FDS != 0
  | none => (c.target_node.bind s.nodes.get).any binder_node.accept_fds

/-- `BINDER_TYPE_FD` -/
def sendFd (k : Kernel) (c : Call) (fp : flat_binder_object) : Translated :=
  if !s.acceptsFds c then (.error .fd_not_allowed, s)
  else if fp.binder ∉ s.files c.proc then (.error .fget_failed, s)
  else match s.getUnusedFd k c.target_proc with
    | none => (.error .get_unused_fd_failed, s)
    | some target_fd => (.ok { fp with binder := target_fd }, s.fdInstall k c.target_proc target_fd)

/-- `switch (fp->type)` -/
def translate (k : Kernel) (c : Call) (fp : flat_binder_object) : Except Bug Translated :=
  match objectType fp.type with
  | some (.binder strong) => s.sendBinder c strong fp
  | some (.handle strong) => s.sendHandle c strong fp
  | some .fd => pure (s.sendFd k c fp)
  | none => pure (.error .bad_object_type, s)

end State

/-- How far the objects are translated: `offp` tells how many are done. -/
structure Progress where
  exit : Option Exit
  offp : Nat
  data : Data
  state : State

/-- The loop over the offsets. -/
def translateAll (k : Kernel) (c : Call) (data_size : Nat) :
    List Nat → Nat → Data → State → Except Bug Progress
  | [], offp, data, s => pure ⟨none, offp, data, s⟩
  | off :: offs, offp, data, s =>
    if badOffset data_size off then pure ⟨some .bad_offset, offp, data, s⟩
    else do
      match ← s.translate k c (data.object off) with
      | (.error e, s) => pure ⟨some e, offp, data, s⟩
      | (.ok fp, s) => translateAll k c data_size offs (offp + 1) (data.store off fp) s

/-- The offsets, that lie behind one another. -/
def binder_transaction_data.offs (tr : binder_transaction_data) (offsets : Nat → BitVec 32) :
    List Nat :=
  (List.range (tr.offsets_size.toNat / sizeof_binder_ptr)).map fun i => (offsets i).toNat

/-- The data and the offsets are copied, and the objects translated. -/
def fill (k : Kernel) (c : Call) (tr : binder_transaction_data) (s : State) :
    Except Bug Progress :=
  match tr.data, tr.offsets with
  | none, _ => pure ⟨some .copy_data_failed, 0, fun _ => 0, s⟩
  | some data, none => pure ⟨some .copy_data_failed, 0, data, s⟩
  | some data, some offsets =>
    if tr.offsets_size.toNat % sizeof_binder_ptr ≠ 0 then pure ⟨some .bad_offset, 0, data, s⟩
    else translateAll k c tr.data_size.toNat (tr.offs offsets) 0 data s

namespace State

variable (s : State)

/-! ## Release -/

/-- One object of `binder_transaction_buffer_release`; `failed` stands for `failed_at` -/
def releaseObject (k : Kernel) (proc : Nat) (failed : Bool) (fp : flat_binder_object) : State :=
  match objectType fp.type with
  | some (.binder strong) =>
    match s.getNode proc fp.binder with
    | none => s
    | some node => s.decNode node.addr strong false
  | some (.handle strong) =>
    match s.getRef proc fp.binder with
    | none => s
    | some ref => s.decRef ref.key strong
  | some .fd => if failed then s.closeFd k proc fp.binder else s
  | none => s

def releaseAll (k : Kernel) (proc : Nat) (data_size : Nat) (data : Data) (failed : Bool) :
    List Nat → State → State
  | [], s => s
  | off :: offs, s =>
    releaseAll k proc data_size data failed offs
      (if badOffset data_size off then s else s.releaseObject k proc failed (data.object off))

/-- `binder_transaction_buffer_release`, of the objects at these offsets -/
def bufferRelease (k : Kernel) (proc : Nat) (target_node : Option Nat) (data_size : Nat)
    (data : Data) (failed : Bool) (offs : List Nat) : State :=
  releaseAll k proc data_size data failed offs
    (match target_node with
      | some node => s.decNode node true false
      | none => s)

/-! ## `binder_transaction` -/

/-- The node and the process that a transaction goes to. -/
def target (proc : Nat) (tr : binder_transaction_data) :
    Option InReplyTo → Except Exit (Option Nat × Nat)
  | some t => .ok (none, t.proc)
  | none =>
    match (if tr.handle ≠ 0 then
        match s.getRef proc tr.handle with
        | none => .error .invalid_target_handle
        | some ref => .ok ref.node
      else
        match s.context_mgr_node with
        | none => .error .no_context_mgr_node
        | some node => .ok node : Except Exit Nat) with
    | .error e => .error e
    | .ok node =>
      match (s.nodes.get node).bind binder_node.proc with
      | none => .error .dead_binder
      | some target_proc => .ok (some node, target_proc)

def setProc (p : Nat) (proc : binder_proc) : State :=
  { s with procs := fun q => if q = p then proc else s.procs q }

/-- `binder_inc_node` of the target node, which the buffer holds. -/
def holdTarget : Option Nat → State
  | some node => s.incNode node true false none
  | none => s

end State

/-- A transaction is sent in a buffer, or fails, with a buffer or before there is one;
`failed_at` tells how many objects had been translated. -/
inductive Result
  | sent (buffer : Nat)
  | failed (exit : Exit) (buffer : Option Nat) (failed_at : Nat)

/-- What becomes of the buffer when its objects have been translated or not. -/
def finish (rb : Balance Nat) (k : Kernel) (c : Call) (tr : binder_transaction_data)
    (buffer : Nat) (p : Progress) : Except Bug (Result × State) :=
  match p.exit with
  | none => pure (.sent buffer, p.state)
  | some e => do
    let s := p.state.bufferRelease k c.target_proc c.target_node tr.data_size.toNat p.data true
      ((tr.offsets.elim [] tr.offs).take p.offp)
    let proc ← (s.procs c.target_proc).freeBuf rb buffer
    pure (.failed e (some buffer) p.offp, s.setProc c.target_proc proc)

/-- From the target to the buffer, which holds the target node. -/
def reserve (rb : Balance Nat) (k : Kernel) (proc thread : Nat) (tr : binder_transaction_data)
    (in_reply_to : Option InReplyTo) (s : State) : Except Bug (Except Exit (Call × Nat) × State) :=
  match s.target proc tr in_reply_to with
  | .error e => pure (.error e, s)
  | .ok (target_node, target_proc) =>
    if !s.allocOk then pure (.error .alloc_t_failed, s.alloc)
    else if !s.alloc.allocOk then pure (.error .alloc_tcomplete_failed, s.alloc.alloc)
    else do
      let s := s.alloc.alloc
      let (buffer, p) ← (s.procs target_proc).allocBuf rb (tr.data_size.setWidth 64)
        (tr.offsets_size.setWidth 64) (in_reply_to.isNone && tr.flags &&& TF_ONE_WAY != 0) k.env
      let s := s.setProc target_proc p
      match buffer with
      | none => pure (.error .binder_alloc_buf_failed, s)
      | some buffer =>
        pure (.ok (⟨proc, thread, target_proc, target_node, in_reply_to⟩, buffer),
          s.holdTarget target_node)

/-- The codes that each thread of a process has to be told of. -/
abbrev Threads := Nat × Nat → Errors

def Threads.raise (threads : Threads) (x : Nat × Nat) (code : BitVec 32) : Threads := fun y =>
  if y = x then (threads y).raise code else threads y

/-- The end of `binder_transaction` where it fails: the sender is told the error. One that
replies is told that it is done, and `binder_send_failed_reply` tells the error to the thread
that waits. -/
def sendFailed (proc thread : Nat) (in_reply_to : Option InReplyTo) (return_error : BitVec 32)
    (threads : Threads) : Except Bug Threads :=
  if (threads (proc, thread)).return_error ≠ BR_OK then .error .assertion
  else match in_reply_to with
  | none => pure (threads.raise (proc, thread) return_error)
  | some t =>
    if t.flags &&& TF_ONE_WAY ≠ 0 then .error .assertion
    else pure ((threads.raise (proc, thread) BR_TRANSACTION_COMPLETE).raise (t.proc, t.thread)
      return_error)

/-- `binder_transaction`. What is queued when it succeeds is left out. -/
def binderTransaction (rb : Balance Nat) (k : Kernel) (proc thread : Nat)
    (tr : binder_transaction_data) (in_reply_to : Option InReplyTo) (unset : BitVec 32)
    (s : State) (threads : Threads) : Except Bug (Result × State × Threads) := do
  match ← reserve rb k proc thread tr in_reply_to s with
  | (.error e, s) =>
    let threads ← sendFailed proc thread in_reply_to (e.return_error unset) threads
    pure (.failed e none 0, s, threads)
  | (.ok (c, buffer), s) =>
    let filled ← fill k c tr s
    match ← finish rb k c tr buffer filled with
    | (.failed e buffer failed_at, s) =>
      let threads ← sendFailed proc thread in_reply_to (e.return_error unset) threads
      pure (.failed e buffer failed_at, s, threads)
    | (.sent buffer, s) => pure (.sent buffer, s, threads)

end Cdroid.Driver.References
