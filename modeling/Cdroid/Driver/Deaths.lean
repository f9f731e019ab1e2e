import Cdroid.Driver.Works
import Cdroid.Lib.Runs

/-! Death notifications in the driver: the commands that ask for one, clear it and answer it,
the work that is read, and the release of a thread and of a process. Allocations succeed. -/

namespace Cdroid.Driver.Deaths
open Cdroid.Lib

/-- `work.type` of a notification -/
inductive WorkType
  | BINDER_WORK_DEAD_BINDER
  | BINDER_WORK_DEAD_BINDER_AND_CLEAR
  | BINDER_WORK_CLEAR_DEATH_NOTIFICATION
  deriving DecidableEq

/-- What a process reads about a notification. -/
inductive Return
  | BR_DEAD_BINDER
  | BR_CLEAR_DEATH_NOTIFICATION_DONE
  deriving DecidableEq

/-- `struct binder_ref_death`. No code reads the last three fields: the process that
registered, whether a clear was accepted, and which process has read what. -/
structure binder_ref_death where
  cookie : Nat
  type : Option WorkType
  proc : Nat
  cleared : Bool
  told : List (Nat × Return)
  deriving DecidableEq

/-- `struct binder_ref`, without its counts. `death` tells the number of the notification. -/
structure binder_ref where
  proc : Nat
  node : Nat
  death : Option Nat
  deriving DecidableEq

/-- An item of a list: a notification, or some other work. -/
inductive Work
  | death (d : Nat)
  | other (w : Nat)
  deriving DecidableEq

/-- All references are in one list, the newest first: those of a node are in it in the order
of `node->refs`, where a new one is added at the head. `node_proc` is `node->proc`, and
`looper` says that a thread is registered as a looper or has entered the loop. -/
structure State where
  released : Nat → Bool
  nodes : Nat → List Nat
  node_proc : Nat → Option Nat
  refs : List binder_ref
  deaths : Nat → binder_ref_death
  lists : WorkLists WorkList Work
  looper : Nat → Nat → Bool
  lastNode : Nat
  lastDeath : Nat

namespace State

/-- No process has a node or a reference yet. -/
def initial : State where
  released _ := false
  nodes _ := []
  node_proc _ := none
  refs := []
  deaths _ := ⟨0, none, 0, false, []⟩
  lists := WorkLists.empty
  looper _ _ := false
  lastNode := 0
  lastDeath := 0

/-! ## Parts of the commands -/

def setDeath (s : State) (d : Nat) (f : binder_ref_death → binder_ref_death) : State :=
  { s with deaths := fun x => if x = d then f (s.deaths x) else s.deaths x }

/-- `death->work.type = type` and `list_add_tail(&death->work.entry, target)` -/
def queue (s : State) (d : Nat) (type : WorkType) (target : WorkList) : State :=
  { s.setDeath d fun x => { x with type } with lists := s.lists.moveTail (.death d) target }

/-- The reference of a process to a node, which a descriptor stands for. -/
def ref? (s : State) (proc node : Nat) : Option binder_ref :=
  s.refs.find? fun r => r.proc = proc ∧ r.node = node

def setRefDeath (s : State) (proc node : Nat) (death : Option Nat) : State :=
  { s with refs := s.refs.map fun r => if r.proc = proc ∧ r.node = node then { r with death }
      else r }

/-- A looper gets its answers itself, and others leave them to the process. -/
def answers (s : State) (proc thread : Nat) : WorkList :=
  if s.looper proc thread then .threadTodo proc thread else .todo proc

/-- `binder_delete_ref` -/
def deleteRef (s : State) (ref : binder_ref) : State :=
  let s := { s with refs := s.refs.erase ref }
  match ref.death with
  | some d => { s with lists := s.lists.unlink (.death d) }
  | none => s

/-! ## Commands -/

/-- The reference gets a new notification, which is on no list. -/
def register (s : State) (proc node cookie : Nat) : State :=
  { (s.setDeath s.lastDeath fun _ => ⟨cookie, none, proc, false, []⟩).setRefDeath proc node
      (some s.lastDeath) with
    lastDeath := s.lastDeath + 1 }

/-- `BC_REQUEST_DEATH_NOTIFICATION` -/
def request (s : State) (proc thread node cookie : Nat) : State :=
  match s.ref? proc node with
  | none => s
  | some ref =>
    if ref.death ≠ none then s
    else if s.node_proc node = none then
      (s.register proc node cookie).queue s.lastDeath .BINDER_WORK_DEAD_BINDER
        (s.answers proc thread)
    else s.register proc node cookie

/-- `BC_CLEAR_DEATH_NOTIFICATION`, or `none` where `BUG_ON` fires -/
def clear (s : State) (proc thread node cookie : Nat) : Option State :=
  match (s.ref? proc node).bind binder_ref.death with
  | none => some s
  | some d =>
    if (s.deaths d).cookie ≠ cookie then some s
    else
      let s := (s.setRefDeath proc node none).setDeath d fun x => { x with cleared := true }
      if s.lists.on (.death d) = none then
        some (s.queue d .BINDER_WORK_CLEAR_DEATH_NOTIFICATION (s.answers proc thread))
      else if (s.deaths d).type ≠ some .BINDER_WORK_DEAD_BINDER then none
      else some (s.setDeath d fun x => { x with type := some .BINDER_WORK_DEAD_BINDER_AND_CLEAR })

/-- Whether an item of `delivered_death` is a notification with this cookie. -/
def hasCookie (s : State) (cookie : Nat) : Work → Bool
  | .death d => (s.deaths d).cookie == cookie
  | .other _ => false

/-- `BC_DEAD_BINDER_DONE` -/
def deadBinderDone (s : State) (proc thread cookie : Nat) : State :=
  match (s.lists.items (.delivered_death proc)).find? (s.hasCookie cookie) with
  | some (.death d) =>
    let s := { s with lists := s.lists.unlink (.death d) }
    if (s.deaths d).type = some .BINDER_WORK_DEAD_BINDER_AND_CLEAR then
      s.queue d .BINDER_WORK_CLEAR_DEATH_NOTIFICATION (s.answers proc thread)
    else s
  | _ => s

/-- What is read for a notification of this type. -/
def command : Option WorkType → Return
  | some .BINDER_WORK_CLEAR_DEATH_NOTIFICATION => .BR_CLEAR_DEATH_NOTIFICATION_DONE
  | _ => .BR_DEAD_BINDER

/-- One round of the loop of `binder_thread_read` -/
def read (s : State) (proc thread : Nat) (wait_for_proc_work : Bool) : State :=
  match nextWork s.lists proc thread wait_for_proc_work with
  | none => s
  | some (.other w) => { s with lists := s.lists.unlink (.other w) }
  | some (.death d) =>
    let cmd := command (s.deaths d).type
    let told := s.setDeath d fun x => { x with told := x.told ++ [(proc, cmd)] }
    match cmd with
    | .BR_CLEAR_DEATH_NOTIFICATION_DONE =>
      { told with lists := s.lists.unlink (.death d) }
    | .BR_DEAD_BINDER =>
      { told with lists := s.lists.moveHead (.death d) (.delivered_death proc) }

/-! ## Releases -/

/-- `binder_release_work`: the items are taken out, whatever their type. -/
def releaseWork (s : State) (P : WorkList → Bool) : State :=
  { s with lists := s.lists.clear P }

/-- `BINDER_THREAD_EXIT`; a thread that comes back is a new one. -/
def threadExit (s : State) (proc thread : Nat) : State :=
  let s := s.releaseWork fun k => k == .threadTodo proc thread
  { s with looper := fun p t => if p = proc ∧ t = thread then false else s.looper p t }

/-- The loop of `binder_node_release` over `node->refs`, or `none` at `BUG` -/
def notifyRefs : List binder_ref → State → Option State
  | [], s => some s
  | ref :: refs, s =>
    match ref.death with
    | none => some s -- goto out
    | some d =>
      if s.lists.on (.death d) = none then
        notifyRefs refs (s.queue d .BINDER_WORK_DEAD_BINDER (.todo ref.proc))
      else none

def nodeRefs (s : State) (node : Nat) : List binder_ref :=
  s.refs.filter fun r => r.node = node

/-- `binder_node_release`, of a node that is taken out of the tree -/
def nodeRelease (s : State) (node : Nat) : Option State :=
  let s : State := { s with
    nodes := fun p => (s.nodes p).erase node
    node_proc := fun n => if n = node then none else s.node_proc n }
  notifyRefs (s.nodeRefs node) s

def nodesRelease : List Nat → State → Option State
  | [], s => some s
  | node :: nodes, s => (s.nodeRelease node).bind (nodesRelease nodes)

/-- `binder_deferred_release` -/
def deferredRelease (s : State) (proc : Nat) : Option State :=
  let s := { s with released := fun p => if p = proc then true else s.released p }
  let s := s.releaseWork (WorkList.isThreadTodoOf proc)
  (nodesRelease (s.nodes proc) s).map fun s =>
    let s := (s.refs.filter fun r => r.proc = proc).foldl deleteRef s
    s.releaseWork fun k => k == .todo proc || k == .delivered_death proc

end State

/-! ## Runs -/

/-- What may happen. A descriptor is named by the node it stands for. -/
inductive Action
  /-- `binder_new_node`; `i` is the place in the tree. -/
  | newNode (proc i : Nat)
  /-- `binder_get_ref_for_node` -/
  | getRefForNode (proc node : Nat)
  /-- The last count of a reference goes. -/
  | deleteRef (proc node : Nat)
  | enterLooper (proc thread : Nat)
  | request (proc thread node cookie : Nat)
  | clear (proc thread node cookie : Nat)
  | deadBinderDone (proc thread cookie : Nat)
  /-- Other work comes to a list. -/
  | post (w : Nat) (target : WorkList)
  | read (proc thread : Nat) (wait_for_proc_work : Bool)
  | threadExit (proc thread : Nat)
  | release (proc : Nat)

/-- The process that acts, if it is one of them that does. -/
def Action.proc : Action → Option Nat
  | newNode p _ | getRefForNode p _ | deleteRef p _ | enterLooper p _ | request p _ _ _
  | clear p _ _ _ | deadBinderDone p _ _ | read p _ _ | threadExit p _ | release p => some p
  | post _ _ => none

namespace State

/-- What a process that is there does. A reference is made for a node that has an owner to
send it, or another process that holds it and does. -/
def act (s : State) : Action → Option State
  | .newNode p i => some { s with
      nodes := fun q =>
        if q = p then (s.nodes q).take i ++ s.lastNode :: (s.nodes q).drop i else s.nodes q
      node_proc := fun n => if n = s.lastNode then some p else s.node_proc n
      lastNode := s.lastNode + 1 }
  | .getRefForNode p n =>
    some (if s.ref? p n = none ∧ (s.node_proc n ≠ none ∨ s.nodeRefs n ≠ []) then
      { s with refs := ⟨p, n, none⟩ :: s.refs }
    else s)
  | .deleteRef p n => some (((s.ref? p n).map s.deleteRef).getD s)
  | .enterLooper p t =>
    some { s with looper := fun q u => if q = p ∧ u = t then true else s.looper q u }
  | .request p t n cookie => some (s.request p t n cookie)
  | .clear p t n cookie => s.clear p t n cookie
  | .deadBinderDone p t cookie => some (s.deadBinderDone p t cookie)
  | .post w target => some { s with lists := s.lists.moveTail (.other w) target }
  | .read p t wait_for_proc_work => some (s.read p t wait_for_proc_work)
  | .threadExit p t => some (s.threadExit p t)
  | .release p => s.deferredRelease p

/-- The state after an action, or `none` after a `BUG`. A process that is released does
nothing any more. -/
def next (s : State) (a : Action) : Option State :=
  if a.proc.any s.released then some s else s.act a

end State

end Cdroid.Driver.Deaths
