import Cdroid.Binder.Weights
import Cdroid.Runtime.Process
import Cdroid.Service.ActivityManager

/-! The outcome of a start request. `startProcessLocked` lists the record before the zygote
is asked, and of the system calls only `socket` is looked at. -/

namespace Cdroid.Service
open Cdroid.Lib.Comp Cdroid.Lib.Containers Cdroid.Runtime
open Cdroid.Binder (wordBytes wordOf length_wordBytes wordOf_wordBytes wordBytes_wordOf)

/-! ## The system calls -/

/-- What the system calls of one start return, in the system server and in the zygote.
`write n` is the n-th write to the socket, and `answer` the zygote's write of the pid.
`newPid` and `pid` are what the unset variable and the unset member hold. -/
structure Calls where
  socket : Int
  connect : Int
  write : Nat → Int
  accept : Int
  fork : BitVec 32
  answer : Int
  read : Int
  newPid : BitVec 32
  pid : BitVec 32

/-- A process that the zygote has forked. -/
structure Forked where
  pid : BitVec 32
  args : List String8

namespace Calls

/-- What the loop over `args` writes. -/
def buffers (args : List String8) : List (List UInt8) :=
  args.flatMap fun arg => [cString arg ++ [0], [10]]

/-- What the writes pass on. -/
def sent (c : Calls) (args : List String8) : List UInt8 :=
  ((buffers args).zipIdx.map fun b => b.1.take (c.write b.2).toNat).flatten

/-- The zygote gets to `handleZygoteClient`. -/
def Handled (c : Calls) : Prop := 0 ≤ c.socket ∧ c.connect = 0 ∧ 0 ≤ c.accept

instance (c : Calls) : Decidable c.Handled := by unfold Handled; infer_instance

/-- The process that `handleZygoteClient` forks. -/
def forked (c : Calls) (args : List String8) : Option Forked :=
  if c.Handled ∧ 0 < c.fork.toInt then some ⟨c.fork, handleZygoteClient (c.sent args)⟩ else none

/-- What comes back: the zygote writes what `fork` returned, -1 too. -/
def answered (c : Calls) : List UInt8 :=
  if c.Handled then (wordBytes c.fork).take c.answer.toNat else []

end Calls

/-- `Process::startViaZygoteArgs`: `read` sets the bytes of `newPid` that have come back. -/
def startViaZygoteArgs (c : Calls) : ZygoteReply :=
  if c.socket < 0 then ⟨-1, c.pid.toInt⟩
  else
    let got := c.answered.take c.read.toNat
    ⟨0, (wordOf (got ++ (wordBytes c.newPid).drop got.length)).toInt⟩

/-- The world in which the start requests go through these calls. -/
def World.through (w : World) (calls : List Event → Calls) : World :=
  { w with zygote := fun log => startViaZygoteArgs (calls log) }

/-! ## Traces -/

/-- The record of `name` is in both lists with the pid of the process that was forked, or
both lists are as before. -/
def State.Traceless (s t : State) (name : String8) (app : ProcessRef) (forked : Option Forked) :
    Prop :=
  ((t.processes.get app).name = name ∧ app ∈ t.mProcesses ∧ app ∈ t.mProcessesPending ∧
    ∃ f, forked = some f ∧ (t.processes.get app).pid = f.pid.toInt) ∨
  (t.mProcesses = s.mProcesses ∧ t.mProcessesPending = s.mProcessesPending)

/-- The zygote forks a process, and what its answer does not reach of `newPid` is there
already. -/
structure Calls.Answered (c : Calls) : Prop where
  handled : c.Handled
  forked : 0 < c.fork.toInt
  reached : (wordBytes c.newPid).drop (min c.read.toNat c.answer.toNat) =
    (wordBytes c.fork).drop (min c.read.toNat c.answer.toNat)

/-! ## The arguments -/

/-- Whole writes pass on what `startViaZygoteArgs` writes. -/
theorem sent_whole {c : Calls} {args : List String8}
    (h : ∀ b ∈ (Calls.buffers args).zipIdx, b.1.length ≤ (c.write b.2).toNat) :
    c.sent args = Process.startViaZygoteArgs args := by
  have htake : ((Calls.buffers args).zipIdx.map fun b => b.1.take (c.write b.2).toNat) =
      (Calls.buffers args).zipIdx.map Prod.fst :=
    List.map_congr_left fun b hb => List.take_of_length_le (h b hb)
  rw [Calls.sent, htake, List.zipIdx_map_fst]
  clear h htake
  induction args with
  | nil => rfl
  | cons arg args ih =>
    have hcons : Calls.buffers (arg :: args) =
        [cString arg ++ [0], [10]] ++ Calls.buffers args := rfl
    rw [hcons, List.flatten_append, ih]
    simp [Process.startViaZygoteArgs]

/-- A process that is forked after whole writes has the arguments of the request. -/
theorem forked_args {c : Calls} {args : List String8} {f : Forked}
    (hplain : ∀ arg ∈ args, Plain arg)
    (h : ∀ b ∈ (Calls.buffers args).zipIdx, b.1.length ≤ (c.write b.2).toNat)
    (hf : c.forked args = some f) : f.args = args := by
  unfold Calls.forked at hf
  split at hf
  · cases hf
    rw [sent_whole h, handleZygoteClient_startViaZygoteArgs hplain]
  · cases hf

/-! ## The answer -/

theorem wordBytes_inj {v u : BitVec 32} (h : wordBytes v = wordBytes u) : v = u := by
  have hv := wordOf_wordBytes v []
  rw [List.append_nil, h] at hv
  have hu := wordOf_wordBytes u []
  rw [List.append_nil] at hu
  exact hv.symm.trans hu

/-- A word of which the first `n` bytes are overwritten with those of another word. -/
theorem overwritten_eq_iff (v u : BitVec 32) (n : Nat) :
    wordOf ((wordBytes u).take n ++ (wordBytes v).drop ((wordBytes u).take n).length) = u ↔
      (wordBytes v).drop n = (wordBytes u).drop n := by
  have hdrop : (wordBytes v).drop ((wordBytes u).take n).length = (wordBytes v).drop n := by
    rw [List.length_take, length_wordBytes]
    rcases Nat.le_total n 4 with hn | hn
    · rw [Nat.min_eq_left hn]
    · rw [Nat.min_eq_right hn, List.drop_of_length_le (Nat.le_refl 4), List.drop_of_length_le hn]
  have hlength : ((wordBytes u).take n ++ (wordBytes v).drop n).length = 4 := by
    rw [List.length_append, List.length_take, List.length_drop, length_wordBytes,
      length_wordBytes]
    omega
  have hbytes := wordBytes_wordOf (Nat.le_of_eq hlength.symm)
  rw [List.take_of_length_le (Nat.le_of_eq hlength)] at hbytes
  rw [hdrop]
  constructor
  · intro h
    rw [h] at hbytes
    exact List.append_cancel_left (hbytes.symm.trans (List.take_append_drop n _).symm)
  · intro h
    apply wordBytes_inj
    rw [hbytes, h, List.take_append_drop]

/-- The pid that is stored is that of the forked process just if the answer has come. -/
theorem stored_forked_iff (c : Calls) (args : List String8) :
    (∃ f, c.forked args = some f ∧ (startViaZygoteArgs c).pid = f.pid.toInt) ↔ c.Answered := by
  unfold Calls.forked
  split
  · next hfork =>
    obtain ⟨hhandled, hpos⟩ := hfork
    have hanswered : c.answered.take c.read.toNat =
        (wordBytes c.fork).take (min c.read.toNat c.answer.toNat) := by
      rw [Calls.answered, if_pos hhandled, List.take_take]
    have hpid : (startViaZygoteArgs c).pid = c.fork.toInt ↔
        (wordBytes c.newPid).drop (min c.read.toNat c.answer.toNat) =
          (wordBytes c.fork).drop (min c.read.toNat c.answer.toNat) := by
      rw [startViaZygoteArgs, if_neg (Int.not_lt.mpr hhandled.1)]
      dsimp only
      rw [hanswered, BitVec.toInt_inj, overwritten_eq_iff]
    constructor
    · rintro ⟨f, hf, heq⟩
      cases hf
      exact ⟨hhandled, hpos, hpid.mp heq⟩
    · exact fun h => ⟨_, rfl, hpid.mpr h.reached⟩
  · next hfork =>
    constructor
    · rintro ⟨f, hf, -⟩
      cases hf
    · exact fun h => absurd ⟨h.handled, h.forked⟩ hfork

/-! ## The lists -/

theorem startProcessLocked_known {w : World} {s : State} {name : String8} {app : ProcessRef}
    (h : s.getProcessRecordLocked name = some app) :
    startProcessLocked w name s = .ok app s := by
  unfold startProcessLocked
  rw [get_bind_apply, h]
  rfl

/-- Where there is no record, one is put into `mProcesses` in any case. -/
theorem startProcessLocked_unknown {w : World} {s : State} {name : String8}
    (h : s.getProcessRecordLocked name = none) :
    ∃ t, startProcessLocked w name s = .ok s.processes.fresh t ∧
      t.processes = s.processes.alloc ⟨none, name, (w.zygote s.log).pid⟩ ∧
      t.mProcesses = s.mProcesses ++ [s.processes.fresh] ∧
      t.mProcessesPending = if (w.zygote s.log).ret = 0
        then s.mProcessesPending ++ [s.processes.fresh] else s.mProcessesPending := by
  have hwp : wp (startProcessLocked w name) (fun app t => app = s.processes.fresh ∧
      t.processes = s.processes.alloc ⟨none, name, (w.zygote s.log).pid⟩ ∧
      t.mProcesses = s.mProcesses ++ [s.processes.fresh] ∧
      t.mProcessesPending = if (w.zygote s.log).ret = 0
        then s.mProcessesPending ++ [s.processes.fresh] else s.mProcessesPending)
      (fun _ _ => False) s := by
    unfold startProcessLocked
    simp only [wp_bind, wp_get, h, emit, wp_modify]
    refine wp_when (fun hret => ?_) fun hret => ?_
    · rw [wp_modify, wp_pure, if_pos hret]
      exact ⟨rfl, rfl, rfl, rfl⟩
    · rw [wp_pure, if_neg hret]
      exact ⟨rfl, rfl, rfl, rfl⟩
  cases hrun : startProcessLocked w name s with
  | ok app t =>
    obtain ⟨rfl, ht⟩ := wp_ok hwp hrun
    exact ⟨t, rfl, ht⟩
  | error e t => exact (wp_error hwp hrun).elim

/-- **Failed starts.** A start leaves no trace but a record with the pid of the forked process
if and only if there is a record already or the zygote forks and its answer comes. -/
theorem start_traceless_iff (w : World) (calls : List Event → Calls) (s : State)
    (name : String8) :
    ∃ app t, startProcessLocked (w.through calls) name s = .ok app t ∧
      (s.Traceless t name app ((calls s.log).forked (Process.zygoteArgs name 0 0 [] [])) ↔
        (s.getProcessRecordLocked name).isSome ∨ (calls s.log).Answered) := by
  cases hfind : s.getProcessRecordLocked name with
  | some app =>
    exact ⟨app, s, startProcessLocked_known hfind, iff_of_true (.inr ⟨rfl, rfl⟩) (.inl rfl)⟩
  | none =>
    obtain ⟨t, hrun, hprocesses, hlisted, hpending⟩ :=
      startProcessLocked_unknown (w := w.through calls) hfind
    refine ⟨_, t, hrun, ?_⟩
    have hstored := stored_forked_iff (calls s.log) (Process.zygoteArgs name 0 0 [] [])
    have hget : t.processes.get s.processes.fresh =
        ⟨none, name, (startViaZygoteArgs (calls s.log)).pid⟩ := by
      rw [hprocesses, Store.get_alloc_fresh]
      rfl
    have hchanged : t.mProcesses ≠ s.mProcesses := by
      rw [hlisted]
      exact fun heq => absurd (List.append_right_eq_self.mp heq) (List.cons_ne_nil _ _)
    rw [← hstored]
    constructor
    · rintro (⟨-, -, -, hpid⟩ | ⟨heq, -⟩)
      · rw [hget] at hpid
        exact .inr hpid
      · exact absurd heq hchanged
    · rintro (hsome | hforked)
      · cases hsome
      · have hret : ((w.through calls).zygote s.log).ret = 0 := by
          have hopen := (hstored.mp hforked).handled.1
          show (startViaZygoteArgs (calls s.log)).ret = 0
          rw [startViaZygoteArgs, if_neg (Int.not_lt.mpr hopen)]
        rw [if_pos hret] at hpending
        refine .inl ⟨by rw [hget], ?_, ?_, by rw [hget]; exact hforked⟩
        · rw [hlisted]
          exact List.mem_append_right _ List.mem_cons_self
        · rw [hpending]
          exact List.mem_append_right _ List.mem_cons_self

/-- The calls of a start for which no socket is to be had. -/
def noSocket : Calls := ⟨-1, -1, fun _ => -1, -1, -1, -1, -1, 0, 0⟩

/-- Without a socket, the record stays behind in `mProcesses`. -/
theorem start_leaves_trace :
    ¬ ∀ (w : World) (calls : List Event → Calls) (s : State) (name : String8),
      ∃ app t, startProcessLocked (w.through calls) name s = .ok app t ∧
        s.Traceless t name app ((calls s.log).forked (Process.zygoteArgs name 0 0 [] [])) := by
  intro h
  let w : World := ⟨⟨[], [], [], nofun⟩, fun _ => ⟨0, 0⟩, fun _ _ => false, fun _ => 0⟩
  obtain ⟨app, t, hrun, htrace⟩ := h w (fun _ => noSocket) (init w) [7]
  have hforked : noSocket.forked (Process.zygoteArgs [7] 0 0 [] []) = none := rfl
  cases hrun
  rcases htrace with ⟨-, -, -, f, hf, -⟩ | ⟨hlisted, -⟩
  · rw [hforked] at hf
    cases hf
  · cases hlisted

end Cdroid.Service
