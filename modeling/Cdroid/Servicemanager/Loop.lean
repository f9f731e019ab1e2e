import Mathlib.Data.List.Perm.Basic
import Mathlib.Data.List.Nodup
import Cdroid.Lib.Runs
import Cdroid.Servicemanager.Messages

/-! `binder_loop` of the service manager and its thread in the driver, with what the
threads of the clients send. -/

namespace Cdroid.Servicemanager
open Cdroid.Binder Cdroid.Lib Cdroid.Runtime

/-! ## The driver -/

deriving instance DecidableEq for binder_txn

/-- `binder_transaction`, for the service manager. -/
structure Transaction where
  debug_id : Nat
  oneWay : Bool
  txn : binder_txn
  deriving DecidableEq

/-- `binder_work` -/
inductive Work
  | transaction (t : Transaction)
  | transactionComplete
  | deadBinder (cookie : Nat)
  deriving DecidableEq

/-- What the driver returns. Of the buffer of a transaction, only whose it is matters. -/
inductive Return
  | noop
  | transactionComplete
  | refs
  | transaction (t : Transaction)
  | reply
  | deadBinder (cookie : Nat)
  | failedReply
  | deadReply
  | error
  deriving DecidableEq

/-- What is written to the driver. -/
inductive Write
  | command (c : Command)
  | freeBuffer (t : Transaction)
  | reply

/-- The service manager's thread, process and node. `buffers` are those of which
`allow_user_free` is set; `sender` is `from` of a transaction, and `waiting` the top of a
client thread's stack, where that is a transaction for the service manager. `delivered`,
`freed` and `answered` are for the record. -/
structure Driver where
  transaction_stack : List Transaction
  thread_todo : List Work
  return_error : Option Return
  proc_todo : List Work
  async_todo : List Transaction
  has_async_transaction : Bool
  buffers : List Nat
  sender : Nat → Option Nat
  waiting : Nat → Option Nat
  binder_last_id : Nat
  delivered : List Transaction
  freed : List Nat
  answered : List (Option Nat)

namespace Driver

def init : Driver :=
  ⟨[], [], none, [], [], false, [], fun _ => none, fun _ => none, 0, [], [], []⟩

/-- `binder_transaction` of a client. A thread that waits for a reply already is refused. -/
def binderTransaction (k : Driver) (client : Nat) (oneWay : Bool) (txn : binder_txn) :
    Option Driver :=
  let id := k.binder_last_id + 1
  let t : Transaction := ⟨id, oneWay, { txn with target := svcmgr_handle }⟩
  if oneWay then
    let k := { k with
      binder_last_id := id
      sender := fun i => if i = id then none else k.sender i }
    if k.has_async_transaction then some { k with async_todo := k.async_todo ++ [t] }
    else some { k with
      proc_todo := k.proc_todo ++ [.transaction t]
      has_async_transaction := true }
  else if k.waiting client ≠ none then none
  else some { k with
    binder_last_id := id
    sender := fun i => if i = id then some client else k.sender i
    waiting := fun c => if c = client then some id else k.waiting c
    proc_todo := k.proc_todo ++ [.transaction t] }

/-- `binder_free_thread` of a client -/
def binderFreeThread (k : Driver) (client : Nat) : Driver :=
  { k with
    sender := fun i => if k.sender i = some client then none else k.sender i
    waiting := fun c => if c = client then none else k.waiting c }

/-- `binder_pop_transaction` -/
def binderPopTransaction (k : Driver) (client id : Nat) : Driver :=
  { k with
    sender := fun i => if i = id then none else k.sender i
    waiting := fun c => if c = client then none else k.waiting c }

/-- `binder_transaction` of a reply. `fits` says whether there is memory for it, and its
object can be translated. -/
def binderReply (k : Driver) (fits : Bool) : Driver :=
  let k := { k with answered := k.answered ++ [k.transaction_stack.head?.map Transaction.debug_id] }
  match k.transaction_stack with
  | [] => { k with return_error := some .failedReply }
  | t :: stack =>
    let k := { k with transaction_stack := stack }
    match k.sender t.debug_id with
    | none => { k with return_error := some .transactionComplete }
    | some client =>
      if k.waiting client ≠ some t.debug_id then { k with return_error := some .failedReply }
      else
        let k := k.binderPopTransaction client t.debug_id
        if fits then { k with thread_todo := k.thread_todo ++ [.transactionComplete] }
        else { k with return_error := some .transactionComplete }

/-- `BC_FREE_BUFFER`. The next one-way transaction goes to the thread that frees. -/
def freeBuffer (k : Driver) (t : Transaction) : Driver :=
  if t.debug_id ∈ k.buffers then
    let k := { k with buffers := k.buffers.erase t.debug_id, freed := k.freed ++ [t.debug_id] }
    if t.oneWay then
      match k.async_todo with
      | [] => { k with has_async_transaction := false }
      | a :: rest =>
        { k with async_todo := rest, thread_todo := k.thread_todo ++ [.transaction a] }
    else k
  else k

/-- A command of `binder_thread_write`, which stops at an error. `death` says whether there
is memory for a notification. -/
def execute (death fits : Bool) (k : Driver) (w : Write) : Driver :=
  if k.return_error ≠ none then k
  else match w with
    | .command (.requestDeathNotification _ _) =>
      if death then k else { k with return_error := some .error }
    | .command _ => k
    | .freeBuffer t => k.freeBuffer t
    | .reply => k.binderReply fits

def binderThreadWrite (death fits : Bool) (k : Driver) (ws : List Write) : Driver :=
  ws.foldl (execute death fits) k

/-- The loop of `binder_thread_read`, with `room` bytes to go: a transaction and an obituary
end it. -/
def takeWork : Nat → List Work → List Return × List Work
  | _, [] => ([], [])
  | room, w :: ws =>
    if room < 44 then ([], w :: ws)
    else match w with
      | .transactionComplete =>
        let (rs, rest) := takeWork (room - 4) ws
        (.transactionComplete :: rs, rest)
      | .deadBinder cookie => ([.deadBinder cookie], ws)
      | .transaction t => ([.transaction t], ws)

/-- A transaction that is returned. -/
def deliver (k : Driver) : List Return → Driver
  | [] => k
  | .transaction t :: _ => { k with
    buffers := k.buffers ++ [t.debug_id]
    transaction_stack := if t.oneWay then k.transaction_stack else t :: k.transaction_stack
    delivered := k.delivered ++ [t] }
  | _ :: rs => k.deliver rs

/-- `binder_thread_read`, of 32 words; `none` while the thread sleeps. -/
def binderThreadRead (k : Driver) : Option (List Return × Driver) :=
  match k.return_error with
  | some e => some ([.noop, e], { k with return_error := none })
  | none =>
    if k.transaction_stack = [] ∧ k.thread_todo = [] then
      match takeWork 124 k.proc_todo with
      | ([], _) => none
      | (r :: rs, rest) => some (.noop :: r :: rs, ({ k with proc_todo := rest }).deliver (r :: rs))
    else
      match takeWork 124 k.thread_todo with
      | ([], _) => none
      | (r :: rs, rest) =>
        some (.noop :: r :: rs, ({ k with thread_todo := rest }).deliver (r :: rs))

end Driver

/-! ## The loop -/

/-- Where the service manager is: `binder_parse` has `rest` to go, and `r` to return. -/
inductive Place
  | reading
  | parsing (r : Int) (rest : List Return)
  | left
  | crashed
  deriving DecidableEq

structure Loop where
  place : Place
  services : Services
  driver : Driver

/-- What clients do, an obituary that is queued, and the steps of the service manager. A
step of `binder_parse` finds memory or does not. -/
inductive Act
  | send (client : Nat) (oneWay : Bool) (txn : binder_txn)
  | exit (client : Nat)
  | died (cookie : Nat) (toThread : Bool)
  | read
  | parse (rdata : List UInt8) (malloc death fits : Bool)

namespace Loop

def init : Loop := ⟨.reading, ⟨[], []⟩, .init⟩

def asksForDeath (cs : List Command) : Bool :=
  cs.any fun
    | .requestDeathNotification _ _ => true
    | _ => false

/-- The handler and `binder_send_reply`. There is a shortage of memory for a notification
only where one is asked for. -/
def onTransaction (s : Loop) (r : Int) (t : Transaction) (rest : List Return)
    (rdata : List UInt8) (malloc death fits : Bool) : Option Loop :=
  match svcmgrHandler { s.services with written := [] } malloc t.txn (bioInit rdata) with
  | .error _ => some { s with place := .crashed }
  | .ok h =>
    if !death && !asksForDeath h.services.written then none
    else some ⟨.parsing r rest, h.services, s.driver.binderThreadWrite death fits
      (h.services.written.map .command ++ [.freeBuffer t, .reply])⟩

/-- `switch(cmd)` of `binder_parse`, and its end. -/
def binderParse (s : Loop) (rdata : List UInt8) (malloc death fits : Bool) : Option Loop :=
  match s.place with
  | .parsing r [] => some { s with place := if r ≤ 0 then .left else .reading }
  | .parsing r (c :: rest) =>
    match c with
    | .noop | .transactionComplete | .refs => some { s with place := .parsing r rest }
    | .transaction t => s.onTransaction r t rest rdata malloc death fits
    | .reply => some { s with place := .parsing 0 rest }
    | .deadBinder cookie => some { s with
      place := .parsing r rest
      services := s.services.svcinfoDeath cookie }
    | .failedReply | .deadReply => some { s with place := .parsing (-1) rest }
    | .error => some { s with place := .left }
  | _ => none

def next (s : Loop) : Act → Option Loop
  | .send client oneWay txn =>
    (s.driver.binderTransaction client oneWay txn).map fun k => { s with driver := k }
  | .exit client => some { s with driver := s.driver.binderFreeThread client }
  | .died cookie toThread =>
    let k := s.driver
    some { s with driver :=
      if toThread then { k with thread_todo := k.thread_todo ++ [.deadBinder cookie] }
      else { k with proc_todo := k.proc_todo ++ [.deadBinder cookie] } }
  | .read =>
    match s.place with
    | .reading => s.driver.binderThreadRead.map fun (rs, k) =>
      { s with place := .parsing 1 rs, driver := k }
    | _ => none
  | .parse rdata malloc death fits => s.binderParse rdata malloc death fits

/-- The actions, in this order, lead to `s`. -/
def Reached (acts : List Act) (s : Loop) : Prop := Runs.after next acts init = some s

end Loop

/-! ## What is to hold -/

def returned (rs : List Return) : List Transaction :=
  rs.filterMap fun
    | .transaction t => some t
    | _ => none

def queued (ws : List Work) : List Transaction :=
  ws.filterMap fun
    | .transaction t => some t
    | _ => none

/-- What a two-way transaction is to be answered with. -/
def replyTo (ts : List Transaction) : List (Option Nat) :=
  (ts.filter fun t => !t.oneWay).map fun t => some t.debug_id

namespace Loop

/-- What the driver has returned and `binder_parse` has not come to. -/
def unparsed (s : Loop) : List Transaction :=
  match s.place with
  | .parsing _ rest => returned rest
  | _ => []

/-- The loop is not left. The buffers that are delivered are freed, each once and in their
order, up to those that are not parsed; and each reply is to a two-way transaction, one to
each. -/
structure Survives (s : Loop) : Prop where
  inLoop : s.place ≠ .left ∧ s.place ≠ .crashed
  freed : s.driver.freed ++ s.unparsed.map Transaction.debug_id =
    s.driver.delivered.map Transaction.debug_id
  once : s.driver.freed.Nodup
  answered : s.driver.answered ++ replyTo s.unparsed = replyTo s.driver.delivered

end Loop

instance (b : Services) (malloc : Bool) (txn : binder_txn) (reply : reply_io) :
    Decidable (Returns b malloc txn reply) :=
  match h : svcmgrHandler b malloc txn reply with
  | .ok r => .isTrue ⟨r, h⟩
  | .error _ => .isFalse fun ⟨_, hr⟩ => by rw [h] at hr; cases hr

instance (b : Services) (malloc : Bool) (txn : binder_txn) : Decidable (Readable b malloc txn) :=
  decidable_of_iff _ (returns_iff b malloc txn (bioInit []))

/-- The transaction that is parsed next is two-way and readable, and there is memory for
the notification that it asks for. -/
def Loop.answerable (s : Loop) : Act → Bool
  | .parse _ malloc death _ =>
    match s.place with
    | .parsing _ (.transaction t :: _) =>
      !t.oneWay && decide (Readable s.services malloc t.txn) && death
    | _ => true
  | _ => true

/-! ## The driver's invariant -/

namespace Driver

/-- All the transactions there have been. -/
def known (k : Driver) : List Transaction :=
  k.delivered ++ (queued k.thread_todo ++ (queued k.proc_todo ++ k.async_todo))

/-- The numbers are each transaction's own, and the thread that sent a two-way one waits
for it. -/
structure Inv (k : Driver) : Prop where
  ids : (k.known.map Transaction.debug_id).Nodup
  old : ∀ t ∈ k.known, t.debug_id ≤ k.binder_last_id
  waits : ∀ id c, k.sender id = some c → k.waiting c = some id

variable {k k' : Driver}

theorem Inv.of_perm (h : k.Inv) (hp : k'.known.Perm k.known)
    (hid : k'.binder_last_id = k.binder_last_id)
    (hw : ∀ id c, k'.sender id = some c → k'.waiting c = some id) : k'.Inv where
  ids := (hp.map _).nodup_iff.mpr h.ids
  old := fun t ht => by
    rw [hid]
    exact h.old t (hp.mem_iff.mp ht)
  waits := hw

theorem Inv.of_cons {t : Transaction} (h : k.Inv) (hp : k'.known.Perm (t :: k.known))
    (ht : t.debug_id = k.binder_last_id + 1) (hid : k'.binder_last_id = k.binder_last_id + 1)
    (hw : ∀ id c, k'.sender id = some c → k'.waiting c = some id) : k'.Inv where
  ids := by
    rw [(hp.map _).nodup_iff, List.map_cons, List.nodup_cons]
    refine ⟨?_, h.ids⟩
    intro hmem
    obtain ⟨u, hu, heq⟩ := List.mem_map.mp hmem
    have hle := h.old u hu
    omega
  old := by
    intro u hu
    rcases List.mem_cons.mp (hp.mem_iff.mp hu) with rfl | hu
    · omega
    · have hle := h.old u hu
      omega
  waits := hw

theorem inv_init : init.Inv := ⟨List.nodup_nil, by simp [known, init, queued], by simp [init]⟩

@[simp] theorem queued_append (ws vs : List Work) : queued (ws ++ vs) = queued ws ++ queued vs :=
  List.filterMap_append

/-- What a client sends leaves what the service manager's thread has. -/
theorem Inv.binderTransaction {client : Nat} {oneWay : Bool} {txn : binder_txn} (h : k.Inv)
    (hs : k.binderTransaction client oneWay txn = some k') : k'.Inv := by
  unfold Driver.binderTransaction at hs
  cases oneWay with
  | true =>
    have hw : ∀ id c, (if id = k.binder_last_id + 1 then none else k.sender id) = some c →
        k.waiting c = some id := by
      intro id c hc
      split at hc
      · cases hc
      · exact h.waits id c hc
    simp only [if_true] at hs
    split at hs
    · cases hs
      refine h.of_cons (t := ⟨k.binder_last_id + 1, true, { txn with target := svcmgr_handle }⟩)
        ?_ rfl rfl hw
      simp only [known, List.perm_iff_count, List.count_append, List.count_cons, List.count_nil]
      intro t
      omega
    · cases hs
      refine h.of_cons (t := ⟨k.binder_last_id + 1, true, { txn with target := svcmgr_handle }⟩)
        ?_ rfl rfl hw
      simp only [known, List.perm_iff_count, List.count_append, List.count_cons, queued_append]
      intro t
      simp only [queued, List.filterMap_cons, List.filterMap_nil, List.count_cons, List.count_nil]
      omega
  | false =>
    simp only [Bool.false_eq_true, if_false] at hs
    split at hs
    · cases hs
    · rename_i hnone
      rw [not_not] at hnone
      cases hs
      refine h.of_cons (t := ⟨k.binder_last_id + 1, false, { txn with target := svcmgr_handle }⟩)
        ?_ rfl rfl ?_
      · simp only [known, List.perm_iff_count, List.count_append, List.count_cons, queued_append]
        intro t
        simp only [queued, List.filterMap_cons, List.filterMap_nil, List.count_cons,
          List.count_nil]
        omega
      · intro id c hc
        dsimp only at hc ⊢
        split at hc
        · rename_i hid
          cases hc
          rw [if_pos rfl, hid]
        · have hw := h.waits id c hc
          have hne : c ≠ client := by
            intro heq
            rw [heq, hnone] at hw
            cases hw
          rw [if_neg hne]
          exact hw

theorem Inv.binderFreeThread (h : k.Inv) (client : Nat) : (k.binderFreeThread client).Inv := by
  refine h.of_perm (.refl _) rfl ?_
  intro id c hc
  unfold Driver.binderFreeThread at hc ⊢
  dsimp only at hc ⊢
  split at hc
  · cases hc
  · rename_i hne
    have hcl : c ≠ client := by
      intro heq
      rw [heq] at hc
      exact hne hc
    rw [if_neg hcl]
    exact h.waits id c hc

/-! ## A transaction is served -/

/-- Nothing is being served, and no error of a reply is pending. -/
def Calm (k : Driver) : Prop :=
  k.transaction_stack = [] ∧ k.buffers = [] ∧
    (k.return_error = none ∨ k.return_error = some .transactionComplete)

/-- A transaction is delivered, and not parsed. -/
def Serving (k : Driver) (t : Transaction) : Prop :=
  k.transaction_stack = (if t.oneWay then [] else [t]) ∧ k.buffers = [t.debug_id] ∧
    k.return_error = none

theorem execute_commands (fits : Bool) (cs : List Command) (h : k.return_error = none) :
    k.binderThreadWrite true fits (cs.map .command) = k := by
  induction cs with
  | nil => rfl
  | cons c cs ih =>
    have hc : k.execute true fits (.command c) = k := by
      cases c <;> simp [execute, h]
    simp only [binderThreadWrite, List.map_cons, List.foldl_cons, hc]
    exact ih

/-- The buffer of a two-way transaction that is delivered. -/
theorem freeBuffer_eq {t : Transaction} (h : k.Serving t) (ht : t.oneWay = false) :
    k.freeBuffer t = { k with buffers := [], freed := k.freed ++ [t.debug_id] } := by
  have hmem : t.debug_id ∈ k.buffers := by
    rw [h.2.1]
    exact List.mem_singleton_self _
  simp [freeBuffer, h.2.1, ht]

theorem Inv.binderPopTransaction {client id : Nat} (h : k.Inv) (hw : k.waiting client = some id) :
    (k.binderPopTransaction client id).Inv := by
  refine h.of_perm (.refl _) rfl ?_
  intro i c hc
  unfold Driver.binderPopTransaction at hc ⊢
  dsimp only at hc ⊢
  split at hc
  · cases hc
  · rename_i hne
    have hw' := h.waits i c hc
    have hcl : c ≠ client := by
      intro heq
      rw [heq, hw] at hw'
      cases hw'
      exact hne rfl
    rw [if_neg hcl]
    exact hw'

/-- The reply to the only transaction on the stack is taken as a reply to it, and leaves
nothing but the news that it is complete. -/
theorem Inv.binderReply {t : Transaction} (h : k.Inv) (hstack : k.transaction_stack = [t])
    (hbuf : k.buffers = []) (herr : k.return_error = none) (fits : Bool) :
    (k.binderReply fits).Inv ∧ (k.binderReply fits).Calm ∧
      (k.binderReply fits).delivered = k.delivered ∧ (k.binderReply fits).freed = k.freed ∧
      (k.binderReply fits).answered = k.answered ++ [some t.debug_id] := by
  simp only [Driver.binderReply, hstack, List.head?_cons, Option.map_some]
  cases hsender : k.sender t.debug_id with
  | none =>
    exact ⟨h.of_perm (.refl _) rfl h.waits, ⟨rfl, hbuf, .inr rfl⟩, rfl, rfl, rfl⟩
  | some client =>
    have hw := h.waits _ _ hsender
    have hpop := h.binderPopTransaction hw
    dsimp only
    rw [if_neg (not_not.mpr hw)]
    cases fits with
    | true =>
      refine ⟨hpop.of_perm ?_ rfl hpop.waits, ⟨rfl, hbuf, .inl herr⟩, rfl, rfl, rfl⟩
      simp only [if_true, known, queued_append]
      simp [queued, Driver.binderPopTransaction]
    | false =>
      exact ⟨hpop.of_perm (.refl _) rfl hpop.waits, ⟨rfl, hbuf, .inr rfl⟩, rfl, rfl, rfl⟩

/-- All that is written for a two-way transaction. -/
theorem Inv.served {t : Transaction} (h : k.Inv) (hk : k.Serving t) (ht : t.oneWay = false)
    (fits : Bool) (cs : List Command)
    (he : k.binderThreadWrite true fits (cs.map .command ++ [.freeBuffer t, .reply]) = k') :
    k'.Inv ∧ k'.Calm ∧ k'.delivered = k.delivered ∧ k'.freed = k.freed ++ [t.debug_id] ∧
      k'.answered = k.answered ++ [some t.debug_id] := by
  have herr := hk.2.2
  have hfree : (k.freeBuffer t).Inv := by
    rw [freeBuffer_eq hk ht]
    exact h.of_perm (.refl _) rfl h.waits
  have hall : k' = (k.freeBuffer t).binderReply fits := by
    rw [← he, binderThreadWrite, List.foldl_append]
    have hcs := execute_commands (k := k) fits cs herr
    rw [binderThreadWrite] at hcs
    rw [hcs]
    simp [execute, herr, freeBuffer_eq hk ht]
  rw [hall]
  have hstack : (k.freeBuffer t).transaction_stack = [t] := by
    rw [freeBuffer_eq hk ht]
    simpa [ht] using hk.1
  have hbuf : (k.freeBuffer t).buffers = [] := by rw [freeBuffer_eq hk ht]
  have herr' : (k.freeBuffer t).return_error = none := by
    rw [freeBuffer_eq hk ht]
    exact herr
  obtain ⟨hi, hc, hd, hf, ha⟩ := hfree.binderReply hstack hbuf herr' fits
  rw [freeBuffer_eq hk ht] at hd hf ha ⊢
  rw [freeBuffer_eq hk ht] at hi hc
  exact ⟨hi, hc, hd, hf, ha⟩

/-! ## What is returned -/

/-- What `binder_parse` has to go: at most one transaction, or one obituary, at the end. -/
inductive Coming (k : Driver) : List Return → Prop
  | done : k.Calm → Coming k []
  | noop {rs : List Return} : Coming k rs → Coming k (.noop :: rs)
  | transactionComplete {rs : List Return} : Coming k rs → Coming k (.transactionComplete :: rs)
  | deadBinder (cookie : Nat) : k.Calm → Coming k [.deadBinder cookie]
  | transaction {t : Transaction} : k.Serving t → Coming k [.transaction t]

theorem Coming.congr {rs : List Return} (h : k.Coming rs)
    (hs : k'.transaction_stack = k.transaction_stack) (hb : k'.buffers = k.buffers)
    (he : k'.return_error = k.return_error) : k'.Coming rs := by
  have hcalm : k.Calm → k'.Calm := by
    intro hc
    unfold Calm
    rw [hs, hb, he]
    exact hc
  induction h with
  | done hc => exact .done (hcalm hc)
  | noop _ ih => exact .noop ih
  | transactionComplete _ ih => exact .transactionComplete ih
  | deadBinder cookie hc => exact .deadBinder cookie (hcalm hc)
  | transaction ht =>
    refine .transaction ?_
    unfold Serving
    rw [hs, hb, he]
    exact ht

/-- The works that are taken are returned, and one transaction of them at most. -/
theorem deliver_takeWork (room : Nat) (ws : List Work) (k : Driver)
    (hs : k.transaction_stack = []) (hb : k.buffers = []) (he : k.return_error = none) :
    let (rs, rest) := takeWork room ws
    (k.deliver rs).Coming rs ∧ (k.deliver rs).delivered = k.delivered ++ returned rs ∧
      queued ws = returned rs ++ queued rest := by
  fun_induction takeWork room ws with
  | case1 => exact ⟨.done ⟨hs, hb, .inl he⟩, (List.append_nil _).symm, rfl⟩
  | case2 => exact ⟨.done ⟨hs, hb, .inl he⟩, (List.append_nil _).symm, rfl⟩
  | case3 room ws hroom rs rest heq ih =>
    rw [heq] at ih
    exact ⟨.transactionComplete ih.1, ih.2.1, ih.2.2⟩
  | case4 room ws hroom cookie =>
    exact ⟨.deadBinder cookie ⟨hs, hb, .inl he⟩, (List.append_nil _).symm, rfl⟩
  | case5 room ws hroom t =>
    refine ⟨.transaction ⟨?_, ?_, he⟩, rfl, rfl⟩
    · simp only [deliver, hs]
    · simp only [deliver, hb, List.nil_append]

theorem deliver_frame (rs : List Return) (k : Driver) :
    (k.deliver rs).thread_todo = k.thread_todo ∧ (k.deliver rs).proc_todo = k.proc_todo ∧
    (k.deliver rs).async_todo = k.async_todo ∧ (k.deliver rs).sender = k.sender ∧
    (k.deliver rs).waiting = k.waiting ∧ (k.deliver rs).binder_last_id = k.binder_last_id ∧
    (k.deliver rs).freed = k.freed ∧ (k.deliver rs).answered = k.answered := by
  fun_induction deliver k rs with
  | case1 => simp
  | case2 => simp
  | case3 r rs _ ih => exact ih

variable (k') in
/-- Works `ws` are taken up to `rest`, which `k'` has left in their place. -/
theorem Inv.deliver {room : Nat} {ws rest : List Work} {rs : List Return} (h : k.Inv)
    (heq : takeWork room ws = (rs, rest)) (hs : k'.transaction_stack = [])
    (hb : k'.buffers = []) (he : k'.return_error = none)
    (hp : (k'.known ++ queued ws).Perm (k.known ++ queued rest))
    (hid : k'.binder_last_id = k.binder_last_id)
    (hw : ∀ id c, k'.sender id = some c → k'.waiting c = some id) :
    (k'.deliver rs).Inv ∧ (k'.deliver rs).Coming rs ∧
      (k'.deliver rs).delivered = k'.delivered ++ returned rs ∧
      (k'.deliver rs).freed = k'.freed ∧ (k'.deliver rs).answered = k'.answered := by
  have hd := deliver_takeWork room ws k' hs hb he
  rw [heq] at hd
  obtain ⟨hc, hdel, hq⟩ := hd
  obtain ⟨h1, h2, h3, h4, h5, h6, h7, h8⟩ := deliver_frame rs k'
  have hperm : (k'.deliver rs).known.Perm k.known := by
    rw [List.perm_iff_count] at hp ⊢
    intro t
    have ht := hp t
    simp only [known, hdel, h1, h2, h3, hq, List.count_append] at ht ⊢
    omega
  refine ⟨h.of_perm hperm (h6.trans hid) ?_, hc, hdel, h7, h8⟩
  rw [h4, h5]
  exact hw

/-- What is read is new to `binder_parse`, and all of it is delivered. -/
theorem Inv.binderThreadRead {rs : List Return} (h : k.Inv) (hk : k.Calm)
    (hr : k.binderThreadRead = some (rs, k')) :
    k'.Inv ∧ k'.Coming rs ∧ k'.delivered = k.delivered ++ returned rs ∧ k'.freed = k.freed ∧
      k'.answered = k.answered := by
  obtain ⟨hs, hb, he⟩ := hk
  unfold Driver.binderThreadRead at hr
  split at hr
  · rename_i e herr
    rw [herr] at he
    rcases he with he | he
    · cases he
    · cases he
      cases hr
      exact ⟨h.of_perm (.refl _) rfl h.waits,
        .noop (.transactionComplete (.done ⟨hs, hb, .inl rfl⟩)), (List.append_nil _).symm, rfl, rfl⟩
  · rename_i herr
    split at hr
    · split at hr
      · cases hr
      · rename_i r rs rest heq
        cases hr
        obtain ⟨hi, hc, hdel, hf, ha⟩ := h.deliver { k with proc_todo := rest } heq hs hb
          herr (by
            simp only [known, List.perm_iff_count, List.count_append]
            intro t
            omega) rfl h.waits
        exact ⟨hi, .noop hc, hdel, hf, ha⟩
    · split at hr
      · cases hr
      · rename_i r rs rest heq
        cases hr
        obtain ⟨hi, hc, hdel, hf, ha⟩ := h.deliver { k with thread_todo := rest } heq hs hb
          herr (by
            simp only [known, List.perm_iff_count, List.count_append]
            intro t
            omega) rfl h.waits
        exact ⟨hi, .noop hc, hdel, hf, ha⟩

end Driver

/-! ## Every run -/

namespace Loop

structure Inv (s : Loop) : Prop where
  driver : s.driver.Inv
  place : match s.place with
    | .reading => s.driver.Calm
    | .parsing r rest => r = 1 ∧ s.driver.Coming rest
    | _ => False
  freed : s.driver.freed ++ s.unparsed.map Transaction.debug_id =
    s.driver.delivered.map Transaction.debug_id
  answered : s.driver.answered ++ replyTo s.unparsed = replyTo s.driver.delivered

variable {s t : Loop}

theorem inv_init : init.Inv := ⟨Driver.inv_init, ⟨rfl, rfl, .inl rfl⟩, rfl, rfl⟩

theorem Inv.survives (h : s.Inv) : s.Survives where
  inLoop := by
    have hp := h.place
    constructor
    · intro heq
      rw [heq] at hp
      exact hp
    · intro heq
      rw [heq] at hp
      exact hp
  freed := h.freed
  once := by
    have hd : (s.driver.delivered.map Transaction.debug_id).Nodup := by
      have hids := h.driver.ids
      rw [Driver.known, List.map_append] at hids
      exact hids.of_append_left
    rw [← h.freed] at hd
    exact hd.of_append_left
  answered := h.answered

/-- A step beside the service manager's own. -/
theorem Inv.beside (h : s.Inv) {k : Driver} (hk : k.Inv)
    (hs : k.transaction_stack = s.driver.transaction_stack) (hb : k.buffers = s.driver.buffers)
    (he : k.return_error = s.driver.return_error) (hd : k.delivered = s.driver.delivered)
    (hf : k.freed = s.driver.freed) (ha : k.answered = s.driver.answered) :
    Inv { s with driver := k } where
  driver := hk
  place := by
    have hp := h.place
    cases hplace : s.place with
    | reading =>
      rw [hplace] at hp
      dsimp only at hp ⊢
      unfold Driver.Calm
      rw [hs, hb, he]
      exact hp
    | parsing r rest =>
      rw [hplace] at hp
      exact ⟨hp.1, hp.2.congr hs hb he⟩
    | left => rw [hplace] at hp; exact hp
    | crashed => rw [hplace] at hp; exact hp
  freed := by
    show k.freed ++ s.unparsed.map _ = k.delivered.map _
    rw [hf, hd]
    exact h.freed
  answered := by
    show k.answered ++ replyTo s.unparsed = replyTo k.delivered
    rw [ha, hd]
    exact h.answered

theorem Inv.send {client : Nat} {oneWay : Bool} {txn : binder_txn} (h : s.Inv)
    (hs : s.next (.send client oneWay txn) = some t) : t.Inv := by
  obtain ⟨k, hk, rfl⟩ := Option.map_eq_some_iff.mp hs
  have hi := h.driver.binderTransaction hk
  unfold Driver.binderTransaction at hk
  split at hk
  · dsimp only at hk
    split at hk
    · cases hk
      exact h.beside hi rfl rfl rfl rfl rfl rfl
    · cases hk
      exact h.beside hi rfl rfl rfl rfl rfl rfl
  · split at hk
    · cases hk
    · cases hk
      exact h.beside hi rfl rfl rfl rfl rfl rfl

theorem Inv.died {cookie : Nat} {toThread : Bool} (h : s.Inv)
    (hs : s.next (.died cookie toThread) = some t) : t.Inv := by
  cases hs
  cases toThread with
  | true =>
    refine h.beside (h.driver.of_perm ?_ rfl h.driver.waits) rfl rfl rfl rfl rfl rfl
    simp [Driver.known, queued]
  | false =>
    refine h.beside (h.driver.of_perm ?_ rfl h.driver.waits) rfl rfl rfl rfl rfl rfl
    simp [Driver.known, queued]

theorem Inv.read (h : s.Inv) (hs : s.next .read = some t) : t.Inv := by
  unfold Loop.next at hs
  dsimp only at hs
  split at hs
  · rename_i hplace
    obtain ⟨⟨rs, k⟩, hr, rfl⟩ := Option.map_eq_some_iff.mp hs
    have hp := h.place
    rw [hplace] at hp
    have hfree := h.freed
    have hans := h.answered
    simp only [unparsed, hplace, List.map_nil, List.append_nil] at hfree hans
    have hnil : replyTo [] = [] := rfl
    rw [hnil, List.append_nil] at hans
    obtain ⟨hi, hc, hd, hf, ha⟩ := h.driver.binderThreadRead hp hr
    refine ⟨hi, ⟨rfl, hc⟩, ?_, ?_⟩
    · show k.freed ++ (returned rs).map _ = k.delivered.map _
      rw [hf, hd, List.map_append, hfree]
    · show k.answered ++ replyTo (returned rs) = replyTo k.delivered
      rw [ha, hd, hans]
      simp [replyTo]
  · cases hs

/-- A transaction that is two-way and readable is answered and freed. -/
theorem Inv.onTransaction {r : Int} {u : Transaction} {rest : List Return} {rdata : List UInt8}
    {malloc fits : Bool} (h : s.Inv) (hplace : s.place = .parsing r (.transaction u :: rest))
    (ht : u.oneWay = false) (hread : Readable s.services malloc u.txn)
    (hs : s.onTransaction r u rest rdata malloc true fits = some t) : t.Inv := by
  have hp := h.place
  rw [hplace] at hp
  obtain ⟨rfl, hc⟩ := hp
  have hfree := h.freed
  have hans := h.answered
  simp only [unparsed, hplace] at hfree hans
  cases hc with
  | transaction hserving =>
    obtain ⟨r, hr⟩ := (returns_iff { s.services with written := [] } malloc u.txn
      (bioInit rdata)).mpr hread
    unfold Loop.onTransaction at hs
    rw [hr] at hs
    simp only [Bool.not_true, Bool.false_and, Bool.false_eq_true, if_false,
      Option.some.injEq] at hs
    obtain ⟨hi, hcalm, hd, hf, ha⟩ := h.driver.served hserving ht fits r.services.written rfl
    subst hs
    refine ⟨hi, ⟨rfl, .done hcalm⟩, ?_, ?_⟩
    · dsimp only
      rw [hf, hd]
      simpa [unparsed, returned] using hfree
    · dsimp only
      rw [ha, hd]
      simpa [unparsed, returned, replyTo, ht] using hans

theorem Inv.binderParse {rdata : List UInt8} {malloc death fits : Bool} (h : s.Inv)
    (hgood : s.answerable (.parse rdata malloc death fits) = true)
    (hs : s.binderParse rdata malloc death fits = some t) : t.Inv := by
  have hp := h.place
  have hfree := h.freed
  have hans := h.answered
  cases hplace : s.place with
  | parsing r rest =>
    rw [hplace] at hp
    obtain ⟨rfl, hc⟩ := hp
    simp only [unparsed, hplace] at hfree hans
    unfold Loop.binderParse at hs
    rw [hplace] at hs
    cases hc with
    | done hcalm =>
      cases hs
      exact ⟨h.driver, hcalm, hfree, hans⟩
    | noop hc =>
      cases hs
      exact ⟨h.driver, ⟨rfl, hc⟩, hfree, hans⟩
    | transactionComplete hc =>
      cases hs
      exact ⟨h.driver, ⟨rfl, hc⟩, hfree, hans⟩
    | deadBinder cookie hcalm =>
      cases hs
      exact ⟨h.driver, ⟨rfl, .done hcalm⟩, hfree, hans⟩
    | transaction hserving =>
      rename_i u
      simp only [answerable, hplace, Bool.and_eq_true, Bool.not_eq_true', decide_eq_true_eq]
        at hgood
      obtain ⟨⟨hone, hread⟩, rfl⟩ := hgood
      exact h.onTransaction hplace hone hread hs
  | reading =>
    unfold Loop.binderParse at hs
    rw [hplace] at hs
    cases hs
  | left =>
    rw [hplace] at hp
    exact hp.elim
  | crashed =>
    rw [hplace] at hp
    exact hp.elim

theorem Inv.next {a : Act} (h : s.Inv) (hgood : s.answerable a = true)
    (hs : s.next a = some t) : t.Inv := by
  cases a with
  | send client oneWay txn => exact h.send hs
  | exit client =>
    cases hs
    exact h.beside (h.driver.binderFreeThread client) rfl rfl rfl rfl rfl rfl
  | died cookie toThread => exact h.died hs
  | read => exact h.read hs
  | parse rdata malloc death fits => exact h.binderParse hgood hs

/-- In a run in which each transaction that is parsed is two-way and readable, the service
manager survives. -/
theorem survives_answerable (acts : List Act) (s : Loop) (hs : Reached acts s)
    (hgood : Runs.Along (fun s a => s.answerable a = true) Loop.next acts init) : s.Survives := by
  have hinv := Runs.along_inv (I := Inv) (fun s a t h hgood ht => h.next hgood ht) acts inv_init
    hgood hs
  exact hinv.survives

/-! ## Two calls -/

def nfcLookup : binder_txn :=
  ⟨0, SVC_MGR_CHECK_SERVICE, 10000, token ++ (writeString16 (.ofAscii (ascii "nfc"))).bytes, []⟩

def step : Act := .parse [] true true true

/-- A lookup, up to the end of its `binder_parse`. -/
def lookUp (oneWay : Bool) (txn : binder_txn) : List Act :=
  [.send 7 oneWay txn, .read, step, step, step]

/-- The next round. -/
def round : List Act := [.read, step, step, step]

def stateAfter (acts : List Act) : Loop := (Runs.after Loop.next acts init).getD init

theorem reached_stateAfter {acts : List Act} (h : (Runs.after Loop.next acts init).isSome) :
    Reached acts (stateAfter acts) := by
  obtain ⟨s, hs⟩ := Option.isSome_iff_exists.mp h
  unfold Reached stateAfter
  rw [hs]
  rfl

theorem nfcLookup_survives : (stateAfter (lookUp false nfcLookup ++ round)).Survives :=
  survives_answerable (lookUp false nfcLookup ++ round) _
    (reached_stateAfter (by decide +kernel)) (by decide +kernel)

/-- A one-way call is replied to, which fails, and the failure ends the loop; and a two-way
call without an interface name makes the handler read at null. -/
theorem not_survives :
    (stateAfter (lookUp true nfcLookup)).driver.answered = [none] ∧
    (stateAfter (lookUp true nfcLookup ++ round)).place = .left ∧
    (stateAfter [.send 7 false namelessId, .read, step, step]).place = .crashed ∧
    ¬ ∀ acts s, Reached acts s → s.Survives := by
  refine ⟨by decide +kernel, by decide +kernel, by decide +kernel, ?_⟩
  intro h
  have hleft : (stateAfter (lookUp true nfcLookup ++ round)).place = .left := by decide +kernel
  exact (h _ _ (reached_stateAfter (by decide +kernel))).inLoop.1 hleft

end Loop

end Cdroid.Servicemanager
