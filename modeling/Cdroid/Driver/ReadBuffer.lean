import Cdroid.Driver.ThreadRead
import Mathlib.Data.List.Basic

/-! What `binder_thread_read` writes: whole commands in the buffer of the reader, and the
command of an item before the item is removed. -/

namespace Cdroid.Driver.ThreadRead
open Cdroid.Lib Cdroid.Lib.Comp
open Cdroid.Driver.Deaths (WorkType)

/-! ## Good reads -/

/-- The words of a command from an offset on. -/
def placed (offset : Int) : List (BitVec 32) → List (Int × BitVec 32)
  | [] => []
  | w :: ws => (offset, w) :: placed (offset + 4) ws

def Command.size (c : Command) : Int := 4 * c.words.length

/-- Two commands lie beside each other, or one takes the place of the other. -/
def Apart (x y : Int × Command) : Prop :=
  x.1 + x.2.size ≤ y.1 ∨ y.1 + y.2.size ≤ x.1 ∨ x.1 = y.1 ∧ x.2.size = y.2.size

/-- All that is stored are the words of commands, which have what belongs to their code. -/
structure Whole (p : Progress) : Prop where
  stores : p.stores = p.written.flatMap fun x => placed x.1 x.2.words
  args : ∀ x ∈ p.written, 4 * x.2.args.length = iocSize x.2.cmd
  apart : p.written.Pairwise Apart

/-- Where an item has been removed that called for a command, it has been written. -/
def Answered (p : Progress) : Prop :=
  ∀ x ∈ p.removed, ∀ cmd ∈ x.2, ∃ offset, (offset, cmd) ∈ p.written

/-- The call has come to `r`. Where the memory of the reader cannot be written it stops, be
it inside of a command. -/
structure Good (c : Call) (r : EStateM.Result Fault Progress Ret) : Prop where
  inside : ∀ x ∈ (final r).stores, 0 ≤ x.1 ∧ x.1 + 4 ≤ c.size.toInt
  whole : (∀ p, r ≠ .error .EFAULT p) → Whole (final r)
  answered : Answered (final r)

/-- The codes have no arguments: none is `BR_ERROR`. -/
def Plain (codes : List (BitVec 32)) : Prop := ∀ code ∈ codes, iocSize code = 0

/-- Where the codes are written, or the first item: `BR_NOOP` comes before, at the start. -/
def firstOffset (consumed : BitVec 64) : Int := if consumed = 0 then 4 else consumed.toInt

/-- The buffer takes a word, the position is in it and not in its first word, and behind
`BR_NOOP` there is nothing, or room for one code, or for two and more. -/
structure Fits (size : BitVec 32) (consumed : BitVec 64) : Prop where
  word : 4 ≤ size.toInt
  start : consumed = 0 ∨ 4 ≤ consumed.toInt
  within : consumed.toInt ≤ size.toInt
  room : size.toInt - firstOffset consumed = 0 ∨ size.toInt - firstOffset consumed = 4 ∨
    8 ≤ size.toInt - firstOffset consumed

/-! ## Commands -/

/-- A command has been written. -/
def Progress.wrote (p : Progress) (cmd : Command) : Progress :=
  { p with
    ptr := p.ptr + cmd.size
    stores := p.stores ++ placed p.ptr cmd.words
    written := p.written ++ [(p.ptr, cmd)] }

/-- The first words of a command have been written. -/
def Progress.torn (p : Progress) (words : List (BitVec 32)) : Progress :=
  { p with
    ptr := p.ptr + 4 * words.length
    stores := p.stores ++ placed p.ptr words }

theorem mem_placed {offset : Int} {words : List (BitVec 32)} {x : Int × BitVec 32}
    (hx : x ∈ placed offset words) : offset ≤ x.1 ∧ x.1 + 4 ≤ offset + 4 * words.length := by
  induction words generalizing offset with
  | nil => cases hx
  | cons w ws ih =>
    rw [List.length_cons]
    rcases List.mem_cons.mp hx with rfl | hx
    · exact ⟨Int.le_refl _, by push_cast; omega⟩
    · have hin := ih hx
      push_cast
      omega

section
variable (f : Binder → Binder) {Q : PUnit → Progress → Prop} {E : Fault → Progress → Prop}
  {p : Progress}

@[simp] theorem wp_onBinder : wp (onBinder f) Q E p = Q ⟨⟩ (p.onBinder f) := rfl

@[simp] theorem wp_onErrors (f : Errors → Errors) :
    wp (onErrors f) Q E p = Q ⟨⟩ (p.onErrors f) := rfl

@[simp] theorem wp_remove (w : Work) (f : WorkLists WorkList Work → WorkLists WorkList Work) :
    wp (remove w f) Q E p = Q ⟨⟩ (p.remove w f) := rfl

end

theorem wp_put (c : Call) (val : BitVec 32) (p : Progress) :
    wp (put c val) (fun _ q => q = p.torn [val]) (fun e q => e = .EFAULT ∧ q = p) p := by
  unfold put
  rw [wp_bind, wp_get]
  by_cases hw : c.writable p.ptr
  · rw [if_pos hw]
    rfl
  · rw [if_neg hw]
    exact ⟨rfl, rfl⟩

theorem torn_torn (p : Progress) (w : BitVec 32) (us : List (BitVec 32)) :
    (p.torn [w]).torn us = p.torn (w :: us) := by
  simp only [Progress.torn, placed, List.length_cons, List.length_nil, List.append_assoc,
    List.cons_append, List.nil_append]
  congr 1
  push_cast
  omega

theorem wp_each_put (c : Call) (words : List (BitVec 32)) (p : Progress) :
    wp (each (put c) words) (fun _ q => q = p.torn words)
      (fun e q => e = .EFAULT ∧ ∃ us, us <+: words ∧ q = p.torn us) p := by
  induction words generalizing p with
  | nil =>
    show p = p.torn []
    simp [Progress.torn, placed]
  | cons w ws ih =>
    rw [each, wp_bind]
    refine wp_mono (wp_put c w p) ?_ ?_
    · rintro _ _ rfl
      refine wp_mono (ih (p.torn [w])) ?_ ?_
      · rintro _ _ rfl
        exact torn_torn p w ws
      · rintro e _ ⟨he, us, hus, rfl⟩
        exact ⟨he, w :: us, (List.prefix_cons_inj w).mpr hus, torn_torn p w us⟩
    · rintro e _ ⟨he, rfl⟩
      exact ⟨he, [], List.nil_prefix, by simp [Progress.torn, placed]⟩

theorem wp_putCommand (c : Call) (cmd : Command) (p : Progress) :
    wp (putCommand c cmd) (fun _ q => q = p.wrote cmd)
      (fun e q => e = .EFAULT ∧ ∃ us, us <+: cmd.words ∧ q = p.torn us) p := by
  unfold putCommand
  rw [wp_bind, wp_get, wp_bind]
  refine wp_mono (wp_each_put c cmd.words p) ?_ fun _ _ h => h
  rintro _ _ rfl
  rfl

/-! ## The invariant -/

/-- The call has written whole commands up to the position, one behind the other. -/
structure Inv (c : Call) (p : Progress) : Prop where
  stores : p.stores = p.written.flatMap fun x => placed x.1 x.2.words
  args : ∀ x ∈ p.written, 4 * x.2.args.length = iocSize x.2.cmd
  chain : p.written.Pairwise fun x y => x.1 + x.2.size ≤ y.1
  first : ∀ x ∈ p.written, x.1 = 0 ∧ x.2.size = 4 ∨ 4 ≤ x.1
  behind : ∀ x ∈ p.written, x.1 + x.2.size ≤ p.ptr
  low : 4 ≤ p.ptr
  start : c.consumed.toInt ≤ p.ptr
  high : p.ptr ≤ c.size.toInt
  answered : Answered p
  plain : Plain p.state.errors.pending

/-- What holds of a call that has stopped anywhere. -/
structure Part (c : Call) (p : Progress) : Prop where
  inside : ∀ x ∈ p.stores, 0 ≤ x.1 ∧ x.1 + 4 ≤ c.size.toInt
  answered : Answered p

/-- How a call stops, or a part of it. -/
def Stops (c : Call) (e : Fault) (p : Progress) : Prop :=
  Part c p ∧ (e ≠ .EFAULT → Whole p)

theorem Command.size_pos (cmd : Command) : 4 ≤ cmd.size := by
  unfold Command.size Command.words
  rw [List.length_cons]
  push_cast
  omega

section
variable {c : Call} {p : Progress}

theorem Inv.part (h : Inv c p) : Part c p where
  inside x hx := by
    rw [h.stores] at hx
    obtain ⟨y, hy, hx⟩ := List.mem_flatMap.mp hx
    have hin := mem_placed hx
    have hfirst := h.first y hy
    have hbehind := h.behind y hy
    have hhigh := h.high
    unfold Command.size at hbehind
    omega
  answered := h.answered

theorem Inv.whole (h : Inv c p) : Whole p :=
  ⟨h.stores, h.args, h.chain.imp Or.inl⟩

theorem Inv.stops (h : Inv c p) (e : Fault) : Stops c e p := ⟨h.part, fun _ => h.whole⟩

/-- What is written stays written. -/
theorem Answered.more {q : Progress} (h : Answered p) (x : Int × Command)
    (hremoved : q.removed = p.removed) (hwritten : q.written = p.written ++ [x]) : Answered q := by
  intro y hy cmd hcmd
  obtain ⟨offset, hmem⟩ := h y (hremoved ▸ hy) cmd hcmd
  exact ⟨offset, hwritten ▸ List.mem_append_left _ hmem⟩

theorem Inv.wrote (h : Inv c p) {cmd : Command} (hroom : p.ptr + cmd.size ≤ c.size.toInt)
    (hargs : 4 * cmd.args.length = iocSize cmd.cmd) : Inv c (p.wrote cmd) := by
  have hpos := cmd.size_pos
  have hlow := h.low
  have hstart := h.start
  refine { stores := ?_, args := ?_, chain := ?_, first := ?_, behind := ?_, low := ?_,
           start := ?_, high := hroom, answered := h.answered.more (p.ptr, cmd) rfl rfl,
           plain := h.plain }
  · simp only [Progress.wrote, List.flatMap_append, h.stores, List.flatMap_cons,
      List.flatMap_nil, List.append_nil]
  · intro x hx
    rcases List.mem_append.mp hx with hx | hx
    · exact h.args x hx
    · rwa [List.mem_singleton.mp hx]
  · refine List.pairwise_append.mpr ⟨h.chain, List.pairwise_singleton _ _, fun x hx y hy => ?_⟩
    rw [List.mem_singleton.mp hy]
    exact h.behind x hx
  · intro x hx
    rcases List.mem_append.mp hx with hx | hx
    · exact h.first x hx
    · rw [List.mem_singleton.mp hx]
      exact Or.inr hlow
  · intro x hx
    show x.1 + x.2.size ≤ p.ptr + cmd.size
    rcases List.mem_append.mp hx with hx | hx
    · have hbehind := h.behind x hx
      omega
    · obtain rfl := List.mem_singleton.mp hx
      exact Int.le_refl _
  · show 4 ≤ p.ptr + cmd.size
    omega
  · show c.consumed.toInt ≤ p.ptr + cmd.size
    omega

theorem Inv.torn (h : Inv c p) {cmd : Command} (hroom : p.ptr + cmd.size ≤ c.size.toInt)
    {us : List (BitVec 32)} (hus : us <+: cmd.words) : Stops c .EFAULT (p.torn us) := by
  refine ⟨⟨fun x hx => ?_, h.answered⟩, fun hne => absurd rfl hne⟩
  rcases List.mem_append.mp hx with hx | hx
  · exact h.part.inside x hx
  · have hin := mem_placed hx
    have hlen : us.length ≤ cmd.words.length := hus.length_le
    have hlow := h.low
    unfold Command.size at hroom
    omega

theorem Inv.putCommand (h : Inv c p) {cmd : Command} (hroom : p.ptr + cmd.size ≤ c.size.toInt)
    (hargs : 4 * cmd.args.length = iocSize cmd.cmd) :
    wp (putCommand c cmd) (fun _ q => q = p.wrote cmd ∧ Inv c q) (Stops c) p := by
  refine wp_mono (wp_putCommand c cmd p) ?_ ?_
  · rintro _ _ rfl
    exact ⟨rfl, h.wrote hroom hargs⟩
  · rintro _ _ ⟨rfl, us, hus, rfl⟩
    exact h.torn hroom hus

/-- The lists, the nodes and the counters are no part of what is written. -/
theorem Inv.onBinder (h : Inv c p) (f : Binder → Binder) : Inv c (p.onBinder f) :=
  ⟨h.stores, h.args, h.chain, h.first, h.behind, h.low, h.start, h.high, h.answered, h.plain⟩

theorem Inv.onErrors (h : Inv c p) {f : Errors → Errors}
    (hf : Plain (f p.state.errors).pending) : Inv c (p.onErrors f) :=
  ⟨h.stores, h.args, h.chain, h.first, h.behind, h.low, h.start, h.high, h.answered, hf⟩

theorem Inv.remove (h : Inv c p) {w : Work}
    (hdue : ∀ cmd ∈ p.state.binder.due w, ∃ offset, (offset, cmd) ∈ p.written)
    (f : WorkLists WorkList Work → WorkLists WorkList Work) : Inv c (p.remove w f) := by
  have hanswered : Answered (p.remove w f) := by
    intro x hx
    rcases List.mem_append.mp hx with hx | hx
    · exact h.answered x hx
    · rw [List.mem_singleton.mp hx]
      exact hdue
  exact ⟨h.stores, h.args, h.chain, h.first, h.behind, h.low, h.start, h.high, hanswered, h.plain⟩

end

/-! ## Items -/

theorem tell_size (n : binder_node) (h : n.tell.1 ≠ BR_NOOP) : iocSize n.tell.1 = 8 := by
  unfold binder_node.tell at h ⊢
  split_ifs at h ⊢
  all_goals
    dsimp only at h ⊢
    first | decide | exact absurd rfl h

theorem deathCommand_size (type : WorkType) : iocSize (Binder.deathCommand type) = 4 := by
  cases type <;> decide

theorem transactionCommand_size (s : Binder) (x : binder_transaction) (b : binder_buffer) :
    iocSize (s.transactionCommand x b).1 = 40 := by
  have hcall : iocSize BR_TRANSACTION = 40 := by decide
  have hreply : iocSize BR_REPLY = 40 := by decide
  unfold Binder.transactionCommand
  cases b.target_node with
  | none => exact hreply
  | some n => exact hcall

/-- The priority is no part of what is read. -/
theorem due_setPriority (c : Call) (t : Nat) (target_node : Option Nat) (s : Binder) :
    (c.setPriority t target_node s).due (.transaction t) = s.due (.transaction t) := by
  have hsaved : (s.setTransaction t fun x => { x with saved_priority := s.nice }).due
      (.transaction t) = s.due (.transaction t) := by
    simp only [Binder.due, Binder.setTransaction, if_true]
    rfl
  unfold Call.setPriority
  cases target_node with
  | none => rfl
  | some n =>
    dsimp only
    split_ifs
    · exact hsaved
    · exact hsaved
    · exact hsaved

/-- The last of the commands that are written. -/
theorem mem_wrote (p : Progress) (cmd : Command) :
    ∃ offset, (offset, cmd) ∈ (p.wrote cmd).written :=
  ⟨p.ptr, List.mem_append_right _ (List.mem_singleton_self _)⟩

section
variable {c : Call} {p : Progress} (h : Inv c p) (hroom : p.ptr + 44 ≤ c.size.toInt)
include h hroom

theorem Inv.readComplete (i : Nat) :
    wp (readComplete c i) (fun _ q => Inv c q) (Stops c) p := by
  have hfits : p.ptr + 4 ≤ c.size.toInt := by omega
  have hsize : iocSize BR_TRANSACTION_COMPLETE = 0 := by decide
  unfold ThreadRead.readComplete
  rw [wp_bind]
  refine wp_mono (h.putCommand hfits hsize.symm) ?_ fun _ _ he => he
  rintro _ q ⟨rfl, hq⟩
  refine hq.remove ?_ _
  rintro _ ⟨⟩
  exact mem_wrote p _

theorem Inv.readNode (n : Nat) : wp (readNode c n) (fun _ q => Inv c q) (Stops c) p := by
  have hfits : p.ptr + 12 ≤ c.size.toInt := by omega
  unfold ThreadRead.readNode
  rw [wp_bind, wp_get]
  dsimp only
  by_cases hcmd : (p.state.binder.nodes n).tell.1 ≠ BR_NOOP
  · have hsize := tell_size _ hcmd
    rw [if_pos hcmd, wp_bind, wp_onBinder]
    refine wp_mono ((h.onBinder _).putCommand ?_ ?_) (fun _ q hq => hq.2) fun _ _ he => he
    · exact hfits
    · rw [hsize]
      rfl
  · have hnone : p.state.binder.due (.node n) = none := if_pos (not_not.mp hcmd)
    have hremoved : Inv c (p.remove (.node n) (·.unlink (.node n))) :=
      h.remove (by rw [hnone]; nofun) _
    rw [if_neg hcmd, wp_bind, wp_remove]
    exact wp_when (fun _ => hremoved.onBinder _) fun _ => hremoved

theorem Inv.readDeath (d : Nat) :
    wp (readDeath c d) (fun next q => Inv c q ∧ next ≠ .retry) (Stops c) p := by
  have hfits : p.ptr + 8 ≤ c.size.toInt := by omega
  have hsize := deathCommand_size (p.state.binder.deaths d).type
  unfold ThreadRead.readDeath
  rw [wp_bind, wp_get]
  dsimp only
  rw [wp_bind]
  refine wp_mono (h.putCommand hfits (by rw [hsize]; rfl)) ?_ fun _ _ he => he
  rintro _ q ⟨rfl, hq⟩
  have hremoved := hq.remove (w := .death d) (by rintro _ ⟨⟩; exact mem_wrote p _)
  split
  · exact ⟨hremoved _, nofun⟩
  · exact ⟨hremoved _, nofun⟩

theorem Inv.readTransaction (t : Nat) :
    wp (readTransaction c t) (fun _ q => Inv c q) (Stops c) p := by
  have hfits : p.ptr + 44 ≤ c.size.toInt := by omega
  unfold ThreadRead.readTransaction
  rw [wp_bind, wp_get]
  dsimp only
  cases hbuffer : (p.state.binder.transactions t).buffer with
  | none => exact h.stops _
  | some b =>
    have hsize := transactionCommand_size p.state.binder (p.state.binder.transactions t) b
    have hdue := due_setPriority c t b.target_node p.state.binder
    dsimp only
    rw [wp_bind, wp_onBinder, wp_bind]
    refine wp_mono ((h.onBinder _).putCommand ?_ ?_) ?_ fun _ _ he => he
    · exact hfits
    · rw [hsize]
      rfl
    rintro _ q ⟨rfl, hq⟩
    rw [wp_bind, wp_remove]
    refine Inv.onBinder (hq.remove ?_ _) _
    -- the priority was set before the command was written
    intro cmd hcmd
    have hsome := hdue.symm.trans hcmd
    simp only [Binder.due, hbuffer, Option.map_some, Option.some.injEq] at hsome
    rw [← hsome]
    exact mem_wrote _ _

theorem Inv.serve (w : Work) :
    wp (serve c w) (fun next q => Inv c q ∧ next ≠ .retry) (Stops c) p := by
  cases w with
  | transaction t =>
    show wp (do ThreadRead.readTransaction c t; pure Next.done) _ _ p
    rw [wp_bind]
    exact wp_mono (h.readTransaction hroom t) (fun _ _ hq => ⟨hq, nofun⟩) fun _ _ he => he
  | transaction_complete i =>
    show wp (do ThreadRead.readComplete c i; pure Next.again) _ _ p
    rw [wp_bind]
    exact wp_mono (h.readComplete hroom i) (fun _ _ hq => ⟨hq, nofun⟩) fun _ _ he => he
  | node n =>
    show wp (do ThreadRead.readNode c n; pure Next.again) _ _ p
    rw [wp_bind]
    exact wp_mono (h.readNode hroom n) (fun _ _ hq => ⟨hq, nofun⟩) fun _ _ he => he
  | death d => exact h.readDeath hroom d

end

/-! ## The loop -/

section
variable {c : Call} {p : Progress}

/-- What lies in the buffer is not taken for a huge difference. -/
theorem Call.room_of_not_full {ptr : Int} (hle : ptr ≤ c.size.toInt) (hlow : 4 ≤ ptr)
    (hfull : ¬ c.full ptr = true) : ptr + 44 ≤ c.size.toInt := by
  have hsize : c.size.toInt < 2 ^ 31 := BitVec.toInt_lt
  unfold Call.full at hfull
  rw [decide_eq_true_iff, BitVec.lt_def, BitVec.toNat_ofInt,
    Int.emod_eq_of_lt (by omega) (by omega)] at hfull
  have hroom : ¬ (c.size.toInt - ptr).toNat < 44 := hfull
  omega

theorem Inv.round (h : Inv c p) (wait : Bool) :
    wp (round c wait) (fun next q => Inv c q ∧ (next = .retry → q.ptr = 4)) (Stops c) p := by
  unfold ThreadRead.round
  rw [wp_bind, wp_get]
  cases nextWork p.state.binder.lists c.proc c.thread wait with
  | none =>
    refine ⟨h, fun hretry => ?_⟩
    split_ifs at hretry with hempty
    exact hempty.1
  | some w =>
    by_cases hfull : c.full p.ptr = true
    · simp only [hfull, if_true]
      exact ⟨h, nofun⟩
    · have hroom := Call.room_of_not_full h.high h.low hfull
      simp only [hfull]
      exact wp_mono (h.serve hroom w) (fun _ _ hq => ⟨hq.1, fun hr => absurd hr hq.2⟩)
        fun _ _ he => he

theorem Inv.work (h : Inv c p) (wait : Bool) (n : Nat) :
    wp (work c wait n) (fun next q => Inv c q ∧ (next = .retry → q.ptr = 4)) (Stops c) p := by
  induction n generalizing p with
  | zero => exact h.stops _
  | succ n ih =>
    rw [ThreadRead.work, wp_bind]
    refine wp_mono (h.round wait) ?_ fun _ _ he => he
    rintro next q ⟨hq, hretry⟩
    split
    · exact ih hq
    · exact ⟨hq, hretry⟩

/-! ## Codes -/

@[simp] theorem mem_pending {e : Errors} {x : BitVec 32} :
    x ∈ e.pending ↔ (x = e.return_error2 ∨ x = e.return_error) ∧ x ≠ BR_OK := by
  simp [Errors.pending]

theorem mem_pending_raise {e : Errors} {code x : BitVec 32} (hx : x ∈ (e.raise code).pending) :
    x = code ∨ x ∈ e.pending := by
  rw [mem_pending] at *
  unfold Errors.raise at hx
  by_cases hone : e.return_error = BR_OK
  · simp only [hone, ne_eq, not_true_eq_false, false_and, if_false, if_true] at hx
    tauto
  · by_cases htwo : e.return_error2 = BR_OK
    · simp only [hone, htwo, ne_eq, not_false_eq_true, true_and, if_true] at hx
      tauto
    · simp only [hone, htwo, and_false, if_false] at hx
      exact Or.inr hx

theorem Inv.raise (h : Inv c p) {code : BitVec 32} (hcode : iocSize code = 0) :
    Inv c (p.raise code) := by
  have hplain : Plain (p.state.errors.raise code).pending := by
    intro x hx
    rcases mem_pending_raise hx with rfl | hx
    · exact hcode
    · exact h.plain x hx
  exact ⟨h.stores, h.args, h.chain, h.first, h.behind, h.low, h.start, h.high, h.answered, hplain⟩

theorem Inv.meanwhile (h : Inv c p) {m : Meanwhile} (hm : Plain m.raised) :
    wp (meanwhile m) (fun _ q => Inv c q ∧ q.ptr = p.ptr) (Stops c) p := by
  unfold ThreadRead.meanwhile
  rw [wp_bind]
  refine wp_mono (wp_each m.raised (I := fun q => Inv c q ∧ q.ptr = p.ptr) ?_ ⟨h, rfl⟩) ?_
    fun _ _ he => he
  · rintro code hcode q ⟨hq, hptr⟩
    exact ⟨hq.raise (hm code hcode), hptr⟩
  · rintro _ q ⟨hq, hptr⟩
    exact ⟨hq.onBinder _, hptr⟩

theorem Plain.parts {o : Others} (h : Plain o.raised) :
    Plain o.waiting.raised ∧ Plain o.waking.raised :=
  ⟨fun x hx => h x (List.mem_append_left _ hx), fun x hx => h x (List.mem_append_right _ hx)⟩

theorem Inv.sleep (h : Inv c p) (wait : Bool) {o : Others} (ho : Plain o.raised) :
    wp (sleep c wait o) (fun _ q => Inv c q ∧ q.ptr = p.ptr) (Stops c) p := by
  unfold ThreadRead.sleep
  rw [wp_bind, wp_onBinder, wp_bind]
  refine wp_mono ((h.onBinder _).meanwhile ho.parts.1) ?_ fun _ _ he => he
  rintro _ q ⟨hq, hptr⟩
  rw [wp_bind, wp_get, wp_bind]
  refine wp_mono (hq.meanwhile ho.parts.2) ?_ fun _ _ he => he
  rintro _ r ⟨hr, hptr'⟩
  exact ⟨hr.onBinder _, hptr'.trans hptr⟩

theorem Inv.putError (h : Inv c p) (he : p.state.errors.return_error ≠ BR_OK)
    (hroom : p.ptr + 4 ≤ c.size.toInt) :
    wp (putError c) (fun _ q => Inv c q) (Stops c) p := by
  have hplain := h.plain p.state.errors.return_error (mem_pending.mpr ⟨Or.inr rfl, he⟩)
  unfold ThreadRead.putError
  rw [wp_bind, wp_get, wp_bind]
  refine wp_mono (h.putCommand hroom ?_) ?_ fun _ _ hs => hs
  · exact hplain.symm
  · rintro _ q ⟨rfl, hq⟩
    refine hq.onErrors fun x hx => hq.plain x ?_
    rw [mem_pending] at *
    exact ⟨hx.1.imp_right fun h1 => absurd h1 hx.2, hx.2⟩

theorem Inv.putErrors (h : Inv c p) (he : p.state.errors.return_error ≠ BR_OK)
    (hroom : c.size.toInt - p.ptr = 4 ∨ 8 ≤ c.size.toInt - p.ptr) :
    wp (putErrors c) (fun _ q => Inv c q) (Stops c) p := by
  unfold ThreadRead.putErrors
  rw [wp_bind, wp_get]
  by_cases htwo : p.state.errors.return_error2 ≠ BR_OK
  · have hplain := h.plain p.state.errors.return_error2 (mem_pending.mpr ⟨Or.inl rfl, htwo⟩)
    have hfirst : p.ptr + 4 ≤ c.size.toInt := by omega
    rw [if_pos htwo, wp_bind]
    refine wp_mono (h.putCommand hfirst hplain.symm) ?_ fun _ _ hs => hs
    rintro _ q ⟨rfl, hq⟩
    rw [wp_bind, wp_get]
    refine wp_when (fun hmore => ?_) fun _ => hq
    rw [wp_bind, wp_onErrors]
    refine Inv.putError (hq.onErrors fun x hx => hq.plain x ?_) he ?_
    · rw [mem_pending] at *
      exact ⟨hx.1.imp_left fun h2 => absurd h2 hx.2, hx.2⟩
    · have hsize : p.ptr + 4 ≠ c.size.toInt := hmore
      show p.ptr + 4 + 4 ≤ c.size.toInt
      omega
  · rw [if_neg htwo]
    exact h.putError he (by omega)

/-! ## The call -/

/-- `BR_SPAWN_LOOPER` takes the place of `BR_NOOP`, or lies before all that is written. -/
theorem Inv.spawned (h : Inv c p) (hword : 4 ≤ c.size.toInt) :
    Part c p.spawned ∧ Whole p.spawned := by
  have hspawn : iocSize BR_SPAWN_LOOPER = 0 := by decide
  refine ⟨⟨fun x hx => ?_, h.answered.more _ rfl rfl⟩, ?_, fun x hx => ?_, ?_⟩
  · rcases List.mem_append.mp hx with hx | hx
    · exact h.part.inside x hx
    · rw [List.mem_singleton.mp hx]
      exact ⟨Int.le_refl 0, hword⟩
  · simp only [Progress.spawned, List.flatMap_append, h.stores, List.flatMap_cons,
      List.flatMap_nil, List.append_nil]
    rfl
  · rcases List.mem_append.mp hx with hx | hx
    · exact h.args x hx
    · rw [List.mem_singleton.mp hx]
      exact hspawn.symm
  · refine List.pairwise_append.mpr
      ⟨h.whole.apart, List.pairwise_singleton _ _, fun x hx y hy => ?_⟩
    rw [List.mem_singleton.mp hy]
    rcases h.first x hx with hfirst | hbehind
    · exact Or.inr (Or.inr hfirst)
    · exact Or.inr (Or.inl hbehind)

theorem Inv.finish (h : Inv c p) (hword : 4 ≤ c.size.toInt) :
    wp (finish c) (fun _ q => Part c q ∧ Whole q) (Stops c) p := by
  have hdone : Inv c { p with consumed := p.ptr } :=
    ⟨h.stores, h.args, h.chain, h.first, h.behind, h.low, h.start, h.high, h.answered, h.plain⟩
  unfold ThreadRead.finish
  rw [wp_bind, wp_modify, wp_bind, wp_get, wp_bind]
  refine wp_when (fun _ => ?_) fun _ => ⟨hdone.part, hdone.whole⟩
  rw [wp_bind, wp_onBinder]
  have hasked := hdone.onBinder fun s => { s with requested_threads := s.requested_threads + 1 }
  unfold putSpawn
  by_cases hw : c.writable 0
  · rw [if_pos hw]
    exact hasked.spawned hword
  · rw [if_neg hw]
    exact hasked.stops _

theorem Inv.errorsOr (hfits : Fits c.size c.consumed) (h : Inv c p)
    (hptr : p.ptr = firstOffset c.consumed)
    {sleeping : Bool → Act Ret}
    (hsleep : ∀ wait, wp (sleeping wait) (fun _ q => Part c q ∧ Whole q) (Stops c) p) :
    wp (errorsOr c sleeping) (fun _ q => Part c q ∧ Whole q) (Stops c) p := by
  unfold ThreadRead.errorsOr
  rw [wp_bind, wp_get]
  dsimp only
  split_ifs with hcodes
  · have hroom := hfits.room
    rw [wp_bind]
    refine wp_mono (h.putErrors hcodes.1 (by omega)) ?_ fun _ _ hs => hs
    exact fun _ q hq => hq.finish hfits.word
  · exact hsleep _

/-- The loop comes back to `retry` with nothing but `BR_NOOP` in the buffer, if that. -/
theorem Inv.again (h : Inv c p) (hfits : Fits c.size c.consumed) (hfour : p.ptr = 4) :
    p.ptr = firstOffset c.consumed := by
  have hstart := h.start
  unfold firstOffset
  split
  · exact hfour
  · next hne =>
    have hge := hfits.start.resolve_left hne
    omega

theorem Inv.retry (hfits : Fits c.size c.consumed) (os : List Others)
    (hos : ∀ o ∈ os, Plain o.raised) (h : Inv c p) (hptr : p.ptr = firstOffset c.consumed) :
    wp (retry c os) (fun _ q => Part c q ∧ Whole q) (Stops c) p := by
  induction os generalizing p with
  | nil => exact h.errorsOr hfits hptr fun _ => h.stops _
  | cons o os ih =>
    refine h.errorsOr hfits hptr fun wait => ?_
    rw [wp_bind]
    refine wp_mono (h.sleep wait (hos o List.mem_cons_self)) ?_ fun _ _ hs => hs
    rintro _ q ⟨hq, -⟩
    split
    · rw [wp_bind, wp_get, wp_bind]
      refine wp_mono (hq.work wait _) ?_ fun _ _ hs => hs
      rintro next r ⟨hr, hretry⟩
      split
      · next hnext =>
        exact ih (fun o ho => hos o (List.mem_cons_of_mem _ ho)) hr (hr.again hfits (hretry hnext))
      · exact hr.finish hfits.word
    · exact ⟨hq.part, hq.whole⟩

theorem answered_start (c : Call) (s : State) : Answered (c.start s) := by
  intro x hx
  cases hx

/-- A part of the buffer has been used. -/
theorem inv_start (hlow : 4 ≤ c.consumed.toInt) (hhigh : c.consumed.toInt ≤ c.size.toInt)
    (s : State) (hs : Plain s.errors.pending) : Inv c (c.start s) where
  stores := rfl
  args x hx := by cases hx
  chain := List.Pairwise.nil
  first x hx := by cases hx
  behind x hx := by cases hx
  low := hlow
  start := Int.le_refl _
  high := hhigh
  answered := answered_start c s
  plain := hs

theorem inv_noop (hzero : c.consumed.toInt = 0) (hword : 4 ≤ c.size.toInt) (s : State)
    (hs : Plain s.errors.pending) : Inv c ((c.start s).wrote ⟨.noop, BR_NOOP, []⟩) := by
  have hnoop : iocSize BR_NOOP = 0 := by decide
  have hptr : ((c.start s).wrote ⟨.noop, BR_NOOP, []⟩).ptr = c.consumed.toInt + 4 := rfl
  have hwritten : ∀ x ∈ ((c.start s).wrote ⟨.noop, BR_NOOP, []⟩).written,
      x = (c.consumed.toInt, ⟨.noop, BR_NOOP, []⟩) := fun x hx => List.mem_singleton.mp hx
  refine { stores := rfl, args := ?_, chain := List.pairwise_singleton _ _, first := ?_,
           behind := ?_, low := by omega, start := by omega, high := by omega,
           answered := (answered_start c s).more _ rfl rfl, plain := hs }
  · intro x hx
    rw [hwritten x hx]
    exact hnoop.symm
  · intro x hx
    rw [hwritten x hx]
    exact Or.inl ⟨hzero, rfl⟩
  · intro x hx
    rw [hwritten x hx]
    exact Int.le_refl _

/-- `BR_NOOP` is written at the start of the buffer, and nothing behind. -/
theorem wp_start (hfits : Fits c.size c.consumed) (s : State) (hs : Plain s.errors.pending) :
    wp (when (c.consumed = 0) (putCommand c ⟨.noop, BR_NOOP, []⟩))
      (fun _ q => Inv c q ∧ q.ptr = firstOffset c.consumed) (Stops c) (c.start s) := by
  have hword := hfits.word
  refine wp_when (fun hzero => ?_) fun hne => ?_
  · have hoffset : c.consumed.toInt = 0 := by rw [hzero]; rfl
    refine wp_mono (wp_putCommand c _ (c.start s)) ?_ ?_
    · rintro _ _ rfl
      refine ⟨inv_noop hoffset hword s hs, ?_⟩
      unfold firstOffset
      rw [if_pos hzero]
      show c.consumed.toInt + 4 = 4
      omega
    · rintro _ _ ⟨rfl, us, hus, rfl⟩
      refine ⟨⟨fun x hx => ?_, answered_start c s⟩, fun he => absurd rfl he⟩
      have hin : c.consumed.toInt ≤ x.1 ∧ x.1 + 4 ≤ c.consumed.toInt + 4 * us.length :=
        mem_placed hx
      have hlen : us.length ≤ 1 := hus.length_le
      omega
  · have hlow := hfits.start.resolve_left hne
    exact ⟨inv_start hlow hfits.within s hs, (if_neg hne).symm⟩

theorem good_read (hfits : Fits c.size c.consumed) (hos : ∀ o ∈ c.others, Plain o.raised)
    (s : State) (hs : Plain s.errors.pending) : Good c (c.read s) := by
  have hread : wp (threadRead c) (fun _ q => Part c q ∧ Whole q) (Stops c) (c.start s) := by
    unfold threadRead
    rw [wp_bind]
    refine wp_mono (wp_start hfits s hs) ?_ fun _ _ h => h
    rintro _ q ⟨hq, hptr⟩
    exact hq.retry hfits c.others hos hptr
  unfold Call.read
  unfold wp at hread
  cases hr : threadRead c (c.start s) with
  | ok a q =>
    rw [hr] at hread
    exact ⟨hread.1.inside, fun _ => hread.2, hread.1.answered⟩
  | error e q =>
    rw [hr] at hread
    exact ⟨hread.1.inside, fun he => hread.2 fun heq => he q (heq ▸ rfl), hread.1.answered⟩

end

/-! ## When reads are good -/

/-- The memory of the reader can be written. -/
theorem wp_putCommand_writable {c : Call} (hw : ∀ offset, c.writable offset = true)
    (cmd : Command) (p : Progress) :
    wp (putCommand c cmd) (fun _ q => q = p.wrote cmd) (fun _ _ => False) p := by
  have hwords : ∀ words p, wp (each (put c) words) (fun _ q => q = Progress.torn p words)
      (fun _ _ => False) p := by
    intro words
    induction words with
    | nil =>
      intro p
      show p = p.torn []
      simp [Progress.torn, placed]
    | cons w ws ih =>
      intro p
      rw [each, wp_bind]
      unfold put
      rw [wp_bind, wp_get, if_pos (hw p.ptr), wp_modify, ← torn_torn p w ws]
      exact ih (p.torn [w])
  unfold putCommand
  rw [wp_bind, wp_get, wp_bind]
  refine wp_mono (hwords cmd.words p) ?_ fun _ _ h => h
  rintro _ _ rfl
  rfl

/-- A thread that has entered the loop and has to return, of a process with no other. -/
def idle (lists : WorkLists WorkList Work) : Binder where
  nodes _ := ⟨0, 0, false, 0, 0, 0, false, false, false, false, 0, false⟩
  transactions _ := ⟨none, none, none, none, 0, 0, 0, 0, 0⟩
  deaths _ := ⟨.BINDER_WORK_DEAD_BINDER, 0⟩
  lists := lists
  transaction_stack := none
  looper := BINDER_LOOPER_STATE_ENTERED ||| BINDER_LOOPER_STATE_NEED_RETURN
  max_threads := 1
  requested_threads := 0
  requested_threads_started := 0
  ready_threads := 0
  default_priority := 0
  user_buffer_offset := 0
  nice := 0

/-- A reader whose memory can be written. -/
def reader (size : BitVec 32) (consumed : BitVec 64) (others : List Others) : Call where
  proc := 0
  thread := 0
  size := size
  consumed := consumed
  non_block := false
  writable _ := true
  can_nice _ := true
  rlim_nice := 0
  others := others

section
variable {size : BitVec 32} {consumed : BitVec 64} {others : List Others}

theorem wp_reader_start (s : State) :
    wp (when ((reader size consumed others).consumed = 0)
        (putCommand (reader size consumed others) ⟨.noop, BR_NOOP, []⟩))
      (fun _ q => q.ptr = firstOffset consumed ∧ q.state = s ∧
        (consumed = 0 → (0, BR_NOOP) ∈ q.stores) ∧ (consumed ≠ 0 → q.written = []))
      (fun _ _ => False) ((reader size consumed others).start s) := by
  refine wp_when (fun hzero => ?_) fun hne => ?_
  · have hcase : consumed = 0 := hzero
    refine wp_mono (wp_putCommand_writable (fun _ => rfl) _ _) ?_ fun _ _ h => h
    rintro _ _ rfl
    subst hcase
    exact ⟨rfl, rfl, fun _ => List.mem_singleton_self _, fun hne => absurd rfl hne⟩
  · have hcase : consumed ≠ 0 := hne
    exact ⟨(if_neg hcase).symm, rfl, fun h => absurd h hcase, fun _ => rfl⟩

theorem wp_reader_finish {p : Progress} (hlooper : p.state.binder.wantsLooper = true) :
    wp (finish (reader size consumed others))
      (fun _ q => q.stores = p.stores ++ [(0, BR_SPAWN_LOOPER)] ∧
        q.written = p.written ++ [(0, ⟨.spawn_looper, BR_SPAWN_LOOPER, []⟩)])
      (fun _ _ => False) p := by
  unfold finish
  rw [wp_bind, wp_modify, wp_bind, wp_get, wp_bind]
  exact wp_when (fun _ => ⟨rfl, rfl⟩) fun hno => absurd hlooper hno

/-- One code is written at the first place, and `BR_SPAWN_LOOPER`. -/
theorem wp_reader_code {code : BitVec 32} (hcode : code ≠ BR_OK)
    (hroom : firstOffset consumed < size.toInt) :
    wp (threadRead (reader size consumed []))
      (fun _ q => (firstOffset consumed, code) ∈ q.stores ∧
        (firstOffset consumed, ⟨.error, code, []⟩) ∈ q.written ∧ (consumed ≠ 0 → q.written =
          [(consumed.toInt, ⟨.error, code, []⟩),
            (0, ⟨.spawn_looper, BR_SPAWN_LOOPER, []⟩)]))
      (fun _ _ => False)
      ((reader size consumed []).start ⟨idle .empty, ⟨code, BR_OK⟩⟩) := by
  unfold threadRead
  rw [wp_bind]
  refine wp_mono (wp_reader_start _) ?_ fun _ _ h => h
  rintro _ p ⟨hptr, hstate, -, hwritten⟩
  have hcond : p.state.errors.return_error ≠ BR_OK ∧
      p.ptr < (reader size consumed []).size.toInt := by
    rw [hstate, hptr]
    exact ⟨hcode, hroom⟩
  show wp (retry (reader size consumed []) []) _ _ p
  unfold retry errorsOr
  rw [wp_bind, wp_get, if_pos hcond, wp_bind]
  unfold putErrors
  rw [wp_bind, wp_get, hstate, if_neg (not_not.mpr rfl)]
  unfold putError
  rw [wp_bind, wp_get, wp_bind]
  refine wp_mono (wp_putCommand_writable (fun _ => rfl) _ _) ?_ fun _ _ h => h
  rintro _ _ rfl
  rw [wp_onErrors]
  refine wp_mono (wp_reader_finish ?_) ?_ fun _ _ h => h
  · show p.state.binder.wantsLooper = true
    rw [hstate]
    show (idle .empty).wantsLooper = true
    decide
  · rintro _ q ⟨hstores, hall⟩
    have hq : q.stores = p.stores ++ [(firstOffset consumed, code)] ++
        [(0, BR_SPAWN_LOOPER)] := by
      rw [hstores, ← hptr]
      simp only [Progress.onErrors, Progress.wrote, hstate]
      rfl
    have hw : q.written = p.written ++ [(firstOffset consumed, ⟨.error, code, []⟩)] ++
        [(0, ⟨.spawn_looper, BR_SPAWN_LOOPER, []⟩)] := by
      rw [hall, ← hptr]
      simp only [Progress.onErrors, Progress.wrote, hstate]
    refine ⟨by simp [hq], by simp [hw], fun hne => ?_⟩
    have hfirst : firstOffset consumed = consumed.toInt := if_neg hne
    rw [hw, hwritten hne, hfirst]
    rfl

/-- With room for more than one code, the second one is written behind the first. -/
theorem wp_reader_failed_twice (hroom : firstOffset consumed + 4 < size.toInt) :
    wp (threadRead (reader size consumed []))
      (fun _ q => (firstOffset consumed + 4, BR_FAILED_REPLY) ∈ q.stores) (fun _ _ => False)
      ((reader size consumed []).start ⟨idle .empty, ⟨BR_FAILED_REPLY, BR_FAILED_REPLY⟩⟩) := by
  have hcode : BR_FAILED_REPLY ≠ BR_OK := by decide
  unfold threadRead
  rw [wp_bind]
  refine wp_mono (wp_reader_start _) ?_ fun _ _ h => h
  rintro _ p ⟨hptr, hstate, -, -⟩
  have hcond : p.state.errors.return_error ≠ BR_OK ∧
      p.ptr < (reader size consumed []).size.toInt := by
    rw [hstate, hptr]
    exact ⟨hcode, by show firstOffset consumed < size.toInt; omega⟩
  show wp (retry (reader size consumed []) []) _ _ p
  unfold retry errorsOr
  rw [wp_bind, wp_get, if_pos hcond, wp_bind]
  unfold putErrors
  rw [wp_bind, wp_get, hstate, if_pos hcode, wp_bind]
  refine wp_mono (wp_putCommand_writable (fun _ => rfl) _ _) ?_ fun _ _ h => h
  rintro _ _ rfl
  rw [wp_bind, wp_get]
  refine wp_when (fun _ => ?_) fun hno => absurd hno ?_
  · unfold putError
    rw [wp_bind, wp_onErrors, wp_bind, wp_get, wp_bind]
    refine wp_mono (wp_putCommand_writable (fun _ => rfl) _ _) ?_ fun _ _ h => h
    rintro _ _ rfl
    rw [wp_onErrors]
    refine wp_mono (wp_reader_finish ?_) ?_ fun _ _ h => h
    · show p.state.binder.wantsLooper = true
      rw [hstate]
      decide
    · rintro _ q ⟨hstores, -⟩
      have hq : (p.ptr + 4, BR_FAILED_REPLY) ∈ q.stores := by
        rw [hstores]
        simp only [Progress.onErrors, Progress.wrote, hstate]
        exact List.mem_append_left _ (List.mem_append_right _ (List.mem_singleton_self _))
      rwa [hptr] at hq
  · show ¬ ¬ p.ptr + 4 ≠ size.toInt
    omega

/-- One item, that a transaction has been accepted. -/
def accepted : WorkLists WorkList Work :=
  WorkLists.empty.moveTail (.transaction_complete 0) (.threadTodo 0 0)

/-- A position behind the end is taken for one with room. -/
theorem Call.not_full_behind {c : Call} (hlt : c.size.toInt < c.consumed.toInt) :
    ¬ c.full c.consumed.toInt = true := by
  have hsize : -2 ^ 31 ≤ c.size.toInt := BitVec.le_toInt c.size
  have hconsumed : c.consumed.toInt < 2 ^ 63 := BitVec.toInt_lt
  have hmod : (c.size.toInt - c.consumed.toInt) % ((2 ^ 64 : Nat) : Int) =
      c.size.toInt - c.consumed.toInt + 2 ^ 64 := by omega
  unfold Call.full
  rw [decide_eq_true_iff, BitVec.lt_def, BitVec.toNat_ofInt, hmod]
  show ¬ (c.size.toInt - c.consumed.toInt + 2 ^ 64).toNat < 44
  omega

theorem wp_round_full {c : Call} {p : Progress} {wait : Bool} {w : Work}
    (hnext : nextWork p.state.binder.lists c.proc c.thread wait = some w)
    (hfull : c.full p.ptr = true) :
    wp (round c wait) (fun next q => next = .done ∧ q = p) (fun _ _ => False) p := by
  unfold round
  rw [wp_bind, wp_get, hnext]
  simp only [hfull, if_true]
  exact ⟨rfl, rfl⟩

theorem wp_round_return {c : Call} {p : Progress} {wait : Bool}
    (hnext : nextWork p.state.binder.lists c.proc c.thread wait = none)
    (hreturn : p.state.binder.needReturn = true) :
    wp (round c wait) (fun next q => next = .done ∧ q = p) (fun _ _ => False) p := by
  unfold round
  rw [wp_bind, wp_get, hnext]
  refine ⟨if_neg fun h => ?_, rfl⟩
  rw [hreturn] at h
  exact absurd h.2 Bool.false_ne_true

theorem wp_round_complete {c : Call} {p : Progress} {wait : Bool} {i : Nat}
    (hw : ∀ offset, c.writable offset = true)
    (hnext : nextWork p.state.binder.lists c.proc c.thread wait = some (.transaction_complete i))
    (hfull : ¬ c.full p.ptr = true) :
    wp (round c wait) (fun next q => next = .again ∧ (p.ptr, BR_TRANSACTION_COMPLETE) ∈ q.stores ∧
      q.state.binder = { p.state.binder with
        lists := p.state.binder.lists.unlink (.transaction_complete i) })
      (fun _ _ => False) p := by
  unfold round
  rw [wp_bind, wp_get, hnext]
  simp only [hfull]
  show wp (do readComplete c i; pure Next.again) _ _ p
  unfold readComplete
  rw [wp_bind, wp_bind]
  refine wp_mono (wp_putCommand_writable hw _ p) ?_ fun _ _ h => h
  rintro _ _ rfl
  rw [wp_remove]
  exact ⟨rfl, List.mem_append_right _ (List.mem_singleton_self _), rfl⟩

theorem wp_work_accepted {c : Call} {p : Progress} (hproc : c.proc = 0) (hthread : c.thread = 0)
    (hw : ∀ offset, c.writable offset = true) (hstate : p.state.binder = idle accepted) (n : Nat) :
    wp (work c false (n + 2)) (fun next q => next = .done ∧ q.state.binder.wantsLooper = true ∧
      (¬ c.full p.ptr = true → (p.ptr, BR_TRANSACTION_COMPLETE) ∈ q.stores))
      (fun _ _ => False) p := by
  have hnext : nextWork p.state.binder.lists c.proc c.thread false =
      some (.transaction_complete 0) := by
    rw [hstate, hproc, hthread]
    decide
  rw [work, wp_bind]
  by_cases hfull : c.full p.ptr = true
  · refine wp_mono (wp_round_full hnext hfull) ?_ fun _ _ h => h
    rintro _ _ ⟨rfl, rfl⟩
    refine ⟨rfl, ?_, fun h => absurd hfull h⟩
    rw [hstate]
    decide
  · refine wp_mono (wp_round_complete hw hnext hfull) ?_ fun _ _ h => h
    rintro _ q ⟨rfl, hstored, hq⟩
    rw [hstate] at hq
    have hnone : nextWork q.state.binder.lists c.proc c.thread false = none := by
      rw [hq, hproc, hthread]
      decide
    rw [if_pos rfl, work, wp_bind]
    refine wp_mono (wp_round_return hnone (by rw [hq]; decide)) ?_ fun _ _ h => h
    rintro _ _ ⟨rfl, rfl⟩
    refine ⟨rfl, ?_, fun _ => hstored⟩
    rw [hq]
    decide

/-- One wait in which nothing else happens. -/
def quiet : Others := ⟨⟨[], id⟩, ⟨[], id⟩⟩

theorem wp_sleep_idle {c : Call} (hproc : c.proc = 0) (hthread : c.thread = 0) {p : Progress}
    (hstate : p.state = ⟨idle accepted, ⟨BR_OK, BR_OK⟩⟩) :
    wp (sleep c false quiet) (fun awake q => awake = true ∧ q.ptr = p.ptr ∧ q.state = p.state)
      (fun _ _ => False) p := by
  have hlooper : (BINDER_LOOPER_STATE_ENTERED ||| BINDER_LOOPER_STATE_NEED_RETURN |||
      BINDER_LOOPER_STATE_WAITING) &&& ~~~BINDER_LOOPER_STATE_WAITING =
      BINDER_LOOPER_STATE_ENTERED ||| BINDER_LOOPER_STATE_NEED_RETURN := by decide
  unfold sleep
  rw [wp_bind, wp_onBinder]
  refine ⟨?_, rfl, ?_⟩
  · have hitems : (accepted.items (.threadTodo 0 0) != []) = true := by decide
    show c.awake false _ = true
    simp only [Call.awake, State.hasThreadWork, Progress.onBinder, quiet, hstate, hproc, hthread,
      id, idle, hitems, Bool.true_or, Bool.false_eq_true, if_false]
  · simp only [Progress.onBinder, quiet, hstate, id, idle, hlooper]
    rfl

/-- With an item on the list, a position behind the end is written at. -/
theorem wp_reader_accepted (hne : consumed ≠ 0) :
    wp (threadRead (reader size consumed [quiet]))
      (fun _ q => (0, BR_SPAWN_LOOPER) ∈ q.stores ∧ (size.toInt < consumed.toInt →
        (consumed.toInt, BR_TRANSACTION_COMPLETE) ∈ q.stores))
      (fun _ _ => False)
      ((reader size consumed [quiet]).start ⟨idle accepted, ⟨BR_OK, BR_OK⟩⟩) := by
  have hitems : accepted.items (.threadTodo 0 0) ≠ [] := by decide
  have hwait : decide ((idle accepted).transaction_stack = none ∧ (idle accepted).lists.items
      (.threadTodo (reader size consumed [quiet]).proc (reader size consumed [quiet]).thread) =
        []) = false :=
    decide_eq_false fun h => hitems h.2
  have hrounds : (reader size consumed [quiet]).rounds (idle accepted) = 4 := by
    show 3 * ((accepted.items (.threadTodo 0 0)).length + (accepted.items (.todo 0)).length) + 1 = 4
    decide
  unfold threadRead
  rw [wp_bind]
  refine wp_mono (wp_reader_start _) ?_ fun _ _ h => h
  rintro _ p ⟨hptr, hstate, -, -⟩
  have hfirst : p.ptr = consumed.toInt := hptr.trans (if_neg hne)
  show wp (retry (reader size consumed [quiet]) [quiet]) _ _ p
  unfold retry errorsOr
  rw [wp_bind, wp_get, hstate, if_neg fun h => h.1 rfl]
  dsimp only
  rw [hwait, wp_bind]
  refine wp_mono (wp_sleep_idle rfl rfl hstate) ?_ fun _ _ h => h
  rintro _ q ⟨rfl, hq, hqstate⟩
  rw [if_pos rfl, wp_bind, wp_get, hqstate, hstate, wp_bind, hrounds]
  refine wp_mono (wp_work_accepted rfl rfl (fun _ => rfl) (by rw [hqstate, hstate]) 2) ?_
    fun _ _ h => h
  rintro _ r ⟨rfl, hlooper, hstored⟩
  rw [if_neg nofun]
  refine wp_mono (wp_reader_finish hlooper) ?_ fun _ _ h => h
  rintro _ u ⟨hstores, -⟩
  refine ⟨by simp [hstores], fun hlt => ?_⟩
  have hoffset : q.ptr = consumed.toInt := hq.trans hfirst
  rw [hstores, ← hoffset]
  refine List.mem_append_left _ (hstored ?_)
  rw [hoffset]
  exact Call.not_full_behind (c := reader size consumed [quiet]) hlt

end

/-- Every call with a buffer of this size and this offset is good, whatever is on the lists,
with every pair of codes that have no arguments. -/
def AllGood (size : BitVec 32) (consumed : BitVec 64) : Prop :=
  ∀ c : Call, c.size = size → c.consumed = consumed → (∀ o ∈ c.others, Plain o.raised) →
    ∀ s : State, Plain s.errors.pending → Good c (c.read s)

section
variable {size : BitVec 32} {consumed : BitVec 64}

theorem plain_pending (e : Errors) (h1 : e.return_error = BR_OK ∨ iocSize e.return_error = 0)
    (h2 : e.return_error2 = BR_OK ∨ iocSize e.return_error2 = 0) : Plain e.pending := by
  intro code hmem
  rw [mem_pending] at hmem
  obtain ⟨rfl | rfl, hne⟩ := hmem
  · exact h2.resolve_left hne
  · exact h1.resolve_left hne

theorem plain_failed : iocSize BR_FAILED_REPLY = 0 := by decide

theorem plain_quiet : ∀ o ∈ [quiet], Plain o.raised := by
  simp [Plain, quiet, Others.raised]

theorem AllGood.good_reader (h : AllGood size consumed) (others : List Others)
    (hothers : ∀ o ∈ others, Plain o.raised) {s : State} (hs : Plain s.errors.pending) :
    Good (reader size consumed others) ((reader size consumed others).read s) :=
  h _ rfl rfl hothers s hs

/-- What a reader whose memory can be written gets is inside of the buffer. -/
theorem AllGood.inside (h : AllGood size consumed) {others : List Others}
    (hothers : ∀ o ∈ others, Plain o.raised) {s : State} (hs : Plain s.errors.pending)
    {x : Int × BitVec 32} (hread : wp (threadRead (reader size consumed others))
      (fun _ q => x ∈ q.stores) (fun _ q => x ∈ q.stores)
      ((reader size consumed others).start s)) : 0 ≤ x.1 ∧ x.1 + 4 ≤ size.toInt :=
  (h.good_reader others hothers hs).inside x (wp_final hread)

theorem AllGood.failed (h : AllGood size consumed) (hroom : firstOffset consumed < size.toInt) :
    0 ≤ firstOffset consumed ∧ firstOffset consumed + 4 ≤ size.toInt :=
  h.inside (x := (firstOffset consumed, BR_FAILED_REPLY)) (List.forall_mem_nil _)
    (plain_pending ⟨BR_FAILED_REPLY, BR_OK⟩ (Or.inr plain_failed) (Or.inl rfl))
    (wp_mono (wp_reader_code (by decide) hroom) (fun _ _ hq => hq.1) fun _ _ hno => hno.elim)

theorem AllGood.failed_twice (h : AllGood size consumed)
    (hroom : firstOffset consumed + 4 < size.toInt) : firstOffset consumed + 8 ≤ size.toInt := by
  have hin := h.inside (x := (firstOffset consumed + 4, BR_FAILED_REPLY)) (List.forall_mem_nil _)
    (plain_pending ⟨BR_FAILED_REPLY, BR_FAILED_REPLY⟩ (Or.inr plain_failed) (Or.inr plain_failed))
    (wp_mono (wp_reader_failed_twice hroom) (fun _ _ hq => hq) fun _ _ hno => hno.elim)
  dsimp only at hin
  omega

theorem AllGood.word (h : AllGood size consumed) : 4 ≤ size.toInt := by
  by_cases hzero : consumed = 0
  · have hnoop : wp (threadRead (reader size consumed [])) (fun _ q => (0, BR_NOOP) ∈ q.stores)
        (fun _ q => (0, BR_NOOP) ∈ q.stores)
        ((reader size consumed []).start ⟨idle .empty, ⟨BR_OK, BR_OK⟩⟩) := by
      unfold threadRead
      rw [wp_bind]
      refine wp_mono (wp_reader_start _) ?_ fun _ _ hno => hno.elim
      rintro _ p ⟨-, hstate, hstored, -⟩
      show wp (retry (reader size consumed []) []) _ _ p
      unfold retry errorsOr
      rw [wp_bind, wp_get, hstate, if_neg fun hc => hc.1 rfl]
      exact hstored hzero
    have hin := h.inside (List.forall_mem_nil _)
      (plain_pending ⟨BR_OK, BR_OK⟩ (Or.inl rfl) (Or.inl rfl)) hnoop
    exact hin.2
  · have hin := h.inside (x := (0, BR_SPAWN_LOOPER)) plain_quiet
      (plain_pending ⟨BR_OK, BR_OK⟩ (Or.inl rfl) (Or.inl rfl))
      (wp_mono (wp_reader_accepted hzero) (fun _ _ hq => hq.1) fun _ _ hno => hno.elim)
    exact hin.2

theorem AllGood.within (h : AllGood size consumed) : consumed.toInt ≤ size.toInt := by
  have hword := h.word
  by_contra hbehind
  have hlt : size.toInt < consumed.toInt := Int.not_le.mp hbehind
  have hne : consumed ≠ 0 := by
    rintro rfl
    have hzero : (0 : BitVec 64).toInt = 0 := rfl
    omega
  have hin := h.inside (x := (consumed.toInt, BR_TRANSACTION_COMPLETE)) plain_quiet
    (plain_pending ⟨BR_OK, BR_OK⟩ (Or.inl rfl) (Or.inl rfl))
    (wp_mono (wp_reader_accepted hne) (fun _ _ hq => hq.2 hlt) fun _ _ hno => hno.elim)
  dsimp only at hin
  omega

/-- In the first word, a code would be torn by `BR_SPAWN_LOOPER`. -/
theorem AllGood.start (h : AllGood size consumed) : consumed = 0 ∨ 4 ≤ consumed.toInt := by
  have hword := h.word
  by_contra hnot
  rw [not_or] at hnot
  have hfirst : firstOffset consumed = consumed.toInt := if_neg hnot.1
  have hroom : firstOffset consumed < size.toInt := by omega
  have hin := h.failed hroom
  have hne : consumed.toInt ≠ 0 := fun hzero =>
    hnot.1 (BitVec.eq_of_toInt_eq (hzero.trans rfl))
  have hgood := h.good_reader [] (List.forall_mem_nil _)
    (s := ⟨idle .empty, ⟨BR_FAILED_REPLY, BR_OK⟩⟩)
    (plain_pending ⟨BR_FAILED_REPLY, BR_OK⟩ (Or.inr plain_failed) (Or.inl rfl))
  have hread := wp_reader_code (show BR_FAILED_REPLY ≠ BR_OK by decide) hroom
  unfold Call.read at hgood
  unfold wp at hread
  cases hr : threadRead (reader size consumed [])
      ((reader size consumed []).start ⟨idle .empty, ⟨BR_FAILED_REPLY, BR_OK⟩⟩) with
  | ok a q =>
    rw [hr] at hread hgood
    have happart := (hgood.whole nofun).apart
    rw [show (final (.ok a q : EStateM.Result Fault Progress Ret)).written = _ from
      hread.2.2 hnot.1] at happart
    have hpair := List.rel_of_pairwise_cons happart (List.mem_singleton_self _)
    unfold Apart Command.size Command.words at hpair
    simp only [List.length_cons, List.length_nil] at hpair
    omega
  | error e q =>
    rw [hr] at hread
    exact hread

/-- A code that has arguments, as `BR_ERROR` has, is written without them. -/
theorem not_good_of_args {code : BitVec 32} (hcode : code ≠ BR_OK) (hargs : iocSize code ≠ 0)
    (hroom : firstOffset consumed < size.toInt) :
    ¬ Good (reader size consumed []) ((reader size consumed []).read
      ⟨idle .empty, ⟨code, BR_OK⟩⟩) := by
  intro hgood
  have hread := wp_reader_code hcode hroom
  unfold Call.read at hgood
  unfold wp at hread
  cases hr : threadRead (reader size consumed [])
      ((reader size consumed []).start ⟨idle .empty, ⟨code, BR_OK⟩⟩) with
  | ok a q =>
    rw [hr] at hread hgood
    exact hargs ((hgood.whole nofun).args _ hread.2.1).symm
  | error e q =>
    rw [hr] at hread
    exact hread

theorem fits_of_allGood (h : AllGood size consumed) : Fits size consumed := by
  have hword := h.word
  have hwithin := h.within
  have hstart := h.start
  have hle : firstOffset consumed ≤ size.toInt := by
    unfold firstOffset
    split <;> assumption
  refine ⟨hword, hstart, hwithin, ?_⟩
  by_contra hroom
  have hone := h.failed (by omega)
  have htwo := h.failed_twice (by omega)
  omega

/-- **Whole commands, in the buffer.** -/
theorem allGood_iff : AllGood size consumed ↔ Fits size consumed := by
  refine ⟨fits_of_allGood, ?_⟩
  rintro hfits c rfl rfl hothers s hs
  exact good_read hfits hothers s hs

end

end Cdroid.Driver.ThreadRead
