import Cdroid.Driver.ReadBuffer
import Cdroid.Lib.Runs

/-! The codes of failed transactions over the reads of a thread: each that finds a place is
read once. -/

namespace Cdroid.Driver.ThreadRead
open Cdroid.Lib Cdroid.Lib.Comp
open Cdroid.Lib.Runs (after along_inv along_of_inv along_of_forall)

/-! ## Runs -/

/-- The codes that have been written as such. -/
def Progress.delivered (p : Progress) : List (BitVec 32) :=
  p.written.filterMap fun x => if x.2.origin = .error then some x.2.cmd else none

/-- A thread between its reads, with the codes that it has read and those that were raised
for it and found a place. -/
structure History where
  state : State
  delivered : List (BitVec 32)
  raised : List (BitVec 32)

/-- The thread reads, or something else happens, which may be a transaction of its own that
fails. -/
inductive Step
  | read (c : Call)
  | meanwhile (w : Meanwhile)

def History.raise (m : History) (code : BitVec 32) : History :=
  { m with
    state := { m.state with errors := m.state.errors.raise code }
    raised := if m.state.errors.accepts then m.raised ++ [code] else m.raised }

/-- After a read that returns zero. -/
def History.read (m : History) : EStateM.Result Fault Progress Ret → Option History
  | .ok .OK p => some ⟨p.state, m.delivered ++ p.delivered, m.raised ++ p.raised⟩
  | _ => none

def next (m : History) : Step → Option History
  | .read c => m.read (c.read m.state)
  | .meanwhile w =>
    let m := w.raised.foldl History.raise m
    some { m with state := { m.state with binder := w.act m.state.binder } }

/-- What is raised are codes, without arguments. -/
def Meanwhile.Sound (w : Meanwhile) : Prop := BR_OK ∉ w.raised ∧ Plain w.raised

/-- There is room for both codes. -/
structure Room (c : Call) : Prop where
  fits : Fits c.size c.consumed
  room : 8 ≤ c.size.toInt - firstOffset c.consumed
  sound : ∀ o ∈ c.others, o.waiting.Sound ∧ o.waking.Sound

def Step.Roomy : Step → Prop
  | .read c => Room c
  | .meanwhile w => w.Sound

/-- The second place is not taken alone. -/
def Errors.Proper (e : Errors) : Prop := e.return_error = BR_OK → e.return_error2 = BR_OK

/-- A read is good, and where codes are pending it gives them all, each once and in order, and
leaves none. -/
def Told (m : History) : Step → Prop
  | .read c => Good c (c.read m.state) ∧
    ∀ r p, c.read m.state = .ok r p → m.state.errors.pending ≠ [] →
      p.delivered = m.state.errors.pending ∧ p.state.errors.pending = []
  | .meanwhile _ => True

/-- Nothing has been read yet. -/
structure Fresh (m : History) : Prop where
  delivered : m.delivered = []
  raised : m.raised = []
  proper : m.state.errors.Proper
  plain : Plain m.state.errors.pending

/-- Each code that was pending or has been raised has been read or is pending. -/
def Once (m m' : History) : Prop :=
  ∀ code, m'.delivered.count code + m'.state.errors.pending.count code =
    m.state.errors.pending.count code + m'.raised.count code

/-! ## Codes in a call -/

/-- What is read of a code, or still pending, was pending or has been raised. -/
structure Balanced (p q : Progress) : Prop where
  proper : p.state.errors.Proper → q.state.errors.Proper
  plain : Plain p.state.errors.pending → Plain q.state.errors.pending
  count : ∀ code, q.delivered.count code + q.state.errors.pending.count code +
    p.raised.count code = p.delivered.count code + p.state.errors.pending.count code +
      q.raised.count code

def balance : Frame Progress where
  rel := Balanced
  refl _ := ⟨id, id, fun _ => rfl⟩
  trans h h' := ⟨h'.proper ∘ h.proper, h'.plain ∘ h.plain, fun code => by
    have hcount := h.count code
    have hcount' := h'.count code
    omega⟩

theorem count_pending (e : Errors) {code : BitVec 32} (hcode : code ≠ BR_OK) :
    e.pending.count code =
      (if e.return_error2 = code then 1 else 0) + if e.return_error = code then 1 else 0 := by
  have hkept : (code != BR_OK) = true := bne_iff_ne.mpr hcode
  unfold Errors.pending
  rw [List.count_filter (by simpa using hcode)]
  simp only [List.count_cons, List.count_nil, beq_iff_eq]
  omega

theorem count_pending_ok (e : Errors) : e.pending.count BR_OK = 0 :=
  List.count_eq_zero.mpr fun hmem => (mem_pending.mp hmem).2 rfl

theorem raise_cases (e : Errors) (code : BitVec 32) :
    (e.accepts = true ∧ e.return_error = BR_OK ∧
        e.raise code = { e with return_error := code }) ∨
      (e.accepts = true ∧ e.return_error ≠ BR_OK ∧ e.return_error2 = BR_OK ∧
        e.raise code = ⟨code, e.return_error⟩) ∨
      (e.accepts = false ∧ e.return_error ≠ BR_OK ∧ e.raise code = e) := by
  unfold Errors.accepts Errors.raise
  by_cases hone : e.return_error = BR_OK
  · exact Or.inl (by simp [hone])
  · by_cases htwo : e.return_error2 = BR_OK
    · exact Or.inr (Or.inl (by simp [hone, htwo]))
    · exact Or.inr (Or.inr (by simp [hone, htwo]))

/-- A code that is raised is pending then, or has been lost. -/
theorem count_raise (e : Errors) {code : BitVec 32} (hcode : code ≠ BR_OK) (x : BitVec 32) :
    (e.raise code).pending.count x = e.pending.count x +
      if e.accepts = true ∧ code = x then 1 else 0 := by
  by_cases hx : x = BR_OK
  · rw [hx, count_pending_ok, count_pending_ok, if_neg fun h => hcode h.2]
  · rw [count_pending _ hx, count_pending _ hx]
    have hno : ∀ y : BitVec 32, y = BR_OK → ¬ y = x := fun y hy h => hx (h.symm.trans hy)
    obtain ⟨haccepts, hone, hraise⟩ | ⟨haccepts, hone, htwo, hraise⟩ | ⟨haccepts, -, hraise⟩ :=
      raise_cases e code
    · simp [hraise, haccepts, hno _ hone]
    · simp [hraise, haccepts, hno _ htwo]
    · simp [hraise, haccepts]

theorem proper_raise (e : Errors) {code : BitVec 32} (hcode : code ≠ BR_OK) :
    (e.raise code).Proper := by
  intro hnone
  obtain ⟨-, -, hraise⟩ | ⟨-, -, -, hraise⟩ | ⟨-, hone, hraise⟩ := raise_cases e code
  · rw [hraise] at hnone
    exact absurd hnone hcode
  · rw [hraise] at hnone
    exact absurd hnone hcode
  · rw [hraise] at hnone
    exact absurd hnone hone

theorem balanced_raise (p : Progress) {code : BitVec 32} (hcode : code ≠ BR_OK)
    (hplain : iocSize code = 0) : Balanced p (p.raise code) := by
  have hraised : ∀ x, (p.raise code).raised.count x =
      p.raised.count x + if p.state.errors.accepts = true ∧ code = x then 1 else 0 := by
    intro x
    by_cases haccepts : p.state.errors.accepts = true
    · simp [Progress.raise, haccepts, List.count_singleton]
    · simp [Progress.raise, haccepts]
  refine ⟨fun _ => proper_raise _ hcode, fun hp x hx => ?_, fun x => ?_⟩
  · rcases mem_pending_raise hx with rfl | hx
    · exact hplain
    · exact hp x hx
  show p.delivered.count x + (p.state.errors.raise code).pending.count x + _ = _
  rw [count_raise _ hcode, hraised]
  omega

theorem balanced_of_same {p q : Progress} (hwritten : q.delivered = p.delivered)
    (herrors : q.state.errors = p.state.errors) (hraised : q.raised = p.raised) :
    Balanced p q := by
  refine ⟨fun h => herrors ▸ h, fun h => herrors ▸ h, fun code => ?_⟩
  rw [hwritten, herrors, hraised]

theorem delivered_wrote (p : Progress) {cmd : Command} (h : cmd.origin ≠ .error) :
    (p.wrote cmd).delivered = p.delivered := by
  simp [Progress.delivered, Progress.wrote, h]

theorem delivered_wrote_error (p : Progress) {cmd : Command} (h : cmd.origin = .error) :
    (p.wrote cmd).delivered = p.delivered ++ [cmd.cmd] := by
  simp [Progress.delivered, Progress.wrote, h]

/-- The codes are left alone. -/
def sameCodes : Frame Progress := .same fun p => (p.state.errors, p.delivered, p.raised)

theorem balanced_of_sameCodes {p q : Progress} (h : sameCodes.rel p q) : Balanced p q := by
  have hsame : (q.state.errors, q.delivered, q.raised) =
      (p.state.errors, p.delivered, p.raised) := h
  simp only [Prod.mk.injEq] at hsame
  exact balanced_of_same hsame.2.1 hsame.1 hsame.2.2

theorem keeps_onBinder (f : Binder → Binder) : Keeps sameCodes (onBinder f) :=
  Keeps.modify fun _ => rfl

theorem keeps_remove (w : Work) (f : WorkLists WorkList Work → WorkLists WorkList Work) :
    Keeps sameCodes (remove w f) :=
  Keeps.modify fun _ => rfl

theorem keeps_putCommand (c : Call) {cmd : Command} (h : cmd.origin ≠ .error) :
    Keeps sameCodes (putCommand c cmd) := by
  refine Keeps.of_wp fun p => wp_mono (wp_putCommand c cmd p) ?_ ?_
  · rintro _ _ rfl
    show (_, (p.wrote cmd).delivered, _) = _
    rw [delivered_wrote p h]
    rfl
  · rintro _ _ ⟨-, us, -, rfl⟩
    rfl

theorem keeps_readTransaction (c : Call) (t : Nat) : Keeps sameCodes (readTransaction c t) := by
  refine Keeps.get_bind fun p => ?_
  cases (p.state.binder.transactions t).buffer with
  | none => exact sameCodes.refl p
  | some b =>
    exact ((keeps_onBinder _).bind fun _ => (keeps_putCommand c (by simp)).bind fun _ =>
      (keeps_remove _ _).bind fun _ => keeps_onBinder _) p

theorem keeps_readNode (c : Call) (n : Nat) : Keeps sameCodes (readNode c n) := by
  refine Keeps.get_bind fun p => ?_
  exact Keeps.ite ((keeps_onBinder _).bind fun _ => keeps_putCommand c (by simp))
    ((keeps_remove _ _).bind fun _ => Keeps.when (keeps_onBinder _)) p

theorem keeps_readDeath (c : Call) (d : Nat) : Keeps sameCodes (readDeath c d) := by
  refine Keeps.get_bind fun p => ?_
  exact ((keeps_putCommand c (by simp)).bind fun _ =>
    Keeps.ite ((keeps_remove _ _).bind fun _ => Keeps.pure _)
      ((keeps_remove _ _).bind fun _ => Keeps.pure _)) p

/-- Items are no codes. -/
theorem keeps_serve (c : Call) (w : Work) : Keeps sameCodes (serve c w) := by
  cases w with
  | transaction t => exact (keeps_readTransaction c t).bind fun _ => Keeps.pure _
  | transaction_complete i =>
    exact Keeps.bind ((keeps_putCommand c (by simp)).bind fun _ => keeps_remove _ _)
      fun _ => Keeps.pure _
  | node n => exact (keeps_readNode c n).bind fun _ => Keeps.pure _
  | death d => exact keeps_readDeath c d

theorem keeps_round (c : Call) (wait : Bool) : Keeps sameCodes (round c wait) := by
  refine Keeps.get_bind fun p => ?_
  cases nextWork p.state.binder.lists c.proc c.thread wait with
  | none => exact sameCodes.refl p
  | some w => exact Keeps.ite (Keeps.pure _) (keeps_serve c w) p

theorem keeps_work (c : Call) (wait : Bool) (n : Nat) : Keeps sameCodes (work c wait n) := by
  induction n with
  | zero => exact Keeps.throw _
  | succ n ih => exact (keeps_round c wait).bind fun _ => Keeps.ite ih (Keeps.pure _)

theorem keeps_finish (c : Call) : Keeps sameCodes (finish c) := by
  have hspawned : ∀ p : Progress, sameCodes.rel p p.spawned := by
    intro p
    have hdelivered : p.spawned.delivered = p.delivered := by
      simp [Progress.delivered, Progress.spawned]
    show (_, p.spawned.delivered, _) = _
    rw [hdelivered]
    rfl
  refine (Keeps.modify fun _ => rfl).bind fun _ => Keeps.get_bind fun p => ?_
  refine Keeps.bind (Keeps.when ((keeps_onBinder _).bind fun _ => ?_)) (fun _ => Keeps.pure _) p
  exact Keeps.ite (Keeps.modify hspawned) (Keeps.throw _)

theorem Keeps.balanced {α : Type} {x : Act α} (h : Keeps sameCodes x) : Keeps balance x :=
  fun p => balanced_of_sameCodes (h p)

theorem keeps_meanwhile {w : Meanwhile} (hw : w.Sound) : Keeps balance (meanwhile w) := by
  have hraised : Keeps balance (each raise w.raised) := Keeps.each w.raised fun code hcode =>
    Keeps.modify fun p => balanced_raise p (fun hok => hw.1 (hok ▸ hcode)) (hw.2 code hcode)
  exact hraised.bind fun _ => Keeps.balanced (keeps_onBinder _)

theorem keeps_sleep (c : Call) (wait : Bool) {o : Others}
    (ho : o.waiting.Sound ∧ o.waking.Sound) : Keeps balance (sleep c wait o) :=
  (Keeps.balanced (keeps_onBinder _)).bind fun _ => (keeps_meanwhile ho.1).bind fun _ =>
    Keeps.get_bind fun p => Keeps.bind (keeps_meanwhile ho.2) (fun _ =>
      (Keeps.balanced (keeps_onBinder _)).bind fun _ => Keeps.pure _) p

theorem plain_raised {o : Others} (ho : o.waiting.Sound ∧ o.waking.Sound) : Plain o.raised :=
  fun x hx => (List.mem_append.mp hx).elim (ho.1.2 x) (ho.2.2 x)

/-! ## Codes that are read -/

/-- A code is written, and its place is free then. -/
theorem balanced_told {p : Progress} {code : BitVec 32} {f : Errors → Errors}
    (hcode : code ≠ BR_OK) (hproper : (f p.state.errors).Proper)
    (hcount : ∀ x, x ≠ BR_OK → (f p.state.errors).pending.count x + (if code = x then 1 else 0) =
      p.state.errors.pending.count x) :
    Balanced p ((p.wrote ⟨.error, code, []⟩).onErrors f) := by
  have hdelivered : ((p.wrote ⟨.error, code, []⟩).onErrors f).delivered = p.delivered ++ [code] :=
    delivered_wrote_error p rfl
  refine ⟨fun _ => hproper, fun hp x hx => hp x ?_, fun x => ?_⟩
  · have hall := hcount x (mem_pending.mp hx).2
    have hpos : 0 < (f p.state.errors).pending.count x := List.count_pos_iff.mpr hx
    exact List.count_pos_iff.mp (by omega)
  rw [hdelivered, List.count_append, List.count_singleton]
  show _ + (f p.state.errors).pending.count x + p.raised.count x = _ + _ + p.raised.count x
  by_cases hx : x = BR_OK
  · rw [hx, count_pending_ok, count_pending_ok]
    simp [hcode]
  · have hall := hcount x hx
    simp only [beq_iff_eq]
    omega

theorem putError_told (c : Call) {p : Progress} (hone : p.state.errors.return_error ≠ BR_OK)
    (htwo : p.state.errors.return_error2 = BR_OK) :
    wp (putError c) (fun _ q => Balanced p q ∧ q.state.errors.pending = [] ∧
      q.delivered = p.delivered ++ [p.state.errors.return_error]) (fun _ q => Balanced p q) p := by
  unfold putError
  rw [wp_bind, wp_get, wp_bind]
  refine wp_mono (wp_putCommand c _ p) ?_ ?_
  · rintro _ _ rfl
    rw [wp_onErrors]
    refine ⟨balanced_told hone (fun _ => htwo) fun x hx => ?_, ?_, delivered_wrote_error p rfl⟩
    · have hno : ¬ BR_OK = x := fun h => hx h.symm
      rw [count_pending _ hx, count_pending _ hx]
      simp [htwo, hno]
    · simp [Progress.onErrors, Progress.wrote, Errors.pending, htwo]
  · rintro _ _ ⟨-, us, -, rfl⟩
    exact balanced_of_same rfl rfl rfl

/-- With room for both, all codes are read. -/
theorem putErrors_told (c : Call) {p : Progress} (hone : p.state.errors.return_error ≠ BR_OK)
    (hroom : 8 ≤ c.size.toInt - p.ptr) :
    wp (putErrors c) (fun _ q => Balanced p q ∧ q.state.errors.pending = [] ∧
      q.delivered = p.delivered ++ p.state.errors.pending) (fun _ q => Balanced p q) p := by
  unfold putErrors
  rw [wp_bind, wp_get]
  by_cases htwo : p.state.errors.return_error2 ≠ BR_OK
  · rw [if_pos htwo, wp_bind]
    refine wp_mono (wp_putCommand c _ p) ?_ ?_
    · rintro _ _ rfl
      rw [wp_bind, wp_get]
      refine wp_when (fun _ => ?_) fun hno => absurd hno ?_
      · have hfirst : Balanced p ((p.wrote ⟨.error, p.state.errors.return_error2, []⟩).onErrors
            fun e => { e with return_error2 := BR_OK }) := by
          refine balanced_told htwo (fun _ => rfl) fun x hx => ?_
          have hno : ¬ BR_OK = x := fun h => hx h.symm
          rw [count_pending _ hx, count_pending _ hx]
          simp [hno]
          omega
        rw [wp_bind, wp_onErrors]
        refine wp_mono (putError_told c hone rfl) ?_ fun _ q hq => balance.trans hfirst hq
        rintro _ q ⟨hq, hnone, hdelivered⟩
        refine ⟨balance.trans hfirst hq, hnone, hdelivered.trans ?_⟩
        show (p.wrote _).delivered ++ [p.state.errors.return_error] = _
        rw [delivered_wrote_error p rfl]
        simp [Errors.pending, hone, htwo]
      · show ¬ ¬ p.ptr + 4 ≠ c.size.toInt
        omega
    · rintro _ _ ⟨-, us, -, rfl⟩
      exact balanced_of_same rfl rfl rfl
  · rw [if_neg htwo]
    refine wp_mono (putError_told c hone (not_not.mp htwo)) ?_ fun _ _ h => h
    rintro _ q ⟨hq, hnone, hdelivered⟩
    refine ⟨hq, hnone, hdelivered.trans ?_⟩
    simp [Errors.pending, hone, not_not.mp htwo]

section
variable {c : Call} {p : Progress}

theorem errorsOr_told {sleeping : Bool → Act Ret} (hone : p.state.errors.return_error ≠ BR_OK)
    (hroom : 8 ≤ c.size.toInt - p.ptr) :
    wp (errorsOr c sleeping) (fun _ q => Balanced p q ∧ q.state.errors.pending = [] ∧
      q.delivered = p.delivered ++ p.state.errors.pending) (fun _ q => Balanced p q) p := by
  have hlt : p.ptr < c.size.toInt := by omega
  unfold errorsOr
  rw [wp_bind, wp_get, if_pos ⟨hone, hlt⟩, wp_bind]
  refine wp_mono (putErrors_told c hone hroom) ?_ fun _ _ h => h
  rintro _ q ⟨hq, hnone, hdelivered⟩
  refine wp_mono ((keeps_finish c).wp q) ?_ ?_
  · intro _ r hr
    have hsame : (r.state.errors, r.delivered, r.raised) =
        (q.state.errors, q.delivered, q.raised) := hr
    simp only [Prod.mk.injEq] at hsame
    exact ⟨balance.trans hq (balanced_of_sameCodes hr), hsame.1 ▸ hnone, hsame.2.1.trans hdelivered⟩
  · exact fun _ r hr => balance.trans hq (balanced_of_sameCodes hr)

theorem errorsOr_balanced {sleeping : Bool → Act Ret} (hroom : 8 ≤ c.size.toInt - p.ptr)
    (hsleep : ∀ wait, wp (sleeping wait) (fun _ q => Balanced p q) (fun _ q => Balanced p q) p) :
    wp (errorsOr c sleeping) (fun _ q => Balanced p q) (fun _ q => Balanced p q) p := by
  by_cases hone : p.state.errors.return_error ≠ BR_OK
  · exact wp_mono (errorsOr_told hone hroom) (fun _ _ h => h.1) fun _ _ h => h
  · unfold errorsOr
    rw [wp_bind, wp_get, if_neg fun h => hone h.1]
    exact hsleep _

/-- The codes come where the buffer has room for both, also after a wait. -/
theorem retry_balanced (hfits : Fits c.size c.consumed)
    (hroom : 8 ≤ c.size.toInt - firstOffset c.consumed) (os : List Others)
    (hos : ∀ o ∈ os, o.waiting.Sound ∧ o.waking.Sound) (h : Inv c p)
    (hptr : p.ptr = firstOffset c.consumed) :
    wp (retry c os) (fun _ q => Balanced p q) (fun _ q => Balanced p q) p := by
  induction os generalizing p with
  | nil => exact errorsOr_balanced (hptr ▸ hroom) fun _ => balance.refl p
  | cons o os ih =>
    have ho := hos o List.mem_cons_self
    refine errorsOr_balanced (hptr ▸ hroom) fun wait => ?_
    rw [wp_bind]
    refine wp_mono (wp_and (h.sleep wait (plain_raised ho)) ((keeps_sleep c wait ho).wp p)) ?_
      fun _ _ hq => hq.2
    rintro _ q ⟨⟨hq, -⟩, hslept⟩
    split
    · rw [wp_bind, wp_get, wp_bind]
      have hwork := (Keeps.balanced (keeps_work c wait (c.rounds q.state.binder))).wp q
      refine wp_mono (wp_and (hq.work wait _) hwork) ?_
        fun _ r hr => balance.trans hslept hr.2
      rintro next r ⟨⟨hr, hretry⟩, hworked⟩
      have hcome : Balanced p r := balance.trans hslept hworked
      split
      · next hnext =>
        refine wp_mono (ih (fun o ho => hos o (List.mem_cons_of_mem _ ho)) hr ?_)
          (fun _ u hu => balance.trans hcome hu) fun _ u hu => balance.trans hcome hu
        exact hr.again hfits (hretry hnext)
      · exact wp_mono ((Keeps.balanced (keeps_finish c)).wp r)
          (fun _ u hu => balance.trans hcome hu) fun _ u hu => balance.trans hcome hu
    · exact hslept

theorem keeps_noop (c : Call) :
    Keeps sameCodes (when (c.consumed = 0) (putCommand c ⟨.noop, BR_NOOP, []⟩)) :=
  Keeps.when (keeps_putCommand c (by simp))

theorem Room.balanced (h : Room c) {s : State} (hs : Plain s.errors.pending) :
    wp (threadRead c) (fun _ q => Balanced (c.start s) q) (fun _ q => Balanced (c.start s) q)
      (c.start s) := by
  unfold threadRead
  rw [wp_bind]
  refine wp_mono (wp_and (wp_start h.fits s hs) ((keeps_noop c).wp (c.start s))) ?_
    fun _ _ hq => balanced_of_sameCodes hq.2
  rintro _ q ⟨⟨hq, hptr⟩, hsame⟩
  have hstart := balanced_of_sameCodes hsame
  exact wp_mono (retry_balanced h.fits h.room c.others h.sound hq hptr)
    (fun _ r hr => balance.trans hstart hr) fun _ r hr => balance.trans hstart hr

/-- Codes that are pending at the start are read at once. -/
theorem Room.told (h : Room c) {s : State} (hs : Plain s.errors.pending)
    (hone : s.errors.return_error ≠ BR_OK) :
    wp (threadRead c) (fun _ q => q.delivered = s.errors.pending ∧ q.state.errors.pending = [])
      (fun _ _ => True) (c.start s) := by
  unfold threadRead
  rw [wp_bind]
  refine wp_mono (wp_and (wp_start h.fits s hs) ((keeps_noop c).wp (c.start s))) ?_
    fun _ _ _ => trivial
  rintro _ q ⟨⟨-, hptr⟩, hq⟩
  have hsame : (q.state.errors, q.delivered, q.raised) = (s.errors, [], []) := hq
  simp only [Prod.mk.injEq] at hsame
  have htold : ∀ sleeping, wp (errorsOr c sleeping)
      (fun _ r => r.delivered = s.errors.pending ∧ r.state.errors.pending = [])
      (fun _ _ => True) q := by
    intro sleeping
    refine wp_mono (errorsOr_told (hsame.1 ▸ hone) (hptr ▸ h.room)) ?_ fun _ _ _ => trivial
    rintro _ r ⟨-, hnone, hdelivered⟩
    refine ⟨?_, hnone⟩
    rw [hdelivered, hsame.1, hsame.2.1, List.nil_append]
  cases c.others with
  | nil => exact htold _
  | cons o os => exact htold _

end

/-! ## Codes over a run -/

structure Kept (m m' : History) : Prop where
  proper : m'.state.errors.Proper
  plain : Plain m'.state.errors.pending
  once : Once m m'

theorem Fresh.kept {m : History} (h : Fresh m) : Kept m m := by
  refine ⟨h.proper, h.plain, fun code => ?_⟩
  rw [h.delivered, h.raised]
  simp

section
variable {m s t : History}

theorem Kept.raise (h : Kept m s) {code : BitVec 32} (hcode : code ≠ BR_OK)
    (hplain : iocSize code = 0) : Kept m (s.raise code) := by
  refine ⟨proper_raise _ hcode, fun x hx => ?_, fun x => ?_⟩
  · rcases mem_pending_raise hx with rfl | hx
    · exact hplain
    · exact h.plain x hx
  · have honce := h.once x
    have hcount := count_raise s.state.errors hcode x
    show s.delivered.count x + (s.state.errors.raise code).pending.count x =
      _ + (if s.state.errors.accepts then s.raised ++ [code] else s.raised).count x
    rw [hcount]
    by_cases haccepts : s.state.errors.accepts = true
    · simp only [haccepts, true_and, if_true, List.count_append, List.count_singleton, beq_iff_eq]
      omega
    · rw [if_neg haccepts, if_neg fun h => haccepts h.1]
      exact honce

theorem Kept.raises (h : Kept m s) {codes : List (BitVec 32)} (hok : BR_OK ∉ codes)
    (hplain : Plain codes) : Kept m (codes.foldl History.raise s) := by
  induction codes generalizing s with
  | nil => exact h
  | cons code codes ih =>
    have hcode : code ≠ BR_OK := fun heq => hok (heq ▸ List.mem_cons_self)
    exact ih (h.raise hcode (hplain code List.mem_cons_self))
      (fun hmem => hok (List.mem_cons_of_mem _ hmem))
      fun x hx => hplain x (List.mem_cons_of_mem _ hx)

theorem Kept.next {x : Step} (h : Kept m s) (hx : x.Roomy) (hnext : next s x = some t) :
    Kept m t := by
  cases x with
  | meanwhile w =>
    have hraised := h.raises hx.1 hx.2
    cases hnext
    exact ⟨hraised.proper, hraised.plain, hraised.once⟩
  | read c =>
    have hread := Room.balanced hx h.plain
    have hcome : s.read (c.read s.state) = some t := hnext
    cases hr : c.read s.state with
    | error e p =>
      rw [hr] at hcome
      cases hcome
    | ok r p =>
      rw [hr] at hcome
      cases r with
      | EAGAIN => cases hcome
      | OK =>
        cases hcome
        have hdone : threadRead c (c.start s.state) = .ok .OK p := hr
        have hbalanced := wp_ok hread hdone
        refine ⟨hbalanced.proper h.proper, hbalanced.plain h.plain, fun code => ?_⟩
        have honce := h.once code
        have hcount : p.delivered.count code + p.state.errors.pending.count code + 0 =
            0 + s.state.errors.pending.count code + p.raised.count code := hbalanced.count code
        simp only [List.count_append]
        omega

theorem Kept.told {x : Step} (h : Kept m s) (hx : x.Roomy) : Told s x := by
  cases x with
  | meanwhile w => trivial
  | read c =>
    have hroom : Room c := hx
    refine ⟨good_read hroom.fits (fun o ho => plain_raised (hroom.sound o ho)) s.state h.plain, ?_⟩
    intro r p hr hpending
    -- with the second place alone never taken, the first one is
    have hone : s.state.errors.return_error ≠ BR_OK := by
      intro hone
      have htwo := h.proper hone
      simp [Errors.pending, hone, htwo] at hpending
    have hdone : threadRead c (c.start s.state) = .ok r p := hr
    have htold := wp_ok (hroom.told h.plain hone) hdone
    exact htold

end

/-- **The read buffer.** A size and an offset fit if and only if all reads with them are good.
A code that has arguments is not written whole where there is room. Over reads with room for
two codes, each code is read once. -/
theorem read_buffer_kept (size : BitVec 32) (consumed : BitVec 64) :
    (AllGood size consumed ↔ Fits size consumed) ∧
    (∀ code, code ≠ BR_OK → iocSize code ≠ 0 → firstOffset consumed < size.toInt →
      ¬ Good (reader size consumed [])
        ((reader size consumed []).read ⟨idle .empty, ⟨code, BR_OK⟩⟩)) ∧
    ∀ steps m m', Fresh m → (∀ x ∈ steps, Step.Roomy x) → after next steps m = some m' →
      Once m m' ∧ Runs.Along Told next steps m := by
  refine ⟨allGood_iff, fun _ => not_good_of_args, fun steps m m' hm hsteps hafter => ?_⟩
  have halong : Runs.Along (fun _ x => Step.Roomy x) next steps m :=
    along_of_forall (fun x hx _ => hsteps x hx) m
  have hnext : ∀ s x t, Kept m s → Step.Roomy x → next s x = some t → Kept m t :=
    fun s x t h hx ht => h.next hx ht
  have hkept : Kept m m' := along_inv hnext steps hm.kept halong hafter
  exact ⟨hkept.once, along_of_inv hnext (fun s x h hx => h.told hx) steps hm.kept halong⟩

/-! ## Cases -/

/-- A reply has failed, and one of the thread's own transactions. -/
def twoCodes : History :=
  { state := ⟨idle .empty, ⟨BR_FAILED_REPLY, BR_TRANSACTION_COMPLETE⟩⟩, delivered := [],
    raised := [] }

theorem fresh_twoCodes : Fresh twoCodes where
  delivered := rfl
  raised := rfl
  proper h := absurd h (by decide)
  plain := plain_pending _ (Or.inr plain_failed) (Or.inr (by decide))

/-- Both codes are read, and the second one once. -/
theorem twoCodes_read : (after next [.read (reader 12 0 [])] twoCodes).isSome ∧
    ∀ m', after next [.read (reader 12 0 [])] twoCodes = some m' → Once twoCodes m' := by
  have hroomy : ∀ x ∈ [Step.read (reader 12 0 [])], x.Roomy := by
    intro x hx
    rw [List.mem_singleton.mp hx]
    exact ⟨⟨by decide, by decide, by decide, by decide⟩, by decide, List.forall_mem_nil _⟩
  exact ⟨by decide +kernel, fun m' hm' =>
    ((read_buffer_kept 12 0).2.2 _ twoCodes m' fresh_twoCodes hroomy hm').1⟩

/-- In a buffer of eight bytes there is room for one code, which is then read again. -/
example : (after next [.read (reader 8 0 []), .read (reader 8 0 [])] twoCodes).map
    History.delivered = some [BR_TRANSACTION_COMPLETE, BR_TRANSACTION_COMPLETE] := by decide

/-- In a buffer of six bytes a code is written over the end. -/
theorem overrun_not_good : ¬ ∀ size consumed, AllGood size consumed := by
  intro hall
  have hgood := hall 6 0 (reader 6 0 []) rfl rfl (List.forall_mem_nil _)
    ⟨idle .empty, ⟨BR_FAILED_REPLY, BR_OK⟩⟩ (plain_pending _ (Or.inr plain_failed) (Or.inl rfl))
  have hstored : (4, BR_FAILED_REPLY) ∈ (final ((reader 6 0 []).read
      ⟨idle .empty, ⟨BR_FAILED_REPLY, BR_OK⟩⟩)).stores := by decide
  have hinside := hgood.inside _ hstored
  revert hinside
  decide

end Cdroid.Driver.ThreadRead
