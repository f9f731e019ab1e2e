import Cdroid.Utils.RefCounts

/-! Every step of a call on a `RefBase` finds what it uses, and keeps the counts right. -/

namespace Cdroid.Utils.RefBase
open Cdroid.Lib Cdroid.Lib.Tally State

section
variable {ι : Type} [Fintype ι] {s : State ι} {i : ι} {th x : Thread} {a b : Nat}

/-- The invariant, and what the thread is about to do. -/
structure Ready (s : State ι) (i : ι) (th : Thread) : Prop where
  inv : Inv s
  thread : s.threads i = th

theorem Ready.within (h : Ready s i th) : Within th.tallies (tallies s.threads) :=
  h.thread ▸ tallies_within s.threads i

theorem Ready.fits (h : Ready s i th) : Fits s.extended (s.plain = some i) th :=
  h.thread ▸ h.inv.fits i

/-- Who has a reference finds the counts. -/
theorem Ready.impl (h : Ready s i th) (hw : 0 < th.weaks) : s.impl = true := by
  have hall : th.weaks ≤ (tallies s.threads).weaks := h.within.weaks
  refine h.inv.numbers.impl_iff.mpr (Or.inl ?_)
  rw [h.inv.numbers.weak]
  omega

/-- Who has a reference, or the plain pointer, finds the counts. -/
theorem Ready.named (h : Ready s i th)
    (hwho : 0 < th.strong ∨ 0 < th.weak ∨ s.plain = some i) :
    s.impl = true ∧ (0 < s.mWeak ∨ s.plain ≠ none) := by
  have hmany : 0 < s.mWeak ∨ s.plain ≠ none := by
    have hall : th.pc.weak + th.strong + th.weak ≤ (tallies s.threads).weaks := h.within.weaks
    have hweak := h.inv.numbers.weak
    rcases hwho with hstrong | hweaks | hplain
    · exact Or.inl (by omega)
    · exact Or.inl (by omega)
    · exact Or.inr (by simp [hplain])
  exact ⟨h.inv.numbers.impl_iff.mpr (hmany.imp_right Or.inl), hmany⟩

/-- Who has a strong reference finds it counted. -/
theorem Ready.strong (h : Ready s i th) (hs : 0 < th.strongs) : 0 < s.mStrong := by
  have hall : th.strongs ≤ (tallies s.threads).strongs := h.within.strongs
  by_cases hc : s.mStrong < INITIAL_STRONG_VALUE
  · rw [h.inv.numbers.settled hc]
    omega
  · rw [INITIAL_STRONG_VALUE] at hc
    omega

/-- Who has a strong reference finds the object. -/
theorem Ready.base (h : Ready s i th) (hw : 0 < th.weaks)
    (hs : s.extended = true ∨ 0 < th.strongs) : s.base = true :=
  h.inv.numbers.base_iff.mpr ⟨h.impl hw, hs.imp_right fun hs => Or.inl (h.strong hs)⟩

theorem Inv.nonneg (h : Inv s) : 0 ≤ s.mStrong := by
  by_cases hc : s.mStrong < INITIAL_STRONG_VALUE
  · rw [h.numbers.settled hc]
    omega
  · rw [INITIAL_STRONG_VALUE] at hc
    omega

theorem Inv.mStrong_lt (h : Inv s) : s.mStrong < 2 ^ 29 := by
  have hfew := h.numbers.few
  have hsettled := h.numbers.settled
  have hinitial := h.numbers.initial
  rw [INITIAL_STRONG_VALUE] at hfew hsettled hinitial
  omega

omit [Fintype ι] in
theorem int32_eq {c : Int} (hlow : -2 ^ 31 ≤ c) (hhigh : c < 2 ^ 31) : int32_t c = c :=
  Int.bmod_eq_of_le (by omega) (by omega)

/-- Who has taken the last weak reference is alone with the counts. -/
theorem Ready.ending (h : Ready s i th) (hpc : th.pc.ending = 1) :
    s.impl = true ∧ s.mWeak = 0 ∧ (tallies s.threads).strongs = 0 ∧
      (tallies s.threads).dying = 0 := by
  have hin : th.pc.ending ≤ (tallies s.threads).ending := h.within.ending
  obtain ⟨-, hzero, -⟩ := h.inv.numbers.ending (by omega)
  have hweak := h.inv.numbers.weak
  have hordered := tallies_ordered s.threads
  have hstrongs := hordered.strongs
  have hdying := hordered.dying
  exact ⟨h.inv.numbers.impl_iff.mpr (Or.inr (Or.inr (by omega))), hzero, by omega, by omega⟩

variable [DecidableEq ι]

theorem Ready.step (h : Ready s i th) (c w : Int) (base impl : Bool)
    (hx : Fits s.extended (s.plain = some i) x)
    (hnumbers : ∀ t, Exchange (tallies s.threads) t th.tallies x.tallies → t.Ordered →
      Numbers c w s.extended base impl (s.plain ≠ none) t) :
    Inv ⟨c, w, s.extended, base, impl, s.plain, Function.update s.threads i x⟩ :=
  h.inv.step i x c w base impl hx (h.thread ▸ hnumbers)

/-- A step by which nothing that is counted changes. -/
theorem Ready.quiet (h : Ready s i th) (hx : Fits s.extended (s.plain = some i) x)
    (hsame : x.tallies = th.tallies) : Inv (s.setThread i x) :=
  h.step s.mStrong s.mWeak s.base s.impl hx fun t he _ => by
    rw [he.quiet hsame]
    exact h.inv.numbers

/-! ## Strong references that are taken -/

theorem Ready.inc (h : Ready s i th) (hfull : (s.mStrong + 1) % INITIAL_STRONG_VALUE ≠ 0)
    (hfrom : s.extended = true ∨ 0 < s.mStrong) (hx : Fits s.extended (s.plain = some i) x)
    (hstrongs : x.strongs = th.strongs + 1) (hweaks : x.weaks = th.weaks) (hpos : 0 < th.weaks)
    (hfixing : x.pc.fixing = th.pc.fixing + 1 ∨
      x.pc.fixing = th.pc.fixing ∧ s.mStrong ≠ INITIAL_STRONG_VALUE)
    (hadding : x.pc.adding = th.pc.adding ∨
      x.pc.adding = th.pc.adding + 1 ∧ s.mStrong = INITIAL_STRONG_VALUE)
    (hdying : x.pc.dying = th.pc.dying) (hsame : SameEnding th.tallies x.tallies) :
    Inv ((s.setStrong (s.mStrong + 1)).setThread i x) := by
  have hlow := h.inv.nonneg
  have hhigh := h.inv.mStrong_lt
  rw [setStrong, int32_eq (by omega) (by omega)]
  exact h.step (s.mStrong + 1) s.mWeak s.base s.impl hx fun _ he ht =>
    h.inv.numbers.inc he (tallies_ordered s.threads) ht h.within hfull hfrom hstrongs hweaks hpos
      hfixing hadding hdying hsame

theorem Ready.incStrong {force : Bool} (h : Ready s i ⟨.incStrong force, a, b⟩)
    (hfull : (s.mStrong + 1) % INITIAL_STRONG_VALUE ≠ 0) (agrees : Bool) :
    ∃ u, s.step i agrees = some u ∧ Inv u := by
  have hfits : force = true ∧ s.extended = true ∨ 0 < a ∨ s.plain = some i := h.fits
  have hcount : force = true ∧ s.extended = true ∨ 0 < s.mStrong := by
    rcases hfits with hforce | ha | hplain
    · exact Or.inl hforce
    · exact Or.inr (h.strong (by simp [Thread.strongs, ha]))
    · exact Or.inr (h.inv.numbers.named (by simp [hplain]))
  have hfrom : s.extended = true ∨ 0 < s.mStrong := hcount.imp_left And.right
  have hok : (0 < s.mStrong || force && s.mStrong == 0) = true := by
    have hnonneg := h.inv.nonneg
    rcases hcount with ⟨rfl, -⟩ | hc
    · simp only [Bool.true_and, Bool.or_eq_true, decide_eq_true_eq, beq_iff_eq]
      omega
    · simp [hc]
  have hpos : 0 < Thread.weaks ⟨.incStrong force, a, b⟩ := by simp [Thread.weaks, Pc.weak]
  simp only [State.step, h.thread]
  rw [h.impl hpos, hok, checked_true]
  refine ⟨_, rfl, ?_⟩
  simp only [goto, gotStrong, setStrong_threads, h.thread]
  split
  case isTrue hinitial =>
    refine h.inc (x := ⟨.incStrong_add, a, b⟩) hfull hfrom trivial ?_ rfl hpos (Or.inl rfl)
      (Or.inr ⟨rfl, hinitial⟩) rfl ⟨rfl, rfl, rfl⟩
    simp [Thread.strongs, Pc.strong, Nat.add_comm]
  case isFalse hinitial =>
    split
    case isTrue hzero =>
      refine h.inc (x := ⟨.onFirstRef, a, b⟩) hfull hfrom trivial ?_ rfl hpos
        (Or.inr ⟨rfl, hinitial⟩) (Or.inl rfl) rfl ⟨rfl, rfl, rfl⟩
      simp [Thread.strongs, Pc.strong, Nat.add_comm]
    case isFalse =>
      refine h.inc (x := ⟨.idle, a + 1, b⟩) hfull hfrom trivial ?_ ?_ hpos
        (Or.inr ⟨rfl, hinitial⟩) (Or.inl rfl) rfl ⟨rfl, rfl, rfl⟩
      · simp [Thread.strongs, Pc.strong]
      · simp [Thread.weaks, Pc.weak, Nat.add_comm]

theorem Ready.attempt_read {first : Bool} (h : Ready s i ⟨.attempt_read first, a, b⟩)
    (agrees : Bool) : ∃ u, s.step i agrees = some u ∧ Inv u := by
  have hnonneg := h.inv.nonneg
  simp only [State.step, h.thread]
  rw [h.impl (by simp [Thread.weaks, Pc.weak]), decide_eq_true hnonneg, Bool.or_true, checked_true]
  refine ⟨_, rfl, ?_⟩
  simp only [goto, h.thread]
  split
  case isTrue hcommon => exact h.quiet hcommon rfl
  case isFalse hharder =>
    split
    case isTrue hextended => exact h.quiet hextended rfl
    case isFalse hextended =>
      split
      case isTrue => exact h.quiet trivial rfl
      case isFalse hpos => exact h.quiet ⟨by omega, by simpa using hextended⟩ rfl

theorem Ready.attempt_cmpxchg {c : Int} (h : Ready s i ⟨.attempt_cmpxchg c, a, b⟩)
    (hfull : (s.mStrong + 1) % INITIAL_STRONG_VALUE ≠ 0) (agrees : Bool) :
    ∃ u, s.step i agrees = some u ∧ Inv u := by
  have hfits : 0 < c ∧ c ≠ INITIAL_STRONG_VALUE := h.fits
  have hpos : 0 < Thread.weaks ⟨.attempt_cmpxchg c, a, b⟩ := by simp [Thread.weaks, Pc.weak]
  simp only [State.step, h.thread]
  rw [h.impl hpos, checked_true]
  refine ⟨_, rfl, ?_⟩
  simp only [goto, setStrong_threads, h.thread]
  split
  case isTrue hc =>
    refine h.inc (x := ⟨.fixup_read, a, b⟩) hfull (Or.inr (hc ▸ hfits.1)) trivial ?_ rfl hpos
      (Or.inl rfl) (Or.inl rfl) rfl ⟨rfl, rfl, rfl⟩
    simp [Thread.strongs, Pc.strong, Nat.add_comm]
  case isFalse => exact h.quiet trivial rfl

theorem Ready.attempt_initial {c : Int} (h : Ready s i ⟨.attempt_initial c, a, b⟩)
    (hfull : (s.mStrong + 1) % INITIAL_STRONG_VALUE ≠ 0) (agrees : Bool) :
    ∃ u, s.step i agrees = some u ∧ Inv u := by
  have hfits : 0 < c ∧ s.extended = false := h.fits
  have hpos : 0 < Thread.weaks ⟨.attempt_initial c, a, b⟩ := by simp [Thread.weaks, Pc.weak]
  simp only [State.step, h.thread]
  rw [h.impl hpos, checked_true]
  refine ⟨_, rfl, ?_⟩
  simp only [goto, setStrong_threads, h.thread]
  split
  case isTrue hc =>
    refine h.inc (x := ⟨.attempt_unneeded c, a, b⟩) hfull (Or.inr (hc ▸ hfits.1)) trivial ?_ rfl
      hpos (Or.inl rfl) (Or.inl rfl) rfl ⟨rfl, rfl, rfl⟩
    simp [Thread.strongs, Pc.strong, Nat.add_comm]
  case isFalse => exact h.quiet hfits.2 rfl

theorem Ready.attempt_reread (h : Ready s i ⟨.attempt_reread, a, b⟩) (agrees : Bool) :
    ∃ u, s.step i agrees = some u ∧ Inv u := by
  have hextended : s.extended = false := h.fits
  simp only [State.step, h.thread]
  rw [h.impl (by simp [Thread.weaks, Pc.weak]), checked_true]
  refine ⟨_, rfl, ?_⟩
  simp only [goto, h.thread]
  split
  case isTrue => exact h.quiet trivial rfl
  case isFalse hpos => exact h.quiet ⟨by omega, hextended⟩ rfl

theorem Ready.onIncStrongAttempted (h : Ready s i ⟨.onIncStrongAttempted, a, b⟩) (agrees : Bool) :
    ∃ u, s.step i agrees = some u ∧ Inv u := by
  have hextended : s.extended = true := h.fits
  simp only [State.step, h.thread]
  rw [h.base (by simp [Thread.weaks, Pc.weak]) (Or.inl hextended), checked_true]
  refine ⟨_, rfl, ?_⟩
  simp only [goto, h.thread]
  cases agrees with
  | true => exact h.quiet hextended rfl
  | false => exact h.quiet trivial rfl

theorem Ready.attempt_inc (h : Ready s i ⟨.attempt_inc, a, b⟩)
    (hfull : (s.mStrong + 1) % INITIAL_STRONG_VALUE ≠ 0) (agrees : Bool) :
    ∃ u, s.step i agrees = some u ∧ Inv u := by
  have hpos : 0 < Thread.weaks ⟨.attempt_inc, a, b⟩ := by simp [Thread.weaks, Pc.weak]
  simp only [State.step, h.thread]
  rw [h.impl hpos, checked_true]
  refine ⟨_, rfl, ?_⟩
  simp only [goto, setStrong_threads, h.thread]
  refine h.inc (x := ⟨.attempt_unneeded s.mStrong, a, b⟩) hfull (Or.inl h.fits) trivial ?_ rfl hpos
    (Or.inl rfl) (Or.inl rfl) rfl ⟨rfl, rfl, rfl⟩
  simp [Thread.strongs, Pc.strong, Nat.add_comm]

/-! ## `INITIAL_STRONG_VALUE` is taken out of the count -/

theorem Ready.subtract (h : Ready s i th) (hc : INITIAL_STRONG_VALUE ≤ s.mStrong)
    (hadding : (tallies s.threads).adding + x.pc.adding = th.pc.adding)
    (hx : Fits s.extended (s.plain = some i) x) (hpos : 0 < th.strongs)
    (hstrongs : x.strongs = th.strongs) (hweaks : x.weaks = th.weaks)
    (hdying : x.pc.dying = th.pc.dying) (hsame : SameEnding th.tallies x.tallies) :
    Inv ((s.setStrong (s.mStrong - INITIAL_STRONG_VALUE)).setThread i x) := by
  have hhigh := h.inv.mStrong_lt
  rw [setStrong, int32_eq (by omega) (by rw [INITIAL_STRONG_VALUE]; omega)]
  refine h.step (s.mStrong - INITIAL_STRONG_VALUE) s.mWeak s.base s.impl hx fun t he _ => ?_
  have hnone : t.adding + th.pc.adding = (tallies s.threads).adding + x.pc.adding := he.adding
  exact h.inv.numbers.subtract he h.within hc (by omega) hpos hstrongs hweaks hdying hsame
    (tallies_ordered s.threads)

theorem Ready.incStrong_add (h : Ready s i ⟨.incStrong_add, a, b⟩) (agrees : Bool) :
    ∃ u, s.step i agrees = some u ∧ Inv u := by
  have hin : 1 ≤ (tallies s.threads).adding := h.within.adding
  obtain ⟨hone, hc⟩ := h.inv.numbers.adding hin
  simp only [State.step, h.thread]
  rw [h.impl (by simp [Thread.weaks, Pc.weak]), checked_true]
  refine ⟨_, rfl, ?_⟩
  simp only [goto, setStrong_threads, h.thread]
  exact h.subtract (x := ⟨.onFirstRef, a, b⟩) hc hone trivial (by simp [Thread.strongs, Pc.strong])
    rfl rfl rfl ⟨rfl, rfl, rfl⟩

theorem Ready.fixup_cmpxchg {c : Int} (h : Ready s i ⟨.fixup_cmpxchg c, a, b⟩)
    (halone : c = s.mStrong → ∀ j, (s.threads j).pc ≠ .incStrong_add) (agrees : Bool) :
    ∃ u, s.step i agrees = some u ∧ Inv u := by
  have hfits : INITIAL_STRONG_VALUE ≤ c := h.fits
  simp only [State.step, h.thread]
  rw [h.impl (by simp [Thread.weaks, Pc.weak]), checked_true]
  refine ⟨_, rfl, ?_⟩
  simp only [goto, gotStrong, setStrong_threads, h.thread]
  split
  case isTrue hc =>
    have hnone : (tallies s.threads).adding = 0 := tally_const_zero fun j => by
      have hj := halone hc.symm j
      show (s.threads j).pc.adding = 0
      unfold Pc.adding
      split
      · contradiction
      · rfl
    refine h.subtract (x := ⟨.idle, a + 1, b⟩) (hc ▸ hfits) hnone trivial ?_ ?_ ?_ rfl
      ⟨rfl, rfl, rfl⟩
    · simp [Thread.strongs, Pc.strong]
    · simp [Thread.strongs, Pc.strong, Nat.add_comm]
    · simp [Thread.weaks, Pc.weak, Nat.add_comm]
  case isFalse => exact h.quiet trivial rfl

theorem Ready.fixup_read (h : Ready s i ⟨.fixup_read, a, b⟩) (agrees : Bool) :
    ∃ u, s.step i agrees = some u ∧ Inv u := by
  have hstrongs : 1 + a ≤ (tallies s.threads).strongs := h.within.strongs
  simp only [State.step, h.thread]
  rw [h.impl (by simp [Thread.weaks, Pc.weak])]
  split
  case isTrue hc =>
    have hmore := h.inv.numbers.initial hc
    rw [decide_eq_true (by omega), checked_true]
    refine ⟨_, rfl, ?_⟩
    simp only [goto, h.thread]
    exact h.quiet hc rfl
  case isFalse hc =>
    refine ⟨_, rfl, ?_⟩
    simp only [gotStrong, h.thread]
    refine h.step (x := ⟨.idle, a + 1, b⟩) s.mStrong s.mWeak s.base s.impl trivial fun t he _ =>
      h.inv.numbers.settle he (by omega) ?_ ?_ rfl rfl ⟨rfl, rfl, rfl⟩
    · simp [Thread.tallies, Thread.strongs, Pc.strong, Nat.add_comm]
    · simp [Thread.tallies, Thread.weaks, Pc.weak, Nat.add_comm]

theorem Ready.attempt_unneeded {c : Int} (h : Ready s i ⟨.attempt_unneeded c, a, b⟩)
    (agrees : Bool) : ∃ u, s.step i agrees = some u ∧ Inv u := by
  have hbase : s.base = true :=
    h.base (by simp [Thread.weaks, Pc.weak]) (Or.inr (by simp [Thread.strongs, Pc.strong]))
  simp only [State.step, h.thread]
  rw [hbase, Bool.true_or, checked_true]
  refine ⟨_, rfl, ?_⟩
  simp only [goto, h.thread]
  exact h.quiet trivial rfl

theorem Ready.onFirstRef (h : Ready s i ⟨.onFirstRef, a, b⟩) (agrees : Bool) :
    ∃ u, s.step i agrees = some u ∧ Inv u := by
  simp only [State.step, h.thread]
  rw [h.base (by simp [Thread.weaks, Pc.weak]) (Or.inr (by simp [Thread.strongs, Pc.strong])),
    checked_true]
  refine ⟨_, rfl, ?_⟩
  simp only [gotStrong, h.thread]
  refine h.quiet trivial ?_
  simp [Thread.tallies, Thread.weaks, Thread.strongs, Pc.weak, Pc.strong, Pc.fixing, Pc.adding,
    Pc.dying, Pc.ending, Pc.deleting]
  omega

/-! ## The last references -/

theorem Ready.onLastStrongRef (h : Ready s i ⟨.onLastStrongRef, a, b⟩) (agrees : Bool) :
    ∃ u, s.step i agrees = some u ∧ Inv u := by
  have himpl : s.impl = true := h.impl (by simp [Thread.weaks, Pc.weak])
  have hin : 0 < (tallies s.threads).dying := h.within.dying
  have hbase : s.base = true := h.inv.numbers.base_iff.mpr ⟨himpl, Or.inr (Or.inr hin)⟩
  have hdied := h.step (x := ⟨.decWeak, a, b⟩) s.mStrong s.mWeak (s.base && s.extended) s.impl
    trivial fun _ he _ => h.inv.numbers.died he h.within rfl rfl rfl rfl ⟨rfl, rfl⟩ ⟨rfl, rfl, rfl⟩
  simp only [State.step, h.thread]
  rw [hbase, himpl, Bool.and_self, checked_true]
  refine ⟨_, rfl, ?_⟩
  split
  case isTrue hextended =>
    rw [hextended, Bool.and_true] at hdied
    simpa only [goto, h.thread, setThread, hextended] using hdied
  case isFalse hextended =>
    rw [Bool.not_eq_true] at hextended
    have hzero : s.mStrong = 0 := (h.inv.numbers.dying hextended hin).2
    simp only [goto, deleteBase_threads, h.thread]
    simpa [setThread, deleteBase, hextended, hzero, INITIAL_STRONG_VALUE] using hdied

/-- One weak reference less: the counts end with the last one. -/
theorem Ready.takeWeak (h : Ready s i th) (hmany : s.mWeak + 1 < 2 ^ 31)
    (hlast : s.mWeak = 1 → s.plain = none)
    (hweaks : th.weaks = a + b + 1) (hsame : SameStrong th.tallies (Thread.tallies ⟨.idle, a, b⟩))
    (hending : SameEnding th.tallies (Thread.tallies ⟨.idle, a, b⟩)) :
    1 ≤ s.mWeak ∧ Inv ((s.setWeak (s.mWeak - 1)).setThread i
      ⟨if s.mWeak = 1 then .decWeak_last else .idle, a, b⟩) := by
  have hin : th.weaks ≤ (tallies s.threads).weaks := h.within.weaks
  have hmore : 1 ≤ s.mWeak := by
    rw [h.inv.numbers.weak]
    omega
  have hless : 0 + a + b + 1 = th.weaks := by omega
  have hplain : s.mWeak = 1 → ¬ s.plain ≠ none := fun hw => not_not_intro (hlast hw)
  have hnone : 0 = th.pc.ending := hending.ending
  rw [setWeak, int32_eq (by omega) (by omega)]
  refine ⟨hmore, ?_⟩
  split
  case isTrue hone =>
    exact h.step (x := ⟨.decWeak_last, a, b⟩) s.mStrong (s.mWeak - 1) s.base s.impl trivial
      fun _ he ht => h.inv.numbers.decWeak he ht hplain hless
        ⟨hsame.strongs, hsame.fixing, hsame.adding, hsame.dying⟩
        (by rw [if_pos hone]; exact congrArg (· + 1) hnone) hending.deleting_base
        hending.deleting_impl
  case isFalse hmany =>
    exact h.step (x := ⟨.idle, a, b⟩) s.mStrong (s.mWeak - 1) s.base s.impl trivial
      fun _ he ht => h.inv.numbers.decWeak he ht hplain hless hsame
        (by rw [if_neg hmany]; exact hnone) hending.deleting_base hending.deleting_impl

theorem Ready.decWeak (h : Ready s i ⟨.decWeak, a, b⟩) (hmany : s.mWeak + 1 < 2 ^ 31)
    (hlast : s.mWeak = 1 → s.plain = none) (agrees : Bool) :
    ∃ u, s.step i agrees = some u ∧ Inv u := by
  obtain ⟨hmore, hinv⟩ := h.takeWeak (a := a) (b := b) hmany hlast
    (by simp [Thread.weaks, Pc.weak]; omega) ⟨rfl, rfl, rfl, rfl⟩ ⟨rfl, rfl, rfl⟩
  simp only [State.step, h.thread, State.decWeakStep]
  rw [h.impl (by simp [Thread.weaks, Pc.weak]), decide_eq_true hmore, checked_true]
  refine ⟨_, rfl, ?_⟩
  simp only [goto, setWeak_threads, h.thread]
  exact hinv

theorem Ready.decWeak_last (h : Ready s i ⟨.decWeak_last, a, b⟩) (agrees : Bool) :
    ∃ u, s.step i agrees = some u ∧ Inv u := by
  obtain ⟨himpl, -, hstrongs, -⟩ := h.ending rfl
  have hgoto : ∀ pc : Pc, pc.ending = 1 → pc.weak = 0 → SameStrong (Thread.tallies
      ⟨.decWeak_last, a, b⟩) (Thread.tallies ⟨pc, a, b⟩) →
      (0 < pc.deleting false → s.extended = true ∨ s.mStrong = INITIAL_STRONG_VALUE) →
      (0 < pc.deleting true → s.extended = false ∧ s.mStrong = 0) →
      Fits s.extended (s.plain = some i) ⟨pc, a, b⟩ → Inv (s.goto i pc) := by
    intro pc hending hweak hsame hbase hdelete hfits
    simp only [goto, h.thread]
    refine h.step (x := ⟨pc, a, b⟩) s.mStrong s.mWeak s.base s.impl hfits fun _ he _ =>
      h.inv.numbers.look he ?_ hsame hending hbase hdelete
    show pc.weak + a + b = 0 + a + b
    rw [hweak]
  have hnever : 0 < Pc.deleting true .delete_mBase → s.extended = false ∧ s.mStrong = 0 :=
    fun hno => absurd hno (Nat.lt_irrefl 0)
  simp only [State.step, h.thread]
  split
  case isTrue hextended =>
    rw [himpl, h.inv.numbers.base_iff.mpr ⟨himpl, Or.inl hextended⟩, Bool.and_self, checked_true]
    exact ⟨_, rfl, hgoto _ rfl rfl ⟨rfl, rfl, rfl, rfl⟩ (fun _ => Or.inl hextended) hnever trivial⟩
  case isFalse hextended =>
    rw [himpl, checked_true]
    refine ⟨_, rfl, ?_⟩
    split
    case isTrue hc =>
      exact hgoto _ rfl rfl ⟨rfl, rfl, rfl, rfl⟩ (fun _ => Or.inr hc) hnever trivial
    case isFalse hc =>
      refine hgoto _ rfl rfl ⟨rfl, rfl, rfl, rfl⟩ (fun hno => absurd hno (Nat.lt_irrefl 0))
        (fun _ => ⟨by simpa using hextended, ?_⟩) trivial
      by_cases hlow : s.mStrong < INITIAL_STRONG_VALUE
      · simp [h.inv.numbers.settled hlow, hstrongs]
      · exact absurd (by simp [h.inv.numbers.initial (by omega), hstrongs]) hc

theorem Ready.ended (h : Ready s i th) (hpc : th.pc.ending = 1)
    (hx : Thread.weaks ⟨.idle, a, b⟩ = th.weaks)
    (hsame : SameStrong th.tallies (Thread.tallies ⟨.idle, a, b⟩)) :
    Inv ⟨s.mStrong, s.mWeak, s.extended, false, false, s.plain,
      Function.update s.threads i ⟨.idle, a, b⟩⟩ :=
  h.step (x := ⟨.idle, a, b⟩) s.mStrong s.mWeak false false trivial fun _ he ht =>
    h.inv.numbers.ended he ht h.within hx hsame ⟨hpc, rfl⟩

theorem Ready.delete_mBase (h : Ready s i ⟨.delete_mBase, a, b⟩) (agrees : Bool) :
    ∃ u, s.step i agrees = some u ∧ Inv u := by
  obtain ⟨himpl, hzero, -, -⟩ := h.ending rfl
  have hin : 0 < (tallies s.threads).deleting_base := h.within.deleting_base
  have hwhy := h.inv.numbers.deleting_base hin
  have hbase : s.base = true := by
    refine h.inv.numbers.base_iff.mpr ⟨himpl, hwhy.imp_right fun hc => Or.inl ?_⟩
    rw [hc]
    decide
  simp only [State.step, h.thread]
  rw [hbase, himpl, Bool.and_self, checked_true]
  refine ⟨_, rfl, ?_⟩
  have hgone : (s.impl && !(s.mStrong == INITIAL_STRONG_VALUE || s.extended && s.mWeak == 0)) =
      false := by
    rcases hwhy with hextended | hc
    · simp [hextended, hzero]
    · simp [hc]
  simp only [goto, h.thread, deleteBase, hgone]
  exact h.ended rfl rfl ⟨rfl, rfl, rfl, rfl⟩

theorem Ready.delete_impl (h : Ready s i ⟨.delete_impl, a, b⟩) (agrees : Bool) :
    ∃ u, s.step i agrees = some u ∧ Inv u := by
  obtain ⟨himpl, hzero, -, hdying⟩ := h.ending rfl
  have hin : 0 < (tallies s.threads).deleting_impl := h.within.deleting_impl
  obtain ⟨hextended, hc⟩ := h.inv.numbers.deleting_impl hin
  have hbase : s.base = false := by
    rw [← Bool.not_eq_true]
    intro hbase
    have := (h.inv.numbers.base_iff.mp hbase).2
    simp [hextended, hc, hdying] at this
  simp only [State.step, h.thread]
  rw [himpl, checked_true]
  refine ⟨_, rfl, ?_⟩
  have hended := h.ended (a := a) (b := b) rfl rfl ⟨rfl, rfl, rfl, rfl⟩
  simp only [goto, h.thread, setThread, hbase]
  exact hended

/-! ## Weak references that are taken -/

theorem Ready.incWeak (h : Ready s i th) (hmany : s.mWeak + 1 < 2 ^ 31)
    (hwho : 0 < th.strong ∨ 0 < th.weak ∨ s.plain = some i)
    (hx : Fits s.extended (s.plain = some i) x) (hweaks : x.weaks = th.weaks + 1)
    (hstrong : SameStrong th.tallies x.tallies) (hsame : SameEnding th.tallies x.tallies) :
    Inv ((s.setWeak (s.mWeak + 1)).setThread i x) := by
  have hweak := h.inv.numbers.weak
  rw [setWeak, int32_eq (by omega) (by omega)]
  exact h.step s.mStrong (s.mWeak + 1) s.base s.impl hx fun _ he _ =>
    h.inv.numbers.incWeak he (h.named hwho).2 hweaks hstrong hsame

theorem Ready.attemptIncWeak_read {first : Bool} (h : Ready s i ⟨.attemptIncWeak_read first, a, b⟩)
    (agrees : Bool) : ∃ u, s.step i agrees = some u ∧ Inv u := by
  have hwho : 0 < a ∨ 0 < b ∨ s.plain = some i := h.fits
  have hnonneg : 0 ≤ s.mWeak := by
    rw [h.inv.numbers.weak]
    omega
  simp only [State.step, h.thread]
  rw [(h.named hwho).1, decide_eq_true hnonneg, Bool.or_true, checked_true]
  refine ⟨_, rfl, ?_⟩
  simp only [goto, h.thread]
  split
  case isTrue hpos => exact h.quiet ⟨hpos, hwho⟩ rfl
  case isFalse => exact h.quiet trivial rfl

theorem Ready.attemptIncWeak_cmpxchg {c : Int} (h : Ready s i ⟨.attemptIncWeak_cmpxchg c, a, b⟩)
    (hmany : s.mWeak + 1 < 2 ^ 31) (agrees : Bool) : ∃ u, s.step i agrees = some u ∧ Inv u := by
  obtain ⟨-, hwho⟩ : 0 < c ∧ (0 < a ∨ 0 < b ∨ s.plain = some i) := h.fits
  simp only [State.step, h.thread]
  rw [(h.named hwho).1, checked_true]
  refine ⟨_, rfl, ?_⟩
  simp only [goto, gotWeak, setWeak_threads, h.thread]
  split
  case isTrue =>
    exact h.incWeak (x := ⟨.idle, a, b + 1⟩) hmany hwho trivial rfl ⟨rfl, rfl, rfl, rfl⟩
      ⟨rfl, rfl, rfl⟩
  case isFalse => exact h.quiet hwho rfl

end

end Cdroid.Utils.RefBase
