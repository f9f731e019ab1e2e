import Cdroid.Utils.RefSteps

/-! Runs of the calls on one `RefBase`: nothing is used after it has been deleted, who has a
reference finds the object, and in the end everything is deleted. -/

namespace Cdroid.Utils.RefBase
open Cdroid.Lib Cdroid.Lib.Tally State

section
variable {ι : Type} [Fintype ι] {s : State ι} {i : ι} {th x : Thread} {a b : Nat}

theorem idle_inv {can : Bool} {o : Option (State ι)} (h : Inv s)
    (hcan : ∀ a b, s.threads i = ⟨.idle, a, b⟩ → can = true → ∃ u, o = some u ∧ Inv u) :
    ∃ u, idle s i can o = some u ∧ Inv u := by
  unfold idle
  split
  case isTrue hidle =>
    exact hcan (s.threads i).strong (s.threads i).weak (by rw [← hidle.1]) hidle.2
  case isFalse => exact ⟨s, rfl, h⟩

variable [DecidableEq ι]

/-- **A step** of the call that the thread is in. -/
theorem Inv.next_step (h : Inv s) (hfull : (s.mStrong + 1) % INITIAL_STRONG_VALUE ≠ 0)
    (hmany : s.mWeak + 1 < 2 ^ 31) (i : ι) (agrees : Bool)
    (hlast : (s.threads i).pc = .decWeak → s.mWeak = 1 → s.plain = none)
    (halone : (s.threads i).pc = .fixup_cmpxchg s.mStrong →
      ∀ j, (s.threads j).pc ≠ .incStrong_add) :
    ∃ u, s.step i agrees = some u ∧ Inv u := by
  rcases hi : s.threads i with ⟨pc, a, b⟩
  rw [hi] at hlast halone
  cases pc with
  | idle => exact ⟨s, by simp only [State.step, hi], h⟩
  | incStrong force => exact Ready.incStrong ⟨h, hi⟩ hfull agrees
  | incStrong_add => exact Ready.incStrong_add ⟨h, hi⟩ agrees
  | onFirstRef => exact Ready.onFirstRef ⟨h, hi⟩ agrees
  | onLastStrongRef => exact Ready.onLastStrongRef ⟨h, hi⟩ agrees
  | decWeak => exact Ready.decWeak ⟨h, hi⟩ hmany (hlast rfl) agrees
  | decWeak_last => exact Ready.decWeak_last ⟨h, hi⟩ agrees
  | delete_mBase => exact Ready.delete_mBase ⟨h, hi⟩ agrees
  | delete_impl => exact Ready.delete_impl ⟨h, hi⟩ agrees
  | attempt_read first => exact Ready.attempt_read ⟨h, hi⟩ agrees
  | attempt_cmpxchg c => exact Ready.attempt_cmpxchg ⟨h, hi⟩ hfull agrees
  | attempt_initial c => exact Ready.attempt_initial ⟨h, hi⟩ hfull agrees
  | attempt_reread => exact Ready.attempt_reread ⟨h, hi⟩ agrees
  | onIncStrongAttempted => exact Ready.onIncStrongAttempted ⟨h, hi⟩ agrees
  | attempt_inc => exact Ready.attempt_inc ⟨h, hi⟩ hfull agrees
  | attempt_unneeded c => exact Ready.attempt_unneeded ⟨h, hi⟩ agrees
  | fixup_read => exact Ready.fixup_read ⟨h, hi⟩ agrees
  | fixup_cmpxchg c =>
    exact Ready.fixup_cmpxchg ⟨h, hi⟩ (fun hc => halone (by simp only [hc])) agrees
  | attemptIncWeak_read first => exact Ready.attemptIncWeak_read ⟨h, hi⟩ agrees
  | attemptIncWeak_cmpxchg c => exact Ready.attemptIncWeak_cmpxchg ⟨h, hi⟩ hmany agrees

/-! ## Calls that begin -/

theorem Ready.names (h : Ready s i ⟨.idle, a, b⟩) (hnames : s.names i = true) :
    0 < a ∨ 0 < b ∨ s.plain = some i := by
  simpa [State.names, h.thread, or_assoc] using hnames

/-- A call that begins with a weak reference. -/
theorem Ready.beginIncWeak (h : Ready s i ⟨.idle, a, b⟩) (hmany : s.mWeak + 1 < 2 ^ 31)
    (hnames : s.names i = true) {alive : Bool} (halive : alive = true)
    (hx : Fits s.extended (s.plain = some i) x) (hweaks : x.weaks = a + b + 1)
    (hstrong : SameStrong (Thread.tallies ⟨.idle, a, b⟩) x.tallies)
    (hsame : SameEnding (Thread.tallies ⟨.idle, a, b⟩) x.tallies) :
    ∃ u, s.incWeak i alive x = some u ∧ Inv u := by
  have hwho : 0 < a ∨ 0 < b ∨ s.plain = some i := h.names hnames
  have hnonneg : 0 ≤ s.mWeak := by
    rw [h.inv.numbers.weak]
    omega
  have hmore : x.weaks = 0 + a + b + 1 := by omega
  unfold State.incWeak
  rw [(h.named hwho).1, halive, decide_eq_true hnonneg, Bool.and_self, checked_true]
  exact ⟨_, rfl, h.incWeak hmany hwho hx hmore hstrong hsame⟩

theorem Ready.holds_iff (h : Ready s i ⟨.idle, a, b⟩) :
    s.holds i = true ↔ 0 < a ∨ s.plain = some i := by
  simp [State.holds, h.thread]

/-- `incStrong` by who holds the object, and `forceIncStrong` also where its life is extended. -/
theorem Ready.beginIncStrong (h : Ready s i ⟨.idle, a, b⟩) (hmany : s.mWeak + 1 < 2 ^ 31)
    (force : Bool)
    (hcan : s.holds i = true ∨ force = true ∧ s.extended = true ∧ s.names i = true) :
    ∃ u, s.incWeak i s.base ⟨.incStrong force, a, b⟩ = some u ∧ Inv u := by
  rw [h.holds_iff] at hcan
  have hnames : s.names i = true := by
    rcases hcan with hholds | hforce
    · simp only [State.names, h.thread, Bool.or_eq_true, decide_eq_true_eq, beq_iff_eq]
      exact hholds.imp_left Or.inl
    · exact hforce.2.2
  have halive : s.extended = true ∨ 0 < s.mStrong := by
    rcases hcan with (ha | hplain) | hforce
    · exact Or.inr (h.strong (by simp [Thread.strongs, ha]))
    · exact Or.inr (h.inv.numbers.named (by simp [hplain]))
    · exact Or.inl hforce.2.1
  refine h.beginIncWeak hmany hnames ?_ ?_ ?_ ⟨rfl, rfl, rfl, rfl⟩ ⟨rfl, rfl, rfl⟩
  · exact h.inv.numbers.base_iff.mpr ⟨(h.named (h.names hnames)).1, halive.imp_right Or.inl⟩
  · rcases hcan with hholds | hforce
    · exact Or.inr hholds
    · exact Or.inl ⟨hforce.1, hforce.2.1⟩
  · show 1 + a + b = a + b + 1
    omega

theorem Ready.beginDecStrong (h : Ready s i ⟨.idle, a, b⟩) (ha : 0 < a)
    (hlast : s.mStrong = 1 → s.plain = none) : ∃ u, s.decStrong i = some u ∧ Inv u := by
  have hpos : 0 < s.mStrong := h.strong (by simp [Thread.strongs, ha])
  have hin : 0 < Thread.weaks ⟨.idle, a, b⟩ := by simp [Thread.weaks]; omega
  simp only [State.decStrong]
  rw [h.impl hin, h.base hin (Or.inr (by simp [Thread.strongs, ha])), Bool.and_self,
    decide_eq_true (by omega), checked_true]
  refine ⟨_, rfl, ?_⟩
  have hhigh := h.inv.mStrong_lt
  rw [h.thread, setStrong, int32_eq (by omega) (by omega)]
  have hless : ∀ pc : Pc, pc.weak = 1 → pc.strong = 0 → pc.fixing = 0 → pc.adding = 0 →
      pc.dying = (if s.mStrong = 1 then 1 else 0) →
      SameEnding (Thread.tallies ⟨.idle, a, b⟩) (Thread.tallies ⟨pc, a - 1, b⟩) →
      Fits s.extended (s.plain = some i) ⟨pc, a - 1, b⟩ →
      Inv ({ s with mStrong := s.mStrong - 1 }.setThread i ⟨pc, a - 1, b⟩) := by
    intro pc hweak hstrong hfixing hadding hdying hsame hfits
    refine h.step (x := ⟨pc, a - 1, b⟩) (s.mStrong - 1) s.mWeak s.base s.impl hfits fun _ he ht =>
      h.inv.numbers.decStrong he (tallies_ordered s.threads) ht h.within
        (fun hc => not_not_intro (hlast hc)) ?_ ?_ hfixing hadding ?_ hsame
    · show pc.strong + (a - 1) + 1 = 0 + a
      omega
    · show pc.weak + (a - 1) + b = 0 + a + b
      omega
    · show pc.dying = 0 + _
      rw [hdying, Nat.zero_add]
  split
  case isTrue hone =>
    exact hless _ rfl rfl rfl rfl (by rw [if_pos hone]; rfl) ⟨rfl, rfl, rfl⟩ trivial
  case isFalse hmany =>
    exact hless _ rfl rfl rfl rfl (by rw [if_neg hmany]; rfl) ⟨rfl, rfl, rfl⟩ trivial

theorem Ready.beginDecWeak (h : Ready s i ⟨.idle, a, b⟩) (hmany : s.mWeak + 1 < 2 ^ 31)
    (hb : 0 < b) (hlast : s.mWeak = 1 → s.plain = none) :
    ∃ u, (s.setThread i ⟨.idle, a, b - 1⟩).decWeakStep i = some u ∧ Inv u := by
  obtain ⟨hmore, hinv⟩ := h.takeWeak (a := a) (b := b - 1) hmany hlast
    (by simp [Thread.weaks, Pc.weak]; omega) ⟨rfl, rfl, rfl, rfl⟩ ⟨rfl, rfl, rfl⟩
  have himpl : (s.setThread i ⟨.idle, a, b - 1⟩).impl = true :=
    h.impl (by simp [Thread.weaks]; omega)
  simp only [State.decWeakStep]
  rw [himpl, decide_eq_true (show 1 ≤ (s.setThread i _).mWeak from hmore), checked_true]
  refine ⟨_, rfl, ?_⟩
  simp only [goto, setThread, setWeak, Function.update_self, Function.update_idem]
  exact hinv

/-! ## References that change hands -/

/-- What one thread gives, another has. -/
theorem Exchange.handed {t u v th x th' x' : Tallies} (h : Exchange t u th x)
    (h' : Exchange u v th' x') (hweaks : x.weaks + x'.weaks = th.weaks + th'.weaks)
    (hstrongs : x.strongs + x'.strongs = th.strongs + th'.strongs)
    (hrest : x = { th with weaks := x.weaks, strongs := x.strongs })
    (hrest' : x' = { th' with weaks := x'.weaks, strongs := x'.strongs }) : v = t := by
  rw [hrest] at h
  rw [hrest'] at h'
  obtain ⟨_, _, _, _, _, _, _, _⟩ := h
  obtain ⟨_, _, _, _, _, _, _, _⟩ := h'
  cases t
  cases u
  cases v
  simp only [Tallies.mk.injEq] at *
  omega

theorem Fits.more {extended : Bool} {plain : Prop} (h : Fits extended plain th)
    (hpc : x.pc = th.pc) (hstrong : th.strong ≤ x.strong) (hweak : th.weak ≤ x.weak) :
    Fits extended plain x := by
  obtain ⟨pc, a, b⟩ := th
  obtain ⟨pc', a', b'⟩ := x
  obtain rfl : pc' = pc := hpc
  have hnamed : 0 < a ∨ 0 < b ∨ plain → 0 < a' ∨ 0 < b' ∨ plain :=
    Or.imp (fun ha => ha.trans_le hstrong) (Or.imp_left fun hb => hb.trans_le hweak)
  cases pc' with
  | incStrong force => exact h.imp_right (Or.imp_left fun (ha : 0 < a) => ha.trans_le hstrong)
  | attemptIncWeak_read first => exact hnamed h
  | attemptIncWeak_cmpxchg c => exact h.imp_right hnamed
  | _ => exact h

theorem Ready.give {j : ι} (h : Ready s i ⟨.idle, a, b⟩) (hij : i ≠ j) (a' b' : Nat)
    (hx : (s.threads j).strong ≤ x.strong ∧ (s.threads j).weak ≤ x.weak)
    (hpc : x.pc = (s.threads j).pc)
    (hstrong : a' + x.strong = a + (s.threads j).strong)
    (hweak : b' + x.weak = b + (s.threads j).weak) :
    Inv ((s.setThread i ⟨.idle, a', b'⟩).setThread j x) where
  numbers := by
    have hi := tallies_exchange s.threads i ⟨.idle, a', b'⟩
    have hj := tallies_exchange (Function.update s.threads i ⟨.idle, a', b'⟩) j x
    rw [h.thread] at hi
    rw [Function.update_of_ne hij.symm] at hj
    have hsame := hi.handed hj
      (by simp only [Thread.tallies, Thread.weaks, hpc]; omega)
      (by simp only [Thread.tallies, Thread.strongs, hpc]; omega) rfl
      (by simp only [Thread.tallies, hpc])
    exact hsame ▸ h.inv.numbers
  fits k := by
    show Fits s.extended (s.plain = some k)
      (Function.update (Function.update s.threads i ⟨.idle, a', b'⟩) j x k)
    by_cases hkj : k = j
    · subst hkj
      rw [Function.update_self]
      exact (h.inv.fits k).more hpc hx.1 hx.2
    · rw [Function.update_of_ne hkj]
      by_cases hki : k = i
      · subst hki
        rw [Function.update_self]
        trivial
      · rw [Function.update_of_ne hki]
        exact h.inv.fits k

/-- The maker forgets the plain pointer, as it has a reference. -/
theorem Ready.forget (h : Ready s i ⟨.idle, a, b⟩) (hplain : s.plain = some i)
    (hcan : 0 < a ∨ 0 < b) : Inv { s with plain := none } where
  numbers := by
    have hall : 0 + a + b ≤ (tallies s.threads).weaks := h.within.weaks
    have hforget := h.inv.numbers.forget (by rw [h.inv.numbers.weak]; omega)
    simpa using hforget
  fits j := by
    by_cases hj : j = i
    · subst hj
      rw [h.thread]
      trivial
    · have hfits := h.inv.fits j
      have hother : (s.plain = some j) = (none = some j) := by simp [hplain, Ne.symm hj]
      rwa [hother] at hfits

/-! ## Runs -/

/-- What the callers see to: there are fewer strong and fewer weak references than fill the counts,
the plain pointer is forgotten before the last reference is given up, and no `attemptIncStrong`
takes `INITIAL_STRONG_VALUE` out of the count that an `incStrong` is about to take it from. -/
def Meets (s : State ι) (a : Action ι) : Prop :=
  ((s.mStrong + 1) % INITIAL_STRONG_VALUE ≠ 0 ∧ s.mWeak + 1 < 2 ^ 31) ∧
  match a with
  | .decStrong _ => s.mStrong = 1 → s.plain = none
  | .decWeak _ => s.mWeak = 1 → s.plain = none
  | .step i _ =>
    ((s.threads i).pc = .decWeak → s.mWeak = 1 → s.plain = none) ∧
    ((s.threads i).pc = .fixup_cmpxchg s.mStrong → ∀ j, (s.threads j).pc ≠ .incStrong_add)
  | _ => True

instance (s : State ι) : (a : Action ι) → Decidable (Meets s a)
  | .decStrong _ | .decWeak _ | .step _ _ => inferInstanceAs (Decidable (_ ∧ _))
  | .incStrong _ | .forceIncStrong _ | .incWeak _ | .attemptIncStrong _ | .attemptIncWeak _
  | .giveStrong _ _ | .giveWeak _ _ | .forget => inferInstanceAs (Decidable (_ ∧ True))

omit [DecidableEq ι] in
theorem initial_inv (extended : Bool) (maker : ι) : Inv (initial extended maker) where
  numbers := by
    have hnone : ∀ f : Tallies → Nat, f (Thread.tallies ⟨.idle, 0, 0⟩) = 0 →
        tally (fun th : Thread => f th.tallies) (initial extended maker).threads = 0 :=
      fun f hf => tally_const_zero fun _ => hf
    have hzero : tallies (initial extended maker).threads = ⟨0, 0, 0, 0, 0, 0, 0, 0⟩ := by
      simp only [tallies, Tallies.mk.injEq]
      exact ⟨hnone (·.weaks) rfl, hnone (·.strongs) rfl, hnone (·.fixing) rfl,
        hnone (·.adding) rfl, hnone (·.dying) rfl, hnone (·.ending) rfl,
        hnone (·.deleting_base) rfl, hnone (·.deleting_impl) rfl⟩
    rw [hzero]
    constructor <;> simp [initial, INITIAL_STRONG_VALUE]
  fits _ := trivial

theorem Inv.next (h : Inv s) {action : Action ι} (hmeets : Meets s action) :
    ∃ u, next s action = some u ∧ Inv u := by
  obtain ⟨⟨hfull, hmany⟩, hmeets⟩ := hmeets
  cases action with
  | incStrong i =>
    refine idle_inv h fun a b hi hcan => ?_
    rw [hi]
    exact Ready.beginIncStrong ⟨h, hi⟩ hmany false (Or.inl hcan)
  | forceIncStrong i =>
    refine idle_inv h fun a b hi hcan => ?_
    rw [hi]
    rw [Bool.or_eq_true, Bool.and_eq_true] at hcan
    exact Ready.beginIncStrong ⟨h, hi⟩ hmany true (hcan.imp_right fun hnames => ⟨rfl, hnames⟩)
  | incWeak i =>
    refine idle_inv h fun a b hi hcan => ?_
    rw [hi]
    refine Ready.beginIncWeak ⟨h, hi⟩ hmany hcan rfl trivial ?_ ⟨rfl, rfl, rfl, rfl⟩
      ⟨rfl, rfl, rfl⟩
    show 0 + a + (b + 1) = a + b + 1
    omega
  | decStrong i =>
    refine idle_inv h fun a b hi hcan => ?_
    rw [hi] at hcan
    exact Ready.beginDecStrong ⟨h, hi⟩ (by simpa using hcan) hmeets
  | decWeak i =>
    refine idle_inv h fun a b hi hcan => ?_
    rw [hi] at hcan ⊢
    exact Ready.beginDecWeak ⟨h, hi⟩ hmany (by simpa using hcan) hmeets
  | attemptIncStrong i =>
    refine idle_inv h fun a b hi hcan => ?_
    rw [hi]
    refine Ready.beginIncWeak ⟨h, hi⟩ hmany hcan rfl trivial ?_ ⟨rfl, rfl, rfl, rfl⟩
      ⟨rfl, rfl, rfl⟩
    show 1 + a + b = a + b + 1
    omega
  | attemptIncWeak i =>
    refine idle_inv h fun a b hi hcan => ⟨_, rfl, ?_⟩
    have hready : Ready s i ⟨.idle, a, b⟩ := ⟨h, hi⟩
    rw [goto, hi]
    exact hready.quiet (hready.names hcan) rfl
  | step i agrees => exact h.next_step hfull hmany i agrees hmeets.1 hmeets.2
  | giveStrong i j =>
    refine idle_inv h fun a b hi hcan => ⟨_, rfl, ?_⟩
    rw [hi] at hcan ⊢
    simp only [Bool.and_eq_true, decide_eq_true_eq, bne_iff_ne] at hcan
    exact Ready.give ⟨h, hi⟩ hcan.2 (a - 1) b ⟨Nat.le_succ _, le_rfl⟩ rfl (by simp only; omega) rfl
  | giveWeak i j =>
    refine idle_inv h fun a b hi hcan => ⟨_, rfl, ?_⟩
    rw [hi] at hcan ⊢
    simp only [Bool.and_eq_true, decide_eq_true_eq, bne_iff_ne] at hcan
    exact Ready.give ⟨h, hi⟩ hcan.2 a (b - 1) ⟨le_rfl, Nat.le_succ _⟩ rfl rfl
      (by simp only; omega)
  | forget =>
    simp only [Cdroid.Utils.RefBase.next]
    split
    case h_1 => exact ⟨s, rfl, h⟩
    case h_2 i hplain =>
      refine idle_inv h fun a b hi hcan => ⟨_, rfl, ?_⟩
      rw [hi] at hcan
      simp only [Bool.or_eq_true, decide_eq_true_eq] at hcan
      exact Ready.forget ⟨h, hi⟩ hplain hcan

theorem run_inv {extended : Bool} {maker : ι} (as : List (Action ι))
    (hmeets : Runs.Along Meets next as (initial extended maker)) :
    ∃ u, Runs.after next as (initial extended maker) = some u ∧ Inv u :=
  Runs.along_total (fun _ _ h => h.next) as (initial_inv extended maker) hmeets

/-- **Nothing is used after it has been deleted**, no `ALOG_ASSERT` fails, and who has a reference
finds the object: a strong one finds the object and its counts, a weak one finds the counts, and the
object as well where its life is extended. -/
theorem run_safe (extended : Bool) (maker : ι) (as : List (Action ι))
    (hmeets : Runs.Along Meets next as (initial extended maker)) :
    ∃ u, Runs.after next as (initial extended maker) = some u ∧ ∀ i,
      (0 < (u.threads i).strong ∨ u.plain = some i → u.base = true ∧ u.impl = true) ∧
      (0 < (u.threads i).weak → u.impl = true ∧ (u.extended = true → u.base = true)) := by
  obtain ⟨u, hu, hinv⟩ := run_inv as hmeets
  refine ⟨u, hu, fun i => ?_⟩
  have hready : Ready u i (u.threads i) := ⟨hinv, rfl⟩
  refine ⟨fun hwho => ?_, fun hweak => ?_⟩
  · have hpos : 0 < u.mStrong := by
      rcases hwho with hstrong | hplain
      · exact hready.strong (Nat.add_pos_right _ hstrong)
      · exact hinv.numbers.named (by simp [hplain])
    have himpl : u.impl = true := by
      rcases hwho with hstrong | hplain
      · exact hready.impl (Nat.add_pos_left (Nat.add_pos_right _ hstrong) _)
      · exact hinv.numbers.impl_iff.mpr (Or.inr (Or.inl (by simp [hplain])))
    exact ⟨hinv.numbers.base_iff.mpr ⟨himpl, Or.inr (Or.inl hpos)⟩, himpl⟩
  · have hpos : 0 < (u.threads i).weaks := Nat.add_pos_right _ hweak
    exact ⟨hready.impl hpos, fun hextended => hready.base hpos (Or.inl hextended)⟩

omit [DecidableEq ι] in
/-- What the threads have when no call is under way. -/
theorem tallies_idle {ths : ι → Thread} (h : ∀ i, (ths i).pc = .idle) (f : Tallies → Nat)
    (g : Thread → Nat) (hfg : ∀ a b, f (Thread.tallies ⟨.idle, a, b⟩) = g ⟨.idle, a, b⟩) :
    tally (fun th : Thread => f th.tallies) ths = tally g ths :=
  Finset.sum_congr rfl fun i _ => by
    have hi : ths i = ⟨.idle, (ths i).strong, (ths i).weak⟩ := by rw [← h i]
    rw [hi]
    exact hfg _ _

end

/-! ## A weak reference that is promoted while the last strong one is given up -/

/-- The object gets a strong reference, and another thread gets a weak one. -/
def shared : List (Action (Fin 2)) :=
  [.incStrong 0, .step 0 true, .step 0 true, .step 0 true, .forget, .incWeak 0, .giveWeak 0 1]

/-- One thread promotes its weak reference while the other gives up the strong one. -/
def promoted : List (Action (Fin 2)) :=
  shared ++ [.attemptIncStrong 1, .step 1 true, .decStrong 0, .step 1 true, .step 0 true,
    .step 1 true, .step 0 true, .step 1 true, .step 0 true]

theorem promoted_safe :
    ∃ u, Runs.after next promoted (initial false 0) = some u ∧ ∀ i,
      (0 < (u.threads i).strong ∨ u.plain = some i → u.base = true ∧ u.impl = true) ∧
      (0 < (u.threads i).weak → u.impl = true ∧ (u.extended = true → u.base = true)) :=
  run_safe false 0 promoted (by decide)

/-- The other thread gives up its weak reference as well. -/
def ended : List (Action (Fin 2)) := promoted ++ [.decWeak 1, .step 1 true, .step 1 true]

/-- The first strong reference is taken while a weak one is promoted. -/
def raced : List (Action (Fin 2)) :=
  [.incWeak 0, .giveWeak 0 1, .incStrong 0, .attemptIncStrong 1, .step 0 true, .step 1 true,
    .step 1 true, .step 1 true, .step 1 true, .step 0 true, .step 0 true, .decStrong 1]

-- `INITIAL_STRONG_VALUE` is taken out of the count twice.
example : (Runs.after next raced (initial false 0)).isNone := by decide

end Cdroid.Utils.RefBase
