import Cdroid.Utils.RefBase

/-! What the two counts of an object say of the calls that are under way, in every order of their
steps. -/

namespace Cdroid.Utils.RefBase
open Cdroid.Lib Cdroid.Lib.Tally

/-! ## What a call has counted -/

namespace Pc

/-- The weak references that a call has counted and not given to its thread. -/
def weak : Pc → Nat
  | .idle | .decWeak_last | .delete_mBase | .delete_impl | .attemptIncWeak_read _
  | .attemptIncWeak_cmpxchg _ => 0
  | _ => 1

/-- The strong references that a call has counted and not given to its thread. -/
def strong : Pc → Nat
  | .incStrong_add | .onFirstRef | .attempt_unneeded _ | .fixup_read | .fixup_cmpxchg _ => 1
  | _ => 0

/-- The call looks whether `INITIAL_STRONG_VALUE` is still in the count. -/
def fixing : Pc → Nat
  | .incStrong_add | .attempt_unneeded _ | .fixup_read | .fixup_cmpxchg _ => 1
  | _ => 0

def adding : Pc → Nat
  | .incStrong_add => 1
  | _ => 0

/-- The call has taken the last strong reference. -/
def dying : Pc → Nat
  | .onLastStrongRef => 1
  | _ => 0

/-- The call has taken the last weak reference. -/
def ending : Pc → Nat
  | .decWeak_last | .delete_mBase | .delete_impl => 1
  | _ => 0

def deleting (impl : Bool) : Pc → Nat
  | .delete_mBase => if impl then 0 else 1
  | .delete_impl => if impl then 1 else 0
  | _ => 0

end Pc

namespace Thread

def weaks (th : Thread) : Nat := th.pc.weak + th.strong + th.weak

def strongs (th : Thread) : Nat := th.pc.strong + th.strong

end Thread

/-- What a call has read, and what it relies on, by itself. -/
def Fits (extended : Bool) (plain : Prop) (th : Thread) : Prop :=
  match th.pc with
  | .incStrong force => force = true ∧ extended = true ∨ 0 < th.strong ∨ plain
  | .attempt_cmpxchg c => 0 < c ∧ c ≠ INITIAL_STRONG_VALUE
  | .attempt_initial c => 0 < c ∧ extended = false
  | .attempt_reread => extended = false
  | .onIncStrongAttempted | .attempt_inc => extended = true
  | .fixup_cmpxchg c => INITIAL_STRONG_VALUE ≤ c
  | .attemptIncWeak_read _ => 0 < th.strong ∨ 0 < th.weak ∨ plain
  | .attemptIncWeak_cmpxchg c => 0 < c ∧ (0 < th.strong ∨ 0 < th.weak ∨ plain)
  | _ => True

/-! ## The numbers -/

/-- What threads have and what their calls have counted, all together. -/
structure Tallies where
  weaks : Nat
  strongs : Nat
  fixing : Nat
  adding : Nat
  dying : Nat
  ending : Nat
  deleting_base : Nat
  deleting_impl : Nat

/-- The counts are what the threads have and what their calls have counted. -/
structure Numbers (mStrong mWeak : Int) (extended base impl : Bool) (plain : Prop) (t : Tallies) :
    Prop where
  weak : mWeak = t.weaks
  initial : INITIAL_STRONG_VALUE ≤ mStrong → mStrong = INITIAL_STRONG_VALUE + t.strongs
  settled : mStrong < INITIAL_STRONG_VALUE → mStrong = t.strongs
  few : (t.strongs : Int) < INITIAL_STRONG_VALUE
  fixed : INITIAL_STRONG_VALUE < mStrong → 0 < t.fixing
  adding : 0 < t.adding → t.adding = 1 ∧ INITIAL_STRONG_VALUE ≤ mStrong
  ending : 0 < t.ending → t.ending = 1 ∧ mWeak = 0 ∧ ¬ plain
  impl_iff : impl = true ↔ 0 < mWeak ∨ plain ∨ 0 < t.ending
  dying : extended = false → 0 < t.dying → t.dying = 1 ∧ mStrong = 0
  named : plain → 0 < mStrong
  base_iff : base = true ↔ impl = true ∧ (extended = true ∨ 0 < mStrong ∨ 0 < t.dying)
  deleting_base : 0 < t.deleting_base → extended = true ∨ mStrong = INITIAL_STRONG_VALUE
  deleting_impl : 0 < t.deleting_impl → extended = false ∧ mStrong = 0

/-- How the measures are related. -/
structure Tallies.Ordered (t : Tallies) : Prop where
  fixing : t.fixing ≤ t.strongs
  adding : t.adding ≤ t.fixing
  strongs : t.strongs ≤ t.weaks
  dying : t.dying ≤ t.weaks
  deleting : t.deleting_base + t.deleting_impl ≤ t.ending

def Thread.tallies (th : Thread) : Tallies where
  weaks := th.weaks
  strongs := th.strongs
  fixing := th.pc.fixing
  adding := th.pc.adding
  dying := th.pc.dying
  ending := th.pc.ending
  deleting_base := th.pc.deleting false
  deleting_impl := th.pc.deleting true

theorem Thread.ordered (th : Thread) : th.tallies.Ordered := by
  obtain ⟨pc, strong, weak⟩ := th
  constructor <;> cases pc <;>
    simp [tallies, weaks, strongs, Pc.weak, Pc.strong, Pc.fixing, Pc.adding, Pc.dying, Pc.ending,
      Pc.deleting] <;> omega

/-- One thread changes from `th` to `x`. -/
structure Exchange (old new : Tallies) (th x : Tallies) : Prop where
  weaks : new.weaks + th.weaks = old.weaks + x.weaks
  strongs : new.strongs + th.strongs = old.strongs + x.strongs
  fixing : new.fixing + th.fixing = old.fixing + x.fixing
  adding : new.adding + th.adding = old.adding + x.adding
  dying : new.dying + th.dying = old.dying + x.dying
  ending : new.ending + th.ending = old.ending + x.ending
  deleting_base : new.deleting_base + th.deleting_base = old.deleting_base + x.deleting_base
  deleting_impl : new.deleting_impl + th.deleting_impl = old.deleting_impl + x.deleting_impl

/-- What one thread has and has counted is part of the whole. -/
structure Within (th t : Tallies) : Prop where
  weaks : th.weaks ≤ t.weaks
  strongs : th.strongs ≤ t.strongs
  fixing : th.fixing ≤ t.fixing
  adding : th.adding ≤ t.adding
  dying : th.dying ≤ t.dying
  ending : th.ending ≤ t.ending
  deleting_base : th.deleting_base ≤ t.deleting_base
  deleting_impl : th.deleting_impl ≤ t.deleting_impl

/-! ## What a step does to the numbers -/

section
variable {c w : Int} {extended base impl : Bool} {plain : Prop} {t u th x : Tallies}

/-- The strong references of the two are the same, and so are the calls that look after them. -/
structure SameStrong (th x : Tallies) : Prop where
  strongs : x.strongs = th.strongs
  fixing : x.fixing = th.fixing
  adding : x.adding = th.adding
  dying : x.dying = th.dying

/-- Neither of the two deletes anything, or both do. -/
structure SameEnding (th x : Tallies) : Prop where
  ending : x.ending = th.ending
  deleting_base : x.deleting_base = th.deleting_base
  deleting_impl : x.deleting_impl = th.deleting_impl

theorem Exchange.quiet (he : Exchange t u th x) (hx : x = th) : u = t := by
  subst hx
  obtain ⟨hweaks, hstrongs, hfixing, hadding, hdying, hending, hbase, himpl⟩ := he
  cases t
  cases u
  simp only [Tallies.mk.injEq] at *
  omega

/-- One strong reference more, of a call that has a weak one. -/
theorem Numbers.inc (h : Numbers c w extended base impl plain t) (he : Exchange t u th x)
    (ht : t.Ordered) (hu : u.Ordered) (hin : Within th t)
    (hfull : (c + 1) % INITIAL_STRONG_VALUE ≠ 0) (hfrom : extended = true ∨ 0 < c)
    (hstrongs : x.strongs = th.strongs + 1) (hweaks : x.weaks = th.weaks) (hpos : 0 < th.weaks)
    (hfixing : x.fixing = th.fixing + 1 ∨ x.fixing = th.fixing ∧ c ≠ INITIAL_STRONG_VALUE)
    (hadding : x.adding = th.adding ∨ x.adding = th.adding + 1 ∧ c = INITIAL_STRONG_VALUE)
    (hdying : x.dying = th.dying) (hsame : SameEnding th x) :
    Numbers (c + 1) w extended base impl plain u := by
  obtain ⟨_, _, _, _, _, _, _, _, _, _, _, _, _⟩ := h
  obtain ⟨_, _, _, _, _, _, _, _⟩ := he
  obtain ⟨_, _, _, _, _⟩ := ht
  obtain ⟨_, _, _, _, _⟩ := hu
  obtain ⟨_, _, _⟩ := hsame
  have hall := hin.weaks
  constructor <;> grind [INITIAL_STRONG_VALUE]

/-- `INITIAL_STRONG_VALUE` is taken out of the count. -/
theorem Numbers.subtract (h : Numbers c w extended base impl plain t) (he : Exchange t u th x)
    (hin : Within th t) (hc : INITIAL_STRONG_VALUE ≤ c) (hadding : u.adding = 0)
    (hpos : 0 < th.strongs) (hstrongs : x.strongs = th.strongs) (hweaks : x.weaks = th.weaks)
    (hdying : x.dying = th.dying) (hsame : SameEnding th x) (ht : t.Ordered) :
    Numbers (c - INITIAL_STRONG_VALUE) w extended base impl plain u := by
  obtain ⟨_, _, _, _, _, _, _, _, _, _, _, _, _⟩ := h
  obtain ⟨_, _, _, _, _, _, _, _⟩ := he
  obtain ⟨_, _, _, _, _⟩ := ht
  obtain ⟨_, _, _⟩ := hsame
  have hall := hin.strongs
  constructor <;> grind [INITIAL_STRONG_VALUE]

/-- A call has seen that `INITIAL_STRONG_VALUE` is not in the count any more. -/
theorem Numbers.settle (h : Numbers c w extended base impl plain t) (he : Exchange t u th x)
    (hc : c < INITIAL_STRONG_VALUE) (hstrongs : x.strongs = th.strongs)
    (hweaks : x.weaks = th.weaks) (hadding : x.adding = th.adding) (hdying : x.dying = th.dying)
    (hsame : SameEnding th x) : Numbers c w extended base impl plain u := by
  obtain ⟨_, _, _, _, _, _, _, _, _, _, _, _, _⟩ := h
  obtain ⟨_, _, _, _, _, _, _, _⟩ := he
  obtain ⟨_, _, _⟩ := hsame
  constructor <;> grind [INITIAL_STRONG_VALUE]

/-- One weak reference more. -/
theorem Numbers.incWeak (h : Numbers c w extended base impl plain t) (he : Exchange t u th x)
    (hnamed : 0 < w ∨ plain) (hweaks : x.weaks = th.weaks + 1) (hstrong : SameStrong th x)
    (hsame : SameEnding th x) : Numbers c (w + 1) extended base impl plain u := by
  obtain ⟨_, _, _, _, _, _, _, _, _, _, _, _, _⟩ := h
  obtain ⟨_, _, _, _, _, _, _, _⟩ := he
  obtain ⟨_, _, _, _⟩ := hstrong
  obtain ⟨_, _, _⟩ := hsame
  constructor <;> grind [INITIAL_STRONG_VALUE]

/-- One strong reference less: who takes the last one lets the object die. -/
theorem Numbers.decStrong (h : Numbers c w extended base impl plain t) (he : Exchange t u th x)
    (ht : t.Ordered) (hu : u.Ordered) (hin : Within th t) (hplain : c = 1 → ¬ plain)
    (hstrongs : x.strongs + 1 = th.strongs) (hweaks : x.weaks = th.weaks)
    (hfixing : x.fixing = th.fixing) (hadding : x.adding = th.adding)
    (hdying : x.dying = th.dying + if c = 1 then 1 else 0) (hsame : SameEnding th x) :
    Numbers (c - 1) w extended base impl plain u := by
  obtain ⟨_, _, _, _, _, _, _, _, _, _, _, _, _⟩ := h
  obtain ⟨_, _, _, _, _, _, _, _⟩ := he
  obtain ⟨_, _, _, _, _⟩ := ht
  obtain ⟨_, _, _, _, _⟩ := hu
  obtain ⟨_, _, _⟩ := hsame
  have hall := hin.strongs
  constructor <;> grind [INITIAL_STRONG_VALUE]

/-- One weak reference less: who takes the last one ends it all. -/
theorem Numbers.decWeak (h : Numbers c w extended base impl plain t) (he : Exchange t u th x)
    (hu : u.Ordered) (hplain : w = 1 → ¬ plain) (hweaks : x.weaks + 1 = th.weaks)
    (hstrong : SameStrong th x) (hending : x.ending = th.ending + if w = 1 then 1 else 0)
    (hbase : x.deleting_base = th.deleting_base) (himpl : x.deleting_impl = th.deleting_impl) :
    Numbers c (w - 1) extended base impl plain u := by
  obtain ⟨_, _, _, _, _, _, _, _, _, _, _, _, _⟩ := h
  obtain ⟨_, _, _, _, _, _, _, _⟩ := he
  obtain ⟨_, _, _, _, _⟩ := hu
  obtain ⟨_, _, _, _⟩ := hstrong
  constructor <;> grind [INITIAL_STRONG_VALUE]

/-- Who ends it all has looked at the strong count. -/
theorem Numbers.look (h : Numbers c w extended base impl plain t) (he : Exchange t u th x)
    (hweaks : x.weaks = th.weaks) (hstrong : SameStrong th x) (hending : x.ending = th.ending)
    (hbase : 0 < x.deleting_base → extended = true ∨ c = INITIAL_STRONG_VALUE)
    (himpl : 0 < x.deleting_impl → extended = false ∧ c = 0) :
    Numbers c w extended base impl plain u := by
  obtain ⟨_, _, _, _, _, _, _, _, _, _, _, _, _⟩ := h
  obtain ⟨_, _, _, _, _, _, _, _⟩ := he
  obtain ⟨_, _, _, _⟩ := hstrong
  constructor <;> grind [INITIAL_STRONG_VALUE]

/-- Who ends it all is done. -/
theorem Numbers.ended (h : Numbers c w extended base impl plain t) (he : Exchange t u th x)
    (hu : u.Ordered) (hin : Within th t) (hweaks : x.weaks = th.weaks)
    (hstrong : SameStrong th x) (hending : th.ending = 1 ∧ x.ending = 0) :
    Numbers c w extended false false plain u := by
  obtain ⟨_, _, _, _, _, _, _, _, _, _, _, _, _⟩ := h
  obtain ⟨_, _, _, _, _, _, _, _⟩ := he
  obtain ⟨_, _, _, _, _⟩ := hu
  obtain ⟨_, _, _, _⟩ := hstrong
  have hall := hin.ending
  constructor <;> grind [INITIAL_STRONG_VALUE]

/-- The object has died: it is deleted, unless its life is extended. -/
theorem Numbers.died (h : Numbers c w extended base impl plain t) (he : Exchange t u th x)
    (hin : Within th t) (hweaks : x.weaks = th.weaks) (hstrongs : x.strongs = th.strongs)
    (hfixing : x.fixing = th.fixing) (hadding : x.adding = th.adding)
    (hdying : th.dying = 1 ∧ x.dying = 0) (hsame : SameEnding th x) :
    Numbers c w extended (base && extended) impl plain u := by
  obtain ⟨_, _, _, _, _, _, _, _, _, _, _, _, _⟩ := h
  obtain ⟨_, _, _, _, _, _, _, _⟩ := he
  obtain ⟨_, _, _⟩ := hsame
  have hall := hin.dying
  constructor <;> grind [INITIAL_STRONG_VALUE]

/-- The plain pointer is given up by a thread that has a reference. -/
theorem Numbers.forget (h : Numbers c w extended base impl plain t) (hw : 0 < w) :
    Numbers c w extended base impl False t := by
  obtain ⟨_, _, _, _, _, _, _, _, _, _, _, _, _⟩ := h
  constructor <;> grind

end

/-! ## All threads together -/

section
variable {ι : Type} [Fintype ι]

def tallies (ths : ι → Thread) : Tallies where
  weaks := tally (·.tallies.weaks) ths
  strongs := tally (·.tallies.strongs) ths
  fixing := tally (·.tallies.fixing) ths
  adding := tally (·.tallies.adding) ths
  dying := tally (·.tallies.dying) ths
  ending := tally (·.tallies.ending) ths
  deleting_base := tally (·.tallies.deleting_base) ths
  deleting_impl := tally (·.tallies.deleting_impl) ths

theorem tallies_ordered (ths : ι → Thread) : (tallies ths).Ordered where
  fixing := tally_le (f := fun th : Thread => th.tallies.fixing)
    (g := fun th => th.tallies.strongs) fun th => th.ordered.fixing
  adding := tally_le (f := fun th : Thread => th.tallies.adding)
    (g := fun th => th.tallies.fixing) fun th => th.ordered.adding
  strongs := tally_le (f := fun th : Thread => th.tallies.strongs)
    (g := fun th => th.tallies.weaks) fun th => th.ordered.strongs
  dying := tally_le (f := fun th : Thread => th.tallies.dying)
    (g := fun th => th.tallies.weaks) fun th => th.ordered.dying
  deleting := tally_add.symm.trans_le (tally_le (g := fun th : Thread => th.tallies.ending)
    fun th => th.ordered.deleting)

theorem tallies_within (ths : ι → Thread) (i : ι) : Within (ths i).tallies (tallies ths) where
  weaks := le_tally (f := fun th : Thread => th.tallies.weaks) i
  strongs := le_tally (f := fun th : Thread => th.tallies.strongs) i
  fixing := le_tally (f := fun th : Thread => th.tallies.fixing) i
  adding := le_tally (f := fun th : Thread => th.tallies.adding) i
  dying := le_tally (f := fun th : Thread => th.tallies.dying) i
  ending := le_tally (f := fun th : Thread => th.tallies.ending) i
  deleting_base := le_tally (f := fun th : Thread => th.tallies.deleting_base) i
  deleting_impl := le_tally (f := fun th : Thread => th.tallies.deleting_impl) i

theorem tallies_exchange [DecidableEq ι] (ths : ι → Thread) (i : ι) (x : Thread) :
    Exchange (tallies ths) (tallies (Function.update ths i x)) (ths i).tallies x.tallies where
  weaks := tally_update (f := fun th : Thread => th.tallies.weaks) i x
  strongs := tally_update (f := fun th : Thread => th.tallies.strongs) i x
  fixing := tally_update (f := fun th : Thread => th.tallies.fixing) i x
  adding := tally_update (f := fun th : Thread => th.tallies.adding) i x
  dying := tally_update (f := fun th : Thread => th.tallies.dying) i x
  ending := tally_update (f := fun th : Thread => th.tallies.ending) i x
  deleting_base := tally_update (f := fun th : Thread => th.tallies.deleting_base) i x
  deleting_impl := tally_update (f := fun th : Thread => th.tallies.deleting_impl) i x

/-- **The invariant.** -/
structure Inv (s : State ι) : Prop where
  numbers : Numbers s.mStrong s.mWeak s.extended s.base s.impl (s.plain ≠ none) (tallies s.threads)
  fits : ∀ i, Fits s.extended (s.plain = some i) (s.threads i)

variable [DecidableEq ι]

/-- A step of one thread keeps the invariant if the numbers are right afterwards. -/
theorem Inv.step {s : State ι} (h : Inv s) (i : ι) (x : Thread) (c w : Int) (base impl : Bool)
    (hx : Fits s.extended (s.plain = some i) x)
    (hnumbers : ∀ t, Exchange (tallies s.threads) t (s.threads i).tallies x.tallies → t.Ordered →
      Numbers c w s.extended base impl (s.plain ≠ none) t) :
    Inv ⟨c, w, s.extended, base, impl, s.plain, Function.update s.threads i x⟩ where
  numbers := hnumbers _ (tallies_exchange s.threads i x) (tallies_ordered _)
  fits j := by
    show Fits s.extended (s.plain = some j) (Function.update s.threads i x j)
    by_cases hj : j = i
    · subst hj
      rwa [Function.update_self]
    · rw [Function.update_of_ne hj]
      exact h.fits j

end

end Cdroid.Utils.RefBase
