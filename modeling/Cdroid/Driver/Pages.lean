import Cdroid.Driver.Buffers
import Mathlib.Tactic.ByContra

/-! The pages under the buffers: what the loops over a range of pages do, and which pages are
to be there. -/

namespace Cdroid.Driver
open Cdroid.Lib.SearchTree Cdroid.Lib.Tiling

/-! ## Ranges -/

/-- No page from `lo` up to `last`. -/
def Pages.clear (pages : Pages) (lo last : Nat) : Pages :=
  fun q => if q % PAGE_SIZE = 0 ∧ lo ≤ q ∧ q < last then false else pages q

/-- All the pages from `lo` up to `last`. -/
def Pages.fill (pages : Pages) (lo last : Nat) : Pages :=
  fun q => if q % PAGE_SIZE = 0 ∧ lo ≤ q ∧ q < last then true else pages q

section Ranges
variable {pages : Pages} {start lo last : Nat}

theorem clear_apply (q : Nat) : pages.clear lo last q =
    if q % PAGE_SIZE = 0 ∧ lo ≤ q ∧ q < last then false else pages q := rfl

theorem fill_apply (q : Nat) : pages.fill lo last q =
    if q % PAGE_SIZE = 0 ∧ lo ≤ q ∧ q < last then true else pages q := rfl

theorem set_apply (a q : Nat) (v : Bool) : pages.set a v q = if q = a then v else pages q := rfl

theorem clear_of_le (h : last ≤ lo) : pages.clear lo last = pages := by
  funext q
  exact if_neg (by omega)

theorem fill_of_le (h : last ≤ lo) : pages.fill lo last = pages := by
  funext q
  exact if_neg (by omega)

/-- A page more. -/
theorem last_page (hstart : start % PAGE_SIZE = 0) (n q : Nat) :
    q % PAGE_SIZE = 0 ∧ start ≤ q ∧ q < start + (n + 1) * PAGE_SIZE ↔
      q = start + n * PAGE_SIZE ∨ q % PAGE_SIZE = 0 ∧ start ≤ q ∧ q < start + n * PAGE_SIZE := by
  unfold PAGE_SIZE at *
  omega

/-- Pages that are there are freed. -/
theorem freePages_eq (hstart : start % PAGE_SIZE = 0) (n : Nat)
    (h : ∀ q, q % PAGE_SIZE = 0 → start ≤ q → q < start + n * PAGE_SIZE → pages q = true) :
    freePages start n pages = .ok (pages.clear start (start + n * PAGE_SIZE)) := by
  induction n generalizing pages with
  | zero => rw [freePages, clear_of_le (by omega)]
  | succ n ih =>
    have hlast := last_page hstart n
    have hthere : pages (start + n * PAGE_SIZE) = true := by
      obtain ⟨hq, hlo, hlt⟩ := (hlast (start + n * PAGE_SIZE)).mpr (Or.inl rfl)
      exact h _ hq hlo hlt
    have hrest : ∀ q, q % PAGE_SIZE = 0 → start ≤ q → q < start + n * PAGE_SIZE →
        pages.set (start + n * PAGE_SIZE) false q = true := by
      intro q hq hlo hlt
      obtain ⟨-, -, hlt'⟩ := (hlast q).mpr (Or.inr ⟨hq, hlo, hlt⟩)
      rw [set_apply, if_neg (by omega)]
      exact h q hq hlo hlt'
    rw [freePages, if_pos hthere, ih hrest]
    refine congrArg Except.ok (funext fun q => ?_)
    rw [clear_apply, clear_apply, set_apply]
    by_cases hq : q = start + n * PAGE_SIZE
    · rw [if_pos hq, if_pos ((hlast q).mpr (Or.inl hq)), ite_self]
    · rw [if_neg hq]
      by_cases hin : q % PAGE_SIZE = 0 ∧ start ≤ q ∧ q < start + n * PAGE_SIZE
      · rw [if_pos hin, if_pos ((hlast q).mpr (Or.inr hin))]
      · rw [if_neg hin, if_neg fun hmem => ((hlast q).mp hmem).elim hq hin]

theorem freeRange_eq (hlo : lo % PAGE_SIZE = 0) (hlast : last % PAGE_SIZE = 0)
    (h : ∀ q, q % PAGE_SIZE = 0 → lo ≤ q → q < last → pages q = true) :
    freeRange pages lo last = .ok (pages.clear lo last) := by
  unfold freeRange
  split
  · next hle => rw [clear_of_le hle]
  · have hwhole : lo + (last - lo) / PAGE_SIZE * PAGE_SIZE = last := by
      unfold PAGE_SIZE at *
      omega
    rw [freePages_eq hlo _ (by rw [hwhole]; exact h), hwhole]

/-- Pages that are not there are allocated; or one of them fails, and those before it are
freed. -/
theorem allocatePages_eq (hstart : start % PAGE_SIZE = 0) (n k : Nat) (results : List PageResult)
    (h : ∀ q, q % PAGE_SIZE = 0 → start ≤ q → q < start + (k + n) * PAGE_SIZE → pages q = false) :
    ∃ ok, allocatePages start n k (pages.fill start (start + k * PAGE_SIZE)) results =
      .ok (ok, if ok then pages.fill start (start + (k + n) * PAGE_SIZE) else pages) := by
  induction n generalizing k results with
  | zero => exact ⟨true, rfl⟩
  | succ n ih =>
    have hcount : k + (n + 1) = k + 1 + n := by omega
    have hlast := last_page hstart k
    have hle : start + (k + 1) * PAGE_SIZE ≤ start + (k + (n + 1)) * PAGE_SIZE :=
      Nat.add_le_add_left (Nat.mul_le_mul_right _ (by omega)) _
    have hnew : ∀ q, q % PAGE_SIZE = 0 ∧ start ≤ q ∧ q < start + (k + 1) * PAGE_SIZE →
        pages q = false := fun q hq => h q hq.1 hq.2.1 (by omega)
    have hthere : pages.fill start (start + k * PAGE_SIZE) (start + k * PAGE_SIZE) = false := by
      rw [fill_apply, if_neg (by omega)]
      exact hnew _ ((hlast _).mpr (Or.inl rfl))
    have hset : (pages.fill start (start + k * PAGE_SIZE)).set (start + k * PAGE_SIZE) true =
        pages.fill start (start + (k + 1) * PAGE_SIZE) := by
      funext q
      rw [set_apply, fill_apply, fill_apply]
      by_cases hq : q = start + k * PAGE_SIZE
      · rw [if_pos hq, if_pos ((hlast q).mpr (Or.inl hq))]
      · rw [if_neg hq]
        by_cases hin : q % PAGE_SIZE = 0 ∧ start ≤ q ∧ q < start + k * PAGE_SIZE
        · rw [if_pos hin, if_pos ((hlast q).mpr (Or.inr hin))]
        · rw [if_neg hin, if_neg fun hmem => ((hlast q).mp hmem).elim hq hin]
    have hundo : (freePages start k (pages.fill start (start + k * PAGE_SIZE))).map
        (fun pages => (false, pages)) = .ok (false, pages) := by
      have hthere : ∀ q, q % PAGE_SIZE = 0 → start ≤ q → q < start + k * PAGE_SIZE →
          pages.fill start (start + k * PAGE_SIZE) q = true :=
        fun q hq hlo hlt => if_pos ⟨hq, hlo, hlt⟩
      rw [freePages_eq hstart k hthere]
      refine congrArg (fun pages => Except.ok (false, pages)) (funext fun q => ?_)
      rw [clear_apply, fill_apply]
      by_cases hin : q % PAGE_SIZE = 0 ∧ start ≤ q ∧ q < start + k * PAGE_SIZE
      · rw [if_pos hin, hnew q ((hlast q).mpr (Or.inr hin))]
      · rw [if_neg hin, if_neg hin]
    rw [allocatePages, if_neg (by rw [hthere]; exact Bool.false_ne_true)]
    split
    · rw [hset, hcount]
      exact ih (k + 1) results.tail (by rw [← hcount]; exact h)
    · exact ⟨false, hundo⟩
    · exact ⟨false, hundo⟩
    · exact ⟨false, hundo⟩

theorem allocateRange_eq (env : Env) (hlo : lo % PAGE_SIZE = 0) (hlast : last % PAGE_SIZE = 0)
    (h : ∀ q, q % PAGE_SIZE = 0 → lo ≤ q → q < last → pages q = false) :
    ∃ ok, allocateRange pages lo last env = .ok (ok, if ok then pages.fill lo last else pages) := by
  unfold allocateRange
  split
  · next hle => exact ⟨true, by rw [fill_of_le hle]; rfl⟩
  · split
    · exact ⟨false, rfl⟩
    · have hwhole : lo + (0 + (last - lo) / PAGE_SIZE) * PAGE_SIZE = last := by
        unfold PAGE_SIZE at *
        omega
      have hzero : pages.fill lo (lo + 0 * PAGE_SIZE) = pages := fill_of_le (by omega)
      obtain ⟨ok, hok⟩ := allocatePages_eq hlo ((last - lo) / PAGE_SIZE) 0 env.results
        (by rw [hwhole]; exact h)
      rw [hzero, hwhole] at hok
      exact ⟨ok, hok⟩

end Ranges

/-! ## The pages that are to be there -/

/-- Something of the page `q` is used by one of the buffers: `used` is where the use of each
one ends, that of the header and maybe of the data. -/
def Over (used : Nat → Nat) (l : List Nat) (q : Nat) : Prop :=
  ∃ y ∈ l, q < used y ∧ y < q + PAGE_SIZE

/-- The pages that are used are there, and no others. -/
def PagedBy (pages : Pages) (used : Nat → Nat) (l : List Nat) : Prop :=
  ∀ q, pages q = true ↔ q % PAGE_SIZE = 0 ∧ Over used l q

section Over
variable {used used' : Nat → Nat} {l m : List Nat} {q : Nat}

theorem over_append : Over used (l ++ m) q ↔ Over used l q ∨ Over used m q := by
  constructor
  · rintro ⟨y, hy, hq⟩
    rcases List.mem_append.mp hy with hy | hy
    · exact Or.inl ⟨y, hy, hq⟩
    · exact Or.inr ⟨y, hy, hq⟩
  · rintro (⟨y, hy, hq⟩ | ⟨y, hy, hq⟩)
    · exact ⟨y, List.mem_append_left m hy, hq⟩
    · exact ⟨y, List.mem_append_right l hy, hq⟩

theorem over_cons {y : Nat} :
    Over used (y :: l) q ↔ (q < used y ∧ y < q + PAGE_SIZE) ∨ Over used l q := by
  constructor
  · rintro ⟨z, hz, hq⟩
    rcases List.mem_cons.mp hz with rfl | hz
    · exact Or.inl hq
    · exact Or.inr ⟨z, hz, hq⟩
  · rintro (hq | ⟨z, hz, hq⟩)
    · exact ⟨y, List.mem_cons_self, hq⟩
    · exact ⟨z, List.mem_cons_of_mem y hz, hq⟩

theorem over_congr (h : ∀ y ∈ l, used y = used' y) : Over used l q ↔ Over used' l q := by
  constructor
  · rintro ⟨y, hy, hq⟩
    exact ⟨y, hy, h y hy ▸ hq⟩
  · rintro ⟨y, hy, hq⟩
    exact ⟨y, hy, (h y hy).symm ▸ hq⟩

/-- What is used in front of `b` is in front of it. -/
theorem over_pre {b : Nat} (h : ∀ y ∈ l, used y ≤ b) (hq : Over used l q) : q < b := by
  obtain ⟨y, hy, hlt, -⟩ := hq
  have hle := h y hy
  omega

theorem over_post {e t : Nat} (ht : Tiles sizeof_binder_buffer e t l) (hq : Over used l q) :
    t < q + PAGE_SIZE := by
  obtain ⟨y, hy, -, hlt⟩ := hq
  have hle := (ht.mem_le hy).1
  omega

/-- The page on which one buffer ends and another one begins is used by the second. -/
theorem over_head {e t : Nat} (ht : Tiles sizeof_binder_buffer e t l)
    (hu : ∀ y ∈ l, data y ≤ used y) (he : e % PAGE_SIZE = 0) (hq : q % PAGE_SIZE = 0)
    (hlt : q < t) (hle : t < q + PAGE_SIZE) : Over used l q := by
  cases l with
  | nil =>
    have hte : t = e := ht
    unfold PAGE_SIZE at *
    omega
  | cons y l =>
    obtain ⟨rfl, -⟩ := ht
    have hy := hu y List.mem_cons_self
    unfold data at hy
    exact ⟨y, List.mem_cons_self, by omega, hle⟩

end Over

section Paged
variable {pages : Pages} {used : Nat → Nat} {l pre post : List Nat} {b e t : Nat}

/-- The headers of the buffers are on pages that are there. -/
theorem PagedBy.header (h : PagedBy pages used l) (hu : ∀ y ∈ l, data y ≤ used y) (hb : b ∈ l) :
    pages (buffer_start_page b) = true ∧ pages (buffer_end_page b) = true := by
  have hle := hu b hb
  unfold data sizeof_binder_buffer at hle
  unfold buffer_start_page buffer_end_page pageMask sizeof_binder_buffer
  unfold PagedBy Over PAGE_SIZE at h
  unfold PAGE_SIZE
  exact ⟨(h _).mpr ⟨by omega, b, hb, by omega, by omega⟩,
    (h _).mpr ⟨by omega, b, hb, by omega, by omega⟩⟩

theorem PagedBy.congr {used' : Nat → Nat} (h : PagedBy pages used l)
    (hsame : ∀ y ∈ l, used y = used' y) : PagedBy pages used' l := by
  intro q
  rw [h q, over_congr hsame]

/-- The use of one buffer ends at `T`. -/
theorem PagedBy.of_iff {used' : Nat → Nat} {T : Nat}
    (h : ∀ q, pages q = true ↔ q % PAGE_SIZE = 0 ∧
      (Over used pre q ∨ (q < T ∧ b < q + PAGE_SIZE) ∨ Over used post q))
    (hsame : ∀ y ∈ pre ++ post, used y = used' y) (hb : used' b = T) :
    PagedBy pages used' (pre ++ b :: post) := by
  intro q
  rw [h q, over_append, over_cons, hb,
    over_congr fun y hy => hsame y (List.mem_append_left _ hy),
    over_congr (l := post) fun y hy => hsame y (List.mem_append_right _ hy)]

/-- It ends at `T` with the header of a new buffer. -/
theorem PagedBy.of_iff_split {used' : Nat → Nat} {T new : Nat}
    (h : ∀ q, pages q = true ↔ q % PAGE_SIZE = 0 ∧
      (Over used pre q ∨ (q < T ∧ b < q + PAGE_SIZE) ∨ Over used post q))
    (hsame : ∀ y ∈ pre ++ post, used y = used' y) (hb : used' b = new) (hnew : used' new = T)
    (hle : b ≤ new) (hT : new ≤ T) : PagedBy pages used' (pre ++ b :: new :: post) := by
  intro q
  have hcut : (q < T ∧ b < q + PAGE_SIZE) ↔
      (q < new ∧ b < q + PAGE_SIZE) ∨ (q < T ∧ new < q + PAGE_SIZE) := by
    unfold PAGE_SIZE
    omega
  rw [h q, over_append, over_cons, over_cons, hb, hnew, hcut, or_assoc,
    over_congr fun y hy => hsame y (List.mem_append_left _ hy),
    over_congr (l := post) fun y hy => hsame y (List.mem_append_right _ hy)]

/-! ### An allocation

`b` is free and ends at `t`; of its data, what is in front of `T` is to be used. -/

section Fill
variable {T T' : Nat} (h : PagedBy pages used (pre ++ b :: post)) (hb : used b = data b)
  (hpost : Tiles sizeof_binder_buffer e t post)
include h hb hpost

/-- The pages that are allocated are not there yet. -/
theorem PagedBy.not_there (hpre : ∀ y ∈ pre, used y ≤ b) {q : Nat} (hq : q % PAGE_SIZE = 0)
    (hlo : pageAlign (data b) ≤ q) (hlt : q < pageMask t) : pages q = false := by
  rw [Bool.eq_false_iff]
  intro hthere
  have hover := ((h q).mp hthere).2
  unfold pageAlign at hlo
  unfold pageMask at hlt
  rcases over_append.mp hover with hover | hover
  · have hbefore := over_pre hpre hover
    unfold data PAGE_SIZE at *
    omega
  · rcases over_cons.mp hover with ⟨hover, -⟩ | hover
    · rw [hb] at hover
      unfold data PAGE_SIZE at *
      omega
    · have hbehind := over_post hpost hover
      unfold PAGE_SIZE at *
      omega

/-- After it, the pages under the header and the data are there: what is too short for
another buffer is on a page that is there anyway. -/
theorem PagedBy.fill (hu : ∀ y ∈ post, data y ≤ used y) (he : e % PAGE_SIZE = 0)
    (hT : data b ≤ T) (hTT : T ≤ T') (hTt : T' ≤ t)
    (hexact : T' = T ∨ t ≤ T + sizeof_binder_buffer + 4) (q : Nat) :
    pages.fill (pageAlign (data b)) (min (pageAlign T) (pageMask t)) q = true ↔
      q % PAGE_SIZE = 0 ∧
        (Over used pre q ∨ (q < T' ∧ b < q + PAGE_SIZE) ∨ Over used post q) := by
  have hold : pages q = true ↔ q % PAGE_SIZE = 0 ∧
      (Over used pre q ∨ (q < data b ∧ b < q + PAGE_SIZE) ∨ Over used post q) := by
    rw [h q, over_append, over_cons, hb]
  rw [fill_apply]
  split
  · next hin =>
    obtain ⟨hq, hlo, hlt⟩ := hin
    refine ⟨fun _ => ⟨hq, Or.inr (Or.inl ?_)⟩, fun _ => rfl⟩
    have hlt' : q < pageAlign T := Nat.lt_of_lt_of_le hlt (Nat.min_le_left _ _)
    unfold pageAlign data sizeof_binder_buffer PAGE_SIZE at *
    omega
  · next hout =>
    rw [hold]
    refine and_congr_right fun hq => ?_
    constructor
    · rintro (hover | ⟨hlt, hover⟩ | hover)
      · exact Or.inl hover
      · exact Or.inr (Or.inl ⟨by omega, hover⟩)
      · exact Or.inr (Or.inr hover)
    · rintro (hover | ⟨hlt, hover⟩ | hover)
      · exact Or.inl hover
      · by_cases hdata : q < data b
        · exact Or.inr (Or.inl ⟨hdata, hover⟩)
        · -- the page is behind those that are allocated: the next buffer begins on it
          have hge : min (pageAlign T) (pageMask t) ≤ q := by
            by_contra hlt'
            refine hout ⟨hq, ?_, by omega⟩
            unfold pageAlign PAGE_SIZE at *
            omega
          refine Or.inr (Or.inr (over_head hpost hu he hq (by omega) ?_))
          unfold pageAlign pageMask sizeof_binder_buffer PAGE_SIZE at *
          omega
      · exact Or.inr (Or.inr hover)

end Fill

/-! ### A free

`b` is no longer used, but for its header. -/

section Clear
variable (h : PagedBy pages used (pre ++ b :: post)) (hb : used b = t)
  (hpost : Tiles sizeof_binder_buffer e t post)
include h hb

/-- The pages that are freed are there. -/
theorem PagedBy.there {q : Nat} (hq : q % PAGE_SIZE = 0) (hlo : pageAlign (data b) ≤ q)
    (hlt : q < pageMask t) : pages q = true := by
  refine (h q).mpr ⟨hq, over_append.mpr (Or.inr (over_cons.mpr (Or.inl ?_)))⟩
  rw [hb]
  unfold pageAlign data at hlo
  unfold pageMask at hlt
  unfold PAGE_SIZE at *
  omega

include hpost

/-- After it, the pages under its header alone are there. -/
theorem PagedBy.clear (hpre : ∀ y ∈ pre, used y ≤ b) (hu : ∀ y ∈ post, data y ≤ used y)
    (he : e % PAGE_SIZE = 0) (hbt : data b ≤ t) (q : Nat) :
    pages.clear (pageAlign (data b)) (pageMask t) q = true ↔
      q % PAGE_SIZE = 0 ∧
        (Over used pre q ∨ (q < data b ∧ b < q + PAGE_SIZE) ∨ Over used post q) := by
  have hold : pages q = true ↔ q % PAGE_SIZE = 0 ∧
      (Over used pre q ∨ (q < t ∧ b < q + PAGE_SIZE) ∨ Over used post q) := by
    rw [h q, over_append, over_cons, hb]
  rw [clear_apply]
  split
  · next hin =>
    obtain ⟨hq, hlo, hlt⟩ := hin
    refine ⟨fun hf => absurd hf Bool.false_ne_true, ?_⟩
    rintro ⟨-, hover | ⟨hover, -⟩ | hover⟩
    · have hbefore := over_pre hpre hover
      unfold pageAlign data PAGE_SIZE at *
      omega
    · unfold pageAlign PAGE_SIZE at *
      omega
    · have hbehind := over_post hpost hover
      unfold pageMask PAGE_SIZE at *
      omega
  · next hout =>
    rw [hold]
    refine and_congr_right fun hq => ?_
    constructor
    · rintro (hover | ⟨hlt, hover⟩ | hover)
      · exact Or.inl hover
      · by_cases hdata : q < data b
        · exact Or.inr (Or.inl ⟨hdata, hover⟩)
        · have hge : pageMask t ≤ q := by
            by_contra hlt'
            refine hout ⟨hq, ?_, by omega⟩
            unfold pageAlign PAGE_SIZE at *
            omega
          refine Or.inr (Or.inr (over_head hpost hu he hq hlt ?_))
          unfold pageMask PAGE_SIZE at *
          omega
      · exact Or.inr (Or.inr hover)
    · rintro (hover | ⟨hlt, hover⟩ | hover)
      · exact Or.inl hover
      · exact Or.inr (Or.inl ⟨by omega, hover⟩)
      · exact Or.inr (Or.inr hover)

end Clear

/-! ### A header that goes -/

/-- When the first page of the header is freed, and when the last one is. -/
theorem headerPages_flags (prev x : Nat) (next : Option Nat) :
    ((binder_proc.headerPages prev x next).1 = true ↔
      buffer_end_page prev ≠ buffer_start_page x ∧
        ∀ n ∈ next, ¬(buffer_start_page n = buffer_end_page x ∧
          buffer_start_page n = buffer_start_page x)) ∧
    ((binder_proc.headerPages prev x next).2 = true ↔
      ¬(buffer_end_page prev = buffer_start_page x ∧ buffer_end_page prev = buffer_end_page x) ∧
        ∀ n ∈ next, buffer_start_page n ≠ buffer_end_page x) := by
  unfold binder_proc.headerPages
  cases next with
  | none =>
    by_cases hprev : buffer_end_page prev = buffer_start_page x
    · simp [hprev]
    · simp [hprev]
  | some n =>
    by_cases hprev : buffer_end_page prev = buffer_start_page x
    · by_cases hnext : buffer_start_page n = buffer_end_page x
      · simp [hprev, hnext]
      · simp [hprev, hnext]
    · by_cases hnext : buffer_start_page n = buffer_end_page x
      · simp [hprev, hnext]
      · simp [hprev, hnext]

/-- The pages that `binder_delete_free_buffer` frees: they are under the header, and neither
under the one in front nor under the one behind. -/
theorem headerPages_iff {prev x : Nat} {next : Option Nat} (hprev : data prev ≤ x)
    (hnext : ∀ n ∈ next, data x ≤ n) {q : Nat} (hq : q % PAGE_SIZE = 0) :
    let (free_page_start, free_page_end) := binder_proc.headerPages prev x next
    ((free_page_start || free_page_end) = true ∧
        (if free_page_start then buffer_start_page x else buffer_end_page x) ≤ q ∧
        q < (if free_page_end then buffer_end_page x else buffer_start_page x) + PAGE_SIZE) ↔
      (q < data x ∧ x < q + PAGE_SIZE) ∧ ¬(q < data prev ∧ prev < q + PAGE_SIZE) ∧
        ∀ n ∈ next, ¬(q < data n ∧ n < q + PAGE_SIZE) := by
  obtain ⟨hstart, hend⟩ := headerPages_flags prev x next
  generalize binder_proc.headerPages prev x next = flags at *
  obtain ⟨free_page_start, free_page_end⟩ := flags
  unfold buffer_start_page buffer_end_page pageMask at *
  unfold data sizeof_binder_buffer PAGE_SIZE at *
  cases next with
  | none =>
    cases free_page_start <;> cases free_page_end <;>
      simp only [Option.mem_def, reduceCtorEq, false_imp_iff, implies_true, and_true,
        Bool.or_true, Bool.or_false, Bool.false_eq_true, if_true, if_false,
        true_and, false_and, true_iff, false_iff] at * <;> omega
  | some n =>
    have hxn := hnext n rfl
    simp only [Option.mem_def, Option.some.injEq, forall_eq'] at *
    cases free_page_start <;> cases free_page_end <;>
      simp only [Bool.or_true, Bool.or_false, Bool.false_eq_true, if_true, if_false,
        true_and, false_and, true_iff, false_iff] at * <;> omega

theorem buffer_start_page_whole (x : Nat) : buffer_start_page x % PAGE_SIZE = 0 := by
  unfold buffer_start_page pageMask PAGE_SIZE
  omega

theorem buffer_end_page_whole (x : Nat) : buffer_end_page x % PAGE_SIZE = 0 := by
  unfold buffer_end_page pageMask PAGE_SIZE
  omega

section Delete
variable {prev x : Nat} (h : PagedBy pages used (pre ++ prev :: x :: post))
  (hprev : used prev = data prev) (hx : used x = data x) (hpre : ∀ y ∈ pre, used y ≤ prev)
  (hle : data prev ≤ x) (hxt : data x ≤ t) (hpost : Tiles sizeof_binder_buffer e t post)
  (hu : ∀ y ∈ post, data y ≤ used y)
include h hprev hx hpre hle hxt hpost hu

/-- Without the pages that only the header of `x` is on, those under the other buffers are
there. -/
theorem PagedBy.without {F : Nat → Prop} [DecidablePred F]
    (hF : ∀ q, q % PAGE_SIZE = 0 → (F q ↔
      (q < data x ∧ x < q + PAGE_SIZE) ∧ ¬(q < data prev ∧ prev < q + PAGE_SIZE) ∧
        ∀ n ∈ post.head?, ¬(q < data n ∧ n < q + PAGE_SIZE))) :
    PagedBy (fun q => if q % PAGE_SIZE = 0 ∧ F q then false else pages q) used
      (pre ++ prev :: post) := by
  have hhead : ∀ n ∈ post.head?, n = t ∧ n ∈ post := by
    intro n hn
    cases post with
    | nil => cases hn
    | cons m post =>
      cases hn
      exact ⟨hpost.1, List.mem_cons_self⟩
  have hold : ∀ q, pages q = true ↔ q % PAGE_SIZE = 0 ∧
      (Over used pre q ∨ (q < data prev ∧ prev < q + PAGE_SIZE) ∨
        (q < data x ∧ x < q + PAGE_SIZE) ∨ Over used post q) := by
    intro q
    rw [h q, over_append, over_cons, over_cons, hprev, hx]
  intro q
  rw [over_append, over_cons, hprev]
  dsimp only
  split
  · next hin =>
    obtain ⟨hq, hfreed⟩ := hin
    obtain ⟨⟨hlt, hxq⟩, hnprev, hnext⟩ := (hF q hq).mp hfreed
    refine ⟨fun hf => absurd hf Bool.false_ne_true, ?_⟩
    rintro ⟨-, hover | hover | hover⟩
    · have hbefore := over_pre hpre hover
      unfold data at *
      omega
    · exact absurd hover hnprev
    · have hbehind := over_post hpost hover
      cases post with
      | nil =>
        obtain ⟨y, hy, -⟩ := hover
        cases hy
      | cons m post =>
        obtain rfl := hpost.1
        refine absurd ⟨?_, hbehind⟩ (hnext m rfl)
        unfold data at *
        omega
  · next hout =>
    rw [hold]
    refine and_congr_right fun hq => ?_
    constructor
    · rintro (hover | hover | hover | hover)
      · exact Or.inl hover
      · exact Or.inr (Or.inl hover)
      · -- the page stays, so there is another header on it
        by_contra hnone
        rw [not_or, not_or] at hnone
        refine hout ⟨hq, (hF q hq).mpr ⟨hover, hnone.2.1, ?_⟩⟩
        intro n hn hnq
        have hmem := (hhead n hn).2
        exact hnone.2.2 ⟨n, hmem, Nat.lt_of_lt_of_le hnq.1 (hu n hmem), hnq.2⟩
      · exact Or.inr (Or.inr hover)
    · rintro (hover | hover | hover)
      · exact Or.inl hover
      · exact Or.inr (Or.inl hover)
      · exact Or.inr (Or.inr (Or.inr hover))

/-- The pages that are freed are there, and after it those under the other buffers are. -/
theorem PagedBy.delete :
    let (free_page_start, free_page_end) := binder_proc.headerPages prev x post.head?
    ∃ pages', (if free_page_start || free_page_end then
        freeRange pages (if free_page_start then buffer_start_page x else buffer_end_page x)
          ((if free_page_end then buffer_end_page x else buffer_start_page x) + PAGE_SIZE)
      else .ok pages) = .ok pages' ∧ PagedBy pages' used (pre ++ prev :: post) := by
  have hnext : ∀ n ∈ post.head?, data x ≤ n := by
    intro n hn
    cases post with
    | nil => cases hn
    | cons m post =>
      cases hn
      exact hpost.1 ▸ hxt
  have hiff : ∀ q, q % PAGE_SIZE = 0 → _ := fun q => headerPages_iff hle hnext
  generalize binder_proc.headerPages prev x post.head? = flags at *
  obtain ⟨free_page_start, free_page_end⟩ := flags
  dsimp only at *
  have hlo : (if free_page_start = true then buffer_start_page x else buffer_end_page x) %
      PAGE_SIZE = 0 := by
    split
    · exact buffer_start_page_whole x
    · exact buffer_end_page_whole x
  have hlast : ((if free_page_end = true then buffer_end_page x else buffer_start_page x) +
      PAGE_SIZE) % PAGE_SIZE = 0 := by
    rw [Nat.add_mod_right]
    split
    · exact buffer_end_page_whole x
    · exact buffer_start_page_whole x
  generalize (if free_page_start = true then buffer_start_page x else buffer_end_page x) = lo at *
  generalize (if free_page_end = true then buffer_end_page x else buffer_start_page x) +
    PAGE_SIZE = last at *
  have hpaged := h.without hprev hx hpre hle hxt hpost hu hiff
  split
  · next hsome =>
    refine ⟨_, freeRange_eq hlo hlast ?_, ?_⟩
    · intro q hq hge hlt
      obtain ⟨hover, -⟩ := (hiff q hq).mp ⟨hsome, hge, hlt⟩
      refine (h q).mpr ⟨hq, x, ?_, hx ▸ hover.1, hover.2⟩
      exact List.mem_append_right _ (List.mem_cons_of_mem _ List.mem_cons_self)
    · unfold Pages.clear
      simpa only [hsome, true_and] using hpaged
  · next hnone =>
    refine ⟨_, rfl, ?_⟩
    simpa only [hnone, Bool.false_eq_true, false_and, and_false, if_false] using hpaged

end Delete

end Paged

end Cdroid.Driver
