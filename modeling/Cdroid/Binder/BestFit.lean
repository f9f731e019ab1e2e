import Cdroid.Binder.MemoryDealer
import Mathlib.Tactic.ByContra

/-! The chunks of the allocator stay a partition of the heap, and what is handed out stays
apart, unless the size that is asked for wraps when it is rounded. -/

namespace Cdroid.Binder.MemoryDealer
open Cdroid.Lib.Runs Cdroid.Lib.Segments

/-! ## Sizes -/

section Sizes
variable (page : PageSize)

theorem toNat_toBits : page.toBits.toNat = 2 ^ page.shift := by
  rw [PageSize.toBits, BitVec.toNat_twoPow]
  exact Nat.mod_eq_of_lt (Nat.pow_lt_pow_right (by omega) page.shift_lt)

/-- A page is some units long. -/
theorem toBits_bounds : 32 ≤ page.toBits.toNat ∧ page.toBits.toNat ≤ 2 ^ 31 := by
  rw [toNat_toBits]
  exact ⟨show 2 ^ 5 ≤ _ from Nat.pow_le_pow_right (by decide) page.align_le,
    Nat.pow_le_pow_right (by decide) (Nat.le_of_lt_succ page.shift_lt)⟩

theorem extra_lt (flags start : BitVec 32) : (extra page flags start).toNat < 2 ^ 27 := by
  unfold extra
  split
  · exact Nat.two_pow_pos 27
  · have hpage := toBits_bounds page
    have hmask : (page.toBits / kMemoryAlign - 1).toNat < 2 ^ 27 := by
      have hdiv : (page.toBits / kMemoryAlign).toNat = page.toBits.toNat / 32 :=
        BitVec.toNat_udiv
      rw [BitVec.toNat_sub, hdiv]
      simp only [BitVec.ofNat_eq_ofNat, BitVec.toNat_ofNat]
      omega
    rw [BitVec.toNat_and]
    exact Nat.lt_of_le_of_lt Nat.and_le_right hmask

theorem toNat_rounded (size : BitVec 32) :
    (rounded size).toNat = (size.toNat + 31) % 2 ^ 32 / 32 := by
  unfold rounded kMemoryAlign
  rw [BitVec.toNat_udiv, BitVec.toNat_sub, BitVec.toNat_add]
  show (2 ^ 32 - 1 + (size.toNat + 32) % 2 ^ 32) % 2 ^ 32 / 32 = _
  omega

/-- The heap is some units long. -/
theorem create_mHeapSize_mod (size : BitVec 32) :
    (SimpleBestFitAllocator.create page size).mHeapSize.toNat % 32 = 0 := by
  have hone : (1 : BitVec 32).toNat = 1 := rfl
  have hmask : (page.toBits - 1).toNat = 2 ^ page.shift - 1 := by
    have hpage := toBits_bounds page
    rw [← toNat_toBits, BitVec.toNat_sub]
    omega
  show (_ &&& _ : BitVec 32).toNat % 2 ^ 5 = 0
  rw [← Nat.and_two_pow_sub_one_eq_mod]
  refine Nat.eq_of_testBit_eq fun i => ?_
  rw [Nat.testBit_and, Nat.testBit_two_pow_sub_one, Nat.zero_testBit]
  by_cases hi : i < 5
  · have hbit : (page.toBits - 1).getLsbD i = true := by
      rw [← BitVec.testBit_toNat, hmask, Nat.testBit_two_pow_sub_one]
      exact decide_eq_true (Nat.lt_of_lt_of_le hi page.align_le)
    rw [BitVec.testBit_toNat, BitVec.getLsbD_and, BitVec.getLsbD_not, hbit]
    simp
  · simp [hi]

end Sizes

/-! ## Lists of chunks -/

/-- The chunks cut the heap, and none is empty if the heap is not. -/
structure Sound (e : Nat) (mList : List chunk_t) : Prop where
  cuts : Cuts chunk_t.first chunk_t.last e 0 mList
  filled : ∀ c ∈ mList, c.first < c.last ∨ c.free = true ∧ e = 0

/-- Not both are free. -/
def Parted (c d : chunk_t) : Prop := ¬ (c.free = true ∧ d.free = true)

def used (mList : List chunk_t) : List chunk_t := mList.filter fun c => !c.free

variable {e : Nat} {mList left right pre post : List chunk_t} {c cur : chunk_t}

theorem chunk_t.first_le_last (c : chunk_t) : c.first ≤ c.last :=
  Nat.mul_le_mul_left 32 (Nat.le_add_right _ _)

@[simp] theorem used_nil : used [] = [] := rfl

@[simp] theorem used_append : used (left ++ right) = used left ++ used right :=
  List.filter_append ..

theorem used_cons_free (h : c.free = true) : used (c :: mList) = used mList :=
  List.filter_cons_of_neg (by simp [h])

theorem used_cons_used (h : c.free = false) : used (c :: mList) = c :: used mList :=
  List.filter_cons_of_pos (by simp [h])

theorem mem_used : c ∈ used mList ↔ c ∈ mList ∧ c.free = false := by
  simp [used]

/-- Where a chunk is empty, nothing is used. -/
theorem Sound.free_of_empty (h : Sound e mList) (hc : c ∈ mList) (hempty : c.size = 0)
    {p : chunk_t} (hp : p ∈ mList) : p.free = true := by
  have hzero : ¬ c.first < c.last := by
    rw [chunk_t.first, chunk_t.last, hempty]
    exact Nat.lt_irrefl _
  have he := ((h.filled c hc).resolve_left hzero).2
  refine ((h.filled p hp).resolve_left fun hlt => ?_).1
  have hle := (h.cuts.mem hp).2.2
  omega

/-! ## Freeing -/

theorem parted_reverse : mList.reverse.IsChain Parted ↔ mList.IsChain Parted := by
  have hswap : (fun c d => Parted d c) = Parted := by
    funext c d
    exact propext (not_congr and_comm)
  rw [List.isChain_reverse, hswap]

/-- A chunk that is merged into the one in front of it. -/
theorem merge_cuts {p : chunk_t} {s t : Nat} (ht : t < 2 ^ 32)
    (h : Cuts chunk_t.first chunk_t.last t s [p, cur]) :
    ({ p with size := p.size + cur.size } : chunk_t).last = cur.last := by
  obtain ⟨rfl, hp, hcur, hle, rfl⟩ := h
  unfold chunk_t.first chunk_t.last at *
  dsimp only at *
  rw [BitVec.toNat_add]
  omega

/-- One round keeps the heap cut, and leaves what is in front of it free. -/
theorem mergeLeft_sound (he : e < 2 ^ 32) (hfree : cur.free = true)
    (h : Sound e (left.reverse ++ cur :: right)) :
    Sound e ((mergeLeft left cur).reverse ++ right) ∧
      used (mergeLeft left cur).reverse = used left.reverse ∧
      ∀ c ∈ (mergeLeft left cur).head?, c.free = true := by
  cases left with
  | nil => exact ⟨h, used_cons_free hfree, fun c hc => Option.some.inj hc ▸ hfree⟩
  | cons p left =>
    by_cases hmerge : p.free = true ∨ cur.size = 0
    · have hp : p.free = true := hmerge.elim id fun hempty =>
        h.free_of_empty (by simp) hempty (by simp)
      have heq : mergeLeft (p :: left) cur =
          { p with size := p.size + cur.size } :: left := if_pos hmerge
      rw [heq]
      rw [List.reverse_cons, List.append_assoc] at h
      rw [List.reverse_cons, List.append_assoc]
      obtain ⟨t, hleft, hmid⟩ := cuts_append.mp h.cuts
      obtain ⟨u, hmid, hright⟩ := cuts_append.mp (show Cuts _ _ _ t ([p, cur] ++ right) from hmid)
      have hlast := merge_cuts (Nat.lt_of_le_of_lt hright.le he) hmid
      obtain ⟨rfl, hple, hcur, hle, rfl⟩ := hmid
      refine ⟨⟨cuts_append.mpr ⟨_, hleft, rfl, chunk_t.first_le_last _, ?_⟩, fun c hc => ?_⟩, ?_,
        fun c hc => Option.some.inj hc ▸ hp⟩
      · rw [hlast]
        exact hright
      · rcases List.mem_append.mp hc with hc | hc
        · exact h.filled c (List.mem_append_left _ hc)
        rcases List.mem_cons.mp hc with rfl | hc
        · rw [hlast]
          refine (h.filled cur (by simp)).imp (fun hlt => ?_) fun hempty => ⟨hp, hempty.2⟩
          exact Nat.lt_of_le_of_lt (hcur ▸ hple) hlt
        · have hright : c ∈ right := hc
          exact h.filled c (by simp [hright])
      · rw [List.reverse_cons, used_append, used_append, used_cons_free hp]
        exact congrArg _ (used_cons_free hp)
    · have heq : mergeLeft (p :: left) cur = cur :: p :: left := if_neg hmerge
      rw [heq, List.reverse_cons, List.append_assoc]
      refine ⟨h, ?_, fun c hc => Option.some.inj hc ▸ hfree⟩
      rw [used_append, used_cons_free hfree, used_nil, List.append_nil]

theorem mergeLeft_parted (h : left.IsChain Parted) : (mergeLeft left cur).IsChain Parted := by
  cases left with
  | nil => exact .singleton _
  | cons p left =>
    by_cases hmerge : p.free = true ∨ cur.size = 0
    · have heq : mergeLeft (p :: left) cur =
          { p with size := p.size + cur.size } :: left := if_pos hmerge
      have hchain := List.isChain_cons.mp h
      rw [heq, List.isChain_cons]
      exact hchain
    · have heq : mergeLeft (p :: left) cur = cur :: p :: left := if_neg hmerge
      rw [heq]
      exact .cons_cons (fun hboth => hmerge (.inl hboth.2)) h

/-- The loop frees `cur` and nothing else. -/
theorem release_sound (he : e < 2 ^ 32) (hfree : cur.free = true)
    (h : Sound e (left.reverse ++ cur :: right)) (hleft : left.IsChain Parted)
    (hright : right.IsChain Parted) :
    Sound e (release left cur right) ∧
      used (release left cur right) = used (left.reverse ++ right) ∧
      (release left cur right).IsChain Parted := by
  induction right generalizing left cur with
  | nil =>
    obtain ⟨hsound, hused, -⟩ := mergeLeft_sound he hfree h
    rw [List.append_nil] at hsound ⊢
    exact ⟨hsound, hused, parted_reverse.mpr (mergeLeft_parted hleft)⟩
  | cons n right ih =>
    obtain ⟨hsound, hused, hhead⟩ := mergeLeft_sound he hfree h
    have hmerged : (mergeLeft left cur).IsChain Parted := mergeLeft_parted hleft
    unfold release
    split
    · next hn =>
      obtain ⟨hout, husedOut, hparted⟩ := ih hn hsound hmerged hright.tail
      refine ⟨hout, husedOut.trans ?_, hparted⟩
      rw [used_append, hused, used_append, used_cons_free hn]
    · next hn =>
      refine ⟨hsound, ?_, ?_⟩
      · rw [used_append, hused, used_append]
      · refine List.isChain_append.mpr ⟨parted_reverse.mpr hmerged, hright, fun c hc d hd => ?_⟩
        obtain rfl := Option.some.inj hd
        exact fun hboth => hn hboth.2

theorem deallocFrom_some {start : BitVec 32} {out : List chunk_t}
    (h : deallocFrom start left mList = some out) :
    ∃ pre c post, mList = pre ++ c :: post ∧ c.start = start ∧ (∀ d ∈ pre, d.start ≠ start) ∧
      out = release (pre.reverse ++ left) { c with free := true } post := by
  induction mList generalizing left with
  | nil => cases h
  | cons cur rest ih =>
    unfold deallocFrom at h
    split at h
    · next hstart =>
      exact ⟨[], cur, rest, rfl, hstart, nofun, (Option.some.inj h).symm⟩
    · next hstart =>
      obtain ⟨pre, c, post, rfl, hc, hpre, rfl⟩ := ih h
      refine ⟨cur :: pre, c, post, rfl, hc, List.forall_mem_cons.mpr ⟨hstart, hpre⟩, ?_⟩
      rw [List.reverse_cons, List.append_assoc, List.singleton_append]

theorem deallocFrom_none {start : BitVec 32} (h : deallocFrom start left mList = none) :
    ∀ d ∈ mList, d.start ≠ start := by
  induction mList generalizing left with
  | nil => nofun
  | cons cur rest ih =>
    unfold deallocFrom at h
    split at h
    · cases h
    · next hstart => exact List.forall_mem_cons.mpr ⟨hstart, ih h⟩

/-- A chunk that is used begins where no other one does. -/
theorem Sound.start_ne (h : Sound e (pre ++ c :: post)) {d : chunk_t} (hd : d ∈ used post) :
    d.start ≠ c.start := by
  obtain ⟨hmem, hused⟩ := mem_used.mp hd
  have hcd : c.last ≤ d.first :=
    (List.pairwise_cons.mp (List.pairwise_append.mp h.cuts.pairwise).2.1).1 d hmem
  have hlt := (h.filled d (by simp [hmem])).resolve_right fun hfree => by
    rw [hused] at hfree
    cases hfree.1
  have hle := (h.cuts.mem (a := d) (by simp [hmem])).2.2
  have hc := (h.filled c (by simp)).resolve_right fun hempty => by
    have := hempty.2
    omega
  intro heq
  have hfirst : d.first = c.first := congrArg (fun start => 32 * start.toNat) heq
  omega

theorem dealloc_sound {offset : BitVec 32} {out : List chunk_t} (he : e < 2 ^ 32)
    (h : Sound e mList) (hparted : mList.IsChain Parted) (hout : dealloc offset mList = some out) :
    Sound e out ∧ out.IsChain Parted ∧
      used out = (used mList).filter fun c => c.start ≠ offset / kMemoryAlign := by
  obtain ⟨pre, c, post, rfl, hc, hpre, rfl⟩ := deallocFrom_some hout
  rw [List.append_nil]
  have hchains := List.isChain_append.mp hparted
  have hfreed : Sound e (pre.reverse.reverse ++ { c with free := true } :: post) := by
    rw [List.reverse_reverse]
    obtain ⟨t, hcutsPre, hmid⟩ := cuts_append.mp h.cuts
    refine ⟨cuts_append.mpr ⟨t, hcutsPre, hmid⟩, fun d hd => ?_⟩
    rcases List.mem_append.mp hd with hd | hd
    · exact h.filled d (List.mem_append_left _ hd)
    rcases List.mem_cons.mp hd with rfl | hd
    · exact (h.filled c (by simp)).imp id fun hempty => ⟨rfl, hempty.2⟩
    · exact h.filled d (by simp [hd])
  obtain ⟨hsound, hused, hchain⟩ := release_sound he rfl hfreed
    (parted_reverse.mpr hchains.1) hchains.2.1.tail
  refine ⟨hsound, hchain, hused.trans ?_⟩
  rw [List.reverse_reverse, used_append, used_append, List.filter_append]
  have hkeepPre : (used pre).filter (fun c => c.start ≠ offset / kMemoryAlign) = used pre :=
    List.filter_eq_self.mpr fun d hd => decide_eq_true (hpre d (mem_used.mp hd).1)
  have hkeepPost : (used post).filter (fun c => c.start ≠ offset / kMemoryAlign) = used post :=
    List.filter_eq_self.mpr fun d hd => decide_eq_true (hc ▸ h.start_ne hd)
  rw [hkeepPre]
  cases hfree : c.free with
  | true => rw [used_cons_free hfree, hkeepPost]
  | false =>
    rw [used_cons_used hfree, List.filter_cons_of_neg (by simp [hc]), hkeepPost]

/-! ## Allocating -/

section Allocating
variable {page : PageSize} {size flags : BitVec 32}

/-- The block of `size` units has room in the chunk. -/
structure Fits (page : PageSize) (size flags : BitVec 32) (c : chunk_t) : Prop where
  free : c.free = true
  room : size + extra page flags c.start ≤ c.size.setWidth 32

/-- The chunk `cur`, at the place `i`, if there is none so far or it is smaller. -/
def better (i : Nat) (cur : chunk_t) : Option (Nat × chunk_t) → Option (Nat × chunk_t)
  | none => some (i, cur)
  | some (j, c) => if cur.size < c.size then some (i, cur) else some (j, c)

theorem better_eq (i : Nat) (cur : chunk_t) (best : Option (Nat × chunk_t)) :
    better i cur best = some (i, cur) ∨ (better i cur best = best ∧ best ≠ none) := by
  cases best with
  | none => exact .inl rfl
  | some b =>
    by_cases hsmaller : cur.size < b.2.size
    · exact .inl (if_pos hsmaller)
    · exact .inr ⟨if_neg hsmaller, Option.some_ne_none b⟩

theorem bestFit_cons (i : Nat) (best : Option (Nat × chunk_t)) (cur : chunk_t)
    (rest : List chunk_t) :
    bestFit page size flags i best (cur :: rest) =
      if cur.free ∧ size + extra page flags cur.start ≤ cur.size.setWidth 32 then
        if cur.size.setWidth 32 = size then better i cur best
        else bestFit page size flags (i + 1) (better i cur best) rest
      else bestFit page size flags (i + 1) best rest :=
  rfl

theorem bestFit_fits (left : List chunk_t) {i j : Nat} {best : Option (Nat × chunk_t)}
    (h : bestFit page size flags i best right = some (j, c)) (hi : left.length = i)
    (hbest : ∀ k d, best = some (k, d) →
      (left ++ right)[k]? = some d ∧ Fits page size flags d) :
    (left ++ right)[j]? = some c ∧ Fits page size flags c := by
  induction right generalizing left i best with
  | nil => exact hbest j c h
  | cons cur rest ih =>
    have hnext : left ++ cur :: rest = (left ++ [cur]) ++ rest := List.append_cons ..
    have hlen : (left ++ [cur]).length = i + 1 := by
      rw [List.length_append, hi]
      rfl
    rw [bestFit_cons] at h
    split at h
    · next hfits =>
      have hcur : (left ++ cur :: rest)[i]? = some cur := by
        rw [← hi, List.getElem?_append_right (Nat.le_refl _), Nat.sub_self]
        rfl
      have hbest' : ∀ k d, better i cur best = some (k, d) →
          (left ++ cur :: rest)[k]? = some d ∧ Fits page size flags d := by
        intro k d hk
        rcases better_eq i cur best with hbetter | ⟨hbetter, -⟩
        · rw [hbetter] at hk
          cases hk
          exact ⟨hcur, hfits.1, hfits.2⟩
        · rw [hbetter] at hk
          exact hbest k d hk
      split at h
      · exact hbest' j c h
      · rw [hnext] at hbest' ⊢
        exact ih _ h hlen hbest'
    · rw [hnext] at hbest ⊢
      exact ih _ h hlen hbest

theorem bestFit_none {i : Nat} (h : ∀ c ∈ mList, ¬ Fits page size flags c) :
    bestFit page size flags i none mList = none := by
  induction mList generalizing i with
  | nil => rfl
  | cons cur rest ih =>
    obtain ⟨hcur, hrest⟩ := List.forall_mem_cons.mp h
    unfold bestFit
    rw [if_neg fun hfits => hcur ⟨hfits.1, hfits.2⟩]
    exact ih hrest

/-- What is split off is free and not empty, and there is one of it at most on each side. -/
structure Carved (c : chunk_t) (n : Nat) (r : List chunk_t × chunk_t × List chunk_t) : Prop where
  free : r.2.1.free = false
  last : r.2.1.last = r.2.1.first + 32 * n
  cuts : Cuts chunk_t.first chunk_t.last c.last c.first (r.1 ++ r.2.1 :: r.2.2)
  before : r.1 = [] ∨ ∃ d, r.1 = [d] ∧ d.free = true ∧ d.first < d.last
  after : r.2.2 = [] ∨ ∃ d, r.2.2 = [d] ∧ d.free = true ∧ d.first < d.last

theorem carve_carved (hfits : Fits page size flags c) (hsize : size.toNat < 2 ^ 27)
    (hlast : c.last < 2 ^ 32) : Carved c size.toNat (carve page size flags c) := by
  have hextra := extra_lt page flags c.start
  have hroom : size.toNat + (extra page flags c.start).toNat ≤ c.size.toNat := by
    have hle := BitVec.le_def.mp hfits.room
    have hc := c.size.isLt
    rw [BitVec.toNat_add, BitVec.toNat_setWidth] at hle
    omega
  unfold carve
  dsimp only
  generalize extra page flags c.start = x at hextra hroom ⊢
  have hc := c.size.isLt
  have hnarrow : (size.setWidth 28).toNat = size.toNat := by
    rw [BitVec.toNat_setWidth]
    omega
  have hwide : (c.size.setWidth 32).toNat = c.size.toNat := by
    rw [BitVec.toNat_setWidth]
    omega
  split
  · next hlt =>
    have hstart : (c.start + x).toNat = c.start.toNat + x.toNat := by
      unfold chunk_t.last at hlast
      rw [BitVec.toNat_add]
      omega
    have hbehind : (c.start + x + (size.setWidth 28).setWidth 32).toNat =
        c.start.toNat + x.toNat + size.toNat := by
      unfold chunk_t.last at hlast
      rw [BitVec.toNat_add, hstart, BitVec.toNat_setWidth, hnarrow]
      omega
    have hxwidth : (x.setWidth 28).toNat = x.toNat := by
      rw [BitVec.toNat_setWidth]
      omega
    have htail : (c.size.setWidth 32 - (size + x)).toNat =
        c.size.toNat - (size.toNat + x.toNat) := by
      rw [BitVec.toNat_sub, BitVec.toNat_add, hwide]
      omega
    have hint : (c.size.setWidth 32 - (size + x)).toInt =
        (c.size.toNat - (size.toNat + x.toNat) : Nat) := by
      rw [BitVec.toInt_eq_toNat_of_lt, htail]
      rw [htail]
      omega
    have htailWidth : ((c.size.setWidth 32 - (size + x)).setWidth 28).toNat =
        c.size.toNat - (size.toNat + x.toNat) := by
      rw [BitVec.toNat_setWidth, htail]
      omega
    have hblock : (⟨c.start + x, size.setWidth 28, false⟩ : chunk_t).last =
        32 * (c.start.toNat + x.toNat + size.toNat) := by
      rw [chunk_t.last, hstart, hnarrow]
    have hsplit : (⟨c.start, x.setWidth 28, true⟩ : chunk_t).last =
        32 * (c.start.toNat + x.toNat) := by
      rw [chunk_t.last, hxwidth]
    have hrest : (⟨c.start + x + (size.setWidth 28).setWidth 32,
        (c.size.setWidth 32 - (size + x)).setWidth 28, true⟩ : chunk_t).last = c.last := by
      rw [chunk_t.last, chunk_t.last, hbehind, htailWidth]
      omega
    refine ⟨rfl, ?_, cuts_append.mpr ⟨32 * (c.start + x).toNat, ?_, rfl,
      chunk_t.first_le_last _, ?_⟩, ?_, ?_⟩
    · rw [hblock, chunk_t.first, hstart]
      exact Nat.mul_add ..
    · dsimp only
      split
      · next hx =>
        have hzero : x.toNat = 0 := congrArg BitVec.toNat hx
        show 32 * c.start.toNat = 32 * (c.start + x).toNat
        rw [hstart, hzero]
        rfl
      · exact ⟨rfl, chunk_t.first_le_last _, hsplit.trans (by rw [hstart])⟩
    · rw [hblock]
      dsimp only
      split
      · refine ⟨?_, chunk_t.first_le_last _, hrest⟩
        rw [chunk_t.first, hbehind]
      · next htailZero =>
        rw [hint] at htailZero
        show _ = chunk_t.last c
        unfold chunk_t.last
        omega
    · dsimp only
      split
      · exact .inl rfl
      · next hx =>
        refine .inr ⟨_, rfl, rfl, ?_⟩
        have hpos : x.toNat ≠ 0 := fun hzero => hx (BitVec.eq_of_toNat_eq hzero)
        rw [hsplit]
        show 32 * c.start.toNat < _
        omega
    · dsimp only
      split
      · next htailPos =>
        refine .inr ⟨_, rfl, rfl, ?_⟩
        rw [hint] at htailPos
        rw [hrest, chunk_t.first, hbehind, chunk_t.last]
        omega
      · exact .inl rfl
  · next hle =>
    have hsame : size.toNat = c.size.toNat := by
      have := mt BitVec.lt_def.mpr hle
      omega
    refine ⟨rfl, ?_, ⟨rfl, chunk_t.first_le_last _, ?_⟩, .inl rfl, .inl rfl⟩
    · show 32 * (c.start.toNat + (size.setWidth 28).toNat) = _
      rw [hnarrow]
      exact Nat.mul_add ..
    · show 32 * (c.start.toNat + (size.setWidth 28).toNat) = _
      rw [hnarrow, hsame]
      rfl

theorem Carved.insert_sound {n : Nat} {r : List chunk_t × chunk_t × List chunk_t}
    (hr : Carved c n r) (hn : 0 < n) (hc : c.free = true) (h : Sound e (pre ++ c :: post))
    (hparted : (pre ++ c :: post).IsChain Parted) :
    Sound e (pre ++ ((r.1 ++ r.2.1 :: r.2.2) ++ post)) ∧
      (pre ++ ((r.1 ++ r.2.1 :: r.2.2) ++ post)).IsChain Parted ∧
      (used (pre ++ ((r.1 ++ r.2.1 :: r.2.2) ++ post))).Perm
        (r.2.1 :: used (pre ++ c :: post)) := by
  obtain ⟨before, block, after⟩ := r
  obtain ⟨hblock, hlast, hcuts, hbefore, hafter⟩ := hr
  dsimp only at *
  have hsplit : ∀ l, (l = [] ∨ ∃ d : chunk_t, l = [d] ∧ d.free = true ∧ d.first < d.last) →
      used l = [] ∧ ∀ d ∈ l, d.first < d.last := by
    rintro _ (rfl | ⟨d, rfl, hfree, hlt⟩)
    · exact ⟨rfl, nofun⟩
    · exact ⟨used_cons_free hfree, fun d' hd' => List.mem_singleton.mp hd' ▸ hlt⟩
  refine ⟨⟨?_, fun d hd => ?_⟩, ?_, ?_⟩
  · have hold : Cuts chunk_t.first chunk_t.last e 0 (pre ++ ([c] ++ post)) := h.cuts
    refine hold.replace fun t u _ hmid => ?_
    obtain ⟨rfl, -, rfl⟩ := hmid
    exact hcuts
  · rcases List.mem_append.mp hd with hd | hd
    · exact h.filled d (List.mem_append_left _ hd)
    rcases List.mem_append.mp hd with hd | hd
    · rcases List.mem_append.mp hd with hd | hd
      · exact .inl ((hsplit before hbefore).2 d hd)
      rcases List.mem_cons.mp hd with rfl | hd
      · exact .inl (by omega)
      · exact .inl ((hsplit after hafter).2 d hd)
    · exact h.filled d (by simp [hd])
  · -- the neighbours of a free chunk are used
    obtain ⟨hpre, hmid, hcross⟩ := List.isChain_append.mp hparted
    obtain ⟨hhead, hpost⟩ := List.isChain_cons.mp hmid
    have hnew : (before ++ block :: after).IsChain Parted := by
      rcases hbefore with rfl | ⟨d, rfl, -⟩ <;> rcases hafter with rfl | ⟨d', rfl, -⟩ <;>
        simp [Parted, hblock]
    refine List.isChain_append.mpr ⟨hpre, List.isChain_append.mpr ⟨hnew, hpost, ?_⟩, ?_⟩
    · exact fun _ _ d hd hboth => hhead d hd ⟨hc, hboth.2⟩
    · exact fun d hd _ _ hboth => hcross d hd c rfl ⟨hboth.1, hc⟩
  · rw [used_append, used_append, used_append, used_append, used_cons_free hc,
      used_cons_used hblock, (hsplit before hbefore).1, (hsplit after hafter).1]
    exact List.perm_middle

/-- Without memory nothing changes; else a block more is used. -/
theorem alloc_sound {offset : BitVec 32} {out : List chunk_t} (he : e < 2 ^ 32)
    (hzero : size ≠ 0) (hwrap : size.toNat + 31 < 2 ^ 32) (h : Sound e mList)
    (hparted : mList.IsChain Parted) (hout : alloc page size flags mList = (offset, out)) :
    offset = NO_MEMORY ∧ out = mList ∨ offset ≠ NO_MEMORY ∧ Sound e out ∧
      out.IsChain Parted ∧ ∃ block, block.first = offset.toNat ∧
        block.last = offset.toNat + 32 * ((size.toNat + 31) / 32) ∧
        (used out).Perm (block :: used mList) := by
  have hrounded : (rounded size).toNat = (size.toNat + 31) / 32 := by
    rw [toNat_rounded, Nat.mod_eq_of_lt hwrap]
  unfold alloc at hout
  rw [if_neg hzero] at hout
  split at hout
  · cases hout
    exact .inl ⟨rfl, rfl⟩
  next i c hbest =>
  obtain ⟨hget, hfits⟩ := bestFit_fits [] hbest rfl nofun
  rw [List.nil_append] at hget
  obtain ⟨hi, hc⟩ := List.getElem?_eq_some_iff.mp hget
  have hsplit : mList = mList.take i ++ c :: mList.drop (i + 1) := by
    rw [← hc, List.getElem_cons_drop, List.take_append_drop]
  have hclast : c.last ≤ e := (h.cuts.mem (List.mem_of_getElem? hget)).2.2
  have hcarved := carve_carved hfits (by omega) (by omega)
  rw [hsplit] at h hparted
  have hpos : 0 < (rounded size).toNat := by
    have : size.toNat ≠ 0 := fun heq => hzero (BitVec.eq_of_toNat_eq heq)
    omega
  rcases hcarve : carve page (rounded size) flags c with ⟨before, block, after⟩
  rw [hcarve] at hcarved hout
  obtain ⟨hsound, hchain, hused⟩ := hcarved.insert_sound hpos hfits.free h hparted
  rw [← hsplit] at hused
  cases hout
  have hfirst : block.first = (block.start * kMemoryAlign).toNat := by
    have hmem := hsound.cuts.mem (a := block) (by simp)
    unfold chunk_t.first at *
    rw [BitVec.toNat_mul]
    show _ = _ * 32 % 2 ^ 32
    omega
  refine .inr ⟨fun hnone => ?_, hsound, hchain, block, hfirst, ?_, hused⟩
  · have hnoMemory : NO_MEMORY.toNat = 2 ^ 32 - 12 := rfl
    rw [hnone, chunk_t.first] at hfirst
    omega
  · rw [hcarved.last, hfirst, hrounded]

end Allocating

/-! ## The invariant -/

structure Inv (s : State) : Prop where
  sound : Sound s.mHeapSize.toNat s.mList
  parted : s.mList.IsChain Parted
  blocks : ((used s.mList).map fun c => (c.first, c.last)).Perm
    ((s.live.filter fun a => a.size ≠ 0).map fun a => (a.first, a.last))
  zero : ∀ a ∈ s.live, a.size = 0 → a.offset = 0

theorem initial_inv (page : PageSize) (size : BitVec 32) : Inv (State.initial page size) := by
  have hmod := create_mHeapSize_mod page size
  generalize hheap : (SimpleBestFitAllocator.create page size).mHeapSize = heap at hmod
  have hstate : State.initial page size =
      ⟨⟨[⟨0, (heap / kMemoryAlign).setWidth 28, true⟩], heap⟩, []⟩ := by
    rw [← hheap]
    rfl
  have hunits : (heap / kMemoryAlign).toNat = heap.toNat / 32 := BitVec.toNat_udiv
  have hlast : (⟨0, (heap / kMemoryAlign).setWidth 28, true⟩ : chunk_t).last = heap.toNat := by
    unfold chunk_t.last
    rw [BitVec.toNat_setWidth, hunits]
    show 32 * (0 + heap.toNat / 32 % 2 ^ 28) = _
    omega
  rw [hstate]
  refine ⟨⟨⟨rfl, chunk_t.first_le_last _, hlast⟩, fun c hc => ?_⟩, .singleton _, .refl _, nofun⟩
  rw [List.mem_singleton.mp hc, hlast]
  by_cases hzero : heap.toNat = 0
  · exact .inr ⟨rfl, hzero⟩
  · exact .inl (Nat.pos_of_ne_zero hzero)

variable {s t : State}

/-- The size does not wrap when it is rounded, or there is no chunk that would be given. -/
def Fitting (page : PageSize) (s : State) : Action → Prop
  | .allocate size flags => size.toNat + 31 < 2 ^ 32 ∨
      ∀ c ∈ s.mList, c.free = true → c.size.setWidth 32 < extra page flags c.start
  | .deallocate _ => True

theorem allocate_inv {page : PageSize} {size flags : BitVec 32} (h : Inv s)
    (hfit : Fitting page s (.allocate size flags)) : Inv (s.allocate page size flags) := by
  rcases hout : alloc page size flags s.mList with ⟨offset, out⟩
  have hstep : s.allocate page size flags = { s with
      mList := out
      live := if offset = NO_MEMORY then s.live else ⟨offset, size⟩ :: s.live } := by
    unfold State.allocate
    rw [hout]
  rw [hstep]
  by_cases hzero : size = 0
  · -- nothing is taken
    subst hzero
    cases hout
    refine ⟨h.sound, h.parted, ?_, fun a ha ha0 => ?_⟩
    · exact h.blocks
    · rcases List.mem_cons.mp ha with rfl | ha
      · rfl
      · exact h.zero a ha ha0
  by_cases hwrap : size.toNat + 31 < 2 ^ 32
  · rcases alloc_sound s.mHeapSize.isLt hzero hwrap h.sound h.parted hout with
      ⟨rfl, rfl⟩ | ⟨hok, hsound, hparted, block, hfirst, hlast, hperm⟩
    · rw [if_pos rfl]
      exact ⟨h.sound, h.parted, h.blocks, h.zero⟩
    · rw [if_neg hok]
      refine ⟨hsound, hparted, (hperm.map _).trans ?_, fun a ha ha0 => ?_⟩
      · rw [List.filter_cons_of_pos (by simpa using hzero), List.map_cons, List.map_cons, hfirst,
          hlast]
        exact h.blocks.cons _
      · rcases List.mem_cons.mp ha with rfl | ha
        · exact absurd ha0 hzero
        · exact h.zero a ha ha0
  · -- the size has wrapped to nothing, but no chunk is given
    have hrounded : rounded size = 0 := by
      refine BitVec.eq_of_toNat_eq ?_
      have hlt := size.isLt
      rw [toNat_rounded]
      show _ = 0
      omega
    have hnone : alloc page size flags s.mList = (NO_MEMORY, s.mList) := by
      unfold alloc
      rw [if_neg hzero, bestFit_none]
      intro c hc hfits
      have hroom : extra page flags c.start ≤ c.size.setWidth 32 := by
        simpa [hrounded] using hfits.room
      exact BitVec.not_lt.mpr hroom (hfit.resolve_left hwrap c hc hfits.free)
    cases hnone.symm.trans hout
    rw [if_pos rfl]
    exact ⟨h.sound, h.parted, h.blocks, h.zero⟩

theorem deallocate_inv (h : Inv s) (offset : BitVec 32) : Inv (s.deallocate offset).2 := by
  unfold State.deallocate
  split
  · exact h
  next out hout =>
  obtain ⟨hsound, hparted, hused⟩ := dealloc_sound s.mHeapSize.isLt h.sound h.parted hout
  refine ⟨hsound, hparted, ?_, fun a ha => h.zero a (List.mem_filter.mp ha).1⟩
  have hunit : ∀ x y : BitVec 32, x / kMemoryAlign = y / kMemoryAlign ↔
      x.toNat / 32 = y.toNat / 32 := fun x y =>
    (BitVec.toNat_inj ..).symm.trans (by rw [BitVec.toNat_udiv, BitVec.toNat_udiv]; rfl)
  -- both lists lose what is in the unit of the offset
  have hkeep := h.blocks.filter fun p => decide (p.1 / 32 ≠ offset.toNat / 32)
  rw [List.filter_map, List.filter_map, List.filter_filter] at hkeep
  show ((used out).map _).Perm (((s.live.filter _).filter _).map _)
  rw [hused, List.filter_filter]
  refine (List.Perm.of_eq ?_).trans (hkeep.trans (List.Perm.of_eq ?_))
  · refine congrArg (List.map _) (List.filter_congr fun c _ => ?_)
    have hstart : c.start.toNat = c.first / 32 := by
      unfold chunk_t.first
      omega
    have hiff : c.start = offset / kMemoryAlign ↔ c.first / 32 = offset.toNat / 32 := by
      rw [← hstart, ← BitVec.toNat_inj, BitVec.toNat_udiv]
      rfl
    simp only [Function.comp, ne_eq, hiff]
  · refine congrArg (List.map _) (List.filter_congr fun a _ => ?_)
    have hiff := hunit a.offset offset
    simp only [Function.comp, ne_eq, hiff, Allocation.first]
    exact Bool.and_comm ..

theorem next_inv {page : PageSize} {a : Action} (h : Inv s) (hfit : Fitting page s a)
    (ht : next page s a = some t) : Inv t := by
  cases a with
  | allocate size flags =>
    cases ht
    exact allocate_inv h hfit
  | deallocate offset =>
    cases ht
    exact deallocate_inv h offset

/-! ## What the invariant gives -/

/-- The block of an allocation is a chunk that is used. -/
theorem Inv.chunk_of_live (h : Inv s) {a : Allocation} (ha : a ∈ s.live) (hsize : a.size ≠ 0) :
    ∃ c ∈ s.mList, c.free = false ∧ c.first = a.first ∧ c.last = a.last := by
  have hmem : (a.first, a.last) ∈ (s.live.filter fun a => a.size ≠ 0).map fun a =>
      (a.first, a.last) :=
    List.mem_map.mpr ⟨a, List.mem_filter.mpr ⟨ha, decide_eq_true hsize⟩, rfl⟩
  obtain ⟨c, hc, heq⟩ := List.mem_map.mp (h.blocks.mem_iff.mpr hmem)
  exact ⟨c, (mem_used.mp hc).1, (mem_used.mp hc).2, congrArg Prod.fst heq, congrArg Prod.snd heq⟩

theorem Inv.live_of_chunk (h : Inv s) {c : chunk_t} (hc : c ∈ s.mList) (hused : c.free = false) :
    ∃ a ∈ s.live, a.first = c.first ∧ a.last = c.last := by
  have hmem : (c.first, c.last) ∈ (used s.mList).map fun c => (c.first, c.last) :=
    List.mem_map.mpr ⟨c, mem_used.mpr ⟨hc, hused⟩, rfl⟩
  obtain ⟨a, ha, heq⟩ := List.mem_map.mp (h.blocks.mem_iff.mp hmem)
  exact ⟨a, (List.mem_filter.mp ha).1, congrArg Prod.fst heq, congrArg Prod.snd heq⟩

/-- What was asked for is in the block. -/
theorem Allocation.le_last (a : Allocation) : a.offset.toNat + a.size.toNat ≤ a.last := by
  unfold Allocation.last
  omega

theorem Allocation.size_ne {a : Allocation} {b : Nat} (hb : a.first ≤ b ∧ b < a.last) :
    a.size ≠ 0 := by
  intro hzero
  unfold Allocation.first Allocation.last at hb
  rw [hzero] at hb
  exact absurd hb.2 (Nat.not_lt.mpr hb.1)

theorem Inv.held_chunk (h : Inv s) {a : Allocation} {b : Nat} (ha : a ∈ s.live)
    (hb : a.first ≤ b ∧ b < a.last) :
    ∃ c ∈ s.mList, c.free = false ∧ c.first = a.first ∧ c.first ≤ b ∧ b < c.last := by
  obtain ⟨c, hc, hused, hfirst, hlast⟩ := h.chunk_of_live ha (Allocation.size_ne hb)
  refine ⟨c, hc, hused, hfirst, ?_⟩
  rw [hfirst, hlast]
  exact hb

/-- A byte of the heap is free or in the block of an allocation. -/
theorem Inv.held (h : Inv s) {b : Nat} (hb : b < s.mHeapSize.toNat) :
    FreeAt s.mList b ↔ ¬ HeldAt s.live b := by
  constructor
  · rintro ⟨c, hc, hfree, hin⟩ ⟨a, ha, hheld⟩
    obtain ⟨d, hd, hused, -, hdin⟩ := h.held_chunk ha hheld
    rw [h.sound.cuts.unique hc hd hin hdin, hused] at hfree
    cases hfree
  · intro hnot
    obtain ⟨c, hc, hin⟩ := h.sound.cuts.covers (Nat.zero_le b) hb
    cases hfree : c.free with
    | true => exact ⟨c, hc, hfree, hin⟩
    | false =>
      obtain ⟨a, ha, hfirst, hlast⟩ := h.live_of_chunk hc hfree
      refine absurd ⟨a, ha, ?_⟩ hnot
      rw [hfirst, hlast]
      exact hin

theorem Inv.inside (h : Inv s) {a : Allocation} (ha : a ∈ s.live) :
    a.last ≤ s.mHeapSize.toNat := by
  by_cases hsize : a.size = 0
  · rw [Allocation.last, h.zero a ha hsize, hsize]
    exact Nat.zero_le _
  · obtain ⟨c, hc, -, -, hlast⟩ := h.chunk_of_live ha hsize
    exact hlast ▸ (h.sound.cuts.mem hc).2.2

theorem Inv.disjoint (h : Inv s) : s.live.Pairwise fun a b =>
    a.offset.toNat + a.size.toNat ≤ b.offset.toNat ∨
      b.offset.toNat + b.size.toNat ≤ a.offset.toNat := by
  have hchunks : ((used s.mList).map fun c => (c.first, c.last)).Pairwise
      fun p q => p.2 ≤ q.1 ∨ q.2 ≤ p.1 :=
    List.pairwise_map.mpr ((h.sound.cuts.pairwise.filter _).imp .inl)
  have hblocks := List.pairwise_filter.mp
    (List.pairwise_map.mp (h.blocks.pairwise hchunks Or.symm))
  refine hblocks.imp_of_mem fun {a b} ha hb hab => ?_
  have hale := a.le_last
  have hble := b.le_last
  by_cases ha0 : a.size = 0
  · rw [h.zero a ha ha0, ha0]
    exact .inl (Nat.zero_le _)
  by_cases hb0 : b.size = 0
  · rw [h.zero b hb hb0, hb0]
    exact .inr (Nat.zero_le _)
  · have hapart := hab (decide_eq_true ha0) (decide_eq_true hb0)
    unfold Allocation.first at hapart
    omega

theorem Inv.found (h : Inv s) {a : Allocation} (ha : a ∈ s.live) (hsize : a.size ≠ 0) :
    (s.deallocate a.offset).1 = .NO_ERROR := by
  obtain ⟨c, hc, -, hfirst, -⟩ := h.chunk_of_live ha hsize
  unfold State.deallocate
  split
  · next hnone =>
    refine absurd (BitVec.eq_of_toNat_eq ?_) (deallocFrom_none hnone c hc)
    have hunit : (a.offset / kMemoryAlign).toNat = a.offset.toNat / 32 := BitVec.toNat_udiv
    unfold chunk_t.first Allocation.first at hfirst
    omega
  · rfl

theorem deallocate_live {offset : BitVec 32} {a : Allocation}
    (ha : a ∈ (s.deallocate offset).2.live) : a ∈ s.live := by
  unfold State.deallocate at ha
  split at ha
  · exact ha
  · exact (List.mem_filter.mp ha).1

/-- An allocation is live as long as its offset is not named. -/
theorem Inv.mem_deallocate (h : Inv s) {offset : BitVec 32} {a : Allocation} (ha : a ∈ s.live)
    (hsize : a.size ≠ 0) : a ∈ (s.deallocate offset).2.live ↔
      ¬ a.offset / kMemoryAlign = offset / kMemoryAlign := by
  have hfound := h.found ha hsize
  unfold State.deallocate dealloc at *
  split
  · next hnone =>
    refine iff_of_true ha fun heq => ?_
    rw [heq, hnone] at hfound
    cases hfound
  · exact List.mem_filter.trans ((and_iff_right ha).trans decide_eq_true_iff)

/-- What is freed is the block that is named, to its last byte. -/
theorem Inv.freed (h : Inv s) (offset : BitVec 32) (b : Nat) :
    FreeAt (s.deallocate offset).2.mList b ↔ FreeAt s.mList b ∨
      ∃ a ∈ s.live, a.offset / kMemoryAlign = offset / kMemoryAlign ∧
        a.first ≤ b ∧ b < a.last := by
  have hheap : (s.deallocate offset).2.mHeapSize = s.mHeapSize := by
    unfold State.deallocate
    split <;> rfl
  by_cases hb : b < s.mHeapSize.toNat
  · rw [(deallocate_inv h offset).held (by rw [hheap]; exact hb), h.held hb]
    constructor
    · intro hnot
      by_cases hheld : HeldAt s.live b
      · obtain ⟨a, ha, hin⟩ := hheld
        refine .inr ⟨a, ha, ?_, hin⟩
        by_contra hne
        exact hnot ⟨a, (h.mem_deallocate ha (Allocation.size_ne hin)).mpr hne, hin⟩
      · exact .inl hheld
    · rintro hold ⟨a, ha, hin⟩
      have hlive := deallocate_live ha
      rcases hold with hnot | ⟨d, hd, heq, hdin⟩
      · exact hnot ⟨a, hlive, hin⟩
      -- both are in one chunk, so they are named by one offset
      obtain ⟨c, hc, -, hcfirst, hcin⟩ := h.held_chunk hlive hin
      obtain ⟨c', hc', -, hcfirst', hcin'⟩ := h.held_chunk hd hdin
      rw [h.sound.cuts.unique hc hc' hcin hcin', hcfirst'] at hcfirst
      rw [BitVec.eq_of_toNat_eq hcfirst] at heq
      exact (h.mem_deallocate hlive (Allocation.size_ne hin)).mp ha heq
  · refine iff_of_false ?_ ?_
    · rintro ⟨c, hc, -, hin⟩
      have hle := ((deallocate_inv h offset).sound.cuts.mem hc).2.2
      rw [hheap] at hle
      omega
    · rintro (⟨c, hc, -, hin⟩ | ⟨a, ha, -, hin⟩)
      · have hle := (h.sound.cuts.mem hc).2.2
        omega
      · have hle := h.inside ha
        omega

theorem Inv.kept (h : Inv s) : s.Kept where
  partition := h.sound.cuts
  filled hheap c hc := (h.sound.filled c hc).resolve_right fun hempty =>
    hheap (BitVec.eq_of_toNat_eq hempty.2)
  apart := h.parted
  inside a ha := Nat.le_trans a.le_last (h.inside ha)
  disjoint := h.disjoint
  held _ hb := h.held hb
  found _ ha hsize := h.found ha hsize
  freed := h.freed

/-- A search that comes across a chunk that fits ends with one. -/
theorem bestFit_isSome {page : PageSize} {size flags : BitVec 32} {i : Nat}
    {best : Option (Nat × chunk_t)}
    (h : best ≠ none ∨ ∃ c ∈ mList, Fits page size flags c) :
    bestFit page size flags i best mList ≠ none := by
  induction mList generalizing i best with
  | nil => exact h.resolve_right (by simp)
  | cons cur rest ih =>
    rw [bestFit_cons]
    split
    · have hbest : better i cur best ≠ none := by
        rcases better_eq i cur best with hbetter | ⟨hbetter, hne⟩
        · rw [hbetter]
          exact Option.some_ne_none _
        · rw [hbetter]
          exact hne
      split
      · exact hbest
      · exact ih (.inl hbest)
    · next hcur =>
      refine ih (h.imp id ?_)
      rintro ⟨c, hc, hfits⟩
      rcases List.mem_cons.mp hc with rfl | hc
      · exact absurd ⟨hfits.free, hfits.room⟩ hcur
      · exact ⟨c, hc, hfits⟩

/-- Where the size has wrapped and a chunk is there, an allocation outside of the heap is
made. -/
theorem unfitting_next {page : PageSize} {a : Action} (h : Inv s) (hunfit : ¬ Fitting page s a)
    (ht : next page s a = some t) : ¬ t.Kept := by
  cases a with
  | deallocate offset => exact absurd trivial hunfit
  | allocate size flags =>
    obtain ⟨hwrap, hchunk⟩ := not_or.mp hunfit
    have hzero : size ≠ 0 := fun heq => hwrap (by rw [heq]; decide)
    have hrounded : rounded size = 0 := by
      refine BitVec.eq_of_toNat_eq ?_
      have hlt := size.isLt
      rw [toNat_rounded]
      show _ = 0
      omega
    have hfits : ∃ c ∈ s.mList, Fits page (rounded size) flags c := by
      by_contra hnone
      refine hchunk fun c hc hfree => BitVec.not_le.mp fun hle => hnone ⟨c, hc, hfree, ?_⟩
      simpa [hrounded] using hle
    -- the heap ends with a unit, so no allocation of that size is in it
    have hheap : s.mHeapSize.toNat % 32 = 0 := by
      by_cases hempty : s.mHeapSize.toNat = 0
      · rw [hempty]
      · obtain ⟨c, hc, hin⟩ := h.sound.cuts.covers (p := s.mHeapSize.toNat - 1) (Nat.zero_le _)
          (by omega)
        have hle := (h.sound.cuts.mem hc).2.2
        have hlast : c.last = s.mHeapSize.toNat := by omega
        rw [← hlast]
        exact Nat.mul_mod_right 32 _
    intro hkept
    rcases hbest : bestFit page (rounded size) flags 0 none s.mList with _ | ⟨i, c⟩
    · exact bestFit_isSome (.inr hfits) hbest
    rcases hcarve : carve page (rounded size) flags c with ⟨before, block, after⟩
    have hoffset : block.start * kMemoryAlign ≠ NO_MEMORY := by
      intro heq
      have hmod : (block.start * kMemoryAlign).toNat = block.start.toNat * 32 % 2 ^ 32 :=
        BitVec.toNat_mul ..
      have hnoMemory : NO_MEMORY.toNat = 2 ^ 32 - 12 := rfl
      rw [heq] at hmod
      omega
    cases ht
    have hinside := hkept.inside ⟨block.start * kMemoryAlign, size⟩ (by
      unfold State.allocate alloc
      rw [if_neg hzero, hbest]
      dsimp only
      rw [hcarve]
      exact (if_neg hoffset).symm ▸ List.mem_cons_self)
    have hmHeapSize : (s.allocate page size flags).mHeapSize = s.mHeapSize := rfl
    rw [hmHeapSize] at hinside
    have hlt := s.mHeapSize.isLt
    dsimp only at hinside
    omega

/-- As long as no size that is asked for wraps, the chunks are a partition of the heap and
the allocations are apart. -/
theorem allocator_kept (page : PageSize) (size : BitVec 32) (as : List Action)
    (hfit : Along (Fitting page) (next page) as (State.initial page size))
    (hs : after (next page) as (State.initial page size) = some s) : s.Kept :=
  (along_inv (fun _ _ _ h hP ht => next_inv h hP ht) as (initial_inv page size) hfit hs).kept

instance (page : PageSize) (s : State) (a : Action) : Decidable (Fitting page s a) :=
  match a with
  | .allocate size flags => inferInstanceAs (Decidable (size.toNat + 31 < 2 ^ 32 ∨
      ∀ c ∈ s.mList, c.free = true → c.size.setWidth 32 < extra page flags c.start))
  | .deallocate _ => .isTrue trivial

def page4096 : PageSize := ⟨12, by decide, by decide⟩

/-- A block, one that is put on a page, and the first one again with what is behind it. -/
def pageRun : List Action := [.allocate 100 0, .allocate 4096 1, .deallocate 0, .allocate 4000 0]

theorem allocator_kept_pageRun : ∃ s, after (next page4096) pageRun
    (State.initial page4096 10000) = some s ∧ s.Kept ∧ s.live = [⟨0, 4000⟩, ⟨4096, 4096⟩] :=
  ⟨_, rfl, allocator_kept page4096 10000 pageRun (by decide +kernel) rfl, by decide +kernel⟩

/-- A size that wraps is given an empty block, at the beginning of the free chunk. -/
theorem wrapped_not_kept : ¬ ∀ (page : PageSize) (size : BitVec 32) (as : List Action) (s : State),
    after (next page) as (State.initial page size) = some s → s.Kept := by
  intro h
  have hinside := (h page4096 4096 [.allocate 0xffffffff 0] _ rfl).inside ⟨0, 0xffffffff⟩
    (by decide +kernel)
  revert hinside
  decide +kernel

end Cdroid.Binder.MemoryDealer
