import Cdroid.Driver.Region
import Cdroid.Lib.Runs

/-! Every run of allocations and frees from `binder_mmap` on: the buffers, the trees and the
pages. -/

namespace Cdroid.Driver
open Cdroid.Lib.SearchTree Cdroid.Lib.Tiling Cdroid.Lib.Runs
open binder_proc (requestSize freedSize)

variable {rb : Balance Nat} {vma : Vma} {proc proc' : binder_proc}

/-! ## Runs -/

theorem binderMmap_sound (rb : Balance Nat) (vma : Vma) : (binderMmap rb vma).Sound := by
  have hpos := vma.size_pos
  have hwhole := vma.size_whole
  have hstart := vma.start_whole
  refine ⟨⟨?_, vma.size_le, ⟨rfl, _, ?_, rfl⟩, ⟨?_, ?_⟩, ?_, ?_⟩, .singleton _⟩
  · show (vma.start + vma.size) % PAGE_SIZE = 0
    unfold PAGE_SIZE at *
    omega
  · show vma.start + sizeof_binder_buffer ≤ vma.start + vma.size
    unfold sizeof_binder_buffer
    unfold PAGE_SIZE at hwhole
    omega
  · refine ((holds_singleton _ vma.start).insertColor rb).congr (fun x => ?_) fun _ _ _ _ hle => hle
    exact ⟨fun hx => ⟨List.mem_singleton.mpr hx, rfl⟩, fun hx => List.mem_singleton.mp hx.1⟩
  · exact (holds_leaf (· < ·)).congr (fun x => ⟨False.elim, fun hx => Bool.noConfusion hx.2⟩)
      fun _ _ hx _ _ => hx.elim
  · exact fun x _ hx => Bool.noConfusion hx
  · intro q
    show decide (q = vma.start) = true ↔ _ ∧ ∃ y ∈ [vma.start], q < data y ∧ _
    rw [decide_eq_true_iff]
    constructor
    · intro hq
      rw [hq]
      refine ⟨hstart, vma.start, List.mem_singleton.mpr rfl, ?_⟩
      unfold data sizeof_binder_buffer PAGE_SIZE
      omega
    · rintro ⟨hq, y, hy, hlt, hle⟩
      rw [List.mem_singleton.mp hy] at hlt hle
      unfold data sizeof_binder_buffer at hlt
      unfold PAGE_SIZE at *
      omega

namespace binder_proc

/-- The lookup finds the allocated buffers. -/
theorem Sound.bufferLookup_iff (h : proc.Sound) (b : Nat) :
    proc.bufferLookup (data b) = some b ↔ proc.Live b := by
  have hholds := h.region.trees.allocated
  constructor
  · intro hfound
    exact (hholds.mem b).mp (BinTree.find_some hfound).1
  · intro hlive
    refine BinTree.find_eq ((hholds.mem b).mpr hlive) (Nat.compare_eq_eq.mpr rfl) ?_
    refine hholds.sorted.imp fun {x y} hlt => ⟨?_, ?_⟩
    · rintro rfl
      exact Nat.compare_eq_gt.mpr (Nat.add_lt_add_right hlt _)
    · rintro rfl
      exact Nat.compare_eq_lt.mpr (Nat.add_lt_add_right hlt _)

end binder_proc

/-- What one call can do: an allocation that fails changes nothing. -/
inductive Called (proc : binder_proc) : Op → binder_proc → Prop
  | failed (data_size offsets_size : BitVec 64) (is_async : Bool) (env : Env) :
    Called proc (.alloc data_size offsets_size is_async env) proc
  | allocated {data_size offsets_size : BitVec 64} {is_async : Bool} {env : Env} {b size : Nat}
    {proc' : binder_proc} (request : requestSize data_size.toNat offsets_size.toNat = some size)
    (taken : proc.Allocated proc' b ⟨false, is_async, data_size.toNat, offsets_size.toNat⟩)
    (space : is_async = true → size + sizeof_binder_buffer ≤ proc.free_async_space)
    (charged : proc'.free_async_space = if is_async then
      proc.free_async_space - (size + sizeof_binder_buffer) else proc.free_async_space) :
    Called proc (.alloc data_size offsets_size is_async env) proc'
  | freed {b : Nat} {proc' : binder_proc} (live : proc.Live b) (freed : proc.Freed proc' b)
    (refunded : proc'.free_async_space = if (proc.header b).async_transaction then
      proc.free_async_space + (freedSize (proc.header b) + sizeof_binder_buffer)
      else proc.free_async_space) : Called proc (.free b) proc'

theorem next_called (h : proc.Sound) {op : Op} (hnext : next rb proc op = some proc') :
    Called proc op proc' := by
  cases op with
  | alloc data_size offsets_size is_async env =>
    dsimp only [next] at hnext
    rcases h.allocBuf rb data_size offsets_size is_async env with
      halloc | ⟨b, size, q, halloc, hrequest, hallocated, hspace, hcharged⟩
    · rw [halloc] at hnext
      cases hnext
      exact .failed data_size offsets_size is_async env
    · rw [halloc] at hnext
      cases hnext
      exact .allocated hrequest hallocated hspace hcharged
  | free b =>
    dsimp only [next] at hnext
    split at hnext
    · next hfound =>
      have hlive := (h.bufferLookup_iff b).mp hfound
      obtain ⟨q, hfree, hfreed, hrefunded⟩ := h.freeBuf hlive rb
      rw [hfree] at hnext
      cases hnext
      exact .freed hlive hfreed hrefunded
    · cases hnext

/-- What every call keeps. -/
structure Kept (vma : Vma) (proc : binder_proc) : Prop where
  sound : proc.Sound
  buffer : proc.buffer = vma.start
  bound : proc.bound = vma.start + vma.size

theorem next_kept (h : Kept vma proc) {op : Op} (hnext : next rb proc op = some proc') :
    Kept vma proc' := by
  cases next_called h.sound hnext with
  | failed => exact h
  | allocated _ taken =>
    exact ⟨taken.sound, taken.buffer.trans h.buffer, taken.bound.trans h.bound⟩
  | freed _ freed =>
    exact ⟨freed.sound, freed.buffer.trans h.buffer, freed.bound.trans h.bound⟩

theorem after_kept {ops : List Op} (h : after (next rb) ops (binderMmap rb vma) = some proc) :
    Kept vma proc :=
  after_inv (fun _ _ _ hkept hnext => next_kept hkept hnext) ops
    ⟨binderMmap_sound rb vma, rfl, rfl⟩ h

/-! ## The buffers -/

/-- What the list and the trees of the buffers are to be. -/
structure WellFormed (vma : Vma) (proc : binder_proc) : Prop where
  partition : Tiles sizeof_binder_buffer (vma.start + vma.size) vma.start proc.buffers
  covered : ∀ p, vma.start ≤ p → p < vma.start + vma.size →
    ∃ x ∈ proc.buffers, x ≤ p ∧ p < data x + proc.bufferSize x
  merged : proc.buffers.IsChain proc.NotBothFree
  by_size : Holds (fun x y => proc.bufferSize x ≤ proc.bufferSize y) proc.free_buffers fun x =>
    x ∈ proc.buffers ∧ proc.isFree x = true
  by_address : Holds (· < ·) proc.allocated_buffers proc.Live
  disjoint : ∀ x y, proc.Live x → proc.Live y → x < y → data x + proc.bufferSize x ≤ y
  large : ∀ x, proc.Live x → ∃ size,
    requestSize (proc.header x).data_size (proc.header x).offsets_size = some size ∧
      size ≤ proc.bufferSize x

/-- A buffer ends where the next one begins, or before. -/
theorem binder_proc.Region.endOf_le {F : Nat → Prop} (h : proc.Region F) {x y : Nat}
    (hx : x ∈ proc.buffers) (hy : y ∈ proc.buffers) (hlt : x < y) :
    endOf proc.bound proc.buffers x ≤ y := by
  obtain ⟨pre, post, hl⟩ := List.append_of_mem hy
  have htiles := h.tiles
  have hnodup := h.nodup
  rw [hl] at htiles hnodup hx ⊢
  obtain ⟨hpre, -, hpost⟩ := htiles.split
  refine htiles.endOf_le (by decide) ?_
  rcases List.mem_append.mp hx with hx | hx
  · exact hx
  · rcases List.mem_cons.mp hx with rfl | hx
    · omega
    · have hle := hpost.mem_le hx
      have hlong := htiles.split.2.1
      omega

theorem Kept.wellFormed (h : Kept vma proc) : WellFormed vma proc where
  partition := by
    rw [← h.bound, ← h.buffer]
    exact h.sound.region.tiles
  covered := by
    intro p hstart hlast
    rw [← h.buffer] at hstart
    rw [← h.bound] at hlast
    obtain ⟨x, hx, hle, hlt⟩ := h.sound.region.tiles.covers (by decide) hstart hlast
    exact ⟨x, hx, hle, h.sound.region.size_add hx ▸ hlt⟩
  merged := h.sound.apart
  by_size := h.sound.region.trees.free
  by_address := h.sound.region.trees.allocated
  disjoint := by
    intro x y hx hy hlt
    rw [h.sound.region.size_add hx.1]
    exact h.sound.region.endOf_le hx.1 hy.1 hlt
  large := fun x hx => h.sound.region.fits x hx.1 hx.2

/-- **The buffers.** After every run they are well formed; an allocation fails and changes
nothing, or makes a new buffer of the size that is asked for live and leaves the others as
they are; and every live buffer can be freed. -/
theorem allocator_wellFormed (rb : Balance Nat) (vma : Vma) (ops : List Op) (proc : binder_proc)
    (h : after (next rb) ops (binderMmap rb vma) = some proc) :
    WellFormed vma proc ∧
    (∀ data_size offsets_size is_async env,
      proc.allocBuf rb data_size offsets_size is_async env = .ok (none, proc) ∨
      ∃ b size proc', proc.allocBuf rb data_size offsets_size is_async env = .ok (some b, proc') ∧
        requestSize data_size.toNat offsets_size.toNat = some size ∧ size ≤ proc'.bufferSize b ∧
        ¬proc.Live b ∧ (∀ x, proc'.Live x ↔ proc.Live x ∨ x = b) ∧ WellFormed vma proc' ∧
        proc'.header b = ⟨false, is_async, data_size.toNat, offsets_size.toNat⟩ ∧
        ∀ x, proc.Live x → proc'.header x = proc.header x) ∧
    ∀ b, proc.Live b → ∃ proc', proc.freeBuf rb b = .ok proc' ∧ WellFormed vma proc' ∧
      (∀ x, proc'.Live x ↔ proc.Live x ∧ x ≠ b) ∧
      ∀ x, proc'.Live x → proc'.header x = proc.header x := by
  have hkept := after_kept h
  refine ⟨hkept.wellFormed, ?_, ?_⟩
  · intro data_size offsets_size is_async env
    rcases hkept.sound.allocBuf rb data_size offsets_size is_async env with
      halloc | ⟨b, size, proc', halloc, hrequest, htaken, -, -⟩
    · exact Or.inl halloc
    · have hkept' : Kept vma proc' :=
        ⟨htaken.sound, htaken.buffer.trans hkept.buffer, htaken.bound.trans hkept.bound⟩
      have hlive : proc'.Live b := (htaken.live b).mpr (Or.inr rfl)
      obtain ⟨size', hsize', hfits⟩ := htaken.sound.region.fits b hlive.1 hlive.2
      rw [htaken.header] at hsize'
      cases hrequest.symm.trans hsize'
      refine Or.inr ⟨b, size, proc', halloc, hrequest, hfits, ?_, htaken.live, hkept'.wellFormed,
        htaken.header, htaken.same⟩
      intro hb
      exact binder_proc.ne_of_free hb.2 htaken.was_free.2 rfl
  · intro b hb
    obtain ⟨proc', hfree, hfreed, -⟩ := hkept.sound.freeBuf hb rb
    have hkept' : Kept vma proc' :=
      ⟨hfreed.sound, hfreed.buffer.trans hkept.buffer, hfreed.bound.trans hkept.bound⟩
    exact ⟨proc', hfree, hkept'.wellFormed, hfreed.live, hfreed.same⟩

/-- Two pages. -/
def twoPages : Vma where
  start := 65536
  size := 8192
  start_whole := rfl
  size_whole := rfl
  size_pos := by decide
  size_le := by decide
  in_memory := by decide

/-- Two buffers on two pages, of which the first is freed; the second page fails once. -/
def twoBuffers : List Op :=
  [.alloc 100 8 false ⟨true, true, []⟩, .alloc 4000 0 true ⟨true, true, [.notInUser]⟩,
    .alloc 4000 0 true ⟨true, true, []⟩, .free 65536]

theorem twoBuffers_wellFormed :
    ∃ proc, after (next .plain) twoBuffers (binderMmap .plain twoPages) = some proc ∧
      WellFormed twoPages proc := by
  have hsome : (after (next .plain) twoBuffers (binderMmap .plain twoPages)).isSome := by
    decide +kernel
  exact ⟨_, (Option.some_get hsome).symm,
    (allocator_wellFormed .plain twoPages twoBuffers _ (Option.some_get hsome).symm).1⟩

/-! ## The pages -/

/-- The page `q` and the addresses from `lo` up to `last` have one in common. -/
def Overlap (q lo last : Nat) : Prop := ∃ a, (q ≤ a ∧ a < q + PAGE_SIZE) ∧ lo ≤ a ∧ a < last

theorem overlap_iff {q lo last : Nat} (h : lo < last) :
    Overlap q lo last ↔ q < last ∧ lo < q + PAGE_SIZE := by
  unfold Overlap PAGE_SIZE
  constructor
  · rintro ⟨a, hq, ha⟩
    omega
  · intro hq
    exact ⟨max q lo, by omega⟩

/-- A page that is used is one under a header or under the data of an allocated buffer. -/
theorem binder_proc.Region.over_iff {F : Nat → Prop} (h : proc.Region F) (q : Nat) :
    Over proc.used proc.buffers q ↔
      (∃ x ∈ proc.buffers, Overlap q x (data x)) ∨
        ∃ x, proc.Live x ∧ Overlap q (data x) (data x + proc.bufferSize x) := by
  have hheader : ∀ x, x < data x := fun x => Nat.lt_add_of_pos_right (by decide)
  constructor
  · rintro ⟨x, hx, hlt, hle⟩
    by_cases hdata : q < data x
    · exact Or.inl ⟨x, hx, (overlap_iff (hheader x)).mpr ⟨hdata, hle⟩⟩
    · refine Or.inr ⟨x, ?_⟩
      unfold binder_proc.used at hlt
      split at hlt
      · exact absurd hlt hdata
      · next hfree =>
        rw [h.size_add hx]
        have hpage : q < q + PAGE_SIZE := Nat.lt_add_of_pos_right (by decide)
        exact ⟨⟨hx, Bool.eq_false_iff.mpr hfree⟩, q, ⟨Nat.le_refl q, hpage⟩,
          Nat.le_of_not_lt hdata, hlt⟩
  · rintro (⟨x, hx, hover⟩ | ⟨x, ⟨hx, hfree⟩, a, ⟨hqa, haq⟩, hdata, hlast⟩)
    · obtain ⟨hlt, hle⟩ := (overlap_iff (hheader x)).mp hover
      exact ⟨x, hx, Nat.lt_of_lt_of_le hlt (h.used_bounds hx).1, hle⟩
    · refine ⟨x, hx, ?_, ?_⟩
      · unfold binder_proc.used
        rw [hfree]
        show q < endOf proc.bound proc.buffers x
        rw [h.size_add hx] at hlast
        omega
      · have hx' := hheader x
        omega

/-- **The pages.** After every run those that overlap a header or the data of an allocated
buffer are there, and no others; and in the next call no page is allocated twice, none is
freed that is not there, and no header is written where none is. -/
theorem pages_exact (rb : Balance Nat) (vma : Vma) (ops : List Op) (proc : binder_proc)
    (h : after (next rb) ops (binderMmap rb vma) = some proc) :
    (∀ q, proc.pages q = true ↔ q % PAGE_SIZE = 0 ∧
      ((∃ x ∈ proc.buffers, Overlap q x (data x)) ∨
        ∃ x, proc.Live x ∧ Overlap q (data x) (data x + proc.bufferSize x))) ∧
    (∀ data_size offsets_size is_async env bug,
      proc.allocBuf rb data_size offsets_size is_async env ≠ .error bug) ∧
    ∀ b, proc.Live b → ∀ bug, proc.freeBuf rb b ≠ .error bug := by
  have hsound := (after_kept h).sound
  refine ⟨fun q => ?_, fun data_size offsets_size is_async env bug hbug => ?_,
    fun b hb bug hbug => ?_⟩
  · rw [hsound.region.paged q, hsound.region.over_iff]
  · rcases hsound.allocBuf rb data_size offsets_size is_async env with
      halloc | ⟨b, size, proc', halloc, -⟩
    · rw [halloc] at hbug
      cases hbug
    · rw [halloc] at hbug
      cases hbug
  · obtain ⟨proc', hfree, -⟩ := hsound.freeBuf hb rb
    rw [hfree] at hbug
    cases hbug

theorem twoBuffers_pages :
    ∃ proc, after (next .plain) twoBuffers (binderMmap .plain twoPages) = some proc ∧
      ∀ q, proc.pages q = true ↔ q % PAGE_SIZE = 0 ∧
        ((∃ x ∈ proc.buffers, Overlap q x (data x)) ∨
          ∃ x, proc.Live x ∧ Overlap q (data x) (data x + proc.bufferSize x)) := by
  have hsome : (after (next .plain) twoBuffers (binderMmap .plain twoPages)).isSome := by
    decide +kernel
  exact ⟨_, (Option.some_get hsome).symm,
    (pages_exact .plain twoPages twoBuffers _ (Option.some_get hsome).symm).1⟩

end Cdroid.Driver
