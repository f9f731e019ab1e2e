import Cdroid.Driver.Links
import Mathlib.Data.List.Chain

/-! The invariant of a process's region, and what `binder_alloc_buf` and `binder_free_buf` do
to it. -/

namespace Cdroid.Driver.binder_proc
open Cdroid.Lib.SearchTree Cdroid.Lib.Tiling

variable {proc : binder_proc} {F : Nat → Prop}

/-! ## The invariant -/

/-- The buffers cut the region, `F` are the buffers of the free tree, an allocated buffer is
large enough, and the pages under the headers and the data are there. -/
structure Region (proc : binder_proc) (F : Nat → Prop) : Prop where
  bound_whole : proc.bound % PAGE_SIZE = 0
  size_le : proc.buffer_size ≤ SZ_4M
  tiles : Tiles sizeof_binder_buffer proc.bound proc.buffer proc.buffers
  trees : proc.Trees F
  fits : ∀ x ∈ proc.buffers, proc.isFree x = false →
    ∃ size, requestSize (proc.header x).data_size (proc.header x).offsets_size = some size ∧
      size ≤ proc.bufferSize x
  paged : PagedBy proc.pages proc.used proc.buffers

/-- Two buffers that are not both free. -/
def NotBothFree (proc : binder_proc) (x y : Nat) : Prop :=
  ¬(proc.isFree x = true ∧ proc.isFree y = true)

/-- The free tree has all the free buffers, and two of them are never neighbours. -/
structure Sound (proc : binder_proc) : Prop where
  region : proc.Region fun x => x ∈ proc.buffers ∧ proc.isFree x = true
  apart : proc.buffers.IsChain proc.NotBothFree

theorem chain_congr {proc' : binder_proc} {l : List Nat} (h : l.IsChain proc.NotBothFree)
    (hsame : ∀ x ∈ l, proc'.isFree x = proc.isFree x) : l.IsChain proc'.NotBothFree := by
  refine h.imp_of_mem_imp fun x y hx hy hxy hboth => hxy ?_
  rw [hsame x hx, hsame y hy] at hboth
  exact hboth

section Region
variable (h : proc.Region F)
include h

theorem Region.nodup : proc.buffers.Nodup := h.tiles.nodup (by decide)

/-- Every header is used, and nothing behind the end of the buffer. -/
theorem Region.used_bounds {x : Nat} (hx : x ∈ proc.buffers) :
    data x ≤ proc.used x ∧ proc.used x ≤ endOf proc.bound proc.buffers x := by
  have hle : data x ≤ endOf proc.bound proc.buffers x := h.tiles.le_endOf (by decide) hx
  unfold used
  split
  · exact ⟨Nat.le_refl _, hle⟩
  · exact ⟨hle, Nat.le_refl _⟩

theorem Region.headers : Headers proc.pages proc.buffers := fun _ hx =>
  h.paged.header (fun _ hy => (h.used_bounds hy).1) hx

end Region

/-- A buffer that is allocated. -/
def Live (proc : binder_proc) (x : Nat) : Prop := x ∈ proc.buffers ∧ proc.isFree x = false

/-! ## Allocation -/

/-- What becomes of the region when the buffer `b` is allocated, with the header `h`. -/
structure Allocated (proc proc' : binder_proc) (b : Nat) (h : binder_buffer) : Prop where
  sound : proc'.Sound
  was_free : b ∈ proc.buffers ∧ proc.isFree b = true
  live : ∀ x, proc'.Live x ↔ proc.Live x ∨ x = b
  header : proc'.header b = h
  same : ∀ x, proc.Live x → proc'.header x = proc.header x
  buffer : proc'.buffer = proc.buffer
  bound : proc'.bound = proc.bound

theorem Region.size_add (h : proc.Region F) {b : Nat} (hb : b ∈ proc.buffers) :
    data b + proc.bufferSize b = endOf proc.bound proc.buffers b := by
  have hle := h.used_bounds hb
  rw [bufferSize_eq]
  omega

theorem Region.bufferSize_le (h : proc.Region F) {b : Nat} (hb : b ∈ proc.buffers) :
    proc.bufferSize b + sizeof_binder_buffer ≤ proc.buffer_size := by
  have hsize := h.size_add hb
  have hstart := (h.tiles.mem_le hb).1
  have hlast : endOf proc.bound proc.buffers b ≤ proc.bound := by
    have hle := Tiles.endOf_le (e := proc.bound) (h := sizeof_binder_buffer) (s := proc.buffer)
      (by decide) ((List.append_nil proc.buffers).symm ▸ h.tiles) hb
    rwa [List.append_nil] at hle
  unfold data at hsize
  unfold bound at hlast hsize
  omega

/-- Around one of the buffers: what is used in front of it ends there, and those behind it
begin where it ends. -/
theorem Region.around (h : proc.Region F) {pre post : List Nat} {b : Nat}
    (hl : proc.buffers = pre ++ b :: post) :
    let last := endOf proc.bound proc.buffers b
    (∀ y ∈ pre, proc.used y ≤ b) ∧ data b ≤ last ∧
      Tiles sizeof_binder_buffer proc.bound last post ∧ ∀ y ∈ post, data y ≤ proc.used y := by
  intro last
  have htiles := h.tiles
  have hbounds : ∀ x ∈ proc.buffers, _ := fun x => h.used_bounds
  have hlast : last = post.headD proc.bound := by
    rw [hl] at htiles
    show endOf proc.bound proc.buffers b = _
    rw [hl]
    exact htiles.endOf_eq (by decide)
  rw [hl] at htiles hbounds
  obtain ⟨-, hlong, hpost⟩ := htiles.split
  rw [← hlast] at hlong hpost
  refine ⟨fun y hy => ?_, hlong, hpost, fun y hy => ?_⟩
  · exact Nat.le_trans (hbounds y (List.mem_append_left _ hy)).2 (htiles.endOf_le (by decide) hy)
  · exact (hbounds y (List.mem_append_right _ (List.mem_cons_of_mem _ hy))).1

theorem bound_eq {proc' : binder_proc} (hbuffer : proc'.buffer = proc.buffer)
    (hsize : proc'.buffer_size = proc.buffer_size) : proc'.bound = proc.bound := by
  unfold bound
  rw [hbuffer, hsize]

section Taken
variable {proc' : binder_proc} {pre post : List Nat} {b T : Nat} {g : binder_buffer}
  (h : proc.Sound) (hl : proc.buffers = pre ++ b :: post) (hfree : proc.isFree b = true)
  (hbuffer : proc'.buffer = proc.buffer) (hsize : proc'.buffer_size = proc.buffer_size)
  (hpages : ∀ q, proc'.pages q = true ↔ q % PAGE_SIZE = 0 ∧
    (Over proc.used pre q ∨ (q < T ∧ b < q + PAGE_SIZE) ∨ Over proc.used post q))
  (ht : proc'.Trees fun x => x ∈ proc'.buffers ∧ proc'.isFree x = true)
  (hb : proc'.header b = g) (hg : g.free = false)
include h hl hfree hbuffer hsize hpages ht hb hg

/-- The buffer is taken whole. -/
theorem Sound.taken_whole (hl' : proc'.buffers = proc.buffers)
    (hsame : ∀ x, x ≠ b → proc'.header x = proc.header x)
    (hfits : ∃ size, requestSize g.data_size g.offsets_size = some size ∧
      size ≤ proc.bufferSize b) (hT : T = endOf proc.bound proc.buffers b) :
    Allocated proc proc' b g := by
  have hbound := bound_eq hbuffer hsize
  have hmem : b ∈ proc.buffers := hl ▸ List.mem_append_right _ List.mem_cons_self
  have hnotb : ∀ x ∈ pre ++ post, x ≠ b := fun x => ne_of_mem (hl ▸ h.region.nodup)
  have hnot : proc'.isFree b = false := (congrArg binder_buffer.free hb).trans hg
  have hother : ∀ x, x ≠ b → proc'.isFree x = proc.isFree x := fun x hx =>
    congrArg binder_buffer.free (hsame x hx)
  have hbsize : ∀ x, proc'.bufferSize x = proc.bufferSize x := by
    intro x
    rw [bufferSize_eq, bufferSize_eq, hbound, hl']
  have hused : ∀ x, x ≠ b → proc.used x = proc'.used x := by
    intro x hx
    unfold used
    rw [hother x hx, hbound, hl']
  have husedb : proc'.used b = T := by
    unfold used
    rw [hnot, hbound, hl', hT]
    rfl
  refine ⟨⟨⟨?_, ?_, ?_, ht, ?_, ?_⟩, ?_⟩, ⟨hmem, hfree⟩, ?_, hb, ?_, hbuffer, hbound⟩
  · rw [hbound]
    exact h.region.bound_whole
  · rw [hsize]
    exact h.region.size_le
  · rw [hbound, hbuffer, hl']
    exact h.region.tiles
  · intro x hx hxfree
    rw [hbsize]
    by_cases hxb : x = b
    · rw [hxb, hb]
      exact hfits
    · rw [hsame x hxb]
      exact h.region.fits x (hl' ▸ hx) (hother x hxb ▸ hxfree)
  · rw [hl', hl]
    exact PagedBy.of_iff hpages (fun y hy => hused y (hnotb y hy)) husedb
  · rw [hl']
    refine h.apart.imp fun x y hxy hxy' => hxy ?_
    have hweak : ∀ z, proc'.isFree z = true → proc.isFree z = true := by
      intro z hz
      by_cases hzb : z = b
      · rw [hzb, hfree]
      · rw [← hother z hzb, hz]
    exact ⟨hweak x hxy'.1, hweak y hxy'.2⟩
  · intro x
    unfold Live
    rw [hl']
    by_cases hxb : x = b
    · subst hxb
      exact ⟨fun _ => Or.inr rfl, fun _ => ⟨hmem, hnot⟩⟩
    · rw [hother x hxb]
      exact ⟨Or.inl, fun hx => hx.resolve_right hxb⟩
  · exact fun x hx => hsame x (ne_of_free hx.2 hfree).symm

omit hfree hbuffer hsize hpages ht hb hg in
/-- The region with the buffer cut in two. -/
theorem Sound.split_tiles {new : Nat} (hnew : data b ≤ new)
    (hle : data new ≤ endOf proc.bound proc.buffers b) :
    Tiles sizeof_binder_buffer proc.bound proc.buffer (pre ++ b :: new :: post) := by
  have hnodup := h.region.nodup
  have htiles := h.region.tiles
  rw [hl] at hle hnodup htiles
  rw [endOf_append (not_mem_front hnodup).1] at hle
  obtain ⟨hpre, -, hpost⟩ := htiles.split
  exact hpre.join hnew ⟨rfl, _, hle, hpost⟩

/-- The buffer is cut in two, and the first one taken. -/
theorem Sound.taken_split {new : Nat} (hl' : proc'.buffers = pre ++ b :: new :: post)
    (hnew : proc'.isFree new = true) (hnewb : data b ≤ new)
    (hle : data new ≤ endOf proc.bound proc.buffers b)
    (hsame : ∀ x, x ≠ b → x ≠ new → proc'.header x = proc.header x)
    (hfits : requestSize g.data_size g.offsets_size = some (new - data b)) (hT : T = data new) :
    Allocated proc proc' b g := by
  have hbound := bound_eq hbuffer hsize
  have htiles := h.split_tiles hl hnewb hle
  have hnodup : (pre ++ b :: new :: post).Nodup := htiles.nodup (by decide)
  have hmem : b ∈ proc.buffers := hl ▸ List.mem_append_right _ List.mem_cons_self
  have hcut : ∀ x, x ∈ pre ++ b :: new :: post ↔ x ∈ proc.buffers ∨ x = new := by
    intro x
    rw [hl]
    exact mem_behind
  have hold : ∀ x, x ∈ proc.buffers ↔ x ∈ pre ++ post ∨ x = b := by
    intro x
    rw [hl]
    exact mem_mid
  have hnewold : new ∉ proc.buffers := hl ▸ not_mem_behind hnodup
  have hne : ∀ x ∈ pre ++ post, x ≠ b ∧ x ≠ new := fun x hx =>
    ⟨ne_of_mem (hl ▸ h.region.nodup) hx,
      ne_of_mem_of_not_mem ((hold x).mpr (Or.inl hx)) hnewold⟩
  have hnot : proc'.isFree b = false := (congrArg binder_buffer.free hb).trans hg
  have hother : ∀ x ∈ pre ++ post, proc'.isFree x = proc.isFree x := fun x hx =>
    congrArg binder_buffer.free (hsame x (hne x hx).1 (hne x hx).2)
  have hend : ∀ x ∈ pre ++ post, endOf proc'.bound proc'.buffers x =
      endOf proc.bound proc.buffers x := by
    intro x hx
    rw [hbound, hl', hl]
    exact endOf_insert hnodup hx
  have hendb : endOf proc'.bound proc'.buffers b = new := by
    rw [hbound, hl', endOf_append (not_mem_front hnodup).1]
    rfl
  refine ⟨⟨⟨?_, ?_, ?_, ht, ?_, ?_⟩, ?_⟩, ⟨hmem, hfree⟩, ?_, hb, ?_, hbuffer, hbound⟩
  · rw [hbound]
    exact h.region.bound_whole
  · rw [hsize]
    exact h.region.size_le
  · rw [hbound, hbuffer, hl']
    exact htiles
  · intro x hx hxfree
    rw [bufferSize_eq]
    rw [hl', hcut, hold] at hx
    rcases hx with (hx | rfl) | rfl
    · rw [hsame x (hne x hx).1 (hne x hx).2, hend x hx, ← bufferSize_eq]
      exact h.region.fits x ((hold x).mpr (Or.inl hx)) (hother x hx ▸ hxfree)
    · rw [hb, hendb]
      exact ⟨_, hfits, Nat.le_refl _⟩
    · exact absurd rfl (ne_of_free hxfree hnew)
  · rw [hl']
    refine PagedBy.of_iff_split hpages (fun y hy => ?_) ?_ ?_ (Nat.le_of_lt ?_) ?_
    · unfold used
      rw [hother y hy, hend y hy]
    · unfold used
      rw [hnot, hendb]
      rfl
    · unfold used
      rw [hnew, hT]
      rfl
    · unfold data sizeof_binder_buffer at hnewb
      omega
    · rw [hT]
      exact Nat.le_add_right _ _
  · rw [hl']
    obtain ⟨hpre, htail, -⟩ := List.isChain_append.mp (hl ▸ h.apart)
    obtain ⟨hhead, hpost⟩ := List.isChain_cons.mp htail
    refine (chain_congr hpre fun x hx => hother x (List.mem_append_left _ hx)).append ?_ ?_
    · refine List.IsChain.cons (List.IsChain.cons
        (chain_congr hpost fun x hx => hother x (List.mem_append_right _ hx)) ?_) ?_
      · intro y hy hboth
        have hypost : y ∈ pre ++ post := List.mem_append_right _ (List.mem_of_mem_head? hy)
        exact hhead y hy ⟨hfree, hother y hypost ▸ hboth.2⟩
      · intro y _ hboth
        exact ne_of_free hnot hboth.1 rfl
    · intro x _ y hy hboth
      cases hy
      exact ne_of_free hnot hboth.2 rfl
  · intro x
    unfold Live
    rw [hl', hcut, hold]
    constructor
    · rintro ⟨(hx | rfl) | rfl, hxfree⟩
      · exact Or.inl ⟨Or.inl hx, hother x hx ▸ hxfree⟩
      · exact Or.inr rfl
      · exact absurd rfl (ne_of_free hxfree hnew)
    · rintro (⟨hx | rfl, hxfree⟩ | rfl)
      · exact ⟨Or.inl (Or.inl hx), hother x hx ▸ hxfree⟩
      · exact ⟨Or.inl (Or.inr rfl), hnot⟩
      · exact ⟨Or.inl (Or.inr rfl), hnot⟩
  · exact fun x hx => hsame x (ne_of_free hx.2 hfree).symm (ne_of_mem_of_not_mem hx.1 hnewold)

end Taken

/-- The pages of an allocation that ends at `T` are there afterwards, or all is as it was. -/
theorem Sound.allocatePages (h : proc.Sound) {pre post : List Nat} {b T : Nat}
    (hl : proc.buffers = pre ++ b :: post) (hfree : proc.isFree b = true) (hT : data b ≤ T)
    (env : Env) :
    let last := endOf proc.bound proc.buffers b
    ∃ ok pages,
      allocateRange proc.pages (pageAlign (data b)) (min (pageAlign T) (pageMask last)) env =
        .ok (ok, pages) ∧
      (ok = false → pages = proc.pages) ∧ (∀ q, proc.pages q = true → pages q = true) ∧
      (ok = true → ∀ T', T ≤ T' → T' ≤ last →
        (T' = T ∨ last ≤ T + sizeof_binder_buffer + 4) → ∀ q, pages q = true ↔
          q % PAGE_SIZE = 0 ∧ (Over proc.used pre q ∨ (q < T' ∧ b < q + PAGE_SIZE) ∨
            Over proc.used post q)) := by
  intro last
  obtain ⟨hpre, -, hpost, hu⟩ := h.region.around hl
  have hpaged := h.region.paged
  rw [hl] at hpaged
  have hused : proc.used b = data b := if_pos hfree
  have hwhole : pageAlign (data b) % PAGE_SIZE = 0 ∧
      min (pageAlign T) (pageMask last) % PAGE_SIZE = 0 := by
    unfold pageAlign pageMask PAGE_SIZE
    omega
  obtain ⟨ok, hok⟩ := allocateRange_eq env hwhole.1 hwhole.2 fun q hq hlo hlt =>
    hpaged.not_there hused hpost hpre hq hlo (Nat.lt_of_lt_of_le hlt (Nat.min_le_right _ _))
  refine ⟨ok, _, hok, ?_, ?_, ?_⟩
  · intro hfalse
    rw [hfalse]
    rfl
  · intro q hq
    cases ok with
    | false => exact hq
    | true =>
      show Pages.fill _ _ _ q = true
      rw [fill_apply, hq, ite_self]
  · intro htrue T' hTT hle hexact
    rw [htrue]
    exact hpaged.fill hused hpost hu h.region.bound_whole hT hTT hle hexact

/-- What is taken of a buffer that fits: all of it, which is at most too long by what is no
room for another one, or a part with the header behind it. -/
theorem takenSize_cases {size buffer_size : Nat} {isExact : Bool}
    (h : compare size buffer_size = if isExact then .eq else .lt) :
    (takenSize size buffer_size isExact = size ∧ size ≤ buffer_size ∧
      buffer_size ≤ size + sizeof_binder_buffer + 4) ∨
    (takenSize size buffer_size isExact = size + sizeof_binder_buffer ∧
      size + sizeof_binder_buffer + 4 < buffer_size) := by
  unfold takenSize
  cases isExact with
  | true =>
    rw [if_pos rfl] at h
    have heq := Nat.compare_eq_eq.mp h
    exact Or.inl ⟨heq.symm, by omega, by omega⟩
  | false =>
    have hlt := Nat.compare_eq_lt.mp h
    rw [if_neg Bool.false_ne_true]
    split
    · next hle => exact Or.inl ⟨rfl, by omega, hle⟩
    · next hgt => exact Or.inr ⟨rfl, by omega⟩

/-- A buffer that fits is taken when its pages are there. -/
theorem Sound.takeBuffer (h : proc.Sound) (rb : Balance Nat) {b size buffer_size : Nat}
    (hb : b ∈ proc.buffers) (hfree : proc.isFree b = true) {data_size offsets_size : Nat}
    (hrequest : requestSize data_size offsets_size = some size)
    (htaken : (buffer_size = size ∧ size ≤ proc.bufferSize b ∧
        proc.bufferSize b ≤ size + sizeof_binder_buffer + 4) ∨
      (buffer_size = size + sizeof_binder_buffer ∧
        size + sizeof_binder_buffer + 4 < proc.bufferSize b)) (is_async : Bool) (env : Env) :
    ∃ ok pages,
      allocateRange proc.pages (pageAlign (data b)) (min (pageAlign (data b + buffer_size))
        (pageMask (data b + proc.bufferSize b))) env = .ok (ok, pages) ∧
      (ok = false → pages = proc.pages) ∧
      (ok = true → ∃ proc', binder_proc.takeBuffer rb { proc with pages } b size buffer_size
          data_size offsets_size is_async = .ok proc' ∧
        Allocated proc proc' b ⟨false, is_async, data_size, offsets_size⟩ ∧
        proc'.free_async_space = if is_async then
          proc.free_async_space - (size + sizeof_binder_buffer) else proc.free_async_space) := by
  obtain ⟨pre, post, hl⟩ := List.append_of_mem hb
  have hsize := h.region.size_add hb
  obtain ⟨ok, pages, halloc, hfail, hmore, hok⟩ :=
    h.allocatePages hl hfree (Nat.le_add_right (data b) buffer_size) env
  rw [hsize]
  refine ⟨ok, pages, halloc, hfail, fun htrue => ?_⟩
  have hpages := hok htrue
  have htrees : Trees { proc with pages } fun x => x ∈ proc.buffers ∧ proc.isFree x = true :=
    ⟨h.region.trees.free, h.region.trees.allocated⟩
  have hold : Headers pages proc.buffers := fun x hx =>
    ⟨hmore _ (h.region.headers x hx).1, hmore _ (h.region.headers x hx).2⟩
  rcases htaken with ⟨rfl, hfits, hroom⟩ | ⟨rfl, hroom⟩
  · obtain ⟨header, free_buffers, allocated_buffers, htake, htrees', hheader, hsame⟩ :=
      takeBuffer_whole rb (by exact hold) htrees hb hfree (fun _ hx => hx) buffer_size data_size
        offsets_size is_async
    refine ⟨_, htake, ?_, rfl⟩
    exact h.taken_whole hl hfree rfl rfl
      (hpages _ (by omega) (Nat.le_refl _) (Or.inr (by omega))) htrees' hheader rfl rfl hsame
      ⟨buffer_size, hrequest, hfits⟩ rfl
  · have hle : data (data b + size) ≤ endOf proc.bound proc.buffers b := by
      show data b + size + sizeof_binder_buffer ≤ _
      omega
    have htiles := h.split_tiles hl (Nat.le_add_right (data b) size) hle
    have hpagesT := hpages (data (data b + size)) (Nat.le_of_eq (Nat.add_assoc ..).symm) hle
      (Or.inl (Nat.add_assoc ..))
    have hheaders : Headers pages (pre ++ b :: (data b + size) :: post) := by
      intro x hx
      rcases mem_behind.mp hx with hx | rfl
      · exact hold x (hl ▸ hx)
      · unfold buffer_start_page buffer_end_page pageMask
        refine ⟨(hpagesT _).mpr ⟨?_, Or.inr (Or.inl ?_)⟩, (hpagesT _).mpr ⟨?_, Or.inr (Or.inl ?_)⟩⟩
        all_goals
          unfold data sizeof_binder_buffer PAGE_SIZE
          omega
    obtain ⟨header, free_buffers, allocated_buffers, htake, htrees', hheader, hnew, hsame⟩ :=
      takeBuffer_split rb hheaders htrees hl hfree
        (by unfold sizeof_binder_buffer; omega : size + sizeof_binder_buffer ≠ size)
        (htiles.nodup (by decide)) (fun _ hx => hx) data_size offsets_size is_async
    refine ⟨_, htake, ?_, rfl⟩
    exact h.taken_split hl hfree rfl rfl hpagesT htrees' hheader rfl rfl hnew (Nat.le_add_right ..)
      hle hsame (by rw [Nat.add_sub_cancel_left]; exact hrequest) rfl

/-- **Allocation.** Either nothing changes, or a free buffer becomes an allocated one; and
nothing goes wrong. -/
theorem Sound.allocBuf (h : proc.Sound) (rb : Balance Nat) (data_size offsets_size : BitVec 64)
    (is_async : Bool) (env : Env) :
    proc.allocBuf rb data_size offsets_size is_async env = .ok (none, proc) ∨
    ∃ b size proc',
      proc.allocBuf rb data_size offsets_size is_async env = .ok (some b, proc') ∧
      requestSize data_size.toNat offsets_size.toNat = some size ∧
      Allocated proc proc' b ⟨false, is_async, data_size.toNat, offsets_size.toNat⟩ ∧
      (is_async = true → size + sizeof_binder_buffer ≤ proc.free_async_space) ∧
      proc'.free_async_space = if is_async then
        proc.free_async_space - (size + sizeof_binder_buffer) else proc.free_async_space := by
  unfold binder_proc.allocBuf
  split
  · exact Or.inl rfl
  · split
    · exact Or.inl rfl
    · next size hrequest =>
      split
      · exact Or.inl rfl
      · next hasync =>
        split
        · exact Or.inl rfl
        · next b isExact hfit =>
          obtain ⟨hmem, hcmp⟩ := (BinTree.bestFit_some hfit).resolve_right fun hnone => by
            cases hnone.1
          obtain ⟨hb, hfree⟩ := (h.region.trees.free.mem b).mp hmem
          have htaken := takenSize_cases hcmp
          obtain ⟨ok, pages, halloc, hfail, htake⟩ :=
            h.takeBuffer rb hb hfree hrequest htaken is_async env
          cases ok with
          | false =>
            obtain rfl := hfail rfl
            exact Or.inl (bind_of_ok halloc rfl)
          | true =>
            obtain ⟨proc', htake, hallocated, hcharged⟩ := htake rfl
            refine Or.inr ⟨b, size, proc', bind_of_ok halloc (bind_of_ok htake rfl), hrequest,
              hallocated, fun hasync' => ?_, hcharged⟩
            have hle := h.region.bufferSize_le hb
            have hsmall := h.region.size_le
            rw [hasync', Bool.true_and, decide_eq_true_iff, Nat.mod_eq_of_lt] at hasync
            · exact Nat.le_of_not_lt hasync
            · unfold SZ_4M at hsmall
              omega

/-! ## Freeing -/

/-- A free buffer behind another one goes, and the pages under the others are there. -/
theorem Region.deleteFreeBuffer (h : proc.Region F) {pre post : List Nat} {prev x : Nat}
    (hl : proc.buffers = pre ++ prev :: x :: post) (hprev : proc.isFree prev = true)
    (hx : proc.isFree x = true) :
    ∃ pages, proc.deleteFreeBuffer x = .ok { proc with buffers := pre ++ prev :: post, pages } ∧
      PagedBy pages proc.used (pre ++ prev :: post) :=
  deleteFreeBuffer_ok hl hprev h.tiles h.paged (fun _ => h.used_bounds) (if_pos hprev) (if_pos hx)

/-- The region is as before without it, but for the place of `prev` in the free tree. -/
theorem Region.without (h : proc.Region F) {pre post : List Nat} {prev x : Nat} {pages : Pages}
    (hl : proc.buffers = pre ++ prev :: x :: post) (hprev : proc.isFree prev = true)
    (hx : proc.isFree x = true) (hF : ∀ y, F y → y ∈ pre ++ post)
    (hpaged : PagedBy pages proc.used (pre ++ prev :: post)) :
    Region { proc with buffers := pre ++ prev :: post, pages } F := by
  have htiles := h.tiles
  have hnodup := h.nodup
  rw [hl] at htiles hnodup
  obtain ⟨hpre, hle, htail⟩ := htiles.split
  obtain ⟨-, hxt, hpost⟩ := Tiles.split (show Tiles _ _ _ ([] ++ x :: post) from htail)
  have hmem : ∀ y, y ∈ proc.buffers ↔ y ∈ pre ++ prev :: post ∨ y = x := by
    intro y
    rw [hl]
    exact mem_behind
  generalize hp' : { proc with buffers := pre ++ prev :: post, pages } = proc'
  have hbound : proc'.bound = proc.bound := by
    subst hp'
    rfl
  have hl' : proc'.buffers = pre ++ prev :: post := by
    subst hp'
    rfl
  have hend : ∀ y ∈ pre ++ post, endOf proc.bound proc.buffers y =
      endOf proc'.bound proc'.buffers y := by
    intro y hy
    rw [hl, hbound, hl']
    exact endOf_insert hnodup hy
  have hsize : ∀ y ∈ pre ++ post, proc.bufferSize y = proc'.bufferSize y := by
    intro y hy
    rw [bufferSize_eq, bufferSize_eq, hend y hy]
  subst hp'
  have hlive : ∀ y, y ∈ proc.buffers ∧ proc.isFree y = false ↔
      y ∈ pre ++ prev :: post ∧ proc.isFree y = false := by
    intro y
    rw [hmem]
    constructor
    · rintro ⟨hy, hfree⟩
      exact ⟨hy.resolve_right (ne_of_free hfree hx).symm, hfree⟩
    · rintro ⟨hy, hfree⟩
      exact ⟨Or.inl hy, hfree⟩
  have hother : ∀ y ∈ pre ++ prev :: post, proc.isFree y = false → y ∈ pre ++ post :=
    fun y hy hfree => (mem_mid.mp hy).resolve_right (ne_of_free hfree hprev).symm
  refine ⟨h.bound_whole, h.size_le, ?_, ⟨?_, ?_⟩, ?_, ?_⟩
  · exact hpre.join (Nat.le_trans (Nat.le_trans hle (Nat.le_add_right ..)) hxt) hpost
  · refine h.trees.free.congr (fun _ => Iff.rfl) fun y z hy hz hyz => ?_
    rw [← hsize y (hF y hy), ← hsize z (hF z hz)]
    exact hyz
  · exact h.trees.allocated.congr hlive fun _ _ _ _ hlt => hlt
  · intro y hy hfree
    rw [← hsize y (hother y hy hfree)]
    exact h.fits y ((hmem y).mpr (Or.inl hy)) hfree
  · refine hpaged.congr fun y hy => ?_
    unfold used
    show (if proc.isFree y then _ else _) = if proc.isFree y then _ else _
    split
    · rfl
    · next hfree => exact hend y (hother y hy (Bool.eq_false_iff.mpr hfree))

/-- A change of the trees is none of the rest. -/
theorem Region.setTree (h : proc.Region F) {free_buffers : BinTree Nat} {F' : Nat → Prop}
    (ht : Holds (fun x y => proc.bufferSize x ≤ proc.bufferSize y) free_buffers F') :
    Region { proc with free_buffers } F' :=
  ⟨h.bound_whole, h.size_le, h.tiles, ⟨ht, h.trees.allocated⟩, h.fits, h.paged⟩

/-- One of two free buffers goes into the other: `c` is not in the tree, and `d` is taken out
of it. -/
theorem Region.absorb (rb : Balance Nat) {pre post : List Nat} {prev x c d : Nat} {pages : Pages}
    (h : proc.Region fun y => y ∈ proc.buffers ∧ proc.isFree y = true ∧ y ≠ c)
    (hl : proc.buffers = pre ++ prev :: x :: post) (hprev : proc.isFree prev = true)
    (hx : proc.isFree x = true) (hcd : ∀ y, y ≠ c ∧ y ≠ d ↔ y ≠ prev ∧ y ≠ x)
    (hpaged : PagedBy pages proc.used (pre ++ prev :: post)) :
    Region { proc with
      buffers := pre ++ prev :: post, pages, free_buffers := rb.erase d proc.free_buffers } fun y =>
        y ∈ pre ++ prev :: post ∧ proc.isFree y = true ∧ y ≠ prev := by
  have hxout : x ∉ pre ++ prev :: post := not_mem_behind (hl ▸ h.nodup)
  have hmem : ∀ y, y ∈ proc.buffers ↔ y ∈ pre ++ prev :: post ∨ y = x := by
    intro y
    rw [hl]
    exact mem_behind
  have hF : ∀ y, (y ∈ proc.buffers ∧ proc.isFree y = true ∧ y ≠ c) ∧ y ≠ d ↔
      y ∈ pre ++ prev :: post ∧ proc.isFree y = true ∧ y ≠ prev := by
    intro y
    rw [hmem]
    constructor
    · rintro ⟨⟨hy, hfree, hyc⟩, hyd⟩
      obtain ⟨hyprev, hyx⟩ := (hcd y).mp ⟨hyc, hyd⟩
      exact ⟨hy.resolve_right hyx, hfree, hyprev⟩
    · rintro ⟨hy, hfree, hyprev⟩
      obtain ⟨hyc, hyd⟩ := (hcd y).mpr ⟨hyprev, ne_of_mem_of_not_mem hy hxout⟩
      exact ⟨⟨Or.inl hy, hfree, hyc⟩, hyd⟩
  have hregion := (h.setTree (h.trees.free.erase rb d)).without hl hprev hx (fun y hy =>
    (mem_mid.mp ((hF y).mp hy).1).resolve_right ((hF y).mp hy).2.2) hpaged
  exact hregion.setTree (hregion.trees.free.congr hF fun _ _ _ _ hle => hle)

section Merge
variable (rb : Balance Nat) {pre post : List Nat} {b : Nat}
  (h : proc.Region fun x => x ∈ proc.buffers ∧ proc.isFree x = true ∧ x ≠ b)
  (hl : proc.buffers = pre ++ b :: post) (hb : proc.isFree b = true)
include h hl hb

/-- A buffer that has been freed goes into the free tree. -/
theorem Region.insertFreeBuffer :
    ∃ free_buffers, proc.insertFreeBuffer rb b = .ok { proc with free_buffers } ∧
      Region { proc with free_buffers } fun x => x ∈ proc.buffers ∧ proc.isFree x = true := by
  have hmem : b ∈ proc.buffers := hl ▸ List.mem_append_right _ List.mem_cons_self
  obtain ⟨t, hins, hholds⟩ := insertFreeBuffer_ok rb h.headers hmem hb h.trees.free
    (fun _ hx => hx.1) fun hx => hx.2.2 rfl
  refine ⟨t, hins, h.setTree (hholds.congr (fun x => ?_) fun _ _ _ _ hle => hle)⟩
  constructor
  · rintro (⟨hx, hfree, -⟩ | rfl)
    · exact ⟨hx, hfree⟩
    · exact ⟨hmem, hb⟩
  · rintro ⟨hx, hfree⟩
    by_cases hxb : x = b
    · exact Or.inr hxb
    · exact Or.inl ⟨hx, hfree, hxb⟩

/-- Afterwards no free buffer is behind it. -/
theorem Region.mergeNext (hpost : post.IsChain proc.NotBothFree) :
    ∃ post' pages free_buffers,
      proc.mergeNext rb b = .ok { proc with buffers := pre ++ b :: post', pages, free_buffers } ∧
      Region { proc with buffers := pre ++ b :: post', pages, free_buffers }
        (fun x => x ∈ pre ++ b :: post' ∧ proc.isFree x = true ∧ x ≠ b) ∧
      post'.IsChain proc.NotBothFree ∧ (∀ y ∈ post'.head?, proc.isFree y = false) ∧
      ∀ x, proc.isFree x = false → (x ∈ post' ↔ x ∈ post) := by
  have hnodup := h.nodup
  rw [hl] at hnodup
  have hnext : next? b proc.buffers = post.head? := by
    rw [hl, next?_append (not_mem_front hnodup).1]
  have heta : { proc with buffers := pre ++ b :: post } = proc := by
    rw [← hl]
  unfold binder_proc.mergeNext
  rw [hnext]
  cases post with
  | nil =>
    refine ⟨[], proc.pages, proc.free_buffers, ?_, ?_, hpost, ?_, fun _ _ => Iff.rfl⟩
    · rw [heta]
      rfl
    · rw [heta, ← hl]
      exact h
    · intro y hy
      cases hy
  | cons x post =>
    by_cases hx : proc.isFree x = true
    · obtain ⟨hhead, hchain⟩ := List.isChain_cons.mp hpost
      obtain ⟨pages, hdelete, hpaged⟩ :=
        (h.setTree (h.trees.free.erase rb x)).deleteFreeBuffer hl hb hx
      refine ⟨post, pages, rb.erase x proc.free_buffers, ?_, ?_, hchain, ?_, ?_⟩
      · refine (if_pos hx).trans (bind_of_ok (eraseFree_ok rb h.headers x ?_) hdelete)
        exact fun y hy => ((h.trees.free.mem y).mp hy).1
      · exact h.absorb rb hl hb hx (fun _ => Iff.rfl) hpaged
      · intro y hy
        exact Bool.eq_false_iff.mpr fun hfree => hhead y hy ⟨hx, hfree⟩
      · intro y hfree
        rw [List.mem_cons]
        exact ⟨Or.inr, fun hy => hy.resolve_left (ne_of_free hfree hx).symm⟩
    · refine ⟨x :: post, proc.pages, proc.free_buffers, ?_, ?_, hpost, ?_, fun _ _ => Iff.rfl⟩
      · rw [heta]
        exact if_neg hx
      · rw [heta, ← hl]
        exact h
      · intro y hy
        cases hy
        exact Bool.eq_false_iff.mpr hx

/-- A buffer without free neighbours goes into the free tree. -/
theorem Region.enter (hpre : pre.IsChain proc.NotBothFree) (hpost : post.IsChain proc.NotBothFree)
    (hlast : ∀ x ∈ pre.getLast?, proc.isFree x = false)
    (hhead : ∀ y ∈ post.head?, proc.isFree y = false) :
    ∃ free_buffers, proc.insertFreeBuffer rb b = .ok { proc with free_buffers } ∧
      Sound { proc with free_buffers } := by
  obtain ⟨t, hins, hregion⟩ := h.insertFreeBuffer rb hl hb
  refine ⟨t, hins, hregion, ?_⟩
  show proc.buffers.IsChain proc.NotBothFree
  rw [hl]
  refine hpre.append (hpost.cons ?_) ?_
  · intro y hy hboth
    exact ne_of_free (hhead y hy) hboth.2 rfl
  · intro x hx y _ hboth
    exact ne_of_free (hlast x hx) hboth.1 rfl

/-- It is merged into a free buffer in front of it, or goes into the free tree itself. -/
theorem Region.mergePrev (hpre : pre.IsChain proc.NotBothFree)
    (hpost : post.IsChain proc.NotBothFree) (hhead : ∀ y ∈ post.head?, proc.isFree y = false) :
    ∃ buffers pages free_buffers,
      proc.mergePrev rb b = .ok { proc with buffers, pages, free_buffers } ∧
      Sound { proc with buffers, pages, free_buffers } ∧
      ∀ x, proc.isFree x = false → (x ∈ buffers ↔ x ∈ proc.buffers) := by
  have hnodup := h.nodup
  rw [hl] at hnodup
  have hprev : prev? b proc.buffers = pre.getLast? := by
    rw [hl, prev?_append (not_mem_front hnodup).1 (not_mem_front hnodup).2]
  unfold binder_proc.mergePrev
  rw [hprev]
  cases hq : pre.getLast? with
  | none =>
    obtain ⟨t, hins, hsound⟩ := h.enter rb hl hb hpre hpost (fun x hx => by
      rw [hq] at hx
      cases hx) hhead
    exact ⟨proc.buffers, proc.pages, t, hins, hsound, fun _ _ => Iff.rfl⟩
  | some q =>
    by_cases hqfree : proc.isFree q = true
    · obtain ⟨pre, rfl⟩ := List.getLast?_eq_some_iff.mp hq
      have hl' : proc.buffers = pre ++ q :: b :: post := by
        rw [hl, List.append_assoc]
        rfl
      obtain ⟨pages, hdelete, hpaged⟩ := h.deleteFreeBuffer hl' hqfree hb
      have hpending := h.absorb rb hl' hqfree hb (fun _ => and_comm) hpaged
      have hcut : ∀ y, y ∈ proc.buffers ↔ y ∈ pre ++ q :: post ∨ y = b := by
        intro y
        rw [hl']
        exact mem_behind
      obtain ⟨hchain, -, hlast⟩ := List.isChain_append.mp hpre
      obtain ⟨t, hins, hsound⟩ := hpending.enter rb rfl hqfree hchain hpost
        (fun x hx => Bool.eq_false_iff.mpr fun hfree => hlast x hx q rfl ⟨hfree, hqfree⟩) hhead
      refine ⟨pre ++ q :: post, pages, t, ?_, hsound, ?_⟩
      · refine (if_pos hqfree).trans (bind_of_ok hdelete ?_)
        refine bind_of_ok (eraseFree_ok rb (by exact hpending.headers) q fun y hy => ?_) hins
        obtain ⟨hy, -, hyb⟩ := (h.trees.free.mem y).mp hy
        exact ((hcut y).mp hy).resolve_right hyb
      · intro y hfree
        rw [hcut]
        exact ⟨Or.inl, fun hy => hy.resolve_right (ne_of_free hfree hb).symm⟩
    · obtain ⟨t, hins, hsound⟩ := h.enter rb hl hb hpre hpost (fun x hx => by
        rw [hq] at hx
        cases hx
        exact Bool.eq_false_iff.mpr hqfree) hhead
      exact ⟨proc.buffers, proc.pages, t, (if_neg hqfree).trans hins, hsound, fun _ _ => Iff.rfl⟩

end Merge

/-- Where nothing wraps, the size of a request is that of both areas. -/
theorem requestSize_eq {data_size offsets_size size : Nat}
    (h : requestSize data_size offsets_size = some size) (hsmall : size ≤ SZ_4M) :
    data_size ≤ size ∧ offsets_size ≤ size ∧
      size = (data_size + 7) / 8 * 8 + (offsets_size + 7) / 8 * 8 := by
  unfold requestSize ALIGN sizeof_pointer at h
  unfold SZ_4M at hsmall
  dsimp only at h
  split at h
  · cases h
  · next hvalid =>
    injection h with hsize
    omega

/-- The size that is computed when a buffer is freed is not that of the request: it is
aligned to the pointers of the process. -/
theorem freedSize_eq {h : binder_buffer} (hdata : h.data_size ≤ SZ_4M)
    (hoffsets : h.offsets_size ≤ SZ_4M) :
    freedSize h = (h.data_size + 3) / 4 * 4 + (h.offsets_size + 3) / 4 * 4 := by
  unfold freedSize ALIGN sizeof_binder_ptr
  unfold SZ_4M at hdata hoffsets
  omega

/-- The account has nothing to do with the region. -/
theorem Sound.setAsync (h : proc.Sound) (free_async_space : Nat) :
    Sound { proc with free_async_space } :=
  ⟨⟨h.region.bound_whole, h.region.size_le, h.region.tiles,
    ⟨h.region.trees.free, h.region.trees.allocated⟩, h.region.fits, h.region.paged⟩, h.apart⟩

/-- What becomes of the region when the buffer `b` is freed. -/
structure Freed (proc proc' : binder_proc) (b : Nat) : Prop where
  sound : proc'.Sound
  live : ∀ x, proc'.Live x ↔ proc.Live x ∧ x ≠ b
  same : ∀ x, proc'.Live x → proc'.header x = proc.header x
  buffer : proc'.buffer = proc.buffer
  bound : proc'.bound = proc.bound

section Free
variable (h : proc.Sound) {b : Nat} (hb : proc.Live b)
include h hb

/-- The pages that only the data was on are freed. -/
theorem Sound.freePages :
    ∃ pages, freeRange proc.pages (pageAlign (data b)) (pageMask (data b + proc.bufferSize b)) =
        .ok pages ∧
      PagedBy pages (fun x => if x = b then data b else proc.used x) proc.buffers := by
  obtain ⟨hmem, hlive⟩ := hb
  obtain ⟨pre, post, hl⟩ := List.append_of_mem hmem
  obtain ⟨hpre, hlong, hpost, hu⟩ := h.region.around hl
  have hpaged := h.region.paged
  have hnotb : ∀ x ∈ pre ++ post, x ≠ b := fun x => ne_of_mem (hl ▸ h.region.nodup)
  have hused : proc.used b = endOf proc.bound proc.buffers b := by
    unfold used
    rw [hlive]
    rfl
  rw [h.region.size_add hmem]
  generalize endOf proc.bound proc.buffers b = last at *
  rw [hl] at hpaged
  have hwhole : pageAlign (data b) % PAGE_SIZE = 0 ∧ pageMask last % PAGE_SIZE = 0 := by
    unfold pageAlign pageMask PAGE_SIZE
    omega
  refine ⟨_, freeRange_eq hwhole.1 hwhole.2 fun q hq hlo hlt => hpaged.there hused hq hlo hlt, ?_⟩
  rw [hl]
  exact PagedBy.of_iff
    (hpaged.clear hused hpost hpre hu h.region.bound_whole hlong)
    (fun y hy => (if_neg (hnotb y hy)).symm) (if_pos rfl)

/-- Off the allocated tree, and not yet in the free one. -/
theorem Sound.leave (rb : Balance Nat) {pages : Pages}
    (hpaged : PagedBy pages (fun x => if x = b then data b else proc.used x) proc.buffers) :
    let q := setHeader
      { proc with pages, allocated_buffers := rb.erase b proc.allocated_buffers } b fun h =>
        { h with free := true }
    q.isFree b = true ∧ q.Region fun x => x ∈ q.buffers ∧ q.isFree x = true ∧ x ≠ b := by
  intro q
  obtain ⟨hmem, hlive⟩ := hb
  have hq : ∀ x, q.isFree x = if x = b then true else proc.isFree x := isFree_setHeader _ b _
  have hqb : q.isFree b = true := (hq b).trans (if_pos rfl)
  have hother : ∀ x, x ≠ b → q.isFree x = proc.isFree x := fun x hx => (hq x).trans (if_neg hx)
  refine ⟨hqb, h.region.bound_whole, h.region.size_le, h.region.tiles, ⟨?_, ?_⟩, ?_, ?_⟩
  · refine h.region.trees.free.congr (fun x => ?_) fun _ _ _ _ hle => hle
    constructor
    · rintro ⟨hx, hfree⟩
      have hxb : x ≠ b := ne_of_free hlive hfree
      exact ⟨hx, (hother x hxb).trans hfree, hxb⟩
    · rintro ⟨hx, hfree, hxb⟩
      exact ⟨hx, (hother x hxb).symm.trans hfree⟩
  · refine (h.region.trees.allocated.erase rb b).congr (fun x => ?_) fun _ _ _ _ hlt => hlt
    constructor
    · rintro ⟨⟨hx, hfree⟩, hxb⟩
      exact ⟨hx, (hother x hxb).trans hfree⟩
    · rintro ⟨hx, hfree⟩
      have hxb : x ≠ b := (ne_of_free hfree hqb).symm
      exact ⟨⟨hx, (hother x hxb).symm.trans hfree⟩, hxb⟩
  · intro x hx hfree
    have hxb : x ≠ b := (ne_of_free hfree hqb).symm
    have hheader : q.header x = proc.header x := if_neg hxb
    rw [hheader]
    exact h.region.fits x hx ((hother x hxb).symm.trans hfree)
  · refine hpaged.congr fun x _ => ?_
    unfold used
    rw [hq]
    by_cases hxb : x = b
    · rw [if_pos hxb, if_pos hxb, hxb]
      rfl
    · rw [if_neg hxb, if_neg hxb]
      rfl

/-- What `binder_free_buf` does once it has checked the buffer. -/
theorem Sound.release (rb : Balance Nat) :
    ∃ pages q₁ q₂ q₃ proc',
      freeRange proc.pages (pageAlign (data b)) (pageMask (data b + proc.bufferSize b)) =
        .ok pages ∧
      binder_proc.eraseAllocated rb { proc with pages } b = .ok q₁ ∧ q₁.setFree b true = .ok q₂ ∧
      q₂.mergeNext rb b = .ok q₃ ∧ q₃.mergePrev rb b = .ok proc' ∧ Freed proc proc' b ∧
      proc'.free_async_space = proc.free_async_space := by
  obtain ⟨pages, hrange, hpaged⟩ := h.freePages hb
  have hheaders : Headers pages proc.buffers := fun x hx => by
    refine hpaged.header (fun y hy => ?_) hx
    split
    · next hyb => exact Nat.le_of_eq (congrArg data hyb)
    · exact (h.region.used_bounds hy).1
  have herase : eraseAllocated rb { proc with pages } b =
      .ok { proc with pages, allocated_buffers := rb.erase b proc.allocated_buffers } :=
    eraseAllocated_ok rb hheaders b fun x hx => ((h.region.trees.allocated.mem x).mp hx).1
  have hset : setFree { proc with
      pages, allocated_buffers := rb.erase b proc.allocated_buffers } b true = .ok _ :=
    setFree_ok hheaders hb.1 true
  obtain ⟨hqb, hq⟩ := h.leave hb rb hpaged
  generalize hqdef : setHeader
    { proc with pages, allocated_buffers := rb.erase b proc.allocated_buffers } b (fun h =>
      { h with free := true }) = q at *
  have hqheader : ∀ x, x ≠ b → q.header x = proc.header x := by
    subst hqdef
    exact fun x hx => if_neg hx
  have hqbuffers : q.buffers = proc.buffers := by
    subst hqdef
    rfl
  have hqbound : q.bound = proc.bound := by
    subst hqdef
    rfl
  have hqbuffer : q.buffer = proc.buffer := by
    subst hqdef
    rfl
  have hqasync : q.free_async_space = proc.free_async_space := by
    subst hqdef
    rfl
  have hother : ∀ x, x ≠ b → q.isFree x = proc.isFree x := fun x hx =>
    congrArg binder_buffer.free (hqheader x hx)
  obtain ⟨pre, post, hl⟩ := List.append_of_mem hb.1
  obtain ⟨hbpre, hbpost⟩ := not_mem_front (hl ▸ h.region.nodup)
  obtain ⟨hpre, htail, -⟩ := List.isChain_append.mp (hl ▸ h.apart)
  have hpost := (List.isChain_cons.mp htail).2
  have hpre' := chain_congr hpre fun x hx => hother x (ne_of_mem_of_not_mem hx hbpre)
  have hpost' := chain_congr hpost fun x hx => hother x (ne_of_mem_of_not_mem hx hbpost)
  have hlq : q.buffers = pre ++ b :: post := hqbuffers.trans hl
  obtain ⟨post', pages', t, hmerge, hregion, hchain, hhead, hmem⟩ :=
    hq.mergeNext rb hlq hqb hpost'
  obtain ⟨buffers, pages'', t', hmerge', hsound, hmem'⟩ :=
    hregion.mergePrev rb rfl hqb hpre' hchain hhead
  have hlive : ∀ x, q.isFree x = false → (x ∈ buffers ↔ x ∈ proc.buffers) := by
    intro x hfree
    rw [hmem' x hfree, hl]
    show x ∈ pre ++ b :: post' ↔ _
    rw [List.mem_append, List.mem_append, List.mem_cons, List.mem_cons, hmem x hfree]
  have hnotb : ∀ x, q.isFree x = false → x ≠ b := fun x hfree => (ne_of_free hfree hqb).symm
  refine ⟨pages, _, q, _, _, hrange, herase, hset, hmerge, hmerge',
    ⟨hsound, ?_, ?_, hqbuffer, hqbound⟩, hqasync⟩
  · intro x
    constructor
    · rintro ⟨hx, hfree⟩
      exact ⟨⟨(hlive x hfree).mp hx, (hother x (hnotb x hfree)).symm.trans hfree⟩, hnotb x hfree⟩
    · rintro ⟨⟨hx, hfree⟩, hxb⟩
      have hfree' := (hother x hxb).trans hfree
      exact ⟨(hlive x hfree').mpr hx, hfree'⟩
  · rintro x ⟨-, hfree⟩
    exact hqheader x (hnotb x hfree)

/-- **Freeing.** An allocated buffer becomes free, and nothing goes wrong. -/
theorem Sound.freeBuf (rb : Balance Nat) :
    ∃ proc', proc.freeBuf rb b = .ok proc' ∧ Freed proc proc' b ∧
      proc'.free_async_space = if (proc.header b).async_transaction then
        proc.free_async_space + (freedSize (proc.header b) + sizeof_binder_buffer)
      else proc.free_async_space := by
  have hassert : ¬(proc.isFree b = true ∨ proc.bufferSize b < freedSize (proc.header b) ∨
      b < proc.buffer ∨ proc.bound < b) := by
    obtain ⟨hmem, hlive⟩ := hb
    have hle := h.region.bufferSize_le hmem
    have hsmall := h.region.size_le
    have hin := h.region.tiles.mem_le hmem
    obtain ⟨size, hrequest, hfits⟩ := h.region.fits b hmem hlive
    obtain ⟨hdata, hoffsets, hsize⟩ := requestSize_eq hrequest (by omega)
    rw [hlive, freedSize_eq (by omega) (by omega)]
    simp only [Bool.false_eq_true, false_or]
    omega
  unfold binder_proc.freeBuf
  cases hasync : (proc.header b).async_transaction with
  | false =>
    obtain ⟨pages, q₁, q₂, q₃, proc', hrange, herase, hset, hmerge, hmerge', hfreed, hsame⟩ :=
      h.release hb rb
    refine ⟨proc', (if_neg hassert).trans ?_, hfreed, hsame⟩
    exact bind_of_ok hrange (bind_of_ok herase (bind_of_ok hset (bind_of_ok hmerge hmerge')))
  | true =>
    obtain ⟨pages, q₁, q₂, q₃, proc', hrange, herase, hset, hmerge, hmerge', hfreed, hsame⟩ :=
      (h.setAsync (proc.free_async_space +
        (freedSize (proc.header b) + sizeof_binder_buffer))).release hb rb
    refine ⟨proc', (if_neg hassert).trans ?_,
      ⟨hfreed.sound, hfreed.live, hfreed.same, hfreed.buffer, hfreed.bound⟩, hsame⟩
    exact bind_of_ok hrange (bind_of_ok herase (bind_of_ok hset (bind_of_ok hmerge hmerge')))

end Free

end Cdroid.Driver.binder_proc
