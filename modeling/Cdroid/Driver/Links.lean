import Cdroid.Driver.Pages
import Mathlib.Tactic.Tauto

/-! The lists and trees of the buffers: what each operation leaves when the headers that it
writes are on pages that are there. -/

namespace Cdroid.Driver.binder_proc
open Cdroid.Lib.SearchTree Cdroid.Lib.Tiling

variable (rb : Balance Nat) {proc : binder_proc}

/-! ## Sizes -/

theorem bufferSize_eq (proc : binder_proc) (b : Nat) :
    proc.bufferSize b = endOf proc.bound proc.buffers b - data b := by
  unfold bufferSize endOf
  cases next? b proc.buffers with
  | none => rfl
  | some n => rfl

/-- Where the use of a buffer ends: a free one has only its header. -/
def used (proc : binder_proc) (b : Nat) : Nat :=
  if proc.isFree b then data b else endOf proc.bound proc.buffers b

/-! ## Headers -/

/-- A step that is taken, and then the others. -/
theorem bind_of_ok {α β : Type} {x : Except Bug α} {a : α} {f : α → Except Bug β}
    {r : Except Bug β} (hx : x = .ok a) (hf : f a = r) : (x >>= f) = r := by
  rw [hx]
  exact hf

/-- The headers of the buffers are on pages that are there. -/
def Headers (pages : Pages) (l : List Nat) : Prop :=
  ∀ b ∈ l, pages (buffer_start_page b) = true ∧ pages (buffer_end_page b) = true

section Steps
variable {l : List Nat} (h : Headers proc.pages l)
include h

theorem touch_ok {bs : List Nat} (hbs : ∀ b ∈ bs, b ∈ l) : proc.touch bs = .ok () := by
  unfold touch
  rw [if_pos]
  rw [List.all_eq_true]
  intro b hb
  rw [Bool.and_eq_true]
  exact h b (hbs b hb)

theorem setFree_ok {b : Nat} (hb : b ∈ l) (free : Bool) :
    proc.setFree b free = .ok (proc.setHeader b fun h => { h with free }) := by
  unfold setFree
  rw [touch_ok h fun x hx => List.mem_singleton.mp hx ▸ hb]
  rfl

theorem eraseFree_ok (b : Nat) (hmem : ∀ x ∈ proc.free_buffers.inorder, x ∈ l) :
    proc.eraseFree rb b = .ok { proc with free_buffers := rb.erase b proc.free_buffers } := by
  unfold eraseFree
  rw [touch_ok h hmem]
  rfl

theorem eraseAllocated_ok (b : Nat) (hmem : ∀ x ∈ proc.allocated_buffers.inorder, x ∈ l) :
    proc.eraseAllocated rb b =
      .ok { proc with allocated_buffers := rb.erase b proc.allocated_buffers } := by
  unfold eraseAllocated
  rw [touch_ok h hmem]
  rfl

/-- A free buffer that is not in the tree yet is entered by its size. -/
theorem insertFreeBuffer_ok {S : Nat → Prop} {b : Nat} (hb : b ∈ l) (hfree : proc.isFree b = true)
    (ht : Holds (fun x y => proc.bufferSize x ≤ proc.bufferSize y) proc.free_buffers S)
    (hS : ∀ x, S x → x ∈ l) (hnew : ¬ S b) :
    ∃ t, proc.insertFreeBuffer rb b = .ok { proc with free_buffers := t } ∧
      Holds (fun x y => proc.bufferSize x ≤ proc.bufferSize y) t fun x => S x ∨ x = b := by
  obtain ⟨t, ht', hholds⟩ := ht.insert
    (fun x => if proc.bufferSize b < proc.bufferSize x then .lt else .gt) b
    (fun _ _ _ => Nat.le_trans) hnew
    (fun x _ => by split <;> exact Ordering.noConfusion)
    (fun x _ hlt => by
      split at hlt
      · next hle => exact Nat.le_of_lt hle
      · cases hlt)
    (fun x _ hgt => by
      split at hgt
      · cases hgt
      · next hle => exact Nat.le_of_not_lt hle)
  refine ⟨rb.insertColor t, ?_, hholds.insertColor rb⟩
  have hmem : ∀ x ∈ b :: proc.free_buffers.inorder, x ∈ l := by
    intro x hx
    rcases List.mem_cons.mp hx with rfl | hx
    · exact hb
    · exact hS x ((ht.mem x).mp hx)
  unfold insertFreeBuffer
  rw [hfree, touch_ok h hmem, ht']
  rfl

theorem insertAllocatedBuffer_ok {S : Nat → Prop} {b : Nat} (hb : b ∈ l)
    (hfree : proc.isFree b = false) (ht : Holds (· < ·) proc.allocated_buffers S)
    (hS : ∀ x, S x → x ∈ l) (hnew : ¬ S b) :
    ∃ t, proc.insertAllocatedBuffer rb b = .ok { proc with allocated_buffers := t } ∧
      Holds (· < ·) t fun x => S x ∨ x = b := by
  obtain ⟨t, ht', hholds⟩ := ht.insert (fun x => compare b x) b
    (fun _ _ _ => Nat.lt_trans) hnew
    (fun x hx heq => hnew (Nat.compare_eq_eq.mp heq ▸ hx))
    (fun x _ hlt => Nat.compare_eq_lt.mp hlt) (fun x _ hgt => Nat.compare_eq_gt.mp hgt)
  refine ⟨rb.insertColor t, ?_, hholds.insertColor rb⟩
  have hmem : ∀ x ∈ b :: proc.allocated_buffers.inorder, x ∈ l := by
    intro x hx
    rcases List.mem_cons.mp hx with rfl | hx
    · exact hb
    · exact hS x ((ht.mem x).mp hx)
  unfold insertAllocatedBuffer
  rw [hfree, touch_ok h hmem, ht']
  rfl

variable {pre post : List Nat} {b : Nat}

theorem listAdd_ok (new : Nat) (hl : proc.buffers = pre ++ b :: post) (hb : b ∉ pre)
    (hmem : ∀ x ∈ b :: new :: post, x ∈ l) :
    proc.listAdd new b = .ok { proc with buffers := pre ++ b :: new :: post } := by
  unfold listAdd
  rw [hl, next?_append hb, insertAfter_append new hb, touch_ok h]
  · rfl
  · intro x hx
    simp only [List.mem_cons, Option.mem_toList] at hx
    simp only [List.mem_cons] at hmem
    rcases hx with hx | hx | hx
    · exact hmem x (Or.inr (Or.inl hx))
    · exact hmem x (Or.inl hx)
    · exact hmem x (Or.inr (Or.inr (List.mem_of_mem_head? hx)))

theorem listDel_ok (hl : proc.buffers = pre ++ b :: post) (hnodup : (pre ++ b :: post).Nodup)
    (hmem : ∀ x ∈ pre ++ b :: post, x ∈ l) :
    proc.listDel b = .ok { proc with buffers := pre ++ post } := by
  obtain ⟨hpre, hpost⟩ := not_mem_front hnodup
  unfold listDel
  rw [hl, next?_append hpre, prev?_append hpre hpost, erase_append hpre, touch_ok h]
  · rfl
  · intro x hx
    simp only [List.mem_append, List.mem_cons, Option.mem_toList] at hx
    simp only [List.mem_append, List.mem_cons] at hmem
    rcases hx with hx | hx | hx
    · exact hmem x (Or.inl (List.mem_of_getLast? hx))
    · exact hmem x (Or.inr (Or.inl hx))
    · exact hmem x (Or.inr (Or.inr (List.mem_of_mem_head? hx)))

end Steps

/-! ## Trees -/

theorem isFree_setHeader (proc : binder_proc) (b : Nat) (f : binder_buffer → binder_buffer)
    (x : Nat) :
    (proc.setHeader b f).isFree x = if x = b then (f (proc.header x)).free else proc.isFree x := by
  unfold isFree setHeader
  dsimp only
  split
  · rfl
  · rfl

theorem ne_of_free {x y : Nat} (hx : proc.isFree x = false) (hy : proc.isFree y = true) :
    y ≠ x := by
  intro hyx
  rw [hyx, hx] at hy
  cases hy

/-- The free tree has `F` by size, the allocated tree has the buffers that are not free by
address. -/
structure Trees (proc : binder_proc) (F : Nat → Prop) : Prop where
  free : Holds (fun x y => proc.bufferSize x ≤ proc.bufferSize y) proc.free_buffers F
  allocated : Holds (· < ·) proc.allocated_buffers fun x =>
    x ∈ proc.buffers ∧ proc.isFree x = false

section Take
variable {l pre post : List Nat} {b : Nat} (h : Headers proc.pages l)
  (ht : proc.Trees fun x => x ∈ proc.buffers ∧ proc.isFree x = true)
include h ht

/-- The buffer that is cut off goes into the free tree. -/
theorem splitBuffer_ok {new : Nat} (hl : proc.buffers = pre ++ b :: post)
    (hnodup : (pre ++ b :: new :: post).Nodup) (hb : proc.isFree b = false)
    (hmem : ∀ x ∈ pre ++ b :: new :: post, x ∈ l) :
    let header := fun x => if x = new then { proc.header x with free := true } else proc.header x
    ∃ t, proc.splitBuffer rb b new =
        .ok { proc with buffers := pre ++ b :: new :: post, header, free_buffers := t } ∧
      Trees { proc with buffers := pre ++ b :: new :: post, header, free_buffers := t } fun x =>
        x ∈ pre ++ b :: new :: post ∧ (header x).free = true := by
  intro header
  have hbpre : b ∉ pre := (not_mem_front hnodup).1
  have hnew : new ∉ proc.buffers := hl ▸ not_mem_behind hnodup
  have hold : ∀ x ∈ proc.buffers, x ≠ new := fun x hx => ne_of_mem_of_not_mem hx hnew
  have hbuffers : ∀ x, x ∈ pre ++ b :: new :: post ↔ x ∈ proc.buffers ∨ x = new := by
    intro x
    rw [hl]
    exact mem_behind
  have hheader : ∀ x ∈ proc.buffers, header x = proc.header x := fun x hx => if_neg (hold x hx)
  let q : binder_proc := { proc with buffers := pre ++ b :: new :: post, header }
  have hsize : ∀ x, x ∈ proc.buffers → proc.isFree x = true →
      q.bufferSize x = proc.bufferSize x := by
    intro x hx hfree
    have hx' : x ∈ pre ++ post := (mem_mid.mp (hl ▸ hx)).resolve_right (ne_of_free hb hfree)
    rw [bufferSize_eq, bufferSize_eq, hl]
    exact congrArg (· - data x) (endOf_insert hnodup hx')
  have hq : Holds (fun x y => q.bufferSize x ≤ q.bufferSize y) q.free_buffers fun x =>
      x ∈ proc.buffers ∧ proc.isFree x = true := by
    refine ht.free.congr (fun _ => Iff.rfl) ?_
    intro x y hx hy hle
    rw [hsize x hx.1 hx.2, hsize y hy.1 hy.2]
    exact hle
  have hfree : q.isFree new = true :=
    congrArg binder_buffer.free (if_pos rfl : header new = { proc.header new with free := true })
  have hnewl : new ∈ l := hmem new ((hbuffers new).mpr (Or.inr rfl))
  obtain ⟨t, hins, hholds⟩ := insertFreeBuffer_ok rb (show Headers q.pages l from h) hnewl hfree hq
    (fun x hx => hmem x ((hbuffers x).mpr (Or.inl hx.1))) (fun hx => hnew hx.1)
  refine ⟨t, ?_, ?_, ?_⟩
  · unfold splitBuffer
    rw [listAdd_ok h new hl hbpre fun x hx => hmem x (List.mem_append_right _ hx)]
    show (setFree _ new true >>= fun p => insertFreeBuffer rb p new) = _
    rw [setFree_ok (by exact h) hnewl]
    exact hins
  · refine hholds.congr ?_ fun _ _ _ _ hle => hle
    intro x
    rw [hbuffers]
    constructor
    · rintro (⟨hx, hfx⟩ | rfl)
      · exact ⟨Or.inl hx, (congrArg binder_buffer.free (hheader x hx)).trans hfx⟩
      · exact ⟨Or.inr rfl, hfree⟩
    · rintro ⟨hx | hx, hfx⟩
      · exact Or.inl ⟨hx, (congrArg binder_buffer.free (hheader x hx)).symm.trans hfx⟩
      · exact Or.inr hx
  · refine ht.allocated.congr ?_ fun _ _ _ _ hlt => hlt
    intro x
    show _ ↔ x ∈ pre ++ b :: new :: post ∧ (header x).free = false
    rw [hbuffers]
    constructor
    · rintro ⟨hx, hfx⟩
      exact ⟨Or.inl hx, (congrArg binder_buffer.free (hheader x hx)).trans hfx⟩
    · rintro ⟨hx | rfl, hfx⟩
      · exact ⟨hx, (congrArg binder_buffer.free (hheader x hx)).symm.trans hfx⟩
      · exact absurd rfl (ne_of_free (show q.isFree _ = false from hfx) hfree)

/-- A buffer that was free changes the tree. -/
theorem enterAllocated_ok (hb : b ∈ proc.buffers) (hfree : proc.isFree b = true)
    (hmem : ∀ x ∈ proc.buffers, x ∈ l) :
    let q := setHeader { proc with free_buffers := rb.erase b proc.free_buffers } b fun h =>
      { h with free := false }
    q.isFree b = false ∧ ∃ a, q.insertAllocatedBuffer rb b = .ok { q with allocated_buffers := a } ∧
      Trees { q with allocated_buffers := a } fun x => x ∈ q.buffers ∧ q.isFree x = true := by
  intro q
  have hq : ∀ x, q.isFree x = if x = b then false else proc.isFree x := isFree_setHeader _ b _
  have hnot : q.isFree b = false := (hq b).trans (if_pos rfl)
  obtain ⟨a, hins, hholds⟩ := insertAllocatedBuffer_ok rb (show Headers q.pages l from h)
    (hmem b hb) hnot ht.allocated (fun x hx => hmem x hx.1)
    fun hx => absurd (hfree.symm.trans hx.2) Bool.noConfusion
  refine ⟨hnot, a, hins, ?_, ?_⟩
  · refine (ht.free.erase rb b).congr ?_ fun _ _ _ _ hle => hle
    intro x
    rw [hq]
    split
    · next hx => tauto
    · next hx => exact ⟨And.left, fun hmem => ⟨hmem, hx⟩⟩
  · refine hholds.congr ?_ fun _ _ _ _ hlt => hlt
    intro x
    show _ ↔ x ∈ proc.buffers ∧ q.isFree x = false
    rw [hq]
    split
    · next hx => exact ⟨fun _ => ⟨hx ▸ hb, rfl⟩, fun _ => Or.inr hx⟩
    · next hx => exact ⟨fun hmem => hmem.resolve_right hx, Or.inl⟩

omit h in
/-- The other fields of a header do not matter. -/
theorem Trees.setHeader (b : Nat) {f : binder_buffer → binder_buffer}
    (hf : ∀ h, (f h).free = h.free) :
    (proc.setHeader b f).Trees fun x =>
      x ∈ proc.buffers ∧ (proc.setHeader b f).isFree x = true := by
  have hsame : ∀ x, (proc.setHeader b f).isFree x = proc.isFree x := by
    intro x
    rw [isFree_setHeader]
    split
    · exact hf _
    · rfl
  refine ⟨ht.free.congr (fun x => ?_) fun _ _ _ _ hle => hle,
    ht.allocated.congr (fun x => ?_) fun _ _ _ _ hlt => hlt⟩
  · rw [hsame]
  · rw [hsame]
    rfl

/-- The whole buffer is taken. -/
theorem takeBuffer_whole (hb : b ∈ proc.buffers) (hfree : proc.isFree b = true)
    (hmem : ∀ x ∈ proc.buffers, x ∈ l) (size data_size offsets_size : Nat) (is_async : Bool) :
    let free_async_space := if is_async then
      proc.free_async_space - (size + sizeof_binder_buffer) else proc.free_async_space
    ∃ header free_buffers allocated_buffers,
      proc.takeBuffer rb b size size data_size offsets_size is_async =
        .ok { proc with header, free_buffers, allocated_buffers, free_async_space } ∧
      Trees { proc with header, free_buffers, allocated_buffers, free_async_space } (fun x =>
        x ∈ proc.buffers ∧ (header x).free = true) ∧
      header b = ⟨false, is_async, data_size, offsets_size⟩ ∧
      ∀ x, x ≠ b → header x = proc.header x := by
  intro free_async_space
  obtain ⟨-, a, hins, htrees⟩ := enterAllocated_ok rb h ht hb hfree hmem
  have hdone := htrees.setHeader b (f := fun h =>
    { h with data_size, offsets_size, async_transaction := is_async }) fun _ => rfl
  refine ⟨_, _, a, ?_, ⟨hdone.free, hdone.allocated⟩, ?_, ?_⟩
  · unfold takeBuffer
    refine bind_of_ok (eraseFree_ok rb h b fun x hx => hmem x ((ht.free.mem x).mp hx).1) ?_
    refine bind_of_ok (setFree_ok (by exact h) (hmem b hb) false) ?_
    refine bind_of_ok hins ?_
    refine (if_neg (not_not_intro rfl)).trans ?_
    refine bind_of_ok rfl ?_
    refine bind_of_ok (touch_ok (by exact h) fun x hx => List.mem_singleton.mp hx ▸ hmem b hb) ?_
    cases is_async <;> rfl
  · unfold setHeader
    dsimp only
    rw [if_pos rfl, if_pos rfl]
  · intro x hx
    unfold setHeader
    dsimp only
    rw [if_neg hx, if_neg hx]

/-- The buffer is split, and its first part is taken. -/
theorem takeBuffer_split {size buffer_size : Nat} (hl : proc.buffers = pre ++ b :: post)
    (hfree : proc.isFree b = true) (hne : buffer_size ≠ size)
    (hnodup : (pre ++ b :: (data b + size) :: post).Nodup)
    (hmem : ∀ x ∈ pre ++ b :: (data b + size) :: post, x ∈ l) (data_size offsets_size : Nat)
    (is_async : Bool) :
    let buffers := pre ++ b :: (data b + size) :: post
    let free_async_space := if is_async then
      proc.free_async_space - (size + sizeof_binder_buffer) else proc.free_async_space
    ∃ header free_buffers allocated_buffers,
      proc.takeBuffer rb b size buffer_size data_size offsets_size is_async =
        .ok { proc with buffers, header, free_buffers, allocated_buffers, free_async_space } ∧
      Trees { proc with buffers, header, free_buffers, allocated_buffers, free_async_space }
        (fun x => x ∈ buffers ∧ (header x).free = true) ∧
      header b = ⟨false, is_async, data_size, offsets_size⟩ ∧
      (header (data b + size)).free = true ∧
      ∀ x, x ≠ b → x ≠ data b + size → header x = proc.header x := by
  intro buffers free_async_space
  have hb : b ∈ proc.buffers := hl ▸ List.mem_append_right _ List.mem_cons_self
  have hbl : b ∈ l := hmem b (List.mem_append_right _ List.mem_cons_self)
  have hold : ∀ x ∈ proc.buffers, x ∈ l := fun x hx =>
    hmem x (mem_behind.mpr (Or.inl (hl ▸ hx)))
  have hnb : data b + size ≠ b := by
    unfold data sizeof_binder_buffer
    omega
  obtain ⟨hnot, a, hins, htrees⟩ := enterAllocated_ok rb h ht hb hfree hold
  obtain ⟨t, hsplit, hsplitted⟩ := splitBuffer_ok rb (by exact h) htrees hl hnodup hnot hmem
  have hdone := hsplitted.setHeader b (f := fun h =>
    { h with data_size, offsets_size, async_transaction := is_async }) fun _ => rfl
  refine ⟨_, t, a, ?_, ⟨hdone.free, hdone.allocated⟩, ?_, ?_, ?_⟩
  · unfold takeBuffer
    refine bind_of_ok (eraseFree_ok rb h b fun x hx => hold x ((ht.free.mem x).mp hx).1) ?_
    refine bind_of_ok (setFree_ok (by exact h) hbl false) ?_
    refine bind_of_ok hins ?_
    refine (if_pos hne).trans ?_
    refine bind_of_ok hsplit ?_
    refine bind_of_ok (touch_ok (by exact h) fun x hx => List.mem_singleton.mp hx ▸ hbl) ?_
    cases is_async <;> rfl
  · unfold setHeader
    dsimp only
    rw [if_pos rfl, if_neg (Ne.symm hnb), if_pos rfl]
  · unfold setHeader
    dsimp only
    rw [if_neg hnb, if_pos rfl]
  · intro x hx hnew
    unfold setHeader
    dsimp only
    rw [if_neg hx, if_neg hnew, if_neg hx]

end Take

/-! ## A buffer that goes -/

/-- The buffer is off the list, and the pages that only its header was on are freed. -/
theorem deleteFreeBuffer_ok {pre post : List Nat} {prev x : Nat} {used : Nat → Nat}
    (hl : proc.buffers = pre ++ prev :: x :: post) (hfree : proc.isFree prev = true)
    (ht : Tiles sizeof_binder_buffer proc.bound proc.buffer proc.buffers)
    (hp : PagedBy proc.pages used proc.buffers)
    (hu : ∀ y ∈ proc.buffers, data y ≤ used y ∧ used y ≤ endOf proc.bound proc.buffers y)
    (hprev : used prev = data prev) (hx : used x = data x) :
    ∃ pages, proc.deleteFreeBuffer x =
        .ok { proc with buffers := pre ++ prev :: post, pages } ∧
      PagedBy pages used (pre ++ prev :: post) := by
  have hnodup : (pre ++ [prev] ++ x :: post).Nodup := by
    rw [← List.append_cons, ← hl]
    exact ht.nodup (by decide)
  obtain ⟨hxpre, hxpost⟩ := not_mem_front hnodup
  rw [hl] at ht hp hu
  have hpre : ∀ y ∈ pre, used y ≤ prev := fun y hy =>
    Nat.le_trans (hu y (List.mem_append_left _ hy)).2 (ht.endOf_le (by decide) hy)
  obtain ⟨-, hle, htail⟩ := ht.split
  obtain ⟨-, hxt, hpost⟩ := Tiles.split (show Tiles _ _ _ ([] ++ x :: post) from htail)
  have hdel := hp.delete hprev hx hpre hle hxt hpost fun y hy =>
    (hu y (List.mem_append_right _ (List.mem_cons_of_mem _ (List.mem_cons_of_mem _ hy)))).1
  have hheaders : Headers proc.pages (pre ++ prev :: x :: post) := fun y hy =>
    hp.header (fun y hy => (hu y hy).1) hy
  have hlast : prev? x proc.buffers = some prev := by
    rw [hl, List.append_cons, prev?_append hxpre hxpost, List.getLast?_concat]
  have hnext : next? x proc.buffers = post.head? := by
    rw [hl, List.append_cons, next?_append hxpre]
  have hdelete : proc.listDel x = .ok { proc with buffers := pre ++ prev :: post } := by
    rw [List.append_cons] at hl ⊢
    exact listDel_ok hheaders hl hnodup fun y hy => by rwa [List.append_cons]
  unfold deleteFreeBuffer
  rw [hlast, hnext]
  dsimp only
  rw [hfree]
  generalize headerPages prev x post.head? = flags at *
  obtain ⟨free_page_start, free_page_end⟩ := flags
  obtain ⟨pages, hpages, hpaged⟩ := hdel
  refine ⟨pages, ?_, hpaged⟩
  refine bind_of_ok hdelete ?_
  dsimp only at hpages ⊢
  split
  · next hsome =>
    rw [if_pos hsome] at hpages
    exact bind_of_ok hpages rfl
  · next hnone =>
    rw [if_neg hnone] at hpages
    cases hpages
    rfl

end Cdroid.Driver.binder_proc
