import Cdroid.Driver.Allocator

/-! The space for asynchronous transactions: what is charged when a buffer is allocated, and
what is given back when it is freed. -/

namespace Cdroid.Driver
open Cdroid.Lib.SearchTree Cdroid.Lib.Runs
open binder_proc (requestSize freedSize)

variable {rb : Balance Nat} {vma : Vma} {proc proc' : binder_proc}

/-- What an asynchronous buffer is charged. -/
def charge (h : binder_buffer) : Nat :=
  if h.async_transaction then
    (requestSize h.data_size h.offsets_size).getD 0 + sizeof_binder_buffer
  else 0

/-- What is charged to the buffers that are allocated. -/
def outstanding (proc : binder_proc) : Nat :=
  (proc.allocated_buffers.inorder.map fun b => charge (proc.header b)).sum

/-- The account of the process is what is left and what is charged. -/
def account (proc : binder_proc) : Nat := proc.free_async_space + outstanding proc

/-- A size that rounds to the same number of pointers in the kernel and in the process. -/
def RoundsAlike (size : Nat) : Prop := size % 8 = 0 ∨ 4 < size % 8

/-- An asynchronous buffer is freed only with sizes that round alike. -/
def FreesAlike (proc : binder_proc) : Op → Prop
  | .alloc _ _ _ _ => True
  | .free b => (proc.header b).async_transaction = true →
    RoundsAlike (proc.header b).data_size ∧ RoundsAlike (proc.header b).offsets_size

instance (size : Nat) : Decidable (RoundsAlike size) :=
  inferInstanceAs (Decidable (size % 8 = 0 ∨ 4 < size % 8))

instance : ∀ proc op, Decidable (FreesAlike proc op)
  | _, .alloc _ _ _ _ => .isTrue trivial
  | proc, .free b => inferInstanceAs (Decidable ((proc.header b).async_transaction = true →
    RoundsAlike (proc.header b).data_size ∧ RoundsAlike (proc.header b).offsets_size))

/-- What is left is what there was at the beginning less what is charged, and all of it if no
asynchronous buffer is live. -/
def Balanced (vma : Vma) (proc : binder_proc) : Prop :=
  proc.free_async_space + outstanding proc = vma.size / 2 ∧
    ((∀ b, proc.Live b → (proc.header b).async_transaction = false) →
      proc.free_async_space = vma.size / 2)

/-! ## One call -/

/-- One more buffer. -/
theorem outstanding_cons {b : Nat} (h : proc'.allocated_buffers.inorder.Perm
    (b :: proc.allocated_buffers.inorder))
    (hsame : ∀ x ∈ proc.allocated_buffers.inorder, proc'.header x = proc.header x) :
    outstanding proc' = charge (proc'.header b) + outstanding proc := by
  unfold outstanding
  rw [(h.map _).sum_nat, List.map_cons, List.sum_cons]
  refine congrArg (charge (proc'.header b) + List.sum ·) (List.map_congr_left fun x hx => ?_)
  rw [hsame x hx]

/-- Lists of the same buffers. -/
theorem binder_proc.Sound.perm (h : proc.Sound) (h' : proc'.Sound) {b : Nat} (hb : ¬proc.Live b)
    (hlive : ∀ x, proc'.Live x ↔ proc.Live x ∨ x = b) :
    proc'.allocated_buffers.inorder.Perm (b :: proc.allocated_buffers.inorder) := by
  have hholds := h.region.trees.allocated
  have hholds' := h'.region.trees.allocated
  refine (List.perm_ext_iff_of_nodup hholds'.nodup (List.nodup_cons.mpr ⟨?_, hholds.nodup⟩)).mpr ?_
  · exact fun hmem => hb ((hholds.mem b).mp hmem)
  · intro x
    rw [hholds'.mem, List.mem_cons, hholds.mem]
    exact (hlive x).trans or_comm

/-- An allocation takes from what is left what it charges. -/
theorem binder_proc.Allocated.account {b size : Nat} {g : binder_buffer} (h : proc.Sound)
    (taken : proc.Allocated proc' b g)
    (request : requestSize g.data_size g.offsets_size = some size)
    (space : g.async_transaction = true → size + sizeof_binder_buffer ≤ proc.free_async_space)
    (charged : proc'.free_async_space = if g.async_transaction then
      proc.free_async_space - (size + sizeof_binder_buffer) else proc.free_async_space) :
    account proc' = account proc := by
  have hnot : ¬proc.Live b := fun hb => ne_of_free hb.2 taken.was_free.2 rfl
  have hout := outstanding_cons (h.perm taken.sound hnot taken.live) fun x hx =>
    taken.same x ((h.region.trees.allocated.mem x).mp hx)
  unfold Driver.account
  rw [hout, taken.header, charged]
  unfold charge
  rw [request]
  split
  · next hasync =>
    have hspace := space hasync
    show _ - _ + (size + sizeof_binder_buffer + _) = _
    omega
  · omega

/-- What is given back is what was charged if both sizes round alike, and less otherwise. -/
theorem freedSize_le {h : binder_buffer} {size : Nat}
    (hrequest : requestSize h.data_size h.offsets_size = some size) (hsmall : size ≤ SZ_4M) :
    freedSize h ≤ size ∧
      (freedSize h = size ↔ RoundsAlike h.data_size ∧ RoundsAlike h.offsets_size) := by
  obtain ⟨hdata, hoffsets, hsize⟩ := binder_proc.requestSize_eq hrequest hsmall
  rw [binder_proc.freedSize_eq (by omega) (by omega), hsize]
  unfold RoundsAlike
  omega

theorem binder_proc.Freed.account {b : Nat} (h : proc.Sound) (live : proc.Live b)
    (freed : proc.Freed proc' b)
    (refunded : proc'.free_async_space = if (proc.header b).async_transaction then
      proc.free_async_space + (freedSize (proc.header b) + sizeof_binder_buffer)
      else proc.free_async_space) :
    account proc' ≤ account proc ∧ (account proc' = account proc ↔ FreesAlike proc (.free b)) := by
  have hnot : ¬proc'.Live b := fun hb => ((freed.live b).mp hb).2 rfl
  have hlive : ∀ x, proc.Live x ↔ proc'.Live x ∨ x = b := by
    intro x
    rw [freed.live]
    by_cases hx : x = b
    · exact ⟨fun _ => Or.inr hx, fun _ => hx ▸ live⟩
    · exact ⟨fun hlive => Or.inl ⟨hlive, hx⟩, fun hor => (hor.resolve_right hx).1⟩
  have hout := outstanding_cons (freed.sound.perm h hnot hlive) fun x hx =>
    (freed.same x ((freed.sound.region.trees.allocated.mem x).mp hx)).symm
  obtain ⟨size, hrequest, hfits⟩ := h.region.fits b live.1 live.2
  have hsmall := h.region.bufferSize_le live.1
  have hregion := h.region.size_le
  obtain ⟨hle, hiff⟩ := freedSize_le hrequest (by omega)
  have hfrees : FreesAlike proc (.free b) ↔ ((proc.header b).async_transaction = true →
      RoundsAlike (proc.header b).data_size ∧ RoundsAlike (proc.header b).offsets_size) := Iff.rfl
  unfold Driver.account
  rw [hfrees, hout, refunded, ← hiff]
  unfold charge
  rw [hrequest]
  cases (proc.header b).async_transaction with
  | false => simp
  | true =>
    simp only [if_true, Option.getD_some, true_imp_iff]
    omega

/-- No call adds to the account, and none takes from it but to free a buffer whose sizes do
not round alike. -/
theorem next_account (h : proc.Sound) {op : Op} (hnext : next rb proc op = some proc') :
    account proc' ≤ account proc ∧ (account proc' = account proc ↔ FreesAlike proc op) := by
  cases next_called h hnext with
  | failed => exact ⟨Nat.le_refl _, fun _ => trivial, fun _ => rfl⟩
  | allocated request taken space charged =>
    have hsame := taken.account h request space charged
    exact ⟨Nat.le_of_eq hsame, fun _ => trivial, fun _ => hsame⟩
  | freed live freed refunded => exact freed.account h live refunded

/-! ## Runs -/

theorem after_account (h : Kept vma proc) (ops : List Op)
    (hrun : after (next rb) ops proc = some proc') :
    account proc' ≤ account proc ∧
      (account proc' = account proc ↔ Along FreesAlike (next rb) ops proc) := by
  induction ops generalizing proc with
  | nil =>
    cases hrun
    exact ⟨Nat.le_refl _, fun _ => trivial, fun _ => rfl⟩
  | cons op ops ih =>
    obtain ⟨q, hnext, hrest⟩ := after_cons.mp hrun
    obtain ⟨hle, hiff⟩ := next_account h.sound hnext
    obtain ⟨hle', hiff'⟩ := ih (next_kept h hnext) hrest
    refine ⟨Nat.le_trans hle' hle, ?_⟩
    constructor
    · intro heq
      refine ⟨hiff.mp (by omega), fun t ht => ?_⟩
      cases hnext.symm.trans ht
      exact hiff'.mp (by omega)
    · rintro ⟨hop, hops⟩
      exact (hiff'.mpr (hops q hnext)).trans (hiff.mpr hop)

/-- Nothing is charged if no asynchronous buffer is live. -/
theorem outstanding_eq_zero (h : proc.Sound)
    (hnone : ∀ b, proc.Live b → (proc.header b).async_transaction = false) :
    outstanding proc = 0 := by
  refine List.sum_eq_zero_iff_forall_eq_nat.mpr fun n hn => ?_
  obtain ⟨b, hb, rfl⟩ := List.mem_map.mp hn
  unfold charge
  rw [hnone b ((h.region.trees.allocated.mem b).mp hb)]
  rfl

/-- **The account.** After a run it balances if and only if every asynchronous buffer that
was freed had sizes that round alike. -/
theorem async_space_balanced_iff (rb : Balance Nat) (vma : Vma) (ops : List Op)
    (proc : binder_proc) (h : after (next rb) ops (binderMmap rb vma) = some proc) :
    Balanced vma proc ↔ Along FreesAlike (next rb) ops (binderMmap rb vma) := by
  have hstart : account (binderMmap rb vma) = vma.size / 2 := rfl
  have hkept := after_kept h
  rw [← (after_account ⟨binderMmap_sound rb vma, rfl, rfl⟩ ops h).2, hstart]
  constructor
  · exact fun hbalanced => hbalanced.1
  · intro haccount
    refine ⟨haccount, fun hnone => ?_⟩
    unfold account at haccount
    rw [outstanding_eq_zero hkept.sound hnone] at haccount
    exact haccount

/-- Six bytes of data and four offsets. -/
theorem sixBytes_balanced :
    ∃ proc, after (next .plain) [.alloc 6 16 true ⟨true, true, []⟩, .free 65536]
      (binderMmap .plain twoPages) = some proc ∧ Balanced twoPages proc := by
  have hsome : (after (next .plain) [.alloc 6 16 true ⟨true, true, []⟩, .free 65536]
      (binderMmap .plain twoPages)).isSome := by
    decide +kernel
  exact ⟨_, (Option.some_get hsome).symm,
    (async_space_balanced_iff .plain twoPages _ _ (Option.some_get hsome).symm).mpr
      (by decide +kernel)⟩

/-- Four bytes of data: 88 are charged, and 84 given back. -/
theorem fourBytes_lost :
    ¬∀ (rb : Balance Nat) (vma : Vma) (ops : List Op) (proc : binder_proc),
      after (next rb) ops (binderMmap rb vma) = some proc → Balanced vma proc := by
  intro hall
  have haccount : (after (next .plain) [.alloc 4 0 true ⟨true, true, []⟩, .free 65536]
      (binderMmap .plain twoPages)).map account = some 4092 := by
    decide +kernel
  obtain ⟨proc, hrun, hlost⟩ := Option.map_eq_some_iff.mp haccount
  have hbalanced := (hall .plain twoPages _ proc hrun).1
  cases hlost.symm.trans hbalanced

end Cdroid.Driver
