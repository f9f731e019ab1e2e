import Cdroid.Binder.Memory

/-! Where the calls on a parcel write. A call stays inside the parcel's block if there is
room for it at the position, or if the growth that it asks for makes that room. -/

namespace Cdroid.Binder.Memory
open Cdroid.Lib.Blocks Cdroid.Lib.Runs

variable {h : Heap} {p q : Parcel} {desired n : size_t}

/-! ## What `continueWrite` does -/

/-- The ways in which it succeeds, each with the parcel that it leaves. -/
inductive Continued (h : Heap) (desired : size_t) (p : Parcel) : Parcel → Prop
  | freed (howner : p.mOwner = true) (hzero : desired = 0) : Continued h desired p .initState
  | taken (data : Block) (howner : p.mOwner = true) (hne : desired ≠ 0) :
      Continued h desired p { p with
        mData := some (p.mData.elim data fun old =>
          copy (if p.mDataSize < desired then p.mDataSize else desired).toNat old data)
        mDataSize := if p.mDataSize < desired then p.mDataSize else desired
        mDataCapacity := desired
        mObjects := keptObjects desired p
        mObjectsCapacity := (keptObjects desired p).length
        tableSize := (keptObjects desired p).length
        mNextObjectHint := 0
        mOwner := false }
  | grown (old data : Block) (howner : p.mOwner = false) (hold : p.mData = some old)
      (hlt : p.mDataCapacity < desired) (hdata : h.data = some data) :
      Continued h desired p { dropObjects desired p with
        mData := some (copy p.mDataCapacity.toNat old data), mDataCapacity := desired }
  | cut (old : Block) (howner : p.mOwner = false) (hold : p.mData = some old)
      (hle : desired ≤ p.mDataCapacity) :
      Continued h desired p { dropObjects desired p with
        mDataSize := if desired < p.mDataSize then desired else p.mDataSize
        mDataPos := if desired < p.mDataPos then desired else p.mDataPos }
  | first (data : Block) (howner : p.mOwner = false) (hnone : p.mData = none)
      (hdata : h.data = some data) :
      Continued h desired p { p with
        mData := some data, mDataSize := 0, mDataPos := 0, mDataCapacity := desired }

theorem keptObjects_initial (desired : size_t) (p : Parcel) :
    keptObjects desired p <+: p.mObjects := by
  unfold keptObjects
  split
  · split
    · exact List.nil_prefix
    · exact List.rdropWhile_prefix _ _
  · exact List.prefix_rfl

theorem keptObjects_of_le (hle : p.mDataSize ≤ desired) : keptObjects desired p = p.mObjects :=
  if_neg (BitVec.not_lt.mpr hle)

/-- Of the members, only those of the table change. -/
theorem dropObjects_eq (desired : size_t) (p : Parcel) : ∃ space hint, dropObjects desired p =
    { p with mObjects := keptObjects desired p, tableSize := space, mNextObjectHint := hint } := by
  unfold dropObjects
  dsimp only
  split
  · exact ⟨_, _, rfl⟩
  · next hlen =>
    have hkept : keptObjects desired p = p.mObjects :=
      (keptObjects_initial desired p).eq_of_length_le (Nat.not_lt.mp hlen)
    rw [hkept]
    exact ⟨_, _, rfl⟩

theorem dropObjects_of_le (hle : p.mDataSize ≤ desired) : dropObjects desired p = p := by
  unfold dropObjects
  rw [keptObjects_of_le hle]
  exact if_neg (Nat.lt_irrefl _)

section
variable (desired : size_t) (p : Parcel)

@[simp] theorem dropObjects_mDataSize : (dropObjects desired p).mDataSize = p.mDataSize := by
  obtain ⟨_, _, heq⟩ := dropObjects_eq desired p
  rw [heq]

@[simp] theorem dropObjects_mDataCapacity :
    (dropObjects desired p).mDataCapacity = p.mDataCapacity := by
  obtain ⟨_, _, heq⟩ := dropObjects_eq desired p
  rw [heq]

@[simp] theorem dropObjects_mData : (dropObjects desired p).mData = p.mData := by
  obtain ⟨_, _, heq⟩ := dropObjects_eq desired p
  rw [heq]

@[simp] theorem dropObjects_mOwner : (dropObjects desired p).mOwner = p.mOwner := by
  obtain ⟨_, _, heq⟩ := dropObjects_eq desired p
  rw [heq]

end

theorem continueWrite_continued (hok : (continueWrite h desired p).1 = .NO_ERROR) :
    Continued h desired p (continueWrite h desired p).2 := by
  unfold continueWrite at hok ⊢
  dsimp only at hok ⊢
  by_cases howner : p.mOwner = true
  · rw [if_pos howner] at hok ⊢
    by_cases hzero : desired = 0
    · rw [if_pos hzero]
      exact .freed howner hzero
    · rw [if_neg hzero] at hok ⊢
      cases hdata : h.data with
      | none => simp [hdata] at hok
      | some data =>
        simp only [hdata] at hok ⊢
        split at hok
        · cases hok
        · next hcopy =>
          rw [if_neg hcopy]
          exact .taken data howner hzero
  · rw [if_neg howner] at hok ⊢
    have howner : p.mOwner = false := by simpa using howner
    cases hold : p.mData with
    | some old =>
      simp only [hold] at hok ⊢
      by_cases hlt : p.mDataCapacity < desired
      · rw [if_pos hlt] at hok ⊢
        cases hdata : h.data with
        | none => simp [hdata] at hok
        | some data => exact .grown old data howner hold hlt hdata
      · rw [if_neg hlt]
        have hle : desired ≤ p.mDataCapacity := BitVec.not_lt.mp hlt
        exact .cut old howner hold hle
    | none =>
      simp only [hold] at hok ⊢
      cases hdata : h.data with
      | none => simp [hdata] at hok
      | some data => exact .first data howner hold hdata

/-! ## The size of the block -/

/-- What the size of the block depends on. -/
structure Sound (p : Parcel) : Prop where
  size_le : p.mDataSize ≤ p.mDataCapacity
  null : p.mData = none → p.mDataCapacity = 0
  owned : p.mOwner = true → p.mData.isSome = true

theorem sound_initState : Sound .initState := ⟨BitVec.le_refl 0, fun _ => rfl, nofun⟩

theorem sound_ipcSetDataReference (data : Block) (dataSize : size_t) (objects : List size_t) :
    Sound (.ipcSetDataReference data dataSize objects) := ⟨BitVec.le_refl _, nofun, fun _ => rfl⟩

theorem Sound.blockSize (hp : Sound p) : p.blockSize = p.mDataCapacity.toNat := by
  unfold Parcel.blockSize
  split
  · rfl
  · next hnone =>
    rw [hp.null (by simpa using hnone)]
    rfl

theorem Continued.sound (hc : Continued h desired p q) (hp : Sound p) :
    Sound q ∧ desired ≤ q.mDataCapacity := by
  have hsize := hp.size_le
  cases hc with
  | freed howner hzero => exact ⟨sound_initState, BitVec.le_of_eq hzero⟩
  | taken data howner hne =>
    refine ⟨⟨?_, nofun, nofun⟩, BitVec.le_refl _⟩
    dsimp only
    split <;> bv_omega
  | grown old data howner hold hlt hdata =>
    refine ⟨⟨?_, nofun, fun _ => rfl⟩, BitVec.le_refl _⟩
    rw [dropObjects_mDataSize]
    bv_omega
  | cut old howner hold hle =>
    refine ⟨⟨?_, by simp [hold], by simp [hold]⟩, by simpa using hle⟩
    rw [dropObjects_mDataCapacity]
    dsimp only
    split <;> bv_omega
  | first data howner hnone hdata =>
    exact ⟨⟨BitVec.le_def.mpr (Nat.zero_le _), nofun, fun _ => rfl⟩, BitVec.le_refl _⟩

/-- A failure leaves the parcel as it was: what is cut fits, and needs no memory. -/
theorem continueWrite_failed (hp : Sound p) (hne : (continueWrite h desired p).1 ≠ .NO_ERROR) :
    (continueWrite h desired p).2 = { p with mError := .NO_MEMORY } := by
  unfold continueWrite at hne ⊢
  by_cases howner : p.mOwner = true
  · rw [if_pos howner] at hne ⊢
    by_cases hzero : desired = 0
    · rw [if_pos hzero] at hne
      exact absurd rfl hne
    · rw [if_neg hzero] at hne ⊢
      cases hdata : h.data with
      | none => rfl
      | some data =>
        simp only [hdata] at hne ⊢
        split at hne
        · next hcopy => rw [if_pos hcopy]
        · exact absurd rfl hne
  · rw [if_neg howner] at hne ⊢
    cases hold : p.mData with
    | some old =>
      simp only [hold] at hne ⊢
      by_cases hlt : p.mDataCapacity < desired
      · have hle : p.mDataSize ≤ desired := by
          have := hp.size_le
          bv_omega
        rw [if_pos hlt, dropObjects_of_le hle] at hne ⊢
        cases hdata : h.data with
        | none => rw [← hold]
        | some data => exact absurd (by simp [hdata]) hne
      · rw [if_neg hlt] at hne
        exact absurd rfl hne
    | none =>
      simp only [hold] at hne ⊢
      cases hdata : h.data with
      | none => simp only
      | some data => exact absurd (by simp [hdata]) hne

theorem continueWrite_sound (h : Heap) (desired : size_t) (hp : Sound p) :
    Sound (continueWrite h desired p).2 := by
  by_cases hok : (continueWrite h desired p).1 = .NO_ERROR
  · exact ((continueWrite_continued hok).sound hp).1
  · rw [continueWrite_failed hp hok]
    exact ⟨hp.size_le, hp.null, hp.owned⟩

/-! ## Growth -/

/-- There is room for `n` bytes at the position. -/
def Room (n : size_t) (p : Parcel) : Prop :=
  p.mDataPos.toNat + n.toNat ≤ p.mDataCapacity.toNat

/-- Growth is refused, or it makes room for `n` bytes at the position, which it cuts to
the new size if the block was larger than that. -/
def GrowthFits (n : size_t) (p : Parcel) : Prop :=
  grownSize n p ≤ p.mDataSize ∨
    if p.mData.isSome = false then n ≤ grownSize n p
    else if p.mOwner = true ∨ p.mDataCapacity < grownSize n p then
      p.mDataPos.toNat + n.toNat ≤ (grownSize n p).toNat
    else grownSize n p < p.mDataPos ∧ (grownSize n p).toNat + n.toNat ≤ p.mDataCapacity.toNat

theorem growData_continued (hok : (growData h n p).1 = .NO_ERROR) :
    p.mDataSize < grownSize n p ∧ Continued h (grownSize n p) p (growData h n p).2 := by
  unfold growData at hok ⊢
  by_cases hle : grownSize n p ≤ p.mDataSize
  · rw [if_pos hle] at hok
    cases hok
  · rw [if_neg hle] at hok ⊢
    exact ⟨BitVec.not_le.mp hle, continueWrite_continued hok⟩

theorem growData_sound (h : Heap) (n : size_t) (hp : Sound p) : Sound (growData h n p).2 := by
  unfold growData
  by_cases hle : grownSize n p ≤ p.mDataSize
  · rw [if_pos hle]
    exact hp
  · rw [if_neg hle]
    exact continueWrite_sound h _ hp

theorem GrowthFits.room (hfits : GrowthFits n p) (hp : Sound p)
    (hok : (growData h n p).1 = .NO_ERROR) : Room n (growData h n p).2 := by
  obtain ⟨hlt, hc⟩ := growData_continued hok
  generalize (growData h n p).2 = q at hc
  have hfits := hfits.resolve_left (BitVec.not_le.mpr hlt)
  have hle : p.mDataSize ≤ grownSize n p := BitVec.le_of_lt hlt
  cases hc with
  | freed howner hzero => bv_omega
  | taken data howner hne =>
    have hsome : ¬ p.mData.isSome = false := by simp [hp.owned howner]
    rw [if_neg hsome, if_pos (.inl howner)] at hfits
    exact hfits
  | grown old data howner hold hgrows hdata =>
    rw [if_neg (by simp [hold]), if_pos (.inr hgrows)] at hfits
    rw [dropObjects_of_le hle]
    exact hfits
  | cut old howner hold hlarge =>
    have hno : ¬ (p.mOwner = true ∨ p.mDataCapacity < grownSize n p) := by
      rintro (howned | hlt)
      · exact absurd (howner.symm.trans howned) nofun
      · exact absurd hlarge (BitVec.not_le.mpr hlt)
    rw [if_neg (by simp [hold]), if_neg hno] at hfits
    rw [dropObjects_of_le hle]
    unfold Room
    dsimp only
    rw [if_pos hfits.1]
    exact hfits.2
  | first data howner hnone hdata =>
    rw [if_pos (by simp [hnone])] at hfits
    unfold Room
    bv_omega

/-! ## Bounded calls -/

/-- The call leaves the size within the capacity, and wrote inside the block only. -/
structure Bounded (r : Parcel × List Access) : Prop where
  sound : Sound r.1
  inBounds : ∀ a ∈ r.2, a.InBounds

theorem bounded_nil (hp : Sound p) : Bounded (p, []) := ⟨hp, nofun⟩

theorem makeRoom_fits {enough : Prop} [Decidable enough] (h : Heap) (hp : Sound p)
    (henough : enough → Room n p) (hfits : ¬ enough → GrowthFits n p) :
    Sound (makeRoom enough h n p).2 ∧
      ((makeRoom enough h n p).1 = .NO_ERROR → Room n (makeRoom enough h n p).2) := by
  unfold makeRoom
  by_cases hroom : enough
  · rw [if_pos hroom]
    exact ⟨hp, fun _ => henough hroom⟩
  · rw [if_neg hroom]
    exact ⟨growData_sound h n hp, (hfits hroom).room hp⟩

theorem restartingWrite_bounded {α : Type} {r : Status × Parcel} {write : Parcel → Outcome α}
    {refused : Status → Parcel → α} (hr : Sound r.2)
    (hwrite : r.1 = .NO_ERROR → Bounded (write r.2).quiet) :
    Bounded (restartingWrite r write refused).quiet := by
  unfold restartingWrite
  by_cases hok : r.1 = .NO_ERROR
  · rw [if_pos hok]
    exact hwrite hok
  · rw [if_neg hok]
    exact bounded_nil hr

theorem Sound.finishWrite (hp : Sound p) (hroom : Room n p) : Sound (p.finishWrite n) := by
  refine ⟨?_, hp.null, hp.owned⟩
  have := hp.size_le
  unfold Room at hroom
  unfold Parcel.finishWrite
  dsimp only
  split <;> bv_omega

theorem Sound.poke (hp : Sound p) (data : Block) (m offset : Nat) : Sound (p.poke data m offset) :=
  ⟨hp.size_le, fun hnone => hp.null (by simpa [Parcel.poke] using hnone),
    fun howner => by simpa [Parcel.poke] using hp.owned howner⟩

/-- An access from the position on, where there is room. -/
theorem Room.inBounds (hroom : Room n p) (hp : Sound p) {m : Nat} (hle : m ≤ n.toNat) :
    (access p.mDataPos.toNat m p).InBounds := by
  unfold Room at hroom
  refine Or.inr ⟨Int.natCast_nonneg _, ?_⟩
  show (p.mDataPos.toNat : Int) + m ≤ p.blockSize
  rw [hp.blockSize]
  omega

theorem putData_bounded (data : Block) (hp : Sound p) (hroom : Room n p) :
    Bounded (putData data n p).quiet := by
  refine ⟨(hp.poke data _ _).finishWrite hroom, ?_⟩
  rintro a ha
  rw [List.mem_singleton.mp ha]
  exact hroom.inBounds hp (Nat.le_refl _)

/-- The guard of the aligned writes and of objects: the sum may wrap. -/
def WrappingFits (n : size_t) (p : Parcel) : Prop :=
  if p.mDataPos + n ≤ p.mDataCapacity then Room n p else GrowthFits n p

theorem WrappingFits.makeRoom (hfits : WrappingFits n p) (h : Heap) (hp : Sound p) :
    Sound (makeRoom (p.mDataPos + n ≤ p.mDataCapacity) h n p).2 ∧
      ((makeRoom (p.mDataPos + n ≤ p.mDataCapacity) h n p).1 = .NO_ERROR →
        Room n (makeRoom (p.mDataPos + n ≤ p.mDataCapacity) h n p).2) := by
  unfold WrappingFits at hfits
  refine makeRoom_fits h hp (fun henough => ?_) fun hno => ?_
  · rwa [if_pos henough] at hfits
  · rwa [if_neg hno] at hfits

theorem writeAligned_bounded (h : Heap) (data : Block) (hp : Sound p) (hfits : WrappingFits n p) :
    Bounded (writeAligned h data n p).quiet :=
  have hr := hfits.makeRoom h hp
  restartingWrite_bounded hr.1 fun hok => putData_bounded data hr.1 (hr.2 hok)

/-- The guard of the other writes, which refuse a sum that wraps. -/
def CheckedFits (n : size_t) (p : Parcel) : Prop :=
  p.mDataPos.toNat + n.toNat < 2 ^ 32 → Room n p ∨ GrowthFits n p

theorem CheckedFits.makeRoom (hfits : CheckedFits n p) (h : Heap) (hp : Sound p)
    (hwraps : ¬ p.mDataPos + n < p.mDataPos) :
    Sound (makeRoom (p.mDataPos + n ≤ p.mDataCapacity) h n p).2 ∧
      ((makeRoom (p.mDataPos + n ≤ p.mDataCapacity) h n p).1 = .NO_ERROR →
        Room n (makeRoom (p.mDataPos + n ≤ p.mDataCapacity) h n p).2) := by
  have hsum : p.mDataPos.toNat + n.toNat < 2 ^ 32 := by bv_omega
  refine makeRoom_fits h hp (fun henough => ?_) fun hno => ?_
  · unfold Room
    bv_omega
  · refine (hfits hsum).resolve_left fun hroom => hno ?_
    unfold Room at hroom
    bv_omega

theorem writeUnpadded_bounded (h : Heap) (data : Block) (hp : Sound p) (hfits : CheckedFits n p) :
    Bounded (writeUnpadded h data n p).quiet := by
  unfold writeUnpadded
  dsimp only
  by_cases hwraps : p.mDataPos + n < p.mDataPos
  · rw [if_pos hwraps]
    exact bounded_nil hp
  · have hr := hfits.makeRoom h hp hwraps
    rw [if_neg hwraps]
    exact restartingWrite_bounded hr.1 fun hok => putData_bounded data hr.1 (hr.2 hok)

/-- The padding does not wrap. -/
theorem le_PAD_SIZE {len : size_t} (hlen : len.toNat + 3 < 2 ^ 32) :
    len.toNat ≤ (PAD_SIZE len).toNat ∧ (PAD_SIZE len).toNat < len.toNat + 4 := by
  rw [toNat_PAD_SIZE]
  omega

theorem applyMask_sound (len : size_t) (hp : Sound p) : Sound (applyMask len p) :=
  ⟨hp.size_le, fun hnone => hp.null (by simpa [applyMask] using hnone),
    fun howner => by simpa [applyMask] using hp.owned howner⟩

/-- A length that needs padding leaves a whole word for the mask. -/
theorem mask_inBounds {len : size_t} (hp : Sound p) (hroom : Room (PAD_SIZE len) p)
    (hlen : len.toNat + 3 < 2 ^ 32) (hne : PAD_SIZE len ≠ len) :
    (access (p.mDataPos.toNat + (PAD_SIZE len).toNat - 4) 4 p).InBounds := by
  have hpad := le_PAD_SIZE hlen
  have hmod := toNat_PAD_SIZE len
  have hword : 4 ≤ (PAD_SIZE len).toNat := by bv_omega
  unfold Room at hroom
  refine Or.inr ⟨?_, ?_⟩
  · show (0 : Int) ≤ p.mDataPos.toNat + (PAD_SIZE len).toNat - 4
    omega
  · show (p.mDataPos.toNat + (PAD_SIZE len).toNat - 4 : Int) + 4 ≤ p.blockSize
    rw [hp.blockSize]
    omega

theorem writeInplace_bounded (h : Heap) {len : size_t} (hp : Sound p)
    (hlen : len.toNat + 3 < 2 ^ 32) (hfits : CheckedFits (PAD_SIZE len) p) :
    Bounded (writeInplace h len p).quiet := by
  unfold writeInplace
  dsimp only
  by_cases hwraps : p.mDataPos + PAD_SIZE len < p.mDataPos
  · rw [if_pos hwraps]
    exact bounded_nil hp
  · have hr := hfits.makeRoom h hp hwraps
    rw [if_neg hwraps]
    refine restartingWrite_bounded hr.1 fun hok => ?_
    generalize (makeRoom (p.mDataPos + PAD_SIZE len ≤ p.mDataCapacity) h (PAD_SIZE len) p).2 = q
      at hr
    have hroom := hr.2 hok
    have hin := hroom.inBounds hr.1 (le_PAD_SIZE hlen).1
    by_cases hne : PAD_SIZE len ≠ len
    · rw [if_pos hne]
      refine ⟨(applyMask_sound len hr.1).finishWrite hroom, ?_⟩
      rintro a ha
      rcases List.mem_cons.mp ha with rfl | ha
      · exact mask_inBounds hr.1 hroom hlen hne
      · rw [List.mem_singleton.mp ha]
        exact hin
    · rw [if_neg hne]
      refine ⟨hr.1.finishWrite hroom, ?_⟩
      rintro a ha
      rw [List.mem_singleton.mp ha]
      exact hin

theorem write_bounded (h : Heap) (data : Block) {len : size_t} (hp : Sound p)
    (hlen : len.toNat + 3 < 2 ^ 32) (hfits : CheckedFits (PAD_SIZE len) p) :
    Bounded (write h data len p).quiet := by
  obtain ⟨hsound, hin⟩ := writeInplace_bounded h hp hlen hfits
  unfold write
  dsimp only
  split
  · exact ⟨hsound.poke data _ _, hin⟩
  · exact ⟨hsound, hin⟩

/-! ## Objects -/

theorem growTable_eq (h : Heap) (newSize : Nat) (p : Parcel) : ∃ capacity space,
    (growTable h newSize p).2 = { p with mObjectsCapacity := capacity, tableSize := space } := by
  unfold growTable
  split <;> exact ⟨_, _, rfl⟩

/-- The parcel with the object's bytes at the position and its entry in the table. -/
def enterObject (val : flat_binder_object) (nullMetaData : Bool) (p : Parcel) : Parcel :=
  let p' := p.poke (ofList val.bytes) 16 p.mDataPos.toNat
  if Entered val nullMetaData then { p' with mObjects := p'.mObjects ++ [p.mDataPos] } else p'

theorem enterObject_eq (val : flat_binder_object) (nullMetaData : Bool) (p : Parcel) :
    enterObject val nullMetaData p =
      { p.poke (ofList val.bytes) 16 p.mDataPos.toNat with
        mObjects := p.mObjects ++ if Entered val nullMetaData then [p.mDataPos] else [] } := by
  unfold enterObject
  dsimp only
  split
  · rfl
  · rw [List.append_nil]
    rfl

theorem putObject_eq (val : flat_binder_object) (nullMetaData : Bool) (p : Parcel) :
    (putObject val nullMetaData p).quiet =
      (if val.type = BINDER_TYPE_FD ∧ p.mAllowFds = false then enterObject val nullMetaData p
        else (enterObject val nullMetaData p).finishWrite 16, [access p.mDataPos.toNat 16 p]) := by
  unfold putObject enterObject
  dsimp only
  split <;> rfl

theorem putObject_bounded (val : flat_binder_object) (nullMetaData : Bool) (hp : Sound p)
    (hroom : Room 16 p) : Bounded (putObject val nullMetaData p).quiet := by
  have hentered : Sound (enterObject val nullMetaData p) := by
    rw [enterObject_eq]
    have := hp.poke (ofList val.bytes) 16 p.mDataPos.toNat
    exact ⟨this.size_le, this.null, this.owned⟩
  have hroom' : Room 16 (enterObject val nullMetaData p) := by
    rw [enterObject_eq]
    exact hroom
  rw [putObject_eq]
  refine ⟨?_, ?_⟩
  · dsimp only
    split
    · exact hentered
    · exact hentered.finishWrite hroom'
  · rintro a ha
    rw [List.mem_singleton.mp ha]
    exact hroom.inBounds hp (Nat.le_refl 16)

theorem growTable_sound (h : Heap) (newSize : Nat) (hp : Sound p) :
    Sound (growTable h newSize p).2 := by
  obtain ⟨_, _, heq⟩ := growTable_eq h newSize p
  rw [heq]
  exact ⟨hp.size_le, hp.null, hp.owned⟩

theorem writeObject_bounded (h : Heap) (val : flat_binder_object) (nullMetaData : Bool)
    (hp : Sound p) (hfits : WrappingFits 16 p) :
    Bounded (writeObject h val nullMetaData p).quiet := by
  have hr := hfits.makeRoom h hp
  refine restartingWrite_bounded hr.1 fun hok => ?_
  have hroom := hr.2 hok
  generalize (makeRoom (p.mDataPos + 16 ≤ p.mDataCapacity) h 16 p).2 = q at hr hroom
  split
  · exact restartingWrite_bounded hr.1 fun _ => putObject_bounded val nullMetaData hr.1 hroom
  · refine restartingWrite_bounded (growTable_sound h _ hr.1) fun _ =>
      putObject_bounded val nullMetaData (growTable_sound h _ hr.1) ?_
    obtain ⟨_, _, heq⟩ := growTable_eq h ((q.mObjects.length + 2) * 3 / 2) q
    rw [heq]
    exact hroom

/-! ## Size, capacity and whole contents -/

theorem setDataSize_bounded (h : Heap) (size : size_t) (hp : Sound p) :
    Bounded (setDataSize h size p).quiet := by
  unfold setDataSize
  dsimp only
  split
  · next hok =>
    obtain ⟨hq, hle⟩ := (continueWrite_continued hok).sound hp
    exact bounded_nil ⟨hle, hq.null, hq.owned⟩
  · exact bounded_nil (continueWrite_sound h size hp)

theorem setDataCapacity_bounded (h : Heap) (size : size_t) (hp : Sound p) :
    Bounded (setDataCapacity h size p).quiet := by
  unfold setDataCapacity
  split
  · exact bounded_nil (continueWrite_sound h size hp)
  · exact bounded_nil hp

/-- The parcel keeps a block: data of no bytes at all would free its own. -/
def DataFits (len : size_t) (p : Parcel) : Prop :=
  len = 0 → p.mData.isSome = true → p.mOwner = true

theorem restartWrite_sound (h : Heap) (hp : Sound p) (hfits : DataFits n p) :
    Sound (restartWrite h n p).2 ∧ ((restartWrite h n p).1 = .NO_ERROR →
      n ≤ (restartWrite h n p).2.mDataCapacity) := by
  unfold restartWrite
  by_cases howner : p.mOwner = true
  · rw [if_pos howner]
    exact ⟨continueWrite_sound h n sound_initState,
      fun hok => ((continueWrite_continued hok).sound sound_initState).2⟩
  · have howner' : p.mOwner = false := by simpa using howner
    have hfree : ¬ (n = 0 ∧ p.mData.isSome = true) := fun hc => howner (hfits hc.1 hc.2)
    rw [if_neg howner, if_neg hfree]
    dsimp only
    by_cases hfail : h.data = none ∧ p.mDataCapacity < n
    · rw [if_pos hfail]
      exact ⟨⟨hp.size_le, hp.null, hp.owned⟩, nofun⟩
    · rw [if_neg hfail]
      cases hdata : h.data with
      | some fresh =>
        exact ⟨⟨BitVec.le_def.mpr (Nat.zero_le _), nofun, fun howned => absurd howned howner⟩,
          fun _ => BitVec.le_refl n⟩
      | none =>
        have hle : n ≤ p.mDataCapacity := BitVec.not_lt.mp fun hlt => hfail ⟨hdata, hlt⟩
        have hnull : (if n = 0 then none else p.mData) = none → p.mDataCapacity = 0 := by
          by_cases hzero : n = 0
          · intro _
            exact hp.null (by simpa using fun hsome => hfree ⟨hzero, hsome⟩)
          · rw [if_neg hzero]
            exact hp.null
        exact ⟨⟨BitVec.le_def.mpr (Nat.zero_le _), hnull, fun howned => absurd howned howner⟩,
          fun _ => hle⟩

theorem setData_bounded (h : Heap) (buffer : Block) (hp : Sound p) (hfits : DataFits n p) :
    Bounded (setData h buffer n p).quiet := by
  obtain ⟨hq, hle⟩ := restartWrite_sound h hp hfits
  unfold setData
  dsimp only
  split
  · next hok =>
    have hpoke := hq.poke buffer n.toNat 0
    refine ⟨⟨hle hok, hpoke.null, hpoke.owned⟩, ?_⟩
    rintro a ha
    rw [List.mem_singleton.mp ha]
    refine Or.inr ⟨Int.le_refl 0, ?_⟩
    show (0 : Int) + n.toNat ≤ ((restartWrite h n p).2.blockSize : Nat)
    have := hle hok
    rw [hq.blockSize]
    bv_omega
  · exact bounded_nil hq

/-! ## Appending -/

/-- There is room for `len` bytes at the position and behind the data, or growth is
refused, or it makes that room. -/
def AppendRoom (len : size_t) (p : Parcel) : Prop :=
  if p.mDataSize + len ≤ p.mDataCapacity then Room len p
  else grownSize len p ≤ p.mDataSize ∨
    if p.mData.isSome = false then len ≤ grownSize len p
    else (p.mOwner = true ∨ p.mDataCapacity < grownSize len p) ∧
      p.mDataPos.toNat + len.toNat ≤ (grownSize len p).toNat ∧
        p.mDataSize + len ≤ grownSize len p

/-- The position stays where it is, as does the table that is read. -/
structure ObjectsFit (source : Source) (offset len : size_t) (objects : List size_t)
    (p : Parcel) : Prop where
  whole : ∀ o ∈ objects, offset ≤ o ∧ o.toNat + 16 ≤ offset.toNat + len.toNat
  pos : p.mData.isSome = false → p.mDataPos = 0
  alive : source.isSelf = true → p.mObjects.length + objects.length ≤ p.mObjectsCapacity ∧
    (p.mDataCapacity < p.mDataSize + len → p.mOwner = false)

/-- The range is looked at only if it passes the checks against the source's size. -/
def AppendFits (source : Source) (offset len : size_t) (p : Parcel) : Prop :=
  let q := source.parcel p
  len ≠ 0 → ¬ (q.mDataSize < offset ∨ q.mDataSize < len ∨ q.mDataSize < offset + len) →
    AppendRoom len p ∧ (objectsInRange offset len q.mObjects ≠ [] →
      ObjectsFit source offset len (objectsInRange offset len q.mObjects) p)

/-- What holds of the parcel when the bytes are appended. -/
structure Appendable (len : size_t) (p q : Parcel) : Prop where
  sound : Sound q
  room : Room len q
  size_le : q.mDataSize + len ≤ q.mDataCapacity
  objects : q.mObjects = p.mObjects
  pos : (p.mData.isSome = false → p.mDataPos = 0) → q.mDataPos = p.mDataPos
  table : (p.mDataCapacity < p.mDataSize + len → p.mOwner = false) →
    q.mObjectsCapacity = p.mObjectsCapacity

theorem AppendRoom.appendable (hfits : AppendRoom n p) (h : Heap) (hp : Sound p)
    (hok : (makeRoom (¬ p.mDataCapacity < p.mDataSize + n) h n p).1 = .NO_ERROR) :
    Appendable n p (makeRoom (¬ p.mDataCapacity < p.mDataSize + n) h n p).2 := by
  unfold AppendRoom at hfits
  unfold makeRoom at hok ⊢
  by_cases hfull : p.mDataCapacity < p.mDataSize + n
  · rw [if_neg (BitVec.not_le.mpr hfull)] at hfits
    rw [if_neg (not_not_intro hfull)] at hok ⊢
    obtain ⟨hlt, hc⟩ := growData_continued hok
    have hq := growData_sound h n hp
    generalize (growData h n p).2 = q at hc hq
    have hfits := hfits.resolve_left (BitVec.not_le.mpr hlt)
    have hle : p.mDataSize ≤ grownSize n p := BitVec.le_of_lt hlt
    cases hc with
    | freed howner hzero => bv_omega
    | taken data howner hne =>
      have hsome : ¬ p.mData.isSome = false := by simp [hp.owned howner]
      rw [if_neg hsome] at hfits
      refine ⟨hq, hfits.2.1, ?_, keptObjects_of_le hle, fun _ => rfl, fun hown => ?_⟩
      · dsimp only
        rw [if_pos hlt]
        exact hfits.2.2
      · exact absurd ((hown hfull).symm.trans howner) nofun
    | grown old data howner hold hgrows hdata =>
      rw [if_neg (by simp [hold])] at hfits
      rw [dropObjects_of_le hle] at hq ⊢
      exact ⟨hq, hfits.2.1, hfits.2.2, rfl, fun _ => rfl, fun _ => rfl⟩
    | cut old howner hold hlarge =>
      rw [if_neg (by simp [hold])] at hfits
      rcases hfits.1 with howned | hlt
      · exact absurd (howner.symm.trans howned) nofun
      · exact absurd hlarge (BitVec.not_le.mpr hlt)
    | first data howner hnone hdata =>
      rw [if_pos (by simp [hnone])] at hfits
      refine ⟨hq, ?_, ?_, rfl, fun hpos => (hpos (by simp [hnone])).symm, fun _ => rfl⟩
      · unfold Room
        bv_omega
      · show 0 + n ≤ grownSize n p
        bv_omega
  · have hsize : p.mDataSize + n ≤ p.mDataCapacity := BitVec.not_lt.mp hfull
    rw [if_pos hsize] at hfits
    rw [if_pos hfull]
    exact ⟨hp, hfits, hsize, rfl, fun _ => rfl, fun _ => rfl⟩

theorem Appendable.appendData (hq : Appendable n p q) (data : Block) (offset : size_t) :
    Sound (appendData data offset n q) := by
  have hpoke := hq.sound.poke (shift offset.toNat data) n.toNat q.mDataPos.toNat
  exact ⟨hq.size_le, hpoke.null, hpoke.owned⟩

theorem adoptObject_bounded (h : Heap) {off : size_t} (hp : Sound p)
    (hoff : off.toNat + 16 ≤ p.mDataCapacity.toNat) :
    Bounded (adoptObject h off p).quiet := by
  unfold adoptObject
  dsimp only
  split
  · have hentered : Sound { p with mObjects := p.mObjects ++ [off] } :=
      ⟨hp.size_le, hp.null, hp.owned⟩
    refine ⟨hentered.poke _ _ _, ?_⟩
    rintro a ha
    rw [List.mem_singleton.mp ha]
    refine Or.inr ⟨?_, ?_⟩
    · show (0 : Int) ≤ off.toNat + 8
      omega
    · show (off.toNat + 8 : Int) + 8 ≤ p.blockSize
      rw [hp.blockSize]
      omega
  · exact bounded_nil ⟨hp.size_le, hp.null, hp.owned⟩

theorem adoptObject_capacity (h : Heap) (off : size_t) (p : Parcel) :
    (adoptObject h off p).parcel.mDataCapacity = p.mDataCapacity := by
  unfold adoptObject
  dsimp only
  split <;> rfl

theorem adoptObjects_bounded (h : Heap) (offs : List size_t) (hp : Sound p)
    (hoffs : ∀ off ∈ offs, off.toNat + 16 ≤ p.mDataCapacity.toNat) :
    Bounded (adoptObjects h offs p).quiet := by
  induction offs generalizing p with
  | nil => exact bounded_nil hp
  | cons off offs ih =>
    obtain ⟨hoff, hoffs⟩ := List.forall_mem_cons.mp hoffs
    have hfirst := adoptObject_bounded h hp hoff
    have hrest := ih (p := (adoptObject h off p).parcel) hfirst.sound (by
      rw [adoptObject_capacity]
      exact hoffs)
    refine ⟨hrest.sound, ?_⟩
    rintro a ha
    rcases List.mem_append.mp ha with ha | ha
    · exact hfirst.inBounds a ha
    · exact hrest.inBounds a ha

/-- The objects are entered when the table has grown. -/
theorem tableRoom_bounded (h : Heap) (n : Nat) {offs : List size_t} (hp : Sound p)
    (hoffs : ∀ off ∈ offs, off.toNat + 16 ≤ p.mDataCapacity.toNat) :
    Bounded (ifOk (if p.mObjectsCapacity < p.mObjects.length + n then
      growTable h ((p.mObjects.length + n) * 3 / 2) p else (.NO_ERROR, p))
        (adoptObjects h offs)).quiet := by
  split
  · refine restartingWrite_bounded (growTable_sound h _ hp) fun _ =>
      adoptObjects_bounded h offs (growTable_sound h _ hp) ?_
    obtain ⟨_, _, heq⟩ := growTable_eq h ((p.mObjects.length + n) * 3 / 2) p
    rw [heq]
    exact hoffs
  · exact restartingWrite_bounded hp fun _ => adoptObjects_bounded h offs hp hoffs

/-- Where the objects of the range come to lie. -/
theorem ObjectsFit.entry {source : Source} {offset len : size_t} {objects : List size_t}
    (hfit : ObjectsFit source offset len objects p) (hq : Appendable len p q) :
    ∀ off ∈ objects.map (fun o => o - offset + p.mDataPos),
      off.toNat + 16 ≤ q.mDataCapacity.toNat := by
  rintro off hoff
  obtain ⟨o, ho, rfl⟩ := List.mem_map.mp hoff
  obtain ⟨hle, hwhole⟩ := hfit.whole o ho
  have hroom := hq.room
  unfold Room at hroom
  rw [hq.pos hfit.pos] at hroom
  bv_omega

/-- A table or a block of the parcel's own is read while it is still there. -/
theorem ObjectsFit.not_freed {source : Source} {offset len : size_t} {objects : List size_t}
    (hfit : ObjectsFit source offset len objects p) (hq : Appendable len p q) (data : Block) :
    ¬ (source.isSelf = true ∧ ((appendData data offset len q).mObjectsCapacity <
      (appendData data offset len q).mObjects.length + objects.length ∨
        p.mDataCapacity < p.mDataSize + len ∧ p.mOwner = true)) := by
  rintro ⟨hself, hmoved⟩
  obtain ⟨hspace, howner⟩ := hfit.alive hself
  have hobjects : (appendData data offset len q).mObjects = p.mObjects := hq.objects
  have htable : (appendData data offset len q).mObjectsCapacity = p.mObjectsCapacity :=
    hq.table howner
  rw [htable, hobjects] at hmoved
  rcases hmoved with hmoves | ⟨hfull, howned⟩
  · omega
  · exact absurd ((howner hfull).symm.trans howned) nofun

theorem appendFrom_bounded (h : Heap) (source : Source) (offset : size_t) {len : size_t}
    (hp : Sound p) (hfits : AppendFits source offset len p) :
    Bounded (appendFrom h source offset len p).quiet := by
  unfold appendFrom
  dsimp only
  by_cases hzero : len = 0
  · rw [if_pos hzero]
    exact bounded_nil hp
  · rw [if_neg hzero]
    split
    · exact bounded_nil hp
    · next hrange =>
      obtain ⟨hroom, hobjects⟩ := hfits hzero hrange
      refine restartingWrite_bounded ?_ fun hok => ?_
      · unfold makeRoom
        split
        · exact hp
        · exact growData_sound h len hp
      · have hq := hroom.appendable h hp hok
        generalize (makeRoom (¬ p.mDataCapacity < p.mDataSize + len) h len p).2 = q at hq
        generalize objectsInRange offset len (source.parcel p).mObjects = objects at hobjects
        generalize (if source.isSelf = true ∧ p.mDataCapacity < p.mDataSize + len then
          h.staleData else (source.parcel p).mData.getD h.staleData) = data
        have hcopied : ∀ a ∈ [access q.mDataPos.toNat len.toNat q], a.InBounds := by
          rintro a ha
          rw [List.mem_singleton.mp ha]
          exact hq.room.inBounds hq.sound (Nat.le_refl _)
        have hfilled := hq.appendData data offset
        by_cases hnil : objects = []
        · rw [if_pos hnil]
          exact ⟨hfilled, hcopied⟩
        · have hfit := hobjects hnil
          have hcapacity : q.mDataCapacity = (appendData data offset len q).mDataCapacity := rfl
          have hentry := hcapacity ▸ hfit.entry hq
          have hadopted := tableRoom_bounded h objects.length hfilled hentry
          rw [if_neg hnil, if_neg (hfit.not_freed hq data)]
          exact ⟨hadopted.sound, fun a ha => (List.mem_append.mp ha).elim (hcopied a)
            (hadopted.inBounds a)⟩

/-! ## Runs -/

/-- The call finds room, or makes it, or is refused. -/
def Call.Fits (p : Parcel) (source : Nat → Source) : Call → Prop
  | .writeInt32 _ => WrappingFits 4 p
  | .writeInt64 _ => WrappingFits 8 p
  | .writeUnpadded _ len => CheckedFits len p
  | .writeInplace len => len.toNat + 3 < 2 ^ 32 ∧ CheckedFits (PAD_SIZE len) p
  | .write _ len => len.toNat + 3 < 2 ^ 32 ∧ CheckedFits (PAD_SIZE len) p
  | .writeObject _ _ => WrappingFits 16 p
  | .setData _ len => DataFits len p
  | .appendFrom j offset len => AppendFits (source j) offset len p
  | _ => True

def Fits (s : State) (x : Step) : Prop := x.call.Fits (s x.parcel) (x.source s)

theorem perform_bounded {s : State} {x : Step} (hs : Sound (s x.parcel)) (hfits : Fits s x) :
    Bounded (perform s x) := by
  obtain ⟨i, call, h⟩ := x
  unfold perform
  cases call with
  | writeInt32 val => exact writeAligned_bounded h _ hs hfits
  | writeInt64 val => exact writeAligned_bounded h _ hs hfits
  | writeUnpadded data len => exact writeUnpadded_bounded h data hs hfits
  | writeInplace len => exact writeInplace_bounded h hs hfits.1 hfits.2
  | write data len => exact write_bounded h data hs hfits.1 hfits.2
  | writeObject val nullMetaData => exact writeObject_bounded h val nullMetaData hs hfits
  | setDataSize size => exact setDataSize_bounded h size hs
  | setDataPosition pos => exact bounded_nil ⟨hs.size_le, hs.null, hs.owned⟩
  | setDataCapacity size => exact setDataCapacity_bounded h size hs
  | setData buffer len => exact setData_bounded h buffer hs hfits
  | appendFrom j offset len => exact appendFrom_bounded h _ offset hs hfits
  | pushAllowFds allowFds => exact bounded_nil ⟨hs.size_le, hs.null, hs.owned⟩
  | restoreAllowFds lastValue => exact bounded_nil ⟨hs.size_le, hs.null, hs.owned⟩
  | freeData => exact bounded_nil sound_initState

theorem next_sound {s t : State} {x : Step} (hs : ∀ i, Sound (s i)) (hfits : Fits s x)
    (hnext : next s x = some t) : ∀ i, Sound (t i) := by
  cases hnext
  intro i
  dsimp only
  split
  · exact (perform_bounded (hs _) hfits).sound
  · exact hs i

/-- A parcel that nothing has been written to, or one that has been received. -/
inductive Started : Parcel → Prop
  | empty : Started .initState
  | received (data : Block) (dataSize : size_t) (objects : List size_t) :
      Started (.ipcSetDataReference data dataSize objects)

theorem Started.sound (hp : Started p) : Sound p := by
  cases hp with
  | empty => exact sound_initState
  | received data dataSize objects => exact sound_ipcSetDataReference data dataSize objects

/-- All that a step writes lies in the block of its parcel. -/
def WritesInside (s : State) (x : Step) : Prop := ∀ a ∈ (perform s x).2, a.InBounds

theorem along_writesInside {s : State} (xs : List Step) (hs : ∀ i, Sound (s i))
    (hfits : Along Fits next xs s) : Along WritesInside next xs s := by
  induction xs generalizing s with
  | nil => trivial
  | cons x xs ih =>
    refine ⟨(perform_bounded (hs _) hfits.1).inBounds, fun t ht => ?_⟩
    exact ih (next_sound hs hfits.1 ht) (hfits.2 t ht)

/-- **Write bounds.** In a run whose calls all find or make room, every write is inside
its parcel's block, and every size within the capacity. -/
theorem writes_inside (s : State) (hs : ∀ i, Started (s i)) (xs : List Step)
    (hfits : Along Fits next xs s) :
    Along WritesInside next xs s ∧
      ∀ t, after next xs s = some t → ∀ i, (t i).mDataSize ≤ (t i).mDataCapacity := by
  have hsound : ∀ i, Sound (s i) := fun i => (hs i).sound
  refine ⟨along_writesInside xs hsound hfits, fun t ht i => ?_⟩
  exact (along_inv (fun s x t hs hfits => next_sound hs hfits) xs hsound hfits ht i).size_le

/-! ## Cases -/

instance : Decidable (Room n p) := inferInstanceAs (Decidable (_ ≤ _))

instance : Decidable (GrowthFits n p) := by
  delta GrowthFits
  infer_instance

instance : Decidable (WrappingFits n p) := by
  delta WrappingFits
  infer_instance

instance : Decidable (CheckedFits n p) := by
  delta CheckedFits
  infer_instance

instance : Decidable (DataFits n p) := by
  delta DataFits
  infer_instance

instance : Decidable (AppendRoom n p) := by
  delta AppendRoom
  infer_instance

instance (source : Source) (offset len : size_t) (objects : List size_t) :
    Decidable (ObjectsFit source offset len objects p) :=
  -- the instance for all words would try each of them
  have : Decidable (∀ o ∈ objects, offset ≤ o ∧ o.toNat + 16 ≤ offset.toNat + len.toNat) :=
    List.decidableBAll _ _
  decidable_of_iff (_ ∧ _ ∧ _) ⟨fun ⟨h₁, h₂, h₃⟩ => ⟨h₁, h₂, h₃⟩, fun h => ⟨h.1, h.2, h.3⟩⟩

instance (source : Source) (offset len : size_t) : Decidable (AppendFits source offset len p) := by
  delta AppendFits
  infer_instance

instance (p : Parcel) (source : Nat → Source) : ∀ c : Call, Decidable (c.Fits p source)
  | .writeInt32 _ => inferInstanceAs (Decidable (WrappingFits 4 p))
  | .writeInt64 _ => inferInstanceAs (Decidable (WrappingFits 8 p))
  | .writeUnpadded _ len => inferInstanceAs (Decidable (CheckedFits len p))
  | .writeInplace len => inferInstanceAs (Decidable (_ ∧ CheckedFits (PAD_SIZE len) p))
  | .write _ len => inferInstanceAs (Decidable (_ ∧ CheckedFits (PAD_SIZE len) p))
  | .writeObject _ _ => inferInstanceAs (Decidable (WrappingFits 16 p))
  | .setData _ len => inferInstanceAs (Decidable (DataFits len p))
  | .appendFrom j offset len => inferInstanceAs (Decidable (AppendFits (source j) offset len p))
  | .setDataSize _ | .setDataPosition _ | .setDataCapacity _ | .pushAllowFds _
  | .restoreAllowFds _ | .freeData => .isTrue trivial

instance (s : State) (x : Step) : Decidable (Fits s x) :=
  inferInstanceAs (Decidable (x.call.Fits _ _))

instance (s : State) (x : Step) : Decidable (WritesInside s x) :=
  inferInstanceAs (Decidable (∀ a ∈ _, _))

/-- All memory is there, and zero. -/
def freshHeap : Heap :=
  ⟨some fun _ => 0, true, true, fun _ => 0, fun _ => 0, fun _ => 0⟩

def allEmpty : State := fun _ => .initState

/-- The position is set behind all data, and a word is written. -/
def farRun : List Step :=
  [⟨0, .writeInt32 1, freshHeap⟩, ⟨0, .setDataPosition 1000, freshHeap⟩,
    ⟨0, .writeInt32 2, freshHeap⟩]

/-- The block grows to 12 bytes, and the word is written at 1000. -/
theorem farRun_not_inside :
    (∀ i, Started (allEmpty i)) ∧ ¬ Along WritesInside next farRun allEmpty :=
  ⟨fun _ => .empty, by decide⟩

/-- The first parcel is filled and cut, and appended to the second one. -/
def filledRun : List Step :=
  [⟨0, .writeInt32 1, freshHeap⟩, ⟨0, .write (fun _ => 65) 6, freshHeap⟩,
    ⟨0, .writeObject ⟨BINDER_TYPE_HANDLE, 0, 3, 0⟩ false, freshHeap⟩,
    ⟨0, .writeInt64 7, freshHeap⟩, ⟨0, .setDataSize 28, freshHeap⟩,
    ⟨1, .setDataCapacity 100, freshHeap⟩, ⟨1, .writeUnpadded (fun _ => 66) 3, freshHeap⟩,
    ⟨1, .appendFrom 0 4 24, freshHeap⟩, ⟨1, .setDataPosition 3, freshHeap⟩,
    ⟨1, .writeInplace 9, freshHeap⟩, ⟨0, .setData (fun _ => 1) 5, freshHeap⟩]

theorem writes_inside_filledRun :
    Along WritesInside next filledRun allEmpty ∧
      ∀ t, after next filledRun allEmpty = some t → ∀ i, (t i).mDataSize ≤ (t i).mDataCapacity :=
  writes_inside allEmpty (fun _ => .empty) filledRun (by decide +kernel)

end Cdroid.Binder.Memory
