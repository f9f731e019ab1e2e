import Cdroid.Binder.WriteBounds

/-! The object table of a parcel against the data that is written: the objects lie in the
order of their entries inside the data, none meets another, and nothing is written over
one that stays in the table. -/

namespace Cdroid.Binder.Memory
open Cdroid.Lib.Blocks Cdroid.Lib.Runs

variable {h : Heap} {p q : Parcel} {desired n : size_t}

/-! ## The table -/

structure TableOk (p : Parcel) : Prop where
  ascending : p.mObjects.Pairwise fun a b => a.toNat + 16 ≤ b.toNat
  inside : ∀ o ∈ p.mObjects, o.toNat + 16 ≤ p.mDataSize.toNat
  inTable : p.mObjects.length ≤ p.tableSize

theorem tableOk_initState : TableOk .initState := ⟨.nil, nofun, Nat.le_refl 0⟩

theorem TableOk.nil (hnil : p.mObjects = []) : TableOk p := by
  refine ⟨?_, ?_, ?_⟩ <;> rw [hnil]
  · exact .nil
  · nofun
  · exact Nat.zero_le _

/-- A parcel without a block has no object. -/
theorem TableOk.objects_eq_nil (ht : TableOk p) (hp : Sound p) (hnone : p.mData = none) :
    p.mObjects = [] := by
  apply List.eq_nil_iff_forall_not_mem.mpr
  intro o ho
  have hin := ht.inside o ho
  have hsize := hp.size_le
  rw [hp.null hnone] at hsize
  bv_omega

/-- The objects that a cut leaves are those in front of it. -/
theorem TableOk.kept (ht : TableOk p) (hdesired : desired < p.mDataSize) :
    ∀ o ∈ keptObjects desired p, o < desired := by
  intro o ho
  have hinit := (keptObjects_initial desired p).sublist
  unfold keptObjects at ho hinit
  rw [if_pos hdesired] at ho hinit
  split at ho
  · cases ho
  · next hzero =>
    rw [if_neg hzero] at hinit
    have hne := List.ne_nil_of_mem ho
    have hlast := List.rdropWhile_last_not _ p.mObjects hne
    have hascending := ht.ascending.sublist hinit
    rw [← List.dropLast_append_getLast hne] at ho hascending
    rcases List.mem_append.mp ho with hmem | hmem
    · have hlt := (List.pairwise_append.mp hascending).2.2 o hmem _ (List.mem_singleton_self _)
      generalize List.getLast _ hne = last at hlast hlt
      have hlast : last < desired := by simpa using hlast
      bv_omega
    · rw [List.mem_singleton.mp hmem]
      simpa using hlast

/-- No object meets the `n` bytes from the position. -/
def Clear (n : size_t) (p : Parcel) : Prop :=
  p.mDataPos.toNat + n.toNat < 2 ^ 32 → ∀ o ∈ p.mObjects,
    p.mDataPos.toNat + n.toNat ≤ o.toNat ∨ o.toNat + 16 ≤ p.mDataPos.toNat

/-- Every object lies in front of the position. -/
def Behind (p : Parcel) : Prop := ∀ o ∈ p.mObjects, o.toNat + 16 ≤ p.mDataPos.toNat

/-- A parcel of its own data with a good table. -/
structure Held (p : Parcel) : Prop where
  sound : Sound p
  table : TableOk p
  owner : p.mOwner = false

theorem held_initState : Held .initState := ⟨sound_initState, tableOk_initState, rfl⟩

/-- The call leaves a good table, and wrote over no object that is still in it. -/
structure Tidy (p : Parcel) (r : Parcel × List Access) : Prop where
  table : TableOk r.1
  owner : r.1.mOwner = false
  missed : ∀ o ∈ p.mObjects, o ∈ r.1.mObjects → ∀ a ∈ r.2, a.Misses o.toNat 16

theorem tidy_nil (ht : TableOk q) (howner : q.mOwner = false) : Tidy p (q, []) :=
  ⟨ht, howner, nofun⟩

/-! ## Growth -/

/-- A parcel in which there is room now: its objects are the same, and so is its position,
or it is behind them. -/
structure Regrown (p q : Parcel) : Prop where
  held : Held q
  objects : q.mObjects = p.mObjects
  pos : q.mDataPos = p.mDataPos ∨ Behind q
  size : q.mDataSize = p.mDataSize ∨ p.mData = none ∧ q.mDataSize = 0
  allowFds : q.mAllowFds = p.mAllowFds
  capacity : q.mObjectsCapacity = p.mObjectsCapacity
  space : q.tableSize = p.tableSize

theorem Continued.regrown (hc : Continued h desired p q) (hp : Held p)
    (hle : p.mDataSize ≤ desired) : Regrown p q := by
  have hq := (hc.sound hp.sound).1
  obtain ⟨hascending, hinside, htable⟩ := hp.table
  cases hc with
  | freed howner hzero => exact absurd (hp.owner.symm.trans howner) nofun
  | taken data howner hne => exact absurd (hp.owner.symm.trans howner) nofun
  | grown old data howner hold hgrows hdata =>
    rw [dropObjects_of_le hle] at hq ⊢
    exact ⟨⟨hq, ⟨hascending, hinside, htable⟩, howner⟩, rfl, .inl rfl, .inl rfl, rfl, rfl, rfl⟩
  | cut old howner hold hlarge =>
    rw [dropObjects_of_le hle, if_neg (BitVec.not_lt.mpr hle)] at hq ⊢
    refine ⟨⟨hq, ⟨hascending, hinside, htable⟩, howner⟩, rfl, ?_, .inl rfl, rfl, rfl, rfl⟩
    by_cases hpos : desired < p.mDataPos
    · -- the new position is behind the data
      refine .inr fun o ho => ?_
      have := hinside o ho
      dsimp only
      rw [if_pos hpos]
      bv_omega
    · exact .inl (if_neg hpos)
  | first data howner hnone hdata =>
    have hnil := hp.table.objects_eq_nil hp.sound hnone
    refine ⟨⟨hq, .nil hnil, howner⟩, rfl, .inr ?_, .inr ⟨hnone, rfl⟩, rfl, rfl, rfl⟩
    intro o ho
    change o ∈ p.mObjects at ho
    rw [hnil] at ho
    cases ho

theorem growData_regrown (hp : Held p) (hok : (growData h n p).1 = .NO_ERROR) :
    Regrown p (growData h n p).2 := by
  obtain ⟨hlt, hc⟩ := growData_continued hok
  exact hc.regrown hp (BitVec.le_of_lt hlt)

theorem makeRoom_regrown {enough : Prop} [Decidable enough] (hp : Held p)
    (hok : (makeRoom enough h n p).1 = .NO_ERROR) : Regrown p (makeRoom enough h n p).2 := by
  unfold makeRoom at hok ⊢
  split at hok
  · next hroom =>
    rw [if_pos hroom]
    exact ⟨hp, rfl, .inl rfl, .inl rfl, rfl, rfl, rfl⟩
  · next hroom =>
    rw [if_neg hroom]
    exact growData_regrown hp hok

/-- Without memory, the parcel keeps its table. -/
theorem makeRoom_held {enough : Prop} [Decidable enough] (h : Heap) (n : size_t) (hp : Held p) :
    Held (makeRoom enough h n p).2 := by
  by_cases hok : (makeRoom enough h n p).1 = .NO_ERROR
  · exact (makeRoom_regrown hp hok).held
  · unfold makeRoom growData at hok ⊢
    split
    · exact hp
    · next hroom =>
      rw [if_neg hroom] at hok
      dsimp only at hok ⊢
      split
      · exact hp
      · next hle =>
        rw [if_neg hle] at hok
        rw [continueWrite_failed hp.sound hok]
        obtain ⟨hsound, htable, howner⟩ := hp
        exact ⟨⟨hsound.size_le, hsound.null, hsound.owned⟩,
          ⟨htable.ascending, htable.inside, htable.inTable⟩, howner⟩

theorem Regrown.clear (hq : Regrown p q) (hclear : Clear n p) (hroom : Room n q) :
    ∀ o ∈ q.mObjects, q.mDataPos.toNat + n.toNat ≤ o.toNat ∨ o.toNat + 16 ≤ q.mDataPos.toNat := by
  intro o ho
  rcases hq.pos with hpos | hbehind
  · have hsum : q.mDataPos.toNat + n.toNat < 2 ^ 32 := by
      unfold Room at hroom
      omega
    rw [hpos] at hsum ⊢
    exact hclear hsum o (hq.objects ▸ ho)
  · exact .inr (hbehind o ho)

theorem Regrown.behind (hq : Regrown p q) (hbehind : Behind p) : Behind q := by
  intro o ho
  rcases hq.pos with hpos | hbehind'
  · rw [hpos]
    exact hbehind o (hq.objects ▸ ho)
  · exact hbehind' o ho

/-! ## Data -/

/-- The size only grows. -/
theorem TableOk.finishWrite (ht : TableOk p) (n : size_t) : TableOk (p.finishWrite n) := by
  refine ⟨ht.ascending, fun o ho => ?_, ht.inTable⟩
  have := ht.inside o ho
  unfold Parcel.finishWrite
  dsimp only
  split <;> bv_omega

theorem TableOk.poke (ht : TableOk p) (data : Block) (m offset : Nat) :
    TableOk (p.poke data m offset) := ⟨ht.ascending, ht.inside, ht.inTable⟩

/-- An access to the room at the position misses the objects. -/
theorem misses_room {o : size_t} {offset length : Nat}
    (hclear : q.mDataPos.toNat + n.toNat ≤ o.toNat ∨ o.toNat + 16 ≤ q.mDataPos.toNat)
    (hle : q.mDataPos.toNat ≤ offset) (hend : offset + length ≤ q.mDataPos.toNat + n.toNat) :
    (access offset length q).Misses o.toNat 16 := by
  show (offset : Int) + length ≤ o.toNat ∨ (o.toNat : Int) + (16 : Nat) ≤ offset
  omega

theorem putData_tidy (data : Block) (hq : Regrown p q) (hclear : Clear n p) (hroom : Room n q) :
    Tidy p (putData data n q).quiet := by
  refine ⟨(hq.held.table.poke data _ _).finishWrite _, hq.held.owner, ?_⟩
  rintro o ho - a ha
  rw [List.mem_singleton.mp ha]
  exact misses_room (hq.clear hclear hroom o (hq.objects ▸ ho)) (Nat.le_refl _) (Nat.le_refl _)

theorem restartingWrite_tidy {α : Type} {r : Status × Parcel} {write : Parcel → Outcome α}
    {refused : Status → Parcel → α} (hr : Held r.2)
    (hwrite : r.1 = .NO_ERROR → Tidy p (write r.2).quiet) :
    Tidy p (restartingWrite r write refused).quiet := by
  unfold restartingWrite
  by_cases hok : r.1 = .NO_ERROR
  · rw [if_pos hok]
    exact hwrite hok
  · rw [if_neg hok]
    exact tidy_nil hr.table hr.owner

theorem writeAligned_tidy (h : Heap) (data : Block) (hp : Held p) (hfits : WrappingFits n p)
    (hclear : Clear n p) : Tidy p (writeAligned h data n p).quiet :=
  restartingWrite_tidy (makeRoom_held h n hp) fun hok =>
    putData_tidy data (makeRoom_regrown hp hok) hclear ((hfits.makeRoom h hp.sound).2 hok)

theorem writeUnpadded_tidy (h : Heap) (data : Block) (hp : Held p) (hfits : CheckedFits n p)
    (hclear : Clear n p) : Tidy p (writeUnpadded h data n p).quiet := by
  unfold writeUnpadded
  dsimp only
  by_cases hwraps : p.mDataPos + n < p.mDataPos
  · rw [if_pos hwraps]
    exact tidy_nil hp.table hp.owner
  · rw [if_neg hwraps]
    exact restartingWrite_tidy (makeRoom_held h n hp) fun hok =>
      putData_tidy data (makeRoom_regrown hp hok) hclear ((hfits.makeRoom h hp.sound hwraps).2 hok)

theorem writeInplace_tidy (h : Heap) {len : size_t} (hp : Held p) (hlen : len.toNat + 3 < 2 ^ 32)
    (hfits : CheckedFits (PAD_SIZE len) p) (hclear : Clear (PAD_SIZE len) p) :
    Tidy p (writeInplace h len p).quiet := by
  have hpad := le_PAD_SIZE hlen
  have hmod := toNat_PAD_SIZE len
  unfold writeInplace
  dsimp only
  by_cases hwraps : p.mDataPos + PAD_SIZE len < p.mDataPos
  · rw [if_pos hwraps]
    exact tidy_nil hp.table hp.owner
  · rw [if_neg hwraps]
    refine restartingWrite_tidy (makeRoom_held h _ hp) fun hok => ?_
    have hroom := (hfits.makeRoom h hp.sound hwraps).2 hok
    have hq := makeRoom_regrown hp hok
    generalize (makeRoom (p.mDataPos + PAD_SIZE len ≤ p.mDataCapacity) h (PAD_SIZE len) p).2 = q
      at hq hroom
    have hclear := hq.clear hclear hroom
    rw [hq.objects] at hclear
    have hin : ∀ o ∈ p.mObjects, (access q.mDataPos.toNat len.toNat q).Misses o.toNat 16 :=
      fun o ho => misses_room (hclear o ho) (Nat.le_refl _) (by omega)
    by_cases hne : PAD_SIZE len ≠ len
    · rw [if_pos hne]
      have hword : 4 ≤ (PAD_SIZE len).toNat := by bv_omega
      have hmasked : TableOk (applyMask len q) :=
        ⟨hq.held.table.ascending, hq.held.table.inside, hq.held.table.inTable⟩
      refine ⟨hmasked.finishWrite _, hq.held.owner, ?_⟩
      rintro o ho - a ha
      rcases List.mem_cons.mp ha with rfl | ha
      · have : (access ((q.mDataPos.toNat + (PAD_SIZE len).toNat - 4 : Nat) : Int) 4 q).Misses
            o.toNat 16 := misses_room (hclear o ho) (by omega) (by omega)
        have hoffset : ((q.mDataPos.toNat + (PAD_SIZE len).toNat - 4 : Nat) : Int) =
            q.mDataPos.toNat + (PAD_SIZE len).toNat - 4 := by omega
        rwa [hoffset] at this
      · rw [List.mem_singleton.mp ha]
        exact hin o ho
    · rw [if_neg hne]
      refine ⟨hq.held.table.finishWrite _, hq.held.owner, ?_⟩
      rintro o ho - a ha
      rw [List.mem_singleton.mp ha]
      exact hin o ho

theorem write_tidy (h : Heap) (data : Block) {len : size_t} (hp : Held p)
    (hlen : len.toNat + 3 < 2 ^ 32) (hfits : CheckedFits (PAD_SIZE len) p)
    (hclear : Clear (PAD_SIZE len) p) : Tidy p (write h data len p).quiet := by
  obtain ⟨htable, howner, hmissed⟩ := writeInplace_tidy h hp hlen hfits hclear
  unfold write
  dsimp only
  split
  · exact ⟨htable.poke data _ _, howner, hmissed⟩
  · exact ⟨htable, howner, hmissed⟩

/-! ## Objects -/

/-- An object that is entered comes behind the others, and inside the data even if it is
refused; and the table's block has the entry that its capacity promises. -/
def EntryFits (val : flat_binder_object) (nullMetaData : Bool) (p : Parcel) : Prop :=
  if Entered val nullMetaData then
    Behind p ∧
    (val.type = BINDER_TYPE_FD → p.mAllowFds = false →
      p.mDataPos.toNat + 16 ≤ p.mDataSize.toNat) ∧
    (p.mObjects.length < p.mObjectsCapacity → p.mObjects.length < p.tableSize)
  else Clear 16 p

/-- The table with one more object at the position. -/
theorem TableOk.append (ht : TableOk p) (hbehind : Behind p)
    (hspace : p.mObjects.length < p.tableSize) {size : size_t}
    (hsize : p.mDataSize.toNat ≤ size.toNat) (hend : p.mDataPos.toNat + 16 ≤ size.toNat)
    {q : Parcel} (hobjects : q.mObjects = p.mObjects ++ [p.mDataPos])
    (hq : q.mDataSize = size) (htable : q.tableSize = p.tableSize) : TableOk q := by
  refine ⟨?_, ?_, ?_⟩
  · rw [hobjects]
    refine List.pairwise_append.mpr ⟨ht.ascending, List.pairwise_singleton _ _, ?_⟩
    intro o ho b hb
    rw [List.mem_singleton.mp hb]
    exact hbehind o ho
  · rw [hobjects, hq]
    intro o ho
    rcases List.mem_append.mp ho with ho | ho
    · exact Nat.le_trans (ht.inside o ho) hsize
    · rw [List.mem_singleton.mp ho]
      exact hend
  · rw [hobjects, htable, List.length_append]
    exact hspace

theorem le_finishWrite (hroom : Room n p) :
    p.mDataSize.toNat ≤ (p.finishWrite n).mDataSize.toNat ∧
      p.mDataPos.toNat + n.toNat ≤ (p.finishWrite n).mDataSize.toNat := by
  unfold Room at hroom
  unfold Parcel.finishWrite
  dsimp only
  split <;> constructor <;> bv_omega

theorem putObject_entered {val : flat_binder_object} {nullMetaData : Bool} (hq : Held q)
    (hroom : Room 16 q) (hentered : Entered val nullMetaData) (hbehind : Behind q)
    (hspace : q.mObjects.length < q.tableSize)
    (hfd : val.type = BINDER_TYPE_FD → q.mAllowFds = false →
      q.mDataPos.toNat + 16 ≤ q.mDataSize.toNat) (hobjects : q.mObjects = p.mObjects) :
    Tidy p (putObject val nullMetaData q).quiet := by
  have hobj : (enterObject val nullMetaData q).mObjects = q.mObjects ++ [q.mDataPos] := by
    rw [enterObject_eq, if_pos hentered]
  have hmem : ∀ o ∈ p.mObjects, (access q.mDataPos.toNat 16 q).Misses o.toNat 16 := by
    intro o ho
    exact misses_room (n := 16) (.inr (hbehind o (hobjects ▸ ho))) (Nat.le_refl _) (Nat.le_refl _)
  have howner : (enterObject val nullMetaData q).mOwner = false := by
    rw [enterObject_eq]
    exact hq.owner
  rw [putObject_eq]
  by_cases hrefused : val.type = BINDER_TYPE_FD ∧ q.mAllowFds = false
  · rw [if_pos hrefused]
    refine ⟨hq.table.append hbehind hspace (Nat.le_refl _) (hfd hrefused.1 hrefused.2) hobj ?_ ?_,
      howner, fun o ho _ a ha => List.mem_singleton.mp ha ▸ hmem o ho⟩
    · rw [enterObject_eq]
      rfl
    · rw [enterObject_eq]
      rfl
  · rw [if_neg hrefused]
    obtain ⟨hsize, hend⟩ := le_finishWrite hroom
    refine ⟨hq.table.append hbehind hspace hsize hend hobj ?_ ?_, howner,
      fun o ho _ a ha => List.mem_singleton.mp ha ▸ hmem o ho⟩
    · rw [enterObject_eq]
      rfl
    · rw [enterObject_eq]
      rfl

theorem putObject_plain {val : flat_binder_object} {nullMetaData : Bool} (hq : Regrown p q)
    (hroom : Room 16 q) (hplain : ¬ Entered val nullMetaData) (hclear : Clear 16 p) :
    Tidy p (putObject val nullMetaData q).quiet := by
  have heq : enterObject val nullMetaData q = q.poke (ofList val.bytes) 16 q.mDataPos.toNat :=
    if_neg hplain
  have hpoke := hq.held.table.poke (ofList val.bytes) 16 q.mDataPos.toNat
  rw [putObject_eq, heq]
  refine ⟨?_, ?_, ?_⟩
  · dsimp only
    split
    · exact hpoke
    · exact hpoke.finishWrite 16
  · dsimp only
    split <;> exact hq.held.owner
  · rintro o ho - a ha
    rw [List.mem_singleton.mp ha]
    exact misses_room (hq.clear hclear hroom o (hq.objects ▸ ho)) (Nat.le_refl _) (Nat.le_refl _)

theorem growTable_held (h : Heap) {newSize : Nat} (hq : Held q)
    (hsize : q.mObjects.length ≤ newSize) : Held (growTable h newSize q).2 := by
  obtain ⟨hsound, htable, howner⟩ := hq
  unfold growTable
  split
  · exact ⟨⟨hsound.size_le, hsound.null, hsound.owned⟩,
      ⟨htable.ascending, htable.inside, hsize⟩, howner⟩
  · exact ⟨hsound, htable, howner⟩

theorem growTable_tableSize (newSize : Nat) (hok : (growTable h newSize q).1 = .NO_ERROR) :
    (growTable h newSize q).2 = { q with mObjectsCapacity := newSize, tableSize := newSize } := by
  unfold growTable at hok ⊢
  split at hok
  · next hobjects => rw [if_pos hobjects]
  · cases hok

/-- A descriptor that is refused lies inside the data, where no growth is asked for. -/
theorem makeRoom_of_le (hp : Sound p) (hle : p.mDataPos.toNat + 16 ≤ p.mDataSize.toNat) :
    makeRoom (p.mDataPos + 16 ≤ p.mDataCapacity) h 16 p = (.NO_ERROR, p) := by
  have := hp.size_le
  exact if_pos (by bv_omega)

theorem writeObject_tidy (h : Heap) (val : flat_binder_object) (nullMetaData : Bool) (hp : Held p)
    (hfits : WrappingFits 16 p) (hentry : EntryFits val nullMetaData p) :
    Tidy p (writeObject h val nullMetaData p).quiet := by
  refine restartingWrite_tidy (makeRoom_held h 16 hp) fun hok => ?_
  have hroom := (hfits.makeRoom h hp.sound).2 hok
  have hq := makeRoom_regrown hp hok
  have hrefused : p.mDataPos.toNat + 16 ≤ p.mDataSize.toNat →
      (makeRoom (p.mDataPos + 16 ≤ p.mDataCapacity) h 16 p).2 = p := by
    intro hle
    rw [makeRoom_of_le hp.sound hle]
  generalize (makeRoom (p.mDataPos + 16 ≤ p.mDataCapacity) h 16 p).2 = q at hq hroom hrefused
  unfold EntryFits at hentry
  -- the table's members are all that `r` may have of its own
  have hput : ∀ capacity space,
      let r := { q with mObjectsCapacity := capacity, tableSize := space }
      Held r → (Entered val nullMetaData → r.mObjects.length < r.tableSize) →
        Tidy p (putObject val nullMetaData r).quiet := by
    intro capacity space r hr hspace
    by_cases hentered : Entered val nullMetaData
    · rw [if_pos hentered] at hentry
      obtain ⟨hbehind, hfd, -⟩ := hentry
      refine putObject_entered hr hroom hentered (hq.behind hbehind) (hspace hentered) ?_ hq.objects
      intro htype hallow
      have hle := hfd htype (hq.allowFds.symm.trans hallow)
      show q.mDataPos.toNat + 16 ≤ q.mDataSize.toNat
      rwa [hrefused hle]
    · rw [if_neg hentered] at hentry
      have hr : Regrown { p with mObjectsCapacity := capacity, tableSize := space } r :=
        ⟨hr, hq.objects, hq.pos, hq.size, hq.allowFds, rfl, rfl⟩
      obtain ⟨htable, howner, hmissed⟩ := putObject_plain hr hroom hentered hentry
      exact ⟨htable, howner, hmissed⟩
  split
  · next henough =>
    refine restartingWrite_tidy hq.held fun _ => hput q.mObjectsCapacity q.tableSize hq.held ?_
    intro hentered
    rw [if_pos hentered] at hentry
    rw [hq.objects, hq.space]
    exact hentry.2.2 henough
  · have hle : q.mObjects.length < (q.mObjects.length + 2) * 3 / 2 := by omega
    have hheld := growTable_held h hq.held (Nat.le_of_lt hle)
    refine restartingWrite_tidy hheld fun hok => ?_
    rw [growTable_tableSize _ hok] at hheld ⊢
    exact hput _ _ hheld fun _ => hle


/-! ## Size, capacity and whole contents -/

/-- The cut goes through no object. -/
def CutFits (size : size_t) (p : Parcel) : Prop :=
  size < p.mDataSize → ∀ o ∈ p.mObjects, o < size → o.toNat + 16 ≤ size.toNat

@[simp] theorem dropObjects_mObjects (desired : size_t) (p : Parcel) :
    (dropObjects desired p).mObjects = keptObjects desired p := by
  obtain ⟨_, _, heq⟩ := dropObjects_eq desired p
  rw [heq]

theorem dropObjects_inTable (hin : p.mObjects.length ≤ p.tableSize) :
    (keptObjects desired p).length ≤ (dropObjects desired p).tableSize := by
  unfold dropObjects
  dsimp only
  split
  · exact Nat.le_refl _
  · exact Nat.le_trans (keptObjects_initial desired p).length_le hin

/-- The table of a parcel that has been cut to the size. -/
theorem TableOk.cut (ht : TableOk p) (hcut : CutFits desired p) {q : Parcel}
    (hobjects : q.mObjects = keptObjects desired p) (hsize : q.mDataSize = desired)
    (hin : (keptObjects desired p).length ≤ q.tableSize) : TableOk q := by
  have hinit := (keptObjects_initial desired p).sublist
  refine ⟨?_, ?_, by rwa [hobjects]⟩
  · rw [hobjects]
    exact ht.ascending.sublist hinit
  · rw [hobjects, hsize]
    intro o ho
    by_cases hlt : desired < p.mDataSize
    · exact hcut hlt o (hinit.subset ho) (ht.kept hlt o ho)
    · have := ht.inside o (hinit.subset ho)
      bv_omega

theorem Continued.cutTo (hc : Continued h desired p q) (hp : Held p) (hcut : CutFits desired p) :
    TableOk { q with mDataSize := desired } ∧ q.mOwner = false := by
  have hin : (keptObjects desired p).length ≤ (dropObjects desired p).tableSize :=
    dropObjects_inTable hp.table.inTable
  cases hc with
  | freed howner hzero => exact absurd (hp.owner.symm.trans howner) nofun
  | taken data howner hne => exact absurd (hp.owner.symm.trans howner) nofun
  | grown old data howner hold hgrows hdata =>
    exact ⟨hp.table.cut hcut (dropObjects_mObjects desired p) rfl hin, by simp [howner]⟩
  | cut old howner hold hlarge =>
    exact ⟨hp.table.cut hcut (dropObjects_mObjects desired p) rfl hin, by simp [howner]⟩
  | first data howner hnone hdata =>
    exact ⟨.nil (hp.table.objects_eq_nil hp.sound hnone), howner⟩

theorem setDataSize_tidy (h : Heap) {size : size_t} (hp : Held p) (hcut : CutFits size p) :
    Tidy p (setDataSize h size p).quiet := by
  unfold setDataSize
  dsimp only
  split
  · next hok =>
    obtain ⟨htable, howner⟩ := (continueWrite_continued hok).cutTo hp hcut
    exact tidy_nil htable howner
  · next hne =>
    rw [continueWrite_failed hp.sound hne]
    exact tidy_nil ⟨hp.table.ascending, hp.table.inside, hp.table.inTable⟩ hp.owner

theorem setDataCapacity_tidy (h : Heap) (size : size_t) (hp : Held p) :
    Tidy p (setDataCapacity h size p).quiet := by
  unfold setDataCapacity
  split
  · next hlt =>
    have hle : p.mDataSize ≤ size := by
      have := hp.sound.size_le
      bv_omega
    by_cases hok : (continueWrite h size p).1 = .NO_ERROR
    · have hq := (continueWrite_continued hok).regrown hp hle
      exact tidy_nil hq.held.table hq.held.owner
    · dsimp only
      rw [continueWrite_failed hp.sound hok]
      exact tidy_nil ⟨hp.table.ascending, hp.table.inside, hp.table.inTable⟩ hp.owner
  · exact tidy_nil hp.table hp.owner

/-- What is restarted has no object; without memory the parcel stays as it is. -/
theorem restartWrite_objects (hp : Held p) :
    (restartWrite h n p).1 = .NO_ERROR ∧ (restartWrite h n p).2.mObjects = [] ∧
        (restartWrite h n p).2.mOwner = false ∨
      (restartWrite h n p).1 ≠ .NO_ERROR ∧
        (restartWrite h n p).2 = { p with mError := .NO_MEMORY } := by
  unfold restartWrite
  have howner : ¬ p.mOwner = true := by simp [hp.owner]
  rw [if_neg howner]
  dsimp only
  generalize (if n = 0 ∧ p.mData.isSome = true then none else h.data) = data
  by_cases hfail : data = none ∧ p.mDataCapacity < n
  · rw [if_pos hfail]
    exact .inr ⟨nofun, rfl⟩
  · rw [if_neg hfail]
    cases data with
    | none => exact .inl ⟨rfl, rfl, hp.owner⟩
    | some fresh => exact .inl ⟨rfl, rfl, hp.owner⟩

theorem setData_tidy (h : Heap) (buffer : Block) (len : size_t) (hp : Held p) :
    Tidy p (setData h buffer len p).quiet := by
  unfold setData
  dsimp only
  rcases restartWrite_objects (h := h) (n := len) hp with ⟨hok, hnil, howner⟩ | ⟨hne, heq⟩
  · rw [if_pos hok]
    refine ⟨.nil hnil, howner, fun o _ ho => ?_⟩
    change o ∈ (restartWrite h len p).2.mObjects at ho
    rw [hnil] at ho
    cases ho
  · rw [if_neg hne, heq]
    exact tidy_nil ⟨hp.table.ascending, hp.table.inside, hp.table.inTable⟩ hp.owner

/-! ## Appending -/

/-- The objects come behind those that are there and inside the data, and the table's
block has the entries that its capacity promises. -/
structure EntriesFit (offset len : size_t) (objects : List size_t) (p : Parcel) : Prop where
  behind : Behind p
  inside : ∀ o ∈ objects,
    o.toNat - offset.toNat + p.mDataPos.toNat + 16 ≤ p.mDataSize.toNat + len.toNat
  space : p.mObjects.length + objects.length ≤ p.mObjectsCapacity →
    p.mObjects.length + objects.length ≤ p.tableSize

def AppendTidy (source : Source) (offset len : size_t) (p : Parcel) : Prop :=
  let q := source.parcel p
  let objects := objectsInRange offset len q.mObjects
  len ≠ 0 → ¬ (q.mDataSize < offset ∨ q.mDataSize < len ∨ q.mDataSize < offset + len) →
    p.mDataSize.toNat + len.toNat < 2 ^ 32 ∧
      if objects = [] then Clear len p else EntriesFit offset len objects p

theorem adoptObject_spec (h : Heap) (off : size_t) (p : Parcel) :
    let r := adoptObject h off p
    r.parcel.mObjects = p.mObjects ++ [off] ∧ r.parcel.mDataSize = p.mDataSize ∧
      r.parcel.tableSize = p.tableSize ∧ r.parcel.mOwner = p.mOwner ∧
      ∀ a ∈ r.writes, a.offset = off.toNat + 8 ∧ a.length = 8 := by
  unfold adoptObject
  dsimp only
  split
  · refine ⟨rfl, rfl, rfl, rfl, fun a ha => ?_⟩
    rw [List.mem_singleton.mp ha]
    exact ⟨rfl, rfl⟩
  · exact ⟨rfl, rfl, rfl, rfl, nofun⟩

theorem adoptObjects_spec (h : Heap) (offs : List size_t) (p : Parcel) :
    let r := adoptObjects h offs p
    r.parcel.mObjects = p.mObjects ++ offs ∧ r.parcel.mDataSize = p.mDataSize ∧
      r.parcel.tableSize = p.tableSize ∧ r.parcel.mOwner = p.mOwner ∧
      ∀ a ∈ r.writes, ∃ off ∈ offs, a.offset = off.toNat + 8 ∧ a.length = 8 := by
  induction offs generalizing p with
  | nil => exact ⟨(List.append_nil _).symm, rfl, rfl, rfl, nofun⟩
  | cons off offs ih =>
    obtain ⟨hobjects, hsize, htable, howner, hwrites⟩ := adoptObject_spec h off p
    obtain ⟨hobjects', hsize', htable', howner', hwrites'⟩ := ih (adoptObject h off p).parcel
    refine ⟨?_, hsize'.trans hsize, htable'.trans htable, howner'.trans howner, fun a ha => ?_⟩
    · refine hobjects'.trans ?_
      rw [hobjects, List.append_assoc]
      rfl
    · rcases List.mem_append.mp ha with ha | ha
      · exact ⟨off, List.mem_cons_self, hwrites a ha⟩
      · obtain ⟨off', hoff', ha⟩ := hwrites' a ha
        exact ⟨off', List.mem_cons_of_mem _ hoff', ha⟩

theorem objectsInRange_sublist (offset len : size_t) (objects : List size_t) :
    (objectsInRange offset len objects).Sublist objects :=
  (List.rdropWhile_prefix _ _).sublist.trans (List.dropWhile_sublist _)

/-- The entry of an object of the range. -/
theorem toNat_entry {offset len o pos : size_t} (hle : offset ≤ o)
    (hwhole : o.toNat + 16 ≤ offset.toNat + len.toNat) (hpos : pos.toNat + len.toNat < 2 ^ 32) :
    (o - offset + pos).toNat = o.toNat - offset.toNat + pos.toNat := by
  bv_omega

theorem Regrown.appendData (hq : Regrown p q) (data : Block) (offset : size_t)
    (hsum : p.mDataSize.toNat + n.toNat < 2 ^ 32) :
    TableOk (appendData data offset n q) ∧
      (appendData data offset n q).mDataSize.toNat = q.mDataSize.toNat + n.toNat := by
  have hsize : (q.mDataSize + n).toNat = q.mDataSize.toNat + n.toNat := by
    rcases hq.size with heq | ⟨-, heq⟩ <;> rw [heq] <;> bv_omega
  refine ⟨⟨hq.held.table.ascending, fun o ho => ?_, hq.held.table.inTable⟩, hsize⟩
  have := hq.held.table.inside o ho
  show o.toNat + 16 ≤ (q.mDataSize + n).toNat
  omega

/-- The entries of the objects of a range, behind the table that is there. -/
structure NewEntries (offs : List size_t) (p : Parcel) : Prop where
  ascending : offs.Pairwise fun a b => a.toNat + 16 ≤ b.toNat
  behind : ∀ o ∈ p.mObjects, ∀ off ∈ offs, o.toNat + 16 ≤ off.toNat
  inside : ∀ off ∈ offs, off.toNat + 16 ≤ p.mDataSize.toNat

theorem adoptObjects_table (h : Heap) {offs : List size_t} (ht : TableOk p)
    (hnew : NewEntries offs p) (hspace : p.mObjects.length + offs.length ≤ p.tableSize) :
    TableOk (adoptObjects h offs p).parcel := by
  obtain ⟨hobjects, hsize, htable, -, -⟩ := adoptObjects_spec h offs p
  refine ⟨?_, ?_, ?_⟩
  · rw [hobjects]
    exact List.pairwise_append.mpr ⟨ht.ascending, hnew.ascending, hnew.behind⟩
  · rw [hobjects, hsize]
    intro o ho
    exact (List.mem_append.mp ho).elim (ht.inside o) (hnew.inside o)
  · rw [hobjects, htable, List.length_append]
    exact hspace

/-- Where the objects of a range come to lie when the bytes have been appended. -/
theorem newEntries {source : Source} {offset len : size_t} {objects : List size_t}
    (hascending : objects.Pairwise fun a b => a.toNat + 16 ≤ b.toNat)
    (hfit : ObjectsFit source offset len objects p) (hentries : EntriesFit offset len objects p)
    (ha : Appendable len p q) (hq : Regrown p q) {r : Parcel} (hobjects : r.mObjects = q.mObjects)
    (hsize : r.mDataSize.toNat = q.mDataSize.toNat + len.toNat) :
    NewEntries (objects.map fun o => o - offset + p.mDataPos) r := by
  have hroom : p.mDataPos.toNat + len.toNat < 2 ^ 32 := by
    have := ha.room
    unfold Room at this
    rw [ha.pos hfit.pos] at this
    omega
  have hentry : ∀ o ∈ objects, (o - offset + p.mDataPos).toNat =
      o.toNat - offset.toNat + p.mDataPos.toNat := fun o ho =>
    toNat_entry (hfit.whole o ho).1 (hfit.whole o ho).2 hroom
  refine ⟨?_, ?_, ?_⟩
  · refine List.pairwise_map.mpr (hascending.imp_of_mem fun {a b} ha hb hlt => ?_)
    have hle := BitVec.le_def.mp (hfit.whole a ha).1
    rw [hentry a ha, hentry b hb]
    omega
  · rw [hobjects, hq.objects]
    intro o ho off hoff
    obtain ⟨b, hb, rfl⟩ := List.mem_map.mp hoff
    have := hentries.behind o ho
    rw [hentry b hb]
    omega
  · intro off hoff
    obtain ⟨o, ho, rfl⟩ := List.mem_map.mp hoff
    rw [hentry o ho, hsize]
    rcases hq.size with heq | ⟨hnone, hzero⟩
    · rw [heq]
      exact hentries.inside o ho
    · -- a first block is filled from its start
      have hpos := hfit.pos (by simp [hnone])
      obtain ⟨hle, hwhole⟩ := hfit.whole o ho
      rw [hpos, hzero]
      bv_omega

/-- The objects are entered when the table has grown, and only they are written to. -/
theorem tableRoom_table (h : Heap) {offs : List size_t} (ht : TableOk p)
    (hnew : NewEntries offs p) (howner : p.mOwner = false)
    (hspace : p.mObjects.length + offs.length ≤ p.mObjectsCapacity →
      p.mObjects.length + offs.length ≤ p.tableSize) :
    let r := ifOk (if p.mObjectsCapacity < p.mObjects.length + offs.length then
      growTable h ((p.mObjects.length + offs.length) * 3 / 2) p else (.NO_ERROR, p))
        (adoptObjects h offs)
    TableOk r.parcel ∧ r.parcel.mOwner = false ∧
      ∀ a ∈ r.writes, ∃ off ∈ offs, a.offset = off.toNat + 8 ∧ a.length = 8 := by
  unfold ifOk restartingWrite
  dsimp only
  split
  · next hmoves =>
    by_cases hok : (growTable h ((p.mObjects.length + offs.length) * 3 / 2) p).1 = .NO_ERROR
    · rw [if_pos hok, growTable_tableSize _ hok]
      have ht' : TableOk { p with
          mObjectsCapacity := (p.mObjects.length + offs.length) * 3 / 2
          tableSize := (p.mObjects.length + offs.length) * 3 / 2 } :=
        ⟨ht.ascending, ht.inside, by dsimp only; omega⟩
      obtain ⟨-, -, -, howner', hwrites⟩ := adoptObjects_spec h offs _
      exact ⟨adoptObjects_table h ht' ⟨hnew.ascending, hnew.behind, hnew.inside⟩
        (by dsimp only; omega), howner'.trans howner, hwrites⟩
    · have heq : (growTable h ((p.mObjects.length + offs.length) * 3 / 2) p).2 = p := by
        unfold growTable at hok ⊢
        split
        · next hobjects => exact absurd (by rw [if_pos hobjects]) hok
        · rfl
      rw [if_neg hok, heq]
      exact ⟨ht, howner, nofun⟩
  · next hmoves =>
    obtain ⟨-, -, -, howner', hwrites⟩ := adoptObjects_spec h offs p
    rw [if_pos rfl]
    exact ⟨adoptObjects_table h ht hnew (hspace (Nat.not_lt.mp hmoves)), howner'.trans howner,
      hwrites⟩

theorem appendFrom_tidy (h : Heap) (source : Source) (offset : size_t) {len : size_t}
    (hp : Held p) (hsource : TableOk (source.parcel p)) (hfits : AppendFits source offset len p)
    (htidy : AppendTidy source offset len p) :
    Tidy p (appendFrom h source offset len p).quiet := by
  unfold appendFrom
  dsimp only
  by_cases hzero : len = 0
  · rw [if_pos hzero]
    exact tidy_nil hp.table hp.owner
  · rw [if_neg hzero]
    split
    · exact tidy_nil hp.table hp.owner
    · next hrange =>
      obtain ⟨hroom, hobjects⟩ := hfits hzero hrange
      obtain ⟨hsum, hentries⟩ := htidy hzero hrange
      refine restartingWrite_tidy (makeRoom_held h len hp) fun hok => ?_
      have ha := hroom.appendable h hp.sound hok
      have hq := makeRoom_regrown hp hok
      have hascending := hsource.ascending.sublist
        (objectsInRange_sublist offset len (source.parcel p).mObjects)
      generalize (makeRoom (¬ p.mDataCapacity < p.mDataSize + len) h len p).2 = q at ha hq
      generalize objectsInRange offset len (source.parcel p).mObjects = objects
        at hobjects hentries hascending
      generalize (if source.isSelf = true ∧ p.mDataCapacity < p.mDataSize + len then
        h.staleData else (source.parcel p).mData.getD h.staleData) = data
      obtain ⟨hfilled, hsize⟩ := hq.appendData data offset hsum
      by_cases hnil : objects = []
      · rw [if_pos hnil] at hentries ⊢
        refine ⟨hfilled, hq.held.owner, ?_⟩
        rintro o ho - a hmem
        rw [List.mem_singleton.mp hmem]
        exact misses_room (hq.clear hentries ha.room o (hq.objects ▸ ho)) (Nat.le_refl _)
          (Nat.le_refl _)
      · have hfit := hobjects hnil
        rw [if_neg hnil] at hentries ⊢
        rw [if_neg (hfit.not_freed ha data)]
        have hnew := newEntries hascending hfit hentries ha hq
          (r := appendData data offset len q) rfl hsize
        have hspace : q.mObjects.length + objects.length ≤ q.mObjectsCapacity →
            q.mObjects.length + objects.length ≤ q.tableSize := by
          rw [hq.objects, hq.capacity, hq.space]
          exact hentries.space
        have hlen : (objects.map fun o => o - offset + p.mDataPos).length = objects.length :=
          List.length_map _
        obtain ⟨htable, howner, hwrites⟩ := tableRoom_table h hfilled hnew hq.held.owner
          (by rw [hlen]; exact hspace)
        rw [hlen] at htable howner hwrites
        have hpos := ha.pos hfit.pos
        refine ⟨htable, howner, ?_⟩
        rintro o ho - a hmem
        have hbehind := hentries.behind o ho
        rcases List.mem_append.mp hmem with hmem | hmem
        · rw [List.mem_singleton.mp hmem]
          refine misses_room (n := len) (.inr ?_) (Nat.le_refl _) (Nat.le_refl _)
          rwa [hpos]
        · -- only the new objects are patched
          obtain ⟨off, hoff, hoffset, -⟩ := hwrites a hmem
          have := hnew.behind o (hq.objects ▸ ho) off hoff
          refine .inr ?_
          rw [hoffset]
          omega

/-! ## Runs -/

/-- The call finds room, writes over no object, and cuts none. -/
def TableFits (s : State) (x : Step) : Prop :=
  let p := s x.parcel
  Fits s x ∧ match x.call with
    | .writeInt32 _ => Clear 4 p
    | .writeInt64 _ => Clear 8 p
    | .writeUnpadded _ len => Clear len p
    | .writeInplace len => Clear (PAD_SIZE len) p
    | .write _ len => Clear (PAD_SIZE len) p
    | .writeObject val nullMetaData => EntryFits val nullMetaData p
    | .setDataSize size => CutFits size p
    | .appendFrom j offset len => AppendTidy (x.source s j) offset len p
    | _ => True

theorem perform_tidy {s : State} {x : Step} (hs : ∀ i, Held (s i)) (hfits : TableFits s x) :
    Tidy (s x.parcel) (perform s x) := by
  obtain ⟨i, call, h⟩ := x
  obtain ⟨hfits, htidy⟩ := hfits
  have hp := hs i
  unfold perform
  cases call with
  | writeInt32 val => exact writeAligned_tidy h _ hp hfits htidy
  | writeInt64 val => exact writeAligned_tidy h _ hp hfits htidy
  | writeUnpadded data len => exact writeUnpadded_tidy h data hp hfits htidy
  | writeInplace len => exact writeInplace_tidy h hp hfits.1 hfits.2 htidy
  | write data len => exact write_tidy h data hp hfits.1 hfits.2 htidy
  | writeObject val nullMetaData => exact writeObject_tidy h val nullMetaData hp hfits htidy
  | setDataSize size => exact setDataSize_tidy h hp htidy
  | setDataPosition pos =>
    exact tidy_nil ⟨hp.table.ascending, hp.table.inside, hp.table.inTable⟩ hp.owner
  | setDataCapacity size => exact setDataCapacity_tidy h size hp
  | setData buffer len => exact setData_tidy h buffer len hp
  | appendFrom j offset len =>
    refine appendFrom_tidy h _ offset hp ?_ hfits htidy
    unfold Step.source
    split
    · exact hp.table
    · exact (hs j).table
  | pushAllowFds allowFds =>
    exact tidy_nil ⟨hp.table.ascending, hp.table.inside, hp.table.inTable⟩ hp.owner
  | restoreAllowFds lastValue =>
    exact tidy_nil ⟨hp.table.ascending, hp.table.inside, hp.table.inTable⟩ hp.owner
  | freeData => exact tidy_nil held_initState.table held_initState.owner

theorem next_held {s t : State} {x : Step} (hs : ∀ i, Held (s i)) (hfits : TableFits s x)
    (hnext : next s x = some t) : ∀ i, Held (t i) := by
  have htidy := perform_tidy hs hfits
  have hsound := (perform_bounded (hs x.parcel).sound hfits.1).sound
  cases hnext
  intro i
  dsimp only
  split
  · exact ⟨hsound, htidy.table, htidy.owner⟩
  · exact hs i

/-- Nothing is written over an object that stays in the table. -/
def ObjectsMissed (s : State) (x : Step) : Prop :=
  ∀ o ∈ (s x.parcel).mObjects, o ∈ (perform s x).1.mObjects →
    ∀ a ∈ (perform s x).2, a.Misses o.toNat 16

theorem along_objectsMissed {s : State} (xs : List Step) (hs : ∀ i, Held (s i))
    (hfits : Along TableFits next xs s) : Along ObjectsMissed next xs s := by
  induction xs generalizing s with
  | nil => trivial
  | cons x xs ih =>
    refine ⟨(perform_tidy hs hfits.1).missed, fun t ht => ?_⟩
    exact ih (next_held hs hfits.1 ht) (hfits.2 t ht)

/-- **Object table.** In a run that starts with empty parcels and whose calls all leave the
objects alone, every table is in order, and no object is written over while it is in one. -/
theorem objects_intact (xs : List Step) (hfits : Along TableFits next xs allEmpty) :
    Along ObjectsMissed next xs allEmpty ∧
      ∀ t, after next xs allEmpty = some t → ∀ i, TableOk (t i) := by
  have hheld : ∀ i, Held (allEmpty i) := fun _ => held_initState
  refine ⟨along_objectsMissed xs hheld hfits, fun t ht i => ?_⟩
  exact (along_inv (fun s x t hs hfits => next_held hs hfits) xs hheld hfits ht i).table

/-! ## Cases -/

section
variable (p : Parcel)

instance (n : size_t) : Decidable (Clear n p) :=
  have : Decidable (∀ o ∈ p.mObjects, p.mDataPos.toNat + n.toNat ≤ o.toNat ∨
      o.toNat + 16 ≤ p.mDataPos.toNat) := List.decidableBAll _ _
  inferInstanceAs (Decidable (_ → ∀ o ∈ p.mObjects, p.mDataPos.toNat + n.toNat ≤ o.toNat ∨
      o.toNat + 16 ≤ p.mDataPos.toNat))

instance : Decidable (Behind p) :=
  show Decidable (∀ o ∈ p.mObjects, o.toNat + 16 ≤ p.mDataPos.toNat) from List.decidableBAll _ _

instance (val : flat_binder_object) (nullMetaData : Bool) :
    Decidable (EntryFits val nullMetaData p) := by
  delta EntryFits
  infer_instance

instance (size : size_t) : Decidable (CutFits size p) :=
  have : Decidable (∀ o ∈ p.mObjects, o < size → o.toNat + 16 ≤ size.toNat) :=
    List.decidableBAll _ _
  inferInstanceAs (Decidable (_ → ∀ o ∈ p.mObjects, o < size → o.toNat + 16 ≤ size.toNat))

instance (offset len : size_t) (objects : List size_t) :
    Decidable (EntriesFit offset len objects p) :=
  have : Decidable (∀ o ∈ objects, o.toNat - offset.toNat + p.mDataPos.toNat + 16 ≤
      p.mDataSize.toNat + len.toNat) := List.decidableBAll _ _
  decidable_of_iff (_ ∧ _ ∧ _) ⟨fun ⟨h₁, h₂, h₃⟩ => ⟨h₁, h₂, h₃⟩, fun h => ⟨h.1, h.2, h.3⟩⟩

instance (source : Source) (offset len : size_t) : Decidable (AppendTidy source offset len p) := by
  delta AppendTidy
  infer_instance

end

instance (s : State) : ∀ x, Decidable (TableFits s x)
  | ⟨i, .writeInt32 _, _⟩ => inferInstanceAs (Decidable (_ ∧ Clear 4 (s i)))
  | ⟨i, .writeInt64 _, _⟩ => inferInstanceAs (Decidable (_ ∧ Clear 8 (s i)))
  | ⟨i, .writeUnpadded _ len, _⟩ => inferInstanceAs (Decidable (_ ∧ Clear len (s i)))
  | ⟨i, .writeInplace len, _⟩ => inferInstanceAs (Decidable (_ ∧ Clear (PAD_SIZE len) (s i)))
  | ⟨i, .write _ len, _⟩ => inferInstanceAs (Decidable (_ ∧ Clear (PAD_SIZE len) (s i)))
  | ⟨i, .writeObject val nullMetaData, _⟩ =>
    inferInstanceAs (Decidable (_ ∧ EntryFits val nullMetaData (s i)))
  | ⟨i, .setDataSize size, _⟩ => inferInstanceAs (Decidable (_ ∧ CutFits size (s i)))
  | ⟨_, .setDataPosition _, _⟩ => inferInstanceAs (Decidable (_ ∧ True))
  | ⟨_, .setDataCapacity _, _⟩ => inferInstanceAs (Decidable (_ ∧ True))
  | ⟨_, .setData _ _, _⟩ => inferInstanceAs (Decidable (_ ∧ True))
  | ⟨i, .appendFrom j offset len, h⟩ => inferInstanceAs (Decidable
    (_ ∧ AppendTidy (Step.source s ⟨i, .appendFrom j offset len, h⟩ j) offset len (s i)))
  | ⟨_, .pushAllowFds _, _⟩ => inferInstanceAs (Decidable (_ ∧ True))
  | ⟨_, .restoreAllowFds _, _⟩ => inferInstanceAs (Decidable (_ ∧ True))
  | ⟨_, .freeData, _⟩ => inferInstanceAs (Decidable (_ ∧ True))

/-- A descriptor is written to a parcel that takes none. -/
def refusedRun : List Step :=
  [⟨0, .pushAllowFds false, freshHeap⟩,
    ⟨0, .writeObject ⟨BINDER_TYPE_FD, 0, 5, 1⟩ true, freshHeap⟩]

/-- The refused object is in the table, and not in the data. -/
theorem refusedRun_not_intact :
    ∃ t, after next refusedRun allEmpty = some t ∧ ¬ TableOk (t 0) := by
  refine ⟨_, rfl, fun ht => ?_⟩
  exact absurd (ht.inside 0 (by decide)) (by decide)

/-- Words and objects, with the data cut and appended to another parcel. -/
def orderlyRun : List Step :=
  [⟨0, .writeInt32 1, freshHeap⟩, ⟨0, .writeObject ⟨BINDER_TYPE_HANDLE, 0, 3, 0⟩ false, freshHeap⟩,
    ⟨0, .write (fun _ => 65) 6, freshHeap⟩, ⟨0, .setDataSize 24, freshHeap⟩,
    ⟨1, .writeInt64 7, freshHeap⟩, ⟨1, .appendFrom 0 4 20, freshHeap⟩,
    ⟨0, .setDataPosition 0, freshHeap⟩, ⟨0, .writeInt32 2, freshHeap⟩]

theorem objects_intact_orderlyRun :
    Along ObjectsMissed next orderlyRun allEmpty ∧
      ∀ t, after next orderlyRun allEmpty = some t → ∀ i, TableOk (t i) :=
  objects_intact orderlyRun (by decide +kernel)

end Cdroid.Binder.Memory
