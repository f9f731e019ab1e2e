import Cdroid.Binder.WriteBounds
import Cdroid.Lib.Trace

/-! What the calls on a parcel do to data and an object table that it has borrowed from the
driver: each of them as in `Memory`, with its effects on what is borrowed. -/

namespace Cdroid.Binder.Memory.Ownership
open Cdroid.Lib.Blocks Cdroid.Lib.Runs Cdroid.Lib.Trace Cdroid.Lib.Trace.Traced

/-! ## Effects -/

/-- What a parcel borrows. -/
structure Loan where
  data : Block
  dataSize : size_t
  objects : List size_t

/-- Bytes of the data and entries of the table are written, the table is reallocated, the
release function is called with the members that it is given, or what has been released is
read. -/
inductive Effect
  | written
  | entered
  | reallocated
  | released (mData : Option Block) (mDataSize : size_t) (mObjects : List size_t)
  | stale

abbrev Act := Traced Effect Parcel

def modify (f : Parcel → Parcel) : Act Unit := do
  let p ← get
  set (f p)

/-- An effect on `n` bytes or entries, if the parcel has an owner. -/
def touch (e : Effect) (n : Nat) : Act Unit := do
  let p ← get
  if p.mOwner = true ∧ 0 < n then emit e else pure ()

/-- What has been released is read. -/
def readStale (c : Prop) [Decidable c] : Act Unit := if c then emit .stale else pure ()

/-- `mOwner(this, mData, mDataSize, mObjects, mObjectsSize, mOwnerCookie)`, or the parcel's
own memory is freed. -/
def freeDataNoInit : Act Unit := do
  let p ← get
  if p.mOwner = true then emit (.released p.mData p.mDataSize p.mObjects) else pure ()

def freeData : Act Unit := do
  freeDataNoInit
  set Parcel.initState

/-! ## Growth -/

/-- Both ways to succeed with an owner's data call the release function. -/
def continueWrite (h : Heap) (desired : size_t) : Act Status := do
  let p ← get
  let r := Memory.continueWrite h desired p
  if r.1 = .NO_ERROR then freeDataNoInit else pure ()
  set r.2
  pure r.1

def growData (h : Heap) (len : size_t) : Act Status := do
  let p ← get
  if grownSize len p ≤ p.mDataSize then pure .NO_MEMORY
  else continueWrite h (grownSize len p)

def makeRoom (enough : Prop) [Decidable enough] (h : Heap) (len : size_t) : Act Status :=
  if enough then pure .NO_ERROR else growData h len

def growTable (h : Heap) (newSize : Nat) : Act Status := do
  touch .reallocated 1
  let p ← get
  let r := Memory.growTable h newSize p
  set r.2
  pure r.1

/-! ## Writing -/

def putData (data : Block) (len : size_t) : Act Status := do
  touch .written len.toNat
  let p ← get
  let o := Memory.putData data len p
  set o.parcel
  pure o.result

/-- An error is returned as it is. -/
def ifOk (grow write : Act Status) : Act Status := do
  let err ← grow
  if err = .NO_ERROR then write else pure err

def writeAligned (h : Heap) (data : Block) (size : size_t) : Act Status := do
  let p ← get
  ifOk (makeRoom (p.mDataPos + size ≤ p.mDataCapacity) h size) (putData data size)

def writeInt32 (h : Heap) (val : BitVec 32) : Act Status :=
  writeAligned h (ofList (wordBytes val)) 4

def writeInt64 (h : Heap) (val : BitVec 64) : Act Status :=
  writeAligned h (ofList (Memory.doubleWordBytes val)) 8

def writeUnpadded (h : Heap) (data : Block) (len : size_t) : Act Status := do
  let p ← get
  let fin := p.mDataPos + len
  if fin < p.mDataPos then pure .BAD_VALUE
  else ifOk (makeRoom (fin ≤ p.mDataCapacity) h len) (putData data len)

/-- The padding is masked, and the room is handed out to be written. -/
def handOut (len : size_t) : Act (Option size_t) := do
  let p ← get
  if PAD_SIZE len ≠ len then
    touch .written 4
    modify (Memory.applyMask len)
  touch .written len.toNat
  modify (Parcel.finishWrite (PAD_SIZE len))
  pure (Memory.place p)

def writeInplace (h : Heap) (len : size_t) : Act (Option size_t) := do
  let p ← get
  let padded := PAD_SIZE len
  if p.mDataPos + padded < p.mDataPos then pure none
  else
    let err ← makeRoom (p.mDataPos + padded ≤ p.mDataCapacity) h padded
    if err = .NO_ERROR then handOut len else pure none

def write (h : Heap) (data : Block) (len : size_t) : Act Status := do
  match ← writeInplace h len with
  | some offset =>
    modify (Parcel.poke data len.toNat offset.toNat)
    pure .NO_ERROR
  | none =>
    let p ← get
    pure p.mError

def putObject (val : flat_binder_object) (nullMetaData : Bool) : Act Status := do
  touch .written 16
  if Entered val nullMetaData then touch .entered 1 else pure ()
  let p ← get
  let o := Memory.putObject val nullMetaData p
  set o.parcel
  pure o.result

def writeObject (h : Heap) (val : flat_binder_object) (nullMetaData : Bool) : Act Status := do
  let p ← get
  let enoughObjects := p.mObjects.length < p.mObjectsCapacity
  ifOk (makeRoom (p.mDataPos + 16 ≤ p.mDataCapacity) h 16) do
    let p₁ ← get
    ifOk (if enoughObjects then pure .NO_ERROR
      else growTable h ((p₁.mObjects.length + 2) * 3 / 2)) (putObject val nullMetaData)

/-! ## Size and capacity -/

def setDataSize (h : Heap) (size : size_t) : Act Status :=
  ifOk (continueWrite h size) do
    modify fun p => { p with mDataSize := size }
    pure .NO_ERROR

def setDataCapacity (h : Heap) (size : size_t) : Act Status := do
  let p ← get
  if p.mDataCapacity < size then continueWrite h size else pure .NO_ERROR

def restartWrite (h : Heap) (desired : size_t) : Act Status := do
  let p ← get
  if p.mOwner = true then
    freeData
    continueWrite h desired
  else
    let r := Memory.restartWrite h desired p
    set r.2
    pure r.1

def setData (h : Heap) (buffer : Block) (len : size_t) : Act Status :=
  ifOk (restartWrite h len) do
    touch .written len.toNat
    modify fun p => { p.poke buffer len.toNat 0 with mDataSize := len }
    pure .NO_ERROR

/-! ## Appending -/

def adoptObject (h : Heap) (off : size_t) : Act Status := do
  touch .entered 1
  let p ← get
  if p.mData.elim 0 (Memory.wordAt · off.toNat) = Memory.BINDER_TYPE_FD then touch .written 8
  else pure ()
  let o := Memory.adoptObject h off p
  set o.parcel
  pure o.result

def adoptObjects (h : Heap) : List size_t → Act Status
  | [] => pure .NO_ERROR
  | off :: offs => do
    let first ← adoptObject h off
    let rest ← adoptObjects h offs
    pure (if rest = .NO_ERROR then first else rest)

/-- The pointers of the parcel that is appended from are taken before the growth. -/
def appendFrom (h : Heap) (source : Source) (offset len : size_t) : Act Status := do
  let p ← get
  let q := source.parcel p
  if len = 0 then pure .NO_ERROR
  else if q.mDataSize < offset ∨ q.mDataSize < len ∨ q.mDataSize < offset + len then
    pure .BAD_VALUE
  else
    let objects := Memory.objectsInRange offset len q.mObjects
    let full := p.mDataCapacity < p.mDataSize + len
    ifOk (makeRoom (¬ full) h len) do
      readStale (source.isSelf = true ∧ full ∧ p.mOwner = true)
      touch .written len.toNat
      let data := if source.isSelf ∧ full then h.staleData else q.mData.getD h.staleData
      modify (Memory.appendData data offset len)
      if objects = [] then pure .NO_ERROR
      else
        let p₂ ← get
        let moves := p₂.mObjectsCapacity < p₂.mObjects.length + objects.length
        let entries := if source.isSelf ∧ (moves ∨ full ∧ p.mOwner) then
            (List.range objects.length).map h.staleObjects
          else objects
        ifOk (if moves then growTable h ((p₂.mObjects.length + objects.length) * 3 / 2)
          else pure .NO_ERROR) (adoptObjects h (entries.map fun o => o - offset + p.mDataPos))

/-! ## Calls -/

/-- A call, with what stands behind the numbers of the parcels. -/
structure Op where
  call : Call
  heap : Heap
  sources : Nat → Source

/-- The result is not looked at. -/
def quiet {α : Type} (m : Act α) : Act Unit := do
  let _ ← m
  pure ()

def Op.act (op : Op) : Act Unit :=
  match op.call with
  | .writeInt32 val => quiet (writeInt32 op.heap val)
  | .writeInt64 val => quiet (writeInt64 op.heap val)
  | .writeUnpadded data len => quiet (writeUnpadded op.heap data len)
  | .writeInplace len => quiet (writeInplace op.heap len)
  | .write data len => quiet (write op.heap data len)
  | .writeObject val nullMetaData => quiet (writeObject op.heap val nullMetaData)
  | .setDataSize size => quiet (setDataSize op.heap size)
  | .setDataPosition pos => modify fun p => { p with mDataPos := pos, mNextObjectHint := 0 }
  | .setDataCapacity size => quiet (setDataCapacity op.heap size)
  | .setData buffer len => quiet (setData op.heap buffer len)
  | .appendFrom j offset len => quiet (appendFrom op.heap (op.sources j) offset len)
  | .pushAllowFds allowFds =>
    modify fun p => { p with mAllowFds := if allowFds then p.mAllowFds else false }
  | .restoreAllowFds lastValue => modify fun p => { p with mAllowFds := lastValue }
  | .freeData => freeData

def next (p : Parcel) (op : Op) : Option Parcel := some (op.act p).2.1

/-- The effects of a run, and of the destructor or of `ipcSetDataReference` after it. -/
def effects : List Op → Parcel → List Effect
  | [], p => (freeDataNoInit p).2.2
  | op :: ops, p => (op.act p).2.2 ++ effects ops (op.act p).2.1

/-! ## The same calls -/

section
variable {E : Effect → Prop} {p : Parcel} {h : Heap}

@[simp] theorem wp_modify (f : Parcel → Parcel) {Q : Unit → Parcel → Prop} :
    wp E (modify f) Q p ↔ Q () (f p) := by
  simp [modify]

@[simp] theorem wp_touch (e : Effect) (n : Nat) {Q : Unit → Parcel → Prop} :
    wp E (touch e n) Q p ↔ (p.mOwner = true ∧ 0 < n → E e) ∧ Q () p := by
  simp only [touch, wp_bind, wp_get, wp_ite, wp_emit, wp_pure]
  split
  · next hp => exact and_congr_left' ⟨fun he _ => he, fun he => he hp⟩
  · next hp => exact ⟨fun hQ => ⟨fun he => absurd he hp, hQ⟩, fun hQ => hQ.2⟩

@[simp] theorem wp_freeDataNoInit {Q : Unit → Parcel → Prop} :
    wp E freeDataNoInit Q p ↔
      (p.mOwner = true → E (.released p.mData p.mDataSize p.mObjects)) ∧ Q () p := by
  simp only [freeDataNoInit, wp_bind, wp_get, wp_ite, wp_emit, wp_pure]
  split
  · next hp => exact and_congr_left' ⟨fun he _ => he, fun he => he hp⟩
  · next hp => exact ⟨fun hQ => ⟨fun he => absurd he hp, hQ⟩, fun hQ => hQ.2⟩

end

/-- From `p`, the result and the parcel are those of the call of `Memory`. -/
def Mirrors {α : Type} (m : Act α) (p : Parcel) (o : α × Parcel) : Prop :=
  (m p).1 = o.1 ∧ (m p).2.1 = o.2

section
variable {p : Parcel} {h : Heap} {α β : Type}

theorem mirrors_iff {m : Act α} {o : α × Parcel} :
    Mirrors m p o ↔ wp (fun _ => True) m (fun a q => a = o.1 ∧ q = o.2) p :=
  ⟨fun hm => ⟨fun _ _ => trivial, hm⟩, fun hm => hm.2⟩

theorem Mirrors.bind {m : Act α} {f : α → Act β} {o : α × Parcel} {o' : β × Parcel}
    (hm : Mirrors m p o) (hf : Mirrors (f o.1) o.2 o') : Mirrors (m >>= f) p o' := by
  show (f (m p).1 (m p).2.1).1 = o'.1 ∧ (f (m p).1 (m p).2.1).2.1 = o'.2
  rw [hm.1, hm.2]
  exact hf

theorem Mirrors.quiet {m : Act α} {o : Outcome α} (hm : Mirrors m p (o.result, o.parcel)) :
    (Ownership.quiet m p).2.1 = o.quiet.1 :=
  hm.2

theorem Mirrors.pure (a : α) : Mirrors (pure a) p (a, p) := ⟨rfl, rfl⟩

theorem Mirrors.get {f : Parcel → Act α} {o : α × Parcel} (hf : Mirrors (f p) p o) :
    Mirrors (Traced.get >>= f) p o := hf

theorem Mirrors.ite {c : Prop} [Decidable c] {m m' : Act α} {o o' : α × Parcel}
    (hm : c → Mirrors m p o) (hm' : ¬ c → Mirrors m' p o') :
    Mirrors (if c then m else m') p (if c then o else o') := by
  split
  · exact hm ‹_›
  · exact hm' ‹_›

/-- An effect is no change. -/
theorem Mirrors.touch {e : Effect} {n : Nat} {f : Unit → Act α} {o : α × Parcel}
    (hf : Mirrors (f ()) p o) : Mirrors (Ownership.touch e n >>= f) p o := by
  refine Mirrors.bind (o := ((), p)) ?_ hf
  simp [mirrors_iff]

theorem Mirrors.readStale {c : Prop} [Decidable c] {f : Unit → Act α} {o : α × Parcel}
    (hf : Mirrors (f ()) p o) : Mirrors (Ownership.readStale c >>= f) p o := by
  refine Mirrors.bind (o := ((), p)) ?_ hf
  unfold Ownership.readStale
  split <;> exact ⟨rfl, rfl⟩

theorem Mirrors.modify {g : Parcel → Parcel} {f : Unit → Act α} {o : α × Parcel}
    (hf : Mirrors (f ()) (g p) o) : Mirrors (Ownership.modify g >>= f) p o := hf

theorem mirrors_continueWrite (desired : size_t) :
    Mirrors (continueWrite h desired) p (Memory.continueWrite h desired p) := by
  simp only [mirrors_iff, continueWrite, wp_bind, wp_get, wp_ite, wp_freeDataNoInit, wp_pure,
    wp_set]
  split <;> simp

theorem mirrors_growData (len : size_t) :
    Mirrors (growData h len) p (Memory.growData h len p) :=
  .get (.ite (fun _ => .pure _) fun _ => mirrors_continueWrite _)

theorem mirrors_makeRoom (enough : Prop) [Decidable enough] (len : size_t) :
    Mirrors (makeRoom enough h len) p (Memory.makeRoom enough h len p) :=
  .ite (fun _ => .pure _) fun _ => mirrors_growData len

theorem mirrors_growTable (n : Nat) :
    Mirrors (growTable h n) p (Memory.growTable h n p) :=
  .touch ⟨rfl, rfl⟩

theorem mirrors_putData (data : Block) (len : size_t) :
    Mirrors (putData data len) p (.NO_ERROR, (Memory.putData data len p).parcel) :=
  .touch ⟨rfl, rfl⟩

/-- The result of a call and the parcel that it leaves. -/
def Outcome.pair {α : Type} (o : Outcome α) : α × Parcel := (o.result, o.parcel)

theorem Mirrors.ifOk {grow write : Act Status} {grown : Status × Parcel}
    {write' : Parcel → Outcome Status} (hg : Mirrors grow p grown)
    (hw : Mirrors write grown.2 (Outcome.pair (write' grown.2))) :
    Mirrors (Ownership.ifOk grow write) p (Outcome.pair (Memory.ifOk grown write')) := by
  refine hg.bind ?_
  unfold Memory.ifOk restartingWrite
  split
  · exact hw
  · exact ⟨rfl, rfl⟩

theorem mirrors_writeAligned (data : Block) (size : size_t) :
    Mirrors (writeAligned h data size) p (Outcome.pair (Memory.writeAligned h data size p)) :=
  .get (.ifOk (mirrors_makeRoom _ _) (mirrors_putData _ _))

theorem mirrors_writeInt32 (val : BitVec 32) :
    Mirrors (writeInt32 h val) p (Outcome.pair (Memory.writeInt32 h val p)) := by
  unfold writeInt32 Memory.writeInt32
  exact mirrors_writeAligned _ _

theorem mirrors_writeInt64 (val : BitVec 64) :
    Mirrors (writeInt64 h val) p (Outcome.pair (Memory.writeInt64 h val p)) := by
  unfold writeInt64 Memory.writeInt64
  exact mirrors_writeAligned _ _

theorem mirrors_writeUnpadded (data : Block) (len : size_t) :
    Mirrors (writeUnpadded h data len) p (Outcome.pair (Memory.writeUnpadded h data len p)) := by
  refine .get ?_
  unfold Memory.writeUnpadded
  dsimp only
  split
  · exact ⟨rfl, rfl⟩
  · exact .ifOk (mirrors_makeRoom _ _) (mirrors_putData _ _)

theorem mirrors_writeInplace (len : size_t) :
    Mirrors (writeInplace h len) p (Outcome.pair (Memory.writeInplace h len p)) := by
  refine .get ?_
  unfold Memory.writeInplace
  dsimp only
  split
  · exact ⟨rfl, rfl⟩
  · refine (mirrors_makeRoom _ _).bind ?_
    unfold restartingWrite
    split
    · refine .get ?_
      simp only [mirrors_iff]
      split <;> simp [Outcome.pair]
    · exact ⟨rfl, rfl⟩

theorem mirrors_write (data : Block) (len : size_t) :
    Mirrors (write h data len) p (Outcome.pair (Memory.write h data len p)) := by
  refine (mirrors_writeInplace len).bind ?_
  unfold Memory.write Outcome.pair
  dsimp only
  cases (Memory.writeInplace h len p).result with
  | some offset => exact ⟨rfl, rfl⟩
  | none => exact ⟨rfl, rfl⟩

theorem mirrors_putObject (val : flat_binder_object) (nullMetaData : Bool) :
    Mirrors (putObject val nullMetaData) p
      (Outcome.pair (Memory.putObject val nullMetaData p)) := by
  refine .touch ?_
  dsimp only
  split
  · exact .touch ⟨rfl, rfl⟩
  · exact ⟨rfl, rfl⟩

theorem mirrors_writeObject (val : flat_binder_object) (nullMetaData : Bool) :
    Mirrors (writeObject h val nullMetaData) p
      (Outcome.pair (Memory.writeObject h val nullMetaData p)) := by
  refine .get (.ifOk (mirrors_makeRoom _ _) (.get (.ifOk ?_ (mirrors_putObject _ _))))
  exact .ite (fun _ => .pure _) fun _ => mirrors_growTable _

theorem mirrors_setDataSize (size : size_t) :
    Mirrors (setDataSize h size) p (Outcome.pair (Memory.setDataSize h size p)) := by
  refine (mirrors_continueWrite size).bind ?_
  unfold Memory.setDataSize
  dsimp only
  split
  · exact ⟨rfl, rfl⟩
  · exact ⟨rfl, rfl⟩

theorem mirrors_setDataCapacity (size : size_t) :
    Mirrors (setDataCapacity h size) p (Outcome.pair (Memory.setDataCapacity h size p)) := by
  refine .get ?_
  unfold Memory.setDataCapacity
  dsimp only
  split
  · exact mirrors_continueWrite size
  · exact ⟨rfl, rfl⟩

theorem mirrors_restartWrite (desired : size_t) :
    Mirrors (restartWrite h desired) p (Memory.restartWrite h desired p) := by
  refine .get ?_
  unfold Memory.restartWrite
  split
  · refine Mirrors.bind (o := ((), Parcel.initState)) ?_ (mirrors_continueWrite desired)
    simp [mirrors_iff, freeData]
  · exact ⟨rfl, rfl⟩

theorem mirrors_setData (buffer : Block) (len : size_t) :
    Mirrors (setData h buffer len) p (Outcome.pair (Memory.setData h buffer len p)) := by
  refine (mirrors_restartWrite len).bind ?_
  unfold Memory.setData
  dsimp only
  split
  · exact .touch ⟨rfl, rfl⟩
  · exact ⟨rfl, rfl⟩

theorem mirrors_adoptObject (off : size_t) :
    Mirrors (adoptObject h off) p (Outcome.pair (Memory.adoptObject h off p)) := by
  refine .touch (.get ?_)
  dsimp only
  split
  · exact .touch ⟨rfl, rfl⟩
  · exact ⟨rfl, rfl⟩

theorem mirrors_adoptObjects (offs : List size_t) :
    Mirrors (adoptObjects h offs) p (Outcome.pair (Memory.adoptObjects h offs p)) := by
  induction offs generalizing p with
  | nil => exact ⟨rfl, rfl⟩
  | cons off offs ih => exact (mirrors_adoptObject off).bind (ih.bind ⟨rfl, rfl⟩)

theorem mirrors_appendFrom (source : Source) (offset len : size_t) :
    Mirrors (appendFrom h source offset len) p
      (Outcome.pair (Memory.appendFrom h source offset len p)) := by
  refine .get ?_
  unfold Memory.appendFrom
  dsimp only
  split
  · exact ⟨rfl, rfl⟩
  split
  · exact ⟨rfl, rfl⟩
  refine Mirrors.ifOk (mirrors_makeRoom _ _) ?_
  generalize (Memory.makeRoom (¬ p.mDataCapacity < p.mDataSize + len) h len p).2 = p₁
  refine Mirrors.readStale (Mirrors.touch (Mirrors.modify ?_))
  split
  · exact ⟨rfl, rfl⟩
  · refine .get (.ifOk (.ite (fun _ => mirrors_growTable _) fun _ => .pure _) ?_)
    exact mirrors_adoptObjects _

end

/-- A call on a parcel among others. -/
theorem act_perform (s : State) (x : Step) :
    ((Op.mk x.call x.heap (x.source s)).act (s x.parcel)).2.1 = (perform s x).1 := by
  unfold perform Op.act
  cases x.call with
  | writeInt32 val => exact (mirrors_writeInt32 val).quiet
  | writeInt64 val => exact (mirrors_writeInt64 val).quiet
  | writeUnpadded data len => exact (mirrors_writeUnpadded data len).quiet
  | writeInplace len => exact (mirrors_writeInplace len).quiet
  | write data len => exact (mirrors_write data len).quiet
  | writeObject val nullMetaData => exact (mirrors_writeObject val nullMetaData).quiet
  | setDataSize size => exact (mirrors_setDataSize size).quiet
  | setDataPosition pos => rfl
  | setDataCapacity size => exact (mirrors_setDataCapacity size).quiet
  | setData buffer len => exact (mirrors_setData buffer len).quiet
  | appendFrom j offset len => exact (mirrors_appendFrom (x.source s j) offset len).quiet
  | pushAllowFds allowFds => rfl
  | restoreAllowFds lastValue => rfl
  | freeData => rfl

/-! ## Memory of one's own -/

/-- A parcel without an owner stays one, and nothing happens to what it once borrowed. -/
def Own {α : Type} (m : Act α) : Prop :=
  ∀ p : Parcel, p.mOwner = false → wp (fun _ => False) m (fun _ q => q.mOwner = false) p

section
variable {h : Heap} {α β : Type}

theorem Own.pure (a : α) : Own (pure a) := fun _ hp => (wp_pure a).mpr hp

theorem Own.bind {m : Act α} {f : α → Act β} (hm : Own m) (hf : ∀ a, Own (f a)) :
    Own (m >>= f) := fun p hp => wp_seq (hm p hp) hf

/-- What a state is read for may depend on its having no owner. -/
theorem Own.get {f : Parcel → Act α} (hf : ∀ p, Own (f p)) : Own (Traced.get >>= f) :=
  fun p hp => hf p p hp

theorem Own.ite {c : Prop} [Decidable c] {m m' : Act α} (hm : Own m) (hm' : Own m') :
    Own (if c then m else m') := by
  split
  · exact hm
  · exact hm'

theorem Own.touch (e : Effect) (n : Nat) : Own (Ownership.touch e n) := by
  intro p hp
  simp [hp]

theorem Own.modify {f : Parcel → Parcel} (hf : ∀ p, (f p).mOwner = p.mOwner) :
    Own (Ownership.modify f) := by
  intro p hp
  simp [hf, hp]

theorem continueWrite_unowned {p : Parcel} (hp : p.mOwner = false) (desired : size_t) :
    (Memory.continueWrite h desired p).2.mOwner = false := by
  unfold Memory.continueWrite
  rw [if_neg (by simp [hp])]
  cases p.mData with
  | none => cases h.data <;> exact hp
  | some old =>
    dsimp only
    split
    · cases h.data <;> simp [hp]
    · simp [hp]

theorem own_readStale {c : Prop} [Decidable c] (hc : ¬ c) : Own (readStale c) := by
  unfold readStale
  rw [if_neg hc]
  exact .pure ()

theorem own_freeDataNoInit : Own freeDataNoInit := by
  intro p hp
  simp [hp]

theorem own_freeData : Own freeData := by
  intro p hp
  simp [freeData, hp, Parcel.initState]

theorem own_continueWrite (desired : size_t) : Own (continueWrite h desired) := by
  intro p hp
  have hback := continueWrite_unowned (h := h) hp desired
  simp only [continueWrite, wp_bind, wp_get, wp_ite, wp_pure, wp_set, wp_freeDataNoInit]
  split <;> simp [hp, hback]

theorem own_growData (len : size_t) : Own (growData h len) :=
  .get fun _ => .ite (.pure _) (own_continueWrite _)

theorem own_makeRoom (enough : Prop) [Decidable enough] (len : size_t) :
    Own (makeRoom enough h len) :=
  .ite (.pure _) (own_growData len)

theorem own_growTable (n : Nat) : Own (growTable h n) := by
  refine (Own.touch _ _).bind fun _ p hp => ?_
  simp only [wp_bind, wp_get, wp_set, wp_pure, Memory.growTable]
  split <;> exact hp

theorem own_ifOk {grow write : Act Status} (hg : Own grow) (hw : Own write) :
    Own (ifOk grow write) :=
  hg.bind fun _ => .ite hw (.pure _)

theorem own_putData (data : Block) (len : size_t) : Own (putData data len) :=
  (Own.touch _ _).bind fun _ p hp => by
    simp only [wp_bind, wp_get, wp_set, wp_pure]
    exact hp

theorem own_writeAligned (data : Block) (size : size_t) : Own (writeAligned h data size) :=
  .get fun _ => own_ifOk (own_makeRoom _ _) (own_putData _ _)

theorem own_writeUnpadded (data : Block) (len : size_t) : Own (writeUnpadded h data len) :=
  .get fun _ => .ite (.pure _) (own_ifOk (own_makeRoom _ _) (own_putData _ _))

theorem own_handOut (len : size_t) : Own (handOut len) := by
  refine .get fun q => ?_
  have hroom : Own (do
      touch .written len.toNat
      Ownership.modify (Parcel.finishWrite (PAD_SIZE len))
      pure (some q.mDataPos)) :=
    (Own.touch _ _).bind fun _ => Own.bind (Own.modify fun _ => rfl) fun _ => .pure _
  exact Own.ite ((Own.touch _ _).bind fun _ => Own.bind (Own.modify fun _ => rfl) fun _ => hroom)
    hroom

theorem own_writeInplace (len : size_t) : Own (writeInplace h len) :=
  .get fun _ => .ite (.pure _) ((own_makeRoom _ _).bind fun _ => .ite (own_handOut len) (.pure _))

theorem own_write (data : Block) (len : size_t) : Own (write h data len) := by
  refine (own_writeInplace len).bind fun room => ?_
  cases room with
  | some offset => exact Own.bind (Own.modify fun _ => rfl) fun _ => .pure _
  | none => exact .get fun _ => .pure _

theorem own_putObject (val : flat_binder_object) (nullMetaData : Bool) :
    Own (putObject val nullMetaData) := by
  have hput : Own (do
      let p ← Traced.get
      let o := Memory.putObject val nullMetaData p
      Traced.set o.parcel
      pure o.result) := by
    intro p hp
    simp only [wp_bind, wp_get, wp_set, wp_pure]
    unfold Memory.putObject Parcel.poke
    dsimp only
    split <;> split <;> exact hp
  exact (Own.touch _ _).bind fun _ => .ite ((Own.touch _ _).bind fun _ => hput) hput

theorem own_writeObject (val : flat_binder_object) (nullMetaData : Bool) :
    Own (writeObject h val nullMetaData) :=
  .get fun _ => own_ifOk (own_makeRoom _ _) (.get fun _ =>
    own_ifOk (.ite (.pure _) (own_growTable _)) (own_putObject _ _))

theorem own_setDataSize (size : size_t) : Own (setDataSize h size) :=
  own_ifOk (own_continueWrite size) (Own.bind (Own.modify fun _ => rfl) fun _ => .pure _)

theorem own_setDataCapacity (size : size_t) : Own (setDataCapacity h size) :=
  .get fun _ => .ite (own_continueWrite size) (.pure _)

theorem own_restartWrite (desired : size_t) : Own (restartWrite h desired) := by
  intro p hp
  simp only [restartWrite, wp_bind, wp_get, hp, Bool.false_eq_true, if_false, wp_set, wp_pure]
  unfold Memory.restartWrite
  rw [if_neg (by simp [hp])]
  dsimp only
  generalize (if desired = 0 ∧ p.mData.isSome = true then none else h.data) = data
  cases data <;> split <;> exact hp

theorem own_setData (buffer : Block) (len : size_t) : Own (setData h buffer len) :=
  own_ifOk (own_restartWrite len) ((Own.touch _ _).bind fun _ =>
    Own.bind (Own.modify fun _ => rfl) fun _ => .pure _)

theorem own_adoptObject (off : size_t) : Own (adoptObject h off) := by
  have hadopt : ∀ q : Parcel, q.mOwner = false → Own (do
      let o := Memory.adoptObject h off q
      Traced.set o.parcel
      pure o.result) := by
    intro q hq p _
    simp only [wp_bind, wp_set, wp_pure]
    unfold Memory.adoptObject
    dsimp only
    split <;> exact hq
  refine (Own.touch _ _).bind fun _ p hp => ?_
  exact Own.ite ((Own.touch _ _).bind fun _ => hadopt p hp) (hadopt p hp) p hp

theorem own_adoptObjects (offs : List size_t) : Own (adoptObjects h offs) := by
  induction offs with
  | nil => exact .pure _
  | cons off offs ih => exact (own_adoptObject off).bind fun _ => ih.bind fun _ => .pure _

/-- The old pointers are those of its own memory. -/
theorem own_appendFrom (source : Source) (offset len : size_t) :
    Own (appendFrom h source offset len) := by
  intro p hp
  refine Own.ite (.pure _) (.ite (.pure _) (own_ifOk (own_makeRoom _ _) ?_)) p hp
  have hnot : ¬ (source.isSelf = true ∧ p.mDataCapacity < p.mDataSize + len ∧ p.mOwner = true) :=
    fun hself => by simp [hp] at hself
  refine Own.bind (own_readStale hnot) fun _ => Own.bind (.touch _ _) fun _ =>
    Own.bind (.modify fun _ => rfl) fun _ => .ite (.pure _) (.get fun _ => ?_)
  exact own_ifOk (.ite (own_growTable _) (.pure _)) (own_adoptObjects _)

theorem Own.quiet {m : Act α} (hm : Own m) : Own (Ownership.quiet m) :=
  hm.bind fun _ => .pure _

/-- **Step lemma**, for memory of one's own. -/
theorem Op.own (op : Op) : Own op.act := by
  obtain ⟨c, h, sources⟩ := op
  cases c with
  | writeInt32 val => exact (own_writeAligned (ofList (wordBytes val)) 4).quiet
  | writeInt64 val => exact (own_writeAligned (ofList (doubleWordBytes val)) 8).quiet
  | writeUnpadded data len => exact (own_writeUnpadded data len).quiet
  | writeInplace len => exact (own_writeInplace len).quiet
  | write data len => exact (own_write data len).quiet
  | writeObject val nullMetaData => exact (own_writeObject val nullMetaData).quiet
  | setDataSize size => exact (own_setDataSize size).quiet
  | setDataPosition pos => exact .modify fun _ => rfl
  | setDataCapacity size => exact (own_setDataCapacity size).quiet
  | setData buffer len => exact (own_setData buffer len).quiet
  | appendFrom j offset len => exact (own_appendFrom (sources j) offset len).quiet
  | pushAllowFds allowFds => exact .modify fun _ => rfl
  | restoreAllowFds lastValue => exact .modify fun _ => rfl
  | freeData => exact own_freeData

end

/-! ## Borrowed memory -/

/-- The parcel has the loan, as it was bound to it. -/
structure Lent (L : Loan) (p : Parcel) : Prop where
  owner : p.mOwner = true
  data : p.mData = some L.data
  size : p.mDataSize = L.dataSize
  capacity : p.mDataCapacity = L.dataSize
  objects : p.mObjects = L.objects

/-- The release function is called with what the parcel was bound to. -/
def Loan.release (L : Loan) : Effect := .released (some L.data) L.dataSize L.objects

def Loan.bound (L : Loan) : Parcel := .ipcSetDataReference L.data L.dataSize L.objects

theorem lent_bound (L : Loan) : Lent L L.bound := ⟨rfl, rfl, rfl, rfl, rfl⟩

/-- Either nothing has happened to the loan, and the result meets `Q`, or it has been
released. -/
def Repaid {α : Type} (L : Loan) (m : Act α) (Q : α → Prop) (p : Parcel) : Prop :=
  (Lent L (m p).2.1 ∧ (m p).2.2 = [] ∧ Q (m p).1) ∨
    ((m p).2.1.mOwner = false ∧ (m p).2.2 = [L.release])

/-- It is released if the growth succeeds, and only then. -/
structure Grown (L : Loan) (m : Act Status) (p : Parcel) : Prop where
  ok : (m p).1 = .NO_ERROR → (m p).2.1.mOwner = false ∧ (m p).2.2 = [L.release]
  failed : (m p).1 ≠ .NO_ERROR → Lent L (m p).2.1 ∧ (m p).2.2 = []

section
variable {L : Loan} {p : Parcel} {h : Heap} {α β : Type} {Q : α → Prop} {R : β → Prop}

theorem Repaid.get {f : Parcel → Act α} (hf : Repaid L (f p) Q p) :
    Repaid L (Traced.get >>= f) Q p :=
  hf

theorem Lent.idle (hp : Lent L p) {a : α} (ha : Q a) : Repaid L (pure a) Q p := .inl ⟨hp, rfl, ha⟩

/-- What the loan does not depend on is changed. -/
theorem Lent.changed {f : Parcel → Parcel} {Q : Unit → Prop} (hf : Lent L (f p)) (ha : Q ()) :
    Repaid L (Ownership.modify f) Q p :=
  .inl ⟨hf, rfl, ha⟩

theorem Repaid.pure_bind {a : α} {f : α → Act β} (hf : Repaid L (f a) R p) :
    Repaid L (pure a >>= f) R p :=
  hf

theorem Repaid.mono {m : Act α} {Q' : α → Prop} (hm : Repaid L m Q p) (hQ : ∀ a, Q a → Q' a) :
    Repaid L m Q' p :=
  hm.imp_left fun ⟨hp, heffects, ha⟩ => ⟨hp, heffects, hQ _ ha⟩

/-- What is done behind a release is done to memory of one's own. -/
theorem Repaid.bind {m : Act α} {f : α → Act β} (hm : Repaid L m Q p) (hown : ∀ a, Own (f a))
    (hlent : ∀ a q, Q a → Lent L q → Repaid L (f a) R q) : Repaid L (m >>= f) R p := by
  rcases hm with ⟨hp, heffects, ha⟩ | ⟨hp, heffects⟩
  · have hrest := hlent _ _ ha hp
    show (_ ∧ (m p).2.2 ++ (f (m p).1 (m p).2.1).2.2 = [] ∧ _) ∨
      (_ ∧ (m p).2.2 ++ (f (m p).1 (m p).2.1).2.2 = [L.release])
    rw [heffects]
    exact hrest
  · have hrest := hown (m p).1 _ hp
    refine .inr ⟨hrest.2, ?_⟩
    show (m p).2.2 ++ (f (m p).1 (m p).2.1).2.2 = _
    rw [heffects, List.eq_nil_iff_forall_not_mem.mpr hrest.1, List.append_nil]

theorem Repaid.quiet {m : Act α} (hm : Repaid L m Q p) :
    Repaid L (Ownership.quiet m) (fun _ => True) p :=
  hm.bind (fun _ => .pure _) fun _ _ _ hq => hq.idle trivial

theorem Grown.repaid {m : Act Status} (hm : Grown L m p) :
    Repaid L m (fun err => err ≠ .NO_ERROR) p := by
  by_cases hok : (m p).1 = .NO_ERROR
  · exact .inr (hm.ok hok)
  · obtain ⟨hp, heffects⟩ := hm.failed hok
    exact .inl ⟨hp, heffects, hok⟩

theorem Grown.get {f : Parcel → Act Status} (hf : Grown L (f p) p) :
    Grown L (Traced.get >>= f) p :=
  ⟨hf.ok, hf.failed⟩

/-- Where the growth fails, the write is not made. -/
theorem Grown.ifOk {grow write : Act Status} (hg : Grown L grow p) (hw : Own write) :
    Repaid L (Ownership.ifOk grow write) (fun _ => True) p := by
  refine hg.repaid.bind (fun _ => .ite hw (.pure _)) fun err q herr hq => ?_
  rw [if_neg herr]
  exact hq.idle trivial

theorem Grown.ifFailed {grow : Act Status} (hg : Grown L grow p)
    (hfailed : (grow p).1 ≠ .NO_ERROR) (write : Act Status) :
    Repaid L (Ownership.ifOk grow write) (fun _ => True) p := by
  obtain ⟨hp, heffects⟩ := hg.failed hfailed
  let rest : Act Status := if (grow p).1 = .NO_ERROR then write else pure (grow p).1
  have hrest : rest = pure (grow p).1 := if_neg hfailed
  show (Lent L (rest (grow p).2.1).2.1 ∧ (grow p).2.2 ++ (rest (grow p).2.1).2.2 = [] ∧ True) ∨
    ((rest (grow p).2.1).2.1.mOwner = false ∧
      (grow p).2.2 ++ (rest (grow p).2.1).2.2 = [L.release])
  rw [hrest, heffects]
  exact .inl ⟨hp, rfl, trivial⟩

theorem Lent.sound (hp : Lent L p) : Sound p where
  size_le := by
    rw [hp.size, hp.capacity]
    exact BitVec.le_refl _
  null hnone := by
    rw [hp.data] at hnone
    cases hnone
  owned _ := by
    rw [hp.data]
    rfl

theorem Lent.freeDataNoInit (hp : Lent L p) :
    Ownership.freeDataNoInit p = ((), p, [L.release]) := by
  show (if p.mOwner = true then emit (.released p.mData p.mDataSize p.mObjects)
    else pure () : Act Unit) p = _
  rw [if_pos hp.owner, hp.data, hp.size, hp.objects]
  rfl

theorem Lent.error (hp : Lent L p) (err : Status) : Lent L { p with mError := err } :=
  ⟨hp.owner, hp.data, hp.size, hp.capacity, hp.objects⟩

/-- A loan is taken over by a copy. -/
theorem Lent.continueWrite (hp : Lent L p) (desired : size_t) :
    Grown L (Ownership.continueWrite h desired) p := by
  have heq : Ownership.continueWrite h desired p =
      ((Memory.continueWrite h desired p).1, (Memory.continueWrite h desired p).2,
        if (Memory.continueWrite h desired p).1 = .NO_ERROR then [L.release] else []) := by
    show (do
      if (Memory.continueWrite h desired p).1 = .NO_ERROR then Ownership.freeDataNoInit
        else pure ()
      Traced.set (Memory.continueWrite h desired p).2
      pure (Memory.continueWrite h desired p).1 : Act Status) p = _
    split
    · show ((Memory.continueWrite h desired p).1, (Memory.continueWrite h desired p).2,
        (Ownership.freeDataNoInit p).2.2 ++ []) = _
      rw [hp.freeDataNoInit]
      rfl
    · rfl
  constructor
  · intro hok
    rw [heq] at hok ⊢
    refine ⟨?_, if_pos hok⟩
    have hcontinued := continueWrite_continued hok
    dsimp only
    generalize (Memory.continueWrite h desired p).2 = q at hcontinued ⊢
    have hnot : p.mOwner ≠ false := by simp [hp.owner]
    cases hcontinued with
    | freed => rfl
    | taken => rfl
    | grown _ _ howner => exact absurd howner hnot
    | cut _ howner => exact absurd howner hnot
    | first _ howner => exact absurd howner hnot
  · intro hfailed
    rw [heq] at hfailed ⊢
    refine ⟨?_, if_neg hfailed⟩
    dsimp only
    rw [continueWrite_failed hp.sound hfailed]
    exact hp.error _

theorem Lent.growData (hp : Lent L p) (len : size_t) :
    Grown L (Ownership.growData h len) p := by
  refine Grown.get ?_
  split
  · exact ⟨nofun, fun _ => ⟨hp, rfl⟩⟩
  · exact hp.continueWrite _

/-- There is not enough room, and the data grows. -/
theorem Lent.makeRoom (hp : Lent L p) {enough : Prop} [Decidable enough] (hfull : ¬ enough)
    (len : size_t) : Grown L (Ownership.makeRoom enough h len) p := by
  unfold Ownership.makeRoom
  rw [if_neg hfull]
  exact hp.growData len

end

/-! ## What spares a loan -/

/-- Growth is refused, or there is no memory for the copy. -/
def GrowthFails (h : Heap) (len : size_t) (p : Parcel) : Prop :=
  grownSize len p ≤ p.mDataSize ∨ h.data = none ∨ p.mObjects ≠ [] ∧ h.table = false

/-- Nothing is appended, or the data grows for it. -/
def AppendSpares (h : Heap) (source : Source) (offset len : size_t) (p : Parcel) : Prop :=
  let q := source.parcel p
  len = 0 ∨ (q.mDataSize < offset ∨ q.mDataSize < len ∨ q.mDataSize < offset + len) ∨
    p.mDataCapacity < p.mDataSize + len ∧ (source.isSelf = true → GrowthFails h len p)

/-- Nothing is written where the position is: there is no room for it, so that the data
grows, or there is nothing to write. -/
def Op.SparesLoan (p : Parcel) (op : Op) : Prop :=
  match op.call with
  | .writeInt32 _ => ¬ p.mDataPos + 4 ≤ p.mDataCapacity
  | .writeInt64 _ => ¬ p.mDataPos + 8 ≤ p.mDataCapacity
  | .writeUnpadded _ len =>
    len = 0 ∨ p.mDataPos + len < p.mDataPos ∨ ¬ p.mDataPos + len ≤ p.mDataCapacity
  | .writeInplace len | .write _ len => len = 0 ∨ p.mDataPos + PAD_SIZE len < p.mDataPos ∨
    ¬ p.mDataPos + PAD_SIZE len ≤ p.mDataCapacity
  | .writeObject _ _ => ¬ p.mDataPos + 16 ≤ p.mDataCapacity
  | .appendFrom j offset len => AppendSpares op.heap (op.sources j) offset len p
  | _ => True

/-- What the call writes lies in the block: anywhere else, it could be what is or was borrowed.
And a loan is spared. -/
def Op.Spares (p : Parcel) (op : Op) : Prop :=
  op.call.Fits p op.sources ∧ (p.mOwner = true → op.SparesLoan p)

section
variable {L : Loan} {p : Parcel} {h : Heap}

theorem Lent.writeAligned (hp : Lent L p) (data : Block) {size : size_t}
    (hfull : ¬ p.mDataPos + size ≤ p.mDataCapacity) :
    Repaid L (Ownership.writeAligned h data size) (fun _ => True) p :=
  .get ((hp.makeRoom hfull size).ifOk (own_putData data size))

theorem poke_nothing (data : Block) (n : Nat) : p.poke data 0 n = p := by
  have hblit : ∀ b : Block, blit data 0 n b = b := fun b => funext fun i => if_neg (by omega)
  have hdata : (p.mData.map fun b => blit data 0 n b) = p.mData := by
    simp only [hblit, Option.map_id']
  exact congrArg (fun d => { p with mData := d }) hdata

theorem Lent.finishNothing (hp : Lent L p) (hin : p.mDataPos ≤ p.mDataCapacity) :
    p.finishWrite 0 = p := by
  have hpos : p.mDataPos + 0 = p.mDataPos := by bv_omega
  have hnot : ¬ p.mDataSize < p.mDataPos := by
    rw [hp.size, ← hp.capacity]
    exact BitVec.not_lt.mpr hin
  unfold Parcel.finishWrite
  dsimp only
  rw [hpos, if_neg hnot]

/-- No byte is touched. -/
theorem Repaid.untouched {α : Type} {Q : α → Prop} {e : Effect} {f : Unit → Act α}
    (hf : Repaid L (f ()) Q p) : Repaid L (Ownership.touch e (0 : size_t).toNat >>= f) Q p := by
  have hsame : (Ownership.touch e (0 : size_t).toNat) p = ((), p, []) := by
    show (if p.mOwner = true ∧ 0 < (0 : size_t).toNat then emit e else pure () : Act Unit) p = _
    rw [if_neg fun hlt => absurd hlt.2 (Nat.lt_irrefl _)]
    rfl
  have heq : (Ownership.touch e (0 : size_t).toNat >>= f) p = f () p := by
    show ((f ((Ownership.touch e (0 : size_t).toNat) p).1 _).1, _) = _
    rw [hsame]
    rfl
  unfold Repaid
  rw [heq]
  exact hf

theorem Lent.putNothing (hp : Lent L p) (hin : p.mDataPos ≤ p.mDataCapacity) (data : Block) :
    Repaid L (Ownership.putData data 0) (fun _ => True) p := by
  have hsame : (Memory.putData data 0 p).parcel = p := by
    show Parcel.finishWrite 0 (p.poke data 0 p.mDataPos.toNat) = p
    rw [poke_nothing, hp.finishNothing hin]
  refine Repaid.untouched (Repaid.get (.inl ⟨?_, rfl, trivial⟩))
  show Lent L (Memory.putData data 0 p).parcel
  rwa [hsame]

theorem Lent.handNothing (hp : Lent L p) (hin : p.mDataPos ≤ p.mDataCapacity) :
    Repaid L (handOut 0) (fun _ => True) p := by
  refine Repaid.get ?_
  dsimp only
  rw [if_neg (by decide)]
  refine Repaid.untouched (.inl ⟨?_, rfl, trivial⟩)
  show Lent L (p.finishWrite 0)
  rwa [hp.finishNothing hin]

theorem Lent.writeUnpadded (hp : Lent L p) (data : Block) {len : size_t}
    (hs : len = 0 ∨ p.mDataPos + len < p.mDataPos ∨ ¬ p.mDataPos + len ≤ p.mDataCapacity) :
    Repaid L (Ownership.writeUnpadded h data len) (fun _ => True) p := by
  refine Repaid.get ?_
  dsimp only
  split
  · exact hp.idle trivial
  · next hwrap =>
    by_cases hfull : p.mDataPos + len ≤ p.mDataCapacity
    · obtain rfl : len = 0 := by
        rcases hs with hzero | hs | hs
        · exact hzero
        · exact absurd hs hwrap
        · exact absurd hfull hs
      have hin : p.mDataPos ≤ p.mDataCapacity := by bv_omega
      unfold Ownership.makeRoom
      rw [if_pos hfull]
      exact hp.putNothing hin data
    · exact (hp.makeRoom hfull len).ifOk (own_putData data len)

/-- Where the loan is kept, there is no room that was handed out. -/
theorem Lent.writeInplace (hp : Lent L p) {len : size_t}
    (hs : len = 0 ∨ p.mDataPos + PAD_SIZE len < p.mDataPos ∨
      ¬ p.mDataPos + PAD_SIZE len ≤ p.mDataCapacity) :
    Repaid L (Ownership.writeInplace h len) (fun room => room = none ∨ len = 0) p := by
  refine Repaid.get ?_
  dsimp only
  split
  · exact hp.idle (.inl rfl)
  · next hwrap =>
    by_cases hfull : p.mDataPos + PAD_SIZE len ≤ p.mDataCapacity
    · obtain rfl : len = 0 := by
        rcases hs with hzero | hs | hs
        · exact hzero
        · exact absurd hs hwrap
        · exact absurd hfull hs
      have hin : p.mDataPos ≤ p.mDataCapacity := by
        rw [show PAD_SIZE 0 = 0 from rfl] at hfull
        bv_omega
      unfold Ownership.makeRoom
      rw [if_pos hfull]
      refine Repaid.pure_bind ?_
      rw [if_pos rfl]
      exact (hp.handNothing hin).mono fun _ _ => .inr rfl
    · refine (hp.makeRoom hfull _).repaid.bind (fun _ => .ite (own_handOut len) (.pure _))
        fun err q herr hq => ?_
      rw [if_neg herr]
      exact hq.idle (.inl rfl)

theorem Lent.write (hp : Lent L p) (data : Block) {len : size_t}
    (hs : len = 0 ∨ p.mDataPos + PAD_SIZE len < p.mDataPos ∨
      ¬ p.mDataPos + PAD_SIZE len ≤ p.mDataCapacity) :
    Repaid L (Ownership.write h data len) (fun _ => True) p := by
  refine (hp.writeInplace hs).bind (fun room => ?_) fun room q hroom hq => ?_
  · cases room with
    | some offset => exact Own.bind (Own.modify fun _ => rfl) fun _ => .pure _
    | none => exact .get fun _ => .pure _
  · cases room with
    | none => exact Repaid.get (hq.idle trivial)
    | some offset =>
      obtain rfl : len = 0 := hroom.resolve_left nofun
      have hsame : Lent L (q.poke data 0 offset.toNat) := by rwa [poke_nothing]
      exact .inl ⟨hsame, rfl, trivial⟩

theorem Lent.writeObject (hp : Lent L p) (val : flat_binder_object) (nullMetaData : Bool)
    (hfull : ¬ p.mDataPos + 16 ≤ p.mDataCapacity) :
    Repaid L (Ownership.writeObject h val nullMetaData) (fun _ => True) p :=
  .get ((hp.makeRoom hfull 16).ifOk (.get fun _ =>
    own_ifOk (.ite (.pure _) (own_growTable _)) (own_putObject _ _)))

theorem Lent.setDataSize (hp : Lent L p) (size : size_t) :
    Repaid L (Ownership.setDataSize h size) (fun _ => True) p :=
  (hp.continueWrite size).ifOk (Own.bind (Own.modify fun _ => rfl) fun _ => .pure _)

theorem Lent.setDataCapacity (hp : Lent L p) (size : size_t) :
    Repaid L (Ownership.setDataCapacity h size) (fun _ => True) p := by
  refine Repaid.get ?_
  split
  · exact (hp.continueWrite size).repaid.mono fun _ _ => trivial
  · exact hp.idle trivial

theorem Lent.freeData (hp : Lent L p) : Repaid L Ownership.freeData (fun _ => False) p := by
  refine .inr ⟨rfl, ?_⟩
  show (Ownership.freeDataNoInit p).2.2 ++ [] = _
  rw [hp.freeDataNoInit]
  rfl

theorem Lent.setData (hp : Lent L p) (buffer : Block) (len : size_t) :
    Repaid L (Ownership.setData h buffer len) (fun _ => True) p := by
  have hrestart : Repaid L (Ownership.restartWrite h len) (fun _ => False) p := by
    refine Repaid.get ?_
    rw [if_pos hp.owner]
    exact hp.freeData.bind (fun _ => own_continueWrite len) fun _ _ hno => hno.elim
  refine hrestart.bind (fun _ => .ite ?_ (.pure _)) fun _ _ hno => hno.elim
  exact (Own.touch _ _).bind fun _ => Own.bind (Own.modify fun _ => rfl) fun _ => .pure _

/-- The copy fails, and the parcel keeps the loan. -/
theorem Lent.growthFails (hp : Lent L p) {len : size_t} (hf : GrowthFails h len p) :
    (Memory.growData h len p).1 ≠ .NO_ERROR := by
  unfold Memory.growData
  dsimp only
  split
  · exact nofun
  · next hlt =>
    have hmore : p.mDataSize ≤ grownSize len p := by bv_omega
    have hne : grownSize len p ≠ 0 := by bv_omega
    unfold Memory.continueWrite
    rw [if_pos hp.owner, if_neg hne]
    rcases hf with hle | hnone | ⟨hobjects, htable⟩
    · exact absurd hle hlt
    · rw [hnone]
      exact nofun
    · cases h.data with
      | none => exact nofun
      | some data =>
        dsimp only
        rw [if_pos ⟨by rwa [keptObjects_of_le hmore], htable⟩]
        exact nofun

theorem Lent.appendFrom (hp : Lent L p) {source : Source} {offset len : size_t}
    (hs : AppendSpares h source offset len p) :
    Repaid L (Ownership.appendFrom h source offset len) (fun _ => True) p := by
  refine Repaid.get ?_
  dsimp only
  split
  · exact hp.idle trivial
  next hne =>
  split
  · exact hp.idle trivial
  next hrange =>
  obtain ⟨hfull, hself⟩ := (hs.resolve_left hne).resolve_left hrange
  have hroom := hp.makeRoom (h := h) (not_not_intro hfull) len
  by_cases hsource : source.isSelf = true
  · -- the growth fails, and nothing is appended
    have hfailed : (Ownership.makeRoom (¬ p.mDataCapacity < p.mDataSize + len) h len p).1 ≠
        .NO_ERROR := by
      rw [(mirrors_makeRoom _ len).1]
      unfold Memory.makeRoom
      rw [if_neg (not_not_intro hfull)]
      exact hp.growthFails (hself hsource)
    exact hroom.ifFailed hfailed _
  · refine hroom.ifOk ?_
    have hnot : ¬ (source.isSelf = true ∧ p.mDataCapacity < p.mDataSize + len ∧
      p.mOwner = true) := fun hold => hsource hold.1
    refine Own.bind (own_readStale hnot) fun _ => Own.bind (.touch _ _) fun _ =>
      Own.bind (.modify fun _ => rfl) fun _ => .ite (.pure _) (.get fun _ => ?_)
    exact own_ifOk (.ite (own_growTable _) (.pure _)) (own_adoptObjects _)

end

/-- **Step lemma**, for a loan. -/
theorem Lent.step {L : Loan} {p : Parcel} (hp : Lent L p) {op : Op} (hs : op.Spares p) :
    Repaid L op.act (fun _ => True) p := by
  obtain ⟨c, h, sources⟩ := op
  have hspared := hs.2 hp.owner
  cases c with
  | writeInt32 val => exact (hp.writeAligned _ hspared).quiet
  | writeInt64 val => exact (hp.writeAligned _ hspared).quiet
  | writeUnpadded data len => exact (hp.writeUnpadded data hspared).quiet
  | writeInplace len => exact (hp.writeInplace hspared).quiet
  | write data len => exact (hp.write data hspared).quiet
  | writeObject val nullMetaData => exact (hp.writeObject val nullMetaData hspared).quiet
  | setDataSize size => exact (hp.setDataSize size).quiet
  | setDataPosition pos =>
    exact Lent.changed ⟨hp.owner, hp.data, hp.size, hp.capacity, hp.objects⟩ trivial
  | setDataCapacity size => exact (hp.setDataCapacity size).quiet
  | setData buffer len => exact (hp.setData buffer len).quiet
  | appendFrom j offset len => exact (hp.appendFrom hspared).quiet
  | pushAllowFds allowFds =>
    exact Lent.changed ⟨hp.owner, hp.data, hp.size, hp.capacity, hp.objects⟩ trivial
  | restoreAllowFds lastValue =>
    exact Lent.changed ⟨hp.owner, hp.data, hp.size, hp.capacity, hp.objects⟩ trivial
  | freeData => exact hp.freeData.mono fun _ _ => trivial

/-! ## Runs -/

/-- Behind the release, nothing happens any more. -/
theorem effects_own (ops : List Op) {p : Parcel} (hp : p.mOwner = false) : effects ops p = [] := by
  induction ops generalizing p with
  | nil => exact List.eq_nil_iff_forall_not_mem.mpr (own_freeDataNoInit p hp).1
  | cons op ops ih =>
    have hop := op.own p hp
    rw [effects, ih hop.2, List.eq_nil_iff_forall_not_mem.mpr hop.1]
    rfl

theorem effects_lent {L : Loan} (ops : List Op) {p : Parcel} (hp : Lent L p)
    (hs : Along Op.Spares next ops p) : effects ops p = [L.release] := by
  induction ops generalizing p with
  | nil =>
    rw [effects, hp.freeDataNoInit]
  | cons op ops ih =>
    rw [effects]
    rcases hp.step hs.1 with ⟨hlent, heffects, -⟩ | ⟨hown, heffects⟩
    · rw [heffects, ih hlent (hs.2 _ rfl)]
      rfl
    · rw [heffects, effects_own ops hown]
      rfl

/-- **Driver-owned buffers.** If each call of a run writes inside the block that it finds, and
spares the loan, then all that happens to what the parcel was bound to is one call of the release
function, with what it was bound to. -/
theorem released_once (L : Loan) (ops : List Op) (hs : Along Op.Spares next ops L.bound) :
    effects ops L.bound = [L.release] :=
  effects_lent ops (lent_bound L) hs

def noHeap : Heap :=
  { data := none, table := false, objects := false, dup := fun _ => 0, staleData := fun _ => 0,
    staleObjects := fun _ => 0 }

/-- Four bytes without objects. -/
def fourBytes : Loan := ⟨fun _ => 0, 4, []⟩

/-- A word is written at the start of the bytes that were received. -/
def overwriteRun : List Op := [⟨.writeInt32 5, noHeap, fun _ => .self⟩]

/-- The word is written into the driver's memory. -/
theorem overwriteRun_written :
    ¬ ∀ (L : Loan) (ops : List Op), effects ops L.bound = [L.release] := by
  intro h
  have hlength : (effects overwriteRun fourBytes.bound).length = 1 := by
    rw [h]
    rfl
  revert hlength
  decide +kernel

/-- The word is written behind the bytes that were received. -/
def behindRun : List Op :=
  [⟨.setDataPosition 4, noHeap, fun _ => .self⟩,
    ⟨.writeInt32 5, { noHeap with data := some fun _ => 0 }, fun _ => .self⟩,
    ⟨.writeInt32 6, noHeap, fun _ => .self⟩]

theorem released_once_behindRun : effects behindRun fourBytes.bound = [fourBytes.release] :=
  released_once fourBytes behindRun
    ⟨⟨trivial, fun _ => trivial⟩, fun _ h₁ => by
      cases h₁
      refine ⟨⟨by decide +kernel, fun _ => (by decide : ¬ (4 : size_t) + 4 ≤ 4)⟩, fun _ h₂ => ?_⟩
      cases h₂
      exact ⟨⟨by decide +kernel, fun howner => absurd howner (by decide +kernel)⟩,
        fun _ _ => trivial⟩⟩

end Cdroid.Binder.Memory.Ownership
