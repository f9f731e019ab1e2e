import Cdroid.Binder.WriteStatus
import Cdroid.Lib.Trace

/-! Writing an object that counts: a binder, whose references are acquired, or a
descriptor, which may be a duplicate that the parcel closes. The calls are those of
`Memory`, with what they do to references and descriptors, and the destructor after them. -/

namespace Cdroid.Binder.Memory.ObjectWrites
open Cdroid.Lib.Blocks Cdroid.Lib.Trace Cdroid.Lib.Trace.Traced

/-! ## References and descriptors -/

/-- What an object of a parcel counts on: an object of the process by its address, or by
that of its weak references, or the proxy of a handle. -/
inductive Ref
  | strong (cookie : BitVec 32)
  | weak (refs : BitVec 32)
  | strongProxy (handle : BitVec 32)
  | weakProxy (handle : BitVec 32)
  deriving DecidableEq

/-- A reference is taken or given back, a descriptor is closed, the release function of
borrowed data is called, or bytes are written. -/
inductive Effect
  | acquired (r : Ref)
  | released (r : Ref)
  | closed (fd : BitVec 32)
  | lent
  | wrote (a : Access)
  deriving DecidableEq

/-- The process and the system around a parcel: for which handles it has a proxy, where the
weak references of a local binder are, the descriptor or the error number that `dup`
returns, and the memory there is. -/
structure Env where
  proxies : BitVec 32 → Bool
  getWeakRefs : Address → Address
  dup : BitVec 32 → Except (BitVec 32) (BitVec 32)
  heap : Heap

variable {env : Env}

/-- The reference that `acquire_object` and `release_object` are about, if any. -/
def reference (env : Env) (obj : flat_binder_object) : Option Ref :=
  if obj.type = BINDER_TYPE_BINDER then
    if obj.binder ≠ 0 then some (.strong obj.cookie) else none
  else if obj.type = BINDER_TYPE_WEAK_BINDER then
    if obj.binder ≠ 0 then some (.weak obj.binder) else none
  else if obj.type = BINDER_TYPE_HANDLE then
    if env.proxies obj.binder then some (.strongProxy obj.binder) else none
  else if obj.type = BINDER_TYPE_WEAK_HANDLE then
    if env.proxies obj.binder then some (.weakProxy obj.binder) else none
  else none

/-- `acquire_object` -/
def acquireObject (env : Env) (obj : flat_binder_object) : List Effect :=
  (reference env obj).toList.map .acquired

/-- `release_object`: a descriptor is closed if the object says that it owns it. -/
def releaseObject (env : Env) (obj : flat_binder_object) : List Effect :=
  if obj.type = BINDER_TYPE_FD then if obj.cookie ≠ 0 then [.closed obj.binder] else []
  else (reference env obj).toList.map .released

/-- `reinterpret_cast<flat_binder_object*>(data+offset)` -/
def objectAt (data : Option Block) (offset : size_t) : flat_binder_object :=
  .ofBytes (toList 16 (shift offset.toNat (data.getD fun _ => 0)))

/-- `acquireObjects` and `releaseObjects` go through the table from its end. -/
def acquireObjects (env : Env) (data : Option Block) (objects : List size_t) : List Effect :=
  objects.reverse.flatMap fun o => acquireObject env (objectAt data o)

def releaseObjects (env : Env) (data : Option Block) (objects : List size_t) : List Effect :=
  objects.reverse.flatMap fun o => releaseObject env (objectAt data o)

/-! ## The calls -/

abbrev Act := Traced Effect Parcel

def emitAll (es : List Effect) : Act Unit := fun p => ((), p, es)

/-- A step of `Memory` that does nothing to references. -/
def step (f : Parcel → Status × Parcel) : Act Status := fun p => ((f p).1, (f p).2, [])

/-- The destructor. -/
def freeDataNoInit (env : Env) : Act Unit := do
  let p ← get
  if p.mOwner = true then emitAll [.lent] else emitAll (releaseObjects env p.mData p.mObjects)

/-- An owner's objects are acquired for the copy before the owner gets them back. The
objects that are cut off are released. -/
def continueWrite (env : Env) (desired : size_t) : Act Status := do
  let p ← get
  let r := Memory.continueWrite env.heap desired p
  if p.mOwner = true then
    if r.1 = .NO_ERROR then
      if desired ≠ 0 then emitAll (acquireObjects env p.mData (keptObjects desired p))
      emitAll [.lent]
  else
    emitAll ((p.mObjects.drop (keptObjects desired p).length).flatMap fun o =>
      releaseObject env (objectAt p.mData o))
  set r.2
  pure r.1

def growData (env : Env) (len : size_t) : Act Status := do
  let p ← get
  if grownSize len p ≤ p.mDataSize then pure .NO_MEMORY else continueWrite env (grownSize len p)

def ifOk (grow write : Act Status) : Act Status := do
  let err ← grow
  if err = .NO_ERROR then write else pure err

/-- A reference is acquired as the object is entered. -/
def putObject (env : Env) (val : flat_binder_object) (nullMetaData : Bool) : Act Status := do
  let p ← get
  emitAll ((Memory.putObject val nullMetaData p).writes.map .wrote)
  if Entered val nullMetaData then emitAll (acquireObject env val)
  step fun p => ((Memory.putObject val nullMetaData p).result,
    (Memory.putObject val nullMetaData p).parcel)

def writeObject (env : Env) (val : flat_binder_object) (nullMetaData : Bool) : Act Status := do
  let p ← get
  let enoughData := p.mDataPos + 16 ≤ p.mDataCapacity
  let enoughObjects := p.mObjects.length < p.mObjectsCapacity
  ifOk (if enoughData then pure .NO_ERROR else growData env 16)
    (ifOk (if enoughObjects then pure .NO_ERROR
      else step fun p₁ => growTable env.heap ((p₁.mObjects.length + 2) * 3 / 2) p₁)
      (putObject env val nullMetaData))

def writeStrongBinder (env : Env) (val : Option IBinder) : Act Status :=
  writeObject env (flattenBinder env.getWeakRefs val) false

/-- The object of a descriptor. -/
def fileDescriptor (fd : BitVec 32) (takeOwnership : Bool) : flat_binder_object :=
  ⟨BINDER_TYPE_FD, FLAT_BINDER_FLAGS, fd, if takeOwnership then 1 else 0⟩

def writeFileDescriptor (env : Env) (fd : BitVec 32) (takeOwnership : Bool) : Act Status :=
  writeObject env (fileDescriptor fd takeOwnership) true

/-- The result is an error number of `dup`, or a status. -/
def writeDupFileDescriptor (env : Env) (fd : BitVec 32) : Act (Except (BitVec 32) Status) :=
  match env.dup fd with
  | .error errno => pure (.error errno)
  | .ok dupFd => do
    let err ← writeFileDescriptor env dupFd true
    if err ≠ .NO_ERROR then emitAll [.closed dupFd]
    pure (.ok err)

/-! ## Failed writes -/

/-- A write of an object. -/
inductive ObjectWrite
  | object (val : flat_binder_object) (nullMetaData : Bool)
  | strongBinder (val : Option IBinder)
  | dupFileDescriptor (fd : BitVec 32)

namespace ObjectWrite

/-- The call, and whether it returns `NO_ERROR`. -/
def act (env : Env) : ObjectWrite → Act Bool
  | object val nullMetaData => do
    let err ← writeObject env val nullMetaData
    pure (err = .NO_ERROR)
  | strongBinder val => do
    let err ← writeStrongBinder env val
    pure (err = .NO_ERROR)
  | dupFileDescriptor fd => do
    match ← writeDupFileDescriptor env fd with
    | .ok err => pure (err = .NO_ERROR)
    | .error _ => pure false

/-- The descriptor that the call duplicates. -/
def duplicate (env : Env) : ObjectWrite → Option (BitVec 32)
  | dupFileDescriptor fd => (env.dup fd).toOption
  | _ => none

end ObjectWrite

/-- What the destructor does. -/
def destroyed (env : Env) (p : Parcel) : List Effect := (freeDataNoInit env p).2.2

/-- The call has had the effects `es`, and left `q` of `p`: size, position and object table
are as before, nothing is written outside the block, what it acquired is released by it or by
the destructor, beyond what the destructor would have released without the call, and the
duplicate is closed once. -/
structure RolledBack (env : Env) (duplicate : Option (BitVec 32)) (p q : Parcel)
    (es : List Effect) : Prop where
  size : q.mDataSize = p.mDataSize
  pos : q.mDataPos = p.mDataPos
  objects : q.mObjects = p.mObjects
  inBounds : ∀ a, .wrote a ∈ es → a.InBounds
  references : ∀ r, es.count (.acquired r) + (destroyed env p).count (.released r) =
    es.count (.released r) + (destroyed env q).count (.released r)
  closedOnce : ∀ fd ∈ duplicate, (es ++ destroyed env q).count (.closed fd) = 1

/-- A call that fails is rolled back. -/
def Atomic (env : Env) (p : Parcel) (w : ObjectWrite) : Prop :=
  (w.act env p).1 = false →
    RolledBack env (w.duplicate env) p (w.act env p).2.1 (w.act env p).2.2

/-! ## When a failed write is rolled back -/

/-- The table has to grow, and there is no memory. -/
def TableRefused (h : Heap) (p : Parcel) : Prop :=
  ¬ p.mObjects.length < p.mObjectsCapacity ∧ h.objects = false

/-- The object's bytes at the position change no reference of the table's objects, unless
these are the owner's. -/
def Unharmed (env : Env) (val : flat_binder_object) (p : Parcel) : Prop :=
  let data := p.mData.map (blit (ofList val.bytes) 16 p.mDataPos.toNat)
  Enough 16 p ∧ p.mOwner = true ∨
    ∀ r, (releaseObjects env data p.mObjects).count (.released r) =
      (releaseObjects env p.mData p.mObjects).count (.released r)

def ObjectKept (env : Env) (val : flat_binder_object) (nullMetaData : Bool) (p : Parcel) : Prop :=
  Refused env.heap 16 p ∨
    (TableRefused env.heap p ∧ Unmoved 16 p) ∨
    ¬ TableRefused env.heap p ∧ (val.type = BINDER_TYPE_FD → p.mAllowFds = false →
      ¬ Entered val nullMetaData ∧ Serves 16 p ∧ Unharmed env val p)

/-- The condition for each write, on its arguments, the parcel and what is around it. -/
def Kept (env : Env) (p : Parcel) : ObjectWrite → Prop
  | .object val nullMetaData => ObjectKept env val nullMetaData p
  | .strongBinder _ => Refused env.heap 16 p ∨ (TableRefused env.heap p → Unmoved 16 p)
  | .dupFileDescriptor fd => ∀ dupFd ∈ (env.dup fd).toOption,
    Refused env.heap 16 p ∨ (TableRefused env.heap p ∧ Unmoved 16 p) ∨
      ¬ TableRefused env.heap p ∧ p.mAllowFds = true

/-- The objects of the table lie in the bytes that a growth keeps. -/
def Intact (p : Parcel) : Prop := ∀ o ∈ p.mObjects, o.toNat + 16 ≤ keptBytes p

/-- No object of the table owns the descriptor: `dup` returns one that is not open. -/
def Fresh (env : Env) (p : Parcel) (fd : BitVec 32) : Prop :=
  (releaseObjects env p.mData p.mObjects).count (.closed fd) = 0

/-! ## Counting -/

section
variable (env) (obj : flat_binder_object) (r : Ref) (fd : BitVec 32)

theorem reference_fd (hfd : obj.type = BINDER_TYPE_FD) : reference env obj = none := by
  unfold reference
  rw [hfd]
  rfl

@[simp] theorem count_acquireObject :
    (acquireObject env obj).count (.acquired r) = (releaseObject env obj).count (.released r) := by
  unfold acquireObject releaseObject
  split
  · next hfd =>
    rw [reference_fd env obj hfd]
    split <;> simp
  · cases reference env obj with
    | none => rfl
    | some r' => simp [List.count_singleton]

@[simp] theorem count_released_acquireObject :
    (acquireObject env obj).count (.released r) = 0 := by
  unfold acquireObject
  cases reference env obj <;> simp

@[simp] theorem count_closed_acquireObject :
    (acquireObject env obj).count (.closed fd) = 0 := by
  unfold acquireObject
  cases reference env obj <;> simp

theorem wrote_notMem_acquireObject (a : Access) : .wrote a ∉ acquireObject env obj := by
  unfold acquireObject
  cases reference env obj <;> simp

end

section
variable (env) (data : Option Block) (objects : List size_t) (r : Ref) (fd : BitVec 32)

@[simp] theorem count_acquireObjects : (acquireObjects env data objects).count (.acquired r) =
    (releaseObjects env data objects).count (.released r) := by
  unfold acquireObjects releaseObjects
  induction objects.reverse with
  | nil => rfl
  | cons o os ih => simp [ih]

@[simp] theorem count_released_acquireObjects :
    (acquireObjects env data objects).count (.released r) = 0 := by
  unfold acquireObjects
  induction objects.reverse with
  | nil => rfl
  | cons o os ih => simp [ih]

@[simp] theorem count_closed_acquireObjects :
    (acquireObjects env data objects).count (.closed fd) = 0 := by
  unfold acquireObjects
  induction objects.reverse with
  | nil => rfl
  | cons o os ih => simp [ih]

end

theorem destroyed_eq (env : Env) (p : Parcel) : destroyed env p =
    if p.mOwner = true then [.lent] else releaseObjects env p.mData p.mObjects := by
  unfold destroyed freeDataNoInit
  rw [get_bind]
  split <;> rfl

/-! ## Growth -/

/-- The effects of a growth that is not refused. -/
def growEffects (env : Env) (n : size_t) (p : Parcel) : List Effect :=
  if ¬ Enough n p ∧ p.mOwner = true then acquireObjects env p.mData p.mObjects ++ [.lent] else []

/-- Room for an object, as `writeObject` makes it. -/
def dataRoom (env : Env) (p : Parcel) : Act Status :=
  if p.mDataPos + 16 ≤ p.mDataCapacity then pure .NO_ERROR else growData env 16

theorem continueWrite_eq {desired : size_t} {p : Parcel} (hlt : p.mDataSize < desired) :
    continueWrite env desired p = ((Memory.continueWrite env.heap desired p).1,
      (Memory.continueWrite env.heap desired p).2,
      if p.mOwner = true ∧ (Memory.continueWrite env.heap desired p).1 = .NO_ERROR then
        acquireObjects env p.mData p.mObjects ++ [.lent] else []) := by
  have hkept : keptObjects desired p = p.mObjects := keptObjects_of_le (BitVec.le_of_lt hlt)
  have hne : desired ≠ 0 := by bv_omega
  unfold continueWrite
  rw [get_bind, hkept]
  dsimp only
  by_cases howner : p.mOwner = true
  · by_cases hok : (Memory.continueWrite env.heap desired p).1 = .NO_ERROR
    · rw [if_pos howner, if_pos hok, if_pos hne, if_pos ⟨howner, hok⟩]
      rfl
    · rw [if_pos howner, if_neg hok, if_neg fun h => hok h.2]
      rfl
  · rw [if_neg howner, if_neg fun h => howner h.1, List.drop_length]
    rfl

theorem dataRoom_eq (env : Env) (p : Parcel) : dataRoom env p p =
    ((roomFor env.heap 16 p).1, (roomFor env.heap 16 p).2,
      if (roomFor env.heap 16 p).1 = .NO_ERROR then growEffects env 16 p else []) := by
  unfold dataRoom growEffects
  by_cases henough : p.mDataPos + 16 ≤ p.mDataCapacity
  · have hnone : ¬ (¬ Enough 16 p ∧ p.mOwner = true) := fun h => h.1 henough
    rw [if_pos henough, roomFor_enough henough]
    simp only [if_neg hnone, ite_self]
    rfl
  · have hfull : ¬ Enough 16 p := henough
    rw [if_neg henough, roomFor_full hfull]
    unfold growData Memory.growData
    rw [get_bind]
    by_cases hle : grownSize 16 p ≤ p.mDataSize
    · simp only [if_pos hle]
      rfl
    · simp only [if_neg hle]
      rw [continueWrite_eq (BitVec.not_le.mp hle)]
      by_cases howner : p.mOwner = true
      · simp only [howner, true_and, hfull, not_false_eq_true, and_self, if_true]
      · simp [howner]

theorem dataRoom_refused {p : Parcel} (hrefused : Refused env.heap 16 p) :
    dataRoom env p p = (.NO_MEMORY, afterRefusal 16 p, []) := by
  rw [dataRoom_eq, hrefused.roomFor]
  rfl

theorem dataRoom_made {p : Parcel} (hrefused : ¬ Refused env.heap 16 p) :
    dataRoom env p p = (.NO_ERROR, (roomFor env.heap 16 p).2, growEffects env 16 p) := by
  rw [dataRoom_eq, roomFor_ok hrefused]
  rfl

/-- Where the bytes of the objects are the same, so is what is released. -/
theorem releaseObjects_congr {data data' : Option Block} {objects : List size_t}
    (h : ∀ o ∈ objects, ∀ i < 16, (data.getD fun _ => 0) (o.toNat + i) =
      (data'.getD fun _ => 0) (o.toNat + i)) :
    releaseObjects env data objects = releaseObjects env data' objects := by
  unfold releaseObjects
  refine List.flatMap_congr fun o ho => congrArg (fun l => releaseObject env (.ofBytes l)) ?_
  exact toList_congr fun i hi => h o (List.mem_reverse.mp ho) i hi

section
variable {p q : Parcel} {n : size_t}

/-- The objects come to the parcel that has grown as they were. -/
theorem release_grown (hp : Sound p) (hobjects : Intact p) (hroomy : Roomy n p q) :
    releaseObjects env q.mData p.mObjects = releaseObjects env p.mData p.mObjects := by
  refine releaseObjects_congr fun o ho i hi => ?_
  have hin := hobjects o ho
  by_cases henough : Enough n p
  · rw [hroomy.same henough]
  · obtain ⟨new, hnew⟩ := Option.isSome_iff_exists.mp (hroomy.grown henough)
    cases hold : p.mData with
    | some old =>
      rw [hnew]
      exact hroomy.front old hold new hnew _ (by omega)
    | none =>
      -- without a block nothing lies in it
      have hcapacity := hp.null hold
      have hsize := hp.size_le
      unfold keptBytes at hin
      split at hin <;> bv_omega

/-- A growth and the destructor after it release what the growth has acquired, and what the
destructor alone would have released. -/
theorem grow_references (hp : Sound p) (hobjects : Intact p) (hroomy : Roomy n p q) (r : Ref) :
    (growEffects env n p).count (.acquired r) + (destroyed env p).count (.released r) =
      (growEffects env n p).count (.released r) + (destroyed env q).count (.released r) := by
  have hrelease : releaseObjects env q.mData p.mObjects = releaseObjects env p.mData p.mObjects :=
    release_grown hp hobjects hroomy
  rw [destroyed_eq, destroyed_eq, hroomy.objects, hrelease]
  unfold growEffects
  by_cases henough : Enough n p
  · rw [hroomy.same henough, if_neg (fun h => h.1 henough)]
    rfl
  · have hq : ¬ q.mOwner = true := by simp [hroomy.owner henough]
    rw [if_neg hq]
    by_cases howner : p.mOwner = true
    · rw [if_pos ⟨henough, howner⟩, if_pos howner]
      simp
    · rw [if_neg fun h => howner h.2, if_neg howner]
      rfl

end

/-! ## The object -/

theorem count_closed_growEffects (env : Env) (n : size_t) (p : Parcel) (fd : BitVec 32) :
    (growEffects env n p).count (.closed fd) = 0 := by
  unfold growEffects
  split <;> simp

theorem wrote_notMem_growEffects (env : Env) (n : size_t) (p : Parcel) (a : Access) :
    .wrote a ∉ growEffects env n p := by
  unfold growEffects
  split
  · intro hmem
    rcases List.mem_append.mp hmem with hmem | hmem
    · obtain ⟨o, -, hmem⟩ := List.mem_flatMap.mp hmem
      exact wrote_notMem_acquireObject env _ a hmem
    · simp at hmem
  · simp

theorem count_append_wrote {e : Effect} {a : Access} (es : List Effect) (he : e ≠ .wrote a) :
    (es ++ [Effect.wrote a]).count e = es.count e := by
  have hnone : e ∉ [Effect.wrote a] := List.mem_singleton.not.mpr he
  rw [List.count_append, List.count_eq_zero_of_not_mem hnone, Nat.add_zero]

theorem ifOk_ok {m m' : Act Status} {p q q' : Parcel} {a : Status} {es es' : List Effect}
    (hm : m p = (.NO_ERROR, q, es)) (hm' : m' q = (a, q', es')) :
    ifOk m m' p = (a, q', es ++ es') :=
  bind_eq hm hm'

theorem ifOk_error {m m' : Act Status} {p q : Parcel} {a : Status} {es : List Effect}
    (hm : m p = (a, q, es)) (ha : a ≠ .NO_ERROR) : ifOk m m' p = (a, q, es) := by
  have hrest : (if a = .NO_ERROR then m' else pure a) q = (a, q, []) := by
    rw [if_neg ha]
    rfl
  exact (bind_eq hm hrest).trans (by rw [List.append_nil])

theorem putObject_eq (env : Env) (val : flat_binder_object) (nullMetaData : Bool) (q : Parcel) :
    putObject env val nullMetaData q = ((Memory.putObject val nullMetaData q).result,
      (Memory.putObject val nullMetaData q).parcel,
      .wrote (access q.mDataPos.toNat 16 q) ::
        if Entered val nullMetaData then acquireObject env val else []) := by
  have hwrites : (Memory.putObject val nullMetaData q).writes =
      [access q.mDataPos.toNat 16 q] := by
    unfold Memory.putObject
    dsimp only
    split <;> rfl
  unfold putObject
  rw [get_bind, hwrites]
  by_cases hentered : Entered val nullMetaData
  · rw [if_pos hentered, if_pos hentered]
    have hrest : (emitAll (acquireObject env val) >>= fun _ => step fun p =>
        ((Memory.putObject val nullMetaData p).result,
          (Memory.putObject val nullMetaData p).parcel)) q =
        ((Memory.putObject val nullMetaData q).result,
          (Memory.putObject val nullMetaData q).parcel, acquireObject env val) :=
      (bind_eq (a := ()) (t := q) rfl rfl).trans (by rw [List.append_nil])
    exact bind_eq (a := ()) (t := q) (e := [Effect.wrote _]) rfl hrest
  · rw [if_neg hentered, if_neg hentered]
    exact bind_eq (a := ()) (t := q) (e := [Effect.wrote _]) rfl rfl

/-- A parcel that differs in the room of its table only. -/
structure SameBut (q q' : Parcel) : Prop where
  size : q'.mDataSize = q.mDataSize
  pos : q'.mDataPos = q.mDataPos
  objects : q'.mObjects = q.mObjects
  data : q'.mData = q.mData
  capacity : q'.mDataCapacity = q.mDataCapacity
  owner : q'.mOwner = q.mOwner
  allowFds : q'.mAllowFds = q.mAllowFds

/-- The ways in which the call comes back. -/
inductive Ended (env : Env) (val : flat_binder_object) (nullMetaData : Bool) (p : Parcel) :
    Status × Parcel × List Effect → Prop
  | refused (hrefused : Refused env.heap 16 p) :
      Ended env val nullMetaData p (.NO_MEMORY, afterRefusal 16 p, [])
  | table (q : Parcel) (hrefused : ¬ Refused env.heap 16 p) (hroomy : Roomy 16 p q)
      (htable : TableRefused env.heap p) :
      Ended env val nullMetaData p (.NO_MEMORY, q, growEffects env 16 p)
  | put (q q' : Parcel) (hrefused : ¬ Refused env.heap 16 p) (hroomy : Roomy 16 p q)
      (htable : ¬ TableRefused env.heap p) (hsame : SameBut q q') :
      Ended env val nullMetaData p ((Memory.putObject val nullMetaData q').result,
        (Memory.putObject val nullMetaData q').parcel, growEffects env 16 p ++
          .wrote (access q'.mDataPos.toNat 16 q') ::
            if Entered val nullMetaData then acquireObject env val else [])

section
variable {val : flat_binder_object} {nullMetaData : Bool} {p : Parcel}

theorem writeObject_ended (env : Env) (val : flat_binder_object) (nullMetaData : Bool)
    (hp : Sound p) : Ended env val nullMetaData p (writeObject env val nullMetaData p) := by
  show Ended env val nullMetaData p (ifOk (dataRoom env p)
    (ifOk (if p.mObjects.length < p.mObjectsCapacity then pure .NO_ERROR
      else step fun p₁ => growTable env.heap ((p₁.mObjects.length + 2) * 3 / 2) p₁)
      (putObject env val nullMetaData)) p)
  by_cases hrefused : Refused env.heap 16 p
  · rw [ifOk_error (dataRoom_refused hrefused) (by simp)]
    exact .refused hrefused
  · have hgrown := dataRoom_made hrefused
    have hroomy := roomFor_roomy hp hrefused
    generalize (roomFor env.heap 16 p).2 = q at hgrown hroomy
    by_cases hspace : p.mObjects.length < p.mObjectsCapacity
    · have hput := ifOk_ok (m := pure .NO_ERROR) (p := q) rfl (putObject_eq env val nullMetaData q)
      rw [if_pos hspace, ifOk_ok hgrown hput]
      exact .put q q hrefused hroomy (fun ht => ht.1 hspace) ⟨rfl, rfl, rfl, rfl, rfl, rfl, rfl⟩
    · rw [if_neg hspace]
      by_cases hmemory : env.heap.objects = true
      · have htable : ¬ TableRefused env.heap p := fun ht => by simp [ht.2] at hmemory
        have hgrow : step (fun p₁ => growTable env.heap ((p₁.mObjects.length + 2) * 3 / 2) p₁) q =
            (.NO_ERROR, { q with
              mObjectsCapacity := (q.mObjects.length + 2) * 3 / 2
              tableSize := (q.mObjects.length + 2) * 3 / 2 }, []) :=
          congrArg (fun r : Status × Parcel => (r.1, r.2, ([] : List Effect))) (if_pos hmemory)
        have hput := ifOk_ok hgrow (putObject_eq env val nullMetaData _)
        rw [ifOk_ok hgrown hput]
        exact .put q _ hrefused hroomy htable ⟨rfl, rfl, rfl, rfl, rfl, rfl, rfl⟩
      · have hnone : env.heap.objects = false := by simpa using hmemory
        have hgrow : step (fun p₁ => growTable env.heap ((p₁.mObjects.length + 2) * 3 / 2) p₁) q =
            (.NO_MEMORY, q, []) :=
          congrArg (fun r : Status × Parcel => (r.1, r.2, ([] : List Effect))) (if_neg hmemory)
        rw [ifOk_ok hgrown (ifOk_error hgrow (by simp)), List.append_nil]
        exact .table q hrefused hroomy ⟨hspace, hnone⟩

theorem result_putObject (val : flat_binder_object) (nullMetaData : Bool) (q : Parcel) :
    (Memory.putObject val nullMetaData q).result =
      if val.type = BINDER_TYPE_FD ∧ q.mAllowFds = false then .FDS_NOT_ALLOWED else .NO_ERROR := by
  unfold Memory.putObject
  dsimp only
  split <;> split <;> rfl

/-- A refused descriptor is stored, and entered. -/
theorem parcel_refusedFd {q : Parcel} (hfd : val.type = BINDER_TYPE_FD ∧ q.mAllowFds = false) :
    (Memory.putObject val nullMetaData q).parcel = enterObject val nullMetaData q := by
  unfold Memory.putObject enterObject
  dsimp only
  split
  · rfl
  · next hno => exact absurd hfd hno

theorem refused_rolledBack (env : Env) (p : Parcel) :
    RolledBack env none p (afterRefusal 16 p) [] :=
  ⟨rfl, rfl, rfl, nofun, fun r => by rw [destroyed_eq, destroyed_eq]; rfl, nofun⟩

theorem table_rolledBack_iff {q : Parcel} (hp : Sound p) (hobjects : Intact p)
    (hroomy : Roomy 16 p q) :
    RolledBack env none p q (growEffects env 16 p) ↔ Unmoved 16 p := by
  rw [← hroomy.stays]
  exact ⟨fun hr => hr.pos, fun hpos =>
    ⟨hroomy.size, hpos, hroomy.objects, fun a ha => absurd ha (wrote_notMem_growEffects env 16 p a),
      grow_references hp hobjects hroomy, nofun⟩⟩

/-- The bytes of the object over those of the table's objects, before and after the growth. -/
theorem release_over {q : Parcel} (val : flat_binder_object) (hp : Sound p) (hobjects : Intact p)
    (hroomy : Roomy 16 p q) (hpos : q.mDataPos = p.mDataPos) :
    releaseObjects env (q.mData.map (blit (ofList val.bytes) 16 q.mDataPos.toNat)) p.mObjects =
      releaseObjects env (p.mData.map (blit (ofList val.bytes) 16 p.mDataPos.toNat))
        p.mObjects := by
  refine releaseObjects_congr fun o ho i hi => ?_
  have hin := hobjects o ho
  by_cases henough : Enough 16 p
  · rw [hroomy.same henough]
  · obtain ⟨new, hnew⟩ := Option.isSome_iff_exists.mp (hroomy.grown henough)
    cases hold : p.mData with
    | some old =>
      have hsame := hroomy.front old hold new hnew (o.toNat + i) (by omega)
      rw [hnew, hpos]
      simp only [Option.map_some, Option.getD_some, blit, hsame]
    | none =>
      have hcapacity := hp.null hold
      have hsize := hp.size_le
      unfold keptBytes at hin
      split at hin <;> bv_omega

theorem SameBut.blockSize {q q' : Parcel} (hsame : SameBut q q') : q'.blockSize = q.blockSize := by
  unfold Parcel.blockSize
  rw [hsame.data, hsame.capacity]

/-- What the destructor does once the object has been stored at the position. -/
theorem destroyed_stored {q q' : Parcel} (hroomy : Roomy 16 p q) (hsame : SameBut q q') :
    destroyed env (q'.poke (ofList val.bytes) 16 q'.mDataPos.toNat) =
      if q.mOwner = true then [.lent] else
        releaseObjects env (q.mData.map (blit (ofList val.bytes) 16 q.mDataPos.toNat))
          p.mObjects := by
  rw [destroyed_eq]
  simp only [Parcel.poke, hsame.owner, hsame.data, hsame.pos, hsame.objects, hroomy.objects]

/-- What the growth acquired is accounted for: the bytes written over decide. -/
theorem unharmed_iff {q q' : Parcel} (hp : Sound p) (hobjects : Intact p)
    (hroomy : Roomy 16 p q) (hsame : SameBut q q') (hpos : q.mDataPos = p.mDataPos) :
    Unharmed env val p ↔ ∀ r,
      (destroyed env (q'.poke (ofList val.bytes) 16 q'.mDataPos.toNat)).count (.released r) =
        (destroyed env q).count (.released r) := by
  rw [destroyed_stored hroomy hsame, destroyed_eq]
  by_cases howner : q.mOwner = true
  · have henough : Enough 16 p := by
      by_contra hfull
      simp [hroomy.owner hfull] at howner
    rw [if_pos howner, if_pos howner]
    exact iff_of_true (Or.inl ⟨henough, hroomy.same henough ▸ howner⟩) fun _ => rfl
  · have hnot : ¬ (Enough 16 p ∧ p.mOwner = true) := fun h =>
      howner ((hroomy.same h.1).symm ▸ h.2)
    rw [if_neg howner, if_neg howner, hroomy.objects, release_over val hp hobjects hroomy hpos,
      release_grown hp hobjects hroomy]
    exact or_iff_right hnot

/-- The access of an object that is stored at the old position. -/
theorem stored_inBounds_iff {q q' : Parcel} (hsame : SameBut q q')
    (hpos : q.mDataPos = p.mDataPos) :
    Access.InBounds (access q'.mDataPos.toNat 16 q') ↔ Ready (16 : size_t).toNat p q := by
  constructor
  · intro hin
    have hroom := access_room (by decide) hin
    rw [hsame.pos, hpos, hsame.blockSize] at hroom
    exact ⟨hpos, hroom⟩
  · intro hready
    have hready' : Ready (16 : size_t).toNat p q' :=
      ⟨hsame.pos.trans hpos, hsame.blockSize ▸ hready.2⟩
    exact access_inBounds hready' (Nat.le_refl _)

theorem refusedFd_rolledBack_iff {q q' : Parcel} (hp : Sound p) (hobjects : Intact p)
    (hroomy : Roomy 16 p q) (hsame : SameBut q q') :
    RolledBack env none p (enterObject val nullMetaData q') (growEffects env 16 p ++
        .wrote (access q'.mDataPos.toNat 16 q') ::
          if Entered val nullMetaData then acquireObject env val else []) ↔
      ¬ Entered val nullMetaData ∧ Serves 16 p ∧ Unharmed env val p := by
  by_cases hentered : Entered val nullMetaData
  · refine iff_of_false (fun hr => ?_) fun hk => hk.1 hentered
    have hobjects := hr.objects
    rw [enterObject_eq, if_pos hentered] at hobjects
    simp only [hsame.objects, hroomy.objects] at hobjects
    simp at hobjects
  · have hstored : enterObject val nullMetaData q' =
        q'.poke (ofList val.bytes) 16 q'.mDataPos.toNat := if_neg hentered
    rw [hstored, if_neg hentered, and_iff_right hentered, ← hroomy.ready]
    have hgrown : ∀ r : Ref, (growEffects env 16 p).count (.acquired r) +
        (destroyed env p).count (.released r) = (growEffects env 16 p).count (.released r) +
          (destroyed env q).count (.released r) := grow_references hp hobjects hroomy
    constructor
    · intro hr
      have hpos : q.mDataPos = p.mDataPos := hsame.pos.symm.trans hr.pos
      refine ⟨(stored_inBounds_iff hsame hpos).mp (hr.inBounds _ (by simp)),
        (unharmed_iff hp hobjects hroomy hsame hpos).mpr fun r => ?_⟩
      have hcount := hr.references r
      have hbefore := hgrown r
      rw [count_append_wrote _ (by simp), count_append_wrote _ (by simp)] at hcount
      omega
    · rintro ⟨hready, hk⟩
      have hpos := hready.1
      refine ⟨hsame.size.trans hroomy.size, hsame.pos.trans hpos,
        hsame.objects.trans hroomy.objects, fun a ha => ?_, fun r => ?_,
        fun fd hfd => absurd hfd (Option.some_ne_none fd).symm⟩
      · rcases List.mem_append.mp ha with ha | ha
        · exact absurd ha (wrote_notMem_growEffects env 16 p a)
        · cases List.mem_singleton.mp ha
          exact (stored_inBounds_iff hsame hpos).mpr hready
      · have hcount := (unharmed_iff hp hobjects hroomy hsame hpos).mp hk r
        have hbefore := hgrown r
        rw [count_append_wrote _ (by simp), count_append_wrote _ (by simp)]
        omega

theorem object_atomic_iff (env : Env) (hp : Sound p) (hobjects : Intact p) :
    ((writeObject env val nullMetaData p).1 ≠ .NO_ERROR →
      RolledBack env none p (writeObject env val nullMetaData p).2.1
        (writeObject env val nullMetaData p).2.2) ↔ ObjectKept env val nullMetaData p := by
  have hended := writeObject_ended env val nullMetaData hp
  generalize writeObject env val nullMetaData p = o at hended
  unfold ObjectKept
  cases hended with
  | refused hrefused =>
    exact iff_of_true (fun _ => refused_rolledBack env p) (Or.inl hrefused)
  | table q hrefused hroomy htable =>
    simp only [hrefused, htable, false_or, true_and, not_true_eq_false, false_and, or_false,
      ne_eq, reduceCtorEq, not_false_eq_true, true_imp_iff]
    exact table_rolledBack_iff hp hobjects hroomy
  | put q q' hrefused hroomy htable hsame =>
    have hallow : q'.mAllowFds = p.mAllowFds := hsame.allowFds.trans hroomy.allowFds
    simp only [hrefused, htable, false_or, false_and, not_false_eq_true, true_and,
      result_putObject, hallow]
    by_cases hfd : val.type = BINDER_TYPE_FD ∧ p.mAllowFds = false
    · rw [if_pos hfd, parcel_refusedFd ⟨hfd.1, hallow.trans hfd.2⟩]
      simp only [hfd.1, hfd.2, ne_eq, reduceCtorEq, not_false_eq_true, true_imp_iff]
      exact refusedFd_rolledBack_iff hp hobjects hroomy hsame
    · rw [if_neg hfd]
      exact iff_of_true (fun hno => absurd rfl hno) fun htype hno => absurd ⟨htype, hno⟩ hfd

/-! ## Duplicates -/

/-- Where the call closes the duplicate, the parcel must not. -/
theorem rolledBack_dup_iff {q : Parcel} {es : List Effect} {fd : BitVec 32} :
    RolledBack env (some fd) p q (es ++ [.closed fd]) ↔ RolledBack env none p q es ∧
      es.count (.closed fd) + (destroyed env q).count (.closed fd) = 0 := by
  constructor
  · intro hr
    refine ⟨⟨hr.size, hr.pos, hr.objects, fun a ha => hr.inBounds a (List.mem_append_left _ ha),
      fun r => ?_, nofun⟩, ?_⟩
    · simpa using hr.references r
    · have honce := hr.closedOnce fd rfl
      simp only [List.count_append, List.count_singleton_self] at honce
      omega
  · rintro ⟨hr, hnone⟩
    refine ⟨hr.size, hr.pos, hr.objects, fun a ha => ?_, fun r => ?_, ?_⟩
    · exact hr.inBounds a (by simpa using ha)
    · simpa using hr.references r
    · rintro _ ⟨⟩
      simp only [List.count_append, List.count_singleton_self]
      omega

theorem count_closed_destroyed {fd : BitVec 32} (hfresh : Fresh env p fd) :
    (destroyed env p).count (.closed fd) = 0 := by
  rw [destroyed_eq]
  split
  · rfl
  · exact hfresh

/-- A fresh descriptor is closed by the call alone if the object was rolled back. -/
theorem not_closed_of_rolledBack {fd : BitVec 32} (hp : Sound p) (hobjects : Intact p)
    (hfresh : Fresh env p fd) {o : Status × Parcel × List Effect}
    (hended : Ended env (fileDescriptor fd true) true p o) (hfailed : o.1 ≠ .NO_ERROR)
    (hr : RolledBack env none p o.2.1 o.2.2) :
    o.2.2.count (.closed fd) + (destroyed env o.2.1).count (.closed fd) = 0 := by
  cases hended with
  | refused hrefused =>
    have hsame : destroyed env (afterRefusal 16 p) = destroyed env p := by
      rw [destroyed_eq, destroyed_eq]
      rfl
    rw [hsame, count_closed_destroyed hfresh]
    rfl
  | table q hrefused hroomy htable =>
    have hq : Fresh env q fd := by
      unfold Fresh
      rw [hroomy.objects, release_grown hp hobjects hroomy]
      exact hfresh
    rw [count_closed_growEffects, count_closed_destroyed hq]
  | put q q' hrefused hroomy htable hsame =>
    exfalso
    rw [result_putObject] at hfailed
    split at hfailed
    · next hfd =>
      rw [parcel_refusedFd hfd] at hr
      exact ((refusedFd_rolledBack_iff hp hobjects hroomy hsame).mp hr).1 (Or.inl rfl)
    · exact hfailed rfl

theorem writeDupFileDescriptor_eq {fd dupFd : BitVec 32} (hdup : env.dup fd = .ok dupFd) :
    writeDupFileDescriptor env fd p =
      let o := writeObject env (fileDescriptor dupFd true) true p
      (.ok o.1, o.2.1, o.2.2 ++ if o.1 ≠ .NO_ERROR then [.closed dupFd] else []) := by
  generalize ho : writeObject env (fileDescriptor dupFd true) true p = o
  obtain ⟨err, q, es⟩ := o
  have hfirst : writeFileDescriptor env dupFd true p = (err, q, es) := ho
  unfold writeDupFileDescriptor
  rw [hdup]
  refine bind_eq hfirst ?_
  by_cases herr : err ≠ .NO_ERROR
  · rw [if_pos herr, if_pos herr]
    rfl
  · rw [if_neg herr, if_neg herr]
    rfl

theorem writeDupFileDescriptor_error {fd errno : BitVec 32} (hdup : env.dup fd = .error errno) :
    writeDupFileDescriptor env fd p = (.error errno, p, []) := by
  unfold writeDupFileDescriptor
  rw [hdup]
  rfl

theorem act_dup {fd dupFd : BitVec 32} (hdup : env.dup fd = .ok dupFd) :
    (ObjectWrite.dupFileDescriptor fd).act env p =
      let o := writeObject env (fileDescriptor dupFd true) true p
      (decide (o.1 = .NO_ERROR), o.2.1,
        o.2.2 ++ if o.1 ≠ .NO_ERROR then [.closed dupFd] else []) := by
  refine (bind_eq (writeDupFileDescriptor_eq hdup) (rfl : _ = (_, _, []))).trans ?_
  rw [List.append_nil]

/-- A binder is no descriptor. -/
theorem type_flattenBinder (getWeakRefs : Address → Address) (val : Option IBinder) :
    (flattenBinder getWeakRefs val).type ≠ BINDER_TYPE_FD := by
  have hbinder : BINDER_TYPE_BINDER ≠ BINDER_TYPE_FD := by decide
  have hhandle : BINDER_TYPE_HANDLE ≠ BINDER_TYPE_FD := by decide
  rcases val with _ | a | handle
  · exact hbinder
  · exact hbinder
  · exact hhandle

theorem act_object (val : flat_binder_object) (nullMetaData : Bool) :
    (ObjectWrite.object val nullMetaData).act env p =
      let o := writeObject env val nullMetaData p
      (decide (o.1 = .NO_ERROR), o.2.1, o.2.2) := by
  generalize ho : writeObject env val nullMetaData p = o
  obtain ⟨err, q, es⟩ := o
  exact (bind_eq ho (rfl : _ = (_, _, []))).trans (by rw [List.append_nil])

theorem object_kept_iff (env : Env) (hp : Sound p) (hobjects : Intact p)
    (val : flat_binder_object) (nullMetaData : Bool) :
    Atomic env p (.object val nullMetaData) ↔ ObjectKept env val nullMetaData p := by
  rw [← object_atomic_iff env hp hobjects]
  unfold Atomic
  rw [act_object]
  simp only [decide_eq_false_iff_not, ne_eq]
  rfl

/-- A descriptor is always entered. -/
theorem objectKept_fileDescriptor (fd : BitVec 32) :
    ObjectKept env (fileDescriptor fd true) true p ↔ Refused env.heap 16 p ∨
      (TableRefused env.heap p ∧ Unmoved 16 p) ∨
      ¬ TableRefused env.heap p ∧ p.mAllowFds = true := by
  have hentered : Entered (fileDescriptor fd true) true := Or.inl rfl
  have htype : (fileDescriptor fd true).type = BINDER_TYPE_FD := rfl
  unfold ObjectKept
  cases p.mAllowFds <;> simp [hentered, htype]

theorem dup_kept_iff (env : Env) (hp : Sound p) (hobjects : Intact p) {fd dupFd : BitVec 32}
    (hdup : env.dup fd = .ok dupFd) (hfresh : Fresh env p dupFd) :
    Atomic env p (.dupFileDescriptor fd) ↔
      ObjectKept env (fileDescriptor dupFd true) true p := by
  rw [← object_atomic_iff env hp hobjects]
  have hended := writeObject_ended env (fileDescriptor dupFd true) true hp
  have hduplicate : (ObjectWrite.dupFileDescriptor fd).duplicate env = some dupFd :=
    congrArg Except.toOption hdup
  unfold Atomic
  rw [act_dup hdup, hduplicate]
  generalize writeObject env (fileDescriptor dupFd true) true p = o at hended
  simp only [decide_eq_false_iff_not]
  refine imp_congr_right fun hfailed => ?_
  rw [if_pos hfailed, rolledBack_dup_iff]
  exact and_iff_left_of_imp (not_closed_of_rolledBack hp hobjects hfresh hended hfailed)

/-- **Atomic writes.** A failed write of an object is rolled back if and only if it is one
of those that `Kept` names. -/
theorem atomic_iff (env : Env) (hp : Sound p) (hobjects : Intact p) (w : ObjectWrite)
    (hfresh : ∀ fd ∈ w.duplicate env, Fresh env p fd) : Atomic env p w ↔ Kept env p w := by
  cases w with
  | object val nullMetaData => exact object_kept_iff env hp hobjects val nullMetaData
  | strongBinder val =>
    have htype := type_flattenBinder env.getWeakRefs val
    refine (object_kept_iff env hp hobjects _ false).trans ?_
    show Refused env.heap 16 p ∨ (TableRefused env.heap p ∧ Unmoved 16 p) ∨
      ¬ TableRefused env.heap p ∧ (_ → _) ↔ Refused env.heap 16 p ∨
        (TableRefused env.heap p → Unmoved 16 p)
    simp only [htype, false_imp_iff, and_true]
    by_cases htable : TableRefused env.heap p <;> simp [htable]
  | dupFileDescriptor fd =>
    cases hdup : env.dup fd with
    | error errno =>
      have hact : (ObjectWrite.dupFileDescriptor fd).act env p = (false, p, []) :=
        bind_eq (writeDupFileDescriptor_error hdup) rfl
      have hduplicate : (ObjectWrite.dupFileDescriptor fd).duplicate env = none :=
        congrArg Except.toOption hdup
      refine iff_of_true (fun _ => ?_) fun dupFd hmem => ?_
      · rw [hact, hduplicate]
        exact ⟨rfl, rfl, rfl, nofun, fun _ => rfl, nofun⟩
      · rw [hdup] at hmem
        cases hmem
    | ok dupFd =>
      have hduplicate : (ObjectWrite.dupFileDescriptor fd).duplicate env = some dupFd :=
        congrArg Except.toOption hdup
      rw [dup_kept_iff env hp hobjects hdup (hfresh dupFd hduplicate), objectKept_fileDescriptor]
      unfold Kept
      simp only [hdup, Except.toOption, Option.mem_some_iff, forall_eq']

end

/-! ## Cases -/

/-- All memory is there, and `dup` returns 7. -/
def quietEnv : Env :=
  { proxies := fun _ => false, getWeakRefs := id, dup := fun _ => .ok 7, heap := freshHeap }

section
variable {p : Parcel} (hnone : p.mObjects = [])
include hnone

theorem intact_of_noObjects : Intact p := by
  unfold Intact
  rw [hnone]
  exact List.forall_mem_nil _

theorem fresh_of_noObjects (env : Env) (fd : BitVec 32) : Fresh env p fd := by
  unfold Fresh releaseObjects
  rw [hnone]
  rfl

end

theorem noObjects_oneWord : oneWord.mObjects = [] := by decide

theorem atomic_oneWord : Atomic quietEnv oneWord (.dupFileDescriptor 3) ↔
    Kept quietEnv oneWord (.dupFileDescriptor 3) :=
  atomic_iff quietEnv sound_oneWord (intact_of_noObjects noObjects_oneWord)
    (.dupFileDescriptor 3) fun fd _ => fresh_of_noObjects noObjects_oneWord quietEnv fd

/-- A parcel that allows no descriptors. -/
def noFds : Parcel := { Parcel.initState with mAllowFds := false }

theorem sound_noFds : Sound noFds where
  size_le := by decide
  null _ := rfl
  owned howner := absurd howner (by decide)

/-- The call closes the duplicate, and the destructor closes it again. -/
theorem refusedDuplicate_not_atomic : ¬ ∀ (env : Env) (p : Parcel), Sound p → Intact p →
    ∀ w : ObjectWrite, (∀ fd ∈ w.duplicate env, Fresh env p fd) → Atomic env p w := by
  intro hall
  have hatomic := hall quietEnv noFds sound_noFds (intact_of_noObjects rfl)
    (.dupFileDescriptor 3) fun fd _ => fresh_of_noObjects rfl quietEnv fd
  have hclosed := (hatomic (by decide +kernel)).closedOnce 7 rfl
  revert hclosed
  decide +kernel

end Cdroid.Binder.Memory.ObjectWrites
