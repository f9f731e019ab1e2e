import Cdroid.Binder.Parcel
import Mathlib.Tactic.ByContra

/-! What the reads of `Parcel` get back of what its writes have put there. -/

namespace Cdroid.Binder
open Cdroid.Lib.Codec Cdroid.Runtime

/-! ## Positions in a parcel -/

/-- The parcel's position is between `pre` and `rest`, and the hint not ahead of it. -/
structure At (p : Parcel) (pre rest : Chunk) : Prop where
  data : p.mData = (pre + rest).bytes
  objects : p.mObjects = (pre + rest).objects
  pos : p.mDataPos = pre.bytes.length
  hint : p.mNextObjectHint ≤ pre.objects.length
  valid : pre.Valid

theorem at_received (c : Chunk) : At (.received c) 0 c := by
  refine ⟨?_, ?_, rfl, Nat.le_refl 0, nofun⟩ <;> rw [zero_add] <;> rfl

variable {p : Parcel} {pre c post : Chunk}

theorem At.advance (h : At p pre (c + post)) (hc : c.Valid) {pos hint : Nat}
    (hpos : pos = p.mDataPos + c.bytes.length) (hhint : hint ≤ (pre + c).objects.length) :
    At { p with mDataPos := pos, mNextObjectHint := hint } (pre + c) post := by
  refine ⟨?_, ?_, ?_, hhint, h.valid.add hc⟩
  · rw [add_assoc]
    exact h.data
  · rw [add_assoc]
    exact h.objects
  · rw [hpos, h.pos]
    simp

theorem At.hint_le (h : At p pre (c + post)) :
    p.mNextObjectHint ≤ (pre + c).objects.length := by
  have := h.hint
  rw [Chunk.objects_add, List.length_append]
  omega

theorem At.drop (h : At p pre (c + post)) :
    p.mData.drop p.mDataPos = c.bytes ++ post.bytes := by
  rw [h.data, h.pos]
  simp

theorem At.length_le (h : At p pre (c + post)) :
    p.mDataPos + c.bytes.length ≤ p.mData.length := by
  rw [h.data, h.pos]
  simp

/-! ## Words and bytes -/

theorem valid_bytes (bytes : List UInt8) : Chunk.Valid ⟨bytes, []⟩ := nofun

theorem reads_int32 (val : BitVec 32) : Reads At readInt32 (writeInt32 val) val := by
  intro p pre post h
  have hle : p.mDataPos + 4 ≤ p.mData.length := h.length_le
  refine ⟨{ p with mDataPos := p.mDataPos + 4 }, ?_,
    h.advance (valid_bytes _) rfl h.hint_le⟩
  rw [readInt32, if_pos hle, h.drop]
  exact congrArg (·, _) (wordOf_wordBytes val _)

theorem reads_exceptionCode {code : BitVec 32} (h : code ≠ EX_HAS_REPLY_HEADER) :
    Reads At readExceptionCode (writeInt32 code) code := by
  have : Reads At readExceptionCode (writeInt32 code + 0) code := by
    refine (reads_int32 code).bind ?_
    rw [if_neg h]
    exact .pure code
  rwa [add_zero] at this

/-- Behind everything, a word is read as 0. -/
theorem readInt32_end (h : At p pre 0) : (readInt32 p).1 = 0 := by
  have hle : ¬ p.mDataPos + 4 ≤ p.mData.length := by
    rw [h.data, h.pos, add_zero]
    omega
  rw [readInt32, if_neg hle]

theorem reads_inplace (data : List UInt8) :
    Reads At (readInplace data.length) (write data) (some data) := by
  intro p pre post h
  have hlen : (write data).bytes.length = padSize data.length := length_padded data
  have hle : p.mDataPos + padSize data.length ≤ p.mData.length := hlen ▸ h.length_le
  refine ⟨{ p with mDataPos := p.mDataPos + padSize data.length }, ?_,
    h.advance (valid_bytes _) (by rw [hlen]) h.hint_le⟩
  rw [readInplace, if_pos hle, h.drop]
  simp [write, padded]

theorem toNat_length {n : Nat} (h : n < 2 ^ 31) : (BitVec.ofNat 32 n).toNat = n := by
  rw [BitVec.toNat_ofNat]
  omega

theorem toInt_length {n : Nat} (h : n < 2 ^ 31) : (BitVec.ofNat 32 n).toInt = n := by
  rw [BitVec.toInt_eq_toNat_cond, toNat_length h, if_pos (by omega)]

theorem isCodec_int32 : IsCodec At (fun val => some (writeInt32 val)) readInt32 fun _ => True where
  reads val _ := ⟨_, rfl, reads_int32 val⟩
  misreads _ _ hnot := absurd trivial hnot

/-- A flag that is read with a test for 1. -/
theorem isCodec_bool : IsCodec At (fun b => some (writeBool b))
    (do let i ← readInt32; pure (decide (i = 1))) fun _ => True where
  reads b _ := by
    have h := (reads_int32 (if b then 1 else 0)).bind_pure fun i => decide (i = 1)
    cases b <;> exact ⟨_, rfl, h⟩
  misreads _ _ hnot := absurd trivial hnot

/-- A count that is read as the bound of an `int` loop. -/
theorem isCodec_count : IsCodec At (fun n => some (writeInt32 (BitVec.ofNat 32 n)))
    (do let i ← readInt32; pure i.toInt.toNat) fun n => n < 2 ^ 31 where
  reads n hn := by
    have h := (reads_int32 (BitVec.ofNat 32 n)).bind_pure fun i => i.toInt.toNat
    rw [toInt_length hn, Int.toNat_natCast] at h
    exact ⟨_, rfl, h⟩
  misreads _ _ hnot _ p _ _ _ he := by
    have hlt : ∀ v : BitVec 32, v.toInt.toNat < 2 ^ 31 := by
      intro v
      have := BitVec.toInt_lt (x := v)
      omega
    exact hnot (he ▸ hlt (readInt32 p).1)

/-! ## Strings -/

theorem reads_string8 {str : String8} (h : str.length < 2 ^ 31 - 1) :
    Reads At readString8 (writeString8 str) str := by
  by_cases hnil : str = []
  · subst hnil
    have : Reads At readString8 (writeInt32 0 + 0) [] := by
      refine (reads_int32 0).bind ?_
      exact Reads.pure []
    rwa [add_zero] at this
  · have hpos : 0 < str.length := List.length_pos_iff.mpr hnil
    have hnat := toNat_length (n := str.length) (by omega)
    have hint := toInt_length (n := str.length) (by omega)
    rw [writeString8, if_neg hnil]
    refine (reads_int32 _).bind ?_
    rw [if_pos (by rw [hint, INT32_MAX]; omega), hnat]
    have hread := reads_inplace (str ++ [0])
    rw [List.length_append, List.length_singleton] at hread
    rw [← add_zero (write (str ++ [0]))]
    refine hread.bind ?_
    show Reads At (pure ((str ++ [0]).take str.length)) 0 str
    rw [List.take_left' rfl]
    exact .pure str

theorem length_readString8 (p : Parcel) : (readString8 p).1.length < 2 ^ 31 - 1 := by
  show ((if 0 < (readInt32 p).1.toInt ∧ (readInt32 p).1.toInt < INT32_MAX then _ else _ :
    Read String8) (readInt32 p).2).1.length < 2 ^ 31 - 1
  generalize (readInt32 p).1 = size
  generalize (readInt32 p).2 = p
  split
  · next h =>
    have hsize : size.toNat < 2 ^ 31 - 1 := by
      have := BitVec.toInt_eq_toNat_cond size
      rw [INT32_MAX] at h
      split at this <;> omega
    simp only [bind]
    cases (readInplace (size.toNat + 1) p).1 with
    | none => exact Nat.zero_lt_of_lt hsize
    | some str => exact Nat.lt_of_le_of_lt (List.length_take_le _ _) hsize
  · exact Nat.zero_lt_succ _

/-- A string comes back if its length can be told from none. -/
theorem isCodec_string8 :
    IsCodec At (fun str => some (writeString8 str)) readString8
      fun str => str.length < 2 ^ 31 - 1 where
  reads _ h := ⟨_, rfl, reads_string8 h⟩
  misreads _ _ hnot _ p _ _ _ he := hnot (he ▸ length_readString8 p)

theorem charsOf_charBytes (str : String16) (rest : List UInt8) :
    charsOf str.length (str.flatMap charBytes ++ rest) = str := by
  induction str with
  | nil => rfl
  | cons c str ih =>
    have hc := c.isLt
    rw [List.flatMap_cons, List.append_assoc, List.length_cons, charsOf]
    refine congrArg₂ List.cons (BitVec.eq_of_toNat_eq ?_) ih
    simp only [charBytes, List.cons_append, List.getD_cons_zero, List.getD_cons_succ,
      Nat.toUInt8_eq, UInt8.toNat_ofNat', BitVec.toNat_ofNat]
    omega

theorem reads_string16 {str : String16} (h : str.length < 2 ^ 31 - 1) :
    Reads At readString16 (writeString16 str) str := by
  have hnat := toNat_length (n := str.length) (by omega)
  have hint := toInt_length (n := str.length) (by omega)
  have hlen : (str.flatMap charBytes ++ [0, 0]).length = (str.length + 1) * 2 := by
    have : (str.flatMap charBytes).length = str.length * 2 := by
      simp [List.length_flatMap, charBytes, List.map_const']
    rw [List.length_append, this]
    simp only [List.length_cons, List.length_nil]
    omega
  refine (reads_int32 _).bind ?_
  rw [if_pos (by rw [hint, INT32_MAX]; omega), hnat]
  have hread := reads_inplace (str.flatMap charBytes ++ [0, 0])
  rw [hlen] at hread
  rw [← add_zero (write (str.flatMap charBytes ++ [0, 0]))]
  refine hread.bind ?_
  show Reads At (pure (charsOf str.length (str.flatMap charBytes ++ [0, 0]))) 0 str
  rw [charsOf_charBytes]
  exact .pure str

/-! ## Binders -/

theorem searchForward_eq {objs : List Nat} {dpos k : Nat} (hk : k < objs.length)
    (hat : objs.getD k 0 = dpos) (hbefore : ∀ i < k, objs.getD i 0 < dpos) (n opos : Nat)
    (hle : opos ≤ k) (hn : k ≤ opos + n) : searchForward objs dpos n opos = k := by
  induction n generalizing opos with
  | zero =>
    rw [searchForward]
    omega
  | succ n ih =>
    rw [searchForward]
    by_cases h : opos = k
    · subst h
      rw [if_neg (by omega)]
    · have := hbefore opos (by omega)
      rw [if_pos (by omega)]
      exact ih (opos + 1) (by omega) (by omega)

/-- The search from a hint that is not ahead finds the object. -/
theorem findObject_eq {objs : List Nat} {hint dpos k : Nat} (hk : k < objs.length)
    (hat : objs.getD k 0 = dpos) (hbefore : ∀ i < k, objs.getD i 0 < dpos) (hle : hint ≤ k) :
    findObject objs hint dpos = some k := by
  have hforward := searchForward_eq hk hat hbefore objs.length hint hle (by omega)
  have hhint : hint < objs.length := by omega
  simp only [findObject, if_pos hhint, hforward, if_pos hat]
  exact if_neg (by omega)

theorem reads_object (val : flat_binder_object) (hnull : val.binder = 0 → val.cookie = 0) :
    Reads At readObject (writeObject val) (some val) := by
  intro p pre post h
  have hle : p.mDataPos + 16 ≤ p.mData.length := h.length_le
  have hobj : flat_binder_object.ofBytes (p.mData.drop p.mDataPos) = val := by
    rw [h.drop]
    exact flat_binder_object.ofBytes_bytes val _
  have hvalid : (writeObject val).Valid := by
    intro o ho
    simp only [writeObject] at ho
    split at ho
    · rw [List.mem_singleton.mp ho]
      exact Nat.zero_lt_succ _
    · cases ho
  unfold readObject
  rw [if_pos hle, hobj]
  by_cases hb : val.binder = 0
  · rw [if_pos ⟨hnull hb, hb⟩]
    exact ⟨_, rfl, h.advance hvalid rfl h.hint_le⟩
  · -- the object's entry is the first behind those of `pre`
    have hentry : (writeObject val).objects = [0] := if_pos hb
    have hobjects : p.mObjects = pre.objects ++ pre.bytes.length ::
        post.objects.map (fun o => pre.bytes.length + ((writeObject val).bytes.length + o)) := by
      rw [h.objects]
      simp [hentry, Function.comp_def]
    have hfind : findObject p.mObjects p.mNextObjectHint p.mDataPos = some pre.objects.length := by
      refine findObject_eq ?_ ?_ (fun i hi => ?_) h.hint
      · rw [hobjects]
        simp
      · rw [hobjects, h.pos]
        simp
      · rw [hobjects, h.pos, List.getD_eq_getElem?_getD,
          List.getElem?_append_left hi, List.getElem?_eq_getElem hi]
        exact h.valid _ (List.getElem_mem hi)
    rw [if_neg fun hc => hb hc.2, hfind]
    refine ⟨_, rfl, h.advance hvalid rfl ?_⟩
    simp [hentry]

theorem unflatten_flatten (getWeakRefs : Address → Address) (val : Option IBinder) :
    unflattenBinder (some (flattenBinder getWeakRefs val)) = val := by
  cases val with
  | none => rfl
  | some b =>
    cases b with
    | «local» a =>
      simp only [flattenBinder, unflattenBinder, if_pos]
      exact dif_pos a.2
    | proxy handle => simp [flattenBinder, unflattenBinder, BINDER_TYPE_BINDER, BINDER_TYPE_HANDLE]

theorem isCodec_binder (getWeakRefs : Address → Address) :
    IsCodec At (fun val => some (writeStrongBinder getWeakRefs val)) readStrongBinder
      fun _ => True where
  reads val _ := by
    refine ⟨_, rfl, ?_⟩
    have hnull : (flattenBinder getWeakRefs val).binder = 0 →
        (flattenBinder getWeakRefs val).cookie = 0 := by
      rcases val with _ | a | handle
      · exact fun _ => rfl
      · exact fun h => absurd h (getWeakRefs a).2
      · exact fun _ => rfl
    have := (reads_object _ hnull).bind_pure unflattenBinder
    rwa [unflatten_flatten] at this
  misreads _ _ hnot := absurd trivial hnot

/-! ## Interface tokens -/

theorem reads_interface (strictModePolicy : BitVec 32) {interface : String16}
    (h : interface.length < 2 ^ 31 - 1) :
    Reads At (checkInterface interface) (writeInterfaceToken strictModePolicy interface) true := by
  refine (reads_int32 _).bind ?_
  have := (reads_string16 h).bind_pure fun str => decide (str = interface)
  rwa [decide_eq_true rfl] at this

end Cdroid.Binder
