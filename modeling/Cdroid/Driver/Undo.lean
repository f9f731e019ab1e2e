import Cdroid.Driver.Owed

/-! A transaction that fails: what its objects were translated to is found again, and each mark
is taken back. -/

namespace Cdroid.Driver.References
open Cdroid.Lib Cdroid.Lib.SearchTree State

/-! ## Objects and marks -/

/-- The object is what a translation leaves in the buffer for the mark. -/
def Mark.ShownBy (fp : flat_binder_object) : Mark → Prop
  | target _ => False
  | node _ ptr strong => fp.type = (ObjectType.binder strong).code ∧ fp.binder = ptr
  | ref _ desc strong => fp.type = (ObjectType.handle strong).code ∧ fp.binder = desc
  | fd f => fp.type = ObjectType.fd.code ∧ fp.binder = f

/-- What the mark stands for is there. -/
def Mark.There (k : Kernel) (T : Nat) (s : State) : Mark → Prop
  | target _ => True
  | node a ptr _ => ∃ n, s.nodes.get a = some n ∧ n.name = some (T, ptr)
  | ref a desc _ => ∃ r, s.refs.get (T, a) = some r ∧ r.desc = desc
  | fd _ => k.has_files T = true

section
variable {k : Kernel} {c : Call} {T : Nat} {s₀ s t u : State} {marks rest : List Mark} {m : Mark}
  {fp fp' : flat_binder_object} {strong : Bool}

theorem Mark.There.mono (h : m.There k T s) (hst : Within s t) : m.There k T t := by
  cases m with
  | target => trivial
  | node a ptr st =>
    obtain ⟨n, hn, hname⟩ := h
    obtain ⟨n', hn', hname'⟩ := hst.nodes a n hn
    exact ⟨n', hn', hname'.trans hname⟩
  | ref a desc st =>
    obtain ⟨r, hr, hdesc⟩ := h
    obtain ⟨r', hr', hdesc'⟩ := hst.refs (T, a) r hr
    exact ⟨r', hr', hdesc'.trans hdesc⟩
  | fd f => exact h

/-! ## Taking back -/

theorem closeFd_owes {f : BitVec 32} (h : Owes T s₀ (.fd f :: rest) s)
    (hk : k.has_files T = true) : Owes T s₀ rest (s.closeFd k T f) := by
  obtain ⟨done, hinstalled, hclosed⟩ := h.fds
  rw [fdsOf_cons] at hinstalled
  unfold closeFd
  rw [if_pos hk]
  refine ⟨h.others, h.lower, fun a st => ?_, fun a st hpos => ?_, fun a st => ?_, h.internals,
    h.procs, done ++ [(T, f)], ?_, ?_⟩
  · have hupper := h.upper a st
    simp [heldOf_cons, Mark.holds] at hupper
    exact hupper
  · have hexact := h.exact a st hpos
    simp [heldOf_cons, Mark.holds] at hexact
    exact hexact
  · have hlocals := h.locals a st
    simp [localsOf_cons, Mark.counts] at hlocals
    exact hlocals
  · simpa [Mark.fd?] using hinstalled
  · simp [hclosed]

/-- An object that shows the mark takes it back, if what is there was there when it was
translated. -/
theorem releaseObject_owes (h : Owes T s₀ (m :: rest) s) (hs : Counted s₀) (hst : Within s t)
    (hthere : m.There k T t) (hshown : m.ShownBy fp) :
    Owes T s₀ rest (s.releaseObject k T true fp) ∧ Within (s.releaseObject k T true fp) s := by
  unfold releaseObject
  cases m with
  | target a => exact hshown.elim
  | node a ptr strong =>
    obtain ⟨htype, hptr⟩ := hshown
    rw [htype, objectType_code]
    dsimp only
    have hdec := h.uncount (a := a) strong hs rfl rfl rfl
    obtain ⟨n, hn⟩ := Option.isSome_iff_exists.mp (h.present (a := a) strong hs rfl)
    obtain ⟨n', hn', hname⟩ := hst.nodes a n hn
    obtain ⟨m, hm, hname'⟩ := hthere
    have hget : s.getNode T fp.binder = some n := by
      refine Table.lookup_iff_get.mpr ⟨?_, ?_⟩
      · rw [Table.key_of_get hn]
        exact hn
      · rw [← hname, Option.some.inj (hn'.symm.trans hm), hname', hptr]
    rw [hget]
    dsimp only
    rw [Table.key_of_get hn]
    exact hdec
  | ref a desc strong =>
    obtain ⟨htype, hdesc⟩ := hshown
    rw [htype, objectType_code]
    dsimp only
    obtain ⟨q, hq, hqdesc⟩ := hthere
    -- a reference of the target with this descriptor is the one of the mark
    have hname : ∀ r, s.refs.get r.key = some r → r.name = some (T, desc) → r.key = (T, a) := by
      intro r hr hr'
      obtain ⟨r', hget, hsame⟩ := hst.refs r.key r hr
      obtain ⟨hmem, hkey⟩ := Table.get_eq_some.mp hget
      obtain ⟨hmem', hkey'⟩ := Table.get_eq_some.mp hq
      have hproc : r'.proc = T :=
        (congrArg Prod.fst hkey).trans (congrArg Prod.fst (Option.some.inj hr'))
      have hdesc' : r'.desc = desc := hsame.trans (congrArg Prod.snd (Option.some.inj hr'))
      have hproc' : q.proc = T := congrArg Prod.fst hkey'
      have heq : r' = q := Table.eq_of_name (n := (T, desc)) hmem hmem'
        (by unfold binder_ref.name; rw [hproc, hdesc']) (by unfold binder_ref.name; rw [hproc', hqdesc])
      rw [← hkey, heq, hkey']
    split
    · next hnone =>
      refine ⟨h.forget ?_, Within.refl s⟩
      unfold held
      cases hr : s.refs.get (T, a) with
      | none => rfl
      | some r =>
        obtain ⟨r', hr', hsame⟩ := hst.refs (T, a) r hr
        have hkey := Table.key_of_get hr
        have hproc : r.proc = T := congrArg Prod.fst hkey
        have hdesc' : r.desc = desc := by
          rw [← hsame, ← hqdesc, Option.some.inj (hr'.symm.trans hq)]
        have hfound : s.getRef T fp.binder = some r := by
          refine Table.lookup_iff_get.mpr ⟨hkey.symm ▸ hr, ?_⟩
          unfold binder_ref.name
          rw [hproc, hdesc', hdesc]
        cases hfound.symm.trans hnone
    · next r hr =>
      obtain ⟨hget, hr'⟩ := Table.lookup_iff_get.mp hr
      rw [hdesc] at hr'
      have hkey := hname r hget hr'
      rw [hkey] at hget ⊢
      exact h.unlend hget hs
  | fd f =>
    obtain ⟨htype, hf⟩ := hshown
    rw [htype, objectType_code, hf]
    dsimp only
    rw [if_pos rfl]
    refine ⟨closeFd_owes h hthere, ?_⟩
    unfold closeFd
    split
    · exact Within.of_eq rfl rfl
    · exact Within.refl s

/-- Where the data show the marks, that were there in the state `t`. -/
structure Shows (k : Kernel) (T data_size : Nat) (data : Data) (t : State) (off : Nat) (m : Mark) :
    Prop where
  inside : badOffset data_size off = false
  shown : m.ShownBy (data.object off)
  there : m.There k T t

/-- All marks are taken back. -/
theorem releaseAll_owes {data_size : Nat} {data : Data} {offs : List Nat}
    (hs : Counted s₀) (hshows : List.Forall₂ (Shows k T data_size data t) offs marks)
    (h : Owes T s₀ marks s) (hst : Within s t) :
    Owes T s₀ [] (releaseAll k T data_size data true offs s) ∧
      Within (releaseAll k T data_size data true offs s) s := by
  induction hshows generalizing s with
  | nil => exact ⟨h, Within.refl s⟩
  | @cons off m offs marks hshow hshows ih =>
    unfold releaseAll
    rw [hshow.inside, if_neg Bool.false_ne_true]
    obtain ⟨howes, hwithin⟩ := releaseObject_owes h hs hst hshow.there hshow.shown
    obtain ⟨howes', hwithin'⟩ := ih howes (hwithin.trans hst)
    exact ⟨howes', hwithin'.trans hwithin⟩

/-- The mark for the node of the target that the buffer holds. -/
def targetMarks : Option Nat → List Mark
  | some a => [.target a]
  | none => []

theorem bufferRelease_owes (s₀ : State) (node : Option Nat) {data_size : Nat} {data : Data}
    {offs : List Nat} (hs : Counted s₀)
    (hshows : List.Forall₂ (Shows k T data_size data s) offs marks)
    (h : Owes T s₀ (targetMarks node ++ marks) s) :
    Owes T s₀ [] (s.bufferRelease k T node data_size data true offs) ∧
      Within (s.bufferRelease k T node data_size data true offs) s := by
  unfold bufferRelease
  cases node with
  | none => exact releaseAll_owes hs hshows h (Within.refl s)
  | some a =>
    obtain ⟨howes, hwithin⟩ := h.uncount (a := a) true hs rfl rfl rfl
    obtain ⟨howes', hwithin'⟩ := releaseAll_owes hs hshows howes hwithin
    exact ⟨howes', hwithin'.trans hwithin⟩

/-! ## Translation -/

/-- A new node is entered without counts, and is there. -/
theorem ownNode_spec {proc : Nat} {node : Option binder_node}
    (h : s.ownNode proc fp = (node, t)) :
    Same s t ∧ Within s t ∧ ∀ n, node = some n → (t.nodes.get n.addr).isSome := by
  unfold ownNode at h
  split at h
  · next n hn =>
    cases h
    refine ⟨Same.refl s, Within.refl s, fun m hm => ?_⟩
    cases hm
    rw [(Table.lookup_iff_get.mp hn).1]
    rfl
  · next hnone =>
    unfold newNode at h
    split at h
    · cases h
      have hfits : s.alloc.nodes.fits {
          addr := s.alloc.fresh
          proc := some proc
          ptr := fp.binder
          cookie := fp.cookie
          internal_strong_refs := 0
          local_weak_refs := 0
          local_strong_refs := 0
          has_strong_ref := false
          has_weak_ref := false
          accept_fds := fp.flags &&& FLAT_BINDER_FLAG_ACCEPTS_FDS != 0
          min_priority := fp.flags.setWidth 8
          work := none } = true := by
        unfold Table.fits
        rw [Bool.and_eq_true]
        refine ⟨Option.isNone_iff_eq_none.mpr get_fresh, ?_⟩
        exact Option.isNone_iff_eq_none.mpr hnone
      obtain ⟨hsame, hwithin⟩ := addNode_same hfits (fun st => by cases st <;> rfl) rfl
      refine ⟨alloc_same.1.trans hsame, alloc_same.2.trans hwithin, fun m hm => ?_⟩
      cases hm
      rw [get_addNode hfits, if_pos rfl]
      rfl
    · cases h
      exact ⟨alloc_same.1, alloc_same.2, fun m hm => nomatch hm⟩

/-- What becomes of an object: it fails and nothing is counted, or it shows a mark that is
counted and there. -/
def Marked (k : Kernel) (T : Nat) (s : State) : Translated → Prop
  | (.error _, t) => Same s t ∧ Within s t
  | (.ok fp, t) => Within s t ∧ ∃ m : Mark, m.ShownBy fp ∧ m.There k T t ∧
      ∀ s₀ marks, Owes T s₀ marks s → Owes T s₀ (marks ++ [m]) t

/-- A reference that is counted for an object. -/
theorem incRef_marked {a : Nat} {ref : binder_ref} {l : Option WorkList} (hsame : Same s t)
    (hwithin : Within s t) (href : ref.key = (T, a) ∧ t.refs.get (T, a) = some ref)
    (htype : fp.type = (ObjectType.handle strong).code) (hdesc : fp.binder = ref.desc) :
    Marked k T s (.ok fp, t.incRef ref.key strong l) := by
  obtain ⟨hkey, hr⟩ := href
  rw [hkey]
  have hlend := fun s₀ marks (h : Owes T s₀ marks t) => h.lend strong hr ref.desc l
  have hmore := (hlend t [] (Owes.init T t)).2
  refine ⟨hwithin.trans hmore, .ref a ref.desc strong, ⟨htype, hdesc⟩, ?_, fun s₀ marks h => ?_⟩
  · exact Mark.There.mono (k := k) (m := .ref a ref.desc strong) ⟨ref, hr, rfl⟩ hmore
  · exact (hlend s₀ marks (h.same hsame)).1

theorem sendBinder_marked {r : Translated} (h : s.sendBinder c strong fp = .ok r) :
    Marked k c.target_proc s r := by
  unfold sendBinder at h
  split at h
  · next s₁ hown =>
    cases h
    obtain ⟨hsame, hwithin, -⟩ := ownNode_spec hown
    exact ⟨hsame, hwithin⟩
  · next n s₁ hown =>
    obtain ⟨hsame, hwithin, hthere⟩ := ownNode_spec hown
    split at h
    · cases h
      exact ⟨hsame, hwithin⟩
    · cases hget : s₁.getRefForNode c.target_proc n.addr with
      | error b =>
        rw [hget] at h
        cases h
      | ok p =>
        obtain ⟨ref, s₂⟩ := p
        rw [hget] at h
        obtain ⟨hsame', hwithin', href⟩ := getRefForNode_spec (hthere n rfl) hget
        cases ref with
        | none =>
          cases h
          exact ⟨hsame.trans hsame', hwithin.trans hwithin'⟩
        | some ref =>
          cases h
          exact incRef_marked (hsame.trans hsame') (hwithin.trans hwithin') (href ref rfl) rfl rfl

theorem sendHandle_marked {r : Translated} (htype : fp.type = (ObjectType.handle strong).code)
    (h : s.sendHandle c strong fp = .ok r) : Marked k c.target_proc s r := by
  unfold sendHandle at h
  split at h
  · cases h
    exact ⟨Same.refl s, Within.refl s⟩
  · next ref hr =>
    split at h
    · cases h
      exact ⟨Same.refl s, Within.refl s⟩
    · next n hn =>
      have ha : (s.nodes.get ref.node).isSome := by
        rw [hn]
        rfl
      split at h
      · next hproc =>
        cases h
        refine ⟨within_setNode.1, .node ref.node n.ptr strong, ⟨rfl, rfl⟩, ?_,
          fun s₀ marks howes => howes.count ha rfl rfl rfl none⟩
        refine Mark.There.mono (k := k) (m := .node ref.node n.ptr strong) ⟨n, hn, ?_⟩
          within_setNode.1
        unfold binder_node.name
        rw [hproc]
        rfl
      · cases hget : s.getRefForNode c.target_proc ref.node with
        | error b =>
          rw [hget] at h
          cases h
        | ok p =>
          obtain ⟨new_ref, s₁⟩ := p
          rw [hget] at h
          obtain ⟨hsame, hwithin, href⟩ := getRefForNode_spec ha hget
          cases new_ref with
          | none =>
            cases h
            exact ⟨hsame, hwithin⟩
          | some new_ref =>
            cases h
            exact incRef_marked hsame hwithin (href new_ref rfl) htype rfl

theorem sendFd_marked (htype : fp.type = ObjectType.fd.code) :
    Marked k c.target_proc s (s.sendFd k c fp) := by
  unfold sendFd
  split
  · exact ⟨Same.refl s, Within.refl s⟩
  · split
    · exact ⟨Same.refl s, Within.refl s⟩
    · split
      · exact ⟨Same.refl s, Within.refl s⟩
      · next target_fd hfd =>
        have hfiles : k.has_files c.target_proc = true := by
          unfold getUnusedFd at hfd
          split at hfd
          · next hfiles => exact hfiles
          · cases hfd
        unfold fdInstall
        rw [if_pos hfiles]
        refine ⟨Within.of_eq rfl rfl, .fd target_fd, ⟨htype, rfl⟩, hfiles, fun s₀ marks h => ?_⟩
        obtain ⟨done, hinstalled, hclosed⟩ := h.fds
        refine ⟨h.others, h.lower, fun a st => ?_, fun a st hpos => ?_, fun a st => ?_,
          h.internals, h.procs, done, ?_, hclosed⟩
        · have hupper := h.upper a st
          rw [heldOf_snoc, if_neg fun hm => nomatch hm]
          exact hupper
        · rw [heldOf_snoc, if_neg fun hm => nomatch hm]
          exact h.exact a st hpos
        · rw [localsOf_snoc, if_neg fun hm => nomatch hm]
          exact h.locals a st
        · simp [hinstalled, fdsOf_snoc, Mark.fd?]

theorem translate_marked {r : Translated} (h : s.translate k c fp = .ok r) :
    Marked k c.target_proc s r := by
  unfold State.translate at h
  split at h
  · exact sendBinder_marked h
  · next strong htype => exact sendHandle_marked (code_of_objectType htype) h
  · next htype =>
    cases h
    exact sendFd_marked (code_of_objectType htype)
  · cases h
    exact ⟨Same.refl s, Within.refl s⟩

/-! ## What is written -/

/-- The node of the object is the target's own. -/
def State.comesHome (s : State) (c : Call) (fp : flat_binder_object) : Bool :=
  ((s.getRef c.proc fp.binder).bind fun ref => s.nodes.get ref.node).any fun node =>
    node.proc = some c.target_proc

/-- The words that are written when the object at `off` is translated. Only a node of the target
is sent with its cookie. -/
def State.written (s : State) (c : Call) (fp : flat_binder_object) (off : Nat) : List Nat :=
  match objectType fp.type with
  | some (.binder _) => [off, off + 8]
  | some (.handle _) => if s.comesHome c fp then [off, off + 8, off + 12] else [off + 8]
  | some .fd => [off + 8]
  | none => []

/-- No object that is translated writes over the type or the handle of one before it. -/
def sparesEarlier (k : Kernel) (c : Call) (data_size : Nat) :
    List Nat → List Nat → Data → State → Bool
  | _, [], _, _ => true
  | before, off :: offs, data, s =>
    badOffset data_size off || match s.translate k c (data.object off) with
    | .ok (.ok fp, t) =>
      before.all (fun i => [i, i + 8].all fun x => x ∉ s.written c (data.object off) off) &&
        sparesEarlier k c data_size (before ++ [off]) offs (data.store off fp) t
    | _ => true

theorem sendBinder_cookie {strong : Bool} (h : s.sendBinder c strong fp = .ok (.ok fp', t)) :
    fp'.cookie = fp.cookie := by
  unfold sendBinder at h
  split at h
  · cases h
  · split at h
    · cases h
    · next n u _ _ =>
      cases hget : u.getRefForNode c.target_proc n.addr with
      | error b =>
        rw [hget] at h
        cases h
      | ok p =>
        obtain ⟨ref, v⟩ := p
        rw [hget] at h
        cases ref with
        | none => cases h
        | some ref =>
          cases h
          rfl

theorem sendHandle_kept {strong : Bool} (h : s.sendHandle c strong fp = .ok (.ok fp', t))
    (haway : s.comesHome c fp = false) : fp'.type = fp.type ∧ fp'.cookie = fp.cookie := by
  unfold sendHandle at h
  unfold comesHome at haway
  split at h
  · cases h
  · next ref href =>
    split at h
    · cases h
    · next n hn =>
      have hproc : n.proc ≠ some c.target_proc := by simpa [href, hn] using haway
      rw [if_neg hproc] at h
      cases hget : s.getRefForNode c.target_proc ref.node with
      | error b =>
        rw [hget] at h
        cases h
      | ok p =>
        obtain ⟨new_ref, u⟩ := p
        rw [hget] at h
        cases new_ref with
        | none => cases h
        | some new_ref =>
          cases h
          exact ⟨rfl, rfl⟩

theorem sendFd_kept (h : s.sendFd k c fp = (.ok fp', t)) :
    fp'.type = fp.type ∧ fp'.cookie = fp.cookie := by
  unfold sendFd at h
  split at h
  · cases h
  · split at h
    · cases h
    · split at h
      · cases h
      · cases h
        exact ⟨rfl, rfl⟩

/-- What is not written is as it was. -/
theorem translate_written (off : Nat) (h : s.translate k c fp = .ok (.ok fp', t)) :
    (off ∉ s.written c fp off → fp'.type = fp.type) ∧
      (off + 8 ∉ s.written c fp off → fp'.binder = fp.binder) ∧
      (off + 12 ∉ s.written c fp off → fp'.cookie = fp.cookie) := by
  unfold State.translate at h
  cases htype : objectType fp.type with
  | none =>
    rw [htype] at h
    cases h
  | some type =>
    rw [htype] at h
    cases type with
    | binder strong => simp [written, htype, sendBinder_cookie h]
    | fd => simp [written, htype, sendFd_kept (Except.ok.inj h)]
    | handle strong =>
      cases hhome : s.comesHome c fp with
      | true => simp [written, htype, hhome]
      | false => simp [written, htype, hhome, sendHandle_kept h hhome]

theorem store_of_not_written {data : Data} {off x : Nat}
    (h : s.translate k c (data.object off) = .ok (.ok fp, t))
    (hx : x ∉ s.written c (data.object off) off) : data.store off fp x = data x := by
  obtain ⟨htype, hbinder, hcookie⟩ := translate_written off h
  unfold Data.store
  split
  · next heq =>
    subst heq
    exact htype hx
  · split
    · next heq =>
      subst heq
      exact hbinder hx
    · split
      · next heq =>
        subst heq
        exact hcookie hx
      · rfl

theorem Mark.ShownBy.store {data : Data} {i off : Nat} (h : m.ShownBy (data.object i))
    (htranslate : s.translate k c (data.object off) = .ok (.ok fp, t))
    (hspares : ∀ x ∈ [i, i + 8], x ∉ s.written c (data.object off) off) :
    m.ShownBy ((data.store off fp).object i) := by
  have htype : ((data.store off fp).object i).type = (data.object i).type :=
    store_of_not_written htranslate (hspares i (by simp))
  have hbinder : ((data.store off fp).object i).binder = (data.object i).binder :=
    store_of_not_written htranslate (hspares (i + 8) (by simp))
  unfold Mark.ShownBy at h ⊢
  rw [htype, hbinder]
  exact h

theorem Mark.ShownBy.stored {data : Data} {off : Nat} (h : m.ShownBy fp) :
    m.ShownBy ((data.store off fp).object off) := by
  have htype : ((data.store off fp).object off).type = fp.type := if_pos rfl
  have hbinder : ((data.store off fp).object off).binder = fp.binder := by
    simp [Data.object, Data.store]
  unfold Mark.ShownBy at h ⊢
  rw [htype, hbinder]
  exact h

/-! ## All objects -/

/-- The objects at these offsets are translated since `s₀`, and can be taken back. -/
structure Filled (k : Kernel) (c : Call) (data_size : Nat) (s₀ : State) (offs : List Nat)
    (data : Data) (s : State) : Prop where
  within : Within s₀ s
  marks : ∃ marks, Owes c.target_proc s₀ (targetMarks c.target_node ++ marks) s ∧
    List.Forall₂ (Shows k c.target_proc data_size data s) offs marks

section Filled
variable {data_size : Nat} {data : Data} {offs before : List Nat} {off : Nat} {p : Progress}

theorem Filled.failed (h : Filled k c data_size s₀ before data s) (hsame : Same s t)
    (hwithin : Within s t) : Filled k c data_size s₀ before data t := by
  obtain ⟨marks, howes, hshows⟩ := h.marks
  exact ⟨h.within.trans hwithin, marks, howes.same hsame,
    hshows.imp fun _ _ hshow => ⟨hshow.inside, hshow.shown, hshow.there.mono hwithin⟩⟩

theorem Filled.translated (h : Filled k c data_size s₀ before data s)
    (hbad : badOffset data_size off = false)
    (htranslate : s.translate k c (data.object off) = .ok (.ok fp, t))
    (hspares : ∀ i ∈ before, ∀ x ∈ [i, i + 8], x ∉ s.written c (data.object off) off) :
    Filled k c data_size s₀ (before ++ [off]) (data.store off fp) t := by
  obtain ⟨marks, howes, hshows⟩ := h.marks
  obtain ⟨hwithin, m, hshown, hthere, hcount⟩ := translate_marked htranslate
  refine ⟨h.within.trans hwithin, marks ++ [m], ?_, ?_⟩
  · rw [← List.append_assoc]
    exact hcount _ _ howes
  · refine List.rel_append ?_ (.cons ⟨hbad, hshown.stored, hthere⟩ .nil)
    refine (List.forall₂_iff_get.mpr ⟨hshows.length_eq, fun i hi hi' => ?_⟩)
    have hshow := hshows.get hi hi'
    exact ⟨hshow.inside, hshow.shown.store htranslate (hspares _ (List.get_mem _ _)),
      hshow.there.mono hwithin⟩

/-- The loop: those objects that are done can be taken back, if none of them writes over one
before it. -/
theorem translateAll_filled (s₀ : State) (before : List Nat)
    (h : translateAll k c data_size offs before.length data s = .ok p)
    (hspares : sparesEarlier k c data_size before offs data s = true)
    (hfilled : Filled k c data_size s₀ before data s) :
    ∃ done, done <+: offs ∧ p.offp = (before ++ done).length ∧
      Filled k c data_size s₀ (before ++ done) p.data p.state := by
  induction offs generalizing before data s with
  | nil =>
    cases h
    refine ⟨[], List.nil_prefix, by rw [List.append_nil], ?_⟩
    rwa [List.append_nil]
  | cons off offs ih =>
    unfold translateAll at h
    unfold sparesEarlier at hspares
    split at h
    · cases h
      refine ⟨[], List.nil_prefix, by rw [List.append_nil], ?_⟩
      rwa [List.append_nil]
    · next hbad =>
      rw [Bool.not_eq_true] at hbad
      cases htranslate : s.translate k c (data.object off) with
      | error b =>
        rw [htranslate] at h
        cases h
      | ok r =>
        rw [htranslate] at h hspares
        obtain ⟨e | fp, t⟩ := r
        · cases h
          obtain ⟨hsame, hwithin⟩ := translate_marked htranslate
          refine ⟨[], List.nil_prefix, by rw [List.append_nil], ?_⟩
          rw [List.append_nil]
          exact hfilled.failed hsame hwithin
        · have hlength : before.length + 1 = (before ++ [off]).length := by simp
          change translateAll k c data_size offs (before.length + 1) (data.store off fp) t =
            .ok p at h
          rw [hlength] at h
          rw [hbad, Bool.false_or, Bool.and_eq_true, List.all_eq_true] at hspares
          obtain ⟨hthese, hrest⟩ := hspares
          have hdisjoint : ∀ i ∈ before, ∀ x ∈ [i, i + 8],
              x ∉ s.written c (data.object off) off := by
            intro i hi x hx
            exact of_decide_eq_true (List.all_eq_true.mp (hthese i hi) x hx)
          obtain ⟨done, hprefix, hoffp, hdone⟩ :=
            ih _ h hrest (hfilled.translated hbad htranslate hdisjoint)
          rw [List.append_assoc] at hoffp hdone
          exact ⟨off :: done, List.cons_prefix_cons.mpr ⟨rfl, hprefix⟩, hoffp, hdone⟩

/-- The offsets that there are to be objects at. -/
def binder_transaction_data.allOffs (tr : binder_transaction_data) : List Nat :=
  tr.offsets.elim [] tr.offs

/-- Where the objects come to be translated, none writes over one before it. -/
def binder_transaction_data.spares (tr : binder_transaction_data) (k : Kernel) (c : Call)
    (s : State) : Bool :=
  match tr.data, tr.offsets with
  | some data, some offsets =>
    tr.offsets_size.toNat % sizeof_binder_ptr ≠ 0 ||
      sparesEarlier k c tr.data_size.toNat [] (tr.offs offsets) data s
  | _, _ => true

theorem fill_filled {tr : binder_transaction_data} (h : fill k c tr s = .ok p)
    (hspares : tr.spares k c s = true)
    (hs : ∀ data, Filled k c tr.data_size.toNat s₀ [] data s) :
    Filled k c tr.data_size.toNat s₀ (tr.allOffs.take p.offp) p.data p.state := by
  unfold fill at h
  unfold binder_transaction_data.spares at hspares
  split at h
  · cases h
    exact hs _
  · cases h
    exact hs _
  · next data offsets hdata hoffsets =>
    rw [hdata, hoffsets] at hspares
    split at h
    · cases h
      exact hs _
    · next haligned =>
      dsimp only at hspares
      rw [decide_eq_false haligned, Bool.false_or] at hspares
      have hall : tr.allOffs = tr.offs offsets := by
        unfold binder_transaction_data.allOffs
        rw [hoffsets]
        rfl
      obtain ⟨done, hprefix, hoffp, hdone⟩ := translateAll_filled s₀ [] h hspares (hs data)
      rw [List.nil_append] at hoffp hdone
      have htake : tr.allOffs.take p.offp = done := by
        rw [hall, hoffp]
        exact (List.prefix_iff_eq_take.mp hprefix).symm
      rw [htake]
      exact hdone

end Filled

end

end Cdroid.Driver.References
