import Cdroid.Lib.Memo
import Cdroid.Lib.Containers

/-! The dispatchers of `ContextImpl`. `ServiceConnectionManager` keeps one for each context and
connection, and `ReceiverManager` one for each context and receiver. Contexts, connections,
receivers and handlers are told apart by their addresses; `lt` is the order of these. -/

namespace Cdroid.Runtime
open Cdroid.Lib.Comp Cdroid.Lib.Memo Cdroid.Lib.Containers

inductive DispatchClass
  | dispatcher
  | inner

abbrev DispatcherRef := Ref DispatchClass.dispatcher

abbrev InnerRef := Ref DispatchClass.inner

/-- An iterator is read at the end of its map. -/
inductive TableFault
  | endIterator

/-! ## Managers -/

section Managers
variable (κ τ ρ η ι : Type)

/-- A `ServiceDispatcher` or a `ReceiverDispatcher`; `target` is its `mConnection` or its
`mReceiver`, and `inner` the binder object that it makes. -/
structure Dispatcher where
  target : τ
  mContext : κ
  mMainHandler : η
  inner : InnerRef

/-- A table of maps, with the objects that have been made for it. -/
structure Manager where
  table : OrdMap κ (OrdMap τ DispatcherRef)
  dispatchers : Store DispatchClass.dispatcher (Dispatcher κ τ η)
  inners : Store DispatchClass.inner ι

structure InnerServiceConnection where
  mConnection : τ
  mMainThreadHandler : η

structure InnerIntentReceiver where
  mReceiver : ρ
  mContext : κ
  mMainThreadHandler : η

/-- The managers of a context. -/
structure ContextManagers where
  mServiceConnectionMgr : Manager κ τ η (InnerServiceConnection τ η)
  mReceiverMgr : Manager κ ρ η (InnerIntentReceiver κ ρ η)

end Managers

variable {κ τ ρ η ι : Type}

/-- The dispatcher that the table has for the context and the target. -/
def Manager.entry [DecidableEq κ] [DecidableEq τ] (s : Manager κ τ η ι) (k : κ × τ) :
    Option DispatcherRef := (s.table.find k.1).bind fun m => m.find k.2

/-- The object that is returned for the context and the target. -/
def Manager.look [DecidableEq κ] [DecidableEq τ] (s : Manager κ τ η ι) (k : κ × τ) :
    Option InnerRef := (s.entry k).map fun sd => (s.dispatchers.get sd).inner

section Get
variable [DecidableEq κ] [DecidableEq τ] (lt : κ → κ → Bool) (lt' : τ → τ → Bool)
  (new : τ → κ → η → ι)

/-- The new dispatcher goes into the map of its context, which is made if there is none. -/
def Manager.add (map : Option (OrdMap τ DispatcherRef)) (target : τ) (context : κ) (handler : η)
    (s : Manager κ τ η ι) : Manager κ τ η ι where
  table := match map with
    | none => s.table.insert lt context [(target, s.dispatchers.fresh)]
    | some _ => s.table.adjust context fun m => m.insert lt' target s.dispatchers.fresh
  dispatchers := s.dispatchers.alloc ⟨target, context, handler, s.inners.fresh⟩
  inners := s.inners.alloc (new target context handler)

/-- The map of a known context is searched, and what `find` returns is read at once. -/
def getDispatcher (target : τ) (context : κ) (handler : η) :
    EStateM TableFault (Manager κ τ η ι) InnerRef := do
  let s ← get
  let map := s.table.find context
  let sd ← match map with
    | none => pure none
    | some m => match m.find target with
      | none => throw .endIterator
      | some sd => pure (some sd)
  match sd with
  | some sd => pure (s.dispatchers.get sd).inner
  | none =>
    modify (Manager.add lt lt' new map target context handler)
    pure s.inners.fresh

end Get

/-- `ServiceConnectionManager::getServiceDispatcher` -/
def getServiceDispatcher [DecidableEq κ] [DecidableEq τ] (lt : κ → κ → Bool)
    (lt' : τ → τ → Bool) (conn : τ) (context : κ) (handler : η) (_flags : BitVec 32) :
    EStateM TableFault (Manager κ τ η (InnerServiceConnection τ η)) InnerRef :=
  getDispatcher lt lt' (fun conn _ handler => ⟨conn, handler⟩) conn context handler

/-- `ReceiverManager::getReceiverDispatcher` -/
def getReceiverDispatcher [DecidableEq κ] [DecidableEq ρ] (lt : κ → κ → Bool)
    (lt' : ρ → ρ → Bool) (receiver : ρ) (context : κ) (handler : η) :
    EStateM TableFault (Manager κ ρ η (InnerIntentReceiver κ ρ η)) InnerRef :=
  getDispatcher lt lt' InnerIntentReceiver.mk receiver context handler

/-! ## The table of one manager -/

section Table
variable [DecidableEq κ] [DecidableEq τ]

/-- The same context, with another target. -/
def Clashes (k k' : κ × τ) : Prop := k.1 = k'.1 ∧ k.2 ≠ k'.2

/-- A dispatcher and its inner object, which is made with it. -/
structure Manager.Made (new : τ → κ → η → ι) (s : Manager κ τ η ι) (k : κ × τ)
    (sd : DispatcherRef) : Prop where
  live : s.dispatchers.Live sd
  context : (s.dispatchers.get sd).mContext = k.1
  target : (s.dispatchers.get sd).target = k.2
  inner : (s.dispatchers.get sd).inner = ⟨sd.idx⟩
  object : s.inners.get ⟨sd.idx⟩ = new k.2 k.1 (s.dispatchers.get sd).mMainHandler

/-- The invariant after the calls for `ks`. -/
structure ManagerInv (new : τ → κ → η → ι) (ks : List (κ × τ)) (s : Manager κ τ η ι) : Prop where
  contexts : ∀ c, (s.table.find c).isSome ↔ ∃ t, (c, t) ∈ ks
  entries : ∀ k, (s.entry k).isSome ↔ k ∈ ks
  single : ∀ k ∈ ks, ∀ k' ∈ ks, ¬ Clashes k k'
  made : ∀ k sd, s.entry k = some sd → s.Made new k sd
  next : s.inners.next = s.dispatchers.next

variable {new : τ → κ → η → ι} {ks : List (κ × τ)} {s : Manager κ τ η ι}

theorem ManagerInv.init (d : Dispatcher κ τ η) (i : ι) :
    ManagerInv new [] ⟨[], .empty d, .empty i⟩ where
  contexts c := by simp [OrdMap.find]
  entries k := by simp [Manager.entry, OrdMap.find]
  single := nofun
  made k sd h := by cases h
  next := rfl

theorem ManagerInv.distinct (h : ManagerInv new ks s) : Distinct Manager.look s := by
  intro k k' i hk hk'
  obtain ⟨sd, hsd, rfl⟩ := Option.map_eq_some_iff.mp hk
  obtain ⟨sd', hsd', hinner⟩ := Option.map_eq_some_iff.mp hk'
  have hm := h.made k sd hsd
  have hm' := h.made k' sd' hsd'
  rw [hm'.inner, hm.inner] at hinner
  obtain rfl : sd' = sd := Ref.ext (congrArg (fun i : InnerRef => i.idx) hinner)
  exact Prod.ext (hm.context.symm.trans hm'.context) (hm.target.symm.trans hm'.target)

/-- A dispatcher of the manager holds the context and the target, and has made the object. -/
def Manager.Holds (s : Manager κ τ η ι) (context : κ) (target : τ) (i : InnerRef) : Prop :=
  ∃ sd, s.dispatchers.Live sd ∧ (s.dispatchers.get sd).inner = i ∧
    (s.dispatchers.get sd).mContext = context ∧ (s.dispatchers.get sd).target = target

theorem ManagerInv.holds (h : ManagerInv new ks s) {context : κ} {target : τ} {i : InnerRef}
    (hi : s.look (context, target) = some i) :
    s.Holds context target i ∧ ∃ handler, s.inners.get i = new target context handler := by
  obtain ⟨sd, hsd, rfl⟩ := Option.map_eq_some_iff.mp hi
  have hmade := h.made _ sd hsd
  refine ⟨⟨sd, hmade.live, rfl, hmade.context, hmade.target⟩,
    (s.dispatchers.get sd).mMainHandler, ?_⟩
  rw [hmade.inner]
  exact hmade.object

theorem ManagerInv.context_ne (h : ManagerInv new ks s) {c : κ} (hc : s.table.find c = none)
    {k : κ × τ} (hk : k ∈ ks) : k.1 ≠ c := by
  rintro rfl
  have hsome := (h.contexts k.1).mpr ⟨k.2, hk⟩
  rw [hc] at hsome
  cases hsome

/-- A dispatcher for the first target of a context. -/
theorem ManagerInv.add (h : ManagerInv new ks s) (lt : κ → κ → Bool) (lt' : τ → τ → Bool)
    (target : τ) {context : κ} (handler : η) (hc : s.table.find context = none) :
    let t := Manager.add lt lt' new none target context handler s
    ManagerInv new (ks ++ [(context, target)]) t ∧ t.look (context, target) = some s.inners.fresh ∧
      Extends Manager.look s t := by
  intro t
  have hfind : ∀ c, t.table.find c =
      if context = c then some [(target, s.dispatchers.fresh)] else s.table.find c :=
    OrdMap.find_insert hc _
  have hentry : ∀ k, t.entry k =
      if (context, target) = k then some s.dispatchers.fresh else s.entry k := by
    rintro ⟨c, g⟩
    rw [Manager.entry, hfind, Manager.entry]
    by_cases hcontext : context = c
    · subst hcontext
      rw [if_pos rfl, hc, Option.bind_some, OrdMap.find_cons]
      by_cases htarget : target = g
      · rw [if_pos htarget, if_pos (by rw [htarget])]
      · rw [if_neg htarget, if_neg fun e => htarget (congrArg Prod.snd e)]
        rfl
    · rw [if_neg hcontext, if_neg fun e => hcontext (congrArg Prod.fst e)]
  have hget : ∀ sd, s.dispatchers.Live sd → t.dispatchers.get sd = s.dispatchers.get sd :=
    fun sd hlive => Store.get_alloc_live _ hlive
  have hnew : t.dispatchers.get s.dispatchers.fresh =
      ⟨target, context, handler, s.inners.fresh⟩ := Store.get_alloc_fresh _ _
  have hfresh : s.inners.fresh = ⟨s.dispatchers.fresh.idx⟩ := by
    rw [Store.fresh, h.next]
    rfl
  refine ⟨⟨fun c => ?_, fun k => ?_, ?_, fun k sd hk => ?_, ?_⟩, ?_, fun k i hk => ?_⟩
  · rw [hfind]
    by_cases hcontext : context = c
    · subst hcontext
      rw [if_pos rfl]
      exact iff_of_true rfl ⟨target, List.mem_append_right _ List.mem_cons_self⟩
    · rw [if_neg hcontext, h.contexts]
      refine exists_congr fun g => ?_
      rw [List.mem_append, List.mem_singleton]
      exact ⟨.inl, fun hmem => hmem.resolve_right fun e => hcontext (congrArg Prod.fst e).symm⟩
  · rw [hentry, List.mem_append, List.mem_singleton]
    by_cases hk : (context, target) = k
    · rw [if_pos hk]
      exact iff_of_true rfl (.inr hk.symm)
    · rw [if_neg hk, h.entries]
      exact ⟨.inl, fun hmem => hmem.resolve_right fun e => hk e.symm⟩
  · intro k hk k' hk' hclash
    rcases List.mem_append.mp hk with hk | hk <;> rcases List.mem_append.mp hk' with hk' | hk'
    · exact h.single k hk k' hk' hclash
    · rw [List.mem_singleton.mp hk'] at hclash
      exact h.context_ne hc hk hclash.1
    · rw [List.mem_singleton.mp hk] at hclash
      exact h.context_ne hc hk' hclash.1.symm
    · rw [List.mem_singleton.mp hk, List.mem_singleton.mp hk'] at hclash
      exact hclash.2 rfl
  · rw [hentry] at hk
    split at hk
    · next heq =>
      cases hk
      subst heq
      refine ⟨Store.live_fresh_alloc _ _, by rw [hnew], by rw [hnew], by rw [hnew, hfresh], ?_⟩
      rw [hnew, ← hfresh]
      exact Store.get_alloc_fresh _ _
    · have hmade := h.made k sd hk
      have hne : (⟨sd.idx⟩ : InnerRef) ≠ s.inners.fresh := by
        rw [hfresh]
        exact fun e => hmade.live.ne_fresh (Ref.ext (congrArg (fun i : InnerRef => i.idx) e))
      refine ⟨hmade.live.alloc _, ?_, ?_, ?_, ?_⟩
      · rw [hget sd hmade.live, hmade.context]
      · rw [hget sd hmade.live, hmade.target]
      · rw [hget sd hmade.live, hmade.inner]
      · rw [hget sd hmade.live, ← hmade.object]
        exact Store.get_set_ne _ _ hne
  · exact congrArg (· + 1) h.next
  · rw [Manager.look, hentry, if_pos rfl, Option.map_some, hnew]
  · obtain ⟨sd, hsd, rfl⟩ := Option.map_eq_some_iff.mp hk
    have hne : (context, target) ≠ k := by
      rintro rfl
      rw [Manager.entry, hc] at hsd
      cases hsd
    rw [Manager.look, hentry, if_neg hne, hsd, Option.map_some, hget sd (h.made k sd hsd).live]

theorem ManagerInv.again (h : ManagerInv new ks s) {k : κ × τ} (hk : k ∈ ks) :
    ManagerInv new (ks ++ [k]) s := by
  have hmem : ∀ k', k' ∈ ks ++ [k] ↔ k' ∈ ks := fun k' => by
    rw [List.mem_append, List.mem_singleton]
    exact ⟨fun h => h.elim id fun e => e ▸ hk, .inl⟩
  refine ⟨fun c => ?_, fun k' => ?_, fun p hp q hq => ?_, h.made, h.next⟩
  · simp only [hmem]
    exact h.contexts c
  · rw [hmem]
    exact h.entries k'
  · exact h.single p ((hmem p).mp hp) q ((hmem q).mp hq)

/-- A call clashes with an earlier one, or returns the pair's object. -/
theorem getDispatcher_spec (h : ManagerInv new ks s) (lt : κ → κ → Bool) (lt' : τ → τ → Bool)
    (target : τ) (context : κ) (handler : η) :
    wp (getDispatcher lt lt' new target context handler)
      (fun i t => (∀ k ∈ ks, ¬ Clashes k (context, target)) ∧ t.look (context, target) = some i ∧
        Extends Manager.look s t ∧ ManagerInv new (ks ++ [(context, target)]) t)
      (fun _ _ => ∃ k ∈ ks, Clashes k (context, target)) s := by
  simp only [getDispatcher, wp_bind, wp_get]
  cases hc : s.table.find context with
  | none =>
    obtain ⟨hinv, hlook, hext⟩ := h.add lt lt' target handler hc
    simp only [wp_pure, wp_bind, wp_modify]
    exact ⟨fun k hk e => h.context_ne hc hk e.1, hlook, hext, hinv⟩
  | some m =>
    have hentry : s.entry (context, target) = m.find target := by
      rw [Manager.entry, hc]
      rfl
    dsimp only
    cases hm : m.find target with
    | none =>
      obtain ⟨other, hother⟩ := (h.contexts context).mp (by rw [hc]; rfl)
      have hnew : (context, target) ∉ ks := by
        rw [← h.entries, hentry, hm]
        exact fun hsome => by cases hsome
      simp only [wp_bind, wp_throw]
      refine ⟨_, hother, rfl, fun e : other = target => hnew ?_⟩
      rw [← e]
      exact hother
    | some sd =>
      have hmem : (context, target) ∈ ks := by
        rw [← h.entries, hentry, hm]
        rfl
      simp only [wp_bind, wp_pure]
      refine ⟨fun k hk => h.single k hk _ hmem, ?_, .refl s, h.again hmem⟩
      rw [Manager.look, hentry, hm]
      rfl

end Table

/-! ## Both managers -/

section Calls
variable (κ τ ρ η)

/-- A call of one of the two functions. -/
inductive DispatcherCall
  | getServiceDispatcher (conn : τ) (context : κ) (handler : η) (flags : BitVec 32)
  | getReceiverDispatcher (receiver : ρ) (context : κ) (handler : η)

end Calls

/-- The object that a call returns. -/
inductive DispatcherResult
  | serviceConnection (i : InnerRef)
  | intentReceiver (i : InnerRef)

/-- The pair that a call is for, on the left for a connection and on the right for a
receiver. -/
def DispatcherCall.key : DispatcherCall κ τ ρ η → (κ × τ) ⊕ (κ × ρ)
  | .getServiceDispatcher conn context _ _ => .inl (context, conn)
  | .getReceiverDispatcher receiver context _ => .inr (context, receiver)

/-- Two calls of one function, for one context but different targets. -/
def DispatcherCall.Clash : (κ × τ) ⊕ (κ × ρ) → (κ × τ) ⊕ (κ × ρ) → Prop
  | .inl k, .inl k' => Clashes k k'
  | .inr k, .inr k' => Clashes k k'
  | _, _ => False

section Dispatch
variable [DecidableEq κ] [DecidableEq τ] [DecidableEq ρ] (lt : κ → κ → Bool)
  (ltConn : τ → τ → Bool) (ltReceiver : ρ → ρ → Bool)

def dispatch : DispatcherCall κ τ ρ η →
    EStateM TableFault (ContextManagers κ τ ρ η) DispatcherResult
  | .getServiceDispatcher conn context handler flags =>
    within ContextManagers.mServiceConnectionMgr
      (fun m s => { s with mServiceConnectionMgr := m })
      (.serviceConnection <$> getServiceDispatcher lt ltConn conn context handler flags)
  | .getReceiverDispatcher receiver context handler =>
    within ContextManagers.mReceiverMgr (fun m s => { s with mReceiverMgr := m })
      (.intentReceiver <$> getReceiverDispatcher lt ltReceiver receiver context handler)

/-- Both managers as `ContextImpl` constructs them; the objects are what their stores hold
where nothing has been made. -/
def ContextManagers.init (d : Dispatcher κ τ η) (i : InnerServiceConnection τ η)
    (e : Dispatcher κ ρ η) (j : InnerIntentReceiver κ ρ η) : ContextManagers κ τ ρ η :=
  ⟨⟨[], .empty d, .empty i⟩, ⟨[], .empty e, .empty j⟩⟩

def ContextManagers.look (s : ContextManagers κ τ ρ η) :
    (κ × τ) ⊕ (κ × ρ) → Option DispatcherResult
  | .inl k => (s.mServiceConnectionMgr.look k).map .serviceConnection
  | .inr k => (s.mReceiverMgr.look k).map .intentReceiver

structure ContextInv (ks : List ((κ × τ) ⊕ (κ × ρ))) (s : ContextManagers κ τ ρ η) : Prop where
  services : ManagerInv (fun conn _ handler => ⟨conn, handler⟩) (ks.filterMap Sum.getLeft?)
    s.mServiceConnectionMgr
  receivers : ManagerInv InnerIntentReceiver.mk (ks.filterMap Sum.getRight?) s.mReceiverMgr

theorem dispatch_spec {ks : List ((κ × τ) ⊕ (κ × ρ))} {s : ContextManagers κ τ ρ η}
    (h : ContextInv ks s) (c : DispatcherCall κ τ ρ η) :
    wp (dispatch lt ltConn ltReceiver c)
      (fun a t => (∀ k ∈ ks, ¬ DispatcherCall.Clash k c.key) ∧
        t.look c.key = some a ∧ Extends ContextManagers.look s t ∧ ContextInv (ks ++ [c.key]) t)
      (fun _ _ => ∃ k ∈ ks, DispatcherCall.Clash k c.key) s := by
  cases c with
  | getServiceDispatcher conn context handler flags =>
    have hleft : ∀ k, Sum.inl k ∈ ks ↔ k ∈ ks.filterMap Sum.getLeft? := by simp
    refine wp_within (wp_map ?_)
    refine wp_mono (getDispatcher_spec h.services lt ltConn conn context handler) ?_ ?_
    · rintro i t ⟨hfree, hlook, hext, hinv⟩
      refine ⟨?_, congrArg (Option.map DispatcherResult.serviceConnection) hlook, ?_, ?_, ?_⟩
      · rintro (k | k) hk
        · exact hfree k ((hleft k).mp hk)
        · exact id
      · rintro (k | k) a hk
        · obtain ⟨i, hi, rfl⟩ := Option.map_eq_some_iff.mp hk
          exact congrArg (Option.map DispatcherResult.serviceConnection) (hext k i hi)
        · exact hk
      · rw [List.filterMap_append]
        exact hinv
      · rw [List.filterMap_append]
        exact (List.append_nil (ks.filterMap Sum.getRight?)).symm ▸ h.receivers
    · rintro _ _ ⟨k, hk, hclash⟩
      exact ⟨.inl k, (hleft k).mpr hk, hclash⟩
  | getReceiverDispatcher receiver context handler =>
    have hright : ∀ k, Sum.inr k ∈ ks ↔ k ∈ ks.filterMap Sum.getRight? := by simp
    refine wp_within (wp_map ?_)
    refine wp_mono (getDispatcher_spec h.receivers lt ltReceiver receiver context handler) ?_ ?_
    · rintro i t ⟨hfree, hlook, hext, hinv⟩
      refine ⟨?_, congrArg (Option.map DispatcherResult.intentReceiver) hlook, ?_, ?_, ?_⟩
      · rintro (k | k) hk
        · exact id
        · exact hfree k ((hright k).mp hk)
      · rintro (k | k) a hk
        · exact hk
        · obtain ⟨i, hi, rfl⟩ := Option.map_eq_some_iff.mp hk
          exact congrArg (Option.map DispatcherResult.intentReceiver) (hext k i hi)
      · rw [List.filterMap_append]
        exact (List.append_nil (ks.filterMap Sum.getLeft?)).symm ▸ h.services
      · rw [List.filterMap_append]
        exact hinv
    · rintro _ _ ⟨k, hk, hclash⟩
      exact ⟨.inr k, (hright k).mpr hk, hclash⟩

/-- What a call returns has the call's own connection or receiver. -/
def ContextManagers.Holds (s : ContextManagers κ τ ρ η) :
    DispatcherCall κ τ ρ η → DispatcherResult → Prop
  | .getServiceDispatcher conn context _ _, .serviceConnection i =>
    s.mServiceConnectionMgr.Holds context conn i ∧
      (s.mServiceConnectionMgr.inners.get i).mConnection = conn
  | .getReceiverDispatcher receiver context _, .intentReceiver i =>
    s.mReceiverMgr.Holds context receiver i ∧ (s.mReceiverMgr.inners.get i).mReceiver = receiver
  | _, _ => False

/-- The results `as` of the calls: the same one for the same pair, and one that holds what the
call is for. -/
structure DispatchersKept (cs : List (DispatcherCall κ τ ρ η)) (as : List DispatcherResult)
    (s : ContextManagers κ τ ρ η) : Prop where
  answered : as.length = cs.length
  same : ∀ p ∈ cs.zip as, ∀ q ∈ cs.zip as, p.2 = q.2 ↔ p.1.key = q.1.key
  holds : ∀ p ∈ cs.zip as, s.Holds p.1 p.2

theorem ContextInv.distinct {ks : List ((κ × τ) ⊕ (κ × ρ))} {s : ContextManagers κ τ ρ η}
    (h : ContextInv ks s) : Distinct ContextManagers.look s := by
  rintro (k | k) (k' | k') a hk hk' <;>
    obtain ⟨i, hi, rfl⟩ := Option.map_eq_some_iff.mp hk <;>
    obtain ⟨i', hi', heq⟩ := Option.map_eq_some_iff.mp hk' <;> cases heq
  · exact congrArg Sum.inl (h.services.distinct k k' i hi hi')
  · exact congrArg Sum.inr (h.receivers.distinct k k' i hi hi')

theorem ContextInv.holds {ks : List ((κ × τ) ⊕ (κ × ρ))} {s : ContextManagers κ τ ρ η}
    (h : ContextInv ks s) {c : DispatcherCall κ τ ρ η} {a : DispatcherResult}
    (ha : s.look c.key = some a) : s.Holds c a := by
  cases c with
  | getServiceDispatcher conn context handler flags =>
    obtain ⟨i, hi, rfl⟩ := Option.map_eq_some_iff.mp ha
    obtain ⟨hholds, _, hobject⟩ := h.services.holds hi
    exact ⟨hholds, by rw [hobject]⟩
  | getReceiverDispatcher receiver context handler =>
    obtain ⟨i, hi, rfl⟩ := Option.map_eq_some_iff.mp ha
    obtain ⟨hholds, _, hobject⟩ := h.receivers.holds hi
    exact ⟨hholds, by rw [hobject]⟩

/-- **Dispatcher tables.** A sequence of calls gets its dispatchers if and only if none of the
calls clashes with an earlier one. -/
theorem dispatchers_kept_iff (d : Dispatcher κ τ η) (i : InnerServiceConnection τ η)
    (e : Dispatcher κ ρ η) (j : InnerIntentReceiver κ ρ η) (cs : List (DispatcherCall κ τ ρ η)) :
    (∃ as s, asks (dispatch lt ltConn ltReceiver) cs (.init d i e j) = .ok as s ∧
        DispatchersKept cs as s) ↔
      cs.Pairwise fun c c' => ¬ DispatcherCall.Clash c.key c'.key := by
  have hinit : ContextInv [] (.init d i e j : ContextManagers κ τ ρ η) := ⟨.init d i, .init e j⟩
  have hspec := asks_spec ContextManagers.look DispatcherCall.key
    (fun _ _ c hs => dispatch_spec lt ltConn ltReceiver hs c) cs hinit
  constructor
  · rintro ⟨as, s, hrun, -⟩
    exact (wp_ok hspec hrun).1.2
  · intro hpairs
    cases hrun : asks (dispatch lt ltConn ltReceiver) cs (.init d i e j) with
    | ok as s =>
      obtain ⟨-, hanswers, -, hinv⟩ := wp_ok hspec hrun
      obtain ⟨hlength, hlook⟩ := List.forall₂_iff_zip.mp hanswers
      exact ⟨as, s, rfl, hlength.symm,
        fun p hp q hq => hinv.distinct.answer_eq_iff (hlook hp) (hlook hq),
        fun p hp => hinv.holds (hlook hp)⟩
    | error f s =>
      rcases wp_error hspec hrun with ⟨k, hk, -⟩ | hclash
      · cases hk
      · exact absurd hpairs hclash

end Dispatch

/-- A second connection of the same context runs into the end of the map. -/
theorem dispatchers_not_kept :
    ¬ ∀ (cs : List (DispatcherCall Nat Nat Nat Nat)) (d : Dispatcher Nat Nat Nat)
      (i : InnerServiceConnection Nat Nat) (j : InnerIntentReceiver Nat Nat Nat),
      ∃ as s, asks (dispatch (· < ·) (· < ·) (· < ·)) cs (.init d i d j) = .ok as s ∧
        DispatchersKept cs as s := by
  intro h
  obtain ⟨as, s, hrun, -⟩ := h [.getServiceDispatcher 1 0 0 0, .getServiceDispatcher 2 0 0 0]
    ⟨0, 0, 0, ⟨0⟩⟩ ⟨0, 0⟩ ⟨0, 0, 0⟩
  cases hrun

end Cdroid.Runtime
