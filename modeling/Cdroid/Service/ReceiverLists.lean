import Cdroid.Runtime.RoundTrip
import Cdroid.Service.Replies

/-! The list of receivers that `resolveIntentReceivers` returns. The stub counts down the
vector and writes the last receiver first; the proxy counts down what it reads and appends
each receiver to a new vector. -/

namespace Cdroid.Service.Replies
open Cdroid.Lib.Codec Cdroid.Binder Cdroid.Runtime

/-- The stub writes the receivers, and what the proxy reads behind the marker is this list. -/
def Returned (l : List ReceiverInfo) : Prop :=
  ∃ c, writeAll ReplyWrite.chunk (onTransact .resolveIntentReceivers (some (l.map some))) = some c ∧
    (readReceivers (readInt32 (.received c)).2).1 = l.map some

/-- Every receiver is read as one that is transported, and their number as one of 32 bits. -/
theorem yields_receivers : Yields readReceivers fun l =>
    l.length < 2 ^ 32 ∧ ∀ ri ∈ l, ∃ r, ri = some r ∧ r.Transported := by
  have hread : Yields (do let rf ← ReceiverInfo.createFromParcel; pure (some rf))
      fun ri => ∃ r, ri = some r ∧ r.Transported :=
    ReceiverInfo.yields.bind fun r hr => .pure ⟨r, rfl, hr⟩
  refine (Yields.trivial readInt32).bind fun N _ s => ?_
  obtain ⟨hlength, hall⟩ := hread.times N.toNat s
  exact ⟨Nat.lt_of_le_of_lt (Nat.le_of_eq hlength) N.isLt, hall⟩

/-- Receivers that are transported are read in the order in which they are written. -/
theorem reads_receivers {l : List (Option ReceiverInfo)} (hlength : l.length < 2 ^ 32)
    (hl : ∀ ri ∈ l, ∃ r, ri = some r ∧ r.Transported) :
    ∃ c, writeAll ReplyWrite.chunk (writeReceivers l.reverse) = some c ∧
      Reads At readReceivers c l := by
  obtain ⟨d, hd, hr⟩ := ReceiverInfo.isCodec.pointer.times l hl
  have hcount : (BitVec.ofNat 32 l.length).toNat = l.length := by
    rw [BitVec.toNat_ofNat, Nat.mod_eq_of_lt hlength]
  refine ⟨writeInt32 (BitVec.ofNat 32 l.length) + d, andThen_eq_some.mpr ⟨_, ?_, d, ?_, rfl⟩, ?_⟩
  · rw [List.length_reverse]
    rfl
  · rw [List.reverse_reverse, writeAll_map]
    exact hd
  · refine (reads_int32 _).bind ?_
    rw [hcount]
    exact hr

/-- **The receivers.** The list comes back, the marker taken as read, exactly if it is the
same from its end, every receiver is transported, and a word has room for their number. -/
theorem receivers_returned_iff (l : List ReceiverInfo) :
    Returned l ↔ l.reverse = l ∧ l.length < 2 ^ 32 ∧ ∀ ri ∈ l, ri.Transported := by
  -- what comes back is the list from its end
  have hreversed : l.length < 2 ^ 32 → (∀ ri ∈ l, ri.Transported) →
      ∃ c, writeAll ReplyWrite.chunk (onTransact .resolveIntentReceivers (some (l.map some))) =
        some c ∧ (readReceivers (readInt32 (.received c)).2).1 = (l.map some).reverse := by
    intro hlength hl
    have hall : ∀ ri ∈ (l.map some).reverse, ∃ r, ri = some r ∧ r.Transported := by
      intro ri hri
      obtain ⟨r, hr, rfl⟩ := List.mem_map.mp (List.mem_reverse.mp hri)
      exact ⟨r, rfl, hl r hr⟩
    obtain ⟨d, hd, hread⟩ := reads_receivers (by simpa using hlength) hall
    rw [List.reverse_reverse] at hd
    refine ⟨_, andThen_eq_some.mpr ⟨_, rfl, d, hd, rfl⟩, ?_⟩
    have hat := at_received (writeInt32 1 + d)
    obtain ⟨p, hp, hmarker⟩ := reads_int32 1 _ 0 d hat
    obtain ⟨p', hp', -⟩ := hread p (0 + writeInt32 1) 0 (by rwa [add_zero])
    rw [hp, hp']
  constructor
  · rintro ⟨c, hc, hread⟩
    obtain ⟨hlength, hall⟩ := yields_receivers (readInt32 (.received c)).2
    rw [hread] at hlength hall
    rw [List.length_map] at hlength
    have hl : ∀ ri ∈ l, ri.Transported := by
      intro ri hri
      obtain ⟨_, ⟨⟩, hr⟩ := hall (some ri) (List.mem_map_of_mem hri)
      exact hr
    obtain ⟨c', hc', hread'⟩ := hreversed hlength hl
    cases hc.symm.trans hc'
    have he : l.reverse.map some = l.map some := by
      rw [List.map_reverse, ← hread', hread]
    exact ⟨List.map_injective_iff.mpr (fun _ _ => Option.some.inj) he, hlength, hl⟩
  · rintro ⟨hreverse, hlength, hl⟩
    obtain ⟨c, hc, hread⟩ := hreversed hlength hl
    exact ⟨c, hc, by rw [hread, ← List.map_reverse, hreverse]⟩

/-- A receiver of nothing. -/
def receiverNamed (name : String8) : ReceiverInfo := ⟨name, [], [], some ⟨[], [], 0⟩⟩

/-- Two receivers change places. -/
theorem receivers_not_returned : ¬ ∀ l, Returned l := by
  intro h
  obtain ⟨c, hc, hread⟩ := h [receiverNamed (ascii "a"), receiverNamed (ascii "b")]
  cases hc
  revert hread
  decide +kernel

end Cdroid.Service.Replies
