import Ndfex.MatchingEngine.Broker
import Ndfex.Protocol.ClearingWire

/-!
# The bytes that clearing is sent

`ClearingPublisher` as it is: a message whose number counts up, and a datagram for each fill. The number
is raised before a message goes out, so the first fill has the number 1.

## Main definitions

* `WireClearingPublisher`, `WireClearingPublisher.publishFill`: the publisher and its method
* `clearingDatagrams`: the datagrams of some fills

## Main results

* `WireClearingPublisher.Refines.publishFill`: the datagrams are those of the fills passed to clearing
-/

namespace Ndfex

/-- The part of a fill that is sent. -/
abbrev ClearingFill.reported (f : ClearingFill) : ReportedFill :=
  ⟨f.clientId, f.symbol, f.quantity, f.price, f.side⟩

/-- `ClearingPublisher`: the number in its message, and the datagrams that went out. -/
structure WireClearingPublisher where
  seqNum : UInt32
  datagrams : List (List UInt8)

namespace WireClearingPublisher

/-- A publisher that sent nothing. -/
def start : WireClearingPublisher := ⟨0, []⟩

/-- `ClearingPublisher::publish_fill`. -/
def publishFill (w : WireClearingPublisher) (f : ClearingFill) : WireClearingPublisher :=
  let seqNum := w.seqNum + 1
  ⟨seqNum, w.datagrams ++ [f.reported.encode seqNum]⟩

end WireClearingPublisher

/-- The datagrams of some fills, numbered after a number. -/
def clearingDatagrams (k : ℕ) : List ClearingFill → List (List UInt8)
  | [] => []
  | f :: fills => f.reported.encode (UInt32.ofNat (k + 1)) :: clearingDatagrams (k + 1) fills

theorem clearingDatagrams_append (k : ℕ) (fills fills' : List ClearingFill) :
    clearingDatagrams k (fills ++ fills') =
      clearingDatagrams k fills ++ clearingDatagrams (k + fills.length) fills' := by
  induction fills generalizing k with
  | nil => rfl
  | cons f fills ih =>
    rw [List.cons_append, clearingDatagrams, clearingDatagrams, ih, List.cons_append,
      List.length_cons, Nat.add_assoc, Nat.add_comm 1]

namespace WireClearingPublisher

/-- The publisher sent what was passed to clearing. -/
structure Refines (w : WireClearingPublisher) (c : ClearingPublisher) : Prop where
  seqNum : w.seqNum = UInt32.ofNat c.fills.length
  datagrams : w.datagrams = clearingDatagrams 0 c.fills

theorem refines_start : start.Refines ⟨0, []⟩ := ⟨rfl, rfl⟩

/-- **A fill** is sent. -/
theorem Refines.publishFill {w : WireClearingPublisher} {c : ClearingPublisher} (h : w.Refines c)
    (f : ClearingFill) : (w.publishFill f).Refines (c.publishFill f) := by
  have hnext : w.seqNum + 1 = UInt32.ofNat (c.fills.length + 1) := by
    rw [h.seqNum, UInt32.ofNat_add]
    rfl
  refine ⟨?_, ?_⟩
  · rw [WireClearingPublisher.publishFill, ClearingPublisher.publishFill, List.length_append]
    exact hnext
  · rw [WireClearingPublisher.publishFill, ClearingPublisher.publishFill,
      clearingDatagrams_append, h.datagrams]
    dsimp only
    rw [hnext, clearingDatagrams, clearingDatagrams, Nat.zero_add]

/-- The datagrams of some fills, from the publisher's start. -/
theorem datagrams_foldl (fills : List ClearingFill) :
    (fills.foldl publishFill start).datagrams = clearingDatagrams 0 fills := by
  have key : ∀ (fills fills' : List ClearingFill) (w : WireClearingPublisher),
      w.Refines ⟨0, fills'⟩ → (fills.foldl WireClearingPublisher.publishFill w).datagrams =
        clearingDatagrams 0 (fills' ++ fills) := by
    intro fills
    induction fills with
    | nil =>
      intro fills' w h
      rw [List.append_nil]
      exact h.datagrams
    | cons f fills ih =>
      intro fills' w h
      have hnext := h.publishFill f
      have hrest := ih (fills' ++ [f]) (w.publishFill f) ⟨hnext.seqNum, hnext.datagrams⟩
      rw [List.foldl_cons, hrest, List.append_assoc, List.singleton_append]
  exact key fills [] start refines_start

end WireClearingPublisher

end Ndfex
