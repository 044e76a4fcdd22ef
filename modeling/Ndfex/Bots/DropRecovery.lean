import Ndfex.Bots.Recovery

/-!
# Recovery on drops

With `recover_on_drops` a client that meets a message beyond the next one drops all of its books, and calls
`wait_for_snapshot` again. At its end `wait_for_snapshot` passes its own buffer to `process_message`; should
there be a gap in it, the call made there waits for snapshots in turn, with the same buffer, from which the
caller then erases messages that are gone.

## Main definitions

* `Bots.LiveClient.meetsGap`, `Bots.Recovery.meetsGap`: whether the client meets a gap
* `Bots.Following`: what the client is doing
* `Bots.Recovery.outcome`: what it does behind the loop of `wait_for_snapshot`

## Main results

* `Bots.LiveClient.takes_numbered`, `Bots.LiveClient.le_of_not_meetsGap`: consecutive messages, some of
  which the client has
* `Bots.Recovery.outcome_eq_live`: a buffer of consecutive messages
-/

namespace Ndfex.Bots

namespace LiveClient

/-- `process_message` meets a message beyond the next one, which it recovers from. -/
def meetsGap (c : LiveClient) : List MdMessage → Bool
  | [] => false
  | m :: ms =>
    if c.lastMdSeqNum + 1 < m.seqNum then true
    else if m.seqNum ≤ c.lastMdSeqNum then c.meetsGap ms
    else
      let c' := ⟨c.client.apply m.body, m.seqNum⟩
      if c.client.stops m.body then false else meetsGap c' ms

variable {c : LiveClient} {symbols : Set UInt32} {feed bodies : List MdBody} {ms : List MdMessage}
  {k n : ℕ}

/-- The client takes messages of a feed that goes on. -/
theorem Replays.append (h : c.Replays symbols feed) (hlt : c.lastMdSeqNum.toNat < feed.length)
    (more : List MdBody) : c.Replays symbols (feed ++ more) := by
  unfold Replays
  rw [List.take_append_of_le_length hlt]
  exact h

/-- The last number is one of a message. -/
theorem lastMdSeqNum_lt (hc : c.lastMdSeqNum.toNat < n) (hms : ∀ m ∈ ms, m.seqNum.toNat < n) :
    (c.processMessage ms).lastMdSeqNum.toNat < n := by
  induction ms generalizing c with
  | nil => exact hc
  | cons m ms ih =>
    have hm := hms m List.mem_cons_self
    have hrest := fun m' hm' => hms m' (List.mem_cons_of_mem m hm')
    unfold processMessage
    split_ifs
    · exact hc
    · exact ih hc hrest
    · exact hm
    · exact ih hm hrest

/-- **Consecutive messages**, of which the client may have some: it meets no gap, and has the first one
behind them. -/
theorem takes_numbered (hc : c.lastMdSeqNum.toNat < n) (hn : n < 2 ^ 32)
    (hk : k ≤ c.lastMdSeqNum.toNat + 1) (hlength : k + bodies.length ≤ n) :
    c.meetsGap (numberedFrom k bodies) = false ∧
      c.lastMdSeqNum.toNat ≤ (c.processMessage (numberedFrom k bodies)).lastMdSeqNum.toNat ∧
      (bodies ≠ [] → k ≤ (c.processMessage (numberedFrom k bodies)).lastMdSeqNum.toNat) := by
  induction bodies generalizing c k with
  | nil => exact ⟨rfl, Nat.le_refl _, fun h => absurd rfl h⟩
  | cons body bodies ih =>
    rw [List.length_cons] at hlength
    have hnumber : (UInt32.ofNat k).toNat = k :=
      UInt32.toNat_ofNat_of_lt' (by omega : k < 2 ^ 32)
    have hone : (1 : UInt32).toNat = 1 := rfl
    have hgap : ¬ c.lastMdSeqNum + 1 < UInt32.ofNat k := by
      rw [UInt32.lt_iff_toNat_lt, UInt32.toNat_add, hnumber, hone]
      omega
    rw [numberedFrom, meetsGap, processMessage, if_neg hgap, if_neg hgap]
    by_cases hold : UInt32.ofNat k ≤ c.lastMdSeqNum
    · -- the client has the message
      rw [if_pos hold, if_pos hold]
      rw [UInt32.le_iff_toNat_le, hnumber] at hold
      obtain ⟨hnone, hle, -⟩ := ih hc (Nat.succ_le_succ hold) (by omega)
      exact ⟨hnone, hle, fun _ => hold.trans hle⟩
    · -- the message is the next one
      rw [if_neg hold, if_neg hold]
      rw [UInt32.le_iff_toNat_le, hnumber] at hold
      dsimp only
      split_ifs
      · rw [hnumber]
        exact ⟨rfl, by omega, fun _ => Nat.le_refl k⟩
      · obtain ⟨hnone, hle, -⟩ := @ih ⟨c.client.apply body, UInt32.ofNat k⟩ (k + 1)
          (by rw [hnumber]; omega) (by rw [hnumber]) (by omega)
        rw [hnumber] at hle
        exact ⟨hnone, by omega, fun _ => hle⟩

/-- A client that meets no gap in consecutive messages has all before the first one. -/
theorem le_of_not_meetsGap {body : MdBody} (hc : c.lastMdSeqNum.toNat < n) (hn : n < 2 ^ 32)
    (hk : k < 2 ^ 32) (hnone : ¬ c.meetsGap (numberedFrom k (body :: bodies)) = true) :
    k ≤ c.lastMdSeqNum.toNat + 1 := by
  rw [numberedFrom, meetsGap] at hnone
  have hgap : ¬ c.lastMdSeqNum + 1 < UInt32.ofNat k := fun hgap => hnone (if_pos hgap)
  have hone : (1 : UInt32).toNat = 1 := rfl
  -- the number after the last one does not wrap
  rw [UInt32.lt_iff_toNat_lt, UInt32.toNat_add, UInt32.toNat_ofNat_of_lt' hk, hone] at hgap
  omega

end LiveClient

/-- What a client is doing: it waits for snapshots, or takes live messages; or it erases from a buffer that
is not the one it has. -/
inductive Following
  | waiting
  | live (c : LiveClient)
  | astray

namespace Following

/-- The client is in `wait_for_snapshot`. -/
def isWaiting : Following → Bool
  | waiting => true
  | live _ | astray => false

/-- The client that takes live messages. -/
def client? : Following → Option LiveClient
  | live c => some c
  | waiting | astray => none

end Following

namespace Recovery

/-- The loop over the live buffer meets a gap. -/
def meetsGap (lastSnapshotSeqNum : UInt32) (c : LiveClient) : List MdMessage → Bool
  | [] => false
  | m :: ms =>
    if m.seqNum ≤ lastSnapshotSeqNum then meetsGap lastSnapshotSeqNum c ms
    else c.meetsGap (m :: ms) || meetsGap lastSnapshotSeqNum (c.processMessage (m :: ms)) ms

/-- What comes after the loop of `wait_for_snapshot`. -/
def outcome (r : Recovery) : Following :=
  if meetsGap r.lastSnapshotSeqNum ⟨r.install, r.lastSnapshotSeqNum⟩ r.liveBuffer then .astray
  else .live r.finish

variable {c : LiveClient} {r : Recovery} {bodies : List MdBody} {last : UInt32} {k n : ℕ}

/-- Each message behind the snapshots is passed on with all that follow it; the client has it then, and
those that follow are consecutive to what it has. -/
theorem takes_numbered (hlast : last ≤ c.lastMdSeqNum) (hc : c.lastMdSeqNum.toNat < n)
    (hn : n < 2 ^ 32) (hk : k ≤ c.lastMdSeqNum.toNat + 1) (hlength : k + bodies.length ≤ n) :
    meetsGap last c (numberedFrom k bodies) = false ∧
      (replayLive last c (numberedFrom k bodies)).lastMdSeqNum.toNat < n := by
  induction bodies generalizing c k with
  | nil => exact ⟨rfl, hc⟩
  | cons body bodies ih =>
    obtain ⟨hnone, hle, htook⟩ := c.takes_numbered hc hn hk hlength
    rw [List.length_cons] at hlength
    have hnumber : (UInt32.ofNat k).toNat = k :=
      UInt32.toNat_ofNat_of_lt' (by omega : k < 2 ^ 32)
    have hbound : (c.processMessage (numberedFrom k (body :: bodies))).lastMdSeqNum.toNat < n := by
      refine LiveClient.lastMdSeqNum_lt hc fun m hm => ?_
      obtain ⟨i, hi⟩ := List.mem_iff_getElem?.mp hm
      rw [getElem?_numberedFrom] at hi
      obtain ⟨b, hb, rfl⟩ := Option.map_eq_some_iff.mp hi
      have hlt : i < (body :: bodies).length := (List.getElem?_eq_some_iff.mp hb).1
      rw [List.length_cons] at hlt
      rw [UInt32.toNat_ofNat_of_lt' (by omega : k + i < 2 ^ 32)]
      omega
    rw [numberedFrom] at hnone hle htook hbound ⊢
    rw [meetsGap, replayLive]
    by_cases hold : UInt32.ofNat k ≤ last
    · rw [if_pos hold, if_pos hold]
      rw [UInt32.le_iff_toNat_le, hnumber] at hold
      rw [UInt32.le_iff_toNat_le] at hlast
      exact ih (UInt32.le_iff_toNat_le.mpr hlast) hc (by omega) (by omega)
    · rw [if_neg hold, if_neg hold, hnone, Bool.false_or]
      rw [UInt32.le_iff_toNat_le] at hlast
      apply ih
      · exact UInt32.le_iff_toNat_le.mpr (hlast.trans hle)
      · exact hbound
      · exact Nat.succ_le_succ (htook (List.cons_ne_nil _ _))
      · omega

/-- **A buffer of consecutive messages** that begins before the snapshots end has no gap. -/
theorem outcome_eq_live (hbuffer : r.liveBuffer = numberedFrom k bodies)
    (hlast : r.lastSnapshotSeqNum.toNat < n) (hn : n < 2 ^ 32)
    (hk : k ≤ r.lastSnapshotSeqNum.toNat + 1) (hlength : k + bodies.length ≤ n) :
    r.outcome = .live r.finish ∧ r.finish.lastMdSeqNum.toNat < n := by
  obtain ⟨hnone, hbound⟩ := takes_numbered (c := ⟨r.install, r.lastSnapshotSeqNum⟩)
    (UInt32.le_refl r.lastSnapshotSeqNum) hlast hn hk hlength
  rw [← hbuffer] at hnone hbound
  exact ⟨if_neg (by rw [hnone]; exact Bool.false_ne_true), hbound⟩

end Recovery

end Ndfex.Bots
