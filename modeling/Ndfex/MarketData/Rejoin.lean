import Ndfex.Bots.DropRecovery
import Ndfex.Bots.PartialBook
import Ndfex.MarketData.TopOfBook

/-!
# Joining the feed again

The client of the web data follows the live feed with `recover_on_drops`. While it takes live datagrams it
does not read the snapshots; when it finds that a live datagram was lost it waits for a round of snapshots,
as at its start, and goes on from there. However often that happens, its books are those of the feed up to
the last number that it took, and its quotes are the tops of the engine's ladders when it took all.

## Main definitions

* `Rejoin`, `RejoinEvent`, `RejoinStep`: the system and its steps, of which some lose a datagram
* `Rejoin.Hears`: what the client has to hear while it waits for snapshots
* `Rejoin.Sound`: what holds in every state

## Main results

* `Rejoin.Sound.after`: every step keeps it
* `LateJoin.Receiving.outcome`: the end of a recovery
* `rejoin_replays`, `rejoin_quotes`: the books of a client that joins the feed again and again, and its
  quotes
* `rejoin_notices`: a loss is noticed with the next datagram
-/

namespace Ndfex

open Bots Containers Transition

/-- The streams, with what `wait_for_snapshot` keeps of them, and what the client is doing. -/
structure Rejoin where
  join : LateJoin
  following : Following

/-- A step of the streams or a pass through the loop of `wait_for_snapshot`, a live datagram that is taken,
and the next datagram of a stream lost. -/
inductive RejoinEvent
  | join (l : JoinEvent)
  | process
  | loseLive
  | loseSnapshot

/-- A pass through the loop of `wait_for_snapshot`. -/
def JoinEvent.polls : JoinEvent → Bool
  | .poll _ => true
  | .publish _ | .hear | .startRound _ | .writeSnapshot => false

namespace Rejoin

/-- At the start the client waits for snapshots. -/
def start (liveFirst snapshotFirst : ℕ) : Rejoin := ⟨LateJoin.start liveFirst snapshotFirst, .waiting⟩

/-- The step can be taken. -/
def Enabled (s : Rejoin) : RejoinEvent → Prop
  | .join l => (l.polls = true → s.following.isWaiting = true) ∧ s.join.Enabled l
  | .process => s.following.client?.isSome = true ∧ s.join.liveNext < s.join.packets.length
  | .loseLive => s.join.liveNext < s.join.packets.length
  | .loseSnapshot => s.join.snapshotNext < s.join.sheets.length

instance (s : Rejoin) : DecidablePred s.Enabled
  | .join _ => inferInstanceAs (Decidable ((_ → _) ∧ _))
  | .process => inferInstanceAs (Decidable (_ ∧ _))
  | .loseLive | .loseSnapshot => inferInstanceAs (Decidable (_ < _))

/-- The loop of `wait_for_snapshot` ends when both symbols are complete. -/
def settle (s : Rejoin) : Rejoin :=
  if s.following.isWaiting = true ∧ s.join.recovery.Done then ⟨s.join, s.join.recovery.outcome⟩ else s

/-- `MDClient::process`, when a datagram is there. After a gap the client waits for snapshots anew, with
nothing but the streams behind the datagram. -/
def process (s : Rejoin) : Rejoin :=
  let packet := (s.join.packets[s.join.liveNext]?).getD []
  let next := { s.join with liveNext := s.join.liveNext + 1 }
  match s.following with
  | .live c =>
    if c.meetsGap packet then ⟨{ next with recovery := Recovery.start, read := [] }, .waiting⟩
    else ⟨next, .live (c.processMessage packet)⟩
  | .waiting | .astray => s

/-- The system after an event. The sheets that the client read are counted from the last one lost. -/
def after (s : Rejoin) : RejoinEvent → Rejoin
  | .join l => settle ⟨s.join.after l, s.following⟩
  | .process => s.process
  | .loseLive => ⟨{ s.join with liveNext := s.join.liveNext + 1 }, s.following⟩
  | .loseSnapshot => ⟨{ s.join with snapshotNext := s.join.snapshotNext + 1, read := [] }, s.following⟩

/-- **While the client waits for snapshots** it loses no live datagram, and a datagram of the snapshots only
as long as it has not begun one; and when it has both, the feed shows the same orders at both. -/
def Hears (s : Rejoin) : RejoinEvent → Prop
  | .join l => s.join.KeepsSide l ∧
    (s.following.isWaiting = true → (s.join.after l).recovery.Done → (s.join.after l).SameOrders)
  | .process => True
  | .loseLive => s.following.isWaiting = false
  | .loseSnapshot => s.following.isWaiting = true → s.join.recovery.Idle 1 ∧ s.join.recovery.Idle 2

end Rejoin

/-- The steps of the system. -/
def RejoinStep (s : Rejoin) (l : RejoinEvent) (t : Rejoin) : Prop := s.Enabled l ∧ t = s.after l

/-! ## The streams -/

/-- What stands between consecutive messages is consecutive. -/
theorem numberedFrom_infix {k : ℕ} {bodies : List MdBody} {before ms behind : List MdMessage}
    (h : numberedFrom k bodies = before ++ (ms ++ behind)) :
    ms = numberedFrom (k + before.length) (ms.map MdMessage.body) := by
  have hbodies : bodies = before.map MdMessage.body ++
      (ms.map MdMessage.body ++ behind.map MdMessage.body) := by
    rw [← map_body_numberedFrom k bodies, h, List.map_append, List.map_append]
  rw [hbodies, numberedFrom_append, numberedFrom_append, List.length_map] at h
  have hfirst := (List.append_inj h (by rw [length_numberedFrom, List.length_map])).2
  exact (List.append_inj hfirst (by rw [length_numberedFrom, List.length_map])).1.symm

namespace LateJoin

variable {s : LateJoin} {first : ℕ}

/-- Messages that stand together in the feed are consecutive. -/
theorem Written.infix_numbered (h : s.Written) {before ms behind : List MdMessage}
    (hsplit : s.feed = before ++ (ms ++ behind)) :
    ∃ k, ms = numberedFrom k (ms.map MdMessage.body) ∧
      k + (ms.map MdMessage.body).length ≤ s.bodies.length := by
  have hfeed := h.numbered
  rw [hsplit] at hfeed
  refine ⟨_, numberedFrom_infix hfeed.symm, ?_⟩
  have hlength := congrArg List.length hfeed
  rw [length_numberedFrom, List.length_append, List.length_append] at hlength
  rw [List.length_map]
  omega

/-- The messages of a datagram. -/
theorem Written.packet_numbered (h : s.Written) {i : ℕ} (hi : i < s.packets.length) :
    ∃ k, s.packets[i] = numberedFrom k (s.packets[i].map MdMessage.body) ∧
      k + (s.packets[i].map MdMessage.body).length ≤ s.bodies.length := by
  refine @infix_numbered s h (s.packets.take i).flatten _ (s.packets.drop (i + 1)).flatten ?_
  rw [feed, ← List.flatten_cons, ← List.drop_eq_getElem_cons hi, ← List.flatten_append,
    List.take_append_drop]

/-- What was published and written does not depend on the client. -/
theorem Written.client (h : s.Written) (liveNext snapshotNext : ℕ) (recovery : Recovery)
    (read : List Sheet) : Written { s with liveNext, snapshotNext, recovery, read } :=
  ⟨h.1, h.2, h.3, h.4, h.5, h.6, h.7, h.8, h.9, h.10, h.11, h.12⟩

/-- The live buffer has all datagrams from the first one on that the client waited with. -/
structure Buffers (s : LateJoin) (first : ℕ) : Prop where
  le : first ≤ s.liveNext
  within : first < s.liveNext → s.liveNext ≤ s.packets.length
  buffer : s.recovery.liveBuffer = ((s.packets.take s.liveNext).drop first).flatten

/-- A client that begins to wait. -/
theorem Buffers.begin (hlive : s.recovery.liveBuffer = []) : s.Buffers s.liveNext := by
  refine ⟨Nat.le_refl _, fun h => absurd h (Nat.lt_irrefl _), ?_⟩
  rw [hlive, List.drop_eq_nil_of_le (List.length_take_le _ _)]
  rfl

theorem Buffers.poll (h : s.Buffers first) {snapshot : Bool} (hen : s.Enabled (.poll snapshot)) :
    (s.poll snapshot).Buffers first := by
  have hlive : s.liveNext < s.packets.length := hen.2.1
  have hpacket : s.packets[s.liveNext]? = some s.packets[s.liveNext] := List.getElem?_eq_getElem hlive
  have hle : first ≤ (s.packets.take s.liveNext).length := by
    rw [List.length_take, Nat.min_eq_left (Nat.le_of_lt hlive)]
    exact h.le
  have hbuffer : s.recovery.liveBuffer ++ s.packets[s.liveNext] =
      ((s.packets.take (s.liveNext + 1)).drop first).flatten := by
    rw [List.take_add_one, hpacket, Option.toList_some, List.drop_append_of_le_length hle,
      List.flatten_append, ← h.buffer, List.flatten_singleton]
  unfold LateJoin.poll
  rw [hpacket, Option.getD_some]
  cases snapshot with
  | false => exact ⟨Nat.le_succ_of_le h.le, fun _ => hlive, hbuffer⟩
  | true =>
    refine ⟨Nat.le_succ_of_le h.le, fun _ => hlive, ?_⟩
    simp only [if_true, Recovery.receive, Recovery.liveBuffer_read]
    exact hbuffer

/-- **A step of the streams**, or a pass through the loop. -/
theorem Buffers.after (h : s.Buffers first) {l : JoinEvent} (hen : s.Enabled l) :
    (s.after l).Buffers first := by
  cases l with
  | publish packet =>
    refine ⟨h.le, fun hlt => ?_, ?_⟩
    · simp only [LateJoin.after, List.length_append]
      exact Nat.le_add_right_of_le (h.within hlt)
    · simp only [LateJoin.after]
      rcases Nat.eq_or_lt_of_le h.le with heq | hlt
      · rw [h.buffer, List.drop_eq_nil_of_le, List.drop_eq_nil_of_le] <;>
          exact heq ▸ List.length_take_le _ _
      · rw [h.buffer, List.take_append_of_le_length (h.within hlt)]
  | hear =>
    simp only [LateJoin.after]
    cases s.feed[s.taken]? <;> exact ⟨h.le, h.within, h.buffer⟩
  | startRound c => exact ⟨h.le, h.within, h.buffer⟩
  | writeSnapshot =>
    change s.writeSnapshot.Buffers first
    unfold LateJoin.writeSnapshot
    cases s.left <;> exact ⟨h.le, h.within, h.buffer⟩
  | poll snapshot => exact h.poll hen

/-- The live buffer holds consecutive messages of the feed. -/
theorem Buffers.numbered (h : s.Buffers first) (hwritten : s.Written) :
    ∃ k, s.recovery.liveBuffer = numberedFrom k (s.recovery.liveBuffer.map MdMessage.body) ∧
      k + (s.recovery.liveBuffer.map MdMessage.body).length ≤ s.bodies.length := by
  have hsplit : s.packets = (s.packets.take s.liveNext).take first ++
      ((s.packets.take s.liveNext).drop first ++ s.packets.drop s.liveNext) := by
    rw [← List.append_assoc, List.take_append_drop, List.take_append_drop]
  have hfeed := congrArg List.flatten hsplit
  rw [List.flatten_append, List.flatten_append, ← h.buffer] at hfeed
  exact hwritten.infix_numbered hfeed

/-- A client that has read no snapshots, or has forgotten which. -/
theorem Receiving.fresh (hlive : ∀ m ∈ s.recovery.liveBuffer, m ∈ s.feed) (hread : s.read = [])
    (hcollected : Collected s.recovery []) : s.Receiving := by
  refine ⟨hlive, ?_, ?_, hread ▸ hcollected⟩
  · rw [hread]
    exact fun _ h => absurd h List.not_mem_nil
  · rw [hread]
    exact fun _ h => by cases h

/-! ## The end of a recovery -/

/-- **The end of a recovery** from one instant of the feed: the books are those of the feed. -/
theorem Receiving.outcome (h : s.Receiving) (hwritten : s.Written) (hbuffers : s.Buffers first)
    (hfeed : WellFormedFeed s.bodies {1, 2}) (hdone : s.recovery.Done) (hsame : s.SameOrders) :
    s.recovery.outcome = .live s.recovery.finish ∧ s.recovery.finish.Replays {1, 2} s.bodies ∧
      s.recovery.finish.lastMdSeqNum.toNat < s.bodies.length := by
  obtain ⟨z, hz, hnumber, hlast, -⟩ := h.collected.whole hdone
  have hsound := (hwritten.sheets z (h.read z (List.mem_of_getLast? hz))).1
  rw [← hlast] at hnumber
  -- the number of a snapshot that is not skipped is one of a message
  have hbound : s.recovery.lastSnapshotSeqNum.toNat < s.bodies.length := by
    have hpos : z.snapshot.lastMdSeqNum ≠ 0 := by
      intro hzero
      rw [hlast, hzero, UInt32.lt_iff_toNat_lt, UInt32.toNat_zero] at hnumber
      exact Nat.not_lt_zero _ hnumber
    rw [hlast]
    exact Nat.lt_of_lt_of_le (hsound.snapshot.tagged.resolve_left hpos).1 hsound.snapshot.le
  obtain ⟨k, hbuffer, hlength⟩ := hbuffers.numbered hwritten
  have hk : ∃ k', s.recovery.liveBuffer = numberedFrom k' (s.recovery.liveBuffer.map MdMessage.body) ∧
      k' ≤ s.recovery.lastSnapshotSeqNum.toNat + 1 ∧
        k' + (s.recovery.liveBuffer.map MdMessage.body).length ≤ s.bodies.length := by
    cases hlive : s.recovery.liveBuffer with
    | nil => exact ⟨0, rfl, Nat.zero_le _, Nat.zero_le _⟩
    | cons m ms =>
      -- the first live message comes before the snapshots
      rw [hlive] at hbuffer hlength
      refine ⟨k, hbuffer, ?_, hlength⟩
      have hfirst := hnumber
      rw [Recovery.getFirstLiveSeqNum, hlive, UInt32.lt_iff_toNat_lt] at hfirst
      rw [List.map_cons, numberedFrom] at hbuffer
      have hm : m.seqNum.toNat = k := by
        rw [(List.cons.inj hbuffer).1]
        have hlt := hfeed.length
        rw [List.length_map, List.length_cons] at hlength
        exact UInt32.toNat_ofNat_of_lt' (by omega : k < 2 ^ 32)
      dsimp only at hfirst
      omega
  obtain ⟨k', hbuffer', hk', hlength'⟩ := hk
  obtain ⟨hlive, hlt⟩ := Recovery.outcome_eq_live hbuffer' hbound hfeed.length hk' hlength'
  exact ⟨hlive, h.replays hwritten hfeed hdone hsame fun _ _ _ _ _ hs _ _ => hs, hlt⟩

end LateJoin

/-! ## Runs -/

namespace Rejoin

variable {s t : Rejoin}

/-- What the client has: while it waits, a part of the snapshots with all live datagrams since then, and
otherwise the books of the feed up to its last number. -/
def Follows (s : Rejoin) : Prop :=
  match s.following with
  | .waiting => s.join.Receiving ∧ ∃ first, s.join.Buffers first
  | .live c => c.Replays {1, 2} s.join.bodies ∧ c.lastMdSeqNum.toNat < s.join.bodies.length
  | .astray => False

/-- What holds in every state. -/
structure Sound (s : Rejoin) : Prop where
  written : s.join.Written
  follows : s.Follows

theorem sound_start (liveFirst snapshotFirst : ℕ) : (start liveFirst snapshotFirst).Sound := by
  refine ⟨.start _ _, .fresh ?_ rfl .start, _, .begin rfl⟩
  exact fun _ h => absurd h List.not_mem_nil

/-- No step takes back what was published. -/
theorem bodies_prefix_after (s : Rejoin) (l : RejoinEvent) : s.join.bodies <+: (s.after l).join.bodies := by
  cases l with
  | join l =>
    have hjoin := s.join.bodies_prefix_after l
    simp only [after, settle]
    split_ifs <;> exact hjoin
  | process =>
    change s.join.bodies <+: s.process.join.bodies
    unfold process
    cases s.following with
    | live c =>
      dsimp only
      split_ifs <;> exact List.prefix_refl _
    | waiting | astray => exact List.prefix_refl _
  | loseLive | loseSnapshot => exact List.prefix_refl _

/-- **A step of the streams**, or a pass through the loop of a client that waits. -/
theorem Sound.join (h : s.Sound) {l : JoinEvent} (hen : s.Enabled (.join l)) (hhears : s.Hears (.join l))
    (hids : (newOrderIds s.join.bodies).Nodup) (hlength : s.join.bodies.length < 2 ^ 32)
    (hfeed : WellFormedFeed (s.join.after l).bodies {1, 2}) : (s.after (.join l)).Sound := by
  obtain ⟨hwritten, hfollows⟩ := h
  obtain ⟨hpolls, hen⟩ := hen
  obtain ⟨hside, hsame⟩ := hhears
  unfold Follows at hfollows
  simp only [after, settle]
  cases hmode : s.following with
  | waiting =>
    rw [hmode] at hfollows hsame
    obtain ⟨hreceiving, first, hbuffers⟩ := hfollows
    obtain ⟨hwritten', hreceiving'⟩ := LateJoin.sound_step hwritten hreceiving hids hlength hside hen
    have hbuffers' := hbuffers.after hen
    split_ifs with hdone
    · -- the loop ends, and what it has is what it takes live datagrams with
      obtain ⟨hlive, hreplays, hlt⟩ :=
        hreceiving'.outcome hwritten' hbuffers' hfeed hdone.2 (hsame rfl hdone.2)
      refine ⟨hwritten', ?_⟩
      rw [hlive]
      exact ⟨hreplays, hlt⟩
    · exact ⟨hwritten', hreceiving', first, hbuffers'⟩
  | live c =>
    rw [hmode] at hfollows hpolls
    obtain ⟨hreplays, hlt⟩ := hfollows
    rw [if_neg fun hdone => Bool.false_ne_true hdone.1]
    -- the feed only grows behind what the client has
    obtain ⟨more, hmore⟩ := s.join.bodies_prefix_after l
    refine ⟨?_, ?_⟩
    · -- the streams do not read what the client keeps
      cases l with
      | publish packet => exact hwritten.publish hen
      | hear => exact hwritten.hear hen.2 hids hlength hside
      | startRound c => exact hwritten.startRound c
      | writeSnapshot => exact hwritten.writeSnapshot
      | poll snapshot => exact absurd (hpolls rfl) Bool.false_ne_true
    · change c.Replays {1, 2} (s.join.after l).bodies ∧ _ < (s.join.after l).bodies.length
      rw [← hmore, List.length_append]
      exact ⟨hreplays.append hlt more, Nat.lt_add_right _ hlt⟩
  | astray =>
    rw [hmode] at hfollows
    exact hfollows.elim

/-- **A live datagram.** It is taken, or the client waits again. -/
theorem Sound.process (h : s.Sound) (hlength : s.join.bodies.length < 2 ^ 32) : s.process.Sound := by
  obtain ⟨hwritten, hfollows⟩ := h
  have hall := hfollows
  unfold Follows at hfollows
  unfold Rejoin.process
  cases hmode : s.following with
  | live c =>
    rw [hmode] at hfollows
    obtain ⟨hreplays, hlt⟩ := hfollows
    -- each message of the datagram has the place of its number in the feed
    have hpacket : ∀ m ∈ (s.join.packets[s.join.liveNext]?).getD [],
        s.join.bodies[m.seqNum.toNat]? = some m.body := by
      intro m hm
      have hmem : m ∈ s.join.feed := by
        cases hp : s.join.packets[s.join.liveNext]? with
        | none =>
          rw [hp] at hm
          exact absurd hm List.not_mem_nil
        | some packet =>
          rw [hp] at hm
          exact List.mem_flatten_of_mem (List.mem_of_getElem? hp) hm
      rw [hwritten.numbered] at hmem
      exact getElem?_of_mem_numbered hlength hmem
    dsimp only
    split_ifs
    · -- after a gap nothing is left of what the client had
      refine ⟨hwritten.client _ _ _ _, .fresh ?_ rfl .start, _, .begin rfl⟩
      exact fun _ h => absurd h List.not_mem_nil
    · refine ⟨hwritten.client _ _ _ _, hreplays.processMessage hpacket, ?_⟩
      exact LiveClient.lastMdSeqNum_lt hlt fun m hm =>
        (List.getElem?_eq_some_iff.mp (hpacket m hm)).1
  | waiting => exact ⟨hwritten, hall⟩
  | astray => exact ⟨hwritten, hall⟩

/-- **A loss is noticed** with the next datagram: a client that goes on has its first message. -/
theorem Sound.notices (h : s.Sound) (hlength : s.join.bodies.length < 2 ^ 32) (hen : s.Enabled .process)
    {c : LiveClient} (hc : s.process.following = .live c) :
    ∃ m ms, s.process.join.packets[s.process.join.liveNext - 1]? = some (m :: ms) ∧
      m.seqNum ≤ c.lastMdSeqNum := by
  obtain ⟨hwritten, hfollows⟩ := h
  obtain ⟨hsome, hnext⟩ := hen
  have hpacket := List.getElem?_eq_getElem hnext
  unfold Follows at hfollows
  unfold Rejoin.process at hc ⊢
  rw [hpacket, Option.getD_some] at hc ⊢
  cases hmode : s.following with
  | waiting | astray => rw [hmode] at hsome; cases hsome
  | live before =>
    rw [hmode] at hfollows hc
    obtain ⟨-, hlt⟩ := hfollows
    dsimp only at hc ⊢
    by_cases hgap : before.meetsGap s.join.packets[s.join.liveNext] = true
    · -- it waits for snapshots
      rw [if_pos hgap] at hc
      cases hc
    · rw [if_neg hgap] at hc ⊢
      obtain rfl := Following.live.inj hc
      obtain ⟨k, hnumbered, hle⟩ := hwritten.packet_numbered hnext
      cases hbodies : s.join.packets[s.join.liveNext].map MdMessage.body with
      | nil =>
        have hne := hwritten.packets _ (List.getElem_mem hnext)
        exact absurd (List.map_eq_nil_iff.mp hbodies) hne
      | cons body bodies =>
        rw [hbodies] at hnumbered hle
        rw [hnumbered] at hgap hpacket ⊢
        refine ⟨_, _, hpacket, ?_⟩
        have hbound : k < 2 ^ 32 := by
          rw [List.length_cons] at hle
          omega
        have hfirst := LiveClient.le_of_not_meetsGap hlt hlength hbound hgap
        obtain ⟨-, -, htook⟩ := before.takes_numbered hlt hlength hfirst hle
        rw [UInt32.le_iff_toNat_le, UInt32.toNat_ofNat_of_lt' hbound]
        exact htook (List.cons_ne_nil _ _)

/-- A live datagram that is lost before the client reads it. -/
theorem Sound.loseLive (h : s.Sound) (hhears : s.Hears .loseLive) : (s.after .loseLive).Sound := by
  obtain ⟨hwritten, hfollows⟩ := h
  refine ⟨hwritten.client _ _ _ _, ?_⟩
  unfold Follows at hfollows ⊢
  simp only [after]
  cases hmode : s.following with
  | waiting => rw [Hears, hmode] at hhears; exact absurd hhears.symm Bool.false_ne_true
  | live c => rw [hmode] at hfollows; exact hfollows
  | astray => rw [hmode] at hfollows; exact hfollows

/-- A datagram of the snapshots that is lost before the client has begun one. -/
theorem Sound.loseSnapshot (h : s.Sound) (hhears : s.Hears .loseSnapshot) :
    (s.after .loseSnapshot).Sound := by
  obtain ⟨hwritten, hfollows⟩ := h
  refine ⟨hwritten.client _ _ _ _, ?_⟩
  unfold Follows at hfollows ⊢
  simp only [after]
  cases hmode : s.following with
  | waiting =>
    rw [hmode] at hfollows
    obtain ⟨hreceiving, first, hbuffers⟩ := hfollows
    obtain ⟨hone, htwo⟩ := hhears (congrArg Following.isWaiting hmode)
    refine ⟨.fresh hreceiving.live rfl (.idle ?_), first, ⟨hbuffers.1, hbuffers.2, hbuffers.3⟩⟩
    rintro symbol (rfl | rfl)
    · exact hone
    · exact htwo
  | live c => rw [hmode] at hfollows; exact hfollows
  | astray => rw [hmode] at hfollows; exact hfollows

/-- **Every step** that the client hears enough of. -/
theorem Sound.after (h : s.Sound) {l : RejoinEvent} (hen : s.Enabled l) (hhears : s.Hears l)
    (hfeed : WellFormedFeed (s.after l).join.bodies {1, 2}) : (s.after l).Sound := by
  obtain ⟨more, hmore⟩ := s.bodies_prefix_after l
  have hbefore : WellFormedFeed s.join.bodies {1, 2} := (hmore ▸ hfeed).left
  cases l with
  | join l =>
    refine h.join hen hhears hbefore.ids hbefore.length ?_
    have hjoin : (s.after (.join l)).join = s.join.after l := by
      simp only [Rejoin.after, settle]
      split_ifs <;> rfl
    rwa [hjoin] at hfeed
  | process => exact h.process hbefore.length
  | loseLive => exact h.loseLive hhears
  | loseSnapshot => exact h.loseSnapshot hhears

/-- **Every run** over a well-formed feed. -/
theorem sound_run {liveFirst snapshotFirst : ℕ} {ls : List RejoinEvent}
    (h : Run (Guarded Hears RejoinStep) (start liveFirst snapshotFirst) ls s)
    (hfeed : WellFormedFeed s.join.bodies {1, 2}) : s.Sound := by
  induction h with
  | nil => exact sound_start _ _
  | @snoc s _ _ l _ step ih =>
    obtain ⟨hhears, hen, rfl⟩ := step
    obtain ⟨more, hmore⟩ := s.bodies_prefix_after l
    exact (ih (hmore ▸ hfeed).left).after hen hhears hfeed

/-- What a client hears if both snapshots that it ends with are of one round, and it loses datagrams only
while it takes live ones. -/
def HearsRound (s : Rejoin) : RejoinEvent → Prop
  | .join l => s.join.KeepsSide l ∧ ((s.join.after l).recovery.Done →
    ∀ x ∈ (s.join.after l).kept 1, ∀ y ∈ (s.join.after l).kept 2, x.instant = y.instant)
  | .process => True
  | .loseLive | .loseSnapshot => s.following.isWaiting = false

instance (s : Rejoin) : DecidablePred s.HearsRound
  | .join _ => inferInstanceAs (Decidable (_ ∧ (_ → ∀ x ∈ LateJoin.kept _ 1, ∀ y ∈ LateJoin.kept _ 2, _)))
  | .process => inferInstanceAs (Decidable True)
  | .loseLive | .loseSnapshot => inferInstanceAs (Decidable (_ = _))

theorem HearsRound.hears {l : RejoinEvent} (h : s.HearsRound l) : s.Hears l := by
  cases l with
  | join l => exact ⟨h.1, fun _ hdone => LateJoin.sameOrders_of_instant (h.2 hdone)⟩
  | process => trivial
  | loseLive => exact h
  | loseSnapshot => exact fun hwaiting => absurd (h.symm.trans hwaiting) Bool.false_ne_true

/-- Events that are enabled one after the other make a run. -/
theorem run_of_enabled {ls : List RejoinEvent}
    (h : ∀ i (hi : i < ls.length), Enabled ((ls.take i).foldl after s) ls[i] ∧
      HearsRound ((ls.take i).foldl after s) ls[i]) :
    Run (Guarded Hears RejoinStep) s ls (ls.foldl after s) := by
  refine (Run.of_foldl (C := fun s l => s.Enabled l ∧ s.HearsRound l) h).mono ?_
  rintro s l t ⟨⟨hen, hhears⟩, ht⟩
  exact ⟨hhears.hears, hen, ht⟩

end Rejoin

/-- **A client that recovers on drops** follows the feed: whatever datagrams are lost while it takes live
ones, and however often it waits for snapshots, it does not go astray, and its books are those of the feed
up to `last_md_seq_num` whenever it takes live datagrams. -/
theorem rejoin_replays {liveFirst snapshotFirst : ℕ} {ls : List RejoinEvent} {s : Rejoin}
    (h : Run (Guarded Rejoin.Hears RejoinStep) (Rejoin.start liveFirst snapshotFirst) ls s)
    (hfeed : WellFormedFeed s.join.bodies {1, 2}) :
    s.following ≠ .astray ∧
      ∀ c, s.following.client? = some c → c.Replays {1, 2} s.join.bodies := by
  have hfollows := (Rejoin.sound_run h hfeed).follows
  unfold Rejoin.Follows at hfollows
  cases hmode : s.following with
  | waiting => exact ⟨by simp, fun c hc => by cases hc⟩
  | live c =>
    rw [hmode] at hfollows
    refine ⟨by simp, fun c' hc => ?_⟩
    obtain rfl : c = c' := Option.some.inj hc
    exact hfollows.1
  | astray =>
    rw [hmode] at hfollows
    exact hfollows.elim

/-- A sale is lost while the client takes live datagrams; the heartbeat behind it has the client wait for
the next round of snapshots. -/
def Rejoin.lostSale : List RejoinEvent :=
  [.join (.publish [.heartbeat]), .join (.publish [.newOrder 1 1 Side.sell 4 50 0]),
    .join (.publish [.newOrder 2 2 Side.buy 6 30 0]), .join .hear, .join .hear, .join .hear,
    .join (.startRound .stable), .join .writeSnapshot, .join .writeSnapshot, .join (.poll true),
    .join (.poll true), .process, .join (.publish [.newOrder 3 1 Side.sell 5 40 0]),
    .join (.publish [.heartbeat]), .loseLive, .process, .join (.publish [.heartbeat]),
    .join (.publish [.heartbeat]), .join .hear, .join .hear, .join .hear, .join .hear,
    .join (.startRound .stable), .join .writeSnapshot, .join .writeSnapshot, .join (.poll true),
    .join (.poll true)]

/-- The client has the lost sale from the snapshots. -/
theorem rejoin_replays_lostSale :
    let s := Rejoin.lostSale.foldl Rejoin.after (Rejoin.start 0 0)
    ∃ c, s.following.client? = some c ∧ c.lastMdSeqNum = 6 ∧ c.Replays {1, 2} s.join.bodies := by
  intro s
  have hrun : Run (Guarded Rejoin.Hears RejoinStep) (Rejoin.start 0 0) Rejoin.lostSale s :=
    Rejoin.run_of_enabled (by decide +kernel)
  have hfeed : WellFormedFeed s.join.bodies {1, 2} :=
    ⟨⟨by decide +kernel, by decide +kernel, MDClient.fits_replay (by decide +kernel) _⟩,
      by decide +kernel⟩
  have hlast : s.following.client?.map LiveClient.lastMdSeqNum = some 6 := by decide +kernel
  obtain ⟨c, hc, hnumber⟩ := Option.map_eq_some_iff.mp hlast
  exact ⟨c, hc, hnumber, (rejoin_replays hrun hfeed).2 c hc⟩

/-- **No loss goes unnoticed**: with each live datagram that it takes, the client either finds that it has to
wait for snapshots, or has the first message of the datagram, and so, whatever was lost before, its books are
those of the feed up to there or further. -/
theorem rejoin_notices {liveFirst snapshotFirst : ℕ} {ls : List RejoinEvent} {s : Rejoin}
    (h : Run (Guarded Rejoin.Hears RejoinStep) (Rejoin.start liveFirst snapshotFirst) (ls ++ [.process]) s)
    (hfeed : WellFormedFeed s.join.bodies {1, 2}) :
    s.following = .waiting ∨ ∃ c, s.following = .live c ∧ c.Replays {1, 2} s.join.bodies ∧
      ∃ m ms, s.join.packets[s.join.liveNext - 1]? = some (m :: ms) ∧ m.seqNum ≤ c.lastMdSeqNum := by
  have hfollows := (Rejoin.sound_run h hfeed).follows
  obtain ⟨t, hrun, -, hen, rfl⟩ := h.exists_last
  obtain ⟨more, hmore⟩ := t.bodies_prefix_after .process
  have hbefore : WellFormedFeed t.join.bodies {1, 2} := (hmore ▸ hfeed).left
  have hsound := Rejoin.sound_run hrun hbefore
  unfold Rejoin.Follows at hfollows
  cases hmode : (t.after .process).following with
  | waiting => exact Or.inl rfl
  | live c =>
    rw [hmode] at hfollows
    exact Or.inr ⟨c, rfl, hfollows.1, hsound.notices hbefore.length hen hmode⟩
  | astray =>
    rw [hmode] at hfollows
    exact hfollows.elim

/-- A client that joined again takes the next heartbeat. -/
theorem rejoin_notices_lostSale :
    let ls : List RejoinEvent := Rejoin.lostSale ++ [.join (.publish [.heartbeat])]
    let s := (ls ++ [RejoinEvent.process]).foldl Rejoin.after (Rejoin.start 0 0)
    ∃ c, s.following = .live c ∧ c.Replays {1, 2} s.join.bodies ∧
      ∃ m ms, s.join.packets[s.join.liveNext - 1]? = some (m :: ms) ∧ m.seqNum ≤ c.lastMdSeqNum := by
  intro ls s
  have hrun : Run (Guarded Rejoin.Hears RejoinStep) (Rejoin.start 0 0) (ls ++ [RejoinEvent.process]) s :=
    Rejoin.run_of_enabled (by decide +kernel)
  have hfeed : WellFormedFeed s.join.bodies {1, 2} :=
    ⟨⟨by decide +kernel, by decide +kernel, MDClient.fits_replay (by decide +kernel) _⟩,
      by decide +kernel⟩
  have hlive : s.following.isWaiting = false := by decide +kernel
  refine (rejoin_notices hrun hfeed).resolve_left fun hwaiting => ?_
  rw [hwaiting] at hlive
  cases hlive

/-- Books of the same orders and levels show the same best price. -/
theorem Bots.OrderBook.Same.best_eq {b b' : OrderBook} (h : b.Same b') (hb : b'.Counted)
    (side : BookSide) : b.best side = b'.best side := by
  have hcounted : b.Counted := by
    refine ⟨fun h' price => ?_, fun e o ho => hb.quantity e o (by rw [← h.orders, ho])⟩
    rw [h.level, OrderBook.atLevel, AList.total_congr h.orders]
    exact hb.tallied h' price
  refine OrderBook.best_eq_of_behind hcounted hb (fun e o ho => by rw [← h.orders, ho]) ?_
  -- the one lacks no order of the other
  intro e o ho hlacks
  rw [h.orders, ho] at hlacks
  cases hlacks

/-- **The quotes of a client that recovers on drops**: the streams are those of a run of the engine whose
modifications in place meet orders without recorded fills. Whenever the client takes live datagrams and has
the number of the last message, its best bid and ask of the symbols 1 and 2 are the best prices at rest in
the ladders, with the quantity at rest there, whatever was lost before. -/
theorem rejoin_quotes {symbols : List UInt32} {ms : List BrokerEvent} {b : BrokerRun}
    (hrun : Run (Guarded BrokerRun.KeepsFilled BrokerStep) (BrokerRun.start symbols) ms b)
    {liveFirst snapshotFirst : ℕ} {ls : List RejoinEvent} {s : Rejoin}
    (h : Run (Guarded Rejoin.Hears RejoinStep) (Rejoin.start liveFirst snapshotFirst) ls s)
    (hpackets : s.join.packets = b.broker.publisher.datagrams)
    (hlength : b.broker.publisher.bodies.length < 2 ^ 32)
    (hfits : ∀ k, (MDClient.replay (b.broker.publisher.bodies.take k)).Fits {1, 2})
    {c : LiveClient} (hc : s.following.client? = some c)
    (hlast : c.lastMdSeqNum.toNat + 1 = b.broker.publisher.bodies.length) {symbol : UInt32}
    (hsymbol : symbol = 1 ∨ symbol = 2) :
    OrderBook.Tops .buy
        ((b.broker.restingOrders symbol).map fun o => ⟨o.side, o.price, o.quantity⟩)
        (c.client.getBestBid symbol) ∧
      OrderBook.Tops .sell
        ((b.broker.restingOrders symbol).map fun o => ⟨o.side, o.price, o.quantity⟩)
        (c.client.getBestAsk symbol) := by
  obtain ⟨books, hb⟩ := BrokerRun.followed_of_run hrun
  obtain ⟨hann, -⟩ := BrokerRun.announced_of_run hrun.of_guarded
  have hfeed : WellFormedFeed b.broker.publisher.bodies {1, 2} :=
    ⟨⟨hb.sound.distinct.sublist hann.ids, hann.positive, hfits⟩, hlength⟩
  have hbodies : s.join.bodies = b.broker.publisher.bodies := by
    rw [LateJoin.bodies, LateJoin.feed, hpackets, BrokerRun.numbered_of_run hrun.of_guarded,
      map_body_numberedFrom]
  have hfollows := (Rejoin.sound_run h (hbodies ▸ hfeed)).follows
  have hlive : s.following = .live c := by
    cases hmode : s.following with
    | live c' => rw [hmode] at hc; rw [Option.some.inj hc]
    | waiting | astray => rw [hmode] at hc; cases hc
  rw [Rejoin.Follows, hlive] at hfollows
  -- with the last number the books are those of the whole feed
  have hagree : c.client.Agree {1, 2} b.feed := by
    have hreplays := hfollows.1
    rw [LiveClient.Replays, hlast, hbodies, List.take_length] at hreplays
    rw [BrokerRun.feed_eq hb.sound]
    exact hreplays
  have hmem : symbol ∈ ({1, 2} : Set UInt32) := hsymbol
  have hcounted : (b.feed.book symbol).Counted := by
    refine hb.counted ?_
    have hwhole := hfeed.tallied b.broker.publisher.bodies.length
    rw [List.take_length] at hwhole
    rw [BrokerRun.feed_eq hb.sound]
    exact hwhole symbol hmem
  have htops : ∀ side, OrderBook.Tops side
      ((b.broker.restingOrders symbol).map fun o => ⟨o.side, o.price, o.quantity⟩)
      (c.client.best side symbol) := by
    intro side
    rw [MDClient.best_eq, (hagree.books symbol hmem).best_eq hcounted]
    exact (hcounted.tops side).perm (hb.orders_perm symbol)
  exact ⟨htops .buy, htops .sell⟩

/-- The sale that was lost is the best ask of the first symbol. -/
theorem rejoin_quotes_lostSale :
    let b := [.heartbeat, .request (.make .newOrder 1 1 1 100 Side.sell 4 50 0),
      .request (.make .newOrder 2 2 2 100 Side.buy 6 30 0),
      .request (.make .newOrder 3 1 1 200 Side.sell 5 40 0), .heartbeat, .heartbeat,
      .heartbeat].foldl BrokerRun.after (BrokerRun.start [1, 2])
    let s := Rejoin.lostSale.foldl Rejoin.after (Rejoin.start 0 0)
    ∃ c, s.following.client? = some c ∧
      OrderBook.Tops .buy
          ((b.broker.restingOrders 1).map fun o => ⟨o.side, o.price, o.quantity⟩)
          (c.client.getBestBid 1) ∧
        OrderBook.Tops .sell
          ((b.broker.restingOrders 1).map fun o => ⟨o.side, o.price, o.quantity⟩)
          (c.client.getBestAsk 1) := by
  intro b s
  have hrun : Run (Guarded BrokerRun.KeepsFilled BrokerStep) (BrokerRun.start [1, 2]) _ b :=
    BrokerRun.run_of_enabled (by decide +kernel) (by decide +kernel)
  have hjoins : Run (Guarded Rejoin.Hears RejoinStep) (Rejoin.start 0 0) Rejoin.lostSale s :=
    Rejoin.run_of_enabled (by decide +kernel)
  have hpackets : s.join.packets = b.broker.publisher.datagrams := by decide +kernel
  have hlast : s.following.client?.map LiveClient.lastMdSeqNum = some 6 := by decide +kernel
  obtain ⟨c, hc, hnumber⟩ := Option.map_eq_some_iff.mp hlast
  refine ⟨c, hc, rejoin_quotes hrun hjoins hpackets (by decide +kernel) ?_ hc ?_ (Or.inl rfl)⟩
  · exact MDClient.fits_replay (by decide +kernel) {1, 2}
  · rw [hnumber]
    decide +kernel

end Ndfex
