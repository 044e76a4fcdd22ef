import Ndfex.Bots.WireClient
import Ndfex.Bots.WireRecovery
import Ndfex.MarketData.ExactRecovery

/-!
# Joining the feed, byte by byte

`MDClient::wait_for_snapshot` from its first pass to its end, on the bytes that `recvfrom` gives it: the
live datagrams are appended to `live_buffer` as they come, and behind the loop that buffer is passed to
`process_message` message by message. The calls of `MDClient::process` follow. In bytes a late client
does what it does in messages.

## Main definitions

* `Bots.WireRecovery.replayLive`, `Bots.WireRecovery.waitForSnapshot`: the loop over the live buffer, and
  the whole call
* `Bots.Received`, `Bots.WireRecovery.Carries`: the bytes of a pass, and what is kept of them
* `LateJoin.passes`: what the client of a run receives

## Main results

* `Bots.WireRecovery.Carries.receive`: a pass
* `Bots.WireRecovery.replayLive_encodes`: the loop over the live buffer
* `Bots.WireRecovery.Carries.waitForSnapshot`: the whole call
* `wire_recovery_replays`: the books of a late client, from the bytes
-/

namespace Ndfex

open Bots Transition Wire

namespace Bots

namespace WireRecovery

/-- The loop over the live buffer, for some rounds. The buffer lies in memory, which goes on behind it. -/
def replayLive (memory : ℕ → UInt8) (last : UInt32) :
    ℕ → LiveClient → List UInt8 → Option LiveClient
  | 0, _, _ => none
  | fuel + 1, c, liveBuffer =>
    if liveBuffer = [] then some c
    else
      let buf := overwrite memory liveBuffer
      let header := MdHeader.read buf 0
      let rest := liveBuffer.drop header.length.toNat
      if header.seqNum ≤ last then replayLive memory last fuel c rest
      else
        -- `process_message` gets the whole buffer, of which only one message is erased
        match LiveWalk.loop buf (fuel + 1) ⟨0, UInt64.ofNat liveBuffer.length, c⟩ with
        | none => none
        | some w => replayLive memory last fuel w.live rest

/-- What comes after the loop of `wait_for_snapshot`. -/
def finish (memory : ℕ → UInt8) (fuel : ℕ) (w : WireRecovery) : Option WireClient :=
  (replayLive memory w.collected.lastSnapshotSeqNum fuel
    ⟨w.collected.install, w.collected.lastSnapshotSeqNum⟩ w.liveBuffer).map fun c => ⟨w.buf, c⟩

/-- `MDClient::wait_for_snapshot`, for the passes that receive a live datagram. -/
def waitForSnapshot (memory : ℕ → UInt8) (fuel : ℕ) :
    WireRecovery → List (List UInt8 × Option (List UInt8)) → Except String (Option WireClient)
  | w, [] => if w.collected.Done then .ok (w.finish memory fuel) else .ok none
  | w, (live, snapshot) :: passes =>
    if w.collected.Done then .ok (w.finish memory fuel)
    else
      match w.receive fuel live snapshot with
      | .error e => .error e
      | .ok (w, true) => waitForSnapshot memory fuel w passes
      | .ok (_, false) => .ok none

end WireRecovery

/-! ### The bytes of a pass -/

/-- The datagrams of a pass, as bytes that the receive buffer takes whole. -/
structure Received (pass : List MdMessage × Option (List SnapshotMessage))
    (bytes : List UInt8 × Option (List UInt8)) : Prop where
  live : MdMessage.Encodes pass.1 bytes.1
  snapshot : Option.Rel SnapshotMessage.Encodes pass.2 bytes.2
  liveFits : bytes.1.length ≤ WireRecovery.bufSize
  snapshotFits : ∀ datagram ∈ bytes.2, datagram.length ≤ WireRecovery.bufSize

namespace Recovery

/-- The client after some passes. -/
def receives (r : Recovery) (passes : List (List MdMessage × Option (List SnapshotMessage))) :
    Recovery :=
  passes.foldl (fun r pass => r.receive pass.1 pass.2) r

/-- The number of the first live message stays as it is. -/
theorem read_eq_readFrom (r : Recovery) (ms : List SnapshotMessage) :
    r.read ms = r.readFrom r.getFirstLiveSeqNum ms := by
  have hfirst : ∀ {r r' : Recovery}, r'.liveBuffer = r.liveBuffer →
      r'.getFirstLiveSeqNum = r.getFirstLiveSeqNum := by
    intro r r' h
    unfold getFirstLiveSeqNum
    rw [h]
  induction ms generalizing r with
  | nil => rfl
  | cons m ms ih =>
    cases m with
    | info symbol bidCount askCount n =>
      unfold read readFrom
      split_ifs
      · rfl
      · rw [ih, hfirst (leaves_info r symbol bidCount askCount n).liveBuffer]
    | newOrder o =>
      unfold read readFrom
      rw [ih, hfirst (leaves_newOrder r o).liveBuffer]

/-- Completing a symbol does not look at the live buffer. -/
theorem complete_withLive (r : Recovery) (live : List MdMessage) (symbol : UInt32) :
    ({ r with liveBuffer := live }).complete symbol =
      { r.complete symbol with liveBuffer := live } := by
  unfold Recovery.complete
  split_ifs <;> rfl

/-- Given the number of the first live message, the live buffer itself does not matter. -/
theorem readFrom_withLive (first : UInt32) (r : Recovery) (live : List MdMessage)
    (ms : List SnapshotMessage) : ({ r with liveBuffer := live }).readFrom first ms =
      { r.readFrom first ms with liveBuffer := live } := by
  induction ms generalizing r with
  | nil => rfl
  | cons m ms ih =>
    cases m with
    | info symbol bidCount askCount n =>
      unfold readFrom
      split_ifs
      · rfl
      · rw [← ih, info, info, ← complete_withLive]
    | newOrder o =>
      unfold readFrom
      rw [← ih, newOrder, newOrder, ← complete_withLive]
      split_ifs <;> rfl

end Recovery

namespace WireRecovery

variable {w : WireRecovery} {r : Recovery} {fuel : ℕ}

/-- What is kept in bytes is what is kept in messages. -/
structure Carries (w : WireRecovery) (r : Recovery) : Prop where
  live : MdMessage.Encodes r.liveBuffer w.liveBuffer
  collected : { w.collected with liveBuffer := r.liveBuffer } = r

theorem carries_start (buf : ℕ → UInt8) : (start buf).Carries Recovery.start := ⟨.nil, rfl⟩

/-- The first live message is the same. -/
theorem getFirstLiveSeqNum_encodes {bs : List UInt8} (h : MdMessage.Encodes r.liveBuffer bs) :
    getFirstLiveSeqNum bs = r.getFirstLiveSeqNum := by
  unfold Recovery.getFirstLiveSeqNum
  cases hlive : r.liveBuffer with
  | nil =>
    rw [hlive] at h
    cases h
    rfl
  | cons m ms =>
    rw [hlive] at h
    cases h with
    | cons _ timestamp rest =>
      exact StartsWith.getFirstLiveSeqNum ⟨m, timestamp, _, rfl, rfl⟩

/-- **A pass** in bytes is a pass in messages. -/
theorem Carries.receive (h : w.Carries r) {pass : List MdMessage × Option (List SnapshotMessage)}
    {bytes : List UInt8 × Option (List UInt8)} (hreceived : Received pass bytes)
    (hfuel : bufSize ≤ fuel) :
    ∃ w', w.receive fuel bytes.1 bytes.2 = .ok (w', true) ∧
      w'.Carries (r.receive pass.1 pass.2) := by
  obtain ⟨packet, sheet⟩ := pass
  obtain ⟨live, snapshot⟩ := bytes
  obtain ⟨hlive, hsnapshot, hliveFits, hsnapshotFits⟩ := hreceived
  have htake : live.take bufSize = live := List.take_of_length_le hliveFits
  have happend : MdMessage.Encodes (r.liveBuffer ++ packet) (w.liveBuffer ++ live) :=
    h.live.append hlive
  have hcollected : { w.collected with liveBuffer := r.liveBuffer ++ packet } =
      { r with liveBuffer := r.liveBuffer ++ packet } :=
    congrArg (fun r' : Recovery => { r' with liveBuffer := r.liveBuffer ++ packet }) h.collected
  cases hsnapshot with
  | none =>
    refine ⟨⟨overwrite w.buf live, w.liveBuffer ++ live, w.collected⟩, ?_, happend, hcollected⟩
    simp only [WireRecovery.receive, htake]
  | @some ms datagram hencodes =>
    have hfits : datagram.length ≤ bufSize := hsnapshotFits datagram rfl
    have hcount : ms.length ≤ fuel := by
      have hsum := length_le_of_sum ms
      rw [← SnapshotMessage.Encodes.length hencodes] at hsum
      simp only [mdHeaderSize] at hsum
      omega
    have hfirst := getFirstLiveSeqNum_encodes (r := { r with liveBuffer := r.liveBuffer ++ packet })
      happend
    obtain ⟨v, hv, hread, hleft⟩ := SnapshotWalk.rounds_encodes
      (Recovery.getFirstLiveSeqNum { r with liveBuffer := r.liveBuffer ++ packet }) hencodes
      (v := ⟨0, datagram.length, w.collected⟩)
      (starts_overwrite (overwrite w.buf live) datagram) rfl fuel
    rw [List.take_of_length_le hcount] at hread
    refine ⟨⟨overwrite (overwrite w.buf live) datagram, w.liveBuffer ++ live, v.collected⟩,
      ?_, ?_, ?_⟩
    · simp only [WireRecovery.receive, htake, List.take_of_length_le hfits, hfirst, hv,
        decide_eq_true (hleft hcount)]
    · rw [Recovery.receive, Recovery.liveBuffer_read]
      exact happend
    · rw [Recovery.receive, Recovery.liveBuffer_read, Recovery.read_eq_readFrom, hread,
        ← Recovery.readFrom_withLive, hcollected]
      rfl

/-! ### The live buffer -/

/-- **The bytes of the live buffer** are taken as its messages. -/
theorem replayLive_encodes (memory : ℕ → UInt8) {ms : List MdMessage} {bs : List UInt8}
    (h : MdMessage.Encodes ms bs) (hfuel : ms.length < fuel) (hsize : bs.length < 2 ^ 64)
    (last : UInt32) (c : LiveClient) :
    replayLive memory last fuel c bs = some (Recovery.replayLive last c ms) := by
  induction h generalizing fuel c with
  | nil =>
    obtain ⟨fuel, rfl⟩ : ∃ n, fuel = n + 1 := ⟨fuel - 1, by omega⟩
    rfl
  | @cons ms bs m timestamp rest ih =>
    obtain ⟨fuel, rfl⟩ : ∃ n, fuel = n + 1 := ⟨fuel - 1, by omega⟩
    have hfirst : (m.encode timestamp).length = m.body.length := m.length_encode timestamp
    have hlength : (UInt64.ofNat (m.encode timestamp ++ bs).length).toNat =
        (m.encode timestamp ++ bs).length := UInt64.toNat_ofNat_of_lt' hsize
    have hne : m.encode timestamp ++ bs ≠ [] := by
      intro hnil
      have hzero := congrArg List.length hnil
      have hpos := MarketDataPublisher.length_pos m.body
      rw [List.length_append, hfirst, List.length_nil] at hzero
      omega
    have hheader := (MdMessage.read_encode (starts_overwrite_append memory (m.encode timestamp) bs)).1
    have hrest : (m.encode timestamp ++ bs).drop (m.header timestamp).length.toNat = bs := by
      rw [m.length_header, ← hfirst, List.drop_left]
    obtain ⟨w, hw, hlive⟩ := LiveWalk.loop_encodes (.cons m timestamp rest) hfuel
      (w := ⟨0, UInt64.ofNat (m.encode timestamp ++ bs).length, c⟩)
      (starts_overwrite memory (m.encode timestamp ++ bs)) hlength
    have hnext := fun c => ih (Nat.lt_of_succ_lt_succ hfuel)
      (Nat.lt_of_le_of_lt (List.length_append ▸ Nat.le_add_left _ _) hsize) c
    rw [replayLive, if_neg hne]
    simp only [hheader, hrest, hw]
    have hseq : (m.header timestamp).seqNum = m.seqNum := rfl
    unfold Recovery.replayLive
    rw [hseq, hlive]
    split_ifs
    · exact hnext c
    · exact hnext _

/-- A message has at most 45 bytes. -/
theorem length_encodes_le {ms : List MdMessage} {bs : List UInt8} (h : MdMessage.Encodes ms bs) :
    bs.length ≤ 45 * ms.length := by
  rw [h.length]
  have hsum := List.sum_le_card_nsmul (ms.map fun m => m.body.length) 45
    (List.forall_mem_map.mpr fun m _ => m.body.length_le)
  have hmul : ms.length • 45 = 45 * ms.length := Nat.mul_comm ms.length 45
  rwa [List.length_map, hmul] at hsum

/-- **What comes after the loop** is what comes after it in messages. -/
theorem Carries.finish (h : w.Carries r) (memory : ℕ → UInt8) (hfuel : r.liveBuffer.length < fuel)
    (hcount : r.liveBuffer.length ≤ 2 ^ 32) :
    ∃ c, w.finish memory fuel = some c ∧ c.live = r.finish := by
  have hsize := length_encodes_le h.live
  have hlast : w.collected.lastSnapshotSeqNum = r.lastSnapshotSeqNum := by
    rw [← h.collected]
  have hinstall : w.collected.install = r.install := by
    rw [← h.collected]
    rfl
  refine ⟨⟨w.buf, r.finish⟩, ?_, rfl⟩
  rw [WireRecovery.finish, replayLive_encodes memory h.live hfuel (by omega), hlast, hinstall]
  rfl

/-! ### The call -/

theorem Carries.done_iff (h : w.Carries r) : w.collected.Done ↔ r.Done := by
  rw [← h.collected]
  rfl

/-- The live buffer after a pass. -/
theorem length_liveBuffer_receive (r : Recovery) (live : List MdMessage)
    (snapshot : Option (List SnapshotMessage)) :
    (r.receive live snapshot).liveBuffer.length = r.liveBuffer.length + live.length := by
  rw [Recovery.receive, Recovery.liveBuffer_read, List.length_append]

/-- **`wait_for_snapshot`** in bytes returns as it does in messages, when the loop ends. -/
theorem Carries.waitForSnapshot (h : w.Carries r) (memory : ℕ → UInt8)
    {passes : List (List MdMessage × Option (List SnapshotMessage))}
    {bytes : List (List UInt8 × Option (List UInt8))} (hreceived : List.Forall₂ Received passes bytes)
    (hwaits : ∀ k < passes.length, ¬ (r.receives (passes.take k)).Done)
    (hdone : (r.receives passes).Done) (hfuel : bufSize ≤ fuel)
    (hlive : (r.receives passes).liveBuffer.length < fuel)
    (hcount : (r.receives passes).liveBuffer.length ≤ 2 ^ 32) :
    ∃ c, w.waitForSnapshot memory fuel bytes = .ok (some c) ∧
      c.live = (r.receives passes).finish := by
  induction hreceived generalizing w r with
  | nil =>
    obtain ⟨c, hc, hfinish⟩ := h.finish memory hlive hcount
    exact ⟨c, by rw [WireRecovery.waitForSnapshot, if_pos (h.done_iff.mpr hdone), hc], hfinish⟩
  | @cons pass bytes passes more hpass _ ih =>
    have hnot : ¬ w.collected.Done := fun hw => hwaits 0 (Nat.succ_pos _) (h.done_iff.mp hw)
    obtain ⟨w', hw', hcarries⟩ := h.receive hpass hfuel
    obtain ⟨c, hc, hfinish⟩ := ih hcarries
      (fun k hk => hwaits (k + 1) (Nat.succ_lt_succ hk)) hdone hlive hcount
    exact ⟨c, by rw [WireRecovery.waitForSnapshot, if_neg hnot, hw']; exact hc, hfinish⟩

end WireRecovery

/-- Datagrams of feed messages. -/
theorem LiveClient.Replays.foldl {c : LiveClient} {symbols : Set UInt32} {feed : List MdBody}
    (h : c.Replays symbols feed) {packets : List (List MdMessage)}
    (hpackets : ∀ packet ∈ packets, ∀ m ∈ packet, feed[m.seqNum.toNat]? = some m.body) :
    (packets.foldl LiveClient.processMessage c).Replays symbols feed := by
  induction packets generalizing c with
  | nil => exact h
  | cons packet packets ih =>
    have htook := h.processMessage (hpackets packet List.mem_cons_self)
    exact ih htook fun p hp => hpackets p (List.mem_cons_of_mem _ hp)

namespace WireClient

/-- The calls of `MDClient::process` that follow. -/
theorem processes_encodes {packets : List (List MdMessage)} {datagrams : List (List UInt8)}
    (h : List.Forall₂ MdMessage.Encodes packets datagrams)
    (hsize : ∀ datagram ∈ datagrams, datagram.length ≤ bufSize) {fuel : ℕ} (hfuel : bufSize < fuel)
    (c : WireClient) :
    ∃ c', datagrams.foldlM (process fuel) c = some c' ∧
      c'.live = packets.foldl LiveClient.processMessage c.live := by
  induction h generalizing c with
  | nil => exact ⟨c, rfl, rfl⟩
  | @cons packet datagram packets datagrams hdatagram _ ih =>
    have hfits := hsize datagram List.mem_cons_self
    have hcount : packet.length < fuel := by
      have hle := List.length_le_sum_of_one_le (packet.map fun m => m.body.length)
        (List.forall_mem_map.mpr fun m _ => MarketDataPublisher.length_pos m.body)
      rw [List.length_map, ← hdatagram.length] at hle
      omega
    obtain ⟨c₁, hc₁, hlive₁⟩ := process_encodes hdatagram hfits hcount c
    obtain ⟨c', hc', hlive'⟩ := ih (fun d hd => hsize d (List.mem_cons_of_mem _ hd)) c₁
    refine ⟨c', ?_, ?_⟩
    · rw [List.foldlM_cons, hc₁]
      exact hc'
    · rw [hlive', hlive₁]
      rfl

end WireClient

end Bots

/-! ## The late client -/

namespace LateJoin

/-- What the client receives in a step. -/
def pass? (s : LateJoin) : JoinEvent → Option (List MdMessage × Option (List SnapshotMessage))
  | .poll snapshot => some ((s.packets[s.liveNext]?).getD [],
      if snapshot then s.writer.datagrams[s.snapshotNext]? else none)
  | .publish _ | .hear | .startRound _ | .writeSnapshot => none

/-- What the client receives in a run. -/
def passes (s : LateJoin) : List JoinEvent → List (List MdMessage × Option (List SnapshotMessage))
  | [] => []
  | l :: ls => (s.pass? l).toList ++ (s.after l).passes ls

theorem passes_snoc (s : LateJoin) (ls : List JoinEvent) (l : JoinEvent) :
    s.passes (ls ++ [l]) = s.passes ls ++ ((ls.foldl after s).pass? l).toList := by
  induction ls generalizing s with
  | nil => exact List.append_nil _
  | cons l' ls ih => rw [List.cons_append, passes, passes, ih, List.append_assoc]; rfl

/-- A step takes what the client receives in it. -/
theorem recovery_after (s : LateJoin) (l : JoinEvent) :
    (s.after l).recovery = s.recovery.receives (s.pass? l).toList := by
  cases l with
  | publish packet => rfl
  | hear =>
    dsimp only [after]
    cases s.feed[s.taken]? <;> rfl
  | startRound c => rfl
  | writeSnapshot =>
    simp only [after, LateJoin.writeSnapshot]
    split <;> rfl
  | poll snapshot => cases snapshot <;> rfl

/-- **The client of a run** waits in each of its passes for what is missing. -/
theorem receives_passes {s t : LateJoin} {ls : List JoinEvent} (h : Run JoinStep s ls t) :
    t = ls.foldl after s ∧ t.recovery = s.recovery.receives (s.passes ls) ∧
      ∀ k < (s.passes ls).length, ¬ (s.recovery.receives ((s.passes ls).take k)).Done := by
  induction h with
  | nil => exact ⟨rfl, rfl, fun k hk => absurd hk (Nat.not_lt_zero k)⟩
  | @snoc t u ls l run step ih =>
    obtain ⟨ht, hreceives, hwaits⟩ := ih
    obtain ⟨hen, rfl⟩ := step
    rw [passes_snoc, ← ht]
    refine ⟨by rw [List.foldl_append, ht]; rfl, ?_, fun k hk => ?_⟩
    · rw [recovery_after, hreceives, Recovery.receives, Recovery.receives, Recovery.receives,
        List.foldl_append]
    · by_cases hlt : k < (s.passes ls).length
      · rw [List.take_append_of_le_length (Nat.le_of_lt hlt)]
        exact hwaits k hlt
      · -- the pass that is made last
        cases l with
        | poll snapshot =>
          have hk' : k = (s.passes ls).length := by
            rw [List.length_append] at hk
            have hone : (t.pass? (.poll snapshot)).toList.length = 1 := rfl
            omega
          rw [hk', List.take_left, ← hreceives]
          exact hen.1
        | publish packet => exact absurd (by simpa [pass?] using hk) hlt
        | hear => exact absurd (by simpa [pass?] using hk) hlt
        | startRound c => exact absurd (by simpa [pass?] using hk) hlt
        | writeSnapshot => exact absurd (by simpa [pass?] using hk) hlt

/-- The live buffer holds no more than was published. -/
theorem length_liveBuffer_le {liveFirst snapshotFirst : ℕ} {s : LateJoin} {ls : List JoinEvent}
    (h : Run JoinStep (start liveFirst snapshotFirst) ls s) :
    s.recovery.liveBuffer.length ≤ s.bodies.length := by
  have htaken : s.recovery.liveBuffer.length ≤ (s.packets.take s.liveNext).flatten.length := by
    refine h.invariant (I := fun s => s.recovery.liveBuffer.length ≤
      (s.packets.take s.liveNext).flatten.length) ?_ (Nat.zero_le _)
    rintro s l t hle ⟨hen, rfl⟩
    cases l with
    | publish packet =>
      refine Nat.le_trans hle ?_
      dsimp only [after]
      rw [List.take_append, List.flatten_append, List.length_append]
      exact Nat.le_add_right _ _
    | hear =>
      dsimp only [after]
      cases s.feed[s.taken]? <;> exact hle
    | startRound c => exact hle
    | writeSnapshot =>
      simp only [after, LateJoin.writeSnapshot]
      split <;> exact hle
    | poll snapshot =>
      have hlt : s.liveNext < s.packets.length := hen.2.1
      have hpacket : s.packets[s.liveNext]? = some s.packets[s.liveNext] :=
        List.getElem?_eq_getElem hlt
      have hlength : (s.packets.take (s.liveNext + 1)).flatten.length =
          (s.packets.take s.liveNext).flatten.length + s.packets[s.liveNext].length := by
        rw [List.take_add_one, hpacket, List.flatten_append, List.length_append]
        simp
      have hbuffer : (s.after (.poll snapshot)).recovery.liveBuffer.length =
          s.recovery.liveBuffer.length + s.packets[s.liveNext].length := by
        cases snapshot <;> simp only [after, poll, hpacket, Option.getD_some, Bool.false_eq_true,
          if_true, if_false, WireRecovery.length_liveBuffer_receive]
      have hnext : (s.after (.poll snapshot)).packets = s.packets ∧
          (s.after (.poll snapshot)).liveNext = s.liveNext + 1 := by
        cases snapshot <;> exact ⟨rfl, rfl⟩
      rw [hbuffer, hnext.1, hnext.2, hlength]
      exact Nat.add_le_add_right hle _
  refine Nat.le_trans htaken ?_
  rw [bodies, List.length_map, feed]
  conv_rhs => rw [← List.take_append_drop s.liveNext s.packets, List.flatten_append, List.length_append]
  exact Nat.le_add_right _ _

/-- What the client receives in a run, as bytes that were all written at one time. -/
def bytes (s : LateJoin) (ls : List JoinEvent) (timestamp : UInt64) :
    List (List UInt8 × Option (List UInt8)) :=
  (s.passes ls).map fun pass => (pass.1.flatMap fun m => m.encode timestamp,
    pass.2.map fun ms => ms.flatMap fun m => m.encode timestamp)

theorem received_bytes (s : LateJoin) (ls : List JoinEvent) (timestamp : UInt64)
    (hfits : ∀ bytes ∈ s.bytes ls timestamp, bytes.1.length ≤ WireRecovery.bufSize ∧
      ∀ datagram ∈ bytes.2, datagram.length ≤ WireRecovery.bufSize) :
    List.Forall₂ Received (s.passes ls) (s.bytes ls timestamp) := by
  rw [bytes, List.forall₂_map_right_iff, List.forall₂_same]
  intro pass hpass
  obtain ⟨hlive, hsnapshot⟩ := hfits _ (List.mem_map_of_mem hpass)
  refine ⟨.flatMap pass.1 timestamp, ?_, hlive, hsnapshot⟩
  cases pass.2 with
  | none => exact .none
  | some ms => exact .some (.flatMap ms timestamp)

end LateJoin

open LateJoin in
/-- **Recovery is exact from the bytes on.** If the feed shows the same orders of each symbol at the
snapshot that the client took of it and at the other one, if that is later, `wait_for_snapshot` returns
with the books of the feed up to `last_md_seq_num`; and whatever live datagrams `process` gets after it,
the books are those of the feed up to there. -/
theorem wire_recovery_replays {liveFirst snapshotFirst : ℕ} {ls : List JoinEvent} {s : LateJoin}
    (h : Run (Guarded KeepsSide JoinStep) (start liveFirst snapshotFirst) ls s)
    (hfeed : WellFormedFeed s.bodies {1, 2}) (hdone : s.recovery.Done) (hsame : s.SameOrders)
    {bytes : List (List UInt8 × Option (List UInt8))}
    (hbytes : List.Forall₂ Received ((start liveFirst snapshotFirst).passes ls) bytes)
    {packets : List (List MdMessage)} (hpackets : ∀ packet ∈ packets, ∀ m ∈ packet, m ∈ s.feed)
    {datagrams : List (List UInt8)} (hdatagrams : List.Forall₂ MdMessage.Encodes packets datagrams)
    (hsize : ∀ datagram ∈ datagrams, datagram.length ≤ WireClient.bufSize)
    (memory buf : ℕ → UInt8) {fuel : ℕ} (hfuel : 2 ^ 32 ≤ fuel) :
    ∃ c, (WireRecovery.start buf).waitForSnapshot memory fuel bytes = .ok (some c) ∧
      c.live = s.recovery.finish ∧ c.live.Replays {1, 2} s.bodies ∧
      ∃ c', datagrams.foldlM (WireClient.process fuel) c = some c' ∧
        c'.live = packets.foldl LiveClient.processMessage c.live ∧
        c'.live.Replays {1, 2} s.bodies := by
  have hplain := h.of_guarded
  obtain ⟨-, hreceives, hwaits⟩ := receives_passes hplain
  have hlength := length_liveBuffer_le hplain
  have hshort := hfeed.length
  obtain ⟨c, hc, hfinish⟩ := (WireRecovery.carries_start buf).waitForSnapshot memory hbytes hwaits
    (hreceives ▸ hdone) (Nat.le_trans (by decide) hfuel)
    (Nat.lt_of_le_of_lt (hreceives ▸ hlength) (Nat.lt_of_lt_of_le hshort hfuel))
    (Nat.le_trans (hreceives ▸ hlength) (Nat.le_of_lt hshort))
  have hlive : c.live = s.recovery.finish := by
    rw [hfinish, hreceives]
    rfl
  have hreplays : c.live.Replays {1, 2} s.bodies := by
    rw [hlive]
    exact replays_recovered h hfeed hdone hsame fun _ _ _ _ _ hs _ _ => hs
  obtain ⟨c', hc', hlive'⟩ := c.processes_encodes hdatagrams hsize
    (Nat.lt_of_lt_of_le (by decide) hfuel)
  refine ⟨c, hc, hlive, hreplays, c', hc', hlive', ?_⟩
  -- every message of the feed stands where its number says
  have hnumbered := (sound_run h hfeed.ids hshort).1.numbered
  rw [hlive']
  refine hreplays.foldl fun packet hpacket m hm => getElem?_of_mem_numbered hshort ?_
  rw [← hnumbered]
  exact hpackets packet hpacket m hm

/-- Both snapshots are of one round; behind them a live datagram is lost, and then comes with the next. -/
theorem wire_recovery_replays_one_round :
    let ls : List JoinEvent :=
      [.publish [.heartbeat], .publish [.newOrder 11 1 Side.buy 5 50 0],
        .publish [.newOrder 12 2 Side.sell 6 60 0], .hear, .hear, .hear, .startRound .stable,
        .writeSnapshot, .writeSnapshot, .poll true, .publish [.trade 12 2 60, .deleteOrder 11],
        .poll false, .poll true, .publish [.newOrder 13 2 Side.sell 7 61 0],
        .publish [.modifyOrder 13 Side.sell 3 61]]
    let s := ls.foldl LateJoin.after (LateJoin.start 1 0)
    let packets : List (List MdMessage) := [[⟨6, .modifyOrder 13 Side.sell 3 61⟩],
      [⟨5, .newOrder 13 2 Side.sell 7 61 0⟩, ⟨6, .modifyOrder 13 Side.sell 3 61⟩]]
    ∃ c c', (WireRecovery.start fun _ => 0).waitForSnapshot (fun _ => 0) (2 ^ 32)
        ((LateJoin.start 1 0).bytes ls 0) = .ok (some c) ∧ c.live.lastMdSeqNum = 4 ∧
      (packets.map fun ms => ms.flatMap fun m => m.encode 0).foldlM (WireClient.process (2 ^ 32)) c =
        some c' ∧ c'.live.lastMdSeqNum = 6 ∧ c'.live.Replays {1, 2} s.bodies := by
  intro ls s packets
  have hrun : Run (Guarded LateJoin.KeepsSide JoinStep) (LateJoin.start 1 0) ls s :=
    LateJoin.run_of_enabled (by decide +kernel)
  have hfeed : WellFormedFeed s.bodies {1, 2} :=
    ⟨⟨by decide +kernel, by decide +kernel, MDClient.fits_replay (by decide +kernel) _⟩,
      by decide +kernel⟩
  have hdatagrams : List.Forall₂ MdMessage.Encodes packets
      (packets.map fun ms => ms.flatMap fun m => m.encode 0) := by
    rw [List.forall₂_map_right_iff, List.forall₂_same]
    exact fun ms _ => .flatMap ms 0
  obtain ⟨c, hc, hlive, -, c', hc', hlive', hreplays⟩ := wire_recovery_replays hrun hfeed
    (by decide +kernel) (LateJoin.sameOrders_of_instant (by decide +kernel))
    (LateJoin.received_bytes (LateJoin.start 1 0) ls 0 (by decide +kernel)) (by decide +kernel)
    hdatagrams (by decide +kernel) (fun _ => 0) (fun _ => 0) (Nat.le_refl _)
  refine ⟨c, c', hc, ?_, hc', ?_, hreplays⟩
  · rw [hlive]
    decide +kernel
  · rw [hlive', hlive]
    decide +kernel

end Ndfex
