import Ndfex.Bots.WireRecovery
import Ndfex.Bots.WireClient
import Ndfex.MarketData.SnapshotClient
import Ndfex.Protocol.MessageLoop

/-!
# The loops over a datagram

`SnapshotClient::process`, `MDClient::process_message` and the inner loop of `MDClient::wait_for_snapshot`
go on by the length that a message says, whatever that is.

## Main definitions

* `SnapshotClient.messages`, `Bots.LiveClient.messages`, `Bots.snapshotMessages`: the three loops
* `SnapshotClient.Total`, `Bots.WireClient.Total`, `Bots.WireRecovery.Total`: a loop ends, and reads what was
  received

## Main results

* `Bots.datagram_loops_iff`: the datagrams on which they do
-/

namespace Ndfex

open Wire

theorem lt_size_iff (left : UInt64) (t : MdMsgType) :
    left < UInt64.ofNat t.size ↔ left.toNat < t.size := by
  rw [UInt64.lt_iff_toNat_lt, Walk.toNat_ofNat_size]

/-! ## The reader of the feed -/

namespace SnapshotClient

/-- The loop of `SnapshotClient::process`. It does not look into a summary of trades, but wants it to be
there. -/
def messages : MessageLoop Unit where
  magic := magicNumber
  checksHeader := false
  looksInto _ left _ t := t ∈ [.newOrder, .deleteOrder, .modifyOrder, .trade] ∧ t.size ≤ left
  elsewhere _ _ := True
  goesOn _ left header _ :=
    match MdMsgType.ofByte header.msgType with
    | none | some .heartbeat | some .snapshotInfo => some ()
    | some t => if left < t.size then none else some ()
  rest := unsignedRest

theorem messages_lawful : messages.frameLoop.Lawful :=
  MessageLoop.lawful (fun _ _ _ _ _ h => Or.inr h) fun _ _ => unsignedRest_of_le

end SnapshotClient

namespace Walk

variable {buf : ℕ → UInt8} {w : Walk}

/-- Where the loop stands in memory. -/
def frame (w : Walk) : FrameWalk Unit := ⟨w.offset, w.left.toNat, ()⟩

theorem frame_skip (w : Walk) (length : UInt16) : (w.skip length).frame =
    ⟨w.offset + length.toNat, unsignedRest w.left.toNat length.toNat, ()⟩ := by
  rw [frame, skip, unsignedRest, UInt64.ofNat_toNat, UInt64.ofNat_uInt16ToNat]

/-- **A round** is one of the loop in memory. -/
theorem next_frame (buf : ℕ → UInt8) (w : Walk) (hleft : w.frame.left ≠ 0) :
    SnapshotClient.messages.frameLoop.next buf w.frame =
      (FrameLoop.onward (body buf w)).map frame := by
  -- there is no check for a header
  have hshort : ¬ SnapshotClient.messages.Short w.frame.left := fun h => absurd h.1 (by decide)
  unfold body
  by_cases hmagic : (MdHeader.read buf w.offset).magicNumber ≠ magicNumber
  · rw [MessageLoop.next_of_magicNumber (w := w.frame) (Or.inr hmagic)]
    dsimp only
    rw [if_pos hmagic]
    rfl
  rw [MessageLoop.next_of_header hleft hshort (not_not.mp hmagic)]
  dsimp only [frame, SnapshotClient.messages]
  rw [if_neg hmagic]
  cases MdMsgType.ofByte (MdHeader.read buf w.offset).msgType with
  | none => exact congrArg some (frame_skip _ _).symm
  | some t =>
    by_cases hroom : w.left.toNat < t.size
    · -- a struct that is not all there ends the loop, if the type has one
      have hroom' := (lt_size_iff w.left t).mpr hroom
      cases t with
      | heartbeat | snapshotInfo => exact congrArg some (frame_skip _ _).symm
      | newOrder | deleteOrder | modifyOrder | trade | tradeSummary =>
        dsimp only
        rw [if_pos hroom, if_pos hroom']
        rfl
    · have hroom' := mt (lt_size_iff w.left t).mp hroom
      cases t with
      | heartbeat | snapshotInfo => exact congrArg some (frame_skip _ _).symm
      | newOrder | deleteOrder | modifyOrder | trade | tradeSummary =>
        dsimp only
        rw [if_neg hroom, if_neg hroom']
        exact congrArg some (frame_skip _ _).symm

/-- The loop ends as the one in memory does. -/
theorem loop_ends_iff (buf : ℕ → UInt8) (w : Walk) :
    (∃ fuel v, loop buf fuel w = some v) ↔ SnapshotClient.messages.frameLoop.Ends buf w.frame := by
  have hzero : ∀ w : Walk, w.frame.left = 0 ↔ w.left = 0 := fun w => UInt64.toNat_inj (b := 0)
  refine FrameLoop.ends_iff_of_body frame (fun _ => rfl) (fun n w hleft => ?_) (fun n w hleft => ?_)
    (next_frame buf) w
  · rw [loop, if_pos ((hzero w).mp hleft)]
  · rw [loop, if_neg (mt (hzero w).mpr hleft)]
    rcases body buf w with ⟨v, _ | _⟩ <;> rfl

end Walk

namespace Bots

/-! ## The live client -/

namespace LiveClient

/-- The loop of `MDClient::process_message`. It looks into a message in order, once all of it is left. -/
def messages : MessageLoop LiveClient where
  magic := magicNumber
  checksHeader := true
  looksInto live left header t :=
    ¬ live.lastMdSeqNum + 1 < header.seqNum ∧ live.lastMdSeqNum < header.seqNum ∧
      t ≠ .snapshotInfo ∧ t.size ≤ left
  elsewhere _ _ := True
  goesOn live left header fields :=
    if live.lastMdSeqNum + 1 < header.seqNum then none
    else if header.seqNum ≤ live.lastMdSeqNum then some live
    else
      match MdMsgType.ofByte header.msgType with
      | none | some .snapshotInfo => none
      | some t =>
        if left < t.size then none
        else
          match MdBody.ofFields t fields with
          | none => none
          | some body =>
            if live.client.stops body then none
            else some ⟨live.client.apply body, header.seqNum⟩
  rest := unsignedRest

/-- The client has the number of a message that it took. -/
theorem goesOn_cases {live live' : LiveClient} {left : ℕ} {header : MdHeader} {fields : List ℕ}
    (h : messages.goesOn live left header fields = some live') :
    ¬ live.lastMdSeqNum + 1 < header.seqNum ∧
      (header.seqNum ≤ live.lastMdSeqNum ∧ live' = live ∨ live'.lastMdSeqNum = header.seqNum) := by
  simp only [messages] at h
  split_ifs at h with hgap hskip
  · exact ⟨hgap, Or.inl ⟨hskip, (Option.some.inj h).symm⟩⟩
  · refine ⟨hgap, Or.inr ?_⟩
    split at h
    · exact absurd h (by simp)
    · exact absurd h (by simp)
    · split_ifs at h
      split at h
      · exact absurd h (by simp)
      · split_ifs at h
        rw [← Option.some.inj h]

theorem messages_lawful : messages.frameLoop.Lawful := by
  refine MessageLoop.lawful (fun live left header m live' h => ?_) fun _ _ => unsignedRest_of_le
  obtain ⟨hgap, ⟨hskip, rfl⟩ | hlast⟩ := goesOn_cases h
  · exact Or.inr h
  · -- a message that was taken is not, when it is looked at again
    generalize messages.fields live' left header m = fields
    simp only [messages]
    rw [hlast]
    by_cases hwrap : header.seqNum + 1 < header.seqNum
    · rw [if_pos hwrap]
      exact Or.inl rfl
    · rw [if_neg hwrap, if_pos (UInt32.le_refl _)]
      exact Or.inr rfl

end LiveClient

namespace LiveWalk

variable {buf : ℕ → UInt8} {w : LiveWalk}

/-- Where the loop stands in memory. -/
def frame (w : LiveWalk) : FrameWalk LiveClient := ⟨w.offset, w.left.toNat, w.live⟩

theorem frame_skip (w : LiveWalk) (length : UInt16) : (w.skip length).frame =
    ⟨w.offset + length.toNat, unsignedRest w.left.toNat length.toNat, w.live⟩ := by
  rw [frame, skip, unsignedRest, UInt64.ofNat_toNat, UInt64.ofNat_uInt16ToNat]

theorem frame_take (w : LiveWalk) (header : MdHeader) (body : MdBody) :
    (FrameLoop.onward (w.take header body)).map frame =
      (if w.live.client.stops body then none
        else some (⟨w.live.client.apply body, header.seqNum⟩ : LiveClient)).map fun live =>
          ⟨w.offset + header.length.toNat, unsignedRest w.left.toNat header.length.toNat, live⟩ := by
  unfold take
  dsimp only
  by_cases hstops : w.live.client.stops body
  · rw [if_pos hstops, if_pos hstops]
    rfl
  · rw [if_neg hstops, if_neg hstops]
    exact congrArg some (frame_skip _ _)

/-- **A round** is one of the loop in memory. -/
theorem next_frame (buf : ℕ → UInt8) (w : LiveWalk) (hleft : w.frame.left ≠ 0) :
    LiveClient.messages.frameLoop.next buf w.frame =
      (FrameLoop.onward (body buf w)).map frame := by
  have hheader : LiveClient.messages.Short w.frame.left ↔ w.left < UInt64.ofNat mdHeaderSize := by
    rw [UInt64.lt_iff_toNat_lt]
    exact and_iff_right rfl
  unfold body
  by_cases hshort : w.left < UInt64.ofNat mdHeaderSize
  · rw [MessageLoop.next_of_magicNumber (w := w.frame) (Or.inl (hheader.mpr hshort)), if_pos hshort]
    rfl
  rw [if_neg hshort]
  dsimp only
  by_cases hmagic : (MdHeader.read buf w.offset).magicNumber ≠ magicNumber
  · rw [MessageLoop.next_of_magicNumber (w := w.frame) (Or.inr hmagic), if_pos hmagic]
    rfl
  rw [MessageLoop.next_of_header hleft (mt hheader.mp hshort) (not_not.mp hmagic), if_neg hmagic]
  by_cases hgap : w.live.lastMdSeqNum + 1 < (MdHeader.read buf w.offset).seqNum
  · -- messages were lost
    rw [if_pos hgap]
    simp only [LiveClient.messages, frame]
    rw [if_pos hgap]
    rfl
  rw [if_neg hgap]
  by_cases hskip : (MdHeader.read buf w.offset).seqNum ≤ w.live.lastMdSeqNum
  · -- the client has the message
    rw [if_pos hskip]
    simp only [LiveClient.messages, frame]
    rw [if_neg hgap, if_pos hskip]
    exact congrArg some (frame_skip w _).symm
  rw [if_neg hskip]
  cases htype : MdMsgType.ofByte (MdHeader.read buf w.offset).msgType with
  | none =>
    simp only [LiveClient.messages, frame, htype]
    rw [if_neg hgap, if_neg hskip]
    rfl
  | some t =>
    by_cases hroom : w.left.toNat < t.size
    · have hroom' := (lt_size_iff w.left t).mpr hroom
      cases t with
      | heartbeat | newOrder | deleteOrder | modifyOrder | trade | tradeSummary | snapshotInfo =>
        simp only [LiveClient.messages, frame, htype]
        rw [if_neg hgap, if_neg hskip]
        first
        | rw [if_pos hroom, if_pos hroom']; rfl
        | rfl
    · have hroom' := mt (lt_size_iff w.left t).mp hroom
      -- the struct is looked into at its address
      have hfields : t ≠ .snapshotInfo → LiveClient.messages.fields w.live w.left.toNat
          (MdHeader.read buf w.offset) (fromAddress buf w.offset) =
            unpack buf (w.offset + mdHeaderSize) t.layout := by
        intro hinfo
        apply MessageLoop.fields_of_looksInto htype
        exact decide_eq_true ⟨hgap, UInt32.not_le.mp hskip, hinfo, Nat.le_of_not_lt hroom⟩
      cases t with
      | snapshotInfo =>
        simp only [LiveClient.messages, frame, htype]
        rw [if_neg hgap, if_neg hskip]
        rfl
      | heartbeat | newOrder | deleteOrder | modifyOrder | trade | tradeSummary =>
        have hread := hfields (by decide)
        dsimp only
        rw [if_neg hroom', read, ← hread]
        dsimp only [frame]
        generalize LiveClient.messages.fields _ _ _ _ = fields
        simp only [LiveClient.messages, htype]
        rw [if_neg hgap, if_neg hskip, if_neg hroom]
        cases MdBody.ofFields _ fields with
        | none => rfl
        | some body => exact (frame_take w _ body).symm

/-- The loop ends as the one in memory does. -/
theorem loop_ends_iff (buf : ℕ → UInt8) (w : LiveWalk) :
    (∃ fuel v, loop buf fuel w = some v) ↔ LiveClient.messages.frameLoop.Ends buf w.frame := by
  have hzero : ∀ w : LiveWalk, w.frame.left = 0 ↔ w.left = 0 := fun w => UInt64.toNat_inj (b := 0)
  refine FrameLoop.ends_iff_of_body frame (fun _ => rfl) (fun n w hleft => ?_) (fun n w hleft => ?_)
    (next_frame buf) w
  · rw [loop, if_pos ((hzero w).mp hleft)]
  · rw [loop, if_neg (mt (hzero w).mpr hleft)]
    rcases body buf w with ⟨v, _ | _⟩ <;> rfl

end LiveWalk

/-! ## The recovering client -/

/-- The inner loop of `MDClient::wait_for_snapshot`. The number of the first live message is read when
there is an info, behind what was received if that is shorter. -/
def snapshotMessages (liveBuffer : List UInt8) : MessageLoop Unit where
  magic := snapshotMagicNumber
  checksHeader := true
  looksInto _ _ _ t := t = .snapshotInfo ∨ t = .newOrder
  elsewhere _ header :=
    MdMsgType.ofByte header.msgType = some .snapshotInfo → liveBuffer = [] ∨ 14 ≤ liveBuffer.length
  goesOn _ _ header fields :=
    match (MdMsgType.ofByte header.msgType).bind (SnapshotMessage.ofFields · fields) with
    | some (.info _ _ _ lastMdSeqNum) =>
      if lastMdSeqNum ≤ WireRecovery.getFirstLiveSeqNum liveBuffer then none else some ()
    | _ => some ()
  -- the count is signed, and ends the loop when it is negative
  rest left k := left - k

theorem snapshotMessages_lawful (liveBuffer : List UInt8) :
    (snapshotMessages liveBuffer).frameLoop.Lawful :=
  MessageLoop.lawful (fun _ _ _ _ _ h => Or.inr h) fun _ _ _ _ => rfl

namespace SnapshotWalk

/-- Where the loop stands in memory. -/
def frame (v : SnapshotWalk) : FrameWalk Unit := ⟨v.offset, v.left.toNat, ()⟩

theorem frame_skip (v : SnapshotWalk) (length : UInt16) :
    (v.skip length).frame = ⟨v.offset + length.toNat, v.left.toNat - length.toNat, ()⟩ := by
  have hleft : (v.left - length.toNat).toNat = v.left.toNat - length.toNat := by omega
  rw [frame, skip, hleft]

/-- The fields that the loop looks at hold the message. -/
theorem read_fields (liveBuffer : List UInt8) (buf : ℕ → UInt8) (address left : ℕ) :
    (MdMsgType.ofByte (MdHeader.read buf address).msgType).bind
      (SnapshotMessage.ofFields · ((snapshotMessages liveBuffer).fields () left
        (MdHeader.read buf address) (fromAddress buf address))) =
      (MdMsgType.ofByte (MdHeader.read buf address).msgType).bind
        (SnapshotMessage.read buf address) := by
  cases htype : MdMsgType.ofByte (MdHeader.read buf address).msgType with
  | none => rfl
  | some t =>
    rw [Option.bind_some, Option.bind_some]
    cases t with
    | snapshotInfo | newOrder =>
      rw [MessageLoop.fields_of_looksInto htype (by rfl)]
      rfl
    | heartbeat | deleteOrder | modifyOrder | trade | tradeSummary => rfl

/-- **A round** is one of the loop in memory: it ends there, or it goes on. -/
theorem next_frame (liveBuffer : List UInt8) (buf : ℕ → UInt8) (v : SnapshotWalk) (hleft : 0 < v.left) :
    let next := (snapshotMessages liveBuffer).frameLoop.next buf v.frame
    let after := body buf (WireRecovery.getFirstLiveSeqNum liveBuffer) v
    next = none ∧ (∀ v', after = .ok v' → v'.left ≤ 0) ∨
      ∃ v', after = .ok v' ∧ next = some v'.frame := by
  have hheader : (snapshotMessages liveBuffer).Short v.frame.left ↔ v.left < mdHeaderSize := by
    have hiff : v.left.toNat < mdHeaderSize ↔ v.left < mdHeaderSize := by omega
    exact (and_iff_right rfl).trans hiff
  have hmore : v.frame.left ≠ 0 := by
    have hpos : v.left.toNat ≠ 0 := by omega
    exact hpos
  dsimp only
  unfold body
  by_cases hshort : v.left < mdHeaderSize
  · rw [MessageLoop.next_of_magicNumber (w := v.frame) (Or.inl (hheader.mpr hshort)), if_pos hshort]
    exact Or.inl ⟨rfl, fun v' h => absurd h (by simp)⟩
  rw [if_neg hshort]
  dsimp only
  by_cases hmagic : (MdHeader.read buf v.offset).magicNumber ≠ snapshotMagicNumber
  · rw [MessageLoop.next_of_magicNumber (w := v.frame) (Or.inr hmagic), if_pos hmagic]
    exact Or.inl ⟨rfl, fun v' h => absurd h (by simp)⟩
  rw [MessageLoop.next_of_header hmore (mt hheader.mp hshort) (not_not.mp hmagic), if_neg hmagic]
  -- the message, or none if the type is not one of the two
  have hmessage := read_fields liveBuffer buf v.offset v.left.toNat
  dsimp only [frame]
  generalize (snapshotMessages liveBuffer).fields _ _ _ _ = fields at hmessage ⊢
  simp only [snapshotMessages, hmessage]
  cases (MdMsgType.ofByte (MdHeader.read buf v.offset).msgType).bind
    (SnapshotMessage.read buf v.offset) with
  | none => exact Or.inr ⟨_, rfl, congrArg some (frame_skip v _).symm⟩
  | some message =>
    cases message with
    | newOrder o => exact Or.inr ⟨_, rfl, congrArg some (frame_skip _ _).symm⟩
    | info symbol bidCount askCount lastMdSeqNum =>
      dsimp only
      by_cases hold : lastMdSeqNum ≤ WireRecovery.getFirstLiveSeqNum liveBuffer
      · -- the rest of the datagram is skipped
        rw [if_pos hold, if_pos hold]
        refine Or.inl ⟨rfl, fun v' h => ?_⟩
        rw [← Except.ok.inj h]
      · rw [if_neg hold, if_neg hold]
        exact Or.inr ⟨_, rfl, congrArg some (frame_skip _ _).symm⟩

/-- The inner loop ends, with an error or behind the datagram, as the one in memory does. -/
theorem rounds_end_iff (liveBuffer : List UInt8) (buf : ℕ → UInt8) (v : SnapshotWalk) :
    (∃ j, ∀ v', rounds buf (WireRecovery.getFirstLiveSeqNum liveBuffer) j v = .ok v' → v'.left ≤ 0) ↔
      (snapshotMessages liveBuffer).frameLoop.Ends buf v.frame := by
  have hzero : ∀ v : SnapshotWalk, v.frame.left = 0 ↔ v.left ≤ 0 := fun v => Int.toNat_eq_zero
  refine FrameLoop.ends_iff_of_rounds frame (fun j v => ∀ v',
    rounds buf (WireRecovery.getFirstLiveSeqNum liveBuffer) j v = .ok v' → v'.left ≤ 0) ?_ ?_ ?_ v
  · intro v hv
    have hnone : (snapshotMessages liveBuffer).frameLoop.next buf v.frame = none := by
      rw [FrameLoop.next, if_pos ((hzero v).mpr (hv v rfl))]
    exact FrameLoop.ends_of_stop hnone
  · intro n v hnone v' hv'
    by_cases hleft : v.left ≤ 0
    · rw [rounds_of_left hleft] at hv'
      rwa [← Except.ok.inj hv']
    · rw [rounds, if_neg hleft] at hv'
      rcases next_frame liveBuffer buf v (Int.not_le.mp hleft) with ⟨-, hstop⟩ | ⟨v'', -, hsome⟩
      · cases hbody : body buf (WireRecovery.getFirstLiveSeqNum liveBuffer) v with
        | error e =>
          rw [hbody] at hv'
          exact absurd hv' (by simp [Except.bind])
        | ok v'' =>
          have hend := hstop v'' hbody
          rw [hbody] at hv'
          have hv'' : rounds buf (WireRecovery.getFirstLiveSeqNum liveBuffer) n v'' = .ok v' := hv'
          rw [rounds_of_left hend] at hv''
          rwa [← Except.ok.inj hv'']
      · exact absurd (hnone.symm.trans hsome) (by simp)
  · intro v w' hsome
    by_cases hleft : v.left ≤ 0
    · rw [FrameLoop.next, if_pos ((hzero v).mpr hleft)] at hsome
      exact absurd hsome (by simp)
    · rcases next_frame liveBuffer buf v (Int.not_le.mp hleft) with ⟨hnone, -⟩ | ⟨v', hbody, hnext⟩
      · exact absurd (hnone.symm.trans hsome) (by simp)
      · refine ⟨v', Option.some.inj (hnext.symm.trans hsome), fun n => ?_⟩
        have hrounds : rounds buf (WireRecovery.getFirstLiveSeqNum liveBuffer) (n + 1) v =
            rounds buf (WireRecovery.getFirstLiveSeqNum liveBuffer) n v' := by
          rw [rounds, if_neg hleft, hbody]
          rfl
        rw [hrounds]

end SnapshotWalk

/-! ## The datagrams -/

end Bots

/-- The client takes a datagram: its loop ends, and reads what was received. -/
def SnapshotClient.Total (c : SnapshotClient) (datagram : List UInt8) : Prop :=
  let received := (datagram.take bufSize).length
  (∃ fuel c', c.process fuel datagram = some c') ∧
    messages.frameLoop.ReadsWithin (receive c.buf datagram) ⟨0, received, ()⟩ received

theorem toNat_ofNat_received {datagram : List UInt8} {bufSize : ℕ} (h : bufSize < 2 ^ 64) :
    (datagram.take bufSize).length < 2 ^ 64 ∧
      (UInt64.ofNat (datagram.take bufSize).length).toNat = (datagram.take bufSize).length := by
  have hlt : (datagram.take bufSize).length < 2 ^ 64 :=
    Nat.lt_of_le_of_lt (List.length_take_le _ _) h
  exact ⟨hlt, UInt64.toNat_ofNat_of_lt' hlt⟩

theorem exists_map_eq_some {α β : Type} (f : ℕ → Option α) (g : α → β) :
    (∃ n b, (f n).map g = some b) ↔ ∃ n a, f n = some a := by
  refine exists_congr fun n => ?_
  cases f n <;> simp

theorem SnapshotClient.total_iff (c : SnapshotClient) (datagram : List UInt8) :
    c.Total datagram ↔ messages.frameLoop.Sound () (datagram.take bufSize) := by
  obtain ⟨hlt, htoNat⟩ := @toNat_ofNat_received datagram bufSize (by decide)
  have hends := Walk.loop_ends_iff (receive c.buf datagram)
    ⟨0, UInt64.ofNat (datagram.take bufSize).length, c.lastSeqNum, c.queue⟩
  rw [Walk.frame] at hends
  dsimp only at hends
  rw [htoNat] at hends
  rw [← messages_lawful.total_iff hlt (starts_overwrite c.buf _), Total, ← receive, ← hends]
  refine and_congr_left fun _ => exists_map_eq_some (fun fuel => Walk.loop _ fuel _) _

namespace Bots

/-- The client takes a datagram: its loop ends, and reads what was received. -/
def WireClient.Total (c : WireClient) (datagram : List UInt8) : Prop :=
  let received := (datagram.take bufSize).length
  (∃ fuel c', c.process fuel datagram = some c') ∧
    LiveClient.messages.frameLoop.ReadsWithin (overwrite c.buf (datagram.take bufSize))
      ⟨0, received, c.live⟩ received

theorem WireClient.total_iff (c : WireClient) (datagram : List UInt8) :
    c.Total datagram ↔ LiveClient.messages.frameLoop.Sound c.live (datagram.take bufSize) := by
  obtain ⟨hlt, htoNat⟩ := @toNat_ofNat_received datagram bufSize (by decide)
  have hends := LiveWalk.loop_ends_iff (overwrite c.buf (datagram.take bufSize))
    ⟨0, UInt64.ofNat (datagram.take bufSize).length, c.live⟩
  rw [LiveWalk.frame] at hends
  dsimp only at hends
  rw [htoNat] at hends
  rw [← LiveClient.messages_lawful.total_iff hlt (starts_overwrite c.buf _), Total, ← hends]
  refine and_congr_left fun _ => exists_map_eq_some (fun fuel => LiveWalk.loop _ fuel _) _

/-- A snapshot datagram is taken, behind a live one: the inner loop ends, and reads what was received. -/
def WireRecovery.Total (w : WireRecovery) (live datagram : List UInt8) : Prop :=
  let received := (datagram.take bufSize).length
  (∃ fuel, ∀ w' finished, w.receive fuel live (some datagram) = .ok (w', finished) →
      finished = true) ∧
    (snapshotMessages (w.liveBuffer ++ live.take bufSize)).frameLoop.ReadsWithin
      (overwrite (overwrite w.buf (live.take bufSize)) (datagram.take bufSize)) ⟨0, received, ()⟩
      received

theorem WireRecovery.total_iff (w : WireRecovery) (live datagram : List UInt8) :
    w.Total live datagram ↔ (snapshotMessages (w.liveBuffer ++ live.take bufSize)).frameLoop.Sound ()
      (datagram.take bufSize) := by
  obtain ⟨hlt, -⟩ := @toNat_ofNat_received datagram bufSize (by decide)
  have hends := SnapshotWalk.rounds_end_iff (w.liveBuffer ++ live.take bufSize)
    (overwrite (overwrite w.buf (live.take bufSize)) (datagram.take bufSize))
    ⟨0, (datagram.take bufSize).length, w.collected⟩
  rw [SnapshotWalk.frame] at hends
  dsimp only at hends
  rw [Int.toNat_natCast] at hends
  rw [← (snapshotMessages_lawful _).total_iff hlt (starts_overwrite _ _), Total, ← hends]
  refine and_congr_left fun _ => exists_congr fun fuel => ?_
  simp only [receive]
  cases SnapshotWalk.rounds _ _ fuel _ with
  | error e => simp
  | ok v => simp

/-- **The loops on a datagram** end, and read what was received, exactly if along the lengths in the headers
every message is there as far as it is looked at, and one that a loop goes on behind has a length, within
what was received. -/
theorem datagram_loops_iff (feed : SnapshotClient) (client : WireClient) (recovery : WireRecovery)
    (live datagram : List UInt8) :
    (feed.Total datagram ↔
        SnapshotClient.messages.frameLoop.Sound () (datagram.take SnapshotClient.bufSize)) ∧
      (client.Total datagram ↔
        LiveClient.messages.frameLoop.Sound client.live (datagram.take WireClient.bufSize)) ∧
      (recovery.Total live datagram ↔
        (snapshotMessages (recovery.liveBuffer ++ live.take WireRecovery.bufSize)).frameLoop.Sound ()
          (datagram.take WireRecovery.bufSize)) :=
  ⟨feed.total_iff datagram, client.total_iff datagram, recovery.total_iff live datagram⟩

/-- A heartbeat that says that it has no length. -/
def emptyHeartbeat : List UInt8 :=
  pack mdHeaderLayout (MdHeader.fields ⟨magicNumber, 0, 1, 0, MdMsgType.heartbeat.byte⟩)

/-- The header of a snapshot info, without the info. -/
def cutInfo : List UInt8 :=
  pack mdHeaderLayout (MdHeader.fields ⟨snapshotMagicNumber, 39, 1, 0, MdMsgType.snapshotInfo.byte⟩)

/-- **A heartbeat of no length** is looked at for ever, by a client that has its number, and by the reader of
the feed; and of an info that was cut, the recovering client reads what was not received. -/
theorem emptyHeartbeat_never_ends :
    ¬ (SnapshotClient.start fun _ => 0).Total emptyHeartbeat ∧
      ¬ (⟨fun _ => 0, ⟨MDClient.empty, 1⟩⟩ : WireClient).Total emptyHeartbeat ∧
      ¬ (WireRecovery.start fun _ => 0).Total [] cutInfo := by
  have hheader : MdHeader.read (fromAddress (overwrite (fun _ => 0) emptyHeartbeat) 0) 0 =
      ⟨magicNumber, 0, 1, 0, MdMsgType.heartbeat.byte⟩ := by decide +kernel
  refine ⟨fun ⟨⟨fuel, c', hc'⟩, _⟩ => ?_, fun ⟨⟨fuel, c', hc'⟩, _⟩ => ?_, fun ⟨_, hreads⟩ => ?_⟩
  · obtain ⟨w, hw, -⟩ := Option.map_eq_some_iff.mp hc'
    refine SnapshotClient.messages_lawful.not_ends ?_ ?_ ?_ ((Walk.loop_ends_iff _ _).mp ⟨fuel, w, hw⟩)
    all_goals decide +kernel
  · obtain ⟨w, hw, -⟩ := Option.map_eq_some_iff.mp hc'
    refine LiveClient.messages_lawful.not_ends ?_ ?_ ?_ ((LiveWalk.loop_ends_iff _ _).mp ⟨fuel, w, hw⟩)
    · decide +kernel
    · decide +kernel
    · have hleft : (UInt64.ofNat (emptyHeartbeat.take WireClient.bufSize).length).toNat = 23 := by
        decide +kernel
      have hbytes : emptyHeartbeat.take WireClient.bufSize = emptyHeartbeat :=
        List.take_of_length_le (by decide +kernel)
      dsimp only [LiveWalk.frame]
      rw [hleft, hbytes]
      simp only [MessageLoop.frameLoop, MessageLoop.header, hheader]
      rfl
  · -- 39 bytes are read, and 23 were received
    have hcut := (hreads 0 _ rfl (by decide +kernel)).1
    revert hcut
    decide +kernel

end Bots

end Ndfex
