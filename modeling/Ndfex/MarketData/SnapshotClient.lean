import Ndfex.MarketData.SnapshotWriter
import Ndfex.MatchingEngine.WirePublisher

/-!
# The reader of the feed

`SnapshotClient::process`: a datagram lies at the beginning of a receive buffer, and the loop goes
through it from message to message, by the lengths in the headers. What the buffer held before lies
behind the datagram.

## Main definitions

* `SnapshotClient`, `SnapshotClient.process`: the client, and a datagram that it receives
* `Walk`, `Walk.body`, `Walk.loop`: where the loop stands, its body, and the loop

## Main results

* `Walk.loop_encodes`: the loop reads the messages of a datagram
* `feed_roundtrip`: what the publisher is called with goes on the queue
-/

namespace Ndfex

open Wire

/-- `SnapshotClient`: the receive buffer, the last sequence number, and what it put on the queue. -/
structure SnapshotClient where
  buf : ℕ → UInt8
  lastSeqNum : UInt32
  queue : List MdPayload

/-- Where the loop stands: `buf_ptr` as an offset, `buf_len`, and the members that it writes. -/
structure Walk where
  offset : ℕ
  left : UInt64
  lastSeqNum : UInt32
  queue : List MdPayload

namespace Walk

/-- To the next message, as far as the header says. -/
def skip (w : Walk) (length : UInt16) : Walk :=
  { w with offset := w.offset + length.toNat, left := w.left - length.toUInt64 }

/-- `queue.emplace`, where there is something to put on it. -/
def emplace (w : Walk) (payload : Option MdPayload) : Walk :=
  { w with queue := w.queue ++ payload.toList }

/-- The message of a type at the position, as its struct in the buffer says. -/
def read (buf : ℕ → UInt8) (w : Walk) (t : MdMsgType) (seqNum : UInt32) : Option MdPayload :=
  (MdBody.ofFields t (unpack buf (w.offset + mdHeaderSize) t.layout)).bind fun body =>
    SnapshotClient.payload ⟨seqNum, body⟩

/-- The body of the loop, and whether the loop goes on. -/
def body (buf : ℕ → UInt8) (w : Walk) : Walk × Bool :=
  let header := MdHeader.read buf w.offset
  if header.magicNumber ≠ magicNumber then (w, false)
  else
    -- a number out of order is only logged
    let v := { w with lastSeqNum := header.seqNum }
    match MdMsgType.ofByte header.msgType with
    | some .heartbeat =>
      ((v.emplace (v.read buf .heartbeat header.seqNum)).skip header.length, true)
    -- so is a type that the feed does not have
    | none | some .snapshotInfo => (v.skip header.length, true)
    | some t =>
      if v.left < UInt64.ofNat t.size then (v, false)
      else ((v.emplace (v.read buf t header.seqNum)).skip header.length, true)

/-- The loop, for as many rounds as there is fuel. -/
def loop (buf : ℕ → UInt8) : ℕ → Walk → Option Walk
  | 0, _ => none
  | fuel + 1, w =>
    if w.left = 0 then some w
    else
      match body buf w with
      | (v, true) => loop buf fuel v
      | (v, false) => some v

end Walk

namespace SnapshotClient

/-- A client that received nothing. -/
def start (buf : ℕ → UInt8) : SnapshotClient := ⟨buf, 0, []⟩

/-- `sizeof(buf)`. -/
def bufSize : ℕ := 4096

/-- The receive buffer after a datagram. -/
def receive (buf : ℕ → UInt8) (datagram : List UInt8) : ℕ → UInt8 :=
  overwrite buf (datagram.take bufSize)

/-- `SnapshotClient::process`, when a datagram is there. -/
def process (fuel : ℕ) (c : SnapshotClient) (datagram : List UInt8) : Option SnapshotClient :=
  let buf := receive c.buf datagram
  (Walk.loop buf fuel ⟨0, UInt64.ofNat (datagram.take bufSize).length, c.lastSeqNum, c.queue⟩).map
    fun w => ⟨buf, w.lastSeqNum, w.queue⟩

theorem starts_receive {buf : ℕ → UInt8} {datagram : List UInt8} (h : datagram.length ≤ bufSize) :
    Starts (receive buf datagram) 0 datagram := by
  rw [receive, List.take_of_length_le h]
  exact starts_overwrite buf datagram

end SnapshotClient

/-! ## One message -/

namespace Walk

variable {buf : ℕ → UInt8}

theorem toNat_ofNat_size (t : MdMsgType) : (UInt64.ofNat t.size).toNat = t.size := by
  cases t <;> rfl

/-- **One round** takes a message. -/
theorem body_encode {w : Walk} {msg : MdMessage} {timestamp : UInt64}
    (hstarts : Starts buf w.offset (msg.encode timestamp))
    (hleft : msg.body.length ≤ w.left.toNat) :
    body buf w =
      (⟨w.offset + msg.body.length, w.left - UInt64.ofNat msg.body.length, msg.seqNum,
        w.queue ++ (SnapshotClient.payload msg).toList⟩, true) := by
  obtain ⟨hheader, hbody⟩ := MdMessage.read_encode hstarts
  have hlength := msg.length_header timestamp
  have hsize : ¬ w.left < UInt64.ofNat msg.body.msgType.size := by
    rw [UInt64.lt_iff_toNat_lt, toNat_ofNat_size, MdBody.size_msgType]
    exact Nat.not_lt.mpr hleft
  have hread : ∀ v : Walk, v.offset = w.offset →
      v.read buf msg.body.msgType msg.seqNum = SnapshotClient.payload msg := by
    intro v hv
    rw [read, hv, hbody]
    rfl
  have hskip : ∀ v : Walk, v.skip (msg.header timestamp).length =
      { v with
        offset := v.offset + msg.body.length
        left := v.left - UInt64.ofNat msg.body.length } := by
    intro v
    rw [skip, hlength]
    congr 2
    rw [← UInt64.toNat_inj, UInt16.toNat_toUInt64, hlength]
    cases msg.body <;> rfl
  have hmagic : (msg.header timestamp).magicNumber = magicNumber := rfl
  have htype : (msg.header timestamp).msgType = msg.body.msgType.byte := rfl
  have hseq : (msg.header timestamp).seqNum = msg.seqNum := rfl
  have htake := hread { w with lastSeqNum := msg.seqNum } rfl
  unfold body
  simp only [hheader, hmagic, htype, hseq, MdMsgType.ofByte_byte, ne_eq, not_true_eq_false,
    if_false]
  cases ht : msg.body.msgType with
  | snapshotInfo => cases hb : msg.body <;> simp [hb, MdBody.msgType] at ht
  | heartbeat | newOrder | deleteOrder | modifyOrder | trade | tradeSummary =>
    rw [ht] at htake hsize
    simp only [htake, hsize, if_false, hskip, emplace]

/-- **The loop reads the messages** one after the other, and ends behind the last. -/
theorem loop_encodes {msgs : List MdMessage} {bs : List UInt8} (h : MdMessage.Encodes msgs bs)
    {fuel : ℕ} (hfuel : msgs.length < fuel) {w : Walk} (hstarts : Starts buf w.offset bs)
    (hleft : w.left.toNat = bs.length) :
    ∃ v, loop buf fuel w = some v ∧ v.queue = w.queue ++ msgs.filterMap SnapshotClient.payload := by
  induction h generalizing fuel w with
  | nil =>
    obtain ⟨fuel, rfl⟩ : ∃ n, fuel = n + 1 := ⟨fuel - 1, by omega⟩
    have hzero : w.left = 0 := UInt64.toNat_inj.mp hleft
    exact ⟨w, by rw [loop, if_pos hzero], by simp⟩
  | @cons msgs bs msg timestamp rest ih =>
    obtain ⟨fuel, rfl⟩ : ∃ n, fuel = n + 1 := ⟨fuel - 1, by omega⟩
    rw [starts_append, MdMessage.length_encode] at hstarts
    rw [List.length_append, MdMessage.length_encode] at hleft
    have hpos := MarketDataPublisher.length_pos msg.body
    have hmore : w.left ≠ 0 := by
      intro hzero
      rw [hzero] at hleft
      exact absurd hleft (by simp; omega)
    have hbody := body_encode hstarts.1 (by omega)
    have hrest : (w.left - UInt64.ofNat msg.body.length).toNat = bs.length := by
      have hle := msg.body.length_le
      have htoNat : (UInt64.ofNat msg.body.length).toNat = msg.body.length := by
        rw [UInt64.toNat_ofNat_of_lt']
        exact Nat.lt_of_le_of_lt hle (by decide)
      rw [UInt64.toNat_sub_of_le, htoNat, hleft, Nat.add_sub_cancel_left]
      rw [UInt64.le_iff_toNat_le, htoNat, hleft]
      exact Nat.le_add_right _ _
    let next : Walk := ⟨w.offset + msg.body.length, w.left - UInt64.ofNat msg.body.length,
      msg.seqNum, w.queue ++ (SnapshotClient.payload msg).toList⟩
    obtain ⟨v, hv, hqueue⟩ := @ih fuel (Nat.lt_of_succ_lt_succ hfuel) next hstarts.2 hrest
    refine ⟨v, ?_, ?_⟩
    · rw [loop, if_neg hmore, hbody]
      exact hv
    · have hnext : next.queue = w.queue ++ (SnapshotClient.payload msg).toList := rfl
      rw [hqueue, hnext, List.append_assoc]
      cases hp : SnapshotClient.payload msg <;> simp [hp]

end Walk

/-! ## The feed -/

/-- The message that a payload was made of. -/
def MdPayload.message (p : MdPayload) : Option MdMessage :=
  match p.msgType with
  | .heartbeat => some ⟨p.seqNum, .heartbeat⟩
  | .newOrder =>
    some ⟨p.seqNum, .newOrder p.orderId p.symbol p.side p.quantity p.price p.flags⟩
  | .deleteOrder => some ⟨p.seqNum, .deleteOrder p.orderId⟩
  | .modifyOrder => some ⟨p.seqNum, .modifyOrder p.orderId p.side p.quantity p.price⟩
  | .trade => some ⟨p.seqNum, .trade p.orderId p.quantity p.price⟩
  | .tradeSummary | .snapshotInfo => none

/-- The message is a summary of trades, which the client does not use. -/
def MdMessage.IsSummary (m : MdMessage) : Prop := m.body.msgType = .tradeSummary

instance : DecidablePred MdMessage.IsSummary := fun m =>
  inferInstanceAs (Decidable (m.body.msgType = _))

namespace SnapshotClient

/-- A payload keeps every field of its message. -/
theorem bind_message (m : MdMessage) :
    (payload m).bind MdPayload.message = if m.IsSummary then none else some m := by
  obtain ⟨seqNum, body⟩ := m
  cases body <;> rfl

theorem filterMap_message (msgs : List MdMessage) :
    (msgs.filterMap payload).filterMap MdPayload.message = msgs.filter fun m => ¬ m.IsSummary := by
  rw [List.filterMap_filterMap]
  induction msgs with
  | nil => rfl
  | cons m msgs ih =>
    rw [List.filterMap_cons, bind_message, List.filter_cons]
    by_cases hm : m.IsSummary <;> simp [hm, ih]

/-- The client takes a datagram of whole messages. -/
theorem process_encodes {msgs : List MdMessage} {datagram : List UInt8}
    (h : MdMessage.Encodes msgs datagram) (hlength : datagram.length ≤ bufSize) {fuel : ℕ}
    (hfuel : msgs.length < fuel) (c : SnapshotClient) :
    ∃ c', c.process fuel datagram = some c' ∧ c'.queue = c.queue ++ msgs.filterMap payload := by
  have hleft : (UInt64.ofNat (datagram.take bufSize).length).toNat = datagram.length := by
    rw [List.take_of_length_le hlength, UInt64.toNat_ofNat_of_lt']
    exact Nat.lt_of_le_of_lt hlength (by decide)
  let w : Walk := ⟨0, UInt64.ofNat (datagram.take bufSize).length, c.lastSeqNum, c.queue⟩
  have hstarts : Starts (receive c.buf datagram) w.offset datagram := starts_receive hlength
  obtain ⟨v, hv, hqueue⟩ := Walk.loop_encodes h hfuel hstarts hleft
  refine ⟨⟨receive c.buf datagram, v.lastSeqNum, v.queue⟩, ?_, hqueue⟩
  exact congrArg (Option.map fun w : Walk => SnapshotClient.mk _ w.lastSeqNum w.queue) hv

/-- The messages of a datagram are as many as its headers. -/
theorem length_le_of_sum (msgs : List MdMessage) :
    mdHeaderSize * msgs.length ≤ (msgs.map fun m => m.body.length).sum := by
  induction msgs with
  | nil => exact Nat.le_refl _
  | cons m msgs ih =>
    have hm := m.body.length_ge
    rw [List.length_cons, List.map_cons, List.sum_cons, Nat.mul_succ]
    omega

/-- The client takes the datagrams of a publisher. -/
theorem foldlM_process {packets : List (List MdMessage)} {datagrams : List (List UInt8)}
    (h : List.Forall₂ MdMessage.Encodes packets datagrams)
    (hfits : ∀ d ∈ packets, (d.map fun m => m.body.length).sum ≤ MarketDataPublisher.bufferCapacity)
    {fuel : ℕ} (hfuel : 64 ≤ fuel) (c : SnapshotClient) :
    ∃ c', datagrams.foldlM (process fuel) c = some c' ∧
      c'.queue = c.queue ++ packets.flatten.filterMap payload := by
  induction h generalizing c with
  | nil => exact ⟨c, rfl, by simp⟩
  | @cons msgs datagram packets datagrams hencodes _ ih =>
    have hmsgs := hfits msgs List.mem_cons_self
    have hlength : datagram.length ≤ MarketDataPublisher.bufferCapacity := by
      rw [MdMessage.Encodes.length hencodes]
      exact hmsgs
    have hcount : msgs.length < fuel := by
      have hsum := length_le_of_sum msgs
      simp only [mdHeaderSize, MarketDataPublisher.bufferCapacity] at hsum hmsgs
      omega
    obtain ⟨c₁, hc₁, hqueue₁⟩ := process_encodes hencodes
      (Nat.le_trans hlength (by decide)) hcount c
    obtain ⟨c₂, hc₂, hqueue₂⟩ := ih (fun d hd => hfits d (List.mem_cons_of_mem _ hd)) c₁
    refine ⟨c₂, ?_, ?_⟩
    · rw [List.foldlM_cons, hc₁]
      exact hc₂
    · rw [hqueue₂, hqueue₁, List.flatten_cons, List.filterMap_append, List.append_assoc]

end SnapshotClient

/-- **What the publisher is called with goes on the queue.** The datagrams hold whole messages, which
are numbered from 0 on; the buffer is empty after the calls, and the client reads every message that it
uses. -/
theorem feed_roundtrip (clock : ℕ → UInt64) (buf : ℕ → UInt8) (calls : List PublishCall) :
    let w := calls.foldl (·.after clock ·) WirePublisher.empty
    let messages := numberedFrom 0 (published [] calls)
    (∃ packets, packets.flatten = messages ∧ List.Forall₂ MdMessage.Encodes packets w.datagrams) ∧
      (∀ datagram ∈ w.datagrams, datagram.length ≤ 1460) ∧
      w.buffer = [] ∧
      ∀ fuel ≥ 64, ∃ c,
        w.datagrams.foldlM (SnapshotClient.process fuel) (SnapshotClient.start buf) = some c ∧
          c.queue = messages.filterMap SnapshotClient.payload ∧
          c.queue.filterMap MdPayload.message = messages.filter fun m => ¬ m.IsSummary := by
  intro w messages
  have hrefines : w.Refines (calls.foldl (·.after ·) MarketDataPublisher.empty) :=
    WirePublisher.refines_empty.foldl clock calls
  have hframed := MarketDataPublisher.framed_empty.foldl calls
  have hbuffer : (calls.foldl (·.after ·) MarketDataPublisher.empty).buffer = [] :=
    MarketDataPublisher.buffer_foldl rfl calls
  have hbodies : (calls.foldl (·.after ·) MarketDataPublisher.empty).bodies = published [] calls :=
    MarketDataPublisher.bodies_afterCalls calls rfl
  have hflatten : (calls.foldl (·.after ·) MarketDataPublisher.empty).datagrams.flatten =
      messages := by
    have hnumbered := hframed.numbered
    rwa [MarketDataPublisher.messages, hbuffer, List.append_nil, hbodies] at hnumbered
  refine ⟨⟨_, hflatten, hrefines.datagrams⟩, ?_, ?_, fun fuel hfuel => ?_⟩
  · intro datagram hdatagram
    obtain ⟨hcount, hencodes⟩ := List.forall₂_iff_get.mp hrefines.datagrams
    obtain ⟨i, hi, rfl⟩ := List.mem_iff_getElem.mp hdatagram
    rw [← List.get_eq_getElem (i := ⟨i, hi⟩), MdMessage.Encodes.length (hencodes i (hcount ▸ hi) hi)]
    exact hframed.fits _ (List.get_mem _ _)
  · have hlength := hrefines.length_buffer
    rw [MarketDataPublisher.bufferSize, hbuffer] at hlength
    exact List.eq_nil_of_length_eq_zero hlength
  · obtain ⟨c, hc, hqueue⟩ := SnapshotClient.foldlM_process hrefines.datagrams hframed.fits hfuel
      (SnapshotClient.start buf)
    rw [hflatten] at hqueue
    have hqueue' : c.queue = messages.filterMap SnapshotClient.payload := hqueue
    refine ⟨c, hc, hqueue', ?_⟩
    rw [hqueue', SnapshotClient.filterMap_message]

end Ndfex
