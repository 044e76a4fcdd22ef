import Ndfex.Bots.LiveClient
import Ndfex.Protocol.MdWire

/-!
# The live client, byte by byte

`MDClient::process` on what `recvfrom` gives it: the datagram lies at the beginning of the receive
buffer, and the loop of `process_message` goes through it by the lengths in the headers.

## Main definitions

* `Bots.LiveWalk`, `Bots.LiveWalk.body`, `Bots.LiveWalk.loop`: where the loop stands, its body, the loop
* `Bots.WireClient`, `Bots.WireClient.process`: the client with its buffer, and a datagram

## Main results

* `Bots.LiveWalk.loop_encodes`: the bytes of a datagram are taken as its messages
-/

namespace Ndfex

open Wire

namespace Bots

/-- Where the loop of `process_message` stands: `buf` as an offset, `len`, and the client. -/
structure LiveWalk where
  offset : ℕ
  left : UInt64
  live : LiveClient

namespace LiveWalk

/-- To the next message, as far as the header says. -/
def skip (w : LiveWalk) (length : UInt16) : LiveWalk :=
  { w with offset := w.offset + length.toNat, left := w.left - length.toUInt64 }

/-- The message of a type at the position, as its struct in the buffer says. -/
def read (buf : ℕ → UInt8) (w : LiveWalk) (t : MdMsgType) : Option MdBody :=
  MdBody.ofFields t (unpack buf (w.offset + mdHeaderSize) t.layout)

/-- The switch on a message, and whether the loop goes on behind it. -/
def take (w : LiveWalk) (header : MdHeader) (body : MdBody) : LiveWalk × Bool :=
  let v := { w with live := ⟨w.live.client.apply body, header.seqNum⟩ }
  if w.live.client.stops body then (v, false) else (v.skip header.length, true)

/-- The body of the loop, and whether the loop goes on. -/
def body (buf : ℕ → UInt8) (w : LiveWalk) : LiveWalk × Bool :=
  if w.left < UInt64.ofNat mdHeaderSize then (w, false)
  else
    let header := MdHeader.read buf w.offset
    if header.magicNumber ≠ magicNumber then (w, false)
    else if w.live.lastMdSeqNum + 1 < header.seqNum then (w, false)
    else if header.seqNum ≤ w.live.lastMdSeqNum then (w.skip header.length, true)
    else
      let v := { w with live := { w.live with lastMdSeqNum := header.seqNum } }
      match MdMsgType.ofByte header.msgType with
      -- a type that the feed does not have
      | none | some .snapshotInfo => (v, false)
      | some t =>
        if w.left < UInt64.ofNat t.size then (v, false)
        else
          match read buf w t with
          | none => (v, false)
          | some body => w.take header body

/-- The loop, for as many rounds as there is fuel. -/
def loop (buf : ℕ → UInt8) : ℕ → LiveWalk → Option LiveWalk
  | 0, _ => none
  | fuel + 1, w =>
    if w.left = 0 then some w
    else
      match body buf w with
      | (v, true) => loop buf fuel v
      | (v, false) => some v

end LiveWalk

/-- `MDClient` with its receive buffer. -/
structure WireClient where
  buf : ℕ → UInt8
  live : LiveClient

namespace WireClient

/-- A client that received nothing. -/
def start (buf : ℕ → UInt8) : WireClient := ⟨buf, MDClient.empty, 0⟩

/-- `sizeof(buf)`. -/
def bufSize : ℕ := 4096

/-- `MDClient::process`, when a datagram is there. -/
def process (fuel : ℕ) (c : WireClient) (datagram : List UInt8) : Option WireClient :=
  let buf := overwrite c.buf (datagram.take bufSize)
  (LiveWalk.loop buf fuel ⟨0, UInt64.ofNat (datagram.take bufSize).length, c.live⟩).map
    fun w => ⟨buf, w.live⟩

end WireClient

/-! ### One message -/

namespace LiveWalk

variable {buf : ℕ → UInt8} {w : LiveWalk}

theorem toNat_ofNat_length (m : MdBody) : (UInt64.ofNat m.length).toNat = m.length := by
  rw [UInt64.toNat_ofNat_of_lt']
  exact Nat.lt_of_le_of_lt m.length_le (by decide)

theorem skip_header (w : LiveWalk) (m : MdMessage) (timestamp : UInt64) :
    w.skip (m.header timestamp).length =
      { w with offset := w.offset + m.body.length, left := w.left - UInt64.ofNat m.body.length } := by
  have hlength := m.length_header timestamp
  rw [skip, hlength]
  congr 2
  rw [← UInt64.toNat_inj, UInt16.toNat_toUInt64, hlength, toNat_ofNat_length]

/-- **One round** looks at a message as `process_message` does. -/
theorem body_encode {m : MdMessage} {timestamp : UInt64}
    (hstarts : Starts buf w.offset (m.encode timestamp)) (hleft : m.body.length ≤ w.left.toNat) :
    body buf w =
      if w.live.lastMdSeqNum + 1 < m.seqNum then (w, false)
      else if m.seqNum ≤ w.live.lastMdSeqNum then (w.skip (m.header timestamp).length, true)
      else w.take (m.header timestamp) m.body := by
  obtain ⟨hheader, hbody⟩ := MdMessage.read_encode hstarts
  have hmagic : (m.header timestamp).magicNumber = magicNumber := rfl
  have hseq : (m.header timestamp).seqNum = m.seqNum := rfl
  have htype : MdMsgType.ofByte (m.header timestamp).msgType = some m.body.msgType :=
    MdMsgType.ofByte_byte _
  have hread : read buf w m.body.msgType = some m.body := hbody
  have hsize : ¬ w.left < UInt64.ofNat m.body.msgType.size := by
    rw [UInt64.lt_iff_toNat_lt, MdBody.size_msgType, toNat_ofNat_length]
    exact Nat.not_lt.mpr hleft
  have hroom : ¬ w.left < UInt64.ofNat mdHeaderSize := by
    have hheaderSize : (UInt64.ofNat mdHeaderSize).toNat = mdHeaderSize := rfl
    rw [UInt64.lt_iff_toNat_lt, hheaderSize]
    exact Nat.not_lt.mpr (Nat.le_trans m.body.length_ge hleft)
  unfold body
  rw [if_neg hroom, hheader]
  dsimp only
  rw [if_neg (not_not.mpr hmagic), hseq, htype]
  refine if_congr Iff.rfl rfl (if_congr Iff.rfl rfl ?_)
  cases ht : m.body.msgType with
  | snapshotInfo => cases hb : m.body <;> simp [hb, MdBody.msgType] at ht
  | heartbeat | newOrder | deleteOrder | modifyOrder | trade | tradeSummary =>
    rw [ht] at hread hsize
    dsimp only
    rw [if_neg hsize, hread]

/-- **The bytes of a datagram** are taken as its messages. -/
theorem loop_encodes {ms : List MdMessage} {bs : List UInt8} (h : MdMessage.Encodes ms bs)
    {fuel : ℕ} (hfuel : ms.length < fuel) {w : LiveWalk} (hstarts : Starts buf w.offset bs)
    (hleft : w.left.toNat = bs.length) :
    ∃ v, loop buf fuel w = some v ∧ v.live = w.live.processMessage ms := by
  induction h generalizing fuel w with
  | nil =>
    obtain ⟨fuel, rfl⟩ : ∃ n, fuel = n + 1 := ⟨fuel - 1, by omega⟩
    have hzero : w.left = 0 := UInt64.toNat_inj.mp hleft
    exact ⟨w, by rw [loop, if_pos hzero], rfl⟩
  | @cons ms bs m timestamp rest ih =>
    obtain ⟨fuel, rfl⟩ : ∃ n, fuel = n + 1 := ⟨fuel - 1, by omega⟩
    rw [starts_append, MdMessage.length_encode] at hstarts
    rw [List.length_append, MdMessage.length_encode] at hleft
    have hge := m.body.length_ge
    have hmore : w.left ≠ 0 := by
      intro hzero
      rw [hzero] at hleft
      have hsize : 0 < mdHeaderSize := by decide
      exact absurd hleft (by simp; omega)
    have hbody := body_encode hstarts.1 (by omega)
    have hrest : (w.left - UInt64.ofNat m.body.length).toNat = bs.length := by
      rw [UInt64.toNat_sub_of_le, toNat_ofNat_length, hleft, Nat.add_sub_cancel_left]
      rw [UInt64.le_iff_toNat_le, toNat_ofNat_length, hleft]
      exact Nat.le_add_right _ _
    -- what is behind the message is taken from whatever client there is then
    have hnext : ∀ live : LiveClient, ∃ v, loop buf fuel
        ({ w with live }.skip (m.header timestamp).length) = some v ∧
          v.live = live.processMessage ms := by
      intro live
      rw [skip_header]
      exact @ih fuel (Nat.lt_of_succ_lt_succ hfuel)
        ⟨w.offset + m.body.length, w.left - UInt64.ofNat m.body.length, live⟩ hstarts.2 hrest
    rw [loop, if_neg hmore, hbody]
    unfold LiveClient.processMessage take
    split_ifs
    · exact ⟨w, rfl, rfl⟩
    · exact hnext w.live
    · exact ⟨_, rfl, rfl⟩
    · exact hnext ⟨w.live.client.apply m.body, m.seqNum⟩

end LiveWalk

namespace WireClient

/-- **A datagram of encoded messages** is taken as these messages. -/
theorem process_encodes {ms : List MdMessage} {datagram : List UInt8}
    (h : MdMessage.Encodes ms datagram) (hsize : datagram.length ≤ bufSize) {fuel : ℕ}
    (hfuel : ms.length < fuel) (c : WireClient) :
    ∃ c', c.process fuel datagram = some c' ∧ c'.live = c.live.processMessage ms := by
  have hlength : (UInt64.ofNat datagram.length).toNat = datagram.length := by
    rw [UInt64.toNat_ofNat_of_lt']
    exact Nat.lt_of_le_of_lt hsize (by decide)
  have hloop := @LiveWalk.loop_encodes _ _ _ h fuel hfuel
    ⟨0, UInt64.ofNat datagram.length, c.live⟩ (starts_overwrite c.buf datagram) hlength
  obtain ⟨v, hv, hlive⟩ := hloop
  refine ⟨⟨overwrite c.buf datagram, v.live⟩, ?_, hlive⟩
  simp only [process, List.take_of_length_le hsize, hv, Option.map_some]

end WireClient

end Bots

end Ndfex
