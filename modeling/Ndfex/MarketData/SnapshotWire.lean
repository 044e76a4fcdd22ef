import Mathlib.Data.List.Forall2
import Ndfex.MarketData.SnapshotWriter
import Ndfex.Protocol.MdWire

/-!
# The bytes of a snapshot

The snapshots of a round as `SnapshotWriter` packs them: the info and the orders of a symbol one behind
the other, in datagrams no longer than the buffer. In bytes the writer does what it does in messages.

## Main definitions

* `SnapshotMessage.encode`, `SnapshotMessage.Encodes`: the bytes of the messages
* `SnapshotSender`, `SnapshotSender.writeRound`: the buffer of the writer, and a round
* `SnapshotWriter.writeRound`: the round in messages

## Main results

* `SnapshotMessage.read_encode`: a message is read as it was written
* `SnapshotSender.Refines.writeRound`: the bytes of a round are those of its messages
* `SnapshotSender.exists_packets`: the datagrams of a round
-/

namespace Ndfex

open Wire

namespace SnapshotMessage

/-- The message type of a snapshot message. -/
def msgType : SnapshotMessage → MdMsgType
  | info .. => .snapshotInfo
  | newOrder _ => .newOrder

/-- The fields of a snapshot message behind its header. -/
def fields : SnapshotMessage → List ℕ
  | info symbol bidCount askCount lastMdSeqNum =>
    [symbol.toNat, bidCount.toNat, askCount.toNat, lastMdSeqNum.toNat]
  | newOrder o =>
    [o.orderId.toNat, o.symbol.toNat, o.side.byte.toNat, o.quantity.toNat, o.price.toUInt32.toNat,
      o.flags.toNat]

/-- The snapshot message of a type that holds some fields. -/
def ofFields : MdMsgType → List ℕ → Option SnapshotMessage
  | .snapshotInfo, [symbol, bidCount, askCount, lastMdSeqNum] =>
    some (info (UInt32.ofNat symbol) (UInt32.ofNat bidCount) (UInt32.ofNat askCount)
      (UInt32.ofNat lastMdSeqNum))
  | .newOrder, [orderId, symbol, side, quantity, price, flags] =>
    some (newOrder ⟨UInt64.ofNat orderId, UInt32.ofNat symbol, MdBody.sideOf side,
      UInt32.ofNat quantity, MdBody.priceOf price, UInt8.ofNat flags⟩)
  | _, _ => none

theorem size_msgType (m : SnapshotMessage) : m.msgType.size = m.length := by
  cases m <;> rfl

/-- **The fields hold the message.** -/
theorem ofFields_fields (m : SnapshotMessage) : ofFields m.msgType m.fields = some m := by
  cases m with
  | info => simp [ofFields, msgType, fields]
  | newOrder o => simp [ofFields, msgType, fields, MdBody.priceOf_toUInt32, MdBody.sideOf_byte]

theorem fits (m : SnapshotMessage) : Fits m.msgType.layout m.fields := by
  cases m with
  | info symbol bidCount askCount lastMdSeqNum =>
    exact ⟨symbol.toNat_lt, bidCount.toNat_lt, askCount.toNat_lt, lastMdSeqNum.toNat_lt, trivial⟩
  | newOrder o =>
    exact ⟨o.orderId.toNat_lt, o.symbol.toNat_lt, o.side.byte.toNat_lt, o.quantity.toNat_lt,
      o.price.toUInt32.toNat_lt, o.flags.toNat_lt, trivial⟩

/-- The header that the writer fills in. -/
def header (m : SnapshotMessage) (timestamp : UInt64) : MdHeader :=
  ⟨snapshotMagicNumber, UInt16.ofNat m.length, 0, timestamp, m.msgType.byte⟩

/-- The bytes of a snapshot message. -/
def encode (m : SnapshotMessage) (timestamp : UInt64) : List UInt8 :=
  encodeStruct (m.header timestamp) m.msgType m.fields

theorem length_encode (m : SnapshotMessage) (timestamp : UInt64) :
    (m.encode timestamp).length = m.length := by
  rw [encode, length_encodeStruct _ m.fits, size_msgType]

/-- **A snapshot message is read as it was written.** -/
theorem read_encode {buf : ℕ → UInt8} {address : ℕ} {m : SnapshotMessage} {timestamp : UInt64}
    (hm : Starts buf address (m.encode timestamp)) :
    MdHeader.read buf address = m.header timestamp ∧
      ofFields m.msgType (unpack buf (address + mdHeaderSize) m.msgType.layout) = some m := by
  obtain ⟨hheader, hfields⟩ := read_of_starts m.fits hm
  exact ⟨hheader, by rw [hfields, ofFields_fields]⟩

theorem length_header (m : SnapshotMessage) (timestamp : UInt64) :
    (m.header timestamp).length.toNat = m.length := by
  cases m <;> rfl

/-- Bytes that encode some messages one behind the other, with any timestamps. -/
abbrev Encodes : List SnapshotMessage → List UInt8 → Prop := Wire.Encodes encode

theorem Encodes.length {ms : List SnapshotMessage} {bs : List UInt8} (h : Encodes ms bs) :
    bs.length = (ms.map SnapshotMessage.length).sum :=
  h.length_eq length_encode

end SnapshotMessage

theorem rel_getElem? {α β : Type} {R : α → β → Prop} {l : List α} {l' : List β}
    (h : List.Forall₂ R l l') (k : ℕ) : Option.Rel R l[k]? l'[k]? := by
  induction h generalizing k with
  | nil => exact .none
  | cons hab _ ih =>
    cases k with
    | zero => exact .some hab
    | succ k => exact ih k

/-- The send buffer of `SnapshotWriter`, its datagrams, and how often `nanotime` was called. -/
structure SnapshotSender where
  buffer : List UInt8
  datagrams : List (List UInt8)
  ticks : ℕ

namespace SnapshotSender

/-- Before the first round. -/
def empty : SnapshotSender := ⟨[], [], 0⟩

/-- `SnapshotWriter::send`. -/
def send (s : SnapshotSender) : SnapshotSender :=
  { s with datagrams := s.datagrams ++ [s.buffer], buffer := [] }

variable (clock : ℕ → UInt64)

/-- `SnapshotWriter::write_order` and `write_snapshot_info`. -/
def write (s : SnapshotSender) (m : SnapshotMessage) : SnapshotSender :=
  let s := if s.buffer.length + m.length > SnapshotWriter.bufferCapacity then s.send else s
  { s with buffer := s.buffer ++ m.encode (clock s.ticks), ticks := s.ticks + 1 }

/-- The body of the loop of a round. -/
def writeSnapshot (s : SnapshotSender) (x : Snapshot) : SnapshotSender :=
  (x.messages.foldl (write clock) s).send

/-- The loop of a round. -/
def writeRound (s : SnapshotSender) (xs : List Snapshot) : SnapshotSender :=
  xs.foldl (writeSnapshot clock) s

end SnapshotSender

/-! ## A round -/

namespace SnapshotWriter

/-- The snapshots of a round, one for each symbol. -/
def snapshots (w : SnapshotWriter) (c : RoundChoices) : List Snapshot :=
  (c.traverse w.symbols).map (w.sort c).snapshotOf

/-- A round: the orders are sorted, and then written symbol by symbol. -/
def writeRound (w : SnapshotWriter) (c : RoundChoices) : SnapshotWriter :=
  (c.traverse w.symbols).foldl writeSnapshot (w.sort c)

theorem snapshotOf_writeSnapshot (w : SnapshotWriter) (symbol s : UInt32) :
    (w.writeSnapshot symbol).snapshotOf s = w.snapshotOf s := by
  have hsame := sameState_writeSnapshot w symbol
  rw [snapshotOf, snapshotOf, hsame.1, hsame.3, hsame.4]

/-- Writing the snapshots of some symbols. -/
theorem datagrams_foldl_writeSnapshot (symbols : List UInt32) {w : SnapshotWriter}
    (hw : w.buffer = []) :
    ∃ ps, (symbols.foldl writeSnapshot w).datagrams = w.datagrams ++ ps ∧
      ps.flatten = (symbols.map w.snapshotOf).flatMap Snapshot.messages ∧ ∀ p ∈ ps, p ≠ [] := by
  induction symbols generalizing w with
  | nil => exact ⟨[], by simp⟩
  | cons symbol symbols ih =>
    obtain ⟨ps, hdatagrams, hflatten, hne⟩ := datagrams_writeSnapshot hw symbol
    obtain ⟨qs, hdatagrams', hflatten', hne'⟩ := ih (buffer_writeSnapshot w symbol)
    have hsame : (w.writeSnapshot symbol).snapshotOf = w.snapshotOf :=
      funext (snapshotOf_writeSnapshot w symbol)
    refine ⟨ps ++ qs, ?_, ?_, fun p hp => ?_⟩
    · rw [List.foldl_cons, hdatagrams', hdatagrams, List.append_assoc]
    · rw [List.flatten_append, hflatten, hflatten', hsame, List.map_cons, List.flatMap_cons]
    · exact (List.mem_append.mp hp).elim (hne p) (hne' p)

/-- **The datagrams of a round** hold the messages of its snapshots, in order. -/
theorem datagrams_writeRound {w : SnapshotWriter} (hw : w.buffer = []) (c : RoundChoices) :
    ∃ ps, (w.writeRound c).datagrams = w.datagrams ++ ps ∧
      ps.flatten = (w.snapshots c).flatMap Snapshot.messages ∧ ∀ p ∈ ps, p ≠ [] := by
  have hsort : (w.sort c).buffer = [] := hw
  exact datagrams_foldl_writeSnapshot (c.traverse w.symbols) hsort

end SnapshotWriter

/-! ## The bytes of a round -/

namespace SnapshotSender

/-- The bytes in the buffer and in the datagrams are those of the writer's messages. -/
structure Refines (s : SnapshotSender) (w : SnapshotWriter) : Prop where
  buffer : SnapshotMessage.Encodes w.buffer s.buffer
  datagrams : List.Forall₂ SnapshotMessage.Encodes w.datagrams s.datagrams
  fits : ∀ d ∈ w.datagrams, (d.map SnapshotMessage.length).sum ≤ SnapshotWriter.bufferCapacity
  bufferSize_le : w.bufferSize ≤ SnapshotWriter.bufferCapacity

namespace Refines

variable {s : SnapshotSender} {w : SnapshotWriter}

theorem send (h : s.Refines w) : s.send.Refines w.send := by
  refine ⟨.nil, List.rel_append h.datagrams (.cons h.buffer .nil), fun d hd => ?_, Nat.zero_le _⟩
  rcases List.mem_append.mp hd with hd | hd
  · exact h.fits d hd
  · rw [List.mem_singleton.mp hd]
    exact h.bufferSize_le

variable (clock : ℕ → UInt64)

/-- A message that the buffer has room for. -/
theorem push (h : s.Refines w) {m : SnapshotMessage}
    (hroom : w.bufferSize + m.length ≤ SnapshotWriter.bufferCapacity) :
    Refines { s with buffer := s.buffer ++ m.encode (clock s.ticks), ticks := s.ticks + 1 }
      { w with buffer := w.buffer ++ [m] } := by
  refine ⟨h.buffer.snoc m _, h.datagrams, h.fits, ?_⟩
  rw [SnapshotWriter.bufferSize, List.map_append, List.sum_append]
  simpa [SnapshotWriter.bufferSize] using hroom

theorem write (h : s.Refines w) (m : SnapshotMessage) : (s.write clock m).Refines (w.write m) := by
  have hlength : s.buffer.length = w.bufferSize := SnapshotMessage.Encodes.length h.buffer
  unfold SnapshotSender.write SnapshotWriter.write
  rw [hlength]
  split_ifs with hfull
  · refine h.send.push clock ?_
    have hempty : w.send.bufferSize = 0 := rfl
    rw [hempty, Nat.zero_add]
    exact SnapshotWriter.length_le_capacity m
  · exact h.push clock (Nat.le_of_not_lt hfull)

theorem foldl_write (h : s.Refines w) (ms : List SnapshotMessage) :
    (ms.foldl (SnapshotSender.write clock) s).Refines (ms.foldl SnapshotWriter.write w) := by
  induction ms generalizing s w with
  | nil => exact h
  | cons m ms ih => exact ih (h.write clock m)

theorem writeSnapshot (h : s.Refines w) (symbol : UInt32) :
    (s.writeSnapshot clock (w.snapshotOf symbol)).Refines (w.writeSnapshot symbol) :=
  (h.foldl_write clock _).send

theorem foldl_writeSnapshot (h : s.Refines w) (symbols : List UInt32) :
    (s.writeRound clock (symbols.map w.snapshotOf)).Refines
      (symbols.foldl SnapshotWriter.writeSnapshot w) := by
  induction symbols generalizing s w with
  | nil => exact h
  | cons symbol symbols ih =>
    have hsame : (w.writeSnapshot symbol).snapshotOf = w.snapshotOf :=
      funext (SnapshotWriter.snapshotOf_writeSnapshot w symbol)
    have hrest := ih (h.writeSnapshot clock symbol)
    rw [hsame] at hrest
    exact hrest

/-- **The bytes of a round** are those of its messages. -/
theorem writeRound (h : s.Refines w) (c : RoundChoices) :
    (s.writeRound clock (w.snapshots c)).Refines (w.writeRound c) := by
  have hsort : s.Refines (w.sort c) := ⟨h.buffer, h.datagrams, h.fits, h.bufferSize_le⟩
  exact hsort.foldl_writeSnapshot clock (c.traverse w.symbols)

end Refines

/-- **The datagrams of a round**: whole messages, none of them empty or longer than the buffer. -/
theorem exists_packets (clock : ℕ → UInt64) (w : SnapshotWriter) (c : RoundChoices) :
    ∃ packets, List.Forall₂ SnapshotMessage.Encodes packets
        (empty.writeRound clock (w.snapshots c)).datagrams ∧
      packets.flatten = (w.snapshots c).flatMap Snapshot.messages ∧
      (∀ packet ∈ packets, packet ≠ []) ∧
      ∀ datagram ∈ (empty.writeRound clock (w.snapshots c)).datagrams,
        datagram.length ≤ SnapshotWriter.bufferCapacity := by
  let v : SnapshotWriter := { w with buffer := [], datagrams := [] }
  have hstart : empty.Refines v :=
    ⟨.nil, .nil, fun _ h => absurd h List.not_mem_nil, Nat.zero_le _⟩
  have hrefines := hstart.writeRound clock c
  have hv : v.buffer = [] := rfl
  obtain ⟨packets, hpackets, hflatten, hne⟩ := SnapshotWriter.datagrams_writeRound hv c
  have hdatagrams : (v.writeRound c).datagrams = packets := hpackets
  have hencodes : List.Forall₂ SnapshotMessage.Encodes packets
      (empty.writeRound clock (w.snapshots c)).datagrams := hdatagrams ▸ hrefines.datagrams
  refine ⟨packets, hencodes, hflatten, hne, fun datagram hdatagram => ?_⟩
  obtain ⟨i, hi⟩ := List.mem_iff_getElem?.mp hdatagram
  have hrel := rel_getElem? hencodes i
  rw [hi] at hrel
  generalize hpacket : packets[i]? = packet at hrel
  cases hrel with
  | some hone =>
    rw [SnapshotMessage.Encodes.length hone]
    exact hrefines.fits _ (hdatagrams ▸ List.mem_of_getElem? hpacket)

end SnapshotSender

end Ndfex
