import Ndfex.Protocol.MarketData
import Ndfex.Wire.Packed

/-!
# The market-data protocol, byte by byte

The packed structs of the feed and of the snapshots: a header, and the fields of the message behind
it. A reader takes the header first, and with it which struct follows.

## Main definitions

* `mdHeaderLayout`, `MdMsgType.layout`: the widths of the fields
* `MdHeader`, `MdHeader.read`: the header at an address
* `MdBody.ofFields`: the message that the fields of a struct hold
* `MdMessage.encode`, `MdMessage.Encodes`: the bytes of a message, and of a list of messages

## Main results

* `MdMessage.read_of_starts`: a message is read as it was written
-/

namespace Ndfex

open Wire

/-- `md::MAGIC_NUMBER`: the bytes of `GOIRISH!`. -/
def magicNumber : UInt64 := 0x2148534952494F47

/-- `md::SNAPSHOT_MAGIC_NUMBER`: the bytes of `SNAPSHOT`. -/
def snapshotMagicNumber : UInt64 := 0x544F485350414E53

/-- The widths of the fields of `md_header`. -/
def mdHeaderLayout : List ℕ := [8, 2, 4, 8, 1]

namespace MdMsgType

/-- The byte of a message type. -/
def byte : MdMsgType → UInt8
  | heartbeat => 0
  | newOrder => 1
  | deleteOrder => 2
  | modifyOrder => 3
  | trade => 4
  | tradeSummary => 5
  | snapshotInfo => 6

/-- The message type of a byte. -/
def ofByte (b : UInt8) : Option MdMsgType :=
  [heartbeat, newOrder, deleteOrder, modifyOrder, trade, tradeSummary, snapshotInfo].find?
    fun t => t.byte = b

theorem ofByte_byte (t : MdMsgType) : ofByte t.byte = some t := by
  cases t <;> rfl

/-- The widths of the fields of a message behind its header. -/
def layout : MdMsgType → List ℕ
  | heartbeat => []
  | newOrder => [8, 4, 1, 4, 4, 1]
  | deleteOrder => [8]
  | modifyOrder => [8, 1, 4, 4]
  | trade => [8, 4, 4]
  | tradeSummary => [4, 1, 4, 4]
  | snapshotInfo => [4, 4, 4, 4]

/-- The size of a message struct. -/
def size (t : MdMsgType) : ℕ := mdHeaderSize + t.layout.sum

end MdMsgType

/-- `md_header`. -/
structure MdHeader where
  magicNumber : UInt64
  length : UInt16
  seqNum : UInt32
  timestamp : UInt64
  msgType : UInt8
deriving DecidableEq

namespace MdHeader

/-- The fields of a header. -/
def fields (h : MdHeader) : List ℕ :=
  [h.magicNumber.toNat, h.length.toNat, h.seqNum.toNat, h.timestamp.toNat, h.msgType.toNat]

/-- A header that holds some fields. -/
def ofFields : List ℕ → MdHeader
  | [magicNumber, length, seqNum, timestamp, msgType] =>
    ⟨UInt64.ofNat magicNumber, UInt16.ofNat length, UInt32.ofNat seqNum, UInt64.ofNat timestamp,
      UInt8.ofNat msgType⟩
  | _ => ⟨0, 0, 0, 0, 0⟩

/-- The header at an address. -/
def read (m : ℕ → UInt8) (address : ℕ) : MdHeader := ofFields (unpack m address mdHeaderLayout)

theorem ofFields_fields (h : MdHeader) : ofFields h.fields = h := by
  obtain ⟨magicNumber, length, seqNum, timestamp, msgType⟩ := h
  simp [ofFields, fields]

theorem fits (h : MdHeader) : Fits mdHeaderLayout h.fields :=
  ⟨h.magicNumber.toNat_lt, h.length.toNat_lt, h.seqNum.toNat_lt, h.timestamp.toNat_lt,
    h.msgType.toNat_lt, trivial⟩

end MdHeader

namespace MdBody

/-- The message type of a feed message. -/
def msgType : MdBody → MdMsgType
  | heartbeat => .heartbeat
  | newOrder .. => .newOrder
  | deleteOrder _ => .deleteOrder
  | modifyOrder .. => .modifyOrder
  | trade .. => .trade
  | tradeSummary .. => .tradeSummary

/-- The fields of a feed message behind its header. -/
def fields : MdBody → List ℕ
  | heartbeat => []
  | newOrder orderId symbol side quantity price flags =>
    [orderId.toNat, symbol.toNat, side.byte.toNat, quantity.toNat, price.toUInt32.toNat,
      flags.toNat]
  | deleteOrder orderId => [orderId.toNat]
  | modifyOrder orderId side quantity price =>
    [orderId.toNat, side.byte.toNat, quantity.toNat, price.toUInt32.toNat]
  | trade orderId quantity price => [orderId.toNat, quantity.toNat, price.toUInt32.toNat]
  | tradeSummary symbol aggressorSide totalQuantity lastPrice =>
    [symbol.toNat, aggressorSide.byte.toNat, totalQuantity.toNat, lastPrice.toUInt32.toNat]

/-- The price of four bytes. -/
def priceOf (n : ℕ) : Int32 := (UInt32.ofNat n).toInt32

/-- The side of a byte. -/
def sideOf (n : ℕ) : Side := ⟨UInt8.ofNat n⟩

/-- The feed message of a type that holds some fields. -/
def ofFields : MdMsgType → List ℕ → Option MdBody
  | .heartbeat, _ => some heartbeat
  | .newOrder, [orderId, symbol, side, quantity, price, flags] =>
    some (newOrder (UInt64.ofNat orderId) (UInt32.ofNat symbol) (sideOf side)
      (UInt32.ofNat quantity) (priceOf price) (UInt8.ofNat flags))
  | .deleteOrder, [orderId] => some (deleteOrder (UInt64.ofNat orderId))
  | .modifyOrder, [orderId, side, quantity, price] =>
    some (modifyOrder (UInt64.ofNat orderId) (sideOf side) (UInt32.ofNat quantity) (priceOf price))
  | .trade, [orderId, quantity, price] =>
    some (trade (UInt64.ofNat orderId) (UInt32.ofNat quantity) (priceOf price))
  | .tradeSummary, [symbol, aggressorSide, totalQuantity, lastPrice] =>
    some (tradeSummary (UInt32.ofNat symbol) (sideOf aggressorSide) (UInt32.ofNat totalQuantity)
      (priceOf lastPrice))
  | _, _ => none

theorem length_le (body : MdBody) : body.length ≤ 45 := by
  cases body <;> simp [MdBody.length, mdHeaderSize]

theorem length_ge (body : MdBody) : mdHeaderSize ≤ body.length := by
  cases body <;> simp [MdBody.length, mdHeaderSize]

theorem size_msgType (body : MdBody) : body.msgType.size = body.length := by
  cases body <;> rfl

theorem priceOf_toUInt32 (price : Int32) : priceOf price.toUInt32.toNat = price := by
  simp [priceOf]

theorem sideOf_byte (side : Side) : sideOf side.byte.toNat = side := by
  simp [sideOf]

/-- **The fields hold the message.** -/
theorem ofFields_fields (body : MdBody) : ofFields body.msgType body.fields = some body := by
  cases body <;> simp [ofFields, msgType, fields, priceOf_toUInt32, sideOf_byte]

theorem fits (body : MdBody) : Fits body.msgType.layout body.fields := by
  cases body with
  | heartbeat => trivial
  | newOrder orderId symbol side quantity price flags =>
    exact ⟨orderId.toNat_lt, symbol.toNat_lt, side.byte.toNat_lt, quantity.toNat_lt,
      price.toUInt32.toNat_lt, flags.toNat_lt, trivial⟩
  | deleteOrder orderId => exact ⟨orderId.toNat_lt, trivial⟩
  | modifyOrder orderId side quantity price =>
    exact ⟨orderId.toNat_lt, side.byte.toNat_lt, quantity.toNat_lt, price.toUInt32.toNat_lt,
      trivial⟩
  | trade orderId quantity price =>
    exact ⟨orderId.toNat_lt, quantity.toNat_lt, price.toUInt32.toNat_lt, trivial⟩
  | tradeSummary symbol aggressorSide totalQuantity lastPrice =>
    exact ⟨symbol.toNat_lt, aggressorSide.byte.toNat_lt, totalQuantity.toNat_lt,
      lastPrice.toUInt32.toNat_lt, trivial⟩

end MdBody

/-- The bytes of a message struct. -/
def encodeStruct (h : MdHeader) (t : MdMsgType) (fields : List ℕ) : List UInt8 :=
  pack mdHeaderLayout h.fields ++ pack t.layout fields

theorem length_encodeStruct (h : MdHeader) {t : MdMsgType} {fields : List ℕ}
    (hfits : Fits t.layout fields) : (encodeStruct h t fields).length = t.size := by
  rw [encodeStruct, List.length_append, length_pack h.fits, length_pack hfits]
  rfl

/-- **A message struct is read as it was written.** -/
theorem read_of_starts {m : ℕ → UInt8} {address : ℕ} {h : MdHeader} {t : MdMsgType}
    {fields : List ℕ} (hfits : Fits t.layout fields)
    (hm : Starts m address (encodeStruct h t fields)) :
    MdHeader.read m address = h ∧ unpack m (address + mdHeaderSize) t.layout = fields := by
  rw [encodeStruct, starts_append, length_pack h.fits] at hm
  refine ⟨?_, unpack_of_starts hm.2 hfits⟩
  rw [MdHeader.read, unpack_of_starts hm.1 h.fits, MdHeader.ofFields_fields]

namespace MdMessage

/-- The header that `write_msg` fills in. -/
def header (msg : MdMessage) (timestamp : UInt64) : MdHeader :=
  ⟨magicNumber, UInt16.ofNat msg.body.length, msg.seqNum, timestamp, msg.body.msgType.byte⟩

/-- The bytes of a feed message. -/
def encode (msg : MdMessage) (timestamp : UInt64) : List UInt8 :=
  encodeStruct (msg.header timestamp) msg.body.msgType msg.body.fields

theorem length_encode (msg : MdMessage) (timestamp : UInt64) :
    (msg.encode timestamp).length = msg.body.length := by
  rw [encode, length_encodeStruct _ msg.body.fits, MdBody.size_msgType]

/-- **A feed message is read as it was written.** -/
theorem read_encode {m : ℕ → UInt8} {address : ℕ} {msg : MdMessage} {timestamp : UInt64}
    (hm : Starts m address (msg.encode timestamp)) :
    MdHeader.read m address = msg.header timestamp ∧
      MdBody.ofFields msg.body.msgType
        (unpack m (address + mdHeaderSize) msg.body.msgType.layout) = some msg.body := by
  obtain ⟨hheader, hfields⟩ := read_of_starts msg.body.fits hm
  exact ⟨hheader, by rw [hfields, MdBody.ofFields_fields]⟩

theorem length_header (msg : MdMessage) (timestamp : UInt64) :
    (msg.header timestamp).length.toNat = msg.body.length := by
  obtain ⟨seqNum, body⟩ := msg
  cases body <;> rfl

/-- Bytes that encode some messages one behind the other, with any timestamps. -/
abbrev Encodes : List MdMessage → List UInt8 → Prop := Wire.Encodes encode

theorem Encodes.length {msgs : List MdMessage} {bs : List UInt8} (h : Encodes msgs bs) :
    bs.length = (msgs.map fun msg => msg.body.length).sum :=
  h.length_eq length_encode

end MdMessage

end Ndfex
