import Ndfex.Protocol.MarketData
import Ndfex.Wire.Packed

/-!
# The clearing protocol, byte by byte

The packed structs of the clearing feed: a header, and the fields of a fill behind it.

## Main definitions

* `ClearingHeader`, `ClearingHeader.read`: the header at an address
* `ReportedFill`, `ReportedFill.read`: the fields of a fill behind the header
* `ReportedFill.encode`: the bytes of a fill

## Main results

* `ReportedFill.read_encode`: a fill is read as it was written
-/

namespace Ndfex

open Wire

/-- `clearing::MAGIC_NUMBER`. -/
def clearingMagicNumber : UInt64 := 0x12345678

/-- `clearing::MSG_TYPE`. -/
inductive ClearingMsgType
  | heartbeat
  | fill
deriving DecidableEq, Repr

namespace ClearingMsgType

/-- The byte of a message type. -/
def byte : ClearingMsgType → UInt8
  | heartbeat => 0
  | fill => 1

/-- The message type of a byte. -/
def ofByte (b : UInt8) : Option ClearingMsgType := [heartbeat, fill].find? fun t => t.byte = b

end ClearingMsgType

/-- The widths of the fields of `clearing_header`. -/
def clearingHeaderLayout : List ℕ := [8, 2, 4, 1]

/-- The widths of the fields of `fill` behind its header. -/
def clearingFillLayout : List ℕ := [4, 4, 4, 4, 1]

/-- `sizeof(clearing_header)`. -/
def clearingHeaderSize : ℕ := clearingHeaderLayout.sum

/-- `sizeof(fill)`. -/
def clearingFillSize : ℕ := clearingHeaderSize + clearingFillLayout.sum

/-- `clearing_header`. -/
structure ClearingHeader where
  magicNumber : UInt64
  length : UInt16
  seqNum : UInt32
  msgType : UInt8
deriving DecidableEq

namespace ClearingHeader

/-- The fields of a header. -/
def fields (h : ClearingHeader) : List ℕ :=
  [h.magicNumber.toNat, h.length.toNat, h.seqNum.toNat, h.msgType.toNat]

/-- A header that holds some fields. -/
def ofFields : List ℕ → ClearingHeader
  | [magicNumber, length, seqNum, msgType] =>
    ⟨UInt64.ofNat magicNumber, UInt16.ofNat length, UInt32.ofNat seqNum, UInt8.ofNat msgType⟩
  | _ => ⟨0, 0, 0, 0⟩

/-- The header at an address. -/
def read (m : ℕ → UInt8) (address : ℕ) : ClearingHeader :=
  ofFields (unpack m address clearingHeaderLayout)

theorem ofFields_fields (h : ClearingHeader) : ofFields h.fields = h := by
  obtain ⟨magicNumber, length, seqNum, msgType⟩ := h
  simp [ofFields, fields]

theorem fits (h : ClearingHeader) : Fits clearingHeaderLayout h.fields :=
  ⟨h.magicNumber.toNat_lt, h.length.toNat_lt, h.seqNum.toNat_lt, h.msgType.toNat_lt, trivial⟩

end ClearingHeader

/-- `fill`, without its header. -/
structure ReportedFill where
  clientId : UInt32
  symbol : UInt32
  quantity : UInt32
  price : Int32
  side : Side
deriving DecidableEq, Repr

namespace ReportedFill

/-- The fields of a fill. -/
def fields (f : ReportedFill) : List ℕ :=
  [f.clientId.toNat, f.symbol.toNat, f.quantity.toNat, f.price.toUInt32.toNat, f.side.byte.toNat]

/-- A fill that holds some fields. -/
def ofFields : List ℕ → ReportedFill
  | [clientId, symbol, quantity, price, side] =>
    ⟨UInt32.ofNat clientId, UInt32.ofNat symbol, UInt32.ofNat quantity,
      (UInt32.ofNat price).toInt32, ⟨UInt8.ofNat side⟩⟩
  | _ => ⟨0, 0, 0, 0, ⟨0⟩⟩

/-- The fill whose struct is at an address. -/
def read (m : ℕ → UInt8) (address : ℕ) : ReportedFill :=
  ofFields (unpack m (address + clearingHeaderSize) clearingFillLayout)

theorem ofFields_fields (f : ReportedFill) : ofFields f.fields = f := by
  obtain ⟨clientId, symbol, quantity, price, side⟩ := f
  simp [ofFields, fields]

theorem fits (f : ReportedFill) : Fits clearingFillLayout f.fields :=
  ⟨f.clientId.toNat_lt, f.symbol.toNat_lt, f.quantity.toNat_lt, f.price.toUInt32.toNat_lt,
    f.side.byte.toNat_lt, trivial⟩

/-- The header of a fill. -/
def header (seqNum : UInt32) : ClearingHeader :=
  ⟨clearingMagicNumber, UInt16.ofNat clearingFillSize, seqNum, ClearingMsgType.fill.byte⟩

/-- The bytes of a fill. -/
def encode (f : ReportedFill) (seqNum : UInt32) : List UInt8 :=
  pack clearingHeaderLayout (header seqNum).fields ++ pack clearingFillLayout f.fields

theorem length_encode (f : ReportedFill) (seqNum : UInt32) :
    (f.encode seqNum).length = clearingFillSize := by
  rw [encode, List.length_append, length_pack (header seqNum).fits, length_pack f.fits]
  rfl

/-- **A fill is read as it was written.** -/
theorem read_encode {m : ℕ → UInt8} {address : ℕ} {f : ReportedFill} {seqNum : UInt32}
    (hm : Starts m address (f.encode seqNum)) :
    ClearingHeader.read m address = header seqNum ∧ read m address = f := by
  rw [encode, starts_append, length_pack (header seqNum).fits] at hm
  constructor
  · rw [ClearingHeader.read, unpack_of_starts hm.1 (header seqNum).fits,
      ClearingHeader.ofFields_fields]
  · have hfields : unpack m (address + clearingHeaderSize) clearingFillLayout = f.fields :=
      unpack_of_starts hm.2 f.fits
    rw [read, hfields, ofFields_fields]

end ReportedFill

end Ndfex
