import Ndfex.Protocol.MdWire
import Ndfex.Protocol.OrderEntry

/-!
# The order-entry requests, byte by byte

The packed structs that a client sends: a header, and the fields of the request behind it. The header
says how long the message is and which struct it is; nothing but the client makes the two agree.

## Main definitions

* `OeRequestHeader`, `OeRequestHeader.read`: the whole header, and the header at the beginning of memory
* `RequestType`, `RequestType.size`: the requests and the sizes of their structs
* `Request`, `Request.read`: a request, and the struct of a type at the beginning of memory
* `Request.encode`: the bytes of a request

## Main results

* `Request.read_encode`: a request is read as it was written
-/

namespace Ndfex

open Wire

/-- The widths of the fields of `oe_request_header`. -/
def oeRequestHeaderLayout : List ℕ := [2, 1, 1, 4, 4, 8]

/-- `sizeof(oe_request_header)`. -/
def oeRequestHeaderSize : ℕ := oeRequestHeaderLayout.sum

/-- `oe_request_header`. -/
structure OeRequestHeader where
  length : UInt16
  msgType : UInt8
  version : UInt8
  seqNum : UInt32
  clientId : UInt32
  sessionId : UInt64
deriving DecidableEq, Repr

namespace OeRequestHeader

/-- The fields of a header. -/
def fields (h : OeRequestHeader) : List ℕ :=
  [h.length.toNat, h.msgType.toNat, h.version.toNat, h.seqNum.toNat, h.clientId.toNat,
    h.sessionId.toNat]

/-- A header that holds some fields. -/
def ofFields : List ℕ → OeRequestHeader
  | [length, msgType, version, seqNum, clientId, sessionId] =>
    ⟨UInt16.ofNat length, UInt8.ofNat msgType, UInt8.ofNat version, UInt32.ofNat seqNum,
      UInt32.ofNat clientId, UInt64.ofNat sessionId⟩
  | _ => ⟨0, 0, 0, 0, 0, 0⟩

/-- The header at the beginning of memory. -/
def read (m : ℕ → UInt8) : OeRequestHeader := ofFields (unpack m 0 oeRequestHeaderLayout)

/-- What the handler reads of a header. -/
def request (h : OeRequestHeader) : RequestHeader := ⟨h.seqNum, h.clientId, h.sessionId⟩

theorem ofFields_fields (h : OeRequestHeader) : ofFields h.fields = h := by
  obtain ⟨length, msgType, version, seqNum, clientId, sessionId⟩ := h
  simp [ofFields, fields]

theorem fits (h : OeRequestHeader) : Fits oeRequestHeaderLayout h.fields :=
  ⟨h.length.toNat_lt, h.msgType.toNat_lt, h.version.toNat_lt, h.seqNum.toNat_lt,
    h.clientId.toNat_lt, h.sessionId.toNat_lt, trivial⟩

end OeRequestHeader

/-- The message types that `StreamParser` hands to the handler. -/
inductive RequestType
  | newOrder
  | deleteOrder
  | modifyOrder
  | login
deriving DecidableEq, Repr

namespace RequestType

/-- The message type of a request. -/
def msgType : RequestType → MsgType
  | newOrder => .newOrder
  | deleteOrder => .deleteOrder
  | modifyOrder => .modifyOrder
  | login => .login

/-- The request of a message type's byte. -/
def ofByte (b : UInt8) : Option RequestType :=
  [newOrder, deleteOrder, modifyOrder, login].find? fun t => t.msgType.byte = b

/-- The widths of the fields of a request behind its header; the credentials of a login are arrays of
16 bytes. -/
def layout : RequestType → List ℕ
  | newOrder => [8, 4, 1, 4, 4, 1]
  | deleteOrder => [8]
  | modifyOrder => [8, 1, 4, 4]
  | login => List.replicate 16 1 ++ List.replicate 16 1

/-- The size of a request struct. -/
def size (t : RequestType) : ℕ := oeRequestHeaderSize + t.layout.sum

theorem ofByte_byte (t : RequestType) : ofByte t.msgType.byte = some t := by
  cases t <;> rfl

theorem headerSize_le_size (t : RequestType) : oeRequestHeaderSize ≤ t.size := Nat.le_add_right _ _

end RequestType

/-- `MAX_OE_MESSAGE_SIZE`: the largest of the request structs and of the structs of the responses, without
the login response. -/
def maxOeMessageSize : ℕ :=
  ([RequestType.login.size, RequestType.newOrder.size, RequestType.deleteOrder.size,
    RequestType.modifyOrder.size] ++
    [ResponseBody.ack 0 0 0 0, .reject 0 0, .fill 0 0 0 0, .closed 0, .error 0 ""].map
      fun body => body.length.toNat).foldr max 0

theorem RequestType.size_le (t : RequestType) : t.size ≤ maxOeMessageSize := by
  cases t <;> decide

/-- A request that `StreamParser` hands to the handler. -/
inductive Request
  | newOrder (msg : NewOrder)
  | deleteOrder (msg : DeleteOrder)
  | modifyOrder (msg : ModifyOrder)
  | login (msg : Login)
deriving DecidableEq, Repr

namespace Request

/-- The type of a request. -/
def type : Request → RequestType
  | newOrder _ => .newOrder
  | deleteOrder _ => .deleteOrder
  | modifyOrder _ => .modifyOrder
  | login _ => .login

/-- The header of a request, as far as the handler reads it. -/
def header : Request → RequestHeader
  | newOrder msg => msg.header
  | deleteOrder msg => msg.header
  | modifyOrder msg => msg.header
  | login msg => msg.header

/-- The fields of a request behind its header. -/
def fields : Request → List ℕ
  | newOrder msg =>
    [msg.orderId.toNat, msg.symbol.toNat, msg.side.byte.toNat, msg.quantity.toNat,
      msg.price.toUInt32.toNat, msg.flags.toNat]
  | deleteOrder msg => [msg.orderId.toNat]
  | modifyOrder msg =>
    [msg.orderId.toNat, msg.side.byte.toNat, msg.quantity.toNat, msg.price.toUInt32.toNat]
  | login msg => msg.username.map UInt8.toNat ++ msg.password.map UInt8.toNat

/-- The request of a type with a header and some fields. -/
def ofFields (header : RequestHeader) (t : RequestType) (fields : List ℕ) : Request :=
  let nth i := fields.getD i 0
  match t with
  | .newOrder =>
    newOrder ⟨header, UInt64.ofNat (nth 0), UInt32.ofNat (nth 1), MdBody.sideOf (nth 2),
      UInt32.ofNat (nth 3), MdBody.priceOf (nth 4), UInt8.ofNat (nth 5)⟩
  | .deleteOrder => deleteOrder ⟨header, UInt64.ofNat (nth 0)⟩
  | .modifyOrder =>
    modifyOrder ⟨header, UInt64.ofNat (nth 0), MdBody.sideOf (nth 1), UInt32.ofNat (nth 2),
      MdBody.priceOf (nth 3)⟩
  | .login =>
    login ⟨header, (fields.take 16).map UInt8.ofNat, (fields.drop 16).map UInt8.ofNat⟩

/-- The struct of a type at the beginning of memory. -/
def read (m : ℕ → UInt8) (t : RequestType) : Request :=
  ofFields (OeRequestHeader.read m).request t (unpack m oeRequestHeaderSize t.layout)

/-- The credentials are as long as their arrays. -/
def WellFormed : Request → Prop
  | login msg => msg.username.length = 16 ∧ msg.password.length = 16
  | _ => True

instance : DecidablePred WellFormed
  | newOrder _ | deleteOrder _ | modifyOrder _ => inferInstanceAs (Decidable True)
  | login msg =>
    inferInstanceAs (Decidable (msg.username.length = 16 ∧ msg.password.length = 16))

/-- The header of a well-formed message: the length of its struct, and the current version. -/
def wireHeader (r : Request) : OeRequestHeader :=
  ⟨UInt16.ofNat r.type.size, r.type.msgType.byte, oeProtocolVersion, r.header.seqNum,
    r.header.clientId, r.header.sessionId⟩

/-- The bytes of a request. -/
def encode (r : Request) : List UInt8 :=
  pack oeRequestHeaderLayout r.wireHeader.fields ++ pack r.type.layout r.fields

variable {r : Request}

theorem type_ofFields (header : RequestHeader) (t : RequestType) (fields : List ℕ) :
    (ofFields header t fields).type = t := by
  cases t <;> rfl

theorem type_read (m : ℕ → UInt8) (t : RequestType) : (read m t).type = t := type_ofFields ..

theorem request_wireHeader (r : Request) : r.wireHeader.request = r.header := rfl

theorem length_wireHeader (r : Request) : r.wireHeader.length.toNat = r.type.size := by
  have hmax : maxOeMessageSize < 2 ^ 16 := by decide
  exact UInt16.toNat_ofNat_of_lt' (Nat.lt_of_le_of_lt r.type.size_le hmax)

/-- **The fields hold the request.** -/
theorem ofFields_fields (hr : r.WellFormed) : ofFields r.header r.type r.fields = r := by
  cases r with
  | newOrder msg =>
    simp only [ofFields, type, fields, header, List.getD_cons_zero, List.getD_cons_succ,
      UInt64.ofNat_toNat, UInt32.ofNat_toNat, UInt8.ofNat_toNat, MdBody.priceOf_toUInt32,
      MdBody.sideOf_byte]
  | deleteOrder msg =>
    simp only [ofFields, type, fields, header, List.getD_cons_zero, UInt64.ofNat_toNat]
  | modifyOrder msg =>
    simp only [ofFields, type, fields, header, List.getD_cons_zero, List.getD_cons_succ,
      UInt64.ofNat_toNat, UInt32.ofNat_toNat, MdBody.priceOf_toUInt32, MdBody.sideOf_byte]
  | login msg =>
    obtain ⟨huser, -⟩ := hr
    have hround : (UInt8.ofNat ∘ UInt8.toNat) = id := by
      funext b
      exact UInt8.ofNat_toNat
    have hlength : (msg.username.map UInt8.toNat).length = 16 := by rw [List.length_map, huser]
    simp only [ofFields, type, fields, header]
    rw [List.take_left' hlength, List.drop_left' hlength, List.map_map, List.map_map, hround,
      List.map_id, List.map_id]

theorem fits_bytes (bs : List UInt8) : Fits (List.replicate bs.length 1) (bs.map UInt8.toNat) := by
  induction bs with
  | nil => trivial
  | cons b bs ih => exact ⟨b.toNat_lt, ih⟩

theorem fits (hr : r.WellFormed) : Fits r.type.layout r.fields := by
  cases r with
  | newOrder msg =>
    exact ⟨msg.orderId.toNat_lt, msg.symbol.toNat_lt, msg.side.byte.toNat_lt, msg.quantity.toNat_lt,
      msg.price.toUInt32.toNat_lt, msg.flags.toNat_lt, trivial⟩
  | deleteOrder msg => exact ⟨msg.orderId.toNat_lt, trivial⟩
  | modifyOrder msg =>
    exact ⟨msg.orderId.toNat_lt, msg.side.byte.toNat_lt, msg.quantity.toNat_lt,
      msg.price.toUInt32.toNat_lt, trivial⟩
  | login msg =>
    have huser := fits_bytes msg.username
    have hpassword := fits_bytes msg.password
    rw [hr.1] at huser
    rw [hr.2] at hpassword
    exact huser.append hpassword

theorem length_encode (hr : r.WellFormed) : r.encode.length = r.type.size := by
  rw [encode, List.length_append, length_pack r.wireHeader.fits, length_pack (fits hr)]
  rfl

theorem headerSize_le_encode (hr : r.WellFormed) : oeRequestHeaderSize ≤ r.encode.length := by
  rw [length_encode hr]
  exact r.type.headerSize_le_size

/-- The header of a request is read as it was written, once its bytes are there. -/
theorem header_of_starts {m : ℕ → UInt8}
    (hm : Starts m 0 (pack oeRequestHeaderLayout r.wireHeader.fields)) :
    OeRequestHeader.read m = r.wireHeader := by
  rw [OeRequestHeader.read, unpack_of_starts hm r.wireHeader.fits, OeRequestHeader.ofFields_fields]

/-- **A request is read as it was written.** -/
theorem read_encode {m : ℕ → UInt8} (hr : r.WellFormed) (hm : Starts m 0 r.encode) :
    read m r.type = r := by
  rw [encode, starts_append, length_pack r.wireHeader.fits] at hm
  have hfields : unpack m oeRequestHeaderSize r.type.layout = r.fields := by
    refine unpack_of_starts ?_ (fits hr)
    rw [oeRequestHeaderSize, ← Nat.zero_add oeRequestHeaderLayout.sum]
    exact hm.2
  rw [read, header_of_starts hm.1, request_wireHeader, hfields, ofFields_fields hr]

end Request

end Ndfex
