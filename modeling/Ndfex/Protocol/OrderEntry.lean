import Ndfex.Protocol.MarketData

/-!
# The order-entry protocol

The requests a client sends, the responses it receives, and the payload that the order-entry
server and the matching engine exchange over their two queues.

## Main definitions

* `MsgType`, `RejectReason`, `LoginStatus`: the protocol's enumerations
* `isIoc`, `FillFlags.partialFill`, `FillFlags.closed`: the flag bytes
* `Login`, `NewOrder`, `DeleteOrder`, `ModifyOrder`: the requests
* `Response`: the responses
* `OePayload`: the payload of the queues
* `OePayload.Terminal`, `Terminated`: the responses that end an order
-/

namespace Ndfex

/-- `oe::MSG_TYPE`. -/
inductive MsgType
  | newOrder
  | deleteOrder
  | modifyOrder
  | login
  | loginResponse
  | ack
  | reject
  | fill
  | close
  | error
deriving DecidableEq, Repr

/-- The byte of a message type. -/
def MsgType.byte : MsgType → UInt8
  | newOrder => 1
  | deleteOrder => 2
  | modifyOrder => 3
  | login => 99
  | loginResponse => 100
  | ack => 101
  | reject => 102
  | fill => 103
  | close => 104
  | error => 105

/-- `oe::REJECT_REASON`; `UKNOWN_ORDER_ID` is spelt so in the protocol. -/
inductive RejectReason
  | none
  | unknownSymbol
  | invalidOrder
  | duplicateOrderId
  | uknownOrderId
  | invalidPrice
  | invalidQuantity
  | invalidSide
  | unknownSessionId
  | duplicateLogin
deriving DecidableEq, Repr

/-- The byte of a reject reason. -/
def RejectReason.byte : RejectReason → UInt8
  | none => 0
  | unknownSymbol => 1
  | invalidOrder => 2
  | duplicateOrderId => 3
  | uknownOrderId => 4
  | invalidPrice => 5
  | invalidQuantity => 6
  | invalidSide => 7
  | unknownSessionId => 8
  | duplicateLogin => 9

/-- The `oe::LOGIN_STATUS` values that the server sends. -/
inductive LoginStatus
  | success
  | invalidUsername
  | invalidPassword
  | sessionAlreadyActive
  | invalidClientId
deriving DecidableEq, Repr

/-- The byte of a login status. -/
def LoginStatus.byte : LoginStatus → UInt8
  | success => 0
  | invalidUsername => 5
  | invalidPassword => 6
  | sessionAlreadyActive => 8
  | invalidClientId => 10

/-- `OE_PROTOCOL_VERSION`. -/
def oeProtocolVersion : UInt8 := 1

/-- `ORDER_FLAGS::IOC`. -/
def OrderFlags.ioc : UInt8 := 1

/-- The test `flags & ORDER_FLAGS::IOC`. -/
def isIoc (flags : UInt8) : Bool := flags &&& OrderFlags.ioc ≠ 0

/-- `FILL_FLAGS::PARTIAL_FILL`. -/
def FillFlags.partialFill : UInt8 := 1

/-- `FILL_FLAGS::CLOSED`. -/
def FillFlags.closed : UInt8 := 2

/-- The test `flags & FILL_FLAGS::CLOSED`. -/
def closesOrder (flags : UInt8) : Bool := flags &&& FillFlags.closed ≠ 0

@[simp] theorem closesOrder_closed : closesOrder FillFlags.closed = true := by decide

@[simp] theorem closesOrder_partialFill : closesOrder FillFlags.partialFill = false := by decide

/-! ## Requests -/

/-- The fields of `oe_request_header` that the handler reads. -/
structure RequestHeader where
  seqNum : UInt32
  clientId : UInt32
  sessionId : UInt64
deriving DecidableEq, Repr

/-- `oe::login`: the credentials are arrays of 16 bytes. -/
structure Login where
  header : RequestHeader
  username : List UInt8
  password : List UInt8
deriving DecidableEq, Repr

/-- `oe::new_order`. -/
structure NewOrder where
  header : RequestHeader
  orderId : UInt64
  symbol : UInt32
  side : Side
  quantity : UInt32
  price : Int32
  flags : UInt8
deriving DecidableEq, Repr

/-- `oe::delete_order`. -/
structure DeleteOrder where
  header : RequestHeader
  orderId : UInt64
deriving DecidableEq, Repr

/-- `oe::modify_order`. -/
structure ModifyOrder where
  header : RequestHeader
  orderId : UInt64
  side : Side
  quantity : UInt32
  price : Int32
deriving DecidableEq, Repr

/-! ## Responses -/

/-- `oe_response_header`. -/
structure ResponseHeader where
  length : UInt16
  msgType : UInt8
  version : UInt8
  seqNum : UInt32
  lastSeqNum : UInt32
  clientId : UInt32
deriving DecidableEq, Repr

/-- The fields of a response after its header. -/
inductive ResponseBody
  | loginResponse (sessionId : UInt64) (status : UInt8)
  | ack (orderId exchOrderId : UInt64) (quantity : UInt32) (price : Int32)
  | reject (orderId : UInt64) (rejectReason : UInt8)
  | fill (orderId : UInt64) (quantity : UInt32) (price : Int32) (flags : UInt8)
  | closed (orderId : UInt64)
  | error (errorCode : UInt8) (errorMessage : String)
deriving DecidableEq, Repr

/-- `sizeof(oe_response_header)`. -/
def responseHeaderSize : UInt16 := 2 + 1 + 1 + 4 + 4 + 4

/-- The size of the packed struct of a response. -/
def ResponseBody.length : ResponseBody → UInt16
  | .loginResponse .. => responseHeaderSize + 8 + 1
  | .ack .. => responseHeaderSize + 8 + 8 + 4 + 4
  | .reject .. => responseHeaderSize + 8 + 1
  | .fill .. => responseHeaderSize + 8 + 4 + 4 + 1
  | .closed _ => responseHeaderSize + 8
  | .error .. => responseHeaderSize + 1 + 2 + 32

/-- The message type a response carries in its header. -/
def ResponseBody.msgType : ResponseBody → MsgType
  | .loginResponse .. => .loginResponse
  | .ack .. => .ack
  | .reject .. => .reject
  | .fill .. => .fill
  | .closed _ => .close
  | .error .. => .error

/-- A response as it goes onto a socket. -/
structure Response where
  header : ResponseHeader
  body : ResponseBody
deriving DecidableEq, Repr

/-! ## Queue payloads -/

/-- `oe_payload`: its price field is unsigned, whatever the sign of the order's price. -/
structure OePayload where
  msgType : MsgType
  exchOrderId : UInt64
  symbol : UInt32
  clientSeq : UInt32
  clientId : UInt32
  side : Side
  quantity : UInt32
  price : UInt32
  flags : UInt8
deriving DecidableEq, Repr

/-- The constructor of `oe_payload`, which takes the price signed. -/
def OePayload.make (msgType : MsgType) (orderId : UInt64) (symbol clientSeq clientId : UInt32)
    (side : Side) (quantity : UInt32) (price : Int32) (flags : UInt8) : OePayload :=
  ⟨msgType, orderId, symbol, clientSeq, clientId, side, quantity, price.toUInt32, flags⟩

/-- A terminal response: a `FILL` with the `CLOSED` flag, or a `CLOSE`. -/
def OePayload.Terminal (p : OePayload) : Prop :=
  p.msgType = .close ∨ p.msgType = .fill ∧ closesOrder p.flags = true

instance : DecidablePred OePayload.Terminal := fun p =>
  inferInstanceAs (Decidable (p.msgType = .close ∨ p.msgType = .fill ∧ closesOrder p.flags = true))

/-- Some payload is a terminal response for the order. -/
def Terminated (e : UInt64) (ps : List OePayload) : Prop :=
  ∃ p ∈ ps, p.Terminal ∧ p.exchOrderId = e

@[simp] theorem terminated_nil (e : UInt64) : ¬ Terminated e [] := by simp [Terminated]

@[simp] theorem terminated_cons (e : UInt64) (p : OePayload) (ps : List OePayload) :
    Terminated e (p :: ps) ↔ (p.Terminal ∧ p.exchOrderId = e) ∨ Terminated e ps := by
  simp [Terminated]

@[simp] theorem terminated_append (e : UInt64) (ps qs : List OePayload) :
    Terminated e (ps ++ qs) ↔ Terminated e ps ∨ Terminated e qs := by
  simp [Terminated, or_and_right, exists_or]

end Ndfex
