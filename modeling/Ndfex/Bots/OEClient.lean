import Ndfex.Bots.StackManager
import Ndfex.Protocol.OeResponseWire
import Ndfex.Wire.FrameLoop

/-!
# The order-entry client

`OEClient`: a bot's side of the order-entry protocol. It writes requests, numbers them, and keeps the side
and the symbol of every order that it sent. From the fills it reads it keeps a position in each symbol: a
fill names its order, and what the order was is looked up. The map's keys have 32 bits, and the lookup
enters an order of no side and symbol zero when there is none. A response that closes an order takes it out
of the map; a fill that closes it does not.

The socket gives bytes, and `process` makes responses of them: the type in the header says which struct is
read, the length in it how much is removed from the buffer.

## Main definitions

* `OeUser`, `SentOrder`, `OEClient`: the client
* `OEClient.loginRequest`, `OEClient.onLoginResponse`: the two halves of `login`
* `OEClient.sendOrder`, `OEClient.cancelOrder`, `OEClient.modifyOrder`: the requests
* `OEClient.take`: what a response does
* `OEClient.process`: the loop of `process`, as far as some rounds take it

## Main results

* `ReadWalk.round_of_encode`, `ReadWalk.round_of_part`: what a round does with a response, and with part of one
-/

namespace Ndfex.Bots

open Wire

/-- `user_info`. -/
structure OeUser where
  username : List UInt8
  password : List UInt8
  clientId : UInt32
deriving DecidableEq, Repr

/-- `OEClient::open_order`. -/
structure SentOrder where
  side : Side
  symbol : UInt32
deriving DecidableEq, Repr

/-- What `open_orders[id]` enters where there is nothing: a value-initialised `open_order`. -/
def SentOrder.none : SentOrder := ⟨⟨0⟩, 0⟩

/-- `OEClient`, with the requests that it wrote. -/
structure OEClient where
  user : OeUser
  clientSeq : UInt32
  sessionId : UInt64
  buffer : List UInt8
  positions : AList fun _ : UInt32 => Int32
  openOrders : AList fun _ : UInt32 => SentOrder
  written : List Request

namespace OEClient

/-- The constructor. -/
def start (user : OeUser) : OEClient := ⟨user, 0, 0, [], ∅, ∅, []⟩

/-- `OEClient::get_position`. -/
def getPosition (c : OEClient) (symbol : UInt32) : Int32 := (c.positions.lookup symbol).getD 0

/-- A request is written, and takes the next sequence number. -/
def write (c : OEClient) (r : Request) : OEClient :=
  { c with clientSeq := c.clientSeq + 1, written := c.written ++ [r] }

/-- The header that the client fills in. -/
def header (c : OEClient) : RequestHeader := ⟨c.clientSeq, c.user.clientId, c.sessionId⟩

/-- An array of 16 bytes with a C string, as `strncpy` copies it. -/
def credential (bytes : List UInt8) : List UInt8 :=
  (bytes.takeWhile (· ≠ 0) ++ List.replicate 16 0).take 16

/-- The request of `OEClient::login`. It leaves the session id of the header as memory has it. -/
def loginRequest (c : OEClient) (stale : UInt64) : OEClient :=
  c.write (.login ⟨{ c.header with sessionId := stale }, credential c.user.username,
    credential c.user.password⟩)

/-- The end of `OEClient::login`, when some bytes of a response were read over the memory of its struct:
whether the client is logged in. Nothing looks at the header. -/
def onLoginResponse (c : OEClient) (m : ℕ → UInt8) (bs : List UInt8) : OEClient × Bool :=
  match ResponseBody.read (overwrite m (bs.take ResponseType.loginResponse.size)) .loginResponse with
  | .loginResponse sessionId status =>
    if status ≠ LoginStatus.success.byte then (c, false) else ({ c with sessionId }, true)
  | _ => (c, false)

/-- `OEClient::send_order`. -/
def sendOrder (c : OEClient) (symbol : UInt32) (orderId : UInt64) (side : Side) (quantity : UInt32)
    (price : Int32) (flags : UInt8) : OEClient :=
  { c with openOrders := c.openOrders.insert orderId.toUInt32 ⟨side, symbol⟩ }.write
    (.newOrder ⟨c.header, orderId, symbol, side, quantity, price, flags⟩)

/-- `OEClient::cancel_order`. -/
def cancelOrder (c : OEClient) (orderId : UInt64) : OEClient :=
  c.write (.deleteOrder ⟨c.header, orderId⟩)

/-- `OEClient::modify_order`. -/
def modifyOrder (c : OEClient) (orderId : UInt64) (side : Side) (quantity : UInt32) (price : Int32) :
    OEClient :=
  c.write (.modifyOrder ⟨c.header, orderId, side, quantity, price⟩)

/-- A call of the client. -/
def call (c : OEClient) : OeCall → OEClient
  | .sendOrder symbol orderId side quantity price flags =>
    c.sendOrder symbol orderId side quantity price flags
  | .cancelOrder orderId => c.cancelOrder orderId
  | .modifyOrder orderId side quantity price => c.modifyOrder orderId side quantity price

/-- The request that a call writes. -/
def request (c : OEClient) : OeCall → Request
  | .sendOrder symbol orderId side quantity price flags =>
    .newOrder ⟨c.header, orderId, symbol, side, quantity, price, flags⟩
  | .cancelOrder orderId => .deleteOrder ⟨c.header, orderId⟩
  | .modifyOrder orderId side quantity price =>
    .modifyOrder ⟨c.header, orderId, side, quantity, price⟩

theorem written_call (c : OEClient) (k : OeCall) : (c.call k).written = c.written ++ [c.request k] := by
  cases k <;> rfl

/-! ### Responses -/

/-- The position in a symbol, after some quantity was added. -/
def addPosition (c : OEClient) (symbol : UInt32) (quantity : Int32) : OEClient :=
  { c with positions := c.positions.insert symbol (c.getPosition symbol + quantity) }

/-- `open_orders[id]`: the order, and the map with the order in it. -/
def openOrder (c : OEClient) (orderId : UInt64) : SentOrder × OEClient :=
  match c.openOrders.lookup orderId.toUInt32 with
  | some order => (order, c)
  | none => (.none, { c with openOrders := c.openOrders.insert orderId.toUInt32 .none })

/-- The case of a fill. -/
def onFill (c : OEClient) (orderId : UInt64) (quantity : UInt32) : OEClient :=
  let r := c.openOrder orderId
  if r.1.side = Side.buy then r.2.addPosition r.1.symbol quantity.toInt32
  else r.2.addPosition r.1.symbol (-quantity.toInt32)

/-- The case of a close. -/
def onClose (c : OEClient) (orderId : UInt64) : OEClient :=
  { c with openOrders := c.openOrders.erase orderId.toUInt32 }

/-- What a response does, unless it is one of those at which `process` throws. -/
def take (c : OEClient) : ResponseBody → OEClient
  | .closed orderId => c.onClose orderId
  | .fill orderId quantity _ _ => c.onFill orderId quantity
  | _ => c

end OEClient

/-- `process` throws at a response: at an error, and at a type that its `switch` does not know. -/
def ResponseThrows : ResponseType → Prop
  | .error => True
  | .loginResponse => True
  | _ => False

instance : DecidablePred ResponseThrows := fun t => by
  cases t <;> unfold ResponseThrows <;> infer_instance

/-- What `process` is doing: its loop goes on, it returned or threw, or it removes bytes from the buffer
that are not there. -/
inductive ReadStatus
  | running
  | returned
  | threw
  | overran
deriving DecidableEq, Repr

/-- Where `process` stands. -/
structure ReadWalk where
  client : OEClient
  status : ReadStatus

namespace ReadWalk

/-- The loop of `process`: its condition and its body. -/
def body (w : ReadWalk) : ReadWalk :=
  let buffer := w.client.buffer
  if buffer.length < oeResponseHeaderSize then { w with status := .returned }
  else
    let header := ResponseHeader.read (memoryOf buffer)
    match ResponseType.ofByte header.msgType with
    | none | some .loginResponse => { w with status := .threw }
    | some t =>
      if buffer.length < t.size then { w with status := .returned }
      else if t = .error then { w with status := .threw }
      else
        let client := w.client.take (ResponseBody.read (memoryOf buffer) t)
        if buffer.length < header.length.toNat then ⟨client, .overran⟩
        else ⟨{ client with buffer := buffer.drop header.length.toNat }, .running⟩

/-- A round of the loop, unless it ended. -/
def round (w : ReadWalk) : ReadWalk := if w.status = .running then w.body else w

end ReadWalk

namespace OEClient

/-- `OEClient::process` before its loop, when the socket gave some bytes. -/
def receive (c : OEClient) (buf : List UInt8) : ReadWalk := ⟨{ c with buffer := c.buffer ++ buf }, .running⟩

/-- `OEClient::process` after some rounds of its loop; without bytes it returns at once. -/
def process (c : OEClient) (read : Option (List UInt8)) (rounds : ℕ) : ReadWalk :=
  match read with
  | none => ⟨c, .returned⟩
  | some buf => ReadWalk.round^[rounds] (c.receive buf)

/-! ### What the methods touch -/

variable {c : OEClient}

theorem openOrder_of_lookup {orderId : UInt64} {order : SentOrder}
    (h : c.openOrders.lookup orderId.toUInt32 = some order) : c.openOrder orderId = (order, c) := by
  rw [openOrder, h]

theorem getPosition_addPosition (c : OEClient) (symbol : UInt32) (quantity : Int32) (symbol' : UInt32) :
    (c.addPosition symbol quantity).getPosition symbol' =
      if symbol' = symbol then c.getPosition symbol' + quantity else c.getPosition symbol' := by
  unfold addPosition
  by_cases hsymbol : symbol' = symbol
  · subst hsymbol
    rw [if_pos rfl, getPosition, AList.lookup_insert, Option.getD_some]
  · rw [if_neg hsymbol, getPosition, AList.lookup_insert_ne hsymbol, getPosition]

/-- A fill of an order that the client knows moves the position in its symbol, to its side. -/
theorem getPosition_onFill {orderId : UInt64} {order : SentOrder} (quantity : UInt32)
    (h : c.openOrders.lookup orderId.toUInt32 = some order) (symbol : UInt32) :
    (c.onFill orderId quantity).getPosition symbol =
      if symbol = order.symbol then
        c.getPosition symbol + if order.side = Side.buy then quantity.toInt32 else -quantity.toInt32
      else c.getPosition symbol := by
  unfold onFill
  rw [openOrder_of_lookup h]
  dsimp only
  split_ifs with hside hsymbol hsymbol <;> simp [getPosition_addPosition, hsymbol]

theorem openOrders_onFill {orderId : UInt64} {order : SentOrder} (quantity : UInt32)
    (h : c.openOrders.lookup orderId.toUInt32 = some order) :
    (c.onFill orderId quantity).openOrders = c.openOrders := by
  unfold onFill
  rw [openOrder_of_lookup h]
  dsimp only
  split_ifs <;> rfl

end OEClient

namespace ReadWalk

variable {w : ReadWalk} {r : Response} {more : List UInt8}

/-- The bytes of a response, read from the beginning of a buffer. -/
theorem read_memoryOf (hr : r.WellFormed) (more : List UInt8) :
    ResponseHeader.read (memoryOf (r.encode ++ more)) = r.header ∧
      ResponseBody.read (memoryOf (r.encode ++ more)) r.body.type = r.body :=
  Response.read_encode hr.body (starts_overwrite_append _ _ _)

/-- The type of a response, in the header of its bytes. -/
theorem ofByte_header (hr : r.WellFormed) : ResponseType.ofByte r.header.msgType = some r.body.type := by
  rw [hr.msgType, ← ResponseBody.msgType_type]
  exact ResponseType.ofByte_byte _

/-- **A complete response** is taken, unless `process` throws at it. -/
theorem round_of_encode (hr : r.WellFormed) (hquiet : ¬ ResponseThrows r.body.type)
    (hrunning : w.status = .running) (hbuffer : w.client.buffer = r.encode ++ more) :
    w.round = ⟨{ w.client.take r.body with buffer := more }, .running⟩ := by
  obtain ⟨hheader, hbody⟩ := read_memoryOf hr more
  have hsize : r.encode.length = r.body.type.size := Response.length_encode r
  have hlength : r.header.length.toNat = r.encode.length := by
    rw [hr.length, ResponseBody.toNat_length, hsize]
  have hlong : ¬ (r.encode ++ more).length < r.body.type.size := by
    rw [List.length_append, hsize]
    exact Nat.not_lt.mpr (Nat.le_add_right _ _)
  have hfirst : ¬ (r.encode ++ more).length < oeResponseHeaderSize := fun h =>
    hlong (Nat.lt_of_lt_of_le h r.body.type.headerSize_le_size)
  have hall : ¬ (r.encode ++ more).length < r.header.length.toNat := by
    rw [hlength, List.length_append]
    exact Nat.not_lt.mpr (Nat.le_add_right _ _)
  have hnotError : r.body.type ≠ .error := fun h => hquiet (by rw [h]; trivial)
  rw [round, if_pos hrunning, ReadWalk.body]
  dsimp only
  rw [hbuffer, if_neg hfirst, hheader, ofByte_header hr]
  have hdrop : (r.encode ++ more).drop r.header.length.toNat = more := by
    rw [hlength, List.drop_left]
  cases ht : r.body.type with
  | loginResponse => exact absurd (by rw [ht]; trivial) hquiet
  | error => exact absurd ht hnotError
  | _ =>
    rw [ht] at hlong hbody hnotError
    simp only [if_neg hlong, if_neg hnotError, if_neg hall, hbody, hdrop]

/-- **A part of a response** stays in the buffer, if the response is none at which `process` throws. -/
theorem round_of_part (hr : r.WellFormed) (hquiet : ¬ ResponseThrows r.body.type)
    (hrunning : w.status = .running) (hpart : w.client.buffer <+: r.encode)
    (hless : w.client.buffer.length < r.encode.length) :
    w.round = { w with status := .returned } := by
  rw [round, if_pos hrunning, ReadWalk.body]
  dsimp only
  by_cases hshort : w.client.buffer.length < oeResponseHeaderSize
  · rw [if_pos hshort]
  rw [if_neg hshort]
  -- the header is there, and says how long the response is
  obtain ⟨more, hmore⟩ := hpart
  have hheader : ResponseHeader.read (memoryOf w.client.buffer) = r.header := by
    rw [← (read_memoryOf hr []).1, List.append_nil, ← hmore]
    refine ResponseHeader.read_congr fun i hi => ?_
    exact (overwrite_append_congr _ _ _ more (Nat.lt_of_lt_of_le hi (Nat.not_lt.mp hshort))).symm
  have hsize : w.client.buffer.length < r.body.type.size := by
    rw [← Response.length_encode]
    exact hless
  rw [hheader, ofByte_header hr]
  cases ht : r.body.type with
  | loginResponse => exact absurd (by rw [ht]; trivial) hquiet
  | _ =>
    rw [ht] at hsize
    simp only [if_pos hsize]

/-- Nothing is done with an empty buffer. -/
theorem round_of_nil (hrunning : w.status = .running) (hbuffer : w.client.buffer = []) :
    w.round = { w with status := .returned } := by
  have hshort : w.client.buffer.length < oeResponseHeaderSize := by
    rw [hbuffer]
    decide
  rw [round, if_pos hrunning, ReadWalk.body]
  dsimp only
  rw [if_pos hshort]

end ReadWalk

end Ndfex.Bots
