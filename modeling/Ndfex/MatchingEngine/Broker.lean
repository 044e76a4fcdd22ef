import Ndfex.Containers.Fifo
import Ndfex.MatchingEngine.LadderRefinement
import Ndfex.MatchingEngine.MarketDataPublisher

/-!
# The matching-engine broker

`MatchingEngineBroker`: it takes the requests of the order-entry server one at a time, calls the
ladder of their symbol, and answers the ladder's callbacks on the response queue, on the feed and
to clearing. The owner of a resting order is looked up in a map whose keys have 32 bits.

No callback reads the ladder, so a call of the ladder is made first and the broker takes its
callbacks afterwards, in order. An exception ends the engine's thread: when a callback throws, the
call has come to its end here and not in the engine, but nothing reads the ladder again.

## Main definitions

* `ClearingFill`, `ClearingPublisher`: the fills passed to clearing
* `MatchingEngineBroker`: the broker, its ladders and the owner map
* `MatchingEngineBroker.callback`: the subscriber's callbacks
* `MatchingEngineBroker.handle`: one turn of the loop of `process`
-/

namespace Ndfex

open Containers

/-! ## Clearing -/

/-- The arguments of a call of `ClearingPublisher::publish_fill`; the message leaves the order id
out. -/
structure ClearingFill where
  orderId : UInt64
  clientId : UInt32
  symbol : UInt32
  quantity : UInt32
  price : Int32
  side : Side
deriving DecidableEq, Repr

/-- `ClearingPublisher`: the sequence number of its message, and the fills it sent. -/
structure ClearingPublisher where
  seqNum : UInt32
  fills : List ClearingFill

/-- `ClearingPublisher::publish_fill`. -/
def ClearingPublisher.publishFill (c : ClearingPublisher) (fill : ClearingFill) :
    ClearingPublisher :=
  ⟨c.seqNum + 1, c.fills ++ [fill]⟩

/-! ## The broker -/

/-- What the broker throws. -/
inductive BrokerError
  | invalidSymbol
  | failedToFindClientId (orderId : UInt64)
  | invalidMessageType (msgType : MsgType)
  | ladder (e : LadderError)
deriving DecidableEq, Repr

/-- `MatchingEngineBroker`, apart from its incoming queue. A symbol that was looked up in vain maps
to a null ladder there and is absent here. -/
structure MatchingEngineBroker where
  clientSeq : UInt32
  clientId : UInt32
  aggressorSide : Side
  toClient : Fifo OePayload
  publisher : MarketDataPublisher
  clearingPublisher : ClearingPublisher
  symbolToMatchingEngine : AList fun _ : UInt32 => OrderLadder
  exchOrderIdToClientId : AList fun _ : UInt32 => UInt32

namespace MatchingEngineBroker

/-- A broker without symbols. -/
def empty : MatchingEngineBroker :=
  ⟨0, 0, Side.buy, Fifo.empty, MarketDataPublisher.empty, ⟨0, []⟩, ∅, ∅⟩

/-- `MatchingEngineBroker::add_symbol`. -/
def addSymbol (B : MatchingEngineBroker) (symbol : UInt32) : MatchingEngineBroker :=
  { B with
    symbolToMatchingEngine := B.symbolToMatchingEngine.insert symbol (OrderLadder.empty symbol) }

/-- The broker that the engine starts with. -/
def start (symbols : List UInt32) : MatchingEngineBroker := symbols.foldl addSymbol empty

/-- `exch_order_id_to_client_id` of a 64-bit id: the map's key type keeps its low 32 bits. -/
def clientOf (B : MatchingEngineBroker) (orderId : UInt64) : Option UInt32 :=
  B.exchOrderIdToClientId.lookup orderId.toUInt32

/-- The payload of a response to the client of the current request. -/
def response (B : MatchingEngineBroker) (msgType : MsgType) (orderId : UInt64)
    (symbol : UInt32 := 0) (side : Side := Side.buy) (quantity : UInt32 := 0) (price : Int32 := 0)
    (flags : UInt8 := 0) : OePayload :=
  .make msgType orderId symbol B.clientSeq B.clientId side quantity price flags

/-- `to_client.emplace`. -/
def emplace (B : MatchingEngineBroker) (p : OePayload) : MatchingEngineBroker :=
  { B with toClient := B.toClient.push p }

/-- `MatchingEngineBroker::onNewOrder`. -/
def onNewOrder (B : MatchingEngineBroker) (orderId : UInt64) (symbol : UInt32) (side : Side)
    (quantity : UInt32) (price : Int32) (flags : UInt8) : MatchingEngineBroker :=
  -- a new order that was filled is not published
  let B := if quantity > 0 then
      { B with publisher := B.publisher.publishNewOrder orderId symbol side quantity price flags }
    else B
  B.emplace (B.response .ack orderId symbol side quantity price flags)

/-- `MatchingEngineBroker::onModifyOrder`. -/
def onModifyOrder (B : MatchingEngineBroker) (orderId : UInt64) (symbol : UInt32) (side : Side)
    (quantity : UInt32) (price : Int32) : MatchingEngineBroker :=
  let B := { B with publisher := B.publisher.publishModifyOrder orderId side quantity price }
  B.emplace (B.response .ack orderId symbol side quantity price)

/-- `MatchingEngineBroker::onDeleteOrder`. -/
def onDeleteOrder (B : MatchingEngineBroker) (orderId : UInt64) (publish : Bool) :
    MatchingEngineBroker :=
  let B := if publish then { B with publisher := B.publisher.publishDeleteOrder orderId } else B
  B.emplace (B.response .close orderId)

/-- `MatchingEngineBroker::onCancelReject`. -/
def onCancelReject (B : MatchingEngineBroker) (orderId : UInt64) : MatchingEngineBroker :=
  B.emplace (B.response .reject orderId)

/-- `MatchingEngineBroker::onTrade`. -/
def onTrade (B : MatchingEngineBroker) (orderId : UInt64) (quantity : UInt32) (price : Int32) :
    MatchingEngineBroker :=
  { B with publisher := B.publisher.queueTrade orderId quantity price }

/-- The end of `MatchingEngineBroker::onFill`, with the client of the order found. -/
def fill (B : MatchingEngineBroker) (clientSeq clientId : UInt32) (orderId : UInt64)
    (symbol : UInt32) (side : Side) (quantity : UInt32) (price : Int32) (flags : UInt8) :
    MatchingEngineBroker :=
  let B := B.emplace (.make .fill orderId symbol clientSeq clientId side quantity price flags)
  { B with
    clearingPublisher :=
      B.clearingPublisher.publishFill ⟨orderId, clientId, symbol, quantity, price, side⟩ }

/-- `MatchingEngineBroker::onFill`. -/
def onFill (B : MatchingEngineBroker) (orderId : UInt64) (symbol : UInt32) (side : Side)
    (quantity : UInt32) (price : Int32) (flags : UInt8) (active : Bool) :
    Except BrokerError MatchingEngineBroker :=
  if active then .ok (B.fill B.clientSeq B.clientId orderId symbol side quantity price flags)
  else
    match B.clientOf orderId with
    | none => .error (.failedToFindClientId orderId)
    | some clientId => .ok (B.fill 0 clientId orderId symbol side quantity price flags)

/-- `MatchingEngineBroker::finishedPacket`. -/
def finishedPacket (B : MatchingEngineBroker) (symbol : UInt32) : MatchingEngineBroker :=
  { B with publisher := B.publisher.publishQueuedTrades symbol B.aggressorSide }

/-- A callback of the ladder. -/
def callback (B : MatchingEngineBroker) : Callback → Except BrokerError MatchingEngineBroker
  | .onNewOrder orderId symbol side quantity price flags =>
    .ok (B.onNewOrder orderId symbol side quantity price flags)
  | .onModifyOrder orderId symbol side quantity price =>
    .ok (B.onModifyOrder orderId symbol side quantity price)
  | .onDeleteOrder orderId publish => .ok (B.onDeleteOrder orderId publish)
  | .onCancelReject orderId => .ok (B.onCancelReject orderId)
  | .onTrade orderId quantity price => .ok (B.onTrade orderId quantity price)
  | .onFill orderId symbol side quantity price flags active =>
    B.onFill orderId symbol side quantity price flags active

/-- What a step of the broker leaves: the broker, and the exception it threw. -/
structure Outcome where
  broker : MatchingEngineBroker
  thrown : Option BrokerError

/-- The callbacks of a call, until one throws. -/
def takeAll (B : MatchingEngineBroker) : List Callback → Outcome
  | [] => ⟨B, none⟩
  | c :: cs =>
    match B.callback c with
    | .ok B => B.takeAll cs
    | .error e => ⟨B, some e⟩

/-- The broker with one ladder replaced. -/
def setLadder (B : MatchingEngineBroker) (symbol : UInt32) (L : OrderLadder) :
    MatchingEngineBroker :=
  { B with symbolToMatchingEngine := B.symbolToMatchingEngine.insert symbol L }

/-- A call of a ladder, with its callbacks. -/
def run (B : MatchingEngineBroker) (symbol : UInt32) (L : OrderLadder) (op : LadderOp) : Outcome :=
  let r := L.step op
  let o := (B.setLadder symbol r.ladder).takeAll r.calls
  match o.thrown with
  | some e => ⟨o.broker, some e⟩
  | none => ⟨o.broker, r.thrown.map .ladder⟩

/-- The `switch` of `MatchingEngineBroker::process`. -/
def dispatch (B : MatchingEngineBroker) (payload : OePayload) : Outcome :=
  match payload.msgType with
  | .newOrder =>
    match B.symbolToMatchingEngine.lookup payload.symbol with
    | none => ⟨B, some .invalidSymbol⟩
    | some ladder =>
      let B := { B with
        exchOrderIdToClientId :=
          B.exchOrderIdToClientId.insert payload.exchOrderId.toUInt32 payload.clientId
        aggressorSide := payload.side }
      B.run payload.symbol ladder (.newOrder payload.exchOrderId payload.side payload.quantity
        payload.price.toInt32 payload.flags)
  | .deleteOrder =>
    match B.symbolToMatchingEngine.lookup payload.symbol with
    | none => ⟨B, some .invalidSymbol⟩
    | some ladder => B.run payload.symbol ladder (.deleteOrder payload.exchOrderId)
  | .modifyOrder =>
    match B.symbolToMatchingEngine.lookup payload.symbol with
    | none => ⟨B, some .invalidSymbol⟩
    | some ladder =>
      let B := { B with aggressorSide := payload.side }
      B.run payload.symbol ladder (.modifyOrder payload.exchOrderId payload.side payload.quantity
        payload.price.toInt32)
  | .reject =>
    -- these go back to the client
    ⟨B.emplace (.make payload.msgType payload.exchOrderId payload.symbol B.clientSeq
      payload.clientId payload.side payload.quantity payload.price.toInt32 payload.flags), none⟩
  | .error | .loginResponse | .ack | .fill | .close | .login =>
    ⟨B, some (.invalidMessageType payload.msgType)⟩

/-- One turn of the loop of `MatchingEngineBroker::process`. -/
def handle (B : MatchingEngineBroker) (payload : OePayload) : Outcome :=
  let B := { B with clientSeq := payload.clientSeq, clientId := payload.clientId }
  let o := B.dispatch payload
  match o.thrown with
  | some e => ⟨o.broker, some e⟩
  | none => ⟨o.broker.finishedPacket payload.symbol, none⟩

/-- The broker after handling some requests. -/
def handleAll (B : MatchingEngineBroker) (ps : List OePayload) : MatchingEngineBroker :=
  ps.foldl (fun B p => (B.handle p).broker) B

/-- The heartbeat at the head of `MatchingEngineBroker::process`. -/
def heartbeat (B : MatchingEngineBroker) : MatchingEngineBroker :=
  { B with publisher := B.publisher.publishHeartbeat }

end MatchingEngineBroker

end Ndfex
