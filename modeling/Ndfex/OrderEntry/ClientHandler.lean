import Ndfex.Containers.Fifo
import Ndfex.OrderEntry.Validator

/-!
# The client handler

`ClientHandler`: the server's side of the order-entry protocol. It keeps the sessions of the sockets
and two maps of open orders, one by client and client order id and one by exchange id. It forwards
what it accepts to the matching engine, and writes the engine's responses to the clients.

Three things come from outside. `nanotime` and the random generator give an event its exchange id and
its session id. A send succeeds or fails, and the traversal of an `unordered_map` takes any order:
`Circumstances` has both.

## Main definitions

* `SessionInfo`, `UserInfo`, `OpenOrder`, `ExchOrder`: the values of the maps
* `ClientHandler`: the maps, the queue to the engine, and what was written to the sockets
* `ClientHandler.onLogin`, …, `ClientHandler.onSocketClosed`: the events of the sockets
* `ClientHandler.handle`: one turn of the loop of `process`
-/

namespace Ndfex

open Containers

/-- `session_info`. -/
structure SessionInfo where
  sessionId : UInt64
  clientId : UInt32
  lastSeqNum : UInt32
  exchSeqNum : UInt32
deriving DecidableEq, Repr

/-- `user_info`; the user's name is the key of the map of users. -/
structure UserInfo where
  password : List UInt8
  clientId : UInt32
deriving DecidableEq, Repr

/-- `open_order`. -/
structure OpenOrder where
  exchOrderId : UInt64
  symbol : UInt32
deriving DecidableEq, Repr

/-- `exch_order`. -/
structure ExchOrder where
  clientId : UInt32
  orderId : UInt64
deriving DecidableEq, Repr

/-- `open_orders_map`. -/
abbrev OpenOrders := AList fun _ : UInt64 => OpenOrder

/-- What an event meets: the result of its send, and the order in which a map of open orders is
traversed. -/
structure Circumstances where
  sent : Bool
  traverse : OpenOrders → List (Σ _ : UInt64, OpenOrder)
  traverse_perm : ∀ m, (traverse m).Perm m.entries

/-- The send succeeds. -/
def Circumstances.fine : Circumstances := ⟨true, fun m => m.entries, fun _ => .refl _⟩

/-- A message written to a socket, with the payload of the engine that it answers. -/
structure Written where
  sockFd : Int32
  payload : Option OePayload
  response : Response

/-- `ClientHandler`, apart from the queue from the engine. -/
structure ClientHandler where
  validator : OrderEntryValidator
  users : AList fun _ : List UInt8 => UserInfo
  toMatchingEngine : Fifo OePayload
  sockToSessionInfo : AList fun _ : Int32 => SessionInfo
  clientToSockFd : AList fun _ : UInt32 => Int32
  clientToOpenOrders : AList fun _ : UInt32 => OpenOrders
  exchToClientOrders : AList fun _ : UInt64 => ExchOrder
  written : List Written

namespace ClientHandler

/-- The handler at the server's start. -/
def start (validator : OrderEntryValidator) (users : AList fun _ : List UInt8 => UserInfo) :
    ClientHandler :=
  ⟨validator, users, Fifo.empty, ∅, ∅, ∅, ∅, []⟩

/-- `to_matching_engine.emplace`. -/
def emplace (h : ClientHandler) (p : OePayload) : ClientHandler :=
  { h with toMatchingEngine := h.toMatchingEngine.push p }

/-- The order that a client has open under its own order id. -/
def openOrder (h : ClientHandler) (clientId : UInt32) (orderId : UInt64) : Option OpenOrder :=
  (h.clientToOpenOrders.lookup clientId).bind fun m => m.lookup orderId

/-! ### Sessions -/

/-- `ClientHandler::validate_session`. -/
def validateSession (h : ClientHandler) (sockFd : Int32) (sessionId : UInt64) (clientId : UInt32) :
    Bool :=
  match h.sockToSessionInfo.lookup sockFd with
  | none => false
  | some info => info.sessionId = sessionId && info.clientId = clientId

/-- `ClientHandler::get_sock_fd`. -/
def getSockFd (h : ClientHandler) (clientId : UInt32) : Int32 :=
  (h.clientToSockFd.lookup clientId).getD (-1)

/-- `ClientHandler::update_last_seq_num`. -/
def updateLastSeqNum (h : ClientHandler) (sockFd : Int32) (seqNum : UInt32) : ClientHandler :=
  match h.sockToSessionInfo.lookup sockFd with
  | none => h
  | some info =>
    { h with
      sockToSessionInfo := h.sockToSessionInfo.insert sockFd { info with lastSeqNum := seqNum } }

/-- The request of `cancel_all_client_orders` for an open order. -/
def cancelRequest (clientId : UInt32) (x : Σ _ : UInt64, OpenOrder) : OePayload :=
  .make .deleteOrder x.2.exchOrderId x.2.symbol 0 clientId Side.buy 0 0 0

/-- `ClientHandler::cancel_all_client_orders`. -/
def cancelAllClientOrders (h : ClientHandler) (clientId : UInt32) (w : Circumstances) :
    ClientHandler :=
  match h.clientToOpenOrders.lookup clientId with
  | none => h
  | some orders =>
    { h with
      toMatchingEngine :=
        h.toMatchingEngine.pushAll ((w.traverse orders).map (cancelRequest clientId))
      clientToOpenOrders := h.clientToOpenOrders.erase clientId }

/-- `ClientHandler::on_socket_closed`. -/
def onSocketClosed (h : ClientHandler) (sockFd : Int32) (w : Circumstances) : ClientHandler :=
  match h.sockToSessionInfo.lookup sockFd with
  | none => h
  | some info =>
    let h := h.cancelAllClientOrders info.clientId w
    { h with
      clientToSockFd := h.clientToSockFd.erase info.clientId
      sockToSessionInfo := h.sockToSessionInfo.erase sockFd }

/-! ### Writing -/

/-- A `write` of a response that is not part of a session. -/
def writeRaw (h : ClientHandler) (sockFd : Int32) (seqNum clientId : UInt32)
    (body : ResponseBody) : ClientHandler :=
  let header : ResponseHeader :=
    ⟨body.length, body.msgType.byte, oeProtocolVersion, seqNum, 0, clientId⟩
  { h with written := h.written ++ [⟨sockFd, none, ⟨header, body⟩⟩] }

/-- `ClientHandler::write_msg`: whether it wrote the message, and the handler. -/
def writeMsg (h : ClientHandler) (sockFd : Int32) (payload : Option OePayload)
    (body : ResponseBody) (w : Circumstances) : Bool × ClientHandler :=
  match h.sockToSessionInfo.lookup sockFd with
  | none => (false, h)
  | some info =>
    let header : ResponseHeader :=
      ⟨body.length, body.msgType.byte, oeProtocolVersion, info.exchSeqNum, info.lastSeqNum,
        info.clientId⟩
    (w.sent,
      { h with
        sockToSessionInfo :=
          h.sockToSessionInfo.insert sockFd { info with exchSeqNum := info.exchSeqNum + 1 }
        written := h.written ++ [⟨sockFd, payload, ⟨header, body⟩⟩] })

/-- `write_msg`, and the end of the session if it fails. -/
def writeOrClose (h : ClientHandler) (sockFd : Int32) (payload : Option OePayload)
    (body : ResponseBody) (w : Circumstances) : ClientHandler :=
  let r := h.writeMsg sockFd payload body w
  if r.1 then r.2 else r.2.onSocketClosed sockFd w

/-- `ClientHandler::write_msg_to_client`. -/
def writeMsgToClient (h : ClientHandler) (clientId lastSeqNum : UInt32)
    (payload : Option OePayload) (body : ResponseBody) (w : Circumstances) : ClientHandler :=
  let sockFd := h.getSockFd clientId
  if sockFd = -1 then h
  else (h.updateLastSeqNum sockFd lastSeqNum).writeOrClose sockFd payload body w

/-! ### The events of the sockets -/

/-- The bytes of an array up to its first zero. -/
def cString (bytes : List UInt8) : List UInt8 := bytes.takeWhile (· ≠ 0)

/-- What is wrong with the credentials of a login. -/
def credentials (h : ClientHandler) (msg : Login) : Option LoginStatus :=
  match h.users.lookup (cString msg.username) with
  | none => some .invalidUsername
  | some user =>
    if user.password ≠ cString msg.password then some .invalidPassword
    else if user.clientId ≠ msg.header.clientId then some .invalidClientId
    else none

/-- `ClientHandler::on_login`, with the session id that the random generator gives. -/
def onLogin (h : ClientHandler) (sockFd : Int32) (msg : Login) (sessionId : UInt64)
    (w : Circumstances) : ClientHandler :=
  match h.credentials msg with
  | some status =>
    h.writeRaw sockFd msg.header.seqNum msg.header.clientId (.loginResponse 0 status.byte)
  | none =>
    match h.clientToSockFd.lookup msg.header.clientId with
    | some otherFd =>
      if otherFd = sockFd then h
      else
        match h.sockToSessionInfo.lookup otherFd with
        | none => h
        | some _ =>
          let h := h.writeRaw sockFd msg.header.seqNum msg.header.clientId
            (.loginResponse 0 LoginStatus.sessionAlreadyActive.byte)
          -- the other socket gets an error, and its session ends whether or not it arrives
          let r := h.writeMsg otherFd none
            (.error RejectReason.duplicateLogin.byte "Duplicate login") w
          r.2.onSocketClosed otherFd w
    | none =>
      let h := { h with
        sockToSessionInfo :=
          h.sockToSessionInfo.insert sockFd ⟨sessionId, msg.header.clientId, msg.header.seqNum, 0⟩
        clientToSockFd := h.clientToSockFd.insert msg.header.clientId sockFd }
      h.writeOrClose sockFd none (.loginResponse sessionId LoginStatus.success.byte) w

/-- `ClientHandler::send_order_reject`: the reject goes through the engine. -/
def sendOrderReject (h : ClientHandler) (header : RequestHeader) (reason : RejectReason)
    (orderId : UInt64) : ClientHandler :=
  h.emplace (.make .reject orderId 0 header.seqNum header.clientId Side.buy 0 0 reason.byte)

/-- `ClientHandler::on_new_order`, with the exchange id that `nanotime` gives. -/
def onNewOrder (h : ClientHandler) (sockFd : Int32) (msg : NewOrder) (now : UInt64) :
    ClientHandler :=
  if h.validateSession sockFd msg.header.sessionId msg.header.clientId = false then
    h.sendOrderReject msg.header .unknownSessionId msg.orderId
  else
    match h.validator.validateNewOrder msg.orderId msg.symbol msg.side msg.quantity msg.price
        msg.flags with
    | .none =>
      let orders := (h.clientToOpenOrders.lookup msg.header.clientId).getD ∅
      if (orders.lookup msg.orderId).isSome then
        h.sendOrderReject msg.header .duplicateOrderId msg.orderId
      else
        { h with
          clientToOpenOrders := h.clientToOpenOrders.insert msg.header.clientId
            (orders.insert msg.orderId ⟨now, msg.symbol⟩)
          exchToClientOrders :=
            h.exchToClientOrders.insert now ⟨msg.header.clientId, msg.orderId⟩ }.emplace
          (.make .newOrder now msg.symbol msg.header.seqNum msg.header.clientId msg.side
            msg.quantity msg.price msg.flags)
    | reject => h.sendOrderReject msg.header reject msg.orderId

/-- `ClientHandler::on_delete_order`. -/
def onDeleteOrder (h : ClientHandler) (sockFd : Int32) (msg : DeleteOrder) : ClientHandler :=
  if h.validateSession sockFd msg.header.sessionId msg.header.clientId = false then
    h.sendOrderReject msg.header .unknownSessionId msg.orderId
  else
    match h.openOrder msg.header.clientId msg.orderId with
    | none => h.sendOrderReject msg.header .uknownOrderId msg.orderId
    | some order =>
      h.emplace (.make .deleteOrder order.exchOrderId order.symbol msg.header.seqNum
        msg.header.clientId Side.buy 0 0 0)

/-- `ClientHandler::on_modify_order`. -/
def onModifyOrder (h : ClientHandler) (sockFd : Int32) (msg : ModifyOrder) : ClientHandler :=
  if h.validateSession sockFd msg.header.sessionId msg.header.clientId = false then
    h.sendOrderReject msg.header .unknownSessionId msg.orderId
  else
    match h.openOrder msg.header.clientId msg.orderId with
    | none => h.sendOrderReject msg.header .uknownOrderId msg.orderId
    | some order =>
      match h.validator.validateNewOrder msg.orderId order.symbol msg.side msg.quantity msg.price
          0 with
      | .none =>
        h.emplace (.make .modifyOrder order.exchOrderId order.symbol msg.header.seqNum
          msg.header.clientId msg.side msg.quantity msg.price 0)
      | reject => h.sendOrderReject msg.header reject msg.orderId

/-! ### The responses of the engine -/

/-- An order that was filled or closed leaves both maps. -/
def forget (h : ClientHandler) (exchOrderId : UInt64) (order : ExchOrder) : ClientHandler :=
  let orders := (h.clientToOpenOrders.lookup order.clientId).getD ∅
  { h with
    clientToOpenOrders :=
      h.clientToOpenOrders.insert order.clientId (orders.erase order.orderId)
    exchToClientOrders := h.exchToClientOrders.erase exchOrderId }

/-- One turn of the loop of `ClientHandler::process`. -/
def handle (h : ClientHandler) (payload : OePayload) (w : Circumstances) : ClientHandler :=
  if payload.msgType = .reject then
    -- a reject has no exchange id
    if h.getSockFd payload.clientId = -1 then h
    else h.writeMsgToClient payload.clientId payload.clientSeq (some payload)
      (.reject payload.exchOrderId payload.flags) w
  else
    match h.exchToClientOrders.lookup payload.exchOrderId with
    | none => h
    | some order =>
      match payload.msgType with
      | .ack =>
        h.writeMsgToClient order.clientId payload.clientSeq (some payload)
          (.ack order.orderId payload.exchOrderId payload.quantity payload.price.toInt32) w
      | .fill =>
        let h := h.writeMsgToClient order.clientId payload.clientSeq (some payload)
          (.fill order.orderId payload.quantity payload.price.toInt32 payload.flags) w
        if closesOrder payload.flags then h.forget payload.exchOrderId order else h
      | .close =>
        let h := h.writeMsgToClient order.clientId payload.clientSeq (some payload)
          (.closed order.orderId) w
        h.forget payload.exchOrderId order
      | _ => h

end ClientHandler

end Ndfex
