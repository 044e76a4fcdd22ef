import Ndfex.OrderEntry.SessionEffects

/-!
# What the handler makes of a request

The handler rejects a request for an order, through the engine, or forwards it. It forwards only what
comes over a session, in the name of the session's client: a new order that it admits, or a deletion
or a modification of an order that this client has open.

## Main definitions

* `OrderMessage`: the requests for orders
* `ClientHandler.receive`: the handler's function for each of them
* `ClientHandler.Forwards`: the payload is for an open order of the client that asks

## Main results

* `ClientHandler.receive_cases`: a request is rejected for a reason, forwarded, or enters an order
-/

namespace Ndfex

open Containers

/-- A request for an order; a new order comes with the exchange id that the clock gives it. -/
inductive OrderMessage
  | newOrder (msg : NewOrder) (now : UInt64)
  | deleteOrder (msg : DeleteOrder)
  | modifyOrder (msg : ModifyOrder)
deriving DecidableEq, Repr

namespace OrderMessage

/-- The header of a request. -/
def header : OrderMessage → RequestHeader
  | newOrder msg _ => msg.header
  | deleteOrder msg => msg.header
  | modifyOrder msg => msg.header

/-- The client order id of a request. -/
def orderId : OrderMessage → UInt64
  | newOrder msg _ => msg.orderId
  | deleteOrder msg => msg.orderId
  | modifyOrder msg => msg.orderId

end OrderMessage

namespace ClientHandler

/-- The handler takes a request. -/
def receive (h : ClientHandler) (sockFd : Int32) : OrderMessage → ClientHandler
  | .newOrder msg now => h.onNewOrder sockFd msg now
  | .deleteOrder msg => h.onDeleteOrder sockFd msg
  | .modifyOrder msg => h.onModifyOrder sockFd msg

/-- The session of a request: the one that its header names, on its own socket. -/
def OfSession (h : ClientHandler) (sockFd : Int32) (m : OrderMessage) : Prop :=
  h.session sockFd = some ⟨m.header.sessionId, m.header.clientId⟩

instance (h : ClientHandler) (sockFd : Int32) (m : OrderMessage) : Decidable (h.OfSession sockFd m) :=
  inferInstanceAs (Decidable (_ = _))

/-- The payload of a deletion or a modification of an order that the client of the request has open
under the request's order id. -/
structure Forwards (h : ClientHandler) (m : OrderMessage) (p : OePayload) : Prop where
  msgType : p.msgType = .deleteOrder ∨ p.msgType = .modifyOrder
  opened : ∃ x, h.openOrder m.header.clientId m.orderId = some x ∧
    p.exchOrderId = x.exchOrderId ∧ p.symbol = x.symbol
  clientId : p.clientId = m.header.clientId
  clientSeq : p.clientSeq = m.header.seqNum
  /-- A modification passed the validator, and has a quantity. -/
  modifies : p.msgType = .modifyOrder → ∃ msg, m = .modifyOrder msg ∧ p.side = msg.side ∧
    p.quantity = msg.quantity ∧ p.price = msg.price.toUInt32

variable {h : ClientHandler} {sockFd : Int32}

/-- A request without its session is rejected, whatever it asks for. -/
theorem receive_of_not_ofSession {m : OrderMessage} (hno : ¬ h.OfSession sockFd m) :
    h.receive sockFd m = h.sendOrderReject m.header .unknownSessionId m.orderId := by
  have hinvalid : h.validateSession sockFd m.header.sessionId m.header.clientId = false := by
    rwa [← Bool.not_eq_true, validateSession_iff]
  cases m with
  | newOrder msg now => exact if_pos hinvalid
  | deleteOrder msg => exact if_pos hinvalid
  | modifyOrder msg => exact if_pos hinvalid

theorem onNewOrder_cases (h : ClientHandler) (sockFd : Int32) (msg : NewOrder) (now : UInt64) :
    (∃ reason, reason ≠ .none ∧
        h.onNewOrder sockFd msg now = h.sendOrderReject msg.header reason msg.orderId) ∨
      h.Admits sockFd msg := by
  by_cases hadm : h.Admits sockFd msg
  · exact Or.inr hadm
  left
  unfold onNewOrder
  split_ifs with hsession
  · exact ⟨_, by decide, rfl⟩
  split
  case h_1 hvalid =>
    dsimp only
    split_ifs with hdup
    · exact ⟨_, by decide, rfl⟩
    · refine absurd ⟨by simpa using hsession, hvalid, ?_⟩ hadm
      rw [Option.not_isSome_iff_eq_none] at hdup
      unfold openOrder
      cases horders : h.clientToOpenOrders.lookup msg.header.clientId with
      | none => rfl
      | some orders => simpa [horders] using hdup
  case h_2 reject hreject => exact ⟨_, hreject, rfl⟩

theorem onDeleteOrder_cases (h : ClientHandler) (sockFd : Int32) (msg : DeleteOrder) :
    (∃ reason, reason ≠ .none ∧
        h.onDeleteOrder sockFd msg = h.sendOrderReject msg.header reason msg.orderId) ∨
      ∃ p, h.Forwards (.deleteOrder msg) p ∧ h.onDeleteOrder sockFd msg = h.emplace p := by
  unfold onDeleteOrder
  split_ifs
  · exact Or.inl ⟨_, by decide, rfl⟩
  cases hopen : h.openOrder msg.header.clientId msg.orderId with
  | none => exact Or.inl ⟨_, by decide, rfl⟩
  | some x =>
    refine Or.inr ⟨_, ⟨Or.inl rfl, ⟨x, hopen, rfl, rfl⟩, rfl, rfl, fun hmodify => ?_⟩, rfl⟩
    cases hmodify

theorem onModifyOrder_cases (h : ClientHandler) (sockFd : Int32) (msg : ModifyOrder) :
    (∃ reason, reason ≠ .none ∧
        h.onModifyOrder sockFd msg = h.sendOrderReject msg.header reason msg.orderId) ∨
      ∃ p, h.Forwards (.modifyOrder msg) p ∧ h.onModifyOrder sockFd msg = h.emplace p := by
  unfold onModifyOrder
  split_ifs
  · exact Or.inl ⟨_, by decide, rfl⟩
  cases hopen : h.openOrder msg.header.clientId msg.orderId with
  | none => exact Or.inl ⟨_, by decide, rfl⟩
  | some x =>
    dsimp only
    split
    · refine Or.inr ⟨_, ⟨Or.inr rfl, ⟨x, hopen, rfl, rfl⟩, rfl, rfl, fun _ => ?_⟩, rfl⟩
      exact ⟨msg, rfl, rfl, rfl, rfl⟩
    case h_2 reject hreject => exact Or.inl ⟨_, hreject, rfl⟩

/-- **A request** is rejected for a reason, or comes over its session and is forwarded or enters an
order. -/
theorem receive_cases (h : ClientHandler) (sockFd : Int32) (m : OrderMessage) :
    (∃ reason, reason ≠ .none ∧
        h.receive sockFd m = h.sendOrderReject m.header reason m.orderId) ∨
      h.OfSession sockFd m ∧
        ((∃ p, h.Forwards m p ∧ h.receive sockFd m = h.emplace p) ∨
          ∃ msg now, m = .newOrder msg now ∧ h.Admits sockFd msg ∧
            h.receive sockFd m = (h.enter msg now).emplace (newPayload msg now)) := by
  by_cases hsession : h.OfSession sockFd m
  swap
  · exact Or.inl ⟨_, by decide, receive_of_not_ofSession hsession⟩
  cases m with
  | newOrder msg now =>
    refine (onNewOrder_cases h sockFd msg now).imp_right fun hadm => ⟨hsession, Or.inr ?_⟩
    exact ⟨msg, now, rfl, hadm, onNewOrder_of_admits hadm now⟩
  | deleteOrder msg =>
    exact (onDeleteOrder_cases h sockFd msg).imp_right fun hp => ⟨hsession, Or.inl hp⟩
  | modifyOrder msg =>
    exact (onModifyOrder_cases h sockFd msg).imp_right fun hp => ⟨hsession, Or.inl hp⟩

/-- A request puts one payload on the queue, with its own sequence number. -/
theorem receive_pushes (h : ClientHandler) (sockFd : Int32) (m : OrderMessage) :
    ∃ p, (h.receive sockFd m).toMatchingEngine = h.toMatchingEngine.push p ∧
      p.clientSeq = m.header.seqNum := by
  rcases h.receive_cases sockFd m with
    ⟨reason, -, hreject⟩ | ⟨-, ⟨p, hp, hforward⟩ | ⟨msg, now, rfl, -, hentry⟩⟩
  · rw [hreject]
    exact ⟨_, rfl, rfl⟩
  · rw [hforward]
    exact ⟨p, rfl, hp.clientSeq⟩
  · rw [hentry]
    exact ⟨_, rfl, rfl⟩

/-- A request changes no session. -/
theorem sessions_receive (h : ClientHandler) (sockFd : Int32) (m : OrderMessage) :
    (h.receive sockFd m).sockToSessionInfo = h.sockToSessionInfo ∧
      (h.receive sockFd m).clientToSockFd = h.clientToSockFd ∧
        (h.receive sockFd m).users = h.users := by
  rcases h.receive_cases sockFd m with
    ⟨reason, -, hreject⟩ | ⟨-, ⟨p, -, hforward⟩ | ⟨msg, now, -, -, hentry⟩⟩
  · rw [hreject]
    exact ⟨rfl, rfl, rfl⟩
  · rw [hforward]
    exact ⟨rfl, rfl, rfl⟩
  · rw [hentry]
    exact ⟨rfl, rfl, rfl⟩

/-- A request writes no message. -/
theorem written_receive (h : ClientHandler) (sockFd : Int32) (m : OrderMessage) :
    (h.receive sockFd m).written = h.written := by
  rcases h.receive_cases sockFd m with
    ⟨reason, -, hreject⟩ | ⟨-, ⟨p, -, hforward⟩ | ⟨msg, now, -, -, hentry⟩⟩
  · rw [hreject]
    rfl
  · rw [hforward]
    rfl
  · rw [hentry]
    rfl

theorem session_receive (h : ClientHandler) (sockFd : Int32) (m : OrderMessage) (fd : Int32) :
    (h.receive sockFd m).session fd = h.session fd := by
  rw [session, (sessions_receive h sockFd m).1]
  rfl

end ClientHandler

end Ndfex
