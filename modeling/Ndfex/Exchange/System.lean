import Ndfex.MatchingEngine.BrokerRuns
import Ndfex.OrderEntry.HandlerEffects

/-!
# The exchange

The order-entry server and the matching engine, which share two queues and run in a thread each. The
turns of the two loops and the events of the sockets interleave in any order. A turn is one step: a
turn of the engine takes its payload off the queue at its end, and the server only puts payloads on
the queue that the engine takes from.

## Main definitions

* `Exchange`: the handler, the broker, and the exception that ended the engine's thread
* `ExchangeEvent`, `Exchange.after`: the events and what they do
* `ExchangeStep`: the steps, in which the clock gives new orders distinct exchange ids
* `Exchange.sessionOrders`: the orders that the clients entered in their current sessions

## Main results

* `Exchange.run_of_enabled`: events that are enabled one after the other make a run
-/

namespace Ndfex

open Containers Transition

/-- An order that a client entered, with the socket it was logged in on. -/
structure SessionOrder where
  sockFd : Int32
  clientId : UInt32
  orderId : UInt64
  exchOrderId : UInt64
deriving DecidableEq, Repr

/-- The exchange. The session orders are a history that no step reads: what clients entered since
they logged in. -/
structure Exchange where
  handler : ClientHandler
  broker : MatchingEngineBroker
  fault : Option BrokerError
  sessionOrders : List SessionOrder

/-- The events of the sockets, the turns of the handler's and the engine's loops, and the engine's
heartbeat. -/
inductive ExchangeEvent
  | login (sockFd : Int32) (msg : Login) (sessionId : UInt64) (w : Circumstances)
  | newOrder (sockFd : Int32) (msg : NewOrder) (now : UInt64)
  | deleteOrder (sockFd : Int32) (msg : DeleteOrder)
  | modifyOrder (sockFd : Int32) (msg : ModifyOrder)
  | socketClosed (sockFd : Int32) (w : Circumstances)
  | handlerTurn (w : Circumstances)
  | engineTurn
  | heartbeat

namespace Exchange

/-- The exchange at its start, with one list of symbols for the validator and the engine. -/
def start (symbols : List SymbolDefinition) (users : AList fun _ : List UInt8 => UserInfo) :
    Exchange where
  handler := ClientHandler.start (OrderEntryValidator.ofSymbols symbols) users
  broker := MatchingEngineBroker.start (symbols.map SymbolDefinition.symbol)
  fault := none
  sessionOrders := []

/-- The engine's first symbol, `GOLD`, and a user for each of the clients 100 and 200. -/
def startGold : Exchange :=
  start [⟨1, 10, 1, 1000, 10000000, 0, by decide, by decide⟩]
    ((AList.singleton [97] ⟨[97], 100⟩).insert [98] ⟨[98], 200⟩)

/-- The client of the order is still logged in as it was. -/
def InSession (h : ClientHandler) (x : SessionOrder) : Prop :=
  h.clientToSockFd.lookup x.clientId = some x.sockFd

instance (h : ClientHandler) : DecidablePred (InSession h) := fun _ =>
  inferInstanceAs (Decidable (_ = _))

/-- The exchange with the handler that an event leaves. -/
def withHandler (s : Exchange) (h : ClientHandler) : Exchange :=
  { s with handler := h, sessionOrders := s.sessionOrders.filter (InSession h) }

/-- The history with a new order, if the handler admits it. -/
def noteEntry (s : Exchange) (sockFd : Int32) (msg : NewOrder) (now : UInt64) : Exchange :=
  if s.handler.Admits sockFd msg then
    { s with
      sessionOrders :=
        s.sessionOrders ++ [⟨sockFd, msg.header.clientId, msg.orderId, now⟩] }
  else s

/-- A turn of the handler's loop, if the engine responded. -/
def handlerTurn (s : Exchange) (w : Circumstances) : Exchange :=
  match s.broker.toClient.front? with
  | none => s
  | some p =>
    { s with broker := { s.broker with toClient := s.broker.toClient.pop } }.withHandler
      (s.handler.handle p w)

/-- A turn of the engine's loop, if there is a request. One that throws leaves it on the queue. -/
def engineTurn (s : Exchange) : Exchange :=
  match s.handler.toMatchingEngine.front? with
  | none => s
  | some p =>
    let o := s.broker.handle p
    match o.thrown with
    | some e => { s with broker := o.broker, fault := some e }
    | none =>
      { s with
        broker := o.broker
        handler := { s.handler with toMatchingEngine := s.handler.toMatchingEngine.pop } }

/-- The exchange after an event. -/
def after (s : Exchange) : ExchangeEvent → Exchange
  | .login sockFd msg sessionId w => s.withHandler (s.handler.onLogin sockFd msg sessionId w)
  | .newOrder sockFd msg now =>
    (s.noteEntry sockFd msg now).withHandler (s.handler.onNewOrder sockFd msg now)
  | .deleteOrder sockFd msg => s.withHandler (s.handler.onDeleteOrder sockFd msg)
  | .modifyOrder sockFd msg => s.withHandler (s.handler.onModifyOrder sockFd msg)
  | .socketClosed sockFd w => s.withHandler (s.handler.onSocketClosed sockFd w)
  | .handlerTurn w => s.handlerTurn w
  | .engineTurn => s.engineTurn
  | .heartbeat => { s with broker := s.broker.heartbeat }

/-- The clock gives a new order an unused exchange id, and no exception ended the engine's thread. -/
def Enabled (s : Exchange) : ExchangeEvent → Prop
  | .newOrder sockFd msg now =>
    (newIds (s.handler.onNewOrder sockFd msg now).toMatchingEngine.items).Nodup
  | .engineTurn => s.fault = none
  | .heartbeat => s.fault = none
  | _ => True

instance (s : Exchange) : DecidablePred s.Enabled
  | .newOrder sockFd msg now =>
    inferInstanceAs (Decidable
      (newIds (s.handler.onNewOrder sockFd msg now).toMatchingEngine.items).Nodup)
  | .engineTurn => inferInstanceAs (Decidable (s.fault = none))
  | .heartbeat => inferInstanceAs (Decidable (s.fault = none))
  | .login .. => instDecidableTrue
  | .deleteOrder .. => instDecidableTrue
  | .modifyOrder .. => instDecidableTrue
  | .socketClosed .. => instDecidableTrue
  | .handlerTurn _ => instDecidableTrue

end Exchange

/-- The steps of the exchange. -/
def ExchangeStep (s : Exchange) (l : ExchangeEvent) (t : Exchange) : Prop :=
  s.Enabled l ∧ t = s.after l

namespace Exchange

/-- Events that are enabled one after the other make a run. -/
theorem run_of_enabled {s : Exchange} {ls : List ExchangeEvent}
    (hen : ∀ i (hi : i < ls.length), ((ls.take i).foldl after s).Enabled ls[i]) :
    Run ExchangeStep s ls (ls.foldl after s) :=
  Run.of_foldl hen

/-- Events that are enabled and satisfy a guard make a guarded run. -/
theorem guarded_run_of_enabled {s : Exchange} {G : Exchange → ExchangeEvent → Prop}
    {ls : List ExchangeEvent}
    (hen : ∀ i (hi : i < ls.length), ((ls.take i).foldl after s).Enabled ls[i])
    (hG : ∀ i (hi : i < ls.length), G ((ls.take i).foldl after s) ls[i]) :
    Run (Guarded G ExchangeStep) s ls (ls.foldl after s) := by
  have hrun : Run (fun s l t => (G s l ∧ s.Enabled l) ∧ t = s.after l) s ls (ls.foldl after s) :=
    Run.of_foldl fun i hi => ⟨hG i hi, hen i hi⟩
  exact hrun.mono fun _ _ _ h => ⟨h.1.1, h.1.2, h.2⟩

end Exchange

end Ndfex
