import Ndfex.Bots.OEClient
import Ndfex.Exchange.ClientSession

/-!
# A client and the exchange

A client of the exchange with the socket between them. What the client writes is on its way until the
server takes it, and so are the messages that the server writes. The exchange goes on meanwhile: the other
clients, the turns of the two loops and the engine's heartbeat interleave with the client's calls and reads
in any order.

## Main definitions

* `Request.event`: the server takes a request
* `Trading`, `TradingEvent`, `Trading.after`: the client, the exchange and the two directions of the socket
* `TradingStep`: the steps
* `OeCall.Orderly`: a call after some orders, that uses an id once, replaces no order in the client's map
  and keeps an order on its side
* `Trading.Careful`: the other clients stay away from the socket, and the client's calls are orderly
* `Trading.underway`: the fills that the client has not read

## Main results

* `Trading.run_of_enabled`: events that are enabled one after the other make a run
-/

namespace Ndfex

open Bots Containers Transition

/-- The server takes a request from a socket. -/
def Request.event (r : Request) (sockFd : Int32) (now sessionId : UInt64) (w : Circumstances) :
    ExchangeEvent :=
  match r with
  | .login msg => .login sockFd msg sessionId w
  | .newOrder msg => .newOrder sockFd msg now
  | .deleteOrder msg => .deleteOrder sockFd msg
  | .modifyOrder msg => .modifyOrder sockFd msg

/-- The socket of an event. -/
def ExchangeEvent.socket? : ExchangeEvent → Option Int32
  | .login sockFd .. => some sockFd
  | .newOrder sockFd .. => some sockFd
  | .deleteOrder sockFd _ => some sockFd
  | .modifyOrder sockFd _ => some sockFd
  | .socketClosed sockFd _ => some sockFd
  | _ => none

/-- The new order of a request. -/
def Request.newOrder? : Request → Option NewOrder
  | .newOrder msg => some msg
  | _ => none

/-- After some orders, an order has an id that none of them has, and takes no other's place in the client's
map, whose keys are the low 32 bits of the ids; and a modification keeps to the side of its order. -/
def Bots.OeCall.Orderly (c : OEClient) (sent : List NewOrder) : OeCall → Prop
  | .sendOrder _ orderId _ _ _ _ => ∀ m ∈ sent, m.orderId ≠ orderId ∧
      (m.orderId.toUInt32 = orderId.toUInt32 → c.openOrders.lookup orderId.toUInt32 = none)
  | .modifyOrder orderId side _ _ => ∀ m ∈ sent, m.orderId = orderId → m.side = side
  | .cancelOrder _ => True

instance (c : OEClient) (sent : List NewOrder) : DecidablePred (Bots.OeCall.Orderly c sent)
  | .sendOrder _ orderId _ _ _ _ =>
    inferInstanceAs (Decidable (∀ m ∈ sent, m.orderId ≠ orderId ∧
      (m.orderId.toUInt32 = orderId.toUInt32 → c.openOrders.lookup orderId.toUInt32 = none)))
  | .modifyOrder orderId side _ _ =>
    inferInstanceAs (Decidable (∀ m ∈ sent, m.orderId = orderId → m.side = side))
  | .cancelOrder _ => instDecidableTrue

/-- A client and the exchange. The queues are the directions of the socket between them; a client that
threw has ended. -/
structure Trading where
  exchange : Exchange
  client : OEClient
  requests : Fifo Request
  responses : Fifo Written
  thrown : Bool

/-- An event of the exchange, a call of the client, and the server and the client reading the next message
of the other. -/
inductive TradingEvent
  | exchange (l : ExchangeEvent)
  | call (k : OeCall)
  | deliver (now sessionId : UInt64) (w : Circumstances)
  | take

namespace Trading

/-- A client that is logged in, and wrote and read nothing since. -/
def start (exchange : Exchange) (client : OEClient) : Trading :=
  ⟨exchange, client, Fifo.empty, Fifo.empty, false⟩

/-- The exchange goes on, and the socket gets its messages. -/
def advance (s : Trading) (fd : Int32) (l : ExchangeEvent) : Trading :=
  { s with
    exchange := s.exchange.after l
    responses := s.responses.pushAll ((s.exchange.messagesOf l).filter fun x => x.sockFd = fd) }

/-- The client reads a response. -/
def read (s : Trading) (body : ResponseBody) : Trading :=
  if ResponseThrows body.type then { s with thrown := true }
  else { s with client := s.client.take body }

/-- The event of the exchange in an event. -/
def event? (s : Trading) (fd : Int32) : TradingEvent → Option ExchangeEvent
  | .exchange l => some l
  | .deliver now sessionId w => s.requests.front?.map fun r => r.event fd now sessionId w
  | _ => none

/-- The client, whose socket is `fd`, and the exchange after an event. -/
def after (fd : Int32) (s : Trading) : TradingEvent → Trading
  | .exchange l => s.advance fd l
  | .call k => { s with client := s.client.call k, requests := s.requests.push (s.client.request k) }
  | .deliver now sessionId w =>
    match s.requests.front? with
    | none => s
    | some r => { s with requests := s.requests.pop }.advance fd (r.event fd now sessionId w)
  | .take =>
    match s.responses.front? with
    | none => s
    | some x => { s with responses := s.responses.pop }.read x.response.body

/-- The event of the exchange is enabled, if there is one. -/
def Enabled (fd : Int32) (s : Trading) (l : TradingEvent) : Prop :=
  ∀ e ∈ s.event? fd l, s.exchange.Enabled e

instance (fd : Int32) (s : Trading) : DecidablePred (s.Enabled fd) := fun l =>
  inferInstanceAs (Decidable (∀ e ∈ s.event? fd l, s.exchange.Enabled e))

/-- The orders that the client sent. -/
def sent (s : Trading) : List NewOrder := s.requests.items.filterMap Request.newOrder?

/-- The orders that the server took. -/
def heard (s : Trading) : List NewOrder := s.requests.taken.filterMap Request.newOrder?

/-- What the client does: its calls are orderly. -/
def Orderly (s : Trading) : TradingEvent → Prop
  | .call k => k.Orderly s.client s.sent
  | _ => True

instance (s : Trading) : DecidablePred s.Orderly
  | .call k => inferInstanceAs (Decidable (k.Orderly s.client s.sent))
  | .exchange _ => instDecidableTrue
  | .deliver .. => instDecidableTrue
  | .take => instDecidableTrue

/-- What the others do: they stay away from the client's socket. -/
def Apart (fd : Int32) : TradingEvent → Prop
  | .exchange l => l.socket? ≠ some fd
  | _ => True

instance (fd : Int32) : DecidablePred (Apart fd)
  | .exchange l => inferInstanceAs (Decidable (l.socket? ≠ some fd))
  | .call _ => instDecidableTrue
  | .deliver .. => instDecidableTrue
  | .take => instDecidableTrue

/-- The client stays in its session, uses each id once and modifies its orders on their sides; the others
stay away from its socket; and the engine takes no new order that shares the low bits of its id with an
order of another client at rest. -/
def Careful (fd : Int32) (n : SessionName) (s : Trading) (l : TradingEvent) : Prop :=
  Apart fd l ∧ s.Orderly l ∧ ∀ e ∈ s.event? fd l, s.exchange.KeepsOwners e ∧ s.exchange.StaysIn fd n e

instance (fd : Int32) (n : SessionName) (s : Trading) : DecidablePred (s.Careful fd n) := fun l =>
  inferInstanceAs (Decidable (Apart fd l ∧ s.Orderly l ∧
    ∀ e ∈ s.event? fd l, s.exchange.KeepsOwners e ∧ s.exchange.StaysIn fd n e))

/-- The fills that the client has not read: those that its socket was told, and those that the handler has
not taken. -/
def underway (s : Trading) : List ClearingFill :=
  fillsReported (s.responses.pending.filterMap Written.payload) ++
    fillsReported s.exchange.broker.toClient.pending

end Trading

/-- The steps of a client and the exchange. -/
def TradingStep (fd : Int32) (s : Trading) (l : TradingEvent) (t : Trading) : Prop :=
  s.Enabled fd l ∧ t = s.after fd l

namespace Trading

/-- Events that are enabled and careful one after the other make a run. -/
theorem run_of_enabled {fd : Int32} {n : SessionName} {s : Trading} {ls : List TradingEvent}
    (hen : ∀ i (hi : i < ls.length), ((ls.take i).foldl (after fd) s).Enabled fd ls[i])
    (hcareful : ∀ i (hi : i < ls.length), ((ls.take i).foldl (after fd) s).Careful fd n ls[i]) :
    Run (Guarded (Careful fd n) (TradingStep fd)) s ls (ls.foldl (after fd) s) := by
  have hrun : Run (fun s l t => (s.Careful fd n l ∧ s.Enabled fd l) ∧ t = s.after fd l) s ls
      (ls.foldl (after fd) s) := Run.of_foldl fun i hi => ⟨hcareful i hi, hen i hi⟩
  exact hrun.mono fun _ _ _ h => ⟨h.1.1, h.1.2, h.2⟩

variable {s : Trading} {fd : Int32}

theorem heard_subset_sent (s : Trading) : s.heard ⊆ s.sent := by
  unfold heard sent
  rw [← Fifo.taken_append_pending, List.filterMap_append]
  exact List.subset_append_left _ _

end Trading

end Ndfex
