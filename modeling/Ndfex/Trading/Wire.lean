import Ndfex.Bots.ResponseLoop
import Ndfex.OrderEntry.Framing
import Ndfex.Trading.Positions

/-!
# A client and the server over bytes

Between the client and the server are two streams of bytes. The server reads some bytes of the client's
requests whenever they have arrived, and calls the handler for the requests that are complete; the client
reads some bytes of the server's messages, and takes those that are complete. The parser of the server is
shared with the other sockets, whose bytes come between.

## Main definitions

* `Exchange.Along`, `Exchange.messagesAlong`: some events one after the other, and their messages
* `Wired`, `WiredEvent`, `Wired.after`: the client, the server and the bytes between them
* `WiredStep`: the steps, in which `parse` and `process` return
* `Wired.Careful`: the guard of `Trading`, for bytes; the server does not find the socket too fast

## Main results

* `Wired.run_of_enabled`: events that are enabled one after the other make a run
-/

namespace Ndfex

open Bots Containers Transition Wire

namespace Exchange

/-- A condition on the events of a list, each in the state that the earlier ones leave. -/
def Along (P : Exchange → ExchangeEvent → Prop) : Exchange → List ExchangeEvent → Prop
  | _, [] => True
  | s, l :: ls => P s l ∧ Along P (s.after l) ls

instance instDecidableAlong (P : Exchange → ExchangeEvent → Prop) [∀ s, DecidablePred (P s)] :
    ∀ s, DecidablePred (Along P s)
  | _, [] => instDecidableTrue
  | s, l :: ls =>
    have := instDecidableAlong P (s.after l) ls
    inferInstanceAs (Decidable (P s l ∧ Along P (s.after l) ls))

/-- The messages of some events, one after the other. -/
def messagesAlong : Exchange → List ExchangeEvent → List Written
  | _, [] => []
  | s, l :: ls => s.messagesOf l ++ messagesAlong (s.after l) ls

end Exchange

/-- What the server has when it takes a request: the clock, a random session id, and the circumstances. -/
structure Arrival where
  now : UInt64
  sessionId : UInt64
  circumstances : Circumstances

/-- A client and the server, with the bytes on their way to the server and to the client. The status is
that of the client's last call of `process`. -/
structure Wired where
  exchange : Exchange
  parser : StreamParser
  client : OEClient
  status : ReadStatus
  requests : List UInt8
  responses : List UInt8

/-- An event of the exchange, bytes of another socket, a call of the client; and the server and the client
reading some of the bytes that are on their way to them. -/
inductive WiredEvent
  | exchange (l : ExchangeEvent)
  | elsewhere (c : Chunk) (rounds : ℕ)
  | call (k : OeCall)
  | parse (count : ℕ) (now : UInt64) (beyond : ℕ → UInt8) (rounds : ℕ) (arrivals : List Arrival)
      (closing : Circumstances)
  | process (count rounds : ℕ)

namespace Wired

/-- A client that is logged in, and has written and read nothing since. -/
def start (exchange : Exchange) (parser : StreamParser) (client : OEClient) : Wired :=
  ⟨exchange, parser, client, .returned, [], []⟩

/-- The server handles some events, and the socket gets its messages. -/
def advance (s : Wired) (fd : Int32) (ls : List ExchangeEvent) : Wired :=
  { s with
    exchange := ls.foldl Exchange.after s.exchange
    responses := s.responses ++ ((s.exchange.messagesAlong ls).filter fun x => x.sockFd = fd).flatMap
      fun x => x.response.encode }

/-- What the server reads. -/
def chunk (s : Wired) (fd : Int32) (count : ℕ) (now : UInt64) (beyond : ℕ → UInt8) : Chunk :=
  ⟨fd, now, s.requests.take count, beyond⟩

/-- The requests for which the parser calls the handler. -/
def handed (s : Wired) (fd : Int32) (walk : ParseWalk) : List Request :=
  (walk.parser.requestsOn fd).drop (s.parser.requestsOn fd).length

/-- The events of the handler's calls, and the end of the socket if the parser closes it. -/
def events (s : Wired) (fd : Int32) (walk : ParseWalk) (arrivals : List Arrival)
    (closing : Circumstances) : List ExchangeEvent :=
  List.zipWith (fun r a => r.event fd a.now a.sessionId a.circumstances) (s.handed fd walk) arrivals ++
    if walk.status = .closed then [.socketClosed fd closing] else []

/-- What the client reads: nothing at all, or some bytes. -/
def reading (s : Wired) (count : ℕ) : Option (List UInt8) :=
  if s.responses.take count = [] then none else some (s.responses.take count)

/-- The client, whose socket is `fd`, and the server after an event. -/
def after (fd : Int32) (s : Wired) : WiredEvent → Wired
  | .exchange l => s.advance fd [l]
  | .elsewhere c rounds => { s with parser := s.parser.parse rounds c }
  | .call k =>
    { s with client := s.client.call k, requests := s.requests ++ (s.client.request k).encode }
  | .parse count now beyond rounds arrivals closing =>
    let walk := s.parser.walk (s.chunk fd count now beyond) rounds
    let parser := if walk.status = .closed then walk.parser.socketClosed fd else walk.parser
    { s with parser, requests := s.requests.drop count }.advance fd (s.events fd walk arrivals closing)
  | .process count rounds =>
    let walk := s.client.process (s.reading count) rounds
    { s with client := walk.client, status := walk.status, responses := s.responses.drop count }

/-- `parse` and `process` return, what the handler is called for is enabled, and a client that threw does
nothing more. -/
def Enabled (fd : Int32) (s : Wired) : WiredEvent → Prop
  | .exchange l => s.exchange.Enabled l
  | .elsewhere c rounds => (s.parser.walk c rounds).status ≠ .running
  | .call _ => s.status = .returned
  | .parse count now beyond rounds arrivals closing =>
    let walk := s.parser.walk (s.chunk fd count now beyond) rounds
    walk.status ≠ .running ∧ arrivals.length = (s.handed fd walk).length ∧
      Exchange.Along Exchange.Enabled s.exchange (s.events fd walk arrivals closing)
  | .process count rounds =>
    s.status = .returned ∧ (s.client.process (s.reading count) rounds).status ≠ .running

instance (fd : Int32) (s : Wired) : DecidablePred (s.Enabled fd)
  | .exchange l => inferInstanceAs (Decidable (s.exchange.Enabled l))
  | .elsewhere c rounds => inferInstanceAs (Decidable ((s.parser.walk c rounds).status ≠ .running))
  | .call _ => inferInstanceAs (Decidable (s.status = .returned))
  | .parse count now beyond rounds arrivals closing =>
    inferInstanceAs (Decidable (
      (s.parser.walk (s.chunk fd count now beyond) rounds).status ≠ .running ∧
        arrivals.length =
          (s.handed fd (s.parser.walk (s.chunk fd count now beyond) rounds)).length ∧
        Exchange.Along Exchange.Enabled s.exchange
          (s.events fd (s.parser.walk (s.chunk fd count now beyond) rounds) arrivals closing)))
  | .process count rounds =>
    inferInstanceAs (Decidable (s.status = .returned ∧
      (s.client.process (s.reading count) rounds).status ≠ .running))

/-- The orders that the client sent. -/
def sent (s : Wired) : List NewOrder := s.client.written.filterMap Request.newOrder?

/-- An event of the exchange at which the client stays in its session, and the owners of orders are kept. -/
def Safe (fd : Int32) (n : SessionName) (s : Exchange) (l : ExchangeEvent) : Prop :=
  s.KeepsOwners l ∧ s.StaysIn fd n l

instance (fd : Int32) (n : SessionName) (s : Exchange) : DecidablePred (Safe fd n s) := fun l =>
  inferInstanceAs (Decidable (s.KeepsOwners l ∧ s.StaysIn fd n l))

/-- The guard of a client and the exchange; and the server does not find that the socket sends too much. -/
def Careful (fd : Int32) (n : SessionName) (s : Wired) : WiredEvent → Prop
  | .exchange l => l.socket? ≠ some fd ∧ Safe fd n s.exchange l
  | .elsewhere c _ => c.sockFd ≠ fd
  | .call k => k.Orderly s.client s.sent
  | .parse count now beyond rounds arrivals closing =>
    ¬ s.parser.Throttled (s.chunk fd count now beyond) ∧
      Exchange.Along (Safe fd n) s.exchange
        (s.events fd (s.parser.walk (s.chunk fd count now beyond) rounds) arrivals closing)
  | .process .. => True

instance (fd : Int32) (n : SessionName) (s : Wired) : DecidablePred (s.Careful fd n)
  | .exchange l => inferInstanceAs (Decidable (l.socket? ≠ some fd ∧ Safe fd n s.exchange l))
  | .elsewhere c _ => inferInstanceAs (Decidable (c.sockFd ≠ fd))
  | .call k => inferInstanceAs (Decidable (k.Orderly s.client s.sent))
  | .parse count now beyond rounds arrivals closing =>
    inferInstanceAs (Decidable (¬ s.parser.Throttled (s.chunk fd count now beyond) ∧
      Exchange.Along (Safe fd n) s.exchange
        (s.events fd (s.parser.walk (s.chunk fd count now beyond) rounds) arrivals closing)))
  | .process .. => instDecidableTrue

end Wired

/-- The steps of a client and the server over bytes. -/
def WiredStep (fd : Int32) (s : Wired) (l : WiredEvent) (t : Wired) : Prop :=
  s.Enabled fd l ∧ t = s.after fd l

namespace Wired

/-- Events that are enabled and careful one after the other make a run. -/
theorem run_of_enabled {fd : Int32} {n : SessionName} {s : Wired} {ls : List WiredEvent}
    (hen : ∀ i (hi : i < ls.length), ((ls.take i).foldl (after fd) s).Enabled fd ls[i])
    (hcareful : ∀ i (hi : i < ls.length), ((ls.take i).foldl (after fd) s).Careful fd n ls[i]) :
    Run (Guarded (Careful fd n) (WiredStep fd)) s ls (ls.foldl (after fd) s) := by
  have hrun : Run (fun s l t => (s.Careful fd n l ∧ s.Enabled fd l) ∧ t = s.after fd l) s ls
      (ls.foldl (after fd) s) := Run.of_foldl fun i hi => ⟨hcareful i hi, hen i hi⟩
  exact hrun.mono fun _ _ _ h => ⟨h.1.1, h.1.2, h.2⟩

end Wired

end Ndfex
