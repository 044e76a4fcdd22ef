import Ndfex.Exchange.Messages

/-!
# The threads of the exchange

The server's and the engine's thread share two queues of a fixed capacity, and an `emplace` on a full
queue blocks. So a call of the handler, or the handling of a request, takes a step for each of its
`emplace`s. What it does besides concerns one thread only, and is done at its start. The front of a
queue keeps its place until it is popped, which is after everything that it leads to. The heartbeats of
the engine touch neither queue.

The server drains its queue in `ClientHandler::process` only. Meanwhile the engine may have to wait for
it, while the server waits for the engine.

## Main definitions

* `ServerPosition`, `ServerPosition.next`: the control flow of `EpollServer::run`
* `Threads`: the exchange with the `emplace`s and pops that its threads have still to do
* `ThreadStep`: the steps of the threads
* `Threads.Deadlocked`: both threads are blocked
* `Threads.Overcommitted`: more than both queues hold

## Main results

* `Threads.run_exchange`: the threads do what the exchange does
* `never_deadlocked`: a server that does not overcommit the queues never meets a deadlock
* `Threads.deadlock_of_no_room`: a call that overcommits them can lead to one
-/

namespace Ndfex

open Containers Transition

/-- The capacities of the queues to the engine and to the server. -/
structure Capacities where
  requests : ℕ
  responses : ℕ

/-- Where the server's thread is in `EpollServer::run`. -/
inductive ServerPosition
  /-- in the loop over the events of `epoll_wait`, with the number of those left -/
  | events (left : ℕ)
  /-- in the loop that reads the socket of an event -/
  | reading (sockFd : Int32) (left : ℕ)
  /-- at the head of the loop of `ClientHandler::process` -/
  | responses
  /-- in that loop, with a response that is not popped yet -/
  | response
deriving DecidableEq

/-- The steps of the two threads. -/
inductive ThreadEvent
  | epollWait (nfds : ℕ)
  | accept
  | readable (sockFd : Int32)
  | message (l : ExchangeEvent)
  | drained
  | closed (sockFd : Int32) (w : Circumstances)
  | hup (sockFd : Int32) (w : Circumstances)
  | endOfEvents
  | process (w : Circumstances)
  | popResponse
  | emplaceRequest
  | takeRequest
  | emplaceResponse
  | popRequest

/-- The socket that a message is read from. -/
def ExchangeEvent.readFrom? : ExchangeEvent → Option Int32
  | .login sockFd .. => some sockFd
  | .newOrder sockFd .. => some sockFd
  | .deleteOrder sockFd .. => some sockFd
  | .modifyOrder sockFd .. => some sockFd
  | _ => none

/-- `EpollServer::run`: an event of a closed connection ends the loop over the events. -/
def ServerPosition.next : ServerPosition → ThreadEvent → Option ServerPosition
  | .responses, .epollWait nfds => if nfds ≤ 32 then some (.events nfds) else none
  | .events (left + 1), .accept => some (.events left)
  | .events (left + 1), .readable sockFd => some (.reading sockFd left)
  | .reading sockFd left, .message l =>
    if l.readFrom? = some sockFd then some (.reading sockFd left) else none
  | .reading _ left, .drained => some (.events left)
  | .reading sockFd left, .closed sockFd' _ =>
    if sockFd' = sockFd then some (.events left) else none
  | .events (_ + 1), .hup _ _ => some .responses
  | .events 0, .endOfEvents => some .responses
  | .responses, .process _ => some .response
  | .response, .popResponse => some .responses
  | _, _ => none

/-- The call of the handler that a step begins. -/
def ThreadEvent.call? : ThreadEvent → Option ExchangeEvent
  | .message l => some l
  | .closed sockFd w => some (.socketClosed sockFd w)
  | .hup sockFd w => some (.socketClosed sockFd w)
  | .process w => some (.handlerTurn w)
  | _ => none

/-- What a step does in the exchange. -/
def ThreadEvent.exchange? : ThreadEvent → Option ExchangeEvent
  | .takeRequest => some .engineTurn
  | l => l.call?

/-- The exchange as far as its threads have begun, with the number of `emplace`s that each has still
to do, and whether the engine has still to pop a request. -/
structure Threads where
  exchange : Exchange
  server : ServerPosition
  requestsLeft : ℕ
  engineBusy : Bool
  responsesLeft : ℕ

namespace Threads

variable (k : Capacities) (s : Threads)

/-- The threads at their start. -/
def start (symbols : List SymbolDefinition) (users : AList fun _ : List UInt8 => UserInfo) :
    Threads :=
  ⟨Exchange.start symbols users, .responses, 0, false, 0⟩

/-- The requests that were taken for none of the engine's turns yet. -/
abbrev requests : List OePayload := s.exchange.handler.toMatchingEngine.pending

/-- The responses that were taken for none of the handler's turns yet. -/
abbrev responses : List OePayload := s.exchange.broker.toClient.pending

/-- The server has a response that it has still to pop. -/
abbrev serverBusy : Bool := s.server = .response

/-- The length of the queue to the engine. -/
def requestsHeld : ℕ := s.requests.length - s.requestsLeft + s.engineBusy.toNat

/-- The length of the queue to the server. -/
def responsesHeld : ℕ := s.responses.length - s.responsesLeft + s.serverBusy.toNat

/-- The server waits in `emplace`. -/
def ServerBlocked : Prop := 0 < s.requestsLeft ∧ k.requests ≤ s.requestsHeld

/-- The engine waits in `emplace`. -/
def EngineBlocked : Prop := 0 < s.responsesLeft ∧ k.responses ≤ s.responsesHeld

/-- Each thread waits for the other. -/
def Deadlocked : Prop := s.ServerBlocked k ∧ s.EngineBlocked k

/-- The server's thread has come to the step. -/
def ServerAt (l : ThreadEvent) : Prop :=
  s.requestsLeft = 0 ∧ (s.server.next l).isSome ∧ ∀ e ∈ l.call?, s.exchange.Enabled e

/-- The step is one that its thread can take now. -/
def Enabled : ThreadEvent → Prop
  | .emplaceRequest => 0 < s.requestsLeft ∧ s.requestsHeld < k.requests
  | .emplaceResponse => 0 < s.responsesLeft ∧ s.responsesHeld < k.responses
  | .takeRequest =>
    s.exchange.fault = none ∧ s.engineBusy = false ∧ s.requestsLeft < s.requests.length
  | .popRequest => s.engineBusy = true ∧ s.responsesLeft = 0
  | .epollWait nfds => s.ServerAt (.epollWait nfds) ∧ s.responses.length ≤ s.responsesLeft
  | .process w => s.ServerAt (.process w) ∧ s.responsesLeft < s.responses.length
  | l => s.ServerAt l

/-- The threads after a step. -/
def after : ThreadEvent → Threads
  | .emplaceRequest => { s with requestsLeft := s.requestsLeft - 1 }
  | .emplaceResponse => { s with responsesLeft := s.responsesLeft - 1 }
  | .takeRequest =>
    let t := s.exchange.after .engineTurn
    { s with
      exchange := t
      engineBusy := t.fault.isNone
      responsesLeft := t.broker.toClient.items.length - s.exchange.broker.toClient.items.length }
  | .popRequest => { s with engineBusy := false }
  | l =>
    let server := (s.server.next l).getD s.server
    match l.call? with
    | none => { s with server := server }
    | some e =>
      let t := s.exchange.after e
      { s with
        exchange := t
        server := server
        requestsLeft := t.handler.toMatchingEngine.items.length -
          s.exchange.handler.toMatchingEngine.items.length }

/-- The requests that the engine has to take before the last one gets into the queue. -/
def mustLeave : List OePayload := s.requests.take (s.requests.length - k.requests)

/-- The requests do not fit into their queue, nor do the responses to those that have to leave it. -/
def Overcommitted : Prop :=
  k.requests < s.requests.length + s.engineBusy.toNat ∧
    k.responses < (s.exchange.broker.handleAll (s.mustLeave k)).toClient.pending.length +
      s.serverBusy.toNat

/-- A call of the handler that the step begins does not overcommit the queues. -/
def HasRoom (l : ThreadEvent) : Prop := l.call?.isSome → ¬ (s.after l).Overcommitted k

instance : DecidablePred s.ServerAt := fun l =>
  inferInstanceAs (Decidable (_ ∧ _ ∧ ∀ e ∈ l.call?, s.exchange.Enabled e))

instance : DecidablePred (s.Enabled k)
  | .emplaceRequest => inferInstanceAs (Decidable (_ ∧ _))
  | .emplaceResponse => inferInstanceAs (Decidable (_ ∧ _))
  | .takeRequest => inferInstanceAs (Decidable (_ ∧ _ ∧ _))
  | .popRequest => inferInstanceAs (Decidable (_ ∧ _))
  | .epollWait nfds => inferInstanceAs (Decidable (s.ServerAt (.epollWait nfds) ∧ _))
  | .process w => inferInstanceAs (Decidable (s.ServerAt (.process w) ∧ _))
  | .accept => inferInstanceAs (Decidable (s.ServerAt .accept))
  | .readable sockFd => inferInstanceAs (Decidable (s.ServerAt (.readable sockFd)))
  | .message l => inferInstanceAs (Decidable (s.ServerAt (.message l)))
  | .drained => inferInstanceAs (Decidable (s.ServerAt .drained))
  | .closed sockFd w => inferInstanceAs (Decidable (s.ServerAt (.closed sockFd w)))
  | .hup sockFd w => inferInstanceAs (Decidable (s.ServerAt (.hup sockFd w)))
  | .endOfEvents => inferInstanceAs (Decidable (s.ServerAt .endOfEvents))
  | .popResponse => inferInstanceAs (Decidable (s.ServerAt .popResponse))

instance : Decidable (s.Overcommitted k) := inferInstanceAs (Decidable (_ ∧ _))

instance : DecidablePred (s.HasRoom k) := fun l =>
  inferInstanceAs (Decidable (l.call?.isSome → ¬ (s.after l).Overcommitted k))

instance : Decidable (s.Deadlocked k) :=
  inferInstanceAs (Decidable ((_ ∧ _) ∧ _ ∧ _))

end Threads

/-- The steps of the threads, with queues of the capacities `k`. -/
def ThreadStep (k : Capacities) (s : Threads) (l : ThreadEvent) (t : Threads) : Prop :=
  s.Enabled k l ∧ t = s.after l

namespace Threads

variable {k : Capacities} {s t : Threads} {l : ThreadEvent} {ls : List ThreadEvent}
  {e : ExchangeEvent} {symbols : List SymbolDefinition}
  {users : AList fun _ : List UInt8 => UserInfo}

/-! ## The threads do what the exchange does -/

/-- The step begins one of the exchange, or goes on with what was begun. -/
theorem exchange_after (hen : s.Enabled k l) :
    (∃ e, l.exchange? = some e ∧ ExchangeStep s.exchange e (s.after l).exchange) ∨
      l.exchange? = none ∧ (s.after l).exchange = s.exchange := by
  cases l with
  | takeRequest => exact Or.inl ⟨_, rfl, hen.1, rfl⟩
  | process w => exact Or.inl ⟨_, rfl, trivial, rfl⟩
  | message l => exact Or.inl ⟨_, rfl, hen.2.2 l rfl, rfl⟩
  | closed fd w => exact Or.inl ⟨_, rfl, trivial, rfl⟩
  | hup fd w => exact Or.inl ⟨_, rfl, trivial, rfl⟩
  | _ => exact Or.inr ⟨rfl, rfl⟩

/-- **Refinement**: a run of the threads is one of the exchange. -/
theorem run_exchange (h : Run (ThreadStep k) s ls t) :
    Run ExchangeStep s.exchange (ls.filterMap ThreadEvent.exchange?) t.exchange := by
  induction h with
  | nil => exact .nil _
  | snoc _ step ih =>
    obtain ⟨hen, rfl⟩ := step
    rw [List.filterMap_append]
    rcases exchange_after hen with ⟨e, he, hstep⟩ | ⟨hnone, hsame⟩
    · rw [List.filterMap_cons_some he, List.filterMap_nil]
      exact .snoc ih hstep
    · rw [List.filterMap_cons_none hnone, List.filterMap_nil, List.append_nil, hsame]
      exact ih

/-! ## What is in the queues -/

/-- The server has a response to pop from `process` to `popResponse`. -/
theorem next_response {a b : ServerPosition} (h : a.next l = some b) :
    (a = .response ↔ l = .popResponse) ∧ (b = .response ↔ ∃ w, l = .process w) := by
  unfold ServerPosition.next at h
  split at h
  all_goals first
    | cases h
    | (split_ifs at h; cases h)
  all_goals simp

/-- What a call of the handler changes. -/
theorem after_call (he : l.call? = some e) :
    s.after l =
      { s with
        exchange := s.exchange.after e
        server := (s.server.next l).getD s.server
        requestsLeft := (s.exchange.after e).handler.toMatchingEngine.items.length -
          s.exchange.handler.toMatchingEngine.items.length } := by
  cases l <;> cases he <;> rfl

/-- The server's thread begins a call. -/
theorem serverAt_of_call (hen : s.Enabled k l) (he : l.call? = some e) : s.ServerAt l := by
  cases l with
  | process w => exact hen.1
  | message l => exact hen
  | closed fd w => exact hen
  | hup fd w => exact hen
  | _ => cases he

theorem call_ne_engineTurn (hen : s.Enabled k l) (he : l.call? = some e) : e ≠ .engineTurn := by
  rintro rfl
  cases l with
  | message l =>
    cases he
    obtain ⟨b, hb⟩ := Option.isSome_iff_exists.mp hen.2.1
    cases hserver : s.server <;> simp [hserver, ServerPosition.next, ExchangeEvent.readFrom?] at hb
  | _ => cases he

/-- The requests of a call have all still to get into the queue. -/
theorem requests_call (hh : s.exchange.HistoryFits) (hen : s.Enabled k l) (he : l.call? = some e) :
    ∃ ps, (s.after l).requests = s.requests ++ ps ∧ (s.after l).requestsLeft = ps.length := by
  have hne := call_ne_engineTurn hen he
  obtain ⟨ps, hitems⟩ := Exchange.items_after hh e
  refine ⟨ps, ?_, ?_⟩
  · simp only [requests, after_call he]
    exact Fifo.pending_append hitems (Exchange.taken_after hne)
  · simp only [after_call he, hitems, List.length_append]
    omega

/-- A response that the server takes keeps its place. -/
theorem responses_call (hen : s.Enabled k l) (he : l.call? = some e)
    (hleft : s.responsesLeft ≤ s.responses.length) :
    (s.after l).responses.length + (s.after l).serverBusy.toNat =
        s.responses.length + s.serverBusy.toNat ∧
      s.responsesLeft ≤ (s.after l).responses.length := by
  have hat := serverAt_of_call hen he
  obtain ⟨b, hb⟩ := Option.isSome_iff_exists.mp hat.2.1
  obtain ⟨ha, hb'⟩ := next_response hb
  have hserver : (s.after l).server = b := by
    simp only [after_call he, hb, Option.getD_some]
  -- process takes the response off the queue, and the server is busy with it
  by_cases hprocess : ∃ w, l = .process w
  · obtain ⟨w, rfl⟩ := hprocess
    cases he
    have hidle : s.server ≠ .response := fun h => by simpa using ha.mp h
    obtain ⟨p, hp⟩ : ∃ p, s.exchange.broker.toClient.front? = some p := by
      rw [← Option.isSome_iff_exists, Fifo.front?_eq_head?, List.isSome_head?]
      intro hnil
      have hlt := hen.2
      rw [responses, hnil] at hlt
      exact absurd hlt (Nat.not_lt_zero _)
    have hpending := Fifo.pending_of_front? hp
    have hresponses : (s.after (.process w)).responses = s.exchange.broker.toClient.pop.pending := by
      rw [← Exchange.toClient_handlerTurn (s := s.exchange) w]
      rfl
    have hlen : s.responses.length = (s.after (.process w)).responses.length + 1 := by
      rw [hresponses, responses, hpending, List.length_cons]
    have hlt := hen.2
    simp only [serverBusy, hserver, hb'.mpr ⟨w, rfl⟩, hidle]
    simp
    omega
  · have hbusy : s.server ≠ .response := by
      intro h
      obtain rfl := ha.mp h
      cases he
    have hbusy' : b ≠ .response := fun h => hprocess (hb'.mp h)
    have hsame : (s.after l).responses = s.responses := by
      have hother : ∀ w, e ≠ .handlerTurn w := by
        rintro w rfl
        cases l with
        | message l =>
          cases he
          cases hserver : s.server <;>
            simp [hserver, ServerPosition.next, ExchangeEvent.readFrom?] at hb
        | process w => exact hprocess ⟨w, rfl⟩
        | _ => cases he
      simp only [responses, after_call he]
      rw [Exchange.toClient_after (call_ne_engineTurn hen he) hother]
    simp only [serverBusy, hserver, hsame, hbusy, hbusy']
    exact ⟨trivial, hleft⟩

/-- The engine takes a request, and begins its responses. -/
structure Takes (s : Threads) (p : OePayload) (rest rs : List OePayload) (t : Threads) : Prop where
  requests : s.requests = p :: rest
  left : t.requests = rest
  broker : t.exchange.broker = (s.exchange.broker.handle p).broker
  responses : t.responses = s.responses ++ rs
  responsesLeft : t.responsesLeft = rs.length
  busy : t.engineBusy = true

theorem takes (hs : s.exchange.Sound) (hen : s.Enabled k .takeRequest) :
    ∃ p rest rs, s.Takes p rest rs (s.after .takeRequest) := by
  obtain ⟨p, hp⟩ : ∃ p, s.exchange.handler.toMatchingEngine.front? = some p := by
    rw [← Option.isSome_iff_exists, Fifo.front?_eq_head?, List.isSome_head?]
    intro hnil
    have hlt := hen.2.2
    rw [requests, hnil] at hlt
    exact absurd hlt (Nat.not_lt_zero _)
  obtain ⟨hfault, -, books, hagreed⟩ := hs
  obtain ⟨rs, hrs⟩ := s.exchange.broker.toClient_handle p
  have hafter := Exchange.after_engineTurn hagreed hp
  refine ⟨p, s.exchange.handler.toMatchingEngine.pop.pending, rs, Fifo.pending_of_front? hp, ?_, ?_,
    ?_, ?_, ?_⟩
  · simp only [after, requests, hafter]
  · simp only [after, hafter]
  · simp only [after, responses, hafter, hrs, Fifo.pending_pushAll]
  · simp only [after, hafter, hrs, Fifo.items_pushAll, List.length_append]
    omega
  · simp only [after, hafter, hfault, Option.isNone_none]

/-- A step of the server that begins no call is one of its control flow. -/
theorem after_server (hen : s.ServerAt l) (hnone : l.call? = none) :
    ∃ b, b ≠ .response ∧ s.after l = { s with server := b } := by
  obtain ⟨b, hb⟩ := Option.isSome_iff_exists.mp hen.2.1
  have hne : b ≠ .response := by
    intro h
    obtain ⟨w, rfl⟩ := (next_response hb).2.mp h
    cases hnone
  have hengine : ∀ a : ServerPosition, a.next .emplaceRequest = none ∧
      a.next .emplaceResponse = none ∧ a.next .takeRequest = none ∧ a.next .popRequest = none :=
    fun a => by cases a <;> simp [ServerPosition.next]
  refine ⟨b, hne, ?_⟩
  cases l with
  | emplaceRequest => cases hb.symm.trans (hengine _).1
  | emplaceResponse => cases hb.symm.trans (hengine _).2.1
  | takeRequest => cases hb.symm.trans (hengine _).2.2.1
  | popRequest => cases hb.symm.trans (hengine _).2.2.2
  | message l => cases hnone
  | closed fd w => cases hnone
  | hup fd w => cases hnone
  | process w => cases hnone
  | _ => simp only [after, ThreadEvent.call?, hb, Option.getD_some]

/-- The queues hold what the threads have put in and not yet popped, and no more than they can. -/
structure Fits (k : Capacities) (s : Threads) : Prop where
  requestsLeft : s.requestsLeft ≤ s.requests.length
  responsesLeft : s.responsesLeft ≤ s.responses.length
  requestsHeld : s.requestsHeld ≤ k.requests
  responsesHeld : s.responsesHeld ≤ k.responses
  idle : s.engineBusy = false → s.responsesLeft = 0

theorem fits_start (k : Capacities) : Fits k (start symbols users) := by
  have hresponses : (start symbols users).responses = [] := by
    show (Exchange.start symbols users).broker.toClient.pending = []
    rw [Exchange.toClient_start]
    rfl
  refine ⟨Nat.zero_le _, Nat.zero_le _, Nat.zero_le _, ?_, fun _ => rfl⟩
  rw [responsesHeld, hresponses]
  exact Nat.zero_le _

theorem Fits.call (hf : Fits k s) (hh : s.exchange.HistoryFits) (hen : s.Enabled k l)
    (he : l.call? = some e) : Fits k (s.after l) := by
  obtain ⟨ps, hrequests, hleft⟩ := requests_call hh hen he
  obtain ⟨hresponses, hle⟩ := responses_call hen he hf.responsesLeft
  have hsame : (s.after l).responsesLeft = s.responsesLeft := by rw [after_call he]
  have hbusy : (s.after l).engineBusy = s.engineBusy := by rw [after_call he]
  have hzero := (serverAt_of_call hen he).1
  have hheld := hf.requestsHeld
  have hheld' := hf.responsesHeld
  have hold := hf.responsesLeft
  simp only [Threads.requestsHeld, Threads.responsesHeld] at hheld hheld'
  refine ⟨?_, ?_, ?_, ?_, ?_⟩
  · rw [hleft, hrequests, List.length_append]
    omega
  · rw [hsame]
    exact hle
  · rw [Threads.requestsHeld, hleft, hrequests, hbusy, List.length_append]
    omega
  · rw [Threads.responsesHeld, hsame]
    omega
  · rw [hbusy, hsame]
    exact hf.idle

/-- **Every step** keeps to the capacities. -/
theorem Fits.step (hf : Fits k s) (hs : s.exchange.Sound) (hh : s.exchange.HistoryFits)
    (hen : s.Enabled k l) : Fits k (s.after l) := by
  obtain ⟨hrequests, hresponses, hheld, hheld', hidle⟩ := id hf
  simp only [Threads.requestsHeld, Threads.responsesHeld] at hheld hheld'
  -- a step of the server alone moves it to a place where it has no response
  have hserver : l.call? = none → s.ServerAt l → Fits k (s.after l) := by
    intro hnone hat
    obtain ⟨b, hb, hafter⟩ := after_server hat hnone
    rw [hafter]
    refine ⟨hrequests, hresponses, hheld, ?_, hidle⟩
    have hfree : decide (b = .response) = false := decide_eq_false hb
    show s.responses.length - s.responsesLeft + (decide (b = .response)).toNat ≤ k.responses
    rw [hfree, Bool.toNat_false]
    omega
  cases l with
  | emplaceRequest =>
    obtain ⟨hpos, hlt⟩ := hen
    simp only [Threads.requestsHeld] at hlt
    refine ⟨?_, hresponses, ?_, hheld', hidle⟩
    · show s.requestsLeft - 1 ≤ s.requests.length
      omega
    · show s.requests.length - (s.requestsLeft - 1) + s.engineBusy.toNat ≤ k.requests
      omega
  | emplaceResponse =>
    obtain ⟨hpos, hlt⟩ := hen
    simp only [Threads.responsesHeld] at hlt
    refine ⟨hrequests, ?_, hheld, ?_, fun h => ?_⟩
    · show s.responsesLeft - 1 ≤ s.responses.length
      omega
    · show s.responses.length - (s.responsesLeft - 1) + s.serverBusy.toNat ≤ k.responses
      omega
    · show s.responsesLeft - 1 = 0
      rw [hidle h]
  | takeRequest =>
    -- the request keeps its place until its responses are in, of which there are none yet
    obtain ⟨p, rest, rs, ht⟩ := takes hs hen
    obtain ⟨-, hbusy, hlt⟩ := hen
    have hleft : (s.after .takeRequest).requestsLeft = s.requestsLeft := rfl
    have hserver' : (s.after .takeRequest).serverBusy = s.serverBusy := rfl
    rw [ht.requests, List.length_cons] at hlt hheld
    rw [hbusy, Bool.toNat_false] at hheld
    rw [hidle hbusy] at hheld'
    refine ⟨?_, ?_, ?_, ?_, fun h => ?_⟩
    · rw [hleft, ht.left]
      omega
    · rw [ht.responsesLeft, ht.responses, List.length_append]
      omega
    · rw [Threads.requestsHeld, hleft, ht.left, ht.busy, Bool.toNat_true]
      omega
    · rw [Threads.responsesHeld, ht.responsesLeft, ht.responses, hserver', List.length_append]
      omega
    · rw [ht.busy] at h
      cases h
  | popRequest =>
    refine ⟨hrequests, hresponses, ?_, hheld', fun _ => hen.2⟩
    show s.requests.length - s.requestsLeft + false.toNat ≤ k.requests
    rw [hen.1] at hheld
    exact Nat.le_trans (Nat.add_le_add_left (Nat.zero_le _) _) hheld
  | process w => exact hf.call hh hen rfl
  | message l => exact hf.call hh hen rfl
  | closed fd w => exact hf.call hh hen rfl
  | hup fd w => exact hf.call hh hen rfl
  | epollWait nfds => exact hserver rfl hen.1
  | _ => exact hserver rfl hen

/-! ## Deadlocks -/

/-- A deadlock is of overcommitted queues: each holds all that it can, and more has still to get in. -/
theorem Deadlocked.overcommitted (hd : s.Deadlocked k) (hf : Fits k s) : s.Overcommitted k := by
  obtain ⟨⟨hpos, hfull⟩, hpos', hfull'⟩ := hd
  have hrequests := hf.requestsLeft
  have hresponses := hf.responsesLeft
  have hmore : s.responses.length ≤ _ := s.exchange.broker.pending_le_handleAll (s.mustLeave k)
  simp only [requestsHeld] at hfull
  simp only [responsesHeld] at hfull'
  constructor
  · omega
  · omega

/-- The engine's turn answers the first of the requests that must leave. -/
theorem Takes.overcommitted_iff {p : OePayload} {rest rs : List OePayload} (ht : s.Takes p rest rs t)
    (hidle : s.engineBusy = false) (hserver : t.serverBusy = s.serverBusy) :
    t.Overcommitted k ↔ s.Overcommitted k := by
  have hlen : s.requests.length = rest.length + 1 := by rw [ht.requests, List.length_cons]
  unfold Overcommitted
  rw [ht.busy, hidle, hserver, ht.left, Bool.toNat_true, Bool.toNat_false, hlen, Nat.add_zero]
  refine and_congr_right fun hlt => ?_
  have hleave : s.mustLeave k = p :: t.mustLeave k := by
    rw [mustLeave, mustLeave, ht.left, hlen, ht.requests, Nat.sub_add_comm (by omega),
      List.take_succ_cons]
  rw [hleave, ht.broker]
  rfl

/-- A step that begins no call overcommits nothing. -/
theorem overcommitted_of_after (hs : s.exchange.Sound) (hen : s.Enabled k l)
    (hnone : l.call? = none) (ho : (s.after l).Overcommitted k) : s.Overcommitted k := by
  have hserver : s.ServerAt l → s.Overcommitted k := by
    intro hat
    obtain ⟨b, hb, hafter⟩ := after_server hat hnone
    rw [hafter] at ho
    refine ⟨ho.1, Nat.lt_of_lt_of_le ho.2 (Nat.add_le_add_left ?_ _)⟩
    have hfree : decide (b = .response) = false := decide_eq_false hb
    show (decide (b = .response)).toNat ≤ _
    rw [hfree]
    exact Nat.zero_le _
  cases l with
  | emplaceRequest => exact ho
  | emplaceResponse => exact ho
  | takeRequest =>
    obtain ⟨p, rest, rs, ht⟩ := takes hs hen
    exact (ht.overcommitted_iff hen.2.1 rfl).mp ho
  | popRequest => exact ⟨Nat.lt_of_lt_of_le ho.1 (Nat.add_le_add_left (Nat.zero_le _) _), ho.2⟩
  | process w => cases hnone
  | message l => cases hnone
  | closed fd w => cases hnone
  | hup fd w => cases hnone
  | epollWait nfds => exact hserver hen.1
  | _ => exact hserver hen

/-- What the threads have still to do before they can only wait. -/
def work (s : Threads) : ℕ × ℕ × ℕ × ℕ :=
  (s.requests.length, s.engineBusy.toNat, s.responsesLeft, s.requestsLeft)

/-- Overcommitted queues that are not in a deadlock come nearer to one. -/
theorem exists_nearer (hk : 0 < k.requests) (hs : s.exchange.Sound) (hf : Fits k s)
    (ho : s.Overcommitted k) (hd : ¬ s.Deadlocked k) :
    ∃ l, s.Enabled k l ∧ (s.after l).Overcommitted k ∧
      WellFoundedRelation.rel (s.after l).work s.work := by
  have hheld := hf.requestsHeld
  have hheld' := hf.responsesHeld
  by_cases hput : s.Enabled k .emplaceRequest
  · refine ⟨_, hput, ho, Prod.Lex.right _ (Prod.Lex.right _ (Prod.Lex.right _ ?_))⟩
    exact Nat.sub_lt hput.1 Nat.one_pos
  -- the server is blocked
  have hblocked : s.ServerBlocked k := by
    have hmore := ho.1
    simp only [Enabled, not_and, Nat.not_lt] at hput
    simp only [requestsHeld] at hheld
    have hpos : 0 < s.requestsLeft := by omega
    exact ⟨hpos, hput hpos⟩
  cases hbusy : s.engineBusy with
  | false =>
    have hen : s.Enabled k .takeRequest := by
      have hfull := hblocked.2
      simp only [requestsHeld, hbusy, Bool.toNat_false] at hfull
      exact ⟨hs.1, hbusy, by omega⟩
    obtain ⟨p, rest, rs, ht⟩ := takes hs hen
    refine ⟨_, hen, (ht.overcommitted_iff hbusy rfl).mpr ho, Prod.Lex.left _ _ ?_⟩
    rw [ht.left, ht.requests]
    exact Nat.lt_succ_self _
  | true =>
    by_cases hpos : 0 < s.responsesLeft
    · have hput' : s.responsesHeld < k.responses := by
        by_contra hfull
        exact hd ⟨hblocked, hpos, Nat.le_of_not_lt hfull⟩
      refine ⟨.emplaceResponse, ⟨hpos, hput'⟩, ho,
        Prod.Lex.right _ (Prod.Lex.right _ (Prod.Lex.left _ _ ?_))⟩
      exact Nat.sub_lt hpos Nat.one_pos
    · have hnone : s.responsesLeft = 0 := Nat.eq_zero_of_not_pos hpos
      -- the responses in the queue fit, so another request must leave
      have hmore : k.requests < s.requests.length := by
        by_contra hle
        have hleave : s.mustLeave k = [] := by
          rw [mustLeave, Nat.sub_eq_zero_of_le (Nat.le_of_not_lt hle), List.take_zero]
        have hover : k.responses < s.responses.length + s.serverBusy.toNat := by
          have hover := ho.2
          rwa [hleave] at hover
        rw [responsesHeld, hnone] at hheld'
        omega
      refine ⟨.popRequest, ⟨hbusy, hnone⟩, ⟨hmore, ho.2⟩,
        Prod.Lex.right _ (Prod.Lex.left _ _ ?_)⟩
      show false.toNat < s.engineBusy.toNat
      rw [hbusy]
      exact Nat.one_pos

/-- A step keeps what holds of the exchange. -/
theorem sound_after (hs : s.exchange.Sound) (hh : s.exchange.HistoryFits) (hen : s.Enabled k l) :
    (s.after l).exchange.Sound ∧ (s.after l).exchange.HistoryFits := by
  rcases exchange_after hen with ⟨e, -, hstep⟩ | ⟨-, hsame⟩
  · exact ⟨hs.step hstep, hh.step hstep⟩
  · rw [hsame]
    exact ⟨hs, hh⟩

/-- **Overcommitted queues** lead to a deadlock, if the threads go on with what they have begun, and
the engine with the requests in its queue. -/
theorem deadlock_of_overcommitted (hk : 0 < k.requests) (hs : s.exchange.Sound)
    (hh : s.exchange.HistoryFits) (hf : Fits k s) (ho : s.Overcommitted k) :
    ∃ ls t, Run (ThreadStep k) s ls t ∧ t.Deadlocked k := by
  have hwf : WellFounded (InvImage WellFoundedRelation.rel work) :=
    InvImage.wf work WellFoundedRelation.wf
  induction s using hwf.induction with
  | _ s ih =>
    by_cases hd : s.Deadlocked k
    · exact ⟨[], s, .nil s, hd⟩
    obtain ⟨l, hen, ho', hless⟩ := exists_nearer hk hs hf ho hd
    obtain ⟨hs', hh'⟩ := sound_after hs hh hen
    obtain ⟨ls, t, hrun, hend⟩ := ih (s.after l) hless hs' hh' (hf.step hs hh hen) ho'
    exact ⟨l :: ls, t, .cons ⟨hen, rfl⟩ hrun, hend⟩

/-- A run keeps to the capacities. -/
theorem fits_run (h : Run (ThreadStep k) (start symbols users) ls s) :
    (s.exchange.Sound ∧ s.exchange.HistoryFits) ∧ Fits k s := by
  refine h.invariant (I := fun s => (s.exchange.Sound ∧ s.exchange.HistoryFits) ∧ Fits k s) ?_ ?_
  · rintro s l t ⟨⟨hs, hh⟩, hf⟩ ⟨hen, rfl⟩
    exact ⟨sound_after hs hh hen, hf.step hs hh hen⟩
  · exact ⟨⟨Exchange.sound_start symbols users, Exchange.historyFits_run (.nil _)⟩, fits_start k⟩

/-- A call without room can lead to a deadlock. -/
theorem deadlock_of_no_room (hk : 0 < k.requests)
    (h : Run (ThreadStep k) (start symbols users) ls s) (hen : s.Enabled k l)
    (hno : ¬ s.HasRoom k l) :
    ∃ ms t, Run (ThreadStep k) s (l :: ms) t ∧ t.Deadlocked k := by
  obtain ⟨⟨hs, hh⟩, hf⟩ := fits_run h
  obtain ⟨hs', hh'⟩ := sound_after hs hh hen
  have ho : (s.after l).Overcommitted k := by
    by_contra ho
    exact hno fun _ => ho
  obtain ⟨ms, t, hrun, hd⟩ := deadlock_of_overcommitted hk hs' hh' (hf.step hs hh hen) ho
  exact ⟨ms, t, .cons ⟨hen, rfl⟩ hrun, hd⟩

end Threads

/-- Steps that are enabled and have room make a guarded run. -/
theorem Threads.guarded_run_of_enabled {k : Capacities} {s : Threads} {ls : List ThreadEvent}
    (hen : ∀ i (hi : i < ls.length), ((ls.take i).foldl after s).Enabled k ls[i])
    (hroom : ∀ i (hi : i < ls.length), ((ls.take i).foldl after s).HasRoom k ls[i]) :
    Run (Guarded (HasRoom k) (ThreadStep k)) s ls (ls.foldl after s) := by
  have hrun : Run (fun s l t => (HasRoom k s l ∧ s.Enabled k l) ∧ t = s.after l) s ls
      (ls.foldl after s) := Run.of_foldl fun i hi => ⟨hroom i hi, hen i hi⟩
  exact hrun.mono fun _ _ _ h => ⟨h.1.1, h.1.2, h.2⟩

/-- **No deadlock**: in a run in which no call of the handler overcommits the queues, the server's and
the engine's thread never wait for each other. -/
theorem never_deadlocked {k : Capacities} {symbols : List SymbolDefinition}
    {users : AList fun _ : List UInt8 => UserInfo} {ls : List ThreadEvent} {s : Threads}
    (h : Run (Guarded (Threads.HasRoom k) (ThreadStep k)) (Threads.start symbols users) ls s) :
    ¬ s.Deadlocked k := by
  have hroom : ¬ s.Overcommitted k ∧ (s.exchange.Sound ∧ s.exchange.HistoryFits) ∧ s.Fits k := by
    refine h.invariant (I := fun s => ¬ s.Overcommitted k ∧
      (s.exchange.Sound ∧ s.exchange.HistoryFits) ∧ s.Fits k) ?_ ?_
    · rintro s l t ⟨ho, ⟨hs, hh⟩, hf⟩ ⟨hroom, hen, rfl⟩
      refine ⟨?_, Threads.sound_after hs hh hen, hf.step hs hh hen⟩
      -- only a call overcommits the queues
      cases hcall : l.call? with
      | none => exact fun ho' => ho (Threads.overcommitted_of_after hs hen hcall ho')
      | some e => exact hroom (Option.isSome_iff_exists.mpr ⟨e, hcall⟩)
    · refine ⟨?_, Threads.fits_run (.nil _)⟩
      rintro ⟨hlt, -⟩
      exact absurd hlt (Nat.not_lt_zero _)
  exact fun hd => hroom.1 (hd.overcommitted hroom.2.2)

/-- Two orders are sent at once, and the queue to the engine holds one. -/
theorem never_deadlocked_two :
    ∃ s, Run (ThreadStep ⟨1, 2⟩) ⟨Exchange.startGold, .responses, 0, false, 0⟩
        [.epollWait 1, .readable 5, .message (.login 5 ⟨⟨1, 100, 0⟩, [97], [97]⟩ 7 .fine),
          .message (.newOrder 5 ⟨⟨2, 100, 7⟩, 1, 1, Side.buy, 10, 50, 0⟩ 1000), .emplaceRequest,
          .message (.newOrder 5 ⟨⟨3, 100, 7⟩, 2, 1, Side.buy, 10, 50, 0⟩ 1001), .takeRequest,
          .emplaceResponse, .popRequest, .emplaceRequest, .takeRequest] s ∧
      ¬ s.Deadlocked ⟨1, 2⟩ := by
  have hrun : Run (Guarded (Threads.HasRoom ⟨1, 2⟩) (ThreadStep ⟨1, 2⟩))
      ⟨Exchange.startGold, .responses, 0, false, 0⟩
      [.epollWait 1, .readable 5, .message (.login 5 ⟨⟨1, 100, 0⟩, [97], [97]⟩ 7 .fine),
        .message (.newOrder 5 ⟨⟨2, 100, 7⟩, 1, 1, Side.buy, 10, 50, 0⟩ 1000), .emplaceRequest,
        .message (.newOrder 5 ⟨⟨3, 100, 7⟩, 2, 1, Side.buy, 10, 50, 0⟩ 1001), .takeRequest,
        .emplaceResponse, .popRequest, .emplaceRequest, .takeRequest] _ :=
    Threads.guarded_run_of_enabled (by decide +kernel) (by decide +kernel)
  exact ⟨_, hrun.of_guarded, never_deadlocked hrun⟩

/-- Three orders are sent at once, and each queue holds one. -/
theorem queues_deadlock :
    ∃ s, Run (ThreadStep ⟨1, 1⟩) ⟨Exchange.startGold, .responses, 0, false, 0⟩
        [.epollWait 1, .readable 5, .message (.login 5 ⟨⟨1, 100, 0⟩, [97], [97]⟩ 7 .fine),
          .message (.newOrder 5 ⟨⟨2, 100, 7⟩, 1, 1, Side.buy, 10, 50, 0⟩ 1000), .emplaceRequest,
          .takeRequest, .emplaceResponse, .popRequest,
          .message (.newOrder 5 ⟨⟨3, 100, 7⟩, 2, 1, Side.buy, 10, 50, 0⟩ 1001), .emplaceRequest,
          .takeRequest,
          .message (.newOrder 5 ⟨⟨4, 100, 7⟩, 3, 1, Side.buy, 10, 50, 0⟩ 1002)] s ∧
      s.Deadlocked ⟨1, 1⟩ :=
  ⟨_, Run.of_foldl (f := Threads.after) (by decide +kernel), by decide +kernel⟩

end Ndfex
