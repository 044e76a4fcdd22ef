import Ndfex.Containers.TaggedQueue
import Ndfex.Exchange.Messages
import Ndfex.OrderEntry.Alike
import Ndfex.Transition.Weave

/-!
# Forged requests

A request over a socket without its session is rejected, and nothing of it reaches a ladder. Its reject
goes through the engine and to the client that its header names, whoever sent it. So two runs that
differ in forged requests differ to a client exactly in those rejects; the client sees the same if
they reach only the sessions of others.

## Main definitions

* `Marked`: the exchange with marks on what forged requests put on its queues
* `SharedStep`, `HiddenStep`: the steps that a run has without and because of forged requests
* `Marked.Unheard`: no reject of a forged request reaches the session of the client
* `Similar`: the exchange looks to the client as if nothing had been forged

## Main results

* `Similar.shared`, `Similar.hidden`: both kinds of steps keep the two alike
* `forged_requests_unheard`: the client gets the same messages in both runs
* `forged_reject_heard`: a forged request that names the client
-/

namespace Ndfex

open Containers Transition

/-- The exchange with marks on the requests and the responses that come of forged requests. -/
structure Marked where
  exchange : Exchange
  requests : List Bool
  responses : List Bool

namespace Marked

variable (s : Marked)

/-- The exchange at its start. -/
def start (symbols : List SymbolDefinition) (users : AList fun _ : List UInt8 => UserInfo) :
    Marked :=
  ⟨Exchange.start symbols users, [], []⟩

/-- The event is a turn that takes what came of a forged request. -/
def TakesForged : ExchangeEvent → Prop
  | .engineTurn => s.exchange.handler.toMatchingEngine.frontTag s.requests = some true
  | .handlerTurn _ => s.exchange.broker.toClient.frontTag s.responses = some true
  | _ => False

/-- The event is a request without its session, over another socket than the client's. -/
def Forges (c : UInt32) (l : ExchangeEvent) : Prop :=
  ∃ r ∈ l.message?, ¬ s.exchange.handler.OfSession r.1 r.2 ∧
    (s.exchange.handler.session r.1).map SessionName.clientId ≠ some c

/-- The exchange and its marks after an event. -/
def after (forged : Bool) (l : ExchangeEvent) : Marked where
  exchange := s.exchange.after l
  requests := s.requests ++
    ((s.exchange.after l).handler.toMatchingEngine.items.drop s.requests.length).map fun _ => forged
  responses := s.responses ++
    ((s.exchange.after l).broker.toClient.items.drop s.responses.length).map fun _ =>
      (s.exchange.handler.toMatchingEngine.frontTag s.requests).getD false

/-- A reject of a forged request that the handler takes reaches no session of the client, and the
session of another client takes it. -/
def Unheard (c : UInt32) : ExchangeEvent → Prop
  | .handlerTurn w => s.TakesForged (.handlerTurn w) →
    ∀ p ∈ s.exchange.broker.toClient.front?, ∀ r ∈ s.exchange.handler.routed p.clientId,
      r.2.clientId ≠ c ∧ w.sent = true
  | _ => True

instance : DecidablePred s.TakesForged
  | .engineTurn => inferInstanceAs (Decidable (_ = _))
  | .handlerTurn _ => inferInstanceAs (Decidable (_ = _))
  | .login .. => instDecidableFalse
  | .newOrder .. => instDecidableFalse
  | .deleteOrder .. => instDecidableFalse
  | .modifyOrder .. => instDecidableFalse
  | .socketClosed .. => instDecidableFalse
  | .heartbeat => instDecidableFalse

instance (c : UInt32) : DecidablePred (s.Unheard c)
  | .handlerTurn w => inferInstanceAs (Decidable (s.TakesForged (.handlerTurn w) →
    ∀ p ∈ s.exchange.broker.toClient.front?, ∀ r ∈ s.exchange.handler.routed p.clientId,
      r.2.clientId ≠ c ∧ w.sent = true))
  | .login .. => instDecidableTrue
  | .newOrder .. => instDecidableTrue
  | .deleteOrder .. => instDecidableTrue
  | .modifyOrder .. => instDecidableTrue
  | .socketClosed .. => instDecidableTrue
  | .engineTurn => instDecidableTrue
  | .heartbeat => instDecidableTrue

instance (c : UInt32) : DecidablePred (s.Forges c) := fun l =>
  inferInstanceAs (Decidable (∃ r ∈ l.message?, ¬ s.exchange.handler.OfSession r.1 r.2 ∧
    (s.exchange.handler.session r.1).map SessionName.clientId ≠ some c))

end Marked

/-- A step that both runs take. -/
def SharedStep (s : Marked) (l : ExchangeEvent) (t : Marked) : Prop :=
  s.exchange.Enabled l ∧ ¬ s.TakesForged l ∧ t = s.after false l

/-- A step that only the run with forged requests takes: a forged request, or a turn that takes what
came of one. -/
def HiddenStep (c : UInt32) (s : Marked) (l : ExchangeEvent) (t : Marked) : Prop :=
  s.exchange.Enabled l ∧ (s.Forges c l ∨ s.TakesForged l) ∧ t = s.after true l

/-! ## What the steps keep -/

namespace Exchange

variable {s t : Exchange} {l : ExchangeEvent} {c : UInt32} {q q' : Fifo OePayload}

/-- The handlers stay alike after an event of both, if it is no turn of the engine. -/
theorem alike_after (ha : ClientHandler.Alike c q q' s.handler t.handler) (hl : l ≠ .engineTurn)
    (hfront : ∀ w, l = .handlerTurn w → s.broker.toClient.front? = t.broker.toClient.front?) :
    ClientHandler.Alike c q q' (s.after l).handler (t.after l).handler := by
  cases l with
  | login fd msg sessionId w => exact ha.onLogin fd msg sessionId
  | newOrder fd msg now => exact ha.receive fd (.newOrder msg now)
  | deleteOrder fd msg => exact ha.receive fd (.deleteOrder msg)
  | modifyOrder fd msg => exact ha.receive fd (.modifyOrder msg)
  | socketClosed fd w => exact ha.onSocketClosed fd
  | handlerTurn w =>
    simp only [after, handlerTurn, hfront w rfl]
    cases t.broker.toClient.front? with
    | none => exact ha
    | some p => exact ha.handle p
  | engineTurn => exact absurd rfl hl
  | heartbeat => exact ha

/-- The ladders represent the same books after an event that is no turn of the engine. -/
theorem broker_after {books : UInt32 → PriorityBook} {requests : List OePayload}
    (hs : s.broker.Sound requests books) (hl : l ≠ .engineTurn) :
    (s.after l).broker.Sound requests books ∧
      (∀ e, (s.after l).broker.clientOf e = s.broker.clientOf e) ∧
        ∀ symbol, (s.after l).broker.symbolToMatchingEngine.lookup symbol =
          s.broker.symbolToMatchingEngine.lookup symbol := by
  have hsame : ∀ B : MatchingEngineBroker, B = s.broker → B.Sound requests books ∧
      (∀ e, B.clientOf e = s.broker.clientOf e) ∧ ∀ symbol,
        B.symbolToMatchingEngine.lookup symbol = s.broker.symbolToMatchingEngine.lookup symbol := by
    rintro B rfl
    exact ⟨hs, fun _ => rfl, fun _ => rfl⟩
  cases l with
  | engineTurn => exact absurd rfl hl
  | heartbeat => exact ⟨hs.heartbeat, fun _ => rfl, fun _ => rfl⟩
  | newOrder fd msg now =>
    refine hsame _ ?_
    show (s.noteEntry fd msg now).broker = s.broker
    unfold noteEntry
    split_ifs <;> rfl
  | handlerTurn w =>
    simp only [after, handlerTurn]
    cases s.broker.toClient.front? with
    | none => exact hsame _ rfl
    | some p => exact ⟨{ hs with }, fun _ => rfl, fun _ => rfl⟩
  | _ => exact hsame _ rfl

/-- What a turn of the engine with a request leaves. -/
structure TookRequest (s : Exchange) (books : UInt32 → PriorityBook) (p : OePayload) (t : Exchange) :
    Prop where
  handler : t.handler =
    { s.handler with toMatchingEngine := s.handler.toMatchingEngine.pop }
  items : t.broker.toClient.items = s.broker.toClient.items ++ s.broker.responses books p
  taken : t.broker.toClient.taken = s.broker.toClient.taken
  broker : t.broker.Sound t.handler.toMatchingEngine.taken (s.broker.booksOf books p)
  owners : ∀ e, t.broker.clientOf e =
    if (s.broker.opOf p).isSome then (s.broker.accept p).clientOf e else s.broker.clientOf e
  symbols : ∀ symbol, (t.broker.symbolToMatchingEngine.lookup symbol).isSome =
    (s.broker.symbolToMatchingEngine.lookup symbol).isSome

theorem tookRequest {books : UInt32 → PriorityBook} {p : OePayload} (hs : s.Sound)
    (hbooks : s.broker.Sound s.handler.toMatchingEngine.taken books)
    (hp : s.handler.toMatchingEngine.front? = some p) :
    s.TookRequest books p (s.after .engineTurn) := by
  obtain ⟨-, -, books', hagreed⟩ := hs
  obtain ⟨hhandled, hsound⟩ := hbooks.handle (hagreed.fresh hp)
  rw [after_engineTurn hagreed hp]
  refine ⟨rfl, hhandled.items, hhandled.taken, ?_, hhandled.owners, hhandled.symbols⟩
  show (s.broker.handle p).broker.Sound s.handler.toMatchingEngine.pop.taken _
  rw [Fifo.taken_pop hp]
  exact hsound

end Exchange

/-- The exchange looks to the client like one in which nothing was forged: its handler is alike, its
ladders represent the same books, and its queues have the same besides what was forged, which are
rejects. -/
structure Similar (c : UInt32) (s : Exchange) (t : Marked) : Prop where
  sound : s.Sound ∧ t.exchange.Sound
  fits : s.HistoryFits ∧ t.exchange.HistoryFits
  alike : ClientHandler.Alike c s.handler.toMatchingEngine t.exchange.handler.toMatchingEngine
    s.handler t.exchange.handler
  books : ∃ books, s.broker.Sound s.handler.toMatchingEngine.taken books ∧
    t.exchange.broker.Sound t.exchange.handler.toMatchingEngine.taken books
  owners : ∀ e, t.exchange.broker.clientOf e = s.broker.clientOf e
  symbols : ∀ symbol, (t.exchange.broker.symbolToMatchingEngine.lookup symbol).isSome =
    (s.broker.symbolToMatchingEngine.lookup symbol).isSome
  requests_length : t.requests.length = t.exchange.handler.toMatchingEngine.items.length
  responses_length : t.responses.length = t.exchange.broker.toClient.items.length
  requests : t.exchange.handler.toMatchingEngine.waiting t.requests false =
    s.handler.toMatchingEngine.pending
  responses : t.exchange.broker.toClient.waiting t.responses false = s.broker.toClient.pending
  forged : ∀ p, p ∈ t.exchange.handler.toMatchingEngine.waiting t.requests true ∨
    p ∈ t.exchange.broker.toClient.waiting t.responses true → p.msgType = .reject

namespace Similar

variable {c : UInt32} {s s' : Exchange} {t t' : Marked} {l : ExchangeEvent}

theorem start (c : UInt32) (symbols : List SymbolDefinition)
    (users : AList fun _ : List UInt8 => UserInfo) :
    Similar c (Exchange.start symbols users) (Marked.start symbols users) := by
  have hsound := Exchange.sound_start symbols users
  obtain ⟨-, -, books, hagreed⟩ := id hsound
  have htoClient := Exchange.toClient_start symbols users
  refine ⟨⟨hsound, hsound⟩, ⟨Exchange.historyFits_run (.nil _), Exchange.historyFits_run (.nil _)⟩,
    ⟨rfl, rfl, ⟨[], rfl, rfl⟩, rfl, rfl, rfl, fun _ => rfl, fun _ _ h _ => h, rfl⟩,
    ⟨books, hagreed.sound, hagreed.sound⟩, fun _ => rfl, fun _ => rfl, rfl, ?_, rfl, ?_, ?_⟩
  · show 0 = (Exchange.start symbols users).broker.toClient.items.length
    rw [htoClient]
    rfl
  · show (Exchange.start symbols users).broker.toClient.waiting [] false = _
    rw [htoClient]
    rfl
  · rintro p (hp | hp)
    · cases hp
    · have hempty : p ∈ (Exchange.start symbols users).broker.toClient.waiting [] true := hp
      rw [htoClient] at hempty
      cases hempty

/-- The marks after an event that is no turn of the engine. -/
theorem marks_after (hs : Similar c s t) (hl : l ≠ .engineTurn) (forged : Bool) :
    ∃ ps, (t.exchange.after l).handler.toMatchingEngine.items =
        t.exchange.handler.toMatchingEngine.items ++ ps ∧
      (t.after forged l).requests = t.requests ++ ps.map (fun _ => forged) ∧
        (t.after forged l).responses = t.responses := by
  obtain ⟨ps, hitems⟩ := Exchange.items_after hs.fits.2 l
  refine ⟨ps, hitems, ?_, ?_⟩
  · simp only [Marked.after, hitems, hs.requests_length, List.drop_left]
  · simp only [Marked.after, Exchange.responses_after_of_ne hl, hs.responses_length,
      List.drop_length, List.map_nil, List.append_nil]

/-- The marks after a turn of the engine. -/
theorem marks_engineTurn (hs : Similar c s t) (forged : Bool) {rs : List OePayload}
    (hrequests : (t.exchange.after .engineTurn).handler.toMatchingEngine.items =
      t.exchange.handler.toMatchingEngine.items)
    (hresponses : (t.exchange.after .engineTurn).broker.toClient.items =
      t.exchange.broker.toClient.items ++ rs) :
    (t.after forged .engineTurn).requests = t.requests ∧
      (t.after forged .engineTurn).responses = t.responses ++ rs.map fun _ =>
        (t.exchange.handler.toMatchingEngine.frontTag t.requests).getD false := by
  constructor
  · simp only [Marked.after, hrequests, hs.requests_length, List.drop_length, List.map_nil,
      List.append_nil]
  · simp only [Marked.after, hresponses, hs.responses_length, List.drop_left]

/-- What is forged on the queues after an event that is no turn of the engine. -/
theorem forged_after (hs : Similar c s t) (hl : l ≠ .engineTurn) {forged : Bool}
    (hrequests : ∀ p ∈ (t.after forged l).exchange.handler.toMatchingEngine.waiting
      (t.after forged l).requests true,
        p ∈ t.exchange.handler.toMatchingEngine.waiting t.requests true ∨ p.msgType = .reject) :
    ∀ p, p ∈ (t.after forged l).exchange.handler.toMatchingEngine.waiting
        (t.after forged l).requests true ∨
      p ∈ (t.after forged l).exchange.broker.toClient.waiting (t.after forged l).responses true →
        p.msgType = .reject := by
  rintro p (hp | hp)
  · rcases hrequests p hp with hold | hreject
    · exact hs.forged p (Or.inl hold)
    · exact hreject
  · refine hs.forged p (Or.inr ?_)
    obtain ⟨ps, -, -, hmarks⟩ := hs.marks_after hl forged
    have hp' : p ∈ (t.exchange.after l).broker.toClient.waiting t.responses true := hmarks ▸ hp
    by_cases hhandler : ∃ w, l = .handlerTurn w
    · obtain ⟨w, rfl⟩ := hhandler
      rw [Exchange.toClient_handlerTurn] at hp'
      exact Fifo.mem_waiting_of_mem_pop hs.responses_length hp'
    · rwa [Exchange.toClient_after hl fun w hw => hhandler ⟨w, hw⟩] at hp'

/-- A shared step that is no turn of the engine. -/
theorem shared_of_ne (hs : Similar c s t) (hl : l ≠ .engineTurn) (hstep : ExchangeStep s l s')
    (hstep' : SharedStep t l t') : Similar c s' t' := by
  obtain ⟨hen, rfl⟩ := hstep
  obtain ⟨hen', hnot, rfl⟩ := hstep'
  -- neither run takes what came of a forged request
  have hresponses : ∀ w, l = .handlerTurn w →
      s.broker.toClient.front? = t.exchange.broker.toClient.front? ∧
        t.exchange.broker.toClient.pop.waiting t.responses false = s.broker.toClient.pop.pending := by
    rintro w rfl
    refine Fifo.front_of_waiting hs.responses_length (fun b hb => ?_) hs.responses
    cases b with
    | false => rfl
    | true => exact absurd hb hnot
  have halike := Exchange.alike_after hs.alike hl fun w hw => (hresponses w hw).1
  obtain ⟨ps, hps, hps'⟩ := halike.requests
  obtain ⟨rs, hitems, hmarks, hmarks'⟩ := hs.marks_after hl false
  obtain rfl : ps = rs := by
    rw [hps', Fifo.items_pushAll] at hitems
    exact List.append_cancel_left hitems
  obtain ⟨books, hbooks, hbooks'⟩ := hs.books
  obtain ⟨hbroker, howners, hsymbols⟩ := Exchange.broker_after hbooks hl
  obtain ⟨hbroker', howners', hsymbols'⟩ := Exchange.broker_after hbooks' hl
  have hitems_responses := @Exchange.responses_after_of_ne t.exchange l hl
  refine ⟨⟨hs.sound.1.step ⟨hen, rfl⟩, hs.sound.2.step ⟨hen', rfl⟩⟩,
    ⟨hs.fits.1.step ⟨hen, rfl⟩, hs.fits.2.step ⟨hen', rfl⟩⟩,
    { halike with requests := ⟨[], rfl, rfl⟩ }, ⟨books, ?_, ?_⟩, fun e => ?_, fun symbol => ?_,
    ?_, ?_, ?_, ?_, ?_⟩
  · rw [Exchange.taken_after hl]
    exact hbroker
  · show (t.exchange.after l).broker.Sound (t.exchange.after l).handler.toMatchingEngine.taken books
    rw [Exchange.taken_after hl]
    exact hbroker'
  · exact (howners' e).trans ((hs.owners e).trans (howners e).symm)
  · show ((t.exchange.after l).broker.symbolToMatchingEngine.lookup symbol).isSome = _
    rw [hsymbols', hsymbols]
    exact hs.symbols symbol
  · show _ = (t.exchange.after l).handler.toMatchingEngine.items.length
    rw [hmarks, hitems, List.length_append, List.length_append, List.length_map,
      hs.requests_length]
  · show _ = (t.exchange.after l).broker.toClient.items.length
    rw [hmarks', hitems_responses, hs.responses_length]
  · show (t.exchange.after l).handler.toMatchingEngine.waiting _ false = _
    rw [hmarks, Fifo.waiting_append hs.requests_length hitems (Exchange.taken_after hl), if_pos rfl,
      hs.requests, hps, Fifo.pending_pushAll]
  · show (t.exchange.after l).broker.toClient.waiting _ false = _
    rw [hmarks']
    by_cases hhandler : ∃ w, l = .handlerTurn w
    · obtain ⟨w, rfl⟩ := hhandler
      rw [Exchange.toClient_handlerTurn, Exchange.toClient_handlerTurn]
      exact (hresponses w rfl).2
    · have hother : ∀ w, l ≠ .handlerTurn w := fun w hw => hhandler ⟨w, hw⟩
      rw [Exchange.toClient_after hl hother, Exchange.toClient_after hl hother]
      exact hs.responses
  · refine hs.forged_after hl fun p hp => Or.inl ?_
    have hp : p ∈ (t.exchange.after l).handler.toMatchingEngine.waiting
      (t.after false l).requests true := hp
    rw [hmarks, Fifo.waiting_append hs.requests_length hitems (Exchange.taken_after hl)] at hp
    simpa using hp

/-- A turn of the engine in both runs, on a request that was not forged. -/
theorem shared_engineTurn (hs : Similar c s t) (hstep : ExchangeStep s .engineTurn s')
    (hstep' : SharedStep t .engineTurn t') : Similar c s' t' := by
  obtain ⟨hen, rfl⟩ := hstep
  obtain ⟨hen', hnot, rfl⟩ := hstep'
  have hsound := And.intro (hs.sound.1.step ⟨hen, rfl⟩) (hs.sound.2.step ⟨hen', rfl⟩)
  have hfits := And.intro (hs.fits.1.step ⟨hen, rfl⟩) (hs.fits.2.step ⟨hen', rfl⟩)
  have htag : ∀ b ∈ t.exchange.handler.toMatchingEngine.frontTag t.requests, b = false := by
    intro b hb
    cases b with
    | false => rfl
    | true => exact absurd hb hnot
  obtain ⟨hfront, hpop⟩ := Fifo.front_of_waiting hs.requests_length htag hs.requests
  cases hp : t.exchange.handler.toMatchingEngine.front? with
  | none =>
    have hsame : s.after .engineTurn = s := by
      simp only [Exchange.after, Exchange.engineTurn, hfront, hp]
    have hsame' : t.exchange.after .engineTurn = t.exchange := by
      simp only [Exchange.after, Exchange.engineTurn, hp]
    have hmarks : t.after false .engineTurn = t := by
      simp [Marked.after, hsame', hs.requests_length, hs.responses_length]
    rw [hsame, hmarks]
    exact hs
  | some p =>
    rw [hp] at hfront
    obtain ⟨books, hbooks, hbooks'⟩ := hs.books
    have htook := Exchange.tookRequest hs.sound.1 hbooks hfront
    have htook' := Exchange.tookRequest hs.sound.2 hbooks' hp
    have hresponses := MatchingEngineBroker.responses_congr hs.owners hs.symbols books p
    have hop := MatchingEngineBroker.opOf_congr hs.symbols p
    have hrequests : (t.exchange.after .engineTurn).handler.toMatchingEngine =
        t.exchange.handler.toMatchingEngine.pop := by rw [htook'.handler]
    have hrequests' : (s.after .engineTurn).handler.toMatchingEngine =
        s.handler.toMatchingEngine.pop := by rw [htook.handler]
    obtain ⟨hmarks, hmarks'⟩ := hs.marks_engineTurn false
      (by rw [hrequests, Fifo.items_pop]) htook'.items
    have hmark : (t.exchange.handler.toMatchingEngine.frontTag t.requests).getD false = false := by
      cases hfrontTag : t.exchange.handler.toMatchingEngine.frontTag t.requests with
      | none => rfl
      | some b => exact htag b hfrontTag
    rw [hmark] at hmarks'
    refine ⟨hsound, hfits, ?_, ⟨s.broker.booksOf books p, htook.broker, ?_⟩, fun e => ?_,
      fun symbol => ?_, ?_, ?_, ?_, ?_, ?_⟩
    · show ClientHandler.Alike c _ (t.exchange.after .engineTurn).handler.toMatchingEngine _
        (t.exchange.after .engineTurn).handler
      rw [htook.handler, htook'.handler]
      exact { hs.alike with requests := ⟨[], rfl, rfl⟩ }
    · have hbooksOf : t.exchange.broker.booksOf books p = s.broker.booksOf books p := by
        rw [MatchingEngineBroker.booksOf, MatchingEngineBroker.booksOf, hop]
      exact hbooksOf ▸ htook'.broker
    · refine (htook'.owners e).trans (Eq.trans ?_ (htook.owners e).symm)
      rw [hop, MatchingEngineBroker.clientOf_accept_congr hs.owners, hs.owners]
    · exact (htook'.symbols symbol).trans ((hs.symbols symbol).trans (htook.symbols symbol).symm)
    · show _ = (t.exchange.after .engineTurn).handler.toMatchingEngine.items.length
      rw [hmarks, hrequests, Fifo.items_pop, hs.requests_length]
    · show _ = (t.exchange.after .engineTurn).broker.toClient.items.length
      rw [hmarks', htook'.items, List.length_append, List.length_append, List.length_map,
        hs.responses_length]
    · show (t.exchange.after .engineTurn).handler.toMatchingEngine.waiting _ false = _
      rw [hmarks, hrequests, hrequests']
      exact hpop
    · show (t.exchange.after .engineTurn).broker.toClient.waiting _ false = _
      rw [hmarks', Fifo.waiting_append hs.responses_length htook'.items htook'.taken, if_pos rfl,
        hs.responses, hresponses]
      -- the same responses come behind in the other run
      exact (Fifo.pending_append htook.items htook.taken).symm
    · rintro q (hq | hq)
      · have hq' : q ∈ (t.exchange.after .engineTurn).handler.toMatchingEngine.waiting
            t.requests true := hmarks ▸ hq
        rw [hrequests] at hq'
        exact hs.forged q (Or.inl (Fifo.mem_waiting_of_mem_pop hs.requests_length hq'))
      · have hq' : q ∈ (t.exchange.after .engineTurn).broker.toClient.waiting (t.responses ++
            (t.exchange.broker.responses books p).map fun _ => false) true := hmarks' ▸ hq
        rw [Fifo.waiting_append hs.responses_length htook'.items htook'.taken] at hq'
        exact hs.forged q (Or.inr (by simpa using hq'))

/-- A turn of the engine on a forged request passes its reject on. -/
theorem hidden_engineTurn (hs : Similar c s t) (hen : t.exchange.Enabled .engineTurn)
    (htakes : t.TakesForged .engineTurn) : Similar c s (t.after true .engineTurn) := by
  have hsound := hs.sound.2.step ⟨hen, rfl⟩
  have hfits := hs.fits.2.step ⟨hen, rfl⟩
  have hfrontTag : t.exchange.handler.toMatchingEngine.frontTag t.requests = some true := htakes
  obtain ⟨p, hp⟩ : ∃ p, t.exchange.handler.toMatchingEngine.front? = some p := by
    obtain ⟨hlt, -⟩ := List.getElem?_eq_some_iff.mp hfrontTag
    rw [hs.requests_length] at hlt
    exact ⟨_, List.getElem?_eq_getElem hlt⟩
  -- a forged request left a reject, which the engine passes on without a call of a ladder
  have hreject : p.msgType = .reject :=
    hs.forged p (Or.inl (Fifo.mem_waiting_of_front hs.requests_length hp hfrontTag))
  obtain ⟨books, hbooks, hbooks'⟩ := hs.books
  have htook := Exchange.tookRequest hs.sound.2 hbooks' hp
  obtain ⟨hop, hresponses, hbooksOf⟩ :=
    @MatchingEngineBroker.responses_of_reject t.exchange.broker p books hreject
  have hrequests : (t.exchange.after .engineTurn).handler.toMatchingEngine =
      t.exchange.handler.toMatchingEngine.pop := by rw [htook.handler]
  have hitems := htook.items
  rw [hresponses] at hitems
  obtain ⟨hmarks, hmarks'⟩ := hs.marks_engineTurn true (by rw [hrequests, Fifo.items_pop]) hitems
  rw [hfrontTag, Option.getD_some] at hmarks'
  have hwaiting : ∀ b, (t.exchange.after .engineTurn).broker.toClient.waiting
      (t.responses ++ [p].map fun _ => true) b =
        t.exchange.broker.toClient.waiting t.responses b ++ if true = b then [p] else [] := fun b =>
    Fifo.waiting_append hs.responses_length hitems htook.taken true
  refine ⟨⟨hs.sound.1, hsound⟩, ⟨hs.fits.1, hfits⟩, ?_, ⟨books, hbooks, ?_⟩, fun e => ?_,
    fun symbol => ?_, ?_, ?_, ?_, ?_, ?_⟩
  · show ClientHandler.Alike c _ (t.exchange.after .engineTurn).handler.toMatchingEngine _
      (t.exchange.after .engineTurn).handler
    rw [htook.handler]
    exact { hs.alike with requests := ⟨[], rfl, rfl⟩ }
  · exact hbooksOf ▸ htook.broker
  · refine (htook.owners e).trans ?_
    rw [hop]
    exact hs.owners e
  · exact (htook.symbols symbol).trans (hs.symbols symbol)
  · show _ = (t.exchange.after .engineTurn).handler.toMatchingEngine.items.length
    rw [hmarks, hrequests, Fifo.items_pop, hs.requests_length]
  · show _ = (t.exchange.after .engineTurn).broker.toClient.items.length
    rw [hmarks', hitems, List.length_append, List.length_append, List.length_map,
      hs.responses_length]
  · show (t.exchange.after .engineTurn).handler.toMatchingEngine.waiting _ false = _
    rw [hmarks, hrequests, Fifo.waiting_pop_of_ne hs.requests_length hfrontTag (by simp),
      hs.requests]
  · show (t.exchange.after .engineTurn).broker.toClient.waiting _ false = _
    rw [hmarks', hwaiting, hs.responses]
    simp
  · rintro q (hq | hq)
    · have hq' : q ∈ (t.exchange.after .engineTurn).handler.toMatchingEngine.waiting
          t.requests true := hmarks ▸ hq
      rw [hrequests] at hq'
      exact hs.forged q (Or.inl (Fifo.mem_waiting_of_mem_pop hs.requests_length hq'))
    · have hq' : q ∈ (t.exchange.after .engineTurn).broker.toClient.waiting (t.responses ++
          [p].map fun _ => true) true := hmarks' ▸ hq
      rw [hwaiting, if_pos rfl] at hq'
      rcases List.mem_append.mp hq' with hold | hnew
      · exact hs.forged q (Or.inr hold)
      · rw [List.mem_singleton.mp hnew]
        exact hreject

/-- A forged request leaves its reject on the queue, and nothing else. -/
theorem hidden_forges (hs : Similar c s t) (hen : t.exchange.Enabled l) (hforges : t.Forges c l) :
    Similar c s (t.after true l) := by
  obtain ⟨⟨fd, m⟩, hm, hno, -⟩ := hforges
  have hl : l ≠ .engineTurn := by
    rintro rfl
    cases hm
  have hl' : ∀ w, l ≠ .handlerTurn w := by
    rintro w rfl
    cases hm
  have hhandler := @Exchange.handler_after_message t.exchange l fd m hm
  rw [ClientHandler.receive_of_not_ofSession hno] at hhandler
  obtain ⟨books, hbooks, hbooks'⟩ := hs.books
  obtain ⟨hbroker, howners, hsymbols⟩ := Exchange.broker_after hbooks' hl
  obtain ⟨ps, hitems, hmarks, hmarks'⟩ := hs.marks_after hl true
  -- what comes on the queue is the reject
  obtain rfl : ps = [.make .reject m.orderId 0 m.header.seqNum m.header.clientId Side.buy 0 0
      RejectReason.unknownSessionId.byte] := by
    have hpushed := hitems
    rw [hhandler] at hpushed
    exact (List.append_cancel_left hpushed).symm
  have hwaiting : ∀ b, (t.exchange.after l).handler.toMatchingEngine.waiting
      (t.after true l).requests b = t.exchange.handler.toMatchingEngine.waiting t.requests b ++
        if true = b then _ else [] := fun b => by
    rw [hmarks]
    exact Fifo.waiting_append hs.requests_length hitems (Exchange.taken_after hl) true
  refine ⟨⟨hs.sound.1, hs.sound.2.step ⟨hen, rfl⟩⟩, ⟨hs.fits.1, hs.fits.2.step ⟨hen, rfl⟩⟩, ?_,
    ⟨books, hbooks, ?_⟩, fun e => (howners e).trans (hs.owners e), fun symbol => ?_, ?_, ?_, ?_, ?_,
    ?_⟩
  · show ClientHandler.Alike c _ (t.exchange.after l).handler.toMatchingEngine _
      (t.exchange.after l).handler
    rw [hhandler]
    exact { hs.alike with requests := ⟨[], rfl, rfl⟩ }
  · show (t.exchange.after l).broker.Sound (t.exchange.after l).handler.toMatchingEngine.taken books
    rw [Exchange.taken_after hl]
    exact hbroker
  · show ((t.exchange.after l).broker.symbolToMatchingEngine.lookup symbol).isSome = _
    rw [hsymbols]
    exact hs.symbols symbol
  · show _ = (t.exchange.after l).handler.toMatchingEngine.items.length
    rw [hmarks, hitems, List.length_append, List.length_append, List.length_map,
      hs.requests_length]
  · show _ = (t.exchange.after l).broker.toClient.items.length
    rw [hmarks', Exchange.responses_after_of_ne hl, hs.responses_length]
  · show (t.exchange.after l).handler.toMatchingEngine.waiting (t.after true l).requests false = _
    rw [hwaiting, if_neg (by simp), List.append_nil, hs.requests]
  · show (t.exchange.after l).broker.toClient.waiting _ false = _
    rw [hmarks', Exchange.toClient_after hl hl', hs.responses]
  · refine hs.forged_after hl fun p hp => ?_
    have hp : p ∈ (t.exchange.after l).handler.toMatchingEngine.waiting
      (t.after true l).requests true := hp
    rw [hwaiting, if_pos rfl] at hp
    rcases List.mem_append.mp hp with hold | hnew
    · exact Or.inl hold
    · right
      rw [List.mem_singleton.mp hnew]
      rfl

/-- A turn of the handler on the reject of a forged request, which the client does not hear of. -/
theorem hidden_handlerTurn {w : Circumstances} (hs : Similar c s t)
    (htakes : t.TakesForged (.handlerTurn w)) (hunheard : t.Unheard c (.handlerTurn w)) :
    Similar c s (t.after true (.handlerTurn w)) := by
  have hl : ExchangeEvent.handlerTurn w ≠ .engineTurn := nofun
  have hen : t.exchange.Enabled (.handlerTurn w) := trivial
  have hfrontTag : t.exchange.broker.toClient.frontTag t.responses = some true := htakes
  obtain ⟨p, hp⟩ : ∃ p, t.exchange.broker.toClient.front? = some p := by
    obtain ⟨hlt, -⟩ := List.getElem?_eq_some_iff.mp hfrontTag
    rw [hs.responses_length] at hlt
    exact ⟨_, List.getElem?_eq_getElem hlt⟩
  have hreject : p.msgType = .reject :=
    hs.forged p (Or.inr (Fifo.mem_waiting_of_front hs.responses_length hp hfrontTag))
  have hother : ∀ fd info, t.exchange.handler.routed p.clientId = some (fd, info) →
      info.clientId ≠ c ∧ w.sent = true := fun fd info hrouted =>
    hunheard htakes p hp (fd, info) hrouted
  have halike := hs.alike.handle_other hreject hother
  have hhandler : (t.exchange.after (.handlerTurn w)).handler = t.exchange.handler.handle p w := by
    simp only [Exchange.after, Exchange.handlerTurn, hp, Exchange.withHandler]
  rw [← hhandler] at halike
  obtain ⟨books, hbooks, hbooks'⟩ := hs.books
  obtain ⟨hbroker, howners, hsymbols⟩ := Exchange.broker_after hbooks' hl
  obtain ⟨ps, hitems, hmarks, hmarks'⟩ := hs.marks_after hl true
  -- the handler sends no request because of a reject
  obtain rfl : ps = [] := by
    obtain ⟨rs, hrs, hrs'⟩ := halike.requests
    have hnone : s.handler.toMatchingEngine.items ++ [] =
        s.handler.toMatchingEngine.items ++ rs := by
      rw [List.append_nil, ← Fifo.items_pushAll, ← hrs]
    rw [hrs', ← List.append_cancel_left hnone] at hitems
    rw [← List.append_cancel_left (hitems.symm.trans (List.append_nil _).symm)]
  rw [List.append_nil] at hitems
  rw [List.map_nil, List.append_nil] at hmarks
  have hrequests : ∀ b, (t.exchange.after (.handlerTurn w)).handler.toMatchingEngine.waiting
      t.requests b = t.exchange.handler.toMatchingEngine.waiting t.requests b := fun b =>
    Fifo.waiting_congr hitems (Exchange.taken_after hl)
  refine ⟨⟨hs.sound.1, hs.sound.2.step ⟨hen, rfl⟩⟩, ⟨hs.fits.1, hs.fits.2.step ⟨hen, rfl⟩⟩,
    { halike with requests := ⟨[], rfl, rfl⟩ }, ⟨books, hbooks, ?_⟩,
    fun e => (howners e).trans (hs.owners e), fun symbol => ?_, ?_, ?_, ?_, ?_, ?_⟩
  · show (t.exchange.after _).broker.Sound (t.exchange.after _).handler.toMatchingEngine.taken books
    rw [Exchange.taken_after hl]
    exact hbroker
  · show ((t.exchange.after _).broker.symbolToMatchingEngine.lookup symbol).isSome = _
    rw [hsymbols]
    exact hs.symbols symbol
  · show _ = (t.exchange.after _).handler.toMatchingEngine.items.length
    rw [hmarks, hitems, hs.requests_length]
  · show _ = (t.exchange.after _).broker.toClient.items.length
    rw [hmarks', Exchange.responses_after_of_ne hl, hs.responses_length]
  · show (t.exchange.after _).handler.toMatchingEngine.waiting _ false = _
    rw [hmarks, hrequests, hs.requests]
  · show (t.exchange.after _).broker.toClient.waiting _ false = _
    rw [hmarks', Exchange.toClient_handlerTurn,
      Fifo.waiting_pop_of_ne hs.responses_length hfrontTag (by simp), hs.responses]
  · refine hs.forged_after hl fun q hq => Or.inl ?_
    have hq : q ∈ (t.exchange.after (.handlerTurn w)).handler.toMatchingEngine.waiting
      (t.after true (.handlerTurn w)).requests true := hq
    rwa [hmarks, hrequests] at hq

/-- **A shared step** keeps the two alike. -/
theorem shared (hs : Similar c s t) (hstep : ExchangeStep s l s') (hstep' : SharedStep t l t') :
    Similar c s' t' := by
  by_cases hl : l = .engineTurn
  · subst hl
    exact hs.shared_engineTurn hstep hstep'
  · exact hs.shared_of_ne hl hstep hstep'

/-- **A hidden step** that the client does not hear of keeps the two alike. -/
theorem hidden (hs : Similar c s t) (hunheard : t.Unheard c l) (hstep : HiddenStep c t l t') :
    Similar c s t' := by
  obtain ⟨hen, hforges | htakes, rfl⟩ := hstep
  · exact hs.hidden_forges hen hforges
  cases l with
  | engineTurn => exact hs.hidden_engineTurn hen htakes
  | handlerTurn w => exact hs.hidden_handlerTurn htakes hunheard
  | _ => exact absurd htakes id

end Similar

/-- The run with the forged requests is a run of the exchange. -/
theorem Marked.run {c : UInt32} {s₀ s : Exchange} {t₀ t : Marked} {ls ms : List ExchangeEvent}
    (h : Weave ExchangeStep SharedStep (HiddenStep c) s₀ t₀ ls ms s t) :
    Run ExchangeStep t₀.exchange ms t.exchange := by
  induction h with
  | nil => exact .nil _
  | shared _ _ step ih =>
    obtain ⟨hen, -, rfl⟩ := step
    exact .snoc ih ⟨hen, rfl⟩
  | hidden _ step ih =>
    obtain ⟨hen, -, rfl⟩ := step
    exact .snoc ih ⟨hen, rfl⟩

/-- **Forged requests**: a run has, besides the events of another, requests over sockets without the
client's session that fail the session check, and the turns on what comes of them. If the rejects of
these requests do not reach the client, then the same messages are written to it in both runs. -/
theorem forged_requests_unheard {c : UInt32} {symbols : List SymbolDefinition}
    {users : AList fun _ : List UInt8 => UserInfo} {ls ms : List ExchangeEvent} {s : Exchange}
    {t : Marked}
    (h : Weave ExchangeStep SharedStep (fun t l t' => t.Unheard c l ∧ HiddenStep c t l t')
      (Exchange.start symbols users) (Marked.start symbols users) ls ms s t) :
    (Run ExchangeStep (Exchange.start symbols users) ls s ∧
      Run ExchangeStep (Exchange.start symbols users) ms t.exchange ∧ ls.Sublist ms) ∧
        messagesTo c t.exchange.handler.written = messagesTo c s.handler.written := by
  have hsimilar : Similar c s t := by
    refine h.invariant (I := Similar c) ?_ ?_ (Similar.start c symbols users)
    · intro s t l s' t' hs left right
      exact hs.shared left right
    · intro s t l t' hs step
      exact hs.hidden step.1 step.2
  have hplain := h.mono (fun _ _ _ h => h) (fun _ _ _ h => h) fun _ _ _ h => h.2
  exact ⟨⟨hplain.left, Marked.run hplain, hplain.sublist⟩, hsimilar.alike.written⟩

/-- A forged request names a client without a session. -/
theorem forged_requests_unheard_nobody :
    ∃ s t, Weave ExchangeStep SharedStep (HiddenStep 100) Exchange.startGold
        ⟨Exchange.startGold, [], []⟩
        [.login 5 ⟨⟨1, 100, 0⟩, [97], [97]⟩ 7 .fine,
          .newOrder 5 ⟨⟨2, 100, 7⟩, 1, 1, Side.buy, 10, 50, 0⟩ 1000, .engineTurn, .handlerTurn .fine]
        [.login 5 ⟨⟨1, 100, 0⟩, [97], [97]⟩ 7 .fine,
          .newOrder 6 ⟨⟨9, 300, 7⟩, 1, 1, Side.buy, 10, 50, 0⟩ 1001,
          .newOrder 5 ⟨⟨2, 100, 7⟩, 1, 1, Side.buy, 10, 50, 0⟩ 1000,
          .engineTurn, .engineTurn, .handlerTurn .fine, .handlerTurn .fine] s t ∧
      messagesTo 100 t.exchange.handler.written = messagesTo 100 s.handler.written := by
  have hweave : Weave ExchangeStep SharedStep (fun t l t' => t.Unheard 100 l ∧ HiddenStep 100 t l t')
      Exchange.startGold ⟨Exchange.startGold, [], []⟩ _ _ _ _ :=
    ((((((Weave.nil.shared (l := .login 5 ⟨⟨1, 100, 0⟩, [97], [97]⟩ 7 .fine)
      ⟨by decide +kernel, rfl⟩ ⟨by decide +kernel, by decide +kernel, rfl⟩).hidden
      (l := .newOrder 6 ⟨⟨9, 300, 7⟩, 1, 1, Side.buy, 10, 50, 0⟩ 1001)
      ⟨by decide +kernel, by decide +kernel, by decide +kernel, rfl⟩).shared
      (l := .newOrder 5 ⟨⟨2, 100, 7⟩, 1, 1, Side.buy, 10, 50, 0⟩ 1000)
      ⟨by decide +kernel, rfl⟩ ⟨by decide +kernel, by decide +kernel, rfl⟩).hidden
      (l := .engineTurn) ⟨by decide +kernel, by decide +kernel, by decide +kernel, rfl⟩).shared
      (l := .engineTurn)
      ⟨by decide +kernel, rfl⟩ ⟨by decide +kernel, by decide +kernel, rfl⟩).hidden
      (l := .handlerTurn .fine)
      ⟨by decide +kernel, by decide +kernel, by decide +kernel, rfl⟩).shared
      (l := .handlerTurn .fine)
      ⟨by decide +kernel, rfl⟩ ⟨by decide +kernel, by decide +kernel, rfl⟩
  exact ⟨_, _, hweave.mono (fun _ _ _ h => h) (fun _ _ _ h => h) fun _ _ _ h => h.2,
    (forged_requests_unheard hweave).2⟩

/-- A forged request names the client, which gets its reject. -/
theorem forged_reject_heard :
    ∃ s t, Weave ExchangeStep SharedStep (HiddenStep 100) Exchange.startGold
        ⟨Exchange.startGold, [], []⟩
        [.login 5 ⟨⟨1, 100, 0⟩, [97], [97]⟩ 7 .fine]
        [.login 5 ⟨⟨1, 100, 0⟩, [97], [97]⟩ 7 .fine,
          .newOrder 6 ⟨⟨9, 100, 0⟩, 1, 1, Side.buy, 10, 50, 0⟩ 1000, .engineTurn,
          .handlerTurn .fine] s t ∧
      (s.handler.session 5 = some ⟨7, 100⟩ ∧ s.handler.toMatchingEngine.pending = [] ∧
        s.broker.toClient.pending = []) ∧
      (t.exchange.handler.session 5 = some ⟨7, 100⟩ ∧
        t.exchange.handler.toMatchingEngine.pending = [] ∧
          t.exchange.broker.toClient.pending = []) ∧
      messagesTo 100 t.exchange.handler.written ≠ messagesTo 100 s.handler.written := by
  have hweave : Weave ExchangeStep SharedStep (HiddenStep 100) Exchange.startGold
      ⟨Exchange.startGold, [], []⟩ _ _ _ _ :=
    (((Weave.nil.shared (l := .login 5 ⟨⟨1, 100, 0⟩, [97], [97]⟩ 7 .fine)
      ⟨by decide +kernel, rfl⟩ ⟨by decide +kernel, by decide +kernel, rfl⟩).hidden
      (l := .newOrder 6 ⟨⟨9, 100, 0⟩, 1, 1, Side.buy, 10, 50, 0⟩ 1000)
      ⟨by decide +kernel, by decide +kernel, rfl⟩).hidden
      (l := .engineTurn) ⟨by decide +kernel, by decide +kernel, rfl⟩).hidden
      (l := .handlerTurn .fine) ⟨by decide +kernel, by decide +kernel, rfl⟩
  refine ⟨_, _, hweave, by decide +kernel, by decide +kernel, fun hsame => ?_⟩
  exact absurd (congrArg List.length hsame) (by decide +kernel)

end Ndfex
