import Ndfex.Trading.Wire

/-!
# Bytes and messages

However the two streams are cut, the client and the server do what they do with whole messages: a call of
`parse` is some deliveries, one for each request that is complete, and a call of `process` reads the
responses that are. So what holds of a client and the exchange holds of them over bytes.

## Main definitions

* `Wired.Carries`: the bytes on the way are those of the messages on the way
* `Wired.AllRead`: no response waits for the client

## Main results

* `Wired.Carries.step`: every step over bytes is some steps with messages
* `wired_refines`: every run over bytes is one with messages
* `wired_positions_reconcile`: the client's positions, over bytes
* `positions_when_read`: once all responses are read, the client's positions are those in clearing
* `modified_side_forgotten`: an order that is modified to the other side counts on its first side
-/

namespace Ndfex

open Bots Containers Transition Wire

namespace Trading

variable {s t : Trading} {fd : Int32} {n : SessionName} {old : List Written}

/-- **Some deliveries**, one after the other. -/
theorem run_deliver {done rest : List Request} {arrivals : List Arrival}
    (hlength : arrivals.length = done.length) (hpending : s.requests.pending = done ++ rest)
    (hen : Exchange.Along Exchange.Enabled s.exchange (List.zipWith
      (fun r (a : Arrival) => r.event fd a.now a.sessionId a.circumstances) done arrivals))
    (hsafe : Exchange.Along (Wired.Safe fd n) s.exchange (List.zipWith
      (fun r (a : Arrival) => r.event fd a.now a.sessionId a.circumstances) done arrivals)) :
    ∃ ls t, Run (Guarded (Careful fd n) (TradingStep fd)) s ls t ∧
      t.exchange = (List.zipWith
        (fun r (a : Arrival) => r.event fd a.now a.sessionId a.circumstances) done arrivals).foldl
          Exchange.after s.exchange ∧
      t.client = s.client ∧ t.requests.items = s.requests.items ∧ t.requests.pending = rest ∧
      t.responses.pending = s.responses.pending ++ (s.exchange.messagesAlong (List.zipWith
        (fun r (a : Arrival) => r.event fd a.now a.sessionId a.circumstances) done arrivals)).filter
          fun x => x.sockFd = fd := by
  induction done generalizing s arrivals with
  | nil =>
    refine ⟨[], s, .nil s, rfl, rfl, rfl, hpending, ?_⟩
    exact (List.append_nil _).symm
  | cons r done ih =>
    cases arrivals with
    | nil => cases hlength
    | cons a arrivals =>
      rw [List.zipWith_cons_cons] at hen hsafe
      obtain ⟨hfirst, hen⟩ := hen
      obtain ⟨hsafeFirst, hsafe⟩ := hsafe
      have hfront : s.requests.front? = some r := by
        rw [Fifo.front?_eq_head?, hpending]
        rfl
      have hpop : s.requests.pop.pending = done ++ rest := by
        have hcons := Fifo.pending_of_front? hfront
        rw [hpending] at hcons
        exact (List.cons.inj hcons).2.symm
      have hafter : s.after fd (.deliver a.now a.sessionId a.circumstances) =
          { s with requests := s.requests.pop }.advance fd
            (r.event fd a.now a.sessionId a.circumstances) := by
        simp only [after, hfront]
      -- the event of the step is that of the first request
      have hevent : ∀ e ∈ s.event? fd (.deliver a.now a.sessionId a.circumstances),
          e = r.event fd a.now a.sessionId a.circumstances := by
        intro e he
        simp only [event?, hfront] at he
        exact (Option.some.inj he).symm
      obtain ⟨ls, t, hrun, hexchange, hclient, hitems, hrequests, hresponses⟩ :=
        @ih (s.after fd (.deliver a.now a.sessionId a.circumstances)) arrivals
          (Nat.succ.inj hlength) (by rw [hafter]; exact hpop) (by rw [hafter]; exact hen)
          (by rw [hafter]; exact hsafe)
      have hcareful : s.Careful fd n (.deliver a.now a.sessionId a.circumstances) :=
        ⟨trivial, trivial, fun e he => hevent e he ▸ hsafeFirst⟩
      have henabled : s.Enabled fd (.deliver a.now a.sessionId a.circumstances) :=
        fun e he => hevent e he ▸ hfirst
      refine ⟨_, t, .cons ⟨hcareful, henabled, rfl⟩ hrun, ?_, ?_, ?_, hrequests, ?_⟩
      · rw [hexchange, hafter]
        rfl
      · rw [hclient, hafter]
        rfl
      · rw [hitems, hafter]
        exact Fifo.items_pop _
      · rw [hresponses, hafter]
        show (s.responses.pushAll _).pending ++ _ = _
        rw [Fifo.pending_pushAll, List.append_assoc, ← List.filter_append]
        rfl

/-- **Some reads**, one after the other. -/
theorem run_take {done rest : List Response} (hquiet : ∀ r ∈ done, ¬ ResponseThrows r.body.type)
    (hpending : s.responses.pending.map Written.response = done ++ rest) :
    ∃ ls t, Run (Guarded (Careful fd n) (TradingStep fd)) s ls t ∧ t.exchange = s.exchange ∧
      t.client = done.foldl (fun c r => c.take r.body) s.client ∧ t.requests = s.requests ∧
      t.responses.pending.map Written.response = rest := by
  induction done generalizing s with
  | nil => exact ⟨[], s, .nil s, rfl, rfl, rfl, hpending⟩
  | cons r done ih =>
    obtain ⟨x, xs, hcons, rfl, htail⟩ := List.map_eq_cons_iff.mp hpending
    have hfront : s.responses.front? = some x := by
      rw [Fifo.front?_eq_head?, hcons]
      rfl
    have hpop : s.responses.pop.pending = xs := by
      have hboth := Fifo.pending_of_front? hfront
      rw [hcons] at hboth
      exact (List.cons.inj hboth).2.symm
    -- the client knows the type, so that its loop goes on
    have hafter : s.after fd .take = { s with
        responses := s.responses.pop, client := s.client.take x.response.body } := by
      simp only [after, hfront, Trading.read, if_neg (hquiet x.response (by simp))]
    obtain ⟨ls, t, hrun, hexchange, hclient, hrequests, hresponses⟩ :=
      @ih (s.after fd .take) (fun r hr => hquiet r (List.mem_cons_of_mem _ hr))
        (by rw [hafter]; dsimp only; rw [hpop]; exact htail)
    have hcareful : s.Careful fd n .take := ⟨trivial, trivial, by rintro e ⟨⟩⟩
    have henabled : s.Enabled fd .take := by rintro e ⟨⟩
    refine ⟨_, t, .cons ⟨hcareful, henabled, rfl⟩ hrun, ?_, ?_, ?_, hresponses⟩
    · rw [hexchange, hafter]
    · rw [hclient, hafter]
      rfl
    · rw [hrequests, hafter]

end Trading

namespace Wired

variable {w w' : Wired} {s t : Trading} {l : WiredEvent} {fd : Int32} {n : SessionName}
  {old : List Written}

/-- The bytes on their way are those of the messages on their way, but for the beginnings of the next
messages, which are buffered. -/
structure Carries (fd : Int32) (w : Wired) (s : Trading) : Prop where
  exchange : w.exchange = s.exchange
  client : w.client.unbuffered = s.client
  status : w.status = .returned
  sent : w.sent = s.sent
  requests : w.parser.buffer fd ++ w.requests = s.requests.pending.flatMap Request.encode
  parsed : StreamParser.PartOf (w.parser.buffer fd) s.requests.pending
  responses : w.client.buffer ++ w.responses =
    (s.responses.pending.map Written.response).flatMap Response.encode
  processed : responseLoop.PartOf w.client.buffer (s.responses.pending.map Written.response)

/-- Part of the first of some requests is part of the first of more. -/
theorem partOf_append {bs : List UInt8} {rest : List Request} (h : StreamParser.PartOf bs rest)
    (more : List Request) : StreamParser.PartOf bs (rest ++ more) := by
  refine h.imp_right ?_
  rintro ⟨r, hr, hpart⟩
  refine ⟨r, ?_, hpart⟩
  cases rest with
  | nil => cases hr
  | cons => exact hr

/-- And part of the first of some responses. -/
theorem held_append {bs : List UInt8} {rest : List Response} (h : responseLoop.PartOf bs rest)
    (more : List Response) : responseLoop.PartOf bs (rest ++ more) := by
  refine h.imp_right ?_
  rintro ⟨r, hr, hpart⟩
  refine ⟨r, ?_, hpart⟩
  cases rest with
  | nil => cases hr
  | cons => exact hr

theorem flatMap_responses (xs : List Written) : (xs.flatMap fun x => x.response.encode) =
    (xs.map Written.response).flatMap Response.encode := by
  rw [List.flatMap_map]

/-- What the client has not read is readable. -/
theorem readable_pending (hs : s.Followed fd n old) :
    ∀ r ∈ s.responses.pending.map Written.response, r.Readable := by
  intro r hr
  obtain ⟨x, hx, rfl⟩ := List.mem_map.mp hr
  have hitem : x ∈ s.responses.items := by
    rw [← Fifo.taken_append_pending]
    exact List.mem_append_right _ hx
  obtain ⟨p, -, -, orderId, hbody, -⟩ := hs.told hitem
  obtain ⟨xs, hwritten, hitems, -⟩ := hs.channel
  refine ⟨hs.attended.formed x ?_, ?_⟩
  · rw [hwritten]
    exact List.mem_append_right _ (List.mem_filter.mp (hitems ▸ hitem)).1
  · rw [hbody]
    exact p.message_quiet orderId

/-- What the server has not taken is well formed. -/
theorem wellFormed_pending (hs : s.Followed fd n old) : ∀ r ∈ s.requests.pending, r.WellFormed := by
  intro r hr
  have hitem : r ∈ s.requests.items := by
    rw [← Fifo.taken_append_pending]
    exact List.mem_append_right _ hr
  cases r with
  | login msg => exact absurd rfl (hs.disciplined.orders _ hitem msg)
  | _ => trivial

namespace Carries

/-- The bytes that the server reads are of the requests that it has not taken. -/
theorem chunk_prefix (h : w.Carries fd s) (count : ℕ) :
    w.parser.buffer fd ++ w.requests.take count <+: s.requests.pending.flatMap Request.encode := by
  rw [← h.requests]
  exact (List.prefix_append_right_inj _).mpr (List.take_prefix _ _)

/-- The bytes that the client reads are of the messages that it has not read. -/
theorem read_prefix (h : w.Carries fd s) (count : ℕ) :
    w.client.buffer ++ w.responses.take count <+:
      (s.responses.pending.map Written.response).flatMap Response.encode := by
  rw [← h.responses]
  exact (List.prefix_append_right_inj _).mpr (List.take_prefix _ _)

/-- **A call of `parse`** returns, and calls the handler for the requests that are complete. -/
theorem parse_takes (h : w.Carries fd s) (hs : s.Followed fd n old) {count : ℕ} {now : UInt64}
    {beyond : ℕ → UInt8} (hthrottled : ¬ w.parser.Throttled (w.chunk fd count now beyond)) :
    ∃ rounds done rest, s.requests.pending = done ++ rest ∧
      (w.parser.walk (w.chunk fd count now beyond) rounds).status = .returned ∧
      w.handed fd (w.parser.walk (w.chunk fd count now beyond) rounds) = done ∧
      w.parser.buffer fd ++ w.requests.take count = done.flatMap Request.encode ++
        (w.parser.walk (w.chunk fd count now beyond) rounds).parser.buffer fd ∧
      StreamParser.PartOf ((w.parser.walk (w.chunk fd count now beyond) rounds).parser.buffer fd)
        rest := by
  obtain ⟨hstatus, hcalls, -, hbuffer⟩ := StreamParser.enter_of_not_throttled hthrottled
  have hstart : (w.parser.walk (w.chunk fd count now beyond) 0).parser.buffer fd =
      w.parser.buffer fd ++ w.requests.take count := hbuffer
  obtain ⟨rounds, done, rest, hsplit, hreturned, hdone, hbytes, hpart, -⟩ :=
    @StreamParser.walk_framed w.parser (w.chunk fd count now beyond) _ (wellFormed_pending hs) 0
      hstatus (by show (w.parser.walk _ 0).parser.buffer fd <+: _; rw [hstart]; exact h.chunk_prefix _)
  refine ⟨rounds, done, rest, hsplit, hreturned, ?_, hstart ▸ hbytes, hpart⟩
  have hbefore : (w.parser.walk (w.chunk fd count now beyond) 0).parser.requestsOn fd =
      w.parser.requestsOn fd := by
    have hsame : (w.parser.walk (w.chunk fd count now beyond) 0).parser.calls = w.parser.calls := hcalls
    rw [StreamParser.requestsOn, StreamParser.callsOn, hsame]
    rfl
  rw [handed]
  rw [show (w.parser.walk _ rounds).parser.requestsOn fd = _ from hdone]
  rw [show (w.parser.walk _ 0).parser.requestsOn (w.chunk fd count now beyond).sockFd = _ from hbefore,
    List.drop_left]

/-- The exchange goes on in the same way for messages and bytes. -/
theorem responses_advance (h : w.Carries fd s) {xs : List Written}
    (hpending : t.responses.pending = s.responses.pending ++ xs) :
    w.client.buffer ++ (w.responses ++ xs.flatMap fun x => x.response.encode) =
      (t.responses.pending.map Written.response).flatMap Response.encode := by
  rw [hpending, List.map_append, List.flatMap_append, ← h.responses, flatMap_responses,
    List.append_assoc]

/-- **Every step over bytes** is some steps with messages. -/
theorem step (h : w.Carries fd s) (hs : s.Followed fd n old) (hcareful : w.Careful fd n l)
    (hstep : WiredStep fd w l w') :
    ∃ ls t, Run (Guarded (Trading.Careful fd n) (TradingStep fd)) s ls t ∧ w'.Carries fd t := by
  obtain ⟨hen, rfl⟩ := hstep
  cases l with
  | exchange e =>
    obtain ⟨hapart, hsafe⟩ := hcareful
    have hcareful' : s.Careful fd n (.exchange e) := by
      refine ⟨hapart, trivial, fun e' he' => ?_⟩
      obtain rfl := Option.some.inj he'
      exact h.exchange ▸ hsafe
    have hen' : s.Enabled fd (.exchange e) := by
      intro e' he'
      obtain rfl := Option.some.inj he'
      exact h.exchange ▸ hen
    have hpending : (s.after fd (.exchange e)).responses.pending = s.responses.pending ++
        (w.exchange.messagesAlong [e]).filter fun x => x.sockFd = fd := by
      show (s.responses.pushAll _).pending = _
      rw [Fifo.pending_pushAll, h.exchange, Exchange.messagesAlong, Exchange.messagesAlong,
        List.append_nil]
    refine ⟨[.exchange e], _, .snoc (.nil s) ⟨hcareful', hen', rfl⟩, ?_, h.client, h.status, h.sent,
      h.requests, h.parsed, h.responses_advance hpending, ?_⟩
    · show w.exchange.after e = s.exchange.after e
      rw [h.exchange]
    · rw [hpending, List.map_append]
      exact held_append h.processed _
  | elsewhere c rounds =>
    have hsame := StreamParser.same_walk (Ne.symm hcareful) w.parser rounds
    refine ⟨[], s, .nil s, h.exchange, h.client, h.status, h.sent, ?_, ?_, h.responses, h.processed⟩
    · show (w.parser.walk c rounds).parser.buffer fd ++ w.requests = _
      rw [hsame.buffer]
      exact h.requests
    · show StreamParser.PartOf ((w.parser.walk c rounds).parser.buffer fd) _
      rw [hsame.buffer]
      exact h.parsed
  | call k =>
    have hrequest : s.client.request k = w.client.request k := by
      rw [← h.client, OEClient.request_unbuffered]
    have hbuffer : (w.client.call k).buffer = w.client.buffer := by
      cases k <;> rfl
    have hpending : (s.after fd (.call k)).requests.pending =
        s.requests.pending ++ [w.client.request k] := by
      show (s.requests.push _).pending = _
      rw [Fifo.pending_push, hrequest]
    have hcareful' : s.Careful fd n (.call k) := by
      refine ⟨trivial, ?_, by rintro e ⟨⟩⟩
      show k.Orderly s.client s.sent
      rw [← h.sent, ← h.client]
      exact hcareful
    have hen' : s.Enabled fd (.call k) := by rintro e ⟨⟩
    refine ⟨[.call k], _, .snoc (.nil s) ⟨hcareful', hen', rfl⟩, h.exchange, ?_, h.status, ?_, ?_, ?_,
      ?_, ?_⟩
    · show (w.client.call k).unbuffered = s.client.call k
      rw [OEClient.unbuffered_call, h.client]
    · show (w.client.call k).written.filterMap _ = (s.requests.items ++ [_]).filterMap _
      rw [OEClient.written_call, List.filterMap_append, List.filterMap_append, hrequest]
      exact congrArg (· ++ _) h.sent
    · rw [hpending, List.flatMap_append, ← h.requests]
      simp [after]
    · rw [hpending]
      exact partOf_append h.parsed _
    · show (w.client.call k).buffer ++ w.responses = _
      rw [hbuffer]
      exact h.responses
    · show responseLoop.PartOf (w.client.call k).buffer _
      rw [hbuffer]
      exact h.processed
  | parse count now beyond rounds arrivals closing =>
    obtain ⟨hthrottled, hsafe⟩ := hcareful
    obtain ⟨hstopped, hlength, hevents⟩ := hen
    obtain ⟨rounds', done, rest, hsplit, hreturned, hhanded, hbytes, hpart⟩ := h.parse_takes hs hthrottled
    -- the call is the one that returns
    have hwalk : w.parser.walk (w.chunk fd count now beyond) rounds =
        w.parser.walk (w.chunk fd count now beyond) rounds' := by
      have hstopped' : (w.parser.walk (w.chunk fd count now beyond) rounds').status ≠ .running := by
        rw [hreturned]
        decide
      rcases Nat.le_total rounds rounds' with hle | hle
      · exact (StreamParser.walk_of_stopped hstopped hle).symm
      · exact StreamParser.walk_of_stopped hstopped' hle
    have hopen : (w.parser.walk (w.chunk fd count now beyond) rounds').status ≠ .closed := by
      rw [hreturned]
      decide
    simp only [after]
    rw [hwalk] at hlength hevents hsafe ⊢
    rw [if_neg hopen]
    simp only [events, hhanded, if_neg hopen, List.append_nil] at hlength hevents hsafe ⊢
    rw [h.exchange] at hevents hsafe
    obtain ⟨ls, t, hrun, hexchange, hclient, hitems, hrequests, hresponses⟩ :=
      Trading.run_deliver hlength hsplit hevents hsafe
    refine ⟨ls, t, hrun, ?_, ?_, h.status, ?_, ?_, ?_, ?_, ?_⟩
    · rw [hexchange, ← h.exchange]
      rfl
    · exact h.client.trans hclient.symm
    · refine Eq.trans h.sent ?_
      rw [Trading.sent, Trading.sent, hitems]
    · have hall := h.requests
      rw [hsplit, List.flatMap_append, ← List.take_append_drop count w.requests, ← List.append_assoc,
        hbytes, List.append_assoc] at hall
      rw [hrequests]
      exact List.append_cancel_left hall
    · rw [hrequests]
      exact hpart
    · rw [← h.exchange] at hresponses
      exact h.responses_advance hresponses
    · rw [hresponses, List.map_append]
      exact held_append h.processed _
  | process count rounds =>
    obtain ⟨-, hstopped⟩ := hen
    simp only [after]
    by_cases hnone : w.responses.take count = []
    · -- there is nothing to read
      have hsame : w.client.process (w.reading count) rounds = ⟨w.client, .returned⟩ := by
        rw [reading, if_pos hnone]
        rfl
      have hdrop : w.responses.drop count = w.responses := by
        have hsplit := List.take_append_drop count w.responses
        rwa [hnone, List.nil_append] at hsplit
      refine ⟨[], s, .nil s, h.exchange, ?_, ?_, ?_, h.requests, h.parsed, ?_, ?_⟩
      all_goals simp only [hsame, hdrop]
      · exact h.client
      · exact h.sent
      · exact h.responses
      · exact h.processed
    have hreading : w.reading count = some (w.responses.take count) := by rw [reading, if_neg hnone]
    rw [hreading] at hstopped ⊢
    obtain ⟨rounds', done, rest, hsplit, hreturned, hacted, hbytes, hpart⟩ :=
      OEClient.process_takes (readable_pending hs) _ (h.read_prefix count)
    have hwalk := OEClient.process_unique hstopped (m := rounds') (by rw [hreturned]; decide)
    have hwritten : (w.client.process (some (w.responses.take count)) rounds').client.written =
        w.client.written := by
      have hview := congrArg OEClient.written hacted
      rw [OEClient.written_foldl_take] at hview
      exact hview
    rw [hwalk]
    have hquiet : ∀ r ∈ done, ¬ ResponseThrows r.body.type := by
      intro r hr
      refine (readable_pending hs r ?_).2
      rw [hsplit]
      exact List.mem_append_left _ hr
    obtain ⟨ls, t, hrun, hexchange, hclient, hrequests, hresponses⟩ :=
      @Trading.run_take s fd n done rest hquiet hsplit
    refine ⟨ls, t, hrun, ?_, ?_, hreturned, ?_, ?_, ?_, ?_, ?_⟩
    · exact h.exchange.trans hexchange.symm
    · rw [hclient, ← h.client]
      exact hacted
    · refine Eq.trans ?_ (Eq.trans h.sent ?_)
      · exact congrArg (List.filterMap Request.newOrder?) hwritten
      · rw [Trading.sent, Trading.sent, hrequests]
    · rw [hrequests]
      exact h.requests
    · rw [hrequests]
      exact h.parsed
    · have hall := h.responses
      rw [hsplit, List.flatMap_append, ← List.take_append_drop count w.responses, ← List.append_assoc,
        hbytes, List.append_assoc] at hall
      rw [hresponses]
      exact List.append_cancel_left hall
    · rw [hresponses]
      exact hpart

/-- Nothing is on its way at the start. -/
theorem start {exchange : Exchange} {parser : StreamParser} {client : OEClient}
    (hparser : parser.buffer fd = []) (hbuffer : client.buffer = [])
    (hsent : client.written.filterMap Request.newOrder? = []) :
    (Wired.start exchange parser client).Carries fd (Trading.start exchange client.unbuffered) := by
  refine ⟨rfl, rfl, rfl, hsent, ?_, .inl hparser, ?_, .inl hbuffer⟩
  · show parser.buffer fd ++ [] = _
    rw [hparser]
    rfl
  · show client.buffer ++ [] = _
    rw [hbuffer]
    rfl

end Carries

end Wired

section

variable {symbols : List SymbolDefinition} {users : AList fun _ : List UInt8 => UserInfo}
  {ls₀ : List ExchangeEvent} {s₀ : Exchange} {parser : StreamParser} {fd : Int32} {n : SessionName}
  {client : OEClient} {ls : List WiredEvent} {w : Wired}

/-- A run over bytes, with the run of messages that it carries. -/
theorem Wired.exists_carried
    (h₀ : Run (Guarded Exchange.KeepsOwners ExchangeStep) (Exchange.start symbols users) ls₀ s₀)
    (hsession : s₀.handler.session fd = some n) (hfd : fd ≠ -1) (halone : s₀.Alone fd n.clientId)
    (hfirst : ∀ p ∈ s₀.handler.toMatchingEngine.items, p.msgType = .newOrder →
      p.clientId ≠ n.clientId) (hpositions : client.positions = ∅)
    (hparser : parser.buffer fd = []) (hbuffer : client.buffer = [])
    (hsent : client.written.filterMap Request.newOrder? = [])
    (h : Run (Guarded (Wired.Careful fd n) (WiredStep fd)) (Wired.start s₀ parser client) ls w) :
    ∃ ms t, Run (Guarded (Trading.Careful fd n) (TradingStep fd))
        (Trading.start s₀ client.unbuffered) ms t ∧
      w.Carries fd t ∧ t.Followed fd n s₀.handler.written := by
  refine Run.exists_simulating (S := fun w t => w.Carries fd t ∧ t.Followed fd n s₀.handler.written) ?_
    h ⟨.start hparser hbuffer hsent, .start h₀ hsession halone hfirst hpositions⟩
  rintro w l w' t ⟨hcarries, hfollowed⟩ step
  obtain ⟨ls', t', hrun', hcarries'⟩ := hcarries.step hfollowed step.1 step.2
  refine ⟨ls', t', hrun', hcarries', ?_⟩
  exact hrun'.invariant (fun _ _ _ hs hstep => hs.step hfd hstep.1 hstep.2) hfollowed

/-- **Bytes refine to messages.** However the streams between a client and the server are cut, and whatever
the other sockets send meanwhile: the server has handled the requests, and the client the messages, that
arrived completely, as in a run in which they arrive whole; and for the bytes that come next `parse` and
`process` return. -/
theorem wired_refines
    (h₀ : Run (Guarded Exchange.KeepsOwners ExchangeStep) (Exchange.start symbols users) ls₀ s₀)
    (hsession : s₀.handler.session fd = some n) (hfd : fd ≠ -1) (halone : s₀.Alone fd n.clientId)
    (hfirst : ∀ p ∈ s₀.handler.toMatchingEngine.items, p.msgType = .newOrder →
      p.clientId ≠ n.clientId) (hpositions : client.positions = ∅)
    (hparser : parser.buffer fd = []) (hbuffer : client.buffer = [])
    (hsent : client.written.filterMap Request.newOrder? = [])
    (h : Run (Guarded (Wired.Careful fd n) (WiredStep fd)) (Wired.start s₀ parser client) ls w) :
    (∃ ms t, Run (Guarded (Trading.Careful fd n) (TradingStep fd))
        (Trading.start s₀ client.unbuffered) ms t ∧ w.Carries fd t) ∧
      (∀ count now beyond, ¬ w.parser.Throttled (w.chunk fd count now beyond) →
        ∃ rounds, (w.parser.walk (w.chunk fd count now beyond) rounds).status = .returned) ∧
      ∀ count, ∃ rounds, (w.client.process (w.reading count) rounds).status = .returned := by
  obtain ⟨ms, t, hrun, hcarries, hfollowed⟩ := Wired.exists_carried h₀ hsession hfd halone hfirst
    hpositions hparser hbuffer hsent h
  refine ⟨⟨ms, t, hrun, hcarries⟩, fun count now beyond hthrottled => ?_, fun count => ?_⟩
  · obtain ⟨rounds, -, -, -, hreturned, -⟩ := hcarries.parse_takes hfollowed hthrottled
    exact ⟨rounds, hreturned⟩
  · unfold Wired.reading
    split_ifs
    · exact ⟨0, rfl⟩
    · obtain ⟨rounds, -, -, -, hreturned, -⟩ :=
        OEClient.process_takes (Wired.readable_pending hfollowed) _ (hcarries.read_prefix count)
      exact ⟨rounds, hreturned⟩

/-- The request of a client arrives in two pieces; what comes of it is what comes of one message. -/
theorem wired_refines_pieces :
    ∃ w, (∃ ls, Run (Guarded (Wired.Careful 5 ⟨7, 100⟩) (WiredStep 5)) (Wired.start
        ([.login 5 ⟨⟨1, 100, 0⟩, [97], [97]⟩ 7 .fine].foldl Exchange.after Exchange.startGold) .start
        { OEClient.start ⟨[97], [97], 100⟩ with clientSeq := 1, sessionId := 7 }) ls w) ∧
      w.exchange.broker.toClient.pending.length = 1 ∧
        ∃ ms t, Run (Guarded (Trading.Careful 5 ⟨7, 100⟩) (TradingStep 5)) (Trading.start
          ([.login 5 ⟨⟨1, 100, 0⟩, [97], [97]⟩ 7 .fine].foldl Exchange.after Exchange.startGold)
          (OEClient.unbuffered
            { OEClient.start ⟨[97], [97], 100⟩ with clientSeq := 1, sessionId := 7 })) ms t ∧
            w.Carries 5 t := by
  have h₀ : Run (Guarded Exchange.KeepsOwners ExchangeStep) Exchange.startGold
      [.login 5 ⟨⟨1, 100, 0⟩, [97], [97]⟩ 7 .fine] _ :=
    Exchange.guarded_run_of_enabled (by decide +kernel) (by decide +kernel)
  have h : Run (Guarded (Wired.Careful 5 ⟨7, 100⟩) (WiredStep 5)) (Wired.start
        ([.login 5 ⟨⟨1, 100, 0⟩, [97], [97]⟩ 7 .fine].foldl Exchange.after Exchange.startGold) .start
        { OEClient.start ⟨[97], [97], 100⟩ with clientSeq := 1, sessionId := 7 })
      [.call (.sendOrder 1 1 Side.buy 10 50 0), .parse 25 1 (fun _ => 0) 2 [] .fine,
        .parse 99 2 (fun _ => 0) 3 [⟨1002, 0, .fine⟩] .fine, .exchange .engineTurn] _ :=
    Wired.run_of_enabled (by decide +kernel) (by decide +kernel)
  refine ⟨_, ⟨_, h⟩, by decide +kernel, ?_⟩
  exact (wired_refines h₀ (by decide +kernel) (by decide) (by decide +kernel) (by decide +kernel)
    rfl rfl rfl rfl h).1

/-- **A client's positions are those in clearing, over bytes**: what has not come to the client yet, in
its buffer or on the way there, are the bytes of some messages, and its positions are those in clearing but
for the fills of these and of the responses that the handler has not taken. -/
theorem wired_positions_reconcile
    (h₀ : Run (Guarded Exchange.KeepsOwners ExchangeStep) (Exchange.start symbols users) ls₀ s₀)
    (hsession : s₀.handler.session fd = some n) (hfd : fd ≠ -1) (halone : s₀.Alone fd n.clientId)
    (hfirst : ∀ p ∈ s₀.handler.toMatchingEngine.items, p.msgType = .newOrder →
      p.clientId ≠ n.clientId) (hpositions : client.positions = ∅)
    (hparser : parser.buffer fd = []) (hbuffer : client.buffer = [])
    (hsent : client.written.filterMap Request.newOrder? = [])
    (h : Run (Guarded (Wired.Careful fd n) (WiredStep fd)) (Wired.start s₀ parser client) ls w) :
    w.status = .returned ∧ ∃ xs : List Written,
      w.client.buffer ++ w.responses = (xs.flatMap fun x => x.response.encode) ∧
        ∀ symbol, w.client.getPosition symbol = Int32.ofInt
          (position n.clientId symbol w.exchange.broker.clearingPublisher.fills -
            position n.clientId symbol (Trading.fillsTold xs ++
              fillsReported w.exchange.broker.toClient.pending)) := by
  obtain ⟨ms, t, hrun, hcarries, hfollowed⟩ := Wired.exists_carried h₀ hsession hfd halone hfirst
    hpositions hparser hbuffer hsent h
  refine ⟨hcarries.status, t.responses.pending, ?_, fun symbol => ?_⟩
  · rw [hcarries.responses, Wired.flatMap_responses]
  · have hreconciled := hfollowed.reconciled symbol
    rw [← hcarries.client] at hreconciled
    rw [hcarries.exchange]
    exact hreconciled

/-- The request and the fill of a client arrive in two pieces each, and it has not read of its second
trade. -/
theorem wired_positions_reconcile_pieces :
    ∃ w, (∃ ls, Run (Guarded (Wired.Careful 5 ⟨7, 100⟩) (WiredStep 5)) (Wired.start
        ([.login 5 ⟨⟨1, 100, 0⟩, [97], [97]⟩ 7 .fine,
          .login 6 ⟨⟨1, 200, 0⟩, [98], [98]⟩ 8 .fine].foldl Exchange.after Exchange.startGold) .start
        { OEClient.start ⟨[97], [97], 100⟩ with clientSeq := 1, sessionId := 7 }) ls w) ∧
      w.client.getPosition 1 = 4 ∧ position 100 1 w.exchange.broker.clearingPublisher.fills = 10 ∧
        ∃ xs : List Written,
          w.client.buffer ++ w.responses = (xs.flatMap fun x => x.response.encode) ∧
            w.client.getPosition 1 = Int32.ofInt
              (position 100 1 w.exchange.broker.clearingPublisher.fills -
                position 100 1 (Trading.fillsTold xs ++
                  fillsReported w.exchange.broker.toClient.pending)) := by
  have h₀ : Run (Guarded Exchange.KeepsOwners ExchangeStep) Exchange.startGold
      [.login 5 ⟨⟨1, 100, 0⟩, [97], [97]⟩ 7 .fine, .login 6 ⟨⟨1, 200, 0⟩, [98], [98]⟩ 8 .fine] _ :=
    Exchange.guarded_run_of_enabled (by decide +kernel) (by decide +kernel)
  have h : Run (Guarded (Wired.Careful 5 ⟨7, 100⟩) (WiredStep 5)) (Wired.start
        ([.login 5 ⟨⟨1, 100, 0⟩, [97], [97]⟩ 7 .fine,
          .login 6 ⟨⟨1, 200, 0⟩, [98], [98]⟩ 8 .fine].foldl Exchange.after Exchange.startGold) .start
        { OEClient.start ⟨[97], [97], 100⟩ with clientSeq := 1, sessionId := 7 })
      [.exchange (.newOrder 6 ⟨⟨2, 200, 8⟩, 1, 1, Side.sell, 4, 50, 0⟩ 1000),
        .exchange (.newOrder 6 ⟨⟨3, 200, 8⟩, 2, 1, Side.sell, 6, 50, 0⟩ 1001),
        .call (.sendOrder 1 1 Side.buy 10 50 0), .parse 25 1 (fun _ => 0) 2 [] .fine,
        .parse 99 2 (fun _ => 0) 3 [⟨1002, 0, .fine⟩] .fine,
        .exchange .engineTurn, .exchange .engineTurn, .exchange .engineTurn,
        .exchange (.handlerTurn .fine), .exchange (.handlerTurn .fine),
        .exchange (.handlerTurn .fine), .exchange (.handlerTurn .fine), .process 20 2,
        .exchange (.handlerTurn .fine), .exchange (.handlerTurn .fine), .process 30 4] _ :=
    Wired.run_of_enabled (by decide +kernel) (by decide +kernel)
  refine ⟨_, ⟨_, h⟩, by decide +kernel, by decide +kernel, ?_⟩
  obtain ⟨-, xs, hbytes, hpositions⟩ := wired_positions_reconcile h₀ (by decide +kernel) (by decide)
    (by decide +kernel) (by decide +kernel) rfl rfl rfl rfl h
  exact ⟨xs, hbytes, hpositions 1⟩

/-- No response waits for the client: none of its own on the queue to the handler, and no bytes on the way or
in its buffer. -/
structure Wired.AllRead (w : Wired) (c : UInt32) : Prop where
  queue : ∀ p ∈ w.exchange.broker.toClient.pending, p.clientId ≠ c
  socket : w.responses = []
  buffer : w.client.buffer = []

/-- Responses for others report no fills of the client. -/
theorem position_fillsReported {ps : List OePayload} {c symbol : UInt32}
    (hps : ∀ p ∈ ps, p.clientId ≠ c) : position c symbol (fillsReported ps) = 0 := by
  have hnone : (fillsReported ps).filter (fun f => f.clientId = c) = [] := by
    refine List.filter_eq_nil_iff.mpr fun f hf => ?_
    obtain ⟨p, hp, hfill⟩ := List.mem_filterMap.mp hf
    have hclient : f.clientId = p.clientId := by
      unfold OePayload.fill? at hfill
      split_ifs at hfill
      rw [← Option.some.inj hfill]
    simpa [hclient] using hps p hp
  rw [← position_filter, hnone]
  rfl

/-- **Positions, once all responses are read.** A client that logs in and enters its first orders stays in
its session, takes no place in its map that another order has and modifies its orders on their sides.
However the streams are cut and the others trade, whenever no response waits for it its position in every
symbol is that of its fills in clearing, in 32 bits: so it is that position, if this fits. -/
theorem positions_when_read
    (h₀ : Run (Guarded Exchange.KeepsOwners ExchangeStep) (Exchange.start symbols users) ls₀ s₀)
    (hsession : s₀.handler.session fd = some n) (hfd : fd ≠ -1) (halone : s₀.Alone fd n.clientId)
    (hfirst : ∀ p ∈ s₀.handler.toMatchingEngine.items, p.msgType = .newOrder →
      p.clientId ≠ n.clientId) (hpositions : client.positions = ∅)
    (hparser : parser.buffer fd = []) (hbuffer : client.buffer = [])
    (hsent : client.written.filterMap Request.newOrder? = [])
    (h : Run (Guarded (Wired.Careful fd n) (WiredStep fd)) (Wired.start s₀ parser client) ls w)
    (hread : w.AllRead n.clientId) (symbol : UInt32) :
    w.client.getPosition symbol =
        Int32.ofInt (position n.clientId symbol w.exchange.broker.clearingPublisher.fills) ∧
      ((w.client.getPosition symbol).toInt =
          position n.clientId symbol w.exchange.broker.clearingPublisher.fills ↔
        -2 ^ 31 ≤ position n.clientId symbol w.exchange.broker.clearingPublisher.fills ∧
          position n.clientId symbol w.exchange.broker.clearingPublisher.fills < 2 ^ 31) := by
  obtain ⟨ms, t, hrun, hcarries, hfollowed⟩ := Wired.exists_carried h₀ hsession hfd halone hfirst
    hpositions hparser hbuffer hsent h
  -- every message has some bytes, so that none is on its way
  have hpending : t.responses.pending = [] := by
    have hbytes := hcarries.responses
    rw [hread.buffer, hread.socket, List.append_nil] at hbytes
    cases hmessages : t.responses.pending with
    | nil => rfl
    | cons x xs =>
      rw [hmessages, List.map_cons, List.flatMap_cons] at hbytes
      have hlength := congrArg List.length (List.append_eq_nil_iff.mp hbytes.symm).1
      rw [Response.length_encode] at hlength
      exact absurd hlength (by cases x.response.body.type <;> decide)
  have hreconciled := hfollowed.reconciled symbol
  have hunderway : position n.clientId symbol t.underway = 0 := by
    rw [Trading.underway, hpending, position_append, ← hcarries.exchange,
      position_fillsReported hread.queue]
    rfl
  rw [hunderway, Int.sub_zero, ← hcarries.exchange] at hreconciled
  have hclient : t.client.getPosition symbol = w.client.getPosition symbol := by
    rw [← hcarries.client]
    rfl
  rw [hclient] at hreconciled
  exact ⟨hreconciled, by rw [hreconciled]; exact toInt_ofInt_iff⟩

/-- A client has read all about its two trades. -/
theorem positions_when_read_pieces :
    ∃ w, (∃ ls, Run (Guarded (Wired.Careful 5 ⟨7, 100⟩) (WiredStep 5)) (Wired.start
        ([.login 5 ⟨⟨1, 100, 0⟩, [97], [97]⟩ 7 .fine,
          .login 6 ⟨⟨1, 200, 0⟩, [98], [98]⟩ 8 .fine].foldl Exchange.after Exchange.startGold) .start
        { OEClient.start ⟨[97], [97], 100⟩ with clientSeq := 1, sessionId := 7 }) ls w) ∧
      w.AllRead 100 ∧ position 100 1 w.exchange.broker.clearingPublisher.fills = 10 ∧
        (w.client.getPosition 1).toInt =
          position 100 1 w.exchange.broker.clearingPublisher.fills := by
  have h₀ : Run (Guarded Exchange.KeepsOwners ExchangeStep) Exchange.startGold
      [.login 5 ⟨⟨1, 100, 0⟩, [97], [97]⟩ 7 .fine, .login 6 ⟨⟨1, 200, 0⟩, [98], [98]⟩ 8 .fine] _ :=
    Exchange.guarded_run_of_enabled (by decide +kernel) (by decide +kernel)
  have h : Run (Guarded (Wired.Careful 5 ⟨7, 100⟩) (WiredStep 5)) (Wired.start
        ([.login 5 ⟨⟨1, 100, 0⟩, [97], [97]⟩ 7 .fine,
          .login 6 ⟨⟨1, 200, 0⟩, [98], [98]⟩ 8 .fine].foldl Exchange.after Exchange.startGold) .start
        { OEClient.start ⟨[97], [97], 100⟩ with clientSeq := 1, sessionId := 7 })
      [.exchange (.newOrder 6 ⟨⟨2, 200, 8⟩, 1, 1, Side.sell, 4, 50, 0⟩ 1000),
        .exchange (.newOrder 6 ⟨⟨3, 200, 8⟩, 2, 1, Side.sell, 6, 50, 0⟩ 1001),
        .call (.sendOrder 1 1 Side.buy 10 50 0), .parse 25 1 (fun _ => 0) 2 [] .fine,
        .parse 99 2 (fun _ => 0) 3 [⟨1002, 0, .fine⟩] .fine,
        .exchange .engineTurn, .exchange .engineTurn, .exchange .engineTurn,
        .exchange (.handlerTurn .fine), .exchange (.handlerTurn .fine),
        .exchange (.handlerTurn .fine), .exchange (.handlerTurn .fine), .process 20 2,
        .exchange (.handlerTurn .fine), .exchange (.handlerTurn .fine),
        .exchange (.handlerTurn .fine), .process 30 4, .process 200 6] _ :=
    Wired.run_of_enabled (by decide +kernel) (by decide +kernel)
  refine ⟨_, ⟨_, h⟩, ⟨by decide +kernel, by decide +kernel, by decide +kernel⟩, by decide +kernel, ?_⟩
  refine (positions_when_read h₀ (by decide +kernel) (by decide) (by decide +kernel) (by decide +kernel)
    rfl rfl rfl rfl h ⟨by decide +kernel, by decide +kernel, by decide +kernel⟩ 1).2.mpr ?_
  decide +kernel

/-- An order is bought, modified to a sale and filled: the client has read everything, and counts a
purchase. -/
theorem modified_side_forgotten :
    ∃ w, (∃ ls, Run (WiredStep 5) (Wired.start
        ([.login 5 ⟨⟨1, 100, 0⟩, [97], [97]⟩ 7 .fine,
          .login 6 ⟨⟨1, 200, 0⟩, [98], [98]⟩ 8 .fine].foldl Exchange.after Exchange.startGold) .start
        { OEClient.start ⟨[97], [97], 100⟩ with clientSeq := 1, sessionId := 7 }) ls w) ∧
      w.AllRead 100 ∧ (w.client.getPosition 1).toInt = 10 ∧
        position 100 1 w.exchange.broker.clearingPublisher.fills = -10 :=
  ⟨_, ⟨[.call (.sendOrder 1 1 Side.buy 10 50 0), .parse 99 1 (fun _ => 0) 3 [⟨1000, 0, .fine⟩] .fine,
      .call (.modifyOrder 1 Side.sell 10 60), .parse 99 2 (fun _ => 0) 3 [⟨0, 0, .fine⟩] .fine,
      .exchange .engineTurn, .exchange .engineTurn,
      .exchange (.newOrder 6 ⟨⟨2, 200, 8⟩, 1, 1, Side.buy, 10, 60, 0⟩ 1001), .exchange .engineTurn,
      .exchange (.handlerTurn .fine), .exchange (.handlerTurn .fine), .exchange (.handlerTurn .fine),
      .exchange (.handlerTurn .fine), .exchange (.handlerTurn .fine), .process 200 5],
    Run.of_foldl (by decide +kernel)⟩,
    ⟨by decide +kernel, by decide +kernel, by decide +kernel⟩, by decide +kernel, by decide +kernel⟩

end

end Ndfex
