import Ndfex.Trading.Positions

/-!
# The fills under way arrive

What keeps a client's positions from those in clearing is under way: the handler has not taken it, or the
client has not read it. A turn of the handler and a read bring it along, and nothing stands in their way as
long as the sends succeed. A turn may put a message on the socket for the response that it takes, so a
response counts twice.

## Main definitions

* `TradingEvent.Settles`: the turns of the handler whose sends succeed, and the client's reads
* `Trading.unsettled`: how much is under way

## Main results

* `Trading.Followed.settles`: while something is under way, one of these events brings it along
* `positions_settle`: the client's positions become those in clearing
-/

namespace Ndfex

open Bots Containers Transition

namespace ClientHandler

variable {h : ClientHandler} {w : Circumstances}

/-- A turn of the handler whose send succeeds leaves every session. -/
theorem session_handle (hsent : w.sent = true) (h : ClientHandler) (p : OePayload) (fd : Int32) :
    (h.handle p w).session fd = h.session fd := by
  unfold session
  rw [lookup_handle]
  cases ht : h.target p with
  | none => rfl
  | some r =>
    dsimp only
    split_ifs with hfd
    · rw [hfd, lookup_of_target ht]
      rfl
    · rfl

/-- A payload is delivered to one socket at most. -/
theorem length_delivery_le (h : ClientHandler) (p : OePayload) : (h.delivery p).length ≤ 1 := by
  cases ht : h.target p with
  | none =>
    rw [delivery_of_no_target ht]
    exact Nat.zero_le 1
  | some r =>
    obtain ⟨x, hx, -⟩ := delivery_of_target ht
    rw [hx, List.length_singleton]

end ClientHandler

/-- The events that bring along what is under way. -/
def TradingEvent.Settles (l : TradingEvent) : Prop := l = .exchange (.handlerTurn .fine) ∨ l = .take

namespace Trading

variable {s : Trading} {fd : Int32} {n : SessionName} {old : List Written}

/-- How much is under way. The message of a response is still to be read when the handler has taken it. -/
def unsettled (s : Trading) : ℕ :=
  2 * s.exchange.broker.toClient.pending.length + s.responses.pending.length

theorem underway_of_settled (h : s.unsettled = 0) : s.underway = [] := by
  unfold unsettled at h
  have hresponses : s.responses.pending = [] := List.eq_nil_of_length_eq_zero (by omega)
  have htoClient : s.exchange.broker.toClient.pending = [] := List.eq_nil_of_length_eq_zero (by omega)
  rw [underway, hresponses, htoClient]
  rfl

/-- A turn of the handler lowers what is under way. -/
theorem unsettled_handlerTurn {p : OePayload} (hp : s.exchange.broker.toClient.front? = some p) :
    (s.advance fd (.handlerTurn .fine)).unsettled < s.unsettled := by
  have hpop := congrArg List.length (Fifo.pending_of_front? hp)
  rw [List.length_cons] at hpop
  have htoClient : (s.exchange.after (.handlerTurn .fine)).broker.toClient =
      s.exchange.broker.toClient.pop := by
    simp only [Exchange.after, Exchange.handlerTurn, hp]
    rfl
  have hmessages :
      ((s.exchange.messagesOf (.handlerTurn .fine)).filter fun x => x.sockFd = fd).length ≤ 1 := by
    refine (List.length_filter_le ..).trans ?_
    simp only [Exchange.messagesOf, hp]
    exact s.exchange.handler.length_delivery_le p
  show 2 * (s.exchange.after (.handlerTurn .fine)).broker.toClient.pending.length +
    (s.responses.pushAll _).pending.length < _
  rw [htoClient, Fifo.pending_pushAll, List.length_append, unsettled]
  omega

/-- A read lowers what is under way. -/
theorem unsettled_take {x : Written} (hx : s.responses.front? = some x) :
    (s.after fd .take).unsettled < s.unsettled := by
  have hpop := congrArg List.length (Fifo.pending_of_front? hx)
  rw [List.length_cons] at hpop
  have hsame : (s.after fd .take).unsettled =
      2 * s.exchange.broker.toClient.pending.length + s.responses.pop.pending.length := by
    simp only [after, hx, read]
    split_ifs <;> rfl
  rw [hsame, unsettled]
  omega

/-- A turn of the handler is careful: the client stays in its session. -/
theorem Followed.careful_handlerTurn (h : s.Followed fd n old) :
    s.Careful fd n (.exchange (.handlerTurn .fine)) := by
  refine ⟨by simp [Apart, ExchangeEvent.socket?], trivial, fun e he => ?_⟩
  obtain rfl : ExchangeEvent.handlerTurn .fine = e := Option.some.inj he
  refine ⟨trivial, ?_⟩
  show (s.exchange.after (.handlerTurn .fine)).handler.session fd = some n
  rw [← h.attended.session]
  simp only [Exchange.after, Exchange.handlerTurn]
  cases hp : s.exchange.broker.toClient.front? with
  | none => rfl
  | some p => exact ClientHandler.session_handle rfl s.exchange.handler p fd

theorem careful_take : s.Careful fd n .take :=
  ⟨trivial, trivial, fun e he => by cases he⟩

/-- What these events leave alone. -/
theorem fills_after {l : TradingEvent} (hl : l.Settles) :
    (s.after fd l).exchange.broker.clearingPublisher.fills =
      s.exchange.broker.clearingPublisher.fills := by
  rcases hl with rfl | rfl
  · show (s.exchange.after (.handlerTurn .fine)).broker.clearingPublisher.fills = _
    obtain ⟨toClient, publisher, hbroker, -⟩ :=
      Exchange.queues_after (s := s.exchange) (l := .handlerTurn .fine) (by simp)
    rw [hbroker]
  · simp only [after]
    cases s.responses.front? with
    | none => rfl
    | some x =>
      simp only [read]
      split_ifs <;> rfl

/-- **While something is under way** an event brings it along. -/
theorem Followed.settles (h : s.Followed fd n old) (hfd : fd ≠ -1) (hsome : s.unsettled ≠ 0) :
    ∃ l t, l.Settles ∧ Guarded (Careful fd n) (TradingStep fd) s l t ∧ t.Followed fd n old ∧
      t.unsettled < s.unsettled := by
  cases hp : s.exchange.broker.toClient.front? with
  | some p =>
    have hstep : TradingStep fd s (.exchange (.handlerTurn .fine)) _ := ⟨?_, rfl⟩
    · exact ⟨_, _, Or.inl rfl, ⟨h.careful_handlerTurn, hstep⟩, h.step hfd h.careful_handlerTurn hstep,
        unsettled_handlerTurn hp⟩
    · intro e he
      obtain rfl : ExchangeEvent.handlerTurn .fine = e := Option.some.inj he
      exact trivial
  | none =>
    -- the handler has taken all responses, so the socket has some message
    have htoClient := Fifo.front?_eq_none.mp hp
    cases hx : s.responses.front? with
    | none =>
      have hresponses := Fifo.front?_eq_none.mp hx
      exact absurd (by rw [unsettled, htoClient, hresponses]; rfl) hsome
    | some x =>
      have hstep : TradingStep fd s .take _ := ⟨fun e he => (by cases he), rfl⟩
      exact ⟨_, _, Or.inr rfl, ⟨careful_take, hstep⟩, h.step hfd careful_take hstep, unsettled_take hx⟩

end Trading

/-- **The positions settle**: from every state that a careful client gets to, the turns of the handler and
the client's reads alone lead to one in which its positions are those in clearing. -/
theorem positions_settle {symbols : List SymbolDefinition}
    {users : AList fun _ : List UInt8 => UserInfo} {ls₀ : List ExchangeEvent} {s₀ : Exchange}
    {fd : Int32} {n : SessionName} {client : OEClient} {ls : List TradingEvent} {t : Trading}
    (h₀ : Run (Guarded Exchange.KeepsOwners ExchangeStep) (Exchange.start symbols users) ls₀ s₀)
    (hsession : s₀.handler.session fd = some n) (hfd : fd ≠ -1) (halone : s₀.Alone fd n.clientId)
    (hfirst : ∀ p ∈ s₀.handler.toMatchingEngine.items, p.msgType = .newOrder →
      p.clientId ≠ n.clientId) (hpositions : client.positions = ∅)
    (h : Run (Guarded (Trading.Careful fd n) (TradingStep fd)) (Trading.start s₀ client) ls t) :
    ∃ ms u, (∀ l ∈ ms, l.Settles) ∧ Run (Guarded (Trading.Careful fd n) (TradingStep fd)) t ms u ∧
      u.exchange.broker.clearingPublisher.fills = t.exchange.broker.clearingPublisher.fills ∧
        ∀ symbol, u.client.getPosition symbol = Int32.ofInt
          (position n.clientId symbol t.exchange.broker.clearingPublisher.fills) := by
  have hfollowed : t.Followed fd n s₀.handler.written :=
    h.invariant (fun _ _ _ hs hstep => hs.step hfd hstep.1 hstep.2)
      (Trading.Followed.start h₀ hsession halone hfirst hpositions)
  -- clearing gets nothing meanwhile
  obtain ⟨ms, u, hms, hrun, ⟨hu, hfills⟩, hsettled⟩ := Run.exists_drained
    (R := Guarded (Trading.Careful fd n) (TradingStep fd))
    (I := fun u => u.Followed fd n s₀.handler.written ∧
      u.exchange.broker.clearingPublisher.fills = t.exchange.broker.clearingPublisher.fills)
    (L := TradingEvent.Settles) Trading.unsettled
    (fun u ⟨hu, hfills⟩ hsome => by
      obtain ⟨l, v, hl, hstep, hv, hlt⟩ := hu.settles hfd hsome
      refine ⟨l, v, hl, hstep, ⟨hv, ?_⟩, hlt⟩
      obtain ⟨-, -, rfl⟩ := hstep
      exact (Trading.fills_after hl).trans hfills) ⟨hfollowed, rfl⟩
  refine ⟨ms, u, hms, hrun, hfills, fun symbol => ?_⟩
  rw [hu.reconciled symbol, hfills, Trading.underway_of_settled hsettled]
  exact congrArg Int32.ofInt (Int.sub_zero _)

/-- A client has read nothing of its two trades, and comes to read of both. -/
theorem positions_settle_unread :
    ∃ t, (∃ ls, Run (Guarded (Trading.Careful 5 ⟨7, 100⟩) (TradingStep 5)) (Trading.start
        ([.login 5 ⟨⟨1, 100, 0⟩, [97], [97]⟩ 7 .fine,
          .login 6 ⟨⟨1, 200, 0⟩, [98], [98]⟩ 8 .fine].foldl Exchange.after Exchange.startGold)
        { OEClient.start ⟨[97], [97], 100⟩ with clientSeq := 1, sessionId := 7 }) ls t) ∧
      t.client.getPosition 1 = 0 ∧ position 100 1 t.exchange.broker.clearingPublisher.fills = 10 ∧
        ∃ ms u, (∀ l ∈ ms, TradingEvent.Settles l) ∧
          Run (Guarded (Trading.Careful 5 ⟨7, 100⟩) (TradingStep 5)) t ms u ∧
            u.exchange.broker.clearingPublisher.fills = t.exchange.broker.clearingPublisher.fills ∧
              ∀ symbol, u.client.getPosition symbol = Int32.ofInt
                (position 100 symbol t.exchange.broker.clearingPublisher.fills) := by
  have h₀ : Run (Guarded Exchange.KeepsOwners ExchangeStep) Exchange.startGold
      [.login 5 ⟨⟨1, 100, 0⟩, [97], [97]⟩ 7 .fine, .login 6 ⟨⟨1, 200, 0⟩, [98], [98]⟩ 8 .fine] _ :=
    Exchange.guarded_run_of_enabled (by decide +kernel) (by decide +kernel)
  have h : Run (Guarded (Trading.Careful 5 ⟨7, 100⟩) (TradingStep 5)) (Trading.start
        ([.login 5 ⟨⟨1, 100, 0⟩, [97], [97]⟩ 7 .fine,
          .login 6 ⟨⟨1, 200, 0⟩, [98], [98]⟩ 8 .fine].foldl Exchange.after Exchange.startGold)
        { OEClient.start ⟨[97], [97], 100⟩ with clientSeq := 1, sessionId := 7 })
      [.exchange (.newOrder 6 ⟨⟨2, 200, 8⟩, 1, 1, Side.sell, 4, 50, 0⟩ 1000),
        .exchange (.newOrder 6 ⟨⟨3, 200, 8⟩, 2, 1, Side.sell, 6, 50, 0⟩ 1001),
        .call (.sendOrder 1 1 Side.buy 10 50 0), .deliver 1002 0 .fine,
        .exchange .engineTurn, .exchange .engineTurn, .exchange .engineTurn] _ :=
    Trading.run_of_enabled (by decide +kernel) (by decide +kernel)
  refine ⟨_, ⟨_, h⟩, by decide +kernel, by decide +kernel, ?_⟩
  exact positions_settle h₀ (by decide +kernel) (by decide) (by decide +kernel) (by decide +kernel)
    rfl h

end Ndfex
