import Ndfex.Exchange.Messages

/-!
# Rejects

The handler rejects a request through the engine: the reject is put to the engine as a request, comes
back as a response and is then written. The engine makes rejects of its own in the same form, of a
deletion or a modification that comes too late. Such a reject has the exchange id of the order where
the others have the client's order id, and no reason.

## Main definitions

* `Exchange.Refused`: the handler rejected a request, for a reason
* `Exchange.Delivered`: the handler wrote a message on the socket that a client's route led to
* `Exchange.Echoes`: the rejects on the queues and the sockets are of refused requests
* `Exchange.InTime`: the engine takes a deletion or a modification of an order that rests

## Main results

* `rejects_echo`: in a run that satisfies `InTime`, a written reject is of a refused request
* `late_delete_rejected`: a deletion comes too late, and its reject has the exchange id and no reason
-/

namespace Ndfex

open Containers Transition

/-- The payload of `send_order_reject`. -/
def rejectPayload (m : OrderMessage) (reason : RejectReason) : OePayload :=
  .make .reject m.orderId 0 m.header.seqNum m.header.clientId Side.buy 0 0 reason.byte

namespace RejectReason

theorem byte_ne_zero {reason : RejectReason} (h : reason ≠ none) : reason.byte ≠ 0 := by
  cases reason <;> first | exact absurd rfl h | decide

end RejectReason

namespace Exchange

/-- Among the events is a request that the handler rejected for the reason. -/
def Refused (s₀ : Exchange) (ls : List ExchangeEvent) (m : OrderMessage) (reason : RejectReason) :
    Prop :=
  ∃ ls₁ l ls₂ t fd, ls = ls₁ ++ l :: ls₂ ∧ Run ExchangeStep s₀ ls₁ t ∧ l.message? = some (fd, m) ∧
    t.handler.receive fd m = t.handler.sendOrderReject m.header reason m.orderId

/-- The payload is the reject of a request among the events. -/
def Echo (s₀ : Exchange) (ls : List ExchangeEvent) (p : OePayload) : Prop :=
  ∃ m reason, Refused s₀ ls m reason ∧ reason ≠ .none ∧ p = rejectPayload m reason

/-- Among the events is a turn of the handler that wrote the message, on the socket that the route of
the client led to. -/
def Delivered (s₀ : Exchange) (ls : List ExchangeEvent) (x : Written) (c : UInt32) : Prop :=
  ∃ ls₁ w ls₂ t, ls = ls₁ ++ .handlerTurn w :: ls₂ ∧ Run ExchangeStep s₀ ls₁ t ∧
    x ∈ t.messagesOf (.handlerTurn w) ∧ t.handler.clientToSockFd.lookup c = some x.sockFd

/-- The message answers the payload of a reject: it copies the order id, the reason and the number of
the request, and was delivered to the payload's client. -/
structure Relays (s₀ : Exchange) (ls : List ExchangeEvent) (x : Written) (p : OePayload) : Prop where
  payload : x.payload = some p
  body : x.response.body = .reject p.exchOrderId p.flags
  lastSeqNum : x.response.header.lastSeqNum = p.clientSeq
  delivered : Delivered s₀ ls x p.clientId

/-- The rejects on the queues and on the sockets are of requests among the events. -/
structure Echoes (s₀ : Exchange) (ls : List ExchangeEvent) (s : Exchange) : Prop where
  requests : ∀ p ∈ s.handler.toMatchingEngine.items, p.msgType = .reject → Echo s₀ ls p
  responses : ∀ p ∈ s.broker.toClient.items, p.msgType = .reject → Echo s₀ ls p
  written : ∀ x ∈ s.handler.written, ∀ orderId reason,
    x.response.body = .reject orderId reason → ∃ p, Echo s₀ ls p ∧ Relays s₀ ls x p

/-- The engine takes a deletion or a modification only of an order that rests. -/
def InTime (s : Exchange) : ExchangeEvent → Prop
  | .engineTurn => ∀ p ∈ s.handler.toMatchingEngine.front?,
    p.msgType = .deleteOrder ∨ p.msgType = .modifyOrder →
      (s.broker.resting p.symbol p.exchOrderId).isSome
  | _ => True

instance (s : Exchange) : DecidablePred s.InTime
  | .engineTurn => inferInstanceAs (Decidable (∀ p ∈ s.handler.toMatchingEngine.front?,
      p.msgType = .deleteOrder ∨ p.msgType = .modifyOrder →
        (s.broker.resting p.symbol p.exchOrderId).isSome))
  | .login .. => instDecidableTrue
  | .newOrder .. => instDecidableTrue
  | .deleteOrder .. => instDecidableTrue
  | .modifyOrder .. => instDecidableTrue
  | .socketClosed .. => instDecidableTrue
  | .handlerTurn _ => instDecidableTrue
  | .heartbeat => instDecidableTrue

variable {s₀ s t : Exchange} {ls : List ExchangeEvent} {l : ExchangeEvent} {p : OePayload}

theorem Refused.snoc {m : OrderMessage} {reason : RejectReason} (h : Refused s₀ ls m reason)
    (l : ExchangeEvent) : Refused s₀ (ls ++ [l]) m reason := by
  obtain ⟨ls₁, l', ls₂, t, fd, rfl, hrest⟩ := h
  exact ⟨ls₁, l', ls₂ ++ [l], t, fd, by simp, hrest⟩

theorem Echo.snoc (h : Echo s₀ ls p) (l : ExchangeEvent) : Echo s₀ (ls ++ [l]) p := by
  obtain ⟨m, reason, hrefused, hrest⟩ := h
  exact ⟨m, reason, hrefused.snoc l, hrest⟩

theorem Delivered.snoc {x : Written} {c : UInt32} (h : Delivered s₀ ls x c) (l : ExchangeEvent) :
    Delivered s₀ (ls ++ [l]) x c := by
  obtain ⟨ls₁, w, ls₂, t, rfl, hrest⟩ := h
  exact ⟨ls₁, w, ls₂ ++ [l], t, by simp, hrest⟩

theorem Relays.snoc {x : Written} (h : Relays s₀ ls x p) (l : ExchangeEvent) :
    Relays s₀ (ls ++ [l]) x p :=
  ⟨h.payload, h.body, h.lastSeqNum, h.delivered.snoc l⟩

/-- A reject among the requests is of a request among the events. -/
theorem Echoes.requests_after (he : Echoes s₀ ls s) (hrun : Run ExchangeStep s₀ ls s)
    (hn : s.HistoryFits) (l : ExchangeEvent) (hp : p ∈ (s.after l).handler.toMatchingEngine.items)
    (hreject : p.msgType = .reject) : Echo s₀ (ls ++ [l]) p := by
  have hold : ∀ q ∈ s.handler.toMatchingEngine.items, q.msgType = .reject → Echo s₀ (ls ++ [l]) q :=
    fun q hq htype => (he.requests q hq htype).snoc l
  rcases cancels_after hn l with ⟨ps, hitems, hps⟩ | ⟨fd, m, hm, hafter⟩
  · rw [hitems] at hp
    rcases List.mem_append.mp hp with hp | hp
    · exact hold p hp hreject
    · cases hreject.symm.trans (hps p hp).1
  rw [hafter] at hp
  rcases s.handler.receive_cases fd m with
    ⟨reason, hreason, hreceive⟩ | ⟨-, ⟨q, hq, hreceive⟩ | ⟨msg, now, -, -, hreceive⟩⟩ <;>
    rw [hreceive] at hp <;>
    rcases List.mem_append.mp hp with hp | hp
  · exact hold p hp hreject
  · obtain rfl := List.mem_singleton.mp hp
    exact ⟨m, reason, ⟨ls, l, [], s, fd, rfl, hrun, hm, hreceive⟩, hreason, rfl⟩
  · exact hold p hp hreject
  · obtain rfl := List.mem_singleton.mp hp
    rcases hq.msgType with htype | htype <;> cases hreject.symm.trans htype
  · exact hold p hp hreject
  · obtain rfl := List.mem_singleton.mp hp
    cases hreject

theorem echoes_start (symbols : List SymbolDefinition)
    (users : AList fun _ : List UInt8 => UserInfo) :
    Echoes (start symbols users) [] (start symbols users) := by
  refine ⟨?_, fun p hp => ?_, ?_⟩
  · rintro p ⟨⟩
  · rw [toClient_start] at hp
    cases hp
  · rintro x ⟨⟩

/-- **A turn of the engine** leaves only rejects of requests among the events exactly if it takes its
deletion or modification in time. -/
theorem Echoes.responses_engineTurn_iff (he : Echoes s₀ ls s) (hs : s.Sound) :
    (∀ p ∈ (s.after .engineTurn).broker.toClient.items, p.msgType = .reject → Echo s₀ ls p) ↔
      s.InTime .engineTurn := by
  obtain ⟨-, -, books, ha⟩ := hs
  cases hp : s.handler.toMatchingEngine.front? with
  | none =>
    have hsame : s.after .engineTurn = s := by simp only [after, engineTurn, hp]
    rw [hsame]
    refine iff_of_true he.responses fun p hfront => ?_
    cases hp.symm.trans hfront
  | some p =>
    have hmem := Fifo.mem_items_of_front? hp
    have hladder : p.msgType ≠ .reject →
        (s.broker.symbolToMatchingEngine.lookup p.symbol).isSome := fun hne =>
      ha.symbols _ ((ha.admitted p hmem).resolve_left hne).1
    have hrejects := fun {q : OePayload} => @MatchingEngineBroker.Sound.reject_mem_responses
      s.broker _ books p q ha.sound hladder
    rw [responses_engineTurn ha hp]
    constructor
    · -- a late request is answered with a reject without a reason
      intro hechoes r hr hasks
      obtain rfl := Option.some.inj (hp.symm.trans hr)
      by_contra hnone
      rw [Option.not_isSome_iff_eq_none] at hnone
      have hq := (hrejects rfl).mpr (Or.inr ⟨hasks, hnone, rfl⟩)
      obtain ⟨m, reason, -, hreason, heq⟩ := hechoes _ (List.mem_append_right _ hq) rfl
      exact RejectReason.byte_ne_zero hreason (congrArg OePayload.flags heq).symm
    · intro hintime q hq hreject
      rcases List.mem_append.mp hq with hq | hq
      · exact he.responses q hq hreject
      · rcases (hrejects hreject).mp hq with ⟨hp', rfl⟩ | ⟨hasks, hnone, -⟩
        · exact he.requests q hmem hreject
        · have hrests := hintime p hp hasks
          rw [hnone] at hrests
          cases hrests

/-- A reject that a turn of the handler writes relays the response at the front, to the client that the
response is for. -/
theorem relays_of_turn (hrun : Run ExchangeStep s₀ ls s) {w : Circumstances} {x : Written}
    (hx : x ∈ s.messagesOf (.handlerTurn w)) {orderId : UInt64} {reason : UInt8}
    (hbody : x.response.body = .reject orderId reason) :
    ∃ p ∈ s.broker.toClient.front?, p.msgType = .reject ∧
      Relays s₀ (ls ++ [.handlerTurn w]) x p := by
  have hmessage := hx
  unfold Exchange.messagesOf at hx
  cases hp : s.broker.toClient.front? with
  | none => simp [hp] at hx
  | some p =>
    simp only [hp] at hx
    obtain ⟨c, body, fd, info, hreply, hrouted, rfl⟩ := ClientHandler.mem_delivery.mp hx
    obtain rfl : body = .reject orderId reason := hbody
    obtain ⟨hreject, rfl, rfl, rfl⟩ := ClientHandler.reject_of_reply hreply
    have hroute := (ClientHandler.routed_eq_some.mp hrouted).1
    exact ⟨p, rfl, hreject, rfl, rfl, rfl, ls, w, [], s, rfl, hrun, hmessage, hroute⟩

/-- The rejects among the messages of an event are of requests among the earlier events. -/
theorem Echoes.messagesOf (he : Echoes s₀ ls s) (hrun : Run ExchangeStep s₀ ls s) (l : ExchangeEvent)
    {x : Written} (hx : x ∈ s.messagesOf l) {orderId : UInt64} {reason : UInt8}
    (hbody : x.response.body = .reject orderId reason) :
    ∃ p, Echo s₀ ls p ∧ Relays s₀ (ls ++ [l]) x p := by
  cases l with
  | login fd msg sessionId w =>
    rcases ClientHandler.body_greetings hx with ⟨id, status, hgreeting⟩ | ⟨code, text, hgreeting⟩
    · cases hbody.symm.trans hgreeting
    · cases hbody.symm.trans hgreeting
  | handlerTurn w =>
    obtain ⟨p, hp, hreject, hrelays⟩ := relays_of_turn hrun hx hbody
    exact ⟨p, he.responses p (Fifo.mem_items_of_front? hp) hreject, hrelays⟩
  | _ => cases hx

/-- **Every step** that takes its request in time leaves only rejects of requests. -/
theorem Echoes.step (he : Echoes s₀ ls s) (hrun : Run ExchangeStep s₀ ls s) (hn : s.HistoryFits)
    (hs : s.Sound) (hintime : s.InTime l) : Echoes s₀ (ls ++ [l]) (s.after l) := by
  refine ⟨fun p hp hreject => he.requests_after hrun hn l hp hreject, fun p hp hreject => ?_, ?_⟩
  · by_cases hl : l = .engineTurn
    · subst hl
      exact ((he.responses_engineTurn_iff hs).mpr hintime p hp hreject).snoc _
    · rw [responses_after_of_ne hl] at hp
      exact (he.responses p hp hreject).snoc l
  · intro x hx orderId reason hbody
    rw [written_after] at hx
    rcases List.mem_append.mp hx with hx | hx
    · obtain ⟨p, hp, hrelays⟩ := he.written x hx orderId reason hbody
      exact ⟨p, hp.snoc l, hrelays.snoc l⟩
    · obtain ⟨p, hp, hrelays⟩ := he.messagesOf hrun l hx hbody
      exact ⟨p, hp.snoc l, hrelays⟩

end Exchange

/-- **Rejects echo requests**: in a run whose deletions and modifications reach the engine in time,
every reject that the handler wrote is the answer to a request that it refused, with the request's order
id and a reason, and went to the socket of the request's client; and the engine's next turn puts a reject
of another kind on the queue exactly if its deletion or modification comes too late. -/
theorem rejects_echo {symbols : List SymbolDefinition}
    {users : AList fun _ : List UInt8 => UserInfo} {ls : List ExchangeEvent} {s : Exchange}
    (h : Run (Guarded Exchange.InTime ExchangeStep) (Exchange.start symbols users) ls s) :
    (∀ x ∈ s.handler.written, ∀ orderId reason, x.response.body = .reject orderId reason →
        ∃ m reason', Exchange.Refused (Exchange.start symbols users) ls m reason' ∧
          x.payload = some (rejectPayload m reason') ∧
          orderId = m.orderId ∧ reason' ≠ .none ∧ reason = reason'.byte ∧
          x.response.header.lastSeqNum = m.header.seqNum ∧
          Exchange.Delivered (Exchange.start symbols users) ls x m.header.clientId) ∧
      ((∀ p ∈ (s.after .engineTurn).broker.toClient.items, p.msgType = .reject →
          Exchange.Echo (Exchange.start symbols users) ls p) ↔ s.InTime .engineTurn) := by
  have hechoes : Exchange.Echoes (Exchange.start symbols users) ls s := by
    induction h with
    | nil => exact Exchange.echoes_start symbols users
    | snoc run step ih =>
      obtain ⟨hintime, -, rfl⟩ := step
      have hrun := run.of_guarded
      exact ih.step hrun (Exchange.historyFits_run hrun) (Exchange.sound_run hrun) hintime
  refine ⟨fun x hx orderId reason hbody => ?_,
    hechoes.responses_engineTurn_iff (Exchange.sound_run h.of_guarded)⟩
  obtain ⟨p, ⟨m, reason', hrefused, hreason, rfl⟩, hrelays⟩ := hechoes.written x hx orderId reason hbody
  obtain ⟨horder, hbyte⟩ := ResponseBody.reject.inj (hbody.symm.trans hrelays.body)
  exact ⟨m, reason', hrefused, hrelays.payload, horder, hreason, hbyte, hrelays.lastSeqNum,
    hrelays.delivered⟩

/-- A deletion of an unknown order is rejected, and that of the open order comes in time: the client reads
a reject of the first. -/
theorem rejects_echo_unknown :
    ∃ s, Run ExchangeStep Exchange.startGold
        [.login 5 ⟨⟨1, 100, 0⟩, [97], [97]⟩ 7 .fine,
          .newOrder 5 ⟨⟨2, 100, 7⟩, 1, 1, Side.buy, 10, 50, 0⟩ 1000,
          .deleteOrder 5 ⟨⟨3, 100, 7⟩, 2⟩, .deleteOrder 5 ⟨⟨4, 100, 7⟩, 1⟩,
          .engineTurn, .engineTurn, .engineTurn, .handlerTurn .fine, .handlerTurn .fine] s ∧
      ∃ x ∈ s.handler.written, x.sockFd = 5 ∧ x.response.body = .reject 2 4 ∧
        ∃ m reason, Exchange.Refused Exchange.startGold
            [.login 5 ⟨⟨1, 100, 0⟩, [97], [97]⟩ 7 .fine,
              .newOrder 5 ⟨⟨2, 100, 7⟩, 1, 1, Side.buy, 10, 50, 0⟩ 1000,
              .deleteOrder 5 ⟨⟨3, 100, 7⟩, 2⟩, .deleteOrder 5 ⟨⟨4, 100, 7⟩, 1⟩,
              .engineTurn, .engineTurn, .engineTurn, .handlerTurn .fine,
              .handlerTurn .fine] m reason ∧
          x.payload = some (rejectPayload m reason) ∧ m.orderId = 2 ∧ reason.byte = 4 := by
  have hrun : Run (Guarded Exchange.InTime ExchangeStep) Exchange.startGold
      [.login 5 ⟨⟨1, 100, 0⟩, [97], [97]⟩ 7 .fine,
        .newOrder 5 ⟨⟨2, 100, 7⟩, 1, 1, Side.buy, 10, 50, 0⟩ 1000,
        .deleteOrder 5 ⟨⟨3, 100, 7⟩, 2⟩, .deleteOrder 5 ⟨⟨4, 100, 7⟩, 1⟩,
        .engineTurn, .engineTurn, .engineTurn, .handlerTurn .fine, .handlerTurn .fine] _ :=
    Exchange.guarded_run_of_enabled (by decide +kernel) (by decide +kernel)
  have hwritten : ∃ x ∈ ([.login 5 ⟨⟨1, 100, 0⟩, [97], [97]⟩ 7 .fine,
      .newOrder 5 ⟨⟨2, 100, 7⟩, 1, 1, Side.buy, 10, 50, 0⟩ 1000,
      .deleteOrder 5 ⟨⟨3, 100, 7⟩, 2⟩, .deleteOrder 5 ⟨⟨4, 100, 7⟩, 1⟩,
      .engineTurn, .engineTurn, .engineTurn, .handlerTurn .fine,
      .handlerTurn .fine].foldl Exchange.after Exchange.startGold).handler.written,
      x.sockFd = 5 ∧ x.response.body = .reject 2 4 := by
    decide +kernel
  obtain ⟨x, hx, hsock, hbody⟩ := hwritten
  obtain ⟨m, reason, hrefused, hpayload, horder, -, hreason, -⟩ := (rejects_echo hrun).1 x hx 2 4 hbody
  exact ⟨_, hrun.of_guarded, x, hx, hsock, hbody, m, reason, hrefused, hpayload, horder.symm,
    hreason.symm⟩

/-- An order is deleted twice. The second deletion comes too late, and its reject has the exchange id
and no reason. -/
theorem late_delete_rejected :
    ∃ s, Run ExchangeStep Exchange.startGold
        [.login 5 ⟨⟨1, 100, 0⟩, [97], [97]⟩ 7 .fine,
          .newOrder 5 ⟨⟨2, 100, 7⟩, 1, 1, Side.buy, 10, 50, 0⟩ 1000,
          .deleteOrder 5 ⟨⟨3, 100, 7⟩, 1⟩, .deleteOrder 5 ⟨⟨4, 100, 7⟩, 1⟩,
          .engineTurn, .engineTurn, .engineTurn,
          .handlerTurn .fine, .handlerTurn .fine, .handlerTurn .fine] s ∧
      ∃ x ∈ s.handler.written, x.response.body = .reject 1000 RejectReason.none.byte :=
  ⟨_, Exchange.run_of_enabled (by decide +kernel), by decide +kernel⟩

end Ndfex
