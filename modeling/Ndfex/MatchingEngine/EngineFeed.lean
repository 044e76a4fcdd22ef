import Ndfex.MatchingEngine.BrokerRuns
import Ndfex.MatchingEngine.WirePublisher

/-!
# The datagrams of the engine

The engine's thread uses its publisher through the public methods only. So its messages are numbered
from 0 on, and a datagram is one message about an order or a heartbeat, or messages about trades.

## Main definitions

* `MatchingEngineBroker.Publishes`: the publisher after some calls
* `MdBody.IsTrade`, `MarketDataPublisher.Batched`: the datagrams of trades, and the others

## Main results

* `BrokerRun.publishes_of_run`: a run of the engine is a list of calls
* `BrokerRun.numbered_of_run`, `BrokerRun.batched_of_run`: the messages and the datagrams of a run
-/

namespace Ndfex

open Transition

/-- A message about the trades of a request. -/
def MdBody.IsTrade : MdBody → Prop
  | trade .. | tradeSummary .. => True
  | heartbeat | newOrder .. | deleteOrder _ | modifyOrder .. => False

instance : DecidablePred MdBody.IsTrade
  | .trade .. | .tradeSummary .. => inferInstanceAs (Decidable True)
  | .heartbeat | .newOrder .. | .deleteOrder _ | .modifyOrder .. =>
    inferInstanceAs (Decidable False)

/-! ## Datagrams -/

namespace MarketDataPublisher

/-- A datagram is one message, or it is of trades; and so is what the buffer holds. -/
structure Batched (p : MarketDataPublisher) : Prop where
  datagrams : ∀ d ∈ p.datagrams, (∃ m, d = [m]) ∨ ∀ m ∈ d, m.body.IsTrade
  buffer : ∀ m ∈ p.buffer, m.body.IsTrade

theorem batched_empty : empty.Batched :=
  ⟨fun _ h => absurd h List.not_mem_nil, fun _ h => absurd h List.not_mem_nil⟩

namespace Batched

variable {p : MarketDataPublisher}

theorem send (h : p.Batched) : p.send.Batched := by
  unfold MarketDataPublisher.send
  split_ifs
  · exact h
  · refine ⟨fun d hd => ?_, fun _ hm => absurd hm List.not_mem_nil⟩
    rcases List.mem_append.mp hd with hd | hd
    · exact h.datagrams d hd
    · rw [List.mem_singleton.mp hd]
      exact Or.inr h.buffer

theorem writeMsg (h : p.Batched) {body : MdBody} (hbody : body.IsTrade) :
    (p.writeMsg body).Batched := by
  have hpush : ∀ {p : MarketDataPublisher}, p.Batched →
      Batched { p with buffer := p.buffer ++ [⟨p.seqNum, body⟩], seqNum := p.seqNum + 1 } := by
    intro p h
    refine ⟨h.datagrams, fun m hm => ?_⟩
    rcases List.mem_append.mp hm with hm | hm
    · exact h.buffer m hm
    · rw [List.mem_singleton.mp hm]
      exact hbody
  unfold MarketDataPublisher.writeMsg
  split_ifs
  · exact hpush h.send
  · exact hpush h

theorem publishQueuedTrades (h : p.Batched) (symbol : UInt32) (aggressorSide : Side) :
    (p.publishQueuedTrades symbol aggressorSide).Batched := by
  have hwrites : ∀ (ts : List QueuedTrade) {p : MarketDataPublisher}, p.Batched →
      (ts.foldl (fun q t => q.writeMsg t.body) p).Batched := by
    intro ts
    induction ts with
    | nil => exact fun h => h
    | cons t ts ih => exact fun h => ih (h.writeMsg trivial)
  unfold MarketDataPublisher.publishQueuedTrades
  split_ifs
  · exact h
  · have hsummary : (MdBody.tradeSummary symbol aggressorSide (totalQuantity p.queuedTrades)
      (lastPrice p.queuedTrades)).IsTrade := trivial
    have hwritten := hwrites p.queuedTrades (h.writeMsg hsummary)
    refine Batched.send ?_
    exact ⟨hwritten.datagrams, hwritten.buffer⟩

/-- One message that is sent at once. -/
theorem single (h : p.Batched) (hp : p.buffer = []) (body : MdBody) :
    (p.writeMsg body).send.Batched := by
  have hlength := body.length_le
  have hroom : ¬ p.bufferSize + body.length > bufferCapacity := by
    rw [bufferSize, hp, List.map_nil, List.sum_nil, bufferCapacity]
    omega
  have hwritten : p.writeMsg body =
      { p with buffer := [⟨p.seqNum, body⟩], seqNum := p.seqNum + 1 } := by
    unfold MarketDataPublisher.writeMsg
    rw [if_neg hroom]
    dsimp only
    rw [hp]
    rfl
  rw [hwritten]
  unfold MarketDataPublisher.send
  split_ifs with hsize
  · have hpos := length_pos body
    rw [bufferSize] at hsize
    simp only [List.map_cons, List.map_nil, List.sum_cons, List.sum_nil] at hsize
    omega
  · refine ⟨fun d hd => ?_, fun _ hm => absurd hm List.not_mem_nil⟩
    rcases List.mem_append.mp hd with hd | hd
    · exact h.datagrams d hd
    · exact Or.inl ⟨_, List.mem_singleton.mp hd⟩

/-- **Every call** keeps the datagrams so. -/
theorem after (h : p.Batched) (hp : p.buffer = []) (call : PublishCall) : (p.after call).Batched := by
  cases call with
  | newOrder | deleteOrder | modifyOrder | heartbeat => exact h.single hp _
  | queueTrade => exact ⟨h.datagrams, h.buffer⟩
  | publishQueuedTrades symbol aggressorSide => exact h.publishQueuedTrades symbol aggressorSide

theorem foldl (h : p.Batched) (hp : p.buffer = []) (calls : List PublishCall) :
    (calls.foldl (·.after ·) p).Batched := by
  induction calls generalizing p with
  | nil => exact h
  | cons call calls ih => exact ih (h.after hp call) (buffer_after hp call)

end Batched

end MarketDataPublisher

/-! ## Calls -/

namespace MatchingEngineBroker

/-- The publisher of the one broker is that of the other after some calls. -/
def Publishes (B B' : MatchingEngineBroker) : Prop :=
  ∃ calls : List PublishCall, B'.publisher = calls.foldl (·.after ·) B.publisher

namespace Publishes

variable {B B' B'' : MatchingEngineBroker}

theorem of_eq (h : B'.publisher = B.publisher) : B.Publishes B' := ⟨[], h⟩

theorem refl (B : MatchingEngineBroker) : B.Publishes B := of_eq rfl

theorem trans (h : B.Publishes B') (h' : B'.Publishes B'') : B.Publishes B'' := by
  obtain ⟨calls, h⟩ := h
  obtain ⟨calls', h'⟩ := h'
  exact ⟨calls ++ calls', by rw [h', h, List.foldl_append]⟩

theorem single (call : PublishCall) (h : B'.publisher = B.publisher.after call) :
    B.Publishes B' := ⟨[call], h⟩

end Publishes

variable {B B' : MatchingEngineBroker}

theorem publishes_callback {c : Callback} (h : B.callback c = .ok B') : B.Publishes B' := by
  cases c with
  | onNewOrder orderId symbol side quantity price flags =>
    obtain rfl : B.onNewOrder orderId symbol side quantity price flags = B' := Except.ok.inj h
    by_cases hq : quantity > 0
    · exact .single (.newOrder orderId symbol side quantity price flags)
        (by simp only [onNewOrder, if_pos hq]; rfl)
    · exact .of_eq (by simp only [onNewOrder, if_neg hq]; rfl)
  | onModifyOrder orderId symbol side quantity price =>
    obtain rfl : B.onModifyOrder orderId symbol side quantity price = B' := Except.ok.inj h
    exact .single (.modifyOrder orderId side quantity price) rfl
  | onDeleteOrder orderId publish =>
    obtain rfl : B.onDeleteOrder orderId publish = B' := Except.ok.inj h
    cases publish
    · exact .of_eq rfl
    · exact .single (.deleteOrder orderId) rfl
  | onCancelReject orderId =>
    obtain rfl : B.onCancelReject orderId = B' := Except.ok.inj h
    exact .of_eq rfl
  | onTrade orderId quantity price =>
    obtain rfl : B.onTrade orderId quantity price = B' := Except.ok.inj h
    exact .single (.queueTrade orderId quantity price) rfl
  | onFill orderId symbol side quantity price flags active =>
    have hfill : B.onFill orderId symbol side quantity price flags active = .ok B' := h
    unfold onFill at hfill
    split at hfill
    · exact .of_eq (Except.ok.inj hfill ▸ rfl)
    · split at hfill
      · cases hfill
      · exact .of_eq (Except.ok.inj hfill ▸ rfl)

theorem publishes_takeAll (cs : List Callback) (B : MatchingEngineBroker) :
    B.Publishes (B.takeAll cs).broker := by
  induction cs generalizing B with
  | nil => exact .refl B
  | cons c cs ih =>
    unfold takeAll
    cases hc : B.callback c with
    | ok B' => exact (publishes_callback hc).trans (ih B')
    | error e => exact .refl B

theorem publishes_run (B : MatchingEngineBroker) (symbol : UInt32) (L : OrderLadder)
    (op : LadderOp) : B.Publishes (B.run symbol L op).broker := by
  have hset : B.Publishes (B.setLadder symbol (L.step op).ladder) := .of_eq rfl
  have htaken := hset.trans (publishes_takeAll (L.step op).calls _)
  unfold run
  dsimp only
  split <;> exact htaken

theorem publishes_dispatch (B : MatchingEngineBroker) (payload : OePayload) :
    B.Publishes (B.dispatch payload).broker := by
  unfold dispatch
  split
  · split
    · exact .refl B
    · exact Publishes.trans (.of_eq rfl) (publishes_run ..)
  · split
    · exact .refl B
    · exact publishes_run ..
  · split
    · exact .refl B
    · exact Publishes.trans (.of_eq rfl) (publishes_run ..)
  all_goals exact .of_eq rfl

/-- **A request** is some calls of the publisher. -/
theorem publishes_handle (B : MatchingEngineBroker) (payload : OePayload) :
    B.Publishes (B.handle payload).broker := by
  let B₁ : MatchingEngineBroker :=
    { B with clientSeq := payload.clientSeq, clientId := payload.clientId }
  have hfirst : B.Publishes B₁ := .of_eq rfl
  have hdispatched := hfirst.trans (publishes_dispatch B₁ payload)
  unfold handle
  dsimp only
  split
  · exact hdispatched
  · exact hdispatched.trans
      (.single (.publishQueuedTrades payload.symbol (B₁.dispatch payload).broker.aggressorSide)
        rfl)

end MatchingEngineBroker

namespace BrokerRun

variable {s t : BrokerRun} {ls : List BrokerEvent} {symbols : List UInt32}

/-- **A run of the engine** is a list of calls of its publisher. -/
theorem publishes_of_run (h : Run BrokerStep s ls t) : s.broker.Publishes t.broker := by
  induction h with
  | nil => exact .refl _
  | snoc _ step ih =>
    obtain ⟨-, rfl⟩ := step
    refine ih.trans ?_
    rename_i l _
    cases l with
    | heartbeat => exact .single (.heartbeat) rfl
    | request p => exact MatchingEngineBroker.publishes_handle _ p

theorem publisher_start (symbols : List UInt32) :
    (start symbols).broker.publisher = MarketDataPublisher.empty := by
  rw [start, MatchingEngineBroker.start_eq]
  rfl

/-- The messages of a run are numbered from 0 on, and they all went out. -/
theorem numbered_of_run (h : Run BrokerStep (start symbols) ls s) :
    s.broker.publisher.datagrams.flatten = numberedFrom 0 s.broker.publisher.bodies := by
  obtain ⟨calls, hcalls⟩ := publishes_of_run h
  rw [publisher_start] at hcalls
  have hnumbered := (MarketDataPublisher.framed_empty.foldl calls).numbered
  have hbuffer : (calls.foldl (·.after ·) MarketDataPublisher.empty).buffer = [] :=
    MarketDataPublisher.buffer_foldl rfl calls
  rw [MarketDataPublisher.messages, hbuffer, List.append_nil, ← hcalls] at hnumbered
  exact hnumbered

/-- An engine that begins with a heartbeat publishes one first. -/
theorem heartbeat_of_run (h : Run BrokerStep (start symbols) (.heartbeat :: ls) s) :
    s.broker.publisher.bodies.head? = some .heartbeat := by
  obtain ⟨t, ⟨-, rfl⟩, hrest⟩ := h.exists_first
  obtain ⟨calls, hcalls⟩ := publishes_of_run hrest
  have hfirst : ((start symbols).after .heartbeat).broker.publisher =
      MarketDataPublisher.empty.after .heartbeat :=
    congrArg (MarketDataPublisher.after · .heartbeat) (publisher_start symbols)
  rw [hcalls, hfirst, MarketDataPublisher.bodies_afterCalls calls rfl]
  rfl

theorem batched_of_run (h : Run BrokerStep (start symbols) ls s) :
    s.broker.publisher.Batched := by
  obtain ⟨calls, hcalls⟩ := publishes_of_run h
  rw [publisher_start] at hcalls
  rw [hcalls]
  exact MarketDataPublisher.batched_empty.foldl rfl calls

end BrokerRun

end Ndfex
