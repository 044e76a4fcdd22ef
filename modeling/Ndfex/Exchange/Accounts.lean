import Ndfex.Exchange.Messages
import Ndfex.MatchingEngine.OrderTerms

/-!
# The engine's fills in the exchange

In the exchange the engine takes what the handler forwards, so a modification is asked for by the client
that entered its order. With the owners of resting orders kept, every fill names the client, the symbol and
the side of its order's entry, goes to clearing as it goes to the client, and is not behind the end of its
order.

## Main definitions

* `Exchange.engine`: the engine's thread in the exchange
* `Exchange.KeepsOwners`: a new order shares the low bits of its id with no order of another client at rest
* `Exchange.KeepsSides`: the engine takes no modification of a client's order to another side
* `Exchange.Accounted`: what holds of the fills

## Main results

* `Exchange.Accounted.step`: every step that keeps owners and sides keeps the fills accounted for
-/

namespace Ndfex

open Containers Transition

namespace MatchingEngineBroker

variable {B : MatchingEngineBroker} {requests : List OePayload} {books : UInt32 → PriorityBook}

/-- The ladders decide the orders of the books. -/
theorem Sound.mem_orders_iff (hs : B.Sound requests books) {symbol : UInt32} {o : RestingOrder} :
    o ∈ (books symbol).orders ↔ (B.resting symbol o.orderId).map Order.resting = some o := by
  rw [hs.resting_eq]
  exact ⟨(hs.ordered symbol).find?_eq, fun h => (PriorityBook.mem_of_find? h).1⟩

end MatchingEngineBroker

namespace Exchange

variable {s t : Exchange} {l : ExchangeEvent} {c : UInt32} {books : UInt32 → PriorityBook}

/-- The engine's thread, with the requests it took. -/
def engine (s : Exchange) : BrokerRun := ⟨s.broker, s.handler.toMatchingEngine.taken, s.fault⟩

/-- The engine takes no new order whose id shares its low 32 bits with an order of another client at
rest. -/
def KeepsOwners (s : Exchange) (l : ExchangeEvent) : Prop :=
  match l with
  | .engineTurn => ∀ p ∈ s.handler.toMatchingEngine.front?, p.msgType = .newOrder →
    ∀ r ∈ s.handler.toMatchingEngine.taken, r.msgType = .newOrder →
      r.exchOrderId.toUInt32 = p.exchOrderId.toUInt32 →
        (s.broker.resting r.symbol r.exchOrderId).isSome → r.clientId = p.clientId
  | _ => True

instance (s : Exchange) : DecidablePred s.KeepsOwners
  | .engineTurn => inferInstanceAs (Decidable (∀ p ∈ s.handler.toMatchingEngine.front?,
      p.msgType = .newOrder → ∀ r ∈ s.handler.toMatchingEngine.taken, r.msgType = .newOrder →
        r.exchOrderId.toUInt32 = p.exchOrderId.toUInt32 →
          (s.broker.resting r.symbol r.exchOrderId).isSome → r.clientId = p.clientId))
  | .login .. => instDecidableTrue
  | .newOrder .. => instDecidableTrue
  | .deleteOrder .. => instDecidableTrue
  | .modifyOrder .. => instDecidableTrue
  | .socketClosed .. => instDecidableTrue
  | .handlerTurn _ => instDecidableTrue
  | .heartbeat => instDecidableTrue

/-- The engine takes no modification of an order of the client to another side than that of its entry. -/
def KeepsSides (c : UInt32) (s : Exchange) (l : ExchangeEvent) : Prop :=
  l = .engineTurn → ∀ p ∈ s.handler.toMatchingEngine.front?, s.engine.KeepsSides c p

/-- The fills of the exchange: each names the client, the symbol and, if it is of the client `c`, the side
of its order's entry; those that responses report are those that went to clearing; and none is behind the
end of its order. -/
structure Accounted (c : UInt32) (s : Exchange) (books : UInt32 → PriorityBook) : Prop where
  agreed : Agreed s.handler s.broker books
  known : s.engine.OwnersKnown books
  attributed : s.engine.FillsAttributed
  sides : s.engine.SidesKept c books
  described : s.engine.FillsDescribed c
  reported : fillsReported s.broker.toClient.items = s.broker.clearingPublisher.fills
  ends : EndsLast s.broker.toClient.items

/-! ### Steps of the handler -/

/-- All that the handler does to the broker is to take a response; a heartbeat is only published. -/
theorem queues_after (hl : l ≠ .engineTurn) :
    ∃ toClient publisher, (s.after l).broker = { s.broker with toClient, publisher } ∧
      toClient.items = s.broker.toClient.items := by
  cases l with
  | engineTurn => exact absurd rfl hl
  | handlerTurn w =>
    simp only [after, handlerTurn]
    cases hp : s.broker.toClient.front? with
    | none => exact ⟨_, _, rfl, rfl⟩
    | some p => exact ⟨_, _, rfl, Fifo.items_pop _⟩
  | newOrder fd msg now =>
    simp only [after, noteEntry]
    split_ifs <;> exact ⟨_, _, rfl, rfl⟩
  | _ => exact ⟨_, _, rfl, rfl⟩

/-- What is not the engine's turn leaves its fills as they are. -/
theorem Accounted.kept (h : s.Accounted c books) (hl : l ≠ .engineTurn) (ht : (s.after l).Sound) :
    ∃ books', (s.after l).Accounted c books' := by
  obtain ⟨toClient, publisher, hbroker, hitems⟩ := queues_after (s := s) hl
  have hrequests : (s.after l).engine.requests = s.engine.requests := taken_after hl
  obtain ⟨-, -, books', hagreed⟩ := ht
  -- the ladders are the same, and so are the orders of the books
  have hresting : (s.after l).broker.resting = s.broker.resting := by
    rw [hbroker]
    rfl
  have hmem : ∀ symbol o, o ∈ (books' symbol).orders → o ∈ (books symbol).orders := by
    intro symbol o ho
    rw [h.agreed.sound.mem_orders_iff, ← hresting]
    exact hagreed.sound.mem_orders_iff.mp ho
  have hentered : ∀ e client, (s.after l).engine.EnteredBy e client ↔ s.engine.EnteredBy e client := by
    intro e client
    unfold BrokerRun.EnteredBy
    rw [hrequests]
  have hsame : (s.after l).broker.toClient.items = s.broker.toClient.items := by
    rw [hbroker]
    exact hitems
  refine ⟨books', hagreed, ?_, ⟨?_, ?_⟩, ?_, ?_, ?_, ?_⟩
  · rintro symbol e ⟨o, ho, rfl⟩
    obtain ⟨client, hclient, hent⟩ := h.known symbol o.orderId ⟨o, hmem symbol o ho, rfl⟩
    refine ⟨client, Eq.trans ?_ hclient, (hentered _ _).mpr hent⟩
    show (s.after l).broker.clientOf o.orderId = s.broker.clientOf o.orderId
    rw [hbroker]
    rfl
  · intro q hq hfill
    rw [hentered]
    exact h.attributed.1 q (hsame ▸ hq) hfill
  · intro f hf
    rw [hentered]
    refine h.attributed.2 f ?_
    have hfills : (s.after l).broker.clearingPublisher.fills = s.broker.clearingPublisher.fills := by
      rw [hbroker]
    exact hfills ▸ hf
  · intro symbol o ho r hr
    exact h.sides symbol o (hmem symbol o ho) r (hrequests ▸ hr)
  · intro q hq hfill r hr
    exact h.described q (hsame ▸ hq) hfill r (hrequests ▸ hr)
  · rw [hsame, h.reported, hbroker]
  · rw [hsame]
    exact h.ends

/-! ### Turns of the engine -/

/-- The request at the front of the queue respects the owners: a modification is of its own client's
order. -/
theorem respectsOwners (ha : Agreed s.handler s.broker books) (ho : Owners s.handler)
    (hkeep : s.KeepsOwners .engineTurn) {p : OePayload}
    (hp : s.handler.toMatchingEngine.front? = some p) : s.engine.RespectsOwners (.request p) := by
  constructor
  · intro hnew symbol e client hrests hlow ⟨r, hr, hrnew, hrid, hrclient⟩
    -- the order rests in the ladder of the symbol that it was entered for
    obtain ⟨r', hr', hnew', hid', hsymbol⟩ :=
      ha.sound.entered symbol e ((ha.sound.rests_iff symbol e).mpr hrests)
    have hsame : r = r' :=
      eq_of_newOrder ha.sound.distinct hr hr' hrnew hnew' (hrid.trans hid'.symm)
    rw [← hrclient]
    refine hkeep p hp hnew r hr hrnew (by rw [hrid]; exact hlow) ?_
    rw [hsame, hsymbol, hid']
    exact hrests
  · intro hmodify _
    have hsplit : s.handler.toMatchingEngine.items =
        s.handler.toMatchingEngine.taken ++ p :: s.handler.toMatchingEngine.pop.pending := by
      rw [← Fifo.taken_append_pending, Fifo.pending_of_front? hp]
    obtain ⟨r, hr, hnew, hid, hclient, -⟩ := ho.owned _ p _ hsplit (Or.inr hmodify)
    exact ⟨r, hr, hnew, hid, hclient⟩

/-- The engine's thread after its turn. -/
theorem engine_engineTurn (hs : s.Sound) {p : OePayload}
    (hp : s.handler.toMatchingEngine.front? = some p) : (s.after .engineTurn).engine = s.engine.next p := by
  obtain ⟨hfault, -, books, hagreed⟩ := hs
  have hthrown := hagreed.thrown hp
  rw [after_engineTurn hagreed hp, engine, BrokerRun.next, engine]
  dsimp only
  rw [Fifo.taken_pop hp, hthrown, hfault]

/-- No order that was ended before is filled. -/
theorem ends_engineTurn (ha : Agreed s.handler s.broker books)
    (hends : EndsLast s.broker.toClient.items) {p : OePayload}
    (hp : s.handler.toMatchingEngine.front? = some p) :
    EndsLast (s.broker.toClient.items ++ s.broker.responses books p) := by
  have hfresh := ha.fresh hp
  refine List.pairwise_append.mpr ⟨hends, ha.sound.endsLast_responses hfresh, ?_⟩
  intro q hq q' hq' hterm hfill heq
  obtain ⟨op, call, hop, hcall, -, hfilled⟩ :=
    MatchingEngineBroker.exists_of_fill_mem_responses hq' hfill
  have hterminated : Terminated q'.exchOrderId s.broker.toClient.items :=
    ⟨q, hq, hterm, heq.symm⟩
  rcases PriorityBook.rests_of_filledId hcall hfilled with hrests | henters
  · exact ((ha.rests q'.exchOrderId).mp ⟨_, hrests⟩).2 hterminated
  · -- the id of a new order is fresh
    obtain ⟨hpop, -⟩ := MatchingEngineBroker.op_of_opOf hop
    obtain ⟨hnew, hid⟩ := OePayload.enters_of_op hpop henters
    rw [newIds_append] at hfresh
    refine List.disjoint_of_nodup_append hfresh (ha.answered _ hterminated) ?_
    exact mem_newIds.mpr ⟨p, by simp, hnew, hid⟩

/-- **The engine's turn** accounts for the fills that it makes. -/
theorem Accounted.engineTurn (h : s.Accounted c books) (hs : s.Sound) (ho : Owners s.handler)
    (hkeep : s.KeepsOwners .engineTurn) (hsides : s.KeepsSides c .engineTurn) :
    ∃ books', (s.after .engineTurn).Accounted c books' := by
  cases hp : s.handler.toMatchingEngine.front? with
  | none =>
    -- without a request the engine waits
    have hsame : s.after .engineTurn = s := by simp only [after, Exchange.engineTurn, hp]
    rw [hsame]
    exact ⟨books, h⟩
  | some p =>
    have hfresh := h.agreed.fresh hp
    have hrespects := respectsOwners h.agreed ho hkeep hp
    -- the books of the accounts are those of the engine alone
    have hengine := engine_engineTurn hs hp
    obtain ⟨hhandled, -⟩ := h.agreed.sound.handle hfresh
    refine ⟨s.broker.booksOf books p, ?_, ?_, ?_, ?_, ?_, ?_, ?_⟩
    · rw [after_engineTurn h.agreed hp]
      exact h.agreed.engine hp
    · rw [hengine]
      exact h.known.next h.agreed.sound hrespects hfresh
    · rw [hengine]
      exact h.attributed.next h.agreed.sound h.known hrespects hfresh
    · rw [hengine]
      exact h.sides.next h.agreed.sound (hsides rfl p hp) hfresh
    · rw [hengine]
      exact h.described.next h.agreed.sound h.sides h.attributed (hsides rfl p hp) hfresh
    · rw [responses_engineTurn h.agreed hp, after_engineTurn h.agreed hp, fillsReported_append,
        h.reported, MatchingEngineBroker.fillsReported_responses]
      exact hhandled.fills.symm
    · rw [responses_engineTurn h.agreed hp]
      exact ends_engineTurn h.agreed h.ends hp

/-- **Every step** that keeps owners and sides keeps the fills accounted for. -/
theorem Accounted.step (h : s.Accounted c books) (hs : s.Sound) (ho : Owners s.handler)
    (hkeep : s.KeepsOwners l) (hsides : s.KeepsSides c l) (hstep : ExchangeStep s l t) :
    ∃ books', t.Accounted c books' := by
  have ht := hs.step hstep
  obtain ⟨-, rfl⟩ := hstep
  by_cases hl : l = .engineTurn
  · subst hl
    exact h.engineTurn hs ho hkeep hsides
  · exact h.kept hl ht

/-- A run that keeps the owners, and enters no order of the client, has its fills accounted for. -/
theorem accounted_run {symbols : List SymbolDefinition} {users : AList fun _ : List UInt8 => UserInfo}
    {ls : List ExchangeEvent}
    (h : Run (Guarded KeepsOwners ExchangeStep) (start symbols users) ls s)
    (hnone : ∀ p ∈ s.handler.toMatchingEngine.items, p.msgType = .newOrder → p.clientId ≠ c) :
    ∃ books, s.Accounted c books := by
  induction h with
  | nil =>
    have htoClient := toClient_start symbols users
    refine ⟨fun _ => PriorityBook.empty, Agreed.start symbols users, ?_, ⟨?_, ?_⟩, ?_, ?_, ?_, ?_⟩
    · rintro symbol e ⟨o, ho, -⟩
      cases ho
    · intro q hq
      rw [engine, htoClient] at hq
      cases hq
    · intro f hf
      rw [engine, start, MatchingEngineBroker.start_eq] at hf
      cases hf
    · rintro symbol o ho
      cases ho
    · intro q hq
      rw [engine, htoClient] at hq
      cases hq
    · rw [htoClient, start, MatchingEngineBroker.start_eq]
      rfl
    · rw [htoClient]
      exact .nil
  | @snoc u v ls l run step ih =>
    obtain ⟨hkeep, hstep⟩ := step
    have hrun := run.of_guarded
    obtain ⟨-, rfl⟩ := id hstep
    have hsound := sound_run hrun
    have howners := owners_run hrun
    obtain ⟨ps, hitems⟩ := items_after (historyFits_run hrun) l
    have hbefore : ∀ p ∈ u.handler.toMatchingEngine.items, p.msgType = .newOrder →
        p.clientId ≠ c := fun p hp => hnone p (hitems ▸ List.mem_append_left ps hp)
    obtain ⟨books, haccounted⟩ := ih hbefore
    refine haccounted.step hsound howners hkeep (fun _ p _ _ r hr hentry => ?_) hstep
    -- the client has no order to modify
    have hmem : r ∈ u.handler.toMatchingEngine.items := by
      rw [← Fifo.taken_append_pending]
      exact List.mem_append_left _ hr
    exact absurd hentry.2.2 (hbefore r hmem hentry.1)

end Exchange

end Ndfex
