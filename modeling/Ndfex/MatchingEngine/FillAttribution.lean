import Ndfex.MatchingEngine.BrokerRuns

/-!
# The clients of fills

Every fill names a client. The active side of a trade is filled for the client of the request, the
resting side for the client in the owner map, whose keys are the low 32 bits of exchange ids.

## Main definitions

* `BrokerRun.FillsAttributed`: every fill names the client that entered its order
* `BrokerRun.RespectsOwners`: a request that leaves the owners of resting orders as they are

## Main results

* `fills_attributed`: the requests that respect owners attribute every fill
* `fill_misattributed`: two ids with the same low bits attribute a fill to the wrong client
-/

namespace Ndfex

open Transition

namespace BrokerRun

/-- Every fill on the response queue and every fill passed to clearing names the client whose
request entered its order. -/
def FillsAttributed (s : BrokerRun) : Prop :=
  (∀ q ∈ s.broker.toClient.items, q.msgType = .fill → s.EnteredBy q.exchOrderId q.clientId) ∧
    ∀ f ∈ s.broker.clearingPublisher.fills, s.EnteredBy f.orderId f.clientId

instance (s : BrokerRun) : Decidable s.FillsAttributed :=
  inferInstanceAs (Decidable ((∀ q ∈ s.broker.toClient.items, _ → _) ∧
    ∀ f ∈ s.broker.clearingPublisher.fills, _))

/-- A modification makes its order trade: it enters the order again, at a price that another order
crosses. -/
def Moves (s : BrokerRun) (p : OePayload) : Prop :=
  ∃ o, s.broker.resting p.symbol p.exchOrderId = some o ∧ o.filledQuantity < p.quantity ∧
    ¬ (o.price = p.price.toInt32 ∧ o.side = p.side) ∧
    ∃ e x, s.broker.resting p.symbol e = some x ∧ e ≠ p.exchOrderId ∧
      x.side.bookSide = p.side.bookSide.opposite ∧
      ¬ OrderLadder.beyondLimit p.side x.price p.price.toInt32

/-- A request that leaves the owners as they are: the id of a new order shares its low 32 bits only
with resting orders of the same client, and an order is made to trade by its own client. -/
def RespectsOwners (s : BrokerRun) : BrokerEvent → Prop
  | .heartbeat => True
  | .request p =>
    (p.msgType = .newOrder → ∀ symbol e client, (s.broker.resting symbol e).isSome →
      e.toUInt32 = p.exchOrderId.toUInt32 → s.EnteredBy e client → client = p.clientId) ∧
    (p.msgType = .modifyOrder → s.Moves p → s.EnteredBy p.exchOrderId p.clientId)

/-- The owner map names the client of every resting order. -/
def OwnersKnown (s : BrokerRun) (books : UInt32 → PriorityBook) : Prop :=
  ∀ symbol e, (books symbol).Rests e → ∃ client, s.broker.clientOf e = some client ∧
    s.EnteredBy e client

variable {s : BrokerRun} {books : UInt32 → PriorityBook} {p : OePayload}

theorem EnteredBy.next {e : UInt64} {client : UInt32} (h : s.EnteredBy e client) (p : OePayload) :
    (s.next p).EnteredBy e client := by
  obtain ⟨r, hr, hrest⟩ := h
  exact ⟨r, List.mem_append_left _ hr, hrest⟩

theorem enteredBy_self (s : BrokerRun) {p : OePayload} (hp : p.msgType = .newOrder) :
    (s.next p).EnteredBy p.exchOrderId p.clientId :=
  ⟨p, List.mem_append_right _ (List.mem_singleton_self p), hp, rfl, rfl⟩

/-- The owner that the broker finds while it makes the call is the one that entered the order. -/
theorem clientOf_accept_of_rests (hs : s.broker.Sound s.requests books)
    (hown : s.OwnersKnown books) (hp : s.RespectsOwners (.request p)) {symbol : UInt32} {e : UInt64}
    (he : (books symbol).Rests e) :
    ∃ client, (s.broker.accept p).clientOf e = some client ∧ (s.next p).EnteredBy e client := by
  obtain ⟨client, hclient, hent⟩ := hown symbol e he
  rw [MatchingEngineBroker.clientOf_accept]
  split_ifs with hlow
  · -- the new order overwrites the owner, with the same client
    have hrest := (hs.rests_iff symbol e).mp he
    rw [← hp.1 hlow.1 symbol e client hrest hlow.2 hent]
    exact ⟨client, rfl, hent.next p⟩
  · exact ⟨client, hclient, hent.next p⟩

/-- An order that its request makes trade was entered by the client of the request. -/
theorem enteredBy_of_active (hs : s.broker.Sound s.requests books)
    (hp : s.RespectsOwners (.request p)) {op : LadderOp} (hop : p.op = some op) {c : Callback}
    (hc : c ∈ ((books p.symbol).step p.symbol op).calls) (htrade : c.OfTrade) :
    (s.next p).EnteredBy p.exchOrderId p.clientId := by
  rcases OePayload.cases_of_op hop with ⟨hnew, -⟩ | ⟨-, rfl⟩ | ⟨hmodify, rfl⟩
  · exact enteredBy_self s hnew
  · -- a deletion makes no trade
    simp only [PriorityBook.step, PriorityBook.deleteOrder] at hc
    split_ifs at hc <;> obtain rfl := List.mem_singleton.mp hc <;> exact absurd htrade not_false
  · obtain ⟨o, hfind, hfilled, hplace, x, hx, hne, hcross⟩ :=
      PriorityBook.trade_of_modify htrade hc
    obtain ⟨ho, hid⟩ := PriorityBook.mem_of_find? hfind
    obtain ⟨order, horder, rfl⟩ := hs.exists_resting ho
    have hxside := (hs.ordered p.symbol).sided _ x hx
    obtain ⟨xorder, hxorder, rfl⟩ := hs.exists_resting (PriorityBook.mem_orders.mpr ⟨_, hx⟩)
    have hmoves : s.Moves p :=
      ⟨order, hid ▸ horder, hfilled, hplace, _, xorder, hxorder, hne, hxside, hcross⟩
    exact (hp.2 hmodify hmoves).next p

/-- Each fill of the call names the client that entered its order. -/
theorem fillClient_attributed (hs : s.broker.Sound s.requests books) (hown : s.OwnersKnown books)
    (hp : s.RespectsOwners (.request p)) {e : UInt64} {sym : UInt32} {side : Side} {q : UInt32}
    {price : Int32} {flags : UInt8} {active : Bool}
    (hc : Callback.onFill e sym side q price flags active ∈ s.broker.callsOf books p) :
    (s.next p).EnteredBy e ((s.broker.accept p).fillClient e active) := by
  unfold MatchingEngineBroker.callsOf at hc
  cases hop : s.broker.opOf p with
  | none =>
    rw [hop] at hc
    cases hc
  | some op =>
    rw [hop] at hc
    obtain ⟨hpop, -⟩ := MatchingEngineBroker.op_of_opOf hop
    obtain ⟨-, hactive, hpassive⟩ := PriorityBook.fill_of_mem_step hc
    cases active with
    | true =>
      rw [hactive rfl, OePayload.orderId_of_op hpop]
      simp only [MatchingEngineBroker.fillClient, if_true, MatchingEngineBroker.accept_clientId]
      exact enteredBy_of_active hs hp hpop hc trivial
    | false =>
      obtain ⟨client, hclient, hent⟩ := clientOf_accept_of_rests hs hown hp (hpassive rfl)
      simpa [MatchingEngineBroker.fillClient, hclient] using hent

/-- **Every request** that respects the owners attributes its fills. -/
theorem FillsAttributed.next (h : s.FillsAttributed) (hs : s.broker.Sound s.requests books)
    (hown : s.OwnersKnown books) (hp : s.RespectsOwners (.request p))
    (hfresh : (newIds (s.requests ++ [p])).Nodup) : (s.next p).FillsAttributed := by
  obtain ⟨hhandled, -⟩ := hs.handle hfresh
  constructor
  · intro q hq hfill
    rw [BrokerRun.next, hhandled.items] at hq
    rcases List.mem_append.mp hq with hq | hq
    · exact (h.1 q hq hfill).next p
    rcases List.mem_append.mp hq with hq | hq
    · -- a rejection that goes back is no fill
      unfold MatchingEngineBroker.returned at hq
      split_ifs at hq with hreject
      · obtain rfl := List.mem_singleton.mp hq
        cases hreject.symm.trans hfill
      · cases hq
    · obtain ⟨c, hc, hanswer⟩ := List.mem_filterMap.mp hq
      cases c with
      | onFill e sym side quantity price flags active =>
        obtain rfl := Option.some.inj hanswer
        exact fillClient_attributed hs hown hp hc
      | onTrade orderId quantity price => cases hanswer
      | _ =>
        obtain rfl := Option.some.inj hanswer
        cases hfill
  · intro f hf
    rw [BrokerRun.next, hhandled.fills] at hf
    rcases List.mem_append.mp hf with hf | hf
    · exact (h.2 f hf).next p
    · obtain ⟨c, hc, hcleared⟩ := List.mem_filterMap.mp hf
      cases c with
      | onFill e sym side quantity price flags active =>
        obtain rfl := Option.some.inj hcleared
        exact fillClient_attributed hs hown hp hc
      | _ => cases hcleared

/-- **Every request** that respects the owners leaves them known. -/
theorem OwnersKnown.next (hs : s.broker.Sound s.requests books) (hown : s.OwnersKnown books)
    (hp : s.RespectsOwners (.request p)) (hfresh : (newIds (s.requests ++ [p])).Nodup) :
    (s.next p).OwnersKnown (s.broker.booksOf books p) := by
  obtain ⟨hhandled, -⟩ := hs.handle hfresh
  intro symbol e he
  rw [BrokerRun.next, hhandled.owners]
  unfold MatchingEngineBroker.booksOf at he
  cases hop : s.broker.opOf p with
  | none =>
    rw [hop] at he
    obtain ⟨client, hclient, hent⟩ := hown symbol e he
    exact ⟨client, hclient, hent.next p⟩
  | some op =>
    rw [hop] at he
    rcases MatchingEngineBroker.rests_update (MatchingEngineBroker.op_of_opOf hop).1 he with hold | ⟨hnew, rfl, -⟩
    · exact clientOf_accept_of_rests hs hown hp hold
    · refine ⟨p.clientId, ?_, enteredBy_self s hnew⟩
      rw [Option.isSome_some, if_pos rfl, MatchingEngineBroker.clientOf_accept,
        if_pos ⟨hnew, rfl⟩]

end BrokerRun

/-- **Every fill names the client that entered its order**, in a run whose requests respect the
owners of resting orders. -/
theorem fills_attributed {symbols : List UInt32} {ls : List BrokerEvent} {s : BrokerRun}
    (h : Run (Guarded BrokerRun.RespectsOwners BrokerStep) (BrokerRun.start symbols) ls s) :
    s.FillsAttributed := by
  have hinv : ∃ books, s.broker.Sound s.requests books ∧ s.OwnersKnown books ∧
      s.FillsAttributed := by
    refine h.invariant (I := fun s => ∃ books, s.broker.Sound s.requests books ∧
      s.OwnersKnown books ∧ s.FillsAttributed) ?_
      ⟨_, MatchingEngineBroker.sound_start symbols, ?_, ?_⟩
    · rintro s l t ⟨books, hs, hown, hfills⟩ ⟨hguard, hen, rfl⟩
      cases l with
      | heartbeat => exact ⟨books, hs.heartbeat, hown, hfills⟩
      | request p =>
        obtain ⟨-, hfresh⟩ := hen
        exact ⟨_, (hs.handle hfresh).2, hown.next hs hguard hfresh,
          hfills.next hs hown hguard hfresh⟩
    · simp [BrokerRun.OwnersKnown, PriorityBook.Rests, PriorityBook.orders, PriorityBook.empty]
    · simp only [BrokerRun.start]
      rw [MatchingEngineBroker.start_eq]
      simp [BrokerRun.FillsAttributed, MatchingEngineBroker.empty]
  obtain ⟨-, -, -, hfills⟩ := hinv
  exact hfills

/-- Two clients trade under ids whose low bits differ. -/
theorem fills_attributed_two_clients :
    ([.request ⟨.newOrder, 1, 7, 1, 100, Side.sell, 10, 50, 0⟩,
      .request ⟨.newOrder, 2, 7, 1, 200, Side.buy, 4, 50, 0⟩].foldl BrokerRun.after
        (BrokerRun.start [7])).FillsAttributed := by
  refine fills_attributed (BrokerRun.run_of_enabled (by decide +kernel) fun i hi => ?_)
  match i with
  | 0 => exact ⟨fun _ _ _ _ _ _ ⟨r, hr, _⟩ => absurd hr (by simp [BrokerRun.start]), by simp⟩
  | 1 =>
    refine ⟨fun _ symbol e client _ hlow hent => ?_, by simp⟩
    -- the only order so far has other low bits
    obtain ⟨r, hr, -, rfl, -⟩ := hent
    obtain rfl := List.mem_singleton.mp hr
    exact absurd hlow (by decide)

/-- The engine hands out ids from a clock of nanoseconds: here a second client's id comes `2 ^ 32`
after the first, and a third client trades with the first. -/
theorem fill_misattributed :
    ∃ s, Run (Guarded (fun _ _ => True) BrokerStep) (BrokerRun.start [7])
        [.request ⟨.newOrder, 1, 7, 1, 100, Side.sell, 10, 50, 0⟩,
          .request ⟨.newOrder, 4294967297, 7, 1, 200, Side.sell, 10, 60, 0⟩,
          .request ⟨.newOrder, 4294967298, 7, 1, 300, Side.buy, 10, 50, 0⟩] s ∧
      ¬ s.FillsAttributed := by
  refine ⟨_, BrokerRun.run_of_enabled (by decide +kernel) (fun _ _ => trivial), ?_⟩
  decide +kernel

end Ndfex
