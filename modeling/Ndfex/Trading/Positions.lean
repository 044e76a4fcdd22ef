import Ndfex.Trading.Orders
import Ndfex.Wire.Integers

/-!
# Positions of a client

A client adds up the fills that it reads, by the side and the symbol that it remembers of the order. The
exchange passes the same fills to clearing, with the side and the symbol of its own books. The two agree,
whatever comes in between: what clearing has and the client has not is on its way to it.

## Main definitions

* `Trading.Followed`: what holds while a careful client stays in its session

## Main results

* `Trading.Followed.next`, `Trading.Followed.call`, `Trading.Followed.read`: every step keeps it
* `positions_reconcile`: the client's positions are those in clearing, but for the fills under way
-/

namespace Ndfex

open Bots Containers Transition Wire

/-! ## Fills and messages -/

theorem position_append (client symbol : UInt32) (fills fills' : List ClearingFill) :
    position client symbol (fills ++ fills') =
      position client symbol fills + position client symbol fills' := by
  unfold position fillsIn
  rw [List.filter_append, List.filter_append, List.map_append, List.sum_append]

/-- A position is of the client's own fills. -/
theorem position_filter (client symbol : UInt32) (fills : List ClearingFill) :
    position client symbol (fills.filter fun f => f.clientId = client) = position client symbol fills := by
  unfold position fillsIn
  simp only [List.filter_filter]
  refine congrArg List.sum (congrArg _ (List.filter_congr fun f _ => ?_))
  by_cases hclient : f.clientId = client <;> simp [hclient]

theorem position_singleton (client symbol : UInt32) (f : ClearingFill) :
    position client symbol [f] =
      if f.symbol = symbol ∧ f.clientId = client then f.signedQuantity else 0 := by
  unfold position fillsIn
  by_cases hsymbol : f.symbol = symbol
  · by_cases hclient : f.clientId = client <;> simp [hsymbol, hclient]
  · simp [hsymbol]

/-- What a fill adds in the 32 bits of the client. -/
theorem ofInt_signedQuantity (f : ClearingFill) : Int32.ofInt f.signedQuantity =
    if f.side = Side.buy then f.quantity.toInt32 else -f.quantity.toInt32 := by
  have hquantity : Int32.ofInt (f.quantity.toNat : ℤ) = f.quantity.toInt32 := by
    rw [← toInt32_ofInt, ofInt_toNat]
  unfold ClearingFill.signedQuantity
  split_ifs
  · exact hquantity
  · rw [Int32.ofInt_neg, hquantity]

namespace OePayload

variable {q : OePayload} {orderId : UInt64}

/-- A client does not throw at what it is told of a payload. -/
theorem message_quiet (q : OePayload) (orderId : UInt64) :
    ¬ ResponseThrows (q.message orderId).type := by
  unfold message
  split <;> exact not_false

theorem msgType_of_message_closed {o : UInt64} (h : q.message orderId = .closed o) :
    q.msgType = .close ∧ orderId = o := by
  unfold message at h
  split at h <;> cases h
  exact ⟨‹_›, rfl⟩

/-- What a fill of the client adds to a position. -/
theorem ofInt_position_fill {c : UInt32} (hfill : q.msgType = .fill) (hclient : q.clientId = c)
    (symbol : UInt32) : Int32.ofInt (position c symbol q.fill?.toList) =
      if symbol = q.symbol then if q.side = Side.buy then q.quantity.toInt32 else -q.quantity.toInt32
      else 0 := by
  rw [fill?, if_pos hfill, Option.toList_some, position_singleton]
  by_cases hsymbol : symbol = q.symbol
  · rw [if_pos hsymbol, if_pos ⟨hsymbol.symm, hclient⟩, ofInt_signedQuantity]
  · rw [if_neg hsymbol, if_neg fun hsame => hsymbol hsame.1.symm]
    rfl

end OePayload

namespace Trading

variable {s t : Trading} {l : TradingEvent} {e : ExchangeEvent} {fd : Int32} {n : SessionName}
  {old : List Written} {q : Fifo Request}

/-- The fills that some messages report. -/
def fillsTold (xs : List Written) : List ClearingFill := fillsReported (xs.filterMap Written.payload)

theorem fillsTold_append (xs ys : List Written) : fillsTold (xs ++ ys) = fillsTold xs ++ fillsTold ys := by
  unfold fillsTold
  rw [List.filterMap_append, fillsReported_append]

/-- The client has not read that the order is closed. -/
def Unclosed (s : Trading) (m : NewOrder) : Prop :=
  ∀ x ∈ s.responses.taken, x.response.body ≠ .closed m.orderId

/-- A client and the exchange while the client stays in its session. -/
structure Followed (fd : Int32) (n : SessionName) (old : List Written) (s : Trading) : Prop where
  attended : s.exchange.Attended fd n old
  disciplined : s.Disciplined
  placed : s.Placed n.clientId
  quiet : s.thrown = false
  /-- The socket has what the exchange wrote to it, and that answers payloads. -/
  channel : ∃ xs, s.exchange.handler.written = old ++ xs ∧
    s.responses.items = xs.filter (fun x => x.sockFd = fd) ∧
      ∀ x ∈ s.responses.items, ∃ p, x.payload = some p
  /-- The client knows its orders, until it has read that they are closed. -/
  knows : ∀ m ∈ s.sent, s.Unclosed m →
    s.client.openOrders.lookup m.orderId.toUInt32 = some ⟨m.side, m.symbol⟩
  /-- Until then no other order has its place in the client's map. -/
  apart : ∀ m ∈ s.sent, ∀ m' ∈ s.sent, s.Unclosed m → s.Unclosed m' →
    m.orderId.toUInt32 = m'.orderId.toUInt32 → m = m'
  positions : ∀ symbol, s.client.getPosition symbol =
    Int32.ofInt (position n.clientId symbol (fillsTold s.responses.taken))

namespace Followed

/-- What the messages of the socket tell. -/
theorem told (h : s.Followed fd n old) {x : Written} (hx : x ∈ s.responses.items) :
    ∃ p, x.payload = some p ∧ p ∈ s.exchange.broker.toClient.taken ∧
      s.exchange.Tells fd n.clientId x p := by
  obtain ⟨xs, hwritten, hitems, hpayload⟩ := h.channel
  obtain ⟨xs', hwritten', htells, -⟩ := h.attended.told
  obtain rfl : xs = xs' := List.append_cancel_left (hwritten.symm.trans hwritten')
  obtain ⟨p, hp⟩ := hpayload x hx
  rw [hitems] at hx
  obtain ⟨hmem, hsock⟩ := List.mem_filter.mp hx
  obtain ⟨htaken, htold⟩ := htells x hmem (of_decide_eq_true hsock) p hp
  exact ⟨p, hp, htaken, htold⟩

/-- The fills that the socket was told are the client's fills that the handler took. -/
theorem fillsTold_items (h : s.Followed fd n old) : fillsTold s.responses.items =
    (fillsReported s.exchange.broker.toClient.taken).filter fun f => f.clientId = n.clientId := by
  obtain ⟨xs, hwritten, hitems, -⟩ := h.channel
  obtain ⟨xs', hwritten', -, hfills⟩ := h.attended.told
  obtain rfl : xs = xs' := List.append_cancel_left (hwritten.symm.trans hwritten')
  rw [fillsTold, hitems]
  exact hfills

/-- Nothing is told of an order behind its last message. -/
theorem later (h : s.Followed fd n old) :
    s.responses.items.Pairwise fun x x' => ∀ e, x.Terminal → x.About e → ¬ x'.About e := by
  obtain ⟨-, hsilent, -⟩ := h.attended.sound
  obtain ⟨xs, hwritten, hitems, -⟩ := h.channel
  rw [hitems]
  have hlater := hsilent.later
  rw [hwritten] at hlater
  exact (List.pairwise_append.mp hlater).2.1.filter _

/-! ### Events of the exchange -/

theorem sent_next (hc : s.Comes fd e q) : (s.next fd e q).sent = s.sent := by
  show q.items.filterMap _ = s.requests.items.filterMap _
  rw [hc.items]

/-- **The exchange goes on**: the client finds everything as it left it. -/
theorem next (h : s.Followed fd n old) (hfd : fd ≠ -1) (hc : s.Comes fd e q)
    (hen : s.exchange.Enabled e) (hkeep : s.exchange.KeepsOwners e)
    (hstays : s.exchange.StaysIn fd n e) : (s.next fd e q).Followed fd n old := by
  have hattended := h.attended.step hfd hstays hkeep (h.placed.keepsSides e) ⟨hen, rfl⟩
  have hitems : (s.next fd e q).responses.items = s.responses.items ++
      (s.exchange.messagesOf e).filter fun x => x.sockFd = fd := Fifo.items_pushAll ..
  have htaken : (s.next fd e q).responses.taken = s.responses.taken := Fifo.taken_pushAll ..
  refine ⟨hattended, ?_, h.placed.step h.attended h.disciplined hc hattended.sound, h.quiet, ?_, ?_, ?_,
    ?_⟩
  · -- the requests that were sent do not change
    have hrequests : (s.next fd e q).requests.items = s.requests.items := hc.items
    refine ⟨?_, ?_, ?_⟩
    · rw [hrequests]
      exact h.disciplined.orders
    · rw [sent_next hc]
      exact h.disciplined.distinct
    · rw [hrequests]
      exact h.disciplined.sides
  · -- the messages written to the client's socket come behind those that are there
    obtain ⟨xs, hwritten, hold, hpayload⟩ := h.channel
    refine ⟨xs ++ s.exchange.messagesOf e, ?_, ?_, fun x hx => ?_⟩
    · show (s.exchange.after e).handler.written = _
      rw [Exchange.written_after, hwritten, List.append_assoc]
    · rw [hitems, hold, List.filter_append]
    · rw [hitems] at hx
      rcases List.mem_append.mp hx with hx | hx
      · exact hpayload x hx
      · obtain ⟨hmem, hsock⟩ := List.mem_filter.mp hx
        exact Exchange.payload_of_mem_messagesOf hmem (of_decide_eq_true hsock) hstays
          (hc.not_login h.disciplined)
  · unfold Unclosed
    rw [sent_next hc, htaken]
    exact h.knows
  · unfold Unclosed
    rw [sent_next hc, htaken]
    exact h.apart
  · rw [htaken]
    exact h.positions

/-! ### The client -/

/-- **The client calls**: it knows its new order. -/
theorem call (h : s.Followed fd n old) {k : OeCall} (horderly : s.Orderly (.call k)) :
    (s.after fd (.call k)).Followed fd n old := by
  have hheard : (s.after fd (.call k)).heard = s.heard := by
    unfold heard
    show (s.requests.push _).taken.filterMap _ = _
    rw [Fifo.taken_push]
  have hpositions : ∀ symbol, (s.client.call k).getPosition symbol = s.client.getPosition symbol := by
    intro symbol
    cases k <;> rfl
  -- an order that it sent before and has not read to be closed keeps its place from the new one
  have hlow : ∀ m, .newOrder m ∈ s.requests.items → s.Unclosed m → ∀ m', s.client.request k = .newOrder m' →
      m.orderId.toUInt32 ≠ m'.orderId.toUInt32 := by
    intro m hm hopen m' hnew hlow
    have hknown := h.knows m (mem_sent.mpr hm) hopen
    cases k with
    | sendOrder symbol orderId side quantity price flags =>
      obtain rfl := Request.newOrder.inj hnew
      have hnone := (horderly m (mem_sent.mpr hm)).2 hlow
      rw [hlow, hnone] at hknown
      cases hknown
    | _ => cases hnew
  refine ⟨h.attended, h.disciplined.call horderly, ?_, h.quiet, h.channel, ?_, ?_, ?_⟩
  · refine ⟨fun x hx hclient => ?_, h.placed.unique, h.placed.modified⟩
    rw [hheard]
    exact h.placed.taken x hx hclient
  · intro m hm hopen
    show (s.client.call k).openOrders.lookup _ = _
    rcases List.mem_append.mp (mem_sent.mp hm) with hearlier | hlast
    · have hknown := h.knows m (mem_sent.mpr hearlier) hopen
      cases k with
      | sendOrder symbol orderId side quantity price flags =>
        exact (AList.lookup_insert_ne (hlow m hearlier hopen _ rfl)).trans hknown
      | _ => exact hknown
    · have heq := List.mem_singleton.mp hlast
      cases k with
      | sendOrder symbol orderId side quantity price flags =>
        obtain rfl := Request.newOrder.inj heq
        exact AList.lookup_insert _
      | _ => cases heq
  · intro m hm m' hm' hopen hopen' hsame
    rcases List.mem_append.mp (mem_sent.mp hm) with hearlier | hlast
    · rcases List.mem_append.mp (mem_sent.mp hm') with hearlier' | hlast'
      · exact h.apart m (mem_sent.mpr hearlier) m' (mem_sent.mpr hearlier') hopen hopen' hsame
      · exact absurd hsame (hlow m hearlier hopen m' (List.mem_singleton.mp hlast').symm)
    · have hnew := (List.mem_singleton.mp hlast).symm
      rcases List.mem_append.mp (mem_sent.mp hm') with hearlier' | hlast'
      · exact absurd hsame.symm (hlow m' hearlier' hopen' m hnew)
      · exact Request.newOrder.inj (hnew.symm.trans (List.mem_singleton.mp hlast').symm)
  · intro symbol
    exact (hpositions symbol).trans (h.positions symbol)

/-- The order of a message, as the client sent it and as the exchange has it. -/
theorem order_of_tells (h : s.Followed fd n old) {orderId exchOrderId : UInt64}
    (hmem : (⟨fd, n.clientId, orderId, exchOrderId⟩ : SessionOrder) ∈ s.exchange.sessionOrders) :
    ∃ m ∈ s.sent, m.orderId = orderId ∧ m.header.clientId = n.clientId ∧
      ClientHandler.newPayload m exchOrderId ∈ s.exchange.handler.toMatchingEngine.items := by
  obtain ⟨m, hm, hid, hclient, hitem⟩ := h.placed.taken _ hmem rfl
  exact ⟨m, s.heard_subset_sent hm, hid, hclient, hitem⟩

/-- An order of which the next message tells was not closed by a message before it. -/
theorem unclosed_of_told (h : s.Followed fd n old) {x : Written} (hfront : s.responses.front? = some x)
    {p : OePayload} (hp : x.payload = some p) (hreject : p.msgType ≠ .reject) {m : NewOrder}
    (hmem : (⟨fd, n.clientId, m.orderId, p.exchOrderId⟩ : SessionOrder) ∈ s.exchange.sessionOrders) :
    s.Unclosed m := by
  intro x' hx' hclosed
  have hx'item : x' ∈ s.responses.items := by
    rw [← Fifo.taken_append_pending]
    exact List.mem_append_left _ hx'
  obtain ⟨p', hp', -, orderId', hbody', hmem'⟩ := h.told hx'item
  obtain ⟨hclose, rfl⟩ := OePayload.msgType_of_message_closed (hbody'.symm.trans hclosed)
  replace hmem' := hmem' (by simp [hclose])
  have hsame := h.placed.unique _ hmem _ hmem' rfl rfl rfl
  have hlater := h.later
  rw [← Fifo.taken_append_pending, Fifo.pending_of_front? hfront] at hlater
  refine (List.pairwise_append.mp hlater).2.2 x' hx' x (by simp) p.exchOrderId ?_ ?_ ?_
  · exact ⟨p', hp', Or.inl hclose⟩
  · exact ⟨p', hp', by simp [hclose], hsame.symm⟩
  · exact ⟨p, hp, hreject, rfl⟩

/-- **A fill that the client reads** is of an order that it knows, and has the order's symbol and side. -/
theorem order_of_fill (h : s.Followed fd n old) {x : Written} (hfront : s.responses.front? = some x)
    {p : OePayload} (hp : x.payload = some p) (hfill : p.msgType = .fill) :
    ∃ orderId, x.response.body = .fill orderId p.quantity p.price.toInt32 p.flags ∧
      p.clientId = n.clientId ∧
        s.client.openOrders.lookup orderId.toUInt32 = some ⟨p.side, p.symbol⟩ := by
  obtain ⟨p', hp', htaken, orderId, hbody, hmem⟩ := h.told (Fifo.mem_items_of_front? hfront)
  obtain rfl := Option.some.inj (hp.symm.trans hp')
  have hnotReject : p.msgType ≠ .reject := by simp [hfill]
  replace hmem := hmem hnotReject
  obtain ⟨m, hm, rfl, hclient, hitem⟩ := h.order_of_tells hmem
  -- the engine took the order, and what it made of it is described by the entry
  obtain ⟨books, haccounted⟩ := h.attended.accounted
  have hresponse : p ∈ s.exchange.broker.toClient.items := by
    rw [← Fifo.taken_append_pending]
    exact List.mem_append_left _ htaken
  obtain ⟨r, hr, hnew, hid, hrclient⟩ := haccounted.attributed.1 p hresponse hfill
  have hritem : r ∈ s.exchange.handler.toMatchingEngine.items := by
    rw [← Fifo.taken_append_pending]
    exact List.mem_append_left _ hr
  have hentry : r = ClientHandler.newPayload m p.exchOrderId :=
    eq_of_newOrder haccounted.agreed.assigned hritem hitem hnew rfl hid
  obtain ⟨hsymbol, hside⟩ := haccounted.described p hresponse hfill r hr hnew hid
  have hrn : r.clientId = n.clientId := by
    rw [hentry]
    exact hclient
  replace hside := hside hrn
  rw [hentry] at hsymbol hside
  refine ⟨m.orderId, ?_, hrclient.symm.trans hrn, ?_⟩
  · rw [hbody, OePayload.message, hfill]
  rw [hside, ← hsymbol]
  exact h.knows m hm (h.unclosed_of_told hfront hp hnotReject hmem)

/-- **What a message does to the client**: it keeps the orders that it knows, and adds up its fills. -/
theorem take (h : s.Followed fd n old) {x : Written} (hfront : s.responses.front? = some x) :
    (∀ m ∈ s.sent,
      (∀ x' ∈ s.responses.taken ++ [x], x'.response.body ≠ .closed m.orderId) →
        (s.client.take x.response.body).openOrders.lookup m.orderId.toUInt32 =
          some ⟨m.side, m.symbol⟩) ∧
      ∀ symbol, (s.client.take x.response.body).getPosition symbol =
        Int32.ofInt (position n.clientId symbol (fillsTold (s.responses.taken ++ [x]))) := by
  obtain ⟨p, hp, htaken, orderId, hbody, hmem⟩ := h.told (Fifo.mem_items_of_front? hfront)
  have htold : fillsTold (s.responses.taken ++ [x]) = fillsTold s.responses.taken ++ p.fill?.toList := by
    rw [fillsTold_append]
    congr 1
    simp only [fillsTold, fillsReported, List.filterMap_cons, hp, List.filterMap_nil]
    cases p.fill? <;> rfl
  rw [htold]
  have hbefore : ∀ m : NewOrder,
      (∀ x' ∈ s.responses.taken ++ [x], x'.response.body ≠ .closed m.orderId) → s.Unclosed m :=
    fun m hopen x' hx' => hopen x' (List.mem_append_left _ hx')
  by_cases hfill : p.msgType = .fill
  · obtain ⟨o, hfillBody, hclient, hlookup⟩ := h.order_of_fill hfront hp hfill
    rw [hfillBody]
    refine ⟨fun m hm hopen => ?_, fun symbol => ?_⟩
    · rw [OEClient.take, OEClient.openOrders_onFill _ hlookup]
      exact h.knows m hm (hbefore m hopen)
    · rw [OEClient.take, OEClient.getPosition_onFill _ hlookup, h.positions symbol, position_append,
        Int32.ofInt_add, OePayload.ofInt_position_fill hfill hclient]
      split_ifs
      · rfl
      · rfl
      · exact (Int32.add_zero _).symm
  have hnone : p.fill? = none := by rw [OePayload.fill?, if_neg hfill]
  rw [hnone, Option.toList_none, List.append_nil, hbody]
  by_cases hclose : p.msgType = .close
  · have hclosed : p.message orderId = .closed orderId := by rw [OePayload.message, hclose]
    have hreject : p.msgType ≠ .reject := by simp [hclose]
    obtain ⟨m₁, hm₁, rfl, -, -⟩ := h.order_of_tells (hmem hreject)
    have hopen₁ := h.unclosed_of_told hfront hp hreject (hmem hreject)
    rw [hclosed]
    refine ⟨fun m hm hopen => ?_, h.positions⟩
    -- the order that is closed is another one, and its place in the map its own
    have hne : m.orderId.toUInt32 ≠ m₁.orderId.toUInt32 := by
      intro hlow
      obtain rfl := h.apart m hm m₁ hm₁ (hbefore m hopen) hopen₁ hlow
      exact hopen x (by simp) (hbody.trans hclosed)
    exact (AList.lookup_erase_ne hne).trans (h.knows m hm (hbefore m hopen))
  · -- an acknowledgement and a reject do nothing
    have hsame : s.client.take (p.message orderId) = s.client := by
      unfold OePayload.message
      split
      · rfl
      · exact absurd ‹_› hfill
      · exact absurd ‹_› hclose
      · rfl
    rw [hsame]
    exact ⟨fun m hm hopen => h.knows m hm (hbefore m hopen), h.positions⟩

/-- **The client reads a message**: it throws at none, and adds up its fills. -/
theorem read (h : s.Followed fd n old) {x : Written} (hfront : s.responses.front? = some x) :
    ({ s with responses := s.responses.pop }.read x.response.body).Followed fd n old := by
  obtain ⟨p, -, -, orderId, hbody, -⟩ := h.told (Fifo.mem_items_of_front? hfront)
  have hquiet : ¬ ResponseThrows x.response.body.type := by
    rw [hbody]
    exact p.message_quiet orderId
  obtain ⟨hknows, hpositions⟩ := h.take hfront
  have hpop : s.responses.pop.taken = s.responses.taken ++ [x] := Fifo.taken_pop hfront
  rw [Trading.read, if_neg hquiet]
  refine ⟨h.attended, ⟨h.disciplined.orders, h.disciplined.distinct, h.disciplined.sides⟩,
    ⟨h.placed.taken, h.placed.unique, h.placed.modified⟩, h.quiet, ?_, ?_, ?_, ?_⟩
  · show ∃ xs, _ ∧ s.responses.pop.items = _ ∧ ∀ x ∈ s.responses.pop.items, _
    rw [Fifo.items_pop]
    exact h.channel
  · intro m hm hopen
    replace hopen : ∀ x' ∈ s.responses.pop.taken, x'.response.body ≠ .closed m.orderId := hopen
    rw [hpop] at hopen
    exact hknows m hm hopen
  · -- what is not closed now was not closed before
    have hbefore : ∀ m : NewOrder, (∀ x' ∈ s.responses.pop.taken, x'.response.body ≠ .closed m.orderId) →
        s.Unclosed m := by
      intro m hopen x' hx'
      exact hopen x' (hpop ▸ List.mem_append_left _ hx')
    exact fun m hm m' hm' hopen hopen' => h.apart m hm m' hm' (hbefore m hopen) (hbefore m' hopen')
  · intro symbol
    show _ = Int32.ofInt (position n.clientId symbol (fillsTold s.responses.pop.taken))
    rw [hpop]
    exact hpositions symbol

/-- **The positions** are those in clearing, but for the fills under way. -/
theorem reconciled (h : s.Followed fd n old) (symbol : UInt32) :
    s.client.getPosition symbol = Int32.ofInt
      (position n.clientId symbol s.exchange.broker.clearingPublisher.fills -
        position n.clientId symbol s.underway) := by
  rw [h.positions symbol]
  congr 1
  -- clearing has the fills that were read, told but not read, and not taken by the handler
  obtain ⟨books, haccounted⟩ := h.attended.accounted
  have htold : position n.clientId symbol (fillsTold s.responses.items) =
      position n.clientId symbol (fillsReported s.exchange.broker.toClient.taken) := by
    rw [h.fillsTold_items, position_filter]
  have hunderway : s.underway = fillsTold s.responses.pending ++
      fillsReported s.exchange.broker.toClient.pending := rfl
  rw [← haccounted.reported, ← s.exchange.broker.toClient.taken_append_pending, fillsReported_append,
    position_append, ← htold, ← s.responses.taken_append_pending, fillsTold_append, position_append,
    hunderway, position_append]
  omega

/-! ### Runs -/

/-- **Every step** of a careful client and the exchange. -/
theorem step (h : s.Followed fd n old) (hfd : fd ≠ -1) (hcareful : s.Careful fd n l)
    (hstep : TradingStep fd s l t) : t.Followed fd n old := by
  obtain ⟨hen, rfl⟩ := hstep
  obtain ⟨hapart, horderly, hkeeps⟩ := hcareful
  cases l with
  | exchange e =>
    obtain ⟨hkeep, hstays⟩ := hkeeps e rfl
    exact h.next hfd (Or.inl ⟨hapart, rfl⟩) (hen e rfl) hkeep hstays
  | call k => exact h.call horderly
  | deliver now sessionId w =>
    simp only [after]
    cases hfront : s.requests.front? with
    | none => exact h
    | some r =>
      have hevent : r.event fd now sessionId w ∈ s.event? fd (.deliver now sessionId w) := by
        simp only [event?, hfront]
        rfl
      obtain ⟨hkeep, hstays⟩ := hkeeps _ hevent
      exact h.next hfd (Or.inr ⟨r, now, sessionId, w, hfront, rfl, rfl⟩) (hen _ hevent) hkeep hstays
  | take =>
    simp only [after]
    cases hfront : s.responses.front? with
    | none => exact h
    | some x => exact h.read hfront

/-- A client that is logged in, and wrote and read nothing since. -/
theorem start {symbols : List SymbolDefinition} {users : AList fun _ : List UInt8 => UserInfo}
    {ls : List ExchangeEvent} {s₀ : Exchange} {client : OEClient}
    (h₀ : Run (Guarded Exchange.KeepsOwners ExchangeStep) (Exchange.start symbols users) ls s₀)
    (hsession : s₀.handler.session fd = some n) (halone : s₀.Alone fd n.clientId)
    (hfirst : ∀ p ∈ s₀.handler.toMatchingEngine.items, p.msgType = .newOrder →
      p.clientId ≠ n.clientId) (hpositions : client.positions = ∅) :
    (Trading.start s₀ client).Followed fd n s₀.handler.written := by
  have hattended := Exchange.Attended.start h₀ hsession halone hfirst
  have hrequested := fun x => @Exchange.requested_of_mem_sessionOrders _ _ _ _ h₀.of_guarded x
  refine ⟨hattended, ⟨by simp [Trading.start], .nil, .nil⟩, ⟨?_, ?_, ?_⟩, rfl,
    ⟨[], (List.append_nil _).symm, rfl, by simp [Trading.start]⟩, ?_, ?_, ?_⟩
  · intro x hx hclient
    obtain ⟨p, hp, hnew, hpclient⟩ := hrequested x hx
    exact absurd (hpclient.trans hclient) (hfirst p hp hnew)
  · intro x hx x' hx' hclient
    obtain ⟨p, hp, hnew, hpclient⟩ := hrequested x hx
    exact absurd (hpclient.trans hclient) (hfirst p hp hnew)
  · intro p hp hmodify r hr hentry
    exact absurd hentry.2.2 (hfirst r hr hentry.1)
  · intro m hm
    cases hm
  · intro m hm
    cases hm
  · intro symbol
    show client.getPosition symbol = Int32.ofInt (position n.clientId symbol [])
    rw [OEClient.getPosition, hpositions]
    rfl

end Followed

end Trading

/-- **A client's positions are those in clearing**, but for the fills under way. A client logs in and
enters its first orders, stays in its session, uses each order id once and modifies its orders on their
sides; the other clients do as they like on their own sockets. Then it never throws, and in every state its
position in a symbol is what its fills in clearing add up to, in 32 bits, less what those add up to that it
has not read. -/
theorem positions_reconcile {symbols : List SymbolDefinition}
    {users : AList fun _ : List UInt8 => UserInfo} {ls₀ : List ExchangeEvent} {s₀ : Exchange}
    {fd : Int32} {n : SessionName} {client : OEClient} {ls : List TradingEvent} {t : Trading}
    (h₀ : Run (Guarded Exchange.KeepsOwners ExchangeStep) (Exchange.start symbols users) ls₀ s₀)
    (hsession : s₀.handler.session fd = some n) (hfd : fd ≠ -1) (halone : s₀.Alone fd n.clientId)
    (hfirst : ∀ p ∈ s₀.handler.toMatchingEngine.items, p.msgType = .newOrder →
      p.clientId ≠ n.clientId) (hpositions : client.positions = ∅)
    (h : Run (Guarded (Trading.Careful fd n) (TradingStep fd)) (Trading.start s₀ client) ls t) :
    t.thrown = false ∧ ∀ symbol, t.client.getPosition symbol = Int32.ofInt
      (position n.clientId symbol t.exchange.broker.clearingPublisher.fills -
        position n.clientId symbol t.underway) := by
  have hfollowed : t.Followed fd n s₀.handler.written :=
    h.invariant (fun _ _ _ hs hstep => hs.step hfd hstep.1 hstep.2)
      (Trading.Followed.start h₀ hsession halone hfirst hpositions)
  exact ⟨hfollowed.quiet, hfollowed.reconciled⟩

/-- A client buys in two trades, and has read of the first. -/
theorem positions_reconcile_partly :
    ∃ t, (∃ ls, Run (Guarded (Trading.Careful 5 ⟨7, 100⟩) (TradingStep 5)) (Trading.start
        ([.login 5 ⟨⟨1, 100, 0⟩, [97], [97]⟩ 7 .fine,
          .login 6 ⟨⟨1, 200, 0⟩, [98], [98]⟩ 8 .fine].foldl Exchange.after Exchange.startGold)
        { OEClient.start ⟨[97], [97], 100⟩ with clientSeq := 1, sessionId := 7 }) ls t) ∧
      t.client.getPosition 1 = 4 ∧ position 100 1 t.exchange.broker.clearingPublisher.fills = 10 ∧
        t.client.getPosition 1 = Int32.ofInt
          (position 100 1 t.exchange.broker.clearingPublisher.fills - position 100 1 t.underway) := by
  have h₀ : Run (Guarded Exchange.KeepsOwners ExchangeStep) Exchange.startGold
      [.login 5 ⟨⟨1, 100, 0⟩, [97], [97]⟩ 7 .fine, .login 6 ⟨⟨1, 200, 0⟩, [98], [98]⟩ 8 .fine] _ :=
    Exchange.guarded_run_of_enabled (by decide +kernel) (by decide +kernel)
  have h : Run (Guarded (Trading.Careful 5 ⟨7, 100⟩) (TradingStep 5)) (Trading.start
        ([.login 5 ⟨⟨1, 100, 0⟩, [97], [97]⟩ 7 .fine,
          .login 6 ⟨⟨1, 200, 0⟩, [98], [98]⟩ 8 .fine].foldl Exchange.after Exchange.startGold)
        { OEClient.start ⟨[97], [97], 100⟩ with clientSeq := 1, sessionId := 7 })
      [.exchange (.newOrder 6 ⟨⟨2, 200, 8⟩, 1, 1, Side.sell, 4, 50, 0⟩ 1000),
        .exchange (.newOrder 6 ⟨⟨3, 200, 8⟩, 2, 1, Side.sell, 6, 50, 0⟩ 1001),
        .call (.sendOrder 1 1 Side.buy 10 50 0), .deliver 1002 0 .fine,
        .exchange .engineTurn, .exchange .engineTurn, .exchange .engineTurn,
        .exchange (.handlerTurn .fine), .exchange (.handlerTurn .fine),
        .exchange (.handlerTurn .fine), .exchange (.handlerTurn .fine),
        .exchange (.handlerTurn .fine), .take] _ :=
    Trading.run_of_enabled (by decide +kernel) (by decide +kernel)
  refine ⟨_, ⟨_, h⟩, by decide +kernel, by decide +kernel, ?_⟩
  exact (positions_reconcile h₀ (by decide +kernel) (by decide) (by decide +kernel) (by decide +kernel)
    rfl h).2 1

end Ndfex
