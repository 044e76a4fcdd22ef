import Ndfex.MatchingEngine.BookEvents
import Ndfex.MatchingEngine.Broker

/-!
# What a request does

The effect of one request on the broker, in terms of the books its ladders represent: the responses
it queues, the fills it passes to clearing and the messages it publishes are those of the callbacks
of one call of one book.

## Main definitions

* `MatchingEngineBroker.Took`: what callbacks leave of the broker that took them
* `OePayload.op`, `MatchingEngineBroker.opOf`: the call that a request makes
* `MatchingEngineBroker.Sound`: the ladders represent books whose orders came in by requests
* `MatchingEngineBroker.Handled`: what a request leaves

## Main results

* `MatchingEngineBroker.took_takeAll`: with the owners known, no callback throws
* `MatchingEngineBroker.Sound.handle`: every request leaves what its call does to the books
-/

namespace Ndfex

open Containers

/-! ## Callbacks -/

/-- The message that a callback publishes at once. -/
def Callback.body : Callback → Option MdBody
  | .onNewOrder orderId symbol side quantity price flags =>
    if quantity > 0 then some (.newOrder orderId symbol side quantity price flags) else none
  | .onModifyOrder orderId _ side quantity price => some (.modifyOrder orderId side quantity price)
  | .onDeleteOrder orderId publish => if publish then some (.deleteOrder orderId) else none
  | .onCancelReject _ => none
  | .onTrade .. => none
  | .onFill .. => none

/-- The trade that a callback queues for the feed. -/
def Callback.queuedTrade : Callback → Option QueuedTrade
  | .onTrade orderId quantity price => some ⟨orderId, quantity, price⟩
  | _ => none

/-- The trade that the callbacks of a trade queue. -/
def Trade.queued (t : Trade) : QueuedTrade := ⟨t.order.orderId, t.quantity, t.order.price⟩

theorem filterMap_tradeCalls (symbol : UInt32) (incomingId : UInt64) (side : Side)
    (o : RestingOrder) (quantity : UInt32) (restingFlags incomingFlags : UInt8) :
    (tradeCalls symbol incomingId side o quantity restingFlags incomingFlags).filterMap
      Callback.queuedTrade = [⟨o.orderId, quantity, o.price⟩] := rfl

theorem filterMap_queuedTrade (symbol : UInt32) (incomingId : UInt64) (side : Side)
    (ts : List Trade) :
    (ts.flatMap (Trade.calls symbol incomingId side)).filterMap Callback.queuedTrade =
      ts.map Trade.queued := by
  induction ts with
  | nil => rfl
  | cons t ts ih =>
    rw [List.flatMap_cons, List.filterMap_append, ih]
    rfl

namespace MatchingEngineBroker

/-- The client that a fill names. -/
def fillClient (B : MatchingEngineBroker) (orderId : UInt64) (active : Bool) : UInt32 :=
  if active then B.clientId else (B.clientOf orderId).getD 0

/-- The response that a callback queues. -/
def answer (B : MatchingEngineBroker) : Callback → Option OePayload
  | .onNewOrder orderId symbol side quantity price flags =>
    some (B.response .ack orderId symbol side quantity price flags)
  | .onModifyOrder orderId symbol side quantity price =>
    some (B.response .ack orderId symbol side quantity price)
  | .onDeleteOrder orderId _ => some (B.response .close orderId)
  | .onCancelReject orderId => some (B.response .reject orderId)
  | .onTrade .. => none
  | .onFill orderId symbol side quantity price flags active =>
    some (.make .fill orderId symbol (if active then B.clientSeq else 0)
      (B.fillClient orderId active) side quantity price flags)

/-- The fill that a callback passes to clearing. -/
def cleared (B : MatchingEngineBroker) : Callback → Option ClearingFill
  | .onFill orderId symbol side quantity price _ active =>
    some ⟨orderId, B.fillClient orderId active, symbol, quantity, price, side⟩
  | _ => none

/-- A callback of no trade queues none, passes no fill to clearing and fills nothing. -/
theorem not_ofTrade (B : MatchingEngineBroker) (orderId : UInt64) {cs : List Callback}
    (hcs : ∀ c ∈ cs, ¬ c.OfTrade) :
    cs.filterMap Callback.queuedTrade = [] ∧ cs.filterMap B.cleared = [] ∧
      filled orderId cs = 0 := by
  induction cs with
  | nil => exact ⟨rfl, rfl, rfl⟩
  | cons c cs ih =>
    obtain ⟨hqueued, hcleared, hfilled⟩ := ih fun c' hc' => hcs c' (List.mem_cons_of_mem _ hc')
    have hc := hcs c (by simp)
    cases c with
    | onTrade => exact absurd trivial hc
    | onFill => exact absurd trivial hc
    | _ => exact ⟨hqueued, hcleared, (Nat.zero_add _).trans hfilled⟩

/-- The trades that a call queues: with another order on the other side, at its price. -/
theorem order_of_queuedTrade {b : PriorityBook} {symbol : UInt32} {op : LadderOp} {t : QueuedTrade}
    (ht : t ∈ (b.step symbol op).calls.filterMap Callback.queuedTrade) :
    ∃ o ∈ b.half op.side.bookSide.opposite, o.orderId = t.orderId ∧ o.price = t.price ∧
      ¬ OrderLadder.beyondLimit op.side t.price op.price ∧
      (op.Enters op.orderId ∨ t.orderId ≠ op.orderId) := by
  obtain ⟨ts, tail, hcalls, htail, -, hts⟩ := PriorityBook.trades_step b symbol op
  have hnone := (empty.not_ofTrade op.orderId fun c hc => (htail c hc).1).1
  rw [hcalls, List.filterMap_append, filterMap_queuedTrade, hnone, List.append_nil] at ht
  obtain ⟨t, hmem, rfl⟩ := List.mem_map.mp ht
  exact ⟨t.order, (hts t hmem).1, rfl, rfl, (hts t hmem).2⟩

/-- The terminal responses of callbacks are for the orders that the callbacks end. -/
theorem terminated_answers (B : MatchingEngineBroker) (e : UInt64) (cs : List Callback) :
    Terminated e (cs.filterMap B.answer) ↔ Closed e cs := by
  induction cs with
  | nil => simp
  | cons c cs ih =>
    rw [closed_cons, ← ih, List.filterMap_cons]
    cases c <;>
      simp [answer, response, OePayload.make, OePayload.Terminal, Callback.closes, and_comm]

/-- The owner of the resting order of a fill is known. -/
def Known (B : MatchingEngineBroker) : Callback → Prop
  | .onFill orderId _ _ _ _ _ active => active = false → (B.clientOf orderId).isSome
  | _ => True

/-- What callbacks leave of the broker `B` that took them. -/
structure Took (B : MatchingEngineBroker) (cs : List Callback) (B' : MatchingEngineBroker) :
    Prop where
  clientSeq : B'.clientSeq = B.clientSeq
  clientId : B'.clientId = B.clientId
  aggressorSide : B'.aggressorSide = B.aggressorSide
  ladders : B'.symbolToMatchingEngine = B.symbolToMatchingEngine
  owners : B'.exchOrderIdToClientId = B.exchOrderIdToClientId
  items : B'.toClient.items = B.toClient.items ++ cs.filterMap B.answer
  taken : B'.toClient.taken = B.toClient.taken
  fills : B'.clearingPublisher.fills = B.clearingPublisher.fills ++ cs.filterMap B.cleared
  bodies : B'.publisher.bodies = B.publisher.bodies ++ cs.filterMap Callback.body
  buffer : B.publisher.buffer = [] → B'.publisher.buffer = []
  queuedTrades : B'.publisher.queuedTrades =
    B.publisher.queuedTrades ++ cs.filterMap Callback.queuedTrade

theorem Took.nil (B : MatchingEngineBroker) : B.Took [] B := by
  constructor <;> simp

/-- Callbacks leave the owners as they are. -/
theorem Took.clientOf {B B' : MatchingEngineBroker} {cs : List Callback} (h : B.Took cs B')
    (e : UInt64) : B'.clientOf e = B.clientOf e := by
  rw [MatchingEngineBroker.clientOf, MatchingEngineBroker.clientOf, h.owners]

/-- What a callback answers depends on the request and the owners only. -/
theorem Took.answer_eq {B B' : MatchingEngineBroker} {cs : List Callback} (h : B.Took cs B') :
    B'.answer = B.answer ∧ B'.cleared = B.cleared := by
  have hclient : B'.fillClient = B.fillClient := by
    funext orderId active
    rw [fillClient, fillClient, h.clientId, h.clientOf]
  constructor <;> funext c
  · cases c <;> simp only [answer, response, h.clientSeq, h.clientId, hclient]
  · cases c <;> simp only [cleared, hclient]

theorem Took.trans {B B' B'' : MatchingEngineBroker} {cs cs' : List Callback} (h : B.Took cs B')
    (h' : B'.Took cs' B'') : B.Took (cs ++ cs') B'' where
  clientSeq := h'.clientSeq.trans h.clientSeq
  clientId := h'.clientId.trans h.clientId
  aggressorSide := h'.aggressorSide.trans h.aggressorSide
  ladders := h'.ladders.trans h.ladders
  owners := h'.owners.trans h.owners
  items := by
    rw [h'.items, h.items, h.answer_eq.1, List.filterMap_append, List.append_assoc]
  taken := h'.taken.trans h.taken
  fills := by
    rw [h'.fills, h.fills, h.answer_eq.2, List.filterMap_append, List.append_assoc]
  bodies := by rw [h'.bodies, h.bodies, List.filterMap_append, List.append_assoc]
  buffer hb := h'.buffer (h.buffer hb)
  queuedTrades := by
    rw [h'.queuedTrades, h.queuedTrades, List.filterMap_append, List.append_assoc]

/-- One callback, with the owner of its order known. -/
theorem took_callback {B : MatchingEngineBroker} {c : Callback} (hc : B.Known c) :
    ∃ B', B.callback c = .ok B' ∧ B.Took [c] B' := by
  cases c with
  | onNewOrder orderId symbol side quantity price flags =>
    refine ⟨_, rfl, ?_⟩
    -- an order that traded whole is not published
    by_cases hq : quantity > 0
    · simp only [onNewOrder, if_pos hq]
      constructor <;>
        simp [emplace, MarketDataPublisher.publishNewOrder, answer, cleared, Callback.body,
          Callback.queuedTrade, hq, response]
    · simp only [onNewOrder, if_neg hq]
      constructor <;>
        simp [emplace, answer, cleared, Callback.body, Callback.queuedTrade, hq, response]
  | onModifyOrder orderId symbol side quantity price =>
    refine ⟨_, rfl, ?_⟩
    constructor <;>
      simp [onModifyOrder, emplace, MarketDataPublisher.publishModifyOrder, answer, cleared,
        Callback.body, Callback.queuedTrade, response]
  | onDeleteOrder orderId publish =>
    refine ⟨_, rfl, ?_⟩
    cases publish <;> constructor <;>
      simp [onDeleteOrder, emplace, MarketDataPublisher.publishDeleteOrder, answer, cleared,
        Callback.body, Callback.queuedTrade, response]
  | onCancelReject orderId =>
    refine ⟨_, rfl, ?_⟩
    constructor <;>
      simp [onCancelReject, emplace, answer, cleared, Callback.body, Callback.queuedTrade]
  | onTrade orderId quantity price =>
    refine ⟨_, rfl, ?_⟩
    constructor <;>
      simp [onTrade, MarketDataPublisher.queueTrade, MarketDataPublisher.bodies, answer, cleared,
        Callback.body, Callback.queuedTrade]
  | onFill orderId symbol side quantity price flags active =>
    cases active with
    | true =>
      refine ⟨_, rfl, ?_⟩
      constructor <;>
        simp [fill, emplace, ClearingPublisher.publishFill, answer, cleared, fillClient,
          Callback.body, Callback.queuedTrade]
    | false =>
      -- the fill of a resting order goes to the owner of it
      obtain ⟨client, hclient⟩ := Option.isSome_iff_exists.mp (hc rfl)
      refine ⟨B.fill 0 client orderId symbol side quantity price flags, ?_, ?_⟩
      · simp [callback, onFill, hclient]
      · constructor <;>
          simp [fill, emplace, ClearingPublisher.publishFill, answer, cleared, fillClient, hclient,
            Callback.body, Callback.queuedTrade]

/-- **With the owners known, no callback throws.** -/
theorem took_takeAll {B : MatchingEngineBroker} {cs : List Callback} (hcs : ∀ c ∈ cs, B.Known c) :
    ∃ B', B.takeAll cs = ⟨B', none⟩ ∧ B.Took cs B' := by
  induction cs generalizing B with
  | nil => exact ⟨B, rfl, .nil B⟩
  | cons c cs ih =>
    obtain ⟨B₁, hcall, htook⟩ := took_callback (hcs c (by simp))
    have hknown : ∀ c ∈ cs, B₁.Known c := by
      intro c' hc'
      have hold := hcs c' (List.mem_cons_of_mem _ hc')
      cases c' with
      | onFill orderId symbol side quantity price flags active =>
        intro hactive
        rw [htook.clientOf]
        exact hold hactive
      | _ => trivial
    obtain ⟨B₂, htake, htook'⟩ := ih hknown
    refine ⟨B₂, ?_, htook.trans htook'⟩
    rw [takeAll, hcall]
    exact htake

/-! ## The call of a request -/

end MatchingEngineBroker

/-- The call that a request asks for. -/
def OePayload.op (p : OePayload) : Option LadderOp :=
  match p.msgType with
  | .newOrder => some (.newOrder p.exchOrderId p.side p.quantity p.price.toInt32 p.flags)
  | .deleteOrder => some (.deleteOrder p.exchOrderId)
  | .modifyOrder => some (.modifyOrder p.exchOrderId p.side p.quantity p.price.toInt32)
  | _ => none

/-- The id that a request enters a new order under. -/
def OePayload.newId (p : OePayload) : Option UInt64 :=
  if p.msgType = .newOrder then some p.exchOrderId else none

/-- The ids of the new orders among requests. -/
def newIds (requests : List OePayload) : List UInt64 := requests.filterMap OePayload.newId

theorem mem_newIds {requests : List OePayload} {e : UInt64} :
    e ∈ newIds requests ↔ ∃ r ∈ requests, r.msgType = .newOrder ∧ r.exchOrderId = e := by
  simp [newIds, OePayload.newId]

/-- Of the requests with distinct new ids only one enters an order under an id. -/
theorem eq_of_newOrder {requests : List OePayload} (hnd : (newIds requests).Nodup)
    {r r' : OePayload} (hr : r ∈ requests) (hr' : r' ∈ requests) (hnew : r.msgType = .newOrder)
    (hnew' : r'.msgType = .newOrder) (hid : r.exchOrderId = r'.exchOrderId) : r = r' := by
  induction requests with
  | nil => cases hr
  | cons x xs ih =>
    have hmem : ∀ y ∈ xs, y.msgType = .newOrder → y.exchOrderId ∈ newIds xs := fun y hy hynew =>
      mem_newIds.mpr ⟨y, hy, hynew, rfl⟩
    rw [newIds, List.filterMap_cons] at hnd
    rcases List.mem_cons.mp hr with rfl | hmem₁ <;> rcases List.mem_cons.mp hr' with rfl | hmem₂
    · rfl
    · rw [OePayload.newId, if_pos hnew] at hnd
      exact absurd (hid ▸ hmem r' hmem₂ hnew') (List.nodup_cons.mp hnd).1
    · rw [OePayload.newId, if_pos hnew'] at hnd
      exact absurd (hid ▸ hmem r hmem₁ hnew) (List.nodup_cons.mp hnd).1
    · refine ih ?_ hmem₁ hmem₂
      cases hx : x.newId with
      | none => rwa [hx] at hnd
      | some e =>
        rw [hx] at hnd
        exact (List.nodup_cons.mp hnd).2

theorem OePayload.orderId_of_op {p : OePayload} {op : LadderOp} (h : p.op = some op) :
    op.orderId = p.exchOrderId := by
  unfold OePayload.op at h
  split at h <;> cases h <;> rfl

theorem OePayload.enters_of_op {p : OePayload} {op : LadderOp} (h : p.op = some op) {e : UInt64}
    (he : op.Enters e) : p.msgType = .newOrder ∧ p.exchOrderId = e := by
  obtain ⟨side, quantity, price, flags, rfl⟩ := he
  unfold OePayload.op at h
  split at h
  · cases h
    exact ⟨by assumption, rfl⟩
  all_goals cases h

theorem OePayload.cases_of_op {p : OePayload} {op : LadderOp} (h : p.op = some op) :
    (p.msgType = .newOrder ∧
        op = .newOrder p.exchOrderId p.side p.quantity p.price.toInt32 p.flags) ∨
      (p.msgType = .deleteOrder ∧ op = .deleteOrder p.exchOrderId) ∨
      (p.msgType = .modifyOrder ∧
        op = .modifyOrder p.exchOrderId p.side p.quantity p.price.toInt32) := by
  unfold OePayload.op at h
  split at h
  case h_1 hnew => exact Or.inl ⟨hnew, (Option.some.inj h).symm⟩
  case h_2 hdelete => exact Or.inr (Or.inl ⟨hdelete, (Option.some.inj h).symm⟩)
  case h_3 hmodify => exact Or.inr (Or.inr ⟨hmodify, (Option.some.inj h).symm⟩)
  case h_4 => cases h

namespace MatchingEngineBroker

/-- The call that the broker makes for a request: none without a ladder for its symbol. -/
def opOf (B : MatchingEngineBroker) (p : OePayload) : Option LadderOp :=
  if (B.symbolToMatchingEngine.lookup p.symbol).isSome then p.op else none

theorem op_of_opOf {B : MatchingEngineBroker} {p : OePayload} {op : LadderOp}
    (h : B.opOf p = some op) :
    p.op = some op ∧ (B.symbolToMatchingEngine.lookup p.symbol).isSome := by
  unfold opOf at h
  split_ifs at h with hsome
  exact ⟨h, hsome⟩

/-- The broker as it makes the call. -/
def accept (B : MatchingEngineBroker) (p : OePayload) : MatchingEngineBroker :=
  let B := { B with clientSeq := p.clientSeq, clientId := p.clientId }
  match p.msgType with
  | .newOrder =>
    { B with
      exchOrderIdToClientId := B.exchOrderIdToClientId.insert p.exchOrderId.toUInt32 p.clientId
      aggressorSide := p.side }
  | .modifyOrder => { B with aggressorSide := p.side }
  | _ => B

theorem dispatch_eq_run {B : MatchingEngineBroker} {p : OePayload} {op : LadderOp}
    {L : OrderLadder} (hop : p.op = some op)
    (hL : B.symbolToMatchingEngine.lookup p.symbol = some L) :
    dispatch { B with clientSeq := p.clientSeq, clientId := p.clientId } p =
      (B.accept p).run p.symbol L op := by
  unfold OePayload.op at hop
  unfold dispatch accept
  split at hop <;> cases hop <;> simp [*]

@[simp] theorem accept_toClient (B : MatchingEngineBroker) (p : OePayload) :
    (B.accept p).toClient = B.toClient := by
  unfold accept
  split <;> rfl

@[simp] theorem accept_publisher (B : MatchingEngineBroker) (p : OePayload) :
    (B.accept p).publisher = B.publisher := by
  unfold accept
  split <;> rfl

@[simp] theorem accept_clearingPublisher (B : MatchingEngineBroker) (p : OePayload) :
    (B.accept p).clearingPublisher = B.clearingPublisher := by
  unfold accept
  split <;> rfl

@[simp] theorem accept_ladders (B : MatchingEngineBroker) (p : OePayload) :
    (B.accept p).symbolToMatchingEngine = B.symbolToMatchingEngine := by
  unfold accept
  split <;> rfl

@[simp] theorem accept_clientSeq (B : MatchingEngineBroker) (p : OePayload) :
    (B.accept p).clientSeq = p.clientSeq := by
  unfold accept
  split <;> rfl

@[simp] theorem accept_clientId (B : MatchingEngineBroker) (p : OePayload) :
    (B.accept p).clientId = p.clientId := by
  unfold accept
  split <;> rfl

/-- The owner map gains the client of a new order. -/
theorem clientOf_accept (B : MatchingEngineBroker) (p : OePayload) (e : UInt64) :
    (B.accept p).clientOf e =
      if p.msgType = .newOrder ∧ e.toUInt32 = p.exchOrderId.toUInt32 then some p.clientId
      else B.clientOf e := by
  unfold accept clientOf
  split
  case h_1 hnew =>
    by_cases he : e.toUInt32 = p.exchOrderId.toUInt32
    · rw [if_pos ⟨hnew, he⟩, he]
      exact AList.lookup_insert _
    · rw [if_neg fun h => he h.2]
      exact AList.lookup_insert_ne he
  case h_2 hmodify => simp [hmodify]
  case h_3 hnew hmodify => rw [if_neg fun h => hnew h.1]

/-! ## The books of a broker -/

/-- The ladders represent the books, and every order of a book came in by a request. -/
structure Sound (B : MatchingEngineBroker) (requests : List OePayload)
    (books : UInt32 → PriorityBook) : Prop where
  represents : ∀ symbol L, B.symbolToMatchingEngine.lookup symbol = some L →
    L.Represents (books symbol) ∧ L.symbol = symbol
  absent : ∀ symbol, B.symbolToMatchingEngine.lookup symbol = none →
    books symbol = PriorityBook.empty
  live : ∀ symbol, (books symbol).Live
  entered : ∀ symbol e, (books symbol).Rests e →
    ∃ r ∈ requests, r.msgType = .newOrder ∧ r.exchOrderId = e ∧ r.symbol = symbol
  owned : ∀ symbol e, (books symbol).Rests e → (B.clientOf e).isSome
  distinct : (newIds requests).Nodup
  idle : B.publisher.Idle

/-- The callbacks of the call that a request makes. -/
def callsOf (B : MatchingEngineBroker) (books : UInt32 → PriorityBook) (p : OePayload) :
    List Callback :=
  match B.opOf p with
  | none => []
  | some op => ((books p.symbol).step p.symbol op).calls

/-- The books after the call that a request makes. -/
def booksOf (B : MatchingEngineBroker) (books : UInt32 → PriorityBook) (p : OePayload) :
    UInt32 → PriorityBook :=
  match B.opOf p with
  | none => books
  | some op => Function.update books p.symbol ((books p.symbol).step p.symbol op).book

/-- The payload of a rejection on its way back to the client. -/
def returned (p : OePayload) : List OePayload := if p.msgType = .reject then [p] else []

/-- What a request leaves. -/
structure Handled (B : MatchingEngineBroker) (books : UInt32 → PriorityBook) (p : OePayload)
    (o : Outcome) : Prop where
  items : o.broker.toClient.items =
    B.toClient.items ++ (returned p ++ (B.callsOf books p).filterMap (B.accept p).answer)
  taken : o.broker.toClient.taken = B.toClient.taken
  fills : o.broker.clearingPublisher.fills =
    B.clearingPublisher.fills ++ (B.callsOf books p).filterMap (B.accept p).cleared
  bodies : o.broker.publisher.bodies =
    B.publisher.bodies ++ ((B.callsOf books p).filterMap Callback.body ++
      MarketDataPublisher.tradeBodies ((B.callsOf books p).filterMap Callback.queuedTrade) p.symbol
        (B.accept p).aggressorSide)
  owners : ∀ e, o.broker.clientOf e =
    if (B.opOf p).isSome then (B.accept p).clientOf e else B.clientOf e
  symbols : ∀ symbol, (o.broker.symbolToMatchingEngine.lookup symbol).isSome =
    (B.symbolToMatchingEngine.lookup symbol).isSome
  thrown : ∀ op, B.opOf p = some op →
    o.thrown = ((books p.symbol).step p.symbol op).thrown.map .ladder
  passed : p.msgType = .reject → o.thrown = none

variable {B : MatchingEngineBroker} {requests : List OePayload} {books : UInt32 → PriorityBook}
  {p : OePayload}

theorem Sound.ordered (hs : B.Sound requests books) (symbol : UInt32) :
    (books symbol).Ordered := by
  cases hL : B.symbolToMatchingEngine.lookup symbol with
  | none =>
    rw [hs.absent symbol hL]
    exact (OrderLadder.represents_empty symbol).ordered
  | some L => exact (hs.represents symbol L hL).1.ordered

/-- The id of a new order is not at rest. -/
theorem Sound.find?_fresh (hs : B.Sound requests books)
    (hfresh : (newIds (requests ++ [p])).Nodup) {op : LadderOp} (hop : p.op = some op)
    (symbol : UInt32) : op.Enters op.orderId → (books symbol).find? op.orderId = none := by
  intro henters
  obtain ⟨hnew, hid⟩ := OePayload.enters_of_op hop henters
  by_contra hne
  obtain ⟨r, hr, hrnew, hrid, -⟩ := hs.entered symbol _ (PriorityBook.rests_iff.mpr hne)
  rw [newIds, List.filterMap_append, List.nodup_append] at hfresh
  refine hfresh.2.2 op.orderId (mem_newIds.mpr ⟨r, hr, hrnew, hrid⟩) op.orderId ?_ rfl
  rw [← hid]
  simp [OePayload.newId, hnew]

/-- An order rests in the ladder of one symbol only. -/
theorem Sound.symbol_unique (hs : B.Sound requests books) {symbol symbol' : UInt32} {e : UInt64}
    (h : (books symbol).Rests e) (h' : (books symbol').Rests e) : symbol = symbol' := by
  obtain ⟨r, hr, hnew, hid, rfl⟩ := hs.entered symbol e h
  obtain ⟨r', hr', hnew', hid', rfl⟩ := hs.entered symbol' e h'
  rw [eq_of_newOrder hs.distinct hr hr' hnew hnew' (hid.trans hid'.symm)]

/-- The call of a request: the owners of the orders it fills are known. -/
theorem Sound.known (hs : B.Sound requests books) (op : LadderOp) :
    ∀ c ∈ ((books p.symbol).step p.symbol op).calls, (B.accept p).Known c := by
  intro c hc
  cases c with
  | onFill e sym side quantity price flags active =>
    intro hactive
    have hrests := (PriorityBook.fill_of_mem_step hc).2.2 hactive
    have howned := hs.owned p.symbol e hrests
    rw [clientOf_accept]
    split_ifs
    · rfl
    · exact howned
  | _ => trivial

/-- Without a ladder to call, a rejection goes back to the client and anything else throws. -/
theorem dispatch_of_none (hop : B.opOf p = none) :
    ∃ thrown, dispatch { B with clientSeq := p.clientSeq, clientId := p.clientId } p =
        ⟨{ B with
            clientSeq := p.clientSeq
            clientId := p.clientId
            toClient := B.toClient.pushAll (returned p) }, thrown⟩ ∧
      (p.msgType = .reject → thrown = none) := by
  unfold opOf OePayload.op at hop
  unfold dispatch returned
  cases htype : p.msgType with
  | reject =>
    refine ⟨none, ?_, fun _ => rfl⟩
    have hp : OePayload.make .reject p.exchOrderId p.symbol p.clientSeq p.clientId p.side p.quantity
        p.price.toInt32 p.flags = p := by
      cases p
      simp_all [OePayload.make]
    simp [emplace, hp, Fifo.pushAll]
  | newOrder =>
    cases hL : B.symbolToMatchingEngine.lookup p.symbol with
    | none => exact ⟨_, rfl, by simp⟩
    | some L => simp [htype, hL] at hop
  | deleteOrder =>
    cases hL : B.symbolToMatchingEngine.lookup p.symbol with
    | none => exact ⟨_, rfl, by simp⟩
    | some L => simp [htype, hL] at hop
  | modifyOrder =>
    cases hL : B.symbolToMatchingEngine.lookup p.symbol with
    | none => exact ⟨_, rfl, by simp⟩
    | some L => simp [htype, hL] at hop
  | _ => exact ⟨_, rfl, by simp⟩

/-- A request that calls no ladder. -/
theorem Sound.handle_none (hs : B.Sound requests books) (hop : B.opOf p = none)
    (hfresh : (newIds (requests ++ [p])).Nodup) :
    B.Handled books p (B.handle p) ∧
      (B.handle p).broker.Sound (requests ++ [p]) (B.booksOf books p) := by
  obtain ⟨thrown, hdispatch, hpassed⟩ := dispatch_of_none hop
  have hhandle : B.handle p = ⟨{ B with
      clientSeq := p.clientSeq
      clientId := p.clientId
      toClient := B.toClient.pushAll (returned p) }, thrown⟩ := by
    unfold handle
    dsimp only
    rw [hdispatch]
    cases thrown with
    | some e => rfl
    | none => simp [finishedPacket, MarketDataPublisher.publishQueuedTrades_nil hs.idle.queuedTrades]
  have hcalls : B.callsOf books p = [] := by rw [callsOf, hop]
  have hbooks : B.booksOf books p = books := by rw [booksOf, hop]
  rw [hhandle, hbooks]
  constructor
  · constructor <;>
      simp [hcalls, hop, clientOf, MarketDataPublisher.tradeBodies]
    exact hpassed
  · refine ⟨hs.represents, hs.absent, hs.live, fun symbol e he => ?_, hs.owned, hfresh, hs.idle⟩
    obtain ⟨r, hr, hrest⟩ := hs.entered symbol e he
    exact ⟨r, List.mem_append_left _ hr, hrest⟩

/-- The call of a request and its callbacks, all of which are taken. -/
theorem Sound.run (hs : B.Sound requests books) {op : LadderOp} (hpop : p.op = some op)
    {L : OrderLadder} (hL : B.symbolToMatchingEngine.lookup p.symbol = some L)
    (hfresh : (newIds (requests ++ [p])).Nodup) :
    ∃ B', B.handle p =
        ⟨B'.finishedPacket p.symbol, ((books p.symbol).step p.symbol op).thrown.map .ladder⟩ ∧
      ((B.accept p).setLadder p.symbol (L.step op).ladder).Took
        ((books p.symbol).step p.symbol op).calls B' := by
  obtain ⟨hrep, hsymbol⟩ := hs.represents p.symbol L hL
  obtain ⟨hcalls, hthrown, -, -⟩ := hrep.step op
  rw [hsymbol] at hcalls hthrown
  have hknown : ∀ c ∈ ((books p.symbol).step p.symbol op).calls,
      ((B.accept p).setLadder p.symbol (L.step op).ladder).Known c := hs.known op
  obtain ⟨B', htake, htook⟩ := took_takeAll hknown
  refine ⟨B', ?_, htook⟩
  unfold handle
  dsimp only
  rw [dispatch_eq_run hpop hL, MatchingEngineBroker.run, hcalls, hthrown, htake]
  rcases PriorityBook.thrown_step (hs.find?_fresh hfresh hpop p.symbol) with hnone | ⟨-, hnil⟩
  · rw [hnone]
    rfl
  · -- a refused order made no callback, so nothing waits for the end of the packet
    have hqueued : B'.publisher.queuedTrades = [] := by
      rw [htook.queuedTrades, hnil]
      simpa [setLadder] using hs.idle.queuedTrades
    have hfinished : B'.finishedPacket p.symbol = B' := by
      rw [finishedPacket, MarketDataPublisher.publishQueuedTrades_nil hqueued]
    rw [hfinished]
    cases ((books p.symbol).step p.symbol op).thrown <;> simp

/-- An order at rest after a request was there before or is the request's new order. -/
theorem rests_update {op : LadderOp} (hpop : p.op = some op) {symbol : UInt32} {e : UInt64}
    (he : (Function.update books p.symbol ((books p.symbol).step p.symbol op).book symbol).Rests
      e) :
    (books symbol).Rests e ∨ p.msgType = .newOrder ∧ p.exchOrderId = e ∧ symbol = p.symbol := by
  by_cases hsymbol : symbol = p.symbol
  · obtain rfl := hsymbol
    rw [Function.update_self] at he
    refine (PriorityBook.rests_of_step he).imp_right fun henters => ?_
    obtain ⟨hnew, hid⟩ := OePayload.enters_of_op hpop henters
    exact ⟨hnew, hid, rfl⟩
  · rw [Function.update_of_ne hsymbol] at he
    exact Or.inl he

@[simp] theorem answer_setLadder (B : MatchingEngineBroker) (symbol : UInt32) (L : OrderLadder) :
    (B.setLadder symbol L).answer = B.answer := by
  funext c
  cases c <;> rfl

@[simp] theorem cleared_setLadder (B : MatchingEngineBroker) (symbol : UInt32) (L : OrderLadder) :
    (B.setLadder symbol L).cleared = B.cleared := by
  funext c
  cases c <;> rfl

section Taken

/-! A request has called the ladder `L` of its symbol, and the callbacks are all taken. -/

variable {op : LadderOp} {L : OrderLadder} {B' : MatchingEngineBroker}

/-- The ladders are those of before, but for the one that was called. -/
theorem Took.lookup_ladders {cs : List Callback}
    (htook : ((B.accept p).setLadder p.symbol L).Took cs B') (symbol : UInt32) :
    (B'.finishedPacket p.symbol).symbolToMatchingEngine.lookup symbol =
      if symbol = p.symbol then some L else B.symbolToMatchingEngine.lookup symbol := by
  have hladders : B'.symbolToMatchingEngine = B.symbolToMatchingEngine.insert p.symbol L := by
    rw [htook.ladders]
    simp [setLadder]
  rw [finishedPacket, hladders]
  split_ifs with hsymbol
  · rw [hsymbol]
    exact AList.lookup_insert _
  · exact AList.lookup_insert_ne hsymbol

/-- The responses, fills and messages of the request. -/
theorem Sound.handled_of_took (hs : B.Sound requests books) (hop : B.opOf p = some op)
    (hL : B.symbolToMatchingEngine.lookup p.symbol = some L)
    (htook : ((B.accept p).setLadder p.symbol (L.step op).ladder).Took
      ((books p.symbol).step p.symbol op).calls B') :
    B.Handled books p
      ⟨B'.finishedPacket p.symbol, ((books p.symbol).step p.symbol op).thrown.map .ladder⟩ := by
  have hcalls : B.callsOf books p = ((books p.symbol).step p.symbol op).calls := by
    rw [callsOf, hop]
  -- a rejection calls no ladder
  have hreject : p.msgType ≠ .reject := by
    intro hreject
    have hpop := (op_of_opOf hop).1
    rw [OePayload.op, hreject] at hpop
    cases hpop
  constructor
  case items =>
    have hitems : B'.toClient.items = (B.accept p).toClient.items ++ _ := htook.items
    rw [finishedPacket, hitems, answer_setLadder, hcalls, returned, if_neg hreject]
    simp
  case taken =>
    have htaken : B'.toClient.taken = (B.accept p).toClient.taken := htook.taken
    rw [finishedPacket, htaken]
    simp
  case fills =>
    have hfills : B'.clearingPublisher.fills = (B.accept p).clearingPublisher.fills ++ _ :=
      htook.fills
    rw [finishedPacket, hfills, cleared_setLadder, hcalls]
    simp
  case bodies =>
    -- the queue of trades was empty, so it now holds the trades of this call
    have hbodies : B'.publisher.bodies = (B.accept p).publisher.bodies ++ _ := htook.bodies
    have hqueued : B'.publisher.queuedTrades = (B.accept p).publisher.queuedTrades ++ _ :=
      htook.queuedTrades
    have haggressor : B'.aggressorSide = (B.accept p).aggressorSide := htook.aggressorSide
    rw [finishedPacket, MarketDataPublisher.bodies_publishQueuedTrades, hbodies, hqueued,
      haggressor, hcalls, accept_publisher, hs.idle.queuedTrades, List.nil_append,
      List.append_assoc]
  case owners =>
    intro e
    rw [hop]
    exact htook.clientOf e
  case symbols =>
    intro symbol
    rw [htook.lookup_ladders]
    split_ifs with hsymbol
    · rw [hsymbol, hL]
      rfl
    · rfl
  case thrown =>
    intro op' hop'
    rw [hop] at hop'
    obtain rfl := Option.some.inj hop'
    rfl
  case passed => exact fun h => absurd h hreject

/-- The ladders represent the books again, with the request's order among the entered ones. -/
theorem Sound.of_took (hs : B.Sound requests books) (hop : B.opOf p = some op)
    (hL : B.symbolToMatchingEngine.lookup p.symbol = some L)
    (htook : ((B.accept p).setLadder p.symbol (L.step op).ladder).Took
      ((books p.symbol).step p.symbol op).calls B')
    (hfresh : (newIds (requests ++ [p])).Nodup) :
    (B'.finishedPacket p.symbol).Sound (requests ++ [p]) (B.booksOf books p) := by
  have hpop := (op_of_opOf hop).1
  have hbooks : B.booksOf books p =
      Function.update books p.symbol ((books p.symbol).step p.symbol op).book := by
    rw [booksOf, hop]
  rw [hbooks]
  constructor
  case represents =>
    intro symbol L' hL'
    rw [htook.lookup_ladders] at hL'
    by_cases hsymbol : symbol = p.symbol
    · obtain rfl := hsymbol
      obtain ⟨hrep, hsymbol⟩ := hs.represents _ L hL
      obtain ⟨-, -, hrep', hsymbol'⟩ := hrep.step op
      rw [if_pos rfl] at hL'
      obtain rfl := Option.some.inj hL'
      rw [Function.update_self]
      rw [hsymbol] at hrep' hsymbol'
      exact ⟨hrep', hsymbol'⟩
    · rw [if_neg hsymbol] at hL'
      rw [Function.update_of_ne hsymbol]
      exact hs.represents symbol L' hL'
  case absent =>
    intro symbol hL'
    rw [htook.lookup_ladders] at hL'
    split_ifs at hL' with hsymbol
    rw [Function.update_of_ne hsymbol]
    exact hs.absent symbol hL'
  case live =>
    intro symbol
    by_cases hsymbol : symbol = p.symbol
    · obtain rfl := hsymbol
      rw [Function.update_self]
      exact (hs.live _).step _ op
    · rw [Function.update_of_ne hsymbol]
      exact hs.live symbol
  case entered =>
    intro symbol e he
    rcases rests_update hpop he with hold | ⟨hnew, hid, hsym⟩
    · obtain ⟨r, hr, hrest⟩ := hs.entered symbol e hold
      exact ⟨r, List.mem_append_left _ hr, hrest⟩
    · exact ⟨p, by simp, hnew, hid, hsym.symm⟩
  case owned =>
    intro symbol e he
    have howner : (B'.finishedPacket p.symbol).clientOf e = (B.accept p).clientOf e :=
      htook.clientOf e
    rw [howner, clientOf_accept]
    -- entering an order writes an owner, and no owner is ever taken away
    rcases rests_update hpop he with hold | ⟨hnew, hid, -⟩
    · split_ifs
      · rfl
      · exact hs.owned symbol e hold
    · rw [if_pos ⟨hnew, congrArg UInt64.toUInt32 hid.symm⟩]
      rfl
  case distinct => exact hfresh
  case idle =>
    refine MarketDataPublisher.idle_publishQueuedTrades ?_ p.symbol B'.aggressorSide
    exact htook.buffer (by simpa [setLadder] using hs.idle.buffer)

end Taken

/-- A request that calls a ladder. -/
theorem Sound.handle_some (hs : B.Sound requests books) {op : LadderOp} (hop : B.opOf p = some op)
    (hfresh : (newIds (requests ++ [p])).Nodup) :
    B.Handled books p (B.handle p) ∧
      (B.handle p).broker.Sound (requests ++ [p]) (B.booksOf books p) := by
  obtain ⟨hpop, hsome⟩ := op_of_opOf hop
  obtain ⟨L, hL⟩ := Option.isSome_iff_exists.mp hsome
  obtain ⟨B', hhandle, htook⟩ := hs.run hpop hL hfresh
  rw [hhandle]
  exact ⟨hs.handled_of_took hop hL htook, hs.of_took hop hL htook hfresh⟩

/-- **Every request** does to the broker what its call does to the books. -/
theorem Sound.handle (hs : B.Sound requests books) (hfresh : (newIds (requests ++ [p])).Nodup) :
    B.Handled books p (B.handle p) ∧
      (B.handle p).broker.Sound (requests ++ [p]) (B.booksOf books p) := by
  cases hop : B.opOf p with
  | none => exact hs.handle_none hop hfresh
  | some op => exact hs.handle_some hop hfresh

/-! ### The responses of any broker -/

/-- A callback only puts responses on the queue. -/
theorem toClient_callback {B B' : MatchingEngineBroker} {c : Callback} (h : B.callback c = .ok B') :
    ∃ rs, B'.toClient = B.toClient.pushAll rs := by
  cases c with
  | onNewOrder orderId symbol side quantity price flags =>
    cases h
    refine ⟨[B.response .ack orderId symbol side quantity price flags], ?_⟩
    unfold onNewOrder
    split_ifs <;> rfl
  | onModifyOrder =>
    cases h
    exact ⟨[_], rfl⟩
  | onDeleteOrder orderId publish =>
    cases h
    refine ⟨[B.response .close orderId], ?_⟩
    unfold onDeleteOrder
    split_ifs <;> rfl
  | onCancelReject =>
    cases h
    exact ⟨[_], rfl⟩
  | onTrade =>
    cases h
    exact ⟨[], rfl⟩
  | onFill orderId symbol side quantity price flags active =>
    simp only [callback, onFill] at h
    split_ifs at h
    · cases h
      exact ⟨[_], rfl⟩
    · split at h
      · cases h
      · cases h
        exact ⟨[_], rfl⟩

theorem toClient_takeAll (B : MatchingEngineBroker) (cs : List Callback) :
    ∃ rs, (B.takeAll cs).broker.toClient = B.toClient.pushAll rs := by
  induction cs generalizing B with
  | nil => exact ⟨[], rfl⟩
  | cons c cs ih =>
    unfold takeAll
    cases hc : B.callback c with
    | error e => exact ⟨[], rfl⟩
    | ok B' =>
      obtain ⟨rs, hrs⟩ := toClient_callback hc
      obtain ⟨rs', hrs'⟩ := ih B'
      refine ⟨rs ++ rs', ?_⟩
      dsimp only
      rw [hrs', hrs]
      exact List.foldl_append.symm

theorem toClient_run (B : MatchingEngineBroker) (symbol : UInt32) (L : OrderLadder)
    (op : LadderOp) : ∃ rs, (B.run symbol L op).broker.toClient = B.toClient.pushAll rs := by
  obtain ⟨rs, hrs⟩ := toClient_takeAll (B.setLadder symbol (L.step op).ladder) (L.step op).calls
  refine ⟨rs, Eq.trans ?_ hrs⟩
  unfold run
  dsimp only
  split <;> rfl

/-- A request only puts responses on the queue. -/
theorem toClient_handle (B : MatchingEngineBroker) (p : OePayload) :
    ∃ rs, (B.handle p).broker.toClient = B.toClient.pushAll rs := by
  have hdispatch : ∀ B : MatchingEngineBroker,
      ∃ rs, (B.dispatch p).broker.toClient = B.toClient.pushAll rs := by
    intro B
    unfold dispatch
    cases p.msgType with
    | newOrder =>
      dsimp only
      cases B.symbolToMatchingEngine.lookup p.symbol with
      | none => exact ⟨[], rfl⟩
      | some L => exact toClient_run ..
    | deleteOrder =>
      dsimp only
      cases B.symbolToMatchingEngine.lookup p.symbol with
      | none => exact ⟨[], rfl⟩
      | some L => exact toClient_run ..
    | modifyOrder =>
      dsimp only
      cases B.symbolToMatchingEngine.lookup p.symbol with
      | none => exact ⟨[], rfl⟩
      | some L => exact toClient_run ..
    | reject => exact ⟨[_], rfl⟩
    | _ => exact ⟨[], rfl⟩
  obtain ⟨rs, hrs⟩ := hdispatch { B with clientSeq := p.clientSeq, clientId := p.clientId }
  refine ⟨rs, Eq.trans ?_ hrs⟩
  unfold handle
  dsimp only
  split <;> rfl

/-- Handling requests takes no response off the queue. -/
theorem pending_le_handleAll (B : MatchingEngineBroker) (ps : List OePayload) :
    B.toClient.pending.length ≤ (B.handleAll ps).toClient.pending.length := by
  induction ps generalizing B with
  | nil => exact Nat.le_refl _
  | cons p ps ih =>
    obtain ⟨rs, hrs⟩ := B.toClient_handle p
    have hrest := ih (B.handle p).broker
    rw [hrs, Fifo.pending_pushAll, List.length_append] at hrest
    exact Nat.le_trans (Nat.le_add_right ..) hrest

end MatchingEngineBroker

end Ndfex
