import Ndfex.MatchingEngine.BookAccounts

/-!
# The callbacks of a call

A call trades first and announces afterwards: its callbacks are those of its trades, one triple for
each, followed by callbacks about its own order. An order leaves the book exactly when a callback
closes it.

## Main definitions

* `Trade`, `Trade.calls`: a trade of the incoming order and its callbacks
* `Callback.closes`: the callbacks that end an order
* `PriorityBook.Rests`: an order is at rest

## Main results

* `PriorityBook.trades_step`: the trades of a call
* `PriorityBook.rests_step`: an order rests from its entry until a callback closes it
-/

namespace Ndfex

/-! ## Trades -/

/-- A trade of the incoming order with a resting order, as that was before the trade. -/
structure Trade where
  order : RestingOrder
  quantity : UInt32
  restingFlags : UInt8
  incomingFlags : UInt8

/-- The callbacks of a trade. -/
def Trade.calls (symbol : UInt32) (incomingId : UInt64) (side : Side) (t : Trade) :
    List Callback :=
  tradeCalls symbol incomingId side t.order t.quantity t.restingFlags t.incomingFlags

/-- The callbacks `onTrade` and `onFill`. -/
def Callback.OfTrade : Callback → Prop
  | .onTrade .. => True
  | .onFill .. => True
  | _ => False

/-- The order a callback is about. -/
def Callback.orderId : Callback → UInt64
  | .onNewOrder orderId .. => orderId
  | .onModifyOrder orderId .. => orderId
  | .onDeleteOrder orderId _ => orderId
  | .onCancelReject orderId => orderId
  | .onTrade orderId .. => orderId
  | .onFill orderId .. => orderId

namespace LadderOp

/-- The side of a call that has one. -/
def side : LadderOp → Side
  | newOrder _ side .. => side
  | deleteOrder _ => Side.buy
  | modifyOrder _ side .. => side

/-- The limit price of a call that has one. -/
def price : LadderOp → Int32
  | newOrder _ _ _ price _ => price
  | deleteOrder _ => 0
  | modifyOrder _ _ _ price => price

/-- The quantity of a call that has one. -/
def quantity : LadderOp → UInt32
  | newOrder _ _ quantity .. => quantity
  | deleteOrder _ => 0
  | modifyOrder _ _ quantity _ => quantity

end LadderOp

/-- Matching is a sequence of trades with orders of the side, at prices within the limit. -/
theorem matchList_trades (symbol : UInt32) (incomingId : UInt64) (side : Side) (price : Int32)
    (os : List RestingOrder) (quantity : UInt32) :
    ∃ ts : List Trade,
      (matchList symbol incomingId side price os quantity).calls =
        ts.flatMap (Trade.calls symbol incomingId side) ∧
      (ts.map fun t => t.quantity.toNat).sum +
        (matchList symbol incomingId side price os quantity).remaining.toNat = quantity.toNat ∧
      ∀ t ∈ ts, t.order ∈ os ∧ ¬ OrderLadder.beyondLimit side t.order.price price := by
  fun_induction matchList symbol incomingId side price os quantity with
  | case1 quantity => exact ⟨[], rfl, by simp, by simp⟩
  | case2 o os quantity hstop => exact ⟨[], rfl, by simp, by simp⟩
  | case3 o os quantity hstop hle m ih =>
    -- the resting order trades whole, before the trades of the rest
    obtain ⟨ts, hcalls, hsum, hts⟩ := ih
    refine ⟨⟨o, o.quantity, FillFlags.closed, incomingFlags (quantity - o.quantity)⟩ :: ts, ?_, ?_,
      ?_⟩
    · simp only [m, List.flatMap_cons, hcalls]
      rfl
    · have hle' := UInt32.le_iff_toNat_le.mp hle
      rw [UInt32.toNat_sub_of_le _ _ hle] at hsum
      simp only [m, List.map_cons, List.sum_cons]
      omega
    · intro t ht
      rcases List.mem_cons.mp ht with rfl | ht
      · exact ⟨by simp, fun hbeyond => hstop (Or.inr hbeyond)⟩
      · exact ⟨List.mem_cons_of_mem _ (hts t ht).1, (hts t ht).2⟩
  | case4 o os quantity hstop hle =>
    -- the incoming order is used up
    refine ⟨[⟨o, quantity, FillFlags.partialFill, FillFlags.closed⟩], by simp [Trade.calls], by simp,
      ?_⟩
    intro t ht
    obtain rfl := List.mem_singleton.mp ht
    exact ⟨by simp, fun hbeyond => hstop (Or.inr hbeyond)⟩

/-- Fills have quantity when the resting orders have. -/
theorem pos_of_mem_matchList {symbol : UInt32} {incomingId : UInt64} {side : Side} {price : Int32}
    {os : List RestingOrder} (hos : ∀ o ∈ os, 0 < o.quantity) {quantity : UInt32} {e : UInt64}
    {sym : UInt32} {s : Side} {q : UInt32} {p : Int32} {flags : UInt8} {active : Bool}
    (hc : Callback.onFill e sym s q p flags active ∈
      (matchList symbol incomingId side price os quantity).calls) : 0 < q := by
  fun_induction matchList symbol incomingId side price os quantity with
  | case1 quantity => cases hc
  | case2 o os quantity hstop => cases hc
  | case3 o os quantity hstop hle m ih =>
    rcases List.mem_append.mp hc with hc | hc
    · simp only [tradeCalls, List.mem_cons, List.not_mem_nil, reduceCtorEq, Callback.onFill.injEq,
        or_false, false_or] at hc
      rcases hc with ⟨-, -, -, rfl, -⟩ | ⟨-, -, -, rfl, -⟩ <;> exact hos o (by simp)
    · exact ih (fun o' ho' => hos o' (List.mem_cons_of_mem _ ho')) hc
  | case4 o os quantity hstop hle =>
    have hq : 0 < quantity := UInt32.pos_iff_ne_zero.mpr fun h => hstop (Or.inl h)
    simp only [tradeCalls, List.mem_cons, List.not_mem_nil, reduceCtorEq, Callback.onFill.injEq,
      or_false, false_or] at hc
    rcases hc with ⟨-, -, -, rfl, -⟩ | ⟨-, -, -, rfl, -⟩ <;> exact hq

namespace PriorityBook

variable {b : PriorityBook} {symbol : UInt32}

/-- The callbacks of entering an order: those of its trades, then some about itself. -/
theorem entering_trades {notify : Bool} {o : RestingOrder} {e : Entered}
    (he : Entering b symbol notify o e) :
    ∃ (ts : List Trade) (tail : List Callback),
      e.calls = ts.flatMap (Trade.calls symbol o.orderId o.side) ++ tail ∧
      (∀ c ∈ tail, ¬ c.OfTrade ∧ c.orderId = o.orderId) ∧
      (ts.map fun t => t.quantity.toNat).sum + e.remaining.toNat = o.quantity.toNat ∧
      ∀ t ∈ ts, t.order ∈ b.half o.side.bookSide.opposite ∧
        ¬ OrderLadder.beyondLimit o.side t.order.price o.price := by
  obtain ⟨ts, hcalls, hsum, hts⟩ := matchList_trades symbol o.orderId o.side o.price
    (b.half o.side.bookSide.opposite) o.quantity
  -- the tail is the announcement, if there is one
  have hannounced : ∀ c ∈ b.announced symbol notify o, ¬ c.OfTrade ∧ c.orderId = o.orderId := by
    intro c hc
    unfold announced at hc
    split_ifs at hc
    · obtain rfl := List.mem_singleton.mp hc
      exact ⟨not_false, rfl⟩
    · cases hc
  cases he with
  | dropped hleft hioc =>
    refine ⟨ts, _, congrArg (· ++ _) hcalls, fun c hc => ?_, hsum, hts⟩
    cases notify with
    | true =>
      obtain rfl := List.mem_singleton.mp hc
      exact ⟨not_false, rfl⟩
    | false => cases hc
  | filled hleft => exact ⟨ts, _, congrArg (· ++ _) hcalls, hannounced, hsum, hts⟩
  | duplicate hleft hioc hfound => exact ⟨ts, _, congrArg (· ++ _) hcalls, hannounced, hsum, hts⟩
  | rested hleft hioc hfound => exact ⟨ts, _, congrArg (· ++ _) hcalls, hannounced, hsum, hts⟩

/-- **The trades of a call**: one triple of callbacks for each, with another order, on the other side
and at a price within the limit; the callbacks after them are about the order of the call. -/
theorem trades_step (b : PriorityBook) (symbol : UInt32) (op : LadderOp) :
    ∃ (ts : List Trade) (tail : List Callback),
      (b.step symbol op).calls = ts.flatMap (Trade.calls symbol op.orderId op.side) ++ tail ∧
      (∀ c ∈ tail, ¬ c.OfTrade ∧ c.orderId = op.orderId) ∧
      (ts.map fun t => t.quantity.toNat).sum ≤ op.quantity.toNat ∧
      ∀ t ∈ ts, t.order ∈ b.half op.side.bookSide.opposite ∧
        ¬ OrderLadder.beyondLimit op.side t.order.price op.price ∧
        (op.Enters op.orderId ∨ t.order.orderId ≠ op.orderId) := by
  have hstep := stepping b symbol op
  generalize b.step symbol op = r at hstep ⊢
  cases hstep with
  | refused => exact ⟨[], [], rfl, by simp, by simp, by simp⟩
  | entered hpos he =>
    obtain ⟨ts, tail, hcalls, htail, hsum, hts⟩ := entering_trades he
    refine ⟨ts, tail, hcalls, htail, ?_, fun t ht =>
      ⟨(hts t ht).1, (hts t ht).2, Or.inl ⟨_, _, _, _, rfl⟩⟩⟩
    simp only [LadderOp.quantity] at hsum ⊢
    omega
  | deleted hfound =>
    exact ⟨[], _, rfl, by simp [Callback.OfTrade, Callback.orderId, LadderOp.orderId], by simp,
      by simp⟩
  | @unknown op orderId hop hfound =>
    have hid : op.orderId = orderId := by
      rcases hop with rfl | ⟨side, quantity, price, rfl⟩ <;> rfl
    exact ⟨[], _, rfl, by simp [Callback.OfTrade, Callback.orderId, hid], by simp, by simp⟩
  | closed hfound hfilled =>
    exact ⟨[], _, rfl, by simp [Callback.OfTrade, Callback.orderId, LadderOp.orderId], by simp,
      by simp⟩
  | requantified hfound hfilled hplace =>
    exact ⟨[], _, rfl, by simp [Callback.OfTrade, Callback.orderId, LadderOp.orderId], by simp,
      by simp⟩
  | @reentered e side quantity price o r hfound hfilled hplace he hthrown =>
    -- the order left the book before it was entered again, so that it does not meet itself
    obtain ⟨-, rfl⟩ := mem_of_find? hfound
    obtain ⟨ts, tail, hcalls, htail, hsum, hts⟩ := entering_trades he
    refine ⟨ts, tail ++ [if r.remaining > 0 then .onModifyOrder o.orderId symbol side r.remaining
      price else .onDeleteOrder o.orderId true], ?_, ?_, ?_, fun t ht => ?_⟩
    · dsimp only
      rw [hcalls, List.append_assoc]
      rfl
    · intro c hc
      rcases List.mem_append.mp hc with hc | hc
      · exact htail c hc
      · obtain rfl := List.mem_singleton.mp hc
        split_ifs <;> exact ⟨not_false, rfl⟩
    · have hle : o.filledQuantity ≤ quantity := UInt32.le_of_lt hfilled
      simp only [RestingOrder.moved, UInt32.toNat_sub_of_le _ _ hle] at hsum
      simp only [LadderOp.quantity]
      omega
    · have hmem := (hts t ht).1
      rw [remove, half_mapHalves] at hmem
      obtain ⟨hmem, hne⟩ := List.mem_filter.mp hmem
      exact ⟨hmem, (hts t ht).2, Or.inr (of_decide_eq_true hne)⟩

/-- The fills of entering an order are those of its matching. -/
theorem fill_of_entering {notify : Bool} {o : RestingOrder} {e : Entered}
    (he : Entering b symbol notify o e) {c : Callback} (hfill : c.OfTrade) (hc : c ∈ e.calls) :
    c ∈ (b.matching symbol o).calls := by
  have hannounced : c ∉ b.announced symbol notify o := by
    intro hc
    unfold announced at hc
    split_ifs at hc
    · obtain rfl := List.mem_singleton.mp hc
      exact hfill
    · cases hc
  cases he with
  | dropped hleft hioc =>
    refine (List.mem_append.mp hc).resolve_right fun hc => ?_
    cases notify with
    | true =>
      obtain rfl := List.mem_singleton.mp hc
      exact hfill
    | false => cases hc
  | filled hleft => exact (List.mem_append.mp hc).resolve_right hannounced
  | duplicate hleft hioc hfound => exact (List.mem_append.mp hc).resolve_right hannounced
  | rested hleft hioc hfound => exact (List.mem_append.mp hc).resolve_right hannounced

/-- The fills of a call have quantity. -/
theorem pos_of_mem_step (hlive : b.Live) {op : LadderOp} {e : UInt64} {sym : UInt32} {s : Side}
    {q : UInt32} {p : Int32} {flags : UInt8} {active : Bool}
    (hc : Callback.onFill e sym s q p flags active ∈ (b.step symbol op).calls) : 0 < q := by
  have hpos : ∀ b' : PriorityBook, b'.Live → ∀ h, ∀ o ∈ b'.half h, 0 < o.quantity :=
    fun b' hb' => forall_orders.mp fun o ho => (hb' o ho).1
  have hstep := stepping b symbol op
  generalize b.step symbol op = r at hstep hc
  cases hstep with
  | refused => cases hc
  | entered hq he =>
    exact pos_of_mem_matchList (hpos b hlive _) (fill_of_entering he trivial hc)
  | deleted hfound => cases List.mem_singleton.mp hc
  | unknown hop hfound => cases List.mem_singleton.mp hc
  | closed hfound hfilled => cases List.mem_singleton.mp hc
  | requantified hfound hfilled hplace => cases List.mem_singleton.mp hc
  | reentered hfound hfilled hplace he hthrown =>
    rcases List.mem_append.mp hc with hc | hc
    · exact pos_of_mem_matchList (hpos _ (forall_remove hlive _) _)
        (fill_of_entering he trivial hc)
    · have hc := List.mem_singleton.mp hc
      split_ifs at hc

/-- A callback is about the order of the call or about an order at rest. -/
theorem orderId_of_mem_calls {op : LadderOp} {c : Callback} (hc : c ∈ (b.step symbol op).calls) :
    c.orderId = op.orderId ∨ ∃ o ∈ b.orders, o.orderId = c.orderId := by
  obtain ⟨ts, tail, hcalls, htail, -, hts⟩ := trades_step b symbol op
  rw [hcalls] at hc
  rcases List.mem_append.mp hc with hc | hc
  · obtain ⟨t, ht, hc⟩ := List.mem_flatMap.mp hc
    have hmem : t.order ∈ b.orders := mem_orders.mpr ⟨_, (hts t ht).1⟩
    simp only [Trade.calls, tradeCalls, List.mem_cons, List.not_mem_nil, or_false] at hc
    rcases hc with rfl | rfl | rfl
    · exact Or.inr ⟨_, hmem, rfl⟩
    · exact Or.inr ⟨_, hmem, rfl⟩
    · exact Or.inl rfl
  · exact Or.inl (htail c hc).2

/-- The fills of a call: of its own order as the active one, of orders at rest as the other. -/
theorem fill_of_mem_step {op : LadderOp} {e : UInt64} {sym : UInt32} {s : Side} {q : UInt32}
    {p : Int32} {flags : UInt8} {active : Bool}
    (hc : Callback.onFill e sym s q p flags active ∈ (b.step symbol op).calls) :
    sym = symbol ∧ (active = true → e = op.orderId) ∧
      (active = false → ∃ o ∈ b.orders, o.orderId = e) := by
  obtain ⟨ts, tail, hcalls, htail, -, hts⟩ := trades_step b symbol op
  rw [hcalls] at hc
  rcases List.mem_append.mp hc with hc | hc
  · obtain ⟨t, ht, hc⟩ := List.mem_flatMap.mp hc
    have hmem : t.order ∈ b.orders := mem_orders.mpr ⟨_, (hts t ht).1⟩
    simp only [Trade.calls, tradeCalls, List.mem_cons, List.not_mem_nil, reduceCtorEq,
      Callback.onFill.injEq, or_false, false_or] at hc
    rcases hc with ⟨rfl, rfl, -, -, -, -, rfl⟩ | ⟨rfl, rfl, -, -, -, -, rfl⟩
    · exact ⟨rfl, by simp, fun _ => ⟨_, hmem, rfl⟩⟩
    · exact ⟨rfl, fun _ => rfl, by simp⟩
  · exact absurd trivial (htail _ hc).1

/-- A modification trades only when it enters its order again and another order's price crosses. -/
theorem trade_of_modify {id : UInt64} {side : Side} {quantity : UInt32} {price : Int32}
    {c : Callback} (htrade : c.OfTrade)
    (hc : c ∈ (b.step symbol (.modifyOrder id side quantity price)).calls) :
    ∃ o, b.find? id = some o ∧ o.filledQuantity < quantity ∧ ¬ (o.price = price ∧ o.side = side) ∧
      ∃ x ∈ b.half side.bookSide.opposite, x.orderId ≠ id ∧
        ¬ OrderLadder.beyondLimit side x.price price := by
  have htrades := trades_step b symbol (.modifyOrder id side quantity price)
  have hstep := stepping b symbol (.modifyOrder id side quantity price)
  generalize b.step symbol (.modifyOrder id side quantity price) = r at hstep hc htrades
  cases hstep with
  | unknown hop hfound =>
    obtain rfl := List.mem_singleton.mp hc
    exact absurd htrade not_false
  | closed hfound hfilled =>
    obtain rfl := List.mem_singleton.mp hc
    exact absurd htrade not_false
  | requantified hfound hfilled hplace =>
    obtain rfl := List.mem_singleton.mp hc
    exact absurd htrade not_false
  | reentered hfound hfilled hplace he hthrown =>
    -- the callback is of one of the trades, and these are with other orders
    obtain ⟨ts, tail, hcalls, htail, -, hts⟩ := htrades
    rw [hcalls] at hc
    rcases List.mem_append.mp hc with hc | hc
    · obtain ⟨t, ht, -⟩ := List.mem_flatMap.mp hc
      obtain ⟨hmem, hcross, hne⟩ := hts t ht
      refine ⟨_, hfound, hfilled, hplace, t.order, hmem, hne.resolve_left ?_, hcross⟩
      simp [LadderOp.Enters]
    · exact absurd htrade (htail c hc).1

/-! ## Exceptions -/

/-- With an unused id for its new order, a call throws only if the order has no quantity, and before
any callback. -/
theorem thrown_step {op : LadderOp} (hnew : op.Enters op.orderId → b.find? op.orderId = none) :
    (b.step symbol op).thrown = none ∨ ¬ op.Positive ∧ (b.step symbol op).calls = [] := by
  have hstep := stepping b symbol op
  generalize b.step symbol op = r at hstep ⊢
  cases hstep with
  | refused => exact Or.inr ⟨by simp [LadderOp.Positive], rfl⟩
  | @entered orderId side quantity price flags e hq he =>
    have hnone : b.find? orderId = none := hnew ⟨_, _, _, _, rfl⟩
    cases he with
    | dropped => exact Or.inl rfl
    | filled => exact Or.inl rfl
    | duplicate hleft hioc hfound => exact absurd (find?_matched_eq_none hnone symbol _) hfound
    | rested => exact Or.inl rfl
  | deleted => exact Or.inl rfl
  | unknown => exact Or.inl rfl
  | closed => exact Or.inl rfl
  | requantified => exact Or.inl rfl
  | reentered => exact Or.inl rfl

end PriorityBook

/-! ## The end of an order -/

/-- The callback ends the order: its fill is flagged `CLOSED`, or it is deleted. -/
def Callback.closes (orderId : UInt64) : Callback → Bool
  | .onFill e _ _ _ _ flags _ => e = orderId && closesOrder flags
  | .onDeleteOrder e _ => e = orderId
  | _ => false

/-- Some of the callbacks ends the order. -/
def Closed (orderId : UInt64) (cs : List Callback) : Prop := ∃ c ∈ cs, c.closes orderId = true

@[simp] theorem closed_nil (orderId : UInt64) : ¬ Closed orderId [] := by simp [Closed]

@[simp] theorem closed_cons (orderId : UInt64) (c : Callback) (cs : List Callback) :
    Closed orderId (c :: cs) ↔ c.closes orderId = true ∨ Closed orderId cs := by
  simp [Closed]

@[simp] theorem closed_append (orderId : UInt64) (cs cs' : List Callback) :
    Closed orderId (cs ++ cs') ↔ Closed orderId cs ∨ Closed orderId cs' := by
  simp [Closed, or_and_right, exists_or]

theorem closed_tradeCalls (orderId : UInt64) (symbol : UInt32) (incomingId : UInt64) (side : Side)
    (o : RestingOrder) (quantity : UInt32) (restingFlags incomingFlags : UInt8) :
    Closed orderId (tradeCalls symbol incomingId side o quantity restingFlags incomingFlags) ↔
      (o.orderId = orderId ∧ closesOrder restingFlags = true) ∨
        (incomingId = orderId ∧ closesOrder incomingFlags = true) := by
  simp [tradeCalls, Callback.closes]

/-- The order with the id stands in the list. -/
def Listed (orderId : UInt64) (os : List RestingOrder) : Prop := ∃ o ∈ os, o.orderId = orderId

@[simp] theorem listed_nil (orderId : UInt64) : ¬ Listed orderId [] := by simp [Listed]

@[simp] theorem listed_cons (orderId : UInt64) (o : RestingOrder) (os : List RestingOrder) :
    Listed orderId (o :: os) ↔ o.orderId = orderId ∨ Listed orderId os := by
  simp [Listed]

section Matching

variable {symbol : UInt32} {incomingId : UInt64} {side : Side} {price : Int32}

theorem closesOrder_incomingFlags (left : UInt32) :
    closesOrder (incomingFlags left) = true ↔ left = 0 := by
  unfold incomingFlags
  split_ifs with h
  · simpa using UInt32.pos_iff_ne_zero.mp h
  · simpa [UInt32.pos_iff_ne_zero] using h

/-- Matching ends the resting orders that it takes from the side. -/
theorem matchList_closed_other {orderId : UInt64} (hne : incomingId ≠ orderId)
    {os : List RestingOrder} (hnd : (os.map RestingOrder.orderId).Nodup) (quantity : UInt32) :
    Listed orderId (matchList symbol incomingId side price os quantity).book ↔
      Listed orderId os ∧
        ¬ Closed orderId (matchList symbol incomingId side price os quantity).calls := by
  fun_induction matchList symbol incomingId side price os quantity with
  | case1 quantity => simp
  | case2 o os quantity hstop => simp
  | case3 o os quantity hstop hle m ih =>
    obtain ⟨hnot, hnd⟩ := List.nodup_cons.mp hnd
    simp only [m, closed_append, closed_tradeCalls, listed_cons, hne, false_and, or_false] at ih ⊢
    rw [ih hnd]
    by_cases ho : o.orderId = orderId
    · have hlist : ¬ Listed orderId os := by
        rintro ⟨o', ho', he⟩
        exact hnot (List.mem_map.mpr ⟨o', ho', he.trans ho.symm⟩)
      simp [ho, hlist]
    · simp [ho]
  | case4 o os quantity hstop hle =>
    simp [closed_tradeCalls, hne]

/-- Matching ends no order of another side. -/
theorem matchList_not_closed {orderId : UInt64} (hne : incomingId ≠ orderId)
    {os : List RestingOrder} (hos : ¬ Listed orderId os) (quantity : UInt32) :
    ¬ Closed orderId (matchList symbol incomingId side price os quantity).calls := by
  fun_induction matchList symbol incomingId side price os quantity with
  | case1 quantity => simp
  | case2 o os quantity hstop => simp
  | case3 o os quantity hstop hle m ih =>
    rw [listed_cons, not_or] at hos
    simpa [closed_tradeCalls, hne, hos.1] using ih hos.2
  | case4 o os quantity hstop hle =>
    rw [listed_cons, not_or] at hos
    simp [closed_tradeCalls, hne, hos.1]

/-- Matching ends the incoming order when it fills it. -/
theorem matchList_closed_self {os : List RestingOrder} (hnew : ¬ Listed incomingId os)
    {quantity : UInt32} (hq : quantity ≠ 0) :
    Closed incomingId (matchList symbol incomingId side price os quantity).calls ↔
      (matchList symbol incomingId side price os quantity).remaining = 0 := by
  fun_induction matchList symbol incomingId side price os quantity with
  | case1 quantity => simpa using hq
  | case2 o os quantity hstop => simpa using hq
  | case3 o os quantity hstop hle m ih =>
    rw [listed_cons, not_or] at hnew
    simp only [m, closed_append, closed_tradeCalls, hnew.1, false_and, false_or, true_and,
      closesOrder_incomingFlags] at ih ⊢
    by_cases hleft : quantity - o.quantity = 0
    · simp [hleft]
    · rw [ih hnew.2 hleft]
      simp [hleft]
  | case4 o os quantity hstop hle =>
    rw [listed_cons, not_or] at hnew
    simp [closed_tradeCalls]

end Matching

namespace PriorityBook

variable {b : PriorityBook} {symbol : UInt32}

/-- The order with the id is at rest. -/
def Rests (b : PriorityBook) (orderId : UInt64) : Prop := Listed orderId b.orders

theorem rests_iff {orderId : UInt64} : b.Rests orderId ↔ b.find? orderId ≠ none := by
  rw [Rests, Listed, ne_eq, find?_eq_none]
  simp

theorem rests_half (b : PriorityBook) (orderId : UInt64) (h : BookSide) :
    b.Rests orderId ↔ Listed orderId (b.half h) ∨ Listed orderId (b.half h.opposite) := by
  simp only [Rests, Listed, mem_orders]
  constructor
  · rintro ⟨o, ⟨h', ho⟩, he⟩
    cases h <;> cases h'
    all_goals first
      | exact Or.inl ⟨o, ho, he⟩
      | exact Or.inr ⟨o, ho, he⟩
  · rintro (⟨o, ho, he⟩ | ⟨o, ho, he⟩)
    · exact ⟨o, ⟨_, ho⟩, he⟩
    · exact ⟨o, ⟨_, ho⟩, he⟩

theorem rests_rest (b : PriorityBook) (o : RestingOrder) (orderId : UInt64) :
    (b.rest o).Rests orderId ↔ o.orderId = orderId ∨ b.Rests orderId := by
  rw [Rests, Rests, ← listed_cons]
  exact exists_congr fun x => and_congr_left fun _ => (perm_rest b o).mem_iff

theorem rests_remove (b : PriorityBook) (e orderId : UInt64) :
    (b.remove e).Rests orderId ↔ b.Rests orderId ∧ orderId ≠ e := by
  simp only [Rests, Listed, orders_remove, List.mem_filter, decide_eq_true_eq]
  constructor
  · rintro ⟨o, ⟨ho, hne⟩, rfl⟩
    exact ⟨⟨o, ho, rfl⟩, hne⟩
  · rintro ⟨⟨o, ho, rfl⟩, hne⟩
    exact ⟨o, ⟨ho, hne⟩, rfl⟩

theorem rests_setQuantity (b : PriorityBook) (e : UInt64) (quantity : UInt32) (orderId : UInt64) :
    (b.setQuantity e quantity).Rests orderId ↔ b.Rests orderId := by
  simp only [Rests, Listed, orders_setQuantity, List.mem_map, exists_exists_and_eq_and]
  refine exists_congr fun o => and_congr_right fun _ => ?_
  split_ifs <;> rfl

theorem Ordered.nodup_half (hb : b.Ordered) (h : BookSide) :
    ((b.half h).map RestingOrder.orderId).Nodup := by
  have hnd := hb.nodup
  rw [orders, List.map_append] at hnd
  cases h
  · exact (List.nodup_append.mp hnd).1
  · exact (List.nodup_append.mp hnd).2.1

theorem Ordered.not_listed_opposite (hb : b.Ordered) {orderId : UInt64} {h : BookSide}
    (hl : Listed orderId (b.half h)) : ¬ Listed orderId (b.half h.opposite) := by
  rintro ⟨o', ho', he'⟩
  obtain ⟨o, ho, he⟩ := hl
  have hnd := hb.nodup
  rw [orders, List.map_append] at hnd
  have hdisj := (List.nodup_append.mp hnd).2.2
  cases h
  · exact hdisj _ (List.mem_map_of_mem ho) _ (List.mem_map_of_mem ho') (he.trans he'.symm)
  · exact hdisj _ (List.mem_map_of_mem ho') _ (List.mem_map_of_mem ho) (he'.trans he.symm)

theorem matched_closed_other (hb : b.Ordered) {o : RestingOrder} {orderId : UInt64}
    (hne : o.orderId ≠ orderId) :
    (b.matched symbol o).Rests orderId ↔
      b.Rests orderId ∧ ¬ Closed orderId (b.matching symbol o).calls := by
  have hmatch := @matchList_closed_other symbol _ o.side o.price _ hne _
    (hb.nodup_half o.side.bookSide.opposite) o.quantity
  have hopp : o.side.bookSide.opposite.opposite = o.side.bookSide := by
    cases o.side.bookSide <;> rfl
  have hne' : o.side.bookSide ≠ o.side.bookSide.opposite := by
    cases o.side.bookSide <;> simp [BookSide.opposite]
  rw [rests_half _ orderId o.side.bookSide.opposite, rests_half b orderId o.side.bookSide.opposite,
    matched, half_setHalf, hopp, half_setHalf_of_ne _ hne', matching, hmatch]
  by_cases hown : Listed orderId (b.half o.side.bookSide)
  · -- an order of the incoming order's own side does not take part
    have hnot := hb.not_listed_opposite hown
    simp [hown, hnot, matchList_not_closed hne hnot]
  · simp [hown]

theorem announced_closed (orderId : UInt64) (notify : Bool) (o : RestingOrder) :
    ¬ Closed orderId (b.announced symbol notify o) := by
  unfold announced
  split_ifs <;> simp [Callback.closes]

theorem entering_closed_other (hb : b.Ordered) {notify : Bool} {o : RestingOrder} {e : Entered}
    (he : Entering b symbol notify o e) {orderId : UInt64} (hne : o.orderId ≠ orderId) :
    e.book.Rests orderId ↔ b.Rests orderId ∧ ¬ Closed orderId e.calls := by
  have hmatched : (b.matched symbol o).Rests orderId ↔
      b.Rests orderId ∧ ¬ Closed orderId (b.matching symbol o).calls := matched_closed_other hb hne
  cases he with
  | dropped hleft hioc =>
    rw [hmatched, closed_append]
    cases notify <;> simp [Callback.closes, hne]
  | filled hleft => simp [hmatched, announced_closed]
  | duplicate hleft hioc hfound => simp [hmatched, announced_closed]
  | rested hleft hioc hfound =>
    have hne' : (b.leftover symbol o).orderId ≠ orderId := hne
    simp [rests_rest, hne', hmatched, announced_closed]

theorem entering_closed_self {notify : Bool} {o : RestingOrder} {e : Entered}
    (he : Entering b symbol notify o e) (hnew : b.find? o.orderId = none)
    (hq : o.quantity ≠ 0) (hnotify : notify = true ∨ isIoc o.flags = false) :
    e.book.Rests o.orderId ↔ ¬ Closed o.orderId e.calls := by
  have hlist : ¬ Listed o.orderId (b.half o.side.bookSide.opposite) := by
    rintro ⟨x, hx, he⟩
    exact find?_eq_none.mp hnew x (mem_orders.mpr ⟨_, hx⟩) he
  have hclosed : Closed o.orderId (b.matching symbol o).calls ↔
      (b.matching symbol o).remaining = 0 := matchList_closed_self hlist hq
  have hgone : ¬ (b.matched symbol o).Rests o.orderId := by
    rw [rests_iff, not_not]
    exact find?_matched_eq_none hnew symbol o
  cases he with
  | dropped hleft hioc =>
    obtain rfl : notify = true := hnotify.resolve_right (by simp [hioc])
    simp [hgone, Callback.closes]
  | filled hleft => simp [hgone, hclosed, hleft]
  | duplicate hleft hioc hfound => exact absurd (find?_matched_eq_none hnew symbol o) hfound
  | rested hleft hioc hfound =>
    have hid : (b.leftover symbol o).orderId = o.orderId := rfl
    simp [rests_rest, hid, hclosed, hleft, announced_closed]

/-- The fill that uses up an order ends it. -/
theorem entering_closed_of_filled {notify : Bool} {o : RestingOrder} {e : Entered}
    (he : Entering b symbol notify o e) (hnew : b.find? o.orderId = none)
    (hq : o.quantity ≠ 0) (hleft : e.remaining = 0) : Closed o.orderId e.calls := by
  have hlist : ¬ Listed o.orderId (b.half o.side.bookSide.opposite) := by
    rintro ⟨x, hx, he⟩
    exact find?_eq_none.mp hnew x (mem_orders.mpr ⟨_, hx⟩) he
  have hclosed : (b.matching symbol o).remaining = 0 →
      Closed o.orderId (b.matching symbol o).calls := (matchList_closed_self hlist hq).mpr
  cases he with
  | dropped hne hioc => exact absurd hleft hne
  | filled h => exact (closed_append ..).mpr (Or.inl (hclosed h))
  | duplicate hne hioc hfound => exact absurd hleft hne
  | rested hne hioc hfound => exact absurd hleft hne

/-- An order that a call leaves at rest was at rest or entered by it. -/
theorem rests_of_step {op : LadderOp} {e : UInt64} (h : (b.step symbol op).book.Rests e) :
    b.Rests e ∨ op.Enters e := by
  obtain ⟨o, ho, rfl⟩ := h
  refine forall_step (P := fun o => b.Rests o.orderId ∨ op.Enters o.orderId)
    (fun _ _ _ h => h) _ (fun o ho => Or.inl ⟨o, ho, rfl⟩) (fun o ho => ?_) o ho
  cases op with
  | newOrder orderId side quantity price flags =>
    obtain rfl := Option.some.inj ho
    exact Or.inr ⟨_, _, _, _, rfl⟩
  | deleteOrder orderId => cases ho
  | modifyOrder orderId side quantity price =>
    obtain ⟨x, hx, rfl⟩ := Option.map_eq_some_iff.mp ho
    exact Or.inl ⟨x, (mem_of_find? hx).1, rfl⟩

/-- An order that a call ends was at rest or entered by it. -/
theorem rests_of_closed {op : LadderOp} {e : UInt64} (h : Closed e (b.step symbol op).calls) :
    b.Rests e ∨ op.Enters e := by
  obtain ⟨c, hc, hcloses⟩ := h
  have hid : c.orderId = e := by
    cases c <;> simp_all [Callback.closes, Callback.orderId]
  rcases orderId_of_mem_calls hc with hself | ⟨o, ho, hrests⟩
  · -- the call's own order is deleted only if it is found
    have hstep := stepping b symbol op
    generalize b.step symbol op = r at hstep hc
    rw [hid] at hself
    have hfound_rests : ∀ o, b.find? op.orderId = some o → b.Rests e := by
      intro o hfound
      obtain ⟨ho, hoid⟩ := mem_of_find? hfound
      exact ⟨o, ho, hoid.trans hself.symm⟩
    cases hstep with
    | refused => cases hc
    | entered hpos he => exact Or.inr ⟨_, _, _, _, by rw [hself]; rfl⟩
    | deleted hfound => exact Or.inl (hfound_rests _ hfound)
    | unknown hop hfound =>
      obtain rfl := List.mem_singleton.mp hc
      cases hcloses
    | closed hfound hfilled => exact Or.inl (hfound_rests _ hfound)
    | requantified hfound hfilled hplace => exact Or.inl (hfound_rests _ hfound)
    | reentered hfound hfilled hplace he hthrown => exact Or.inl (hfound_rests _ hfound)
  · exact Or.inl ⟨o, ho, hrests.trans hid⟩

/-- **An order rests** after a call if it rested or was entered, and no callback closed it. -/
theorem rests_step (hb : b.Ordered) (hlive : b.Live) {op : LadderOp} (hpos : op.Positive)
    (hnew : op.Enters op.orderId → b.find? op.orderId = none) (orderId : UInt64) :
    (b.step symbol op).book.Rests orderId ↔
      (b.Rests orderId ∨ op.Enters orderId) ∧ ¬ Closed orderId (b.step symbol op).calls := by
  have hstep := stepping b symbol op
  generalize b.step symbol op = r at hstep ⊢
  cases hstep with
  | refused => exact absurd hpos (by simp [LadderOp.Positive])
  | @entered e side quantity price flags r hq he =>
    have henters : ∀ x, (LadderOp.newOrder e side quantity price flags).Enters x ↔ x = e := by
      intro x
      simp [LadderOp.Enters, eq_comm]
    rw [henters]
    -- the order itself, or one that it may have met
    have hnone : b.find? e = none := hnew ((henters e).mpr rfl)
    by_cases hid : orderId = e
    · subst hid
      have hself := entering_closed_self he hnone (UInt32.pos_iff_ne_zero.mp hq) (Or.inl rfl)
      simpa using hself
    · have hother := entering_closed_other hb he (Ne.symm hid)
      simpa [hid] using hother
  | @deleted e o hfound =>
    have henters : ¬ (LadderOp.deleteOrder e).Enters orderId := by simp [LadderOp.Enters]
    simp [rests_remove, henters, Callback.closes, eq_comm]
  | @unknown op e hop hfound =>
    have henters : ¬ op.Enters orderId := by
      rcases hop with rfl | ⟨side, quantity, price, rfl⟩ <;> simp [LadderOp.Enters]
    simp [henters, Callback.closes]
  | @closed e side quantity price o hfound hfilled =>
    have henters : ¬ (LadderOp.modifyOrder e side quantity price).Enters orderId := by
      simp [LadderOp.Enters]
    simp [rests_remove, henters, Callback.closes, eq_comm]
  | @requantified e side quantity price o hfound hfilled hplace =>
    have henters : ¬ (LadderOp.modifyOrder e side quantity price).Enters orderId := by
      simp [LadderOp.Enters]
    simp [rests_setQuantity, henters, Callback.closes]
  | @reentered e side quantity price o r hfound hfilled hplace he hthrown =>
    obtain ⟨hmem, rfl⟩ := mem_of_find? hfound
    have henters : ¬ (LadderOp.modifyOrder o.orderId side quantity price).Enters orderId := by
      simp [LadderOp.Enters]
    have hioc : isIoc (o.moved side quantity price).flags = false := (hlive o hmem).2
    -- the order is entered with what is not filled of the new quantity
    have hq : (o.moved side quantity price).quantity ≠ 0 := by
      intro hzero
      have hle : o.filledQuantity ≤ quantity := UInt32.le_of_lt hfilled
      have hlt := UInt32.lt_iff_toNat_lt.mp hfilled
      have hnat := congrArg UInt32.toNat hzero
      simp only [RestingOrder.moved, UInt32.toNat_sub_of_le _ _ hle, UInt32.toNat_zero] at hnat
      omega
    have hremoved := find?_remove_self b o.orderId
    rw [closed_append]
    by_cases hid : orderId = o.orderId
    · subst hid
      have hself := entering_closed_self he hremoved hq (Or.inr hioc)
      have hfilled := entering_closed_of_filled he hremoved hq
      have hrests : b.Rests o.orderId := ⟨o, hmem, rfl⟩
      -- it rests unless its entry closed it; used up, it is closed by the last callback as well
      have hself' : r.book.Rests o.orderId ↔ ¬ Closed o.orderId r.calls := hself
      have hfilled' : r.remaining = 0 → Closed o.orderId r.calls := hfilled
      rw [hself']
      by_cases hleft : r.remaining > 0
      · simp [hrests, hleft, Callback.closes]
      · have hzero : r.remaining = 0 := by
          rw [gt_iff_lt, UInt32.pos_iff_ne_zero] at hleft
          exact not_not.mp hleft
        simp [hfilled' hzero]
    · have hother := entering_closed_other (hb.remove o.orderId) he (Ne.symm hid)
      rw [hother, rests_remove]
      by_cases hleft : r.remaining > 0
      · simp [hid, henters, hleft, Callback.closes]
      · simp [hid, henters, hleft, Callback.closes, Ne.symm hid]

end PriorityBook

end Ndfex
