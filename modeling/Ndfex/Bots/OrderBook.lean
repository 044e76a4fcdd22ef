import Ndfex.MatchingEngine.OrderLadder

/-!
# The order book of the bots

`bots::OrderBook`: the orders of the feed by id, and the quantity at each price; and `MDClient`,
which keeps one such book for each symbol and takes the messages of the feed one by one. The
sequence numbers and the snapshot recovery of the client are left out, as is the logging.

## Main definitions

* `Bots.OrderBook`, with `newOrder`, `deleteOrder`, `modifyOrder` and `orderTrade`
* `Bots.MDClient.apply`: the switch of `process_message`
* `Bots.MDClient.order`: the order that a client shows under an id

## Main results

* `Bots.MDClient.order_apply_newOrder`, …, `Bots.MDClient.order_apply_trade`: what a message does to
  the orders shown
-/

namespace Ndfex.Bots

open Containers

/-- `OrderBook::Order`. -/
structure Order where
  side : Side
  price : Int32
  quantity : UInt32
deriving DecidableEq, Repr

/-- `OrderBook`. -/
structure OrderBook where
  orders : AList fun _ : UInt64 => Order
  buyLevels : OrderedMap BookSide.buy.better UInt32
  sellLevels : OrderedMap BookSide.sell.better UInt32

namespace OrderBook

/-- A book without orders. -/
def empty : OrderBook := ⟨∅, OrderedMap.empty, OrderedMap.empty⟩

/-- The level map of a side. -/
def levels (b : OrderBook) : (h : BookSide) → OrderedMap h.better UInt32
  | .buy => b.buyLevels
  | .sell => b.sellLevels

/-- The book with one level map replaced. -/
def setLevels (b : OrderBook) : (h : BookSide) → OrderedMap h.better UInt32 → OrderBook
  | .buy, m => { b with buyLevels := m }
  | .sell, m => { b with sellLevels := m }

/-- `levels[price] += quantity`. -/
def addToLevel (b : OrderBook) (h : BookSide) (price : Int32) (quantity : UInt32) : OrderBook :=
  b.setLevels h ((b.levels h).insert price (((b.levels h).find? price).getD 0 + quantity))

/-- `OrderBook::new_order`; `emplace` keeps an order that is there. -/
def newOrder (b : OrderBook) (orderId : UInt64) (side : Side) (quantity : UInt32)
    (price : Int32) : OrderBook :=
  let b := if (b.orders.lookup orderId).isSome then b
    else { b with orders := b.orders.insert orderId ⟨side, price, quantity⟩ }
  b.addToLevel side.bookSide price quantity

/-- `OrderBook::delete_order_from_levels`. -/
def deleteOrderFromLevels (b : OrderBook) (h : BookSide) (orderId : UInt64) : OrderBook :=
  match b.orders.lookup orderId with
  | none => b
  | some order =>
    match (b.levels h).find? order.price with
    | none => b
    | some quantity =>
      if quantity < order.quantity then b
      else if quantity - order.quantity = 0 then b.setLevels h ((b.levels h).erase order.price)
      else b.setLevels h ((b.levels h).insert order.price (quantity - order.quantity))

/-- `OrderBook::delete_order`. -/
def deleteOrder (b : OrderBook) (orderId : UInt64) : OrderBook :=
  match b.orders.lookup orderId with
  | none => b
  | some order =>
    let b := if order.quantity = 0 then b
      else b.deleteOrderFromLevels order.side.bookSide orderId
    { b with orders := b.orders.erase orderId }

/-- `OrderBook::modify_order`. -/
def modifyOrder (b : OrderBook) (orderId : UInt64) (side : Side) (quantity : UInt32)
    (price : Int32) : OrderBook :=
  match b.orders.lookup orderId with
  | none => b
  | some order =>
    let b := b.deleteOrderFromLevels order.side.bookSide orderId
    let b := b.addToLevel side.bookSide price quantity
    { b with orders := b.orders.insert orderId ⟨side, price, quantity⟩ }

/-- `levels[price] -= quantity`, with a level of no quantity erased if the order is used up. -/
def takeFromLevel (b : OrderBook) (h : BookSide) (price : Int32) (quantity : UInt32)
    (usedUp : Bool) : OrderBook :=
  let left := ((b.levels h).find? price).getD 0 - quantity
  if usedUp && left = 0 then b.setLevels h ((b.levels h).erase price)
  else b.setLevels h ((b.levels h).insert price left)

/-- `OrderBook::order_trade`. The source reads a used-up order after it erased it; the model reads
what it was. -/
def orderTrade (b : OrderBook) (orderId : UInt64) (quantity : UInt32) : OrderBook :=
  match b.orders.lookup orderId with
  | none => b
  | some order =>
    if order.quantity < quantity then b
    else if order.quantity - quantity = 0 then
      let b := { b with orders := b.orders.erase orderId }
      b.takeFromLevel order.side.bookSide order.price quantity true
    else
      let b := { b with
        orders := b.orders.insert orderId { order with quantity := order.quantity - quantity } }
      b.takeFromLevel order.side.bookSide order.price quantity false

/-! ### What the methods do to the orders -/

@[simp] theorem orders_setLevels (b : OrderBook) (h : BookSide) (m : OrderedMap h.better UInt32) :
    (b.setLevels h m).orders = b.orders := by cases h <;> rfl

@[simp] theorem orders_addToLevel (b : OrderBook) (h : BookSide) (price : Int32)
    (quantity : UInt32) : (b.addToLevel h price quantity).orders = b.orders :=
  orders_setLevels ..

@[simp] theorem orders_deleteOrderFromLevels (b : OrderBook) (h : BookSide) (orderId : UInt64) :
    (b.deleteOrderFromLevels h orderId).orders = b.orders := by
  unfold deleteOrderFromLevels
  cases b.orders.lookup orderId with
  | none => rfl
  | some order =>
    cases hlevel : (b.levels h).find? order.price with
    | none => simp [hlevel]
    | some quantity =>
      simp only [hlevel]
      split_ifs <;> simp

@[simp] theorem orders_takeFromLevel (b : OrderBook) (h : BookSide) (price : Int32)
    (quantity : UInt32) (usedUp : Bool) :
    (b.takeFromLevel h price quantity usedUp).orders = b.orders := by
  unfold takeFromLevel
  dsimp only
  split_ifs <;> simp

/-- What a trade of a quantity leaves of an order. -/
def reduce (quantity : UInt32) (o : Order) : Option Order :=
  if o.quantity < quantity then some o
  else if o.quantity - quantity = 0 then none
  else some { o with quantity := o.quantity - quantity }

theorem lookup_newOrder (b : OrderBook) (orderId e : UInt64) (side : Side) (quantity : UInt32)
    (price : Int32) :
    (b.newOrder orderId side quantity price).orders.lookup e =
      if e = orderId then some ((b.orders.lookup orderId).getD ⟨side, price, quantity⟩)
      else b.orders.lookup e := by
  unfold newOrder
  dsimp only
  rw [orders_addToLevel]
  cases hold : b.orders.lookup orderId with
  | none =>
    rw [Option.isSome_none, if_neg Bool.false_ne_true, Option.getD_none]
    split_ifs with he
    · rw [he]
      exact AList.lookup_insert _
    · exact AList.lookup_insert_ne he
  | some o =>
    rw [Option.isSome_some, if_pos rfl, Option.getD_some]
    split_ifs with he
    · rw [he, hold]
    · rfl

theorem lookup_deleteOrder (b : OrderBook) (orderId e : UInt64) :
    (b.deleteOrder orderId).orders.lookup e =
      if e = orderId then none else b.orders.lookup e := by
  unfold deleteOrder
  cases hold : b.orders.lookup orderId with
  | none =>
    split_ifs with he
    · rw [he]
      exact hold
    · rfl
  | some o =>
    have horders : ∀ b' : OrderBook, b'.orders = b.orders →
        (b'.orders.erase orderId).lookup e =
          if e = orderId then none else b.orders.lookup e := by
      intro b' hb'
      rw [hb']
      split_ifs with he
      · rw [he]
        exact AList.lookup_erase ..
      · exact AList.lookup_erase_ne he
    by_cases hzero : o.quantity = 0
    · simp only [if_pos hzero]
      exact horders b rfl
    · simp only [if_neg hzero]
      exact horders _ (orders_deleteOrderFromLevels ..)

theorem lookup_modifyOrder (b : OrderBook) (orderId e : UInt64) (side : Side) (quantity : UInt32)
    (price : Int32) :
    (b.modifyOrder orderId side quantity price).orders.lookup e =
      if e = orderId then (b.orders.lookup orderId).map fun _ => ⟨side, price, quantity⟩
      else b.orders.lookup e := by
  unfold modifyOrder
  cases hold : b.orders.lookup orderId with
  | none =>
    split_ifs with he
    · rw [he]
      exact hold
    · rfl
  | some o =>
    dsimp only
    rw [orders_addToLevel, orders_deleteOrderFromLevels]
    split_ifs with he
    · rw [he]
      exact AList.lookup_insert _
    · exact AList.lookup_insert_ne he

theorem lookup_orderTrade (b : OrderBook) (orderId e : UInt64) (quantity : UInt32) :
    (b.orderTrade orderId quantity).orders.lookup e =
      if e = orderId then (b.orders.lookup orderId).bind (reduce quantity)
      else b.orders.lookup e := by
  unfold orderTrade
  cases hold : b.orders.lookup orderId with
  | none =>
    split_ifs with he
    · rw [he]
      exact hold
    · rfl
  | some o =>
    simp only [Option.bind_some, reduce]
    -- the trade takes more than the order has, part of it, or all of it
    by_cases hless : o.quantity < quantity
    · rw [if_pos hless, if_pos hless]
      split_ifs with he
      · rw [he, hold]
      · rfl
    rw [if_neg hless, if_neg hless]
    by_cases hzero : o.quantity - quantity = 0
    · rw [if_pos hzero, if_pos hzero, orders_takeFromLevel]
      split_ifs with he
      · rw [he]
        exact AList.lookup_erase ..
      · exact AList.lookup_erase_ne he
    · rw [if_neg hzero, if_neg hzero, orders_takeFromLevel]
      split_ifs with he
      · rw [he]
        exact AList.lookup_insert _
      · exact AList.lookup_insert_ne he

end OrderBook

/-! ## The client -/

/-- `MDClient`: a book for each symbol, and the symbol of each order. -/
structure MDClient where
  symbolToOrderBook : AList fun _ : UInt32 => OrderBook
  orderToSymbol : AList fun _ : UInt64 => UInt32

namespace MDClient

/-- A client without books. -/
def empty : MDClient := ⟨∅, ∅⟩

/-- `order_to_symbol[order_id]`, which enters symbol 0 for an unknown order. -/
def symbolOf (c : MDClient) (orderId : UInt64) : UInt32 × MDClient :=
  match c.orderToSymbol.lookup orderId with
  | some symbol => (symbol, c)
  | none => (0, { c with orderToSymbol := c.orderToSymbol.insert orderId 0 })

/-- A method of the book of a symbol, if there is one. -/
def onBook (c : MDClient) (symbol : UInt32) (f : OrderBook → OrderBook) : MDClient :=
  match c.symbolToOrderBook.lookup symbol with
  | none => c
  | some b => { c with symbolToOrderBook := c.symbolToOrderBook.insert symbol (f b) }

/-- The switch of `MDClient::process_message`. -/
def apply (c : MDClient) : MdBody → MDClient
  | .newOrder orderId symbol side quantity price _ =>
    let b := (c.symbolToOrderBook.lookup symbol).getD OrderBook.empty
    { symbolToOrderBook :=
        c.symbolToOrderBook.insert symbol (b.newOrder orderId side quantity price)
      orderToSymbol := c.orderToSymbol.insert orderId symbol }
  | .deleteOrder orderId =>
    let (symbol, c) := c.symbolOf orderId
    c.onBook symbol fun b => b.deleteOrder orderId
  | .modifyOrder orderId side quantity price =>
    let (symbol, c) := c.symbolOf orderId
    c.onBook symbol fun b => b.modifyOrder orderId side quantity price
  | .trade orderId quantity _ =>
    match c.orderToSymbol.lookup orderId with
    | none => c
    | some symbol => c.onBook symbol fun b => b.orderTrade orderId quantity
  | .tradeSummary .. => c
  | .heartbeat => c

/-- The order that the client shows under an id in the book of a symbol. -/
def order (c : MDClient) (symbol : UInt32) (e : UInt64) : Option Order :=
  (c.symbolToOrderBook.lookup symbol).bind fun b => b.orders.lookup e

variable {c : MDClient}

theorem order_insert (c : MDClient) (symbol symbol' : UInt32) (b : OrderBook) (e : UInt64) :
    order { c with symbolToOrderBook := c.symbolToOrderBook.insert symbol b } symbol' e =
      if symbol' = symbol then b.orders.lookup e else c.order symbol' e := by
  unfold order
  dsimp only
  split_ifs with hs
  · rw [hs, AList.lookup_insert, Option.bind_some]
  · rw [AList.lookup_insert_ne hs]

/-- A method that changes one order of the book of a symbol, and none where there is none. -/
theorem order_onBook {symbol : UInt32} {f : OrderBook → OrderBook} {e : UInt64}
    {g : Option Order → Option Order} (hnone : g none = none)
    (hf : ∀ b e', (f b).orders.lookup e' =
      if e' = e then g (b.orders.lookup e) else b.orders.lookup e') (symbol' : UInt32)
    (e' : UInt64) :
    (c.onBook symbol f).order symbol' e' =
      if symbol' = symbol ∧ e' = e then g (c.order symbol e) else c.order symbol' e' := by
  unfold onBook
  cases hb : c.symbolToOrderBook.lookup symbol with
  | none =>
    split_ifs with hse
    · obtain ⟨rfl, rfl⟩ := hse
      simp [order, hb, hnone]
    · rfl
  | some b =>
    dsimp only
    rw [order_insert, hf]
    by_cases hs : symbol' = symbol
    · subst hs
      simp [order, hb]
    · simp [hs]

theorem order_apply_newOrder (c : MDClient) (orderId : UInt64) (symbol : UInt32) (side : Side)
    (quantity : UInt32) (price : Int32) (flags : UInt8) (symbol' : UInt32) (e : UInt64) :
    (c.apply (.newOrder orderId symbol side quantity price flags)).order symbol' e =
      if symbol' = symbol ∧ e = orderId then
        some ((c.order symbol orderId).getD ⟨side, price, quantity⟩)
      else c.order symbol' e := by
  have hinsert := order_insert { c with orderToSymbol := c.orderToSymbol.insert orderId symbol }
    symbol symbol' (((c.symbolToOrderBook.lookup symbol).getD OrderBook.empty).newOrder orderId side
      quantity price) e
  refine hinsert.trans ?_
  rw [OrderBook.lookup_newOrder]
  by_cases hs : symbol' = symbol
  · subst hs
    cases hb : c.symbolToOrderBook.lookup symbol' <;> simp [order, hb, OrderBook.empty]
  · simp [order, hs]

theorem routes_newOrder (c : MDClient) (orderId : UInt64) (symbol : UInt32) (side : Side)
    (quantity : UInt32) (price : Int32) (flags : UInt8) (e : UInt64) :
    (c.apply (.newOrder orderId symbol side quantity price flags)).orderToSymbol.lookup e =
      if e = orderId then some symbol else c.orderToSymbol.lookup e := by
  simp only [apply]
  split_ifs with he
  · rw [he]
    exact AList.lookup_insert _
  · exact AList.lookup_insert_ne he

theorem orderToSymbol_onBook (c : MDClient) (symbol : UInt32) (f : OrderBook → OrderBook) :
    (c.onBook symbol f).orderToSymbol = c.orderToSymbol := by
  unfold onBook
  split <;> rfl

theorem order_apply_deleteOrder {orderId : UInt64} {symbol : UInt32}
    (hsymbol : c.orderToSymbol.lookup orderId = some symbol) (symbol' : UInt32) (e : UInt64) :
    (c.apply (.deleteOrder orderId)).order symbol' e =
      if symbol' = symbol ∧ e = orderId then none else c.order symbol' e := by
  simp only [apply, symbolOf, hsymbol]
  exact order_onBook (g := fun _ => none) rfl (fun b e' => b.lookup_deleteOrder orderId e') _ _

theorem order_apply_modifyOrder {orderId : UInt64} {symbol : UInt32}
    (hsymbol : c.orderToSymbol.lookup orderId = some symbol) (side : Side) (quantity : UInt32)
    (price : Int32) (symbol' : UInt32) (e : UInt64) :
    (c.apply (.modifyOrder orderId side quantity price)).order symbol' e =
      if symbol' = symbol ∧ e = orderId then
        (c.order symbol orderId).map fun _ => ⟨side, price, quantity⟩
      else c.order symbol' e := by
  simp only [apply, symbolOf, hsymbol]
  exact order_onBook (g := Option.map fun _ => ⟨side, price, quantity⟩) rfl
    (fun b e' => b.lookup_modifyOrder orderId e' side quantity price) _ _

theorem order_apply_trade {orderId : UInt64} {symbol : UInt32}
    (hsymbol : c.orderToSymbol.lookup orderId = some symbol) (quantity : UInt32) (price : Int32)
    (symbol' : UInt32) (e : UInt64) :
    (c.apply (.trade orderId quantity price)).order symbol' e =
      if symbol' = symbol ∧ e = orderId then
        (c.order symbol orderId).bind (OrderBook.reduce quantity)
      else c.order symbol' e := by
  simp only [apply, hsymbol]
  exact order_onBook (g := fun o => o.bind (OrderBook.reduce quantity)) rfl
    (fun b e' => b.lookup_orderTrade orderId e' quantity) _ _

end MDClient

end Ndfex.Bots
