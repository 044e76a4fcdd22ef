import Mathlib.Data.List.AList
import Mathlib.Order.RelClasses
import Ndfex.Containers.OrderedMap
import Ndfex.Protocol.OrderEntry
import Ndfex.Transition.Logged

/-!
# The order ladder

`OrderLadder` of the matching engine, pointer by pointer: a hash map from order ids to slots of an
order pool, two sorted maps from prices to levels, and at each level an intrusive doubly linked
list of orders threaded through the slots. A method runs in a monad that keeps the state when it
throws, because a C++ exception undoes nothing. The calls to the subscriber are recorded in order;
no callback reads the ladder.

## Main definitions

* `Order`, `PriceLevel`, `OrderPool`: the nodes, the levels and the pool
* `BookSide`: which of the two level maps a `PriceLevels&` argument refers to
* `Callback`: the subscriber's callbacks
* `LadderError`: what the methods throw
* `OrderLadder.newOrder`, `OrderLadder.deleteOrder`, `OrderLadder.modifyOrder`: the public methods
* `OrderLadder.handleNewOrder`, `OrderLadder.handleDeleteOrder`, `OrderLadder.matchOrder`: the
  private ones
-/

namespace Ndfex

open Containers Transition

/-! ## Orders and the pool that holds them -/

/-- An address in the order pool: slot `i` of block `b` is `b * orderPoolBlockSize + i`. -/
abbrev Slot := ℕ

/-- `OrderLadder::Order`, with its links to the orders before and behind it in its level. -/
structure Order where
  orderId : UInt64 := 0
  timestamp : UInt64 := 0
  quantity : UInt32 := 0
  filledQuantity : UInt32 := 0
  price : Int32 := 0
  side : Side := ⟨0⟩
  flags : UInt8 := 0
  next : Option Slot := none
  prev : Option Slot := none

/-- `ORDER_POOL_BLOCK_SIZE`. -/
def orderPoolBlockSize : ℕ := 4096

/-- `OrderLadder::OrderPool`: the number of blocks, the free list with the back of the vector
first, and the contents of the slots. -/
structure OrderPool where
  blocks : ℕ
  freeList : List Slot
  slots : Slot → Order

namespace OrderPool

/-- The pool before its first block; the slots of a block are value-initialised. -/
def empty : OrderPool := ⟨0, [], fun _ => {}⟩

/-- `OrderPool::add_block`: pushes the slots of a new block in order. -/
def addBlock (p : OrderPool) : OrderPool :=
  { p with
    blocks := p.blocks + 1
    freeList := (List.range orderPoolBlockSize).foldl
      (fun freeList i => (p.blocks * orderPoolBlockSize + i) :: freeList) p.freeList }

/-- `OrderPool::allocate`. -/
def allocate (p : OrderPool) : Slot × OrderPool :=
  let p := if p.freeList = [] then p.addBlock else p
  (p.freeList.headD 0, { p with freeList := p.freeList.tail })

/-- Writes to the order in a slot. -/
def write (p : OrderPool) (s : Slot) (f : Order → Order) : OrderPool :=
  { p with slots := Function.update p.slots s (f (p.slots s)) }

/-- Writes through a pointer that may be null. -/
def writeThrough (p : OrderPool) (s : Option Slot) (f : Order → Order) : OrderPool :=
  match s with
  | none => p
  | some s => p.write s f

/-- `OrderPool::deallocate`. -/
def deallocate (p : OrderPool) (s : Slot) : OrderPool :=
  let p := p.write s fun o => { o with next := none, prev := none }
  { p with freeList := s :: p.freeList }

end OrderPool

/-! ## Price levels -/

/-- `OrderLadder::PriceLevel`. -/
structure PriceLevel where
  head : Option Slot
  tail : Option Slot

/-- The two maps of price levels, `buy_levels` and `sell_levels`. -/
inductive BookSide
  | buy
  | sell
deriving DecidableEq, Repr

namespace BookSide

/-- The comparator of the level map: bids from the highest price, asks from the lowest. -/
def better : BookSide → Int32 → Int32 → Prop
  | buy, p, p' => p > p'
  | sell, p, p' => p < p'

instance (h : BookSide) : DecidableRel h.better := fun p p' =>
  match h with
  | buy => inferInstanceAs (Decidable (p > p'))
  | sell => inferInstanceAs (Decidable (p < p'))

instance (h : BookSide) : IsStrictTotalOrder Int32 h.better where
  trichotomous p p' h₁ h₂ := by
    cases h <;> exact Int32.le_antisymm (Int32.not_lt.mp (by assumption))
      (Int32.not_lt.mp (by assumption))
  irrefl p := by cases h <;> exact Int32.lt_irrefl
  trans p p' p'' := by
    cases h
    · exact fun h₁ h₂ => Int32.lt_trans h₂ h₁
    · exact fun h₁ h₂ => Int32.lt_trans h₁ h₂

/-- The other map. -/
def opposite : BookSide → BookSide
  | buy => sell
  | sell => buy

end BookSide

/-- The map a side byte routes to: `BUY` to `buy_levels`, every other byte to `sell_levels`. -/
def Side.bookSide (s : Side) : BookSide := if s = Side.buy then .buy else .sell

/-- One of the two maps of price levels, sorted by its comparator. -/
abbrev PriceLevels (h : BookSide) := OrderedMap h.better PriceLevel

/-! ## The subscriber's callbacks -/

/-- A call of a callback of the `Subscriber` template parameter. -/
inductive Callback
  | onNewOrder (orderId : UInt64) (symbol : UInt32) (side : Side) (quantity : UInt32)
      (price : Int32) (flags : UInt8)
  | onModifyOrder (orderId : UInt64) (symbol : UInt32) (side : Side) (quantity : UInt32)
      (price : Int32)
  | onDeleteOrder (orderId : UInt64) (publish : Bool)
  | onCancelReject (orderId : UInt64)
  | onTrade (orderId : UInt64) (quantity : UInt32) (price : Int32)
  | onFill (orderId : UInt64) (symbol : UInt32) (side : Side) (quantity : UInt32) (price : Int32)
      (flags : UInt8) (active : Bool)
deriving DecidableEq, Repr

/-! ## Exceptions -/

/-- The `runtime_error`s of the ladder. `loopBound` is no exception of the source: a loop of the
model that runs longer than its bound ends with it. -/
inductive LadderError
  | filledQuantityExceedsQuantity
  | orderAlreadyExists
  | impossible
  | tailIsNullptr (price : Int32)
  | priceLevelDoesNotExist (price : Int32) (orderId : UInt64)
  | priceLevelNotEmpty (price : Int32) (remaining : UInt32)
  | loopBound
deriving DecidableEq, Repr

/-! ## The ladder -/

/-- `OrderLadder`, apart from its subscriber. -/
structure OrderLadder where
  orders : AList fun _ : UInt64 => Slot
  buyLevels : PriceLevels .buy
  sellLevels : PriceLevels .sell
  orderPool : OrderPool
  symbol : UInt32

namespace OrderLadder

/-- A ladder without orders. -/
def empty (symbol : UInt32) : OrderLadder :=
  ⟨∅, OrderedMap.empty, OrderedMap.empty, OrderPool.empty, symbol⟩

/-- The level map a `PriceLevels&` refers to. -/
def levels (L : OrderLadder) : (h : BookSide) → PriceLevels h
  | .buy => L.buyLevels
  | .sell => L.sellLevels

/-- The ladder with one level map replaced. -/
def setLevels (L : OrderLadder) : (h : BookSide) → PriceLevels h → OrderLadder
  | .buy, m => { L with buyLevels := m }
  | .sell, m => { L with sellLevels := m }

/-- The order in a slot. -/
def order (L : OrderLadder) (s : Slot) : Order := L.orderPool.slots s

/-- A method of the ladder: it updates the ladder and calls the subscriber. -/
abbrev LadderM := Logged LadderError OrderLadder Callback

/-- The ladder as it is now. -/
abbrev ladder : LadderM OrderLadder := Logged.current

/-- Updates the ladder. -/
abbrev update (f : OrderLadder → OrderLadder) : LadderM Unit := Logged.update f

/-- Updates the ladder's order pool. -/
abbrev updatePool (f : OrderPool → OrderPool) : LadderM Unit :=
  update fun L => { L with orderPool := f L.orderPool }

/-- Calls the subscriber. -/
abbrev subscriber (c : Callback) : LadderM Unit := Logged.record c

/-- `OrderLadder::handle_delete_order`. -/
def handleDeleteOrder (h : BookSide) (orderId : UInt64) : LadderM Unit := do
  let L ← ladder
  match L.orders.lookup orderId with
  | none => subscriber (.onCancelReject orderId)
  | some slot =>
    let order := L.order slot
    match (L.levels h).find? order.price with
    | none => throw (.priceLevelDoesNotExist order.price orderId)
    | some priceLevel =>
      let head := if priceLevel.head = some slot then order.next else priceLevel.head
      let tail := if priceLevel.tail = some slot then order.prev else priceLevel.tail
      update fun L => L.setLevels h ((L.levels h).insert order.price ⟨head, tail⟩)
      updatePool (·.writeThrough order.prev fun o => { o with next := order.next })
      updatePool (·.writeThrough order.next fun o => { o with prev := order.prev })
      update fun L => { L with orders := L.orders.erase orderId }
      updatePool (·.deallocate slot)

/-- How the loop over the orders of a level ends: by its condition, or by the `return` after a
partial fill. -/
inductive LevelExit
  | drained (quantity : UInt32)
  | returned

/-- The loop of `OrderLadder::match` over the orders of one level. -/
def matchLevel (h : BookSide) (incomingOrderId : UInt64) (side : Side) :
    ℕ → Option Slot → UInt32 → LadderM LevelExit
  | 0, _, _ => throw .loopBound
  | fuel + 1, order, quantity => do
    match order with
    | none => return .drained quantity
    | some slot =>
      if quantity = 0 then return .drained quantity
      let L ← ladder
      let order := L.order slot
      if order.quantity ≤ quantity then
        -- the resting order is fully matched
        subscriber (.onTrade order.orderId order.quantity order.price)
        subscriber (.onFill order.orderId L.symbol order.side order.quantity order.price
          FillFlags.closed false)
        let quantity := quantity - order.quantity
        subscriber (.onFill incomingOrderId L.symbol side order.quantity order.price
          (if quantity > 0 then FillFlags.partialFill else FillFlags.closed) true)
        handleDeleteOrder h order.orderId
        matchLevel h incomingOrderId side fuel order.next quantity
      else
        -- the resting order is partially matched
        subscriber (.onTrade order.orderId quantity order.price)
        subscriber (.onFill order.orderId L.symbol order.side quantity order.price
          FillFlags.partialFill false)
        subscriber (.onFill incomingOrderId L.symbol side quantity order.price
          FillFlags.closed true)
        updatePool (·.write slot fun o =>
          { o with
            filledQuantity := o.filledQuantity + quantity
            quantity := o.quantity - quantity })
        return .returned

/-- The price test at the head of the loop of `match`: the level is beyond the limit price. -/
def beyondLimit (side : Side) (levelPrice price : Int32) : Prop :=
  (side = Side.buy ∧ levelPrice > price) ∨ (side = Side.sell ∧ levelPrice < price)

instance (side : Side) (levelPrice price : Int32) : Decidable (beyondLimit side levelPrice price) :=
  inferInstanceAs (Decidable (_ ∨ _))

/-- The loop of `OrderLadder::match` over the levels of the other side. It always works on the
first level: a level it leaves behind was erased. -/
def matchLevels (h : BookSide) (incomingOrderId : UInt64) (side : Side) (price : Int32) :
    ℕ → UInt32 → LadderM UInt32
  | 0, _ => throw .loopBound
  | fuel + 1, quantity => do
    let L ← ladder
    match (L.levels h).begin? with
    | none => return quantity
    | some (levelPrice, priceLevel) =>
      if quantity = 0 then return quantity
      if beyondLimit side levelPrice price then return quantity
      match ← matchLevel h incomingOrderId side (L.orders.keys.length + 1) priceLevel.head
          quantity with
      | .returned => return 0
      | .drained quantity =>
        let L ← ladder
        if ((L.levels h).find? levelPrice).bind PriceLevel.head = none then
          update fun L => L.setLevels h ((L.levels h).erase levelPrice)
          matchLevels h incomingOrderId side price fuel quantity
        else if quantity > 0 then
          throw (.priceLevelNotEmpty levelPrice quantity)
        else
          matchLevels h incomingOrderId side price fuel quantity

/-- `OrderLadder::match`, which returns what is left of the quantity it takes by reference. -/
def matchOrder (h : BookSide) (incomingOrderId : UInt64) (side : Side) (quantity : UInt32)
    (price : Int32) : LadderM UInt32 := do
  let L ← ladder
  matchLevels h incomingOrderId side price ((L.levels h).keys.length + 1) quantity

/-- The insertion at the end of `handle_new_order`: the order takes a slot and goes to the back of
its level. -/
def insertOrder (h : BookSide) (order : Order) : LadderM Unit := do
  let (slot, pool) := (← ladder).orderPool.allocate
  updatePool fun _ => pool.write slot fun _ => order
  match ((← ladder).levels h).find? order.price with
  | none =>
    update fun L => L.setLevels h ((L.levels h).insert order.price ⟨some slot, some slot⟩)
  | some priceLevel =>
    match priceLevel.tail with
    | none => throw (.tailIsNullptr order.price)
    | some tail =>
      updatePool (·.write tail fun o => { o with next := slot })
      updatePool (·.write slot fun o => { o with prev := tail })
      update fun L =>
        L.setLevels h ((L.levels h).insert order.price { priceLevel with tail := slot })
  update fun L => { L with orders := L.orders.insert order.orderId slot }

/-- `OrderLadder::handle_new_order`, which returns what is left of the quantity it takes by
reference. -/
def handleNewOrder (orderId : UInt64) (side : Side) (quantity : UInt32) (price : Int32)
    (flags : UInt8) (h : BookSide) (notify : Bool) (filledQuantity : UInt32) : LadderM UInt32 := do
  unless quantity > filledQuantity do throw .filledQuantityExceedsQuantity
  let prematchQuantity := quantity - filledQuantity
  let quantity ←
    if side = Side.buy then matchOrder .sell orderId side prematchQuantity price
    else matchOrder .buy orderId side prematchQuantity price
  if notify && !isIoc flags then
    subscriber (.onNewOrder orderId (← ladder).symbol side quantity price flags)
  -- IOC orders are not added to the ladder
  if quantity > 0 && isIoc flags then
    if notify then
      subscriber (.onDeleteOrder orderId false)
    return quantity
  if quantity = 0 then
    return quantity
  if ((← ladder).orders.lookup orderId).isSome then
    throw .orderAlreadyExists
  if quantity > prematchQuantity then
    throw .impossible
  insertOrder h
    { orderId, quantity, price, side, flags, filledQuantity := prematchQuantity - quantity }
  return quantity

/-- `OrderLadder::new_order`. -/
def newOrder (orderId : UInt64) (side : Side) (quantity : UInt32) (price : Int32)
    (flags : UInt8) (notify : Bool := true) (filledQuantity : UInt32 := 0) : LadderM Unit := do
  if side = Side.buy then
    discard <| handleNewOrder orderId side quantity price flags .buy notify filledQuantity
  else
    discard <| handleNewOrder orderId side quantity price flags .sell notify filledQuantity

/-- The end of `delete_order` for one of the level maps: a level without orders leaves it. -/
def eraseEmptyLevel (h : BookSide) (price : Int32) : LadderM Unit := do
  match ((← ladder).levels h).find? price with
  | none => pure ()
  | some priceLevel =>
    if priceLevel.head = none then
      update fun L => L.setLevels h ((L.levels h).erase price)

/-- `OrderLadder::delete_order`. -/
def deleteOrder (orderId : UInt64) (notify : Bool := true) : LadderM Unit := do
  let L ← ladder
  match L.orders.lookup orderId with
  | none => subscriber (.onCancelReject orderId)
  | some slot =>
    let price := (L.order slot).price
    if (L.order slot).side = Side.buy then
      handleDeleteOrder .buy orderId
      eraseEmptyLevel .buy price
    else
      handleDeleteOrder .sell orderId
      eraseEmptyLevel .sell price
    if notify then
      subscriber (.onDeleteOrder orderId true)

/-- `OrderLadder::modify_order`. -/
def modifyOrder (orderId : UInt64) (side : Side) (quantity : UInt32) (price : Int32) :
    LadderM Unit := do
  let L ← ladder
  match L.orders.lookup orderId with
  | none => subscriber (.onCancelReject orderId)
  | some slot =>
    let order := L.order slot
    if order.filledQuantity ≥ quantity then
      deleteOrder orderId
    else if order.price = price ∧ order.side = side then
      -- the price has not changed
      updatePool (·.write slot fun o => { o with quantity })
      subscriber (.onModifyOrder orderId L.symbol side (quantity - order.filledQuantity) price)
    else
      deleteOrder orderId false
      let quantity ←
        if side = Side.buy then
          handleNewOrder orderId side quantity price order.flags .buy false order.filledQuantity
        else
          handleNewOrder orderId side quantity price order.flags .sell false order.filledQuantity
      if quantity > 0 then
        -- the order is not fully matched
        subscriber (.onModifyOrder orderId L.symbol side quantity price)
      else
        -- the order is fully matched, close it
        subscriber (.onDeleteOrder orderId true)

end OrderLadder

end Ndfex
