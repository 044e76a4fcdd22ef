import Ndfex.MatchingEngine.OrderLadder

/-!
# The book by price and time

What a ladder is for, without its pointers: on each side a list of resting orders, best price first
and, at one price, in the order of arrival. An incoming order trades with the front of the other
side for as long as the prices cross and it has quantity left; what is left of it rests behind the
orders of its price or better.

## Main definitions

* `RestingOrder`, `PriorityBook`: the orders at rest
* `matchList`: an incoming order against one side
* `PriorityBook.enter`: matching, announcing and resting an order
* `LadderOp`, `PriorityBook.step`: the calls of the public methods and their effect on the book

## Main results

* `matchList_append`: matching against a concatenation
* `matchList_remaining_le`, `matchList_exhausts`: what is left of the incoming order
-/

namespace Ndfex

open Containers

/-- An order at rest, without its place in memory. -/
structure RestingOrder where
  orderId : UInt64
  quantity : UInt32
  filledQuantity : UInt32
  price : Int32
  side : Side
  flags : UInt8
deriving DecidableEq, Repr

/-- The order that a modification of price or side enters again, with the quantity its recorded
fills leave. -/
def RestingOrder.moved (o : RestingOrder) (side : Side) (quantity : UInt32) (price : Int32) :
    RestingOrder :=
  { o with quantity := quantity - o.filledQuantity, side, price }

/-- What the outside can see of an order in a slot. -/
def Order.resting (o : Order) : RestingOrder :=
  ⟨o.orderId, o.quantity, o.filledQuantity, o.price, o.side, o.flags⟩

/-- The two sides of a book, each in price-time priority. -/
@[ext] structure PriorityBook where
  buys : List RestingOrder
  sells : List RestingOrder
deriving DecidableEq, Repr

/-! ## An incoming order against one side -/

/-- The callbacks of one trade between the incoming order and the resting order `o`. -/
def tradeCalls (symbol : UInt32) (incomingId : UInt64) (side : Side) (o : RestingOrder)
    (quantity : UInt32) (restingFlags incomingFlags : UInt8) : List Callback :=
  [.onTrade o.orderId quantity o.price,
    .onFill o.orderId symbol o.side quantity o.price restingFlags false,
    .onFill incomingId symbol side quantity o.price incomingFlags true]

/-- The flags of the incoming order's fill that leaves `left` of it. -/
def incomingFlags (left : UInt32) : UInt8 :=
  if left > 0 then FillFlags.partialFill else FillFlags.closed

/-- What matching leaves: the rest of the incoming quantity, the callbacks, and the side. -/
structure Matching where
  remaining : UInt32
  calls : List Callback
  book : List RestingOrder

/-- An incoming order against the orders of the other side. -/
def matchList (symbol : UInt32) (incomingId : UInt64) (side : Side) (price : Int32) :
    List RestingOrder → UInt32 → Matching
  | [], quantity => ⟨quantity, [], []⟩
  | o :: os, quantity =>
    if quantity = 0 ∨ OrderLadder.beyondLimit side o.price price then ⟨quantity, [], o :: os⟩
    else if o.quantity ≤ quantity then
      let m := matchList symbol incomingId side price os (quantity - o.quantity)
      { m with
        calls := tradeCalls symbol incomingId side o o.quantity FillFlags.closed
          (incomingFlags (quantity - o.quantity)) ++ m.calls }
    else
      ⟨0, tradeCalls symbol incomingId side o quantity FillFlags.partialFill FillFlags.closed,
        { o with
          filledQuantity := o.filledQuantity + quantity
          quantity := o.quantity - quantity } :: os⟩

section Matching

variable {symbol : UInt32} {incomingId : UInt64} {side : Side} {price : Int32}

@[simp] theorem matchList_nil (quantity : UInt32) :
    matchList symbol incomingId side price [] quantity = ⟨quantity, [], []⟩ := rfl

@[simp] theorem matchList_zero (os : List RestingOrder) :
    matchList symbol incomingId side price os 0 = ⟨0, [], os⟩ := by
  cases os <;> simp [matchList]

theorem matchList_beyond {o : RestingOrder} (h : OrderLadder.beyondLimit side o.price price)
    (os : List RestingOrder) (quantity : UInt32) :
    matchList symbol incomingId side price (o :: os) quantity = ⟨quantity, [], o :: os⟩ := by
  simp [matchList, h]

theorem matchList_full {o : RestingOrder} {quantity : UInt32} (hq : quantity ≠ 0)
    (h : ¬ OrderLadder.beyondLimit side o.price price) (hle : o.quantity ≤ quantity)
    (os : List RestingOrder) :
    matchList symbol incomingId side price (o :: os) quantity =
      { matchList symbol incomingId side price os (quantity - o.quantity) with
        calls := tradeCalls symbol incomingId side o o.quantity FillFlags.closed
          (incomingFlags (quantity - o.quantity)) ++
          (matchList symbol incomingId side price os (quantity - o.quantity)).calls } := by
  rw [matchList, if_neg (by simp [hq, h]), if_pos hle]

theorem matchList_partly {o : RestingOrder} {quantity : UInt32} (hq : quantity ≠ 0)
    (h : ¬ OrderLadder.beyondLimit side o.price price) (hle : ¬ o.quantity ≤ quantity)
    (os : List RestingOrder) :
    matchList symbol incomingId side price (o :: os) quantity =
      ⟨0, tradeCalls symbol incomingId side o quantity FillFlags.partialFill FillFlags.closed,
        { o with
          filledQuantity := o.filledQuantity + quantity
          quantity := o.quantity - quantity } :: os⟩ := by
  rw [matchList, if_neg (by simp [hq, h]), if_neg hle]

/-- **Matching against a concatenation**: the second part is reached when the first is used
up. -/
theorem matchList_append (xs ys : List RestingOrder) (quantity : UInt32) :
    matchList symbol incomingId side price (xs ++ ys) quantity =
      let m := matchList symbol incomingId side price xs quantity
      if m.book = [] then
        { matchList symbol incomingId side price ys m.remaining with
          calls := m.calls ++ (matchList symbol incomingId side price ys m.remaining).calls }
      else { m with book := m.book ++ ys } := by
  induction xs generalizing quantity with
  | nil => simp
  | cons o os ih =>
    by_cases hstop : quantity = 0 ∨ OrderLadder.beyondLimit side o.price price
    · simp [matchList, hstop]
    obtain ⟨hq, hcross⟩ := not_or.mp hstop
    by_cases hle : o.quantity ≤ quantity
    · rw [List.cons_append, matchList_full hq hcross hle, matchList_full hq hcross hle, ih]
      dsimp only
      split_ifs <;> simp
    · rw [List.cons_append, matchList_partly hq hcross hle, matchList_partly hq hcross hle]
      simp

/-- Matching never leaves more than the incoming quantity. -/
theorem matchList_remaining_le (os : List RestingOrder) (quantity : UInt32) :
    (matchList symbol incomingId side price os quantity).remaining ≤ quantity := by
  induction os generalizing quantity with
  | nil => simp
  | cons o os ih =>
    by_cases hstop : quantity = 0 ∨ OrderLadder.beyondLimit side o.price price
    · simp [matchList, hstop]
    obtain ⟨hq, hcross⟩ := not_or.mp hstop
    by_cases hle : o.quantity ≤ quantity
    · rw [matchList_full hq hcross hle]
      refine UInt32.le_trans (ih _) ?_
      rw [UInt32.le_iff_toNat_le, UInt32.toNat_sub_of_le _ _ hle]
      omega
    · rw [matchList_partly hq hcross hle]
      simp

/-- When every price crosses, matching uses up the incoming quantity or the side. -/
theorem matchList_exhausts {os : List RestingOrder}
    (hcross : ∀ o ∈ os, ¬ OrderLadder.beyondLimit side o.price price) (quantity : UInt32)
    (hbook : (matchList symbol incomingId side price os quantity).book ≠ []) :
    (matchList symbol incomingId side price os quantity).remaining = 0 := by
  induction os generalizing quantity with
  | nil => simp at hbook
  | cons o os ih =>
    by_cases hq : quantity = 0
    · simp [hq]
    have ho := hcross o (by simp)
    by_cases hle : o.quantity ≤ quantity
    · rw [matchList_full hq ho hle] at hbook ⊢
      exact ih (fun o' ho' => hcross o' (List.mem_cons_of_mem _ ho')) _ hbook
    · rw [matchList_partly hq ho hle]

end Matching

/-! ## The book -/

namespace PriorityBook

/-- A book without orders. -/
def empty : PriorityBook := ⟨[], []⟩

/-- One side of the book. -/
def half (b : PriorityBook) : BookSide → List RestingOrder
  | .buy => b.buys
  | .sell => b.sells

/-- The book with one side replaced. -/
def setHalf (b : PriorityBook) : BookSide → List RestingOrder → PriorityBook
  | .buy, os => { b with buys := os }
  | .sell, os => { b with sells := os }

/-- All orders at rest. -/
def orders (b : PriorityBook) : List RestingOrder := b.buys ++ b.sells

/-- The resting order with an id. -/
def find? (b : PriorityBook) (orderId : UInt64) : Option RestingOrder :=
  b.orders.find? fun o => o.orderId = orderId

/-- The book with `f` applied to both sides. -/
def mapHalves (b : PriorityBook) (f : List RestingOrder → List RestingOrder) : PriorityBook :=
  ⟨f b.buys, f b.sells⟩

/-- The book without an order. -/
def remove (b : PriorityBook) (orderId : UInt64) : PriorityBook :=
  b.mapHalves fun os => os.filter fun o => o.orderId ≠ orderId

/-- The book with the quantity of an order replaced, its place unchanged. -/
def setQuantity (b : PriorityBook) (orderId : UInt64) (quantity : UInt32) : PriorityBook :=
  b.mapHalves fun os => os.map fun o => if o.orderId = orderId then { o with quantity } else o

/-- The book with an order resting behind the orders of its price or better. -/
def rest (b : PriorityBook) (o : RestingOrder) : PriorityBook :=
  b.setHalf o.side.bookSide
    ((b.half o.side.bookSide).orderedInsert
      (fun x y => o.side.bookSide.better x.price y.price) o)

@[simp] theorem half_empty (h : BookSide) : empty.half h = [] := by cases h <;> rfl

@[simp] theorem half_setHalf (b : PriorityBook) (h : BookSide) (os : List RestingOrder) :
    (b.setHalf h os).half h = os := by cases h <;> rfl

theorem half_setHalf_of_ne (b : PriorityBook) {h h' : BookSide} (hne : h' ≠ h)
    (os : List RestingOrder) : (b.setHalf h os).half h' = b.half h' := by
  cases h <;> cases h' <;> simp_all [half, setHalf]

@[simp] theorem half_mapHalves (b : PriorityBook) (f : List RestingOrder → List RestingOrder)
    (h : BookSide) : (b.mapHalves f).half h = f (b.half h) := by cases h <;> rfl

theorem ext_half {b b' : PriorityBook} (h : ∀ s, b.half s = b'.half s) : b = b' :=
  PriorityBook.ext (h .buy) (h .sell)

theorem mem_orders {b : PriorityBook} {o : RestingOrder} :
    o ∈ b.orders ↔ ∃ h, o ∈ b.half h := by
  constructor
  · intro ho
    rcases List.mem_append.mp ho with ho | ho
    · exact ⟨.buy, ho⟩
    · exact ⟨.sell, ho⟩
  · rintro ⟨_ | _, ho⟩
    · exact List.mem_append_left _ ho
    · exact List.mem_append_right _ ho

/-! ### The public methods -/

/-- What a method leaves: the book, the callbacks, and the exception it threw. -/
structure Outcome where
  book : PriorityBook
  calls : List Callback
  thrown : Option LadderError

/-- What entering an order leaves, with the rest of its quantity. -/
structure Entered extends Outcome where
  remaining : UInt32

/-- The matching of an order against the other side. -/
def matching (b : PriorityBook) (symbol : UInt32) (o : RestingOrder) : Matching :=
  matchList symbol o.orderId o.side o.price (b.half o.side.bookSide.opposite) o.quantity

/-- The book after that matching. -/
def matched (b : PriorityBook) (symbol : UInt32) (o : RestingOrder) : PriorityBook :=
  b.setHalf o.side.bookSide.opposite (b.matching symbol o).book

/-- What is left of an order after its matching, as it rests. -/
def leftover (b : PriorityBook) (symbol : UInt32) (o : RestingOrder) : RestingOrder :=
  { o with
    quantity := (b.matching symbol o).remaining
    filledQuantity := o.quantity - (b.matching symbol o).remaining }

/-- The announcement of an order, unless it is an IOC order. -/
def announced (b : PriorityBook) (symbol : UInt32) (notify : Bool) (o : RestingOrder) :
    List Callback :=
  if notify && !isIoc o.flags then
    [.onNewOrder o.orderId symbol o.side (b.matching symbol o).remaining o.price o.flags] else []

/-- **Entering an order** of the quantity `o.quantity`: it trades against the other side, and what
is left of it rests unless it is an IOC order. -/
def enter (b : PriorityBook) (symbol : UInt32) (notify : Bool) (o : RestingOrder) : Entered :=
  let m := b.matching symbol o
  if m.remaining > 0 && isIoc o.flags then
    ⟨⟨b.matched symbol o, m.calls ++ if notify then [.onDeleteOrder o.orderId false] else [],
      none⟩, m.remaining⟩
  else if m.remaining = 0 then
    ⟨⟨b.matched symbol o, m.calls ++ b.announced symbol notify o, none⟩, m.remaining⟩
  else if ((b.matched symbol o).find? o.orderId).isSome then
    ⟨⟨b.matched symbol o, m.calls ++ b.announced symbol notify o, some .orderAlreadyExists⟩,
      m.remaining⟩
  else
    ⟨⟨(b.matched symbol o).rest (b.leftover symbol o), m.calls ++ b.announced symbol notify o,
      none⟩, m.remaining⟩

/-- The effect of `new_order`. -/
def newOrder (b : PriorityBook) (symbol : UInt32) (orderId : UInt64) (side : Side)
    (quantity : UInt32) (price : Int32) (flags : UInt8) : Outcome :=
  if quantity > 0 then
    (b.enter symbol true ⟨orderId, quantity, 0, price, side, flags⟩).toOutcome
  else ⟨b, [], some .filledQuantityExceedsQuantity⟩

/-- The effect of `delete_order`. -/
def deleteOrder (b : PriorityBook) (orderId : UInt64) : Outcome :=
  if (b.find? orderId).isSome then ⟨b.remove orderId, [.onDeleteOrder orderId true], none⟩
  else ⟨b, [.onCancelReject orderId], none⟩

/-- The effect of `modify_order` on an order that changes its price or side. -/
def reenter (b : PriorityBook) (symbol : UInt32) (o : RestingOrder) (side : Side)
    (quantity : UInt32) (price : Int32) : Outcome :=
  let e := (b.remove o.orderId).enter symbol false (o.moved side quantity price)
  if e.thrown.isSome then e.toOutcome
  else
    { e.toOutcome with
      calls := e.calls ++
        [if e.remaining > 0 then .onModifyOrder o.orderId symbol side e.remaining price
          else .onDeleteOrder o.orderId true] }

/-- The effect of `modify_order`. -/
def modifyOrder (b : PriorityBook) (symbol : UInt32) (orderId : UInt64) (side : Side)
    (quantity : UInt32) (price : Int32) : Outcome :=
  match b.find? orderId with
  | none => ⟨b, [.onCancelReject orderId], none⟩
  | some o =>
    if o.filledQuantity ≥ quantity then b.deleteOrder orderId
    else if o.price = price ∧ o.side = side then
      ⟨b.setQuantity orderId quantity,
        [.onModifyOrder orderId symbol side (quantity - o.filledQuantity) price], none⟩
    else b.reenter symbol o side quantity price

end PriorityBook

/-- A call of a public method of the ladder. -/
inductive LadderOp
  | newOrder (orderId : UInt64) (side : Side) (quantity : UInt32) (price : Int32) (flags : UInt8)
  | deleteOrder (orderId : UInt64)
  | modifyOrder (orderId : UInt64) (side : Side) (quantity : UInt32) (price : Int32)
deriving DecidableEq, Repr

namespace LadderOp

/-- The id a call is about. -/
def orderId : LadderOp → UInt64
  | newOrder orderId .. => orderId
  | deleteOrder orderId => orderId
  | modifyOrder orderId .. => orderId

/-- The call enters a new order under the id. -/
def Enters (op : LadderOp) (e : UInt64) : Prop :=
  ∃ side quantity price flags, op = newOrder e side quantity price flags

/-- The side byte of the call, if it has one, is `BUY` or `SELL`. -/
def TwoSided : LadderOp → Prop
  | newOrder _ side _ _ _ => side = Side.buy ∨ side = Side.sell
  | deleteOrder _ => True
  | modifyOrder _ side _ _ => side = Side.buy ∨ side = Side.sell

instance : DecidablePred TwoSided
  | newOrder _ side _ _ _ => inferInstanceAs (Decidable (side = Side.buy ∨ side = Side.sell))
  | deleteOrder _ => instDecidableTrue
  | modifyOrder _ side _ _ => inferInstanceAs (Decidable (side = Side.buy ∨ side = Side.sell))

/-- A new order has quantity. -/
def Positive : LadderOp → Prop
  | newOrder _ _ quantity _ _ => 0 < quantity
  | _ => True

end LadderOp

/-- The effect of a call on the book. -/
def PriorityBook.step (b : PriorityBook) (symbol : UInt32) : LadderOp → PriorityBook.Outcome
  | .newOrder orderId side quantity price flags =>
    b.newOrder symbol orderId side quantity price flags
  | .deleteOrder orderId => b.deleteOrder orderId
  | .modifyOrder orderId side quantity price => b.modifyOrder symbol orderId side quantity price

end Ndfex
