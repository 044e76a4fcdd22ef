import Ndfex.Bots.LevelTotals
import Ndfex.Transition.Run

/-!
# The best prices of a bot's book

The methods of a book change the order under the id that they are called with, and no other one. Over any
calls of them each level is the total of the live orders at its price, and the first level is the best
price among the live orders of its side.

## Main definitions

* `Bots.BookCall`, `Bots.BookStep`: the calls of the methods, and those whose level sums fit
* `Bots.BookCall.effect`, `Bots.BookCall.effects`: what calls do to an order
* `Bots.OrderBook.getBestBid`, `Bots.OrderBook.getBestAsk`: the quotes of a book
* `Bots.MDClient.getBestBid`, `Bots.MDClient.getBestAsk`: the quotes of a symbol

## Main results

* `Bots.OrderBook.lookup_after`: the orders after a call
* `levels_aggregate`: the orders, the levels and the best prices after any calls
-/

namespace Ndfex

open Containers Transition

namespace Bots

/-- A call of a method of `OrderBook`. -/
inductive BookCall
  | newOrder (orderId : UInt64) (side : Side) (quantity : UInt32) (price : Int32)
  | deleteOrder (orderId : UInt64)
  | modifyOrder (orderId : UInt64) (side : Side) (quantity : UInt32) (price : Int32)
  | orderTrade (orderId : UInt64) (quantity : UInt32)
deriving DecidableEq, Repr

/-- The id that a method is called with. -/
def BookCall.orderId : BookCall → UInt64
  | .newOrder orderId .. | .deleteOrder orderId | .modifyOrder orderId .. | .orderTrade orderId _ =>
    orderId

/-- What a method does to the order under this id. -/
def BookCall.effect : BookCall → Option Order → Option Order
  | .newOrder _ side quantity price, o => some (o.getD ⟨side, price, quantity⟩)
  | .deleteOrder _, _ => none
  | .modifyOrder _ side quantity price, o => o.map fun _ => ⟨side, price, quantity⟩
  | .orderTrade _ quantity, o => o.bind (OrderBook.reduce quantity)

/-- What calls do to the order under an id. -/
def BookCall.effects (calls : List BookCall) (orderId : UInt64) (o : Option Order) : Option Order :=
  calls.foldl (fun o call => if orderId = call.orderId then call.effect o else o) o

theorem BookCall.effects_snoc (calls : List BookCall) (call : BookCall) (orderId : UInt64)
    (o : Option Order) : effects (calls ++ [call]) orderId o =
      if orderId = call.orderId then call.effect (effects calls orderId o)
      else effects calls orderId o := by
  rw [effects, List.foldl_append]
  rfl

/-- `OrderBook::PriceLevel`. -/
structure OrderBook.PriceLevel where
  price : Int32
  quantity : UInt32
deriving DecidableEq, Repr

namespace OrderBook

/-- The book after a call. -/
def after (b : OrderBook) : BookCall → OrderBook
  | .newOrder orderId side quantity price => b.newOrder orderId side quantity price
  | .deleteOrder orderId => b.deleteOrder orderId
  | .modifyOrder orderId side quantity price => b.modifyOrder orderId side quantity price
  | .orderTrade orderId quantity => b.orderTrade orderId quantity

/-- **The orders after a call.** -/
theorem lookup_after (b : OrderBook) (call : BookCall) (e : UInt64) :
    (b.after call).orders.lookup e =
      if e = call.orderId then call.effect (b.orders.lookup call.orderId)
      else b.orders.lookup e := by
  cases call with
  | newOrder orderId side quantity price => exact b.lookup_newOrder orderId e side quantity price
  | deleteOrder orderId => exact b.lookup_deleteOrder orderId e
  | modifyOrder orderId side quantity price =>
    exact b.lookup_modifyOrder orderId e side quantity price
  | orderTrade orderId quantity => exact b.lookup_orderTrade orderId e quantity

/-- A new order has a fresh id, no order is given the quantity zero, and the level that an order comes
to has a sum of 32 bits. -/
def Admits (b : OrderBook) : BookCall → Prop
  | .newOrder orderId side quantity price => b.orders.lookup orderId = none ∧ quantity ≠ 0 ∧
    (b.newOrder orderId side quantity price).atLevel side.bookSide price < 2 ^ 32
  | .modifyOrder orderId side quantity price => quantity ≠ 0 ∧
    (b.modifyOrder orderId side quantity price).atLevel side.bookSide price < 2 ^ 32
  | .deleteOrder _ | .orderTrade .. => True

instance (b : OrderBook) : DecidablePred b.Admits
  | .newOrder .. => inferInstanceAs (Decidable (_ ∧ _ ∧ _))
  | .modifyOrder .. => inferInstanceAs (Decidable (_ ∧ _))
  | .deleteOrder _ | .orderTrade .. => inferInstanceAs (Decidable True)

/-- The first level of a side, or `{0, 0}`. -/
def best (b : OrderBook) (h : BookSide) : PriceLevel :=
  match (b.levels h).begin? with
  | none => ⟨0, 0⟩
  | some (price, quantity) => ⟨price, quantity⟩

/-- `OrderBook::get_best_bid`. -/
def getBestBid (b : OrderBook) : PriceLevel := b.best .buy

/-- `OrderBook::get_best_ask`. -/
def getBestAsk (b : OrderBook) : PriceLevel := b.best .sell

/-- A live order of a side at a price. -/
def Live (b : OrderBook) (h : BookSide) (price : Int32) : Prop :=
  ∃ e o, b.orders.lookup e = some o ∧ o.side.bookSide = h ∧ o.price = price

/-- The levels of a book are the totals of its orders, and no order is empty. -/
structure Counted (b : OrderBook) : Prop where
  tallied : b.Tallied
  quantity : ∀ e o, b.orders.lookup e = some o → o.quantity ≠ 0

variable {b : OrderBook} {h : BookSide} {price : Int32}

namespace Counted

theorem start : empty.Counted := ⟨tallied_empty, fun _ _ h => by cases h⟩

/-- **Every call** keeps the levels. -/
theorem after (hb : b.Counted) {call : BookCall} (hcall : b.Admits call) :
    (b.after call).Counted := by
  cases call with
  | newOrder orderId side quantity price =>
    obtain ⟨hnew, hq, hfits⟩ := hcall
    refine ⟨hb.tallied.newOrder hq hnew hfits, fun e o ho => ?_⟩
    rw [OrderBook.after, lookup_newOrder, hnew, Option.getD_none] at ho
    -- only the entered order is new, and it has a quantity
    split_ifs at ho with he
    · rwa [← Option.some.inj ho]
    · exact hb.quantity e o ho
  | deleteOrder orderId =>
    refine ⟨hb.tallied.deleteOrder orderId, fun e o ho => ?_⟩
    rw [OrderBook.after, lookup_deleteOrder] at ho
    split_ifs at ho
    exact hb.quantity e o ho
  | modifyOrder orderId side quantity price =>
    obtain ⟨hq, hfits⟩ := hcall
    refine ⟨hb.tallied.modifyOrder hq hfits, fun e o ho => ?_⟩
    rw [OrderBook.after, lookup_modifyOrder] at ho
    split_ifs at ho
    · obtain ⟨_, -, rfl⟩ := Option.map_eq_some_iff.mp ho
      exact hq
    · exact hb.quantity e o ho
  | orderTrade orderId quantity =>
    refine ⟨hb.tallied.orderTrade orderId quantity, fun e o ho => ?_⟩
    rw [OrderBook.after, lookup_orderTrade] at ho
    split_ifs at ho
    · obtain ⟨o', ho', hreduced⟩ := Option.bind_eq_some_iff.mp ho
      -- an order that is used up is erased, so that one that stays has a quantity
      unfold reduce at hreduced
      split_ifs at hreduced with hless hused
      · rw [← Option.some.inj hreduced]
        exact hb.quantity _ o' ho'
      · rwa [← Option.some.inj hreduced]
    · exact hb.quantity e o ho

/-- A level is there exactly if some live order has its price. -/
theorem level_isSome (hb : b.Counted) : (b.level h price).isSome ↔ b.Live h price := by
  have hzero : b.atLevel h price = 0 ↔ ¬ b.Live h price := by
    rw [atLevel, AList.total_eq_zero]
    refine ⟨fun hall hlive => ?_, fun hnot e o ho => ?_⟩
    · obtain ⟨e, o, ho, hside, hprice⟩ := hlive
      have hweight := hall e o ho
      rw [Order.weight, if_pos ⟨hside, hprice⟩] at hweight
      exact hb.quantity e o ho (UInt32.toNat_inj.mp hweight)
    · exact if_neg fun hboth => hnot ⟨e, o, ho, hboth⟩
  rw [(hb.tallied h price).2, levelOf]
  split_ifs with hnone
  · simpa using hzero.mp hnone
  · simpa using not_not.mp fun hnot => hnone (hzero.mpr hnot)

/-- A level is the sum of the quantities of the live orders at its price. -/
theorem toNat_level (hb : b.Counted) {quantity : UInt32} (hlevel : b.level h price = some quantity) :
    quantity.toNat = b.atLevel h price := by
  have hsum := levelOf_getD (hb.tallied h price).1
  rwa [← (hb.tallied h price).2, hlevel, Option.getD_some] at hsum

/-- **The first level** of a side. -/
theorem best (hb : b.Counted) (h : BookSide) :
    (b.best h = ⟨0, 0⟩ ∧ ∀ price, ¬ b.Live h price) ∨
      (b.Live h (b.best h).price ∧
        (∀ price, b.Live h price → price ≠ (b.best h).price → h.better (b.best h).price price) ∧
          (b.best h).quantity.toNat = b.atLevel h (b.best h).price) := by
  unfold OrderBook.best
  cases hbegin : (b.levels h).begin? with
  | none =>
    refine Or.inl ⟨rfl, fun price hlive => ?_⟩
    have hkeys := OrderedMap.keys_eq_nil.mpr hbegin
    have hmem := OrderedMap.find?_isSome.mp (hb.level_isSome.mpr hlive)
    rw [hkeys] at hmem
    exact List.not_mem_nil hmem
  | some entry =>
    obtain ⟨price, quantity⟩ := entry
    have hlevel : b.level h price = some quantity := OrderedMap.find?_begin? hbegin
    refine Or.inr ⟨hb.level_isSome.mp (by rw [hlevel]; rfl), fun price' hlive hne => ?_,
      hb.toNat_level hlevel⟩
    obtain ⟨keys, hkeys⟩ := OrderedMap.keys_eq_cons hbegin
    have hmem := OrderedMap.find?_isSome.mp (hb.level_isSome.mpr hlive)
    have hsorted := (b.levels h).keys_sorted
    rw [hkeys] at hmem hsorted
    have hrest := (List.mem_cons.mp hmem).resolve_left hne
    exact (List.pairwise_cons.mp hsorted).1 price' hrest

end Counted

end OrderBook

namespace MDClient

/-- The first level of a side of the book of a symbol, if there is a book. -/
def best (c : MDClient) (h : BookSide) (symbol : UInt32) : OrderBook.PriceLevel :=
  match c.symbolToOrderBook.lookup symbol with
  | none => ⟨0, 0⟩
  | some b => b.best h

/-- `MDClient::get_best_bid`. -/
def getBestBid (c : MDClient) (symbol : UInt32) : OrderBook.PriceLevel := c.best .buy symbol

/-- `MDClient::get_best_ask`. -/
def getBestAsk (c : MDClient) (symbol : UInt32) : OrderBook.PriceLevel := c.best .sell symbol

/-- A symbol without a book has an empty one. -/
theorem best_eq (c : MDClient) (h : BookSide) (symbol : UInt32) :
    c.best h symbol = (c.book symbol).best h := by
  unfold best book
  cases c.symbolToOrderBook.lookup symbol with
  | none => cases h <;> rfl
  | some b => rfl

end MDClient

/-- The calls that a book admits. -/
def BookStep (b : OrderBook) (call : BookCall) (b' : OrderBook) : Prop :=
  b.Admits call ∧ b' = b.after call

end Bots

open Bots

/-- **The orders after calls**: the live orders are those that the calls leave. -/
theorem Bots.OrderBook.lookup_of_run {calls : List BookCall} {b b' : OrderBook}
    (hrun : Run BookStep b calls b') (e : UInt64) :
    b'.orders.lookup e = BookCall.effects calls e (b.orders.lookup e) := by
  induction hrun with
  | nil => rfl
  | @snoc _ _ _ call _ step ih =>
    obtain ⟨-, rfl⟩ := step
    rw [OrderBook.lookup_after, BookCall.effects_snoc, ← ih]
    by_cases he : e = call.orderId
    · rw [if_pos he, if_pos he, he]
    · rw [if_neg he, if_neg he]

/-- **The levels aggregate the orders**: after any calls the live orders are those that the calls leave,
each level is the sum of the live orders at its price, and the best bid and ask are the first prices of
the live orders with these sums. -/
theorem levels_aggregate {calls : List BookCall} {b : OrderBook}
    (hrun : Run BookStep OrderBook.empty calls b) :
    (∀ e, b.orders.lookup e = BookCall.effects calls e none) ∧
    (∀ h price, ((b.level h price).isSome ↔ b.Live h price) ∧
      ∀ quantity, b.level h price = some quantity → quantity.toNat = b.atLevel h price) ∧
    ((b.getBestBid = ⟨0, 0⟩ ∧ ∀ price, ¬ b.Live .buy price) ∨
      (b.Live .buy b.getBestBid.price ∧ (∀ price, b.Live .buy price → price ≤ b.getBestBid.price) ∧
        b.getBestBid.quantity.toNat = b.atLevel .buy b.getBestBid.price)) ∧
    ((b.getBestAsk = ⟨0, 0⟩ ∧ ∀ price, ¬ b.Live .sell price) ∨
      (b.Live .sell b.getBestAsk.price ∧ (∀ price, b.Live .sell price → b.getBestAsk.price ≤ price) ∧
        b.getBestAsk.quantity.toNat = b.atLevel .sell b.getBestAsk.price)) := by
  have hb : b.Counted := by
    refine hrun.invariant (I := OrderBook.Counted) ?_ .start
    rintro b call b' hb ⟨hcall, rfl⟩
    exact hb.after hcall
  refine ⟨OrderBook.lookup_of_run hrun,
    fun h price => ⟨hb.level_isSome, fun quantity hlevel => hb.toNat_level hlevel⟩, ?_, ?_⟩
  · refine (hb.best .buy).imp id fun ⟨hlive, hfirst, hsum⟩ => ⟨hlive, fun price hprice => ?_, hsum⟩
    by_cases hne : price = b.getBestBid.price
    · exact hne ▸ Int32.le_refl _
    · exact Int32.le_of_lt (hfirst price hprice hne)
  · refine (hb.best .sell).imp id fun ⟨hlive, hfirst, hsum⟩ => ⟨hlive, fun price hprice => ?_, hsum⟩
    by_cases hne : price = b.getBestAsk.price
    · exact hne ▸ Int32.le_refl _
    · exact Int32.le_of_lt (hfirst price hprice hne)

/-- Of three orders two stand at one price; a part of one is traded and the third is deleted. -/
theorem levels_aggregate_traded :
    let b := [.newOrder 1 Side.buy 10 50, .newOrder 2 Side.buy 5 50, .newOrder 3 Side.buy 1 60,
      .modifyOrder 9 Side.sell 1 60, .orderTrade 1 4, .deleteOrder 3].foldl OrderBook.after
        OrderBook.empty
    b.orders.lookup 1 = some ⟨Side.buy, 50, 6⟩ ∧ b.orders.lookup 3 = none ∧
      11 = b.atLevel .buy 50 ∧ ¬ b.Live .buy 60 := by
  intro b
  have hrun : Run BookStep OrderBook.empty _ b := Run.of_foldl (by decide +kernel)
  obtain ⟨horders, hlevels, -⟩ := levels_aggregate hrun
  refine ⟨(horders 1).trans (by decide), (horders 3).trans (by decide),
    (hlevels .buy 50).2 11 (by decide +kernel), fun hlive => ?_⟩
  have hlevel := (hlevels .buy 60).1.mpr hlive
  revert hlevel
  decide +kernel

end Ndfex
