import Ndfex.Exchange.Agreement

/-!
# Limit prices

The validator admits every side byte, the ladder handles each byte but `BUY` as a sell, and the price
test of the matching loop knows `BUY` and `SELL` only. An order with another byte sells to any bid.

## Main definitions

* `MatchingEngineBroker.LimitKept`: the trades of a request's call are within its limit price
* `MatchingEngineBroker.KeepsLimit`: the side is `BUY` or `SELL`, or no bid below the limit is met

## Main results

* `PriorityBook.within_step`: the limit is kept exactly if `KeepsLimit` holds
* `limit_kept`: so for every request that the engine takes
* `sold_below_limit`: a sell with another side byte trades below its limit
-/

namespace Ndfex

open Containers Transition

/-- A price is no worse than the limit, for the side that the ladder handles an order on. -/
def Side.Within (side : Side) (limit price : Int32) : Prop :=
  if side = Side.buy then price ≤ limit else limit ≤ price

instance (side : Side) (limit price : Int32) : Decidable (side.Within limit price) :=
  inferInstanceAs (Decidable (if side = Side.buy then price ≤ limit else limit ≤ price))

/-- The price test of the matching loop suffices for `BUY` and `SELL`. -/
theorem Side.within_of_two {side : Side} {limit price : Int32}
    (htwo : side = Side.buy ∨ side = Side.sell)
    (hlimit : ¬ OrderLadder.beyondLimit side price limit) : side.Within limit price := by
  unfold OrderLadder.beyondLimit at hlimit
  unfold Side.Within
  rcases htwo with rfl | rfl
  · rw [if_pos rfl]
    exact Int32.not_lt.mp fun h => hlimit (Or.inl ⟨rfl, h⟩)
  · rw [if_neg Side.sell_ne_buy]
    exact Int32.not_lt.mp fun h => hlimit (Or.inr ⟨rfl, h⟩)

/-- No bid is below the limit, or those that are not suffice for the quantity. -/
def Absorbed (bids : List RestingOrder) (limit : Int32) (quantity : ℕ) : Prop :=
  (∀ o ∈ bids, limit ≤ o.price) ∨
    quantity ≤ ((bids.filter fun o => limit ≤ o.price).map fun o => o.quantity.toNat).sum

theorem absorbed_perm {bids bids' : List RestingOrder} (h : bids.Perm bids') (limit : Int32)
    (quantity : ℕ) : Absorbed bids limit quantity ↔ Absorbed bids' limit quantity := by
  unfold Absorbed
  rw [((h.filter _).map _).sum_eq]
  simp only [h.mem_iff]

/-- A bid that is not below the limit takes its part of the quantity. -/
theorem absorbed_cons_of_le {o : RestingOrder} {limit : Int32} (ho : limit ≤ o.price)
    (os : List RestingOrder) (quantity : ℕ) :
    Absorbed (o :: os) limit quantity ↔ Absorbed os limit (quantity - o.quantity.toNat) := by
  unfold Absorbed
  rw [List.filter_cons_of_pos (by simpa using ho), List.map_cons, List.sum_cons,
    List.forall_mem_cons]
  refine or_congr (and_iff_right ho) ?_
  omega

/-- If the best bid is below the limit then every bid is, and only no quantity is absorbed. -/
theorem absorbed_cons_of_lt {o : RestingOrder} {limit : Int32} (ho : ¬ limit ≤ o.price)
    {os : List RestingOrder} (hsorted : (o :: os).Pairwise fun x y => ¬ y.price > x.price)
    (quantity : ℕ) : Absorbed (o :: os) limit quantity ↔ quantity = 0 := by
  have hnone : (o :: os).filter (fun o => limit ≤ o.price) = [] := by
    rw [List.filter_eq_nil_iff]
    intro x hx hle
    rcases List.mem_cons.mp hx with rfl | hx
    · exact ho (of_decide_eq_true hle)
    · have hbest := Int32.not_lt.mp ((List.pairwise_cons.mp hsorted).1 x hx)
      exact ho (Int32.le_trans (of_decide_eq_true hle) hbest)
  unfold Absorbed
  rw [hnone, List.forall_mem_cons]
  simp [ho]

section Matching

variable {symbol : UInt32} {incomingId : UInt64} {side : Side} {limit : Int32}

/-- **Without the price test** the trades keep the limit exactly if the bids absorb the quantity. -/
theorem within_matchList (hside : side ≠ Side.buy ∧ side ≠ Side.sell) {os : List RestingOrder}
    (hsorted : os.Pairwise fun x y => ¬ y.price > x.price) (quantity : UInt32) :
    (∀ t ∈ (matchList symbol incomingId side limit os quantity).calls.filterMap
        Callback.queuedTrade, limit ≤ t.price) ↔ Absorbed os limit quantity.toNat := by
  -- neither of the two price tests is made for such a side
  have hany : ∀ price, ¬ OrderLadder.beyondLimit side price limit := by
    rintro price (⟨hbuy, -⟩ | ⟨hsell, -⟩)
    · exact hside.1 hbuy
    · exact hside.2 hsell
  fun_induction matchList symbol incomingId side limit os quantity with
  | case1 quantity => simp [Absorbed]
  | case2 o os quantity hstop =>
    have hzero : quantity = 0 := hstop.resolve_right (hany _)
    simp [Absorbed, hzero]
  | case3 o os quantity hstop hle m ih =>
    have ih := ih (List.pairwise_cons.mp hsorted).2
    simp only [m] at ih ⊢
    rw [List.filterMap_append, filterMap_tradeCalls, List.singleton_append, List.forall_mem_cons]
    refine (and_congr_right fun _ => ih).trans ?_
    by_cases ho : limit ≤ o.price
    · rw [absorbed_cons_of_le ho, UInt32.toNat_sub_of_le _ _ hle]
      exact and_iff_right ho
    · -- something is sold to the bid
      rw [absorbed_cons_of_lt ho hsorted]
      refine iff_of_false (fun h => ho h.1) fun hzero => hstop (Or.inl ?_)
      exact UInt32.toNat_inj.mp hzero
  | case4 o os quantity hstop hle =>
    rw [filterMap_tradeCalls, List.forall_mem_singleton]
    by_cases ho : limit ≤ o.price
    · have hlt : quantity.toNat - o.quantity.toNat = 0 := by
        rw [UInt32.le_iff_toNat_le] at hle
        omega
      rw [absorbed_cons_of_le ho, hlt]
      exact iff_of_true ho (Or.inr (Nat.zero_le _))
    · rw [absorbed_cons_of_lt ho hsorted]
      refine iff_of_false ho fun hzero => hstop (Or.inl ?_)
      exact UInt32.toNat_inj.mp hzero

end Matching

namespace PriorityBook

variable {b : PriorityBook} {symbol : UInt32}

/-- The quantity that a call brings to the matching loop. -/
def toMatch (b : PriorityBook) : LadderOp → ℕ
  | .newOrder _ _ quantity _ _ => quantity.toNat
  | .deleteOrder _ => 0
  | .modifyOrder orderId side quantity price =>
    match b.find? orderId with
    | none => 0
    | some o =>
      if o.filledQuantity < quantity ∧ ¬ (o.price = price ∧ o.side = side) then
        quantity.toNat - o.filledQuantity.toNat
      else 0

/-- The call has a side that the price test knows, or the bids absorb what it sells. -/
def KeepsLimit (b : PriorityBook) (op : LadderOp) : Prop :=
  op.side = Side.buy ∨ op.side = Side.sell ∨
    Absorbed (b.remove op.orderId).buys op.price (b.toMatch op)

/-- The trades that entering an order makes. -/
theorem queuedTrade_entering {notify : Bool} {o : RestingOrder} {r : Entered}
    (he : Entering b symbol notify o r) :
    r.calls.filterMap Callback.queuedTrade =
      (b.matching symbol o).calls.filterMap Callback.queuedTrade := by
  have hannounced : (b.announced symbol notify o).filterMap Callback.queuedTrade = [] := by
    unfold announced
    split_ifs <;> rfl
  cases he with
  | dropped hleft hioc =>
    have htail : (if notify then [Callback.onDeleteOrder o.orderId false] else []).filterMap
        Callback.queuedTrade = [] := by cases notify <;> rfl
    rw [List.filterMap_append, htail, List.append_nil]
  | filled hleft => rw [List.filterMap_append, hannounced, List.append_nil]
  | duplicate hleft hioc hfound => rw [List.filterMap_append, hannounced, List.append_nil]
  | rested hleft hioc hfound => rw [List.filterMap_append, hannounced, List.append_nil]

/-- Entering an order with another side byte keeps the limit exactly if the bids absorb it. -/
theorem within_entering (hb : b.Ordered) {notify : Bool} {o : RestingOrder} {r : Entered}
    (he : Entering b symbol notify o r) (hside : o.side ≠ Side.buy ∧ o.side ≠ Side.sell) :
    (∀ t ∈ r.calls.filterMap Callback.queuedTrade, o.price ≤ t.price) ↔
      Absorbed b.buys o.price o.quantity.toNat := by
  have hhalf : b.half o.side.bookSide.opposite = b.buys := by
    rw [Side.bookSide, if_neg hside.1]
    rfl
  rw [queuedTrade_entering he, matching, hhalf]
  exact within_matchList hside (hb.sorted .buy) o.quantity

/-- **The limit is kept** exactly if `KeepsLimit` holds. -/
theorem within_step (hb : b.Ordered) {op : LadderOp}
    (hnew : op.Enters op.orderId → b.find? op.orderId = none) :
    (∀ t ∈ (b.step symbol op).calls.filterMap Callback.queuedTrade,
        op.side.Within op.price t.price) ↔ b.KeepsLimit op := by
  by_cases htwo : op.side = Side.buy ∨ op.side = Side.sell
  · refine iff_of_true (fun t ht => ?_) (htwo.elim Or.inl fun h => Or.inr (Or.inl h))
    obtain ⟨o, -, -, -, hlimit, -⟩ := MatchingEngineBroker.order_of_queuedTrade ht
    exact Side.within_of_two htwo hlimit
  rw [not_or] at htwo
  have hwithin : ∀ price, op.side.Within op.price price ↔ op.price ≤ price := by
    intro price
    rw [Side.Within, if_neg htwo.1]
  have hkeeps : b.KeepsLimit op ↔
      Absorbed (b.remove op.orderId).buys op.price (b.toMatch op) := by
    simp [KeepsLimit, htwo]
  simp only [hwithin]
  rw [hkeeps]
  have hstep := stepping b symbol op
  generalize b.step symbol op = r at hstep ⊢
  -- a call that matches nothing keeps the limit
  have hidle : ∀ cs : List Callback, cs.filterMap Callback.queuedTrade = [] → b.toMatch op = 0 →
      ((∀ t ∈ cs.filterMap Callback.queuedTrade, op.price ≤ t.price) ↔
        Absorbed (b.remove op.orderId).buys op.price (b.toMatch op)) := by
    intro cs hcs hzero
    rw [hcs, hzero]
    exact iff_of_true (by simp) (Or.inr (Nat.zero_le _))
  cases hstep with
  | refused => exact hidle [] rfl rfl
  | @entered orderId side quantity price flags r hq he =>
    have hnone : b.find? orderId = none := hnew ⟨_, _, _, _, rfl⟩
    have hremove : (b.remove orderId).buys = b.buys := by
      refine List.filter_eq_self.mpr fun o ho => decide_eq_true ?_
      exact find?_eq_none.mp hnone o (mem_orders.mpr ⟨.buy, ho⟩)
    have hentering := within_entering hb he htwo
    simp only [LadderOp.orderId, LadderOp.price, toMatch, hremove]
    exact hentering
  | deleted hfound => exact hidle _ rfl rfl
  | @unknown op orderId hop hfound =>
    refine hidle _ rfl ?_
    rcases hop with rfl | ⟨side, quantity, price, rfl⟩
    · rfl
    · simp [toMatch, hfound]
  | @closed orderId side quantity price o hfound hfilled =>
    refine hidle _ rfl ?_
    simp [toMatch, hfound, UInt32.not_lt.mpr hfilled]
  | @requantified orderId side quantity price o hfound hfilled hplace =>
    refine hidle _ rfl ?_
    simp [toMatch, hfound, hplace]
  | @reentered orderId side quantity price o r hfound hfilled hplace he hthrown =>
    have hentering := within_entering (hb.remove orderId) he htwo
    have htail : ([if r.remaining > 0 then Callback.onModifyOrder orderId symbol side r.remaining
        price else .onDeleteOrder orderId true]).filterMap Callback.queuedTrade = [] := by
      split_ifs <;> rfl
    have hmatch : b.toMatch (.modifyOrder orderId side quantity price) =
        (o.moved side quantity price).quantity.toNat := by
      simp only [toMatch, hfound, if_pos (And.intro hfilled hplace)]
      exact (UInt32.toNat_sub_of_le _ _ (UInt32.le_of_lt hfilled)).symm
    rw [List.filterMap_append, htail, List.append_nil, hmatch]
    exact hentering

end PriorityBook

namespace MatchingEngineBroker

/-- A trade that a request's call makes is within the limit price of the request, and at the price of
the order at rest. -/
def TradeWithin (B : MatchingEngineBroker) (p : OePayload) : Callback → Prop
  | .onTrade e _ price => p.side.Within p.price.toInt32 price ∧
    ∀ x ∈ B.resting p.symbol e, x.price = price
  | _ => True

instance (B : MatchingEngineBroker) (p : OePayload) : DecidablePred (B.TradeWithin p)
  | .onTrade e _ price => inferInstanceAs (Decidable (p.side.Within p.price.toInt32 price ∧
      ∀ x ∈ B.resting p.symbol e, x.price = price))
  | .onNewOrder .. => instDecidableTrue
  | .onModifyOrder .. => instDecidableTrue
  | .onDeleteOrder .. => instDecidableTrue
  | .onCancelReject _ => instDecidableTrue
  | .onFill .. => instDecidableTrue

/-- Neither party to a trade of a request's call trades beyond its limit price. -/
def LimitKept (B : MatchingEngineBroker) (p : OePayload) : Prop :=
  ∀ L ∈ B.symbolToMatchingEngine.lookup p.symbol, ∀ op ∈ p.op, ∀ c ∈ (L.step op).calls,
    B.TradeWithin p c

instance (B : MatchingEngineBroker) (p : OePayload) : Decidable (B.LimitKept p) :=
  inferInstanceAs (Decidable (∀ L ∈ B.symbolToMatchingEngine.lookup p.symbol, ∀ op ∈ p.op,
    ∀ c ∈ (L.step op).calls, B.TradeWithin p c))

/-- The bids in the ladder of a request's symbol, its own order aside. -/
def bids (B : MatchingEngineBroker) (p : OePayload) : List RestingOrder :=
  ((B.restingOrders p.symbol).map Order.resting).filter fun o =>
    o.side = Side.buy ∧ o.orderId ≠ p.exchOrderId

/-- The quantity that a request brings to the matching loop. -/
def toMatch (B : MatchingEngineBroker) (p : OePayload) : ℕ :=
  match p.msgType with
  | .newOrder => p.quantity.toNat
  | .modifyOrder =>
    match B.resting p.symbol p.exchOrderId with
    | none => 0
    | some o =>
      if o.filledQuantity < p.quantity ∧ ¬ (o.price = p.price.toInt32 ∧ o.side = p.side) then
        p.quantity.toNat - o.filledQuantity.toNat
      else 0
  | _ => 0

/-- The request's side is `BUY` or `SELL`, or the bids absorb what it sells. -/
def KeepsLimit (B : MatchingEngineBroker) (p : OePayload) : Prop :=
  p.side = Side.buy ∨ p.side = Side.sell ∨ Absorbed (B.bids p) p.price.toInt32 (B.toMatch p)

variable {B : MatchingEngineBroker} {requests : List OePayload} {books : UInt32 → PriorityBook}
  {p : OePayload}

/-- The bids are those of the book without the request's order. -/
theorem Sound.bids_perm (hs : B.Sound requests books) :
    (B.bids p).Perm ((books p.symbol).remove p.exchOrderId).buys := by
  refine ((hs.restingOrders_perm p.symbol).filter _).trans ?_
  have hord := hs.ordered p.symbol
  have hbuys : (books p.symbol).buys.filter (fun o => o.side = Side.buy ∧
      o.orderId ≠ p.exchOrderId) = ((books p.symbol).remove p.exchOrderId).buys := by
    refine List.filter_congr fun o ho => ?_
    have hside := hord.sided .buy o ho
    have hbuy : o.side = Side.buy := by
      unfold Side.bookSide at hside
      split_ifs at hside with hbuy
      exact hbuy
    simp [hbuy]
  have hsells : (books p.symbol).sells.filter (fun o => o.side = Side.buy ∧
      o.orderId ≠ p.exchOrderId) = [] := by
    refine List.filter_eq_nil_iff.mpr fun o ho hkept => ?_
    have hside := hord.sided .sell o ho
    rw [Side.bookSide, if_pos (of_decide_eq_true hkept).1] at hside
    cases hside
  rw [PriorityBook.orders, List.filter_append, hbuys, hsells, List.append_nil]

/-- The price of the order at rest is the price of its trades. -/
theorem Sound.trade_price (hs : B.Sound requests books) {op : LadderOp} {t : QueuedTrade}
    (ht : t ∈ ((books p.symbol).step p.symbol op).calls.filterMap Callback.queuedTrade) :
    ∀ x ∈ B.resting p.symbol t.orderId, x.price = t.price := by
  obtain ⟨o, ho, hid, hprice, -⟩ := order_of_queuedTrade ht
  intro x hx
  have hfind := (hs.ordered p.symbol).find?_eq (PriorityBook.mem_orders.mpr ⟨_, ho⟩)
  rw [hid, ← hs.resting_eq, Option.mem_def.mp hx] at hfind
  rw [← hprice, ← Option.some.inj hfind]
  rfl

/-- **A request keeps the limit prices** exactly if `KeepsLimit` holds. -/
theorem Sound.limitKept_iff (hs : B.Sound requests books)
    (hfresh : (newIds (requests ++ [p])).Nodup) : B.LimitKept p ↔ B.KeepsLimit p := by
  have habsorbed : ∀ quantity, Absorbed (B.bids p) p.price.toInt32 quantity ↔
      Absorbed ((books p.symbol).remove p.exchOrderId).buys p.price.toInt32 quantity :=
    absorbed_perm hs.bids_perm _
  unfold LimitKept
  cases hL : B.symbolToMatchingEngine.lookup p.symbol with
  | none =>
    have hbids : B.bids p = [] := by simp [bids, restingOrders, hL]
    refine iff_of_true (by simp) (Or.inr (Or.inr (Or.inl ?_)))
    simp [hbids]
  | some L =>
    -- the ladder's trades are those of its book
    obtain ⟨hrep, hsymbol⟩ := hs.represents p.symbol L hL
    cases hop : p.op with
    | none =>
      have hzero : B.toMatch p = 0 := by
        unfold OePayload.op at hop
        unfold toMatch
        split at hop <;> simp_all
      refine iff_of_true (by simp) (Or.inr (Or.inr (Or.inr ?_)))
      rw [hzero]
      exact Nat.zero_le _
    | some op =>
      obtain ⟨hcalls, -, -, -⟩ := hrep.step op
      rw [hsymbol] at hcalls
      have hwithin : (∀ L' ∈ some L, ∀ op' ∈ some op, ∀ c ∈ (L'.step op').calls,
          B.TradeWithin p c) ↔ ∀ t ∈ ((books p.symbol).step p.symbol op).calls.filterMap
            Callback.queuedTrade, p.side.Within p.price.toInt32 t.price := by
        constructor
        · intro h t ht
          obtain ⟨c, hc, hqueued⟩ := List.mem_filterMap.mp ht
          have hc' := h L rfl op rfl c (hcalls ▸ hc)
          cases c with
          | onTrade e quantity price =>
            obtain rfl := Option.some.inj hqueued
            exact hc'.1
          | _ => cases hqueued
        · intro h L' hL' op' hop' c hc
          obtain rfl := Option.some.inj hL'
          obtain rfl := Option.some.inj hop'
          rw [hcalls] at hc
          cases c with
          | onTrade e quantity price =>
            have ht : ⟨e, quantity, price⟩ ∈ ((books p.symbol).step p.symbol op).calls.filterMap
                Callback.queuedTrade := List.mem_filterMap.mpr ⟨_, hc, rfl⟩
            exact ⟨h _ ht, hs.trade_price ht⟩
          | _ => trivial
      have hkeeps := @PriorityBook.within_step _ p.symbol (hs.ordered p.symbol) _
        (hs.find?_fresh hfresh hop p.symbol)
      rw [hwithin]
      unfold KeepsLimit
      rw [habsorbed]
      rcases OePayload.cases_of_op hop with ⟨hnew, rfl⟩ | ⟨hdelete, rfl⟩ | ⟨hmodify, rfl⟩
      · have hmatch : B.toMatch p = p.quantity.toNat := by simp [toMatch, hnew]
        rw [hmatch]
        exact hkeeps
      · -- a deletion makes no trade
        have htrades : ((books p.symbol).step p.symbol (.deleteOrder p.exchOrderId)).calls.filterMap
            Callback.queuedTrade = [] := by
          simp only [PriorityBook.step, PriorityBook.deleteOrder]
          split_ifs <;> rfl
        have hzero : B.toMatch p = 0 := by simp [toMatch, hdelete]
        rw [htrades, hzero]
        exact iff_of_true (by simp) (Or.inr (Or.inr (Or.inr (Nat.zero_le _))))
      · -- a modification matches what is not filled of the new quantity
        have hmatch : (books p.symbol).toMatch (.modifyOrder p.exchOrderId p.side p.quantity
            p.price.toInt32) = B.toMatch p := by
          simp only [PriorityBook.toMatch, toMatch, hmodify, ← hs.resting_eq]
          cases B.resting p.symbol p.exchOrderId <;> rfl
        rw [← hmatch]
        exact hkeeps

end MatchingEngineBroker

/-- **The limit prices are kept** by exactly those requests whose side is `BUY` or `SELL`, or whose
quantity the bids absorb that are not below the limit. -/
theorem limit_kept {symbols : List SymbolDefinition} {users : AList fun _ : List UInt8 => UserInfo}
    {ls : List ExchangeEvent} {s : Exchange}
    (h : Run ExchangeStep (Exchange.start symbols users) ls s) {p : OePayload}
    (hp : s.handler.toMatchingEngine.front? = some p) :
    s.broker.LimitKept p ↔ s.broker.KeepsLimit p := by
  obtain ⟨-, -, books, hagreed⟩ := Exchange.sound_run h
  exact hagreed.sound.limitKept_iff (hagreed.fresh hp)

/-- A sell with another side byte is absorbed by a bid at its limit. -/
theorem limit_kept_absorbed :
    ([.login 5 ⟨⟨1, 100, 0⟩, [97], [97]⟩ 7 .fine,
      .newOrder 5 ⟨⟨2, 100, 7⟩, 1, 1, Side.buy, 10, 50, 0⟩ 1000, .engineTurn,
      .newOrder 5 ⟨⟨3, 100, 7⟩, 2, 1, ⟨3⟩, 4, 50, 0⟩ 1001].foldl Exchange.after
        Exchange.startGold).broker.LimitKept
      ⟨.newOrder, 1001, 1, 3, 100, ⟨3⟩, 4, 50, 0⟩ := by
  refine (limit_kept (Exchange.run_of_enabled (by decide +kernel)) (by decide +kernel)).mpr ?_
  exact Or.inr (Or.inr (Or.inr (by decide +kernel)))

/-- The handler admits a new order with the side byte 3, a limit of 100 and a bid at 50 to meet; the
engine takes it, and sells at 50. -/
theorem sold_below_limit :
    ∃ s, Run ExchangeStep Exchange.startGold
        [.login 5 ⟨⟨1, 100, 0⟩, [97], [97]⟩ 7 .fine,
          .newOrder 5 ⟨⟨2, 100, 7⟩, 1, 1, Side.buy, 10, 50, 0⟩ 1000, .engineTurn,
          .newOrder 5 ⟨⟨3, 100, 7⟩, 2, 1, ⟨3⟩, 4, 100, 0⟩ 1001] s ∧
      ∃ p, s.handler.toMatchingEngine.front? = some p ∧ ¬ s.broker.LimitKept p :=
  ⟨_, Exchange.run_of_enabled (by decide +kernel),
    ⟨.newOrder, 1001, 1, 3, 100, ⟨3⟩, 4, 100, 0⟩, by decide +kernel, by decide +kernel⟩

end Ndfex
