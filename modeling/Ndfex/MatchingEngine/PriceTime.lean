import Ndfex.Containers.Greedy
import Ndfex.MatchingEngine.Acknowledgements

/-!
# Price-time priority

What a new order does to a ladder, against the orders of the other side that its price crosses, best
price first and in their order at one price: the greedy allocation of its quantity over them. What is
left of it rests behind the orders of its price.

## Main definitions

* `Crosses`: a price crosses a limit
* `RestingOrder.size`, `RestingOrder.reduced`: what an order has, and what is left of it

## Main results

* `OrderLadder.Represents.unique`: a ladder represents one book
* `matchList_greedy`: matching is the greedy allocation
* `price_time_priority`: a new order
-/

namespace Ndfex

open Containers

/-! ## The book of a ladder -/

/-- The links thread one list from a first address on. -/
theorem threaded_unique {A : Type*} {next prev : A → Option A} {before before' : Option A}
    {xs ys : List A} (hx : Threaded next prev before xs none) (hy : Threaded next prev before' ys none)
    (hhead : xs.head? = ys.head?) : xs = ys := by
  induction xs generalizing before before' ys with
  | nil => exact (List.head?_eq_none_iff.mp hhead.symm).symm
  | cons x xs ih =>
    cases ys with
    | nil => cases hhead
    | cons y ys =>
      obtain rfl := Option.some.inj hhead
      obtain ⟨-, hnext, hxs⟩ := hx
      obtain ⟨-, hnext', hys⟩ := hy
      rw [Option.or_none] at hnext hnext'
      rw [ih hxs hys (hnext.symm.trans hnext')]

/-- **A ladder represents one book.** -/
theorem OrderLadder.Represents.unique {L : OrderLadder} {b b' : PriorityBook} (h : L.Represents b)
    (h' : L.Represents b') : b = b' := by
  obtain ⟨q, hq, rfl⟩ := h
  obtain ⟨q', hq', rfl⟩ := h'
  have hqueue : ∀ s, ∀ p ∈ (L.levels s).keys, q s p = q' s p := by
    intro s p hp
    obtain ⟨lvl, hlvl⟩ := Option.isSome_iff_exists.mp (OrderedMap.find?_isSome.mpr hp)
    refine threaded_unique (hq.threaded s p) (hq'.threaded s p) ?_
    rw [← (hq.level s p lvl hlvl).1, (hq'.level s p lvl hlvl).1]
  refine PriorityBook.ext_half fun s => ?_
  rw [OrderLadder.half_bookOf, OrderLadder.half_bookOf]
  refine List.flatMap_congr fun p hp => ?_
  rw [OrderLadder.queueOrders, OrderLadder.queueOrders, hqueue s p hp]

/-- The ladder and its book after some calls. -/
theorem OrderLadder.Represents.foldl {L : OrderLadder} {b : PriorityBook} (h : L.Represents b)
    (ops : List LadderOp) : (ops.foldl (fun L op => (L.step op).ladder) L).Represents
      (ops.foldl (fun b op => (b.step L.symbol op).book) b) := by
  induction ops generalizing L b with
  | nil => exact h
  | cons op ops ih =>
    obtain ⟨-, -, hrep, hsymbol⟩ := h.step op
    have hrest := ih hrep
    rwa [hsymbol] at hrest

/-! ## Matching is greedy -/

/-- An order that is taken in part. -/
def RestingOrder.reduced (n : ℕ) (o : RestingOrder) : RestingOrder :=
  { o with
    filledQuantity := o.filledQuantity + UInt32.ofNat n
    quantity := o.quantity - UInt32.ofNat n }

/-- The quantity of an order at rest. -/
def RestingOrder.size (o : RestingOrder) : ℕ := o.quantity.toNat

section Matching

variable {symbol : UInt32} {incomingId : UInt64} {side : Side} {price : Int32}

/-- **Matching against orders that all cross** is the greedy allocation over them. -/
theorem matchList_greedy {os : List RestingOrder}
    (hcross : ∀ o ∈ os, ¬ OrderLadder.beyondLimit side o.price price) (quantity : UInt32) :
    let m := matchList symbol incomingId side price os quantity
    m.calls.filterMap Callback.queuedTrade =
        (Greedy.allocation RestingOrder.size quantity.toNat os).map
          (fun x => ⟨x.1.orderId, UInt32.ofNat x.2, x.1.price⟩) ∧
      m.book = Greedy.leftover RestingOrder.size RestingOrder.reduced quantity.toNat os ∧
      m.remaining.toNat = quantity.toNat - (os.map RestingOrder.size).sum := by
  induction os generalizing quantity with
  | nil => simp
  | cons o os ih =>
    have ho := hcross o List.mem_cons_self
    by_cases hq : quantity = 0
    · subst hq
      simp
    have hne : quantity.toNat ≠ 0 := fun h => hq (UInt32.toNat_inj.mp h)
    rw [Greedy.allocation_cons hne, List.map_cons, List.map_cons, List.sum_cons]
    by_cases hle : o.quantity ≤ quantity
    · -- the order is used up
      have hsize : o.size ≤ quantity.toNat := UInt32.le_iff_toNat_le.mp hle
      have hsub : (quantity - o.quantity).toNat = quantity.toNat - o.size :=
        UInt32.toNat_sub_of_le _ _ hle
      obtain ⟨hcalls, hbook, hremaining⟩ :=
        ih (fun o' ho' => hcross o' (List.mem_cons_of_mem _ ho')) (quantity - o.quantity)
      rw [hsub] at hcalls hbook hremaining
      rw [matchList_full hq ho hle, Greedy.leftover_cons_of_le hne hsize]
      refine ⟨?_, hbook, by rw [hremaining, Nat.sub_sub]⟩
      rw [List.filterMap_append, filterMap_tradeCalls, hcalls, Nat.min_eq_left hsize,
        RestingOrder.size, UInt32.ofNat_toNat]
      rfl
    · -- the order has more than is asked for, and keeps the rest
      have hsize : quantity.toNat < o.size := by
        rw [RestingOrder.size]
        exact Nat.lt_of_not_le fun h => hle (UInt32.le_iff_toNat_le.mpr h)
      have hzero : quantity.toNat - o.size = 0 := Nat.sub_eq_zero_of_le hsize.le
      rw [matchList_partly hq ho hle, Greedy.leftover_cons_of_lt hne hsize,
        Nat.min_eq_right hsize.le, hzero, Greedy.allocation_zero]
      refine ⟨?_, ?_, ?_⟩
      · rw [filterMap_tradeCalls, UInt32.ofNat_toNat]
        rfl
      · rw [RestingOrder.reduced, UInt32.ofNat_toNat]
      · rw [UInt32.toNat_zero]
        omega

end Matching

/-! ## A new order -/

/-- A price of the other side that crosses the limit `price`. -/
def Crosses (side : Side) (price p : Int32) : Prop :=
  if side = Side.buy then p ≤ price else price ≤ p

instance (side : Side) (price : Int32) : DecidablePred (Crosses side price) := fun p =>
  inferInstanceAs (Decidable (if side = Side.buy then p ≤ price else price ≤ p))

theorem crosses_iff {side : Side} (hside : side = Side.buy ∨ side = Side.sell) (price p : Int32) :
    Crosses side price p ↔ ¬ OrderLadder.beyondLimit side p price := by
  unfold Crosses OrderLadder.beyondLimit
  rcases hside with rfl | rfl
  · simp [Side.buy_ne_sell]
  · simp [Side.sell_ne_buy]

/-- A list in which `P` holds of everything before something it holds of. -/
theorem eq_filter_append_filter_not {α : Type*} {P : α → Prop} [DecidablePred P] {xs : List α}
    (h : xs.Pairwise fun x y => P y → P x) :
    xs = xs.filter (fun x => P x) ++ xs.filter fun x => ¬ P x := by
  induction xs with
  | nil => rfl
  | cons x xs ih =>
    obtain ⟨hfirst, hrest⟩ := List.pairwise_cons.mp h
    by_cases hx : P x
    · rw [List.filter_cons_of_pos (by simpa using hx), List.filter_cons_of_neg (by simpa using hx),
        List.cons_append, ← ih hrest]
    · have hnone : ∀ y ∈ xs, ¬ P y := fun y hy hyp => hx (hfirst y hy hyp)
      rw [List.filter_eq_nil_iff.mpr, List.filter_eq_self.mpr, List.nil_append]
      · intro y hy
        rcases List.mem_cons.mp hy with rfl | hy
        · simpa using hx
        · simpa using hnone y hy
      · intro y hy
        rcases List.mem_cons.mp hy with rfl | hy
        · simpa using hx
        · simpa using hnone y hy

/-- An order that is not worse than one it precedes. -/
theorem not_better_of_sorted {h : BookSide} {os : List RestingOrder} (price : Int32)
    (hsorted : os.Pairwise fun x y => ¬ h.better y.price x.price) :
    os.Pairwise fun x y => ¬ h.better price y.price → ¬ h.better price x.price := by
  refine hsorted.imp ?_
  intro x y hxy hy hx
  rcases trichotomous_of h.better price y.price with hlt | heq | hgt
  · exact hy hlt
  · exact hxy (heq ▸ hx)
  · exact hxy (trans_of h.better hgt hx)

/-- Resting an order puts it behind those of its price or better. -/
theorem orderedInsert_better {h : BookSide} {os : List RestingOrder} (o : RestingOrder)
    (hsorted : os.Pairwise fun x y => ¬ h.better y.price x.price) :
    os.orderedInsert (fun x y => h.better x.price y.price) o =
      os.filter (fun x => ¬ h.better o.price x.price) ++
        o :: os.filter fun x => h.better o.price x.price := by
  have hpairs := not_better_of_sorted o.price hsorted
  induction os with
  | nil => rfl
  | cons x xs ih =>
    rw [List.orderedInsert_cons]
    by_cases hx : h.better o.price x.price
    · -- the orders from here on are worse
      have hall : ∀ y ∈ xs, h.better o.price y.price := fun y hy => by
        by_contra hnot
        exact (List.pairwise_cons.mp hpairs).1 y hy hnot hx
      rw [if_pos hx, List.filter_eq_nil_iff.mpr, List.filter_eq_self.mpr,
        List.nil_append]
      · intro y hy
        rcases List.mem_cons.mp hy with rfl | hy
        · simpa using hx
        · simpa using hall y hy
      · intro y hy
        rcases List.mem_cons.mp hy with rfl | hy
        · simpa using hx
        · simpa using hall y hy
    · -- the first order has the same price or a better one
      rw [if_neg hx, ih (List.pairwise_cons.mp hsorted).2
        (List.pairwise_cons.mp hpairs).2, List.filter_cons_of_pos (by simpa using hx),
        List.filter_cons_of_neg (by simpa using hx), List.cons_append]

namespace PriorityBook

variable {b : PriorityBook} {symbol : UInt32} {o : RestingOrder}

/-- The orders that an order meets. -/
def crossed (b : PriorityBook) (o : RestingOrder) : List RestingOrder :=
  (b.half o.side.bookSide.opposite).filter fun x => Crosses o.side o.price x.price

/-- The orders of the other side that it does not meet. -/
def uncrossed (b : PriorityBook) (o : RestingOrder) : List RestingOrder :=
  (b.half o.side.bookSide.opposite).filter fun x => ¬ Crosses o.side o.price x.price

/-- The orders that it meets come first. -/
theorem Ordered.half_opposite (hb : b.Ordered) (hside : o.side = Side.buy ∨ o.side = Side.sell) :
    b.half o.side.bookSide.opposite = b.crossed o ++ b.uncrossed o := by
  refine eq_filter_append_filter_not ((hb.sorted _).imp fun hxy hy => ?_)
  rw [crosses_iff hside] at hy ⊢
  exact fun hx => hy (hx.of_not_better hxy)

/-- **The matching of an order** is the greedy allocation over the orders that it meets. -/
theorem Ordered.matching_greedy (hb : b.Ordered)
    (hside : o.side = Side.buy ∨ o.side = Side.sell) :
    (b.matching symbol o).calls.filterMap Callback.queuedTrade =
        (Greedy.allocation RestingOrder.size o.size (b.crossed o)).map
          (fun x => ⟨x.1.orderId, UInt32.ofNat x.2, x.1.price⟩) ∧
      (b.matching symbol o).book =
        Greedy.leftover RestingOrder.size RestingOrder.reduced o.size (b.crossed o) ++
          b.uncrossed o ∧
      (b.matching symbol o).remaining.toNat =
        o.size - ((b.crossed o).map RestingOrder.size).sum := by
  have hcross : ∀ x ∈ b.crossed o, ¬ OrderLadder.beyondLimit o.side x.price o.price := fun x hx => by
    rw [← crosses_iff hside]
    simpa using (List.mem_filter.mp hx).2
  obtain ⟨hcalls, hbook, hremaining⟩ :=
    @matchList_greedy symbol o.orderId _ _ _ hcross o.quantity
  -- matching stops before the first order that it does not meet
  have hstop : ∀ q, matchList symbol o.orderId o.side o.price (b.uncrossed o) q =
      ⟨q, [], b.uncrossed o⟩ := by
    intro q
    cases hothers : b.uncrossed o with
    | nil => rfl
    | cons x xs =>
      have hx : x ∈ b.uncrossed o := by
        rw [hothers]
        exact List.mem_cons_self
      have hnot : ¬ Crosses o.side o.price x.price := by simpa using (List.mem_filter.mp hx).2
      rw [crosses_iff hside, not_not] at hnot
      exact matchList_beyond hnot xs q
  -- so it does to the orders of the side what it does to those that it meets
  have hmatching : b.matching symbol o =
      { matchList symbol o.orderId o.side o.price (b.crossed o) o.quantity with
        book := (matchList symbol o.orderId o.side o.price (b.crossed o) o.quantity).book ++
          b.uncrossed o } := by
    rw [matching, hb.half_opposite hside, matchList_append]
    dsimp only
    split_ifs with hempty
    · rw [hstop, hempty, List.append_nil, List.nil_append]
    · rfl
  rw [hmatching]
  exact ⟨hcalls, by rw [hbook]; rfl, hremaining⟩

theorem half_rest (b : PriorityBook) (o : RestingOrder) :
    (b.rest o).half o.side.bookSide = (b.half o.side.bookSide).orderedInsert
      (fun x y => o.side.bookSide.better x.price y.price) o := half_setHalf ..

theorem half_rest_of_ne (b : PriorityBook) (o : RestingOrder) {h : BookSide}
    (hne : h ≠ o.side.bookSide) : (b.rest o).half h = b.half h := half_setHalf_of_ne b hne _

/-- What is left of an order after the orders that it meets. -/
def rest? (b : PriorityBook) (o : RestingOrder) : Option RestingOrder :=
  let rest := o.size - ((b.crossed o).map RestingOrder.size).sum
  if rest = 0 ∨ isIoc o.flags = true then none
  else some { o with
    quantity := UInt32.ofNat rest
    filledQuantity := o.quantity - UInt32.ofNat rest }

/-- **Entering an order** under a fresh id. -/
theorem Ordered.enter_greedy (hb : b.Ordered) (hside : o.side = Side.buy ∨ o.side = Side.sell)
    (hfresh : b.find? o.orderId = none) {e : Entered} (he : Entering b symbol true o e) :
    e.thrown = none ∧
      e.calls.filterMap Callback.queuedTrade =
        (Greedy.allocation RestingOrder.size o.size (b.crossed o)).map
          (fun x => ⟨x.1.orderId, UInt32.ofNat x.2, x.1.price⟩) ∧
      e.book.half o.side.bookSide.opposite =
        Greedy.leftover RestingOrder.size RestingOrder.reduced o.size (b.crossed o) ++
          b.uncrossed o ∧
      e.book.half o.side.bookSide =
        (b.half o.side.bookSide).filter (fun x => ¬ o.side.bookSide.better o.price x.price) ++
          (b.rest? o).toList ++
            (b.half o.side.bookSide).filter fun x => o.side.bookSide.better o.price x.price := by
  obtain ⟨hcalls, hbook, hremaining⟩ := @Ordered.matching_greedy b symbol o hb hside
  have hopposite : o.side.bookSide ≠ o.side.bookSide.opposite := by
    cases o.side.bookSide <;> simp [BookSide.opposite]
  have hmatched : (b.matched symbol o).half o.side.bookSide.opposite =
        Greedy.leftover RestingOrder.size RestingOrder.reduced o.size (b.crossed o) ++
          b.uncrossed o ∧
      (b.matched symbol o).half o.side.bookSide = b.half o.side.bookSide := by
    unfold matched
    rw [half_setHalf, half_setHalf_of_ne b hopposite]
    exact ⟨hbook, rfl⟩
  -- no order comes to rest
  have hsame : b.half o.side.bookSide =
      (b.half o.side.bookSide).filter (fun x => ¬ o.side.bookSide.better o.price x.price) ++
        (b.half o.side.bookSide).filter fun x => o.side.bookSide.better o.price x.price := by
    have hsplit := eq_filter_append_filter_not
      (P := fun x : RestingOrder => ¬ o.side.bookSide.better o.price x.price)
      (not_better_of_sorted o.price (hb.sorted o.side.bookSide))
    simpa using hsplit
  have hzero : (b.matching symbol o).remaining = 0 ↔
      o.size - ((b.crossed o).map RestingOrder.size).sum = 0 := by
    rw [← hremaining]
    exact UInt32.toNat_inj.symm
  have hsilent : ∀ cs : List Callback, cs.filterMap Callback.queuedTrade = [] →
      ((b.matching symbol o).calls ++ cs).filterMap Callback.queuedTrade = _ := fun cs hcs => by
    rw [List.filterMap_append, hcs, List.append_nil, hcalls]
  have hannounced : (b.announced symbol true o).filterMap Callback.queuedTrade = [] := by
    unfold announced
    split_ifs <;> rfl
  cases he with
  | dropped hleft hioc =>
    refine ⟨rfl, hsilent _ rfl, hmatched.1, hmatched.2.trans ?_⟩
    rw [rest?, if_pos (Or.inr hioc), Option.toList_none, List.append_nil]
    exact hsame
  | filled hleft =>
    refine ⟨rfl, hsilent _ hannounced, hmatched.1, hmatched.2.trans ?_⟩
    rw [rest?, if_pos (Or.inl (hzero.mp hleft)), Option.toList_none, List.append_nil]
    exact hsame
  | duplicate hleft hioc hfound => exact absurd (find?_matched_eq_none hfresh symbol o) hfound
  | rested hleft hioc hfound =>
    have hrest : b.rest? o = some (b.leftover symbol o) := by
      rw [rest?, if_neg (not_or.mpr ⟨fun h => hleft (hzero.mpr h), by simp [hioc]⟩), leftover,
        ← hremaining, UInt32.ofNat_toNat]
    refine ⟨rfl, hsilent _ hannounced, ?_, ?_⟩
    · exact ((b.matched symbol o).half_rest_of_ne (b.leftover symbol o) (Ne.symm hopposite)).trans
        hmatched.1
    · have hinsert := orderedInsert_better (b.leftover symbol o) (hb.sorted o.side.bookSide)
      have hhalf := (b.matched symbol o).half_rest (b.leftover symbol o)
      rw [show (b.leftover symbol o).side = o.side from rfl, hmatched.2] at hhalf
      rw [hrest, Option.toList_some, List.append_assoc, List.singleton_append]
      exact hhalf.trans hinsert

end PriorityBook

/-- **Price-time priority**: a new order trades with the orders that its price crosses, best price first
and in their order at one price, each to the smaller of its quantity and what the earlier ones left.
What is left of the orders stands where they stood, and what is left of the new one behind the orders
of its price or better. -/
theorem price_time_priority {L : OrderLadder} {b : PriorityBook} (hL : L.Represents b)
    {orderId : UInt64} {side : Side} {quantity : UInt32} {price : Int32} {flags : UInt8}
    (hfresh : b.find? orderId = none) (hside : side = Side.buy ∨ side = Side.sell)
    (hquantity : 0 < quantity) :
    let o : RestingOrder := ⟨orderId, quantity, 0, price, side, flags⟩
    let r := L.step (.newOrder orderId side quantity price flags)
    b.half side.bookSide.opposite = b.crossed o ++ b.uncrossed o ∧ r.thrown = none ∧
      (∀ i, (r.calls.filterMap Callback.queuedTrade)[i]? =
        if Greedy.demand RestingOrder.size quantity.toNat (b.crossed o) i = 0 then none
        else (b.crossed o)[i]?.map fun x => ⟨x.orderId, UInt32.ofNat
          (min x.size (Greedy.demand RestingOrder.size quantity.toNat (b.crossed o) i)), x.price⟩) ∧
      ∃ b', r.ladder.Represents b' ∧
        b'.half side.bookSide.opposite =
          Greedy.leftover RestingOrder.size RestingOrder.reduced quantity.toNat (b.crossed o) ++
            b.uncrossed o ∧
        b'.half side.bookSide =
          (b.half side.bookSide).filter (fun x => ¬ side.bookSide.better price x.price) ++
            (b.rest? o).toList ++
              (b.half side.bookSide).filter fun x => side.bookSide.better price x.price := by
  intro o r
  obtain ⟨hcalls, hthrown, hrep, -⟩ := hL.step (.newOrder orderId side quantity price flags)
  have hb := hL.ordered
  have hstep : b.step L.symbol (.newOrder orderId side quantity price flags) =
      (b.enter L.symbol true o).toOutcome := by
    rw [PriorityBook.step, PriorityBook.newOrder, if_pos hquantity]
  obtain ⟨hnone, htrades, hopposite, hown⟩ :=
    hb.enter_greedy hside hfresh (PriorityBook.entering b L.symbol true o)
  rw [hstep] at hcalls hthrown hrep
  refine ⟨hb.half_opposite (o := o) hside, hthrown.trans hnone, fun i => ?_, _, hrep, hopposite, hown⟩
  change ((L.step (.newOrder orderId side quantity price flags)).calls.filterMap
    Callback.queuedTrade)[i]? = _
  have hsize : o.size = quantity.toNat := rfl
  rw [hcalls, htrades, List.getElem?_map, Greedy.getElem?_allocation, hsize]
  split_ifs with hdemand
  · rfl
  · rw [Option.map_map]
    rfl

/-- An order takes all of one order and a part of the next, and leaves one beyond its price. -/
theorem price_time_priority_swept :
    let L := [LadderOp.newOrder 1 Side.sell 4 50 0, .newOrder 2 Side.sell 5 51 0,
      .newOrder 3 Side.sell 6 52 0].foldl (fun L op => (L.step op).ladder) (OrderLadder.empty 7)
    ∃ b', (L.step (.newOrder 4 Side.buy 7 51 0)).ladder.Represents b' ∧
      b'.half .sell = [⟨2, 2, 3, 51, Side.sell, 0⟩, ⟨3, 6, 0, 52, Side.sell, 0⟩] ∧
        b'.half .buy = [] := by
  intro L
  have hL : L.Represents _ := (OrderLadder.represents_empty 7).foldl _
  have hswept := @price_time_priority _ _ hL 4 Side.buy 7 51 0 (by decide +kernel) (Or.inl rfl)
    (by decide)
  obtain ⟨-, -, -, b', hb', hopposite, hown⟩ := hswept
  refine ⟨b', hb', hopposite.trans (by decide +kernel), hown.trans (by decide +kernel)⟩

end Ndfex
