import Ndfex.MatchingEngine.LadderRefinement

/-!
# Calls of `new_order` that throw

`handle_new_order` looks for the id of the incoming order after the order has traded and has been
announced, so the exception comes too late to be clean. What it leaves depends on what came before
it: the trades, if a price crosses, and the announcement, if one is wanted.

## Main definitions

* `OrderLadder.Crosses`: the best level of the other side is within the limit of an order

## Main results

* `OrderLadder.Represents.newOrder_atomic_iff`: when a call that throws has done nothing
-/

namespace Ndfex

open Containers Transition

/-! ## Matching that does nothing -/

section Matching

variable {symbol : UInt32} {incomingId : UInt64} {side : Side} {price : Int32}

/-- An order with quantity trades unless there is no order in front of it or that one is beyond
its limit. -/
theorem matchList_calls_eq_nil {os : List RestingOrder} {quantity : UInt32} (hq : quantity ≠ 0) :
    (matchList symbol incomingId side price os quantity).calls = [] ↔
      ∀ o ∈ os.head?, OrderLadder.beyondLimit side o.price price := by
  cases os with
  | nil => simp
  | cons o os =>
    by_cases hbeyond : OrderLadder.beyondLimit side o.price price
    · simp [matchList_beyond hbeyond, hbeyond]
    · -- a trade is three callbacks, whichever of the two orders it uses up
      by_cases hle : o.quantity ≤ quantity
      · simp [matchList_full hq hbeyond hle, tradeCalls, hbeyond]
      · simp [matchList_partly hq hbeyond hle, tradeCalls, hbeyond]

/-- Without a trade the side and the quantity stay as they are. -/
theorem matchList_of_beyond {os : List RestingOrder}
    (h : ∀ o ∈ os.head?, OrderLadder.beyondLimit side o.price price) (quantity : UInt32) :
    matchList symbol incomingId side price os quantity = ⟨quantity, [], os⟩ := by
  cases os with
  | nil => rfl
  | cons o os => exact matchList_beyond (h o rfl) os quantity

end Matching

/-! ## Entering an order that throws -/

namespace PriorityBook

variable {b : PriorityBook} {symbol : UInt32} {notify : Bool} {o : RestingOrder}

/-- Putting a side back changes nothing. -/
@[simp] theorem setHalf_half (b : PriorityBook) (h : BookSide) : b.setHalf h (b.half h) = b := by
  cases h <;> rfl

/-- What an exception says of the order that met it: it is not an IOC order, an order of its id
rests, and all that matching and the announcement reported has been reported. -/
theorem enter_thrown {e : LadderError} (h : (b.enter symbol notify o).thrown = some e) :
    e = .orderAlreadyExists ∧ isIoc o.flags = false ∧
      ((b.matched symbol o).find? o.orderId).isSome ∧
        (b.enter symbol notify o).calls =
          (b.matching symbol o).calls ++ b.announced symbol notify o := by
  unfold enter at h ⊢
  dsimp only at h ⊢
  by_cases hioc : (decide ((b.matching symbol o).remaining > 0) && isIoc o.flags) = true
  · rw [if_pos hioc] at h
    cases h
  rw [if_neg hioc] at h ⊢
  by_cases hzero : (b.matching symbol o).remaining = 0
  · rw [if_pos hzero] at h
    cases h
  rw [if_neg hzero] at h ⊢
  by_cases hfound : ((b.matched symbol o).find? o.orderId).isSome = true
  · rw [if_pos hfound] at h ⊢
    cases h
    have hpos : (b.matching symbol o).remaining > 0 := UInt32.pos_iff_ne_zero.mpr hzero
    refine ⟨rfl, ?_, hfound, rfl⟩
    simpa [hpos] using hioc
  · rw [if_neg hfound] at h
    cases h

end PriorityBook

namespace OrderLadder

variable {L : OrderLadder} {b : PriorityBook}

/-- The best level of the other side is within the limit of an order: the order trades. -/
def Crosses (L : OrderLadder) (side : Side) (price : Int32) : Prop :=
  ∃ e ∈ (L.levels side.bookSide.opposite).begin?, ¬ beyondLimit side e.1 price

/-- The ladder crosses an order when the first order of the other side is within its limit. -/
theorem Represents.crosses_iff (hL : L.Represents b) {side : Side} {price : Int32} :
    L.Crosses side price ↔
      ¬ ∀ o ∈ (b.half side.bookSide.opposite).head?, beyondLimit side o.price price := by
  obtain ⟨q, hq, rfl⟩ := hL
  rw [half_bookOf, Crosses]
  set h := side.bookSide.opposite
  cases hbegin : (L.levels h).begin? with
  | none =>
    have hnil : L.sideOrders q h = [] := by
      rw [sideOrders, OrderedMap.keys_eq_nil.mpr hbegin]
      rfl
    simp [hnil]
  | some e =>
    obtain ⟨p, lvl⟩ := e
    obtain ⟨ps, hkeys⟩ := OrderedMap.keys_eq_cons hbegin
    -- the first level has a first order, which is of the level's price
    obtain ⟨s, rest, hqueue⟩ := List.exists_cons_of_ne_nil (hq.nonempty h p (by simp [hkeys]))
    have hprice : (L.order s).resting.price = p := (hq.filed h p s (by simp [hqueue])).1
    have hhead : (L.sideOrders q h).head? = some (L.order s).resting := by
      rw [sideOrders, hkeys, List.flatMap_cons, queueOrders, hqueue]
      rfl
    simp [hhead, hprice]

/-- `match` leaves the ladder alone when nothing crosses. -/
theorem yields_matchOrder_of_not_crosses {side : Side} {price : Int32}
    (h : ¬ L.Crosses side price) (orderId : UInt64) (quantity : UInt32) :
    Yields (matchOrder side.bookSide.opposite orderId side quantity price) L (.ok quantity) []
      (· = L) := by
  unfold matchOrder
  refine Yields.current_bind ?_
  rw [matchLevels]
  refine Yields.current_bind ?_
  cases hbegin : (L.levels side.bookSide.opposite).begin? with
  | none => exact Yields.pure rfl
  | some e =>
    have hbeyond : beyondLimit side e.1 price := by
      by_contra hcross
      exact h ⟨e, hbegin, hcross⟩
    dsimp only
    by_cases hzero : quantity = 0
    · rw [if_pos hzero]
      exact Yields.pure rfl
    · rw [if_neg hzero, if_pos hbeyond]
      exact Yields.pure rfl

/-- A silent call that does not cross meets the order of its id before it has done anything. -/
theorem yields_handleNewOrder_silent {orderId : UInt64} {side : Side}
    {quantity filledQuantity : UInt32} {price : Int32} {flags : UInt8} {h : BookSide}
    (hq : quantity > filledQuantity) (hcross : ¬ L.Crosses side price)
    (hioc : isIoc flags = false) (hfound : (L.orders.lookup orderId).isSome) :
    Yields (handleNewOrder orderId side quantity price flags h false filledQuantity) L
      (.error .orderAlreadyExists) [] (· = L) := by
  have hmatch := yields_matchOrder_of_not_crosses hcross orderId (quantity - filledQuantity)
  have hne : ¬ quantity - filledQuantity = 0 := by
    rw [← UInt32.toNat_inj, UInt32.toNat_sub_of_le _ _ (UInt32.le_of_lt hq)]
    have := UInt32.lt_iff_toNat_lt.mp hq
    simp only [UInt32.toNat_zero]
    omega
  unfold handleNewOrder
  simp only [if_pos hq, hioc, Bool.false_and, Bool.and_false, Bool.false_eq_true, if_false]
  by_cases hbuy : side = Side.buy
  all_goals
    simp only [Side.bookSide, hbuy, if_true, if_false, BookSide.opposite] at hmatch ⊢
    refine Yields.bind_nil hmatch ?_
    rintro _ rfl
    rw [if_neg hne]
    refine Yields.current_bind ?_
    rw [if_pos hfound]
    exact Yields.bind_error (Yields.throw rfl)

/-- `new_order` works on the level map of its side. -/
theorem newOrder_eq (orderId : UInt64) (side : Side) (quantity : UInt32) (price : Int32)
    (flags : UInt8) (notify : Bool) (filledQuantity : UInt32) :
    newOrder orderId side quantity price flags notify filledQuantity =
      discard (handleNewOrder orderId side quantity price flags side.bookSide notify
        filledQuantity) := by
  unfold newOrder
  rw [Side.bookSide]
  split_ifs <;> rfl

/-- What a call of `new_order` that enters an order does, with or without an announcement. -/
theorem Represents.newOrder_enters (hL : L.Represents b) {quantity filledQuantity : UInt32}
    (hq : quantity > filledQuantity) (orderId : UInt64) (side : Side) (price : Int32)
    (flags : UInt8) (notify : Bool) :
    let e := b.enter L.symbol notify ⟨orderId, quantity - filledQuantity, 0, price, side, flags⟩
    Yields (OrderLadder.newOrder orderId side quantity price flags notify filledQuantity) L
      (ending e.thrown ()) e.calls (Leaves L.symbol e.book) := by
  rw [newOrder_eq]
  have henter := hL.handleNewOrder
    (o := ⟨orderId, quantity - filledQuantity, 0, price, side, flags⟩) hq rfl notify
  generalize b.enter L.symbol notify ⟨orderId, quantity - filledQuantity, 0, price, side, flags⟩
    = e at henter ⊢
  dsimp only at henter ⊢
  cases hthrown : e.thrown with
  | some err =>
    rw [hthrown] at henter
    exact henter.discard_error
  | none =>
    rw [hthrown] at henter
    exact henter.discard

/-- **When a failing `new_order` is atomic**: a call that throws leaves the ladder as it was and
has reported nothing exactly when its quantity does not exceed the filled one, or it makes no
announcement and does not cross. -/
theorem Represents.newOrder_atomic_iff (hL : L.Represents b) {orderId : UInt64} {side : Side}
    {quantity : UInt32} {price : Int32} {flags : UInt8} {notify : Bool} {filledQuantity : UInt32}
    {e : LadderError} {r : Running OrderLadder Callback}
    (hthrown : OrderLadder.newOrder orderId side quantity price flags notify filledQuantity
      ⟨L, []⟩ = .error e r) :
    r.state = L ∧ r.calls = [] ↔
      quantity ≤ filledQuantity ∨ notify = false ∧ ¬ L.Crosses side price := by
  by_cases hq : quantity > filledQuantity
  · set o : RestingOrder := ⟨orderId, quantity - filledQuantity, 0, price, side, flags⟩
    obtain ⟨L', hrun, -⟩ := (hL.newOrder_enters hq orderId side price flags notify).run
    rw [hthrown] at hrun
    -- the exception is the one of the order that rests under the id
    obtain ⟨err, herr⟩ : ∃ err, (b.enter L.symbol notify o).thrown = some err := by
      cases h : (b.enter L.symbol notify o).thrown with
      | some err => exact ⟨err, rfl⟩
      | none => simp [o, h, ending, finish] at hrun
    obtain ⟨rfl, hioc, hfound, hcalls⟩ := PriorityBook.enter_thrown herr
    simp only [o, herr, ending, finish, EStateM.Result.error.injEq] at hrun
    obtain ⟨-, rfl⟩ := hrun
    have hpos : o.quantity ≠ 0 := by
      intro hzero
      have := UInt32.lt_iff_toNat_lt.mp hq
      have hsub := UInt32.toNat_sub_of_le _ _ (UInt32.le_of_lt hq)
      rw [show quantity - filledQuantity = 0 from hzero] at hsub
      simp only [UInt32.toNat_zero] at hsub
      omega
    have hmatch : (b.matching L.symbol o).calls = [] ↔ ¬ L.Crosses side price := by
      rw [hL.crosses_iff, not_not]
      exact matchList_calls_eq_nil hpos
    have hle : ¬ quantity ≤ filledQuantity := UInt32.not_le.mpr hq
    simp only [hle, false_or]
    constructor
    · rintro ⟨-, hnil⟩
      have hnil' := hcalls.symm.trans hnil
      obtain ⟨hnone, hsilent⟩ := List.append_eq_nil_iff.mp hnil'
      refine ⟨?_, hmatch.mp hnone⟩
      -- an announcement would have been made: the order is not an IOC order
      cases notify with
      | false => rfl
      | true => simp [PriorityBook.announced, hioc] at hsilent
    · rintro ⟨rfl, hcross⟩
      have hbook : b.matched L.symbol o = b := by
        rw [hL.crosses_iff, not_not] at hcross
        rw [PriorityBook.matched, PriorityBook.matching, matchList_of_beyond hcross]
        exact PriorityBook.setHalf_half _ _
      rw [hbook, hL.find?_eq, Option.isSome_map] at hfound
      have hsilent := (yields_handleNewOrder_silent (h := side.bookSide) hq hcross hioc
        hfound).discard_error
      rw [← newOrder_eq] at hsilent
      obtain ⟨L'', hrun, rfl⟩ := hsilent.run
      rw [hthrown] at hrun
      simp only [finish, EStateM.Result.error.injEq] at hrun
      exact ⟨congrArg Running.state hrun.2, congrArg Running.calls hrun.2⟩
  · -- the call throws before it does anything
    have hstart : Yields (OrderLadder.newOrder orderId side quantity price flags notify
        filledQuantity) L (.error .filledQuantityExceedsQuantity) [] (· = L) := by
      rw [newOrder_eq]
      refine Yields.discard_error ?_
      unfold OrderLadder.handleNewOrder
      simp only [if_neg hq]
      exact Yields.bind_error (Yields.throw rfl)
    obtain ⟨L', hrun, rfl⟩ := hstart.run
    rw [hthrown] at hrun
    simp only [finish, EStateM.Result.error.injEq] at hrun
    obtain ⟨-, rfl⟩ := hrun
    simp [UInt32.not_lt.mp hq]

/-- A call without quantity on a new ladder. -/
theorem newOrder_atomic_iff_zero :
    ∃ e r, OrderLadder.newOrder 1 Side.buy 0 100 0 true 0 ⟨empty 1, []⟩ = .error e r ∧
      (r.state = empty 1 ∧ r.calls = [] ↔
        (0 : UInt32) ≤ 0 ∨ true = false ∧ ¬ (empty 1).Crosses Side.buy 100) := by
  have hthrown : OrderLadder.newOrder 1 Side.buy 0 100 0 true 0 ⟨empty 1, []⟩ =
      .error .filledQuantityExceedsQuantity ⟨empty 1, []⟩ := rfl
  exact ⟨_, _, hthrown, (represents_empty 1).newOrder_atomic_iff hthrown⟩

/-- A second order under the id of a resting bid takes an ask of 5 and is announced before it is
rejected. -/
theorem newOrder_not_atomic :
    ¬ ∀ (L : OrderLadder) (b : PriorityBook), L.Represents b →
      ∀ orderId side quantity price flags e r,
        OrderLadder.newOrder orderId side quantity price flags true 0 ⟨L, []⟩ = .error e r →
          r.state = L ∧ r.calls = [] := by
  intro h
  have hstart : (empty 1).symbol = 1 := rfl
  obtain ⟨-, -, hask, hsymbol⟩ := (represents_empty 1).step (.newOrder 1 Side.sell 5 100 0)
  obtain ⟨-, -, hbid, hsymbol'⟩ := hask.step (.newOrder 2 Side.buy 10 99 0)
  simp only [hsymbol, hstart] at hbid hsymbol'
  have hpos : (10 : UInt32) > 0 := by decide
  obtain ⟨L', hrun, -⟩ := (hbid.newOrder_enters hpos 2 Side.buy 100 0 true).run
  simp only [hsymbol'] at hrun
  have hnil := (h _ _ hbid _ _ _ _ _ _ _ hrun).2
  dsimp only at hnil
  clear * - hnil
  revert hnil
  decide

end OrderLadder

end Ndfex
