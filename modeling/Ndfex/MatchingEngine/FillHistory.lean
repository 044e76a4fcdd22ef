import Ndfex.MatchingEngine.LadderRuns
import Ndfex.MatchingEngine.PriceTime

/-!
# The history of the fills

`filled_quantity` of a resting order against the fills that were reported under its id. Matching adds to it
what it takes of the order, in 32 bits. A modification that enters the order again sets it to what the
order trades on its way in, so what it had been filled before is lost if anything is left to rest.

## Main definitions

* `PriorityBook.met`: the orders that an incoming order can trade with
* `PartFits`: the order that a quantity takes in part can count it
* `PriorityBook.CountsFills`: what a call must meet so that no fill is lost
* `LadderRun.FillsCounted`: every resting order knows what was filled of it

## Main results

* `matchList_counted_iff`, `PriorityBook.counted_step_iff`: when matching, and a call, lose no fill
* `fillsCounted_iff`: when no ladder of a run has lost a fill
-/

namespace Ndfex

open Containers Transition

/-! ## Matching -/

/-- The order of a list that a quantity takes in part, if there is one, has room for it in its
`filled_quantity`. -/
def PartFits (os : List RestingOrder) (quantity : ℕ) : Prop :=
  ∀ i, ∀ o ∈ os[i]?,
    0 < Greedy.demand RestingOrder.size quantity os i →
      Greedy.demand RestingOrder.size quantity os i < o.size →
        o.filledQuantity.toNat + Greedy.demand RestingOrder.size quantity os i < 2 ^ 32

@[simp] theorem partFits_nil (quantity : ℕ) : PartFits [] quantity := by
  intro i o ho
  cases ho

@[simp] theorem partFits_zero (os : List RestingOrder) : PartFits os 0 := by
  intro i o _ hpos
  rw [Greedy.demand_zero_left] at hpos
  exact absurd hpos (Nat.lt_irrefl 0)

/-- A first order that is used up has nothing to count. -/
theorem partFits_cons_of_le {o : RestingOrder} {quantity : ℕ} (hle : o.size ≤ quantity)
    (os : List RestingOrder) : PartFits (o :: os) quantity ↔ PartFits os (quantity - o.size) := by
  constructor
  · intro h i o' ho'
    have hi := h (i + 1) o' ho'
    rwa [Greedy.demand_cons_succ] at hi
  · intro h i o' ho'
    cases i with
    | zero =>
      obtain rfl : o = o' := Option.some.inj ho'
      intro _ hlt
      rw [Greedy.demand_zero] at hlt
      omega
    | succ i =>
      rw [Greedy.demand_cons_succ]
      exact h i o' ho'

/-- A first order that is not used up counts all of the quantity. -/
theorem partFits_cons_of_lt {o : RestingOrder} {quantity : ℕ} (hpos : 0 < quantity)
    (hlt : quantity < o.size) (os : List RestingOrder) :
    PartFits (o :: os) quantity ↔ o.filledQuantity.toNat + quantity < 2 ^ 32 := by
  constructor
  · intro h
    have hfirst := h 0 o rfl
    rw [Greedy.demand_zero] at hfirst
    exact hfirst hpos hlt
  · intro h i o' ho'
    cases i with
    | zero =>
      obtain rfl : o = o' := Option.some.inj ho'
      rw [Greedy.demand_zero]
      exact fun _ _ => h
    | succ i =>
      -- there is no quantity left for the others
      rw [Greedy.demand_cons_succ, Nat.sub_eq_zero_of_le hlt.le, Greedy.demand_zero_left]
      exact fun hzero => absurd hzero (Nat.lt_irrefl 0)

section Matching

variable {symbol : UInt32} {incomingId : UInt64} {side : Side} {price : Int32}

/-- The orders of a list that come before the first one beyond the limit. -/
def withinLimit (side : Side) (price : Int32) (os : List RestingOrder) : List RestingOrder :=
  os.takeWhile fun o => ¬ OrderLadder.beyondLimit side o.price price

theorem withinLimit_cons_of_not {o : RestingOrder}
    (h : ¬ OrderLadder.beyondLimit side o.price price) (os : List RestingOrder) :
    withinLimit side price (o :: os) = o :: withinLimit side price os :=
  List.takeWhile_cons_of_pos (decide_eq_true h)

theorem withinLimit_cons_of_beyond {o : RestingOrder}
    (h : OrderLadder.beyondLimit side o.price price) (os : List RestingOrder) :
    withinLimit side price (o :: os) = [] :=
  List.takeWhile_cons_of_neg (by simpa using h)

/-- Matching leaves what the orders within the limit do not have. -/
theorem toNat_remaining_matchList (os : List RestingOrder) (quantity : UInt32) :
    (matchList symbol incomingId side price os quantity).remaining.toNat =
      quantity.toNat - ((withinLimit side price os).map RestingOrder.size).sum := by
  fun_induction matchList symbol incomingId side price os quantity with
  | case1 quantity => rfl
  | case2 o os quantity hstop =>
    rcases hstop with rfl | hbeyond
    · exact (Nat.zero_sub _).symm
    · rw [withinLimit_cons_of_beyond hbeyond]
      rfl
  | case3 o os quantity hstop hle m ih =>
    rw [withinLimit_cons_of_not (fun h => hstop (Or.inr h)), List.map_cons, List.sum_cons]
    rw [UInt32.toNat_sub_of_le _ _ hle] at ih
    exact ih.trans (Nat.sub_sub ..)
  | case4 o os quantity hstop hle =>
    have hlt := UInt32.lt_iff_toNat_lt.mp (UInt32.not_le.mp hle)
    rw [withinLimit_cons_of_not (fun h => hstop (Or.inr h)), List.map_cons, List.sum_cons,
      RestingOrder.size, UInt32.toNat_zero]
    omega

/-- The ids of the orders that matching leaves were there before. -/
theorem orderId_mem_of_mem_matchList {os : List RestingOrder} {quantity : UInt32}
    {o : RestingOrder} (ho : o ∈ (matchList symbol incomingId side price os quantity).book) :
    o.orderId ∈ os.map RestingOrder.orderId :=
  forall_matchList (P := fun o => o.orderId ∈ os.map RestingOrder.orderId) (fun _ _ _ h => h)
    (fun _ ho => List.mem_map_of_mem ho) quantity o ho

/-- **When matching loses no fill**: the orders that it leaves know what it filled of them exactly when the
one that it takes in part can count it. -/
theorem matchList_counted_iff (counted : UInt64 → ℕ) {os : List RestingOrder}
    (hids : (os.map RestingOrder.orderId).Nodup) (hnew : ∀ o ∈ os, o.orderId ≠ incomingId)
    (hcounted : ∀ o ∈ os, o.filledQuantity.toNat = counted o.orderId) (quantity : UInt32) :
    (∀ o ∈ (matchList symbol incomingId side price os quantity).book,
        o.filledQuantity.toNat = counted o.orderId +
          filled o.orderId (matchList symbol incomingId side price os quantity).calls) ↔
      PartFits (withinLimit side price os) quantity.toNat := by
  fun_induction matchList symbol incomingId side price os quantity with
  | case1 quantity => exact iff_of_true (by simp) (partFits_nil _)
  | case2 o os quantity hstop =>
    refine iff_of_true hcounted ?_
    rcases hstop with rfl | hbeyond
    · exact partFits_zero _
    · rw [withinLimit_cons_of_beyond hbeyond]
      exact partFits_nil _
  | case3 o os quantity hstop hle m ih =>
    obtain ⟨hnot, hids⟩ := List.nodup_cons.mp hids
    have ih := ih hids (fun o' ho' => hnew o' (List.mem_cons_of_mem _ ho'))
      (fun o' ho' => hcounted o' (List.mem_cons_of_mem _ ho'))
    rw [withinLimit_cons_of_not (fun h => hstop (Or.inr h)),
      partFits_cons_of_le (UInt32.le_iff_toNat_le.mp hle), RestingOrder.size,
      ← UInt32.toNat_sub_of_le _ _ hle, ← ih]
    refine forall₂_congr fun o' ho' => ?_
    -- the trade is with another order
    have hmem := orderId_mem_of_mem_matchList ho'
    have hother : o.orderId ≠ o'.orderId := fun h => hnot (h ▸ hmem)
    have hincoming : incomingId ≠ o'.orderId := by
      obtain ⟨x, hx, hid⟩ := List.mem_map.mp hmem
      exact fun h => hnew x (List.mem_cons_of_mem _ hx) (hid.trans h.symm)
    rw [filled_append, filled_tradeCalls, if_neg hother, if_neg hincoming, Nat.zero_add]
  | case4 o os quantity hstop hle =>
    obtain ⟨hnot, -⟩ := List.nodup_cons.mp hids
    have hne : 0 < quantity.toNat :=
      UInt32.lt_iff_toNat_lt.mp (UInt32.pos_iff_ne_zero.mpr fun h => hstop (Or.inl h))
    rw [withinLimit_cons_of_not (fun h => hstop (Or.inr h)),
      partFits_cons_of_lt hne (UInt32.lt_iff_toNat_lt.mp (UInt32.not_le.mp hle)),
      List.forall_mem_cons]
    have hself : incomingId ≠ o.orderId := (hnew o List.mem_cons_self).symm
    have hrest : ∀ o' ∈ os, o'.filledQuantity.toNat = counted o'.orderId +
        filled o'.orderId (tradeCalls symbol incomingId side o quantity FillFlags.partialFill
          FillFlags.closed) := by
      intro o' ho'
      have hother : o.orderId ≠ o'.orderId :=
        fun h => hnot (h ▸ List.mem_map_of_mem ho')
      have hincoming : incomingId ≠ o'.orderId := (hnew o' (List.mem_cons_of_mem _ ho')).symm
      rw [filled_tradeCalls, if_neg hother, if_neg hincoming]
      exact hcounted o' (List.mem_cons_of_mem _ ho')
    rw [and_iff_left hrest, filled_tradeCalls, if_pos rfl, if_neg hself, UInt32.toNat_add,
      ← hcounted o List.mem_cons_self, Nat.add_zero]
    constructor
    · intro hsum
      have hmod := Nat.mod_lt (o.filledQuantity.toNat + quantity.toNat) (y := 2 ^ 32) (by decide)
      omega
    · exact Nat.mod_eq_of_lt

end Matching

/-! ## The calls -/

namespace PriorityBook

variable {b : PriorityBook} {symbol : UInt32} {cs : List Callback}

/-- The orders of the other side within the limit of an order, the first to trade first. -/
def met (b : PriorityBook) (side : Side) (price : Int32) : List RestingOrder :=
  withinLimit side price (b.half side.bookSide.opposite)

/-- Every order knows what some callbacks filled of it. -/
def FillsCounted (b : PriorityBook) (cs : List Callback) : Prop :=
  ∀ o ∈ b.orders, o.filledQuantity.toNat = filled o.orderId cs

/-- **What a call must meet so that no fill is lost**: an order that it takes in part can count that, and
an order that it enters again had no fills, or leaves nothing to rest. -/
def CountsFills (b : PriorityBook) : LadderOp → Prop
  | .newOrder _ side quantity price _ => PartFits (b.met side price) quantity.toNat
  | .deleteOrder _ => True
  | .modifyOrder orderId side quantity price =>
    ∀ o ∈ b.find? orderId, o.filledQuantity < quantity → ¬ (o.price = price ∧ o.side = side) →
      let met := (b.remove orderId).met side price
      let left := quantity.toNat - o.filledQuantity.toNat
      (o.filledQuantity = 0 ∨ left ≤ (met.map RestingOrder.size).sum) ∧ PartFits met left

theorem FillsCounted.remove (h : b.FillsCounted cs) (orderId : UInt64) :
    (b.remove orderId).FillsCounted cs := forall_remove h orderId

theorem matching_eq_zero_iff (symbol : UInt32) {o : RestingOrder} :
    (b.matching symbol o).remaining = 0 ↔
      o.size ≤ ((b.met o.side o.price).map RestingOrder.size).sum := by
  rw [← UInt32.toNat_inj, matching, toNat_remaining_matchList, UInt32.toNat_zero, Nat.sub_eq_zero_iff_le]
  rfl

/-- Matching fills no order of the side of the incoming one. -/
theorem filled_matching_half (hb : b.Ordered) {o x : RestingOrder}
    (hx : x ∈ b.half o.side.bookSide) (hne : x.orderId ≠ o.orderId) :
    filled x.orderId (b.matching symbol o).calls = 0 := by
  have haccount := @matchList_account_other symbol _ o.side o.price _ hne.symm
    (b.half o.side.bookSide.opposite) o.quantity
  have hnone : openIn x.orderId (b.half o.side.bookSide.opposite) = 0 := by
    refine openIn_eq_zero fun y hy hid => ?_
    -- an order of the other side with the id would be on both
    have hfound := hb.find?_eq (mem_orders.mpr ⟨_, hy⟩)
    rw [hid, hb.find?_eq (mem_orders.mpr ⟨_, hx⟩)] at hfound
    obtain rfl := Option.some.inj hfound
    have hside := (hb.sided _ _ hx).symm.trans (hb.sided _ _ hy)
    revert hside
    cases o.side.bookSide <;> decide
  rw [hnone] at haccount
  exact Nat.eq_zero_of_add_eq_zero_right haccount

/-- The two sides hold the orders. -/
theorem forall_orders_half {P : RestingOrder → Prop} (b : PriorityBook) (h : BookSide) :
    (∀ o ∈ b.orders, P o) ↔ (∀ o ∈ b.half h, P o) ∧ ∀ o ∈ b.half h.opposite, P o := by
  rw [forall_orders]
  constructor
  · exact fun H => ⟨H h, H h.opposite⟩
  · rintro ⟨hown, hother⟩ h'
    cases h <;> cases h' <;> assumption

/-- **When the matching of an order loses no fill**. -/
theorem counted_matched_iff (symbol : UInt32) (hb : b.Ordered) (h : b.FillsCounted cs) {o : RestingOrder}
    (hnew : b.find? o.orderId = none) :
    (∀ x ∈ (b.matched symbol o).orders,
        x.filledQuantity.toNat = filled x.orderId (cs ++ (b.matching symbol o).calls)) ↔
      PartFits (b.met o.side o.price) o.size := by
  have hne := find?_eq_none.mp hnew
  have hother := (forall_orders_half b o.side.bookSide).mp hne
  have hcounted := (forall_orders_half b o.side.bookSide).mp h
  have hids : ((b.half o.side.bookSide.opposite).map RestingOrder.orderId).Nodup := by
    refine hb.nodup.sublist (List.Sublist.map _ ?_)
    unfold orders
    cases o.side.bookSide.opposite with
    | buy => exact List.sublist_append_left _ _
    | sell => exact List.sublist_append_right _ _
  have hopposite : o.side.bookSide ≠ o.side.bookSide.opposite := by
    cases o.side.bookSide <;> decide
  have hown : ∀ x ∈ b.half o.side.bookSide,
      x.filledQuantity.toNat = filled x.orderId (cs ++ (b.matching symbol o).calls) := by
    intro x hx
    rw [filled_append, filled_matching_half hb hx (hother.1 x hx), Nat.add_zero]
    exact hcounted.1 x hx
  rw [forall_orders_half _ o.side.bookSide, matched, half_setHalf_of_ne b hopposite, half_setHalf,
    and_iff_right hown]
  simp only [filled_append]
  exact matchList_counted_iff (fun e => filled e cs) hids hother.2 hcounted.2 o.quantity

/-- **When entering an order loses no fill**: what was filled of it before is none, or nothing of it comes
to rest. -/
theorem counted_entering_iff (hb : b.Ordered) (h : b.FillsCounted cs) {o : RestingOrder}
    {notify : Bool} {e : Entered} (he : Entering b symbol notify o e)
    (hnew : b.find? o.orderId = none) :
    e.book.FillsCounted (cs ++ e.calls) ↔
      (isIoc o.flags = true ∨ filled o.orderId cs = 0 ∨
        o.size ≤ ((b.met o.side o.price).map RestingOrder.size).sum) ∧
      PartFits (b.met o.side o.price) o.size := by
  have hmatched := counted_matched_iff symbol hb h hnew
  have hsilent : ∀ cs', (∀ e, filled e cs' = 0) → ∀ x : RestingOrder,
      filled x.orderId (cs ++ ((b.matching symbol o).calls ++ cs')) =
        filled x.orderId (cs ++ (b.matching symbol o).calls) := by
    intro cs' hzero x
    rw [← List.append_assoc, filled_append _ (cs ++ _), hzero, Nat.add_zero]
  rw [← matching_eq_zero_iff symbol]
  cases he with
  | dropped hleft hioc =>
    simp only [FillsCounted, hsilent _ fun e => filled_dropped e o.orderId notify, hmatched, hioc,
      true_or, true_and]
  | filled hleft =>
    simp only [FillsCounted, hsilent _ fun e => filled_announced e notify o, hmatched, hleft,
      or_true, true_and]
  | duplicate hleft hioc hfound =>
    exact absurd (find?_matched_eq_none hnew symbol o) hfound
  | rested hleft hioc hfound =>
    have hself : (b.leftover symbol o).filledQuantity.toNat =
        filled o.orderId (b.matching symbol o).calls := by
      have haccount : filled o.orderId (b.matching symbol o).calls +
          (b.matching symbol o).remaining.toNat = o.quantity.toNat := matched_account_self hnew
      have hle : (b.matching symbol o).remaining ≤ o.quantity := matchList_remaining_le _ _
      show (o.quantity - (b.matching symbol o).remaining).toNat = _
      rw [UInt32.toNat_sub_of_le _ _ hle]
      omega
    simp only [FillsCounted, hsilent _ fun e => filled_announced e notify o, (perm_rest _ _).mem_iff,
      List.forall_mem_cons, hmatched, hself, hleft, hioc, false_or, or_false, Bool.false_eq_true]
    refine and_congr_left fun _ => ?_
    -- the order counts the fills of this call only
    show filled o.orderId _ = filled o.orderId _ ↔ _
    rw [filled_append]
    omega

/-- **When a call loses no fill**. -/
theorem counted_step_iff (symbol : UInt32) (hb : b.Ordered) (hlive : b.Live)
    (h : b.FillsCounted cs) {op : LadderOp}
    (hnew : op.Enters op.orderId → b.find? op.orderId = none ∧ filled op.orderId cs = 0) :
    (b.step symbol op).book.FillsCounted (cs ++ (b.step symbol op).calls) ↔ b.CountsFills op := by
  have hstep := stepping b symbol op
  generalize b.step symbol op = r at hstep ⊢
  -- a callback without a fill adds nothing to the counts
  have hsilent : ∀ c : Callback, (∀ e, c.filled e = 0) → ∀ b' : PriorityBook,
      b'.FillsCounted (cs ++ [c]) ↔ b'.FillsCounted cs := by
    intro c hzero b'
    simp only [FillsCounted, filled_append, filled_cons, hzero, filled_nil, Nat.add_zero]
  cases hstep with
  | refused =>
    rw [List.append_nil]
    exact iff_of_true h (partFits_zero _)
  | @entered orderId side quantity price flags e hpos he =>
    obtain ⟨hnone, hzero⟩ := hnew ⟨_, _, _, _, rfl⟩
    rw [counted_entering_iff hb h he hnone]
    exact and_iff_right (Or.inr (Or.inl hzero))
  | deleted hfound => exact (hsilent _ (fun _ => rfl) _).trans (iff_of_true (h.remove _) trivial)
  | @unknown op orderId hop hfound =>
    refine (hsilent _ (fun _ => rfl) _).trans (iff_of_true h ?_)
    rcases hop with rfl | ⟨side, quantity, price, rfl⟩
    · trivial
    · intro o ho
      rw [hfound] at ho
      cases ho
  | @closed orderId side quantity price o hfound hfilled =>
    refine (hsilent _ (fun _ => rfl) _).trans (iff_of_true (h.remove _) ?_)
    intro o' ho' hlt
    obtain rfl := Option.some.inj (hfound.symm.trans ho')
    exact absurd hfilled (UInt32.not_le.mpr hlt)
  | @requantified orderId side quantity price o hfound hfilled hplace =>
    refine (hsilent _ (fun _ => rfl) _).trans (iff_of_true ?_ ?_)
    · intro x hx
      rw [orders_setQuantity] at hx
      obtain ⟨y, hy, rfl⟩ := List.mem_map.mp hx
      split_ifs
      · exact h y hy
      · exact h y hy
    · intro o' ho' _ hnot
      obtain rfl := Option.some.inj (hfound.symm.trans ho')
      exact absurd hplace hnot
  | @reentered orderId side quantity price o e hfound hfilled hplace he hthrown =>
    obtain ⟨hmem, rfl⟩ := mem_of_find? hfound
    -- entered again, the order counts from zero, so that it must have had no fills or be whole again
    have hzero : o.filledQuantity = 0 ↔ filled o.orderId cs = 0 := by
      rw [← h o hmem, ← UInt32.toNat_inj, UInt32.toNat_zero]
    have hentering := counted_entering_iff (hb.remove o.orderId) (h.remove o.orderId) he
      (find?_remove_self b o.orderId)
    have hsize : (o.moved side quantity price).size =
        quantity.toNat - o.filledQuantity.toNat :=
      UInt32.toNat_sub_of_le _ _ (UInt32.le_of_lt hfilled)
    have hioc : isIoc (o.moved side quantity price).flags = false := (hlive o hmem).2
    rw [hioc, hsize] at hentering
    have hlast : ∀ b' : PriorityBook, b'.FillsCounted (cs ++ (e.calls ++
        [if e.remaining > 0 then Callback.onModifyOrder o.orderId symbol side e.remaining price
          else .onDeleteOrder o.orderId true])) ↔ b'.FillsCounted (cs ++ e.calls) := by
      intro b'
      simp only [FillsCounted, filled_append _ cs, filled_append _ e.calls, filled_reannounced,
        Nat.add_zero]
    rw [hlast, hentering]
    simp only [Bool.false_eq_true, false_or]
    constructor
    · rintro hcounts o' ho' _ _
      obtain rfl := Option.some.inj (hfound.symm.trans ho')
      exact ⟨hcounts.1.imp_left hzero.mpr, hcounts.2⟩
    · intro hcounts
      obtain ⟨hkept, hpart⟩ := hcounts o hfound hfilled hplace
      exact ⟨hkept.imp_left hzero.mp, hpart⟩

end PriorityBook

/-! ## Runs -/

namespace LadderRun

variable {s : LadderRun} {b : PriorityBook} {op : LadderOp}

/-- **No fill is lost**: every resting order knows all that was filled of it. -/
def FillsCounted (s : LadderRun) : Prop :=
  ∀ e, ∀ slot ∈ s.ladder.orders.lookup e,
    (s.ladder.order slot).filledQuantity.toNat = filled e (callbacksOf s.trace)

/-- What a call must meet, on the book of the ladder. -/
def CountsFills (s : LadderRun) (op : LadderOp) : Prop :=
  ∃ b, s.ladder.Represents b ∧ b.CountsFills op

/-- The orders of a ladder are those of its book. -/
theorem fillsCounted_iff_book (hb : s.ladder.Represents b) :
    s.FillsCounted ↔ b.FillsCounted (callbacksOf s.trace) := by
  constructor
  · intro h o ho
    have hfound := hb.find?_eq o.orderId
    rw [hb.ordered.find?_eq ho] at hfound
    obtain ⟨slot, hslot, hresting⟩ := Option.map_eq_some_iff.mp hfound.symm
    have hcounted := h o.orderId slot hslot
    rwa [← hresting] at hcounted ⊢
  · intro h e slot hslot
    have hfound := hb.find?_eq e
    rw [Option.mem_def.mp hslot, Option.map_some] at hfound
    obtain ⟨hmem, hid⟩ := PriorityBook.mem_of_find? hfound
    have hcounted := h _ hmem
    rwa [hid] at hcounted

/-- **When a step loses no fill**. -/
theorem fillsCounted_next_iff (hs : s.Sound b) (hfresh : s.Fresh op) (h : s.FillsCounted) :
    (s.next op).FillsCounted ↔ s.CountsFills op := by
  have hcounted := (fillsCounted_iff_book hs.represents).mp h
  obtain ⟨hcalls, -, hrep, -⟩ := hs.represents.step op
  have hstep := PriorityBook.counted_step_iff s.ladder.symbol hs.represents.ordered
    hs.live hcounted fun henters =>
      ⟨hs.find?_fresh hfresh henters, hs.filled _ (hfresh _ henters)⟩
  rw [fillsCounted_iff_book (s := s.next op) hrep, callbacksOf_next, hcalls, hstep]
  constructor
  · exact fun hcounts => ⟨b, hs.represents, hcounts⟩
  · rintro ⟨b', hb', hcounts⟩
    rwa [hs.represents.unique hb']

theorem fillsCounted_start (symbol : UInt32) : (start symbol).FillsCounted := by
  intro e slot hslot
  cases hslot

/-- The steps of a ladder are those of a function. -/
theorem eq_foldl_of_run {ops : List LadderOp} {s t : LadderRun} (h : Run LadderStep s ops t) :
    t = ops.foldl next s := by
  induction h with
  | nil => rfl
  | snoc run step ih =>
    rw [List.foldl_append, ← ih]
    exact step.2

/-- Any calls that enter distinct ids make a run. -/
theorem run_foldl (symbol : UInt32) (ops : List LadderOp)
    (hids : (ops.filterMap LadderOp.newId).Nodup) :
    Run LadderStep (start symbol) ops (ops.foldl next (start symbol)) :=
  (run_of_nodup (G := fun _ _ => True) hids fun _ _ => trivial).mono fun _ _ _ hstep => hstep.2

/-- A run has reached sound ladders only. -/
theorem exists_sound_of_run {symbol : UInt32} {ops : List LadderOp}
    (h : Run LadderStep (start symbol) ops s) : ∃ b, s.Sound b :=
  exists_sound (G := fun _ _ => True) (h.mono fun _ _ _ hstep => ⟨trivial, hstep⟩)

/-- A run whose steps all meet the condition loses no fill. -/
theorem fillsCounted_of_guarded {symbol : UInt32} {ops : List LadderOp}
    (h : Run (Guarded CountsFills LadderStep) (start symbol) ops s) : s.FillsCounted := by
  have hinv : (∃ b, s.Sound b) ∧ s.FillsCounted := by
    refine h.invariant (I := fun s => (∃ b, s.Sound b) ∧ s.FillsCounted) ?_
      ⟨⟨_, sound_start symbol⟩, fillsCounted_start symbol⟩
    rintro s op t ⟨⟨b, hs⟩, hcounted⟩ ⟨hcounts, hfresh, rfl⟩
    exact ⟨⟨_, hs.next hfresh⟩, (fillsCounted_next_iff hs hfresh hcounted).mpr hcounts⟩
  exact hinv.2

end LadderRun

/-- **When no fill is lost in a run**: in all its ladders every resting order knows all that was filled of
it, exactly when every step meets the condition. -/
theorem fillsCounted_iff {symbol : UInt32} {ops : List LadderOp} {s : LadderRun}
    (h : Run LadderStep (LadderRun.start symbol) ops s) :
    (∀ ops' t, ops' <+: ops → Run LadderStep (LadderRun.start symbol) ops' t → t.FillsCounted) ↔
      Run (Guarded LadderRun.CountsFills LadderStep) (LadderRun.start symbol) ops s := by
  constructor
  · intro hall
    -- the run grows step by step, between ladders that have lost nothing
    generalize hstart : LadderRun.start symbol = s₀ at h hall ⊢
    induction h with
    | nil => exact .nil _
    | @snoc t u ops op run step ih =>
      subst hstart
      obtain ⟨b, hs⟩ := LadderRun.exists_sound_of_run run
      have hbefore := hall ops t (List.prefix_append _ _) run
      have hafter := hall _ u (List.prefix_refl _) (.snoc run step)
      obtain ⟨hfresh, rfl⟩ := step
      refine .snoc (ih fun ops' t' hops' => hall ops' t' ?_) ⟨?_, hfresh, rfl⟩
      · exact hops'.trans (List.prefix_append _ _)
      · exact (LadderRun.fillsCounted_next_iff hs hfresh hbefore).mp hafter
  · rintro hrun ops' t ⟨ops'', rfl⟩ ht
    obtain ⟨t', ht', -⟩ := Run.append_iff.mp hrun
    have heq : t = t' := (LadderRun.eq_foldl_of_run ht).trans
      (LadderRun.eq_foldl_of_run (ht'.mono fun _ _ _ hstep => hstep.2)).symm
    rw [heq]
    exact LadderRun.fillsCounted_of_guarded ht'

/-- A partly filled order that moves and is filled up. -/
theorem fillsCounted_iff_moved :
    ∃ s, Run LadderStep (LadderRun.start 7) [.newOrder 1 Side.buy 10 50 0,
        .newOrder 2 Side.sell 5 50 0, .newOrder 3 Side.sell 9 52 0,
        .modifyOrder 1 Side.buy 12 52] s ∧
      ((∀ ops' t, ops' <+: [.newOrder 1 Side.buy 10 50 0, .newOrder 2 Side.sell 5 50 0,
          .newOrder 3 Side.sell 9 52 0, .modifyOrder 1 Side.buy 12 52] →
          Run LadderStep (LadderRun.start 7) ops' t → t.FillsCounted) ↔
        Run (Guarded LadderRun.CountsFills LadderStep) (LadderRun.start 7)
          [.newOrder 1 Side.buy 10 50 0, .newOrder 2 Side.sell 5 50 0,
            .newOrder 3 Side.sell 9 52 0, .modifyOrder 1 Side.buy 12 52] s) := by
  have hrun := LadderRun.run_foldl 7 [.newOrder 1 Side.buy 10 50 0, .newOrder 2 Side.sell 5 50 0,
    .newOrder 3 Side.sell 9 52 0, .modifyOrder 1 Side.buy 12 52] (by decide)
  exact ⟨_, hrun, fillsCounted_iff hrun⟩

/-- A bid that was filled for 4 moves to a better price and forgets it. -/
theorem not_fillsCounted_of_run :
    ¬ ∀ symbol ops s, Run LadderStep (LadderRun.start symbol) ops s → s.FillsCounted := by
  intro h
  have hrun := LadderRun.run_foldl 7 [.newOrder 1 Side.buy 10 50 0, .newOrder 2 Side.sell 4 50 0,
    .modifyOrder 1 Side.buy 10 51] (by decide)
  have hcounted := h _ _ _ hrun 1
  generalize hs : List.foldl _ _ _ = s at hcounted
  have hdata : s.ladder.orders.lookup 1 = some 4095 ∧ (s.ladder.order 4095).filledQuantity = 0 ∧
      filled 1 (callbacksOf s.trace) = 4 := by
    rw [← hs]
    decide +kernel
  obtain ⟨hlookup, hzero, hfilled⟩ := hdata
  have hvalue := hcounted 4095 hlookup
  rw [hzero, hfilled] at hvalue
  cases hvalue

end Ndfex
