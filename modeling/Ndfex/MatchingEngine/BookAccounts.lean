import Mathlib.Algebra.BigOperators.Group.List.Basic
import Ndfex.MatchingEngine.BookInvariants

/-!
# Accounts of the fills

What a call fills of an order, against what the book holds of it before and after.

## Main definitions

* `Callback.filled`, `filled`: the quantity that callbacks fill of an order
* `PriorityBook.openQuantity`: the quantity at rest under an id
* `PriorityBook.budget`: what a call may fill of its own order

## Main results

* `PriorityBook.account_other`: what is filled of any other order comes off its quantity at rest
* `PriorityBook.account_self`: the order of the call stays within the budget
-/

namespace Ndfex

/-! ## Quantities -/

/-- The quantity that a callback fills of an order. -/
def Callback.filled (orderId : UInt64) : Callback → ℕ
  | .onFill e _ _ quantity _ _ _ => if e = orderId then quantity.toNat else 0
  | _ => 0

/-- The quantity that callbacks fill of an order. -/
def filled (orderId : UInt64) (cs : List Callback) : ℕ := (cs.map (Callback.filled orderId)).sum

@[simp] theorem filled_nil (orderId : UInt64) : filled orderId [] = 0 := rfl

@[simp] theorem filled_cons (orderId : UInt64) (c : Callback) (cs : List Callback) :
    filled orderId (c :: cs) = c.filled orderId + filled orderId cs := rfl

@[simp] theorem filled_append (orderId : UInt64) (cs cs' : List Callback) :
    filled orderId (cs ++ cs') = filled orderId cs + filled orderId cs' := by
  simp [filled]

theorem filled_tradeCalls (orderId : UInt64) (symbol : UInt32) (incomingId : UInt64) (side : Side)
    (o : RestingOrder) (quantity : UInt32) (restingFlags incomingFlags : UInt8) :
    filled orderId (tradeCalls symbol incomingId side o quantity restingFlags incomingFlags) =
      (if o.orderId = orderId then quantity.toNat else 0) +
        if incomingId = orderId then quantity.toNat else 0 := by
  simp [tradeCalls, filled, Callback.filled]

/-- The quantity at rest under an id in a list of orders. -/
def openIn (orderId : UInt64) (os : List RestingOrder) : ℕ :=
  (os.map fun o => if o.orderId = orderId then o.quantity.toNat else 0).sum

@[simp] theorem openIn_nil (orderId : UInt64) : openIn orderId [] = 0 := rfl

@[simp] theorem openIn_cons (orderId : UInt64) (o : RestingOrder) (os : List RestingOrder) :
    openIn orderId (o :: os) =
      (if o.orderId = orderId then o.quantity.toNat else 0) + openIn orderId os := rfl

@[simp] theorem openIn_append (orderId : UInt64) (os os' : List RestingOrder) :
    openIn orderId (os ++ os') = openIn orderId os + openIn orderId os' := by
  simp [openIn]

theorem openIn_eq_zero {orderId : UInt64} {os : List RestingOrder}
    (h : ∀ o ∈ os, o.orderId ≠ orderId) : openIn orderId os = 0 := by
  induction os with
  | nil => rfl
  | cons o os ih =>
    rw [openIn_cons, if_neg (h o (by simp)), ih fun o' ho' => h o' (List.mem_cons_of_mem _ ho')]

section Matching

variable {symbol : UInt32} {incomingId : UInt64} {side : Side} {price : Int32}

/-- What matching fills of a resting order comes off its quantity. -/
theorem matchList_account_other {orderId : UInt64} (hne : incomingId ≠ orderId)
    (os : List RestingOrder) (quantity : UInt32) :
    filled orderId (matchList symbol incomingId side price os quantity).calls +
      openIn orderId (matchList symbol incomingId side price os quantity).book =
        openIn orderId os := by
  fun_induction matchList symbol incomingId side price os quantity with
  | case1 quantity => rfl
  | case2 o os quantity hstop => simp
  | case3 o os quantity hstop hle m ih =>
    simp only [m] at ih ⊢
    simp only [filled_append, filled_tradeCalls, if_neg hne, openIn_cons]
    omega
  | case4 o os quantity hstop hle =>
    have hlt := UInt32.lt_iff_toNat_lt.mp (UInt32.not_le.mp hle)
    simp only [filled_tradeCalls, if_neg hne, openIn_cons,
      UInt32.toNat_sub_of_le _ _ (UInt32.le_iff_toNat_le.mpr hlt.le)]
    split_ifs <;> omega

/-- What matching fills of the incoming order comes off its quantity. -/
theorem matchList_account_self {os : List RestingOrder} (hnew : ∀ o ∈ os, o.orderId ≠ incomingId)
    (quantity : UInt32) :
    filled incomingId (matchList symbol incomingId side price os quantity).calls +
      (matchList symbol incomingId side price os quantity).remaining.toNat = quantity.toNat := by
  fun_induction matchList symbol incomingId side price os quantity with
  | case1 quantity => simp
  | case2 o os quantity hstop => simp
  | case3 o os quantity hstop hle m ih =>
    have ih := ih fun o' ho' => hnew o' (List.mem_cons_of_mem _ ho')
    rw [UInt32.toNat_sub_of_le _ _ hle] at ih
    have hle' := UInt32.le_iff_toNat_le.mp hle
    simp only [m] at ih ⊢
    simp only [filled_append, filled_tradeCalls, if_neg (hnew o (by simp)), if_true]
    omega
  | case4 o os quantity hstop hle =>
    simp [filled_tradeCalls, hnew o (by simp)]

end Matching

namespace PriorityBook

variable {b : PriorityBook} {symbol : UInt32}

/-- The quantity at rest under an id. -/
def openQuantity (b : PriorityBook) (orderId : UInt64) : ℕ := openIn orderId b.orders

theorem openQuantity_half (b : PriorityBook) (orderId : UInt64) (h : BookSide) :
    b.openQuantity orderId = openIn orderId (b.half h) + openIn orderId (b.half h.opposite) := by
  rw [openQuantity, orders, openIn_append]
  cases h
  · rfl
  · exact Nat.add_comm _ _

theorem openQuantity_rest (b : PriorityBook) (o : RestingOrder) (orderId : UInt64) :
    (b.rest o).openQuantity orderId =
      (if o.orderId = orderId then o.quantity.toNat else 0) + b.openQuantity orderId :=
  ((perm_rest b o).map _).sum_eq

theorem openQuantity_eq_zero {orderId : UInt64} (h : b.find? orderId = none) :
    b.openQuantity orderId = 0 :=
  openIn_eq_zero (find?_eq_none.mp h)

theorem openQuantity_remove (b : PriorityBook) (e orderId : UInt64) :
    (b.remove e).openQuantity orderId = if orderId = e then 0 else b.openQuantity orderId := by
  rw [openQuantity, openQuantity, orders_remove]
  split_ifs with he
  · subst he
    exact openIn_eq_zero fun o ho => by simpa using (List.mem_filter.mp ho).2
  · induction b.orders with
    | nil => rfl
    | cons o os ih =>
      by_cases ho : o.orderId = e
      · have hne : o.orderId ≠ orderId := fun h => he (h.symm.trans ho)
        rw [List.filter_cons_of_neg (by simpa using ho), ih, openIn_cons, if_neg hne, zero_add]
      · rw [List.filter_cons_of_pos (by simpa using ho), openIn_cons, ih, openIn_cons]

theorem openQuantity_setQuantity_of_ne (b : PriorityBook) {e orderId : UInt64} (hne : orderId ≠ e)
    (quantity : UInt32) : (b.setQuantity e quantity).openQuantity orderId =
      b.openQuantity orderId := by
  rw [openQuantity, openQuantity, orders_setQuantity, openIn, openIn, List.map_map]
  refine congrArg _ (List.map_congr_left fun o _ => ?_)
  simp only [Function.comp_apply]
  by_cases he : o.orderId = e
  · have ho : o.orderId ≠ orderId := fun h => hne (h.symm.trans he)
    rw [if_pos he, if_neg ho, if_neg ho]
  · rw [if_neg he]

theorem Ordered.openQuantity_setQuantity (hb : b.Ordered) (e : UInt64) (quantity : UInt32) :
    (b.setQuantity e quantity).openQuantity e ≤ quantity.toNat := by
  have hnd := hb.nodup
  rw [openQuantity, orders_setQuantity]
  revert hnd
  induction b.orders with
  | nil => simp
  | cons o os ih =>
    intro hnd
    obtain ⟨hnot, hnd⟩ := List.nodup_cons.mp hnd
    rw [List.map_cons, openIn_cons]
    by_cases he : o.orderId = e
    · have hrest : openIn e (os.map fun o => if o.orderId = e then { o with quantity } else o) = 0 := by
        refine openIn_eq_zero fun o' ho' => ?_
        obtain ⟨x, hx, rfl⟩ := List.mem_map.mp ho'
        have hx' : x.orderId ≠ e := fun h => hnot (List.mem_map.mpr ⟨x, hx, h.trans he.symm⟩)
        rwa [if_neg hx']
      rw [hrest, if_pos he]
      simp [he]
    · rw [if_neg he, if_neg he, zero_add]
      exact ih hnd

/-! ## Fills and quantity at rest -/

theorem filled_announced (orderId : UInt64) (notify : Bool) (o : RestingOrder) :
    filled orderId (b.announced symbol notify o) = 0 := by
  unfold announced
  split_ifs <;> rfl

/-- The callback at the end of a modification that entered the order again. -/
theorem filled_reannounced (orderId e : UInt64) (side : Side) (left : UInt32) (price : Int32) :
    filled orderId [if left > 0 then Callback.onModifyOrder e symbol side left price
      else Callback.onDeleteOrder e true] = 0 := by
  split_ifs <;> rfl

/-- An IOC order's last callback. -/
theorem filled_dropped (orderId e : UInt64) (notify : Bool) :
    filled orderId (if notify then [Callback.onDeleteOrder e false] else []) = 0 := by
  cases notify <;> rfl

theorem matched_account_other {o : RestingOrder} {orderId : UInt64} (hne : o.orderId ≠ orderId) :
    filled orderId (b.matching symbol o).calls + (b.matched symbol o).openQuantity orderId =
      b.openQuantity orderId := by
  have hmatch := @matchList_account_other symbol _ o.side o.price _ hne
    (b.half o.side.bookSide.opposite) o.quantity
  have hopp : o.side.bookSide.opposite.opposite = o.side.bookSide := by
    cases o.side.bookSide <;> rfl
  have hne' : o.side.bookSide ≠ o.side.bookSide.opposite := by
    cases o.side.bookSide <;> simp [BookSide.opposite]
  rw [openQuantity_half _ orderId o.side.bookSide.opposite,
    openQuantity_half b orderId o.side.bookSide.opposite, matched, half_setHalf, hopp,
    half_setHalf_of_ne _ hne', matching]
  omega

theorem matched_account_self {o : RestingOrder} (hnew : b.find? o.orderId = none) :
    filled o.orderId (b.matching symbol o).calls + (b.matching symbol o).remaining.toNat =
      o.quantity.toNat :=
  matchList_account_self (forall_orders.mp (find?_eq_none.mp hnew) _) _

theorem entering_account_other {notify : Bool} {o : RestingOrder} {e : Entered}
    (he : Entering b symbol notify o e) {orderId : UInt64} (hne : o.orderId ≠ orderId) :
    filled orderId e.calls + e.book.openQuantity orderId = b.openQuantity orderId := by
  have hmatched : filled orderId (b.matching symbol o).calls +
      (b.matched symbol o).openQuantity orderId = b.openQuantity orderId :=
    matched_account_other hne
  cases he with
  | dropped hleft hioc =>
    rw [filled_append, filled_dropped]
    omega
  | filled hleft =>
    rw [filled_append, filled_announced]
    omega
  | duplicate hleft hioc hfound =>
    rw [filled_append, filled_announced]
    omega
  | rested hleft hioc hfound =>
    rw [filled_append, filled_announced, openQuantity_rest,
      if_neg (show (b.leftover symbol o).orderId ≠ orderId from hne)]
    omega

theorem entering_account_self {notify : Bool} {o : RestingOrder} {e : Entered}
    (he : Entering b symbol notify o e) (hnew : b.find? o.orderId = none) :
    filled o.orderId e.calls + e.book.openQuantity o.orderId ≤ o.quantity.toNat := by
  have hmatched : filled o.orderId (b.matching symbol o).calls +
      (b.matching symbol o).remaining.toNat = o.quantity.toNat := matched_account_self hnew
  have hopen := openQuantity_eq_zero (find?_matched_eq_none hnew symbol o)
  cases he with
  | dropped hleft hioc =>
    rw [filled_append, filled_dropped, hopen]
    omega
  | filled hleft =>
    rw [filled_append, filled_announced, hopen]
    omega
  | duplicate hleft hioc hfound =>
    exact absurd (find?_matched_eq_none hnew symbol o) hfound
  | rested hleft hioc hfound =>
    rw [filled_append, filled_announced, openQuantity_rest, hopen,
      if_pos (show (b.leftover symbol o).orderId = o.orderId from rfl)]
    simp only [leftover]
    omega

/-- **Every other order**: what a call fills of it comes off its quantity at rest. -/
theorem account_other {op : LadderOp} {orderId : UInt64} (hne : op.orderId ≠ orderId) :
    filled orderId (b.step symbol op).calls + (b.step symbol op).book.openQuantity orderId =
      b.openQuantity orderId := by
  have hstep := stepping b symbol op
  generalize b.step symbol op = r at hstep ⊢
  cases hstep with
  | refused => simp
  | entered hpos he => exact entering_account_other he hne
  | @deleted e o hfound =>
    have hne' : orderId ≠ e := fun h => hne h.symm
    simp [openQuantity_remove, if_neg hne', Callback.filled]
  | unknown hop hfound => simp [Callback.filled]
  | @closed e side quantity price o hfound hfilled =>
    have hne' : orderId ≠ e := fun h => hne h.symm
    simp [openQuantity_remove, if_neg hne', Callback.filled]
  | @requantified e side quantity price o hfound hfilled hplace =>
    have hne' : orderId ≠ e := fun h => hne h.symm
    simp [openQuantity_setQuantity_of_ne b hne', Callback.filled]
  | @reentered e side quantity price o r hfound hfilled hplace he hthrown =>
    obtain ⟨-, rfl⟩ := mem_of_find? hfound
    have hne' : orderId ≠ o.orderId := fun h => hne h.symm
    have haccount := entering_account_other he hne
    rw [openQuantity_remove, if_neg hne'] at haccount
    rw [filled_append, filled_reannounced]
    exact haccount

/-- What a call may fill of the order it is about, together with what it leaves at rest. -/
def budget (b : PriorityBook) : LadderOp → ℕ
  | .newOrder _ _ quantity _ _ => quantity.toNat
  | .deleteOrder _ => 0
  | .modifyOrder orderId side quantity price =>
    match b.find? orderId with
    | none => 0
    | some o =>
      if quantity ≤ o.filledQuantity then 0
      else if o.price = price ∧ o.side = side then quantity.toNat
      else quantity.toNat - o.filledQuantity.toNat

/-- **The order itself**: its fills in the call and what is left of it at rest stay within the
budget of the call. -/
theorem account_self (hb : b.Ordered) {op : LadderOp}
    (hnew : op.Enters op.orderId → b.find? op.orderId = none) :
    filled op.orderId (b.step symbol op).calls +
      (b.step symbol op).book.openQuantity op.orderId ≤ b.budget op := by
  have hstep := stepping b symbol op
  generalize b.step symbol op = r at hstep ⊢
  cases hstep with
  | refused =>
    simp only [filled_nil, zero_add]
    rw [openQuantity_eq_zero (hnew ⟨_, _, _, _, rfl⟩)]
    exact Nat.zero_le _
  | entered hpos he => exact entering_account_self he (hnew ⟨_, _, _, _, rfl⟩)
  | deleted hfound => simp [LadderOp.orderId, openQuantity_remove, Callback.filled]
  | @unknown op orderId hop hfound =>
    have hid : op.orderId = orderId := by
      rcases hop with rfl | ⟨side, quantity, price, rfl⟩ <;> rfl
    rw [hid, openQuantity_eq_zero hfound]
    simp [Callback.filled]
  | closed hfound hfilled => simp [LadderOp.orderId, openQuantity_remove, Callback.filled]
  | requantified hfound hfilled hplace =>
    simp only [budget, hfound, if_neg (UInt32.not_le.mpr hfilled), if_pos hplace]
    simpa [LadderOp.orderId, Callback.filled] using hb.openQuantity_setQuantity _ _
  | @reentered e side quantity price o r hfound hfilled hplace he hthrown =>
    obtain ⟨-, rfl⟩ := mem_of_find? hfound
    have haccount := entering_account_self he (find?_remove_self b o.orderId)
    have hle : o.filledQuantity ≤ quantity := UInt32.le_of_lt hfilled
    simp only [budget, hfound, if_neg (UInt32.not_le.mpr hfilled), if_neg hplace]
    rw [filled_append, filled_reannounced]
    simp only [RestingOrder.moved, UInt32.toNat_sub_of_le _ _ hle] at haccount
    exact haccount

end PriorityBook

end Ndfex
