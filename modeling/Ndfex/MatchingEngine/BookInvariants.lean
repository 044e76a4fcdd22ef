import Ndfex.MatchingEngine.LadderRefinement

/-!
# Invariants of the book

The cases of a call, what holds of every book that a ladder represents, and what every call
preserves: resting orders have quantity left and are not IOC orders, and the two sides do not
cross.

## Main definitions

* `PriorityBook.Entering`, `PriorityBook.Stepping`: what entering an order and a call can do
* `PriorityBook.Ordered`: distinct ids, orders on their sides, sides in price order
* `PriorityBook.Live`: every resting order has quantity and is not an IOC order
* `PriorityBook.Uncrossed`: every bid is below every ask

## Main results

* `OrderLadder.Represents.ordered`: a represented book is ordered
* `PriorityBook.forall_step`: what holds of the terms of every order after a call
* `PriorityBook.Live.step`, `PriorityBook.Uncrossed.step`: what every call preserves
-/

namespace Ndfex

open Containers

/-! ## Predicates on the terms of an order -/

/-- The predicate does not look at the quantities of an order. -/
def KeepsTerms (P : RestingOrder → Prop) : Prop :=
  ∀ o quantity filledQuantity, P o →
    P { o with quantity := quantity, filledQuantity := filledQuantity }

section Matching

variable {symbol : UInt32} {incomingId : UInt64} {side : Side} {price : Int32}

/-- Matching keeps the terms of the orders it leaves. -/
theorem forall_matchList {P : RestingOrder → Prop} (hP : KeepsTerms P) {os : List RestingOrder}
    (h : ∀ o ∈ os, P o) (quantity : UInt32) :
    ∀ o ∈ (matchList symbol incomingId side price os quantity).book, P o := by
  fun_induction matchList symbol incomingId side price os quantity with
  | case1 quantity => simp
  | case2 o os quantity hstop => exact h
  | case3 o os quantity hstop hle m ih => exact ih fun o' ho' => h o' (List.mem_cons_of_mem _ ho')
  | case4 o os quantity hstop hle =>
    intro o' ho'
    rcases List.mem_cons.mp ho' with rfl | ho'
    · exact hP o _ _ (h o (by simp))
    · exact h o' (List.mem_cons_of_mem _ ho')

/-- Matching leaves orders with quantity. -/
theorem matchList_pos {os : List RestingOrder} (h : ∀ o ∈ os, 0 < o.quantity)
    (quantity : UInt32) :
    ∀ o ∈ (matchList symbol incomingId side price os quantity).book, 0 < o.quantity := by
  fun_induction matchList symbol incomingId side price os quantity with
  | case1 quantity => simp
  | case2 o os quantity hstop => exact h
  | case3 o os quantity hstop hle m ih => exact ih fun o' ho' => h o' (List.mem_cons_of_mem _ ho')
  | case4 o os quantity hstop hle =>
    intro o' ho'
    rcases List.mem_cons.mp ho' with rfl | ho'
    · have hlt := UInt32.not_le.mp hle
      rw [UInt32.lt_iff_toNat_lt] at hlt
      rw [UInt32.lt_iff_toNat_lt, UInt32.toNat_sub_of_le _ _ (UInt32.le_iff_toNat_le.mpr hlt.le)]
      simp only [UInt32.toNat_zero]
      omega
    · exact h o' (List.mem_cons_of_mem _ ho')

/-- In a side in price order, matching stops with quantity left only where no price crosses. -/
theorem matchList_stops {r : Int32 → Int32 → Prop} {os : List RestingOrder}
    (hsorted : os.Pairwise fun x y => ¬ r y.price x.price)
    (hr : ∀ p p', OrderLadder.beyondLimit side p price → ¬ r p' p →
      OrderLadder.beyondLimit side p' price) (quantity : UInt32)
    (hleft : (matchList symbol incomingId side price os quantity).remaining ≠ 0) :
    ∀ o ∈ (matchList symbol incomingId side price os quantity).book,
      OrderLadder.beyondLimit side o.price price := by
  fun_induction matchList symbol incomingId side price os quantity with
  | case1 quantity => simp
  | case2 o os quantity hstop =>
    have hbeyond := hstop.resolve_left hleft
    intro o' ho'
    rcases List.mem_cons.mp ho' with rfl | ho'
    · exact hbeyond
    · exact hr _ _ hbeyond ((List.pairwise_cons.mp hsorted).1 o' ho')
  | case3 o os quantity hstop hle m ih => exact ih (List.pairwise_cons.mp hsorted).2 hleft
  | case4 o os quantity hstop hle => exact absurd rfl hleft

end Matching

namespace PriorityBook

variable {b : PriorityBook}

theorem forall_orders {P : RestingOrder → Prop} :
    (∀ o ∈ b.orders, P o) ↔ ∀ h, ∀ o ∈ b.half h, P o := by
  simp only [mem_orders]
  constructor
  · exact fun H h o ho => H o ⟨h, ho⟩
  · rintro H o ⟨h, ho⟩
    exact H h o ho

theorem forall_setHalf {P : RestingOrder → Prop} {h : BookSide} {os : List RestingOrder}
    (hb : ∀ o ∈ b.orders, P o) (hos : ∀ o ∈ os, P o) : ∀ o ∈ (b.setHalf h os).orders, P o := by
  rw [forall_orders] at hb ⊢
  intro h'
  by_cases hh : h' = h
  · subst hh
    rwa [half_setHalf]
  · rw [half_setHalf_of_ne _ hh]
    exact hb h'

/-- An order at rest joins the orders of the book. -/
theorem perm_rest (b : PriorityBook) (o : RestingOrder) : (b.rest o).orders.Perm (o :: b.orders) := by
  cases hside : o.side.bookSide with
  | buy =>
    simp only [orders, rest, hside, setHalf, half]
    exact (List.perm_orderedInsert _ _ _).append_right _
  | sell =>
    simp only [orders, rest, hside, setHalf, half]
    exact ((List.perm_orderedInsert _ _ _).append_left _).trans List.perm_middle

theorem forall_rest {P : RestingOrder → Prop} {o : RestingOrder} (hb : ∀ o ∈ b.orders, P o)
    (ho : P o) : ∀ o' ∈ (b.rest o).orders, P o' := by
  intro o' ho'
  rcases List.mem_cons.mp ((perm_rest b o).mem_iff.mp ho') with rfl | ho'
  · exact ho
  · exact hb o' ho'

theorem orders_remove (b : PriorityBook) (orderId : UInt64) :
    (b.remove orderId).orders = b.orders.filter fun o => o.orderId ≠ orderId := by
  rw [orders, orders, List.filter_append]
  rfl

theorem orders_setQuantity (b : PriorityBook) (orderId : UInt64) (quantity : UInt32) :
    (b.setQuantity orderId quantity).orders =
      b.orders.map fun o => if o.orderId = orderId then { o with quantity } else o := by
  rw [orders, orders, List.map_append]
  rfl

theorem forall_remove {P : RestingOrder → Prop} (hb : ∀ o ∈ b.orders, P o) (orderId : UInt64) :
    ∀ o ∈ (b.remove orderId).orders, P o := by
  intro o ho
  rw [orders_remove] at ho
  exact hb o (List.mem_filter.mp ho).1

theorem mem_of_find? {orderId : UInt64} {o : RestingOrder} (h : b.find? orderId = some o) :
    o ∈ b.orders ∧ o.orderId = orderId := by
  have hid := List.find?_some h
  exact ⟨List.mem_of_find?_eq_some h, of_decide_eq_true hid⟩

theorem find?_eq_none {orderId : UInt64} :
    b.find? orderId = none ↔ ∀ o ∈ b.orders, o.orderId ≠ orderId := by
  simp [find?, List.find?_eq_none]

/-! ## What a call can do -/

/-- The ways an order enters: an IOC order drops what is left of it, a filled order leaves nothing,
an order whose id is at rest is announced and thrown out, any other rests. -/
inductive Entering (b : PriorityBook) (symbol : UInt32) (notify : Bool) (o : RestingOrder) :
    Entered → Prop
  | dropped (hleft : (b.matching symbol o).remaining ≠ 0) (hioc : isIoc o.flags = true) :
    Entering b symbol notify o
      ⟨⟨b.matched symbol o, (b.matching symbol o).calls ++
        if notify then [.onDeleteOrder o.orderId false] else [], none⟩,
        (b.matching symbol o).remaining⟩
  | filled (hleft : (b.matching symbol o).remaining = 0) :
    Entering b symbol notify o
      ⟨⟨b.matched symbol o, (b.matching symbol o).calls ++ b.announced symbol notify o, none⟩,
        (b.matching symbol o).remaining⟩
  | duplicate (hleft : (b.matching symbol o).remaining ≠ 0) (hioc : isIoc o.flags = false)
      (hfound : (b.matched symbol o).find? o.orderId ≠ none) :
    Entering b symbol notify o
      ⟨⟨b.matched symbol o, (b.matching symbol o).calls ++ b.announced symbol notify o,
        some .orderAlreadyExists⟩, (b.matching symbol o).remaining⟩
  | rested (hleft : (b.matching symbol o).remaining ≠ 0) (hioc : isIoc o.flags = false)
      (hfound : (b.matched symbol o).find? o.orderId = none) :
    Entering b symbol notify o
      ⟨⟨(b.matched symbol o).rest (b.leftover symbol o),
        (b.matching symbol o).calls ++ b.announced symbol notify o, none⟩,
        (b.matching symbol o).remaining⟩

theorem entering (b : PriorityBook) (symbol : UInt32) (notify : Bool) (o : RestingOrder) :
    Entering b symbol notify o (b.enter symbol notify o) := by
  have hpos : ∀ q : UInt32, q > 0 ↔ q ≠ 0 := fun q => UInt32.pos_iff_ne_zero
  unfold enter
  by_cases hleft : (b.matching symbol o).remaining = 0
  · dsimp only
    rw [if_neg (by simp [hleft]), if_pos hleft]
    exact Entering.filled hleft
  cases hioc : isIoc o.flags with
  | true =>
    simp only [(hpos _).mpr hleft, decide_true, Bool.and_self, if_true]
    exact Entering.dropped hleft hioc
  | false =>
    simp only [Bool.and_false, if_neg Bool.false_ne_true, if_neg hleft]
    by_cases hfound : (b.matched symbol o).find? o.orderId = none
    · simp only [hfound, Option.isSome_none, if_neg Bool.false_ne_true]
      exact Entering.rested hleft hioc hfound
    · simp only [Option.isSome_iff_ne_none.mpr hfound, if_true]
      exact Entering.duplicate hleft hioc hfound

theorem forall_matched {P : RestingOrder → Prop} (hP : KeepsTerms P) (hb : ∀ o ∈ b.orders, P o)
    (symbol : UInt32) (o : RestingOrder) : ∀ o' ∈ (b.matched symbol o).orders, P o' :=
  forall_setHalf hb (forall_matchList hP (forall_orders.mp hb _) _)

/-- An id that is not at rest is not at rest after matching. -/
theorem find?_matched_eq_none {orderId : UInt64} (h : b.find? orderId = none) (symbol : UInt32)
    (o : RestingOrder) : (b.matched symbol o).find? orderId = none :=
  find?_eq_none.mpr (forall_matched (fun _ _ _ hne => hne) (find?_eq_none.mp h) symbol o)

theorem find?_remove_self (b : PriorityBook) (orderId : UInt64) :
    (b.remove orderId).find? orderId = none := by
  rw [find?_eq_none, orders_remove]
  intro o ho
  simpa using (List.mem_filter.mp ho).2

/-- **What a call can do**: the cases of `step`, with what each leaves. -/
inductive Stepping (b : PriorityBook) (symbol : UInt32) : LadderOp → Outcome → Prop
  | refused {orderId : UInt64} {side : Side} {price : Int32} {flags : UInt8} :
    Stepping b symbol (.newOrder orderId side 0 price flags)
      ⟨b, [], some .filledQuantityExceedsQuantity⟩
  | entered {orderId : UInt64} {side : Side} {quantity : UInt32} {price : Int32} {flags : UInt8}
      {e : Entered} (hpos : 0 < quantity)
      (he : Entering b symbol true ⟨orderId, quantity, 0, price, side, flags⟩ e) :
    Stepping b symbol (.newOrder orderId side quantity price flags) e.toOutcome
  | deleted {orderId : UInt64} {o : RestingOrder} (hfound : b.find? orderId = some o) :
    Stepping b symbol (.deleteOrder orderId)
      ⟨b.remove orderId, [.onDeleteOrder orderId true], none⟩
  | unknown {op : LadderOp} {orderId : UInt64} (hop : op = .deleteOrder orderId ∨
      ∃ side quantity price, op = .modifyOrder orderId side quantity price)
      (hfound : b.find? orderId = none) :
    Stepping b symbol op ⟨b, [.onCancelReject orderId], none⟩
  | closed {orderId : UInt64} {side : Side} {quantity : UInt32} {price : Int32} {o : RestingOrder}
      (hfound : b.find? orderId = some o) (hfilled : quantity ≤ o.filledQuantity) :
    Stepping b symbol (.modifyOrder orderId side quantity price)
      ⟨b.remove orderId, [.onDeleteOrder orderId true], none⟩
  | requantified {orderId : UInt64} {side : Side} {quantity : UInt32} {price : Int32}
      {o : RestingOrder} (hfound : b.find? orderId = some o)
      (hfilled : o.filledQuantity < quantity) (hplace : o.price = price ∧ o.side = side) :
    Stepping b symbol (.modifyOrder orderId side quantity price)
      ⟨b.setQuantity orderId quantity,
        [.onModifyOrder orderId symbol side (quantity - o.filledQuantity) price], none⟩
  | reentered {orderId : UInt64} {side : Side} {quantity : UInt32} {price : Int32}
      {o : RestingOrder} {e : Entered} (hfound : b.find? orderId = some o)
      (hfilled : o.filledQuantity < quantity) (hplace : ¬ (o.price = price ∧ o.side = side))
      (he : Entering (b.remove orderId) symbol false (o.moved side quantity price) e)
      (hthrown : e.thrown = none) :
    Stepping b symbol (.modifyOrder orderId side quantity price)
      ⟨e.book, e.calls ++ [if e.remaining > 0 then .onModifyOrder orderId symbol side e.remaining
        price else .onDeleteOrder orderId true], none⟩

theorem stepping (b : PriorityBook) (symbol : UInt32) (op : LadderOp) :
    Stepping b symbol op (b.step symbol op) := by
  cases op with
  | newOrder orderId side quantity price flags =>
    simp only [step, newOrder]
    by_cases hpos : quantity > 0
    · rw [if_pos hpos]
      exact Stepping.entered hpos (entering ..)
    · rw [if_neg hpos]
      -- without a quantity the call throws
      obtain rfl : quantity = 0 := by
        rw [gt_iff_lt, UInt32.pos_iff_ne_zero] at hpos
        exact not_not.mp hpos
      exact Stepping.refused
  | deleteOrder orderId =>
    simp only [step, deleteOrder]
    cases hfound : b.find? orderId with
    | none => exact Stepping.unknown (Or.inl rfl) hfound
    | some o => exact Stepping.deleted hfound
  | modifyOrder orderId side quantity price =>
    simp only [step, modifyOrder]
    cases hfound : b.find? orderId with
    | none => exact Stepping.unknown (Or.inr ⟨_, _, _, rfl⟩) hfound
    | some o =>
      obtain ⟨-, hid⟩ := mem_of_find? hfound
      dsimp only
      by_cases hfilled : o.filledQuantity ≥ quantity
      · rw [if_pos hfilled, deleteOrder, hfound, Option.isSome_some, if_pos rfl]
        exact Stepping.closed hfound hfilled
      have hlt := UInt32.not_le.mp hfilled
      by_cases hplace : o.price = price ∧ o.side = side
      · rw [if_neg hfilled, if_pos hplace]
        exact Stepping.requantified hfound hlt hplace
      · rw [if_neg hfilled, if_neg hplace]
        subst hid
        simp only [reenter]
        -- the id is free once the order has left, so that the entry does not throw
        have he := entering (b.remove o.orderId) symbol false (o.moved side quantity price)
        generalize (b.remove o.orderId).enter symbol false (o.moved side quantity price) = e
          at he ⊢
        have hthrown : e.thrown = none := by
          cases he with
          | dropped hleft hioc => rfl
          | filled hleft => rfl
          | duplicate hleft hioc hdup =>
            exact absurd (find?_matched_eq_none (find?_remove_self b o.orderId) symbol _) hdup
          | rested hleft hioc hnew => rfl
        rw [hthrown, Option.isSome_none, if_neg Bool.false_ne_true]
        exact Stepping.reentered hfound hlt hplace he hthrown

/-- The order that `new_order` or `modify_order` enters into the book. -/
def incoming (b : PriorityBook) : LadderOp → Option RestingOrder
  | .newOrder orderId side quantity price flags => some ⟨orderId, quantity, 0, price, side, flags⟩
  | .deleteOrder _ => none
  | .modifyOrder orderId side quantity price => (b.find? orderId).map (·.moved side quantity price)

theorem forall_entering {P : RestingOrder → Prop} (hP : KeepsTerms P) {symbol : UInt32}
    {notify : Bool} {o : RestingOrder} {e : Entered} (he : Entering b symbol notify o e)
    (hb : ∀ o ∈ b.orders, P o) (ho : P o) : ∀ o' ∈ e.book.orders, P o' := by
  have hmatched := forall_matched hP hb symbol o
  cases he with
  | dropped => exact hmatched
  | filled => exact hmatched
  | duplicate => exact hmatched
  | rested => exact forall_rest hmatched (hP o _ _ ho)

theorem forall_setQuantity {P : RestingOrder → Prop} (hP : KeepsTerms P)
    (hb : ∀ o ∈ b.orders, P o) (orderId : UInt64) (quantity : UInt32) :
    ∀ o ∈ (b.setQuantity orderId quantity).orders, P o := by
  intro o ho
  rw [orders_setQuantity] at ho
  obtain ⟨x, hx, rfl⟩ := List.mem_map.mp ho
  split_ifs
  · exact hP x _ _ (hb x hx)
  · exact hb x hx

/-- **What holds of the terms of every order**, and of those of the incoming order, holds of every
order after a call. -/
theorem forall_step {P : RestingOrder → Prop} (hP : KeepsTerms P) (symbol : UInt32) {op : LadderOp}
    (hb : ∀ o ∈ b.orders, P o) (hop : ∀ o, b.incoming op = some o → P o) :
    ∀ o ∈ (b.step symbol op).book.orders, P o := by
  have hstep := stepping b symbol op
  generalize b.step symbol op = r at hstep ⊢
  cases hstep with
  | refused => exact hb
  | entered hpos he => exact forall_entering hP he hb (hop _ rfl)
  | deleted hfound => exact forall_remove hb _
  | unknown hop hfound => exact hb
  | closed hfound hfilled => exact forall_remove hb _
  | requantified hfound hfilled hplace => exact forall_setQuantity hP hb _ _
  | reentered hfound hfilled hplace he hthrown =>
    exact forall_entering hP he (forall_remove hb _) (hop _ (by rw [incoming, hfound]; rfl))

/-! ## The order of a represented book -/

/-- A book in order: distinct ids, the orders on the sides that their side bytes name, and each side
from its best price on. -/
structure Ordered (b : PriorityBook) : Prop where
  nodup : (b.orders.map RestingOrder.orderId).Nodup
  sided : ∀ h, ∀ o ∈ b.half h, o.side.bookSide = h
  sorted : ∀ h, (b.half h).Pairwise fun x y => ¬ h.better y.price x.price

theorem Ordered.find?_eq (hb : b.Ordered) {o : RestingOrder} (ho : o ∈ b.orders) :
    b.find? o.orderId = some o := by
  have hinj : ∀ o' ∈ b.orders, o'.orderId = o.orderId → o' = o := fun o' ho' he =>
    List.inj_on_of_nodup_map hb.nodup ho' ho he
  cases hfound : b.find? o.orderId with
  | none => exact absurd rfl (find?_eq_none.mp hfound o ho)
  | some o' =>
    obtain ⟨hmem, hid⟩ := mem_of_find? hfound
    rw [hinj o' hmem hid]

/-! ## Quantity at rest -/

/-- Every resting order has quantity and is not an IOC order. -/
def Live (b : PriorityBook) : Prop := ∀ o ∈ b.orders, 0 < o.quantity ∧ isIoc o.flags = false

theorem Live.empty : Live empty := by simp [Live, PriorityBook.empty, orders]

theorem Live.matched (hb : b.Live) (symbol : UInt32) (o : RestingOrder) :
    (b.matched symbol o).Live := by
  have hflags := forall_matched (P := fun o => isIoc o.flags = false) (fun _ _ _ h => h)
    (fun o ho => (hb o ho).2) symbol o
  have hpos : ∀ o' ∈ (b.matched symbol o).orders, 0 < o'.quantity :=
    forall_setHalf (fun o ho => (hb o ho).1)
      (matchList_pos (forall_orders.mp (fun o ho => (hb o ho).1) _) _)
  exact fun o' ho' => ⟨hpos o' ho', hflags o' ho'⟩

theorem Live.entering (hb : b.Live) {symbol : UInt32} {notify : Bool} {o : RestingOrder}
    {e : Entered} (he : Entering b symbol notify o e) : e.book.Live := by
  have hmatched := hb.matched symbol o
  cases he with
  | dropped => exact hmatched
  | filled => exact hmatched
  | duplicate => exact hmatched
  | rested hleft hioc hnew =>
    exact forall_rest hmatched ⟨UInt32.pos_iff_ne_zero.mpr hleft, hioc⟩

/-- **Every call** leaves orders with quantity only, and no IOC order. -/
theorem Live.step (hb : b.Live) (symbol : UInt32) (op : LadderOp) :
    (b.step symbol op).book.Live := by
  have hstep := stepping b symbol op
  generalize b.step symbol op = r at hstep ⊢
  cases hstep with
  | refused => exact hb
  | entered hpos he => exact hb.entering he
  | deleted hfound => exact forall_remove hb _
  | unknown hop hfound => exact hb
  | closed hfound hfilled => exact forall_remove hb _
  | @requantified orderId side quantity price o hfound hfilled hplace =>
    intro o' ho'
    rw [orders_setQuantity] at ho'
    obtain ⟨x, hx, rfl⟩ := List.mem_map.mp ho'
    split_ifs
    · refine ⟨?_, (hb x hx).2⟩
      rw [UInt32.lt_iff_toNat_lt] at hfilled ⊢
      exact lt_of_le_of_lt (Nat.zero_le _) hfilled
    · exact hb x hx
  | reentered hfound hfilled hplace he hthrown =>
    exact Live.entering (forall_remove hb _) he

/-! ## The spread -/

/-- Every bid is strictly below every ask. -/
def Uncrossed (b : PriorityBook) : Prop :=
  ∀ o ∈ b.half .buy, ∀ o' ∈ b.half .sell, o.price < o'.price

theorem Uncrossed.empty : Uncrossed empty := by simp [Uncrossed]

theorem mem_half_rest {o o' : RestingOrder} {h : BookSide} :
    o' ∈ (b.rest o).half h ↔ (h = o.side.bookSide ∧ o' = o) ∨ o' ∈ b.half h := by
  by_cases hh : h = o.side.bookSide
  · subst hh
    simp [rest, List.mem_orderedInsert]
  · rw [rest, half_setHalf_of_ne _ hh]
    simp [hh]

theorem Uncrossed.matched (hb : b.Uncrossed) (symbol : UInt32) (o : RestingOrder) :
    (b.matched symbol o).Uncrossed := by
  unfold PriorityBook.matched matching
  cases o.side.bookSide with
  | buy =>
    intro x hx
    exact forall_matchList (P := fun y => x.price < y.price) (fun _ _ _ h => h) (hb x hx) _
  | sell =>
    intro x hx y hy
    exact forall_matchList (P := fun x => x.price < y.price) (fun _ _ _ h => h)
      (fun x hx => hb x hx y hy) _ x hx

/-- With quantity left of an order, every order left on the other side is beyond its limit. -/
theorem beyondLimit_of_remaining (hb : b.Ordered) {symbol : UInt32} {o : RestingOrder}
    (hside : o.side = Side.buy ∨ o.side = Side.sell)
    (hleft : (b.matching symbol o).remaining ≠ 0) :
    ∀ x ∈ (b.matched symbol o).half o.side.bookSide.opposite,
      OrderLadder.beyondLimit o.side x.price o.price := by
  rw [PriorityBook.matched, half_setHalf]
  refine matchList_stops (hb.sorted _) (fun p p' hbeyond hnot => ?_) _ hleft
  rcases hside with hs | hs
  · rw [hs] at hbeyond hnot ⊢
    rcases hbeyond with ⟨-, hp⟩ | ⟨hne, -⟩
    · exact Or.inl ⟨rfl, Int32.lt_of_lt_of_le hp (Int32.not_lt.mp hnot)⟩
    · exact absurd hne Side.buy_ne_sell
  · rw [hs] at hbeyond hnot ⊢
    rcases hbeyond with ⟨hne, -⟩ | ⟨-, hp⟩
    · exact absurd hne Side.sell_ne_buy
    · exact Or.inr ⟨rfl, Int32.lt_of_le_of_lt (Int32.not_lt.mp hnot) hp⟩

theorem Uncrossed.entering (hb : b.Uncrossed) (hord : b.Ordered) {symbol : UInt32} {notify : Bool}
    {o : RestingOrder} {e : Entered} (he : Entering b symbol notify o e)
    (hside : o.side = Side.buy ∨ o.side = Side.sell) : e.book.Uncrossed := by
  have hmatched := hb.matched symbol o
  cases he with
  | dropped => exact hmatched
  | filled => exact hmatched
  | duplicate => exact hmatched
  | rested hleft hioc hnew =>
    have hbeyond := beyondLimit_of_remaining hord hside hleft
    intro x hx y hy
    rcases mem_half_rest.mp hx with ⟨hxs, rfl⟩ | hx
    · -- a bid comes to rest below the asks that matching left
      replace hxs : BookSide.buy = o.side.bookSide := hxs
      rcases mem_half_rest.mp hy with ⟨hys, -⟩ | hy
      · cases hxs.trans hys.symm
      · rw [← hxs] at hbeyond
        rcases hbeyond y hy with ⟨-, hlt⟩ | ⟨hsell, -⟩
        · exact hlt
        · rw [hsell] at hxs
          cases hxs
    · rcases mem_half_rest.mp hy with ⟨hys, rfl⟩ | hy
      · -- an ask comes to rest above the bids that matching left
        replace hys : BookSide.sell = o.side.bookSide := hys
        rw [← hys] at hbeyond
        rcases hbeyond x hx with ⟨hbuy, -⟩ | ⟨-, hlt⟩
        · rw [hbuy] at hys
          cases hys
        · exact hlt
      · exact hmatched x hx y hy

theorem Ordered.remove (hb : b.Ordered) (orderId : UInt64) : (b.remove orderId).Ordered := by
  refine ⟨?_, fun h o ho => ?_, fun h => ?_⟩
  · rw [orders_remove]
    exact hb.nodup.sublist ((List.filter_sublist).map _)
  · rw [PriorityBook.remove, half_mapHalves] at ho
    exact hb.sided h o (List.mem_filter.mp ho).1
  · rw [PriorityBook.remove, half_mapHalves]
    exact (hb.sorted h).filter _

theorem Uncrossed.remove (hb : b.Uncrossed) (orderId : UInt64) :
    (b.remove orderId).Uncrossed := by
  intro x hx y hy
  rw [PriorityBook.remove, half_mapHalves] at hx hy
  exact hb x (List.mem_filter.mp hx).1 y (List.mem_filter.mp hy).1

theorem Uncrossed.setQuantity (hb : b.Uncrossed) (orderId : UInt64) (quantity : UInt32) :
    (b.setQuantity orderId quantity).Uncrossed := by
  intro x hx y hy
  rw [PriorityBook.setQuantity, half_mapHalves] at hx hy
  obtain ⟨x', hx', rfl⟩ := List.mem_map.mp hx
  obtain ⟨y', hy', rfl⟩ := List.mem_map.mp hy
  have hlt := hb x' hx' y' hy'
  split_ifs <;> exact hlt

/-- **Every call** of a side `BUY` or `SELL` leaves the book uncrossed. -/
theorem Uncrossed.step (hb : b.Uncrossed) (hord : b.Ordered) (symbol : UInt32) {op : LadderOp}
    (hop : op.TwoSided) : (b.step symbol op).book.Uncrossed := by
  have hstep := stepping b symbol op
  generalize b.step symbol op = r at hstep ⊢
  cases hstep with
  | refused => exact hb
  | entered hpos he => exact hb.entering hord he hop
  | deleted hfound => exact hb.remove _
  | unknown hop hfound => exact hb
  | closed hfound hfilled => exact hb.remove _
  | requantified hfound hfilled hplace => exact hb.setQuantity _ _
  | reentered hfound hfilled hplace he hthrown =>
    exact (hb.remove _).entering (hord.remove _) he hop

end PriorityBook

namespace OrderLadder

variable {L : OrderLadder} {q : Queues}

/-- The slots of a side, level by level. -/
def sideSlots (L : OrderLadder) (q : Queues) (h : BookSide) : List Slot :=
  (L.levels h).keys.flatMap (q h)

theorem map_sideSlots (L : OrderLadder) (q : Queues) (h : BookSide) :
    (L.sideSlots q h).map (fun s => (L.order s).resting) = L.sideOrders q h := by
  simp only [sideSlots, sideOrders, List.map_flatMap]
  rfl

theorem Linked.nodup_sideSlots (hL : L.Linked q) (h : BookSide) : (L.sideSlots q h).Nodup := by
  refine List.nodup_flatMap.mpr ⟨fun p _ => hL.nodup h p, ?_⟩
  refine (L.levels h).keys_nodup.imp fun hne s hs hs' => hne (hL.eq_of_mem hs hs').2

theorem Linked.holds_of_mem_sideSlots {h : BookSide} {s : Slot} (hs : s ∈ L.sideSlots q h) :
    ∃ p, s ∈ q h p := by
  obtain ⟨p, -, hs⟩ := List.mem_flatMap.mp hs
  exact ⟨p, hs⟩

theorem Linked.nodup_orders (hL : L.Linked q) :
    ((L.bookOf q).orders.map RestingOrder.orderId).Nodup := by
  have horders : (L.bookOf q).orders =
      (L.sideSlots q .buy ++ L.sideSlots q .sell).map fun s => (L.order s).resting := by
    rw [List.map_append, map_sideSlots, map_sideSlots]
    rfl
  have hholds : ∀ s ∈ L.sideSlots q .buy ++ L.sideSlots q .sell, q.Holds s := by
    intro s hs
    rcases List.mem_append.mp hs with hs | hs
    · exact ⟨_, holds_of_mem_sideSlots hs⟩
    · exact ⟨_, holds_of_mem_sideSlots hs⟩
  rw [horders, List.map_map]
  refine List.Nodup.map_on (fun s hs s' hs' he =>
    hL.eq_of_orderId (hholds s hs) (hholds s' hs') he) ?_
  refine List.Nodup.append (hL.nodup_sideSlots .buy) (hL.nodup_sideSlots .sell) ?_
  intro s hs hs'
  obtain ⟨p, hs⟩ := holds_of_mem_sideSlots hs
  obtain ⟨p', hs'⟩ := holds_of_mem_sideSlots hs'
  cases (hL.eq_of_mem hs hs').1

theorem Linked.sorted_sideOrders (hL : L.Linked q) (h : BookSide) :
    (L.sideOrders q h).Pairwise fun x y => ¬ h.better y.price x.price := by
  rw [sideOrders, List.pairwise_flatMap]
  refine ⟨fun p _ => List.pairwise_of_forall_mem_list fun x hx y hy => ?_, ?_⟩
  · rw [price_of_mem_queueOrders hL hx, price_of_mem_queueOrders hL hy]
    exact irrefl p
  · refine (L.levels h).keys_sorted.imp fun hbetter x hx y hy => ?_
    rw [price_of_mem_queueOrders hL hx, price_of_mem_queueOrders hL hy]
    exact asymm hbetter

/-- **A represented book is in order.** -/
theorem Represents.ordered {b : PriorityBook} (hL : L.Represents b) : b.Ordered := by
  obtain ⟨q, hq, rfl⟩ := hL
  refine ⟨hq.nodup_orders, fun h o ho => ?_, fun h => ?_⟩
  · rw [half_bookOf, hq.mem_sideOrders] at ho
    obtain ⟨p, s, hs, rfl⟩ := ho
    exact (hq.filed h p s hs).2
  · rw [half_bookOf]
    exact hq.sorted_sideOrders h

end OrderLadder

end Ndfex
