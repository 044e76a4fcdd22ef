import Ndfex.MatchingEngine.LadderMatching
import Ndfex.MatchingEngine.LadderResting

/-!
# The ladder refines the book

A call of a public method on a ladder that represents a book makes the callbacks and throws the
exception that the book prescribes, and leaves a ladder that represents the book's next state. In
particular the exceptions that would report a broken ladder are never thrown.

## Main definitions

* `OrderLadder.call`, `OrderLadder.step`: a public method, and what it leaves

## Main results

* `OrderLadder.Represents.handleNewOrder`, `OrderLadder.Represents.deleteOrder`,
  `OrderLadder.Represents.modifyOrder`: the methods
* `OrderLadder.Represents.step`: the simulation
-/

namespace Ndfex

open Containers Transition

namespace OrderLadder

variable {L : OrderLadder} {b : PriorityBook}

/-- What is known of the ladder a method leaves. -/
def Leaves (symbol : UInt32) (b : PriorityBook) (L : OrderLadder) : Prop :=
  L.Represents b ∧ L.symbol = symbol

theorem Represents.matchOrder {h : BookSide} {incomingId : UInt64} {side : Side} {price : Int32}
    {quantity : UInt32} (hL : L.Represents b) :
    let m := matchList L.symbol incomingId side price (b.half h) quantity
    Yields (matchOrder h incomingId side quantity price) L (.ok m.remaining) m.calls
      (Leaves L.symbol (b.setHalf h m.book)) := by
  obtain ⟨q, hq, rfl⟩ := hL
  rw [half_bookOf]
  refine hq.matchOrder.mono ?_
  rintro L' ⟨q', hq', hbook, hsymbol⟩
  exact ⟨⟨q', hq', hbook⟩, hsymbol⟩

theorem Represents.insertOrder {o : Order} (hL : L.Represents b) (hnext : o.next = none)
    (hprev : o.prev = none) (hnew : b.find? o.orderId = none) :
    Yields (insertOrder o.side.bookSide o) L (.ok ()) []
      (Leaves L.symbol (b.rest o.resting)) := by
  obtain ⟨q, hq, rfl⟩ := hL
  rw [hq.find?_bookOf, Option.map_eq_none_iff] at hnew
  refine (hq.insertOrder hnext hprev hnew).mono ?_
  rintro L' ⟨q', hq', hbook, hsymbol⟩
  exact ⟨⟨q', hq', hbook⟩, hsymbol⟩

/-! ## Entering an order -/

/-- How a method ends that may throw. -/
def ending {α : Type} (thrown : Option LadderError) (a : α) : Except LadderError α :=
  match thrown with
  | none => .ok a
  | some e => .error e

/-- The announcement of a new order, when it is wanted. -/
theorem yields_announce {wanted : Bool} {c : UInt32 → Callback} {α : Type}
    {f : Unit → LadderM α} {r : Except LadderError α} {Q : OrderLadder → Prop} {symbol : UInt32}
    (hsymbol : L.symbol = symbol) (h : Yields (f ()) L r [] Q) :
    Yields (if wanted = true then do
        let L ← ladder
        let x ← subscriber (c L.symbol)
        f x
      else f ()) L r (if wanted = true then [c symbol] else []) Q := by
  subst hsymbol
  split_ifs
  · exact Yields.current_bind (Yields.record_bind h)
  · exact h

/-- **Entering an order** of the quantity `quantity - filledQuantity`. -/
theorem Represents.handleNewOrder {o : RestingOrder} {quantity filledQuantity : UInt32}
    (hL : L.Represents b) (hq : quantity > filledQuantity)
    (ho : o.quantity = quantity - filledQuantity) (notify : Bool) :
    let e := b.enter L.symbol notify o
    Yields (handleNewOrder o.orderId o.side quantity o.price o.flags o.side.bookSide notify
        filledQuantity) L (ending e.thrown e.remaining) e.calls (Leaves L.symbol e.book) := by
  -- the program names the side that it matches against in two branches
  have hopposite : ∀ f : UInt32 → LadderM UInt32,
      (if o.side = Side.buy then
        OrderLadder.matchOrder .sell o.orderId o.side (quantity - filledQuantity) o.price >>= f
      else OrderLadder.matchOrder .buy o.orderId o.side (quantity - filledQuantity) o.price >>= f) =
        OrderLadder.matchOrder o.side.bookSide.opposite o.orderId o.side o.quantity o.price
          >>= f := by
    intro f
    rw [Side.bookSide, ho]
    split_ifs <;> rfl
  unfold OrderLadder.handleNewOrder
  simp only [if_pos hq]
  rw [hopposite]
  have hmatch : Yields (OrderLadder.matchOrder o.side.bookSide.opposite o.orderId o.side
      o.quantity o.price) L (.ok (b.matching L.symbol o).remaining) (b.matching L.symbol o).calls
      (Leaves L.symbol (b.matched L.symbol o)) := hL.matchOrder
  have hle : (b.matching L.symbol o).remaining ≤ o.quantity := matchList_remaining_le _ _
  simp only [PriorityBook.enter]
  set m := b.matching L.symbol o with hm
  by_cases hioc : (decide (m.remaining > 0) && isIoc o.flags) = true
  · -- the rest of an IOC order is dropped
    have hflags : (notify && !isIoc o.flags) = false := by simp_all
    simp only [if_pos hioc]
    refine Yields.bind hmatch fun L' hL' => ?_
    rw [if_neg (by simp [hflags]), if_pos hioc]
    cases notify with
    | true => exact Yields.record_bind (Yields.pure hL')
    | false => exact Yields.pure hL'
  simp only [if_neg hioc]
  by_cases hzero : m.remaining = 0
  · -- nothing is left to rest
    simp only [if_pos hzero]
    refine Yields.bind hmatch fun L' hL' => ?_
    refine yields_announce (c := fun symbol => .onNewOrder o.orderId symbol o.side m.remaining
      o.price o.flags) hL'.2 ?_
    rw [if_neg hioc, if_pos hzero]
    exact Yields.pure hL'
  simp only [if_neg hzero]
  by_cases hfound : ((b.matched L.symbol o).find? o.orderId).isSome = true
  · -- the announced order cannot rest beside the one of its id
    simp only [if_pos hfound]
    refine Yields.bind hmatch fun L' hL' => ?_
    refine yields_announce (c := fun symbol => .onNewOrder o.orderId symbol o.side m.remaining
      o.price o.flags) hL'.2 ?_
    rw [if_neg hioc, if_neg hzero]
    refine Yields.current_bind ?_
    rw [hL'.1.find?_eq, Option.isSome_map] at hfound
    rw [if_pos hfound]
    exact Yields.bind_error (Yields.throw hL')
  · -- the rest comes to rest
    simp only [if_neg hfound]
    refine Yields.bind hmatch fun L' hL' => ?_
    refine yields_announce (c := fun symbol => .onNewOrder o.orderId symbol o.side m.remaining
      o.price o.flags) hL'.2 ?_
    rw [if_neg hioc, if_neg hzero]
    refine Yields.current_bind ?_
    have hnew : (b.matched L.symbol o).find? o.orderId = none := by simpa using hfound
    rw [hL'.1.find?_eq, Option.isSome_map] at hfound
    rw [if_neg hfound, if_neg (by rw [← ho]; exact UInt32.not_lt.mpr hle)]
    refine Yields.bind_nil (hL'.1.insertOrder rfl rfl hnew) fun L'' hL'' => Yields.pure ?_
    rw [hL'.2, ← ho] at hL''
    exact hL''

/-! ## Deleting an order -/

/-- The queues without a slot list the book without its order. -/
theorem bookOf_remove {L L' : OrderLadder} {q : Queues} {slot : Slot} (hL : L.Linked q)
    (hslot : q.Holds slot) (hkeys : ∀ h, (L'.levels h).keys = (L.levels h).keys)
    (hrest : ∀ s, (L'.order s).resting = (L.order s).resting) :
    L'.bookOf (q.remove slot) = (L.bookOf q).remove (L.order slot).orderId := by
  refine PriorityBook.ext_half fun h => ?_
  rw [half_bookOf, PriorityBook.remove, PriorityBook.half_mapHalves, half_bookOf, sideOrders,
    sideOrders, hkeys, List.filter_flatMap]
  refine List.flatMap_congr fun p _ => ?_
  simp only [queueOrders, hrest, Queues.remove, List.filter_map]
  refine congrArg _ (List.filter_congr fun s hs => ?_)
  have hiff : s = slot ↔ (L.order s).orderId = (L.order slot).orderId :=
    ⟨fun he => he ▸ rfl, hL.eq_of_orderId ⟨h, p, hs⟩ hslot⟩
  simpa [Order.resting] using hiff

/-- The empty level an order leaves behind is erased. -/
theorem yields_eraseEmptyLevel {L L' : OrderLadder} {q q' : Queues} {h : BookSide} {p : Int32}
    (ha : AgreeOff L q L' q' h p) (hL : L.WellFormed q) (hL' : L'.Linked q')
    (hp : p ∈ (L.levels h).keys) :
    Yields (eraseEmptyLevel h p) L' (.ok ()) [] (Leaves L.symbol (L'.bookOf q')) := by
  rw [← ha.keys] at hp
  obtain ⟨lvl, hlvl⟩ := Option.isSome_iff_exists.mp (OrderedMap.find?_isSome.mpr hp)
  have hhead := (hL'.level h p lvl hlvl).1
  refine Yields.current_bind ?_
  rw [hlvl]
  by_cases hq : q' h p = []
  · simp only [hhead, hq, List.head?_nil, if_true]
    refine Yields.update ⟨⟨q', ha.wellFormed_erase hL hL' hq, ?_⟩, ?_⟩
    · exact PriorityBook.ext_half fun h' => by
        rw [half_bookOf, half_bookOf, sideOrders_erase hq]
    · rw [symbol_setLevels, ha.symbol]
  · have hne : ¬ (q' h p).head? = none := by simpa using hq
    simp only [hhead, if_neg hne]
    exact Yields.pure ⟨⟨q', ha.wellFormed hL hL' hq, rfl⟩, ha.symbol⟩

/-- **Deleting an order** of the book. -/
theorem Represents.deleteOrder {orderId : UInt64} (hL : L.Represents b) (notify : Bool)
    (hfound : (b.find? orderId).isSome) :
    Yields (deleteOrder orderId notify) L (.ok ())
      (if notify then [.onDeleteOrder orderId true] else [])
      (Leaves L.symbol (b.remove orderId)) := by
  rw [hL.find?_eq, Option.isSome_map] at hfound
  -- the order of the book is that of the slot under its id
  obtain ⟨slot, hlookup⟩ := Option.isSome_iff_exists.mp hfound
  obtain ⟨q, hq, rfl⟩ := hL
  obtain ⟨rfl, hslot⟩ := (hq.indexed _ _).mp hlookup
  have hmem := hq.mem_queue hslot
  have hside : ∀ f : Unit → LadderM Unit,
      (if (L.order slot).side = Side.buy then do
        OrderLadder.handleDeleteOrder .buy (L.order slot).orderId
        let x ← eraseEmptyLevel .buy (L.order slot).price
        f x
      else do
        OrderLadder.handleDeleteOrder .sell (L.order slot).orderId
        let x ← eraseEmptyLevel .sell (L.order slot).price
        f x) = (do
        OrderLadder.handleDeleteOrder (L.order slot).side.bookSide (L.order slot).orderId
        let x ← eraseEmptyLevel (L.order slot).side.bookSide (L.order slot).price
        f x) := by
    intro f
    rw [Side.bookSide]
    split_ifs <;> rfl
  refine Yields.current_bind ?_
  simp only [hlookup]
  rw [hside]
  refine Yields.bind_nil (hq.handleDeleteOrder hmem) ?_
  rintro L' ⟨hL', hagree, hrest⟩
  refine Yields.bind_nil (yields_eraseEmptyLevel hagree hq hL'
    (hq.present _ _ (List.ne_nil_of_mem hmem))) fun L'' hL'' => ?_
  rw [bookOf_remove hq.toLinked hslot hagree.keys hrest] at hL''
  cases notify with
  | true => exact Yields.record hL''
  | false => exact Yields.pure hL''

/-- An id the book does not hold is rejected. -/
theorem Represents.deleteOrder_reject {orderId : UInt64} (hL : L.Represents b) (notify : Bool)
    (hfound : b.find? orderId = none) :
    Yields (OrderLadder.deleteOrder orderId notify) L (.ok ()) [.onCancelReject orderId]
      (Leaves L.symbol b) := by
  have hlookup := hfound
  rw [hL.find?_eq, Option.map_eq_none_iff] at hlookup
  refine Yields.current_bind ?_
  simp only [hlookup]
  exact Yields.record ⟨hL, rfl⟩

/-! ## Modifying an order -/

/-- Changing the quantity of an order where it stands. -/
theorem Represents.write_quantity {L : OrderLadder} {b : PriorityBook} {slot : Slot}
    (hL : L.Represents b) {orderId : UInt64} (hlookup : L.orders.lookup orderId = some slot)
    (quantity : UInt32) :
    Leaves L.symbol (b.setQuantity orderId quantity)
      (L.write slot fun o => { o with quantity := quantity }) := by
  obtain ⟨q, hq, rfl⟩ := hL
  obtain ⟨rfl, hslot⟩ := (hq.indexed _ _).mp hlookup
  have hwrite : (L.write slot fun o => { o with quantity := quantity }).Linked q :=
    hq.write ⟨fun _ => rfl, fun _ => rfl, fun _ => rfl, fun _ => rfl, fun _ => rfl⟩
  refine ⟨⟨q, ⟨hwrite, ?_⟩, ?_⟩, rfl⟩
  · simpa only [levels_write] using hq.nonempty
  · refine PriorityBook.ext_half fun h => ?_
    rw [half_bookOf, PriorityBook.setQuantity, PriorityBook.half_mapHalves, half_bookOf,
      sideOrders, sideOrders, levels_write, List.map_flatMap]
    refine List.flatMap_congr fun p _ => ?_
    simp only [queueOrders, List.map_map]
    refine List.map_congr_left fun s hs => ?_
    have hiff : s = slot ↔ (L.order s).orderId = (L.order slot).orderId :=
      ⟨fun he => he ▸ rfl, hq.eq_of_orderId ⟨h, p, hs⟩ hslot⟩
    rw [order_write]
    simp only [hiff, Function.comp_apply, Order.resting]
    split_ifs with he
    · rw [hiff.mpr he]
    · rfl

/-- The call of `handle_new_order` that `modify_order` makes, and the callback after it. -/
theorem Represents.modifyOrder_reenter {o : RestingOrder} (hL : L.Represents b)
    (hfound : b.find? o.orderId = some o) {side : Side} {quantity : UInt32} {price : Int32}
    (hfilled : ¬ o.filledQuantity ≥ quantity) (hmoved : ¬ (o.price = price ∧ o.side = side)) :
    let e := b.reenter L.symbol o side quantity price
    Yields (modifyOrder o.orderId side quantity price) L (ending e.thrown ()) e.calls
      (Leaves L.symbol e.book) := by
  have hlookup := hL.find?_eq o.orderId
  rw [hfound] at hlookup
  obtain ⟨slot, hslot, hresting⟩ := Option.map_eq_some_iff.mp hlookup.symm
  -- the deletion makes no callback, the entry does not announce the order
  have hdelete := @hL.deleteOrder _ _ o.orderId false (by rw [hfound]; rfl)
  have hside : ∀ f : UInt32 → LadderM Unit,
      (if side = Side.buy then
        OrderLadder.handleNewOrder o.orderId side quantity price o.flags .buy false
          o.filledQuantity >>= f
      else OrderLadder.handleNewOrder o.orderId side quantity price o.flags .sell false
          o.filledQuantity >>= f) =
        OrderLadder.handleNewOrder o.orderId side quantity price o.flags side.bookSide false
          o.filledQuantity >>= f := by
    intro f
    rw [Side.bookSide]
    split_ifs <;> rfl
  have hfields : (L.order slot).filledQuantity = o.filledQuantity ∧
      (L.order slot).price = o.price ∧ (L.order slot).side = o.side ∧
        (L.order slot).flags = o.flags := by
    rw [← hresting]
    exact ⟨rfl, rfl, rfl, rfl⟩
  refine Yields.current_bind ?_
  simp only [hslot, hfields, if_neg hfilled, if_neg hmoved]
  refine Yields.bind_nil hdelete ?_
  rintro L' ⟨hL', hsymbol⟩
  have hle : quantity > o.filledQuantity := UInt32.not_le.mp hfilled
  have henter := hL'.handleNewOrder (o := o.moved side quantity price) hle rfl false
  rw [hsymbol] at henter
  rw [hside]
  simp only [PriorityBook.reenter]
  generalize (b.remove o.orderId).enter L.symbol false (o.moved side quantity price) = e
    at henter ⊢
  dsimp only at henter
  -- an exception of the entry passes through, and the callback after it is not made
  cases hthrown : e.thrown with
  | some err =>
    simp only [hthrown, Option.isSome_some, if_true]
    rw [hthrown] at henter
    exact Yields.bind_error henter
  | none =>
    simp only [Option.isSome_none, if_neg Bool.false_ne_true]
    rw [hthrown] at henter
    refine Yields.bind henter fun L'' hL'' => ?_
    by_cases hpos : e.remaining > 0
    · simp only [if_pos hpos]
      exact Yields.record hL''
    · simp only [if_neg hpos]
      exact Yields.record hL''

/-- **Modifying an order**. -/
theorem Represents.modifyOrder (hL : L.Represents b) (orderId : UInt64) (side : Side)
    (quantity : UInt32) (price : Int32) :
    let e := b.modifyOrder L.symbol orderId side quantity price
    Yields (modifyOrder orderId side quantity price) L (ending e.thrown ()) e.calls
      (Leaves L.symbol e.book) := by
  have hlookup := hL.find?_eq orderId
  cases hfound : b.find? orderId with
  | none =>
    rw [hfound] at hlookup
    -- the ladder does not have the id either
    simp only [PriorityBook.modifyOrder, hfound]
    refine Yields.current_bind ?_
    simp only [Option.map_eq_none_iff.mp hlookup.symm]
    exact Yields.record ⟨hL, rfl⟩
  | some o =>
    rw [hfound] at hlookup
    obtain ⟨slot, hslot, rfl⟩ := Option.map_eq_some_iff.mp hlookup.symm
    have hid : orderId = (L.order slot).resting.orderId := by
      have := List.find?_some hfound
      simpa [eq_comm] using this
    simp only [PriorityBook.modifyOrder, hfound]
    by_cases hfilled : (L.order slot).resting.filledQuantity ≥ quantity
    · -- the fills reach the new quantity
      have hdelete := @hL.deleteOrder _ _ orderId true (by rw [hfound]; rfl)
      simp only [if_pos hfilled, PriorityBook.deleteOrder, hfound, Option.isSome_some, if_true]
      refine Yields.current_bind ?_
      simp only [hslot]
      rw [if_pos (show (L.order slot).filledQuantity ≥ quantity from hfilled)]
      exact hdelete
    by_cases hplace : (L.order slot).resting.price = price ∧ (L.order slot).resting.side = side
    · -- the order keeps its place
      simp only [if_neg hfilled, if_pos hplace]
      refine Yields.current_bind ?_
      simp only [hslot]
      rw [if_neg (show ¬ (L.order slot).filledQuantity ≥ quantity from hfilled),
        if_pos (show (L.order slot).price = price ∧ (L.order slot).side = side from hplace)]
      refine Yields.bind_nil (P := (L.write slot _ = ·)) (Yields.update rfl) ?_
      rintro _ rfl
      exact Yields.record (hL.write_quantity hslot quantity)
    · simp only [if_neg hfilled, if_neg hplace]
      rw [hid] at hfound ⊢
      exact hL.modifyOrder_reenter hfound hfilled hplace

/-! ## The public methods -/

/-- A call of a public method. -/
def call : LadderOp → LadderM Unit
  | .newOrder orderId side quantity price flags => newOrder orderId side quantity price flags
  | .deleteOrder orderId => deleteOrder orderId
  | .modifyOrder orderId side quantity price => modifyOrder orderId side quantity price

/-- What a call leaves: the ladder, the callbacks it made, and the exception it threw. -/
structure Effect where
  ladder : OrderLadder
  calls : List Callback
  thrown : Option LadderError

/-- A call of a public method on a ladder. -/
def step (L : OrderLadder) (op : LadderOp) : Effect :=
  match call op ⟨L, []⟩ with
  | .ok _ r => ⟨r.state, r.calls, none⟩
  | .error e r => ⟨r.state, r.calls, some e⟩

theorem Represents.newOrder (hL : L.Represents b) (orderId : UInt64) (side : Side)
    (quantity : UInt32) (price : Int32) (flags : UInt8) :
    let e := b.newOrder L.symbol orderId side quantity price flags
    Yields (newOrder orderId side quantity price flags) L (ending e.thrown ()) e.calls
      (Leaves L.symbol e.book) := by
  have hside : OrderLadder.newOrder orderId side quantity price flags =
      discard (OrderLadder.handleNewOrder orderId side quantity price flags side.bookSide true
        0) := by
    unfold OrderLadder.newOrder
    rw [Side.bookSide]
    split_ifs <;> rfl
  rw [hside]
  simp only [PriorityBook.newOrder]
  by_cases hpos : quantity > 0
  · have henter := hL.handleNewOrder (o := ⟨orderId, quantity, 0, price, side, flags⟩) hpos
      (by simp) true
    simp only [if_pos hpos]
    generalize b.enter L.symbol true ⟨orderId, quantity, 0, price, side, flags⟩ = e at henter ⊢
    dsimp only at henter
    cases hthrown : e.thrown with
    | some err =>
      rw [hthrown] at henter
      exact henter.discard_error
    | none =>
      rw [hthrown] at henter
      exact henter.discard
  · simp only [if_neg hpos]
    refine Yields.discard_error ?_
    unfold OrderLadder.handleNewOrder
    simp only [if_neg hpos]
    exact Yields.bind_error (Yields.throw ⟨hL, rfl⟩)

/-- What a call leaves, from the specification of its program. -/
theorem step_of_yields {op : LadderOp} {thrown : Option LadderError} {calls : List Callback}
    {Q : OrderLadder → Prop} (h : Yields (call op) L (ending thrown ()) calls Q) :
    (L.step op).calls = calls ∧ (L.step op).thrown = thrown ∧ Q (L.step op).ladder := by
  obtain ⟨L', hrun, hQ⟩ := h.run
  have hstep : L.step op = ⟨L', calls, thrown⟩ := by
    cases thrown <;> simp only [step, hrun, ending, finish]
  rw [hstep]
  exact ⟨rfl, rfl, hQ⟩

/-- **The ladder refines the book**: a call does to the ladder what it does to the book. -/
theorem Represents.step (hL : L.Represents b) (op : LadderOp) :
    (L.step op).calls = (b.step L.symbol op).calls ∧
      (L.step op).thrown = (b.step L.symbol op).thrown ∧
        (L.step op).ladder.Represents (b.step L.symbol op).book ∧
          (L.step op).ladder.symbol = L.symbol := by
  apply step_of_yields (Q := Leaves L.symbol (b.step L.symbol op).book)
  cases op with
  | newOrder orderId side quantity price flags =>
    exact hL.newOrder orderId side quantity price flags
  | deleteOrder orderId =>
    cases hfound : b.find? orderId with
    | none =>
      simp only [PriorityBook.step, PriorityBook.deleteOrder, hfound, Option.isSome_none]
      exact hL.deleteOrder_reject true hfound
    | some o =>
      simp only [PriorityBook.step, PriorityBook.deleteOrder, hfound, Option.isSome_some]
      exact hL.deleteOrder true (by rw [hfound]; rfl)
  | modifyOrder orderId side quantity price =>
    exact hL.modifyOrder orderId side quantity price

end OrderLadder

end Ndfex
