import Ndfex.Bots.OrderBook
import Ndfex.MatchingEngine.BrokerRuns

/-!
# The feed reproduces the book

A client of the feed keeps the resting orders of every ladder: what a call announces of its own
order, and what its trades take from the others, is what the call does to the book. The exception is
an order with recorded fills that is modified in place: the ladder rests its new quantity whole, and
announces what the fills leave of it.

## Main definitions

* `RestingOrder.shown`, `afterTrades`: an order as the feed shows it, and after trades
* `PriorityBook.KeepsFilled`: a modification in place meets an order without recorded fills
* `PriorityBook.Announcing`: what a call announces of its own order
* `BrokerRun.Replicated`: a client of the feed shows what rests

## Main results

* `PriorityBook.shown_step`: what a call does to the orders shown, and what it announces
* `feed_replicated`: the feed reproduces the book exactly as long as `KeepsFilled` holds
-/

namespace Ndfex

open Transition

/-! ## Orders as the feed shows them -/

/-- The side, price and quantity of a resting order. -/
def RestingOrder.shown (o : RestingOrder) : Bots.Order := ⟨o.side, o.price, o.quantity⟩

/-- What trades leave of the order shown under an id. -/
def afterTrades (ts : List QueuedTrade) (e : UInt64) (o : Option Bots.Order) : Option Bots.Order :=
  ts.foldl (fun o t => if t.orderId = e then o.bind (Bots.OrderBook.reduce t.quantity) else o) o

@[simp] theorem afterTrades_nil (e : UInt64) (o : Option Bots.Order) : afterTrades [] e o = o := rfl

theorem afterTrades_cons (t : QueuedTrade) (ts : List QueuedTrade) (e : UInt64)
    (o : Option Bots.Order) :
    afterTrades (t :: ts) e o =
      afterTrades ts e (if t.orderId = e then o.bind (Bots.OrderBook.reduce t.quantity) else o) :=
  rfl

theorem afterTrades_of_not_mem {ts : List QueuedTrade} {e : UInt64}
    (h : ∀ t ∈ ts, t.orderId ≠ e) (o : Option Bots.Order) : afterTrades ts e o = o := by
  induction ts generalizing o with
  | nil => rfl
  | cons t ts ih =>
    rw [afterTrades_cons, if_neg (h t (by simp))]
    exact ih (fun t' ht' => h t' (List.mem_cons_of_mem _ ht')) o

@[simp] theorem afterTrades_none (ts : List QueuedTrade) (e : UInt64) :
    afterTrades ts e none = none := by
  induction ts with
  | nil => rfl
  | cons t ts ih =>
    rw [afterTrades_cons, Option.bind_none, ite_self]
    exact ih

/-- The order with an id in a list of orders. -/
def findIn (e : UInt64) (os : List RestingOrder) : Option RestingOrder :=
  os.find? fun o => o.orderId = e

theorem findIn_cons (e : UInt64) (o : RestingOrder) (os : List RestingOrder) :
    findIn e (o :: os) = if o.orderId = e then some o else findIn e os := by
  by_cases he : o.orderId = e <;> simp [findIn, he]

theorem findIn_eq_none {e : UInt64} {os : List RestingOrder} :
    findIn e os = none ↔ ∀ o ∈ os, o.orderId ≠ e := by
  simp [findIn]

/-- With distinct ids, the order found is the one that is there. -/
theorem findIn_eq_some {e : UInt64} {os : List RestingOrder} {o : RestingOrder}
    (hnd : (os.map RestingOrder.orderId).Nodup) :
    findIn e os = some o ↔ o ∈ os ∧ o.orderId = e := by
  constructor
  · intro h
    have hid := List.find?_some h
    exact ⟨List.mem_of_find?_eq_some h, of_decide_eq_true hid⟩
  · rintro ⟨ho, rfl⟩
    cases hfound : findIn o.orderId os with
    | none => exact absurd rfl (findIn_eq_none.mp hfound o ho)
    | some o' =>
      have hid := List.find?_some hfound
      rw [List.inj_on_of_nodup_map hnd (List.mem_of_find?_eq_some hfound) ho
        (of_decide_eq_true hid)]

/-- The order of a list with distinct ids does not matter to what is found. -/
theorem findIn_perm {os os' : List RestingOrder} (hnd : (os.map RestingOrder.orderId).Nodup)
    (hperm : os'.Perm os) (e : UInt64) : findIn e os' = findIn e os := by
  have hnd' : (os'.map RestingOrder.orderId).Nodup := (hperm.map _).nodup_iff.mpr hnd
  refine Option.ext fun o => ?_
  rw [findIn_eq_some hnd', findIn_eq_some hnd, hperm.mem_iff]

section Matching

variable {symbol : UInt32} {incomingId : UInt64} {side : Side} {price : Int32}

/-- Matching keeps the ids of what it leaves in place. -/
theorem sublist_matchList (os : List RestingOrder) (quantity : UInt32) :
    ((matchList symbol incomingId side price os quantity).book.map RestingOrder.orderId).Sublist
      (os.map RestingOrder.orderId) := by
  fun_induction matchList symbol incomingId side price os quantity with
  | case1 quantity => exact List.Sublist.refl _
  | case2 o os quantity hstop => exact List.Sublist.refl _
  | case3 o os quantity hstop hle m ih => exact ih.cons _
  | case4 o os quantity hstop hle => exact List.Sublist.refl _

/-- **The trades of a matching** take from the orders shown what the matching does. -/
theorem shown_matchList {os : List RestingOrder} (hnd : (os.map RestingOrder.orderId).Nodup)
    (quantity : UInt32) (e : UInt64) :
    (findIn e (matchList symbol incomingId side price os quantity).book).map RestingOrder.shown =
      afterTrades ((matchList symbol incomingId side price os quantity).calls.filterMap
        Callback.queuedTrade) e ((findIn e os).map RestingOrder.shown) := by
  fun_induction matchList symbol incomingId side price os quantity with
  | case1 quantity => rfl
  | case2 o os quantity hstop => rfl
  | case3 o os quantity hstop hle m ih =>
    obtain ⟨hnot, hnd⟩ := List.nodup_cons.mp hnd
    have ih := ih hnd
    simp only [m] at ih ⊢
    rw [List.filterMap_append, filterMap_tradeCalls, List.singleton_append, ih, afterTrades_cons,
      findIn_cons]
    by_cases he : o.orderId = e
    · -- the order is used up, and no other has its id
      have hnone : findIn e os = none := findIn_eq_none.mpr fun x hx hxe =>
        hnot (List.mem_map.mpr ⟨x, hx, hxe.trans he.symm⟩)
      simp [he, hnone, RestingOrder.shown, Bots.OrderBook.reduce]
    · simp [he]
  | case4 o os quantity hstop hle =>
    -- the order is left with a quantity, and takes the last trade
    have hlt := UInt32.not_le.mp hle
    have hnot : ¬ o.quantity < quantity := UInt32.not_lt.mpr (UInt32.le_of_lt hlt)
    have hleft : o.quantity - quantity ≠ 0 := by
      intro hzero
      have hnat := congrArg UInt32.toNat hzero
      rw [UInt32.toNat_sub_of_le _ _ (UInt32.le_of_lt hlt), UInt32.toNat_zero] at hnat
      rw [UInt32.lt_iff_toNat_lt] at hlt
      omega
    rw [filterMap_tradeCalls, afterTrades_cons, afterTrades_nil, findIn_cons, findIn_cons]
    by_cases he : o.orderId = e
    · simp [he, RestingOrder.shown, Bots.OrderBook.reduce, hnot, hleft]
    · simp [he]

end Matching

/-! ## What a call does to the orders shown -/

namespace PriorityBook

variable {b : PriorityBook} {symbol : UInt32}

/-- The order that the book shows under an id. -/
def shown (b : PriorityBook) (e : UInt64) : Option Bots.Order := (b.find? e).map RestingOrder.shown

/-- The orders of a book have distinct ids. -/
def Distinct (b : PriorityBook) : Prop := (b.orders.map RestingOrder.orderId).Nodup

/-- An id is looked up side by side, in either order if it does not stand on both. -/
theorem find?_half {e : UInt64} {h : BookSide}
    (hdisj : findIn e (b.half h) = none ∨ findIn e (b.half h.opposite) = none) :
    b.find? e = (findIn e (b.half h)).or (findIn e (b.half h.opposite)) := by
  have hfind : b.find? e = (findIn e b.buys).or (findIn e b.sells) := List.find?_append
  rw [hfind]
  cases h with
  | buy => rfl
  | sell =>
    rcases hdisj with hnone | hnone
    · rw [show findIn e b.sells = none from hnone, show findIn e (b.half .sell) = none from hnone,
        Option.or_none, Option.none_or]
      rfl
    · rw [show findIn e b.buys = none from hnone,
        show findIn e (b.half BookSide.sell.opposite) = none from hnone, Option.or_none,
        Option.none_or]
      rfl

theorem Ordered.findIn_disjoint (hb : b.Ordered) (e : UInt64) (h : BookSide) :
    findIn e (b.half h) = none ∨ findIn e (b.half h.opposite) = none := by
  by_cases hl : Listed e (b.half h)
  · refine Or.inr (findIn_eq_none.mpr fun o ho he => ?_)
    exact hb.not_listed_opposite hl ⟨o, ho, he⟩
  · exact Or.inl (findIn_eq_none.mpr fun o ho he => hl ⟨o, ho, he⟩)

/-- An order trades with orders of the other side. -/
theorem order_of_mem_matching {o : RestingOrder} {t : QueuedTrade}
    (ht : t ∈ (b.matching symbol o).calls.filterMap Callback.queuedTrade) :
    ∃ x ∈ b.half o.side.bookSide.opposite, x.orderId = t.orderId := by
  obtain ⟨ts, hcalls, -, hts⟩ := matchList_trades symbol o.orderId o.side o.price
    (b.half o.side.bookSide.opposite) o.quantity
  rw [matching, hcalls, filterMap_queuedTrade] at ht
  obtain ⟨t', ht', rfl⟩ := List.mem_map.mp ht
  exact ⟨t'.order, (hts t' ht').1, rfl⟩

/-- **Matching** takes from the orders shown what its trades say. -/
theorem shown_matched (hb : b.Ordered) (o : RestingOrder) (e : UInt64) :
    (b.matched symbol o).shown e =
      afterTrades ((b.matching symbol o).calls.filterMap Callback.queuedTrade) e (b.shown e) := by
  have hopp : o.side.bookSide.opposite.opposite = o.side.bookSide := by
    cases o.side.bookSide <;> rfl
  have hne : o.side.bookSide ≠ o.side.bookSide.opposite := by
    cases o.side.bookSide <;> simp [BookSide.opposite]
  have hmatch := @shown_matchList symbol o.orderId o.side o.price _
    (hb.nodup_half o.side.bookSide.opposite) o.quantity e
  have hdisj := hb.findIn_disjoint e o.side.bookSide.opposite
  have hopposite : (b.matched symbol o).half o.side.bookSide.opposite =
      (b.matching symbol o).book := by rw [matched, half_setHalf]
  have hown : (b.matched symbol o).half o.side.bookSide = b.half o.side.bookSide := by
    rw [matched, half_setHalf_of_ne _ hne]
  replace hmatch : (findIn e (b.matching symbol o).book).map RestingOrder.shown =
      afterTrades ((b.matching symbol o).calls.filterMap Callback.queuedTrade) e
        ((findIn e (b.half o.side.bookSide.opposite)).map RestingOrder.shown) := hmatch
  rw [hopp] at hdisj
  cases hfound : findIn e (b.half o.side.bookSide.opposite) with
  | none =>
    -- an id of the own side, or of no order, takes no part
    rw [hfound, Option.map_none, afterTrades_none, Option.map_eq_none_iff] at hmatch
    have hid : ∀ t ∈ (b.matching symbol o).calls.filterMap Callback.queuedTrade,
        t.orderId ≠ e := by
      intro t ht hte
      obtain ⟨x, hx, hxt⟩ := order_of_mem_matching ht
      exact findIn_eq_none.mp hfound x hx (hxt.trans hte)
    rw [afterTrades_of_not_mem hid, shown, shown,
      find?_half (h := o.side.bookSide.opposite) (Or.inl (by rw [hopposite]; exact hmatch)),
      find?_half (h := o.side.bookSide.opposite) (Or.inl hfound), hopp, hopposite, hown, hmatch,
      hfound]
  | some x =>
    have hnone := hdisj.resolve_left (by rw [hfound]; simp)
    have hnone' : findIn e ((b.matched symbol o).half o.side.bookSide) = none := by rw [hown, hnone]
    rw [shown, shown, find?_half (h := o.side.bookSide.opposite) (Or.inr (by rw [hopp]; exact hnone')),
      find?_half (h := o.side.bookSide.opposite) (Or.inr (by rw [hopp]; exact hnone)), hopp,
      hopposite, hnone', hnone, Option.or_none, Option.or_none, hmatch]

theorem Ordered.distinct_matched (hb : b.Ordered) (o : RestingOrder) :
    (b.matched symbol o).Distinct := by
  have hmatch := @sublist_matchList symbol o.orderId o.side o.price
    (b.half o.side.bookSide.opposite) o.quantity
  have hnd := hb.nodup
  unfold Distinct matched matching orders at *
  rw [List.map_append] at hnd ⊢
  cases hside : o.side.bookSide with
  | buy =>
    rw [hside] at hmatch
    exact hnd.sublist ((List.Sublist.refl _).append hmatch)
  | sell =>
    rw [hside] at hmatch
    exact hnd.sublist (hmatch.append (List.Sublist.refl _))

theorem shown_rest (hb : b.Distinct) {o : RestingOrder} (hnew : b.find? o.orderId = none)
    (e : UInt64) : (b.rest o).shown e = if e = o.orderId then some o.shown else b.shown e := by
  have hnd : ((o :: b.orders).map RestingOrder.orderId).Nodup := by
    refine List.nodup_cons.mpr ⟨fun hmem => ?_, hb⟩
    obtain ⟨x, hx, hxo⟩ := List.mem_map.mp hmem
    exact find?_eq_none.mp hnew x hx hxo
  have hfind : (b.rest o).find? e = findIn e (o :: b.orders) := findIn_perm hnd (perm_rest b o) e
  rw [shown, hfind, findIn_cons]
  by_cases he : o.orderId = e
  · rw [if_pos he, if_pos he.symm]
    rfl
  · rw [if_neg he, if_neg fun h => he h.symm]
    rfl

theorem shown_remove (b : PriorityBook) (x e : UInt64) :
    (b.remove x).shown e = if e = x then none else b.shown e := by
  have hfind : (b.remove x).find? e = if e = x then none else b.find? e := by
    rw [find?, orders_remove, List.find?_filter]
    split_ifs with he
    · subst he
      rw [List.find?_eq_none]
      intro o _
      simp
    · rw [find?]
      refine congrArg (List.find? · b.orders) (funext fun o => ?_)
      by_cases ho : o.orderId = e
      · simp [ho, he]
      · simp [ho]
  rw [shown, hfind]
  split_ifs <;> rfl

theorem shown_setQuantity (b : PriorityBook) (x : UInt64) (quantity : UInt32) (e : UInt64) :
    (b.setQuantity x quantity).shown e =
      if e = x then (b.shown x).map fun o => { o with quantity } else b.shown e := by
  have hfind : (b.setQuantity x quantity).find? e =
      (b.find? e).map fun o => if o.orderId = x then { o with quantity } else o := by
    rw [find?, orders_setQuantity, List.find?_map]
    refine congrArg (Option.map _) (congrArg (List.find? · b.orders) (funext fun o => ?_))
    simp only [Function.comp_apply]
    split_ifs <;> rfl
  rw [shown, hfind, Option.map_map]
  cases hfound : b.find? e with
  | none =>
    split_ifs with he
    · rw [← he, shown, hfound]
      rfl
    · rw [shown, hfound]
      rfl
  | some o =>
    obtain ⟨-, rfl⟩ := mem_of_find? hfound
    by_cases he : o.orderId = x
    · subst he
      simp [shown, hfound, RestingOrder.shown]
    · simp [shown, hfound, he]

/-- The callbacks of a matching publish nothing at once. -/
theorem body_matching (o : RestingOrder) :
    (b.matching symbol o).calls.filterMap Callback.body = [] := by
  obtain ⟨ts, hcalls, -, -⟩ := matchList_trades symbol o.orderId o.side o.price
    (b.half o.side.bookSide.opposite) o.quantity
  rw [matching, hcalls, List.filterMap_flatMap]
  exact List.flatMap_eq_nil_iff.mpr fun t _ => rfl

theorem queuedTrade_announced (notify : Bool) (o : RestingOrder) :
    (b.announced symbol notify o).filterMap Callback.queuedTrade = [] := by
  unfold announced
  split_ifs <;> rfl

/-- What entering an order does to the other orders shown. -/
theorem shown_entering_other (hb : b.Ordered) {notify : Bool} {o : RestingOrder} {r : Entered}
    (he : Entering b symbol notify o r) {e : UInt64} (hne : e ≠ o.orderId) :
    r.book.shown e = afterTrades (r.calls.filterMap Callback.queuedTrade) e (b.shown e) := by
  have hmatched := @shown_matched b symbol hb o e
  cases he with
  | dropped hleft hioc =>
    have htail : (if notify then [Callback.onDeleteOrder o.orderId false] else []).filterMap
        Callback.queuedTrade = [] := by cases notify <;> rfl
    rw [List.filterMap_append, htail, List.append_nil]
    exact hmatched
  | filled hleft => simpa [queuedTrade_announced] using hmatched
  | duplicate hleft hioc hfound => simpa [queuedTrade_announced] using hmatched
  | rested hleft hioc hfound =>
    have hid : e ≠ (b.leftover symbol o).orderId := hne
    have hrest := shown_rest (hb.distinct_matched o) (o := b.leftover symbol o) hfound e
    rw [if_neg hid] at hrest
    rw [List.filterMap_append, queuedTrade_announced, List.append_nil]
    exact hrest.trans hmatched

/-- What entering an order leaves of it, and announces. -/
theorem shown_entering_self (hb : b.Ordered) {notify : Bool} {o : RestingOrder} {r : Entered}
    (he : Entering b symbol notify o r) (hnew : b.find? o.orderId = none) :
    r.book.shown o.orderId = none ∧ r.calls.filterMap Callback.body = [] ∧
        (r.remaining = 0 ∨ isIoc o.flags = true) ∨
      r.book.shown o.orderId = some ⟨o.side, o.price, r.remaining⟩ ∧
        r.calls.filterMap Callback.body = (if notify then
          [.newOrder o.orderId symbol o.side r.remaining o.price o.flags] else []) ∧
        0 < r.remaining := by
  have hgone : (b.matched symbol o).shown o.orderId = none := by
    rw [shown, find?_matched_eq_none hnew]
    rfl
  cases he with
  | dropped hleft hioc =>
    refine Or.inl ⟨hgone, ?_, Or.inr hioc⟩
    cases notify <;> simp [body_matching, Callback.body]
  | filled hleft =>
    -- the announcement of an order without a quantity is not published
    refine Or.inl ⟨hgone, ?_, Or.inl hleft⟩
    unfold announced
    rw [List.filterMap_append, body_matching, List.nil_append]
    split_ifs
    · simp [Callback.body, hleft]
    · rfl
  | duplicate hleft hioc hfound => exact absurd (find?_matched_eq_none hnew symbol o) hfound
  | rested hleft hioc hfound =>
    have hpos : 0 < (b.matching symbol o).remaining := UInt32.pos_iff_ne_zero.mpr hleft
    refine Or.inr ⟨?_, ?_, hpos⟩
    · exact (shown_rest (hb.distinct_matched o) (o := b.leftover symbol o) hfound
        o.orderId).trans (if_pos rfl)
    · unfold announced
      rw [List.filterMap_append, body_matching, List.nil_append]
      cases notify <;> simp [Callback.body, hioc, hpos]

/-- A modification in place meets an order without recorded fills. -/
def KeepsFilled (b : PriorityBook) : LadderOp → Prop
  | .modifyOrder orderId side quantity price =>
    ∀ o ∈ b.find? orderId, o.filledQuantity < quantity → o.price = price ∧ o.side = side →
      o.filledQuantity = 0
  | _ => True

/-- What a call announces of its own order: nothing, the order as it comes to rest, a quantity and
price, or its end. -/
inductive Announcing (b : PriorityBook) (symbol : UInt32) (op : LadderOp) (b' : PriorityBook) :
    List MdBody → Prop
  | nothing (hkeep : b.KeepsFilled op) (hsame : b'.shown op.orderId = b.shown op.orderId) :
    Announcing b symbol op b' []
  | opened {side : Side} {quantity : UInt32} {price : Int32} {flags : UInt8}
      (hkeep : b.KeepsFilled op) (henters : op.Enters op.orderId)
      (hshown : b'.shown op.orderId = some ⟨side, price, quantity⟩) :
    Announcing b symbol op b' [.newOrder op.orderId symbol side quantity price flags]
  | modified {side : Side} {announced left : UInt32} {price : Int32}
      (hkeep : announced = left ↔ b.KeepsFilled op) (hold : b.find? op.orderId ≠ none)
      (hshown : b'.shown op.orderId = some ⟨side, price, left⟩) :
    Announcing b symbol op b' [.modifyOrder op.orderId side announced price]
  | deleted (hkeep : b.KeepsFilled op) (hold : b.find? op.orderId ≠ none)
      (hshown : b'.shown op.orderId = none) :
    Announcing b symbol op b' [.deleteOrder op.orderId]

/-- **What a call does to the orders shown**: it announces its own order, and its trades take from
the others. -/
theorem shown_step (hb : b.Ordered) (hlive : b.Live) {op : LadderOp}
    (hnew : op.Enters op.orderId → b.find? op.orderId = none) :
    Announcing b symbol op (b.step symbol op).book
        ((b.step symbol op).calls.filterMap Callback.body) ∧
      ∀ e, e ≠ op.orderId → (b.step symbol op).book.shown e =
        afterTrades ((b.step symbol op).calls.filterMap Callback.queuedTrade) e (b.shown e) := by
  have hstep := stepping b symbol op
  generalize b.step symbol op = r at hstep ⊢
  cases hstep with
  | refused => exact ⟨.nothing trivial rfl, fun e _ => rfl⟩
  | @entered orderId side quantity price flags r hq he =>
    -- the order is announced exactly if something of it comes to rest
    have hnone : b.find? orderId = none := hnew ⟨_, _, _, _, rfl⟩
    refine ⟨?_, fun e hne => shown_entering_other hb he hne⟩
    rcases shown_entering_self hb he hnone with ⟨hshown, hbody, -⟩ | ⟨hshown, hbody, -⟩
    · rw [hbody]
      have hnew : b.shown orderId = none := by
        rw [shown, hnone]
        rfl
      exact .nothing trivial (hshown.trans hnew.symm)
    · rw [hbody, if_pos rfl]
      exact .opened trivial ⟨_, _, _, _, rfl⟩ hshown
  | @deleted orderId o hfound =>
    refine ⟨.deleted trivial (by simp [LadderOp.orderId, hfound]) ?_, fun e hne => ?_⟩
    · rw [shown_remove]
      exact if_pos rfl
    · rw [shown_remove]
      exact if_neg hne
  | @unknown op orderId hop hfound =>
    refine ⟨.nothing ?_ rfl, fun e _ => rfl⟩
    rcases hop with rfl | ⟨side, quantity, price, rfl⟩
    · trivial
    · intro o ho
      rw [hfound] at ho
      cases ho
  | @closed orderId side quantity price o hfound hfilled =>
    refine ⟨.deleted ?_ (by simp [LadderOp.orderId, hfound]) ?_, fun e hne => ?_⟩
    · intro o' ho' hlt
      rw [hfound] at ho'
      obtain rfl := Option.some.inj ho'
      exact absurd hlt (UInt32.not_lt.mpr hfilled)
    · rw [shown_remove]
      exact if_pos rfl
    · rw [shown_remove]
      exact if_neg hne
  | @requantified orderId side quantity price o hfound hfilled hplace =>
    have hshown : (b.setQuantity orderId quantity).shown orderId = some ⟨side, price, quantity⟩ := by
      rw [shown_setQuantity, if_pos rfl, shown, hfound, ← hplace.1, ← hplace.2]
      rfl
    refine ⟨.modified ?_ (by simp [LadderOp.orderId, hfound]) hshown, fun e hne => ?_⟩
    · -- the announced quantity is the one at rest when no fills come off it
      have hle := UInt32.le_of_lt hfilled
      constructor
      · intro heq o' ho' _ _
        rw [hfound] at ho'
        obtain rfl := Option.some.inj ho'
        have hnat := congrArg UInt32.toNat heq
        rw [UInt32.toNat_sub_of_le _ _ hle] at hnat
        rw [UInt32.lt_iff_toNat_lt] at hfilled
        exact UInt32.toNat_inj.mp (by rw [UInt32.toNat_zero]; omega)
      · intro hkeep
        rw [hkeep o hfound hfilled hplace, UInt32.sub_zero]
    · rw [shown_setQuantity]
      exact if_neg hne
  | @reentered orderId side quantity price o r hfound hfilled hplace he hthrown =>
    obtain ⟨hmem, rfl⟩ := mem_of_find? hfound
    have hioc : isIoc o.flags = false := (hlive o hmem).2
    have hkeep : b.KeepsFilled (.modifyOrder o.orderId side quantity price) := by
      intro o' ho' _ hplace'
      rw [hfound] at ho'
      obtain rfl := Option.some.inj ho'
      exact absurd hplace' hplace
    -- the order leaves and is entered again, which announces nothing but the modification or deletion
    have hold : b.find? o.orderId ≠ none := by simp [hfound]
    have hremoved := find?_remove_self b o.orderId
    constructor
    · rw [List.filterMap_append]
      rcases shown_entering_self (hb.remove _) he hremoved with
        ⟨hshown, hbody, hleft⟩ | ⟨hshown, hbody, hpos⟩
      · have hzero : r.remaining = 0 := hleft.resolve_right (by simp [RestingOrder.moved, hioc])
        rw [hbody, hzero]
        exact .deleted hkeep hold hshown
      · rw [hbody, if_neg Bool.false_ne_true, List.nil_append, if_pos hpos]
        exact .modified (iff_of_true rfl hkeep) hold hshown
    · intro e hne
      have hother := shown_entering_other (hb.remove _) he hne
      have htail : ([if r.remaining > 0 then Callback.onModifyOrder o.orderId symbol side
          r.remaining price else .onDeleteOrder o.orderId true]).filterMap Callback.queuedTrade =
            [] := by
        split_ifs <;> rfl
      have hremove := shown_remove b o.orderId e
      have hne' : e ≠ o.orderId := hne
      rw [if_neg hne'] at hremove
      rw [List.filterMap_append, htail, List.append_nil, ← hremove]
      exact hother

/-- The trades of a call are of other orders at rest. -/
theorem queuedTrade_step {op : LadderOp} (hnew : op.Enters op.orderId → b.find? op.orderId = none)
    {t : QueuedTrade} (ht : t ∈ (b.step symbol op).calls.filterMap Callback.queuedTrade) :
    b.Rests t.orderId ∧ t.orderId ≠ op.orderId := by
  obtain ⟨o, ho, hid, -, -, hother⟩ := MatchingEngineBroker.order_of_queuedTrade ht
  have hrests : b.Rests t.orderId := ⟨o, mem_orders.mpr ⟨_, ho⟩, hid⟩
  refine ⟨hrests, fun heq => ?_⟩
  rcases hother with henters | hne
  · exact rests_iff.mp (heq ▸ hrests) (hnew henters)
  · exact hne heq

theorem rests_iff_shown {e : UInt64} : b.Rests e ↔ b.shown e ≠ none := by
  rw [rests_iff, shown, ne_eq, ne_eq, Option.map_eq_none_iff]

end PriorityBook

/-! ## What a client of the feed shows -/

namespace Bots.MDClient

variable {c : MDClient} {symbol : UInt32}

/-- The trades of a packet, all of orders of one symbol. -/
theorem order_trades {ts : List QueuedTrade}
    (hroutes : ∀ t ∈ ts, c.orderToSymbol.lookup t.orderId = some symbol) (symbol' : UInt32)
    (e : UInt64) :
    ((ts.map QueuedTrade.body).foldl apply c).order symbol' e =
        (if symbol' = symbol then afterTrades ts e (c.order symbol e) else c.order symbol' e) ∧
      ((ts.map QueuedTrade.body).foldl apply c).orderToSymbol = c.orderToSymbol := by
  induction ts generalizing c with
  | nil =>
    refine ⟨?_, rfl⟩
    split_ifs with hs
    · rw [hs]
      rfl
    · rfl
  | cons t ts ih =>
    have ht := hroutes t (by simp)
    have hsame : (c.apply t.body).orderToSymbol = c.orderToSymbol := by
      simp only [QueuedTrade.body, apply, ht]
      exact orderToSymbol_onBook ..
    -- a trade leaves the symbols of the orders, so that the others find theirs
    have horder := order_apply_trade ht t.quantity t.price
    obtain ⟨hshown, hroutes'⟩ := ih (c := c.apply t.body) fun t' ht' => by
      rw [hsame]
      exact hroutes t' (List.mem_cons_of_mem _ ht')
    rw [List.map_cons, List.foldl_cons]
    refine ⟨hshown.trans ?_, hroutes'.trans hsame⟩
    simp only [QueuedTrade.body, horder, afterTrades_cons]
    by_cases hs : symbol' = symbol
    · subst hs
      by_cases he : t.orderId = e
      · subst he
        simp
      · simp [he, Ne.symm he]
    · simp [hs]

/-- The messages of a packet's trades. -/
theorem order_tradeBodies {ts : List QueuedTrade}
    (hroutes : ∀ t ∈ ts, c.orderToSymbol.lookup t.orderId = some symbol) (side : Side)
    (symbol' : UInt32) (e : UInt64) :
    ((MarketDataPublisher.tradeBodies ts symbol side).foldl apply c).order symbol' e =
        (if symbol' = symbol then afterTrades ts e (c.order symbol e) else c.order symbol' e) ∧
      ((MarketDataPublisher.tradeBodies ts symbol side).foldl apply c).orderToSymbol =
        c.orderToSymbol := by
  unfold MarketDataPublisher.tradeBodies
  by_cases hts : ts = []
  · subst hts
    rw [if_pos rfl]
    refine ⟨?_, rfl⟩
    split_ifs with hs
    · rw [hs]
      rfl
    · rfl
  · rw [if_neg hts]
    exact order_trades hroutes symbol' e

/-- The client shows the books. -/
def Shows (c : MDClient) (books : UInt32 → PriorityBook) : Prop :=
  ∀ symbol e, c.order symbol e = (books symbol).shown e

/-- The client knows the symbol of every order at rest. -/
def Routes (c : MDClient) (books : UInt32 → PriorityBook) : Prop :=
  ∀ symbol e, (books symbol).Rests e → c.orderToSymbol.lookup e = some symbol

/-- The client shows the books, and knows the symbol of every order at rest. -/
structure Mirrors (c : MDClient) (books : UInt32 → PriorityBook) : Prop where
  order : c.Shows books
  routes : c.Routes books

namespace Mirrors

variable {books : UInt32 → PriorityBook} {b' : PriorityBook} {op : LadderOp} {bodies : List MdBody}
  {ts : List QueuedTrade}

/-- What a call announces of its own order is what it leaves of it, if `KeepsFilled` holds. -/
theorem announced (h : c.Mirrors books) (hann : (books symbol).Announcing symbol op b' bodies)
    (hnew : op.Enters op.orderId → ∀ symbol, (books symbol).find? op.orderId = none) :
    (∀ symbol' e, ¬ (symbol' = symbol ∧ e = op.orderId) →
        (bodies.foldl apply c).order symbol' e = c.order symbol' e) ∧
      ((bodies.foldl apply c).order symbol op.orderId = b'.shown op.orderId ↔
        (books symbol).KeepsFilled op) ∧
      (bodies.foldl apply c).Routes books ∧
      (b'.Rests op.orderId →
        (bodies.foldl apply c).orderToSymbol.lookup op.orderId = some symbol) := by
  cases hann with
  | nothing hkeep hsame =>
    refine ⟨fun _ _ _ => rfl, iff_of_true ((h.order _ _).trans hsame.symm) hkeep, h.routes, ?_⟩
    intro hrests
    apply h.routes
    rw [PriorityBook.rests_iff_shown] at hrests ⊢
    rwa [← hsame]
  | opened hkeep henters hshown =>
    have hnone : c.order symbol op.orderId = none := by
      rw [h.order, PriorityBook.shown, hnew henters]
      rfl
    simp only [List.foldl_cons, List.foldl_nil]
    -- the id is new to every book, so that no other route is lost
    refine ⟨fun symbol' e hne => ?_, iff_of_true ?_ hkeep, fun symbol' e he => ?_, fun _ => ?_⟩
    · rw [order_apply_newOrder, if_neg hne]
    · rw [hshown, order_apply_newOrder, if_pos ⟨rfl, rfl⟩, hnone, Option.getD_none]
    · have hne : e ≠ op.orderId := by
        rintro rfl
        exact PriorityBook.rests_iff.mp he (hnew henters symbol')
      rw [routes_newOrder, if_neg hne, h.routes symbol' e he]
    · rw [routes_newOrder, if_pos rfl]
  | @modified side announced left price hkeep hold hshown =>
    -- the client finds the order's book, since the order rests
    have hroute := h.routes symbol op.orderId (PriorityBook.rests_iff.mpr hold)
    have hsame : (c.apply (.modifyOrder op.orderId side announced price)).orderToSymbol =
        c.orderToSymbol := by
      simp only [apply, symbolOf, hroute]
      exact orderToSymbol_onBook ..
    obtain ⟨o, ho⟩ := Option.ne_none_iff_exists'.mp
      (PriorityBook.rests_iff_shown.mp (PriorityBook.rests_iff.mpr hold))
    simp only [List.foldl_cons, List.foldl_nil, Routes, hsame]
    refine ⟨fun symbol' e hne => ?_, ?_, h.routes, fun _ => hroute⟩
    · rw [order_apply_modifyOrder hroute, if_neg hne]
    · rw [← hkeep, hshown, order_apply_modifyOrder hroute, if_pos ⟨rfl, rfl⟩, h.order, ho]
      simp
  | deleted hkeep hold hshown =>
    have hroute := h.routes symbol op.orderId (PriorityBook.rests_iff.mpr hold)
    have hsame : (c.apply (.deleteOrder op.orderId)).orderToSymbol = c.orderToSymbol := by
      simp only [apply, symbolOf, hroute]
      exact orderToSymbol_onBook ..
    simp only [List.foldl_cons, List.foldl_nil, Routes, hsame]
    refine ⟨fun symbol' e hne => ?_, iff_of_true ?_ hkeep, h.routes, fun _ => hroute⟩
    · rw [order_apply_deleteOrder hroute, if_neg hne]
    · rw [hshown, order_apply_deleteOrder hroute, if_pos ⟨rfl, rfl⟩]

/-- **The messages of a call** keep the client up to date exactly if `KeepsFilled` holds. -/
theorem packet (h : c.Mirrors books) (hann : (books symbol).Announcing symbol op b' bodies)
    (hnew : op.Enters op.orderId → ∀ symbol, (books symbol).find? op.orderId = none)
    (hother : ∀ e, e ≠ op.orderId → b'.shown e = afterTrades ts e ((books symbol).shown e))
    (hts : ∀ t ∈ ts, (books symbol).Rests t.orderId ∧ t.orderId ≠ op.orderId) (side : Side) :
    ((bodies ++ MarketDataPublisher.tradeBodies ts symbol side).foldl apply c).Routes
        (Function.update books symbol b') ∧
      (((bodies ++ MarketDataPublisher.tradeBodies ts symbol side).foldl apply c).Shows
        (Function.update books symbol b') ↔ (books symbol).KeepsFilled op) := by
  obtain ⟨hsame, hown, hroutes, hroute⟩ := h.announced hann hnew
  have htrades := fun symbol' e =>
    order_tradeBodies (fun t ht => hroutes symbol _ (hts t ht).1) side symbol' e
  -- the trades are of other orders, so that they leave what was announced
  have hself : ∀ o, afterTrades ts op.orderId o = o :=
    afterTrades_of_not_mem fun t ht => (hts t ht).2
  rw [List.foldl_append]
  refine ⟨fun symbol' e he => ?_, fun hshows => ?_, fun hkeep symbol' e => ?_⟩
  · rw [(htrades symbol e).2]
    by_cases hs : symbol' = symbol
    · subst hs
      rw [Function.update_self] at he
      by_cases hid : e = op.orderId
      · exact hid ▸ hroute (hid ▸ he)
      · -- an order at rest that is not the call's own was there before
        apply hroutes
        rw [PriorityBook.rests_iff_shown] at he ⊢
        intro hnone
        rw [hother e hid, hnone, afterTrades_none] at he
        exact he rfl
    · rw [Function.update_of_ne hs] at he
      exact hroutes symbol' e he
  · have horder := hshows symbol op.orderId
    rw [(htrades _ _).1, if_pos rfl, hself, Function.update_self] at horder
    exact hown.mp horder
  · rw [(htrades _ _).1]
    by_cases hs : symbol' = symbol
    · subst hs
      rw [if_pos rfl, Function.update_self]
      by_cases he : e = op.orderId
      · rw [he, hself]
        exact hown.mpr hkeep
      · rw [hsame _ _ fun h => he h.2, h.order, hother e he]
    · rw [if_neg hs, Function.update_of_ne hs, hsame _ _ fun h => hs h.1, h.order]

end Mirrors

end Bots.MDClient

/-! ## Runs -/

namespace BrokerRun

/-- What a client of the feed keeps after the datagrams so far. -/
def feed (s : BrokerRun) : Bots.MDClient :=
  (s.broker.publisher.datagrams.flatten.map MdMessage.body).foldl Bots.MDClient.apply
    Bots.MDClient.empty

/-- The client of the feed shows the resting orders of every ladder. -/
def Replicated (s : BrokerRun) : Prop :=
  ∀ symbol e, s.feed.order symbol e =
    (s.broker.resting symbol e).map fun o => ⟨o.side, o.price, o.quantity⟩

/-- A modification in place meets an order without recorded fills. -/
def KeepsFilled (s : BrokerRun) : BrokerEvent → Prop
  | .heartbeat => True
  | .request p => p.msgType = .modifyOrder →
    ∀ o ∈ s.broker.resting p.symbol p.exchOrderId, o.filledQuantity < p.quantity →
      o.price = p.price.toInt32 ∧ o.side = p.side → o.filledQuantity = 0

instance (s : BrokerRun) : DecidablePred s.KeepsFilled
  | .heartbeat => inferInstanceAs (Decidable True)
  | .request _ => inferInstanceAs (Decidable (_ → ∀ o ∈ s.broker.resting _ _, _ → _ → _))

variable {s : BrokerRun} {books : UInt32 → PriorityBook} {p : OePayload}

theorem feed_eq (hs : s.broker.Sound s.requests books) :
    s.feed = s.broker.publisher.bodies.foldl Bots.MDClient.apply Bots.MDClient.empty := by
  rw [feed, ← hs.idle.bodies_eq]

theorem shown_eq (hs : s.broker.Sound s.requests books) (symbol : UInt32) (e : UInt64) :
    (books symbol).shown e =
      (s.broker.resting symbol e).map fun o => ⟨o.side, o.price, o.quantity⟩ := by
  rw [PriorityBook.shown, ← hs.resting_eq, Option.map_map]
  rfl

/-- `KeepsFilled` of the broker is that of the book that the request calls. -/
theorem keepsFilled_iff (hs : s.broker.Sound s.requests books) {op : LadderOp}
    (hop : p.op = some op) :
    s.KeepsFilled (.request p) ↔ (books p.symbol).KeepsFilled op := by
  rcases OePayload.cases_of_op hop with ⟨hnew, rfl⟩ | ⟨hdelete, rfl⟩ | ⟨hmodify, rfl⟩
  · simp [KeepsFilled, PriorityBook.KeepsFilled, hnew]
  · simp [KeepsFilled, PriorityBook.KeepsFilled, hdelete]
  · simp only [KeepsFilled, PriorityBook.KeepsFilled, hmodify, ← hs.resting_eq, forall_const]
    simp [Order.resting]

/-- **Every request** keeps the client up to date exactly if `KeepsFilled` holds. -/
theorem mirrors_next (hs : s.broker.Sound s.requests books) (h : s.feed.Mirrors books)
    (hfresh : (newIds (s.requests ++ [p])).Nodup) :
    (s.next p).feed.Routes (s.broker.booksOf books p) ∧
      ((s.next p).feed.Shows (s.broker.booksOf books p) ↔ s.KeepsFilled (.request p)) := by
  obtain ⟨hhandled, hs'⟩ := hs.handle hfresh
  have hfeed : (s.next p).feed = _ := feed_eq hs'
  rw [hfeed, BrokerRun.next, hhandled.bodies, List.foldl_append, ← feed_eq hs]
  unfold MatchingEngineBroker.callsOf MatchingEngineBroker.booksOf
  cases hop : s.broker.opOf p with
  | none =>
    refine ⟨h.routes, iff_of_true h.order ?_⟩
    intro hmodify o ho
    -- a modification without a ladder finds no order
    cases hL : s.broker.symbolToMatchingEngine.lookup p.symbol with
    | none => simp [MatchingEngineBroker.resting, hL] at ho
    | some L => simp [MatchingEngineBroker.opOf, OePayload.op, hL, hmodify] at hop
  | some op =>
    obtain ⟨hpop, -⟩ := MatchingEngineBroker.op_of_opOf hop
    have hnew := fun henters symbol => hs.find?_fresh hfresh hpop symbol henters
    obtain ⟨hann, hother⟩ := @PriorityBook.shown_step _ p.symbol (hs.ordered p.symbol)
      (hs.live p.symbol) _ (hs.find?_fresh hfresh hpop p.symbol)
    rw [keepsFilled_iff hs hpop]
    exact h.packet hann hnew hother
      (fun t ht => PriorityBook.queuedTrade_step (hs.find?_fresh hfresh hpop p.symbol) ht) _

theorem replicated_iff (hs : s.broker.Sound s.requests books) :
    s.Replicated ↔ s.feed.Shows books := by
  unfold Replicated Bots.MDClient.Shows
  simp only [shown_eq hs]

/-- A heartbeat changes nothing that a client shows. -/
theorem feed_heartbeat (hs : s.broker.Sound s.requests books) :
    (s.after .heartbeat).feed = s.feed := by
  have hheartbeat : (s.after .heartbeat).feed = _ := feed_eq (s := s.after .heartbeat) hs.heartbeat
  rw [hheartbeat, feed_eq hs, after, MatchingEngineBroker.heartbeat,
    MarketDataPublisher.publishHeartbeat, MarketDataPublisher.bodies_send,
    MarketDataPublisher.bodies_writeMsg, List.foldl_append]
  rfl

end BrokerRun

/-- **The feed reproduces the book** in a run whose modifications in place meet orders without
recorded fills; and the next request leaves it reproduced exactly if it keeps to that. -/
theorem feed_replicated {symbols : List UInt32} {ls : List BrokerEvent} {s : BrokerRun}
    (h : Run (Guarded BrokerRun.KeepsFilled BrokerStep) (BrokerRun.start symbols) ls s) :
    s.Replicated ∧
      ∀ p, s.Enabled (.request p) → ((s.next p).Replicated ↔ s.KeepsFilled (.request p)) := by
  have hinv : ∃ books, s.broker.Sound s.requests books ∧ s.feed.Mirrors books := by
    refine h.invariant (I := fun s => ∃ books, s.broker.Sound s.requests books ∧
      s.feed.Mirrors books) ?_ ⟨_, MatchingEngineBroker.sound_start symbols, ?_⟩
    · rintro s l t ⟨books, hs, hmirrors⟩ ⟨hguard, hen, rfl⟩
      cases l with
      | heartbeat => exact ⟨books, hs.heartbeat, by rwa [BrokerRun.feed_heartbeat hs]⟩
      | request p =>
        obtain ⟨hroutes, hshows⟩ := BrokerRun.mirrors_next hs hmirrors hen.2
        exact ⟨_, (hs.handle hen.2).2, hshows.mpr hguard, hroutes⟩
    · rw [BrokerRun.feed_eq (MatchingEngineBroker.sound_start symbols), BrokerRun.start,
        MatchingEngineBroker.start_eq]
      constructor
      · intro symbol e
        rfl
      · rintro symbol e ⟨o, ho, -⟩
        cases ho
  obtain ⟨books, hs, hmirrors⟩ := hinv
  refine ⟨(BrokerRun.replicated_iff hs).mpr hmirrors.order, fun p hen => ?_⟩
  rw [BrokerRun.replicated_iff (hs.handle hen.2).2]
  exact (BrokerRun.mirrors_next hs hmirrors hen.2).2

/-- A partly filled order moves to another price, and is made larger there. -/
theorem feed_replicated_moved :
    ([.request ⟨.newOrder, 1, 7, 1, 100, Side.sell, 10, 50, 0⟩,
      .request ⟨.newOrder, 2, 7, 1, 200, Side.buy, 4, 50, 0⟩,
      .request ⟨.modifyOrder, 1, 7, 2, 100, Side.sell, 12, 51, 0⟩].foldl BrokerRun.after
        (BrokerRun.start [7])).Replicated :=
  (feed_replicated (BrokerRun.run_of_enabled (by decide +kernel) (by decide +kernel))).1

/-- A partly filled order is modified in place: the ladder rests the new quantity, and the feed
shows what the fills leave of it. -/
theorem feed_modified_in_place :
    ∃ s, Run (Guarded (fun s l => s.TwoSided l) BrokerStep) (BrokerRun.start [7])
        [.request ⟨.newOrder, 1, 7, 1, 100, Side.sell, 10, 50, 0⟩,
          .request ⟨.newOrder, 2, 7, 1, 200, Side.buy, 4, 50, 0⟩,
          .request ⟨.modifyOrder, 1, 7, 2, 100, Side.sell, 8, 50, 0⟩] s ∧
      ¬ s.Replicated := by
  refine ⟨_, BrokerRun.run_of_enabled (by decide +kernel) (by decide +kernel), fun h => ?_⟩
  have horder := h 7 1
  revert horder
  decide +kernel

end Ndfex
