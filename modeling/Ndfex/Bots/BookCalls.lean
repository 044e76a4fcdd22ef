import Ndfex.Bots.PartialBook

/-!
# The calls behind the messages

A message of the feed comes to at most one call of a method of the book of a symbol.

## Main definitions

* `Bots.MDClient.callOn`: the call on the book of a symbol that a message comes to
* `Bots.MDClient.Admits`, `Bots.MDClient.AdmitsAll`: messages that come to admitted calls

## Main results

* `Bots.MDClient.book_apply`: the book of a symbol after a message
* `Bots.MDClient.counted_foldl`: the levels after admitted messages
-/

namespace Ndfex

open Containers

namespace Bots

namespace OrderBook

variable {b b' : OrderBook}

/-- A call about an order that is not there, other than to enter it, does nothing. -/
theorem after_of_lookup_eq_none {call : BookCall} (hcall : call.effect none = none)
    (hnone : b.orders.lookup call.orderId = none) : b.after call = b := by
  cases call with
  | newOrder orderId side quantity price => cases hcall
  | deleteOrder orderId =>
    rw [BookCall.orderId] at hnone
    rw [after, deleteOrder, hnone]
  | modifyOrder orderId side quantity price =>
    rw [BookCall.orderId] at hnone
    rw [after, modifyOrder, hnone]
  | orderTrade orderId quantity =>
    rw [BookCall.orderId] at hnone
    rw [after, orderTrade, hnone]

/-- **A part admits what the whole does**, if it is a part of it afterwards. -/
theorem PartOf.admits {call : BookCall} (hpart : b.PartOf b')
    (hafter : (b.after call).PartOf (b'.after call)) (h : b'.Admits call) : b.Admits call := by
  cases call with
  | newOrder orderId side quantity price =>
    obtain ⟨hnew, hquantity, hfits⟩ := h
    refine ⟨?_, hquantity, (hafter.atLevel_le side.bookSide price).trans_lt hfits⟩
    rw [Option.eq_none_iff_forall_not_mem]
    intro o ho
    have hother := hpart orderId o ho
    rw [hnew] at hother
    cases hother
  | modifyOrder orderId side quantity price =>
    exact ⟨h.1, (hafter.atLevel_le side.bookSide price).trans_lt h.2⟩
  | deleteOrder orderId => trivial
  | orderTrade orderId quantity => trivial

end OrderBook

end Bots

open Bots

/-- The call of a message about an order that was entered before. -/
def MdBody.call : MdBody → Option BookCall
  | .deleteOrder orderId => some (.deleteOrder orderId)
  | .modifyOrder orderId side quantity price => some (.modifyOrder orderId side quantity price)
  | .trade orderId quantity _ => some (.orderTrade orderId quantity)
  | .newOrder .. | .tradeSummary .. | .heartbeat => none

/-- Such a call enters no order. -/
theorem MdBody.effect_none {body : MdBody} {call : BookCall} (hcall : body.call = some call) :
    call.effect none = none := by
  cases body <;> cases hcall <;> rfl

namespace Bots.MDClient

variable {c : MDClient} {s : UInt32} {body : MdBody} {call : BookCall}

/-- The call on the book of a symbol that a message comes to. -/
def callOn (c : MDClient) (s : UInt32) : MdBody → Option BookCall
  | .newOrder orderId symbol side quantity price _ =>
    if symbol = s then some (.newOrder orderId side quantity price) else none
  | .deleteOrder orderId =>
    if c.orderToSymbol.lookup orderId = some s then some (.deleteOrder orderId) else none
  | .modifyOrder orderId side quantity price =>
    if c.orderToSymbol.lookup orderId = some s then some (.modifyOrder orderId side quantity price)
    else none
  | .trade orderId quantity _ =>
    if c.orderToSymbol.lookup orderId = some s then some (.orderTrade orderId quantity) else none
  | .tradeSummary .. | .heartbeat => none

/-- A message about an order comes to the book of the symbol that the order is known under. -/
theorem callOn_of_call (hcall : body.call = some call) (c : MDClient) (s : UInt32) :
    c.callOn s body = if c.orderToSymbol.lookup call.orderId = some s then some call else none := by
  cases body <;> cases hcall <;> rfl

/-- The symbol that `order_to_symbol[order_id]` gives is a known one, or 0. -/
theorem symbolOf_eq_iff (c : MDClient) (orderId : UInt64) (hs : s ≠ 0) :
    s = (c.symbolOf orderId).1 ↔ c.orderToSymbol.lookup orderId = some s := by
  unfold symbolOf
  cases c.orderToSymbol.lookup orderId with
  | none => simpa using hs
  | some symbol =>
    rw [Option.some_inj]
    exact eq_comm

/-- The book after a call, if there is one. -/
theorem elim_ite (b : OrderBook) (p : Prop) [Decidable p] (call : BookCall) :
    (if p then some call else none).elim b b.after = if p then b.after call else b := by
  split_ifs <;> rfl

/-- A method that is called on the book of one symbol. -/
theorem book_onBook_after (hempty : OrderBook.empty.after call = OrderBook.empty) (c : MDClient)
    (symbol s : UInt32) :
    (c.onBook symbol fun b => b.after call).book s =
      (if some symbol = some s then some call else none).elim (c.book s) (c.book s).after := by
  rw [book_onBook hempty, elim_ite]
  by_cases hown : s = symbol
  · rw [if_pos hown, if_pos (congrArg some hown.symm), hown]
  · rw [if_neg hown, if_neg fun heq => hown (Option.some.inj heq).symm]

/-- A new order comes to the book of its symbol. -/
theorem book_newOrder (c : MDClient) (orderId : UInt64) (symbol : UInt32) (side : Side)
    (quantity : UInt32) (price : Int32) (flags : UInt8) (s : UInt32) :
    (c.apply (.newOrder orderId symbol side quantity price flags)).book s =
      (c.callOn s (.newOrder orderId symbol side quantity price flags)).elim (c.book s)
        (c.book s).after := by
  rw [book_apply_newOrder, callOn, elim_ite]
  by_cases hown : s = symbol
  · rw [if_pos hown, if_pos hown.symm, hown]
    rfl
  · rw [if_neg hown, if_neg fun heq => hown heq.symm]

/-- **The book of a symbol after a message.** -/
theorem book_apply (c : MDClient) (body : MdBody) (hs : s ≠ 0) :
    (c.apply body).book s = (c.callOn s body).elim (c.book s) (c.book s).after := by
  -- the messages that look the symbol up by `order_to_symbol[order_id]`
  have hcalled : ∀ (orderId : UInt64) (call : BookCall),
      OrderBook.empty.after call = OrderBook.empty →
      ((c.symbolOf orderId).2.onBook (c.symbolOf orderId).1 fun b => b.after call).book s =
        (if c.orderToSymbol.lookup orderId = some s then some call else none).elim (c.book s)
          (c.book s).after := by
    intro orderId call hempty
    rw [book_onBook hempty, book_symbolOf, book_symbolOf, elim_ite]
    by_cases hknown : c.orderToSymbol.lookup orderId = some s
    · have hown := (symbolOf_eq_iff c orderId hs).mpr hknown
      rw [if_pos hown, if_pos hknown, ← hown]
    · rw [if_neg fun hown => hknown ((symbolOf_eq_iff c orderId hs).mp hown), if_neg hknown]
  cases body with
  | newOrder orderId symbol side quantity price flags => exact book_newOrder ..
  | deleteOrder orderId => exact hcalled orderId (.deleteOrder orderId) rfl
  | modifyOrder orderId side quantity price =>
    exact hcalled orderId (.modifyOrder orderId side quantity price) rfl
  | trade orderId quantity price =>
    rw [callOn, apply]
    cases c.orderToSymbol.lookup orderId with
    | none => rfl
    | some symbol =>
      have hempty : OrderBook.empty.after (.orderTrade orderId quantity) = OrderBook.empty := rfl
      exact book_onBook_after hempty c symbol s
  | tradeSummary symbol side quantity price => rfl
  | heartbeat => rfl

/-- The orders of a symbol after a message about an order. -/
theorem order_of_book {c' : MDClient} (hcall : body.call = some call)
    (hbook : c'.book s = (c.callOn s body).elim (c.book s) (c.book s).after) (e : UInt64) :
    c'.order s e =
      if c.orderToSymbol.lookup call.orderId = some s ∧ e = call.orderId then
        call.effect (c.order s e)
      else c.order s e := by
  rw [← lookup_book, hbook, callOn_of_call hcall, ← lookup_book]
  by_cases hknown : c.orderToSymbol.lookup call.orderId = some s
  · rw [if_pos hknown, Option.elim_some, OrderBook.lookup_after]
    by_cases he : e = call.orderId
    · rw [if_pos he, if_pos ⟨hknown, he⟩, he]
    · rw [if_neg he, if_neg fun hboth => he hboth.2]
  · rw [if_neg hknown, if_neg fun hboth => hknown hboth.1]
    rfl

/-- A message about an order leaves what is known of the symbols. -/
theorem lookup_apply_iff (hcall : body.call = some call) (c : MDClient) (e : UInt64) (hs : s ≠ 0) :
    (c.apply body).orderToSymbol.lookup e = some s ↔ c.orderToSymbol.lookup e = some s := by
  have hsymbolOf : ∀ (orderId : UInt64) (f : OrderBook → OrderBook),
      ((c.symbolOf orderId).2.onBook (c.symbolOf orderId).1 f).orderToSymbol.lookup e = some s ↔
        c.orderToSymbol.lookup e = some s := by
    intro orderId f
    rw [orderToSymbol_onBook]
    unfold symbolOf
    cases hknown : c.orderToSymbol.lookup orderId with
    | some symbol => exact Iff.rfl
    | none =>
      -- operator[] enters the unknown id for the symbol 0, which is no symbol of the feed
      by_cases he : e = orderId
      · rw [he, hknown]
        dsimp only
        rw [AList.lookup_insert]
        simpa using hs.symm
      · dsimp only
        rw [AList.lookup_insert_ne he]
  cases body with
  | newOrder => cases hcall
  | deleteOrder orderId => exact hsymbolOf orderId _
  | modifyOrder orderId side quantity price => exact hsymbolOf orderId _
  | trade orderId quantity price =>
    rw [apply]
    cases c.orderToSymbol.lookup orderId with
    | none => exact Iff.rfl
    | some symbol =>
      dsimp only
      rw [orderToSymbol_onBook]
  | tradeSummary => cases hcall
  | heartbeat => cases hcall

/-! ### Admitted messages -/

/-- The call that a message comes to is admitted by the book of the symbol. -/
def Admits (c : MDClient) (s : UInt32) (body : MdBody) : Prop :=
  ∀ call ∈ c.callOn s body, (c.book s).Admits call

instance (c : MDClient) (s : UInt32) (body : MdBody) : Decidable (c.Admits s body) :=
  inferInstanceAs (Decidable (∀ call ∈ c.callOn s body, (c.book s).Admits call))

/-- Each message is admitted after those before it. -/
def AdmitsAll (c : MDClient) (s : UInt32) : List MdBody → Prop
  | [] => True
  | body :: bodies => c.Admits s body ∧ (c.apply body).AdmitsAll s bodies

instance decidableAdmitsAll (s : UInt32) :
    (bodies : List MdBody) → (c : MDClient) → Decidable (c.AdmitsAll s bodies)
  | [], _ => inferInstanceAs (Decidable True)
  | body :: bodies, c =>
    have := decidableAdmitsAll s bodies (c.apply body)
    inferInstanceAs (Decidable (_ ∧ _))

theorem admitsAll_append (c : MDClient) (s : UInt32) (bodies bodies' : List MdBody) :
    c.AdmitsAll s (bodies ++ bodies') ↔
      c.AdmitsAll s bodies ∧ (bodies.foldl apply c).AdmitsAll s bodies' := by
  induction bodies generalizing c with
  | nil => exact (iff_of_eq (true_and _)).symm
  | cons body bodies ih =>
    rw [List.cons_append, AdmitsAll, AdmitsAll, List.foldl_cons, ih, and_assoc]

/-- **An admitted message** keeps the levels. -/
theorem counted_apply (h : (c.book s).Counted) (hs : s ≠ 0) (hadmits : c.Admits s body) :
    ((c.apply body).book s).Counted := by
  rw [book_apply c body hs]
  cases hcall : c.callOn s body with
  | none => exact h
  | some call => exact h.after (hadmits call hcall)

theorem counted_foldl (h : (c.book s).Counted) (hs : s ≠ 0) {bodies : List MdBody}
    (hadmits : c.AdmitsAll s bodies) : ((bodies.foldl apply c).book s).Counted := by
  induction bodies generalizing c with
  | nil => exact h
  | cons body bodies ih => exact ih (counted_apply h hs hadmits.1) hadmits.2

end Bots.MDClient

end Ndfex
