import Ndfex.Bots.MarketMaker

/-!
# The ids of the bots' orders

The bots of a program share a client and one counter of order ids, which each of them raises with every
order that it sends. A bot keeps the ids of the orders it may cancel or modify. What its turn calls is
tended: the orders have the counter's next ids, and what is cancelled or modified was sent before, on the
side it is modified on. Tended turns follow one another whatever bots they are of.

## Main definitions

* `Ticket`, `tickets`: the ids and the sides of the orders that some calls send
* `OeCall.Tends`, `Tended`: calls that follow the orders sent before
* `Turned`: tended calls, and where they leave the counter
* `StackManager.Owns`, `FairValueMarketMaker.Owns`: a bot's orders are among those sent, on their sides

## Main results

* `Turned.append`: turns one after the other
* `StackManager.Owns.process`, `FairValueMarketMaker.Owns.quoteFrom`: the turns of the bots that quote
-/

namespace Ndfex.Bots

open Containers

/-- The id of an order, and its side. -/
structure Ticket where
  orderId : UInt32
  side : Side
deriving DecidableEq, Repr

/-- The ticket of the order that a call sends. -/
def OeCall.ticket? : OeCall → Option Ticket
  | .sendOrder _ orderId side _ _ _ => some ⟨orderId.toUInt32, side⟩
  | _ => none

/-- The tickets of the orders that some calls send. -/
def tickets (ks : List OeCall) : List Ticket := ks.filterMap OeCall.ticket?

theorem tickets_append (ks ks' : List OeCall) : tickets (ks ++ ks') = tickets ks ++ tickets ks' :=
  List.filterMap_append

theorem tickets_cons (k : OeCall) (ks : List OeCall) : tickets (k :: ks) = tickets [k] ++ tickets ks :=
  tickets_append [k] ks

theorem tickets_sendOrder (symbol orderId : UInt32) (side : Side) (quantity : UInt32) (price : Int32)
    (flags : UInt8) :
    tickets [.sendOrder symbol orderId.toUInt64 side quantity price flags] = [⟨orderId, side⟩] := by
  simp [tickets, OeCall.ticket?]

/-- A call follows some orders: a new order takes the next id, and what is cancelled or modified was sent,
on the side it is modified on. -/
def OeCall.Tends (held : List Ticket) (next : UInt32) : OeCall → Prop
  | .sendOrder _ orderId _ _ _ _ => orderId = next.toUInt64
  | .cancelOrder orderId => ∃ t ∈ held, orderId = t.orderId.toUInt64
  | .modifyOrder orderId side _ _ => ∃ t ∈ held, orderId = t.orderId.toUInt64 ∧ side = t.side

/-- Calls one after the other follow the orders sent before. -/
def Tended (held : List Ticket) (next : UInt32) : List OeCall → Prop
  | [] => True
  | k :: ks =>
    k.Tends held next ∧ Tended (held ++ tickets [k]) (next + UInt32.ofNat (tickets [k]).length) ks

/-- The calls of a turn, and the counter behind them. -/
structure Turned (held : List Ticket) (next : UInt32) (ks : List OeCall) (last : UInt32) : Prop where
  tended : Tended held next ks
  counted : last = next + UInt32.ofNat (tickets ks).length

namespace Turned

variable {held : List Ticket} {next last last' : UInt32} {k : OeCall} {ks ks' : List OeCall}

theorem nil (held : List Ticket) (next : UInt32) : Turned held next [] next :=
  ⟨trivial, (UInt32.add_zero next).symm⟩

theorem single (h : k.Tends held next) :
    Turned held next [k] (next + UInt32.ofNat (tickets [k]).length) :=
  ⟨⟨h, trivial⟩, rfl⟩

theorem send (held : List Ticket) (symbol next : UInt32) (side : Side) (quantity : UInt32)
    (price : Int32) (flags : UInt8) :
    Turned held next [.sendOrder symbol next.toUInt64 side quantity price flags] (next + 1) :=
  single rfl

theorem modify {t : Ticket} (ht : t ∈ held) (next quantity : UInt32) (price : Int32) :
    Turned held next [.modifyOrder t.orderId.toUInt64 t.side quantity price] next :=
  ⟨⟨⟨t, ht, rfl, rfl⟩, trivial⟩, (UInt32.add_zero next).symm⟩

/-- The calls behind the first one follow its order, too. -/
theorem tail (h : Turned held next (k :: ks) last) :
    Turned (held ++ tickets [k]) (next + UInt32.ofNat (tickets [k]).length) ks last := by
  refine ⟨h.tended.2, ?_⟩
  rw [h.counted, tickets_cons, List.length_append, UInt32.ofNat_add, UInt32.add_assoc]

/-- **Turns one after the other** are tended. -/
theorem append (h : Turned held next ks last) (h' : Turned (held ++ tickets ks) last ks' last') :
    Turned held next (ks ++ ks') last' := by
  induction ks generalizing held next with
  | nil =>
    have hlast : last = next := h.counted.trans (UInt32.add_zero next)
    rw [hlast] at h'
    simpa [tickets] using h'
  | cons k ks ih =>
    rw [tickets_cons, ← List.append_assoc] at h'
    obtain ⟨htended, hcounted⟩ := ih h.tail h'
    refine ⟨⟨h.tended.1, htended⟩, ?_⟩
    rw [hcounted, List.cons_append, tickets_cons k (ks ++ ks'), List.length_append, UInt32.ofNat_add,
      UInt32.add_assoc]

theorem cancels {ids : List UInt32} (hids : ∀ i ∈ ids, ∃ t ∈ held, t.orderId = i) (next : UInt32) :
    Turned held next (ids.map fun i => .cancelOrder i.toUInt64) next := by
  induction ids with
  | nil => exact nil held next
  | cons i ids ih =>
    obtain ⟨⟨t, ht, hid⟩, hrest⟩ := List.forall_mem_cons.mp hids
    have hcancel : Turned held next [.cancelOrder i.toUInt64] next :=
      ⟨⟨⟨t, ht, congrArg UInt32.toUInt64 hid.symm⟩, trivial⟩, (UInt32.add_zero next).symm⟩
    refine hcancel.append ?_
    rw [show tickets [OeCall.cancelOrder i.toUInt64] = [] from rfl, List.append_nil]
    exact ih hrest

end Turned

/-- A bot's order was sent, on its side. -/
def OpenOrder.Sent (held : List Ticket) (h : BookSide) (o : OpenOrder) : Prop :=
  ⟨o.orderId, StackManager.sideOf h⟩ ∈ held

theorem OpenOrder.Sent.append {held : List Ticket} {h : BookSide} {o : OpenOrder} (ho : o.Sent held h)
    (ts : List Ticket) : o.Sent (held ++ ts) h :=
  List.mem_append_left ts ho

/-! ## The stack of quotes -/

namespace StackManager

variable {m : StackManager} {held : List Ticket} {h : BookSide} {price : Int32} {lastOrderId : UInt32}
  {clock : Clock} {r : Outcome}

/-- The orders of the stack were sent. -/
def Owns (held : List Ticket) (m : StackManager) : Prop := ∀ h, ∀ o ∈ m.orders h, o.Sent held h

theorem Owns.setOrders (hm : m.Owns held) {s : SideOrders h} (hs : ∀ o ∈ s, o.Sent held h) :
    (m.setOrders h s).Owns held := by
  intro h' o ho
  by_cases hside : h' = h
  · subst hside
    rw [orders_setOrders] at ho
    exact hs o ho
  · rw [orders_setOrders_of_ne m hside] at ho
    exact hm h' o ho

theorem Owns.stamp (hm : m.Owns held) (ts : UInt64) : { m with lastOrderSendTs := ts }.Owns held := by
  intro h o ho
  rw [orders_stamp] at ho
  exact hm h o ho

theorem Owns.append (hm : m.Owns held) (ts : List Ticket) : m.Owns (held ++ ts) :=
  fun h o ho => (hm h o ho).append ts

/-- The sweep cancels orders of the stack. -/
theorem Owns.cancels (hm : m.Owns held) (h : BookSide) (price : Int32) (next : UInt32) :
    Turned held next (m.cancels h price) next := by
  have hids : m.cancels h price = (((m.orders h).filter (OpenOrder.ahead h price)).elements.map
      OpenOrder.orderId).map fun i => .cancelOrder i.toUInt64 := by
    rw [List.map_map]
    rfl
  rw [hids]
  refine .cancels (fun i hi => ?_) next
  obtain ⟨o, ho, rfl⟩ := List.mem_map.mp hi
  exact ⟨_, hm h o (OrderedSet.mem_filter.mp ho).1, rfl⟩

/-- **A call of `stack_side`** is tended: the order that it moves is of its stack. -/
theorem Owns.stackSide (hm : m.Owns held) (hr : m.stackSide h price lastOrderId clock = some r) :
    Turned held lastOrderId r.calls r.lastOrderId ∧ r.manager.Owns (held ++ tickets r.calls) := by
  have hkept : ∀ o ∈ m.kept h price, o.Sent held h := fun o ho => hm h o (mem_kept.mp ho).1
  have hcancels := hm.cancels h price lastOrderId
  have hnone : tickets (m.cancels h price) = [] := by
    refine List.filterMap_eq_nil_iff.mpr fun k hk => ?_
    obtain ⟨o, -, rfl⟩ := List.mem_map.mp hk
    rfl
  unfold StackManager.stackSide at hr
  dsimp only at hr
  split_ifs at hr with htracked hfull hrate
  · cases hr
    exact ⟨hcancels, (hm.setOrders hkept).append _⟩
  · cases hlast : (m.kept h price).last? with
    | none =>
      rw [hlast] at hr
      cases hr
    | some worst =>
      rw [hlast] at hr
      cases hr
      have hworst := hkept worst (OrderedSet.mem_of_last hlast)
      refine ⟨hcancels.append ?_, ?_⟩
      · exact .modify (List.mem_append_left _ hworst) lastOrderId m.quantity price
      · refine ((hm.setOrders (fun o ho => ?_)).stamp clock.stamped).append _
        -- the moved order keeps its id
        rcases mem_of_mem_insertElement ho with rfl | ho
        · exact hworst
        · exact hkept o ((OrderedSet.mem_eraseLast hlast).mp ho).1
  · cases hr
    refine ⟨hcancels.append (.send _ m.symbol.symbol lastOrderId (sideOf h) m.quantity price 0), ?_⟩
    refine ((hm.append _).setOrders fun o ho => ?_).stamp clock.stamped
    rcases mem_of_mem_insertElement ho with rfl | ho
    · refine List.mem_append_right _ ?_
      rw [tickets_append, hnone, tickets_sendOrder]
      exact List.mem_singleton.mpr rfl
    · exact (hkept o ho).append _
  · cases hr
    exact ⟨hcancels, (hm.setOrders hkept).append _⟩

theorem Owns.stackPrice (hm : m.Owns held) (hr : m.stackPrice h price lastOrderId clock = some r) :
    Turned held lastOrderId r.calls r.lastOrderId ∧ r.manager.Owns (held ++ tickets r.calls) := by
  unfold StackManager.stackPrice at hr
  split_ifs at hr
  · exact hm.stackSide hr
  · cases hr
    exact ⟨.nil held lastOrderId, hm.append _⟩

/-- **A call of `process`** is tended. -/
theorem Owns.process {c : ProcessCall} (hm : m.Owns held) (hr : m.process c = some r) :
    Turned held c.lastOrderId r.calls r.lastOrderId ∧ r.manager.Owns (held ++ tickets r.calls) := by
  simp only [StackManager.process, Option.bind_eq_bind, Option.bind_eq_some_iff] at hr
  obtain ⟨askPrice, -, hr⟩ := hr
  split_ifs at hr
  · cases hr
    exact ⟨.nil held c.lastOrderId, hm.append _⟩
  · simp only [Option.bind_eq_some_iff] at hr
    obtain ⟨bids, hbids, asks, hasks, hdone⟩ := hr
    cases hdone
    obtain ⟨hbidsTurned, hbidsOwns⟩ := hm.stackPrice hbids
    obtain ⟨hasksTurned, hasksOwns⟩ := hbidsOwns.stackPrice hasks
    refine ⟨hbidsTurned.append hasksTurned, ?_⟩
    rw [tickets_append, ← List.append_assoc]
    exact hasksOwns

theorem owns_start (symbol : SymbolDefinition) (widthInTicks quantity stackDepth : UInt32) :
    (start symbol widthInTicks quantity stackDepth).Owns held := by
  intro h o ho
  cases h <;> cases ho

end StackManager

/-! ## The quotes around a fair value -/

namespace FairValueMarketMaker

variable {m : FairValueMarketMaker} {held : List Ticket} {h : BookSide} {lastOrderId : UInt32}

/-- The orders of the market maker were sent. -/
def Owns (held : List Ticket) (m : FairValueMarketMaker) : Prop :=
  ∀ h symbol, ∀ o ∈ m.orders h symbol, o.Sent held h

theorem Owns.append (hm : m.Owns held) (ts : List Ticket) : m.Owns (held ++ ts) :=
  fun h symbol o ho => (hm h symbol o ho).append ts

theorem Owns.setOrders (hm : m.Owns held) {symbol : UInt32} {os : List OpenOrder}
    (hos : ∀ o ∈ os, o.Sent held h) : (m.setOrders symbol os h).Owns held := by
  intro h' symbol' o ho
  by_cases hsame : h' = h ∧ symbol' = symbol
  · obtain ⟨rfl, rfl⟩ := hsame
    have horders : (m.setOrders symbol' os h').orders h' symbol' = os := by
      cases h' <;> exact Function.update_self ..
    exact hos o (horders ▸ ho)
  · have horders : (m.setOrders symbol os h).orders h' symbol' = m.orders h' symbol' := by
      cases h <;> cases h' <;> first
        | rfl
        | exact Function.update_of_ne (fun heq => hsame ⟨rfl, heq⟩) ..
    exact hm h' symbol' o (horders ▸ ho)

theorem Owns.stamp (hm : m.Owns held) (ts : UInt64) : { m with lastOrderSendTs := ts }.Owns held := by
  intro h symbol o ho
  cases h <;> exact hm _ symbol o ho

/-- **The branches for a side** are tended. -/
theorem Owns.quoteSide (hm : m.Owns held) (h : BookSide) (symbol : UInt32) (price : Int32)
    (lastOrderId : UInt32) (clock : StackManager.Clock) :
    Turned held lastOrderId (m.quoteSide h symbol price lastOrderId clock).calls
        (m.quoteSide h symbol price lastOrderId clock).lastOrderId ∧
      (m.quoteSide h symbol price lastOrderId clock).maker.Owns
        (held ++ tickets (m.quoteSide h symbol price lastOrderId clock).calls) := by
  unfold FairValueMarketMaker.quoteSide
  cases hback : (m.orders h symbol).getLast? with
  | none =>
    refine ⟨.send held symbol lastOrderId (StackManager.sideOf h) m.quantity price 0, ?_⟩
    refine ((hm.append _).setOrders fun o ho => ?_).stamp clock.stamped
    obtain rfl := List.mem_singleton.mp ho
    rw [tickets_sendOrder]
    exact List.mem_append_right _ (List.mem_singleton.mpr rfl)
  | some back =>
    dsimp only
    split_ifs
    · have hsent := hm h symbol back (List.mem_of_getLast? hback)
      have hheld : ∀ i ∈ [back.orderId], ∃ t ∈ held, t.orderId = i := by
        intro i hi
        obtain rfl := List.mem_singleton.mp hi
        exact ⟨_, hsent, rfl⟩
      refine ⟨.cancels hheld lastOrderId, ?_⟩
      exact (hm.setOrders fun o ho => hm h symbol o (List.mem_of_mem_dropLast ho)).append _
    · exact ⟨.nil held lastOrderId, hm.append _⟩

/-- **The body of the loop** is tended. -/
theorem Owns.quoteSymbol (hm : m.Owns held) {symbol : SymbolDefinition} {variance : Int32}
    {r : Reading} {t : Turn} (ht : m.quoteSymbol symbol variance r lastOrderId = some t) :
    Turned held lastOrderId t.calls t.lastOrderId ∧ t.maker.Owns (held ++ tickets t.calls) := by
  simp only [FairValueMarketMaker.quoteSymbol, Option.bind_eq_bind, Option.bind_eq_some_iff] at ht
  obtain ⟨fairValue, -, ht⟩ := ht
  cases ht
  obtain ⟨hbids, hbidsOwns⟩ := hm.quoteSide .buy symbol.symbol
    (m.quotePrice symbol (clamped symbol fairValue) .buy) lastOrderId (r.clock .buy)
  obtain ⟨hasks, hasksOwns⟩ := hbidsOwns.quoteSide .sell symbol.symbol
    (m.quotePrice symbol (clamped symbol fairValue) .sell) _ (r.clock .sell)
  refine ⟨hbids.append hasks, ?_⟩
  rw [tickets_append, ← List.append_assoc]
  exact hasksOwns

/-- What the turns of the loop leave. -/
def last (m : FairValueMarketMaker) (lastOrderId : UInt32) : List Turn → Outcome
  | [] => ⟨m, lastOrderId, []⟩
  | t :: ts =>
    let r := last t.maker t.lastOrderId ts
    { r with calls := t.calls ++ r.calls }

/-- **The loop** is tended. -/
theorem Owns.quoteFrom (hm : m.Owns held) {readings : ℕ → Reading} {i : ℕ}
    {symbols : List (SymbolDefinition × Int32)} {ts : List Turn}
    (hts : FairValueMarketMaker.quoteFrom readings i symbols m lastOrderId = some ts) :
    Turned held lastOrderId (last m lastOrderId ts).calls (last m lastOrderId ts).lastOrderId ∧
      (last m lastOrderId ts).maker.Owns (held ++ tickets (last m lastOrderId ts).calls) := by
  induction symbols generalizing i m held lastOrderId ts with
  | nil =>
    cases hts
    exact ⟨.nil held lastOrderId, hm.append _⟩
  | cons s symbols ih =>
    simp only [FairValueMarketMaker.quoteFrom, Option.bind_eq_bind, Option.bind_eq_some_iff] at hts
    obtain ⟨t, ht, rest, hrest, hdone⟩ := hts
    cases hdone
    obtain ⟨hturned, howns⟩ := hm.quoteSymbol ht
    obtain ⟨hturned', howns'⟩ := ih howns hrest
    refine ⟨hturned.append hturned', ?_⟩
    rw [last, tickets_append, ← List.append_assoc]
    exact howns'

end FairValueMarketMaker

end Ndfex.Bots
