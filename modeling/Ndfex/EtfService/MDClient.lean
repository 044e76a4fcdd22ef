import Ndfex.Bots.BestPrices
import Ndfex.MarketData.ExactRecovery
import Ndfex.MatchingEngine.EngineFeed

/-!
# The quotes of the ETF service

`etf_service/md_client.py`: the client takes the first message of each datagram, and keeps the orders
by id and the quantity at each price. It has no case for trades. Its numbers are unbounded; the keys of
its dictionaries are the numbers of the protocol.

## Main definitions

* `EtfService.MDClient`, `EtfService.MDClient.processMessage`: the client, and a datagram
* `EtfService.MDClient.getBestBid`, `EtfService.MDClient.getBestAsk`: the quotes
* `EtfService.MDClient.Mirrors`: the client shows the orders of a client of the bots

## Main results

* `EtfService.MDClient.processMessage_encodes`: a datagram is taken as its first message
* `EtfService.MDClient.Mirrors.take`: every message but a trade is taken as the bots take it
* `EtfService.MDClient.Mirrors.best`: a client that shows the same orders has the same quotes
-/

namespace Ndfex

open Containers Transition Wire

namespace EtfService

/-- `Order`. -/
structure Order where
  orderId : UInt64
  symbol : UInt32
  side : Side
  quantity : UInt32
  price : Int32
deriving DecidableEq

/-- The quantity at each price. -/
abbrev Levels : Type := AList fun _ : Int32 => ℤ

/-- `MDClient`: the orders, the levels of each symbol, and the last number. -/
structure MDClient where
  orders : AList fun _ : UInt64 => Order
  bids : UInt32 → Levels
  asks : UInt32 → Levels
  lastSeqNum : UInt32

namespace MDClient

/-- `MD_MAGIC_NUMBER`: the bytes of `GOIRISH!`. -/
def mdMagicNumber : UInt64 := 0x2148534952494F47

/-- `HEADER_FORMAT`, as the widths of its fields. -/
def headerFormat : List ℕ := [8, 2, 4, 8, 1]

/-- `NEW_ORDER_FORMAT`. -/
def newOrderFormat : List ℕ := [8, 2, 4, 8, 1, 8, 4, 1, 4, 4, 1]

/-- `DELETE_ORDER_FORMAT`. -/
def deleteOrderFormat : List ℕ := [8, 2, 4, 8, 1, 8]

/-- `MODIFY_ORDER_FORMAT`. -/
def modifyOrderFormat : List ℕ := [8, 2, 4, 8, 1, 8, 1, 4, 4]

/-- `MDClient.__init__`. -/
def start : MDClient := ⟨∅, fun _ => ∅, fun _ => ∅, 0⟩

/-- The levels of a side. -/
def levels (c : MDClient) : BookSide → UInt32 → Levels
  | .buy => c.bids
  | .sell => c.asks

/-- The client with the levels of a side and a symbol replaced. -/
def setLevels (c : MDClient) (h : BookSide) (symbol : UInt32) (m : Levels) : MDClient :=
  match h with
  | .buy => { c with bids := Function.update c.bids symbol m }
  | .sell => { c with asks := Function.update c.asks symbol m }

/-- `levels[symbol][price] += quantity`. -/
def addToLevel (c : MDClient) (h : BookSide) (symbol : UInt32) (price : Int32)
    (quantity : UInt32) : MDClient :=
  c.setLevels h symbol
    ((c.levels h symbol).insert price (((c.levels h symbol).lookup price).getD 0 + quantity.toNat))

/-- `levels[symbol][price] -= quantity`, and the price is deleted if nothing is left. -/
def takeFromLevel (c : MDClient) (h : BookSide) (symbol : UInt32) (price : Int32)
    (quantity : UInt32) : MDClient :=
  let left := ((c.levels h symbol).lookup price).getD 0 - quantity.toNat
  if left ≤ 0 then c.setLevels h symbol ((c.levels h symbol).erase price)
  else c.setLevels h symbol ((c.levels h symbol).insert price left)

/-- What `_process_new_order` does with the fields. -/
def newOrder (c : MDClient) (o : Order) : MDClient :=
  { c with orders := c.orders.insert o.orderId o }.addToLevel o.side.bookSide o.symbol o.price
    o.quantity

/-- What `_process_delete_order` does with the fields. -/
def deleteOrder (c : MDClient) (orderId : UInt64) : MDClient :=
  match c.orders.lookup orderId with
  | none => c
  | some o =>
    { c with orders := c.orders.erase orderId }.takeFromLevel o.side.bookSide o.symbol o.price
      o.quantity

/-- What `_process_modify_order` does with the fields. -/
def modifyOrder (c : MDClient) (orderId : UInt64) (side : Side) (quantity : UInt32)
    (price : Int32) : MDClient :=
  match c.orders.lookup orderId with
  | none => c
  | some o =>
    let c := c.takeFromLevel o.side.bookSide o.symbol o.price o.quantity
    { c with orders := c.orders.insert orderId { o with side, quantity, price } }.addToLevel
      side.bookSide o.symbol price quantity

/-- `MDClient._process_new_order`. -/
def processNewOrder (c : MDClient) (data : List UInt8) : MDClient :=
  if data.length < newOrderFormat.sum then c
  else
    match unpackFrom newOrderFormat data with
    | [_, _, _, _, _, orderId, symbol, side, quantity, price, _] =>
      c.newOrder ⟨UInt64.ofNat orderId, UInt32.ofNat symbol, MdBody.sideOf side,
        UInt32.ofNat quantity, MdBody.priceOf price⟩
    | _ => c

/-- `MDClient._process_delete_order`. -/
def processDeleteOrder (c : MDClient) (data : List UInt8) : MDClient :=
  if data.length < deleteOrderFormat.sum then c
  else
    match unpackFrom deleteOrderFormat data with
    | [_, _, _, _, _, orderId] => c.deleteOrder (UInt64.ofNat orderId)
    | _ => c

/-- `MDClient._process_modify_order`. -/
def processModifyOrder (c : MDClient) (data : List UInt8) : MDClient :=
  if data.length < modifyOrderFormat.sum then c
  else
    match unpackFrom modifyOrderFormat data with
    | [_, _, _, _, _, orderId, side, quantity, price] =>
      c.modifyOrder (UInt64.ofNat orderId) (MdBody.sideOf side) (UInt32.ofNat quantity)
        (MdBody.priceOf price)
    | _ => c

/-- `MDClient._process_message`. -/
def processMessage (c : MDClient) (data : List UInt8) : MDClient :=
  if data.length < headerFormat.sum then c
  else
    match unpackFrom headerFormat data with
    | [magic, _, seqNum, _, msgType] =>
      if UInt64.ofNat magic ≠ mdMagicNumber then c
      else
        let c := { c with lastSeqNum := UInt32.ofNat seqNum }
        match MdMsgType.ofByte (UInt8.ofNat msgType) with
        | some .newOrder => c.processNewOrder data
        | some .deleteOrder => c.processDeleteOrder data
        | some .modifyOrder => c.processModifyOrder data
        | _ => c
    | _ => c

/-- The key that comes first: `max` of the bids, `min` of the asks. -/
def firstKey (h : BookSide) (price : Int32) (prices : List Int32) : Int32 :=
  prices.foldl (fun best p => if h.better p best then p else best) price

/-- The quote of a side, or `(0, 0)`. -/
def best (c : MDClient) (h : BookSide) (symbol : UInt32) : ℤ × ℤ :=
  match (c.levels h symbol).keys with
  | [] => (0, 0)
  | price :: prices =>
    let price := firstKey h price prices
    (price.toInt, ((c.levels h symbol).lookup price).getD 0)

/-- `MDClient.get_best_bid`. -/
def getBestBid (c : MDClient) (symbol : UInt32) : ℤ × ℤ := c.best .buy symbol

/-- `MDClient.get_best_ask`. -/
def getBestAsk (c : MDClient) (symbol : UInt32) : ℤ × ℤ := c.best .sell symbol

/-! ### A datagram -/

/-- What the client does with its first message. -/
def take (c : MDClient) : MdBody → MDClient
  | .newOrder orderId symbol side quantity price _ =>
    c.newOrder ⟨orderId, symbol, side, quantity, price⟩
  | .deleteOrder orderId => c.deleteOrder orderId
  | .modifyOrder orderId side quantity price => c.modifyOrder orderId side quantity price
  | .trade .. | .tradeSummary .. | .heartbeat => c

/-- **A datagram is taken** as its first message. -/
theorem processMessage_encodes {m : MdMessage} {ms : List MdMessage} {data : List UInt8}
    (h : MdMessage.Encodes (m :: ms) data) (c : MDClient) :
    c.processMessage data = { c with lastSeqNum := m.seqNum }.take m.body := by
  cases h with
  | @cons _ bs _ timestamp rest =>
    have hfields : unpackFrom headerFormat (m.encode timestamp ++ bs) =
        (m.header timestamp).fields := by
      rw [MdMessage.encode, encodeStruct, List.append_assoc]
      exact unpackFrom_append (m.header timestamp).fits _
    -- the whole struct is the header and the fields behind it
    have hall : unpackFrom (headerFormat ++ m.body.msgType.layout) (m.encode timestamp ++ bs) =
        (m.header timestamp).fields ++ m.body.fields := by
      rw [MdMessage.encode, encodeStruct, ← pack_append (m.header timestamp).fits]
      exact unpackFrom_append ((m.header timestamp).fits.append m.body.fits) bs
    have hlength : m.body.length ≤ (m.encode timestamp ++ bs).length := by
      rw [List.length_append, MdMessage.length_encode]
      exact Nat.le_add_right _ _
    generalize m.encode timestamp ++ bs = data at hfields hall hlength
    have hheaderLength : ¬ data.length < headerFormat.sum := by
      have hle := m.body.length_ge
      exact Nat.not_lt.mpr (Nat.le_trans hle hlength)
    have hmagic : UInt64.ofNat (m.header timestamp).magicNumber.toNat = mdMagicNumber := rfl
    have hseq : UInt32.ofNat (m.header timestamp).seqNum.toNat = m.seqNum := by
      rw [UInt32.ofNat_toNat]
      rfl
    have htype : MdMsgType.ofByte (UInt8.ofNat (m.header timestamp).msgType.toNat) =
        some m.body.msgType := by
      rw [UInt8.ofNat_toNat]
      exact MdMsgType.ofByte_byte _
    unfold processMessage
    rw [if_neg hheaderLength, hfields]
    simp only [MdHeader.fields]
    rw [if_neg (not_not.mpr hmagic), hseq, htype]
    obtain ⟨seqNum, body⟩ := m
    cases body with
    | newOrder orderId symbol side quantity price flags =>
      have hshort : ¬ data.length < newOrderFormat.sum := Nat.not_lt.mpr hlength
      have hstruct : unpackFrom newOrderFormat data = _ := hall
      simp only [MdBody.msgType, processNewOrder, if_neg hshort, hstruct]
      simp [MdHeader.fields, MdBody.fields, take, MdBody.sideOf_byte, MdBody.priceOf]
    | deleteOrder orderId =>
      have hshort : ¬ data.length < deleteOrderFormat.sum := Nat.not_lt.mpr hlength
      have hstruct : unpackFrom deleteOrderFormat data = _ := hall
      simp only [MdBody.msgType, processDeleteOrder, if_neg hshort, hstruct]
      simp [MdHeader.fields, MdBody.fields, take]
    | modifyOrder orderId side quantity price =>
      have hshort : ¬ data.length < modifyOrderFormat.sum := Nat.not_lt.mpr hlength
      have hstruct : unpackFrom modifyOrderFormat data = _ := hall
      simp only [MdBody.msgType, processModifyOrder, if_neg hshort, hstruct]
      simp [MdHeader.fields, MdBody.fields, take, MdBody.sideOf_byte, MdBody.priceOf]
    | trade orderId quantity price => rfl
    | tradeSummary symbol side quantity price => rfl
    | heartbeat => rfl

/-! ### The levels -/

variable {c : MDClient} {t t' : UInt32 → BookSide → Int32 → ℕ} {h : BookSide} {symbol : UInt32}
  {price : Int32} {quantity : UInt32}

/-- The levels of the client are totals, and there is no level of nothing. -/
def Totals (c : MDClient) (t : UInt32 → BookSide → Int32 → ℕ) : Prop :=
  ∀ s h price, (c.levels h s).lookup price =
    if t s h price = 0 then none else some (t s h price : ℤ)

theorem levels_setLevels (c : MDClient) (h h' : BookSide) (symbol s : UInt32) (m : Levels) :
    (c.setLevels h symbol m).levels h' s =
      if h' = h ∧ s = symbol then m else c.levels h' s := by
  cases h <;> cases h' <;> by_cases hs : s = symbol <;> simp [setLevels, levels, hs]

theorem Totals.getD (hc : c.Totals t) (s : UInt32) (h : BookSide) (price : Int32) :
    ((c.levels h s).lookup price).getD 0 = (t s h price : ℤ) := by
  rw [hc s h price]
  split_ifs with hzero
  · rw [hzero]
    rfl
  · rfl

theorem lookup_addToLevel (c : MDClient) (h h' : BookSide) (symbol s : UInt32) (price price' : Int32)
    (quantity : UInt32) :
    ((c.addToLevel h symbol price quantity).levels h' s).lookup price' =
      if s = symbol ∧ h' = h ∧ price' = price then
        some (((c.levels h symbol).lookup price).getD 0 + quantity.toNat)
      else (c.levels h' s).lookup price' := by
  rw [addToLevel, levels_setLevels]
  by_cases hplace : h' = h ∧ s = symbol
  · obtain ⟨rfl, rfl⟩ := hplace
    rw [if_pos ⟨rfl, rfl⟩]
    by_cases hprice : price' = price
    · rw [if_pos ⟨rfl, rfl, hprice⟩, hprice, AList.lookup_insert]
    · rw [if_neg fun hall => hprice hall.2.2, AList.lookup_insert_ne hprice]
  · rw [if_neg hplace, if_neg fun hall => hplace ⟨hall.2.1, hall.1⟩]

theorem lookup_takeFromLevel (c : MDClient) (h h' : BookSide) (symbol s : UInt32)
    (price price' : Int32) (quantity : UInt32) :
    ((c.takeFromLevel h symbol price quantity).levels h' s).lookup price' =
      if s = symbol ∧ h' = h ∧ price' = price then
        if ((c.levels h symbol).lookup price).getD 0 - (quantity.toNat : ℤ) ≤ 0 then none
        else some (((c.levels h symbol).lookup price).getD 0 - (quantity.toNat : ℤ))
      else (c.levels h' s).lookup price' := by
  unfold takeFromLevel
  dsimp only
  generalize ((c.levels h symbol).lookup price).getD 0 - (quantity.toNat : ℤ) = left
  -- the level is deleted if nothing is left of it
  by_cases hplace : h' = h ∧ s = symbol
  · obtain ⟨rfl, rfl⟩ := hplace
    by_cases hprice : price' = price
    · subst hprice
      split_ifs with hgone hall hall
      · rw [levels_setLevels, if_pos ⟨rfl, rfl⟩, AList.lookup_erase]
      · exact absurd ⟨rfl, rfl, rfl⟩ hall
      · rw [levels_setLevels, if_pos ⟨rfl, rfl⟩, AList.lookup_insert]
      · exact absurd ⟨rfl, rfl, rfl⟩ hall
    · have hother : ¬ (s = s ∧ h' = h' ∧ price' = price) := fun hall => hprice hall.2.2
      rw [if_neg hother]
      split_ifs
      · rw [levels_setLevels, if_pos ⟨rfl, rfl⟩, AList.lookup_erase_ne hprice]
      · rw [levels_setLevels, if_pos ⟨rfl, rfl⟩, AList.lookup_insert_ne hprice]
  · have hother : ¬ (s = symbol ∧ h' = h ∧ price' = price) := fun hall => hplace ⟨hall.2.1, hall.1⟩
    rw [if_neg hother]
    split_ifs <;> rw [levels_setLevels, if_neg hplace]

theorem Totals.addToLevel (hc : c.Totals t) (hq : quantity ≠ 0)
    (ht : ∀ s h' price', t' s h' price' = t s h' price' +
      if s = symbol ∧ h' = h ∧ price' = price then quantity.toNat else 0) :
    (c.addToLevel h symbol price quantity).Totals t' := by
  intro s h' price'
  have hpos : quantity.toNat ≠ 0 := fun hzero => hq (UInt32.toNat_inj.mp hzero)
  have hnew := ht s h' price'
  rw [lookup_addToLevel, hc.getD]
  by_cases hall : s = symbol ∧ h' = h ∧ price' = price
  · obtain ⟨rfl, rfl, rfl⟩ := hall
    rw [if_pos ⟨rfl, rfl, rfl⟩] at hnew ⊢
    have hsome : t' s h' price' ≠ 0 := by omega
    rw [if_neg hsome, hnew, Int.natCast_add]
  · rw [if_neg hall] at hnew ⊢
    rw [hnew, Nat.add_zero]
    exact hc s h' price'

theorem Totals.takeFromLevel (hc : c.Totals t)
    (ht : ∀ s h' price', t s h' price' = t' s h' price' +
      if s = symbol ∧ h' = h ∧ price' = price then quantity.toNat else 0) :
    (c.takeFromLevel h symbol price quantity).Totals t' := by
  intro s h' price'
  have hold := ht s h' price'
  rw [lookup_takeFromLevel, hc.getD]
  by_cases hall : s = symbol ∧ h' = h ∧ price' = price
  · obtain ⟨rfl, rfl, rfl⟩ := hall
    rw [if_pos ⟨rfl, rfl, rfl⟩] at hold ⊢
    have hleft : (t s h' price' : ℤ) - quantity.toNat = t' s h' price' := by omega
    rw [hleft]
    exact if_congr (by omega) rfl rfl
  · rw [if_neg hall] at hold ⊢
    rw [Nat.add_zero] at hold
    rw [← hold]
    exact hc s h' price'

@[simp] theorem orders_setLevels (c : MDClient) (h : BookSide) (symbol : UInt32) (m : Levels) :
    (c.setLevels h symbol m).orders = c.orders := by
  cases h <;> rfl

@[simp] theorem orders_addToLevel (c : MDClient) (h : BookSide) (symbol : UInt32) (price : Int32)
    (quantity : UInt32) : (c.addToLevel h symbol price quantity).orders = c.orders :=
  orders_setLevels ..

@[simp] theorem orders_takeFromLevel (c : MDClient) (h : BookSide) (symbol : UInt32) (price : Int32)
    (quantity : UInt32) : (c.takeFromLevel h symbol price quantity).orders = c.orders := by
  unfold takeFromLevel
  dsimp only
  split_ifs <;> exact orders_setLevels ..

/-! ### The orders -/

/-- The totals of the books of a client of the bots. -/
def totalsOf (b : Bots.MDClient) (s : UInt32) (h : BookSide) (price : Int32) : ℕ :=
  (b.book s).atLevel h price

/-- The client shows these orders, and its levels are the totals of the books of the bots. -/
structure Mirrors (c : MDClient) (b : Bots.MDClient) (v : Shown) : Prop where
  shown : ∀ e o, c.orders.lookup e = some o →
    o.orderId = e ∧ v o.symbol e = some ⟨o.side, o.price, o.quantity⟩
  known : ∀ s e, v s e ≠ none → ∃ o, c.orders.lookup e = some o ∧ o.symbol = s
  totals : c.Totals (totalsOf b)

namespace Mirrors

variable {b : Bots.MDClient} {v : Shown}

theorem start : MDClient.start.Mirrors Bots.MDClient.empty Shown.nothing := by
  refine ⟨fun e o ho => ?_, fun s e he => absurd rfl he, fun s h price => ?_⟩
  · cases ho
  · cases h <;> rfl

/-- The number of the last message does not matter. -/
theorem numbered (hc : c.Mirrors b v) (seqNum : UInt32) :
    Mirrors { c with lastSeqNum := seqNum } b v := by
  refine ⟨hc.shown, hc.known, fun s h price => ?_⟩
  cases h with
  | buy => exact hc.totals s .buy price
  | sell => exact hc.totals s .sell price

theorem none_of_none (hc : c.Mirrors b v) {e : UInt64} (he : c.orders.lookup e = none) (s : UInt32) :
    v s e = none := by
  by_contra hne
  obtain ⟨o, ho, -⟩ := hc.known s e hne
  rw [he] at ho
  cases ho

theorem newOrder (hc : c.Mirrors b v) (hb : b.Follows Set.univ v) {orderId : UInt64} {side : Side}
    (flags : UInt8) (hfresh : ∀ s, v s orderId = none) (hq : quantity ≠ 0) :
    (c.newOrder ⟨orderId, symbol, side, quantity, price⟩).Mirrors
      (b.apply (.newOrder orderId symbol side quantity price flags))
      (v.after (.newOrder orderId symbol side quantity price flags)) := by
  -- the id is new to the books of the bots, which keep an order that they have
  have hnew : (b.book symbol).orders.lookup orderId = none := by
    rw [Bots.MDClient.lookup_book, hb.order symbol trivial, hfresh]
  refine ⟨fun e o ho => ?_, fun s e he => ?_, ?_⟩
  · rw [MDClient.newOrder, orders_addToLevel] at ho
    by_cases heq : e = orderId
    · subst heq
      rw [AList.lookup_insert] at ho
      obtain rfl := Option.some.inj ho
      exact ⟨rfl, if_pos ⟨rfl, rfl⟩⟩
    · rw [AList.lookup_insert_ne heq] at ho
      refine ⟨(hc.shown e o ho).1, ?_⟩
      exact (if_neg fun hown => heq hown.2).trans (hc.shown e o ho).2
  · rw [MDClient.newOrder, orders_addToLevel]
    by_cases heq : e = orderId
    · subst heq
      refine ⟨_, AList.lookup_insert _, ?_⟩
      by_contra hne
      have hold : v.after (.newOrder e symbol side quantity price flags) s e = v s e :=
        if_neg fun hown => hne hown.1.symm
      rw [hold, hfresh] at he
      exact he rfl
    · have hold : v.after (.newOrder orderId symbol side quantity price flags) s e = v s e :=
        if_neg fun hown => heq hown.2
      rw [hold] at he
      obtain ⟨o, ho, hs⟩ := hc.known s e he
      exact ⟨o, (AList.lookup_insert_ne heq).trans ho, hs⟩
  · have hinserted : MDClient.Totals
        { c with orders := c.orders.insert orderId ⟨orderId, symbol, side, quantity, price⟩ }
        (totalsOf b) := hc.totals
    refine hinserted.addToLevel hq fun s h' price' => ?_
    unfold totalsOf
    rw [Bots.MDClient.book_apply_newOrder]
    by_cases hs : s = symbol
    · rw [if_pos hs, Bots.OrderBook.atLevel_newOrder hnew, hs]
      simp only [true_and]
    · rw [if_neg hs, if_neg fun hall => hs hall.1, Nat.add_zero]

/-- What the bots do with the book of a known order. -/
theorem totalsOf_onBook (b : Bots.MDClient) {symbol : UInt32} {f : Bots.OrderBook → Bots.OrderBook}
    (hf : f Bots.OrderBook.empty = Bots.OrderBook.empty) (s : UInt32) (h : BookSide)
    (price : Int32) :
    totalsOf (b.onBook symbol f) s h price =
      if s = symbol then (f (b.book symbol)).atLevel h price else totalsOf b s h price := by
  unfold totalsOf
  rw [Bots.MDClient.book_onBook hf]
  split_ifs <;> rfl

/-- An order of the client is in the book of its symbol, and the bots know the symbol. -/
theorem book_of_lookup (hc : c.Mirrors b v) (hb : b.Follows Set.univ v) {orderId : UInt64} {o : Order}
    (ho : c.orders.lookup orderId = some o) :
    (b.book o.symbol).orders.lookup orderId = some ⟨o.side, o.price, o.quantity⟩ ∧
      b.symbolOf orderId = (o.symbol, b) := by
  obtain ⟨-, hv⟩ := hc.shown orderId o ho
  have hroute := hb.routes o.symbol trivial orderId (by rw [hv]; exact Option.some_ne_none _)
  refine ⟨by rw [Bots.MDClient.lookup_book, hb.order o.symbol trivial, hv], ?_⟩
  rw [Bots.MDClient.symbolOf, hroute]

/-- Without an order, the totals are less by its quantity. -/
theorem totalsOf_deleteOrder (hc : c.Mirrors b v) (hb : b.Follows Set.univ v) {orderId : UInt64}
    {o : Order} (ho : c.orders.lookup orderId = some o) (s : UInt32) (h : BookSide) (price : Int32) :
    totalsOf b s h price = totalsOf (b.apply (.deleteOrder orderId)) s h price +
      if s = o.symbol ∧ h = o.side.bookSide ∧ price = o.price then o.quantity.toNat else 0 := by
  obtain ⟨hbook, hroute⟩ := hc.book_of_lookup hb ho
  have hdeleted : b.apply (.deleteOrder orderId) =
      b.onBook o.symbol fun book => book.deleteOrder orderId := by
    simp only [Bots.MDClient.apply, hroute]
  rw [hdeleted, totalsOf_onBook _ rfl]
  by_cases hs : s = o.symbol
  · rw [if_pos hs, hs]
    simp only [true_and]
    exact Bots.OrderBook.atLevel_deleteOrder hbook h price
  · rw [if_neg hs, if_neg fun hall => hs hall.1, Nat.add_zero]

/-- A message about an order that nobody knows changes no totals. -/
theorem totalsOf_unknown (hc : c.Mirrors b v) (hb : b.Follows Set.univ v) {orderId : UInt64}
    (ho : c.orders.lookup orderId = none) {f : Bots.OrderBook → Bots.OrderBook}
    (hf : ∀ book : Bots.OrderBook, book.orders.lookup orderId = none → f book = book) :
    totalsOf ((b.symbolOf orderId).2.onBook (b.symbolOf orderId).1 f) = totalsOf b := by
  have hbook : ∀ s, (b.symbolOf orderId).2.book s = b.book s := b.book_symbolOf orderId
  funext s h price
  rw [totalsOf_onBook _ (hf _ rfl)]
  split_ifs with hs
  · have hnone : ((b.symbolOf orderId).2.book (b.symbolOf orderId).1).orders.lookup orderId = none := by
      rw [hbook, Bots.MDClient.lookup_book, hb.order _ trivial, hc.none_of_none ho]
    rw [hf _ hnone, hbook, ← hs]
    rfl
  · unfold totalsOf
    rw [hbook]

theorem deleteOrder (hc : c.Mirrors b v) (hb : b.Follows Set.univ v) (orderId : UInt64) :
    (c.deleteOrder orderId).Mirrors (b.apply (.deleteOrder orderId))
      (v.after (.deleteOrder orderId)) := by
  have happly : b.apply (.deleteOrder orderId) =
      (b.symbolOf orderId).2.onBook (b.symbolOf orderId).1 fun book => book.deleteOrder orderId := rfl
  have hshown : ∀ s e, v.after (.deleteOrder orderId) s e = if e = orderId then none else v s e :=
    fun _ _ => rfl
  cases ho : c.orders.lookup orderId with
  | none =>
    -- what the client does not know the feed does not show
    have hc' : c.deleteOrder orderId = c := by simp only [MDClient.deleteOrder, ho]
    have hv : v.after (.deleteOrder orderId) = v := by
      funext s e
      rw [hshown]
      split_ifs with he
      · rw [he, hc.none_of_none ho]
      · rfl
    rw [hc', hv]
    refine ⟨hc.shown, hc.known, ?_⟩
    rw [happly, hc.totalsOf_unknown hb ho fun book hnone => by simp [Bots.OrderBook.deleteOrder, hnone]]
    exact hc.totals
  | some o =>
    have hc' : c.deleteOrder orderId =
        MDClient.takeFromLevel { c with orders := c.orders.erase orderId } o.side.bookSide o.symbol
          o.price o.quantity := by simp only [MDClient.deleteOrder, ho]
    rw [hc']
    refine ⟨fun e o' ho' => ?_, fun s e he => ?_, ?_⟩
    · rw [orders_takeFromLevel] at ho'
      have hne : e ≠ orderId := by
        rintro rfl
        rw [AList.lookup_erase] at ho'
        cases ho'
      rw [AList.lookup_erase_ne hne] at ho'
      rw [hshown, if_neg hne]
      exact hc.shown e o' ho'
    · rw [orders_takeFromLevel]
      rw [hshown] at he
      split_ifs at he with hown
      · exact absurd rfl he
      · rw [AList.lookup_erase_ne hown]
        exact hc.known s e he
    · have herased : MDClient.Totals { c with orders := c.orders.erase orderId } (totalsOf b) :=
        hc.totals
      exact herased.takeFromLevel (hc.totalsOf_deleteOrder hb ho)

theorem modifyOrder (hc : c.Mirrors b v) (hb : b.Follows Set.univ v) (orderId : UInt64) (side : Side)
    (price : Int32) (hq : quantity ≠ 0) :
    (c.modifyOrder orderId side quantity price).Mirrors
      (b.apply (.modifyOrder orderId side quantity price))
      (v.after (.modifyOrder orderId side quantity price)) := by
  have happly : b.apply (.modifyOrder orderId side quantity price) =
      (b.symbolOf orderId).2.onBook (b.symbolOf orderId).1
        fun book => book.modifyOrder orderId side quantity price := rfl
  have hshown : ∀ s e, v.after (.modifyOrder orderId side quantity price) s e =
      if e = orderId then (v s e).map fun _ => ⟨side, price, quantity⟩ else v s e :=
    fun _ _ => rfl
  cases ho : c.orders.lookup orderId with
  | none =>
    have hc' : c.modifyOrder orderId side quantity price = c := by
      simp only [MDClient.modifyOrder, ho]
    have hv : v.after (.modifyOrder orderId side quantity price) = v := by
      funext s e
      rw [hshown]
      split_ifs with he
      · rw [he, hc.none_of_none ho]
        rfl
      · rfl
    rw [hc', hv]
    refine ⟨hc.shown, hc.known, ?_⟩
    rw [happly, hc.totalsOf_unknown hb ho fun book hnone => by simp [Bots.OrderBook.modifyOrder, hnone]]
    exact hc.totals
  | some o =>
    obtain ⟨hbook, hroute⟩ := hc.book_of_lookup hb ho
    let taken := c.takeFromLevel o.side.bookSide o.symbol o.price o.quantity
    let o' : Order := { o with side, quantity, price }
    have hc' : c.modifyOrder orderId side quantity price =
        MDClient.addToLevel { taken with orders := taken.orders.insert orderId o' } side.bookSide
          o.symbol price quantity := by
      simp only [MDClient.modifyOrder, ho]
      rfl
    have horders : (c.modifyOrder orderId side quantity price).orders = c.orders.insert orderId o' := by
      rw [hc', orders_addToLevel]
      exact congrArg (AList.insert orderId o') (orders_takeFromLevel ..)
    obtain ⟨hid, hv⟩ := hc.shown orderId o ho
    refine ⟨fun e o₁ ho₁ => ?_, fun s e he => ?_, ?_⟩
    · rw [horders] at ho₁
      rw [hshown]
      by_cases he : e = orderId
      · subst he
        rw [AList.lookup_insert] at ho₁
        obtain rfl := Option.some.inj ho₁
        refine ⟨hid, ?_⟩
        rw [if_pos rfl]
        change (v o.symbol e).map _ = _
        rw [hv]
        rfl
      · rw [AList.lookup_insert_ne he] at ho₁
        rw [if_neg he]
        exact hc.shown e o₁ ho₁
    · rw [horders]
      rw [hshown] at he
      by_cases hown : e = orderId
      · subst hown
        rw [if_pos rfl] at he
        obtain ⟨o₁, ho₁, hs⟩ := hc.known s e fun hnone => he (by rw [hnone]; rfl)
        rw [ho] at ho₁
        obtain rfl := Option.some.inj ho₁
        exact ⟨o', AList.lookup_insert _, hs⟩
      · rw [if_neg hown] at he
        rw [AList.lookup_insert_ne hown]
        exact hc.known s e he
    · rw [hc']
      -- the totals in between are those without the order
      have htaken : taken.Totals (totalsOf (b.apply (.deleteOrder orderId))) :=
        hc.totals.takeFromLevel (hc.totalsOf_deleteOrder hb ho)
      have hinserted : MDClient.Totals { taken with orders := taken.orders.insert orderId o' }
          (totalsOf (b.apply (.deleteOrder orderId))) := htaken
      refine hinserted.addToLevel hq fun s h' price' => ?_
      have hdeleted : b.apply (.deleteOrder orderId) =
          b.onBook o.symbol fun book => book.deleteOrder orderId := by
        simp only [Bots.MDClient.apply, hroute]
      rw [happly, hroute, hdeleted, totalsOf_onBook _ rfl, totalsOf_onBook _ rfl]
      by_cases hs : s = o.symbol
      · rw [if_pos hs, if_pos hs]
        simp only [hs, true_and]
        exact Bots.OrderBook.atLevel_modifyOrder hbook side quantity price h' price'
      · rw [if_neg hs, if_neg hs, if_neg fun hall => hs hall.1, Nat.add_zero]

/-- **Every message but a trade** is taken as the bots take it. -/
theorem take (hc : c.Mirrors b v) (hb : b.Follows Set.univ v) {body : MdBody}
    (hfresh : v.Fresh body) (hpos : body.Positive) (htrade : ¬ body.IsTrade) :
    (c.take body).Mirrors (b.apply body) (v.after body) := by
  cases body with
  | newOrder orderId symbol side quantity price flags =>
    exact hc.newOrder hb flags (hfresh orderId rfl) hpos
  | deleteOrder orderId => exact hc.deleteOrder hb orderId
  | modifyOrder orderId side quantity price => exact hc.modifyOrder hb orderId side price hpos
  | trade orderId quantity price => exact absurd trivial htrade
  | tradeSummary symbol side quantity price => exact absurd trivial htrade
  | heartbeat => exact hc

end Mirrors

/-! ### The quotes -/

/-- The first key comes before the others. -/
theorem firstKey_spec (h : BookSide) (price : Int32) (prices : List Int32) :
    firstKey h price prices ∈ price :: prices ∧
      ∀ p ∈ price :: prices, ¬ h.better p (firstKey h price prices) := by
  induction prices generalizing price with
  | nil =>
    refine ⟨List.mem_cons_self, fun p hp => ?_⟩
    rw [List.mem_singleton.mp hp]
    exact irrefl price
  | cons q prices ih =>
    -- the first of two prices is the one that the loop goes on with
    have hfold : firstKey h price (q :: prices) =
        firstKey h (if h.better q price then q else price) prices := rfl
    rw [hfold]
    split_ifs with hbetter
    · obtain ⟨hmem, hfirst⟩ := ih q
      refine ⟨List.mem_cons_of_mem _ hmem, fun p hp => ?_⟩
      rcases List.mem_cons.mp hp with rfl | hp
      · -- the first price gave way to a better one
        exact fun hp => hfirst q List.mem_cons_self (IsTrans.trans _ _ _ hbetter hp)
      · exact hfirst p hp
    · obtain ⟨hmem, hfirst⟩ := ih price
      refine ⟨?_, fun p hp => ?_⟩
      · rcases List.mem_cons.mp hmem with heq | hmem
        · rw [heq]
          exact List.mem_cons_self
        · exact List.mem_cons_of_mem _ (List.mem_cons_of_mem _ hmem)
      · rcases List.mem_cons.mp hp with rfl | hp
        · exact hfirst p List.mem_cons_self
        · rcases List.mem_cons.mp hp with rfl | hp
          · intro hlt
            rcases trichotomous_of h.better p price with hq | rfl | hq
            · exact hbetter hq
            · exact hfirst p List.mem_cons_self hlt
            · exact hfirst price List.mem_cons_self (IsTrans.trans _ _ _ hq hlt)
          · exact hfirst p (List.mem_cons_of_mem _ hp)

/-- **A client that shows the same orders** has the same quotes, if the levels of the bots are totals. -/
theorem Mirrors.best {b : Bots.MDClient} {v : Shown} (hc : c.Mirrors b v)
    (ht : b.Tallied Set.univ) (h : BookSide) (symbol : UInt32) :
    c.best h symbol =
      ((b.best h symbol).price.toInt, ((b.best h symbol).quantity.toNat : ℤ)) := by
  have hlevel : ∀ price, (b.book symbol).level h price =
      Bots.OrderBook.levelOf ((b.book symbol).atLevel h price) := fun price =>
    (ht symbol trivial h price).2
  have hlookup : ∀ price, (c.levels h symbol).lookup price =
      if (b.book symbol).atLevel h price = 0 then none
      else some ((b.book symbol).atLevel h price : ℤ) := hc.totals symbol h
  -- both have a level where there is something
  have hkeys : ∀ price, price ∈ (c.levels h symbol).keys ↔
      price ∈ ((b.book symbol).levels h).keys := by
    intro price
    rw [← AList.mem_keys, ← AList.lookup_isSome, hlookup, ← OrderedMap.find?_isSome]
    change _ ↔ ((b.book symbol).level h price).isSome
    rw [hlevel, Bots.OrderBook.levelOf]
    split_ifs <;> rfl
  rw [Bots.MDClient.best_eq]
  unfold MDClient.best Bots.OrderBook.best
  cases hbegin : ((b.book symbol).levels h).begin? with
  | none =>
    have hnone := OrderedMap.keys_eq_nil.mpr hbegin
    have hempty : (c.levels h symbol).keys = [] := by
      refine List.eq_nil_iff_forall_not_mem.mpr fun price hprice => ?_
      have hmem := (hkeys price).mp hprice
      rw [hnone] at hmem
      exact List.not_mem_nil hmem
    rw [hempty]
    rfl
  | some entry =>
    obtain ⟨price, quantity⟩ := entry
    obtain ⟨prices, hcons⟩ := OrderedMap.keys_eq_cons hbegin
    have hsorted := ((b.book symbol).levels h).keys_sorted
    rw [hcons] at hsorted
    have hprice : price ∈ (c.levels h symbol).keys := by
      rw [hkeys, hcons]
      exact List.mem_cons_self
    cases hlist : (c.levels h symbol).keys with
    | nil =>
      rw [hlist] at hprice
      exact absurd hprice List.not_mem_nil
    | cons price' prices' =>
      obtain ⟨hmem, hfirst⟩ := firstKey_spec h price' prices'
      rw [← hlist, hkeys, hcons] at hmem
      have heq : firstKey h price' prices' = price := by
        refine (List.mem_cons.mp hmem).resolve_right fun hrest => ?_
        exact hfirst price (hlist ▸ hprice) ((List.pairwise_cons.mp hsorted).1 _ hrest)
      have hquantity : (b.book symbol).level h price = some quantity :=
        OrderedMap.find?_begin? hbegin
      have hsum := Bots.OrderBook.levelOf_getD ((ht symbol trivial).fits h price)
      rw [← hlevel, hquantity, Option.getD_some] at hsum
      dsimp only
      rw [heq, hc.totals.getD, hsum]
      rfl

end MDClient

end EtfService

end Ndfex
