import Mathlib.Data.List.Sort
import Ndfex.Containers.KeyedList
import Ndfex.MarketData.Shown
import Ndfex.MatchingEngine.MarketDataPublisher

/-!
# The snapshot writer

`SnapshotClient` takes the messages of the feed and puts what the writer needs on a queue;
`SnapshotWriter` keeps the open orders of the symbols that it knows, and from time to time writes a
snapshot of each. The maps of the writer are their keys and a function. What `unordered_map` and
`std::sort` leave open is a parameter of a round.

## Main definitions

* `MdPayload`, `SnapshotClient.payload`: what goes on the queue for a message
* `SnapshotWriter`, `SnapshotWriter.take`: the writer, and the switch of its `process`
* `Snapshot`, `SnapshotWriter.writeSnapshot`: the snapshot of a symbol, and how it is written
* `SnapshotWriter.Keeps`: the writer keeps the orders shown of its symbols

## Main results

* `SnapshotWriter.Keeps.hear`, `SnapshotWriter.Keeps.sort`: the writer keeps up with the feed
* `SnapshotWriter.datagrams_writeSnapshot`: the datagrams of a snapshot
-/

namespace Ndfex

open Containers

/-- `md_payload`. -/
structure MdPayload where
  msgType : MdMsgType
  seqNum : UInt32
  orderId : UInt64
  symbol : UInt32
  side : Side
  quantity : UInt32
  price : Int32
  flags : UInt8
deriving DecidableEq, Repr

/-- What `SnapshotClient::process` puts on the queue for a message. -/
def SnapshotClient.payload (m : MdMessage) : Option MdPayload :=
  match m.body with
  | .newOrder orderId symbol side quantity price flags =>
    some ⟨.newOrder, m.seqNum, orderId, symbol, side, quantity, price, flags⟩
  | .deleteOrder orderId => some ⟨.deleteOrder, m.seqNum, orderId, 0, Side.buy, 0, 0, 0⟩
  | .modifyOrder orderId side quantity price =>
    some ⟨.modifyOrder, m.seqNum, orderId, 0, side, quantity, price, 0⟩
  | .trade orderId quantity price =>
    some ⟨.trade, m.seqNum, orderId, 0, Side.buy, quantity, price, 0⟩
  -- trade summaries are not used
  | .tradeSummary .. => none
  | .heartbeat => some ⟨.heartbeat, m.seqNum, 0, 0, Side.buy, 0, 0, 0⟩

/-- The fields of an `md::new_order` after its header. -/
structure SnapshotOrder where
  orderId : UInt64
  symbol : UInt32
  side : Side
  quantity : UInt32
  price : Int32
  flags : UInt8
deriving DecidableEq, Repr

/-- The messages of a snapshot. -/
inductive SnapshotMessage
  | info (symbol bidCount askCount lastMdSeqNum : UInt32)
  | newOrder (o : SnapshotOrder)
deriving DecidableEq, Repr

/-- The size of the packed struct of a message. -/
def SnapshotMessage.length : SnapshotMessage → ℕ
  | .info .. => mdHeaderSize + 4 + 4 + 4 + 4
  | .newOrder _ => mdHeaderSize + 8 + 4 + 1 + 4 + 4 + 1

theorem SnapshotMessage.length_pos (m : SnapshotMessage) : 0 < m.length := by
  cases m <;> simp [SnapshotMessage.length, mdHeaderSize]

/-- The order as a client shows it. -/
def SnapshotOrder.shown (o : SnapshotOrder) : Bots.Order := ⟨o.side, o.price, o.quantity⟩

/-- The snapshot of a symbol. -/
structure Snapshot where
  symbol : UInt32
  lastMdSeqNum : UInt32
  bids : List SnapshotOrder
  asks : List SnapshotOrder

/-- The orders of a snapshot, as they are written. -/
def Snapshot.orders (x : Snapshot) : List SnapshotOrder := x.bids ++ x.asks

/-- The messages of a snapshot. The counts are cut to 32 bits. -/
def Snapshot.messages (x : Snapshot) : List SnapshotMessage :=
  .info x.symbol (UInt32.ofNat x.bids.length) (UInt32.ofNat x.asks.length) x.lastMdSeqNum ::
    x.orders.map .newOrder

/-- The choices of a round: in which order the symbols are traversed, and how orders of one price are
sorted. -/
structure RoundChoices where
  traverse : List UInt32 → List UInt32
  traverse_perm : ∀ l, (traverse l).Perm l
  sortBids : List SnapshotOrder → List SnapshotOrder
  sortBids_perm : ∀ l, (sortBids l).Perm l
  sortBids_sorted : ∀ l, (sortBids l).Pairwise fun a b => b.price ≤ a.price
  sortAsks : List SnapshotOrder → List SnapshotOrder
  sortAsks_perm : ∀ l, (sortAsks l).Perm l
  sortAsks_sorted : ∀ l, (sortAsks l).Pairwise fun a b => a.price ≤ b.price

/-- The comparison of the bids, as a total order on prices. -/
abbrev SnapshotOrder.BidLE (a b : SnapshotOrder) : Prop := b.price ≤ a.price

/-- The comparison of the asks. -/
abbrev SnapshotOrder.AskLE (a b : SnapshotOrder) : Prop := a.price ≤ b.price

instance : Std.Total SnapshotOrder.BidLE := ⟨fun a b => Int32.le_total b.price a.price⟩

instance : IsTrans SnapshotOrder SnapshotOrder.BidLE := ⟨fun _ _ _ h h' => Int32.le_trans h' h⟩

instance : Std.Total SnapshotOrder.AskLE := ⟨fun a b => Int32.le_total a.price b.price⟩

instance : IsTrans SnapshotOrder SnapshotOrder.AskLE := ⟨fun _ _ _ h h' => Int32.le_trans h h'⟩

/-- Symbols in the order of their entry, and a stable sort. -/
def RoundChoices.stable : RoundChoices where
  traverse := id
  traverse_perm := .refl
  sortBids := List.insertionSort SnapshotOrder.BidLE
  sortBids_perm := List.perm_insertionSort _
  sortBids_sorted := List.pairwise_insertionSort _
  sortAsks := List.insertionSort SnapshotOrder.AskLE
  sortAsks_perm := List.perm_insertionSort _
  sortAsks_sorted := List.pairwise_insertionSort _

/-- `SnapshotWriter`. -/
structure SnapshotWriter where
  lastMdSeqNum : UInt32
  symbols : List UInt32
  bids : UInt32 → List SnapshotOrder
  asks : UInt32 → List SnapshotOrder
  orderToSymbol : AList fun _ : UInt64 => UInt32
  buffer : List SnapshotMessage
  datagrams : List (List SnapshotMessage)

namespace SnapshotWriter

/-- The constructor. -/
def start : SnapshotWriter := ⟨0, [1, 2], fun _ => [], fun _ => [], ∅, [], []⟩

/-- `sizeof(buffer)`. -/
def bufferCapacity : ℕ := 1460

/-- The writer with the bids of a symbol replaced. -/
def setBids (w : SnapshotWriter) (symbol : UInt32) (os : List SnapshotOrder) : SnapshotWriter :=
  { w with bids := Function.update w.bids symbol os }

/-- The writer with the asks of a symbol replaced. -/
def setAsks (w : SnapshotWriter) (symbol : UInt32) (os : List SnapshotOrder) : SnapshotWriter :=
  { w with asks := Function.update w.asks symbol os }

/-- The order that a payload describes. -/
def order (p : MdPayload) (symbol : UInt32) : SnapshotOrder :=
  ⟨p.orderId, symbol, p.side, p.quantity, p.price, p.flags⟩

/-- The case `NEW_ORDER`. -/
def newOrder (w : SnapshotWriter) (p : MdPayload) : SnapshotWriter :=
  if p.symbol ∉ w.symbols then w
  else
    let w := if p.side = Side.buy then w.setBids p.symbol (w.bids p.symbol ++ [order p p.symbol])
      else w.setAsks p.symbol (w.asks p.symbol ++ [order p p.symbol])
    { w with orderToSymbol := w.orderToSymbol.insert p.orderId p.symbol }

/-- The case `DELETE_ORDER`. -/
def deleteOrder (w : SnapshotWriter) (p : MdPayload) : SnapshotWriter :=
  match w.orderToSymbol.lookup p.orderId with
  | none => w
  | some symbol =>
    let w := w.setBids symbol ((w.bids symbol).filter fun o => o.orderId ≠ p.orderId)
    let w := w.setAsks symbol ((w.asks symbol).filter fun o => o.orderId ≠ p.orderId)
    { w with orderToSymbol := w.orderToSymbol.erase p.orderId }

/-- An order modified where it stands. -/
def modified (p : MdPayload) (o : SnapshotOrder) : Option SnapshotOrder :=
  some { o with quantity := p.quantity, price := p.price, flags := p.flags }

/-- The case `MODIFY_ORDER`: an order that changed its side moves to the other list. -/
def modifyOrder (w : SnapshotWriter) (p : MdPayload) : SnapshotWriter :=
  match w.orderToSymbol.lookup p.orderId with
  | none => w
  | some symbol =>
    if (findKey SnapshotOrder.orderId p.orderId (w.bids symbol)).isSome then
      if p.side = Side.buy then
        w.setBids symbol (atKey SnapshotOrder.orderId p.orderId (modified p) (w.bids symbol))
      else
        (w.setBids symbol (atKey SnapshotOrder.orderId p.orderId (fun _ => none)
          (w.bids symbol))).setAsks symbol (w.asks symbol ++ [order p symbol])
    else if (findKey SnapshotOrder.orderId p.orderId (w.asks symbol)).isSome then
      if p.side = Side.sell then
        w.setAsks symbol (atKey SnapshotOrder.orderId p.orderId (modified p) (w.asks symbol))
      else
        (w.setAsks symbol (atKey SnapshotOrder.orderId p.orderId (fun _ => none)
          (w.asks symbol))).setBids symbol (w.bids symbol ++ [order p symbol])
    else w

/-- What a trade leaves of an order; one of more than the order's quantity leaves it as it is. -/
def traded (quantity : UInt32) (o : SnapshotOrder) : Option SnapshotOrder :=
  if o.quantity < quantity then some o
  else if o.quantity - quantity = 0 then none
  else some { o with quantity := o.quantity - quantity }

/-- The case `TRADE`. -/
def trade (w : SnapshotWriter) (p : MdPayload) : SnapshotWriter :=
  match w.orderToSymbol.lookup p.orderId with
  | none => w
  | some symbol =>
    if (findKey SnapshotOrder.orderId p.orderId (w.bids symbol)).isSome then
      w.setBids symbol (atKey SnapshotOrder.orderId p.orderId (traded p.quantity) (w.bids symbol))
    else
      w.setAsks symbol (atKey SnapshotOrder.orderId p.orderId (traded p.quantity) (w.asks symbol))

/-- The switch of `SnapshotWriter::process`. -/
def take (w : SnapshotWriter) (p : MdPayload) : SnapshotWriter :=
  let w := { w with lastMdSeqNum := p.seqNum }
  match p.msgType with
  | .newOrder => w.newOrder p
  | .deleteOrder => w.deleteOrder p
  | .modifyOrder => w.modifyOrder p
  | .trade => w.trade p
  | .heartbeat | .tradeSummary | .snapshotInfo => w

/-- The writer after a message of the feed. -/
def hear (w : SnapshotWriter) (m : MdMessage) : SnapshotWriter :=
  match SnapshotClient.payload m with
  | none => w
  | some p => w.take p

/-! ### Rounds -/

/-- The sorting at the start of a round. -/
def sort (w : SnapshotWriter) (c : RoundChoices) : SnapshotWriter :=
  { w with
    bids := fun symbol => c.sortBids (w.bids symbol)
    asks := fun symbol => c.sortAsks (w.asks symbol) }

/-- `buffer_size`. -/
def bufferSize (w : SnapshotWriter) : ℕ := (w.buffer.map SnapshotMessage.length).sum

/-- `SnapshotWriter::send`. -/
def send (w : SnapshotWriter) : SnapshotWriter :=
  { w with datagrams := w.datagrams ++ [w.buffer], buffer := [] }

/-- `SnapshotWriter::write_order` and `write_snapshot_info`. -/
def write (w : SnapshotWriter) (m : SnapshotMessage) : SnapshotWriter :=
  let w := if w.bufferSize + m.length > bufferCapacity then w.send else w
  { w with buffer := w.buffer ++ [m] }

/-- The snapshot of a symbol. -/
def snapshotOf (w : SnapshotWriter) (symbol : UInt32) : Snapshot :=
  ⟨symbol, w.lastMdSeqNum, w.bids symbol, w.asks symbol⟩

/-- The body of the loop of a round. -/
def writeSnapshot (w : SnapshotWriter) (symbol : UInt32) : SnapshotWriter :=
  ((w.snapshotOf symbol).messages.foldl write w).send

/-! ### What the writer keeps -/

/-- The open orders of a symbol. -/
def orders (w : SnapshotWriter) (symbol : UInt32) : List SnapshotOrder :=
  w.bids symbol ++ w.asks symbol

theorem orders_setBids (w : SnapshotWriter) (symbol s : UInt32) (os : List SnapshotOrder) :
    (w.setBids symbol os).orders s =
      if s = symbol then os ++ w.asks symbol else w.orders s := by
  unfold SnapshotWriter.orders setBids
  dsimp only
  split_ifs with hs
  · rw [hs, Function.update_self]
  · rw [Function.update_of_ne hs]

theorem orders_setAsks (w : SnapshotWriter) (symbol s : UInt32) (os : List SnapshotOrder) :
    (w.setAsks symbol os).orders s =
      if s = symbol then w.bids symbol ++ os else w.orders s := by
  unfold SnapshotWriter.orders setAsks
  dsimp only
  split_ifs with hs
  · rw [hs, Function.update_self]
  · rw [Function.update_of_ne hs]

/-- The open order with an id. -/
abbrev find (w : SnapshotWriter) (symbol : UInt32) (e : UInt64) : Option SnapshotOrder :=
  findKey SnapshotOrder.orderId e (w.orders symbol)

/-- An order that is modified where it stands has the side of the message already. -/
def KeepsSide (w : SnapshotWriter) (p : MdPayload) : Prop :=
  p.msgType = .modifyOrder → ∀ symbol ∈ w.orderToSymbol.lookup p.orderId,
    ∀ o ∈ w.find symbol p.orderId,
      ((findKey SnapshotOrder.orderId p.orderId (w.bids symbol)).isSome → p.side = Side.buy →
        o.side = Side.buy) ∧
      (findKey SnapshotOrder.orderId p.orderId (w.bids symbol) = none → p.side = Side.sell →
        o.side = Side.sell)

instance (w : SnapshotWriter) : DecidablePred w.KeepsSide := fun p =>
  inferInstanceAs (Decidable (p.msgType = .modifyOrder → ∀ symbol ∈ w.orderToSymbol.lookup p.orderId,
    ∀ o ∈ w.find symbol p.orderId,
      ((findKey SnapshotOrder.orderId p.orderId (w.bids symbol)).isSome → p.side = Side.buy →
        o.side = Side.buy) ∧
      (findKey SnapshotOrder.orderId p.orderId (w.bids symbol) = none → p.side = Side.sell →
        o.side = Side.sell)))

/-- The writer keeps the orders shown of the symbols that it knows. -/
structure Keeps (w : SnapshotWriter) (v : Shown) : Prop where
  nodup : ∀ symbol, ((w.orders symbol).map SnapshotOrder.orderId).Nodup
  symbol : ∀ symbol, ∀ o ∈ w.orders symbol, o.symbol = symbol
  shown : ∀ symbol ∈ w.symbols, ∀ e, (w.find symbol e).map SnapshotOrder.shown = v symbol e
  routes : ∀ symbol ∈ w.symbols, ∀ e, v symbol e ≠ none →
    w.orderToSymbol.lookup e = some symbol
  known : ∀ e symbol, w.orderToSymbol.lookup e = some symbol → symbol ∈ w.symbols

namespace Keeps

variable {w w' : SnapshotWriter} {v : Shown} {symbol : UInt32} {orderId : UInt64} {p : MdPayload}

theorem start : SnapshotWriter.start.Keeps Shown.nothing :=
  ⟨fun _ => List.nodup_nil, fun _ _ h => absurd h List.not_mem_nil, fun _ _ _ => rfl,
    fun _ _ _ h => absurd rfl h, fun _ _ h => by cases h⟩

/-- What the writer does with other fields. -/
theorem congr (h : w.Keeps v) (hsymbols : w'.symbols = w.symbols) (hbids : w'.bids = w.bids)
    (hasks : w'.asks = w.asks) (hroutes : w'.orderToSymbol = w.orderToSymbol) : w'.Keeps v := by
  have horders : w'.orders = w.orders := by
    funext symbol
    rw [SnapshotWriter.orders, SnapshotWriter.orders, hbids, hasks]
  refine ⟨?_, ?_, ?_, ?_, ?_⟩
  · rw [horders]
    exact h.nodup
  · rw [horders]
    exact h.symbol
  · rw [hsymbols]
    intro symbol hs e
    rw [find, horders]
    exact h.shown symbol hs e
  · rw [hsymbols, hroutes]
    exact h.routes
  · rw [hsymbols, hroutes]
    exact h.known

/-- The order of the lists does not matter. -/
theorem perm (h : w.Keeps v) (hsymbols : w'.symbols = w.symbols)
    (hperm : ∀ symbol, (w'.orders symbol).Perm (w.orders symbol))
    (hroutes : w'.orderToSymbol = w.orderToSymbol) : w'.Keeps v := by
  refine ⟨fun symbol => ?_, fun symbol o ho => ?_, fun symbol hs e => ?_, ?_, ?_⟩
  · exact ((hperm symbol).map _).nodup_iff.mpr (h.nodup symbol)
  · exact h.symbol symbol o ((hperm symbol).mem_iff.mp ho)
  · rw [hsymbols] at hs
    rw [find, findKey_perm (h.nodup symbol) (hperm symbol)]
    exact h.shown symbol hs e
  · rw [hsymbols, hroutes]
    exact h.routes
  · rw [hsymbols, hroutes]
    exact h.known

theorem sort (h : w.Keeps v) (c : RoundChoices) : (w.sort c).Keeps v :=
  h.perm rfl (fun _ => (c.sortBids_perm _).append (c.sortAsks_perm _)) rfl

/-- A message about an order that the writer does not know. -/
theorem unknown (h : w.Keeps v) {g : Option Bots.Order → Option Bots.Order} (hnone : g none = none)
    (hroute : w.orderToSymbol.lookup orderId = none) :
    w.Keeps fun s e => if e = orderId then g (v s e) else v s e := by
  have hsame : ∀ s ∈ w.symbols, ∀ e, (if e = orderId then g (v s e) else v s e) = v s e := by
    intro s hs e
    split_ifs with he
    · have hv : v s e = none := by
        by_contra hne
        have hknown := h.routes s hs e hne
        rw [he, hroute] at hknown
        cases hknown
      rw [hv, hnone]
    · rfl
  refine ⟨h.nodup, h.symbol, fun s hs e => ?_, fun s hs e he => ?_, h.known⟩
  · rw [hsame s hs e]
    exact h.shown s hs e
  · rw [hsame s hs e] at he
    exact h.routes s hs e he

/-- A message about an order that the writer knows. -/
theorem change (h : w.Keeps v) {g : Option Bots.Order → Option Bots.Order} (hnone : g none = none)
    (hroute : w.orderToSymbol.lookup orderId = some symbol) (hsymbols : w'.symbols = w.symbols)
    (hother : ∀ s, s ≠ symbol → w'.orders s = w.orders s) {l : List SnapshotOrder}
    (hperm : (w'.orders symbol).Perm l) (hnd : (l.map SnapshotOrder.orderId).Nodup)
    (hown : ∀ o ∈ l, o.symbol = symbol)
    (hshown : ∀ e, (findKey SnapshotOrder.orderId e l).map SnapshotOrder.shown =
      if e = orderId then g ((w.find symbol e).map SnapshotOrder.shown)
      else (w.find symbol e).map SnapshotOrder.shown)
    (hroutes : ∀ e s, w'.orderToSymbol.lookup e = some s → w.orderToSymbol.lookup e = some s)
    (hkept : ∀ e, w'.orderToSymbol.lookup e = w.orderToSymbol.lookup e ∨
      e = orderId ∧ ∀ o, g o = none) :
    w'.Keeps fun s e => if e = orderId then g (v s e) else v s e := by
  refine ⟨fun s => ?_, fun s o ho => ?_, fun s hs e => ?_, fun s hs e he => ?_, fun e s hs => ?_⟩
  · by_cases hsym : s = symbol
    · rw [hsym]
      exact (hperm.map _).nodup_iff.mpr hnd
    · rw [hother s hsym]
      exact h.nodup s
  · by_cases hsym : s = symbol
    · rw [hsym] at ho ⊢
      exact hown o (hperm.mem_iff.mp ho)
    · rw [hother s hsym] at ho
      exact h.symbol s o ho
  · rw [hsymbols] at hs
    by_cases hsym : s = symbol
    · subst hsym
      rw [find, findKey_perm hnd hperm, hshown, h.shown s hs]
    · rw [find, hother s hsym, h.shown s hs]
      -- the order stands under its symbol only
      split_ifs with he
      · have hv : v s e = none := by
          by_contra hne
          have hknown := h.routes s hs e hne
          rw [he, hroute] at hknown
          exact hsym (Option.some.inj hknown).symm
        rw [hv, hnone]
      · rfl
  · rw [hsymbols] at hs
    rcases hkept e with hsame | ⟨rfl, hgone⟩
    · rw [hsame]
      refine h.routes s hs e fun hv => he ?_
      rw [hv, hnone, ite_self]
    · rw [if_pos rfl, hgone] at he
      exact absurd rfl he
  · rw [hsymbols]
    exact h.known e s (hroutes e s hs)

/-- Only the orders of its symbols matter to the writer. -/
theorem of_eq {v' : Shown} (h : w.Keeps v) (hv : ∀ s ∈ w.symbols, ∀ e, v' s e = v s e) :
    w.Keeps v' := by
  refine ⟨h.nodup, h.symbol, fun s hs e => ?_, fun s hs e he => ?_, h.known⟩
  · rw [hv s hs e]
    exact h.shown s hs e
  · rw [hv s hs e] at he
    exact h.routes s hs e he

/-- An order that is not shown under a symbol of the writer is not found there. -/
theorem find_eq_none {s : UInt32} {e : UInt64} (h : w.Keeps v) (hs : s ∈ w.symbols) :
    w.find s e = none ↔ v s e = none := by
  rw [← h.shown s hs e, Option.map_eq_none_iff]

/-- An order comes in under one of the writer's symbols. -/
theorem insert (h : w.Keeps v) {o : SnapshotOrder} (hfresh : ∀ s, v s o.orderId = none)
    (hsym : o.symbol ∈ w.symbols) (hsymbols : w'.symbols = w.symbols)
    (hperm : (w'.orders o.symbol).Perm (w.orders o.symbol ++ [o]))
    (hother : ∀ s, s ≠ o.symbol → w'.orders s = w.orders s)
    (hroutes : w'.orderToSymbol = w.orderToSymbol.insert o.orderId o.symbol) :
    w'.Keeps fun s e => if s = o.symbol ∧ e = o.orderId then some o.shown else v s e := by
  -- the id is new, so that the list has it once
  have hnone : w.find o.symbol o.orderId = none := (h.find_eq_none hsym).mpr (hfresh _)
  have hnd : ((w.orders o.symbol ++ [o]).map SnapshotOrder.orderId).Nodup := by
    rw [List.map_append, List.map_singleton]
    refine List.Nodup.append (h.nodup _) (List.nodup_singleton _) ?_
    rw [List.disjoint_singleton]
    intro hmem
    obtain ⟨o', ho', hid⟩ := List.mem_map.mp hmem
    exact findKey_eq_none.mp hnone o' ho' hid
  refine ⟨fun s => ?_, fun s o' ho' => ?_, fun s hs e => ?_, fun s hs e he => ?_, fun e s hs => ?_⟩
  · by_cases hown : s = o.symbol
    · rw [hown]
      exact (hperm.map _).nodup_iff.mpr hnd
    · rw [hother s hown]
      exact h.nodup s
  · by_cases hown : s = o.symbol
    · rw [hown] at ho' ⊢
      rcases List.mem_append.mp (hperm.mem_iff.mp ho') with hold | hnew
      · exact h.symbol _ o' hold
      · rw [List.mem_singleton.mp hnew]
    · rw [hother s hown] at ho'
      exact h.symbol s o' ho'
  · rw [hsymbols] at hs
    by_cases hown : s = o.symbol
    · rw [hown, find, findKey_perm hnd hperm, findKey_append, findKey_cons, findKey_nil]
      by_cases he : e = o.orderId
      · rw [he, if_pos rfl, if_pos ⟨rfl, rfl⟩]
        exact congrArg (fun x => (x.or (some o)).map SnapshotOrder.shown) hnone
      · rw [if_neg fun heq => he heq.symm, if_neg fun hboth => he hboth.2, Option.or_none]
        exact h.shown _ hsym e
    · rw [if_neg fun hboth => hown hboth.1, find, hother s hown]
      exact h.shown s hs e
  · rw [hsymbols] at hs
    rw [hroutes]
    by_cases hid : e = o.orderId
    · by_cases hown : s = o.symbol
      · rw [hid, hown]
        exact AList.lookup_insert _
      · rw [if_neg fun hboth => hown hboth.1, hid] at he
        exact absurd (hfresh s) he
    · rw [if_neg fun hboth => hid hboth.2] at he
      exact (AList.lookup_insert_ne hid).trans (h.routes s hs e he)
  · rw [hsymbols]
    rw [hroutes] at hs
    by_cases hid : e = o.orderId
    · rw [hid, AList.lookup_insert] at hs
      rwa [← Option.some.inj hs]
    · rw [AList.lookup_insert_ne hid] at hs
      exact h.known e s hs

/-! #### The messages -/

theorem newOrder (h : w.Keeps v) (hfresh : ∀ s, v s p.orderId = none) :
    (w.newOrder p).Keeps fun s e =>
      if s = p.symbol ∧ e = p.orderId then some ⟨p.side, p.price, p.quantity⟩ else v s e := by
  unfold SnapshotWriter.newOrder
  by_cases hsym : p.symbol ∈ w.symbols
  · rw [if_neg (not_not_intro hsym)]
    by_cases hbuy : p.side = Side.buy
    · rw [if_pos hbuy]
      refine h.insert (o := order p p.symbol) hfresh hsym rfl ?_ (fun s hs => ?_) rfl
      · have horders := orders_setBids w p.symbol p.symbol (w.bids p.symbol ++ [order p p.symbol])
        refine (List.Perm.of_eq horders).trans ?_
        rw [if_pos rfl, List.append_assoc, orders, List.append_assoc]
        exact List.perm_append_comm.append_left _
      · exact (orders_setBids w p.symbol s _).trans (if_neg hs)
    · rw [if_neg hbuy]
      refine h.insert (o := order p p.symbol) hfresh hsym rfl ?_ (fun s hs => ?_) rfl
      · refine List.Perm.of_eq ((orders_setAsks w p.symbol p.symbol _).trans ?_)
        rw [if_pos rfl, orders, List.append_assoc]
        rfl
      · exact (orders_setAsks w p.symbol s _).trans (if_neg hs)
  · -- an order of a symbol that the writer does not carry shows nowhere
    rw [if_pos hsym]
    refine h.of_eq fun s hs e => if_neg ?_
    rintro ⟨rfl, -⟩
    exact hsym hs

theorem deleteOrder (h : w.Keeps v) :
    (w.deleteOrder p).Keeps fun s e => if e = p.orderId then none else v s e := by
  unfold SnapshotWriter.deleteOrder
  split
  · next hroute => exact h.unknown (g := fun _ => none) rfl hroute
  next symbol hroute =>
  have hsym := h.known _ _ hroute
  refine h.change (g := fun _ => none) (l := (w.orders symbol).filter fun o => o.orderId ≠ p.orderId)
    rfl hroute rfl (fun s hs => ?_) ?_ ?_ (fun o ho => ?_) (fun e => ?_) (fun e s hs => ?_)
    (fun e => ?_)
  · exact (orders_setAsks _ symbol s _).trans <| (if_neg hs).trans <|
      (orders_setBids w symbol s _).trans (if_neg hs)
  · refine (List.Perm.of_eq (orders_setAsks (w.setBids symbol _) symbol symbol _)).trans ?_
    rw [if_pos rfl, orders, List.filter_append]
    exact List.Perm.of_eq (congrArg (· ++ _) (Function.update_self ..))
  · exact (h.nodup symbol).sublist (List.filter_sublist.map _)
  · exact h.symbol symbol o (List.mem_of_mem_filter ho)
  · rw [findKey_filter_ne]
    split_ifs with he <;> rfl
  · by_cases he : e = p.orderId
    · rw [he] at hs
      have herased := AList.lookup_erase p.orderId w.orderToSymbol
      cases hs.symm.trans herased
    · exact (AList.lookup_erase_ne he).symm.trans hs
  · -- only the index entry of the order that is gone is erased
    by_cases he : e = p.orderId
    · exact Or.inr ⟨he, fun _ => rfl⟩
    · exact Or.inl (AList.lookup_erase_ne he)

/-- **A change of an order**, in whichever list it stands. -/
theorem atKey (h : w.Keeps v) {f : SnapshotOrder → Option SnapshotOrder}
    {g : Bots.Order → Option Bots.Order}
    (hf : ∀ o o', f o = some o' → o'.orderId = o.orderId ∧ o'.symbol = o.symbol)
    (hroute : w.orderToSymbol.lookup orderId = some symbol)
    (hfg : ∀ o ∈ w.find symbol orderId, (f o).map SnapshotOrder.shown = g o.shown)
    (hsymbols : w'.symbols = w.symbols) (hother : ∀ s, s ≠ symbol → w'.orders s = w.orders s)
    (horders : w'.orders symbol = Containers.atKey SnapshotOrder.orderId orderId f (w.orders symbol))
    (hroutes : w'.orderToSymbol = w.orderToSymbol) :
    w'.Keeps fun s e => if e = orderId then (v s e).bind g else v s e := by
  refine h.change (g := fun o => o.bind g) rfl hroute hsymbols hother (.of_eq horders) ?_
    (fun o ho => ?_) (fun e => ?_) (fun e s hs => ?_) (fun e => Or.inl (by rw [hroutes]))
  · have hkeys := map_atKey_sublist (k := orderId) (fun o o' ho => (hf o o' ho).1) (w.orders symbol)
    exact (h.nodup symbol).sublist hkeys
  · rcases mem_atKey ho with hold | ⟨o', ho', -, hnew⟩
    · exact h.symbol symbol o hold
    · rw [(hf o' o hnew).2]
      exact h.symbol symbol o' ho'
  · rw [findKey_atKey (fun o o' ho => (hf o o' ho).1) (h.nodup symbol)]
    split_ifs with he
    · rw [he]
      cases hfound : w.find symbol orderId with
      | none => rw [find] at hfound; rw [hfound]; rfl
      | some o =>
        have hshown := hfg o hfound
        rw [find] at hfound
        rw [hfound]
        exact hshown
    · rfl
  · rwa [hroutes] at hs

/-- An order that moves to the end of the other list. -/
theorem move (h : w.Keeps v) {o : SnapshotOrder}
    (hroute : w.orderToSymbol.lookup o.orderId = some symbol) (hsym : o.symbol = symbol)
    (hfound : w.find symbol o.orderId ≠ none) (hsymbols : w'.symbols = w.symbols)
    (hother : ∀ s, s ≠ symbol → w'.orders s = w.orders s)
    (hperm : (w'.orders symbol).Perm
      (Containers.atKey SnapshotOrder.orderId o.orderId (fun _ => none) (w.orders symbol) ++ [o]))
    (hroutes : w'.orderToSymbol = w.orderToSymbol) :
    w'.Keeps fun s e => if e = o.orderId then (v s e).map fun _ => o.shown else v s e := by
  -- in its old list it is erased
  have hkeys : ∀ x y : SnapshotOrder, (fun _ => none : SnapshotOrder → Option SnapshotOrder) x =
      some y → y.orderId = x.orderId := fun _ _ hnone => by cases hnone
  have hfind := findKey_atKey (k := o.orderId) hkeys (h.nodup symbol)
  refine h.change (g := Option.map fun _ => o.shown) rfl hroute hsymbols hother hperm ?_
    (fun o' ho' => ?_) (fun e => ?_) (fun e s hs => ?_) (fun e => Or.inl (by rw [hroutes]))
  · rw [List.map_append, List.map_singleton]
    refine List.Nodup.append ((h.nodup symbol).sublist (map_atKey_sublist hkeys _))
      (List.nodup_singleton _) ?_
    rw [List.disjoint_singleton]
    intro hmem
    obtain ⟨o', ho', hid⟩ := List.mem_map.mp hmem
    have hgone := hfind o.orderId
    rw [if_pos rfl, Option.bind_fun_none] at hgone
    exact findKey_eq_none.mp hgone o' ho' hid
  · rcases List.mem_append.mp ho' with hkept | hnew
    · rcases mem_atKey hkept with hold | ⟨_, _, _, hnone⟩
      · exact h.symbol symbol o' hold
      · cases hnone
    · rwa [List.mem_singleton.mp hnew]
  · rw [findKey_append, hfind, findKey_cons, findKey_nil]
    by_cases he : e = o.orderId
    · obtain ⟨o', ho'⟩ := Option.ne_none_iff_exists'.mp hfound
      rw [if_pos he, if_pos he, he, if_pos rfl, ho', Option.bind_fun_none]
      rfl
    · rw [if_neg he, if_neg he, if_neg fun heq => he heq.symm, Option.or_none]
  · rwa [hroutes] at hs

theorem modifyOrder (h : w.Keeps v) (hp : p.msgType = .modifyOrder) (hside : w.KeepsSide p) :
    (w.modifyOrder p).Keeps fun s e =>
      if e = p.orderId then (v s e).map fun _ => ⟨p.side, p.price, p.quantity⟩ else v s e := by
  unfold SnapshotWriter.modifyOrder
  split
  · next hroute => exact h.unknown (g := Option.map fun _ => _) rfl hroute
  next symbol hroute =>
  have hin := hside hp symbol hroute
  have hkeys : ∀ o o' : SnapshotOrder, modified p o = some o' →
      o'.orderId = o.orderId ∧ o'.symbol = o.symbol := by
    rintro o o' ⟨⟩
    exact ⟨rfl, rfl⟩
  have hmap : (fun s e => if e = p.orderId then (v s e).map fun _ => Bots.Order.mk p.side p.price
      p.quantity else v s e) = fun s e => if e = p.orderId then
        (v s e).bind fun _ => some ⟨p.side, p.price, p.quantity⟩ else v s e := by
    simp only [Option.map_eq_bind]
    rfl
  -- a bid or an ask, which stays in its list or goes to the end of the other one, or an order of neither
  split_ifs with hbid hbuy hask hsell
  · rw [hmap]
    refine h.atKey hkeys hroute (fun o ho => ?_) rfl
      (fun s hs => (orders_setBids w symbol s _).trans (if_neg hs)) ?_ rfl
    · rw [modified, Option.map_some, SnapshotOrder.shown, (hin o ho).1 hbid hbuy, hbuy]
    · rw [orders_setBids, if_pos rfl, orders, atKey_append_left (Option.isSome_iff_ne_none.mp hbid)]
  · refine h.move (o := order p symbol) hroute rfl ?_ rfl (fun s hs => ?_) ?_ rfl
    · rw [find, orders, findKey_append]
      exact Option.isSome_iff_ne_none.mp (by rw [Option.isSome_or]; simp [order, hbid])
    · exact (orders_setAsks _ symbol s _).trans <| (if_neg hs).trans <|
        (orders_setBids w symbol s _).trans (if_neg hs)
    · have hasks := orders_setAsks (w.setBids symbol (Containers.atKey SnapshotOrder.orderId
        p.orderId (fun _ => none) (w.bids symbol))) symbol symbol (w.asks symbol ++ [order p symbol])
      refine List.Perm.of_eq (hasks.trans ?_)
      rw [if_pos rfl, orders, ← List.append_assoc]
      refine congrArg (· ++ [order p symbol]) ?_
      refine (congrArg (· ++ _) (Function.update_self ..)).trans ?_
      exact (atKey_append_left (Option.isSome_iff_ne_none.mp hbid)).symm
  · have hnone : findKey SnapshotOrder.orderId p.orderId (w.bids symbol) = none := by simpa using hbid
    rw [hmap]
    refine h.atKey hkeys hroute (fun o ho => ?_) rfl
      (fun s hs => (orders_setAsks w symbol s _).trans (if_neg hs)) ?_ rfl
    · rw [modified, Option.map_some, SnapshotOrder.shown, (hin o ho).2 hnone hsell, hsell]
    · rw [orders_setAsks, if_pos rfl, orders, atKey_append_right hnone]
  · have hnone : findKey SnapshotOrder.orderId p.orderId (w.bids symbol) = none := by simpa using hbid
    refine h.move (o := order p symbol) hroute rfl ?_ rfl (fun s hs => ?_) ?_ rfl
    · rw [find, orders, findKey_append, order, hnone]
      exact Option.isSome_iff_ne_none.mp hask
    · exact (orders_setBids _ symbol s _).trans <| (if_neg hs).trans <|
        (orders_setAsks w symbol s _).trans (if_neg hs)
    · have hbids := orders_setBids (w.setAsks symbol (Containers.atKey SnapshotOrder.orderId
        p.orderId (fun _ => none) (w.asks symbol))) symbol symbol (w.bids symbol ++ [order p symbol])
      refine (List.Perm.of_eq hbids).trans ?_
      have hasks : (w.setAsks symbol (Containers.atKey SnapshotOrder.orderId p.orderId
          (fun _ => none) (w.asks symbol))).asks symbol = Containers.atKey SnapshotOrder.orderId
            p.orderId (fun _ => none) (w.asks symbol) := Function.update_self ..
      rw [if_pos rfl, orders, order, atKey_append_right hnone, hasks, List.append_assoc,
        List.append_assoc]
      exact List.perm_append_comm.append_left _
  · -- the order was traded away
    have hnone : w.find symbol p.orderId = none := by
      rw [find, orders, findKey_append, Option.not_isSome_iff_eq_none.mp hbid,
        Option.not_isSome_iff_eq_none.mp hask]
      rfl
    rw [hmap]
    refine h.atKey hkeys hroute (fun o ho => ?_) rfl (fun _ _ => rfl) ?_ rfl
    · rw [hnone] at ho
      cases ho
    · exact (atKey_of_findKey_eq_none hnone).symm

theorem trade (h : w.Keeps v) :
    (w.trade p).Keeps fun s e =>
      if e = p.orderId then (v s e).bind (Bots.OrderBook.reduce p.quantity) else v s e := by
  unfold SnapshotWriter.trade
  split
  · next hroute => exact h.unknown (g := fun o => o.bind _) rfl hroute
  next symbol hroute =>
  have hkeys : ∀ o o', traded p.quantity o = some o' →
      o'.orderId = o.orderId ∧ o'.symbol = o.symbol := by
    intro o o' ho
    unfold traded at ho
    split_ifs at ho <;> cases ho <;> exact ⟨rfl, rfl⟩
  -- the writer takes a trade off an order as the client's book does
  have hshown : ∀ o, (traded p.quantity o).map SnapshotOrder.shown =
      Bots.OrderBook.reduce p.quantity o.shown := by
    intro o
    unfold traded Bots.OrderBook.reduce SnapshotOrder.shown
    dsimp only
    split_ifs <;> rfl
  split_ifs with hbid
  · refine h.atKey hkeys hroute (fun o _ => hshown o) rfl
      (fun s hs => (orders_setBids w symbol s _).trans (if_neg hs)) ?_ rfl
    rw [orders_setBids, if_pos rfl, orders, atKey_append_left (Option.isSome_iff_ne_none.mp hbid)]
  · have hnone : findKey SnapshotOrder.orderId p.orderId (w.bids symbol) = none := by simpa using hbid
    refine h.atKey hkeys hroute (fun o _ => hshown o) rfl
      (fun s hs => (orders_setAsks w symbol s _).trans (if_neg hs)) ?_ rfl
    rw [orders_setAsks, if_pos rfl, orders, atKey_append_right hnone]

/-- **Every message** that the writer hears. -/
theorem hear {m : MdMessage} (h : w.Keeps v) (hfresh : v.Fresh m.body)
    (hside : ∀ p ∈ SnapshotClient.payload m, w.KeepsSide p) : (w.hear m).Keeps (v.after m.body) := by
  have hnumbered : ∀ n, { w with lastMdSeqNum := n }.Keeps v := fun _ => h.congr rfl rfl rfl rfl
  obtain ⟨n, body⟩ := m
  cases body with
  | heartbeat => exact hnumbered n
  | newOrder orderId symbol side quantity price flags =>
    exact (hnumbered n).newOrder (p := ⟨.newOrder, n, orderId, symbol, side, quantity, price, flags⟩)
      (hfresh orderId rfl)
  | deleteOrder orderId =>
    exact (hnumbered n).deleteOrder (p := ⟨.deleteOrder, n, orderId, 0, Side.buy, 0, 0, 0⟩)
  | modifyOrder orderId side quantity price =>
    exact (hnumbered n).modifyOrder (p := ⟨.modifyOrder, n, orderId, 0, side, quantity, price, 0⟩) rfl
      (hside _ rfl)
  | trade orderId quantity price =>
    exact (hnumbered n).trade (p := ⟨.trade, n, orderId, 0, Side.buy, quantity, price, 0⟩)
  | tradeSummary symbol side quantity price => exact h

end Keeps

/-! ### What is written -/

variable {w w' : SnapshotWriter}

/-- The two writers differ in what they wrote at most. -/
structure SameState (w w' : SnapshotWriter) : Prop where
  lastMdSeqNum : w'.lastMdSeqNum = w.lastMdSeqNum
  symbols : w'.symbols = w.symbols
  bids : w'.bids = w.bids
  asks : w'.asks = w.asks
  orderToSymbol : w'.orderToSymbol = w.orderToSymbol

theorem SameState.keeps {v : Shown} (h : w.SameState w') (hw : w.Keeps v) : w'.Keeps v :=
  hw.congr h.symbols h.bids h.asks h.orderToSymbol

theorem sameState_write (w : SnapshotWriter) (m : SnapshotMessage) : w.SameState (w.write m) := by
  unfold write
  dsimp only
  split_ifs <;> exact ⟨rfl, rfl, rfl, rfl, rfl⟩

theorem sameState_writeSnapshot (w : SnapshotWriter) (symbol : UInt32) :
    w.SameState (w.writeSnapshot symbol) := by
  have hwrites : ∀ (ms : List SnapshotMessage) (w' : SnapshotWriter), w.SameState w' →
      w.SameState (ms.foldl write w') := by
    intro ms
    induction ms with
    | nil => exact fun _ h => h
    | cons m ms ih =>
      intro w' h
      have hm := sameState_write w' m
      exact ih _ ⟨hm.1.trans h.1, hm.2.trans h.2, hm.3.trans h.3, hm.4.trans h.4, hm.5.trans h.5⟩
  obtain ⟨h₁, h₂, h₃, h₄, h₅⟩ := hwrites (w.snapshotOf symbol).messages w ⟨rfl, rfl, rfl, rfl, rfl⟩
  exact ⟨h₁, h₂, h₃, h₄, h₅⟩

theorem length_le_capacity (m : SnapshotMessage) : m.length ≤ bufferCapacity := by
  cases m <;> simp [SnapshotMessage.length, mdHeaderSize, bufferCapacity]

/-- A message is appended to what is not sent yet, after which the buffer is not empty. -/
theorem exists_write (w : SnapshotWriter) (m : SnapshotMessage) :
    ∃ ps, (w.write m).datagrams = w.datagrams ++ ps ∧
      ps.flatten ++ (w.write m).buffer = w.buffer ++ [m] ∧ (∀ p ∈ ps, p ≠ []) ∧
        (w.write m).buffer ≠ [] := by
  unfold write
  dsimp only
  split_ifs with hfull
  · refine ⟨[w.buffer], rfl, by simp [send], ?_, by simp⟩
    rintro p hp rfl
    -- one message fits
    have hbuffer : w.buffer = [] := (List.mem_singleton.mp hp).symm
    have hone := length_le_capacity m
    rw [bufferSize, hbuffer, List.map_nil, List.sum_nil] at hfull
    omega
  · exact ⟨[], by simp, by simp, by simp, by simp⟩

theorem exists_foldl_write (ms : List SnapshotMessage) (w : SnapshotWriter) :
    ∃ ps, (ms.foldl write w).datagrams = w.datagrams ++ ps ∧
      ps.flatten ++ (ms.foldl write w).buffer = w.buffer ++ ms ∧ (∀ p ∈ ps, p ≠ []) ∧
        (ms ≠ [] → (ms.foldl write w).buffer ≠ []) := by
  induction ms using List.reverseRecOn with
  | nil => exact ⟨[], by simp⟩
  | append_singleton ms m ih =>
    obtain ⟨ps, hdatagrams, hwritten, hne, -⟩ := ih
    obtain ⟨qs, hdatagrams', hwritten', hne', hlast⟩ := exists_write (ms.foldl write w) m
    rw [List.foldl_append, List.foldl_cons, List.foldl_nil]
    refine ⟨ps ++ qs, ?_, ?_, fun p hp => ?_, fun _ => hlast⟩
    · rw [hdatagrams', hdatagrams, List.append_assoc]
    · rw [List.flatten_append, List.append_assoc, hwritten', ← List.append_assoc, hwritten,
        List.append_assoc]
    · exact (List.mem_append.mp hp).elim (hne p) (hne' p)

/-- **The datagrams of a snapshot** hold its messages, in order, and none is empty. -/
theorem datagrams_writeSnapshot (hw : w.buffer = []) (symbol : UInt32) :
    ∃ ps, (w.writeSnapshot symbol).datagrams = w.datagrams ++ ps ∧
      ps.flatten = (w.snapshotOf symbol).messages ∧ ∀ p ∈ ps, p ≠ [] := by
  obtain ⟨ps, hdatagrams, hwritten, hne, hlast⟩ :=
    exists_foldl_write (w.snapshotOf symbol).messages w
  rw [hw, List.nil_append] at hwritten
  refine ⟨ps ++ [((w.snapshotOf symbol).messages.foldl write w).buffer], ?_, ?_, fun p hp => ?_⟩
  · rw [writeSnapshot, send, hdatagrams, List.append_assoc]
  · rw [List.flatten_append, List.flatten_singleton, hwritten]
  · rcases List.mem_append.mp hp with hearlier | hfinal
    · exact hne p hearlier
    · rw [List.mem_singleton.mp hfinal]
      exact hlast (List.cons_ne_nil _ _)

theorem buffer_writeSnapshot (w : SnapshotWriter) (symbol : UInt32) :
    (w.writeSnapshot symbol).buffer = [] := rfl

/-- Hearing the feed writes nothing, and takes the number of every message that is queued. -/
theorem hear_written (w : SnapshotWriter) (m : MdMessage) :
    (w.hear m).buffer = w.buffer ∧ (w.hear m).datagrams = w.datagrams ∧
      (w.hear m).symbols = w.symbols ∧ (w.hear m).lastMdSeqNum =
        ((SnapshotClient.payload m).map MdPayload.seqNum).getD w.lastMdSeqNum := by
  obtain ⟨n, body⟩ := m
  cases body with
  | heartbeat => exact ⟨rfl, rfl, rfl, rfl⟩
  | newOrder orderId symbol side quantity price flags =>
    simp only [hear, SnapshotClient.payload, take, newOrder]
    split_ifs <;> exact ⟨rfl, rfl, rfl, rfl⟩
  | deleteOrder orderId =>
    simp only [hear, SnapshotClient.payload, take, deleteOrder]
    split <;> exact ⟨rfl, rfl, rfl, rfl⟩
  | modifyOrder orderId side quantity price =>
    simp only [hear, SnapshotClient.payload, take, modifyOrder]
    split
    · exact ⟨rfl, rfl, rfl, rfl⟩
    · split_ifs <;> exact ⟨rfl, rfl, rfl, rfl⟩
  | trade orderId quantity price =>
    simp only [hear, SnapshotClient.payload, take, trade]
    split
    · exact ⟨rfl, rfl, rfl, rfl⟩
    · split_ifs <;> exact ⟨rfl, rfl, rfl, rfl⟩
  | tradeSummary symbol side quantity price => exact ⟨rfl, rfl, rfl, rfl⟩

end SnapshotWriter

end Ndfex
