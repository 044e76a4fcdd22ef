import Ndfex.Bots.BookCalls
import Ndfex.Bots.Recovery

/-!
# The capture viewer

`pcap_printer` reads a capture of the live and the snapshot group. It stores the live messages until
it has seen the snapshots of symbols 1 and 2, plays those that are past the last snapshot begun, and
from then on takes every live message and prints the best prices of all books. The orders of the
snapshots are counted, and are not entered in the books.

## Main definitions

* `PcapPrinter.parseAndApplyLiveMessage`: what a live message does to the books
* `PcapPrinter.live`, `PcapPrinter.snapshot`: the loop over the messages of a datagram
* `PcapPrinter.HasEntered`: the viewer has of a book the orders that live messages entered

## Main results

* `PcapPrinter.HasEntered.apply`: a live message that the client takes, too
* `PcapPrinter.HasEntered.best_eq_iff`: when the viewer prints the best prices of the client
-/

namespace Ndfex

open Containers Bots

/-- A line of the output: the time, the number of the message, the symbol, and its best prices. -/
structure BboLine where
  time : ℕ
  seqNum : UInt32
  symbol : UInt32
  bestBid : OrderBook.PriceLevel
  bestAsk : OrderBook.PriceLevel
deriving DecidableEq, Repr

/-- The variables of the main loop. The maps `order_books` and `order_to_symbol` are those of an
`MDClient`. -/
structure PcapPrinter where
  books : MDClient
  lastSeqNum : UInt32
  snapshotComplete : UInt32 → Bool
  snapshotOrderCount : AList fun _ : UInt32 => UInt32 × UInt32
  liveBuffer : List MdMessage

/-- The id under which a message enters an order of a symbol. -/
def MdBody.enters (s : UInt32) : MdBody → Option UInt64
  | .newOrder orderId symbol .. => if symbol = s then some orderId else none
  | .heartbeat | .deleteOrder _ | .modifyOrder .. | .trade .. | .tradeSummary .. => none

namespace PcapPrinter

/-- Before the loop. -/
def start : PcapPrinter := ⟨MDClient.empty, 0, fun _ => false, ∅, []⟩

/-- `done_snapshot`. -/
def DoneSnapshot (v : PcapPrinter) : Prop :=
  v.snapshotComplete 1 = true ∧ v.snapshotComplete 2 = true

instance (v : PcapPrinter) : Decidable v.DoneSnapshot := inferInstanceAs (Decidable (_ ∧ _))

/-- `get_first_live_seq_num`. -/
def getFirstLiveSeqNum (v : PcapPrinter) : UInt32 :=
  match v.liveBuffer with
  | [] => 0xFFFFFFFF
  | m :: _ => m.seqNum

/-- The switch of `parse_and_apply_live_message`. -/
def parseAndApplyLiveMessage (c : MDClient) : MdBody → MDClient
  | .newOrder orderId symbol side quantity price _ =>
    let b := (c.symbolToOrderBook.lookup symbol).getD OrderBook.empty
    { symbolToOrderBook :=
        c.symbolToOrderBook.insert symbol (b.newOrder orderId side quantity price)
      orderToSymbol := c.orderToSymbol.insert orderId symbol }
  | .deleteOrder orderId =>
    match c.orderToSymbol.lookup orderId with
    | none => c
    | some symbol =>
      match c.symbolToOrderBook.lookup symbol with
      | none => c
      | some b =>
        { symbolToOrderBook := c.symbolToOrderBook.insert symbol (b.deleteOrder orderId)
          orderToSymbol := c.orderToSymbol.erase orderId }
  | .modifyOrder orderId side quantity price =>
    match c.orderToSymbol.lookup orderId with
    | none => c
    | some symbol => c.onBook symbol fun b => b.modifyOrder orderId side quantity price
  | .trade orderId quantity _ =>
    match c.orderToSymbol.lookup orderId with
    | none => c
    | some symbol => c.onBook symbol fun b => b.orderTrade orderId quantity
  | .tradeSummary .. => c
  | .heartbeat => c

/-- The lines printed after a message: one for each book. -/
def lines (v : PcapPrinter) (tvSec tvUsec : ℕ) (seqNum : UInt32) : List BboLine :=
  v.books.symbolToOrderBook.entries.map fun entry =>
    ⟨tvSec + tvUsec / 1000000, seqNum, entry.1, entry.2.getBestBid, entry.2.getBestAsk⟩

/-- The loop on a message of a live datagram, and the lines that it prints. The messages of a datagram
are taken one by one. -/
def live (v : PcapPrinter) (tvSec tvUsec : ℕ) (m : MdMessage) : PcapPrinter × List BboLine :=
  if v.DoneSnapshot then
    let v := { v with
      lastSeqNum := m.seqNum
      books := parseAndApplyLiveMessage v.books m.body }
    (v, v.lines tvSec tvUsec m.seqNum)
  else ({ v with liveBuffer := v.liveBuffer ++ [m] }, [])

/-- The loop over the live buffer, after the last snapshot. -/
def playLive (lastSeqNum : UInt32) (c : MDClient) : List MdMessage → MDClient
  | [] => c
  | m :: ms =>
    if lastSeqNum < m.seqNum then playLive lastSeqNum (parseAndApplyLiveMessage c m.body) ms
    else playLive lastSeqNum c ms

/-- An order of a snapshot. -/
def newOrder (v : PcapPrinter) (o : SnapshotOrder) : PcapPrinter :=
  match v.snapshotOrderCount.lookup o.symbol with
  | none => v
  | some (bids, asks) =>
    let bids := bids - if o.side = Side.buy then 1 else 0
    let asks := asks - if o.side = Side.sell then 1 else 0
    let v := { v with snapshotOrderCount := v.snapshotOrderCount.insert o.symbol (bids, asks) }
    if bids = 0 ∧ asks = 0 then
      let v := { v with snapshotComplete := Function.update v.snapshotComplete o.symbol true }
      if v.DoneSnapshot then
        { v with
          books := playLive v.lastSeqNum v.books v.liveBuffer
          liveBuffer := [] }
      else v
    else v

/-- A snapshot begins. -/
def info (v : PcapPrinter) (symbol bidCount askCount lastMdSeqNum : UInt32) : PcapPrinter :=
  { v with
    lastSeqNum := lastMdSeqNum
    snapshotOrderCount := v.snapshotOrderCount.insert symbol (bidCount, askCount) }

/-- The loop on a message of a snapshot datagram; `none` leaves the rest of the datagram. -/
def snapshotMessage (v : PcapPrinter) : SnapshotMessage → Option PcapPrinter
  | .info symbol bidCount askCount lastMdSeqNum =>
    if v.DoneSnapshot then none
    else if symbol ≠ 1 ∧ symbol ≠ 2 then none
    else if lastMdSeqNum ≤ v.getFirstLiveSeqNum then none
    else some (v.info symbol bidCount askCount lastMdSeqNum)
  | .newOrder o => if v.DoneSnapshot then none else some (v.newOrder o)

/-- The loop over the messages of a snapshot datagram. -/
def snapshot (v : PcapPrinter) : List SnapshotMessage → PcapPrinter
  | [] => v
  | m :: ms =>
    match v.snapshotMessage m with
    | none => v
    | some v' => v'.snapshot ms

/-! ### The books of the viewer -/

variable {c v r : MDClient} {s : UInt32} {body : MdBody} {call : BookCall}

theorem parse_newOrder (c : MDClient) (orderId : UInt64) (symbol : UInt32) (side : Side)
    (quantity : UInt32) (price : Int32) (flags : UInt8) :
    parseAndApplyLiveMessage c (.newOrder orderId symbol side quantity price flags) =
      c.apply (.newOrder orderId symbol side quantity price flags) := rfl

/-- The book of a symbol after a message is that of a client that knows the same orders. -/
theorem book_parse (c : MDClient) (body : MdBody) (s : UInt32) :
    (parseAndApplyLiveMessage c body).book s =
      (c.callOn s body).elim (c.book s) (c.book s).after := by
  -- the method that an order is looked up for
  have hcalled : ∀ (symbol : UInt32) (call : BookCall),
      OrderBook.empty.after call = OrderBook.empty →
      (c.onBook symbol fun b => b.after call).book s =
        (if some symbol = some s then some call else none).elim (c.book s) (c.book s).after :=
    fun symbol call hempty => MDClient.book_onBook_after hempty c symbol s
  cases body with
  | newOrder orderId symbol side quantity price flags => exact MDClient.book_newOrder ..
  | deleteOrder orderId =>
    rw [MDClient.callOn, parseAndApplyLiveMessage]
    cases c.orderToSymbol.lookup orderId with
    | none => rfl
    | some symbol =>
      refine Eq.trans ?_ (hcalled symbol (.deleteOrder orderId) rfl)
      dsimp only
      rw [MDClient.onBook]
      cases c.symbolToOrderBook.lookup symbol with
      | none => rfl
      | some b => rfl
  | modifyOrder orderId side quantity price =>
    rw [MDClient.callOn, parseAndApplyLiveMessage]
    cases c.orderToSymbol.lookup orderId with
    | none => rfl
    | some symbol => exact hcalled symbol (.modifyOrder orderId side quantity price) rfl
  | trade orderId quantity price =>
    rw [MDClient.callOn, parseAndApplyLiveMessage]
    cases c.orderToSymbol.lookup orderId with
    | none => rfl
    | some symbol => exact hcalled symbol (.orderTrade orderId quantity) rfl
  | tradeSummary symbol side quantity price => rfl
  | heartbeat => rfl

/-- A message about an order may make its symbol unknown, and no other one. -/
theorem lookup_parse (hcall : body.call = some call) (c : MDClient) (e : UInt64) :
    (parseAndApplyLiveMessage c body).orderToSymbol.lookup e = c.orderToSymbol.lookup e ∨
      e = call.orderId ∧ call.effect = (fun _ => none) ∧
        (parseAndApplyLiveMessage c body).orderToSymbol.lookup e = none := by
  cases body with
  | newOrder => cases hcall
  | deleteOrder orderId =>
    cases hcall
    rw [parseAndApplyLiveMessage]
    -- without the symbol or its book the message is skipped
    split
    · exact Or.inl rfl
    split
    · exact Or.inl rfl
    by_cases he : e = orderId
    · refine Or.inr ⟨he, rfl, ?_⟩
      rw [he]
      exact AList.lookup_erase ..
    · exact Or.inl (AList.lookup_erase_ne he)
  | modifyOrder orderId side quantity price =>
    refine Or.inl ?_
    rw [parseAndApplyLiveMessage]
    split
    · rfl
    · rw [MDClient.orderToSymbol_onBook]
  | trade orderId quantity price =>
    refine Or.inl ?_
    rw [parseAndApplyLiveMessage]
    split
    · rfl
    · rw [MDClient.orderToSymbol_onBook]
  | tradeSummary => cases hcall
  | heartbeat => cases hcall

/-- A message about an order adds no book. -/
theorem isSome_lookup_parse (hcall : body.call = some call) (c : MDClient) (s : UInt32) :
    ((parseAndApplyLiveMessage c body).symbolToOrderBook.lookup s).isSome =
      (c.symbolToOrderBook.lookup s).isSome := by
  -- the book that is written back was there
  have hinsert : ∀ (symbol : UInt32) (b b' : OrderBook),
      c.symbolToOrderBook.lookup symbol = some b →
        ((c.symbolToOrderBook.insert symbol b').lookup s).isSome =
          (c.symbolToOrderBook.lookup s).isSome := by
    intro symbol b b' hb
    by_cases hs : s = symbol
    · rw [hs, AList.lookup_insert, hb]
      rfl
    · rw [AList.lookup_insert_ne hs]
  have honBook : ∀ (symbol : UInt32) (f : OrderBook → OrderBook),
      ((c.onBook symbol f).symbolToOrderBook.lookup s).isSome =
        (c.symbolToOrderBook.lookup s).isSome := by
    intro symbol f
    unfold MDClient.onBook
    split
    · rfl
    · exact hinsert symbol _ _ ‹_›
  cases body with
  | newOrder => cases hcall
  | deleteOrder orderId =>
    rw [parseAndApplyLiveMessage]
    split
    · rfl
    split
    · rfl
    · exact hinsert _ _ _ ‹_›
  | modifyOrder orderId side quantity price =>
    rw [parseAndApplyLiveMessage]
    split
    · rfl
    · exact honBook ..
  | trade orderId quantity price =>
    rw [parseAndApplyLiveMessage]
    split
    · rfl
    · exact honBook ..
  | tradeSummary => cases hcall
  | heartbeat => cases hcall

/-! ### What the viewer has of a book -/

/-- The viewer `v` has, of the book of a symbol of the client `r`, the orders under some ids. -/
structure HasEntered (v : MDClient) (s : UInt32) (ids : List UInt64) (r : MDClient) : Prop where
  orders : ∀ e ∈ ids, v.order s e = r.order s e
  lacks : ∀ e, e ∉ ids → v.order s e = none
  routes : ∀ e, v.order s e ≠ none →
    (v.orderToSymbol.lookup e = some s ↔ r.orderToSymbol.lookup e = some s)
  known : ∀ e, v.orderToSymbol.lookup e = some s → e ∈ ids
  book : (v.symbolToOrderBook.lookup s).isSome = true ↔ ids ≠ []
  counted : (v.book s).Counted
  whole : (r.book s).Counted

variable {ids : List UInt64}

theorem partOf_of_orders (horders : ∀ e ∈ ids, v.order s e = r.order s e)
    (hlacks : ∀ e, e ∉ ids → v.order s e = none) : (v.book s).PartOf (r.book s) := by
  intro e o ho
  rw [MDClient.lookup_book] at ho ⊢
  by_cases he : e ∈ ids
  · rwa [← horders e he]
  · rw [hlacks e he] at ho
    cases ho

namespace HasEntered

theorem partOf (h : HasEntered v s ids r) : (v.book s).PartOf (r.book s) :=
  partOf_of_orders h.orders h.lacks

/-- Before the first order is entered. -/
theorem start (s : UInt32) (hr : (r.book s).Counted) : HasEntered MDClient.empty s [] r where
  orders := fun _ he => absurd he List.not_mem_nil
  lacks := fun _ _ => rfl
  routes := fun _ he => absurd rfl he
  known := fun _ he => by cases he
  book := iff_of_false Bool.false_ne_true fun hne => hne rfl
  counted := .start
  whole := hr

/-- **A message about an order** that the viewer and the client take. -/
theorem orderMessage (h : HasEntered v s ids r) (hs : s ≠ 0) (hcall : body.call = some call)
    (hadmits : r.Admits s body) :
    HasEntered (parseAndApplyLiveMessage v body) s ids (r.apply body) := by
  have hnone := MdBody.effect_none hcall
  -- both change at most the order under the id of the call, and in the same way
  have hv := MDClient.order_of_book hcall (book_parse v body s)
  have hr := MDClient.order_of_book hcall (MDClient.book_apply r body hs)
  have horders : ∀ e ∈ ids,
      (parseAndApplyLiveMessage v body).order s e = (r.apply body).order s e := by
    intro e he
    rw [hv, hr, ← h.orders e he]
    by_cases hshown : v.order s e = none
    · -- neither of them shows the order
      rw [hshown, hnone, ite_self, ite_self]
    · by_cases hid : e = call.orderId
      · rw [hid] at hshown ⊢
        simp only [h.routes _ hshown]
      · rw [if_neg fun hboth => hid hboth.2, if_neg fun hboth => hid hboth.2]
  have hlacks : ∀ e, e ∉ ids → (parseAndApplyLiveMessage v body).order s e = none := by
    intro e he
    rw [hv, h.lacks e he, hnone, ite_self]
  have hroute := lookup_parse hcall v
  refine ⟨horders, hlacks, fun e hshown => ?_, fun e he => ?_, ?_, ?_, ?_⟩
  · rw [MDClient.lookup_apply_iff hcall r e hs]
    rw [hv] at hshown
    have hbefore : v.order s e ≠ none := by
      intro hnot
      rw [hnot, hnone, ite_self] at hshown
      exact hshown rfl
    rcases hroute e with hsame | ⟨hid, heffect, hgone⟩
    · rw [hsame, h.routes e hbefore]
    · -- a deleted order of another book
      have hother : ¬ v.orderToSymbol.lookup e = some s := by
        intro hknown
        rw [if_pos ⟨hid ▸ hknown, hid⟩, heffect] at hshown
        exact hshown rfl
      rw [hgone, ← h.routes e hbefore]
      exact iff_of_false (fun hsome => by cases hsome) hother
  · rcases hroute e with hsame | ⟨-, -, hgone⟩
    · exact h.known e (hsame ▸ he)
    · rw [hgone] at he
      cases he
  · rw [isSome_lookup_parse hcall, h.book]
  · rw [book_parse, MDClient.callOn_of_call hcall]
    split_ifs with hknown
    · rw [Option.elim_some]
      by_cases hshown : v.order s call.orderId = none
      · -- the call does nothing
        rw [← MDClient.lookup_book] at hshown
        rw [OrderBook.after_of_lookup_eq_none hnone hshown]
        exact h.counted
      · -- the client knows the order under the same symbol
        have hcalled : r.callOn s body = some call := by
          rw [MDClient.callOn_of_call hcall, if_pos ((h.routes _ hshown).mp hknown)]
        have hafter := partOf_of_orders horders hlacks
        rw [book_parse, MDClient.callOn_of_call hcall, if_pos hknown, MDClient.book_apply r body hs,
          hcalled] at hafter
        exact h.counted.after (h.partOf.admits hafter (hadmits call hcalled))
    · exact h.counted
  · exact MDClient.counted_apply h.whole hs hadmits

/-- **An order of the symbol** that the viewer and the client enter. -/
theorem newOrder (h : HasEntered v s ids r) (hs : s ≠ 0) {orderId : UInt64} {side : Side}
    {quantity : UInt32} {price : Int32} {flags : UInt8}
    (hadmits : r.Admits s (.newOrder orderId s side quantity price flags)) :
    HasEntered (parseAndApplyLiveMessage v (.newOrder orderId s side quantity price flags)) s
      (ids ++ [orderId]) (r.apply (.newOrder orderId s side quantity price flags)) := by
  have hcall := hadmits (.newOrder orderId side quantity price) (if_pos rfl)
  -- the client admits the id as a new one, so the viewer does not have it either
  have hnew : r.order s orderId = none := by
    rw [← MDClient.lookup_book]
    exact hcall.1
  have hnew' : v.order s orderId = none := by
    by_cases he : orderId ∈ ids
    · rw [h.orders orderId he, hnew]
    · exact h.lacks orderId he
  have hv := MDClient.order_apply_newOrder v orderId s side quantity price flags s
  have hr := MDClient.order_apply_newOrder r orderId s side quantity price flags s
  have horders : ∀ e ∈ ids ++ [orderId],
      (v.apply (.newOrder orderId s side quantity price flags)).order s e =
        (r.apply (.newOrder orderId s side quantity price flags)).order s e := by
    intro e he
    rw [hv, hr, hnew, hnew']
    by_cases hid : e = orderId
    · rw [if_pos ⟨rfl, hid⟩, if_pos ⟨rfl, hid⟩]
    · rw [if_neg fun hboth => hid hboth.2, if_neg fun hboth => hid hboth.2]
      have hbefore : e ∈ ids := by simpa [hid] using he
      exact h.orders e hbefore
  have hlacks : ∀ e, e ∉ ids ++ [orderId] →
      (v.apply (.newOrder orderId s side quantity price flags)).order s e = none := by
    intro e he
    rw [List.mem_append, List.mem_singleton, not_or] at he
    rw [hv, if_neg fun hboth => he.2 hboth.2]
    exact h.lacks e he.1
  have hroutes := fun c => MDClient.routes_newOrder c orderId s side quantity price flags
  rw [parse_newOrder]
  refine ⟨horders, hlacks, fun e hshown => ?_, fun e he => ?_, ?_, ?_, ?_⟩
  · rw [hroutes, hroutes]
    split_ifs with hid
    · exact Iff.rfl
    · refine h.routes e ?_
      rwa [hv, if_neg fun hboth => hid hboth.2] at hshown
  · rw [hroutes] at he
    split_ifs at he with hid
    · rw [hid]
      exact List.mem_append_right _ List.mem_cons_self
    · exact List.mem_append_left _ (h.known e he)
  · refine iff_of_true ?_ (List.append_ne_nil_of_right_ne_nil _ (List.cons_ne_nil _ _))
    rw [MDClient.apply, AList.lookup_insert]
    rfl
  · have hafter : ((v.book s).after (.newOrder orderId side quantity price)).PartOf
        ((r.book s).after (.newOrder orderId side quantity price)) := by
      have hpart := partOf_of_orders horders hlacks
      rwa [MDClient.book_apply_newOrder, if_pos rfl, MDClient.book_apply_newOrder, if_pos rfl]
        at hpart
    have hcounted := h.counted.after (h.partOf.admits hafter hcall)
    rw [MDClient.book_apply_newOrder, if_pos rfl]
    exact hcounted
  · exact MDClient.counted_apply h.whole hs hadmits

/-- Changes that leave the books of the symbol, and lead no other order to them. -/
theorem leave (h : HasEntered v s ids r) {v' r' : MDClient} (hv : v'.book s = v.book s)
    (hr : r'.book s = r.book s)
    (hisSome : (v'.symbolToOrderBook.lookup s).isSome = (v.symbolToOrderBook.lookup s).isSome)
    (hknown : ∀ e, v'.orderToSymbol.lookup e = some s → v.orderToSymbol.lookup e = some s)
    (hroutes : ∀ e, v.order s e ≠ none →
      (v'.orderToSymbol.lookup e = some s ↔ r'.orderToSymbol.lookup e = some s)) :
    HasEntered v' s ids r' := by
  have hv' : ∀ e, v'.order s e = v.order s e := fun e => by
    rw [← MDClient.lookup_book, hv, MDClient.lookup_book]
  have hr' : ∀ e, r'.order s e = r.order s e := fun e => by
    rw [← MDClient.lookup_book, hr, MDClient.lookup_book]
  refine ⟨fun e he => ?_, fun e he => ?_, fun e hshown => ?_, fun e he => ?_, ?_, ?_, ?_⟩
  · rw [hv', hr', h.orders e he]
  · rw [hv', h.lacks e he]
  · exact hroutes e (hv' e ▸ hshown)
  · exact h.known e (hknown e he)
  · rw [hisSome, h.book]
  · exact hv ▸ h.counted
  · exact hr ▸ h.whole

/-- **Every message** that the viewer and the client take. -/
theorem apply (h : HasEntered v s ids r) (hs : s ≠ 0) (hadmits : r.Admits s body) :
    HasEntered (parseAndApplyLiveMessage v body) s (ids ++ (body.enters s).toList)
      (r.apply body) := by
  cases body with
  | newOrder orderId symbol side quantity price flags =>
    by_cases hsymbol : symbol = s
    · subst hsymbol
      rw [MdBody.enters, if_pos rfl]
      exact h.newOrder hs hadmits
    · -- the id is known under another symbol then
      rw [MdBody.enters, if_neg hsymbol, Option.toList_none, List.append_nil, parse_newOrder]
      have hroutes := fun c : MDClient =>
        c.routes_newOrder orderId symbol side quantity price flags
      refine h.leave ?_ ?_ ?_ (fun e he => ?_) fun e hshown => ?_
      · rw [MDClient.book_apply_newOrder, if_neg fun heq => hsymbol heq.symm]
      · rw [MDClient.book_apply_newOrder, if_neg fun heq => hsymbol heq.symm]
      · rw [MDClient.apply, AList.lookup_insert_ne fun heq => hsymbol heq.symm]
      · rw [hroutes] at he
        split_ifs at he with hid
        · exact absurd (Option.some.inj he) hsymbol
        · exact he
      · rw [hroutes, hroutes]
        split_ifs
        · exact Iff.rfl
        · exact h.routes e hshown
  | deleteOrder orderId =>
    rw [MdBody.enters, Option.toList_none, List.append_nil]
    exact h.orderMessage hs rfl hadmits
  | modifyOrder orderId side quantity price =>
    rw [MdBody.enters, Option.toList_none, List.append_nil]
    exact h.orderMessage hs rfl hadmits
  | trade orderId quantity price =>
    rw [MdBody.enters, Option.toList_none, List.append_nil]
    exact h.orderMessage hs rfl hadmits
  | tradeSummary symbol side quantity price =>
    rw [MdBody.enters, Option.toList_none, List.append_nil]
    exact h
  | heartbeat =>
    rw [MdBody.enters, Option.toList_none, List.append_nil]
    exact h

/-- A message that the client does not take, **before the first order** is entered. -/
theorem skip (h : HasEntered v s [] r) (hbody : body.enters s = none) :
    HasEntered (parseAndApplyLiveMessage v body) s [] r := by
  -- no message leads to the book of the symbol yet
  have hnot : ∀ e, v.orderToSymbol.lookup e ≠ some s := fun e he =>
    List.not_mem_nil (h.known e he)
  have hnone : ∀ e, v.order s e = none := fun e => h.lacks e List.not_mem_nil
  cases hcall : body.call with
  | some call =>
    refine h.leave ?_ rfl (isSome_lookup_parse hcall v s) (fun e he => ?_) fun e hshown => ?_
    · rw [book_parse, MDClient.callOn_of_call hcall, if_neg (hnot call.orderId), Option.elim_none]
    · rcases lookup_parse hcall v e with hsame | ⟨-, -, hgone⟩
      · rwa [← hsame]
      · rw [hgone] at he
        cases he
    · exact absurd (hnone e) hshown
  | none =>
    cases body with
    | newOrder orderId symbol side quantity price flags =>
      have hsymbol : symbol ≠ s := by
        intro heq
        rw [MdBody.enters, if_pos heq] at hbody
        cases hbody
      rw [parse_newOrder]
      refine h.leave ?_ rfl ?_ (fun e he => ?_) fun e hshown => absurd (hnone e) hshown
      · rw [MDClient.book_apply_newOrder, if_neg hsymbol.symm]
      · rw [MDClient.apply, AList.lookup_insert_ne hsymbol.symm]
      · rw [MDClient.routes_newOrder] at he
        split_ifs at he
        · exact absurd (Option.some.inj he) hsymbol
        · exact he
    | deleteOrder | modifyOrder | trade => cases hcall
    | tradeSummary | heartbeat => exact h

/-- **When the viewer prints the best of a side**: exactly when every order that it does not have stands
behind one that it has. -/
theorem best_eq_iff (h : HasEntered v s ids r) (side : BookSide) :
    (v.book s).best side = (r.book s).best side ↔
      ∀ e o, r.order s e = some o → e ∉ ids → o.side.bookSide = side →
        ∃ e' ∈ ids, ∃ o', r.order s e' = some o' ∧ o'.side.bookSide = side ∧
          side.better o'.price o.price := by
  rw [OrderBook.best_eq_iff h.counted h.whole h.partOf side]
  refine ⟨fun hbehind e o ho he hside => ?_, fun hhidden e o ho hlacks hside => ?_⟩
  · rw [← MDClient.lookup_book] at ho
    have hlacks : (v.book s).orders.lookup e = none := by
      rw [MDClient.lookup_book]
      exact h.lacks e he
    obtain ⟨price, ⟨e', o', ho', hside', rfl⟩, hbetter⟩ := hbehind e o ho hlacks hside
    rw [MDClient.lookup_book] at ho'
    have hid : e' ∈ ids := by
      by_contra hnot
      rw [h.lacks e' hnot] at ho'
      cases ho'
    exact ⟨e', hid, o', (h.orders e' hid) ▸ ho', hside', hbetter⟩
  · rw [MDClient.lookup_book] at ho hlacks
    have hid : e ∉ ids := by
      intro he
      rw [h.orders e he, ho] at hlacks
      cases hlacks
    obtain ⟨e', he', o', ho', hside', hbetter⟩ := hhidden e o ho hid hside
    rw [← h.orders e' he', ← MDClient.lookup_book] at ho'
    exact ⟨o'.price, ⟨e', o', ho', hside', rfl⟩, hbetter⟩

end HasEntered

end PcapPrinter

end Ndfex
