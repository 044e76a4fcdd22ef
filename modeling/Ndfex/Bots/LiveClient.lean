import Mathlib.Data.List.Induction
import Ndfex.Bots.LevelTotals

/-!
# The live client

`MDClient::process_message` goes through the messages of a datagram. It takes the message that follows
the last one it took, skips what it has, and returns at a gap; and it returns after a message about an
order or a symbol that it does not know. `recover_on_drops` is off.

## Main definitions

* `Bots.MDClient.Agree`: two clients show the same books of some symbols
* `Bots.LiveClient`, `Bots.LiveClient.processMessage`: a client and the number it took last
* `Bots.LiveClient.Replays`: the client took the feed up to there

## Main results

* `Bots.MDClient.Agree.apply`: clients that agree take every message alike
* `Bots.LiveClient.Replays.processMessage`: a datagram of feed messages
* `live_client_replays`: the books after any datagrams of a feed
-/

namespace Ndfex

open Containers

/-- The quantity that a message gives to an order. -/
def MdBody.announced : MdBody → ℕ
  | .newOrder _ _ _ quantity _ _ | .modifyOrder _ _ quantity _ => quantity.toNat
  | .heartbeat | .deleteOrder _ | .trade .. | .tradeSummary .. => 0

namespace Bots

namespace MDClient

variable {c c' : MDClient} {symbols : Set UInt32}

/-- Two clients show the same books of some symbols, and know the symbols of these orders alike. -/
structure Agree (c : MDClient) (symbols : Set UInt32) (c' : MDClient) : Prop where
  books : ∀ s ∈ symbols, (c.book s).Same (c'.book s)
  routes : ∀ s ∈ symbols, ∀ e, c.order s e ≠ none →
    c.orderToSymbol.lookup e = c'.orderToSymbol.lookup e

namespace Agree

theorem refl (c : MDClient) (symbols : Set UInt32) : c.Agree symbols c :=
  ⟨fun _ _ => .refl _, fun _ _ _ _ => rfl⟩

/-- The book that a method is called on, by the symbol found. -/
theorem book_onBook_some {f : OrderBook → OrderBook} (hempty : f OrderBook.empty = OrderBook.empty)
    (c : MDClient) (symbol s : UInt32) :
    (c.onBook symbol f).book s = if some symbol = some s then f (c.book s) else c.book s := by
  rw [book_onBook hempty]
  by_cases hs : s = symbol
  · rw [if_pos hs, if_pos (congrArg some hs.symm), hs]
  · rw [if_neg hs, if_neg fun heq => hs (Option.some.inj heq).symm]

/-- **A method of one order's book.** A book without the order is left as it is, so it matters only
that a client that shows the order finds its book. -/
theorem change (h : c.Agree symbols c') {d d' : MDClient} {r r' : Option UInt32} {orderId : UInt64}
    {f : OrderBook → OrderBook} (hf : ∀ b b' : OrderBook, b.Same b' → (f b).Same (f b'))
    (hskip : ∀ b : OrderBook, b.orders.lookup orderId = none → (f b).Same b)
    (hids : ∀ b e, (f b).orders.lookup e ≠ none → b.orders.lookup e ≠ none)
    (hbook : ∀ s, d.book s = if r = some s then f (c.book s) else c.book s)
    (hbook' : ∀ s, d'.book s = if r' = some s then f (c'.book s) else c'.book s)
    (hr : c.orderToSymbol.lookup orderId = c'.orderToSymbol.lookup orderId → r = r')
    (hroutes : ∀ e, c.orderToSymbol.lookup e = c'.orderToSymbol.lookup e →
      d.orderToSymbol.lookup e = d'.orderToSymbol.lookup e) : d.Agree symbols d' := by
  refine ⟨fun s hs => ?_, fun s hs e he => ?_⟩
  · rw [hbook, hbook']
    cases hshown : (c.book s).orders.lookup orderId with
    | none =>
      have hshown' : (c'.book s).orders.lookup orderId = none := by
        rw [← (h.books s hs).orders, hshown]
      split_ifs
      · exact hf _ _ (h.books s hs)
      · exact (hskip _ hshown).trans (h.books s hs)
      · exact (h.books s hs).trans (hskip _ hshown').symm
      · exact h.books s hs
    | some o =>
      -- both find the order under the same symbol
      rw [← hr (h.routes s hs orderId (by rw [← lookup_book, hshown]; exact Option.some_ne_none o))]
      split_ifs
      · exact hf _ _ (h.books s hs)
      · exact h.books s hs
  · rw [← lookup_book, hbook] at he
    refine hroutes e (h.routes s hs e ?_)
    rw [← lookup_book]
    split_ifs at he
    · exact hids _ e he
    · exact he

/-- A method of the book that `order_to_symbol[order_id]` gives. -/
theorem symbolOf (h : c.Agree symbols c') {orderId : UInt64} {f : OrderBook → OrderBook}
    (hempty : f OrderBook.empty = OrderBook.empty)
    (hf : ∀ b b' : OrderBook, b.Same b' → (f b).Same (f b'))
    (hskip : ∀ b : OrderBook, b.orders.lookup orderId = none → (f b).Same b)
    (hids : ∀ b e, (f b).orders.lookup e ≠ none → b.orders.lookup e ≠ none) :
    ((c.symbolOf orderId).2.onBook (c.symbolOf orderId).1 f).Agree symbols
      ((c'.symbolOf orderId).2.onBook (c'.symbolOf orderId).1 f) := by
  have hbook : ∀ (c : MDClient) s, ((c.symbolOf orderId).2.onBook (c.symbolOf orderId).1 f).book s =
      if some (c.symbolOf orderId).1 = some s then f (c.book s) else c.book s := by
    intro c s
    rw [book_onBook_some hempty, book_symbolOf]
  have hroute : ∀ (c : MDClient) e,
      ((c.symbolOf orderId).2.onBook (c.symbolOf orderId).1 f).orderToSymbol.lookup e =
        if e = orderId then some ((c.orderToSymbol.lookup e).getD 0)
        else c.orderToSymbol.lookup e := by
    intro c e
    rw [orderToSymbol_onBook]
    unfold MDClient.symbolOf
    -- both clients enter an unknown id for the symbol 0
    cases hknown : c.orderToSymbol.lookup orderId with
    | some symbol =>
      split_ifs with he
      · rw [he, hknown, Option.getD_some]
      · rfl
    | none =>
      split_ifs with he
      · rw [he, hknown]
        exact AList.lookup_insert _
      · exact AList.lookup_insert_ne he
  refine h.change hf hskip hids (hbook c) (hbook c') (fun heq => ?_) fun e heq => ?_
  · unfold MDClient.symbolOf
    rw [← heq]
    split <;> rfl
  · rw [hroute, hroute, heq]

/-- **Every message** is taken alike. -/
theorem apply (h : c.Agree symbols c') (body : MdBody) :
    (c.apply body).Agree symbols (c'.apply body) := by
  cases body with
  | newOrder orderId symbol side quantity price flags =>
    refine ⟨fun s hs => ?_, fun s hs e he => ?_⟩
    · rw [book_apply_newOrder, book_apply_newOrder]
      split_ifs with hown
      · subst hown
        exact (h.books s hs).newOrder orderId side quantity price
      · exact h.books s hs
    · by_cases hid : e = orderId
      · rw [routes_newOrder, routes_newOrder, if_pos hid, if_pos hid]
      · rw [order_apply_newOrder, if_neg fun hboth => hid hboth.2] at he
        rw [routes_newOrder, routes_newOrder, if_neg hid, if_neg hid, h.routes s hs e he]
  | deleteOrder orderId =>
    refine h.symbolOf (f := fun b => b.deleteOrder orderId) rfl (fun b b' hb => hb.deleteOrder orderId)
      (fun b hnone => ?_) fun b e he => ?_
    · rw [OrderBook.deleteOrder, hnone]
      exact .refl b
    · rw [OrderBook.lookup_deleteOrder] at he
      split_ifs at he
      · exact absurd rfl he
      · exact he
  | modifyOrder orderId side quantity price =>
    refine h.symbolOf (f := fun b => b.modifyOrder orderId side quantity price) rfl
      (fun b b' hb => hb.modifyOrder orderId side quantity price) (fun b hnone => ?_)
      fun b e he hold => he ?_
    · rw [OrderBook.modifyOrder, hnone]
      exact .refl b
    · rw [OrderBook.lookup_modifyOrder]
      split_ifs with hid
      · rw [← hid, hold]
        rfl
      · exact hold
  | trade orderId quantity price =>
    -- a trade does not enter an unknown id
    have hbook : ∀ (c : MDClient) s, (c.apply (.trade orderId quantity price)).book s =
        if c.orderToSymbol.lookup orderId = some s then (c.book s).orderTrade orderId quantity
        else c.book s := by
      intro c s
      simp only [MDClient.apply]
      cases c.orderToSymbol.lookup orderId with
      | none => rfl
      | some symbol => exact book_onBook_some rfl c symbol s
    have hroute : ∀ c : MDClient,
        (c.apply (.trade orderId quantity price)).orderToSymbol = c.orderToSymbol := by
      intro c
      simp only [MDClient.apply]
      cases c.orderToSymbol.lookup orderId with
      | none => rfl
      | some symbol => exact orderToSymbol_onBook ..
    refine h.change (f := fun b => b.orderTrade orderId quantity)
      (fun b b' hb => hb.orderTrade orderId quantity) (fun b hnone => ?_) (fun b e he hold => he ?_)
      (hbook c) (hbook c') id fun e heq => ?_
    · rw [OrderBook.orderTrade, hnone]
      exact .refl b
    · rw [OrderBook.lookup_orderTrade]
      split_ifs with hid
      · rw [← hid, hold]
        rfl
      · exact hold
    · rw [hroute, hroute, heq]
  | tradeSummary symbol side quantity price => exact h
  | heartbeat => exact h

theorem foldl (h : c.Agree symbols c') (bodies : List MdBody) :
    (bodies.foldl MDClient.apply c).Agree symbols (bodies.foldl MDClient.apply c') := by
  induction bodies generalizing c c' with
  | nil => exact h
  | cons body bodies ih => exact ih (h.apply body)

end Agree

/-- The books after a feed. -/
def replay (feed : List MdBody) : MDClient := feed.foldl apply empty

theorem replay_append (feed bodies : List MdBody) :
    replay (feed ++ bodies) = bodies.foldl apply (replay feed) := List.foldl_append

/-! #### Feeds whose quantities fit -/

/-- All quantities of a book. -/
def quantities (c : MDClient) (symbol : UInt32) : ℕ :=
  AList.total (fun o => o.quantity.toNat) (c.book symbol).orders

theorem quantities_apply_le (c : MDClient) (body : MdBody) (s : UInt32) :
    (c.apply body).quantities s ≤ c.quantities s + body.announced := by
  -- each message changes one order of one book, by a function of the order alone
  have hbook : ∀ {f : OrderBook → OrderBook} {g : Option Order → Option Order} {orderId : UInt64}
      {n : ℕ}, (∀ b e, (f b).orders.lookup e =
        if e = orderId then g (b.orders.lookup orderId) else b.orders.lookup e) →
      (∀ o, (g o).elim 0 (fun o => o.quantity.toNat) ≤ o.elim 0 (fun o => o.quantity.toNat) + n) →
      f OrderBook.empty = OrderBook.empty → ∀ (c : MDClient) symbol,
        (c.onBook symbol f).quantities s ≤ c.quantities s + n := by
    intro f g orderId n hf hg hempty c symbol
    unfold quantities
    rw [book_onBook hempty]
    split_ifs with hs
    · rw [hs]
      exact AList.total_le_of_lookup (hf _) hg
    · exact Nat.le_add_right _ _
  have hrouted : ∀ orderId, (c.symbolOf orderId).2.quantities s = c.quantities s := fun orderId => by
    rw [quantities, book_symbolOf, quantities]
  cases body with
  | newOrder orderId symbol side quantity price flags =>
    unfold quantities
    rw [book_apply_newOrder]
    split_ifs with hs
    · rw [hs]
      refine AList.total_le_of_lookup (g := fun o => some (o.getD ⟨side, price, quantity⟩))
        (fun e => (c.book symbol).lookup_newOrder orderId e side quantity price) fun o => ?_
      cases o with
      | none => exact Nat.le_add_left _ _
      | some o => exact Nat.le_add_right _ _
    · exact Nat.le_add_right _ _
  | deleteOrder orderId =>
    rw [← hrouted orderId]
    exact hbook (g := fun _ => none) (fun b e => b.lookup_deleteOrder orderId e)
      (fun _ => Nat.zero_le _) rfl _ _
  | modifyOrder orderId side quantity price =>
    rw [← hrouted orderId]
    refine hbook (g := Option.map fun _ => ⟨side, price, quantity⟩)
      (fun b e => b.lookup_modifyOrder orderId e side quantity price) (fun o => ?_) rfl _ _
    cases o with
    | none => exact Nat.zero_le _
    | some o => exact Nat.le_add_left _ _
  | trade orderId quantity price =>
    simp only [apply]
    cases c.orderToSymbol.lookup orderId with
    | none => exact Nat.le_add_right _ _
    | some symbol =>
      refine hbook (g := fun o => o.bind (OrderBook.reduce quantity))
        (fun b e => b.lookup_orderTrade orderId e quantity) (fun o => ?_) rfl c symbol
      cases o with
      | none => exact Nat.zero_le _
      | some o =>
        rw [Option.bind_some, Option.elim_some]
        unfold OrderBook.reduce
        split_ifs with hless
        · exact Nat.le_add_right _ _
        · exact Nat.zero_le _
        · rw [Option.elim_some, UInt32.toNat_sub_of_le _ _ (UInt32.not_lt.mp hless)]
          exact (Nat.sub_le _ _).trans (Nat.le_add_right _ _)
  | tradeSummary symbol side quantity price => exact Nat.le_add_right _ _
  | heartbeat => exact Nat.le_add_right _ _

theorem quantities_replay_le (feed : List MdBody) (s : UInt32) :
    (replay feed).quantities s ≤ (feed.map MdBody.announced).sum := by
  induction feed using List.reverseRecOn with
  | nil => exact Nat.le_refl 0
  | append_singleton feed body ih =>
    rw [replay_append, List.foldl_cons, List.foldl_nil, List.map_append, List.sum_append,
      List.map_singleton, List.sum_singleton]
    have hlast := quantities_apply_le (replay feed) body s
    omega

/-- **A feed whose quantities add up to 32 bits** has level sums of 32 bits. -/
theorem fits_replay {feed : List MdBody} (h : (feed.map MdBody.announced).sum < 2 ^ 32)
    (symbols : Set UInt32) (k : ℕ) : (replay (feed.take k)).Fits symbols := by
  intro s _ side price
  have hlevel : ((replay (feed.take k)).book s).atLevel side price ≤
      (replay (feed.take k)).quantities s := by
    refine AList.total_le_total (fun o => ?_) _
    unfold Order.weight
    split_ifs
    · exact Nat.le_refl _
    · exact Nat.zero_le _
  have hall := quantities_replay_le (feed.take k) s
  have hsome : ((feed.take k).map MdBody.announced).sum ≤ (feed.map MdBody.announced).sum :=
    ((List.take_sublist k feed).map _).sum_le_sum fun _ _ => Nat.zero_le _
  omega

/-- A message about an order or a symbol that the client does not know, after which
`process_message` returns. -/
def stops (c : MDClient) : MdBody → Bool
  | .newOrder .. => false
  | .deleteOrder orderId | .modifyOrder orderId _ _ _ =>
    (c.symbolToOrderBook.lookup (c.symbolOf orderId).1).isNone
  | .trade orderId _ _ =>
    match c.orderToSymbol.lookup orderId with
    | none => true
    | some symbol => (c.symbolToOrderBook.lookup symbol).isNone
  | .tradeSummary symbol _ _ _ => (c.symbolToOrderBook.lookup symbol).isNone
  | .heartbeat => false

end MDClient

/-- `MDClient` with its `last_md_seq_num`. -/
structure LiveClient where
  client : MDClient
  lastMdSeqNum : UInt32

namespace LiveClient

/-- `MDClient::process_message`. -/
def processMessage (c : LiveClient) : List MdMessage → LiveClient
  | [] => c
  | m :: ms =>
    if c.lastMdSeqNum + 1 < m.seqNum then c
    else if m.seqNum ≤ c.lastMdSeqNum then c.processMessage ms
    else
      let c' := ⟨c.client.apply m.body, m.seqNum⟩
      if c.client.stops m.body then c' else processMessage c' ms

/-- The client took the feed up to its last number. -/
def Replays (c : LiveClient) (symbols : Set UInt32) (feed : List MdBody) : Prop :=
  c.client.Agree symbols (MDClient.replay (feed.take (c.lastMdSeqNum.toNat + 1)))

variable {c : LiveClient} {symbols : Set UInt32} {feed : List MdBody} {ms : List MdMessage}

/-- **The message that follows** the last one is taken. -/
theorem Replays.next (h : c.Replays symbols feed) {m : MdMessage}
    (hm : feed[m.seqNum.toNat]? = some m.body)
    (hnext : m.seqNum.toNat = c.lastMdSeqNum.toNat + 1) :
    Replays ⟨c.client.apply m.body, m.seqNum⟩ symbols feed := by
  obtain ⟨hlt, hbody⟩ := List.getElem?_eq_some_iff.mp hm
  have htake : feed.take (m.seqNum.toNat + 1) =
      feed.take (c.lastMdSeqNum.toNat + 1) ++ [m.body] := by
    rw [List.take_add_one, hm, hnext]
    rfl
  unfold Replays
  rw [htake, MDClient.replay_append]
  exact h.apply m.body

/-- Every message of a datagram is taken once, in its turn, or not at all. -/
theorem Replays.processMessage (h : c.Replays symbols feed)
    (hms : ∀ m ∈ ms, feed[m.seqNum.toNat]? = some m.body) :
    (c.processMessage ms).Replays symbols feed := by
  induction ms generalizing c with
  | nil => exact h
  | cons m ms ih =>
    have hrest := fun m' hm' => hms m' (List.mem_cons_of_mem m hm')
    unfold LiveClient.processMessage
    by_cases hgap : c.lastMdSeqNum + 1 < m.seqNum
    · rwa [if_pos hgap]
    by_cases hold : m.seqNum ≤ c.lastMdSeqNum
    · rw [if_neg hgap, if_pos hold]
      exact ih h hrest
    rw [if_neg hgap, if_neg hold]
    have hnext : m.seqNum.toNat = c.lastMdSeqNum.toNat + 1 := by
      rw [UInt32.not_lt, UInt32.le_iff_toNat_le, UInt32.toNat_add] at hgap
      rw [UInt32.le_iff_toNat_le] at hold
      have hone : (1 : UInt32).toNat = 1 := rfl
      have hbound := m.seqNum.toNat_lt
      omega
    have htaken := h.next (hms m List.mem_cons_self) hnext
    split_ifs
    · exact htaken
    · exact ih htaken hrest

end LiveClient

end Bots

/-- **The live client never diverges**: after any datagrams of feed messages, in whatever order and
however often they come, the books are those of the feed up to the last number. -/
theorem live_client_replays {feed : List MdBody} {c : Bots.LiveClient}
    (hc : c.Replays Set.univ feed) (datagrams : List (List MdMessage))
    (hmessages : ∀ ms ∈ datagrams, ∀ m ∈ ms, feed[m.seqNum.toNat]? = some m.body) :
    (datagrams.foldl Bots.LiveClient.processMessage c).Replays Set.univ feed := by
  induction datagrams generalizing c with
  | nil => exact hc
  | cons ms datagrams ih =>
    have hone := hc.processMessage (hmessages ms List.mem_cons_self)
    exact ih hone fun ms' hms' => hmessages ms' (List.mem_cons_of_mem ms hms')

/-- A datagram is lost, one comes twice, and one of an unknown order comes with what follows it. -/
theorem live_client_replays_lossy :
    ([[⟨2, .deleteOrder 9⟩, ⟨3, .trade 1 4 50⟩], [⟨1, .newOrder 1 1 Side.buy 10 50 0⟩],
        [⟨1, .newOrder 1 1 Side.buy 10 50 0⟩, ⟨2, .deleteOrder 9⟩, ⟨3, .trade 1 4 50⟩],
        [⟨3, .trade 1 4 50⟩]].foldl Bots.LiveClient.processMessage
      ⟨Bots.MDClient.replay [.heartbeat], 0⟩).Replays Set.univ
      [.heartbeat, .newOrder 1 1 Side.buy 10 50 0, .deleteOrder 9, .trade 1 4 50] := by
  have hstart : (Bots.LiveClient.mk (Bots.MDClient.replay [.heartbeat]) 0).Replays Set.univ
      [.heartbeat, .newOrder 1 1 Side.buy 10 50 0, .deleteOrder 9, .trade 1 4 50] :=
    Bots.MDClient.Agree.refl ..
  exact live_client_replays hstart _ (by decide)

end Ndfex
