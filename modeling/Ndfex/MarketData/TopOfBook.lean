import Ndfex.Bots.SequenceTracking
import Ndfex.EtfService.Quotes

/-!
# The top of the book

What a bot quotes is what rests in the engine. The datagrams of the engine, in order and without loss,
leave the client of a bot with the best price of each side of each ladder and the whole quantity at that
price. A datagram of trades is taken to its end: every trade is of an order that the client shows.

## Main definitions

* `Bots.OrderBook.Tops`: a quote is the top of some orders
* `Bots.MDClient.TakesTrades`: the client returns after no message about a trade
* `Bots.LiveClient.CaughtUp`: the client took the feed
* `BrokerRun.Followed`: the client of a feed mirrors the ladders

## Main results

* `Bots.OrderBook.Counted.tops`: the quotes of a book are the tops of its orders
* `BrokerRun.followed_of_run`: every run of the engine is followed
* `Bots.LiveClient.CaughtUp.datagrams`: the datagrams of a feed
* `quotes_top_of_book`: the quotes of a bot are the tops of the ladders
-/

namespace Ndfex

open Bots Containers Transition Wire

namespace Bots

/-! ### The top of some orders -/

namespace OrderBook

/-- The quote is the best price among the orders of a side, with all the quantity at that price; and it
is empty if there is none. -/
def Tops (h : BookSide) (orders : List Order) (q : PriceLevel) : Prop :=
  (q = ⟨0, 0⟩ ∧ ∀ o ∈ orders, o.side.bookSide ≠ h) ∨
    ((∃ o ∈ orders, o.side.bookSide = h ∧ o.price = q.price) ∧
      (∀ o ∈ orders, o.side.bookSide = h → o.price ≠ q.price → h.better q.price o.price) ∧
        q.quantity.toNat = (orders.map (Order.weight h q.price)).sum)

variable {h : BookSide} {orders orders' : List Order} {q : PriceLevel} {b : OrderBook}

/-- The order of the list does not matter. -/
theorem Tops.perm (ht : Tops h orders q) (hperm : orders.Perm orders') : Tops h orders' q := by
  have hmem : ∀ o, o ∈ orders' ↔ o ∈ orders := fun _ => hperm.mem_iff.symm
  unfold Tops at ht ⊢
  simp only [hmem]
  rwa [← (hperm.map (Order.weight h q.price)).sum_eq]

/-- **The first level** of a side is its top. -/
theorem Counted.tops (hb : b.Counted) (h : BookSide) :
    Tops h (b.orders.entries.map fun x => x.2) (b.best h) := by
  have hlive : ∀ price, b.Live h price ↔
      ∃ o ∈ b.orders.entries.map fun x => x.2, o.side.bookSide = h ∧ o.price = price := by
    intro price
    constructor
    · rintro ⟨e, o, ho, hboth⟩
      exact ⟨o, List.mem_map.mpr ⟨⟨e, o⟩, AList.mem_lookup_iff.mp ho, rfl⟩, hboth⟩
    · rintro ⟨o, ho, hboth⟩
      obtain ⟨x, hx, rfl⟩ := List.mem_map.mp ho
      exact ⟨x.1, x.2, AList.mem_lookup_iff.mpr hx, hboth⟩
  rcases hb.best h with ⟨hzero, hnone⟩ | ⟨hbest, hfirst, hsum⟩
  · exact Or.inl ⟨hzero, fun o ho hside => hnone o.price ((hlive _).mpr ⟨o, ho, hside, rfl⟩)⟩
  · refine Or.inr ⟨(hlive _).mp hbest, fun o ho hside hne => ?_, ?_⟩
    · exact hfirst o.price ((hlive _).mpr ⟨o, ho, hside, rfl⟩) hne
    · rw [hsum, atLevel, AList.total, List.map_map]
      rfl

end OrderBook

/-! ### Messages about trades -/

namespace MDClient

/-- The client returns after none of the messages about trades. -/
def TakesTrades (c : MDClient) : List MdBody → Prop
  | [] => True
  | body :: bodies => (body.IsTrade → c.stops body = false) ∧ (c.apply body).TakesTrades bodies

variable {c : MDClient} {bodies : List MdBody} {symbol : UInt32} {ts : List QueuedTrade}
  {books : UInt32 → PriorityBook} {b' : PriorityBook} {op : LadderOp}

theorem takesTrades_append (bodies' : List MdBody) :
    c.TakesTrades (bodies ++ bodies') ↔
      c.TakesTrades bodies ∧ (bodies.foldl apply c).TakesTrades bodies' := by
  induction bodies generalizing c with
  | nil => simp [TakesTrades]
  | cons body bodies ih => simp only [List.cons_append, TakesTrades, List.foldl_cons, ih, and_assoc]

/-- Without trades there is nothing to return after. -/
theorem takesTrades_of_none (h : ∀ body ∈ bodies, ¬ body.IsTrade) : c.TakesTrades bodies := by
  induction bodies generalizing c with
  | nil => trivial
  | cons body bodies ih =>
    refine ⟨fun htrade => absurd htrade (h body List.mem_cons_self), ?_⟩
    exact ih fun body' hbody' => h body' (List.mem_cons_of_mem body hbody')

/-- Trades of orders whose symbol the client knows. -/
theorem takesTrades_trades (hbook : (c.symbolToOrderBook.lookup symbol).isSome)
    (hroutes : ∀ t ∈ ts, c.orderToSymbol.lookup t.orderId = some symbol) :
    c.TakesTrades (ts.map QueuedTrade.body) := by
  induction ts generalizing c with
  | nil => trivial
  | cons t ts ih =>
    have ht := hroutes t List.mem_cons_self
    obtain ⟨b, hb⟩ := Option.isSome_iff_exists.mp hbook
    have happly : c.apply t.body = c.onBook symbol fun b => b.orderTrade t.orderId t.quantity := by
      simp only [QueuedTrade.body, apply, ht]
    refine ⟨fun _ => ?_, ?_⟩
    · simp only [QueuedTrade.body, stops, ht, hb, Option.isNone_some]
    · rw [happly]
      refine ih ?_ fun t' ht' => ?_
      · simp only [onBook, hb, AList.lookup_insert, Option.isSome_some]
      · rw [orderToSymbol_onBook]
        exact hroutes t' (List.mem_cons_of_mem t ht')

/-- A datagram of one message, or of trades that the client takes, goes through. -/
theorem TakesTrades.goesThrough (h : c.TakesTrades bodies)
    (hbatch : bodies.length ≤ 1 ∨ ∀ body ∈ bodies, body.IsTrade) : c.GoesThrough bodies := by
  induction bodies generalizing c with
  | nil => trivial
  | cons body bodies ih =>
    refine ⟨fun hmore => ?_, ih h.2 ?_⟩
    · rcases hbatch with hone | htrades
      · exact absurd (List.eq_nil_of_length_eq_zero (by simpa using hone)) hmore
      · exact h.1 (htrades body List.mem_cons_self)
    · refine hbatch.imp (fun hone => ?_) fun htrades body' hbody' =>
        htrades body' (List.mem_cons_of_mem body hbody')
      exact Nat.le_trans (Nat.le_succ _) hone

theorem isSome_book {e : UInt64} (h : c.order symbol e ≠ none) :
    (c.symbolToOrderBook.lookup symbol).isSome := by
  rw [Option.isSome_iff_ne_none]
  intro hnone
  rw [order, hnone] at h
  exact h rfl

/-- **The messages of a call** end with trades of orders that the client shows. -/
theorem Mirrors.takesTrades (h : c.Mirrors books)
    (hann : (books symbol).Announcing symbol op b' bodies)
    (hnew : op.Enters op.orderId → ∀ symbol, (books symbol).find? op.orderId = none)
    (hts : ∀ t ∈ ts, (books symbol).Rests t.orderId ∧ t.orderId ≠ op.orderId) (side : Side) :
    c.TakesTrades (bodies ++ MarketDataPublisher.tradeBodies ts symbol side) := by
  obtain ⟨hsame, -, hroutes, -⟩ := h.announced hann hnew
  rw [takesTrades_append]
  refine ⟨takesTrades_of_none ?_, ?_⟩
  · cases hann with
    | nothing => exact fun _ hbody => absurd hbody List.not_mem_nil
    | opened | modified | deleted => simp [MdBody.IsTrade]
  · unfold MarketDataPublisher.tradeBodies
    split_ifs with hnone
    · trivial
    · -- the symbol has a book, since an order that is traded against is shown there
      obtain ⟨t, ht⟩ := List.exists_mem_of_ne_nil ts hnone
      have hshown : (bodies.foldl apply c).order symbol t.orderId ≠ none := by
        rw [hsame symbol t.orderId fun hown => (hts t ht).2 hown.2, h.order]
        exact PriorityBook.rests_iff_shown.mp (hts t ht).1
      have hbook := isSome_book hshown
      refine ⟨fun _ => ?_, takesTrades_trades hbook fun t' ht' => hroutes symbol _ (hts t' ht').1⟩
      rw [stops, Option.isNone_eq_false_iff]
      exact hbook

end MDClient

/-! ### The client of a feed -/

namespace LiveClient

/-- The client took the feed, whose first message it counts as one that it has. -/
structure CaughtUp (c : LiveClient) (feed : List MdBody) : Prop where
  client : c.client = MDClient.replay feed
  number : c.lastMdSeqNum.toNat = feed.length - 1

namespace CaughtUp

variable {c : LiveClient} {feed bodies : List MdBody}

/-- **A datagram that goes through** is taken to its end. -/
theorem packet (h : c.CaughtUp feed)
    (hfirst : feed = [] → ∀ body, bodies.head? = some body → body = .heartbeat)
    (hlength : feed.length + bodies.length ≤ 2 ^ 32) (hgoes : c.client.GoesThrough bodies) :
    (c.processMessage (numberedFrom feed.length bodies)).CaughtUp (feed ++ bodies) := by
  have hnumber := h.number
  by_cases hempty : feed = []
  · subst hempty
    cases bodies with
    | nil => exact h
    | cons body bodies =>
      -- the number of the first message is the one that the client begins with
      obtain rfl := hfirst rfl _ rfl
      have hzero : c.lastMdSeqNum.toNat = 0 := hnumber
      have hgap : ¬ c.lastMdSeqNum + 1 < UInt32.ofNat ([] : List MdBody).length :=
        UInt32.not_lt.mpr UInt32.zero_le
      have hold : UInt32.ofNat ([] : List MdBody).length ≤ c.lastMdSeqNum := UInt32.zero_le
      rw [List.length_nil, List.length_cons] at hlength
      have hlt : bodies.length < 2 ^ 32 := by omega
      have hrest := @processMessage_of_goesThrough c bodies (by rwa [hzero, Nat.zero_add]) hgoes.2
      rw [hzero, Nat.zero_add, Nat.zero_add] at hrest
      rw [numberedFrom, processMessage, if_neg hgap, if_pos hold, List.length_nil, Nat.zero_add, hrest]
      refine ⟨?_, ?_⟩
      · rw [h.client]
        rfl
      · rw [UInt32.toNat_ofNat_of_lt' hlt]
        rfl
  · have hpos := List.length_pos_iff.mpr hempty
    have hlt : c.lastMdSeqNum.toNat + bodies.length < 2 ^ 32 := by omega
    have hnext : feed.length = c.lastMdSeqNum.toNat + 1 := by omega
    rw [hnext, processMessage_of_goesThrough hlt hgoes]
    refine ⟨?_, ?_⟩
    · rw [MDClient.replay_append, h.client]
    · rw [UInt32.toNat_ofNat_of_lt' hlt, List.length_append]
      omega

/-- **The datagrams of a feed**, in order and without loss. -/
theorem datagrams {packets : List (List MdMessage)} {ds : List (List UInt8)}
    (hds : List.Forall₂ MdMessage.Encodes packets ds) {bots : WireClient} (h : bots.live.CaughtUp feed)
    (hpackets : packets.flatten = numberedFrom feed.length bodies)
    (hbatched : ∀ packet ∈ packets, (∃ m, packet = [m]) ∨ ∀ m ∈ packet, m.body.IsTrade)
    {fuel : ℕ} (hfits : ∀ packet ∈ packets,
      (packet.map fun m => m.body.length).sum ≤ WireClient.bufSize ∧ packet.length < fuel)
    (hfirst : feed = [] → ∀ body, bodies.head? = some body → body = .heartbeat)
    (hlength : feed.length + bodies.length ≤ 2 ^ 32)
    (htakes : bots.live.client.TakesTrades bodies) :
    ∃ bots', ds.foldlM (WireClient.process fuel) bots = some bots' ∧
      bots'.live.CaughtUp (feed ++ bodies) := by
  induction hds generalizing bots feed bodies with
  | nil =>
    have hnone : bodies = [] := by
      rw [← List.length_eq_zero_iff, ← length_numberedFrom feed.length, ← hpackets]
      rfl
    exact ⟨bots, rfl, by rwa [hnone, List.append_nil]⟩
  | @cons packet datagram packets ds hdatagram _ ih =>
    rw [List.flatten_cons] at hpackets
    -- the bodies are those of the packet, and those of the packets behind it
    obtain ⟨xs, ys, rfl, hpacket, hrest⟩ : ∃ xs ys, bodies = xs ++ ys ∧
        packet = numberedFrom feed.length xs ∧
          packets.flatten = numberedFrom (feed ++ xs).length ys := by
      have hsplit := List.take_append_drop packet.length bodies
      rw [← hsplit, numberedFrom_append] at hpackets
      have hle : packet.length ≤ bodies.length := by
        have hall := congrArg List.length hpackets
        rw [← numberedFrom_append, hsplit, length_numberedFrom, List.length_append] at hall
        omega
      obtain ⟨hpacket, hrest⟩ := List.append_inj hpackets (by
        rw [length_numberedFrom, List.length_take, Nat.min_eq_left hle])
      exact ⟨_, _, hsplit.symm, hpacket, by rw [hrest, List.length_append]⟩
    obtain ⟨hsize, hfuel⟩ := hfits packet List.mem_cons_self
    rw [MDClient.takesTrades_append] at htakes
    rw [List.length_append] at hlength
    obtain ⟨bots', hprocess, hlive⟩ :=
      WireClient.process_encodes hdatagram (hdatagram.length ▸ hsize) hfuel bots
    have hbatch : xs.length ≤ 1 ∨ ∀ body ∈ xs, body.IsTrade := by
      have hxs : xs = packet.map MdMessage.body := by rw [hpacket, map_body_numberedFrom]
      rcases hbatched packet List.mem_cons_self with ⟨m, hm⟩ | htrades
      · left
        rw [hxs, hm]
        exact Nat.le_refl 1
      · right
        rw [hxs]
        exact List.forall_mem_map.mpr htrades
    have hnext : bots'.live.CaughtUp (feed ++ xs) := by
      rw [hlive, hpacket]
      refine h.packet (fun hempty body hbody => hfirst hempty body ?_) (by omega)
        (htakes.1.goesThrough hbatch)
      rw [List.head?_append, hbody]
      rfl
    have hclient : bots'.live.client = xs.foldl MDClient.apply bots.live.client := by
      rw [hnext.client, MDClient.replay_append, h.client]
    rw [List.foldlM_cons, hprocess, ← List.append_assoc]
    apply ih hnext hrest
    · exact fun p hp => hbatched p (List.mem_cons_of_mem packet hp)
    · exact fun p hp => hfits p (List.mem_cons_of_mem packet hp)
    · intro hempty body hbody
      obtain ⟨hfeed, rfl⟩ := List.append_eq_nil_iff.mp hempty
      exact hfirst hfeed body hbody
    · rw [List.length_append]
      omega
    · rw [hclient]
      exact htakes.2

end CaughtUp

end LiveClient

end Bots

/-! ### The client of the engine's feed -/

namespace BrokerRun

/-- The ladders represent books, the client of the feed mirrors them, and it takes all trades. -/
structure Followed (s : BrokerRun) (books : UInt32 → PriorityBook) : Prop where
  sound : s.broker.Sound s.requests books
  mirrors : s.feed.Mirrors books
  takes : Bots.MDClient.empty.TakesTrades s.broker.publisher.bodies

variable {s : BrokerRun} {books : UInt32 → PriorityBook} {symbols : List UInt32}
  {ls : List BrokerEvent}

theorem followed_start (symbols : List UInt32) :
    (start symbols).Followed fun _ => PriorityBook.empty := by
  have hsound := MatchingEngineBroker.sound_start symbols
  have hbodies : (start symbols).broker.publisher.bodies = [] := by
    rw [publisher_start]
    rfl
  refine ⟨hsound, ?_, by rw [hbodies]; trivial⟩
  rw [feed_eq hsound, hbodies]
  refine ⟨fun _ _ => rfl, fun symbol e hrests => ?_⟩
  obtain ⟨o, ho, -⟩ := hrests
  cases ho

/-- **A request** that keeps the recorded fills. -/
theorem Followed.next (h : s.Followed books) {p : OePayload}
    (hfresh : (newIds (s.requests ++ [p])).Nodup) (hkeeps : s.KeepsFilled (.request p)) :
    (s.next p).Followed (s.broker.booksOf books p) := by
  obtain ⟨hroutes, hshows⟩ := mirrors_next h.sound h.mirrors hfresh
  obtain ⟨hhandled, hsound⟩ := h.sound.handle hfresh
  refine ⟨hsound, ⟨hshows.mpr hkeeps, hroutes⟩, ?_⟩
  have hbodies : (s.next p).broker.publisher.bodies = _ := hhandled.bodies
  rw [hbodies, Bots.MDClient.takesTrades_append, ← feed_eq h.sound]
  refine ⟨h.takes, ?_⟩
  unfold MatchingEngineBroker.callsOf
  cases hop : s.broker.opOf p with
  | none => trivial
  | some op =>
    obtain ⟨hpop, -⟩ := MatchingEngineBroker.op_of_opOf hop
    have hnew := h.sound.find?_fresh hfresh hpop
    obtain ⟨hann, -⟩ := @PriorityBook.shown_step _ p.symbol (h.sound.ordered p.symbol)
      (h.sound.live p.symbol) _ (hnew p.symbol)
    exact h.mirrors.takesTrades hann (fun henters symbol => hnew symbol henters)
      (fun t ht => PriorityBook.queuedTrade_step (hnew p.symbol) ht) _

theorem Followed.heartbeat (h : s.Followed books) : (s.after .heartbeat).Followed books := by
  refine ⟨h.sound.heartbeat, by rw [feed_heartbeat h.sound]; exact h.mirrors, ?_⟩
  rw [after, MatchingEngineBroker.heartbeat, MarketDataPublisher.publishHeartbeat,
    MarketDataPublisher.bodies_send, MarketDataPublisher.bodies_writeMsg,
    Bots.MDClient.takesTrades_append]
  exact ⟨h.takes, fun htrade => htrade.elim, trivial⟩

/-- **Every run** that keeps the recorded fills is followed. -/
theorem followed_of_run (h : Run (Guarded KeepsFilled BrokerStep) (start symbols) ls s) :
    ∃ books, s.Followed books := by
  refine h.invariant (I := fun s => ∃ books, s.Followed books) ?_ ⟨_, followed_start symbols⟩
  rintro s l t ⟨books, hs⟩ ⟨hkeeps, hen, rfl⟩
  cases l with
  | heartbeat => exact ⟨books, hs.heartbeat⟩
  | request p => exact ⟨_, hs.next hen.2 hkeeps⟩

/-- **The orders that the client shows** are those at rest in the ladders. -/
theorem Followed.orders_perm (h : s.Followed books) (symbol : UInt32) :
    ((s.feed.book symbol).orders.entries.map fun x => x.2).Perm
      ((s.broker.restingOrders symbol).map fun o => ⟨o.side, o.price, o.quantity⟩) := by
  have hordered := h.sound.ordered symbol
  -- with its id an order stands once in each list
  have hperm : ((s.feed.book symbol).orders.entries.map fun x => (x.1, x.2)).Perm
      ((books symbol).orders.map fun o => (o.orderId, o.shown)) := by
    have hnodup : ((s.feed.book symbol).orders.entries.map fun x => (x.1, x.2)).Nodup := by
      apply List.Nodup.of_map Prod.fst
      rw [List.map_map]
      exact (s.feed.book symbol).orders.nodupKeys
    have hnodup' : ((books symbol).orders.map fun o => (o.orderId, o.shown)).Nodup := by
      apply List.Nodup.of_map Prod.fst
      rw [List.map_map]
      exact hordered.nodup
    refine (List.perm_ext_iff_of_nodup hnodup hnodup').mpr fun x => ?_
    have hshown : (s.feed.book symbol).orders.lookup x.1 = ((books symbol).find? x.1).map _ :=
      (Bots.MDClient.lookup_book _ _ _).trans (h.mirrors.order symbol x.1)
    rw [List.mem_map, List.mem_map]
    constructor
    · rintro ⟨entry, hentry, rfl⟩
      rw [AList.mem_lookup_iff.mpr hentry] at hshown
      obtain ⟨o, ho, heq⟩ := Option.map_eq_some_iff.mp hshown.symm
      obtain ⟨hmem, hid⟩ := PriorityBook.mem_of_find? ho
      exact ⟨o, hmem, Prod.ext hid heq⟩
    · rintro ⟨o, ho, rfl⟩
      rw [hordered.find?_eq ho] at hshown
      exact ⟨⟨o.orderId, o.shown⟩, AList.mem_lookup_iff.mp hshown, rfl⟩
  have hrests := ((h.sound.restingOrders_perm symbol).map RestingOrder.shown).symm
  rw [List.map_map] at hrests
  have hshown := hperm.map Prod.snd
  rw [List.map_map, List.map_map] at hshown
  exact hshown.trans hrests

/-- No order that the client shows is empty. -/
theorem Followed.counted (h : s.Followed books) {symbol : UInt32}
    (ht : (s.feed.book symbol).Tallied) : (s.feed.book symbol).Counted := by
  refine ⟨ht, fun e o ho hzero => ?_⟩
  rw [Bots.MDClient.lookup_book, h.mirrors.order] at ho
  obtain ⟨r, hr, rfl⟩ := Option.map_eq_some_iff.mp ho
  have hpos := (h.sound.live symbol r (PriorityBook.mem_of_find? hr).1).1
  rw [show r.quantity = 0 from hzero] at hpos
  exact absurd hpos (UInt32.lt_irrefl 0)

/-- The datagrams of a run are no longer than the buffer of the publisher. -/
theorem framed_of_run (h : Run BrokerStep (start symbols) ls s) : s.broker.publisher.Framed := by
  obtain ⟨calls, hcalls⟩ := publishes_of_run h
  rw [publisher_start] at hcalls
  exact hcalls ▸ MarketDataPublisher.framed_empty.foldl calls

end BrokerRun

/-- **A bot quotes the top of the book**: the engine begins with a heartbeat and its modifications in
place meet orders without recorded fills; its datagrams come in order and without loss. Then the client
of a bot takes them all, and its best bid and ask of every symbol are the best prices at rest in the
ladder, with the quantity at rest there. -/
theorem quotes_top_of_book {symbols : List UInt32} {ls : List BrokerEvent} {s : BrokerRun}
    (hrun : Run (Guarded BrokerRun.KeepsFilled BrokerStep) (BrokerRun.start symbols)
      (.heartbeat :: ls) s) {ds : List (List UInt8)}
    (hds : List.Forall₂ MdMessage.Encodes s.broker.publisher.datagrams ds)
    (hlength : s.broker.publisher.bodies.length ≤ 2 ^ 32)
    (hfits : ∀ k, (Bots.MDClient.replay (s.broker.publisher.bodies.take k)).Fits Set.univ)
    (buf : ℕ → UInt8) {fuel : ℕ} (hfuel : MarketDataPublisher.bufferCapacity < fuel) :
    ∃ bots, ds.foldlM (WireClient.process fuel) (WireClient.start buf) = some bots ∧
      ∀ symbol,
        OrderBook.Tops .buy
            ((s.broker.restingOrders symbol).map fun o => ⟨o.side, o.price, o.quantity⟩)
            (bots.live.client.getBestBid symbol) ∧
          OrderBook.Tops .sell
            ((s.broker.restingOrders symbol).map fun o => ⟨o.side, o.price, o.quantity⟩)
            (bots.live.client.getBestAsk symbol) := by
  obtain ⟨books, hs⟩ := BrokerRun.followed_of_run hrun
  have hplain := hrun.of_guarded
  obtain ⟨hann, -⟩ := BrokerRun.announced_of_run hplain
  have hframed := BrokerRun.framed_of_run hplain
  have hfeed : BookedFeed s.broker.publisher.bodies Set.univ :=
    ⟨hs.sound.distinct.sublist hann.ids, hann.positive, hfits⟩
  -- a datagram fits in the client's buffer, and has fewer messages than bytes
  have hpackets : ∀ packet ∈ s.broker.publisher.datagrams,
      (packet.map fun m => m.body.length).sum ≤ WireClient.bufSize ∧ packet.length < fuel := by
    intro packet hpacket
    have hsum := hframed.fits packet hpacket
    have hcount := List.length_le_sum_of_one_le (packet.map fun m => m.body.length)
      (List.forall_mem_map.mpr fun m _ => MarketDataPublisher.length_pos m.body)
    rw [List.length_map] at hcount
    exact ⟨Nat.le_trans hsum (by decide), by omega⟩
  have hstart : (WireClient.start buf).live.CaughtUp [] := ⟨rfl, rfl⟩
  obtain ⟨bots, hbots, hstep⟩ := hstart.datagrams hds (BrokerRun.numbered_of_run hplain)
    (BrokerRun.batched_of_run hplain).datagrams hpackets
    (fun _ body hbody => Option.some.inj (hbody.symm.trans (BrokerRun.heartbeat_of_run hplain)))
    (by simpa using hlength) hs.takes
  refine ⟨bots, hbots, fun symbol => ?_⟩
  -- the client has taken the whole feed, so its books are those that the engine keeps up
  have hclient : bots.live.client = s.feed := by
    rw [hstep.client, List.nil_append, BrokerRun.feed_eq hs.sound]
    rfl
  have hwhole := hfeed.tallied s.broker.publisher.bodies.length
  rw [List.take_length, ← List.nil_append s.broker.publisher.bodies, ← hstep.client, hclient] at hwhole
  have hcounted := hs.counted (hwhole symbol (Set.mem_univ symbol))
  have htops : ∀ h, OrderBook.Tops h
      ((s.broker.restingOrders symbol).map fun o => ⟨o.side, o.price, o.quantity⟩)
      (bots.live.client.best h symbol) := by
    intro h
    rw [hclient, Bots.MDClient.best_eq]
    exact (hcounted.tops h).perm (hs.orders_perm symbol)
  exact ⟨htops .buy, htops .sell⟩

/-- Two sales rest, of which one is bought whole and the other in part, in one datagram. -/
theorem quotes_top_of_book_traded :
    let s := [.heartbeat, .request (.make .newOrder 1 7 1 100 Side.sell 4 50 0),
      .request (.make .newOrder 2 7 2 100 Side.sell 9 50 0),
      .request (.make .newOrder 3 7 1 200 Side.buy 6 50 0)].foldl BrokerRun.after
        (BrokerRun.start [7])
    ∃ bots, (s.bytes 0).foldlM (WireClient.process 1461) (WireClient.start fun _ => 0) = some bots ∧
      ∀ symbol,
        OrderBook.Tops .buy
            ((s.broker.restingOrders symbol).map fun o => ⟨o.side, o.price, o.quantity⟩)
            (bots.live.client.getBestBid symbol) ∧
          OrderBook.Tops .sell
            ((s.broker.restingOrders symbol).map fun o => ⟨o.side, o.price, o.quantity⟩)
            (bots.live.client.getBestAsk symbol) := by
  intro s
  have hrun : Run (Guarded BrokerRun.KeepsFilled BrokerStep) (BrokerRun.start [7]) _ s :=
    BrokerRun.run_of_enabled (by decide +kernel) (by decide +kernel)
  refine quotes_top_of_book hrun (s.encodes_bytes 0) (by decide +kernel) ?_ (fun _ => 0) (by decide)
  exact Bots.MDClient.fits_replay (by decide +kernel) Set.univ

end Ndfex
