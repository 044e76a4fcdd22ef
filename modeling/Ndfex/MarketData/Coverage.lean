import Ndfex.Bots.FeedReplica
import Ndfex.MarketData.Tracking

/-!
# What the snapshots cover

The feed of the engine over any symbols, and the snapshots of the writer, which knows two of them. The
ids and quantities that the engine announces make the feed one that the recovery is about.

## Main definitions

* `Snapshot.Lists`: a snapshot lists the orders of its symbol
* `LateJoin.Covers`: the writer has a snapshot of every symbol on which an order rests

## Main results

* `BrokerRun.nodup_newOrderIds`: the engine announces no id twice
* `BrokerRun.positive_bodies`: the engine announces no quantity of zero
* `snapshots_cover`: the snapshots cover the feed exactly if the orders are of symbols 1 and 2
* `third_symbol_uncovered`: an order of another symbol
-/

namespace Ndfex

open Containers Transition Bots

/-! ## The messages of the engine -/

namespace PriorityBook

variable {b : PriorityBook} {symbol : UInt32}

/-- A call announces a new id only as it enters the order. -/
theorem newOrderIds_announcing {op : LadderOp} {b' : PriorityBook} {bodies : List MdBody}
    (h : b.Announcing symbol op b' bodies) :
    newOrderIds bodies = [] ∨ newOrderIds bodies = [op.orderId] ∧ op.Enters op.orderId := by
  cases h with
  | nothing => exact Or.inl rfl
  | opened _ henters _ => exact Or.inr ⟨rfl, henters⟩
  | modified => exact Or.inl rfl
  | deleted => exact Or.inl rfl

/-- The messages of a call give no order the quantity zero. -/
theorem positive_step (hb : b.Ordered) {op : LadderOp}
    (hnew : op.Enters op.orderId → b.find? op.orderId = none) :
    ∀ body ∈ (b.step symbol op).calls.filterMap Callback.body, body.Positive := by
  have hstep := stepping b symbol op
  generalize b.step symbol op = r at hstep ⊢
  intro body hbody
  cases hstep with
  | refused => cases hbody
  | entered hq he =>
    rcases shown_entering_self hb he (hnew ⟨_, _, _, _, rfl⟩) with ⟨-, hnone, -⟩ | ⟨-, hone, hpos⟩
    · rw [hnone] at hbody
      cases hbody
    · rw [hone] at hbody
      obtain rfl := List.mem_singleton.mp hbody
      exact (UInt32.pos_iff_ne_zero.mp hpos)
  | deleted hfound =>
    obtain rfl := List.mem_singleton.mp hbody
    trivial
  | unknown hop hfound => cases hbody
  | closed hfound hfilled =>
    obtain rfl := List.mem_singleton.mp hbody
    trivial
  | @requantified orderId side quantity price o hfound hfilled hplace =>
    -- what the fills leave of a larger quantity
    obtain rfl := List.mem_singleton.mp hbody
    intro hzero
    have hle := UInt32.le_of_lt hfilled
    have hnat := congrArg UInt32.toNat hzero
    rw [UInt32.toNat_sub_of_le _ _ hle, UInt32.toNat_zero] at hnat
    rw [UInt32.lt_iff_toNat_lt] at hfilled
    omega
  | @reentered orderId side quantity price o r hfound hfilled hplace he hthrown =>
    obtain ⟨hmem, rfl⟩ := mem_of_find? hfound
    have hremoved := find?_remove_self b o.orderId
    have hentered : r.calls.filterMap Callback.body = [] := by
      rcases shown_entering_self (hb.remove _) he hremoved with ⟨-, hnone, -⟩ | ⟨-, hone, -⟩
      · exact hnone
      · rw [hone, if_neg Bool.false_ne_true]
    rw [List.filterMap_append, hentered, List.nil_append] at hbody
    split_ifs at hbody with hpos
    · obtain rfl := List.mem_singleton.mp hbody
      exact UInt32.pos_iff_ne_zero.mp hpos
    · obtain rfl := List.mem_singleton.mp hbody
      trivial

end PriorityBook

/-- The trades of a request give no id and no quantity. -/
theorem newOrderIds_tradeBodies (ts : List QueuedTrade) (symbol : UInt32) (side : Side) :
    newOrderIds (MarketDataPublisher.tradeBodies ts symbol side) = [] ∧
      ∀ body ∈ MarketDataPublisher.tradeBodies ts symbol side, body.Positive := by
  unfold MarketDataPublisher.tradeBodies
  split_ifs
  · exact ⟨rfl, fun _ h => absurd h List.not_mem_nil⟩
  · refine ⟨List.filterMap_eq_nil_iff.mpr fun body hbody => ?_, fun body hbody => ?_⟩
    · rcases List.mem_cons.mp hbody with rfl | htrade
      · rfl
      · obtain ⟨t, -, rfl⟩ := List.mem_map.mp htrade
        rfl
    · rcases List.mem_cons.mp hbody with rfl | htrade
      · trivial
      · obtain ⟨t, -, rfl⟩ := List.mem_map.mp htrade
        trivial

namespace BrokerRun

variable {s : BrokerRun} {books : UInt32 → PriorityBook}

/-- The engine announced only ids of requests, each once, and only quantities. -/
structure Announced (s : BrokerRun) : Prop where
  ids : (newOrderIds s.broker.publisher.bodies).Sublist (newIds s.requests)
  positive : ∀ body ∈ s.broker.publisher.bodies, body.Positive

/-- **A request.** -/
theorem Announced.next (h : s.Announced) (hs : s.broker.Sound s.requests books) {p : OePayload}
    (hfresh : (newIds (s.requests ++ [p])).Nodup) : (s.next p).Announced := by
  obtain ⟨hhandled, -⟩ := hs.handle hfresh
  obtain ⟨htrades, hpositive⟩ := newOrderIds_tradeBodies
    ((s.broker.callsOf books p).filterMap Callback.queuedTrade) p.symbol
      (s.broker.accept p).aggressorSide
  -- a request announces at most its own order
  have hcalls : (newOrderIds ((s.broker.callsOf books p).filterMap Callback.body)).Sublist
        (newIds [p]) ∧
      ∀ body ∈ (s.broker.callsOf books p).filterMap Callback.body, body.Positive := by
    unfold MatchingEngineBroker.callsOf
    cases hop : s.broker.opOf p with
    | none => exact ⟨List.nil_sublist _, fun _ h => absurd h List.not_mem_nil⟩
    | some op =>
      obtain ⟨hpop, -⟩ := MatchingEngineBroker.op_of_opOf hop
      have hnew := hs.find?_fresh hfresh hpop p.symbol
      obtain ⟨hann, -⟩ := @PriorityBook.shown_step _ p.symbol (hs.ordered p.symbol)
        (hs.live p.symbol) _ hnew
      refine ⟨?_, PriorityBook.positive_step (hs.ordered p.symbol) hnew⟩
      dsimp only
      rcases PriorityBook.newOrderIds_announcing hann with hnone | ⟨hone, henters⟩
      · rw [hnone]
        exact List.nil_sublist _
      · obtain ⟨htype, hid⟩ := OePayload.enters_of_op hpop henters
        have hid' : newIds [p] = [op.orderId] := by simp [newIds, OePayload.newId, htype, hid]
        rw [hone, hid']
  have hbodies : (s.next p).broker.publisher.bodies = _ := hhandled.bodies
  constructor
  · rw [hbodies, newOrderIds_append, newOrderIds_append, htrades, List.append_nil]
    change List.Sublist _ (newIds (s.requests ++ [p]))
    rw [newIds, List.filterMap_append]
    exact h.ids.append hcalls.1
  · intro body hbody
    rw [hbodies] at hbody
    rcases List.mem_append.mp hbody with hold | hbody
    · exact h.positive body hold
    · exact (List.mem_append.mp hbody).elim (hcalls.2 body) (hpositive body)

/-- **Every run** of the engine announces its orders under distinct ids. -/
theorem announced_of_run {symbols : List UInt32} {ls : List BrokerEvent}
    (h : Run BrokerStep (BrokerRun.start symbols) ls s) :
    s.Announced ∧ ∃ books, s.broker.Sound s.requests books := by
  refine h.invariant (I := fun s => s.Announced ∧ ∃ books, s.broker.Sound s.requests books) ?_ ?_
  · rintro s l t ⟨hann, books, hs⟩ hstep
    refine ⟨?_, BrokerRun.sound_step hs hstep⟩
    obtain ⟨hen, rfl⟩ := hstep
    cases l with
    | heartbeat =>
      -- a heartbeat announces nothing
      have hbodies : (s.after .heartbeat).broker.publisher.bodies =
          s.broker.publisher.bodies ++ [.heartbeat] := by
        rw [BrokerRun.after, MatchingEngineBroker.heartbeat, MarketDataPublisher.publishHeartbeat,
          MarketDataPublisher.bodies_send, MarketDataPublisher.bodies_writeMsg]
      refine ⟨?_, fun body hbody => ?_⟩
      · rw [hbodies, newOrderIds_append]
        change List.Sublist (_ ++ []) _
        rw [List.append_nil]
        exact hann.ids
      · rw [hbodies] at hbody
        rcases List.mem_append.mp hbody with hold | hnew
        · exact hann.positive body hold
        · rw [List.mem_singleton.mp hnew]
          trivial
    | request p => exact hann.next hs hen.2
  · refine ⟨?_, _, MatchingEngineBroker.sound_start symbols⟩
    rw [BrokerRun.start, MatchingEngineBroker.start_eq]
    exact ⟨List.nil_sublist _, fun _ h => absurd h List.not_mem_nil⟩

end BrokerRun

/-! ## The snapshots -/

/-- A new order is of a symbol that the constructor of the snapshot writer enters. -/
def MdBody.Carried : MdBody → Prop
  | .newOrder _ symbol .. => symbol = 1 ∨ symbol = 2
  | .heartbeat | .deleteOrder _ | .modifyOrder .. | .trade .. | .tradeSummary .. => True

instance : DecidablePred MdBody.Carried
  | .newOrder _ symbol .. => inferInstanceAs (Decidable (symbol = 1 ∨ symbol = 2))
  | .heartbeat | .deleteOrder _ | .modifyOrder .. | .trade .. | .tradeSummary .. =>
    inferInstanceAs (Decidable True)

/-- A snapshot lists the orders shown of its symbol, each once. -/
structure Snapshot.Lists (x : Snapshot) (v : Shown) : Prop where
  nodup : (x.orders.map SnapshotOrder.orderId).Nodup
  owns : ∀ o ∈ x.orders, o.symbol = x.symbol
  shown : ∀ e, (findKey SnapshotOrder.orderId e x.orders).map SnapshotOrder.shown = v x.symbol e

namespace LateJoin

variable {s : LateJoin}

/-- The next round writes a snapshot of every symbol on which an order rests, of exactly these
orders. -/
def Covers (s : LateJoin) : Prop :=
  ∀ symbol, (∃ e, shownBy (s.bodies.take s.taken) symbol e ≠ none) →
    symbol ∈ s.writer.symbols ∧ (s.writer.snapshotOf symbol).Lists (shownBy (s.bodies.take s.taken))

/-- The orders that rest at this instant are of symbols 1 and 2. -/
def TwoSymbols (s : LateJoin) : Prop :=
  ∀ symbol e, shownBy (s.bodies.take s.taken) symbol e ≠ none → symbol = 1 ∨ symbol = 2

theorem Heard.covers_iff (h : s.Heard) : s.Covers ↔ s.TwoSymbols := by
  constructor
  · intro hcovers symbol e he
    have hmem := (hcovers symbol ⟨e, he⟩).1
    rwa [h.symbols, List.mem_cons, List.mem_singleton] at hmem
  · rintro htwo symbol ⟨e, he⟩
    have hmem : symbol ∈ s.writer.symbols := by
      rw [h.symbols, List.mem_cons, List.mem_singleton]
      exact htwo symbol e he
    exact ⟨hmem, h.keeps.nodup symbol, h.keeps.symbol symbol, h.keeps.shown symbol hmem⟩

/-- Orders rest on the symbols that they were announced of. -/
theorem twoSymbols_of_carried {bodies : List MdBody} (h : ∀ body ∈ bodies, body.Carried) (k : ℕ)
    (symbol : UInt32) (e : UInt64) (he : shownBy (bodies.take k) symbol e ≠ none) :
    symbol = 1 ∨ symbol = 2 := by
  obtain ⟨side, quantity, price, flags, hmem⟩ := exists_newOrder_of_shown he
  exact h _ (List.mem_of_mem_take hmem)

/-- The client took both snapshots while the orders that rest were of symbols 1 and 2. -/
def KeptTwoSymbols (s : LateJoin) : Prop :=
  ∀ symbol, symbol = 1 ∨ symbol = 2 → ∀ x ∈ s.kept symbol, ∀ symbol' e,
    shownBy (s.bodies.take x.instant) symbol' e ≠ none → symbol' = 1 ∨ symbol' = 2

end LateJoin

/-- The feed of a run of the engine. -/
theorem BrokerRun.feed_prefix {symbols : List UInt32} {es : List BrokerEvent} {b : BrokerRun}
    (hb : Run BrokerStep (BrokerRun.start symbols) es b) {s : LateJoin}
    (hfeed : s.packets <+: b.broker.publisher.datagrams) :
    (newOrderIds s.bodies).Nodup ∧ ∀ body ∈ s.bodies, body.Positive := by
  obtain ⟨hann, books, hs⟩ := BrokerRun.announced_of_run hb
  have hpart : s.bodies <+: b.broker.publisher.bodies := by
    obtain ⟨rest, hrest⟩ := hfeed
    rw [hs.idle.bodies_eq, ← hrest, List.flatten_append, List.map_append]
    exact List.prefix_append _ _
  exact ⟨(hs.distinct.sublist hann.ids).sublist (hpart.sublist.filterMap _),
    fun body hbody => hann.positive body (hpart.subset hbody)⟩

/-- **The snapshots cover the feed** exactly while the orders that rest are of symbols 1 and 2. A client
that joins late, and takes both snapshots then, has the books of the feed from its start. -/
theorem snapshots_cover {symbols : List UInt32} {es : List BrokerEvent} {b : BrokerRun}
    (hb : Run BrokerStep (BrokerRun.start symbols) es b) {liveFirst snapshotFirst : ℕ}
    {ls : List JoinEvent} {s : LateJoin}
    (h : Run (Guarded LateJoin.KeepsSide JoinStep) (LateJoin.start liveFirst snapshotFirst) ls s)
    (hfeed : s.packets <+: b.broker.publisher.datagrams) :
    (s.Covers ↔ s.TwoSymbols) ∧
      (s.KeptTwoSymbols → s.recovery.Done → s.SameOrders → s.bodies.length < 2 ^ 32 →
        (∀ k, (MDClient.replay (s.bodies.take k)).Fits Set.univ) →
          s.recovery.finish.Replays Set.univ s.bodies) := by
  obtain ⟨hids, hpositive⟩ := BrokerRun.feed_prefix hb hfeed
  refine ⟨(LateJoin.Heard.of_run h hids).covers_iff, fun htwo hdone hsame hlength hfits => ?_⟩
  exact replays_recovered h ⟨⟨hids, hpositive, hfits⟩, hlength⟩ hdone hsame
    fun symbol hsymbol x hx symbol' _ e he => htwo symbol hsymbol x hx symbol' e he

/-- Orders of both symbols, and a client that joins behind them. -/
theorem snapshots_cover_both :
    ∃ (b : BrokerRun) (s : LateJoin), Run BrokerStep (BrokerRun.start [1, 2, 3])
        [.heartbeat, .request ⟨.newOrder, 1, 1, 1, 100, Side.sell, 10, 50, 0⟩,
          .request ⟨.newOrder, 2, 2, 1, 200, Side.buy, 4, 40, 0⟩] b ∧
      s.packets <+: b.broker.publisher.datagrams ∧ s.Covers ∧
        s.recovery.finish.Replays Set.univ s.bodies := by
  have hb : Run (Guarded (fun _ _ => True) BrokerStep) (BrokerRun.start [1, 2, 3])
      [.heartbeat, .request ⟨.newOrder, 1, 1, 1, 100, Side.sell, 10, 50, 0⟩,
        .request ⟨.newOrder, 2, 2, 1, 200, Side.buy, 4, 40, 0⟩] _ :=
    BrokerRun.run_of_enabled (by decide +kernel) (by decide +kernel)
  have hs : Run (Guarded LateJoin.KeepsSide JoinStep) (LateJoin.start 0 0)
      [.publish [.heartbeat], .publish [.newOrder 1 1 Side.sell 10 50 0],
        .publish [.newOrder 2 2 Side.buy 4 40 0], .hear, .hear, .hear, .startRound .stable,
        .writeSnapshot, .writeSnapshot, .poll true, .poll true] _ :=
    LateJoin.run_of_enabled (by decide +kernel)
  have hfeed := snapshots_cover hb.of_guarded hs (by decide +kernel)
  refine ⟨_, _, hb.of_guarded, by decide +kernel, hfeed.1.mpr ?_, hfeed.2 ?_ (by decide +kernel) ?_
    (by decide +kernel) (MDClient.fits_replay (by decide +kernel) _)⟩
  · exact LateJoin.twoSymbols_of_carried (by decide +kernel) _
  · exact fun _ _ x _ => LateJoin.twoSymbols_of_carried (by decide +kernel) x.instant
  · exact LateJoin.sameOrders_of_instant (by decide +kernel)

/-- An order rests on a third symbol: no snapshot has it. -/
theorem third_symbol_uncovered :
    ∃ (b : BrokerRun) (s : LateJoin), Run BrokerStep (BrokerRun.start [1, 2, 3])
        [.heartbeat, .request ⟨.newOrder, 1, 3, 1, 100, Side.sell, 10, 50, 0⟩] b ∧
      Run (Guarded LateJoin.KeepsSide JoinStep) (LateJoin.start 0 0)
        [.publish [.heartbeat], .publish [.newOrder 1 3 Side.sell 10 50 0], .hear, .hear,
          .startRound .stable, .writeSnapshot, .writeSnapshot, .poll true, .poll true] s ∧
      s.packets = b.broker.publisher.datagrams ∧ s.recovery.Done ∧
        shownBy (s.bodies.take s.taken) 3 1 ≠ none ∧ ¬ s.Covers ∧
          s.recovery.finish.client.order 3 1 = none := by
  refine ⟨_, _, (BrokerRun.run_of_enabled (G := fun _ _ => True) (by decide +kernel)
    (by decide +kernel)).of_guarded, LateJoin.run_of_enabled (by decide +kernel), by decide +kernel,
    by decide +kernel, by decide +kernel, fun hcovers => ?_, by decide +kernel⟩
  have hthree := (hcovers 3 ⟨1, by decide +kernel⟩).1
  revert hthree
  decide +kernel

end Ndfex
