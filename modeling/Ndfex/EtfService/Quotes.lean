import Ndfex.Bots.WireClient
import Ndfex.EtfService.MDClient
import Ndfex.MarketData.Coverage

/-!
# The quotes of the ETF service and of the bots

The datagrams of the engine from its start, received by the client of the bots and by that of the ETF
service. As long as nothing trades, every datagram is one message, and both clients take it alike. An
order that is traded against stays in the levels of the ETF service.

## Main definitions

* `EtfService.Abreast`: both clients took the feed

## Main results

* `EtfService.Abreast.message`, `EtfService.Abreast.datagrams`: one message, and the datagrams of a feed
* `quotes_agree`: the quotes agree as long as nothing trades
* `quotes_disagree`: a sale of 10 of which 4 are sold
-/

namespace Ndfex

open Bots Containers Transition Wire

namespace EtfService

/-- The client of the bots and that of the ETF service took the feed, whose first message the bots count
as one that they have. -/
structure Abreast (bots : WireClient) (etf : EtfService.MDClient) (feed : List MdBody) : Prop where
  client : bots.live.client = Bots.MDClient.replay feed
  number : bots.live.lastMdSeqNum.toNat = feed.length - 1
  mirrors : etf.Mirrors (Bots.MDClient.replay feed) (shownBy feed)

namespace Abreast

variable {bots : WireClient} {etf : EtfService.MDClient} {feed : List MdBody} {body : MdBody}
  {datagram : List UInt8} {fuel : ℕ}

theorem start (buf : ℕ → UInt8) : Abreast (.start buf) MDClient.start [] := ⟨rfl, rfl, .start⟩

/-- What the bots do with the message of the next number. -/
theorem live_next (h : Abreast bots etf feed) (hfirst : feed = [] → body = .heartbeat)
    (hlength : feed.length < 2 ^ 32) :
    (bots.live.processMessage [⟨UInt32.ofNat feed.length, body⟩]).client =
        Bots.MDClient.replay (feed ++ [body]) ∧
      (bots.live.processMessage [⟨UInt32.ofNat feed.length, body⟩]).lastMdSeqNum.toNat =
        (feed ++ [body]).length - 1 := by
  have hnumber : (UInt32.ofNat feed.length).toNat = feed.length :=
    UInt32.toNat_ofNat_of_lt' hlength
  have hone : (1 : UInt32).toNat = 1 := rfl
  rw [Bots.MDClient.replay_append, ← h.client, List.length_append, List.length_singleton]
  unfold LiveClient.processMessage
  have hgap : ¬ bots.live.lastMdSeqNum + 1 < UInt32.ofNat feed.length := by
    rw [UInt32.lt_iff_toNat_lt, UInt32.toNat_add, hnumber, h.number, hone]
    omega
  rw [if_neg hgap]
  by_cases hempty : feed = []
  · -- the number of the first message is the one that the client begins with
    subst hempty
    obtain rfl := hfirst rfl
    have hold : UInt32.ofNat ([] : List MdBody).length ≤ bots.live.lastMdSeqNum := UInt32.zero_le
    rw [if_pos hold]
    exact ⟨rfl, h.number⟩
  · have hpos := List.length_pos_iff.mpr hempty
    have hnew : ¬ UInt32.ofNat feed.length ≤ bots.live.lastMdSeqNum := by
      rw [UInt32.le_iff_toNat_le, hnumber, h.number]
      omega
    rw [if_neg hnew]
    dsimp only
    split_ifs <;> exact ⟨rfl, hnumber⟩

/-- **One message**, in a datagram of its own. -/
theorem message (h : Abreast bots etf feed) (hfeed : BookedFeed (feed ++ [body]) Set.univ)
    (hlength : feed.length < 2 ^ 32) (hfirst : feed = [] → body = .heartbeat) (htrade : ¬ body.IsTrade)
    (hdatagram : MdMessage.Encodes [⟨UInt32.ofNat feed.length, body⟩] datagram) (hfuel : 1 < fuel) :
    ∃ bots', bots.process fuel datagram = some bots' ∧
      Abreast bots' (etf.processMessage datagram) (feed ++ [body]) := by
  have hsize : datagram.length ≤ WireClient.bufSize := by
    rw [hdatagram.length, List.map_singleton, List.sum_singleton]
    exact Nat.le_trans body.length_le (by decide)
  obtain ⟨bots', hprocess, hlive⟩ := WireClient.process_encodes hdatagram hsize hfuel bots
  obtain ⟨hclient, hnumber⟩ := h.live_next hfirst hlength
  refine ⟨bots', hprocess, hlive ▸ hclient, hlive ▸ hnumber, ?_⟩
  -- the message meets the books of the feed before it
  have hbefore : feed = (feed ++ [body]).take feed.length := List.take_left.symm
  have hfollows : (Bots.MDClient.replay feed).Follows Set.univ (shownBy feed) := by
    have hpart := hfeed.follows feed.length
    rwa [← hbefore] at hpart
  have hfresh : (shownBy feed).Fresh body := by
    refine (within_shownBy feed).fresh ?_
    rw [← newOrderIds_append]
    exact hfeed.ids
  have hpositive := hfeed.positive body (List.mem_append_right _ (List.mem_singleton_self body))
  rw [MDClient.processMessage_encodes hdatagram, Bots.MDClient.replay_append, shownBy_append]
  exact (h.mirrors.numbered _).take hfollows hfresh hpositive htrade

/-- **The datagrams of a feed** without trades, each with at most one message. -/
theorem datagrams {packets : List (List MdMessage)} {ds : List (List UInt8)}
    (hds : List.Forall₂ MdMessage.Encodes packets ds) {bodies : List MdBody}
    (h : Abreast bots etf feed) (hpackets : packets.flatten = numberedFrom feed.length bodies)
    (hsingle : ∀ packet ∈ packets, packet.length ≤ 1)
    (hfeed : BookedFeed (feed ++ bodies) Set.univ) (hlength : (feed ++ bodies).length ≤ 2 ^ 32)
    (hfirst : (feed ++ bodies).head? = some .heartbeat) (htrades : ∀ body ∈ bodies, ¬ body.IsTrade)
    (hfuel : 1 < fuel) :
    ∃ bots', ds.foldlM (WireClient.process fuel) bots = some bots' ∧
      Abreast bots' (ds.foldl MDClient.processMessage etf) (feed ++ bodies) := by
  induction hds generalizing bots etf feed bodies with
  | nil =>
    cases bodies with
    | nil => exact ⟨bots, rfl, by rwa [List.append_nil]⟩
    | cons body bodies => cases hpackets
  | @cons packet datagram packets ds hdatagram _ ih =>
    have hrest := fun p hp => hsingle p (List.mem_cons_of_mem packet hp)
    rw [List.foldlM_cons, List.foldl_cons]
    cases packet with
    | nil =>
      -- an empty datagram leaves both as they are
      cases hdatagram
      have hskip : bots.process fuel [] = some ⟨overwrite bots.buf [], bots.live⟩ := by
        obtain ⟨n, rfl⟩ : ∃ n, fuel = n + 1 := ⟨fuel - 1, by omega⟩
        rfl
      have hskipped : Abreast ⟨overwrite bots.buf [], bots.live⟩ etf feed :=
        ⟨h.client, h.number, h.mirrors⟩
      rw [hskip]
      exact ih hskipped hpackets hrest hfeed hlength hfirst htrades
    | cons m packet =>
      have hlone : packet = [] := by
        have hle := hsingle (m :: packet) List.mem_cons_self
        rw [List.length_cons] at hle
        exact List.length_eq_zero_iff.mp (by omega)
      subst hlone
      cases bodies with
      | nil => cases hpackets
      | cons body bodies =>
        obtain ⟨rfl, hremaining⟩ := List.cons.inj hpackets
        have happend : feed ++ body :: bodies = (feed ++ [body]) ++ bodies := by simp
        rw [happend] at hfeed hlength hfirst ⊢
        have hnow : feed.length < 2 ^ 32 := by
          simp only [List.length_append, List.length_singleton] at hlength
          omega
        have hbody : feed = [] → body = .heartbeat := by
          rintro rfl
          exact Option.some.inj hfirst
        obtain ⟨bots', hprocess, hnext⟩ := h.message hfeed.left hnow hbody
          (htrades body List.mem_cons_self) hdatagram hfuel
        rw [hprocess]
        refine ih hnext ?_ hrest hfeed hlength hfirst fun body' hbody' =>
          htrades body' (List.mem_cons_of_mem body hbody')
        rw [List.length_append]
        exact hremaining

end Abreast

end EtfService

/-- The bytes of the datagrams of a run, if all were published at one instant. -/
def BrokerRun.bytes (s : BrokerRun) (timestamp : UInt64) : List (List UInt8) :=
  s.broker.publisher.datagrams.map fun ms => ms.flatMap fun m => m.encode timestamp

theorem BrokerRun.encodes_bytes (s : BrokerRun) (timestamp : UInt64) :
    List.Forall₂ MdMessage.Encodes s.broker.publisher.datagrams (s.bytes timestamp) := by
  rw [bytes, List.forall₂_map_right_iff, List.forall₂_same]
  exact fun ms _ => Encodes.flatMap ms timestamp

/-- **The quotes agree as long as nothing trades**: the engine begins with a heartbeat, and its datagrams,
which say what the engine published, come in order and without loss. -/
theorem quotes_agree {symbols : List UInt32} {ls : List BrokerEvent} {s : BrokerRun}
    (hrun : Run BrokerStep (BrokerRun.start symbols) (.heartbeat :: ls) s) {ds : List (List UInt8)}
    (hds : List.Forall₂ MdMessage.Encodes s.broker.publisher.datagrams ds)
    (hlength : s.broker.publisher.bodies.length ≤ 2 ^ 32)
    (htrades : ∀ body ∈ s.broker.publisher.bodies, ¬ body.IsTrade)
    (hfits : ∀ k, (Bots.MDClient.replay (s.broker.publisher.bodies.take k)).Fits Set.univ)
    (buf : ℕ → UInt8) {fuel : ℕ} (hfuel : 1 < fuel) :
    ∃ bots, ds.foldlM (WireClient.process fuel) (WireClient.start buf) = some bots ∧
      ∀ symbol,
        (ds.foldl EtfService.MDClient.processMessage .start).getBestBid symbol =
            ((bots.live.client.getBestBid symbol).price.toInt,
              ((bots.live.client.getBestBid symbol).quantity.toNat : ℤ)) ∧
          (ds.foldl EtfService.MDClient.processMessage .start).getBestAsk symbol =
            ((bots.live.client.getBestAsk symbol).price.toInt,
              ((bots.live.client.getBestAsk symbol).quantity.toNat : ℤ)) := by
  have hnumbered := BrokerRun.numbered_of_run hrun
  obtain ⟨hann, books, hs⟩ := BrokerRun.announced_of_run hrun
  have hfeed : BookedFeed s.broker.publisher.bodies Set.univ :=
    ⟨hs.distinct.sublist hann.ids, hann.positive, hfits⟩
  have hsingle : ∀ packet ∈ s.broker.publisher.datagrams, packet.length ≤ 1 := by
    intro packet hpacket
    rcases (BrokerRun.batched_of_run hrun).datagrams packet hpacket with ⟨m, rfl⟩ | htrade
    · exact Nat.le_refl 1
    cases packet with
    | nil => exact Nat.zero_le 1
    | cons m packet =>
      -- the body of a message of the datagrams was published
      have hm := List.mem_flatten_of_mem hpacket List.mem_cons_self
      have hbody := List.mem_map_of_mem (f := MdMessage.body) hm
      rw [hnumbered, map_body_numberedFrom] at hbody
      exact absurd (htrade m List.mem_cons_self) (htrades m.body hbody)
  have hfirst := BrokerRun.heartbeat_of_run hrun
  obtain ⟨bots, hbots, habreast⟩ := (EtfService.Abreast.start buf).datagrams hds hnumbered hsingle
    hfeed hlength hfirst htrades hfuel
  refine ⟨bots, hbots, fun symbol => ?_⟩
  have htallied : bots.live.client.Tallied Set.univ := by
    have hwhole := hfeed.tallied s.broker.publisher.bodies.length
    rwa [List.take_length, ← List.nil_append s.broker.publisher.bodies, ← habreast.client] at hwhole
  have hmirrors := habreast.mirrors
  rw [← habreast.client] at hmirrors
  exact ⟨hmirrors.best htallied .buy symbol, hmirrors.best htallied .sell symbol⟩

/-- An order rests on each side, and one of them is modified. -/
theorem quotes_agree_untraded :
    let s := [.heartbeat, .request (.make .newOrder 1 7 1 100 Side.buy 10 50 0),
      .request (.make .newOrder 2 7 1 200 Side.sell 5 60 0),
      .request (.make .modifyOrder 1 7 2 100 Side.buy 4 51 0)].foldl BrokerRun.after
        (BrokerRun.start [7])
    ∃ bots, (s.bytes 0).foldlM (WireClient.process 2) (WireClient.start fun _ => 0) = some bots ∧
      ∀ symbol,
        ((s.bytes 0).foldl EtfService.MDClient.processMessage .start).getBestBid symbol =
            ((bots.live.client.getBestBid symbol).price.toInt,
              ((bots.live.client.getBestBid symbol).quantity.toNat : ℤ)) ∧
          ((s.bytes 0).foldl EtfService.MDClient.processMessage .start).getBestAsk symbol =
            ((bots.live.client.getBestAsk symbol).price.toInt,
              ((bots.live.client.getBestAsk symbol).quantity.toNat : ℤ)) := by
  intro s
  have hrun : Run (Guarded BrokerRun.TwoSided BrokerStep) (BrokerRun.start [7]) _ s :=
    BrokerRun.run_of_enabled (by decide +kernel) (by decide +kernel)
  refine quotes_agree hrun.of_guarded (s.encodes_bytes 0) (by decide +kernel) (by decide +kernel) ?_
    (fun _ => 0) (by decide)
  exact Bots.MDClient.fits_replay (by decide +kernel) Set.univ

/-- A sale of 10 rests, and 4 of it are bought. -/
theorem quotes_disagree :
    ∃ s, Run BrokerStep (BrokerRun.start [7]) [.heartbeat,
        .request (.make .newOrder 1 7 1 100 Side.sell 10 50 0),
        .request (.make .newOrder 2 7 1 200 Side.buy 4 50 0)] s ∧
      List.Forall₂ MdMessage.Encodes s.broker.publisher.datagrams (s.bytes 0) ∧
        ((s.bytes 0).foldlM (WireClient.process 64) (WireClient.start fun _ => 0)).map
            (fun bots => bots.live.client.getBestAsk 7) = some ⟨50, 6⟩ ∧
          ((s.bytes 0).foldl EtfService.MDClient.processMessage .start).getBestAsk 7 = (50, 10) := by
  have hrun : Run (Guarded BrokerRun.TwoSided BrokerStep) (BrokerRun.start [7]) [.heartbeat,
      .request (.make .newOrder 1 7 1 100 Side.sell 10 50 0),
      .request (.make .newOrder 2 7 1 200 Side.buy 4 50 0)] _ :=
    BrokerRun.run_of_enabled (by decide +kernel) (by decide +kernel)
  exact ⟨_, hrun.of_guarded, BrokerRun.encodes_bytes _ 0, by decide +kernel, by decide +kernel⟩

end Ndfex
