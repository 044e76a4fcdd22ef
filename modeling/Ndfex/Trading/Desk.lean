import Ndfex.Bots.Runner
import Ndfex.Trading.Positions

/-!
# A program of bots and the exchange

A program runs its bots in turn. What a bot calls in its turn it calls one by one, and the exchange goes on
in between; the program reads from its two clients between the turns. Whatever the bots read of the market,
of the clock and of their draws, they are a careful client: each order has an id of its own as long as the
counter has not come around, and an order is modified on its side.

## Main definitions

* `Desk`, `DeskEvent`, `DeskStep`: the program with the exchange, and its steps
* `Desk.Undisturbed`: what the others do, and that the counter has not come around
* `Desk.Numbered`: the orders sent have consecutive ids, and what is planned follows them

## Main results

* `Desk.Numbered.step`: every step keeps the numbers
* `desk_refines`: a program of bots is a careful client
* `bots_positions_reconcile`: its positions are those in clearing, but for the fills under way
-/

namespace Ndfex

open Bots Containers Transition

/-- A program of bots and the exchange: besides the client the bots, the counter that they share, and what
the bot whose turn it is has still to call. -/
structure Desk where
  trading : Trading
  bots : List Bot
  lastOrderId : UInt32
  planned : List OeCall

/-- An event of the exchange, a read of the server or of the client, the next call of a bot, a bot's turn, and
a trade of which the feed tells the bots. -/
inductive DeskEvent
  | exchange (l : ExchangeEvent)
  | deliver (now sessionId : UInt64) (w : Circumstances)
  | take
  | call
  | turn (i : ℕ) (md : MDClient) (r : BotReading)
  | tradeSummary (symbol quantity : UInt32) (aggressorSide : Side)

namespace Desk

/-- A program whose client is logged in. -/
def start (exchange : Exchange) (client : OEClient) (bots : List Bot) (lastOrderId : UInt32) : Desk :=
  ⟨Trading.start exchange client, bots, lastOrderId, []⟩

/-- The turn of a bot. -/
def turn? (d : Desk) (i : ℕ) (md : MDClient) (r : BotReading) : Option (BotTurn Bot) :=
  d.bots[i]?.bind fun b => b.process d.trading.client md r d.lastOrderId

/-- The step of the client and the exchange in an event. -/
def trades? (d : Desk) : DeskEvent → Option TradingEvent
  | .exchange l => some (.exchange l)
  | .deliver now sessionId w => some (.deliver now sessionId w)
  | .take => some .take
  | .call => d.planned.head?.map .call
  | .turn .. => none
  | .tradeSummary .. => none

/-- The program after an event. -/
def after (fd : Int32) (d : Desk) : DeskEvent → Desk
  | .exchange l => { d with trading := d.trading.after fd (.exchange l) }
  | .deliver now sessionId w => { d with trading := d.trading.after fd (.deliver now sessionId w) }
  | .take => { d with trading := d.trading.after fd .take }
  | .call =>
    match d.planned with
    | [] => d
    | k :: ks => { d with trading := d.trading.after fd (.call k), planned := ks }
  | .turn i md r =>
    match d.turn? i md r with
    | none => d
    | some t =>
      { d with bots := d.bots.set i t.bot, lastOrderId := t.lastOrderId, planned := t.calls }
  | .tradeSummary symbol quantity aggressorSide =>
    { d with bots := d.bots.map (Bot.onTradeSummary symbol quantity aggressorSide) }

/-- What the program does between the turns waits for the end of the turn, and a turn has a value. -/
def Ready (d : Desk) : DeskEvent → Prop
  | .take => d.planned = []
  | .turn i md r => d.planned = [] ∧ (d.turn? i md r).isSome
  | .tradeSummary .. => d.planned = []
  | _ => True

instance (d : Desk) : DecidablePred d.Ready
  | .exchange _ => instDecidableTrue
  | .deliver .. => instDecidableTrue
  | .take => inferInstanceAs (Decidable (d.planned = []))
  | .call => instDecidableTrue
  | .turn i md r => inferInstanceAs (Decidable (d.planned = [] ∧ (d.turn? i md r).isSome))
  | .tradeSummary .. => inferInstanceAs (Decidable (d.planned = []))

/-- The event of the client and the exchange is enabled, if there is one. -/
def Enabled (fd : Int32) (d : Desk) (l : DeskEvent) : Prop :=
  d.Ready l ∧ ∀ e ∈ d.trades? l, d.trading.Enabled fd e

instance (fd : Int32) (d : Desk) : DecidablePred (d.Enabled fd) := fun l =>
  inferInstanceAs (Decidable (d.Ready l ∧ ∀ e ∈ d.trades? l, d.trading.Enabled fd e))

/-- The others stay away from the socket of the program, its client stays in its session, the engine takes no
new order that shares the low bits of its id with an order of another client at rest, and the counter has
not come around. -/
def Undisturbed (fd : Int32) (n : SessionName) (d : Desk) (l : DeskEvent) : Prop :=
  d.trading.sent.length < 2 ^ 32 ∧ ∀ e ∈ d.trades? l, Trading.Apart fd e ∧
    ∀ x ∈ d.trading.event? fd e, d.trading.exchange.KeepsOwners x ∧ d.trading.exchange.StaysIn fd n x

instance (fd : Int32) (n : SessionName) (d : Desk) : DecidablePred (d.Undisturbed fd n) := fun l =>
  inferInstanceAs (Decidable (d.trading.sent.length < 2 ^ 32 ∧ ∀ e ∈ d.trades? l, Trading.Apart fd e ∧
    ∀ x ∈ d.trading.event? fd e, d.trading.exchange.KeepsOwners x ∧
      d.trading.exchange.StaysIn fd n x))

end Desk

/-- The steps of a program and the exchange. -/
def DeskStep (fd : Int32) (d : Desk) (l : DeskEvent) (d' : Desk) : Prop :=
  d.Enabled fd l ∧ d' = d.after fd l

namespace Desk

/-- Events that are enabled and undisturbed one after the other make a run. -/
theorem run_of_enabled {fd : Int32} {n : SessionName} {d : Desk} {ls : List DeskEvent}
    (hen : ∀ i (hi : i < ls.length), ((ls.take i).foldl (after fd) d).Enabled fd ls[i])
    (hundisturbed : ∀ i (hi : i < ls.length),
      ((ls.take i).foldl (after fd) d).Undisturbed fd n ls[i]) :
    Run (Guarded (Undisturbed fd n) (DeskStep fd)) d ls (ls.foldl (after fd) d) := by
  have hrun : Run (fun d l d' => (d.Undisturbed fd n l ∧ d.Enabled fd l) ∧ d' = d.after fd l) d ls
      (ls.foldl (after fd) d) := Run.of_foldl fun i hi => ⟨hundisturbed i hi, hen i hi⟩
  exact hrun.mono fun _ _ _ h => ⟨h.1.1, h.1.2, h.2⟩

/-! ## The ids -/

/-- The ticket of a new order. -/
def ticketOf (m : NewOrder) : Ticket := ⟨m.orderId.toUInt32, m.side⟩

/-- The tickets of the orders that the client sent. -/
def held (d : Desk) : List Ticket := d.trading.sent.map ticketOf

/-- Some consecutive ids. -/
def idsFrom (first : UInt32) (n : ℕ) : List UInt32 :=
  (List.range n).map fun i => first + UInt32.ofNat i

theorem idsFrom_succ (first : UInt32) (n : ℕ) :
    idsFrom first (n + 1) = idsFrom first n ++ [first + UInt32.ofNat n] := by
  rw [idsFrom, List.range_succ, List.map_append]
  rfl

theorem ofNat_inj {i j : ℕ} (hi : i < 2 ^ 32) (hj : j < 2 ^ 32)
    (h : UInt32.ofNat i = UInt32.ofNat j) : i = j := by
  have hnat := congrArg UInt32.toNat h
  rwa [UInt32.toNat_ofNat_of_lt' hi, UInt32.toNat_ofNat_of_lt' hj] at hnat

/-- As many ids as the counter has are different. -/
theorem nodup_idsFrom (first : UInt32) {n : ℕ} (hn : n ≤ 2 ^ 32) : (idsFrom first n).Nodup := by
  refine List.Nodup.map_on (fun i hi j hj h => ?_) List.nodup_range
  have hi' := List.mem_range.mp hi
  have hj' := List.mem_range.mp hj
  exact ofNat_inj (by omega) (by omega) ((UInt32.add_right_inj _).mp h)

/-- The orders sent have the counter's ids from `first` on, what is planned follows them, and the bots keep
orders that were sent or are planned. -/
structure Numbered (first : UInt32) (d : Desk) : Prop where
  ids : d.held.map Ticket.orderId = idsFrom first d.held.length
  planned : Turned d.held (first + UInt32.ofNat d.held.length) d.planned d.lastOrderId
  owns : ∀ b ∈ d.bots, b.Owns (d.held ++ tickets d.planned)

variable {d d' : Desk} {first : UInt32} {fd : Int32} {n : SessionName} {k : OeCall} {ks : List OeCall}

/-- A call sends its order. -/
theorem held_call (d : Desk) (k : OeCall) :
    ({ d with trading := d.trading.after fd (.call k), planned := ks } : Desk).held =
      d.held ++ tickets [k] := by
  have hsent : (d.trading.after fd (.call k)).sent =
      d.trading.sent ++ (d.trading.client.request k).newOrder?.toList := by
    show (d.trading.requests.items ++ [d.trading.client.request k]).filterMap Request.newOrder? = _
    rw [List.filterMap_append, List.filterMap_cons]
    cases (d.trading.client.request k).newOrder? <;> rfl
  show (d.trading.after fd (.call k)).sent.map ticketOf = _
  rw [hsent, List.map_append]
  cases k <;> rfl

/-- Nothing else sends an order. -/
theorem sent_after {e : TradingEvent} (s : Trading) (he : ∀ k, e ≠ .call k) :
    (s.after fd e).sent = s.sent := by
  unfold Trading.sent
  cases e with
  | exchange l => rfl
  | call k => exact absurd rfl (he k)
  | deliver now sessionId w =>
    simp only [Trading.after]
    cases s.requests.front? with
    | none => rfl
    | some r =>
      show s.requests.pop.items.filterMap _ = _
      rw [Fifo.items_pop]
  | take =>
    simp only [Trading.after]
    cases s.responses.front? with
    | none => rfl
    | some x =>
      simp only [Trading.read]
      split_ifs <;> rfl

namespace Numbered

/-- **The next call** is orderly: its order has an id of its own, and it modifies an order on its side. -/
theorem orderly (h : d.Numbered first) (hlt : d.trading.sent.length < 2 ^ 32)
    (hplanned : d.planned = k :: ks) : d.trading.Orderly (.call k) := by
  have hlength : d.held.length = d.trading.sent.length := List.length_map ..
  have hnd : (d.held.map Ticket.orderId).Nodup := h.ids ▸ nodup_idsFrom first (by omega)
  have htends : k.Tends d.held (first + UInt32.ofNat d.held.length) := (hplanned ▸ h.planned.tended).1
  show k.Orderly d.trading.client d.trading.sent
  cases k with
  | sendOrder symbol orderId side quantity price flags =>
    -- the counter has not come around, so the id differs from the earlier ones in its low bits already
    have hlow : ∀ m ∈ d.trading.sent, m.orderId.toUInt32 ≠ orderId.toUInt32 := by
      intro m hm heq
      have hmem : m.orderId.toUInt32 ∈ idsFrom first d.held.length := by
        rw [← h.ids]
        exact List.mem_map_of_mem (List.mem_map_of_mem (f := ticketOf) hm)
      obtain ⟨i, hi, hid⟩ := List.mem_map.mp hmem
      have hi' := List.mem_range.mp hi
      rw [heq, show orderId = _ from htends, UInt32.toUInt32_toUInt64] at hid
      have hsame := ofNat_inj (by omega) (by omega) ((UInt32.add_right_inj _).mp hid)
      omega
    exact fun m hm => ⟨fun heq => hlow m hm (congrArg UInt64.toUInt32 heq), fun heq => absurd heq (hlow m hm)⟩
  | cancelOrder orderId => exact trivial
  | modifyOrder orderId side quantity price =>
    intro m hm heq
    obtain ⟨t, ht, hid, rfl⟩ := htends
    -- the order that is modified is the one of the ticket
    have hsame : ticketOf m = t := by
      refine List.inj_on_of_nodup_map hnd (List.mem_map_of_mem (f := ticketOf) hm) ht ?_
      show m.orderId.toUInt32 = t.orderId
      rw [heq, hid, UInt32.toUInt32_toUInt64]
    exact congrArg Ticket.side hsame

/-- **A call** keeps the numbers. -/
theorem call (h : d.Numbered first) (hplanned : d.planned = k :: ks) :
    ({ d with trading := d.trading.after fd (.call k), planned := ks } : Desk).Numbered first := by
  obtain ⟨hids, hturned, howns⟩ := h
  rw [hplanned] at hturned howns
  have hnext : first + UInt32.ofNat (d.held ++ tickets [k]).length =
      first + UInt32.ofNat d.held.length + UInt32.ofNat (tickets [k]).length := by
    rw [List.length_append, UInt32.ofNat_add, UInt32.add_assoc]
  refine ⟨?_, ?_, fun b hb => ?_⟩
  · rw [held_call]
    cases k with
    | sendOrder symbol orderId side quantity price flags =>
      obtain rfl : orderId = _ := hturned.tended.1
      rw [tickets_sendOrder, List.map_append, hids, List.length_append, List.length_singleton,
        idsFrom_succ]
      rfl
    | cancelOrder orderId =>
      rw [show tickets [OeCall.cancelOrder orderId] = [] from rfl, List.append_nil]
      exact hids
    | modifyOrder orderId side quantity price =>
      rw [show tickets [OeCall.modifyOrder orderId side quantity price] = [] from rfl, List.append_nil]
      exact hids
  · rw [held_call, hnext]
    exact hturned.tail
  · rw [held_call, List.append_assoc, ← tickets_cons]
    exact howns b hb

/-- **A turn** keeps the numbers. -/
theorem turn (h : d.Numbered first) (hplanned : d.planned = []) {i : ℕ} {md : MDClient} {r : BotReading}
    {t : BotTurn Bot} (ht : d.turn? i md r = some t) :
    ({ d with
      bots := d.bots.set i t.bot
      lastOrderId := t.lastOrderId
      planned := t.calls } : Desk).Numbered first := by
  obtain ⟨hids, hturned, howns⟩ := h
  rw [hplanned] at hturned howns
  have hcounter : d.lastOrderId = first + UInt32.ofNat d.held.length :=
    hturned.counted.trans (UInt32.add_zero _)
  have hempty : d.held ++ tickets [] = d.held := List.append_nil _
  rw [hempty] at howns
  obtain ⟨b, hb, hprocess⟩ := Option.bind_eq_some_iff.mp ht
  obtain ⟨hturn, hbot⟩ := (howns b (List.mem_of_getElem? hb)).process hprocess
  refine ⟨hids, hcounter ▸ hturn, fun b' hb' => ?_⟩
  rcases List.mem_or_eq_of_mem_set hb' with hb' | rfl
  · exact (howns b' hb').append _
  · exact hbot

/-- **Every step** keeps the numbers, and is a careful step of the client and the exchange, or none. -/
theorem step {l : DeskEvent} (h : d.Numbered first) (hundisturbed : d.Undisturbed fd n l)
    (hstep : DeskStep fd d l d') : d'.Numbered first ∧ ∃ ms,
      Run (Guarded (Trading.Careful fd n) (TradingStep fd)) d.trading ms d'.trading := by
  obtain ⟨⟨hready, hen⟩, rfl⟩ := hstep
  obtain ⟨hlt, hothers⟩ := hundisturbed
  -- a step of the client and the exchange that sends nothing
  have htrading : ∀ e, e ∈ d.trades? l → (∀ k, e ≠ .call k) →
      ({ d with trading := d.trading.after fd e } : Desk).Numbered first ∧ ∃ ms,
        Run (Guarded (Trading.Careful fd n) (TradingStep fd)) d.trading ms (d.trading.after fd e) := by
    intro e he hcall
    have hheld : ({ d with trading := d.trading.after fd e } : Desk).held = d.held :=
      congrArg (List.map ticketOf) (sent_after d.trading hcall)
    obtain ⟨hapart, hkeeps⟩ := hothers e he
    have horderly : d.trading.Orderly e := by
      cases e with
      | call k => exact absurd rfl (hcall k)
      | _ => exact trivial
    refine ⟨⟨?_, ?_, ?_⟩, [e], .snoc (.nil _) ⟨⟨hapart, horderly, hkeeps⟩, hen e he, rfl⟩⟩
    · rw [hheld]
      exact h.ids
    · rw [hheld]
      exact h.planned
    · rw [hheld]
      exact h.owns
  cases l with
  | exchange x => exact htrading _ rfl (by simp)
  | deliver now sessionId w => exact htrading _ rfl (by simp)
  | take => exact htrading _ rfl (by simp)
  | call =>
    simp only [after]
    cases hplanned : d.planned with
    | nil => exact ⟨h, [], .nil _⟩
    | cons k ks =>
      have hmem : TradingEvent.call k ∈ d.trades? .call := by
        simp only [trades?, hplanned]
        rfl
      obtain ⟨hapart, hkeeps⟩ := hothers _ hmem
      exact ⟨h.call hplanned, [.call k], .snoc (.nil _)
        ⟨⟨hapart, h.orderly hlt hplanned, hkeeps⟩, hen _ hmem, rfl⟩⟩
  | turn i md r =>
    simp only [after]
    cases ht : d.turn? i md r with
    | none => exact ⟨h, [], .nil _⟩
    | some t => exact ⟨h.turn hready.1 ht, [], .nil _⟩
  | tradeSummary symbol quantity aggressorSide =>
    refine ⟨⟨h.ids, h.planned, fun b hb => ?_⟩, [], .nil _⟩
    obtain ⟨b', hb', rfl⟩ := List.mem_map.mp hb
    exact (h.owns b' hb').onTradeSummary symbol quantity aggressorSide

theorem start {exchange : Exchange} {client : OEClient} {bots : List Bot}
    (howns : ∀ b ∈ bots, b.Owns []) (lastOrderId : UInt32) :
    (start exchange client bots lastOrderId).Numbered lastOrderId :=
  ⟨rfl, ⟨trivial, by simp [Desk.start, held, Trading.start, Trading.sent, tickets]⟩, howns⟩

end Numbered

end Desk

section

variable {fd : Int32} {n : SessionName} {s₀ : Exchange} {client : OEClient} {bots : List Bot}
  {lastOrderId : UInt32} {ls : List DeskEvent} {d : Desk}

/-- A run of a program, with the run of its client that it is. -/
theorem Desk.exists_careful (howns : ∀ b ∈ bots, b.Owns [])
    (h : Run (Guarded (Desk.Undisturbed fd n) (DeskStep fd)) (Desk.start s₀ client bots lastOrderId)
      ls d) : d.Numbered lastOrderId ∧ ∃ ms,
        Run (Guarded (Trading.Careful fd n) (TradingStep fd)) (Trading.start s₀ client) ms d.trading := by
  obtain ⟨ms, t, hrun, hnumbered, rfl⟩ := Run.exists_simulating
    (Q := Guarded (Trading.Careful fd n) (TradingStep fd))
    (S := fun d t => d.Numbered lastOrderId ∧ d.trading = t)
    (fun d l d' t ⟨hd, ht⟩ hstep => by
      obtain ⟨hd', ms, hrun⟩ := hd.step hstep.1 hstep.2
      exact ⟨ms, _, ht ▸ hrun, hd', rfl⟩) h ⟨.start howns lastOrderId, rfl⟩
  exact ⟨hnumbered, ms, hrun⟩

/-- **A program of bots is a careful client**: whatever its bots read, its orders have consecutive ids, and
what it does to the exchange is a run of a client that uses each id once and modifies its orders on their
sides. -/
theorem desk_refines (howns : ∀ b ∈ bots, b.Owns [])
    (h : Run (Guarded (Desk.Undisturbed fd n) (DeskStep fd)) (Desk.start s₀ client bots lastOrderId)
      ls d) :
    d.trading.sent.map (fun m => m.orderId.toUInt32) =
        Desk.idsFrom lastOrderId d.trading.sent.length ∧ ∃ ms,
      Run (Guarded (Trading.Careful fd n) (TradingStep fd)) (Trading.start s₀ client) ms d.trading := by
  obtain ⟨hnumbered, hrun⟩ := Desk.exists_careful howns h
  have hids := hnumbered.ids
  rw [Desk.held, List.map_map, List.length_map] at hids
  exact ⟨hids, hrun⟩

/-- `stable_bot_runner` sends the first two of the four orders of its market maker. -/
theorem desk_refines_stable :
    ∃ d, (∃ ls, Run (Guarded (Desk.Undisturbed 5 ⟨7, 100⟩) (DeskStep 5)) (Desk.start
        ([.login 5 ⟨⟨1, 100, 0⟩, [97], [97]⟩ 7 .fine].foldl Exchange.after Exchange.startGold)
        { OEClient.start ⟨[97], [97], 100⟩ with clientSeq := 1, sessionId := 7 } stableBotRunner 1)
        ls d) ∧
      d.trading.sent.map (fun m => m.orderId.toUInt32) = [1, 2] ∧
        d.trading.sent.map (fun m => m.orderId.toUInt32) = Desk.idsFrom 1 d.trading.sent.length ∧
          ∃ ms, Run (Guarded (Trading.Careful 5 ⟨7, 100⟩) (TradingStep 5)) (Trading.start
            ([.login 5 ⟨⟨1, 100, 0⟩, [97], [97]⟩ 7 .fine].foldl Exchange.after Exchange.startGold)
            { OEClient.start ⟨[97], [97], 100⟩ with clientSeq := 1, sessionId := 7 }) ms d.trading := by
  have h : Run (Guarded (Desk.Undisturbed 5 ⟨7, 100⟩) (DeskStep 5)) (Desk.start
        ([.login 5 ⟨⟨1, 100, 0⟩, [97], [97]⟩ 7 .fine].foldl Exchange.after Exchange.startGold)
        { OEClient.start ⟨[97], [97], 100⟩ with clientSeq := 1, sessionId := 7 } stableBotRunner 1)
      [.turn 0 .empty ⟨⟨1, 1, fun _ => 0, 1⟩, fun _ => 1, fun _ _ => ⟨1, 1⟩, fun _ => 1200⟩, .call,
        .deliver 1000 0 .fine, .call] _ :=
    Desk.run_of_enabled (by decide +kernel) (by decide +kernel)
  exact ⟨_, ⟨_, h⟩, by decide +kernel, desk_refines
    (fun b hb => owns_programs [] b (by simp [hb])) h⟩

/-- **The positions of a program of bots** are those in clearing, but for the fills under way. -/
theorem bots_positions_reconcile {symbols : List SymbolDefinition}
    {users : AList fun _ : List UInt8 => UserInfo} {ls₀ : List ExchangeEvent}
    (h₀ : Run (Guarded Exchange.KeepsOwners ExchangeStep) (Exchange.start symbols users) ls₀ s₀)
    (hsession : s₀.handler.session fd = some n) (hfd : fd ≠ -1) (halone : s₀.Alone fd n.clientId)
    (hfirst : ∀ p ∈ s₀.handler.toMatchingEngine.items, p.msgType = .newOrder →
      p.clientId ≠ n.clientId) (hpositions : client.positions = ∅) (howns : ∀ b ∈ bots, b.Owns [])
    (h : Run (Guarded (Desk.Undisturbed fd n) (DeskStep fd)) (Desk.start s₀ client bots lastOrderId)
      ls d) :
    d.trading.thrown = false ∧ ∀ symbol, d.trading.client.getPosition symbol = Int32.ofInt
      (position n.clientId symbol d.trading.exchange.broker.clearingPublisher.fills -
        position n.clientId symbol d.trading.underway) := by
  obtain ⟨-, ms, hrun⟩ := Desk.exists_careful howns h
  have hfollowed : d.trading.Followed fd n s₀.handler.written :=
    hrun.invariant (fun _ _ _ hs hstep => hs.step hfd hstep.1 hstep.2)
      (Trading.Followed.start h₀ hsession halone hfirst hpositions)
  exact ⟨hfollowed.quiet, hfollowed.reconciled⟩

/-- The market maker of `stable_bot_runner` buys in two trades, and its client has read of the first. -/
theorem bots_positions_reconcile_stable :
    ∃ d, (∃ ls, Run (Guarded (Desk.Undisturbed 5 ⟨7, 100⟩) (DeskStep 5)) (Desk.start
        ([.login 5 ⟨⟨1, 100, 0⟩, [97], [97]⟩ 7 .fine,
          .login 6 ⟨⟨1, 200, 0⟩, [98], [98]⟩ 8 .fine].foldl Exchange.after Exchange.startGold)
        { OEClient.start ⟨[97], [97], 100⟩ with clientSeq := 1, sessionId := 7 } stableBotRunner 1)
        ls d) ∧
      d.trading.client.getPosition 1 = 4 ∧
        position 100 1 d.trading.exchange.broker.clearingPublisher.fills = 10 ∧
          d.trading.client.getPosition 1 = Int32.ofInt
            (position 100 1 d.trading.exchange.broker.clearingPublisher.fills -
              position 100 1 d.trading.underway) := by
  have h₀ : Run (Guarded Exchange.KeepsOwners ExchangeStep) Exchange.startGold
      [.login 5 ⟨⟨1, 100, 0⟩, [97], [97]⟩ 7 .fine, .login 6 ⟨⟨1, 200, 0⟩, [98], [98]⟩ 8 .fine] _ :=
    Exchange.guarded_run_of_enabled (by decide +kernel) (by decide +kernel)
  have h : Run (Guarded (Desk.Undisturbed 5 ⟨7, 100⟩) (DeskStep 5)) (Desk.start
        ([.login 5 ⟨⟨1, 100, 0⟩, [97], [97]⟩ 7 .fine,
          .login 6 ⟨⟨1, 200, 0⟩, [98], [98]⟩ 8 .fine].foldl Exchange.after Exchange.startGold)
        { OEClient.start ⟨[97], [97], 100⟩ with clientSeq := 1, sessionId := 7 } stableBotRunner 1)
      ([.turn 0 .empty ⟨⟨1, 1, fun _ => 0, 1⟩, fun _ => 1, fun _ _ => ⟨1, 1⟩, fun _ => 1200⟩, .call,
        .call, .deliver 1000 0 .fine, .call, .call, .deliver 1001 0 .fine,
        .exchange (.newOrder 6 ⟨⟨2, 200, 8⟩, 1, 1, Side.sell, 4, 1100, 0⟩ 1002),
        .exchange (.newOrder 6 ⟨⟨3, 200, 8⟩, 2, 1, Side.sell, 6, 1100, 0⟩ 1003)] ++
        List.replicate 4 (.exchange .engineTurn) ++
        List.replicate 6 (.exchange (.handlerTurn .fine)) ++ List.replicate 3 .take) _ :=
    Desk.run_of_enabled (by decide +kernel) (by decide +kernel)
  refine ⟨_, ⟨_, h⟩, by decide +kernel, by decide +kernel, ?_⟩
  exact (bots_positions_reconcile h₀ (by decide +kernel) (by decide) (by decide +kernel)
    (by decide +kernel) rfl (fun b hb => owns_programs [] b (by simp [hb])) h).2 1

end

end Ndfex
