import Ndfex.MatchingEngine.BrokerEffects
import Ndfex.Transition.Run

/-!
# Runs of the broker

The engine's thread from its start on: it takes requests whose new orders have distinct ids, and
publishes heartbeats, until a request throws.

## Main definitions

* `BrokerRun`: the broker, the requests it took and the exception that stopped it
* `BrokerStep`: the steps of the engine's thread
* `BrokerRun.EnteredBy`: the client whose request entered an order
* `BrokerRun.TwoSided`: the requests whose side is `BUY` or `SELL`
* `MatchingEngineBroker.resting`: the order at rest under an id

## Main results

* `BrokerRun.sound_step`: the ladders go on representing books
-/

namespace Ndfex

open Transition

/-- What the engine's thread does next. -/
inductive BrokerEvent
  | heartbeat
  | request (payload : OePayload)

/-- The engine's thread: its broker, the requests taken and the exception that ended it. -/
structure BrokerRun where
  broker : MatchingEngineBroker
  requests : List OePayload
  fault : Option BrokerError

namespace BrokerRun

/-- The thread at its start. -/
def start (symbols : List UInt32) : BrokerRun := ⟨MatchingEngineBroker.start symbols, [], none⟩

/-- The thread after a request. -/
def next (s : BrokerRun) (p : OePayload) : BrokerRun :=
  ⟨(s.broker.handle p).broker, s.requests ++ [p], (s.broker.handle p).thrown⟩

/-- The thread after an event. -/
def after (s : BrokerRun) : BrokerEvent → BrokerRun
  | .heartbeat => { s with broker := s.broker.heartbeat }
  | .request p => s.next p

/-- The client's request entered the order. -/
def EnteredBy (s : BrokerRun) (e : UInt64) (client : UInt32) : Prop :=
  ∃ r ∈ s.requests, r.msgType = .newOrder ∧ r.exchOrderId = e ∧ r.clientId = client

instance (s : BrokerRun) (e : UInt64) (client : UInt32) : Decidable (s.EnteredBy e client) :=
  inferInstanceAs (Decidable (∃ r ∈ s.requests, _))

/-- No exception ended the thread, and a new order has an unused id. -/
def Enabled (s : BrokerRun) : BrokerEvent → Prop
  | .heartbeat => s.fault = none
  | .request p => s.fault = none ∧ (newIds (s.requests ++ [p])).Nodup

instance (s : BrokerRun) : DecidablePred s.Enabled
  | .heartbeat => inferInstanceAs (Decidable (s.fault = none))
  | .request p => inferInstanceAs (Decidable (s.fault = none ∧ (newIds (s.requests ++ [p])).Nodup))

/-- The request's side, if it has one, is `BUY` or `SELL`. -/
def TwoSided (_ : BrokerRun) : BrokerEvent → Prop
  | .heartbeat => True
  | .request p => ∀ op ∈ p.op, op.TwoSided

instance (s : BrokerRun) : DecidablePred s.TwoSided
  | .heartbeat => instDecidableTrue
  | .request p => Option.decidableForallMem p.op

end BrokerRun

/-- The steps of the thread. -/
def BrokerStep (s : BrokerRun) (l : BrokerEvent) (t : BrokerRun) : Prop :=
  s.Enabled l ∧ t = s.after l

namespace MatchingEngineBroker

/-- The order at rest under an id in the ladder of a symbol. -/
def resting (B : MatchingEngineBroker) (symbol : UInt32) (e : UInt64) : Option Order :=
  (B.symbolToMatchingEngine.lookup symbol).bind fun L => (L.orders.lookup e).map L.order

/-- The orders at rest in the ladder of a symbol. -/
def restingOrders (B : MatchingEngineBroker) (symbol : UInt32) : List Order :=
  match B.symbolToMatchingEngine.lookup symbol with
  | none => []
  | some L => L.orders.entries.map fun x => L.order x.2

variable {B : MatchingEngineBroker} {requests : List OePayload} {books : UInt32 → PriorityBook}

theorem Sound.resting_eq (hs : B.Sound requests books) (symbol : UInt32) (e : UInt64) :
    (B.resting symbol e).map Order.resting = (books symbol).find? e := by
  unfold resting
  cases hL : B.symbolToMatchingEngine.lookup symbol with
  | none =>
    rw [hs.absent symbol hL]
    rfl
  | some L =>
    rw [(hs.represents symbol L hL).1.find?_eq, Option.bind_some, Option.map_map]
    rfl

/-- An order of a book is at rest in the ladder. -/
theorem Sound.exists_resting (hs : B.Sound requests books) {symbol : UInt32} {o : RestingOrder}
    (ho : o ∈ (books symbol).orders) :
    ∃ order, B.resting symbol o.orderId = some order ∧ order.resting = o := by
  have hfind := (hs.ordered symbol).find?_eq ho
  rw [← hs.resting_eq] at hfind
  exact Option.map_eq_some_iff.mp hfind

theorem Sound.rests_iff (hs : B.Sound requests books) (symbol : UInt32) (e : UInt64) :
    (books symbol).Rests e ↔ (B.resting symbol e).isSome := by
  rw [PriorityBook.rests_iff, ← hs.resting_eq, ne_eq, Option.map_eq_none_iff,
    Option.isSome_iff_ne_none]

/-- The orders at rest in a ladder are those of its book. -/
theorem Sound.restingOrders_perm (hs : B.Sound requests books) (symbol : UInt32) :
    ((B.restingOrders symbol).map Order.resting).Perm (books symbol).orders := by
  unfold restingOrders
  cases hL : B.symbolToMatchingEngine.lookup symbol with
  | none =>
    rw [hs.absent symbol hL]
    exact .refl _
  | some L =>
    have hrep := (hs.represents symbol L hL).1
    have hentry : ∀ x ∈ L.orders.entries,
        (books symbol).find? x.1 = some (L.order x.2).resting := by
      intro x hx
      rw [hrep.find?_eq, Option.mem_def.mp (AList.mem_lookup_iff.mpr hx)]
      rfl
    dsimp only
    rw [List.map_map]
    have hids : (L.orders.entries.map fun x => (L.order x.2).resting.orderId) = L.orders.keys := by
      refine List.map_congr_left fun x hx => ?_
      exact (PriorityBook.mem_of_find? (hentry x hx)).2
    have hnd : (L.orders.entries.map (Order.resting ∘ fun x => L.order x.2)).Nodup := by
      apply List.Nodup.of_map RestingOrder.orderId
      rw [List.map_map]
      exact hids ▸ L.orders.nodupKeys
    refine (List.perm_ext_iff_of_nodup hnd (hs.ordered symbol).nodup.of_map).mpr fun o => ?_
    rw [List.mem_map]
    constructor
    · rintro ⟨x, hx, rfl⟩
      exact (PriorityBook.mem_of_find? (hentry x hx)).1
    · intro ho
      have hfind := (hs.ordered symbol).find?_eq ho
      rw [hrep.find?_eq] at hfind
      obtain ⟨slot, hslot, hresting⟩ := Option.map_eq_some_iff.mp hfind
      exact ⟨⟨o.orderId, slot⟩, AList.mem_lookup_iff.mp hslot, hresting⟩

/-- The broker starts with empty ladders. -/
theorem lookup_start (symbols : List UInt32) {symbol : UInt32} {L : OrderLadder}
    (hL : (start symbols).symbolToMatchingEngine.lookup symbol = some L) :
    L = OrderLadder.empty symbol := by
  unfold start at hL
  induction symbols using List.reverseRecOn with
  | nil => simp [empty] at hL
  | append_singleton symbols s ih =>
    rw [List.foldl_append] at hL
    simp only [List.foldl_cons, List.foldl_nil, addSymbol] at hL
    by_cases hs : symbol = s
    · rw [hs, AList.lookup_insert] at hL
      rw [hs, ← Option.some.inj hL]
    · rw [AList.lookup_insert_ne hs] at hL
      exact ih hL

/-- The broker starts with a ladder for each symbol. -/
theorem isSome_lookup_start {symbols : List UInt32} {symbol : UInt32} (h : symbol ∈ symbols) :
    ((start symbols).symbolToMatchingEngine.lookup symbol).isSome := by
  unfold start
  induction symbols using List.reverseRecOn with
  | nil => cases h
  | append_singleton symbols s ih =>
    rw [List.foldl_append]
    simp only [List.foldl_cons, List.foldl_nil, addSymbol]
    by_cases hs : symbol = s
    · rw [hs, AList.lookup_insert]
      rfl
    · rw [AList.lookup_insert_ne hs]
      exact ih (by simpa [hs] using h)

theorem start_eq (symbols : List UInt32) :
    start symbols =
      { empty with symbolToMatchingEngine := (start symbols).symbolToMatchingEngine } := by
  unfold start
  induction symbols using List.reverseRecOn with
  | nil => rfl
  | append_singleton symbols s ih =>
    rw [List.foldl_append, List.foldl_cons, List.foldl_nil, addSymbol, ih]

theorem sound_start (symbols : List UInt32) :
    (start symbols).Sound [] fun _ => PriorityBook.empty := by
  refine ⟨fun symbol L hL => ?_, fun _ _ => rfl, fun _ => PriorityBook.Live.empty, ?_, ?_,
    List.nodup_nil, ?_⟩
  · rw [lookup_start symbols hL]
    exact ⟨OrderLadder.represents_empty symbol, rfl⟩
  · simp [PriorityBook.Rests, PriorityBook.orders, PriorityBook.empty]
  · simp [PriorityBook.Rests, PriorityBook.orders, PriorityBook.empty]
  · rw [start_eq]
    exact MarketDataPublisher.idle_empty

theorem Sound.heartbeat (hs : B.Sound requests books) : B.heartbeat.Sound requests books :=
  { hs with
    idle := ⟨MarketDataPublisher.buffer_send _, by
      simp [MatchingEngineBroker.heartbeat, MarketDataPublisher.publishHeartbeat,
        hs.idle.queuedTrades]⟩ }

end MatchingEngineBroker

namespace BrokerRun

/-- **Every step** leaves ladders that represent books. -/
theorem sound_step {s t : BrokerRun} {l : BrokerEvent} {books : UInt32 → PriorityBook}
    (hs : s.broker.Sound s.requests books) (h : BrokerStep s l t) :
    ∃ books', t.broker.Sound t.requests books' := by
  obtain ⟨hen, rfl⟩ := h
  cases l with
  | heartbeat => exact ⟨books, hs.heartbeat⟩
  | request p => exact ⟨_, (hs.handle hen.2).2⟩

/-- Events that are enabled one after the other make a run. -/
theorem run_of_enabled {symbols : List UInt32} {G : BrokerRun → BrokerEvent → Prop}
    {ls : List BrokerEvent}
    (hen : ∀ i (hi : i < ls.length), ((ls.take i).foldl after (start symbols)).Enabled ls[i])
    (hG : ∀ i (hi : i < ls.length), G ((ls.take i).foldl after (start symbols)) ls[i]) :
    Run (Guarded G BrokerStep) (start symbols) ls (ls.foldl after (start symbols)) := by
  have hrun : Run (fun s l t => (G s l ∧ s.Enabled l) ∧ t = s.after l) (start symbols) ls
      (ls.foldl after (start symbols)) := Run.of_foldl fun i hi => ⟨hG i hi, hen i hi⟩
  exact hrun.mono fun _ _ _ h => ⟨h.1.1, h.1.2, h.2⟩

end BrokerRun

end Ndfex
