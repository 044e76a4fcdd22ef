import Ndfex.Bots.BestPrices
import Ndfex.Bots.OrderIds

/-!
# The bots that take and leave orders

`RandomTaker`, `PressureTaker` and `RestingOrders` wait for their time and send an order for each of their
symbols, on a side that they draw; they differ in when they draw it, and in the price and the flag of the
orders. `ImbalanceTaker` adds up the trades of its symbols by the side of the aggressor, and follows when
the sum is beyond a threshold. None of them keeps the orders that it sent.

## Main definitions

* `Wish`, `sendEach`: what an order asks for, and the calls that send some of them
* `RandomTaker`, `PressureTaker`, `RestingOrders`, `ImbalanceTaker`: the bots

## Main results

* `turned_sendEach`: the calls have the counter's next ids
* `ImbalanceTaker.turned_process`: so have those of the taker that follows the trades
* `imbalance_followed`: it sends on a side exactly when the trades since its last order of the symbol
  are beyond the threshold on this side
-/

namespace Ndfex.Bots

open Containers Transition

/-- What a bot leaves: itself, the next id, and the calls that it made. -/
structure BotTurn (β : Type) where
  bot : β
  lastOrderId : UInt32
  calls : List OeCall

/-- What an order asks for. -/
structure Wish where
  symbol : UInt32
  side : Side
  quantity : UInt32
  price : Int32
  flags : UInt8

/-- The calls that send some orders with consecutive ids. -/
def sendEach : List Wish → UInt32 → List OeCall
  | [], _ => []
  | w :: ws, lastOrderId =>
    .sendOrder w.symbol lastOrderId.toUInt64 w.side w.quantity w.price w.flags ::
      sendEach ws (lastOrderId + 1)

/-- **The calls that send some orders** are tended. -/
theorem turned_sendEach (held : List Ticket) (ws : List Wish) (lastOrderId : UInt32) :
    Turned held lastOrderId (sendEach ws lastOrderId) (lastOrderId + UInt32.ofNat ws.length) := by
  induction ws generalizing held lastOrderId with
  | nil =>
    have hlast : lastOrderId + UInt32.ofNat 0 = lastOrderId := UInt32.add_zero lastOrderId
    rw [List.length_nil, hlast]
    exact .nil held lastOrderId
  | cons w ws ih =>
    have hrest := ih (held ++ tickets [.sendOrder w.symbol lastOrderId.toUInt64 w.side w.quantity
      w.price w.flags]) (lastOrderId + 1)
    have hlast : lastOrderId + 1 + UInt32.ofNat ws.length =
        lastOrderId + UInt32.ofNat (w :: ws).length := by
      rw [List.length_cons, Nat.add_comm, UInt32.ofNat_add, UInt32.add_assoc]
      rfl
    rw [hlast] at hrest
    exact Turned.append (.send held w.symbol lastOrderId w.side w.quantity w.price w.flags) hrest

/-- What a turn reads besides the quotes: the clock when it starts and when it ends, the draws of `rand`,
and the draw of its time to wait. -/
structure Draws where
  ts : UInt64
  stamp : UInt64
  rand : ℕ → Int32
  delay : UInt64

/-! ## The takers that cross the market -/

/-- A wish to cross the market: a buy at the best ask, or a sell at the best bid. -/
def crossing (md : MDClient) (symbol : SymbolDefinition) (side : Side) (quantity : UInt32) : Wish :=
  if side = Side.buy then
    ⟨symbol.symbol, Side.buy, quantity, (md.getBestAsk symbol.symbol).price, OrderFlags.ioc⟩
  else ⟨symbol.symbol, Side.sell, quantity, (md.getBestBid symbol.symbol).price, OrderFlags.ioc⟩

/-- The side of a draw of `rand() % 2`. -/
def drawnSide (rand : Int32) : Side := if rand % 2 = 0 then Side.buy else Side.sell

/-- `RandomTaker`. -/
structure RandomTaker where
  symbols : List SymbolDefinition
  quantity : UInt32
  lastTs : UInt64

namespace RandomTaker

/-- `RandomTaker::process`, which draws a side for each symbol. -/
def process (b : RandomTaker) (md : MDClient) (d : Draws) (lastOrderId : UInt32) : BotTurn RandomTaker :=
  if d.ts < b.lastTs then ⟨b, lastOrderId, []⟩
  else
    let wishes := b.symbols.mapIdx fun i symbol => crossing md symbol (drawnSide (d.rand i)) b.quantity
    ⟨{ b with lastTs := d.ts + d.delay }, lastOrderId + UInt32.ofNat wishes.length,
      sendEach wishes lastOrderId⟩

end RandomTaker

/-- `PressureTaker`. -/
structure PressureTaker where
  symbols : List SymbolDefinition
  quantity : UInt32
  lastTs : UInt64
  pressureQuantity : Int32
  pressureSide : Side

namespace PressureTaker

/-- The constructor. -/
def start (symbols : List SymbolDefinition) (quantity : UInt32) : PressureTaker :=
  ⟨symbols, quantity, 0, 0, Side.buy⟩

/-- A taker that has no more than one order left draws its quantity and its side anew. -/
def load (b : PressureTaker) (d : Draws) : PressureTaker :=
  if b.pressureQuantity ≤ b.quantity.toInt32 then
    { b with pressureQuantity := d.rand 0 % 100 + 1, pressureSide := drawnSide (d.rand 1) }
  else b

/-- `PressureTaker::process`. The quantity that is left goes down by one order for each symbol, as an
unsigned number. -/
def process (b : PressureTaker) (md : MDClient) (d : Draws) (lastOrderId : UInt32) :
    BotTurn PressureTaker :=
  if d.ts < b.lastTs then ⟨b, lastOrderId, []⟩
  else
    let b := b.load d
    let wishes := b.symbols.map fun symbol => crossing md symbol b.pressureSide b.quantity
    ⟨{ b with
        pressureQuantity := b.symbols.foldl (fun q _ => (q.toUInt32 - b.quantity).toInt32)
          b.pressureQuantity
        lastTs := d.stamp + d.delay },
      lastOrderId + UInt32.ofNat wishes.length, sendEach wishes lastOrderId⟩

end PressureTaker

/-! ## Orders that rest -/

/-- `RestingOrders`. -/
structure RestingOrders where
  symbols : List SymbolDefinition
  quantity : UInt32
  lastTs : UInt64

namespace RestingOrders

/-- A wish three ticks behind the best price of its side. The product with the tick is unsigned. -/
def behind (md : MDClient) (symbol : SymbolDefinition) (side : Side) (quantity : UInt32) : Wish :=
  if side = Side.buy then
    ⟨symbol.symbol, side, quantity,
      ((md.getBestBid symbol.symbol).price.toUInt32 - 3 * symbol.tickSize).toInt32, 0⟩
  else
    ⟨symbol.symbol, side, quantity,
      ((md.getBestAsk symbol.symbol).price.toUInt32 + 3 * symbol.tickSize).toInt32, 0⟩

/-- `RestingOrders::process`, which draws one side for all symbols. -/
def process (b : RestingOrders) (md : MDClient) (d : Draws) (lastOrderId : UInt32) :
    BotTurn RestingOrders :=
  if d.ts < b.lastTs then ⟨b, lastOrderId, []⟩
  else
    let side := drawnSide (d.rand 0)
    let wishes := b.symbols.map fun symbol => behind md symbol side b.quantity
    ⟨{ b with lastTs := d.stamp + d.delay }, lastOrderId + UInt32.ofNat wishes.length,
      sendEach wishes lastOrderId⟩

end RestingOrders

/-! ## The taker that follows the trades -/

/-- `ImbalanceTaker`. -/
structure ImbalanceTaker where
  symbols : List SymbolDefinition
  quantity : UInt32
  imbalanceThresholds : List Int32
  imbalanceQuantities : AList fun _ : UInt32 => Int32
  lastOrderSendTs : UInt64

namespace ImbalanceTaker

/-- The constructor: nothing was traded in its symbols. -/
def start (symbols : List SymbolDefinition) (quantity : UInt32) (imbalanceThresholds : List Int32) :
    ImbalanceTaker :=
  ⟨symbols, quantity, imbalanceThresholds,
    symbols.foldl (fun m symbol => m.insert symbol.symbol 0) ∅, 0⟩

/-- `imbalance_quantities[symbol] += n`, which is taken unsigned. -/
def addImbalance (b : ImbalanceTaker) (symbol n : UInt32) : ImbalanceTaker :=
  { b with
    imbalanceQuantities := b.imbalanceQuantities.insert symbol
      (((b.imbalanceQuantities.lookup symbol).getD 0).toUInt32 + n).toInt32 }

/-- `ImbalanceTaker::on_trade_summary`. -/
def onTradeSummary (b : ImbalanceTaker) (symbol quantity : UInt32) (aggressorSide : Side) :
    ImbalanceTaker :=
  if aggressorSide = Side.buy then b.addImbalance symbol quantity
  else if aggressorSide = Side.sell then b.addImbalance symbol (-quantity)
  else b

/-- The side on which an imbalance is beyond its threshold, if it is. -/
def sideOf (imbalance threshold : Int32) : Option (Option Side) :=
  if imbalance > threshold then some (some Side.buy)
  -- the negation of the lowest number is a signed overflow
  else if threshold = Int32.minValue then none
  else if imbalance < -threshold then some (some Side.sell)
  else some none

/-- A taker whose order for a symbol was just sent. -/
def spent (b : ImbalanceTaker) (symbol : UInt32) (stamp : UInt64) : ImbalanceTaker :=
  { b with
    lastOrderSendTs := stamp
    imbalanceQuantities := b.imbalanceQuantities.insert symbol 0 }

/-- The body of the loop of `process`. It has no outcome where a symbol has no threshold. -/
def follow (b : ImbalanceTaker) (symbol : SymbolDefinition) (stamp : UInt64) (lastOrderId : UInt32) :
    Option (BotTurn ImbalanceTaker) :=
  match b.imbalanceQuantities.lookup symbol.symbol with
  | none => some ⟨b, lastOrderId, []⟩
  | some imbalance =>
    match b.imbalanceThresholds[(symbol.symbol - 1).toNat]? with
    | none => none
    | some threshold =>
      (sideOf imbalance threshold).map fun
        | none => ⟨b, lastOrderId, []⟩
        | some side =>
          ⟨b.spent symbol.symbol stamp, lastOrderId + 1,
            [.sendOrder symbol.symbol lastOrderId.toUInt64 side b.quantity
              (if side = Side.buy then symbol.maxPrice else symbol.minPrice) OrderFlags.ioc]⟩

/-- The loop of `process`. -/
def followFrom (stamps : ℕ → UInt64) :
    ℕ → List SymbolDefinition → ImbalanceTaker → UInt32 → Option (BotTurn ImbalanceTaker)
  | _, [], b, lastOrderId => some ⟨b, lastOrderId, []⟩
  | i, symbol :: symbols, b, lastOrderId => do
    let turn ← b.follow symbol (stamps i) lastOrderId
    let rest ← followFrom stamps (i + 1) symbols turn.bot turn.lastOrderId
    some ⟨rest.bot, rest.lastOrderId, turn.calls ++ rest.calls⟩

/-- `ImbalanceTaker::process`, which reads the clock for its check and for its stamps. -/
def process (b : ImbalanceTaker) (ts : UInt64) (stamps : ℕ → UInt64) (lastOrderId : UInt32) :
    Option (BotTurn ImbalanceTaker) :=
  if b.lastOrderSendTs = 0 ∨ ts - b.lastOrderSendTs > 100000000 then
    followFrom stamps 0 b.symbols b lastOrderId
  else some ⟨b, lastOrderId, []⟩

variable {b : ImbalanceTaker} {symbol : SymbolDefinition} {stamp : UInt64} {lastOrderId : UInt32}
  {t : BotTurn ImbalanceTaker}

/-- **What the body of the loop does**: nothing, if the imbalance is within its threshold, or it sends an
order on the side of the imbalance. -/
theorem follow_cases (ht : b.follow symbol stamp lastOrderId = some t) :
    (t = ⟨b, lastOrderId, []⟩ ∧ ∀ imbalance, b.imbalanceQuantities.lookup symbol.symbol = some imbalance →
        ∃ threshold, b.imbalanceThresholds[(symbol.symbol - 1).toNat]? = some threshold ∧
          sideOf imbalance threshold = some none) ∨
      ∃ imbalance threshold side,
        b.imbalanceQuantities.lookup symbol.symbol = some imbalance ∧
          b.imbalanceThresholds[(symbol.symbol - 1).toNat]? = some threshold ∧
            sideOf imbalance threshold = some (some side) ∧
              t = ⟨b.spent symbol.symbol stamp, lastOrderId + 1,
                [.sendOrder symbol.symbol lastOrderId.toUInt64 side b.quantity
                  (if side = Side.buy then symbol.maxPrice else symbol.minPrice) OrderFlags.ioc]⟩ := by
  unfold follow at ht
  split at ht
  case h_1 hnone => exact Or.inl ⟨(Option.some.inj ht).symm, fun _ h => by rw [hnone] at h; cases h⟩
  case h_2 imbalance hlookup =>
    split at ht
    case h_1 => cases ht
    case h_2 threshold hthreshold =>
      obtain ⟨side, hside, ht⟩ := Option.map_eq_some_iff.mp ht
      cases side with
      | none =>
        refine Or.inl ⟨ht.symm, fun imbalance' h => ?_⟩
        obtain rfl := Option.some.inj (hlookup.symm.trans h)
        exact ⟨threshold, hthreshold, hside⟩
      | some side => exact Or.inr ⟨imbalance, threshold, side, hlookup, hthreshold, hside, ht.symm⟩

theorem turned_follow (held : List Ticket) (ht : b.follow symbol stamp lastOrderId = some t) :
    Turned held lastOrderId t.calls t.lastOrderId := by
  rcases follow_cases ht with ⟨rfl, -⟩ | ⟨imbalance, threshold, side, -, -, -, rfl⟩
  · exact .nil held lastOrderId
  · exact .send held ..

theorem turned_followFrom (held : List Ticket) {stamps : ℕ → UInt64} {i : ℕ}
    {symbols : List SymbolDefinition} (ht : followFrom stamps i symbols b lastOrderId = some t) :
    Turned held lastOrderId t.calls t.lastOrderId := by
  induction symbols generalizing i b held lastOrderId t with
  | nil =>
    cases ht
    exact .nil held lastOrderId
  | cons symbol symbols ih =>
    simp only [followFrom, Option.bind_eq_bind, Option.bind_eq_some_iff] at ht
    obtain ⟨turn, hturn, rest, hrest, hdone⟩ := ht
    cases hdone
    exact (turned_follow held hturn).append (ih _ hrest)

/-- **A call of `process`** is tended. -/
theorem turned_process (held : List Ticket) {ts : UInt64} {stamps : ℕ → UInt64}
    (ht : b.process ts stamps lastOrderId = some t) :
    Turned held lastOrderId t.calls t.lastOrderId := by
  unfold process at ht
  split_ifs at ht
  · exact turned_followFrom held ht
  · cases ht
    exact .nil held lastOrderId

/-! ### What it follows -/

/-- What a taker hears and does: a trade of the market, or a call of its own. -/
inductive Note
  | traded (symbol quantity : UInt32) (aggressorSide : Side)
  | called (k : OeCall)

/-- The quantity that was bought of a symbol less what was sold, since the taker's last order of it. -/
def Note.count (symbol : UInt32) (n : ℤ) : Note → ℤ
  | .traded symbol' quantity aggressorSide =>
    if symbol' = symbol then
      if aggressorSide = Side.buy then n + quantity.toNat
      else if aggressorSide = Side.sell then n - quantity.toNat
      else n
    else n
  | .called (.sendOrder symbol' _ _ _ _ _) => if symbol' = symbol then 0 else n
  | .called _ => n

/-- The net quantity of a symbol after some notes. -/
def net (symbol : UInt32) (notes : List Note) : ℤ := notes.foldl (Note.count symbol) 0

theorem net_snoc (symbol : UInt32) (notes : List Note) (x : Note) :
    net symbol (notes ++ [x]) = x.count symbol (net symbol notes) := by
  simp [net]

/-- An order is due behind some notes: the net quantity of its symbol is beyond the threshold, on its
side. -/
def Due (b : ImbalanceTaker) (notes : List Note) (k : OeCall) : Prop :=
  ∃ symbol ∈ b.symbols, ∃ threshold side orderId,
    b.imbalanceThresholds[(symbol.symbol - 1).toNat]? = some threshold ∧
      sideOf (Int32.ofInt (net symbol.symbol notes)) threshold = some (some side) ∧
        k = .sendOrder symbol.symbol orderId side b.quantity
          (if side = Side.buy then symbol.maxPrice else symbol.minPrice) OrderFlags.ioc

/-- The symbol's net quantity is beyond the threshold on no side. -/
def Calm (b : ImbalanceTaker) (notes : List Note) (symbol : SymbolDefinition) : Prop :=
  ∃ threshold, b.imbalanceThresholds[(symbol.symbol - 1).toNat]? = some threshold ∧
    sideOf (Int32.ofInt (net symbol.symbol notes)) threshold = some none

/-- The taker counts what it hears, and sends what is due. -/
structure Follows (b₀ b : ImbalanceTaker) (notes : List Note) : Prop where
  symbols : b.symbols = b₀.symbols
  quantity : b.quantity = b₀.quantity
  thresholds : b.imbalanceThresholds = b₀.imbalanceThresholds
  listed : ∀ symbol ∈ b₀.symbols, (b.imbalanceQuantities.lookup symbol.symbol).isSome
  counted : ∀ symbol, (b.imbalanceQuantities.lookup symbol).getD 0 = Int32.ofInt (net symbol notes)
  due : ∀ past k rest, notes = past ++ .called k :: rest → b₀.Due past k

theorem isSome_lookup_insert {m : AList fun _ : UInt32 => Int32} {a s : UInt32} {n : Int32}
    (h : (m.lookup s).isSome) : ((m.insert a n).lookup s).isSome := by
  by_cases hsame : s = a
  · rw [hsame, AList.lookup_insert]
    rfl
  · rwa [AList.lookup_insert_ne hsame]

/-- The map that the constructor makes. -/
theorem lookup_zeros (symbols : List SymbolDefinition) {m : AList fun _ : UInt32 => Int32}
    (hm : ∀ x, (m.lookup x).getD 0 = 0) :
    let m' := symbols.foldl (fun m symbol => m.insert symbol.symbol 0) m
    (∀ x, (m'.lookup x).getD 0 = 0) ∧ (∀ x, (m.lookup x).isSome → (m'.lookup x).isSome) ∧
      ∀ s ∈ symbols, (m'.lookup s.symbol).isSome := by
  induction symbols generalizing m with
  | nil => exact ⟨hm, fun _ h => h, by simp⟩
  | cons s symbols ih =>
    have hinsert : ∀ x, ((m.insert s.symbol 0).lookup x).getD 0 = 0 := by
      intro x
      by_cases hsame : x = s.symbol
      · rw [hsame, AList.lookup_insert]
        rfl
      · rw [AList.lookup_insert_ne hsame, hm]
    obtain ⟨hall, hkept, hlisted⟩ := ih hinsert
    refine ⟨hall, fun x hx => hkept x (isSome_lookup_insert hx), ?_⟩
    refine List.forall_mem_cons.mpr ⟨hkept s.symbol ?_, hlisted⟩
    rw [AList.lookup_insert]
    rfl

namespace Follows

variable {b₀ b' : ImbalanceTaker} {notes : List Note}

/-- The last note, if it is a call, is due. -/
theorem due_snoc (h : Follows b₀ b notes) {x : Note} (hx : ∀ k, x = .called k → b₀.Due notes k) :
    ∀ past k rest, notes ++ [x] = past ++ .called k :: rest → b₀.Due past k := by
  intro past k rest hsplit
  induction rest using List.reverseRecOn with
  | nil =>
    obtain ⟨rfl, hlast⟩ := List.append_inj' hsplit rfl
    exact hx k (List.singleton_inj.mp hlast)
  | append_singleton rest y _ =>
    rw [← List.cons_append, ← List.append_assoc] at hsplit
    exact h.due past k rest (List.append_inj' hsplit rfl).1

/-- A trade is counted. -/
theorem traded (h : Follows b₀ b notes) (symbol quantity : UInt32) (aggressorSide : Side) :
    Follows b₀ (b.onTradeSummary symbol quantity aggressorSide)
      (notes ++ [.traded symbol quantity aggressorSide]) := by
  have hadd : ∀ (n : UInt32) (d : ℤ), n = UInt32.ofInt d →
      (∀ m, (Note.traded symbol quantity aggressorSide).count symbol m = m + d) →
        Follows b₀ (b.addImbalance symbol n) (notes ++ [.traded symbol quantity aggressorSide]) := by
    intro n d hn hcount
    refine ⟨h.symbols, h.quantity, h.thresholds, fun s hs => ?_, fun s => ?_, h.due_snoc (by simp)⟩
    · exact isSome_lookup_insert (h.listed s hs)
    · rw [net_snoc]
      by_cases hsame : s = symbol
      · subst hsame
        rw [hcount, addImbalance, AList.lookup_insert, Option.getD_some, h.counted, hn,
          Wire.toUInt32_ofInt, ← UInt32.ofInt_add, Wire.toInt32_ofInt]
      · rw [addImbalance, AList.lookup_insert_ne hsame, h.counted, Note.count, if_neg (Ne.symm hsame)]
  unfold onTradeSummary
  split_ifs with hbuy hsell
  · exact hadd quantity quantity.toNat (Wire.ofInt_toNat quantity).symm fun m => by
      rw [Note.count, if_pos rfl, if_pos hbuy]
  · refine hadd (-quantity) (-quantity.toNat) ?_ fun m => ?_
    · rw [UInt32.ofInt_neg, Wire.ofInt_toNat]
    · rw [Note.count, if_pos rfl, if_neg hbuy, if_pos hsell, Int.sub_eq_add_neg]
  · -- a trade of no side counts nothing
    refine ⟨h.symbols, h.quantity, h.thresholds, h.listed, fun s => ?_, h.due_snoc (by simp)⟩
    rw [net_snoc, h.counted, Note.count, if_neg hbuy, if_neg hsell, ite_self]

/-- The body of the loop keeps to what is due. -/
theorem follow (h : Follows b₀ b notes) (hsymbol : symbol ∈ b₀.symbols)
    (ht : b.follow symbol stamp lastOrderId = some t) :
    Follows b₀ t.bot (notes ++ t.calls.map .called) := by
  rcases follow_cases ht with ⟨rfl, -⟩ | ⟨imbalance, threshold, side, hlookup, hthreshold, hside, rfl⟩
  · simpa using h
  have himbalance : imbalance = Int32.ofInt (net symbol.symbol notes) := by
    rw [← h.counted, hlookup, Option.getD_some]
  refine ⟨h.symbols, h.quantity, h.thresholds, fun s hs => ?_, fun s => ?_, h.due_snoc ?_⟩
  · exact isSome_lookup_insert (h.listed s hs)
  · rw [List.map_singleton, net_snoc, Note.count, spent]
    by_cases hsame : s = symbol.symbol
    · rw [hsame, AList.lookup_insert, if_pos rfl]
      rfl
    · rw [AList.lookup_insert_ne hsame, if_neg (Ne.symm hsame), h.counted]
  · rintro k hk
    cases hk
    rw [h.thresholds] at hthreshold
    exact ⟨symbol, hsymbol, threshold, side, _, hthreshold, himbalance ▸ hside, by rw [h.quantity]⟩

/-- A symbol without trades since its last order is calm. -/
theorem calm_of_zero (hlevel : ∀ x ∈ b₀.imbalanceThresholds, 0 ≤ x) {threshold : Int32}
    (hthreshold : b₀.imbalanceThresholds[(symbol.symbol - 1).toNat]? = some threshold)
    (hzero : net symbol.symbol notes = 0) : b₀.Calm notes symbol := by
  have hle := hlevel threshold (List.mem_of_getElem? hthreshold)
  refine ⟨threshold, hthreshold, ?_⟩
  rw [hzero]
  have hle' : (0 : ℤ) ≤ threshold.toInt := Int32.le_iff_toInt_le.mp hle
  have hlt := threshold.toInt_lt
  have hmin : threshold ≠ Int32.minValue := by
    rintro rfl
    exact absurd hle' (by decide)
  have hneg : (-threshold).toInt = -threshold.toInt := by
    rw [Int32.toInt_neg, Int.bmod_eq_of_le (by omega) (by omega)]
  rw [sideOf, if_neg, if_neg hmin, if_neg]
  · rw [Int32.not_lt, Int32.le_iff_toInt_le, hneg]
    exact Int.neg_nonpos_of_nonneg hle'
  · rw [gt_iff_lt, Int32.not_lt]
    exact hle

/-- Behind the body of the loop its symbol is calm, and a symbol that was calm is so still. -/
theorem calm_follow (h : Follows b₀ b notes) (hlevel : ∀ x ∈ b₀.imbalanceThresholds, 0 ≤ x)
    (hsymbol : symbol ∈ b₀.symbols) (ht : b.follow symbol stamp lastOrderId = some t) :
    b₀.Calm (notes ++ t.calls.map .called) symbol ∧
      ∀ s, b₀.Calm notes s → b₀.Calm (notes ++ t.calls.map .called) s := by
  rcases follow_cases ht with ⟨rfl, hcalm⟩ | ⟨imbalance, threshold, side, -, hthreshold, -, rfl⟩
  · obtain ⟨imbalance, hlookup⟩ := Option.isSome_iff_exists.mp (h.listed symbol hsymbol)
    obtain ⟨threshold, hthreshold, hnone⟩ := hcalm imbalance hlookup
    have himbalance : imbalance = Int32.ofInt (net symbol.symbol notes) := by
      rw [← h.counted, hlookup, Option.getD_some]
    simp only [List.map_nil, List.append_nil]
    rw [h.thresholds] at hthreshold
    exact ⟨⟨threshold, hthreshold, himbalance ▸ hnone⟩, fun _ hs => hs⟩
  · rw [h.thresholds] at hthreshold
    have hzero : ∀ s : SymbolDefinition, s.symbol = symbol.symbol →
        net s.symbol (notes ++ [.called (.sendOrder symbol.symbol lastOrderId.toUInt64 side b.quantity
          (if side = Side.buy then symbol.maxPrice else symbol.minPrice) OrderFlags.ioc)]) = 0 :=
      fun s hs => by rw [net_snoc, Note.count, if_pos hs.symm]
    refine ⟨calm_of_zero hlevel hthreshold (hzero symbol rfl), fun s hs => ?_⟩
    by_cases hsame : s.symbol = symbol.symbol
    · exact calm_of_zero hlevel (hsame ▸ hthreshold) (hzero s hsame)
    · -- the order is of another symbol
      obtain ⟨threshold', hthreshold', hnone⟩ := hs
      refine ⟨threshold', hthreshold', ?_⟩
      rw [List.map_singleton, net_snoc, Note.count, if_neg (Ne.symm hsame)]
      exact hnone

/-- **The loop** sends what is due. -/
theorem followFrom (h : Follows b₀ b notes) {stamps : ℕ → UInt64} {i : ℕ}
    {symbols : List SymbolDefinition} (hsymbols : symbols ⊆ b₀.symbols)
    (ht : ImbalanceTaker.followFrom stamps i symbols b lastOrderId = some t) :
    Follows b₀ t.bot (notes ++ t.calls.map .called) := by
  induction symbols generalizing i b notes lastOrderId t with
  | nil =>
    cases ht
    simpa using h
  | cons symbol symbols ih =>
    obtain ⟨hsymbol, hrest⟩ := List.cons_subset.mp hsymbols
    simp only [ImbalanceTaker.followFrom, Option.bind_eq_bind, Option.bind_eq_some_iff] at ht
    obtain ⟨turn, hturn, rest, htail, hdone⟩ := ht
    cases hdone
    rw [List.map_append, ← List.append_assoc]
    exact ih (h.follow hsymbol hturn) hrest htail

/-- The loop leaves its symbols calm. -/
theorem calm_followFrom (h : Follows b₀ b notes) (hlevel : ∀ x ∈ b₀.imbalanceThresholds, 0 ≤ x)
    {stamps : ℕ → UInt64} {i : ℕ} {symbols : List SymbolDefinition} (hsymbols : symbols ⊆ b₀.symbols)
    (ht : ImbalanceTaker.followFrom stamps i symbols b lastOrderId = some t) :
    (∀ s ∈ symbols, b₀.Calm (notes ++ t.calls.map .called) s) ∧
      ∀ s, b₀.Calm notes s → b₀.Calm (notes ++ t.calls.map .called) s := by
  induction symbols generalizing i b notes lastOrderId t with
  | nil =>
    cases ht
    simp
  | cons symbol symbols ih =>
    obtain ⟨hsymbol, hrest⟩ := List.cons_subset.mp hsymbols
    simp only [ImbalanceTaker.followFrom, Option.bind_eq_bind, Option.bind_eq_some_iff] at ht
    obtain ⟨turn, hturn, rest, htail, hdone⟩ := ht
    cases hdone
    obtain ⟨hcalm, hstays⟩ := h.calm_follow hlevel hsymbol hturn
    obtain ⟨hcalms, hstay⟩ := ih (h.follow hsymbol hturn) hrest htail
    rw [List.map_append, ← List.append_assoc]
    refine ⟨?_, fun s hs => hstay s (hstays s hs)⟩
    exact List.forall_mem_cons.mpr ⟨hstay symbol hcalm, hcalms⟩

theorem start (symbols : List SymbolDefinition) (quantity : UInt32) (imbalanceThresholds : List Int32) :
    Follows (start symbols quantity imbalanceThresholds) (start symbols quantity imbalanceThresholds)
      [] := by
  obtain ⟨hall, -, hlisted⟩ := lookup_zeros symbols (m := ∅) fun _ => rfl
  exact ⟨rfl, rfl, rfl, hlisted, hall, by simp⟩

end Follows

/-- What happens to a taker: a trade of the market, or a call of `process`. -/
inductive TakerEvent
  | traded (symbol quantity : UInt32) (aggressorSide : Side)
  | process (ts : UInt64) (stamps : ℕ → UInt64) (lastOrderId : UInt32)

/-- The steps of a taker, with the notes of what it heard and called. -/
def TakerStep (s : ImbalanceTaker × List Note) (l : TakerEvent) (t : ImbalanceTaker × List Note) : Prop :=
  match l with
  | .traded symbol quantity aggressorSide =>
    t = (s.1.onTradeSummary symbol quantity aggressorSide,
      s.2 ++ [.traded symbol quantity aggressorSide])
  | .process ts stamps lastOrderId =>
    ∃ r, s.1.process ts stamps lastOrderId = some r ∧ t = (r.bot, s.2 ++ r.calls.map .called)

end ImbalanceTaker

open ImbalanceTaker in
/-- **The taker follows the trades**: in every run each of its orders is sent when the net quantity of its
symbol, in 32 bits, is beyond the threshold on the order's side; and if no threshold is negative, a call that
the clock lets through leaves the net quantities of all symbols within their thresholds. -/
theorem imbalance_followed {symbols : List SymbolDefinition} {quantity : UInt32}
    {imbalanceThresholds : List Int32} {ls : List TakerEvent} {b : ImbalanceTaker} {notes : List Note}
    (h : Run TakerStep (start symbols quantity imbalanceThresholds, []) ls (b, notes)) :
    (∀ past k rest, notes = past ++ .called k :: rest →
      (start symbols quantity imbalanceThresholds).Due past k) ∧
    ((∀ x ∈ imbalanceThresholds, 0 ≤ x) → ∀ ts stamps lastOrderId t,
      b.process ts stamps lastOrderId = some t →
        b.lastOrderSendTs = 0 ∨ ts - b.lastOrderSendTs > 100000000 → ∀ s ∈ symbols,
          (start symbols quantity imbalanceThresholds).Calm (notes ++ t.calls.map .called) s) := by
  have hfollows : Follows (start symbols quantity imbalanceThresholds) b notes := by
    refine h.invariant (I := fun s => Follows (start symbols quantity imbalanceThresholds) s.1 s.2) ?_
      (.start symbols quantity imbalanceThresholds)
    intro s l t hs hstep
    cases l with
    | traded symbol quantity' aggressorSide =>
      obtain rfl := hstep
      exact hs.traded symbol quantity' aggressorSide
    | process ts stamps lastOrderId =>
      obtain ⟨r, hr, rfl⟩ := hstep
      unfold ImbalanceTaker.process at hr
      split_ifs at hr
      · exact hs.followFrom (fun _ hx => hs.symbols ▸ hx) hr
      · cases hr
        simpa using hs
  refine ⟨hfollows.due, fun hlevel ts stamps lastOrderId t ht hclock s hs => ?_⟩
  rw [ImbalanceTaker.process, if_pos hclock, hfollows.symbols] at ht
  exact (hfollows.calm_followFrom hlevel (List.Subset.refl _) ht).1 s hs

open ImbalanceTaker in
/-- Two trades make the taker buy. -/
theorem imbalance_followed_two_trades :
    (start [⟨1, 10, 1, 1000, 10000000, 0, by decide, by decide⟩] 40 [200]).Due
      [.traded 1 150 Side.buy, .traded 1 100 Side.buy]
      (.sendOrder 1 1 Side.buy 40 10000000 1) := by
  have h : Run TakerStep (start [⟨1, 10, 1, 1000, 10000000, 0, by decide, by decide⟩] 40 [200], [])
      [.traded 1 150 Side.buy, .traded 1 100 Side.buy, .process 5 (fun _ => 6) 1] (_, _) :=
    .cons rfl (.cons rfl (.cons ⟨_, rfl, rfl⟩ (.nil _)))
  exact (imbalance_followed h).1 _ _ [] rfl

end Ndfex.Bots
