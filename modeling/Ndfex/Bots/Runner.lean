import Ndfex.Bots.OEClient
import Ndfex.Bots.Takers

/-!
# The programs of bots

`bot_runner`, `stable_bot_runner` and `smarter_bots` run some bots in one thread, with one client to the
exchange, one client of its feed and one counter of order ids. In every round each bot has its turn.

## Main definitions

* `RandomWalkFairValue`: a fair value that walks within the limits of its symbol
* `Bot`, `Bot.process`: the bots and their turns
* `botRunner`, `stableBotRunner`, `smarterBots`: the bots of the programs

## Main results

* `walk_within`: a walk that has moved is five ticks within the limits
* `Bot.Owns.process`: a turn of a bot is tended
* `owns_programs`: the bots of the programs start without orders
-/

namespace Ndfex.Bots

open Transition

/-! ## Fair values -/

/-- `RandomWalkFairValue`. -/
structure RandomWalkFairValue where
  fairValue : Int32
  lastTs : UInt64
  minPrice : Int32
  maxPrice : Int32
  tickSize : UInt32

namespace RandomWalkFairValue

/-- The constructor. -/
def start (startPrice : Int32) (symbol : SymbolDefinition) : RandomWalkFairValue :=
  ⟨startPrice, 0, symbol.minPrice, symbol.maxPrice, symbol.tickSize⟩

/-- `RandomWalkFairValue::process`, with the draws of its step and of the time to the next one. The signed
sums of the code have no value where they overflow. -/
def process (w : RandomWalkFairValue) (ts : UInt64) (change : Int32) (delay : UInt64) :
    Option RandomWalkFairValue :=
  if w.lastTs = 0 then some { w with lastTs := ts + delay }
  else if ts ≤ w.lastTs then some w
  else do
    let fairValue ← FairValueMarketMaker.checked (w.fairValue.toInt + change.toInt)
    let tickStep ← FairValueMarketMaker.checked (w.tickSize.toInt32.toInt * 5)
    let low ← FairValueMarketMaker.checked (w.minPrice.toInt + tickStep.toInt)
    if fairValue < low then some { w with fairValue := low, lastTs := ts + delay }
    else
      let high ← FairValueMarketMaker.checked (w.maxPrice.toInt - tickStep.toInt)
      if fairValue > high then some { w with fairValue := high, lastTs := ts + delay }
      else some { w with fairValue, lastTs := ts + delay }

/-- The calls of `process`, with the clock and the draws. -/
def WalkStep (w : RandomWalkFairValue) (l : UInt64 × Int32 × UInt64) (w' : RandomWalkFairValue) : Prop :=
  w.process l.1 l.2.1 l.2.2 = some w'

/-- A walk of a symbol: it is where it started, or five ticks within the limits. -/
structure Walks (startPrice : Int32) (symbol : SymbolDefinition) (w : RandomWalkFairValue) : Prop where
  minPrice : w.minPrice = symbol.minPrice
  maxPrice : w.maxPrice = symbol.maxPrice
  tickSize : w.tickSize = symbol.tickSize
  within : w.fairValue = startPrice ∨
    symbol.minPrice.toInt + 5 * symbol.tickSize.toInt32.toInt ≤ w.fairValue.toInt ∧
      w.fairValue.toInt ≤ symbol.maxPrice.toInt - 5 * symbol.tickSize.toInt32.toInt

theorem toInt_of_checked {n : ℤ} {x : Int32} (h : FairValueMarketMaker.checked n = some x) :
    x.toInt = n := by
  unfold FairValueMarketMaker.checked at h
  split_ifs at h with hfits
  obtain rfl := Option.some.inj h
  exact Wire.toInt_ofInt_iff.mpr hfits

/-- **A walk stays within the limits** of a symbol that are ten ticks apart, from its first move on. -/
theorem walk_within {startPrice : Int32} {symbol : SymbolDefinition}
    (hapart : symbol.minPrice.toInt + 10 * symbol.tickSize.toInt32.toInt ≤ symbol.maxPrice.toInt)
    {ls : List (UInt64 × Int32 × UInt64)} {w : RandomWalkFairValue}
    (h : Run WalkStep (start startPrice symbol) ls w) : Walks startPrice symbol w := by
  refine h.invariant (I := Walks startPrice symbol) ?_ ⟨rfl, rfl, rfl, Or.inl rfl⟩
  rintro w ⟨ts, change, delay⟩ w' hw hstep
  obtain ⟨hmin, hmax, htick, hwithin⟩ := hw
  unfold WalkStep process at hstep
  -- the first call, or one before its time: the price stays
  split_ifs at hstep
  · cases hstep
    exact ⟨hmin, hmax, htick, hwithin⟩
  · cases hstep
    exact ⟨hmin, hmax, htick, hwithin⟩
  simp only [Option.bind_eq_bind, Option.bind_eq_some_iff] at hstep
  obtain ⟨fairValue, -, tickStep, hstepTicks, low, hlow, hstep⟩ := hstep
  have htickStep := toInt_of_checked hstepTicks
  have hlow := toInt_of_checked hlow
  rw [hmin] at hlow
  rw [htick] at htickStep
  -- a price below the limits is set to five ticks above the lowest one
  split_ifs at hstep with hbelow
  · cases hstep
    exact ⟨hmin, hmax, htick, Or.inr ⟨by dsimp only; omega, by dsimp only; omega⟩⟩
  simp only [Option.bind_eq_some_iff] at hstep
  obtain ⟨high, hhigh, hstep⟩ := hstep
  have hhigh := toInt_of_checked hhigh
  rw [hmax] at hhigh
  have hlowest := Int32.le_iff_toInt_le.mp (Int32.not_lt.mp hbelow)
  -- a price above the limits is set to five ticks below the highest one
  split_ifs at hstep with habove
  · cases hstep
    exact ⟨hmin, hmax, htick, Or.inr ⟨by dsimp only; omega, by dsimp only; omega⟩⟩
  · cases hstep
    have hhighest := Int32.le_iff_toInt_le.mp (Int32.not_lt.mp habove)
    exact ⟨hmin, hmax, htick, Or.inr ⟨by dsimp only; omega, by dsimp only; omega⟩⟩

end RandomWalkFairValue

/-! ## The bots -/

/-- A bot of a program. `FairValueStackingMarketMaker` is its stack of quotes. -/
inductive Bot
  | fairValueMarketMaker (m : FairValueMarketMaker)
  | fairValueStackingMarketMaker (stackManager : StackManager)
  | randomTaker (b : RandomTaker)
  | imbalanceTaker (b : ImbalanceTaker)
  | pressureTaker (b : PressureTaker)
  | restingOrders (b : RestingOrders)

/-- What a turn of a bot reads besides the two clients: the draws and the clocks, and the fair values of the
market makers. -/
structure BotReading where
  draws : Draws
  stamps : ℕ → UInt64
  clock : ℕ → BookSide → StackManager.Clock
  fairValues : ℕ → Int32

namespace Bot

/-- What a market maker reads of the fair values and of its client. -/
def makerReading (m : FairValueMarketMaker) (oe : OEClient) (r : BotReading) (i : ℕ) :
    FairValueMarketMaker.Reading where
  fairValue := r.fairValues i
  position := (m.symbols[i]?.map fun s => oe.getPosition s.1.symbol).getD 0
  clock := r.clock i

/-- The turn of a bot, which has none where the code has no value. -/
def process (oe : OEClient) (md : MDClient) (r : BotReading) (lastOrderId : UInt32) :
    Bot → Option (BotTurn Bot)
  | .fairValueMarketMaker m =>
    (m.process (makerReading m oe r) lastOrderId).map fun ts =>
      let o := FairValueMarketMaker.last m lastOrderId ts
      ⟨.fairValueMarketMaker o.maker, o.lastOrderId, o.calls⟩
  | .fairValueStackingMarketMaker m =>
    match FairValueStackingMarketMaker.process m.symbol (md.getBestBid m.symbol.symbol)
      (md.getBestAsk m.symbol.symbol) with
    | .warned _ => some ⟨.fairValueStackingMarketMaker m, lastOrderId, []⟩
    | .stacked fairValue bidPrice askPrice =>
      (m.process ⟨fairValue, bidPrice, askPrice, lastOrderId, r.clock 0⟩).map fun o =>
        ⟨.fairValueStackingMarketMaker o.manager, o.lastOrderId, o.calls⟩
    | _ => none
  | .randomTaker b =>
    let t := b.process md r.draws lastOrderId
    some ⟨.randomTaker t.bot, t.lastOrderId, t.calls⟩
  | .imbalanceTaker b =>
    (b.process r.draws.ts r.stamps lastOrderId).map fun t =>
      ⟨.imbalanceTaker t.bot, t.lastOrderId, t.calls⟩
  | .pressureTaker b =>
    let t := b.process md r.draws lastOrderId
    some ⟨.pressureTaker t.bot, t.lastOrderId, t.calls⟩
  | .restingOrders b =>
    let t := b.process md r.draws lastOrderId
    some ⟨.restingOrders t.bot, t.lastOrderId, t.calls⟩

/-- A trade of the market, of which the takers that follow the trades are told. -/
def onTradeSummary (symbol quantity : UInt32) (aggressorSide : Side) : Bot → Bot
  | .imbalanceTaker b => .imbalanceTaker (b.onTradeSummary symbol quantity aggressorSide)
  | b => b

/-- The orders that a bot keeps were sent. -/
def Owns (held : List Ticket) : Bot → Prop
  | .fairValueMarketMaker m => m.Owns held
  | .fairValueStackingMarketMaker m => m.Owns held
  | _ => True

variable {b : Bot} {held : List Ticket} {oe : OEClient} {md : MDClient} {r : BotReading}
  {lastOrderId : UInt32} {t : BotTurn Bot}

theorem Owns.append (h : b.Owns held) (ts : List Ticket) : b.Owns (held ++ ts) := by
  cases b with
  | fairValueMarketMaker m => exact FairValueMarketMaker.Owns.append h ts
  | fairValueStackingMarketMaker m => exact StackManager.Owns.append h ts
  | _ => exact trivial

theorem Owns.onTradeSummary (h : b.Owns held) (symbol quantity : UInt32) (aggressorSide : Side) :
    (b.onTradeSummary symbol quantity aggressorSide).Owns held := by
  cases b <;> exact h

/-- **A turn of a bot** is tended. -/
theorem Owns.process (h : b.Owns held) (ht : b.process oe md r lastOrderId = some t) :
    Turned held lastOrderId t.calls t.lastOrderId ∧ t.bot.Owns (held ++ tickets t.calls) := by
  cases b with
  | fairValueMarketMaker m =>
    obtain ⟨ts, hts, rfl⟩ := Option.map_eq_some_iff.mp ht
    exact FairValueMarketMaker.Owns.quoteFrom h hts
  | fairValueStackingMarketMaker m =>
    simp only [Bot.process] at ht
    split at ht
    · cases ht
      exact ⟨.nil held lastOrderId, StackManager.Owns.append h _⟩
    · obtain ⟨o, ho, rfl⟩ := Option.map_eq_some_iff.mp ht
      exact StackManager.Owns.process h ho
    · cases ht
  | randomTaker b =>
    cases ht
    refine ⟨?_, trivial⟩
    unfold RandomTaker.process
    split_ifs
    · exact .nil held lastOrderId
    · exact turned_sendEach held _ lastOrderId
  | imbalanceTaker b =>
    obtain ⟨turn, hturn, rfl⟩ := Option.map_eq_some_iff.mp ht
    exact ⟨ImbalanceTaker.turned_process held hturn, trivial⟩
  | pressureTaker b =>
    cases ht
    refine ⟨?_, trivial⟩
    unfold PressureTaker.process
    split_ifs
    · exact .nil held lastOrderId
    · exact turned_sendEach held _ lastOrderId
  | restingOrders b =>
    cases ht
    refine ⟨?_, trivial⟩
    unfold RestingOrders.process
    split_ifs
    · exact .nil held lastOrderId
    · exact turned_sendEach held _ lastOrderId

end Bot

/-! ## The programs -/

/-- The constructor. -/
def FairValueMarketMaker.start (symbols : List SymbolDefinition) (variances : List Int32)
    (widthInTicks quantity : UInt32) : FairValueMarketMaker :=
  ⟨symbols.zip variances, widthInTicks, quantity, 0, fun _ => [], fun _ => []⟩

theorem blueTick_pos : (0 : UInt32) < 5 := by decide

/-- The two symbols of `stable_bot_runner` and `smarter_bots`: `GOLD` and `BLUE`. -/
def goldAndBlue : List SymbolDefinition :=
  [⟨1, 10, 1, 1000, 10000000, 0, StackManager.tick_pos, StackManager.lot_pos⟩,
    ⟨2, 5, 1, 1000, 10000000, 0, blueTick_pos, StackManager.lot_pos⟩]

/-- The symbols of `bot_runner`: besides these two the dorms and the fund of them, `UNDY`. -/
def botRunnerSymbols : List SymbolDefinition :=
  goldAndBlue ++
    (([3, 4, 5, 6, 7, 8, 9, 10, 11, 12] : List UInt32).map fun symbol =>
      ⟨symbol, 5, 1, 1000, 10000000, 0, blueTick_pos, StackManager.lot_pos⟩) ++
    [⟨13, 10, 1, 1000, 10000000, 0, StackManager.tick_pos, StackManager.lot_pos⟩]

/-- The variances of the market makers. -/
def variances : List (List Int32) :=
  [[0, 0, 0, 0, 0, 0, 0, 0, 0, 0, 0, 0, 0],
    [1, 1, 1, 1, 1, 1, 1, 1, 1, 1, 1, 1, 10],
    [-1, -1, -1, -1, -1, -1, -1, -1, -1, -1, -1, -1, -10],
    [1, 0, 2, 0, 1, 0, 2, 0, 1, 0, 2, 0, 5],
    [2, 0, 0, 2, 0, 2, 0, 2, 0, 2, 0, 2, 10],
    [0, 2, 1, 1, 1, 1, 1, 1, 1, 1, 1, 1, 5],
    [3, 0, -1, 1, -1, 1, -1, 1, -1, 1, -1, 1, 0]]

/-- The bots of `bot_runner`, in the order of their turns. -/
def botRunner : List Bot :=
  (variances.mapIdx fun i vs => .fairValueMarketMaker
    (.start botRunnerSymbols vs (if i < 3 then 2 else 3) (UInt32.ofNat (100 - 10 * i)))) ++
    ((List.range 4).map fun i => .randomTaker ⟨botRunnerSymbols, UInt32.ofNat (i + 1), 0⟩) ++
    (botRunnerSymbols.map fun symbol => .fairValueStackingMarketMaker (.start symbol 1 2 10))

/-- The bots of `stable_bot_runner`. -/
def stableBotRunner : List Bot :=
  [.fairValueMarketMaker (.start goldAndBlue [0, 0] 10 400), .randomTaker ⟨goldAndBlue, 1, 0⟩]

/-- The bots of `smarter_bots`. -/
def smarterBots : List Bot :=
  [.imbalanceTaker (.start goldAndBlue 40 [200, 400]), .pressureTaker (.start goldAndBlue 5),
    .restingOrders ⟨goldAndBlue, 25, 0⟩]

theorem FairValueMarketMaker.owns_start (held : List Ticket) (symbols : List SymbolDefinition)
    (variances : List Int32) (widthInTicks quantity : UInt32) :
    (start symbols variances widthInTicks quantity).Owns held := by
  intro h symbol o ho
  cases h <;> cases ho

/-- **The bots of the programs** start without orders. -/
theorem owns_programs (held : List Ticket) :
    ∀ b ∈ botRunner ++ stableBotRunner ++ smarterBots, b.Owns held := by
  intro b hb
  simp only [List.mem_append] at hb
  rcases hb with (hb | hb) | hb
  · simp only [botRunner, List.mem_append, List.mem_mapIdx, List.mem_map] at hb
    rcases hb with (⟨i, hi, rfl⟩ | ⟨i, -, rfl⟩) | ⟨symbol, -, rfl⟩
    · exact FairValueMarketMaker.owns_start held _ _ _ _
    · exact trivial
    · exact StackManager.owns_start symbol 1 2 10
  · simp only [stableBotRunner, List.mem_cons, List.not_mem_nil, or_false] at hb
    rcases hb with rfl | rfl
    · exact FairValueMarketMaker.owns_start held _ _ _ _
    · exact trivial
  · simp only [smarterBots, List.mem_cons, List.not_mem_nil, or_false] at hb
    rcases hb with rfl | rfl | rfl <;> exact trivial

end Ndfex.Bots
