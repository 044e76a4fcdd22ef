import Ndfex.Bots.StackManager
import Ndfex.Numeric.Multiples

/-!
# The quotes of the market maker

`FairValueMarketMaker::process` quotes each of its symbols around a fair value: it shifts the value by the
bot's variance and position, keeps it ten ticks above the lowest price, and rounds the two ends of its
width to the tick. The price is signed, the tick and the width are unsigned, so the rounding takes
remainders of unsigned numbers, and the rounding of the asks always goes up by something.

## Main definitions

* `roundToTickSize`, `FairValueMarketMaker.quotePrice`: the rounding, and the prices of the two sides
* `FairValueMarketMaker.quoteSymbol`, `FairValueMarketMaker.process`: a turn of the loop, and all of it
* `FairValueMarketMaker.Admissible`: what the price of an order should be
* `FairValueMarketMaker.SideFits`: the values for which the rounding gives it

## Main results

* `FairValueMarketMaker.admissible_iff`: when the price of a side is what it should be
* `FairValueMarketMaker.right_iff`: when all prices are that a call sends
-/

namespace Ndfex.Bots

open Numeric

/-- `round_to_tick_size`. The remainder of the signed price by the unsigned tick is taken unsigned. -/
def roundToTickSize (price : Int32) (tickSize : UInt32) (side : Side) : Int32 :=
  if side = Side.buy then (price.toUInt32 - price.toUInt32 % tickSize).toInt32
  else (price.toUInt32 + (tickSize - price.toUInt32 % tickSize)).toInt32

/-- `FairValueMarketMaker`: its symbols with their variances, its orders by symbol. -/
structure FairValueMarketMaker where
  symbols : List (SymbolDefinition × Int32)
  widthInTicks : UInt32
  quantity : UInt32
  lastOrderSendTs : UInt64
  bidOrders : UInt32 → List OpenOrder
  askOrders : UInt32 → List OpenOrder

namespace FairValueMarketMaker

/-- What a turn of the loop reads: the value of the symbol's walk, the position, and the clock. -/
structure Reading where
  fairValue : Int32
  position : Int32
  clock : BookSide → StackManager.Clock

/-- A signed sum of 32 bits; an overflow has no value. -/
def checked (n : ℤ) : Option Int32 :=
  if -2 ^ 31 ≤ n ∧ n < 2 ^ 31 then some (Int32.ofInt n) else none

/-- The fair value with the variance and the position, of which 100 count at most. -/
def adjusted (variance : Int32) (r : Reading) : Option Int32 := do
  let fairValue ← checked (r.fairValue.toInt + variance.toInt)
  let position := if r.position > 100 then 100 else if r.position < -100 then -100 else r.position
  checked (fairValue.toInt - position.toInt)

/-- The fair value is at least ten ticks above the lowest price. -/
def clamped (symbol : SymbolDefinition) (fairValue : Int32) : Int32 :=
  let lowest := (symbol.minPrice.toUInt32 + 10 * symbol.tickSize).toInt32
  if fairValue < lowest then lowest else fairValue

/-- `bid_price` and `ask_price`. -/
def quotePrice (m : FairValueMarketMaker) (symbol : SymbolDefinition) (fairValue : Int32) :
    BookSide → Int32
  | .buy => roundToTickSize (fairValue.toUInt32 - m.widthInTicks * symbol.tickSize).toInt32
      symbol.tickSize Side.buy
  | .sell => roundToTickSize (fairValue.toUInt32 + m.widthInTicks * symbol.tickSize).toInt32
      symbol.tickSize Side.sell

/-- The open orders of a symbol on a side. -/
def orders (m : FairValueMarketMaker) : BookSide → UInt32 → List OpenOrder
  | .buy => m.bidOrders
  | .sell => m.askOrders

/-- The market maker with the open orders of a symbol on a side replaced. -/
def setOrders (m : FairValueMarketMaker) (symbol : UInt32) (os : List OpenOrder) :
    BookSide → FairValueMarketMaker
  | .buy => { m with bidOrders := Function.update m.bidOrders symbol os }
  | .sell => { m with askOrders := Function.update m.askOrders symbol os }

/-- `last_order_send_ts + 30e9 < nanotime()`, which are compared as `double`s. -/
def expired (lastOrderSendTs now : UInt64) : Bool :=
  toBinary64 (toBinary64 lastOrderSendTs.toNat + 30000000000) < toBinary64 now.toNat

/-- What a part of `process` leaves: the market maker, the next id, and the calls made. -/
structure Outcome where
  maker : FairValueMarketMaker
  lastOrderId : UInt32
  calls : List OeCall

/-- The branches for one side of a symbol: an order at another price, or one that is too old, is
cancelled, and a new order is sent where there is none. -/
def quoteSide (m : FairValueMarketMaker) (h : BookSide) (symbol : UInt32) (price : Int32)
    (lastOrderId : UInt32) (clock : StackManager.Clock) : Outcome :=
  match (m.orders h symbol).getLast? with
  | some back =>
    if back.price ≠ price ∨ expired m.lastOrderSendTs clock.checked then
      ⟨m.setOrders symbol (m.orders h symbol).dropLast h, lastOrderId,
        [.cancelOrder back.orderId.toUInt64]⟩
    else ⟨m, lastOrderId, []⟩
  | none =>
    let m' := m.setOrders symbol [⟨lastOrderId, price, m.quantity⟩] h
    ⟨{ m' with lastOrderSendTs := clock.stamped }, lastOrderId + 1,
      [.sendOrder symbol lastOrderId.toUInt64 (StackManager.sideOf h) m.quantity price 0]⟩

/-- A turn of the loop, with the fair value around which it quotes. -/
structure Turn extends Outcome where
  symbol : SymbolDefinition
  fairValue : Int32

/-- The body of the loop of `process`. -/
def quoteSymbol (m : FairValueMarketMaker) (symbol : SymbolDefinition) (variance : Int32) (r : Reading)
    (lastOrderId : UInt32) : Option Turn := do
  let fairValue := clamped symbol (← adjusted variance r)
  let bids := m.quoteSide .buy symbol.symbol (m.quotePrice symbol fairValue .buy) lastOrderId
    (r.clock .buy)
  let asks := bids.maker.quoteSide .sell symbol.symbol (m.quotePrice symbol fairValue .sell)
    bids.lastOrderId (r.clock .sell)
  some ⟨⟨asks.maker, asks.lastOrderId, bids.calls ++ asks.calls⟩, symbol, fairValue⟩

/-- The loop of `process` from a symbol on. -/
def quoteFrom (readings : ℕ → Reading) :
    ℕ → List (SymbolDefinition × Int32) → FairValueMarketMaker → UInt32 → Option (List Turn)
  | _, [], _, _ => some []
  | i, (symbol, variance) :: symbols, m, lastOrderId => do
    let turn ← m.quoteSymbol symbol variance (readings i) lastOrderId
    let turns ← quoteFrom readings (i + 1) symbols turn.maker turn.lastOrderId
    some (turn :: turns)

/-- `FairValueMarketMaker::process`, as the turns of its loop. -/
def process (m : FairValueMarketMaker) (readings : ℕ → Reading) (lastOrderId : UInt32) :
    Option (List Turn) :=
  quoteFrom readings 0 m.symbols m lastOrderId

/-! ## What the prices should be -/

/-- The end of the width on a side. -/
def target (m : FairValueMarketMaker) (symbol : SymbolDefinition) (fairValue : Int32) :
    BookSide → ℤ
  | .buy => fairValue.toInt - m.widthInTicks.toNat * symbol.tickSize.toNat
  | .sell => fairValue.toInt + m.widthInTicks.toNat * symbol.tickSize.toNat

/-- The multiple of the tick next to a price, away from the fair value. -/
def Rounded (tick price : ℤ) : BookSide → ℤ → Prop
  | .buy, n => IsGreatest {n | tick ∣ n ∧ n ≤ price} n
  | .sell, n => IsLeast {n | tick ∣ n ∧ price ≤ n} n

/-- **A price is what it should be**: rounded away from the fair value, within the limits of the symbol,
and so that a validator that knows the symbol accepts it in a quantity that it allows. -/
structure Admissible (m : FairValueMarketMaker) (symbol : SymbolDefinition) (fairValue : Int32)
    (h : BookSide) (price : Int32) : Prop where
  rounded : Rounded symbol.tickSize.toNat (m.target symbol fairValue h) h price.toInt
  le_price : symbol.minPrice.toInt ≤ price.toInt
  price_le : price.toInt ≤ symbol.maxPrice.toInt
  accepted : ∀ v : OrderEntryValidator, v.symbols.lookup symbol.symbol = some symbol →
    ∀ quantity, symbol.Allows quantity price →
      ∀ orderId side flags, v.validateNewOrder orderId symbol.symbol side quantity price flags = .none

/-- **The values for which the rounding is right**: the end of the width is within the limits, it is not a
multiple on the side of the asks, and where it is negative the tick divides 2^32. -/
def SideFits (m : FairValueMarketMaker) (symbol : SymbolDefinition) (fairValue : Int32)
    (h : BookSide) : Prop :=
  let tick : ℤ := symbol.tickSize.toNat
  let target := m.target symbol fairValue h
  (0 ≤ target ∨ tick ∣ 2 ^ 32) ∧
    match h with
    | .buy => symbol.minPrice.toInt ≤ target ∧ target < symbol.maxPrice.toInt + tick
    | .sell => symbol.minPrice.toInt - tick < target ∧ target ≤ symbol.maxPrice.toInt ∧ ¬ tick ∣ target

/-! ## The rounding -/

section Rounding

variable {tickSize : UInt32} {price : Int32}

/-- The remainder that the rounding takes. -/
theorem toNat_mod_tick (price : Int32) (tickSize : UInt32) :
    ((price.toUInt32 % tickSize).toNat : ℤ) =
      (if 0 ≤ price.toInt then price.toInt else price.toInt + 2 ^ 32) % tickSize.toNat := by
  rw [UInt32.toNat_mod, Int.natCast_mod, Wire.toNat_toUInt32]

theorem roundToTickSize_buy (price : Int32) (tickSize : UInt32) :
    roundToTickSize price tickSize Side.buy =
      Int32.ofInt (price.toInt - (price.toUInt32 % tickSize).toNat) := by
  rw [← Wire.toInt32_ofInt, Wire.ofInt_sub, Wire.ofInt_toInt, Wire.ofInt_toNat]
  rfl

theorem roundToTickSize_sell (price : Int32) (tickSize : UInt32) :
    roundToTickSize price tickSize Side.sell =
      Int32.ofInt (price.toInt + (tickSize.toNat - (price.toUInt32 % tickSize).toNat)) := by
  rw [← Wire.toInt32_ofInt, UInt32.ofInt_add, Wire.ofInt_sub, Wire.ofInt_toInt, Wire.ofInt_toNat,
    Wire.ofInt_toNat]
  rfl

/-- The unsigned remainder of a price is the signed one, if it is not negative or the tick divides 2^32,
and only then. -/
theorem mod_tick_eq_iff (price : Int32) (tickSize : UInt32) :
    ((price.toUInt32 % tickSize).toNat : ℤ) = price.toInt % tickSize.toNat ↔
      0 ≤ price.toInt ∨ (tickSize.toNat : ℤ) ∣ 2 ^ 32 := by
  rw [toNat_mod_tick]
  split_ifs with hsign
  · exact iff_of_true rfl (Or.inl hsign)
  · rw [or_iff_right hsign]
    exact add_emod_eq_iff

/-- Two prices of 32 bits that come from integers less than 2^32 apart. -/
theorem eq_of_ofInt {n : ℤ} {d : ℤ} (hlow : -2 ^ 32 < d) (hhigh : d < 2 ^ 32)
    (h : (Int32.ofInt n).toInt = n + d) : d = 0 := by
  have hsize : ((Int32.size : ℕ) : ℤ) = 2 ^ 32 := rfl
  rw [Int32.toInt_ofInt, Int.bmod_def, hsize] at h
  split_ifs at h <;> omega

end Rounding

variable {m m' : FairValueMarketMaker} {symbol : SymbolDefinition} {fairValue : Int32} {h : BookSide}

/-- The end of the width before the rounding. -/
theorem quotePrice_eq (m : FairValueMarketMaker) (symbol : SymbolDefinition) (fairValue : Int32)
    (h : BookSide) :
    m.quotePrice symbol fairValue h =
      roundToTickSize (Int32.ofInt (m.target symbol fairValue h)) symbol.tickSize
        (StackManager.sideOf h) := by
  cases h with
  | buy =>
    simp only [quotePrice, target, StackManager.sideOf]
    rw [← Wire.toInt32_ofInt, Wire.ofInt_sub, UInt32.ofInt_mul, Wire.ofInt_toInt, Wire.ofInt_toNat,
      Wire.ofInt_toNat]
  | sell =>
    simp only [quotePrice, target, StackManager.sideOf]
    rw [← Wire.toInt32_ofInt, UInt32.ofInt_add, UInt32.ofInt_mul, Wire.ofInt_toInt, Wire.ofInt_toNat,
      Wire.ofInt_toNat]

theorem tick_pos (symbol : SymbolDefinition) : (0 : ℤ) < symbol.tickSize.toNat := by
  exact_mod_cast UInt32.lt_iff_toNat_lt.mp symbol.tickSize_pos

theorem tick_lt (symbol : SymbolDefinition) : (symbol.tickSize.toNat : ℤ) < 2 ^ 32 := by
  exact_mod_cast symbol.tickSize.toNat_lt

/-- A bid starts below the fair value, and an ask above it. -/
theorem target_bounds (m : FairValueMarketMaker) (symbol : SymbolDefinition) (fairValue : Int32) :
    m.target symbol fairValue .buy < 2 ^ 31 ∧ -2 ^ 31 ≤ m.target symbol fairValue .sell := by
  have hle := fairValue.le_toInt
  have hlt := fairValue.toInt_lt
  have hwidth : (0 : ℤ) ≤ m.widthInTicks.toNat * symbol.tickSize.toNat :=
    Int.mul_nonneg (Int.natCast_nonneg _) (Int.natCast_nonneg _)
  simp only [target]
  omega

/-- A price that is rounded and within the limits says where the end of the width is. -/
theorem sideFits_of_admissible {price : Int32} (hprice : m.quotePrice symbol fairValue h = price)
    (hadm : m.Admissible symbol fairValue h price) : m.SideFits symbol fairValue h := by
  have htick := tick_pos symbol
  have htick' := tick_lt symbol
  obtain ⟨htargetBuy, htargetSell⟩ := target_bounds m symbol fairValue
  obtain ⟨hrounded, hlow, hhigh, -⟩ := hadm
  have hminBound := symbol.minPrice.le_toInt
  have hmaxBound := symbol.maxPrice.toInt_lt
  have hremLow := Int.emod_nonneg (m.target symbol fairValue h) htick.ne'
  have hremHigh := Int.emod_lt_of_pos (m.target symbol fairValue h) htick
  rw [quotePrice_eq] at hprice
  have hword := mod_tick_eq_iff (Int32.ofInt (m.target symbol fairValue h)) symbol.tickSize
  have hwordHigh : (((Int32.ofInt (m.target symbol fairValue h)).toUInt32 % symbol.tickSize).toNat : ℤ)
      < symbol.tickSize.toNat := by
    exact_mod_cast UInt32.lt_iff_toNat_lt.mp (UInt32.mod_lt _ symbol.tickSize_pos)
  cases h with
  | buy =>
    set x := m.target symbol fairValue .buy
    have hvalue := hrounded.unique (isGreatest_multiple htick x)
    -- the end of the width has 32 bits, so it was not cut
    have hx : (Int32.ofInt x).toInt = x := Wire.toInt_ofInt_iff.mpr (by omega)
    rw [hx] at hword
    rw [StackManager.sideOf, roundToTickSize_buy, hx] at hprice
    refine ⟨hword.mp ?_, by omega, by omega⟩
    have hrem := eq_of_ofInt (n := x - ((Int32.ofInt x).toUInt32 % symbol.tickSize).toNat)
      (d := ((Int32.ofInt x).toUInt32 % symbol.tickSize).toNat - x % symbol.tickSize.toNat)
      (by omega) (by omega) (by rw [hprice, hvalue]; omega)
    omega
  | sell =>
    set x := m.target symbol fairValue .sell
    have hx_le : x ≤ price.toInt := hrounded.1.2
    have hx : (Int32.ofInt x).toInt = x := Wire.toInt_ofInt_iff.mpr (by omega)
    rw [hx] at hword
    rw [StackManager.sideOf, roundToTickSize_sell, hx] at hprice
    have hnot : ¬ (symbol.tickSize.toNat : ℤ) ∣ x := by
      intro hdvd
      -- a multiple is its own rounding, but the code goes up
      have hvalue := hrounded.unique (isLeast_self hdvd)
      have hrem := eq_of_ofInt
        (n := x + (symbol.tickSize.toNat - ((Int32.ofInt x).toUInt32 % symbol.tickSize).toNat))
        (d := ((Int32.ofInt x).toUInt32 % symbol.tickSize).toNat - symbol.tickSize.toNat)
        (by omega) (by omega) (by rw [hprice, hvalue]; omega)
      omega
    have hvalue := hrounded.unique (isLeast_multiple htick hnot)
    refine ⟨hword.mp ?_, by omega, by omega, hnot⟩
    have hrem := eq_of_ofInt
      (n := x + (symbol.tickSize.toNat - ((Int32.ofInt x).toUInt32 % symbol.tickSize).toNat))
      (d := ((Int32.ofInt x).toUInt32 % symbol.tickSize).toNat - x % symbol.tickSize.toNat)
      (by omega) (by omega) (by rw [hprice, hvalue]; omega)
    omega

/-- The limits of the symbol's prices are multiples of its tick. -/
structure InTicks (symbol : SymbolDefinition) : Prop where
  min : (symbol.tickSize.toNat : ℤ) ∣ symbol.minPrice.toInt
  max : (symbol.tickSize.toNat : ℤ) ∣ symbol.maxPrice.toInt

/-- Multiples that are less than a tick apart come in order. -/
theorem le_of_lt_add_tick {t x y : ℤ} (hx : t ∣ x) (hy : t ∣ y) (hlt : x < y + t) : x ≤ y := by
  by_contra hgt
  have hle := Int.le_of_dvd (by omega) (Int.dvd_sub hx hy)
  omega

/-- The validator accepts a price that is rounded and within the limits, if it is not negative or the tick
divides 2^32. -/
theorem accepted_of_dvd {price : Int32} (hdvd : (symbol.tickSize.toNat : ℤ) ∣ price.toInt)
    (hsign : 0 ≤ price.toInt ∨ (symbol.tickSize.toNat : ℤ) ∣ 2 ^ 32) :
    ∀ v : OrderEntryValidator, v.symbols.lookup symbol.symbol = some symbol →
      ∀ quantity, symbol.Allows quantity price → ∀ orderId side flags,
        v.validateNewOrder orderId symbol.symbol side quantity price flags = .none := by
  intro v hlookup quantity hallows orderId side flags
  rw [OrderEntryValidator.validateNewOrder_eq_none]
  refine ⟨symbol, hlookup, OrderEntryValidator.valid_iff.mpr ⟨hallows, ?_⟩⟩
  rw [Wire.toNat_toUInt32]
  split_ifs with hpos
  · exact hdvd
  · exact Int.dvd_add hdvd (hsign.resolve_left hpos)

/-- **The rounding is right** where the end of the width fits. -/
theorem admissible_of_sideFits (hticks : InTicks symbol) (hfits : m.SideFits symbol fairValue h) :
    m.Admissible symbol fairValue h (m.quotePrice symbol fairValue h) := by
  have htick := tick_pos symbol
  obtain ⟨htargetBuy, htargetSell⟩ := target_bounds m symbol fairValue
  have hminBound := symbol.minPrice.le_toInt
  have hmaxBound := symbol.maxPrice.toInt_lt
  obtain ⟨hsign, hrange⟩ := hfits
  rw [quotePrice_eq]
  have hword := mod_tick_eq_iff (Int32.ofInt (m.target symbol fairValue h)) symbol.tickSize
  cases h with
  | buy =>
    obtain ⟨hlow, hhigh⟩ := hrange
    set x := m.target symbol fairValue .buy
    have hgreatest := isGreatest_multiple htick x
    have hx : (Int32.ofInt x).toInt = x := Wire.toInt_ofInt_iff.mpr (by omega)
    rw [hx] at hword
    -- the lowest price is a multiple, so the rounding does not go below it
    have hmin_le : symbol.minPrice.toInt ≤ x - x % symbol.tickSize.toNat :=
      hgreatest.2 ⟨hticks.min, hlow⟩
    have hle : x - x % symbol.tickSize.toNat ≤ x := hgreatest.1.2
    have hmax_le := le_of_lt_add_tick hgreatest.1.1 hticks.max (by omega)
    rw [StackManager.sideOf, roundToTickSize_buy, hx, hword.mpr hsign]
    have hvalue : (Int32.ofInt (x - x % symbol.tickSize.toNat)).toInt =
        x - x % symbol.tickSize.toNat := Wire.toInt_ofInt_iff.mpr (by omega)
    refine ⟨?_, ?_, ?_, accepted_of_dvd ?_ ?_⟩
    · rw [hvalue]
      exact hgreatest
    · rwa [hvalue]
    · rwa [hvalue]
    · rw [hvalue]
      exact hgreatest.1.1
    · rw [hvalue]
      exact hsign.imp_left fun hx_nonneg => hgreatest.2 ⟨Int.dvd_zero _, hx_nonneg⟩
  | sell =>
    obtain ⟨hlow, hhigh, hnot⟩ := hrange
    set x := m.target symbol fairValue .sell
    have hleast := isLeast_multiple htick hnot
    have hx : (Int32.ofInt x).toInt = x := Wire.toInt_ofInt_iff.mpr (by omega)
    rw [hx] at hword
    -- the highest price is a multiple, so the rounding does not go above it
    have hmax_ge : x + (symbol.tickSize.toNat - x % symbol.tickSize.toNat) ≤ symbol.maxPrice.toInt :=
      hleast.2 ⟨hticks.max, hhigh⟩
    have hle : x ≤ x + (symbol.tickSize.toNat - x % symbol.tickSize.toNat) := hleast.1.2
    have hmin_ge := le_of_lt_add_tick hticks.min hleast.1.1 (by omega)
    rw [StackManager.sideOf, roundToTickSize_sell, hx, hword.mpr hsign]
    have hvalue : (Int32.ofInt (x + (symbol.tickSize.toNat - x % symbol.tickSize.toNat))).toInt =
        x + (symbol.tickSize.toNat - x % symbol.tickSize.toNat) :=
      Wire.toInt_ofInt_iff.mpr (by omega)
    refine ⟨?_, ?_, ?_, accepted_of_dvd ?_ ?_⟩
    · rw [hvalue]
      exact hleast
    · rwa [hvalue]
    · rwa [hvalue]
    · rw [hvalue]
      exact hleast.1.1
    · rw [hvalue]
      exact hsign.imp_left fun hx_nonneg => hx_nonneg.trans hle

/-- **When the price of a side is what it should be**. -/
theorem admissible_iff (hticks : InTicks symbol) :
    m.Admissible symbol fairValue h (m.quotePrice symbol fairValue h) ↔
      m.SideFits symbol fairValue h :=
  ⟨sideFits_of_admissible rfl, admissible_of_sideFits hticks⟩

/-! ## The orders that are sent -/

/-- The prices of the orders that a turn sends are what they should be. -/
def Turn.Right (m : FairValueMarketMaker) (t : Turn) : Prop :=
  ∀ symbol orderId side quantity price flags,
    .sendOrder symbol orderId side quantity price flags ∈ t.calls →
      ∃ h, side = StackManager.sideOf h ∧ m.Admissible t.symbol t.fairValue h price

/-- A side sends an order where it has none, at the price that it is given. -/
theorem mem_calls_quoteSide {symbol : UInt32} {price : Int32} {lastOrderId : UInt32}
    {clock : StackManager.Clock} {s : UInt32} {orderId : UInt64} {side : Side} {quantity : UInt32}
    {price' : Int32} {flags : UInt8} :
    .sendOrder s orderId side quantity price' flags ∈
        (m.quoteSide h symbol price lastOrderId clock).calls ↔
      m.orders h symbol = [] ∧ s = symbol ∧ orderId = lastOrderId.toUInt64 ∧
        side = StackManager.sideOf h ∧ quantity = m.quantity ∧ price' = price ∧ flags = 0 := by
  unfold quoteSide
  cases hback : (m.orders h symbol).getLast? with
  | none =>
    have hnil : m.orders h symbol = [] := List.getLast?_eq_none_iff.mp hback
    simp [hnil]
  | some back =>
    have hne : m.orders h symbol ≠ [] := by
      intro hnil
      rw [hnil] at hback
      cases hback
    dsimp only
    split_ifs <;> simp [hne]

/-- The other side's orders, the width and the symbols stay. -/
theorem quoteSide_keeps (m : FairValueMarketMaker) (symbol : UInt32) (price : Int32)
    (lastOrderId : UInt32) (clock : StackManager.Clock) :
    (∀ h', h' ≠ h → (m.quoteSide h symbol price lastOrderId clock).maker.orders h' = m.orders h') ∧
      (m.quoteSide h symbol price lastOrderId clock).maker.widthInTicks = m.widthInTicks := by
  unfold quoteSide
  cases (m.orders h symbol).getLast? with
  | none =>
    refine ⟨fun h' hne => ?_, by cases h <;> rfl⟩
    cases h <;> cases h' <;> first | rfl | exact absurd rfl hne
  | some back =>
    dsimp only
    split_ifs
    · refine ⟨fun h' hne => ?_, by cases h <;> rfl⟩
      cases h <;> cases h' <;> first | rfl | exact absurd rfl hne
    · exact ⟨fun _ _ => rfl, rfl⟩

/-- **When a turn sends the right prices**: every side without an open order fits. -/
theorem turn_right_iff (hticks : InTicks symbol) {variance : Int32} {r : Reading}
    {lastOrderId : UInt32} {t : Turn} (ht : m.quoteSymbol symbol variance r lastOrderId = some t) :
    t.Right m ↔ ∀ h, m.orders h symbol.symbol = [] → m.SideFits symbol t.fairValue h := by
  obtain ⟨fairValue, -, hturn⟩ := Option.bind_eq_some_iff.mp ht
  obtain ⟨hkept, -⟩ := m.quoteSide_keeps (h := .buy) symbol.symbol
    (m.quotePrice symbol (clamped symbol fairValue) .buy) lastOrderId (r.clock .buy)
  cases hturn
  simp only [Turn.Right, List.mem_append, mem_calls_quoteSide, hkept .sell (by decide)]
  constructor
  · intro hright h hnil
    rw [← admissible_iff hticks]
    cases h with
    | buy =>
      obtain ⟨h', hside, hadm⟩ := hright _ _ _ _ _ _ (Or.inl ⟨hnil, rfl, rfl, rfl, rfl, rfl, rfl⟩)
      cases h' with
      | buy => exact hadm
      | sell => exact absurd hside (by decide)
    | sell =>
      obtain ⟨h', hside, hadm⟩ := hright _ _ _ _ _ _ (Or.inr ⟨hnil, rfl, rfl, rfl, rfl, rfl, rfl⟩)
      cases h' with
      | buy => exact absurd hside (by decide)
      | sell => exact hadm
  · rintro hfits s orderId side quantity price flags
      (⟨hnil, -, -, hside, -, hprice, -⟩ | ⟨hnil, -, -, hside, -, hprice, -⟩)
    · exact ⟨.buy, hside, hprice ▸ (admissible_iff hticks).mpr (hfits .buy hnil)⟩
    · exact ⟨.sell, hside, hprice ▸ (admissible_iff hticks).mpr (hfits .sell hnil)⟩

/-! ## A call -/

/-- **The values for which a call is right**: at every symbol the sums have 32 bits, and a side without an
open order fits. -/
def Fits (readings : ℕ → Reading) :
    ℕ → List (SymbolDefinition × Int32) → FairValueMarketMaker → UInt32 → Prop
  | _, [], _, _ => True
  | i, (symbol, variance) :: symbols, m, lastOrderId =>
    (∃ fairValue, adjusted variance (readings i) = some fairValue ∧
      ∀ h, m.orders h symbol.symbol = [] → m.SideFits symbol (clamped symbol fairValue) h) ∧
    ∀ turn, m.quoteSymbol symbol variance (readings i) lastOrderId = some turn →
      Fits readings (i + 1) symbols turn.maker turn.lastOrderId

section Turn

variable {variance : Int32} {r : Reading} {lastOrderId : UInt32} {t : Turn}

/-- A turn keeps the width. -/
theorem widthInTicks_quoteSymbol (ht : m.quoteSymbol symbol variance r lastOrderId = some t) :
    t.maker.widthInTicks = m.widthInTicks := by
  obtain ⟨fairValue, -, hturn⟩ := Option.bind_eq_some_iff.mp ht
  cases hturn
  dsimp only
  rw [(quoteSide_keeps _ _ _ _ _).2, (quoteSide_keeps _ _ _ _ _).2]

/-- A turn quotes around the adjusted fair value, if there is one. -/
theorem quoteSymbol_eq_some_iff (m : FairValueMarketMaker) (symbol : SymbolDefinition)
    (lastOrderId : UInt32) :
    (∃ t, m.quoteSymbol symbol variance r lastOrderId = some t) ↔
      ∃ fairValue, adjusted variance r = some fairValue := by
  unfold quoteSymbol
  cases adjusted variance r with
  | none => simp
  | some fairValue => simp

theorem fairValue_quoteSymbol {fairValue : Int32} (hfair : adjusted variance r = some fairValue)
    (ht : m.quoteSymbol symbol variance r lastOrderId = some t) :
    t.fairValue = clamped symbol fairValue := by
  unfold quoteSymbol at ht
  rw [hfair] at ht
  cases ht
  rfl

/-- Only the width of the market maker counts for its prices. -/
theorem Turn.right_congr (hwidth : m'.widthInTicks = m.widthInTicks) : t.Right m' ↔ t.Right m := by
  have htarget : m'.target = m.target := by
    funext symbol fairValue h
    cases h with
    | buy => simp only [target, hwidth]
    | sell => simp only [target, hwidth]
  have hadm : ∀ symbol fairValue h price,
      m'.Admissible symbol fairValue h price ↔ m.Admissible symbol fairValue h price := by
    intro symbol fairValue h price
    constructor
    · rintro ⟨hrounded, hlow, hhigh, haccepted⟩
      rw [htarget] at hrounded
      exact ⟨hrounded, hlow, hhigh, haccepted⟩
    · rintro ⟨hrounded, hlow, hhigh, haccepted⟩
      rw [← htarget] at hrounded
      exact ⟨hrounded, hlow, hhigh, haccepted⟩
  simp only [Turn.Right, hadm]

end Turn

/-- The loop is right from a symbol on exactly when the values fit. -/
theorem quoteFrom_right_iff (m₀ : FairValueMarketMaker) (readings : ℕ → Reading)
    (symbols : List (SymbolDefinition × Int32)) (hticks : ∀ s ∈ symbols, InTicks s.1) (i : ℕ)
    (m : FairValueMarketMaker) (lastOrderId : UInt32) (hwidth : m.widthInTicks = m₀.widthInTicks) :
    (∃ turns, quoteFrom readings i symbols m lastOrderId = some turns ∧ ∀ t ∈ turns, t.Right m₀) ↔
      Fits readings i symbols m lastOrderId := by
  -- the market maker changes from turn to turn, its width does not
  induction symbols generalizing i m lastOrderId with
  | nil => simp [quoteFrom, Fits]
  | cons s symbols ih =>
    obtain ⟨symbol, variance⟩ := s
    have hrest : ∀ s ∈ symbols, InTicks s.1 := fun s hs => hticks s (List.mem_cons_of_mem _ hs)
    have hsymbol : InTicks symbol := hticks _ List.mem_cons_self
    simp only [Fits]
    cases hturn : m.quoteSymbol symbol variance (readings i) lastOrderId with
    | none =>
      -- an overflow ends the loop
      refine iff_of_false ?_ ?_
      · rintro ⟨turns, hturns, -⟩
        simp only [quoteFrom, hturn] at hturns
        cases hturns
      · rintro ⟨⟨fairValue, hfair, -⟩, -⟩
        obtain ⟨t, ht⟩ := (quoteSymbol_eq_some_iff m symbol lastOrderId).mpr ⟨fairValue, hfair⟩
        rw [hturn] at ht
        cases ht
    | some turn =>
      obtain ⟨fairValue, hfair⟩ := (quoteSymbol_eq_some_iff _ _ _).mp ⟨turn, hturn⟩
      have hright := turn_right_iff hsymbol hturn
      rw [fairValue_quoteSymbol hfair hturn, ← Turn.right_congr hwidth.symm] at hright
      have htail := ih hrest (i + 1) turn.maker turn.lastOrderId
        ((widthInTicks_quoteSymbol hturn).trans hwidth)
      constructor
      · rintro ⟨turns, hturns, hall⟩
        simp only [quoteFrom, hturn, Option.bind_eq_bind, Option.bind_some] at hturns
        obtain ⟨turns', hturns', heq⟩ := Option.bind_eq_some_iff.mp hturns
        cases heq
        refine ⟨⟨fairValue, hfair, hright.mp (hall _ List.mem_cons_self)⟩, ?_⟩
        intro t ht
        cases ht
        exact htail.mp ⟨turns', hturns', fun t ht => hall t (List.mem_cons_of_mem _ ht)⟩
      · rintro ⟨⟨fairValue', hfair', hsides⟩, hlater⟩
        rw [hfair, Option.some.injEq] at hfair'
        subst hfair'
        obtain ⟨turns, hturns, hall⟩ := htail.mpr (hlater turn rfl)
        refine ⟨turn :: turns, ?_, List.forall_mem_cons.mpr ⟨hright.mpr hsides, hall⟩⟩
        simp only [quoteFrom, hturn, hturns, Option.bind_eq_bind, Option.bind_some]

/-- **When a call sends the right prices**: for symbols whose limits are multiples of their ticks, exactly
when the values fit at every one of them. -/
theorem right_iff (m : FairValueMarketMaker) (readings : ℕ → Reading) (lastOrderId : UInt32)
    (hticks : ∀ s ∈ m.symbols, InTicks s.1) :
    (∃ turns, m.process readings lastOrderId = some turns ∧ ∀ t ∈ turns, t.Right m) ↔
      Fits readings 0 m.symbols m lastOrderId :=
  quoteFrom_right_iff m readings m.symbols hticks 0 m lastOrderId rfl

/-- A market maker that quotes two ticks around 1000, with a tick of 10. -/
def twoTicks : FairValueMarketMaker :=
  ⟨[(StackManager.tenTicks, 0)], 2, 10, 0, fun _ => [], fun _ => []⟩

theorem inTicks_twoTicks : ∀ s ∈ twoTicks.symbols, InTicks s.1 := by
  intro s hs
  rw [List.mem_singleton.mp hs]
  exact ⟨by decide, by decide⟩

theorem right_iff_twoTicks :
    (∃ turns, twoTicks.process (fun _ => ⟨1005, 0, fun _ => ⟨1, 1⟩⟩) 1 = some turns ∧
        ∀ t ∈ turns, t.Right twoTicks) ↔
      Fits (fun _ => ⟨1005, 0, fun _ => ⟨1, 1⟩⟩) 0 twoTicks.symbols twoTicks 1 :=
  right_iff twoTicks _ 1 inTicks_twoTicks

/-- A fair value of 1000: the ask is a tick too high, at 1030. The prices range over more than a thousand
widths. -/
theorem not_right_of_inTicks :
    ¬ ∀ (m : FairValueMarketMaker) (readings : ℕ → Reading) (lastOrderId : UInt32),
      (∀ s ∈ m.symbols, InTicks s.1 ∧
        1000 * (m.widthInTicks.toNat * s.1.tickSize.toNat : ℤ) ≤
          s.1.maxPrice.toInt - s.1.minPrice.toInt) →
      ∃ turns, m.process readings lastOrderId = some turns ∧ ∀ t ∈ turns, t.Right m := by
  intro h
  obtain ⟨turns, hturns, hright⟩ := h twoTicks (fun _ => ⟨1000, 0, fun _ => ⟨1, 1⟩⟩) 1 (by
    intro s hs
    rw [List.mem_singleton.mp hs]
    exact ⟨⟨by decide, by decide⟩, by decide⟩)
  have hsent : (twoTicks.process (fun _ => ⟨1000, 0, fun _ => ⟨1, 1⟩⟩) 1).map
      (fun turns => turns.map fun t => (t.symbol, t.fairValue, t.calls)) =
        some [(StackManager.tenTicks, 1000,
          [.sendOrder 1 1 .buy 10 980 0, .sendOrder 1 2 .sell 10 1030 0])] := by
    rfl
  rw [hturns, Option.map_some, Option.some.injEq] at hsent
  obtain ⟨t, ht, hdata⟩ := List.mem_map.mp (hsent ▸ List.mem_singleton_self _)
  obtain ⟨hsymbol, hfair, hcalls⟩ := by simpa only [Prod.mk.injEq] using hdata
  have hask : OeCall.sendOrder 1 2 .sell 10 1030 0 ∈ t.calls := by
    rw [hcalls]
    exact List.mem_cons_of_mem _ List.mem_cons_self
  obtain ⟨side, hside, hadm⟩ := hright t ht _ _ _ _ _ _ hask
  rw [hsymbol, hfair] at hadm
  cases side with
  | buy => exact absurd hside (by decide)
  | sell =>
    -- 1020 is a multiple of the tick at the end of the width
    have hle := hadm.rounded.2 (show (1020 : ℤ) ∈ _ from ⟨by decide, by decide⟩)
    revert hle
    decide

end FairValueMarketMaker

end Ndfex.Bots
