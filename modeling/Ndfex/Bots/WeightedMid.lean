import Ndfex.Bots.BestPrices
import Ndfex.Numeric.Binary64
import Ndfex.OrderEntry.Validator

/-!
# The weighted mid

`FairValueStackingMarketMaker::process` up to the call of its stack manager: the guards, the mid of the
best prices weighted by the quantities, and its rounding to a tick. The products and sums of the weighted
mid are unsigned numbers of 32 bits, because the quantities are; only their quotient is a `double`.

## Main definitions

* `FairValueStackingMarketMaker.wmidPrice`, `FairValueStackingMarketMaker.wmidRounded`: the weighted mid
* `FairValueStackingMarketMaker.process`: what a call comes to
* `FairValueStackingMarketMaker.Guarded`: the quotes of an uncrossed market in the exchange's range
* `FairValueStackingMarketMaker.WeightsFit`: the sums and products do no harm modulo 2^32

## Main results

* `FairValueStackingMarketMaker.weightsFit_of_lt`: they do none when the weighted sum has 32 bits
* `FairValueStackingMarketMaker.inside_iff`: when the weighted mid is inside the market
-/

namespace Ndfex.Bots

open Numeric

namespace FairValueStackingMarketMaker

/-! ## The code -/

/-- How a call of `process` ends: with a warning, with a quotient that has no value, or with the call of
`StackManager::process` on these prices. -/
inductive Outcome
  | warned (text : String)
  | divisionByZero
  | castUndefined
  | stacked (fairValue bidPrice askPrice : Int32)
deriving DecidableEq, Repr

/-- `wmid_price`, which is a natural number before it is a `double`. The signed prices become unsigned in
the products. -/
def wmidPrice (bestBid bestAsk : OrderBook.PriceLevel) : Option UInt32 :=
  let weight := bestBid.quantity + bestAsk.quantity
  if weight = 0 then none
  else
    some ((bestBid.price.toUInt32 * bestAsk.quantity + bestAsk.price.toUInt32 * bestBid.quantity) /
      weight)

/-- `static_cast<int32_t>` of a `double` that is not negative. It has no value beyond the range. -/
def castInt32 (x : ℚ) : Option Int32 := if ⌊x⌋ < 2 ^ 31 then some (Int32.ofInt ⌊x⌋) else none

/-- `wmid_rounded`. The product with the tick is unsigned again. -/
def wmidRounded (tickSize wmidPrice : UInt32) : Option Int32 :=
  (castInt32 (toBinary64 ((wmidPrice.toNat : ℚ) / tickSize.toNat))).map fun ticks =>
    (ticks.toUInt32 * tickSize).toInt32

/-- `FairValueStackingMarketMaker::process`, with the best prices that it reads. -/
def process (symbol : SymbolDefinition) (bestBid bestAsk : OrderBook.PriceLevel) : Outcome :=
  if bestBid.price = 0 ∨ bestAsk.price = 0 then .warned "Best bid or ask price is zero"
  else if bestBid.price ≥ bestAsk.price then
    .warned "Best bid price is greater than or equal to best ask price"
  else if bestBid.quantity = 0 ∨ bestAsk.quantity = 0 then .warned "Best bid or ask quantity is zero"
  else
    match wmidPrice bestBid bestAsk with
    | none => .divisionByZero
    | some wmid =>
      match wmidRounded symbol.tickSize wmid with
      | none => .castUndefined
      | some wmidRounded => .stacked wmidRounded bestBid.price bestAsk.price

/-! ## The rounding to a tick -/

/-- **Rounding a price to a tick**: the quotient is a `double`, and still its integer part is the one of
the numbers. -/
theorem wmidRounded_eq {tickSize wmid : UInt32} (htick : 0 < tickSize) (hwmid : wmid.toNat < 2 ^ 31) :
    ∃ fairValue, wmidRounded tickSize wmid = some fairValue ∧
      fairValue.toInt = (wmid.toNat / tickSize.toNat * tickSize.toNat : ℕ) := by
  have htick' : 0 < tickSize.toNat := UInt32.lt_iff_toNat_lt.mp htick
  have hquotient : wmid.toNat / tickSize.toNat ≤ wmid.toNat := Nat.div_le_self _ _
  have hfloor := floor_toBinary64_div (wmid.toNat_lt.trans (by norm_num)) htick'
  have hproduct : wmid.toNat / tickSize.toNat * tickSize.toNat ≤ wmid.toNat := Nat.div_mul_le_self _ _
  rw [wmidRounded, castInt32, hfloor, if_pos (by exact_mod_cast hquotient.trans_lt hwmid)]
  refine ⟨_, rfl, ?_⟩
  dsimp only
  -- the product is no larger than the price, so it is neither cut nor negative
  have hticks : (Int32.ofInt ((wmid.toNat / tickSize.toNat : ℕ) : ℤ)).toUInt32 * tickSize =
      UInt32.ofInt ((wmid.toNat / tickSize.toNat * tickSize.toNat : ℕ) : ℤ) := by
    rw [Wire.toUInt32_ofInt, Nat.cast_mul, UInt32.ofInt_mul, Wire.ofInt_toNat]
  rw [hticks, Wire.toInt32_ofInt, Wire.toInt_ofInt_iff]
  constructor
  · exact le_trans (by norm_num) (Int.natCast_nonneg _)
  · exact_mod_cast hproduct.trans_lt hwmid

/-! ## The bounds -/

/-- The quotes pass the guards and are in the range of the exchange's prices. -/
structure Guarded (bestBid bestAsk : OrderBook.PriceLevel) : Prop where
  bid_pos : 0 < bestBid.price.toInt
  bid_lt_ask : bestBid.price.toInt < bestAsk.price.toInt
  ask_le : bestAsk.price.toInt ≤ 10000000
  bid_quantity : bestBid.quantity ≠ 0
  ask_quantity : bestAsk.quantity ≠ 0

/-- **The weighted mid is inside the market**, and what the stack manager gets is within a tick of it. -/
def Inside (symbol : SymbolDefinition) (bestBid bestAsk : OrderBook.PriceLevel) : Prop :=
  (∃ wmid, wmidPrice bestBid bestAsk = some wmid ∧ bestBid.price.toInt ≤ wmid.toNat ∧
    (wmid.toNat : ℤ) ≤ bestAsk.price.toInt) ∧
  ∃ fairValue, process symbol bestBid bestAsk = .stacked fairValue bestBid.price bestAsk.price ∧
    bestBid.price.toInt - symbol.tickSize.toNat < fairValue.toInt ∧
      fairValue.toInt < bestAsk.price.toInt + symbol.tickSize.toNat

variable {symbol : SymbolDefinition} {bestBid bestAsk : OrderBook.PriceLevel}

/-- The fair value of a weighted mid that is inside the market. -/
theorem inside_of_wmidPrice (h : Guarded bestBid bestAsk) {wmid : UInt32}
    (hwmid : wmidPrice bestBid bestAsk = some wmid) (hbid : bestBid.price.toInt ≤ wmid.toNat)
    (hask : (wmid.toNat : ℤ) ≤ bestAsk.price.toInt) : Inside symbol bestBid bestAsk := by
  have hle := h.ask_le
  have hbound : wmid.toNat < 2 ^ 31 := by omega
  obtain ⟨fairValue, hrounded, hvalue⟩ := wmidRounded_eq symbol.tickSize_pos hbound
  refine ⟨⟨wmid, hwmid, hbid, hask⟩, fairValue, ?_, ?_, ?_⟩
  · -- the guards let the quotes pass
    have hbid_ne : ¬ (bestBid.price = 0 ∨ bestAsk.price = 0) := by
      have hpos := h.bid_pos
      have hlt := h.bid_lt_ask
      rw [← Int32.toInt_inj, ← Int32.toInt_inj, Int32.toInt_zero]
      omega
    have hcrossed : ¬ bestBid.price ≥ bestAsk.price :=
      Int32.not_le.mpr (Int32.lt_iff_toInt_lt.mpr h.bid_lt_ask)
    have hquantity : ¬ (bestBid.quantity = 0 ∨ bestAsk.quantity = 0) :=
      not_or.mpr ⟨h.bid_quantity, h.ask_quantity⟩
    simp only [process, if_neg hbid_ne, if_neg hcrossed, if_neg hquantity, hwmid, hrounded]
  all_goals
    have htick : 0 < symbol.tickSize.toNat := UInt32.lt_iff_toNat_lt.mp symbol.tickSize_pos
    have hdown := Nat.div_add_mod' wmid.toNat symbol.tickSize.toNat
    have hrest := Nat.mod_lt wmid.toNat htick
    rw [hvalue]
    omega

/-- **The sums and products do no harm**: the unsigned weight is not zero, and the weight of the bid and
the product of the spread with the bid's quantity, which may have lost multiples of 2^32, are small
enough together. -/
def WeightsFit (bestBid bestAsk : OrderBook.PriceLevel) : Prop :=
  let bid := bestBid.price.toInt.toNat
  let spread := (bestAsk.price.toInt - bestBid.price.toInt).toNat
  let weight := (bestBid.quantity.toNat + bestAsk.quantity.toNat) % 2 ^ 32
  let excess := spread * bestBid.quantity.toNat % 2 ^ 32
  weight ≠ 0 ∧ bid * weight + excess < 2 ^ 32 ∧ excess < (spread + 1) * weight

instance : Decidable (WeightsFit bestBid bestAsk) := by
  unfold WeightsFit
  infer_instance

/-- A weighted mean modulo 2^32 lies between its numbers when the sums do no harm. -/
theorem mean_between_iff (bid spread : ℕ) {x y : ℕ} (hweight : (x + y) % 2 ^ 32 ≠ 0) :
    let mean := (bid * y + (bid + spread) * x) % 2 ^ 32 / ((x + y) % 2 ^ 32)
    bid ≤ mean ∧ mean ≤ bid + spread ↔
      bid * ((x + y) % 2 ^ 32) + spread * x % 2 ^ 32 < 2 ^ 32 ∧
        spread * x % 2 ^ 32 < (spread + 1) * ((x + y) % 2 ^ 32) := by
  -- the sum is the weight of the bid and the excess of the ask over it
  have hsum : (bid * y + (bid + spread) * x) % 2 ^ 32 =
      (bid * ((x + y) % 2 ^ 32) + spread * x % 2 ^ 32) % 2 ^ 32 := by
    have hsplit : bid * y + (bid + spread) * x = bid * (x + y) + spread * x := by ring
    rw [hsplit, Nat.add_mod, Nat.mul_mod]
    conv_rhs => rw [Nat.add_mod, Nat.mod_mod, Nat.mul_mod, Nat.mod_mod]
  dsimp only
  rw [hsum]
  have hexcess : spread * x % 2 ^ 32 < 2 ^ 32 := Nat.mod_lt _ (by norm_num)
  generalize spread * x % 2 ^ 32 = excess at hexcess ⊢
  have hpos := Nat.pos_of_ne_zero hweight
  generalize (x + y) % 2 ^ 32 = weight at hpos ⊢
  have hmax : (bid + spread + 1) * weight = bid * weight + (spread + 1) * weight := by ring
  have hupper : ∀ n, n / weight ≤ bid + spread ↔ n < bid * weight + (spread + 1) * weight := by
    intro n
    rw [← hmax, ← Nat.div_lt_iff_lt_mul hpos, Nat.lt_succ_iff]
  rw [Nat.le_div_iff_mul_le hpos, hupper]
  generalize bid * weight = low
  generalize (spread + 1) * weight = high
  constructor
  · rintro ⟨hlow, hhigh⟩
    -- a sum that reached 2^32 would be less than its first part
    have hfits : low + excess < 2 ^ 32 := by omega
    rw [Nat.mod_eq_of_lt hfits] at hhigh
    omega
  · rintro ⟨hfits, hhigh⟩
    rw [Nat.mod_eq_of_lt hfits]
    omega

/-- The weighted mid of guarded quotes, in natural numbers. -/
theorem wmidPrice_eq (h : Guarded bestBid bestAsk) :
    let bid := bestBid.price.toInt.toNat
    let ask := bestAsk.price.toInt.toNat
    let weight := (bestBid.quantity.toNat + bestAsk.quantity.toNat) % 2 ^ 32
    (weight = 0 → wmidPrice bestBid bestAsk = none) ∧
      (weight ≠ 0 → ∃ wmid, wmidPrice bestBid bestAsk = some wmid ∧ wmid.toNat =
        (bid * bestAsk.quantity.toNat + ask * bestBid.quantity.toNat) % 2 ^ 32 / weight) := by
  have hbid := Wire.toNat_toUInt32 bestBid.price
  have hask := Wire.toNat_toUInt32 bestAsk.price
  have hpos := h.bid_pos
  have hlt := h.bid_lt_ask
  rw [if_pos (by omega)] at hbid hask
  have hbid' : bestBid.price.toUInt32.toNat = bestBid.price.toInt.toNat := by omega
  have hask' : bestAsk.price.toUInt32.toNat = bestAsk.price.toInt.toNat := by omega
  have hweight : bestBid.quantity + bestAsk.quantity = 0 ↔
      (bestBid.quantity.toNat + bestAsk.quantity.toNat) % 2 ^ 32 = 0 := by
    rw [← UInt32.toNat_inj, UInt32.toNat_add, UInt32.toNat_zero]
  dsimp only [wmidPrice]
  constructor
  · intro hzero
    rw [if_pos (hweight.mpr hzero)]
  · intro hne
    rw [if_neg (hweight.not.mpr hne)]
    refine ⟨_, rfl, ?_⟩
    rw [UInt32.toNat_div, UInt32.toNat_add, UInt32.toNat_mul, UInt32.toNat_mul, UInt32.toNat_add,
      hbid', hask', ← Nat.add_mod]

/-- **When the weighted mid is inside the market**: for the quotes that pass the guards, exactly when the
sums and products do no harm. -/
theorem inside_iff (h : Guarded bestBid bestAsk) :
    Inside symbol bestBid bestAsk ↔ WeightsFit bestBid bestAsk := by
  have hpos := h.bid_pos
  have hlt := h.bid_lt_ask
  obtain ⟨hnone, hsome⟩ := wmidPrice_eq h
  have hspread : bestAsk.price.toInt.toNat =
      bestBid.price.toInt.toNat + (bestAsk.price.toInt - bestBid.price.toInt).toNat := by omega
  rw [hspread] at hsome
  dsimp only [WeightsFit]
  by_cases hweight : (bestBid.quantity.toNat + bestAsk.quantity.toNat) % 2 ^ 32 = 0
  · -- the division has no value
    refine iff_of_false ?_ fun hfit => hfit.1 hweight
    rintro ⟨⟨wmid, hwmid, -⟩, -⟩
    rw [hnone hweight] at hwmid
    cases hwmid
  obtain ⟨wmid, hwmid, hvalue⟩ := hsome hweight
  have hbetween := mean_between_iff bestBid.price.toInt.toNat
    (bestAsk.price.toInt - bestBid.price.toInt).toNat hweight
  dsimp only at hbetween
  rw [← hvalue] at hbetween
  constructor
  · rintro ⟨⟨wmid', hwmid', hbid, hask⟩, -⟩
    rw [hwmid, Option.some.injEq] at hwmid'
    subst hwmid'
    exact ⟨hweight, hbetween.mp ⟨by omega, by omega⟩⟩
  · rintro ⟨-, hfits⟩
    have hinside := hbetween.mpr hfits
    exact inside_of_wmidPrice h hwmid (by omega) (by omega)

/-- The sums and products do no harm when the weighted sum itself has 32 bits. -/
theorem weightsFit_of_lt (h : Guarded bestBid bestAsk)
    (hsum : bestBid.price.toInt.toNat * bestAsk.quantity.toNat +
      bestAsk.price.toInt.toNat * bestBid.quantity.toNat < 2 ^ 32) : WeightsFit bestBid bestAsk := by
  have hpos := h.bid_pos
  have hlt := h.bid_lt_ask
  have hspread : bestAsk.price.toInt.toNat =
      bestBid.price.toInt.toNat + (bestAsk.price.toInt - bestBid.price.toInt).toNat := by omega
  have hbid_pos : 0 < bestBid.price.toInt.toNat := by omega
  have hquantity : 0 < bestBid.quantity.toNat :=
    UInt32.lt_iff_toNat_lt.mp (UInt32.pos_iff_ne_zero.mpr h.bid_quantity)
  rw [hspread] at hsum
  dsimp only [WeightsFit]
  generalize bestBid.price.toInt.toNat = bid at hsum hbid_pos ⊢
  generalize (bestAsk.price.toInt - bestBid.price.toInt).toNat = spread at hsum ⊢
  generalize bestBid.quantity.toNat = x at hsum hquantity ⊢
  generalize bestAsk.quantity.toNat = y at hsum ⊢
  have hsplit : bid * y + (bid + spread) * x = bid * (x + y) + spread * x := by ring
  have hweight_le : x + y ≤ bid * (x + y) := Nat.le_mul_of_pos_left _ hbid_pos
  have hexcess_le : spread * x ≤ spread * (x + y) := Nat.mul_le_mul_left _ (by omega)
  have hmax : (spread + 1) * (x + y) = spread * (x + y) + (x + y) := by ring
  rw [Nat.mod_eq_of_lt (show x + y < 2 ^ 32 by omega),
    Nat.mod_eq_of_lt (show spread * x < 2 ^ 32 by omega)]
  omega

/-- A bid of 10 at 100 and an ask of 30 at 103. -/
theorem inside_iff_hundred :
    Inside ⟨1, 1, 1, 100, 1000, 0, by decide, by decide⟩ ⟨100, 10⟩ ⟨103, 30⟩ ↔
      WeightsFit ⟨100, 10⟩ ⟨103, 30⟩ :=
  inside_iff ⟨by decide, by decide, by decide, by decide, by decide⟩

/-- A bid of 10 at 1000000 and an ask of 5000 at 1000010: the weighted sum exceeds 32 bits, and the
weighted mid comes out as 142721. -/
theorem not_inside_of_guarded :
    ¬ ∀ (symbol : SymbolDefinition) (bestBid bestAsk : OrderBook.PriceLevel),
      Guarded bestBid bestAsk → Inside symbol bestBid bestAsk := by
  intro h
  have hguarded : Guarded ⟨1000000, 10⟩ ⟨1000010, 5000⟩ :=
    ⟨by decide, by decide, by decide, by decide, by decide⟩
  have hinside := h ⟨1, 10, 1, 100, 10000000, 0, by decide, by decide⟩ _ _ hguarded
  obtain ⟨wmid, hwmid, hbid, -⟩ := hinside.1
  have hvalue : wmidPrice ⟨1000000, 10⟩ ⟨1000010, 5000⟩ = some 142721 := by decide
  rw [hvalue, Option.some.injEq] at hwmid
  subst hwmid
  revert hbid
  decide

end FairValueStackingMarketMaker

end Ndfex.Bots
