import Mathlib.Data.List.AList
import Mathlib.Data.List.Induction
import Ndfex.Protocol.OrderEntry
import Ndfex.Wire.Integers

/-!
# The order-entry validator

`OrderEntryValidator::validate_new_order`: the checks an order passes before the server forwards
it. The id, the side and the flags are not checked.

## Main definitions

* `SymbolDefinition`: the ticks, lots and limits of a symbol
* `OrderEntryValidator.validateNewOrder`: the checks
* `OrderEntryValidator.Specified`: what the checks are for, with divisibility among the integers

## Main results

* `OrderEntryValidator.validateNewOrder_eq_none`: the orders that pass
* `validation_exact`: when these are the ones that are meant
* `validation_unsigned`: a tick of 20 and two negative prices
-/

namespace Ndfex

/-- `symbol_definition`. The checks divide by the tick and by the lot, which no definition of the
exchange leaves zero. -/
structure SymbolDefinition where
  symbol : UInt32
  tickSize : UInt32
  minLotSize : UInt32
  maxLotSize : UInt32
  maxPrice : Int32
  minPrice : Int32
  tickSize_pos : 0 < tickSize
  minLotSize_pos : 0 < minLotSize

/-- `OrderEntryValidator`. -/
structure OrderEntryValidator where
  symbols : AList fun _ : UInt32 => SymbolDefinition

namespace OrderEntryValidator

/-- The validator of a list of symbols; a later definition replaces an earlier one. -/
def ofSymbols (symbols : List SymbolDefinition) : OrderEntryValidator :=
  ⟨symbols.foldl (fun m d => m.insert d.symbol d) ∅⟩

/-- `OrderEntryValidator::validate_new_order`. -/
def validateNewOrder (v : OrderEntryValidator) (_orderId : UInt64) (symbol : UInt32) (_side : Side)
    (quantity : UInt32) (price : Int32) (_flags : UInt8) : RejectReason :=
  match v.symbols.lookup symbol with
  | none => .unknownSymbol
  | some d =>
    if quantity % d.minLotSize ≠ 0 then .invalidQuantity
    -- the remainder of a signed price by an unsigned tick is taken unsigned
    else if price.toUInt32 % d.tickSize ≠ 0 then .invalidPrice
    else if quantity > d.maxLotSize then .invalidQuantity
    else if price > d.maxPrice ∨ price < d.minPrice then .invalidPrice
    else if quantity = 0 then .invalidQuantity
    else .none

/-- The validator knows the symbol. -/
def Knows (v : OrderEntryValidator) (symbol : UInt32) : Prop := (v.symbols.lookup symbol).isSome

/-- An order that passes has a known symbol, whole lots and ticks, and a quantity and a price in
range. -/
structure Valid (d : SymbolDefinition) (quantity : UInt32) (price : Int32) : Prop where
  lots : quantity % d.minLotSize = 0
  ticks : price.toUInt32 % d.tickSize = 0
  quantity_pos : 0 < quantity
  quantity_le : quantity ≤ d.maxLotSize
  price_le : price ≤ d.maxPrice
  le_price : d.minPrice ≤ price

variable {v : OrderEntryValidator} {orderId : UInt64} {symbol : UInt32} {side : Side}
  {quantity : UInt32} {price : Int32} {flags : UInt8}

/-- **The orders that pass** are the valid ones, whatever their id, side and flags. -/
theorem validateNewOrder_eq_none :
    v.validateNewOrder orderId symbol side quantity price flags = .none ↔
      ∃ d, v.symbols.lookup symbol = some d ∧ Valid d quantity price := by
  unfold validateNewOrder
  cases hd : v.symbols.lookup symbol with
  | none => simp
  | some d =>
    simp only [Option.some.injEq, exists_eq_left']
    constructor
    · intro h
      split_ifs at h with hlots hticks hle hrange hzero
      rw [not_or] at hrange
      exact
        { lots := not_not.mp hlots
          ticks := not_not.mp hticks
          quantity_pos := UInt32.pos_iff_ne_zero.mpr hzero
          quantity_le := UInt32.not_lt.mp hle
          price_le := Int32.not_lt.mp hrange.1
          le_price := Int32.not_lt.mp hrange.2 }
    · intro h
      rw [if_neg (not_not.mpr h.lots), if_neg (not_not.mpr h.ticks),
        if_neg (UInt32.not_lt.mpr h.quantity_le), if_neg, if_neg]
      · exact UInt32.pos_iff_ne_zero.mp h.quantity_pos
      · rw [not_or]
        exact ⟨Int32.not_lt.mpr h.price_le, Int32.not_lt.mpr h.le_price⟩

/-- The symbols that the validator knows are those of its definitions. -/
theorem knows_ofSymbols {symbols : List SymbolDefinition} :
    (ofSymbols symbols).Knows symbol ↔ symbol ∈ symbols.map SymbolDefinition.symbol := by
  unfold ofSymbols Knows
  induction symbols using List.reverseRecOn with
  | nil => simp
  | append_singleton symbols d ih =>
    rw [List.foldl_append, List.map_append, List.mem_append, List.map_singleton,
      List.mem_singleton, ← ih]
    by_cases hs : symbol = d.symbol
    · rw [hs]
      simp [AList.lookup_insert]
    · simp only [List.foldl_cons, List.foldl_nil]
      rw [AList.lookup_insert_ne hs]
      simp [hs]

/-! ### What the checks are for -/

end OrderEntryValidator

/-- Quantity and price are within the limits of a symbol, and the quantity is in whole lots. -/
structure SymbolDefinition.Allows (d : SymbolDefinition) (quantity : UInt32) (price : Int32) :
    Prop where
  quantity_pos : 0 < quantity.toNat
  quantity_le : quantity.toNat ≤ d.maxLotSize.toNat
  lots : d.minLotSize.toNat ∣ quantity.toNat
  le_price : d.minPrice.toInt ≤ price.toInt
  price_le : price.toInt ≤ d.maxPrice.toInt

namespace OrderEntryValidator

/-- The symbol is listed, the limits allow quantity and price, and the price is in whole ticks. -/
def Specified (v : OrderEntryValidator) (symbol quantity : UInt32) (price : Int32) : Prop :=
  ∃ d, v.symbols.lookup symbol = some d ∧ d.Allows quantity price ∧
    (d.tickSize.toNat : ℤ) ∣ price.toInt

theorem mod_eq_zero_iff {n d : UInt32} : n % d = 0 ↔ d.toNat ∣ n.toNat := by
  rw [Nat.dvd_iff_mod_eq_zero, ← UInt32.toNat_mod, ← UInt32.toNat_zero, UInt32.toNat_inj]

/-- The checks are the limits, and a tick that divides the price as an unsigned number. -/
theorem valid_iff {d : SymbolDefinition} :
    Valid d quantity price ↔
      d.Allows quantity price ∧ (d.tickSize.toNat : ℤ) ∣ (price.toUInt32.toNat : ℤ) := by
  rw [Int.natCast_dvd_natCast]
  constructor
  · intro h
    exact
      ⟨{  quantity_pos := UInt32.lt_iff_toNat_lt.mp h.quantity_pos
          quantity_le := UInt32.le_iff_toNat_le.mp h.quantity_le
          lots := mod_eq_zero_iff.mp h.lots
          le_price := Int32.le_iff_toInt_le.mp h.le_price
          price_le := Int32.le_iff_toInt_le.mp h.price_le }, mod_eq_zero_iff.mp h.ticks⟩
  · rintro ⟨h, hticks⟩
    exact
      { lots := mod_eq_zero_iff.mpr h.lots
        ticks := mod_eq_zero_iff.mpr hticks
        quantity_pos := UInt32.lt_iff_toNat_lt.mpr h.quantity_pos
        quantity_le := UInt32.le_iff_toNat_le.mpr h.quantity_le
        price_le := Int32.le_iff_toInt_le.mpr h.price_le
        le_price := Int32.le_iff_toInt_le.mpr h.le_price }

/-- **Two divisions**: a tick divides a price and the unsigned number of its bits alike if the price is
not negative, if it divides 2^32, or if it divides neither of the two. -/
theorem dvd_toUInt32_iff (tick : ℤ) (price : Int32) :
    (tick ∣ (price.toUInt32.toNat : ℤ) ↔ tick ∣ price.toInt) ↔
      0 ≤ price.toInt ∨ tick ∣ 2 ^ 32 ∨ ¬ tick ∣ price.toInt ∧ ¬ tick ∣ price.toInt + 2 ^ 32 := by
  rw [Wire.toNat_toUInt32]
  split_ifs with hsign
  · exact iff_of_true Iff.rfl (Or.inl hsign)
  rw [or_iff_right hsign]
  constructor
  · intro h
    by_cases hprice : tick ∣ price.toInt
    · exact Or.inl ((Int.dvd_add_right hprice).mp (h.mpr hprice))
    · exact Or.inr ⟨hprice, fun hbits => hprice (h.mp hbits)⟩
  · rintro (hword | ⟨hprice, hbits⟩)
    · exact Int.dvd_add_left hword
    · exact iff_of_false hbits hprice

end OrderEntryValidator

/-- **When validation is exact**: it accepts what it should and nothing else, unless an order that is
otherwise fine has a negative price, and its tick divides the price or the price and 2^32, but not
both. -/
theorem validation_exact (v : OrderEntryValidator) (orderId : UInt64) (symbol : UInt32) (side : Side)
    (quantity : UInt32) (price : Int32) (flags : UInt8) :
    (v.validateNewOrder orderId symbol side quantity price flags = .none ↔
        v.Specified symbol quantity price) ↔
      ∀ d, v.symbols.lookup symbol = some d → d.Allows quantity price →
        0 ≤ price.toInt ∨ (d.tickSize.toNat : ℤ) ∣ 2 ^ 32 ∨
          ¬ (d.tickSize.toNat : ℤ) ∣ price.toInt ∧ ¬ (d.tickSize.toNat : ℤ) ∣ price.toInt + 2 ^ 32 := by
  rw [OrderEntryValidator.validateNewOrder_eq_none, OrderEntryValidator.Specified]
  simp only [OrderEntryValidator.valid_iff]
  cases hd : v.symbols.lookup symbol with
  | none => simp
  | some d =>
    simp only [Option.some.injEq, exists_eq_left', forall_eq']
    by_cases hallows : d.Allows quantity price
    · rw [and_iff_right hallows, and_iff_right hallows, forall_prop_of_true hallows]
      exact OrderEntryValidator.dvd_toUInt32_iff _ price
    · exact iff_of_true (iff_of_false (fun h => hallows h.1) fun h => hallows h.1)
        fun h => absurd h hallows

/-- The exchange's tests have this symbol: -100 is in whole ticks and rejected, -96 is not and
accepted. -/
theorem validation_unsigned :
    let d : SymbolDefinition := ⟨2, 20, 5, 50, 2000, -100, by decide, by decide⟩
    let v := OrderEntryValidator.ofSymbols [d]
    v.validateNewOrder 1 2 Side.buy 5 (-100) 0 = .invalidPrice ∧ v.Specified 2 5 (-100) ∧
      v.validateNewOrder 1 2 Side.buy 5 (-96) 0 = .none ∧ ¬ v.Specified 2 5 (-96) := by
  intro d v
  have hlookup : v.symbols.lookup 2 = some d := by rfl
  refine ⟨by decide, ⟨d, hlookup, ⟨?_, ?_, ?_, ?_, ?_⟩, by decide⟩, by decide, ?_⟩
  · decide
  · decide
  · decide
  · decide
  · decide
  · rintro ⟨d', hd', -, hticks⟩
    obtain rfl := Option.some.inj (hlookup.symm.trans hd')
    exact absurd hticks (by decide)

end Ndfex
