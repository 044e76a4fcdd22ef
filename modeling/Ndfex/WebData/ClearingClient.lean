import Ndfex.Containers.NestedMap
import Ndfex.MatchingEngine.Clearing
import Ndfex.MatchingEngine.WireClearing
import Ndfex.Wire.Integers

/-!
# The clearing client of the web data

`web_data/clearing_client.cpp`: positions, volumes and cash flows by client and symbol, in numbers of 32
bits. What they should be, they are modulo 2^32. The last number that was taken has 64 bits, those of
the messages have 32, so no message follows the one with the greatest number.

## Main definitions

* `WebData.ClearingClient`, `WebData.ClearingClient.process`: the client, and a datagram
* `WebData.ClearingClient.Holds`: the client holds what some fills add up to, modulo 2^32
* `WebData.ClearingClient.counted`: how many datagrams the client takes

## Main results

* `WebData.ClearingClient.Holds.fill`: a fill is added
* `WebData.ClearingClient.Follows.process`: the datagram of the next fill
* `WebData.ClearingClient.process_datagrams`: what the client holds after the datagrams of some fills
-/

namespace Ndfex

open Containers Wire

/-- A fill of a buyer or a seller. -/
def ClearingFill.TwoSided (f : ClearingFill) : Prop := f.side = Side.buy ∨ f.side = Side.sell

instance : DecidablePred ClearingFill.TwoSided := fun f =>
  inferInstanceAs (Decidable (f.side = Side.buy ∨ f.side = Side.sell))

/-- A fill is on one of the sides. -/
theorem ClearingFill.TwoSided.ite_add_ite {f : ClearingFill} (hf : f.TwoSided) (n : ℤ) :
    ((if f.side = Side.buy then n else 0) + if f.side = Side.sell then n else 0) = n := by
  rcases hf with hside | hside
  · rw [hside, if_pos rfl, if_neg Side.sell_ne_buy.symm, add_zero]
  · rw [hside, if_neg Side.sell_ne_buy, if_pos rfl, zero_add]

/-- A fill of an order within the limits of the exchange. -/
structure ClearingFill.WithinLimits (f : ClearingFill) : Prop where
  side : f.TwoSided
  quantity_pos : 1 ≤ f.quantity
  quantity_le : f.quantity ≤ 1000
  price_nonneg : 0 ≤ f.price
  price_le : f.price ≤ 10000000

instance : DecidablePred ClearingFill.WithinLimits := fun f =>
  decidable_of_iff (f.TwoSided ∧ 1 ≤ f.quantity ∧ f.quantity ≤ 1000 ∧ 0 ≤ f.price ∧
      f.price ≤ 10000000)
    ⟨fun ⟨side, quantity_pos, quantity_le, price_nonneg, price_le⟩ =>
        ⟨side, quantity_pos, quantity_le, price_nonneg, price_le⟩,
      fun h => ⟨h.side, h.quantity_pos, h.quantity_le, h.price_nonneg, h.price_le⟩⟩

/-- A fill of a client in a symbol adds to its volume. -/
theorem volume_pos {fills : List ClearingFill} {f : ClearingFill} (hf : f ∈ fills)
    (hside : f.TwoSided) (hpos : 0 < f.quantity.toNat) :
    0 < tradedQuantity Side.buy f.clientId f.symbol fills +
      tradedQuantity Side.sell f.clientId f.symbol fills := by
  obtain ⟨before, after, rfl⟩ := List.append_of_mem hf
  have hown := hside.ite_add_ite (f.quantity.toNat : ℤ)
  have hsplit : ∀ side, tradedQuantity side f.clientId f.symbol (before ++ f :: after) =
      tradedQuantity side f.clientId f.symbol before +
        (if f.side = side then (f.quantity.toNat : ℤ) else 0) +
          tradedQuantity side f.clientId f.symbol after := by
    intro side
    have hlist : before ++ f :: after = (before ++ [f]) ++ after := by simp
    rw [← tradedQuantity_own, hlist]
    exact traded_append ..
  have hbefore := fun side => tradedQuantity_nonneg side before f.clientId f.symbol
  have hafter := fun side => tradedQuantity_nonneg side after f.clientId f.symbol
  have hbuy := hbefore Side.buy
  have hsell := hbefore Side.sell
  have hbuy' := hafter Side.buy
  have hsell' := hafter Side.sell
  rw [hsplit, hsplit]
  omega

namespace WebData

/-- `ClearingClient`. -/
structure ClearingClient where
  buf : ℕ → UInt8
  lastSeqNum : UInt64
  positions : NestedMap UInt32 UInt32 Int32
  rawPnl : NestedMap UInt32 UInt32 Int32
  totalBuy : NestedMap UInt32 UInt32 UInt32
  totalSell : NestedMap UInt32 UInt32 UInt32
  volume : NestedMap UInt32 UInt32 UInt32

namespace ClearingClient

/-- A client that received nothing. -/
def start (buf : ℕ → UInt8) : ClearingClient := ⟨buf, 0, ∅, ∅, ∅, ∅, ∅⟩

/-- `sizeof(buf)`. -/
def bufSize : ℕ := 4096

/-- What follows the branches of the two sides. -/
def settle (c : ClearingClient) (f : ReportedFill) : ClearingClient :=
  let pnl := c.totalSell.get f.clientId f.symbol - c.totalBuy.get f.clientId f.symbol
  { c with
    volume := c.volume.modify f.clientId f.symbol fun v => v + f.quantity
    totalSell := c.totalSell.enter f.clientId f.symbol
    totalBuy := c.totalBuy.enter f.clientId f.symbol
    rawPnl := c.rawPnl.modify f.clientId f.symbol fun _ => pnl.toInt32 }

/-- The case of a fill. -/
def fill (c : ClearingClient) (f : ReportedFill) : ClearingClient :=
  let value := f.quantity * f.price.toUInt32
  if f.side = Side.buy then
    { c with
      positions := c.positions.modify f.clientId f.symbol fun p =>
        (p.toUInt32 + f.quantity).toInt32
      totalBuy := c.totalBuy.modify f.clientId f.symbol fun t => t + value }.settle f
  else if f.side = Side.sell then
    { c with
      positions := c.positions.modify f.clientId f.symbol fun p =>
        (p.toUInt32 - f.quantity).toInt32
      totalSell := c.totalSell.modify f.clientId f.symbol fun t => t + value }.settle f
  else c

/-- `ClearingClient::process`, when a datagram is there. -/
def process (c : ClearingClient) (datagram : List UInt8) : Except String ClearingClient :=
  let buf := overwrite c.buf (datagram.take bufSize)
  let header := ClearingHeader.read buf 0
  if header.magicNumber ≠ clearingMagicNumber then .error "Invalid magic number"
  else if c.lastSeqNum ≠ 0 ∧ header.seqNum.toUInt64 ≠ c.lastSeqNum + 1 then .ok { c with buf }
  else
    let c := { c with buf, lastSeqNum := header.seqNum.toUInt64 }
    match ClearingMsgType.ofByte header.msgType with
    | some .fill =>
      if (datagram.take bufSize).length < clearingFillSize then .ok c
      else .ok (c.fill (ReportedFill.read buf 0))
    | some .heartbeat | none => .ok c

/-! ### What the client holds -/

/-- The client holds what some fills add up to, modulo 2^32. -/
structure Holds (c : ClearingClient) (fills : List ClearingFill) : Prop where
  positions : c.positions.Reads fun k s => Int32.ofInt
    (tradedQuantity Side.buy k s fills - tradedQuantity Side.sell k s fills)
  totalBuy : c.totalBuy.Reads fun k s => UInt32.ofInt (tradedValue Side.buy k s fills)
  totalSell : c.totalSell.Reads fun k s => UInt32.ofInt (tradedValue Side.sell k s fills)
  volume : c.volume.Reads fun k s => UInt32.ofInt
    (tradedQuantity Side.buy k s fills + tradedQuantity Side.sell k s fills)
  rawPnl : c.rawPnl.Reads fun k s => Int32.ofInt
    (tradedValue Side.sell k s fills - tradedValue Side.buy k s fills)

variable {c : ClearingClient} {fills : List ClearingFill}

theorem holds_start (buf : ℕ → UInt8) : (start buf).Holds [] :=
  ⟨fun _ _ => rfl, fun _ _ => rfl, fun _ _ => rfl, fun _ _ => rfl, fun _ _ => rfl⟩

/-- The buffer and the number are not among it. -/
theorem Holds.received (h : c.Holds fills) (buf : ℕ → UInt8) (lastSeqNum : UInt64) :
    Holds { c with buf, lastSeqNum } fills :=
  ⟨h.positions, h.totalBuy, h.totalSell, h.volume, h.rawPnl⟩

section Fill

variable {f : ClearingFill}

/-- What a fill adds to the volume, and the cash flow that it leads to. -/
theorem Holds.settle (hf : f.TwoSided)
    (hpositions : c.positions.Reads fun k s => Int32.ofInt
      (tradedQuantity Side.buy k s (fills ++ [f]) - tradedQuantity Side.sell k s (fills ++ [f])))
    (hbuy : c.totalBuy.Reads fun k s => UInt32.ofInt (tradedValue Side.buy k s (fills ++ [f])))
    (hsell : c.totalSell.Reads fun k s => UInt32.ofInt (tradedValue Side.sell k s (fills ++ [f])))
    (hvolume : c.volume.Reads fun k s => UInt32.ofInt
      (tradedQuantity Side.buy k s fills + tradedQuantity Side.sell k s fills))
    (hpnl : c.rawPnl.Reads fun k s => Int32.ofInt
      (tradedValue Side.sell k s fills - tradedValue Side.buy k s fills)) :
    (c.settle f.reported).Holds (fills ++ [f]) where
  positions := hpositions
  totalBuy := hbuy.enter _ _
  totalSell := hsell.enter _ _
  volume := by
    refine hvolume.modify ?_ fun k s hkey => ?_
    · dsimp only
      rw [tradedQuantity_own, tradedQuantity_own, add_add_add_comm, hf.ite_add_ite,
        UInt32.ofInt_add _ (f.quantity.toNat : ℤ), ofInt_toNat]
    · rw [tradedQuantity_other _ fills hkey, tradedQuantity_other _ fills hkey]
  rawPnl := by
    refine hpnl.modify ?_ fun k s hkey => ?_
    · rw [hbuy, hsell, ← ofInt_sub, toInt32_ofInt]
    · rw [tradedValue_other _ fills hkey, tradedValue_other _ fills hkey]

/-- **A fill is added.** -/
theorem Holds.fill (h : c.Holds fills) (hf : f.TwoSided) :
    (c.fill f.reported).Holds (fills ++ [f]) := by
  have hvalue : UInt32.ofInt (f.quantity.toNat * f.price.toInt) =
      f.quantity * f.price.toUInt32 := by
    rw [UInt32.ofInt_mul, ofInt_toNat, ofInt_toInt]
  have hposition : ∀ k s, ¬ (k = f.clientId ∧ s = f.symbol) →
      Int32.ofInt (tradedQuantity Side.buy k s (fills ++ [f]) -
        tradedQuantity Side.sell k s (fills ++ [f])) =
      Int32.ofInt (tradedQuantity Side.buy k s fills - tradedQuantity Side.sell k s fills) := by
    intro k s hkey
    rw [tradedQuantity_other _ fills hkey, tradedQuantity_other _ fills hkey]
  -- a side adds to its own total, and the position goes up or down with it
  rcases hf with hside | hside
  · have hreported : f.reported.side = Side.buy := hside
    have hother : f.side ≠ Side.sell := hside ▸ Side.sell_ne_buy.symm
    rw [ClearingClient.fill, if_pos hreported]
    refine Holds.settle (Or.inl hside) (h.positions.modify ?_ hposition)
      (h.totalBuy.modify ?_ fun k s hkey => ?_) (h.totalSell.congr fun k s => ?_) h.volume
      h.rawPnl
    · rw [toUInt32_ofInt, tradedQuantity_own, tradedQuantity_own, if_pos hside, if_neg hother,
        add_zero, add_sub_right_comm, ← toInt32_ofInt, UInt32.ofInt_add _ (f.quantity.toNat : ℤ),
        ofInt_toNat]
    · rw [tradedValue_own, if_pos hside, UInt32.ofInt_add, hvalue]
    · rw [tradedValue_other _ fills hkey]
    · rw [tradedValue_side _ fills hother]
  · have hreported : f.reported.side = Side.sell := hside
    have hother : f.side ≠ Side.buy := hside ▸ Side.sell_ne_buy
    rw [ClearingClient.fill, if_neg hother, if_pos hreported]
    refine Holds.settle (Or.inr hside) (h.positions.modify ?_ hposition)
      (h.totalBuy.congr fun k s => ?_)
      (h.totalSell.modify ?_ fun k s hkey => ?_) h.volume h.rawPnl
    · rw [toUInt32_ofInt, tradedQuantity_own, tradedQuantity_own, if_neg hother, if_pos hside,
        add_zero, ← sub_sub, ← toInt32_ofInt, ofInt_sub _ (f.quantity.toNat : ℤ), ofInt_toNat]
    · rw [tradedValue_side _ fills hother]
    · rw [tradedValue_own, if_pos hside, UInt32.ofInt_add, hvalue]
    · rw [tradedValue_other _ fills hkey]

end Fill

/-! ### The datagrams -/

/-- **A fill is taken** if its number follows the last one, or if it is the first one. -/
theorem process_encode (c : ClearingClient) (f : ReportedFill) (seqNum : UInt32) :
    c.process (f.encode seqNum) = .ok
      (if c.lastSeqNum ≠ 0 ∧ seqNum.toUInt64 ≠ c.lastSeqNum + 1 then
        { c with buf := overwrite c.buf (f.encode seqNum) }
      else
        { c with
          buf := overwrite c.buf (f.encode seqNum)
          lastSeqNum := seqNum.toUInt64 }.fill f) := by
  have hlength := f.length_encode seqNum
  have htake : (f.encode seqNum).take bufSize = f.encode seqNum := by
    rw [List.take_of_length_le]
    rw [hlength]
    decide
  obtain ⟨hheader, hfill⟩ := ReportedFill.read_encode (starts_overwrite c.buf (f.encode seqNum))
  have hmagic : ¬ (ReportedFill.header seqNum).magicNumber ≠ clearingMagicNumber :=
    not_not.mpr rfl
  have htype : ClearingMsgType.ofByte (ReportedFill.header seqNum).msgType = some .fill := rfl
  unfold process
  dsimp only
  rw [htake, hheader, hfill, hlength, if_neg hmagic, htype]
  dsimp only
  rw [if_neg (Nat.lt_irrefl _), ← apply_ite]
  rfl

@[simp] theorem lastSeqNum_fill (c : ClearingClient) (f : ReportedFill) :
    (c.fill f).lastSeqNum = c.lastSeqNum := by
  unfold fill
  dsimp only
  split_ifs <;> rfl

/-- How many fills the client takes: the number after the greatest is 2^32, which no message has. -/
def counted : ℕ := 2 ^ 32 - 1

/-- The client took the fills up to the message with the greatest number. -/
structure Follows (c : ClearingClient) (fills : List ClearingFill) : Prop where
  number : c.lastSeqNum.toNat = min fills.length counted
  holds : c.Holds (fills.take counted)

/-- **The datagram of the next fill.** -/
theorem Follows.process (h : c.Follows fills) {f : ClearingFill} (hf : f.TwoSided) :
    ∃ c', c.process (f.reported.encode (UInt32.ofNat (fills.length + 1))) = .ok c' ∧
      c'.Follows (fills ++ [f]) := by
  have hcounted : counted = 2 ^ 32 - 1 := rfl
  have hone : (1 : UInt64).toNat = 1 := rfl
  refine ⟨_, process_encode c f.reported _, ?_⟩
  by_cases hmore : fills.length < counted
  · -- the number follows, or it is the first one
    have hnumber : (UInt32.ofNat (fills.length + 1)).toUInt64.toNat = fills.length + 1 := by
      rw [UInt32.toNat_toUInt64, UInt32.toNat_ofNat']
      omega
    have hnext : (UInt32.ofNat (fills.length + 1)).toUInt64 = c.lastSeqNum + 1 := by
      rw [← UInt64.toNat_inj, hnumber, UInt64.toNat_add, h.number, hone]
      omega
    have hheld := h.holds
    rw [List.take_of_length_le (Nat.le_of_lt hmore)] at hheld
    rw [if_neg fun hgap => hgap.2 hnext]
    refine ⟨?_, ?_⟩
    · rw [lastSeqNum_fill, hnumber, List.length_append, List.length_singleton,
        Nat.min_eq_left hmore]
    · have hall : (fills ++ [f]).length ≤ counted := by
        rw [List.length_append, List.length_singleton]
        exact hmore
      rw [List.take_of_length_le hall]
      exact (hheld.received _ _).fill hf
  · -- no number of 32 bits follows the greatest one
    have hlast : c.lastSeqNum.toNat = 2 ^ 32 - 1 := by
      rw [h.number]
      omega
    have hpositive : c.lastSeqNum ≠ 0 := by
      intro hzero
      rw [hzero] at hlast
      cases hlast
    have hgap : (UInt32.ofNat (fills.length + 1)).toUInt64 ≠ c.lastSeqNum + 1 := by
      intro hnext
      have hlt := (UInt32.ofNat (fills.length + 1)).toNat_lt
      rw [← UInt64.toNat_inj, UInt64.toNat_add, hlast, hone, UInt32.toNat_toUInt64] at hnext
      omega
    rw [if_pos ⟨hpositive, hgap⟩]
    have hheld := h.holds
    refine ⟨?_, ?_⟩
    · have hnumber := h.number
      rw [List.length_append, List.length_singleton]
      dsimp only
      omega
    · rw [List.take_append_of_le_length (Nat.le_of_not_lt hmore)]
      exact hheld.received _ _

/-- **The datagrams of some fills**, in order and without loss. -/
theorem Follows.datagrams (h : c.Follows fills) {rest : List ClearingFill}
    (hrest : ∀ f ∈ rest, f.TwoSided) :
    ∃ c', (clearingDatagrams fills.length rest).foldlM ClearingClient.process c = .ok c' ∧
      c'.Follows (fills ++ rest) := by
  induction rest generalizing c fills with
  | nil => exact ⟨c, rfl, by rwa [List.append_nil]⟩
  | cons f rest ih =>
    obtain ⟨c₁, hprocess, hnext⟩ := h.process (hrest f List.mem_cons_self)
    obtain ⟨c', hfold, hall⟩ := ih hnext fun f' hf' => hrest f' (List.mem_cons_of_mem f hf')
    refine ⟨c', ?_, ?_⟩
    · rw [clearingDatagrams, List.foldlM_cons, hprocess]
      rw [List.length_append, List.length_singleton] at hfold
      exact hfold
    · rwa [List.append_assoc, List.singleton_append] at hall

/-- **What the client holds** after the datagrams of some fills. -/
theorem process_datagrams (buf : ℕ → UInt8) (hfills : ∀ f ∈ fills, f.TwoSided) :
    ∃ c, (clearingDatagrams 0 fills).foldlM ClearingClient.process (start buf) = .ok c ∧
      c.Follows fills := by
  have hstart : (start buf).Follows [] := ⟨rfl, holds_start buf⟩
  exact hstart.datagrams hfills

/-- **When the numbers of 32 bits are exact**, if the volume has 31 bits. -/
theorem Follows.exact_iff (h : c.Follows fills) (hlimits : ∀ f ∈ fills, f.WithinLimits)
    {client symbol : UInt32}
    (hvolume : tradedQuantity Side.buy client symbol fills +
      tradedQuantity Side.sell client symbol fills < 2 ^ 31) :
    ((c.positions.get client symbol).toInt = tradedQuantity Side.buy client symbol fills -
          tradedQuantity Side.sell client symbol fills ∧
        ((c.volume.get client symbol).toNat : ℤ) = tradedQuantity Side.buy client symbol fills +
            tradedQuantity Side.sell client symbol fills ∧
          (c.rawPnl.get client symbol).toInt = tradedValue Side.sell client symbol fills -
            tradedValue Side.buy client symbol fills) ↔
      (-2 ^ 31 ≤ tradedValue Side.sell client symbol fills -
            tradedValue Side.buy client symbol fills ∧
          tradedValue Side.sell client symbol fills -
            tradedValue Side.buy client symbol fills < 2 ^ 31) ∧
        ∀ f ∈ fills.drop counted, ¬ (f.clientId = client ∧ f.symbol = symbol) := by
  have hheld := h.holds
  generalize counted = n at hheld
  have hsplit : ∀ (g : ClearingFill → ℤ) side, traded g side client symbol fills =
      traded g side client symbol (fills.take n) + traded g side client symbol (fills.drop n) := by
    intro g side
    rw [← traded_append, List.take_append_drop]
  -- what is counted, if nothing is missing
  have hquantity : (∀ f ∈ fills.drop n, ¬ (f.clientId = client ∧ f.symbol = symbol)) → ∀ side,
      tradedQuantity side client symbol (fills.take n) =
        tradedQuantity side client symbol fills := by
    intro hnone side
    rw [tradedQuantity, hsplit _ side, traded_eq_zero _ side hnone, add_zero]
  have hvalue : (∀ f ∈ fills.drop n, ¬ (f.clientId = client ∧ f.symbol = symbol)) → ∀ side,
      tradedValue side client symbol (fills.take n) = tradedValue side client symbol fills := by
    intro hnone side
    rw [tradedValue, hsplit _ side, traded_eq_zero _ side hnone, add_zero]
  have hnonneg := fun side fills => tradedQuantity_nonneg side fills client symbol
  have hbought := hnonneg Side.buy fills
  have hsold := hnonneg Side.sell fills
  rw [hheld.positions, hheld.volume, hheld.rawPnl]
  dsimp only
  constructor
  · rintro ⟨-, hvolumes, hpnl⟩
    have hnone : ∀ f ∈ fills.drop n, ¬ (f.clientId = client ∧ f.symbol = symbol) := by
      rintro f hf ⟨rfl, rfl⟩
      -- the volume of the fill is missing
      have hlimit := hlimits f (List.mem_of_mem_drop hf)
      have hmissing := volume_pos hf hlimit.side (UInt32.le_iff_toNat_le.mp hlimit.quantity_pos)
      have hbuy : tradedQuantity Side.buy f.clientId f.symbol fills = tradedQuantity Side.buy _ _ _ +
        tradedQuantity Side.buy _ _ _ := hsplit _ Side.buy
      have hsell : tradedQuantity Side.sell f.clientId f.symbol fills =
        tradedQuantity Side.sell _ _ _ + tradedQuantity Side.sell _ _ _ := hsplit _ Side.sell
      have hbuy' := hnonneg Side.buy (fills.take n)
      have hsell' := hnonneg Side.sell (fills.take n)
      rw [toNat_ofInt (by omega) (by omega)] at hvolumes
      omega
    rw [hvalue hnone, hvalue hnone] at hpnl
    exact ⟨toInt_ofInt_iff.mp hpnl, hnone⟩
  · rintro ⟨hpnl, hnone⟩
    rw [hquantity hnone, hquantity hnone, hvalue hnone, hvalue hnone]
    exact ⟨toInt_ofInt_iff.mpr (by omega), toNat_ofInt (by omega) (by omega),
      toInt_ofInt_iff.mpr hpnl⟩

end ClearingClient

end WebData

end Ndfex
