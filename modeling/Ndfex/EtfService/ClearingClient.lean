import Ndfex.WebData.ClearingClient

/-!
# The clearing client of the ETF service

`etf_service/clearing_client.py`, a port of the one of the web data. Its numbers are unbounded, and a gap
in the numbers of the messages is only printed.

## Main definitions

* `EtfService.ClearingClient`, `EtfService.ClearingClient.processMessage`: the client, and a datagram
* `EtfService.ClearingClient.Holds`: the client holds what some fills add up to

## Main results

* `EtfService.ClearingClient.Holds.processMessage`: the datagram of a fill
* `clearing_exact`: when both clients hold what the fills add up to
* `clearing_overflows`: one fill of 1000 at 10000000
-/

namespace Ndfex

open Containers Wire

namespace EtfService

/-- `ClearingClient`. -/
structure ClearingClient where
  positions : NestedMap UInt32 UInt32 ℤ
  totalBuy : NestedMap UInt32 UInt32 ℤ
  totalSell : NestedMap UInt32 UInt32 ℤ
  volume : NestedMap UInt32 UInt32 ℤ
  rawPnl : NestedMap UInt32 UInt32 ℤ
  lastSeqNum : ℕ

namespace ClearingClient

/-- `CLEARING_MAGIC_NUMBER`. -/
def clearingMagicNumber : ℕ := 0x12345678

/-- `MSG_TYPE_FILL`. -/
def msgTypeFill : ℕ := 1

/-- `HEADER_FORMAT`, as the widths of its fields. -/
def headerFormat : List ℕ := [8, 2, 4, 1]

/-- `FILL_FORMAT`. -/
def fillFormat : List ℕ := [8, 2, 4, 1, 4, 4, 4, 4, 1]

/-- `ClearingClient.__init__`. -/
def start : ClearingClient := ⟨∅, ∅, ∅, ∅, ∅, 0⟩

/-- What follows the branches of the two sides. -/
def settle (c : ClearingClient) (clientId symbol quantity : UInt32) : ClearingClient :=
  let pnl := c.totalSell.get clientId symbol - c.totalBuy.get clientId symbol
  { c with
    volume := c.volume.modify clientId symbol fun v => v + quantity.toNat
    totalSell := c.totalSell.enter clientId symbol
    totalBuy := c.totalBuy.enter clientId symbol
    rawPnl := c.rawPnl.modify clientId symbol fun _ => pnl }

/-- What `_process_fill` does with the fields. -/
def fill (c : ClearingClient) (clientId symbol quantity : UInt32) (price : Int32) (side : Side) :
    ClearingClient :=
  let value := quantity.toNat * price.toInt
  if side = Side.buy then
    { c with
      positions := c.positions.modify clientId symbol fun p => p + quantity.toNat
      totalBuy := c.totalBuy.modify clientId symbol fun t => t + value }.settle clientId symbol
        quantity
  else if side = Side.sell then
    { c with
      positions := c.positions.modify clientId symbol fun p => p - quantity.toNat
      totalSell := c.totalSell.modify clientId symbol fun t => t + value }.settle clientId symbol
        quantity
  -- another side adds to the volume, too
  else c.settle clientId symbol quantity

/-- `ClearingClient._process_fill`. -/
def processFill (c : ClearingClient) (data : List UInt8) : ClearingClient :=
  if data.length < fillFormat.sum then c
  else
    match unpackFrom fillFormat data with
    | [_, _, _, _, clientId, symbol, quantity, price, side] =>
      c.fill (UInt32.ofNat clientId) (UInt32.ofNat symbol) (UInt32.ofNat quantity)
        (UInt32.ofNat price).toInt32 ⟨UInt8.ofNat side⟩
    | _ => c

/-- `ClearingClient._process_message`. -/
def processMessage (c : ClearingClient) (data : List UInt8) : ClearingClient :=
  if data.length < headerFormat.sum then c
  else
    match unpackFrom headerFormat data with
    | [magic, _, seqNum, msgType] =>
      if magic ≠ clearingMagicNumber then c
      else
        -- a gap is only printed
        let c := { c with lastSeqNum := seqNum }
        if msgType = msgTypeFill then c.processFill data else c
    | _ => c

/-- `ClearingClient.get_position`, without the entry that it makes. -/
def getPosition (c : ClearingClient) (clientId symbol : UInt32) : ℤ :=
  c.positions.get clientId symbol

/-! ### What the client holds -/

/-- The client holds what some fills add up to. -/
structure Holds (c : ClearingClient) (fills : List ClearingFill) : Prop where
  positions : c.positions.Reads fun k s =>
    tradedQuantity Side.buy k s fills - tradedQuantity Side.sell k s fills
  totalBuy : c.totalBuy.Reads fun k s => tradedValue Side.buy k s fills
  totalSell : c.totalSell.Reads fun k s => tradedValue Side.sell k s fills
  volume : c.volume.Reads fun k s =>
    tradedQuantity Side.buy k s fills + tradedQuantity Side.sell k s fills
  rawPnl : c.rawPnl.Reads fun k s =>
    tradedValue Side.sell k s fills - tradedValue Side.buy k s fills

variable {c : ClearingClient} {fills : List ClearingFill} {f : ClearingFill}

theorem holds_start : start.Holds [] :=
  ⟨fun _ _ => rfl, fun _ _ => rfl, fun _ _ => rfl, fun _ _ => rfl, fun _ _ => rfl⟩

/-- The number is not among it. -/
theorem Holds.numbered (h : c.Holds fills) (lastSeqNum : ℕ) : Holds { c with lastSeqNum } fills :=
  ⟨h.positions, h.totalBuy, h.totalSell, h.volume, h.rawPnl⟩

/-- What a fill adds to the volume, and the cash flow that it leads to. -/
theorem Holds.settle (hf : f.TwoSided)
    (hpositions : c.positions.Reads fun k s =>
      tradedQuantity Side.buy k s (fills ++ [f]) - tradedQuantity Side.sell k s (fills ++ [f]))
    (hbuy : c.totalBuy.Reads fun k s => tradedValue Side.buy k s (fills ++ [f]))
    (hsell : c.totalSell.Reads fun k s => tradedValue Side.sell k s (fills ++ [f]))
    (hvolume : c.volume.Reads fun k s =>
      tradedQuantity Side.buy k s fills + tradedQuantity Side.sell k s fills)
    (hpnl : c.rawPnl.Reads fun k s =>
      tradedValue Side.sell k s fills - tradedValue Side.buy k s fills) :
    (c.settle f.clientId f.symbol f.quantity).Holds (fills ++ [f]) where
  positions := hpositions
  totalBuy := hbuy.enter _ _
  totalSell := hsell.enter _ _
  volume := by
    refine hvolume.modify ?_ fun k s hkey => ?_
    · rw [tradedQuantity_own, tradedQuantity_own, add_add_add_comm, hf.ite_add_ite]
    · rw [tradedQuantity_other _ fills hkey, tradedQuantity_other _ fills hkey]
  rawPnl := by
    refine hpnl.modify ?_ fun k s hkey => ?_
    · rw [hbuy, hsell]
    · rw [tradedValue_other _ fills hkey, tradedValue_other _ fills hkey]

/-- **A fill is added.** -/
theorem Holds.fill (h : c.Holds fills) (hf : f.TwoSided) :
    (c.fill f.clientId f.symbol f.quantity f.price f.side).Holds (fills ++ [f]) := by
  have hposition : ∀ k s, ¬ (k = f.clientId ∧ s = f.symbol) →
      tradedQuantity Side.buy k s (fills ++ [f]) - tradedQuantity Side.sell k s (fills ++ [f]) =
        tradedQuantity Side.buy k s fills - tradedQuantity Side.sell k s fills := by
    intro k s hkey
    rw [tradedQuantity_other _ fills hkey, tradedQuantity_other _ fills hkey]
  -- a side adds to its own total, and the position goes up or down with it
  rcases hf with hside | hside
  · have hother : f.side ≠ Side.sell := hside ▸ Side.sell_ne_buy.symm
    rw [ClearingClient.fill, if_pos hside]
    refine Holds.settle (Or.inl hside) (h.positions.modify ?_ hposition)
      (h.totalBuy.modify ?_ fun k s hkey => ?_) (h.totalSell.congr fun k s => ?_) h.volume
      h.rawPnl
    · rw [tradedQuantity_own, tradedQuantity_own, if_pos hside, if_neg hother, add_zero,
        add_sub_right_comm]
    · rw [tradedValue_own, if_pos hside]
    · rw [tradedValue_other _ fills hkey]
    · rw [tradedValue_side _ fills hother]
  · have hother : f.side ≠ Side.buy := hside ▸ Side.sell_ne_buy
    rw [ClearingClient.fill, if_neg hother, if_pos hside]
    refine Holds.settle (Or.inr hside) (h.positions.modify ?_ hposition)
      (h.totalBuy.congr fun k s => ?_)
      (h.totalSell.modify ?_ fun k s hkey => ?_) h.volume h.rawPnl
    · rw [tradedQuantity_own, tradedQuantity_own, if_neg hother, if_pos hside, add_zero, sub_sub]
    · rw [tradedValue_side _ fills hother]
    · rw [tradedValue_own, if_pos hside]
    · rw [tradedValue_other _ fills hkey]

/-- **The datagram of a fill.** -/
theorem Holds.processMessage (h : c.Holds fills) (hf : f.TwoSided) (seqNum : UInt32) :
    (c.processMessage (f.reported.encode seqNum)).Holds (fills ++ [f]) := by
  have hlength := f.reported.length_encode seqNum
  have hfields : unpackFrom headerFormat (f.reported.encode seqNum) =
      (ReportedFill.header seqNum).fields := unpackFrom_append (ReportedFill.header seqNum).fits _
  have hall : unpackFrom fillFormat (f.reported.encode seqNum) =
      (ReportedFill.header seqNum).fields ++ f.reported.fields := by
    have hpack : f.reported.encode seqNum =
        pack fillFormat ((ReportedFill.header seqNum).fields ++ f.reported.fields) ++ [] := by
      rw [List.append_nil]
      exact (pack_append (ReportedFill.header seqNum).fits).symm
    rw [hpack]
    exact unpackFrom_append ((ReportedFill.header seqNum).fits.append f.reported.fits) []
  have hprocess : c.processMessage (f.reported.encode seqNum) =
      { c with lastSeqNum := seqNum.toNat }.fill f.clientId f.symbol f.quantity f.price f.side := by
    unfold ClearingClient.processMessage
    rw [hlength, if_neg (by decide), hfields]
    have hmagic : Ndfex.clearingMagicNumber.toNat = clearingMagicNumber := rfl
    have htype : ClearingMsgType.fill.byte.toNat = msgTypeFill := rfl
    simp only [ClearingHeader.fields, ReportedFill.header]
    rw [if_neg (not_not.mpr hmagic), if_pos htype, ClearingClient.processFill, hlength,
      if_neg (by decide), hall]
    simp [ClearingHeader.fields, ReportedFill.fields]
  rw [hprocess]
  exact (h.numbered seqNum.toNat).fill hf

/-- **The datagrams of some fills.** -/
theorem Holds.datagrams (h : c.Holds fills) {rest : List ClearingFill}
    (hrest : ∀ f ∈ rest, f.TwoSided) (k : ℕ) :
    ((clearingDatagrams k rest).foldl ClearingClient.processMessage c).Holds (fills ++ rest) := by
  induction rest generalizing c fills k with
  | nil => rwa [List.append_nil]
  | cons f rest ih =>
    have hnext := h.processMessage (hrest f List.mem_cons_self) (UInt32.ofNat (k + 1))
    have hall := ih hnext (fun f' hf' => hrest f' (List.mem_cons_of_mem f hf')) (k + 1)
    rw [List.append_assoc, List.singleton_append] at hall
    rwa [clearingDatagrams, List.foldl_cons]

end ClearingClient

end EtfService

/-! ## Both clients -/

/-- **When clearing is exact**: for a client and a symbol whose volume, and with it the position, has 31
bits, both clients hold the position, the volume and the cash flow of the fills exactly if the cash flow
is a number of 32 bits, and no fill of theirs comes after the number of the messages wrapped around. -/
theorem clearing_exact {fills : List ClearingFill} (hlimits : ∀ f ∈ fills, f.WithinLimits)
    (client symbol : UInt32)
    (hvolume : tradedQuantity Side.buy client symbol fills +
      tradedQuantity Side.sell client symbol fills < 2 ^ 31) (buf : ℕ → UInt8) :
    let bought := tradedQuantity Side.buy client symbol fills
    let sold := tradedQuantity Side.sell client symbol fills
    let pnl := tradedValue Side.sell client symbol fills - tradedValue Side.buy client symbol fills
    let datagrams := (fills.foldl WireClearingPublisher.publishFill .start).datagrams
    let etf := datagrams.foldl EtfService.ClearingClient.processMessage .start
    ∃ web, datagrams.foldlM WebData.ClearingClient.process (.start buf) = .ok web ∧
      (((etf.positions.get client symbol = bought - sold ∧
            etf.volume.get client symbol = bought + sold ∧ etf.rawPnl.get client symbol = pnl) ∧
          (web.positions.get client symbol).toInt = bought - sold ∧
            ((web.volume.get client symbol).toNat : ℤ) = bought + sold ∧
              (web.rawPnl.get client symbol).toInt = pnl) ↔
        (-2 ^ 31 ≤ pnl ∧ pnl < 2 ^ 31) ∧
          ∀ f ∈ fills.drop (2 ^ 32 - 1), ¬ (f.clientId = client ∧ f.symbol = symbol)) := by
  intro bought sold pnl datagrams etf
  have htwo : ∀ f ∈ fills, f.TwoSided := fun f hf => (hlimits f hf).side
  have hdatagrams : datagrams = clearingDatagrams 0 fills :=
    WireClearingPublisher.datagrams_foldl fills
  have hetf : etf.Holds fills := by
    have hall := EtfService.ClearingClient.holds_start.datagrams htwo 0
    rwa [List.nil_append, ← hdatagrams] at hall
  obtain ⟨web, hweb, hfollows⟩ := WebData.ClearingClient.process_datagrams buf htwo
  rw [hdatagrams]
  refine ⟨web, hweb, ?_⟩
  rw [hetf.positions, hetf.volume, hetf.rawPnl]
  exact (and_iff_right ⟨rfl, rfl, rfl⟩).trans (hfollows.exact_iff hlimits hvolume)

/-- A client buys 10 and sells 4 of them. -/
theorem clearing_exact_traded :
    let fills : List ClearingFill := [⟨1, 100, 7, 10, 50, Side.buy⟩, ⟨2, 200, 7, 10, 50, Side.sell⟩,
      ⟨3, 100, 7, 4, 60, Side.sell⟩, ⟨4, 200, 7, 4, 60, Side.buy⟩]
    let datagrams := (fills.foldl WireClearingPublisher.publishFill .start).datagrams
    let etf := datagrams.foldl EtfService.ClearingClient.processMessage .start
    ∃ web, datagrams.foldlM WebData.ClearingClient.process (.start fun _ => 0) = .ok web ∧
      (((etf.positions.get 100 7 = 10 - 4 ∧ etf.volume.get 100 7 = 10 + 4 ∧
            etf.rawPnl.get 100 7 = 4 * 60 - 10 * 50) ∧
          (web.positions.get 100 7).toInt = 10 - 4 ∧
            ((web.volume.get 100 7).toNat : ℤ) = 10 + 4 ∧
              (web.rawPnl.get 100 7).toInt = 4 * 60 - 10 * 50) ↔
        (-2 ^ 31 ≤ (4 * 60 - 10 * 50 : ℤ) ∧ (4 * 60 - 10 * 50 : ℤ) < 2 ^ 31) ∧
          ∀ f ∈ fills.drop (2 ^ 32 - 1), ¬ (f.clientId = 100 ∧ f.symbol = 7)) := by
  intro fills
  exact clearing_exact (by decide +kernel) 100 7 (by decide +kernel) fun _ => 0

/-- One fill of the greatest quantity at the greatest price. -/
theorem clearing_overflows :
    let fills : List ClearingFill := [⟨1, 100, 7, 1000, 10000000, Side.buy⟩]
    let datagrams := (fills.foldl WireClearingPublisher.publishFill .start).datagrams
    (∀ f ∈ fills, f.WithinLimits) ∧
      tradedQuantity Side.buy 100 7 fills + tradedQuantity Side.sell 100 7 fills < 2 ^ 31 ∧
      tradedValue Side.sell 100 7 fills - tradedValue Side.buy 100 7 fills = -10000000000 ∧
      (datagrams.foldl EtfService.ClearingClient.processMessage .start).rawPnl.get 100 7 =
        -10000000000 ∧
      (datagrams.foldlM WebData.ClearingClient.process (.start fun _ => 0)).toOption.map
        (fun web => (web.rawPnl.get 100 7).toInt) = some (-1410065408) := by
  exact ⟨by decide +kernel, by decide +kernel, by decide +kernel, by decide +kernel,
    by decide +kernel⟩

end Ndfex
