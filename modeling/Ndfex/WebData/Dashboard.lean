import Mathlib.Algebra.BigOperators.Field
import Ndfex.Bots.BestPrices
import Ndfex.Bots.FeedReplica
import Ndfex.Numeric.Binary64
import Ndfex.WebData.SequenceGaps

/-!
# The page of the web data

`jsonify_snapshot` of `web_data/web_data.cpp`: the quotes of two symbols, and for each of them the
position of every client, its profit or loss at these quotes, less the fees, and its volume. The lookups
that may throw find what they look for, whatever datagrams there were. On a run of the engine the profits
and losses are those of the fills, up to the six digits that are printed, and they add up to what the
spread and the fees cost.

## Main definitions

* `WebData.jsonifySnapshot`: the page
* `WebData.printed`: the number that a stream prints
* `WebData.ClearingClient.Keyed`: the maps of the clearing client have the same keys
* `WebData.MarksFit`: the numbers of a client fit
* `openInterest`: what the buyers of a symbol hold

## Main results

* `WebData.ClearingClient.keyed_of_datagrams`: whatever the datagrams are, the keys are the same
* `page_complete`: the page is there, with a row for each client
* `WebData.abs_markedPnl_sub_le`, `WebData.abs_printed_sub_le`: the rounding of a profit or loss
* `pnl_sums_to_spread`: the profits and losses of the clients of the engine
-/

namespace Ndfex

open Containers Numeric Transition Wire

namespace WebData

/-- A symbol of the `"snapshot"`. -/
structure QuoteRow where
  symbol : UInt32
  bestBid : Int32
  bestAsk : Int32
deriving DecidableEq, Repr

/-- A client's row of the `"positions"`. The `pnl` is the number that is printed. -/
structure PositionRow where
  clientId : UInt32
  symbol : UInt32
  position : Int32
  pnl : ℚ
  volume : UInt32
deriving DecidableEq

/-- What the page shows. -/
structure Page where
  snapshot : List QuoteRow
  positions : List PositionRow

/-- The symbols of the page. -/
def pageSymbols : List UInt32 := [1, 2]

/-- The fee `0.05`, as the `double` that it is. -/
def fee : ℚ := toBinary64 (5 / 100)

/-- The profit or loss of a position at a price, less the fees. -/
def markedPnl (rawPnl price position : Int32) (volume : UInt32) : ℚ :=
  toBinary64 ((rawPnl + price * position).toInt - toBinary64 (volume.toNat * fee))

/-- A `double` on a stream: six significant digits of it. -/
def printed (x : ℚ) : ℚ := toDigits 10 6 x

/-- The price of a position: the best bid, or the best ask if it is short. -/
def markPrice (md : Bots.MDClient) (symbol : UInt32) (position : Int32) : Int32 :=
  if position ≥ 0 then (md.getBestBid symbol).price else (md.getBestAsk symbol).price

/-- The row of a client, whose positions are given. It is none where `at` throws. -/
def positionRow (md : Bots.MDClient) (clearing : ClearingClient) (symbol clientId : UInt32)
    (positions : AList fun _ : UInt32 => Int32) : Option PositionRow :=
  match positions.lookup symbol with
  | none => some ⟨clientId, symbol, 0, 0, 0⟩
  | some position =>
    match clearing.rawPnl.find? clientId symbol, clearing.volume.find? clientId symbol with
    | some rawPnl, some volume => some ⟨clientId, symbol, position,
        printed (markedPnl rawPnl (markPrice md symbol position) position volume), volume⟩
    | _, _ => none

/-- `jsonify_snapshot`, up to the text. -/
def jsonifySnapshot (md : Bots.MDClient) (clearing : ClearingClient) : Option Page := do
  let rows ← pageSymbols.mapM fun symbol =>
    clearing.positions.entries.mapM fun client =>
      positionRow md clearing symbol client.1 client.2
  return {
    snapshot := pageSymbols.map fun symbol =>
      ⟨symbol, (md.getBestBid symbol).price, (md.getBestAsk symbol).price⟩
    positions := rows.flatten }

/-! ### The keys of the clearing client -/

namespace ClearingClient

/-- There is a cash flow and a volume wherever there is a position, and nowhere else. -/
structure Keyed (c : ClearingClient) : Prop where
  rawPnl : c.positions.SameKeys c.rawPnl
  volume : c.positions.SameKeys c.volume

variable {c c' : ClearingClient}

theorem keyed_start (buf : ℕ → UInt8) : (start buf).Keyed := ⟨fun _ _ => rfl, fun _ _ => rfl⟩

/-- Both sides of a fill enter the same keys. -/
theorem Keyed.fill (h : c.Keyed) (f : ReportedFill) : (c.fill f).Keyed := by
  unfold ClearingClient.fill
  dsimp only
  split_ifs
  · exact ⟨h.rawPnl.modify _ _ _ _, h.volume.modify _ _ _ _⟩
  · exact ⟨h.rawPnl.modify _ _ _ _, h.volume.modify _ _ _ _⟩
  · exact h

/-- A datagram that is taken changes the buffer and the number, and may be a fill. -/
theorem process_cases {datagram : List UInt8} (hc : c.process datagram = .ok c') :
    ∃ buf lastSeqNum, c' = { c with buf, lastSeqNum } ∨
      ∃ f, c' = { c with buf, lastSeqNum }.fill f := by
  unfold ClearingClient.process at hc
  dsimp only at hc
  by_cases hmagic : (ClearingHeader.read (overwrite c.buf (datagram.take bufSize)) 0).magicNumber ≠
      clearingMagicNumber
  · rw [if_pos hmagic] at hc
    cases hc
  rw [if_neg hmagic] at hc
  split at hc
  · exact ⟨_, _, Or.inl (Except.ok.inj hc).symm⟩
  · -- the number is taken, whatever the type of the message
    split at hc
    · split at hc
      · exact ⟨_, _, Or.inl (Except.ok.inj hc).symm⟩
      · exact ⟨_, _, Or.inr ⟨_, (Except.ok.inj hc).symm⟩⟩
    · exact ⟨_, _, Or.inl (Except.ok.inj hc).symm⟩
    · exact ⟨_, _, Or.inl (Except.ok.inj hc).symm⟩

/-- **Every datagram** keeps the keys the same. -/
theorem Keyed.process (h : c.Keyed) {datagram : List UInt8} (hc : c.process datagram = .ok c') :
    c'.Keyed := by
  obtain ⟨buf, lastSeqNum, rfl | ⟨f, rfl⟩⟩ := process_cases hc
  · exact ⟨h.rawPnl, h.volume⟩
  · apply Keyed.fill
    exact ⟨h.rawPnl, h.volume⟩

/-- **Whatever the datagrams are**, the keys are the same. -/
theorem keyed_of_datagrams {datagrams : List (List UInt8)} (h : c.Keyed)
    (hc : datagrams.foldlM ClearingClient.process c = .ok c') : c'.Keyed := by
  induction datagrams generalizing c with
  | nil =>
    obtain rfl := Except.ok.inj hc
    exact h
  | cons datagram datagrams ih =>
    rw [List.foldlM_cons] at hc
    cases hone : c.process datagram with
    | error e =>
      rw [hone] at hc
      cases hc
    | ok c₁ =>
      rw [hone] at hc
      exact ih (h.process hone) hc

end ClearingClient

/-! ### The rows -/

/-- The row of a client by what the maps read. -/
def rowOf (md : Bots.MDClient) (c : ClearingClient) (symbol clientId : UInt32) : PositionRow :=
  { clientId, symbol
    position := c.positions.get clientId symbol
    pnl := printed (markedPnl (c.rawPnl.get clientId symbol)
      (markPrice md symbol (c.positions.get clientId symbol)) (c.positions.get clientId symbol)
      (c.volume.get clientId symbol))
    volume := c.volume.get clientId symbol }

theorem printed_markedPnl_zero (price : Int32) : printed (markedPnl 0 price 0 0) = 0 := by
  have hproduct : (0 : Int32) + price * 0 = 0 := by simp
  rw [markedPnl, hproduct]
  simp [printed, toBinary64_zero, toDigits_zero]

variable {md : Bots.MDClient} {c : ClearingClient}

/-- **The row of a client**: what `at` looks for is there. -/
theorem positionRow_eq (h : c.Keyed) (symbol : UInt32) {clientId : UInt32}
    {positions : AList fun _ : UInt32 => Int32}
    (hclient : c.positions.lookup clientId = some positions) :
    positionRow md c symbol clientId positions = some (rowOf md c symbol clientId) := by
  have hfind : c.positions.find? clientId symbol = positions.lookup symbol := by
    rw [NestedMap.find?, hclient, Option.bind_some]
  have hraw := h.rawPnl clientId symbol
  have hvolume := h.volume clientId symbol
  rw [hfind] at hraw hvolume
  unfold positionRow rowOf
  simp only [NestedMap.get_eq_getD, hfind]
  cases hposition : positions.lookup symbol with
  | none =>
    -- without a position there is neither a cash flow nor a volume
    rw [hposition, Option.isSome_none, eq_comm, Option.isSome_eq_false_iff,
      Option.isNone_iff_eq_none] at hraw hvolume
    rw [hraw, hvolume]
    simp only [Option.getD_none]
    exact congrArg some (congrArg (fun pnl => PositionRow.mk clientId symbol 0 pnl 0)
      (printed_markedPnl_zero _).symm)
  | some position =>
    rw [hposition, Option.isSome_some] at hraw hvolume
    obtain ⟨raw, hraw⟩ := Option.isSome_iff_exists.mp hraw.symm
    obtain ⟨volume, hvolume⟩ := Option.isSome_iff_exists.mp hvolume.symm
    rw [hraw, hvolume]
    rfl

theorem mapM_eq_some {α β : Type} {f : α → Option β} {g : α → β} {xs : List α}
    (h : ∀ x ∈ xs, f x = some (g x)) : xs.mapM f = some (xs.map g) := by
  induction xs with
  | nil => rfl
  | cons x xs ih =>
    rw [List.mapM_cons, h x List.mem_cons_self, ih fun y hy => h y (List.mem_cons_of_mem x hy)]
    rfl

/-- **The page**: a row for each symbol and each client with a position. -/
theorem jsonifySnapshot_eq (h : c.Keyed) : jsonifySnapshot md c = some
    { snapshot := pageSymbols.map fun symbol =>
        ⟨symbol, (md.getBestBid symbol).price, (md.getBestAsk symbol).price⟩
      positions := pageSymbols.flatMap fun symbol =>
        c.positions.keys.map (rowOf md c symbol) } := by
  have hrows : ∀ symbol, (c.positions.entries.mapM fun client =>
      positionRow md c symbol client.1 client.2) =
        some (c.positions.keys.map (rowOf md c symbol)) := by
    intro symbol
    rw [mapM_eq_some (g := fun client => rowOf md c symbol client.1)]
    · rw [AList.keys, List.keys, List.map_map]
      rfl
    · exact fun client hclient => positionRow_eq h symbol (AList.mem_lookup_iff.mpr hclient)
  unfold jsonifySnapshot
  rw [mapM_eq_some fun symbol _ => hrows symbol]
  rfl

/-! ### Rounding -/

/-- **The rounding of a profit or loss**: the fees are a twentieth of the volume. -/
theorem abs_markedPnl_sub_le (rawPnl price position : Int32) (volume : UInt32) :
    |markedPnl rawPnl price position volume -
        ((rawPnl + price * position).toInt - volume.toNat / 20)| ≤ 2 ^ (-20 : ℤ) := by
  set n : ℚ := ((rawPnl + price * position).toInt : ℚ) with hn
  set v : ℚ := (volume.toNat : ℚ) with hv
  have hv_nonneg : 0 ≤ v := Nat.cast_nonneg _
  have hv_lt : v < 2 ^ 32 := by
    rw [hv]
    exact_mod_cast volume.toNat_lt
  have hn_le : |n| ≤ 2 ^ 31 := by
    have hle := (rawPnl + price * position).le_toInt
    have hlt := (rawPnl + price * position).toInt_lt
    rw [hn, abs_le]
    constructor
    · exact_mod_cast hle
    · exact_mod_cast hlt.le
  have hunit : (2 : ℚ) ^ (-53 : ℤ) = 1 / 2 ^ 53 := by norm_num
  -- the three roundings: of the constant, of the product and of the difference
  have hfee := abs_toBinary64_sub_le (5 / 100)
  change |fee - 5 / 100| ≤ _ at hfee
  have hproduct := abs_toBinary64_sub_le (v * fee)
  have hresult := abs_toBinary64_sub_le (n - toBinary64 (v * fee))
  change |markedPnl rawPnl price position volume - _| ≤ _ at hresult
  rw [hunit] at hfee hproduct hresult
  have hfee' : |fee - 5 / 100| ≤ 1 / 2 ^ 57 := by
    refine hfee.trans ?_
    rw [abs_of_nonneg (by norm_num)]
    norm_num
  obtain ⟨hfee_ge, hfee_le⟩ := abs_le.mp hfee'
  have hfee_nonneg : 0 ≤ fee := by linarith
  have hcost_nonneg : 0 ≤ v * fee := mul_nonneg hv_nonneg hfee_nonneg
  have hcost : |v * fee - v / 20| ≤ 1 / 2 ^ 25 := by
    have hsplit : v * fee - v / 20 = v * (fee - 5 / 100) := by ring
    rw [hsplit, abs_mul, abs_of_nonneg hv_nonneg]
    calc v * |fee - 5 / 100| ≤ 2 ^ 32 * (1 / 2 ^ 57) := by gcongr
      _ = 1 / 2 ^ 25 := by norm_num
  have hcost_le : v * fee ≤ 2 ^ 28 := by
    have htwentieth : v / 20 ≤ 2 ^ 32 / 20 := by gcongr
    linarith [(abs_le.mp hcost).2]
  have hrounded : |toBinary64 (v * fee) - v * fee| ≤ 1 / 2 ^ 25 := by
    refine hproduct.trans ?_
    rw [abs_of_nonneg hcost_nonneg]
    calc v * fee * (1 / 2 ^ 53) ≤ 2 ^ 28 * (1 / 2 ^ 53) := by gcongr
      _ = 1 / 2 ^ 25 := by norm_num
  obtain ⟨hrounded_ge, hrounded_le⟩ := abs_le.mp hrounded
  obtain ⟨hn_ge, hn_le⟩ := abs_le.mp hn_le
  have hdifference : |n - toBinary64 (v * fee)| ≤ 2 ^ 32 := by
    rw [abs_le]
    constructor <;> linarith
  have hlast : |n - toBinary64 (v * fee)| * (1 / 2 ^ 53) ≤ 1 / 2 ^ 21 := by
    calc |n - toBinary64 (v * fee)| * (1 / 2 ^ 53) ≤ 2 ^ 32 * (1 / 2 ^ 53) := by gcongr
      _ = 1 / 2 ^ 21 := by norm_num
  obtain ⟨hresult_ge, hresult_le⟩ := abs_le.mp (hresult.trans hlast)
  obtain ⟨hcost_ge, hcost_le'⟩ := abs_le.mp hcost
  have hbound : (2 : ℚ) ^ (-20 : ℤ) = 1 / 2 ^ 20 := by norm_num
  rw [hbound, abs_le]
  constructor <;> linarith

/-- What a printed profit or loss may be off by, if the fills are worth `w`. -/
def printError (w : ℚ) : ℚ := 2 ^ (-20 : ℤ) + (|w| + 2 ^ (-20 : ℤ)) / 200000

/-- **The rounding of the print**, on top of that of the number. -/
theorem abs_printed_sub_le {x w : ℚ} (h : |x - w| ≤ 2 ^ (-20 : ℤ)) : |printed x - w| ≤ printError w := by
  have hdigits := abs_toDigits_sub_le (b := 10) (by norm_num) 6 x
  have hunit : |x| * ((10 : ℕ) : ℚ) ^ (1 - (6 : ℕ) : ℤ) / 2 = |x| / 200000 := by
    norm_num
    ring
  rw [hunit] at hdigits
  have hsize : |x| ≤ |w| + 2 ^ (-20 : ℤ) := by
    have hsub := abs_sub_abs_le_abs_sub x w
    linarith
  calc |printed x - w| ≤ |printed x - x| + |x - w| := abs_sub_le _ _ _
    _ ≤ (|w| + 2 ^ (-20 : ℤ)) / 200000 + 2 ^ (-20 : ℤ) := by
      refine add_le_add (hdigits.trans ?_) h
      gcongr
    _ = printError w := add_comm _ _

/-! ### What the fills add up to -/

/-- The price of a position, as an integer. -/
def mark (md : Bots.MDClient) (symbol : UInt32) (position : ℤ) : ℤ :=
  if 0 ≤ position then (md.getBestBid symbol).price.toInt else (md.getBestAsk symbol).price.toInt

/-- What a client's fills in a symbol are worth at the quotes, less the fees. -/
def worth (md : Bots.MDClient) (symbol : UInt32) (fills : List ClearingFill) (client : UInt32) : ℚ :=
  (cashFlow client symbol fills + mark md symbol (position client symbol fills) *
    position client symbol fills : ℤ) - tradedVolume client symbol fills / 20

/-- The numbers of a client in a symbol have 32 bits, and so do the product and the sum that they are
marked by, which are signed. -/
structure MarksFit (md : Bots.MDClient) (symbol : UInt32) (fills : List ClearingFill)
    (client : UInt32) : Prop where
  position : -2 ^ 31 ≤ position client symbol fills ∧ position client symbol fills < 2 ^ 31
  volume : tradedVolume client symbol fills < 2 ^ 32
  cash : -2 ^ 31 ≤ cashFlow client symbol fills ∧ cashFlow client symbol fills < 2 ^ 31
  value : -2 ^ 31 ≤ mark md symbol (Ndfex.position client symbol fills) *
        Ndfex.position client symbol fills ∧
      mark md symbol (Ndfex.position client symbol fills) *
        Ndfex.position client symbol fills < 2 ^ 31
  worth : -2 ^ 31 ≤ cashFlow client symbol fills +
        mark md symbol (Ndfex.position client symbol fills) * Ndfex.position client symbol fills ∧
      cashFlow client symbol fills + mark md symbol (Ndfex.position client symbol fills) *
        Ndfex.position client symbol fills < 2 ^ 31

instance (md : Bots.MDClient) (symbol : UInt32) (fills : List ClearingFill) :
    DecidablePred (MarksFit md symbol fills) := fun _ =>
  decidable_of_iff (_ ∧ _ ∧ _ ∧ _ ∧ _)
    ⟨fun ⟨position, volume, cash, value, worth⟩ => ⟨position, volume, cash, value, worth⟩,
      fun h => ⟨h.position, h.volume, h.cash, h.value, h.worth⟩⟩

section Fills

variable {fills : List ClearingFill} {client symbol : UInt32}

/-- A client without fills has no numbers to fit. -/
theorem marked_of_absent (md : Bots.MDClient) (symbol : UInt32)
    (hclient : ∀ f ∈ fills, f.clientId ≠ client) : MarksFit md symbol fills client := by
  have hnone : (fillsIn symbol fills).filter (fun f => f.clientId = client) = [] :=
    List.filter_eq_nil_iff.mpr fun f hf hown =>
      hclient f (List.mem_filter.mp hf).1 (of_decide_eq_true hown)
  have hposition : position client symbol fills = 0 := by
    rw [position, hnone]
    rfl
  have hcash : cashFlow client symbol fills = 0 := by
    rw [cashFlow, hnone]
    rfl
  have htraded : ∀ side, tradedQuantity side client symbol fills = 0 := fun side =>
    traded_eq_zero _ side fun f hf hown => hclient f hf hown.1
  have hvolume : tradedVolume client symbol fills = 0 := by rw [tradedVolume, htraded, htraded, add_zero]
  constructor
  · rw [hposition]
    decide
  · rw [hvolume]
    decide
  · rw [hcash]
    decide
  · rw [hposition, mul_zero]
    decide
  · rw [hcash, hposition, mul_zero, add_zero]
    decide

/-- Of fills on the two sides, what is bought less what is sold. -/
theorem sum_two_sided {g h : ClearingFill → ℤ} {side side' : Side}
    (hfills : ∀ f ∈ fills, f.side = side ∧ f.side ≠ side' ∧ g f = h f ∨
      f.side = side' ∧ f.side ≠ side ∧ g f = -h f) (client symbol : UInt32) :
    (((fillsIn symbol fills).filter fun f => f.clientId = client).map g).sum =
      traded h side client symbol fills - traded h side' client symbol fills := by
  unfold traded
  have hsub : ∀ f ∈ (fillsIn symbol fills).filter fun f => f.clientId = client, f ∈ fills :=
    fun f hf => (List.mem_filter.mp (List.mem_filter.mp hf).1).1
  generalize (fillsIn symbol fills).filter (fun f => f.clientId = client) = own at hsub ⊢
  induction own with
  | nil => rfl
  | cons f own ih =>
    have hrest := ih fun f' hf' => hsub f' (List.mem_cons_of_mem f hf')
    simp only [List.map_cons, List.sum_cons, hrest]
    rcases hfills f (hsub f List.mem_cons_self) with ⟨hside, hother, hg⟩ | ⟨hside, hother, hg⟩
    · rw [hg, if_pos hside, if_neg hother]
      omega
    · rw [hg, if_neg hother, if_pos hside]
      omega

theorem position_eq (hfills : ∀ f ∈ fills, f.TwoSided) (client symbol : UInt32) :
    position client symbol fills = tradedPosition client symbol fills := by
  refine sum_two_sided (fun f hf => ?_) client symbol
  rcases hfills f hf with hside | hside
  · have hother : f.side ≠ Side.sell := hside ▸ Side.sell_ne_buy.symm
    exact Or.inl ⟨hside, hother, by rw [ClearingFill.signedQuantity, if_pos hside]⟩
  · have hother : f.side ≠ Side.buy := hside ▸ Side.sell_ne_buy
    exact Or.inr ⟨hside, hother, by rw [ClearingFill.signedQuantity, if_neg hother]⟩

theorem cashFlow_eq (hfills : ∀ f ∈ fills, f.TwoSided) (client symbol : UInt32) :
    cashFlow client symbol fills =
      tradedValue Side.sell client symbol fills - tradedValue Side.buy client symbol fills := by
  refine sum_two_sided (fun f hf => ?_) client symbol
  rcases hfills f hf with hside | hside
  · have hother : f.side ≠ Side.sell := hside ▸ Side.sell_ne_buy.symm
    exact Or.inr ⟨hside, hother, by rw [ClearingFill.cash, if_pos hside]⟩
  · have hother : f.side ≠ Side.buy := hside ▸ Side.sell_ne_buy
    exact Or.inl ⟨hside, hother, by rw [ClearingFill.cash, if_neg hother]⟩

/-- **The row of a client** says what its fills add up to, up to rounding. -/
theorem rowOf_exact (h : c.Holds fills) (hfills : ∀ f ∈ fills, f.TwoSided)
    (hm : MarksFit md symbol fills client) :
    (rowOf md c symbol client).position.toInt = position client symbol fills ∧
      ((rowOf md c symbol client).volume.toNat : ℤ) = tradedVolume client symbol fills ∧
        |(rowOf md c symbol client).pnl - worth md symbol fills client| ≤
          printError (worth md symbol fills client) := by
  have hposition := h.positions client symbol
  have hraw := h.rawPnl client symbol
  have hvolume := h.volume client symbol
  dsimp only at hposition hraw hvolume
  rw [← tradedPosition, ← position_eq hfills] at hposition
  rw [← cashFlow_eq hfills] at hraw
  have hheld : (c.positions.get client symbol).toInt = position client symbol fills := by
    rw [hposition]
    exact toInt_ofInt_iff.mpr hm.position
  have hshown : ((c.volume.get client symbol).toNat : ℤ) = tradedVolume client symbol fills := by
    rw [hvolume]
    refine toNat_ofInt ?_ hm.volume
    exact add_nonneg (tradedQuantity_nonneg ..) (tradedQuantity_nonneg ..)
  have hmark : (markPrice md symbol (c.positions.get client symbol)).toInt =
      mark md symbol (position client symbol fills) := by
    unfold markPrice mark
    rw [← hheld, apply_ite Int32.toInt]
    exact if_congr Int32.le_iff_toInt_le rfl rfl
  -- the sum of 32 bits is that of the integers, which fits
  have hsum : (c.rawPnl.get client symbol + markPrice md symbol (c.positions.get client symbol) *
      c.positions.get client symbol).toInt = cashFlow client symbol fills +
        mark md symbol (position client symbol fills) * position client symbol fills := by
    rw [hraw, ← Int32.ofInt_toInt (markPrice md symbol (c.positions.get client symbol)), hmark,
      hposition, ← Int32.ofInt_mul, ← Int32.ofInt_add]
    exact toInt_ofInt_iff.mpr hm.worth
  refine ⟨hheld, hshown, ?_⟩
  have hround := abs_markedPnl_sub_le (c.rawPnl.get client symbol)
    (markPrice md symbol (c.positions.get client symbol)) (c.positions.get client symbol)
    (c.volume.get client symbol)
  have hcast : ((c.volume.get client symbol).toNat : ℚ) = tradedVolume client symbol fills := by
    exact_mod_cast hshown
  rw [hsum, hcast] at hround
  exact abs_printed_sub_le hround

/-- A client without a row has nothing in the symbol. -/
theorem worth_absent (h : c.Holds fills) (hkeyed : c.Keyed) (hfills : ∀ f ∈ fills, f.TwoSided)
    (hm : MarksFit md symbol fills client) (hclient : client ∉ c.positions.keys) :
    worth md symbol fills client = 0 := by
  have hlookup : c.positions.lookup client = none := AList.lookup_eq_none.mpr hclient
  have hfind : c.positions.find? client symbol = none := by
    rw [NestedMap.find?, hlookup]
    rfl
  have hraw := hkeyed.rawPnl client symbol
  have hvolume := hkeyed.volume client symbol
  -- the three maps have the same keys
  rw [hfind, Option.isSome_none, eq_comm, Option.isSome_eq_false_iff,
    Option.isNone_iff_eq_none] at hraw hvolume
  have hposition' := h.positions client symbol
  have hraw' := h.rawPnl client symbol
  have hvolume' := h.volume client symbol
  dsimp only at hposition' hraw' hvolume'
  rw [NestedMap.get_eq_getD, hfind, ← tradedPosition, ← position_eq hfills] at hposition'
  rw [NestedMap.get_eq_getD, hraw, ← cashFlow_eq hfills] at hraw'
  rw [NestedMap.get_eq_getD, hvolume] at hvolume'
  have hzero : position client symbol fills = 0 :=
    (toInt_ofInt_iff.mpr hm.position).symm.trans (congrArg Int32.toInt hposition'.symm)
  have hcash : cashFlow client symbol fills = 0 :=
    (toInt_ofInt_iff.mpr hm.cash).symm.trans (congrArg Int32.toInt hraw'.symm)
  have hnone : tradedVolume client symbol fills = 0 := by
    have hnonneg : 0 ≤ tradedVolume client symbol fills :=
      add_nonneg (tradedQuantity_nonneg ..) (tradedQuantity_nonneg ..)
    exact (toNat_ofInt hnonneg hm.volume).symm.trans
      (congrArg (fun v : UInt32 => (v.toNat : ℤ)) hvolume'.symm)
  rw [worth, hzero, hcash, hnone]
  simp

end Fills

end WebData

/-- The clients of some fills. -/
def clientsOf (fills : List ClearingFill) : Finset UInt32 :=
  (fills.map ClearingFill.clientId).toFinset

/-- What those hold that are long in a symbol. -/
def openInterest (symbol : UInt32) (fills : List ClearingFill) : ℤ :=
  ∑ client ∈ clientsOf fills, max (position client symbol fills) 0

/-- The quantity of the fills in a symbol. -/
def turnover (symbol : UInt32) (fills : List ClearingFill) : ℤ :=
  ((fillsIn symbol fills).map fun f => (f.quantity.toNat : ℤ)).sum

/-- A side of each fill. -/
theorem TradePairs.twoSided {ts : List QueuedTrade} {fills : List ClearingFill}
    (h : TradePairs ts fills) : ∀ f ∈ fills, f.TwoSided := by
  induction h with
  | nil => exact fun _ hf => absurd hf List.not_mem_nil
  | cons pair _ ih =>
    intro f hf
    rcases List.mem_cons.mp hf with rfl | hf
    · exact pair.side.imp And.left And.left
    · rcases List.mem_cons.mp hf with rfl | hf
      · exact (pair.side.imp And.right And.right).symm
      · exact ih f hf

namespace WebData

section Sums

variable {fills : List ClearingFill} {ts : List QueuedTrade} {symbol : UInt32}

theorem mem_clientsOf {f : ClearingFill} (hf : f ∈ fills) : f.clientId ∈ clientsOf fills :=
  List.mem_toFinset.mpr (List.mem_map_of_mem hf)

/-- The volumes of all clients are the turnover. -/
theorem sum_tradedVolume (hfills : ∀ f ∈ fills, f.TwoSided) (symbol : UInt32) {clients : Finset UInt32}
    (hclients : ∀ f ∈ fills, f.clientId ∈ clients) :
    ∑ client ∈ clients, tradedVolume client symbol fills = turnover symbol fills := by
  have hown : ∀ client, tradedVolume client symbol fills =
      (((fillsIn symbol fills).filter fun f => f.clientId = client).map
        fun f => (f.quantity.toNat : ℤ)).sum := by
    intro client
    unfold tradedVolume tradedQuantity traded
    rw [← List.sum_map_add]
    refine congrArg List.sum (List.map_congr_left fun f hf => ?_)
    exact (hfills f (List.mem_filter.mp (List.mem_filter.mp hf).1).1).ite_add_ite _
  simp only [hown]
  exact sum_filter_eq_sum _ _ fun f hf => hclients f (List.mem_filter.mp hf).1

/-- **What all clients are worth**: the long positions are marked at the bid and the short ones at the
ask, and the two are equally large. -/
theorem sum_worth (hpairs : TradePairs ts fills) (md : Bots.MDClient) (symbol : UInt32)
    {clients : Finset UInt32} (hclients : clientsOf fills ⊆ clients) :
    ∑ client ∈ clients, worth md symbol fills client =
      -(((md.getBestAsk symbol).price.toInt - (md.getBestBid symbol).price.toInt : ℤ) *
        openInterest symbol fills + turnover symbol fills / 20 : ℚ) := by
  obtain ⟨ts', hown⟩ := hpairs.fillsIn symbol
  obtain ⟨hquantity, hcash⟩ := hown.sum_eq_zero
  have hkeys : ∀ f ∈ fills, f.clientId ∈ clients := fun f hf => hclients (mem_clientsOf hf)
  have hkeys' : ∀ f ∈ fillsIn symbol fills, f.clientId ∈ clients := fun f hf =>
    hkeys f (List.mem_filter.mp hf).1
  have hpositions : ∑ client ∈ clients, position client symbol fills = 0 :=
    (sum_filter_eq_sum _ _ hkeys').trans hquantity
  have hcashes : ∑ client ∈ clients, cashFlow client symbol fills = 0 :=
    (sum_filter_eq_sum _ _ hkeys').trans hcash
  have hlong : ∑ client ∈ clients, max (position client symbol fills) 0 =
      openInterest symbol fills := by
    refine (Finset.sum_subset hclients fun client _ hclient => ?_).symm
    -- a client without fills holds nothing
    have hnone : (fillsIn symbol fills).filter (fun f => f.clientId = client) = [] := by
      refine List.filter_eq_nil_iff.mpr fun f hf hown => hclient ?_
      rw [← of_decide_eq_true hown]
      exact mem_clientsOf (List.mem_filter.mp hf).1
    rw [position, hnone]
    rfl
  set bid := (md.getBestBid symbol).price.toInt with hbid
  set ask := (md.getBestAsk symbol).price.toInt with hask
  have hmark : ∀ client, mark md symbol (position client symbol fills) *
      position client symbol fills =
        ask * position client symbol fills - (ask - bid) * max (position client symbol fills) 0 := by
    intro client
    unfold mark
    split_ifs with hsign
    · rw [max_eq_left hsign]
      ring
    · rw [max_eq_right (not_le.mp hsign).le]
      ring
  have hmarked : ∑ client ∈ clients, (cashFlow client symbol fills +
      mark md symbol (position client symbol fills) * position client symbol fills) =
        -((ask - bid) * openInterest symbol fills) := by
    simp only [hmark]
    rw [Finset.sum_add_distrib, Finset.sum_sub_distrib, ← Finset.mul_sum, ← Finset.mul_sum,
      hpositions, hcashes, hlong]
    ring
  have hvolumes := sum_tradedVolume hpairs.twoSided symbol hkeys
  unfold worth
  rw [Finset.sum_sub_distrib, ← Int.cast_sum, hmarked, ← Finset.sum_div, ← Int.cast_sum, hvolumes]
  push_cast
  ring

/-- The rows of a symbol of the page. -/
theorem filter_rows {md : Bots.MDClient} {c : ClearingClient} (hsymbol : symbol ∈ pageSymbols) :
    (pageSymbols.flatMap fun s => c.positions.keys.map (rowOf md c s)).filter
      (fun row => row.symbol = symbol) = c.positions.keys.map (rowOf md c symbol) := by
  have hrows : ∀ s, (c.positions.keys.map (rowOf md c s)).filter (fun row => row.symbol = symbol) =
      if s = symbol then c.positions.keys.map (rowOf md c s) else [] := by
    intro s
    split_ifs with hs
    · refine List.filter_eq_self.mpr fun row hrow => ?_
      obtain ⟨client, -, rfl⟩ := List.mem_map.mp hrow
      exact decide_eq_true hs
    · refine List.filter_eq_nil_iff.mpr fun row hrow hown => hs ?_
      obtain ⟨client, -, rfl⟩ := List.mem_map.mp hrow
      exact of_decide_eq_true hown
  rw [List.filter_flatMap]
  simp only [hrows]
  rcases List.mem_pair.mp hsymbol with rfl | rfl <;> simp [pageSymbols]

end Sums

end WebData

open WebData

/-- **The page is complete**: whatever datagrams the clearing client took, the lookups of
`jsonify_snapshot` do not throw, and the page has one row for each symbol and each client with a
position, which says what the client of the clearing feed holds. -/
theorem page_complete {buf : ℕ → UInt8} {datagrams : List (List UInt8)} {c : ClearingClient}
    (h : datagrams.foldlM ClearingClient.process (.start buf) = .ok c) (md : Bots.MDClient) :
    ∃ page, jsonifySnapshot md c = some page ∧ c.positions.keys.Nodup ∧
      page.positions.map (fun row => (row.symbol, row.clientId)) =
          pageSymbols.flatMap (fun symbol => c.positions.keys.map fun client => (symbol, client)) ∧
        ∀ row ∈ page.positions, row.position = c.positions.get row.clientId row.symbol ∧
          row.volume = c.volume.get row.clientId row.symbol := by
  have hkeyed := ClearingClient.keyed_of_datagrams (ClearingClient.keyed_start buf) h
  refine ⟨_, jsonifySnapshot_eq hkeyed, c.positions.keys_nodup, ?_, fun row hrow => ?_⟩
  · rw [List.map_flatMap]
    simp only [List.map_map]
    rfl
  · obtain ⟨symbol, -, hrow⟩ := List.mem_flatMap.mp hrow
    obtain ⟨client, -, rfl⟩ := List.mem_map.mp hrow
    exact ⟨rfl, rfl⟩

/-- A sale to another client, in the second symbol. -/
theorem page_complete_sold : ∃ c page,
    (clearingDatagrams 0 [⟨1, 100, 2, 4, 50, Side.sell⟩, ⟨2, 200, 2, 4, 50, Side.buy⟩]).foldlM
        ClearingClient.process (.start fun _ => 0) = .ok c ∧
      jsonifySnapshot Bots.MDClient.empty c = some page ∧
        page.positions.map (fun row => (row.symbol, row.clientId)) =
          pageSymbols.flatMap fun symbol => c.positions.keys.map fun client => (symbol, client) := by
  have hfills : ∀ f ∈ ([⟨1, 100, 2, 4, 50, Side.sell⟩, ⟨2, 200, 2, 4, 50, Side.buy⟩] :
      List ClearingFill), f.TwoSided := by decide +kernel
  obtain ⟨c, hc, -⟩ := ClearingClient.process_datagrams (fun _ => 0) hfills
  obtain ⟨page, hpage, -, hrows, -⟩ := page_complete hc Bots.MDClient.empty
  exact ⟨c, page, hc, hpage, hrows⟩

/-- **The profits and losses add up to the spread**: after any run of two-sided requests the datagrams of
the clearing feed lead to a page whose rows say what each client's fills are worth at the quotes, up to
rounding. Over all clients that is what the open interest loses on the spread, and the fees. -/
theorem pnl_sums_to_spread {symbols : List UInt32} {ls : List BrokerEvent} {s : BrokerRun}
    (hrun : Run (Guarded BrokerRun.TwoSided BrokerStep) (BrokerRun.start symbols) ls s)
    (hcount : s.broker.clearingPublisher.fills.length ≤ ClearingClient.counted)
    (md : Bots.MDClient) {symbol : UInt32} (hsymbol : symbol ∈ pageSymbols)
    (hmarked : ∀ client ∈ clientsOf s.broker.clearingPublisher.fills,
      MarksFit md symbol s.broker.clearingPublisher.fills client) (buf : ℕ → UInt8) :
    let fills := s.broker.clearingPublisher.fills
    ∃ c page, (fills.foldl WireClearingPublisher.publishFill .start).datagrams.foldlM
        ClearingClient.process (.start buf) = .ok c ∧
      jsonifySnapshot md c = some page ∧
        let rows := page.positions.filter fun row => row.symbol = symbol
        (∀ row ∈ rows, row.position.toInt = position row.clientId symbol fills ∧
          (row.volume.toNat : ℤ) = tradedVolume row.clientId symbol fills ∧
            |row.pnl - worth md symbol fills row.clientId| ≤
              printError (worth md symbol fills row.clientId)) ∧
        |(rows.map PositionRow.pnl).sum +
            (((md.getBestAsk symbol).price.toInt - (md.getBestBid symbol).price.toInt : ℤ) *
              openInterest symbol fills + turnover symbol fills / 20)| ≤
          (rows.map fun row => printError (worth md symbol fills row.clientId)).sum := by
  intro fills
  obtain ⟨-, -, -, hpairs⟩ := BrokerRun.exists_cleared hrun
  have hfills : ∀ f ∈ fills, f.TwoSided := TradePairs.twoSided hpairs
  obtain ⟨c, hc, hfollows⟩ := ClearingClient.process_datagrams buf hfills
  have hholds : c.Holds fills := by
    have htaken := hfollows.holds
    rwa [List.take_of_length_le hcount] at htaken
  have hkeyed := ClearingClient.keyed_of_datagrams (ClearingClient.keyed_start buf) hc
  have hall : ∀ client, MarksFit md symbol fills client := by
    intro client
    by_cases hclient : client ∈ clientsOf fills
    · exact hmarked client hclient
    · exact marked_of_absent md symbol fun f hf hown => hclient (hown ▸ mem_clientsOf hf)
  have hrow := fun client => rowOf_exact hholds hfills (hall client)
  refine ⟨c, _, by rw [WireClearingPublisher.datagrams_foldl]; exact hc, jsonifySnapshot_eq hkeyed, ?_⟩
  intro rows
  have hrows : rows = c.positions.keys.map (rowOf md c symbol) := filter_rows hsymbol
  rw [hrows]
  refine ⟨fun row hmem => ?_, ?_⟩
  · obtain ⟨client, -, rfl⟩ := List.mem_map.mp hmem
    exact hrow client
  -- the clients without a row are worth nothing
  have htotal : ∑ client ∈ c.positions.keys.toFinset, worth md symbol fills client =
      -(((md.getBestAsk symbol).price.toInt - (md.getBestBid symbol).price.toInt : ℤ) *
        openInterest symbol fills + turnover symbol fills / 20 : ℚ) := by
    rw [← sum_worth hpairs md symbol Finset.subset_union_right]
    refine Finset.sum_subset Finset.subset_union_left fun client _ hclient => ?_
    exact worth_absent hholds hkeyed hfills (hall client) fun hkey =>
      hclient (List.mem_toFinset.mpr hkey)
  have hsum : ((c.positions.keys.map (rowOf md c symbol)).map PositionRow.pnl).sum =
      ∑ client ∈ c.positions.keys.toFinset, (rowOf md c symbol client).pnl := by
    rw [List.map_map, List.sum_toFinset _ c.positions.keys_nodup]
    rfl
  have herrors : ((c.positions.keys.map (rowOf md c symbol)).map fun row =>
      printError (worth md symbol fills row.clientId)).sum =
        ∑ client ∈ c.positions.keys.toFinset, printError (worth md symbol fills client) := by
    rw [List.map_map, List.sum_toFinset _ c.positions.keys_nodup]
    rfl
  rw [hsum, herrors, ← sub_neg_eq_add, ← htotal, ← Finset.sum_sub_distrib]
  calc |∑ client ∈ c.positions.keys.toFinset,
        ((rowOf md c symbol client).pnl - worth md symbol fills client)|
      ≤ ∑ client ∈ c.positions.keys.toFinset,
        |(rowOf md c symbol client).pnl - worth md symbol fills client| :=
        Finset.abs_sum_le_sum_abs _ _
    _ ≤ ∑ client ∈ c.positions.keys.toFinset, printError (worth md symbol fills client) :=
        Finset.sum_le_sum fun client _ => (hrow client).2.2

/-- A client sells to another, and both keep a quote. -/
theorem pnl_sums_to_spread_quoted :
    let s := [.request (.make .newOrder 1 1 1 100 Side.sell 10 50 0),
      .request (.make .newOrder 2 1 1 200 Side.buy 4 50 0),
      .request (.make .newOrder 3 1 2 200 Side.buy 5 45 0)].foldl BrokerRun.after
        (BrokerRun.start [1])
    ∃ c page, (s.broker.clearingPublisher.fills.foldl WireClearingPublisher.publishFill
        .start).datagrams.foldlM ClearingClient.process (.start fun _ => 0) = .ok c ∧
      jsonifySnapshot s.feed c = some page ∧
        |((page.positions.filter fun row => row.symbol = 1).map PositionRow.pnl).sum +
            ((50 - 45 : ℤ) * (4 : ℤ) + (8 : ℤ) / 20)| ≤
          ((page.positions.filter fun row => row.symbol = 1).map fun row =>
            printError (worth s.feed 1 s.broker.clearingPublisher.fills row.clientId)).sum := by
  intro s
  have hrun : Run (Guarded BrokerRun.TwoSided BrokerStep) (BrokerRun.start [1]) _ s :=
    BrokerRun.run_of_enabled (by decide +kernel) (by decide +kernel)
  have hsymbol : 1 ∈ pageSymbols := by decide
  have hfit : (s.broker.clearingPublisher.fills.all fun f =>
      MarksFit s.feed 1 s.broker.clearingPublisher.fills f.clientId) = true := by decide +kernel
  obtain ⟨c, page, hc, hpage, -, hsum⟩ := pnl_sums_to_spread hrun (by decide +kernel) s.feed hsymbol
    (fun client hclient => by
      obtain ⟨f, hf, rfl⟩ := List.mem_map.mp (List.mem_toFinset.mp hclient)
      exact of_decide_eq_true (List.all_eq_true.mp hfit f hf)) fun _ => 0
  have hask : (s.feed.getBestAsk 1).price.toInt = 50 := by decide +kernel
  have hbid : (s.feed.getBestBid 1).price.toInt = 45 := by decide +kernel
  have hinterest : openInterest 1 s.broker.clearingPublisher.fills = 4 := by decide +kernel
  have hturnover : turnover 1 s.broker.clearingPublisher.fills = 8 := by decide +kernel
  rw [hask, hbid, hinterest, hturnover] at hsum
  exact ⟨c, page, hc, hpage, hsum⟩

end Ndfex
