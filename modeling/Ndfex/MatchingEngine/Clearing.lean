import Mathlib.Algebra.BigOperators.Group.Finset.Piecewise
import Mathlib.Algebra.Order.BigOperators.Group.List
import Ndfex.MatchingEngine.BookAccounts
import Ndfex.MatchingEngine.BrokerRuns

/-!
# Clearing

Each trade passes two fills to clearing, one for either side, so positions and cash flows add up to
zero. The trades of a request go out on the feed behind a summary of what the request traded.

## Main definitions

* `ClearingFill.signedQuantity`, `ClearingFill.cash`: what a fill moves
* `position`, `cashFlow`: what a client's fills in a symbol add up to
* `tradedQuantity`, `tradedValue`: what those of one side add up to
* `TradePairs`: fills that come in pairs, one pair for each trade

## Main results

* `sum_filter_eq_sum`: a sum by keys is the sum
* `toNat_totalQuantity`: the total of a summary does not wrap
* `clearing_zero_sum`: positions and cash flows add up to zero after every request
-/

namespace Ndfex

open Transition

/-! ## Sums -/

/-- The sum of a list, taken key by key. -/
theorem sum_filter_eq_sum {α κ : Type*} [DecidableEq κ] (key : α → κ) (g : α → ℤ) {xs : List α}
    {keys : Finset κ} (hkeys : ∀ x ∈ xs, key x ∈ keys) :
    ∑ k ∈ keys, ((xs.filter fun x => key x = k).map g).sum = (xs.map g).sum := by
  induction xs with
  | nil => simp
  | cons x xs ih =>
    have hsplit : ∀ k, (((x :: xs).filter fun x => key x = k).map g).sum =
        (if key x = k then g x else 0) + ((xs.filter fun x => key x = k).map g).sum := by
      intro k
      by_cases hk : key x = k
      · rw [List.filter_cons_of_pos (by simpa using hk), if_pos hk]
        rfl
      · rw [List.filter_cons_of_neg (by simpa using hk), if_neg hk, zero_add]
    simp only [hsplit, Finset.sum_add_distrib]
    rw [ih fun x hx => hkeys x (List.mem_cons_of_mem _ hx), Finset.sum_ite_eq,
      if_pos (hkeys x (by simp))]
    rfl

/-- The total of trades whose quantities fit in 32 bits together. -/
theorem toNat_totalQuantity {ts : List QueuedTrade}
    (h : (ts.map fun t => t.quantity.toNat).sum < 2 ^ 32) :
    (MarketDataPublisher.totalQuantity ts).toNat = (ts.map fun t => t.quantity.toNat).sum := by
  have key : ∀ (ts : List QueuedTrade) (total : UInt32),
      total.toNat + (ts.map fun t => t.quantity.toNat).sum < 2 ^ 32 →
        (ts.foldl (fun total t => total + t.quantity) total).toNat =
          total.toNat + (ts.map fun t => t.quantity.toNat).sum := by
    intro ts
    induction ts with
    | nil => simp
    | cons t ts ih =>
      intro total hlt
      simp only [List.map_cons, List.sum_cons] at hlt ⊢
      have hadd : (total + t.quantity).toNat = total.toNat + t.quantity.toNat := by
        rw [UInt32.toNat_add]
        omega
      rw [List.foldl_cons, ih _ (by omega), hadd]
      omega
  have hzero := key ts 0 (by simpa using h)
  simpa [MarketDataPublisher.totalQuantity] using hzero

/-! ## Positions -/

/-- The signed quantity of a fill: a buyer gains, a seller gives. -/
def ClearingFill.signedQuantity (f : ClearingFill) : ℤ :=
  if f.side = Side.buy then f.quantity.toNat else -f.quantity.toNat

/-- The cash of a fill: a buyer pays, a seller receives. -/
def ClearingFill.cash (f : ClearingFill) : ℤ :=
  if f.side = Side.buy then -(f.quantity.toNat * f.price.toInt)
  else f.quantity.toNat * f.price.toInt

/-- The fills in a symbol. -/
def fillsIn (symbol : UInt32) (fills : List ClearingFill) : List ClearingFill :=
  fills.filter fun f => f.symbol = symbol

/-- The position of a client in a symbol. -/
def position (client symbol : UInt32) (fills : List ClearingFill) : ℤ :=
  (((fillsIn symbol fills).filter fun f => f.clientId = client).map
    ClearingFill.signedQuantity).sum

/-- The cash flow of a client in a symbol. -/
def cashFlow (client symbol : UInt32) (fills : List ClearingFill) : ℤ :=
  (((fillsIn symbol fills).filter fun f => f.clientId = client).map ClearingFill.cash).sum

/-- What a client's fills of a side in a symbol add up to. -/
def traded (g : ClearingFill → ℤ) (side : Side) (client symbol : UInt32)
    (fills : List ClearingFill) : ℤ :=
  (((fillsIn symbol fills).filter fun f => f.clientId = client).map fun f =>
    if f.side = side then g f else 0).sum

/-- The quantity of a client's fills of a side in a symbol. -/
def tradedQuantity : Side → UInt32 → UInt32 → List ClearingFill → ℤ :=
  traded fun f => f.quantity.toNat

/-- The quantities of a client's fills of a side in a symbol, at their prices. -/
def tradedValue : Side → UInt32 → UInt32 → List ClearingFill → ℤ :=
  traded fun f => f.quantity.toNat * f.price.toInt

theorem traded_append (g : ClearingFill → ℤ) (side : Side) (client symbol : UInt32)
    (fills fills' : List ClearingFill) :
    traded g side client symbol (fills ++ fills') =
      traded g side client symbol fills + traded g side client symbol fills' := by
  unfold traded fillsIn
  rw [List.filter_append, List.filter_append, List.map_append, List.sum_append]

/-- Fills of other clients and symbols add up to nothing. -/
theorem traded_eq_zero (g : ClearingFill → ℤ) (side : Side) {client symbol : UInt32}
    {fills : List ClearingFill} (h : ∀ f ∈ fills, ¬ (f.clientId = client ∧ f.symbol = symbol)) :
    traded g side client symbol fills = 0 := by
  have hnone : (fillsIn symbol fills).filter (fun f => f.clientId = client) = [] := by
    rw [fillsIn, List.filter_filter]
    refine List.filter_eq_nil_iff.mpr fun f hf hboth => h f hf ?_
    rwa [Bool.and_eq_true, decide_eq_true_eq, decide_eq_true_eq] at hboth
  rw [traded, hnone]
  rfl

/-- A fill adds to its client and symbol, on its side. -/
theorem traded_append_own (g : ClearingFill → ℤ) (side : Side) (fills : List ClearingFill)
    (f : ClearingFill) :
    traded g side f.clientId f.symbol (fills ++ [f]) =
      traded g side f.clientId f.symbol fills + if f.side = side then g f else 0 := by
  rw [traded_append]
  simp [traded, fillsIn]

/-- A fill adds nothing to other clients and symbols. -/
theorem traded_append_other (g : ClearingFill → ℤ) (side : Side) {client symbol : UInt32}
    (fills : List ClearingFill) {f : ClearingFill}
    (h : ¬ (client = f.clientId ∧ symbol = f.symbol)) :
    traded g side client symbol (fills ++ [f]) = traded g side client symbol fills := by
  have hnone : traded g side client symbol [f] = 0 := traded_eq_zero g side fun f' hf' hboth => by
    rw [List.mem_singleton.mp hf'] at hboth
    exact h ⟨hboth.1.symm, hboth.2.symm⟩
  rw [traded_append, hnone, add_zero]

/-- A fill adds nothing to the other side. -/
theorem traded_append_side (g : ClearingFill → ℤ) {side : Side} (client symbol : UInt32)
    (fills : List ClearingFill) {f : ClearingFill} (h : f.side ≠ side) :
    traded g side client symbol (fills ++ [f]) = traded g side client symbol fills := by
  by_cases hkey : client = f.clientId ∧ symbol = f.symbol
  · rw [hkey.1, hkey.2, traded_append_own, if_neg h, add_zero]
  · exact traded_append_other g side fills hkey

section Fill

variable (side : Side) (fills : List ClearingFill) {f : ClearingFill} {client symbol : UInt32}

theorem tradedQuantity_own : tradedQuantity side f.clientId f.symbol (fills ++ [f]) =
    tradedQuantity side f.clientId f.symbol fills +
      if f.side = side then (f.quantity.toNat : ℤ) else 0 := traded_append_own ..

theorem tradedQuantity_other (h : ¬ (client = f.clientId ∧ symbol = f.symbol)) :
    tradedQuantity side client symbol (fills ++ [f]) = tradedQuantity side client symbol fills :=
  traded_append_other _ side fills h

theorem tradedValue_own : tradedValue side f.clientId f.symbol (fills ++ [f]) =
    tradedValue side f.clientId f.symbol fills +
      if f.side = side then f.quantity.toNat * f.price.toInt else 0 := traded_append_own ..

theorem tradedValue_other (h : ¬ (client = f.clientId ∧ symbol = f.symbol)) :
    tradedValue side client symbol (fills ++ [f]) = tradedValue side client symbol fills :=
  traded_append_other _ side fills h

theorem tradedValue_side (h : f.side ≠ side) (client symbol : UInt32) :
    tradedValue side client symbol (fills ++ [f]) = tradedValue side client symbol fills :=
  traded_append_side _ client symbol fills h

theorem tradedQuantity_nonneg (client symbol : UInt32) :
    0 ≤ tradedQuantity side client symbol fills := by
  refine List.sum_nonneg fun n hn => ?_
  obtain ⟨f, -, rfl⟩ := List.mem_map.mp hn
  dsimp only
  split_ifs
  · exact Int.natCast_nonneg _
  · exact Int.le_refl 0

end Fill

/-- The fills of the two sides of a trade. -/
structure TradePair (t : QueuedTrade) (resting active : ClearingFill) : Prop where
  orderId : resting.orderId = t.orderId
  quantity : resting.quantity = t.quantity ∧ active.quantity = t.quantity
  price : resting.price = t.price ∧ active.price = t.price
  symbol : resting.symbol = active.symbol
  side : resting.side = Side.buy ∧ active.side = Side.sell ∨
    resting.side = Side.sell ∧ active.side = Side.buy

/-- Fills that come in pairs, one pair for each trade in order. -/
inductive TradePairs : List QueuedTrade → List ClearingFill → Prop
  | nil : TradePairs [] []
  | cons {t : QueuedTrade} {ts : List QueuedTrade} {resting active : ClearingFill}
      {fills : List ClearingFill} (pair : TradePair t resting active)
      (pairs : TradePairs ts fills) : TradePairs (t :: ts) (resting :: active :: fills)

namespace TradePairs

variable {ts ts' : List QueuedTrade} {fills fills' : List ClearingFill}

theorem append (h : TradePairs ts fills) (h' : TradePairs ts' fills') :
    TradePairs (ts ++ ts') (fills ++ fills') := by
  induction h with
  | nil => exact h'
  | cons pair _ ih => exact .cons pair ih

/-- The fills in a symbol come in pairs. -/
theorem fillsIn (h : TradePairs ts fills) (symbol : UInt32) :
    ∃ ts, TradePairs ts (fillsIn symbol fills) := by
  induction h with
  | nil => exact ⟨[], .nil⟩
  | @cons t ts resting active fills pair _ ih =>
    obtain ⟨ts', ih⟩ := ih
    unfold Ndfex.fillsIn at ih ⊢
    by_cases hsymbol : active.symbol = symbol
    · rw [List.filter_cons_of_pos (by simpa [pair.symbol] using hsymbol),
        List.filter_cons_of_pos (by simpa using hsymbol)]
      exact ⟨t :: ts', .cons pair ih⟩
    · rw [List.filter_cons_of_neg (by simpa [pair.symbol] using hsymbol),
        List.filter_cons_of_neg (by simpa using hsymbol)]
      exact ⟨ts', ih⟩

/-- **Paired fills cancel out.** -/
theorem sum_eq_zero (h : TradePairs ts fills) :
    (fills.map ClearingFill.signedQuantity).sum = 0 ∧ (fills.map ClearingFill.cash).sum = 0 := by
  induction h with
  | nil => exact ⟨rfl, rfl⟩
  | cons pair _ ih =>
    obtain ⟨hquantity, hcash⟩ := ih
    simp only [List.map_cons, List.sum_cons, hquantity, hcash, add_zero,
      ClearingFill.signedQuantity, ClearingFill.cash, pair.quantity.1, pair.quantity.2,
      pair.price.1, pair.price.2]
    rcases pair.side with ⟨hr, ha⟩ | ⟨hr, ha⟩
    · rw [hr, ha, if_pos rfl, if_neg Side.sell_ne_buy, if_pos rfl, if_neg Side.sell_ne_buy]
      constructor <;> omega
    · rw [hr, ha, if_neg Side.sell_ne_buy, if_pos rfl, if_neg Side.sell_ne_buy, if_pos rfl]
      constructor <;> omega

end TradePairs

/-! ## The trades of a request -/

/-- The trade that a feed message reports. -/
def MdBody.trade? : MdBody → Option QueuedTrade
  | .trade orderId quantity price => some ⟨orderId, quantity, price⟩
  | _ => none

/-- The trades on the feed. -/
def tradesOf (bodies : List MdBody) : List QueuedTrade := bodies.filterMap MdBody.trade?

/-- The quantity that a response fills of an order. -/
def OePayload.filled (orderId : UInt64) (q : OePayload) : ℕ :=
  if q.msgType = .fill ∧ q.exchOrderId = orderId then q.quantity.toNat else 0

/-- The quantity that responses fill of an order. -/
def filledOf (orderId : UInt64) (items : List OePayload) : ℕ :=
  (items.map (OePayload.filled orderId)).sum

@[simp] theorem tradesOf_append (bodies bodies' : List MdBody) :
    tradesOf (bodies ++ bodies') = tradesOf bodies ++ tradesOf bodies' := List.filterMap_append

theorem tradesOf_filterMap_body (cs : List Callback) : tradesOf (cs.filterMap Callback.body) = [] := by
  rw [tradesOf, List.filterMap_filterMap, List.filterMap_eq_nil_iff]
  intro c _
  cases c with
  | onNewOrder orderId symbol side quantity price flags =>
    simp only [Callback.body]
    split_ifs <;> rfl
  | onDeleteOrder orderId publish => cases publish <;> rfl
  | _ => rfl

theorem tradesOf_tradeBodies (ts : List QueuedTrade) (symbol : UInt32) (side : Side) :
    tradesOf (MarketDataPublisher.tradeBodies ts symbol side) = ts := by
  have hmap : tradesOf (ts.map QueuedTrade.body) = ts := by
    rw [tradesOf, List.filterMap_map]
    exact List.filterMap_some
  unfold MarketDataPublisher.tradeBodies
  split_ifs with hts
  · rw [hts]
    rfl
  · exact hmap

theorem summary_not_mem_filterMap_body (cs : List Callback) (symbol : UInt32) (side : Side)
    (total : UInt32) (price : Int32) :
    MdBody.tradeSummary symbol side total price ∉ cs.filterMap Callback.body := by
  intro hmem
  obtain ⟨c, -, hbody⟩ := List.mem_filterMap.mp hmem
  cases c with
  | onNewOrder orderId symbol side quantity price flags =>
    simp only [Callback.body] at hbody
    split_ifs at hbody
    cases hbody
  | onDeleteOrder orderId publish => cases publish <;> cases hbody
  | _ => cases hbody

/-- The total of the summary among the messages of queued trades. -/
theorem eq_totalQuantity_of_mem_tradeBodies {ts : List QueuedTrade} {symbol symbol' : UInt32}
    {side side' : Side} {total : UInt32} {price : Int32}
    (h : MdBody.tradeSummary symbol' side' total price ∈
      MarketDataPublisher.tradeBodies ts symbol side) :
    total = MarketDataPublisher.totalQuantity ts := by
  unfold MarketDataPublisher.tradeBodies at h
  split_ifs at h
  · cases h
  · rcases List.mem_cons.mp h with heq | hmem
    · exact (MdBody.tradeSummary.inj heq).2.2.1
    · obtain ⟨t, -, ht⟩ := List.mem_map.mp hmem
      cases ht

theorem filledOf_append (orderId : UInt64) (items items' : List OePayload) :
    filledOf orderId (items ++ items') = filledOf orderId items + filledOf orderId items' := by
  simp [filledOf]

/-- A rejection fills nothing. -/
theorem filledOf_returned (orderId : UInt64) (p : OePayload) :
    filledOf orderId (MatchingEngineBroker.returned p) = 0 := by
  unfold MatchingEngineBroker.returned
  split_ifs with hreject
  · simp [filledOf, OePayload.filled, hreject]
  · rfl

/-- What the answers to callbacks fill is what the callbacks fill. -/
theorem filledOf_filterMap_answer (B : MatchingEngineBroker) (orderId : UInt64)
    (cs : List Callback) : filledOf orderId (cs.filterMap B.answer) = filled orderId cs := by
  induction cs with
  | nil => rfl
  | cons c cs ih =>
    have hone : (B.answer c).elim 0 (OePayload.filled orderId) = c.filled orderId := by
      cases c <;> simp [MatchingEngineBroker.answer, MatchingEngineBroker.response, OePayload.make,
        OePayload.filled, Callback.filled]
    rw [filled_cons, ← hone, ← ih]
    cases hanswer : B.answer c with
    | none => simp [List.filterMap_cons_none hanswer]
    | some q => simp [List.filterMap_cons_some hanswer, filledOf]

/-- The fills of trades with orders of the other side come in pairs. -/
theorem tradePairs_trades (B : MatchingEngineBroker) (symbol : UInt32) (incomingId : UInt64)
    {side : Side} {ts : List Trade}
    (hts : ∀ t ∈ ts, t.order.side = Side.buy ∧ side = Side.sell ∨
      t.order.side = Side.sell ∧ side = Side.buy) :
    TradePairs (ts.map Trade.queued)
      ((ts.flatMap (Trade.calls symbol incomingId side)).filterMap B.cleared) := by
  induction ts with
  | nil => exact .nil
  | cons t ts ih =>
    rw [List.flatMap_cons, List.filterMap_append]
    refine .cons ⟨rfl, ⟨rfl, rfl⟩, ⟨rfl, rfl⟩, rfl, hts t (by simp)⟩ (ih fun t' ht' => ?_)
    exact hts t' (List.mem_cons_of_mem _ ht')

/-- What trades with other orders fill of the incoming order. -/
theorem filled_trades (symbol : UInt32) {incomingId : UInt64} (side : Side) {ts : List Trade}
    (hts : ∀ t ∈ ts, t.order.orderId ≠ incomingId) :
    filled incomingId (ts.flatMap (Trade.calls symbol incomingId side)) =
      (ts.map fun t => t.quantity.toNat).sum := by
  induction ts with
  | nil => rfl
  | cons t ts ih =>
    rw [List.flatMap_cons, filled_append, ih fun t' ht' => hts t' (List.mem_cons_of_mem _ ht'),
      Trade.calls, filled_tradeCalls, if_neg (hts t (by simp)), if_pos rfl, zero_add]
    rfl

/-- Two sides, `BUY` or `SELL` both, that route to different maps. -/
theorem opposite_sides {s s' : Side} (hs : s = Side.buy ∨ s = Side.sell)
    (hs' : s' = Side.buy ∨ s' = Side.sell) (h : s.bookSide = s'.bookSide.opposite) :
    s = Side.buy ∧ s' = Side.sell ∨ s = Side.sell ∧ s' = Side.buy := by
  rcases hs with rfl | rfl <;> rcases hs' with rfl | rfl
  · cases h
  · exact Or.inl ⟨rfl, rfl⟩
  · exact Or.inr ⟨rfl, rfl⟩
  · cases h

theorem LadderOp.TwoSided.side {op : LadderOp} (h : op.TwoSided) :
    op.side = Side.buy ∨ op.side = Side.sell := by
  cases op with
  | newOrder => exact h
  | deleteOrder => exact Or.inl rfl
  | modifyOrder => exact h

namespace PriorityBook

variable {b : PriorityBook} {symbol : UInt32} {op : LadderOp}

/-- Every resting order's side is `BUY` or `SELL`. -/
def TwoSided (b : PriorityBook) : Prop := ∀ o ∈ b.orders, o.side = Side.buy ∨ o.side = Side.sell

theorem TwoSided.step (hb : b.TwoSided) (symbol : UInt32) (hop : op.TwoSided) :
    (b.step symbol op).book.TwoSided := by
  refine forall_step (P := fun o => o.side = Side.buy ∨ o.side = Side.sell) (fun _ _ _ h => h)
    symbol hb fun o ho => ?_
  cases op with
  | newOrder orderId side quantity price flags =>
    obtain rfl := Option.some.inj ho
    exact hop
  | deleteOrder orderId => cases ho
  | modifyOrder orderId side quantity price =>
    obtain ⟨x, -, rfl⟩ := Option.map_eq_some_iff.mp ho
    exact hop

/-- **The trades of a call**: what they queue, what they pass to clearing, and what they fill of the
order of the call. -/
theorem trades_of_step (B : MatchingEngineBroker)
    (hsides : b.TwoSided) (hord : b.Ordered) (hop : op.TwoSided)
    (hnew : op.Enters op.orderId → b.find? op.orderId = none) :
    let calls := (b.step symbol op).calls
    let trades := calls.filterMap Callback.queuedTrade
    TradePairs trades (calls.filterMap B.cleared) ∧
      (trades.map fun t => t.quantity.toNat).sum = filled op.orderId calls ∧
      (trades.map fun t => t.quantity.toNat).sum < 2 ^ 32 := by
  intro calls trades
  obtain ⟨ts, tail, hcalls, htail, hsum, hts⟩ := trades_step b symbol op
  obtain ⟨hqueued, hcleared, hfilled⟩ := B.not_ofTrade op.orderId fun c hc => (htail c hc).1
  replace hcalls : calls = _ := hcalls
  have htrades : trades = ts.map Trade.queued := by
    show calls.filterMap Callback.queuedTrade = _
    rw [hcalls, List.filterMap_append, hqueued, List.append_nil, filterMap_queuedTrade]
  have hquantities : (trades.map fun t => t.quantity.toNat) =
      ts.map fun t => t.quantity.toNat := by
    rw [htrades, List.map_map]
    rfl
  rw [hquantities, htrades, hcalls, List.filterMap_append, hcleared, List.append_nil,
    filled_append, hfilled, add_zero]
  refine ⟨?_, ?_, lt_of_le_of_lt hsum (UInt32.toNat_lt _)⟩
  · refine tradePairs_trades B symbol op.orderId fun t ht => ?_
    have hmem := (hts t ht).1
    have hside := hord.sided _ _ hmem
    exact opposite_sides (hsides _ (mem_orders.mpr ⟨_, hmem⟩)) hop.side hside
  · refine (filled_trades symbol op.side fun t ht hid => ?_).symm
    obtain ⟨hmem, -, hne⟩ := hts t ht
    refine find?_eq_none.mp (hnew (hne.resolve_right (not_not.mpr hid))) _ ?_ hid
    exact mem_orders.mpr ⟨_, hmem⟩

end PriorityBook

/-! ## Runs -/

namespace BrokerRun

variable {s : BrokerRun} {books : UInt32 → PriorityBook} {p : OePayload}

/-- The trades of a request: its fills come in pairs, and they add up to what it fills of its own
order. -/
theorem trades_of_callsOf (hs : s.broker.Sound s.requests books)
    (hsides : ∀ symbol, (books symbol).TwoSided) (hp : s.TwoSided (.request p))
    (hfresh : (newIds (s.requests ++ [p])).Nodup) :
    let calls := s.broker.callsOf books p
    let trades := calls.filterMap Callback.queuedTrade
    TradePairs trades (calls.filterMap (s.broker.accept p).cleared) ∧
      (trades.map fun t => t.quantity.toNat).sum = filled p.exchOrderId calls ∧
      (trades.map fun t => t.quantity.toNat).sum < 2 ^ 32 := by
  unfold MatchingEngineBroker.callsOf
  cases hop : s.broker.opOf p with
  | none => exact ⟨.nil, rfl, by simp⟩
  | some op =>
    obtain ⟨hpop, -⟩ := MatchingEngineBroker.op_of_opOf hop
    rw [← OePayload.orderId_of_op hpop]
    exact PriorityBook.trades_of_step _ (hsides _) (hs.ordered _) (hp op hpop)
      (hs.find?_fresh hfresh hpop _)

/-- The sides of the orders after a request. -/
theorem twoSided_booksOf (hsides : ∀ symbol, (books symbol).TwoSided)
    (hp : s.TwoSided (.request p)) (symbol : UInt32) :
    (s.broker.booksOf books p symbol).TwoSided := by
  unfold MatchingEngineBroker.booksOf
  cases hop : s.broker.opOf p with
  | none => exact hsides symbol
  | some op =>
    obtain ⟨hpop, -⟩ := MatchingEngineBroker.op_of_opOf hop
    by_cases hsymbol : symbol = p.symbol
    · obtain rfl := hsymbol
      simpa using (hsides _).step _ (hp op hpop)
    · simpa [Function.update_of_ne hsymbol] using hsides symbol

/-- The fills so far come in pairs, one for each trade on the feed. -/
def Cleared (s : BrokerRun) : Prop :=
  TradePairs (tradesOf s.broker.publisher.bodies) s.broker.clearingPublisher.fills

theorem Cleared.next (h : s.Cleared) (hs : s.broker.Sound s.requests books)
    (hsides : ∀ symbol, (books symbol).TwoSided) (hp : s.TwoSided (.request p))
    (hfresh : (newIds (s.requests ++ [p])).Nodup) : (s.next p).Cleared := by
  obtain ⟨hhandled, -⟩ := hs.handle hfresh
  obtain ⟨hpairs, -, -⟩ := trades_of_callsOf hs hsides hp hfresh
  unfold Cleared
  rw [BrokerRun.next, hhandled.bodies, hhandled.fills, tradesOf_append, tradesOf_append,
    tradesOf_filterMap_body, tradesOf_tradeBodies, List.nil_append]
  exact h.append hpairs

theorem Cleared.heartbeat (h : s.Cleared) : (s.after .heartbeat).Cleared := by
  have hnone : tradesOf [MdBody.heartbeat] = [] := rfl
  unfold Cleared
  rw [BrokerRun.after, MatchingEngineBroker.heartbeat, MarketDataPublisher.publishHeartbeat,
    MarketDataPublisher.bodies_send, MarketDataPublisher.bodies_writeMsg, tradesOf_append, hnone,
    List.append_nil]
  exact h

/-- **Every run** of two-sided requests clears its trades. -/
theorem exists_cleared {symbols : List UInt32} {ls : List BrokerEvent} {s : BrokerRun}
    (h : Run (Guarded TwoSided BrokerStep) (start symbols) ls s) :
    ∃ books, s.broker.Sound s.requests books ∧ (∀ symbol, (books symbol).TwoSided) ∧
      s.Cleared := by
  refine h.invariant (I := fun s => ∃ books, s.broker.Sound s.requests books ∧
    (∀ symbol, (books symbol).TwoSided) ∧ s.Cleared) ?_
    ⟨_, MatchingEngineBroker.sound_start symbols, ?_, ?_⟩
  · rintro s l t ⟨books, hs, hsides, hcleared⟩ ⟨hguard, hen, rfl⟩
    cases l with
    | heartbeat => exact ⟨books, hs.heartbeat, hsides, hcleared.heartbeat⟩
    | request p =>
      obtain ⟨-, hfresh⟩ := hen
      exact ⟨_, (hs.handle hfresh).2, twoSided_booksOf hsides hguard,
        hcleared.next hs hsides hguard hfresh⟩
  · simp [PriorityBook.TwoSided, PriorityBook.orders, PriorityBook.empty]
  · simp only [BrokerRun.start, Cleared]
    rw [MatchingEngineBroker.start_eq]
    exact .nil

end BrokerRun

/-- **Clearing is zero-sum**: after every request the fills come in pairs, one for each trade, so in
every symbol the positions and the cash flows of all clients add up to zero; and the trades of a
request add up to what it filled of its own order, which is the total of their summary. -/
theorem clearing_zero_sum {symbols : List UInt32} {ls : List BrokerEvent} {s : BrokerRun}
    (h : Run (Guarded BrokerRun.TwoSided BrokerStep) (BrokerRun.start symbols) ls s) :
    let fills := s.broker.clearingPublisher.fills
    TradePairs (tradesOf s.broker.publisher.bodies) fills ∧
      (∀ symbol, (∃ ts, TradePairs ts (fillsIn symbol fills)) ∧
        ∀ clients : Finset UInt32, (∀ f ∈ fills, f.clientId ∈ clients) →
          ∑ c ∈ clients, position c symbol fills = 0 ∧
            ∑ c ∈ clients, cashFlow c symbol fills = 0) ∧
      ∀ p t, Guarded BrokerRun.TwoSided BrokerStep s (.request p) t →
        ∃ items bodies, t.broker.toClient.items = s.broker.toClient.items ++ items ∧
          t.broker.publisher.bodies = s.broker.publisher.bodies ++ bodies ∧
          ((tradesOf bodies).map fun t => t.quantity.toNat).sum = filledOf p.exchOrderId items ∧
          (tradesOf bodies ≠ [] → ∃ side total price,
            MdBody.tradeSummary p.symbol side total price ∈ bodies) ∧
          ∀ symbol side total price, MdBody.tradeSummary symbol side total price ∈ bodies →
            total.toNat = filledOf p.exchOrderId items := by
  intro fills
  obtain ⟨books, hs, hsides, hcleared⟩ := BrokerRun.exists_cleared h
  refine ⟨hcleared, fun symbol => ?_, ?_⟩
  · obtain ⟨ts, hpairs⟩ := TradePairs.fillsIn hcleared symbol
    refine ⟨⟨ts, hpairs⟩, fun clients hclients => ?_⟩
    obtain ⟨hquantity, hcash⟩ := hpairs.sum_eq_zero
    have hkeys : ∀ f ∈ fillsIn symbol fills, f.clientId ∈ clients := fun f hf =>
      hclients f (List.mem_filter.mp hf).1
    constructor
    · rw [← hquantity]
      exact sum_filter_eq_sum ClearingFill.clientId ClearingFill.signedQuantity hkeys
    · rw [← hcash]
      exact sum_filter_eq_sum ClearingFill.clientId ClearingFill.cash hkeys
  · rintro p t ⟨hguard, ⟨-, hfresh⟩, rfl⟩
    obtain ⟨hhandled, -⟩ := hs.handle hfresh
    obtain ⟨-, hsum, hlt⟩ := BrokerRun.trades_of_callsOf hs hsides hguard hfresh
    have hitems : filledOf p.exchOrderId (MatchingEngineBroker.returned p ++
        (s.broker.callsOf books p).filterMap (s.broker.accept p).answer) =
          filled p.exchOrderId (s.broker.callsOf books p) := by
      rw [filledOf_append, filledOf_returned, filledOf_filterMap_answer, zero_add]
    refine ⟨_, _, hhandled.items, hhandled.bodies, ?_, ?_, ?_⟩
    · rw [hitems, tradesOf_append, tradesOf_filterMap_body, tradesOf_tradeBodies, List.nil_append]
      exact hsum
    · intro hne
      rw [tradesOf_append, tradesOf_filterMap_body, tradesOf_tradeBodies, List.nil_append] at hne
      unfold MarketDataPublisher.tradeBodies
      rw [if_neg hne]
      exact ⟨_, _, _, List.mem_append_right _ List.mem_cons_self⟩
    · intro symbol side total price hsummary
      rcases List.mem_append.mp hsummary with hbody | hbody
      · exact absurd hbody (summary_not_mem_filterMap_body _ _ _ _ _)
      · rw [hitems, ← hsum, eq_totalQuantity_of_mem_tradeBodies hbody, toNat_totalQuantity hlt]

/-- Two clients after a partial fill. -/
theorem clearing_zero_sum_two_clients :
    let s := [.request ⟨.newOrder, 1, 7, 1, 100, Side.sell, 10, 50, 0⟩,
      .request ⟨.newOrder, 2, 7, 1, 200, Side.buy, 4, 50, 0⟩].foldl BrokerRun.after
        (BrokerRun.start [7])
    ∑ c ∈ {100, 200}, position c 7 s.broker.clearingPublisher.fills = 0 ∧
      ∑ c ∈ {100, 200}, cashFlow c 7 s.broker.clearingPublisher.fills = 0 := by
  have hrun : Run (Guarded BrokerRun.TwoSided BrokerStep) (BrokerRun.start [7])
      [.request ⟨.newOrder, 1, 7, 1, 100, Side.sell, 10, 50, 0⟩,
        .request ⟨.newOrder, 2, 7, 1, 200, Side.buy, 4, 50, 0⟩] _ :=
    BrokerRun.run_of_enabled (by decide +kernel) (by decide +kernel)
  exact ((clearing_zero_sum hrun).2.1 7).2 {100, 200} (by decide +kernel)

end Ndfex
