import Ndfex.Bots.WeightedMid
import Ndfex.Containers.OrderedSet
import Ndfex.Transition.Run

/-!
# The stack of quotes

`StackManager` keeps a few open orders on each side, at prices that it was once told to quote. When it is
told another price it cancels the orders ahead of it, and if the stack is full, one of the orders that are
left moves to the price. The bids are a set sorted from the lowest price and the asks one sorted from the
highest, and the order that moves is the last one.

## Main definitions

* `StackManager`, `StackManager.stackSide`, `StackManager.process`: the manager and its methods
* `StackManager.Stacks`: what a call of `stack_side` does
* `StackManager.KeepsBest`: what a call is for
* `StackManager.ProcessStep`: the calls of `process`

## Main results

* `StackManager.within_of_run`: no side ever holds more than the stack's depth
* `StackManager.keepsBest_iff`: when a call does what it is for
-/

namespace Ndfex.Bots

open Containers Transition

/-- `StackManager::open_order`. -/
structure OpenOrder where
  orderId : UInt32
  price : Int32
  quantity : UInt32
deriving DecidableEq, Repr

/-- The comparator of a set of orders: `operator<` for the bids, `operator>` for the asks. -/
def OpenOrder.before : BookSide → Int32 → Int32 → Prop
  | .buy, p, p' => p < p'
  | .sell, p, p' => p > p'

namespace OpenOrder

instance (h : BookSide) : DecidableRel (before h) := fun p p' =>
  match h with
  | .buy => inferInstanceAs (Decidable (p < p'))
  | .sell => inferInstanceAs (Decidable (p > p'))

instance (h : BookSide) : IsStrictTotalOrder Int32 (before h) where
  trichotomous p p' h₁ h₂ := by
    cases h <;> exact Int32.le_antisymm (Int32.not_lt.mp (by assumption))
      (Int32.not_lt.mp (by assumption))
  irrefl p := by cases h <;> exact Int32.lt_irrefl
  trans p p' p'' := by
    cases h
    · exact fun h₁ h₂ => Int32.lt_trans h₁ h₂
    · exact fun h₁ h₂ => Int32.lt_trans h₂ h₁

/-- An order is ahead of a price: a bid above it, an ask below it. -/
def ahead (h : BookSide) (price : Int32) (o : OpenOrder) : Bool :=
  match h with
  | .buy => o.price > price
  | .sell => o.price < price

/-- What is ahead comes later in the set. -/
theorem ahead_iff {h : BookSide} {price : Int32} {o : OpenOrder} :
    o.ahead h price ↔ before h price o.price := by
  cases h <;> exact decide_eq_true_iff

end OpenOrder

/-- The set of the open orders of a side. -/
abbrev SideOrders (h : BookSide) := OrderedSet (OpenOrder.before h) OpenOrder.price

/-- The calls of the order-entry client. -/
inductive OeCall
  | sendOrder (symbol : UInt32) (orderId : UInt64) (side : Side) (quantity : UInt32) (price : Int32)
      (flags : UInt8)
  | cancelOrder (orderId : UInt64)
  | modifyOrder (orderId : UInt64) (side : Side) (quantity : UInt32) (price : Int32)
deriving DecidableEq, Repr

/-- `StackManager`. The id of the next order is kept by the caller, who shares it with other managers. -/
structure StackManager where
  symbol : SymbolDefinition
  widthInTicks : UInt32
  quantity : UInt32
  stackDepth : UInt32
  lastOrderSendTs : UInt64
  bidOrders : SideOrders .buy
  askOrders : SideOrders .sell

namespace StackManager

/-- The constructor. -/
def start (symbol : SymbolDefinition) (widthInTicks quantity stackDepth : UInt32) : StackManager :=
  ⟨symbol, widthInTicks, quantity, stackDepth, 0, .empty, .empty⟩

/-- The orders of a side. -/
def orders (m : StackManager) : (h : BookSide) → SideOrders h
  | .buy => m.bidOrders
  | .sell => m.askOrders

/-- The manager with the orders of a side replaced. -/
def setOrders (m : StackManager) : (h : BookSide) → SideOrders h → StackManager
  | .buy, s => { m with bidOrders := s }
  | .sell, s => { m with askOrders := s }

/-- The side byte of a side's orders. -/
def sideOf : BookSide → Side
  | .buy => Side.buy
  | .sell => Side.sell

/-- What a call of `stack_side` reads of the clock: for its check, and for its stamp. -/
structure Clock where
  checked : UInt64
  stamped : UInt64

/-- What a method leaves: the manager, the next id, and the calls that it made. -/
structure Outcome where
  manager : StackManager
  lastOrderId : UInt32
  calls : List OeCall

/-- The orders that the sweep of `stack_side` leaves. -/
def kept (m : StackManager) (h : BookSide) (price : Int32) : SideOrders h :=
  (m.orders h).filter fun o => !o.ahead h price

/-- The calls of the sweep. -/
def cancels (m : StackManager) (h : BookSide) (price : Int32) : List OeCall :=
  ((m.orders h).filter (OpenOrder.ahead h price)).elements.map fun o =>
    .cancelOrder o.orderId.toUInt64

/-- `StackManager::stack_side`. It has no outcome where it takes the last order of an empty set. -/
def stackSide (m : StackManager) (h : BookSide) (price : Int32) (lastOrderId : UInt32)
    (clock : Clock) : Option Outcome :=
  -- cancel any orders ahead of the price
  let orders := m.kept h price
  let cancels := m.cancels h price
  if (orders.find? price).isSome then some ⟨m.setOrders h orders, lastOrderId, cancels⟩
  else if orders.size ≥ m.stackDepth.toNat then
    match orders.last? with
    | none => none
    | some worstOrder =>
      let moved := { worstOrder with price, quantity := m.quantity }
      some
        ⟨{ m.setOrders h (orders.eraseLast.insert moved) with lastOrderSendTs := clock.stamped },
          lastOrderId,
          cancels ++ [.modifyOrder worstOrder.orderId.toUInt64 (sideOf h) m.quantity price]⟩
  else if m.lastOrderSendTs = 0 ∨ clock.checked - m.lastOrderSendTs > 100000000 then
    some
      ⟨{ m.setOrders h (orders.insert ⟨lastOrderId, price, m.quantity⟩) with
          lastOrderSendTs := clock.stamped },
        lastOrderId + 1,
        cancels ++ [.sendOrder m.symbol.symbol lastOrderId.toUInt64 (sideOf h) m.quantity price 0]⟩
  else some ⟨m.setOrders h orders, lastOrderId, cancels⟩

/-- A call of `process`: its arguments, the id that it finds, and the clock for each side. -/
structure ProcessCall where
  fairValue : Int32
  bidPrice : Int32
  askPrice : Int32
  lastOrderId : UInt32
  clock : BookSide → Clock

/-- `bid_price_to_stack`. The width is unsigned, and so are the difference and the quotient by the
tick. -/
def bidPriceToStack (m : StackManager) (fairValue bidPrice : Int32) : Int32 :=
  let desiredBidPrice := (fairValue.toUInt32 - m.widthInTicks).toInt32
  let desiredBidPrice := (desiredBidPrice.toUInt32 / m.symbol.tickSize * m.symbol.tickSize).toInt32
  let price := if bidPrice < desiredBidPrice then bidPrice else desiredBidPrice
  if price < m.symbol.minPrice then m.symbol.minPrice else price

/-- `ask_price_to_stack`. The lowest price minus one is a signed overflow. -/
def askPriceToStack (m : StackManager) (fairValue askPrice : Int32) : Option Int32 :=
  let desiredAskPrice := (fairValue.toUInt32 + m.widthInTicks).toInt32
  if desiredAskPrice = Int32.minValue then none
  else
    let desiredAskPrice :=
      ((desiredAskPrice - 1).toUInt32 / m.symbol.tickSize * m.symbol.tickSize).toInt32
    let price := if desiredAskPrice < askPrice then askPrice else desiredAskPrice
    some (if price > m.symbol.maxPrice then m.symbol.maxPrice else price)

/-- Prices that are not positive are not quoted. -/
def stackPrice (m : StackManager) (h : BookSide) (price : Int32) (lastOrderId : UInt32)
    (clock : Clock) : Option Outcome :=
  if price > 0 then m.stackSide h price lastOrderId clock else some ⟨m, lastOrderId, []⟩

/-- `StackManager::process`. -/
def process (m : StackManager) (c : ProcessCall) : Option Outcome := do
  let bidPrice := m.bidPriceToStack c.fairValue c.bidPrice
  let askPrice ← m.askPriceToStack c.fairValue c.askPrice
  if bidPrice ≥ askPrice then some ⟨m, c.lastOrderId, []⟩
  else
    let bids ← m.stackPrice .buy bidPrice c.lastOrderId (c.clock .buy)
    let asks ← bids.manager.stackPrice .sell askPrice bids.lastOrderId (c.clock .sell)
    some ⟨asks.manager, asks.lastOrderId, bids.calls ++ asks.calls⟩

/-- A call of `process` that has an outcome. -/
def ProcessStep (m : StackManager) (c : ProcessCall) (m' : StackManager) : Prop :=
  ∃ r, m.process c = some r ∧ r.manager = m'

/-! ## What a call of `stack_side` does -/

variable {m m' : StackManager} {h h' : BookSide} {price : Int32} {lastOrderId : UInt32}
  {clock : Clock} {r : Outcome}

@[simp] theorem orders_setOrders (m : StackManager) (h : BookSide) (s : SideOrders h) :
    (m.setOrders h s).orders h = s := by cases h <;> rfl

theorem orders_setOrders_of_ne (m : StackManager) (hne : h' ≠ h) (s : SideOrders h) :
    (m.setOrders h s).orders h' = m.orders h' := by
  cases h <;> cases h' <;> first | rfl | exact absurd rfl hne

@[simp] theorem stackDepth_setOrders (m : StackManager) (h : BookSide) (s : SideOrders h) :
    (m.setOrders h s).stackDepth = m.stackDepth := by cases h <;> rfl

@[simp] theorem orders_stamp (m : StackManager) (h : BookSide) (ts : UInt64) :
    { m with lastOrderSendTs := ts }.orders h = m.orders h := by cases h <;> rfl

theorem mem_kept {o : OpenOrder} : o ∈ m.kept h price ↔ o ∈ m.orders h ∧ ¬ o.ahead h price := by
  rw [kept, OrderedSet.mem_filter, Bool.not_eq_true', Bool.not_eq_true]

/-- The orders that are left by the sweep fill the stack. -/
def Full (m : StackManager) (h : BookSide) (price : Int32) : Prop :=
  m.stackDepth.toNat ≤ (m.kept h price).size

/-- None of them has the price. -/
def Untracked (m : StackManager) (h : BookSide) (price : Int32) : Prop :=
  ∀ o ∈ m.kept h price, o.price ≠ price

/-- The order with another price, in the manager's quantity. -/
def moved (m : StackManager) (price : Int32) (o : OpenOrder) : OpenOrder :=
  { o with price, quantity := m.quantity }

/-- **What a call of `stack_side` does** after its sweep: nothing, or it moves the last order, or it sends
a new one. -/
inductive Stacks (m : StackManager) (h : BookSide) (price : Int32) (r : Outcome) : Prop
  | stays (orders : r.manager.orders h = m.kept h price) (calls : r.calls = m.cancels h price)
      (reason : ¬ (m.Full h price ∧ m.Untracked h price))
  | moves (last : OpenOrder) (full : m.Full h price) (untracked : m.Untracked h price)
      (isLast : (m.kept h price).last? = some last)
      (orders : r.manager.orders h = (m.kept h price).eraseLast.insert (m.moved price last))
      (calls : r.calls = m.cancels h price ++
        [.modifyOrder last.orderId.toUInt64 (sideOf h) m.quantity price])
  | sends (orderId : UInt32) (full : ¬ m.Full h price) (untracked : m.Untracked h price)
      (orders : r.manager.orders h = (m.kept h price).insert ⟨orderId, price, m.quantity⟩)
      (calls : r.calls = m.cancels h price ++
        [.sendOrder m.symbol.symbol orderId.toUInt64 (sideOf h) m.quantity price 0])

theorem untracked_iff : m.Untracked h price ↔ (m.kept h price).find? price = none :=
  OrderedSet.find?_eq_none.symm

/-- A call does one of these things, and touches one side only. -/
theorem stacks_of_stackSide (hr : m.stackSide h price lastOrderId clock = some r) :
    m.Stacks h price r ∧ (∀ h', h' ≠ h → r.manager.orders h' = m.orders h') ∧
      r.manager.stackDepth = m.stackDepth := by
  unfold stackSide at hr
  dsimp only at hr
  -- the price is there, or the stack is full, or there is room for an order
  by_cases htracked : ((m.kept h price).find? price).isSome
  · rw [if_pos htracked] at hr
    cases hr
    refine ⟨.stays (orders_setOrders ..) rfl ?_, fun h' hne => orders_setOrders_of_ne m hne _,
      stackDepth_setOrders ..⟩
    rintro ⟨-, huntracked⟩
    rw [untracked_iff.mp huntracked] at htracked
    cases htracked
  have huntracked : m.Untracked h price := untracked_iff.mpr (by simpa using htracked)
  rw [if_neg htracked] at hr
  by_cases hfull : (m.kept h price).size ≥ m.stackDepth.toNat
  · rw [if_pos hfull] at hr
    cases hlast : (m.kept h price).last? with
    | none =>
      rw [hlast] at hr
      cases hr
    | some last =>
      rw [hlast] at hr
      cases hr
      refine ⟨.moves last hfull huntracked hlast ?_ rfl, fun h' hne => ?_, stackDepth_setOrders ..⟩
      · exact (orders_stamp ..).trans (orders_setOrders ..)
      · exact (orders_stamp ..).trans (orders_setOrders_of_ne m hne _)
  rw [if_neg hfull] at hr
  split_ifs at hr with hrate
  · cases hr
    refine ⟨.sends lastOrderId hfull huntracked ?_ rfl, fun h' hne => ?_, stackDepth_setOrders ..⟩
    · exact (orders_stamp ..).trans (orders_setOrders ..)
    · exact (orders_stamp ..).trans (orders_setOrders_of_ne m hne _)
  · -- the last order was sent too short a time ago
    cases hr
    exact ⟨.stays (orders_setOrders ..) rfl fun hboth => hfull hboth.1,
      fun h' hne => orders_setOrders_of_ne m hne _, stackDepth_setOrders ..⟩

/-- A call has no outcome only where a full stack has no order. -/
theorem stackSide_eq_none (hr : m.stackSide h price lastOrderId clock = none) :
    m.Full h price ∧ m.Untracked h price ∧ (m.kept h price).size = 0 := by
  unfold stackSide at hr
  dsimp only at hr
  split_ifs at hr with htracked hfull
  refine ⟨hfull, untracked_iff.mpr (by simpa using htracked), OrderedSet.last?_eq_none.mp ?_⟩
  cases hlast : (m.kept h price).last? with
  | none => rfl
  | some last =>
    rw [hlast] at hr
    cases hr

/-- The moved order comes in under a new key. -/
theorem untracked_eraseLast (huntracked : m.Untracked h price) {last : OpenOrder}
    (hlast : (m.kept h price).last? = some last) :
    ∀ o ∈ (m.kept h price).eraseLast, o.price ≠ (m.moved price last).price := fun o ho =>
  huntracked o ((OrderedSet.mem_eraseLast hlast).mp ho).1

/-! ## The depth of the stack -/

/-- No side has more orders than the depth of the stack. -/
def Within (m : StackManager) : Prop := ∀ h, (m.orders h).size ≤ m.stackDepth.toNat

theorem Within.kept (hm : m.Within) (h : BookSide) (price : Int32) :
    (m.kept h price).size ≤ m.stackDepth.toNat :=
  (OrderedSet.size_filter_le _).trans (hm h)

/-- **A call keeps the depth**. -/
theorem Within.stackSide (hm : m.Within) (hr : m.stackSide h price lastOrderId clock = some r) :
    r.manager.Within := by
  obtain ⟨hstacks, hother, hdepth⟩ := stacks_of_stackSide hr
  intro h'
  rw [hdepth]
  by_cases hside : h' = h
  · subst hside
    have hle := hm.kept h' price
    cases hstacks with
    | stays orders =>
      rw [orders]
      exact hle
    | moves last full untracked isLast orders =>
      have hsize := OrderedSet.size_eraseLast isLast
      rw [orders, OrderedSet.size_insert (untracked_eraseLast untracked isLast), hsize]
      exact hle
    | sends orderId full untracked orders =>
      have hnew : ∀ o ∈ m.kept h' price, o.price ≠ (OpenOrder.mk orderId price m.quantity).price :=
        untracked
      rw [orders, OrderedSet.size_insert hnew]
      exact Nat.lt_of_not_le full
  · rw [hother h' hside]
    exact hm h'

theorem within_start (symbol : SymbolDefinition) (widthInTicks quantity stackDepth : UInt32) :
    (start symbol widthInTicks quantity stackDepth).Within := by
  intro h
  cases h <;> exact Nat.zero_le _

theorem Within.stackPrice (hm : m.Within) (hr : m.stackPrice h price lastOrderId clock = some r) :
    r.manager.Within := by
  unfold StackManager.stackPrice at hr
  split_ifs at hr
  · exact hm.stackSide hr
  · cases hr
    exact hm

theorem Within.process {c : ProcessCall} (hm : m.Within) (hr : m.process c = some r) :
    r.manager.Within := by
  simp only [StackManager.process, Option.bind_eq_bind, Option.bind_eq_some_iff] at hr
  obtain ⟨askPrice, -, hr⟩ := hr
  split_ifs at hr
  · cases hr
    exact hm
  · simp only [Option.bind_eq_some_iff] at hr
    obtain ⟨bids, hbids, asks, hasks, hdone⟩ := hr
    cases hdone
    exact (hm.stackPrice hbids).stackPrice (r := asks) hasks

/-- **No side ever holds more than the stack's depth**. -/
theorem within_of_run {symbol : SymbolDefinition} {widthInTicks quantity stackDepth : UInt32}
    {cs : List ProcessCall} (hrun : Run ProcessStep (start symbol widthInTicks quantity stackDepth) cs m) :
    m.Within := by
  refine hrun.invariant (I := Within) ?_ (within_start symbol widthInTicks quantity stackDepth)
  rintro m c m' hm ⟨r, hr, rfl⟩
  exact hm.process hr

/-! ## What a call is for -/

/-- **The stack keeps its best orders**: after a call no order is ahead of the price, the prices are
distinct, and there are no more orders than the depth. If the stack was full and the price new, the order
that moved is the one farthest from the market, and the others stay. -/
structure KeepsBest (m : StackManager) (h : BookSide) (price : Int32) (r : Outcome) : Prop where
  behind : ∀ o ∈ r.manager.orders h, ¬ o.ahead h price
  distinct : ((r.manager.orders h).elements.map OpenOrder.price).Nodup
  depth : (r.manager.orders h).size ≤ m.stackDepth.toNat
  other : ∀ h', h' ≠ h → r.manager.orders h' = m.orders h'
  evicts : m.Full h price → m.Untracked h price →
    ∃ worst ∈ m.kept h price, (∀ o ∈ m.kept h price, o ≠ worst → o.ahead h worst.price) ∧
      r.calls = m.cancels h price ++
        [.modifyOrder worst.orderId.toUInt64 (sideOf h) m.quantity price] ∧
      ∀ o, o ∈ r.manager.orders h ↔ o = m.moved price worst ∨ o ∈ m.kept h price ∧ o ≠ worst

/-- No order is ahead of its own price. -/
theorem not_ahead_self (h : BookSide) (o : OpenOrder) : ¬ o.ahead h o.price := by
  rw [OpenOrder.ahead_iff]
  exact Std.Irrefl.irrefl o.price

theorem mem_moves {last : OpenOrder} (untracked : m.Untracked h price)
    (isLast : (m.kept h price).last? = some last) {o : OpenOrder} :
    o ∈ (m.kept h price).eraseLast.insert (m.moved price last) ↔
      o = m.moved price last ∨ o ∈ m.kept h price ∧ o ≠ last := by
  rw [OrderedSet.mem_insert (untracked_eraseLast untracked isLast), OrderedSet.mem_eraseLast isLast]

/-- Whatever it does, a call leaves no order ahead of the price. -/
theorem Stacks.behind (hstacks : m.Stacks h price r) :
    ∀ o ∈ r.manager.orders h, ¬ o.ahead h price := by
  have hkept : ∀ o ∈ m.kept h price, ¬ o.ahead h price := fun o ho => (mem_kept.mp ho).2
  intro o ho
  cases hstacks with
  | stays orders =>
    rw [orders] at ho
    exact hkept o ho
  | moves last full untracked isLast orders =>
    rw [orders] at ho
    rcases (mem_moves untracked isLast).mp ho with rfl | ⟨ho, -⟩
    · exact not_ahead_self h (m.moved price last)
    · exact hkept o ho
  | sends orderId full untracked orders =>
    have hnew : ∀ o ∈ m.kept h price, o.price ≠ (OpenOrder.mk orderId price m.quantity).price :=
      untracked
    rw [orders, OrderedSet.mem_insert hnew] at ho
    rcases ho with rfl | ho
    · exact not_ahead_self h ⟨orderId, price, m.quantity⟩
    · exact hkept o ho

/-- The order that moves is the best one. -/
theorem ahead_last {last o : OpenOrder} (isLast : (m.kept h price).last? = some last)
    (ho : o ∈ m.kept h price) (hne : o ≠ last) : ¬ o.ahead h last.price := by
  have hbefore := OrderedSet.lt_last isLast ((OrderedSet.mem_eraseLast isLast).mpr ⟨ho, hne⟩)
  rw [OpenOrder.ahead_iff]
  exact Std.Asymm.asymm _ _ hbefore

theorem stackDepth_eq_one_iff (m : StackManager) : m.stackDepth = 1 ↔ m.stackDepth.toNat = 1 :=
  UInt32.toNat_inj.symm

/-- A call on a full stack of several orders moves the best one. -/
theorem Within.not_keepsBest (hwithin : m.Within)
    (hr : m.stackSide h price lastOrderId clock = some r) (hfull : m.Full h price)
    (huntracked : m.Untracked h price) (hdepth : m.stackDepth ≠ 1) : ¬ m.KeepsBest h price r := by
  intro hbest
  have hsize := hwithin.kept h price
  obtain ⟨hstacks, -, -⟩ := stacks_of_stackSide hr
  obtain ⟨worst, hworst, hfarthest, -, hleft⟩ := hbest.evicts hfull huntracked
  cases hstacks with
  | stays orders calls reason => exact reason ⟨hfull, huntracked⟩
  | sends orderId full => exact full hfull
  | moves last full untracked isLast orders =>
    -- the order that left its price is the last one
    have hsame : worst = last := by
      by_contra hne
      have hstays : worst ∈ r.manager.orders h := by
        rw [orders]
        exact (mem_moves untracked isLast).mpr (Or.inr ⟨hworst, hne⟩)
      rcases (hleft worst).mp hstays with hmoved | ⟨-, hself⟩
      · exact huntracked worst hworst (congrArg OpenOrder.price hmoved)
      · exact hself rfl
    subst hsame
    -- a stack of several orders has one that is worse
    have herased := OrderedSet.size_eraseLast isLast
    have hpos : 0 < (m.kept h price).eraseLast.size := by
      have hfull' : m.stackDepth.toNat ≤ (m.kept h price).size := hfull
      rw [Ne, stackDepth_eq_one_iff] at hdepth
      omega
    obtain ⟨o, ho⟩ := List.exists_mem_of_length_pos hpos
    obtain ⟨ho, hne⟩ := (OrderedSet.mem_eraseLast isLast).mp ho
    exact ahead_last isLast ho hne (hfarthest o ho hne)

/-- Every other call of a manager within its depth does what it is for. -/
theorem Within.keepsBest (hwithin : m.Within)
    (hcondition : ¬ (m.Full h price ∧ m.Untracked h price ∧ m.stackDepth ≠ 1))
    (lastOrderId : UInt32) (clock : Clock) :
    ∃ r, m.stackSide h price lastOrderId clock = some r ∧ m.KeepsBest h price r := by
  have hsize := hwithin.kept h price
  cases hr : m.stackSide h price lastOrderId clock with
  | none =>
    -- an empty stack that is full has the depth zero
    obtain ⟨hfull, huntracked, hempty⟩ := stackSide_eq_none hr
    refine absurd ⟨hfull, huntracked, ?_⟩ hcondition
    have hfull' : m.stackDepth.toNat ≤ (m.kept h price).size := hfull
    rw [Ne, stackDepth_eq_one_iff]
    omega
  | some r =>
    obtain ⟨hstacks, hother, hdepth⟩ := stacks_of_stackSide hr
    have hafter := hwithin.stackSide hr h
    rw [hdepth] at hafter
    refine ⟨r, rfl, hstacks.behind, OrderedSet.nodup_keys _, hafter, hother, ?_⟩
    intro hfull huntracked
    have hdepth_one : m.stackDepth.toNat = 1 := by
      by_contra hne
      exact hcondition ⟨hfull, huntracked, m.stackDepth_eq_one_iff.not.mpr hne⟩
    cases hstacks with
    | stays orders calls reason => exact absurd ⟨hfull, huntracked⟩ reason
    | sends orderId full => exact absurd hfull full
    | moves last full untracked isLast orders calls =>
      refine ⟨last, OrderedSet.mem_of_last isLast, fun o ho hne => ?_, calls, fun o => ?_⟩
      · -- the only order is the farthest one
        have herased := OrderedSet.size_eraseLast isLast
        have hmem := (OrderedSet.mem_eraseLast isLast).mpr ⟨ho, hne⟩
        have hpos : 0 < (m.kept h price).eraseLast.size := List.length_pos_of_mem hmem
        omega
      · rw [orders]
        exact mem_moves untracked isLast

/-- **When a call keeps the best orders**: exactly when it need not move one of several orders, that is
unless the orders that the sweep leaves fill a stack of another depth than one and none has the price. -/
theorem keepsBest_iff {symbol : SymbolDefinition} {widthInTicks quantity stackDepth : UInt32}
    {cs : List ProcessCall}
    (hrun : Run ProcessStep (start symbol widthInTicks quantity stackDepth) cs m) (h : BookSide)
    (price : Int32) (lastOrderId : UInt32) (clock : Clock) :
    (∃ r, m.stackSide h price lastOrderId clock = some r ∧ m.KeepsBest h price r) ↔
      ¬ (m.Full h price ∧ m.Untracked h price ∧ m.stackDepth ≠ 1) := by
  constructor
  · rintro ⟨r, hr, hbest⟩ ⟨hfull, huntracked, hdepth⟩
    exact (within_of_run hrun).not_keepsBest hr hfull huntracked hdepth hbest
  · intro hcondition
    exact (within_of_run hrun).keepsBest hcondition lastOrderId clock

/-! ### A full stack -/

/-- The manager after some calls. -/
def afterCalls (m : StackManager) : List ProcessCall → Option StackManager
  | [] => some m
  | c :: cs => (m.process c).bind fun r => r.manager.afterCalls cs

theorem run_of_afterCalls {cs : List ProcessCall} (hm : m.afterCalls cs = some m') :
    Run ProcessStep m cs m' := by
  induction cs generalizing m with
  | nil =>
    rw [afterCalls, Option.some.injEq] at hm
    rw [hm]
    exact .nil m'
  | cons c cs ih =>
    obtain ⟨r, hr, hrest⟩ := Option.bind_eq_some_iff.mp hm
    exact .cons ⟨r, hr, rfl⟩ (ih hrest)

/-- Ten calls, a second apart, with the fair value going up from 100 to 190. -/
def risingCalls : List ProcessCall :=
  (List.range 10).map fun i =>
    ⟨Int32.ofNat (100 + 10 * i), 490, 500, UInt32.ofNat i,
      fun _ => ⟨UInt64.ofNat ((i + 1) * 1000000000), UInt64.ofNat ((i + 1) * 1000000000)⟩⟩

theorem tick_pos : (0 : UInt32) < 10 := by decide

theorem lot_pos : (0 : UInt32) < 1 := by decide

/-- A symbol with a tick of 10. -/
def tenTicks : SymbolDefinition := ⟨1, 10, 1, 100, 10000000, 0, tick_pos, lot_pos⟩

/-- The calls stack ten bids below 200. -/
theorem exists_risingCalls :
    ∃ m, (start tenTicks 0 1 10).afterCalls risingCalls = some m ∧ m.stackDepth = 10 ∧
      (m.kept .buy 200).elements.map OpenOrder.price =
        [100, 110, 120, 130, 140, 150, 160, 170, 180, 190] := by
  have hsome : ((start tenTicks 0 1 10).afterCalls risingCalls).map
      (fun m => (m.stackDepth, (m.kept .buy 200).elements.map OpenOrder.price)) =
        some (10, [100, 110, 120, 130, 140, 150, 160, 170, 180, 190]) := by
    decide +kernel
  obtain ⟨m, hm, hdata⟩ := Option.map_eq_some_iff.mp hsome
  rw [Prod.mk.injEq] at hdata
  exact ⟨m, hm, hdata⟩

theorem keepsBest_iff_risingCalls :
    ∃ m, Run ProcessStep (start tenTicks 0 1 10) risingCalls m ∧
      ((∃ r, m.stackSide .buy 200 10 ⟨20000000000, 20000000000⟩ = some r ∧ m.KeepsBest .buy 200 r) ↔
        ¬ (m.Full .buy 200 ∧ m.Untracked .buy 200 ∧ m.stackDepth ≠ 1)) := by
  obtain ⟨m, hm, -⟩ := exists_risingCalls
  have hrun := run_of_afterCalls hm
  exact ⟨m, hrun, keepsBest_iff hrun .buy 200 10 ⟨20000000000, 20000000000⟩⟩

/-- A price of 200 moves the bid at 190 there, and the one at 100 stays. -/
theorem not_keepsBest_of_run :
    ¬ ∀ (symbol : SymbolDefinition) (widthInTicks quantity stackDepth : UInt32)
      (cs : List ProcessCall) (m : StackManager),
      Run ProcessStep (start symbol widthInTicks quantity stackDepth) cs m →
        ∀ h price lastOrderId clock, ∃ r, m.stackSide h price lastOrderId clock = some r ∧
          m.KeepsBest h price r := by
  intro hall
  obtain ⟨m, hm, hdepth, hprices⟩ := exists_risingCalls
  obtain ⟨r, hr, hbest⟩ := hall _ _ _ _ _ m (run_of_afterCalls hm) .buy 200 10 ⟨0, 0⟩
  refine (within_of_run (run_of_afterCalls hm)).not_keepsBest hr ?_ ?_ ?_ hbest
  · have hlength := congrArg List.length hprices
    rw [List.length_map] at hlength
    rw [Full, OrderedSet.size, hlength, hdepth]
    decide
  · intro o ho
    have hprice : o.price ∈ (m.kept .buy 200).elements.map OpenOrder.price := List.mem_map_of_mem ho
    rw [hprices] at hprice
    rintro heq
    rw [heq] at hprice
    revert hprice
    decide
  · rw [hdepth]
    decide

end StackManager

end Ndfex.Bots
