import Ndfex.MatchingEngine.BookEvents
import Ndfex.Transition.Run

/-!
# Runs of a ladder

A ladder from its construction on, through any sequence of calls of its public methods, with the
history of the calls and of the callbacks each made. A call that throws leaves the ladder as the
exception left it, and the run goes on.

## Main definitions

* `LadderEvent`, `LadderRun`: a history and the ladder it leads to
* `LadderStep`: a call with a fresh id, if it is `new_order`
* `LadderRun.NoOverfill`: no order is ever filled beyond the quantity last requested for it
* `OrderLadder.Intact`: the representation invariant
* `LadderRun.RequestsFills`: a modification leaves room for the fills there were

## Main results

* `ladder_intact`: the representation invariant of every reachable ladder
* `ladder_uncrossed`: no reachable ladder is crossed
* `no_overfill`: no order is overfilled when every modification leaves room for its fills
-/

namespace Ndfex

open Containers Transition

/-! ## Histories -/

/-- An entry of a ladder's history. -/
inductive LadderEvent
  | call (op : LadderOp)
  | callback (c : Callback)
deriving DecidableEq

/-- The calls of a history. -/
def opsOf (trace : List LadderEvent) : List LadderOp :=
  trace.filterMap fun
    | .call op => some op
    | .callback _ => none

/-- The callbacks of a history. -/
def callbacksOf (trace : List LadderEvent) : List Callback :=
  trace.filterMap fun
    | .call _ => none
    | .callback c => some c

@[simp] theorem opsOf_append (tr tr' : List LadderEvent) :
    opsOf (tr ++ tr') = opsOf tr ++ opsOf tr' := List.filterMap_append

@[simp] theorem callbacksOf_append (tr tr' : List LadderEvent) :
    callbacksOf (tr ++ tr') = callbacksOf tr ++ callbacksOf tr' := List.filterMap_append

@[simp] theorem opsOf_call (op : LadderOp) (tr : List LadderEvent) :
    opsOf (.call op :: tr) = op :: opsOf tr := rfl

@[simp] theorem callbacksOf_call (op : LadderOp) (tr : List LadderEvent) :
    callbacksOf (.call op :: tr) = callbacksOf tr := rfl

@[simp] theorem opsOf_callbacks (cs : List Callback) :
    opsOf (cs.map LadderEvent.callback) = [] := by
  induction cs with
  | nil => rfl
  | cons c cs ih => exact ih

@[simp] theorem callbacksOf_callbacks (cs : List Callback) :
    callbacksOf (cs.map LadderEvent.callback) = cs := by
  induction cs with
  | nil => rfl
  | cons c cs ih => exact congrArg (c :: ·) ih

/-- A ladder with its history. -/
structure LadderRun where
  ladder : OrderLadder
  trace : List LadderEvent

namespace LadderRun

/-- A new ladder. -/
def start (symbol : UInt32) : LadderRun := ⟨OrderLadder.empty symbol, []⟩

/-- The ladder after a call. -/
def next (s : LadderRun) (op : LadderOp) : LadderRun :=
  ⟨(s.ladder.step op).ladder,
    s.trace ++ .call op :: (s.ladder.step op).calls.map LadderEvent.callback⟩

/-- Some call entered a new order under the id. -/
def Entered (s : LadderRun) (e : UInt64) : Prop := ∃ op ∈ opsOf s.trace, op.Enters e

/-- The id of a new order is fresh. -/
def Fresh (s : LadderRun) (op : LadderOp) : Prop := ∀ e, op.Enters e → ¬ s.Entered e

theorem opsOf_next (s : LadderRun) (op : LadderOp) :
    opsOf (s.next op).trace = opsOf s.trace ++ [op] := by simp [next]

theorem callbacksOf_next (s : LadderRun) (op : LadderOp) :
    callbacksOf (s.next op).trace = callbacksOf s.trace ++ (s.ladder.step op).calls := by
  simp [next]

theorem entered_next (s : LadderRun) (op : LadderOp) (e : UInt64) :
    (s.next op).Entered e ↔ s.Entered e ∨ op.Enters e := by
  simp [Entered, opsOf_next, or_and_right, exists_or]

end LadderRun

/-- The steps of a ladder: any call, with a fresh id if it is `new_order`. -/
def LadderStep (s : LadderRun) (op : LadderOp) (t : LadderRun) : Prop :=
  s.Fresh op ∧ t = s.next op

/-- The history of a run lists its calls. -/
theorem LadderRun.opsOf_run {symbol : UInt32} {G : LadderRun → LadderOp → Prop}
    {ops : List LadderOp} {s : LadderRun}
    (h : Run (Guarded G LadderStep) (start symbol) ops s) : opsOf s.trace = ops := by
  generalize hs : start symbol = s₀ at h
  induction h with
  | nil => rw [← hs]; rfl
  | snoc run step ih =>
    obtain ⟨-, -, rfl⟩ := step
    rw [opsOf_next, ih]

/-- The id that a call enters a new order under. -/
def LadderOp.newId : LadderOp → Option UInt64
  | newOrder orderId .. => some orderId
  | _ => none

theorem LadderOp.enters_iff {op : LadderOp} {e : UInt64} : op.Enters e ↔ op.newId = some e := by
  cases op <;> simp [Enters, newId]

/-- Any calls that enter distinct ids make a run, guarded by what holds before each. -/
theorem LadderRun.run_of_nodup {symbol : UInt32} {G : LadderRun → LadderOp → Prop}
    {ops : List LadderOp} (hids : (ops.filterMap LadderOp.newId).Nodup)
    (hG : ∀ i (hi : i < ops.length), G ((ops.take i).foldl next (start symbol)) ops[i]) :
    Run (Guarded G LadderStep) (start symbol) ops (ops.foldl next (start symbol)) := by
  induction ops using List.reverseRecOn with
  | nil => exact .nil _
  | append_singleton ops op ih =>
    rw [List.filterMap_append, List.nodup_append] at hids
    have hrun := ih hids.1 fun i hi => by
      have hprev := hG i (by simp; omega)
      rwa [List.take_append_of_le_length hi.le, List.getElem_append_left hi] at hprev
    have hlast := hG ops.length (by simp)
    rw [List.take_left, List.getElem_concat_length rfl] at hlast
    rw [List.foldl_append]
    refine .snoc hrun ⟨hlast, fun e he hent => ?_, rfl⟩
    -- the id would stand among those of the calls before
    have hops : opsOf (ops.foldl next (start symbol)).trace = ops := opsOf_run hrun
    obtain ⟨op', hop', he'⟩ := hent
    rw [hops] at hop'
    rw [LadderOp.enters_iff] at he he'
    exact hids.2.2 e (List.mem_filterMap.mpr ⟨op', hop', he'⟩) e (by simp [he]) rfl

/-- Any such calls that each satisfy a condition make a run guarded by it. -/
theorem LadderRun.run_of_forall {symbol : UInt32} {G : LadderOp → Prop} {ops : List LadderOp}
    (hids : (ops.filterMap LadderOp.newId).Nodup) (hG : ∀ op ∈ ops, G op) :
    Run (Guarded (fun _ op => G op) LadderStep) (start symbol) ops
      (ops.foldl next (start symbol)) :=
  run_of_nodup hids fun _ hi => hG _ (List.getElem_mem hi)

/-! ## The invariant of all runs -/

/-- What holds after every run: the ladder represents a live book, only entered orders rest, and
only entered orders were filled. -/
structure LadderRun.Sound (s : LadderRun) (b : PriorityBook) : Prop where
  represents : s.ladder.Represents b
  live : b.Live
  entered : ∀ e, b.Rests e → s.Entered e
  filled : ∀ e, ¬ s.Entered e → Ndfex.filled e (callbacksOf s.trace) = 0

namespace LadderRun

variable {s : LadderRun} {b : PriorityBook} {op : LadderOp}

theorem sound_start (symbol : UInt32) : (start symbol).Sound PriorityBook.empty where
  represents := OrderLadder.represents_empty symbol
  live := PriorityBook.Live.empty
  entered e h := by simp [PriorityBook.Rests, PriorityBook.orders, PriorityBook.empty] at h
  filled _ _ := rfl

theorem Sound.find?_fresh (hs : s.Sound b) (hfresh : s.Fresh op) :
    op.Enters op.orderId → b.find? op.orderId = none := by
  intro henters
  by_contra hne
  exact hfresh _ henters (hs.entered _ (PriorityBook.rests_iff.mpr hne))

/-- A call fills only its own order and orders at rest. -/
theorem filled_step_eq_zero {e : UInt64} (hrests : ¬ b.Rests e) (hid : op.orderId ≠ e) :
    Ndfex.filled e (b.step s.ladder.symbol op).calls = 0 := by
  have haccount := @PriorityBook.account_other b s.ladder.symbol _ _ hid
  have hnone : b.find? e = none := by
    rw [PriorityBook.rests_iff, not_not] at hrests
    exact hrests
  rw [PriorityBook.openQuantity_eq_zero hnone] at haccount
  omega

/-- **Every step** keeps the invariant. -/
theorem Sound.next (hs : s.Sound b) (hfresh : s.Fresh op) :
    (s.next op).Sound (b.step s.ladder.symbol op).book := by
  obtain ⟨hcalls, -, hrep, -⟩ := hs.represents.step op
  refine ⟨hrep, hs.live.step _ op, fun e he => ?_, fun e he => ?_⟩
  · rw [entered_next]
    exact (PriorityBook.rests_of_step he).imp_left (hs.entered e)
  · rw [entered_next, not_or] at he
    rw [callbacksOf_next, filled_append, hs.filled e he.1, zero_add, hcalls]
    have hrests : ¬ b.Rests e := fun h => he.1 (hs.entered e h)
    by_cases hid : op.orderId = e
    · subst hid
      have hself := @PriorityBook.account_self b s.ladder.symbol hs.represents.ordered _
        (hs.find?_fresh hfresh)
      have hbudget : b.budget op = 0 := by
        rw [PriorityBook.rests_iff, not_not] at hrests
        cases op with
        | newOrder orderId side quantity price flags =>
          exact absurd ⟨side, quantity, price, flags, rfl⟩ he.2
        | deleteOrder orderId => rfl
        | modifyOrder orderId side quantity price =>
          simp only [LadderOp.orderId] at hrests
          simp only [PriorityBook.budget, hrests]
      omega
    · exact filled_step_eq_zero hrests hid

/-- **Every run** keeps the invariant. -/
theorem exists_sound {symbol : UInt32} {G : LadderRun → LadderOp → Prop} {ops : List LadderOp}
    (h : Run (Guarded G LadderStep) (start symbol) ops s) : ∃ b, s.Sound b := by
  refine h.invariant (I := fun s => ∃ b, s.Sound b) ?_ ⟨_, sound_start symbol⟩
  rintro s op t ⟨b, hs⟩ ⟨-, hfresh, rfl⟩
  exact ⟨_, hs.next hfresh⟩

/-! ## The representation invariant -/

end LadderRun

/-- What the four structures of a ladder say together, with the queues `q` of its levels. -/
structure OrderLadder.Intact (L : OrderLadder) (q : Queues) : Prop where
  /-- An id in the map stands once in the queue of its price and side, and in no other. -/
  queued : ∀ e s, L.orders.lookup e = some s → (L.order s).orderId = e ∧
    ∀ h p, (q h p).count s = if h = (L.order s).side.bookSide ∧ p = (L.order s).price then 1 else 0
  /-- A queued order is in the map. -/
  indexed : ∀ s, q.Holds s → L.orders.lookup (L.order s).orderId = some s
  /-- The queues are those of the levels. -/
  levelled : ∀ h p, q h p ≠ [] ↔ ((L.levels h).find? p).isSome
  /-- The links of a level thread its queue, which is not empty. -/
  threaded : ∀ h p lvl, (L.levels h).find? p = some lvl → q h p ≠ [] ∧
    lvl.head = (q h p).head? ∧ lvl.tail = (q h p).getLast? ∧
      Threaded (fun s => (L.order s).next) (fun s => (L.order s).prev) none (q h p) none
  /-- A resting order has quantity and is not an IOC order. -/
  resting : ∀ e s, L.orders.lookup e = some s →
    0 < (L.order s).quantity ∧ isIoc (L.order s).flags = false
  /-- No slot is free and live, and none is free twice. -/
  free : L.orderPool.freeList.Nodup ∧ ∀ s ∈ L.orderPool.freeList, ∀ e, L.orders.lookup e ≠ some s
  /-- No slot is used by two live orders. -/
  unshared : ∀ e e' s, L.orders.lookup e = some s → L.orders.lookup e' = some s → e = e'

namespace OrderLadder

variable {L : OrderLadder} {q : Queues}

theorem WellFormed.count (hL : L.WellFormed q) {s : Slot} (hs : q.Holds s) (h : BookSide)
    (p : Int32) : (q h p).count s =
      if h = (L.order s).side.bookSide ∧ p = (L.order s).price then 1 else 0 := by
  have hmem := hL.mem_queue hs
  split_ifs with hplace
  · obtain ⟨rfl, rfl⟩ := hplace
    exact List.count_eq_one_of_mem (hL.nodup _ _) hmem
  · refine List.count_eq_zero.mpr fun hs' => hplace ?_
    exact hL.eq_of_mem hs' hmem

/-- A well-formed ladder of a live book is intact. -/
theorem WellFormed.intact (hL : L.WellFormed q) (hlive : (L.bookOf q).Live) : L.Intact q where
  queued e s hs := by
    obtain ⟨he, hs⟩ := (hL.indexed e s).mp hs
    exact ⟨he, hL.count hs⟩
  indexed s hs := hL.lookup hs
  levelled h p := by
    rw [OrderedMap.find?_isSome]
    exact ⟨hL.present h p, hL.nonempty h p⟩
  threaded h p lvl hlvl := by
    have hkey : p ∈ (L.levels h).keys := by
      rw [← OrderedMap.find?_isSome, hlvl]
      rfl
    obtain ⟨hhead, htail⟩ := hL.level h p lvl hlvl
    exact ⟨hL.nonempty h p hkey, hhead, htail, hL.threaded h p⟩
  resting e s hs := by
    obtain ⟨-, hs⟩ := (hL.indexed e s).mp hs
    exact hlive _ (hL.mem_orders_bookOf.mpr ⟨s, hs, rfl⟩)
  free := by
    refine ⟨hL.pool.free_nodup, fun s hs e he => ?_⟩
    exact hL.pool.free_dead s hs ((hL.indexed e s).mp he).2
  unshared e e' s he he' := by
    rw [← ((hL.indexed e s).mp he).1, ← ((hL.indexed e' s).mp he').1]

end OrderLadder

/-- **The representation invariant** of every reachable ladder, and no exception: whatever the calls
were, if their new orders had quantity, the ladder is intact and its next such call does not
throw. -/
theorem ladder_intact {symbol : UInt32} {ops : List LadderOp} {s : LadderRun}
    (h : Run (Guarded (fun _ op => op.Positive) LadderStep) (LadderRun.start symbol) ops s) :
    (∃ q, s.ladder.Intact q) ∧
      ∀ op : LadderOp, op.Positive → s.Fresh op → (s.ladder.step op).thrown = none := by
  obtain ⟨b, hs⟩ := LadderRun.exists_sound h
  constructor
  · obtain ⟨q, hq, rfl⟩ := hs.represents
    exact ⟨q, hq.intact hs.live⟩
  · intro op hpos hfresh
    obtain ⟨-, hthrown, -, -⟩ := hs.represents.step op
    rw [hthrown]
    exact (PriorityBook.thrown_step (hs.find?_fresh hfresh)).resolve_right fun h => h.1 hpos

/-- After a partial fill at the top of the book. -/
theorem ladder_intact_partly_filled :
    let s := [LadderOp.newOrder 1 Side.buy 10 50 0, .newOrder 2 Side.sell 4 50 0].foldl
      LadderRun.next (LadderRun.start 7)
    (∃ q, s.ladder.Intact q) ∧
      ∀ op : LadderOp, op.Positive → s.Fresh op → (s.ladder.step op).thrown = none :=
  ladder_intact (LadderRun.run_of_forall (by decide) (by simp [LadderOp.Positive]))

/-! ## The spread -/

/-- Every step with a side `BUY` or `SELL` keeps the represented book uncrossed. -/
theorem LadderRun.exists_uncrossed {symbol : UInt32} {ops : List LadderOp} {s : LadderRun}
    (h : Run (Guarded (fun _ op => op.TwoSided) LadderStep) (LadderRun.start symbol) ops s) :
    ∃ b, s.ladder.Represents b ∧ b.Uncrossed := by
  refine h.invariant (I := fun s => ∃ b, s.ladder.Represents b ∧ b.Uncrossed) ?_
    ⟨_, OrderLadder.represents_empty symbol, PriorityBook.Uncrossed.empty⟩
  rintro s op t ⟨b, hb, hunc⟩ ⟨hop, -, rfl⟩
  obtain ⟨-, -, hrep, -⟩ := hb.step op
  exact ⟨_, hrep, hunc.step hb.ordered _ hop⟩

/-- **The book is never crossed**: in every reachable ladder the price of every resting buy order is
below the price of every resting sell order, and every buy level below every sell level. -/
theorem ladder_uncrossed {symbol : UInt32} {ops : List LadderOp} {s : LadderRun}
    (h : Run (Guarded (fun _ op => op.TwoSided) LadderStep) (LadderRun.start symbol) ops s) :
    (∀ e slot e' slot', s.ladder.orders.lookup e = some slot →
      s.ladder.orders.lookup e' = some slot' → (s.ladder.order slot).side = Side.buy →
        (s.ladder.order slot').side = Side.sell →
          (s.ladder.order slot).price < (s.ladder.order slot').price) ∧
      ∀ p ∈ s.ladder.buyLevels.keys, ∀ p' ∈ s.ladder.sellLevels.keys, p < p' := by
  obtain ⟨b, ⟨q, hq, rfl⟩, hunc⟩ := LadderRun.exists_uncrossed h
  have hcross : ∀ slot ∈ q .buy (s.ladder.order slot).price,
      ∀ slot' ∈ q .sell (s.ladder.order slot').price,
        (s.ladder.order slot).price < (s.ladder.order slot').price := by
    intro slot hslot slot' hslot'
    refine hunc (s.ladder.order slot).resting ?_ (s.ladder.order slot').resting ?_
    · rw [OrderLadder.half_bookOf, hq.mem_sideOrders]
      exact ⟨_, slot, hslot, rfl⟩
    · rw [OrderLadder.half_bookOf, hq.mem_sideOrders]
      exact ⟨_, slot', hslot', rfl⟩
  constructor
  · intro e slot e' slot' he he' hbuy hsell
    have hslot := hq.mem_queue ((hq.indexed e slot).mp he).2
    have hslot' := hq.mem_queue ((hq.indexed e' slot').mp he').2
    rw [hbuy] at hslot
    rw [hsell] at hslot'
    exact hcross slot hslot slot' hslot'
  · -- a level holds an order of its price
    intro p hp p' hp'
    obtain ⟨slot, hslot⟩ := List.exists_mem_of_ne_nil _ (hq.nonempty .buy p hp)
    obtain ⟨slot', hslot'⟩ := List.exists_mem_of_ne_nil _ (hq.nonempty .sell p' hp')
    obtain ⟨rfl, -⟩ := hq.filed .buy p slot hslot
    obtain ⟨rfl, -⟩ := hq.filed .sell p' slot' hslot'
    exact hcross slot hslot slot' hslot'

/-- After an order crossed the spread and the rest of it came to rest. -/
theorem ladder_uncrossed_taken :
    let s := [LadderOp.newOrder 1 Side.sell 4 50 0, .newOrder 2 Side.buy 10 51 0,
      .modifyOrder 2 Side.buy 9 52].foldl LadderRun.next (LadderRun.start 7)
    (∀ e slot e' slot', s.ladder.orders.lookup e = some slot →
      s.ladder.orders.lookup e' = some slot' → (s.ladder.order slot).side = Side.buy →
        (s.ladder.order slot').side = Side.sell →
          (s.ladder.order slot).price < (s.ladder.order slot').price) ∧
      ∀ p ∈ s.ladder.buyLevels.keys, ∀ p' ∈ s.ladder.sellLevels.keys, p < p' :=
  ladder_uncrossed (LadderRun.run_of_forall (by decide) (by simp [LadderOp.TwoSided]))

/-! ## Fills against requests -/

/-- The quantity that a call requests for an order. -/
def LadderOp.requests (orderId : UInt64) : LadderOp → Option UInt32
  | newOrder e _ quantity _ _ => if e = orderId then some quantity else none
  | deleteOrder _ => none
  | modifyOrder e _ quantity _ => if e = orderId then some quantity else none

/-- The quantity most recently requested for an order. -/
def requested (orderId : UInt64) (ops : List LadderOp) : ℕ :=
  ((ops.filterMap (LadderOp.requests orderId)).getLastD 0).toNat

theorem requested_append (orderId : UInt64) (ops : List LadderOp) (op : LadderOp) :
    requested orderId (ops ++ [op]) =
      (op.requests orderId).elim (requested orderId ops) UInt32.toNat := by
  unfold requested
  rw [List.filterMap_append]
  cases h : op.requests orderId with
  | none => simp [h]
  | some q => simp [h]

theorem LadderOp.requests_of_ne {op : LadderOp} {orderId : UInt64} (hne : op.orderId ≠ orderId) :
    op.requests orderId = none := by
  cases op with
  | newOrder e side quantity price flags => exact if_neg hne
  | deleteOrder e => rfl
  | modifyOrder e side quantity price => exact if_neg hne

namespace LadderRun

variable {s : LadderRun} {b : PriorityBook} {op : LadderOp}

/-- **No overfill**: at each fill of an order, what was filled of it so far is at most the quantity
most recently requested for it. -/
def NoOverfill (trace : List LadderEvent) : Prop :=
  ∀ pre post orderId symbol side quantity price flags active,
    trace = pre ++ .callback (.onFill orderId symbol side quantity price flags active) :: post →
      filled orderId (callbacksOf pre) + quantity.toNat ≤ requested orderId (opsOf pre)

/-- A modification leaves room for the fills there were: one that keeps its order in place meets an
order without fills, and one that enters its order again an order whose `filled_quantity` covers
all of them. -/
def RequestsFills (s : LadderRun) : LadderOp → Prop
  | .modifyOrder orderId side quantity price =>
    ∀ slot ∈ s.ladder.orders.lookup orderId,
      (s.ladder.order slot).filledQuantity < quantity →
        if (s.ladder.order slot).price = price ∧ (s.ladder.order slot).side = side then
          filled orderId (callbacksOf s.trace) = 0
        else
          filled orderId (callbacksOf s.trace) ≤ (s.ladder.order slot).filledQuantity.toNat
  | _ => True

instance (s : LadderRun) : DecidablePred s.RequestsFills
  | .newOrder .. => instDecidableTrue
  | .deleteOrder _ => instDecidableTrue
  | .modifyOrder orderId .. =>
    Option.decidableForallMem (s.ladder.orders.lookup orderId)

/-- What was filled of a resting order and what is left of it stay within the request. -/
def Covered (s : LadderRun) (b : PriorityBook) : Prop :=
  ∀ e, 0 < b.openQuantity e →
    filled e (callbacksOf s.trace) + b.openQuantity e ≤ requested e (opsOf s.trace)

/-- What a call fills of its own order leaves the request covered. -/
theorem covered_self (hs : s.Sound b) (hfresh : s.Fresh op) (hreq : s.RequestsFills op)
    (hpos : 0 < b.budget op) :
    filled op.orderId (callbacksOf s.trace) + b.budget op ≤
      requested op.orderId (opsOf s.trace ++ [op]) := by
  rw [requested_append]
  cases op with
  | newOrder e side quantity price flags =>
    have hzero := hs.filled e (hfresh e ⟨_, _, _, _, rfl⟩)
    simp [LadderOp.orderId, LadderOp.requests, PriorityBook.budget, hzero]
  | deleteOrder e => exact absurd hpos (by simp [PriorityBook.budget])
  | modifyOrder e side quantity price =>
    simp only [LadderOp.orderId, LadderOp.requests, if_true, Option.elim_some]
    have hfind := hs.represents.find?_eq e
    cases hlook : s.ladder.orders.lookup e with
    | none =>
      rw [hlook] at hfind
      simp only [Option.map_none] at hfind
      simp [PriorityBook.budget, hfind] at hpos
    | some slot =>
      rw [hlook] at hfind
      simp only [Option.map_some] at hfind
      have hreq := hreq slot hlook
      simp only [PriorityBook.budget, hfind, Order.resting] at hpos ⊢
      by_cases hle : quantity ≤ (s.ladder.order slot).filledQuantity
      · rw [if_pos hle] at hpos
        exact absurd hpos (Nat.lt_irrefl 0)
      rw [if_neg hle] at hpos ⊢
      have hlt := UInt32.not_le.mp hle
      have hreq := hreq hlt
      rw [UInt32.lt_iff_toNat_lt] at hlt
      by_cases hplace : (s.ladder.order slot).price = price ∧ (s.ladder.order slot).side = side
      · -- the whole new quantity rests, so nothing may have been filled
        rw [if_pos hplace] at hreq ⊢
        omega
      · rw [if_neg hplace] at hreq ⊢
        omega

/-- **What a call fills** of an order, with what it leaves of it, leaves the request covered. -/
theorem Covered.step (hs : s.Sound b) (hc : s.Covered b) (hfresh : s.Fresh op)
    (hreq : s.RequestsFills op) {e : UInt64}
    (hpos : 0 < filled e (s.ladder.step op).calls +
      (b.step s.ladder.symbol op).book.openQuantity e) :
    filled e (callbacksOf s.trace) + filled e (s.ladder.step op).calls +
      (b.step s.ladder.symbol op).book.openQuantity e ≤ requested e (opsOf s.trace ++ [op]) := by
  obtain ⟨hcalls, -, -, -⟩ := hs.represents.step op
  rw [hcalls] at hpos ⊢
  by_cases hid : op.orderId = e
  · subst hid
    have hself := @PriorityBook.account_self b s.ladder.symbol hs.represents.ordered _
      (hs.find?_fresh hfresh)
    have hcovered := covered_self hs hfresh hreq (by omega)
    omega
  · have hother := @PriorityBook.account_other b s.ladder.symbol _ _ hid
    have hcovered := hc e (by omega)
    rw [requested_append, LadderOp.requests_of_ne hid, Option.elim_none]
    omega

theorem Covered.next (hs : s.Sound b) (hc : s.Covered b) (hfresh : s.Fresh op)
    (hreq : s.RequestsFills op) : (s.next op).Covered (b.step s.ladder.symbol op).book := by
  intro e hpos
  rw [callbacksOf_next, opsOf_next, filled_append]
  exact hc.step hs hfresh hreq (by omega)

/-- The fills of a call come within the request when it is covered. -/
theorem NoOverfill.next (hs : s.Sound b) (hc : s.Covered b) (hfresh : s.Fresh op)
    (hreq : s.RequestsFills op) (h : NoOverfill s.trace) : NoOverfill (s.next op).trace := by
  intro pre post e symbol side quantity price flags active htrace
  rcases List.append_eq_append_iff.mp htrace.symm with ⟨mid, htr, hmid⟩ | ⟨mid, rfl, hmid⟩
  · -- the fill was there before the call
    rcases List.cons_eq_append_iff.mp hmid with ⟨-, hcall⟩ | ⟨mid', rfl, -⟩
    · cases hcall
    · exact h _ _ _ _ _ _ _ _ _ htr
  · -- the fill is one of the call
    rcases List.cons_eq_append_iff.mp hmid with ⟨-, hcall⟩ | ⟨mid', rfl, hcs⟩
    · cases hcall
    obtain ⟨cs, cs', hsplit, rfl, hcs'⟩ := List.map_eq_append_iff.mp hcs
    obtain ⟨c, cs'', rfl, hfill, rfl⟩ := List.map_eq_cons_iff.mp hcs'
    obtain rfl := LadderEvent.callback.inj hfill
    have hmem : Callback.onFill e symbol side quantity price flags active ∈
        (b.step s.ladder.symbol op).calls := by
      obtain ⟨hcalls, -, -, -⟩ := hs.represents.step op
      rw [← hcalls, hsplit]
      simp
    have hquantity := UInt32.lt_iff_toNat_lt.mp (PriorityBook.pos_of_mem_step hs.live hmem)
    have hsum : filled e (s.ladder.step op).calls =
        filled e cs + (quantity.toNat + filled e cs'') := by
      rw [hsplit, filled_append, filled_cons]
      simp [Callback.filled]
    have hstep := hc.step hs hfresh hreq
      (show 0 < filled e (s.ladder.step op).calls + _ by rw [UInt32.toNat_zero] at hquantity; omega)
    simp only [callbacksOf_append, callbacksOf_call, callbacksOf_callbacks, opsOf_append,
      opsOf_call, opsOf_callbacks, filled_append]
    omega

end LadderRun

/-- **No order is overfilled** in a run whose modifications leave room for the fills there were. -/
theorem no_overfill {symbol : UInt32} {ops : List LadderOp} {s : LadderRun}
    (h : Run (Guarded LadderRun.RequestsFills LadderStep) (LadderRun.start symbol) ops s) :
    LadderRun.NoOverfill s.trace := by
  have hinv : ∃ b, s.Sound b ∧ s.Covered b ∧ LadderRun.NoOverfill s.trace := by
    refine h.invariant
      (I := fun s => ∃ b, s.Sound b ∧ s.Covered b ∧ LadderRun.NoOverfill s.trace) ?_
      ⟨_, LadderRun.sound_start symbol, ?_, ?_⟩
    · rintro s op t ⟨b, hs, hc, ho⟩ ⟨hreq, hfresh, rfl⟩
      exact ⟨_, hs.next hfresh, hc.next hs hfresh hreq, ho.next hs hc hfresh hreq⟩
    · intro e hpos
      exact absurd hpos (Nat.lt_irrefl 0)
    · intro pre post e sym side quantity price flags active htrace
      cases pre <;> cases htrace
  obtain ⟨-, -, -, ho⟩ := hinv
  exact ho

/-- A partly filled order moves to a better price and is filled up there. -/
theorem no_overfill_moved :
    LadderRun.NoOverfill ([LadderOp.newOrder 1 Side.buy 10 50 0, .newOrder 2 Side.sell 5 50 0,
      .modifyOrder 1 Side.buy 8 51, .newOrder 3 Side.sell 8 50 0].foldl LadderRun.next
        (LadderRun.start 7)).trace :=
  no_overfill (LadderRun.run_of_nodup (by decide) (by decide +kernel))

/-- An order that is modified in place after a partial fill and filled up afterwards. -/
theorem overfill_modified_in_place :
    ∃ s, Run (Guarded (fun _ op => op.TwoSided) LadderStep) (LadderRun.start 7)
        [.newOrder 1 Side.buy 10 50 0, .newOrder 2 Side.sell 5 50 0,
          .modifyOrder 1 Side.buy 8 50, .newOrder 3 Side.sell 8 50 0] s ∧
      ¬ LadderRun.NoOverfill s.trace := by
  refine ⟨_, LadderRun.run_of_forall (by decide) (by simp [LadderOp.TwoSided]), fun h => ?_⟩
  generalize hrun : List.foldl _ _ _ = s at h
  -- the twelfth entry of the history is a fill of 8 after one of 5, with 8 requested
  have hat : s.trace = s.trace.take 11 ++
      .callback (.onFill 1 7 Side.buy 8 50 FillFlags.closed false) :: s.trace.drop 12 := by
    rw [← hrun]
    decide +kernel
  have hle := h _ _ _ _ _ _ _ _ _ hat
  rw [← hrun] at hle
  revert hle
  decide +kernel

end Ndfex
