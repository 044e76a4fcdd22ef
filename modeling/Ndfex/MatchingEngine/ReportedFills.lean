import Ndfex.MatchingEngine.Answers
import Ndfex.MatchingEngine.Clearing

/-!
# The fills that responses report

A fill leaves the broker twice: as a response to the client whose order it fills, and as a message to
clearing. The response tells the order and the client, which the clearing message is made of too. Within
a call no order is filled after its end, since a trade takes the orders of a side one by one and the
order of the call is used up last.

## Main definitions

* `OePayload.fill?`, `fillsReported`: the fills that responses report, as clearing has them
* `EndsLast`: no response fills an order behind one that ends it

## Main results

* `MatchingEngineBroker.fillsReported_responses`: the responses to a request report the fills that it
  passes to clearing
* `MatchingEngineBroker.Sound.endsLast_responses`: a request fills no order that it has ended
-/

namespace Ndfex

/-- The fill that a response reports, as clearing has it. -/
def OePayload.fill? (q : OePayload) : Option ClearingFill :=
  if q.msgType = .fill then
    some ⟨q.exchOrderId, q.clientId, q.symbol, q.quantity, q.price.toInt32, q.side⟩
  else none

/-- The fills that responses report. -/
def fillsReported (items : List OePayload) : List ClearingFill := items.filterMap OePayload.fill?

@[simp] theorem fillsReported_append (items items' : List OePayload) :
    fillsReported (items ++ items') = fillsReported items ++ fillsReported items' :=
  List.filterMap_append

theorem OePayload.fill?_eq_some {q : OePayload} {f : ClearingFill} :
    q.fill? = some f ↔ q.msgType = .fill ∧
      f = ⟨q.exchOrderId, q.clientId, q.symbol, q.quantity, q.price.toInt32, q.side⟩ := by
  unfold fill?
  by_cases hfill : q.msgType = .fill
  · rw [if_pos hfill, Option.some_inj]
    exact ⟨fun h => ⟨hfill, h.symm⟩, fun h => h.2.symm⟩
  · rw [if_neg hfill]
    exact iff_of_false (fun h => by cases h) fun h => hfill h.1

namespace MatchingEngineBroker

variable {B : MatchingEngineBroker} {books : UInt32 → PriorityBook} {p : OePayload}

/-- What a callback answers reports what it passes to clearing. -/
theorem fill?_answer (B : MatchingEngineBroker) (c : Callback) :
    (B.answer c).bind OePayload.fill? = B.cleared c := by
  cases c with
  | onFill orderId symbol side quantity price flags active =>
    simp [answer, cleared, OePayload.fill?, OePayload.make]
  | _ => rfl

/-- **The responses to a request** report the fills that it passes to clearing. -/
theorem fillsReported_responses (B : MatchingEngineBroker) (books : UInt32 → PriorityBook)
    (p : OePayload) :
    fillsReported (B.responses books p) = (B.callsOf books p).filterMap (B.accept p).cleared := by
  have hreturned : fillsReported (returned p) = [] := by
    unfold returned
    split_ifs with hreject
    · simp [fillsReported, OePayload.fill?, hreject]
    · rfl
  rw [responses, fillsReported_append, hreturned, List.nil_append, fillsReported,
    List.filterMap_filterMap]
  exact List.filterMap_congr fun c _ => fill?_answer _ c

end MatchingEngineBroker

/-! ## No fill after the end -/

/-- The order that a callback fills. -/
def Callback.filledId : Callback → Option UInt64
  | .onFill orderId .. => some orderId
  | _ => none

/-- No callback fills an order behind one that ends it. -/
def EndsLastCalls (cs : List Callback) : Prop :=
  cs.Pairwise fun c c' => ∀ e, c.closes e = true → c'.filledId ≠ some e

/-- No response fills an order behind one that ends it. -/
def EndsLast (items : List OePayload) : Prop :=
  items.Pairwise fun q q' => q.Terminal → q'.msgType = .fill → q'.exchOrderId ≠ q.exchOrderId

theorem Callback.filledId_eq_none {c : Callback} (hc : ¬ c.OfTrade) : c.filledId = none := by
  cases c with
  | onFill => exact absurd trivial hc
  | _ => rfl

/-- Callbacks that fill nothing come last as they like. -/
theorem EndsLastCalls.append {cs tail : List Callback} (h : EndsLastCalls cs)
    (htail : ∀ c ∈ tail, ¬ c.OfTrade) : EndsLastCalls (cs ++ tail) := by
  have hnone : ∀ c ∈ tail, c.filledId = none := fun c hc => Callback.filledId_eq_none (htail c hc)
  refine List.pairwise_append.mpr ⟨h, List.pairwise_of_forall_mem_list ?_, ?_⟩
  · intro c _ c' hc' e _
    rw [hnone c' hc']
    exact (Option.some_ne_none e).symm
  · intro c _ c' hc' e _
    rw [hnone c' hc']
    exact (Option.some_ne_none e).symm

section Matching

variable {symbol : UInt32} {incomingId : UInt64} {side : Side} {price : Int32}

/-- Matching fills the incoming order and orders of the side. -/
theorem filledId_of_mem_matchList {os : List RestingOrder} {quantity : UInt32} {c : Callback}
    {e : UInt64} (hc : c ∈ (matchList symbol incomingId side price os quantity).calls)
    (he : c.filledId = some e) : e = incomingId ∨ Listed e os := by
  obtain ⟨ts, hcalls, -, hts⟩ := matchList_trades symbol incomingId side price os quantity
  rw [hcalls] at hc
  obtain ⟨t, ht, hc⟩ := List.mem_flatMap.mp hc
  simp only [Trade.calls, tradeCalls, List.mem_cons, List.not_mem_nil, or_false] at hc
  rcases hc with rfl | rfl | rfl
  · cases he
  · obtain rfl := Option.some.inj he
    exact Or.inr ⟨t.order, (hts t ht).1, rfl⟩
  · obtain rfl := Option.some.inj he
    exact Or.inl rfl

/-- **Matching fills no order that it has ended**: the orders of the side are taken one by one, and the
incoming order is used up last. -/
theorem endsLast_matchList {os : List RestingOrder} (hnew : ¬ Listed incomingId os)
    (hnd : (os.map RestingOrder.orderId).Nodup) (quantity : UInt32) :
    EndsLastCalls (matchList symbol incomingId side price os quantity).calls := by
  have hself : ∀ (o : RestingOrder) q restingFlags left, o.orderId ≠ incomingId →
      EndsLastCalls (tradeCalls symbol incomingId side o q restingFlags left) := by
    intro o q restingFlags left hne
    simp [EndsLastCalls, tradeCalls, Callback.closes, Callback.filledId]
    exact fun _ h => hne h.symm
  fun_induction matchList symbol incomingId side price os quantity with
  | case1 quantity => exact .nil
  | case2 o os quantity hstop => exact .nil
  | case3 o os quantity hstop hle m ih =>
    rw [listed_cons, not_or] at hnew
    rw [List.map_cons, List.nodup_cons] at hnd
    refine List.pairwise_append.mpr ⟨hself o _ _ _ hnew.1, ih hnew.2 hnd.2, ?_⟩
    intro c hc c' hc' e hcloses hfilled
    have hplace := filledId_of_mem_matchList hc' hfilled
    simp only [tradeCalls, List.mem_cons, List.not_mem_nil, or_false] at hc
    rcases hc with rfl | rfl | rfl
    · cases hcloses
    · -- the resting order is gone from the side
      simp only [Callback.closes, Bool.and_eq_true, decide_eq_true_eq] at hcloses
      obtain ⟨rfl, -⟩ := hcloses
      rcases hplace with heq | ⟨o', ho', heq⟩
      · exact hnew.1 heq
      · exact hnd.1 (heq ▸ List.mem_map_of_mem ho')
    · -- the incoming order is used up, and matching stops
      simp only [Callback.closes, Bool.and_eq_true, decide_eq_true_eq] at hcloses
      have hleft := (closesOrder_incomingFlags _).mp hcloses.2
      simp only [m, hleft, matchList_zero] at hc'
      cases hc'
  | case4 o os quantity hstop hle =>
    rw [listed_cons, not_or] at hnew
    exact hself o _ _ _ hnew.1

end Matching

namespace PriorityBook

variable {b : PriorityBook} {symbol : UInt32}

/-- The callbacks of entering an order are those of its matching, and some of no trade. -/
theorem calls_entering {notify : Bool} {o : RestingOrder} {e : Entered}
    (he : Entering b symbol notify o e) :
    ∃ tail, e.calls = (b.matching symbol o).calls ++ tail ∧ ∀ c ∈ tail, ¬ c.OfTrade := by
  have hannounced : ∀ c ∈ b.announced symbol notify o, ¬ c.OfTrade := by
    intro c hc
    unfold announced at hc
    split_ifs at hc
    · obtain rfl := List.mem_singleton.mp hc
      exact not_false
    · cases hc
  cases he with
  | dropped hleft hioc =>
    refine ⟨_, rfl, fun c hc => ?_⟩
    cases notify with
    | true =>
      obtain rfl := List.mem_singleton.mp hc
      exact not_false
    | false => cases hc
  | filled hleft => exact ⟨_, rfl, hannounced⟩
  | duplicate hleft hioc hfound => exact ⟨_, rfl, hannounced⟩
  | rested hleft hioc hfound => exact ⟨_, rfl, hannounced⟩

theorem endsLast_entering (hb : b.Ordered) {notify : Bool} {o : RestingOrder} {e : Entered}
    (hnew : b.find? o.orderId = none) (he : Entering b symbol notify o e) :
    EndsLastCalls e.calls := by
  obtain ⟨tail, hcalls, htail⟩ := calls_entering he
  rw [hcalls]
  refine EndsLastCalls.append (endsLast_matchList ?_ (hb.nodup_half _) _) htail
  rintro ⟨o', ho', hid⟩
  exact find?_eq_none.mp hnew o' (mem_orders.mpr ⟨_, ho'⟩) hid

/-- **A call fills no order that it has ended.** -/
theorem endsLast_step (hb : b.Ordered) {op : LadderOp}
    (hnew : op.Enters op.orderId → b.find? op.orderId = none) :
    EndsLastCalls (b.step symbol op).calls := by
  have hstep := stepping b symbol op
  generalize b.step symbol op = r at hstep ⊢
  cases hstep with
  | refused => exact .nil
  | entered hpos he => exact endsLast_entering hb (hnew ⟨_, _, _, _, rfl⟩) he
  | deleted hfound => exact List.pairwise_singleton ..
  | unknown hop hfound => exact List.pairwise_singleton ..
  | closed hfound hfilled => exact List.pairwise_singleton ..
  | requantified hfound hfilled hplace => exact List.pairwise_singleton ..
  | @reentered e side quantity price o r hfound hfilled hplace he hthrown =>
    -- the order leaves the book before it enters again
    obtain ⟨-, rfl⟩ := mem_of_find? hfound
    have hgone : (b.remove o.orderId).find? (o.moved side quantity price).orderId = none :=
      find?_remove_self b o.orderId
    refine EndsLastCalls.append (endsLast_entering (hb.remove _) hgone he) ?_
    intro c hc
    obtain rfl := List.mem_singleton.mp hc
    split_ifs <;> exact not_false

/-- An order that a call fills was at rest or entered by it. -/
theorem rests_of_filledId {op : LadderOp} {c : Callback} {e : UInt64}
    (hc : c ∈ (b.step symbol op).calls) (he : c.filledId = some e) : b.Rests e ∨ op.Enters e := by
  cases c with
  | onFill orderId sym side quantity price flags active =>
    obtain rfl := Option.some.inj he
    obtain ⟨-, hactive, hpassive⟩ := fill_of_mem_step hc
    cases active with
    | false => exact Or.inl (hpassive rfl)
    | true =>
      rw [hactive rfl]
      cases op with
      | newOrder => exact Or.inr ⟨_, _, _, _, rfl⟩
      | deleteOrder id =>
        -- a deletion makes no trade
        have hid := hactive rfl
        simp only [step, deleteOrder] at hc
        split_ifs at hc <;> cases List.mem_singleton.mp hc
      | modifyOrder id side quantity price =>
        obtain ⟨o, hfound, -⟩ := trade_of_modify (c := .onFill ..) trivial hc
        exact Or.inl (rests_iff.mpr (by rw [LadderOp.orderId, hfound]; exact Option.some_ne_none o))
  | _ => cases he

end PriorityBook

namespace MatchingEngineBroker

variable {B : MatchingEngineBroker} {requests : List OePayload} {books : UInt32 → PriorityBook}
  {p q : OePayload}

/-- A fill among the responses answers a callback that fills its order. -/
theorem exists_of_fill_mem_responses (hq : q ∈ B.responses books p) (hfill : q.msgType = .fill) :
    ∃ op c, B.opOf p = some op ∧ c ∈ ((books p.symbol).step p.symbol op).calls ∧
      (B.accept p).answer c = some q ∧ c.filledId = some q.exchOrderId := by
  unfold responses returned at hq
  rcases List.mem_append.mp hq with hq | hq
  · split_ifs at hq with hreject
    · obtain rfl := List.mem_singleton.mp hq
      cases hreject.symm.trans hfill
    · cases hq
  obtain ⟨c, hc, hanswer⟩ := List.mem_filterMap.mp hq
  unfold callsOf at hc
  cases hop : B.opOf p with
  | none => simp [hop] at hc
  | some op =>
    rw [hop] at hc
    refine ⟨op, c, rfl, hc, hanswer, ?_⟩
    cases c with
    | onTrade => cases hanswer
    | onFill =>
      obtain rfl := Option.some.inj hanswer
      rfl
    | _ =>
      obtain rfl := Option.some.inj hanswer
      cases hfill

/-- The terminal responses and the fills of callbacks are of the orders that these end and fill. -/
theorem endsLast_answers (B : MatchingEngineBroker) {cs : List Callback} (h : EndsLastCalls cs) :
    EndsLast (cs.filterMap B.answer) := by
  refine List.Pairwise.filterMap _ (fun c c' hends q hq q' hq' hterm hfill heq => ?_) h
  have hfilled : c'.filledId = some q'.exchOrderId := by
    cases c' with
    | onTrade => cases hq'
    | onFill =>
      obtain rfl := Option.some.inj hq'
      rfl
    | _ =>
      obtain rfl := Option.some.inj hq'
      cases hfill
  have hcloses : c.closes q.exchOrderId = true := by
    have hone := (terminated_answers B q.exchOrderId [c]).mp
      ⟨q, List.mem_filterMap.mpr ⟨c, by simp, hq⟩, hterm, rfl⟩
    simpa using hone
  exact hends _ hcloses (heq ▸ hfilled)

/-- **A request fills no order that it has ended.** -/
theorem Sound.endsLast_responses (hs : B.Sound requests books)
    (hfresh : (newIds (requests ++ [p])).Nodup) : EndsLast (B.responses books p) := by
  have hanswers : EndsLast ((B.callsOf books p).filterMap (B.accept p).answer) := by
    refine endsLast_answers _ ?_
    unfold callsOf
    cases hop : B.opOf p with
    | none => exact .nil
    | some op =>
      refine PriorityBook.endsLast_step (hs.ordered _) ?_
      exact hs.find?_fresh hfresh (op_of_opOf hop).1 p.symbol
  refine List.pairwise_append.mpr ⟨?_, hanswers, ?_⟩
  · unfold returned
    split_ifs
    · exact List.pairwise_singleton ..
    · exact .nil
  · -- a request that goes back ends nothing
    intro q hq q' _ hterm
    unfold returned at hq
    split_ifs at hq with hreject
    · obtain rfl := List.mem_singleton.mp hq
      simp [OePayload.Terminal, hreject] at hterm
    · cases hq

end MatchingEngineBroker

end Ndfex
