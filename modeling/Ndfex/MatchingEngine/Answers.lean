import Ndfex.MatchingEngine.BrokerRuns

/-!
# The engine's answers

What the engine puts on the response queue for a request. A reject is there for two reasons: the
engine passes on a reject of the handler as it is, and it answers a deletion or a modification of an
order that does not rest with a reject of its own, which has the order's exchange id and no reason.
Every answer has the sequence number of the request but for the fills of the orders that it meets.

## Main definitions

* `MatchingEngineBroker.responses`: the responses to a request
* `OePayload.PassiveTo`: the response fills another order than the request's own

## Main results

* `PriorityBook.cancelReject_mem_step`: when a ladder rejects a call
* `MatchingEngineBroker.Sound.reject_mem_responses`: the rejects among the responses
* `MatchingEngineBroker.Sound.clientSeq_of_mem_responses`: the sequence numbers of the responses
-/

namespace Ndfex

open Containers

namespace PriorityBook

variable {b : PriorityBook} {symbol : UInt32}

/-- Entering an order rejects nothing. -/
theorem cancelReject_not_mem_entering {notify : Bool} {o : RestingOrder} {e : Entered}
    (he : Entering b symbol notify o e) (id : UInt64) : .onCancelReject id ∉ e.calls := by
  obtain ⟨ts, hcalls, -⟩ := matchList_trades symbol o.orderId o.side o.price
    (b.half o.side.bookSide.opposite) o.quantity
  have hmatching : .onCancelReject id ∉ (b.matching symbol o).calls := by
    rw [matching, hcalls]
    intro hc
    obtain ⟨t, -, hc⟩ := List.mem_flatMap.mp hc
    simp [Trade.calls, tradeCalls] at hc
  have hannounced : .onCancelReject id ∉ b.announced symbol notify o := by
    unfold announced
    split_ifs <;> simp
  cases he with
  | dropped hleft hioc =>
    cases notify <;> simpa using hmatching
  | filled hleft => simp [hmatching, hannounced]
  | duplicate hleft hioc hfound => simp [hmatching, hannounced]
  | rested hleft hioc hfound => simp [hmatching, hannounced]

/-- **A ladder rejects** a deletion or a modification of an order that it does not have. -/
theorem cancelReject_mem_step {op : LadderOp} {id : UInt64} :
    .onCancelReject id ∈ (b.step symbol op).calls ↔
      ¬ op.Enters op.orderId ∧ b.find? op.orderId = none ∧ id = op.orderId := by
  have hstep := stepping b symbol op
  generalize b.step symbol op = r at hstep ⊢
  cases hstep with
  | refused => simp [LadderOp.Enters, LadderOp.orderId]
  | entered hpos he =>
    refine iff_of_false (cancelReject_not_mem_entering he id) fun h => h.1 ?_
    exact ⟨_, _, _, _, rfl⟩
  | @unknown op orderId hop hfound =>
    have hnew : ¬ op.Enters op.orderId ∧ op.orderId = orderId := by
      rcases hop with rfl | ⟨side, quantity, price, rfl⟩ <;>
        simp [LadderOp.Enters, LadderOp.orderId]
    obtain ⟨hnew, rfl⟩ := hnew
    simp [hnew, hfound]
  | deleted hfound => simp [LadderOp.orderId, hfound]
  | closed hfound hfilled => simp [LadderOp.orderId, hfound]
  | requantified hfound hfilled hplace => simp [LadderOp.orderId, hfound]
  | @reentered e side quantity price o r hfound hfilled hplace he hthrown =>
    have hcalls := cancelReject_not_mem_entering he id
    refine iff_of_false ?_ (by simp [LadderOp.orderId, hfound])
    rw [List.mem_append, not_or]
    refine ⟨hcalls, ?_⟩
    split_ifs <;> simp

end PriorityBook

namespace MatchingEngineBroker

variable {B : MatchingEngineBroker} {requests : List OePayload} {books : UInt32 → PriorityBook}
  {p q : OePayload}

/-- The responses to a request. -/
def responses (B : MatchingEngineBroker) (books : UInt32 → PriorityBook) (p : OePayload) :
    List OePayload :=
  returned p ++ (B.callsOf books p).filterMap (B.accept p).answer

/-- Of the answers to callbacks only that of `onCancelReject` is a reject. -/
theorem reject_mem_answers {cs : List Callback} (hreject : q.msgType = .reject) :
    q ∈ cs.filterMap (B.accept p).answer ↔ ∃ id, .onCancelReject id ∈ cs ∧
      q = .make .reject id 0 p.clientSeq p.clientId Side.buy 0 0 0 := by
  rw [List.mem_filterMap]
  constructor
  · rintro ⟨c, hc, hanswer⟩
    cases c with
    | onCancelReject id =>
      refine ⟨id, hc, ?_⟩
      simp only [answer, response, accept_clientSeq, accept_clientId] at hanswer
      exact (Option.some.inj hanswer).symm
    | onTrade => cases hanswer
    | _ =>
      obtain rfl := Option.some.inj hanswer
      cases hreject
  · rintro ⟨id, hc, rfl⟩
    refine ⟨_, hc, ?_⟩
    simp only [answer, response, accept_clientSeq, accept_clientId]

/-- **The rejects** with which the engine answers a request: the request itself, if it is one, or that
of a deletion or a modification of an order that does not rest. -/
theorem Sound.reject_mem_responses (hs : B.Sound requests books)
    (hladder : p.msgType ≠ .reject → (B.symbolToMatchingEngine.lookup p.symbol).isSome)
    (hreject : q.msgType = .reject) :
    q ∈ B.responses books p ↔
      p.msgType = .reject ∧ q = p ∨
        (p.msgType = .deleteOrder ∨ p.msgType = .modifyOrder) ∧
          B.resting p.symbol p.exchOrderId = none ∧
          q = .make .reject p.exchOrderId 0 p.clientSeq p.clientId Side.buy 0 0 0 := by
  unfold responses returned
  by_cases hp : p.msgType = .reject
  · -- a reject calls no ladder
    have hcalls : B.callsOf books p = [] := by
      simp [callsOf, opOf, OePayload.op, hp]
    simp [hcalls, hp]
  rw [if_neg hp, List.nil_append, reject_mem_answers hreject]
  have hop : B.opOf p = p.op := by rw [opOf, if_pos (hladder hp)]
  cases hpop : p.op with
  | none =>
    have hother : ¬ (p.msgType = .deleteOrder ∨ p.msgType = .modifyOrder) := by
      rintro (htype | htype) <;> simp [OePayload.op, htype] at hpop
    simp [callsOf, hop, hpop, hp, hother]
  | some op =>
    have hid := OePayload.orderId_of_op hpop
    have hasks : ¬ op.Enters op.orderId ↔ p.msgType = .deleteOrder ∨ p.msgType = .modifyOrder := by
      rcases OePayload.cases_of_op hpop with ⟨hnew, rfl⟩ | ⟨hdelete, rfl⟩ | ⟨hmodify, rfl⟩
      · simp [LadderOp.Enters, LadderOp.orderId, hnew]
      · simp [LadderOp.Enters, hdelete]
      · simp [LadderOp.Enters, hmodify]
    have hfind : (books p.symbol).find? op.orderId = none ↔
        B.resting p.symbol p.exchOrderId = none := by
      rw [← hs.resting_eq, hid, Option.map_eq_none_iff]
    rw [hid] at hasks hfind
    simp only [callsOf, hop, hpop, PriorityBook.cancelReject_mem_step, hid, hasks, hfind, hp,
      false_and, false_or]
    constructor
    · rintro ⟨id, ⟨htype, hnone, rfl⟩, rfl⟩
      exact ⟨htype, hnone, rfl⟩
    · rintro ⟨htype, hnone, rfl⟩
      exact ⟨_, ⟨htype, hnone, rfl⟩, rfl⟩

end MatchingEngineBroker

/-- The response fills another order than that of the request. -/
def OePayload.PassiveTo (r p : OePayload) : Prop :=
  r.msgType = .fill ∧ r.exchOrderId ≠ p.exchOrderId

instance (r p : OePayload) : Decidable (r.PassiveTo p) := inferInstanceAs (Decidable (_ ∧ _))

/-- A resting order that is filled is another one than that of the call. -/
theorem PriorityBook.ne_of_passive_mem_step {b : PriorityBook} {symbol : UInt32} {op : LadderOp}
    (hnew : op.Enters op.orderId → b.find? op.orderId = none) {e : UInt64} {sym : UInt32}
    {s : Side} {q : UInt32} {p : Int32} {flags : UInt8}
    (hc : Callback.onFill e sym s q p flags false ∈ (b.step symbol op).calls) :
    e ≠ op.orderId := by
  obtain ⟨ts, tail, hcalls, htail, -, hts⟩ := b.trades_step symbol op
  rw [hcalls] at hc
  rcases List.mem_append.mp hc with hc | hc
  · obtain ⟨t, ht, hc⟩ := List.mem_flatMap.mp hc
    obtain ⟨hmem, -, hother⟩ := hts t ht
    simp only [Trade.calls, tradeCalls, List.mem_cons, List.not_mem_nil, reduceCtorEq,
      Callback.onFill.injEq, or_false, false_or, Bool.false_eq_true, and_false] at hc
    obtain ⟨rfl, -⟩ := hc
    rcases hother with henters | hne
    · -- a new order is not at rest yet
      intro heq
      have hnone := find?_eq_none.mp (hnew henters) _ (mem_orders.mpr ⟨_, hmem⟩)
      exact hnone heq
    · exact hne
  · exact absurd trivial (htail _ hc).1

namespace MatchingEngineBroker

variable {B : MatchingEngineBroker} {requests : List OePayload} {books : UInt32 → PriorityBook}
  {p r : OePayload}

/-- **The sequence numbers** of the responses are that of the request, but for the fills of resting
orders. -/
theorem Sound.clientSeq_of_mem_responses (hs : B.Sound requests books)
    (hfresh : (newIds (requests ++ [p])).Nodup) (hr : r ∈ B.responses books p)
    (hown : ¬ r.PassiveTo p) : r.clientSeq = p.clientSeq := by
  unfold responses returned at hr
  rcases List.mem_append.mp hr with hr | hr
  · split_ifs at hr
    · rw [List.mem_singleton.mp hr]
    · cases hr
  obtain ⟨c, hc, hanswer⟩ := List.mem_filterMap.mp hr
  unfold callsOf at hc
  cases hop : B.opOf p with
  | none => simp [hop] at hc
  | some op =>
    rw [hop] at hc
    obtain ⟨hpop, -⟩ := op_of_opOf hop
    cases c with
    | onTrade => cases hanswer
    | onFill e symbol side quantity price flags active =>
      obtain rfl := Option.some.inj hanswer
      cases active with
      | true => simp [OePayload.make]
      | false =>
        have hne := PriorityBook.ne_of_passive_mem_step
          (hs.find?_fresh hfresh hpop p.symbol) hc
        rw [OePayload.orderId_of_op hpop] at hne
        exact absurd ⟨rfl, hne⟩ hown
    | _ =>
      obtain rfl := Option.some.inj hanswer
      simp [response, OePayload.make]

/-! ### Brokers that answer alike -/

section Congr

variable {B' : MatchingEngineBroker}

theorem opOf_congr (hsymbols : ∀ symbol, (B'.symbolToMatchingEngine.lookup symbol).isSome =
    (B.symbolToMatchingEngine.lookup symbol).isSome) (p : OePayload) : B'.opOf p = B.opOf p := by
  rw [opOf, opOf, hsymbols]

theorem clientOf_accept_congr (howners : ∀ e, B'.clientOf e = B.clientOf e) (p : OePayload)
    (e : UInt64) : (B'.accept p).clientOf e = (B.accept p).clientOf e := by
  rw [clientOf_accept, clientOf_accept, howners]

/-- **The responses** to a request depend on the books, the owners and the symbols. -/
theorem responses_congr (howners : ∀ e, B'.clientOf e = B.clientOf e)
    (hsymbols : ∀ symbol, (B'.symbolToMatchingEngine.lookup symbol).isSome =
      (B.symbolToMatchingEngine.lookup symbol).isSome) (books : UInt32 → PriorityBook)
    (p : OePayload) : B'.responses books p = B.responses books p := by
  have hanswer : (B'.accept p).answer = (B.accept p).answer := by
    have hclient : (B'.accept p).fillClient = (B.accept p).fillClient := by
      funext orderId active
      rw [fillClient, fillClient, accept_clientId, accept_clientId,
        clientOf_accept_congr howners]
    funext c
    cases c <;> simp only [answer, response, accept_clientSeq, accept_clientId, hclient]
  rw [responses, responses, callsOf, callsOf, opOf_congr hsymbols, hanswer]

end Congr

/-- The engine passes on a reject and does nothing else. -/
theorem responses_of_reject (books : UInt32 → PriorityBook) (hreject : p.msgType = .reject) :
    B.opOf p = none ∧ B.responses books p = [p] ∧ B.booksOf books p = books := by
  have hop : B.opOf p = none := by
    unfold opOf
    split_ifs
    · simp [OePayload.op, hreject]
    · rfl
  refine ⟨hop, ?_, ?_⟩
  · rw [responses, returned, if_pos hreject, callsOf, hop]
    rfl
  · rw [booksOf, hop]

end MatchingEngineBroker

end Ndfex
