import Ndfex.MatchingEngine.Answers

/-!
# Acknowledgements

The ladder announces a new order after it has traded. So the acknowledgement of an order follows its
fills, also the fill that ends it. Whether the order ends so is a question of the quantity that it
meets: that of the orders on the other side whose prices cross.

## Main definitions

* `crossing`: the quantity of the orders on a side that cross a limit
* `MatchingEngineBroker.FilledOnEntry`: the orders that a new order meets suffice for it
* `acknowledgements`: the acknowledgements of an order before its end

## Main results

* `matchList_remaining_eq_zero`: matching uses an order up exactly if the crossing quantity suffices
* `MatchingEngineBroker.Sound.acknowledgements_entry`: a new order is acknowledged before its end
  exactly if it is not filled on entry
* `MatchingEngineBroker.ack_mem_responses`: which requests are acknowledged
-/

namespace Ndfex

open Containers

/-! ## The quantity that an order meets -/

/-- The quantity of the orders whose prices cross a limit. -/
def crossing (side : Side) (price : Int32) (os : List RestingOrder) : ℕ :=
  ((os.filter fun o => ¬ OrderLadder.beyondLimit side o.price price).map fun o =>
    o.quantity.toNat).sum

theorem crossing_perm {side : Side} {price : Int32} {os os' : List RestingOrder} (h : os.Perm os') :
    crossing side price os = crossing side price os' := by
  unfold crossing
  rw [((h.filter _).map _).sum_eq]

/-- A price that is no better than one beyond the limit is beyond it. -/
theorem OrderLadder.beyondLimit.of_not_better {side : Side} {price p p' : Int32}
    (hp : OrderLadder.beyondLimit side p price) (hnot : ¬ side.bookSide.opposite.better p' p) :
    OrderLadder.beyondLimit side p' price := by
  rcases hp with ⟨rfl, hp⟩ | ⟨rfl, hp⟩
  · exact Or.inl ⟨rfl, Int32.lt_of_lt_of_le hp (Int32.not_lt.mp hnot)⟩
  · exact Or.inr ⟨rfl, Int32.lt_of_le_of_lt (Int32.not_lt.mp hnot) hp⟩

section Matching

variable {symbol : UInt32} {incomingId : UInt64} {side : Side} {price : Int32}

/-- **Matching uses an order up** exactly if the orders that cross its limit suffice. -/
theorem matchList_remaining_eq_zero {os : List RestingOrder}
    (hsorted : os.Pairwise fun x y => ¬ side.bookSide.opposite.better y.price x.price)
    (quantity : UInt32) :
    (matchList symbol incomingId side price os quantity).remaining = 0 ↔
      quantity.toNat ≤ crossing side price os := by
  have hzero : ∀ q : UInt32, q = 0 ↔ q.toNat = 0 := fun q => UInt32.toNat_inj.symm
  fun_induction matchList symbol incomingId side price os quantity with
  | case1 quantity => simp [crossing, hzero]
  | case2 o os quantity hstop =>
    by_cases hq : quantity = 0
    · simp [hq]
    · -- the first price is beyond the limit, and so are the others
      have hbeyond := hstop.resolve_left hq
      have hnone : crossing side price (o :: os) = 0 := by
        unfold crossing
        rw [List.filter_eq_nil_iff.mpr]
        · rfl
        · intro x hx
          rcases List.mem_cons.mp hx with rfl | hx
          · simpa using hbeyond
          · simpa using hbeyond.of_not_better ((List.pairwise_cons.mp hsorted).1 x hx)
      rw [hzero] at hq ⊢
      rw [hnone]
      exact iff_of_false hq (by omega)
  | case3 o os quantity hstop hle m ih =>
    have hcross : ¬ OrderLadder.beyondLimit side o.price price := fun h => hstop (Or.inr h)
    have hcons : crossing side price (o :: os) = o.quantity.toNat + crossing side price os := by
      rw [crossing, List.filter_cons_of_pos (by simpa using hcross)]
      rfl
    have hrest := ih (List.pairwise_cons.mp hsorted).2
    rw [UInt32.toNat_sub_of_le _ _ hle] at hrest
    rw [hcons]
    refine hrest.trans ?_
    omega
  | case4 o os quantity hstop hle =>
    have hcross : ¬ OrderLadder.beyondLimit side o.price price := fun h => hstop (Or.inr h)
    have hcons : crossing side price (o :: os) = o.quantity.toNat + crossing side price os := by
      rw [crossing, List.filter_cons_of_pos (by simpa using hcross)]
      rfl
    rw [UInt32.le_iff_toNat_le] at hle
    refine iff_of_true rfl ?_
    omega

end Matching

/-! ## The acknowledgements of a call -/

/-- The callback announces the order, new or modified. -/
def Callback.Announces (e : UInt64) : Callback → Prop
  | .onNewOrder orderId .. => orderId = e
  | .onModifyOrder orderId .. => orderId = e
  | _ => False

namespace PriorityBook

variable {b : PriorityBook} {symbol : UInt32} {e : UInt64} {c : Callback}

/-- Matching announces nothing. -/
theorem not_announces_matching {o : RestingOrder} (hc : c ∈ (b.matching symbol o).calls) :
    ¬ c.Announces e := by
  obtain ⟨ts, hcalls, -⟩ := matchList_trades symbol o.orderId o.side o.price
    (b.half o.side.bookSide.opposite) o.quantity
  rw [matching, hcalls] at hc
  obtain ⟨t, -, hc⟩ := List.mem_flatMap.mp hc
  simp only [Trade.calls, tradeCalls, List.mem_cons, List.not_mem_nil, or_false] at hc
  rcases hc with rfl | rfl | rfl <;> exact id

/-- **A call announces** its own order, which it enters or which is at rest. -/
theorem announces_step {op : LadderOp} (hc : c ∈ (b.step symbol op).calls)
    (hannounces : c.Announces e) :
    e = op.orderId ∧ (op.Enters e ∨ (∃ side quantity price, op = .modifyOrder e side quantity price) ∧
      b.Rests e) := by
  have hstep := stepping b symbol op
  generalize b.step symbol op = r at hstep hc
  cases hstep with
  | refused => cases hc
  | @entered orderId side quantity price flags r hpos he =>
    have henters : (LadderOp.newOrder orderId side quantity price flags).Enters orderId :=
      ⟨_, _, _, _, rfl⟩
    suffices he : e = orderId by
      subst he
      exact ⟨rfl, Or.inl henters⟩
    -- the announcement comes behind the trades
    have hannounced : ∀ c ∈ b.announced symbol true ⟨orderId, quantity, 0, price, side, flags⟩,
        c.Announces e → e = orderId := by
      intro c hc hannounces
      unfold announced at hc
      split_ifs at hc
      · rw [List.mem_singleton.mp hc] at hannounces
        exact hannounces.symm
      · cases hc
    cases he with
    | dropped hleft hioc =>
      rcases List.mem_append.mp hc with hc | hc
      · exact absurd hannounces (not_announces_matching hc)
      · rw [List.mem_singleton.mp hc] at hannounces
        exact hannounces.elim
    | _ =>
      rcases List.mem_append.mp hc with hc | hc
      · exact absurd hannounces (not_announces_matching hc)
      · exact hannounced c hc hannounces
  | deleted hfound =>
    rw [List.mem_singleton.mp hc] at hannounces
    exact hannounces.elim
  | unknown hop hfound =>
    rw [List.mem_singleton.mp hc] at hannounces
    exact hannounces.elim
  | closed hfound hfilled =>
    rw [List.mem_singleton.mp hc] at hannounces
    exact hannounces.elim
  | requantified hfound hfilled hplace =>
    rw [List.mem_singleton.mp hc] at hannounces
    obtain rfl : _ = e := hannounces
    exact ⟨rfl, Or.inr ⟨⟨_, _, _, rfl⟩, rests_iff.mpr (by simp [hfound])⟩⟩
  | @reentered orderId side quantity price o r hfound hfilled hplace he hthrown =>
    have hentered : ∀ c ∈ r.calls, ¬ c.Announces e := by
      intro c hc hannounces
      cases he with
      | dropped hleft hioc =>
        rw [if_neg Bool.false_ne_true, List.append_nil] at hc
        exact not_announces_matching hc hannounces
      | _ =>
        rw [announced, Bool.false_and, if_neg Bool.false_ne_true, List.append_nil] at hc
        exact not_announces_matching hc hannounces
    rcases List.mem_append.mp hc with hc | hc
    · exact absurd hannounces (hentered c hc)
    · rw [List.mem_singleton.mp hc] at hannounces
      split_ifs at hannounces
      · obtain rfl : orderId = e := hannounces
        exact ⟨rfl, Or.inr ⟨⟨_, _, _, rfl⟩, rests_iff.mpr (by simp [hfound])⟩⟩
      · exact hannounces.elim

/-- An order that is no IOC order is announced behind its trades. -/
theorem calls_enter {o : RestingOrder} (hioc : isIoc o.flags = false) :
    (b.enter symbol true o).calls = (b.matching symbol o).calls ++
      [.onNewOrder o.orderId symbol o.side (b.matching symbol o).remaining o.price o.flags] := by
  have hannounced : b.announced symbol true o =
      [.onNewOrder o.orderId symbol o.side (b.matching symbol o).remaining o.price o.flags] := by
    simp [announced, hioc]
  have he := entering b symbol true o
  generalize b.enter symbol true o = e at he ⊢
  cases he with
  | dropped hleft hioc' =>
    rw [hioc] at hioc'
    cases hioc'
  | filled hleft => rw [hannounced]
  | duplicate hleft hioc' hfound => rw [hannounced]
  | rested hleft hioc' hfound => rw [hannounced]

/-- The orders of one side byte's side. -/
theorem Ordered.filter_orders (hb : b.Ordered) (h : BookSide) :
    b.orders.filter (fun o => o.side.bookSide = h) = b.half h := by
  have hbuys : ∀ o ∈ b.buys, o.side.bookSide = .buy := hb.sided .buy
  have hsells : ∀ o ∈ b.sells, o.side.bookSide = .sell := hb.sided .sell
  rw [orders, List.filter_append]
  cases h with
  | buy =>
    rw [List.filter_eq_self.mpr fun o ho => decide_eq_true (hbuys o ho),
      List.filter_eq_nil_iff.mpr, List.append_nil]
    · rfl
    · intro o ho
      simp [hsells o ho]
  | sell =>
    rw [List.filter_eq_nil_iff.mpr, List.nil_append,
      List.filter_eq_self.mpr fun o ho => decide_eq_true (hsells o ho)]
    · rfl
    · intro o ho
      simp [hbuys o ho]

end PriorityBook

/-! ## The acknowledgements of an order -/

/-- The order that a new order enters. -/
def OePayload.entering (p : OePayload) : RestingOrder :=
  ⟨p.exchOrderId, p.quantity, 0, p.price.toInt32, p.side, p.flags⟩

/-- The acknowledgements of an order among responses, up to the response that ends the order. -/
def acknowledgements (e : UInt64) : List OePayload → ℕ
  | [] => 0
  | p :: ps =>
    if p.Terminal ∧ p.exchOrderId = e then 0
    else (if p.msgType = .ack ∧ p.exchOrderId = e then 1 else 0) + acknowledgements e ps

section Acknowledgements

variable {e : UInt64} {ps qs : List OePayload}

/-- What comes behind the end of an order acknowledges nothing. -/
theorem acknowledgements_append_of_terminated (h : Terminated e ps) (qs : List OePayload) :
    acknowledgements e (ps ++ qs) = acknowledgements e ps := by
  induction ps with
  | nil => exact absurd h (terminated_nil e)
  | cons p ps ih =>
    rw [List.cons_append, acknowledgements, acknowledgements]
    by_cases hp : p.Terminal ∧ p.exchOrderId = e
    · rw [if_pos hp, if_pos hp]
    · rw [if_neg hp, if_neg hp, ih (((terminated_cons ..).mp h).resolve_left hp)]

theorem acknowledgements_append (h : ¬ Terminated e ps) (qs : List OePayload) :
    acknowledgements e (ps ++ qs) = acknowledgements e ps + acknowledgements e qs := by
  induction ps with
  | nil => exact (Nat.zero_add _).symm
  | cons p ps ih =>
    rw [terminated_cons, not_or] at h
    rw [List.cons_append, acknowledgements, acknowledgements, if_neg h.1, if_neg h.1, ih h.2,
      Nat.add_assoc]

theorem acknowledgements_eq_zero (h : ∀ p ∈ ps, p.msgType = .ack → p.exchOrderId ≠ e) :
    acknowledgements e ps = 0 := by
  induction ps with
  | nil => rfl
  | cons p ps ih =>
    have hp : ¬ (p.msgType = .ack ∧ p.exchOrderId = e) := fun hack => h p (by simp) hack.1 hack.2
    rw [acknowledgements, if_neg hp, ih fun q hq => h q (List.mem_cons_of_mem _ hq)]
    split_ifs <;> rfl

/-- Responses that do not acknowledge the order make no difference. -/
theorem acknowledgements_append_right (h : ∀ p ∈ qs, p.msgType = .ack → p.exchOrderId ≠ e) :
    acknowledgements e (ps ++ qs) = acknowledgements e ps := by
  by_cases hterm : Terminated e ps
  · exact acknowledgements_append_of_terminated hterm qs
  · rw [acknowledgements_append hterm, acknowledgements_eq_zero h, Nat.add_zero]

end Acknowledgements

namespace MatchingEngineBroker

variable {B : MatchingEngineBroker} {requests : List OePayload} {books : UInt32 → PriorityBook}
  {p r : OePayload}

/-- The quantity at rest that a new order meets. -/
def crossingQuantity (B : MatchingEngineBroker) (p : OePayload) : ℕ :=
  crossing p.side p.price.toInt32 (((B.restingOrders p.symbol).map Order.resting).filter fun o =>
    o.side.bookSide = p.side.bookSide.opposite)

/-- The orders that a new order meets suffice for it. -/
def FilledOnEntry (B : MatchingEngineBroker) (p : OePayload) : Prop :=
  p.quantity.toNat ≤ B.crossingQuantity p

instance (B : MatchingEngineBroker) (p : OePayload) : Decidable (B.FilledOnEntry p) :=
  inferInstanceAs (Decidable (_ ≤ _))

theorem Sound.crossingQuantity_eq (hs : B.Sound requests books) :
    B.crossingQuantity p =
      crossing p.side p.price.toInt32 ((books p.symbol).half p.side.bookSide.opposite) := by
  have hside := (hs.ordered p.symbol).filter_orders p.side.bookSide.opposite
  rw [← hside]
  exact crossing_perm ((hs.restingOrders_perm p.symbol).filter _)

/-- An acknowledgement among the answers is that of an announcement. -/
theorem ack_mem_answers {cs : List Callback} (hr : r ∈ cs.filterMap B.answer)
    (hack : r.msgType = .ack) : ∃ c ∈ cs, c.Announces r.exchOrderId := by
  obtain ⟨c, hc, hanswer⟩ := List.mem_filterMap.mp hr
  refine ⟨c, hc, ?_⟩
  cases c with
  | onNewOrder =>
    obtain rfl := Option.some.inj hanswer
    exact rfl
  | onModifyOrder =>
    obtain rfl := Option.some.inj hanswer
    exact rfl
  | onTrade => cases hanswer
  | _ =>
    obtain rfl := Option.some.inj hanswer
    cases hack

/-- **The engine acknowledges** the order that a request enters, or that it modifies at rest. -/
theorem ack_mem_responses (hr : r ∈ B.responses books p) (hack : r.msgType = .ack) :
    r.exchOrderId = p.exchOrderId ∧
      (p.msgType = .newOrder ∨ p.msgType = .modifyOrder ∧
        (books p.symbol).Rests p.exchOrderId) := by
  unfold responses returned at hr
  rcases List.mem_append.mp hr with hr | hr
  · split_ifs at hr with hreject
    · rw [List.mem_singleton.mp hr, hreject] at hack
      cases hack
    · cases hr
  obtain ⟨c, hc, hannounces⟩ := ack_mem_answers hr hack
  unfold callsOf at hc
  cases hop : B.opOf p with
  | none => simp [hop] at hc
  | some op =>
    rw [hop] at hc
    obtain ⟨hpop, -⟩ := op_of_opOf hop
    obtain ⟨hid, hwhich⟩ := PriorityBook.announces_step hc hannounces
    rw [OePayload.orderId_of_op hpop] at hid
    refine ⟨hid, ?_⟩
    rcases hwhich with henters | ⟨⟨side, quantity, price, rfl⟩, hrests⟩
    · exact Or.inl (OePayload.enters_of_op hpop henters).1
    · rcases OePayload.cases_of_op hpop with ⟨-, heq⟩ | ⟨-, heq⟩ | ⟨hmodify, -⟩
      · cases heq
      · cases heq
      · exact Or.inr ⟨hmodify, hid ▸ hrests⟩

/-- **A new order** that is no IOC order is acknowledged before its end, exactly if it is not filled on
entry. -/
theorem Sound.acknowledgements_entry (hs : B.Sound requests books)
    (hfresh : (newIds (requests ++ [p])).Nodup) (hnew : p.msgType = .newOrder)
    (hladder : (B.symbolToMatchingEngine.lookup p.symbol).isSome) (hpos : 0 < p.quantity)
    (hioc : isIoc p.flags = false) :
    acknowledgements p.exchOrderId (B.responses books p) = if B.FilledOnEntry p then 0 else 1 := by
  have hpop : p.op = some (.newOrder p.exchOrderId p.side p.quantity p.price.toInt32 p.flags) := by
    rw [OePayload.op, hnew]
  have hreturned : returned p = [] := by
    rw [returned, if_neg]
    simp [hnew]
  -- the order enters the book, and is announced behind its trades
  have hcalls : B.callsOf books p = ((books p.symbol).matching p.symbol p.entering).calls ++
      [.onNewOrder p.exchOrderId p.symbol p.side
        ((books p.symbol).matching p.symbol p.entering).remaining p.price.toInt32 p.flags] := by
    have hop : B.opOf p = p.op := by rw [opOf, if_pos hladder]
    rw [callsOf, hop, hpop]
    dsimp only
    rw [PriorityBook.step, PriorityBook.newOrder, if_pos hpos]
    exact PriorityBook.calls_enter hioc
  have hclosed : Closed p.exchOrderId ((books p.symbol).matching p.symbol p.entering).calls ↔
      B.FilledOnEntry p := by
    have hunlisted : ¬ Listed p.entering.orderId
        ((books p.symbol).half p.entering.side.bookSide.opposite) := by
      rintro ⟨x, hx, hid⟩
      have hnone := hs.find?_fresh hfresh hpop p.symbol ⟨_, _, _, _, rfl⟩
      exact PriorityBook.find?_eq_none.mp hnone x (PriorityBook.mem_orders.mpr ⟨_, hx⟩) hid
    refine (matchList_closed_self hunlisted (UInt32.pos_iff_ne_zero.mp hpos)).trans ?_
    rw [FilledOnEntry, hs.crossingQuantity_eq]
    exact matchList_remaining_eq_zero ((hs.ordered p.symbol).sorted _) _
  have htrades : acknowledgements p.exchOrderId
      (((books p.symbol).matching p.symbol p.entering).calls.filterMap (B.accept p).answer) = 0 := by
    refine acknowledgements_eq_zero fun r hr hack hid => ?_
    obtain ⟨c, hc, hannounces⟩ := ack_mem_answers hr hack
    exact PriorityBook.not_announces_matching hc hannounces
  rw [responses, hreturned, List.nil_append, hcalls, List.filterMap_append]
  by_cases hfilled : B.FilledOnEntry p
  · rw [if_pos hfilled, acknowledgements_append_of_terminated, htrades]
    exact (terminated_answers ..).mpr (hclosed.mpr hfilled)
  · rw [if_neg hfilled, acknowledgements_append, htrades]
    · simp [acknowledgements, answer, response, OePayload.make, OePayload.Terminal]
    · rw [terminated_answers, hclosed]
      exact hfilled

end MatchingEngineBroker

end Ndfex
