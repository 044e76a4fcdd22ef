import Ndfex.MatchingEngine.FillAttribution
import Ndfex.MatchingEngine.ReportedFills

/-!
# The terms of filled orders

A fill names an order, a symbol and a side. The symbol is the one that the order was entered for, since a
book only has orders of its symbol. The side is the one that it rests on or came in with, which is the one
of its entry as long as its modifications keep to it: the engine takes any side.

## Main definitions

* `BrokerRun.KeepsSides`: a request that leaves the orders of a client on their sides
* `BrokerRun.SidesKept`: the orders of the client at rest are on the sides of their entries
* `BrokerRun.FillsDescribed`: the fills name the symbols of their orders, and the client's also the sides

## Main results

* `BrokerRun.SidesKept.next`, `BrokerRun.FillsDescribed.next`: the requests that keep sides keep both
-/

namespace Ndfex

namespace PriorityBook

/-- The side of a fill is that of the call, or that on which its order rests. -/
theorem side_of_fill_mem_step {b : PriorityBook} {symbol : UInt32} {op : LadderOp} {e : UInt64}
    {sym : UInt32} {s : Side} {q : UInt32} {p : Int32} {flags : UInt8} {active : Bool}
    (hc : Callback.onFill e sym s q p flags active ∈ (b.step symbol op).calls) :
    (active = true → s = op.side) ∧
      (active = false → ∃ o ∈ b.orders, o.orderId = e ∧ o.side = s) := by
  obtain ⟨ts, tail, hcalls, htail, -, hts⟩ := trades_step b symbol op
  rw [hcalls] at hc
  rcases List.mem_append.mp hc with hc | hc
  · obtain ⟨t, ht, hc⟩ := List.mem_flatMap.mp hc
    have hmem : t.order ∈ b.orders := mem_orders.mpr ⟨_, (hts t ht).1⟩
    simp only [Trade.calls, tradeCalls, List.mem_cons, List.not_mem_nil, reduceCtorEq,
      Callback.onFill.injEq, or_false, false_or] at hc
    rcases hc with ⟨rfl, -, rfl, -, -, -, rfl⟩ | ⟨-, -, rfl, -, -, -, rfl⟩
    · exact ⟨by simp, fun _ => ⟨_, hmem, rfl, rfl⟩⟩
    · exact ⟨fun _ => rfl, by simp⟩
  · exact absurd trivial (htail _ hc).1

end PriorityBook

namespace BrokerRun

/-- The request entered the order in the name of the client. -/
def IsEntry (r : OePayload) (e : UInt64) (c : UInt32) : Prop :=
  r.msgType = .newOrder ∧ r.exchOrderId = e ∧ r.clientId = c

/-- A request that leaves the orders of a client on their sides: it modifies none of them to another side
than that of its entry. -/
def KeepsSides (c : UInt32) (s : BrokerRun) (p : OePayload) : Prop :=
  p.msgType = .modifyOrder → ∀ r ∈ s.requests, IsEntry r p.exchOrderId c → p.side = r.side

/-- The orders of a client at rest are on the sides of their entries. -/
def SidesKept (c : UInt32) (s : BrokerRun) (books : UInt32 → PriorityBook) : Prop :=
  ∀ symbol, ∀ o ∈ (books symbol).orders, ∀ r ∈ s.requests, IsEntry r o.orderId c → o.side = r.side

/-- The fills name the symbols of their orders, and those of a client also the sides. -/
def FillsDescribed (c : UInt32) (s : BrokerRun) : Prop :=
  ∀ q ∈ s.broker.toClient.items, q.msgType = .fill → ∀ r ∈ s.requests, r.msgType = .newOrder →
    r.exchOrderId = q.exchOrderId → r.symbol = q.symbol ∧ (r.clientId = c → q.side = r.side)

variable {c : UInt32} {s : BrokerRun} {books : UInt32 → PriorityBook} {p : OePayload}

/-- An order at rest before a request was not entered by it. -/
theorem mem_requests_of_entry (hs : s.broker.Sound s.requests books)
    (hfresh : (newIds (s.requests ++ [p])).Nodup) {symbol : UInt32} {e : UInt64}
    (he : (books symbol).Rests e) {r : OePayload} (hr : r ∈ (s.next p).requests)
    (hnew : r.msgType = .newOrder) (hid : r.exchOrderId = e) : r ∈ s.requests ∧ r.symbol = symbol := by
  obtain ⟨r', hr', hnew', hid', hsymbol⟩ := hs.entered symbol e he
  have hsame : r = r' := eq_of_newOrder hfresh hr (List.mem_append_left _ hr') hnew hnew'
    (hid.trans hid'.symm)
  rw [hsame]
  exact ⟨hr', hsymbol⟩

/-- The orders at rest are on the sides of their entries when the next request is taken. -/
theorem SidesKept.taken (h : s.SidesKept c books) (hs : s.broker.Sound s.requests books)
    (hfresh : (newIds (s.requests ++ [p])).Nodup) : (s.next p).SidesKept c books := by
  intro symbol o ho r hr hentry
  have hold := mem_requests_of_entry hs hfresh ⟨o, ho, rfl⟩ hr hentry.1 hentry.2.1
  exact h symbol o ho r hold.1 hentry

/-- **Every request** that keeps the sides of a client's orders leaves them at rest on their sides. -/
theorem SidesKept.next (h : s.SidesKept c books) (hs : s.broker.Sound s.requests books)
    (hp : s.KeepsSides c p) (hfresh : (newIds (s.requests ++ [p])).Nodup) :
    (s.next p).SidesKept c (s.broker.booksOf books p) := by
  have htaken := h.taken hs hfresh
  unfold MatchingEngineBroker.booksOf
  cases hop : s.broker.opOf p with
  | none => exact htaken
  | some op =>
    obtain ⟨hpop, -⟩ := MatchingEngineBroker.op_of_opOf hop
    intro symbol o ho
    dsimp only at ho
    by_cases hsymbol : symbol = p.symbol
    swap
    · rw [Function.update_of_ne hsymbol] at ho
      exact htaken symbol o ho
    subst hsymbol
    rw [Function.update_self] at ho
    -- neither matching nor a change of quantity touches an id or a side
    refine PriorityBook.forall_step
      (P := fun o => ∀ r ∈ (s.next p).requests, IsEntry r o.orderId c → o.side = r.side)
      (fun _ _ _ h => h) _ (fun o ho => htaken _ o ho) (fun o ho r hr hentry => ?_) o ho
    rcases OePayload.cases_of_op hpop with ⟨hnew, rfl⟩ | ⟨-, rfl⟩ | ⟨hmodify, rfl⟩
    · obtain rfl := Option.some.inj ho
      rw [eq_of_newOrder hfresh hr (by simp) hentry.1 hnew hentry.2.1]
    · cases ho
    · obtain ⟨x, hx, rfl⟩ := Option.map_eq_some_iff.mp ho
      obtain ⟨hmem, hid⟩ := PriorityBook.mem_of_find? hx
      have hold := mem_requests_of_entry hs hfresh ⟨x, hmem, rfl⟩ hr hentry.1 hentry.2.1
      refine hp hmodify r hold.1 ⟨hentry.1, ?_, hentry.2.2⟩
      exact hentry.2.1.trans hid

/-- **Every request** that keeps the sides of a client's orders has its fills described. -/
theorem FillsDescribed.next (h : s.FillsDescribed c) (hs : s.broker.Sound s.requests books)
    (hkept : s.SidesKept c books) (hentered : s.FillsAttributed) (hp : s.KeepsSides c p)
    (hfresh : (newIds (s.requests ++ [p])).Nodup) : (s.next p).FillsDescribed c := by
  obtain ⟨hhandled, -⟩ := hs.handle hfresh
  intro q hq hfill r hr hnew hid
  have hitems : (s.next p).broker.toClient.items =
      s.broker.toClient.items ++ s.broker.responses books p := hhandled.items
  rw [hitems] at hq
  rcases List.mem_append.mp hq with hq | hq
  · -- a fill of the past is not of the order that enters now
    obtain ⟨r', hr', hnew', hid', -⟩ := hentered.1 q hq hfill
    have hsame : r = r' := eq_of_newOrder hfresh hr (List.mem_append_left _ hr') hnew hnew'
      (hid.trans hid'.symm)
    rw [hsame] at hid ⊢
    exact h q hq hfill r' hr' hnew' hid
  obtain ⟨op, call, hop, hcall, hanswer, hfilled⟩ :=
    MatchingEngineBroker.exists_of_fill_mem_responses hq hfill
  obtain ⟨hpop, -⟩ := MatchingEngineBroker.op_of_opOf hop
  cases call with
  | onFill e sym side quantity price flags active =>
    obtain rfl := Option.some.inj hanswer
    obtain ⟨rfl, hactive, -⟩ := PriorityBook.fill_of_mem_step hcall
    obtain ⟨hown, hresting⟩ := PriorityBook.side_of_fill_mem_step hcall
    cases active with
    | false =>
      obtain ⟨o, ho, rfl, rfl⟩ := hresting rfl
      have hold := mem_requests_of_entry hs hfresh ⟨o, ho, rfl⟩ hr hnew hid
      exact ⟨hold.2, fun hc => hkept _ o ho r hold.1 ⟨hnew, hid, hc⟩⟩
    | true =>
      have he := hactive rfl
      rw [OePayload.orderId_of_op hpop] at he
      subst he
      have hside := hown rfl
      rcases OePayload.cases_of_op hpop with ⟨hpnew, rfl⟩ | ⟨-, rfl⟩ | ⟨hmodify, rfl⟩
      · rw [eq_of_newOrder hfresh hr (by simp) hnew hpnew hid]
        exact ⟨rfl, fun _ => hside⟩
      · -- a deletion makes no trade
        rcases PriorityBook.rests_of_filledId hcall rfl with hrests | ⟨_, _, _, _, henters⟩
        · simp only [PriorityBook.step, PriorityBook.deleteOrder] at hcall
          split_ifs at hcall <;> cases List.mem_singleton.mp hcall
        · cases henters
      · obtain ⟨x, hx, -⟩ := PriorityBook.trade_of_modify (c := .onFill ..) trivial hcall
        obtain ⟨hmem, hxid⟩ := PriorityBook.mem_of_find? hx
        have hold := mem_requests_of_entry hs hfresh ⟨x, hmem, hxid⟩ hr hnew hid
        exact ⟨hold.2, fun hc => hside.trans (hp hmodify r hold.1 ⟨hnew, hid, hc⟩)⟩
  | _ => cases hfilled

end BrokerRun

end Ndfex
