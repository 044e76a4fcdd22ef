import Ndfex.Exchange.System

/-!
# The handler and the engine agree

What holds of the handler, the broker and the two queues between them in every state of the exchange.
The handler knows an exchange id from the order's admission until it takes the order's terminal
response. The engine rests an order from its entry until it gives that response. So with both queues
empty the handler knows the orders at rest, and it is silent about every other.

## Main definitions

* `OePayload.Admitted`: the requests that the handler forwards
* `Agreed`: the maps of the handler, the queues and the books fit together
* `Silent`: nothing was written for an order after its terminal response

## Main results

* `Agreed.kept`, `Agreed.enter`, `Agreed.handle`, `Agreed.engine`: every step keeps `Agreed`
* `Exchange.exists_agreed`: every run does
* `engine_never_throws`: no request that the handler forwards makes the engine throw
* `open_orders_agree`: with empty queues, the handler's open orders are those at rest
-/

namespace Ndfex

open Containers Transition

/-- A request that the handler forwards: for a symbol that it knows, and of a quantity if it is a new
order. -/
def OePayload.Admitted (v : OrderEntryValidator) (p : OePayload) : Prop :=
  p.msgType = .reject ∨ v.Knows p.symbol ∧
    (p.msgType = .newOrder ∧ 0 < p.quantity ∨ p.msgType = .deleteOrder ∨ p.msgType = .modifyOrder)

/-- The handler, the broker and the books that its ladders represent fit together. -/
structure Agreed (h : ClientHandler) (B : MatchingEngineBroker) (books : UInt32 → PriorityBook) :
    Prop where
  sound : B.Sound h.toMatchingEngine.taken books
  symbols : ∀ symbol, h.validator.Knows symbol → (B.symbolToMatchingEngine.lookup symbol).isSome
  assigned : (newIds h.toMatchingEngine.items).Nodup
  admitted : ∀ p ∈ h.toMatchingEngine.items, p.Admitted h.validator
  opened : ∀ c o x, h.openOrder c o = some x →
    h.exchToClientOrders.lookup x.exchOrderId = some ⟨c, o⟩ ∧ h.validator.Knows x.symbol
  exch : ∀ e, (h.exchToClientOrders.lookup e).isSome ↔
    e ∈ newIds h.toMatchingEngine.items ∧ ¬ Terminated e B.toClient.taken
  answered : ∀ e, Terminated e B.toClient.items → e ∈ newIds h.toMatchingEngine.taken
  rests : ∀ e, (∃ symbol, (books symbol).Rests e) ↔
    e ∈ newIds h.toMatchingEngine.taken ∧ ¬ Terminated e B.toClient.items

/-- The message answers a terminal response. -/
def Written.Terminal (x : Written) : Prop := ∃ p ∈ x.payload, p.Terminal

/-- The message is an `ACK`, a `FILL` or a `CLOSE` for the order. -/
def Written.About (x : Written) (e : UInt64) : Prop :=
  ∃ p ∈ x.payload, p.msgType ≠ .reject ∧ p.exchOrderId = e

/-- What the handler wrote for terminal responses it took from the engine, and it wrote nothing for
their orders later. -/
structure Silent (h : ClientHandler) (B : MatchingEngineBroker) : Prop where
  taken : ∀ x ∈ h.written, ∀ p ∈ x.payload, p.Terminal → p ∈ B.toClient.taken
  later : h.written.Pairwise fun x x' => ∀ e, x.Terminal → x.About e → ¬ x'.About e

section Lists

variable {ps qs : List OePayload} {e : UInt64}

theorem newIds_append (ps qs : List OePayload) : newIds (ps ++ qs) = newIds ps ++ newIds qs :=
  List.filterMap_append

/-- A request for an open order enters no order. -/
theorem newIds_asks {h : ClientHandler} (hps : ∀ p ∈ ps, h.Asks p) : newIds ps = [] := by
  rw [newIds, List.filterMap_eq_nil_iff]
  intro p hp
  rw [OePayload.newId, if_neg]
  rcases hps p hp with hreject | ⟨hdelete | hmodify, -⟩ <;> simp [*]

theorem mem_newIds_items {q : Fifo OePayload} (h : e ∈ newIds q.taken) : e ∈ newIds q.items := by
  rw [← q.taken_append_pending, newIds_append]
  exact List.mem_append_left _ h

theorem terminated_items {q : Fifo OePayload} (h : Terminated e q.taken) :
    Terminated e q.items := by
  rw [← q.taken_append_pending]
  exact (terminated_append ..).mpr (Or.inl h)

end Lists

namespace Agreed

variable {h h' : ClientHandler} {B : MatchingEngineBroker} {books : UInt32 → PriorityBook}
  {payload : Option OePayload} {w : Circumstances} {p : OePayload}

/-- The handler knows the ids of its open orders. -/
theorem mem_newIds_of_open (ha : Agreed h B books) {c : UInt32} {o : UInt64} {x : OpenOrder}
    (hx : h.openOrder c o = some x) : x.exchOrderId ∈ newIds h.toMatchingEngine.items := by
  refine ((ha.exch x.exchOrderId).mp ?_).1
  rw [(ha.opened c o x hx).1]
  rfl

/-- An event that enters no order keeps the agreement. -/
theorem kept (ha : Agreed h B books) (hk : h.Kept payload h') : Agreed h' B books := by
  obtain ⟨ps, hitems, hasks⟩ := hk.items
  have hids : newIds h'.toMatchingEngine.items = newIds h.toMatchingEngine.items := by
    rw [hitems, newIds_append, newIds_asks hasks, List.append_nil]
  constructor
  · rw [hk.taken]
    exact ha.sound
  · rw [hk.validator]
    exact ha.symbols
  · rw [hids]
    exact ha.assigned
  · intro p hp
    rw [hk.validator]
    rw [hitems] at hp
    rcases List.mem_append.mp hp with hp | hp
    · exact ha.admitted p hp
    · -- what it asks of the engine is of an order that was open, whose symbol was checked
      rcases hasks p hp with hreject | ⟨htype, c, o, x, hx, -, hsymbol⟩
      · exact Or.inl hreject
      · exact Or.inr ⟨hsymbol ▸ (ha.opened c o x hx).2, Or.inr htype⟩
  · intro c o x hx
    rw [hk.validator, hk.exch]
    exact ha.opened c o x (hk.opened c o x hx).1
  · rw [hk.exch, hids]
    exact ha.exch
  · rw [hk.taken]
    exact ha.answered
  · rw [hk.taken]
    exact ha.rests

theorem logIn (ha : Agreed h B books) (sockFd : Int32) (msg : Login) (sessionId : UInt64) :
    Agreed (h.logIn sockFd msg sessionId) B books :=
  ⟨ha.sound, ha.symbols, ha.assigned, ha.admitted, ha.opened, ha.exch, ha.answered, ha.rests⟩

/-- An admitted order with a fresh id keeps the agreement. -/
theorem enter (ha : Agreed h B books) {sockFd : Int32} {msg : NewOrder} {now : UInt64}
    (hadm : h.Admits sockFd msg)
    (hfresh : (newIds (h.onNewOrder sockFd msg now).toMatchingEngine.items).Nodup) :
    Agreed (h.onNewOrder sockFd msg now) B books := by
  rw [ClientHandler.onNewOrder_of_admits hadm] at hfresh ⊢
  obtain ⟨-, hvalid, -⟩ := hadm
  obtain ⟨d, hd, hvalid⟩ := OrderEntryValidator.validateNewOrder_eq_none.mp hvalid
  have hknows : h.validator.Knows msg.symbol := by
    rw [OrderEntryValidator.Knows, hd]
    rfl
  have hids : newIds (h.toMatchingEngine.items ++ [ClientHandler.newPayload msg now]) =
      newIds h.toMatchingEngine.items ++ [now] := newIds_append ..
  have hnow : now ∉ newIds h.toMatchingEngine.items := by
    intro hmem
    rw [ClientHandler.emplace, Fifo.items_push] at hfresh
    have hnd : (newIds h.toMatchingEngine.items ++ [now]).Nodup := hids ▸ hfresh
    exact List.disjoint_of_nodup_append hnd hmem (List.mem_singleton_self now)
  have htaken : ((h.enter msg now).emplace (ClientHandler.newPayload msg now)).toMatchingEngine.taken =
      h.toMatchingEngine.taken := Fifo.taken_push ..
  constructor
  · rw [htaken]
    exact ha.sound
  · exact ha.symbols
  · exact hfresh
  · intro p hp
    rcases List.mem_append.mp hp with hp | hp
    · exact ha.admitted p hp
    · obtain rfl := List.mem_singleton.mp hp
      exact Or.inr ⟨hknows, Or.inl ⟨rfl, hvalid.quantity_pos⟩⟩
  · intro c o x hx
    replace hx : (h.enter msg now).openOrder c o = some x := hx
    rw [ClientHandler.openOrder_enter] at hx
    split_ifs at hx with hco
    · obtain rfl := Option.some.inj hx
      obtain ⟨rfl, rfl⟩ := hco
      exact ⟨AList.lookup_insert _, hknows⟩
    · have hne : x.exchOrderId ≠ now := fun heq => hnow (heq ▸ ha.mem_newIds_of_open hx)
      obtain ⟨hlookup, hsymbol⟩ := ha.opened c o x hx
      exact ⟨(AList.lookup_insert_ne hne).trans hlookup, hsymbol⟩
  · intro e
    show ((h.exchToClientOrders.insert now _).lookup e).isSome ↔
      e ∈ newIds (h.toMatchingEngine.items ++ [_]) ∧ _
    rw [hids, List.mem_append, List.mem_singleton]
    by_cases he : e = now
    · subst he
      rw [AList.lookup_insert]
      -- no response was given for an id that was not handed out
      refine iff_of_true rfl ⟨Or.inr rfl, fun hterm => hnow ?_⟩
      exact mem_newIds_items (ha.answered e (terminated_items hterm))
    · rw [AList.lookup_insert_ne he, ha.exch e]
      simp [he]
  · rw [htaken]
    exact ha.answered
  · rw [htaken]
    exact ha.rests

/-- A response that the handler ignores or passes on is taken off the queue. -/
theorem pop (ha : Agreed h B books) (hp : B.toClient.front? = some p)
    (hno : p.Terminal → h.exchToClientOrders.lookup p.exchOrderId = none) :
    Agreed h { B with toClient := B.toClient.pop } books := by
  refine ⟨{ ha.sound with }, ha.symbols, ha.assigned, ha.admitted, ha.opened, fun e => ?_, ?_, ?_⟩
  · rw [Fifo.taken_pop hp, terminated_append, terminated_cons]
    by_cases he : p.Terminal ∧ p.exchOrderId = e
    · obtain ⟨hterm, rfl⟩ := he
      rw [hno hterm]
      simp [hterm]
    · simpa [he] using ha.exch e
  · simpa only [Fifo.items_pop] using ha.answered
  · simpa only [Fifo.items_pop] using ha.rests

/-- A terminal response takes its order out of both maps. -/
theorem forget (ha : Agreed h B books) (hp : B.toClient.front? = some p) (hterm : p.Terminal)
    {order : ExchOrder} (horder : h.exchToClientOrders.lookup p.exchOrderId = some order) :
    Agreed (h.forget p.exchOrderId order) { B with toClient := B.toClient.pop } books := by
  refine ⟨{ ha.sound with }, ha.symbols, ha.assigned, ha.admitted, fun c o x hx => ?_,
    fun e => ?_, ?_, ?_⟩
  · rw [ClientHandler.openOrder_forget] at hx
    split_ifs at hx with hco
    obtain ⟨hlookup, hsymbol⟩ := ha.opened c o x hx
    refine ⟨?_, hsymbol⟩
    -- an order that stays open is another one
    have hne : x.exchOrderId ≠ p.exchOrderId := by
      intro heq
      rw [heq, horder] at hlookup
      obtain rfl := Option.some.inj hlookup
      exact hco ⟨rfl, rfl⟩
    exact (AList.lookup_erase_ne hne).trans hlookup
  · show ((h.exchToClientOrders.erase p.exchOrderId).lookup e).isSome ↔ _
    rw [Fifo.taken_pop hp, terminated_append, terminated_cons]
    by_cases he : e = p.exchOrderId
    · subst he
      rw [AList.lookup_erase]
      simp [hterm]
    · have hexch := ha.exch e
      rw [AList.lookup_erase_ne he]
      simpa [Ne.symm he] using hexch
  · simpa only [Fifo.items_pop, ClientHandler.toMatchingEngine_forget] using ha.answered
  · simpa only [Fifo.items_pop, ClientHandler.toMatchingEngine_forget] using ha.rests

/-- A turn of the handler's loop keeps the agreement. -/
theorem handle (ha : Agreed h B books) (hp : B.toClient.front? = some p) (w : Circumstances) :
    Agreed (h.handle p w) { B with toClient := B.toClient.pop } books := by
  rcases h.handle_cases p w with ⟨hterm, order, h', horder, hk, hhandle⟩ | ⟨hno, hk⟩
  · rw [hhandle]
    exact (ha.kept hk).forget hp hterm (hk.exch ▸ horder)
  · exact (ha.kept hk).pop hp fun hterm => hk.exch ▸ hno hterm

/-- The terminal responses to a request are for the orders that its call ends. -/
theorem terminated_handle {requests : List OePayload} (hs : B.Sound requests books)
    (hfresh : (newIds (requests ++ [p])).Nodup) (e : UInt64) :
    Terminated e (B.handle p).broker.toClient.items ↔
      Terminated e B.toClient.items ∨ Closed e (B.callsOf books p) := by
  have hreturned : ¬ Terminated e (MatchingEngineBroker.returned p) := by
    unfold MatchingEngineBroker.returned
    split_ifs with hreject <;> simp [OePayload.Terminal, *]
  rw [(hs.handle hfresh).1.items, terminated_append, terminated_append,
    MatchingEngineBroker.terminated_answers]
  simp [hreturned]

/-- The engine calls a ladder for every request but a reject. -/
theorem op_of_admitted (ha : Agreed h B books) (hadm : p.Admitted h.validator) :
    p.msgType = .reject ∧ B.opOf p = none ∨ ∃ op, B.opOf p = some op ∧ op.Positive := by
  rcases hadm with hreject | ⟨hknows, htype⟩
  · left
    simp [MatchingEngineBroker.opOf, OePayload.op, hreject]
  · right
    have hladder := ha.symbols p.symbol hknows
    unfold MatchingEngineBroker.opOf OePayload.op
    rw [if_pos hladder]
    rcases htype with ⟨hnew, hpos⟩ | hdelete | hmodify
    · rw [hnew]
      exact ⟨_, rfl, hpos⟩
    · rw [hdelete]
      exact ⟨_, rfl, trivial⟩
    · rw [hmodify]
      exact ⟨_, rfl, trivial⟩

/-- The front request has a fresh id, if it enters an order. -/
theorem fresh (ha : Agreed h B books) (hp : h.toMatchingEngine.front? = some p) :
    (newIds (h.toMatchingEngine.taken ++ [p])).Nodup := by
  have hnd := ha.assigned
  rw [← Fifo.items_pop, ← Fifo.taken_append_pending, newIds_append, Fifo.taken_pop hp] at hnd
  exact hnd.of_append_left

/-- **No request that the handler forwards makes the engine throw.** -/
theorem thrown (ha : Agreed h B books) (hp : h.toMatchingEngine.front? = some p) :
    (B.handle p).thrown = none := by
  obtain ⟨hhandled, -⟩ := ha.sound.handle (ha.fresh hp)
  rcases ha.op_of_admitted (ha.admitted p (Fifo.mem_items_of_front? hp)) with
    ⟨hreject, -⟩ | ⟨op, hop, hpos⟩
  · exact hhandled.passed hreject
  · obtain ⟨hpop, -⟩ := MatchingEngineBroker.op_of_opOf hop
    rw [hhandled.thrown op hop]
    rcases PriorityBook.thrown_step (ha.sound.find?_fresh (ha.fresh hp) hpop p.symbol) with
      hnone | ⟨hzero, -⟩
    · rw [hnone]
      rfl
    · exact absurd hpos hzero

/-- An order that the call of a request ends was entered by it or earlier. -/
theorem mem_newIds_of_closed (ha : Agreed h B books) {e : UInt64}
    (hclosed : Closed e (B.callsOf books p)) :
    e ∈ newIds (h.toMatchingEngine.taken ++ [p]) := by
  unfold MatchingEngineBroker.callsOf at hclosed
  cases hop : B.opOf p with
  | none => simp [hop] at hclosed
  | some op =>
    rw [hop] at hclosed
    rw [newIds_append, List.mem_append]
    rcases PriorityBook.rests_of_closed hclosed with hrests | henters
    · exact Or.inl ((ha.rests e).mp ⟨p.symbol, hrests⟩).1
    · obtain ⟨hpop, -⟩ := MatchingEngineBroker.op_of_opOf hop
      obtain ⟨hnew, hid⟩ := OePayload.enters_of_op hpop henters
      exact Or.inr (mem_newIds.mpr ⟨p, List.mem_singleton_self p, hnew, hid⟩)

/-- The orders at rest after a request: those that rested or that it entered, and that its call did
not end. -/
theorem rests_booksOf (ha : Agreed h B books) (hp : h.toMatchingEngine.front? = some p)
    (e : UInt64) :
    (∃ symbol, (B.booksOf books p symbol).Rests e) ↔
      ((∃ symbol, (books symbol).Rests e) ∨ p.newId = some e) ∧
        ¬ Closed e (B.callsOf books p) := by
  have hfresh := ha.fresh hp
  unfold MatchingEngineBroker.callsOf MatchingEngineBroker.booksOf
  rcases ha.op_of_admitted (ha.admitted p (Fifo.mem_items_of_front? hp)) with
    ⟨hreject, hop⟩ | ⟨op, hop, hpos⟩
  · simp [hop, OePayload.newId, hreject]
  obtain ⟨hpop, -⟩ := MatchingEngineBroker.op_of_opOf hop
  have hnew := ha.sound.find?_fresh hfresh hpop
  have hstep := @PriorityBook.rests_step _ p.symbol (ha.sound.ordered p.symbol)
    (ha.sound.live p.symbol) op hpos (hnew p.symbol) e
  have henters : op.Enters e ↔ p.newId = some e := by
    constructor
    · intro henters
      obtain ⟨htype, hid⟩ := OePayload.enters_of_op hpop henters
      rw [OePayload.newId, if_pos htype, hid]
    · intro hid
      unfold OePayload.newId at hid
      split_ifs at hid with htype
      obtain rfl := Option.some.inj hid
      rcases OePayload.cases_of_op hpop with ⟨-, rfl⟩ | ⟨hdelete, -⟩ | ⟨hmodify, -⟩
      · exact ⟨_, _, _, _, rfl⟩
      · cases hdelete.symm.trans htype
      · cases hmodify.symm.trans htype
  rw [hop, ← henters]
  dsimp only
  constructor
  · rintro ⟨symbol, hrests⟩
    by_cases hsymbol : symbol = p.symbol
    · subst hsymbol
      rw [Function.update_self, hstep] at hrests
      exact ⟨hrests.1.imp_left fun h => ⟨_, h⟩, hrests.2⟩
    · rw [Function.update_of_ne hsymbol] at hrests
      refine ⟨Or.inl ⟨symbol, hrests⟩, fun hclosed => ?_⟩
      -- the call ends no order of another symbol
      rcases PriorityBook.rests_of_closed hclosed with hrests' | henters
      · exact hsymbol (ha.sound.symbol_unique hrests hrests')
      · obtain ⟨-, hid⟩ := OePayload.enters_of_op hpop henters
        have heq : op.orderId = e := (OePayload.orderId_of_op hpop).trans hid
        exact PriorityBook.rests_iff.mp hrests (heq ▸ hnew symbol (heq.symm ▸ henters))
  · rintro ⟨hold, hopen⟩
    rcases hold with ⟨symbol, hrests⟩ | henters
    · by_cases hsymbol : symbol = p.symbol
      · subst hsymbol
        refine ⟨p.symbol, ?_⟩
        rw [Function.update_self, hstep]
        exact ⟨Or.inl hrests, hopen⟩
      · refine ⟨symbol, ?_⟩
        rw [Function.update_of_ne hsymbol]
        exact hrests
    · refine ⟨p.symbol, ?_⟩
      rw [Function.update_self, hstep]
      exact ⟨Or.inr henters, hopen⟩

/-- A turn of the engine's loop keeps the agreement. -/
theorem engine (ha : Agreed h B books) (hp : h.toMatchingEngine.front? = some p) :
    Agreed { h with toMatchingEngine := h.toMatchingEngine.pop } (B.handle p).broker
      (B.booksOf books p) := by
  have hfresh := ha.fresh hp
  obtain ⟨hhandled, hs⟩ := ha.sound.handle hfresh
  have hterm := terminated_handle ha.sound hfresh
  have htaken : h.toMatchingEngine.pop.taken = h.toMatchingEngine.taken ++ [p] := Fifo.taken_pop hp
  have hitems : h.toMatchingEngine.pop.items = h.toMatchingEngine.items := Fifo.items_pop _
  constructor
  · exact htaken ▸ hs
  · intro symbol hsymbol
    rw [hhandled.symbols]
    exact ha.symbols symbol hsymbol
  · exact hitems ▸ ha.assigned
  · exact hitems ▸ ha.admitted
  · exact ha.opened
  · rw [hhandled.taken]
    exact hitems ▸ ha.exch
  · intro e he
    rw [htaken]
    rcases (hterm e).mp he with hold | hclosed
    · rw [newIds_append]
      exact List.mem_append_left _ (ha.answered e hold)
    · exact ha.mem_newIds_of_closed hclosed
  · intro e
    rw [ha.rests_booksOf hp, ha.rests, hterm, htaken, newIds_append, List.mem_append, not_or]
    have hself : e ∈ newIds [p] ↔ p.newId = some e := by
      simp [newIds, eq_comm]
    rw [hself]
    constructor
    · rintro ⟨⟨hmem, hopen⟩ | hid, hclosed⟩
      · exact ⟨Or.inl hmem, hopen, hclosed⟩
      · refine ⟨Or.inr hid, fun hold => ?_, hclosed⟩
        -- the id of a new order is fresh
        rw [newIds_append] at hfresh
        exact List.disjoint_of_nodup_append hfresh (ha.answered e hold) (hself.mpr hid)
    · rintro ⟨hmem, hopen, hclosed⟩
      exact ⟨hmem.imp_left fun h => ⟨h, hopen⟩, hclosed⟩

/-- At the start nothing is open, at rest or on a queue. -/
theorem start (symbols : List SymbolDefinition) (users : AList fun _ : List UInt8 => UserInfo) :
    Agreed (Exchange.start symbols users).handler (Exchange.start symbols users).broker
      fun _ => PriorityBook.empty := by
  have hs := MatchingEngineBroker.sound_start (symbols.map SymbolDefinition.symbol)
  have htoClient : (Exchange.start symbols users).broker.toClient = Fifo.empty := by
    rw [Exchange.start, MatchingEngineBroker.start_eq]
    rfl
  refine ⟨hs, fun symbol hsymbol => ?_, List.nodup_nil, ?_, ?_, ?_, ?_, fun e => ?_⟩
  · apply MatchingEngineBroker.isSome_lookup_start
    exact OrderEntryValidator.knows_ofSymbols.mp hsymbol
  · intro p hp
    cases hp
  · intro c o x hx
    cases hx
  · intro e
    exact iff_of_false Bool.false_ne_true fun h => by cases h.1
  · intro e he
    rw [htoClient] at he
    exact absurd he (terminated_nil e)
  · refine iff_of_false ?_ fun h => by cases h.1
    rintro ⟨symbol, o, ho, -⟩
    cases ho

end Agreed

namespace Silent

variable {h h' : ClientHandler} {B : MatchingEngineBroker} {books : UInt32 → PriorityBook}
  {p : OePayload} {w : Circumstances}

/-- Messages that answer no payload keep the silence. -/
theorem append (hs : Silent h B) {xs : List Written} (hxs : ∀ x ∈ xs, x.payload = none)
    (hwritten : h'.written = h.written ++ xs) : Silent h' B := by
  constructor
  · intro x hx p hp
    rw [hwritten] at hx
    rcases List.mem_append.mp hx with hx | hx
    · exact hs.taken x hx p hp
    · simp [hxs x hx] at hp
  · rw [hwritten, List.pairwise_append]
    have hnone : ∀ x ∈ xs, ∀ e, ¬ x.About e := by
      rintro x hx e ⟨p, hp, -⟩
      simp [hxs x hx] at hp
    refine ⟨hs.later, List.pairwise_iff_forall_sublist.mpr ?_, ?_⟩
    · intro x x' hsub e _ _
      exact hnone x' (hsub.subset (by simp)) e
    · intro x _ x' hx' e _ _
      exact hnone x' hx' e

theorem kept (hs : Silent h B) (hk : h.Kept none h') : Silent h' B := by
  obtain ⟨xs, hwritten, hxs⟩ := hk.written
  exact hs.append hxs hwritten

/-- A turn of the handler's loop keeps the silence: the handler does not know an order whose terminal
response it took. -/
theorem handle (hs : Silent h B) (ha : Agreed h B books) (hp : B.toClient.front? = some p)
    (w : Circumstances) : Silent (h.handle p w) { B with toClient := B.toClient.pop } := by
  have htaken : B.toClient.pop.taken = B.toClient.taken ++ [p] := Fifo.taken_pop hp
  have hold : ∀ x ∈ h.written, ∀ q ∈ x.payload, q.Terminal → q ∈ B.toClient.pop.taken := by
    intro x hx q hq hterm
    rw [htaken]
    exact List.mem_append_left _ (hs.taken x hx q hq hterm)
  rcases ClientHandler.wroteOne_handle (w := w) h p with hsame | ⟨y, hy, hwrote⟩
  · exact ⟨by rwa [hsame], by rw [hsame]; exact hs.later⟩
  constructor
  · intro x hx q hq hterm
    rw [hwrote] at hx
    rcases List.mem_append.mp hx with hx | hx
    · exact hold x hx q hq hterm
    · obtain rfl := List.mem_singleton.mp hx
      rw [hy] at hq
      obtain rfl := Option.some.inj hq
      simp [htaken]
  · rw [hwrote, List.pairwise_append]
    refine ⟨hs.later, List.pairwise_singleton .., ?_⟩
    rintro x hx x' hx' e ⟨q, hq, hterm⟩ ⟨q', hq', -, hid⟩ ⟨r, hr, hreject, hrid⟩
    obtain rfl := List.mem_singleton.mp hx'
    obtain rfl := Option.some.inj (Option.mem_def.mp hq ▸ Option.mem_def.mp hq')
    rw [hy] at hr
    obtain rfl := Option.some.inj hr
    -- a terminal response of the order was taken, so that the handler does not know it
    have hnone : h.exchToClientOrders.lookup p.exchOrderId = none := by
      rw [← Option.not_isSome_iff_eq_none, ha.exch, hrid]
      exact fun hknown => hknown.2 ⟨q, hs.taken x hx q hq hterm, hterm, hid⟩
    rw [ClientHandler.handle_unknown hreject hnone] at hwrote
    simp at hwrote

end Silent

namespace Exchange

/-- The invariant of the exchange. -/
def Sound (s : Exchange) : Prop :=
  s.fault = none ∧ Silent s.handler s.broker ∧ ∃ books, Agreed s.handler s.broker books

theorem sound_start (symbols : List SymbolDefinition)
    (users : AList fun _ : List UInt8 => UserInfo) : (start symbols users).Sound :=
  ⟨rfl, ⟨by rintro x ⟨⟩, List.Pairwise.nil⟩, _, Agreed.start symbols users⟩

variable {s t : Exchange}

/-- An event of a socket that enters no order keeps the invariant. -/
theorem Sound.kept (hs : s.Sound) {h' : ClientHandler} (hk : s.handler.Kept none h') :
    (s.withHandler h').Sound := by
  obtain ⟨hfault, hsilent, books, hagreed⟩ := hs
  exact ⟨hfault, hsilent.kept hk, books, hagreed.kept hk⟩

/-- **Every step** of the exchange keeps the invariant. -/
theorem Sound.step {l : ExchangeEvent} (hs : s.Sound) (h : ExchangeStep s l t) : t.Sound := by
  obtain ⟨hen, rfl⟩ := h
  obtain ⟨hfault, hsilent, books, hagreed⟩ := id hs
  cases l with
  | login sockFd msg sessionId w =>
    rcases @ClientHandler.kept_onLogin w s.handler sockFd msg sessionId with hk | ⟨-, hk⟩
    · exact hs.kept hk
    · have hlogin : Silent (s.handler.logIn sockFd msg sessionId) s.broker :=
        ⟨hsilent.taken, hsilent.later⟩
      exact ⟨hfault, hlogin.kept hk, books, (hagreed.logIn sockFd msg sessionId).kept hk⟩
  | newOrder sockFd msg now =>
    by_cases hadm : s.handler.Admits sockFd msg
    · have hwritten : (s.handler.onNewOrder sockFd msg now).written = s.handler.written ++ [] := by
        rw [ClientHandler.onNewOrder_of_admits hadm, List.append_nil]
        rfl
      simp only [after, noteEntry, if_pos hadm]
      exact ⟨hfault, hsilent.append (by simp) hwritten, books, hagreed.enter hadm hen⟩
    · simp only [after, noteEntry, if_neg hadm]
      exact hs.kept (ClientHandler.kept_onNewOrder hadm now)
  | deleteOrder sockFd msg => exact hs.kept (ClientHandler.kept_onDeleteOrder ..)
  | modifyOrder sockFd msg => exact hs.kept (ClientHandler.kept_onModifyOrder ..)
  | socketClosed sockFd w => exact hs.kept (ClientHandler.kept_onSocketClosed ..)
  | handlerTurn w =>
    simp only [after, handlerTurn]
    cases hp : s.broker.toClient.front? with
    | none => exact hs
    | some p =>
      exact ⟨hfault, hsilent.handle hagreed hp w, books, hagreed.handle hp w⟩
  | engineTurn =>
    simp only [after, engineTurn]
    cases hp : s.handler.toMatchingEngine.front? with
    | none => exact hs
    | some p =>
      -- the broker does not throw, since the agreement gives it a fresh id and a known symbol
      have htaken := (hagreed.sound.handle (hagreed.fresh hp)).1.taken
      dsimp only
      rw [hagreed.thrown hp]
      exact ⟨hfault, ⟨htaken ▸ hsilent.taken, hsilent.later⟩, _, hagreed.engine hp⟩
  | heartbeat =>
    refine ⟨hfault, ⟨hsilent.taken, hsilent.later⟩, books, ?_⟩
    exact { hagreed with sound := hagreed.sound.heartbeat }

/-- **Every run** of the exchange keeps the invariant. -/
theorem sound_run {symbols : List SymbolDefinition} {users : AList fun _ : List UInt8 => UserInfo}
    {ls : List ExchangeEvent} (h : Run ExchangeStep (start symbols users) ls s) : s.Sound :=
  h.invariant (fun _ _ _ hs hstep => hs.step hstep) (sound_start symbols users)

end Exchange

variable {symbols : List SymbolDefinition} {users : AList fun _ : List UInt8 => UserInfo}
  {ls : List ExchangeEvent} {s : Exchange}

/-- **The engine never throws** on a request that the handler forwarded. -/
theorem engine_never_throws (h : Run ExchangeStep (Exchange.start symbols users) ls s) :
    s.fault = none ∧
      ∀ p, s.handler.toMatchingEngine.front? = some p → (s.broker.handle p).thrown = none := by
  obtain ⟨hfault, -, books, hagreed⟩ := Exchange.sound_run h
  exact ⟨hfault, fun p hp => hagreed.thrown hp⟩

/-- An order is deleted twice: the second deletion reaches the engine when the order is gone. -/
theorem engine_never_throws_stale :
    ([.login 5 ⟨⟨1, 100, 0⟩, [97], [97]⟩ 7 .fine,
      .newOrder 5 ⟨⟨2, 100, 7⟩, 1, 1, Side.buy, 10, 50, 0⟩ 1000,
      .deleteOrder 5 ⟨⟨3, 100, 7⟩, 1⟩, .deleteOrder 5 ⟨⟨4, 100, 7⟩, 1⟩,
      .engineTurn, .engineTurn].foldl Exchange.after Exchange.startGold).fault = none :=
  (engine_never_throws (Exchange.run_of_enabled (by decide +kernel))).1

/-- **The handler and the engine agree**: with both queues empty the handler knows the orders that
rest; after a terminal response it wrote nothing more for its order; and the engine gave one for
every order that it took and that rests no more. -/
theorem open_orders_agree (h : Run ExchangeStep (Exchange.start symbols users) ls s) :
    (s.handler.toMatchingEngine.pending = [] → s.broker.toClient.pending = [] → ∀ e,
        ((s.handler.exchToClientOrders.lookup e).isSome ↔
          ∃ symbol, (s.broker.resting symbol e).isSome)) ∧
      (s.handler.written.Pairwise fun x x' => ∀ e, x.Terminal → x.About e → ¬ x'.About e) ∧
      ∀ r ∈ s.handler.toMatchingEngine.taken, r.msgType = .newOrder →
        (∀ symbol, s.broker.resting symbol r.exchOrderId = none) →
          Terminated r.exchOrderId s.broker.toClient.items := by
  obtain ⟨-, hsilent, books, hagreed⟩ := Exchange.sound_run h
  have hrests : ∀ e, (∃ symbol, (s.broker.resting symbol e).isSome) ↔
      e ∈ newIds s.handler.toMatchingEngine.taken ∧ ¬ Terminated e s.broker.toClient.items := by
    intro e
    rw [← hagreed.rests]
    exact exists_congr fun symbol => (hagreed.sound.rests_iff symbol e).symm
  refine ⟨fun hrequests hresponses e => ?_, hsilent.later, fun r hr hnew hnone => ?_⟩
  · rw [hagreed.exch, hrests, Fifo.taken_eq_items hrequests, Fifo.taken_eq_items hresponses]
  · by_contra hopen
    obtain ⟨symbol, hsome⟩ := (hrests r.exchOrderId).mpr
      ⟨mem_newIds.mpr ⟨r, hr, hnew, rfl⟩, hopen⟩
    rw [hnone symbol] at hsome
    cases hsome

/-- Two orders of two clients trade, and one of them is used up. -/
theorem open_orders_agree_traded :
    ∃ s : Exchange, s.handler.exchToClientOrders.keys = [1000] ∧
      ∀ e, (s.handler.exchToClientOrders.lookup e).isSome ↔
        ∃ symbol, (s.broker.resting symbol e).isSome := by
  have hrun : Run ExchangeStep Exchange.startGold
      [.login 5 ⟨⟨1, 100, 0⟩, [97], [97]⟩ 7 .fine,
        .login 6 ⟨⟨1, 200, 0⟩, [98], [98]⟩ 8 .fine,
        .newOrder 5 ⟨⟨2, 100, 7⟩, 1, 1, Side.buy, 10, 50, 0⟩ 1000,
        .newOrder 6 ⟨⟨2, 200, 8⟩, 1, 1, Side.sell, 4, 50, 0⟩ 1001, .engineTurn, .engineTurn,
        .handlerTurn .fine, .handlerTurn .fine, .handlerTurn .fine, .handlerTurn .fine] _ :=
    Exchange.run_of_enabled (by decide +kernel)
  exact ⟨_, by decide +kernel, (open_orders_agree hrun).1 (by decide +kernel) (by decide +kernel)⟩

end Ndfex
