import Ndfex.Exchange.Agreement

/-!
# Owners reach their orders

A client reaches an order through its own order id: deletions, modifications and the cancellation at
the end of its session look the order up there. After a disconnect the client may use an id again
while the handler still waits for the last response to the order that had it before. That response
then takes the new order out of the client's map.

## Main definitions

* `Exchange.OwnersReach`: every order of a current session is open under its client's id until its
  terminal response
* `Exchange.KeepsNewer`: a terminal response does not meet a newer order under the client's id
* `Noted`: the sessions and the history of session orders fit the handler's maps

## Main results

* `owners_reach`: owners reach their orders exactly as long as `KeepsNewer` holds
* `reused_id_lost`: a late response takes a new order out of its owner's map
-/

namespace Ndfex

open Containers Transition

/-- The orders are open under their clients' ids, but for those whose terminal response was taken. -/
def Reached (h : ClientHandler) (taken : List OePayload) (xs : List SessionOrder) : Prop :=
  ∀ x ∈ xs, ¬ Terminated x.exchOrderId taken →
    (h.openOrder x.clientId x.orderId).map OpenOrder.exchOrderId = some x.exchOrderId

/-- The sessions and the history fit the maps: every session order is of a current session, and every
open order is a session order. -/
structure Noted (h : ClientHandler) (xs : List SessionOrder) : Prop where
  agree : h.SessionsAgree
  current : ∀ x ∈ xs, Exchange.InSession h x
  noted : ∀ c o y, h.openOrder c o = some y →
    ∃ x ∈ xs, x.clientId = c ∧ x.orderId = o ∧ x.exchOrderId = y.exchOrderId

namespace Noted

variable {h h' : ClientHandler} {xs : List SessionOrder} {payload : Option OePayload}

theorem kept (hn : Noted h xs) (hk : h.Kept payload h') :
    Noted h' (xs.filter (Exchange.InSession h')) := by
  refine ⟨hk.agree hn.agree, fun x hx => of_decide_eq_true (List.mem_filter.mp hx).2, ?_⟩
  intro c o y hy
  obtain ⟨hold, hsession⟩ := hk.opened c o y hy
  obtain ⟨x, hx, rfl, rfl, hid⟩ := hn.noted c o y hold
  refine ⟨x, List.mem_filter.mpr ⟨hx, decide_eq_true ?_⟩, rfl, rfl, hid⟩
  exact hsession.trans (hn.current x hx)

theorem logIn (hn : Noted h xs) {sockFd : Int32} {msg : Login} {sessionId : UInt64}
    (hnone : h.clientToSockFd.lookup msg.header.clientId = none) :
    Noted (h.logIn sockFd msg sessionId) xs := by
  refine ⟨hn.agree.logIn sessionId hnone, fun x hx => ?_, hn.noted⟩
  have hroute : h.clientToSockFd.lookup x.clientId = some x.sockFd := hn.current x hx
  have hne : x.clientId ≠ msg.header.clientId := by
    intro heq
    rw [heq, hnone] at hroute
    cases hroute
  exact (AList.lookup_insert_ne hne).trans hroute

theorem enter (hn : Noted h xs) {sockFd : Int32} {msg : NewOrder} {now : UInt64}
    (hadm : h.Admits sockFd msg) :
    Noted (h.onNewOrder sockFd msg now)
      ((xs ++ [(⟨sockFd, msg.header.clientId, msg.orderId, now⟩ : SessionOrder)]).filter
        (Exchange.InSession (h.onNewOrder sockFd msg now))) := by
  rw [ClientHandler.onNewOrder_of_admits hadm]
  refine ⟨hn.agree, fun x hx => of_decide_eq_true (List.mem_filter.mp hx).2, ?_⟩
  intro c o y hy
  replace hy : (h.enter msg now).openOrder c o = some y := hy
  rw [ClientHandler.openOrder_enter] at hy
  split_ifs at hy with hco
  · obtain rfl := Option.some.inj hy
    obtain ⟨rfl, rfl⟩ := hco
    refine ⟨⟨sockFd, msg.header.clientId, msg.orderId, now⟩,
      List.mem_filter.mpr ⟨by simp, decide_eq_true ?_⟩, rfl, rfl, rfl⟩
    -- the session that the order came in on is its client's
    obtain ⟨hsession, -, -⟩ := hadm
    unfold ClientHandler.validateSession at hsession
    split at hsession
    · cases hsession
    case h_2 info hinfo =>
      have hfd := hn.agree sockFd info hinfo
      simp only [Bool.and_eq_true, decide_eq_true_eq] at hsession
      rw [hsession.2] at hfd
      exact hfd
  · obtain ⟨x, hx, rfl, rfl, hid⟩ := hn.noted c o y hy
    exact ⟨x, List.mem_filter.mpr ⟨by simp [hx], decide_eq_true (hn.current x hx)⟩, rfl, rfl, hid⟩

theorem forget (hn : Noted h xs) (e : UInt64) (order : ExchOrder) : Noted (h.forget e order) xs := by
  refine ⟨hn.agree, hn.current, fun c o y hy => ?_⟩
  rw [ClientHandler.openOrder_forget] at hy
  split_ifs at hy
  exact hn.noted c o y hy

theorem handle (hn : Noted h xs) (p : OePayload) (w : Circumstances) :
    Noted (h.handle p w) (xs.filter (Exchange.InSession (h.handle p w))) := by
  rcases h.handle_cases p w with ⟨-, order, h', -, hk, hhandle⟩ | ⟨-, hk⟩
  · rw [hhandle]
    exact (hn.kept hk).forget p.exchOrderId order
  · exact hn.kept hk

end Noted

namespace Reached

variable {h h' : ClientHandler} {taken : List OePayload} {xs : List SessionOrder}
  {payload : Option OePayload} {p : OePayload}

theorem kept (hr : Reached h taken xs) (hk : h.Kept payload h') :
    Reached h' taken (xs.filter (Exchange.InSession h')) := by
  intro x hx hopen
  obtain ⟨hx, hsession⟩ := List.mem_filter.mp hx
  rw [(hk.session _ _ (of_decide_eq_true hsession)).2]
  exact hr x hx hopen

theorem enter (hr : Reached h taken xs) {sockFd : Int32} {msg : NewOrder} {now : UInt64}
    (hadm : h.Admits sockFd msg) :
    Reached (h.onNewOrder sockFd msg now) taken
      ((xs ++ [(⟨sockFd, msg.header.clientId, msg.orderId, now⟩ : SessionOrder)]).filter
        (Exchange.InSession (h.onNewOrder sockFd msg now))) := by
  intro x hx hopen
  rw [ClientHandler.onNewOrder_of_admits hadm]
  show ((h.enter msg now).openOrder _ _).map _ = _
  rw [ClientHandler.openOrder_enter]
  rcases List.mem_append.mp (List.mem_filter.mp hx).1 with hx | hx
  · have hold := hr x hx hopen
    rw [if_neg]
    · exact hold
    · -- no order was open under the new order's id
      rintro ⟨hc, ho⟩
      rw [hc, ho, hadm.2.2] at hold
      cases hold
  · obtain rfl := List.mem_singleton.mp hx
    rw [if_pos ⟨rfl, rfl⟩]
    rfl

theorem taken_append (hr : Reached h taken xs) (p : OePayload) : Reached h (taken ++ [p]) xs := by
  intro x hx hopen
  exact hr x hx fun hold => hopen ((terminated_append ..).mpr (Or.inl hold))

/-- A terminal response keeps the other orders in their maps, if the order under its client's id is
its own. -/
theorem forget (hr : Reached h taken xs) (hp : p.Terminal) {order : ExchOrder}
    (hown : ∀ y ∈ h.openOrder order.clientId order.orderId, y.exchOrderId = p.exchOrderId) :
    Reached (h.forget p.exchOrderId order) (taken ++ [p]) xs := by
  intro x hx hopen
  rw [terminated_append, terminated_cons, not_or, not_or] at hopen
  obtain ⟨hold, hne, -⟩ := hopen
  have hreach := hr x hx hold
  rw [ClientHandler.openOrder_forget, if_neg]
  · exact hreach
  · rintro ⟨hc, ho⟩
    rw [hc, ho] at hreach
    obtain ⟨y, hy, hid⟩ := Option.map_eq_some_iff.mp hreach
    exact hne ⟨hp, (hown y hy).symm.trans hid⟩

end Reached

namespace Exchange

/-- Every order that a client entered in its current session is open under the client's own order
id, until the handler takes its terminal response. -/
def OwnersReach (s : Exchange) : Prop := Reached s.handler s.broker.toClient.taken s.sessionOrders

instance (s : Exchange) : Decidable s.OwnersReach :=
  inferInstanceAs (Decidable (∀ x ∈ s.sessionOrders,
    ¬ (∃ p ∈ s.broker.toClient.taken, p.Terminal ∧ p.exchOrderId = x.exchOrderId) → _))

/-- A terminal response that the handler takes does not meet a newer order under the client's id of
its order. -/
def KeepsNewer (s : Exchange) : ExchangeEvent → Prop
  | .handlerTurn _ => ∀ p ∈ s.broker.toClient.front?, p.Terminal →
    ∀ order ∈ s.handler.exchToClientOrders.lookup p.exchOrderId,
      ∀ y ∈ s.handler.openOrder order.clientId order.orderId, y.exchOrderId = p.exchOrderId
  | _ => True

instance (s : Exchange) : DecidablePred s.KeepsNewer
  | .handlerTurn _ => inferInstanceAs (Decidable (∀ p ∈ s.broker.toClient.front?, p.Terminal →
      ∀ order ∈ s.handler.exchToClientOrders.lookup p.exchOrderId,
        ∀ y ∈ s.handler.openOrder order.clientId order.orderId, _))
  | .login .. => instDecidableTrue
  | .newOrder .. => instDecidableTrue
  | .deleteOrder .. => instDecidableTrue
  | .modifyOrder .. => instDecidableTrue
  | .socketClosed .. => instDecidableTrue
  | .engineTurn => instDecidableTrue
  | .heartbeat => instDecidableTrue

variable {s t : Exchange}

/-- The history fits the handler's maps. -/
def HistoryFits (s : Exchange) : Prop := Noted s.handler s.sessionOrders

/-- **Every step** keeps the history. -/
theorem HistoryFits.step {l : ExchangeEvent} (hn : s.HistoryFits) (h : ExchangeStep s l t) :
    t.HistoryFits := by
  obtain ⟨-, rfl⟩ := h
  cases l with
  | login sockFd msg sessionId w =>
    rcases @ClientHandler.kept_onLogin w s.handler sockFd msg sessionId with hk | ⟨hnone, hk⟩
    · exact hn.kept hk
    · exact (hn.logIn hnone).kept hk
  | newOrder sockFd msg now =>
    by_cases hadm : s.handler.Admits sockFd msg
    · simp only [after, noteEntry, if_pos hadm]
      exact hn.enter hadm
    · simp only [after, noteEntry, if_neg hadm]
      exact hn.kept (ClientHandler.kept_onNewOrder hadm now)
  | deleteOrder sockFd msg => exact hn.kept (ClientHandler.kept_onDeleteOrder ..)
  | modifyOrder sockFd msg => exact hn.kept (ClientHandler.kept_onModifyOrder ..)
  | socketClosed sockFd w => exact hn.kept (@ClientHandler.kept_onSocketClosed none w _ sockFd)
  | handlerTurn w =>
    simp only [after, handlerTurn]
    cases hp : s.broker.toClient.front? with
    | none => exact hn
    | some p => exact hn.handle p w
  | engineTurn =>
    simp only [after, engineTurn]
    split
    · exact hn
    · split
      · exact hn
      · exact ⟨hn.agree, hn.current, hn.noted⟩
  | heartbeat => exact hn

/-- **Every step** that satisfies `KeepsNewer` leaves the orders within their owners' reach. -/
theorem OwnersReach.step {l : ExchangeEvent} (hr : s.OwnersReach) (hs : s.Sound)
    (hnewer : s.KeepsNewer l) (h : ExchangeStep s l t) : t.OwnersReach := by
  obtain ⟨-, rfl⟩ := h
  cases l with
  | login sockFd msg sessionId w =>
    rcases @ClientHandler.kept_onLogin w s.handler sockFd msg sessionId with hk | ⟨hnone, hk⟩
    · exact hr.kept hk
    · have hlogin : Reached (s.handler.logIn sockFd msg sessionId) s.broker.toClient.taken
          s.sessionOrders := hr
      exact hlogin.kept hk
  | newOrder sockFd msg now =>
    by_cases hadm : s.handler.Admits sockFd msg
    · simp only [after, noteEntry, if_pos hadm]
      exact hr.enter hadm
    · simp only [after, noteEntry, if_neg hadm]
      exact hr.kept (ClientHandler.kept_onNewOrder hadm now)
  | deleteOrder sockFd msg => exact hr.kept (ClientHandler.kept_onDeleteOrder ..)
  | modifyOrder sockFd msg => exact hr.kept (ClientHandler.kept_onModifyOrder ..)
  | socketClosed sockFd w => exact hr.kept (@ClientHandler.kept_onSocketClosed none w _ sockFd)
  | handlerTurn w =>
    simp only [after, handlerTurn]
    cases hp : s.broker.toClient.front? with
    | none => exact hr
    | some p =>
      have htaken : s.broker.toClient.pop.taken = s.broker.toClient.taken ++ [p] :=
        Fifo.taken_pop hp
      unfold OwnersReach
      simp only [withHandler, htaken]
      -- a terminal response takes the order under the client's id out of reach, a newer one as well
      rcases s.handler.handle_cases p w with ⟨hterm, order, h', horder, hk, hhandle⟩ | ⟨-, hk⟩
      · rw [hhandle]
        refine (hr.kept hk).forget hterm fun y hy => ?_
        exact hnewer p hp hterm order horder y (hk.opened _ _ y hy).1
      · exact (hr.kept hk).taken_append p
  | engineTurn =>
    obtain ⟨hfault, -, books, hagreed⟩ := hs
    simp only [after, engineTurn]
    cases hp : s.handler.toMatchingEngine.front? with
    | none => exact hr
    | some p =>
      have htaken := (hagreed.sound.handle (hagreed.fresh hp)).1.taken
      dsimp only
      rw [hagreed.thrown hp]
      unfold OwnersReach
      dsimp only
      rw [htaken]
      exact hr
  | heartbeat => exact hr

/-- A terminal response that meets a newer order takes it out of reach, unless the send of the
response fails and ends the session. -/
theorem OwnersReach.lost (hn : s.HistoryFits) (hs : s.Sound) {w : Circumstances}
    (hsent : w.sent = true) (hr : (s.after (.handlerTurn w)).OwnersReach) :
    s.KeepsNewer (.handlerTurn w) := by
  intro p hp hterm order horder y hy
  by_contra hne
  obtain ⟨-, -, books, hagreed⟩ := hs
  obtain ⟨x, hx, hc, ho, hid⟩ := hn.noted _ _ y hy
  have hp' : s.broker.toClient.front? = some p := hp
  simp only [after, handlerTurn, hp'] at hr
  rcases s.handler.handle_cases p w with ⟨-, order', h', horder', -, hhandle⟩ | ⟨hno, -⟩
  · obtain rfl := Option.some.inj (horder'.symm.trans horder)
    have hmem : x ∈ s.sessionOrders.filter (InSession (s.handler.handle p w)) := by
      refine List.mem_filter.mpr ⟨hx, decide_eq_true ?_⟩
      rw [InSession, ClientHandler.clientToSockFd_handle hsent]
      exact hn.current x hx
    -- the newer order is not ended, and yet no order is open under the client's id
    have hopen : ¬ Terminated x.exchOrderId s.broker.toClient.pop.taken := by
      rw [Fifo.taken_pop hp', terminated_append, terminated_cons, hid]
      have hknown := (hagreed.exch y.exchOrderId).mp (by rw [(hagreed.opened _ _ y hy).1]; rfl)
      rintro (hold | ⟨-, heq⟩ | hnil)
      · exact hknown.2 hold
      · exact hne heq.symm
      · exact terminated_nil _ hnil
    have hreach := hr x hmem hopen
    simp only [withHandler] at hreach
    rw [hhandle, ClientHandler.openOrder_forget, if_pos ⟨hc, ho⟩] at hreach
    cases hreach
  · cases (hno hterm).symm.trans horder

end Exchange

/-- **Owners reach their orders** in a run in which no terminal response meets a newer order; and the
handler's next turn leaves them within reach exactly if it keeps to that. -/
theorem owners_reach {symbols : List SymbolDefinition} {users : AList fun _ : List UInt8 => UserInfo}
    {ls : List ExchangeEvent} {s : Exchange}
    (h : Run (Guarded Exchange.KeepsNewer ExchangeStep) (Exchange.start symbols users) ls s) :
    s.OwnersReach ∧ ∀ w : Circumstances, w.sent = true →
      ((s.after (.handlerTurn w)).OwnersReach ↔ s.KeepsNewer (.handlerTurn w)) := by
  obtain ⟨hs, hn, hr⟩ : s.Sound ∧ s.HistoryFits ∧ s.OwnersReach := by
    refine h.invariant (I := fun s => s.Sound ∧ s.HistoryFits ∧ s.OwnersReach) ?_
      ⟨Exchange.sound_start symbols users, ?_, ?_⟩
    · rintro s l t ⟨hs, hn, hr⟩ ⟨hnewer, hstep⟩
      exact ⟨hs.step hstep, hn.step hstep, hr.step hs hnewer hstep⟩
    · constructor
      · intro fd info hinfo
        cases hinfo
      · intro x hx
        cases hx
      · intro c o y hy
        cases hy
    · intro x hx
      cases hx
  refine ⟨hr, fun w hsent => ⟨fun hr' => Exchange.OwnersReach.lost hn hs hsent hr', fun hnewer => ?_⟩⟩
  exact hr.step hs hnewer ⟨trivial, rfl⟩

/-- A client logs in again and uses an order id again, after the old order's last response. -/
theorem owners_reach_relogin :
    ([.login 5 ⟨⟨1, 100, 0⟩, [97], [97]⟩ 7 .fine,
      .newOrder 5 ⟨⟨2, 100, 7⟩, 1, 1, Side.buy, 10, 50, 0⟩ 1000, .socketClosed 5 .fine,
      .engineTurn, .engineTurn, .handlerTurn .fine, .handlerTurn .fine,
      .login 5 ⟨⟨1, 100, 0⟩, [97], [97]⟩ 8 .fine,
      .newOrder 5 ⟨⟨2, 100, 8⟩, 1, 1, Side.buy, 10, 50, 0⟩ 1001].foldl Exchange.after
        Exchange.startGold).OwnersReach :=
  (owners_reach (Exchange.guarded_run_of_enabled (by decide +kernel) (by decide +kernel))).1

/-- A client logs in again and uses an order id again, before the old order's last response: that
takes the new order out of the client's map. -/
theorem reused_id_lost :
    ∃ s, Run ExchangeStep Exchange.startGold
        [.login 5 ⟨⟨1, 100, 0⟩, [97], [97]⟩ 7 .fine,
          .newOrder 5 ⟨⟨2, 100, 7⟩, 1, 1, Side.buy, 10, 50, 0⟩ 1000, .socketClosed 5 .fine,
          .login 5 ⟨⟨1, 100, 0⟩, [97], [97]⟩ 8 .fine,
          .newOrder 5 ⟨⟨2, 100, 8⟩, 1, 1, Side.buy, 10, 50, 0⟩ 1001,
          .engineTurn, .engineTurn, .handlerTurn .fine, .handlerTurn .fine] s ∧
      ¬ s.OwnersReach :=
  ⟨_, Exchange.run_of_enabled (by decide +kernel), by decide +kernel⟩

end Ndfex
