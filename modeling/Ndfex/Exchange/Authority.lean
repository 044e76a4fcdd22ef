import Ndfex.Exchange.Ownership
import Ndfex.OrderEntry.Requests

/-!
# Who may ask for what

A request reaches the engine in the name of a client only over a session that a login with the
client's credentials opened, or as a cancellation when such a session ends. What it deletes or
modifies, that client entered before.

## Main definitions

* `Enters`, `Owned`: deletions and modifications follow the request that entered their order
* `Owners`: the maps of orders go back to the requests that entered them
* `ExchangeEvent.message?`: the request of an event
* `Exchange.LoggedIn`: a session with the login that opened it

## Main results

* `Exchange.owners_run`: in every run deletions and modifications are asked for by the owners
* `orders_authorised`: who asked for what goes to the engine
-/

namespace Ndfex

open Containers Transition

/-- Among the requests is the one that entered the order under the exchange id, in the name of the
client and for the symbol. -/
def Enters (ps : List OePayload) (e : UInt64) (c symbol : UInt32) : Prop :=
  ∃ r ∈ ps, r.msgType = .newOrder ∧ r.exchOrderId = e ∧ r.clientId = c ∧ r.symbol = symbol

/-- Every deletion and every modification follows the request by which its own client entered the
order. -/
def Owned (ps : List OePayload) : Prop :=
  ∀ xs p ys, ps = xs ++ p :: ys → p.msgType = .deleteOrder ∨ p.msgType = .modifyOrder →
    Enters xs p.exchOrderId p.clientId p.symbol

theorem Enters.append {ps : List OePayload} {e : UInt64} {c symbol : UInt32}
    (h : Enters ps e c symbol) (qs : List OePayload) : Enters (ps ++ qs) e c symbol := by
  obtain ⟨r, hr, hentry⟩ := h
  exact ⟨r, List.mem_append_left _ hr, hentry⟩

theorem Enters.mem_newIds {ps : List OePayload} {e : UInt64} {c symbol : UInt32}
    (h : Enters ps e c symbol) : e ∈ newIds ps := by
  obtain ⟨r, hr, hnew, hid, -, -⟩ := h
  exact Ndfex.mem_newIds.mpr ⟨r, hr, hnew, hid⟩

theorem Owned.append {ps qs : List OePayload} (h : Owned ps)
    (hqs : ∀ q ∈ qs, q.msgType = .deleteOrder ∨ q.msgType = .modifyOrder →
      Enters ps q.exchOrderId q.clientId q.symbol) : Owned (ps ++ qs) := by
  intro xs p ys hsplit htype
  rcases List.append_eq_append_iff.mp hsplit with ⟨as, rfl, hqs'⟩ | ⟨bs, hps, hbs⟩
  · exact (hqs p (by simp [hqs']) htype).append as
  · cases bs with
    | nil =>
      obtain rfl : ps = xs := by simpa using hps
      rw [List.nil_append] at hbs
      exact hqs p (hbs ▸ List.mem_cons_self) htype
    | cons b bs =>
      obtain ⟨rfl, -⟩ := List.cons.inj hbs
      exact h xs p bs hps htype

/-- The handler's maps of orders go back to the requests by which their clients entered them. -/
structure Owners (h : ClientHandler) : Prop where
  opened : ∀ c o x, h.openOrder c o = some x →
    Enters h.toMatchingEngine.items x.exchOrderId c x.symbol
  known : ∀ e order, h.exchToClientOrders.lookup e = some order →
    ∃ symbol, Enters h.toMatchingEngine.items e order.clientId symbol
  owned : Owned h.toMatchingEngine.items

namespace Owners

variable {h h' : ClientHandler} {w : Circumstances}

theorem quiet (ho : Owners h) (hq : h.Quiet h') : Owners h' := by
  refine ⟨fun c o x hx => ?_, ?_, ?_⟩
  · rw [hq.openOrder] at hx
    rw [hq.toMatchingEngine]
    exact ho.opened c o x hx
  · rw [hq.exchToClientOrders, hq.toMatchingEngine]
    exact ho.known
  · rw [hq.toMatchingEngine]
    exact ho.owned

/-- More requests keep what goes back to the earlier ones. -/
theorem push (ho : Owners h) {ps : List OePayload}
    (hqueue : h'.toMatchingEngine.items = h.toMatchingEngine.items ++ ps)
    (hopen : ∀ c o x, h'.openOrder c o = some x → h.openOrder c o = some x)
    (hexch : h'.exchToClientOrders = h.exchToClientOrders)
    (hps : ∀ p ∈ ps, p.msgType = .deleteOrder ∨ p.msgType = .modifyOrder →
      Enters h.toMatchingEngine.items p.exchOrderId p.clientId p.symbol) : Owners h' := by
  refine ⟨fun c o x hx => ?_, fun e order horder => ?_, ?_⟩
  · rw [hqueue]
    exact (ho.opened c o x (hopen c o x hx)).append ps
  · rw [hexch] at horder
    obtain ⟨symbol, hentry⟩ := ho.known e order horder
    rw [hqueue]
    exact ⟨symbol, hentry.append ps⟩
  · rw [hqueue]
    exact ho.owned.append hps

theorem onSocketClosed (ho : Owners h) (sockFd : Int32) : Owners (h.onSocketClosed sockFd w) := by
  have hcloses := h.closes_onSocketClosed sockFd w
  have hqueue : (h.onSocketClosed sockFd w).toMatchingEngine.items =
      h.toMatchingEngine.items ++ h.cancels sockFd w := by
    rw [hcloses.toMatchingEngine, Fifo.items_pushAll]
  refine ho.push hqueue (fun c o x hx => ?_) hcloses.exchToClientOrders fun p hp _ => ?_
  · rw [hcloses.openOrder] at hx
    split_ifs at hx
    exact hx
  · obtain ⟨n, o, x, -, hx, rfl⟩ := ClientHandler.mem_cancels.mp hp
    exact ho.opened _ _ _ hx

theorem quietOrCloses (ho : Owners h) {sockFd : Int32} (hq : h.QuietOrCloses sockFd w h') :
    Owners h' := by
  rcases hq with hq | ⟨-, h₁, hq, rfl⟩
  · exact ho.quiet hq
  · exact (ho.quiet hq).onSocketClosed sockFd

theorem logIn (ho : Owners h) (sockFd : Int32) (msg : Login) (sessionId : UInt64) :
    Owners (h.logIn sockFd msg sessionId) := ⟨ho.opened, ho.known, ho.owned⟩

theorem onLogin (ho : Owners h) (sockFd : Int32) (msg : Login) (sessionId : UInt64) :
    Owners (h.onLogin sockFd msg sessionId w) := by
  rcases h.onLogin_cases sockFd msg sessionId w with
    ⟨-, hq⟩ | ⟨-, otherFd, -, h₁, hq, hclosed⟩ | ⟨-, hq⟩
  · exact ho.quiet hq
  · rw [hclosed]
    exact (ho.quiet hq).onSocketClosed otherFd
  · exact (ho.logIn sockFd msg sessionId).quietOrCloses hq

/-- A request that is rejected, forwarded or enters an order. -/
theorem receive (ho : Owners h) (sockFd : Int32) (m : OrderMessage) :
    Owners (h.receive sockFd m) := by
  rcases h.receive_cases sockFd m with ⟨reason, -, hreject⟩ | ⟨-, ⟨p, hp, hforward⟩ | hentry⟩
  · rw [hreject]
    -- a reject is no request about an order
    refine ho.push rfl (fun _ _ _ hx => hx) rfl fun p hp htype => ?_
    obtain rfl := List.mem_singleton.mp hp
    rcases htype with htype | htype <;> cases htype
  · rw [hforward]
    -- what is forwarded is about an open order of the client
    refine ho.push rfl (fun _ _ _ hx => hx) rfl fun q hq _ => ?_
    obtain rfl := List.mem_singleton.mp hq
    obtain ⟨x, hx, hid, hsymbol⟩ := hp.opened
    rw [hid, hsymbol, hp.clientId]
    exact ho.opened _ _ _ hx
  · obtain ⟨msg, now, rfl, hadm, hreceive⟩ := hentry
    rw [hreceive]
    have hnew : Enters (h.toMatchingEngine.items ++ [ClientHandler.newPayload msg now]) now
        msg.header.clientId msg.symbol :=
      ⟨ClientHandler.newPayload msg now, by simp, rfl, rfl, rfl, rfl⟩
    refine ⟨fun c o x hx => ?_, fun e order horder => ?_, ?_⟩
    · replace hx : (h.enter msg now).openOrder c o = some x := hx
      rw [ClientHandler.openOrder_enter] at hx
      split_ifs at hx with hco
      · obtain rfl := Option.some.inj hx
        rw [hco.1]
        exact hnew
      · exact (ho.opened c o x hx).append _
    · by_cases he : e = now
      · subst he
        obtain rfl := Option.some.inj ((AList.lookup_insert _).symm.trans horder)
        exact ⟨msg.symbol, hnew⟩
      · obtain ⟨symbol, hentry⟩ := ho.known e order ((AList.lookup_insert_ne he).symm.trans horder)
        exact ⟨symbol, hentry.append _⟩
    · refine ho.owned.append fun q hq htype => ?_
      obtain rfl := List.mem_singleton.mp hq
      rcases htype with htype | htype <;> cases htype

theorem forget (ho : Owners h) (e : UInt64) (order : ExchOrder) : Owners (h.forget e order) := by
  refine ⟨fun c o x hx => ?_, fun e' order' horder => ?_, ho.owned⟩
  · rw [ClientHandler.openOrder_forget] at hx
    split_ifs at hx
    exact ho.opened c o x hx
  · by_cases he : e' = e
    · subst he
      cases (AList.lookup_erase ..).symm.trans horder
    · exact ho.known e' order' ((AList.lookup_erase_ne he).symm.trans horder)

theorem handle (ho : Owners h) (p : OePayload) (w : Circumstances) : Owners (h.handle p w) := by
  obtain ⟨h₁, hends, hhandle⟩ := h.handle_sessions p w
  have ho₁ : Owners h₁ := by
    rcases hends with hq | ⟨c, fd, -, -, hq⟩
    · exact ho.quiet hq
    · exact ho.quietOrCloses hq
  rcases hhandle with hhandle | ⟨-, order, -, hhandle⟩
  · rwa [hhandle]
  · rw [hhandle]
    exact ho₁.forget p.exchOrderId order

end Owners

/-! ## The requests of a run -/

/-- The request of an event, with its socket. -/
def ExchangeEvent.message? : ExchangeEvent → Option (Int32 × OrderMessage)
  | .newOrder sockFd msg now => some (sockFd, .newOrder msg now)
  | .deleteOrder sockFd msg => some (sockFd, .deleteOrder msg)
  | .modifyOrder sockFd msg => some (sockFd, .modifyOrder msg)
  | _ => none

namespace Exchange

variable {s t : Exchange}

/-- The handler's part of a request. -/
theorem handler_after_message {l : ExchangeEvent} {sockFd : Int32} {m : OrderMessage}
    (hl : l.message? = some (sockFd, m)) :
    (s.after l).handler = s.handler.receive sockFd m := by
  cases l <;> cases hl <;> rfl

/-- **The handler after an event**: a property of handlers holds of it, if it holds before and the
function of the handler that the event calls keeps it. -/
theorem handler_after {I : ClientHandler → Prop} {l : ExchangeEvent} (hI : I s.handler)
    (hlogin : ∀ fd msg sessionId w, l = .login fd msg sessionId w →
      I (s.handler.onLogin fd msg sessionId w))
    (hreceive : ∀ fd m, l.message? = some (fd, m) → I (s.handler.receive fd m))
    (hclosed : ∀ fd w, l = .socketClosed fd w → I (s.handler.onSocketClosed fd w))
    (hhandle : ∀ p w, l = .handlerTurn w → s.broker.toClient.front? = some p →
      I (s.handler.handle p w))
    (hpop : l = .engineTurn →
      I { s.handler with toMatchingEngine := s.handler.toMatchingEngine.pop }) :
    I (s.after l).handler := by
  cases l with
  | login fd msg sessionId w => exact hlogin fd msg sessionId w rfl
  | newOrder fd msg now => exact hreceive fd (.newOrder msg now) rfl
  | deleteOrder fd msg => exact hreceive fd (.deleteOrder msg) rfl
  | modifyOrder fd msg => exact hreceive fd (.modifyOrder msg) rfl
  | socketClosed fd w => exact hclosed fd w rfl
  | handlerTurn w =>
    simp only [after, handlerTurn]
    cases hp : s.broker.toClient.front? with
    | none => exact hI
    | some p => exact hhandle p w rfl hp
  | engineTurn =>
    -- a request that throws stays on the queue
    simp only [after, engineTurn]
    split
    · exact hI
    · split
      · exact hI
      · exact hpop rfl
  | heartbeat => exact hI

/-- **Every step** keeps deletions and modifications to the owners. -/
theorem owners_step {l : ExchangeEvent} (ho : Owners s.handler) (h : ExchangeStep s l t) :
    Owners t.handler := by
  obtain ⟨-, rfl⟩ := h
  refine handler_after ho ?_ ?_ ?_ ?_ ?_
  · exact fun fd msg sessionId w _ => ho.onLogin fd msg sessionId
  · exact fun fd m _ => ho.receive fd m
  · exact fun fd w _ => ho.onSocketClosed fd
  · exact fun p w _ _ => ho.handle p w
  · refine fun _ => ⟨?_, ?_, ?_⟩ <;> rw [Fifo.items_pop]
    · exact ho.opened
    · exact ho.known
    · exact ho.owned

theorem owners_run {symbols : List SymbolDefinition} {users : AList fun _ : List UInt8 => UserInfo}
    {ls : List ExchangeEvent} (h : Run ExchangeStep (start symbols users) ls s) :
    Owners s.handler := by
  refine h.invariant (I := fun s => Owners s.handler) (fun _ _ _ ho hstep => owners_step ho hstep) ?_
  refine ⟨?_, ?_, fun xs p ys hsplit => ?_⟩
  · rintro c o x ⟨⟩
  · rintro e order ⟨⟩
  · cases xs <;> cases hsplit

/-- The history fits the maps in every run. -/
theorem historyFits_run {symbols : List SymbolDefinition}
    {users : AList fun _ : List UInt8 => UserInfo} {ls : List ExchangeEvent}
    (h : Run ExchangeStep (start symbols users) ls s) : s.HistoryFits := by
  refine h.invariant (fun _ _ _ hn hstep => hn.step hstep) ⟨?_, ?_, ?_⟩
  · rintro fd info ⟨⟩
  · rintro x ⟨⟩
  · rintro c o y ⟨⟩

/-! ## Sessions and their logins -/

/-- The users are those of the start. -/
theorem users_run {symbols : List SymbolDefinition} {users : AList fun _ : List UInt8 => UserInfo}
    {ls : List ExchangeEvent} (h : Run ExchangeStep (start symbols users) ls s) :
    s.handler.users = users := by
  refine h.invariant (I := fun s => s.handler.users = users) (fun s l t hs hstep => ?_) rfl
  obtain ⟨-, rfl⟩ := hstep
  refine handler_after (I := fun h => h.users = users) hs ?_ ?_ ?_ ?_ fun _ => hs
  · intro fd msg sessionId w _
    rcases s.handler.onLogin_cases fd msg sessionId w with
      ⟨-, hq⟩ | ⟨-, otherFd, -, h₁, hq, hclosed⟩ | ⟨-, hq⟩
    · exact hq.users.trans hs
    · rw [hclosed]
      exact (h₁.closes_onSocketClosed otherFd w).users.trans (hq.users.trans hs)
    · exact hq.users.trans hs
  · exact fun fd m _ => (ClientHandler.sessions_receive s.handler fd m).2.2.trans hs
  · exact fun fd w _ => (s.handler.closes_onSocketClosed fd w).users.trans hs
  · intro p w _ _
    obtain ⟨h₁, hends, hhandle⟩ := s.handler.handle_sessions p w
    have hu : h₁.users = users := by
      rcases hends with hq | ⟨c, fd, -, -, hq⟩
      · exact hq.users.trans hs
      · exact hq.users.trans hs
    rcases hhandle with hhandle | ⟨-, order, -, hhandle⟩ <;> rw [hhandle]
    · exact hu
    · exact hu

/-- A session that is there after an event was there before, or the event is the login that opens
it. -/
theorem session_after {l : ExchangeEvent} {fd : Int32} {n : SessionName}
    (hn : (s.after l).handler.session fd = some n) :
    s.handler.session fd = some n ∨ ∃ msg w, l = .login fd msg n.sessionId w ∧
      s.handler.Accepts msg ∧ msg.header.clientId = n.clientId := by
  revert hn
  refine handler_after (I := fun h => h.session fd = some n → _) Or.inl ?_ ?_ ?_ ?_ ?_
  · rintro fd' msg sessionId w rfl hsome
    rcases s.handler.onLogin_cases fd' msg sessionId w with
      ⟨-, hq⟩ | ⟨-, otherFd, -, h₁, hq, hclosed⟩ | ⟨hacc, hq⟩
    · exact Or.inl ((hq.session fd).symm.trans hsome)
    · rw [hclosed] at hsome
      have hold := ClientHandler.session_of_onSocketClosed hsome
      exact Or.inl ((hq.session fd).symm.trans hold)
    · have hlogin := hq.session hsome
      rw [ClientHandler.session_logIn] at hlogin
      split_ifs at hlogin with hfd
      · obtain rfl := Option.some.inj hlogin
        exact Or.inr ⟨msg, w, by rw [hfd], hacc, rfl⟩
      · exact Or.inl hlogin
  · intro fd' m _ hsome
    rw [ClientHandler.session_receive] at hsome
    exact Or.inl hsome
  · exact fun fd' w _ hsome => Or.inl (ClientHandler.session_of_onSocketClosed hsome)
  · intro p w _ _ hsome
    obtain ⟨h₁, hends, hhandle⟩ := s.handler.handle_sessions p w
    have hsome₁ : h₁.session fd = some n := by
      rcases hhandle with hhandle | ⟨-, order, -, hhandle⟩ <;> rw [hhandle] at hsome
      · exact hsome
      · exact hsome
    rcases hends with hq | ⟨c, fd', -, -, hq⟩
    · exact Or.inl ((hq.session fd).symm.trans hsome₁)
    · exact Or.inl (hq.session hsome₁)
  · exact fun _ hsome => Or.inl hsome

/-- The session goes back to a login: the events have it, with the session's id and over the session's
socket, and with the username, the password and the client id of one user; the handler accepted it;
and the session has been there ever since. -/
def LoggedIn (s₀ : Exchange) (ls : List ExchangeEvent) (s : Exchange) (fd : Int32)
    (n : SessionName) : Prop :=
  ∃ ls₁ msg w ls₂ t, ls = ls₁ ++ .login fd msg n.sessionId w :: ls₂ ∧ Run ExchangeStep s₀ ls₁ t ∧
    msg.header.clientId = n.clientId ∧
    (∃ user, s₀.handler.users.lookup (ClientHandler.cString msg.username) = some user ∧
      user.password = ClientHandler.cString msg.password ∧ user.clientId = n.clientId) ∧
    t.handler.clientToSockFd.lookup n.clientId = none ∧
    (t.after (.login fd msg n.sessionId w)).handler.session fd = some n ∧
    Run (fun s l t => ExchangeStep s l t ∧ t.handler.session fd = some n)
      (t.after (.login fd msg n.sessionId w)) ls₂ s

/-- **Every session** goes back to a login. -/
theorem loggedIn_run {symbols : List SymbolDefinition} {users : AList fun _ : List UInt8 => UserInfo}
    {ls : List ExchangeEvent} (h : Run ExchangeStep (start symbols users) ls s) {fd : Int32}
    {n : SessionName} (hn : s.handler.session fd = some n) :
    LoggedIn (start symbols users) ls s fd n := by
  induction h with
  | nil => cases hn
  | @snoc t u ls l run step ih =>
    rcases session_after (step.2 ▸ hn) with hold | ⟨msg, w, rfl, ⟨hcred, hroute⟩, hclient⟩
    · obtain ⟨ls₁, msg, w, ls₂, t₁, rfl, hrun, hclient, huser, hroute, hcreated, hsince⟩ := ih hold
      refine ⟨ls₁, msg, w, ls₂ ++ [l], t₁, by simp, hrun, hclient, huser, hroute, hcreated, ?_⟩
      exact .snoc hsince ⟨step, hn⟩
    · obtain ⟨-, rfl⟩ := step
      obtain ⟨user, huser, hpassword, hid⟩ := ClientHandler.credentials_eq_none.mp hcred
      rw [users_run run] at huser
      exact ⟨ls, msg, w, [], t, rfl, run, hclient, ⟨user, huser, hpassword, hid.trans hclient⟩,
        hclient ▸ hroute, hn, .nil _⟩

end Exchange

/-! ## The requests of a step -/

namespace ClientHandler

variable {h h' : ClientHandler} {w : Circumstances}

/-- The requests that an event adds to the queue are cancellations for a session that it ends. -/
def Cancels (h h' : ClientHandler) : Prop :=
  ∃ ps, h'.toMatchingEngine.items = h.toMatchingEngine.items ++ ps ∧
    ∀ p ∈ ps, p.msgType = .deleteOrder ∧
      ∃ fd n, h.session fd = some n ∧ n.clientId = p.clientId ∧ h'.session fd = none

theorem Quiet.cancels (hq : h.Quiet h') : h.Cancels h' :=
  ⟨[], by rw [hq.toMatchingEngine, List.append_nil], by simp⟩

theorem Quiet.cancels_onSocketClosed (hq : h.Quiet h') (fd : Int32) (w : Circumstances) :
    h.Cancels (h'.onSocketClosed fd w) := by
  have hcloses := h'.closes_onSocketClosed fd w
  refine ⟨h'.cancels fd w, ?_, fun p hp => ?_⟩
  · rw [hcloses.toMatchingEngine, Fifo.items_pushAll, hq.toMatchingEngine]
  · obtain ⟨n, o, x, hn, -, rfl⟩ := mem_cancels.mp hp
    refine ⟨rfl, fd, n, (hq.session fd).symm.trans hn, rfl, ?_⟩
    rw [hcloses.session, if_pos rfl]

theorem QuietOrCloses.cancels {fd : Int32} (hq : h.QuietOrCloses fd w h') : h.Cancels h' := by
  rcases hq with hq | ⟨-, h₁, hq, rfl⟩
  · exact hq.cancels
  · exact hq.cancels_onSocketClosed fd w

/-- A session that opens and ends in one event has no open order to cancel. -/
theorem QuietOrCloses.cancels_logIn {fd : Int32} {msg : Login} {sessionId : UInt64}
    (hq : (h.logIn fd msg sessionId).QuietOrCloses fd w h')
    (hnone : ∀ o, h.openOrder msg.header.clientId o = none) : h.Cancels h' := by
  rcases hq with hq | ⟨-, h₁, hq, rfl⟩
  · exact ⟨[], by rw [hq.toMatchingEngine, List.append_nil]; rfl, by simp⟩
  · have hcloses := h₁.closes_onSocketClosed fd w
    refine ⟨h₁.cancels fd w, ?_, fun p hp => ?_⟩
    · rw [hcloses.toMatchingEngine, Fifo.items_pushAll, hq.toMatchingEngine]
      rfl
    · obtain ⟨n, o, x, hn, hx, -⟩ := mem_cancels.mp hp
      rw [hq.session, session_logIn, if_pos rfl] at hn
      obtain rfl := Option.some.inj hn
      rw [hq.openOrder] at hx
      cases (hnone o).symm.trans hx

end ClientHandler

namespace Exchange

variable {s : Exchange}

/-- What an event that is no request puts on the engine's queue are cancellations. -/
theorem cancels_after (hn : s.HistoryFits) (l : ExchangeEvent) :
    s.handler.Cancels (s.after l).handler ∨
      ∃ fd m, l.message? = some (fd, m) ∧ (s.after l).handler = s.handler.receive fd m := by
  refine handler_after (I := fun h' => s.handler.Cancels h' ∨
    ∃ fd m, l.message? = some (fd, m) ∧ h' = s.handler.receive fd m) ?_ ?_ ?_ ?_ ?_ ?_
  · exact Or.inl (ClientHandler.Quiet.refl _).cancels
  · rintro fd msg sessionId w -
    left
    rcases s.handler.onLogin_cases fd msg sessionId w with
      ⟨-, hq⟩ | ⟨-, otherFd, -, h₁, hq, hclosed⟩ | ⟨⟨-, hroute⟩, hq⟩
    · exact hq.cancels
    · rw [hclosed]
      exact hq.cancels_onSocketClosed otherFd w
    · refine hq.cancels_logIn fun o => ?_
      -- a client with an open order is logged in
      cases hx : s.handler.openOrder msg.header.clientId o with
      | none => rfl
      | some x =>
        obtain ⟨y, hy, hc, -, -⟩ := hn.noted _ _ x hx
        have hin : s.handler.clientToSockFd.lookup y.clientId = some y.sockFd := hn.current y hy
        rw [hc, hroute] at hin
        cases hin
  · exact fun fd m hm => Or.inr ⟨fd, m, hm, rfl⟩
  · exact fun fd w _ => Or.inl ((ClientHandler.Quiet.refl _).cancels_onSocketClosed fd w)
  · rintro p w - -
    left
    obtain ⟨h₁, hends, hhandle⟩ := s.handler.handle_sessions p w
    have hh₁ : s.handler.Cancels h₁ := by
      rcases hends with hq | ⟨c, fd, -, -, hq⟩
      · exact hq.cancels
      · exact hq.cancels
    rcases hhandle with hhandle | ⟨-, order, -, hhandle⟩ <;> rw [hhandle]
    · exact hh₁
    · exact hh₁
  · exact fun _ => Or.inl ⟨[], by rw [Fifo.items_pop, List.append_nil], by simp⟩

/-- The event asks for the payload by a message of a session of the payload's client, which a login of
that client opened, or ends such a session and cancels an order. -/
def Authorised (s₀ : Exchange) (ls : List ExchangeEvent) (s : Exchange) (l : ExchangeEvent)
    (p : OePayload) : Prop :=
  (∃ fd m, l.message? = some (fd, m) ∧ m.header.clientId = p.clientId ∧
      s.handler.session fd = some ⟨m.header.sessionId, p.clientId⟩ ∧
      LoggedIn s₀ ls s fd ⟨m.header.sessionId, p.clientId⟩) ∨
    p.msgType = .deleteOrder ∧ ∃ fd n, s.handler.session fd = some n ∧ n.clientId = p.clientId ∧
      (s.after l).handler.session fd = none

end Exchange

/-- **Orders are authorised.** In every state of a run, deletions and modifications follow the request
by which their own client entered the order; and what the next event puts on the engine's queue, it
rejects, or its client asks for it. -/
theorem orders_authorised {symbols : List SymbolDefinition}
    {users : AList fun _ : List UInt8 => UserInfo} {ls : List ExchangeEvent} {s : Exchange}
    (h : Run ExchangeStep (Exchange.start symbols users) ls s) :
    Owned s.handler.toMatchingEngine.items ∧
      ∀ l, ∃ ps, (s.after l).handler.toMatchingEngine.items =
          s.handler.toMatchingEngine.items ++ ps ∧
        ∀ p ∈ ps, p.msgType = .reject ∨
          Exchange.Authorised (Exchange.start symbols users) ls s l p := by
  refine ⟨(Exchange.owners_run h).owned, fun l => ?_⟩
  rcases Exchange.cancels_after (Exchange.historyFits_run h) l with
    ⟨ps, hitems, hps⟩ | ⟨fd, m, hm, hafter⟩
  · exact ⟨ps, hitems, fun p hp => Or.inr (Or.inr (hps p hp))⟩
  have hnamed : s.handler.OfSession fd m → ∀ p : OePayload, p.clientId = m.header.clientId →
      Exchange.Authorised (Exchange.start symbols users) ls s l p := by
    intro hsession p hclient
    rw [ClientHandler.OfSession, ← hclient] at hsession
    exact Or.inl ⟨fd, m, hm, hclient.symm, hsession, Exchange.loggedIn_run h hsession⟩
  rw [hafter]
  rcases s.handler.receive_cases fd m with
    ⟨reason, -, hreject⟩ | ⟨hsession, ⟨p, hp, hforward⟩ | ⟨msg, now, rfl, -, hentry⟩⟩
  · rw [hreject]
    exact ⟨_, rfl, fun p hp => Or.inl (by rw [List.mem_singleton.mp hp]; rfl)⟩
  · rw [hforward]
    refine ⟨[p], rfl, fun q hq => Or.inr ?_⟩
    rw [List.mem_singleton.mp hq]
    exact hnamed hsession p hp.clientId
  · rw [hentry]
    refine ⟨[ClientHandler.newPayload msg now], rfl, fun q hq => Or.inr ?_⟩
    rw [List.mem_singleton.mp hq]
    exact hnamed hsession _ rfl

/-- A client modifies its order, and its socket is closed. -/
theorem orders_authorised_cancelled :
    Owned ([.login 5 ⟨⟨1, 100, 0⟩, [97], [97]⟩ 7 .fine,
      .newOrder 5 ⟨⟨2, 100, 7⟩, 1, 1, Side.buy, 10, 50, 0⟩ 1000,
      .modifyOrder 5 ⟨⟨3, 100, 7⟩, 1, Side.buy, 20, 50⟩,
      .socketClosed 5 .fine].foldl Exchange.after
        Exchange.startGold).handler.toMatchingEngine.items :=
  (orders_authorised (Exchange.run_of_enabled (by decide +kernel))).1

end Ndfex
