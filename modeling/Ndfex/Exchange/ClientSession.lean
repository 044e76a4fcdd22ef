import Ndfex.Exchange.Accounts
import Ndfex.Exchange.Acknowledgements
import Ndfex.Protocol.OeResponseWire

/-!
# The session of a client

As long as a client stays in its session, all that its socket is written are the messages of that session:
nobody else has a route to the socket, and the orders that the client enters are noted under the ids that
it gave them. A message tells of a payload of the engine, under the client's own order id. So the fills
that the socket was told are the client's fills that the handler took from the engine, one for one.

## Main definitions

* `OePayload.message`: what a payload tells a client
* `Exchange.Alone`: a client is the only one logged in on its socket
* `Exchange.payloadsTo`: the payloads that a socket was told
* `Exchange.Attended`: what holds while a client stays in its session

## Main results

* `Exchange.route_after`, `Exchange.mem_sessionOrders_or_admits`, `Exchange.known_or_admits`: what an event
  adds to the maps of the handler and to the history
* `Exchange.Attended.step`: every step in which the client stays in its session
-/

namespace Ndfex

open Containers Transition

/-- What a payload tells a client of its order; a reject has the client's order id itself. -/
def OePayload.message (q : OePayload) (orderId : UInt64) : ResponseBody :=
  match q.msgType with
  | .ack => .ack orderId q.exchOrderId q.quantity q.price.toInt32
  | .fill => .fill orderId q.quantity q.price.toInt32 q.flags
  | .close => .closed orderId
  | _ => .reject q.exchOrderId q.flags

namespace ClientHandler

variable {h h' : ClientHandler} {w : Circumstances} {p : OePayload} {c : UInt32} {fd : Int32}

/-- A reply is the message of its payload, to the client of a reject or of a known order. -/
theorem message_of_reply {body : ResponseBody} (hr : h.reply p = some (c, body)) :
    ∃ orderId, body = p.message orderId ∧ (p.msgType = .reject ∧ c = p.clientId ∨
      p.msgType ≠ .reject ∧ h.exchToClientOrders.lookup p.exchOrderId = some ⟨c, orderId⟩) := by
  unfold reply at hr
  split_ifs at hr with hreject
  · obtain ⟨rfl, rfl⟩ := Prod.mk.inj (Option.some.inj hr)
    refine ⟨0, ?_, Or.inl ⟨hreject, rfl⟩⟩
    rw [OePayload.message, hreject]
  · obtain ⟨order, horder, hr⟩ := Option.bind_eq_some_iff.mp hr
    split at hr
    case h_4 => cases hr
    all_goals
      rename_i htype
      obtain ⟨rfl, rfl⟩ := Prod.mk.inj (Option.some.inj hr)
      refine ⟨order.orderId, ?_, Or.inr ⟨hreject, horder⟩⟩
      rw [OePayload.message, htype]

/-- The fill of a known order is told to its client. -/
theorem reply_of_fill {orderId : UInt64} (hfill : p.msgType = .fill)
    (hknown : h.exchToClientOrders.lookup p.exchOrderId = some ⟨c, orderId⟩) :
    h.reply p = some (c, p.message orderId) := by
  rw [OePayload.message, reply, if_neg (by simp [hfill]), hknown]
  simp [hfill]

end ClientHandler

namespace Exchange

variable {s t : Exchange} {l : ExchangeEvent} {fd : Int32} {n : SessionName} {c : UInt32}

/-! ## What an event adds -/

/-- A route that is there after an event was there before, or leads to a session that the event opened. -/
theorem route_after (hc : (s.after l).handler.clientToSockFd.lookup c = some fd) :
    s.handler.clientToSockFd.lookup c = some fd ∨
      ∃ sessionId, (s.after l).handler.session fd = some ⟨sessionId, c⟩ := by
  revert hc
  have hclosed : ∀ (h : ClientHandler) (fd' : Int32) (w : Circumstances),
      (h.onSocketClosed fd' w).clientToSockFd.lookup c = some fd →
        h.clientToSockFd.lookup c = some fd ∧
          (h.session fd').map SessionName.clientId ≠ some c := by
    intro h fd' w hc
    rw [(h.closes_onSocketClosed fd' w).route] at hc
    split_ifs at hc with hname
    exact ⟨hc, hname⟩
  refine handler_after (I := fun h => h.clientToSockFd.lookup c = some fd → _ ∨
    ∃ sessionId, h.session fd = some ⟨sessionId, c⟩) Or.inl ?_ ?_ ?_ ?_ fun _ => Or.inl
  · rintro fd' msg sessionId w - hc
    rcases s.handler.onLogin_cases fd' msg sessionId w with
      ⟨-, hq⟩ | ⟨-, otherFd, -, h₁, hq, heq⟩ | ⟨-, hq⟩
    · exact Or.inl (hq.clientToSockFd ▸ hc)
    · -- a second login of the client ends its first session
      rw [heq] at hc
      exact Or.inl (hq.clientToSockFd ▸ (hclosed _ _ _ hc).1)
    · by_cases hclient : c = msg.header.clientId
      · subst hclient
        have hlogin : (s.handler.logIn fd' msg sessionId).clientToSockFd.lookup msg.header.clientId =
            some fd' := AList.lookup_insert _
        have hsession : (s.handler.logIn fd' msg sessionId).session fd' =
            some ⟨sessionId, msg.header.clientId⟩ := by
          rw [ClientHandler.session_logIn, if_pos rfl]
        rcases hq with hq | ⟨-, h₁, hq, heq⟩
        · rw [hq.clientToSockFd, hlogin] at hc
          obtain rfl := Option.some.inj hc
          exact Or.inr ⟨sessionId, (hq.session _).trans hsession⟩
        · -- the session has ended already, and its route with it
          rw [heq] at hc
          refine absurd ?_ (hclosed _ _ _ hc).2
          rw [hq.session, hsession]
          rfl
      · have hold : (s.handler.logIn fd' msg sessionId).clientToSockFd.lookup c =
            s.handler.clientToSockFd.lookup c := AList.lookup_insert_ne hclient
        rcases hq with hq | ⟨-, h₁, hq, heq⟩
        · rw [hq.clientToSockFd, hold] at hc
          exact Or.inl hc
        · rw [heq] at hc
          have hroute := (hclosed _ _ _ hc).1
          rw [hq.clientToSockFd, hold] at hroute
          exact Or.inl hroute
  · rintro fd' m - hc
    rw [(ClientHandler.sessions_receive s.handler fd' m).2.1] at hc
    exact Or.inl hc
  · exact fun fd' w _ hc => Or.inl (hclosed _ _ _ hc).1
  · rintro p w - - hc
    obtain ⟨h₁, hends, hhandle⟩ := s.handler.handle_sessions p w
    have hroute : h₁.clientToSockFd.lookup c = some fd := by
      rcases hhandle with hhandle | ⟨-, order, -, hhandle⟩ <;> rw [hhandle] at hc <;> exact hc
    left
    rcases hends with hq | ⟨-, fd', -, -, hq | ⟨-, h₂, hq, heq⟩⟩
    · exact hq.clientToSockFd ▸ hroute
    · exact hq.clientToSockFd ▸ hroute
    · rw [heq] at hroute
      exact hq.clientToSockFd ▸ (hclosed _ _ _ hroute).1

/-- An order of the history stays there as long as its client's route leads to its socket. -/
theorem mem_sessionOrders_after {x : SessionOrder} (hx : x ∈ s.sessionOrders)
    (hroute : (s.after l).handler.clientToSockFd.lookup x.clientId = some x.sockFd) :
    x ∈ (s.after l).sessionOrders := by
  cases l with
  | newOrder sockFd msg now =>
    refine List.mem_filter.mpr ⟨?_, decide_eq_true hroute⟩
    unfold noteEntry
    split_ifs
    · exact List.mem_append_left _ hx
    · exact hx
  | handlerTurn w =>
    simp only [after, handlerTurn] at hroute ⊢
    cases hp : s.broker.toClient.front? with
    | none => exact hx
    | some p =>
      rw [hp] at hroute
      exact List.mem_filter.mpr ⟨hx, decide_eq_true hroute⟩
  | engineTurn =>
    simp only [after, engineTurn]
    split
    · exact hx
    · split <;> exact hx
  | heartbeat => exact hx
  | _ => exact List.mem_filter.mpr ⟨hx, decide_eq_true hroute⟩

/-- The event is a new order that the handler admits under the exchange id. -/
def AdmitsAs (s : Exchange) (l : ExchangeEvent) (x : SessionOrder) : Prop :=
  ∃ msg, l = .newOrder x.sockFd msg x.exchOrderId ∧ s.handler.Admits x.sockFd msg ∧
    x.clientId = msg.header.clientId ∧ x.orderId = msg.orderId

/-- An order of the history was there before, or the event enters it. -/
theorem mem_sessionOrders_or_admits {x : SessionOrder} (hx : x ∈ (s.after l).sessionOrders) :
    x ∈ s.sessionOrders ∨ s.AdmitsAs l x := by
  cases l with
  | newOrder sockFd msg now =>
    replace hx := (List.mem_filter.mp hx).1
    unfold noteEntry at hx
    split_ifs at hx with hadm
    · rcases List.mem_append.mp hx with hx | hx
      · exact Or.inl hx
      · obtain rfl := List.mem_singleton.mp hx
        exact Or.inr ⟨msg, rfl, hadm, rfl, rfl⟩
    · exact Or.inl hx
  | handlerTurn w =>
    simp only [after, handlerTurn] at hx
    cases hp : s.broker.toClient.front? with
    | none => exact Or.inl (by simpa only [hp] using hx)
    | some p =>
      rw [hp] at hx
      exact Or.inl (List.mem_filter.mp hx).1
  | engineTurn =>
    left
    simp only [after, engineTurn] at hx
    split at hx
    · exact hx
    · split at hx <;> exact hx
  | heartbeat => exact Or.inl hx
  | _ => exact Or.inl (List.mem_filter.mp hx).1

/-- The history is of orders that went to the engine. -/
theorem requested_of_mem_sessionOrders {symbols : List SymbolDefinition}
    {users : AList fun _ : List UInt8 => UserInfo} {ls : List ExchangeEvent}
    (h : Run ExchangeStep (start symbols users) ls s) {x : SessionOrder} (hx : x ∈ s.sessionOrders) :
    ∃ p ∈ s.handler.toMatchingEngine.items, p.msgType = .newOrder ∧ p.clientId = x.clientId := by
  induction h with
  | nil => cases hx
  | @snoc u v ls l run step ih =>
    obtain ⟨-, rfl⟩ := step
    obtain ⟨ps, hitems⟩ := items_after (historyFits_run run) l
    rcases mem_sessionOrders_or_admits hx with hold | ⟨msg, rfl, hadm, hclient, -⟩
    · obtain ⟨p, hp, hentry⟩ := ih hold
      exact ⟨p, hitems ▸ List.mem_append_left ps hp, hentry⟩
    · refine ⟨ClientHandler.newPayload msg x.exchOrderId, ?_, rfl, hclient.symm⟩
      show _ ∈ (u.handler.onNewOrder x.sockFd msg x.exchOrderId).toMatchingEngine.items
      rw [ClientHandler.onNewOrder_of_admits hadm]
      exact List.mem_append_right _ (List.mem_singleton_self _)

/-- An exchange id that the handler knows after an event was known before, or the event enters its
order. -/
theorem known_or_admits {e : UInt64} {order : ExchOrder}
    (horder : (s.after l).handler.exchToClientOrders.lookup e = some order) :
    s.handler.exchToClientOrders.lookup e = some order ∨
      ∃ sockFd, s.AdmitsAs l ⟨sockFd, order.clientId, order.orderId, e⟩ := by
  revert horder
  have hsame : ∀ h' : ClientHandler, h'.exchToClientOrders = s.handler.exchToClientOrders →
      h'.exchToClientOrders.lookup e = some order →
        s.handler.exchToClientOrders.lookup e = some order := fun h' heq h => heq ▸ h
  refine handler_after (I := fun h' => h'.exchToClientOrders.lookup e = some order → _) Or.inl
    ?_ ?_ ?_ ?_ fun _ => Or.inl
  · rintro fd msg sessionId w - h
    rcases @ClientHandler.kept_onLogin w s.handler fd msg sessionId with hk | ⟨-, hk⟩
    · exact Or.inl (hsame _ hk.exch h)
    · exact Or.inl (hsame _ hk.exch h)
  · rintro fd m hm h
    rcases s.handler.receive_cases fd m with
      ⟨reason, -, hreject⟩ | ⟨-, ⟨p, -, hforward⟩ | ⟨msg, now, rfl, hadm, hentry⟩⟩
    · exact Or.inl (hsame _ (by rw [hreject]; rfl) h)
    · exact Or.inl (hsame _ (by rw [hforward]; rfl) h)
    · rw [hentry] at h
      replace h : (s.handler.exchToClientOrders.insert now
        (⟨msg.header.clientId, msg.orderId⟩ : ExchOrder)).lookup e = some order := h
      by_cases he : e = now
      · -- the event is that of the message, since no other is received as it
        subst he
        rw [AList.lookup_insert] at h
        obtain rfl := Option.some.inj h
        refine Or.inr ⟨fd, msg, ?_, hadm, rfl, rfl⟩
        cases l <;> cases hm
        rfl
      · exact Or.inl ((AList.lookup_insert_ne he).symm.trans h)
  · exact fun fd w _ h => Or.inl
      (hsame _ (@ClientHandler.kept_onSocketClosed none w s.handler fd).exch h)
  · rintro p w - - h
    left
    rcases s.handler.handle_cases p w with ⟨-, o, h', -, hk, hhandle⟩ | ⟨-, hk⟩
    · rw [hhandle] at h
      replace h : (h'.exchToClientOrders.erase p.exchOrderId).lookup e = some order := h
      by_cases he : e = p.exchOrderId
      · subst he
        cases (AList.lookup_erase ..).symm.trans h
      · exact hsame h' hk.exch ((AList.lookup_erase_ne he).symm.trans h)
    · exact hsame _ hk.exch h

/-- Responses are taken by turns of the handler's loop. -/
theorem taken_after_of_ne (hs : s.Sound) (hl : ∀ w, l ≠ .handlerTurn w) :
    (s.after l).broker.toClient.taken = s.broker.toClient.taken := by
  by_cases hengine : l = .engineTurn
  · subst hengine
    obtain ⟨-, -, books, hagreed⟩ := hs
    cases hp : s.handler.toMatchingEngine.front? with
    | none => simp only [after, engineTurn, hp]
    | some p =>
      rw [after_engineTurn hagreed hp]
      exact (hagreed.sound.handle (hagreed.fresh hp)).1.taken
  · rw [toClient_after hengine hl]

theorem mem_taken_after (hs : s.Sound) {q : OePayload} (hq : q ∈ s.broker.toClient.taken) :
    q ∈ (s.after l).broker.toClient.taken := by
  by_cases hturn : ∃ w, l = .handlerTurn w
  · obtain ⟨w, rfl⟩ := hturn
    rw [toClient_handlerTurn]
    cases hp : s.broker.toClient.front? with
    | none => rwa [Fifo.pop_of_front?_eq_none hp]
    | some p =>
      rw [Fifo.taken_pop hp]
      exact List.mem_append_left _ hq
  · rwa [taken_after_of_ne hs fun w hw => hturn ⟨w, hw⟩]

/-- A login tells of no payload. -/
theorem payload_greetings {h : ClientHandler} {sockFd : Int32} {msg : Login} {sessionId : UInt64}
    {x : Written} (hx : x ∈ h.greetings sockFd msg sessionId) : x.payload = none := by
  have hsession : ∀ (h : ClientHandler) fd body, x ∈ h.sessionMessage fd none body →
      x.payload = none := by
    intro h fd body hx
    obtain ⟨info, -, rfl⟩ := Option.map_eq_some_iff.mp (Option.mem_toList.mp hx)
    rfl
  unfold ClientHandler.greetings at hx
  split at hx
  · obtain rfl := List.mem_singleton.mp hx
    rfl
  · split at hx
    · split_ifs at hx
      · cases hx
      · rcases List.mem_cons.mp hx with rfl | hx
        · rfl
        · exact hsession _ _ _ hx
    · exact hsession _ _ _ hx

/-- A payload that an event writes a message for is the front response. -/
theorem delivery_of_mem_messagesOf {x : Written} (hx : x ∈ s.messagesOf l) {q : OePayload}
    (hq : x.payload = some q) :
    (∃ w, l = .handlerTurn w) ∧ s.broker.toClient.front? = some q ∧ x ∈ s.handler.delivery q := by
  unfold messagesOf at hx
  split at hx
  · rw [payload_greetings hx] at hq
    cases hq
  · split at hx
    · cases hx
    case h_2 w _ p hp =>
      have hsame : x.payload = some p := by
        obtain ⟨c, body, fd', info, -, -, rfl⟩ := ClientHandler.mem_delivery.mp hx
        rfl
      obtain rfl := Option.some.inj (hsame.symm.trans hq)
      exact ⟨⟨w, rfl⟩, hp, hx⟩
  · cases hx

/-- A login writes to its own socket, or to one whose session it ends. -/
theorem sockFd_greetings {h : ClientHandler} {sockFd : Int32} {msg : Login} {sessionId : UInt64}
    {x : Written} (hx : x ∈ h.greetings sockFd msg sessionId) (w : Circumstances) :
    x.sockFd = sockFd ∨ (h.onLogin sockFd msg sessionId w).session x.sockFd = none := by
  -- a message to a session goes to its socket
  have hsession : ∀ (h : ClientHandler) fd body, x ∈ h.sessionMessage fd none body →
      x.sockFd = fd := by
    intro h fd body hx
    obtain ⟨info, -, rfl⟩ := Option.map_eq_some_iff.mp (Option.mem_toList.mp hx)
    rfl
  unfold ClientHandler.greetings at hx
  unfold ClientHandler.onLogin
  cases hcred : h.credentials msg with
  | some status =>
    rw [hcred] at hx
    obtain rfl := List.mem_singleton.mp hx
    exact Or.inl rfl
  | none =>
    rw [hcred] at hx
    dsimp only at hx ⊢
    cases hroute : h.clientToSockFd.lookup msg.header.clientId with
    | none =>
      rw [hroute] at hx
      exact Or.inl (hsession _ _ _ hx)
    | some otherFd =>
      rw [hroute] at hx
      dsimp only at hx ⊢
      split_ifs at hx with hself
      · cases hx
      rw [not_or] at hself
      obtain ⟨info, hinfo⟩ := Option.ne_none_iff_exists'.mp hself.2
      rw [if_neg hself.1, hinfo]
      -- the second login is refused on its own socket, and the first session is told and closed
      rcases List.mem_cons.mp hx with rfl | hx
      · exact Or.inl rfl
      · right
        rw [hsession _ _ _ hx, (ClientHandler.closes_onSocketClosed ..).session, if_pos rfl]

/-- The socket of a session that stays is told of payloads only, unless it is the socket of a login. -/
theorem payload_of_mem_messagesOf {x : Written} (hx : x ∈ s.messagesOf l) (hsock : x.sockFd = fd)
    (hstays : s.StaysIn fd n l) (hlogin : ∀ msg sessionId w, l ≠ .login fd msg sessionId w) :
    ∃ q, x.payload = some q := by
  cases l with
  | login sockFd msg sessionId w =>
    rcases sockFd_greetings hx w with hown | hended
    · rw [← hown, hsock] at hlogin
      exact absurd rfl (hlogin msg sessionId w)
    · rw [hsock] at hended
      cases hended.symm.trans hstays
  | handlerTurn w =>
    simp only [messagesOf] at hx
    split at hx
    · cases hx
    · obtain ⟨c, body, fd', info, -, -, rfl⟩ := ClientHandler.mem_delivery.mp hx
      exact ⟨_, rfl⟩
  | _ => cases hx

/-- **Every message** of the server has the type and the length of its struct in its header. -/
theorem wellFormed_of_mem_messagesOf {x : Written} (hx : x ∈ s.messagesOf l) : x.response.WellFormed := by
  have hsession : ∀ (h : ClientHandler) fd body, body.WellFormed →
      x ∈ h.sessionMessage fd none body → x.response.WellFormed := by
    intro h fd body hbody hx
    obtain ⟨info, -, rfl⟩ := Option.map_eq_some_iff.mp (Option.mem_toList.mp hx)
    exact ⟨rfl, rfl, hbody⟩
  unfold messagesOf at hx
  split at hx
  · unfold ClientHandler.greetings at hx
    split at hx
    · obtain rfl := List.mem_singleton.mp hx
      exact ⟨rfl, rfl, trivial⟩
    · split at hx
      · split_ifs at hx
        · cases hx
        · rcases List.mem_cons.mp hx with rfl | hx
          · exact ⟨rfl, rfl, trivial⟩
          · exact hsession _ _ _ (by decide +kernel) hx
      · exact hsession _ _ (.loginResponse ..) trivial hx
  · split at hx
    · cases hx
    · obtain ⟨c, body, fd', info, hreply, -, rfl⟩ := ClientHandler.mem_delivery.mp hx
      obtain ⟨orderId, rfl, -⟩ := ClientHandler.message_of_reply hreply
      refine ⟨rfl, rfl, ?_⟩
      unfold OePayload.message
      split <;> trivial
  · cases hx

theorem wellFormed_run {symbols : List SymbolDefinition} {users : AList fun _ : List UInt8 => UserInfo}
    {ls : List ExchangeEvent} (h : Run ExchangeStep (start symbols users) ls s) :
    ∀ x ∈ s.handler.written, x.response.WellFormed := by
  refine h.invariant (I := fun s => ∀ x ∈ s.handler.written, x.response.WellFormed) ?_ (by rintro x ⟨⟩)
  rintro s l t hs ⟨-, rfl⟩ x hx
  rw [written_after] at hx
  rcases List.mem_append.mp hx with hx | hx
  · exact hs x hx
  · exact wellFormed_of_mem_messagesOf hx

/-! ## While the client stays -/

/-- The client is the only one logged in on its socket. -/
def Alone (fd : Int32) (c : UInt32) (s : Exchange) : Prop :=
  ∀ c', s.handler.clientToSockFd.lookup c' = some fd → c' = c

instance (fd : Int32) (c : UInt32) : DecidablePred (Alone fd c) := fun s =>
  decidable_of_iff ((s.handler.clientToSockFd.entries.all fun x => x.2 = fd → x.1 = c) = true) (by
    rw [List.all_eq_true]
    constructor
    · intro h c' hc'
      exact of_decide_eq_true (h ⟨c', fd⟩ (AList.mem_lookup_iff.mp hc')) rfl
    · rintro h ⟨c', fd'⟩ hmem
      refine decide_eq_true ?_
      rintro rfl
      exact h c' (AList.mem_lookup_iff.mpr hmem))

theorem Alone.step (h : s.Alone fd n.clientId) (hstays : s.StaysIn fd n l) :
    (s.after l).Alone fd n.clientId := by
  intro c hc
  rcases route_after hc with hold | ⟨sessionId, hsession⟩
  · exact h c hold
  · rw [hstays] at hsession
    exact congrArg SessionName.clientId (Option.some.inj hsession).symm

/-- The payloads that a socket was told by some messages. -/
def payloadsTo (fd : Int32) (xs : List Written) : List OePayload :=
  (xs.filter fun x => x.sockFd = fd).filterMap Written.payload

@[simp] theorem payloadsTo_append (fd : Int32) (xs ys : List Written) :
    payloadsTo fd (xs ++ ys) = payloadsTo fd xs ++ payloadsTo fd ys := by
  rw [payloadsTo, List.filter_append, List.filterMap_append]
  rfl

theorem payloadsTo_eq_nil {xs : List Written} (h : ∀ x ∈ xs, x.sockFd = fd → x.payload = none) :
    payloadsTo fd xs = [] := by
  rw [payloadsTo, List.filterMap_eq_nil_iff]
  intro x hx
  obtain ⟨hmem, hfd⟩ := List.mem_filter.mp hx
  exact h x hmem (of_decide_eq_true hfd)

/-- The message tells the client of its order, under the id that the history has. -/
def Tells (s : Exchange) (fd : Int32) (c : UInt32) (x : Written) (q : OePayload) : Prop :=
  ∃ orderId, x.response.body = q.message orderId ∧
    (q.msgType ≠ .reject → (⟨fd, c, orderId, q.exchOrderId⟩ : SessionOrder) ∈ s.sessionOrders)

/-- What holds while a client stays in the session in which it enters its first order. -/
structure Attended (fd : Int32) (n : SessionName) (old : List Written) (s : Exchange) : Prop where
  sound : s.Sound
  fits : s.HistoryFits
  owners : Owners s.handler
  session : s.handler.session fd = some n
  alone : s.Alone fd n.clientId
  accounted : ∃ books, s.Accounted n.clientId books
  /-- The history has the client's orders that the handler knows. -/
  known : ∀ e orderId, s.handler.exchToClientOrders.lookup e = some ⟨n.clientId, orderId⟩ →
    (⟨fd, n.clientId, orderId, e⟩ : SessionOrder) ∈ s.sessionOrders
  formed : ∀ x ∈ s.handler.written, x.response.WellFormed
  /-- What the socket was told since then. -/
  told : ∃ xs, s.handler.written = old ++ xs ∧
    (∀ x ∈ xs, x.sockFd = fd → ∀ q ∈ x.payload,
      q ∈ s.broker.toClient.taken ∧ s.Tells fd n.clientId x q) ∧
    fillsReported (payloadsTo fd xs) =
      (fillsReported s.broker.toClient.taken).filter fun f => f.clientId = n.clientId

namespace Attended

variable {old : List Written} {p : OePayload}

theorem route (ha : Attended fd n old s) : s.handler.clientToSockFd.lookup n.clientId = some fd := by
  obtain ⟨info, hinfo, rfl⟩ := ClientHandler.exists_info ha.session
  exact ha.fits.agree fd info hinfo

/-- The front response fills an order that the handler knows, as its client's. -/
theorem known_of_fill (ha : Attended fd n old s) (hp : s.broker.toClient.front? = some p)
    (hfill : p.msgType = .fill) :
    ∃ orderId, s.handler.exchToClientOrders.lookup p.exchOrderId = some ⟨p.clientId, orderId⟩ := by
  obtain ⟨books, haccounted⟩ := ha.accounted
  have hagreed := haccounted.agreed
  obtain ⟨r, hr, hnew, hid, hclient⟩ :=
    haccounted.attributed.1 p (Fifo.mem_items_of_front? hp) hfill
  have hmem : r ∈ s.handler.toMatchingEngine.items := by
    rw [← Fifo.taken_append_pending]
    exact List.mem_append_left _ hr
  -- the order is not ended by a response before its fill
  have hopen : ¬ Terminated p.exchOrderId s.broker.toClient.taken := by
    rintro ⟨q, hq, hterm, hsame⟩
    have hends := haccounted.ends
    rw [← Fifo.taken_append_pending, Fifo.pending_of_front? hp] at hends
    exact (List.pairwise_append.mp hends).2.2 q hq p (by simp) hterm hfill hsame.symm
  have hsome := (hagreed.exch p.exchOrderId).mpr
    ⟨mem_newIds.mpr ⟨r, hmem, hnew, hid⟩, hopen⟩
  obtain ⟨order, horder⟩ := Option.isSome_iff_exists.mp hsome
  -- and it was entered once
  obtain ⟨symbol, r', hr', hnew', hid', hclient', -⟩ := ha.owners.known _ order horder
  have hsame := eq_of_newOrder hagreed.assigned hr' hmem hnew' hnew (hid'.trans hid.symm)
  refine ⟨order.orderId, ?_⟩
  rw [horder, ← hclient, ← hsame, hclient']

/-- **What a turn of the handler's loop tells the socket** is the front response, if it is for the
client. -/
theorem tells_of_delivery (ha : Attended fd n old s) {x : Written} (hx : x ∈ s.handler.delivery p)
    (hfd : x.sockFd = fd) : x.payload = some p ∧ s.Tells fd n.clientId x p := by
  obtain ⟨c, body, fd', info, hreply, hrouted, rfl⟩ := ClientHandler.mem_delivery.mp hx
  obtain rfl : fd' = fd := hfd
  obtain rfl := ha.alone c (ClientHandler.routed_eq_some.mp hrouted).1
  obtain ⟨orderId, hbody, hkind⟩ := ClientHandler.message_of_reply hreply
  refine ⟨rfl, orderId, hbody, fun hno => ?_⟩
  rcases hkind with ⟨hreject, -⟩ | ⟨-, hknown⟩
  · exact absurd hreject hno
  · exact ha.known _ _ hknown

/-- **A turn of the handler's loop** tells the socket the fill that it takes, if it is the client's. -/
theorem fills_delivery (ha : Attended fd n old s) (hfd : fd ≠ -1)
    (hp : s.broker.toClient.front? = some p) :
    fillsReported (payloadsTo fd (s.handler.delivery p)) =
      (fillsReported [p]).filter fun f => f.clientId = n.clientId := by
  by_cases hfill : p.msgType = .fill
  · obtain ⟨orderId, hknown⟩ := ha.known_of_fill hp hfill
    have hreply := ClientHandler.reply_of_fill hfill hknown
    by_cases hclient : p.clientId = n.clientId
    · obtain ⟨info, hinfo, -⟩ := ClientHandler.exists_info ha.session
      have hrouted : s.handler.routed p.clientId = some (fd, info) :=
        ClientHandler.routed_eq_some.mpr ⟨hclient ▸ ha.route, hfd, hinfo⟩
      have hdelivery : payloadsTo fd (s.handler.delivery p) = [p] := by
        simp [payloadsTo, ClientHandler.delivery, hreply, ClientHandler.clientMessage, hrouted]
      rw [hdelivery]
      simp [fillsReported, OePayload.fill?, hfill, hclient]
    · -- the route of another client leads to another socket
      have hnone : payloadsTo fd (s.handler.delivery p) = [] := by
        refine payloadsTo_eq_nil fun x hx hsock => absurd ?_ hclient
        obtain ⟨c, body, fd', info, hreply', hrouted, rfl⟩ := ClientHandler.mem_delivery.mp hx
        obtain rfl : fd' = fd := hsock
        obtain ⟨rfl, -⟩ := Prod.mk.inj (Option.some.inj (hreply.symm.trans hreply'))
        exact ha.alone _ (ClientHandler.routed_eq_some.mp hrouted).1
      rw [hnone]
      simp [fillsReported, OePayload.fill?, hfill, hclient]
  · -- what is told of another response is no fill
    have hnone : p.fill? = none := by rw [OePayload.fill?, if_neg hfill]
    have hpayloads : ∀ q ∈ payloadsTo fd (s.handler.delivery p), q = p := by
      intro q hq
      obtain ⟨x, hx, hpayload⟩ := List.mem_filterMap.mp hq
      obtain ⟨hmem, -⟩ := List.mem_filter.mp hx
      obtain ⟨c, body, fd', info, -, -, rfl⟩ := ClientHandler.mem_delivery.mp hmem
      exact (Option.some.inj hpayload).symm
    rw [show fillsReported [p] = [] by simp [fillsReported, hnone], List.filter_nil]
    refine List.filterMap_eq_nil_iff.mpr fun q hq => ?_
    rw [hpayloads q hq, hnone]

/-- What the messages told stays told. -/
theorem tells_after (hroute :
    (s.after l).handler.clientToSockFd.lookup n.clientId = some fd) {x : Written} {q : OePayload}
    (h : s.Tells fd n.clientId x q) : (s.after l).Tells fd n.clientId x q := by
  obtain ⟨orderId, hbody, hmem⟩ := h
  exact ⟨orderId, hbody, fun hno => mem_sessionOrders_after (hmem hno) hroute⟩

/-- The fills that the socket is told by an event are the client's fills that the handler takes. -/
theorem fills_messagesOf (ha : Attended fd n old s) (hfd : fd ≠ -1) (l : ExchangeEvent) :
    (fillsReported (s.after l).broker.toClient.taken).filter (fun f => f.clientId = n.clientId) =
      (fillsReported s.broker.toClient.taken).filter (fun f => f.clientId = n.clientId) ++
        fillsReported (payloadsTo fd (s.messagesOf l)) := by
  by_cases hturn : ∃ w, l = .handlerTurn w
  · obtain ⟨w, rfl⟩ := hturn
    rw [toClient_handlerTurn, messagesOf]
    cases hp : s.broker.toClient.front? with
    | none =>
      rw [Fifo.pop_of_front?_eq_none hp]
      exact (List.append_nil _).symm
    | some p =>
      rw [Fifo.taken_pop hp, fillsReported_append, List.filter_append]
      exact congrArg _ (ha.fills_delivery hfd hp).symm
  · -- nothing is taken, and nothing is told of a payload
    have htold : payloadsTo fd (s.messagesOf l) = [] := by
      refine payloadsTo_eq_nil fun x hx _ => ?_
      cases hq : x.payload with
      | none => rfl
      | some q => exact absurd (delivery_of_mem_messagesOf hx hq).1 hturn
    have htaken := taken_after_of_ne ha.sound fun w hw => hturn ⟨w, hw⟩
    rw [htaken, htold]
    exact (List.append_nil _).symm

/-- **Every step** in which the client stays in its session. -/
theorem step (ha : Attended fd n old s) (hfd : fd ≠ -1) (hstays : s.StaysIn fd n l)
    (hkeep : s.KeepsOwners l) (hsides : s.KeepsSides n.clientId l) (hstep : ExchangeStep s l t) :
    Attended fd n old t := by
  have hsound := ha.sound.step hstep
  have hfits := ha.fits.step hstep
  have howners := owners_step ha.owners hstep
  obtain ⟨books, haccounted⟩ := ha.accounted
  have haccounted' := haccounted.step ha.sound ha.owners hkeep hsides hstep
  obtain ⟨-, rfl⟩ := hstep
  have hroute : (s.after l).handler.clientToSockFd.lookup n.clientId = some fd := by
    obtain ⟨info, hinfo, hname⟩ := ClientHandler.exists_info hstays
    exact hname ▸ hfits.agree fd info hinfo
  refine ⟨hsound, hfits, howners, hstays, ha.alone.step hstays, haccounted', ?_, fun x hx => ?_, ?_⟩
  · intro e orderId hknown
    rcases known_or_admits hknown with hold | ⟨sockFd, msg, rfl, hadm, hclient, horderId⟩
    · exact mem_sessionOrders_after (ha.known e orderId hold) hroute
    · -- the order came over the session of its client
      have hsession := ClientHandler.validateSession_iff.mp hadm.1
      obtain ⟨info, hinfo, hname⟩ := ClientHandler.exists_info hsession
      have hold : s.handler.clientToSockFd.lookup n.clientId = some sockFd := by
        have hagree := ha.fits.agree sockFd info hinfo
        rw [show info.clientId = msg.header.clientId from congrArg SessionName.clientId hname] at hagree
        rwa [← hclient] at hagree
      obtain rfl := Option.some.inj (ha.route.symm.trans hold)
      refine List.mem_filter.mpr ⟨?_, decide_eq_true hroute⟩
      rw [noteEntry, if_pos hadm, ← hclient, ← horderId]
      exact List.mem_append_right _ (List.mem_singleton_self _)
  · rw [written_after] at hx
    rcases List.mem_append.mp hx with hx | hx
    · exact ha.formed x hx
    · exact wellFormed_of_mem_messagesOf hx
  · obtain ⟨xs, hwritten, htells, hfills⟩ := ha.told
    refine ⟨xs ++ s.messagesOf l, ?_, ?_, ?_⟩
    · rw [written_after, hwritten, List.append_assoc]
    · intro x hx hsock q hq
      rcases List.mem_append.mp hx with hx | hx
      · obtain ⟨htaken, htold⟩ := htells x hx hsock q hq
        exact ⟨mem_taken_after ha.sound htaken, tells_after hroute htold⟩
      · obtain ⟨⟨w, rfl⟩, hfront, hdelivery⟩ := delivery_of_mem_messagesOf hx hq
        refine ⟨?_, tells_after hroute (ha.tells_of_delivery hdelivery hsock).2⟩
        rw [toClient_handlerTurn, Fifo.taken_pop hfront]
        exact List.mem_append_right _ (List.mem_singleton_self q)
    · rw [payloadsTo_append, fillsReported_append, hfills, ha.fills_messagesOf hfd l]

/-- **A client that entered no order** yet is attended from its session on. -/
theorem start {symbols : List SymbolDefinition} {users : AList fun _ : List UInt8 => UserInfo}
    {ls : List ExchangeEvent} (h : Run (Guarded KeepsOwners ExchangeStep) (start symbols users) ls s)
    (hsession : s.handler.session fd = some n) (halone : s.Alone fd n.clientId)
    (hnone : ∀ p ∈ s.handler.toMatchingEngine.items, p.msgType = .newOrder →
      p.clientId ≠ n.clientId) : Attended fd n s.handler.written s := by
  have hrun := h.of_guarded
  have howners := owners_run hrun
  obtain ⟨books, haccounted⟩ := accounted_run h hnone
  refine ⟨sound_run hrun, historyFits_run hrun, howners, hsession, halone, ⟨books, haccounted⟩, ?_,
    wellFormed_run hrun, [], (List.append_nil _).symm, by simp, ?_⟩
  · intro e orderId hknown
    obtain ⟨symbol, r, hr, hnew, -, hclient, -⟩ := howners.known _ _ hknown
    exact absurd hclient (hnone r hr hnew)
  · -- a fill would be of an order that the client entered
    refine (List.filter_eq_nil_iff.mpr fun f hf hclient => ?_).symm
    obtain ⟨q, hq, hreport⟩ := List.mem_filterMap.mp hf
    obtain ⟨hfill, rfl⟩ := OePayload.fill?_eq_some.mp hreport
    have hitem : q ∈ s.broker.toClient.items := by
      rw [← Fifo.taken_append_pending]
      exact List.mem_append_left _ hq
    obtain ⟨r, hr, hnew, -, hrclient⟩ := haccounted.attributed.1 q hitem hfill
    refine hnone r ?_ hnew (hrclient.trans (of_decide_eq_true hclient))
    rw [← Fifo.taken_append_pending]
    exact List.mem_append_left _ hr

end Attended

end Exchange

end Ndfex
