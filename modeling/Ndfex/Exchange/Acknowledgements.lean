import Ndfex.Exchange.Messages
import Ndfex.MatchingEngine.Acknowledgements

/-!
# Acknowledgements of new orders

The engine acknowledges every new order, and the handler passes the acknowledgement on if it still
knows the order. It forgets an order that is filled. So the client hears of its order unless the
orders at rest fill it on entry: then the fill that ends it comes before its acknowledgement.

## Main definitions

* `acksWritten`: the acknowledgements of an order that were written to a socket
* `Exchange.LeavesRest`: the engine does not take the order to fill it on entry
* `Exchange.StaysIn`: the event leaves the session of a socket
* `Exchange.Acking`: an order on its way, with as many written acknowledgements as were taken

## Main results

* `Exchange.acknowledgements_after`: an event acknowledges the order exactly if the engine takes it and
  leaves a rest
* `new_order_acknowledged`: with the queues empty, exactly one acknowledgement was written if and only
  if the order was not filled on entry
* `filled_order_unacknowledged`: an order that is filled on entry is not acknowledged
-/

namespace Ndfex

open Containers Transition

/-! ## Written acknowledgements -/

/-- The message acknowledges the order. -/
def ResponseBody.Acknowledges (orderId exchOrderId : UInt64) : ResponseBody → Prop
  | .ack o e _ _ => o = orderId ∧ e = exchOrderId
  | _ => False

instance (orderId exchOrderId : UInt64) :
    DecidablePred (ResponseBody.Acknowledges orderId exchOrderId)
  | .ack o e _ _ => inferInstanceAs (Decidable (o = orderId ∧ e = exchOrderId))
  | .loginResponse .. => instDecidableFalse
  | .reject .. => instDecidableFalse
  | .fill .. => instDecidableFalse
  | .closed _ => instDecidableFalse
  | .error .. => instDecidableFalse

/-- The acknowledgements of an order that were written to a socket. -/
def acksWritten (fd : Int32) (orderId exchOrderId : UInt64) (xs : List Written) : List Written :=
  xs.filter fun x => x.sockFd = fd ∧ x.response.body.Acknowledges orderId exchOrderId

namespace ClientHandler

variable {h : ClientHandler} {p : OePayload} {c : UInt32} {fd : Int32} {orderId e : UInt64}

/-- An acknowledgement is written for an acknowledgement of a known order. -/
theorem ack_of_reply {body : ResponseBody} (hr : h.reply p = some (c, body))
    (hack : body.Acknowledges orderId e) :
    p.msgType = .ack ∧ p.exchOrderId = e ∧
      h.exchToClientOrders.lookup e = some ⟨c, orderId⟩ := by
  unfold reply at hr
  split_ifs at hr with hreject
  · obtain ⟨rfl, rfl⟩ := Prod.mk.inj (Option.some.inj hr)
    exact hack.elim
  · obtain ⟨order, horder, hr⟩ := Option.bind_eq_some_iff.mp hr
    split at hr
    case h_1 htype =>
      obtain ⟨rfl, rfl⟩ := Prod.mk.inj (Option.some.inj hr)
      obtain ⟨rfl, rfl⟩ := hack
      exact ⟨htype, rfl, horder⟩
    case h_4 => cases hr
    all_goals
      obtain ⟨rfl, rfl⟩ := Prod.mk.inj (Option.some.inj hr)
      exact hack.elim

/-- **A turn of the loop** writes one acknowledgement of an order to the session of its client, if that
is the response and the order is known. -/
theorem acks_delivery (hknown : ∀ order, h.exchToClientOrders.lookup e = some order →
      order = ⟨c, orderId⟩) {info : SessionInfo} (hrouted : h.routed c = some (fd, info)) :
    (acksWritten fd orderId e (h.delivery p)).length =
      if p.msgType = .ack ∧ p.exchOrderId = e ∧ (h.exchToClientOrders.lookup e).isSome then 1
      else 0 := by
  split_ifs with hack
  · obtain ⟨htype, rfl, hsome⟩ := hack
    obtain ⟨order, horder⟩ := Option.isSome_iff_exists.mp hsome
    obtain rfl := hknown order horder
    have hreply : h.reply p = some (c, .ack orderId p.exchOrderId p.quantity p.price.toInt32) := by
      simp [reply, htype, horder]
    have hdelivery : h.delivery p = [⟨fd, some p, ⟨SessionInfo.header
        { info with lastSeqNum := p.clientSeq }
        (.ack orderId p.exchOrderId p.quantity p.price.toInt32),
        .ack orderId p.exchOrderId p.quantity p.price.toInt32⟩⟩] := by
      simp [delivery, hreply, clientMessage, hrouted]
    simp [hdelivery, acksWritten, ResponseBody.Acknowledges]
  · rw [List.length_eq_zero_iff, acksWritten, List.filter_eq_nil_iff]
    intro x hx hwritten
    obtain ⟨c', body, fd', info', hreply, -, rfl⟩ := mem_delivery.mp hx
    obtain ⟨htype, hid, horder⟩ := ack_of_reply hreply (of_decide_eq_true hwritten).2
    exact hack ⟨htype, hid, by rw [horder]; rfl⟩

end ClientHandler

namespace Exchange

variable {s t : Exchange} {l : ExchangeEvent} {fd : Int32} {n : SessionName} {orderId e : UInt64}

/-- The engine does not take the order to fill it on entry. -/
def LeavesRest (e : UInt64) (s : Exchange) : ExchangeEvent → Prop
  | .engineTurn => ∀ p ∈ s.handler.toMatchingEngine.front?, p.msgType = .newOrder →
    p.exchOrderId = e → ¬ s.broker.FilledOnEntry p
  | _ => True

instance (e : UInt64) (s : Exchange) : DecidablePred (s.LeavesRest e)
  | .engineTurn => inferInstanceAs (Decidable (∀ p ∈ s.handler.toMatchingEngine.front?,
      p.msgType = .newOrder → p.exchOrderId = e → ¬ s.broker.FilledOnEntry p))
  | .login .. => instDecidableTrue
  | .newOrder .. => instDecidableTrue
  | .deleteOrder .. => instDecidableTrue
  | .modifyOrder .. => instDecidableTrue
  | .socketClosed .. => instDecidableTrue
  | .handlerTurn _ => instDecidableTrue
  | .heartbeat => instDecidableTrue

/-- The event leaves the socket to the session. -/
def StaysIn (fd : Int32) (n : SessionName) (s : Exchange) (l : ExchangeEvent) : Prop :=
  (s.after l).handler.session fd = some n

instance (fd : Int32) (n : SessionName) (s : Exchange) : DecidablePred (s.StaysIn fd n) := fun l =>
  inferInstanceAs (Decidable ((s.after l).handler.session fd = some n))

/-! ## The responses -/

/-- Acknowledgements are of orders that the engine took. -/
structure AcksEntered (s : Exchange) : Prop where
  responses : ∀ p ∈ s.broker.toClient.items, p.msgType = .ack →
    p.exchOrderId ∈ newIds s.handler.toMatchingEngine.taken
  written : ∀ x ∈ s.handler.written, ∀ o e, x.response.body.Acknowledges o e →
    e ∈ newIds s.handler.toMatchingEngine.taken

/-- The requests that the engine took after an event. -/
theorem newIds_taken_after (hs : s.Sound) (he : e ∈ newIds s.handler.toMatchingEngine.taken) :
    e ∈ newIds (s.after l).handler.toMatchingEngine.taken := by
  by_cases hl : l = .engineTurn
  swap
  · rwa [taken_after hl]
  subst hl
  obtain ⟨-, -, books, ha⟩ := hs
  cases hp : s.handler.toMatchingEngine.front? with
  | none =>
    have hsame : s.after .engineTurn = s := by simp only [after, engineTurn, hp]
    rwa [hsame]
  | some p =>
    rw [after_engineTurn ha hp]
    show e ∈ newIds s.handler.toMatchingEngine.pop.taken
    rw [Fifo.taken_pop hp, newIds_append]
    exact List.mem_append_left _ he

theorem AcksEntered.step (hk : s.AcksEntered) (hs : s.Sound) (l : ExchangeEvent) :
    (s.after l).AcksEntered := by
  refine ⟨fun p hp hack => ?_, fun x hx o e hack => ?_⟩
  · by_cases hl : l = .engineTurn
    swap
    · rw [responses_after_of_ne hl] at hp
      exact newIds_taken_after hs (hk.responses p hp hack)
    subst hl
    obtain ⟨-, -, books, ha⟩ := id hs
    cases hq : s.handler.toMatchingEngine.front? with
    | none =>
      have hsame : s.after .engineTurn = s := by simp only [after, engineTurn, hq]
      rw [hsame] at hp ⊢
      exact hk.responses p hp hack
    | some q =>
      rw [responses_engineTurn ha hq] at hp
      rcases List.mem_append.mp hp with hp | hp
      · exact newIds_taken_after hs (hk.responses p hp hack)
      -- the engine acknowledges what it enters or what it modifies at rest
      obtain ⟨hid, hnew | ⟨-, hrests⟩⟩ := MatchingEngineBroker.ack_mem_responses hp hack
      · rw [after_engineTurn ha hq]
        show p.exchOrderId ∈ newIds s.handler.toMatchingEngine.pop.taken
        rw [Fifo.taken_pop hq]
        exact mem_newIds.mpr ⟨q, by simp, hnew, hid.symm⟩
      · rw [hid]
        exact newIds_taken_after hs ((ha.rests _).mp ⟨_, hrests⟩).1
  · rw [written_after] at hx
    rcases List.mem_append.mp hx with hx | hx
    · exact newIds_taken_after hs (hk.written x hx o e hack)
    cases l with
    | login fd msg sessionId w =>
      rcases ClientHandler.body_greetings hx with ⟨id, status, hbody⟩ | ⟨code, text, hbody⟩
      · rw [hbody] at hack
        exact hack.elim
      · rw [hbody] at hack
        exact hack.elim
    | handlerTurn w =>
      unfold messagesOf at hx
      cases hp : s.broker.toClient.front? with
      | none => simp [hp] at hx
      | some p =>
        simp only [hp] at hx
        obtain ⟨c, body, fd, info, hreply, -, rfl⟩ := ClientHandler.mem_delivery.mp hx
        obtain ⟨htype, rfl, -⟩ := ClientHandler.ack_of_reply hreply hack
        exact newIds_taken_after hs (hk.responses p (Fifo.mem_items_of_front? hp) htype)
    | _ => cases hx

theorem acksEntered_run {symbols : List SymbolDefinition}
    {users : AList fun _ : List UInt8 => UserInfo} {ls : List ExchangeEvent}
    (h : Run ExchangeStep (start symbols users) ls s) : s.AcksEntered := by
  induction h with
  | nil =>
    refine ⟨fun p hp => ?_, ?_⟩
    · rw [toClient_start] at hp
      cases hp
    · rintro x ⟨⟩
  | snoc run step ih =>
    obtain ⟨-, rfl⟩ := step
    exact ih.step (sound_run run) _

/-- Nothing acknowledges an order that the engine has not taken. -/
theorem AcksEntered.acknowledgements_eq_zero (hk : s.AcksEntered)
    (he : e ∉ newIds s.handler.toMatchingEngine.taken) :
    acknowledgements e s.broker.toClient.items = 0 :=
  Ndfex.acknowledgements_eq_zero fun p hp hack hid => he (hid ▸ hk.responses p hp hack)

/-- **An event acknowledges** an order that is never modified and no IOC order exactly if the engine
takes it and leaves a rest. -/
theorem acknowledgements_after (hk : s.AcksEntered) (hs : s.Sound)
    (hplain : ∀ p ∈ s.handler.toMatchingEngine.items, p.exchOrderId = e →
      p.msgType ≠ .modifyOrder ∧ (p.msgType = .newOrder → isIoc p.flags = false))
    (he : e ∈ newIds (s.after l).handler.toMatchingEngine.taken) :
    acknowledgements e (s.after l).broker.toClient.items =
      if e ∈ newIds s.handler.toMatchingEngine.taken then
        acknowledgements e s.broker.toClient.items
      else if s.LeavesRest e l then 1 else 0 := by
  -- only a turn of the engine takes requests and responds
  by_cases hl : l = .engineTurn
  swap
  · rw [taken_after hl] at he
    rw [if_pos he, responses_after_of_ne hl]
  subst hl
  obtain ⟨-, -, books, ha⟩ := id hs
  cases hp : s.handler.toMatchingEngine.front? with
  | none =>
    have hsame : s.after .engineTurn = s := by simp only [after, engineTurn, hp]
    rw [hsame] at he ⊢
    rw [if_pos he]
  | some p =>
    have hmem := Fifo.mem_items_of_front? hp
    rw [responses_engineTurn ha hp]
    rw [after_engineTurn ha hp] at he
    have he' : e ∈ newIds (s.handler.toMatchingEngine.taken ++ [p]) := by
      rw [← Fifo.taken_pop hp]
      exact he
    rw [newIds_append, List.mem_append] at he'
    split_ifs with hold hrest
    · -- the request is not the order's, and does not modify it
      refine acknowledgements_append_right fun r hr hack hid => ?_
      obtain ⟨hrid, hnew | ⟨hmodify, -⟩⟩ := MatchingEngineBroker.ack_mem_responses hr hack
      · have hfresh := ha.fresh hp
        rw [newIds_append, List.nodup_append] at hfresh
        refine hfresh.2.2 e hold e (mem_newIds.mpr ⟨p, by simp, hnew, ?_⟩) rfl
        rw [← hrid, hid]
      · exact (hplain p hmem (hrid ▸ hid)).1 hmodify
    all_goals
      obtain ⟨q, hq, hnew, hid⟩ := mem_newIds.mp (he'.resolve_left hold)
      obtain rfl := List.mem_singleton.mp hq
      -- the request is the order's own, which the handler admitted
      have hladder : (s.broker.symbolToMatchingEngine.lookup q.symbol).isSome ∧ 0 < q.quantity := by
        rcases ha.admitted q hmem with hreject | ⟨hknows, hwhich⟩
        · rw [hnew] at hreject
          cases hreject
        · refine ⟨ha.symbols _ hknows, ?_⟩
          rcases hwhich with ⟨-, hpos⟩ | hdelete | hmodify
          · exact hpos
          · rw [hnew] at hdelete
            cases hdelete
          · rw [hnew] at hmodify
            cases hmodify
      have hentry := ha.sound.acknowledgements_entry (ha.fresh hp) hnew hladder.1 hladder.2
        ((hplain q hmem hid).2 hnew)
      have hnone : ¬ Terminated e s.broker.toClient.items := fun hterm => hold (ha.answered e hterm)
      rw [hid] at hentry
      rw [acknowledgements_append hnone, hk.acknowledgements_eq_zero hold, Nat.zero_add, hentry]
    · exact if_neg (hrest q hp hnew hid)
    · refine if_pos ?_
      by_contra hnot
      refine hrest fun q' hq' _ _ => ?_
      obtain rfl := Option.some.inj (hp.symm.trans hq')
      exact hnot

/-! ## An order on its way -/

/-- An id that was given keeps its order, as long as it is known. -/
theorem known_after (he : e ∈ newIds s.handler.toMatchingEngine.items)
    (hnd : (newIds (s.after l).handler.toMatchingEngine.items).Nodup) {order : ExchOrder}
    (horder : (s.after l).handler.exchToClientOrders.lookup e = some order) :
    s.handler.exchToClientOrders.lookup e = some order := by
  have hsame : ∀ h' : ClientHandler, h'.exchToClientOrders = s.handler.exchToClientOrders →
      h'.exchToClientOrders.lookup e = some order →
        s.handler.exchToClientOrders.lookup e = some order := fun h' heq h => heq ▸ h
  refine handler_after (s := s) (l := l)
    (I := fun h' => (newIds h'.toMatchingEngine.items).Nodup →
      h'.exchToClientOrders.lookup e = some order →
        s.handler.exchToClientOrders.lookup e = some order) (fun _ h => h)
    ?_ ?_ ?_ ?_ (fun _ _ h => h) hnd horder
  · rintro fd msg sessionId w - -
    rcases @ClientHandler.kept_onLogin w s.handler fd msg sessionId with hk | ⟨-, hk⟩
    · exact hsame _ hk.exch
    · exact hsame _ hk.exch
  · rintro fd m - hnd
    rcases s.handler.receive_cases fd m with
      ⟨reason, -, hreject⟩ | ⟨-, ⟨p, -, hforward⟩ | ⟨msg, now, -, -, hentry⟩⟩
    · rw [hreject]
      exact hsame _ rfl
    · rw [hforward]
      exact hsame _ rfl
    · -- the clock gives no id twice
      rw [hentry] at hnd ⊢
      have hne : e ≠ now := by
        rintro rfl
        have hitems : newIds ((s.handler.enter msg e).emplace
            (ClientHandler.newPayload msg e)).toMatchingEngine.items =
              newIds s.handler.toMatchingEngine.items ++ [e] := newIds_append ..
        rw [hitems, List.nodup_append] at hnd
        exact hnd.2.2 e he e (by simp) rfl
      intro h
      exact (AList.lookup_insert_ne hne).symm.trans h
  · exact fun fd w _ _ => hsame _ (@ClientHandler.kept_onSocketClosed none w s.handler fd).exch
  · rintro p w - - -
    rcases s.handler.handle_cases p w with ⟨-, o, h', -, hk, hhandle⟩ | ⟨-, hk⟩
    · rw [hhandle]
      intro h
      rw [← hk.exch]
      -- a terminal response takes its own order out, and no other
      by_cases he : e = p.exchOrderId
      · subst he
        have hnone : (h'.exchToClientOrders.erase p.exchOrderId).lookup p.exchOrderId = none :=
          AList.lookup_erase _ _
        rw [show (h'.forget p.exchOrderId o).exchToClientOrders.lookup p.exchOrderId = none from
          hnone] at h
        cases h
      · exact (AList.lookup_erase_ne he).symm.trans h
    · exact hsame _ hk.exch

/-- An order on its way between the client in its session and the engine: the handler knows it under
its client's id or not at all, and the client got the acknowledgements that were taken. -/
structure Acking (fd : Int32) (n : SessionName) (orderId e : UInt64) (s : Exchange) : Prop where
  sound : s.Sound
  fits : s.HistoryFits
  acks : s.AcksEntered
  session : s.handler.session fd = some n
  request : ∃ p ∈ s.handler.toMatchingEngine.items, p.msgType = .newOrder ∧ p.exchOrderId = e ∧
    isIoc p.flags = false
  known : ∀ order, s.handler.exchToClientOrders.lookup e = some order →
    order = ⟨n.clientId, orderId⟩
  counted : (acksWritten fd orderId e s.handler.written).length =
    acknowledgements e s.broker.toClient.taken

namespace Acking

theorem mem_newIds (ha : Acking fd n orderId e s) :
    e ∈ newIds s.handler.toMatchingEngine.items := by
  obtain ⟨p, hp, hnew, hid, -⟩ := ha.request
  exact Ndfex.mem_newIds.mpr ⟨p, hp, hnew, hid⟩

/-- The order's one request is no IOC order. -/
theorem plain (ha : Acking fd n orderId e s) {p : OePayload}
    (hp : p ∈ s.handler.toMatchingEngine.items) (hnew : p.msgType = .newOrder)
    (hid : p.exchOrderId = e) : isIoc p.flags = false := by
  obtain ⟨q, hq, hqnew, hqid, hioc⟩ := ha.request
  obtain ⟨-, -, books, hagreed⟩ := ha.sound
  rw [eq_of_newOrder hagreed.assigned hp hq hnew hqnew (hid.trans hqid.symm)]
  exact hioc

/-- A turn of the handler's loop writes the acknowledgement that it takes. -/
theorem counted_handlerTurn (ha : Acking fd n orderId e s) (hfd : fd ≠ -1) (p : OePayload) :
    (acksWritten fd orderId e (s.handler.written ++ s.handler.delivery p)).length =
      acknowledgements e (s.broker.toClient.taken ++ [p]) := by
  obtain ⟨-, -, books, hagreed⟩ := ha.sound
  obtain ⟨info, hinfo, hname⟩ := ClientHandler.exists_info ha.session
  have hroute : s.handler.clientToSockFd.lookup n.clientId = some fd := by
    rw [← hname]
    exact ha.fits.agree fd info hinfo
  have hdelivery := ClientHandler.acks_delivery (p := p) ha.known
    (ClientHandler.routed_eq_some.mpr ⟨hroute, hfd, hinfo⟩)
  rw [acksWritten, List.filter_append, List.length_append]
  show (acksWritten ..).length + (acksWritten ..).length = _
  rw [ha.counted, hdelivery]
  -- the order is known until its end is taken
  have hexch := hagreed.exch e
  by_cases hterm : Terminated e s.broker.toClient.taken
  · rw [acknowledgements_append_of_terminated hterm,
      if_neg fun h => (hexch.mp h.2.2).2 hterm, Nat.add_zero]
  · rw [acknowledgements_append hterm]
    congr 1
    by_cases hack : p.msgType = .ack ∧ p.exchOrderId = e
    · have hnot : ¬ (p.Terminal ∧ p.exchOrderId = e) := by
        simp [OePayload.Terminal, hack.1]
      rw [acknowledgements, if_neg hnot, if_pos hack,
        if_pos ⟨hack.1, hack.2, hexch.mpr ⟨ha.mem_newIds, hterm⟩⟩]
      rfl
    · rw [if_neg fun h => hack ⟨h.1, h.2.1⟩, acknowledgements, if_neg hack]
      split_ifs <;> rfl

/-- **Every step** that leaves the session keeps the acknowledgements of the order counted. -/
theorem step (ha : Acking fd n orderId e s) (hfd : fd ≠ -1) (h : ExchangeStep s l t)
    (hstays : s.StaysIn fd n l) : Acking fd n orderId e t := by
  obtain ⟨hen, rfl⟩ := h
  have hsound := ha.sound.step ⟨hen, rfl⟩
  obtain ⟨-, -, books, hagreed⟩ := id hsound
  refine ⟨hsound, ha.fits.step ⟨hen, rfl⟩, ha.acks.step ha.sound l, hstays, ?_, ?_, ?_⟩
  · obtain ⟨p, hp, hrest⟩ := ha.request
    obtain ⟨ps, hitems⟩ := items_after ha.fits l
    exact ⟨p, hitems ▸ List.mem_append_left ps hp, hrest⟩
  · exact fun order horder => ha.known order (known_after ha.mem_newIds hagreed.assigned horder)
  · rw [written_after]
    cases l with
    | handlerTurn w =>
      rw [toClient_handlerTurn]
      unfold messagesOf
      cases hp : s.broker.toClient.front? with
      | none =>
        rw [Fifo.pop_of_front?_eq_none hp, List.append_nil]
        exact ha.counted
      | some p =>
        rw [Fifo.taken_pop hp]
        exact ha.counted_handlerTurn hfd p
    | login sockFd msg sessionId w =>
      -- a login is answered by responses to logins and by errors
      have hgreetings : acksWritten fd orderId e (s.handler.greetings sockFd msg sessionId) = [] := by
        refine List.filter_eq_nil_iff.mpr fun x hx hack => ?_
        have hack := (of_decide_eq_true hack).2
        rcases ClientHandler.body_greetings hx with ⟨id, status, hbody⟩ | ⟨code, text, hbody⟩
        · rw [hbody] at hack
          exact hack
        · rw [hbody] at hack
          exact hack
      have hwritten : acksWritten fd orderId e (s.handler.written ++
          s.messagesOf (.login sockFd msg sessionId w)) =
            acksWritten fd orderId e s.handler.written := by
        rw [acksWritten, List.filter_append]
        show acksWritten .. ++ acksWritten fd orderId e (s.handler.greetings sockFd msg sessionId) = _
        rw [hgreetings, List.append_nil]
      rw [hwritten]
      exact ha.counted
    | engineTurn =>
      -- the engine adds responses, and takes none
      have htaken : (s.after .engineTurn).broker.toClient.taken = s.broker.toClient.taken := by
        obtain ⟨-, -, books, hbefore⟩ := ha.sound
        cases hp : s.handler.toMatchingEngine.front? with
        | none => simp only [after, engineTurn, hp]
        | some p =>
          rw [after_engineTurn hbefore hp]
          exact (hbefore.sound.handle (hbefore.fresh hp)).1.taken
      rw [htaken]
      simpa [messagesOf] using ha.counted
    | _ =>
      rw [toClient_after (by simp) (by simp)]
      simpa [messagesOf] using ha.counted

/-- An admitted order that is no IOC order is on its way. -/
theorem of_admits (hs : s.Sound) (hn : s.HistoryFits) (hk : s.AcksEntered) {msg : NewOrder}
    {now : UInt64} (hadm : s.handler.Admits fd msg) (hioc : isIoc msg.flags = false)
    (h : ExchangeStep s (.newOrder fd msg now) t)
    (hstays : s.StaysIn fd n (.newOrder fd msg now)) :
    n.clientId = msg.header.clientId ∧ Acking fd n msg.orderId now t ∧
      now ∉ newIds t.handler.toMatchingEngine.taken := by
  obtain ⟨hen, rfl⟩ := h
  have hsound := hs.step ⟨hen, rfl⟩
  have hhandler : (s.after (.newOrder fd msg now)).handler =
      (s.handler.enter msg now).emplace (ClientHandler.newPayload msg now) :=
    ClientHandler.onNewOrder_of_admits hadm now
  have hbroker : (s.after (.newOrder fd msg now)).broker.toClient = s.broker.toClient :=
    toClient_after (by simp) (by simp)
  have htaken : (s.after (.newOrder fd msg now)).handler.toMatchingEngine.taken =
      s.handler.toMatchingEngine.taken := taken_after (by simp)
  -- the id is new
  have hnew : now ∉ newIds s.handler.toMatchingEngine.items := by
    obtain ⟨-, -, books, hagreed⟩ := id hsound
    have hnd := hagreed.assigned
    have hitems : newIds (s.after (.newOrder fd msg now)).handler.toMatchingEngine.items =
        newIds s.handler.toMatchingEngine.items ++ [now] := by
      rw [hhandler]
      exact newIds_append ..
    rw [hitems, List.nodup_append] at hnd
    exact fun hmem => hnd.2.2 now hmem now (by simp) rfl
  have hnot : now ∉ newIds s.handler.toMatchingEngine.taken := fun h => hnew (mem_newIds_items h)
  have hclient : n.clientId = msg.header.clientId := by
    have hsession : (s.after (.newOrder fd msg now)).handler.session fd =
        s.handler.session fd := by
      rw [hhandler]
      rfl
    have hname := hsession.symm.trans hstays
    rw [ClientHandler.validateSession_iff.mp hadm.1] at hname
    exact congrArg SessionName.clientId (Option.some.inj hname).symm
  refine ⟨hclient, ⟨hsound, hn.step ⟨hen, rfl⟩, hk.step hs _, hstays, ?_, ?_, ?_⟩, ?_⟩
  · rw [hhandler]
    exact ⟨ClientHandler.newPayload msg now, List.mem_append_right _ (List.mem_singleton_self _),
      rfl, rfl, hioc⟩
  · intro order horder
    rw [hhandler] at horder
    have hlookup := (AList.lookup_insert s.handler.exchToClientOrders).symm.trans horder
    rw [hclient]
    exact (Option.some.inj hlookup).symm
  · have hnone : acksWritten fd msg.orderId now s.handler.written = [] := by
      refine List.filter_eq_nil_iff.mpr fun x hx hack => ?_
      exact hnot (hk.written x hx _ _ (of_decide_eq_true hack).2)
    have hzero : acknowledgements now s.broker.toClient.taken = 0 := by
      refine acknowledgements_eq_zero fun p hp hack hid => hnot ?_
      rw [← hid]
      refine hk.responses p ?_ hack
      rw [← Fifo.taken_append_pending]
      exact List.mem_append_left _ hp
    rw [hbroker, hzero, hhandler]
    show (acksWritten fd msg.orderId now s.handler.written).length = 0
    rw [hnone]
    rfl
  · rw [htaken]
    exact hnot

/-- The order is never modified on the way to a state where it is not. -/
theorem plain_of_unmodified (ha : Acking fd n orderId e s)
    (hmod : ∀ p ∈ (s.after l).handler.toMatchingEngine.items, p.msgType = .modifyOrder →
      p.exchOrderId ≠ e) :
    (∀ p ∈ s.handler.toMatchingEngine.items, p.msgType = .modifyOrder → p.exchOrderId ≠ e) ∧
      ∀ p ∈ s.handler.toMatchingEngine.items, p.exchOrderId = e →
        p.msgType ≠ .modifyOrder ∧ (p.msgType = .newOrder → isIoc p.flags = false) := by
  obtain ⟨ps, hitems⟩ := items_after ha.fits l
  have hbefore : ∀ p ∈ s.handler.toMatchingEngine.items, p.msgType = .modifyOrder →
      p.exchOrderId ≠ e := fun p hp => hmod p (hitems ▸ List.mem_append_left ps hp)
  exact ⟨hbefore, fun p hp hid => ⟨fun hmodify => hbefore p hp hmodify hid,
    fun hnew => ha.plain hp hnew hid⟩⟩

/-- The engine takes the order in the step that leaves no rest. -/
theorem entered_of_not_leavesRest (ha : Acking fd n orderId e s) (hrest : ¬ s.LeavesRest e l) :
    e ∈ newIds (s.after l).handler.toMatchingEngine.taken ∧
      e ∉ newIds s.handler.toMatchingEngine.taken := by
  cases l with
  | engineTurn =>
    obtain ⟨-, -, books, hagreed⟩ := ha.sound
    simp only [LeavesRest, not_forall, not_not] at hrest
    obtain ⟨p, hp, hnew, hid, -⟩ := hrest
    have hfresh := hagreed.fresh hp
    rw [newIds_append, List.nodup_append] at hfresh
    have hmem : e ∈ newIds [p] := Ndfex.mem_newIds.mpr ⟨p, by simp, hnew, hid⟩
    refine ⟨?_, fun hold => hfresh.2.2 e hold e hmem rfl⟩
    rw [after_engineTurn hagreed hp]
    show e ∈ newIds s.handler.toMatchingEngine.pop.taken
    rw [Fifo.taken_pop hp, newIds_append]
    exact List.mem_append_right _ hmem
  | _ => exact absurd trivial hrest

/-- A run that leaves the session keeps the acknowledgements of the order counted. -/
theorem run (ha : Acking fd n orderId e s) (hfd : fd ≠ -1) {ls : List ExchangeEvent}
    (h : Run (Guarded (StaysIn fd n) ExchangeStep) s ls t) : Acking fd n orderId e t :=
  h.invariant (fun _ _ _ ha hstep => ha.step hfd hstep.2 hstep.1) ha

/-- **Along a run** that leaves a rest of the order, the engine acknowledges it once. -/
theorem acknowledged (ha : Acking fd n orderId e s) (hfd : fd ≠ -1)
    (hnot : e ∉ newIds s.handler.toMatchingEngine.taken) {ls : List ExchangeEvent}
    (h : Run (Guarded (fun s l => s.StaysIn fd n l ∧ s.LeavesRest e l) ExchangeStep) s ls t)
    (hmod : ∀ p ∈ t.handler.toMatchingEngine.items, p.msgType = .modifyOrder → p.exchOrderId ≠ e)
    (he : e ∈ newIds t.handler.toMatchingEngine.taken) :
    acknowledgements e t.broker.toClient.items = 1 := by
  induction h with
  | nil => exact absurd he hnot
  | @snoc u v ls l run step ih =>
    obtain ⟨⟨-, hrest⟩, -, rfl⟩ := step
    have hacking := ha.run hfd (run.mono fun _ _ _ h => ⟨h.1.1, h.2⟩)
    obtain ⟨hbefore, hplain⟩ := hacking.plain_of_unmodified hmod
    rw [acknowledgements_after hacking.acks hacking.sound hplain he, if_pos hrest]
    split_ifs with hold
    · exact ih hbefore hold
    · rfl

/-- **Along any run** the engine takes the order to fill it on entry, and acknowledges it too late, or
each of the steps leaves a rest. -/
theorem unacknowledged_or (ha : Acking fd n orderId e s) (hfd : fd ≠ -1) {ls : List ExchangeEvent}
    (h : Run (Guarded (StaysIn fd n) ExchangeStep) s ls t)
    (hmod : ∀ p ∈ t.handler.toMatchingEngine.items, p.msgType = .modifyOrder → p.exchOrderId ≠ e) :
    e ∈ newIds t.handler.toMatchingEngine.taken ∧ acknowledgements e t.broker.toClient.items = 0 ∨
      Run (Guarded (LeavesRest e) ExchangeStep) s ls t := by
  induction h with
  | nil => exact Or.inr (.nil _)
  | @snoc u v ls l run step ih =>
    obtain ⟨-, hstep⟩ := step
    have hacking := ha.run hfd run
    obtain ⟨hen, rfl⟩ := hstep
    obtain ⟨hbefore, hplain⟩ := hacking.plain_of_unmodified hmod
    rcases ih hbefore with ⟨hold, hzero⟩ | hrun
    · have he := newIds_taken_after (l := l) hacking.sound hold
      refine Or.inl ⟨he, ?_⟩
      rw [acknowledgements_after hacking.acks hacking.sound hplain he, if_pos hold, hzero]
    · by_cases hrest : u.LeavesRest e l
      · exact Or.inr (.snoc hrun ⟨hrest, hen, rfl⟩)
      · -- this is the turn of the engine that takes the order
        left
        obtain ⟨he, hold⟩ := hacking.entered_of_not_leavesRest hrest
        refine ⟨he, ?_⟩
        rw [acknowledgements_after hacking.acks hacking.sound hplain he, if_neg hold, if_neg hrest]

end Acking

end Exchange

/-- **Acknowledgement of new orders**: a client's order that is no IOC order is admitted, the client
stays in its session and does not modify the order, and at the end both queues are empty. Then exactly
one acknowledgement of the order was written to the client's socket, if and only if the engine did not
take the order when the orders at rest fill it. No socket has the descriptor `-1`. -/
theorem new_order_acknowledged {symbols : List SymbolDefinition}
    {users : AList fun _ : List UInt8 => UserInfo} {ls₁ ls₂ : List ExchangeEvent} {s₁ s : Exchange}
    {fd : Int32} {msg : NewOrder} {now : UInt64} {n : SessionName}
    (hbefore : Run ExchangeStep (Exchange.start symbols users) ls₁ s₁)
    (hadm : s₁.handler.Admits fd msg) (hioc : isIoc msg.flags = false) (hfd : fd ≠ -1)
    (hrun : Run (Guarded (Exchange.StaysIn fd n) ExchangeStep) s₁ (.newOrder fd msg now :: ls₂) s)
    (hmod : ∀ p ∈ s.handler.toMatchingEngine.items, p.msgType = .modifyOrder →
      p.exchOrderId ≠ now)
    (hrequests : s.handler.toMatchingEngine.pending = [])
    (hresponses : s.broker.toClient.pending = []) :
    (acksWritten fd msg.orderId now s.handler.written).length = 1 ↔
      Run (Guarded (Exchange.LeavesRest now) ExchangeStep) s₁ (.newOrder fd msg now :: ls₂) s := by
  have hdet : ∀ (s : Exchange) l t t', ExchangeStep s l t → ExchangeStep s l t' → t = t' :=
    fun _ _ _ _ h h' => h.2.trans h'.2.symm
  obtain ⟨t₁, ⟨hstays, hentry⟩, hrest⟩ := hrun.exists_first
  obtain ⟨-, hacking, hnot⟩ := Exchange.Acking.of_admits (Exchange.sound_run hbefore)
    (Exchange.historyFits_run hbefore) (Exchange.acksEntered_run hbefore) hadm hioc hentry hstays
  have hend := hacking.run hfd hrest
  -- with the queues empty every acknowledgement was taken, and every request
  rw [hend.counted, Fifo.taken_eq_items hresponses]
  have htaken : now ∈ newIds s.handler.toMatchingEngine.taken := by
    rw [Fifo.taken_eq_items hrequests]
    exact hend.mem_newIds
  constructor
  · intro hone
    rcases hacking.unacknowledged_or hfd hrest hmod with ⟨-, hzero⟩ | hleaves
    · omega
    · exact .cons ⟨trivial, hentry⟩ hleaves
  · intro hleaves
    obtain ⟨t₁', ⟨-, hentry'⟩, hleaves⟩ := hleaves.exists_first
    obtain rfl := hdet _ _ _ _ hentry hentry'
    exact hacking.acknowledged hfd hnot (hrest.guarded_and hdet hleaves) hmod htaken

/-- A buy order meets a smaller sell order, and what is left of it rests. -/
theorem new_order_acknowledged_partly :
    ∃ s, Run ExchangeStep
        ([.login 5 ⟨⟨1, 100, 0⟩, [97], [97]⟩ 7 .fine,
          .newOrder 5 ⟨⟨2, 100, 7⟩, 1, 1, Side.sell, 4, 50, 0⟩ 1000,
          .login 6 ⟨⟨1, 200, 0⟩, [98], [98]⟩ 8 .fine].foldl Exchange.after Exchange.startGold)
        [.newOrder 6 ⟨⟨2, 200, 8⟩, 1, 1, Side.buy, 10, 50, 0⟩ 1001,
          .engineTurn, .engineTurn, .handlerTurn .fine, .handlerTurn .fine, .handlerTurn .fine,
          .handlerTurn .fine] s ∧
      (acksWritten 6 1 1001 s.handler.written).length = 1 := by
  have hbefore : Run ExchangeStep Exchange.startGold
      [.login 5 ⟨⟨1, 100, 0⟩, [97], [97]⟩ 7 .fine,
        .newOrder 5 ⟨⟨2, 100, 7⟩, 1, 1, Side.sell, 4, 50, 0⟩ 1000,
        .login 6 ⟨⟨1, 200, 0⟩, [98], [98]⟩ 8 .fine] _ :=
    Exchange.run_of_enabled (by decide +kernel)
  have hrun : Run (Guarded (Exchange.StaysIn 6 ⟨8, 200⟩) ExchangeStep)
      ([.login 5 ⟨⟨1, 100, 0⟩, [97], [97]⟩ 7 .fine,
        .newOrder 5 ⟨⟨2, 100, 7⟩, 1, 1, Side.sell, 4, 50, 0⟩ 1000,
        .login 6 ⟨⟨1, 200, 0⟩, [98], [98]⟩ 8 .fine].foldl Exchange.after Exchange.startGold)
      [.newOrder 6 ⟨⟨2, 200, 8⟩, 1, 1, Side.buy, 10, 50, 0⟩ 1001,
        .engineTurn, .engineTurn, .handlerTurn .fine, .handlerTurn .fine, .handlerTurn .fine,
        .handlerTurn .fine] _ :=
    Exchange.guarded_run_of_enabled (by decide +kernel) (by decide +kernel)
  refine ⟨_, hrun.of_guarded, ?_⟩
  refine (new_order_acknowledged hbefore (by decide +kernel) (by decide) (by decide) hrun
    (by decide +kernel) (by decide +kernel) (by decide +kernel)).mpr ?_
  exact Exchange.guarded_run_of_enabled (by decide +kernel) (by decide +kernel)

/-- A buy order meets a sell order of its size: its fill is written, and no acknowledgement. -/
theorem filled_order_unacknowledged :
    ∃ s, Run ExchangeStep Exchange.startGold
        [.login 5 ⟨⟨1, 100, 0⟩, [97], [97]⟩ 7 .fine,
          .newOrder 5 ⟨⟨2, 100, 7⟩, 1, 1, Side.sell, 10, 50, 0⟩ 1000,
          .login 6 ⟨⟨1, 200, 0⟩, [98], [98]⟩ 8 .fine,
          .newOrder 6 ⟨⟨2, 200, 8⟩, 1, 1, Side.buy, 10, 50, 0⟩ 1001,
          .engineTurn, .engineTurn, .handlerTurn .fine, .handlerTurn .fine, .handlerTurn .fine,
          .handlerTurn .fine] s ∧
      s.handler.toMatchingEngine.pending = [] ∧ s.broker.toClient.pending = [] ∧
        s.handler.session 6 = some ⟨8, 200⟩ ∧
          (acksWritten 6 1 1001 s.handler.written).length = 0 ∧
            ∃ x ∈ s.handler.written, x.sockFd = 6 ∧
              x.response.body = .fill 1 10 50 FillFlags.closed :=
  ⟨_, Exchange.run_of_enabled (by decide +kernel), by decide +kernel, by decide +kernel,
    by decide +kernel, by decide +kernel, by decide +kernel⟩

end Ndfex
