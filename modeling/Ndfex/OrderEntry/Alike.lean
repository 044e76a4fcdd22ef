import Ndfex.OrderEntry.Deliveries
import Ndfex.OrderEntry.Requests

/-!
# Handlers that look alike to a client

Two handlers may differ in the sequence numbers of other clients' sessions, and in the messages that
were written to them. No function of the handler reads more of a session than its name, except to
number its messages. So the two do the same with the same event: they put the same requests on their
queues, and write the same messages to the client.

## Main definitions

* `messagesTo`: the messages to a client
* `ClientHandler.Alike`: the handlers look alike to a client

## Main results

* `Alike.onLogin`, `Alike.receive`, `Alike.onSocketClosed`, `Alike.handle`: what a handler does with an
  event keeps it alike to the other
* `Alike.handle_other`: so does a response that one of the two delivers to another client's session
-/

namespace Ndfex

open Containers

/-- The messages to a client. -/
def messagesTo (c : UInt32) (xs : List Written) : List Written :=
  xs.filter fun x => x.response.header.clientId = c

theorem messagesTo_append (c : UInt32) (xs ys : List Written) :
    messagesTo c (xs ++ ys) = messagesTo c xs ++ messagesTo c ys := List.filter_append ..

namespace ClientHandler

/-- The handlers look alike to the client, and put the same requests behind the queues `q` and
`q'`. -/
structure Alike (c : UInt32) (q q' : Fifo OePayload) (h h' : ClientHandler) : Prop where
  validator : h'.validator = h.validator
  users : h'.users = h.users
  requests : ∃ ps, h.toMatchingEngine = q.pushAll ps ∧ h'.toMatchingEngine = q'.pushAll ps
  clientToSockFd : h'.clientToSockFd = h.clientToSockFd
  clientToOpenOrders : h'.clientToOpenOrders = h.clientToOpenOrders
  exchToClientOrders : h'.exchToClientOrders = h.exchToClientOrders
  session : ∀ fd, h'.session fd = h.session fd
  own : ∀ fd info, h.sockToSessionInfo.lookup fd = some info → info.clientId = c →
    h'.sockToSessionInfo.lookup fd = some info
  written : messagesTo c h'.written = messagesTo c h.written

namespace Alike

variable {c : UInt32} {q q' : Fifo OePayload} {h h' : ClientHandler} {w : Circumstances}
  {payload : Option OePayload}

/-- The sessions of a socket: none, or two of one name, which are the same for the client. -/
theorem lookup (ha : Alike c q q' h h') (fd : Int32) :
    h.sockToSessionInfo.lookup fd = none ∧ h'.sockToSessionInfo.lookup fd = none ∨
      ∃ info info', h.sockToSessionInfo.lookup fd = some info ∧
        h'.sockToSessionInfo.lookup fd = some info' ∧ info'.name = info.name ∧
          (info.clientId = c → info' = info) := by
  have hsession := ha.session fd
  cases hinfo : h.sockToSessionInfo.lookup fd with
  | none =>
    rw [lookup_eq_none.mp hinfo] at hsession
    exact Or.inl ⟨rfl, lookup_eq_none.mpr hsession⟩
  | some info =>
    rw [session_of_lookup hinfo] at hsession
    obtain ⟨info', hinfo', hname⟩ := exists_info hsession
    refine Or.inr ⟨info, info', rfl, hinfo', hname, fun hc => ?_⟩
    rw [ha.own fd info hinfo hc] at hinfo'
    exact (Option.some.inj hinfo').symm

/-- The same requests behind both queues. -/
theorem pushAll (ha : Alike c q q' h h') (ps : List OePayload) :
    Alike c q q' { h with toMatchingEngine := h.toMatchingEngine.pushAll ps }
      { h' with toMatchingEngine := h'.toMatchingEngine.pushAll ps } := by
  obtain ⟨rs, hrs, hrs'⟩ := ha.requests
  refine { ha with requests := ⟨rs ++ ps, ?_, ?_⟩ }
  · rw [hrs]
    exact List.foldl_append.symm
  · rw [hrs']
    exact List.foldl_append.symm

theorem emplace (ha : Alike c q q' h h') (p : OePayload) :
    Alike c q q' (h.emplace p) (h'.emplace p) := ha.pushAll [p]

/-- The same session, or one of another client's with its numbers. -/
theorem insert (ha : Alike c q q' h h') (fd : Int32) {info info' : SessionInfo}
    (hname : info'.name = info.name) (hown : info.clientId = c → info' = info) :
    Alike c q q' { h with sockToSessionInfo := h.sockToSessionInfo.insert fd info }
      { h' with sockToSessionInfo := h'.sockToSessionInfo.insert fd info' } := by
  refine { ha with session := fun fd' => ?_, own := fun fd' x hx hc => ?_ }
  · by_cases hfd : fd' = fd
    · subst hfd
      simp only [ClientHandler.session, AList.lookup_insert, Option.map_some, hname]
    · have hsession := ha.session fd'
      simp only [ClientHandler.session, AList.lookup_insert_ne hfd] at hsession ⊢
      exact hsession
  · by_cases hfd : fd' = fd
    · subst hfd
      rw [AList.lookup_insert] at hx ⊢
      obtain rfl := Option.some.inj hx
      rw [hown hc]
    · rw [AList.lookup_insert_ne hfd] at hx ⊢
      exact ha.own fd' x hx hc

/-- Messages that are the same to the client. -/
theorem write (ha : Alike c q q' h h') {ws ws' : List Written}
    (hws : messagesTo c ws' = messagesTo c ws) :
    Alike c q q' { h with written := h.written ++ ws } { h' with written := h'.written ++ ws' } := by
  refine { ha with written := ?_ }
  rw [messagesTo_append, messagesTo_append, ha.written, hws]

theorem writeRaw (ha : Alike c q q' h h') (sockFd : Int32) (seqNum clientId : UInt32)
    (body : ResponseBody) :
    Alike c q q' (h.writeRaw sockFd seqNum clientId body)
      (h'.writeRaw sockFd seqNum clientId body) := ha.write rfl

theorem updateLastSeqNum (ha : Alike c q q' h h') (sockFd : Int32) (seqNum : UInt32) :
    Alike c q q' (h.updateLastSeqNum sockFd seqNum) (h'.updateLastSeqNum sockFd seqNum) := by
  unfold ClientHandler.updateLastSeqNum
  rcases ha.lookup sockFd with ⟨hnone, hnone'⟩ | ⟨info, info', hinfo, hinfo', hname, hown⟩
  · rw [hnone, hnone']
    exact ha
  · rw [hinfo, hinfo']
    exact ha.insert sockFd hname fun hc => by rw [hown hc]

/-- A message is the same to the client, and is sent or not. -/
theorem writeMsg (ha : Alike c q q' h h') (sockFd : Int32) (body : ResponseBody) :
    (h'.writeMsg sockFd payload body w).1 = (h.writeMsg sockFd payload body w).1 ∧
      Alike c q q' (h.writeMsg sockFd payload body w).2 (h'.writeMsg sockFd payload body w).2 := by
  unfold ClientHandler.writeMsg
  rcases ha.lookup sockFd with ⟨hnone, hnone'⟩ | ⟨info, info', hinfo, hinfo', hname, hown⟩
  · rw [hnone, hnone']
    exact ⟨rfl, ha⟩
  · rw [hinfo, hinfo']
    have hclient : info'.clientId = info.clientId := congrArg SessionName.clientId hname
    refine ⟨rfl, (ha.insert sockFd ?_ fun hc => by rw [hown hc]).write ?_⟩
    · exact hname
    · by_cases hc : info.clientId = c
      · rw [hown hc]
      · simp [messagesTo, hclient, hc]

theorem onSocketClosed (ha : Alike c q q' h h') (sockFd : Int32) :
    Alike c q q' (h.onSocketClosed sockFd w) (h'.onSocketClosed sockFd w) := by
  unfold ClientHandler.onSocketClosed
  rcases ha.lookup sockFd with ⟨hnone, hnone'⟩ | ⟨info, info', hinfo, hinfo', hname, hown⟩
  · rw [hnone, hnone']
    exact ha
  · have hclient : info'.clientId = info.clientId := congrArg SessionName.clientId hname
    -- both handlers cancel the same orders, and erase the session and its route
    have hcancel : Alike c q q' (h.cancelAllClientOrders info.clientId w)
        (h'.cancelAllClientOrders info.clientId w) := by
      unfold cancelAllClientOrders
      rw [ha.clientToOpenOrders]
      cases h.clientToOpenOrders.lookup info.clientId with
      | none => exact ha
      | some orders => exact { ha.pushAll _ with clientToOpenOrders := rfl }
    rw [hinfo, hinfo']
    dsimp only
    rw [hclient]
    refine { hcancel with clientToSockFd := ?_, session := fun fd => ?_, own := fun fd x hx hc => ?_ }
    · simp only [hcancel.clientToSockFd]
    · have hsession := hcancel.session fd
      simp only [ClientHandler.session] at hsession ⊢
      by_cases hfd : fd = sockFd
      · rw [hfd, AList.lookup_erase, AList.lookup_erase]
      · rw [AList.lookup_erase_ne hfd, AList.lookup_erase_ne hfd]
        exact hsession
    · dsimp only at hx ⊢
      by_cases hfd : fd = sockFd
      · rw [hfd, AList.lookup_erase] at hx
        cases hx
      · rw [AList.lookup_erase_ne hfd] at hx ⊢
        exact hcancel.own fd x hx hc

theorem writeOrClose (ha : Alike c q q' h h') (sockFd : Int32) (body : ResponseBody) :
    Alike c q q' (h.writeOrClose sockFd payload body w) (h'.writeOrClose sockFd payload body w) := by
  obtain ⟨hfst, hsnd⟩ := @writeMsg c q q' h h' w payload ha sockFd body
  unfold ClientHandler.writeOrClose
  dsimp only
  rw [hfst]
  split_ifs
  · exact hsnd
  · exact hsnd.onSocketClosed sockFd

theorem writeMsgToClient (ha : Alike c q q' h h') (d lastSeqNum : UInt32) (body : ResponseBody) :
    Alike c q q' (h.writeMsgToClient d lastSeqNum payload body w)
      (h'.writeMsgToClient d lastSeqNum payload body w) := by
  unfold ClientHandler.writeMsgToClient ClientHandler.getSockFd
  rw [ha.clientToSockFd]
  dsimp only
  split_ifs
  · exact ha
  · exact (ha.updateLastSeqNum _ _).writeOrClose _ _

/-- **A login** does the same in both handlers. -/
theorem onLogin (ha : Alike c q q' h h') (sockFd : Int32) (msg : Login) (sessionId : UInt64) :
    Alike c q q' (h.onLogin sockFd msg sessionId w) (h'.onLogin sockFd msg sessionId w) := by
  -- what decides about a login is the same in both
  have hcred : h'.credentials msg = h.credentials msg := by
    rw [ClientHandler.credentials, ClientHandler.credentials, ha.users]
  unfold ClientHandler.onLogin
  rw [hcred, ha.clientToSockFd]
  cases h.credentials msg with
  | some status => exact ha.writeRaw ..
  | none =>
    dsimp only
    cases h.clientToSockFd.lookup msg.header.clientId with
    | none =>
      have hopen : Alike c q q'
          { h with
            sockToSessionInfo := h.sockToSessionInfo.insert sockFd
              ⟨sessionId, msg.header.clientId, msg.header.seqNum, 0⟩
            clientToSockFd := h.clientToSockFd.insert msg.header.clientId sockFd }
          { h' with
            sockToSessionInfo := h'.sockToSessionInfo.insert sockFd
              ⟨sessionId, msg.header.clientId, msg.header.seqNum, 0⟩
            clientToSockFd := h.clientToSockFd.insert msg.header.clientId sockFd } :=
        { ha.insert sockFd rfl (fun _ => rfl) with clientToSockFd := rfl }
      exact hopen.writeOrClose sockFd _
    | some otherFd =>
      dsimp only
      split_ifs
      · exact ha
      · rcases ha.lookup otherFd with ⟨hnone, hnone'⟩ | ⟨info, info', hinfo, hinfo', -, -⟩
        · rw [hnone, hnone']
          exact ha
        · rw [hinfo, hinfo']
          exact ((ha.writeRaw ..).writeMsg otherFd _).2.onSocketClosed otherFd

theorem openOrder (ha : Alike c q q' h h') (d : UInt32) (o : UInt64) :
    h'.openOrder d o = h.openOrder d o := by
  rw [ClientHandler.openOrder, ClientHandler.openOrder, ha.clientToOpenOrders]

theorem validateSession (ha : Alike c q q' h h') (sockFd : Int32) (sessionId : UInt64)
    (clientId : UInt32) :
    h'.validateSession sockFd sessionId clientId = h.validateSession sockFd sessionId clientId := by
  rw [Bool.eq_iff_iff, validateSession_iff, validateSession_iff, ha.session]

/-- **A request** does the same in both handlers. -/
theorem receive (ha : Alike c q q' h h') (sockFd : Int32) (m : OrderMessage) :
    Alike c q q' (h.receive sockFd m) (h'.receive sockFd m) := by
  cases m with
  | newOrder msg now =>
    show Alike c q q' (h.onNewOrder sockFd msg now) (h'.onNewOrder sockFd msg now)
    have hvalid : h'.validator.validateNewOrder msg.orderId msg.symbol msg.side msg.quantity
        msg.price msg.flags = h.validator.validateNewOrder msg.orderId msg.symbol msg.side
          msg.quantity msg.price msg.flags := by rw [ha.validator]
    unfold onNewOrder
    rw [ha.validateSession, hvalid, ha.clientToOpenOrders]
    split_ifs
    · exact ha.emplace _
    · split
      · dsimp only
        split_ifs
        · exact ha.emplace _
        · have hentered : Alike c q q' (h.enter msg now) (h'.enter msg now) := by
            refine { ha with clientToOpenOrders := ?_, exchToClientOrders := ?_ }
            · simp only [enter, ha.clientToOpenOrders]
            · simp only [enter, ha.exchToClientOrders]
          have hlast := hentered.emplace (newPayload msg now)
          unfold enter at hlast
          rw [ha.clientToOpenOrders] at hlast
          exact hlast
      · exact ha.emplace _
  | deleteOrder msg =>
    show Alike c q q' (h.onDeleteOrder sockFd msg) (h'.onDeleteOrder sockFd msg)
    unfold onDeleteOrder
    rw [ha.validateSession, ha.openOrder]
    split_ifs
    · exact ha.emplace _
    · cases h.openOrder msg.header.clientId msg.orderId with
      | none => exact ha.emplace _
      | some x => exact ha.emplace _
  | modifyOrder msg =>
    show Alike c q q' (h.onModifyOrder sockFd msg) (h'.onModifyOrder sockFd msg)
    unfold onModifyOrder
    rw [ha.validateSession, ha.openOrder, ha.validator]
    split_ifs
    · exact ha.emplace _
    · cases h.openOrder msg.header.clientId msg.orderId with
      | none => exact ha.emplace _
      | some x =>
        dsimp only
        split
        · exact ha.emplace _
        · exact ha.emplace _

theorem forget (ha : Alike c q q' h h') (e : UInt64) (order : ExchOrder) :
    Alike c q q' (h.forget e order) (h'.forget e order) := by
  refine { ha with clientToOpenOrders := ?_, exchToClientOrders := ?_ }
  · simp only [ClientHandler.forget, ha.clientToOpenOrders]
  · simp only [ClientHandler.forget, ha.exchToClientOrders]

/-- **A response** does the same in both handlers. -/
theorem handle (ha : Alike c q q' h h') (p : OePayload) :
    Alike c q q' (h.handle p w) (h'.handle p w) := by
  have hreplied : Alike c q q' (h.replied p w) (h'.replied p w) := by
    have hreply : h'.reply p = h.reply p := by
      rw [reply, reply, ha.exchToClientOrders]
    unfold replied
    rw [hreply]
    cases h.reply p with
    | none => exact ha
    | some r => exact ha.writeMsgToClient ..
  rw [handle_eq, handle_eq, ha.exchToClientOrders]
  cases h.exchToClientOrders.lookup p.exchOrderId with
  | none => exact hreplied
  | some order =>
    dsimp only
    split_ifs
    · exact hreplied.forget ..
    · exact hreplied

/-! ### What one of the handlers does alone -/

/-- The numbers of another client's session. -/
theorem insert_other (ha : Alike c q q' h h') {fd : Int32} {info : SessionInfo}
    (hinfo : h'.sockToSessionInfo.lookup fd = some info) (info' : SessionInfo)
    (hname : info'.name = info.name) (hother : info.clientId ≠ c) :
    Alike c q q' h { h' with sockToSessionInfo := h'.sockToSessionInfo.insert fd info' } := by
  refine { ha with session := fun fd' => ?_, own := fun fd' x hx hc => ?_ }
  · exact (session_insert hinfo hname fd').trans (ha.session fd')
  · have hown := ha.own fd' x hx hc
    by_cases hfd : fd' = fd
    · rw [hfd, hinfo] at hown
      obtain rfl := Option.some.inj hown
      exact absurd hc hother
    · exact (AList.lookup_insert_ne hfd).trans hown

/-- A message to another client. -/
theorem write_other (ha : Alike c q q' h h') {x : Written} (hx : x.response.header.clientId ≠ c) :
    Alike c q q' h { h' with written := h'.written ++ [x] } := by
  have hnone : messagesTo c [x] = [] := List.filter_eq_nil_iff.mpr fun y hy hc =>
    hx (List.mem_singleton.mp hy ▸ of_decide_eq_true hc)
  refine { ha with written := ?_ }
  rw [messagesTo_append, hnone, List.append_nil, ha.written]

/-- **A reject** that is delivered to another client's session, or nowhere. -/
theorem handle_other (ha : Alike c q q' h h') {p : OePayload} (hreject : p.msgType = .reject)
    (hother : ∀ fd info, h'.routed p.clientId = some (fd, info) →
      info.clientId ≠ c ∧ w.sent = true) : Alike c q q' h (h'.handle p w) := by
  unfold ClientHandler.handle ClientHandler.writeMsgToClient
  rw [if_pos hreject]
  dsimp only
  split_ifs with hfd
  · exact ha
  cases hinfo : h'.sockToSessionInfo.lookup (h'.getSockFd p.clientId) with
  | none => simpa [ClientHandler.updateLastSeqNum, ClientHandler.writeOrClose,
      ClientHandler.writeMsg, ClientHandler.onSocketClosed, hinfo] using ha
  | some info =>
    have hrouted : h'.routed p.clientId = some (h'.getSockFd p.clientId, info) := by
      rw [routed, if_neg hfd, hinfo]
      rfl
    obtain ⟨hne, hsent⟩ := hother _ _ hrouted
    -- the session takes over the number, and then counts the message
    have hlast := ha.insert_other hinfo { info with lastSeqNum := p.clientSeq } rfl hne
    have hlookup : (h'.sockToSessionInfo.insert (h'.getSockFd p.clientId)
        { info with lastSeqNum := p.clientSeq }).lookup (h'.getSockFd p.clientId) =
          some { info with lastSeqNum := p.clientSeq } := AList.lookup_insert _
    have hcounted := hlast.insert_other hlookup
      (SessionInfo.counted { info with lastSeqNum := p.clientSeq }) rfl hne
    have hfinal := hcounted.write_other (x := ⟨h'.getSockFd p.clientId, some p,
      ⟨SessionInfo.header { info with lastSeqNum := p.clientSeq }
        (.reject p.exchOrderId p.flags), .reject p.exchOrderId p.flags⟩⟩) hne
    simpa [ClientHandler.updateLastSeqNum, ClientHandler.writeOrClose, ClientHandler.writeMsg, hinfo,
      hsent, SessionInfo.header, SessionInfo.counted] using hfinal

end Alike

end ClientHandler

end Ndfex
