import Ndfex.OrderEntry.SessionEffects

/-!
# What the handler writes

A message of a session carries the session's client and its two sequence numbers, and counts the
session's messages. A payload of the engine is delivered to the session that the route of its
recipient leads to.

## Main definitions

* `SessionInfo.header`: the header that `write_msg` fills in
* `ClientHandler.reply`: the recipient of a payload and the body of its message
* `ClientHandler.delivery`: the message that a payload makes the handler write

## Main results

* `ClientHandler.written_handle`: a turn of the loop writes the payload's delivery
* `ClientHandler.info_handle`: and counts it in the session
-/

namespace Ndfex

open Containers

/-- The header of a session's next message. -/
def SessionInfo.header (info : SessionInfo) (body : ResponseBody) : ResponseHeader :=
  ⟨body.length, body.msgType.byte, oeProtocolVersion, info.exchSeqNum, info.lastSeqNum,
    info.clientId⟩

/-- The session after its next message. -/
def SessionInfo.counted (info : SessionInfo) : SessionInfo :=
  { info with exchSeqNum := info.exchSeqNum + 1 }

theorem LoginStatus.byte_ne_success {status : LoginStatus} (h : status ≠ .success) :
    status.byte ≠ LoginStatus.success.byte := by
  cases status <;> first | exact absurd rfl h | decide

/-- The message refuses a login, and is of no session. -/
def Written.Refuses (x : Written) : Prop :=
  match x.response.body with
  | .loginResponse _ status => status ≠ LoginStatus.success.byte
  | _ => False

instance : DecidablePred Written.Refuses := fun x =>
  match x with
  | ⟨_, _, _, .loginResponse _ status⟩ =>
    inferInstanceAs (Decidable (status ≠ LoginStatus.success.byte))
  | ⟨_, _, _, .ack ..⟩ => instDecidableFalse
  | ⟨_, _, _, .reject ..⟩ => instDecidableFalse
  | ⟨_, _, _, .fill ..⟩ => instDecidableFalse
  | ⟨_, _, _, .closed _⟩ => instDecidableFalse
  | ⟨_, _, _, .error ..⟩ => instDecidableFalse

/-- The messages of a socket's sessions. -/
def sessionMessages (fd : Int32) (xs : List Written) : List Written :=
  xs.filter fun x => x.sockFd = fd ∧ ¬ x.Refuses

namespace ClientHandler

variable {h : ClientHandler} {payload : Option OePayload} {w : Circumstances}

/-- The message that `write_msg` writes: none to a socket without a session. -/
def sessionMessage (h : ClientHandler) (sockFd : Int32) (payload : Option OePayload)
    (body : ResponseBody) : List Written :=
  ((h.sockToSessionInfo.lookup sockFd).map fun info =>
    (⟨sockFd, payload, ⟨info.header body, body⟩⟩ : Written)).toList

theorem written_writeMsg (h : ClientHandler) (sockFd : Int32) (body : ResponseBody) :
    (h.writeMsg sockFd payload body w).2.written =
      h.written ++ h.sessionMessage sockFd payload body := by
  unfold writeMsg sessionMessage
  cases h.sockToSessionInfo.lookup sockFd with
  | none => simp
  | some info => rfl

theorem written_writeOrClose (h : ClientHandler) (sockFd : Int32) (body : ResponseBody) :
    (h.writeOrClose sockFd payload body w).written =
      h.written ++ h.sessionMessage sockFd payload body := by
  have hwrite := @written_writeMsg payload w h sockFd body
  unfold writeOrClose
  dsimp only
  split_ifs
  · exact hwrite
  · rw [written_onSocketClosed, hwrite]

/-- The session that a client's route leads to, unless it leads nowhere. -/
def routed (h : ClientHandler) (c : UInt32) : Option (Int32 × SessionInfo) :=
  if h.getSockFd c = -1 then none
  else (h.sockToSessionInfo.lookup (h.getSockFd c)).map fun info => (h.getSockFd c, info)

theorem routed_eq_some {c : UInt32} {fd : Int32} {info : SessionInfo} :
    h.routed c = some (fd, info) ↔
      h.clientToSockFd.lookup c = some fd ∧ fd ≠ -1 ∧
        h.sockToSessionInfo.lookup fd = some info := by
  unfold routed getSockFd
  cases h.clientToSockFd.lookup c with
  | none => simp
  | some fd' =>
    rw [Option.getD_some, Option.some_inj]
    split_ifs with hfd
    · subst hfd
      constructor
      · rintro ⟨⟩
      · rintro ⟨rfl, hne, -⟩
        exact absurd rfl hne
    · rw [Option.map_eq_some_iff]
      constructor
      · rintro ⟨info', hinfo, heq⟩
        obtain ⟨rfl, rfl⟩ := Prod.mk.inj heq
        exact ⟨rfl, hfd, hinfo⟩
      · rintro ⟨rfl, -, hinfo⟩
        exact ⟨info, hinfo, rfl⟩

/-- The message that `write_msg_to_client` writes: its session answers the request of the sequence
number. -/
def clientMessage (h : ClientHandler) (c lastSeqNum : UInt32) (payload : Option OePayload)
    (body : ResponseBody) : List Written :=
  ((h.routed c).map fun r =>
    (⟨r.1, payload, ⟨SessionInfo.header { r.2 with lastSeqNum } body, body⟩⟩ : Written)).toList

theorem lookup_updateLastSeqNum (h : ClientHandler) (sockFd fd : Int32) (seqNum : UInt32) :
    (h.updateLastSeqNum sockFd seqNum).sockToSessionInfo.lookup fd =
      if fd = sockFd then
        (h.sockToSessionInfo.lookup fd).map fun info => { info with lastSeqNum := seqNum }
      else h.sockToSessionInfo.lookup fd := by
  unfold updateLastSeqNum
  cases hinfo : h.sockToSessionInfo.lookup sockFd with
  | none =>
    split_ifs with hfd
    · rw [hfd, hinfo]
      rfl
    · rfl
  | some info =>
    dsimp only
    split_ifs with hfd
    · rw [hfd, AList.lookup_insert, hinfo]
      rfl
    · exact AList.lookup_insert_ne hfd

theorem written_writeMsgToClient (h : ClientHandler) (c lastSeqNum : UInt32)
    (body : ResponseBody) :
    (h.writeMsgToClient c lastSeqNum payload body w).written =
      h.written ++ h.clientMessage c lastSeqNum payload body := by
  unfold writeMsgToClient clientMessage routed
  dsimp only
  split_ifs with hroute
  · simp
  · rw [written_writeOrClose, written_updateLastSeqNum, sessionMessage, lookup_updateLastSeqNum,
      if_pos rfl]
    cases h.sockToSessionInfo.lookup (h.getSockFd c) <;> rfl

/-! ### The numbers of the sessions -/

theorem lookup_writeMsg (h : ClientHandler) (sockFd fd : Int32) (body : ResponseBody) :
    (h.writeMsg sockFd payload body w).2.sockToSessionInfo.lookup fd =
      if fd = sockFd then (h.sockToSessionInfo.lookup fd).map SessionInfo.counted
      else h.sockToSessionInfo.lookup fd := by
  unfold writeMsg
  cases hinfo : h.sockToSessionInfo.lookup sockFd with
  | none =>
    split_ifs with hfd
    · rw [hfd, hinfo]
      rfl
    · rfl
  | some info =>
    dsimp only
    split_ifs with hfd
    · rw [hfd, AList.lookup_insert, hinfo]
      rfl
    · exact AList.lookup_insert_ne hfd

theorem lookup_onSocketClosed (h : ClientHandler) (sockFd fd : Int32) :
    (h.onSocketClosed sockFd w).sockToSessionInfo.lookup fd =
      if fd = sockFd then none else h.sockToSessionInfo.lookup fd := by
  cases hinfo : h.sockToSessionInfo.lookup sockFd with
  | none =>
    rw [onSocketClosed_of_none (lookup_eq_none.mp hinfo)]
    split_ifs with hfd
    · rw [hfd, hinfo]
    · rfl
  | some info =>
    rw [onSocketClosed_of_lookup hinfo]
    dsimp only
    split_ifs with hfd
    · rw [hfd, AList.lookup_erase]
    · exact AList.lookup_erase_ne hfd

/-- A write counts its message, or ends the session. -/
theorem lookup_writeOrClose (h : ClientHandler) (sockFd fd : Int32) (body : ResponseBody) :
    (h.writeOrClose sockFd payload body w).sockToSessionInfo.lookup fd =
      if fd = sockFd then
        if w.sent then (h.sockToSessionInfo.lookup fd).map SessionInfo.counted else none
      else h.sockToSessionInfo.lookup fd := by
  have hfst := @writeMsg_fst payload w h sockFd body
  unfold writeOrClose
  dsimp only
  by_cases hfd : fd = sockFd
  · subst hfd
    rw [if_pos rfl]
    cases hinfo : h.sockToSessionInfo.lookup fd with
    | none =>
      -- to a socket without a session nothing is written, and closing it changes nothing
      have hnone : h.session fd = none := lookup_eq_none.mp hinfo
      rw [hfst, hnone]
      simp [lookup_onSocketClosed]
    | some info =>
      have hsome : (h.session fd).isSome := by
        rw [session_of_lookup hinfo]
        rfl
      rw [hfst, hsome, Bool.and_true]
      split_ifs
      · rw [lookup_writeMsg, if_pos rfl, hinfo]
      · rw [lookup_onSocketClosed, if_pos rfl]
  · rw [if_neg hfd]
    split_ifs
    · rw [lookup_writeMsg, if_neg hfd]
    · rw [lookup_onSocketClosed, if_neg hfd, lookup_writeMsg, if_neg hfd]

/-- A message to a client answers the request of the sequence number, in the session that the client's
route leads to. -/
theorem lookup_writeMsgToClient (h : ClientHandler) (c lastSeqNum : UInt32) (body : ResponseBody)
    (fd : Int32) :
    (h.writeMsgToClient c lastSeqNum payload body w).sockToSessionInfo.lookup fd =
      match h.routed c with
      | none => h.sockToSessionInfo.lookup fd
      | some r =>
        if fd = r.1 then
          if w.sent then some (SessionInfo.counted { r.2 with lastSeqNum }) else none
        else h.sockToSessionInfo.lookup fd := by
  unfold writeMsgToClient routed
  dsimp only
  by_cases hroute : h.getSockFd c = -1
  · rw [if_pos hroute, if_pos hroute]
  rw [if_neg hroute, if_neg hroute, lookup_writeOrClose, lookup_updateLastSeqNum]
  cases hinfo : h.sockToSessionInfo.lookup (h.getSockFd c) with
  | none =>
    -- without a session nothing is written
    by_cases hfd : fd = h.getSockFd c
    · subst hfd
      simp [hinfo]
    · simp [hfd]
  | some info =>
    by_cases hfd : fd = h.getSockFd c
    · subst hfd
      simp [hinfo]
    · simp [hfd]

/-! ### Logins -/

/-- The messages of a login: that of the session that it opens, a refusal, or a refusal together with
an error to the session that it ends. -/
def greetings (h : ClientHandler) (sockFd : Int32) (msg : Login) (sessionId : UInt64) :
    List Written :=
  let refusal (status : LoginStatus) : Written :=
    let body : ResponseBody := .loginResponse 0 status.byte
    ⟨sockFd, none, ⟨⟨body.length, body.msgType.byte, oeProtocolVersion, msg.header.seqNum, 0,
      msg.header.clientId⟩, body⟩⟩
  match h.credentials msg with
  | some status => [refusal status]
  | none =>
    match h.clientToSockFd.lookup msg.header.clientId with
    | some otherFd =>
      if otherFd = sockFd ∨ h.sockToSessionInfo.lookup otherFd = none then []
      else refusal .sessionAlreadyActive :: h.sessionMessage otherFd none
        (.error RejectReason.duplicateLogin.byte "Duplicate login")
    | none => (h.logIn sockFd msg sessionId).sessionMessage sockFd none
        (.loginResponse sessionId LoginStatus.success.byte)

theorem written_onLogin (h : ClientHandler) (sockFd : Int32) (msg : Login) (sessionId : UInt64) :
    (h.onLogin sockFd msg sessionId w).written =
      h.written ++ h.greetings sockFd msg sessionId := by
  unfold onLogin greetings
  cases h.credentials msg with
  | some status => rfl
  | none =>
    dsimp only
    cases h.clientToSockFd.lookup msg.header.clientId with
    | none => exact written_writeOrClose ..
    | some otherFd =>
      dsimp only
      by_cases hself : otherFd = sockFd
      · simp [hself]
      · cases hinfo : h.sockToSessionInfo.lookup otherFd with
        | none => simp
        | some info =>
          simp only [hself, reduceCtorEq, or_self, if_false]
          rw [written_onSocketClosed, written_writeMsg, writeRaw, List.append_assoc]
          rfl

/-- A login writes login responses and errors. -/
theorem body_greetings {sockFd : Int32} {msg : Login} {sessionId : UInt64} {x : Written}
    (hx : x ∈ h.greetings sockFd msg sessionId) :
    (∃ id status, x.response.body = .loginResponse id status) ∨
      ∃ code text, x.response.body = .error code text := by
  have hsession : ∀ (h : ClientHandler) fd body, x ∈ h.sessionMessage fd none body →
      x.response.body = body := by
    intro h fd body hx
    obtain ⟨info, -, rfl⟩ := Option.map_eq_some_iff.mp (Option.mem_toList.mp hx)
    rfl
  unfold greetings at hx
  split at hx
  · obtain rfl := List.mem_singleton.mp hx
    exact Or.inl ⟨_, _, rfl⟩
  · split at hx
    · split_ifs at hx
      · cases hx
      · rcases List.mem_cons.mp hx with rfl | hx
        · exact Or.inl ⟨_, _, rfl⟩
        · exact Or.inr ⟨_, _, hsession _ _ _ hx⟩
    · exact Or.inl ⟨_, _, hsession _ _ _ hx⟩

/-- The message of a session is of its socket's sessions, and of no other's. -/
theorem sessionMessages_sessionMessage {sockFd : Int32} {body : ResponseBody}
    (hbody : ∀ id status, body = .loginResponse id status → status = LoginStatus.success.byte)
    (fd : Int32) :
    sessionMessages fd (h.sessionMessage sockFd payload body) =
      if fd = sockFd then h.sessionMessage sockFd payload body else [] := by
  have hnot : ∀ header, ¬ Written.Refuses ⟨sockFd, payload, ⟨header, body⟩⟩ := by
    intro header hrefuses
    unfold Written.Refuses at hrefuses
    cases body with
    | loginResponse id status => exact hrefuses (hbody id status rfl)
    | _ => exact hrefuses
  unfold sessionMessage sessionMessages
  cases h.sockToSessionInfo.lookup sockFd with
  | none => simp
  | some info =>
    by_cases hfd : fd = sockFd
    · simp [hfd, hnot]
    · simp [hfd, Ne.symm hfd]

/-- A login that opens a session writes its first message. -/
theorem onLogin_of_accepts {sockFd : Int32} {msg : Login} (hacc : h.Accepts msg)
    (sessionId : UInt64) (fd : Int32) :
    sessionMessages fd (h.greetings sockFd msg sessionId) =
        (if fd = sockFd then [⟨sockFd, none, ⟨SessionInfo.header
          ⟨sessionId, msg.header.clientId, msg.header.seqNum, 0⟩
          (.loginResponse sessionId LoginStatus.success.byte),
          .loginResponse sessionId LoginStatus.success.byte⟩⟩] else []) ∧
      (h.onLogin sockFd msg sessionId w).sockToSessionInfo.lookup fd =
        if fd = sockFd then
          if w.sent then some ⟨sessionId, msg.header.clientId, msg.header.seqNum, 1⟩ else none
        else h.sockToSessionInfo.lookup fd := by
  have hinfo : (h.logIn sockFd msg sessionId).sockToSessionInfo.lookup sockFd =
      some ⟨sessionId, msg.header.clientId, msg.header.seqNum, 0⟩ := AList.lookup_insert _
  constructor
  · unfold greetings
    rw [hacc.1, hacc.2]
    dsimp only
    rw [sessionMessages_sessionMessage (by simp), sessionMessage, hinfo]
    rfl
  · unfold onLogin
    rw [hacc.1, hacc.2]
    have hwrite := @lookup_writeOrClose none w (h.logIn sockFd msg sessionId) sockFd fd
      (.loginResponse sessionId LoginStatus.success.byte)
    refine hwrite.trans ?_
    split_ifs with hfd
    · rw [hfd, hinfo]
      rfl
    · rfl
    · exact AList.lookup_insert_ne hfd

theorem credentials_ne_success {msg : Login} {status : LoginStatus}
    (hcred : h.credentials msg = some status) : status ≠ .success := by
  unfold credentials at hcred
  split at hcred
  · cases hcred
    decide
  · split_ifs at hcred
    · cases hcred
      decide
    · cases hcred
      decide

/-- A login that opens no session leaves a session as it is, or ends it with an error. -/
theorem onLogin_of_not_accepts {sockFd : Int32} {msg : Login} (hno : ¬ h.Accepts msg)
    (sessionId : UInt64) (fd : Int32) :
    (sessionMessages fd (h.greetings sockFd msg sessionId) = [] ∧
        (h.onLogin sockFd msg sessionId w).sockToSessionInfo.lookup fd =
          h.sockToSessionInfo.lookup fd) ∨
      ∃ info body, h.sockToSessionInfo.lookup fd = some info ∧
        sessionMessages fd (h.greetings sockFd msg sessionId) =
          [⟨fd, none, ⟨info.header body, body⟩⟩] ∧
        (h.onLogin sockFd msg sessionId w).sockToSessionInfo.lookup fd = none := by
  -- a refusal is no message of a session
  have hrefusal : ∀ header (status : LoginStatus) (xs : List Written), status ≠ .success →
      sessionMessages fd (⟨sockFd, none, ⟨header, .loginResponse 0 status.byte⟩⟩ :: xs) =
        sessionMessages fd xs := by
    intro header status xs hstatus
    have hrefuses : Written.Refuses ⟨sockFd, none, ⟨header, .loginResponse 0 status.byte⟩⟩ :=
      LoginStatus.byte_ne_success hstatus
    rw [sessionMessages, List.filter_cons_of_neg (by simp [hrefuses])]
    rfl
  unfold onLogin greetings
  cases hcred : h.credentials msg with
  | some status =>
    left
    refine ⟨?_, rfl⟩
    dsimp only
    rw [hrefusal _ _ _ (credentials_ne_success hcred)]
    rfl
  | none =>
    dsimp only
    cases hroute : h.clientToSockFd.lookup msg.header.clientId with
    | none => exact absurd ⟨hcred, hroute⟩ hno
    | some otherFd =>
      dsimp only
      by_cases hself : otherFd = sockFd
      · left
        simp [hself, sessionMessages]
      cases hinfo : h.sockToSessionInfo.lookup otherFd with
      | none =>
        left
        simp [hself, sessionMessages]
      | some info =>
        simp only [hself, reduceCtorEq, or_self, if_false]
        -- the first session of the client gets an error, and ends
        rw [hrefusal _ _ _ (by decide), sessionMessages_sessionMessage (by simp),
          lookup_onSocketClosed, lookup_writeMsg]
        by_cases hfd : fd = otherFd
        · subst hfd
          refine Or.inr ⟨info, .error RejectReason.duplicateLogin.byte "Duplicate login", hinfo,
            ?_, ?_⟩
          · rw [if_pos rfl, sessionMessage, hinfo]
            rfl
          · rw [if_pos rfl]
        · left
          rw [if_neg hfd, if_neg hfd, if_neg hfd]
          exact ⟨rfl, rfl⟩

/-! ### Payloads of the engine -/

/-- Whom a payload goes to, and what the message says. -/
def reply (h : ClientHandler) (p : OePayload) : Option (UInt32 × ResponseBody) :=
  if p.msgType = .reject then some (p.clientId, .reject p.exchOrderId p.flags)
  else
    (h.exchToClientOrders.lookup p.exchOrderId).bind fun order =>
      match p.msgType with
      | .ack => some (order.clientId,
          .ack order.orderId p.exchOrderId p.quantity p.price.toInt32)
      | .fill => some (order.clientId, .fill order.orderId p.quantity p.price.toInt32 p.flags)
      | .close => some (order.clientId, .closed order.orderId)
      | _ => none

/-- A reply goes to the recipient. -/
theorem recipient_of_reply {p : OePayload} {c : UInt32} {body : ResponseBody}
    (hr : h.reply p = some (c, body)) : h.recipient p = some c := by
  unfold reply at hr
  unfold recipient
  split_ifs at hr ⊢ with hreject
  · obtain ⟨rfl, -⟩ := Prod.mk.inj (Option.some.inj hr)
    rfl
  · obtain ⟨order, horder, hr⟩ := Option.bind_eq_some_iff.mp hr
    rw [horder]
    split at hr
    case h_4 => cases hr
    all_goals
      obtain ⟨rfl, -⟩ := Prod.mk.inj (Option.some.inj hr)
      rfl

/-- The message that a payload of the engine makes the handler write. -/
def delivery (h : ClientHandler) (p : OePayload) : List Written :=
  match h.reply p with
  | none => []
  | some (c, body) => h.clientMessage c p.clientSeq (some p) body

/-- The delivery of a payload answers its request: the session is the one that the route of the
recipient leads to. -/
theorem mem_delivery {p : OePayload} {x : Written} :
    x ∈ h.delivery p ↔ ∃ c body fd info, h.reply p = some (c, body) ∧
      h.routed c = some (fd, info) ∧
        x = ⟨fd, some p, ⟨SessionInfo.header { info with lastSeqNum := p.clientSeq } body, body⟩⟩ := by
  unfold delivery clientMessage
  cases h.reply p with
  | none => simp
  | some r =>
    obtain ⟨c, body⟩ := r
    simp only [Option.mem_toList, Option.map_eq_some_iff, Prod.exists,
      Option.some.injEq, Prod.mk.injEq]
    constructor
    · rintro ⟨fd, info, hrouted, rfl⟩
      exact ⟨c, body, fd, info, ⟨rfl, rfl⟩, hrouted, rfl⟩
    · rintro ⟨c, body, fd, info, ⟨rfl, rfl⟩, hrouted, rfl⟩
      exact ⟨fd, info, hrouted, rfl⟩

/-- A reject is written for a reject only. -/
theorem reject_of_reply {p : OePayload} {c : UInt32} {orderId : UInt64} {reason : UInt8}
    (hr : h.reply p = some (c, .reject orderId reason)) :
    p.msgType = .reject ∧ c = p.clientId ∧ orderId = p.exchOrderId ∧ reason = p.flags := by
  unfold reply at hr
  split_ifs at hr with hreject
  · cases hr
    exact ⟨hreject, rfl, rfl, rfl⟩
  · obtain ⟨order, -, hr⟩ := Option.bind_eq_some_iff.mp hr
    split at hr <;> cases hr

/-- A turn of the loop is the write of its reply, and forgets the order of a terminal payload. -/
def replied (h : ClientHandler) (p : OePayload) (w : Circumstances) : ClientHandler :=
  match h.reply p with
  | none => h
  | some (c, body) => h.writeMsgToClient c p.clientSeq (some p) body w

/-- **A turn of the loop** is the write of its reply, and the removal of the order if the payload is
terminal. -/
theorem handle_eq (h : ClientHandler) (p : OePayload) (w : Circumstances) :
    h.handle p w = match h.exchToClientOrders.lookup p.exchOrderId with
      | some order => if p.Terminal then (h.replied p w).forget p.exchOrderId order
        else h.replied p w
      | none => h.replied p w := by
  unfold handle replied reply
  by_cases hreject : p.msgType = .reject
  · have hterm : ¬ p.Terminal := by simp [OePayload.Terminal, hreject]
    simp only [if_pos hreject, if_neg hterm]
    -- the test that the handler makes here is made again by the write
    have hwrite : (if h.getSockFd p.clientId = -1 then h
        else h.writeMsgToClient p.clientId p.clientSeq (some p) (.reject p.exchOrderId p.flags) w) =
          h.writeMsgToClient p.clientId p.clientSeq (some p) (.reject p.exchOrderId p.flags) w := by
      unfold writeMsgToClient
      dsimp only
      split_ifs <;> rfl
    rw [hwrite]
    split <;> rfl
  · simp only [if_neg hreject]
    cases h.exchToClientOrders.lookup p.exchOrderId with
    | none => rfl
    | some order =>
      simp only [Option.bind_some]
      cases htype : p.msgType
      case fill =>
        have hterm : p.Terminal ↔ closesOrder p.flags = true := by simp [OePayload.Terminal, htype]
        simp only [hterm]
      case close =>
        have hterm : p.Terminal := Or.inl htype
        simp only [if_pos hterm]
      case reject => exact absurd htype hreject
      all_goals
        have hterm : ¬ p.Terminal := by simp [OePayload.Terminal, htype]
        simp only [if_neg hterm]

/-- The session that a payload is delivered to. -/
def target (h : ClientHandler) (p : OePayload) : Option (Int32 × SessionInfo) :=
  (h.reply p).bind fun r => h.routed r.1

theorem lookup_of_target {p : OePayload} {fd : Int32} {info : SessionInfo}
    (ht : h.target p = some (fd, info)) : h.sockToSessionInfo.lookup fd = some info := by
  obtain ⟨r, -, hr⟩ := Option.bind_eq_some_iff.mp ht
  exact (routed_eq_some.mp hr).2.2

/-- The delivery of a payload goes to the session of its target. -/
theorem delivery_of_target {p : OePayload} {fd : Int32} {info : SessionInfo}
    (ht : h.target p = some (fd, info)) :
    ∃ x, h.delivery p = [x] ∧ x.sockFd = fd ∧ ¬ x.Refuses ∧
      x.response.header =
        SessionInfo.header { info with lastSeqNum := p.clientSeq } x.response.body := by
  obtain ⟨⟨c, body⟩, hreply, hrouted⟩ := Option.bind_eq_some_iff.mp ht
  refine ⟨⟨fd, some p, ⟨SessionInfo.header { info with lastSeqNum := p.clientSeq } body, body⟩⟩,
    ?_, rfl, ?_, rfl⟩
  · simp only [delivery, hreply, clientMessage, hrouted]
    rfl
  · -- a login is answered by itself
    intro hrefuses
    have hbody : ∃ id status, body = .loginResponse id status := by
      unfold Written.Refuses at hrefuses
      cases body with
      | loginResponse id status => exact ⟨id, status, rfl⟩
      | _ => exact hrefuses.elim
    obtain ⟨id, status, rfl⟩ := hbody
    unfold reply at hreply
    split_ifs at hreply
    · cases hreply
    · obtain ⟨order, -, hreply⟩ := Option.bind_eq_some_iff.mp hreply
      split at hreply <;> cases hreply

theorem delivery_of_no_target {p : OePayload} (ht : h.target p = none) : h.delivery p = [] := by
  unfold target at ht
  unfold delivery
  cases hreply : h.reply p with
  | none => rfl
  | some r =>
    have hrouted : h.routed r.1 = none := by rwa [hreply, Option.bind_some] at ht
    simp only [clientMessage, hrouted]
    rfl

/-- **A turn of the loop** counts the delivery of its payload, or ends its session. -/
theorem lookup_handle (h : ClientHandler) (p : OePayload) (w : Circumstances) (fd : Int32) :
    (h.handle p w).sockToSessionInfo.lookup fd =
      match h.target p with
      | none => h.sockToSessionInfo.lookup fd
      | some r =>
        if fd = r.1 then
          if w.sent then some (SessionInfo.counted { r.2 with lastSeqNum := p.clientSeq }) else none
        else h.sockToSessionInfo.lookup fd := by
  have hreplied : (h.handle p w).sockToSessionInfo = (h.replied p w).sockToSessionInfo := by
    rw [handle_eq]
    split
    · split_ifs <;> rfl
    · rfl
  rw [hreplied]
  unfold replied target
  cases h.reply p with
  | none => rfl
  | some r => exact lookup_writeMsgToClient ..

/-- **A turn of the loop** writes the delivery of its payload. -/
theorem written_handle (h : ClientHandler) (p : OePayload) (w : Circumstances) :
    (h.handle p w).written = h.written ++ h.delivery p := by
  have hreplied : (h.replied p w).written = h.written ++ h.delivery p := by
    unfold replied delivery
    cases h.reply p with
    | none => simp
    | some r => exact written_writeMsgToClient ..
  rw [handle_eq]
  split
  · split_ifs
    · exact hreplied
    · exact hreplied
  · exact hreplied

end ClientHandler

end Ndfex
