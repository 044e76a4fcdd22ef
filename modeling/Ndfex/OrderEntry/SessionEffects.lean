import Ndfex.OrderEntry.HandlerEffects

/-!
# What an event does to the sessions

An event of the handler is made of few parts. Most of what it does is quiet: it writes messages and
counts them. Apart from that a login that succeeds opens a session, and a session ends when its
socket is closed, when a write fails, or when its client logs in elsewhere.

## Main definitions

* `SessionInfo.name`, `ClientHandler.session`: what a session keeps from its login to its end
* `ClientHandler.Quiet`: nothing changed but sequence numbers and the messages written
* `ClientHandler.cancels`: the requests that the end of a session puts to the engine

## Main results

* `ClientHandler.onLogin_cases`: a login is quiet, ends another session or opens one
* `ClientHandler.handle_sessions`: a response is quiet or ends a session, and forgets an order
-/

namespace Ndfex

open Containers

/-- What a session keeps from its login to its end. -/
structure SessionName where
  sessionId : UInt64
  clientId : UInt32
deriving DecidableEq, Repr

/-- The name of a session. -/
def SessionInfo.name (info : SessionInfo) : SessionName := ⟨info.sessionId, info.clientId⟩

namespace ClientHandler

/-- The session of a socket. -/
def session (h : ClientHandler) (sockFd : Int32) : Option SessionName :=
  (h.sockToSessionInfo.lookup sockFd).map SessionInfo.name

theorem exists_info {h : ClientHandler} {sockFd : Int32} {n : SessionName}
    (hn : h.session sockFd = some n) :
    ∃ info, h.sockToSessionInfo.lookup sockFd = some info ∧ info.name = n :=
  Option.map_eq_some_iff.mp hn

theorem session_of_lookup {h : ClientHandler} {sockFd : Int32} {info : SessionInfo}
    (hinfo : h.sockToSessionInfo.lookup sockFd = some info) : h.session sockFd = some info.name := by
  rw [session, hinfo]
  rfl

theorem lookup_eq_none {h : ClientHandler} {sockFd : Int32} :
    h.sockToSessionInfo.lookup sockFd = none ↔ h.session sockFd = none :=
  Option.map_eq_none_iff.symm

/-- A message is of the session that its header names. -/
theorem validateSession_iff {h : ClientHandler} {sockFd : Int32} {sessionId : UInt64}
    {clientId : UInt32} :
    h.validateSession sockFd sessionId clientId = true ↔
      h.session sockFd = some ⟨sessionId, clientId⟩ := by
  unfold validateSession session
  cases h.sockToSessionInfo.lookup sockFd with
  | none => simp
  | some info => simp [SessionInfo.name]

/-! ### Quiet parts -/

/-- Nothing changed but the sequence numbers of the sessions and the messages written. -/
structure Quiet (h h' : ClientHandler) : Prop where
  validator : h'.validator = h.validator
  users : h'.users = h.users
  toMatchingEngine : h'.toMatchingEngine = h.toMatchingEngine
  clientToSockFd : h'.clientToSockFd = h.clientToSockFd
  clientToOpenOrders : h'.clientToOpenOrders = h.clientToOpenOrders
  exchToClientOrders : h'.exchToClientOrders = h.exchToClientOrders
  session : ∀ fd, h'.session fd = h.session fd

variable {h h' h'' : ClientHandler} {payload : Option OePayload} {w : Circumstances}

namespace Quiet

theorem refl (h : ClientHandler) : Quiet h h := ⟨rfl, rfl, rfl, rfl, rfl, rfl, fun _ => rfl⟩

theorem trans (hq : Quiet h h') (hq' : Quiet h' h'') : Quiet h h'' where
  validator := hq'.validator.trans hq.validator
  users := hq'.users.trans hq.users
  toMatchingEngine := hq'.toMatchingEngine.trans hq.toMatchingEngine
  clientToSockFd := hq'.clientToSockFd.trans hq.clientToSockFd
  clientToOpenOrders := hq'.clientToOpenOrders.trans hq.clientToOpenOrders
  exchToClientOrders := hq'.exchToClientOrders.trans hq.exchToClientOrders
  session fd := (hq'.session fd).trans (hq.session fd)

theorem openOrder (hq : Quiet h h') (c : UInt32) (o : UInt64) :
    h'.openOrder c o = h.openOrder c o := by
  rw [ClientHandler.openOrder, ClientHandler.openOrder, hq.clientToOpenOrders]

end Quiet

/-- A session keeps its name. -/
theorem session_insert {sockFd : Int32} {info info' : SessionInfo}
    (hinfo : h.sockToSessionInfo.lookup sockFd = some info) (hname : info'.name = info.name)
    (fd : Int32) :
    ((h.sockToSessionInfo.insert sockFd info').lookup fd).map SessionInfo.name = h.session fd := by
  by_cases hfd : fd = sockFd
  · subst hfd
    rw [AList.lookup_insert, session_of_lookup hinfo, ← hname]
    rfl
  · rw [AList.lookup_insert_ne hfd]
    rfl

theorem quiet_writeRaw (h : ClientHandler) (sockFd : Int32) (seqNum clientId : UInt32)
    (body : ResponseBody) : Quiet h (h.writeRaw sockFd seqNum clientId body) :=
  ⟨rfl, rfl, rfl, rfl, rfl, rfl, fun _ => rfl⟩

theorem quiet_updateLastSeqNum (h : ClientHandler) (sockFd : Int32) (seqNum : UInt32) :
    Quiet h (h.updateLastSeqNum sockFd seqNum) := by
  unfold updateLastSeqNum
  split
  · exact .refl h
  case h_2 info hinfo => exact ⟨rfl, rfl, rfl, rfl, rfl, rfl, session_insert hinfo rfl⟩

theorem quiet_writeMsg (h : ClientHandler) (sockFd : Int32) (body : ResponseBody) :
    Quiet h (h.writeMsg sockFd payload body w).2 := by
  unfold writeMsg
  split
  · exact .refl h
  case h_2 info hinfo => exact ⟨rfl, rfl, rfl, rfl, rfl, rfl, session_insert hinfo rfl⟩

theorem writeMsg_fst (h : ClientHandler) (sockFd : Int32) (body : ResponseBody) :
    (h.writeMsg sockFd payload body w).1 = (w.sent && (h.session sockFd).isSome) := by
  unfold writeMsg session
  cases h.sockToSessionInfo.lookup sockFd <;> simp

/-! ### The end of a session -/

/-- The requests that the end of a session puts to the engine: the cancellation of every open order
of its client. -/
def cancels (h : ClientHandler) (sockFd : Int32) (w : Circumstances) : List OePayload :=
  match h.sockToSessionInfo.lookup sockFd with
  | none => []
  | some info =>
    match h.clientToOpenOrders.lookup info.clientId with
    | none => []
    | some orders => (w.traverse orders).map (cancelRequest info.clientId)

theorem mem_cancels {sockFd : Int32} {p : OePayload} :
    p ∈ h.cancels sockFd w ↔ ∃ n o x, h.session sockFd = some n ∧
      h.openOrder n.clientId o = some x ∧ p = cancelRequest n.clientId ⟨o, x⟩ := by
  unfold cancels session openOrder
  cases h.sockToSessionInfo.lookup sockFd with
  | none => simp
  | some info =>
    dsimp only [Option.map_some]
    cases horders : h.clientToOpenOrders.lookup info.clientId with
    | none => simp [SessionInfo.name, horders]
    | some orders =>
      rw [List.mem_map]
      constructor
      · rintro ⟨⟨o, x⟩, hx, rfl⟩
        refine ⟨info.name, o, x, rfl, ?_, rfl⟩
        rw [SessionInfo.name, horders, Option.bind_some]
        exact AList.mem_lookup_iff.mpr ((w.traverse_perm orders).mem_iff.mp hx)
      · rintro ⟨n, o, x, hn, hx, rfl⟩
        obtain rfl := Option.some.inj hn
        rw [SessionInfo.name, horders, Option.bind_some] at hx
        exact ⟨⟨o, x⟩, (w.traverse_perm orders).mem_iff.mpr (AList.mem_lookup_iff.mp hx), rfl⟩

theorem cancels_eq_nil {sockFd : Int32} (hnone : h.session sockFd = none) :
    h.cancels sockFd w = [] := by
  rw [cancels, lookup_eq_none.mpr hnone]

/-- What the end of a session leaves of the handler, apart from the open orders. -/
theorem onSocketClosed_of_lookup {sockFd : Int32} {info : SessionInfo}
    (hinfo : h.sockToSessionInfo.lookup sockFd = some info) :
    h.onSocketClosed sockFd w =
      { h with
        toMatchingEngine := h.toMatchingEngine.pushAll (h.cancels sockFd w)
        clientToOpenOrders := (h.onSocketClosed sockFd w).clientToOpenOrders
        clientToSockFd := h.clientToSockFd.erase info.clientId
        sockToSessionInfo := h.sockToSessionInfo.erase sockFd } := by
  unfold onSocketClosed cancels cancelAllClientOrders
  rw [hinfo]
  dsimp only
  cases h.clientToOpenOrders.lookup info.clientId <;> rfl

theorem onSocketClosed_of_none {sockFd : Int32} (hnone : h.session sockFd = none) :
    h.onSocketClosed sockFd w = h := by
  rw [onSocketClosed, lookup_eq_none.mpr hnone]

/-- What the end of a session takes over from the handler. -/
structure Closes (sockFd : Int32) (w : Circumstances) (h h' : ClientHandler) : Prop where
  validator : h'.validator = h.validator
  users : h'.users = h.users
  toMatchingEngine : h'.toMatchingEngine = h.toMatchingEngine.pushAll (h.cancels sockFd w)
  exchToClientOrders : h'.exchToClientOrders = h.exchToClientOrders
  session : ∀ fd, h'.session fd = if fd = sockFd then none else h.session fd
  route : ∀ c, h'.clientToSockFd.lookup c =
    if (h.session sockFd).map SessionName.clientId = some c then none
    else h.clientToSockFd.lookup c
  openOrder : ∀ c o, h'.openOrder c o =
    if (h.session sockFd).map SessionName.clientId = some c then none else h.openOrder c o

theorem closes_onSocketClosed (h : ClientHandler) (sockFd : Int32) (w : Circumstances) :
    Closes sockFd w h (h.onSocketClosed sockFd w) := by
  cases hinfo : h.sockToSessionInfo.lookup sockFd with
  | none =>
    have hnone := lookup_eq_none.mp hinfo
    rw [onSocketClosed_of_none hnone]
    refine ⟨rfl, rfl, by rw [cancels_eq_nil hnone]; rfl, rfl, fun fd => ?_, ?_, ?_⟩
    · split_ifs with hfd
      · rw [hfd, hnone]
      · rfl
    · simp [hnone]
    · simp [hnone]
  | some info =>
    have hname := session_of_lookup hinfo
    -- only the session's own client loses its route and its orders
    have hcond : ∀ c, (h.session sockFd).map SessionName.clientId = some c ↔
        c = info.clientId := by
      intro c
      rw [hname]
      simp [SessionInfo.name, eq_comm]
    have hopen : ∀ c o, (h.onSocketClosed sockFd w).openOrder c o =
        (h.cancelAllClientOrders info.clientId w).openOrder c o := by
      intro c o
      rw [onSocketClosed, hinfo]
      rfl
    rw [onSocketClosed_of_lookup hinfo]
    constructor
    case session =>
      intro fd
      unfold session
      dsimp only
      split_ifs with hfd
      · rw [hfd, AList.lookup_erase]
        rfl
      · rw [AList.lookup_erase_ne hfd]
    case route =>
      intro c
      dsimp only
      split_ifs with hc
      · rw [(hcond c).mp hc, AList.lookup_erase]
      · exact AList.lookup_erase_ne fun heq => hc ((hcond c).mpr heq)
    case openOrder =>
      intro c o
      refine (hopen c o).trans ?_
      rw [openOrder_cancelAllClientOrders]
      simp only [hcond]
    all_goals rfl

/-! ### Writes that may end a session -/

/-- Quiet parts, and the end of a session if a write failed. -/
def QuietOrCloses (sockFd : Int32) (w : Circumstances) (h h' : ClientHandler) : Prop :=
  Quiet h h' ∨ w.sent = false ∧ ∃ h₁, Quiet h h₁ ∧ h' = h₁.onSocketClosed sockFd w

/-- A write to a socket is quiet, or fails and ends the session of the socket. -/
theorem quiet_writeOrClose (h : ClientHandler) (sockFd : Int32) (body : ResponseBody) :
    QuietOrCloses sockFd w h (h.writeOrClose sockFd payload body w) := by
  have hquiet := @quiet_writeMsg payload w h sockFd body
  have hfst := @writeMsg_fst payload w h sockFd body
  unfold writeOrClose
  dsimp only
  split_ifs with hwrote
  · exact Or.inl hquiet
  · rw [hfst] at hwrote
    cases hsession : h.session sockFd with
    | none =>
      -- without a session there is nothing to end
      left
      rwa [onSocketClosed_of_none ((hquiet.session sockFd).trans hsession)]
    | some n =>
      refine Or.inr ⟨?_, _, hquiet, rfl⟩
      simpa [hsession] using hwrote

/-- A write to a client goes to the socket of its route, or nowhere. -/
theorem quiet_writeMsgToClient (h : ClientHandler) (c lastSeqNum : UInt32) (body : ResponseBody) :
    Quiet h (h.writeMsgToClient c lastSeqNum payload body w) ∨
      ∃ fd, h.clientToSockFd.lookup c = some fd ∧
        QuietOrCloses fd w h (h.writeMsgToClient c lastSeqNum payload body w) := by
  unfold writeMsgToClient getSockFd
  cases hfd : h.clientToSockFd.lookup c with
  | none =>
    left
    simp [Quiet.refl]
  | some fd =>
    dsimp only [Option.getD_some]
    split_ifs
    · exact Or.inl (.refl h)
    · refine Or.inr ⟨fd, rfl, ?_⟩
      have hlast := quiet_updateLastSeqNum h fd lastSeqNum
      rcases quiet_writeOrClose (h.updateLastSeqNum fd lastSeqNum) fd body with
        hquiet | ⟨hsent, h₁, hquiet, hclosed⟩
      · exact Or.inl (hlast.trans hquiet)
      · exact Or.inr ⟨hsent, h₁, hlast.trans hquiet, hclosed⟩

/-- Nothing but a login opens a session. -/
theorem session_of_onSocketClosed {fd sockFd : Int32} {n : SessionName}
    (hn : (h.onSocketClosed sockFd w).session fd = some n) : h.session fd = some n := by
  rw [(h.closes_onSocketClosed sockFd w).session] at hn
  split_ifs at hn
  exact hn

theorem QuietOrCloses.session {fd sockFd : Int32} {n : SessionName}
    (hq : QuietOrCloses sockFd w h h') (hn : h'.session fd = some n) : h.session fd = some n := by
  rcases hq with hq | ⟨-, h₁, hq, rfl⟩
  · rwa [← hq.session]
  · rw [← hq.session]
    exact session_of_onSocketClosed hn

theorem QuietOrCloses.users {sockFd : Int32} (hq : QuietOrCloses sockFd w h h') :
    h'.users = h.users := by
  rcases hq with hq | ⟨-, h₁, hq, rfl⟩
  · exact hq.users
  · exact (h₁.closes_onSocketClosed sockFd w).users.trans hq.users

/-! ### Logins -/

/-- A login opens a session: its credentials are right, and its client is not logged in. -/
def Accepts (h : ClientHandler) (msg : Login) : Prop :=
  h.credentials msg = none ∧ h.clientToSockFd.lookup msg.header.clientId = none

instance (h : ClientHandler) : DecidablePred h.Accepts := fun _ =>
  inferInstanceAs (Decidable (_ ∧ _))

/-- A login ends the session that its client has on another socket. -/
def Evicts (h : ClientHandler) (sockFd : Int32) (msg : Login) (otherFd : Int32) : Prop :=
  h.credentials msg = none ∧ h.clientToSockFd.lookup msg.header.clientId = some otherFd ∧
    otherFd ≠ sockFd ∧ (h.session otherFd).isSome

/-- The credentials of a login are those of its client. -/
theorem credentials_eq_none {msg : Login} :
    h.credentials msg = none ↔ ∃ user, h.users.lookup (cString msg.username) = some user ∧
      user.password = cString msg.password ∧ user.clientId = msg.header.clientId := by
  unfold credentials
  cases h.users.lookup (cString msg.username) with
  | none => simp
  | some user =>
    dsimp only
    by_cases hpassword : user.password = cString msg.password
    · by_cases hclient : user.clientId = msg.header.clientId <;> simp [hpassword, hclient]
    · simp [hpassword]

/-- **A login** is quiet, ends another session of its client, or opens a session. -/
theorem onLogin_cases (h : ClientHandler) (sockFd : Int32) (msg : Login) (sessionId : UInt64)
    (w : Circumstances) :
    (¬ h.Accepts msg ∧ Quiet h (h.onLogin sockFd msg sessionId w)) ∨
      (¬ h.Accepts msg ∧ ∃ otherFd, h.Evicts sockFd msg otherFd ∧
        ∃ h₁, Quiet h h₁ ∧ h.onLogin sockFd msg sessionId w = h₁.onSocketClosed otherFd w) ∨
      h.Accepts msg ∧
        QuietOrCloses sockFd w (h.logIn sockFd msg sessionId)
          (h.onLogin sockFd msg sessionId w) := by
  unfold onLogin Accepts Evicts
  cases hcred : h.credentials msg with
  | some status => exact Or.inl ⟨by simp, quiet_writeRaw ..⟩
  | none =>
    dsimp only
    cases hfd : h.clientToSockFd.lookup msg.header.clientId with
    | none => exact Or.inr (Or.inr ⟨⟨rfl, rfl⟩, quiet_writeOrClose _ sockFd _⟩)
    | some otherFd =>
      dsimp only
      split_ifs with hself
      · exact Or.inl ⟨by simp, .refl h⟩
      · cases hinfo : h.sockToSessionInfo.lookup otherFd with
        | none => exact Or.inl ⟨by simp, .refl h⟩
        | some info =>
          refine Or.inr (Or.inl ⟨by simp, otherFd, ⟨rfl, rfl, hself, ?_⟩, _, ?_, rfl⟩)
          · rw [session_of_lookup hinfo]
            rfl
          · exact (quiet_writeRaw ..).trans (quiet_writeMsg ..)

theorem session_logIn (h : ClientHandler) (sockFd : Int32) (msg : Login) (sessionId : UInt64)
    (fd : Int32) :
    (h.logIn sockFd msg sessionId).session fd =
      if fd = sockFd then some ⟨sessionId, msg.header.clientId⟩ else h.session fd := by
  unfold session logIn
  dsimp only
  split_ifs with hfd
  · rw [hfd, AList.lookup_insert]
    rfl
  · rw [AList.lookup_insert_ne hfd]

/-! ### Responses -/

/-- The client that a payload of the engine is for. -/
def recipient (h : ClientHandler) (p : OePayload) : Option UInt32 :=
  if p.msgType = .reject then some p.clientId
  else (h.exchToClientOrders.lookup p.exchOrderId).map ExchOrder.clientId

/-- A payload may end the session that its recipient is logged in on. -/
def QuietOrEnds (p : OePayload) (w : Circumstances) (h h' : ClientHandler) : Prop :=
  Quiet h h' ∨ ∃ c fd, h.recipient p = some c ∧ h.clientToSockFd.lookup c = some fd ∧
    QuietOrCloses fd w h h'

/-- **A response** is quiet or ends the session of its recipient, and a terminal one takes its order
out of the maps. -/
theorem handle_sessions (h : ClientHandler) (p : OePayload) (w : Circumstances) :
    ∃ h₁, QuietOrEnds p w h h₁ ∧ (h.handle p w = h₁ ∨ p.Terminal ∧
      ∃ order, h.exchToClientOrders.lookup p.exchOrderId = some order ∧
        h.handle p w = h₁.forget p.exchOrderId order) := by
  unfold handle
  by_cases hreject : p.msgType = .reject
  · rw [if_pos hreject]
    split_ifs
    · exact ⟨h, Or.inl (.refl h), Or.inl rfl⟩
    · refine ⟨_, (quiet_writeMsgToClient ..).imp_right ?_, Or.inl rfl⟩
      rintro ⟨fd, hfd, hquiet⟩
      exact ⟨p.clientId, fd, if_pos hreject, hfd, hquiet⟩
  rw [if_neg hreject]
  cases horder : h.exchToClientOrders.lookup p.exchOrderId with
  | none => exact ⟨h, Or.inl (.refl h), Or.inl rfl⟩
  | some order =>
    -- the recipient is the client that the handler has the order of
    have hwrite : ∀ body, QuietOrEnds p w h
        (h.writeMsgToClient order.clientId p.clientSeq (some p) body w) := by
      intro body
      refine (quiet_writeMsgToClient ..).imp_right ?_
      rintro ⟨fd, hfd, hquiet⟩
      refine ⟨order.clientId, fd, ?_, hfd, hquiet⟩
      rw [recipient, if_neg hreject, horder]
      rfl
    dsimp only
    split
    case h_1 => exact ⟨_, hwrite _, Or.inl rfl⟩
    case h_2 hfill =>
      refine ⟨_, hwrite (.fill order.orderId p.quantity p.price.toInt32 p.flags), ?_⟩
      split_ifs with hcloses
      · exact Or.inr ⟨Or.inr ⟨hfill, hcloses⟩, order, rfl, rfl⟩
      · exact Or.inl rfl
    case h_3 hclose => exact ⟨_, hwrite _, Or.inr ⟨Or.inl hclose, order, rfl, rfl⟩⟩
    case h_4 => exact ⟨h, Or.inl (.refl h), Or.inl rfl⟩

end ClientHandler

end Ndfex
