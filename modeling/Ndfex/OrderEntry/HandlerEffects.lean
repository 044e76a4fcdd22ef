import Ndfex.OrderEntry.ClientHandler

/-!
# What an event does to the handler

Every event of a socket and every response of the engine keeps the maps of orders as they are, but
for three things: a session that ends takes the open orders of its client with it, an admitted order
enters both maps, and a terminal response takes its order out of both.

## Main definitions

* `ClientHandler.Asks`: the requests that the handler puts to the engine of its own open orders
* `ClientHandler.Kept`: what an event keeps that enters no order
* `ClientHandler.Admits`: the handler admits a new order

## Main results

* `ClientHandler.kept_onLogin`, …, `ClientHandler.kept_onSocketClosed`: the events of the sockets
* `ClientHandler.onNewOrder_of_admits`: an admitted order
* `ClientHandler.handle_cases`: the responses of the engine
-/

namespace Ndfex

open Containers

namespace ClientHandler

/-- A request that needs no new order: a reject, or one for an order that is open. -/
def Asks (h : ClientHandler) (p : OePayload) : Prop :=
  p.msgType = .reject ∨
    (p.msgType = .deleteOrder ∨ p.msgType = .modifyOrder) ∧
      ∃ c o x, h.openOrder c o = some x ∧ p.exchOrderId = x.exchOrderId ∧ p.symbol = x.symbol

/-- The socket of a session is the one its client is logged in on. -/
def SessionsAgree (h : ClientHandler) : Prop :=
  ∀ fd info, h.sockToSessionInfo.lookup fd = some info →
    h.clientToSockFd.lookup info.clientId = some fd

/-- What an event keeps that enters no order and logs nobody in. The messages it writes answer the
payload. -/
structure Kept (payload : Option OePayload) (h h' : ClientHandler) : Prop where
  validator : h'.validator = h.validator
  taken : h'.toMatchingEngine.taken = h.toMatchingEngine.taken
  items : ∃ ps, h'.toMatchingEngine.items = h.toMatchingEngine.items ++ ps ∧ ∀ p ∈ ps, h.Asks p
  exch : h'.exchToClientOrders = h.exchToClientOrders
  opened : ∀ c o x, h'.openOrder c o = some x →
    h.openOrder c o = some x ∧ h'.clientToSockFd.lookup c = h.clientToSockFd.lookup c
  session : ∀ c fd, h'.clientToSockFd.lookup c = some fd →
    h.clientToSockFd.lookup c = some fd ∧ ∀ o, h'.openOrder c o = h.openOrder c o
  agree : h.SessionsAgree → h'.SessionsAgree
  written : ∃ ws, h'.written = h.written ++ ws ∧ ∀ w ∈ ws, w.payload = payload

variable {h h' h'' : ClientHandler} {payload : Option OePayload} {w : Circumstances}

namespace Kept

theorem refl (payload : Option OePayload) (h : ClientHandler) : Kept payload h h where
  validator := rfl
  taken := rfl
  items := ⟨[], by simp⟩
  exch := rfl
  opened _ _ _ hx := ⟨hx, rfl⟩
  session _ _ hfd := ⟨hfd, fun _ => rfl⟩
  agree := id
  written := ⟨[], by simp⟩

theorem trans (hk : Kept payload h h') (hk' : Kept payload h' h'') : Kept payload h h'' where
  validator := hk'.validator.trans hk.validator
  taken := hk'.taken.trans hk.taken
  items := by
    obtain ⟨ps, hps, hasks⟩ := hk.items
    obtain ⟨ps', hps', hasks'⟩ := hk'.items
    refine ⟨ps ++ ps', by rw [hps', hps, List.append_assoc], fun p hp => ?_⟩
    rcases List.mem_append.mp hp with hp | hp
    · exact hasks p hp
    · -- an order that is open later was open before
      refine (hasks' p hp).imp_right fun ⟨htype, c, o, x, hx, hid⟩ => ?_
      exact ⟨htype, c, o, x, (hk.opened c o x hx).1, hid⟩
  exch := hk'.exch.trans hk.exch
  opened c o x hx := by
    obtain ⟨hx', hfd'⟩ := hk'.opened c o x hx
    obtain ⟨hx, hfd⟩ := hk.opened c o x hx'
    exact ⟨hx, hfd'.trans hfd⟩
  session c fd hfd := by
    obtain ⟨hfd', hopen'⟩ := hk'.session c fd hfd
    obtain ⟨hfd, hopen⟩ := hk.session c fd hfd'
    exact ⟨hfd, fun o => (hopen' o).trans (hopen o)⟩
  agree hagree := hk'.agree (hk.agree hagree)
  written := by
    obtain ⟨ws, hws, hpay⟩ := hk.written
    obtain ⟨ws', hws', hpay'⟩ := hk'.written
    refine ⟨ws ++ ws', by rw [hws', hws, List.append_assoc], fun w hw => ?_⟩
    rcases List.mem_append.mp hw with hw | hw
    · exact hpay w hw
    · exact hpay' w hw

end Kept

/-! ### Sessions and writes -/

theorem kept_emplace {p : OePayload} (hp : h.Asks p) : Kept payload h (h.emplace p) :=
  { Kept.refl payload h with
    taken := Fifo.taken_push ..
    items := ⟨[p], rfl, by simpa using hp⟩ }

theorem kept_writeRaw (h : ClientHandler) (sockFd : Int32) (seqNum clientId : UInt32)
    (body : ResponseBody) : Kept none h (h.writeRaw sockFd seqNum clientId body) :=
  { Kept.refl none h with written := ⟨_, rfl, by simp⟩ }

/-- Sessions agree as long as a session keeps its client. -/
theorem SessionsAgree.insert (hagree : h.SessionsAgree) {sockFd : Int32} {info info' : SessionInfo}
    (hinfo : h.sockToSessionInfo.lookup sockFd = some info)
    (hclient : info'.clientId = info.clientId) :
    SessionsAgree { h with sockToSessionInfo := h.sockToSessionInfo.insert sockFd info' } := by
  intro fd x hx
  by_cases hfd : fd = sockFd
  · rw [hfd, AList.lookup_insert] at hx
    obtain rfl := Option.some.inj hx
    rw [hclient, hfd]
    exact hagree sockFd info hinfo
  · rw [AList.lookup_insert_ne hfd] at hx
    exact hagree fd x hx

theorem kept_updateLastSeqNum (h : ClientHandler) (sockFd : Int32) (seqNum : UInt32) :
    Kept payload h (h.updateLastSeqNum sockFd seqNum) := by
  unfold updateLastSeqNum
  split
  · exact .refl payload h
  case h_2 info hinfo =>
    exact { Kept.refl payload h with agree := fun hagree => hagree.insert hinfo rfl }

theorem kept_writeMsg (h : ClientHandler) (sockFd : Int32) (body : ResponseBody) :
    Kept payload h (h.writeMsg sockFd payload body w).2 := by
  unfold writeMsg
  split
  · exact .refl payload h
  case h_2 info hinfo =>
    refine { Kept.refl payload h with agree := fun hagree => ?_, written := ⟨_, rfl, by simp⟩ }
    have hclient : { info with exchSeqNum := info.exchSeqNum + 1 }.clientId = info.clientId := rfl
    exact hagree.insert hinfo hclient

theorem openOrder_cancelAllClientOrders (h : ClientHandler) (c c' : UInt32) (o : UInt64) :
    (h.cancelAllClientOrders c w).openOrder c' o = if c' = c then none else h.openOrder c' o := by
  unfold cancelAllClientOrders openOrder
  cases horders : h.clientToOpenOrders.lookup c with
  | none =>
    split_ifs with hc
    · rw [hc, horders]
      rfl
    · rfl
  | some orders =>
    dsimp only
    split_ifs with hc
    · rw [hc, AList.lookup_erase]
      rfl
    · rw [AList.lookup_erase_ne hc]

/-- The end of a session asks the engine to cancel every open order of its client. -/
theorem items_cancelAllClientOrders (h : ClientHandler) (c : UInt32) :
    ∃ ps, (h.cancelAllClientOrders c w).toMatchingEngine = h.toMatchingEngine.pushAll ps ∧
      ∀ p ∈ ps, h.Asks p := by
  unfold cancelAllClientOrders
  cases horders : h.clientToOpenOrders.lookup c with
  | none => exact ⟨[], rfl, by simp⟩
  | some orders =>
    refine ⟨_, rfl, fun p hp => ?_⟩
    obtain ⟨x, hx, rfl⟩ := List.mem_map.mp hp
    have hopen : h.openOrder c x.1 = some x.2 := by
      rw [openOrder, horders, Option.bind_some]
      exact AList.mem_lookup_iff.mpr ((w.traverse_perm orders).mem_iff.mp hx)
    exact Or.inr ⟨Or.inl rfl, c, x.1, x.2, hopen, rfl, rfl⟩

theorem kept_onSocketClosed (h : ClientHandler) (sockFd : Int32) :
    Kept payload h (h.onSocketClosed sockFd w) := by
  unfold onSocketClosed
  cases hinfo : h.sockToSessionInfo.lookup sockFd with
  | none => exact .refl payload h
  | some info =>
    obtain ⟨ps, hps, hasks⟩ := @items_cancelAllClientOrders w h info.clientId
    have hopen := openOrder_cancelAllClientOrders h (w := w) info.clientId
    have hcancel : h.cancelAllClientOrders info.clientId w =
        { h with
          toMatchingEngine := (h.cancelAllClientOrders info.clientId w).toMatchingEngine
          clientToOpenOrders := (h.cancelAllClientOrders info.clientId w).clientToOpenOrders } := by
      unfold cancelAllClientOrders
      split <;> rfl
    dsimp only
    constructor
    · rw [hcancel]
    · rw [hps]
      exact Fifo.taken_pushAll ..
    · exact ⟨ps, by rw [hps]; exact Fifo.items_pushAll .., hasks⟩
    · rw [hcancel]
    · intro c o x hx
      replace hx : (h.cancelAllClientOrders info.clientId w).openOrder c o = some x := hx
      rw [hopen] at hx
      split_ifs at hx with hc
      rw [hcancel]
      exact ⟨hx, AList.lookup_erase_ne hc⟩
    · intro c fd hfd
      rw [hcancel] at hfd
      by_cases hc : c = info.clientId
      · rw [hc, AList.lookup_erase] at hfd
        cases hfd
      · rw [AList.lookup_erase_ne hc] at hfd
        exact ⟨hfd, fun o => (hopen c o).trans (if_neg hc)⟩
    · intro hagree fd x hx
      rw [hcancel] at hx ⊢
      have hne : fd ≠ sockFd := by
        rintro rfl
        rw [AList.lookup_erase] at hx
        cases hx
      rw [AList.lookup_erase_ne hne] at hx
      -- the client of another socket is another one
      have hclient : x.clientId ≠ info.clientId := by
        intro heq
        have hfd := hagree fd x hx
        rw [heq, hagree sockFd info hinfo] at hfd
        exact hne (Option.some.inj hfd).symm
      rw [AList.lookup_erase_ne hclient]
      exact hagree fd x hx
    · rw [hcancel]
      exact ⟨[], by simp⟩

theorem kept_writeOrClose (h : ClientHandler) (sockFd : Int32) (body : ResponseBody) :
    Kept payload h (h.writeOrClose sockFd payload body w) := by
  unfold writeOrClose
  have hwrite := @kept_writeMsg payload w h sockFd body
  dsimp only
  split_ifs
  · exact hwrite
  · exact hwrite.trans (kept_onSocketClosed _ sockFd)

theorem kept_writeMsgToClient (h : ClientHandler) (c lastSeqNum : UInt32) (body : ResponseBody) :
    Kept payload h (h.writeMsgToClient c lastSeqNum payload body w) := by
  unfold writeMsgToClient
  dsimp only
  split_ifs
  · exact .refl payload h
  · exact (kept_updateLastSeqNum h _ lastSeqNum).trans (kept_writeOrClose _ _ body)

theorem written_onSocketClosed (h : ClientHandler) (sockFd : Int32) :
    (h.onSocketClosed sockFd w).written = h.written := by
  unfold onSocketClosed cancelAllClientOrders
  split
  · rfl
  · dsimp only
    split <;> rfl

theorem written_updateLastSeqNum (h : ClientHandler) (sockFd : Int32) (seqNum : UInt32) :
    (h.updateLastSeqNum sockFd seqNum).written = h.written := by
  unfold updateLastSeqNum
  split <;> rfl

/-- The handler wrote one message at most, which answers the payload. -/
def WroteOne (payload : Option OePayload) (h h' : ClientHandler) : Prop :=
  h'.written = h.written ∨ ∃ x : Written, x.payload = payload ∧ h'.written = h.written ++ [x]

theorem wroteOne_writeOrClose (h : ClientHandler) (sockFd : Int32) (body : ResponseBody) :
    WroteOne payload h (h.writeOrClose sockFd payload body w) := by
  have hwrite : WroteOne payload h (h.writeMsg sockFd payload body w).2 := by
    unfold writeMsg
    split
    · exact Or.inl rfl
    · exact Or.inr ⟨⟨_, payload, _⟩, rfl, rfl⟩
  unfold writeOrClose
  dsimp only
  split_ifs
  · exact hwrite
  · unfold WroteOne at hwrite ⊢
    rwa [written_onSocketClosed]

theorem wroteOne_writeMsgToClient (h : ClientHandler) (c lastSeqNum : UInt32)
    (body : ResponseBody) : WroteOne payload h (h.writeMsgToClient c lastSeqNum payload body w) := by
  unfold writeMsgToClient
  dsimp only
  split_ifs
  · exact Or.inl rfl
  · have hwrite := @wroteOne_writeOrClose payload w (h.updateLastSeqNum (h.getSockFd c) lastSeqNum)
      (h.getSockFd c) body
    unfold WroteOne at hwrite
    rwa [written_updateLastSeqNum] at hwrite

/-! ### Requests -/

theorem kept_sendOrderReject (h : ClientHandler) (header : RequestHeader) (reason : RejectReason)
    (orderId : UInt64) : Kept payload h (h.sendOrderReject header reason orderId) :=
  kept_emplace (Or.inl rfl)

/-- The handler with a client logged in. -/
def logIn (h : ClientHandler) (sockFd : Int32) (msg : Login) (sessionId : UInt64) :
    ClientHandler :=
  { h with
    sockToSessionInfo :=
      h.sockToSessionInfo.insert sockFd ⟨sessionId, msg.header.clientId, msg.header.seqNum, 0⟩
    clientToSockFd := h.clientToSockFd.insert msg.header.clientId sockFd }

/-- A client that logs in without a route leaves the other routes alone. -/
theorem SessionsAgree.logIn (hagree : h.SessionsAgree) {sockFd : Int32} {msg : Login}
    (sessionId : UInt64) (hnone : h.clientToSockFd.lookup msg.header.clientId = none) :
    (h.logIn sockFd msg sessionId).SessionsAgree := by
  intro fd info hinfo
  by_cases hfd : fd = sockFd
  · subst hfd
    obtain rfl := Option.some.inj ((AList.lookup_insert _).symm.trans hinfo)
    exact AList.lookup_insert _
  · have hroute := hagree fd info ((AList.lookup_insert_ne hfd).symm.trans hinfo)
    have hne : info.clientId ≠ msg.header.clientId := by
      intro heq
      rw [heq, hnone] at hroute
      cases hroute
    exact (AList.lookup_insert_ne hne).trans hroute

/-- A login does what a failed one does, or logs in a client that was not logged in. -/
theorem kept_onLogin (h : ClientHandler) (sockFd : Int32) (msg : Login) (sessionId : UInt64) :
    Kept none h (h.onLogin sockFd msg sessionId w) ∨
      h.clientToSockFd.lookup msg.header.clientId = none ∧
        Kept none (h.logIn sockFd msg sessionId) (h.onLogin sockFd msg sessionId w) := by
  unfold onLogin
  cases h.credentials msg with
  | some status => exact Or.inl (kept_writeRaw ..)
  | none =>
    dsimp only
    cases hfd : h.clientToSockFd.lookup msg.header.clientId with
    | none => exact Or.inr ⟨rfl, kept_writeOrClose _ sockFd _⟩
    | some otherFd =>
      dsimp only
      split_ifs
      · exact Or.inl (.refl none h)
      · cases h.sockToSessionInfo.lookup otherFd with
        | none => exact Or.inl (.refl none h)
        | some session =>
          left
          dsimp only
          apply (kept_writeRaw h sockFd msg.header.seqNum msg.header.clientId _).trans
          exact (kept_writeMsg _ otherFd _).trans (kept_onSocketClosed _ otherFd)

theorem kept_onDeleteOrder (h : ClientHandler) (sockFd : Int32) (msg : DeleteOrder) :
    Kept none h (h.onDeleteOrder sockFd msg) := by
  unfold onDeleteOrder
  split_ifs
  · exact kept_sendOrderReject ..
  · cases hopen : h.openOrder msg.header.clientId msg.orderId with
    | none => exact kept_sendOrderReject ..
    | some order => exact kept_emplace (Or.inr ⟨Or.inl rfl, _, _, order, hopen, rfl, rfl⟩)

theorem kept_onModifyOrder (h : ClientHandler) (sockFd : Int32) (msg : ModifyOrder) :
    Kept none h (h.onModifyOrder sockFd msg) := by
  unfold onModifyOrder
  split_ifs
  · exact kept_sendOrderReject ..
  · cases hopen : h.openOrder msg.header.clientId msg.orderId with
    | none => exact kept_sendOrderReject ..
    | some order =>
      dsimp only
      split
      · exact kept_emplace (Or.inr ⟨Or.inr rfl, _, _, order, hopen, rfl, rfl⟩)
      · exact kept_sendOrderReject ..

/-- The handler admits a new order: its session is valid, it passes the validator, and its client
has no open order under its id. -/
def Admits (h : ClientHandler) (sockFd : Int32) (msg : NewOrder) : Prop :=
  h.validateSession sockFd msg.header.sessionId msg.header.clientId = true ∧
    h.validator.validateNewOrder msg.orderId msg.symbol msg.side msg.quantity msg.price
      msg.flags = .none ∧
    h.openOrder msg.header.clientId msg.orderId = none

instance (h : ClientHandler) (sockFd : Int32) (msg : NewOrder) : Decidable (h.Admits sockFd msg) :=
  inferInstanceAs (Decidable (_ ∧ _ ∧ _))

theorem kept_onNewOrder {sockFd : Int32} {msg : NewOrder} (hno : ¬ h.Admits sockFd msg)
    (now : UInt64) : Kept none h (h.onNewOrder sockFd msg now) := by
  unfold onNewOrder
  split_ifs with hsession
  · exact kept_sendOrderReject ..
  · split
    case h_1 hvalid =>
      dsimp only
      split_ifs with hdup
      · exact kept_sendOrderReject ..
      · refine absurd ⟨by simpa using hsession, hvalid, ?_⟩ hno
        rw [Option.not_isSome_iff_eq_none] at hdup
        unfold openOrder
        cases horders : h.clientToOpenOrders.lookup msg.header.clientId with
        | none => rfl
        | some orders => simpa [horders] using hdup
    case h_2 => exact kept_sendOrderReject ..

/-- The payload of an admitted order. -/
def newPayload (msg : NewOrder) (now : UInt64) : OePayload :=
  .make .newOrder now msg.symbol msg.header.seqNum msg.header.clientId msg.side msg.quantity
    msg.price msg.flags

/-- The handler with a new order in both maps. -/
def enter (h : ClientHandler) (msg : NewOrder) (now : UInt64) : ClientHandler :=
  { h with
    clientToOpenOrders := h.clientToOpenOrders.insert msg.header.clientId
      (((h.clientToOpenOrders.lookup msg.header.clientId).getD ∅).insert msg.orderId
        ⟨now, msg.symbol⟩)
    exchToClientOrders := h.exchToClientOrders.insert now ⟨msg.header.clientId, msg.orderId⟩ }

/-- **An admitted order** enters both maps and goes to the engine. -/
theorem onNewOrder_of_admits {sockFd : Int32} {msg : NewOrder} (hadm : h.Admits sockFd msg)
    (now : UInt64) : h.onNewOrder sockFd msg now = (h.enter msg now).emplace (newPayload msg now) := by
  obtain ⟨hsession, hvalid, hnone⟩ := hadm
  have hdup : ((h.clientToOpenOrders.lookup msg.header.clientId).getD ∅).lookup msg.orderId =
      none := by
    unfold openOrder at hnone
    cases horders : h.clientToOpenOrders.lookup msg.header.clientId with
    | none => exact AList.lookup_empty _
    | some orders => simpa [horders] using hnone
  unfold onNewOrder
  rw [if_neg (by simp [hsession]), hvalid]
  simp [hdup, enter, newPayload]

theorem openOrder_enter (h : ClientHandler) (msg : NewOrder) (now : UInt64) (c : UInt32)
    (o : UInt64) :
    (h.enter msg now).openOrder c o =
      if c = msg.header.clientId ∧ o = msg.orderId then some ⟨now, msg.symbol⟩
      else h.openOrder c o := by
  unfold enter openOrder
  by_cases hc : c = msg.header.clientId
  · rw [hc, AList.lookup_insert, Option.bind_some]
    by_cases ho : o = msg.orderId
    · rw [if_pos ⟨rfl, ho⟩, ho, AList.lookup_insert]
    · rw [if_neg fun h => ho h.2, AList.lookup_insert_ne ho]
      cases h.clientToOpenOrders.lookup msg.header.clientId with
      | none => exact AList.lookup_empty _
      | some orders => rfl
  · rw [if_neg fun h => hc h.1, AList.lookup_insert_ne hc]

/-! ### Responses -/

theorem openOrder_forget (h : ClientHandler) (e : UInt64) (order : ExchOrder) (c : UInt32)
    (o : UInt64) :
    (h.forget e order).openOrder c o =
      if c = order.clientId ∧ o = order.orderId then none else h.openOrder c o := by
  unfold forget openOrder
  by_cases hc : c = order.clientId
  · rw [hc, AList.lookup_insert, Option.bind_some]
    by_cases ho : o = order.orderId
    · rw [if_pos ⟨rfl, ho⟩, ho, AList.lookup_erase]
    · rw [if_neg fun h => ho h.2, AList.lookup_erase_ne ho]
      cases h.clientToOpenOrders.lookup order.clientId with
      | none => exact AList.lookup_empty _
      | some orders => rfl
  · rw [if_neg fun h => hc h.1, AList.lookup_insert_ne hc]

@[simp] theorem toMatchingEngine_forget (h : ClientHandler) (e : UInt64) (order : ExchOrder) :
    (h.forget e order).toMatchingEngine = h.toMatchingEngine := rfl

/-- A terminal response of a known order is written, and takes the order out of both maps. -/
theorem handle_terminal {p : OePayload} (hp : p.Terminal) {order : ExchOrder}
    (horder : h.exchToClientOrders.lookup p.exchOrderId = some order) :
    ∃ h', Kept (some p) h h' ∧ h.handle p w = h'.forget p.exchOrderId order := by
  unfold handle
  rcases hp with hclose | ⟨hfill, hflags⟩
  · rw [if_neg (by simp [hclose]), horder]
    simp only [hclose]
    exact ⟨_, kept_writeMsgToClient .., rfl⟩
  · rw [if_neg (by simp [hfill]), horder]
    simp only [hfill, if_pos hflags]
    exact ⟨_, kept_writeMsgToClient .., rfl⟩

/-- Nothing is written for an order that the handler does not know. -/
theorem handle_unknown {p : OePayload} (hp : p.msgType ≠ .reject)
    (hnone : h.exchToClientOrders.lookup p.exchOrderId = none) : h.handle p w = h := by
  unfold handle
  rw [if_neg hp, hnone]

/-- Any other response keeps the maps. -/
theorem kept_handle {p : OePayload} (hp : ¬ p.Terminal) :
    Kept (some p) h (h.handle p w) := by
  rw [OePayload.Terminal, not_or, not_and] at hp
  unfold handle
  by_cases hreject : p.msgType = .reject
  · rw [if_pos hreject]
    split_ifs
    · exact .refl _ h
    · exact kept_writeMsgToClient ..
  rw [if_neg hreject]
  cases h.exchToClientOrders.lookup p.exchOrderId with
  | none => exact .refl _ h
  | some order =>
    dsimp only
    split
    · exact kept_writeMsgToClient ..
    case h_2 hfill =>
      rw [if_neg (hp.2 hfill)]
      exact kept_writeMsgToClient ..
    case h_3 hclose => exact absurd hclose hp.1
    · exact .refl _ h

/-- **A response** is terminal and takes its order out of both maps, or keeps them. -/
theorem handle_cases (h : ClientHandler) (p : OePayload) (w : Circumstances) :
    (p.Terminal ∧ ∃ order h', h.exchToClientOrders.lookup p.exchOrderId = some order ∧
        Kept (some p) h h' ∧ h.handle p w = h'.forget p.exchOrderId order) ∨
      (p.Terminal → h.exchToClientOrders.lookup p.exchOrderId = none) ∧
        Kept (some p) h (h.handle p w) := by
  by_cases hterm : p.Terminal
  · cases horder : h.exchToClientOrders.lookup p.exchOrderId with
    | none =>
      have hreject : p.msgType ≠ .reject := by
        rcases hterm with hclose | ⟨hfill, -⟩ <;> simp [*]
      rw [handle_unknown hreject horder]
      exact Or.inr ⟨fun _ => rfl, .refl _ h⟩
    | some order =>
      obtain ⟨h', hk, hhandle⟩ := @handle_terminal h w p hterm order horder
      exact Or.inl ⟨hterm, order, h', rfl, hk, hhandle⟩
  · exact Or.inr ⟨fun h => absurd h hterm, kept_handle hterm⟩

theorem clientToSockFd_writeOrClose (hsent : w.sent = true) (h : ClientHandler) (sockFd : Int32)
    (body : ResponseBody) :
    (h.writeOrClose sockFd payload body w).clientToSockFd = h.clientToSockFd := by
  unfold writeOrClose writeMsg
  cases hinfo : h.sockToSessionInfo.lookup sockFd with
  | none => simp [onSocketClosed, hinfo]
  | some info => simp [hsent]

theorem clientToSockFd_writeMsgToClient (hsent : w.sent = true) (h : ClientHandler)
    (c lastSeqNum : UInt32) (body : ResponseBody) :
    (h.writeMsgToClient c lastSeqNum payload body w).clientToSockFd = h.clientToSockFd := by
  have hlast : ∀ fd, (h.updateLastSeqNum fd lastSeqNum).clientToSockFd = h.clientToSockFd := by
    intro fd
    unfold updateLastSeqNum
    split <;> rfl
  unfold writeMsgToClient
  dsimp only
  split_ifs
  · rfl
  · rw [clientToSockFd_writeOrClose hsent, hlast]

/-- No session ends as long as sends succeed. -/
theorem clientToSockFd_handle (hsent : w.sent = true) (h : ClientHandler) (p : OePayload) :
    (h.handle p w).clientToSockFd = h.clientToSockFd := by
  unfold handle
  by_cases hreject : p.msgType = .reject
  · rw [if_pos hreject]
    split_ifs
    · rfl
    · exact clientToSockFd_writeMsgToClient hsent ..
  rw [if_neg hreject]
  cases h.exchToClientOrders.lookup p.exchOrderId with
  | none => rfl
  | some order =>
    dsimp only
    split
    · exact clientToSockFd_writeMsgToClient hsent ..
    · have hwrite := @clientToSockFd_writeMsgToClient (some p) w hsent h order.clientId p.clientSeq
        (.fill order.orderId p.quantity p.price.toInt32 p.flags)
      split_ifs
      · exact hwrite
      · exact hwrite
    · exact clientToSockFd_writeMsgToClient hsent ..
    · rfl

/-- A response writes one message at most. -/
theorem wroteOne_handle (h : ClientHandler) (p : OePayload) : WroteOne (some p) h (h.handle p w) := by
  unfold handle
  by_cases hreject : p.msgType = .reject
  · rw [if_pos hreject]
    split_ifs
    · exact Or.inl rfl
    · exact wroteOne_writeMsgToClient ..
  rw [if_neg hreject]
  cases h.exchToClientOrders.lookup p.exchOrderId with
  | none => exact Or.inl rfl
  | some order =>
    dsimp only
    split
    · exact wroteOne_writeMsgToClient ..
    · have hwrote := @wroteOne_writeMsgToClient (some p) w h order.clientId p.clientSeq
        (.fill order.orderId p.quantity p.price.toInt32 p.flags)
      split_ifs
      · exact hwrote
      · exact hwrote
    · exact wroteOne_writeMsgToClient ..
    · exact Or.inl rfl

end ClientHandler

end Ndfex
