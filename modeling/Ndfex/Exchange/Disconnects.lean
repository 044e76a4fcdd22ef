import Ndfex.Exchange.Messages

/-!
# Cancellation on disconnect

When a socket is closed, the handler cancels what the client of its session has open. So an order is
cancelled at the end of its session if the handler still has it in both its places: the session of its
socket is its client's, and it is open under its client's id. It loses the first when another client
logs in over the socket, and the second when a late response meets a newer order under the id.

## Main definitions

* `Exchange.Ending`: the engine ended the order, or is asked to delete it
* `ClientHandler.Holds`: the order is in both its places
* `Exchange.KeepsOrders`: what an event takes out of its place is ending

## Main results

* `Exchange.Covered.step`, `Exchange.ending_of_closed`: an order is ending or in its places, and
  ending after its socket is closed
* `cancelled_on_disconnect`: with empty queues no order rests that was entered over a closed socket
* `taken_over_rests`: a socket is taken over and closed, and its first client's order rests
-/

namespace Ndfex

open Containers Transition

namespace ClientHandler

/-- The engine is asked to delete the order. -/
def Asked (h : ClientHandler) (e : UInt64) : Prop :=
  ∃ p ∈ h.toMatchingEngine.items, p.msgType = .deleteOrder ∧ p.exchOrderId = e

instance (h : ClientHandler) : DecidablePred h.Asked := fun e =>
  inferInstanceAs (Decidable (∃ p ∈ h.toMatchingEngine.items,
    p.msgType = .deleteOrder ∧ p.exchOrderId = e))

/-- The order is in both its places: the session of its socket is its client's, and it is open under
its client's id. -/
def Holds (h : ClientHandler) (x : SessionOrder) : Prop :=
  (h.session x.sockFd).map SessionName.clientId = some x.clientId ∧
    (h.openOrder x.clientId x.orderId).map OpenOrder.exchOrderId = some x.exchOrderId

variable {h h' : ClientHandler} {w : Circumstances} {x : SessionOrder} {fd : Int32}

/-- The client of a session is logged in on its socket. -/
theorem SessionsAgree.route (ha : h.SessionsAgree) {c : UInt32}
    (hc : (h.session fd).map SessionName.clientId = some c) :
    h.clientToSockFd.lookup c = some fd := by
  obtain ⟨n, hn, rfl⟩ := Option.map_eq_some_iff.mp hc
  obtain ⟨info, hinfo, rfl⟩ := exists_info hn
  exact ha fd info hinfo

theorem Asked.append {e : UInt64} (ha : h.Asked e) {ps : List OePayload}
    (hitems : h'.toMatchingEngine.items = h.toMatchingEngine.items ++ ps) : h'.Asked e := by
  obtain ⟨p, hp, hdelete⟩ := ha
  exact ⟨p, hitems ▸ List.mem_append_left ps hp, hdelete⟩

theorem SessionsAgree.quiet (ha : h.SessionsAgree) (hq : h.Quiet h') : h'.SessionsAgree := by
  intro fd info hinfo
  rw [hq.clientToSockFd]
  exact ha.route (by rw [← hq.session, session_of_lookup hinfo]; rfl)

namespace Holds

theorem quiet (hx : h.Holds x) (hq : h.Quiet h') : h'.Holds x := by
  unfold Holds
  rw [hq.session, hq.openOrder]
  exact hx

/-- The end of a session cancels the orders of its socket, and keeps those of the others. -/
theorem onSocketClosed (hx : h.Holds x) (ha : h.SessionsAgree) (fd : Int32) :
    (h.onSocketClosed fd w).Asked x.exchOrderId ∨
      fd ≠ x.sockFd ∧ (h.onSocketClosed fd w).Holds x := by
  obtain ⟨hsession, hopen⟩ := hx
  have hcloses := h.closes_onSocketClosed fd w
  by_cases hfd : fd = x.sockFd
  · left
    subst hfd
    obtain ⟨n, hn, hc⟩ := Option.map_eq_some_iff.mp hsession
    obtain ⟨y, hy, hid⟩ := Option.map_eq_some_iff.mp hopen
    have hmem : cancelRequest n.clientId ⟨x.orderId, y⟩ ∈ h.cancels x.sockFd w :=
      mem_cancels.mpr ⟨n, x.orderId, y, hn, by rwa [hc], rfl⟩
    refine ⟨cancelRequest n.clientId ⟨x.orderId, y⟩, ?_, rfl, hid⟩
    rw [hcloses.toMatchingEngine, Fifo.items_pushAll]
    exact List.mem_append_right _ hmem
  · -- the client of another socket is another one
    have hother : ¬ (h.session fd).map SessionName.clientId = some x.clientId := by
      intro hc
      have hroute := ha.route hc
      rw [ha.route hsession] at hroute
      exact hfd (Option.some.inj hroute).symm
    refine Or.inr ⟨hfd, ?_, ?_⟩
    · rwa [hcloses.session, if_neg (Ne.symm hfd)]
    · rwa [hcloses.openOrder, if_neg hother]

theorem quietOrCloses (hx : h.Holds x) (ha : h.SessionsAgree) (hq : h.QuietOrCloses fd w h') :
    h'.Asked x.exchOrderId ∨ h'.Holds x := by
  rcases hq with hq | ⟨-, h₁, hq, rfl⟩
  · exact Or.inr (hx.quiet hq)
  · exact ((hx.quiet hq).onSocketClosed (ha.quiet hq) fd).imp_right And.right

/-- A request leaves an order in its places. -/
theorem receive (hx : h.Holds x) (fd : Int32) (m : OrderMessage) : (h.receive fd m).Holds x := by
  obtain ⟨hsession, hopen⟩ := hx
  refine ⟨by rwa [session_receive], ?_⟩
  rcases h.receive_cases fd m with
    ⟨reason, -, hreject⟩ | ⟨-, ⟨p, -, hforward⟩ | ⟨msg, now, -, hadm, hentry⟩⟩
  · rw [hreject]
    exact hopen
  · rw [hforward]
    exact hopen
  · rw [hentry]
    show ((h.enter msg now).openOrder _ _).map _ = _
    rw [openOrder_enter, if_neg]
    · exact hopen
    · -- a new order takes no id that is open
      rintro ⟨hc, ho⟩
      rw [hc, ho, hadm.2.2] at hopen
      cases hopen

/-- A login over another socket leaves an order in its places. -/
theorem logIn (hx : h.Holds x) {msg : Login} (sessionId : UInt64) (hfd : fd ≠ x.sockFd) :
    (h.logIn fd msg sessionId).Holds x := by
  obtain ⟨hsession, hopen⟩ := hx
  refine ⟨?_, hopen⟩
  rwa [session_logIn, if_neg (Ne.symm hfd)]

/-- A terminal response leaves an order in its places, unless it is for the client's order id. -/
theorem forget (hx : h.Holds x) (e : UInt64) {order : ExchOrder}
    (hother : ¬ (x.clientId = order.clientId ∧ x.orderId = order.orderId)) :
    (h.forget e order).Holds x := by
  obtain ⟨hsession, hopen⟩ := hx
  refine ⟨hsession, ?_⟩
  rwa [openOrder_forget, if_neg hother]

end Holds

end ClientHandler

namespace Exchange

variable {s t : Exchange}

/-- The end of the order is on its way: the engine ended it, or is asked to delete it. -/
def Ending (s : Exchange) (e : UInt64) : Prop :=
  Terminated e s.broker.toClient.items ∨ s.handler.Asked e

instance (s : Exchange) : DecidablePred s.Ending := fun e =>
  inferInstanceAs (Decidable
    ((∃ p ∈ s.broker.toClient.items, p.Terminal ∧ p.exchOrderId = e) ∨ s.handler.Asked e))

/-- What an event takes out of its place is ending: the open orders of a client whose socket another
client takes over with a login, and the order that is open under the client's id of an order with a
terminal response. -/
def KeepsOrders (s : Exchange) : ExchangeEvent → Prop
  | .login fd msg _ _ => s.handler.Accepts msg → ∀ n ∈ s.handler.session fd,
    ∀ orders ∈ s.handler.clientToOpenOrders.lookup n.clientId, ∀ x ∈ orders.entries,
      s.Ending x.2.exchOrderId
  | .handlerTurn _ => ∀ p ∈ s.broker.toClient.front?, p.Terminal →
    ∀ order ∈ s.handler.exchToClientOrders.lookup p.exchOrderId,
      ∀ y ∈ s.handler.openOrder order.clientId order.orderId, s.Ending y.exchOrderId
  | _ => True

instance (s : Exchange) : DecidablePred s.KeepsOrders
  | .login fd msg _ _ => inferInstanceAs (Decidable (s.handler.Accepts msg →
      ∀ n ∈ s.handler.session fd, ∀ orders ∈ s.handler.clientToOpenOrders.lookup n.clientId,
        ∀ x ∈ orders.entries, s.Ending x.2.exchOrderId))
  | .handlerTurn _ => inferInstanceAs (Decidable (∀ p ∈ s.broker.toClient.front?, p.Terminal →
      ∀ order ∈ s.handler.exchToClientOrders.lookup p.exchOrderId,
        ∀ y ∈ s.handler.openOrder order.clientId order.orderId, s.Ending y.exchOrderId))
  | .newOrder .. => instDecidableTrue
  | .deleteOrder .. => instDecidableTrue
  | .modifyOrder .. => instDecidableTrue
  | .socketClosed .. => instDecidableTrue
  | .engineTurn => instDecidableTrue
  | .heartbeat => instDecidableTrue

/-! ## Ending orders -/

/-- What is ending stays so. -/
theorem Ending.after {e : UInt64} (he : s.Ending e) (hn : s.HistoryFits) (hs : s.Sound)
    (l : ExchangeEvent) : (s.after l).Ending e := by
  rcases he with hterm | hasked
  · obtain ⟨ps, hitems⟩ := responses_after hs l
    left
    rw [hitems, terminated_append]
    exact Or.inl hterm
  · obtain ⟨ps, hitems⟩ := items_after hn l
    exact Or.inr (hasked.append hitems)

/-- The order is ending, or in both its places. -/
def Covered (s : Exchange) (x : SessionOrder) : Prop := s.Ending x.exchOrderId ∨ s.handler.Holds x

variable {x : SessionOrder} {l : ExchangeEvent}

/-- **Every step** that satisfies `KeepsOrders` keeps an order covered. -/
theorem Covered.step (hx : s.Covered x) (hn : s.HistoryFits) (hs : s.Sound)
    (hkeeps : s.KeepsOrders l) (h : ExchangeStep s l t) : t.Covered x := by
  obtain ⟨-, rfl⟩ := h
  by_cases hending : s.Ending x.exchOrderId
  · exact Or.inl (hending.after hn hs l)
  have hholds : s.handler.Holds x := hx.resolve_left hending
  have hplaces : (s.after l).handler.Asked x.exchOrderId ∨ (s.after l).handler.Holds x := by
    refine handler_after (I := fun h' => h'.Asked x.exchOrderId ∨ h'.Holds x) (Or.inr hholds)
      ?_ ?_ ?_ ?_ ?_
    · rintro fd msg sessionId w rfl
      rcases s.handler.onLogin_cases fd msg sessionId w with
        ⟨-, hq⟩ | ⟨-, otherFd, -, h₁, hq, hclosed⟩ | ⟨hacc, hq⟩
      · exact Or.inr (hholds.quiet hq)
      · rw [hclosed]
        have ha : h₁.SessionsAgree := hn.agree.quiet hq
        exact ((hholds.quiet hq).onSocketClosed ha otherFd).imp_right And.right
      · -- a login over the socket of the order would take it out of its place
        have hfd : fd ≠ x.sockFd := by
          rintro rfl
          obtain ⟨hsession, hopen⟩ := hholds
          obtain ⟨n, hsession, hclient⟩ := Option.map_eq_some_iff.mp hsession
          obtain ⟨y, hy, hid⟩ := Option.map_eq_some_iff.mp hopen
          obtain ⟨orders, horders, hy⟩ := Option.bind_eq_some_iff.mp hy
          have hend := hkeeps hacc n hsession orders (by rwa [hclient])
            ⟨x.orderId, y⟩ (AList.mem_lookup_iff.mp hy)
          exact hending (hid ▸ hend)
        exact (hholds.logIn sessionId hfd).quietOrCloses (hn.agree.logIn sessionId hacc.2) hq
    · exact fun fd m _ => Or.inr (hholds.receive fd m)
    · exact fun fd w _ => (hholds.onSocketClosed hn.agree fd).imp_right And.right
    · rintro p w rfl hp
      obtain ⟨h₁, hends, hhandle⟩ := s.handler.handle_sessions p w
      have hfirst : h₁.Asked x.exchOrderId ∨ h₁.Holds x := by
        rcases hends with hq | ⟨c, fd, -, -, hq⟩
        · exact Or.inr (hholds.quiet hq)
        · exact hholds.quietOrCloses hn.agree hq
      rcases hhandle with hhandle | ⟨hterm, order, horder, hhandle⟩ <;> rw [hhandle]
      · exact hfirst
      · refine hfirst.imp id fun hx₁ => hx₁.forget p.exchOrderId ?_
        -- a terminal response that met the order would take it out of its place
        rintro ⟨hc, ho⟩
        obtain ⟨y, hy, hid⟩ := Option.map_eq_some_iff.mp hholds.2
        rw [hc, ho] at hy
        exact hending (hid ▸ hkeeps p hp hterm order horder y hy)
    · rintro -
      exact Or.inr hholds
  exact hplaces.imp_left Or.inr

/-- **The close of its socket** puts an order to its end. -/
theorem ending_of_closed (hx : s.Covered x) (hn : s.HistoryFits) (hs : s.Sound)
    (w : Circumstances) : (s.after (.socketClosed x.sockFd w)).Ending x.exchOrderId := by
  rcases hx with hending | hholds
  · exact hending.after hn hs _
  · rcases hholds.onSocketClosed hn.agree x.sockFd (w := w) with hasked | ⟨hne, -⟩
    · exact Or.inr hasked
    · exact absurd rfl hne

/-- An admitted order is in its places. -/
theorem holds_of_admits {fd : Int32} {msg : NewOrder} (hadm : s.handler.Admits fd msg)
    (now : UInt64) : (s.after (.newOrder fd msg now)).handler.Holds
      ⟨fd, msg.header.clientId, msg.orderId, now⟩ := by
  show (s.handler.onNewOrder fd msg now).Holds _
  rw [ClientHandler.onNewOrder_of_admits hadm]
  have hsession := ClientHandler.validateSession_iff.mp hadm.1
  constructor
  · show (s.handler.session fd).map _ = _
    rw [hsession]
    rfl
  · show ((s.handler.enter msg now).openOrder _ _).map _ = _
    rw [ClientHandler.openOrder_enter, if_pos ⟨rfl, rfl⟩]
    rfl

/-! ## The engine's part -/

/-- The orders of the deletions that the engine took are ended. -/
def DeletionsDone (s : Exchange) : Prop :=
  ∀ p ∈ s.handler.toMatchingEngine.taken, p.msgType = .deleteOrder →
    Terminated p.exchOrderId s.broker.toClient.items

/-- After a deletion its order is on no book: it was entered for the symbol of the deletion. -/
theorem not_rests_deleted {books : UInt32 → PriorityBook} {p : OePayload}
    (ha : Agreed s.handler s.broker books) (ho : Owned s.handler.toMatchingEngine.items)
    (hp : s.handler.toMatchingEngine.front? = some p) (hdelete : p.msgType = .deleteOrder) :
    ¬ ∃ symbol, (s.broker.booksOf books p symbol).Rests p.exchOrderId := by
  have hsplit : s.handler.toMatchingEngine.items =
      s.handler.toMatchingEngine.taken ++ p :: s.handler.toMatchingEngine.pop.pending := by
    rw [← Fifo.pending_of_front? hp, Fifo.taken_append_pending]
  have hop : s.broker.opOf p = some (.deleteOrder p.exchOrderId) := by
    rcases ha.op_of_admitted (ha.admitted p (Fifo.mem_items_of_front? hp)) with
      ⟨hreject, -⟩ | ⟨op, hop, -⟩
    · cases hreject.symm.trans hdelete
    · obtain ⟨hpop, -⟩ := MatchingEngineBroker.op_of_opOf hop
      rw [OePayload.op, hdelete] at hpop
      rw [hop, ← hpop]
  rintro ⟨symbol, hrests⟩
  rw [MatchingEngineBroker.booksOf, hop] at hrests
  dsimp only at hrests
  by_cases hsymbol : symbol = p.symbol
  · subst hsymbol
    rw [Function.update_self, PriorityBook.step, PriorityBook.deleteOrder] at hrests
    split_ifs at hrests with hfound
    · exact ((PriorityBook.rests_remove ..).mp hrests).2 rfl
    · rw [PriorityBook.rests_iff] at hrests
      exact hfound (Option.isSome_iff_ne_none.mpr hrests)
  · rw [Function.update_of_ne hsymbol] at hrests
    obtain ⟨r, hr, hnew, hid, rfl⟩ := ha.sound.entered symbol _ hrests
    obtain ⟨r', hr', hnew', hid', -, hsymbol'⟩ := ho _ p _ hsplit (Or.inl hdelete)
    have hmem : ∀ q ∈ s.handler.toMatchingEngine.taken, q ∈ s.handler.toMatchingEngine.items := by
      intro q hq
      rw [hsplit]
      exact List.mem_append_left _ hq
    -- both requests entered the order
    have heq := eq_of_newOrder ha.assigned (hmem r hr) (hmem r' hr') hnew hnew'
      (hid.trans hid'.symm)
    exact hsymbol (heq ▸ hsymbol')

/-- **Every step** answers the deletions it takes. -/
theorem DeletionsDone.step (hd : s.DeletionsDone) (hs : s.Sound) (ho : Owners s.handler)
    (h : ExchangeStep s l t) : t.DeletionsDone := by
  obtain ⟨ps, hresponses⟩ := responses_after hs l
  obtain ⟨-, rfl⟩ := h
  have hold : ∀ p ∈ s.handler.toMatchingEngine.taken, p.msgType = .deleteOrder →
      Terminated p.exchOrderId (s.after l).broker.toClient.items := by
    intro p hp hdelete
    rw [hresponses, terminated_append]
    exact Or.inl (hd p hp hdelete)
  intro p hp hdelete
  by_cases hl : l = .engineTurn
  swap
  · rw [taken_after hl] at hp
    exact hold p hp hdelete
  subst hl
  obtain ⟨-, -, books, hagreed⟩ := hs
  cases hfront : s.handler.toMatchingEngine.front? with
  | none =>
    have hsame : s.after .engineTurn = s := by simp only [after, engineTurn, hfront]
    rw [hsame] at hp ⊢
    exact hd p hp hdelete
  | some q =>
    have htaken := Fifo.taken_pop hfront
    rw [after_engineTurn hagreed hfront] at hp hold ⊢
    rcases List.mem_append.mp (htaken ▸ hp) with hp' | hp'
    · exact hold p hp' hdelete
    · -- the request that the engine took is the deletion
      obtain rfl := List.mem_singleton.mp hp'
      have hagreed' := hagreed.engine hfront
      have hgone := not_rests_deleted hagreed ho.owned hfront hdelete
      rw [hagreed'.rests, not_and, not_not] at hgone
      apply hgone
      rw [htaken, newIds_append, List.mem_append]
      left
      have hentry := ho.owned _ p s.handler.toMatchingEngine.pop.pending (by
        rw [← Fifo.pending_of_front? hfront, Fifo.taken_append_pending]) (Or.inl hdelete)
      exact hentry.mem_newIds

/-- An order that is ending rests no more once the queues are empty. -/
theorem Ending.not_resting {e : UInt64} (he : s.Ending e) (hs : s.Sound) (hd : s.DeletionsDone)
    (hrequests : s.handler.toMatchingEngine.pending = []) (symbol : UInt32) :
    s.broker.resting symbol e = none := by
  obtain ⟨-, -, books, hagreed⟩ := hs
  have hterm : Terminated e s.broker.toClient.items := by
    rcases he with hterm | ⟨p, hp, hdelete, rfl⟩
    · exact hterm
    · rw [← Fifo.taken_eq_items hrequests] at hp
      exact hd p hp hdelete
  by_contra hne
  have hrests := (hagreed.sound.rests_iff symbol e).mpr (Option.isSome_iff_ne_none.mpr hne)
  exact ((hagreed.rests e).mp ⟨symbol, hrests⟩).2 hterm

/-- What holds in every state of a run. -/
structure Regular (s : Exchange) : Prop where
  sound : s.Sound
  fits : s.HistoryFits
  owners : Owners s.handler
  done : s.DeletionsDone

theorem Regular.step (hr : s.Regular) (h : ExchangeStep s l t) : t.Regular :=
  ⟨hr.sound.step h, hr.fits.step h, owners_step hr.owners h, hr.done.step hr.sound hr.owners h⟩

theorem regular_run {symbols : List SymbolDefinition} {users : AList fun _ : List UInt8 => UserInfo}
    {ls : List ExchangeEvent} (h : Run ExchangeStep (start symbols users) ls s) : s.Regular := by
  refine h.invariant (fun _ _ _ hr hstep => hr.step hstep)
    ⟨sound_start symbols users, historyFits_run (.nil _), owners_run (.nil _), ?_⟩
  rintro p ⟨⟩

end Exchange

/-- **Cancellation on disconnect**: an order was entered over a socket, from then to the close of the
socket every event keeps the orders in their places, and after any further events the engine has no
request left. Then the order does not rest. -/
theorem cancelled_on_disconnect {symbols : List SymbolDefinition}
    {users : AList fun _ : List UInt8 => UserInfo} {ls₁ ls₂ ls₃ : List ExchangeEvent}
    {s₁ s₂ s : Exchange} {fd : Int32} {msg : NewOrder} {now : UInt64} {w : Circumstances}
    (hbefore : Run ExchangeStep (Exchange.start symbols users) ls₁ s₁)
    (hadm : s₁.handler.Admits fd msg)
    (hopen : Run (Guarded Exchange.KeepsOrders ExchangeStep) s₁ (.newOrder fd msg now :: ls₂) s₂)
    (hclosed : Run ExchangeStep s₂ (.socketClosed fd w :: ls₃) s)
    (hempty : s.handler.toMatchingEngine.pending = []) (symbol : UInt32) :
    s.broker.resting symbol now = none := by
  have hregular := Exchange.regular_run hbefore
  obtain ⟨t₁, ⟨-, hentry⟩, hopen⟩ := hopen.exists_first
  obtain ⟨t₂, hclose, hclosed⟩ := hclosed.exists_first
  -- the order is in its places from its entry on
  have hcovered₁ : t₁.Covered ⟨fd, msg.header.clientId, msg.orderId, now⟩ := by
    rw [hentry.2]
    exact Or.inr (Exchange.holds_of_admits hadm now)
  have hbetween : s₂.Regular ∧ s₂.Covered ⟨fd, msg.header.clientId, msg.orderId, now⟩ := by
    refine hopen.invariant
      (I := fun s => s.Regular ∧ s.Covered ⟨fd, msg.header.clientId, msg.orderId, now⟩) ?_
      ⟨hregular.step hentry, hcovered₁⟩
    rintro s l t ⟨hr, hc⟩ ⟨hkeeps, hstep⟩
    exact ⟨hr.step hstep, hc.step hr.fits hr.sound hkeeps hstep⟩
  obtain ⟨hregular₂, hcovered₂⟩ := hbetween
  -- the close puts it to its end, whatever comes later
  have hending : t₂.Ending now := by
    rw [hclose.2]
    exact Exchange.ending_of_closed hcovered₂ hregular₂.fits hregular₂.sound w
  have hlater : s.Regular ∧ s.Ending now := by
    refine hclosed.invariant (I := fun s => s.Regular ∧ s.Ending now) ?_
      ⟨hregular₂.step hclose, hending⟩
    rintro s l t ⟨hr, he⟩ ⟨hen, rfl⟩
    exact ⟨hr.step ⟨hen, rfl⟩, he.after hr.fits hr.sound l⟩
  exact hlater.2.not_resting hlater.1.sound hlater.1.done hempty symbol

/-- A client enters an order, and its socket is closed. -/
theorem cancelled_on_disconnect_resting :
    ∃ s, Run ExchangeStep Exchange.startGold
        [.login 5 ⟨⟨1, 100, 0⟩, [97], [97]⟩ 7 .fine,
          .newOrder 5 ⟨⟨2, 100, 7⟩, 1, 1, Side.buy, 10, 50, 0⟩ 1000, .engineTurn,
          .socketClosed 5 .fine, .engineTurn] s ∧
      s.broker.resting 1 1000 = none := by
  have hbefore : Run ExchangeStep Exchange.startGold
      [.login 5 ⟨⟨1, 100, 0⟩, [97], [97]⟩ 7 .fine] _ :=
    Exchange.run_of_enabled (by decide +kernel)
  have hopen : Run (Guarded Exchange.KeepsOrders ExchangeStep)
      ([.login 5 ⟨⟨1, 100, 0⟩, [97], [97]⟩ 7 .fine].foldl Exchange.after Exchange.startGold)
      [.newOrder 5 ⟨⟨2, 100, 7⟩, 1, 1, Side.buy, 10, 50, 0⟩ 1000, .engineTurn] _ :=
    Exchange.guarded_run_of_enabled (by decide +kernel) (by decide +kernel)
  have hclosed : Run ExchangeStep
      ([.newOrder 5 ⟨⟨2, 100, 7⟩, 1, 1, Side.buy, 10, 50, 0⟩ 1000, .engineTurn].foldl
        Exchange.after
        ([.login 5 ⟨⟨1, 100, 0⟩, [97], [97]⟩ 7 .fine].foldl Exchange.after Exchange.startGold))
      [.socketClosed 5 .fine, .engineTurn] _ :=
    Exchange.run_of_enabled (by decide +kernel)
  refine ⟨_, (hbefore.append hopen.of_guarded).append hclosed, ?_⟩
  exact cancelled_on_disconnect hbefore (by decide +kernel) hopen hclosed (by decide +kernel) 1

/-- Another client logs in over the socket before it is closed: the order of the first one rests. -/
theorem taken_over_rests :
    ∃ s, Run ExchangeStep Exchange.startGold
        [.login 5 ⟨⟨1, 100, 0⟩, [97], [97]⟩ 7 .fine,
          .newOrder 5 ⟨⟨2, 100, 7⟩, 1, 1, Side.buy, 10, 50, 0⟩ 1000,
          .login 5 ⟨⟨1, 200, 0⟩, [98], [98]⟩ 8 .fine, .socketClosed 5 .fine,
          .engineTurn, .handlerTurn .fine] s ∧
      s.handler.toMatchingEngine.pending = [] ∧ s.broker.toClient.pending = [] ∧
        (s.broker.resting 1 1000).isSome :=
  ⟨_, Exchange.run_of_enabled (by decide +kernel), by decide +kernel, by decide +kernel,
    by decide +kernel⟩

end Ndfex
