import Ndfex.Containers.KeyIndex
import Ndfex.Exchange.Authority
import Ndfex.OrderEntry.Deliveries

/-!
# Sessions and their connections

The handler keeps the session of a socket in one map and the socket of a client in another. A login
writes both, without a look at the session that the socket may already have. Sockets are descriptors,
which the system hands out again once they are closed; what a session is for is the connection over
which its client logged in.

## Main definitions

* `ClientHandler.Inverse`: the two maps are inverse to each other
* `Connections`: the exchange, with the connections that had each descriptor and who logged in
* `Connections.Fits`: the maps are inverse, and every session is of the present connection
* `Connections.TakesFree`: logins and new connections take descriptors without a session

## Main results

* `ClientHandler.inverse_onLogin_iff`: a login keeps the maps inverse exactly if it takes no other
  session's socket
* `sessions_inverse`: the maps are inverse in every run that satisfies `TakesFree`
* `login_taken_over`: the maps are not inverse after a login over another client's socket
-/

namespace Ndfex

open Containers Transition

namespace ClientHandler

/-- `client_to_sock_fd` and `sock_to_session_info` are inverse to each other. -/
def Inverse (h : ClientHandler) : Prop :=
  Indexes SessionInfo.clientId h.sockToSessionInfo h.clientToSockFd

variable {h h' : ClientHandler} {w : Circumstances} {fd : Int32} {n : SessionName}

theorem map_clientId_lookup (h : ClientHandler) (fd : Int32) :
    (h.sockToSessionInfo.lookup fd).map SessionInfo.clientId =
      (h.session fd).map SessionName.clientId := by
  unfold session
  rw [Option.map_map]
  rfl

/-- The route of a client leads to the session that it has. -/
theorem Inverse.route_iff (hi : h.Inverse) {c : UInt32} {fd : Int32} :
    h.clientToSockFd.lookup c = some fd ↔
      ∃ n, h.session fd = some n ∧ n.clientId = c := by
  rw [hi c fd, ← Option.map_eq_some_iff, ← Option.map_eq_some_iff, map_clientId_lookup]

/-- A client has one session at most. -/
theorem Inverse.unique (hi : h.Inverse) {fd' : Int32} {n' : SessionName}
    (hn : h.session fd = some n) (hn' : h.session fd' = some n') (hc : n.clientId = n'.clientId) :
    fd = fd' := by
  have hroute := hi.route_iff.mpr ⟨n, hn, rfl⟩
  rw [hi.route_iff.mpr ⟨n', hn', hc.symm⟩] at hroute
  exact (Option.some.inj hroute).symm

theorem Inverse.quiet (hi : h.Inverse) (hq : h.Quiet h') : h'.Inverse := by
  unfold Inverse
  rw [hq.clientToSockFd]
  refine hi.congr fun fd => ?_
  rw [map_clientId_lookup, map_clientId_lookup, hq.session]

theorem Inverse.onSocketClosed (hi : h.Inverse) (fd : Int32) : (h.onSocketClosed fd w).Inverse := by
  cases hinfo : h.sockToSessionInfo.lookup fd with
  | none => rwa [onSocketClosed_of_none (lookup_eq_none.mp hinfo)]
  | some info =>
    rw [onSocketClosed_of_lookup hinfo]
    exact hi.erase hinfo

theorem Inverse.quietOrCloses (hi : h.Inverse) (hq : h.QuietOrCloses fd w h') : h'.Inverse := by
  rcases hq with hq | ⟨-, h₁, hq, rfl⟩
  · exact hi.quiet hq
  · exact (hi.quiet hq).onSocketClosed fd

theorem Inverse.receive (hi : h.Inverse) (fd : Int32) (m : OrderMessage) :
    (h.receive fd m).Inverse := by
  obtain ⟨hsessions, hroutes, -⟩ := sessions_receive h fd m
  unfold Inverse
  rwa [hsessions, hroutes]

theorem Inverse.handle (hi : h.Inverse) (p : OePayload) (w : Circumstances) :
    (h.handle p w).Inverse := by
  obtain ⟨h₁, hends, hhandle⟩ := h.handle_sessions p w
  have hi₁ : h₁.Inverse := by
    rcases hends with hq | ⟨c, fd, -, -, hq⟩
    · exact hi.quiet hq
    · exact hi.quietOrCloses hq
  rcases hhandle with hhandle | ⟨-, order, -, hhandle⟩
  · rwa [hhandle]
  · rw [hhandle]
    exact hi₁

/-- A login over a socket with a session leaves the route of the session's client behind. -/
theorem not_inverse_of_logIn {msg : Login} {sessionId : UInt64} (hi : h.Inverse)
    (hnone : h.clientToSockFd.lookup msg.header.clientId = none) (hn : h.session fd = some n)
    (hq : (h.logIn fd msg sessionId).QuietOrCloses fd w h') : ¬ h'.Inverse := by
  have hroute := hi.route_iff.mpr ⟨n, hn, rfl⟩
  have hne : n.clientId ≠ msg.header.clientId := by
    intro heq
    rw [heq, hnone] at hroute
    cases hroute
  have hlogin : (h.logIn fd msg sessionId).clientToSockFd.lookup n.clientId = some fd :=
    (AList.lookup_insert_ne hne).trans hroute
  have hsession : (h.logIn fd msg sessionId).session fd = some ⟨sessionId, msg.header.clientId⟩ := by
    rw [session_logIn, if_pos rfl]
  intro hi'
  rcases hq with hq | ⟨-, h₁, hq, rfl⟩
  · -- the session is the new client's
    rw [← hq.clientToSockFd] at hlogin
    obtain ⟨n', hn', hc⟩ := hi'.route_iff.mp hlogin
    rw [hq.session, hsession] at hn'
    obtain rfl := Option.some.inj hn'
    exact hne hc.symm
  · -- the new session has ended already, and the old route is still there
    have hcloses := h₁.closes_onSocketClosed fd w
    have hold : (h₁.onSocketClosed fd w).clientToSockFd.lookup n.clientId = some fd := by
      rw [hcloses.route, if_neg, hq.clientToSockFd]
      · exact hlogin
      · rw [hq.session, hsession]
        exact fun heq => hne (Option.some.inj heq).symm
    obtain ⟨n', hn', -⟩ := hi'.route_iff.mp hold
    rw [hcloses.session, if_pos rfl] at hn'
    cases hn'

/-- **A login** keeps the maps inverse exactly if it does not take over the socket of a session. -/
theorem inverse_onLogin_iff (hi : h.Inverse) (fd : Int32) (msg : Login) (sessionId : UInt64) :
    (h.onLogin fd msg sessionId w).Inverse ↔ (h.Accepts msg → h.session fd = none) := by
  rcases h.onLogin_cases fd msg sessionId w with
    ⟨hno, hq⟩ | ⟨hno, otherFd, -, h₁, hq, hclosed⟩ | ⟨hacc, hq⟩
  · exact iff_of_true (hi.quiet hq) fun hacc => absurd hacc hno
  · rw [hclosed]
    exact iff_of_true ((hi.quiet hq).onSocketClosed otherFd) fun hacc => absurd hacc hno
  · constructor
    · intro hi' _
      by_contra hsome
      obtain ⟨n, hn⟩ := Option.ne_none_iff_exists'.mp hsome
      exact not_inverse_of_logIn hi hacc.2 hn hq hi'
    · intro hfree
      have hlogin : (h.logIn fd msg sessionId).Inverse :=
        hi.insert (lookup_eq_none.mpr (hfree hacc)) hacc.2
      exact hlogin.quietOrCloses hq

end ClientHandler

/-- A connection: the descriptor that it has, and how many connections had the descriptor before. -/
structure Connection where
  sockFd : Int32
  number : ℕ
deriving DecidableEq, Repr

/-- The exchange with its connections. That of a descriptor is the present one, and the logins are
those that the handler accepted. Both are a history that no step reads. -/
structure Connections where
  exchange : Exchange
  number : Int32 → ℕ
  logins : List (Connection × UInt32)

/-- A connection gets a descriptor, or the exchange takes a step. -/
inductive ConnectionEvent
  | accept (sockFd : Int32)
  | exchange (l : ExchangeEvent)

namespace Connections

/-- The exchange before the first connection. -/
def start (symbols : List SymbolDefinition) (users : AList fun _ : List UInt8 => UserInfo) :
    Connections :=
  ⟨Exchange.start symbols users, fun _ => 0, []⟩

/-- The present connection of a descriptor. -/
def connection (s : Connections) (sockFd : Int32) : Connection := ⟨sockFd, s.number sockFd⟩

/-- The logins that an event adds. -/
def loginsOf (s : Connections) : ExchangeEvent → List (Connection × UInt32)
  | .login sockFd msg _ _ =>
    if s.exchange.handler.Accepts msg then [(s.connection sockFd, msg.header.clientId)] else []
  | _ => []

/-- The connections after an event. -/
def after (s : Connections) : ConnectionEvent → Connections
  | .accept sockFd => { s with number := Function.update s.number sockFd (s.number sockFd + 1) }
  | .exchange l =>
    { s with exchange := s.exchange.after l, logins := s.logins ++ s.loginsOf l }

/-- What the exchange allows. -/
def Enabled (s : Connections) : ConnectionEvent → Prop
  | .accept _ => True
  | .exchange l => s.exchange.Enabled l

instance (s : Connections) : DecidablePred s.Enabled
  | .accept _ => instDecidableTrue
  | .exchange l => inferInstanceAs (Decidable (s.exchange.Enabled l))

/-- The maps are inverse, and every session is of the present connection of its socket, over which its
client logged in. -/
structure Fits (s : Connections) : Prop where
  inverse : s.exchange.handler.Inverse
  present : ∀ fd n, s.exchange.handler.session fd = some n →
    (s.connection fd, n.clientId) ∈ s.logins

/-- The logins are of connections that there were. -/
def Dated (s : Connections) : Prop := ∀ x ∈ s.logins, x.1.number ≤ s.number x.1.sockFd

/-- A login that succeeds and a new connection take a descriptor without a session. -/
def TakesFree (s : Connections) : ConnectionEvent → Prop
  | .accept fd => s.exchange.handler.session fd = none
  | .exchange (.login fd msg _ _) =>
    s.exchange.handler.Accepts msg → s.exchange.handler.session fd = none
  | .exchange _ => True

instance (s : Connections) : DecidablePred s.TakesFree
  | .accept fd => inferInstanceAs (Decidable (s.exchange.handler.session fd = none))
  | .exchange (.login fd msg _ _) => inferInstanceAs (Decidable
      (s.exchange.handler.Accepts msg → s.exchange.handler.session fd = none))
  | .exchange (.newOrder ..) => instDecidableTrue
  | .exchange (.deleteOrder ..) => instDecidableTrue
  | .exchange (.modifyOrder ..) => instDecidableTrue
  | .exchange (.socketClosed ..) => instDecidableTrue
  | .exchange (.handlerTurn _) => instDecidableTrue
  | .exchange .engineTurn => instDecidableTrue
  | .exchange .heartbeat => instDecidableTrue

end Connections

/-- The steps of the exchange with its connections. -/
def ConnectionStep (s : Connections) (l : ConnectionEvent) (t : Connections) : Prop :=
  s.Enabled l ∧ t = s.after l

namespace Connections

variable {s t : Connections}

/-- The steps of the exchange keep the maps inverse, but for the logins that take over a socket. -/
theorem inverse_after_iff (hi : s.exchange.handler.Inverse) (l : ExchangeEvent) :
    (s.exchange.after l).handler.Inverse ↔ s.TakesFree (.exchange l) := by
  cases l with
  | login fd msg sessionId w => exact ClientHandler.inverse_onLogin_iff hi fd msg sessionId
  | newOrder fd msg now => exact iff_of_true (hi.receive fd (.newOrder msg now)) trivial
  | deleteOrder fd msg => exact iff_of_true (hi.receive fd (.deleteOrder msg)) trivial
  | modifyOrder fd msg => exact iff_of_true (hi.receive fd (.modifyOrder msg)) trivial
  | socketClosed fd w => exact iff_of_true (hi.onSocketClosed fd) trivial
  | handlerTurn w =>
    refine iff_of_true ?_ trivial
    simp only [Exchange.after, Exchange.handlerTurn]
    split
    · exact hi
    · exact hi.handle _ w
  | engineTurn =>
    refine iff_of_true ?_ trivial
    simp only [Exchange.after, Exchange.engineTurn]
    split
    · exact hi
    · split
      · exact hi
      · exact hi
  | heartbeat => exact iff_of_true hi trivial

/-- A session after a step of the exchange is of a connection over which its client logged in. -/
theorem present_after (hf : s.Fits) {l : ExchangeEvent} {fd : Int32} {n : SessionName}
    (hn : (s.exchange.after l).handler.session fd = some n) :
    (s.connection fd, n.clientId) ∈ s.logins ++ s.loginsOf l := by
  rcases Exchange.session_after hn with hold | ⟨msg, w, rfl, hacc, hclient⟩
  · exact List.mem_append_left _ (hf.present fd n hold)
  · rw [loginsOf, if_pos hacc, hclient]
    exact List.mem_append_right _ (List.mem_singleton_self _)

/-- **Every step** that satisfies `TakesFree`, and no other, keeps the maps inverse and the sessions to
their connections. -/
theorem fits_after_iff (hf : s.Fits) (hd : s.Dated) (l : ConnectionEvent) :
    (s.after l).Fits ↔ s.TakesFree l := by
  cases l with
  | exchange l =>
    rw [← inverse_after_iff hf.inverse]
    exact ⟨fun hf' => hf'.inverse, fun hi => ⟨hi, fun fd n hn => present_after hf hn⟩⟩
  | accept fd =>
    constructor
    · -- over the new connection nobody logged in
      intro hf'
      show s.exchange.handler.session fd = none
      by_contra hsome
      obtain ⟨n, hn⟩ := Option.ne_none_iff_exists'.mp hsome
      have hle := hd _ (hf'.present fd n hn)
      simp only [connection, after, Function.update_self] at hle
      omega
    · intro hfree
      refine ⟨hf.inverse, fun fd' n hn => ?_⟩
      have hne : fd' ≠ fd := by
        rintro rfl
        cases hfree.symm.trans hn
      have hold := hf.present fd' n hn
      simpa only [connection, after, Function.update_of_ne hne] using hold

theorem Dated.after (hd : s.Dated) (l : ConnectionEvent) : (s.after l).Dated := by
  intro x hx
  cases l with
  | exchange l =>
    rcases List.mem_append.mp hx with hx | hx
    · exact hd x hx
    · cases l with
      | login fd msg sessionId w =>
        rw [loginsOf] at hx
        split_ifs at hx
        · obtain rfl := List.mem_singleton.mp hx
          exact Nat.le_refl _
        · cases hx
      | _ => cases hx
  | accept fd =>
    have hle := hd x hx
    simp only [Connections.after]
    by_cases hfd : x.1.sockFd = fd
    · rw [hfd] at hle ⊢
      rw [Function.update_self]
      exact Nat.le_succ_of_le hle
    · rwa [Function.update_of_ne hfd]

/-- What the handler writes for a response, it writes to the present connection of a socket over which
the recipient logged in, in the recipient's name. -/
theorem delivered (hf : s.Fits) {p : OePayload} {x : Written}
    (hx : x ∈ s.exchange.handler.delivery p) :
    x.payload = some p ∧ ∃ c, s.exchange.handler.recipient p = some c ∧
      x.response.header.clientId = c ∧ (s.connection x.sockFd, c) ∈ s.logins := by
  obtain ⟨c, body, fd, info, hreply, hrouted, rfl⟩ := ClientHandler.mem_delivery.mp hx
  obtain ⟨hroute, -, hinfo⟩ := ClientHandler.routed_eq_some.mp hrouted
  obtain ⟨n, hn, hc⟩ := hf.inverse.route_iff.mp hroute
  have hclient : info.clientId = c := by
    rw [ClientHandler.session_of_lookup hinfo] at hn
    rw [← hc, ← Option.some.inj hn]
    rfl
  exact ⟨rfl, c, ClientHandler.recipient_of_reply hreply, hclient, hc ▸ hf.present fd n hn⟩

/-- A client without a session can log in over any socket. -/
theorem can_log_in (hf : s.Fits) {fd : Int32} {msg : Login} {sessionId : UInt64}
    {w : Circumstances} (hcred : s.exchange.handler.credentials msg = none)
    (hnone : ∀ fd n, s.exchange.handler.session fd = some n → n.clientId ≠ msg.header.clientId)
    (hsent : w.sent = true) :
    (s.exchange.handler.onLogin fd msg sessionId w).session fd =
      some ⟨sessionId, msg.header.clientId⟩ := by
  have hroute : s.exchange.handler.clientToSockFd.lookup msg.header.clientId = none := by
    by_contra hsome
    obtain ⟨otherFd, hother⟩ := Option.ne_none_iff_exists'.mp hsome
    obtain ⟨n, hn, hc⟩ := hf.inverse.route_iff.mp hother
    exact hnone otherFd n hn hc
  have hacc : s.exchange.handler.Accepts msg := ⟨hcred, hroute⟩
  rcases s.exchange.handler.onLogin_cases fd msg sessionId w with
    ⟨hno, -⟩ | ⟨hno, -⟩ | ⟨-, hq | ⟨hfailed, -⟩⟩
  · exact absurd hacc hno
  · exact absurd hacc hno
  · rw [hq.session, ClientHandler.session_logIn, if_pos rfl]
  · cases hsent.symm.trans hfailed

end Connections

/-- **Sessions and routes** are inverse in every run whose logins and connections take descriptors
without a session; a step keeps them so exactly if it does. Then a client has one session at most, it
can log in when it has none, and the handler writes the responses for a client to the connection over
which it logged in. -/
theorem sessions_inverse {symbols : List SymbolDefinition}
    {users : AList fun _ : List UInt8 => UserInfo} {ls : List ConnectionEvent} {s : Connections}
    (h : Run (Guarded Connections.TakesFree ConnectionStep) (Connections.start symbols users) ls s) :
    s.Fits ∧ (∀ l, (s.after l).Fits ↔ s.TakesFree l) ∧
      (∀ fd fd' n n', s.exchange.handler.session fd = some n →
        s.exchange.handler.session fd' = some n' → n.clientId = n'.clientId → fd = fd') ∧
      (∀ fd msg sessionId w, s.exchange.handler.credentials msg = none →
        (∀ fd n, s.exchange.handler.session fd = some n → n.clientId ≠ msg.header.clientId) →
        w.sent = true → (s.exchange.handler.onLogin fd msg sessionId w).session fd =
          some ⟨sessionId, msg.header.clientId⟩) ∧
      ∀ p w, ∃ xs, (s.exchange.handler.handle p w).written = s.exchange.handler.written ++ xs ∧
        ∀ x ∈ xs, x.payload = some p ∧ ∃ c, s.exchange.handler.recipient p = some c ∧
          x.response.header.clientId = c ∧ (s.connection x.sockFd, c) ∈ s.logins := by
  obtain ⟨hf, hd⟩ : s.Fits ∧ s.Dated := by
    refine h.invariant (I := fun s => s.Fits ∧ s.Dated) ?_ ⟨⟨Indexes.empty _, ?_⟩, ?_⟩
    · rintro s l t ⟨hf, hd⟩ ⟨hfree, -, rfl⟩
      exact ⟨(Connections.fits_after_iff hf hd l).mpr hfree, hd.after l⟩
    · rintro x ⟨⟩
    · intro fd n hn
      cases hn
  refine ⟨hf, Connections.fits_after_iff hf hd, ?_, ?_, ?_⟩
  · intro fd fd' n n' hn hn' hc
    exact hf.inverse.unique hn hn' hc
  · intro fd msg sessionId w hcred hnone hsent
    exact Connections.can_log_in hf hcred hnone hsent
  · intro p w
    exact ⟨_, ClientHandler.written_handle .., fun x hx => Connections.delivered hf hx⟩

/-- The exchange at its start, with two clients and one symbol. -/
def Connections.startGold : Connections := ⟨Exchange.startGold, fun _ => 0, []⟩

/-- Events that are enabled and satisfy a guard make a guarded run. -/
theorem Connections.guarded_run_of_enabled {s : Connections}
    {G : Connections → ConnectionEvent → Prop} {ls : List ConnectionEvent}
    (hG : ∀ i (hi : i < ls.length), G ((ls.take i).foldl after s) ls[i] ∧
      ((ls.take i).foldl after s).Enabled ls[i]) :
    Run (Guarded G ConnectionStep) s ls (ls.foldl after s) := by
  have hrun : Run (fun s l t => (G s l ∧ s.Enabled l) ∧ t = s.after l) s ls (ls.foldl after s) :=
    Run.of_foldl hG
  exact hrun.mono fun _ _ _ h => ⟨h.1.1, h.1.2, h.2⟩

/-- A descriptor has two connections, and a client logs in over each. -/
theorem sessions_inverse_reused :
    ([.accept 5, .exchange (.login 5 ⟨⟨1, 100, 0⟩, [97], [97]⟩ 7 .fine),
      .exchange (.socketClosed 5 .fine), .accept 5,
      .exchange (.login 5 ⟨⟨1, 200, 0⟩, [98], [98]⟩ 8 .fine)].foldl Connections.after
        Connections.startGold).Fits :=
  (sessions_inverse (Connections.guarded_run_of_enabled (by decide +kernel))).1

/-- A client logs in over the socket of another one, whose route stays behind. -/
theorem login_taken_over :
    ∃ s, Run ConnectionStep Connections.startGold
        [.accept 5, .exchange (.login 5 ⟨⟨1, 100, 0⟩, [97], [97]⟩ 7 .fine),
          .exchange (.login 5 ⟨⟨1, 200, 0⟩, [98], [98]⟩ 8 .fine)] s ∧
      ¬ (s.exchange.handler.clientToSockFd.lookup 100 = some 5 ↔
        ∃ info ∈ s.exchange.handler.sockToSessionInfo.lookup 5, info.clientId = 100) :=
  ⟨_, Run.of_foldl (by decide +kernel), by decide +kernel⟩

end Ndfex
