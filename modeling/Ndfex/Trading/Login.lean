import Ndfex.Exchange.Connections
import Ndfex.Trading.Positions

/-!
# The login of a client

A client that connects sends its name and its password in arrays of 16 bytes, and reads one response. It
looks at nothing in it but the status and the session id. The exchange has a session for the socket exactly
if the client believes that it is logged in, and both then have the same session id.

A client that is logged in over another socket is refused, and loses its session there; a registered client
that was refused has no session behind it, so that its next login succeeds.

## Main definitions

* `Bots.OeUser.login`: the request of a login
* `ClientHandler.Registered`: what the exchange knows of a user
* `Exchange.bytesTo`: the bytes that an event sends to a socket
* `Exchange.TakesFree`: logins take sockets without a session

## Main results

* `ClientHandler.greetings_to`: the one message that a login sends to its socket
* `login_agrees`: the client and the exchange agree about the session
* `Trading.Followed.login`: a client that is logged in can begin to trade
-/

namespace Ndfex

open Bots Containers Transition Wire

/-! ## The request -/

/-- What an array of 16 bytes has of a C string. -/
def Bots.OEClient.cut (bytes : List UInt8) : List UInt8 := (bytes.takeWhile (· ≠ 0)).take 16

theorem Bots.OEClient.length_credential (bytes : List UInt8) :
    (OEClient.credential bytes).length = 16 := by
  simp [OEClient.credential]

/-- The handler reads what the array has of the string. -/
theorem cString_credential (bytes : List UInt8) :
    ClientHandler.cString (OEClient.credential bytes) = OEClient.cut bytes := by
  unfold ClientHandler.cString OEClient.credential OEClient.cut
  have hzeros : ∀ k, (List.replicate k (0 : UInt8)).takeWhile (fun b => decide (b ≠ 0)) = [] := by
    intro k
    cases k <;> simp [List.replicate_succ]
  rw [List.take_append, List.take_replicate, List.takeWhile_append_of_pos, hzeros, List.append_nil]
  intro b hb
  have hmem := List.mem_of_mem_take hb
  exact List.all_eq_true.mp List.all_takeWhile b hmem

/-- The message that the client of a user writes to log in; the session id is what memory has. -/
def Bots.OeUser.login (user : OeUser) (stale : UInt64) : Login :=
  ⟨⟨0, user.clientId, stale⟩, OEClient.credential user.username, OEClient.credential user.password⟩

/-- The request is the first one, and its credentials fill their arrays. -/
theorem written_loginRequest (user : OeUser) (stale : UInt64) :
    ((OEClient.start user).loginRequest stale).written = [.login (user.login stale)] ∧
      (Request.login (user.login stale)).WellFormed :=
  ⟨rfl, OEClient.length_credential _, OEClient.length_credential _⟩

/-- The user is registered with its client id: the name and the password are those of a user of the
exchange, as far as the arrays have them. -/
def ClientHandler.Registered (users : AList fun _ : List UInt8 => UserInfo) (user : OeUser) : Prop :=
  users.lookup (OEClient.cut user.username) = some ⟨OEClient.cut user.password, user.clientId⟩

instance (users : AList fun _ : List UInt8 => UserInfo) :
    DecidablePred (ClientHandler.Registered users) := fun _ => inferInstanceAs (Decidable (_ = _))

namespace ClientHandler

variable {h : ClientHandler} {user : OeUser} {stale sessionId : UInt64} {fd : Int32} {w : Circumstances}

/-- The credentials of a login are right exactly if its user is registered. -/
theorem credentials_login : h.credentials (user.login stale) = none ↔ Registered h.users user := by
  rw [credentials_eq_none]
  show (∃ u, h.users.lookup (cString (OEClient.credential user.username)) = some u ∧
    u.password = cString (OEClient.credential user.password) ∧ u.clientId = user.clientId) ↔ _
  rw [cString_credential, cString_credential]
  constructor
  · rintro ⟨⟨password, clientId⟩, hlookup, rfl, rfl⟩
    exact hlookup
  · intro hlookup
    exact ⟨_, hlookup, rfl, rfl⟩

/-! ## What a login does -/

/-- **The one message** that a login sends to its socket: it has the session id if a session was opened. -/
theorem greetings_to (hi : h.Inverse) (hfree : h.session fd = none) (msg : Login)
    (sessionId : UInt64) :
    ∃ header id status, (h.greetings fd msg sessionId).filter (fun x => x.sockFd = fd) =
        [⟨fd, none, ⟨header, .loginResponse id (LoginStatus.byte status)⟩⟩] ∧
      (status = .success ↔ h.Accepts msg) ∧ (status = .success → id = sessionId) := by
  unfold greetings Accepts
  cases hcred : h.credentials msg with
  | some status =>
    have hne := credentials_ne_success hcred
    exact ⟨_, 0, status, List.filter_cons_of_pos (by simp), by simp [hne], fun hs => absurd hs hne⟩
  | none =>
    dsimp only
    cases hroute : h.clientToSockFd.lookup msg.header.clientId with
    | none =>
      have hopened : (h.logIn fd msg sessionId).sockToSessionInfo.lookup fd =
          some ⟨sessionId, msg.header.clientId, msg.header.seqNum, 0⟩ := AList.lookup_insert _
      dsimp only
      rw [sessionMessage, hopened]
      exact ⟨_, sessionId, .success, List.filter_cons_of_pos (by simp), by simp, fun _ => rfl⟩
    | some otherFd =>
      -- the route leads to a session over another socket, which gets the error
      obtain ⟨n, hn, -⟩ := hi.route_iff.mp hroute
      have hother : otherFd ≠ fd := by
        rintro rfl
        cases hfree.symm.trans hn
      obtain ⟨info, hinfo, -⟩ := exists_info hn
      dsimp only
      rw [if_neg (by simp [hother, hinfo]), List.filter_cons_of_pos (by simp), sessionMessage, hinfo,
        Option.map_some, Option.toList_some, List.filter_cons_of_neg (by simp [hother])]
      exact ⟨_, 0, .sessionAlreadyActive, rfl, by simp, by simp⟩

/-- **The sessions after a login**: it ends that of its client, or opens one if there was none. -/
theorem session_onLogin (hi : h.Inverse) (hfree : h.session fd = none) (msg : Login)
    (hsent : h.Accepts msg → w.sent = true) (fd' : Int32) :
    (h.onLogin fd msg sessionId w).session fd' =
      if fd' = fd then if h.Accepts msg then some ⟨sessionId, msg.header.clientId⟩ else none
      else if h.credentials msg = none ∧
          (h.session fd').map SessionName.clientId = some msg.header.clientId then none
      else h.session fd' := by
  cases hcred : h.credentials msg with
  | some status =>
    have hno : ¬ h.Accepts msg := fun hacc => by cases hcred.symm.trans hacc.1
    have hlogin : h.onLogin fd msg sessionId w = h.writeRaw fd msg.header.seqNum msg.header.clientId
        (.loginResponse 0 status.byte) := by
      rw [onLogin, hcred]
    rw [hlogin, (quiet_writeRaw ..).session]
    by_cases hfd : fd' = fd <;> simp [hfd, hno, hfree]
  | none =>
    cases hroute : h.clientToSockFd.lookup msg.header.clientId with
    | none =>
      have hacc : h.Accepts msg := ⟨hcred, hroute⟩
      have hlogin : h.onLogin fd msg sessionId w = (h.logIn fd msg sessionId).writeOrClose fd none
          (.loginResponse sessionId LoginStatus.success.byte) w := by
        rw [onLogin, hcred]
        dsimp only
        rw [hroute]
        rfl
      have hnobody : (h.session fd').map SessionName.clientId ≠ some msg.header.clientId := by
        intro hsome
        rw [hi.route_iff.mpr (Option.map_eq_some_iff.mp hsome)] at hroute
        cases hroute
      rcases @quiet_writeOrClose none w (h.logIn fd msg sessionId) fd
        (.loginResponse sessionId LoginStatus.success.byte) with hq | ⟨hfailed, -⟩
      · rw [hlogin, hq.session, session_logIn]
        simp [hacc, hnobody]
      · cases (hsent hacc).symm.trans hfailed
    | some otherFd =>
      have hno : ¬ h.Accepts msg := fun hacc => by cases hroute.symm.trans hacc.2
      obtain ⟨n, hn, hclient⟩ := hi.route_iff.mp hroute
      have hother : otherFd ≠ fd := by
        rintro rfl
        cases hfree.symm.trans hn
      obtain ⟨info, hinfo, -⟩ := exists_info hn
      have hends : ∃ h₁, Quiet h h₁ ∧ h.onLogin fd msg sessionId w = h₁.onSocketClosed otherFd w := by
        rw [onLogin, hcred]
        dsimp only
        rw [hroute]
        dsimp only
        rw [if_neg hother, hinfo]
        exact ⟨_, (quiet_writeRaw ..).trans (quiet_writeMsg ..), rfl⟩
      obtain ⟨h₁, hq, hlogin⟩ := hends
      rw [hlogin, (closes_onSocketClosed ..).session, hq.session]
      -- the session of the client is the one that its route leads to
      have hthat : (h.session fd').map SessionName.clientId = some msg.header.clientId ↔
          fd' = otherFd := by
        constructor
        · intro hsome
          obtain ⟨n', hn', hclient'⟩ := Option.map_eq_some_iff.mp hsome
          exact hi.unique hn' hn (hclient'.trans hclient.symm)
        · rintro rfl
          rw [hn, Option.map_some, hclient]
      by_cases hfd : fd' = fd
      · simp [hfd, hno, hfree]
      · simp [hfd, hthat]

end ClientHandler

/-! ## The response -/

namespace Bots.OEClient

/-- **The client believes the status** of the response that it reads. -/
theorem onLoginResponse_encode (c : OEClient) (m : ℕ → UInt8) (header : ResponseHeader)
    (sessionId : UInt64) (status : UInt8) :
    c.onLoginResponse m (Response.encode ⟨header, .loginResponse sessionId status⟩) =
      if status ≠ LoginStatus.success.byte then (c, false) else ({ c with sessionId }, true) := by
  let r : Response := ⟨header, .loginResponse sessionId status⟩
  have hwhole : r.encode.take ResponseType.loginResponse.size = r.encode :=
    List.take_of_length_le (Response.length_encode r).le
  have hread : ResponseBody.read (overwrite m r.encode) .loginResponse =
      .loginResponse sessionId status := (Response.read_encode (r := r) trivial (starts_overwrite m _)).2
  show OEClient.onLoginResponse c m r.encode = _
  rw [onLoginResponse, hwhole, hread]

end Bots.OEClient

/-! ## The agreement -/

namespace Exchange

variable {s : Exchange} {symbols : List SymbolDefinition} {users : AList fun _ : List UInt8 => UserInfo}
  {ls : List ExchangeEvent} {fd : Int32} {user : OeUser} {stale sessionId : UInt64} {w : Circumstances}

/-- The bytes that an event sends to a socket. -/
def bytesTo (s : Exchange) (fd : Int32) (l : ExchangeEvent) : List UInt8 :=
  ((s.messagesOf l).filter fun x => x.sockFd = fd).flatMap fun x => x.response.encode

/-- A login that succeeds takes a socket without a session. -/
def TakesFree (s : Exchange) (l : ExchangeEvent) : Prop :=
  Connections.TakesFree ⟨s, fun _ => 0, []⟩ (.exchange l)

instance (s : Exchange) : DecidablePred s.TakesFree := fun l =>
  inferInstanceAs (Decidable (Connections.TakesFree ⟨s, fun _ => 0, []⟩ (.exchange l)))

theorem inverse_run (h : Run (Guarded TakesFree ExchangeStep) (start symbols users) ls s) :
    s.handler.Inverse := by
  refine h.invariant (I := fun s => s.handler.Inverse) ?_ (Indexes.empty _)
  rintro s l t hi ⟨hfree, -, rfl⟩
  exact (Connections.inverse_after_iff (s := ⟨s, fun _ => 0, []⟩) hi l).mpr hfree

/-- The end of a login, for a client that reads what the server writes: it is logged in exactly if the
login was accepted, and has then the id of the session. -/
theorem onLoginResponse_bytesTo (hi : s.handler.Inverse) (hfree : s.handler.session fd = none)
    (c : OEClient) (m : ℕ → UInt8) (msg : Login) :
    c.onLoginResponse m (s.bytesTo fd (.login fd msg sessionId w)) =
      if s.handler.Accepts msg then ({ c with sessionId }, true) else (c, false) := by
  obtain ⟨header, id, status, hmessages, haccepts, hid⟩ :=
    ClientHandler.greetings_to hi hfree msg sessionId
  have hbytes : s.bytesTo fd (.login fd msg sessionId w) =
      Response.encode ⟨header, .loginResponse id status.byte⟩ := by
    rw [bytesTo, messagesOf, hmessages, List.flatMap_cons, List.flatMap_nil, List.append_nil]
  rw [hbytes, OEClient.onLoginResponse_encode]
  by_cases hacc : s.handler.Accepts msg
  · have hsuccess := haccepts.mpr hacc
    rw [if_pos hacc, if_neg (by rw [hsuccess]; simp), hid hsuccess]
  · rw [if_neg hacc, if_pos (LoginStatus.byte_ne_success fun hs => hacc (haccepts.mp hs))]

end Exchange

/-- **Client and exchange agree** about a login, after any run whose logins take free sockets. A client
connects over a free socket, writes its login and reads what the exchange writes to it; if the login is
accepted, the response goes out. It is logged in exactly if its user is registered and has no session; the
exchange has then a session for the socket, with the same id, and has none otherwise. Of the other sessions a
login ends only that of its own client, and only if the credentials are right. -/
theorem login_agrees {symbols : List SymbolDefinition} {users : AList fun _ : List UInt8 => UserInfo}
    {ls : List ExchangeEvent} {s : Exchange} {fd : Int32} {w : Circumstances}
    (h : Run (Guarded Exchange.TakesFree ExchangeStep) (Exchange.start symbols users) ls s)
    (hfree : s.handler.session fd = none) (user : OeUser) (stale sessionId : UInt64)
    (hsent : s.handler.Accepts (user.login stale) → w.sent = true) (m : ℕ → UInt8) :
    let l := ExchangeEvent.login fd (user.login stale) sessionId w
    let r := ((OEClient.start user).loginRequest stale).onLoginResponse m (s.bytesTo fd l)
    ((OEClient.start user).loginRequest stale).written = [.login (user.login stale)] ∧
    (r.2 = true ↔ ClientHandler.Registered users user ∧
        ∀ fd' n, s.handler.session fd' = some n → n.clientId ≠ user.clientId) ∧
      ∀ fd', (s.after l).handler.session fd' =
        if fd' = fd then if r.2 then some ⟨r.1.sessionId, user.clientId⟩ else none
        else if ClientHandler.Registered users user ∧
          (s.handler.session fd').map SessionName.clientId = some user.clientId then none
        else s.handler.session fd' := by
  have hi := Exchange.inverse_run h
  have hregistered : s.handler.credentials (user.login stale) = none ↔
      ClientHandler.Registered users user := by
    rw [ClientHandler.credentials_login, Exchange.users_run h.of_guarded]
  -- a client without a route is one without a session
  have hroute : s.handler.clientToSockFd.lookup user.clientId = none ↔
      ∀ fd' n, s.handler.session fd' = some n → n.clientId ≠ user.clientId := by
    constructor
    · intro hnone fd' n hn hclient
      rw [hi.route_iff.mpr ⟨n, hn, hclient⟩] at hnone
      cases hnone
    · intro hnobody
      by_contra hsome
      obtain ⟨fd', hfd'⟩ := Option.ne_none_iff_exists'.mp hsome
      obtain ⟨n, hn, hclient⟩ := hi.route_iff.mp hfd'
      exact hnobody fd' n hn hclient
  have haccepts : s.handler.Accepts (user.login stale) ↔ ClientHandler.Registered users user ∧
      ∀ fd' n, s.handler.session fd' = some n → n.clientId ≠ user.clientId :=
    and_congr hregistered hroute
  intro l r
  have hr : r = if s.handler.Accepts (user.login stale) then
      ({ (OEClient.start user).loginRequest stale with sessionId }, true)
      else ((OEClient.start user).loginRequest stale, false) :=
    Exchange.onLoginResponse_bytesTo hi hfree _ m _
  have hsession : ∀ fd', (s.after l).handler.session fd' = _ :=
    ClientHandler.session_onLogin hi hfree (user.login stale) hsent
  refine ⟨(written_loginRequest user stale).1, ?_, ?_⟩
  · rw [← haccepts, hr]
    by_cases hacc : s.handler.Accepts (user.login stale) <;> simp [hacc]
  · intro fd'
    rw [hsession, hr]
    by_cases hacc : s.handler.Accepts (user.login stale) <;> simp only [hacc, hregistered] <;> rfl

/-- A client logs in; it logs in again over another socket, is refused there and loses its session. -/
theorem login_agrees_twice :
    let s := [.login 5 ⟨⟨0, 100, 0⟩, [97], [97]⟩ 7 .fine].foldl Exchange.after Exchange.startGold
    let l := ExchangeEvent.login 6 (OeUser.login ⟨[97], [97], 100⟩ 3) 8 .fine
    (((OEClient.start ⟨[97], [97], 100⟩).loginRequest 3).onLoginResponse (fun _ => 0)
        (s.bytesTo 6 l)).2 = false ∧
      s.handler.session 5 = some ⟨7, 100⟩ ∧ (s.after l).handler.session 5 = none := by
  intro s l
  have hrun : Run (Guarded Exchange.TakesFree ExchangeStep) Exchange.startGold
      [.login 5 ⟨⟨0, 100, 0⟩, [97], [97]⟩ 7 .fine] s :=
    .snoc (.nil _) ⟨by decide +kernel, by decide +kernel, rfl⟩
  have hsession : s.handler.session 5 = some ⟨7, 100⟩ := by decide +kernel
  have hfree : s.handler.session 6 = none := by decide +kernel
  obtain ⟨-, hlogged, hsessions⟩ :=
    login_agrees hrun hfree ⟨[97], [97], 100⟩ 3 8 (w := .fine) (fun _ => rfl) fun _ => 0
  refine ⟨?_, hsession, ?_⟩
  · exact Bool.eq_false_iff.mpr fun h => (hlogged.mp h).2 5 _ hsession rfl
  · rw [hsessions 5, if_neg (by decide), if_pos (by decide +kernel)]

/-- **A client that is logged in can trade**: with its first session it begins as a client that is followed
through its trading. -/
theorem Trading.Followed.login {symbols : List SymbolDefinition}
    {users : AList fun _ : List UInt8 => UserInfo} {ls : List ExchangeEvent} {s : Exchange} {fd : Int32}
    {w : Circumstances} {user : OeUser} {stale sessionId : UInt64} {m : ℕ → UInt8} {client : OEClient}
    (h : Run (Guarded (fun s l => s.TakesFree l ∧ s.KeepsOwners l) ExchangeStep)
      (Exchange.start symbols users) ls s)
    (hfree : s.handler.session fd = none) (hsent : w.sent = true)
    (hfirst : ∀ p ∈ s.handler.toMatchingEngine.items, p.msgType = .newOrder → p.clientId ≠ user.clientId)
    (hlogged : ((OEClient.start user).loginRequest stale).onLoginResponse m
      (s.bytesTo fd (.login fd (user.login stale) sessionId w)) = (client, true)) :
    let s' := s.after (.login fd (user.login stale) sessionId w)
    (Trading.start s' client).Followed fd ⟨client.sessionId, user.clientId⟩ s'.handler.written := by
  have hi := Exchange.inverse_run (h.mono fun _ _ _ hs => ⟨hs.1.1, hs.2⟩)
  rw [Exchange.onLoginResponse_bytesTo hi hfree] at hlogged
  -- the client believes that it is logged in, so that the server accepted the login
  split_ifs at hlogged with hacc
  · obtain ⟨rfl, -⟩ := Prod.mk.inj hlogged
    intro s'
    have hstep : Guarded (fun s l => s.TakesFree l ∧ s.KeepsOwners l) ExchangeStep s
        (.login fd (user.login stale) sessionId w) s' := ⟨⟨fun _ => hfree, trivial⟩, trivial, rfl⟩
    have hi' := Exchange.inverse_run ((h.snoc hstep).mono fun _ _ _ hs => ⟨hs.1.1, hs.2⟩)
    have hsession : s'.handler.session fd = some ⟨sessionId, user.clientId⟩ := by
      refine (ClientHandler.session_onLogin hi hfree (user.login stale) (fun _ => hsent) fd).trans ?_
      rw [if_pos rfl, if_pos hacc]
      rfl
    refine Followed.start ((h.snoc hstep).mono fun _ _ _ hs => ⟨hs.1.2, hs.2⟩) hsession ?_ ?_ rfl
    · -- its route is the only one to the socket
      intro c hc
      obtain ⟨n, hn, rfl⟩ := hi'.route_iff.mp hc
      rw [hsession] at hn
      rw [← Option.some.inj hn]
    · -- a login that is accepted asks the engine for nothing
      have hitems : s'.handler.toMatchingEngine = s.handler.toMatchingEngine := by
        rcases s.handler.onLogin_cases fd (user.login stale) sessionId w with
          ⟨hno, -⟩ | ⟨hno, -⟩ | ⟨-, hq | ⟨hfailed, -⟩⟩
        · exact absurd hacc hno
        · exact absurd hacc hno
        · exact hq.toMatchingEngine
        · cases hsent.symm.trans hfailed
      rw [hitems]
      exact hfirst
  · exact absurd (Prod.mk.inj hlogged).2 Bool.false_ne_true

end Ndfex
