import Ndfex.Containers.TaggedQueue
import Ndfex.Exchange.Messages
import Mathlib.Order.Bounds.Basic

/-!
# Sequence numbers

A session numbers its messages, and each tells its client which of the client's requests was answered
last. The handler takes that number from the response that it passes on. The two queues keep the
order of the requests, so the numbers go up as long as the responses are to requests of the session,
which are those that come over its socket, refused or not. Other responses come too: the fills of orders
at rest, which have no number, and the responses to what was asked before the session or under its
client's name over another socket.

## Main definitions

* `Watched`: the exchange with the history of the sessions of one socket
* `Watched.Increasing`: the requests of a session have increasing numbers
* `Watched.AnswersOwn`: the responses delivered to a session answer its own requests
* `Numbered`: the messages of a session are numbered

## Main results

* `Exchange.atSocket`: what an event does to the session of a socket
* `Watched.Ordered.step`: the numbers are in order along the queues
* `session_numbered`: the messages of every session are numbered
* `passive_fill_resets`: the fill of a resting order takes the last number back to zero
-/

namespace Ndfex

open Containers Transition

/-! ## The session of a socket -/

namespace Exchange

/-- What an event does to the session of a socket: the messages that it writes there, and what it
leaves of the session. -/
inductive AtSocket (s : Exchange) (fd : Int32) :
    ExchangeEvent → List Written → Option SessionInfo → Prop
  | opened {msg : Login} {sessionId : UInt64} {w : Circumstances} {x : Written}
      (hacc : s.handler.Accepts msg)
      (hx : x.response.header = SessionInfo.header
        ⟨sessionId, msg.header.clientId, msg.header.seqNum, 0⟩ x.response.body) :
    AtSocket s fd (.login fd msg sessionId w) [x]
      (if w.sent then some ⟨sessionId, msg.header.clientId, msg.header.seqNum, 1⟩ else none)
  | quiet {l : ExchangeEvent} (hl : ∀ msg id w, l = .login fd msg id w → ¬ s.handler.Accepts msg) :
    AtSocket s fd l [] (s.handler.sockToSessionInfo.lookup fd)
  | closed {l : ExchangeEvent} (hl : ∀ msg id w, l = .login fd msg id w → ¬ s.handler.Accepts msg) :
    AtSocket s fd l [] none
  | replaced {otherFd : Int32} {msg : Login} {sessionId : UInt64} {w : Circumstances} {x : Written}
      {info : SessionInfo} (hno : ¬ s.handler.Accepts msg)
      (hinfo : s.handler.sockToSessionInfo.lookup fd = some info)
      (hx : x.response.header = info.header x.response.body) :
    AtSocket s fd (.login otherFd msg sessionId w) [x] none
  | delivered {w : Circumstances} {p : OePayload} {x : Written} {info : SessionInfo}
      (hp : s.broker.toClient.front? = some p) (htarget : s.handler.target p = some (fd, info))
      (hinfo : s.handler.sockToSessionInfo.lookup fd = some info)
      (hx : x.response.header =
        SessionInfo.header { info with lastSeqNum := p.clientSeq } x.response.body) :
    AtSocket s fd (.handlerTurn w) [x]
      (if w.sent then some (SessionInfo.counted { info with lastSeqNum := p.clientSeq }) else none)

theorem AtSocket.of_quiet {s : Exchange} {fd : Int32} {l : ExchangeEvent} {xs : List Written}
    {info : Option SessionInfo} (hl : ∀ msg id w, l = .login fd msg id w → ¬ s.handler.Accepts msg)
    (hxs : xs = []) (hinfo : info = s.handler.sockToSessionInfo.lookup fd) :
    AtSocket s fd l xs info := by
  subst hxs hinfo
  exact .quiet hl

/-- **What an event does** to the session of a socket. -/
theorem atSocket (s : Exchange) (fd : Int32) (l : ExchangeEvent) :
    AtSocket s fd l (sessionMessages fd (s.messagesOf l))
      ((s.after l).handler.sockToSessionInfo.lookup fd) := by
  -- a request leaves the sessions as they are
  have hrequest : ∀ (sockFd : Int32) (m : OrderMessage),
      (s.handler.receive sockFd m).sockToSessionInfo.lookup fd =
        s.handler.sockToSessionInfo.lookup fd := by
    intro sockFd m
    rw [(ClientHandler.sessions_receive s.handler sockFd m).1]
  cases l with
  | login sockFd msg sessionId w =>
    show AtSocket s fd _ (sessionMessages fd (s.handler.greetings sockFd msg sessionId))
      ((s.handler.onLogin sockFd msg sessionId w).sockToSessionInfo.lookup fd)
    by_cases hacc : s.handler.Accepts msg
    · obtain ⟨hmessages, hlookup⟩ :=
        @ClientHandler.onLogin_of_accepts s.handler w sockFd msg hacc sessionId fd
      by_cases hfd : fd = sockFd
      · subst hfd
        rw [hmessages, hlookup, if_pos rfl, if_pos rfl]
        exact .opened hacc rfl
      · rw [hmessages, hlookup, if_neg hfd, if_neg hfd]
        refine .quiet fun msg' id w' heq => ?_
        cases heq
        exact absurd rfl hfd
    · rcases @ClientHandler.onLogin_of_not_accepts s.handler w sockFd msg hacc sessionId fd with
        ⟨hmessages, hlookup⟩ | ⟨info, body, hinfo, hmessages, hlookup⟩
      · rw [hmessages, hlookup]
        refine .quiet fun msg' id w' heq => ?_
        cases heq
        exact hacc
      · rw [hmessages, hlookup]
        exact .replaced hacc hinfo rfl
  | newOrder sockFd msg now =>
    exact .of_quiet (by simp) rfl (hrequest sockFd (.newOrder msg now))
  | deleteOrder sockFd msg => exact .of_quiet (by simp) rfl (hrequest sockFd (.deleteOrder msg))
  | modifyOrder sockFd msg => exact .of_quiet (by simp) rfl (hrequest sockFd (.modifyOrder msg))
  | socketClosed sockFd w =>
    have hlookup := @ClientHandler.lookup_onSocketClosed w s.handler sockFd fd
    show AtSocket s fd _ [] ((s.handler.onSocketClosed sockFd w).sockToSessionInfo.lookup fd)
    rw [hlookup]
    split_ifs
    · exact .closed (by simp)
    · exact .quiet (by simp)
  | handlerTurn w =>
    simp only [messagesOf, after, handlerTurn]
    cases hp : s.broker.toClient.front? with
    | none => exact .quiet (by simp)
    | some p =>
      show AtSocket s fd _ (sessionMessages fd (s.handler.delivery p))
        ((s.handler.handle p w).sockToSessionInfo.lookup fd)
      rw [ClientHandler.lookup_handle]
      cases htarget : s.handler.target p with
      | none =>
        rw [ClientHandler.delivery_of_no_target htarget]
        exact .quiet (by simp)
      | some r =>
        obtain ⟨sockFd, info⟩ := r
        obtain ⟨x, hx, hsock, hrefuses, hheader⟩ := ClientHandler.delivery_of_target htarget
        rw [hx]
        dsimp only
        by_cases hfd : fd = sockFd
        · subst hfd
          rw [if_pos rfl, sessionMessages, List.filter_cons_of_pos (by simp [hsock, hrefuses])]
          exact .delivered hp htarget (ClientHandler.lookup_of_target htarget) hheader
        · rw [if_neg hfd, sessionMessages,
            List.filter_cons_of_neg (by simp [hsock, Ne.symm hfd])]
          exact .quiet (by simp)
  | engineTurn =>
    refine .of_quiet (by simp) rfl ?_
    simp only [after, engineTurn]
    split
    · rfl
    · split
      · rfl
      · rfl
  | heartbeat => exact .quiet (by simp)

end Exchange

/-! ## The history of a socket -/

/-- A message of a session, with the number of the client's request that it answers. -/
structure Sent where
  header : ResponseHeader
  request : Option UInt32
deriving DecidableEq, Repr

/-- The exchange with a history of one socket: the sessions that were opened over it, the session over
which each request came and whose request each response answers, the number of the present session's
last request, and the messages of the present session. -/
structure Watched where
  exchange : Exchange
  sessions : ℕ
  requests : List (Option ℕ)
  responses : List (Option ℕ)
  latest : UInt32
  sent : List Sent

namespace Watched

/-- The exchange at its start. -/
def start (symbols : List SymbolDefinition) (users : AList fun _ : List UInt8 => UserInfo) :
    Watched :=
  ⟨Exchange.start symbols users, 0, [], [], 0, []⟩

variable (fd : Int32) (s : Watched)

/-- The event is a login that opens a session over the socket. -/
def Opens : ExchangeEvent → Prop
  | .login sockFd msg _ _ => sockFd = fd ∧ s.exchange.handler.Accepts msg
  | _ => False

instance : DecidablePred (Opens fd s)
  | .login sockFd msg _ _ =>
    inferInstanceAs (Decidable (sockFd = fd ∧ s.exchange.handler.Accepts msg))
  | .newOrder .. => instDecidableFalse
  | .deleteOrder .. => instDecidableFalse
  | .modifyOrder .. => instDecidableFalse
  | .socketClosed .. => instDecidableFalse
  | .handlerTurn _ => instDecidableFalse
  | .engineTurn => instDecidableFalse
  | .heartbeat => instDecidableFalse

/-- The number of the request that the event is, if it comes over the socket of the session. A request
whose session id is wrong counts as well: its reject goes to the client with its number. -/
def heard (l : ExchangeEvent) : Option UInt32 :=
  match l.message? with
  | none => none
  | some (sockFd, m) =>
    if sockFd = fd ∧ (s.exchange.handler.sockToSessionInfo.lookup fd).isSome then
      some m.header.seqNum
    else none

/-- The session whose request the engine's next response answers; a fill of another order answers
none. -/
def answered (r : OePayload) : Option ℕ :=
  match s.exchange.handler.toMatchingEngine.front? with
  | none => none
  | some p =>
    if r.PassiveTo p then none
    else (s.exchange.handler.toMatchingEngine.frontTag s.requests).join

/-- The session whose request the next response to the handler answers. -/
def answering : Option ℕ := (s.exchange.broker.toClient.frontTag s.responses).join

/-- The number of the request that the messages of an event answer. -/
def request : ExchangeEvent → Option UInt32
  | .login _ msg _ _ => if s.exchange.handler.Accepts msg then some msg.header.seqNum else none
  | .handlerTurn _ => s.exchange.broker.toClient.front?.bind fun p =>
    if s.answering = some s.sessions then some p.clientSeq else none
  | _ => none

/-- The exchange and the history after an event. -/
def after (l : ExchangeEvent) : Watched where
  exchange := s.exchange.after l
  sessions := if s.Opens fd l then s.sessions + 1 else s.sessions
  requests := s.requests ++
    ((s.exchange.after l).handler.toMatchingEngine.items.drop s.requests.length).map fun _ =>
      (s.heard fd l).map fun _ => s.sessions
  responses := s.responses ++
    ((s.exchange.after l).broker.toClient.items.drop s.responses.length).map s.answered
  latest :=
    match l with
    | .login _ msg _ _ => if s.Opens fd l then msg.header.seqNum else s.latest
    | _ => (s.heard fd l).getD s.latest
  sent := (if s.Opens fd l then [] else s.sent) ++
    (sessionMessages fd (s.exchange.messagesOf l)).map fun x => ⟨x.response.header, s.request l⟩

/-- The requests of a session have increasing numbers. -/
def Increasing (l : ExchangeEvent) : Prop := ∀ n ∈ s.heard fd l, s.latest < n

/-- A response that is delivered to the socket's session answers a request of the session. -/
def AnswersOwn : ExchangeEvent → Prop
  | .handlerTurn _ => ∀ p ∈ s.exchange.broker.toClient.front?,
    (s.exchange.handler.target p).map Prod.fst = some fd → s.answering = some s.sessions
  | _ => True

instance : DecidablePred (Increasing fd s) := fun l =>
  Option.decidableForallMem (s.heard fd l)

instance : DecidablePred (AnswersOwn fd s)
  | .handlerTurn _ => inferInstanceAs (Decidable (∀ p ∈ s.exchange.broker.toClient.front?,
      (s.exchange.handler.target p).map Prod.fst = some fd → s.answering = some s.sessions))
  | .login .. => instDecidableTrue
  | .newOrder .. => instDecidableTrue
  | .deleteOrder .. => instDecidableTrue
  | .modifyOrder .. => instDecidableTrue
  | .socketClosed .. => instDecidableTrue
  | .engineTurn => instDecidableTrue
  | .heartbeat => instDecidableTrue

end Watched

/-- The steps of the exchange, with the history of a socket. -/
def WatchedStep (fd : Int32) (s : Watched) (l : ExchangeEvent) (t : Watched) : Prop :=
  s.exchange.Enabled l ∧ t = s.after fd l

/-! ## Numbered messages -/

/-- The number is the highest of the requests that the messages answer. -/
def Highest (xs : List Sent) (n : UInt32) : Prop := IsGreatest {q | ∃ x ∈ xs, x.request = some q} n

/-- The messages are numbered from zero, and each has the number of the highest request that was
answered by then. -/
def Numbered (xs : List Sent) : Prop :=
  ∀ ys x zs, xs = ys ++ x :: zs → x.header.seqNum = UInt32.ofNat ys.length ∧
    Highest (ys ++ [x]) x.header.lastSeqNum

section Messages

variable {xs : List Sent} {x : Sent} {n : UInt32}

theorem numbered_nil : Numbered [] := by
  intro ys x zs hsplit
  simp at hsplit

theorem Numbered.snoc (h : Numbered xs) (hseq : x.header.seqNum = UInt32.ofNat xs.length)
    (hlast : Highest (xs ++ [x]) x.header.lastSeqNum) : Numbered (xs ++ [x]) := by
  intro ys y zs hsplit
  rcases List.eq_nil_or_concat zs with rfl | ⟨zs, z, rfl⟩
  · obtain ⟨rfl, hy⟩ := List.append_inj' hsplit rfl
    obtain rfl : x = y := by simpa using hy
    exact ⟨hseq, hlast⟩
  · rw [List.concat_eq_append, ← List.cons_append, ← List.append_assoc] at hsplit
    obtain ⟨rfl, -⟩ := List.append_inj' hsplit rfl
    exact h ys y zs rfl

/-- The last number never decreases. -/
theorem Numbered.monotone (h : Numbered xs) :
    xs.Pairwise fun x y => x.header.lastSeqNum ≤ y.header.lastSeqNum := by
  induction xs using List.reverseRecOn with
  | nil => exact .nil
  | append_singleton xs z ih =>
    have hxs : Numbered xs := fun ys x zs hsplit =>
      h ys x (zs ++ [z]) (by rw [hsplit, List.append_assoc, List.cons_append])
    rw [List.pairwise_append]
    refine ⟨ih hxs, List.pairwise_singleton .., fun x hx y hy => ?_⟩
    obtain rfl := List.mem_singleton.mp hy
    obtain ⟨ys, zs, rfl⟩ := List.append_of_mem hx
    -- what was answered before is answered later
    obtain ⟨⟨a, ha, hrequest⟩, -⟩ := (hxs ys x zs rfl).2
    refine (h (ys ++ x :: zs) y [] rfl).2.2 ⟨a, ?_, hrequest⟩
    rcases List.mem_append.mp ha with ha | ha
    · simp [ha]
    · simp [List.mem_singleton.mp ha]

/-- A message that answers no request keeps the highest number. -/
theorem Highest.snoc_none (h : Highest xs n) (hx : x.request = none) : Highest (xs ++ [x]) n := by
  obtain ⟨⟨a, ha, hrequest⟩, hle⟩ := h
  refine ⟨⟨a, List.mem_append_left _ ha, hrequest⟩, ?_⟩
  rintro q ⟨b, hb, hq⟩
  rcases List.mem_append.mp hb with hb | hb
  · exact hle ⟨b, hb, hq⟩
  · rw [List.mem_singleton.mp hb, hx] at hq
    cases hq

/-- A message that answers a later request has the highest number. -/
theorem Highest.snoc_some (h : Highest xs n) {m : UInt32} (hx : x.request = some m) (hle : n ≤ m) :
    Highest (xs ++ [x]) m := by
  refine ⟨⟨x, by simp, hx⟩, ?_⟩
  rintro q ⟨b, hb, hq⟩
  rcases List.mem_append.mp hb with hb | hb
  · exact UInt32.le_trans (h.2 ⟨b, hb, hq⟩) hle
  · rw [List.mem_singleton.mp hb, hx] at hq
    exact UInt32.le_of_eq (Option.some.inj hq).symm

end Messages

/-! ## The numbers on the queues -/

/-- The numbers of the payloads that are of the session. -/
def own (k : ℕ) (xs : List (OePayload × Option ℕ)) : List UInt32 :=
  xs.filterMap fun x => if x.2 = some k then some x.1.clientSeq else none

section Own

variable {k : ℕ} {xs : List (OePayload × Option ℕ)}

theorem own_append (k : ℕ) (xs ys : List (OePayload × Option ℕ)) :
    own k (xs ++ ys) = own k xs ++ own k ys := List.filterMap_append

theorem own_eq_nil (h : ∀ x ∈ xs, x.2 ≠ some k) : own k xs = [] := by
  rw [own, List.filterMap_eq_nil_iff]
  intro x hx
  rw [if_neg (h x hx)]

theorem own_cons (k : ℕ) (p : OePayload) (t : Option ℕ) (xs : List (OePayload × Option ℕ)) :
    own k ((p, t) :: xs) = (if t = some k then [p.clientSeq] else []) ++ own k xs := by
  rw [own, List.filterMap_cons]
  split_ifs <;> rfl

/-- The numbers of the session among payloads that are tagged by a function. -/
theorem mem_own_zip {ps : List OePayload} {f : OePayload → Option ℕ} {n : UInt32}
    (h : n ∈ own k (ps.zip (ps.map f))) : ∃ p ∈ ps, f p = some k ∧ p.clientSeq = n := by
  rw [← List.map_prod_left_eq_zip, own, List.filterMap_map] at h
  obtain ⟨p, hp, hn⟩ := List.mem_filterMap.mp h
  simp only [Function.comp_apply] at hn
  split_ifs at hn with hk
  exact ⟨p, hp, hk, Option.some.inj hn⟩

end Own

namespace Watched

variable {fd : Int32} {s t : Watched} {l : ExchangeEvent}

/-- The numbers of the session's requests, from those whose responses come next to the latest one. -/
def line (s : Watched) : List UInt32 :=
  own s.sessions (s.exchange.broker.toClient.tagged s.responses) ++
    (own s.sessions (s.exchange.handler.toMatchingEngine.tagged s.requests) ++ [s.latest])

/-- The numbers are in order, from the session's last answer along the queues to its latest request,
and its messages are numbered. -/
structure Ordered (fd : Int32) (s : Watched) : Prop where
  requests_length : s.requests.length = s.exchange.handler.toMatchingEngine.items.length
  responses_length : s.responses.length = s.exchange.broker.toClient.items.length
  past : ∀ k, some k ∈ s.requests ∨ some k ∈ s.responses → k ≤ s.sessions
  counted : ∀ info, s.exchange.handler.sockToSessionInfo.lookup fd = some info →
    info.exchSeqNum = UInt32.ofNat s.sent.length ∧ Highest s.sent info.lastSeqNum ∧
      (info.lastSeqNum :: s.line).Pairwise (· ≤ ·)
  numbered : Numbered s.sent

theorem message_of_heard {n : UInt32} (h : s.heard fd l = some n) :
    ∃ m, l.message? = some (fd, m) ∧ m.header.seqNum = n := by
  unfold heard at h
  split at h
  · cases h
  case h_2 sockFd m hm =>
    split_ifs at h with hsocket
    obtain ⟨rfl, -⟩ := hsocket
    exact ⟨m, hm, Option.some.inj h⟩

/-- A request of the session comes onto the queue with its number. -/
theorem own_requests_after (ho : s.Ordered fd) (hn : s.exchange.HistoryFits)
    (hl : l ≠ .engineTurn) (k : ℕ) :
    own k ((s.after fd l).exchange.handler.toMatchingEngine.tagged (s.after fd l).requests) =
      own k (s.exchange.handler.toMatchingEngine.tagged s.requests) ++
        if k = s.sessions then (s.heard fd l).toList else [] := by
  obtain ⟨ps, hitems⟩ := Exchange.items_after hn l
  have htags : (s.after fd l).requests =
      s.requests ++ ps.map fun _ => (s.heard fd l).map fun _ => s.sessions := by
    simp only [after, hitems, ho.requests_length, List.drop_left]
  show own k ((s.exchange.after l).handler.toMatchingEngine.tagged _) = _
  rw [htags, Fifo.tagged_append ho.requests_length hitems (Exchange.taken_after hl), own_append]
  congr 1
  cases hheard : s.heard fd l with
  | none =>
    -- the request is of no session over the socket
    rw [own_eq_nil]
    · simp
    · rintro ⟨p, t⟩ hx
      have ht := (List.of_mem_zip hx).2
      simp only [Option.map_none, List.mem_map] at ht
      obtain ⟨-, -, rfl⟩ := ht
      simp
  | some n =>
    obtain ⟨m, hm, rfl⟩ := message_of_heard hheard
    obtain ⟨p, hpush, hseq⟩ := s.exchange.handler.receive_pushes fd m
    rw [Exchange.handler_after_message hm, hpush, Fifo.items_push] at hitems
    obtain rfl := List.append_cancel_left hitems
    rw [← hseq]
    by_cases hk : k = s.sessions
    · subst hk
      simp [own]
    · simp [own, hk, Ne.symm hk]

/-- Only the engine answers. -/
theorem responses_after_eq (ho : s.Ordered fd) (hl : l ≠ .engineTurn) :
    (s.after fd l).responses = s.responses := by
  simp only [after, Exchange.responses_after_of_ne hl, ho.responses_length, List.drop_length,
    List.map_nil, List.append_nil]

/-- The lengths and the sessions of the history stay in step with the queues. -/
theorem Ordered.past_after (ho : s.Ordered fd) (hn : s.exchange.HistoryFits) (hs : s.exchange.Sound)
    (l : ExchangeEvent) :
    (s.after fd l).requests.length =
        (s.exchange.after l).handler.toMatchingEngine.items.length ∧
      (s.after fd l).responses.length = (s.exchange.after l).broker.toClient.items.length ∧
        ∀ k, some k ∈ (s.after fd l).requests ∨ some k ∈ (s.after fd l).responses →
          k ≤ s.sessions := by
  obtain ⟨ps, hitems⟩ := Exchange.items_after hn l
  obtain ⟨rs, hresponses⟩ := Exchange.responses_after hs l
  refine ⟨?_, ?_, ?_⟩
  · simp [after, hitems, ho.requests_length]
  · simp [after, hresponses, ho.responses_length]
  · rintro k (hk | hk)
    · rcases List.mem_append.mp hk with hk | hk
      · exact ho.past k (Or.inl hk)
      · obtain ⟨-, -, hk⟩ := List.mem_map.mp hk
        obtain ⟨-, -, rfl⟩ := Option.map_eq_some_iff.mp hk
        exact Nat.le_refl _
    · rcases List.mem_append.mp hk with hk | hk
      · exact ho.past k (Or.inr hk)
      · obtain ⟨r, -, hk⟩ := List.mem_map.mp hk
        -- a response answers a request that was there before
        unfold answered at hk
        split at hk
        · cases hk
        · split_ifs at hk
          have htag := Option.join_eq_some_iff.mp hk
          exact ho.past k (Or.inl (List.mem_of_getElem? htag))

/-- The numbers in order stay so when one is replaced by copies of it. -/
theorem pairwise_copies {xs ys zs : List UInt32} {n : UInt32}
    (h : (xs ++ n :: ys).Pairwise (· ≤ ·)) (hzs : ∀ z ∈ zs, z = n) :
    (xs ++ (zs ++ ys)).Pairwise (· ≤ ·) := by
  rw [List.pairwise_append, List.pairwise_cons] at h
  obtain ⟨hxs, ⟨hn, hys⟩, hcross⟩ := h
  rw [List.pairwise_append, List.pairwise_append]
  refine ⟨hxs, ⟨?_, hys, ?_⟩, ?_⟩
  · rw [List.eq_replicate_of_mem hzs, List.pairwise_replicate]
    exact Or.inr (UInt32.le_refl n)
  · intro z hz y hy
    rw [hzs z hz]
    exact hn y hy
  · intro x hx y hy
    rcases List.mem_append.mp hy with hy | hy
    · rw [hzs y hy]
      exact hcross x hx n List.mem_cons_self
    · exact hcross x hx y (List.mem_cons_of_mem _ hy)

/-- **A turn of the engine** keeps the numbers in order: the responses to a request of the session have
its number. -/
theorem line_engineTurn (ho : s.Ordered fd) (hs : s.exchange.Sound) {n : UInt32}
    (hline : (n :: s.line).Pairwise (· ≤ ·)) :
    (n :: (s.after fd .engineTurn).line).Pairwise (· ≤ ·) := by
  obtain ⟨-, -, books, ha⟩ := hs
  cases hp : s.exchange.handler.toMatchingEngine.front? with
  | none =>
    have hsame : s.exchange.after .engineTurn = s.exchange := by
      simp only [Exchange.after, Exchange.engineTurn, hp]
    have hafter : (s.after fd .engineTurn).line = s.line := by
      simp [line, after, hsame, ho.requests_length, ho.responses_length, Opens, heard,
        ExchangeEvent.message?]
    rwa [hafter]
  | some p =>
    obtain ⟨t, htag, htagged⟩ := Fifo.tagged_pop ho.requests_length hp
    have hresponses := Exchange.responses_engineTurn ha hp
    have hrequests : (s.exchange.after .engineTurn).handler.toMatchingEngine =
        s.exchange.handler.toMatchingEngine.pop := by
      rw [Exchange.after_engineTurn ha hp]
    have htaken : (s.exchange.after .engineTurn).broker.toClient.taken =
        s.exchange.broker.toClient.taken := by
      rw [Exchange.after_engineTurn ha hp]
      exact (ha.sound.handle (ha.fresh hp)).1.taken
    -- the request leaves its queue, and its responses come onto theirs
    have hold : s.line = own s.sessions (s.exchange.broker.toClient.tagged s.responses) ++
        ((if t = some s.sessions then [p.clientSeq] else []) ++
          (own s.sessions (s.exchange.handler.toMatchingEngine.pop.tagged s.requests) ++
            [s.latest])) := by
      rw [line, htagged, own_cons, List.append_assoc]
    have hnew : (s.after fd .engineTurn).line =
        own s.sessions (s.exchange.broker.toClient.tagged s.responses) ++
          (own s.sessions ((s.exchange.broker.responses books p).zip
              ((s.exchange.broker.responses books p).map s.answered)) ++
            (own s.sessions (s.exchange.handler.toMatchingEngine.pop.tagged s.requests) ++
              [s.latest])) := by
      have hreq : (s.after fd .engineTurn).requests = s.requests := by
        simp [after, hrequests, ho.requests_length]
      have hresp : (s.after fd .engineTurn).responses =
          s.responses ++ (s.exchange.broker.responses books p).map s.answered := by
        simp only [after, hresponses, ho.responses_length, List.drop_left]
      have hlatest : (s.after fd .engineTurn).latest = s.latest := by
        simp [after, heard, ExchangeEvent.message?]
      have hsessions : (s.after fd .engineTurn).sessions = s.sessions := by
        simp [after, Opens]
      rw [line, hreq, hresp, hlatest, hsessions]
      show own _ ((s.exchange.after .engineTurn).broker.toClient.tagged _) ++
        (own _ ((s.exchange.after .engineTurn).handler.toMatchingEngine.tagged _) ++ _) = _
      rw [hrequests, Fifo.tagged_append ho.responses_length hresponses htaken, own_append,
        List.append_assoc]
    rw [hnew]
    rw [hold] at hline
    have hcopies : ∀ z ∈ own s.sessions ((s.exchange.broker.responses books p).zip
        ((s.exchange.broker.responses books p).map s.answered)),
        t = some s.sessions ∧ z = p.clientSeq := by
      intro z hz
      obtain ⟨r, hr, hanswered, rfl⟩ := mem_own_zip hz
      unfold answered at hanswered
      rw [hp] at hanswered
      dsimp only at hanswered
      split_ifs at hanswered with hpassive
      rw [htag] at hanswered
      exact ⟨hanswered,
        ha.sound.clientSeq_of_mem_responses (ha.fresh hp) hr hpassive⟩
    by_cases ht : t = some s.sessions
    · rw [if_pos ht, List.singleton_append, ← List.cons_append] at hline
      rw [← List.cons_append]
      exact pairwise_copies hline fun z hz => (hcopies z hz).2
    · rw [if_neg ht, List.nil_append] at hline
      rw [List.eq_nil_iff_forall_not_mem.mpr fun z hz => ht (hcopies z hz).1, List.nil_append]
      exact hline

theorem pairwise_later {xs : List UInt32} {n m : UInt32} (h : (xs ++ [n]).Pairwise (· ≤ ·))
    (hle : n ≤ m) : (xs ++ [m, m]).Pairwise (· ≤ ·) := by
  rw [List.pairwise_append] at h ⊢
  obtain ⟨hxs, -, hcross⟩ := h
  refine ⟨hxs, by simp, fun x hx y hy => ?_⟩
  have hy' : y = m := by simpa using hy
  rw [hy']
  exact UInt32.le_trans (hcross x hx n (by simp)) hle

/-- The responses that wait for the handler after an event of another kind. -/
theorem responses_tagged_after (ho : s.Ordered fd) (hl : l ≠ .engineTurn) (k : ℕ) :
    own k ((s.after fd l).exchange.broker.toClient.tagged (s.after fd l).responses) =
        own k (s.exchange.broker.toClient.tagged s.responses) ∨
      ∃ w p, l = .handlerTurn w ∧ s.exchange.broker.toClient.front? = some p ∧
        own k (s.exchange.broker.toClient.tagged s.responses) =
          (if s.answering = some k then [p.clientSeq] else []) ++
            own k ((s.after fd l).exchange.broker.toClient.tagged (s.after fd l).responses) := by
  rw [responses_after_eq ho hl]
  show own k ((s.exchange.after l).broker.toClient.tagged _) = _ ∨ ∃ w p, l = .handlerTurn w ∧ _ ∧
    _ = _ ++ own k ((s.exchange.after l).broker.toClient.tagged _)
  by_cases hhandler : ∃ w, l = .handlerTurn w
  swap
  · left
    rw [Exchange.toClient_after hl fun w heq => hhandler ⟨w, heq⟩]
  obtain ⟨w, rfl⟩ := hhandler
  rw [Exchange.toClient_handlerTurn]
  cases hp : s.exchange.broker.toClient.front? with
  | none =>
    left
    rw [Fifo.pop_of_front?_eq_none hp]
  | some p =>
    obtain ⟨t, htag, htagged⟩ := Fifo.tagged_pop ho.responses_length hp
    refine Or.inr ⟨w, p, rfl, rfl, ?_⟩
    rw [htagged, own_cons, answering, htag]
    rfl

/-- The number of the latest request, after an event that opens no session. -/
theorem latest_after (hno : ¬ s.Opens fd l) :
    (s.after fd l).latest = (s.heard fd l).getD s.latest := by
  cases l with
  | login sockFd msg sessionId w =>
    show (if s.Opens fd (.login sockFd msg sessionId w) then _ else _) = _
    rw [if_neg hno]
    rfl
  | _ => rfl

/-- An event that opens no session keeps the numbers in order behind an earlier one. -/
theorem line_after (ho : s.Ordered fd) (hn : s.exchange.HistoryFits) (hs : s.exchange.Sound)
    (hinc : s.Increasing fd l) (hno : ¬ s.Opens fd l) {n : UInt32}
    (hline : (n :: s.line).Pairwise (· ≤ ·)) : (n :: (s.after fd l).line).Pairwise (· ≤ ·) := by
  by_cases hl : l = .engineTurn
  · subst hl
    exact line_engineTurn ho hs hline
  have hsessions : (s.after fd l).sessions = s.sessions := if_neg hno
  -- the responses that wait are those that waited, or all but the first
  have hresponses : (own s.sessions ((s.after fd l).exchange.broker.toClient.tagged
      (s.after fd l).responses)).Sublist
        (own s.sessions (s.exchange.broker.toClient.tagged s.responses)) := by
    rcases responses_tagged_after ho hl s.sessions with hsame | ⟨w, p, -, -, hpop⟩
    · rw [hsame]
    · rw [hpop]
      exact List.sublist_append_right ..
  rw [line, hsessions, own_requests_after ho hn hl, if_pos rfl, latest_after hno]
  have hfewer := hline.sublist ((hresponses.append_right
    (own s.sessions (s.exchange.handler.toMatchingEngine.tagged s.requests) ++
      [s.latest])).cons_cons n)
  cases hheard : s.heard fd l with
  | none => simpa using hfewer
  | some m =>
    have hend : ((n :: (own s.sessions ((s.after fd l).exchange.broker.toClient.tagged
        (s.after fd l).responses) ++
          own s.sessions (s.exchange.handler.toMatchingEngine.tagged s.requests))) ++
            [s.latest]).Pairwise (· ≤ ·) := by
      simpa using hfewer
    have hlater := pairwise_later hend (UInt32.le_of_lt (hinc m hheard))
    simpa using hlater

/-- A login that opens a session over the socket is of no earlier session. -/
theorem line_opened (ho : s.Ordered fd) (hn : s.exchange.HistoryFits) {msg : Login}
    {sessionId : UInt64} {w : Circumstances} (hopens : s.Opens fd (.login fd msg sessionId w)) :
    (s.after fd (.login fd msg sessionId w)).line = [msg.header.seqNum] := by
  have hsessions : (s.after fd (.login fd msg sessionId w)).sessions = s.sessions + 1 :=
    if_pos hopens
  have hlatest : (s.after fd (.login fd msg sessionId w)).latest = msg.header.seqNum :=
    if_pos hopens
  have hrequests : own (s.sessions + 1) (s.exchange.handler.toMatchingEngine.tagged s.requests) =
      [] := by
    refine own_eq_nil fun x hx htag => ?_
    have hle := ho.past _ (Or.inl (htag ▸ Fifo.mem_tags_of_mem_tagged hx))
    omega
  have hresponses : own (s.sessions + 1) (s.exchange.broker.toClient.tagged s.responses) = [] := by
    refine own_eq_nil fun x hx htag => ?_
    have hle := ho.past _ (Or.inr (htag ▸ Fifo.mem_tags_of_mem_tagged hx))
    omega
  have hwait : own (s.sessions + 1)
      ((s.after fd (.login fd msg sessionId w)).exchange.broker.toClient.tagged
        (s.after fd (.login fd msg sessionId w)).responses) = [] := by
    have hl : ExchangeEvent.login fd msg sessionId w ≠ .engineTurn := by simp
    rcases responses_tagged_after ho hl (s.sessions + 1) with hsame | ⟨w', p, heq, -⟩
    · rw [hsame, hresponses]
    · cases heq
  rw [line, hsessions, hlatest, hwait, own_requests_after ho hn (by simp), hrequests,
    if_neg (by omega)]
  rfl

/-- A response to a request of the session is the next in the line. -/
theorem line_handlerTurn (ho : s.Ordered fd) (hn : s.exchange.HistoryFits) {w : Circumstances}
    {p : OePayload} (hp : s.exchange.broker.toClient.front? = some p)
    (hanswering : s.answering = some s.sessions) :
    s.line = p.clientSeq :: (s.after fd (.handlerTurn w)).line := by
  have hl : ExchangeEvent.handlerTurn w ≠ .engineTurn := by simp
  have hno : ¬ s.Opens fd (.handlerTurn w) := id
  have hsessions : (s.after fd (.handlerTurn w)).sessions = s.sessions := rfl
  have hheard : s.heard fd (.handlerTurn w) = none := rfl
  have hpop : own s.sessions (s.exchange.broker.toClient.tagged s.responses) =
      p.clientSeq :: own s.sessions ((s.after fd (.handlerTurn w)).exchange.broker.toClient.tagged
        (s.after fd (.handlerTurn w)).responses) := by
    obtain ⟨t, htag, htagged⟩ := Fifo.tagged_pop ho.responses_length hp
    have ht : t = some s.sessions := by
      rw [answering, htag] at hanswering
      exact hanswering
    rw [responses_after_eq ho hl]
    show _ = _ :: own _ ((s.exchange.after (.handlerTurn w)).broker.toClient.tagged _)
    rw [Exchange.toClient_handlerTurn, htagged, own_cons, if_pos ht]
    rfl
  rw [line, line, hsessions, latest_after hno, own_requests_after ho hn hl, hpop, hheard]
  simp

/-- **Every step** whose request has a later number and whose response answers a request of the
session keeps the numbers in order. -/
theorem Ordered.step (ho : s.Ordered fd) (hn : s.exchange.HistoryFits) (hs : s.exchange.Sound)
    (hinc : s.Increasing fd l) (hown : s.AnswersOwn fd l) : (s.after fd l).Ordered fd := by
  obtain ⟨hrequests, hresponses, hpast⟩ := ho.past_after hn hs l
  have hpast' : ∀ k, some k ∈ (s.after fd l).requests ∨ some k ∈ (s.after fd l).responses →
      k ≤ (s.after fd l).sessions := by
    intro k hk
    have hle := hpast k hk
    show k ≤ if s.Opens fd l then s.sessions + 1 else s.sessions
    split_ifs
    · omega
    · exact hle
  have hat := s.exchange.atSocket fd l
  have hsent : (s.after fd l).sent = (if s.Opens fd l then [] else s.sent) ++
      (sessionMessages fd (s.exchange.messagesOf l)).map fun x =>
        ⟨x.response.header, s.request l⟩ := rfl
  have hlookup : ∀ info, (s.after fd l).exchange.handler.sockToSessionInfo.lookup fd = some info →
      (s.exchange.after l).handler.sockToSessionInfo.lookup fd = some info := fun _ h => h
  generalize sessionMessages fd (s.exchange.messagesOf l) = xs at hat hsent
  generalize (s.exchange.after l).handler.sockToSessionInfo.lookup fd = info' at hat hlookup
  suffices hmain : Numbered (s.after fd l).sent ∧ ∀ info, info' = some info →
      info.exchSeqNum = UInt32.ofNat (s.after fd l).sent.length ∧
        Highest (s.after fd l).sent info.lastSeqNum ∧
          (info.lastSeqNum :: (s.after fd l).line).Pairwise (· ≤ ·) from
    ⟨hrequests, hresponses, hpast', fun info h => hmain.2 info (hlookup info h), hmain.1⟩
  cases hat with
  | @opened msg sessionId w x hacc hx =>
    -- the session starts with the answer to its login
    have hopens : s.Opens fd (.login fd msg sessionId w) := ⟨rfl, hacc⟩
    have hrequest : s.request (.login fd msg sessionId w) = some msg.header.seqNum := if_pos hacc
    have hfirst : Highest [⟨x.response.header, some msg.header.seqNum⟩] msg.header.seqNum :=
      ⟨⟨_, List.mem_singleton_self _, rfl⟩, by
        rintro q ⟨b, hb, hq⟩
        rw [List.mem_singleton.mp hb] at hq
        exact UInt32.le_of_eq (Option.some.inj hq).symm⟩
    rw [if_pos hopens, hrequest, List.nil_append, List.map_cons, List.map_nil] at hsent
    rw [hsent, line_opened ho hn hopens]
    refine ⟨?_, fun info hinfo => ?_⟩
    · have hlast : x.response.header.lastSeqNum = msg.header.seqNum := by
        rw [hx]
        rfl
      exact numbered_nil.snoc (by rw [hx]; rfl) (by rw [hlast]; exact hfirst)
    · split_ifs at hinfo
      cases hinfo
      exact ⟨rfl, hfirst, by simp⟩
  | quiet hl =>
    have hno : ¬ s.Opens fd l := by
      cases l with
      | login sockFd msg sessionId w => exact fun h => hl msg sessionId w (h.1 ▸ rfl) h.2
      | _ => exact id
    rw [if_neg hno, List.map_nil, List.append_nil] at hsent
    rw [hsent]
    refine ⟨ho.numbered, fun info hinfo => ?_⟩
    obtain ⟨hcount, hhighest, hline⟩ := ho.counted info hinfo
    exact ⟨hcount, hhighest, line_after ho hn hs hinc hno hline⟩
  | closed hl =>
    have hno : ¬ s.Opens fd l := by
      cases l with
      | login sockFd msg sessionId w => exact fun h => hl msg sessionId w (h.1 ▸ rfl) h.2
      | _ => exact id
    rw [if_neg hno, List.map_nil, List.append_nil] at hsent
    rw [hsent]
    exact ⟨ho.numbered, fun info hinfo => by cases hinfo⟩
  | @replaced otherFd msg sessionId w x info hno hinfo hx =>
    -- the farewell to the client answers no request
    have hnot : ¬ s.Opens fd (.login otherFd msg sessionId w) := fun h => hno h.2
    have hrequest : s.request (.login otherFd msg sessionId w) = none := if_neg hno
    obtain ⟨hcount, hhighest, -⟩ := ho.counted info hinfo
    rw [if_neg hnot, hrequest, List.map_cons, List.map_nil] at hsent
    rw [hsent]
    refine ⟨ho.numbered.snoc (by rw [hx]; exact hcount) ?_, fun info hinfo => by cases hinfo⟩
    rw [hx]
    exact hhighest.snoc_none rfl
  | @delivered w p x info hp htarget hinfo hx =>
    -- the response is to a request of the session, so its number comes next in the line
    have hnot : ¬ s.Opens fd (.handlerTurn w) := id
    have hanswering : s.answering = some s.sessions := hown p hp (by rw [htarget]; rfl)
    have hrequest : s.request (.handlerTurn w) = some p.clientSeq := by
      simp [request, hp, hanswering]
    obtain ⟨hcount, hhighest, hline⟩ := ho.counted info hinfo
    rw [if_neg hnot, hrequest, List.map_cons, List.map_nil] at hsent
    have hnext : s.line = p.clientSeq :: (s.after fd (.handlerTurn w)).line :=
      line_handlerTurn ho hn hp hanswering
    rw [hnext, List.pairwise_cons] at hline
    obtain ⟨hle, hrest⟩ := hline
    have hlast : Highest (s.sent ++ [⟨x.response.header, some p.clientSeq⟩]) p.clientSeq :=
      hhighest.snoc_some rfl (hle _ List.mem_cons_self)
    have hheader : x.response.header.seqNum = UInt32.ofNat s.sent.length ∧
        x.response.header.lastSeqNum = p.clientSeq := by
      rw [hx]
      exact ⟨hcount, rfl⟩
    rw [hsent]
    refine ⟨ho.numbered.snoc hheader.1 (by rw [hheader.2]; exact hlast), fun info' hinfo' => ?_⟩
    split_ifs at hinfo'
    cases hinfo'
    refine ⟨?_, hlast, hrest⟩
    show info.exchSeqNum + 1 = _
    rw [hcount, List.length_append, List.length_singleton, UInt32.ofNat_add]
    rfl

theorem ordered_start (symbols : List SymbolDefinition)
    (users : AList fun _ : List UInt8 => UserInfo) : (start symbols users).Ordered fd := by
  refine ⟨rfl, ?_, ?_, ?_, numbered_nil⟩
  · show 0 = (Exchange.start symbols users).broker.toClient.items.length
    rw [Exchange.toClient_start]
    rfl
  · rintro k (hk | hk)
    · cases hk
    · cases hk
  · rintro info ⟨⟩

/-- The history of the exchange does not change its runs. -/
theorem exchange_run {ls : List ExchangeEvent} (h : Run (WatchedStep fd) s ls t) :
    Run ExchangeStep s.exchange ls t.exchange := by
  induction h with
  | nil => exact .nil _
  | snoc _ step ih =>
    obtain ⟨hen, rfl⟩ := step
    exact .snoc ih ⟨hen, rfl⟩

/-- The history has the last of the messages that were written to the socket. -/
theorem sent_suffix_after
    (h : s.sent.map Sent.header <:+
      (sessionMessages fd s.exchange.handler.written).map fun x => x.response.header)
    (l : ExchangeEvent) :
    (s.after fd l).sent.map Sent.header <:+
      (sessionMessages fd (s.after fd l).exchange.handler.written).map fun x =>
        x.response.header := by
  show List.map _ ((if s.Opens fd l then [] else s.sent) ++ _) <:+
    List.map _ (sessionMessages fd (s.exchange.after l).handler.written)
  have hmessages : (sessionMessages fd (s.exchange.after l).handler.written) =
      sessionMessages fd s.exchange.handler.written ++
        sessionMessages fd (s.exchange.messagesOf l) := by
    rw [Exchange.written_after, sessionMessages, List.filter_append]
    rfl
  rw [hmessages, List.map_append, List.map_append, List.map_map]
  obtain ⟨before, hbefore⟩ := h
  split_ifs
  · exact List.suffix_append ..
  · exact ⟨before, by rw [← List.append_assoc, hbefore]; rfl⟩

end Watched

/-- The numbers of the messages, as long as the counter does not wrap around. -/
theorem Numbered.seqNums {xs : List Sent} (h : Numbered xs) (hfew : xs.length ≤ 2 ^ 32) :
    xs.map (fun x => x.header.seqNum.toNat) = List.range xs.length := by
  refine List.ext_getElem (by simp) fun i hi hi' => ?_
  rw [List.length_map] at hi
  have hsplit : xs = xs.take i ++ xs[i] :: xs.drop (i + 1) := by simp
  have hlength : (xs.take i).length = i := by
    rw [List.length_take]
    omega
  rw [List.getElem_map, (h _ _ _ hsplit).1, hlength, List.getElem_range]
  exact UInt32.toNat_ofNat_of_lt (Nat.lt_of_lt_of_le hi hfew)

/-- **Session sequence numbers**: in a run in which the session's requests have increasing numbers and
the responses delivered to it answer requests of its own, its messages are numbered from zero on, and
each tells the highest number of the session's requests that were answered by then. -/
theorem session_numbered {symbols : List SymbolDefinition}
    {users : AList fun _ : List UInt8 => UserInfo} {fd : Int32} {ls : List ExchangeEvent}
    {s : Watched}
    (h : Run (Guarded (fun s l => s.Increasing fd l ∧ s.AnswersOwn fd l) (WatchedStep fd))
      (Watched.start symbols users) ls s) :
    s.sent.map Sent.header <:+
        (sessionMessages fd s.exchange.handler.written).map (fun x => x.response.header) ∧
      Numbered s.sent ∧
      (s.sent.length ≤ 2 ^ 32 →
        s.sent.map (fun x => x.header.seqNum.toNat) = List.range s.sent.length) ∧
      s.sent.Pairwise fun x y => x.header.lastSeqNum ≤ y.header.lastSeqNum := by
  have hordered : s.Ordered fd ∧ s.sent.map Sent.header <:+
      (sessionMessages fd s.exchange.handler.written).map fun x => x.response.header := by
    induction h with
    | nil => exact ⟨Watched.ordered_start symbols users, List.nil_suffix⟩
    | snoc run step ih =>
      obtain ⟨⟨hinc, hown⟩, -, rfl⟩ := step
      have hrun := Watched.exchange_run run.of_guarded
      exact ⟨ih.1.step (Exchange.historyFits_run hrun) (Exchange.sound_run hrun) hinc hown,
        Watched.sent_suffix_after ih.2 _⟩
  obtain ⟨ho, hsuffix⟩ := hordered
  exact ⟨hsuffix, ho.numbered, ho.numbered.seqNums, ho.numbered.monotone⟩

/-- The exchange at its start, with two clients and one symbol. -/
def Watched.startGold : Watched := ⟨Exchange.startGold, 0, [], [], 0, []⟩

/-- Events that are enabled and satisfy a guard make a guarded run. -/
theorem Watched.guarded_run_of_enabled {fd : Int32} {s : Watched}
    {G : Watched → ExchangeEvent → Prop} {ls : List ExchangeEvent}
    (hG : ∀ i (hi : i < ls.length), G ((ls.take i).foldl (Watched.after fd) s) ls[i] ∧
      ((ls.take i).foldl (Watched.after fd) s).exchange.Enabled ls[i]) :
    Run (Guarded G (WatchedStep fd)) s ls (ls.foldl (Watched.after fd) s) := by
  have hrun : Run (fun s l t => (G s l ∧ s.exchange.Enabled l) ∧ t = s.after fd l) s ls
      (ls.foldl (Watched.after fd) s) := Run.of_foldl hG
  exact hrun.mono fun _ _ _ h => ⟨h.1.1, h.1.2, h.2⟩

/-- The client of socket 6 logs in, and its order is filled on entry and deleted too late. -/
theorem session_numbered_taker :
    ∃ s, Run (WatchedStep 6) Watched.startGold
        [.login 5 ⟨⟨1, 100, 0⟩, [97], [97]⟩ 7 .fine,
          .newOrder 5 ⟨⟨2, 100, 7⟩, 1, 1, Side.buy, 10, 50, 0⟩ 1000,
          .login 6 ⟨⟨1, 200, 0⟩, [98], [98]⟩ 8 .fine,
          .newOrder 6 ⟨⟨5, 200, 8⟩, 1, 1, Side.sell, 10, 50, 0⟩ 1001, .deleteOrder 6 ⟨⟨9, 200, 8⟩, 3⟩,
          .engineTurn, .engineTurn, .engineTurn, .handlerTurn .fine, .handlerTurn .fine,
          .handlerTurn .fine, .handlerTurn .fine, .handlerTurn .fine] s ∧
      s.sent.map (fun x => x.header.seqNum.toNat) = List.range 3 ∧
        s.sent.Pairwise fun x y => x.header.lastSeqNum ≤ y.header.lastSeqNum := by
  have hrun : Run (Guarded (fun s l => s.Increasing 6 l ∧ s.AnswersOwn 6 l) (WatchedStep 6))
      Watched.startGold
      [.login 5 ⟨⟨1, 100, 0⟩, [97], [97]⟩ 7 .fine,
        .newOrder 5 ⟨⟨2, 100, 7⟩, 1, 1, Side.buy, 10, 50, 0⟩ 1000,
        .login 6 ⟨⟨1, 200, 0⟩, [98], [98]⟩ 8 .fine,
        .newOrder 6 ⟨⟨5, 200, 8⟩, 1, 1, Side.sell, 10, 50, 0⟩ 1001, .deleteOrder 6 ⟨⟨9, 200, 8⟩, 3⟩,
        .engineTurn, .engineTurn, .engineTurn, .handlerTurn .fine, .handlerTurn .fine,
        .handlerTurn .fine, .handlerTurn .fine, .handlerTurn .fine] _ :=
    Watched.guarded_run_of_enabled (by decide +kernel)
  obtain ⟨-, -, hseq, hlast⟩ := session_numbered hrun
  refine ⟨_, hrun.of_guarded, ?_, hlast⟩
  have hlength : ([.login 5 ⟨⟨1, 100, 0⟩, [97], [97]⟩ 7 .fine,
      .newOrder 5 ⟨⟨2, 100, 7⟩, 1, 1, Side.buy, 10, 50, 0⟩ 1000,
      .login 6 ⟨⟨1, 200, 0⟩, [98], [98]⟩ 8 .fine,
      .newOrder 6 ⟨⟨5, 200, 8⟩, 1, 1, Side.sell, 10, 50, 0⟩ 1001, .deleteOrder 6 ⟨⟨9, 200, 8⟩, 3⟩,
      .engineTurn, .engineTurn, .engineTurn, .handlerTurn .fine, .handlerTurn .fine,
      .handlerTurn .fine, .handlerTurn .fine,
      .handlerTurn .fine].foldl (Watched.after 6) Watched.startGold).sent.length = 3 := by
    decide +kernel
  exact hlength ▸ hseq (by omega)

/-- Another client's order fills the client's order at rest, and the message has no number. -/
theorem passive_fill_resets :
    ∃ s, Run (WatchedStep 5) Watched.startGold
        [.login 5 ⟨⟨1, 100, 0⟩, [97], [97]⟩ 7 .fine,
          .newOrder 5 ⟨⟨2, 100, 7⟩, 1, 1, Side.buy, 10, 50, 0⟩ 1000, .engineTurn,
          .handlerTurn .fine, .login 6 ⟨⟨1, 200, 0⟩, [98], [98]⟩ 8 .fine,
          .newOrder 6 ⟨⟨2, 200, 8⟩, 1, 1, Side.sell, 10, 50, 0⟩ 1001, .engineTurn,
          .handlerTurn .fine, .handlerTurn .fine, .handlerTurn .fine] s ∧
      s.sent.map (fun x => x.header.lastSeqNum) = [1, 2, 0] ∧
        ¬ s.sent.Pairwise fun x y => x.header.lastSeqNum ≤ y.header.lastSeqNum :=
  ⟨_, Run.of_foldl (by decide +kernel), by decide +kernel, by decide +kernel⟩

end Ndfex
