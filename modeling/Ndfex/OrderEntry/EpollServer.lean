import Mathlib.Logic.Function.Basic
import Ndfex.OrderEntry.Framing

/-!
# The epoll server

`EpollServer::run`: the events of a batch in their order, and the handler's messages behind them. All
descriptors are registered edge-triggered, so an event that an iteration passes over does not come
again. The parser and the handler are parameters; the kernel has the connections that wait at the
listening socket, and for each connection what its reads return.

## Main definitions

* `EpollEvent`, `EventBatch`: what `epoll_wait` returns
* `EpollServer`: the server, the kernel behind it, and the calls of an iteration
* `EpollServer.handleEvent`, `EpollServer.iterate`: an event, and an iteration of `run`
* `EpollServer.Handled`: nothing of an event is left
* `EpollServer.Lossless`, `EpollServer.ParserReturns`: no event is passed over, and no call of the parser hangs

## Main results

* `EpollServer.handles_all_iff`: when an iteration handles every event of its batch
* `EpollServer.streamParts_parse_eq_some`: when a call of the stream parser returns
-/

namespace Ndfex

/-- An event of a batch; `hup` is set for `EPOLLRDHUP` and for `EPOLLHUP`. -/
structure EpollEvent where
  fd : Int32
  hup : Bool
deriving DecidableEq

/-- The event is the hang-up of a connection. -/
def EpollEvent.HangsUp (listenFd : Int32) (e : EpollEvent) : Prop := e.fd ≠ listenFd ∧ e.hup

instance (listenFd : Int32) : DecidablePred (EpollEvent.HangsUp listenFd) := fun e =>
  inferInstanceAs (Decidable (e.fd ≠ listenFd ∧ e.hup))

/-- The events that `epoll_wait` returns: one for each descriptor at most. -/
structure EventBatch where
  events : List EpollEvent
  nodup : (events.map EpollEvent.fd).Nodup

/-- How the reads of a connection end. -/
inductive ReadEnd
  | again
  | eof
  | failed

/-- What the reads of a connection return: some bytes, and then how they end. -/
structure Incoming where
  chunks : List (List UInt8)
  ending : ReadEnd

/-- What an iteration did: it accepted a connection, gave bytes of one to the parser, read one until
`EAGAIN`, or closed one and reported that to the parser. -/
inductive ServerCall
  | accepted (fd : Int32)
  | parsed (fd : Int32) (bytes : List UInt8)
  | drained (fd : Int32)
  | socketClosed (fd : Int32)
deriving DecidableEq

/-- The parser with its handler; `parse` also says whether it closed the socket. A call that never returns
has no result. -/
structure ServerParts (P : Type) where
  parse : P → Int32 → List UInt8 → Option (P × Bool)
  newSocket : P → Int32 → P
  socketClosed : P → Int32 → Option P

/-- `EpollServer`, with the connections that wait at `listen_fd`, by the descriptors that `accept` gives
them, and what the connections send. -/
structure EpollServer (P : Type) where
  listenFd : Int32
  pending : List Int32
  incoming : Int32 → Incoming
  parser : P
  calls : List ServerCall

/-- What the loop over the events does behind one: it goes on, it is left, or an exception leaves `run`. -/
inductive EventTurn
  | next
  | leave
  | throw
deriving DecidableEq

namespace EpollServer

variable {P : Type}

/-- `close`, and `parser.socket_closed`. -/
def closeSocket (parts : ServerParts P) (s : EpollServer P) (fd : Int32) : Option (EpollServer P) :=
  (parts.socketClosed s.parser fd).map fun parser =>
    { s with parser, calls := s.calls ++ [.socketClosed fd] }

/-- The loop that reads a connection until `EAGAIN`. -/
def readLoop (parts : ServerParts P) (fd : Int32) (ending : ReadEnd) :
    List (List UInt8) → EpollServer P → Option (EpollServer P)
  | [], s =>
    match ending with
    | .again => some { s with calls := s.calls ++ [.drained fd] }
    | .eof | .failed => s.closeSocket parts fd
  | bytes :: chunks, s =>
    (parts.parse s.parser fd bytes).bind fun r =>
      let s := { s with parser := r.1, calls := s.calls ++ [.parsed fd bytes] }
      -- a read of a descriptor that the parser closed fails
      if r.2 then s.closeSocket parts fd else readLoop parts fd ending chunks s

/-- A connection is read, and has then nothing left to read. -/
def readSocket (parts : ServerParts P) (s : EpollServer P) (fd : Int32) : Option (EpollServer P) :=
  let source := s.incoming fd
  readLoop parts fd source.ending source.chunks
    { s with incoming := Function.update s.incoming fd ⟨[], source.ending⟩ }

/-- One event; the registration of an accepted connection succeeds. -/
def handleEvent (parts : ServerParts P) (s : EpollServer P) (e : EpollEvent) :
    Option (EpollServer P × EventTurn) :=
  if e.fd = s.listenFd then
    match s.pending with
    -- `accept` has nothing: `run` throws
    | [] => some (s, .throw)
    | fd :: pending =>
      some ({ s with
        pending := pending
        parser := parts.newSocket s.parser fd
        calls := s.calls ++ [.accepted fd] }, .next)
  else if e.hup then (s.closeSocket parts e.fd).map fun s => (s, .leave)
  else (s.readSocket parts e.fd).map fun s => (s, .next)

/-- The loop over the events, and whether `run` goes on behind it. -/
def handleEvents (parts : ServerParts P) :
    EpollServer P → List EpollEvent → Option (EpollServer P × Bool)
  | s, [] => some (s, true)
  | s, e :: es =>
    match s.handleEvent parts e with
    | none => none
    | some (s, .next) => handleEvents parts s es
    | some (s, .leave) => some (s, true)
    | some (s, .throw) => some (s, false)

/-- An iteration of `run` up to its call of `handler.process`, unless it throws or never gets there. -/
def iterate (parts : ServerParts P) (s : EpollServer P) (batch : EventBatch) :
    Option (EpollServer P) :=
  match handleEvents parts { s with calls := [] } batch.events with
  | some (s, true) => some s
  | _ => none

/-- Nothing of the event is left: no connection waits, the hang-up was reported, or the connection was
read until `EAGAIN` or closed. -/
def Handled (s : EpollServer P) (e : EpollEvent) : Prop :=
  if e.fd = s.listenFd then s.pending = []
  else if e.hup then .socketClosed e.fd ∈ s.calls
  else .drained e.fd ∈ s.calls ∨ .socketClosed e.fd ∈ s.calls

variable {parts : ServerParts P} {s : EpollServer P} {e : EpollEvent} {es : List EpollEvent}

/-! ### One event -/

/-- What some calls say about the connections is about one of them. -/
structure About (fd : Int32) (new : List ServerCall) : Prop where
  handled : .drained fd ∈ new ∨ .socketClosed fd ∈ new
  drained : ∀ f, .drained f ∈ new → f = fd
  socketClosed : ∀ f, .socketClosed f ∈ new → f = fd

theorem About.cons_parsed {fd : Int32} {new : List ServerCall} (h : About fd new) (bytes : List UInt8) :
    About fd (.parsed fd bytes :: new) :=
  ⟨by simpa using h.handled, by simpa using h.drained, by simpa using h.socketClosed⟩

theorem About.closed (fd : Int32) : About fd [.socketClosed fd] :=
  ⟨.inr (List.mem_singleton_self _), by simp, by simp⟩

/-- A server with more calls, and the connections that wait as they were; what the other connections have to
read is what it was. -/
structure Extends (s s' : EpollServer P) (fd : Int32) (new : List ServerCall) : Prop where
  listenFd : s'.listenFd = s.listenFd
  pending : s'.pending = s.pending
  incoming : ∀ f, f ≠ fd → s'.incoming f = s.incoming f
  calls : s'.calls = s.calls ++ new

theorem closeSocket_extends {s' : EpollServer P} {fd : Int32} (h : s.closeSocket parts fd = some s') :
    Extends s s' fd [.socketClosed fd] := by
  obtain ⟨p, -, rfl⟩ := Option.map_eq_some_iff.mp h
  exact ⟨rfl, rfl, fun _ _ => rfl, rfl⟩

theorem readLoop_extends {fd : Int32} {ending : ReadEnd} {chunks : List (List UInt8)}
    {s s' : EpollServer P} (h : readLoop parts fd ending chunks s = some s') :
    ∃ new, About fd new ∧ Extends s s' fd new := by
  induction chunks generalizing s with
  | nil =>
    cases ending with
    | again =>
      obtain rfl := Option.some.inj h
      exact ⟨[.drained fd], ⟨.inl (List.mem_singleton_self _), by simp, by simp⟩, rfl, rfl,
        fun _ _ => rfl, rfl⟩
    | eof | failed => exact ⟨[.socketClosed fd], About.closed fd, closeSocket_extends h⟩
  | cons bytes chunks ih =>
    obtain ⟨⟨p, closed⟩, -, h⟩ := Option.bind_eq_some_iff.mp h
    have hrest : ∃ new, About fd new ∧
        Extends { s with parser := p, calls := s.calls ++ [.parsed fd bytes] } s' fd new := by
      dsimp only at h
      split_ifs at h
      · exact ⟨_, About.closed fd, closeSocket_extends h⟩
      · exact ih h
    obtain ⟨new, habout, hlisten, hpending, hincoming, hcalls⟩ := hrest
    refine ⟨_, habout.cons_parsed bytes, hlisten, hpending, hincoming, ?_⟩
    rw [hcalls, List.append_assoc]
    rfl

/-- **A readable connection** is read to the end, if the parser returns. -/
theorem readSocket_extends {s' : EpollServer P} {fd : Int32} (h : s.readSocket parts fd = some s') :
    ∃ new, About fd new ∧ Extends s s' fd new := by
  obtain ⟨new, habout, hlisten, hpending, hincoming, hcalls⟩ := readLoop_extends h
  exact ⟨new, habout, hlisten, hpending,
    fun f hf => (hincoming f hf).trans (Function.update_of_ne hf _ _), hcalls⟩

theorem handleEvent_read (parts : ServerParts P) (hfd : e.fd ≠ s.listenFd) (hhup : ¬ e.hup) :
    s.handleEvent parts e = (s.readSocket parts e.fd).map fun s => (s, .next) := by
  rw [handleEvent, if_neg hfd, if_neg hhup]

/-- **A hang-up** is reported, and the loop is left. -/
theorem handleEvent_hup (hfd : e.fd ≠ s.listenFd) (hhup : e.hup) :
    s.handleEvent parts e = (s.closeSocket parts e.fd).map fun s => (s, .leave) := by
  rw [handleEvent, if_neg hfd, if_pos hhup]

/-! ### The calls of the parser -/

/-- The parser after a connection was read, if its calls return. -/
def parserReads (parts : ServerParts P) (fd : Int32) (ending : ReadEnd) :
    List (List UInt8) → P → Option P
  | [], p =>
    match ending with
    | .again => some p
    | .eof | .failed => parts.socketClosed p fd
  | bytes :: chunks, p =>
    (parts.parse p fd bytes).bind fun r =>
      if r.2 then parts.socketClosed r.1 fd else parserReads parts fd ending chunks r.1

/-- The calls of the parser return that the events lead to, up to the first hang-up. -/
def ParserReturns (parts : ServerParts P) (listenFd : Int32) (incoming : Int32 → Incoming) :
    P → List Int32 → List EpollEvent → Prop
  | _, _, [] => True
  | p, pending, e :: es =>
    if e.fd = listenFd then
      match pending with
      | [] => True
      | fd :: pending => ParserReturns parts listenFd incoming (parts.newSocket p fd) pending es
    else if e.hup then (parts.socketClosed p e.fd).isSome = true
    else ∃ p', parserReads parts e.fd (incoming e.fd).ending (incoming e.fd).chunks p = some p' ∧
      ParserReturns parts listenFd incoming p' pending es

theorem parser_closeSocket (parts : ServerParts P) (s : EpollServer P) (fd : Int32) :
    (s.closeSocket parts fd).map EpollServer.parser = parts.socketClosed s.parser fd := by
  rw [closeSocket, Option.map_map]
  exact Option.map_id'

/-- **Reading** a connection returns if the calls of the parser do. -/
theorem parser_readLoop (parts : ServerParts P) (fd : Int32) (ending : ReadEnd)
    (chunks : List (List UInt8)) (s : EpollServer P) :
    (readLoop parts fd ending chunks s).map EpollServer.parser =
      parserReads parts fd ending chunks s.parser := by
  induction chunks generalizing s with
  | nil =>
    cases ending with
    | again => rfl
    | eof | failed => exact parser_closeSocket parts s fd
  | cons bytes chunks ih =>
    rw [readLoop, parserReads]
    cases parts.parse s.parser fd bytes with
    | none => rfl
    | some r =>
      simp only [Option.bind_some]
      split_ifs
      · exact parser_closeSocket ..
      · exact ih _

theorem parser_readSocket (parts : ServerParts P) (s : EpollServer P) (fd : Int32) :
    (s.readSocket parts fd).map EpollServer.parser =
      parserReads parts fd (s.incoming fd).ending (s.incoming fd).chunks s.parser :=
  parser_readLoop ..

/-- No connection was dealt with that an event is still to come for. -/
def Fresh (s : EpollServer P) (es : List EpollEvent) : Prop :=
  ∀ e ∈ es, ServerCall.drained e.fd ∉ s.calls ∧ ServerCall.socketClosed e.fd ∉ s.calls

theorem Fresh.of_extends {s' : EpollServer P} {fd : Int32} {new : List ServerCall}
    (h : Fresh s es) (hnew : Extends s s' fd new) (habout : About fd new)
    (hfd : ∀ e ∈ es, e.fd ≠ fd) : Fresh s' es := by
  intro e he
  obtain ⟨hdrained, hclosed⟩ := h e he
  rw [hnew.calls, List.mem_append, List.mem_append]
  refine ⟨?_, ?_⟩
  · rintro (hold | hlast)
    · exact hdrained hold
    · exact hfd e he (habout.drained _ hlast)
  · rintro (hold | hlast)
    · exact hclosed hold
    · exact hfd e he (habout.socketClosed _ hlast)

/-- Only the listening socket's event that has nothing to accept needs no turn. -/
theorem handled_of_fresh (h : Fresh s es) (he : e ∈ es) :
    Handled s e ↔ e.fd = s.listenFd ∧ s.pending = [] := by
  obtain ⟨hdrained, hclosed⟩ := h e he
  unfold Handled
  split_ifs with hfd hhup
  · exact ⟨fun hpending => ⟨hfd, hpending⟩, fun hpending => hpending.2⟩
  · exact ⟨fun hcalls => absurd hcalls hclosed, fun hlisten => absurd hlisten.1 hfd⟩
  · refine ⟨fun hcalls => ?_, fun hlisten => absurd hlisten.1 hfd⟩
    rcases hcalls with hcalls | hcalls
    · exact absurd hcalls hdrained
    · exact absurd hcalls hclosed

/-! ### The batch -/

/-- **The loop over the events** forgets no call. -/
theorem handleEvents_grows {s' : EpollServer P} {goes : Bool}
    (h : handleEvents parts s es = some (s', goes)) :
    s'.listenFd = s.listenFd ∧ s.calls ⊆ s'.calls := by
  induction es generalizing s with
  | nil =>
    obtain ⟨rfl, -⟩ := Prod.mk.inj (Option.some.inj h)
    exact ⟨rfl, List.Subset.refl _⟩
  | cons e es ih =>
    rw [handleEvents] at h
    -- without a pending connection accept fails, and run throws
    by_cases hfd : e.fd = s.listenFd
    · rw [handleEvent, if_pos hfd] at h
      cases hpending : s.pending with
      | nil =>
        rw [hpending] at h
        obtain ⟨rfl, -⟩ := Prod.mk.inj (Option.some.inj h)
        exact ⟨rfl, List.Subset.refl _⟩
      | cons fd pending =>
        rw [hpending] at h
        obtain ⟨hlisten, hcalls⟩ := ih h
        exact ⟨hlisten, List.Subset.trans (List.subset_append_left _ _) hcalls⟩
    · by_cases hhup : e.hup
      · -- the rest of the batch is dropped
        rw [handleEvent_hup hfd hhup] at h
        cases hclosed : s.closeSocket parts e.fd with
        | none => simp [hclosed] at h
        | some s₁ =>
          rw [hclosed] at h
          obtain ⟨rfl, -⟩ := Prod.mk.inj (Option.some.inj h)
          have hextends := closeSocket_extends hclosed
          exact ⟨hextends.listenFd, hextends.calls ▸ List.subset_append_left _ _⟩
      · rw [handleEvent_read parts hfd hhup] at h
        cases hread : s.readSocket parts e.fd with
        | none => simp [hread] at h
        | some s₁ =>
          rw [hread] at h
          obtain ⟨new, -, hextends⟩ := readSocket_extends hread
          obtain ⟨hlisten, hcalls⟩ := ih h
          refine ⟨hlisten.trans hextends.listenFd, List.Subset.trans ?_ hcalls⟩
          rw [hextends.calls]
          exact List.subset_append_left _ _

/-- Without an event of the listening socket, no connection is accepted. -/
theorem pending_handleEvents {s' : EpollServer P} {goes : Bool} (hes : ∀ e ∈ es, e.fd ≠ s.listenFd)
    (h : handleEvents parts s es = some (s', goes)) : s'.pending = s.pending := by
  induction es generalizing s with
  | nil =>
    obtain ⟨rfl, -⟩ := Prod.mk.inj (Option.some.inj h)
    rfl
  | cons e es ih =>
    obtain ⟨hfd, hes⟩ := List.forall_mem_cons.mp hes
    rw [handleEvents] at h
    by_cases hhup : e.hup
    · rw [handleEvent_hup hfd hhup] at h
      cases hclosed : s.closeSocket parts e.fd with
      | none => simp [hclosed] at h
      | some s₁ =>
        rw [hclosed] at h
        obtain ⟨rfl, -⟩ := Prod.mk.inj (Option.some.inj h)
        exact (closeSocket_extends hclosed).pending
    · rw [handleEvent_read parts hfd hhup] at h
      cases hread : s.readSocket parts e.fd with
      | none => simp [hread] at h
      | some s₁ =>
        rw [hread] at h
        obtain ⟨new, -, hextends⟩ := readSocket_extends hread
        exact (ih (by rwa [hextends.listenFd]) h).trans hextends.pending

/-- No event that has something left follows a hang-up, and where the listening socket's event has its
turn, one connection waits. -/
structure Lossless (listenFd : Int32) (pending : List Int32) (es : List EpollEvent) : Prop where
  afterHup : es.Pairwise fun e e' => e.HangsUp listenFd → e'.fd = listenFd ∧ pending = []
  oneWaits : ∀ e ∈ es.takeWhile fun e => ¬ e.HangsUp listenFd, e.fd = listenFd → pending.length = 1

namespace Lossless

variable {listenFd fd : Int32} {pending : List Int32}

/-- The listening socket's event, with one connection or more. -/
theorem cons_listen (hfd : e.fd = listenFd) (hes : ∀ e' ∈ es, e'.fd ≠ listenFd) :
    Lossless listenFd (fd :: pending) (e :: es) ↔ pending = [] ∧ Lossless listenFd pending es := by
  have hstays : ¬ e.HangsUp listenFd := fun h => h.1 hfd
  constructor
  · rintro ⟨hafter, hone⟩
    rw [List.takeWhile_cons_of_pos (by simpa using hstays)] at hone
    have hlength := hone e List.mem_cons_self hfd
    refine ⟨List.eq_nil_of_length_eq_zero (Nat.succ.inj hlength), ?_, ?_⟩
    · refine (List.pairwise_cons.mp hafter).2.imp fun h hup => ?_
      exact absurd (h hup).2 (List.cons_ne_nil _ _)
    · intro e' he' hlisten
      exact absurd hlisten (hes e' ((List.takeWhile_sublist _).mem he'))
  · rintro ⟨rfl, hafter, -⟩
    refine ⟨List.pairwise_cons.mpr ⟨fun _ _ hup => absurd hup hstays, ?_⟩, fun _ _ _ => rfl⟩
    refine hafter.imp_of_mem fun _ hmem h hup => ?_
    exact absurd (h hup).1 (hes _ hmem)

/-- A connection that hangs up. -/
theorem cons_hup (hup : e.HangsUp listenFd) :
    Lossless listenFd pending (e :: es) ↔ ∀ e' ∈ es, e'.fd = listenFd ∧ pending = [] := by
  constructor
  · rintro ⟨hafter, -⟩ e' he'
    exact (List.pairwise_cons.mp hafter).1 e' he' hup
  · intro h
    refine ⟨List.pairwise_cons.mpr ⟨fun e' he' _ => h e' he', ?_⟩, ?_⟩
    · exact List.pairwise_of_forall_mem_list fun _ _ e' he' _ => h e' he'
    · rw [List.takeWhile_cons_of_neg (by simpa using hup)]
      exact fun _ hmem => absurd hmem List.not_mem_nil

/-- A connection that is read. -/
theorem cons_read (hfd : e.fd ≠ listenFd) (hhup : ¬ e.hup) :
    Lossless listenFd pending (e :: es) ↔ Lossless listenFd pending es := by
  have hstays : ¬ e.HangsUp listenFd := fun h => hhup h.2
  constructor
  · rintro ⟨hafter, hone⟩
    rw [List.takeWhile_cons_of_pos (by simpa using hstays)] at hone
    exact ⟨(List.pairwise_cons.mp hafter).2, fun e' he' => hone e' (List.mem_cons_of_mem _ he')⟩
  · rintro ⟨hafter, hone⟩
    refine ⟨List.pairwise_cons.mpr ⟨fun _ _ hup => absurd hup hstays, hafter⟩, ?_⟩
    rw [List.takeWhile_cons_of_pos (by simpa using hstays)]
    intro e' he' hlisten
    rcases List.mem_cons.mp he' with rfl | hmem
    · exact absurd hlisten hfd
    · exact hone e' hmem hlisten

end Lossless

/-- **The loop over the events** handles all of them if none is lost to a hang-up or to another
connection, and the parser returns. -/
theorem handleEvents_iff (parts : ServerParts P) (incoming : Int32 → Incoming) (s : EpollServer P)
    {es : List EpollEvent} (hnodup : (es.map EpollEvent.fd).Nodup) (hfresh : Fresh s es)
    (hincoming : ∀ e ∈ es, s.incoming e.fd = incoming e.fd) :
    (∃ s', handleEvents parts s es = some (s', true) ∧ ∀ e ∈ es, Handled s' e) ↔
      Lossless s.listenFd s.pending es ∧
        ParserReturns parts s.listenFd incoming s.parser s.pending es := by
  induction es generalizing s with
  | nil => exact ⟨fun _ => ⟨⟨.nil, by simp⟩, trivial⟩, fun _ => ⟨s, rfl, by simp⟩⟩
  | cons e es ih =>
    obtain ⟨hfds, hnodup⟩ := List.nodup_cons.mp hnodup
    obtain ⟨hhere, hincoming⟩ := List.forall_mem_cons.mp hincoming
    have hother : ∀ e' ∈ es, e'.fd ≠ e.fd := by
      intro e' he' hsame
      exact hfds (hsame ▸ List.mem_map_of_mem he')
    have hrest : Fresh s es := fun e' he' => hfresh e' (List.mem_cons_of_mem _ he')
    rw [handleEvents, ParserReturns.eq_def]
    dsimp only
    by_cases hfd : e.fd = s.listenFd
    · rw [hfd] at hother
      rw [handleEvent, if_pos hfd, if_pos hfd]
      cases hpending : s.pending with
      | nil =>
        refine ⟨fun ⟨s', h, _⟩ => by simp at h, fun ⟨h, _⟩ => ?_⟩
        have hstays : ¬ e.HangsUp s.listenFd := fun h => h.1 hfd
        have hone := h.oneWaits e (by
          rw [List.takeWhile_cons_of_pos (by simpa using hstays)]
          exact List.mem_cons_self) hfd
        exact absurd hone (by decide)
      | cons fd pending =>
        dsimp only
        set s₁ : EpollServer P :=
          { s with
            pending := pending
            parser := parts.newSocket s.parser fd
            calls := s.calls ++ [.accepted fd] } with hs₁
        have hfresh₁ : Fresh s₁ es := by
          intro e' he'
          simpa [hs₁] using hrest e' he'
        have hih : (∃ s', handleEvents parts s₁ es = some (s', true) ∧ ∀ e ∈ es, Handled s' e) ↔
            Lossless s.listenFd pending es ∧
              ParserReturns parts s.listenFd incoming (parts.newSocket s.parser fd) pending es :=
          ih s₁ hnodup hfresh₁ hincoming
        -- the rest of the batch leaves the listening socket as it is
        have hhandled : ∀ s', handleEvents parts s₁ es = some (s', true) →
            (Handled s' e ↔ pending = []) := by
          intro s' h
          have hlisten : e.fd = s'.listenFd := hfd.trans (handleEvents_grows h).1.symm
          rw [Handled, if_pos hlisten, pending_handleEvents (s := s₁) hother h]
        rw [Lossless.cons_listen hfd hother, and_assoc, ← hih]
        constructor
        · rintro ⟨s', h, hall⟩
          obtain ⟨hfirst, hall⟩ := List.forall_mem_cons.mp hall
          exact ⟨(hhandled s' h).mp hfirst, s', h, hall⟩
        · rintro ⟨hnone, s', h, hall⟩
          exact ⟨s', h, List.forall_mem_cons.mpr ⟨(hhandled s' h).mpr hnone, hall⟩⟩
    rw [if_neg hfd]
    by_cases hhup : e.hup
    · rw [handleEvent_hup hfd hhup, if_pos hhup, Lossless.cons_hup ⟨hfd, hhup⟩,
        ← parser_closeSocket, Option.isSome_map]
      cases hclosed : s.closeSocket parts e.fd with
      | none => exact iff_of_false (by simp) (by simp)
      | some s₁ =>
        have hextends := closeSocket_extends hclosed
        have hfresh₁ := hrest.of_extends hextends (About.closed e.fd) hother
        have hfirst : Handled s₁ e := by
          rw [Handled, if_neg (by rwa [hextends.listenFd]), if_pos hhup, hextends.calls]
          exact List.mem_append_right _ (List.mem_singleton_self _)
        simp only [Option.map_some, Option.some.injEq, Prod.mk.injEq, and_true, exists_eq_left',
          Option.isSome_some]
        rw [← hextends.listenFd, ← hextends.pending, List.forall_mem_cons]
        constructor
        · rintro ⟨-, hall⟩ e' he'
          exact (handled_of_fresh hfresh₁ he').mp (hall e' he')
        · intro hall
          exact ⟨hfirst, fun e' he' => (handled_of_fresh hfresh₁ he').mpr (hall e' he')⟩
    · rw [handleEvent_read parts hfd hhup, if_neg hhup, Lossless.cons_read hfd hhup, ← hhere,
        ← parser_readSocket]
      cases hread : s.readSocket parts e.fd with
      | none => exact iff_of_false (by simp) (by simp)
      | some s₁ =>
        obtain ⟨new, habout, hextends⟩ := readSocket_extends hread
        have hih := ih s₁ hnodup (hrest.of_extends hextends habout hother) fun e' he' =>
          (hextends.incoming e'.fd (hother e' he')).trans (hincoming e' he')
        rw [hextends.listenFd, hextends.pending] at hih
        have hfirst : ∀ s', handleEvents parts s₁ es = some (s', true) → Handled s' e := by
          intro s' h
          obtain ⟨hlisten, hcalls⟩ := handleEvents_grows h
          rw [hextends.calls] at hcalls
          rw [Handled, if_neg (by rwa [hlisten, hextends.listenFd]), if_neg hhup]
          exact habout.handled.imp (fun h => hcalls (List.mem_append_right _ h))
            fun h => hcalls (List.mem_append_right _ h)
        simp only [Option.map_some, Option.some.injEq, exists_eq_left']
        rw [← hih]
        constructor
        · rintro ⟨s', h, hall⟩
          exact ⟨s', h, (List.forall_mem_cons.mp hall).2⟩
        · rintro ⟨s', h, hall⟩
          exact ⟨s', h, List.forall_mem_cons.mpr ⟨hfirst s' h, hall⟩⟩

/-- **Events.** An iteration of `run` handles every event of its batch exactly when no event with something
left follows a hang-up, one connection waits when the event of the listening socket has its turn, and the
calls of the parser that the events lead to return. -/
theorem handles_all_iff (parts : ServerParts P) (s : EpollServer P) (batch : EventBatch) :
    (∃ s', s.iterate parts batch = some s' ∧ ∀ e ∈ batch.events, Handled s' e) ↔
      Lossless s.listenFd s.pending batch.events ∧
        ParserReturns parts s.listenFd s.incoming s.parser s.pending batch.events := by
  have hfresh : Fresh { s with calls := [] } batch.events :=
    fun _ _ => ⟨List.not_mem_nil, List.not_mem_nil⟩
  rw [← handleEvents_iff parts s.incoming { s with calls := [] } batch.nodup hfresh fun _ _ => rfl]
  refine exists_congr fun s' => and_congr_left fun _ => ?_
  rw [iterate]
  rcases handleEvents parts { s with calls := [] } batch.events with - | ⟨s₁, _ | _⟩ <;> simp

/-- The stream parser at one reading of the clock. A call of `parse` that is still running behind as many
rounds as the buffer has bytes never returns. -/
def streamParts (now : UInt64) : ServerParts StreamParser :=
  { parse := fun p fd bytes =>
      let w := p.walk ⟨fd, now, bytes, fun _ => 0⟩ ((p.buffer fd).length + bytes.length + 1)
      if w.status = .running then none else some (w.parser, w.status = .closed)
    newSocket := StreamParser.newSocket
    socketClosed := fun p fd => some (p.socketClosed fd) }

/-- **The calls of `parse`** return as its loop does. -/
theorem streamParts_parse_eq_some {now : UInt64} {p : StreamParser} {fd : Int32} {bytes : List UInt8}
    {r : StreamParser × Bool} :
    (streamParts now).parse p fd bytes = some r ↔ ∃ n,
      (p.walk ⟨fd, now, bytes, fun _ => 0⟩ n).status ≠ .running ∧
        r = ((p.walk ⟨fd, now, bytes, fun _ => 0⟩ n).parser,
          decide ((p.walk ⟨fd, now, bytes, fun _ => 0⟩ n).status = .closed)) := by
  show (if _ then none else some _) = some r ↔ _
  constructor
  · intro h
    split_ifs at h with hrunning
    exact ⟨_, hrunning, (Option.some.inj h).symm⟩
  · rintro ⟨n, hstopped, rfl⟩
    have hbound := StreamParser.walk_eq_of_stopped hstopped
    rw [hbound, if_neg hstopped]

/-- A client hangs up before another sends its order. -/
def hangUpThenOrder : EventBatch := ⟨[⟨6, true⟩, ⟨7, false⟩], by decide⟩

/-- **A hang-up** has the order of another client wait, with no event to come for it. -/
theorem iterate_hangUpThenOrder :
    ¬ ∀ (s : EpollServer StreamParser) (batch : EventBatch),
      ∃ s', s.iterate (streamParts 0) batch = some s' ∧ ∀ e ∈ batch.events, Handled s' e := by
  intro h
  obtain ⟨s', hs', hall⟩ := h
    ⟨3, [], fun _ => ⟨[[42, 0, 1, 1]], .again⟩, StreamParser.start, []⟩ hangUpThenOrder
  obtain rfl := Option.some.inj hs'
  have hread := hall ⟨7, false⟩ (by decide)
  rw [Handled, if_neg (by decide), if_neg (by decide)] at hread
  exact absurd hread (by decide +kernel)

end EpollServer

end Ndfex
