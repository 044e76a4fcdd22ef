import Ndfex.Exchange.Authority
import Ndfex.MatchingEngine.Answers
import Ndfex.OrderEntry.Deliveries

/-!
# What an event sends

An event adds requests to the one queue, responses to the other and messages to the sockets, always
behind what was sent before. Messages are written by two events: a login, and a turn of the handler's
loop, which delivers the response at the front.

## Main definitions

* `Exchange.messagesOf`: the messages of an event

## Main results

* `Exchange.items_after`, `Exchange.responses_after`: the queues grow at their ends
* `Exchange.written_after`: the sockets get the messages of the event
-/

namespace Ndfex

open Containers Transition

namespace Exchange

variable {s : Exchange} {l : ExchangeEvent}

/-- A turn of the engine that has a request takes it. -/
theorem after_engineTurn {books : UInt32 → PriorityBook} {p : OePayload}
    (ha : Agreed s.handler s.broker books) (hp : s.handler.toMatchingEngine.front? = some p) :
    s.after .engineTurn =
      { s with
        broker := (s.broker.handle p).broker
        handler := { s.handler with toMatchingEngine := s.handler.toMatchingEngine.pop } } := by
  simp only [after, engineTurn, hp, ha.thrown hp]

/-- The responses to a request are those to it on the books. -/
theorem responses_engineTurn {books : UInt32 → PriorityBook} {p : OePayload}
    (ha : Agreed s.handler s.broker books) (hp : s.handler.toMatchingEngine.front? = some p) :
    (s.after .engineTurn).broker.toClient.items =
      s.broker.toClient.items ++ s.broker.responses books p := by
  rw [after_engineTurn ha hp]
  exact (ha.sound.handle (ha.fresh hp)).1.items

/-- The requests of an event come behind the earlier ones. -/
theorem items_after (hn : s.HistoryFits) (l : ExchangeEvent) :
    ∃ ps, (s.after l).handler.toMatchingEngine.items = s.handler.toMatchingEngine.items ++ ps := by
  rcases cancels_after hn l with ⟨ps, hitems, -⟩ | ⟨fd, m, -, hafter⟩
  · exact ⟨ps, hitems⟩
  rw [hafter]
  rcases s.handler.receive_cases fd m with
    ⟨reason, -, hreject⟩ | ⟨-, ⟨p, -, hforward⟩ | ⟨msg, now, -, -, hentry⟩⟩
  · rw [hreject]
    exact ⟨_, rfl⟩
  · rw [hforward]
    exact ⟨_, rfl⟩
  · rw [hentry]
    exact ⟨_, rfl⟩

/-- Only the two loops touch the responses. -/
theorem toClient_after (hengine : l ≠ .engineTurn) (hhandler : ∀ w, l ≠ .handlerTurn w) :
    (s.after l).broker.toClient = s.broker.toClient := by
  cases l with
  | handlerTurn w => exact absurd rfl (hhandler w)
  | engineTurn => exact absurd rfl hengine
  | newOrder fd msg now =>
    show (s.noteEntry fd msg now).broker.toClient = _
    unfold noteEntry
    split_ifs <;> rfl
  | _ => rfl

/-- A turn of the handler's loop takes the front response. -/
theorem toClient_handlerTurn (w : Circumstances) :
    (s.after (.handlerTurn w)).broker.toClient = s.broker.toClient.pop := by
  simp only [after, handlerTurn]
  cases hp : s.broker.toClient.front? with
  | none => exact (Fifo.pop_of_front?_eq_none hp).symm
  | some p => rfl

/-- Only the engine responds. -/
theorem responses_after_of_ne (hl : l ≠ .engineTurn) :
    (s.after l).broker.toClient.items = s.broker.toClient.items := by
  by_cases hhandler : ∃ w, l = .handlerTurn w
  · obtain ⟨w, rfl⟩ := hhandler
    rw [toClient_handlerTurn, Fifo.items_pop]
  · rw [toClient_after hl fun w heq => hhandler ⟨w, heq⟩]

/-- The responses of an event come behind the earlier ones. -/
theorem responses_after (hs : s.Sound) (l : ExchangeEvent) :
    ∃ ps, (s.after l).broker.toClient.items = s.broker.toClient.items ++ ps := by
  by_cases hl : l = .engineTurn
  swap
  · exact ⟨[], by rw [responses_after_of_ne hl, List.append_nil]⟩
  subst hl
  obtain ⟨-, -, books, hagreed⟩ := hs
  cases hp : s.handler.toMatchingEngine.front? with
  | none =>
    have hsame : s.after .engineTurn = s := by simp only [after, engineTurn, hp]
    exact ⟨[], by rw [hsame, List.append_nil]⟩
  | some p =>
    rw [after_engineTurn hagreed hp]
    exact ⟨_, (hagreed.sound.handle (hagreed.fresh hp)).1.items⟩

/-- Only the engine takes requests. -/
theorem taken_after (hl : l ≠ .engineTurn) :
    (s.after l).handler.toMatchingEngine.taken = s.handler.toMatchingEngine.taken := by
  refine handler_after
    (I := fun h' => h'.toMatchingEngine.taken = s.handler.toMatchingEngine.taken) rfl
    ?_ ?_ ?_ ?_ fun heq => absurd heq hl
  · rintro fd msg sessionId w -
    rcases @ClientHandler.kept_onLogin w s.handler fd msg sessionId with hk | ⟨-, hk⟩
    · exact hk.taken
    · exact hk.taken
  · rintro fd m -
    rcases s.handler.receive_cases fd m with
      ⟨reason, -, hreject⟩ | ⟨-, ⟨p, -, hforward⟩ | ⟨msg, now, -, -, hentry⟩⟩
    · rw [hreject]
      exact Fifo.taken_push ..
    · rw [hforward]
      exact Fifo.taken_push ..
    · rw [hentry]
      exact Fifo.taken_push ..
  · exact fun fd w _ => (@ClientHandler.kept_onSocketClosed none w s.handler fd).taken
  · rintro p w - -
    rcases s.handler.handle_cases p w with ⟨-, order, h', -, hk, hhandle⟩ | ⟨-, hk⟩
    · rw [hhandle]
      exact hk.taken
    · exact hk.taken

theorem toClient_start (symbols : List SymbolDefinition)
    (users : AList fun _ : List UInt8 => UserInfo) :
    (start symbols users).broker.toClient = Fifo.empty := by
  rw [start, MatchingEngineBroker.start_eq]
  rfl

/-- The messages that an event writes. -/
def messagesOf (s : Exchange) : ExchangeEvent → List Written
  | .login fd msg sessionId _ => s.handler.greetings fd msg sessionId
  | .handlerTurn _ =>
    match s.broker.toClient.front? with
    | none => []
    | some p => s.handler.delivery p
  | _ => []

/-- **The messages** come behind the earlier ones. -/
theorem written_after (s : Exchange) (l : ExchangeEvent) :
    (s.after l).handler.written = s.handler.written ++ s.messagesOf l := by
  have hnone : s.handler.written = s.handler.written ++ [] := (List.append_nil _).symm
  cases l with
  | login fd msg sessionId w => exact ClientHandler.written_onLogin ..
  | newOrder fd msg now =>
    exact (ClientHandler.written_receive s.handler fd (.newOrder msg now)).trans hnone
  | deleteOrder fd msg =>
    exact (ClientHandler.written_receive s.handler fd (.deleteOrder msg)).trans hnone
  | modifyOrder fd msg =>
    exact (ClientHandler.written_receive s.handler fd (.modifyOrder msg)).trans hnone
  | socketClosed fd w => exact (ClientHandler.written_onSocketClosed s.handler fd).trans hnone
  | handlerTurn w =>
    simp only [after, handlerTurn, messagesOf]
    cases s.broker.toClient.front? with
    | none => exact hnone
    | some p => exact ClientHandler.written_handle ..
  | engineTurn =>
    refine Eq.trans ?_ hnone
    simp only [after, engineTurn]
    split
    · rfl
    · split
      · rfl
      · rfl
  | heartbeat => exact hnone

end Exchange

end Ndfex
