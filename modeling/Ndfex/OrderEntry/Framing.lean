import Ndfex.OrderEntry.StreamParser

/-!
# Framing

What `parse` makes of any bytes. The loop goes from message to message by the lengths in the headers,
which nothing checks against the structs: a length of zero keeps the loop where it is, and a length that
is not the struct's has the handler read what belongs to other messages, or to nobody. On the bytes of
well-formed requests, however they are cut and interleaved with those of other sockets, the handler gets
these requests.

## Main results

* `parse_terminates_iff`: when `parse` returns
* `accepts_exactly_iff`: when the handler gets whole structs, and nothing else
* `framing`: well-formed requests, in any pieces
-/

namespace Ndfex

open Transition Wire

namespace StreamParser

variable {p : StreamParser} {c : Chunk}

/-! ### Where the loop stands -/

theorem walk_succ (p : StreamParser) (c : Chunk) (n : ℕ) :
    p.walk c (n + 1) = (p.walk c n).round c :=
  Function.iterate_succ_apply' ..

theorem enter_of_throttled (h : p.Throttled c) : (p.enter c).status = .closed := by
  have hlength : maxMsgsPerSecond < (p.recent c).length := h
  rw [enter, if_pos hlength]

theorem enter_of_not_throttled (h : ¬ p.Throttled c) :
    (p.enter c).status = .running ∧ (p.enter c).parser.calls = p.calls ∧
      (p.enter c).parser.errors = p.errors ∧
      (p.enter c).parser.buffer c.sockFd = p.buffer c.sockFd ++ c.buf := by
  have hlength : ¬ maxMsgsPerSecond < (p.recent c).length := h
  rw [enter, if_neg hlength]
  exact ⟨rfl, rfl, rfl, buffer_setBuffer ..⟩

/-- A round after which `parse` runs handed a message over. -/
theorem handed_of_running {n : ℕ} (hrunning : (p.walk c (n + 1)).status = .running) :
    (p.walk c n).status = .running ∧ Handed ((p.walk c n).parser.buffer c.sockFd) ∧
      ∃ t, frameType ((p.walk c n).parser.buffer c.sockFd) = some t ∧
        p.walk c (n + 1) = ⟨(p.walk c n).parser.hand c t, .running⟩ := by
  rw [walk_succ] at hrunning ⊢
  by_cases hprev : (p.walk c n).status = .running
  · by_cases hhanded : Handed ((p.walk c n).parser.buffer c.sockFd)
    · exact ⟨hprev, hhanded, ParseWalk.round_of_handed hprev hhanded⟩
    · exact absurd hrunning (ParseWalk.round_of_not_handed hprev hhanded).1
  · rw [ParseWalk.round_of_stopped hprev] at hrunning
    exact absurd hrunning hprev

/-- While `parse` runs, the buffer begins with the next message of what it was given. -/
theorem passes_of_running {n : ℕ} (hrunning : (p.walk c n).status = .running) :
    ¬ p.Throttled c ∧
      Passes (p.buffer c.sockFd ++ c.buf) ((p.walk c n).parser.buffer c.sockFd) := by
  induction n with
  | zero =>
    have hrunning : (p.enter c).status = .running := hrunning
    have hthrottled : ¬ p.Throttled c := by
      intro hthrottled
      rw [enter_of_throttled hthrottled] at hrunning
      exact absurd hrunning (by decide)
    have hbuffer : (p.walk c 0).parser.buffer c.sockFd = p.buffer c.sockFd ++ c.buf :=
      (enter_of_not_throttled hthrottled).2.2.2
    rw [hbuffer]
    exact ⟨hthrottled, .here _⟩
  | succ n ih =>
    obtain ⟨hprev, hhanded, t, -, hround⟩ := handed_of_running hrunning
    obtain ⟨hthrottled, hpasses⟩ := ih hprev
    rw [hround, buffer_hand]
    exact ⟨hthrottled, hpasses.trans (.next hhanded (.here _))⟩

/-- The loop comes to every message that the lengths lead to. -/
theorem running_of_passes (hthrottled : ¬ p.Throttled c) {rest : List UInt8}
    (h : Passes (p.buffer c.sockFd ++ c.buf) rest) :
    ∃ n, (p.walk c n).status = .running ∧ (p.walk c n).parser.buffer c.sockFd = rest := by
  obtain ⟨hstatus, -, -, hbuffer⟩ := enter_of_not_throttled hthrottled
  have hstart : (p.walk c 0).status = .running := hstatus
  have hbegin : (p.walk c 0).parser.buffer c.sockFd = p.buffer c.sockFd ++ c.buf := hbuffer
  generalize p.buffer c.sockFd ++ c.buf = bs at h hbegin
  generalize 0 = n at hstart hbegin
  induction h generalizing n with
  | here => exact ⟨n, hstart, hbegin⟩
  | next handed _ ih =>
    rw [← hbegin] at handed
    obtain ⟨t, -, hround⟩ := ParseWalk.round_of_handed hstart handed
    rw [← walk_succ] at hround
    refine ih (n + 1) (by rw [hround]) ?_
    rw [hround, buffer_hand, hbegin]

/-! ### Termination -/

/-- A message of no length is handed over again and again. -/
theorem running_of_length_zero (hthrottled : ¬ p.Throttled c)
    (hhanded : Handed (p.buffer c.sockFd ++ c.buf)) (hzero : frameLength (p.buffer c.sockFd ++ c.buf) = 0)
    (n : ℕ) : (p.walk c n).status = .running ∧
      (p.walk c n).parser.buffer c.sockFd = p.buffer c.sockFd ++ c.buf ∧
      (p.walk c n).parser.calls.length = p.calls.length + n := by
  induction n with
  | zero =>
    obtain ⟨hstatus, hcalls, -, hbuffer⟩ := enter_of_not_throttled hthrottled
    exact ⟨hstatus, hbuffer, congrArg List.length hcalls⟩
  | succ n ih =>
    obtain ⟨hstatus, hbuffer, hcalls⟩ := ih
    rw [← hbuffer] at hhanded hzero
    obtain ⟨t, -, hround⟩ := ParseWalk.round_of_handed hstatus hhanded
    rw [walk_succ, hround]
    refine ⟨rfl, ?_, ?_⟩
    · rw [buffer_hand, hzero, List.drop_zero, hbuffer]
    · rw [calls_hand, List.length_append, hcalls]
      rfl

theorem walk_of_stopped {n m : ℕ} (h : (p.walk c n).status ≠ .running) (hle : n ≤ m) :
    p.walk c m = p.walk c n := by
  induction hle with
  | refl => rfl
  | step _ ih => rw [walk_succ, ih, ParseWalk.round_of_stopped h]

/-- A message of no length that the loop comes to is handed over again and again. -/
theorem running_of_stuck {n : ℕ} (hrunning : (p.walk c n).status = .running)
    (hhanded : Handed ((p.walk c n).parser.buffer c.sockFd))
    (hzero : frameLength ((p.walk c n).parser.buffer c.sockFd) = 0) (m : ℕ) :
    (p.walk c (n + m)).status = .running ∧
      (p.walk c (n + m)).parser.buffer c.sockFd = (p.walk c n).parser.buffer c.sockFd := by
  induction m with
  | zero => exact ⟨hrunning, rfl⟩
  | succ m ih =>
    obtain ⟨hstatus, hbuffer⟩ := ih
    rw [← hbuffer] at hhanded hzero
    obtain ⟨t, -, hround⟩ := ParseWalk.round_of_handed hstatus hhanded
    rw [← Nat.add_assoc, walk_succ, hround]
    refine ⟨rfl, ?_⟩
    rw [buffer_hand, hzero, List.drop_zero, hbuffer]

/-- A loop that ends has taken something from the buffer in every round that handed a message over, so it
ends in no more rounds than there are bytes, and one. -/
theorem walk_eq_of_stopped {n : ℕ} (hstopped : (p.walk c n).status ≠ .running) :
    p.walk c ((p.buffer c.sockFd).length + c.buf.length + 1) = p.walk c n := by
  have hbound : ∀ m, (p.walk c m).status = .running →
      ((p.walk c m).parser.buffer c.sockFd).length + m ≤
        (p.buffer c.sockFd).length + c.buf.length := by
    intro m hrunning
    induction m with
    | zero =>
      have hbuffer := (enter_of_not_throttled (passes_of_running hrunning).1).2.2.2
      exact Nat.le_of_eq (by rw [walk, Function.iterate_zero_apply, hbuffer, List.length_append]; rfl)
    | succ m ih =>
      obtain ⟨hprev, hhanded, t, -, hround⟩ := handed_of_running hrunning
      have hcomplete := hhanded.complete
      -- a message of no length would keep the loop from ending
      have hpos : frameLength ((p.walk c m).parser.buffer c.sockFd) ≠ 0 := by
        intro hzero
        rcases Nat.le_total n m with hle | hle
        · exact hstopped (walk_of_stopped hstopped hle ▸ hprev)
        · obtain ⟨k, rfl⟩ := Nat.exists_eq_add_of_le hle
          exact hstopped (running_of_stuck hprev hhanded hzero k).1
      have hearlier := ih hprev
      rw [hround, buffer_hand, List.length_drop]
      omega
  have hlast : (p.walk c ((p.buffer c.sockFd).length + c.buf.length + 1)).status ≠ .running := by
    intro hrunning
    have hle := hbound _ hrunning
    omega
  rcases Nat.le_total n ((p.buffer c.sockFd).length + c.buf.length + 1) with hle | hle
  · exact walk_of_stopped hstopped hle
  · exact (walk_of_stopped hlast hle).symm

/-- **Termination.** The loop of `parse` ends, and every round that does not return takes something from
the buffer, exactly when the call is throttled or no message that the loop comes to has a length of
zero. -/
theorem parse_terminates_iff (p : StreamParser) (c : Chunk) :
    ((∃ n, (p.walk c n).status ≠ .running) ∧
      ∀ n, (p.walk c (n + 1)).status = .running →
        ((p.walk c (n + 1)).parser.buffer c.sockFd).length <
          ((p.walk c n).parser.buffer c.sockFd).length) ↔
    p.Throttled c ∨
      ∀ rest, Passes (p.buffer c.sockFd ++ c.buf) rest → Handed rest → 0 < frameLength rest := by
  constructor
  · rintro ⟨-, hprogress⟩
    by_cases hthrottled : p.Throttled c
    · exact .inl hthrottled
    refine .inr fun rest hpasses hhanded => Nat.pos_of_ne_zero fun hzero => ?_
    obtain ⟨n, hrunning, hbuffer⟩ := running_of_passes hthrottled hpasses
    rw [← hbuffer] at hhanded hzero
    -- the round hands the message over, and leaves the buffer as it is
    obtain ⟨t, -, hround⟩ := ParseWalk.round_of_handed hrunning hhanded
    have hless := hprogress n
    rw [walk_succ, hround, buffer_hand, hzero, List.drop_zero] at hless
    exact Nat.lt_irrefl _ (hless rfl)
  · intro h
    have hprogress : ∀ n, (p.walk c (n + 1)).status = .running →
        ((p.walk c (n + 1)).parser.buffer c.sockFd).length <
          ((p.walk c n).parser.buffer c.sockFd).length := by
      intro n hrunning
      obtain ⟨hprev, hhanded, t, -, hround⟩ := handed_of_running hrunning
      obtain ⟨hthrottled, hpasses⟩ := passes_of_running hprev
      have hpos := (h.resolve_left hthrottled) _ hpasses hhanded
      have hcomplete := hhanded.complete
      rw [hround, buffer_hand, List.length_drop]
      omega
    refine ⟨?_, hprogress⟩
    by_contra hnone
    have hnever : ∀ n, (p.walk c n).status = .running := fun n =>
      Decidable.byContradiction fun hstopped => hnone ⟨n, hstopped⟩
    -- the buffer would shrink forever
    have hbound : ∀ n, ((p.walk c n).parser.buffer c.sockFd).length + n ≤
        ((p.walk c 0).parser.buffer c.sockFd).length := by
      intro n
      induction n with
      | zero => exact Nat.le_refl _
      | succ n ih =>
        have hless := hprogress n (hnever (n + 1))
        omega
    have hlast := hbound (((p.walk c 0).parser.buffer c.sockFd).length + 1)
    omega

/-- A new order whose header says that it has no length. -/
def noLength : Chunk :=
  ⟨5, 0, pack oeRequestHeaderLayout [0, 1, 1, 1, 7, 9], fun _ => 0⟩

/-- **A header of twenty bytes** keeps the parser from ever returning, and has the handler called without
end. -/
theorem parse_never_returns :
    ¬ ∃ n, ((start.newSocket 5).walk noLength n).status ≠ .running := by
  rintro ⟨n, hstopped⟩
  have hthrottled : ¬ (start.newSocket 5).Throttled noLength := by decide +kernel
  have hhanded : Handed ((start.newSocket 5).buffer noLength.sockFd ++ noLength.buf) :=
    ⟨by decide +kernel, by decide +kernel, by decide +kernel, by decide +kernel, by decide +kernel⟩
  exact hstopped (running_of_length_zero hthrottled hhanded (by decide +kernel) n).1

/-! ### Whole structs -/

/-- Calls of `parse` one after the other, each for some rounds, until one does not return or closes the
socket. -/
def deliver (rounds : ℕ) : StreamParser → List Chunk → StreamParser
  | p, [] => p
  | p, c :: cs =>
    if (p.walk c rounds).status = .returned then deliver rounds (p.parse rounds c) cs
    else p.parse rounds c

/-- The call is for a message that some bytes begin with. -/
structure OfFrame (call : HandlerCall) (bs : List UInt8) : Prop where
  header : call.header = frameHeader bs
  request : frameType bs = some call.request.type
  received : call.received = bs.length

theorem ofFrame_handedCall {t : RequestType} (h : frameType (p.buffer c.sockFd) = some t) :
    OfFrame (p.handedCall c t) (p.buffer c.sockFd) :=
  ⟨rfl, by rw [h, handedCall, Request.type_read], rfl⟩

/-- **The calls of one `parse`** are for messages that the lengths lead to. -/
theorem calls_walk (p : StreamParser) (c : Chunk) (n : ℕ) :
    ∃ new, (p.walk c n).parser.calls = p.calls ++ new ∧ ∀ call ∈ new, ∃ rest,
      Passes (p.buffer c.sockFd ++ c.buf) rest ∧ Handed rest ∧ OfFrame call rest := by
  induction n with
  | zero =>
    have hcalls : (p.enter c).parser.calls = p.calls := by
      unfold enter
      dsimp only
      split_ifs <;> rfl
    exact ⟨[], by rw [List.append_nil]; exact hcalls, by simp⟩
  | succ n ih =>
    obtain ⟨new, hcalls, hnew⟩ := ih
    by_cases hrunning : (p.walk c (n + 1)).status = .running
    · -- the round handed one more message over
      obtain ⟨hprev, hhanded, t, ht, hround⟩ := handed_of_running hrunning
      refine ⟨new ++ [(p.walk c n).parser.handedCall c t], ?_, ?_⟩
      · rw [hround, calls_hand, hcalls, List.append_assoc]
      · intro call hcall
        rcases List.mem_append.mp hcall with hold | hlast
        · exact hnew call hold
        · rw [List.mem_singleton.mp hlast]
          exact ⟨_, (passes_of_running hprev).2, hhanded, ofFrame_handedCall ht⟩
    · -- the loop ended in this round or before it, and no call was added
      refine ⟨new, ?_, hnew⟩
      rw [← hcalls, walk_succ]
      rw [walk_succ] at hrunning
      by_cases hprev : (p.walk c n).status = .running
      · by_cases hhanded : Handed ((p.walk c n).parser.buffer c.sockFd)
        · obtain ⟨t, -, hround⟩ := ParseWalk.round_of_handed hprev hhanded
          rw [hround] at hrunning
          exact absurd rfl hrunning
        · exact (ParseWalk.round_of_not_handed hprev hhanded).2.1
      · rw [ParseWalk.round_of_stopped hprev]

/-- When `parse` returns, the buffer begins with the next message of what it was given. -/
theorem passes_of_returned {n : ℕ} (hreturned : (p.walk c n).status = .returned) :
    Passes (p.buffer c.sockFd ++ c.buf) ((p.walk c n).parser.buffer c.sockFd) := by
  induction n with
  | zero =>
    have henter : (p.enter c).status = .returned := hreturned
    unfold enter at henter
    dsimp only at henter
    split_ifs at henter
  | succ n ih =>
    rw [walk_succ] at hreturned ⊢
    by_cases hprev : (p.walk c n).status = .running
    · have hhanded : ¬ Handed ((p.walk c n).parser.buffer c.sockFd) := by
        intro hhanded
        obtain ⟨t, -, hround⟩ := ParseWalk.round_of_handed hprev hhanded
        rw [hround] at hreturned
        exact absurd hreturned (by simp)
      rw [(ParseWalk.round_of_not_handed hprev hhanded).2.2]
      exact (passes_of_running hprev).2
    · rw [ParseWalk.round_of_stopped hprev] at hreturned ⊢
      exact ih hreturned

/-- **The calls on a stream** are for messages that the lengths in the stream lead to, each with some of
the stream received. -/
theorem calls_deliver (rounds : ℕ) {fd : Int32} {cs : List Chunk} (hcs : ∀ c ∈ cs, c.sockFd = fd)
    {p : StreamParser} {got : List UInt8} (hgot : Passes got (p.buffer fd)) :
    ∃ new, (deliver rounds p cs).calls = p.calls ++ new ∧ ∀ call ∈ new, ∃ rest more,
      Passes (got ++ cs.flatMap Chunk.buf) (rest ++ more) ∧ Handed rest ∧ OfFrame call rest := by
  induction cs generalizing p got with
  | nil => exact ⟨[], (List.append_nil _).symm, by simp⟩
  | cons c cs ih =>
    obtain ⟨hc, hcs⟩ := List.forall_mem_cons.mp hcs
    obtain ⟨new, hcalls, hnew⟩ := calls_walk p c rounds
    -- the lengths lead on from what was buffered before this call
    have hfirst : ∀ call ∈ new, ∃ rest more,
        Passes (got ++ (c :: cs).flatMap Chunk.buf) (rest ++ more) ∧ Handed rest ∧
          OfFrame call rest := by
      intro call hcall
      obtain ⟨rest, hpasses, hhanded, hof⟩ := hnew call hcall
      rw [hc] at hpasses
      refine ⟨rest, cs.flatMap Chunk.buf, ?_, hhanded, hof⟩
      rw [List.flatMap_cons, ← List.append_assoc]
      exact ((hgot.append c.buf).trans hpasses).append _
    rw [deliver]
    split_ifs with hreturned
    · have hnext : Passes (got ++ c.buf) ((p.parse rounds c).buffer fd) := by
        have hpasses := passes_of_returned hreturned
        rw [hc] at hpasses
        exact (hgot.append c.buf).trans hpasses
      obtain ⟨later, hlater, hrest⟩ := ih hcs hnext
      refine ⟨new ++ later, ?_, ?_⟩
      · rw [hlater, ← List.append_assoc, ← hcalls]
        rfl
      · intro call hcall
        rcases List.mem_append.mp hcall with hold | hlast
        · exact hfirst call hold
        · obtain ⟨rest, more, hpasses, hof⟩ := hrest call hlast
          refine ⟨rest, more, ?_, hof⟩
          rwa [List.flatMap_cons, ← List.append_assoc]
    · exact ⟨new, hcalls, hfirst⟩

/-- **Whole structs.** However a stream of bytes is cut into calls of `parse` on a new socket, the handler
gets structs that were received whole and whose headers tell their sizes, exactly when every message
that the lengths in the stream lead to, and that the loop hands over, has the length of its struct. -/
theorem accepts_exactly_iff (p : StreamParser) (fd : Int32) (stream : List UInt8) :
    (∀ (rounds : ℕ) (cs : List Chunk), (∀ c ∈ cs, c.sockFd = fd) → cs.flatMap Chunk.buf = stream →
      ∀ new, (deliver rounds (p.newSocket fd) cs).calls = p.calls ++ new → ∀ call ∈ new,
        call.header.length.toNat = call.request.type.size ∧ call.request.type.size ≤ call.received) ↔
    ∀ rest t, Passes stream rest → Handed rest → frameType rest = some t →
      frameLength rest = t.size := by
  constructor
  · intro h rest t hpasses hhanded ht
    -- the whole stream in one call
    let c : Chunk := ⟨fd, 0, stream, fun _ => 0⟩
    have hbuffer : (p.newSocket fd).buffer c.sockFd ++ c.buf = stream := by
      rw [buffer_newSocket, List.nil_append]
    have hthrottled : ¬ (p.newSocket fd).Throttled c := by
      rw [Throttled, recent, timestamps_newSocket, List.dropWhile_nil]
      decide
    rw [← hbuffer] at hpasses
    obtain ⟨n, hrunning, hrest⟩ := running_of_passes hthrottled hpasses
    rw [← hrest] at hhanded ht
    obtain ⟨new, hcalls, -⟩ := calls_walk (p.newSocket fd) c n
    obtain ⟨t', ht', hround⟩ := ParseWalk.round_of_handed hrunning hhanded
    obtain rfl : t' = t := Option.some.inj (ht'.symm.trans ht)
    rw [← walk_succ] at hround
    have hdeliver : deliver (n + 1) (p.newSocket fd) [c] = (p.newSocket fd).parse (n + 1) c := by
      rw [deliver]
      split_ifs <;> rfl
    have hlast := h (n + 1) [c] (by simp [c]) (by simp [c])
      (new ++ [((p.newSocket fd).walk c n).parser.handedCall c t']) ?_ _
      (List.mem_append_right _ (List.mem_singleton_self _))
    · have hof := ofFrame_handedCall ht'
      rw [← hrest, frameLength, ← hof.header, hlast.1]
      exact congrArg RequestType.size (Option.some.inj (hof.request.symm.trans ht'))
    · rw [hdeliver, parse, hround, calls_hand, hcalls, List.append_assoc]
      rfl
  · intro h rounds cs hcs hstream new hnew call hcall
    have hgot : Passes [] ((p.newSocket fd).buffer fd) := by
      rw [buffer_newSocket]
      exact .here _
    obtain ⟨new', hnew', hframes⟩ := calls_deliver rounds hcs hgot
    have hsame : new' = new := by
      rw [hnew'] at hnew
      exact List.append_cancel_left hnew
    subst hsame
    obtain ⟨rest, more, hpasses, hhanded, hof⟩ := hframes call hcall
    rw [List.nil_append, hstream] at hpasses
    have hsize := h _ call.request.type hpasses (hhanded.append more) (by
      rw [frameType_append hhanded.hasHeader, hof.request])
    rw [frameLength_append hhanded.hasHeader] at hsize
    have hcomplete := hhanded.complete
    rw [hof.header, hof.received, ← hsize]
    exact ⟨rfl, hcomplete⟩

/-- A new order whose header says that it ends with the header. -/
def headerOnly : Chunk :=
  ⟨5, 0, pack oeRequestHeaderLayout [20, 1, 1, 1, 7, 9], fun _ => 0⟩

/-- **A header of twenty bytes** is handed over as a new order, of which twenty-two bytes were never
received. -/
theorem reads_past_received :
    ¬ ∀ (rounds : ℕ) (cs : List Chunk), (∀ c ∈ cs, c.sockFd = 5) →
      cs.flatMap Chunk.buf = headerOnly.buf →
      ∀ new, (deliver rounds (start.newSocket 5) cs).calls = [] ++ new → ∀ call ∈ new,
        call.header.length.toNat = call.request.type.size ∧ call.request.type.size ≤ call.received := by
  intro h
  have hall := h 1 [headerOnly] (by decide +kernel) (by decide +kernel) _ rfl
  have hshort : ∃ call ∈ (deliver 1 (start.newSocket 5) [headerOnly]).calls,
      call.request.type.size = 42 ∧ call.received = 20 := by
    decide +kernel
  obtain ⟨call, hcall, hsize, hreceived⟩ := hshort
  have hle := (hall call hcall).2
  rw [hsize, hreceived] at hle
  exact absurd hle (by decide)

/-! ### Well-formed requests -/

/-- The bytes of a socket among those that were read. -/
def receivedOn (fd : Int32) (cs : List Chunk) : List UInt8 :=
  (cs.filter fun c => c.sockFd = fd).flatMap Chunk.buf

/-- The call is not one on this socket that is throttled. -/
def Admits (fd : Int32) (p : StreamParser) (c : Chunk) : Prop := c.sockFd = fd → ¬ p.Throttled c

instance (fd : Int32) (p : StreamParser) : DecidablePred (Admits fd p) := fun c =>
  inferInstanceAs (Decidable (c.sockFd = fd → ¬ p.Throttled c))

/-- The requests for which the handler was called on a socket. -/
def requestsOn (p : StreamParser) (fd : Int32) : List Request :=
  (p.callsOn fd).map HandlerCall.request

/-- What is buffered is part of the first of the requests that are not delivered. -/
def PartOf (bs : List UInt8) (rest : List Request) : Prop :=
  bs = [] ∨ ∃ r ∈ rest.head?, bs <+: r.encode ∧ bs.length < r.encode.length

/-- **Other sockets** are as they were. -/
theorem same_walk {fd : Int32} (h : fd ≠ c.sockFd) (p : StreamParser) (n : ℕ) :
    Same fd p (p.walk c n).parser := by
  induction n with
  | zero => exact .enter h
  | succ n ih =>
    rw [walk_succ]
    exact ih.trans (ParseWalk.same_round h _)

/-- `parse` returns in one way. -/
theorem Step.unique {p' p'' : StreamParser} (h : p.Step c p') (h' : p.Step c p'') : p' = p'' := by
  obtain ⟨n, hn, rfl⟩ := h
  obtain ⟨m, hm, rfl⟩ := h'
  rw [parse, parse]
  rcases Nat.le_total n m with hle | hle
  · rw [walk_of_stopped hn hle]
  · rw [walk_of_stopped hm hle]

/-- The header of a request, at the beginning of its bytes. -/
theorem frameHeader_encode (r : Request) (more : List UInt8) :
    frameHeader (r.encode ++ more) = r.wireHeader := by
  refine Request.header_of_starts ?_
  rw [Request.encode, List.append_assoc]
  exact starts_overwrite_append _ _ _

theorem frameLength_encode (r : Request) (more : List UInt8) :
    frameLength (r.encode ++ more) = r.type.size := by
  rw [frameLength, frameHeader_encode, Request.length_wireHeader]

theorem frameType_encode (r : Request) (more : List UInt8) :
    frameType (r.encode ++ more) = some r.type := by
  rw [frameType, frameHeader_encode]
  exact RequestType.ofByte_byte r.type

theorem handed_encode {r : Request} (hr : r.WellFormed) (more : List UInt8) :
    Handed (r.encode ++ more) := by
  have hlength := Request.length_encode hr
  refine ⟨?_, ?_, ?_, ?_, ?_⟩
  · rw [List.length_append]
    exact Nat.le_add_right_of_le (Request.headerSize_le_encode hr)
  · rw [frameHeader_encode]
    rfl
  · rw [frameLength_encode]
    exact r.type.size_le
  · rw [frameLength_encode, List.length_append, hlength]
    exact Nat.le_add_right _ _
  · rw [frameType_encode]
    rfl

/-- **A complete request** is handed over. -/
theorem round_of_encode {w : ParseWalk} {r : Request} (hr : r.WellFormed) {more : List UInt8}
    (hrunning : w.status = .running) (hbuffer : w.parser.buffer c.sockFd = r.encode ++ more) :
    (w.round c).status = .running ∧ (w.round c).parser.buffer c.sockFd = more ∧
      (w.round c).parser.requestsOn c.sockFd = w.parser.requestsOn c.sockFd ++ [r] ∧
      (w.round c).parser.errors = w.parser.errors := by
  have hhanded := handed_encode hr more
  have ht := frameType_encode r more
  rw [← hbuffer] at hhanded ht
  obtain ⟨t, ht', hround⟩ := ParseWalk.round_of_handed hrunning hhanded
  obtain rfl : t = r.type := Option.some.inj (ht'.symm.trans ht)
  have hrequest : (w.parser.handedCall c r.type).request = r := by
    rw [handedCall, hbuffer]
    exact Request.read_encode hr (starts_overwrite_append _ _ _)
  rw [hround]
  refine ⟨rfl, ?_, ?_, rfl⟩
  · rw [buffer_hand, hbuffer, frameLength_encode, ← Request.length_encode hr, List.drop_left]
  · rw [requestsOn, callsOn_hand, List.map_append, List.map_singleton, hrequest, requestsOn]

/-- **A part of a request** stays in the buffer. -/
theorem round_of_part {w : ParseWalk} {rest : List Request} (hrest : ∀ r ∈ rest, r.WellFormed)
    (hrunning : w.status = .running) (hpart : PartOf (w.parser.buffer c.sockFd) rest) :
    w.round c = { w with status := .returned } := by
  refine ParseWalk.round_of_incomplete hrunning fun hheader => ?_
  rcases hpart with hnil | ⟨r, hr, ⟨more, hmore⟩, hless⟩
  · rw [hnil] at hheader
    exact absurd hheader (by decide)
  · have hframe : frameHeader (w.parser.buffer c.sockFd) = r.wireHeader := by
      rw [← frameHeader_append hheader more, hmore, ← List.append_nil r.encode, frameHeader_encode]
    have hwf := hrest r (List.mem_of_mem_head? hr)
    rw [Request.length_encode hwf] at hless
    rw [frameLength, hframe, Request.length_wireHeader]
    exact ⟨rfl, r.type.size_le, hless⟩

/-- What is left of the bytes of some requests is part of the first, or begins with it. -/
theorem partOf_or_prefix {bs : List UInt8} {rest : List Request}
    (h : bs <+: rest.flatMap Request.encode) :
    PartOf bs rest ∨ ∃ r rest' more, rest = r :: rest' ∧ bs = r.encode ++ more ∧
      more <+: rest'.flatMap Request.encode := by
  cases rest with
  | nil => exact .inl (.inl (List.prefix_nil.mp h))
  | cons r rest =>
    rw [List.flatMap_cons] at h
    by_cases hless : bs.length < r.encode.length
    · refine .inl (.inr ⟨r, rfl, ?_, hless⟩)
      exact List.prefix_of_prefix_length_le h (List.prefix_append _ _) (Nat.le_of_lt hless)
    · obtain ⟨more, rfl⟩ :=
        List.prefix_of_prefix_length_le (List.prefix_append _ _) h (Nat.not_lt.mp hless)
      exact .inr ⟨r, rest, more, rfl, rfl, (List.prefix_append_right_inj _).mp h⟩

/-- **One call of `parse`** takes the requests that are complete, and keeps the part of the next one. -/
theorem walk_framed {rest : List Request} (hrest : ∀ r ∈ rest, r.WellFormed) {n : ℕ}
    (hrunning : (p.walk c n).status = .running)
    (hbuffer : (p.walk c n).parser.buffer c.sockFd <+: rest.flatMap Request.encode) :
    ∃ m done rest', rest = done ++ rest' ∧ (p.walk c m).status = .returned ∧
      (p.walk c m).parser.requestsOn c.sockFd = (p.walk c n).parser.requestsOn c.sockFd ++ done ∧
      (p.walk c n).parser.buffer c.sockFd =
        done.flatMap Request.encode ++ (p.walk c m).parser.buffer c.sockFd ∧
      PartOf ((p.walk c m).parser.buffer c.sockFd) rest' ∧
      (p.walk c m).parser.errors = (p.walk c n).parser.errors := by
  induction rest generalizing n with
  | nil =>
    have hpart : PartOf ((p.walk c n).parser.buffer c.sockFd) [] := .inl (List.prefix_nil.mp hbuffer)
    have hround := round_of_part hrest hrunning hpart
    rw [← walk_succ] at hround
    refine ⟨n + 1, [], [], rfl, ?_⟩
    rw [hround]
    exact ⟨rfl, (List.append_nil _).symm, rfl, hpart, rfl⟩
  | cons r rest ih =>
    rcases partOf_or_prefix hbuffer with hpart | ⟨r', rest', more, hcons, hmore, hprefix⟩
    · -- the next request is not complete yet
      have hround := round_of_part hrest hrunning hpart
      rw [← walk_succ] at hround
      refine ⟨n + 1, [], r :: rest, rfl, ?_⟩
      rw [hround]
      exact ⟨rfl, (List.append_nil _).symm, rfl, hpart, rfl⟩
    · -- it is, and the loop goes on behind it
      obtain ⟨rfl, rfl⟩ := List.cons.inj hcons
      obtain ⟨hr, hrest⟩ := List.forall_mem_cons.mp hrest
      obtain ⟨hstatus, hleft, hrequests, herrors⟩ := round_of_encode hr hrunning hmore
      rw [← walk_succ] at hstatus hleft hrequests herrors
      rw [← hleft] at hprefix
      obtain ⟨m, done, rest', hsplit, hreturned, hdone, hbytes, hpart, hquiet⟩ :=
        ih hrest hstatus hprefix
      refine ⟨m, r :: done, rest', by rw [hsplit, List.cons_append], hreturned, ?_, ?_, hpart,
        hquiet.trans herrors⟩
      · rw [hdone, hrequests, List.append_assoc, List.singleton_append]
      · rw [hmore, ← hleft, hbytes, List.flatMap_cons, List.append_assoc]

/-- What the handler got of the requests that a client sends, and what is left in the buffer. -/
structure Framed (fd : Int32) (sent : List Request) (received : List UInt8) (p₀ p : StreamParser)
    (done rest : List Request) : Prop where
  sent : sent = done ++ rest
  handed : p.requestsOn fd = p₀.requestsOn fd ++ done
  received : received = done.flatMap Request.encode ++ p.buffer fd
  buffered : PartOf (p.buffer fd) rest
  quiet : p.errorsOn fd = p₀.errorsOn fd

theorem receivedOn_snoc (fd : Int32) (cs : List Chunk) (c : Chunk) :
    receivedOn fd (cs ++ [c]) = receivedOn fd cs ++ if c.sockFd = fd then c.buf else [] := by
  rw [receivedOn, List.filter_append, List.flatMap_append, List.filter_singleton, receivedOn]
  split_ifs with h <;> simp [h]

/-- More bytes of well-formed requests make `parse` return. -/
theorem Framed.returns {fd : Int32} {sent done rest : List Request} {received : List UInt8}
    {p₀ : StreamParser} (h : Framed fd sent received p₀ p done rest)
    (hwf : ∀ r ∈ sent, r.WellFormed) (hc : c.sockFd = fd) (hthrottled : ¬ p.Throttled c)
    (hbytes : received ++ c.buf <+: sent.flatMap Request.encode) :
    ∃ m done' rest', (p.walk c m).status = .returned ∧
      Framed fd sent (received ++ c.buf) p₀ (p.parse m c) done' rest' := by
  obtain ⟨hstatus, hcalls, herrors, hbuffer⟩ := enter_of_not_throttled hthrottled
  -- what is done cancels on both sides
  have hprefix : (p.walk c 0).parser.buffer c.sockFd <+: rest.flatMap Request.encode := by
    have hstart : (p.walk c 0).parser.buffer c.sockFd = p.buffer c.sockFd ++ c.buf := hbuffer
    rw [hstart, hc]
    rw [h.received, h.sent, List.flatMap_append, List.append_assoc] at hbytes
    exact (List.prefix_append_right_inj _).mp hbytes
  have hrest : ∀ r ∈ rest, r.WellFormed := fun r hr =>
    hwf r (by rw [h.sent]; exact List.mem_append_right _ hr)
  obtain ⟨m, more, rest', hsplit, hreturned, hdone, hleft, hpart, hquiet⟩ :=
    @walk_framed p c rest hrest 0 hstatus hprefix
  rw [hc] at hdone hleft hpart
  have hbegin : (p.walk c 0).parser.buffer fd = p.buffer fd ++ c.buf := by
    rw [← hc]
    exact hbuffer
  have hbefore : (p.walk c 0).parser.requestsOn fd = p.requestsOn fd := by
    rw [requestsOn, callsOn, show (p.walk c 0).parser.calls = p.calls from hcalls, requestsOn, callsOn]
  refine ⟨m, done ++ more, rest', hreturned, ?_, ?_, ?_, hpart, ?_⟩
  · rw [h.sent, hsplit, List.append_assoc]
  · rw [parse, hdone, hbefore, h.handed, List.append_assoc]
  · rw [h.received, List.append_assoc, ← hbegin, hleft, List.flatMap_append, List.append_assoc, parse]
  · rw [← h.quiet, errorsOn, parse, hquiet, show (p.walk c 0).parser.errors = p.errors from herrors,
      errorsOn]

/-- **Framing.** However the bytes of well-formed requests on a socket are cut into calls of `parse`, and
whatever the other sockets send between them: the handler got the requests that arrived completely, once
each and in order, the buffer holds the part of the next one that arrived, no error was sent, and `parse`
returns for the bytes that come next. -/
theorem framing {p₀ p : StreamParser} {fd : Int32} {sent : List Request} {cs : List Chunk}
    (hempty : p₀.buffer fd = []) (hwf : ∀ r ∈ sent, r.WellFormed)
    (hrun : Run (Guarded (Admits fd) Step) p₀ cs p)
    (hbytes : receivedOn fd cs <+: sent.flatMap Request.encode) :
    (∃ done rest, Framed fd sent (receivedOn fd cs) p₀ p done rest) ∧
      ∀ c, c.sockFd = fd → ¬ p.Throttled c →
        receivedOn fd (cs ++ [c]) <+: sent.flatMap Request.encode → ∃ p', p.Step c p' := by
  have hframed : ∃ done rest, Framed fd sent (receivedOn fd cs) p₀ p done rest := by
    induction hrun with
    | nil =>
      refine ⟨[], sent, rfl, (List.append_nil _).symm, ?_, .inl hempty, rfl⟩
      rw [hempty]
      rfl
    | @snoc p p' cs c run step ih =>
      rw [receivedOn_snoc] at hbytes ⊢
      obtain ⟨done, rest, h⟩ := ih ((List.prefix_append _ _).trans hbytes)
      by_cases hc : c.sockFd = fd
      · rw [if_pos hc] at hbytes ⊢
        obtain ⟨m, done', rest', hreturned, h'⟩ := h.returns hwf hc (step.1 hc) hbytes
        have hstep : p.Step c (p.parse m c) := ⟨m, by rw [hreturned]; decide, rfl⟩
        rw [step.2.unique hstep]
        exact ⟨done', rest', h'⟩
      · -- the bytes are another socket's
        obtain ⟨n, -, rfl⟩ := step.2
        have hsame := same_walk (Ne.symm hc) p n
        rw [if_neg hc, List.append_nil]
        refine ⟨done, rest, h.sent, ?_, ?_, ?_, ?_⟩
        · rw [requestsOn, parse, hsame.callsOn]
          exact h.handed
        · rw [parse, hsame.buffer]
          exact h.received
        · rw [parse, hsame.buffer]
          exact h.buffered
        · rw [parse, hsame.errorsOn]
          exact h.quiet
  refine ⟨hframed, fun c hc hthrottled hnext => ?_⟩
  obtain ⟨done, rest, h⟩ := hframed
  rw [receivedOn_snoc, if_pos hc] at hnext
  obtain ⟨m, _, _, hreturned, -⟩ := h.returns hwf hc hthrottled hnext
  exact ⟨_, m, by rw [hreturned]; decide, rfl⟩

/-- A new order and its deletion. -/
def orderAndDeletion : List Request :=
  [.newOrder ⟨⟨1, 7, 9⟩, 1, 3, Side.buy, 10, -100, 0⟩, .deleteOrder ⟨⟨2, 7, 9⟩, 1⟩]

/-- The new order in two pieces, the second with the beginning of the deletion, and a login on another
socket between them. -/
def interleaved : List Chunk :=
  let bytes := orderAndDeletion.flatMap Request.encode
  let login := Request.login ⟨⟨0, 8, 0⟩, List.replicate 16 65, List.replicate 16 66⟩
  [⟨5, 0, bytes.take 13, fun _ => 0⟩, ⟨6, 1, login.encode, fun _ => 0⟩,
    ⟨5, 2, (bytes.drop 13).take 40, fun _ => 0⟩]

theorem framing_interleaved :
    (∃ done rest, Framed 5 orderAndDeletion (receivedOn 5 interleaved) start
      (interleaved.foldl (parse 3) start) done rest) ∧
      ∀ c, c.sockFd = 5 → ¬ (interleaved.foldl (parse 3) start).Throttled c →
        receivedOn 5 (interleaved ++ [c]) <+: orderAndDeletion.flatMap Request.encode →
          ∃ p', (interleaved.foldl (parse 3) start).Step c p' := by
  have hrun := @Run.of_foldl _ _ (parse 3)
    (fun p c => Admits 5 p c ∧ (p.walk c 3).status ≠ .running) start interleaved (by decide +kernel)
  refine framing rfl (by decide) (hrun.mono ?_) (by decide +kernel)
  rintro p c _ ⟨⟨hadmits, hstopped⟩, rfl⟩
  exact ⟨hadmits, 3, hstopped, rfl⟩

end StreamParser

end Ndfex
