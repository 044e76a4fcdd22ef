import Mathlib.Data.List.AList
import Mathlib.Logic.Function.Iterate
import Mathlib.Tactic.SplitIfs
import Ndfex.Protocol.OeWire
import Ndfex.Transition.Run

/-!
# The stream parser

`StreamParser` makes requests out of the bytes that a socket delivers. What is left of a message stays
in a buffer of its socket until more bytes come. The loop of `parse` takes one message after the other
from the beginning of the buffer: the header's length says where the next one begins, its message type
which struct the handler gets.

## Main definitions

* `StreamParser`, `HandlerCall`, `SentError`: the parser, what it calls and what it sends
* `Chunk`: a call of `parse`
* `StreamParser.enter`, `ParseWalk.body`: what `parse` does before its loop, and the body of the loop
* `StreamParser.walk`, `StreamParser.parse`: `parse`, as far as some rounds of the loop take it
* `Handed`, `Passes`: what the loop takes from the beginning of some bytes

## Main results

* `ParseWalk.round_of_handed`, `ParseWalk.round_of_not_handed`: what one round does
-/

namespace Ndfex

open Wire

/-- `MAX_MSGS_PER_SECOND`. -/
def maxMsgsPerSecond : ℕ := 1000

/-- A call of the handler: the header and the struct that it reads, and how many bytes the buffer has
from the beginning of the struct on. -/
structure HandlerCall where
  sockFd : Int32
  header : OeRequestHeader
  request : Request
  received : ℕ
deriving DecidableEq

/-- What `send_error_msg` sends before it closes the socket. -/
structure SentError where
  sockFd : Int32
  seqNum : UInt32
  clientId : UInt32
  body : ResponseBody
deriving DecidableEq

/-- A call of `parse`: the socket, the clock, and the bytes; `beyond` is what memory holds where the
buffer of the socket ends. -/
structure Chunk where
  sockFd : Int32
  now : UInt64
  buf : List UInt8
  beyond : ℕ → UInt8

/-- `StreamParser`, with what it called and sent. -/
structure StreamParser where
  partialMessages : AList fun _ : Int32 => List UInt8
  msgTimestamps : AList fun _ : Int32 => List UInt64
  calls : List HandlerCall
  errors : List SentError

/-- The header that some bytes begin with. -/
def frameHeader (bs : List UInt8) : OeRequestHeader := .read (overwrite (fun _ => 0) bs)

/-- The length of the message that some bytes begin with, as its header says. -/
def frameLength (bs : List UInt8) : ℕ := (frameHeader bs).length.toNat

/-- The type of the message that some bytes begin with, as its header says. -/
def frameType (bs : List UInt8) : Option RequestType := RequestType.ofByte (frameHeader bs).msgType

namespace StreamParser

/-- The parser at the server's start. -/
def start : StreamParser := ⟨∅, ∅, [], []⟩

/-- `sock_to_partial_messages[sock_fd]`. -/
def buffer (p : StreamParser) (sockFd : Int32) : List UInt8 :=
  (p.partialMessages.lookup sockFd).getD []

/-- `sock_to_msg_timestamps[sock_fd]`. -/
def timestamps (p : StreamParser) (sockFd : Int32) : List UInt64 :=
  (p.msgTimestamps.lookup sockFd).getD []

/-- The buffer of a socket is replaced. -/
def setBuffer (p : StreamParser) (sockFd : Int32) (bs : List UInt8) : StreamParser :=
  { p with partialMessages := p.partialMessages.insert sockFd bs }

/-- The timestamps of a socket are replaced. -/
def setTimestamps (p : StreamParser) (sockFd : Int32) (times : List UInt64) : StreamParser :=
  { p with msgTimestamps := p.msgTimestamps.insert sockFd times }

/-- `StreamParser::new_socket`. -/
def newSocket (p : StreamParser) (sockFd : Int32) : StreamParser :=
  (p.setBuffer sockFd []).setTimestamps sockFd []

/-- `StreamParser::socket_closed`, apart from what it tells the handler. -/
def socketClosed (p : StreamParser) (sockFd : Int32) : StreamParser :=
  { p with partialMessages := p.partialMessages.erase sockFd }

/-- `StreamParser::send_error_msg`, apart from the closing of the socket. -/
def sendErrorMsg (p : StreamParser) (sockFd : Int32) (seqNum clientId : UInt32) (message : String) :
    StreamParser :=
  let error : SentError := ⟨sockFd, seqNum, clientId, .error RejectReason.invalidOrder.byte message⟩
  { p with errors := p.errors ++ [error] }

/-- A message is handed to the handler, with its time, and removed from the buffer. -/
def hand (p : StreamParser) (c : Chunk) (t : RequestType) : StreamParser :=
  let partialMessage := p.buffer c.sockFd
  let header := frameHeader partialMessage
  let request := Request.read (overwrite c.beyond partialMessage) t
  let call : HandlerCall := ⟨c.sockFd, header, request, partialMessage.length⟩
  let p := { p with calls := p.calls ++ [call] }
  let p := p.setTimestamps c.sockFd (p.timestamps c.sockFd ++ [c.now])
  p.setBuffer c.sockFd (partialMessage.drop header.length.toNat)

/-- The timestamps of a socket from the last second. -/
def recent (p : StreamParser) (c : Chunk) : List UInt64 :=
  (p.timestamps c.sockFd).dropWhile fun t => 1000000000 < (c.now - t).toNat

/-- The socket sent too many messages in the last second. -/
def Throttled (p : StreamParser) (c : Chunk) : Prop := maxMsgsPerSecond < (p.recent c).length

instance (p : StreamParser) : DecidablePred p.Throttled := fun c =>
  inferInstanceAs (Decidable (maxMsgsPerSecond < (p.recent c).length))

end StreamParser

/-- What `parse` is doing: its loop goes on, it returned, or it returned and closed the socket. -/
inductive ParseStatus
  | running
  | returned
  | closed
deriving DecidableEq

/-- Where `parse` stands. -/
structure ParseWalk where
  parser : StreamParser
  status : ParseStatus

namespace ParseWalk

/-- An error is sent for the message at the beginning of the buffer, and the socket closed. -/
def reject (w : ParseWalk) (sockFd : Int32) (header : OeRequestHeader) (message : String) : ParseWalk :=
  ⟨w.parser.sendErrorMsg sockFd header.seqNum header.clientId message, .closed⟩

/-- The loop of `parse`: its condition and its body. -/
def body (c : Chunk) (w : ParseWalk) : ParseWalk :=
  let partialMessage := w.parser.buffer c.sockFd
  if partialMessage.length < oeRequestHeaderSize then { w with status := .returned }
  else
    let header := frameHeader partialMessage
    if header.version ≠ oeProtocolVersion then w.reject c.sockFd header "Unknown protocol version"
    else if maxOeMessageSize < header.length.toNat then w.reject c.sockFd header "Message too large"
    else if partialMessage.length < header.length.toNat then { w with status := .returned }
    else
      match RequestType.ofByte header.msgType with
      | none => w.reject c.sockFd header "Unknown message type"
      | some t => ⟨w.parser.hand c t, .running⟩

/-- A round of the loop, unless `parse` returned. -/
def round (c : Chunk) (w : ParseWalk) : ParseWalk := if w.status = .running then w.body c else w

end ParseWalk

namespace StreamParser

/-- `StreamParser::parse` before its loop. -/
def enter (p : StreamParser) (c : Chunk) : ParseWalk :=
  let timestamps := p.recent c
  let p := p.setTimestamps c.sockFd timestamps
  if maxMsgsPerSecond < timestamps.length then
    ⟨p.sendErrorMsg c.sockFd 0 0 "Too many messages per second", .closed⟩
  else ⟨p.setBuffer c.sockFd (p.buffer c.sockFd ++ c.buf), .running⟩

/-- `StreamParser::parse` after some rounds of its loop. -/
def walk (p : StreamParser) (c : Chunk) (rounds : ℕ) : ParseWalk :=
  (ParseWalk.round c)^[rounds] (p.enter c)

/-- The parser after some rounds of `parse`. -/
def parse (rounds : ℕ) (p : StreamParser) (c : Chunk) : StreamParser := (p.walk c rounds).parser

/-- `parse` returns. -/
def Step (p : StreamParser) (c : Chunk) (p' : StreamParser) : Prop :=
  ∃ rounds, (p.walk c rounds).status ≠ .running ∧ p' = p.parse rounds c

/-- What the handler was called for on a socket. -/
def callsOn (p : StreamParser) (sockFd : Int32) : List HandlerCall :=
  p.calls.filter fun call => call.sockFd = sockFd

/-- The errors that were sent on a socket. -/
def errorsOn (p : StreamParser) (sockFd : Int32) : List SentError :=
  p.errors.filter fun error => error.sockFd = sockFd

/-! ### Buffers -/

variable {p : StreamParser} {sockFd sockFd' : Int32}

@[simp] theorem buffer_setBuffer (p : StreamParser) (sockFd : Int32) (bs : List UInt8) :
    (p.setBuffer sockFd bs).buffer sockFd = bs := by
  rw [buffer, setBuffer, AList.lookup_insert, Option.getD_some]

theorem buffer_setBuffer_ne (h : sockFd' ≠ sockFd) (bs : List UInt8) :
    (p.setBuffer sockFd bs).buffer sockFd' = p.buffer sockFd' := by
  rw [buffer, setBuffer, AList.lookup_insert_ne h, buffer]

@[simp] theorem timestamps_setTimestamps (p : StreamParser) (sockFd : Int32) (times : List UInt64) :
    (p.setTimestamps sockFd times).timestamps sockFd = times := by
  rw [timestamps, setTimestamps, AList.lookup_insert, Option.getD_some]

@[simp] theorem buffer_newSocket (p : StreamParser) (sockFd : Int32) :
    (p.newSocket sockFd).buffer sockFd = [] :=
  buffer_setBuffer p sockFd []

@[simp] theorem timestamps_newSocket (p : StreamParser) (sockFd : Int32) :
    (p.newSocket sockFd).timestamps sockFd = [] :=
  timestamps_setTimestamps _ sockFd []

/-- The call by which a message is handed over. -/
def handedCall (p : StreamParser) (c : Chunk) (t : RequestType) : HandlerCall :=
  ⟨c.sockFd, frameHeader (p.buffer c.sockFd), Request.read (overwrite c.beyond (p.buffer c.sockFd)) t,
    (p.buffer c.sockFd).length⟩

theorem calls_hand (p : StreamParser) (c : Chunk) (t : RequestType) :
    (p.hand c t).calls = p.calls ++ [p.handedCall c t] := rfl

theorem buffer_hand (p : StreamParser) (c : Chunk) (t : RequestType) :
    (p.hand c t).buffer c.sockFd =
      (p.buffer c.sockFd).drop (frameLength (p.buffer c.sockFd)) :=
  buffer_setBuffer ..

theorem buffer_hand_ne {c : Chunk} (h : sockFd ≠ c.sockFd) (t : RequestType) :
    (p.hand c t).buffer sockFd = p.buffer sockFd := by
  rw [hand, buffer_setBuffer_ne h]
  rfl

theorem callsOn_hand_ne {c : Chunk} (h : sockFd ≠ c.sockFd) (t : RequestType) :
    (p.hand c t).callsOn sockFd = p.callsOn sockFd := by
  rw [callsOn, calls_hand, List.filter_append, List.filter_singleton]
  simp [handedCall, callsOn, h.symm]

theorem callsOn_hand (p : StreamParser) (c : Chunk) (t : RequestType) :
    (p.hand c t).callsOn c.sockFd = p.callsOn c.sockFd ++ [p.handedCall c t] := by
  rw [callsOn, calls_hand, List.filter_append, List.filter_singleton]
  simp [handedCall, callsOn]

theorem errorsOn_sendErrorMsg_ne (h : sockFd' ≠ sockFd) (seqNum clientId : UInt32) (message : String) :
    (p.sendErrorMsg sockFd seqNum clientId message).errorsOn sockFd' = p.errorsOn sockFd' := by
  rw [errorsOn, sendErrorMsg, List.filter_append, List.filter_singleton]
  simp [errorsOn, h.symm]

/-- What a parser has of one socket. -/
structure Same (fd : Int32) (p p' : StreamParser) : Prop where
  buffer : p'.buffer fd = p.buffer fd
  callsOn : p'.callsOn fd = p.callsOn fd
  errorsOn : p'.errorsOn fd = p.errorsOn fd

namespace Same

variable {p' p'' : StreamParser}

theorem rfl : Same sockFd p p := ⟨.refl _, .refl _, .refl _⟩

theorem trans (h : Same sockFd p p') (h' : Same sockFd p' p'') : Same sockFd p p'' :=
  ⟨h'.1.trans h.1, h'.2.trans h.2, h'.3.trans h.3⟩

theorem sendErrorMsg (h : sockFd' ≠ sockFd) (seqNum clientId : UInt32) (message : String) :
    Same sockFd' p (p.sendErrorMsg sockFd seqNum clientId message) :=
  ⟨.refl _, .refl _, errorsOn_sendErrorMsg_ne h seqNum clientId message⟩

theorem enter {c : Chunk} (h : sockFd ≠ c.sockFd) : Same sockFd p (p.enter c).parser := by
  unfold StreamParser.enter
  dsimp only
  split_ifs
  · exact ⟨.refl _, .refl _, errorsOn_sendErrorMsg_ne h 0 0 _⟩
  · exact ⟨buffer_setBuffer_ne h _, .refl _, .refl _⟩

end Same

end StreamParser

/-! ### What a frame is -/

/-- Some bytes begin with a message that the loop hands to the handler. -/
structure Handed (bs : List UInt8) : Prop where
  hasHeader : oeRequestHeaderSize ≤ bs.length
  version : (frameHeader bs).version = oeProtocolVersion
  bounded : frameLength bs ≤ maxOeMessageSize
  complete : frameLength bs ≤ bs.length
  known : (frameType bs).isSome

/-- The header is in the first bytes, whatever follows them. -/
theorem frameHeader_append {bs : List UInt8} (h : oeRequestHeaderSize ≤ bs.length) (more : List UInt8) :
    frameHeader (bs ++ more) = frameHeader bs := by
  unfold frameHeader OeRequestHeader.read
  rw [unpack_congr]
  intro i hi
  rw [Nat.zero_add]
  exact overwrite_append_congr _ _ bs more (Nat.lt_of_lt_of_le hi h)

theorem frameLength_append {bs : List UInt8} (h : oeRequestHeaderSize ≤ bs.length)
    (more : List UInt8) : frameLength (bs ++ more) = frameLength bs := by
  rw [frameLength, frameHeader_append h, frameLength]

theorem frameType_append {bs : List UInt8} (h : oeRequestHeaderSize ≤ bs.length) (more : List UInt8) :
    frameType (bs ++ more) = frameType bs := by
  rw [frameType, frameHeader_append h, frameType]

theorem Handed.append {bs : List UInt8} (h : Handed bs) (more : List UInt8) : Handed (bs ++ more) := by
  have hheader := frameHeader_append h.hasHeader more
  have hlength : (bs ++ more).length = bs.length + more.length := List.length_append
  refine ⟨?_, ?_, ?_, ?_, ?_⟩
  · have := h.hasHeader
    omega
  · rw [hheader]
    exact h.version
  · rw [frameLength_append h.hasHeader]
    exact h.bounded
  · rw [frameLength_append h.hasHeader, hlength]
    exact Nat.le_add_right_of_le h.complete
  · rw [frameType_append h.hasHeader]
    exact h.known

/-- The loop, at the beginning of some bytes, hands messages over until it comes to others. -/
inductive Passes : List UInt8 → List UInt8 → Prop
  | here (bs : List UInt8) : Passes bs bs
  | next {bs rest : List UInt8} (handed : Handed bs) (passes : Passes (bs.drop (frameLength bs)) rest) :
      Passes bs rest

namespace Passes

variable {bs bs' rest : List UInt8}

theorem trans (h : Passes bs bs') (h' : Passes bs' rest) : Passes bs rest := by
  induction h with
  | here => exact h'
  | next handed _ ih => exact .next handed (ih h')

/-- Bytes that come later do not change what the loop handed over. -/
theorem append (h : Passes bs rest) (more : List UInt8) : Passes (bs ++ more) (rest ++ more) := by
  induction h with
  | here => exact .here _
  | next handed _ ih =>
    refine .next (handed.append more) ?_
    rwa [frameLength_append handed.hasHeader, List.drop_append_of_le_length handed.complete]

end Passes

/-! ### One round -/

namespace ParseWalk

variable {c : Chunk} {w : ParseWalk}

theorem round_of_stopped (h : w.status ≠ .running) : round c w = w := if_neg h

/-- **A message** is handed over, and what follows it is next. -/
theorem round_of_handed (h : w.status = .running) (hb : Handed (w.parser.buffer c.sockFd)) :
    ∃ t, frameType (w.parser.buffer c.sockFd) = some t ∧
      round c w = ⟨w.parser.hand c t, .running⟩ := by
  obtain ⟨t, ht⟩ := Option.isSome_iff_exists.mp hb.known
  refine ⟨t, ht, ?_⟩
  rw [frameType] at ht
  have hbounded := hb.bounded
  have hcomplete := hb.complete
  rw [frameLength] at hbounded hcomplete
  rw [round, if_pos h, body]
  dsimp only
  rw [if_neg (Nat.not_lt.mpr hb.hasHeader), if_neg (not_not.mpr hb.version),
    if_neg (Nat.not_lt.mpr hbounded), if_neg (Nat.not_lt.mpr hcomplete), ht]

/-- **Anything else** ends the loop, and the buffer stays as it is. -/
theorem round_of_not_handed (h : w.status = .running) (hb : ¬ Handed (w.parser.buffer c.sockFd)) :
    (round c w).status ≠ .running ∧ (round c w).parser.calls = w.parser.calls ∧
      (round c w).parser.buffer = w.parser.buffer := by
  rw [round, if_pos h, body]
  dsimp only
  split_ifs with hheader hversion hbounded hcomplete
  · exact ⟨by simp, rfl, rfl⟩
  · exact ⟨by simp [reject], rfl, rfl⟩
  · exact ⟨by simp [reject], rfl, rfl⟩
  · exact ⟨by simp, rfl, rfl⟩
  · split
    · exact ⟨by simp [reject], rfl, rfl⟩
    · rename_i t ht
      refine absurd ⟨Nat.not_lt.mp hheader, not_not.mp hversion, Nat.not_lt.mp hbounded,
        Nat.not_lt.mp hcomplete, ?_⟩ hb
      rw [frameType, ht]
      rfl

/-- Another socket is as it was. -/
theorem same_round {fd : Int32} (h : fd ≠ c.sockFd) (w : ParseWalk) :
    StreamParser.Same fd w.parser (round c w).parser := by
  by_cases hrunning : w.status = .running
  · rw [round, if_pos hrunning, body]
    dsimp only
    split_ifs
    · exact .rfl
    · exact .sendErrorMsg h ..
    · exact .sendErrorMsg h ..
    · exact .rfl
    · split
      · exact .sendErrorMsg h ..
      · exact ⟨StreamParser.buffer_hand_ne h _, StreamParser.callsOn_hand_ne h _, rfl⟩
  · rw [round_of_stopped hrunning]
    exact .rfl

/-- A part of a message stays in the buffer. -/
theorem round_of_incomplete (h : w.status = .running)
    (hb : oeRequestHeaderSize ≤ (w.parser.buffer c.sockFd).length →
      (frameHeader (w.parser.buffer c.sockFd)).version = oeProtocolVersion ∧
        frameLength (w.parser.buffer c.sockFd) ≤ maxOeMessageSize ∧
        (w.parser.buffer c.sockFd).length < frameLength (w.parser.buffer c.sockFd)) :
    round c w = { w with status := .returned } := by
  rw [round, if_pos h, body]
  dsimp only
  split_ifs with hheader hversion hbounded hcomplete
  · rfl
  · exact absurd (hb (Nat.not_lt.mp hheader)).1 hversion
  · exact absurd hbounded (Nat.not_lt.mpr (hb (Nat.not_lt.mp hheader)).2.1)
  · rfl
  · exact absurd (hb (Nat.not_lt.mp hheader)).2.2 hcomplete

end ParseWalk

end Ndfex
