import Ndfex.Bots.OEClient
import Ndfex.Wire.Reassembly

/-!
# The loop over responses

`OEClient::process` takes responses off its buffer until the next one is not complete. It is a loop over
the messages in a stream: however the bytes of the responses are cut into reads, it takes the responses that
arrived completely, once each and in order, and returns. It must not meet a response at which it throws,
which would stay in the buffer.

## Main definitions

* `responseLoop`: the loop of `process`
* `Response.Readable`: a response that `process` takes

## Main results

* `lawful_responseLoop`: the loop takes a complete response, and returns at part of one
* `OEClient.process_takes`: a call of `process`, when more bytes arrive
-/

namespace Ndfex

open Bots

/-- The header fits the response, and `process` does not throw at it. -/
def Response.Readable (r : Response) : Prop := r.WellFormed ∧ ¬ ResponseThrows r.body.type

end Ndfex

namespace Ndfex.Bots

open Wire

/-- The client, but for its buffer. -/
def OEClient.unbuffered (c : OEClient) : OEClient := { c with buffer := [] }

/-- The loop of `process`. -/
def responseLoop : BufferLoop ReadWalk OEClient Response UInt8 where
  step := ReadWalk.round
  buffer w := w.client.buffer
  running w := w.status = .running
  ended w := w.status = .returned
  view w := w.client.unbuffered
  act c r := c.take r.body
  encode := Response.encode

namespace OEClient

variable {c : OEClient}

theorem openOrder_buffer (c : OEClient) (buffer : List UInt8) (orderId : UInt64) :
    ({ c with buffer } : OEClient).openOrder orderId =
      ((c.openOrder orderId).1, { (c.openOrder orderId).2 with buffer }) := by
  cases hknown : c.openOrders.lookup orderId.toUInt32 with
  | some order =>
    have hsame : ({ c with buffer } : OEClient).openOrders.lookup orderId.toUInt32 = some order := hknown
    rw [openOrder_of_lookup hknown, openOrder_of_lookup hsame]
  | none => simp only [openOrder, hknown]

/-- What a response does has nothing to do with the buffer. -/
theorem take_buffer (c : OEClient) (buffer : List UInt8) (body : ResponseBody) :
    ({ c with buffer } : OEClient).take body = { c.take body with buffer } := by
  cases body with
  | fill orderId quantity price flags =>
    simp only [take, onFill, openOrder_buffer]
    split_ifs <;> rfl
  | _ => rfl

theorem unbuffered_take (c : OEClient) (body : ResponseBody) :
    (c.take body).unbuffered = c.unbuffered.take body := (take_buffer c [] body).symm

theorem unbuffered_call (c : OEClient) (k : OeCall) :
    (c.call k).unbuffered = c.unbuffered.call k := by
  cases k <;> rfl

theorem request_unbuffered (c : OEClient) (k : OeCall) : c.unbuffered.request k = c.request k := by
  cases k <;> rfl

theorem written_take (c : OEClient) (body : ResponseBody) : (c.take body).written = c.written := by
  have horder : ∀ orderId, (c.openOrder orderId).2.written = c.written := by
    intro orderId
    unfold openOrder
    split <;> rfl
  cases body with
  | fill orderId quantity price flags =>
    simp only [take, onFill]
    split_ifs <;> exact horder orderId
  | _ => rfl

/-- A client that reads writes nothing. -/
theorem written_foldl_take (c : OEClient) (rs : List Response) :
    (rs.foldl (fun c r => c.take r.body) c).written = c.written := by
  induction rs generalizing c with
  | nil => rfl
  | cons r rs ih =>
    rw [List.foldl_cons, ih, written_take]

end OEClient

/-- **The loop of `process`** takes a complete response, and returns at part of one. -/
theorem lawful_responseLoop : responseLoop.Lawful Response.Readable where
  takes w r more hr hrunning hbuffer := by
    have hround : responseLoop.step w = ⟨{ w.client.take r.body with buffer := more }, .running⟩ :=
      ReadWalk.round_of_encode hr.1 hr.2 hrunning hbuffer
    rw [hround]
    exact ⟨rfl, rfl, w.client.unbuffered_take r.body⟩
  waits w rest hrest hrunning hpart := by
    have hround : responseLoop.step w = { w with status := .returned } := by
      rcases hpart with hnil | ⟨r, hr, hbegins, hless⟩
      · exact ReadWalk.round_of_nil hrunning hnil
      · obtain ⟨hwf, hquiet⟩ := hrest r (List.mem_of_mem_head? hr)
        exact ReadWalk.round_of_part hwf hquiet hrunning hbegins hless
    rw [hround]
    exact ⟨rfl, rfl, rfl⟩

namespace OEClient

variable {c : OEClient}

/-- **A call of `process`** when more bytes of some responses arrive: it returns, with the responses taken
that are complete, and the rest of the bytes in the buffer. -/
theorem process_takes {rs : List Response} (hrs : ∀ r ∈ rs, r.Readable) (bytes : List UInt8)
    (hbegins : c.buffer ++ bytes <+: rs.flatMap Response.encode) :
    ∃ rounds done rest, rs = done ++ rest ∧ (c.process (some bytes) rounds).status = .returned ∧
      (c.process (some bytes) rounds).client.unbuffered =
        done.foldl (fun c r => c.take r.body) c.unbuffered ∧
      c.buffer ++ bytes =
        done.flatMap Response.encode ++ (c.process (some bytes) rounds).client.buffer ∧
      responseLoop.PartOf (c.process (some bytes) rounds).client.buffer rest := by
  obtain ⟨rounds, done, rest, hreturned, hframed⟩ :=
    lawful_responseLoop.framed (w := c.receive bytes) hrs rfl hbegins
  exact ⟨rounds, done, rest, hframed.sent, hreturned, hframed.acted, hframed.received,
    hframed.buffered⟩

/-- `process` returns once. -/
theorem process_of_stopped {read : Option (List UInt8)} {n m : ℕ}
    (h : (c.process read n).status ≠ .running) (hle : n ≤ m) : c.process read m = c.process read n := by
  cases read with
  | none => rfl
  | some bytes =>
    induction hle with
    | refl => rfl
    | @step m _ ih =>
      have hnext : c.process (some bytes) (m + 1) = (c.process (some bytes) m).round :=
        Function.iterate_succ_apply' ..
      rw [hnext, ih, ReadWalk.round, if_neg h]

theorem process_unique {read : Option (List UInt8)} {n m : ℕ}
    (hn : (c.process read n).status ≠ .running) (hm : (c.process read m).status ≠ .running) :
    c.process read n = c.process read m := by
  rcases Nat.le_total n m with hle | hle
  · exact (process_of_stopped hn hle).symm
  · exact process_of_stopped hm hle

end OEClient

end Ndfex.Bots
