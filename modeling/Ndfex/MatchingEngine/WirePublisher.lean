import Ndfex.MatchingEngine.MarketDataPublisher
import Ndfex.Protocol.MdWire

/-!
# The bytes that the publisher sends

`MarketDataPublisher` as it is: a buffer of bytes and the datagrams that it sent. It does in bytes what
the publisher of messages does: the buffers of the two encode each other through every call, with
whatever the clock says.

## Main definitions

* `PublishCall`: the calls of the broker
* `WirePublisher`, `WirePublisher.after`: the publisher and its methods
* `published`: the messages of a list of calls

## Main results

* `WirePublisher.Refines.after`: the bytes are those of the messages
* `MarketDataPublisher.Framed.after`: the messages are numbered, and a datagram is no longer than the
  buffer
* `MarketDataPublisher.bodies_afterCalls`: what is published is what the calls say
-/

namespace Ndfex

/-- The calls of the publisher. The broker has signed prices, and passes them as unsigned ones. -/
inductive PublishCall
  | newOrder (orderId : UInt64) (symbol : UInt32) (side : Side) (quantity : UInt32) (price : Int32)
      (flags : UInt8)
  | deleteOrder (orderId : UInt64)
  | modifyOrder (orderId : UInt64) (side : Side) (quantity : UInt32) (price : Int32)
  | queueTrade (orderId : UInt64) (quantity : UInt32) (price : Int32)
  | publishQueuedTrades (symbol : UInt32) (aggressorSide : Side)
  | heartbeat

/-- `MarketDataPublisher`: the bytes in the buffer, the datagrams that went out, the next sequence
number, the queued trades, and how often `nanotime` was called. -/
structure WirePublisher where
  buffer : List UInt8
  datagrams : List (List UInt8)
  seqNum : UInt32
  queuedTrades : List QueuedTrade
  ticks : ℕ

namespace WirePublisher

/-- A publisher that published nothing. -/
def empty : WirePublisher := ⟨[], [], 0, [], 0⟩

/-- `MarketDataPublisher::send`. -/
def send (w : WirePublisher) : WirePublisher :=
  if w.buffer.length = 0 then w
  else { w with datagrams := w.datagrams ++ [w.buffer], buffer := [] }

variable (clock : ℕ → UInt64)

/-- `MarketDataPublisher::write_msg`. -/
def writeMsg (w : WirePublisher) (body : MdBody) : WirePublisher :=
  let w := if w.buffer.length + body.length > MarketDataPublisher.bufferCapacity then w.send else w
  { w with
    buffer := w.buffer ++ (⟨w.seqNum, body⟩ : MdMessage).encode (clock w.ticks)
    seqNum := w.seqNum + 1
    ticks := w.ticks + 1 }

/-- `MarketDataPublisher::publish_new_order`. -/
def publishNewOrder (w : WirePublisher) (orderId : UInt64) (symbol : UInt32) (side : Side)
    (quantity price : UInt32) (flags : UInt8) : WirePublisher :=
  (w.writeMsg clock (.newOrder orderId symbol side quantity price.toInt32 flags)).send

/-- `MarketDataPublisher::publish_delete_order`. -/
def publishDeleteOrder (w : WirePublisher) (orderId : UInt64) : WirePublisher :=
  (w.writeMsg clock (.deleteOrder orderId)).send

/-- `MarketDataPublisher::publish_modify_order`. -/
def publishModifyOrder (w : WirePublisher) (orderId : UInt64) (side : Side)
    (quantity price : UInt32) : WirePublisher :=
  (w.writeMsg clock (.modifyOrder orderId side quantity price.toInt32)).send

/-- `MarketDataPublisher::queue_trade`. -/
def queueTrade (w : WirePublisher) (orderId : UInt64) (quantity price : UInt32) : WirePublisher :=
  { w with queuedTrades := w.queuedTrades ++ [⟨orderId, quantity, price.toInt32⟩] }

/-- `MarketDataPublisher::publish_queued_trades`. -/
def publishQueuedTrades (w : WirePublisher) (symbol : UInt32) (aggressorSide : Side) :
    WirePublisher :=
  if w.queuedTrades = [] then w
  else
    let v := w.writeMsg clock (.tradeSummary symbol aggressorSide
      (MarketDataPublisher.totalQuantity w.queuedTrades)
      (MarketDataPublisher.lastPrice w.queuedTrades))
    let v := w.queuedTrades.foldl (fun v t => v.writeMsg clock t.body) v
    { v with queuedTrades := [] }.send

/-- `MarketDataPublisher::publish_hearbeat`. -/
def publishHeartbeat (w : WirePublisher) : WirePublisher := (w.writeMsg clock .heartbeat).send

/-- The publisher after a call. -/
def after (w : WirePublisher) : PublishCall → WirePublisher
  | .newOrder orderId symbol side quantity price flags =>
    w.publishNewOrder clock orderId symbol side quantity price.toUInt32 flags
  | .deleteOrder orderId => w.publishDeleteOrder clock orderId
  | .modifyOrder orderId side quantity price =>
    w.publishModifyOrder clock orderId side quantity price.toUInt32
  | .queueTrade orderId quantity price => w.queueTrade orderId quantity price.toUInt32
  | .publishQueuedTrades symbol aggressorSide => w.publishQueuedTrades clock symbol aggressorSide
  | .heartbeat => w.publishHeartbeat clock

end WirePublisher

/-! ## The messages -/

namespace MarketDataPublisher

/-- The publisher of messages after a call. -/
def after (p : MarketDataPublisher) : PublishCall → MarketDataPublisher
  | .newOrder orderId symbol side quantity price flags =>
    p.publishNewOrder orderId symbol side quantity price flags
  | .deleteOrder orderId => p.publishDeleteOrder orderId
  | .modifyOrder orderId side quantity price => p.publishModifyOrder orderId side quantity price
  | .queueTrade orderId quantity price => p.queueTrade orderId quantity price
  | .publishQueuedTrades symbol aggressorSide => p.publishQueuedTrades symbol aggressorSide
  | .heartbeat => p.publishHeartbeat

/-- The messages written so far, oldest first. -/
def messages (p : MarketDataPublisher) : List MdMessage := p.datagrams.flatten ++ p.buffer

/-- The messages are numbered from 0 on, and no datagram is empty or longer than the buffer. -/
structure Framed (p : MarketDataPublisher) : Prop where
  numbered : p.messages = numberedFrom 0 p.bodies
  seqNum : p.seqNum = UInt32.ofNat p.bodies.length
  nonempty : ∀ d ∈ p.datagrams, d ≠ []
  fits : ∀ d ∈ p.datagrams, (d.map fun m => m.body.length).sum ≤ bufferCapacity
  bufferSize_le : p.bufferSize ≤ bufferCapacity

theorem framed_empty : empty.Framed where
  numbered := rfl
  seqNum := rfl
  nonempty := fun _ hd => absurd hd List.not_mem_nil
  fits := fun _ hd => absurd hd List.not_mem_nil
  bufferSize_le := Nat.zero_le _

theorem messages_send (p : MarketDataPublisher) : p.send.messages = p.messages := by
  unfold send messages
  split_ifs <;> simp

theorem seqNum_send (p : MarketDataPublisher) : p.send.seqNum = p.seqNum := by
  unfold send
  split_ifs <;> rfl

namespace Framed

variable {p : MarketDataPublisher}

theorem send (h : p.Framed) : p.send.Framed := by
  refine ⟨?_, ?_, ?_, ?_, ?_⟩
  · rw [messages_send, bodies_send, h.numbered]
  · rw [seqNum_send, bodies_send, h.seqNum]
  · intro d hd
    unfold MarketDataPublisher.send at hd
    split_ifs at hd with hsize
    · exact h.nonempty d hd
    · rcases List.mem_append.mp hd with hd | hd
      · exact h.nonempty d hd
      · rintro rfl
        refine hsize ?_
        rw [bufferSize, ← List.mem_singleton.mp hd]
        rfl
  · intro d hd
    unfold MarketDataPublisher.send at hd
    split_ifs at hd with hsize
    · exact h.fits d hd
    · rcases List.mem_append.mp hd with hd | hd
      · exact h.fits d hd
      · rw [List.mem_singleton.mp hd]
        exact h.bufferSize_le
  · rw [bufferSize, buffer_send]
    exact Nat.zero_le _

/-- A message that the buffer has room for. -/
theorem push (h : p.Framed) {body : MdBody} (hroom : p.bufferSize + body.length ≤ bufferCapacity) :
    Framed { p with buffer := p.buffer ++ [⟨p.seqNum, body⟩], seqNum := p.seqNum + 1 } := by
  have hbodies : bodies { p with
      buffer := p.buffer ++ [⟨p.seqNum, body⟩], seqNum := p.seqNum + 1 } = p.bodies ++ [body] := by
    simp [bodies]
  refine ⟨?_, ?_, h.nonempty, h.fits, ?_⟩
  · rw [hbodies, numberedFrom_append, ← h.numbered, Nat.zero_add, numberedFrom, numberedFrom,
      ← h.seqNum]
    simp [messages]
  · rw [hbodies, List.length_append, h.seqNum]
    simp [UInt32.ofNat_add]
  · have hsize : bufferSize { p with
        buffer := p.buffer ++ [⟨p.seqNum, body⟩], seqNum := p.seqNum + 1 } =
          p.bufferSize + body.length := by
      simp [bufferSize]
    rw [hsize]
    exact hroom

theorem writeMsg (h : p.Framed) (body : MdBody) : (p.writeMsg body).Framed := by
  have hlength := body.length_le
  unfold MarketDataPublisher.writeMsg
  split_ifs with hroom
  · refine h.send.push ?_
    rw [bufferSize, buffer_send]
    simp only [List.map_nil, List.sum_nil, Nat.zero_add, bufferCapacity]
    omega
  · exact h.push (by omega)

theorem foldl_writeMsg (h : p.Framed) (ts : List QueuedTrade) :
    (ts.foldl (fun q t => q.writeMsg t.body) p).Framed := by
  induction ts generalizing p with
  | nil => exact h
  | cons t ts ih => exact ih (h.writeMsg t.body)

theorem publishQueuedTrades (h : p.Framed) (symbol : UInt32) (aggressorSide : Side) :
    (p.publishQueuedTrades symbol aggressorSide).Framed := by
  unfold MarketDataPublisher.publishQueuedTrades
  split_ifs with hts
  · exact h
  · have hwritten := ((h.writeMsg (.tradeSummary symbol aggressorSide (totalQuantity p.queuedTrades)
      (lastPrice p.queuedTrades))).foldl_writeMsg p.queuedTrades)
    refine Framed.send ?_
    exact ⟨hwritten.numbered, hwritten.seqNum, hwritten.nonempty, hwritten.fits,
      hwritten.bufferSize_le⟩

/-- **Every call keeps the messages numbered and the datagrams within the buffer.** -/
theorem after (h : p.Framed) (call : PublishCall) : (p.after call).Framed := by
  cases call with
  | newOrder | deleteOrder | modifyOrder | heartbeat => exact (h.writeMsg _).send
  | queueTrade => exact ⟨h.numbered, h.seqNum, h.nonempty, h.fits, h.bufferSize_le⟩
  | publishQueuedTrades symbol aggressorSide => exact h.publishQueuedTrades symbol aggressorSide

theorem foldl (h : p.Framed) (calls : List PublishCall) : (calls.foldl (·.after ·) p).Framed := by
  induction calls generalizing p with
  | nil => exact h
  | cons call calls ih => exact ih (h.after call)

end Framed

/-- The buffer is empty after a call, if it was before. -/
theorem buffer_after {p : MarketDataPublisher} (hp : p.buffer = []) (call : PublishCall) :
    (p.after call).buffer = [] := by
  cases call with
  | newOrder | deleteOrder | modifyOrder | heartbeat => exact buffer_send _
  | queueTrade => exact hp
  | publishQueuedTrades symbol aggressorSide =>
    exact (idle_publishQueuedTrades hp symbol aggressorSide).buffer

theorem buffer_foldl {p : MarketDataPublisher} (hp : p.buffer = []) (calls : List PublishCall) :
    (calls.foldl (·.after ·) p).buffer = [] := by
  induction calls generalizing p with
  | nil => exact hp
  | cons call calls ih => exact ih (buffer_after hp call)

end MarketDataPublisher

/-- The messages of a list of calls, with the trades that are queued already. -/
def published : List QueuedTrade → List PublishCall → List MdBody
  | _, [] => []
  | ts, .newOrder orderId symbol side quantity price flags :: calls =>
    .newOrder orderId symbol side quantity price flags :: published ts calls
  | ts, .deleteOrder orderId :: calls => .deleteOrder orderId :: published ts calls
  | ts, .modifyOrder orderId side quantity price :: calls =>
    .modifyOrder orderId side quantity price :: published ts calls
  | ts, .queueTrade orderId quantity price :: calls =>
    published (ts ++ [⟨orderId, quantity, price⟩]) calls
  | ts, .publishQueuedTrades symbol aggressorSide :: calls =>
    MarketDataPublisher.tradeBodies ts symbol aggressorSide ++ published [] calls
  | ts, .heartbeat :: calls => .heartbeat :: published ts calls

namespace MarketDataPublisher

/-- **What is published** is what the calls say. -/
theorem bodies_afterCalls (calls : List PublishCall) {p : MarketDataPublisher}
    (hp : p.buffer = []) :
    (calls.foldl (·.after ·) p).bodies = p.bodies ++ published p.queuedTrades calls := by
  induction calls generalizing p with
  | nil => rw [List.foldl_nil, published, List.append_nil]
  | cons call calls ih =>
    have hnext := ih (buffer_after hp call)
    rw [List.foldl_cons, hnext]
    cases call with
    | newOrder | deleteOrder | modifyOrder | heartbeat =>
      simp [after, publishNewOrder, publishDeleteOrder, publishModifyOrder, publishHeartbeat,
        published]
    | queueTrade => rfl
    | publishQueuedTrades symbol aggressorSide =>
      have hidle := idle_publishQueuedTrades hp symbol aggressorSide
      have hbodies := bodies_publishQueuedTrades p symbol aggressorSide
      simp only [after]
      rw [hidle.queuedTrades, hbodies, List.append_assoc]
      rfl

end MarketDataPublisher

/-! ## The bytes -/

namespace WirePublisher

/-- The bytes of a publisher are those of the messages of another. -/
structure Refines (w : WirePublisher) (p : MarketDataPublisher) : Prop where
  buffer : MdMessage.Encodes p.buffer w.buffer
  datagrams : List.Forall₂ MdMessage.Encodes p.datagrams w.datagrams
  seqNum : w.seqNum = p.seqNum
  queuedTrades : w.queuedTrades = p.queuedTrades

theorem refines_empty : empty.Refines MarketDataPublisher.empty := ⟨.nil, .nil, rfl, rfl⟩

namespace Refines

variable {w : WirePublisher} {p : MarketDataPublisher}

theorem length_buffer (h : w.Refines p) : w.buffer.length = p.bufferSize := MdMessage.Encodes.length h.buffer

theorem send (h : w.Refines p) : w.send.Refines p.send := by
  unfold WirePublisher.send MarketDataPublisher.send
  rw [h.length_buffer]
  split_ifs
  · exact h
  · exact ⟨.nil, List.rel_append h.datagrams (.cons h.buffer .nil), h.seqNum, h.queuedTrades⟩

variable (clock : ℕ → UInt64)

theorem writeMsg (h : w.Refines p) (body : MdBody) :
    (w.writeMsg clock body).Refines (p.writeMsg body) := by
  -- both send the buffer first, or neither
  have hpush : ∀ {w : WirePublisher} {p : MarketDataPublisher}, w.Refines p →
      Refines
        { w with
          buffer := w.buffer ++ (⟨w.seqNum, body⟩ : MdMessage).encode (clock w.ticks)
          seqNum := w.seqNum + 1
          ticks := w.ticks + 1 }
        { p with buffer := p.buffer ++ [⟨p.seqNum, body⟩], seqNum := p.seqNum + 1 } := by
    intro w p h
    refine ⟨?_, h.datagrams, congrArg (· + 1) h.seqNum, h.queuedTrades⟩
    rw [h.seqNum]
    exact h.buffer.snoc _ _
  unfold WirePublisher.writeMsg MarketDataPublisher.writeMsg
  rw [h.length_buffer]
  split_ifs
  · exact hpush h.send
  · exact hpush h

theorem foldl_writeMsg (h : w.Refines p) (ts : List QueuedTrade) :
    (ts.foldl (fun v t => v.writeMsg clock t.body) w).Refines
      (ts.foldl (fun q t => q.writeMsg t.body) p) := by
  induction ts generalizing w p with
  | nil => exact h
  | cons t ts ih => exact ih (h.writeMsg clock t.body)

theorem publishQueuedTrades (h : w.Refines p) (symbol : UInt32) (aggressorSide : Side) :
    (w.publishQueuedTrades clock symbol aggressorSide).Refines
      (p.publishQueuedTrades symbol aggressorSide) := by
  unfold WirePublisher.publishQueuedTrades MarketDataPublisher.publishQueuedTrades
  rw [h.queuedTrades]
  split_ifs
  · exact h
  · have hwritten := (h.writeMsg clock (.tradeSummary symbol aggressorSide
      (MarketDataPublisher.totalQuantity p.queuedTrades)
      (MarketDataPublisher.lastPrice p.queuedTrades))).foldl_writeMsg clock p.queuedTrades
    refine Refines.send ?_
    exact ⟨hwritten.buffer, hwritten.datagrams, hwritten.seqNum, rfl⟩

/-- **The bytes are those of the messages**, through every call. -/
theorem after (h : w.Refines p) (call : PublishCall) : (w.after clock call).Refines (p.after call) := by
  cases call with
  | newOrder orderId symbol side quantity price flags =>
    rw [WirePublisher.after, WirePublisher.publishNewOrder, Int32.toInt32_toUInt32]
    exact (h.writeMsg clock (.newOrder orderId symbol side quantity price flags)).send
  | deleteOrder orderId => exact (h.writeMsg clock (.deleteOrder orderId)).send
  | modifyOrder orderId side quantity price =>
    rw [WirePublisher.after, WirePublisher.publishModifyOrder, Int32.toInt32_toUInt32]
    exact (h.writeMsg clock (.modifyOrder orderId side quantity price)).send
  | queueTrade orderId quantity price =>
    refine ⟨h.buffer, h.datagrams, h.seqNum, ?_⟩
    simp [WirePublisher.after, WirePublisher.queueTrade, MarketDataPublisher.after,
      MarketDataPublisher.queueTrade, h.queuedTrades]
  | publishQueuedTrades symbol aggressorSide =>
    exact h.publishQueuedTrades clock symbol aggressorSide
  | heartbeat => exact (h.writeMsg clock .heartbeat).send

theorem foldl (h : w.Refines p) (calls : List PublishCall) :
    (calls.foldl (·.after clock ·) w).Refines (calls.foldl (·.after ·) p) := by
  induction calls generalizing w p with
  | nil => exact h
  | cons call calls ih => exact ih (h.after clock call)

end Refines

end WirePublisher

end Ndfex
