import Mathlib.Data.List.Basic
import Ndfex.Protocol.MarketData

/-!
# The market-data publisher

`MarketDataPublisher`, message by message: a send buffer of limited size, the datagrams that went
out, and the trades queued for the end of a request. A message that does not fit sends the buffer
first. Sending succeeds.

## Main definitions

* `QueuedTrade`, `MarketDataPublisher`: the publisher and the trades it queues
* `MarketDataPublisher.writeMsg`, `MarketDataPublisher.send`: the buffer
* `MarketDataPublisher.publishNewOrder`, …, `MarketDataPublisher.publishHeartbeat`: the public
  methods
* `MarketDataPublisher.bodies`: the messages written so far

## Main results

* `MarketDataPublisher.bodies_publishQueuedTrades`: the queued trades go out behind their summary
* `MarketDataPublisher.Idle`: the buffer is empty and no trade is queued
-/

namespace Ndfex

/-- An `md::trade` waiting in `queued_trades`. -/
structure QueuedTrade where
  orderId : UInt64
  quantity : UInt32
  price : Int32
deriving DecidableEq, Repr

/-- The message of a queued trade. -/
def QueuedTrade.body (t : QueuedTrade) : MdBody := .trade t.orderId t.quantity t.price

/-- `MarketDataPublisher`: the messages in the send buffer, the datagrams that `send` passed to the
socket, the next sequence number and the queued trades. -/
structure MarketDataPublisher where
  buffer : List MdMessage
  datagrams : List (List MdMessage)
  seqNum : UInt32
  queuedTrades : List QueuedTrade

namespace MarketDataPublisher

/-- A publisher that published nothing. -/
def empty : MarketDataPublisher := ⟨[], [], 0, []⟩

/-- `sizeof(buffer)`. -/
def bufferCapacity : ℕ := 1460

/-- `buffer_size`. -/
def bufferSize (p : MarketDataPublisher) : ℕ := (p.buffer.map fun m => m.body.length).sum

/-- `MarketDataPublisher::send`. -/
def send (p : MarketDataPublisher) : MarketDataPublisher :=
  if p.bufferSize = 0 then p
  else { p with datagrams := p.datagrams ++ [p.buffer], buffer := [] }

/-- `MarketDataPublisher::write_msg`. -/
def writeMsg (p : MarketDataPublisher) (body : MdBody) : MarketDataPublisher :=
  let p := if p.bufferSize + body.length > bufferCapacity then p.send else p
  { p with buffer := p.buffer ++ [⟨p.seqNum, body⟩], seqNum := p.seqNum + 1 }

/-- `MarketDataPublisher::publish_new_order`. -/
def publishNewOrder (p : MarketDataPublisher) (orderId : UInt64) (symbol : UInt32) (side : Side)
    (quantity : UInt32) (price : Int32) (flags : UInt8) : MarketDataPublisher :=
  (p.writeMsg (.newOrder orderId symbol side quantity price flags)).send

/-- `MarketDataPublisher::publish_delete_order`. -/
def publishDeleteOrder (p : MarketDataPublisher) (orderId : UInt64) : MarketDataPublisher :=
  (p.writeMsg (.deleteOrder orderId)).send

/-- `MarketDataPublisher::publish_modify_order`. -/
def publishModifyOrder (p : MarketDataPublisher) (orderId : UInt64) (side : Side)
    (quantity : UInt32) (price : Int32) : MarketDataPublisher :=
  (p.writeMsg (.modifyOrder orderId side quantity price)).send

/-- `MarketDataPublisher::queue_trade`. -/
def queueTrade (p : MarketDataPublisher) (orderId : UInt64) (quantity : UInt32) (price : Int32) :
    MarketDataPublisher :=
  { p with queuedTrades := p.queuedTrades ++ [⟨orderId, quantity, price⟩] }

/-- The sum of the quantities of trades, in the 32 bits of `total_quantity`. -/
def totalQuantity (ts : List QueuedTrade) : UInt32 :=
  ts.foldl (fun total t => total + t.quantity) 0

/-- The price of the last of the trades. -/
def lastPrice (ts : List QueuedTrade) : Int32 := ts.foldl (fun _ t => t.price) 0

/-- `MarketDataPublisher::publish_queued_trades`. -/
def publishQueuedTrades (p : MarketDataPublisher) (symbol : UInt32) (aggressorSide : Side) :
    MarketDataPublisher :=
  if p.queuedTrades = [] then p
  else
    let q := p.writeMsg (.tradeSummary symbol aggressorSide (totalQuantity p.queuedTrades)
      (lastPrice p.queuedTrades))
    let q := p.queuedTrades.foldl (fun q t => q.writeMsg t.body) q
    { q with queuedTrades := [] }.send

/-- `MarketDataPublisher::publish_hearbeat`. -/
def publishHeartbeat (p : MarketDataPublisher) : MarketDataPublisher := (p.writeMsg .heartbeat).send

/-! ## What went out -/

/-- The bodies of the messages written so far, oldest first. -/
def bodies (p : MarketDataPublisher) : List MdBody :=
  (p.datagrams.flatten ++ p.buffer).map MdMessage.body

/-- Between two requests: the buffer is empty and no trade is queued. -/
structure Idle (p : MarketDataPublisher) : Prop where
  buffer : p.buffer = []
  queuedTrades : p.queuedTrades = []

theorem idle_empty : empty.Idle := ⟨rfl, rfl⟩

/-- All messages of an idle publisher went out. -/
theorem Idle.bodies_eq {p : MarketDataPublisher} (h : p.Idle) :
    p.bodies = p.datagrams.flatten.map MdMessage.body := by
  rw [bodies, h.buffer, List.append_nil]

theorem length_pos (body : MdBody) : 0 < body.length := by
  cases body <;> simp [MdBody.length, mdHeaderSize]

@[simp] theorem bodies_send (p : MarketDataPublisher) : p.send.bodies = p.bodies := by
  unfold send bodies
  split_ifs <;> simp

@[simp] theorem queuedTrades_send (p : MarketDataPublisher) :
    p.send.queuedTrades = p.queuedTrades := by
  unfold send
  split_ifs <;> rfl

/-- Sending empties the buffer: a message has a size. -/
@[simp] theorem buffer_send (p : MarketDataPublisher) : p.send.buffer = [] := by
  unfold send
  split_ifs with hsize
  · cases hb : p.buffer with
    | nil => rfl
    | cons m ms =>
      have hpos := length_pos m.body
      rw [bufferSize, hb, List.map_cons, List.sum_cons] at hsize
      omega
  · rfl

@[simp] theorem bodies_writeMsg (p : MarketDataPublisher) (body : MdBody) :
    (p.writeMsg body).bodies = p.bodies ++ [body] := by
  have hsend : ∀ q : MarketDataPublisher,
      bodies { q with buffer := q.buffer ++ [⟨q.seqNum, body⟩], seqNum := q.seqNum + 1 } =
        q.bodies ++ [body] := by
    intro q
    simp [bodies]
  unfold writeMsg
  split_ifs
  · rw [hsend, bodies_send]
  · rw [hsend]

@[simp] theorem queuedTrades_writeMsg (p : MarketDataPublisher) (body : MdBody) :
    (p.writeMsg body).queuedTrades = p.queuedTrades := by
  unfold writeMsg
  split_ifs
  · exact queuedTrades_send p
  · rfl

theorem bodies_foldl_writeMsg (ts : List QueuedTrade) (p : MarketDataPublisher) :
    (ts.foldl (fun q t => q.writeMsg t.body) p).bodies = p.bodies ++ ts.map QueuedTrade.body := by
  induction ts generalizing p with
  | nil => simp
  | cons t ts ih => rw [List.foldl_cons, ih, bodies_writeMsg, List.append_assoc]; rfl

/-- The messages of the queued trades: a summary, then each trade. -/
def tradeBodies (ts : List QueuedTrade) (symbol : UInt32) (aggressorSide : Side) : List MdBody :=
  if ts = [] then []
  else .tradeSummary symbol aggressorSide (totalQuantity ts) (lastPrice ts) ::
    ts.map QueuedTrade.body

/-- **The queued trades** go out behind their summary. -/
theorem bodies_publishQueuedTrades (p : MarketDataPublisher) (symbol : UInt32)
    (aggressorSide : Side) :
    (p.publishQueuedTrades symbol aggressorSide).bodies =
      p.bodies ++ tradeBodies p.queuedTrades symbol aggressorSide := by
  unfold publishQueuedTrades tradeBodies
  split_ifs with hts
  · simp
  · rw [bodies_send]
    have hclear : ∀ q : MarketDataPublisher, bodies { q with queuedTrades := [] } = q.bodies :=
      fun _ => rfl
    rw [hclear, bodies_foldl_writeMsg, bodies_writeMsg, List.append_assoc]
    rfl

/-- After the queued trades the publisher is idle, if its buffer was empty. -/
theorem idle_publishQueuedTrades {p : MarketDataPublisher} (hp : p.buffer = []) (symbol : UInt32)
    (aggressorSide : Side) : (p.publishQueuedTrades symbol aggressorSide).Idle := by
  unfold publishQueuedTrades
  split_ifs with hts
  · exact ⟨hp, hts⟩
  · exact ⟨buffer_send _, queuedTrades_send _⟩

/-- A request without trades publishes no summary. -/
theorem publishQueuedTrades_nil {p : MarketDataPublisher} (hp : p.queuedTrades = [])
    (symbol : UInt32) (aggressorSide : Side) : p.publishQueuedTrades symbol aggressorSide = p :=
  if_pos hp

end MarketDataPublisher

end Ndfex
