import Mathlib.Algebra.Ring.Int.Defs
import Mathlib.Algebra.Ring.Nat
import Mathlib.Data.Nat.Notation

/-!
# The market-data protocol

The messages of the public feed, field by field, with the number of bytes each packed struct
takes. A side is a byte: `BUY` and `SELL` name two of its values, and a byte from the wire may be
any other.

## Main definitions

* `Side`: the side byte, with `Side.buy` and `Side.sell`
* `MdMsgType`: the message types
* `MdBody`, `MdMessage`: the messages and their sequence numbers
* `MdBody.length`: the value of the header's `length` field
* `numberedFrom`: messages with consecutive numbers
-/

namespace Ndfex

/-- `md::SIDE`, an `enum class` over a byte. -/
structure Side where
  byte : UInt8
deriving DecidableEq, Repr

namespace Side

/-- `SIDE::BUY`. -/
def buy : Side := ⟨1⟩

/-- `SIDE::SELL`. -/
def sell : Side := ⟨2⟩

theorem buy_ne_sell : buy ≠ sell := by decide

theorem sell_ne_buy : sell ≠ buy := by decide

end Side

/-- `md::MSG_TYPE`. -/
inductive MdMsgType
  | heartbeat
  | newOrder
  | deleteOrder
  | modifyOrder
  | trade
  | tradeSummary
  | snapshotInfo
deriving DecidableEq, Repr

/-- The fields of a feed message after its header. -/
inductive MdBody
  | heartbeat
  | newOrder (orderId : UInt64) (symbol : UInt32) (side : Side) (quantity : UInt32)
      (price : Int32) (flags : UInt8)
  | deleteOrder (orderId : UInt64)
  | modifyOrder (orderId : UInt64) (side : Side) (quantity : UInt32) (price : Int32)
  | trade (orderId : UInt64) (quantity : UInt32) (price : Int32)
  | tradeSummary (symbol : UInt32) (aggressorSide : Side) (totalQuantity : UInt32)
      (lastPrice : Int32)
deriving DecidableEq, Repr

/-- `sizeof(md_header)`: the magic number, the length, the sequence number, the timestamp and the
type. -/
def mdHeaderSize : ℕ := 8 + 2 + 4 + 8 + 1

/-- The size of the packed struct of a message. -/
def MdBody.length : MdBody → ℕ
  | .heartbeat => mdHeaderSize
  | .newOrder .. => mdHeaderSize + 8 + 4 + 1 + 4 + 4 + 1
  | .deleteOrder _ => mdHeaderSize + 8
  | .modifyOrder .. => mdHeaderSize + 8 + 1 + 4 + 4
  | .trade .. => mdHeaderSize + 8 + 4 + 4
  | .tradeSummary .. => mdHeaderSize + 4 + 1 + 4 + 4

/-- A feed message: the sequence number of its header, and its fields. -/
structure MdMessage where
  seqNum : UInt32
  body : MdBody
deriving DecidableEq, Repr

/-- Messages numbered from a number on. -/
def numberedFrom (k : ℕ) : List MdBody → List MdMessage
  | [] => []
  | body :: bodies => ⟨UInt32.ofNat k, body⟩ :: numberedFrom (k + 1) bodies

theorem getElem?_numberedFrom (k : ℕ) (bodies : List MdBody) (i : ℕ) :
    (numberedFrom k bodies)[i]? = (bodies[i]?).map fun body => ⟨UInt32.ofNat (k + i), body⟩ := by
  induction bodies generalizing k i with
  | nil => rfl
  | cons body bodies ih =>
    cases i with
    | zero => rfl
    | succ i =>
      rw [numberedFrom, List.getElem?_cons_succ, List.getElem?_cons_succ, ih, Nat.add_assoc,
        Nat.add_comm 1 i]

theorem length_numberedFrom (k : ℕ) (bodies : List MdBody) :
    (numberedFrom k bodies).length = bodies.length := by
  induction bodies generalizing k with
  | nil => rfl
  | cons body bodies ih => rw [numberedFrom, List.length_cons, List.length_cons, ih]

theorem map_body_numberedFrom (k : ℕ) (bodies : List MdBody) :
    (numberedFrom k bodies).map MdMessage.body = bodies := by
  induction bodies generalizing k with
  | nil => rfl
  | cons body bodies ih => rw [numberedFrom, List.map_cons, ih]

theorem numberedFrom_append (k : ℕ) (bodies bodies' : List MdBody) :
    numberedFrom k (bodies ++ bodies') =
      numberedFrom k bodies ++ numberedFrom (k + bodies.length) bodies' := by
  induction bodies generalizing k with
  | nil => rfl
  | cons body bodies ih =>
    rw [List.cons_append, numberedFrom, numberedFrom, ih, List.cons_append, List.length_cons,
      Nat.add_assoc, Nat.add_comm 1]

end Ndfex
