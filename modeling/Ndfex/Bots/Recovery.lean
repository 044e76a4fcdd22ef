import Ndfex.Bots.LiveClient
import Ndfex.MarketData.SnapshotWriter

/-!
# Recovery from a snapshot

`MDClient::wait_for_snapshot`: the client buffers the live messages while it collects the snapshots of
symbols 1 and 2, and then applies both. What it collects is kept for each symbol; the number that it
takes the live messages from is the one of the snapshot that it began last.

## Main definitions

* `Bots.Recovery`, `Bots.Recovery.receive`: what the loop keeps, and one pass through it
* `Bots.Recovery.Done`, `Bots.Recovery.finish`: the end of the loop, and what comes after it
* `Bots.Recovery.Holds`: the client collected the first orders of a snapshot

## Main results

* `Bots.Recovery.collects_first`, `Bots.Recovery.Holds.foldl`: the datagrams of a snapshot
* `Bots.Recovery.replays_finish`: the live messages after the snapshots
-/

namespace Ndfex

open Containers

/-- The message of an order of a snapshot. -/
def SnapshotOrder.body (o : SnapshotOrder) : MdBody :=
  .newOrder o.orderId o.symbol o.side o.quantity o.price o.flags

namespace Bots

/-- What `wait_for_snapshot` keeps. -/
structure Recovery where
  liveBuffer : List MdMessage
  snapshotBuffer : UInt32 → List SnapshotOrder
  symbolToBidOrders : UInt32 → ℤ
  symbolToAskOrders : UInt32 → ℤ
  snapshotComplete : UInt32 → Bool
  lastSnapshotSeqNum : UInt32

namespace Recovery

/-- The counts of symbols 1 and 2 before their snapshots. -/
def notBegun (symbol : UInt32) : ℤ := if symbol = 1 ∨ symbol = 2 then -1 else 0

/-- Before the loop. -/
def start : Recovery := ⟨[], fun _ => [], notBegun, notBegun, fun _ => false, 0⟩

/-- `MDClient::get_first_live_seq_num`. -/
def getFirstLiveSeqNum (r : Recovery) : UInt32 :=
  match r.liveBuffer with
  | [] => 0xFFFFFFFF
  | m :: _ => m.seqNum

/-- The symbol is complete if both of its counts are zero. -/
def complete (r : Recovery) (symbol : UInt32) : Recovery :=
  if r.symbolToBidOrders symbol = 0 ∧ r.symbolToAskOrders symbol = 0 then
    { r with snapshotComplete := Function.update r.snapshotComplete symbol true }
  else r

/-- A snapshot begins. -/
def info (r : Recovery) (symbol bidCount askCount lastMdSeqNum : UInt32) : Recovery :=
  complete { r with
    lastSnapshotSeqNum := lastMdSeqNum
    symbolToBidOrders := Function.update r.symbolToBidOrders symbol bidCount.toNat
    symbolToAskOrders := Function.update r.symbolToAskOrders symbol askCount.toNat
    snapshotBuffer := Function.update r.snapshotBuffer symbol [] } symbol

/-- An order of a snapshot. -/
def newOrder (r : Recovery) (o : SnapshotOrder) : Recovery :=
  let r := if o.side = Side.buy then
      { r with
        symbolToBidOrders :=
          Function.update r.symbolToBidOrders o.symbol (r.symbolToBidOrders o.symbol - 1) }
    else
      { r with
        symbolToAskOrders :=
          Function.update r.symbolToAskOrders o.symbol (r.symbolToAskOrders o.symbol - 1) }
  complete { r with
    snapshotBuffer :=
      Function.update r.snapshotBuffer o.symbol (r.snapshotBuffer o.symbol ++ [o]) } o.symbol

/-- The loop over the messages of a snapshot datagram. A snapshot that is not past the first live
message is skipped with the rest of its datagram. -/
def read (r : Recovery) : List SnapshotMessage → Recovery
  | [] => r
  | .info symbol bidCount askCount lastMdSeqNum :: ms =>
    if lastMdSeqNum ≤ r.getFirstLiveSeqNum then r
    else read (r.info symbol bidCount askCount lastMdSeqNum) ms
  | .newOrder o :: ms => read (r.newOrder o) ms

/-- A pass through the loop that receives a live datagram, and then a snapshot datagram or none. -/
def receive (r : Recovery) (live : List MdMessage) (snapshot : Option (List SnapshotMessage)) :
    Recovery :=
  read { r with liveBuffer := r.liveBuffer ++ live } (snapshot.getD [])

/-- The loop ends. -/
def Done (r : Recovery) : Prop := r.snapshotComplete 1 = true ∧ r.snapshotComplete 2 = true

instance (r : Recovery) : Decidable r.Done := inferInstanceAs (Decidable (_ ∧ _))

/-- The books after the orders of the snapshots. -/
def install (r : Recovery) : MDClient :=
  MDClient.replay ((r.snapshotBuffer 1 ++ r.snapshotBuffer 2).map SnapshotOrder.body)

/-- The loop over the live buffer; each message that is past the snapshots is passed on with all that
follow it. -/
def replayLive (lastSnapshotSeqNum : UInt32) (c : LiveClient) : List MdMessage → LiveClient
  | [] => c
  | m :: ms =>
    if m.seqNum ≤ lastSnapshotSeqNum then replayLive lastSnapshotSeqNum c ms
    else replayLive lastSnapshotSeqNum (c.processMessage (m :: ms)) ms

/-- What comes after the loop. -/
def finish (r : Recovery) : LiveClient :=
  replayLive r.lastSnapshotSeqNum ⟨r.install, r.lastSnapshotSeqNum⟩ r.liveBuffer

/-! ### The datagrams of a snapshot -/

variable {r r' r'' : Recovery} {symbol : UInt32} {x : Snapshot} {k : ℕ}

/-- Messages of one symbol leave what is kept for the others. -/
structure Leaves (r r' : Recovery) (symbol : UInt32) : Prop where
  liveBuffer : r'.liveBuffer = r.liveBuffer
  snapshotBuffer : ∀ s, s ≠ symbol → r'.snapshotBuffer s = r.snapshotBuffer s
  bids : ∀ s, s ≠ symbol → r'.symbolToBidOrders s = r.symbolToBidOrders s
  asks : ∀ s, s ≠ symbol → r'.symbolToAskOrders s = r.symbolToAskOrders s
  complete : ∀ s, s ≠ symbol → r'.snapshotComplete s = r.snapshotComplete s

theorem Leaves.refl (r : Recovery) (symbol : UInt32) : r.Leaves r symbol :=
  ⟨rfl, fun _ _ => rfl, fun _ _ => rfl, fun _ _ => rfl, fun _ _ => rfl⟩

theorem Leaves.trans (h : r.Leaves r' symbol) (h' : r'.Leaves r'' symbol) : r.Leaves r'' symbol :=
  ⟨h'.1.trans h.1, fun s hs => (h'.2 s hs).trans (h.2 s hs),
    fun s hs => (h'.3 s hs).trans (h.3 s hs), fun s hs => (h'.4 s hs).trans (h.4 s hs),
    fun s hs => (h'.5 s hs).trans (h.5 s hs)⟩

theorem leaves_complete (r : Recovery) (symbol : UInt32) : r.Leaves (r.complete symbol) symbol := by
  unfold Recovery.complete
  split_ifs
  · exact ⟨rfl, fun _ _ => rfl, fun _ _ => rfl, fun _ _ => rfl,
      fun s hs => Function.update_of_ne hs ..⟩
  · exact .refl r symbol

theorem leaves_info (r : Recovery) (symbol bidCount askCount n : UInt32) :
    r.Leaves (r.info symbol bidCount askCount n) symbol := by
  refine Leaves.trans ?_ (leaves_complete _ symbol)
  exact ⟨rfl, fun s hs => Function.update_of_ne hs .., fun s hs => Function.update_of_ne hs ..,
    fun s hs => Function.update_of_ne hs .., fun _ _ => rfl⟩

theorem leaves_newOrder (r : Recovery) (o : SnapshotOrder) : r.Leaves (r.newOrder o) o.symbol := by
  refine Leaves.trans ?_ (leaves_complete _ o.symbol)
  split_ifs
  · exact ⟨rfl, fun s hs => Function.update_of_ne hs .., fun s hs => Function.update_of_ne hs ..,
      fun _ _ => rfl, fun _ _ => rfl⟩
  · exact ⟨rfl, fun s hs => Function.update_of_ne hs .., fun _ _ => rfl,
      fun s hs => Function.update_of_ne hs .., fun _ _ => rfl⟩

/-- Snapshots do not touch the live buffer. -/
theorem liveBuffer_read (r : Recovery) (ms : List SnapshotMessage) :
    (r.read ms).liveBuffer = r.liveBuffer := by
  induction ms generalizing r with
  | nil => rfl
  | cons m ms ih =>
    cases m with
    | info symbol bidCount askCount n =>
      unfold read
      split_ifs
      · rfl
      · rw [ih, (leaves_info r symbol bidCount askCount n).liveBuffer]
    | newOrder o =>
      unfold read
      rw [ih, (leaves_newOrder r o).liveBuffer]

/-- What completing a symbol leaves of its own fields. -/
theorem complete_same (r : Recovery) (symbol : UInt32) :
    (r.complete symbol).snapshotBuffer = r.snapshotBuffer ∧
      (r.complete symbol).symbolToBidOrders = r.symbolToBidOrders ∧
      (r.complete symbol).symbolToAskOrders = r.symbolToAskOrders ∧
      (r.complete symbol).lastSnapshotSeqNum = r.lastSnapshotSeqNum := by
  unfold Recovery.complete
  split_ifs <;> exact ⟨rfl, rfl, rfl, rfl⟩

theorem snapshotComplete_complete (r : Recovery) (symbol : UInt32) :
    (r.complete symbol).snapshotComplete symbol = true ↔ r.snapshotComplete symbol = true ∨
      r.symbolToBidOrders symbol = 0 ∧ r.symbolToAskOrders symbol = 0 := by
  unfold Recovery.complete
  split_ifs with hzero
  · simp [hzero]
  · simp [hzero]

/-- The client collected the first orders of a snapshot. -/
structure Holds (r : Recovery) (x : Snapshot) (k : ℕ) : Prop where
  buffer : r.snapshotBuffer x.symbol = x.orders.take k
  bids : r.symbolToBidOrders x.symbol =
    x.bids.length - (x.orders.take k).countP fun o => o.side = Side.buy
  asks : r.symbolToAskOrders x.symbol =
    x.asks.length - (x.orders.take k).countP fun o => o.side ≠ Side.buy

/-- With both counts at zero, the snapshot was collected. -/
theorem Holds.length_le (h : r.Holds x k) (hbids : r.symbolToBidOrders x.symbol = 0)
    (hasks : r.symbolToAskOrders x.symbol = 0) : x.orders.length ≤ k := by
  have hb := h.bids
  have ha := h.asks
  have hboth := List.length_eq_countP_add_countP (fun o : SnapshotOrder => decide (o.side = Side.buy))
    (l := x.orders.take k)
  have hlength : x.orders.length = x.bids.length + x.asks.length := by
    rw [Snapshot.orders, List.length_append]
  have hnot : (x.orders.take k).countP (fun o => decide ¬ decide (o.side = Side.buy) = true) =
      (x.orders.take k).countP fun o => o.side ≠ Side.buy := by
    simp
  rw [hnot, List.length_take] at hboth
  omega

/-- The snapshot begins. -/
theorem Holds.info (r : Recovery) (x : Snapshot) (hbids : x.bids.length < 2 ^ 32)
    (hasks : x.asks.length < 2 ^ 32) :
    (r.info x.symbol (UInt32.ofNat x.bids.length) (UInt32.ofNat x.asks.length)
      x.lastMdSeqNum).Holds x 0 := by
  unfold Recovery.info
  obtain ⟨hbuffer, hbidCounts, haskCounts, -⟩ := complete_same { r with
    lastSnapshotSeqNum := x.lastMdSeqNum
    symbolToBidOrders :=
      Function.update r.symbolToBidOrders x.symbol (UInt32.ofNat x.bids.length).toNat
    symbolToAskOrders :=
      Function.update r.symbolToAskOrders x.symbol (UInt32.ofNat x.asks.length).toNat
    snapshotBuffer := Function.update r.snapshotBuffer x.symbol [] } x.symbol
  refine ⟨?_, ?_, ?_⟩
  · rw [hbuffer]
    exact Function.update_self ..
  · rw [hbidCounts]
    simp [UInt32.toNat_ofNat_of_lt' hbids]
  · rw [haskCounts]
    simp [UInt32.toNat_ofNat_of_lt' hasks]

/-- The next order of the snapshot. -/
theorem Holds.newOrder (h : r.Holds x k) {o : SnapshotOrder} (ho : x.orders[k]? = some o)
    (hsymbol : o.symbol = x.symbol) : (r.newOrder o).Holds x (k + 1) := by
  have htake : x.orders.take (k + 1) = x.orders.take k ++ [o] := by
    rw [List.take_add_one, ho]
    rfl
  unfold Recovery.newOrder
  refine ⟨?_, ?_, ?_⟩
  · rw [(complete_same _ _).1, htake, ← h.buffer]
    dsimp only
    rw [hsymbol, Function.update_self]
    split_ifs <;> rfl
  · rw [(complete_same _ _).2.1, htake, List.countP_append, Int.natCast_add, ← Int.sub_sub, ← h.bids]
    split_ifs with hbuy
    · simp [hbuy, hsymbol]
    · simp [hbuy]
  · rw [(complete_same _ _).2.2.1, htake, List.countP_append, Int.natCast_add, ← Int.sub_sub, ← h.asks]
    split_ifs with hbuy
    · simp [hbuy]
    · simp [hbuy, hsymbol]

theorem read_orders (r : Recovery) (os : List SnapshotOrder) :
    r.read (os.map .newOrder) = os.foldl newOrder r := by
  induction os generalizing r with
  | nil => rfl
  | cons o os ih => exact ih (r.newOrder o)

/-- The client went on to collect a snapshot, up to its first `k` orders. -/
structure Collects (r r' : Recovery) (x : Snapshot) (k : ℕ) (n : UInt32) : Prop where
  leaves : r.Leaves r' x.symbol
  holds : r'.Holds x k
  lastSnapshotSeqNum : r'.lastSnapshotSeqNum = n
  complete : r'.snapshotComplete x.symbol = true →
    r.snapshotComplete x.symbol = true ∨ x.orders.length ≤ k

theorem lastSnapshotSeqNum_newOrder (r : Recovery) (o : SnapshotOrder) :
    (r.newOrder o).lastSnapshotSeqNum = r.lastSnapshotSeqNum := by
  unfold Recovery.newOrder
  rw [(complete_same _ _).2.2.2]
  dsimp only
  split_ifs <;> rfl

/-- A symbol that an order completes has both counts at zero. -/
theorem snapshotComplete_newOrder (r : Recovery) (o : SnapshotOrder) :
    (r.newOrder o).snapshotComplete o.symbol = true ↔ r.snapshotComplete o.symbol = true ∨
      (r.newOrder o).symbolToBidOrders o.symbol = 0 ∧
        (r.newOrder o).symbolToAskOrders o.symbol = 0 := by
  unfold Recovery.newOrder
  rw [snapshotComplete_complete, (complete_same _ _).2.1, (complete_same _ _).2.2.1]
  dsimp only
  split_ifs <;> rfl

/-- **The orders of a datagram**: as long as there are more, the symbol is not complete. -/
theorem Holds.foldl (h : r.Holds x k) (hsymbol : ∀ o ∈ x.orders, o.symbol = x.symbol)
    {os rest : List SnapshotOrder} (hos : x.orders.drop k = os ++ rest) :
    r.Collects (os.foldl Recovery.newOrder r) x (k + os.length) r.lastSnapshotSeqNum := by
  induction os using List.reverseRecOn generalizing rest with
  | nil => exact ⟨.refl r _, h, rfl, fun hcomplete => Or.inl hcomplete⟩
  | append_singleton os o ih =>
    rw [List.append_assoc] at hos
    have hall := ih hos
    rw [List.foldl_append, List.foldl_cons, List.foldl_nil, List.length_append,
      List.length_singleton, ← Nat.add_assoc]
    generalize os.foldl Recovery.newOrder r = r' at hall ⊢
    have ho : x.orders[k + os.length]? = some o := by
      rw [← List.getElem?_drop, hos]
      simp
    have howns : o.symbol = x.symbol := hsymbol o (List.mem_of_getElem? ho)
    have hlt : k + os.length < x.orders.length := (List.getElem?_eq_some_iff.mp ho).1
    have hone := hall.holds.newOrder ho howns
    refine ⟨hall.leaves.trans (howns ▸ leaves_newOrder _ o), hone,
      (lastSnapshotSeqNum_newOrder _ o).trans hall.lastSnapshotSeqNum, fun hcomplete => ?_⟩
    rw [← howns, snapshotComplete_newOrder] at hcomplete
    rcases hcomplete with hbefore | ⟨hbids, hasks⟩
    · -- the order before was not the last one
      rw [howns] at hbefore
      refine Or.inl ((hall.complete hbefore).resolve_right fun hle => ?_)
      omega
    · rw [howns] at hbids hasks
      exact Or.inr (hone.length_le hbids hasks)

/-- **The first datagram of a snapshot** that is past the first live message. -/
theorem collects_first (hn : r.getFirstLiveSeqNum < x.lastMdSeqNum) (hbids : x.bids.length < 2 ^ 32)
    (hasks : x.asks.length < 2 ^ 32) (hsymbol : ∀ o ∈ x.orders, o.symbol = x.symbol)
    {os rest : List SnapshotOrder} (hos : x.orders = os ++ rest) :
    r.Collects (r.read (.info x.symbol (UInt32.ofNat x.bids.length) (UInt32.ofNat x.asks.length)
      x.lastMdSeqNum :: os.map .newOrder)) x os.length x.lastMdSeqNum := by
  have hbegun := Holds.info r x hbids hasks
  have hdrop : x.orders.drop 0 = os ++ rest := by rw [List.drop_zero, hos]
  have hall := hbegun.foldl hsymbol hdrop
  rw [read, if_neg (UInt32.not_le.mpr hn), read_orders]
  rw [Nat.zero_add] at hall
  refine ⟨(leaves_info ..).trans hall.leaves, hall.holds, ?_, fun hcomplete => ?_⟩
  · rw [hall.lastSnapshotSeqNum]
    exact (complete_same _ _).2.2.2
  · rcases hall.complete hcomplete with hbefore | hall
    · unfold Recovery.info at hbefore
      rw [snapshotComplete_complete] at hbefore
      refine hbefore.imp_right fun hzero => ?_
      -- a snapshot without orders
      have hnone := hbegun.length_le (by rw [Recovery.info, (complete_same _ _).2.1]; exact hzero.1)
        (by rw [Recovery.info, (complete_same _ _).2.2.1]; exact hzero.2)
      exact hnone.trans (Nat.zero_le _)
    · exact Or.inr hall

/-- Nothing of the symbol was collected. -/
structure Idle (r : Recovery) (symbol : UInt32) : Prop where
  bids : r.symbolToBidOrders symbol < 0
  asks : r.symbolToAskOrders symbol < 0
  complete : r.snapshotComplete symbol = false

theorem Idle.leaves (h : r.Idle symbol) {s : UInt32} (hleaves : r.Leaves r' s) (hs : symbol ≠ s) :
    r'.Idle symbol :=
  ⟨by rw [hleaves.bids symbol hs]; exact h.bids, by rw [hleaves.asks symbol hs]; exact h.asks,
    by rw [hleaves.complete symbol hs]; exact h.complete⟩

/-- Orders of a snapshot whose beginning was not read. -/
theorem Idle.newOrder (h : r.Idle symbol) (o : SnapshotOrder) : (r.newOrder o).Idle symbol := by
  by_cases hs : symbol = o.symbol
  · subst hs
    have hcounts : (r.newOrder o).symbolToBidOrders o.symbol < 0 ∧
        (r.newOrder o).symbolToAskOrders o.symbol < 0 := by
      have hb := h.bids
      have ha := h.asks
      unfold Recovery.newOrder
      rw [(complete_same _ _).2.1, (complete_same _ _).2.2.1]
      dsimp only
      split_ifs
      · simp only [Function.update_self]
        omega
      · simp only [Function.update_self]
        omega
    refine ⟨hcounts.1, hcounts.2, Bool.eq_false_iff.mpr fun hcomplete => ?_⟩
    rw [snapshotComplete_newOrder, h.complete] at hcomplete
    rcases hcomplete with hfalse | ⟨hzero, -⟩
    · exact Bool.false_ne_true hfalse
    · omega
  · exact h.leaves (leaves_newOrder r o) hs

theorem Idle.foldl (h : r.Idle symbol) (os : List SnapshotOrder) :
    (os.foldl Recovery.newOrder r).Idle symbol := by
  induction os generalizing r with
  | nil => exact h
  | cons o os ih => exact ih (h.newOrder o)

/-! ### After the loop -/

section Finish

variable {symbols : Set UInt32} {feed : List MdBody}

theorem replays_replayLive {n : UInt32} {c : LiveClient} (h : c.Replays symbols feed)
    {ms : List MdMessage} (hms : ∀ m ∈ ms, feed[m.seqNum.toNat]? = some m.body) :
    (replayLive n c ms).Replays symbols feed := by
  induction ms generalizing c with
  | nil => exact h
  | cons m ms ih =>
    have hrest := fun m' hm' => hms m' (List.mem_cons_of_mem m hm')
    unfold replayLive
    split_ifs
    · exact ih h hrest
    · exact ih (h.processMessage hms) hrest

/-- **The live messages** lead on from books that are those of the feed at the number of the snapshot
begun last. -/
theorem replays_finish {r : Recovery}
    (h : r.install.Agree symbols (MDClient.replay (feed.take (r.lastSnapshotSeqNum.toNat + 1))))
    (hlive : ∀ m ∈ r.liveBuffer, feed[m.seqNum.toNat]? = some m.body) :
    r.finish.Replays symbols feed := by
  have hstart : LiveClient.Replays ⟨r.install, r.lastSnapshotSeqNum⟩ symbols feed := h
  exact replays_replayLive hstart hlive

end Finish

end Recovery

end Bots

end Ndfex
