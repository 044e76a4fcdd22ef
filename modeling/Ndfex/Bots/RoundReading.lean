import Ndfex.Bots.Recovery

/-!
# Reading a round

What `wait_for_snapshot` collects of the snapshots of a round, message by message. A message touches
what is kept for its symbol only; for each symbol, what is kept follows from how many messages of its
snapshot were read.

## Main definitions

* `Bots.Recovery.readFrom`: the loop over the messages, the first live number given
* `Bots.Recovery.Progress`: some messages of a snapshot were read
* `Bots.ReadsRound`: what the client has of every snapshot of a round

## Main results

* `Bots.Recovery.Progress.decode`: one message on
* `Bots.Recovery.readsRound`: a symbol is complete exactly if its last message was read
-/

namespace Ndfex

/-- The symbol of a snapshot message. -/
def SnapshotMessage.symbol : SnapshotMessage → UInt32
  | .info symbol .. => symbol
  | .newOrder o => o.symbol

namespace Snapshot

/-- The orders of a snapshot have its symbol, the bids are `BUY` and the asks `SELL`. -/
structure Sorted (x : Snapshot) : Prop where
  symbol : ∀ o ∈ x.orders, o.symbol = x.symbol
  bids : ∀ o ∈ x.bids, o.side = Side.buy
  asks : ∀ o ∈ x.asks, o.side = Side.sell

/-- The counts of the orders have 32 bits. -/
structure Counted (x : Snapshot) : Prop where
  bids : x.bids.length < 2 ^ 32
  asks : x.asks.length < 2 ^ 32

theorem Sorted.symbol_messages {x : Snapshot} (h : x.Sorted) :
    ∀ m ∈ x.messages, m.symbol = x.symbol := by
  intro m hm
  rcases List.mem_cons.mp hm with rfl | hm
  · rfl
  · obtain ⟨o, ho, rfl⟩ := List.mem_map.mp hm
    exact h.symbol o ho

theorem Sorted.countP_buy {x : Snapshot} (h : x.Sorted) :
    x.orders.countP (fun o => o.side = Side.buy) = x.bids.length := by
  have hbids : x.bids.countP (fun o => o.side = Side.buy) = x.bids.length :=
    List.countP_eq_length.mpr fun o ho => decide_eq_true (h.bids o ho)
  have hasks : x.asks.countP (fun o => o.side = Side.buy) = 0 :=
    List.countP_eq_zero.mpr fun o ho => by simp [h.asks o ho, Side.sell_ne_buy]
  rw [orders, List.countP_append, hbids, hasks, Nat.add_zero]

theorem Sorted.countP_not_buy {x : Snapshot} (h : x.Sorted) :
    x.orders.countP (fun o => o.side ≠ Side.buy) = x.asks.length := by
  have hbids : x.bids.countP (fun o => o.side ≠ Side.buy) = 0 :=
    List.countP_eq_zero.mpr fun o ho => by simp [h.bids o ho]
  have hasks : x.asks.countP (fun o => o.side ≠ Side.buy) = x.asks.length :=
    List.countP_eq_length.mpr fun o ho => by simp [h.asks o ho, Side.sell_ne_buy]
  rw [orders, List.countP_append, hbids, hasks, Nat.zero_add]

theorem length_messages (x : Snapshot) : x.messages.length = x.orders.length + 1 := by
  rw [messages, List.length_cons, List.length_map]

end Snapshot

namespace Bots

namespace Recovery

/-- The loop over the messages of a snapshot datagram, if the first live message has a number. -/
def readFrom (first : UInt32) (r : Recovery) : List SnapshotMessage → Recovery
  | [] => r
  | .info symbol bidCount askCount lastMdSeqNum :: ms =>
    if lastMdSeqNum ≤ first then r
    else readFrom first (r.info symbol bidCount askCount lastMdSeqNum) ms
  | .newOrder o :: ms => readFrom first (r.newOrder o) ms

/-- The client after a message of a snapshot. -/
def decode (r : Recovery) : SnapshotMessage → Recovery
  | .info symbol bidCount askCount lastMdSeqNum => r.info symbol bidCount askCount lastMdSeqNum
  | .newOrder o => r.newOrder o

theorem leaves_decode (r : Recovery) (m : SnapshotMessage) : r.Leaves (r.decode m) m.symbol := by
  cases m with
  | info symbol bidCount askCount n => exact leaves_info r symbol bidCount askCount n
  | newOrder o => exact leaves_newOrder r o

/-- No snapshot is skipped. -/
theorem readFrom_eq_foldl {first : UInt32} {ms : List SnapshotMessage}
    (h : ∀ symbol bidCount askCount n, .info symbol bidCount askCount n ∈ ms → first < n)
    (r : Recovery) : r.readFrom first ms = ms.foldl decode r := by
  induction ms generalizing r with
  | nil => rfl
  | cons m ms ih =>
    have hrest := ih fun symbol bidCount askCount n hm =>
      h symbol bidCount askCount n (List.mem_cons_of_mem m hm)
    cases m with
    | info symbol bidCount askCount n =>
      have hn := h symbol bidCount askCount n List.mem_cons_self
      rw [readFrom, if_neg (UInt32.not_le.mpr hn), hrest]
      rfl
    | newOrder o => rw [readFrom, hrest]; rfl

/-! ### One snapshot -/

variable {r r' : Recovery} {x : Snapshot} {k : ℕ}

/-- The first messages of a snapshot were read. -/
def Progress (r : Recovery) (x : Snapshot) : ℕ → Prop
  | 0 => r.snapshotComplete x.symbol = false
  | k + 1 => r.Holds x k ∧ (r.snapshotComplete x.symbol = true ↔ x.orders.length ≤ k)

/-- Messages of another symbol. -/
theorem Progress.leaves (h : r.Progress x k) {s : UInt32} (hleaves : r.Leaves r' s)
    (hs : x.symbol ≠ s) : r'.Progress x k := by
  cases k with
  | zero => exact (hleaves.complete _ hs).trans h
  | succ k =>
    refine ⟨⟨?_, ?_, ?_⟩, ?_⟩
    · rw [hleaves.snapshotBuffer _ hs, h.1.buffer]
    · rw [hleaves.bids _ hs, h.1.bids]
    · rw [hleaves.asks _ hs, h.1.asks]
    · rw [hleaves.complete _ hs, h.2]

/-- With all orders collected, both counts are zero. -/
theorem Holds.counts (h : r.Holds x x.orders.length) (hsorted : x.Sorted) :
    r.symbolToBidOrders x.symbol = 0 ∧ r.symbolToAskOrders x.symbol = 0 := by
  have hbids := h.bids
  have hasks := h.asks
  rw [List.take_length, hsorted.countP_buy] at hbids
  rw [List.take_length, hsorted.countP_not_buy] at hasks
  omega

/-- Both counts are zero exactly if the snapshot was collected. -/
theorem Holds.counts_iff (h : r.Holds x k) (hsorted : x.Sorted) (hk : k ≤ x.orders.length) :
    (r.symbolToBidOrders x.symbol = 0 ∧ r.symbolToAskOrders x.symbol = 0) ↔
      x.orders.length ≤ k := by
  refine ⟨fun hzero => h.length_le hzero.1 hzero.2, fun hle => ?_⟩
  obtain rfl : k = x.orders.length := Nat.le_antisymm hk hle
  exact h.counts hsorted

/-- **One message on.** -/
theorem Progress.decode (h : r.Progress x k) (hsorted : x.Sorted) (hcounted : x.Counted)
    {m : SnapshotMessage} (hm : x.messages[k]? = some m) : (r.decode m).Progress x (k + 1) := by
  cases k with
  | zero =>
    obtain rfl : SnapshotMessage.info x.symbol (UInt32.ofNat x.bids.length)
        (UInt32.ofNat x.asks.length) x.lastMdSeqNum = m := Option.some.inj hm
    have hbegun := Holds.info r x hcounted.bids hcounted.asks
    refine ⟨hbegun, ?_⟩
    rw [← hbegun.counts_iff hsorted (Nat.zero_le _)]
    change (Recovery.info r x.symbol _ _ _).snapshotComplete x.symbol = true ↔ _
    unfold Recovery.info
    rw [snapshotComplete_complete, (complete_same _ _).2.1, (complete_same _ _).2.2.1]
    exact or_iff_right (Bool.eq_false_iff.mp h)
  | succ k =>
    obtain ⟨o, ho, rfl⟩ : ∃ o, x.orders[k]? = some o ∧ SnapshotMessage.newOrder o = m := by
      rw [Snapshot.messages, List.getElem?_cons_succ, List.getElem?_map] at hm
      exact Option.map_eq_some_iff.mp hm
    have hlt : k < x.orders.length := (List.getElem?_eq_some_iff.mp ho).1
    have howns : o.symbol = x.symbol := hsorted.symbol o (List.mem_of_getElem? ho)
    have hnext := h.1.newOrder ho howns
    refine ⟨hnext, ?_⟩
    change (r.newOrder o).snapshotComplete x.symbol = true ↔ _
    rw [← hnext.counts_iff hsorted hlt, ← howns, snapshotComplete_newOrder, howns]
    -- the order before was not the last one
    exact or_iff_right fun hcomplete => absurd (h.2.mp hcomplete) (Nat.not_le.mpr hlt)

end Recovery

/-! ### The round -/

/-- What the client has of the snapshots of a round: a symbol is complete exactly if the last message of
its snapshot was read, and then the orders are there. -/
structure ReadsRound (xs : List Snapshot) (read : List SnapshotMessage) (r : Recovery) : Prop where
  complete : ∀ x ∈ xs, r.snapshotComplete x.symbol = true ↔
    read.filter (·.symbol = x.symbol) = x.messages
  buffer : ∀ x ∈ xs, read.filter (·.symbol = x.symbol) = x.messages →
    r.snapshotBuffer x.symbol = x.bids ++ x.asks

namespace Recovery

variable {xs : List Snapshot} {ms : List SnapshotMessage}

/-- The messages of a symbol in a round are those of its snapshot. -/
theorem filter_flatMap_messages (hxs : (xs.map Snapshot.symbol).Nodup)
    (hsorted : ∀ x ∈ xs, x.Sorted) {x : Snapshot} (hx : x ∈ xs) :
    (xs.flatMap Snapshot.messages).filter (·.symbol = x.symbol) = x.messages := by
  have hown : ∀ y ∈ xs, y.messages.filter (·.symbol = y.symbol) = y.messages := fun y hy =>
    List.filter_eq_self.mpr fun m hm => decide_eq_true ((hsorted y hy).symbol_messages m hm)
  have hother : ∀ y ∈ xs, y.symbol ≠ x.symbol → y.messages.filter (·.symbol = x.symbol) = [] := by
    intro y hy hne
    refine List.filter_eq_nil_iff.mpr fun m hm => ?_
    rw [decide_eq_true_eq, (hsorted y hy).symbol_messages m hm]
    exact hne
  induction xs with
  | nil => exact absurd hx List.not_mem_nil
  | cons y xs ih =>
    rw [List.map_cons, List.nodup_cons] at hxs
    rw [List.flatMap_cons, List.filter_append]
    have hlater : ∀ z ∈ xs, z ∈ y :: xs := fun z hz => List.mem_cons_of_mem y hz
    rcases List.mem_cons.mp hx with rfl | hx
    · have hrest : (xs.flatMap Snapshot.messages).filter (·.symbol = x.symbol) = [] := by
        rw [List.filter_flatMap, List.flatMap_eq_nil_iff]
        refine fun z hz => hother z (hlater z hz) fun hsame => hxs.1 ?_
        exact hsame ▸ List.mem_map_of_mem hz
      rw [hown x List.mem_cons_self, hrest, List.append_nil]
    · have hne : y.symbol ≠ x.symbol := fun hsame => hxs.1 (hsame ▸ List.mem_map_of_mem hx)
      rw [hother y List.mem_cons_self hne, List.nil_append]
      exact ih hxs.2 (fun z hz => hsorted z (hlater z hz)) hx (fun z hz => hown z (hlater z hz))
        fun z hz => hother z (hlater z hz)

/-- The messages read so far put every symbol where their number says. -/
theorem progress_foldl (hxs : (xs.map Snapshot.symbol).Nodup) (hsorted : ∀ x ∈ xs, x.Sorted)
    (hcounted : ∀ x ∈ xs, x.Counted) (hms : ms <+: xs.flatMap Snapshot.messages)
    (hr : ∀ x ∈ xs, r.Progress x 0) :
    ∀ x ∈ xs, (ms.foldl decode r).Progress x (ms.filter (·.symbol = x.symbol)).length := by
  induction ms using List.reverseRecOn with
  | nil => exact hr
  | append_singleton ms m ih =>
    have hbefore := ih ((List.prefix_append ms [m]).trans hms)
    intro x hx
    rw [List.foldl_append, List.foldl_cons, List.foldl_nil, List.filter_append]
    by_cases hm : m.symbol = x.symbol
    · have hone : [m].filter (fun m => decide (m.symbol = x.symbol)) = [m] := by simp [hm]
      have hpart := hms.filter fun m => decide (m.symbol = x.symbol)
      rw [filter_flatMap_messages hxs hsorted hx, List.filter_append, hone] at hpart
      have hget : x.messages[(ms.filter (·.symbol = x.symbol)).length]? = some m := by
        rw [List.prefix_iff_getElem?.mp hpart _ (by simp)]
        simp
      rw [hone, List.length_append, List.length_singleton]
      exact (hbefore x hx).decode (hsorted x hx) (hcounted x hx) hget
    · have hnone : [m].filter (fun m => decide (m.symbol = x.symbol)) = [] := by simp [hm]
      rw [hnone, List.append_nil]
      exact (hbefore x hx).leaves (leaves_decode _ m) (Ne.symm hm)

/-- **What is read of a round.** -/
theorem readsRound (hxs : (xs.map Snapshot.symbol).Nodup) (hsorted : ∀ x ∈ xs, x.Sorted)
    (hcounted : ∀ x ∈ xs, x.Counted) (hms : ms <+: xs.flatMap Snapshot.messages)
    (hr : ∀ x ∈ xs, r.Progress x 0) : ReadsRound xs ms (ms.foldl decode r) := by
  have hprogress := progress_foldl hxs hsorted hcounted hms hr
  have hpart : ∀ x ∈ xs, ms.filter (·.symbol = x.symbol) <+: x.messages := by
    intro x hx
    have hfilter := hms.filter fun m => decide (m.symbol = x.symbol)
    rwa [filter_flatMap_messages hxs hsorted hx] at hfilter
  refine ⟨fun x hx => ?_, fun x hx hall => ?_⟩
  · have hx' := hprogress x hx
    cases hcount : (ms.filter (·.symbol = x.symbol)).length with
    | zero =>
      rw [hcount] at hx'
      have hfalse : (ms.foldl decode r).snapshotComplete x.symbol = false := hx'
      rw [hfalse, List.eq_nil_of_length_eq_zero hcount]
      simp [Snapshot.messages]
    | succ k =>
      rw [hcount] at hx'
      rw [hx'.2]
      constructor
      · intro hle
        refine (hpart x hx).eq_of_length_le ?_
        rw [hcount, x.length_messages]
        exact Nat.succ_le_succ hle
      · intro hall
        rw [hall, x.length_messages] at hcount
        exact Nat.le_of_eq (Nat.succ.inj hcount)
  · have hx' := hprogress x hx
    rw [hall, x.length_messages] at hx'
    rw [hx'.1.buffer, List.take_length]
    rfl

end Recovery

end Bots

end Ndfex
