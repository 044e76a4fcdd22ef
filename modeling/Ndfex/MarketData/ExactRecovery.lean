import Ndfex.MarketData.LateJoin

/-!
# Exact recovery

What a client in `wait_for_snapshot` collected, as a function of the snapshot datagrams that it read: of
the symbol of the last one a part of a snapshot, of the other symbol a whole one. When the loop ends
both are whole, but the number that the live messages are taken from is that of the later one.

## Main definitions

* `Collected`: what the client collected, by the sheets that it read
* `BookedFeed`, `WellFormedFeed`: a feed with distinct ids, whose quantities and level sums fit

## Main results

* `Collected.read`: a datagram
* `recovery_exact`: the books after the recovery are those of the feed, if the feed shows the same
  orders at both snapshots
* `recovery_mixed`: two snapshots of different rounds
-/

namespace Ndfex

open Containers Transition Bots

/-! ## The parts of a snapshot -/

namespace Sheet

variable {z : Sheet} {bodies : List MdBody}

/-- How many orders of its snapshot the client has after the sheet. -/
def got (z : Sheet) : ℕ := (z.before ++ z.packet).length - 1

theorem exists_orders {ms : List SnapshotMessage} {os : List SnapshotOrder}
    (h : ms <+: os.map .newOrder) : ∃ os' rest, ms = os'.map .newOrder ∧ os = os' ++ rest := by
  refine ⟨os.take ms.length, os.drop ms.length, ?_, (List.take_append_drop ..).symm⟩
  rw [List.map_take]
  exact List.prefix_iff_eq_take.mp h

/-- The first sheet of a snapshot. -/
theorem Sound.first (h : z.Sound bodies) (hbefore : z.before = []) :
    ∃ os rest, z.packet = .info z.snapshot.symbol (UInt32.ofNat z.snapshot.bids.length)
        (UInt32.ofNat z.snapshot.asks.length) z.snapshot.lastMdSeqNum :: os.map .newOrder ∧
      z.snapshot.orders = os ++ rest ∧ z.got = os.length := by
  have hpart := h.part
  unfold got
  rw [hbefore, List.nil_append] at hpart ⊢
  cases hpacket : z.packet with
  | nil => exact absurd hpacket h.packet
  | cons m ms =>
    rw [hpacket, Snapshot.messages, List.cons_prefix_cons] at hpart
    obtain ⟨os, rest, rfl, horders⟩ := exists_orders hpart.2
    refine ⟨os, rest, by rw [hpart.1], horders, ?_⟩
    rw [List.length_cons, List.length_map, Nat.add_sub_cancel]

/-- A later sheet. -/
theorem Sound.later (h : z.Sound bodies) (hbefore : z.before ≠ []) :
    ∃ os rest, z.packet = os.map .newOrder ∧
      z.snapshot.orders.drop (z.before.length - 1) = os ++ rest ∧
      z.got = z.before.length - 1 + os.length := by
  have hpart := h.part
  unfold got
  cases hb : z.before with
  | nil => exact absurd hb hbefore
  | cons m before =>
    rw [hb, List.cons_append, Snapshot.messages, List.cons_prefix_cons] at hpart
    obtain ⟨os, rest, hos, horders⟩ := exists_orders hpart.2
    have hlength : before.length + z.packet.length = os.length := by
      rw [← List.length_append, hos, List.length_map]
    refine ⟨os.drop before.length, rest, ?_, ?_, ?_⟩
    · rw [List.map_drop, ← hos, List.drop_left]
    · rw [horders, List.length_cons, Nat.add_sub_cancel, List.drop_append_of_le_length (by omega)]
    · rw [List.cons_append, List.length_cons, List.length_cons, List.length_append, List.length_drop]
      omega

/-- The last sheet of a snapshot. -/
theorem got_of_whole (h : z.before ++ z.packet = z.snapshot.messages) :
    z.got = z.snapshot.orders.length := by
  rw [got, h, Snapshot.messages, List.length_cons, List.length_map, Nat.add_sub_cancel]

theorem lengths_lt (h : z.Sound bodies) (hlength : bodies.length < 2 ^ 32) :
    z.snapshot.bids.length < 2 ^ 32 ∧ z.snapshot.asks.length < 2 ^ 32 := by
  have hle := h.snapshot.length_le
  rw [Snapshot.orders, List.length_append] at hle
  omega

end Sheet

/-! ## What the client collected -/

theorem lastBegun_append (symbol : UInt32) (read : List Sheet) (z : Sheet) :
    lastBegun symbol (read ++ [z]) =
      if z.before = [] ∧ z.snapshot.symbol = symbol then some z else lastBegun symbol read := by
  unfold lastBegun
  rw [List.filter_append]
  split_ifs with h
  · rw [List.filter_cons_of_pos (by simpa using h), List.filter_nil, List.getLast?_concat]
  · rw [List.filter_cons_of_neg (by simpa using h), List.filter_nil, List.append_nil]

/-- The client collected a part of the snapshot of the last sheet and, of the other symbol, nothing or
the whole snapshot that it began last; or it collected nothing yet. -/
inductive Collected (r : Recovery) (read : List Sheet) : Prop
  | idle (h : ∀ symbol, symbol = 1 ∨ symbol = 2 → r.Idle symbol)
  | begun (z : Sheet) (last : read.getLast? = some z)
      (number : r.getFirstLiveSeqNum < z.snapshot.lastMdSeqNum)
      (lastSnapshotSeqNum : r.lastSnapshotSeqNum = z.snapshot.lastMdSeqNum)
      (holds : r.Holds z.snapshot z.got)
      (done : r.Done → z.snapshot.orders.length ≤ z.got)
      (begins : ∃ x, lastBegun z.snapshot.symbol read = some x ∧ x.snapshot = z.snapshot ∧
        x.instant = z.instant)
      (other : ∀ symbol, symbol = 1 ∨ symbol = 2 → symbol ≠ z.snapshot.symbol → r.Idle symbol ∨
        ∃ x, lastBegun symbol read = some x ∧ x.snapshot.symbol = symbol ∧
          r.Holds x.snapshot x.snapshot.orders.length ∧ x.instant ≤ z.instant)

namespace Collected

variable {r : Recovery} {sheets : List Sheet} {z : Sheet} {bodies : List MdBody}

theorem start : Collected Recovery.start [] := by
  refine .idle fun symbol hsymbol => ⟨?_, ?_, rfl⟩ <;>
    · change Recovery.notBegun symbol < 0
      rw [Recovery.notBegun, if_pos hsymbol]
      decide

/-- The first live message stays the first one. -/
theorem getFirstLiveSeqNum_append {ms : List MdMessage} {n : UInt32}
    (h : r.getFirstLiveSeqNum < n) :
    Recovery.getFirstLiveSeqNum { r with liveBuffer := r.liveBuffer ++ ms } < n := by
  cases hlive : r.liveBuffer with
  | nil =>
    rw [Recovery.getFirstLiveSeqNum, hlive] at h
    have hmax : (0xFFFFFFFF : UInt32).toNat = 2 ^ 32 - 1 := rfl
    have hbound := n.toNat_lt
    rw [UInt32.lt_iff_toNat_lt, hmax] at h
    omega
  | cons m live =>
    rw [Recovery.getFirstLiveSeqNum, hlive] at h
    exact h

theorem live (h : Collected r sheets) (ms : List MdMessage) :
    Collected { r with liveBuffer := r.liveBuffer ++ ms } sheets := by
  cases h with
  | idle h => exact .idle fun symbol hsymbol => ⟨(h symbol hsymbol).1, (h symbol hsymbol).2,
      (h symbol hsymbol).3⟩
  | begun z last number lastSnapshotSeqNum holds done begins other =>
    refine .begun z last (getFirstLiveSeqNum_append number) lastSnapshotSeqNum
      ⟨holds.1, holds.2, holds.3⟩ done begins fun symbol hsymbol hne => ?_
    refine (other symbol hsymbol hne).imp (fun hidle => ⟨hidle.1, hidle.2, hidle.3⟩) ?_
    rintro ⟨x, hx, hown, hx', hinstant⟩
    exact ⟨x, hx, hown, ⟨hx'.1, hx'.2, hx'.3⟩, hinstant⟩

/-- What is held of a snapshot of another symbol. -/
theorem holds_leaves {r' : Recovery} {symbol : UInt32} {x : Snapshot} {k : ℕ} (h : r.Holds x k)
    (hleaves : r.Leaves r' symbol) (hne : x.symbol ≠ symbol) : r'.Holds x k :=
  ⟨by rw [hleaves.snapshotBuffer _ hne]; exact h.1, by rw [hleaves.bids _ hne]; exact h.2,
    by rw [hleaves.asks _ hne]; exact h.3⟩

/-- If the loop goes on before a datagram and ends with it, the datagram completes its symbol. -/
theorem done_of_collects {r' : Recovery} {x : Snapshot} {k : ℕ} {n : UInt32}
    (h : r.Collects r' x k n) (hsymbol : x.symbol = 1 ∨ x.symbol = 2) (hnot : ¬ r.Done)
    (hdone : r'.Done) : x.orders.length ≤ k := by
  have hcomplete : r'.snapshotComplete x.symbol = true := by
    rcases hsymbol with hone | htwo
    · rw [hone]
      exact hdone.1
    · rw [htwo]
      exact hdone.2
  refine (h.complete hcomplete).resolve_left fun hbefore => hnot ?_
  -- the other symbol was complete before the datagram
  rcases hsymbol with hone | htwo
  · rw [hone] at hbefore
    exact ⟨hbefore, (h.leaves.complete 2 (by rw [hone]; decide)).symm.trans hdone.2⟩
  · rw [htwo] at hbefore
    exact ⟨(h.leaves.complete 1 (by rw [htwo]; decide)).symm.trans hdone.1, hbefore⟩

/-- The live buffer is not touched by a snapshot. -/
theorem getFirstLiveSeqNum_leaves {r' : Recovery} {symbol : UInt32} (h : r.Leaves r' symbol) :
    r'.getFirstLiveSeqNum = r.getFirstLiveSeqNum := by
  rw [Recovery.getFirstLiveSeqNum, Recovery.getFirstLiveSeqNum, h.liveBuffer]

/-- A snapshot begins, of whatever was collected before. -/
theorem begins_new (hz : z.Sound bodies) (hlength : bodies.length < 2 ^ 32) (hbefore : z.before = [])
    (hnot : ¬ r.Done) (hnumber : r.getFirstLiveSeqNum < z.snapshot.lastMdSeqNum)
    (hother : ∀ symbol, symbol = 1 ∨ symbol = 2 → symbol ≠ z.snapshot.symbol → r.Idle symbol ∨
      ∃ x, lastBegun symbol sheets = some x ∧ x.snapshot.symbol = symbol ∧
        r.Holds x.snapshot x.snapshot.orders.length ∧ x.instant ≤ z.instant) :
    Collected (r.read z.packet) (sheets ++ [z]) := by
  obtain ⟨os, rest, hpacket, horders, hgot⟩ := hz.first hbefore
  obtain ⟨hbids, hasks⟩ := Sheet.lengths_lt hz hlength
  have hall := Recovery.collects_first hnumber hbids hasks hz.snapshot.owns horders
  rw [← hpacket, ← hgot] at hall
  refine .begun z List.getLast?_concat ?_ hall.lastSnapshotSeqNum hall.holds
    (done_of_collects hall hz.snapshot.symbol hnot) ⟨z, ?_, rfl, rfl⟩ fun symbol hsymbol hne => ?_
  · rwa [getFirstLiveSeqNum_leaves hall.leaves]
  · rw [lastBegun_append, if_pos ⟨hbefore, rfl⟩]
  · refine (hother symbol hsymbol hne).imp (fun hidle => hidle.leaves hall.leaves hne) ?_
    rintro ⟨x, hx, hown, hx', hinstant⟩
    refine ⟨x, ?_, hown, holds_leaves hx' hall.leaves (by rw [hown]; exact hne), hinstant⟩
    rw [lastBegun_append, if_neg fun hboth => hne hboth.2.symm, hx]

/-- **A datagram of the snapshots**, in the order in which they were written. -/
theorem read (h : Collected r sheets) (hz : z.Sound bodies) (hlength : bodies.length < 2 ^ 32)
    (hnot : ¬ r.Done) (hprecedes : ∀ z' ∈ sheets.getLast?, z'.packet ≠ [] ∧ z'.Precedes z) :
    Collected (r.read z.packet) (sheets ++ [z]) := by
  cases h with
  | idle hidle =>
    by_cases hbefore : z.before = []
    · by_cases hnumber : r.getFirstLiveSeqNum < z.snapshot.lastMdSeqNum
      · exact begins_new hz hlength hbefore hnot hnumber fun symbol hsymbol _ =>
          Or.inl (hidle symbol hsymbol)
      · -- the snapshot is skipped
        obtain ⟨os, rest, hpacket, -, -⟩ := hz.first hbefore
        rw [hpacket, Recovery.read, if_pos (UInt32.not_lt.mp hnumber)]
        exact .idle hidle
    · -- the rest of a snapshot whose beginning was skipped: its orders complete nothing
      obtain ⟨os, rest, hpacket, -, -⟩ := hz.later hbefore
      rw [hpacket, Recovery.read_orders]
      exact .idle fun symbol hsymbol => (hidle symbol hsymbol).foldl os
  | begun z' last number lastSnapshotSeqNum holds done begins other =>
    obtain ⟨hpacket', hprecedes⟩ := hprecedes z' last
    rcases hprecedes with ⟨hsnapshot, hinstant, hbefore⟩ | ⟨hbefore, hwhole, hinstant, hle⟩
    · -- the snapshot goes on
      have hne : z.before ≠ [] := by
        rw [hbefore]
        exact List.append_ne_nil_of_right_ne_nil _ hpacket'
      obtain ⟨os, rest, hpacket, horders, hgot⟩ := hz.later hne
      have hk : z.before.length - 1 = z'.got := by rw [hbefore, Sheet.got]
      rw [← hsnapshot, ← hk] at holds
      have hall := holds.foldl hz.snapshot.owns horders
      rw [hpacket, Recovery.read_orders]
      rw [← hgot] at hall
      refine .begun z List.getLast?_concat ?_ ?_ hall.holds
        (done_of_collects hall hz.snapshot.symbol hnot) ?_ fun symbol hsymbol hother => ?_
      · rw [getFirstLiveSeqNum_leaves hall.leaves, hsnapshot]
        exact number
      · rw [hall.lastSnapshotSeqNum, lastSnapshotSeqNum, hsnapshot]
      · obtain ⟨x, hx, hxs, hxi⟩ := begins
        refine ⟨x, ?_, by rw [hxs, hsnapshot], by rw [hxi, hinstant]⟩
        rw [lastBegun_append, if_neg fun hboth => hne hboth.1, hsnapshot, hx]
      · have hold := other symbol hsymbol (by rwa [← hsnapshot])
        refine hold.imp (fun hidle => hidle.leaves hall.leaves hother) ?_
        rintro ⟨x, hx, hown, hx', hxi⟩
        refine ⟨x, ?_, hown, holds_leaves hx' hall.leaves (by rw [hown]; exact hother), ?_⟩
        · rw [lastBegun_append, if_neg fun hboth => hne hboth.1, hx]
        · rw [hinstant]
          exact hxi
    · -- the next snapshot begins
      refine begins_new hz hlength hbefore hnot (UInt32.lt_of_lt_of_le number hle)
        fun symbol hsymbol hne => ?_
      by_cases hsame : symbol = z'.snapshot.symbol
      · obtain ⟨x, hx, hxs, hxi⟩ := begins
        refine Or.inr ⟨x, by rw [hsame, hx], by rw [hxs, hsame], ?_, hxi.le.trans hinstant⟩
        rw [hxs, ← Sheet.got_of_whole hwhole]
        exact holds
      · refine (other symbol hsymbol hsame).imp_right ?_
        rintro ⟨x, hx, hown, hx', hxi⟩
        exact ⟨x, hx, hown, hx', hxi.trans hinstant⟩

/-- **At the end of the loop** the client has a whole snapshot of both symbols. -/
theorem whole (h : Collected r sheets) (hdone : r.Done) :
    ∃ z ∈ sheets.getLast?, r.getFirstLiveSeqNum < z.snapshot.lastMdSeqNum ∧
      r.lastSnapshotSeqNum = z.snapshot.lastMdSeqNum ∧
      (∃ x ∈ lastBegun z.snapshot.symbol sheets, x.instant = z.instant) ∧
      ∀ symbol, symbol = 1 ∨ symbol = 2 → ∃ x ∈ lastBegun symbol sheets,
        x.snapshot.symbol = symbol ∧ r.snapshotBuffer symbol = x.snapshot.orders ∧
          x.instant ≤ z.instant := by
  -- a symbol without a snapshot is not complete
  have hnotIdle : ∀ symbol, symbol = 1 ∨ symbol = 2 → ¬ r.Idle symbol := by
    rintro symbol (rfl | rfl) hidle
    · exact Bool.false_ne_true (hidle.complete.symm.trans hdone.1)
    · exact Bool.false_ne_true (hidle.complete.symm.trans hdone.2)
  cases h with
  | idle h => exact absurd (h 1 (Or.inl rfl)) (hnotIdle 1 (Or.inl rfl))
  | begun z last number lastSnapshotSeqNum holds done begins other =>
    obtain ⟨x, hx, hxs, hxi⟩ := begins
    refine ⟨z, last, number, lastSnapshotSeqNum, ⟨x, hx, hxi⟩, fun symbol hsymbol => ?_⟩
    by_cases hown : symbol = z.snapshot.symbol
    · refine ⟨x, hown ▸ hx, by rw [hxs, hown], ?_, hxi.le⟩
      rw [hown, holds.buffer, hxs]
      exact List.take_of_length_le (done hdone)
    · obtain ⟨x', hx', hsym, hx'holds, hinstant⟩ :=
        (other symbol hsymbol hown).resolve_left (hnotIdle symbol hsymbol)
      refine ⟨x', hx', hsym, ?_, hinstant⟩
      have hbuffer := hx'holds.buffer
      rw [hsym] at hbuffer
      rw [hbuffer, List.take_length]

end Collected

/-! ## The books after the snapshots -/

/-- The levels of the books of a feed are totals, if these have 32 bits all along. -/
theorem Bots.MDClient.tallied_replay {feed : List MdBody} {symbols : Set UInt32}
    (hids : (newOrderIds feed).Nodup) (hpos : ∀ body ∈ feed, body.Positive)
    (hfits : ∀ k, (MDClient.replay (feed.take k)).Fits symbols) (k : ℕ) :
    (MDClient.replay (feed.take k)).Tallied symbols := by
  have hnothing : Shown.nothing.Within [] := fun _ _ h => absurd rfl h
  refine (MDClient.follows_empty symbols).tallied_foldl (MDClient.tallied_empty symbols) hnothing ?_
    (fun body hbody => hpos body (List.mem_of_mem_take hbody)) fun i => ?_
  · rw [List.nil_append]
    exact hids.sublist ((List.take_sublist k feed).filterMap _)
  · rw [List.take_take]
    exact hfits (min i k)

/-- A feed with distinct ids, positive quantities, and level sums of 32 bits for some symbols. -/
structure BookedFeed (feed : List MdBody) (symbols : Set UInt32) : Prop where
  ids : (newOrderIds feed).Nodup
  positive : ∀ body ∈ feed, body.Positive
  fits : ∀ k, (MDClient.replay (feed.take k)).Fits symbols

namespace BookedFeed

variable {feed : List MdBody} {symbols : Set UInt32}

/-- The beginning of a feed. -/
theorem left {bodies : List MdBody} (h : BookedFeed (feed ++ bodies) symbols) :
    BookedFeed feed symbols where
  ids := h.ids.sublist ((List.sublist_append_left feed bodies).filterMap _)
  positive body hbody := h.positive body (List.mem_append_left _ hbody)
  fits k := by
    have hpart := h.fits (min k feed.length)
    rwa [← List.take_take, List.take_left] at hpart

theorem nodup_take (h : BookedFeed feed symbols) (k : ℕ) :
    (newOrderIds (feed.take k)).Nodup :=
  h.ids.sublist ((List.take_sublist k feed).filterMap _)

theorem follows (h : BookedFeed feed symbols) (k : ℕ) :
    (MDClient.replay (feed.take k)).Follows symbols (shownBy (feed.take k)) :=
  MDClient.follows_replay (h.nodup_take k) symbols

/-- The levels of the books of the feed are totals. -/
theorem tallied (h : BookedFeed feed symbols) (k : ℕ) :
    (MDClient.replay (feed.take k)).Tallied symbols :=
  MDClient.tallied_replay h.ids h.positive h.fits k

end BookedFeed

/-- A feed with distinct ids, positive quantities, level sums of 32 bits for some symbols, and fewer
messages than there are numbers. -/
structure WellFormedFeed (feed : List MdBody) (symbols : Set UInt32) : Prop
    extends BookedFeed feed symbols where
  length : feed.length < 2 ^ 32

theorem WellFormedFeed.left {feed bodies : List MdBody} {symbols : Set UInt32}
    (h : WellFormedFeed (feed ++ bodies) symbols) : WellFormedFeed feed symbols :=
  ⟨h.toBookedFeed.left,
    Nat.lt_of_le_of_lt (List.sublist_append_left feed bodies).length_le h.length⟩

/-- Clients with books of the same orders, whose levels are totals, agree. -/
theorem Bots.MDClient.Follows.agree {c c' : MDClient} {symbols : Set UInt32} {v : Shown}
    (h : c.Follows symbols v) (h' : c'.Follows symbols v) (ht : c.Tallied symbols)
    (ht' : c'.Tallied symbols) : c.Agree symbols c' := by
  refine ⟨fun s hs => ht.same ht' hs fun e => ?_, fun s hs e he => ?_⟩
  · rw [h.order s hs, h'.order s hs]
  · rw [h.order s hs] at he
    rw [h.routes s hs e he, h'.routes s hs e he]

section Orders

variable {os : List SnapshotOrder} {symbols : Set UInt32}

theorem newOrderIds_map_body (os : List SnapshotOrder) :
    newOrderIds (os.map SnapshotOrder.body) = os.map SnapshotOrder.orderId := by
  rw [newOrderIds, List.filterMap_map]
  exact congrFun List.filterMap_eq_map' os

/-- The orders that messages of a snapshot show. -/
theorem shownBy_map_body (hnd : (os.map SnapshotOrder.orderId).Nodup) (s : UInt32) (e : UInt64) :
    shownBy (os.map SnapshotOrder.body) s e =
      ((findKey SnapshotOrder.orderId e os).filter fun o => o.symbol = s).map SnapshotOrder.shown := by
  induction os using List.reverseRecOn with
  | nil => rfl
  | append_singleton os o ih =>
    rw [List.map_append, List.map_singleton] at hnd
    obtain ⟨hos, -, hdisjoint⟩ := List.nodup_append.mp hnd
    rw [List.map_append, List.map_singleton, shownBy_append, List.foldl_cons, List.foldl_nil,
      SnapshotOrder.body, findKey_append, findKey_cons, findKey_nil]
    simp only [Shown.after]
    rw [ih hos]
    by_cases he : e = o.orderId
    · have hnone : findKey SnapshotOrder.orderId e os = none := findKey_eq_none.mpr fun o' ho' hid =>
        hdisjoint o'.orderId (List.mem_map_of_mem ho') o.orderId (List.mem_singleton_self _)
          (hid.trans he)
      rw [hnone, if_pos he.symm, Option.none_or]
      by_cases hs : s = o.symbol
      · rw [if_pos ⟨hs, he⟩, Option.filter_some, if_pos (by simpa using hs.symm)]
        rfl
      · rw [if_neg fun hboth => hs hboth.1, Option.filter_some, if_neg (by simpa using Ne.symm hs)]
        rfl
    · rw [if_neg fun hboth => he hboth.2, if_neg fun hid => he hid.symm, Option.or_none]

/-- What fits after all orders fits after some of them. -/
theorem fits_of_orders (hnd : (os.map SnapshotOrder.orderId).Nodup)
    (hfits : (MDClient.replay (os.map SnapshotOrder.body)).Fits symbols) (k : ℕ) :
    (MDClient.replay ((os.map SnapshotOrder.body).take k)).Fits symbols := by
  induction os using List.reverseRecOn with
  | nil => simpa using hfits
  | append_singleton os o ih =>
    have hids : (newOrderIds (os.map SnapshotOrder.body ++ [o.body])).Nodup := by
      rw [← List.map_singleton, ← List.map_append, newOrderIds_map_body]
      exact hnd
    rw [List.map_append, List.map_singleton] at hnd hfits
    have hos := (List.nodup_append.mp hnd).1
    have hfollows : (MDClient.replay (os.map SnapshotOrder.body)).Follows symbols _ :=
      MDClient.follows_replay (by rwa [newOrderIds_map_body]) symbols
    -- the last order has a new id, so that it only adds to a level
    have hfewer : (MDClient.replay (os.map SnapshotOrder.body)).Fits symbols := by
      intro s hs h price
      refine Nat.lt_of_le_of_lt ?_ (hfits s hs h price)
      rw [MDClient.replay_append, List.foldl_cons, List.foldl_nil]
      have hfresh : shownBy (os.map SnapshotOrder.body) s o.orderId = none :=
        (within_shownBy _).fresh (newOrderIds_append .. ▸ hids) o.orderId rfl s
      generalize MDClient.replay (os.map SnapshotOrder.body) = c at hfollows ⊢
      rw [SnapshotOrder.body, MDClient.book_apply_newOrder]
      split_ifs with hown
      · subst hown
        rw [OrderBook.atLevel_newOrder]
        · exact Nat.le_add_right _ _
        · rw [MDClient.lookup_book, hfollows.order _ hs, hfresh]
      · exact Nat.le_refl _
    rw [List.map_append, List.map_singleton]
    rcases Nat.le_total k (os.map SnapshotOrder.body).length with hk | hk
    · rw [List.take_append_of_le_length hk]
      exact ih hos hfewer
    · rcases Nat.eq_or_lt_of_le hk with rfl | hlt
      · rw [List.take_left]
        exact hfewer
      · rw [List.take_of_length_le]
        · exact hfits
        · rw [List.length_append, List.length_singleton]
          exact hlt

end Orders

section Install

variable {r : Recovery} {feed : List MdBody} {symbols : Set UInt32}

/-- The snapshots of the client hold the orders that the feed shows of symbols 1 and 2. -/
def Bots.Recovery.Shows (r : Recovery) (feed : List MdBody) : Prop :=
  ∀ s, s = 1 ∨ s = 2 → ((r.snapshotBuffer s).map SnapshotOrder.orderId).Nodup ∧
    (∀ o ∈ r.snapshotBuffer s, o.symbol = s) ∧
      ∀ e, (findKey SnapshotOrder.orderId e (r.snapshotBuffer s)).map SnapshotOrder.shown =
        shownBy feed s e

namespace Bots.Recovery.Shows

/-- The order that the feed shows under the id of an order of the snapshots. -/
theorem shownBy_eq (h : r.Shows feed) {s : UInt32} (hs : s = 1 ∨ s = 2) {o : SnapshotOrder}
    (ho : o ∈ r.snapshotBuffer s) : shownBy feed s o.orderId = some o.shown := by
  obtain ⟨hnd, -, hshown⟩ := h s hs
  rw [← hshown, (findKey_eq_some hnd).mpr ⟨ho, rfl⟩, Option.map_some]

/-- No id is in both snapshots. -/
theorem nodup (h : r.Shows feed) (hids : (newOrderIds feed).Nodup) :
    ((r.snapshotBuffer 1 ++ r.snapshotBuffer 2).map SnapshotOrder.orderId).Nodup := by
  rw [List.map_append]
  refine List.nodup_append.mpr ⟨(h 1 (Or.inl rfl)).1, (h 2 (Or.inr rfl)).1, fun e he e' he' heq => ?_⟩
  obtain ⟨o, ho, rfl⟩ := List.mem_map.mp he
  obtain ⟨o', ho', rfl⟩ := List.mem_map.mp he'
  have hone : shownBy feed 1 o.orderId ≠ none := by
    rw [h.shownBy_eq (Or.inl rfl) ho]
    exact Option.some_ne_none _
  have htwo : shownBy feed 2 o.orderId ≠ none := by
    rw [heq, h.shownBy_eq (Or.inr rfl) ho']
    exact Option.some_ne_none _
  rw [← List.take_length (l := feed)] at hone htwo
  exact absurd (symbol_unique hids hone htwo) (by decide)

/-- The messages of the snapshots show what the feed does. -/
theorem shownBy_buffers (h : r.Shows feed) (hids : (newOrderIds feed).Nodup)
    (hothers : ∀ s ∈ symbols, ∀ e, shownBy feed s e ≠ none → s = 1 ∨ s = 2) {s : UInt32}
    (hs : s ∈ symbols) : shownBy feed s =
      shownBy ((r.snapshotBuffer 1 ++ r.snapshotBuffer 2).map SnapshotOrder.body) s := by
  -- an id is in one of the two buffers, and there it is of the buffer's symbol
  obtain ⟨-, howns₁, hshown₁⟩ := h 1 (Or.inl rfl)
  obtain ⟨-, howns₂, hshown₂⟩ := h 2 (Or.inr rfl)
  have hnd := h.nodup hids
  funext e
  rw [shownBy_map_body hnd, findKey_append]
  by_cases hone : s = 1
  · subst hone
    rw [← hshown₁]
    cases h₁ : findKey SnapshotOrder.orderId e (r.snapshotBuffer 1) with
    | some o => simp [howns₁ o (mem_of_findKey h₁).1]
    | none =>
      cases h₂ : findKey SnapshotOrder.orderId e (r.snapshotBuffer 2) with
      | none => rfl
      | some o => simp [howns₂ o (mem_of_findKey h₂).1]
  by_cases htwo : s = 2
  · subst htwo
    rw [← hshown₂]
    cases h₁ : findKey SnapshotOrder.orderId e (r.snapshotBuffer 1) with
    | none =>
      cases h₂ : findKey SnapshotOrder.orderId e (r.snapshotBuffer 2) with
      | none => rfl
      | some o => simp [howns₂ o (mem_of_findKey h₂).1]
    | some o =>
      have hnone : findKey SnapshotOrder.orderId e (r.snapshotBuffer 2) = none := by
        rw [List.map_append] at hnd
        refine findKey_eq_none.mpr fun o' ho' hid => ?_
        refine (List.nodup_append.mp hnd).2.2 e ?_ e ?_ rfl
        · exact List.mem_map.mpr ⟨o, mem_of_findKey h₁⟩
        · exact List.mem_map.mpr ⟨o', ho', hid⟩
      simp [hnone, howns₁ o (mem_of_findKey h₁).1]
  · have hnone : shownBy feed s e = none := by
      by_contra hne
      exact (hothers s hs e hne).elim hone htwo
    rw [hnone]
    cases h₁ : findKey SnapshotOrder.orderId e (r.snapshotBuffer 1) with
    | some o => simp [howns₁ o (mem_of_findKey h₁).1, Ne.symm hone]
    | none =>
      cases h₂ : findKey SnapshotOrder.orderId e (r.snapshotBuffer 2) with
      | none => rfl
      | some o => simp [howns₂ o (mem_of_findKey h₂).1, Ne.symm htwo]

/-- **The orders after the snapshots** are those of the feed. -/
theorem follows_install (h : r.Shows feed) (hids : (newOrderIds feed).Nodup)
    (hothers : ∀ s ∈ symbols, ∀ e, shownBy feed s e ≠ none → s = 1 ∨ s = 2) :
    r.install.Follows symbols (shownBy feed) := by
  have hbodies : (newOrderIds
      ((r.snapshotBuffer 1 ++ r.snapshotBuffer 2).map SnapshotOrder.body)).Nodup := by
    rw [newOrderIds_map_body]
    exact h.nodup hids
  exact (MDClient.follows_replay hbodies symbols).congr fun s hs =>
    h.shownBy_buffers hids hothers hs

/-- **The levels after the snapshots** are totals, if these have 32 bits. -/
theorem tallied_install (h : r.Shows feed) (hids : (newOrderIds feed).Nodup)
    (hpos : ∀ body ∈ feed, body.Positive) (hfits : r.install.Fits symbols) :
    r.install.Tallied symbols := by
  have hnothing : Shown.nothing.Within [] := fun _ _ h => absurd rfl h
  refine (MDClient.follows_empty symbols).tallied_foldl (MDClient.tallied_empty _) hnothing ?_
    (fun body hbody => ?_) (fits_of_orders (h.nodup hids) hfits)
  · rw [List.nil_append, newOrderIds_map_body]
    exact h.nodup hids
  · obtain ⟨o, ho, rfl⟩ := List.mem_map.mp hbody
    have hpositive : ∀ s, s = 1 ∨ s = 2 → o ∈ r.snapshotBuffer s → o.quantity ≠ 0 :=
      fun s hs hmem => shown_quantity hpos (h.shownBy_eq hs hmem)
    exact (List.mem_append.mp ho).elim (hpositive 1 (Or.inl rfl)) (hpositive 2 (Or.inr rfl))

end Bots.Recovery.Shows

/-- **The books after the snapshots**, if these show the orders of symbols 1 and 2 after some messages
of the feed, and there are no others. -/
theorem agree_install (hfeed : WellFormedFeed feed symbols) {k : ℕ}
    (hothers : ∀ s ∈ symbols, ∀ e, shownBy (feed.take k) s e ≠ none → s = 1 ∨ s = 2)
    (hbuffer : r.Shows (feed.take k)) :
    r.install.Agree symbols (MDClient.replay (feed.take k)) := by
  have hfollows := hbuffer.follows_install (hfeed.nodup_take k) hothers
  have hfits : r.install.Fits symbols := (hfeed.fits k).congr fun s hs e => by
    rw [hfollows.order s hs, (hfeed.follows k).order s hs]
  have htallied := hbuffer.tallied_install (hfeed.nodup_take k)
    (fun body hbody => hfeed.positive body (List.mem_of_mem_take hbody)) hfits
  exact hfollows.agree (hfeed.follows k) htallied (hfeed.tallied k)

end Install

/-! ## Runs -/

namespace LateJoin

variable {s t : LateJoin}

/-- The client and what it read. -/
structure Receiving (s : LateJoin) : Prop where
  live : ∀ m ∈ s.recovery.liveBuffer, m ∈ s.feed
  read : ∀ z ∈ s.read, z ∈ s.sheets
  last : ∀ z ∈ s.read.getLast?, 0 < s.snapshotNext ∧ s.sheets[s.snapshotNext - 1]? = some z
  collected : Collected s.recovery s.read

/-- A longer feed and more sheets. -/
theorem Receiving.more (h : s.Receiving) (hfeed : ∀ m ∈ s.feed, m ∈ t.feed)
    (hsheets : s.sheets <+: t.sheets) (hnext : t.snapshotNext = s.snapshotNext)
    (hrecovery : t.recovery = s.recovery) (hread : t.read = s.read) : t.Receiving := by
  refine ⟨?_, ?_, ?_, ?_⟩
  · rw [hrecovery]
    exact fun m hm => hfeed m (h.live m hm)
  · rw [hread]
    exact fun z hz => hsheets.subset (h.read z hz)
  · rw [hread, hnext]
    intro z hz
    obtain ⟨hpos, hlast⟩ := h.last z hz
    obtain ⟨more, hmore⟩ := hsheets
    obtain ⟨hlt, -⟩ := List.getElem?_eq_some_iff.mp hlast
    exact ⟨hpos, by rw [← hmore, List.getElem?_append_left hlt, hlast]⟩
  · rw [hrecovery, hread]
    exact h.collected

/-- **A pass through the client's loop.** -/
theorem Receiving.poll (h : s.Receiving) (hwritten : s.Written) (hlength : s.bodies.length < 2 ^ 32)
    {snapshot : Bool} (hen : s.Enabled (.poll snapshot)) : (s.poll snapshot).Receiving := by
  obtain ⟨hnot, hlive, hsnapshot⟩ := hen
  have hpacket : s.packets[s.liveNext]? = some s.packets[s.liveNext] := List.getElem?_eq_getElem hlive
  -- the live datagram comes first, and is one of the feed
  have hbuffer : ∀ m ∈ s.recovery.liveBuffer ++ s.packets[s.liveNext], m ∈ s.feed := by
    intro m hm
    rcases List.mem_append.mp hm with hold | hnew
    · exact h.live m hold
    · exact List.mem_flatten_of_mem (List.getElem_mem hlive) hnew
  have hcollected := h.collected.live s.packets[s.liveNext]
  unfold LateJoin.poll
  rw [hpacket, Option.getD_some]
  cases snapshot with
  | false => exact ⟨hbuffer, h.read, h.last, hcollected⟩
  | true =>
    have hlt := hsnapshot rfl
    have hsheet : s.sheets[s.snapshotNext]? = some s.sheets[s.snapshotNext] :=
      List.getElem?_eq_getElem hlt
    have hdatagram : s.writer.datagrams[s.snapshotNext]? = some s.sheets[s.snapshotNext].packet := by
      rw [← hwritten.datagrams, List.getElem?_map, hsheet]
      rfl
    have hmem : s.sheets[s.snapshotNext] ∈ s.sheets := List.getElem_mem hlt
    rw [hsheet, hdatagram]
    simp only [if_true, Recovery.receive, Option.getD_some, Option.toList_some]
    have hread := hcollected.read (hwritten.sheets _ hmem).1 hlength hnot fun z hz => ?_
    · refine ⟨?_, ?_, ?_, hread⟩
      · rw [Recovery.liveBuffer_read]
        exact hbuffer
      · intro z hz
        rcases List.mem_append.mp hz with hold | hnew
        · exact h.read z hold
        · rw [List.mem_singleton.mp hnew]
          exact hmem
      · intro z hz
        rw [List.getLast?_concat, Option.mem_some_iff] at hz
        exact ⟨Nat.succ_pos _, by rw [Nat.add_sub_cancel, hsheet, hz]⟩
    · obtain ⟨hpos, hz⟩ := h.last z hz
      obtain ⟨hlt', rfl⟩ := List.getElem?_eq_some_iff.mp hz
      refine ⟨(hwritten.sheets _ (List.getElem_mem hlt')).1.packet, ?_⟩
      have hnext := hwritten.chain.getElem (s.snapshotNext - 1) (by omega)
      simpa only [Nat.sub_add_cancel hpos] using hnext

/-- Every step keeps what was written and what was received. -/
theorem sound_step {l : JoinEvent} (hwritten : s.Written) (hreceiving : s.Receiving)
    (hids : (newOrderIds s.bodies).Nodup) (hlength : s.bodies.length < 2 ^ 32)
    (hside : s.KeepsSide l) (hen : s.Enabled l) : (s.after l).Written ∧ (s.after l).Receiving := by
  cases l with
  | publish packet =>
    refine ⟨hwritten.publish hen, hreceiving.more (fun m hm => ?_) (List.prefix_refl _) rfl rfl rfl⟩
    rw [LateJoin.feed, LateJoin.after, List.flatten_append]
    exact List.mem_append_left _ hm
  | hear =>
    refine ⟨hwritten.hear hen.2 hids hlength hside, ?_⟩
    obtain ⟨body, -, hfeed⟩ := hwritten.getElem?_feed hen.2
    refine hreceiving.more (fun m hm => ?_) ?_ ?_ ?_ ?_ <;> simp only [LateJoin.after, hfeed]
    · exact hm
    · exact List.prefix_refl _
  | startRound c =>
    exact ⟨hwritten.startRound c, hreceiving.more (fun _ h => h) (List.prefix_refl _) rfl rfl rfl⟩
  | writeSnapshot =>
    refine ⟨hwritten.writeSnapshot, ?_⟩
    change s.writeSnapshot.Receiving
    unfold LateJoin.writeSnapshot
    cases s.left with
    | nil => exact hreceiving
    | cons symbol left =>
      exact hreceiving.more (fun _ h => h) (List.prefix_append _ _) rfl rfl rfl
  | poll snapshot =>
    refine ⟨?_, hreceiving.poll hwritten hlength hen⟩
    change (s.poll snapshot).Written
    unfold LateJoin.poll
    cases snapshot with
    | false => exact ⟨hwritten.1, hwritten.2, hwritten.3, hwritten.4, hwritten.5, hwritten.6,
        hwritten.7, hwritten.8, hwritten.9, hwritten.10, hwritten.11, hwritten.12⟩
    | true => exact ⟨hwritten.1, hwritten.2, hwritten.3, hwritten.4, hwritten.5, hwritten.6,
        hwritten.7, hwritten.8, hwritten.9, hwritten.10, hwritten.11, hwritten.12⟩

/-- No step takes back what was published. -/
theorem bodies_prefix_after (s : LateJoin) (l : JoinEvent) : s.bodies <+: (s.after l).bodies := by
  cases l with
  | publish packet =>
    rw [LateJoin.bodies, LateJoin.bodies, LateJoin.feed, LateJoin.feed, LateJoin.after,
      List.flatten_append, List.map_append]
    exact List.prefix_append _ _
  | hear =>
    simp only [LateJoin.after]
    cases s.feed[s.taken]? <;> exact List.prefix_refl _
  | startRound c => exact List.prefix_refl _
  | writeSnapshot =>
    change s.bodies <+: s.writeSnapshot.bodies
    unfold LateJoin.writeSnapshot
    split <;> exact List.prefix_refl _
  | poll snapshot =>
    change s.bodies <+: (s.poll snapshot).bodies
    unfold LateJoin.poll
    cases snapshot <;> exact List.prefix_refl _

/-- **Every run** over a feed with distinct ids, fewer messages than there are numbers. -/
theorem sound_run {liveFirst snapshotFirst : ℕ} {ls : List JoinEvent}
    (h : Run (Guarded KeepsSide JoinStep) (start liveFirst snapshotFirst) ls s)
    (hids : (newOrderIds s.bodies).Nodup) (hlength : s.bodies.length < 2 ^ 32) :
    s.Written ∧ s.Receiving := by
  induction h with
  | nil =>
    refine ⟨.start _ _, ⟨?_, ?_, ?_, .start⟩⟩
    · exact fun _ h => absurd h List.not_mem_nil
    · exact fun _ h => absurd h List.not_mem_nil
    · exact fun _ h => by cases h
  | @snoc s _ _ l _ step ih =>
    obtain ⟨hside, hen, rfl⟩ := step
    obtain ⟨more, hmore⟩ := bodies_prefix_after s l
    have hbefore : (newOrderIds s.bodies).Nodup ∧ s.bodies.length < 2 ^ 32 := by
      rw [← hmore, newOrderIds_append] at hids
      rw [← hmore, List.length_append] at hlength
      exact ⟨(List.nodup_append.mp hids).1, by omega⟩
    obtain ⟨hwritten, hreceiving⟩ := ih hbefore.1 hbefore.2
    exact sound_step hwritten hreceiving hbefore.1 hbefore.2 hside hen

end LateJoin

/-- Only symbols 1 and 2 have orders at the snapshots that the client took. -/
def LateJoin.Covered (s : LateJoin) (symbols : Set UInt32) : Prop :=
  ∀ symbol, symbol = 1 ∨ symbol = 2 → ∀ x ∈ s.kept symbol, ∀ s' ∈ symbols, ∀ e,
    shownBy (s.bodies.take x.instant) s' e ≠ none → s' = 1 ∨ s' = 2

/-- The books of the symbols that a client has after the recovery. -/
theorem LateJoin.Receiving.replays {s : LateJoin} {symbols : Set UInt32} (hreceiving : s.Receiving)
    (hwritten : s.Written) (hfeed : WellFormedFeed s.bodies symbols) (hdone : s.recovery.Done)
    (hsame : s.SameOrders) (hcovered : s.Covered symbols) :
    s.recovery.finish.Replays symbols s.bodies := by
  obtain ⟨z, hz, hnumber, hlast, ⟨x, hx, hxz⟩, hwhole⟩ := hreceiving.collected.whole hdone
  have hsound : ∀ w ∈ s.read, w.Sound s.bodies := fun w hw =>
    (hwritten.sheets w (hreceiving.read w hw)).1
  have hbegun : ∀ symbol, ∀ w ∈ lastBegun symbol s.read, w ∈ s.read := fun symbol w hw =>
    List.mem_of_mem_filter (List.mem_of_getLast? hw)
  have hzsound := hsound z (List.mem_of_getLast? hz)
  -- the number of the later snapshot is that of the feed it shows
  have htag : shownBy (s.bodies.take z.instant) =
      shownBy (s.bodies.take (s.recovery.lastSnapshotSeqNum.toNat + 1)) := by
    rw [hlast]
    refine (hzsound.snapshot.tagged.resolve_left fun hzero => ?_).2
    rw [hzero, UInt32.lt_iff_toNat_lt, UInt32.toNat_zero] at hnumber
    omega
  -- the other snapshot shows what the feed shows at the later one
  have hlater : ∀ symbol, symbol = 1 ∨ symbol = 2 → ∀ w ∈ lastBegun symbol s.read,
      shownBy (s.bodies.take w.instant) symbol = shownBy (s.bodies.take z.instant) symbol := by
    obtain ⟨x₁, hx₁, -, -, hle₁⟩ := hwhole 1 (Or.inl rfl)
    obtain ⟨x₂, hx₂, -, -, hle₂⟩ := hwhole 2 (Or.inr rfl)
    obtain ⟨hone, htwo⟩ := hsame x₁ hx₁ x₂ hx₂
    rcases hzsound.snapshot.symbol with hz₁ | hz₂
    · rw [hz₁] at hx
      have hx₁z : x₁.instant = z.instant := by
        rw [← hxz, Option.some.inj (hx₁.symm.trans hx)]
      rintro symbol (rfl | rfl) w hw
      · rw [← Option.some.inj (hx₁.symm.trans hw), hx₁z]
      · rw [← Option.some.inj (hx₂.symm.trans hw), ← hx₁z, htwo (hx₁z ▸ hle₂)]
    · rw [hz₂] at hx
      have hx₂z : x₂.instant = z.instant := by
        rw [← hxz, Option.some.inj (hx₂.symm.trans hx)]
      rintro symbol (rfl | rfl) w hw
      · rw [← Option.some.inj (hx₁.symm.trans hw), ← hx₂z, hone (hx₂z ▸ hle₁)]
      · rw [← Option.some.inj (hx₂.symm.trans hw), hx₂z]
  refine Recovery.replays_finish (agree_install hfeed (fun symbol hsymbol e hne => ?_)
    fun symbol hsymbol => ?_) fun m hm => ?_
  · rw [← htag, ← hxz] at hne
    exact hcovered z.snapshot.symbol hzsound.snapshot.symbol x hx symbol hsymbol e hne
  · obtain ⟨w, hw, hown, hbuffer, -⟩ := hwhole symbol hsymbol
    have hw' := (hsound w (hbegun symbol w hw)).snapshot
    rw [hbuffer]
    refine ⟨hw'.nodup, fun o ho => (hw'.owns o ho).trans hown, fun e => ?_⟩
    rw [hw'.shown, hown, hlater symbol hsymbol w hw, htag]
  · have hmem := hreceiving.live m hm
    rw [hwritten.numbered] at hmem
    exact getElem?_of_mem_numbered hfeed.length hmem

open LateJoin in
/-- The books of the symbols that a late client has after the recovery. -/
theorem replays_recovered {liveFirst snapshotFirst : ℕ} {ls : List JoinEvent} {s : LateJoin}
    {symbols : Set UInt32}
    (h : Run (Guarded KeepsSide JoinStep) (start liveFirst snapshotFirst) ls s)
    (hfeed : WellFormedFeed s.bodies symbols) (hdone : s.recovery.Done) (hsame : s.SameOrders)
    (hcovered : s.Covered symbols) : s.recovery.finish.Replays symbols s.bodies := by
  obtain ⟨hwritten, hreceiving⟩ := sound_run h hfeed.ids hfeed.length
  exact hreceiving.replays hwritten hfeed hdone hsame hcovered

open LateJoin in
/-- **Recovery is exact** if the feed shows the same orders of each symbol at the snapshot that the
client took of it and at the other one, if that is later: the books are those of the feed up to
`last_md_seq_num`. -/
theorem recovery_exact {liveFirst snapshotFirst : ℕ} {ls : List JoinEvent} {s : LateJoin}
    (h : Run (Guarded KeepsSide JoinStep) (start liveFirst snapshotFirst) ls s)
    (hfeed : WellFormedFeed s.bodies {1, 2}) (hdone : s.recovery.Done) (hsame : s.SameOrders) :
    s.recovery.finish.Replays {1, 2} s.bodies :=
  replays_recovered h hfeed hdone hsame fun _ _ _ _ _ hs _ _ => hs

/-- Both snapshots are of one round, and live messages follow. -/
theorem recovery_exact_one_round :
    ∃ s, Run (Guarded LateJoin.KeepsSide JoinStep) (LateJoin.start 1 0)
        [.publish [.heartbeat], .publish [.newOrder 11 1 Side.buy 5 50 0],
          .publish [.newOrder 12 2 Side.sell 6 60 0], .hear, .hear, .hear, .startRound .stable,
          .writeSnapshot, .writeSnapshot, .poll true, .publish [.trade 12 2 60, .deleteOrder 11],
          .poll false, .poll true] s ∧
      s.recovery.Done ∧ s.recovery.finish.lastMdSeqNum = 4 ∧
        s.recovery.finish.Replays {1, 2} s.bodies := by
  refine ⟨_, LateJoin.run_of_enabled (by decide +kernel), by decide +kernel, by decide +kernel,
    recovery_exact (LateJoin.run_of_enabled (by decide +kernel)) ?_ (by decide +kernel) ?_⟩
  · exact ⟨⟨by decide +kernel, by decide +kernel, MDClient.fits_replay (by decide +kernel) _⟩,
      by decide +kernel⟩
  · exact LateJoin.sameOrders_of_instant (by decide +kernel)

/-- The client joins in the middle of a round: it takes the snapshot of symbol 2 from this round, and
that of symbol 1 from the next. An order of symbol 2 that came between them is lost. -/
theorem recovery_mixed :
    ∃ s, Run (Guarded LateJoin.KeepsSide JoinStep) (LateJoin.start 1 1)
        [.publish [.heartbeat], .publish [.newOrder 11 1 Side.buy 5 50 0],
          .publish [.newOrder 12 2 Side.sell 6 60 0], .hear, .hear, .hear, .startRound .stable,
          .writeSnapshot, .writeSnapshot, .publish [.newOrder 13 2 Side.sell 7 61 0],
          .publish [.heartbeat], .hear, .hear, .startRound .stable, .writeSnapshot,
          .writeSnapshot, .poll true, .poll true] s ∧
      WellFormedFeed s.bodies {1, 2} ∧ s.recovery.Done ∧
        ¬ (s.recovery.finish.client.book 2).Same
          ((MDClient.replay (s.bodies.take (s.recovery.finish.lastMdSeqNum.toNat + 1))).book 2) := by
  refine ⟨_, LateJoin.run_of_enabled (by decide +kernel), ?_, by decide +kernel, fun h => ?_⟩
  · exact ⟨⟨by decide +kernel, by decide +kernel, MDClient.fits_replay (by decide +kernel) _⟩,
      by decide +kernel⟩
  · have horder := h.orders 13
    revert horder
    decide +kernel

end Ndfex
