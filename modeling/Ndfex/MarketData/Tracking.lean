import Mathlib.Data.Multiset.Defs
import Ndfex.MarketData.ExactRecovery

/-!
# Tracking the feed

The snapshot writer between two messages of the feed. Whatever it sorted and wrote, its open orders are
those of the books of a client that took the same messages, if no message gives a side other than `BUY`
and `SELL`. What it wrote goes on with the messages behind the one that it took last.

## Main definitions

* `SnapshotWriter.Sided`: the bids are `BUY`, the asks `SELL`
* `LateJoin.Heard`: the writer and the messages that it heard
* `BookEntry`: an open order of a symbol
* `Last`: the last message that the writer took

## Main results

* `LateJoin.Heard.of_run`: every run keeps the open orders
* `LateJoin.Heard.openOrders_eq`: they are the orders of the books
* `snapshots_track_feed`: a snapshot and the messages behind its number are the whole feed
* `snapshots_before_feed`: a snapshot that was written before the first message
-/

namespace Ndfex

open Containers Transition Bots

/-- The side that a message gives to an order is `BUY` or `SELL`. -/
def MdBody.TwoSided : MdBody → Prop
  | .newOrder _ _ side _ _ _ | .modifyOrder _ side _ _ => side = Side.buy ∨ side = Side.sell
  | .heartbeat | .deleteOrder _ | .trade .. | .tradeSummary .. => True

instance : DecidablePred MdBody.TwoSided
  | .newOrder _ _ side _ _ _ | .modifyOrder _ side _ _ =>
    inferInstanceAs (Decidable (side = Side.buy ∨ side = Side.sell))
  | .heartbeat | .deleteOrder _ | .trade .. | .tradeSummary .. => inferInstanceAs (Decidable True)

namespace SnapshotWriter

variable {w w' : SnapshotWriter} {p : MdPayload}

/-! ## Sides -/

/-- The bids are `BUY`, and the asks `SELL`. -/
structure Sided (w : SnapshotWriter) : Prop where
  bids : ∀ symbol, ∀ o ∈ w.bids symbol, o.side = Side.buy
  asks : ∀ symbol, ∀ o ∈ w.asks symbol, o.side = Side.sell

namespace Sided

theorem setBids (h : w.Sided) (symbol : UInt32) (os : List SnapshotOrder)
    (hos : ∀ o ∈ os, o.side = Side.buy) : (w.setBids symbol os).Sided := by
  refine ⟨fun s o ho => ?_, h.asks⟩
  by_cases hs : s = symbol
  · subst hs
    exact hos o (by simpa [SnapshotWriter.setBids] using ho)
  · exact h.bids s o (by simpa [SnapshotWriter.setBids, hs] using ho)

theorem setAsks (h : w.Sided) (symbol : UInt32) (os : List SnapshotOrder)
    (hos : ∀ o ∈ os, o.side = Side.sell) : (w.setAsks symbol os).Sided := by
  refine ⟨h.bids, fun s o ho => ?_⟩
  by_cases hs : s = symbol
  · subst hs
    exact hos o (by simpa [SnapshotWriter.setAsks] using ho)
  · exact h.asks s o (by simpa [SnapshotWriter.setAsks, hs] using ho)

/-- An update of one order that keeps its side. -/
theorem side_atKey {os : List SnapshotOrder} {side : Side} (hos : ∀ o ∈ os, o.side = side)
    {e : UInt64} {f : SnapshotOrder → Option SnapshotOrder}
    (hf : ∀ o o', f o = some o' → o'.side = o.side) :
    ∀ o ∈ atKey SnapshotOrder.orderId e f os, o.side = side := by
  intro o ho
  rcases mem_atKey ho with hold | ⟨o', ho', -, hnew⟩
  · exact hos o hold
  · exact (hf o' o hnew).trans (hos o' ho')

/-- An order more, of the side of its list. -/
theorem side_append {os : List SnapshotOrder} {side : Side} (hos : ∀ o ∈ os, o.side = side)
    {o : SnapshotOrder} (ho : o.side = side) : ∀ o' ∈ os ++ [o], o'.side = side := by
  intro o' ho'
  rcases List.mem_append.mp ho' with hold | hnew
  · exact hos o' hold
  · rw [List.mem_singleton.mp hnew]
    exact ho

theorem newOrder (h : w.Sided) (hp : p.side = Side.buy ∨ p.side = Side.sell) :
    (w.newOrder p).Sided := by
  unfold SnapshotWriter.newOrder
  split_ifs with hknown hbuy
  · have hbids := h.setBids p.symbol _ (side_append (h.bids p.symbol) (o := order p p.symbol) hbuy)
    exact ⟨hbids.bids, hbids.asks⟩
  · have hasks := h.setAsks p.symbol _
      (side_append (h.asks p.symbol) (o := order p p.symbol) (hp.resolve_left hbuy))
    exact ⟨hasks.bids, hasks.asks⟩
  · exact h

theorem deleteOrder (h : w.Sided) : (w.deleteOrder p).Sided := by
  unfold SnapshotWriter.deleteOrder
  split
  · exact h
  · next symbol _ =>
    have hbids := h.setBids symbol ((w.bids symbol).filter fun o => o.orderId ≠ p.orderId)
      fun o ho => h.bids symbol o (List.mem_of_mem_filter ho)
    have hasks := hbids.setAsks symbol ((w.asks symbol).filter fun o => o.orderId ≠ p.orderId)
      fun o ho => h.asks symbol o (List.mem_of_mem_filter ho)
    exact ⟨hasks.bids, hasks.asks⟩

theorem modifyOrder (h : w.Sided) (hp : p.side = Side.buy ∨ p.side = Side.sell) :
    (w.modifyOrder p).Sided := by
  have hkeep : ∀ o o', modified p o = some o' → o'.side = o.side := by
    intro o o' ho
    cases ho
    rfl
  have hgone : ∀ o o' : SnapshotOrder, (fun _ => none : SnapshotOrder → Option SnapshotOrder) o =
      some o' → o'.side = o.side := fun _ _ ho => by cases ho
  unfold SnapshotWriter.modifyOrder
  split
  · exact h
  next symbol _ =>
  split_ifs with hbid hbuy hask hsell
  · exact h.setBids symbol _ (side_atKey (h.bids symbol) hkeep)
  · -- the order moves to the asks
    exact (h.setBids symbol _ (side_atKey (h.bids symbol) hgone)).setAsks symbol _
      (side_append (h.asks symbol) (hp.resolve_left hbuy))
  · exact h.setAsks symbol _ (side_atKey (h.asks symbol) hkeep)
  · exact (h.setAsks symbol _ (side_atKey (h.asks symbol) hgone)).setBids symbol _
      (side_append (h.bids symbol) (hp.resolve_right hsell))
  · exact h

theorem trade (h : w.Sided) : (w.trade p).Sided := by
  have hkeep : ∀ o o', traded p.quantity o = some o' → o'.side = o.side := by
    intro o o' ho
    unfold traded at ho
    split_ifs at ho <;> cases ho <;> rfl
  unfold SnapshotWriter.trade
  split
  · exact h
  next symbol _ =>
  split_ifs with hbid
  · exact h.setBids symbol _ (side_atKey (h.bids symbol) hkeep)
  · exact h.setAsks symbol _ (side_atKey (h.asks symbol) hkeep)

/-- **Every message** of a side `BUY` or `SELL`. -/
theorem hear (h : w.Sided) {m : MdMessage} (hm : m.body.TwoSided) : (w.hear m).Sided := by
  have hnumbered : ∀ n, { w with lastMdSeqNum := n }.Sided := fun _ => ⟨h.bids, h.asks⟩
  obtain ⟨n, body⟩ := m
  cases body with
  | heartbeat => exact hnumbered n
  | newOrder => exact (hnumbered n).newOrder hm
  | deleteOrder => exact (hnumbered n).deleteOrder
  | modifyOrder => exact (hnumbered n).modifyOrder hm
  | trade => exact (hnumbered n).trade
  | tradeSummary => exact h

theorem sort (h : w.Sided) (c : RoundChoices) : (w.sort c).Sided :=
  ⟨fun symbol o ho => h.bids symbol o ((c.sortBids_perm _).mem_iff.mp ho),
    fun symbol o ho => h.asks symbol o ((c.sortAsks_perm _).mem_iff.mp ho)⟩

/-- An order that is found in a list has its side. -/
theorem keepsSide (h : w.Sided) (p : MdPayload) : w.KeepsSide p := by
  intro _ symbol _ o ho
  rw [find, orders, findKey_append] at ho
  constructor
  · intro hbid _
    obtain ⟨o', ho'⟩ := Option.isSome_iff_exists.mp hbid
    rw [ho', Option.some_or, Option.mem_some_iff] at ho
    subst ho
    exact h.bids symbol _ (mem_of_findKey ho').1
  · intro hnone _
    rw [hnone, Option.none_or] at ho
    exact h.asks symbol o (mem_of_findKey ho).1

end Sided

end SnapshotWriter

/-! ## What the writer heard -/

/-- `SnapshotClient` puts the message on the queue. -/
def MdBody.Queued : MdBody → Prop
  | .tradeSummary .. => False
  | .heartbeat | .newOrder .. | .deleteOrder _ | .modifyOrder .. | .trade .. => True

instance : DecidablePred MdBody.Queued
  | .tradeSummary .. => inferInstanceAs (Decidable False)
  | .heartbeat | .newOrder .. | .deleteOrder _ | .modifyOrder .. | .trade .. =>
    inferInstanceAs (Decidable True)

/-- The number of the last message that was queued: the one between `before` and `after`. -/
structure Last (heard : List MdBody) (n : UInt32) (before after : List MdBody) : Prop where
  body : ∃ body, body.Queued ∧ heard = before ++ body :: after
  after : ∀ body ∈ after, ¬ body.Queued
  number : n = UInt32.ofNat before.length

/-- Trade summaries show nothing. -/
theorem foldl_after_of_not_queued {bodies : List MdBody} (h : ∀ body ∈ bodies, ¬ body.Queued)
    (v : Shown) : bodies.foldl Shown.after v = v := by
  induction bodies with
  | nil => rfl
  | cons body bodies ih =>
    have hrest := ih fun b hb => h b (List.mem_cons_of_mem _ hb)
    have hbody := h body List.mem_cons_self
    cases body with
    | tradeSummary => exact hrest
    | _ => exact absurd trivial hbody

namespace LateJoin

variable {s : LateJoin}

/-- The writer has the orders that the messages show, and the number of the last one that was queued
for it. -/
structure Heard (s : LateJoin) : Prop where
  taken : s.taken ≤ s.bodies.length
  numbered : s.feed = numberedFrom 0 s.bodies
  keeps : s.writer.Keeps (shownBy (s.bodies.take s.taken))
  symbols : s.writer.symbols = [1, 2]
  last : (∀ body ∈ s.bodies.take s.taken, ¬ body.Queued) ∧ s.writer.lastMdSeqNum = 0 ∨
    ∃ before after, Last (s.bodies.take s.taken) s.writer.lastMdSeqNum before after

namespace Heard

theorem start (liveFirst snapshotFirst : ℕ) : (LateJoin.start liveFirst snapshotFirst).Heard where
  taken := Nat.le_refl 0
  numbered := rfl
  keeps := .start
  symbols := rfl
  last := Or.inl ⟨fun _ h => absurd h List.not_mem_nil, rfl⟩

theorem publish (h : s.Heard) (packet : List MdBody) : (s.after (.publish packet)).Heard := by
  have hfeed : (s.after (.publish packet)).feed = s.feed ++ numberedFrom s.feed.length packet := by
    simp [LateJoin.feed, LateJoin.after]
  have hbodies : (s.after (.publish packet)).bodies = s.bodies ++ packet := by
    rw [LateJoin.bodies, hfeed, List.map_append, map_body_numberedFrom]
    rfl
  have htaken : (s.after (.publish packet)).taken = s.taken := rfl
  have htake : (s.bodies ++ packet).take s.taken = s.bodies.take s.taken :=
    List.take_append_of_le_length h.taken
  refine ⟨?_, ?_, ?_, h.symbols, ?_⟩
  · rw [hbodies, List.length_append]
    exact Nat.le_add_right_of_le h.taken
  · rw [hfeed, hbodies, numberedFrom_append, ← h.numbered, Nat.zero_add, Written.length_feed]
  · rw [hbodies, htaken, htake]
    exact h.keeps
  · rw [hbodies, htaken, htake]
    exact h.last

/-- The messages that the writer heard after one more. -/
theorem take_succ {body : MdBody} (hbody : s.bodies[s.taken]? = some body) :
    s.bodies.take (s.taken + 1) = s.bodies.take s.taken ++ [body] := by
  rw [List.take_add_one, hbody]
  rfl

theorem hear (h : s.Heard) (hids : (newOrderIds s.bodies).Nodup) (hside : s.KeepsSide .hear) :
    (s.after .hear).Heard := by
  simp only [LateJoin.after]
  cases hfeed : s.feed[s.taken]? with
  | none => exact h
  | some m =>
  have hm : s.bodies[s.taken]? = some m.body ∧ m.seqNum = UInt32.ofNat s.taken := by
    have hnumbered := hfeed
    rw [h.numbered, getElem?_numberedFrom, Nat.zero_add] at hnumbered
    obtain ⟨body, hbody, rfl⟩ := Option.map_eq_some_iff.mp hnumbered
    exact ⟨hbody, rfl⟩
  obtain ⟨hbody, hnumber⟩ := hm
  have hlt : s.taken < s.bodies.length := (List.getElem?_eq_some_iff.mp hbody).1
  have hlength : (s.bodies.take s.taken).length = s.taken := List.length_take_of_le h.taken
  obtain ⟨-, -, hsymbols, hlast⟩ := s.writer.hear_written m
  refine ⟨hlt, h.numbered, ?_, hsymbols.trans h.symbols, ?_⟩
  · change (s.writer.hear m).Keeps (shownBy (s.bodies.take (s.taken + 1)))
    rw [take_succ hbody, shownBy_append, List.foldl_cons, List.foldl_nil]
    refine h.keeps.hear ?_ (hside _ hfeed)
    refine (within_shownBy (s.bodies.take s.taken)).fresh ?_
    rw [← newOrderIds_append, ← take_succ hbody]
    exact hids.sublist (List.Sublist.filterMap _ (List.take_sublist _ _))
  · change (∀ body ∈ s.bodies.take (s.taken + 1), ¬ body.Queued) ∧ (s.writer.hear m).lastMdSeqNum = 0 ∨
      ∃ before after, Last (s.bodies.take (s.taken + 1)) (s.writer.hear m).lastMdSeqNum before after
    rw [take_succ hbody, hlast]
    by_cases hqueued : m.body.Queued
    · -- the message is the last one
      have hpayload : ((SnapshotClient.payload m).map MdPayload.seqNum).getD
          s.writer.lastMdSeqNum = m.seqNum := by
        obtain ⟨n, body⟩ := m
        cases body with
        | tradeSummary => exact hqueued.elim
        | _ => rfl
      refine Or.inr ⟨s.bodies.take s.taken, [], ⟨m.body, hqueued, rfl⟩, ?_, ?_⟩
      · exact fun _ h => by cases h
      · rw [hpayload, hnumber, hlength]
    · have hpayload : ((SnapshotClient.payload m).map MdPayload.seqNum).getD
          s.writer.lastMdSeqNum = s.writer.lastMdSeqNum := by
        obtain ⟨n, body⟩ := m
        cases body with
        | tradeSummary => rfl
        | _ => exact absurd trivial hqueued
      rw [hpayload]
      -- a trade summary leaves the number as it was
      rcases h.last with ⟨hnone, hzero⟩ | ⟨before, after, ⟨body, hbefore, heq⟩, hafter, hn⟩
      · refine Or.inl ⟨fun body hmem => ?_, hzero⟩
        rcases List.mem_append.mp hmem with hold | hnew
        · exact hnone body hold
        · rwa [List.mem_singleton.mp hnew]
      · refine Or.inr ⟨before, after ++ [m.body], ⟨body, hbefore, ?_⟩, fun b hb => ?_, hn⟩
        · rw [heq, List.append_assoc, List.cons_append]
        · rcases List.mem_append.mp hb with hold | hnew
          · exact hafter b hold
          · rwa [List.mem_singleton.mp hnew]

/-- What sorts and writes, or is about the client. -/
theorem same {t : LateJoin} (h : s.Heard) (hpackets : t.packets = s.packets)
    (htaken : t.taken = s.taken) (hkeeps : ∀ v, s.writer.Keeps v → t.writer.Keeps v)
    (hsymbols : t.writer.symbols = s.writer.symbols)
    (hlast : t.writer.lastMdSeqNum = s.writer.lastMdSeqNum) : t.Heard := by
  have hfeed : t.feed = s.feed := congrArg List.flatten hpackets
  have hbodies : t.bodies = s.bodies := congrArg (List.map MdMessage.body) hfeed
  refine ⟨?_, ?_, ?_, hsymbols.trans h.symbols, ?_⟩
  · rw [htaken, hbodies]
    exact h.taken
  · rw [hfeed, hbodies]
    exact h.numbered
  · rw [htaken, hbodies]
    exact hkeeps _ h.keeps
  · rw [htaken, hbodies, hlast]
    exact h.last

/-- **Every step** keeps what the writer heard. -/
theorem after (h : s.Heard) {l : JoinEvent} (hids : (newOrderIds s.bodies).Nodup)
    (hside : s.KeepsSide l) : (s.after l).Heard := by
  cases l with
  | publish packet => exact h.publish packet
  | hear => exact h.hear hids hside
  | startRound c => exact h.same rfl rfl (fun _ hkeeps => hkeeps.sort c) rfl rfl
  | writeSnapshot =>
    change s.writeSnapshot.Heard
    unfold LateJoin.writeSnapshot
    cases s.left with
    | nil => exact h
    | cons symbol left =>
      have hsame := SnapshotWriter.sameState_writeSnapshot s.writer symbol
      exact h.same rfl rfl (fun _ => hsame.keeps) hsame.symbols hsame.lastMdSeqNum
  | poll snapshot =>
    change (s.poll snapshot).Heard
    unfold LateJoin.poll
    cases snapshot <;> exact h.same rfl rfl (fun _ hkeeps => hkeeps) rfl rfl

/-- **Every run** over a feed with distinct ids. -/
theorem of_run {liveFirst snapshotFirst : ℕ} {ls : List JoinEvent}
    (h : Run (Guarded KeepsSide JoinStep) (LateJoin.start liveFirst snapshotFirst) ls s)
    (hids : (newOrderIds s.bodies).Nodup) : s.Heard := by
  induction h with
  | nil => exact .start _ _
  | @snoc s _ _ l _ step ih =>
    obtain ⟨hside, -, rfl⟩ := step
    have hbefore : (newOrderIds s.bodies).Nodup :=
      hids.sublist ((bodies_prefix_after s l).sublist.filterMap _)
    exact (ih hbefore).after hbefore hside

end Heard

/-- A feed of `BUY` and `SELL` keeps the sides in every run. -/
theorem keepsSide_of_twoSided {liveFirst snapshotFirst : ℕ} {ls : List JoinEvent}
    (h : Run JoinStep (LateJoin.start liveFirst snapshotFirst) ls s)
    (hsides : ∀ body ∈ s.bodies, body.TwoSided) :
    Run (Guarded KeepsSide JoinStep) (LateJoin.start liveFirst snapshotFirst) ls s ∧
      s.writer.Sided := by
  induction h with
  | nil => exact ⟨.nil _, fun _ _ h => absurd h List.not_mem_nil, fun _ _ h => absurd h List.not_mem_nil⟩
  | @snoc s _ _ l _ step ih =>
    obtain ⟨hen, rfl⟩ := step
    obtain ⟨hrun, hsided⟩ := ih fun body hbody =>
      hsides body ((bodies_prefix_after s l).subset hbody)
    -- an order that stays in its list has the side of the list, which is that of the message
    have hkeeps : s.KeepsSide l := by
      cases l with
      | hear => exact fun _ _ p _ => hsided.keepsSide p
      | _ => trivial
    refine ⟨.snoc hrun ⟨hkeeps, hen, rfl⟩, ?_⟩
    cases l with
    | publish packet => exact hsided
    | hear =>
      simp only [LateJoin.after] at hsides ⊢
      cases hfeed : s.feed[s.taken]? with
      | none => exact hsided
      | some m =>
        rw [hfeed] at hsides
        exact hsided.hear (hsides m.body (List.mem_map_of_mem (List.mem_of_getElem? hfeed)))
    | startRound c => exact hsided.sort c
    | writeSnapshot =>
      change s.writeSnapshot.writer.Sided
      unfold LateJoin.writeSnapshot
      cases s.left with
      | nil => exact hsided
      | cons symbol left =>
        have hsame := SnapshotWriter.sameState_writeSnapshot s.writer symbol
        refine ⟨?_, ?_⟩
        · rw [hsame.bids]
          exact hsided.bids
        · rw [hsame.asks]
          exact hsided.asks
    | poll snapshot =>
      change (s.poll snapshot).writer.Sided
      unfold LateJoin.poll
      cases snapshot <;> exact hsided

end LateJoin

/-! ## Open orders -/

/-- An open order. -/
structure BookEntry where
  orderId : UInt64
  symbol : UInt32
  side : Side
  quantity : UInt32
  price : Int32
deriving DecidableEq

/-- An order of the writer. -/
def SnapshotOrder.entry (o : SnapshotOrder) : BookEntry :=
  ⟨o.orderId, o.symbol, o.side, o.quantity, o.price⟩

/-- An order of the book of a symbol. -/
def Bots.Order.entry (o : Bots.Order) (symbol : UInt32) (e : UInt64) : BookEntry :=
  ⟨e, symbol, o.side, o.quantity, o.price⟩

/-- The open orders of a symbol. -/
def SnapshotWriter.openOrders (w : SnapshotWriter) (symbol : UInt32) : Multiset BookEntry :=
  ((w.orders symbol).map SnapshotOrder.entry : List BookEntry)

/-- The open orders of a book. -/
def Bots.MDClient.openOrders (c : MDClient) (symbol : UInt32) : Multiset BookEntry :=
  ((c.book symbol).orders.entries.map fun x => x.2.entry symbol x.1 : List BookEntry)

/-- The books that a client makes of the snapshots of the writer. -/
def SnapshotWriter.recovered (w : SnapshotWriter) : MDClient :=
  { Recovery.start with snapshotBuffer := fun symbol => (w.snapshotOf symbol).orders }.install

theorem Bots.MDClient.openOrders_congr {c c' : MDClient} {symbol : UInt32}
    (h : ∀ e, c.order symbol e = c'.order symbol e) : c.openOrders symbol = c'.openOrders symbol := by
  have hentries : (c.book symbol).orders.entries.Perm (c'.book symbol).orders.entries := by
    refine List.lookup_ext (AList.nodupKeys _) (AList.nodupKeys _) fun e o => ?_
    have he := h e
    rw [← MDClient.lookup_book, ← MDClient.lookup_book, AList.lookup, AList.lookup] at he
    rw [he]
  exact Multiset.coe_eq_coe.mpr (hentries.map _)

/-- Orders that are found under the same ids are the same. -/
theorem SnapshotWriter.openOrders_eq {w : SnapshotWriter} {c : MDClient} {symbol : UInt32}
    (hnd : ((w.orders symbol).map SnapshotOrder.orderId).Nodup)
    (howns : ∀ o ∈ w.orders symbol, o.symbol = symbol)
    (hfind : ∀ e, (w.find symbol e).map SnapshotOrder.shown = c.order symbol e) :
    w.openOrders symbol = c.openOrders symbol := by
  have hnd₁ : ((w.orders symbol).map SnapshotOrder.entry).Nodup := by
    apply List.Nodup.of_map BookEntry.orderId
    rwa [List.map_map]
  have hnd₂ : ((c.book symbol).orders.entries.map fun x => x.2.entry symbol x.1).Nodup := by
    apply List.Nodup.of_map BookEntry.orderId
    rw [List.map_map]
    exact (c.book symbol).orders.nodupKeys
  refine Multiset.coe_eq_coe.mpr ((List.perm_ext_iff_of_nodup hnd₁ hnd₂).mpr fun x => ?_)
  rw [List.mem_map, List.mem_map]
  constructor
  · rintro ⟨o, ho, rfl⟩
    have hone := hfind o.orderId
    rw [SnapshotWriter.find, (findKey_eq_some hnd).mpr ⟨ho, rfl⟩, Option.map_some,
      ← MDClient.lookup_book] at hone
    refine ⟨⟨o.orderId, o.shown⟩, AList.mem_lookup_iff.mp hone.symm, ?_⟩
    rw [SnapshotOrder.entry, howns o ho]
    rfl
  · rintro ⟨⟨e, o⟩, he, rfl⟩
    have hone := hfind e
    rw [← MDClient.lookup_book, Option.mem_def.mp (AList.mem_lookup_iff.mpr he)] at hone
    obtain ⟨o', ho', rfl⟩ := Option.map_eq_some_iff.mp hone
    obtain ⟨hmem, hid⟩ := mem_of_findKey ho'
    refine ⟨o', hmem, ?_⟩
    rw [SnapshotOrder.entry, howns o' hmem, hid]
    rfl

namespace LateJoin

variable {s : LateJoin}

/-- **The open orders** are those of the books of the messages that the writer heard. -/
theorem Heard.openOrders_eq (h : s.Heard) (hids : (newOrderIds s.bodies).Nodup) {symbol : UInt32}
    (hsymbol : symbol = 1 ∨ symbol = 2) :
    s.writer.openOrders symbol = (MDClient.replay (s.bodies.take s.taken)).openOrders symbol := by
  have hmem : symbol ∈ s.writer.symbols := by
    rw [h.symbols]
    rcases hsymbol with rfl | rfl <;> decide
  have htaken := hids.sublist ((List.take_sublist s.taken s.bodies).filterMap MdBody.newOrderId)
  refine SnapshotWriter.openOrders_eq (h.keeps.nodup symbol) (h.keeps.symbol symbol) fun e => ?_
  rw [h.keeps.shown symbol hmem]
  exact ((MDClient.follows_replay htaken Set.univ).order symbol (Set.mem_univ _) e).symm

/-- The snapshots show the orders of the messages that the writer heard. -/
theorem Heard.shows (h : s.Heard) : Recovery.Shows
    { Recovery.start with snapshotBuffer := fun symbol => (s.writer.snapshotOf symbol).orders }
      (s.bodies.take s.taken) := by
  intro symbol hsymbol
  have hmem : symbol ∈ s.writer.symbols := by
    rw [h.symbols]
    rcases hsymbol with rfl | rfl <;> decide
  exact ⟨h.keeps.nodup symbol, h.keeps.symbol symbol, h.keeps.shown symbol hmem⟩

end LateJoin

/-- The messages that have a higher number than one of them. -/
theorem filter_numberedFrom {before after : List MdBody} {body : MdBody}
    (hlength : (before ++ body :: after).length ≤ 2 ^ 32) :
    ((numberedFrom 0 (before ++ body :: after)).filter fun m =>
      UInt32.ofNat before.length < m.seqNum).map MdMessage.body = after := by
  rw [List.length_append, List.length_cons] at hlength
  have hnumber : (UInt32.ofNat before.length).toNat = before.length :=
    UInt32.toNat_ofNat_of_lt' (by omega : before.length < 2 ^ 32)
  -- the messages up to it have no higher number, those after it all have one
  have hbefore : ((numberedFrom 0 (before ++ [body])).filter fun m =>
      UInt32.ofNat before.length < m.seqNum) = [] := by
    refine List.filter_eq_nil_iff.mpr fun m hm => ?_
    obtain ⟨i, hi⟩ := List.mem_iff_getElem?.mp hm
    have hlt : i < (numberedFrom 0 (before ++ [body])).length := (List.getElem?_eq_some_iff.mp hi).1
    rw [length_numberedFrom, List.length_append, List.length_singleton] at hlt
    rw [getElem?_numberedFrom, Nat.zero_add] at hi
    obtain ⟨b, -, rfl⟩ := Option.map_eq_some_iff.mp hi
    rw [decide_eq_true_eq, UInt32.lt_iff_toNat_lt, hnumber,
      UInt32.toNat_ofNat_of_lt' (by omega : i < 2 ^ 32)]
    omega
  have hafter : ((numberedFrom (before.length + 1) after).filter fun m =>
      UInt32.ofNat before.length < m.seqNum) = numberedFrom (before.length + 1) after := by
    refine List.filter_eq_self.mpr fun m hm => ?_
    obtain ⟨i, hi⟩ := List.mem_iff_getElem?.mp hm
    have hlt : i < (numberedFrom (before.length + 1) after).length :=
      (List.getElem?_eq_some_iff.mp hi).1
    rw [length_numberedFrom] at hlt
    rw [getElem?_numberedFrom] at hi
    obtain ⟨b, -, rfl⟩ := Option.map_eq_some_iff.mp hi
    rw [decide_eq_true_eq, UInt32.lt_iff_toNat_lt, hnumber,
      UInt32.toNat_ofNat_of_lt' (by omega : before.length + 1 + i < 2 ^ 32)]
    omega
  have hsplit : before ++ body :: after = (before ++ [body]) ++ after := by simp
  rw [hsplit, numberedFrom_append, List.filter_append, hbefore, List.nil_append, Nat.zero_add,
    List.length_append, List.length_singleton, hafter, map_body_numberedFrom]

namespace LateJoin

variable {s : LateJoin} {before after : List MdBody}

/-- The orders shown before the last message, after it, and after the summaries behind it. -/
theorem Heard.shownBy_last (h : Last (s.bodies.take s.taken) s.writer.lastMdSeqNum before after) :
    ∃ body, s.bodies = before ++ body :: s.bodies.drop (before.length + 1) ∧
      shownBy (s.bodies.take s.taken) = shownBy (before ++ [body]) := by
  obtain ⟨⟨body, -, heq⟩, hafter, -⟩ := h
  refine ⟨body, ?_, ?_⟩
  · have hsplit := List.take_append_drop s.taken s.bodies
    rw [heq] at hsplit
    have hdrop : s.bodies.drop (before.length + 1) = after ++ s.bodies.drop s.taken := by
      conv_lhs => rw [← hsplit]
      rw [List.append_assoc, List.cons_append]
      simp
    rw [hdrop, ← List.cons_append, ← List.append_assoc, hsplit]
  · rw [heq, ← List.singleton_append, ← List.append_assoc, shownBy_append,
      foldl_after_of_not_queued hafter]

/-- **The snapshots and the messages behind the last one** show what the whole feed does. -/
theorem Heard.follows_recovered (h : s.Heard) (hids : (newOrderIds s.bodies).Nodup)
    (hlast : Last (s.bodies.take s.taken) s.writer.lastMdSeqNum before after) :
    ((s.bodies.drop (before.length + 1)).foldl MDClient.apply s.writer.recovered).Follows {1, 2}
      (shownBy s.bodies) := by
  obtain ⟨body, hbodies, hshown⟩ := Heard.shownBy_last hlast
  have htaken := hids.sublist ((List.take_sublist s.taken s.bodies).filterMap MdBody.newOrderId)
  have hfollows : s.writer.recovered.Follows {1, 2} (shownBy (s.bodies.take s.taken)) :=
    h.shows.follows_install htaken fun _ hs _ _ => hs
  have hrest : shownBy s.bodies = (s.bodies.drop (before.length + 1)).foldl Shown.after
      (shownBy (before ++ [body])) := by
    conv_lhs => rw [hbodies]
    rw [← List.singleton_append, ← List.append_assoc, shownBy_append]
  rw [hrest]
  rw [hshown] at hfollows
  refine hfollows.foldl (within_shownBy _) ?_
  rw [← newOrderIds_append, List.append_assoc, List.singleton_append, ← hbodies]
  exact hids

/-- **The levels, too,** if they have 32 bits all along. -/
theorem Heard.same_recovered (h : s.Heard) (hids : (newOrderIds s.bodies).Nodup)
    (hpos : ∀ body ∈ s.bodies, body.Positive)
    (hfits : ∀ k, (MDClient.replay (s.bodies.take k)).Fits {1, 2})
    (hlast : Last (s.bodies.take s.taken) s.writer.lastMdSeqNum before after) :
    ((s.bodies.drop (before.length + 1)).foldl MDClient.apply s.writer.recovered).Agree {1, 2}
      (MDClient.replay s.bodies) := by
  obtain ⟨body, hbodies, hshown⟩ := Heard.shownBy_last hlast
  have htaken := hids.sublist ((List.take_sublist s.taken s.bodies).filterMap MdBody.newOrderId)
  have hfollows : s.writer.recovered.Follows {1, 2} (shownBy (s.bodies.take s.taken)) :=
    h.shows.follows_install htaken fun _ hs _ _ => hs
  have hfeed : s.bodies.take (before.length + 1) = before ++ [body] := by
    conv_lhs => rw [hbodies]
    rw [← List.singleton_append, ← List.append_assoc, List.take_left' (by simp)]
  have hreplay : (MDClient.replay (before ++ [body])).Follows {1, 2} (shownBy (before ++ [body])) := by
    rw [← hfeed]
    exact MDClient.follows_replay
      (hids.sublist ((List.take_sublist _ s.bodies).filterMap MdBody.newOrderId)) _
  rw [hshown] at hfollows
  -- the recovered books show the orders of a part of the feed, whose levels fit
  have hinstalled : s.writer.recovered.Fits {1, 2} := by
    rw [← hfeed] at hreplay hfollows
    exact (hfits (before.length + 1)).congr fun symbol hsymbol e => by
      rw [hreplay.order symbol hsymbol]
      exact hfollows.order symbol hsymbol e
  have htallied := h.shows.tallied_install htaken
    (fun b hb => hpos b (List.mem_of_mem_take hb)) hinstalled
  have hagree : s.writer.recovered.Agree {1, 2} (MDClient.replay (before ++ [body])) := by
    refine hfollows.agree hreplay htallied ?_
    rw [← hfeed]
    exact MDClient.tallied_replay hids hpos hfits _
  have hwhole : MDClient.replay s.bodies =
      (s.bodies.drop (before.length + 1)).foldl MDClient.apply (MDClient.replay (before ++ [body])) := by
    conv_lhs => rw [hbodies]
    rw [← List.singleton_append, ← List.append_assoc, MDClient.replay_append]
  rw [hwhole]
  exact hagree.foldl _

end LateJoin

/-- **The writer tracks the feed**, and its snapshots, once it took a message, go on with the messages
that have a higher number. -/
theorem snapshots_track_feed {liveFirst snapshotFirst : ℕ} {ls : List JoinEvent} {s : LateJoin}
    (h : Run JoinStep (LateJoin.start liveFirst snapshotFirst) ls s)
    (hids : (newOrderIds s.bodies).Nodup) (hsides : ∀ body ∈ s.bodies, body.TwoSided) :
    (∀ symbol, symbol = 1 ∨ symbol = 2 → s.writer.openOrders symbol =
      (MDClient.replay (s.bodies.take s.taken)).openOrders symbol) ∧
    ((∃ body ∈ s.bodies.take s.taken, body.Queued) → ∃ before after,
      Last (s.bodies.take s.taken) s.writer.lastMdSeqNum before after ∧
      (s.bodies.length ≤ 2 ^ 32 → (s.feed.filter fun m => s.writer.lastMdSeqNum < m.seqNum).map
        MdMessage.body = s.bodies.drop (before.length + 1)) ∧
      (∀ symbol, symbol = 1 ∨ symbol = 2 →
        ((s.bodies.drop (before.length + 1)).foldl MDClient.apply
          s.writer.recovered).openOrders symbol = (MDClient.replay s.bodies).openOrders symbol) ∧
      ((∀ body ∈ s.bodies, body.Positive) →
        (∀ k, (MDClient.replay (s.bodies.take k)).Fits {1, 2}) →
        ∀ symbol, symbol = 1 ∨ symbol = 2 →
          (((s.bodies.drop (before.length + 1)).foldl MDClient.apply
            s.writer.recovered).book symbol).Same ((MDClient.replay s.bodies).book symbol))) := by
  have hheard := LateJoin.Heard.of_run (LateJoin.keepsSide_of_twoSided h hsides).1 hids
  refine ⟨fun symbol hsymbol => hheard.openOrders_eq hids hsymbol, ?_⟩
  rintro ⟨b, hb, hqueued⟩
  obtain ⟨before, after, hlast⟩ := hheard.last.resolve_left fun hnone => hnone.1 b hb hqueued
  have hfollows := hheard.follows_recovered hids hlast
  have hreplay := MDClient.follows_replay hids ({1, 2} : Set UInt32)
  refine ⟨before, after, hlast, fun hlength => ?_, fun symbol hsymbol => ?_,
    fun hpos hfits symbol hsymbol => ?_⟩
  · obtain ⟨body, hbodies, -⟩ := LateJoin.Heard.shownBy_last hlast
    rw [hbodies] at hlength
    rw [hheard.numbered, hlast.number]
    conv_lhs => rw [hbodies]
    exact filter_numberedFrom hlength
  · exact MDClient.openOrders_congr fun e =>
      (hfollows.order symbol hsymbol e).trans (hreplay.order symbol hsymbol e).symm
  · exact (hheard.same_recovered hids hpos hfits hlast).books symbol hsymbol

/-- A trade summary is the last message before the snapshots, and an order changes its side behind
them. -/
theorem snapshots_track_feed_summary :
    ∃ ls s, Run JoinStep (LateJoin.start 0 0) ls s ∧ s.bodies.length = 4 ∧ s.taken = 2 ∧
      s.writer.openOrders 1 = (MDClient.replay (s.bodies.take s.taken)).openOrders 1 ∧
      (((s.feed.filter fun m => s.writer.lastMdSeqNum < m.seqNum).map MdMessage.body).foldl
        MDClient.apply s.writer.recovered).openOrders 1 = (MDClient.replay s.bodies).openOrders 1 := by
  have hrun : Run (Guarded LateJoin.KeepsSide JoinStep) (LateJoin.start 0 0)
      [.publish [.newOrder 11 1 Side.buy 5 50 0], .hear, .startRound .stable, .writeSnapshot,
        .writeSnapshot, .publish [.tradeSummary 1 Side.sell 2 50, .trade 11 2 50], .hear,
        .publish [.modifyOrder 11 Side.sell 3 51], .startRound .stable, .writeSnapshot] _ :=
    LateJoin.run_of_enabled (by decide +kernel)
  obtain ⟨horders, hrest⟩ :=
    snapshots_track_feed hrun.of_guarded (by decide +kernel) (by decide +kernel)
  obtain ⟨before, after, -, hfilter, hrecovered, -⟩ := hrest (by decide +kernel)
  refine ⟨_, _, hrun.of_guarded, by decide +kernel, by decide +kernel, horders 1 (Or.inl rfl), ?_⟩
  rw [hfilter (by decide +kernel)]
  exact hrecovered 1 (Or.inl rfl)

/-- A snapshot of the time before the first message has the number of the first message. -/
theorem snapshots_before_feed :
    ∃ s, Run JoinStep (LateJoin.start 0 0)
        [.startRound .stable, .writeSnapshot, .publish [.newOrder 11 1 Side.buy 5 50 0],
          .writeSnapshot] s ∧
      (newOrderIds s.bodies).Nodup ∧ (∀ body ∈ s.bodies, body.TwoSided ∧ body.Positive) ∧
      (∀ z ∈ s.sheets, z.snapshot.lastMdSeqNum = 0 ∧
        z.snapshot.orders = s.writer.orders z.snapshot.symbol) ∧
      (((s.feed.filter fun m => 0 < m.seqNum).map MdMessage.body).foldl MDClient.apply
        s.writer.recovered).openOrders 1 ≠ (MDClient.replay s.bodies).openOrders 1 := by
  refine ⟨_, (LateJoin.run_of_enabled (by decide +kernel)).of_guarded, by decide +kernel,
    by decide +kernel, by decide +kernel, by decide +kernel⟩

end Ndfex
