import Mathlib.Data.List.Induction
import Ndfex.Bots.LevelTotals

/-!
# The orders that a feed shows

What the messages of a feed say about the orders at rest, without the program that reads them: an order
is announced under its symbol, and changed or taken out under its id. A client that took the feed from
its start shows these orders, as long as the feed gives no id twice.

## Main definitions

* `Shown`, `Shown.after`: the orders shown, and what a message says about them
* `shownBy feed`: the orders that a feed shows
* `newOrderIds feed`: the ids that it gives
* `Bots.MDClient.Follows`: a client shows these orders, and knows their symbols

## Main results

* `Bots.MDClient.Follows.apply`: a client follows every message
* `Bots.MDClient.follows_replay`: a client that took the whole feed
-/

namespace Ndfex

open Bots

/-- The orders shown, by symbol and id. -/
abbrev Shown : Type := UInt32 → UInt64 → Option Bots.Order

/-- The id that a message gives to an order. -/
def MdBody.newOrderId : MdBody → Option UInt64
  | .newOrder orderId .. => some orderId
  | _ => none

/-- The ids that a feed gives. -/
def newOrderIds (feed : List MdBody) : List UInt64 := feed.filterMap MdBody.newOrderId

theorem newOrderIds_append (xs ys : List MdBody) :
    newOrderIds (xs ++ ys) = newOrderIds xs ++ newOrderIds ys := List.filterMap_append

/-- The quantity that a message gives to an order is not zero. -/
def MdBody.Positive : MdBody → Prop
  | .newOrder _ _ _ quantity _ _ | .modifyOrder _ _ quantity _ => quantity ≠ 0
  | .heartbeat | .deleteOrder _ | .trade .. | .tradeSummary .. => True

instance : DecidablePred MdBody.Positive
  | .newOrder _ _ _ quantity _ _ | .modifyOrder _ _ quantity _ =>
    inferInstanceAs (Decidable (quantity ≠ 0))
  | .heartbeat | .deleteOrder _ | .trade .. | .tradeSummary .. => inferInstanceAs (Decidable True)

namespace Shown

variable {v v' : Shown} {body : MdBody} {ids : List UInt64}

/-- No orders. -/
def nothing : Shown := fun _ _ => none

/-- The orders shown after a message. -/
def after (v : Shown) : MdBody → Shown
  | .newOrder orderId symbol side quantity price _ => fun s e =>
    if s = symbol ∧ e = orderId then some ⟨side, price, quantity⟩ else v s e
  | .deleteOrder orderId => fun s e => if e = orderId then none else v s e
  | .modifyOrder orderId side quantity price => fun s e =>
    if e = orderId then (v s e).map fun _ => ⟨side, price, quantity⟩ else v s e
  | .trade orderId quantity _ => fun s e =>
    if e = orderId then (v s e).bind (OrderBook.reduce quantity) else v s e
  | .tradeSummary .. => v
  | .heartbeat => v

/-- The message gives an id that no order shown has. -/
def Fresh (v : Shown) (body : MdBody) : Prop := ∀ e ∈ body.newOrderId, ∀ s, v s e = none

/-- All orders shown have ids that were given. -/
def Within (v : Shown) (ids : List UInt64) : Prop := ∀ s e, v s e ≠ none → e ∈ ids

theorem Within.after (h : v.Within ids) (body : MdBody) :
    (v.after body).Within (ids ++ body.newOrderId.toList) := by
  intro s e hne
  cases body with
  | newOrder orderId symbol side quantity price flags =>
    simp only [Shown.after] at hne
    split_ifs at hne with hown
    · simp [MdBody.newOrderId, hown.2]
    · exact List.mem_append_left _ (h s e hne)
  | deleteOrder orderId =>
    simp only [Shown.after] at hne
    split_ifs at hne with hown
    · exact absurd rfl hne
    · exact List.mem_append_left _ (h s e hne)
  | modifyOrder orderId side quantity price =>
    refine List.mem_append_left _ (h s e fun hnone => hne ?_)
    simp only [Shown.after, hnone]
    exact ite_self _
  | trade orderId quantity price =>
    refine List.mem_append_left _ (h s e fun hnone => hne ?_)
    simp only [Shown.after, hnone]
    exact ite_self _
  | tradeSummary symbol side quantity price => exact List.mem_append_left _ (h s e hne)
  | heartbeat => exact List.mem_append_left _ (h s e hne)

theorem Within.foldl (h : v.Within ids) (bodies : List MdBody) :
    (bodies.foldl Shown.after v).Within (ids ++ newOrderIds bodies) := by
  induction bodies generalizing v ids with
  | nil => simpa [newOrderIds] using h
  | cons body bodies ih =>
    have hrest := ih (h.after body)
    have hids : newOrderIds (body :: bodies) = body.newOrderId.toList ++ newOrderIds bodies := by
      cases hid : body.newOrderId with
      | none => exact List.filterMap_cons_none hid
      | some e => exact List.filterMap_cons_some hid
    rwa [hids, ← List.append_assoc]

/-- A message gives a fresh id, if the feed gives no id twice. -/
theorem Within.fresh (h : v.Within ids) (hnd : (ids ++ newOrderIds [body]).Nodup) :
    v.Fresh body := by
  intro e he s
  by_contra hne
  have hnew : e ∈ newOrderIds [body] := by simpa [newOrderIds] using he
  exact (List.nodup_append.mp hnd).2.2 e (h s e hne) e hnew rfl

end Shown

/-- The orders that a feed shows. -/
def shownBy (feed : List MdBody) : Shown := feed.foldl Shown.after Shown.nothing

theorem shownBy_append (feed bodies : List MdBody) :
    shownBy (feed ++ bodies) = bodies.foldl Shown.after (shownBy feed) := List.foldl_append

theorem within_shownBy (feed : List MdBody) : (shownBy feed).Within (newOrderIds feed) := by
  have hnothing : Shown.nothing.Within [] := fun _ _ h => absurd rfl h
  exact hnothing.foldl feed

/-- An order that is shown was announced under its symbol. -/
theorem exists_newOrder_of_shown {feed : List MdBody} {s : UInt32} {e : UInt64}
    (h : shownBy feed s e ≠ none) :
    ∃ side quantity price flags, MdBody.newOrder e s side quantity price flags ∈ feed := by
  induction feed using List.reverseRecOn with
  | nil => exact absurd rfl h
  | append_singleton feed body ih =>
    rw [shownBy_append, List.foldl_cons, List.foldl_nil] at h
    -- only an announcement has an order shown that was not before
    have hold : shownBy feed s e ≠ none →
        ∃ side quantity price flags, MdBody.newOrder e s side quantity price flags ∈
          feed ++ [body] := by
      intro hshown
      obtain ⟨side, quantity, price, flags, hmem⟩ := ih hshown
      exact ⟨side, quantity, price, flags, List.mem_append_left _ hmem⟩
    cases body with
    | newOrder orderId symbol side quantity price flags =>
      simp only [Shown.after] at h
      split_ifs at h with hown
      · rw [hown.1, hown.2]
        exact ⟨side, quantity, price, flags, List.mem_append_right _ (List.mem_singleton_self _)⟩
      · exact hold h
    | deleteOrder orderId =>
      simp only [Shown.after] at h
      split_ifs at h
      · exact absurd rfl h
      · exact hold h
    | modifyOrder orderId side quantity price =>
      refine hold fun hnone => h ?_
      simp only [Shown.after, hnone]
      exact ite_self _
    | trade orderId quantity price =>
      refine hold fun hnone => h ?_
      simp only [Shown.after, hnone]
      exact ite_self _
    | tradeSummary symbol side quantity price => exact hold h
    | heartbeat => exact hold h

/-- An id that is given once is given by one message. -/
theorem eq_of_newOrderId {feed : List MdBody} (hnd : (newOrderIds feed).Nodup) {b b' : MdBody}
    (hb : b ∈ feed) (hb' : b' ∈ feed) {e : UInt64} (he : b.newOrderId = some e)
    (he' : b'.newOrderId = some e) : b = b' := by
  induction feed with
  | nil => cases hb
  | cons body feed ih =>
    have hnot : ∀ c ∈ feed, c.newOrderId = some e → e ∈ newOrderIds feed := fun c hc hid =>
      List.mem_filterMap.mpr ⟨c, hc, hid⟩
    -- the message gives the id, or a later one does, and not both
    have hhead : body.newOrderId = some e → e ∉ newOrderIds feed := by
      intro hid
      rw [newOrderIds, List.filterMap_cons_some hid] at hnd
      exact (List.nodup_cons.mp hnd).1
    have hrest : (newOrderIds feed).Nodup := by
      cases hid : body.newOrderId with
      | none => rwa [newOrderIds, List.filterMap_cons_none hid] at hnd
      | some e' =>
        rw [newOrderIds, List.filterMap_cons_some hid] at hnd
        exact (List.nodup_cons.mp hnd).2
    rcases List.mem_cons.mp hb with rfl | hin
    · rcases List.mem_cons.mp hb' with rfl | hin'
      · rfl
      · exact absurd (hnot b' hin' he') (hhead he)
    · rcases List.mem_cons.mp hb' with rfl | hin'
      · exact absurd (hnot b hin he) (hhead he')
      · exact ih hrest hin hin'

/-- **An id belongs to one symbol**, in all of the feed. -/
theorem symbol_unique {feed : List MdBody} (hnd : (newOrderIds feed).Nodup) {i j : ℕ}
    {s s' : UInt32} {e : UInt64} (h : shownBy (feed.take i) s e ≠ none)
    (h' : shownBy (feed.take j) s' e ≠ none) : s = s' := by
  obtain ⟨side, quantity, price, flags, hmem⟩ := exists_newOrder_of_shown h
  obtain ⟨side', quantity', price', flags', hmem'⟩ := exists_newOrder_of_shown h'
  have hsame := eq_of_newOrderId hnd (List.mem_of_mem_take hmem) (List.mem_of_mem_take hmem') rfl rfl
  injection hsame

/-- The orders shown are not empty, if no message gives the quantity zero. -/
theorem shown_quantity {feed : List MdBody} (hpos : ∀ body ∈ feed, body.Positive) {s : UInt32}
    {e : UInt64} {o : Bots.Order} (h : shownBy feed s e = some o) : o.quantity ≠ 0 := by
  induction feed using List.reverseRecOn generalizing o with
  | nil => cases h
  | append_singleton feed body ih =>
    have hlast := hpos body (by simp)
    have hold : ∀ {o}, shownBy feed s e = some o → o.quantity ≠ 0 :=
      ih fun b hb => hpos b (List.mem_append_left _ hb)
    rw [shownBy_append, List.foldl_cons, List.foldl_nil] at h
    cases body with
    | newOrder orderId symbol side quantity price flags =>
      simp only [Shown.after] at h
      split_ifs at h
      · rw [← Option.some.inj h]
        exact hlast
      · exact hold h
    | deleteOrder orderId =>
      simp only [Shown.after] at h
      split_ifs at h
      exact hold h
    | modifyOrder orderId side quantity price =>
      simp only [Shown.after] at h
      split_ifs at h
      · obtain ⟨_, -, rfl⟩ := Option.map_eq_some_iff.mp h
        exact hlast
      · exact hold h
    | trade orderId quantity price =>
      simp only [Shown.after] at h
      split_ifs at h
      · obtain ⟨o', ho', hreduced⟩ := Option.bind_eq_some_iff.mp h
        -- a trade leaves the order, or takes it, or leaves a quantity of it
        unfold OrderBook.reduce at hreduced
        split_ifs at hreduced with hless hused
        · rw [← Option.some.inj hreduced]
          exact hold ho'
        · rwa [← Option.some.inj hreduced]
      · exact hold h
    | tradeSummary symbol side quantity price => exact hold h
    | heartbeat => exact hold h

namespace Bots.MDClient

variable {c : MDClient} {symbols : Set UInt32} {v v' : Shown} {body : MdBody}

/-- The client shows the orders of some symbols, and knows the symbol of each. -/
structure Follows (c : MDClient) (symbols : Set UInt32) (v : Shown) : Prop where
  order : ∀ s ∈ symbols, ∀ e, c.order s e = v s e
  routes : ∀ s ∈ symbols, ∀ e, v s e ≠ none → c.orderToSymbol.lookup e = some s

theorem follows_empty (symbols : Set UInt32) : empty.Follows symbols Shown.nothing :=
  ⟨fun _ _ _ => rfl, fun _ _ _ h => absurd rfl h⟩

/-- Only the orders of these symbols matter. -/
theorem Follows.congr (h : c.Follows symbols v) (hv : ∀ s ∈ symbols, v' s = v s) :
    c.Follows symbols v' := by
  refine ⟨fun s hs e => ?_, fun s hs e he => ?_⟩
  · rw [hv s hs]
    exact h.order s hs e
  · rw [hv s hs] at he
    exact h.routes s hs e he

/-- **A message about an order** that is shown, or about none. -/
theorem Follows.change (h : c.Follows symbols v) {orderId : UInt64} {f : OrderBook → OrderBook}
    {g : Option Order → Option Order} {c' : MDClient} (hnone : g none = none)
    (hf : ∀ b e', (f b).orders.lookup e' =
      if e' = orderId then g (b.orders.lookup orderId) else b.orders.lookup e')
    (hc' : c' = (c.symbolOf orderId).2.onBook (c.symbolOf orderId).1 f) :
    c'.Follows symbols fun s e => if e = orderId then g (v s e) else v s e := by
  subst hc'
  have hbooks : (c.symbolOf orderId).2.symbolToOrderBook = c.symbolToOrderBook := by
    unfold symbolOf
    split <;> rfl
  have horder : ∀ s e, (c.symbolOf orderId).2.order s e = c.order s e := by
    intro s e
    rw [MDClient.order, hbooks, MDClient.order]
  have hroutes : ∀ s ∈ symbols, ∀ e, v s e ≠ none →
      (c.symbolOf orderId).2.orderToSymbol.lookup e = some s := by
    intro s hs e he
    have hold := h.routes s hs e he
    unfold symbolOf
    split
    · exact hold
    · next hunknown =>
      have hne : e ≠ orderId := by
        rintro rfl
        rw [hunknown] at hold
        cases hold
      exact (AList.lookup_insert_ne hne).trans hold
  have hsame : ∀ symbol, ((c.symbolOf orderId).2.onBook symbol f).orderToSymbol =
      (c.symbolOf orderId).2.orderToSymbol := by
    intro symbol
    unfold onBook
    split <;> rfl
  refine ⟨fun s hs e => ?_, fun s hs e hne => ?_⟩
  · rw [order_onBook hnone hf, horder, horder]
    by_cases he : e = orderId
    · subst he
      rw [if_pos rfl]
      by_cases hown : s = (c.symbolOf e).1
      · rw [if_pos ⟨hown, rfl⟩, ← hown, h.order s hs]
      · rw [if_neg fun hboth => hown hboth.1, h.order s hs]
        -- under another symbol than its own there is no order
        cases hv : v s e with
        | none => exact hnone.symm
        | some o =>
          have hroute := h.routes s hs e (by rw [hv]; exact Option.some_ne_none o)
          exact absurd (by simp [symbolOf, hroute]) hown
    · rw [if_neg fun hown => he hown.2, if_neg he, h.order s hs]
  · rw [hsame]
    refine hroutes s hs e fun hv => hne ?_
    rw [hv, hnone, ite_self]

/-- **Every message** that gives no id of an order shown. -/
theorem Follows.apply (h : c.Follows symbols v) (hfresh : v.Fresh body) :
    (c.apply body).Follows symbols (v.after body) := by
  cases body with
  | newOrder orderId symbol side quantity price flags =>
    have hnone := hfresh orderId rfl
    refine ⟨fun s hs e => ?_, fun s hs e hne => ?_⟩
    · rw [order_apply_newOrder, h.order s hs]
      simp only [Shown.after]
      split_ifs with hown
      · rw [← hown.1, h.order s hs, hnone, Option.getD_none]
      · rfl
    · simp only [Shown.after] at hne
      by_cases he : e = orderId
      · subst he
        by_cases hown : s = symbol
        · rw [hown]
          exact AList.lookup_insert _
        · rw [if_neg fun hboth => hown hboth.1] at hne
          exact absurd (hnone s) hne
      · rw [if_neg fun hown => he hown.2] at hne
        exact (AList.lookup_insert_ne he).trans (h.routes s hs e hne)
  | deleteOrder orderId =>
    exact h.change (g := fun _ => none) rfl (fun b e => b.lookup_deleteOrder orderId e) rfl
  | modifyOrder orderId side quantity price =>
    exact h.change (g := Option.map fun _ => ⟨side, price, quantity⟩) rfl
      (fun b e => b.lookup_modifyOrder orderId e side quantity price) rfl
  | trade orderId quantity price =>
    have hshown := h.change (g := fun o => o.bind (OrderBook.reduce quantity)) rfl
      (fun b e => b.lookup_orderTrade orderId e quantity) rfl
    cases hroute : c.orderToSymbol.lookup orderId with
    | none =>
      -- a trade of an unknown order enters no symbol for it
      simp only [MDClient.apply, hroute]
      refine h.congr fun s hs => ?_
      have hv : v s orderId = none := by
        by_contra hne
        rw [h.routes s hs orderId hne] at hroute
        cases hroute
      funext e
      simp only [Shown.after]
      split_ifs with he
      · rw [he, hv]
        rfl
      · rfl
    | some symbol =>
      simp only [symbolOf, hroute] at hshown
      simp only [MDClient.apply, hroute]
      exact hshown
  | tradeSummary symbol side quantity price => exact h
  | heartbeat => exact h

/-- **A run of messages** that gives no id twice, nor one that was given. -/
theorem Follows.foldl {ids : List UInt64} {bodies : List MdBody} (h : c.Follows symbols v)
    (hv : v.Within ids) (hnd : (ids ++ newOrderIds bodies).Nodup) :
    (bodies.foldl MDClient.apply c).Follows symbols (bodies.foldl Shown.after v) := by
  induction bodies using List.reverseRecOn with
  | nil => exact h
  | append_singleton bodies body ih =>
    rw [newOrderIds_append, ← List.append_assoc] at hnd
    rw [List.foldl_append, List.foldl_append]
    exact (ih (List.nodup_append.mp hnd).1).apply ((hv.foldl bodies).fresh hnd)

/-- **A client that took the feed** from its start shows the feed's orders. -/
theorem follows_replay {feed : List MdBody} (hnd : (newOrderIds feed).Nodup)
    (symbols : Set UInt32) : (feed.foldl MDClient.apply empty).Follows symbols (shownBy feed) := by
  have hnothing : Shown.nothing.Within [] := fun _ _ h => absurd rfl h
  refine (follows_empty symbols).foldl hnothing ?_
  rwa [List.nil_append]

/-! #### Levels -/

/-- The levels are kept by a message of a positive quantity, under a fresh id. -/
theorem Follows.tallied_apply (h : c.Follows symbols v) (ht : c.Tallied symbols)
    (hfresh : v.Fresh body) (hpos : body.Positive) (hfits : (c.apply body).Fits symbols) :
    (c.apply body).Tallied symbols := by
  cases body with
  | newOrder orderId symbol side quantity price flags =>
    intro s hs
    have hlevels := hfits s hs
    rw [book_apply_newOrder] at hlevels ⊢
    split_ifs at hlevels ⊢ with hown
    · subst hown
      refine (ht s hs).newOrder hpos ?_ (hlevels _ _)
      rw [lookup_book, h.order s hs, hfresh orderId rfl]
    · exact ht s hs
  | deleteOrder orderId =>
    have hrouted : (c.symbolOf orderId).2.Tallied symbols := fun s hs => by
      rw [book_symbolOf]
      exact ht s hs
    exact hrouted.onBook rfl fun hs => (hrouted _ hs).deleteOrder orderId
  | modifyOrder orderId side quantity price =>
    have hrouted : (c.symbolOf orderId).2.Tallied symbols := fun s hs => by
      rw [book_symbolOf]
      exact ht s hs
    -- the level that the order comes to is the one whose total has to fit
    have happly : c.apply (.modifyOrder orderId side quantity price) =
        (c.symbolOf orderId).2.onBook (c.symbolOf orderId).1
          fun b => b.modifyOrder orderId side quantity price := rfl
    rw [happly] at hfits ⊢
    generalize c.symbolOf orderId = routed at hrouted hfits ⊢
    refine hrouted.onBook rfl fun hs => (hrouted _ hs).modifyOrder hpos ?_
    have hlevels := hfits _ hs side.bookSide price
    rwa [book_onBook rfl, if_pos rfl] at hlevels
  | trade orderId quantity price =>
    simp only [MDClient.apply] at hfits ⊢
    cases c.orderToSymbol.lookup orderId with
    | none => exact ht
    | some symbol => exact ht.onBook rfl fun hs => (ht _ hs).orderTrade orderId quantity
  | tradeSummary symbol side quantity price => exact ht
  | heartbeat => exact ht

/-- **A run of messages** whose totals have 32 bits all along. -/
theorem Follows.tallied_foldl {ids : List UInt64} {bodies : List MdBody} (h : c.Follows symbols v)
    (ht : c.Tallied symbols) (hv : v.Within ids) (hnd : (ids ++ newOrderIds bodies).Nodup)
    (hpos : ∀ body ∈ bodies, body.Positive)
    (hfits : ∀ k, ((bodies.take k).foldl MDClient.apply c).Fits symbols) :
    (bodies.foldl MDClient.apply c).Tallied symbols := by
  induction bodies using List.reverseRecOn with
  | nil => exact ht
  | append_singleton bodies body ih =>
    rw [newOrderIds_append, ← List.append_assoc] at hnd
    have hnd' := (List.nodup_append.mp hnd).1
    have hall := hfits (bodies ++ [body]).length
    rw [List.take_length, List.foldl_append] at hall
    rw [List.foldl_append]
    refine (h.foldl hv hnd').tallied_apply (ih hnd' (fun b hb => hpos b (by simp [hb])) fun k => ?_)
      ((hv.foldl bodies).fresh hnd) (hpos body (by simp)) hall
    rcases Nat.le_total k bodies.length with hk | hk
    · have hprefix := hfits k
      rwa [List.take_append_of_le_length hk] at hprefix
    · have hprefix := hfits bodies.length
      rwa [List.take_left, ← List.take_of_length_le hk] at hprefix

end Bots.MDClient

end Ndfex
