import Mathlib.Data.List.Dedup
import Ndfex.MatchingEngine.LadderRepresentation

/-!
# What the private methods do to the queues

The writes of the ladder's private methods, on the queues it holds: `handle_delete_order` takes a
slot out of its queue, a partial fill or a change of quantity writes to an order in its place, and
a level that has lost its last order is erased.

## Main definitions

* `OrderLadder.AgreeOff L q L' q' h p`: two ladders list the same orders except in one queue

## Main results

* `OrderLadder.Linked.handleDeleteOrder`: deleting an order
* `OrderLadder.Linked.write`: changing an order in its place
* `OrderLadder.Linked.setLevels_erase`: erasing an empty level
-/

namespace Ndfex

open Containers Transition

/-! ## Writes to the pool -/

namespace OrderPool

theorem slots_write (p : OrderPool) (s s' : Slot) (f : Order → Order) :
    (p.write s f).slots s' = if s' = s then f (p.slots s) else p.slots s' := by
  simp only [write, Function.update_apply]

theorem slots_writeThrough (p : OrderPool) (a : Option Slot) (s : Slot) (f : Order → Order) :
    (p.writeThrough a f).slots s = if a = some s then f (p.slots s) else p.slots s := by
  cases a with
  | none => simp [writeThrough]
  | some a =>
    simp only [writeThrough, slots_write, Option.some.injEq, eq_comm (a := a)]
    split_ifs with h
    · rw [h]
    · rfl

@[simp] theorem blocks_writeThrough (p : OrderPool) (a : Option Slot) (f : Order → Order) :
    (p.writeThrough a f).blocks = p.blocks := by cases a <;> rfl

@[simp] theorem freeList_writeThrough (p : OrderPool) (a : Option Slot) (f : Order → Order) :
    (p.writeThrough a f).freeList = p.freeList := by cases a <;> rfl

end OrderPool

/-! ## The queues without a slot -/

namespace Queues

variable {q : Queues}

theorem remove_of_not_mem {s : Slot} {h : BookSide} {p : Int32} (hs : s ∉ q h p) :
    q.remove s h p = q h p := by
  refine List.filter_eq_self.mpr fun s' hs' => ?_
  have hne : s' ≠ s := fun he => hs (he ▸ hs')
  simpa using hne

theorem remove_eq {s : Slot} {h : BookSide} {p : Int32} {pre post : List Slot}
    (hq : q h p = pre ++ s :: post) (hnd : (q h p).Nodup) : q.remove s h p = pre ++ post := by
  rw [hq] at hnd
  obtain ⟨hpre, hpost, hdisj⟩ := List.nodup_append.mp hnd
  have hs : s ∉ pre := fun hs => hdisj s hs s (by simp) rfl
  have hs' : s ∉ post := (List.nodup_cons.mp hpost).1
  have keep : ∀ xs : List Slot, s ∉ xs → xs.filter (· ≠ s) = xs := fun xs hx =>
    List.filter_eq_self.mpr fun s' hs' => by
      have hne : s' ≠ s := fun he => hx (he ▸ hs')
      simpa using hne
  simp only [remove, hq, List.filter_append, List.filter_cons]
  rw [keep pre hs, keep post hs']
  simp

theorem mem_remove {s s' : Slot} {h : BookSide} {p : Int32} :
    s' ∈ q.remove s h p ↔ s' ∈ q h p ∧ s' ≠ s := by
  simp [remove]

theorem holds_remove {s s' : Slot} : (q.remove s).Holds s' ↔ q.Holds s' ∧ s' ≠ s := by
  simp only [Holds, mem_remove]
  constructor
  · rintro ⟨h, p, hs, hne⟩
    exact ⟨⟨h, p, hs⟩, hne⟩
  · rintro ⟨⟨h, p, hs⟩, hne⟩
    exact ⟨h, p, hs, hne⟩

theorem add_self (h : BookSide) (p : Int32) (s : Slot) : q.add h p s h p = q h p ++ [s] := by
  simp [add]

theorem add_of_ne {h h' : BookSide} {p p' : Int32} (hne : ¬ (h' = h ∧ p' = p)) (s : Slot) :
    q.add h p s h' p' = q h' p' := by
  by_cases hh : h' = h
  · subst hh
    have hp : p' ≠ p := fun hp => hne ⟨rfl, hp⟩
    simp [add, Function.update_of_ne hp]
  · simp [add, Function.update_of_ne hh]

theorem mem_add {h h' : BookSide} {p p' : Int32} {s s' : Slot} :
    s' ∈ q.add h p s h' p' ↔ s' ∈ q h' p' ∨ (h' = h ∧ p' = p ∧ s' = s) := by
  by_cases hne : h' = h ∧ p' = p
  · obtain ⟨rfl, rfl⟩ := hne
    simp [add_self]
  · rw [add_of_ne hne]
    refine ⟨Or.inl, fun hs => hs.resolve_right fun ⟨hh, hp, _⟩ => hne ⟨hh, hp⟩⟩

theorem holds_add {h : BookSide} {p : Int32} {s s' : Slot} :
    (q.add h p s).Holds s' ↔ q.Holds s' ∨ s' = s := by
  simp only [Holds, mem_add]
  constructor
  · rintro ⟨h', p', hs | ⟨-, -, rfl⟩⟩
    · exact Or.inl ⟨h', p', hs⟩
    · exact Or.inr rfl
  · rintro (⟨h', p', hs⟩ | rfl)
    · exact ⟨h', p', Or.inl hs⟩
    · exact ⟨h, p, Or.inr ⟨rfl, rfl, rfl⟩⟩

end Queues

namespace OrderLadder

variable {L L' L'' : OrderLadder} {q q' q'' : Queues} {h : BookSide} {p : Int32}

/-! ## Deleting an order -/

/-- The ladder after the writes of `handle_delete_order`. -/
def unlink (L : OrderLadder) (h : BookSide) (orderId : UInt64) (slot : Slot)
    (lvl : PriceLevel) : OrderLadder :=
  let order := L.order slot
  let L' := L.setLevels h ((L.levels h).insert order.price
    ⟨if lvl.head = some slot then order.next else lvl.head,
      if lvl.tail = some slot then order.prev else lvl.tail⟩)
  { L' with
    orders := L.orders.erase orderId
    orderPool :=
      ((L.orderPool.writeThrough order.prev fun o => { o with next := order.next }).writeThrough
        order.next fun o => { o with prev := order.prev }).deallocate slot }

theorem yields_handleDeleteOrder {slot : Slot} {orderId : UInt64} {lvl : PriceLevel}
    (hl : L.orders.lookup orderId = some slot)
    (hlvl : (L.levels h).find? (L.order slot).price = some lvl) {Q : OrderLadder → Prop}
    (hQ : Q (L.unlink h orderId slot lvl)) :
    Yields (handleDeleteOrder h orderId) L (.ok ()) [] Q := by
  refine ⟨_, fun before => ?_, hQ⟩
  simp only [handleDeleteOrder, ladder, updatePool, update, Logged.current, Logged.update, bind,
    EStateM.bind, hl, hlvl, finish, List.append_nil, unlink]
  cases h <;> rfl

section Unlink

variable (h : BookSide) (orderId : UInt64) (slot : Slot) (lvl : PriceLevel)

theorem find?_unlink_self :
    ((L.unlink h orderId slot lvl).levels h).find? (L.order slot).price =
      some ⟨if lvl.head = some slot then (L.order slot).next else lvl.head,
        if lvl.tail = some slot then (L.order slot).prev else lvl.tail⟩ := by
  cases h <;> exact (OrderedMap.find?_insert ..).trans (if_pos rfl)

theorem find?_unlink_of_ne {h' : BookSide} {p' : Int32}
    (hne : ¬ (h' = h ∧ p' = (L.order slot).price)) :
    ((L.unlink h orderId slot lvl).levels h').find? p' = (L.levels h').find? p' := by
  by_cases hh : h' = h
  · subst hh
    have hp : p' ≠ (L.order slot).price := fun hp => hne ⟨rfl, hp⟩
    cases h' <;> exact (OrderedMap.find?_insert ..).trans (if_neg hp)
  · cases h <;> cases h' <;> first | rfl | exact absurd rfl hh

theorem keys_unlink (hmem : (L.order slot).price ∈ (L.levels h).keys) (h' : BookSide) :
    ((L.unlink h orderId slot lvl).levels h').keys = (L.levels h').keys := by
  have hkeys := insertKey_of_mem (L.levels h).keys_sorted hmem
  cases h <;> cases h' <;> first | rfl | exact (OrderedMap.keys_insert ..).trans hkeys

theorem resting_unlink (s : Slot) :
    ((L.unlink h orderId slot lvl).order s).resting = (L.order s).resting := by
  simp only [order, unlink, OrderPool.slots_deallocate, Function.update_apply,
    OrderPool.slots_writeThrough]
  split_ifs <;> simp_all [Order.resting]

theorem next_unlink {s : Slot} (hs : s ≠ slot) :
    ((L.unlink h orderId slot lvl).order s).next =
      if (L.order slot).prev = some s then (L.order slot).next else (L.order s).next := by
  simp only [order, unlink, OrderPool.slots_deallocate, Function.update_apply,
    OrderPool.slots_writeThrough, if_neg hs]
  split_ifs <;> simp_all

theorem prev_unlink {s : Slot} (hs : s ≠ slot) :
    ((L.unlink h orderId slot lvl).order s).prev =
      if (L.order slot).next = some s then (L.order slot).prev else (L.order s).prev := by
  simp only [order, unlink, OrderPool.slots_deallocate, Function.update_apply,
    OrderPool.slots_writeThrough, if_neg hs]
  split_ifs <;> simp_all

@[simp] theorem orders_unlink :
    (L.unlink h orderId slot lvl).orders = L.orders.erase orderId := by cases h <;> rfl

@[simp] theorem symbol_unlink : (L.unlink h orderId slot lvl).symbol = L.symbol := by
  cases h <;> rfl

end Unlink

/-- Orders in queues keep their price and side when nothing visible of them changes. -/
theorem Linked.filed_of_resting (hL : L.Linked q)
    (hrest : ∀ s, (L'.order s).resting = (L.order s).resting) (hsub : ∀ h p, q' h p ⊆ q h p) :
    ∀ h p, ∀ s ∈ q' h p, (L'.order s).price = p ∧ (L'.order s).side.bookSide = h := by
  intro h p s hs
  obtain ⟨hp, hside⟩ := hL.filed h p s (hsub h p hs)
  have hprice : (L'.order s).price = (L.order s).price := congrArg RestingOrder.price (hrest s)
  have hside' : (L'.order s).side = (L.order s).side := congrArg RestingOrder.side (hrest s)
  rw [hprice, hside']
  exact ⟨hp, hside⟩

/-- **Taking a slot out of its queue** keeps the structures linked. -/
theorem Linked.unlink {slot : Slot} {lvl : PriceLevel} (hL : L.Linked q)
    (hs : slot ∈ q h (L.order slot).price)
    (hlvl : (L.levels h).find? (L.order slot).price = some lvl) :
    (L.unlink h (L.order slot).orderId slot lvl).Linked (q.remove slot) := by
  set L' := L.unlink h (L.order slot).orderId slot lvl with hL'
  have hrest : ∀ s, (L'.order s).resting = (L.order s).resting := resting_unlink h _ slot lvl
  have hid : ∀ s, (L'.order s).orderId = (L.order s).orderId := fun s =>
    congrArg RestingOrder.orderId (hrest s)
  have hmem : (L.order slot).price ∈ (L.levels h).keys :=
    OrderedMap.find?_isSome.mp (by rw [hlvl]; rfl)
  obtain ⟨pre, post, hsplit⟩ := List.append_of_mem hs
  have hnd := hL.nodup h (L.order slot).price
  have hthread := hL.threaded h (L.order slot).price
  have hremove := Queues.remove_eq hsplit hnd
  rw [hsplit] at hnd hthread
  obtain ⟨hprev, hnext⟩ := hthread.links_of_middle
  have hother : ∀ h' p', ¬ (h' = h ∧ p' = (L.order slot).price) → slot ∉ q h' p' :=
    fun h' p' hne hs' => hne (hL.eq_of_mem hs' hs)
  refine ⟨?_, ?_, ?_, ?_, ?_, ?_, ?_⟩
  · intro h' p' lvl' hl'
    by_cases hhp : h' = h ∧ p' = (L.order slot).price
    · obtain ⟨rfl, rfl⟩ := hhp
      rw [find?_unlink_self, Option.some.injEq] at hl'
      obtain ⟨hhead, htail⟩ := hL.level _ _ _ hlvl
      subst hl'
      rw [hremove, hhead, htail, hsplit]
      exact ⟨Threaded.head?_unlink hnd hnext,
        Threaded.getLast?_unlink hnd hprev⟩
    · rw [find?_unlink_of_ne _ _ _ _ hhp] at hl'
      rw [Queues.remove_of_not_mem (hother h' p' hhp)]
      exact hL.level h' p' lvl' hl'
  · intro h' p'
    by_cases hhp : h' = h ∧ p' = (L.order slot).price
    · obtain ⟨rfl, rfl⟩ := hhp
      rw [hremove]
      have hne : ∀ s ∈ pre ++ post, s ≠ slot := fun s hs' =>
        (Queues.mem_remove.mp (hremove ▸ hs')).2
      exact hthread.unlink hnd (fun s hs' => next_unlink _ _ _ _ (hne s hs'))
        fun s hs' => prev_unlink _ _ _ _ (hne s hs')
    · rw [Queues.remove_of_not_mem (hother h' p' hhp)]
      -- the neighbours of the slot stand in its own queue
      have hfar : ∀ s ∈ q h' p', s ∉ pre ++ post ∧ s ≠ slot := by
        intro s hs'
        refine ⟨fun hm => hhp ?_, fun he => hother h' p' hhp (he ▸ hs')⟩
        exact hL.eq_of_mem hs' (Queues.mem_remove.mp (hremove ▸ hm)).1
      refine (hL.threaded h' p').congr (fun s hs' => ?_) fun s hs' => ?_
      · rw [next_unlink _ _ _ _ (hfar s hs').2, if_neg]
        intro he
        exact (hfar s hs').1 (List.mem_append_left _ (List.mem_of_getLast? (hprev ▸ he)))
      · rw [prev_unlink _ _ _ _ (hfar s hs').2, if_neg]
        intro he
        exact (hfar s hs').1 (List.mem_append_right _ (List.mem_of_mem_head? (hnext ▸ he)))
  · intro h' p' hne
    rw [keys_unlink _ _ _ _ hmem]
    refine hL.present h' p' fun hnil => hne ?_
    simp [Queues.remove, hnil]
  · exact hL.filed_of_resting hrest fun h' p' s hs' => (Queues.mem_remove.mp hs').1
  · intro e s
    rw [orders_unlink, hid, Queues.holds_remove]
    by_cases he : e = (L.order slot).orderId
    · subst he
      rw [AList.lookup_erase]
      constructor
      · rintro ⟨⟩
      · rintro ⟨he, hs', hne⟩
        exact absurd (hL.eq_of_orderId hs' ⟨h, _, hs⟩ he) hne
    · rw [AList.lookup_erase_ne he, hL.indexed]
      constructor
      · rintro ⟨rfl, hs'⟩
        exact ⟨rfl, hs', fun hss => he (hss ▸ rfl)⟩
      · rintro ⟨rfl, hs', -⟩
        exact ⟨rfl, hs'⟩
  · exact fun h' p' => (hL.nodup h' p').filter _
  · -- the links are rewritten before the slot is given back
    have hlinks : ((L.orderPool.writeThrough (L.order slot).prev fun o =>
        { o with next := (L.order slot).next }).writeThrough (L.order slot).next fun o =>
          { o with prev := (L.order slot).prev }).Sound q.Holds :=
      hL.pool.of_eq (by simp) (by simp) fun _ hs' => hs'
    have hback := OrderPool.sound_deallocate hlinks ⟨h, _, hs⟩
    exact hback.of_eq (by cases h <;> rfl) (by cases h <;> rfl) fun s hs' =>
      Queues.holds_remove.mp hs'

/-- The ladders hold the same levels, and list the same orders in every queue but one. -/
structure AgreeOff (L : OrderLadder) (q : Queues) (L' : OrderLadder) (q' : Queues) (h : BookSide)
    (p : Int32) : Prop where
  symbol : L'.symbol = L.symbol
  keys : ∀ h', (L'.levels h').keys = (L.levels h').keys
  queues : ∀ h' p', ¬ (h' = h ∧ p' = p) → L'.queueOrders q' h' p' = L.queueOrders q h' p'

namespace AgreeOff

theorem refl (L : OrderLadder) (q : Queues) (h : BookSide) (p : Int32) : AgreeOff L q L q h p :=
  ⟨rfl, fun _ => rfl, fun _ _ _ => rfl⟩

theorem trans (h₁ : AgreeOff L q L' q' h p) (h₂ : AgreeOff L' q' L'' q'' h p) :
    AgreeOff L q L'' q'' h p :=
  ⟨h₂.symbol.trans h₁.symbol, fun h' => (h₂.keys h').trans (h₁.keys h'),
    fun h' p' hne => (h₂.queues h' p' hne).trans (h₁.queues h' p' hne)⟩

end AgreeOff

/-- What `handle_delete_order` leaves of an order in the queue of `h` and `p`. -/
theorem Linked.handleDeleteOrder {slot : Slot} (hL : L.Linked q) (hs : slot ∈ q h p) :
    Yields (handleDeleteOrder h (L.order slot).orderId) L (.ok ()) [] fun L' =>
      L'.Linked (q.remove slot) ∧ AgreeOff L q L' (q.remove slot) h p ∧
        ∀ s, (L'.order s).resting = (L.order s).resting := by
  obtain ⟨rfl, -⟩ := hL.filed h p slot hs
  have hkey := hL.present h _ (List.ne_nil_of_mem hs)
  obtain ⟨lvl, hlvl⟩ := Option.isSome_iff_exists.mp (OrderedMap.find?_isSome.mpr hkey)
  refine yields_handleDeleteOrder (hL.lookup ⟨h, _, hs⟩) hlvl
    ⟨hL.unlink hs hlvl, ⟨symbol_unlink .., keys_unlink _ _ _ _ hkey, ?_⟩, resting_unlink _ _ _ _⟩
  intro h' p' hne
  have hfar : slot ∉ q h' p' := fun hs' => hne (hL.eq_of_mem hs' hs)
  simp only [queueOrders, Queues.remove_of_not_mem hfar, resting_unlink]

theorem price_of_mem_queueOrders (hL : L.Linked q) {o : RestingOrder}
    (ho : o ∈ L.queueOrders q h p) : o.price = p := by
  obtain ⟨s, hs, rfl⟩ := List.mem_map.mp ho
  exact (hL.filed h p s hs).1

/-! ## Writing to an order -/

/-- Writes that leave an order where it is. -/
structure KeepsPlace (f : Order → Order) : Prop where
  orderId : ∀ o, (f o).orderId = o.orderId
  price : ∀ o, (f o).price = o.price
  side : ∀ o, (f o).side = o.side
  next : ∀ o, (f o).next = o.next
  prev : ∀ o, (f o).prev = o.prev

/-- The ladder with one order written. -/
def write (L : OrderLadder) (slot : Slot) (f : Order → Order) : OrderLadder :=
  { L with orderPool := L.orderPool.write slot f }

theorem order_write (slot s : Slot) (f : Order → Order) :
    (L.write slot f).order s = if s = slot then f (L.order slot) else L.order s :=
  OrderPool.slots_write ..

@[simp] theorem levels_write (slot : Slot) (f : Order → Order) (h : BookSide) :
    (L.write slot f).levels h = L.levels h := by cases h <;> rfl

/-- A field that the write leaves alone. -/
theorem order_write_field {γ : Type} {slot : Slot} {f : Order → Order} (field : Order → γ)
    (hf : ∀ o, field (f o) = field o) (s : Slot) :
    field ((L.write slot f).order s) = field (L.order s) := by
  rw [order_write]
  split_ifs with hs
  · rw [hf, hs]
  · rfl

theorem Linked.write {slot : Slot} {f : Order → Order} (hL : L.Linked q) (hf : KeepsPlace f) :
    (L.write slot f).Linked q := by
  refine ⟨?_, ?_, ?_, ?_, ?_, hL.nodup, hL.pool.of_eq rfl rfl fun _ hs => hs⟩
  · simpa only [levels_write] using hL.level
  · exact fun h p => (hL.threaded h p).congr (fun s _ => order_write_field Order.next hf.next s)
      fun s _ => order_write_field Order.prev hf.prev s
  · simpa only [levels_write] using hL.present
  · intro h p s hs
    rw [order_write_field Order.price hf.price, order_write_field Order.side hf.side]
    exact hL.filed h p s hs
  · intro e s
    rw [order_write_field Order.orderId hf.orderId]
    exact hL.indexed e s

/-- A write to an order of one queue does not show in the others. -/
theorem Linked.agreeOff_write {slot : Slot} (f : Order → Order) (hL : L.Linked q)
    (hs : slot ∈ q h p) : AgreeOff L q (L.write slot f) q h p := by
  refine ⟨rfl, fun _ => by rw [levels_write], fun h' p' hne => ?_⟩
  refine List.map_congr_left fun s hs' => ?_
  have hss : s ≠ slot := fun he => hne (hL.eq_of_mem (he ▸ hs') hs)
  rw [order_write, if_neg hss]

/-! ## Removing an empty level -/

theorem Linked.setLevels_erase (hL : L.Linked q) (hq : q h p = []) :
    (L.setLevels h ((L.levels h).erase p)).Linked q := by
  refine ⟨?_, ?_, ?_, ?_, ?_, hL.nodup, ?_⟩
  · intro h' p' lvl hl
    by_cases hh : h' = h
    · subst hh
      rw [levels_setLevels, OrderedMap.find?_erase] at hl
      split_ifs at hl
      exact hL.level h' p' lvl hl
    · rw [levels_setLevels_of_ne _ hh] at hl
      exact hL.level h' p' lvl hl
  · simpa only [order_setLevels] using hL.threaded
  · intro h' p' hne
    by_cases hh : h' = h
    · subst hh
      have hpp : p' ≠ p := fun hpp => hne (hpp ▸ hq)
      rw [levels_setLevels, OrderedMap.keys_erase]
      exact List.mem_filter.mpr ⟨hL.present h' p' hne, by simpa using hpp⟩
    · rw [levels_setLevels_of_ne _ hh]
      exact hL.present h' p' hne
  · simpa only [order_setLevels] using hL.filed
  · simpa only [order_setLevels, orders_setLevels] using hL.indexed
  · simpa only [orderPool_setLevels] using hL.pool

/-- An empty level lists no orders. -/
theorem sideOrders_erase (hq : q h p = []) (h' : BookSide) :
    (L.setLevels h ((L.levels h).erase p)).sideOrders q h' = L.sideOrders q h' := by
  have hqueue : (L.setLevels h ((L.levels h).erase p)).queueOrders q h' =
      L.queueOrders q h' := by
    funext p'
    simp only [queueOrders, order_setLevels]
  simp only [sideOrders, hqueue]
  by_cases hh : h' = h
  · subst hh
    rw [levels_setLevels, OrderedMap.keys_erase]
    exact flatMap_filter_ne (by simp [queueOrders, hq]) _
  · rw [levels_setLevels_of_ne _ hh]

namespace AgreeOff

/-- The ladder is well formed again when the one queue has an order. -/
theorem wellFormed (ha : AgreeOff L q L' q' h p) (hL : L.WellFormed q) (hL' : L'.Linked q')
    (hq : q' h p ≠ []) : L'.WellFormed q' := by
  refine ⟨hL', fun h' p' hp' hnil => ?_⟩
  by_cases hhp : h' = h ∧ p' = p
  · obtain ⟨rfl, rfl⟩ := hhp
    exact hq hnil
  · have hqueue := ha.queues h' p' hhp
    simp only [queueOrders, hnil, List.map_nil] at hqueue
    exact hL.nonempty h' p' (ha.keys h' ▸ hp') (List.map_eq_nil_iff.mp hqueue.symm)

/-- The ladder is well formed again without the level of the one queue, when it is empty. -/
theorem wellFormed_erase (ha : AgreeOff L q L' q' h p) (hL : L.WellFormed q)
    (hL' : L'.Linked q') (hq : q' h p = []) :
    (L'.setLevels h ((L'.levels h).erase p)).WellFormed q' := by
  refine ⟨hL'.setLevels_erase hq, fun h' p' hp' hnil => ?_⟩
  have hmem : p' ∈ (L'.levels h').keys ∧ ¬ (h' = h ∧ p' = p) := by
    by_cases hh : h' = h
    · subst hh
      rw [levels_setLevels, OrderedMap.keys_erase] at hp'
      obtain ⟨hp', hne⟩ := List.mem_filter.mp hp'
      exact ⟨hp', fun hhp => by simp [hhp.2] at hne⟩
    · rw [levels_setLevels_of_ne _ hh] at hp'
      exact ⟨hp', fun hhp => hh hhp.1⟩
  have hqueue := ha.queues h' p' hmem.2
  simp only [queueOrders, hnil, List.map_nil] at hqueue
  exact hL.nonempty h' p' (ha.keys h' ▸ hmem.1) (List.map_eq_nil_iff.mp hqueue.symm)

/-- The orders of the side of the one queue, when that queue comes first. -/
theorem sideOrders_front (ha : AgreeOff L q L' q' h p) {ps : List Int32}
    (hkeys : (L.levels h).keys = p :: ps) :
    L'.sideOrders q' h = L'.queueOrders q' h p ++ ps.flatMap (L.queueOrders q h) := by
  have hp : p ∉ ps := (List.nodup_cons.mp (hkeys ▸ (L.levels h).keys_nodup)).1
  rw [sideOrders, ha.keys, hkeys, List.flatMap_cons]
  refine congrArg _ (List.flatMap_congr fun p' hp' => ha.queues h p' fun hhp => hp (hhp.2 ▸ hp'))

theorem sideOrders_of_ne (ha : AgreeOff L q L' q' h p) {h' : BookSide} (hne : h' ≠ h) :
    L'.sideOrders q' h' = L.sideOrders q h' := by
  rw [sideOrders, sideOrders, ha.keys]
  exact List.flatMap_congr fun p' _ => ha.queues h' p' fun hhp => hne hhp.1

end AgreeOff

end OrderLadder

end Ndfex
