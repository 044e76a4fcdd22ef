import Ndfex.MatchingEngine.LadderMoves

/-!
# Resting an order

The insertion of `handle_new_order` puts an order at the back of the queue of its price, and so
behind the orders of its price or better.

## Main definitions

* `OrderLadder.Filed L q o slot L'`: the ladder after an order went to the back of its queue

## Main results

* `OrderLadder.WellFormed.insertOrder`: resting an order
-/

namespace Ndfex

open Containers Transition

namespace OrderLadder

variable {L L' : OrderLadder} {q : Queues} {o : Order} {slot : Slot}

/-- The ladder `L'` is `L` with `o` in a fresh slot at the back of the queue of its price. -/
structure Filed (L : OrderLadder) (q : Queues) (o : Order) (slot : Slot) (L' : OrderLadder) :
    Prop where
  level : (L'.levels o.side.bookSide).find? o.price =
    some ⟨(q o.side.bookSide o.price ++ [slot]).head?, some slot⟩
  levels : ∀ h p, ¬ (h = o.side.bookSide ∧ p = o.price) →
    (L'.levels h).find? p = (L.levels h).find? p
  keys : (L'.levels o.side.bookSide).keys =
    insertKey o.side.bookSide.better o.price (L.levels o.side.bookSide).keys
  keys_of_ne : ∀ h, h ≠ o.side.bookSide → (L'.levels h).keys = (L.levels h).keys
  resting : (L'.order slot).resting = o.resting
  next : (L'.order slot).next = none
  prev : (L'.order slot).prev = (q o.side.bookSide o.price).getLast?
  resting_of_ne : ∀ s, s ≠ slot → (L'.order s).resting = (L.order s).resting
  next_of_ne : ∀ s, s ≠ slot → (L'.order s).next =
    if (q o.side.bookSide o.price).getLast? = some s then some slot else (L.order s).next
  prev_of_ne : ∀ s, s ≠ slot → (L'.order s).prev = (L.order s).prev
  orders : L'.orders = L.orders.insert o.orderId slot
  fresh : ¬ q.Holds slot
  pool : L'.orderPool.Sound fun s => q.Holds s ∨ s = slot
  symbol : L'.symbol = L.symbol

namespace Filed

/-- Every ladder stays linked. -/
theorem linked (hF : Filed L q o slot L') (hL : L.Linked q)
    (hnew : L.orders.lookup o.orderId = none) :
    L'.Linked (q.add o.side.bookSide o.price slot) := by
  have hne : ∀ h p, ∀ s ∈ q h p, s ≠ slot := fun h p s hs he => hF.fresh ⟨h, p, he ▸ hs⟩
  have hid : (L'.order slot).orderId = o.orderId := congrArg RestingOrder.orderId hF.resting
  refine ⟨?_, ?_, ?_, ?_, ?_, ?_, ?_⟩
  · intro h p lvl hl
    by_cases hhp : h = o.side.bookSide ∧ p = o.price
    · obtain ⟨rfl, rfl⟩ := hhp
      rw [hF.level, Option.some.injEq] at hl
      subst hl
      simp [Queues.add_self]
    · rw [hF.levels h p hhp] at hl
      rw [Queues.add_of_ne hhp]
      exact hL.level h p lvl hl
  · intro h p
    by_cases hhp : h = o.side.bookSide ∧ p = o.price
    · obtain ⟨rfl, rfl⟩ := hhp
      rw [Queues.add_self]
      exact (hL.threaded _ _).concat (hL.nodup _ _)
        (fun s hs => hF.next_of_ne s (hne _ _ s hs)) (fun s hs => hF.prev_of_ne s (hne _ _ s hs))
        hF.next hF.prev
    · rw [Queues.add_of_ne hhp]
      refine (hL.threaded h p).congr (fun s hs => ?_) fun s hs => hF.prev_of_ne s (hne h p s hs)
      -- the last order of the other queue is not in this one
      rw [hF.next_of_ne s (hne h p s hs), if_neg]
      exact fun he => hhp (hL.eq_of_mem hs (List.mem_of_getLast? he))
  · intro h p hq
    by_cases hhp : h = o.side.bookSide ∧ p = o.price
    · obtain ⟨rfl, rfl⟩ := hhp
      exact OrderedMap.find?_isSome.mp (by rw [hF.level]; rfl)
    · rw [Queues.add_of_ne hhp] at hq
      have hmem := OrderedMap.find?_isSome.mpr (hL.present h p hq)
      rw [← hF.levels h p hhp] at hmem
      exact OrderedMap.find?_isSome.mp hmem
  · intro h p s hs
    rcases Queues.mem_add.mp hs with hs | ⟨rfl, rfl, rfl⟩
    · have hrest := hF.resting_of_ne s (hne h p s hs)
      have hprice : (L'.order s).price = (L.order s).price := congrArg RestingOrder.price hrest
      have hside : (L'.order s).side = (L.order s).side := congrArg RestingOrder.side hrest
      rw [hprice, hside]
      exact hL.filed h p s hs
    · have hprice : (L'.order s).price = o.price := congrArg RestingOrder.price hF.resting
      have hside : (L'.order s).side = o.side := congrArg RestingOrder.side hF.resting
      rw [hprice, hside]
      exact ⟨rfl, rfl⟩
  · intro e s
    rw [hF.orders, Queues.holds_add]
    by_cases hs : s = slot
    · subst hs
      rw [hid]
      by_cases he : e = o.orderId
      · subst he
        simp [AList.lookup_insert]
      · rw [AList.lookup_insert_ne he, hL.indexed]
        have hfresh := hF.fresh
        simp [hfresh, Ne.symm he]
    · have hide : (L'.order s).orderId = (L.order s).orderId :=
        congrArg RestingOrder.orderId (hF.resting_of_ne s hs)
      rw [hide]
      by_cases he : e = o.orderId
      · subst he
        rw [AList.lookup_insert]
        have hnone : ¬ ((L.order s).orderId = o.orderId ∧ q.Holds s) := by
          rw [← hL.indexed, hnew]
          simp
        constructor
        · intro h
          exact absurd (Option.some.inj h).symm hs
        · rintro ⟨hide, hhold⟩
          exact absurd ⟨hide, hhold.resolve_right hs⟩ hnone
      · rw [AList.lookup_insert_ne he, hL.indexed]
        simp [hs]
  · intro h p
    by_cases hhp : h = o.side.bookSide ∧ p = o.price
    · obtain ⟨rfl, rfl⟩ := hhp
      rw [Queues.add_self]
      refine List.Nodup.append (hL.nodup _ _) (List.nodup_singleton _) ?_
      intro s hs hs'
      exact hne _ _ s hs (List.mem_singleton.mp hs')
    · rw [Queues.add_of_ne hhp]
      exact hL.nodup h p
  · exact hF.pool.of_eq rfl rfl fun s hs => Queues.holds_add.mp hs

/-- The queues list the old book with the order at rest. -/
theorem bookOf_add (hF : Filed L q o slot L') (hL : L.Linked q) :
    L'.bookOf (q.add o.side.bookSide o.price slot) = (L.bookOf q).rest o.resting := by
  -- only the queue of the order's side and price is longer, by the order
  have hold : ∀ h p, ¬ (h = o.side.bookSide ∧ p = o.price) →
      L'.queueOrders (q.add o.side.bookSide o.price slot) h p = L.queueOrders q h p := by
    intro h p hhp
    rw [queueOrders, Queues.add_of_ne hhp]
    exact List.map_congr_left fun s hs =>
      hF.resting_of_ne s fun he => hF.fresh ⟨h, p, he ▸ hs⟩
  have hnew : L'.queueOrders (q.add o.side.bookSide o.price slot) o.side.bookSide o.price =
      L.queueOrders q o.side.bookSide o.price ++ [o.resting] := by
    rw [queueOrders, Queues.add_self, List.map_append, List.map_singleton, hF.resting]
    exact congrArg (· ++ _) (List.map_congr_left fun s hs =>
      hF.resting_of_ne s fun he => hF.fresh ⟨_, _, he ▸ hs⟩)
  -- a new level is inserted among the keys, where the sorted insertion of the book puts the order
  refine PriorityBook.ext_half fun h => ?_
  by_cases hh : h = o.side.bookSide
  · subst hh
    have hqueues : L'.queueOrders (q.add o.side.bookSide o.price slot) o.side.bookSide =
        Function.update (L.queueOrders q o.side.bookSide) o.price
          (L.queueOrders q o.side.bookSide o.price ++ [o.resting]) := by
      funext p
      by_cases hp : p = o.price
      · subst hp
        rw [hnew, Function.update_self]
      · rw [hold _ p fun hhp => hp hhp.2, Function.update_of_ne hp]
    rw [half_bookOf, sideOrders, hF.keys, hqueues, PriorityBook.rest]
    rw [show o.resting.side.bookSide = o.side.bookSide from rfl, PriorityBook.half_setHalf,
      half_bookOf]
    have hprices : ∀ p, ∀ r ∈ L.queueOrders q o.side.bookSide p, RestingOrder.price r = p :=
      fun p r hr => price_of_mem_queueOrders hL hr
    have hempty : RestingOrder.price o.resting ∉ (L.levels o.side.bookSide).keys →
        L.queueOrders q o.side.bookSide (RestingOrder.price o.resting) = [] := by
      intro hp
      rw [queueOrders, List.map_eq_nil_iff]
      by_contra hne
      exact hp (hL.present _ _ hne)
    exact flatMap_insertKey (L.levels o.side.bookSide).keys_sorted hprices hempty
  · have hh' : h ≠ o.resting.side.bookSide := hh
    rw [half_bookOf, PriorityBook.rest, PriorityBook.half_setHalf_of_ne _ hh',
      half_bookOf,
      sideOrders, sideOrders, hF.keys_of_ne h hh]
    exact List.flatMap_congr fun p _ => hold h p fun hhp => hh hhp.1

theorem wellFormed (hF : Filed L q o slot L') (hL : L.WellFormed q)
    (hnew : L.orders.lookup o.orderId = none) :
    L'.WellFormed (q.add o.side.bookSide o.price slot) := by
  refine ⟨hF.linked hL.toLinked hnew, fun h p hp => ?_⟩
  by_cases hhp : h = o.side.bookSide ∧ p = o.price
  · obtain ⟨rfl, rfl⟩ := hhp
    rw [Queues.add_self]
    exact List.append_ne_nil_of_right_ne_nil _ (List.cons_ne_nil _ _)
  · rw [Queues.add_of_ne hhp]
    have hmem := OrderedMap.find?_isSome.mpr hp
    rw [hF.levels h p hhp] at hmem
    exact hL.nonempty h p (OrderedMap.find?_isSome.mp hmem)

end Filed

/-! ## The insertion -/

/-- The ladder after the writes of the insertion, from the pool and the level they leave. -/
def rested (L : OrderLadder) (h : BookSide) (o : Order) (slot : Slot) (pool : OrderPool)
    (lvl : PriceLevel) : OrderLadder :=
  { L.setLevels h ((L.levels h).insert o.price lvl) with
    orders := L.orders.insert o.orderId slot
    orderPool := pool }

theorem levels_rested (h h' : BookSide) (slot : Slot) (pool : OrderPool) (lvl : PriceLevel) :
    (L.rested h o slot pool lvl).levels h' =
      (L.setLevels h ((L.levels h).insert o.price lvl)).levels h' := by
  cases h' <;> rfl

/-- The writes of the insertion file the order. -/
theorem filed_rested {pool : OrderPool} {lvl : PriceLevel}
    (hlvl : lvl = ⟨(q o.side.bookSide o.price ++ [slot]).head?, some slot⟩)
    (hslot : pool.slots slot =
      { o with next := none, prev := (q o.side.bookSide o.price).getLast? })
    (hother : ∀ s, s ≠ slot → pool.slots s =
      if (q o.side.bookSide o.price).getLast? = some s then { L.order s with next := some slot }
      else L.order s)
    (hfresh : ¬ q.Holds slot) (hpool : pool.Sound fun s => q.Holds s ∨ s = slot) :
    Filed L q o slot (L.rested o.side.bookSide o slot pool lvl) := by
  have horder : ∀ s, s ≠ slot → (L.rested o.side.bookSide o slot pool lvl).order s =
      if (q o.side.bookSide o.price).getLast? = some s then { L.order s with next := some slot }
      else L.order s := hother
  have hself : (L.rested o.side.bookSide o slot pool lvl).order slot =
      { o with next := none, prev := (q o.side.bookSide o.price).getLast? } := hslot
  refine ⟨?_, ?_, ?_, ?_, ?_, ?_, ?_, ?_, ?_, ?_, rfl, hfresh, hpool, ?_⟩
  · rw [levels_rested, levels_setLevels, OrderedMap.find?_insert, if_pos rfl, hlvl]
  · intro h p hhp
    rw [levels_rested]
    by_cases hh : h = o.side.bookSide
    · subst hh
      rw [levels_setLevels, OrderedMap.find?_insert, if_neg fun hp => hhp ⟨rfl, hp⟩]
    · rw [levels_setLevels_of_ne _ hh]
  · rw [levels_rested, levels_setLevels, OrderedMap.keys_insert]
  · intro h hh
    rw [levels_rested, levels_setLevels_of_ne _ hh]
  · rw [hself]
    rfl
  · rw [hself]
  · rw [hself]
  · intro s hs
    rw [horder s hs]
    split_ifs <;> rfl
  · intro s hs
    rw [horder s hs]
    split_ifs <;> rfl
  · intro s hs
    rw [horder s hs]
    split_ifs <;> rfl
  · exact symbol_setLevels ..

/-- The last writes of the insertion, after those to the pool. -/
theorem rested_eq (h : BookSide) (o : Order) (slot : Slot) (pool : OrderPool) (lvl : PriceLevel) :
    (let M : OrderLadder := { L with orderPool := pool }
      let M := M.setLevels h ((M.levels h).insert o.price lvl)
      { M with orders := M.orders.insert o.orderId slot }) = L.rested h o slot pool lvl := by
  cases h <;> rfl

theorem levels_setPool (pool : OrderPool) (h : BookSide) :
    ({ L with orderPool := pool } : OrderLadder).levels h = L.levels h := by cases h <;> rfl

theorem yields_insertOrder (hL : L.WellFormed q) (hnext : o.next = none) (hprev : o.prev = none) :
    Yields (insertOrder o.side.bookSide o) L (.ok ()) []
      (Filed L q o L.orderPool.allocate.1) := by
  obtain ⟨hfresh, hpool⟩ := OrderPool.sound_allocate hL.pool
  have hslots := OrderPool.slots_allocate L.orderPool
  rcases halloc : L.orderPool.allocate with ⟨slot, pool⟩
  rw [halloc] at hfresh hpool hslots
  have hslots' : ∀ s, pool.slots s = L.order s := fun s => congrFun hslots s
  refine Yields.current_bind ?_
  rw [halloc]
  refine Yields.update_bind (Yields.current_bind ?_)
  rw [levels_setPool]
  cases hlvl : (L.levels o.side.bookSide).find? o.price with
  | none =>
    -- the level is new, the order its head and its tail
    have hq : q o.side.bookSide o.price = [] := by
      by_contra hne
      exact OrderedMap.find?_eq_none.mp hlvl (hL.present _ _ hne)
    refine Yields.update_bind (Yields.update
      ((congrArg (Filed L q o slot) (@rested_eq L _ o slot _ _)).mpr ?_))
    refine filed_rested (by rw [hq]; rfl) ?_ (fun s hs => ?_) hfresh
      (hpool.of_eq rfl rfl fun _ hs => hs)
    · rw [OrderPool.slots_write, if_pos rfl, hq, ← hnext, List.getLast?_nil, ← hprev]
    · rw [OrderPool.slots_write, if_neg hs, hq, hslots']
      rfl
  | some lvl =>
    -- the level has a last order, which is linked with the new one
    have hne : q o.side.bookSide o.price ≠ [] :=
      hL.nonempty _ _ (OrderedMap.find?_isSome.mp (by rw [hlvl]; rfl))
    obtain ⟨hhead, htail⟩ := hL.level _ _ _ hlvl
    obtain ⟨last, hlast⟩ := Option.isSome_iff_exists.mp (List.getLast?_isSome.mpr hne)
    have hls : last ≠ slot := fun he =>
      hfresh ⟨_, _, he ▸ List.mem_of_getLast? hlast⟩
    rw [hlast] at htail
    simp only [htail]
    refine Yields.update_bind (Yields.update_bind (Yields.update_bind (Yields.update
      ((congrArg (Filed L q o slot) (@rested_eq L _ o slot _ _)).mpr ?_))))
    refine filed_rested ?_ ?_ (fun s hs => ?_) hfresh (hpool.of_eq rfl rfl fun _ hs => hs)
    · rw [hhead, List.head?_append_of_ne_nil _ hne]
    · rw [OrderPool.slots_write, if_pos rfl, OrderPool.slots_write, if_neg hls.symm,
        OrderPool.slots_write, if_pos rfl, hlast, ← hnext]
    · rw [OrderPool.slots_write, if_neg hs, OrderPool.slots_write, hlast]
      by_cases he : s = last
      · subst he
        rw [if_pos rfl, if_pos rfl, OrderPool.slots_write, if_neg hs, hslots']
      · have hne' : ¬ (some last = some s) := fun h => he (Option.some.inj h).symm
        rw [if_neg he, if_neg hne', OrderPool.slots_write, if_neg hs, hslots']

/-- **Resting an order** puts it behind the orders of its price or better. -/
theorem WellFormed.insertOrder (hL : L.WellFormed q) (hnext : o.next = none)
    (hprev : o.prev = none) (hnew : L.orders.lookup o.orderId = none) :
    Yields (insertOrder o.side.bookSide o) L (.ok ()) [] fun L' =>
      ∃ q', L'.WellFormed q' ∧ L'.bookOf q' = (L.bookOf q).rest o.resting ∧
        L'.symbol = L.symbol := by
  refine (yields_insertOrder hL hnext hprev).mono fun L' hF => ?_
  exact ⟨_, hF.wellFormed hL hnew, hF.bookOf_add hL.toLinked, hF.symbol⟩

end OrderLadder

end Ndfex
