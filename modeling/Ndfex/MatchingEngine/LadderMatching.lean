import Ndfex.MatchingEngine.LadderMoves

/-!
# The loops of `match`

The loop over the orders of a level and the loop over the levels do to the orders of a side what
matching does to the list of them. The bounds of the loops are never met.

## Main results

* `OrderLadder.Linked.matchLevel`: the loop over a level
* `OrderLadder.WellFormed.matchLevels`: the loop over the levels
-/

namespace Ndfex

open Containers Transition

namespace OrderLadder

variable {L : OrderLadder} {q : Queues} {h : BookSide} {p : Int32}

/-! ## The loop over a level -/

/-- **The loop over the orders of a level** does what matching does to the list of them. -/
theorem Linked.matchLevel {incomingId : UInt64} {side : Side} {price : Int32}
    (hcross : ¬ beyondLimit side p price) {fuel : ℕ} {quantity : UInt32} (hL : L.Linked q)
    (hfuel : (q h p).length < fuel) :
    let m := matchList L.symbol incomingId side price (L.queueOrders q h p) quantity
    ∃ exit, (exit = .drained m.remaining ∨ exit = .returned ∧ m.remaining = 0 ∧ m.book ≠ []) ∧
      Yields (matchLevel h incomingId side fuel (q h p).head? quantity) L (.ok exit) m.calls
        fun L' => ∃ q', L'.Linked q' ∧ AgreeOff L q L' q' h p ∧ L'.queueOrders q' h p = m.book := by
  induction fuel generalizing L q quantity with
  | zero => omega
  | succ fuel ih =>
    have hstay : Yields (Pure.pure (LevelExit.drained quantity) : LadderM LevelExit) L
        (.ok (.drained quantity)) [] fun L' => ∃ q', L'.Linked q' ∧ AgreeOff L q L' q' h p ∧
          L'.queueOrders q' h p = L.queueOrders q h p :=
      Yields.pure ⟨q, hL, .refl .., rfl⟩
    cases hq : q h p with
    | nil =>
      simp only [queueOrders, hq] at hstay ⊢
      exact ⟨_, Or.inl rfl, hstay⟩
    | cons slot rest =>
      by_cases hzero : quantity = 0
      · subst hzero
        simp only [matchList_zero, OrderLadder.matchLevel, List.head?_cons, if_pos]
        exact ⟨_, Or.inl rfl, hstay⟩
      have hs : slot ∈ q h p := by simp [hq]
      obtain ⟨hprice, -⟩ := hL.filed h p slot hs
      have hreach : ¬ beyondLimit side (L.order slot).resting.price price := by
        simpa only [Order.resting, hprice] using hcross
      have hhead : L.queueOrders q h p =
          (L.order slot).resting :: rest.map fun s => (L.order s).resting := by
        simp [queueOrders, hq]
      simp only [OrderLadder.matchLevel, List.head?_cons, if_neg hzero, hhead]
      by_cases hle : (L.order slot).quantity ≤ quantity
      · -- the resting order leaves, the loop goes on behind it
        rw [matchList_full hzero hreach hle]
        have hnd := hL.nodup h p
        have hthread := hL.threaded h p
        have hremove : q.remove slot h p = [] ++ rest := Queues.remove_eq hq hnd
        rw [List.nil_append] at hremove
        rw [hq] at hthread
        have hnext : (L.order slot).next = rest.head? := by simpa using hthread.2.1
        obtain ⟨L', hrun, hL', hagree, hrest⟩ := hL.handleDeleteOrder hs
        have hqueue : L'.queueOrders (q.remove slot) h p =
            rest.map fun s => (L.order s).resting := by
          simp only [queueOrders, hremove, hrest]
        have hlen : (q.remove slot h p).length < fuel := by
          rw [hremove]
          simp only [hq, List.length_cons] at hfuel
          omega
        obtain ⟨exit, hexit, hloop⟩ :=
          @ih L' (q.remove slot) (quantity - (L.order slot).quantity) hL' hlen
        rw [hqueue, hagree.symbol] at hexit hloop
        rw [hremove] at hloop
        refine ⟨exit, hexit, Yields.current_bind ?_⟩
        rw [if_pos hle]
        refine Yields.record_bind (Yields.record_bind (Yields.record_bind ?_))
        refine Yields.bind_nil (P := (L' = ·)) ⟨L', hrun, rfl⟩ ?_
        rintro _ rfl
        rw [hnext]
        refine hloop.mono ?_
        rintro L'' ⟨q'', hL'', hagree', hbook⟩
        exact ⟨q'', hL'', hagree.trans hagree', hbook⟩
      · -- the incoming order is used up by the resting one
        rw [matchList_partly hzero hreach hle]
        refine ⟨.returned, Or.inr ⟨rfl, rfl, List.cons_ne_nil _ _⟩, Yields.current_bind ?_⟩
        rw [if_neg hle]
        refine Yields.record_bind (Yields.record_bind (Yields.record_bind ?_))
        refine Yields.bind_nil (P := (L.write slot _ = ·)) (Yields.update rfl) ?_
        rintro _ rfl
        refine Yields.pure ⟨q, hL.write ⟨?_, ?_, ?_, ?_, ?_⟩, hL.agreeOff_write _ hs, ?_⟩
        iterate 5 exact fun _ => rfl
        have hnd := hL.nodup h p
        rw [hq] at hnd
        -- the write to the slot does not show in the slots behind it
        have hrest : ∀ s ∈ rest, s ≠ slot := fun s hs' he =>
          (List.nodup_cons.mp hnd).1 (he ▸ hs')
        simp only [queueOrders, hq, List.map_cons, order_write, if_true]
        refine congrArg₂ List.cons rfl (List.map_congr_left fun s hs' => ?_)
        rw [if_neg (hrest s hs')]

/-! ## The loop over the levels -/

/-- The loop's test for an empty level. -/
theorem Linked.level_head (hL : L.Linked q) (hp : p ∈ (L.levels h).keys) :
    ((L.levels h).find? p).bind PriceLevel.head = (q h p).head? := by
  obtain ⟨lvl, hlvl⟩ := Option.isSome_iff_exists.mp (OrderedMap.find?_isSome.mpr hp)
  rw [hlvl]
  exact (hL.level h p lvl hlvl).1

/-- Without quantity left the loop ends at once. -/
theorem yields_matchLevels_zero {incomingId : UInt64} {side : Side} {price : Int32} {fuel : ℕ}
    (hfuel : 0 < fuel) {Q : OrderLadder → Prop} (hQ : Q L) :
    Yields (matchLevels h incomingId side price fuel 0) L (.ok 0) [] Q := by
  obtain ⟨fuel, rfl⟩ := Nat.exists_eq_add_of_lt hfuel
  rw [Nat.zero_add, matchLevels]
  refine Yields.current_bind ?_
  cases (L.levels h).begin? with
  | none => exact Yields.pure hQ
  | some e => exact Yields.pure hQ

/-- A level whose orders are beyond the limit stops the matching. -/
theorem WellFormed.matchList_sideOrders {incomingId : UInt64} {side : Side} {price : Int32}
    (hL : L.WellFormed q) {ps : List Int32} (hkeys : (L.levels h).keys = p :: ps)
    (hbeyond : beyondLimit side p price) (quantity : UInt32) :
    matchList L.symbol incomingId side price (L.sideOrders q h) quantity =
      ⟨quantity, [], L.sideOrders q h⟩ := by
  -- the level has a first order, which is of its price
  obtain ⟨s, rest, hq⟩ := List.exists_cons_of_ne_nil (hL.nonempty h p (by simp [hkeys]))
  have hprice : (L.order s).resting.price = p := (hL.filed h p s (by simp [hq])).1
  have hcons : L.sideOrders q h = (L.order s).resting ::
      (rest.map (fun s => (L.order s).resting) ++ ps.flatMap (L.queueOrders q h)) := by
    rw [sideOrders, hkeys, List.flatMap_cons, queueOrders, hq]
    rfl
  rw [hcons, matchList_beyond (by rwa [hprice])]

/-- A well-formed ladder with the orders `os` on one side and the other side as in `L`. -/
def LeavesSide (L : OrderLadder) (q : Queues) (h : BookSide) (os : List RestingOrder)
    (L' : OrderLadder) : Prop :=
  ∃ q', L'.WellFormed q' ∧ L'.sideOrders q' h = os ∧
    (∀ h', h' ≠ h → L'.sideOrders q' h' = L.sideOrders q h') ∧ L'.symbol = L.symbol

theorem WellFormed.leaves (hL : L.WellFormed q) : L.LeavesSide q h (L.sideOrders q h) L :=
  ⟨q, hL, rfl, fun _ _ => rfl, rfl⟩

section FirstLevel

/-! The orders of the first level have been matched, which led from `L` to `L'`. -/

variable {L' : OrderLadder} {q' : Queues} {ps : List Int32}

/-- Orders are left at the first level. -/
theorem AgreeOff.leaves (hagree : AgreeOff L q L' q' h p) (hL : L.WellFormed q)
    (hL' : L'.Linked q') (hkeys : (L.levels h).keys = p :: ps) (hne : q' h p ≠ []) :
    L.LeavesSide q h (L'.queueOrders q' h p ++ ps.flatMap (L.queueOrders q h)) L' :=
  ⟨q', hagree.wellFormed hL hL' hne, hagree.sideOrders_front hkeys,
    fun _ hh => hagree.sideOrders_of_ne hh, hagree.symbol⟩

/-- The first level is used up, and the loop goes on without it. -/
theorem AgreeOff.leaves_of_erase (hagree : AgreeOff L q L' q' h p) (hnil : q' h p = [])
    {os : List RestingOrder} {L'' : OrderLadder}
    (hleaves : (L'.setLevels h ((L'.levels h).erase p)).LeavesSide q' h os L'') :
    L.LeavesSide q h os L'' := by
  obtain ⟨q'', hL'', hbook, hother, hsymbol⟩ := hleaves
  refine ⟨q'', hL'', hbook, fun h' hne => ?_, ?_⟩
  · rw [hother h' hne, sideOrders_erase hnil, hagree.sideOrders_of_ne hne]
  · rw [hsymbol, symbol_setLevels, hagree.symbol]

/-- The levels after the first one. -/
theorem AgreeOff.length_keys_erase (hagree : AgreeOff L q L' q' h p)
    (hkeys : (L.levels h).keys = p :: ps) :
    ((L'.setLevels h ((L'.levels h).erase p)).levels h).keys.length ≤ ps.length := by
  rw [levels_setLevels, OrderedMap.keys_erase, hagree.keys h, hkeys]
  simpa using List.length_filter_le _ ps

end FirstLevel

/-- **The loop over the levels** does what matching does to the list of the side's orders. -/
theorem WellFormed.matchLevels {incomingId : UInt64} {side : Side} {price : Int32} {fuel : ℕ}
    {quantity : UInt32} (hL : L.WellFormed q) (hfuel : (L.levels h).keys.length < fuel) :
    let m := matchList L.symbol incomingId side price (L.sideOrders q h) quantity
    Yields (matchLevels h incomingId side price fuel quantity) L (.ok m.remaining) m.calls
      (L.LeavesSide q h m.book) := by
  -- by induction on the bound: every turn but the last takes a level away
  induction fuel generalizing L q quantity with
  | zero => omega
  | succ fuel ih =>
    have hstay : Yields (Pure.pure quantity : LadderM UInt32) L (.ok quantity) []
        (L.LeavesSide q h (L.sideOrders q h)) := Yields.pure hL.leaves
    rw [OrderLadder.matchLevels]
    refine Yields.current_bind ?_
    cases hbegin : (L.levels h).begin? with
    | none =>
      have hnil : L.sideOrders q h = [] := by
        rw [sideOrders, OrderedMap.keys_eq_nil.mpr hbegin]
        rfl
      rw [hnil] at hstay ⊢
      exact hstay
    | some e =>
      obtain ⟨p, lvl⟩ := e
      obtain ⟨ps, hkeys⟩ := OrderedMap.keys_eq_cons hbegin
      have hp : p ∈ (L.levels h).keys := by simp [hkeys]
      by_cases hzero : quantity = 0
      · subst hzero
        simpa only [if_pos, matchList_zero] using hstay
      by_cases hbeyond : beyondLimit side p price
      · rw [hL.matchList_sideOrders hkeys hbeyond]
        simpa only [if_neg hzero, if_pos hbeyond] using hstay
      have hlevel : lvl.head = (q h p).head? :=
        (hL.level h p lvl (OrderedMap.find?_begin? hbegin)).1
      have hside : L.sideOrders q h = L.queueOrders q h p ++ ps.flatMap (L.queueOrders q h) := by
        rw [sideOrders, hkeys, List.flatMap_cons]
      simp only [if_neg hzero, if_neg hbeyond, hlevel]
      rw [hside, matchList_append]
      obtain ⟨exit, hexit, L', hrun, q', hL', hagree, hbook⟩ :=
        hL.matchLevel hbeyond (Nat.lt_succ_of_le (hL.length_queue_le h p))
      generalize hm : matchList L.symbol incomingId side price (L.queueOrders q h p) quantity = m
        at hexit hrun hbook ⊢
      have hqueue : q' h p = [] ↔ m.book = [] := by
        rw [← hbook, queueOrders, List.map_eq_nil_iff]
      have hp' : p ∈ (L'.levels h).keys := by rwa [hagree.keys h]
      have hlen : ps.length < fuel := by
        rw [hkeys, List.length_cons] at hfuel
        omega
      rcases hexit with rfl | ⟨rfl, hrem, hne⟩
      · by_cases hnil : m.book = []
        · -- the level is used up and leaves its map
          have hnil' := hqueue.mpr hnil
          have hwf := hagree.wellFormed_erase hL hL' hnil'
          have hlen' := (hagree.length_keys_erase hkeys).trans_lt hlen
          have hfront := hagree.sideOrders_front hkeys
          rw [hbook, hnil, List.nil_append] at hfront
          have hloop := @ih _ q' m.remaining hwf hlen'
          rw [sideOrders_erase hnil', hfront, symbol_setLevels, hagree.symbol] at hloop
          simp only [if_pos hnil]
          refine Yields.bind (P := (L' = ·)) ⟨L', hrun, rfl⟩ ?_
          rintro _ rfl
          refine Yields.current_bind ?_
          rw [hL'.level_head hp', hnil', List.head?_nil, if_pos rfl]
          exact Yields.update_bind (hloop.mono fun L'' => hagree.leaves_of_erase hnil')
        · -- orders are left at the level, so the incoming order is used up
          have hrem : m.remaining = 0 := by
            rw [← hm]
            refine matchList_exhausts (fun o ho => ?_) quantity (by rwa [hm])
            rwa [price_of_mem_queueOrders hL.toLinked ho]
          have hne := fun h => hnil (hqueue.mp h)
          obtain ⟨s, rest, hq'⟩ := List.exists_cons_of_ne_nil hne
          simp only [if_neg hnil, hrem] at hrun ⊢
          rw [← List.append_nil m.calls, ← hbook]
          refine Yields.bind (P := (L' = ·)) ⟨L', hrun, rfl⟩ ?_
          rintro _ rfl
          refine Yields.current_bind ?_
          rw [hL'.level_head hp', hq', if_neg (by simp), if_neg (by simp)]
          exact yields_matchLevels_zero (by omega) (hagree.leaves hL hL' hkeys hne)
      · -- the partial fill returns from the whole of `match`
        simp only [if_neg hne, hrem]
        rw [← List.append_nil m.calls, ← hbook]
        refine Yields.bind (P := (L' = ·)) ⟨L', hrun, rfl⟩ ?_
        rintro _ rfl
        exact Yields.pure (hagree.leaves hL hL' hkeys fun h => hne (hqueue.mp h))

/-- **Matching** an order against a side of the book. -/
theorem WellFormed.matchOrder {incomingId : UInt64} {side : Side} {price : Int32}
    {quantity : UInt32} (hL : L.WellFormed q) :
    let m := matchList L.symbol incomingId side price (L.sideOrders q h) quantity
    Yields (matchOrder h incomingId side quantity price) L (.ok m.remaining) m.calls fun L' =>
      ∃ q', L'.WellFormed q' ∧ L'.bookOf q' = (L.bookOf q).setHalf h m.book ∧
        L'.symbol = L.symbol := by
  refine Yields.current_bind ((hL.matchLevels (Nat.lt_succ_self _)).mono ?_)
  rintro L' ⟨q', hL', hbook, hother, hsymbol⟩
  refine ⟨q', hL', PriorityBook.ext_half fun h' => ?_, hsymbol⟩
  by_cases hh : h' = h
  · subst hh
    rw [half_bookOf, PriorityBook.half_setHalf, hbook]
  · rw [half_bookOf, PriorityBook.half_setHalf_of_ne _ hh, half_bookOf, hother h' hh]

end OrderLadder

end Ndfex
