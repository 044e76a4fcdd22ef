import Mathlib.Data.List.Perm.Subperm
import Ndfex.Containers.ThreadedList
import Ndfex.MatchingEngine.PriorityBook

/-!
# The queues a ladder holds

The invariant of the ladder's four structures: the hash map, the two level maps, the links between
the orders and the order pool hold one family of queues of slots, a queue for each side and price.
A ladder that holds queues represents a book, the contents of the queues in price order.

## Main definitions

* `OrderPool.Sound p live`: no slot is at once free and live
* `Queues`: a queue of slots for each side and price
* `OrderLadder.Linked L q`: the ladder holds the queues `q`; a level may be empty
* `OrderLadder.WellFormed L q`: the ladder holds `q` and no level is empty
* `OrderLadder.Represents L b`: the ladder is well formed and its queues list the book `b`

## Main results

* `OrderPool.sound_allocate`, `OrderPool.sound_deallocate`: the pool hands out fresh slots
* `OrderLadder.Linked.lookup`: the hash map finds the orders of the queues
* `OrderLadder.Represents.find?_eq`: the hash map is the book's lookup
-/

namespace Ndfex

open Containers

/-! ## The pool -/

namespace OrderPool

/-- No slot is at once free and live, none is free twice, and every slot lies in a block. -/
structure Sound (p : OrderPool) (live : Slot → Prop) : Prop where
  free_nodup : p.freeList.Nodup
  free_dead : ∀ s ∈ p.freeList, ¬ live s
  free_lt : ∀ s : ℕ, s ∈ p.freeList → s < p.blocks * orderPoolBlockSize
  live_lt : ∀ s : ℕ, live s → s < p.blocks * orderPoolBlockSize

theorem sound_empty : empty.Sound fun _ => False :=
  ⟨List.nodup_nil, by simp [empty], by simp [empty], by simp⟩

theorem Sound.of_eq {p p' : OrderPool} {live live' : Slot → Prop} (h : p.Sound live)
    (hb : p'.blocks = p.blocks) (hf : p'.freeList = p.freeList)
    (hl : ∀ s, live' s → live s) : p'.Sound live' := by
  refine ⟨hf ▸ h.free_nodup, fun s hs hl' => h.free_dead s (hf ▸ hs) (hl s hl'), ?_, ?_⟩
  · rw [hf, hb]
    exact h.free_lt
  · rw [hb]
    exact fun s hs => h.live_lt s (hl s hs)

theorem freeList_addBlock (p : OrderPool) :
    p.addBlock.freeList =
      ((List.range orderPoolBlockSize).map (p.blocks * orderPoolBlockSize + ·)).reverse ++
        p.freeList := by
  simp only [addBlock]
  generalize List.range orderPoolBlockSize = is
  generalize p.freeList = free
  induction is generalizing free with
  | nil => rfl
  | cons i is ih => simp [ih]

/-- A new block adds the free slots of its own range. -/
theorem mem_freeList_addBlock {p : OrderPool} {s : ℕ} :
    s ∈ p.addBlock.freeList ↔
      (p.blocks * orderPoolBlockSize ≤ s ∧ s < (p.blocks + 1) * orderPoolBlockSize) ∨
        s ∈ p.freeList := by
  rw [freeList_addBlock, List.mem_append, List.mem_reverse, List.mem_map]
  refine or_congr_left ⟨?_, fun ⟨hlo, hhi⟩ => ?_⟩
  · rintro ⟨i, hi, rfl⟩
    have := List.mem_range.mp hi
    rw [Nat.succ_mul]
    exact ⟨Nat.le_add_right _ _, Nat.add_lt_add_left this _⟩
  · rw [Nat.succ_mul] at hhi
    refine ⟨s - p.blocks * orderPoolBlockSize, List.mem_range.mpr ?_, ?_⟩ <;> omega

theorem sound_addBlock {p : OrderPool} {live : Slot → Prop} (h : p.Sound live) :
    p.addBlock.Sound live := by
  have hblocks : p.addBlock.blocks * orderPoolBlockSize =
      p.blocks * orderPoolBlockSize + orderPoolBlockSize := Nat.succ_mul _ _
  refine ⟨?_, fun s hs hl => ?_, fun s hs => ?_, fun s hs => ?_⟩
  · rw [freeList_addBlock]
    refine List.Nodup.append ?_ h.free_nodup fun s hs hs' => ?_
    · rw [List.nodup_reverse]
      exact List.nodup_range.map fun i j hij => Nat.add_left_cancel hij
    · obtain ⟨i, -, rfl⟩ := List.mem_map.mp (List.mem_reverse.mp hs)
      exact absurd (h.free_lt _ hs') (Nat.not_lt.mpr (Nat.le_add_right _ _))
  · rcases mem_freeList_addBlock.mp hs with hs | hs
    · exact absurd (h.live_lt s hl) (Nat.not_lt.mpr hs.1)
    · exact h.free_dead s hs hl
  · rcases mem_freeList_addBlock.mp hs with hs | hs
    · exact hs.2
    · have := h.free_lt s hs
      omega
  · have := h.live_lt s hs
    omega

theorem slots_allocate (p : OrderPool) : p.allocate.2.slots = p.slots := by
  simp only [allocate]
  split_ifs <;> rfl

/-- **The pool hands out a fresh slot.** -/
theorem sound_allocate {p : OrderPool} {live : Slot → Prop} (h : p.Sound live) :
    ¬ live p.allocate.1 ∧ p.allocate.2.Sound fun s => live s ∨ s = p.allocate.1 := by
  have key : ∀ p' : OrderPool, p'.Sound live → p'.freeList ≠ [] →
      ¬ live (p'.freeList.headD 0) ∧
        OrderPool.Sound { p' with freeList := p'.freeList.tail }
          fun s => live s ∨ s = p'.freeList.headD 0 := by
    intro p' h' hne
    obtain ⟨s, free, hf⟩ := List.exists_cons_of_ne_nil hne
    obtain ⟨hs, hnd⟩ := List.nodup_cons.mp (hf ▸ h'.free_nodup)
    simp only [hf, List.headD_cons, List.tail_cons]
    refine ⟨h'.free_dead s (by simp [hf]), hnd, ?_, ?_, ?_⟩
    · rintro s' hs' (hl | rfl)
      · exact h'.free_dead s' (by simp [hf, hs']) hl
      · exact hs hs'
    · exact fun s' hs' => h'.free_lt s' (by simp [hf, hs'])
    · rintro s' (hl | rfl)
      · exact h'.live_lt s' hl
      · exact h'.free_lt s' (by simp [hf])
  simp only [allocate]
  split_ifs with hfree
  · refine key _ (sound_addBlock h) ?_
    rw [freeList_addBlock, orderPoolBlockSize]
    simp
  · exact key p h hfree

theorem slots_deallocate (p : OrderPool) (s : Slot) :
    (p.deallocate s).slots =
      Function.update p.slots s { p.slots s with next := none, prev := none } := rfl

/-- **The pool takes a live slot back.** -/
theorem sound_deallocate {p : OrderPool} {live : Slot → Prop} (h : p.Sound live) {s : Slot}
    (hs : live s) : (p.deallocate s).Sound fun s' => live s' ∧ s' ≠ s := by
  have hnot : s ∉ p.freeList := fun hs' => h.free_dead s hs' hs
  refine ⟨List.nodup_cons.mpr ⟨hnot, h.free_nodup⟩, ?_, ?_, fun s' hs' => h.live_lt s' hs'.1⟩
  · rintro s' hs' ⟨hl, hne⟩
    rcases List.mem_cons.mp hs' with rfl | hs'
    · exact hne rfl
    · exact h.free_dead s' hs' hl
  · intro s' hs'
    rcases List.mem_cons.mp hs' with rfl | hs'
    · exact h.live_lt s' hs
    · exact h.free_lt s' hs'

end OrderPool

/-! ## The queues -/

/-- A queue of slots for each side and price. -/
abbrev Queues := BookSide → Int32 → List Slot

/-- The queues without a slot. -/
def Queues.remove (q : Queues) (s : Slot) : Queues := fun h p => (q h p).filter (· ≠ s)

/-- The queues with a slot added at the back of one. -/
def Queues.add (q : Queues) (h : BookSide) (p : Int32) (s : Slot) : Queues :=
  Function.update q h (Function.update (q h) p (q h p ++ [s]))

/-- A slot stands in one of the queues. -/
def Queues.Holds (q : Queues) (s : Slot) : Prop := ∃ h p, s ∈ q h p

namespace OrderLadder

/-- The ladder holds the queues `q`. A level may be empty, as it is between the removal of its last
order and its own. -/
structure Linked (L : OrderLadder) (q : Queues) : Prop where
  level : ∀ h p lvl, (L.levels h).find? p = some lvl →
    lvl.head = (q h p).head? ∧ lvl.tail = (q h p).getLast?
  threaded : ∀ h p, Threaded (fun s => (L.order s).next) (fun s => (L.order s).prev) none (q h p)
    none
  present : ∀ h p, q h p ≠ [] → p ∈ (L.levels h).keys
  filed : ∀ h p, ∀ s ∈ q h p, (L.order s).price = p ∧ (L.order s).side.bookSide = h
  indexed : ∀ e s, L.orders.lookup e = some s ↔ (L.order s).orderId = e ∧ q.Holds s
  nodup : ∀ h p, (q h p).Nodup
  pool : L.orderPool.Sound q.Holds

/-- The ladder holds the queues `q` and every level has an order. -/
structure WellFormed (L : OrderLadder) (q : Queues) : Prop extends Linked L q where
  nonempty : ∀ h, ∀ p ∈ (L.levels h).keys, q h p ≠ []

/-- The orders of a queue. -/
def queueOrders (L : OrderLadder) (q : Queues) (h : BookSide) (p : Int32) : List RestingOrder :=
  (q h p).map fun s => (L.order s).resting

/-- The orders of a side, level by level. -/
def sideOrders (L : OrderLadder) (q : Queues) (h : BookSide) : List RestingOrder :=
  (L.levels h).keys.flatMap (L.queueOrders q h)

/-- The book that the queues list. -/
def bookOf (L : OrderLadder) (q : Queues) : PriorityBook :=
  ⟨L.sideOrders q .buy, L.sideOrders q .sell⟩

/-- **The representation relation**: the ladder is well formed and its queues list the book. -/
def Represents (L : OrderLadder) (b : PriorityBook) : Prop := ∃ q, L.WellFormed q ∧ L.bookOf q = b

@[simp] theorem half_bookOf (L : OrderLadder) (q : Queues) (h : BookSide) :
    (L.bookOf q).half h = L.sideOrders q h := by cases h <;> rfl

@[simp] theorem levels_setLevels (L : OrderLadder) (h : BookSide) (m : PriceLevels h) :
    (L.setLevels h m).levels h = m := by cases h <;> rfl

theorem levels_setLevels_of_ne (L : OrderLadder) {h h' : BookSide} (hne : h' ≠ h)
    (m : PriceLevels h) : (L.setLevels h m).levels h' = L.levels h' := by
  cases h <;> cases h' <;> simp_all [levels, setLevels]

@[simp] theorem orders_setLevels (L : OrderLadder) (h : BookSide) (m : PriceLevels h) :
    (L.setLevels h m).orders = L.orders := by cases h <;> rfl

@[simp] theorem orderPool_setLevels (L : OrderLadder) (h : BookSide) (m : PriceLevels h) :
    (L.setLevels h m).orderPool = L.orderPool := by cases h <;> rfl

@[simp] theorem symbol_setLevels (L : OrderLadder) (h : BookSide) (m : PriceLevels h) :
    (L.setLevels h m).symbol = L.symbol := by cases h <;> rfl

theorem order_setLevels (L : OrderLadder) (h : BookSide) (m : PriceLevels h) (s : Slot) :
    (L.setLevels h m).order s = L.order s := by cases h <;> rfl

/-- The empty ladder represents the empty book. -/
theorem represents_empty (symbol : UInt32) : (empty symbol).Represents PriorityBook.empty := by
  refine ⟨fun _ _ => [], ⟨⟨?_, ?_, ?_, ?_, ?_, ?_, ?_⟩, ?_⟩, rfl⟩
  · rintro (_ | _) p lvl hl <;> simp [empty, levels] at hl
  · exact fun _ _ => trivial
  · simp
  · simp
  · simp [empty, Queues.Holds]
  · simp
  · exact OrderPool.sound_empty.of_eq rfl rfl (by simp [Queues.Holds])
  · rintro (_ | _) p hp <;> simp [empty, levels] at hp

namespace Linked

variable {L : OrderLadder} {q : Queues}

/-- A slot of a queue stands in no other queue. -/
theorem eq_of_mem (hL : L.Linked q) {h h' : BookSide} {p p' : Int32} {s : Slot}
    (hs : s ∈ q h p) (hs' : s ∈ q h' p') : h = h' ∧ p = p' := by
  obtain ⟨h₁, h₂⟩ := hL.filed h p s hs
  obtain ⟨h₃, h₄⟩ := hL.filed h' p' s hs'
  exact ⟨h₂.symm.trans h₄, h₁.symm.trans h₃⟩

theorem mem_queue (hL : L.Linked q) {s : Slot} (hs : q.Holds s) :
    s ∈ q (L.order s).side.bookSide (L.order s).price := by
  obtain ⟨h, p, hs⟩ := hs
  obtain ⟨h₁, h₂⟩ := hL.filed h p s hs
  rwa [h₁, h₂]

/-- The hash map finds the order of a queued slot. -/
theorem lookup (hL : L.Linked q) {s : Slot} (hs : q.Holds s) :
    L.orders.lookup (L.order s).orderId = some s :=
  (hL.indexed _ _).mpr ⟨rfl, hs⟩

/-- Queued slots have distinct ids. -/
theorem eq_of_orderId (hL : L.Linked q) {s s' : Slot} (hs : q.Holds s) (hs' : q.Holds s')
    (he : (L.order s).orderId = (L.order s').orderId) : s = s' := by
  have h := hL.lookup hs
  rw [he, hL.lookup hs'] at h
  exact (Option.some.inj h).symm

/-- A queue is no longer than the hash map. -/
theorem length_queue_le (hL : L.Linked q) (h : BookSide) (p : Int32) :
    (q h p).length ≤ L.orders.keys.length := by
  have hnd : ((q h p).map fun s => (L.order s).orderId).Nodup :=
    (hL.nodup h p).map_on fun s hs s' hs' he => hL.eq_of_orderId ⟨h, p, hs⟩ ⟨h, p, hs'⟩ he
  have hsub : (q h p).map (fun s => (L.order s).orderId) ⊆ L.orders.keys := by
    intro e he
    obtain ⟨s, hs, rfl⟩ := List.mem_map.mp he
    exact AList.mem_keys.mp (AList.lookup_isSome.mp (by rw [hL.lookup ⟨h, p, hs⟩]; rfl))
  simpa using (hnd.subperm hsub).length_le

theorem mem_sideOrders (hL : L.Linked q) {h : BookSide} {o : RestingOrder} :
    o ∈ L.sideOrders q h ↔ ∃ p, ∃ s ∈ q h p, (L.order s).resting = o := by
  simp only [sideOrders, queueOrders, List.mem_flatMap, List.mem_map]
  constructor
  · rintro ⟨p, -, s, hs, rfl⟩
    exact ⟨p, s, hs, rfl⟩
  · rintro ⟨p, s, hs, rfl⟩
    exact ⟨p, hL.present h p (List.ne_nil_of_mem hs), s, hs, rfl⟩

theorem mem_orders_bookOf (hL : L.Linked q) {o : RestingOrder} :
    o ∈ (L.bookOf q).orders ↔ ∃ s, q.Holds s ∧ (L.order s).resting = o := by
  simp only [PriorityBook.mem_orders, half_bookOf, hL.mem_sideOrders]
  constructor
  · rintro ⟨h, p, s, hs, rfl⟩
    exact ⟨s, ⟨h, p, hs⟩, rfl⟩
  · rintro ⟨s, ⟨h, p, hs⟩, rfl⟩
    exact ⟨h, p, s, hs, rfl⟩

/-- **The hash map is the book's lookup.** -/
theorem find?_bookOf (hL : L.Linked q) (e : UInt64) :
    (L.bookOf q).find? e = (L.orders.lookup e).map fun s => (L.order s).resting := by
  cases hl : L.orders.lookup e with
  | none =>
    refine List.find?_eq_none.mpr fun o ho => ?_
    obtain ⟨s, hs, rfl⟩ := hL.mem_orders_bookOf.mp ho
    have hne : (L.order s).orderId ≠ e := by
      rintro rfl
      rw [hL.lookup hs] at hl
      cases hl
    exact fun h => hne (of_decide_eq_true h)
  | some s =>
    obtain ⟨rfl, hs⟩ := (hL.indexed e s).mp hl
    cases hf : (L.bookOf q).find? (L.order s).orderId with
    | none =>
      have := List.find?_eq_none.mp hf _ (hL.mem_orders_bookOf.mpr ⟨s, hs, rfl⟩)
      simp [Order.resting] at this
    | some o =>
      obtain ⟨s', hs', rfl⟩ := hL.mem_orders_bookOf.mp (List.mem_of_find?_eq_some hf)
      have he := List.find?_some hf
      rw [hL.eq_of_orderId hs' hs (of_decide_eq_true he)]
      rfl

end Linked

/-- The hash map of a ladder is the lookup of the book it represents. -/
theorem Represents.find?_eq {L : OrderLadder} {b : PriorityBook} (h : L.Represents b)
    (e : UInt64) : b.find? e = (L.orders.lookup e).map fun s => (L.order s).resting := by
  obtain ⟨q, hq, rfl⟩ := h
  exact hq.toLinked.find?_bookOf e

end OrderLadder

end Ndfex
