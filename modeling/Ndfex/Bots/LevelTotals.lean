import Ndfex.Containers.MapTotals
import Ndfex.Bots.OrderBook

/-!
# The levels of a bot's book

The book keeps a quantity for each price, which it adds to and takes from as the orders come and go. As
long as no order is entered with quantity zero and no level exceeds 32 bits, each level is the total of
the orders at its price, and a price without orders has no level.

## Main definitions

* `OrderBook.atLevel b h price`: the quantity of the orders of a side at a price
* `OrderBook.Tallied`: the levels are these totals
* `OrderBook.Same`: two books show the same orders and the same levels

## Main results

* `OrderBook.Tallied.newOrder`, …, `OrderBook.Tallied.orderTrade`: the methods keep the levels
* `OrderBook.Tallied.same`: two such books of the same orders are the same
* `MDClient.Tallied.onBook`: the books of a client
-/

namespace Ndfex.Bots

open Containers

/-- The quantity that an order adds to a level. -/
def Order.weight (h : BookSide) (price : Int32) (o : Order) : ℕ :=
  if o.side.bookSide = h ∧ o.price = price then o.quantity.toNat else 0

namespace OrderBook

variable {b b' : OrderBook} {h : BookSide} {price : Int32} {quantity : UInt32}
  {t t' : BookSide → Int32 → ℕ}

/-- The quantity of the orders of a side at a price. -/
def atLevel (b : OrderBook) (h : BookSide) (price : Int32) : ℕ :=
  AList.total (Order.weight h price) b.orders

/-- The level of a side at a price. -/
def level (b : OrderBook) (h : BookSide) (price : Int32) : Option UInt32 :=
  (b.levels h).find? price

/-- The level of a total: none if there is nothing. -/
def levelOf (n : ℕ) : Option UInt32 := if n = 0 then none else some (UInt32.ofNat n)

theorem levelOf_getD {n : ℕ} (hn : n < 2 ^ 32) : ((levelOf n).getD 0).toNat = n := by
  unfold levelOf
  split_ifs with h0
  · rw [h0]
    rfl
  · rw [Option.getD_some]
    exact UInt32.toNat_ofNat_of_lt' hn

/-- Something is left of a level that is not used up. -/
theorem levelOf_sub {n : ℕ} (hn : n < 2 ^ 32) (hq : quantity.toNat ≤ n) :
    (if (levelOf n).getD 0 - quantity = 0 then none
      else some ((levelOf n).getD 0 - quantity)) = levelOf (n - quantity.toNat) := by
  have hleft : ((levelOf n).getD 0 - quantity).toNat = n - quantity.toNat := by
    rw [UInt32.toNat_sub_of_le, levelOf_getD hn]
    rw [UInt32.le_iff_toNat_le, levelOf_getD hn]
    exact hq
  generalize (levelOf n).getD 0 - quantity = left at hleft ⊢
  rw [← hleft, levelOf, UInt32.ofNat_toNat]
  exact if_congr UInt32.toNat_inj.symm rfl rfl

theorem levelOf_add {n : ℕ} (hq : quantity ≠ 0) (hn : n + quantity.toNat < 2 ^ 32) :
    some ((levelOf n).getD 0 + quantity) = levelOf (n + quantity.toNat) := by
  have hpos : quantity.toNat ≠ 0 := fun h0 => hq (UInt32.toNat_inj.mp h0)
  have hsum : levelOf (n + quantity.toNat) = some (UInt32.ofNat (n + quantity.toNat)) :=
    if_neg (by omega)
  rw [hsum, Option.some_inj, ← UInt32.toNat_inj, UInt32.toNat_add, levelOf_getD (by omega),
    UInt32.toNat_ofNat_of_lt' hn, Nat.mod_eq_of_lt hn]

/-! ### The level maps -/

theorem level_setLevels (b : OrderBook) (h h' : BookSide) (m : OrderedMap h.better UInt32)
    (price : Int32) :
    (b.setLevels h m).level h' price = if h' = h then m.find? price else b.level h' price := by
  cases h <;> cases h' <;> rfl

theorem level_addToLevel (b : OrderBook) (h h' : BookSide) (price price' : Int32)
    (quantity : UInt32) :
    (b.addToLevel h price quantity).level h' price' =
      if h' = h ∧ price' = price then some ((b.level h price).getD 0 + quantity)
      else b.level h' price' := by
  rw [addToLevel, level_setLevels, OrderedMap.find?_insert]
  by_cases hh : h' = h
  · subst hh
    simp [level]
  · simp [hh]

/-- The book with a level set to what is left of it. -/
theorem level_left (b : OrderBook) (h h' : BookSide) (price price' : Int32) (left : UInt32) :
    (if left = 0 then b.setLevels h ((b.levels h).erase price)
      else b.setLevels h ((b.levels h).insert price left)).level h' price' =
      if h' = h ∧ price' = price then (if left = 0 then none else some left)
      else b.level h' price' := by
  split_ifs with hleft hboth hboth
  · obtain ⟨rfl, rfl⟩ := hboth
    rw [level_setLevels, if_pos rfl, OrderedMap.find?_erase, if_pos rfl]
  · rw [level_setLevels, OrderedMap.find?_erase]
    by_cases hh : h' = h
    · subst hh
      rw [if_pos rfl, if_neg fun hp => hboth ⟨rfl, hp⟩]
      rfl
    · rw [if_neg hh]
  · obtain ⟨rfl, rfl⟩ := hboth
    rw [level_setLevels, if_pos rfl, OrderedMap.find?_insert, if_pos rfl]
  · rw [level_setLevels, OrderedMap.find?_insert]
    by_cases hh : h' = h
    · subst hh
      rw [if_pos rfl, if_neg fun hp => hboth ⟨rfl, hp⟩]
      rfl
    · rw [if_neg hh]

/-- The levels of a book are totals. -/
def Levels (b : OrderBook) (t : BookSide → Int32 → ℕ) : Prop :=
  ∀ h price, t h price < 2 ^ 32 ∧ b.level h price = levelOf (t h price)

/-- **A quantity is added** to a level. -/
theorem Levels.addToLevel (ht : b.Levels t) (hq : quantity ≠ 0)
    (hadd : ∀ h' price', t' h' price' = t h' price' +
      if h' = h ∧ price' = price then quantity.toNat else 0)
    (hfits : t' h price < 2 ^ 32) : (b.addToLevel h price quantity).Levels t' := by
  intro h' price'
  rw [level_addToLevel]
  by_cases hboth : h' = h ∧ price' = price
  · obtain ⟨rfl, rfl⟩ := hboth
    have hsum := hadd h' price'
    rw [if_pos ⟨rfl, rfl⟩] at hsum
    rw [hsum] at hfits
    rw [if_pos ⟨rfl, rfl⟩, hsum, (ht h' price').2]
    exact ⟨hfits, levelOf_add hq hfits⟩
  · have hsum := hadd h' price'
    rw [if_neg hboth, Nat.add_zero] at hsum
    rw [if_neg hboth, hsum]
    exact ht h' price'

/-- **A quantity is taken** from a level. -/
theorem Levels.left (ht : b.Levels t)
    (hsub : ∀ h' price', t h' price' = t' h' price' +
      if h' = h ∧ price' = price then quantity.toNat else 0)
    (hlevels : ∀ h' price', b'.level h' price' =
      if h' = h ∧ price' = price then
        (if (b.level h price).getD 0 - quantity = 0 then none
          else some ((b.level h price).getD 0 - quantity))
      else b.level h' price') : b'.Levels t' := by
  intro h' price'
  obtain ⟨hfits, hlevel⟩ := ht h' price'
  have hsum := hsub h' price'
  rw [hlevels]
  by_cases hboth : h' = h ∧ price' = price
  · obtain ⟨rfl, rfl⟩ := hboth
    rw [if_pos ⟨rfl, rfl⟩] at hsum
    have hrest : t' h' price' = t h' price' - quantity.toNat := by omega
    rw [if_pos ⟨rfl, rfl⟩, hlevel, hrest]
    exact ⟨by omega, levelOf_sub hfits (by omega)⟩
  · rw [if_neg hboth, Nat.add_zero] at hsum
    rw [if_neg hboth, hlevel, hsum]
    exact ⟨hsum ▸ hfits, rfl⟩

/-! ### The methods -/

/-- The levels are the totals of the orders. -/
def Tallied (b : OrderBook) : Prop := b.Levels b.atLevel

theorem Tallied.fits (hb : b.Tallied) (h : BookSide) (price : Int32) : b.atLevel h price < 2 ^ 32 :=
  (hb h price).1

theorem tallied_empty : empty.Tallied := fun h price => by
  cases h <;> exact ⟨Nat.two_pow_pos 32, rfl⟩

/-- What the levels say of one order and of the others. -/
theorem atLevel_erase {orderId : UInt64} {o : Order} (ho : b.orders.lookup orderId = some o)
    (h : BookSide) (price : Int32) :
    b.atLevel h price = AList.total (Order.weight h price) (b.orders.erase orderId) +
      if h = o.side.bookSide ∧ price = o.price then o.quantity.toNat else 0 := by
  rw [atLevel, AList.total_erase _ _ orderId, ho, Option.elim_some, Order.weight, Nat.add_comm]
  simp only [eq_comm]

theorem total_insert (m : AList fun _ : UInt64 => Order) (orderId : UInt64) (o : Order)
    (h : BookSide) (price : Int32) :
    AList.total (Order.weight h price) (m.insert orderId o) =
      AList.total (Order.weight h price) (m.erase orderId) +
        if h = o.side.bookSide ∧ price = o.price then o.quantity.toNat else 0 := by
  rw [AList.total_insert, Order.weight, Nat.add_comm]
  simp only [eq_comm]

/-- An id that is new adds to the totals. -/
theorem atLevel_newOrder {orderId : UInt64} (hnew : b.orders.lookup orderId = none) (side : Side)
    (quantity : UInt32) (price : Int32) (h' : BookSide) (price' : Int32) :
    (b.newOrder orderId side quantity price).atLevel h' price' = b.atLevel h' price' +
      if h' = side.bookSide ∧ price' = price then quantity.toNat else 0 := by
  have horders : (b.newOrder orderId side quantity price).orders =
      b.orders.insert orderId ⟨side, price, quantity⟩ := by
    simp [newOrder, hnew]
  rw [atLevel, horders, total_insert, atLevel, AList.total_erase _ b.orders orderId, hnew,
    Option.elim_none, Nat.zero_add]

/-- What a deletion takes off the totals. -/
theorem atLevel_deleteOrder {orderId : UInt64} {o : Order} (ho : b.orders.lookup orderId = some o)
    (h : BookSide) (price : Int32) :
    b.atLevel h price = (b.deleteOrder orderId).atLevel h price +
      if h = o.side.bookSide ∧ price = o.price then o.quantity.toNat else 0 := by
  have horders : (b.deleteOrder orderId).orders = b.orders.erase orderId := by
    simp only [OrderBook.deleteOrder, ho]
    split_ifs <;> simp
  rw [atLevel_erase ho, ← horders, atLevel]

/-- A modification takes the order off the totals, and adds what it is then. -/
theorem atLevel_modifyOrder {orderId : UInt64} {o : Order} (ho : b.orders.lookup orderId = some o)
    (side : Side) (quantity : UInt32) (price : Int32) (h' : BookSide) (price' : Int32) :
    (b.modifyOrder orderId side quantity price).atLevel h' price' =
      (b.deleteOrder orderId).atLevel h' price' +
        if h' = side.bookSide ∧ price' = price then quantity.toNat else 0 := by
  have horders : (b.modifyOrder orderId side quantity price).orders =
      b.orders.insert orderId ⟨side, price, quantity⟩ := by
    simp [OrderBook.modifyOrder, ho]
  have herased : (b.deleteOrder orderId).orders = b.orders.erase orderId := by
    simp only [OrderBook.deleteOrder, ho]
    split_ifs <;> simp
  rw [atLevel, horders, total_insert, ← herased, atLevel]

theorem Tallied.newOrder (hb : b.Tallied) {orderId : UInt64} {side : Side} (hq : quantity ≠ 0)
    (hnew : b.orders.lookup orderId = none)
    (hfits : (b.newOrder orderId side quantity price).atLevel side.bookSide price < 2 ^ 32) :
    (b.newOrder orderId side quantity price).Tallied := by
  have hadd : (b.addToLevel side.bookSide price quantity).Levels
      (b.newOrder orderId side quantity price).atLevel :=
    Levels.addToLevel hb hq (fun h' price' => atLevel_newOrder hnew ..) hfits
  intro h' price'
  refine ⟨(hadd h' price').1, Eq.trans ?_ (hadd h' price').2⟩
  rw [OrderBook.newOrder, hnew, level_addToLevel, level_addToLevel]
  rfl

/-- The book without an order: its levels, and its level map. -/
theorem Levels.deleteOrderFromLevels (hb : b.Tallied) {orderId : UInt64} {o : Order}
    (ho : b.orders.lookup orderId = some o) :
    (b.deleteOrderFromLevels o.side.bookSide orderId).Levels fun h price =>
      AList.total (Order.weight h price) (b.orders.erase orderId) := by
  have hpart := atLevel_erase ho o.side.bookSide o.price
  obtain ⟨hfits, hlevel⟩ := hb o.side.bookSide o.price
  rw [if_pos ⟨rfl, rfl⟩] at hpart
  refine Levels.left hb (atLevel_erase ho) fun h' price' => ?_
  have hle : o.quantity.toNat ≤ ((b.level o.side.bookSide o.price).getD 0).toNat := by
    rw [hlevel, levelOf_getD hfits]
    omega
  unfold OrderBook.deleteOrderFromLevels
  rw [ho]
  dsimp only
  cases hfound : (b.levels o.side.bookSide).find? o.price with
  | none =>
    -- there is no level: the order has no quantity
    have hnone : b.level o.side.bookSide o.price = none := hfound
    have hzero : o.quantity = 0 := by
      rw [hnone] at hle
      exact UInt32.toNat_inj.mp (Nat.le_zero.mp hle)
    dsimp only
    split_ifs with hboth hleft
    · rw [hboth.1, hboth.2, hnone]
    · rw [hnone, hzero] at hleft
      exact absurd rfl hleft
    · rfl
  | some left =>
    have hsome : b.level o.side.bookSide o.price = some left := hfound
    rw [hsome, Option.getD_some] at hle
    dsimp only
    rw [if_neg fun hless => Nat.not_lt.mpr hle (UInt32.lt_iff_toNat_lt.mp hless), level_left, hsome,
      Option.getD_some]

theorem Tallied.deleteOrder (hb : b.Tallied) (orderId : UInt64) :
    (b.deleteOrder orderId).Tallied := by
  unfold OrderBook.deleteOrder
  cases ho : b.orders.lookup orderId with
  | none => exact hb
  | some o =>
    have htaken := Levels.deleteOrderFromLevels hb ho
    dsimp only
    split_ifs with hzero
    · -- an order without quantity is in no level
      intro h price
      have hpart := atLevel_erase ho h price
      rw [hzero, UInt32.toNat_zero, ite_self, Nat.add_zero] at hpart
      have hsame := hb h price
      rw [hpart] at hsame
      exact hsame
    · intro h price
      have hrest := htaken h price
      rw [atLevel, orders_deleteOrderFromLevels]
      exact hrest

theorem Tallied.modifyOrder (hb : b.Tallied) {orderId : UInt64} {side : Side} (hq : quantity ≠ 0)
    (hfits : (b.modifyOrder orderId side quantity price).atLevel side.bookSide price < 2 ^ 32) :
    (b.modifyOrder orderId side quantity price).Tallied := by
  cases ho : b.orders.lookup orderId with
  | none => rwa [OrderBook.modifyOrder, ho]
  | some o =>
    have horders : (b.modifyOrder orderId side quantity price).orders =
        b.orders.insert orderId ⟨side, price, quantity⟩ := by
      simp [OrderBook.modifyOrder, ho]
    have hadd : ((b.deleteOrderFromLevels o.side.bookSide orderId).addToLevel side.bookSide price
        quantity).Levels (b.modifyOrder orderId side quantity price).atLevel :=
      Levels.addToLevel (Levels.deleteOrderFromLevels hb ho) hq
        (fun h' price' => by rw [atLevel, horders, total_insert]) hfits
    intro h' price'
    refine ⟨(hadd h' price').1, Eq.trans ?_ (hadd h' price').2⟩
    rw [OrderBook.modifyOrder, ho]
    rfl

/-- Taking from a level that is not used up, or by an order that is. -/
theorem level_takeFromLevel {usedUp : Bool}
    (hleft : usedUp = true ∨ (b.level h price).getD 0 - quantity ≠ 0) (h' : BookSide)
    (price' : Int32) :
    (b.takeFromLevel h price quantity usedUp).level h' price' =
      if h' = h ∧ price' = price then
        (if (b.level h price).getD 0 - quantity = 0 then none
          else some ((b.level h price).getD 0 - quantity))
      else b.level h' price' := by
  rw [← level_left]
  congr 1
  unfold takeFromLevel
  refine if_congr ?_ rfl rfl
  rw [Bool.and_eq_true, decide_eq_true_iff]
  refine ⟨fun hboth => hboth.2, fun hzero => ⟨?_, hzero⟩⟩
  exact hleft.resolve_right fun hne => hne hzero

theorem Tallied.orderTrade (hb : b.Tallied) (orderId : UInt64) (quantity : UInt32) :
    (b.orderTrade orderId quantity).Tallied := by
  unfold OrderBook.orderTrade
  cases ho : b.orders.lookup orderId with
  | none => exact hb
  | some o =>
    have hpart := atLevel_erase ho o.side.bookSide o.price
    obtain ⟨hfits, hlevel⟩ := hb o.side.bookSide o.price
    rw [if_pos ⟨rfl, rfl⟩] at hpart
    dsimp only
    -- a trade of more than the order has is skipped
    by_cases hless : o.quantity < quantity
    · rwa [if_pos hless]
    have hle := UInt32.le_iff_toNat_le.mp (UInt32.not_lt.mp hless)
    have hleft : (o.quantity - quantity).toNat = o.quantity.toNat - quantity.toNat :=
      UInt32.toNat_sub_of_le _ _ (UInt32.le_iff_toNat_le.mpr hle)
    rw [if_neg hless]
    split_ifs with hused
    · -- the order is used up
      have hq : o.quantity.toNat = quantity.toNat := by
        rw [hused, UInt32.toNat_zero] at hleft
        omega
      have hrest : (takeFromLevel { b with orders := b.orders.erase orderId } o.side.bookSide o.price
          quantity true).Levels fun h price =>
            AList.total (Order.weight h price) (b.orders.erase orderId) :=
        Levels.left hb (fun h' price' => by rw [atLevel_erase ho, hq])
          (level_takeFromLevel (Or.inl rfl))
      intro h price
      rw [atLevel, orders_takeFromLevel]
      exact hrest h price
    · -- the order stays, and so does its level, which has at least what is left of it
      have hpos : (o.quantity - quantity).toNat ≠ 0 := fun h0 => hused (UInt32.toNat_inj.mp h0)
      have hlevelLeft : (b.level o.side.bookSide o.price).getD 0 - quantity ≠ 0 := by
        intro h0
        have hlevelLe : quantity.toNat ≤ ((b.level o.side.bookSide o.price).getD 0).toNat := by
          rw [hlevel, levelOf_getD hfits]
          omega
        have hsub := UInt32.toNat_sub_of_le _ _ (UInt32.le_iff_toNat_le.mpr hlevelLe)
        rw [h0, hlevel, levelOf_getD hfits, UInt32.toNat_zero] at hsub
        omega
      have hrest : (takeFromLevel { b with
          orders := b.orders.insert orderId { o with quantity := o.quantity - quantity } }
            o.side.bookSide o.price quantity false).Levels fun h price =>
              AList.total (Order.weight h price)
                (b.orders.insert orderId { o with quantity := o.quantity - quantity }) := by
        refine Levels.left hb (fun h' price' => ?_) (level_takeFromLevel (Or.inr hlevelLeft))
        rw [atLevel_erase ho, total_insert]
        dsimp only
        split_ifs
        · omega
        · rfl
      intro h price
      rw [atLevel, orders_takeFromLevel]
      exact hrest h price

/-! ### Books of the same orders -/

/-- Two books show the same orders and the same levels. -/
structure Same (b b' : OrderBook) : Prop where
  orders : ∀ e, b.orders.lookup e = b'.orders.lookup e
  level : ∀ h price, b.level h price = b'.level h price

/-- **The levels are determined by the orders.** -/
theorem Tallied.same (hb : b.Tallied) (hb' : b'.Tallied)
    (horders : ∀ e, b.orders.lookup e = b'.orders.lookup e) : b.Same b' := by
  refine ⟨horders, fun h price => ?_⟩
  rw [(hb h price).2, (hb' h price).2, atLevel, AList.total_congr horders, atLevel]

theorem Same.refl (b : OrderBook) : b.Same b := ⟨fun _ => rfl, fun _ _ => rfl⟩

theorem Same.symm (h : b.Same b') : b'.Same b :=
  ⟨fun e => (h.orders e).symm, fun side price => (h.level side price).symm⟩

theorem Same.trans {b'' : OrderBook} (h : b.Same b') (h' : b'.Same b'') : b.Same b'' :=
  ⟨fun e => (h.orders e).trans (h'.orders e),
    fun side price => (h.level side price).trans (h'.level side price)⟩

/-- What is left of a level without an order. -/
def leave (quantity : UInt32) (l : Option UInt32) : Option UInt32 :=
  l.bind fun total =>
    if total < quantity then some total
    else if total - quantity = 0 then none
    else some (total - quantity)

theorem level_deleteOrderFromLevels (b : OrderBook) (h h' : BookSide) (orderId : UInt64)
    (price' : Int32) :
    (b.deleteOrderFromLevels h orderId).level h' price' =
      match b.orders.lookup orderId with
      | none => b.level h' price'
      | some o =>
        if h' = h ∧ price' = o.price then leave o.quantity (b.level h o.price)
        else b.level h' price' := by
  unfold OrderBook.deleteOrderFromLevels
  cases b.orders.lookup orderId with
  | none => rfl
  | some o =>
    dsimp only
    cases hfound : (b.levels h).find? o.price with
    | none =>
      have hnone : b.level h o.price = none := hfound
      dsimp only
      split_ifs with hboth
      · rw [hboth.1, hboth.2, hnone]
        rfl
      · rfl
    | some total =>
      have hsome : b.level h o.price = some total := hfound
      dsimp only
      by_cases hless : total < o.quantity
      · rw [if_pos hless, hsome, leave, Option.bind_some, if_pos hless]
        split_ifs with hboth
        · rw [hboth.1, hboth.2, hsome]
        · rfl
      · rw [if_neg hless, level_left, hsome, leave, Option.bind_some, if_neg hless]

theorem level_takeFromLevel_eq (b : OrderBook) (h h' : BookSide) (price price' : Int32)
    (quantity : UInt32) (usedUp : Bool) :
    (b.takeFromLevel h price quantity usedUp).level h' price' =
      if h' = h ∧ price' = price then
        (if usedUp = true ∧ (b.level h price).getD 0 - quantity = 0 then none
          else some ((b.level h price).getD 0 - quantity))
      else b.level h' price' := by
  unfold takeFromLevel
  simp only [Bool.and_eq_true, decide_eq_true_iff]
  by_cases hempty : usedUp = true ∧ ((b.levels h).find? price).getD 0 - quantity = 0
  · rw [if_pos hempty, level_setLevels, OrderedMap.find?_erase]
    by_cases hh : h' = h
    · subst hh
      simp only [true_and, if_true]
      exact if_congr Iff.rfl (if_pos hempty).symm rfl
    · rw [if_neg hh, if_neg fun hboth => hh hboth.1]
  · rw [if_neg hempty, level_setLevels, OrderedMap.find?_insert]
    by_cases hh : h' = h
    · subst hh
      simp only [true_and, if_true]
      exact if_congr Iff.rfl (if_neg hempty).symm rfl
    · rw [if_neg hh, if_neg fun hboth => hh hboth.1]

theorem Same.level_deleteOrderFromLevels (h : b.Same b') (side h' : BookSide) (orderId : UInt64)
    (price' : Int32) :
    (b.deleteOrderFromLevels side orderId).level h' price' =
      (b'.deleteOrderFromLevels side orderId).level h' price' := by
  rw [OrderBook.level_deleteOrderFromLevels, OrderBook.level_deleteOrderFromLevels, ← h.orders]
  cases b.orders.lookup orderId with
  | none => exact h.level h' price'
  | some o => simp only [h.level]

theorem Same.newOrder (h : b.Same b') (orderId : UInt64) (side : Side) (quantity : UInt32)
    (price : Int32) :
    (b.newOrder orderId side quantity price).Same (b'.newOrder orderId side quantity price) := by
  refine ⟨fun e => ?_, fun h' price' => ?_⟩
  · rw [lookup_newOrder, lookup_newOrder, h.orders, h.orders]
  · have hlevel : ∀ b₁ : OrderBook, (b₁.newOrder orderId side quantity price).level h' price' =
        if h' = side.bookSide ∧ price' = price then
          some ((b₁.level side.bookSide price).getD 0 + quantity)
        else b₁.level h' price' := by
      intro b₁
      rw [OrderBook.newOrder, level_addToLevel]
      split_ifs <;> rfl
    rw [hlevel, hlevel, h.level, h.level]

theorem Same.deleteOrder (h : b.Same b') (orderId : UInt64) :
    (b.deleteOrder orderId).Same (b'.deleteOrder orderId) := by
  refine ⟨fun e => ?_, fun h' price' => ?_⟩
  · rw [lookup_deleteOrder, lookup_deleteOrder, h.orders]
  · unfold OrderBook.deleteOrder
    rw [← h.orders]
    cases ho : b.orders.lookup orderId with
    | none => exact h.level h' price'
    | some o =>
      dsimp only
      split_ifs
      · exact h.level h' price'
      · exact h.level_deleteOrderFromLevels o.side.bookSide h' orderId price'

theorem Same.modifyOrder (h : b.Same b') (orderId : UInt64) (side : Side) (quantity : UInt32)
    (price : Int32) :
    (b.modifyOrder orderId side quantity price).Same
      (b'.modifyOrder orderId side quantity price) := by
  refine ⟨fun e => ?_, fun h' price' => ?_⟩
  · rw [lookup_modifyOrder, lookup_modifyOrder, h.orders, h.orders]
  · unfold OrderBook.modifyOrder
    rw [← h.orders]
    cases ho : b.orders.lookup orderId with
    | none => exact h.level h' price'
    | some o =>
      have hleft := fun h' price' =>
        h.level_deleteOrderFromLevels o.side.bookSide h' orderId price'
      have hadd := level_addToLevel (b.deleteOrderFromLevels o.side.bookSide orderId) side.bookSide h'
        price price' quantity
      have hadd' := level_addToLevel (b'.deleteOrderFromLevels o.side.bookSide orderId)
        side.bookSide h' price price' quantity
      rw [← hleft, ← hleft] at hadd'
      exact hadd.trans hadd'.symm

theorem Same.orderTrade (h : b.Same b') (orderId : UInt64) (quantity : UInt32) :
    (b.orderTrade orderId quantity).Same (b'.orderTrade orderId quantity) := by
  refine ⟨fun e => ?_, fun h' price' => ?_⟩
  · rw [lookup_orderTrade, lookup_orderTrade, h.orders, h.orders]
  · unfold OrderBook.orderTrade
    rw [← h.orders]
    cases ho : b.orders.lookup orderId with
    | none => exact h.level h' price'
    | some o =>
      dsimp only
      have htake : ∀ (m m' : AList fun _ : UInt64 => Order) (usedUp : Bool),
          (takeFromLevel { b with orders := m } o.side.bookSide o.price quantity usedUp).level h'
            price' = (takeFromLevel { b' with orders := m' } o.side.bookSide o.price quantity
              usedUp).level h' price' := by
        intro m m' usedUp
        have hsame : ∀ h price, OrderBook.level { b with orders := m } h price =
            OrderBook.level { b' with orders := m' } h price := fun h₁ price₁ => h.level h₁ price₁
        rw [level_takeFromLevel_eq, level_takeFromLevel_eq, hsame, hsame]
      split_ifs
      · exact h.level h' price'
      · exact htake ..
      · exact htake ..

end OrderBook

/-! ## The books of a client -/

namespace MDClient

variable {c c' : MDClient} {symbols : Set UInt32}

/-- The book of a symbol. -/
def book (c : MDClient) (symbol : UInt32) : OrderBook :=
  (c.symbolToOrderBook.lookup symbol).getD OrderBook.empty

theorem lookup_book (c : MDClient) (symbol : UInt32) (e : UInt64) :
    (c.book symbol).orders.lookup e = c.order symbol e := by
  unfold book order
  cases c.symbolToOrderBook.lookup symbol <;> rfl

/-- The levels of the books of some symbols are totals. -/
def Tallied (c : MDClient) (symbols : Set UInt32) : Prop := ∀ s ∈ symbols, (c.book s).Tallied

/-- The totals of the books of some symbols have 32 bits. -/
def Fits (c : MDClient) (symbols : Set UInt32) : Prop :=
  ∀ s ∈ symbols, ∀ h price, (c.book s).atLevel h price < 2 ^ 32

theorem tallied_empty (symbols : Set UInt32) : empty.Tallied symbols :=
  fun _ _ => OrderBook.tallied_empty

theorem atLevel_book_congr {symbol : UInt32} (horders : ∀ e, c.order symbol e = c'.order symbol e)
    (h : BookSide) (price : Int32) :
    (c.book symbol).atLevel h price = (c'.book symbol).atLevel h price :=
  AList.total_congr fun e => by rw [lookup_book, lookup_book, horders]

theorem Fits.congr (h : c.Fits symbols) (horders : ∀ s ∈ symbols, ∀ e, c'.order s e = c.order s e) :
    c'.Fits symbols := fun s hs side price => by
  rw [atLevel_book_congr (horders s hs)]
  exact h s hs side price

/-- Clients that show the same orders show the same books. -/
theorem Tallied.same (h : c.Tallied symbols) (h' : c'.Tallied symbols) {s : UInt32}
    (hs : s ∈ symbols) (horders : ∀ e, c.order s e = c'.order s e) : (c.book s).Same (c'.book s) :=
  (h s hs).same (h' s hs) fun e => by rw [lookup_book, lookup_book, horders]

theorem book_insert (c : MDClient) (symbol s : UInt32) (b : OrderBook) :
    book { c with symbolToOrderBook := c.symbolToOrderBook.insert symbol b } s =
      if s = symbol then b else c.book s := by
  unfold book
  dsimp only
  split_ifs with hs
  · rw [hs, AList.lookup_insert, Option.getD_some]
  · rw [AList.lookup_insert_ne hs]

theorem book_apply_newOrder (c : MDClient) (orderId : UInt64) (symbol : UInt32) (side : Side)
    (quantity : UInt32) (price : Int32) (flags : UInt8) (s : UInt32) :
    (c.apply (.newOrder orderId symbol side quantity price flags)).book s =
      if s = symbol then (c.book symbol).newOrder orderId side quantity price else c.book s :=
  book_insert { c with orderToSymbol := c.orderToSymbol.insert orderId symbol } symbol s _

/-- A method that does nothing to an empty book. -/
theorem book_onBook {f : OrderBook → OrderBook} (hf : f OrderBook.empty = OrderBook.empty)
    (c : MDClient) (symbol s : UInt32) :
    (c.onBook symbol f).book s = if s = symbol then f (c.book symbol) else c.book s := by
  unfold onBook
  cases hb : c.symbolToOrderBook.lookup symbol with
  | none =>
    split_ifs with hs
    · subst hs
      simp [book, hb, hf]
    · rfl
  | some b =>
    dsimp only
    rw [book_insert]
    simp [book, hb]

theorem book_symbolOf (c : MDClient) (orderId : UInt64) (s : UInt32) :
    (c.symbolOf orderId).2.book s = c.book s := by
  unfold symbolOf
  split <;> rfl

/-- A method keeps the levels of the book that it is called on. -/
theorem Tallied.onBook (h : c.Tallied symbols) {symbol : UInt32} {f : OrderBook → OrderBook}
    (hempty : f OrderBook.empty = OrderBook.empty)
    (hf : symbol ∈ symbols → (f (c.book symbol)).Tallied) : (c.onBook symbol f).Tallied symbols := by
  intro s hs
  rw [book_onBook hempty]
  split_ifs with hown
  · exact hf (hown ▸ hs)
  · exact h s hs

end MDClient

end Ndfex.Bots
