import Ndfex.Bots.BestPrices

/-!
# A part of a book

A book that has some of the orders of another one, and no others. Its levels are no larger, and it
shows the same best price and quantity of a side exactly when each order that it lacks stands behind one
that it has.

## Main definitions

* `Bots.OrderBook.PartOf`: the orders of a book are among those of another
* `Bots.OrderBook.Behind`: every order of a side that is not in the part stands behind one that is

## Main results

* `Bots.OrderBook.best_eq_iff`: when a part shows the best of the whole
-/

namespace Ndfex.Bots.OrderBook

variable {b b' : OrderBook} {h : BookSide} {price : Int32}

/-- The orders of a book are among those of another. -/
def PartOf (b b' : OrderBook) : Prop :=
  ∀ e o, b.orders.lookup e = some o → b'.orders.lookup e = some o

/-- **Every order** of a side that is not in the part stands behind one that is. -/
def Behind (b b' : OrderBook) (h : BookSide) : Prop :=
  ∀ e o, b'.orders.lookup e = some o → b.orders.lookup e = none → o.side.bookSide = h →
    ∃ price, b.Live h price ∧ h.better price o.price

theorem PartOf.live (hpart : b.PartOf b') (hlive : b.Live h price) : b'.Live h price := by
  obtain ⟨e, o, ho, hplace⟩ := hlive
  exact ⟨e, o, hpart e o ho, hplace⟩

theorem PartOf.atLevel_le (hpart : b.PartOf b') (h : BookSide) (price : Int32) :
    b.atLevel h price ≤ b'.atLevel h price :=
  AList.total_le_of_subset fun e o ho _ => hpart e o ho

/-- An order that the part lacks makes the level of its price less. -/
theorem PartOf.atLevel_lt (hpart : b.PartOf b') {e : UInt64} {o : Order}
    (ho : b'.orders.lookup e = some o) (hlacks : b.orders.lookup e = none) (hq : o.quantity ≠ 0) :
    b.atLevel o.side.bookSide o.price < b'.atLevel o.side.bookSide o.price := by
  have hrest : AList.total (Order.weight o.side.bookSide o.price) b.orders ≤
      AList.total (Order.weight o.side.bookSide o.price) (b'.orders.erase e) := by
    refine AList.total_le_of_subset fun e' o' ho' _ => ?_
    have hne : e' ≠ e := by
      rintro rfl
      rw [hlacks] at ho'
      cases ho'
    rw [AList.lookup_erase_ne hne]
    exact hpart e' o' ho'
  have hweight : o.quantity.toNat ≠ 0 := fun hzero => hq (UInt32.toNat_inj.mp hzero)
  have hwhole := atLevel_erase ho o.side.bookSide o.price
  rw [if_pos ⟨rfl, rfl⟩] at hwhole
  unfold atLevel at hwhole ⊢
  omega

/-- A level that the part has whole. -/
theorem PartOf.atLevel_eq (hpart : b.PartOf b')
    (hall : ∀ e o, b'.orders.lookup e = some o → o.side.bookSide = h → o.price = price →
      b.orders.lookup e ≠ none) : b.atLevel h price = b'.atLevel h price := by
  refine Nat.le_antisymm (hpart.atLevel_le h price) (AList.total_le_of_subset ?_)
  intro e o ho hweight
  rw [Order.weight, ite_ne_right_iff] at hweight
  obtain ⟨o', ho'⟩ := Option.ne_none_iff_exists'.mp (hall e o ho hweight.1.1 hweight.1.2)
  have hsame := hpart e o' ho'
  rw [ho] at hsame
  rw [ho', ← Option.some.inj hsame]

/-- Where all that it lacks stands behind, the part has the best level whole. -/
theorem best_eq_of_behind (hb : b.Counted) (hb' : b'.Counted) (hpart : b.PartOf b')
    (hbehind : b.Behind b' h) : b.best h = b'.best h := by
  -- the part has the orders of the whole that no order of the part is better than
  have hfirst : ∀ e o, b'.orders.lookup e = some o → o.side.bookSide = h →
      (∀ price, b.Live h price → ¬ h.better price o.price) → b.orders.lookup e ≠ none := by
    intro e o ho hside hnone hlacks
    obtain ⟨price, hlive, hbetter⟩ := hbehind e o ho hlacks hside
    exact hnone price hlive hbetter
  rcases hb.best h with ⟨hempty, hnone⟩ | ⟨hlive, hbest, hsum⟩
  · rcases hb'.best h with ⟨hempty', -⟩ | ⟨⟨e, o, ho, hside, -⟩, -⟩
    · rw [hempty, hempty']
    · -- an order of the whole alone has none of the part before it
      obtain ⟨o', ho'⟩ := Option.ne_none_iff_exists'.mp
        (hfirst e o ho hside fun price hlive => absurd hlive (hnone price))
      have hsame := hpart e o' ho'
      rw [ho] at hsame
      rw [← Option.some.inj hsame] at ho'
      exact absurd ⟨e, o, ho', hside, rfl⟩ (hnone o.price)
  · have hnot : ∀ price, b'.Live h price → ¬ h.better price (b.best h).price := by
      rintro price ⟨e, o, ho, hside, rfl⟩ hbetter
      have hnone : ∀ price', b.Live h price' → ¬ h.better price' o.price := by
        intro price' hlive' hb
        by_cases heq : price' = (b.best h).price
        · exact asymm hbetter (heq ▸ hb)
        · exact asymm hbetter (trans_of h.better (hbest price' hlive' heq) hb)
      obtain ⟨o', ho'⟩ := Option.ne_none_iff_exists'.mp (hfirst e o ho hside hnone)
      have hsame := hpart e o' ho'
      rw [ho] at hsame
      rw [← Option.some.inj hsame] at ho'
      have hne : o.price ≠ (b.best h).price := by
        intro heq
        rw [heq] at hbetter
        exact irrefl_of h.better _ hbetter
      exact asymm hbetter (hbest o.price ⟨e, o, ho', hside, rfl⟩ hne)
    rcases hb'.best h with ⟨-, hnone'⟩ | ⟨hlive', hbest', hsum'⟩
    · exact absurd (hpart.live hlive) (hnone' _)
    have hprice : (b.best h).price = (b'.best h).price := by
      by_contra hne
      exact hnot _ hlive' (hbest' _ (hpart.live hlive) hne)
    have hlevel : b.atLevel h (b.best h).price = b'.atLevel h (b.best h).price := by
      refine hpart.atLevel_eq fun e o ho hside hat => hfirst e o ho hside ?_
      intro price hlive hbetter
      rw [hat] at hbetter
      exact hnot price (hpart.live hlive) hbetter
    have hquantity : (b.best h).quantity = (b'.best h).quantity := by
      rw [← UInt32.toNat_inj, hsum, hsum', ← hprice, hlevel]
    generalize b.best h = best at hprice hquantity
    generalize b'.best h = best' at hprice hquantity
    cases best
    cases best'
    rw [PriceLevel.mk.injEq]
    exact ⟨hprice, hquantity⟩

/-- **When a part shows the best of the whole**: exactly when all that it lacks stands behind. -/
theorem best_eq_iff (hb : b.Counted) (hb' : b'.Counted) (hpart : b.PartOf b') (h : BookSide) :
    b.best h = b'.best h ↔ b.Behind b' h := by
  refine ⟨?_, best_eq_of_behind hb hb' hpart⟩
  rintro hsame e o ho hlacks rfl
  have hlive : b'.Live o.side.bookSide o.price := ⟨e, o, ho, rfl, rfl⟩
  rcases hb'.best o.side.bookSide with ⟨-, hnone⟩ | ⟨hlive', hbest', hsum'⟩
  · exact absurd hlive (hnone _)
  rw [← hsame] at hlive' hbest' hsum'
  rcases hb.best o.side.bookSide with ⟨hempty, -⟩ | ⟨hown, -, hsum⟩
  · -- the best of the whole has a quantity
    rw [hempty] at hlive' hsum'
    obtain ⟨e', o', ho', hplace⟩ := hlive'
    have hzero : b'.atLevel o.side.bookSide 0 = 0 := hsum'.symm
    rw [atLevel, AList.total_eq_zero] at hzero
    have hweight := hzero e' o' ho'
    rw [Order.weight, if_pos hplace] at hweight
    exact absurd (UInt32.toNat_inj.mp hweight) (hb'.quantity e' o' ho')
  · refine ⟨_, hown, ?_⟩
    by_cases heq : o.price = (b.best o.side.bookSide).price
    · -- the order would make the level of the whole larger
      have hlt := hpart.atLevel_lt ho hlacks (hb'.quantity e o ho)
      rw [heq] at hlt
      omega
    · exact hbest' _ hlive heq

end Ndfex.Bots.OrderBook
