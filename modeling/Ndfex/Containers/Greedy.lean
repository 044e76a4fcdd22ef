import Mathlib.Algebra.Ring.Int.Defs
import Mathlib.Algebra.Ring.Nat
import Mathlib.Algebra.BigOperators.Group.List.Basic
import Mathlib.Data.List.ReduceOption

/-!
# Greedy allocation

A demand is served from a list of supplies in their order: each gives what it has, as far as the
earlier ones left a demand.

## Main definitions

* `Greedy.demand`: what the supplies before one leave of the demand
* `Greedy.allocation`: the supplies that serve the demand, with what each gives
* `Greedy.leftover`: the supplies afterwards

## Main results

* `Greedy.allocation_cons`, `Greedy.leftover_cons`: one supply after the other
* `Greedy.getElem?_allocation`: the supplies that serve are the first ones
-/

namespace Containers.Greedy

universe u

variable {α : Type u} (size : α → ℕ) (reduce : ℕ → α → α)

/-- The demand that is left for a supply: what those before it do not serve. -/
def demand (q : ℕ) (supplies : List α) (i : ℕ) : ℕ := q - ((supplies.take i).map size).sum

/-- **The allocation**: every supply that a demand is left for gives the smaller of the two. -/
def allocation (q : ℕ) (supplies : List α) : List (α × ℕ) :=
  (supplies.mapIdx fun i a =>
    if demand size q supplies i = 0 then none
    else some (a, min (size a) (demand size q supplies i))).reduceOption

/-- What a demand leaves of a supply: it uses it up, or reduces it, or is zero. -/
def left (r : ℕ) (a : α) : Option α :=
  if r = 0 then some a else if size a ≤ r then none else some (reduce r a)

/-- The supplies after the allocation. -/
def leftover (q : ℕ) (supplies : List α) : List α :=
  (supplies.mapIdx fun i a => left size reduce (demand size q supplies i) a).reduceOption

variable {size reduce} {q : ℕ} {a : α} {supplies : List α}

@[simp] theorem demand_zero_left (supplies : List α) (i : ℕ) : demand size 0 supplies i = 0 :=
  Nat.zero_sub _

@[simp] theorem demand_zero (q : ℕ) (supplies : List α) : demand size q supplies 0 = q := by
  simp [demand]

/-- The demand behind the first supply. -/
theorem demand_cons_succ (q : ℕ) (a : α) (supplies : List α) (i : ℕ) :
    demand size q (a :: supplies) (i + 1) = demand size (q - size a) supplies i := by
  rw [demand, demand, List.take_succ_cons, List.map_cons, List.sum_cons, Nat.sub_sub]

@[simp] theorem allocation_nil (q : ℕ) : allocation size q ([] : List α) = [] := rfl

@[simp] theorem leftover_nil (q : ℕ) : leftover size reduce q ([] : List α) = [] := rfl

@[simp] theorem allocation_zero (supplies : List α) : allocation size 0 supplies = [] := by
  unfold allocation
  simp only [demand_zero_left, if_true]
  induction supplies with
  | nil => rfl
  | cons a supplies ih => rw [List.mapIdx_cons, List.reduceOption_cons_of_none]; exact ih

@[simp] theorem leftover_zero (supplies : List α) : leftover size reduce 0 supplies = supplies := by
  unfold leftover left
  simp only [demand_zero_left, if_true]
  induction supplies with
  | nil => rfl
  | cons a supplies ih => rw [List.mapIdx_cons, List.reduceOption_cons_of_some, ih]

/-- **The first supply serves**, and the others serve what it leaves. -/
theorem allocation_cons (hq : q ≠ 0) :
    allocation size q (a :: supplies) = (a, min (size a) q) :: allocation size (q - size a) supplies := by
  unfold allocation
  rw [List.mapIdx_cons]
  simp only [demand_zero, demand_cons_succ]
  rw [if_neg hq, List.reduceOption_cons_of_some]

/-- A first supply that is used up. -/
theorem leftover_cons_of_le (hq : q ≠ 0) (ha : size a ≤ q) :
    leftover size reduce q (a :: supplies) = leftover size reduce (q - size a) supplies := by
  unfold leftover
  rw [List.mapIdx_cons]
  simp only [demand_zero, demand_cons_succ]
  rw [left, if_neg hq, if_pos ha, List.reduceOption_cons_of_none]

/-- A first supply that is not used up. -/
theorem leftover_cons_of_lt (hq : q ≠ 0) (ha : q < size a) :
    leftover size reduce q (a :: supplies) = reduce q a :: supplies := by
  have hrest : leftover size reduce 0 supplies = supplies := leftover_zero supplies
  unfold leftover at hrest ⊢
  rw [List.mapIdx_cons]
  simp only [demand_zero, demand_cons_succ, Nat.sub_eq_zero_of_le (Nat.le_of_lt ha)]
  rw [left, if_neg hq, if_neg (Nat.not_le.mpr ha), List.reduceOption_cons_of_some, hrest]

/-- **The supplies that serve** are the first ones, up to where the demand ends. -/
theorem getElem?_allocation (q : ℕ) (supplies : List α) (i : ℕ) :
    (allocation size q supplies)[i]? =
      if demand size q supplies i = 0 then none
      else supplies[i]?.map fun a => (a, min (size a) (demand size q supplies i)) := by
  induction supplies generalizing q i with
  | nil => simp
  | cons a supplies ih =>
    by_cases hq : q = 0
    · subst hq
      simp
    · rw [allocation_cons hq]
      cases i with
      | zero => simp [hq]
      | succ i => rw [List.getElem?_cons_succ, List.getElem?_cons_succ, ih, demand_cons_succ]

end Containers.Greedy
