import Mathlib.Algebra.Ring.Int.Defs
import Mathlib.Algebra.Ring.Nat
import Mathlib.Data.List.AList
import Mathlib.Algebra.Order.BigOperators.Group.List
import Mathlib.Algebra.Order.Group.Nat

/-!
# Totals over finite maps

The sum of a weight over the values of a finite map. It does not depend on the order of the entries,
and the entry of a key adds its own weight to what the others weigh.

## Main definitions

* `AList.total f m`: the sum of `f` over the values of `m`

## Main results

* `AList.total_congr`: maps of the same lookups have one total
* `AList.total_erase`, `AList.total_insert`: the part of one key
-/

namespace AList

universe u v

variable {α : Type u} {β : Type v} {m m' : AList fun _ : α => β} {f : β → ℕ}

/-- The sum of a weight over the values of a map. -/
def total (f : β → ℕ) (m : AList fun _ : α => β) : ℕ := (m.entries.map fun e => f e.2).sum

theorem total_of_perm (h : m.entries.Perm m'.entries) : total f m = total f m' :=
  (h.map _).sum_eq

theorem total_le_total {g : β → ℕ} (h : ∀ v, f v ≤ g v) (m : AList fun _ : α => β) :
    total f m ≤ total g m := List.sum_le_sum fun e _ => h e.2

variable [DecidableEq α]

/-- Maps of the same lookups have one total. -/
theorem total_congr (h : ∀ k, m.lookup k = m'.lookup k) : total f m = total f m' := by
  refine total_of_perm (List.lookup_ext m.nodupKeys m'.nodupKeys fun k v => ?_)
  have hk := h k
  rw [lookup, lookup] at hk
  rw [hk]

/-- A new entry adds its weight to that of the other keys. -/
theorem total_insert (f : β → ℕ) (m : AList fun _ : α => β) (k : α) (v : β) :
    total f (m.insert k v) = f v + total f (m.erase k) := by
  rw [total, total, entries_insert, List.map_cons, List.sum_cons]
  rfl

/-- The part of one key. -/
theorem total_erase (f : β → ℕ) (m : AList fun _ : α => β) (k : α) :
    total f m = (m.lookup k).elim 0 f + total f (m.erase k) := by
  cases hk : m.lookup k with
  | none =>
    rw [Option.elim_none, Nat.zero_add]
    refine total_congr fun k' => ?_
    by_cases hne : k' = k
    · rw [hne, hk, lookup_erase]
    · rw [lookup_erase_ne hne]
  | some v =>
    rw [Option.elim_some, ← total_insert]
    refine total_congr fun k' => ?_
    by_cases hne : k' = k
    · rw [hne, hk, lookup_insert]
    · rw [lookup_insert_ne hne]

/-- A total is zero if every value weighs nothing. -/
theorem total_eq_zero : total f m = 0 ↔ ∀ k v, m.lookup k = some v → f v = 0 := by
  refine ⟨fun h k v hv => ?_, fun h => ?_⟩
  · have hpart := total_erase f m k
    rw [h, hv, Option.elim_some] at hpart
    omega
  · refine List.sum_eq_zero fun x hx => ?_
    obtain ⟨⟨k, v⟩, hmem, rfl⟩ := List.mem_map.mp hx
    exact h k v (mem_lookup_iff.mpr hmem)

/-- A change of the value of one key adds at most what it adds there. -/
theorem total_le_of_lookup {g : Option β → Option β} {k : α} {n : ℕ}
    (hlookup : ∀ k', m'.lookup k' = if k' = k then g (m.lookup k) else m.lookup k')
    (hg : ∀ o, (g o).elim 0 f ≤ o.elim 0 f + n) : total f m' ≤ total f m + n := by
  have herase : total f (m'.erase k) = total f (m.erase k) := by
    refine total_congr fun k' => ?_
    by_cases hk : k' = k
    · rw [hk, lookup_erase, lookup_erase]
    · rw [lookup_erase_ne hk, lookup_erase_ne hk, hlookup, if_neg hk]
  have hvalue := hg (m.lookup k)
  rw [total_erase f m k, total_erase f m' k, hlookup, if_pos rfl, herase]
  omega

/-- A map whose values with a weight are in another one weighs no more than that. -/
theorem total_le_of_subset (h : ∀ k v, m.lookup k = some v → f v ≠ 0 → m'.lookup k = some v) :
    total f m ≤ total f m' := by
  have hweighty : ∀ es : List (Sigma fun _ : α => β), (es.map fun e => f e.2).sum =
      ((es.filter fun e => f e.2 ≠ 0).map fun e => f e.2).sum := by
    intro es
    induction es with
    | nil => rfl
    | cons e es ih =>
      by_cases hzero : f e.2 = 0
      · rw [List.map_cons, List.sum_cons, hzero, Nat.zero_add, ih,
          List.filter_cons_of_neg (by simpa using hzero)]
      · rw [List.map_cons, List.sum_cons, ih, List.filter_cons_of_pos (by simpa using hzero),
          List.map_cons, List.sum_cons]
  have hsubset : (m.entries.filter fun e => f e.2 ≠ 0) ⊆ m'.entries := by
    intro e he
    obtain ⟨hmem, hne⟩ := List.mem_filter.mp he
    exact mem_lookup_iff.mp (h e.1 e.2 (mem_lookup_iff.mpr hmem) (by simpa using hne))
  obtain ⟨part, hperm, hsublist⟩ :=
    List.subperm_of_subset (m.nodupKeys.nodup.filter _) hsubset
  rw [total, total, hweighty, ← (hperm.map fun e => f e.2).sum_eq]
  exact (hsublist.map _).sum_le_sum fun _ _ => Nat.zero_le _

end AList
