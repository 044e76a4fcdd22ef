import Mathlib.Data.List.AList

/-!
# Tables with an index

A table whose rows carry a key, and an index that finds the row of a key. The two maps are updated
separately, so that they fit together is an invariant of the program that keeps them.

## Main definitions

* `Indexes key table index`: the index finds the rows of the table by their keys, and nothing else

## Main results

* `Indexes.congr`, `Indexes.insert`, `Indexes.erase`: the operations that keep the index
* `Indexes.eq_of_key_eq`: the rows have different keys
-/

namespace Containers

variable {κ ρ β : Type*} [DecidableEq κ] [DecidableEq ρ]

/-- The index finds the rows of the table by their keys, and finds nothing else. -/
def Indexes (key : β → κ) (table : AList fun _ : ρ => β) (index : AList fun _ : κ => ρ) : Prop :=
  ∀ k r, index.lookup k = some r ↔ ∃ x, table.lookup r = some x ∧ key x = k

namespace Indexes

variable {key : β → κ} {table : AList fun _ : ρ => β} {index : AList fun _ : κ => ρ} {k : κ} {r : ρ}
  {x : β}

theorem empty (key : β → κ) : Indexes key (∅ : AList fun _ : ρ => β) ∅ :=
  fun _ _ => by simp

theorem lookup (h : Indexes key table index) (hx : table.lookup r = some x) :
    index.lookup (key x) = some r :=
  (h _ _).mpr ⟨x, hx, rfl⟩

/-- The rows of a table with an index have different keys. -/
theorem eq_of_key_eq (h : Indexes key table index) {r' : ρ} (hx : table.lookup r = some x)
    {y : β} (hy : table.lookup r' = some y) (hkey : key x = key y) : r = r' := by
  have hr := h.lookup hx
  rw [hkey, h.lookup hy] at hr
  exact (Option.some.inj hr).symm

/-- A key that the index does not find has no row. -/
theorem key_ne (h : Indexes key table index) (hnone : index.lookup k = none)
    (hx : table.lookup r = some x) : key x ≠ k := by
  rintro rfl
  cases hnone.symm.trans (h.lookup hx)

/-- The rows may change but for their keys. -/
theorem congr (h : Indexes key table index) {table' : AList fun _ : ρ => β}
    (hkeys : ∀ r, (table'.lookup r).map key = (table.lookup r).map key) :
    Indexes key table' index := by
  intro k r
  have hkey : (∃ x, table'.lookup r = some x ∧ key x = k) ↔
      ∃ x, table.lookup r = some x ∧ key x = k := by
    rw [← Option.map_eq_some_iff, ← Option.map_eq_some_iff, hkeys]
  rw [hkey]
  exact h k r

/-- A new key enters the index with a row that was free. -/
theorem insert (h : Indexes key table index) (hfree : table.lookup r = none)
    (hnew : index.lookup (key x) = none) :
    Indexes key (table.insert r x) (index.insert (key x) r) := by
  intro k r'
  by_cases hk : k = key x
  · subst hk
    rw [AList.lookup_insert]
    constructor
    · rintro ⟨⟩
      exact ⟨x, AList.lookup_insert _, rfl⟩
    · rintro ⟨y, hy, hkey⟩
      by_cases hr : r' = r
      · rw [hr]
      · rw [AList.lookup_insert_ne hr] at hy
        exact absurd hkey (h.key_ne hnew hy)
  · rw [AList.lookup_insert_ne hk, h k r']
    by_cases hr : r' = r
    · subst hr
      rw [AList.lookup_insert, hfree]
      simp [Ne.symm hk]
    · rw [AList.lookup_insert_ne hr]

/-- A row leaves the table with its key. -/
theorem erase (h : Indexes key table index) (hx : table.lookup r = some x) :
    Indexes key (table.erase r) (index.erase (key x)) := by
  intro k r'
  by_cases hk : k = key x
  · subst hk
    rw [AList.lookup_erase]
    refine iff_of_false (by simp) ?_
    rintro ⟨y, hy, hkey⟩
    by_cases hr : r' = r
    · rw [hr, AList.lookup_erase] at hy
      cases hy
    · rw [AList.lookup_erase_ne hr] at hy
      exact hr (h.eq_of_key_eq hy hx hkey)
  · rw [AList.lookup_erase_ne hk, h k r']
    by_cases hr : r' = r
    · subst hr
      rw [AList.lookup_erase, hx]
      simp [Ne.symm hk]
    · rw [AList.lookup_erase_ne hr]

end Indexes

end Containers
