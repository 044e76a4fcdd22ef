import Mathlib.Data.List.Basic
import Mathlib.Data.List.Nodup
import Mathlib.Data.List.Perm.Basic

/-!
# Lists with keys

A program may keep records in a list and find them by a field. As long as no two records share it, the
list is a map: the order of the records does not matter to what is found, and changing the first
record found changes the value under its key.

## Main definitions

* `findKey key k l`: the first element of `l` with the key `k`
* `atKey key k f l`: `l` with `f` applied to that element, which `f` may take out

## Main results

* `findKey_eq_some`, `findKey_perm`: what is found, if the keys are distinct
* `findKey_atKey`, `findKey_filter_ne`: what is found after a change
-/

namespace Containers

variable {α κ : Type*} [DecidableEq κ] (key : α → κ)

/-- The first element with a key. -/
def findKey (k : κ) (l : List α) : Option α := l.find? fun x => key x = k

/-- Applies a function to the first element with a key; no value takes the element out. -/
def atKey (k : κ) (f : α → Option α) : List α → List α
  | [] => []
  | x :: l => if key x = k then (f x).toList ++ l else x :: atKey k f l

variable {key} {k k' : κ} {l l' : List α} {x : α} {f : α → Option α}

@[simp] theorem findKey_nil : findKey key k [] = none := rfl

theorem findKey_cons (x : α) (l : List α) :
    findKey key k (x :: l) = if key x = k then some x else findKey key k l := by
  by_cases hx : key x = k <;> simp [findKey, hx]

theorem findKey_append (l l' : List α) :
    findKey key k (l ++ l') = (findKey key k l).or (findKey key k l') := List.find?_append

theorem findKey_eq_none : findKey key k l = none ↔ ∀ x ∈ l, key x ≠ k := by
  simp [findKey]

/-- An element that is found is there, and has the key. -/
theorem mem_of_findKey (h : findKey key k l = some x) : x ∈ l ∧ key x = k := by
  have hkey := List.find?_some h
  exact ⟨List.mem_of_find?_eq_some h, of_decide_eq_true hkey⟩

/-- With distinct keys, the element found is the one that is there. -/
theorem findKey_eq_some (hnd : (l.map key).Nodup) :
    findKey key k l = some x ↔ x ∈ l ∧ key x = k := by
  refine ⟨mem_of_findKey, ?_⟩
  rintro ⟨hx, rfl⟩
  cases hfound : findKey key (key x) l with
  | none => exact absurd rfl (findKey_eq_none.mp hfound x hx)
  | some y =>
    obtain ⟨hy, hkey⟩ := mem_of_findKey hfound
    rw [List.inj_on_of_nodup_map hnd hy hx hkey]

/-- With distinct keys, the order of the elements does not matter to what is found. -/
theorem findKey_perm (hnd : (l.map key).Nodup) (hperm : l'.Perm l) (k : κ) :
    findKey key k l' = findKey key k l := by
  have hnd' : (l'.map key).Nodup := (hperm.map _).nodup_iff.mpr hnd
  refine Option.ext fun x => ?_
  rw [findKey_eq_some hnd', findKey_eq_some hnd, hperm.mem_iff]

/-! ## Changes -/

@[simp] theorem atKey_nil : atKey key k f [] = [] := rfl

theorem atKey_cons (x : α) (l : List α) :
    atKey key k f (x :: l) = if key x = k then (f x).toList ++ l else x :: atKey key k f l := rfl

/-- No element with the key: nothing changes. -/
theorem atKey_of_findKey_eq_none (h : findKey key k l = none) : atKey key k f l = l := by
  induction l with
  | nil => rfl
  | cons x l ih =>
    rw [findKey_cons] at h
    split_ifs at h with hx
    rw [atKey_cons, if_neg hx, ih h]

/-- The element changes in the first of two lists, if it stands there. -/
theorem atKey_append_left (h : findKey key k l ≠ none) :
    atKey key k f (l ++ l') = atKey key k f l ++ l' := by
  induction l with
  | nil => exact absurd rfl h
  | cons x l ih =>
    rw [List.cons_append, atKey_cons, atKey_cons]
    split_ifs with hx
    · rw [List.append_assoc]
    · rw [ih, List.cons_append]
      rwa [findKey_cons, if_neg hx] at h

/-- It changes in the second, if it does not stand in the first. -/
theorem atKey_append_right (h : findKey key k l = none) :
    atKey key k f (l ++ l') = l ++ atKey key k f l' := by
  induction l with
  | nil => rfl
  | cons x l ih =>
    rw [findKey_cons] at h
    split_ifs at h with hx
    rw [List.cons_append, atKey_cons, if_neg hx, ih h, List.cons_append]

/-- A change of elements keeps their keys, if the function does. -/
theorem map_atKey_sublist (hf : ∀ x y, f x = some y → key y = key x) (l : List α) :
    ((atKey key k f l).map key).Sublist (l.map key) := by
  induction l with
  | nil => exact .slnil
  | cons x l ih =>
    rw [atKey_cons]
    split_ifs with hx
    · cases hfx : f x with
      | none => exact List.sublist_cons_self ..
      | some y =>
        rw [Option.toList_some, List.singleton_append, List.map_cons, List.map_cons, hf x y hfx]
    · exact ih.cons_cons _

/-- What there is after a change was there before, or is the changed element. -/
theorem mem_atKey {y : α} (h : y ∈ atKey key k f l) :
    y ∈ l ∨ ∃ x ∈ l, key x = k ∧ f x = some y := by
  induction l with
  | nil => cases h
  | cons x l ih =>
    rw [atKey_cons] at h
    split_ifs at h with hx
    · rcases List.mem_append.mp h with hnew | hold
      · exact Or.inr ⟨x, List.mem_cons_self, hx, Option.mem_toList.mp hnew⟩
      · exact Or.inl (List.mem_cons_of_mem _ hold)
    · rcases List.mem_cons.mp h with rfl | hmem
      · exact Or.inl List.mem_cons_self
      · rcases ih hmem with hold | ⟨z, hz, hkey, hfz⟩
        · exact Or.inl (List.mem_cons_of_mem _ hold)
        · exact Or.inr ⟨z, List.mem_cons_of_mem _ hz, hkey, hfz⟩

/-- **A change under a key**: the function applies to what is found there. -/
theorem findKey_atKey (hf : ∀ x y, f x = some y → key y = key x) (hnd : (l.map key).Nodup)
    (k' : κ) :
    findKey key k' (atKey key k f l) =
      if k' = k then (findKey key k l).bind f else findKey key k' l := by
  induction l with
  | nil => simp
  | cons x l ih =>
    obtain ⟨hnot, hnd⟩ := List.nodup_cons.mp hnd
    rw [atKey_cons, findKey_cons, findKey_cons]
    by_cases hx : key x = k
    · subst hx
      have hnone : findKey key (key x) l = none := findKey_eq_none.mpr fun y hy hkey =>
        hnot (List.mem_map.mpr ⟨y, hy, hkey⟩)
      rw [if_pos rfl, if_pos rfl, Option.bind_some, findKey_append]
      by_cases hk : k' = key x
      · subst hk
        rw [if_pos rfl, hnone]
        cases hfx : f x with
        | none => rfl
        | some y => simp [findKey_cons, hf x y hfx]
      · rw [if_neg hk, if_neg fun h => hk h.symm]
        cases hfx : f x with
        | none => rfl
        | some y => simp [findKey_cons, hf x y hfx, Ne.symm hk]
    · rw [if_neg hx, if_neg hx, findKey_cons, ih hnd]
      by_cases hk : k' = k
      · subst hk
        rw [if_neg hx, if_pos rfl, if_pos rfl]
      · rw [if_neg hk, if_neg hk]

/-- **Taking a key out**. -/
theorem findKey_filter_ne (k k' : κ) (l : List α) :
    findKey key k' (l.filter fun x => key x ≠ k) = if k' = k then none else findKey key k' l := by
  induction l with
  | nil => simp
  | cons x l ih =>
    rw [List.filter_cons, findKey_cons]
    by_cases hx : key x = k
    · subst hx
      rw [if_neg (by simp), ih]
      by_cases hk : k' = key x
      · rw [if_pos hk, if_pos hk]
      · rw [if_neg hk, if_neg hk, if_neg fun h => hk h.symm]
    · rw [if_pos (by simpa using hx), findKey_cons, ih]
      by_cases hk : k' = k
      · subst hk
        rw [if_neg hx, if_pos rfl, if_pos rfl]
      · rw [if_neg hk, if_neg hk]

end Containers
