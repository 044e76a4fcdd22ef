import Mathlib.Data.List.AList

/-!
# Maps of maps with default values

A map from pairs of keys, kept as a map of maps. A lookup that finds nothing reads the default value,
and may enter it.

## Main definitions

* `NestedMap κ ι α`: the maps
* `NestedMap.get`, `NestedMap.modify`: the value of a pair of keys, and a new one in its place
* `NestedMap.modifyAll`: new values of some inner keys
* `NestedMap.enter`: a lookup that enters the default
* `NestedMap.Reads`: the values of a map, all at once
* `NestedMap.find?`, `NestedMap.SameKeys`: the pairs of keys that a map has

## Main results

* `NestedMap.get_modify`, `NestedMap.Reads.modify`: the values after one was modified
* `NestedMap.find?_modify`, `NestedMap.SameKeys.modify`: the pairs of keys then
-/

namespace Containers

universe u v w

/-- A map of maps. -/
abbrev NestedMap (κ : Type u) (ι : Type v) (α : Type w) := AList fun _ : κ => AList fun _ : ι => α

namespace NestedMap

variable {κ : Type u} {ι : Type v} {α : Type w} [DecidableEq κ] [DecidableEq ι] [Inhabited α]

/-- The value of a pair of keys, or the default. -/
def get (m : NestedMap κ ι α) (k : κ) (i : ι) : α :=
  ((m.lookup k).bind fun inner => inner.lookup i).getD default

/-- The map with the value of a pair of keys modified, which enters one where there was none. -/
def modify (m : NestedMap κ ι α) (k : κ) (i : ι) (f : α → α) : NestedMap κ ι α :=
  AList.insert k (((m.lookup k).getD ∅).insert i (f (m.get k i))) m

/-- A lookup that enters the default. -/
def enter (m : NestedMap κ ι α) (k : κ) (i : ι) : NestedMap κ ι α := m.modify k i id

/-- **The values after one was modified.** -/
theorem get_modify (m : NestedMap κ ι α) (k k' : κ) (i i' : ι) (f : α → α) :
    (m.modify k i f).get k' i' = if k' = k ∧ i' = i then f (m.get k i) else m.get k' i' := by
  by_cases hk : k' = k
  · subst hk
    have houter : (m.modify k' i f).get k' i' =
        ((((m.lookup k').getD ∅).insert i (f (m.get k' i))).lookup i').getD default := by
      rw [modify, get, AList.lookup_insert, Option.bind_some]
    rw [houter]
    by_cases hi : i' = i
    · rw [hi, AList.lookup_insert, if_pos ⟨rfl, rfl⟩, Option.getD_some]
    · rw [AList.lookup_insert_ne hi, if_neg fun h => hi h.2, get]
      cases m.lookup k' <;> rfl
  · rw [if_neg fun h => hk h.1, get, modify, AList.lookup_insert_ne hk, get]

/-- The values of a map, all at once. -/
def Reads (m : NestedMap κ ι α) (F : κ → ι → α) : Prop := ∀ k i, m.get k i = F k i

theorem Reads.congr {m : NestedMap κ ι α} {F F' : κ → ι → α} (h : m.Reads F)
    (hF : ∀ k i, F' k i = F k i) : m.Reads F' := fun k i => (h k i).trans (hF k i).symm

/-- **A modified map** reads what differs in one place. -/
theorem Reads.modify {m : NestedMap κ ι α} {F F' : κ → ι → α} (h : m.Reads F) {k : κ} {i : ι}
    {f : α → α} (hown : f (F k i) = F' k i) (hother : ∀ k' i', ¬ (k' = k ∧ i' = i) →
      F' k' i' = F k' i') : (m.modify k i f).Reads F' := by
  intro k' i'
  rw [get_modify, h, h]
  split_ifs with hkey
  · rw [hkey.1, hkey.2, hown]
  · rw [hother k' i' hkey]

/-- The map with the values of some inner keys modified. -/
def modifyAll (m : NestedMap κ ι α) (k : κ) (is : List ι) (f : α → α) : NestedMap κ ι α :=
  is.foldl (fun m i => m.modify k i f) m

/-- **Modified maps** read what differs in some places. -/
theorem Reads.modifyAll {m : NestedMap κ ι α} {F : κ → ι → α} (h : m.Reads F) (k : κ)
    {is : List ι} (his : is.Nodup) (f : α → α) :
    (m.modifyAll k is f).Reads fun k' i' => if k' = k ∧ i' ∈ is then f (F k' i') else F k' i' := by
  induction is generalizing m F with
  | nil => exact h.congr fun k' i' => if_neg fun hboth => List.not_mem_nil hboth.2
  | cons i is ih =>
    obtain ⟨hi, his⟩ := List.nodup_cons.mp his
    have hone : (m.modify k i f).Reads fun k' i' =>
        if k' = k ∧ i' = i then f (F k' i') else F k' i' :=
      h.modify (if_pos ⟨rfl, rfl⟩).symm fun k' i' hkey => if_neg hkey
    refine (ih hone his).congr fun k' i' => ?_
    by_cases hk : k' = k
    · by_cases hown : i' = i
      · -- the first key is not among the others
        rw [if_pos ⟨hk, hown ▸ List.mem_cons_self⟩, if_neg fun hboth => hi (hown ▸ hboth.2),
          if_pos ⟨hk, hown⟩]
      · simp only [hk, hown, List.mem_cons, false_or, and_false, if_false]
    · rw [if_neg fun hboth => hk hboth.1, if_neg fun hboth => hk hboth.1,
        if_neg fun hboth => hk hboth.1]

@[simp] theorem get_enter (m : NestedMap κ ι α) (k k' : κ) (i i' : ι) :
    (m.enter k i).get k' i' = m.get k' i' := by
  rw [enter, get_modify]
  split_ifs with h
  · rw [h.1, h.2]
    rfl
  · rfl

theorem Reads.enter {m : NestedMap κ ι α} {F : κ → ι → α} (h : m.Reads F) (k : κ) (i : ι) :
    (m.enter k i).Reads F := by
  intro k' i'
  rw [get_enter, h]

/-- Lookups that enter the default. -/
def enterAll (m : NestedMap κ ι α) (k : κ) (is : List ι) : NestedMap κ ι α :=
  is.foldl (fun m i => m.enter k i) m

theorem Reads.enterAll {m : NestedMap κ ι α} {F : κ → ι → α} (h : m.Reads F) (k : κ)
    (is : List ι) : (m.enterAll k is).Reads F := by
  induction is generalizing m with
  | nil => exact h
  | cons i is ih => exact ih (h.enter k i)

/-! ### Keys -/

/-- The value of a pair of keys, if there is one. -/
def find? (m : NestedMap κ ι α) (k : κ) (i : ι) : Option α :=
  (m.lookup k).bind fun inner => inner.lookup i

theorem get_eq_getD (m : NestedMap κ ι α) (k : κ) (i : ι) : m.get k i = (m.find? k i).getD default :=
  rfl

/-- A modification enters its pair of keys. -/
theorem find?_modify (m : NestedMap κ ι α) (k k' : κ) (i i' : ι) (f : α → α) :
    (m.modify k i f).find? k' i' =
      if k' = k ∧ i' = i then some (f (m.get k i)) else m.find? k' i' := by
  by_cases hk : k' = k
  · subst hk
    rw [modify, find?, AList.lookup_insert, Option.bind_some]
    by_cases hi : i' = i
    · rw [hi, AList.lookup_insert, if_pos ⟨rfl, rfl⟩]
    · rw [AList.lookup_insert_ne hi, if_neg fun h => hi h.2, find?]
      cases m.lookup k' <;> rfl
  · rw [if_neg fun h => hk h.1, find?, modify, AList.lookup_insert_ne hk, find?]

section Keys

variable {β : Type w} [Inhabited β] {m : NestedMap κ ι α} {m' : NestedMap κ ι β}

/-- Two maps have values for the same pairs of keys. -/
def SameKeys (m : NestedMap κ ι α) (m' : NestedMap κ ι β) : Prop :=
  ∀ k i, (m.find? k i).isSome = (m'.find? k i).isSome

/-- **Modifications of the same pair** keep the keys the same. -/
theorem SameKeys.modify (h : m.SameKeys m') (k : κ) (i : ι) (f : α → α) (g : β → β) :
    (m.modify k i f).SameKeys (m'.modify k i g) := by
  intro k' i'
  rw [find?_modify, find?_modify]
  split_ifs
  · rfl
  · exact h k' i'

end Keys

end NestedMap

end Containers
