import Mathlib.Data.List.Basic
import Mathlib.Data.List.Nodup
import Mathlib.Order.RelClasses

/-!
# Sets that list their elements in order

A set sorted by a strict order of a key of its elements, as a list that carries the proof that it is
sorted. Two elements of one key are the same to the set, so it keeps the one that came first.

## Main definitions

* `OrderedSet lt key`: the sets sorted by `lt` on the values of `key`
* `OrderedSet.find?`, `OrderedSet.insert`, `OrderedSet.filter`: by key, by comparison, by element
* `OrderedSet.last?`, `OrderedSet.eraseLast`: the greatest element

## Main results

* `OrderedSet.mem_insert`, `OrderedSet.length_insert`: a new key comes in
* `OrderedSet.mem_eraseLast`, `OrderedSet.length_eraseLast`: the greatest element leaves
* `OrderedSet.lt_last`: what the greatest element is
-/

namespace Containers

universe u v

/-- A set of elements sorted by `lt` on their keys. -/
structure OrderedSet {κ : Type u} {α : Type v} (lt : κ → κ → Prop) (key : α → κ) where
  elements : List α
  sorted : elements.Pairwise fun a b => lt (key a) (key b)

variable {κ : Type u} {α : Type v} {lt : κ → κ → Prop} {key : α → κ}

/-- A sorted list with an element of a key that it does not have. -/
def insertElement (lt : κ → κ → Prop) [DecidableRel lt] (key : α → κ) (a : α) : List α → List α
  | [] => [a]
  | x :: xs =>
    if lt (key a) (key x) then a :: x :: xs
    else if lt (key x) (key a) then x :: insertElement lt key a xs
    else x :: xs

section Lists

variable [DecidableRel lt]

theorem mem_of_mem_insertElement {a x : α} {xs : List α} (h : x ∈ insertElement lt key a xs) :
    x = a ∨ x ∈ xs := by
  induction xs with
  | nil => exact Or.inl (List.mem_singleton.mp h)
  | cons y ys ih =>
    simp only [insertElement] at h
    split_ifs at h
    · exact List.mem_cons.mp h
    · rcases List.mem_cons.mp h with rfl | h
      · exact Or.inr List.mem_cons_self
      · exact (ih h).imp_right (List.mem_cons_of_mem _)
    · exact Or.inr h

variable [IsStrictTotalOrder κ lt]

theorem sorted_insertElement {a : α} {xs : List α}
    (h : xs.Pairwise fun x y => lt (key x) (key y)) :
    (insertElement lt key a xs).Pairwise fun x y => lt (key x) (key y) := by
  induction xs with
  | nil => exact List.pairwise_singleton _ _
  | cons x xs ih =>
    obtain ⟨hx, hxs⟩ := List.pairwise_cons.mp h
    simp only [insertElement]
    split_ifs with hlt hgt
    · refine List.pairwise_cons.mpr ⟨fun y hy => ?_, h⟩
      rcases List.mem_cons.mp hy with rfl | hy
      · exact hlt
      · exact IsTrans.trans _ _ _ hlt (hx y hy)
    · refine List.pairwise_cons.mpr ⟨fun y hy => ?_, ih hxs⟩
      rcases mem_of_mem_insertElement hy with rfl | hy
      · exact hgt
      · exact hx y hy
    · exact h

/-- An element of a new key comes in. -/
theorem perm_insertElement {a : α} {xs : List α} (h : ∀ x ∈ xs, key x ≠ key a) :
    (insertElement lt key a xs).Perm (a :: xs) := by
  induction xs with
  | nil => exact .refl _
  | cons x xs ih =>
    simp only [insertElement]
    split_ifs with hlt hgt
    · exact .refl _
    · have hrest := ih fun y hy => h y (List.mem_cons_of_mem _ hy)
      exact (hrest.cons x).trans (.swap a x xs)
    · -- equal in the order means of one key
      have hsame : key x = key a := Std.Trichotomous.trichotomous _ _ hgt hlt
      exact absurd hsame (h x List.mem_cons_self)

end Lists

namespace OrderedSet

variable (s : OrderedSet lt key)

/-- The set without elements. -/
def empty : OrderedSet lt key := ⟨[], List.Pairwise.nil⟩

instance : Membership α (OrderedSet lt key) := ⟨fun s a => a ∈ s.elements⟩

theorem mem_iff {s : OrderedSet lt key} {a : α} : a ∈ s ↔ a ∈ s.elements := Iff.rfl

/-- The number of elements. -/
def size : ℕ := s.elements.length

/-- The element with a key. -/
def find? [DecidableEq κ] (k : κ) : Option α := s.elements.find? fun a => key a = k

/-- The elements that satisfy a predicate. -/
def filter (p : α → Bool) : OrderedSet lt key := ⟨s.elements.filter p, s.sorted.filter p⟩

/-- The greatest element. -/
def last? : Option α := s.elements.getLast?

/-- The set without its greatest element. -/
def eraseLast : OrderedSet lt key :=
  ⟨s.elements.dropLast, s.sorted.sublist (List.dropLast_sublist _)⟩

variable {s}

theorem find?_eq_none [DecidableEq κ] {k : κ} : s.find? k = none ↔ ∀ a ∈ s, key a ≠ k := by
  simp [find?, mem_iff]

theorem mem_filter {p : α → Bool} {a : α} : a ∈ s.filter p ↔ a ∈ s ∧ p a := List.mem_filter

theorem size_filter_le (p : α → Bool) : (s.filter p).size ≤ s.size := List.length_filter_le p _

theorem last?_eq_none : s.last? = none ↔ s.size = 0 := by
  rw [last?, List.getLast?_eq_none_iff, size, List.length_eq_zero_iff]

theorem elements_eq_append {a : α} (h : s.last? = some a) :
    s.elements = s.eraseLast.elements ++ [a] :=
  (List.dropLast_append_getLast? a h).symm

/-- **The greatest element** is behind all others. -/
theorem lt_last {a b : α} (h : s.last? = some a) (hb : b ∈ s.eraseLast) : lt (key b) (key a) := by
  have hsorted := s.sorted
  rw [elements_eq_append h] at hsorted
  exact (List.pairwise_append.mp hsorted).2.2 b hb a (List.mem_singleton_self a)

theorem mem_of_last {a : α} (h : s.last? = some a) : a ∈ s := by
  rw [mem_iff, elements_eq_append h]
  exact List.mem_append_right _ (List.mem_singleton_self a)

theorem size_eraseLast {a : α} (h : s.last? = some a) : s.eraseLast.size + 1 = s.size := by
  rw [size, size, elements_eq_append h, List.length_append, List.length_singleton]

section Order

variable [IsStrictTotalOrder κ lt]

theorem nodup_keys (s : OrderedSet lt key) : (s.elements.map key).Nodup := by
  rw [List.Nodup, List.pairwise_map]
  refine s.sorted.imp ?_
  intro a b hlt heq
  rw [heq] at hlt
  exact Std.Irrefl.irrefl _ hlt

/-- **Without the greatest element**. -/
theorem mem_eraseLast {a b : α} (h : s.last? = some a) : b ∈ s.eraseLast ↔ b ∈ s ∧ b ≠ a := by
  rw [mem_iff (s := s), elements_eq_append h, List.mem_append, List.mem_singleton]
  constructor
  · intro hb
    refine ⟨Or.inl hb, ?_⟩
    rintro rfl
    exact Std.Irrefl.irrefl _ (lt_last h hb)
  · rintro ⟨hb | hb, hne⟩
    · exact hb
    · exact absurd hb hne

variable [DecidableRel lt]

/-- The set with an element, unless it has one of the key. -/
def insert (s : OrderedSet lt key) (a : α) : OrderedSet lt key :=
  ⟨insertElement lt key a s.elements, sorted_insertElement s.sorted⟩

variable {a b : α} (hnew : ∀ x ∈ s, key x ≠ key a)

include hnew

/-- **An element of a new key** comes in. -/
theorem mem_insert : b ∈ s.insert a ↔ b = a ∨ b ∈ s := by
  rw [mem_iff, insert, (perm_insertElement hnew).mem_iff, List.mem_cons]
  rfl

theorem size_insert : (s.insert a).size = s.size + 1 := (perm_insertElement hnew).length_eq

end Order

end OrderedSet

end Containers
