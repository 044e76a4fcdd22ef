import Mathlib.Data.List.Basic

/-!
# Queues that remember what went through them

A first-in-first-out queue with one reader and one writer, kept as everything ever put in and how
much of it has been taken out. The elements waiting and the elements taken are the two halves of
that list, so a statement about the past of the queue is a statement about its state.

## Main definitions

* `Fifo α`: the queues of `α`
* `Fifo.push`, `Fifo.front?`, `Fifo.pop`: the operations
* `Fifo.pending`, `Fifo.taken`: the elements still waiting, and those taken out

## Main results

* `Fifo.taken_append_pending`: what went in is what was taken and what waits
* `Fifo.taken_pop`, `Fifo.pending_of_front?`: taking the front out
-/

namespace Containers

/-- A queue: everything put in, oldest first, and the number of elements taken out. -/
structure Fifo (α : Type*) where
  items : List α
  count : ℕ
  count_le : count ≤ items.length

namespace Fifo

variable {α : Type*}

/-- The queue nothing was put in. -/
def empty : Fifo α := ⟨[], 0, Nat.le_refl 0⟩

/-- Puts an element at the back. -/
def push (q : Fifo α) (x : α) : Fifo α :=
  ⟨q.items ++ [x], q.count, by simpa using Nat.le_succ_of_le q.count_le⟩

/-- The element at the front. -/
def front? (q : Fifo α) : Option α := q.items[q.count]?

/-- Takes the front out; the empty queue stays as it is. -/
def pop (q : Fifo α) : Fifo α :=
  if h : q.count < q.items.length then ⟨q.items, q.count + 1, h⟩ else q

/-- The elements waiting, front first. -/
def pending (q : Fifo α) : List α := q.items.drop q.count

/-- The elements taken out, oldest first. -/
def taken (q : Fifo α) : List α := q.items.take q.count

@[simp] theorem items_empty : (empty : Fifo α).items = [] := rfl

@[simp] theorem taken_empty : (empty : Fifo α).taken = [] := rfl

@[simp] theorem pending_empty : (empty : Fifo α).pending = [] := rfl

@[simp] theorem items_push (q : Fifo α) (x : α) : (q.push x).items = q.items ++ [x] := rfl

@[simp] theorem items_pop (q : Fifo α) : q.pop.items = q.items := by
  unfold pop
  split_ifs <;> rfl

@[simp] theorem taken_push (q : Fifo α) (x : α) : (q.push x).taken = q.taken :=
  List.take_append_of_le_length q.count_le

@[simp] theorem pending_push (q : Fifo α) (x : α) : (q.push x).pending = q.pending ++ [x] :=
  List.drop_append_of_le_length q.count_le

theorem taken_append_pending (q : Fifo α) : q.taken ++ q.pending = q.items :=
  List.take_append_drop q.count q.items

theorem taken_eq_items {q : Fifo α} (h : q.pending = []) : q.taken = q.items := by
  rw [← q.taken_append_pending, h, List.append_nil]

theorem front?_eq_head? (q : Fifo α) : q.front? = q.pending.head? :=
  List.head?_drop.symm

theorem front?_eq_none {q : Fifo α} : q.front? = none ↔ q.pending = [] := by
  rw [front?_eq_head?, List.head?_eq_none_iff]

theorem pending_of_front? {q : Fifo α} {x : α} (h : q.front? = some x) :
    q.pending = x :: q.pop.pending := by
  obtain ⟨hlt, hx⟩ := List.getElem?_eq_some_iff.mp h
  simp only [pending, pop, dif_pos hlt]
  rw [List.drop_eq_getElem_cons hlt, hx]

theorem taken_pop {q : Fifo α} {x : α} (h : q.front? = some x) :
    q.pop.taken = q.taken ++ [x] := by
  obtain ⟨hlt, -⟩ := List.getElem?_eq_some_iff.mp h
  simp only [taken, pop, dif_pos hlt]
  rw [List.take_add_one, show q.items[q.count]? = some x from h]
  rfl

/-- An empty queue stays as it is. -/
theorem pop_of_front?_eq_none {q : Fifo α} (h : q.front? = none) : q.pop = q := by
  unfold pop
  rw [dif_neg]
  exact Nat.not_lt.mpr (List.getElem?_eq_none_iff.mp h)

theorem mem_items_of_front? {q : Fifo α} {x : α} (h : q.front? = some x) : x ∈ q.items :=
  List.mem_of_getElem? h

/-- Elements that are put in wait behind the others. -/
theorem pending_append {q q' : Fifo α} {xs : List α} (hitems : q'.items = q.items ++ xs)
    (htaken : q'.taken = q.taken) : q'.pending = q.pending ++ xs := by
  have hsplit := q'.taken_append_pending
  rw [htaken, hitems, ← q.taken_append_pending, List.append_assoc] at hsplit
  exact List.append_cancel_left hsplit

/-- Puts the elements of a list at the back, in order. -/
def pushAll (q : Fifo α) (xs : List α) : Fifo α := xs.foldl push q

@[simp] theorem items_pushAll (q : Fifo α) (xs : List α) :
    (q.pushAll xs).items = q.items ++ xs := by
  induction xs generalizing q with
  | nil => simp [pushAll]
  | cons x xs ih =>
    have h := ih (q.push x)
    simp only [pushAll, List.foldl_cons] at h ⊢
    rw [h, items_push, List.append_assoc]
    rfl

@[simp] theorem taken_pushAll (q : Fifo α) (xs : List α) : (q.pushAll xs).taken = q.taken := by
  induction xs generalizing q with
  | nil => rfl
  | cons x xs ih => exact (ih (q.push x)).trans (q.taken_push x)

@[simp] theorem pending_pushAll (q : Fifo α) (xs : List α) :
    (q.pushAll xs).pending = q.pending ++ xs :=
  pending_append (items_pushAll q xs) (taken_pushAll q xs)

end Fifo

end Containers
