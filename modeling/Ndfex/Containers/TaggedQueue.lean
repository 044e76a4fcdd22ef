import Ndfex.Containers.Fifo
import Mathlib.Data.List.Basic

/-!
# Queues with tags

A history may note something about every element of a queue. The notes are a list of their own, as
long as the queue's, so that the queue itself stays what the program makes of it.

## Main definitions

* `Fifo.tagged q tags`: the elements waiting, each with its tag
* `Fifo.frontTag q tags`: the tag of the front
* `Fifo.waiting q tags t`: the elements waiting that have the tag `t`

## Main results

* `Fifo.tagged_append`: new elements come with their tags
* `Fifo.tagged_pop`: taking the front out takes its tag out
* `Fifo.front_of_waiting`: a queue of the elements with the front's tag has the same front
-/

namespace Containers

namespace Fifo

variable {α τ : Type*} {q q' : Fifo α} {tags : List τ} {x : α}

/-- The elements waiting, each with its tag. -/
def tagged (q : Fifo α) (tags : List τ) : List (α × τ) := (q.items.zip tags).drop q.count

/-- The tag of the front. -/
def frontTag (q : Fifo α) (tags : List τ) : Option τ := tags[q.count]?

theorem length_taken (q : Fifo α) : q.taken.length = q.count := by
  rw [taken, List.length_take, Nat.min_eq_left q.count_le]

theorem mem_tags_of_mem_tagged {y : α × τ} (hy : y ∈ q.tagged tags) : y.2 ∈ tags :=
  (List.of_mem_zip (List.mem_of_mem_drop hy)).2

/-- New elements come behind the others, with their tags. -/
theorem tagged_append {xs : List α} {new : List τ} (hlen : tags.length = q.items.length)
    (hitems : q'.items = q.items ++ xs) (htaken : q'.taken = q.taken) :
    q'.tagged (tags ++ new) = q.tagged tags ++ xs.zip new := by
  have hcount : q'.count = q.count := by rw [← length_taken, htaken, length_taken]
  unfold tagged
  rw [hitems, hcount, List.zip_append hlen.symm, List.drop_append_of_le_length]
  rw [List.length_zip, hlen, Nat.min_self]
  exact q.count_le

/-- Nothing new leaves the elements waiting as they are. -/
theorem tagged_congr (hitems : q'.items = q.items) (htaken : q'.taken = q.taken) :
    q'.tagged tags = q.tagged tags := by
  unfold tagged
  rw [hitems, ← length_taken, htaken, length_taken]

/-- Taking the front out takes its tag out. -/
theorem tagged_pop (hlen : tags.length = q.items.length) (hx : q.front? = some x) :
    ∃ t, q.frontTag tags = some t ∧ q.tagged tags = (x, t) :: q.pop.tagged tags := by
  obtain ⟨hlt, hget⟩ := List.getElem?_eq_some_iff.mp hx
  have htag : q.count < tags.length := hlen ▸ hlt
  refine ⟨tags[q.count], List.getElem?_eq_getElem htag, ?_⟩
  have hzip : q.count < (q.items.zip tags).length := by
    rw [List.length_zip]
    omega
  unfold tagged
  rw [List.drop_eq_getElem_cons hzip, List.getElem_zip, hget, pop, dif_pos hlt]

section Waiting

variable [DecidableEq τ] {t t' : τ}

/-- The elements waiting that have a tag. -/
def waiting (q : Fifo α) (tags : List τ) (t : τ) : List α :=
  ((q.tagged tags).filter fun y => y.2 = t).map Prod.fst

/-- Nothing new leaves the elements waiting as they are. -/
theorem waiting_congr (hitems : q'.items = q.items) (htaken : q'.taken = q.taken) :
    q'.waiting tags t = q.waiting tags t := by
  rw [waiting, tagged_congr hitems htaken, waiting]

/-- New elements of one tag come behind the others of the tag. -/
theorem waiting_append {xs : List α} (hlen : tags.length = q.items.length)
    (hitems : q'.items = q.items ++ xs) (htaken : q'.taken = q.taken) (t' : τ) :
    q'.waiting (tags ++ xs.map fun _ => t') t = q.waiting tags t ++ if t' = t then xs else [] := by
  have hnew : xs.zip (xs.map fun _ => t') = xs.map fun x => (x, t') :=
    List.map_prod_left_eq_zip.symm
  rw [waiting, tagged_append hlen hitems htaken, hnew, List.filter_append, List.map_append, waiting]
  congr 1
  split_ifs with ht
  · rw [List.filter_eq_self.mpr, List.map_map]
    · exact List.map_id xs
    · intro y hy
      obtain ⟨x, -, rfl⟩ := List.mem_map.mp hy
      exact decide_eq_true ht
  · rw [List.filter_eq_nil_iff.mpr]
    · rfl
    · intro y hy hdecide
      obtain ⟨x, -, rfl⟩ := List.mem_map.mp hy
      exact ht (of_decide_eq_true hdecide)

/-- Taking the front out takes it out of those that have its tag. -/
theorem waiting_pop (hlen : tags.length = q.items.length) (hx : q.front? = some x) :
    ∃ t', q.frontTag tags = some t' ∧
      q.waiting tags t = (if t' = t then [x] else []) ++ q.pop.waiting tags t := by
  obtain ⟨t', htag, htagged⟩ := tagged_pop hlen hx
  refine ⟨t', htag, ?_⟩
  rw [waiting, htagged, List.filter_cons, waiting]
  by_cases ht : t' = t <;> simp [ht]

/-- **A queue of the elements with the front's tag** has the same front. -/
theorem front_of_waiting {r : Fifo α} (hlen : tags.length = q.items.length)
    (htag : ∀ t' ∈ q.frontTag tags, t' = t) (hr : q.waiting tags t = r.pending) :
    r.front? = q.front? ∧ q.pop.waiting tags t = r.pop.pending := by
  cases hx : q.front? with
  | none =>
    have hnone : r.front? = none := by
      have hempty : q.tagged tags = [] := by
        have hpending := front?_eq_none.mp hx
        rw [pending, List.drop_eq_nil_iff] at hpending
        rw [tagged, List.drop_eq_nil_iff, List.length_zip]
        omega
      rw [waiting, hempty] at hr
      exact front?_eq_none.mpr hr.symm
    rw [pop_of_front?_eq_none hx, pop_of_front?_eq_none hnone]
    exact ⟨hnone, hr⟩
  | some x =>
    obtain ⟨t', hfront, hwaiting⟩ := @waiting_pop _ _ q tags x _ t hlen hx
    rw [if_pos (htag t' hfront), List.singleton_append, hr] at hwaiting
    have hrfront : r.front? = some x := by rw [front?_eq_head?, hwaiting, List.head?_cons]
    refine ⟨hrfront, ?_⟩
    rw [pending_of_front? hrfront] at hwaiting
    exact (List.tail_eq_of_cons_eq hwaiting).symm

theorem mem_waiting_of_mem_pop (hlen : tags.length = q.items.length) {y : α}
    (hy : y ∈ q.pop.waiting tags t) : y ∈ q.waiting tags t := by
  cases hx : q.front? with
  | none => rwa [pop_of_front?_eq_none hx] at hy
  | some x =>
    obtain ⟨t', -, hwaiting⟩ := @waiting_pop _ _ q tags x _ t hlen hx
    rw [hwaiting]
    exact List.mem_append_right _ hy

/-- The front is one of those that have its tag. -/
theorem mem_waiting_of_front (hlen : tags.length = q.items.length) (hx : q.front? = some x)
    (htag : q.frontTag tags = some t) : x ∈ q.waiting tags t := by
  obtain ⟨t', hfront, hwaiting⟩ := @waiting_pop _ _ q tags x _ t hlen hx
  obtain rfl := Option.some.inj (htag.symm.trans hfront)
  rw [hwaiting, if_pos rfl]
  exact List.mem_cons_self

/-- Taking out a front of another tag. -/
theorem waiting_pop_of_ne (hlen : tags.length = q.items.length) (htag : q.frontTag tags = some t')
    (hne : t' ≠ t) : q.pop.waiting tags t = q.waiting tags t := by
  cases hx : q.front? with
  | none => rw [pop_of_front?_eq_none hx]
  | some x =>
    obtain ⟨t'', hfront, hwaiting⟩ := @waiting_pop _ _ q tags x _ t hlen hx
    obtain rfl := Option.some.inj (htag.symm.trans hfront)
    rw [hwaiting, if_neg hne, List.nil_append]

end Waiting

end Fifo

end Containers
