import Mathlib.Data.List.Sort
import Mathlib.Logic.Function.Basic

/-!
# Maps that list their keys in order

A map sorted by a strict order of its keys, as a list of entries that carries the proof that it
is sorted. The first entry has the least key. A family of queues, one for each key of the map,
flattens to one list in key order; filing an element at the back of its queue is an ordered
insertion into that list.

## Main definitions

* `OrderedMap lt α`: the maps from `κ` to `α` sorted by `lt`
* `OrderedMap.find?`, `OrderedMap.insert`, `OrderedMap.erase`, `OrderedMap.begin?`
* `OrderedMap.keys`: the keys in order

## Main results

* `OrderedMap.find?_insert`, `OrderedMap.find?_erase`: lookups after an update
* `OrderedMap.keys_insert`, `OrderedMap.keys_erase`: the keys after an update
* `flatMap_insertKey`: filing an element under its key is `List.orderedInsert` on the flattened
  queues
-/

namespace Containers

universe u v

/-- A map from `κ` to `α`, its entries listed in the order `lt` of their keys. -/
structure OrderedMap {κ : Type u} (lt : κ → κ → Prop) (α : Type v) where
  entries : List (κ × α)
  sorted : entries.Pairwise fun a b => lt a.1 b.1

variable {κ : Type u} {lt : κ → κ → Prop} {α : Type v}

section Lists

/-- Entries with the value at `k` set to `v`. -/
def insertEntry (lt : κ → κ → Prop) [DecidableRel lt] (k : κ) (v : α) :
    List (κ × α) → List (κ × α)
  | [] => [(k, v)]
  | e :: es =>
    if lt k e.1 then (k, v) :: e :: es
    else if lt e.1 k then e :: insertEntry lt k v es
    else (k, v) :: es

/-- Keys with `k` present. -/
def insertKey (lt : κ → κ → Prop) [DecidableRel lt] (k : κ) : List κ → List κ
  | [] => [k]
  | a :: as =>
    if lt k a then k :: a :: as
    else if lt a k then a :: insertKey lt k as
    else a :: as

theorem mem_insertEntry [DecidableRel lt] {k : κ} {v : α} {es : List (κ × α)} {e : κ × α}
    (h : e ∈ insertEntry lt k v es) : e = (k, v) ∨ e ∈ es := by
  induction es with
  | nil => simpa [insertEntry] using h
  | cons a as ih =>
    simp only [insertEntry] at h
    split_ifs at h
    · simpa using h
    · rcases List.mem_cons.mp h with rfl | h
      · exact Or.inr (by simp)
      · exact (ih h).imp_right (List.mem_cons_of_mem _)
    · rcases List.mem_cons.mp h with h | h
      · exact Or.inl h
      · exact Or.inr (List.mem_cons_of_mem _ h)

variable [IsStrictTotalOrder κ lt]

theorem eq_of_not_lt {a b : κ} (h₁ : ¬ lt a b) (h₂ : ¬ lt b a) : a = b :=
  Std.Trichotomous.trichotomous a b h₁ h₂

variable [DecidableRel lt]

theorem insertEntry_sorted {k : κ} {v : α} {es : List (κ × α)}
    (h : es.Pairwise fun a b => lt a.1 b.1) :
    (insertEntry lt k v es).Pairwise fun a b => lt a.1 b.1 := by
  induction es with
  | nil => simp [insertEntry]
  | cons e es ih =>
    obtain ⟨he, hes⟩ := List.pairwise_cons.mp h
    simp only [insertEntry]
    split_ifs with h₁ h₂
    · refine List.pairwise_cons.mpr ⟨fun b hb => ?_, h⟩
      rcases List.mem_cons.mp hb with rfl | hb
      · exact h₁
      · exact IsTrans.trans _ _ _ h₁ (he b hb)
    · refine List.pairwise_cons.mpr ⟨fun b hb => ?_, ih hes⟩
      rcases mem_insertEntry hb with rfl | hb
      · exact h₂
      · exact he b hb
    · obtain rfl := eq_of_not_lt h₁ h₂
      exact List.pairwise_cons.mpr ⟨he, hes⟩

theorem map_fst_insertEntry (k : κ) (v : α) (es : List (κ × α)) :
    (insertEntry lt k v es).map Prod.fst = insertKey lt k (es.map Prod.fst) := by
  induction es with
  | nil => rfl
  | cons e es ih =>
    simp only [insertEntry, List.map_cons, insertKey]
    split_ifs with h₁ h₂
    · rfl
    · simp [ih]
    · simp [eq_of_not_lt h₁ h₂]

end Lists

namespace OrderedMap

/-- The map without entries. -/
def empty : OrderedMap lt α := ⟨[], List.Pairwise.nil⟩

/-- The keys in order. -/
def keys (m : OrderedMap lt α) : List κ := m.entries.map Prod.fst

/-- The entry with the least key. -/
def begin? (m : OrderedMap lt α) : Option (κ × α) := m.entries.head?

@[simp] theorem keys_empty : (empty : OrderedMap lt α).keys = [] := rfl

theorem keys_sorted (m : OrderedMap lt α) : m.keys.Pairwise lt :=
  List.pairwise_map.mpr m.sorted

theorem keys_eq_cons {m : OrderedMap lt α} {e : κ × α} (h : m.begin? = some e) :
    ∃ ks, m.keys = e.1 :: ks := by
  obtain ⟨es, he⟩ := List.head?_eq_some_iff.mp h
  exact ⟨es.map Prod.fst, by simp [keys, he]⟩

theorem keys_eq_nil {m : OrderedMap lt α} : m.keys = [] ↔ m.begin? = none := by
  simp [keys, begin?]

section Lookup

variable [DecidableEq κ]

/-- The value at the key `k`. -/
def find? (m : OrderedMap lt α) (k : κ) : Option α :=
  (m.entries.find? fun e => e.1 = k).map Prod.snd

/-- The map without the key `k`. -/
def erase (m : OrderedMap lt α) (k : κ) : OrderedMap lt α :=
  ⟨m.entries.filter fun e => e.1 ≠ k, m.sorted.filter _⟩

@[simp] theorem find?_empty (k : κ) : (empty : OrderedMap lt α).find? k = none := rfl

theorem keys_erase (m : OrderedMap lt α) (k : κ) :
    (m.erase k).keys = m.keys.filter (· ≠ k) := by
  simp only [erase, keys, List.filter_map]
  rfl

theorem find?_isSome {m : OrderedMap lt α} {k : κ} : (m.find? k).isSome ↔ k ∈ m.keys := by
  simp [find?, keys]

theorem find?_eq_none {m : OrderedMap lt α} {k : κ} : m.find? k = none ↔ k ∉ m.keys := by
  rw [← find?_isSome]
  cases m.find? k <;> simp

theorem find?_erase (m : OrderedMap lt α) (k k' : κ) :
    (m.erase k).find? k' = if k' = k then none else m.find? k' := by
  simp only [erase, find?, List.find?_filter]
  split_ifs with h
  · subst h
    rw [List.find?_eq_none.mpr (by simp)]
    rfl
  · congr 2
    funext e
    by_cases he : e.1 = k' <;> simp [he, h]

theorem find?_begin? {m : OrderedMap lt α} {e : κ × α} (h : m.begin? = some e) :
    m.find? e.1 = some e.2 := by
  obtain ⟨es, he⟩ := List.head?_eq_some_iff.mp h
  simp [find?, he]

end Lookup

section Insert

variable [IsStrictTotalOrder κ lt]

theorem keys_nodup (m : OrderedMap lt α) : m.keys.Nodup :=
  m.keys_sorted.imp (S := (· ≠ ·)) fun h he => irrefl (r := lt) _ (he ▸ h)

variable [DecidableRel lt]

/-- The map with the value at `k` set to `v`. -/
def insert (m : OrderedMap lt α) (k : κ) (v : α) : OrderedMap lt α :=
  ⟨insertEntry lt k v m.entries, insertEntry_sorted m.sorted⟩

theorem keys_insert (m : OrderedMap lt α) (k : κ) (v : α) :
    (m.insert k v).keys = insertKey lt k m.keys :=
  map_fst_insertEntry k v m.entries

variable [DecidableEq κ]

theorem find?_insertEntry (k k' : κ) (v : α) (es : List (κ × α)) :
    ((insertEntry lt k v es).find? fun e => e.1 = k').map Prod.snd =
      if k' = k then some v else (es.find? fun e => e.1 = k').map Prod.snd := by
  induction es with
  | nil => by_cases h : k' = k <;> simp [insertEntry, h, eq_comm (a := k)]
  | cons e es ih =>
    simp only [insertEntry]
    by_cases h₁ : lt k e.1
    · by_cases h : k' = k <;> simp [h₁, h, eq_comm (a := k)]
    by_cases h₂ : lt e.1 k
    · have hne : e.1 ≠ k := fun he => irrefl (r := lt) k (he ▸ h₂)
      rw [if_neg h₁, if_pos h₂, List.find?_cons, List.find?_cons]
      by_cases he : e.1 = k'
      · simp [he, he ▸ hne]
      · simpa [he] using ih
    · obtain rfl := eq_of_not_lt h₁ h₂
      by_cases h : k' = e.1 <;> simp [h₁, h, eq_comm (a := e.1)]

theorem find?_insert (m : OrderedMap lt α) (k k' : κ) (v : α) :
    (m.insert k v).find? k' = if k' = k then some v else m.find? k' :=
  find?_insertEntry k k' v m.entries

end Insert

end OrderedMap

/-! ## Queues filed under keys -/

section Queues

variable [DecidableRel lt] {β : Type v}

theorem orderedInsert_skip {r : β → β → Prop} [DecidableRel r] {x : β} {xs ys : List β}
    (h : ∀ a ∈ xs, ¬ r x a) : (xs ++ ys).orderedInsert r x = xs ++ ys.orderedInsert r x := by
  induction xs with
  | nil => rfl
  | cons a as ih =>
    rw [List.cons_append, List.orderedInsert_cons, if_neg (h a (by simp)),
      ih fun b hb => h b (List.mem_cons_of_mem _ hb)]
    rfl

theorem orderedInsert_front {r : β → β → Prop} [DecidableRel r] {x : β} {ys : List β}
    (h : ∀ b ∈ ys, r x b) : ys.orderedInsert r x = x :: ys := by
  cases ys with
  | nil => rfl
  | cons y ys => exact List.orderedInsert_cons_of_le _ _ (h y (by simp))

/-- A key without a queue can be left out. -/
theorem flatMap_filter_ne [DecidableEq κ] {q : κ → List β} {k : κ} (hq : q k = [])
    (ks : List κ) : (ks.filter (· ≠ k)).flatMap q = ks.flatMap q := by
  induction ks with
  | nil => rfl
  | cons a as ih =>
    by_cases ha : a = k
    · rw [List.filter_cons_of_neg (by simpa using ha), List.flatMap_cons, ih, ha, hq,
        List.nil_append]
    · rw [List.filter_cons_of_pos (by simpa using ha), List.flatMap_cons, List.flatMap_cons, ih]

variable [IsStrictTotalOrder κ lt]

theorem insertKey_of_mem {k : κ} {ks : List κ} (hs : ks.Pairwise lt) (hk : k ∈ ks) :
    insertKey lt k ks = ks := by
  induction ks with
  | nil => simp at hk
  | cons a as ih =>
    obtain ⟨ha, has⟩ := List.pairwise_cons.mp hs
    simp only [insertKey]
    rcases List.mem_cons.mp hk with rfl | hk
    · simp [irrefl (r := lt) k]
    · rw [if_neg (asymm_of lt (ha k hk)), if_pos (ha k hk), ih has hk]

/-- Filing `x` at the back of the queue of its key is an ordered insertion into the flattened
queues. -/
theorem flatMap_insertKey [DecidableEq κ] {key : β → κ} {q : κ → List β} {ks : List κ} {x : β}
    (hs : ks.Pairwise lt) (hq : ∀ k, ∀ b ∈ q k, key b = k) (hn : key x ∉ ks → q (key x) = []) :
    (insertKey lt (key x) ks).flatMap (Function.update q (key x) (q (key x) ++ [x])) =
      (ks.flatMap q).orderedInsert (fun a b => lt (key a) (key b)) x := by
  induction ks with
  | nil => simp [insertKey, hn (by simp)]
  | cons a as ih =>
    obtain ⟨ha, has⟩ := List.pairwise_cons.mp hs
    have hoff : ∀ ks : List κ, key x ∉ ks →
        ks.flatMap (Function.update q (key x) (q (key x) ++ [x])) = ks.flatMap q := fun ks hk =>
      List.flatMap_congr fun k hk' => Function.update_of_ne (fun h => hk (by rwa [h] at hk')) _ _
    simp only [insertKey]
    split_ifs with h₁ h₂
    · have hnot : key x ∉ a :: as := by
        intro hmem
        rcases List.mem_cons.mp hmem with h | h
        · exact irrefl (r := lt) (key x) (by rwa [← h] at h₁)
        · exact asymm_of lt (ha _ h) h₁
      rw [List.flatMap_cons, hoff _ hnot, Function.update_self, hn hnot]
      refine (orderedInsert_front fun b hb => ?_).symm
      obtain ⟨k, hk, hb⟩ := List.mem_flatMap.mp hb
      rw [hq k b hb]
      rcases List.mem_cons.mp hk with rfl | hk
      · exact h₁
      · exact IsTrans.trans _ _ _ h₁ (ha k hk)
    · have hne : a ≠ key x := fun h => irrefl (r := lt) a (by rwa [← h] at h₂)
      have hskip : ∀ b ∈ q a, ¬ lt (key x) (key b) := fun b hb => by rwa [hq a b hb]
      rw [List.flatMap_cons, Function.update_of_ne hne,
        ih has fun h => hn (by simpa [Ne.symm hne] using h), List.flatMap_cons,
        orderedInsert_skip hskip]
    · obtain rfl := eq_of_not_lt h₁ h₂
      have hnot : key x ∉ as := fun h => irrefl (r := lt) _ (ha _ h)
      have hskip : ∀ b ∈ q (key x), ¬ lt (key x) (key b) := fun b hb => by
        rw [hq _ b hb]
        exact irrefl _
      have hfront : ∀ b ∈ as.flatMap q, lt (key x) (key b) := fun b hb => by
        obtain ⟨k, hk, hb⟩ := List.mem_flatMap.mp hb
        exact hq k b hb ▸ ha k hk
      rw [List.flatMap_cons, hoff _ hnot, Function.update_self, List.flatMap_cons,
        orderedInsert_skip hskip, orderedInsert_front hfront, List.append_assoc]
      rfl

end Queues

end Containers
