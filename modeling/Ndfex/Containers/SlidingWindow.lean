import Mathlib.Data.List.Basic
import Mathlib.Data.List.TakeWhile
import Mathlib.Tactic.SplitIfs
import Mathlib.Data.List.Count

/-!
# A queue that remembers a window

Times are logged in order, and a queue keeps the last of them: before it is used it drops those at its
front that are older than a given width. What it holds then is what the log has of the window that ends
now. A log keeps a bound in every window when no group of times that is logged at once takes the window
that ends with it above the bound.

## Main definitions

* `SlidingWindow.inWindow`, `SlidingWindow.AtMost`: how much a log has of a window
* `SlidingWindow.prune`: the queue without what is too old
* `SlidingWindow.Remembers`: the queue of a log

## Main results

* `SlidingWindow.Remembers.prune`, `SlidingWindow.Remembers.push`: the operations of the queue
* `SlidingWindow.Remembers.length_prune`: a pruned queue holds the window that ends now
* `SlidingWindow.atMost_append_replicate_iff`: a group of times that is logged at once
-/

namespace Containers.SlidingWindow

variable {width bound now : ℕ} {log queue : List ℕ}

/-- How much a log has of the window that begins at a time. -/
def inWindow (width first : ℕ) (log : List ℕ) : ℕ :=
  log.countP fun t => first ≤ t ∧ t ≤ first + width

/-- **A bound in every window.** -/
def AtMost (width bound : ℕ) (log : List ℕ) : Prop := ∀ first, inWindow width first log ≤ bound

/-- What a log has that is not older than the width. -/
def lately (width now : ℕ) (log : List ℕ) : ℕ := log.countP fun t => now ≤ t + width

/-- The queue without the times at its front that are older than the width. -/
def prune (width now : ℕ) (queue : List ℕ) : List ℕ := queue.dropWhile fun t => t + width < now

/-- In order, the times that are not too old are those behind the ones that are. -/
theorem length_prune_of_sorted (h : queue.Pairwise (· ≤ ·)) :
    (prune width now queue).length = lately width now queue := by
  induction queue with
  | nil => rfl
  | cons t ts ih =>
    obtain ⟨hfirst, hrest⟩ := List.pairwise_cons.mp h
    rw [prune, lately]
    by_cases ht : t + width < now
    · rw [List.dropWhile_cons_of_pos (by simpa using ht), List.countP_cons_of_neg (by simpa using ht)]
      exact ih hrest
    · -- the first time is in the window, and so are all behind it
      rw [List.dropWhile_cons_of_neg (by simpa using ht), List.countP_eq_length.mpr]
      intro u hu
      rcases List.mem_cons.mp hu with rfl | hu
      · simpa using ht
      · have hle := hfirst u hu
        simp only [decide_eq_true_eq]
        omega

/-- **The queue of a log**: the log is in order, and all of it is in the queue but what is too old. -/
structure Remembers (width now : ℕ) (log queue : List ℕ) : Prop where
  sorted : log.Pairwise (· ≤ ·)
  le_now : ∀ t ∈ log, t ≤ now
  split : ∃ dropped, log = dropped ++ queue ∧ ∀ t ∈ dropped, t + width < now

namespace Remembers

theorem nil (width now : ℕ) : Remembers width now [] [] :=
  ⟨.nil, by simp, [], rfl, by simp⟩

/-- What is too old stays so. -/
theorem mono (h : Remembers width now log queue) {later : ℕ} (hle : now ≤ later) :
    Remembers width later log queue := by
  obtain ⟨dropped, hlog, hold⟩ := h.split
  refine ⟨h.sorted, fun t ht => Nat.le_trans (h.le_now t ht) hle, dropped, hlog, ?_⟩
  intro t ht
  exact Nat.lt_of_lt_of_le (hold t ht) hle

/-- The queue may drop what is too old. -/
theorem prune (h : Remembers width now log queue) :
    Remembers width now log (SlidingWindow.prune width now queue) := by
  obtain ⟨dropped, rfl, hold⟩ := h.split
  refine ⟨h.sorted, h.le_now, dropped ++ queue.takeWhile fun t => t + width < now, ?_, ?_⟩
  · rw [List.append_assoc, SlidingWindow.prune, List.takeWhile_append_dropWhile]
  · intro t ht
    rcases List.mem_append.mp ht with ht | ht
    · exact hold t ht
    · simpa using List.mem_takeWhile_imp ht

/-- A group of times is logged at once. -/
theorem push (h : Remembers width now log queue) (k : ℕ) :
    Remembers width now (log ++ List.replicate k now) (queue ++ List.replicate k now) := by
  obtain ⟨dropped, rfl, hold⟩ := h.split
  refine ⟨List.pairwise_append.mpr ⟨h.sorted, List.pairwise_replicate.mpr (Or.inr (Nat.le_refl _)), ?_⟩, ?_,
    dropped, List.append_assoc .., hold⟩
  · intro t ht u hu
    rw [List.eq_of_mem_replicate hu]
    exact h.le_now t ht
  · intro t ht
    rcases List.mem_append.mp ht with ht | ht
    · exact h.le_now t ht
    · exact Nat.le_of_eq (List.eq_of_mem_replicate ht)

/-- **A pruned queue** holds what the log has of the window that ends now. -/
theorem length_prune (h : Remembers width now log queue) :
    (SlidingWindow.prune width now queue).length = lately width now log := by
  obtain ⟨dropped, rfl, hold⟩ := h.split
  have hnone : dropped.countP (fun t => now ≤ t + width) = 0 := by
    rw [List.countP_eq_zero]
    intro t ht
    simpa using hold t ht
  rw [length_prune_of_sorted (List.pairwise_append.mp h.sorted).2.1, lately, lately,
    List.countP_append, hnone, Nat.zero_add]

end Remembers

/-- **A group of times that is logged at once** keeps the bound exactly when the window that ends with it
has room. -/
theorem atMost_append_replicate_iff (hle : ∀ t ∈ log, t ≤ now) (k : ℕ) :
    AtMost width bound (log ++ List.replicate k now) ↔
      AtMost width bound log ∧ (k ≠ 0 → lately width now log + k ≤ bound) := by
  have hsplit : ∀ first, inWindow width first (log ++ List.replicate k now) =
      inWindow width first log + if first ≤ now ∧ now ≤ first + width then k else 0 := by
    intro first
    rw [inWindow, List.countP_append, List.countP_replicate]
    simp only [decide_eq_true_eq]
    rfl
  constructor
  · intro h
    constructor
    · intro first
      have hbound := h first
      rw [hsplit] at hbound
      exact Nat.le_of_add_right_le hbound
    · intro _
      -- the window that ends now has all that is not too old
      have hbound := h (now - width)
      rw [hsplit, if_pos ⟨Nat.sub_le _ _, by omega⟩] at hbound
      refine Nat.le_trans (Nat.add_le_add_right ?_ k) hbound
      refine List.countP_mono_left fun t ht hlately => ?_
      have hnow := hle t ht
      simp only [decide_eq_true_eq] at hlately ⊢
      omega
  · rintro ⟨h, hroom⟩ first
    rw [hsplit]
    split_ifs with hnow
    · by_cases hk : k = 0
      · rw [hk]
        exact h first
      refine Nat.le_trans (Nat.add_le_add_right ?_ k) (hroom hk)
      refine List.countP_mono_left fun t ht hwindow => ?_
      simp only [decide_eq_true_eq] at hwindow ⊢
      omega
    · exact h first

end Containers.SlidingWindow
