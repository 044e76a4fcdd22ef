import Mathlib.Data.List.Nodup

/-!
# Lists threaded through successor and predecessor links

A list of addresses is threaded when each address links to the next one and back to the previous
one, as in an intrusive doubly linked list. Taking an address out and appending one at the back
rewrite the links of its neighbours only.

## Main definitions

* `Threaded next prev before xs after`: the links thread `xs`, from `before` to `after`

## Main results

* `Threaded.append_iff`: threading a concatenation
* `Threaded.unlink`: taking an address out of a threaded list
* `Threaded.concat`: appending an address at the back
-/

namespace Containers

variable {A : Type*} {next prev next' prev' : A → Option A} {before after : Option A}

/-- The links thread `xs`: its first address follows `before` and its last one precedes
`after`. -/
def Threaded (next prev : A → Option A) : Option A → List A → Option A → Prop
  | _, [], _ => True
  | before, a :: as, after =>
    prev a = before ∧ next a = as.head?.or after ∧ Threaded next prev (some a) as after

namespace Threaded

theorem append_iff {xs ys : List A} :
    Threaded next prev before (xs ++ ys) after ↔
      Threaded next prev before xs (ys.head?.or after) ∧
        Threaded next prev (xs.getLast?.or before) ys after := by
  induction xs generalizing before with
  | nil => simp [Threaded]
  | cons a as ih =>
    have hhead : (as ++ ys).head?.or after = as.head?.or (ys.head?.or after) := by
      simp [List.head?_append, Option.or_assoc]
    have hlast : as.getLast?.or (some a) = (a :: as).getLast?.or before := by
      cases h : as.getLast? <;> simp [List.getLast?_cons, h]
    simp only [List.cons_append, Threaded, ih, hhead, hlast, and_assoc]

theorem congr {xs : List A} (h : Threaded next prev before xs after)
    (hn : ∀ a ∈ xs, next' a = next a) (hp : ∀ a ∈ xs, prev' a = prev a) :
    Threaded next' prev' before xs after := by
  induction xs generalizing before with
  | nil => trivial
  | cons a as ih =>
    obtain ⟨h₁, h₂, h₃⟩ := h
    exact ⟨(hp a (by simp)).trans h₁, (hn a (by simp)).trans h₂,
      ih h₃ (fun b hb => hn b (List.mem_cons_of_mem _ hb))
        fun b hb => hp b (List.mem_cons_of_mem _ hb)⟩

/-- The links of an address name its neighbours. -/
theorem links_of_middle {s : A} {pre post : List A}
    (h : Threaded next prev none (pre ++ s :: post) none) :
    prev s = pre.getLast? ∧ next s = post.head? := by
  obtain ⟨-, h₁, h₂, -⟩ := append_iff.mp h
  exact ⟨by simpa using h₁, by simpa using h₂⟩

variable [DecidableEq A]

/-- Redirecting the link out of the last address. -/
theorem redirect_last {after' : Option A} {xs : List A} (hnd : xs.Nodup)
    (h : Threaded next prev before xs after)
    (hn : ∀ a ∈ xs, next' a = if xs.getLast? = some a then after' else next a)
    (hp : ∀ a ∈ xs, prev' a = prev a) : Threaded next' prev' before xs after' := by
  rcases List.eq_nil_or_concat xs with rfl | ⟨as, z, rfl⟩
  · trivial
  rw [List.concat_eq_append] at *
  obtain ⟨hs, hz, -, -⟩ := append_iff.mp h
  have hne : ∀ a ∈ as, a ≠ z := fun a ha he => by
    subst he
    exact (List.nodup_append.mp hnd).2.2 a ha a (by simp) rfl
  refine append_iff.mpr ⟨?_, ?_, ?_, trivial⟩
  · refine hs.congr (fun a ha => ?_) fun a ha => hp a (by simp [ha])
    rw [hn a (by simp [ha]), if_neg (by simpa using (hne a ha).symm)]
  · rw [hp z (by simp), hz]
  · rw [hn z (by simp)]
    simp

/-- Redirecting the link back from the first address. -/
theorem redirect_first {before' : Option A} {xs : List A} (hnd : xs.Nodup)
    (h : Threaded next prev before xs after) (hn : ∀ a ∈ xs, next' a = next a)
    (hp : ∀ a ∈ xs, prev' a = if xs.head? = some a then before' else prev a) :
    Threaded next' prev' before' xs after := by
  cases xs with
  | nil => trivial
  | cons a as =>
    obtain ⟨-, h₂, h₃⟩ := h
    have hne : ∀ b ∈ as, a ≠ b := fun b hb he => (List.nodup_cons.mp hnd).1 (he ▸ hb)
    refine ⟨by simpa using hp a (by simp), (hn a (by simp)).trans h₂,
      h₃.congr (fun b hb => hn b (by simp [hb])) fun b hb => ?_⟩
    rw [hp b (by simp [hb]), if_neg (by simpa using hne b hb)]

/-- **Taking an address out**: its predecessor links to its successor and back. -/
theorem unlink {s : A} {pre post : List A} (hnd : (pre ++ s :: post).Nodup)
    (h : Threaded next prev none (pre ++ s :: post) none)
    (hn : ∀ a ∈ pre ++ post, next' a = if prev s = some a then next s else next a)
    (hp : ∀ a ∈ pre ++ post, prev' a = if next s = some a then prev s else prev a) :
    Threaded next' prev' none (pre ++ post) none := by
  obtain ⟨hsp, hsn⟩ := h.links_of_middle
  obtain ⟨hpre, -, -, hpost⟩ := append_iff.mp h
  obtain ⟨hndpre, hndpost, hdisj⟩ := List.nodup_append.mp hnd
  have hdisj' : ∀ a ∈ pre, ∀ b ∈ post, a ≠ b := fun a ha b hb => hdisj a ha b (by simp [hb])
  rw [hsp, hsn] at hn hp
  refine append_iff.mpr ⟨hpre.redirect_last hndpre (fun a ha => ?_) fun a ha => ?_,
    hpost.redirect_first (List.nodup_cons.mp hndpost).2 (fun a ha => ?_) fun a ha => ?_⟩
  · simpa using hn a (by simp [ha])
  · rw [hp a (by simp [ha]), if_neg]
    exact fun he => hdisj' a ha a (List.mem_of_mem_head? he) rfl
  · rw [hn a (by simp [ha]), if_neg]
    exact fun he => hdisj' a (List.mem_of_getLast? he) a ha rfl
  · simpa using hp a (by simp [ha])

/-- The head of the list without `s`, from the link `n` out of `s`. -/
theorem head?_unlink {s : A} {n : Option A} {pre post : List A}
    (hnd : (pre ++ s :: post).Nodup) (hsn : n = post.head?) :
    (if (pre ++ s :: post).head? = some s then n else (pre ++ s :: post).head?) =
      (pre ++ post).head? := by
  cases pre with
  | nil => simp [hsn]
  | cons a as =>
    have hne : a ≠ s := fun he => by simp [he] at hnd
    simp [hne]

/-- The last address of the list without `s`, from the link `n` back from `s`. -/
theorem getLast?_unlink {s : A} {n : Option A} {pre post : List A}
    (hnd : (pre ++ s :: post).Nodup) (hsp : n = pre.getLast?) :
    (if (pre ++ s :: post).getLast? = some s then n else (pre ++ s :: post).getLast?) =
      (pre ++ post).getLast? := by
  rcases List.eq_nil_or_concat post with rfl | ⟨bs, b, rfl⟩
  · simp [hsp]
  · have hne : b ≠ s := fun he => by simp [he, List.nodup_append] at hnd
    have hlast : ∀ l : List A, (l ++ bs.concat b).getLast? = some b := fun l => by
      simp [List.getLast?_append]
    rw [hlast, show pre ++ s :: bs.concat b = (pre ++ [s]) ++ bs.concat b by simp, hlast]
    simp [hne]

/-- **Appending an address at the back**: the old last address links to it and back. -/
theorem concat {s : A} {xs : List A} (hnd : xs.Nodup) (h : Threaded next prev none xs none)
    (hn : ∀ a ∈ xs, next' a = if xs.getLast? = some a then some s else next a)
    (hp : ∀ a ∈ xs, prev' a = prev a) (hsn : next' s = none) (hsp : prev' s = xs.getLast?) :
    Threaded next' prev' none (xs ++ [s]) none := by
  refine append_iff.mpr ⟨?_, by simpa using hsp, by simpa using hsn, trivial⟩
  exact h.redirect_last hnd hn hp

end Threaded

end Containers
