import Ndfex.Transition.Run

/-!
# Runs with hidden steps

Two systems run side by side. A shared step is one of both, a hidden step is one of the second system
alone. A relation between their states that both kinds of steps keep holds at the end: so what the
relation fixes of the second state does not depend on the hidden steps.

## Main definitions

* `Weave R S H s t ls ms s' t'`: a run of `R` along `ls` from `s` and one along `ms` from `t`, whose
  steps are shared by `S` or hidden by `H`

## Main results

* `Weave.left`, `Weave.right`: the two runs
* `Weave.invariant`: the unwinding rule
-/

namespace Transition

universe u v w

variable {σ : Type u} {τ : Type v} {ι : Type w} {R R' : σ → ι → σ → Prop}
  {S S' H H' : τ → ι → τ → Prop}

/-- Two runs, the second of which has hidden steps besides the shared ones. -/
inductive Weave (R : σ → ι → σ → Prop) (S H : τ → ι → τ → Prop) (s : σ) (t : τ) :
    List ι → List ι → σ → τ → Prop
  | nil : Weave R S H s t [] [] s t
  | shared {ls ms : List ι} {l : ι} {s₁ s₂ : σ} {t₁ t₂ : τ} (weave : Weave R S H s t ls ms s₁ t₁)
      (left : R s₁ l s₂) (right : S t₁ l t₂) : Weave R S H s t (ls ++ [l]) (ms ++ [l]) s₂ t₂
  | hidden {ls ms : List ι} {l : ι} {s₁ : σ} {t₁ t₂ : τ} (weave : Weave R S H s t ls ms s₁ t₁)
      (step : H t₁ l t₂) : Weave R S H s t ls (ms ++ [l]) s₁ t₂

namespace Weave

variable {s s' : σ} {t t' : τ} {ls ms : List ι}

/-- The run of the first system. -/
theorem left (h : Weave R S H s t ls ms s' t') : Run R s ls s' := by
  induction h with
  | nil => exact .nil s
  | shared _ step _ ih => exact .snoc ih step
  | hidden _ _ ih => exact ih

/-- The labels of the first run are some of those of the second. -/
theorem sublist (h : Weave R S H s t ls ms s' t') : ls.Sublist ms := by
  induction h with
  | nil => exact .slnil
  | shared _ _ _ ih => exact ih.append (.refl _)
  | hidden _ _ ih => exact ih.trans (List.sublist_append_left ..)

theorem mono (hR : ∀ s l s', R s l s' → R' s l s') (hS : ∀ t l t', S t l t' → S' t l t')
    (hH : ∀ t l t', H t l t' → H' t l t') (h : Weave R S H s t ls ms s' t') :
    Weave R' S' H' s t ls ms s' t' := by
  induction h with
  | nil => exact .nil
  | shared _ left right ih => exact .shared ih (hR _ _ _ left) (hS _ _ _ right)
  | hidden _ step ih => exact .hidden ih (hH _ _ _ step)

/-- **Unwinding**: a relation that the shared and the hidden steps keep holds at the end. -/
theorem invariant {I : σ → τ → Prop}
    (hshared : ∀ s t l s' t', I s t → R s l s' → S t l t' → I s' t')
    (hhidden : ∀ s t l t', I s t → H t l t' → I s t') (h : Weave R S H s t ls ms s' t')
    (hstart : I s t) : I s' t' := by
  induction h with
  | nil => exact hstart
  | shared _ left right ih => exact hshared _ _ _ _ _ ih left right
  | hidden _ step ih => exact hhidden _ _ _ _ ih step

end Weave

end Transition
