import Mathlib.Data.List.Induction

/-!
# Runs of a labelled transition system

A transition system is a relation between a state, a label and the next state. A run applies the
labels of a list in order. A property that every step preserves holds along every run, and a
guard restricts the steps a run may take.

## Main definitions

* `Run R s ls t`: the run from `s` to `t` along the labels `ls`
* `Guarded G R`: the steps of `R` whose state and label satisfy `G`

## Main results

* `Run.invariant`: what every step preserves holds at the end of a run
* `Run.append_iff`: a run along a concatenation splits
* `Run.of_foldl`: the runs of a function
* `Run.mono`: a run of a smaller relation is a run of a larger one
* `Run.guarded_and`: the guards of a deterministic run join
* `Run.exists_simulating`: where runs match the steps of another system, runs match its runs
* `Run.exists_drained`: a measure that some step always lowers comes down to zero
-/

namespace Transition

universe u v

variable {σ : Type u} {ι : Type v} {R R' : σ → ι → σ → Prop} {G : σ → ι → Prop}

/-- The runs of `R`: each label is one step. -/
inductive Run (R : σ → ι → σ → Prop) : σ → List ι → σ → Prop
  | nil (s : σ) : Run R s [] s
  | snoc {s t u : σ} {ls : List ι} {l : ι} (run : Run R s ls t) (step : R t l u) :
      Run R s (ls ++ [l]) u

/-- The steps of `R` taken in a state and by a label that satisfy `G`. -/
def Guarded (G : σ → ι → Prop) (R : σ → ι → σ → Prop) : σ → ι → σ → Prop :=
  fun s l t => G s l ∧ R s l t

namespace Run

/-- **The invariant rule**: what every step preserves holds at the end of every run. -/
theorem invariant {I : σ → Prop} (hstep : ∀ s l t, I s → R s l t → I t) {s t : σ} {ls : List ι}
    (h : Run R s ls t) (hs : I s) : I t := by
  induction h with
  | nil => exact hs
  | snoc _ step ih => exact hstep _ _ _ ih step

theorem mono (hR : ∀ s l t, R s l t → R' s l t) {s t : σ} {ls : List ι} (h : Run R s ls t) :
    Run R' s ls t := by
  induction h with
  | nil => exact .nil _
  | snoc _ step ih => exact .snoc ih (hR _ _ _ step)

theorem append {s t u : σ} {ls ms : List ι} (h₁ : Run R s ls t) (h₂ : Run R t ms u) :
    Run R s (ls ++ ms) u := by
  induction h₂ with
  | nil => rwa [List.append_nil]
  | snoc _ step ih => exact List.append_assoc .. ▸ .snoc ih step

/-- A run by its first step. -/
theorem cons {s t u : σ} {l : ι} {ls : List ι} (step : R s l t) (h : Run R t ls u) :
    Run R s (l :: ls) u :=
  append (.snoc (.nil s) step) h

/-- The run of a function whose condition holds before each of the labels. -/
theorem of_foldl {f : σ → ι → σ} {C : σ → ι → Prop} {s : σ} {ls : List ι}
    (h : ∀ i (hi : i < ls.length), C ((ls.take i).foldl f s) ls[i]) :
    Run (fun s l t => C s l ∧ t = f s l) s ls (ls.foldl f s) := by
  induction ls using List.reverseRecOn with
  | nil => exact .nil _
  | append_singleton ls l ih =>
    have hrun := ih fun i hi => by
      have hprev := h i (by simp; omega)
      rwa [List.take_append_of_le_length (Nat.le_of_lt hi), List.getElem_append_left hi] at hprev
    have hlast := h ls.length (by simp)
    rw [List.take_left, List.getElem_concat_length rfl] at hlast
    rw [List.foldl_append]
    exact .snoc hrun ⟨hlast, rfl⟩

/-- The last step of a nonempty run. -/
theorem exists_last {s u : σ} {ls : List ι} {l : ι} (h : Run R s (ls ++ [l]) u) :
    ∃ t, Run R s ls t ∧ R t l u := by
  generalize hm : ls ++ [l] = ms at h
  cases h with
  | nil => simp at hm
  | snoc run step =>
    obtain ⟨rfl, hl⟩ := List.append_inj' hm rfl
    obtain rfl : l = _ := by simpa using hl
    exact ⟨_, run, step⟩

/-- The empty run stays where it is. -/
theorem eq_of_nil {s t : σ} (h : Run R s [] t) : s = t := by
  generalize hm : ([] : List ι) = ms at h
  cases h with
  | nil => rfl
  | snoc run step => simp at hm

theorem append_iff {s u : σ} {ls ms : List ι} :
    Run R s (ls ++ ms) u ↔ ∃ t, Run R s ls t ∧ Run R t ms u := by
  refine ⟨fun h => ?_, fun ⟨t, h₁, h₂⟩ => h₁.append h₂⟩
  induction ms using List.reverseRecOn generalizing u with
  | nil => exact ⟨u, by simpa using h, .nil u⟩
  | append_singleton ms m ih =>
    rw [← List.append_assoc] at h
    obtain ⟨t, ht, step⟩ := h.exists_last
    obtain ⟨t', h₁, h₂⟩ := ih ht
    exact ⟨t', h₁, .snoc h₂ step⟩

/-- The first step of a nonempty run. -/
theorem exists_first {s u : σ} {l : ι} {ls : List ι} (h : Run R s (l :: ls) u) :
    ∃ t, R s l t ∧ Run R t ls u := by
  rw [← List.singleton_append] at h
  obtain ⟨t, hfirst, hrest⟩ := append_iff.mp h
  have hlast : Run R s ([] ++ [l]) t := hfirst
  obtain ⟨_, hnil, step⟩ := hlast.exists_last
  obtain rfl := hnil.eq_of_nil
  exact ⟨t, step, hrest⟩

/-- A deterministic relation has one run along each list of labels. -/
theorem unique (hR : ∀ s l t t', R s l t → R s l t' → t = t') {s t t' : σ} {ls : List ι}
    (h : Run R s ls t) (h' : Run R s ls t') : t = t' := by
  induction h generalizing t' with
  | nil => exact h'.eq_of_nil
  | snoc _ step ih =>
    obtain ⟨u, hrun, hstep⟩ := h'.exists_last
    obtain rfl := ih hrun
    exact hR _ _ _ _ step hstep

/-- Two guards on the run of a deterministic relation are one. -/
theorem guarded_and {G' : σ → ι → Prop} (hR : ∀ s l t t', R s l t → R s l t' → t = t') {s t : σ}
    {ls : List ι} (h : Run (Guarded G R) s ls t) (h' : Run (Guarded G' R) s ls t) :
    Run (Guarded (fun s l => G s l ∧ G' s l) R) s ls t := by
  induction h with
  | nil => exact .nil _
  | snoc run step ih =>
    obtain ⟨u, hrun, hstep⟩ := h'.exists_last
    have hsame := (run.mono fun _ _ _ h => h.2).unique hR (hrun.mono fun _ _ _ h => h.2)
    subst hsame
    exact .snoc (ih hrun) ⟨⟨step.1, hstep.1⟩, step.2⟩

/-- **The simulation rule**: where each step of a system is matched by a run of another one, so is each of
its runs. -/
theorem exists_simulating {τ : Type*} {κ : Type*} {Q : τ → κ → τ → Prop} {S : σ → τ → Prop}
    (hstep : ∀ s l s' t, S s t → R s l s' → ∃ ms t', Run Q t ms t' ∧ S s' t') {s s' : σ} {t : τ}
    {ls : List ι} (h : Run R s ls s') (ht : S s t) : ∃ ms t', Run Q t ms t' ∧ S s' t' := by
  induction h with
  | nil => exact ⟨[], t, .nil t, ht⟩
  | snoc _ step ih =>
    obtain ⟨ms, u, hrun, hu⟩ := ih
    obtain ⟨ms', u', hrun', hu'⟩ := hstep _ _ _ u hu step
    exact ⟨ms ++ ms', u', hrun.append hrun', hu'⟩

/-- **The draining rule**: where an invariant gives a step that lowers a measure, some run of such steps
brings the measure down to zero. -/
theorem exists_drained {I : σ → Prop} {L : ι → Prop} (μ : σ → ℕ)
    (hstep : ∀ s, I s → μ s ≠ 0 → ∃ l t, L l ∧ R s l t ∧ I t ∧ μ t < μ s) {s : σ} (hs : I s) :
    ∃ ls t, (∀ l ∈ ls, L l) ∧ Run R s ls t ∧ I t ∧ μ t = 0 := by
  induction hn : μ s using Nat.strongRecOn generalizing s with
  | ind n ih =>
    by_cases hzero : μ s = 0
    · exact ⟨[], s, by simp, .nil s, hs, hzero⟩
    · obtain ⟨l, t, hl, step, ht, hlt⟩ := hstep s hs hzero
      obtain ⟨ls, u, hls, run, hu, hdone⟩ := ih (μ t) (hn ▸ hlt) ht rfl
      exact ⟨l :: ls, u, List.forall_mem_cons.mpr ⟨hl, hls⟩, .cons step run, hu, hdone⟩

/-- A run of guarded steps is a run. -/
theorem of_guarded {s t : σ} {ls : List ι} (h : Run (Guarded G R) s ls t) : Run R s ls t :=
  h.mono fun _ _ _ hs => hs.2

end Run

end Transition
