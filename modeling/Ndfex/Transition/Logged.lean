import Mathlib.Order.Basic

/-!
# Programs that update a state and record calls

A logged program updates a state, records calls in order and may throw; an exception keeps both
the state and the record. Its specification names the result and the calls exactly and says what
holds of the state it leaves.

## Main definitions

* `Running`, `Logged`: a state with the calls made so far, and the programs over it
* `Logged.current`, `Logged.update`, `Logged.record`: the primitive programs
* `Yields x s r cs Q`: from `s` the program `x` ends with `r`, records `cs` and leaves a state in
  which `Q` holds

## Main results

* `Yields.bind`, `Yields.bind_error`: sequencing, when the first part returns or throws
* `Yields.mono`: weakening what is said of the final state
* `Yields.run`: what a program with a specification computes
-/

namespace Transition

/-- A state, and the calls made so far. -/
structure Running (σ κ : Type) where
  state : σ
  calls : List κ

/-- Programs over a state with a record of calls; an exception undoes nothing. -/
abbrev Logged (ε σ κ : Type) := EStateM ε (Running σ κ)

variable {ε σ κ α β : Type}

namespace Logged

/-- The state as it is now. -/
def current : Logged ε σ κ σ := fun r => .ok r.state r

/-- Updates the state. -/
def update (f : σ → σ) : Logged ε σ κ Unit := fun r => .ok () { r with state := f r.state }

/-- Records a call. -/
def record (c : κ) : Logged ε σ κ Unit := fun r => .ok () { r with calls := r.calls ++ [c] }

end Logged

/-- The end of a program with a result. -/
def finish : Except ε α → Running σ κ → EStateM.Result ε (Running σ κ) α
  | .ok a, r => .ok a r
  | .error e, r => .error e r

/-- **The specification of a program**: from `s` it ends with `r`, records `cs`, and leaves a state
in which `Q` holds. -/
def Yields (x : Logged ε σ κ α) (s : σ) (r : Except ε α) (cs : List κ) (Q : σ → Prop) : Prop :=
  ∃ s', (∀ before, x ⟨s, before⟩ = finish r ⟨s', before ++ cs⟩) ∧ Q s'

namespace Yields

variable {x : Logged ε σ κ α} {f : α → Logged ε σ κ β} {s : σ} {cs cs' : List κ} {P Q : σ → Prop}

theorem mono {r : Except ε α} (h : Yields x s r cs P) (hPQ : ∀ s', P s' → Q s') :
    Yields x s r cs Q := by
  obtain ⟨s', hx, hP⟩ := h
  exact ⟨s', hx, hPQ s' hP⟩

/-- What a program with a specification computes from an empty record. -/
theorem run {r : Except ε α} (h : Yields x s r cs Q) :
    ∃ s', x ⟨s, []⟩ = finish r ⟨s', cs⟩ ∧ Q s' := by
  obtain ⟨s', hx, hQ⟩ := h
  exact ⟨s', hx [], hQ⟩

theorem pure {a : α} (h : Q s) : Yields (Pure.pure a : Logged ε σ κ α) s (.ok a) [] Q :=
  ⟨s, fun before => by rw [List.append_nil]; rfl, h⟩

theorem throw {e : ε} (h : Q s) :
    Yields (MonadExcept.throw e : Logged ε σ κ α) s (.error e) [] Q :=
  ⟨s, fun before => by rw [List.append_nil]; rfl, h⟩

theorem update {g : σ → σ} (h : Q (g s)) :
    Yields (Logged.update g : Logged ε σ κ Unit) s (.ok ()) [] Q :=
  ⟨g s, fun before => by rw [List.append_nil]; rfl, h⟩

theorem record {c : κ} (h : Q s) :
    Yields (Logged.record c : Logged ε σ κ Unit) s (.ok ()) [c] Q :=
  ⟨s, fun _ => rfl, h⟩

/-- **Sequencing**: the second part starts where the first one ends. -/
theorem bind {a : α} {r : Except ε β} (hx : Yields x s (.ok a) cs P)
    (hf : ∀ s', P s' → Yields (f a) s' r cs' Q) : Yields (x >>= f) s r (cs ++ cs') Q := by
  obtain ⟨s', hx, hP⟩ := hx
  obtain ⟨s'', hf, hQ⟩ := hf s' hP
  refine ⟨s'', fun before => ?_, hQ⟩
  have hbind : (x >>= f) ⟨s, before⟩ = f a ⟨s', before ++ cs⟩ := by
    simp only [Bind.bind, EStateM.bind, hx before, finish]
  rw [hbind, hf, List.append_assoc]

/-- An exception in the first part ends the program. -/
theorem bind_error {e : ε} (hx : Yields x s (.error e) cs Q) :
    Yields (x >>= f) s (.error e) cs Q := by
  obtain ⟨s', hx, hQ⟩ := hx
  refine ⟨s', fun before => ?_, hQ⟩
  simp only [Bind.bind, EStateM.bind, hx before, finish]

/-- Dropping the value of a program. -/
theorem discard {a : α} (hx : Yields x s (.ok a) cs Q) :
    Yields (Functor.discard x) s (.ok ()) cs Q := by
  obtain ⟨s', hx, hQ⟩ := hx
  refine ⟨s', fun before => ?_, hQ⟩
  simp only [Functor.discard, Functor.mapConst, EStateM.map, Function.comp_apply, hx before,
    finish]

theorem discard_error {e : ε} (hx : Yields x s (.error e) cs Q) :
    Yields (Functor.discard x) s (.error e) cs Q := by
  obtain ⟨s', hx, hQ⟩ := hx
  refine ⟨s', fun before => ?_, hQ⟩
  simp only [Functor.discard, Functor.mapConst, EStateM.map, Function.comp_apply, hx before,
    finish]

variable {r : Except ε β}

/-- Sequencing after a part that records nothing. -/
theorem bind_nil {a : α} (hx : Yields x s (.ok a) [] P)
    (hf : ∀ s', P s' → Yields (f a) s' r cs Q) : Yields (x >>= f) s r cs Q :=
  hx.bind hf

theorem current_bind {f : σ → Logged ε σ κ β} (hf : Yields (f s) s r cs Q) :
    Yields (Logged.current >>= f) s r cs Q := hf

theorem update_bind {g : σ → σ} {f : Unit → Logged ε σ κ β} (hf : Yields (f ()) (g s) r cs Q) :
    Yields (Logged.update g >>= f) s r cs Q := hf

theorem record_bind {c : κ} {f : Unit → Logged ε σ κ β} (hf : Yields (f ()) s r cs Q) :
    Yields (Logged.record c >>= f) s r (c :: cs) Q :=
  bind (P := (· = s)) (record rfl) fun _ hs => hs ▸ hf

end Yields

end Transition
