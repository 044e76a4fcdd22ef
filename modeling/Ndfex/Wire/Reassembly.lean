import Mathlib.Data.List.Flatten
import Mathlib.Data.List.Infix
import Mathlib.Logic.Function.Iterate

/-!
# Messages in a stream

A stream delivers the codes of messages one behind the other, and cuts them as it likes. A loop keeps what
it has received in a buffer and takes messages off its beginning until the next one is not complete. Then
it has acted on the messages that arrived completely, each once and in order, and its buffer holds the part
of the next one that did.

## Main definitions

* `Wire.BufferLoop`: a loop, its buffer and what it does with a message
* `Wire.BufferLoop.Lawful`: it acts on a complete message, and ends at a part of one
* `Wire.BufferLoop.PartOf`: some bytes are part of the first of some messages
* `Wire.BufferLoop.Framed`: what a loop made of the bytes it received

## Main results

* `Wire.BufferLoop.Lawful.framed`: one run of the loop over a buffer
-/

namespace Wire

universe u v w x

variable {ω : Type u} {α : Type v} {μ : Type w} {β : Type x}

/-- A loop over the messages in a buffer: one round of it, what is in the buffer, whether it goes on or has
ended as it should, and what it has made of the messages so far; what a message makes of that, and the code
of a message. -/
structure BufferLoop (ω : Type u) (α : Type v) (μ : Type w) (β : Type x) where
  step : ω → ω
  buffer : ω → List β
  running : ω → Prop
  ended : ω → Prop
  view : ω → α
  act : α → μ → α
  encode : μ → List β

namespace BufferLoop

variable (L : BufferLoop ω α μ β)

/-- The bytes are part of the first of the messages, and not all of it. -/
def PartOf (bs : List β) (rest : List μ) : Prop :=
  bs = [] ∨ ∃ m ∈ rest.head?, bs <+: L.encode m ∧ bs.length < (L.encode m).length

/-- A round acts on a complete message and goes on behind it; at a part of a message, or at the end, the
loop ends. -/
structure Lawful (ok : μ → Prop) : Prop where
  takes : ∀ w m more, ok m → L.running w → L.buffer w = L.encode m ++ more →
    L.running (L.step w) ∧ L.buffer (L.step w) = more ∧ L.view (L.step w) = L.act (L.view w) m
  waits : ∀ w rest, (∀ m ∈ rest, ok m) → L.running w → L.PartOf (L.buffer w) rest →
    L.ended (L.step w) ∧ L.buffer (L.step w) = L.buffer w ∧ L.view (L.step w) = L.view w

/-- What a loop made of the bytes it received: it acted on the messages that are done, and has part of the
first of the others. -/
structure Framed (sent : List μ) (received : List β) (a₀ a : α) (buf : List β)
    (done rest : List μ) : Prop where
  sent : sent = done ++ rest
  acted : a = done.foldl L.act a₀
  received : received = done.flatMap L.encode ++ buf
  buffered : L.PartOf buf rest

variable {L} {ok : μ → Prop} {w : ω} {bs : List β} {rest : List μ}

/-- What is left of the codes of some messages is part of the first, or begins with it. -/
theorem partOf_or_prefix (h : bs <+: rest.flatMap L.encode) :
    L.PartOf bs rest ∨ ∃ m rest' more, rest = m :: rest' ∧ bs = L.encode m ++ more ∧
      more <+: rest'.flatMap L.encode := by
  cases rest with
  | nil => exact .inl (.inl (List.prefix_nil.mp h))
  | cons m rest =>
    rw [List.flatMap_cons] at h
    by_cases hless : bs.length < (L.encode m).length
    · refine .inl (.inr ⟨m, rfl, ?_, hless⟩)
      exact List.prefix_of_prefix_length_le h (List.prefix_append _ _) (Nat.le_of_lt hless)
    · obtain ⟨more, rfl⟩ :=
        List.prefix_of_prefix_length_le (List.prefix_append _ _) h (Nat.not_lt.mp hless)
      exact .inr ⟨m, rest, more, rfl, rfl, (List.prefix_append_right_inj _).mp h⟩

/-- **One run of the loop** acts on the complete messages, and keeps the part of the next one. -/
theorem Lawful.framed (hL : L.Lawful ok) (hok : ∀ m ∈ rest, ok m) (hrunning : L.running w)
    (hbuffer : L.buffer w <+: rest.flatMap L.encode) :
    ∃ n done rest', L.ended (L.step^[n] w) ∧
      L.Framed rest (L.buffer w) (L.view w) (L.view (L.step^[n] w)) (L.buffer (L.step^[n] w))
        done rest' := by
  -- each round acts on the first message that is on its way
  induction rest generalizing w with
  | nil =>
    obtain ⟨hends, hsame, hview⟩ := hL.waits w [] hok hrunning (.inl (List.prefix_nil.mp hbuffer))
    refine ⟨1, [], [], hends, rfl, hview, hsame.symm, ?_⟩
    rw [Function.iterate_one, hsame]
    exact .inl (List.prefix_nil.mp hbuffer)
  | cons m rest ih =>
    rcases partOf_or_prefix hbuffer with hpart | ⟨m', rest', more, hcons, hmore, hprefix⟩
    · -- the next message is not complete yet
      obtain ⟨hends, hsame, hview⟩ := hL.waits w _ hok hrunning hpart
      refine ⟨1, [], m :: rest, hends, rfl, hview, hsame.symm, ?_⟩
      rw [Function.iterate_one, hsame]
      exact hpart
    · -- it is, and the loop goes on behind it
      obtain ⟨rfl, rfl⟩ := List.cons.inj hcons
      obtain ⟨hm, hrest⟩ := List.forall_mem_cons.mp hok
      obtain ⟨hgoes, hleft, hacted⟩ := hL.takes w m more hm hrunning hmore
      rw [← hleft] at hprefix
      obtain ⟨n, done, rest', hends, hframed⟩ := ih hrest hgoes hprefix
      refine ⟨n + 1, m :: done, rest', ?_⟩
      rw [Function.iterate_succ_apply]
      refine ⟨hends, ?_, ?_, ?_, hframed.buffered⟩
      · rw [hframed.sent, List.cons_append]
      · rw [hframed.acted, hacted, List.foldl_cons]
      · rw [hmore, ← hleft, hframed.received, List.flatMap_cons, List.append_assoc]

end BufferLoop

end Wire
