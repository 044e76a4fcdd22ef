import Mathlib.Data.Nat.Find
import Mathlib.Order.Monotone.Basic
import Mathlib.Tactic.SplitIfs
import Ndfex.Protocol.OrderEntry

/-!
# The send loop

The loop of `ClientHandler::write_msg`: it sends what is left of a message until all of it is sent, an
error occurs, or 10 ms have passed. The kernel decides what each send does, and the clock how long it
took. A send for which the socket has no room is repeated at once, before the clock is asked.

## Main definitions

* `SendResult`: what `send` or `write` returns
* `Sends`: the results of the sends, and the clock
* `SendWalk.round`, `Sends.walk`: an iteration of the loop, and the loop after some iterations

## Main results

* `Sends.result_iff`: the loop goes on exactly as long as nothing ends it
* `Sends.writeMsg_bounded_iff`: when the loop ends with the first iteration after 10 ms
-/

namespace Ndfex

/-- What `send` or `write` returns for some bytes: how many of them it took, `EAGAIN` or `EWOULDBLOCK`,
`ENOTSOCK`, or another error. -/
inductive SendResult (asked : ℕ)
  | sent (n : ℕ) (le : n ≤ asked)
  | again
  | notSock
  | failed

namespace SendResult

variable {asked : ℕ}

/-- The bytes that were taken. -/
def amount : SendResult asked → ℕ
  | sent n _ => n
  | again | notSock | failed => 0

/-- Bytes were taken. -/
def Sent : SendResult asked → Prop
  | sent .. => True
  | again | notSock | failed => False

/-- An error that is not a full socket. -/
def Failed : SendResult asked → Prop
  | notSock | failed => True
  | sent .. | again => False

theorem amount_le (r : SendResult asked) : r.amount ≤ asked := by
  cases r with
  | sent n le => exact le
  | again | notSock | failed => exact Nat.zero_le _

end SendResult

/-- What the loop meets: the results of `send` and of `write` in each iteration, for what is asked of
them, and the time, in nanoseconds, at the start and in each iteration. -/
structure Sends where
  send : ℕ → (asked : ℕ) → SendResult asked
  write : ℕ → (asked : ℕ) → SendResult asked
  start : ℕ
  clock : ℕ → ℕ

/-- Where the loop stands: `bytes_sent`, and what `write_msg` returned. -/
structure SendWalk where
  bytesSent : ℕ
  result : Option ℤ

namespace Sends

/-- The result of an iteration: `write` is tried where `send` finds no socket. -/
def attempt (e : Sends) (i asked : ℕ) : SendResult asked :=
  match e.send i asked with
  | .notSock => e.write i asked
  | r => r

/-- `nanotime() - start > 10000000`, in 64 bits. -/
def TimedOut (e : Sends) (i : ℕ) : Prop :=
  10000000 < UInt64.ofNat (e.clock i) - UInt64.ofNat e.start

instance (e : Sends) : DecidablePred e.TimedOut := fun _ => inferInstanceAs (Decidable (_ < _))

end Sends

namespace SendWalk

/-- The condition of the loop. -/
def test (length : ℕ) (w : SendWalk) : SendWalk :=
  if w.bytesSent < length then w else { w with result := some w.bytesSent }

/-- An iteration of the loop, and the condition for the next one. -/
def body (e : Sends) (length i : ℕ) (w : SendWalk) : SendWalk :=
  match e.attempt i (length - w.bytesSent) with
  -- `continue`: the clock is not asked
  | .again => w
  | .notSock | .failed => { w with result := some (-1) }
  | .sent n _ =>
    let w := { w with bytesSent := w.bytesSent + n }
    if e.TimedOut i then { w with result := some (-1) } else w.test length

/-- An iteration, unless `write_msg` returned. -/
def round (e : Sends) (length i : ℕ) (w : SendWalk) : SendWalk :=
  if w.result = none then w.body e length i else w

end SendWalk

namespace Sends

variable {e : Sends} {length : ℕ}

/-- The loop for a message of a length, after some iterations. -/
def walk (e : Sends) (length : ℕ) : ℕ → SendWalk
  | 0 => SendWalk.test length ⟨0, none⟩
  | n + 1 => (e.walk length n).round e length n

/-- The bytes that some iterations take, if each is asked for what the ones before it left. -/
def taken (e : Sends) (length : ℕ) : ℕ → ℕ
  | 0 => 0
  | i + 1 => e.taken length i + (e.attempt i (length - e.taken length i)).amount

/-- The result of an iteration that is asked for what the ones before it left. -/
def outcome (e : Sends) (length i : ℕ) : SendResult (length - e.taken length i) :=
  e.attempt i (length - e.taken length i)

/-- An iteration ends the loop: by an error, by the clock, or with the message. -/
def Ends (e : Sends) (length i : ℕ) : Prop :=
  (e.outcome length i).Failed ∨ (e.outcome length i).Sent ∧ e.TimedOut i ∨
    length ≤ e.taken length (i + 1)

theorem taken_le (e : Sends) (length i : ℕ) : e.taken length i ≤ length := by
  induction i with
  | zero => exact Nat.zero_le _
  | succ i ih =>
    have hamount := (e.attempt i (length - e.taken length i)).amount_le
    rw [taken]
    omega

theorem taken_mono (e : Sends) (length : ℕ) : Monotone (e.taken length) :=
  monotone_nat_of_le_succ fun _ => Nat.le_add_right _ _

/-- **One iteration** of a loop that goes on. -/
theorem body_taken {i : ℕ} {w : SendWalk} (hw : w = ⟨e.taken length i, none⟩)
    (hless : e.taken length i < length) :
    ¬ e.Ends length i ∧ w.body e length i = ⟨e.taken length (i + 1), none⟩ ∨
      e.Ends length i ∧ ((w.body e length i).result = some (length : ℤ) ∨
        (w.body e length i).result = some (-1)) := by
  subst hw
  have htaken : e.taken length (i + 1) = e.taken length i + (e.outcome length i).amount := rfl
  have hle := e.taken_le length (i + 1)
  cases hr : e.outcome length i with
  | again =>
    -- the time is not looked at
    have hsame : e.taken length (i + 1) = e.taken length i := by
      rw [htaken, hr]
      rfl
    refine .inl ⟨?_, ?_⟩
    · rintro (hfailed | ⟨hsent, -⟩ | hall)
      · rwa [hr] at hfailed
      · rwa [hr] at hsent
      · rw [hsame] at hall
        exact Nat.not_lt.mpr hall hless
    · rw [hsame, SendWalk.body, show e.attempt i _ = _ from hr]
  | notSock | failed =>
    refine .inr ⟨.inl (by rw [hr]; trivial), .inr ?_⟩
    rw [SendWalk.body, show e.attempt i _ = _ from hr]
  | sent n le =>
    have hnext : e.taken length (i + 1) = e.taken length i + n := by
      rw [htaken, hr]
      rfl
    rw [SendWalk.body, show e.attempt i _ = _ from hr]
    dsimp only
    split_ifs with htimed
    · -- timed out, even if this was the last of the message
      exact .inr ⟨.inr (.inl ⟨by rw [hr]; trivial, htimed⟩), .inr rfl⟩
    rw [SendWalk.test, ← hnext]
    dsimp only
    split_ifs with hmore
    · refine .inl ⟨?_, rfl⟩
      rintro (hfailed | ⟨-, htimed'⟩ | hall)
      · rwa [hr] at hfailed
      · exact htimed htimed'
      · exact Nat.not_lt.mpr hall hmore
    · have hall : e.taken length (i + 1) = length := by omega
      exact .inr ⟨.inr (.inr hall.ge), .inl (by rw [hall])⟩

/-- **Some iterations.** Either none of them ends the loop, which then goes on, or one does. -/
theorem walk_cases (hlength : 0 < length) (n : ℕ) :
    (∀ i < n, ¬ e.Ends length i) ∧ e.walk length n = ⟨e.taken length n, none⟩ ∨
      (∃ i < n, e.Ends length i) ∧ ((e.walk length n).result = some (length : ℤ) ∨
        (e.walk length n).result = some (-1)) := by
  induction n with
  | zero =>
    refine .inl ⟨fun i hi => absurd hi (Nat.not_lt_zero i), ?_⟩
    rw [walk, SendWalk.test, if_pos hlength, taken]
  | succ n ih =>
    rcases ih with ⟨hgoes, hwalk⟩ | ⟨⟨i, hi, hends⟩, hresult⟩
    · -- the test behind the previous iteration found something left
      have hless : e.taken length n < length := by
        cases n with
        | zero => exact hlength
        | succ n =>
          refine Nat.lt_of_not_le fun hall => ?_
          exact hgoes n (Nat.lt_succ_self n) (.inr (.inr hall))
      have hround : e.walk length (n + 1) = (e.walk length n).body e length n := by
        rw [walk, SendWalk.round, if_pos (by rw [hwalk])]
      rw [hround]
      rcases body_taken hwalk hless with ⟨hnot, hbody⟩ | ⟨hends, hresult⟩
      · refine .inl ⟨fun i hi => ?_, hbody⟩
        rcases Nat.lt_succ_iff_lt_or_eq.mp hi with hlt | rfl
        · exact hgoes i hlt
        · exact hnot
      · exact .inr ⟨⟨n, Nat.lt_succ_self n, hends⟩, hresult⟩
    · -- a loop that has returned stays as it is
      have hstopped : (e.walk length n).result ≠ none := by
        rcases hresult with h | h <;> rw [h] <;> exact Option.some_ne_none _
      rw [walk, SendWalk.round, if_neg hstopped]
      exact .inr ⟨⟨i, Nat.lt_succ_of_lt hi, hends⟩, hresult⟩

/-- The loop returned, with the length of the message or with -1, once an iteration ended it. -/
theorem result_iff (hlength : 0 < length) (n : ℕ) :
    ((e.walk length n).result = some (length : ℤ) ∨ (e.walk length n).result = some (-1)) ↔
      ∃ i < n, e.Ends length i := by
  rcases walk_cases (e := e) hlength n with ⟨hgoes, hwalk⟩ | ⟨hends, hresult⟩
  · rw [hwalk]
    constructor
    · rintro (h | h) <;> exact absurd h.symm (Option.some_ne_none _)
    · rintro ⟨i, hi, hends⟩
      exact absurd hends (hgoes i hi)
  · exact ⟨fun _ => hends, fun _ => hresult⟩

/-! ### The clock -/

/-- The first iteration after 10 ms. -/
structure FirstLate (e : Sends) (k : ℕ) : Prop where
  late : e.start + 10000000 < e.clock k
  before : ∀ i < k, e.clock i ≤ e.start + 10000000

theorem not_timedOut {i : ℕ} (hstart : e.start ≤ e.clock i)
    (hclock : e.clock i ≤ e.start + 10000000) : ¬ e.TimedOut i := by
  rw [TimedOut, UInt64.lt_iff_toNat_lt, UInt64.toNat_sub, UInt64.toNat_ofNat', UInt64.toNat_ofNat']
  have hlimit : (10000000 : UInt64).toNat = 10000000 := rfl
  rw [hlimit]
  omega

/-- **The send loop.** While the clock goes on, there is a first iteration after 10 ms. By it the loop has
returned the length of the message or -1 exactly when an iteration until then failed, or the message was
sent, or that iteration itself sent something and finds in 64 bits that 10 ms passed: not when it found
no room in the socket. -/
theorem writeMsg_bounded_iff (e : Sends) (body : ResponseBody) (hstart : e.start ≤ e.clock 0)
    (hmono : Monotone e.clock) (hpasses : ∀ t, ∃ i, t < e.clock i) :
    ∃ k, e.FirstLate k ∧
      (((e.walk body.length.toNat (k + 1)).result = some (body.length.toNat : ℤ) ∨
          (e.walk body.length.toNat (k + 1)).result = some (-1)) ↔
        (∃ i ≤ k, (e.outcome body.length.toNat i).Failed) ∨
          e.taken body.length.toNat (k + 1) = body.length.toNat ∨
          (e.outcome body.length.toNat k).Sent ∧ e.TimedOut k) := by
  have hlate := hpasses (e.start + 10000000)
  have hfirst : e.FirstLate (Nat.find hlate) :=
    ⟨Nat.find_spec hlate, fun i hi => Nat.not_lt.mp (Nat.find_min hlate hi)⟩
  refine ⟨_, hfirst, ?_⟩
  generalize Nat.find hlate = k at hfirst
  have hlength : 0 < body.length.toNat := by
    cases body <;> simp [ResponseBody.length, responseHeaderSize]
  generalize body.length.toNat = length at hlength
  rw [result_iff hlength]
  constructor
  · rintro ⟨i, hi, hfailed | ⟨hsent, htimed⟩ | hall⟩
    · exact .inl ⟨i, Nat.lt_succ_iff.mp hi, hfailed⟩
    · -- no iteration before the first late one times out
      rcases Nat.lt_succ_iff_lt_or_eq.mp hi with hlt | rfl
      · have hbefore := hstart.trans (hmono (Nat.zero_le i))
        exact absurd htimed (not_timedOut hbefore (hfirst.before i hlt))
      · exact .inr (.inr ⟨hsent, htimed⟩)
    · exact .inr (.inl (Nat.le_antisymm (e.taken_le length _) (hall.trans (e.taken_mono length hi))))
  · rintro (⟨i, hi, hfailed⟩ | hall | htimed)
    · exact ⟨i, Nat.lt_succ_of_le hi, .inl hfailed⟩
    · exact ⟨k, Nat.lt_succ_self k, .inr (.inr hall.ge)⟩
    · exact ⟨k, Nat.lt_succ_self k, .inr (.inl htimed)⟩

/-- A client that does not read, and a millisecond for each iteration. -/
def fullSocket : Sends :=
  ⟨fun _ _ => .again, fun _ _ => .again, 0, fun i => 1000000 * i⟩

theorem writeMsg_bounded_fullSocket :
    ∃ k, fullSocket.FirstLate k ∧
      (((fullSocket.walk 24 (k + 1)).result = some 24 ∨
          (fullSocket.walk 24 (k + 1)).result = some (-1)) ↔
        (∃ i ≤ k, (fullSocket.outcome 24 i).Failed) ∨ fullSocket.taken 24 (k + 1) = 24 ∨
          (fullSocket.outcome 24 k).Sent ∧ fullSocket.TimedOut k) :=
  writeMsg_bounded_iff fullSocket (.closed 1) (Nat.le_refl 0)
    (fun _ _ h => Nat.mul_le_mul_left _ h)
    (fun t => ⟨t + 1, by rw [show fullSocket.clock (t + 1) = 1000000 * (t + 1) from rfl]; omega⟩)

/-- **A full socket** keeps the loop from ever returning. -/
theorem writeMsg_never_returns :
    ¬ ∃ n, (fullSocket.walk (ResponseBody.closed 1).length.toNat n).result ≠ none := by
  rintro ⟨n, hreturned⟩
  have hlength : 0 < (ResponseBody.closed 1).length.toNat := by decide
  generalize (ResponseBody.closed 1).length.toNat = length at hreturned hlength
  have htaken : ∀ i, fullSocket.taken length i = 0 := by
    intro i
    induction i with
    | zero => rfl
    | succ i ih => exact ih
  rcases walk_cases (e := fullSocket) hlength n with ⟨-, hwalk⟩ | ⟨⟨i, -, hends⟩, -⟩
  · exact hreturned (by rw [hwalk])
  · rcases hends with hfailed | ⟨hsent, -⟩ | hall
    · exact hfailed
    · exact hsent
    · rw [htaken] at hall
      exact Nat.not_lt.mpr hall hlength

end Sends

end Ndfex
