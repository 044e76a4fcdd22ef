import Ndfex.Containers.SlidingWindow
import Ndfex.OrderEntry.Framing

/-!
# The throttle of the stream parser

`parse` remembers when it called the handler for a socket. It forgets what is older than a second, and
closes the socket if it remembers too much, before it looks at any of the bytes that it is given; then it
hands over every complete message that it finds. So the messages of one call count for the calls after it,
and not for each other.

## Main definitions

* `PassesOver`: how many messages the loop takes from the beginning of some bytes
* `StreamParser.Timed`, `StreamParser.Timed.after`: a parser with the times of the handler's calls
* `StreamParser.Paced`: a call that finds no more messages than the second has room for

## Main results

* `StreamParser.exists_dispatched`, `StreamParser.dispatched_of_passesOver`: what a call hands over
* `StreamParser.rate_bounded_iff`: when the handler's calls keep the rate
-/

namespace Ndfex

open Containers Transition

/-- The loop, at the beginning of some bytes, hands a number of messages over and comes to others. -/
inductive PassesOver : ℕ → List UInt8 → List UInt8 → Prop
  | here (bs : List UInt8) : PassesOver 0 bs bs
  | next {k : ℕ} {bs rest : List UInt8} (handed : Handed bs)
      (passes : PassesOver k (bs.drop (frameLength bs)) rest) : PassesOver (k + 1) bs rest

/-- One message more. -/
theorem PassesOver.snoc {k : ℕ} {bs rest : List UInt8} (h : PassesOver k bs rest)
    (handed : Handed rest) : PassesOver (k + 1) bs (rest.drop (frameLength rest)) := by
  induction h with
  | here => exact .next handed (.here _)
  | next first _ ih => exact .next first (ih handed)

namespace StreamParser

/-- A second, in nanoseconds. -/
def second : ℕ := 1000000000

variable {p : StreamParser} {c : Chunk} {fd : Int32}

/-! ### Timestamps -/

theorem timestamps_setTimestamps_ne {sockFd : Int32} (h : fd ≠ sockFd) (times : List UInt64) :
    (p.setTimestamps sockFd times).timestamps fd = p.timestamps fd := by
  rw [timestamps, setTimestamps, AList.lookup_insert_ne h, timestamps]

theorem timestamps_hand (p : StreamParser) (c : Chunk) (t : RequestType) :
    (p.hand c t).timestamps c.sockFd = p.timestamps c.sockFd ++ [c.now] :=
  timestamps_setTimestamps ..

theorem timestamps_hand_ne (h : fd ≠ c.sockFd) (t : RequestType) :
    (p.hand c t).timestamps fd = p.timestamps fd :=
  timestamps_setTimestamps_ne h _

theorem timestamps_enter (p : StreamParser) (c : Chunk) :
    (p.enter c).parser.timestamps c.sockFd = p.recent c := by
  unfold enter
  dsimp only
  split_ifs
  · exact timestamps_setTimestamps ..
  · exact timestamps_setTimestamps ..

theorem timestamps_enter_ne (h : fd ≠ c.sockFd) (p : StreamParser) :
    (p.enter c).parser.timestamps fd = p.timestamps fd := by
  unfold enter
  dsimp only
  split_ifs
  · exact timestamps_setTimestamps_ne h _
  · exact timestamps_setTimestamps_ne h _

/-- A round that hands nothing over adds an error at most. -/
theorem parser_round_of_not_handed {w : ParseWalk} (hb : ¬ Handed (w.parser.buffer c.sockFd)) :
    ∃ errors, (w.round c).parser = { w.parser with errors } := by
  by_cases hrunning : w.status = .running
  · rw [ParseWalk.round, if_pos hrunning, ParseWalk.body]
    dsimp only
    split_ifs with hheader hversion hbounded hcomplete
    · exact ⟨_, rfl⟩
    · exact ⟨_, rfl⟩
    · exact ⟨_, rfl⟩
    · exact ⟨_, rfl⟩
    · split
      · exact ⟨_, rfl⟩
      · rename_i t ht
        refine absurd ⟨Nat.not_lt.mp hheader, not_not.mp hversion, Nat.not_lt.mp hbounded,
          Nat.not_lt.mp hcomplete, ?_⟩ hb
        rw [frameType, ht]
        rfl
  · rw [ParseWalk.round_of_stopped hrunning]
    exact ⟨_, rfl⟩

/-- A round adds timestamps to its own socket only. -/
theorem timestamps_round_ne (h : fd ≠ c.sockFd) (w : ParseWalk) :
    (w.round c).parser.timestamps fd = w.parser.timestamps fd := by
  by_cases hhanded : Handed (w.parser.buffer c.sockFd)
  · by_cases hrunning : w.status = .running
    · obtain ⟨t, -, hround⟩ := ParseWalk.round_of_handed hrunning hhanded
      rw [hround]
      exact timestamps_hand_ne h t
    · rw [ParseWalk.round_of_stopped hrunning]
  · obtain ⟨errors, herrors⟩ := parser_round_of_not_handed hhanded
    rw [herrors]
    rfl

theorem timestamps_walk_ne (h : fd ≠ c.sockFd) (p : StreamParser) (n : ℕ) :
    (p.walk c n).parser.timestamps fd = p.timestamps fd := by
  induction n with
  | zero => exact timestamps_enter_ne h p
  | succ n ih => rw [walk_succ, timestamps_round_ne h, ih]

/-! ### What a call hands over -/

/-- The number of the handler's calls for a socket. -/
def callCount (p : StreamParser) (fd : Int32) : ℕ := (p.callsOn fd).length

/-- How many messages of a socket a call hands over in some rounds. -/
def dispatched (fd : Int32) (p : StreamParser) (c : Chunk) (n : ℕ) : ℕ :=
  (p.parse n c).callCount fd - p.callCount fd

/-- While `parse` runs, each of its rounds has handed a message over and remembered when. -/
theorem passesOver_of_running {n : ℕ} (hrunning : (p.walk c n).status = .running) :
    PassesOver n (p.buffer c.sockFd ++ c.buf) ((p.walk c n).parser.buffer c.sockFd) ∧
      (p.walk c n).parser.callCount c.sockFd = p.callCount c.sockFd + n ∧
      (p.walk c n).parser.timestamps c.sockFd = p.recent c ++ List.replicate n c.now := by
  induction n with
  | zero =>
    have hthrottled := (passes_of_running hrunning).1
    obtain ⟨-, hcalls, -, hbuffer⟩ := enter_of_not_throttled hthrottled
    have hbegin : (p.walk c 0).parser.buffer c.sockFd = p.buffer c.sockFd ++ c.buf := hbuffer
    refine ⟨?_, ?_, ?_⟩
    · rw [hbegin]
      exact .here _
    · show ((p.enter c).parser.calls.filter _).length = _
      rw [hcalls]
      rfl
    · rw [List.replicate_zero, List.append_nil]
      exact timestamps_enter p c
  | succ n ih =>
    obtain ⟨hprev, hhanded, t, -, hround⟩ := handed_of_running hrunning
    obtain ⟨hpasses, hcount, htimes⟩ := ih hprev
    rw [hround]
    refine ⟨?_, ?_, ?_⟩
    · rw [buffer_hand]
      exact hpasses.snoc hhanded
    · rw [callCount, callsOn_hand, List.length_append, ← callCount, hcount]
      rfl
    · rw [timestamps_hand, htimes, List.append_assoc, ← List.replicate_succ']

/-- **A call that is not throttled** hands over some of the messages that it finds, and remembers each. -/
theorem exists_dispatched (hthrottled : ¬ p.Throttled c) (n : ℕ) :
    (∃ rest, PassesOver (dispatched c.sockFd p c n) (p.buffer c.sockFd ++ c.buf) rest) ∧
      (p.parse n c).timestamps c.sockFd =
        p.recent c ++ List.replicate (dispatched c.sockFd p c n) c.now := by
  -- what the walk has done is what it had done when it last ran
  have hlast : ∃ k, (p.walk c k).status = .running ∧
      (p.walk c n).parser.callsOn c.sockFd = (p.walk c k).parser.callsOn c.sockFd ∧
      (p.walk c n).parser.timestamps c.sockFd = (p.walk c k).parser.timestamps c.sockFd := by
    induction n with
    | zero => exact ⟨0, (enter_of_not_throttled hthrottled).1, rfl, rfl⟩
    | succ n ih =>
      by_cases hrunning : (p.walk c (n + 1)).status = .running
      · exact ⟨n + 1, hrunning, rfl, rfl⟩
      obtain ⟨k, hk, hcalls, htimes⟩ := ih
      rw [walk_succ] at hrunning ⊢
      by_cases hhanded : Handed ((p.walk c n).parser.buffer c.sockFd)
      · have hstopped : (p.walk c n).status ≠ .running := by
          intro hprev
          obtain ⟨t, -, hround⟩ := ParseWalk.round_of_handed hprev hhanded
          rw [hround] at hrunning
          exact hrunning rfl
        rw [ParseWalk.round_of_stopped hstopped]
        exact ⟨k, hk, hcalls, htimes⟩
      · obtain ⟨errors, herrors⟩ := parser_round_of_not_handed hhanded
        rw [herrors]
        exact ⟨k, hk, hcalls, htimes⟩
  obtain ⟨k, hk, hcalls, htimes⟩ := hlast
  obtain ⟨hpasses, hcount, hremembered⟩ := passesOver_of_running hk
  have hdispatched : dispatched c.sockFd p c n = k := by
    rw [dispatched, callCount, parse, hcalls, ← callCount, hcount, Nat.add_sub_cancel_left]
  rw [hdispatched, parse, htimes]
  exact ⟨⟨_, hpasses⟩, hremembered⟩

/-- **Every message that it finds** is handed over, if the call goes on for long enough. -/
theorem dispatched_of_passesOver (hthrottled : ¬ p.Throttled c) {k : ℕ} {rest : List UInt8}
    (h : PassesOver k (p.buffer c.sockFd ++ c.buf) rest) : dispatched c.sockFd p c k = k := by
  obtain ⟨hstatus, -, -, hbuffer⟩ := enter_of_not_throttled hthrottled
  have hlater : ∀ {n k : ℕ} {bs rest : List UInt8}, PassesOver k bs rest →
      (p.walk c n).status = .running → (p.walk c n).parser.buffer c.sockFd = bs →
        (p.walk c (n + k)).status = .running := by
    intro n k bs rest hpasses
    induction hpasses generalizing n with
    | here => exact fun hrunning _ => hrunning
    | @next k bs rest handed _ ih =>
      rintro hrunning rfl
      obtain ⟨t, -, hround⟩ := ParseWalk.round_of_handed hrunning handed
      rw [← walk_succ] at hround
      rw [Nat.add_comm k 1, ← Nat.add_assoc]
      refine ih (by rw [hround]) ?_
      rw [hround, buffer_hand]
  have hrunning := hlater (n := 0) h hstatus hbuffer
  rw [Nat.zero_add] at hrunning
  obtain ⟨-, hcount, -⟩ := passesOver_of_running hrunning
  rw [dispatched, parse, hcount, Nat.add_sub_cancel_left]

/-- A throttled call hands nothing over. -/
theorem parse_of_throttled (h : p.Throttled c) (n : ℕ) :
    dispatched c.sockFd p c n = 0 ∧ (p.parse n c).timestamps c.sockFd = p.recent c := by
  have hclosed : (p.walk c 0).status ≠ .running := by
    rw [show (p.walk c 0).status = .closed from enter_of_throttled h]
    decide
  have hlength : maxMsgsPerSecond < (p.recent c).length := h
  rw [dispatched, parse, walk_of_stopped hclosed (Nat.zero_le n)]
  refine ⟨Nat.sub_eq_zero_of_le (Nat.le_of_eq ?_), timestamps_enter p c⟩
  show ((p.enter c).parser.callsOn _).length = _
  rw [enter, if_pos hlength]
  rfl

/-- A call for another socket. -/
theorem parse_of_ne (h : fd ≠ c.sockFd) (p : StreamParser) (n : ℕ) :
    dispatched fd p c n = 0 ∧ (p.parse n c).timestamps fd = p.timestamps fd := by
  refine ⟨?_, timestamps_walk_ne h p n⟩
  rw [dispatched, callCount, parse, (same_walk h p n).callsOn, ← callCount, Nat.sub_self]

/-! ### The times of the calls -/

open SlidingWindow

/-- A parser with the times at which it called the handler for a socket. -/
structure Timed where
  parser : StreamParser
  times : List ℕ

namespace Timed

/-- The parser after some rounds of a call. -/
def after (fd : Int32) (s : Timed) (c : Chunk) (n : ℕ) : Timed :=
  ⟨s.parser.parse n c, s.times ++ List.replicate (dispatched fd s.parser c n) c.now.toNat⟩

/-- A call of `parse` that returns. -/
def Step (fd : Int32) (s : Timed) (c : Chunk) (s' : Timed) : Prop :=
  ∃ n, (s.parser.walk c n).status ≠ .running ∧ s' = s.after fd c n

/-- The timestamps of the socket are the queue of the times. -/
def Kept (fd : Int32) (now : ℕ) (s : Timed) : Prop :=
  Remembers second now s.times ((s.parser.timestamps fd).map UInt64.toNat)

end Timed

/-- The subtraction of the times does not wrap round, so the queue is pruned. -/
theorem map_recent (h : ∀ t ∈ p.timestamps c.sockFd, t.toNat ≤ c.now.toNat) :
    (p.recent c).map UInt64.toNat =
      prune second c.now.toNat ((p.timestamps c.sockFd).map UInt64.toNat) := by
  unfold recent
  generalize p.timestamps c.sockFd = times at h ⊢
  induction times with
  | nil => rfl
  | cons t ts ih =>
    obtain ⟨ht, hts⟩ := List.forall_mem_cons.mp h
    have hsub : (c.now - t).toNat = c.now.toNat - t.toNat :=
      UInt64.toNat_sub_of_le _ _ (UInt64.le_iff_toNat_le.mpr ht)
    have hold : 1000000000 < (c.now - t).toNat ↔ t.toNat + second < c.now.toNat := by
      rw [hsub, second]
      omega
    rw [List.map_cons, prune]
    by_cases hdropped : t.toNat + second < c.now.toNat
    · rw [List.dropWhile_cons_of_pos (by simpa using hold.mpr hdropped),
        List.dropWhile_cons_of_pos (by simpa using hdropped)]
      exact ih hts
    · rw [List.dropWhile_cons_of_neg (by simpa using hold.not.mpr hdropped),
        List.dropWhile_cons_of_neg (by simpa using hdropped), List.map_cons]

namespace Timed

variable {s : Timed}

/-- What the parser remembers of the last second. -/
theorem Kept.map_recent (h : s.Kept c.sockFd c.now.toNat) :
    (s.parser.recent c).map UInt64.toNat =
      prune second c.now.toNat ((s.parser.timestamps c.sockFd).map UInt64.toNat) := by
  refine StreamParser.map_recent fun t ht => ?_
  obtain ⟨dropped, htimes, -⟩ := h.split
  refine h.le_now _ ?_
  rw [htimes]
  exact List.mem_append_right _ (List.mem_map_of_mem ht)

theorem Kept.length_recent (h : s.Kept c.sockFd c.now.toNat) :
    (s.parser.recent c).length = lately second c.now.toNat s.times := by
  rw [← h.length_prune, ← h.map_recent, List.length_map]

/-- **A call keeps the queue**. -/
theorem Kept.after (h : s.Kept c.sockFd c.now.toNat) (n : ℕ) :
    (s.after c.sockFd c n).Kept c.sockFd c.now.toNat := by
  have hpruned := h.prune
  rw [← h.map_recent] at hpruned
  unfold Kept Timed.after
  by_cases hthrottled : s.parser.Throttled c
  · obtain ⟨hnone, htimes⟩ := parse_of_throttled hthrottled n
    rw [hnone, htimes, List.replicate_zero, List.append_nil]
    exact hpruned
  · obtain ⟨-, htimes⟩ := exists_dispatched hthrottled n
    rw [htimes, List.map_append, List.map_replicate]
    exact hpruned.push _

/-- A call for another socket changes neither the times nor the queue. -/
theorem after_of_ne (h : fd ≠ c.sockFd) (s : Timed) (n : ℕ) :
    (s.after fd c n).times = s.times ∧
      (s.after fd c n).parser.timestamps fd = s.parser.timestamps fd := by
  obtain ⟨hnone, htimes⟩ := parse_of_ne h s.parser n
  refine ⟨?_, htimes⟩
  rw [Timed.after, hnone, List.replicate_zero, List.append_nil]

end Timed

/-- **A call finds no more messages** than the second has room for. -/
def Paced (p : StreamParser) (c : Chunk) : Prop :=
  ∀ k rest, PassesOver k (p.buffer c.sockFd ++ c.buf) rest →
    (p.recent c).length + k ≤ maxMsgsPerSecond + 1

/-- **When a call keeps the rate**: when it is throttled, or finds no more than there is room for. -/
theorem Timed.after_atMost_iff {s : Timed} (h : s.Kept c.sockFd c.now.toNat)
    (hrate : AtMost second (maxMsgsPerSecond + 1) s.times) :
    (∀ n, AtMost second (maxMsgsPerSecond + 1) (s.after c.sockFd c n).times) ↔
      (¬ s.parser.Throttled c → s.parser.Paced c) := by
  have hstep : ∀ n, AtMost second (maxMsgsPerSecond + 1) (s.after c.sockFd c n).times ↔
      (dispatched c.sockFd s.parser c n ≠ 0 →
        (s.parser.recent c).length + dispatched c.sockFd s.parser c n ≤ maxMsgsPerSecond + 1) := by
    intro n
    rw [Timed.after, atMost_append_replicate_iff h.le_now, and_iff_right hrate, h.length_recent]
  simp only [hstep]
  constructor
  · intro hall hthrottled k rest hpasses
    by_cases hk : k = 0
    · have hlength : ¬ maxMsgsPerSecond < (s.parser.recent c).length := hthrottled
      omega
    · have hbound := hall k
      rw [dispatched_of_passesOver hthrottled hpasses] at hbound
      exact hbound hk
  · intro hpaced n hsome
    by_cases hthrottled : s.parser.Throttled c
    · exact absurd (parse_of_throttled hthrottled n).1 hsome
    · obtain ⟨⟨rest, hpasses⟩, -⟩ := exists_dispatched hthrottled n
      exact hpaced hthrottled _ rest hpasses

/-! ### Runs -/

/-- The clock does not go back between the calls for a socket. -/
def InOrder (fd : Int32) (cs : List Chunk) : Prop :=
  (cs.filter fun c => c.sockFd = fd).Pairwise fun c c' => c.now.toNat ≤ c'.now.toNat

theorem InOrder.of_append {cs cs' : List Chunk} (h : InOrder fd (cs ++ cs')) : InOrder fd cs := by
  rw [InOrder, List.filter_append] at h
  exact (List.pairwise_append.mp h).1

theorem InOrder.le_last {cs : List Chunk} (h : InOrder fd (cs ++ [c])) (hc : c.sockFd = fd) :
    ∀ c' ∈ cs, c'.sockFd = fd → c'.now.toNat ≤ c.now.toNat := by
  rw [InOrder, List.filter_append] at h
  intro c' hc' hfd
  exact (List.pairwise_append.mp h).2.2 c' (List.mem_filter.mpr ⟨hc', by simpa using hfd⟩) c
    (by simp [hc])

/-- **Every run** keeps the queue. -/
theorem Timed.kept_of_run {cs : List Chunk} {s : Timed} (hnew : p.timestamps fd = [])
    (hrun : Run (Timed.Step fd) ⟨p, []⟩ cs s) (horder : InOrder fd cs) {now : ℕ}
    (hnow : ∀ c ∈ cs, c.sockFd = fd → c.now.toNat ≤ now) : s.Kept fd now := by
  generalize hstart : (⟨p, []⟩ : Timed) = s₀ at hrun
  induction hrun generalizing now with
  | nil =>
    subst hstart
    unfold Timed.Kept
    rw [hnew]
    exact Remembers.nil second now
  | @snoc s s' cs c run step ih =>
    obtain ⟨n, -, rfl⟩ := step
    have hbefore : ∀ {now}, (∀ c ∈ cs, c.sockFd = fd → c.now.toNat ≤ now) → s.Kept fd now :=
      ih horder.of_append
    by_cases hc : c.sockFd = fd
    · subst hc
      have hkept := (hbefore (horder.le_last rfl)).after n
      exact Remembers.mono hkept (hnow c (by simp) rfl)
    · obtain ⟨htimes, hqueue⟩ := after_of_ne (Ne.symm hc) s n
      have hkept := hbefore fun c' hc' => hnow c' (List.mem_append_left _ hc')
      unfold Timed.Kept at hkept ⊢
      rwa [htimes, hqueue]

/-- The times of a run whose calls were all paced. -/
theorem Timed.atMost_of_run {cs : List Chunk} {s : Timed} (hnew : p.timestamps fd = [])
    (hrun : Run (Timed.Step fd) ⟨p, []⟩ cs s) (horder : InOrder fd cs)
    (hpaced : ∀ cs' c s', cs' ++ [c] <+: cs → Run (Timed.Step fd) ⟨p, []⟩ cs' s' → c.sockFd = fd →
      ¬ s'.parser.Throttled c → s'.parser.Paced c) :
    AtMost second (maxMsgsPerSecond + 1) s.times := by
  generalize hstart : (⟨p, []⟩ : Timed) = s₀ at hrun hpaced
  induction hrun with
  | nil =>
    subst hstart
    intro first
    exact Nat.zero_le _
  | @snoc s s' cs c run step ih =>
    subst hstart
    obtain ⟨n, -, rfl⟩ := step
    have hbefore := ih horder.of_append fun cs' c' s' hcs' =>
      hpaced cs' c' s' (hcs'.trans (List.prefix_append _ _))
    by_cases hc : c.sockFd = fd
    · subst hc
      have hkept := Timed.kept_of_run hnew run horder.of_append (horder.le_last rfl)
      exact (Timed.after_atMost_iff hkept hbefore).mpr
        (hpaced cs c s (List.prefix_refl _) run rfl) n
    · rw [(after_of_ne (Ne.symm hc) s n).1]
      exact hbefore

/-- **When the rate is kept**: whatever the chunks, in every window of a second the handler is called for a
socket no more often than one over the maximum, exactly when every call that is not throttled finds no
more messages than the second has room for. -/
theorem rate_bounded_iff {cs : List Chunk} (hnew : p.timestamps fd = []) (horder : InOrder fd cs) :
    (∀ cs' c s n, cs' ++ [c] <+: cs → Run (Timed.Step fd) ⟨p, []⟩ cs' s →
      AtMost second (maxMsgsPerSecond + 1) (s.after fd c n).times) ↔
    ∀ cs' c s, cs' ++ [c] <+: cs → Run (Timed.Step fd) ⟨p, []⟩ cs' s → c.sockFd = fd →
      ¬ s.parser.Throttled c → s.parser.Paced c := by
  have hprefix : ∀ {cs'}, cs' <+: cs → InOrder fd cs' := by
    rintro cs' ⟨more, rfl⟩
    exact horder.of_append
  constructor
  · rintro hall cs' c s hcs hrun rfl hthrottled
    have hcs' := hprefix hcs
    have hkept := Timed.kept_of_run hnew hrun hcs'.of_append (hcs'.le_last rfl)
    -- what was logged before the call is part of what is logged after it
    have hbefore : AtMost second (maxMsgsPerSecond + 1) s.times := by
      have hnext := hall cs' c s 0 hcs hrun
      rw [Timed.after, atMost_append_replicate_iff hkept.le_now] at hnext
      exact hnext.1
    exact (Timed.after_atMost_iff hkept hbefore).mp (fun n => hall cs' c s n hcs hrun) hthrottled
  · intro hpaced cs' c s n hcs hrun
    have hcs' := hprefix hcs
    have hbefore := Timed.atMost_of_run hnew hrun hcs'.of_append fun cs'' c' s' hcs'' =>
      hpaced cs'' c' s' (hcs''.trans ((List.prefix_append _ _).trans hcs))
    by_cases hc : c.sockFd = fd
    · subst hc
      have hkept := Timed.kept_of_run hnew hrun hcs'.of_append (hcs'.le_last rfl)
      exact (Timed.after_atMost_iff hkept hbefore).mpr (hpaced cs' c s hcs hrun rfl) n
    · rw [(Timed.after_of_ne (Ne.symm hc) s n).1]
      exact hbefore

/-- A new order and part of its deletion, and a login on another socket between them. -/
theorem rate_bounded_iff_interleaved :
    (∀ cs' c s n, cs' ++ [c] <+: interleaved → Run (Timed.Step 5) ⟨start, []⟩ cs' s →
      AtMost second (maxMsgsPerSecond + 1) (s.after 5 c n).times) ↔
    ∀ cs' c s, cs' ++ [c] <+: interleaved → Run (Timed.Step 5) ⟨start, []⟩ cs' s → c.sockFd = 5 →
      ¬ s.parser.Throttled c → s.parser.Paced c :=
  rate_bounded_iff rfl (by unfold InOrder; decide)

/-- The bytes of a request, again and again. -/
theorem passesOver_replicate {r : Request} (hr : r.WellFormed) (k : ℕ) :
    PassesOver k ((List.replicate k r).flatMap Request.encode) [] := by
  induction k with
  | zero => exact .here _
  | succ k ih =>
    rw [List.replicate_succ, List.flatMap_cons]
    refine .next (handed_encode hr _) ?_
    rwa [frameLength_encode, ← Request.length_encode hr, List.drop_left]

/-- The deletion of an order, in one chunk for 1002 times. -/
def manyDeletions : Chunk :=
  ⟨5, 0, (List.replicate 1002 (Request.deleteOrder ⟨⟨2, 7, 9⟩, 1⟩)).flatMap Request.encode, fun _ => 0⟩

/-- **One call** hands 1002 messages over. -/
theorem not_atMost_of_inOrder :
    ¬ ∀ (p : StreamParser) fd cs, p.timestamps fd = [] → InOrder fd cs →
      ∀ cs' c s n, cs' ++ [c] <+: cs → Run (Timed.Step fd) ⟨p, []⟩ cs' s →
        AtMost second (maxMsgsPerSecond + 1) (s.after fd c n).times := by
  intro h
  have hrate := h start 5 [manyDeletions] rfl (List.pairwise_singleton _ _) [] manyDeletions
    ⟨start, []⟩ 1002 (List.prefix_refl _) (.nil _)
  have hpasses : PassesOver 1002 (start.buffer manyDeletions.sockFd ++ manyDeletions.buf) [] := by
    rw [show start.buffer manyDeletions.sockFd = [] from rfl, List.nil_append]
    exact passesOver_replicate (by decide) 1002
  have hthrottled : ¬ start.Throttled manyDeletions := by
    intro hlength
    exact absurd hlength (by show ¬ 1000 < 0; decide)
  have hcount : dispatched 5 start manyDeletions 1002 = 1002 :=
    dispatched_of_passesOver hthrottled hpasses
  have hall := hrate 0
  rw [Timed.after, hcount, inWindow, List.nil_append, List.countP_replicate,
    show manyDeletions.now.toNat = 0 from rfl, if_pos (by decide)] at hall
  exact absurd hall (by decide)

end StreamParser

end Ndfex
