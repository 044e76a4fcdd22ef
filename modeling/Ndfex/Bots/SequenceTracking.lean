import Ndfex.Bots.WireClient

/-!
# Sequence numbers of a lossless feed

What the live client makes of datagrams whose messages follow each other without a gap. Two things have
it miss messages that it received: a message about an order or a symbol that it does not know ends the
datagram, and the number after the greatest one of 32 bits is none that follows it.

## Main definitions

* `Bots.MDClient.GoesThrough`: no message but the last of a datagram ends it
* `feedDatagrams`: the datagrams of a feed
* `Bots.LiveClient.InStep`: the client took all messages of a feed

## Main results

* `Bots.LiveClient.lastMdSeqNum_iff`: when a datagram is taken to its end
* `Bots.WireClient.process_advances_iff`: the same, byte by byte
* `Bots.LiveClient.inStep_iff`: when a feed is taken to its end
-/

namespace Ndfex

open Wire

namespace Bots

/-- No message but the last is about an order or a symbol that the client does not know when its turn
comes. -/
def MDClient.GoesThrough (c : MDClient) : List MdBody → Prop
  | [] => True
  | body :: bodies => (bodies ≠ [] → c.stops body = false) ∧ (c.apply body).GoesThrough bodies

namespace LiveClient

variable {c : LiveClient} {bodies : List MdBody}

/-! ### One datagram -/

/-- The message that follows is taken, unless its number is 0. -/
theorem processMessage_cons (c : LiveClient) (body : MdBody) (ms : List MdMessage) :
    c.processMessage (⟨UInt32.ofNat (c.lastMdSeqNum.toNat + 1), body⟩ :: ms) =
      if c.lastMdSeqNum.toNat + 1 < 2 ^ 32 then
        if c.client.stops body then ⟨c.client.apply body, UInt32.ofNat (c.lastMdSeqNum.toNat + 1)⟩
        else processMessage ⟨c.client.apply body, UInt32.ofNat (c.lastMdSeqNum.toNat + 1)⟩ ms
      else c.processMessage ms := by
  have hlt := c.lastMdSeqNum.toNat_lt
  have hone : (1 : UInt32).toNat = 1 := rfl
  have hgap : ¬ c.lastMdSeqNum + 1 < UInt32.ofNat (c.lastMdSeqNum.toNat + 1) := by
    rw [UInt32.lt_iff_toNat_lt, UInt32.toNat_add, UInt32.toNat_ofNat', hone]
    omega
  have hold : UInt32.ofNat (c.lastMdSeqNum.toNat + 1) ≤ c.lastMdSeqNum ↔
      ¬ c.lastMdSeqNum.toNat + 1 < 2 ^ 32 := by
    rw [UInt32.le_iff_toNat_le, UInt32.toNat_ofNat']
    omega
  rw [processMessage, if_neg hgap]
  by_cases hnext : c.lastMdSeqNum.toNat + 1 < 2 ^ 32
  · rw [if_neg (fun h => hold.mp h hnext), if_pos hnext]
  · rw [if_pos (hold.mpr hnext), if_neg hnext]

/-- After the greatest number, no message is taken. -/
theorem processMessage_of_last (h : c.lastMdSeqNum.toNat = 2 ^ 32 - 1) (ms : List MdMessage) :
    c.processMessage ms = c := by
  induction ms with
  | nil => rfl
  | cons m ms ih =>
    have hlt := m.seqNum.toNat_lt
    have hold : m.seqNum ≤ c.lastMdSeqNum := by
      rw [UInt32.le_iff_toNat_le]
      omega
    rw [processMessage]
    split_ifs
    · rfl
    · exact ih

/-- **A datagram that goes through** is taken to its end. -/
theorem processMessage_of_goesThrough (hlt : c.lastMdSeqNum.toNat + bodies.length < 2 ^ 32)
    (h : c.client.GoesThrough bodies) :
    c.processMessage (numberedFrom (c.lastMdSeqNum.toNat + 1) bodies) =
      ⟨bodies.foldl MDClient.apply c.client,
        UInt32.ofNat (c.lastMdSeqNum.toNat + bodies.length)⟩ := by
  induction bodies generalizing c with
  | nil => simp [numberedFrom, processMessage]
  | cons body bodies ih =>
    rw [List.length_cons] at hlt ⊢
    have hnumber : (UInt32.ofNat (c.lastMdSeqNum.toNat + 1)).toNat = c.lastMdSeqNum.toNat + 1 := by
      rw [UInt32.toNat_ofNat']
      omega
    rw [numberedFrom, processMessage_cons, if_pos (by omega)]
    -- the last message may end the datagram, the others may not
    cases bodies with
    | nil =>
      rw [numberedFrom, processMessage, ite_self]
      rfl
    | cons next bodies =>
      rw [h.1 (List.cons_ne_nil _ _), if_neg Bool.false_ne_true]
      have hrest := @ih ⟨c.client.apply body, UInt32.ofNat (c.lastMdSeqNum.toNat + 1)⟩
        (by rw [hnumber]; omega) h.2
      rw [hnumber] at hrest
      rw [hrest, Nat.add_assoc, Nat.add_comm 1]
      rfl

/-- **When a datagram is taken to its end**: if its numbers do not pass the greatest one, and no message
but the last ends it. -/
theorem lastMdSeqNum_iff (hbodies : bodies.length < 2 ^ 32) :
    (c.processMessage (numberedFrom (c.lastMdSeqNum.toNat + 1) bodies)).lastMdSeqNum =
        c.lastMdSeqNum + UInt32.ofNat bodies.length ↔
      c.lastMdSeqNum.toNat + bodies.length < 2 ^ 32 ∧ c.client.GoesThrough bodies := by
  have hsum : ∀ (s : UInt32) (k : ℕ), s + UInt32.ofNat k = UInt32.ofNat (s.toNat + k) := by
    intro s k
    rw [UInt32.ofNat_add, UInt32.ofNat_toNat]
  constructor
  · intro h
    -- the client that goes on is the one that took the first message
    induction bodies generalizing c with
    | nil => exact ⟨by simpa using c.lastMdSeqNum.toNat_lt, trivial⟩
    | cons body bodies ih =>
      rw [List.length_cons] at hbodies h ⊢
      rw [numberedFrom, processMessage_cons] at h
      by_cases hnext : c.lastMdSeqNum.toNat + 1 < 2 ^ 32
      · have hnumber : (UInt32.ofNat (c.lastMdSeqNum.toNat + 1)).toNat =
            c.lastMdSeqNum.toNat + 1 := by
          rw [UInt32.toNat_ofNat']
          omega
        rw [if_pos hnext] at h
        by_cases hstops : c.client.stops body = true
        · -- the loop ends here, so nothing may be left
          rw [if_pos hstops, hsum, ← UInt32.toNat_inj, hnumber, UInt32.toNat_ofNat'] at h
          have hnil : bodies = [] := List.eq_nil_of_length_eq_zero (by omega)
          subst hnil
          exact ⟨hnext, fun hcons => absurd rfl hcons, trivial⟩
        · rw [if_neg hstops] at h
          have hrest := @ih ⟨c.client.apply body, UInt32.ofNat (c.lastMdSeqNum.toNat + 1)⟩
            (by omega)
          rw [hnumber, hsum, hnumber] at hrest
          rw [hsum, Nat.add_comm bodies.length, ← Nat.add_assoc] at h
          obtain ⟨hlt, hthrough⟩ := hrest h
          exact ⟨by omega, fun _ => Bool.eq_false_iff.mpr hstops, hthrough⟩
      · -- the next number is past the greatest one
        have hlt := c.lastMdSeqNum.toNat_lt
        rw [if_neg hnext, processMessage_of_last (by omega), hsum, ← UInt32.toNat_inj,
          UInt32.toNat_ofNat'] at h
        omega
  · rintro ⟨hlt, hthrough⟩
    rw [processMessage_of_goesThrough hlt hthrough, hsum]

/-! ### A feed -/

end LiveClient

end Bots

/-- The datagrams of a feed, the messages of one numbered behind those of the one before. -/
def feedDatagrams (k : ℕ) : List (List MdBody) → List (List MdMessage)
  | [] => []
  | bodies :: rest => numberedFrom k bodies :: feedDatagrams (k + bodies.length) rest

namespace Bots

/-- No message ends the datagram that it is in, other than as its last. -/
def MDClient.EachGoesThrough (c : MDClient) : List (List MdBody) → Prop
  | [] => True
  | bodies :: rest => c.GoesThrough bodies ∧ (bodies.foldl apply c).EachGoesThrough rest

namespace LiveClient

/-- The client took all of some messages, each once. -/
structure InStep (c c' : LiveClient) (bodies : List MdBody) : Prop where
  client : c'.client = bodies.foldl MDClient.apply c.client
  number : c'.lastMdSeqNum = c.lastMdSeqNum + UInt32.ofNat bodies.length

variable {c c₁ c' : LiveClient} {bodies : List MdBody}

/-- What comes behind some messages that were taken. -/
theorem InStep.append_iff (h : c.InStep c₁ bodies) (more : List MdBody) :
    c.InStep c' (bodies ++ more) ↔ c₁.InStep c' more := by
  have hclient : (bodies ++ more).foldl MDClient.apply c.client =
      more.foldl MDClient.apply c₁.client := by
    rw [List.foldl_append, h.client]
  have hnumber : c.lastMdSeqNum + UInt32.ofNat (bodies ++ more).length =
      c₁.lastMdSeqNum + UInt32.ofNat more.length := by
    rw [List.length_append, UInt32.ofNat_add, h.number, UInt32.add_assoc]
  exact ⟨fun h' => ⟨h'.client.trans hclient, h'.number.trans hnumber⟩,
    fun h' => ⟨h'.client.trans hclient.symm, h'.number.trans hnumber.symm⟩⟩

/-- **When a feed is taken to its end**: after each of its datagrams the client took all messages until
then, each once. -/
theorem inStep_iff (c : LiveClient) {ds : List (List MdBody)}
    (hds : ∀ bodies ∈ ds, bodies.length < 2 ^ 32) :
    (∀ n ≤ ds.length, c.InStep
        (((feedDatagrams (c.lastMdSeqNum.toNat + 1) ds).take n).foldl processMessage c)
        (ds.take n).flatten) ↔
      c.lastMdSeqNum.toNat + ds.flatten.length < 2 ^ 32 ∧ c.client.EachGoesThrough ds := by
  induction ds generalizing c with
  | nil =>
    refine ⟨fun _ => ⟨c.lastMdSeqNum.toNat_lt, trivial⟩, fun _ n _ => ?_⟩
    rw [feedDatagrams, List.take_nil, List.take_nil]
    exact ⟨rfl, (UInt32.add_zero _).symm⟩
  | cons bodies rest ih =>
    obtain ⟨hbodies, hrest⟩ := List.forall_mem_cons.mp hds
    have hfirst := @lastMdSeqNum_iff c bodies hbodies
    rw [List.flatten_cons, List.length_append, ← Nat.add_assoc, MDClient.EachGoesThrough,
      feedDatagrams]
    generalize hc₁ : c.processMessage (numberedFrom (c.lastMdSeqNum.toNat + 1) bodies) = c₁ at hfirst
    -- both sides say that the first datagram is taken to its end
    by_cases hgoes : c.lastMdSeqNum.toNat + bodies.length < 2 ^ 32 ∧ c.client.GoesThrough bodies
    · obtain ⟨hlt, hthrough⟩ := hgoes
      have hstep : c.InStep c₁ bodies := by
        rw [← hc₁, processMessage_of_goesThrough hlt hthrough]
        exact ⟨rfl, by rw [UInt32.ofNat_add, UInt32.ofNat_toNat]⟩
      have hnumber : c₁.lastMdSeqNum.toNat = c.lastMdSeqNum.toNat + bodies.length := by
        rw [hstep.number, ← UInt32.ofNat_toNat (x := c.lastMdSeqNum), ← UInt32.ofNat_add,
          UInt32.toNat_ofNat', UInt32.ofNat_toNat, Nat.mod_eq_of_lt hlt]
      have hih := ih c₁ hrest
      rw [hnumber, hstep.client] at hih
      rw [and_iff_right hthrough, ← hih, Nat.add_right_comm]
      constructor
      · intro h n hn
        have hnext := h (n + 1) (Nat.succ_le_succ hn)
        rw [List.take_succ_cons, List.take_succ_cons, List.flatten_cons, List.foldl_cons, hc₁,
          hstep.append_iff] at hnext
        exact hnext
      · intro h n hn
        cases n with
        | zero => exact ⟨rfl, (UInt32.add_zero _).symm⟩
        | succ n =>
          rw [List.take_succ_cons, List.take_succ_cons, List.flatten_cons, List.foldl_cons, hc₁,
            hstep.append_iff]
          exact h n (Nat.le_of_succ_le_succ hn)
    · constructor
      · intro h
        have hone := h 1 (Nat.succ_le_succ (Nat.zero_le _))
        rw [List.take_succ_cons, List.take_succ_cons, List.take_zero, List.take_zero,
          List.flatten_cons, List.flatten_nil, List.append_nil, List.foldl_cons, List.foldl_nil,
          hc₁] at hone
        exact absurd (hfirst.mp hone.number) hgoes
      · rintro ⟨hlt, hthrough, -⟩
        exact absurd ⟨Nat.lt_of_le_of_lt (Nat.le_add_right _ _) hlt, hthrough⟩ hgoes

end LiveClient

namespace WireClient

/-- **A lossless feed**: `process_message` takes a datagram of the next messages to its end exactly when
their numbers do not pass the greatest one, and no message but the last is about an order or a symbol that
the client does not know. -/
theorem process_advances_iff {c : WireClient} {bodies : List MdBody} {datagram : List UInt8}
    {fuel : ℕ} (hdatagram : MdMessage.Encodes
      (numberedFrom (c.live.lastMdSeqNum.toNat + 1) bodies) datagram)
    (hsize : datagram.length ≤ bufSize) (hfuel : bodies.length < fuel) :
    ∃ c', c.process fuel datagram = some c' ∧
      (c'.live.lastMdSeqNum = c.live.lastMdSeqNum + UInt32.ofNat bodies.length ↔
        c.live.lastMdSeqNum.toNat + bodies.length < 2 ^ 32 ∧ c.live.client.GoesThrough bodies) := by
  have hlength := length_numberedFrom (c.live.lastMdSeqNum.toNat + 1) bodies
  obtain ⟨c', hprocess, hlive⟩ := process_encodes hdatagram hsize (by rwa [hlength]) c
  have hbodies : bodies.length < 2 ^ 32 := by
    have hbytes := hdatagram.length
    -- a message has at least its header
    have hle := List.length_le_sum_of_one_le
      ((numberedFrom (c.live.lastMdSeqNum.toNat + 1) bodies).map fun m => m.body.length) fun n hn => by
        obtain ⟨m, -, rfl⟩ := List.mem_map.mp hn
        exact Nat.le_trans (by decide) m.body.length_ge
    rw [List.length_map, hlength, ← hbytes] at hle
    have hbuf : bufSize = 4096 := rfl
    omega
  refine ⟨c', hprocess, ?_⟩
  rw [hlive]
  exact LiveClient.lastMdSeqNum_iff hbodies

/-- A trade summary, and a heartbeat behind it. -/
def summaryThenHeartbeat : List MdBody := [.tradeSummary 1 Side.buy 10 100, .heartbeat]

/-- The bytes of messages in a datagram. -/
def datagramOf (k : ℕ) (bodies : List MdBody) : List UInt8 :=
  (numberedFrom k bodies).flatMap fun m => m.encode 0

/-- The summary is of a symbol that the client knows. -/
theorem process_advances_known :
    ∃ c', (WireClient.mk (fun _ => 0) ⟨MDClient.replay [.newOrder 7 1 Side.sell 10 100 0], 4⟩).process
        3 (datagramOf 5 summaryThenHeartbeat) = some c' ∧
      (c'.live.lastMdSeqNum = 4 + UInt32.ofNat 2 ↔ (4 : UInt32).toNat + 2 < 2 ^ 32 ∧
        (MDClient.replay [.newOrder 7 1 Side.sell 10 100 0]).GoesThrough summaryThenHeartbeat) :=
  process_advances_iff
    (c := WireClient.mk (fun _ => 0) ⟨MDClient.replay [.newOrder 7 1 Side.sell 10 100 0], 4⟩)
    (Wire.Encodes.flatMap _ 0) (by decide +kernel) (by decide)

/-- **A trade summary** of a symbol that the client does not know costs it the heartbeat behind it. -/
theorem process_summaryThenHeartbeat :
    ¬ ∃ c', (start fun _ => 0).process 3 (datagramOf 1 summaryThenHeartbeat) = some c' ∧
      c'.live.lastMdSeqNum = 0 + UInt32.ofNat 2 := by
  rintro ⟨c', hprocess, hnumber⟩
  have hlast : ((start fun _ => 0).process 3 (datagramOf 1 summaryThenHeartbeat)).map
      (fun c' => c'.live.lastMdSeqNum) = some 1 := by
    decide +kernel
  rw [hprocess, Option.map_some, hnumber] at hlast
  exact absurd hlast (by decide)

end WireClient

end Bots

end Ndfex
