import Ndfex.Bots.RoundReading
import Ndfex.MarketData.SnapshotWire
import Ndfex.MarketData.Tracking

/-!
# Recovery, byte by byte

`MDClient::wait_for_snapshot` on what `recvfrom` gives it. A snapshot datagram lies at the beginning of
the receive buffer, and the inner loop goes through it by the lengths in the headers.

## Main definitions

* `Bots.SnapshotWalk`, `Bots.SnapshotWalk.body`: where the inner loop stands, and its body
* `Bots.WireRecovery`, `Bots.WireRecovery.receive`: what is kept, and a pass through the outer loop
* `Bots.RoundTrips`: what the client has of a round, after every message

## Main results

* `Bots.SnapshotWalk.rounds_encodes`: the bytes of a datagram are read as its messages
* `Bots.snapshot_roundtrip`: a round is collected as it was written
-/

namespace Ndfex

open Wire

/-- The snapshot message of a type, as the struct at an address says. -/
def SnapshotMessage.read (buf : ℕ → UInt8) (address : ℕ) (t : MdMsgType) : Option SnapshotMessage :=
  ofFields t (unpack buf (address + mdHeaderSize) t.layout)

namespace Bots

/-- Where the inner loop stands: `buf_offset`, `snapshot_len`, and what is collected. -/
structure SnapshotWalk where
  offset : ℕ
  left : ℤ
  collected : Recovery

namespace SnapshotWalk

/-- To the next message, as far as the header says. -/
def skip (v : SnapshotWalk) (length : UInt16) : SnapshotWalk :=
  { v with offset := v.offset + length.toNat, left := v.left - length.toNat }

/-- The body of the inner loop. -/
def body (buf : ℕ → UInt8) (first : UInt32) (v : SnapshotWalk) : Except String SnapshotWalk :=
  if v.left < mdHeaderSize then .error "Snapshot message too short"
  else
    let header := MdHeader.read buf v.offset
    if header.magicNumber ≠ snapshotMagicNumber then .error "Invalid magic number"
    else
      match (MdMsgType.ofByte header.msgType).bind (SnapshotMessage.read buf v.offset) with
      | some (.info symbol bidCount askCount lastMdSeqNum) =>
        -- the rest of the datagram is skipped, too
        if lastMdSeqNum ≤ first then .ok { v with left := 0 }
        else
          let collected := v.collected.info symbol bidCount askCount lastMdSeqNum
          .ok ({ v with collected }.skip header.length)
      | some (.newOrder o) =>
        .ok ({ v with collected := v.collected.newOrder o }.skip header.length)
      | none => .ok (v.skip header.length)

/-- The inner loop, for some rounds. -/
def rounds (buf : ℕ → UInt8) (first : UInt32) : ℕ → SnapshotWalk → Except String SnapshotWalk
  | 0, v => .ok v
  | j + 1, v => if v.left ≤ 0 then .ok v else (body buf first v).bind (rounds buf first j)

variable {buf : ℕ → UInt8} {first : UInt32}

/-- At the end of the datagram, nothing happens any more. -/
theorem rounds_of_left {v : SnapshotWalk} (hv : v.left ≤ 0) (j : ℕ) :
    rounds buf first j v = .ok v := by
  cases j with
  | zero => rfl
  | succ j => rw [rounds, if_pos hv]

/-- **One round** takes a message. -/
theorem body_encode (first : UInt32) {v : SnapshotWalk} {m : SnapshotMessage} {timestamp : UInt64}
    (hstarts : Starts buf v.offset (m.encode timestamp)) (hleft : m.length ≤ v.left) :
    body buf first v =
      match m with
      | .info symbol bidCount askCount lastMdSeqNum =>
        if lastMdSeqNum ≤ first then .ok { v with left := 0 }
        else
          .ok ⟨v.offset + m.length, v.left - m.length,
            v.collected.info symbol bidCount askCount lastMdSeqNum⟩
      | .newOrder o => .ok ⟨v.offset + m.length, v.left - m.length, v.collected.newOrder o⟩ := by
  obtain ⟨hheader, hfields⟩ := SnapshotMessage.read_encode hstarts
  have hlength := m.length_header timestamp
  have hmagic : (m.header timestamp).magicNumber = snapshotMagicNumber := rfl
  have htype : MdMsgType.ofByte (m.header timestamp).msgType = some m.msgType :=
    MdMsgType.ofByte_byte m.msgType
  have hread : SnapshotMessage.read buf v.offset m.msgType = some m := hfields
  have hroom : ¬ v.left < mdHeaderSize := by
    have hheaderSize : mdHeaderSize ≤ m.length := by
      cases m <;> simp [SnapshotMessage.length, mdHeaderSize]
    omega
  unfold body
  simp only [hroom, hheader, hmagic, htype, Option.bind_some, hread, ne_eq, not_true_eq_false,
    if_false, skip, hlength]
  cases m <;> rfl

/-- **The bytes of a datagram** are read as its messages. -/
theorem rounds_encodes (first : UInt32) {ms : List SnapshotMessage} {bs : List UInt8}
    (h : SnapshotMessage.Encodes ms bs) {v : SnapshotWalk} (hstarts : Starts buf v.offset bs)
    (hleft : v.left = bs.length) (j : ℕ) :
    ∃ v', rounds buf first j v = .ok v' ∧
      v'.collected = v.collected.readFrom first (ms.take j) ∧ (ms.length ≤ j → v'.left ≤ 0) := by
  induction h generalizing v j with
  | nil =>
    have hzero : v.left ≤ 0 := Int.le_of_eq hleft
    exact ⟨v, rounds_of_left hzero j, by rw [List.take_nil]; rfl, fun _ => hzero⟩
  | @cons ms bs m timestamp rest ih =>
    cases j with
    | zero => exact ⟨v, rfl, rfl, fun hle => absurd hle (Nat.not_succ_le_zero _)⟩
    | succ j =>
      rw [starts_append, SnapshotMessage.length_encode] at hstarts
      rw [List.length_append, SnapshotMessage.length_encode, Int.natCast_add] at hleft
      have hpos := m.length_pos
      have hbody := body_encode first hstarts.1 (by omega)
      have hnext : ∀ collected, ∃ v', rounds buf first j
          ⟨v.offset + m.length, v.left - m.length, collected⟩ = .ok v' ∧
            v'.collected = collected.readFrom first (ms.take j) ∧
              (ms.length ≤ j → v'.left ≤ 0) := fun collected =>
        @ih ⟨v.offset + m.length, v.left - m.length, collected⟩ hstarts.2
          (by dsimp only; omega) j
      rw [rounds, if_neg (by omega), List.take_succ_cons, List.length_cons]
      simp only [Nat.succ_le_succ_iff]
      cases m with
      | info symbol bidCount askCount n =>
        dsimp only at hbody
        rw [hbody]
        unfold Recovery.readFrom
        -- a snapshot that is skipped ends the loop over the datagram
        split_ifs with hn
        · exact ⟨_, rounds_of_left (Int.le_refl 0) j, rfl, fun _ => Int.le_refl 0⟩
        · exact hnext _
      | newOrder o =>
        dsimp only at hbody
        rw [hbody]
        exact hnext _

end SnapshotWalk

/-- What `wait_for_snapshot` keeps, the receive buffer with it. The live messages are bytes; what is
collected of the snapshots is as in `Recovery`. -/
structure WireRecovery where
  buf : ℕ → UInt8
  liveBuffer : List UInt8
  collected : Recovery

namespace WireRecovery

/-- Before the loop. -/
def start (buf : ℕ → UInt8) : WireRecovery := ⟨buf, [], Recovery.start⟩

/-- `sizeof(buf)`. -/
def bufSize : ℕ := 4096

/-- `MDClient::get_first_live_seq_num`. -/
def getFirstLiveSeqNum (liveBuffer : List UInt8) : UInt32 :=
  if liveBuffer = [] then 0xFFFFFFFF
  else (MdHeader.read (overwrite (fun _ => 0) liveBuffer) 0).seqNum

/-- A pass through the loop, with as many rounds for the snapshot datagram as there is fuel; and whether
these were enough. -/
def receive (fuel : ℕ) (w : WireRecovery) (live : List UInt8) (snapshot : Option (List UInt8)) :
    Except String (WireRecovery × Bool) :=
  let liveBuffer := w.liveBuffer ++ live.take bufSize
  let buf := overwrite w.buf (live.take bufSize)
  match snapshot with
  | none => .ok (⟨buf, liveBuffer, w.collected⟩, true)
  | some datagram =>
    let buf := overwrite buf (datagram.take bufSize)
    let walk : SnapshotWalk := ⟨0, (datagram.take bufSize).length, w.collected⟩
    match walk.rounds buf (getFirstLiveSeqNum liveBuffer) fuel with
    | .error e => .error e
    | .ok v => .ok (⟨buf, liveBuffer, v.collected⟩, v.left ≤ 0)

/-- Some passes. -/
def receiveAll (fuel : ℕ) :
    WireRecovery → List (List UInt8 × Option (List UInt8)) → Except String (Option WireRecovery)
  | w, [] => .ok (some w)
  | w, (live, snapshot) :: passes =>
    match w.receive fuel live snapshot with
    | .error e => .error e
    | .ok (w, true) => receiveAll fuel w passes
    | .ok (_, false) => .ok none

/-! ### The live datagrams -/

variable {first : UInt32} {bs bs' live : List UInt8} {w w' : WireRecovery}

/-- The bytes begin with a live message of this number. -/
def StartsWith (first : UInt32) (bs : List UInt8) : Prop :=
  ∃ (m : MdMessage) (timestamp : UInt64) (more : List UInt8),
    m.seqNum = first ∧ bs = m.encode timestamp ++ more

theorem StartsWith.append (h : StartsWith first bs) : StartsWith first (bs ++ bs') := by
  obtain ⟨m, timestamp, more, hm, rfl⟩ := h
  exact ⟨m, timestamp, more ++ bs', hm, List.append_assoc ..⟩

/-- A message is shorter than the receive buffer. -/
theorem StartsWith.take (h : StartsWith first bs) : StartsWith first (bs.take bufSize) := by
  obtain ⟨m, timestamp, more, hm, rfl⟩ := h
  have hlength : (m.encode timestamp).length ≤ bufSize := by
    rw [MdMessage.length_encode]
    exact Nat.le_trans m.body.length_le (by decide)
  refine ⟨m, timestamp, more.take (bufSize - (m.encode timestamp).length), hm, ?_⟩
  rw [List.take_append, List.take_of_length_le hlength]

theorem StartsWith.getFirstLiveSeqNum (h : StartsWith first bs) :
    getFirstLiveSeqNum bs = first := by
  obtain ⟨m, timestamp, more, rfl, rfl⟩ := h
  have hpos : m.encode timestamp ++ more ≠ [] := by
    intro hnil
    have hlength := congrArg List.length hnil
    rw [List.length_append, MdMessage.length_encode, List.length_nil] at hlength
    have := MarketDataPublisher.length_pos m.body
    omega
  have hstarts := (starts_append.mp (starts_overwrite (fun _ => 0)
    (m.encode timestamp ++ more))).1
  rw [WireRecovery.getFirstLiveSeqNum, if_neg hpos, (MdMessage.read_encode hstarts).1]
  rfl

/-- The live messages begin with this number, after a next live datagram at the latest. -/
def Hears (first : UInt32) (w : WireRecovery) (live : List UInt8) : Prop :=
  StartsWith first w.liveBuffer ∨ w.liveBuffer = [] ∧ StartsWith first live

theorem Hears.append (h : w.Hears first live) :
    StartsWith first (w.liveBuffer ++ live.take bufSize) := by
  rcases h with h | ⟨hnil, h⟩
  · exact h.append
  · rw [hnil, List.nil_append]
    exact h.take

/-! ### The passes -/

/-- A pass takes the first messages of its snapshot datagram. -/
theorem receive_encodes (hlive : w.Hears first live) {packet : Option (List SnapshotMessage)}
    {snapshot : Option (List UInt8)} (hpacket : Option.Rel SnapshotMessage.Encodes packet snapshot)
    (hsize : ∀ datagram ∈ snapshot, datagram.length ≤ bufSize) (fuel : ℕ) :
    ∃ w' finished, w.receive fuel live snapshot = .ok (w', finished) ∧
      w'.collected = w.collected.readFrom first ((packet.getD []).take fuel) ∧
      ((packet.getD []).length ≤ fuel → finished = true) ∧
      StartsWith first w'.liveBuffer := by
  have hstarts := hlive.append
  cases hpacket with
  | none =>
    refine ⟨⟨_, w.liveBuffer ++ live.take bufSize, w.collected⟩, true, rfl, ?_, fun _ => rfl, hstarts⟩
    rw [Option.getD_none, List.take_nil]
    rfl
  | @some ms datagram hencodes =>
    have htake : datagram.take bufSize = datagram := List.take_of_length_le (hsize datagram rfl)
    let buf := overwrite (overwrite w.buf (live.take bufSize)) datagram
    obtain ⟨v, hv, hcollected, hleft⟩ := SnapshotWalk.rounds_encodes first hencodes
      (v := ⟨0, datagram.length, w.collected⟩) (starts_overwrite (overwrite w.buf
        (live.take bufSize)) datagram) rfl fuel
    refine ⟨⟨buf, w.liveBuffer ++ live.take bufSize, v.collected⟩, v.left ≤ 0, ?_, hcollected, ?_,
      hstarts⟩
    · simp only [receive, htake, hstarts.getFirstLiveSeqNum]
      rw [hv]
    · exact fun hle => decide_eq_true (hleft hle)

/-- The messages of a datagram are as many as its headers at most. -/
theorem length_le_of_sum (ms : List SnapshotMessage) :
    mdHeaderSize * ms.length ≤ (ms.map SnapshotMessage.length).sum := by
  induction ms with
  | nil => exact Nat.le_refl _
  | cons m ms ih =>
    have hm : mdHeaderSize ≤ m.length := by
      cases m <;> simp [SnapshotMessage.length, mdHeaderSize]
    rw [List.length_cons, List.map_cons, List.sum_cons, Nat.mul_succ]
    omega

/-- The datagram of a pass, if it has one, is the first of the datagrams. -/
theorem forall₂_filterMap_cons {R : List SnapshotMessage → List UInt8 → Prop}
    {packets : List (List SnapshotMessage)} {pass : List UInt8 × Option (List UInt8)}
    {passes : List (List UInt8 × Option (List UInt8))}
    (h : List.Forall₂ R packets ((pass :: passes).filterMap Prod.snd)) :
    ∃ (packet : Option (List SnapshotMessage)) (packets' : List (List SnapshotMessage)),
      packets = packet.toList ++ packets' ∧ Option.Rel R packet pass.2 ∧
        List.Forall₂ R packets' (passes.filterMap Prod.snd) := by
  obtain ⟨live, snapshot⟩ := pass
  cases snapshot with
  | none => exact ⟨none, packets, rfl, .none, h⟩
  | some datagram =>
    have hcons : ((live, some datagram) :: passes).filterMap Prod.snd =
        datagram :: passes.filterMap Prod.snd := rfl
    rw [hcons] at h
    cases h with
    | @cons packet _ packets' _ hpacket hpackets' =>
      exact ⟨some packet, packets', rfl, .some hpacket, hpackets'⟩

/-- The passes take their snapshot datagrams one after the other. -/
theorem receiveAll_encodes {passes : List (List UInt8 × Option (List UInt8))}
    {packets : List (List SnapshotMessage)} {fuel : ℕ} (hfuel : 64 ≤ fuel)
    (hpackets : List.Forall₂ SnapshotMessage.Encodes packets (passes.filterMap Prod.snd))
    (hsize : ∀ datagram ∈ passes.filterMap Prod.snd,
      datagram.length ≤ SnapshotWriter.bufferCapacity)
    (hlive : w.Hears first ((passes.map Prod.fst).headD live)) :
    ∃ w', w.receiveAll fuel passes = .ok (some w') ∧
      w'.collected = packets.foldl (Recovery.readFrom first) w.collected ∧
      w'.Hears first live := by
  induction passes generalizing w packets with
  | nil =>
    cases hpackets
    exact ⟨w, rfl, rfl, hlive⟩
  | cons pass passes ih =>
    obtain ⟨live', snapshot⟩ := pass
    have hlive' : w.Hears first live' := hlive
    obtain ⟨packet, packets', rfl, hpacket, hpackets'⟩ := forall₂_filterMap_cons hpackets
    have hsize' : ∀ datagram ∈ snapshot, datagram.length ≤ SnapshotWriter.bufferCapacity :=
      fun datagram h => hsize datagram (List.mem_filterMap.mpr ⟨_, List.mem_cons_self, h⟩)
    have hlater : ∀ datagram ∈ passes.filterMap Prod.snd,
        datagram.length ≤ SnapshotWriter.bufferCapacity := by
      intro datagram h
      obtain ⟨p, hp, h⟩ := List.mem_filterMap.mp h
      exact hsize datagram (List.mem_filterMap.mpr ⟨p, List.mem_cons_of_mem _ hp, h⟩)
    obtain ⟨w₁, finished, hw₁, hcollected, hfinished, hstarts⟩ := receive_encodes hlive' hpacket
      (fun d hd => Nat.le_trans (hsize' d hd) (by decide)) fuel
    -- a datagram has fewer messages than the loop has passes
    have hcount : (packet.getD []).length ≤ fuel := by
      cases hpacket with
      | none => exact Nat.zero_le _
      | @some ms datagram hencodes =>
        have hsum := length_le_of_sum ms
        have hle := hsize' datagram rfl
        rw [SnapshotMessage.Encodes.length hencodes] at hle
        simp only [mdHeaderSize, SnapshotWriter.bufferCapacity] at hsum hle
        rw [Option.getD_some]
        omega
    obtain ⟨w₂, hw₂, hcollected', hlast⟩ := @ih w₁ packets' hpackets' hlater (Or.inl hstarts)
    refine ⟨w₂, ?_, ?_, hlast⟩
    · rw [receiveAll, hw₁, hfinished hcount]
      exact hw₂
    · rw [hcollected', hcollected, List.take_of_length_le hcount, List.foldl_append]
      cases packet <;> rfl

end WireRecovery

/-! ### A round -/

/-- **A round is collected as it was written**: the datagrams hold whole messages, and after some of them
and some messages of the next, the client has of every snapshot what `ReadsRound` says. -/
def RoundTrips (clock : ℕ → UInt64) (buf : ℕ → UInt8) (xs : List Snapshot)
    (passes : List (List UInt8 × Option (List UInt8))) (live : List UInt8) (k : ℕ) : Prop :=
  let sent := (SnapshotSender.empty.writeRound clock xs).datagrams
  ∃ packets, List.Forall₂ SnapshotMessage.Encodes packets sent ∧
    packets.flatten = xs.flatMap Snapshot.messages ∧ (∀ packet ∈ packets, packet ≠ []) ∧
    (∀ datagram ∈ sent, datagram.length ≤ 1460) ∧
    (passes.filterMap Prod.snd = sent.take k → ∀ fuel ≥ 64,
      ∃ w, (WireRecovery.start buf).receiveAll fuel passes = .ok (some w) ∧
        ∀ j, ∃ w' finished, w.receive j live sent[k]? = .ok (w', finished) ∧
          ReadsRound xs ((packets.take k).flatten ++ ((packets[k]?).getD []).take j) w'.collected ∧
          (sent.length ≤ k → ∀ x ∈ xs, w'.collected.snapshotComplete x.symbol = true ∧
            w'.collected.snapshotBuffer x.symbol = x.bids ++ x.asks))

/-- Some of the packets and a part of the next, at the beginning of all. -/
theorem take_flatten_isPrefix {α : Type} (packets : List (List α)) (k j : ℕ) :
    (packets.take k).flatten ++ ((packets[k]?).getD []).take j <+: packets.flatten := by
  have hsplit : packets.flatten =
      (packets.take k).flatten ++ ((packets[k]?).getD [] ++ (packets.drop (k + 1)).flatten) := by
    conv_lhs => rw [← List.take_append_drop k packets, List.flatten_append]
    cases hk : packets[k]? with
    | none =>
      have hle := List.getElem?_eq_none_iff.mp hk
      rw [List.drop_eq_nil_of_le hle, List.drop_eq_nil_of_le (Nat.le_succ_of_le hle)]
      rfl
    | some packet =>
      obtain ⟨hlt, rfl⟩ := List.getElem?_eq_some_iff.mp hk
      rw [List.drop_eq_getElem_cons hlt, List.flatten_cons]
      rfl
  rw [hsplit, List.prefix_append_right_inj]
  exact (List.take_prefix j _).trans (List.prefix_append _ _)

theorem foldl_readFrom {first : UInt32} {packets : List (List SnapshotMessage)}
    (h : ∀ symbol bidCount askCount n,
      .info symbol bidCount askCount n ∈ packets.flatten → first < n) (r : Recovery) :
    packets.foldl (Recovery.readFrom first) r = packets.flatten.foldl Recovery.decode r := by
  induction packets generalizing r with
  | nil => rfl
  | cons packet packets ih =>
    have hpacket := Recovery.readFrom_eq_foldl (fun symbol bidCount askCount n hm =>
      h symbol bidCount askCount n (List.mem_append_left _ hm)) r
    rw [List.foldl_cons, List.flatten_cons, List.foldl_append, hpacket]
    exact ih (fun symbol bidCount askCount n hm =>
      h symbol bidCount askCount n (List.mem_append_right _ hm)) _

section Round

variable {clock : ℕ → UInt64} {xs : List Snapshot} {packets : List (List SnapshotMessage)}
  {first : UInt32}

/-- The snapshots of a round that is past the first live message. -/
structure Fresh (first : UInt32) (xs : List Snapshot) : Prop where
  nodup : (xs.map Snapshot.symbol).Nodup
  sorted : ∀ x ∈ xs, x.Sorted
  counted : ∀ x ∈ xs, x.Counted
  past : ∀ x ∈ xs, first < x.lastMdSeqNum

theorem Fresh.info (h : Fresh first xs) {symbol bidCount askCount n : UInt32}
    (hm : .info symbol bidCount askCount n ∈ xs.flatMap Snapshot.messages) : first < n := by
  obtain ⟨x, hx, hm⟩ := List.mem_flatMap.mp hm
  rcases List.mem_cons.mp hm with heq | hm
  · rw [(SnapshotMessage.info.inj heq).2.2.2]
    exact h.past x hx
  · obtain ⟨o, -, ho⟩ := List.mem_map.mp hm
    exact SnapshotMessage.noConfusion ho

/-- The client after some of the packets and a part of the next. -/
theorem Fresh.readFrom (h : Fresh first xs)
    (hflatten : packets.flatten = xs.flatMap Snapshot.messages) (k j : ℕ) :
    ((packets.take k).foldl (Recovery.readFrom first) Recovery.start).readFrom first
        (((packets[k]?).getD []).take j) =
      ((packets.take k).flatten ++ ((packets[k]?).getD []).take j).foldl Recovery.decode
        Recovery.start := by
  have hsubset := (take_flatten_isPrefix packets k j).subset
  rw [hflatten] at hsubset
  rw [List.foldl_append,
    foldl_readFrom fun _ _ _ _ hm => h.info (hsubset (List.mem_append_left _ hm)),
    Recovery.readFrom_eq_foldl fun _ _ _ _ hm => h.info (hsubset (List.mem_append_right _ hm))]

theorem Fresh.readsRound (h : Fresh first xs)
    (hflatten : packets.flatten = xs.flatMap Snapshot.messages) (k j : ℕ) :
    ReadsRound xs ((packets.take k).flatten ++ ((packets[k]?).getD []).take j)
      (((packets.take k).foldl (Recovery.readFrom first) Recovery.start).readFrom first
        (((packets[k]?).getD []).take j)) := by
  rw [h.readFrom hflatten]
  exact Recovery.readsRound h.nodup h.sorted h.counted
    (hflatten ▸ take_flatten_isPrefix packets k j) fun _ _ => rfl

/-- After all datagrams, every snapshot is there. -/
theorem Fresh.readsAll (h : Fresh first xs)
    (hflatten : packets.flatten = xs.flatMap Snapshot.messages) {k : ℕ} (hk : packets.length ≤ k)
    {j : ℕ} {r : Recovery}
    (hr : ReadsRound xs ((packets.take k).flatten ++ ((packets[k]?).getD []).take j) r)
    {x : Snapshot} (hx : x ∈ xs) :
    r.snapshotComplete x.symbol = true ∧ r.snapshotBuffer x.symbol = x.bids ++ x.asks := by
  have hfilter : ((packets.take k).flatten ++ ((packets[k]?).getD []).take j).filter
      (·.symbol = x.symbol) = x.messages := by
    rw [List.take_of_length_le hk, List.getElem?_eq_none hk, Option.getD_none, List.take_nil,
      List.append_nil, hflatten]
    exact Recovery.filter_flatMap_messages h.nodup h.sorted hx
  exact ⟨(hr.complete x hx).mpr hfilter, hr.buffer x hx hfilter⟩

theorem Fresh.roundTrips (h : Fresh first xs) (hsent : ∃ packets,
      List.Forall₂ SnapshotMessage.Encodes packets
        (SnapshotSender.empty.writeRound clock xs).datagrams ∧
      packets.flatten = xs.flatMap Snapshot.messages ∧ (∀ packet ∈ packets, packet ≠ []) ∧
      ∀ datagram ∈ (SnapshotSender.empty.writeRound clock xs).datagrams,
        datagram.length ≤ SnapshotWriter.bufferCapacity)
    (buf : ℕ → UInt8) {passes : List (List UInt8 × Option (List UInt8))} {live : List UInt8}
    (hlive : WireRecovery.StartsWith first ((passes.map Prod.fst).headD live)) (k : ℕ) :
    RoundTrips clock buf xs passes live k := by
  obtain ⟨packets, hencodes, hflatten, hne, hsize⟩ := hsent
  refine ⟨packets, hencodes, hflatten, hne, hsize, fun hpasses fuel hfuel => ?_⟩
  obtain ⟨w, hw, hcollected, hnext⟩ := @WireRecovery.receiveAll_encodes first live
    (WireRecovery.start buf) passes (packets.take k) fuel hfuel
    (hpasses ▸ List.forall₂_take k hencodes)
    (fun d hd => hsize d (List.mem_of_mem_take (hpasses ▸ hd))) (Or.inr ⟨rfl, hlive⟩)
  refine ⟨w, hw, fun j => ?_⟩
  obtain ⟨w', finished, hw', hcollected', -, -⟩ := WireRecovery.receive_encodes hnext
    (rel_getElem? hencodes k)
    (fun d hd => Nat.le_trans (hsize d (List.mem_of_getElem? hd)) (by decide)) j
  have hround := h.readsRound hflatten k j
  rw [hcollected] at hcollected'
  have hstart : (WireRecovery.start buf).collected = Recovery.start := rfl
  rw [hstart] at hcollected'
  rw [← hcollected'] at hround
  exact ⟨w', finished, hw', hround, fun hk x hx =>
    h.readsAll hflatten (hencodes.length_eq ▸ hk) hround hx⟩

end Round

/-- The snapshots of a round have the number of the writer, and its orders. -/
theorem mem_snapshots {w : SnapshotWriter} {c : RoundChoices} {x : Snapshot}
    (hx : x ∈ w.snapshots c) : x.symbol ∈ w.symbols ∧ x.lastMdSeqNum = w.lastMdSeqNum ∧
      x.bids.Perm (w.bids x.symbol) ∧ x.asks.Perm (w.asks x.symbol) := by
  obtain ⟨symbol, hsymbol, rfl⟩ := List.mem_map.mp hx
  exact ⟨(c.traverse_perm _).mem_iff.mp hsymbol, rfl, c.sortBids_perm _, c.sortAsks_perm _⟩

/-- **Snapshots round trip**: fewer than `2 ^ 32` bids and asks of each symbol, under their side and their
symbol, with a number past the first live message. -/
theorem snapshot_roundtrip (clock : ℕ → UInt64) (buf : ℕ → UInt8) {w : SnapshotWriter}
    (c : RoundChoices) (hsymbols : w.symbols.Nodup) (hsided : w.Sided)
    (howned : ∀ symbol, ∀ o ∈ w.orders symbol, o.symbol = symbol)
    (hbids : ∀ symbol ∈ w.symbols, (w.bids symbol).length < 2 ^ 32)
    (hasks : ∀ symbol ∈ w.symbols, (w.asks symbol).length < 2 ^ 32)
    {passes : List (List UInt8 × Option (List UInt8))} {live : List UInt8} {first : UInt32}
    (hlive : WireRecovery.StartsWith first ((passes.map Prod.fst).headD live))
    (hfirst : first < w.lastMdSeqNum) (k : ℕ) :
    RoundTrips clock buf (w.snapshots c) passes live k := by
  refine Fresh.roundTrips ⟨?_, fun x hx => ?_, fun x hx => ?_, fun x hx => ?_⟩
    (SnapshotSender.exists_packets clock w c) buf hlive k
  · have hmap : (w.snapshots c).map Snapshot.symbol = c.traverse w.symbols := by
      rw [SnapshotWriter.snapshots, List.map_map]
      exact List.map_id _
    rw [hmap, (c.traverse_perm _).nodup_iff]
    exact hsymbols
  · obtain ⟨-, -, hbid, hask⟩ := mem_snapshots hx
    exact ⟨fun o ho => howned _ o ((hbid.append hask).mem_iff.mp ho),
      fun o ho => hsided.bids _ o (hbid.mem_iff.mp ho),
      fun o ho => hsided.asks _ o (hask.mem_iff.mp ho)⟩
  · obtain ⟨hsymbol, -, hbid, hask⟩ := mem_snapshots hx
    exact ⟨hbid.length_eq ▸ hbids _ hsymbol, hask.length_eq ▸ hasks _ hsymbol⟩
  · rw [(mem_snapshots hx).2.1]
    exact hfirst

theorem mem_only {symbol s : UInt32} {o o' : SnapshotOrder}
    (ho : o ∈ if symbol = s then [o'] else []) : symbol = s ∧ o = o' := by
  split_ifs at ho with hs
  · exact ⟨hs, List.mem_singleton.mp ho⟩
  · exact absurd ho List.not_mem_nil

theorem length_only (symbol s : UInt32) (o : SnapshotOrder) :
    (if symbol = s then [o] else []).length < 2 ^ 32 := by
  split_ifs <;> simp

/-- A round of one bid in symbol 1 and one ask in symbol 2, received behind a heartbeat. -/
theorem snapshot_roundtrip_two :
    let w : SnapshotWriter :=
      { SnapshotWriter.start with
        lastMdSeqNum := 5
        bids := fun symbol => if symbol = 1 then [⟨7, 1, Side.buy, 10, 100, 0⟩] else []
        asks := fun symbol => if symbol = 2 then [⟨8, 2, Side.sell, 20, -100, 0⟩] else [] }
    let xs := w.snapshots RoundChoices.stable
    let live := (⟨3, .heartbeat⟩ : MdMessage).encode 0
    let sent := (SnapshotSender.empty.writeRound (fun _ => 0) xs).datagrams
    RoundTrips (fun _ => 0) (fun _ => 0) xs ((live, none) :: sent.map fun d => (live, some d)) live
      sent.length := by
  intro w xs live sent
  refine snapshot_roundtrip (fun _ => 0) (fun _ => 0) RoundChoices.stable (by decide)
    ⟨fun symbol o ho => ?_, fun symbol o ho => ?_⟩ (fun symbol o ho => ?_)
    (fun symbol _ => length_only symbol 1 _) (fun symbol _ => length_only symbol 2 _)
    (⟨⟨3, .heartbeat⟩, 0, [], rfl, (List.append_nil _).symm⟩ :
      WireRecovery.StartsWith 3 (((live, none) :: sent.map fun d => (live, some d)).map
        Prod.fst |>.headD live)) (by decide) sent.length
  · rw [(mem_only (show o ∈ if symbol = 1 then [_] else [] from ho)).2]
  · rw [(mem_only (show o ∈ if symbol = 2 then [_] else [] from ho)).2]
  · rcases List.mem_append.mp ho with ho | ho
    · obtain ⟨rfl, rfl⟩ := mem_only (show o ∈ if symbol = 1 then [_] else [] from ho)
      rfl
    · obtain ⟨rfl, rfl⟩ := mem_only (show o ∈ if symbol = 2 then [_] else [] from ho)
      rfl

/-! ### Counts past 32 bits -/

/-- A writer with so many bids in symbol 1. -/
def crowded (n : ℕ) : SnapshotWriter :=
  { SnapshotWriter.start with
    lastMdSeqNum := 5
    bids := fun symbol =>
      if symbol = 1 then List.replicate n ⟨7, 1, Side.buy, 10, 100, 0⟩ else [] }

theorem crowded_wellFormed (n : ℕ) : (crowded n).symbols.Nodup ∧ (crowded n).Sided ∧
    ∀ symbol, ∀ o ∈ (crowded n).orders symbol, o.symbol = symbol := by
  have hbid : ∀ symbol, ∀ o ∈ (crowded n).bids symbol,
      symbol = 1 ∧ o = ⟨7, 1, Side.buy, 10, 100, 0⟩ := by
    intro symbol o ho
    have ho' : o ∈ if symbol = 1 then List.replicate n (⟨7, 1, Side.buy, 10, 100, 0⟩ : SnapshotOrder)
        else [] := ho
    split_ifs at ho' with hs
    · exact ⟨hs, List.eq_of_mem_replicate ho'⟩
    · exact absurd ho' List.not_mem_nil
  have hask : ∀ symbol, (crowded n).asks symbol = [] := fun _ => rfl
  have hnodup : ([1, 2] : List UInt32).Nodup := by decide
  refine ⟨hnodup, ⟨fun symbol o ho => ?_, fun symbol o ho => ?_⟩, fun symbol o ho => ?_⟩
  · rw [(hbid symbol o ho).2]
  · rw [hask] at ho
    exact absurd ho List.not_mem_nil
  · rw [SnapshotWriter.orders, hask, List.append_nil] at ho
    rw [(hbid symbol o ho).2, (hbid symbol o ho).1]

/-- If the count is zero in 32 bits, the info completes the symbol. -/
theorem not_roundTrips_crowded {n : ℕ} (hn : n ≠ 0) (hzero : UInt32.ofNat n = 0) :
    ¬ RoundTrips (fun _ => 0) (fun _ => 0) ((crowded n).snapshots RoundChoices.stable) []
      ((⟨3, .heartbeat⟩ : MdMessage).encode 0) 0 := by
  rintro ⟨packets, hencodes, hflatten, hne, hsize, hrun⟩
  let x := ((crowded n).sort RoundChoices.stable).snapshotOf 1
  have hbids : x.bids.length = n := by
    have hperm : x.bids.Perm ((crowded n).bids 1) := RoundChoices.stable.sortBids_perm _
    have hsame : (crowded n).bids 1 = List.replicate n ⟨7, 1, Side.buy, 10, 100, 0⟩ := by
      simp only [crowded, if_true]
    rw [hperm.length_eq, hsame, List.length_replicate]
  have hasks : x.asks = [] := rfl
  have hx : x ∈ (crowded n).snapshots RoundChoices.stable := List.mem_cons_self
  -- the first datagram begins with the info of symbol 1
  obtain ⟨packet, packets, rfl⟩ : ∃ packet rest, packets = packet :: rest := by
    cases packets with
    | nil => exact absurd hflatten (by simp [SnapshotWriter.snapshots, Snapshot.messages,
        crowded, SnapshotWriter.start, RoundChoices.stable])
    | cons packet rest => exact ⟨packet, rest, rfl⟩
  have hpacket : packet.take 1 = [.info 1 0 0 5] := by
    have hfirst : ((packet :: packets).flatten).take 1 = [.info 1 (UInt32.ofNat x.bids.length) 0 5] := by
      rw [hflatten]
      rfl
    rw [hbids, hzero] at hfirst
    cases packet with
    | nil => exact absurd rfl (hne [] List.mem_cons_self)
    | cons m ms => exact hfirst
  obtain ⟨w, hw, hreads⟩ := hrun rfl 64 (Nat.le_refl 64)
  obtain rfl : WireRecovery.start (fun _ => 0) = w := Option.some.inj (Except.ok.inj hw)
  obtain ⟨w', finished, hw', hround, -⟩ := hreads 1
  have hlive : (WireRecovery.start fun _ => 0).Hears 3 ((⟨3, .heartbeat⟩ : MdMessage).encode 0) :=
    Or.inr ⟨rfl, ⟨3, .heartbeat⟩, 0, [], rfl, (List.append_nil _).symm⟩
  obtain ⟨w'', finished', hw'', hcollected, -, -⟩ := WireRecovery.receive_encodes hlive
    (rel_getElem? hencodes 0)
    (fun d hd => Nat.le_trans (hsize d (List.mem_of_getElem? hd)) (by decide)) 1
  obtain rfl : w' = w'' := (Prod.mk.inj (Except.ok.inj (hw'.symm.trans hw''))).1
  have hinfo : w'.collected = Recovery.start.info 1 0 0 5 := by
    rw [hcollected]
    have hget : ((packet :: packets)[0]?).getD [] = packet := rfl
    rw [hget, hpacket]
    rfl
  have hall := (hround.complete x hx).mp (by rw [hinfo]; rfl)
  have hlength := congrArg List.length hall
  have hread : ((packet :: packets).take 0).flatten ++
      (((packet :: packets)[0]?).getD []).take 1 = [.info 1 0 0 5] := hpacket
  rw [hread, x.length_messages, Snapshot.orders, hasks, List.append_nil, hbids] at hlength
  have hle := List.length_filter_le (fun m : SnapshotMessage => decide (m.symbol = x.symbol))
    [.info 1 0 0 5]
  rw [List.length_singleton] at hle
  omega

/-- **With `2 ^ 32` bids**, the client takes a symbol for complete when it read none of them. -/
theorem snapshot_count_wraps : (crowded (2 ^ 32)).symbols.Nodup ∧ (crowded (2 ^ 32)).Sided ∧
    (∀ symbol, ∀ o ∈ (crowded (2 ^ 32)).orders symbol, o.symbol = symbol) ∧
    ¬ RoundTrips (fun _ => 0) (fun _ => 0) ((crowded (2 ^ 32)).snapshots RoundChoices.stable) []
      ((⟨3, .heartbeat⟩ : MdMessage).encode 0) 0 := by
  obtain ⟨hnodup, hsided, howned⟩ := crowded_wellFormed (2 ^ 32)
  have hne : (2 : ℕ) ^ 32 ≠ 0 := by simp
  have hzero : UInt32.ofNat (2 ^ 32) = 0 := by simp
  exact ⟨hnodup, hsided, howned, not_roundTrips_crowded hne hzero⟩

end Bots

end Ndfex
