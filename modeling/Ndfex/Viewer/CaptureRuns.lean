import Ndfex.Viewer.PcapPrinter

/-!
# Watching a capture

What the viewer prints over a capture, next to the books that a client has who collects the same
snapshots: their orders, followed by all live messages that are numbered higher. The viewer prints the
best prices of these books exactly when every order that a book has from its snapshot stands behind
one that was entered since.

## Main definitions

* `CaptureEvent`, `Watch`, `Watch.take`: the messages of a capture, and the viewer next to a client
* `Watch.reference`: the books that the client has
* `Watch.Clean`: the client's books admit what they take, and the viewer enters no other orders
* `Watch.Overtaken`: the orders of the snapshot stand behind those entered since

## Main results

* `Watch.Tracks.foldl`: what the viewer has applied
* `Watch.hasEntered`: what the viewer has of the client's books
* `bbo_lines_iff`: when the lines printed are right
-/

namespace Ndfex

open Containers Bots

/-- What the loop reads: a message of a live datagram, with the time of the packet, or a snapshot
datagram. -/
inductive CaptureEvent
  | live (tvSec tvUsec : ℕ) (m : MdMessage)
  | snapshot (ms : List SnapshotMessage)
deriving DecidableEq, Repr

/-- The message of a live datagram. -/
def CaptureEvent.liveMessage : CaptureEvent → Option MdMessage
  | .live _ _ m => some m
  | .snapshot _ => none

/-- What `wait_for_snapshot` does with a message that it takes. -/
def Bots.Recovery.collect (r : Recovery) : SnapshotMessage → Recovery
  | .info symbol bidCount askCount lastMdSeqNum => r.info symbol bidCount askCount lastMdSeqNum
  | .newOrder o => r.newOrder o

/-- The loop over the live buffer is one over the messages that are past the number. -/
theorem PcapPrinter.playLive_eq (n : UInt32) (c : MDClient) (ms : List MdMessage) :
    playLive n c ms =
      ((ms.filter fun m => n < m.seqNum).map MdMessage.body).foldl parseAndApplyLiveMessage c := by
  induction ms generalizing c with
  | nil => rfl
  | cons m ms ih =>
    rw [playLive, List.filter_cons]
    by_cases hn : n < m.seqNum
    · rw [if_pos hn, if_pos (decide_eq_true hn), ih]
      rfl
    · rw [if_neg hn, if_neg (by simpa using hn), ih]

/-- The viewer, what a client collects of the messages that the viewer goes through, and the live
messages after the snapshots. -/
structure Watch where
  viewer : PcapPrinter
  recovery : Recovery
  later : List MdMessage

namespace Watch

/-- Before the capture. -/
def start : Watch := ⟨PcapPrinter.start, Recovery.start, []⟩

/-- A live message. -/
def live (w : Watch) (tvSec tvUsec : ℕ) (m : MdMessage) : Watch :=
  let viewer := (w.viewer.live tvSec tvUsec m).1
  if w.viewer.DoneSnapshot then { w with viewer, later := w.later ++ [m] }
  else
    { w with
      viewer
      recovery := { w.recovery with liveBuffer := w.recovery.liveBuffer ++ [m] } }

/-- A snapshot datagram, as far as the viewer goes through it. -/
def snapshot (w : Watch) : List SnapshotMessage → Watch
  | [] => w
  | m :: ms =>
    match w.viewer.snapshotMessage m with
    | none => w
    | some viewer => snapshot { w with viewer, recovery := w.recovery.collect m } ms

/-- The next messages of the capture. -/
def take (w : Watch) : CaptureEvent → Watch
  | .live tvSec tvUsec m => w.live tvSec tvUsec m
  | .snapshot ms => w.snapshot ms

/-- The live messages that are numbered higher than the snapshot begun last. -/
def following (w : Watch) : List MdMessage :=
  (w.recovery.liveBuffer ++ w.later).filter fun m => w.recovery.lastSnapshotSeqNum < m.seqNum

/-- **The books of the client**: the orders of the snapshots, followed by these messages. -/
def reference (w : Watch) : MDClient :=
  (w.following.map MdMessage.body).foldl MDClient.apply w.recovery.install

/-- The ids under which these messages enter orders of a symbol. -/
def entered (w : Watch) (s : UInt32) : List UInt64 :=
  (w.following.map MdMessage.body).filterMap (MdBody.enters s)

/-- No order is entered after the snapshots by a message that they cover, and the books of the client
admit every order and message. -/
structure Clean (w : Watch) : Prop where
  past : ∀ s, s = 1 ∨ s = 2 → ∀ m ∈ w.later, m.body.enters s ≠ none →
    w.recovery.lastSnapshotSeqNum < m.seqNum
  admits : ∀ s, s = 1 ∨ s = 2 → MDClient.empty.AdmitsAll s
    ((w.recovery.snapshotBuffer 1 ++ w.recovery.snapshotBuffer 2).map SnapshotOrder.body ++
      w.following.map MdMessage.body)

/-- If the messages entered an order of the symbol, then **every order** that they did not enter stands
behind one that they did. -/
def Overtaken (w : Watch) (s : UInt32) : Prop :=
  w.entered s ≠ [] → ∀ e o, w.reference.order s e = some o → e ∉ w.entered s →
    ∃ e' ∈ w.entered s, ∃ o', w.reference.order s e' = some o' ∧
      o'.side.bookSide = o.side.bookSide ∧ o.side.bookSide.better o'.price o.price

/-! ### What the viewer has applied -/

variable {w w' : Watch} {es : List CaptureEvent} {s : UInt32}

/-- The viewer and the client wait for the same snapshots. -/
structure Waits (w : Watch) : Prop where
  books : w.viewer.books = MDClient.empty
  liveBuffer : w.viewer.liveBuffer = w.recovery.liveBuffer
  lastSeqNum : w.viewer.lastSeqNum = w.recovery.lastSnapshotSeqNum
  later : w.later = []

/-- The messages that the viewer applied: those of the buffer that are past the snapshots, and all that
came later. -/
def applied (w : Watch) : List MdMessage :=
  (w.recovery.liveBuffer.filter fun m => w.recovery.lastSnapshotSeqNum < m.seqNum) ++ w.later

theorem applied_later (w : Watch) (viewer : PcapPrinter) (m : MdMessage) :
    applied ⟨viewer, w.recovery, w.later ++ [m]⟩ = w.applied ++ [m] :=
  (List.append_assoc ..).symm

/-- What the books of the viewer are. -/
structure Tracks (w : Watch) : Prop where
  waits : ¬ w.viewer.DoneSnapshot → w.Waits
  done : w.viewer.DoneSnapshot → w.viewer.books =
    (w.applied.map MdMessage.body).foldl PcapPrinter.parseAndApplyLiveMessage MDClient.empty

theorem tracks_start : start.Tracks :=
  ⟨fun _ => ⟨rfl, rfl, rfl, rfl⟩, fun h => absurd h.1 Bool.false_ne_true⟩

theorem Tracks.live (h : w.Tracks) (tvSec tvUsec : ℕ) (m : MdMessage) :
    (w.live tvSec tvUsec m).Tracks := by
  unfold Watch.live PcapPrinter.live
  by_cases hdone : w.viewer.DoneSnapshot
  · rw [if_pos hdone, if_pos hdone]
    refine ⟨fun hnot => absurd hdone hnot, fun _ => ?_⟩
    rw [applied_later, List.map_append, List.foldl_append, ← h.done hdone]
    rfl
  · rw [if_neg hdone, if_neg hdone]
    have hwaits := h.waits hdone
    refine ⟨fun _ => ⟨hwaits.books, ?_, hwaits.lastSeqNum, hwaits.later⟩, fun hd => absurd hd hdone⟩
    dsimp only
    rw [hwaits.liveBuffer]

/-- **A message of a snapshot** that the viewer goes through. -/
theorem Tracks.collect (h : w.Tracks) {m : SnapshotMessage} {viewer : PcapPrinter}
    (hm : w.viewer.snapshotMessage m = some viewer) :
    Tracks { w with viewer, recovery := w.recovery.collect m } := by
  cases m with
  | info symbol bidCount askCount n =>
    rw [PcapPrinter.snapshotMessage] at hm
    split_ifs at hm with hdone hother hold
    obtain rfl := Option.some.inj hm
    have hwaits := h.waits hdone
    refine ⟨fun _ => ⟨hwaits.books, ?_, ?_, hwaits.later⟩, fun hd => absurd hd hdone⟩
    · exact hwaits.liveBuffer.trans (Recovery.leaves_info ..).liveBuffer.symm
    · change n = (w.recovery.info symbol bidCount askCount n).lastSnapshotSeqNum
      rw [Recovery.info, (Recovery.complete_same _ _).2.2.2]
  | newOrder o =>
    rw [PcapPrinter.snapshotMessage] at hm
    split_ifs at hm with hdone
    obtain rfl := Option.some.inj hm
    -- the order counts down its side; the live messages that were kept are played after the last one
    have hwaits := h.waits hdone
    have hbuffer : (w.recovery.collect (.newOrder o)).liveBuffer = w.recovery.liveBuffer :=
      (Recovery.leaves_newOrder w.recovery o).liveBuffer
    have hlast : (w.recovery.collect (.newOrder o)).lastSnapshotSeqNum =
        w.recovery.lastSnapshotSeqNum := Recovery.lastSnapshotSeqNum_newOrder w.recovery o
    unfold PcapPrinter.newOrder
    cases w.viewer.snapshotOrderCount.lookup o.symbol with
    | none =>
      refine ⟨fun _ => ⟨hwaits.books, ?_, ?_, hwaits.later⟩, fun hd => absurd hd hdone⟩
      · exact hwaits.liveBuffer.trans hbuffer.symm
      · exact hwaits.lastSeqNum.trans hlast.symm
    | some counts =>
      dsimp only
      generalize counts.1 - (if o.side = Side.buy then 1 else 0) = bids
      generalize counts.2 - (if o.side = Side.sell then 1 else 0) = asks
      split_ifs with hzero hall
      · -- the last snapshot is complete
        refine ⟨fun hnot => absurd hall hnot, fun _ => ?_⟩
        dsimp only [applied]
        rw [PcapPrinter.playLive_eq, hwaits.books, hwaits.liveBuffer, hwaits.lastSeqNum, hbuffer,
          hlast, hwaits.later, List.append_nil]
      · refine ⟨fun _ => ⟨hwaits.books, ?_, ?_, hwaits.later⟩, fun hd => absurd hd hall⟩
        · exact hwaits.liveBuffer.trans hbuffer.symm
        · exact hwaits.lastSeqNum.trans hlast.symm
      · refine ⟨fun _ => ⟨hwaits.books, ?_, ?_, hwaits.later⟩, fun hd => absurd hd hdone⟩
        · exact hwaits.liveBuffer.trans hbuffer.symm
        · exact hwaits.lastSeqNum.trans hlast.symm

theorem Tracks.snapshot (h : w.Tracks) (ms : List SnapshotMessage) : (w.snapshot ms).Tracks := by
  induction ms generalizing w with
  | nil => exact h
  | cons m ms ih =>
    unfold Watch.snapshot
    cases hm : w.viewer.snapshotMessage m with
    | none => exact h
    | some viewer => exact ih (h.collect hm)

/-- **Over a capture**: what the viewer has applied. -/
theorem Tracks.foldl (h : w.Tracks) (es : List CaptureEvent) : (es.foldl take w).Tracks := by
  induction es generalizing w with
  | nil => exact h
  | cons event es ih =>
    cases event with
    | live tvSec tvUsec m => exact ih (h.live tvSec tvUsec m)
    | snapshot ms => exact ih (h.snapshot ms)

/-! ### The books of the client -/

/-- **Messages in order**: those that are past the snapshots come last, and lead the viewer to what they
entered of the book of a symbol. -/
theorem hasEntered_foldl {n : UInt32} {r : MDClient} (hs : s ≠ 0) (hr : (r.book s).Counted)
    {ms : List MdMessage} (hms : ms.Pairwise fun m m' => m.seqNum < m'.seqNum)
    (hpast : ∀ m ∈ ms, m.body.enters s ≠ none → n < m.seqNum)
    (hadmits : r.AdmitsAll s ((ms.filter fun m => n < m.seqNum).map MdMessage.body)) :
    PcapPrinter.HasEntered
      ((ms.map MdMessage.body).foldl PcapPrinter.parseAndApplyLiveMessage MDClient.empty) s
      (((ms.filter fun m => n < m.seqNum).map MdMessage.body).filterMap (MdBody.enters s))
      (((ms.filter fun m => n < m.seqNum).map MdMessage.body).foldl MDClient.apply r) := by
  induction ms using List.reverseRecOn with
  | nil => exact .start s hr
  | append_singleton ms m ih =>
    -- the induction is on the last message, which has the highest number
    obtain ⟨hordered, -, hlast⟩ := List.pairwise_append.mp hms
    have hbefore := fun m' hm' => hpast m' (List.mem_append_left [m] hm')
    rw [List.map_append, List.foldl_append, List.map_singleton, List.foldl_cons, List.foldl_nil]
    rw [List.filter_append] at hadmits ⊢
    by_cases hn : n < m.seqNum
    · -- both take the message
      have hone : [m].filter (fun m => n < m.seqNum) = [m] := by simp [hn]
      rw [hone, List.map_append, List.map_singleton] at hadmits ⊢
      rw [MDClient.admitsAll_append] at hadmits
      rw [List.filterMap_append, List.foldl_append, List.foldl_cons, List.foldl_nil]
      have hnext := (ih hordered hbefore hadmits.1).apply hs hadmits.2.1
      have hids : [m.body].filterMap (MdBody.enters s) = (m.body.enters s).toList := by
        cases henters : m.body.enters s with
        | none => rw [List.filterMap_cons_none henters]; rfl
        | some e => rw [List.filterMap_cons_some henters]; rfl
      rwa [hids]
    · -- nothing that is past the snapshots came before it
      have hnone : ms.filter (fun m => n < m.seqNum) = [] := by
        rw [List.filter_eq_nil_iff]
        intro m' hm' hn'
        have hless : m'.seqNum < m.seqNum := hlast m' hm' m List.mem_cons_self
        exact hn (UInt32.lt_trans (of_decide_eq_true hn') hless)
      have hone : [m].filter (fun m => n < m.seqNum) = [] := by simp [hn]
      rw [hnone] at ih hadmits ⊢
      rw [hone] at hadmits ⊢
      have henters : m.body.enters s = none := by
        by_contra henters
        exact hn (hpast m (List.mem_append_right ms List.mem_cons_self) henters)
      exact (ih hordered hbefore hadmits).skip henters

/-- The books that the snapshots give admit the messages that follow. -/
theorem Clean.admitsAll (h : w.Clean) (hs : s = 1 ∨ s = 2) :
    (w.recovery.install.book s).Counted ∧
      w.recovery.install.AdmitsAll s (w.following.map MdMessage.body) := by
  have hzero : s ≠ 0 := by
    rcases hs with rfl | rfl <;> decide
  have hstart : (MDClient.empty.book s).Counted := OrderBook.Counted.start
  have hall := h.admits s hs
  rw [MDClient.admitsAll_append] at hall
  exact ⟨MDClient.counted_foldl hstart hzero hall.1, hall.2⟩

/-- **What the viewer has** of the books of the client. -/
theorem hasEntered (h : w.Tracks) (hclean : w.Clean)
    (hordered : (w.recovery.liveBuffer ++ w.later).Pairwise fun m m' => m.seqNum < m'.seqNum)
    (hdone : w.viewer.DoneSnapshot) (hs : s = 1 ∨ s = 2) :
    PcapPrinter.HasEntered w.viewer.books s (w.entered s) w.reference := by
  have hzero : s ≠ 0 := by
    rcases hs with rfl | rfl <;> decide
  obtain ⟨hcounted, hadmits⟩ := hclean.admitsAll hs
  have hfollowing : w.applied.filter (fun m => w.recovery.lastSnapshotSeqNum < m.seqNum) =
      w.following := by
    rw [applied, following, List.filter_append, List.filter_append, List.filter_filter]
    simp only [Bool.and_self]
  have hordered' : w.applied.Pairwise fun m m' => m.seqNum < m'.seqNum :=
    hordered.sublist (List.filter_sublist.append_right w.later)
  have hpast : ∀ m ∈ w.applied, m.body.enters s ≠ none →
      w.recovery.lastSnapshotSeqNum < m.seqNum := by
    intro m hm henters
    rcases List.mem_append.mp hm with hbuffered | hlater
    · exact of_decide_eq_true (List.mem_filter.mp hbuffered).2
    · exact hclean.past s hs m hlater henters
  have hall := hasEntered_foldl hzero hcounted hordered' hpast (hfollowing.symm ▸ hadmits)
  rw [hfollowing, ← h.done hdone] at hall
  exact hall

/-! ### The lines -/

/-- The lines of the symbols 1 and 2 show the best prices of a client. -/
def Shows (lines : List BboLine) (c : MDClient) : Prop :=
  ∀ line ∈ lines, line.symbol = 1 ∨ line.symbol = 2 →
    line.bestBid = c.getBestBid line.symbol ∧ line.bestAsk = c.getBestAsk line.symbol

/-- A line is printed for each symbol that has a book. -/
theorem shows_lines_iff (v : PcapPrinter) (tvSec tvUsec : ℕ) (n : UInt32) (c : MDClient) :
    Shows (v.lines tvSec tvUsec n) c ↔
      ∀ s, s = 1 ∨ s = 2 → (v.books.symbolToOrderBook.lookup s).isSome = true →
        ∀ side, (v.books.book s).best side = (c.book s).best side := by
  have hbook : ∀ s b, v.books.symbolToOrderBook.lookup s = some b → v.books.book s = b := by
    intro s b hb
    rw [MDClient.book, hb, Option.getD_some]
  refine ⟨fun h s hs hsome side => ?_, fun h line hline hsymbol => ?_⟩
  · -- the book has an entry in the map, and that entry a line
    obtain ⟨b, hb⟩ := Option.isSome_iff_exists.mp hsome
    have hline := List.mem_map_of_mem (f := fun entry : Sigma fun _ : UInt32 => OrderBook =>
      (⟨tvSec + tvUsec / 1000000, n, entry.1, entry.2.getBestBid, entry.2.getBestAsk⟩ : BboLine))
      (AList.mem_lookup_iff.mp hb)
    obtain ⟨hbid, hask⟩ := h _ hline hs
    rw [hbook s b hb, ← MDClient.best_eq]
    cases side with
    | buy => exact hbid
    | sell => exact hask
  · obtain ⟨⟨s, b⟩, hentry, rfl⟩ := List.mem_map.mp hline
    have hb := AList.mem_lookup_iff.mpr hentry
    have hbest := h s hsymbol (Option.isSome_iff_exists.mpr ⟨b, hb⟩)
    rw [hbook s b hb] at hbest
    exact ⟨(hbest .buy).trans (c.best_eq .buy s).symm, (hbest .sell).trans (c.best_eq .sell s).symm⟩

/-- **The lines after a message**: right exactly when the orders of the snapshot stand behind. -/
theorem shows_iff (h : w.Tracks) (hclean : w.Clean)
    (hordered : (w.recovery.liveBuffer ++ w.later).Pairwise fun m m' => m.seqNum < m'.seqNum)
    (hdone : w.viewer.DoneSnapshot) (tvSec tvUsec : ℕ) (n : UInt32) :
    Shows (w.viewer.lines tvSec tvUsec n) w.reference ↔ ∀ s, s = 1 ∨ s = 2 → w.Overtaken s := by
  rw [shows_lines_iff]
  refine forall₂_congr fun s hs => ?_
  have hall := hasEntered h hclean hordered hdone hs
  rw [hall.book, Overtaken]
  refine imp_congr_right fun _ => ?_
  refine ⟨fun hbest e o ho he => ?_, fun hover side => ?_⟩
  · exact (hall.best_eq_iff o.side.bookSide).mp (hbest _) e o ho he rfl
  · rw [hall.best_eq_iff]
    rintro e o ho he rfl
    exact hover e o ho he

/-! ### The capture so far -/

/-- After the snapshots, nothing is collected any more. -/
theorem take_of_done (hdone : w.viewer.DoneSnapshot) (event : CaptureEvent) :
    (w.take event).viewer.DoneSnapshot ∧ (w.take event).recovery = w.recovery ∧
      w.later <+: (w.take event).later := by
  cases event with
  | live tvSec tvUsec m =>
    rw [take, live, PcapPrinter.live, if_pos hdone, if_pos hdone]
    exact ⟨hdone, rfl, List.prefix_append ..⟩
  | snapshot ms =>
    have hsame : w.snapshot ms = w := by
      cases ms with
      | nil => rfl
      | cons m ms =>
        rw [snapshot]
        cases m <;> rw [PcapPrinter.snapshotMessage, if_pos hdone]
    rw [take, hsame]
    exact ⟨hdone, rfl, List.prefix_rfl⟩

theorem foldl_of_done (hdone : w.viewer.DoneSnapshot) (es : List CaptureEvent) :
    (es.foldl take w).viewer.DoneSnapshot ∧ (es.foldl take w).recovery = w.recovery ∧
      w.later <+: (es.foldl take w).later := by
  induction es generalizing w with
  | nil => exact ⟨hdone, rfl, List.prefix_rfl⟩
  | cons event es ih =>
    obtain ⟨hdone', hrecovery, hlater⟩ := take_of_done hdone event
    obtain ⟨hdone'', hrecovery', hlater'⟩ := ih hdone'
    exact ⟨hdone'', hrecovery'.trans hrecovery, hlater.trans hlater'⟩

/-- What is clean was clean before. -/
theorem Clean.earlier (h : w'.Clean) (hrecovery : w'.recovery = w.recovery)
    (hlater : w.later <+: w'.later) : w.Clean := by
  obtain ⟨rest, hrest⟩ := hlater
  have hfollowing : w'.following = w.following ++
      rest.filter fun m => w.recovery.lastSnapshotSeqNum < m.seqNum := by
    rw [following, following, hrecovery, ← hrest, ← List.append_assoc, List.filter_append]
  refine ⟨fun s hs m hm => ?_, fun s hs => ?_⟩
  · rw [← hrecovery]
    exact h.past s hs m (hrest ▸ List.mem_append_left rest hm)
  · have hall := h.admits s hs
    have hmap : w'.following.map MdMessage.body = w.following.map MdMessage.body ++
        (rest.filter fun m => w.recovery.lastSnapshotSeqNum < m.seqNum).map MdMessage.body := by
      rw [hfollowing, List.map_append]
    rw [hrecovery, hmap, ← List.append_assoc, MDClient.admitsAll_append] at hall
    exact hall.1

/-- The lines printed on a live message. -/
theorem shows_live_iff (h : w.Tracks) (hdone : w.viewer.DoneSnapshot) {tvSec tvUsec : ℕ}
    {m : MdMessage} (hclean : (w.live tvSec tvUsec m).Clean)
    (hordered : ((w.live tvSec tvUsec m).recovery.liveBuffer ++
      (w.live tvSec tvUsec m).later).Pairwise fun m m' => m.seqNum < m'.seqNum) :
    Shows (w.viewer.live tvSec tvUsec m).2 (w.live tvSec tvUsec m).reference ↔
      ∀ s, s = 1 ∨ s = 2 → (w.live tvSec tvUsec m).Overtaken s := by
  obtain ⟨hdone', -, -⟩ := take_of_done hdone (.live tvSec tvUsec m)
  have hlines : (w.viewer.live tvSec tvUsec m).2 =
      (w.live tvSec tvUsec m).viewer.lines tvSec tvUsec m.seqNum := by
    rw [live, PcapPrinter.live, if_pos hdone, if_pos hdone]
  rw [hlines]
  exact shows_iff (h.live tvSec tvUsec m) hclean hordered hdone' tvSec tvUsec m.seqNum

/-- A snapshot datagram leaves what is kept of the live messages. -/
theorem live_snapshot (w : Watch) (ms : List SnapshotMessage) :
    (w.snapshot ms).recovery.liveBuffer = w.recovery.liveBuffer ∧
      (w.snapshot ms).later = w.later := by
  induction ms generalizing w with
  | nil => exact ⟨rfl, rfl⟩
  | cons m ms ih =>
    rw [snapshot]
    cases w.viewer.snapshotMessage m with
    | none => exact ⟨rfl, rfl⟩
    | some viewer =>
      obtain ⟨hbuffer, hlater⟩ := ih { w with viewer, recovery := w.recovery.collect m }
      refine ⟨hbuffer.trans ?_, hlater⟩
      cases m with
      | info symbol bidCount askCount n => exact (Recovery.leaves_info ..).liveBuffer
      | newOrder o => exact (Recovery.leaves_newOrder w.recovery o).liveBuffer

end Watch

/-- The viewer and the client over a capture. -/
def watch (es : List CaptureEvent) : Watch := es.foldl Watch.take Watch.start

/-- **No live message is lost** from what the client applies. -/
theorem liveMessages_watch (es : List CaptureEvent) :
    (watch es).recovery.liveBuffer ++ (watch es).later = es.filterMap CaptureEvent.liveMessage := by
  induction es using List.reverseRecOn with
  | nil => rfl
  | append_singleton es event ih =>
    have htracks : (watch es).Tracks := Watch.tracks_start.foldl es
    rw [List.filterMap_append, ← ih, watch, List.foldl_append]
    change ((watch es).take event).recovery.liveBuffer ++ ((watch es).take event).later = _
    cases event with
    | live tvSec tvUsec m =>
      rw [Watch.take, Watch.live]
      split_ifs with hdone
      · exact (List.append_assoc ..).symm
      · -- nothing has come after the snapshots
        have hlater := (htracks.waits hdone).later
        dsimp only
        rw [hlater, List.append_nil, List.append_nil]
        rfl
    | snapshot ms =>
      obtain ⟨hbuffer, hlater⟩ := (watch es).live_snapshot ms
      rw [Watch.take, hbuffer, hlater]
      exact (List.append_nil _).symm

theorem watch_live (es : List CaptureEvent) (tvSec tvUsec : ℕ) (m : MdMessage) :
    watch (es ++ [.live tvSec tvUsec m]) = (watch es).live tvSec tvUsec m := by
  rw [watch, List.foldl_append]
  rfl

/-- **The lines of a capture** are right exactly if, after every live message that is printed, each order
that a book has from its snapshot stands behind one that was entered since. -/
theorem bbo_lines_iff (es : List CaptureEvent)
    (hordered : (es.filterMap CaptureEvent.liveMessage).Pairwise fun m m' => m.seqNum < m'.seqNum)
    (hclean : (watch es).Clean) :
    (∀ es' tvSec tvUsec m, es' ++ [CaptureEvent.live tvSec tvUsec m] <+: es →
      Watch.Shows ((watch es').viewer.live tvSec tvUsec m).2
        (watch (es' ++ [CaptureEvent.live tvSec tvUsec m])).reference) ↔
    ∀ es' tvSec tvUsec m, es' ++ [CaptureEvent.live tvSec tvUsec m] <+: es →
      (watch es').viewer.DoneSnapshot →
        ∀ s, s = 1 ∨ s = 2 → (watch (es' ++ [CaptureEvent.live tvSec tvUsec m])).Overtaken s := by
  refine forall_congr' fun es' => forall_congr' fun tvSec => forall_congr' fun tvUsec =>
    forall_congr' fun m => imp_congr_right fun hes => ?_
  by_cases hdone : (watch es').viewer.DoneSnapshot
  · -- the capture so far is clean as well
    obtain ⟨rest, rfl⟩ := hes
    have hnext := watch_live es' tvSec tvUsec m
    have hdone' : (watch (es' ++ [CaptureEvent.live tvSec tvUsec m])).viewer.DoneSnapshot := by
      rw [hnext]
      exact (Watch.take_of_done hdone (.live tvSec tvUsec m)).1
    obtain ⟨-, hrecovery, hlater⟩ := Watch.foldl_of_done hdone' rest
    have hsame : watch (es' ++ [CaptureEvent.live tvSec tvUsec m] ++ rest) =
        rest.foldl Watch.take (watch (es' ++ [CaptureEvent.live tvSec tvUsec m])) :=
      List.foldl_append
    rw [← hsame] at hrecovery hlater
    have hearlier := hclean.earlier hrecovery hlater
    rw [List.filterMap_append] at hordered
    have hordered' := (List.pairwise_append.mp hordered).1
    rw [← liveMessages_watch] at hordered'
    rw [hnext] at hearlier hordered' ⊢
    have htracks : (watch es').Tracks := Watch.tracks_start.foldl es'
    rw [Watch.shows_live_iff htracks hdone hearlier hordered']
    exact (imp_iff_right hdone).symm
  · -- nothing is printed
    rw [PcapPrinter.live, if_neg hdone]
    exact iff_of_true (fun line hline => absurd hline List.not_mem_nil) fun hd => absurd hd hdone

/-- A capture of two orders, and then of the snapshots that have them. -/
def roundCapture : List CaptureEvent :=
  [.live 0 0 ⟨1, .newOrder 7 1 Side.buy 10 100 0⟩, .live 0 0 ⟨2, .newOrder 8 2 Side.buy 10 200 0⟩,
    .snapshot [.info 1 1 0 2, .newOrder ⟨7, 1, Side.buy, 10, 100, 0⟩],
    .snapshot [.info 2 1 0 2, .newOrder ⟨8, 2, Side.buy, 10, 200, 0⟩]]

/-- Before the last datagram of this capture, nothing is printed. -/
theorem not_done_of_roundCapture {es : List CaptureEvent} {tvSec tvUsec : ℕ} {m : MdMessage}
    (hes : es ++ [CaptureEvent.live tvSec tvUsec m] <+: roundCapture) :
    ¬ (watch es).viewer.DoneSnapshot := by
  intro hdone
  have hsplit : roundCapture = roundCapture.dropLast ++
      [.snapshot [.info 2 1 0 2, .newOrder ⟨8, 2, Side.buy, 10, 200, 0⟩]] := rfl
  rw [hsplit, List.prefix_concat_iff] at hes
  rcases hes with heq | hbefore
  · -- the last datagram is none of the live group
    have hlast := List.append_inj_right' heq rfl
    cases hlast
  · obtain ⟨rest, hrest⟩ := (List.prefix_append es _).trans hbefore
    have hdone' := (Watch.foldl_of_done hdone rest).1
    rw [watch, ← List.foldl_append, hrest] at hdone'
    exact absurd hdone' (by decide +kernel)

/-- An order is entered before those of the snapshot. -/
theorem bbo_lines_iff_better :
    Watch.Shows ((watch roundCapture).viewer.live 0 0 ⟨3, .newOrder 9 1 Side.buy 5 110 0⟩).2
      (watch (roundCapture ++ [.live 0 0 ⟨3, .newOrder 9 1 Side.buy 5 110 0⟩])).reference := by
  have hclean :
      (watch (roundCapture ++ [.live 0 0 ⟨3, .newOrder 9 1 Side.buy 5 110 0⟩])).Clean := by
    refine ⟨?_, ?_⟩
    · rintro s (rfl | rfl) <;> decide +kernel
    · rintro s (rfl | rfl) <;> decide +kernel
  have hover : ∀ s, s = 1 ∨ s = 2 →
      (watch (roundCapture ++ [.live 0 0 ⟨3, .newOrder 9 1 Side.buy 5 110 0⟩])).Overtaken s := by
    rintro s (rfl | rfl)
    · intro _ e o ho he
      have horders : ((watch (roundCapture ++
          [.live 0 0 ⟨3, .newOrder 9 1 Side.buy 5 110 0⟩])).reference.book 1).orders.entries =
            [⟨9, ⟨Side.buy, 110, 5⟩⟩, ⟨7, ⟨Side.buy, 100, 10⟩⟩] := by
        decide +kernel
      have hids : (watch (roundCapture ++
          [.live 0 0 ⟨3, .newOrder 9 1 Side.buy 5 110 0⟩])).entered 1 = [9] := by
        decide +kernel
      rw [← MDClient.lookup_book, ← Option.mem_def, AList.mem_lookup_iff, horders] at ho
      rw [hids] at he ⊢
      have hold : e = 7 ∧ o = ⟨Side.buy, 100, 10⟩ := by
        simpa [List.mem_singleton.not.mp he] using ho
      obtain ⟨rfl, rfl⟩ := hold
      exact ⟨9, List.mem_singleton_self 9, ⟨Side.buy, 110, 5⟩, by decide +kernel, rfl, by decide⟩
    · intro hids
      exact absurd (by decide +kernel) hids
  refine (bbo_lines_iff _ (by decide +kernel) hclean).mpr ?_ roundCapture 0 0 _ List.prefix_rfl
  intro es' tvSec tvUsec m hes hdone
  rcases List.prefix_concat_iff.mp hes with heq | hbefore
  · rw [heq]
    exact hover
  · exact absurd hdone (not_done_of_roundCapture hbefore)

/-- The live messages of a capture are numbered without a gap. -/
def Lossless (es : List CaptureEvent) : Prop :=
  ∃ k bodies, es.filterMap CaptureEvent.liveMessage = numberedFrom k bodies ∧
    k + bodies.length ≤ 2 ^ 32

/-- **The viewer prints a worse bid** than that of the order that it has from the snapshot. -/
theorem not_shows_of_capture :
    ¬ ∀ es, Lossless es → ∀ es' tvSec tvUsec m, es' ++ [CaptureEvent.live tvSec tvUsec m] <+: es →
      Watch.Shows ((watch es').viewer.live tvSec tvUsec m).2
        (watch (es' ++ [CaptureEvent.live tvSec tvUsec m])).reference := by
  intro hall
  have hlossless : Lossless (roundCapture ++ [.live 0 0 ⟨3, .newOrder 9 1 Side.buy 5 90 0⟩]) :=
    ⟨1, [.newOrder 7 1 Side.buy 10 100 0, .newOrder 8 2 Side.buy 10 200 0,
      .newOrder 9 1 Side.buy 5 90 0], rfl, by decide⟩
  have hshows := hall _ hlossless roundCapture 0 0 _ List.prefix_rfl
  have hline : (⟨0, 3, 1, ⟨90, 5⟩, ⟨0, 0⟩⟩ : BboLine) ∈
      ((watch roundCapture).viewer.live 0 0 ⟨3, .newOrder 9 1 Side.buy 5 90 0⟩).2 := by
    decide +kernel
  exact absurd (hshows _ hline (Or.inl rfl)).1 (by decide +kernel)

end Ndfex
