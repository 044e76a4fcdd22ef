import Ndfex.MarketData.Tracking

/-!
# The index of the snapshot writer

`order_to_symbol` against the lists of open orders. Every message keeps the two in step but one: a trade
that takes all of an order's quantity takes the order out of its list and leaves its id in the index.

## Main definitions

* `SnapshotWriter.IndexExact`: the index has the ids of the lists, each under the symbol of its list
* `WriterEvent`, `SnapshotWriter.run`: a writer with its messages and rounds
* `Shown.UsesUp`: a trade of the whole quantity of an order

## Main results

* `SnapshotWriter.lookup_hear`: what a message does to the index
* `SnapshotWriter.Keeps.indexExact_iff`: the index is exact when each of its ids is shown
* `SnapshotWriter.indexExact_run_iff`: the runs in which it is exact all along
-/

namespace Ndfex

open Containers

namespace SnapshotWriter

variable {w w' : SnapshotWriter} {v : Shown}

/-- The ids in the lists of open orders, as often as they stand there. -/
def ids (w : SnapshotWriter) : List UInt64 :=
  w.symbols.flatMap fun symbol => (w.orders symbol).map SnapshotOrder.orderId

/-- **The index is exact**: its keys are the ids in the lists, each of which stands there once, and it
maps an id to the symbol of its list. -/
structure IndexExact (w : SnapshotWriter) : Prop where
  keys : w.orderToSymbol.keys.Perm w.ids
  symbol : ∀ symbol ∈ w.symbols, ∀ o ∈ w.orders symbol,
    w.orderToSymbol.lookup o.orderId = some symbol

/-- An exact index is as large as there are open orders. -/
theorem IndexExact.length_keys (h : w.IndexExact) :
    w.orderToSymbol.keys.length = (w.symbols.map fun symbol => (w.orders symbol).length).sum := by
  rw [h.keys.length_eq, ids, List.length_flatMap]
  simp only [List.length_map]

/-! ## The index and what is shown -/

namespace Keeps

/-- An order is in the list of its symbol when it is shown. -/
theorem mem_orders_iff (h : w.Keeps v) {symbol : UInt32} (hs : symbol ∈ w.symbols) (e : UInt64) :
    e ∈ (w.orders symbol).map SnapshotOrder.orderId ↔ v symbol e ≠ none := by
  rw [← not_iff_not, not_not, ← h.find_eq_none hs, find, findKey_eq_none, List.mem_map]
  push Not
  rfl

/-- The lists of two symbols have no id in common. -/
theorem nodup_ids (h : w.Keeps v) (hsymbols : w.symbols.Nodup) : w.ids.Nodup := by
  rw [ids, List.nodup_flatMap]
  refine ⟨fun symbol _ => h.nodup symbol, hsymbols.imp_of_mem ?_⟩
  intro s s' hs hs' hne e he he'
  -- the index gives the id one symbol
  have hroute := h.routes s hs e ((h.mem_orders_iff hs e).mp he)
  have hroute' := h.routes s' hs' e ((h.mem_orders_iff hs' e).mp he')
  exact hne (Option.some.inj (hroute.symm.trans hroute'))

/-- **The index is exact when each of its ids is shown**: everything else the writer keeps anyway. -/
theorem indexExact_iff (h : w.Keeps v) (hsymbols : w.symbols.Nodup) :
    w.IndexExact ↔ ∀ e symbol, w.orderToSymbol.lookup e = some symbol → v symbol e ≠ none := by
  have hmem : ∀ e, e ∈ w.ids ↔ ∃ symbol ∈ w.symbols, v symbol e ≠ none := by
    intro e
    rw [ids, List.mem_flatMap]
    exact exists_congr fun symbol => and_congr_right fun hs => h.mem_orders_iff hs e
  constructor
  · intro hexact e symbol hroute
    have hkey : e ∈ w.orderToSymbol.keys := by
      rw [← AList.mem_keys, ← AList.lookup_isSome, hroute]
      rfl
    obtain ⟨s, hs, hv⟩ := (hmem e).mp (hexact.keys.mem_iff.mp hkey)
    have hsame := h.routes s hs e hv
    rw [hroute] at hsame
    rwa [Option.some.inj hsame]
  · intro hshown
    refine ⟨?_, fun symbol hs o ho => ?_⟩
    · rw [List.perm_ext_iff_of_nodup w.orderToSymbol.keys_nodup (h.nodup_ids hsymbols)]
      intro e
      rw [hmem, ← AList.mem_keys, ← AList.lookup_isSome, Option.isSome_iff_exists]
      constructor
      · rintro ⟨symbol, hroute⟩
        exact ⟨symbol, h.known e symbol hroute, hshown e symbol hroute⟩
      · rintro ⟨symbol, hs, hv⟩
        exact ⟨symbol, h.routes symbol hs e hv⟩
    · have hlisted : o.orderId ∈ (w.orders symbol).map SnapshotOrder.orderId :=
        List.mem_map_of_mem ho
      exact h.routes symbol hs o.orderId ((h.mem_orders_iff hs _).mp hlisted)

end Keeps

/-! ## What a message does to the index -/

/-- **The index after a message**: an announcement of one of the writer's symbols enters its id, and only
a deletion takes an id out. -/
theorem lookup_hear (w : SnapshotWriter) (m : MdMessage) (e : UInt64) :
    (w.hear m).orderToSymbol.lookup e =
      match m.body with
      | .newOrder orderId symbol .. =>
        if symbol ∈ w.symbols ∧ e = orderId then some symbol else w.orderToSymbol.lookup e
      | .deleteOrder orderId => if e = orderId then none else w.orderToSymbol.lookup e
      | _ => w.orderToSymbol.lookup e := by
  obtain ⟨n, body⟩ := m
  cases body with
  | heartbeat => rfl
  | tradeSummary => rfl
  | newOrder orderId symbol side quantity price flags =>
    simp only [hear, SnapshotClient.payload, take, newOrder]
    by_cases hs : symbol ∈ w.symbols
    · rw [if_neg (not_not_intro hs)]
      -- bids and asks are entered alike
      have hindex : ∀ w' : SnapshotWriter, w'.orderToSymbol = w.orderToSymbol →
          (w'.orderToSymbol.insert orderId symbol).lookup e =
            if symbol ∈ w.symbols ∧ e = orderId then some symbol
            else w.orderToSymbol.lookup e := by
        intro w' hw'
        rw [hw']
        by_cases he : e = orderId
        · rw [he, AList.lookup_insert, if_pos ⟨hs, rfl⟩]
        · rw [AList.lookup_insert_ne he, if_neg fun hboth => he hboth.2]
      apply hindex
      split_ifs <;> rfl
    · rw [if_pos hs, if_neg fun hboth => hs hboth.1]
  | deleteOrder orderId =>
    simp only [hear, SnapshotClient.payload, take, deleteOrder]
    cases hroute : w.orderToSymbol.lookup orderId with
    | none =>
      dsimp only
      split_ifs with he
      · rw [he, hroute]
      · rfl
    | some symbol =>
      split_ifs with he
      · rw [he]
        exact AList.lookup_erase orderId w.orderToSymbol
      · exact AList.lookup_erase_ne he
  | modifyOrder orderId side quantity price =>
    simp only [hear, SnapshotClient.payload, take, modifyOrder]
    split
    · rfl
    · split_ifs <;> rfl
  | trade orderId quantity price =>
    simp only [hear, SnapshotClient.payload, take, trade]
    split
    · rfl
    · split_ifs <;> rfl

end SnapshotWriter

/-! ## Trades of a whole order -/

/-- The symbol under which a message announces an order. -/
def MdBody.newOrderSymbol : MdBody → Option UInt32
  | .newOrder _ symbol .. => some symbol
  | _ => none

/-- The message is a trade of all that is shown of an order of one of these symbols. -/
def Shown.UsesUp (v : Shown) (symbols : List UInt32) : MdBody → Prop
  | .trade orderId quantity _ => ∃ symbol ∈ symbols, ∃ o ∈ v symbol orderId, o.quantity = quantity
  | _ => False

/-- A trade takes an order out when it is of its whole quantity. -/
theorem Bots.OrderBook.reduce_eq_none_iff {quantity : UInt32} {o : Bots.Order} :
    Bots.OrderBook.reduce quantity o = none ↔ o.quantity = quantity := by
  unfold Bots.OrderBook.reduce
  have hsub : o.quantity - quantity = 0 ↔ o.quantity = quantity := by
    rw [UInt32.sub_eq_iff_eq_add, UInt32.zero_add]
  by_cases hless : o.quantity < quantity
  · rw [if_pos hless]
    refine iff_of_false (Option.some_ne_none _) ?_
    intro heq
    rw [heq] at hless
    exact UInt32.lt_irrefl _ hless
  · rw [if_neg hless]
    by_cases hused : o.quantity - quantity = 0
    · rw [if_pos hused]
      exact iff_of_true rfl (hsub.mp hused)
    · rw [if_neg hused]
      exact iff_of_false (Option.some_ne_none _) fun heq => hused (hsub.mpr heq)

/-- A feed that never trades a whole order of these symbols. -/
def NeverUsesUp (symbols : List UInt32) (feed : List MdBody) : Prop :=
  ∀ before body rest, feed = before ++ body :: rest → ¬ (shownBy before).UsesUp symbols body

theorem neverUsesUp_nil (symbols : List UInt32) : NeverUsesUp symbols [] := by
  intro before body rest h
  simp at h

theorem neverUsesUp_snoc {symbols : List UInt32} {feed : List MdBody} {body : MdBody} :
    NeverUsesUp symbols (feed ++ [body]) ↔
      NeverUsesUp symbols feed ∧ ¬ (shownBy feed).UsesUp symbols body := by
  constructor
  · intro h
    refine ⟨fun before b rest hfeed => h before b (rest ++ [body]) ?_, h feed body [] rfl⟩
    rw [hfeed, List.append_assoc, List.cons_append]
  · rintro ⟨hfeed, hlast⟩ before b rest hsplit
    -- the message is the last one, or one of those before it
    rcases List.eq_nil_or_concat rest with rfl | ⟨rest, b', rfl⟩
    · obtain ⟨rfl, hb⟩ := List.append_inj' hsplit rfl
      rw [← List.singleton_inj.mp hb]
      exact hlast
    · rw [List.concat_eq_append, ← List.cons_append, ← List.append_assoc] at hsplit
      exact hfeed before b rest (List.append_inj' hsplit rfl).1

namespace SnapshotWriter

variable {w w' : SnapshotWriter} {v : Shown}

/-- **A message keeps an exact index** unless it is a trade of a whole order. -/
theorem IndexExact.hear_iff (hexact : w.IndexExact) (h : w.Keeps v) (hsymbols : w.symbols.Nodup)
    {m : MdMessage} (h' : (w.hear m).Keeps (v.after m.body)) :
    (w.hear m).IndexExact ↔ ¬ v.UsesUp w.symbols m.body := by
  have hsame : (w.hear m).symbols = w.symbols := (hear_written w m).2.2.1
  rw [h'.indexExact_iff (by rwa [hsame])]
  have hshown := (h.indexExact_iff hsymbols).mp hexact
  obtain ⟨n, body⟩ := m
  simp only [lookup_hear]
  cases body with
  | heartbeat => exact iff_of_true hshown id
  | tradeSummary symbol side quantity price => exact iff_of_true hshown id
  | newOrder orderId symbol side quantity price flags =>
    refine iff_of_true (fun e s hroute => ?_) id
    simp only [Shown.after]
    by_cases hown : s = symbol ∧ e = orderId
    · rw [if_pos hown]
      exact Option.some_ne_none _
    · rw [if_neg hown]
      dsimp only at hroute
      split_ifs at hroute with hentered
      · exact absurd ⟨(Option.some.inj hroute).symm, hentered.2⟩ hown
      · exact hshown e s hroute
  | deleteOrder orderId =>
    refine iff_of_true (fun e s hroute => ?_) id
    dsimp only at hroute
    split_ifs at hroute with he
    simp only [Shown.after, if_neg he]
    exact hshown e s hroute
  | modifyOrder orderId side quantity price =>
    refine iff_of_true (fun e s hroute => ?_) id
    simp only [Shown.after]
    split_ifs with he
    · exact fun hnone => hshown e s hroute (Option.map_eq_none_iff.mp hnone)
    · exact hshown e s hroute
  | trade orderId quantity price =>
    -- the index keeps the id, so the order must stay
    simp only [Shown.UsesUp, Shown.after]
    constructor
    · rintro hkept ⟨symbol, hs, o, ho, hused⟩
      have hv : v symbol orderId = some o := ho
      refine hkept orderId symbol (h.routes symbol hs orderId (by simp [hv])) ?_
      rw [if_pos rfl, hv, Option.bind_some]
      exact Bots.OrderBook.reduce_eq_none_iff.mpr hused
    · intro hnot e s hroute
      have hs := h.known e s hroute
      split_ifs with he
      · obtain ⟨o, ho⟩ := Option.ne_none_iff_exists'.mp (hshown e s hroute)
        rw [ho, Option.bind_some]
        intro hgone
        exact hnot ⟨s, hs, o, he ▸ ho, Bots.OrderBook.reduce_eq_none_iff.mp hgone⟩
      · exact hshown e s hroute

end SnapshotWriter

/-! ## Runs -/

/-- What happens to the writer: it hears a message, or its interval is over and it sorts its orders and
writes a snapshot of each symbol. -/
inductive WriterEvent
  | hear (m : MdMessage)
  | round (c : RoundChoices)

/-- The messages heard in a run. -/
def heardIn (es : List WriterEvent) : List MdBody :=
  es.filterMap fun
    | .hear m => some m.body
    | .round _ => none

@[simp] theorem heardIn_append (es es' : List WriterEvent) :
    heardIn (es ++ es') = heardIn es ++ heardIn es' := List.filterMap_append

@[simp] theorem heardIn_hear (m : MdMessage) : heardIn [.hear m] = [m.body] := rfl

@[simp] theorem heardIn_round (c : RoundChoices) : heardIn [.round c] = [] := rfl

namespace SnapshotWriter

/-- The writer after an event. -/
def after (w : SnapshotWriter) : WriterEvent → SnapshotWriter
  | .hear m => w.hear m
  | .round c => (c.traverse w.symbols).foldl writeSnapshot (w.sort c)

/-- The writer after a run. -/
def run (es : List WriterEvent) : SnapshotWriter := es.foldl after start

theorem run_snoc (es : List WriterEvent) (e : WriterEvent) : run (es ++ [e]) = (run es).after e := by
  rw [run, List.foldl_append]
  rfl

variable {w w' : SnapshotWriter}

/-- What the writer writes changes none of its orders. -/
theorem sameState_foldl_writeSnapshot (symbols : List UInt32) (w : SnapshotWriter) :
    w.SameState (symbols.foldl writeSnapshot w) := by
  induction symbols generalizing w with
  | nil => exact ⟨rfl, rfl, rfl, rfl, rfl⟩
  | cons symbol symbols ih =>
    have hone := sameState_writeSnapshot w symbol
    have hrest := ih (w.writeSnapshot symbol)
    exact ⟨hrest.1.trans hone.1, hrest.2.trans hone.2, hrest.3.trans hone.3, hrest.4.trans hone.4,
      hrest.5.trans hone.5⟩

theorem Sided.start : SnapshotWriter.start.Sided :=
  ⟨fun _ _ h => absurd h List.not_mem_nil, fun _ _ h => absurd h List.not_mem_nil⟩

/-- What a run keeps: the orders that were shown, on their sides, for the symbols of the start. -/
structure Running (w : SnapshotWriter) (feed : List MdBody) : Prop where
  keeps : w.Keeps (shownBy feed)
  sided : w.Sided
  symbols : w.symbols = SnapshotWriter.start.symbols

/-- A run of a feed that gives no id twice and only sides `BUY` and `SELL`. -/
theorem running {es : List WriterEvent} (hids : (newOrderIds (heardIn es)).Nodup)
    (hsides : ∀ body ∈ heardIn es, body.TwoSided) : (run es).Running (heardIn es) := by
  induction es using List.reverseRecOn with
  | nil => exact ⟨.start, .start, rfl⟩
  | append_singleton es e ih =>
    rw [heardIn_append] at hids hsides
    rw [newOrderIds_append] at hids
    have hold := ih (List.nodup_append.mp hids).1 fun body hbody =>
      hsides body (List.mem_append_left _ hbody)
    rw [run_snoc, heardIn_append]
    cases e with
    | hear m =>
      have hfresh : (shownBy (heardIn es)).Fresh m.body := (within_shownBy _).fresh hids
      refine ⟨?_, hold.sided.hear (hsides m.body (by simp)), ?_⟩
      · rw [shownBy_append]
        exact hold.keeps.hear hfresh fun p _ => hold.sided.keepsSide p
      · exact (hear_written (run es) m).2.2.1.trans hold.symbols
    | round c =>
      -- sorting reorders the lists, and writing leaves them alone
      have hwritten := sameState_foldl_writeSnapshot (c.traverse (run es).symbols) ((run es).sort c)
      have hsorted := hold.sided.sort c
      rw [heardIn_round, List.append_nil]
      refine ⟨hwritten.keeps (hold.keeps.sort c), ⟨?_, ?_⟩, hwritten.symbols.trans hold.symbols⟩
      · intro symbol o ho
        simp only [after, hwritten.bids] at ho
        exact hsorted.bids symbol o ho
      · intro symbol o ho
        simp only [after, hwritten.asks] at ho
        exact hsorted.asks symbol o ho

theorem nodup_symbols_start : SnapshotWriter.start.symbols.Nodup := by decide

/-- A round does not touch the index. -/
theorem indexExact_round_iff {feed : List MdBody} {c : RoundChoices} (h : w.Running feed)
    (h' : (w.after (.round c)).Running feed) :
    (w.after (.round c)).IndexExact ↔ w.IndexExact := by
  have hsymbols := nodup_symbols_start
  have hindex : (w.after (.round c)).orderToSymbol = w.orderToSymbol :=
    (sameState_foldl_writeSnapshot (c.traverse w.symbols) (w.sort c)).orderToSymbol
  rw [h'.keeps.indexExact_iff (by rwa [h'.symbols]), h.keeps.indexExact_iff (by rwa [h.symbols]),
    hindex]

/-- What holds after every part of a run holds after every part of its beginning, and at its end. -/
theorem forall_take_snoc {P : List WriterEvent → Prop} (es : List WriterEvent) (e : WriterEvent) :
    (∀ k, P ((es ++ [e]).take k)) ↔ (∀ k, P (es.take k)) ∧ P (es ++ [e]) := by
  constructor
  · intro h
    refine ⟨fun k => ?_, ?_⟩
    · rcases Nat.le_total k es.length with hk | hk
      · have hpart := h k
        rwa [List.take_append_of_le_length hk] at hpart
      · have hall := h es.length
        rwa [List.take_left, ← List.take_of_length_le hk] at hall
    · have hall := h (es ++ [e]).length
      rwa [List.take_length] at hall
  · rintro ⟨hparts, hall⟩ k
    rcases Nat.lt_or_ge k (es ++ [e]).length with hk | hk
    · rw [List.take_append_of_le_length (by simpa using Nat.le_of_lt_succ (by simpa using hk))]
      exact hparts k
    · rwa [List.take_of_length_le hk]

/-- **When the index is exact all along**: in a run of a feed with fresh ids and the sides `BUY` and `SELL`,
the index is exact after every event if and only if the feed never trades the whole quantity of an order
shown of the writer's symbols. -/
theorem indexExact_run_iff {es : List WriterEvent} (hids : (newOrderIds (heardIn es)).Nodup)
    (hsides : ∀ body ∈ heardIn es, body.TwoSided) :
    (∀ k, (run (es.take k)).IndexExact) ↔
      NeverUsesUp SnapshotWriter.start.symbols (heardIn es) := by
  induction es using List.reverseRecOn with
  | nil =>
    have hstart : SnapshotWriter.start.IndexExact := by
      rw [Keeps.start.indexExact_iff nodup_symbols_start]
      intro e symbol hroute
      cases hroute
    refine iff_of_true (fun k => ?_) (neverUsesUp_nil _)
    rw [List.take_nil]
    exact hstart
  | append_singleton es e ih =>
    have hnow := running hids hsides
    have hids' := hids
    rw [heardIn_append, newOrderIds_append] at hids'
    have hbegun : ∀ body ∈ heardIn es, body.TwoSided := fun body hbody =>
      hsides body (by rw [heardIn_append]; exact List.mem_append_left _ hbody)
    have hids'' := (List.nodup_append.mp hids').1
    have hbefore := running hids'' hbegun
    rw [forall_take_snoc (P := fun es => (run es).IndexExact), ih hids'' hbegun, heardIn_append]
    -- the index is exact before the last event in either reading
    have hexact : NeverUsesUp SnapshotWriter.start.symbols (heardIn es) → (run es).IndexExact := by
      intro hnever
      have hall := (ih hids'' hbegun).mpr hnever es.length
      rwa [List.take_length] at hall
    cases e with
    | hear m =>
      rw [heardIn_hear, neverUsesUp_snoc]
      refine and_congr_right fun hnever => ?_
      have hkeeps := hnow.keeps
      rw [run_snoc, heardIn_append, heardIn_hear, shownBy_append] at hkeeps
      have hsymbols := nodup_symbols_start
      have hstep := (hexact hnever).hear_iff hbefore.keeps (by rwa [hbefore.symbols]) hkeeps
      rw [hbefore.symbols] at hstep
      rw [run_snoc]
      exact hstep
    | round c =>
      rw [heardIn_append, heardIn_round, List.append_nil, run_snoc] at hnow
      rw [heardIn_round, List.append_nil, run_snoc]
      refine and_iff_left_of_imp fun hnever => ?_
      exact (indexExact_round_iff hbefore hnow).mpr (hexact hnever)

/-- A bid of 10, of which 4 are traded, and a round, before the rest is deleted. -/
def tradedInPart : List WriterEvent :=
  [.hear ⟨1, .newOrder 7 1 Side.buy 10 100 0⟩, .hear ⟨2, .trade 7 4 100⟩, .round .stable,
    .hear ⟨3, .deleteOrder 7⟩]

theorem indexExact_tradedInPart :
    (∀ k, (run (tradedInPart.take k)).IndexExact) ∧ (run tradedInPart).orderToSymbol.keys = [] := by
  refine ⟨(indexExact_run_iff (by decide) (by decide)).mpr ?_, by decide⟩
  have hheard : heardIn tradedInPart = [] ++ [.newOrder 7 1 Side.buy 10 100 0] ++ [.trade 7 4 100] ++
      [.deleteOrder 7] := rfl
  rw [hheard, neverUsesUp_snoc, neverUsesUp_snoc, neverUsesUp_snoc]
  refine ⟨⟨⟨neverUsesUp_nil _, id⟩, ?_⟩, id⟩
  -- of the ten, six are left
  rintro ⟨symbol, hs, o, ho, hall⟩
  rcases List.mem_pair.mp hs with rfl | rfl
  · obtain rfl := Option.some.inj ho
    exact absurd hall (by decide)
  · cases ho

/-- A bid that is traded as a whole leaves its lists and stays in the index. -/
theorem not_indexExact_run :
    ¬ ∀ es : List WriterEvent, (newOrderIds (heardIn es)).Nodup →
      (∀ body ∈ heardIn es, body.TwoSided ∧ body.Positive) →
      (∀ body ∈ heardIn es, ∀ symbol ∈ body.newOrderSymbol, symbol ∈ SnapshotWriter.start.symbols) →
        ∀ k, (run (es.take k)).IndexExact := by
  intro h
  have hexact := h [.hear ⟨1, .newOrder 7 1 Side.buy 10 100 0⟩, .hear ⟨2, .trade 7 10 100⟩]
    (by decide) (by decide) (by
      rintro body hbody symbol hsymbol
      rcases List.mem_pair.mp hbody with rfl | rfl
      · rw [← Option.mem_some_iff.mp hsymbol]
        decide
      · cases hsymbol) 2
  have hlength := hexact.length_keys
  revert hlength
  decide

end SnapshotWriter

end Ndfex
