import Ndfex.Bots.SequenceTracking
import Ndfex.EtfService.ClearingClient

/-!
# Numbers that the clearing client does not expect

The client of the web data takes a message whose number follows the last one that it took, and no
other. Behind a lost datagram it waits for a number that does not come, and behind the greatest number of
32 bits for one that no message has.

## Main definitions

* `clearingDatagram`: the datagram of a numbered fill
* `WebData.ClearingClient.missed`: the fills that arrived and are not taken

## Main results

* `tracks_sequence_iff`: when the two clients of the feeds take all of a feed without loss
* `lost_datagrams_iff`: what is held after any losses
-/

namespace Ndfex

open Containers Wire

/-- The volume of a client in a symbol. -/
def tradedVolume (client symbol : UInt32) (fills : List ClearingFill) : ℤ :=
  tradedQuantity Side.buy client symbol fills + tradedQuantity Side.sell client symbol fills

/-- The position of a client in a symbol, by the sides of the fills. -/
def tradedPosition (client symbol : UInt32) (fills : List ClearingFill) : ℤ :=
  tradedQuantity Side.buy client symbol fills - tradedQuantity Side.sell client symbol fills

/-- The datagram of a fill with its number. -/
def clearingDatagram (x : ClearingFill × ℕ) : List UInt8 := x.1.reported.encode (UInt32.ofNat x.2)

namespace WebData.ClearingClient

variable {c : ClearingClient}

/-! ### The greatest number -/

/-- A fill with a quantity changes what the client holds. -/
theorem Holds.not_snoc {fills : List ClearingFill} {f : ClearingFill} (h : c.Holds fills)
    (hside : f.TwoSided) (hquantity : f.quantity ≠ 0) : ¬ c.Holds (fills ++ [f]) := by
  intro h'
  have hsame := (h.volume f.clientId f.symbol).symm.trans (h'.volume f.clientId f.symbol)
  dsimp only at hsame
  rw [tradedQuantity_own, tradedQuantity_own, add_add_add_comm, hside.ite_add_ite,
    UInt32.ofInt_add _ (f.quantity.toNat : ℤ), ofInt_toNat] at hsame
  exact hquantity (by simpa using hsame.symm)

/-- **When the client takes all fills** of a feed without loss: after the datagrams of any first ones it
holds them. -/
theorem holds_prefixes_iff (buf : ℕ → UInt8) {fills : List ClearingFill}
    (hfills : ∀ f ∈ fills, f.TwoSided ∧ f.quantity ≠ 0) :
    (∀ done, done <+: fills → ∃ c, (clearingDatagrams 0 done).foldlM process (start buf) = .ok c ∧
        c.Holds done) ↔ fills.length < 2 ^ 32 := by
  have hcounted : counted = 2 ^ 32 - 1 := rfl
  have hfollows : ∀ done, done <+: fills →
      ∃ c, (clearingDatagrams 0 done).foldlM process (start buf) = .ok c ∧ c.Follows done :=
    fun done hdone => process_datagrams buf fun f hf => (hfills f (hdone.subset hf)).1
  constructor
  · intro h
    by_contra hlong
    -- the fill behind the one with the greatest number
    have hlt : counted < fills.length := by omega
    have htake : fills.take (counted + 1) = fills.take counted ++ [fills[counted]] :=
      List.take_succ_eq_append_getElem hlt
    obtain ⟨c, hc, hholds⟩ := h _ (List.take_prefix (counted + 1) fills)
    obtain ⟨c', hc', hfollow⟩ := hfollows _ (List.take_prefix (counted + 1) fills)
    obtain rfl : c = c' := Except.ok.inj (hc.symm.trans hc')
    have hheld := hfollow.holds
    rw [List.take_take, Nat.min_eq_left (Nat.le_succ _)] at hheld
    rw [htake] at hholds
    obtain ⟨hside, hquantity⟩ := hfills _ (List.getElem_mem hlt)
    exact hheld.not_snoc hside hquantity hholds
  · intro hshort done hdone
    obtain ⟨c, hc, hfollow⟩ := hfollows done hdone
    have hheld := hfollow.holds
    rw [List.take_of_length_le (by have := hdone.length_le; omega)] at hheld
    exact ⟨c, hc, hheld⟩

end WebData.ClearingClient

/-- **Wrap-around.** A feed of market data without loss is taken to its end exactly when its numbers do not
pass the greatest one of 32 bits and no message stops its datagram, and a feed of fills exactly when it has
fewer than 2^32. -/
theorem tracks_sequence_iff (c : Bots.LiveClient) {ds : List (List MdBody)}
    (hds : ∀ bodies ∈ ds, bodies.length < 2 ^ 32) (buf : ℕ → UInt8) {fills : List ClearingFill}
    (hfills : ∀ f ∈ fills, f.TwoSided ∧ f.quantity ≠ 0) :
    ((∀ n ≤ ds.length, c.InStep (((feedDatagrams (c.lastMdSeqNum.toNat + 1) ds).take n).foldl
          Bots.LiveClient.processMessage c) (ds.take n).flatten) ↔
        c.lastMdSeqNum.toNat + ds.flatten.length < 2 ^ 32 ∧ c.client.EachGoesThrough ds) ∧
      ((∀ done, done <+: fills → ∃ web,
          (clearingDatagrams 0 done).foldlM WebData.ClearingClient.process (.start buf) = .ok web ∧
            web.Holds done) ↔
        fills.length < 2 ^ 32) :=
  ⟨c.inStep_iff hds, WebData.ClearingClient.holds_prefixes_iff buf hfills⟩

/-- Two datagrams of orders. -/
def shortFeed : List (List MdBody) := [[.newOrder 1 1 Side.buy 10 50 0], [.deleteOrder 1, .heartbeat]]

/-- A fill of a buyer. -/
def boughtTen : ClearingFill := ⟨1, 100, 7, 10, 50, Side.buy⟩

theorem tracks_sequence_short :
    ((∀ n ≤ shortFeed.length, Bots.LiveClient.InStep ⟨Bots.MDClient.empty, 0⟩
          (((feedDatagrams ((0 : UInt32).toNat + 1) shortFeed).take n).foldl
            Bots.LiveClient.processMessage ⟨Bots.MDClient.empty, 0⟩) (shortFeed.take n).flatten) ↔
        (0 : UInt32).toNat + shortFeed.flatten.length < 2 ^ 32 ∧
          Bots.MDClient.empty.EachGoesThrough shortFeed) ∧
      ((∀ done, done <+: [boughtTen] → ∃ web,
          (clearingDatagrams 0 done).foldlM WebData.ClearingClient.process (.start fun _ => 0) =
              .ok web ∧ web.Holds done) ↔
        [boughtTen].length < 2 ^ 32) :=
  tracks_sequence_iff ⟨Bots.MDClient.empty, 0⟩ (by decide) (fun _ => 0) (by decide)

/-- **The message behind the greatest number** is skipped: the order that it announces is never shown, and
the fill never counted. -/
theorem sequence_wraps :
    (¬ ∀ (c : Bots.LiveClient) (body : MdBody),
      c.InStep (c.processMessage (numberedFrom (c.lastMdSeqNum.toNat + 1) [body])) [body]) ∧
    ¬ ∀ fills : List ClearingFill, (∀ f ∈ fills, f.TwoSided ∧ f.quantity ≠ 0) → ∃ web,
      (clearingDatagrams 0 fills).foldlM WebData.ClearingClient.process (.start fun _ => 0) =
        .ok web ∧ web.Holds fills := by
  constructor
  · intro h
    have hnumber := (h ⟨Bots.MDClient.empty, 4294967295⟩ (.newOrder 1 1 Side.buy 10 50 0)).number
    exact absurd hnumber (by decide +kernel)
  · intro h
    have hten : boughtTen.TwoSided ∧ boughtTen.quantity ≠ 0 := by decide
    generalize boughtTen = f at hten
    -- as many fills as there are numbers
    have hfills : ∀ f' ∈ List.replicate (WebData.ClearingClient.counted + 1) f,
        f'.TwoSided ∧ f'.quantity ≠ 0 := by
      intro f' hf'
      rw [List.eq_of_mem_replicate hf']
      exact hten
    obtain ⟨web, hweb, hholds⟩ := h _ hfills
    obtain ⟨web', hweb', hfollows⟩ :=
      WebData.ClearingClient.process_datagrams (fun _ => 0) fun f' hf' => (hfills f' hf').1
    obtain rfl : web = web' := Except.ok.inj (hweb.symm.trans hweb')
    have hheld := hfollows.holds
    generalize WebData.ClearingClient.counted = n at hheld hholds
    rw [List.take_replicate, Nat.min_eq_left (Nat.le_succ n)] at hheld
    rw [List.replicate_succ'] at hholds
    exact hheld.not_snoc hten.1 hten.2 hholds

/-! ### Losses -/

namespace WebData.ClearingClient

/-- The arrived fills whose number is not the one behind the last number that was taken. -/
def missed (lastSeqNum : UInt64) : List (ClearingFill × ℕ) → List ClearingFill
  | [] => []
  | (f, i) :: rest =>
    if lastSeqNum ≠ 0 ∧ (UInt32.ofNat i).toUInt64 ≠ lastSeqNum + 1 then f :: missed lastSeqNum rest
    else missed (UInt32.ofNat i).toUInt64 rest

theorem mem_of_mem_missed {lastSeqNum : UInt64} {arrived : List (ClearingFill × ℕ)}
    {f : ClearingFill} (h : f ∈ missed lastSeqNum arrived) : f ∈ arrived.map Prod.fst := by
  induction arrived generalizing lastSeqNum with
  | nil => exact h
  | cons x rest ih =>
    rw [missed] at h
    rw [List.map_cons]
    split_ifs at h
    · exact List.mem_cons.mpr ((List.mem_cons.mp h).imp_right ih)
    · exact List.mem_cons_of_mem _ (ih h)

/-- The client holds some of the fills that arrived: what it has and what it missed is all of them. -/
structure HoldsBut (c : ClearingClient) (got missing : List ClearingFill) : Prop where
  holds : ∃ taken, c.Holds taken ∧ ∀ g side client symbol,
    traded g side client symbol got =
      traded g side client symbol taken + traded g side client symbol missing

/-- **What the client holds** after the datagrams that arrived. -/
theorem process_arrived {got missing : List ClearingFill} (h : c.HoldsBut got missing)
    {arrived : List (ClearingFill × ℕ)} (hsides : ∀ x ∈ arrived, x.1.TwoSided) :
    ∃ web, (arrived.map clearingDatagram).foldlM process c = .ok web ∧
      web.HoldsBut (got ++ arrived.map Prod.fst) (missing ++ missed c.lastSeqNum arrived) := by
  induction arrived generalizing c got missing with
  | nil => exact ⟨c, rfl, by simpa [missed] using h⟩
  | cons x rest ih =>
    obtain ⟨f, i⟩ := x
    obtain ⟨hside, hsides⟩ := List.forall_mem_cons.mp hsides
    obtain ⟨taken, hholds, htotal⟩ := h.holds
    rw [List.map_cons, List.foldlM_cons, clearingDatagram, process_encode]
    by_cases hgap : c.lastSeqNum ≠ 0 ∧ (UInt32.ofNat i).toUInt64 ≠ c.lastSeqNum + 1
    · -- the datagram tells of a gap, and is dropped itself
      rw [if_pos hgap]
      have hnext : HoldsBut { c with buf := overwrite c.buf (f.reported.encode (UInt32.ofNat i)) }
          (got ++ [f]) (missing ++ [f]) := by
        refine ⟨taken, hholds.received _ _, fun g side client symbol => ?_⟩
        rw [traded_append, traded_append, htotal, add_assoc]
      obtain ⟨web, hweb, hall⟩ := ih hnext hsides
      refine ⟨web, hweb, ?_⟩
      rw [missed, if_pos hgap]
      rwa [List.append_assoc, List.append_assoc] at hall
    · -- the number follows, or it is the first one, and the fill is taken
      rw [if_neg hgap]
      have hnext : HoldsBut (ClearingClient.fill
          { c with
            buf := overwrite c.buf (f.reported.encode (UInt32.ofNat i))
            lastSeqNum := (UInt32.ofNat i).toUInt64 } f.reported) (got ++ [f]) missing := by
        refine ⟨taken ++ [f], (hholds.received _ _).fill hside, fun g side client symbol => ?_⟩
        rw [traded_append, traded_append, htotal, add_right_comm]
      obtain ⟨web, hweb, hall⟩ := ih hnext hsides
      refine ⟨web, hweb, ?_⟩
      rw [missed, if_neg hgap]
      rwa [List.append_assoc, lastSeqNum_fill] at hall

end WebData.ClearingClient

/-- The client of the ETF service holds what arrived. -/
theorem EtfService.ClearingClient.Holds.arrived {c : EtfService.ClearingClient}
    {got : List ClearingFill} (h : c.Holds got) {arrived : List (ClearingFill × ℕ)}
    (hsides : ∀ x ∈ arrived, x.1.TwoSided) :
    ((arrived.map clearingDatagram).foldl EtfService.ClearingClient.processMessage c).Holds
      (got ++ arrived.map Prod.fst) := by
  induction arrived generalizing c got with
  | nil => simpa using h
  | cons x rest ih =>
    obtain ⟨hside, hsides⟩ := List.forall_mem_cons.mp hsides
    have hnext := ih (h.processMessage hside (UInt32.ofNat x.2)) hsides
    rw [List.append_assoc, List.singleton_append] at hnext
    rw [List.map_cons, List.map_cons, List.foldl_cons, clearingDatagram]
    exact hnext

/-- **Lost datagrams.** Of the fills that clearing published, in their order, some arrive. For a client and
a symbol whose volume has 31 bits, the client of the ETF service holds the position and the volume of the
fills that arrived, and the client of the web data exactly if none of theirs comes with a number that is
not the one behind the last number taken. -/
theorem lost_datagrams_iff {fills : List ClearingFill}
    (hfills : ∀ f ∈ fills, f.TwoSided ∧ f.quantity ≠ 0) {arrived : List (ClearingFill × ℕ)}
    (harrived : arrived.Sublist (fills.zipIdx 1)) (buf : ℕ → UInt8) {client symbol : UInt32}
    (hvolume : tradedVolume client symbol (arrived.map Prod.fst) < 2 ^ 31) :
    let etf := (arrived.map clearingDatagram).foldl EtfService.ClearingClient.processMessage .start
    ∃ web, (arrived.map clearingDatagram).foldlM WebData.ClearingClient.process (.start buf) =
        .ok web ∧
      (etf.positions.get client symbol = tradedPosition client symbol (arrived.map Prod.fst) ∧
        etf.volume.get client symbol = tradedVolume client symbol (arrived.map Prod.fst)) ∧
      (((web.positions.get client symbol).toInt =
            tradedPosition client symbol (arrived.map Prod.fst) ∧
          ((web.volume.get client symbol).toNat : ℤ) =
            tradedVolume client symbol (arrived.map Prod.fst)) ↔
        ∀ f ∈ WebData.ClearingClient.missed 0 arrived,
          ¬ (f.clientId = client ∧ f.symbol = symbol)) := by
  intro etf
  have hmem : ∀ x ∈ arrived, x.1.TwoSided ∧ x.1.quantity ≠ 0 := fun x hx =>
    hfills x.1 (List.fst_mem_of_mem_zipIdx (harrived.subset hx))
  have hsides : ∀ x ∈ arrived, x.1.TwoSided := fun x hx => (hmem x hx).1
  have hetf : etf.Holds (arrived.map Prod.fst) :=
    EtfService.ClearingClient.holds_start.arrived hsides
  have hstart : (WebData.ClearingClient.start buf).HoldsBut [] [] :=
    ⟨[], WebData.ClearingClient.holds_start buf, fun _ _ _ _ => rfl⟩
  obtain ⟨web, hweb, taken, hholds, htotal⟩ :=
    WebData.ClearingClient.process_arrived hstart hsides
  have hzero : (WebData.ClearingClient.start buf).lastSeqNum = 0 := rfl
  rw [List.nil_append, List.nil_append, hzero] at htotal
  refine ⟨web, hweb, ⟨hetf.positions client symbol, hetf.volume client symbol⟩, ?_⟩
  rw [hholds.positions, hholds.volume]
  -- what is missed is missing in the volume
  have htotal : ∀ side, tradedQuantity side client symbol (arrived.map Prod.fst) =
      tradedQuantity side client symbol taken +
        tradedQuantity side client symbol (WebData.ClearingClient.missed 0 arrived) :=
    fun side => htotal _ side client symbol
  have hnonneg := fun side fills => tradedQuantity_nonneg side fills client symbol
  have hbuy := hnonneg Side.buy taken
  have hsell := hnonneg Side.sell taken
  have hbuy' := hnonneg Side.buy (WebData.ClearingClient.missed 0 arrived)
  have hsell' := hnonneg Side.sell (WebData.ClearingClient.missed 0 arrived)
  unfold tradedVolume tradedPosition at *
  rw [htotal, htotal] at hvolume ⊢
  constructor
  · rintro ⟨-, hheld⟩ f hf ⟨rfl, rfl⟩
    obtain ⟨x, hx, rfl⟩ := List.mem_map.mp (WebData.ClearingClient.mem_of_mem_missed hf)
    obtain ⟨hside, hquantity⟩ := hmem x hx
    have hpos : 0 < x.1.quantity.toNat :=
      Nat.pos_of_ne_zero fun hzero => hquantity (UInt32.toNat_inj.mp hzero)
    have hmissing := volume_pos hf hside hpos
    rw [toNat_ofInt (by omega) (by omega)] at hheld
    omega
  · intro hnone
    have hzero : ∀ side, tradedQuantity side client symbol
        (WebData.ClearingClient.missed 0 arrived) = 0 := fun side => traded_eq_zero _ side hnone
    rw [hzero, hzero] at hvolume ⊢
    exact ⟨by rw [add_zero, add_zero]; exact toInt_ofInt_iff.mpr (by omega),
      by rw [toNat_ofInt (by omega) (by omega), add_zero, add_zero]⟩

/-- Four fills of a client, of which the second is lost. -/
def secondLost : List (ClearingFill × ℕ) := [(boughtTen, 1), (boughtTen, 3), (boughtTen, 4)]

theorem lost_datagrams_second :
    let etf := (secondLost.map clearingDatagram).foldl EtfService.ClearingClient.processMessage .start
    ∃ web, (secondLost.map clearingDatagram).foldlM WebData.ClearingClient.process
        (.start fun _ => 0) = .ok web ∧
      (etf.positions.get 100 7 = tradedPosition 100 7 (secondLost.map Prod.fst) ∧
        etf.volume.get 100 7 = tradedVolume 100 7 (secondLost.map Prod.fst)) ∧
      (((web.positions.get 100 7).toInt = tradedPosition 100 7 (secondLost.map Prod.fst) ∧
          ((web.volume.get 100 7).toNat : ℤ) = tradedVolume 100 7 (secondLost.map Prod.fst)) ↔
        ∀ f ∈ WebData.ClearingClient.missed 0 secondLost,
          ¬ (f.clientId = 100 ∧ f.symbol = 7)) := by
  have hsides : ∀ f ∈ List.replicate 4 boughtTen, f.TwoSided ∧ f.quantity ≠ 0 := by decide
  exact lost_datagrams_iff hsides (by decide) (fun _ => 0) (by decide +kernel)

/-- **One lost datagram** costs the client of the web data all that come behind it. -/
theorem lost_datagram_loses_later :
    ¬ ∃ web, (secondLost.map clearingDatagram).foldlM WebData.ClearingClient.process
        (.start fun _ => 0) = .ok web ∧
      (web.positions.get 100 7).toInt = tradedPosition 100 7 (secondLost.map Prod.fst) ∧
        ((web.volume.get 100 7).toNat : ℤ) = tradedVolume 100 7 (secondLost.map Prod.fst) := by
  rintro ⟨web, hweb, hposition, -⟩
  have hheld : ((secondLost.map clearingDatagram).foldlM WebData.ClearingClient.process
      (.start fun _ => 0)).toOption.map (fun web => (web.positions.get 100 7).toInt) = some 10 := by
    decide +kernel
  rw [hweb] at hheld
  have hten : (web.positions.get 100 7).toInt = 10 := Option.some.inj hheld
  rw [hten] at hposition
  exact absurd hposition (by decide +kernel)

end Ndfex
