import Ndfex.EtfService.ClearingClient

/-!
# The position ledger

`etf_service/position_ledger.py`: positions of clearing with what was created and redeemed. A call reads
the clearing client under the lock of the ledger, but the clearing client has a lock of its own, so
datagrams may arrive before each of its readings.

## Main definitions

* `EtfService.PositionLedger`, `EtfService.PositionLedger.createEtf`, `EtfService.PositionLedger.redeemEtf`
* `EtfService.LedgerCall`, `EtfService.LedgerEvent`: a call with what arrives meanwhile, and the events
* `EtfService.PositionLedger.Balanced`: the adjustments are what the history says

## Main results

* `EtfService.PositionLedger.serve_cases`: what a call does
* `EtfService.PositionLedger.Balanced.after`: every event keeps the adjustments in step with the history
* `EtfService.PositionLedger.covered`: a call that succeeds leaves no debited position below zero
* `etf_conserves`: what holds of every run
-/

namespace Ndfex

open Containers

namespace EtfService

/-- `ETF_SYMBOL`. -/
def etfSymbol : ℤ := 13

/-- `UNDERLYING_SYMBOLS`. -/
def underlyingSymbols : List ℤ := [3, 4, 5, 6, 7, 8, 9, 10, 11, 12]

/-- The tickers of `SYMBOLS`. -/
def tickers : List (ℤ × String) :=
  [(1, "GOLD"), (2, "BLUE"), (3, "KNAN"), (4, "STED"), (5, "FISH"), (6, "DILN"), (7, "SORN"),
    (8, "RYAN"), (9, "LYON"), (10, "WLSH"), (11, "LEWI"), (12, "BDIN"), (13, "UNDY")]

/-- `get_ticker`. -/
def getTicker (symbol : ℤ) : String :=
  ((tickers.find? fun t => t.1 = symbol).map Prod.snd).getD s!"SYM{symbol}"

/-- The `type` of an entry of the history. -/
inductive LedgerKind
  | create
  | redeem
deriving DecidableEq, Repr

/-- An entry of the history. -/
structure HistoryEntry where
  kind : LedgerKind
  clientId : ℤ
  amount : ℤ
deriving DecidableEq, Repr

/-- `ClearingClient.get_position` for any integers: only numbers of 32 bits have entries. -/
def ClearingClient.positionOf (c : ClearingClient) (clientId symbol : ℤ) : ℤ :=
  if clientId = (UInt32.ofInt clientId).toNat ∧ symbol = (UInt32.ofInt symbol).toNat then
    c.getPosition (UInt32.ofInt clientId) (UInt32.ofInt symbol)
  else 0

/-- `PositionLedger`. -/
structure PositionLedger where
  clearing : ClearingClient
  etfAdjustments : NestedMap ℤ ℤ ℤ
  history : List HistoryEntry

namespace PositionLedger

/-- `PositionLedger.__init__`, with a clearing client that received nothing. -/
def start : PositionLedger := ⟨.start, ∅, []⟩

/-- `PositionLedger.get_position`. -/
def getPosition (l : PositionLedger) (clientId symbol : ℤ) : ℤ :=
  l.clearing.positionOf clientId symbol + l.etfAdjustments.get clientId symbol

/-- What `create_etf` finds insufficient, of the clearing positions that it read. -/
def insufficient (l : PositionLedger) (clientId amount : ℤ) (readings : List (ℤ × ℤ)) :
    List String :=
  readings.filterMap fun r =>
    let pos := r.2 + l.etfAdjustments.get clientId r.1
    if pos < amount then
      let ticker := getTicker r.1
      some s!"{ticker}: have {pos}, need {amount}"
    else none

/-- `PositionLedger.create_etf`, with the clearing positions that it reads. -/
def createEtf (l : PositionLedger) (clientId amount : ℤ) (readings : List (ℤ × ℤ)) :
    (Bool × String) × PositionLedger :=
  if amount ≤ 0 then ((false, "Amount must be positive"), l)
  else
    let missing := l.insufficient clientId amount readings
    let looked := l.etfAdjustments.enterAll clientId underlyingSymbols
    if missing ≠ [] then
      let listed := ", ".intercalate missing
      ((false, s!"Insufficient positions: {listed}"), { l with etfAdjustments := looked })
    else
      let debited := looked.modifyAll clientId underlyingSymbols fun a => a - amount
      ((true, s!"Created {amount} UNDY from underlying positions"),
        { l with
          etfAdjustments := debited.modify clientId etfSymbol fun a => a + amount
          history := l.history ++ [⟨.create, clientId, amount⟩] })

/-- `PositionLedger.redeem_etf`, with the clearing position that it reads. -/
def redeemEtf (l : PositionLedger) (clientId amount clearingPos : ℤ) :
    (Bool × String) × PositionLedger :=
  if amount ≤ 0 then ((false, "Amount must be positive"), l)
  else
    let undyPos := clearingPos + l.etfAdjustments.get clientId etfSymbol
    let looked := l.etfAdjustments.enter clientId etfSymbol
    if undyPos < amount then
      ((false, s!"Insufficient UNDY: have {undyPos}, need {amount}"),
        { l with etfAdjustments := looked })
    else
      let debited := looked.modify clientId etfSymbol fun a => a - amount
      ((true, s!"Redeemed {amount} UNDY to underlying positions"),
        { l with
          etfAdjustments := debited.modifyAll clientId underlyingSymbols fun a => a + amount
          history := l.history ++ [⟨.redeem, clientId, amount⟩] })

end PositionLedger

/-! ### Calls and events -/

/-- The symbols that a call debits, of which it reads the clearing positions. -/
def LedgerKind.debited : LedgerKind → List ℤ
  | create => underlyingSymbols
  | redeem => [etfSymbol]

/-- A call of a client, and the datagrams that arrive before it reads the position of a symbol. -/
structure LedgerCall where
  kind : LedgerKind
  clientId : ℤ
  amount : ℤ
  arrivals : ℤ → List (List UInt8)

/-- The readings of some symbols, and the clearing client after them. -/
def LedgerCall.read (x : LedgerCall) : ClearingClient → List ℤ → ClearingClient × List (ℤ × ℤ)
  | c, [] => (c, [])
  | c, symbol :: symbols =>
    let c := (x.arrivals symbol).foldl ClearingClient.processMessage c
    let rest := x.read c symbols
    (rest.1, (symbol, c.positionOf x.clientId symbol) :: rest.2)

theorem LedgerCall.symbols_read (x : LedgerCall) (c : ClearingClient) (symbols : List ℤ) :
    (x.read c symbols).2.map Prod.fst = symbols := by
  induction symbols generalizing c with
  | nil => rfl
  | cons symbol symbols ih => rw [LedgerCall.read, List.map_cons, ih]

/-- What the ledger meets: a datagram for its clearing client, or a call. -/
inductive LedgerEvent
  | datagram (data : List UInt8)
  | serve (x : LedgerCall)

namespace PositionLedger

/-- The clearing positions that a call reads. -/
def readings (l : PositionLedger) (x : LedgerCall) : List (ℤ × ℤ) :=
  (x.read l.clearing x.kind.debited).2

/-- A call, with what it returns. -/
def serve (l : PositionLedger) (x : LedgerCall) : (Bool × String) × PositionLedger :=
  let l' := { l with clearing := (x.read l.clearing x.kind.debited).1 }
  match x.kind with
  | .create => l'.createEtf x.clientId x.amount (l.readings x)
  | .redeem => l'.redeemEtf x.clientId x.amount (((l.readings x).map Prod.snd).headD 0)

/-- The ledger after an event. -/
def after (l : PositionLedger) : LedgerEvent → PositionLedger
  | .datagram data => { l with clearing := l.clearing.processMessage data }
  | .serve x => (l.serve x).2

/-! ### What a call does -/

end PositionLedger

/-- What a share of the ETF adds to the adjustment of a symbol. -/
def perShare (symbol : ℤ) : ℤ :=
  if symbol = etfSymbol then 1 else if symbol ∈ underlyingSymbols then -1 else 0

/-- The shares that an entry adds. -/
def HistoryEntry.shares (e : HistoryEntry) : ℤ :=
  match e.kind with
  | .create => e.amount
  | .redeem => -e.amount

/-- The history of a client. -/
def historyOf (clientId : ℤ) (history : List HistoryEntry) : List HistoryEntry :=
  history.filter fun e => e.clientId = clientId

/-- The amounts of some entries of a kind. -/
def amounts (kind : LedgerKind) (entries : List HistoryEntry) : ℤ :=
  ((entries.filter fun e => e.kind = kind).map HistoryEntry.amount).sum

theorem shares_eq (entries : List HistoryEntry) :
    (entries.map HistoryEntry.shares).sum = amounts .create entries - amounts .redeem entries := by
  induction entries with
  | nil => rfl
  | cons e entries ih =>
    rw [List.map_cons, List.sum_cons, ih]
    obtain ⟨kind, clientId, amount⟩ := e
    cases kind with
    | create =>
      simp only [amounts, HistoryEntry.shares, List.filter_cons, decide_true, if_true,
        reduceCtorEq, decide_false, List.map_cons, List.sum_cons]
      exact (add_sub_assoc ..).symm
    | redeem =>
      simp only [amounts, HistoryEntry.shares, List.filter_cons, decide_true, if_true,
        reduceCtorEq, decide_false, List.map_cons, List.sum_cons]
      rw [if_neg not_false, neg_add_eq_sub, sub_sub, add_comm amount]

theorem perShare_etfSymbol : perShare etfSymbol = 1 := rfl

theorem ne_etfSymbol {symbol : ℤ} (h : symbol ∈ underlyingSymbols) : symbol ≠ etfSymbol := by
  rintro rfl
  exact absurd h (by decide)

theorem perShare_of_mem {symbol : ℤ} (h : symbol ∈ underlyingSymbols) : perShare symbol = -1 := by
  rw [perShare, if_neg (ne_etfSymbol h), if_pos h]

section Adjustments

variable {m : NestedMap ℤ ℤ ℤ} {F : ℤ → ℤ → ℤ}

theorem nodup_underlyingSymbols : underlyingSymbols.Nodup := by decide

/-- Shares of the ETF for shares of the underlyings. -/
theorem reads_created (h : m.Reads F) (clientId amount : ℤ) :
    NestedMap.Reads
      ((m.modifyAll clientId underlyingSymbols fun a => a - amount).modify clientId etfSymbol
        fun a => a + amount)
      fun k s => F k s + if k = clientId then perShare s * amount else 0 := by
  refine (h.modifyAll clientId nodup_underlyingSymbols fun a => a - amount).modify ?_
    fun k s hkey => ?_
  · rw [if_neg fun hboth => ne_etfSymbol hboth.2 rfl, if_pos rfl, perShare_etfSymbol, one_mul]
  · by_cases hk : k = clientId
    · have hs : s ≠ etfSymbol := fun hs => hkey ⟨hk, hs⟩
      by_cases hmem : s ∈ underlyingSymbols
      · rw [if_pos hk, if_pos ⟨hk, hmem⟩, perShare_of_mem hmem]
        omega
      · rw [if_pos hk, if_neg fun hboth => hmem hboth.2, perShare, if_neg hs, if_neg hmem]
        omega
    · rw [if_neg hk, if_neg fun hboth => hk hboth.1, add_zero]

/-- Shares of the underlyings for shares of the ETF. -/
theorem reads_redeemed (h : m.Reads F) (clientId amount : ℤ) :
    NestedMap.Reads
      ((m.modify clientId etfSymbol fun a => a - amount).modifyAll clientId underlyingSymbols
        fun a => a + amount)
      fun k s => F k s + if k = clientId then perShare s * -amount else 0 := by
  have hone : NestedMap.Reads (m.modify clientId etfSymbol fun a => a - amount)
      fun k s => if k = clientId ∧ s = etfSymbol then F k s - amount else F k s :=
    h.modify (if_pos ⟨rfl, rfl⟩).symm fun k s hkey => if_neg hkey
  refine (hone.modifyAll clientId nodup_underlyingSymbols fun a => a + amount).congr
    fun k s => ?_
  by_cases hk : k = clientId
  · by_cases hs : s = etfSymbol
    · rw [if_pos hk, if_neg fun hboth => ne_etfSymbol hboth.2 hs, if_pos ⟨hk, hs⟩, hs,
        perShare_etfSymbol]
      omega
    · by_cases hmem : s ∈ underlyingSymbols
      · rw [if_pos hk, if_pos ⟨hk, hmem⟩, if_neg fun hboth => hs hboth.2, perShare_of_mem hmem]
        omega
      · rw [if_pos hk, if_neg fun hboth => hmem hboth.2, if_neg fun hboth => hs hboth.2, perShare,
          if_neg hs, if_neg hmem]
        omega
  · rw [if_neg hk, if_neg fun hboth => hk hboth.1, if_neg fun hboth => hk hboth.1, add_zero]

end Adjustments

namespace PositionLedger

variable {l : PositionLedger} {x : LedgerCall}

/-- What a call that succeeds does. -/
structure Moves (l l' : PositionLedger) (x : LedgerCall) : Prop where
  amount : 0 < x.amount
  covered : ∀ r ∈ l.readings x, x.amount ≤ r.2 + l.etfAdjustments.get x.clientId r.1
  history : l'.history = l.history ++ [⟨x.kind, x.clientId, x.amount⟩]
  adjustments : ∀ k s, l'.etfAdjustments.get k s = l.etfAdjustments.get k s +
    if k = x.clientId then perShare s * HistoryEntry.shares ⟨x.kind, x.clientId, x.amount⟩ else 0

/-- **What a call does**: it is refused and moves nothing, or it succeeds. -/
theorem serve_cases (l : PositionLedger) (x : LedgerCall) :
    ((l.serve x).1.1 = false ∧
        (l.serve x).2.etfAdjustments.Reads (fun k s => l.etfAdjustments.get k s) ∧
          (l.serve x).2.history = l.history) ∨
      ((l.serve x).1.1 = true ∧ l.Moves (l.serve x).2 x) := by
  have hreads : l.etfAdjustments.Reads fun k s => l.etfAdjustments.get k s := fun _ _ => rfl
  obtain ⟨kind, clientId, amount, arrivals⟩ := x
  cases kind with
  | create =>
    unfold serve createEtf
    dsimp only
    split_ifs with hamount hmissing
    · exact Or.inl ⟨rfl, hreads, rfl⟩
    · exact Or.inl ⟨rfl, hreads.enterAll clientId underlyingSymbols, rfl⟩
    · refine Or.inr ⟨rfl, Int.not_le.mp hamount, fun r hr => ?_, rfl,
        reads_created (hreads.enterAll clientId underlyingSymbols) clientId amount⟩
      -- nothing is insufficient
      have hnone := List.filterMap_eq_nil_iff.mp (not_not.mp hmissing) r hr
      by_contra hless
      rw [if_pos (Int.not_le.mp hless)] at hnone
      cases hnone
  | redeem =>
    unfold serve redeemEtf
    dsimp only
    split_ifs with hamount hless
    · exact Or.inl ⟨rfl, hreads, rfl⟩
    · exact Or.inl ⟨rfl, hreads.enter clientId etfSymbol, rfl⟩
    · refine Or.inr ⟨rfl, Int.not_le.mp hamount, fun r hr => ?_, rfl,
        reads_redeemed (hreads.enter clientId etfSymbol) clientId amount⟩
      -- the only reading is the one that was compared
      rw [List.mem_singleton.mp hr]
      exact Int.not_lt.mp hless

/-- The adjustments are what the history says. -/
def Balanced (l : PositionLedger) : Prop :=
  l.etfAdjustments.Reads fun k s =>
    perShare s * ((historyOf k l.history).map HistoryEntry.shares).sum

theorem balanced_start : start.Balanced := fun _ s => (Int.mul_zero (perShare s)).symm

/-- **Every event** keeps the adjustments in step with the history. -/
theorem Balanced.after (h : l.Balanced) (e : LedgerEvent) : (l.after e).Balanced := by
  cases e with
  | datagram data => exact h
  | serve x =>
    rcases l.serve_cases x with ⟨-, hadjustments, hhistory⟩ | ⟨-, hmoves⟩
    · intro k s
      rw [PositionLedger.after, hadjustments, hhistory]
      exact h k s
    · intro k s
      rw [PositionLedger.after, hmoves.adjustments, hmoves.history, h]
      dsimp only
      unfold historyOf
      by_cases hk : k = x.clientId
      · rw [if_pos hk, List.filter_append, List.map_append, List.sum_append, hk]
        simp [Int.mul_add]
      · rw [if_neg hk, List.filter_append, List.map_append, List.sum_append]
        simp [Ne.symm hk]

theorem Balanced.foldl (h : l.Balanced) (es : List LedgerEvent) :
    (es.foldl PositionLedger.after l).Balanced := by
  induction es generalizing l with
  | nil => exact h
  | cons e es ih => exact ih (h.after e)

/-- **No debited position** is left below zero, of the clearing positions that were read. -/
theorem covered (hserved : (l.serve x).1.1 = true) :
    ∀ r ∈ l.readings x, 0 ≤ r.2 + (l.serve x).2.etfAdjustments.get x.clientId r.1 := by
  intro r hr
  rcases l.serve_cases x with ⟨hrefused, -⟩ | ⟨-, hmoves⟩
  · rw [hserved] at hrefused
    cases hrefused
  · have hcovered := hmoves.covered r hr
    have hsymbol : r.1 ∈ x.kind.debited := by
      rw [← x.symbols_read l.clearing x.kind.debited]
      exact List.mem_map_of_mem hr
    rw [hmoves.adjustments, if_pos rfl]
    cases hkind : x.kind with
    | create =>
      rw [hkind] at hsymbol
      rw [perShare_of_mem hsymbol, HistoryEntry.shares]
      dsimp only
      omega
    | redeem =>
      rw [hkind] at hsymbol
      rw [List.mem_singleton.mp hsymbol] at hcovered ⊢
      rw [perShare_etfSymbol, HistoryEntry.shares]
      dsimp only
      omega

/-- **Other clients** are left alone. -/
theorem frame (l : PositionLedger) (x : LedgerCall) {clientId : ℤ} (h : clientId ≠ x.clientId)
    (symbol : ℤ) :
    (l.serve x).2.etfAdjustments.get clientId symbol = l.etfAdjustments.get clientId symbol := by
  rcases l.serve_cases x with ⟨-, hadjustments, -⟩ | ⟨-, hmoves⟩
  · exact hadjustments clientId symbol
  · rw [hmoves.adjustments, if_neg h, add_zero]

/-- Of the ETF, a client has what it created without what it redeemed. -/
theorem Balanced.etf (h : l.Balanced) (client : ℤ) :
    l.etfAdjustments.get client etfSymbol =
      amounts .create (historyOf client l.history) -
        amounts .redeem (historyOf client l.history) := by
  rw [h]
  dsimp only
  rw [perShare_etfSymbol, one_mul, shares_eq]

/-- Every underlying is short what the ETF is long. -/
theorem Balanced.underlying (h : l.Balanced) (client : ℤ) {u : ℤ} (hu : u ∈ underlyingSymbols) :
    l.etfAdjustments.get client u + l.etfAdjustments.get client etfSymbol = 0 := by
  rw [h, h]
  dsimp only
  rw [perShare_of_mem hu, perShare_etfSymbol]
  omega

/-- **The history decides**: shares that were created and redeemed are as if they never were. -/
theorem Balanced.restored {l' : PositionLedger} (h : l.Balanced) (h' : l'.Balanced)
    {client amount : ℤ}
    (hhistory : historyOf client l'.history =
      historyOf client l.history ++ [⟨.create, client, amount⟩, ⟨.redeem, client, amount⟩])
    (symbol : ℤ) : l'.etfAdjustments.get client symbol = l.etfAdjustments.get client symbol := by
  have hshares : ((historyOf client l'.history).map HistoryEntry.shares).sum =
      ((historyOf client l.history).map HistoryEntry.shares).sum := by
    rw [hhistory, List.map_append, List.sum_append]
    simp [HistoryEntry.shares]
  rw [h', h]
  dsimp only
  rw [hshares]

end PositionLedger

end EtfService

open EtfService

/-- **The ETF conserves.** After any datagrams and calls, every client is short of each underlying what it
is long of the ETF, which is what it created without what it redeemed. The next call, refused, moves
nothing; it leaves other clients alone; and, served, it leaves no position that it debits below zero. A
creation and a redemption of as many shares, whatever happens between and around them, restore the
adjustments of the client. -/
theorem etf_conserves (events : List LedgerEvent) :
    let l := events.foldl PositionLedger.after .start
    (∀ client, (∀ u ∈ underlyingSymbols,
        l.etfAdjustments.get client u + l.etfAdjustments.get client etfSymbol = 0) ∧
      l.etfAdjustments.get client etfSymbol =
        amounts .create (historyOf client l.history) -
          amounts .redeem (historyOf client l.history)) ∧
    (∀ x : LedgerCall,
      let l' := (l.serve x).2
      ((l.serve x).1.1 = false →
        (∀ client symbol, l'.etfAdjustments.get client symbol =
          l.etfAdjustments.get client symbol) ∧ l'.history = l.history) ∧
      (∀ client ≠ x.clientId, ∀ symbol, l'.etfAdjustments.get client symbol =
        l.etfAdjustments.get client symbol) ∧
      ((l.serve x).1.1 = true → (l.readings x).map Prod.fst = x.kind.debited ∧
        (∀ r ∈ l.readings x, 0 ≤ r.2 + l'.etfAdjustments.get x.clientId r.1) ∧
        l'.history = l.history ++ [⟨x.kind, x.clientId, x.amount⟩])) ∧
    ∀ (events' : List LedgerEvent) (client amount : ℤ),
      let l' := events'.foldl PositionLedger.after l
      historyOf client l'.history = historyOf client l.history ++
          [⟨.create, client, amount⟩, ⟨.redeem, client, amount⟩] →
        ∀ symbol, l'.etfAdjustments.get client symbol = l.etfAdjustments.get client symbol := by
  intro l
  have hbalanced : l.Balanced := PositionLedger.balanced_start.foldl events
  refine ⟨fun client => ⟨fun u hu => hbalanced.underlying client hu, hbalanced.etf client⟩,
    fun x => ⟨fun hrefused => ?_, fun client hclient symbol => l.frame x hclient symbol,
      fun hserved => ⟨x.symbols_read _ _, PositionLedger.covered hserved, ?_⟩⟩,
    fun events' client amount hhistory symbol =>
      hbalanced.restored (hbalanced.foldl events') hhistory symbol⟩
  · rcases l.serve_cases x with ⟨-, hnothing⟩ | ⟨hserved, -⟩
    · exact hnothing
    · rw [hrefused] at hserved
      cases hserved
  · rcases l.serve_cases x with ⟨hrefused, -⟩ | ⟨-, hmoves⟩
    · rw [hserved] at hrefused
      cases hrefused
    · exact hmoves.history

/-- Client 9 buys 5 of the ETF, redeems 4, creates 3, fails to create 2 more, and redeems 3. -/
theorem etf_conserves_traded :
    let bought := LedgerEvent.datagram
      ((⟨1, 9, 13, 5, 100, Side.buy⟩ : ClearingFill).reported.encode 1)
    let redeemed := LedgerEvent.serve ⟨.redeem, 9, 4, fun _ => []⟩
    let create : LedgerCall := ⟨.create, 9, 3, fun _ => []⟩
    let more : LedgerCall := ⟨.create, 9, 2, fun _ => []⟩
    let redeem : LedgerCall := ⟨.redeem, 9, 3, fun _ => []⟩
    let before := [bought, redeemed].foldl PositionLedger.after .start
    let created := [bought, redeemed, .serve create].foldl PositionLedger.after .start
    let redeemedAll :=
      [.serve create, .serve more, .serve redeem].foldl PositionLedger.after before
    ((before.serve create).1.1 = true ∧
        ∀ r ∈ before.readings create, 0 ≤ r.2 + (before.serve create).2.etfAdjustments.get 9 r.1) ∧
      ((created.serve more).1.1 = false ∧ ∀ client symbol,
        (created.serve more).2.etfAdjustments.get client symbol =
          created.etfAdjustments.get client symbol) ∧
      ∀ symbol, redeemedAll.etfAdjustments.get 9 symbol = before.etfAdjustments.get 9 symbol := by
  intro bought redeemed create more redeem before created redeemedAll
  have hcreate : (before.serve create).1.1 = true := by decide +kernel
  have hmore : (created.serve more).1.1 = false := by decide +kernel
  have hhistory : historyOf 9 redeemedAll.history =
      historyOf 9 before.history ++ [⟨.create, 9, 3⟩, ⟨.redeem, 9, 3⟩] := by decide +kernel
  have hbefore := etf_conserves [bought, redeemed]
  have hcreated := etf_conserves [bought, redeemed, .serve create]
  rw [show [bought, redeemed].foldl PositionLedger.after .start = before from rfl] at hbefore
  rw [show [bought, redeemed, .serve create].foldl PositionLedger.after .start = created from rfl]
    at hcreated
  clear_value before created
  exact ⟨⟨hcreate, ((hbefore.2.1 create).2.2 hcreate).2.1⟩,
    ⟨hmore, ((hcreated.2.1 more).1 hmore).1⟩, hbefore.2.2 _ 9 3 hhistory⟩

end Ndfex
