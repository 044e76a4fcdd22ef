import Ndfex.Trading.System

/-!
# The orders of a client in the exchange

The exchange knows an order under an id that it gave, and the client under its own. The history of the
exchange ties the two together: each of the client's orders there is one that the server took from the
client's socket, and no two have one client id. So a modification reaches the order that the client means,
and keeps to the side that the client gave it.

## Main definitions

* `Trading.Disciplined`: the ids of the client's orders differ, and its modifications keep to their sides
* `Trading.Comes`: an event of the exchange is of another socket, or takes the client's next request
* `Trading.Placed`: the client's orders in the exchange are those that the server took

## Main results

* `Trading.Placed.step`: every event of the exchange places the client's orders
-/

namespace Ndfex

open Bots Containers Transition

namespace Trading

variable {s : Trading} {l : TradingEvent} {e : ExchangeEvent} {fd : Int32} {n : SessionName}
  {old : List Written} {q : Fifo Request}

/-! ## The requests -/

/-- A modification after the request keeps to the side of the request's order. -/
def KeepsSide (r r' : Request) : Prop :=
  ∀ m msg, r = .newOrder m → r' = .modifyOrder msg → m.orderId = msg.orderId → msg.side = m.side

/-- What the client sent since its login: orders with ids of their own, and modifications that keep to
their sides. -/
structure Disciplined (s : Trading) : Prop where
  orders : ∀ r ∈ s.requests.items, ∀ msg, r ≠ .login msg
  distinct : (s.sent.map NewOrder.orderId).Nodup
  sides : s.requests.items.Pairwise KeepsSide

theorem mem_sent {m : NewOrder} : m ∈ s.sent ↔ .newOrder m ∈ s.requests.items := by
  unfold sent
  rw [List.mem_filterMap]
  constructor
  · rintro ⟨r, hr, hm⟩
    cases r <;> cases hm
    exact hr
  · exact fun hm => ⟨_, hm, rfl⟩

namespace Disciplined

/-- The next order was not sent before. -/
theorem not_heard (hd : s.Disciplined) {m : NewOrder} (hfront : s.requests.front? = some (.newOrder m))
    {m' : NewOrder} (hm' : m' ∈ s.heard) : m'.orderId ≠ m.orderId := by
  have hsplit : s.sent = s.heard ++ m :: s.requests.pop.pending.filterMap Request.newOrder? := by
    unfold sent heard
    rw [← Fifo.taken_append_pending, Fifo.pending_of_front? hfront, List.filterMap_append]
    rfl
  have hnd := hd.distinct
  rw [hsplit, List.map_append, List.nodup_append] at hnd
  intro heq
  exact hnd.2.2 _ (List.mem_map_of_mem hm') _ (by simp) heq

/-- The next modification keeps to the sides of the orders before it. -/
theorem side_of_front (hd : s.Disciplined) {msg : ModifyOrder}
    (hfront : s.requests.front? = some (.modifyOrder msg)) {m : NewOrder} (hm : m ∈ s.heard)
    (hid : m.orderId = msg.orderId) : msg.side = m.side := by
  obtain ⟨r, hr, hm⟩ := List.mem_filterMap.mp hm
  have hnew : r = .newOrder m := by
    cases r <;> cases hm
    rfl
  have hsides := hd.sides
  rw [← Fifo.taken_append_pending, Fifo.pending_of_front? hfront] at hsides
  exact (List.pairwise_append.mp hsides).2.2 r hr _ (by simp) m msg hnew rfl hid

/-- **Every call** of an orderly client keeps the discipline. -/
theorem call (hd : s.Disciplined) {k : OeCall} (horderly : s.Orderly (.call k)) :
    (s.after fd (.call k)).Disciplined := by
  have hsent : (s.after fd (.call k)).sent =
      s.sent ++ ((s.client.request k).newOrder?).toList := by
    unfold sent
    show (s.requests.items ++ [s.client.request k]).filterMap _ = _
    rw [List.filterMap_append]
    cases k <;> rfl
  refine ⟨?_, ?_, ?_⟩
  · intro r hr msg
    rcases List.mem_append.mp hr with hr | hr
    · exact hd.orders r hr msg
    · obtain rfl := List.mem_singleton.mp hr
      cases k <;> simp [OEClient.request]
  · rw [hsent]
    cases k with
    | sendOrder symbol orderId side quantity price flags =>
      rw [List.map_append, List.nodup_append]
      -- an orderly client sends no id a second time
      refine ⟨hd.distinct, List.nodup_singleton _, ?_⟩
      rintro id hid id' hid' rfl
      obtain ⟨m, hm, rfl⟩ := List.mem_map.mp hid
      exact (horderly m hm).1 (List.mem_singleton.mp hid')
    | _ => simpa [OEClient.request, Request.newOrder?] using hd.distinct
  · refine List.pairwise_append.mpr ⟨hd.sides, List.pairwise_singleton _ _, ?_⟩
    intro r hr r' hr' m msg hnew hmodify hid
    obtain rfl := List.mem_singleton.mp hr'
    cases k with
    | modifyOrder orderId side quantity price =>
      -- the side of a modification is that of the order it names
      cases hmodify
      exact (horderly m (mem_sent.mpr (hnew ▸ hr)) hid).symm
    | _ => cases hmodify

end Disciplined

/-! ## The orders -/

/-- An event of the exchange is of another socket, or takes the client's next request; with what it leaves
of the client's requests. -/
def Comes (s : Trading) (fd : Int32) (e : ExchangeEvent) (q : Fifo Request) : Prop :=
  (e.socket? ≠ some fd ∧ q = s.requests) ∨ ∃ r now sessionId w, s.requests.front? = some r ∧
    e = r.event fd now sessionId w ∧ q = s.requests.pop

namespace Comes

theorem items (hc : s.Comes fd e q) : q.items = s.requests.items := by
  rcases hc with ⟨-, rfl⟩ | ⟨r, now, sessionId, w, -, -, rfl⟩
  · rfl
  · exact Fifo.items_pop _

theorem newOrder {msg : NewOrder} {now : UInt64} (hc : s.Comes fd (.newOrder fd msg now) q) :
    s.requests.front? = some (.newOrder msg) ∧ q = s.requests.pop := by
  rcases hc with ⟨hapart, -⟩ | ⟨r, now', sessionId, w, hfront, hevent, rfl⟩
  · exact absurd rfl hapart
  · cases r <;> cases hevent
    exact ⟨hfront, rfl⟩

theorem modifyOrder {msg : ModifyOrder} (hc : s.Comes fd (.modifyOrder fd msg) q) :
    s.requests.front? = some (.modifyOrder msg) := by
  rcases hc with ⟨hapart, -⟩ | ⟨r, now', sessionId, w, hfront, hevent, rfl⟩
  · exact absurd rfl hapart
  · cases r <;> cases hevent
    exact hfront

theorem not_login (hc : s.Comes fd e q) (hd : s.Disciplined) (msg : Login) (sessionId : UInt64)
    (w : Circumstances) : e ≠ .login fd msg sessionId w := by
  rintro rfl
  rcases hc with ⟨hapart, -⟩ | ⟨r, now', sessionId', w', hfront, hevent, rfl⟩
  · exact hapart rfl
  · cases r <;> cases hevent
    exact hd.orders _ (Fifo.mem_items_of_front? hfront) _ rfl

theorem heard_subset (hc : s.Comes fd e q) :
    s.heard ⊆ ({ s with requests := q } : Trading).heard := by
  rcases hc with ⟨-, rfl⟩ | ⟨r, now', sessionId', w', hfront, -, rfl⟩
  · exact List.Subset.refl _
  · unfold heard
    dsimp only
    rw [Fifo.taken_pop hfront, List.filterMap_append]
    exact List.subset_append_left _ _

end Comes

/-- The client's orders in the exchange: those that the server took from its socket, each once, and its
modifications keep to their sides. -/
structure Placed (s : Trading) (c : UInt32) : Prop where
  taken : ∀ x ∈ s.exchange.sessionOrders, x.clientId = c → ∃ m ∈ s.heard, m.orderId = x.orderId ∧
    m.header.clientId = c ∧
      ClientHandler.newPayload m x.exchOrderId ∈ s.exchange.handler.toMatchingEngine.items
  unique : ∀ x ∈ s.exchange.sessionOrders, ∀ x' ∈ s.exchange.sessionOrders, x.clientId = c →
    x'.clientId = c → x.orderId = x'.orderId → x.exchOrderId = x'.exchOrderId
  modified : ∀ p ∈ s.exchange.handler.toMatchingEngine.items, p.msgType = .modifyOrder →
    ∀ r ∈ s.exchange.handler.toMatchingEngine.items, BrokerRun.IsEntry r p.exchOrderId c →
      p.side = r.side

end Trading

namespace Exchange.Attended

variable {s : Exchange} {l : ExchangeEvent} {fd : Int32} {n : SessionName} {old : List Written}

/-- The session of the client is on its socket. -/
theorem sockFd_of_session (ha : s.Attended fd n old) {sockFd : Int32} {m : OrderMessage}
    (hm : s.handler.OfSession sockFd m) (hclient : m.header.clientId = n.clientId) : sockFd = fd := by
  obtain ⟨info, hinfo, hname⟩ := ClientHandler.exists_info hm
  have hagree := ha.fits.agree sockFd info hinfo
  rw [show info.clientId = m.header.clientId from congrArg SessionName.clientId hname, hclient]
    at hagree
  exact Option.some.inj (hagree.symm.trans ha.route)

/-- An order that an event enters for the client comes over the client's socket. -/
theorem sockFd_of_admits (ha : s.Attended fd n old) {x : SessionOrder} (hx : s.AdmitsAs l x)
    (hclient : x.clientId = n.clientId) : x.sockFd = fd := by
  obtain ⟨msg, -, hadm, hc, -⟩ := hx
  exact ha.sockFd_of_session (m := .newOrder msg 0) (ClientHandler.validateSession_iff.mp hadm.1)
    (hc.symm.trans hclient)

end Exchange.Attended

namespace Trading

variable {s : Trading} {e : ExchangeEvent} {fd : Int32} {n : SessionName} {old : List Written}
  {q : Fifo Request}

/-- The state in which the exchange has gone on, and the server has the requests that it has. -/
def next (s : Trading) (fd : Int32) (e : ExchangeEvent) (q : Fifo Request) : Trading :=
  { s with requests := q }.advance fd e

namespace Placed

/-- What the modifications of the client keep to, when the server takes one. -/
theorem side_of_forwards (hp : s.Placed n.clientId) (ha : s.exchange.Attended fd n old)
    (hd : s.Disciplined) (hc : s.Comes fd e q) {sockFd : Int32} {m : OrderMessage}
    (hm : e.message? = some (sockFd, m)) (hsession : s.exchange.handler.OfSession sockFd m)
    {p : OePayload} (hforwards : s.exchange.handler.Forwards m p) (hmodify : p.msgType = .modifyOrder)
    {r : OePayload} (hr : r ∈ s.exchange.handler.toMatchingEngine.items)
    (hentry : BrokerRun.IsEntry r p.exchOrderId n.clientId) : p.side = r.side := by
  obtain ⟨-, -, books, hagreed⟩ := ha.sound
  obtain ⟨x, hx, hid, -⟩ := hforwards.opened
  obtain ⟨msg, rfl, hside, -⟩ := hforwards.modifies hmodify
  -- the order is the client's own, so the request came over the client's socket
  obtain ⟨r', hr', hnew', hid', hclient', -⟩ := ha.owners.opened _ _ x hx
  have hsame := eq_of_newOrder hagreed.assigned hr hr' hentry.1 hnew'
    (hentry.2.1.trans (hid.trans hid'.symm))
  have hclient : msg.header.clientId = n.clientId := by
    rw [← hentry.2.2, hsame]
    exact hclient'.symm
  obtain rfl := ha.sockFd_of_session hsession hclient
  have hevent : e = .modifyOrder sockFd msg := by
    cases e <;> cases hm
    rfl
  subst hevent
  -- the order that the client means is the one that the history has under its id
  obtain ⟨y, hy, hyclient, hyid, hyexch⟩ := ha.fits.noted _ _ x hx
  obtain ⟨m₀, hm₀, hm₀id, -, hm₀item⟩ := hp.taken y hy (hyclient.trans hclient)
  have hentered : r = ClientHandler.newPayload m₀ y.exchOrderId :=
    eq_of_newOrder hagreed.assigned hr hm₀item hentry.1 rfl
      (hentry.2.1.trans (hid.trans hyexch.symm))
  rw [hside, hd.side_of_front hc.modifyOrder hm₀ (hm₀id.trans hyid), hentered]
  rfl

/-- **Every event of the exchange** places the client's orders. -/
theorem step (hp : s.Placed n.clientId) (ha : s.exchange.Attended fd n old) (hd : s.Disciplined)
    (hc : s.Comes fd e q) (hsound : (s.exchange.after e).Sound) :
    (s.next fd e q).Placed n.clientId := by
  obtain ⟨ps, hitems⟩ := Exchange.items_after ha.fits e
  have hmem : ∀ p ∈ s.exchange.handler.toMatchingEngine.items,
      p ∈ (s.exchange.after e).handler.toMatchingEngine.items := fun p hp =>
    hitems ▸ List.mem_append_left ps hp
  -- an order that the event enters is the client's next request
  have hentered : ∀ x, s.exchange.AdmitsAs e x → x.clientId = n.clientId →
      ∃ m, s.requests.front? = some (.newOrder m) ∧ q = s.requests.pop ∧ m.orderId = x.orderId ∧
        m.header.clientId = n.clientId ∧ ClientHandler.newPayload m x.exchOrderId ∈
          (s.exchange.after e).handler.toMatchingEngine.items := by
    intro x hx hclient
    have hsock := ha.sockFd_of_admits hx hclient
    obtain ⟨msg, rfl, hadm, hxclient, hxid⟩ := hx
    rw [hsock] at hc
    obtain ⟨hfront, hq⟩ := hc.newOrder
    refine ⟨msg, hfront, hq, hxid.symm, hxclient.symm.trans hclient, ?_⟩
    show _ ∈ (s.exchange.handler.onNewOrder x.sockFd msg x.exchOrderId).toMatchingEngine.items
    rw [ClientHandler.onNewOrder_of_admits hadm]
    exact List.mem_append_right _ (List.mem_singleton_self _)
  refine ⟨?_, ?_, ?_⟩
  · intro x hx hclient
    rcases Exchange.mem_sessionOrders_or_admits hx with hold | hadmits
    · obtain ⟨m, hm, hid, hmclient, hitem⟩ := hp.taken x hold hclient
      exact ⟨m, hc.heard_subset hm, hid, hmclient, hmem _ hitem⟩
    · obtain ⟨m, hfront, rfl, hid, hmclient, hitem⟩ := hentered x hadmits hclient
      refine ⟨m, ?_, hid, hmclient, hitem⟩
      show m ∈ s.requests.pop.taken.filterMap Request.newOrder?
      rw [Fifo.taken_pop hfront, List.filterMap_append]
      exact List.mem_append_right _ (List.mem_singleton_self m)
  · -- a new order has an id that no order before it has
    have hnew : ∀ x x', x ∈ s.exchange.sessionOrders → x.clientId = n.clientId →
        s.exchange.AdmitsAs e x' → x'.clientId = n.clientId → x.orderId ≠ x'.orderId := by
      intro x x' hx hclient hadmits hclient' heq
      obtain ⟨m, hm, hid, -, -⟩ := hp.taken x hx hclient
      obtain ⟨m', hfront, -, hid', -, -⟩ := hentered x' hadmits hclient'
      exact hd.not_heard hfront hm (hid.trans (heq.trans hid'.symm))
    intro x hx x' hx' hclient hclient' heq
    rcases Exchange.mem_sessionOrders_or_admits hx with hold | hadmits
    · rcases Exchange.mem_sessionOrders_or_admits hx' with hold' | hadmits'
      · exact hp.unique x hold x' hold' hclient hclient' heq
      · exact absurd heq (hnew x x' hold hclient hadmits' hclient')
    · rcases Exchange.mem_sessionOrders_or_admits hx' with hold' | hadmits'
      · exact absurd heq.symm (hnew x' x hold' hclient' hadmits hclient)
      · obtain ⟨msg, rfl, -⟩ := hadmits
        obtain ⟨msg', hsame, -⟩ := hadmits'
        exact (ExchangeEvent.newOrder.inj hsame).2.2
  · obtain ⟨-, -, books, hagreed⟩ := ha.sound
    obtain ⟨-, -, books', hagreed'⟩ := hsound
    intro p hpmem hmodify r hr hentry
    replace hpmem : p ∈ (s.exchange.after e).handler.toMatchingEngine.items := hpmem
    replace hr : r ∈ (s.exchange.after e).handler.toMatchingEngine.items := hr
    -- the order of an earlier modification entered before it
    have hearlier : ∀ p' ∈ s.exchange.handler.toMatchingEngine.items, p'.msgType = .modifyOrder →
        p'.exchOrderId = p.exchOrderId → r ∈ s.exchange.handler.toMatchingEngine.items := by
      intro p' hp' hmodify' hsame
      obtain ⟨xs, ys, hsplit⟩ := List.append_of_mem hp'
      obtain ⟨r', hr', hnew', hid', -⟩ := ha.owners.owned xs p' ys hsplit (Or.inr hmodify')
      have hr'mem : r' ∈ s.exchange.handler.toMatchingEngine.items := by
        rw [hsplit]
        exact List.mem_append_left _ hr'
      rw [eq_of_newOrder hagreed'.assigned hr (hmem _ hr'mem) hentry.1 hnew'
        (hentry.2.1.trans (hid'.trans hsame).symm)]
      exact hr'mem
    rcases Exchange.cancels_after ha.fits e with ⟨qs, hqs, hcancels⟩ | ⟨sockFd, m, hm, hafter⟩
    · rw [hqs] at hpmem
      rcases List.mem_append.mp hpmem with hpold | hpnew
      · exact hp.modified p hpold hmodify r (hearlier p hpold hmodify rfl) hentry
      · cases (hcancels p hpnew).1.symm.trans hmodify
    · rw [hafter] at hpmem hr
      rcases s.exchange.handler.receive_cases sockFd m with
        ⟨reason, -, hreject⟩ | ⟨hsession, ⟨p', hforwards, hforward⟩ | ⟨msg, now, -, -, hentry'⟩⟩
      · rw [hreject] at hpmem
        rcases List.mem_append.mp hpmem with hpold | hpnew
        · exact hp.modified p hpold hmodify r (hearlier p hpold hmodify rfl) hentry
        · obtain rfl := List.mem_singleton.mp hpnew
          cases hmodify
      · rw [hforward] at hpmem hr
        rcases List.mem_append.mp hpmem with hpold | hpnew
        · exact hp.modified p hpold hmodify r (hearlier p hpold hmodify rfl) hentry
        · obtain rfl := List.mem_singleton.mp hpnew
          rcases List.mem_append.mp hr with hrold | hrnew
          · exact hp.side_of_forwards ha hd hc hm hsession hforwards hmodify hrold hentry
          · obtain rfl := List.mem_singleton.mp hrnew
            rfl
      · rw [hentry'] at hpmem
        rcases List.mem_append.mp hpmem with hpold | hpnew
        · exact hp.modified p hpold hmodify r (hearlier p hpold hmodify rfl) hentry
        · obtain rfl := List.mem_singleton.mp hpnew
          cases hmodify

/-- The engine takes no modification of an order of the client to another side. -/
theorem keepsSides (hp : s.Placed n.clientId) (e : ExchangeEvent) :
    s.exchange.KeepsSides n.clientId e := by
  rintro - p hfront hmodify r hr hentry
  refine hp.modified p (Fifo.mem_items_of_front? hfront) hmodify r ?_ hentry
  rw [← Fifo.taken_append_pending]
  exact List.mem_append_left _ hr

end Placed

end Trading

end Ndfex
