import Ndfex.Wire.Packed

/-!
# Loops over the messages of a datagram

A loop goes through memory from message to message: it looks at the one at its position, and goes on by
the length that the message says. A count of what is left of the received bytes ends it. Nothing makes
the lengths add up: a length of zero has the loop look at the same message again, and one past the end
has it look at what was not received, unless the count then ends it.

## Main definitions

* `Wire.FrameLoop`, `Wire.FrameLoop.next`: a loop, and one round
* `Wire.FrameLoop.Ends`, `Wire.FrameLoop.ReadsWithin`: the loop ends, and reads what was received
* `Wire.FrameLoop.Passes`: the messages that the lengths lead to
* `Wire.FrameLoop.Sound`: what the lengths lead to is there, and the loop does not stay with it

## Main results

* `Wire.FrameLoop.Lawful.total_iff`: a loop ends and reads what was received exactly on sound bytes
* `Wire.FrameLoop.ends_iff_of_body`: a loop that is written with a body ends as the one in memory does
-/

namespace Wire

universe u v

variable {σ : Type u}

/-- A loop over messages in memory: how many bytes it reads at a position, given how many are left, and
whether what it reads elsewhere is there; its state behind the message and the message's length, if it goes
on; and what is then left. -/
structure FrameLoop (σ : Type u) where
  reads : σ → ℕ → (ℕ → UInt8) → ℕ
  elsewhere : σ → ℕ → (ℕ → UInt8) → Prop
  visit : σ → ℕ → (ℕ → UInt8) → Option (σ × ℕ)
  rest : ℕ → ℕ → ℕ

/-- Where a loop stands. -/
structure FrameWalk (σ : Type u) where
  offset : ℕ
  left : ℕ
  state : σ

/-- Memory that holds some bytes, and zeros behind them. -/
def memoryOf (bs : List UInt8) : ℕ → UInt8 := overwrite (fun _ => 0) bs

/-- Memory from an address on. -/
def fromAddress (m : ℕ → UInt8) (address : ℕ) : ℕ → UInt8 := fun i => m (address + i)

/-- A struct is read from there as at its address. -/
theorem unpack_fromAddress (m : ℕ → UInt8) (address b : ℕ) (ws : List ℕ) :
    unpack (fromAddress m address) b ws = unpack m (address + b) ws := by
  induction ws generalizing b with
  | nil => rfl
  | cons w ws ih =>
    rw [unpack, unpack, ih, field, field, Nat.add_assoc]
    congr 2
    funext i
    rw [fromAddress, Nat.add_assoc]

theorem Starts.fromAddress_eq {m : ℕ → UInt8} {address : ℕ} {bs : List UInt8} (h : Starts m address bs)
    {i : ℕ} (hi : i < bs.length) : fromAddress m address i = memoryOf bs i := by
  rw [fromAddress, h i bs[i] (List.getElem?_eq_getElem hi), memoryOf, overwrite,
    List.getElem?_eq_getElem hi, Option.getD_some]

theorem Starts.drop {m : ℕ → UInt8} {address : ℕ} {bs : List UInt8} (h : Starts m address bs) {k : ℕ}
    (hk : k ≤ bs.length) : Starts m (address + k) (bs.drop k) := by
  have hsplit : bs = bs.take k ++ bs.drop k := (List.take_append_drop k bs).symm
  rw [hsplit, starts_append, List.length_take_of_le hk] at h
  exact h.2

namespace FrameLoop

variable (L : FrameLoop σ)

/-- One round, if the loop does not end. -/
def next (m : ℕ → UInt8) (w : FrameWalk σ) : Option (FrameWalk σ) :=
  if w.left = 0 then none
  else
    (L.visit w.state w.left (fromAddress m w.offset)).map fun x =>
      ⟨w.offset + x.2, L.rest w.left x.2, x.1⟩

/-- Where the loop stands after some rounds, if it has not ended. -/
def after (m : ℕ → UInt8) (w : FrameWalk σ) : ℕ → Option (FrameWalk σ)
  | 0 => some w
  | n + 1 => (after m w n).bind (L.next m)

/-- The loop ends. -/
def Ends (m : ℕ → UInt8) (w : FrameWalk σ) : Prop := ∃ n, L.after m w n = none

/-- No round reads behind the bytes that were received. -/
def ReadsWithin (m : ℕ → UInt8) (w : FrameWalk σ) (received : ℕ) : Prop :=
  ∀ n w', L.after m w n = some w' → w'.left ≠ 0 →
    w'.offset + L.reads w'.state w'.left (fromAddress m w'.offset) ≤ received ∧
      L.elsewhere w'.state w'.left (fromAddress m w'.offset)

/-- From one state and some bytes, the lengths of the messages lead to another state and the rest. -/
inductive Passes : σ → List UInt8 → σ → List UInt8 → Prop
  | here (s : σ) (bs : List UInt8) : Passes s bs s bs
  | next {s s' t : σ} {bs rest : List UInt8} {k : ℕ} (more : bs ≠ [])
      (visit : L.visit s bs.length (memoryOf bs) = some (s', k)) (le : k ≤ bs.length)
      (passes : Passes s' (bs.drop k) t rest) : Passes s bs t rest

/-- Wherever the lengths lead, what is read is there. If the loop goes on, the message has a length, or ends
the loop when it is looked at again; and it is all there, or the count ends the loop behind it. -/
def Sound (s : σ) (bs : List UInt8) : Prop :=
  ∀ t rest, L.Passes s bs t rest → rest ≠ [] →
    (L.reads t rest.length (memoryOf rest) ≤ rest.length ∧
        L.elsewhere t rest.length (memoryOf rest)) ∧
      ∀ t' k, L.visit t rest.length (memoryOf rest) = some (t', k) →
        (k = 0 → L.visit t' rest.length (memoryOf rest) = none) ∧
          (k ≤ rest.length ∨ L.rest rest.length k = 0)

/-- A loop depends on what it reads; it looks at a message of no length again and again, if it does not end
the second time; and it counts as far as the numbers of 64 bits go. -/
structure Lawful : Prop where
  reads_congr : ∀ s left m m', (∀ i < L.reads s left m, m i = m' i) →
    L.reads s left m' = L.reads s left m
  elsewhere_congr : ∀ s left m m', (∀ i < L.reads s left m, m i = m' i) →
    (L.elsewhere s left m' ↔ L.elsewhere s left m)
  visit_congr : ∀ s left m m', (∀ i < L.reads s left m, m i = m' i) →
    L.visit s left m' = L.visit s left m
  stuck : ∀ s left m s', L.visit s left m = some (s', 0) →
    L.visit s' left m = none ∨ L.visit s' left m = some (s', 0)
  rest_of_le : ∀ left k, left < 2 ^ 64 → k ≤ left → L.rest left k = left - k

variable {L} {m : ℕ → UInt8} {w w' : FrameWalk σ} {s t : σ} {bs rest : List UInt8} {received : ℕ}

/-- The rounds behind the first one. -/
theorem after_succ (m : ℕ → UInt8) (w : FrameWalk σ) (n : ℕ) :
    L.after m w (n + 1) = (L.next m w).bind fun w' => L.after m w' n := by
  induction n with
  | zero => rw [after, after, Option.bind_some]; cases L.next m w <;> rfl
  | succ n ih =>
    rw [after, ih]
    cases L.next m w <;> rfl

theorem Ends.next (h : L.Ends m w) (hnext : L.next m w = some w') : L.Ends m w' := by
  obtain ⟨n, hn⟩ := h
  cases n with
  | zero => exact absurd hn (Option.some_ne_none w)
  | succ n =>
    rw [after_succ, hnext] at hn
    exact ⟨n, hn⟩

theorem ends_of_stop (h : L.next m w = none) : L.Ends m w :=
  ⟨1, by rw [after, after, Option.bind_some, h]⟩

theorem ends_of_next (h : ∀ w', L.next m w = some w' → L.Ends m w') : L.Ends m w := by
  cases hnext : L.next m w with
  | none => exact ends_of_stop hnext
  | some w' =>
    obtain ⟨n, hn⟩ := h w' hnext
    exact ⟨n + 1, by rw [after_succ, hnext, Option.bind_some, hn]⟩

theorem ReadsWithin.next (h : L.ReadsWithin m w received) (hnext : L.next m w = some w') :
    L.ReadsWithin m w' received := by
  intro n v hv
  exact h (n + 1) v (by rw [after_succ, hnext, Option.bind_some, hv])

theorem readsWithin_of_next (h₀ : w.left ≠ 0 →
      w.offset + L.reads w.state w.left (fromAddress m w.offset) ≤ received ∧
        L.elsewhere w.state w.left (fromAddress m w.offset))
    (h : ∀ w', L.next m w = some w' → L.ReadsWithin m w' received) : L.ReadsWithin m w received := by
  intro n v hv
  cases n with
  | zero =>
    obtain rfl : w = v := Option.some.inj hv
    exact h₀
  | succ n =>
    rw [after_succ] at hv
    cases hnext : L.next m w with
    | none =>
      rw [hnext] at hv
      exact absurd hv (by simp)
    | some w' =>
      rw [hnext] at hv
      exact h w' hnext n v hv

theorem readsWithin_of_stop (h₀ : w.left ≠ 0 →
      w.offset + L.reads w.state w.left (fromAddress m w.offset) ≤ received ∧
        L.elsewhere w.state w.left (fromAddress m w.offset))
    (h : L.next m w = none) : L.ReadsWithin m w received :=
  readsWithin_of_next h₀ fun w' hw' => absurd (h.symm.trans hw') (by simp)

/-- The loop stands at the rest of the received bytes. -/
structure At (m : ℕ → UInt8) (received : ℕ) (w : FrameWalk σ) (s : σ) (bs : List UInt8) : Prop where
  offset : w.offset + bs.length = received
  left : w.left = bs.length
  state : w.state = s
  starts : Starts m w.offset bs

/-- The bytes that the loop stands at decide what it reads, and how it goes on. -/
theorem Lawful.at_reads (hL : L.Lawful) (h : At m received w s bs)
    (hreads : L.reads s bs.length (memoryOf bs) ≤ bs.length ∨
      L.reads w.state w.left (fromAddress m w.offset) ≤ bs.length) :
    L.reads w.state w.left (fromAddress m w.offset) = L.reads s bs.length (memoryOf bs) ∧
      (L.elsewhere w.state w.left (fromAddress m w.offset) ↔ L.elsewhere s bs.length (memoryOf bs)) ∧
      L.visit w.state w.left (fromAddress m w.offset) = L.visit s bs.length (memoryOf bs) := by
  obtain ⟨-, hleft, hstate, hstarts⟩ := h
  rw [hleft, hstate] at hreads ⊢
  rcases hreads with hle | hle
  · have hagree : ∀ i < L.reads s bs.length (memoryOf bs), memoryOf bs i = fromAddress m w.offset i :=
      fun i hi => (hstarts.fromAddress_eq (Nat.lt_of_lt_of_le hi hle)).symm
    exact ⟨hL.reads_congr _ _ _ _ hagree, hL.elsewhere_congr _ _ _ _ hagree,
      hL.visit_congr _ _ _ _ hagree⟩
  · have hagree : ∀ i < L.reads s bs.length (fromAddress m w.offset),
        fromAddress m w.offset i = memoryOf bs i :=
      fun i hi => hstarts.fromAddress_eq (Nat.lt_of_lt_of_le hi hle)
    exact ⟨(hL.reads_congr _ _ _ _ hagree).symm, (hL.elsewhere_congr _ _ _ _ hagree).symm,
      (hL.visit_congr _ _ _ _ hagree).symm⟩

/-- One round from some bytes to those behind the message. -/
theorem Lawful.at_next (hL : L.Lawful) (h : At m received w s bs) (hreceived : received < 2 ^ 64)
    (hmore : bs ≠ []) {s' : σ} {k : ℕ}
    (hvisit : L.visit w.state w.left (fromAddress m w.offset) = some (s', k)) (hk : k ≤ bs.length) :
    ∃ w', L.next m w = some w' ∧ At m received w' s' (bs.drop k) := by
  have hlength : bs.length ≠ 0 := fun hnil => hmore (List.eq_nil_of_length_eq_zero hnil)
  have hoffset := h.offset
  have hlt : bs.length < 2 ^ 64 := by omega
  refine ⟨⟨w.offset + k, L.rest w.left k, s'⟩, ?_, ?_, ?_, rfl, h.starts.drop hk⟩
  · rw [next, if_neg (by rwa [h.left]), hvisit, Option.map_some]
  · rw [List.length_drop]
    dsimp only
    omega
  · rw [List.length_drop, h.left]
    exact hL.rest_of_le _ _ hlt hk

/-- A message of no length that is looked at again and again keeps the loop from ending. -/
theorem Lawful.not_ends (hL : L.Lawful) (hleft : w.left ≠ 0) (hlt : w.left < 2 ^ 64)
    (hvisit : L.visit w.state w.left (fromAddress m w.offset) = some (w.state, 0)) : ¬ L.Ends m w := by
  have hnext : L.next m w = some w := by
    rw [next, if_neg hleft, hvisit, Option.map_some, hL.rest_of_le w.left 0 hlt (Nat.zero_le _)]
    rfl
  rintro ⟨n, hn⟩
  induction n with
  | zero => exact absurd hn (Option.some_ne_none w)
  | succ n ih =>
    rw [after_succ, hnext] at hn
    exact ih hn

/-- A loop that stops where it stands ends, and reads what is there. -/
theorem Lawful.total_of_stop (hL : L.Lawful) (hat : At m received w s bs)
    (hreads : bs ≠ [] → L.reads s bs.length (memoryOf bs) ≤ bs.length ∧
      L.elsewhere s bs.length (memoryOf bs))
    (hstop : bs ≠ [] → L.visit s bs.length (memoryOf bs) = none) :
    L.Ends m w ∧ L.ReadsWithin m w received := by
  have hnone : L.next m w = none := by
    by_cases hmore : bs = []
    · rw [next, if_pos (by rw [hat.left, hmore]; rfl)]
    · rw [next, (hL.at_reads hat (.inl (hreads hmore).1)).2.2, hstop hmore, Option.map_none, ite_self]
  refine ⟨ends_of_stop hnone, readsWithin_of_stop (fun hleft => ?_) hnone⟩
  have hmore : bs ≠ [] := by
    rintro rfl
    exact hleft hat.left
  have hoffset := hat.offset
  obtain ⟨hle, helsewhere⟩ := hreads hmore
  obtain ⟨hsame, hiff, -⟩ := hL.at_reads hat (.inl hle)
  rw [hsame]
  exact ⟨by omega, hiff.mpr helsewhere⟩

/-- A loop that ends, and reads what was received, does so from every message that the lengths lead
to. -/
theorem Lawful.exists_at (hL : L.Lawful) (hreceived : received < 2 ^ 64) (hpasses : L.Passes s bs t rest)
    (hat : At m received w s bs) (hends : L.Ends m w) (hreads : L.ReadsWithin m w received) :
    ∃ w', At m received w' t rest ∧ L.Ends m w' ∧ L.ReadsWithin m w' received := by
  induction hpasses generalizing w with
  | here => exact ⟨w, hat, hends, hreads⟩
  | @next s s' t bs rest k more visit le _ ih =>
    have hoffset := hat.offset
    have hnonempty : w.left ≠ 0 := by
      rw [hat.left]
      exact fun hnil => more (List.eq_nil_of_length_eq_zero hnil)
    have hwithin := hreads 0 w rfl hnonempty
    obtain ⟨-, -, hvisit⟩ := hL.at_reads hat (.inr (by omega))
    obtain ⟨w', hnext, hat'⟩ := hL.at_next hat hreceived more (hvisit.trans visit) le
    exact ih hat' (hends.next hnext) (hreads.next hnext)

/-- On sound bytes, the loop ends and reads what was received. -/
theorem Lawful.total_of_sound (hL : L.Lawful) (hreceived : received < 2 ^ 64) (hsound : L.Sound s bs)
    (hat : At m received w s bs) : L.Ends m w ∧ L.ReadsWithin m w received := by
  induction hn : bs.length using Nat.strongRecOn generalizing w s bs with
  | ind n ih =>
    -- the induction is on the bytes that are left, and a step of no bytes is not taken twice
    by_cases hmore : bs = []
    · exact hL.total_of_stop hat (fun h => absurd hmore h) fun h => absurd hmore h
    obtain ⟨⟨hreads, helsewhere⟩, hgoes⟩ := hsound s bs (.here s bs) hmore
    obtain ⟨hsame, hiff, hvisit⟩ := hL.at_reads hat (.inl hreads)
    have hrest : ∀ w', L.next m w = some w' → L.Ends m w' ∧ L.ReadsWithin m w' received := by
      intro w' hnext
      cases hv : L.visit s bs.length (memoryOf bs) with
      | none =>
        rw [next, hvisit, hv, Option.map_none, ite_self] at hnext
        exact absurd hnext (by simp)
      | some x =>
        obtain ⟨s', k⟩ := x
        obtain ⟨hzero, hk⟩ := hgoes s' k hv
        by_cases hle : k ≤ bs.length
        · obtain ⟨w'', hnext', hat'⟩ := hL.at_next hat hreceived hmore (hvisit.trans hv) hle
          obtain rfl := Option.some.inj (hnext.symm.trans hnext')
          have hsound' : L.Sound s' (bs.drop k) := fun t rest hpasses =>
            hsound t rest (.next hmore hv hle hpasses)
          rcases Nat.eq_zero_or_pos k with rfl | hpos
          · -- the message is looked at again, and ends the loop
            rw [List.drop_zero] at hat' hsound'
            exact hL.total_of_stop hat' (fun _ => (hsound' s' bs (.here s' bs) hmore).1)
              fun _ => hzero rfl
          · refine ih _ ?_ hsound' hat' rfl
            have hlength := List.length_pos_iff.mpr hmore
            rw [List.length_drop, ← hn]
            omega
        · -- the count of what is left ends the loop
          have hleft : w.left ≠ 0 := by
            rw [hat.left]
            exact fun h => hmore (List.eq_nil_of_length_eq_zero h)
          have hend : w'.left = 0 := by
            rw [next, if_neg hleft, hvisit, hv, Option.map_some] at hnext
            rw [← Option.some.inj hnext, hat.left]
            exact hk.resolve_left hle
          have hnone : L.next m w' = none := by rw [next, if_pos hend]
          exact ⟨ends_of_stop hnone, readsWithin_of_stop (fun h => absurd hend h) hnone⟩
    refine ⟨ends_of_next fun w' h => (hrest w' h).1, readsWithin_of_next (fun _ => ?_)
      fun w' h => (hrest w' h).2⟩
    have hoffset := hat.offset
    rw [hsame]
    exact ⟨by omega, hiff.mpr helsewhere⟩

/-- **Totality.** A loop over some received bytes ends, and reads nothing behind them, exactly if they are
sound. -/
theorem Lawful.total_iff (hL : L.Lawful) (hlength : bs.length < 2 ^ 64) (hstarts : Starts m 0 bs) :
    L.Ends m ⟨0, bs.length, s⟩ ∧ L.ReadsWithin m ⟨0, bs.length, s⟩ bs.length ↔ L.Sound s bs := by
  have hstart : At m bs.length (⟨0, bs.length, s⟩ : FrameWalk σ) s bs :=
    ⟨Nat.zero_add _, rfl, rfl, hstarts⟩
  refine ⟨fun ⟨hends, hreads⟩ t rest hpasses hmore => ?_, fun h => hL.total_of_sound hlength h hstart⟩
  obtain ⟨w, hat, hends, hreads⟩ := hL.exists_at hlength hpasses hstart hends hreads
  have hoffset := hat.offset
  have hpos := List.length_pos_iff.mpr hmore
  have hleft : w.left ≠ 0 := by
    rw [hat.left]
    omega
  have hwithin := hreads 0 w rfl hleft
  obtain ⟨hsame, hiff, hvisit⟩ := hL.at_reads hat (.inr (by omega))
  refine ⟨⟨by rw [← hsame]; omega, hiff.mp hwithin.2⟩, fun t' k hv => ?_⟩
  rw [← hvisit] at hv
  constructor
  · rintro rfl
    -- the message is looked at again, and must end the loop then
    obtain ⟨w', hnext, hat'⟩ := hL.at_next hat hlength hmore hv (Nat.zero_le _)
    obtain rfl : w' = ⟨w.offset, w.left, t'⟩ := by
      rw [next, if_neg hleft, hv, Option.map_some,
        hL.rest_of_le _ 0 (by rw [hat.left]; omega) (Nat.zero_le _)] at hnext
      exact (Option.some.inj hnext).symm
    rw [List.drop_zero] at hat'
    have hwithin' := hreads.next hnext 0 _ rfl hleft
    obtain ⟨-, -, hvisit'⟩ := hL.at_reads hat' (.inr (by dsimp only at hwithin' ⊢; omega))
    rw [← hvisit']
    refine (hL.stuck _ _ _ _ hv).resolve_right fun hagain => ?_
    have hends' := hends.next hnext
    exact Lawful.not_ends hL (w := ⟨w.offset, w.left, t'⟩) hleft (by rw [hat.left]; omega) hagain hends'
  · by_contra hnot
    obtain ⟨hlong, hmoreLeft⟩ := not_or.mp hnot
    have hnext : L.next m w = some ⟨w.offset + k, L.rest w.left k, t'⟩ := by
      rw [next, if_neg hleft, hv, Option.map_some]
    -- the next message is looked for behind what was received
    have hbeyond := hreads.next hnext 0 _ rfl (by rwa [hat.left])
    dsimp only at hbeyond
    omega

/-! ### Another loop of the same rounds -/

/-- Where the body of a loop leaves it, if the loop goes on. -/
def onward {ω : Type v} : ω × Bool → Option ω
  | (v, true) => some v
  | (_, false) => none

/-- A loop that is counted in rounds ends with this one, if each of its rounds is one of this one. -/
theorem ends_iff_of_rounds {ω : Type v} (abs : ω → FrameWalk σ) (ended : ℕ → ω → Prop)
    (hzero : ∀ v, ended 0 v → L.Ends m (abs v))
    (hstop : ∀ n v, L.next m (abs v) = none → ended (n + 1) v)
    (hgo : ∀ v w', L.next m (abs v) = some w' →
      ∃ v', abs v' = w' ∧ ∀ n, ended (n + 1) v ↔ ended n v') (v : ω) :
    (∃ n, ended n v) ↔ L.Ends m (abs v) := by
  constructor
  · rintro ⟨n, hn⟩
    induction n generalizing v with
    | zero => exact hzero v hn
    | succ n ih =>
      refine ends_of_next fun w' hnext => ?_
      obtain ⟨v', rfl, hv'⟩ := hgo v w' hnext
      exact ih v' ((hv' n).mp hn)
  · rintro ⟨n, hn⟩
    induction n generalizing v with
    | zero => exact absurd hn (Option.some_ne_none _)
    | succ n ih =>
      cases hnext : L.next m (abs v) with
      | none => exact ⟨1, hstop 0 v hnext⟩
      | some w' =>
        obtain ⟨v', rfl, hv'⟩ := hgo v w' hnext
        rw [after_succ, hnext, Option.bind_some] at hn
        obtain ⟨k, hk⟩ := ih v' hn
        exact ⟨k + 1, (hv' k).mpr hk⟩

/-- A loop on a body that says whether it goes on ends with this one, if the body is a round of this one. -/
theorem ends_iff_of_body {ω : Type v} (abs : ω → FrameWalk σ) {body : ω → ω × Bool}
    {loop : ℕ → ω → Option ω} (hzero : ∀ v, loop 0 v = none)
    (hend : ∀ n v, (abs v).left = 0 → loop (n + 1) v = some v)
    (hmore : ∀ n v, (abs v).left ≠ 0 →
      loop (n + 1) v = match body v with
        | (v, true) => loop n v
        | (v, false) => some v)
    (hnext : ∀ v, (abs v).left ≠ 0 → L.next m (abs v) = (onward (body v)).map abs) (v : ω) :
    (∃ n v', loop n v = some v') ↔ L.Ends m (abs v) := by
  refine ends_iff_of_rounds abs (fun n v => ∃ v', loop n v = some v') ?_ ?_ ?_ v
  · rintro v ⟨v', hv'⟩
    rw [hzero] at hv'
    exact absurd hv' (by simp)
  · intro n v hnone
    by_cases hleft : (abs v).left = 0
    · exact ⟨v, hend n v hleft⟩
    · rw [hmore n v hleft]
      rw [hnext v hleft] at hnone
      match hbody : body v with
      | (v', true) =>
        rw [hbody] at hnone
        exact absurd hnone (by simp [onward])
      | (v', false) => exact ⟨v', rfl⟩
  · intro v w' hsome
    by_cases hleft : (abs v).left = 0
    · rw [next, if_pos hleft] at hsome
      exact absurd hsome (by simp)
    · rw [hnext v hleft] at hsome
      match hbody : body v with
      | (v', true) =>
        rw [hbody] at hsome
        exact ⟨v', Option.some.inj hsome, fun n => by rw [hmore n v hleft, hbody]⟩
      | (v', false) =>
        rw [hbody] at hsome
        exact absurd hsome (by simp [onward])

end FrameLoop

end Wire
