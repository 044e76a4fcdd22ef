import Ndfex.Protocol.MdWire
import Ndfex.Wire.FrameLoop

/-!
# Loops over market-data messages

The readers of the feed and of the snapshots go through a datagram alike: they may look at how many bytes
are left, then at the magic number and at the rest of the header, and then at the struct of some types. They
differ in which types these are, in what makes them go on, and in how they count.

## Main definitions

* `MessageLoop`, `MessageLoop.frameLoop`: such a loop, and what it is in memory

## Main results

* `MessageLoop.lawful`: it depends on the bytes that it reads
-/

namespace Ndfex

open Wire

universe u

/-- A loop over messages: the magic number that it wants, and whether it checks for a header first; the
types whose structs it looks into; whether what it then reads elsewhere is there; its state behind a message
with these fields, if it goes on; and how it counts what is left. -/
structure MessageLoop (σ : Type u) where
  magic : UInt64
  checksHeader : Bool
  looksInto : σ → ℕ → MdHeader → MdMsgType → Bool
  elsewhere : σ → MdHeader → Prop
  goesOn : σ → ℕ → MdHeader → List ℕ → Option σ
  rest : ℕ → ℕ → ℕ

/-- What is left, as a `size_t` counts it. -/
def unsignedRest (left k : ℕ) : ℕ := (UInt64.ofNat left - UInt64.ofNat k).toNat

theorem unsignedRest_of_le {left k : ℕ} (hleft : left < 2 ^ 64) (hk : k ≤ left) :
    unsignedRest left k = left - k := by
  have htoNat : ∀ n < 2 ^ 64, (UInt64.ofNat n).toNat = n := fun n hn => UInt64.toNat_ofNat_of_lt' hn
  have hle : UInt64.ofNat k ≤ UInt64.ofNat left := by
    rw [UInt64.le_iff_toNat_le, htoNat left hleft, htoNat k (Nat.lt_of_le_of_lt hk hleft)]
    exact hk
  rw [unsignedRest, UInt64.toNat_sub_of_le _ _ hle, htoNat left hleft,
    htoNat k (Nat.lt_of_le_of_lt hk hleft)]

namespace MessageLoop

variable {σ : Type u} (L : MessageLoop σ)

/-- There is no header. -/
def Short (left : ℕ) : Prop := L.checksHeader ∧ left < mdHeaderSize

instance (left : ℕ) : Decidable (L.Short left) := inferInstanceAs (Decidable (_ ∧ _))

/-- The header of a message that the loop looks at. -/
def header (left : ℕ) (m : ℕ → UInt8) : Option MdHeader :=
  if L.Short left then none
  else
    let header := MdHeader.read m 0
    if header.magicNumber ≠ L.magic then none else some header

/-- The struct that the loop looks into. -/
def struct (s : σ) (left : ℕ) (header : MdHeader) : Option MdMsgType :=
  (MdMsgType.ofByte header.msgType).filter (L.looksInto s left header)

/-- Its fields. -/
def fields (s : σ) (left : ℕ) (header : MdHeader) (m : ℕ → UInt8) : List ℕ :=
  match L.struct s left header with
  | none => []
  | some t => unpack m mdHeaderSize t.layout

/-- The loop in memory. -/
def frameLoop : FrameLoop σ where
  reads s left m :=
    match L.header left m with
    | none => if L.Short left then 0 else 8
    | some header =>
      match L.struct s left header with
      | none => mdHeaderSize
      | some t => t.size
  elsewhere s left m := ∀ header, L.header left m = some header → L.elsewhere s header
  visit s left m :=
    (L.header left m).bind fun header =>
      (L.goesOn s left header (L.fields s left header m)).map (·, header.length.toNat)
  rest := L.rest

variable {L} {s s' : σ} {left : ℕ} {m m' : ℕ → UInt8} {header : MdHeader}

theorem read_fromAddress (m : ℕ → UInt8) (address : ℕ) :
    MdHeader.read (fromAddress m address) 0 = MdHeader.read m address :=
  congrArg MdHeader.ofFields (unpack_fromAddress m address 0 mdHeaderLayout)

/-- A message that the loop does not look at ends it. -/
theorem next_of_magicNumber {w : FrameWalk σ}
    (h : L.Short w.left ∨ (MdHeader.read m w.offset).magicNumber ≠ L.magic) :
    L.frameLoop.next m w = none := by
  have hheader : L.header w.left (fromAddress m w.offset) = none := by
    rw [header]
    split_ifs with hshort
    · rfl
    · dsimp only
      rw [read_fromAddress, if_pos (h.resolve_left hshort)]
  rw [FrameLoop.next]
  simp only [frameLoop, hheader, Option.bind_none, Option.map_none, ite_self]

/-- **A round** goes on behind the message at its position. -/
theorem next_of_header {w : FrameWalk σ} (hleft : w.left ≠ 0) (hshort : ¬ L.Short w.left)
    (hmagic : (MdHeader.read m w.offset).magicNumber = L.magic) :
    L.frameLoop.next m w =
      (L.goesOn w.state w.left (MdHeader.read m w.offset)
        (L.fields w.state w.left (MdHeader.read m w.offset) (fromAddress m w.offset))).map fun s =>
          ⟨w.offset + (MdHeader.read m w.offset).length.toNat,
            L.rest w.left (MdHeader.read m w.offset).length.toNat, s⟩ := by
  have hheader : L.header w.left (fromAddress m w.offset) = some (MdHeader.read m w.offset) := by
    rw [header, if_neg hshort]
    dsimp only
    rw [read_fromAddress, if_neg (not_not.mpr hmagic)]
  rw [FrameLoop.next, if_neg hleft]
  simp only [frameLoop, hheader, Option.bind_some, Option.map_map, Function.comp_def]

theorem magicNumber_congr (h : ∀ i < 8, m i = m' i) :
    (MdHeader.read m 0).magicNumber = (MdHeader.read m' 0).magicNumber := by
  have hfield : field m 0 8 = field m' 0 8 := field_congr fun i hi => by simpa using h i hi
  exact congrArg UInt64.ofNat hfield

theorem read_congr (h : ∀ i < mdHeaderSize, m i = m' i) : MdHeader.read m 0 = MdHeader.read m' 0 :=
  congrArg MdHeader.ofFields (unpack_congr fun i hi => by simpa using h i hi)

theorem mdHeaderSize_le (s : σ) (h : L.header left m = some header) :
    mdHeaderSize ≤ L.frameLoop.reads s left m := by
  simp only [frameLoop, h]
  cases L.struct s left header with
  | none => exact Nat.le_refl _
  | some t => exact Nat.le_add_right _ _

/-- The header is the bytes that the loop reads. -/
theorem header_congr (s : σ) (h : ∀ i < L.frameLoop.reads s left m, m i = m' i) :
    L.header left m = L.header left m' := by
  by_cases hshort : L.Short left
  · rw [header, header, if_pos hshort, if_pos hshort]
  cases hheader : L.header left m with
  | some header =>
    have hsame := read_congr fun i hi => h i (Nat.lt_of_lt_of_le hi (mdHeaderSize_le s hheader))
    rw [← hheader, MessageLoop.header, MessageLoop.header, hsame]
  | none =>
    have hreads : L.frameLoop.reads s left m = 8 := by
      simp only [frameLoop, hheader, if_neg hshort]
    rw [hreads] at h
    rw [header, if_neg hshort] at hheader ⊢
    dsimp only at hheader ⊢
    rw [← magicNumber_congr h]
    split_ifs at hheader ⊢ with hmagic
    rfl

theorem fields_congr (hheader : L.header left m = some header)
    (h : ∀ i < L.frameLoop.reads s left m, m i = m' i) :
    L.fields s left header m = L.fields s left header m' := by
  unfold fields
  simp only [frameLoop, hheader] at h
  cases hstruct : L.struct s left header with
  | none => rfl
  | some t =>
    rw [hstruct] at h
    exact unpack_congr fun i hi => h _ (Nat.add_lt_add_left hi _)

theorem fields_of_looksInto {t : MdMsgType} (ht : MdMsgType.ofByte header.msgType = some t)
    (hlooks : L.looksInto s left header t = true) (m : ℕ → UInt8) (address : ℕ) :
    L.fields s left header (fromAddress m address) = unpack m (address + mdHeaderSize) t.layout := by
  rw [fields, struct, ht, Option.filter_some, if_pos hlooks]
  exact unpack_fromAddress m address mdHeaderSize t.layout

/-- **The loop depends on the bytes that it reads.** -/
theorem lawful
    (hstuck : ∀ s left header m s',
      L.goesOn s left header (L.fields s left header m) = some s' →
      L.goesOn s' left header (L.fields s' left header m) = none ∨
        L.goesOn s' left header (L.fields s' left header m) = some s')
    (hrest : ∀ left k, left < 2 ^ 64 → k ≤ left → L.rest left k = left - k) : L.frameLoop.Lawful where
  reads_congr s left m m' h := by
    have hheader := header_congr s h
    simp only [frameLoop, hheader]
  elsewhere_congr s left m m' h := by
    have hheader := header_congr s h
    simp only [frameLoop, hheader]
  visit_congr s left m m' h := by
    have hheader := header_congr s h
    simp only [frameLoop, ← hheader]
    cases hm : L.header left m with
    | none => rfl
    | some header => rw [Option.bind_some, Option.bind_some, fields_congr hm h]
  stuck s left m s' h := by
    -- a length of zero leads to the same header again
    simp only [frameLoop] at h ⊢
    cases hm : L.header left m with
    | none =>
      rw [hm] at h
      exact absurd h (by simp)
    | some header =>
      rw [hm, Option.bind_some] at h
      obtain ⟨t, ht, hlength⟩ := Option.map_eq_some_iff.mp h
      obtain ⟨rfl, hzero⟩ := Prod.mk.inj hlength
      simp only [Option.bind_some, hzero]
      rcases hstuck _ _ _ _ _ ht with hnone | hagain
      · exact Or.inl (by rw [hnone]; rfl)
      · exact Or.inr (by rw [hagain]; rfl)
  rest_of_le := hrest

end MessageLoop

end Ndfex
