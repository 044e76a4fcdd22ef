import Mathlib.Algebra.Ring.Int.Defs
import Mathlib.Algebra.Ring.Nat
import Mathlib.Algebra.BigOperators.Group.List.Basic
import Mathlib.Data.Nat.Notation

/-!
# Packed structs

A packed struct is a sequence of unsigned numbers of some widths in bytes, the least significant byte
first and nothing between them. A struct is read off memory at an address; what lies behind the bytes
that were written there is not known.

## Main definitions

* `Wire.bytes`, `Wire.number`: a number of a width
* `Wire.pack`, `Wire.unpack`: a struct of a list of widths
* `Wire.Starts`, `Wire.overwrite`: memory begins with some bytes, which were written there
* `Wire.Encodes`: messages one behind the other

## Main results

* `Wire.number_of_starts`: a number is read as it was written
* `Wire.unpack_of_starts`: a struct is read as it was written
-/

namespace Wire

/-- The bytes of a number, the least significant one first. -/
def bytes : ℕ → ℕ → List UInt8
  | 0, _ => []
  | w + 1, n => UInt8.ofNat n :: bytes w (n / 256)

/-- The number of a width at the beginning of memory. -/
def number : ℕ → (ℕ → UInt8) → ℕ
  | 0, _ => 0
  | w + 1, m => (m 0).toNat + 256 * number w fun i => m (i + 1)

/-- The number of a width at an address. -/
def field (m : ℕ → UInt8) (address w : ℕ) : ℕ := number w fun i => m (address + i)

/-- The bytes of a struct, field by field. -/
def pack : List ℕ → List ℕ → List UInt8
  | w :: ws, n :: ns => bytes w n ++ pack ws ns
  | _, _ => []

/-- The fields of a struct at an address. -/
def unpack (m : ℕ → UInt8) : ℕ → List ℕ → List ℕ
  | _, [] => []
  | address, w :: ws => field m address w :: unpack m (address + w) ws

/-- The fields of a struct at the beginning of some bytes, if there are enough of them. -/
def unpackFrom (ws : List ℕ) (bs : List UInt8) : List ℕ := unpack (fun i => bs.getD i 0) 0 ws

/-- Memory at an address begins with some bytes. -/
def Starts (m : ℕ → UInt8) (address : ℕ) (bs : List UInt8) : Prop :=
  ∀ i b, bs[i]? = some b → m (address + i) = b

/-- Memory after some bytes were written at its beginning. -/
def overwrite (m : ℕ → UInt8) (bs : List UInt8) : ℕ → UInt8 := fun i => bs[i]?.getD (m i)

/-- The fields have their widths. -/
def Fits : List ℕ → List ℕ → Prop
  | w :: ws, n :: ns => n < 256 ^ w ∧ Fits ws ns
  | [], [] => True
  | _, _ => False

instance : DecidableRel Fits
  | [], [] => inferInstanceAs (Decidable True)
  | [], _ :: _ => inferInstanceAs (Decidable False)
  | _ :: _, [] => inferInstanceAs (Decidable False)
  | w :: ws, n :: ns =>
    have := instDecidableRelListNatFits ws ns
    inferInstanceAs (Decidable (n < 256 ^ w ∧ Fits ws ns))

variable {m m' : ℕ → UInt8} {address : ℕ} {bs bs' : List UInt8}

@[simp] theorem length_bytes (w n : ℕ) : (bytes w n).length = w := by
  induction w generalizing n with
  | zero => rfl
  | succ w ih => rw [bytes, List.length_cons, ih]

theorem length_pack {ws ns : List ℕ} (h : Fits ws ns) : (pack ws ns).length = ws.sum := by
  induction ws generalizing ns with
  | nil => cases ns with
    | nil => rfl
    | cons => exact h.elim
  | cons w ws ih => cases ns with
    | nil => exact h.elim
    | cons n ns => rw [pack, List.length_append, length_bytes, ih h.2, List.sum_cons]

theorem starts_append : Starts m address (bs ++ bs') ↔
    Starts m address bs ∧ Starts m (address + bs.length) bs' := by
  constructor
  · refine fun h => ⟨fun i b hi => h i b ?_, fun i b hi => ?_⟩
    · rw [List.getElem?_append_left (List.getElem?_eq_some_iff.mp hi).1]
      exact hi
    · rw [Nat.add_assoc]
      refine h (bs.length + i) b ?_
      rw [List.getElem?_append_right (Nat.le_add_right _ _), Nat.add_sub_cancel_left]
      exact hi
  · rintro ⟨h, h'⟩ i b hi
    by_cases hlt : i < bs.length
    · rw [List.getElem?_append_left hlt] at hi
      exact h i b hi
    · rw [List.getElem?_append_right (Nat.le_of_not_lt hlt)] at hi
      have hb := h' (i - bs.length) b hi
      rwa [Nat.add_assoc, Nat.add_sub_cancel' (Nat.le_of_not_lt hlt)] at hb

theorem starts_overwrite (m : ℕ → UInt8) (bs : List UInt8) : Starts (overwrite m bs) 0 bs := by
  intro i b hb
  rw [Nat.zero_add, overwrite, hb, Option.getD_some]

theorem starts_overwrite_append (m : ℕ → UInt8) (bs bs' : List UInt8) :
    Starts (overwrite m (bs ++ bs')) 0 bs :=
  (starts_append.mp (starts_overwrite m (bs ++ bs'))).1

/-- A number is the bytes of its width. -/
theorem field_congr {w : ℕ} (h : ∀ i < w, m (address + i) = m' (address + i)) :
    field m address w = field m' address w := by
  unfold field
  induction w generalizing address with
  | zero => rfl
  | succ w ih =>
    have hshift : ∀ m : ℕ → UInt8, (fun i => m (address + (i + 1))) = fun i => m (address + 1 + i) := by
      intro m
      funext i
      rw [Nat.add_assoc, Nat.add_comm 1]
    rw [number, number, h 0 w.succ_pos, hshift, hshift, ih]
    intro i hi
    rw [Nat.add_assoc, Nat.add_comm 1]
    exact h (i + 1) (Nat.succ_lt_succ hi)

/-- A struct is the bytes of its size. -/
theorem unpack_congr {ws : List ℕ} (h : ∀ i < ws.sum, m (address + i) = m' (address + i)) :
    unpack m address ws = unpack m' address ws := by
  induction ws generalizing address with
  | nil => rfl
  | cons w ws ih =>
    rw [List.sum_cons] at h
    rw [unpack, unpack, field_congr fun i hi => h i (Nat.lt_add_right _ hi), ih]
    intro i hi
    rw [Nat.add_assoc]
    exact h (w + i) (Nat.add_lt_add_left hi w)

/-- What lies behind the bytes that were written does not matter before it. -/
theorem overwrite_append_congr (m m' : ℕ → UInt8) (bs bs' : List UInt8) {i : ℕ} (hi : i < bs.length) :
    overwrite m (bs ++ bs') i = overwrite m' bs i := by
  rw [overwrite, overwrite, List.getElem?_append_left hi, List.getElem?_eq_getElem hi]
  rfl

/-- **A number is read as it was written.** -/
theorem field_of_starts {w n : ℕ} (h : Starts m address (bytes w n)) (hn : n < 256 ^ w) :
    field m address w = n := by
  unfold field
  induction w generalizing n address with
  | zero => exact (Nat.lt_one_iff.mp hn).symm
  | succ w ih =>
    have hfirst : m address = UInt8.ofNat n := h 0 _ rfl
    have hrest : Starts m (address + 1) (bytes w (n / 256)) := by
      intro i b hi
      rw [Nat.add_assoc, Nat.add_comm 1]
      exact h (i + 1) b hi
    have hlt : n / 256 < 256 ^ w := Nat.div_lt_of_lt_mul (by rwa [Nat.pow_succ, Nat.mul_comm] at hn)
    have hnumber := ih hrest hlt
    rw [number, Nat.add_zero, hfirst, UInt8.toNat_ofNat']
    have hshift : (fun i => m (address + (i + 1))) = fun i => m (address + 1 + i) := by
      funext i
      rw [Nat.add_assoc, Nat.add_comm 1]
    rw [hshift, hnumber]
    exact Nat.mod_add_div n 256

/-- **A struct is read as it was written.** -/
theorem unpack_of_starts {ws ns : List ℕ} (h : Starts m address (pack ws ns)) (hns : Fits ws ns) :
    unpack m address ws = ns := by
  induction ws generalizing ns address with
  | nil => cases ns with
    | nil => rfl
    | cons => exact hns.elim
  | cons w ws ih => cases ns with
    | nil => exact hns.elim
    | cons n ns =>
      obtain ⟨hn, hns⟩ := hns
      rw [pack, starts_append, length_bytes] at h
      rw [unpack, field_of_starts h.1 hn, ih h.2 hns]

theorem Fits.append {ws ws' ns ns' : List ℕ} (h : Fits ws ns) (h' : Fits ws' ns') :
    Fits (ws ++ ws') (ns ++ ns') := by
  induction ws generalizing ns with
  | nil => cases ns with
    | nil => exact h'
    | cons => exact h.elim
  | cons w ws ih => cases ns with
    | nil => exact h.elim
    | cons n ns => exact ⟨h.1, ih h.2⟩

theorem pack_append {ws ws' ns ns' : List ℕ} (h : Fits ws ns) :
    pack (ws ++ ws') (ns ++ ns') = pack ws ns ++ pack ws' ns' := by
  induction ws generalizing ns with
  | nil => cases ns with
    | nil => rfl
    | cons => exact h.elim
  | cons w ws ih => cases ns with
    | nil => exact h.elim
    | cons n ns =>
      rw [List.cons_append, List.cons_append, pack, pack, ih h.2, List.append_assoc]

/-- **A struct is unpacked** from the bytes that it begins. -/
theorem unpackFrom_append {ws ns : List ℕ} (hns : Fits ws ns) (bs : List UInt8) :
    unpackFrom ws (pack ws ns ++ bs) = ns := by
  have hstarts : Starts (fun i => (pack ws ns ++ bs).getD i 0) 0 (pack ws ns ++ bs) := by
    intro i b hb
    dsimp only
    rw [Nat.zero_add, List.getD_eq_getElem?_getD, hb, Option.getD_some]
  exact unpack_of_starts (starts_append.mp hstarts).1 hns

/-! ### Messages one behind the other -/

section Encodes

universe u v

variable {α : Type u} {τ : Type v}

/-- Bytes that encode some messages one behind the other, where `τ` is what the code of a message depends
on besides the message. -/
inductive Encodes (encode : α → τ → List UInt8) : List α → List UInt8 → Prop
  | nil : Encodes encode [] []
  | cons {as : List α} {bs : List UInt8} (a : α) (t : τ) (rest : Encodes encode as bs) :
      Encodes encode (a :: as) (encode a t ++ bs)

namespace Encodes

variable {encode : α → τ → List UInt8} {as as' : List α}

theorem append (h : Encodes encode as bs) (h' : Encodes encode as' bs') :
    Encodes encode (as ++ as') (bs ++ bs') := by
  induction h with
  | nil => exact h'
  | cons a t rest ih =>
    rw [List.cons_append, List.append_assoc]
    exact .cons a t ih

theorem snoc (h : Encodes encode as bs) (a : α) (t : τ) :
    Encodes encode (as ++ [a]) (bs ++ encode a t) := by
  have hsingle : Encodes encode [a] (encode a t ++ []) := .cons a t .nil
  rw [List.append_nil] at hsingle
  exact h.append hsingle

theorem flatMap (as : List α) (t : τ) : Encodes encode as (as.flatMap fun a => encode a t) := by
  induction as with
  | nil => exact .nil
  | cons a as ih => exact .cons a t ih

theorem length_eq {size : α → ℕ} (hsize : ∀ a t, (encode a t).length = size a)
    (h : Encodes encode as bs) : bs.length = (as.map size).sum := by
  induction h with
  | nil => rfl
  | cons a t rest ih => rw [List.length_append, hsize, ih, List.map_cons, List.sum_cons]

end Encodes

end Encodes

end Wire
