import Mathlib.Algebra.Order.Ring.Int
import Mathlib.Data.List.Basic
import Mathlib.Data.List.GetD
import Mathlib.Data.List.Induction
import Mathlib.Logic.Function.Basic

/-!
# Bit fields in a memory of words

The bits of a memory of 64-bit words are numbered through. A field is `n` bits from the bit
`s` on, and may lie in several words. `put` writes a field and `get` reads it. A record is
fields one behind the other, and the slots of an array are records of one width.
-/

namespace BitField

set_option autoImplicit false

/-- The word with the given bits. -/
def ofBits (f : Nat → Bool) (n : Nat) : BitVec n := (BitVec.ofBoolListLE ((List.range n).map f)).setWidth n

theorem getLsbD_ofBits (f : Nat → Bool) (n i : Nat) : (ofBits f n).getLsbD i = (decide (i < n) && f i) := by
  rw [ofBits, BitVec.getLsbD_setWidth, BitVec.getLsbD_ofBoolListLE]
  by_cases hi : i < n
  · rw [List.getD_eq_getElem _ _ (by simpa using hi)]
    simp [hi]
  · simp [hi]

abbrev Words := Nat → BitVec 64

def bit (d : Words) (k : Nat) : Bool := (d (k / 64)).getLsbD (k % 64)

variable {d d' : Words} {s n k : Nat}

theorem bit_word {w j : Nat} (hj : j < 64) : bit d (64 * w + j) = (d w).getLsbD j := by
  have hdiv : (64 * w + j) / 64 = w := by omega
  have hmod : (64 * w + j) % 64 = j := by omega
  rw [bit, hdiv, hmod]

/-- A memory is its bits. -/
theorem ext_bit (h : ∀ k, bit d k = bit d' k) : d = d' := by
  funext w
  apply BitVec.eq_of_getLsbD_eq
  intro j hj
  rw [← bit_word hj, ← bit_word hj]
  exact h _

/-- Writes the low `n` bits of `v`. -/
def put (d : Words) (s n : Nat) (v : BitVec 64) : Words := fun w =>
  ofBits (fun j => if s ≤ 64 * w + j ∧ 64 * w + j < s + n then v.getLsbD (64 * w + j - s) else bit d
    (64 * w + j)) 64

theorem bit_put (v : BitVec 64) :
    bit (put d s n v) k = if s ≤ k ∧ k < s + n then v.getLsbD (k - s) else bit d k := by
  have hk : 64 * (k / 64) + k % 64 = k := Nat.div_add_mod k 64
  have hlt : k % 64 < 64 := Nat.mod_lt _ (by decide)
  rw [bit, put, getLsbD_ofBits, hk, decide_eq_true hlt, Bool.true_and]

/-- A field may be written piece by piece. -/
theorem put_add (m : Nat) (v : BitVec 64) :
    put d s (m + n) v = put (put d s m v) (s + m) n (v >>> m) := by
  apply ext_bit
  intro k
  simp only [bit_put, BitVec.getLsbD_ushiftRight]
  split_ifs <;> first | rfl | omega | (congr 1; omega)

theorem put_zero (v : BitVec 64) : put d s 0 v = d := by
  apply ext_bit
  intro k
  rw [bit_put, if_neg (by omega)]

/-- A word inside of which the field lies. -/
theorem put_word {w a : Nat} {x v : BitVec 64} (hn : a + n ≤ 64)
    (hx : ∀ j < 64, x.getLsbD j = if a ≤ j ∧ j < a + n then v.getLsbD (j - a) else (d w).getLsbD j) :
    Function.update d w x = put d (64 * w + a) n v := by
  apply ext_bit
  intro k
  have hlt : k % 64 < 64 := Nat.mod_lt _ (by decide)
  rw [bit_put, bit]
  by_cases hw : k / 64 = w
  · have hk : k = 64 * w + k % 64 := by omega
    have hbit : bit d k = (d w).getLsbD (k % 64) := by rw [bit, hw]
    rw [hw, Function.update_self, hx _ hlt, hbit]
    split_ifs <;> first | rfl | omega | (congr 1; omega)
  · rw [Function.update_of_ne hw, if_neg (by omega), bit]

def get (d : Words) (s n : Nat) : BitVec n := ofBits (fun i => bit d (s + i)) n

theorem get_congr (h : ∀ i < n, bit d (s + i) = bit d' (s + i)) : get d s n = get d' s n := by
  apply BitVec.eq_of_getLsbD_eq
  intro i hi
  rw [get, get, getLsbD_ofBits, getLsbD_ofBits, h i hi]

theorem get_put_self (v : BitVec 64) : get (put d s n v) s n = v.setWidth n := by
  apply BitVec.eq_of_getLsbD_eq
  intro i hi
  rw [get, getLsbD_ofBits, bit_put, if_pos (by omega), Nat.add_sub_cancel_left, BitVec.getLsbD_setWidth]

/-- Disjoint fields do not see each other. -/
theorem get_put_disjoint {t m : Nat} (v : BitVec 64) (h : t + m ≤ s ∨ s + n ≤ t) :
    get (put d s n v) t m = get d t m := by
  apply get_congr
  intro i hi
  rw [bit_put, if_neg (by omega)]

/-! ### Records -/

/-- Writes the fields, each its width and its value, from the bit `s` on. -/
def putFields (d : Words) (s : Nat) : List (Nat × BitVec 64) → Words
  | [] => d
  | (n, v) :: fields => putFields (put d s n v) (s + n) fields

/-- Reads fields of the given widths as numbers. -/
def getFields (d : Words) (s : Nat) : List Nat → List Nat
  | [] => []
  | n :: widths => (get d s n).toNat :: getFields d (s + n) widths

/-- What of the values has room in the fields. -/
def truncated (fields : List (Nat × BitVec 64)) : List Nat := fields.map fun f => f.2.toNat % 2 ^ f.1

theorem bit_putFields (fields : List (Nat × BitVec 64)) (h : k < s ∨ s + (fields.map Prod.fst).sum ≤ k) :
    bit (putFields d s fields) k = bit d k := by
  induction fields generalizing d s with
  | nil => rfl
  | cons f fields ih =>
    rw [List.map_cons, List.sum_cons] at h
    rw [putFields, ih (by omega), bit_put, if_neg (by omega)]

theorem getFields_congr (widths : List Nat) (h : ∀ k, s ≤ k → k < s + widths.sum → bit d k = bit d' k) :
    getFields d s widths = getFields d' s widths := by
  induction widths generalizing s with
  | nil => rfl
  | cons n widths ih =>
    rw [List.sum_cons] at h
    have hfirst : get d s n = get d' s n := get_congr fun i hi => h _ (by omega) (by omega)
    rw [getFields, getFields, hfirst, ih fun k hlow hhigh => h k (by omega) (by omega)]

theorem getFields_putFields (fields : List (Nat × BitVec 64)) :
    getFields (putFields d s fields) s (fields.map Prod.fst) = truncated fields := by
  induction fields generalizing d s with
  | nil => rfl
  | cons f fields ih =>
    have hfirst : get (putFields d s (f :: fields)) s f.1 = f.2.setWidth f.1 := by
      rw [← @get_put_self d s f.1 f.2]
      apply get_congr
      intro i hi
      rw [putFields]
      exact bit_putFields fields (.inl (by omega))
    rw [List.map_cons, getFields, hfirst, BitVec.toNat_setWidth, putFields, ih]
    rfl

/-! ### Arrays of records -/

/-- A record that is written to a slot. -/
structure SlotWrite (widths : List Nat) where
  slot : Nat
  fields : List (Nat × BitVec 64)
  widths_eq : fields.map Prod.fst = widths

variable {widths : List Nat}

/-- The bits of a slot, when the first one starts at the bit `s`. -/
def InSlot (s : Nat) (widths : List Nat) (slot k : Nat) : Prop :=
  s + slot * widths.sum ≤ k ∧ k < s + (slot + 1) * widths.sum

def SlotWrite.apply (s : Nat) (d : Words) (w : SlotWrite widths) : Words :=
  putFields d (s + w.slot * widths.sum) w.fields

def putSlots (d : Words) (s : Nat) (writes : List (SlotWrite widths)) : Words :=
  writes.foldl (SlotWrite.apply s) d

def getSlot (d : Words) (s : Nat) (widths : List Nat) (slot : Nat) : List Nat :=
  getFields d (s + slot * widths.sum) widths

/-- The write to a slot that none follows. -/
def lastWrite (writes : List (SlotWrite widths)) (slot : Nat) : Option (SlotWrite widths) :=
  writes.reverse.find? fun w => w.slot = slot

theorem InSlot.unique {i j : Nat} (hi : InSlot s widths i k) (hj : InSlot s widths j k) : i = j := by
  obtain ⟨hi₁, hi₂⟩ := hi
  obtain ⟨hj₁, hj₂⟩ := hj
  rcases Nat.lt_trichotomy i j with h | h | h
  · have hle : (i + 1) * widths.sum ≤ j * widths.sum := Nat.mul_le_mul_right _ h
    omega
  · exact h
  · have hle : (j + 1) * widths.sum ≤ i * widths.sum := Nat.mul_le_mul_right _ h
    omega

theorem SlotWrite.bit_apply (w : SlotWrite widths) (h : ¬ InSlot s widths w.slot k) :
    bit (w.apply s d) k = bit d k := by
  refine bit_putFields w.fields ?_
  rw [w.widths_eq]
  rw [InSlot, Nat.succ_mul] at h
  omega

theorem SlotWrite.getSlot_apply (w : SlotWrite widths) :
    getSlot (w.apply s d) s widths w.slot = truncated w.fields := by
  have hread := @getFields_putFields d (s + w.slot * widths.sum) w.fields
  rw [w.widths_eq] at hread
  exact hread

/-- Only the slots that are written change. -/
theorem bit_putSlots (writes : List (SlotWrite widths)) (h : ∀ w ∈ writes, ¬ InSlot s widths w.slot k) :
    bit (putSlots d s writes) k = bit d k := by
  induction writes generalizing d with
  | nil => rfl
  | cons w writes ih =>
    calc bit (putSlots d s (w :: writes)) k
        = bit (putSlots (w.apply s d) s writes) k := rfl
      _ = bit (w.apply s d) k := ih fun w' hw' => h w' (List.mem_cons_of_mem _ hw')
      _ = bit d k := w.bit_apply (h w List.mem_cons_self)

/-- A slot holds the values of the last write to it. -/
theorem getSlot_putSlots (writes : List (SlotWrite widths)) (slot : Nat) :
    getSlot (putSlots d s writes) s widths slot =
      match lastWrite writes slot with
      | some w => truncated w.fields
      | none => getSlot d s widths slot := by
  induction writes using List.reverseRecOn with
  | nil => rfl
  | append_singleton writes w ih =>
    have hstep : putSlots d s (writes ++ [w]) = w.apply s (putSlots d s writes) := by
      rw [putSlots, List.foldl_concat]
      rfl
    have hlast : lastWrite (writes ++ [w]) slot =
        if w.slot = slot then some w else lastWrite writes slot := by
      rw [lastWrite, List.reverse_concat, List.find?_cons]
      by_cases h : w.slot = slot <;> simp [h, lastWrite]
    rw [hstep, hlast]
    by_cases h : w.slot = slot
    · rw [if_pos h, ← h]
      exact w.getSlot_apply
    · rw [if_neg h, ← ih, getSlot, getSlot]
      refine getFields_congr widths fun k hlow hhigh => w.bit_apply fun hin => h ?_
      exact hin.unique ⟨hlow, by rw [Nat.succ_mul]; omega⟩

end BitField
