import Mathlib.Data.List.Pairwise
import MenableDriver.Sgl.Block

/-!
# The three writers of an entry

An entry is three bit fields behind each other: the last flag, the word address and the
size of the page group (`putEntry`). Every writer does just that, but `me6_set_sgl_entry`
also clears the reserved bits in front of the first entry.
-/

namespace MenableDriver

set_option autoImplicit false

open BitField (Words bit put get)

/-- The first bit of an entry. -/
def entryStart (entryIdx : Nat) : Nat := 18 + entryIdx * 86

def flagBits (last : Bool) : BitVec 64 := if last then 1 else 0

def putEntry (d : Words) (entryIdx : Nat) (addr : BitVec 64) (size : BitVec 32) (last : Bool) : Words :=
  put (put (put d (entryStart entryIdx) 1 (flagBits last)) (entryStart entryIdx + 1) 62 (addr >>> 2))
    (entryStart entryIdx + 63) 23 (size.setWidth 64)

variable {d : Words} {h l s j k : Nat} {x y : BitVec 64}

theorem flagBits_bit (last : Bool) : (flagBits last).getLsbD 0 = last := by
  cases last <;> rfl

/-! ### Masks and shifts -/

theorem genmask_bit (hh : h ≤ 63) : (genmask h l).getLsbD j = decide (l ≤ j ∧ j ≤ h) := by
  simp only [genmask, BitVec.getLsbD_and, BitVec.getLsbD_ushiftRight, BitVec.getLsbD_shiftLeft,
    BitVec.getLsbD_allOnes, ← Bool.decide_and, ← decide_not]
  exact decide_eq_decide.mpr (by omega)

theorem rmsl64_bit (hh : h ≤ 63) (hj : j < 64) :
    (rmsl64 x y h l s).getLsbD j = if l + s ≤ j ∧ j ≤ h + s then y.getLsbD (j - s) else x.getLsbD j := by
  simp only [rmsl64, BitVec.getLsbD_or, BitVec.getLsbD_and, BitVec.getLsbD_not, BitVec.getLsbD_shiftLeft,
    genmask_bit hh, decide_eq_true hj, Bool.true_and]
  by_cases hs : j < s
  · rw [if_neg (by omega)]
    simp [hs]
  · by_cases hin : l + s ≤ j ∧ j ≤ h + s
    · have hm : l ≤ j - s ∧ j - s ≤ h := by omega
      simp [hs, hin, hm]
    · have hm : ¬ (l ≤ j - s ∧ j - s ≤ h) := by omega
      rw [if_neg hin, decide_eq_false hm]
      simp

theorem rmsr64_bit (hh : h ≤ 63) (hj : j < 64) :
    (rmsr64 x y h l s).getLsbD j = if l ≤ s + j ∧ s + j ≤ h then y.getLsbD (s + j) else x.getLsbD j := by
  simp only [rmsr64, BitVec.getLsbD_or, BitVec.getLsbD_and, BitVec.getLsbD_not, BitVec.getLsbD_ushiftRight,
    genmask_bit hh, decide_eq_true hj, Bool.true_and]
  by_cases hin : l ≤ s + j ∧ s + j ≤ h
  · simp [hin]
  · simp [hin]

theorem msl64_bit (hh : h ≤ 63) (hj : j < 64) :
    (msl64 x h l s).getLsbD j = if l + s ≤ j ∧ j ≤ h + s then x.getLsbD (j - s) else false := by
  have hzero : msl64 x h l s = rmsl64 0 x h l s := by simp [msl64, rmsl64]
  rw [hzero, rmsl64_bit hh hj]
  simp

theorem msr64_bit (hh : h ≤ 63) (hj : j < 64) :
    (msr64 x h l s).getLsbD j = if l ≤ s + j ∧ s + j ≤ h then x.getLsbD (s + j) else false := by
  have hzero : msr64 x h l s = rmsr64 0 x h l s := by simp [msr64, rmsr64]
  rw [hzero, rmsr64_bit hh hj]
  simp

theorem bitUll_bit {n : Nat} (hj : j < 64) : (bitUll n).getLsbD j = decide (j = n) := by
  simp only [bitUll, BitVec.getLsbD_shiftLeft, decide_eq_true hj, Bool.true_and]
  rw [BitVec.getLsbD_one]
  rw [← decide_not, ← Bool.decide_and, ← Bool.decide_and]
  exact decide_eq_decide.mpr (by omega)

theorem setLastBit_bit {n : Nat} (hj : j < 64) (last : Bool) :
    (setLastBit x last n).getLsbD j = if j = n then last else x.getLsbD j := by
  unfold setLastBit
  split
  · rename_i hl
    rw [BitVec.getLsbD_or, bitUll_bit hj, hl]
    by_cases hn : j = n <;> simp [hn]
  · rename_i hl
    rw [BitVec.getLsbD_and, BitVec.getLsbD_not, bitUll_bit hj, decide_eq_true hj, Bool.eq_false_iff.mpr hl]
    by_cases hn : j = n <;> simp [hn]

theorem putEntry_bit (d : Words) (entryIdx : Nat) (addr : BitVec 64) (size : BitVec 32)
    (last : Bool) (k : Nat) :
    bit (putEntry d entryIdx addr size last) k =
      if k = entryStart entryIdx then last
      else if entryStart entryIdx < k ∧ k < entryStart entryIdx + 63 then addr.getLsbD
        (k - entryStart entryIdx + 1)
      else if entryStart entryIdx + 63 ≤ k ∧ k < entryStart entryIdx + 86 then
        size.getLsbD (k - entryStart entryIdx - 63)
      else bit d k := by
  generalize ho : entryStart entryIdx = o
  simp only [putEntry, ho, BitField.bit_put, BitVec.getLsbD_ushiftRight, BitVec.getLsbD_setWidth]
  by_cases hk : k = o
  · subst hk
    rw [if_neg (by omega), if_neg (by omega), if_pos (by omega), if_pos rfl, Nat.sub_self, flagBits_bit]
  · rw [if_neg hk]
    by_cases ha : o < k ∧ k < o + 63
    · rw [if_neg (by omega), if_pos (by omega), if_pos ha]
      congr 1
      omega
    · rw [if_neg ha]
      by_cases hs : o + 63 ≤ k ∧ k < o + 86
      · rw [if_pos (by omega), if_pos hs, decide_eq_true (by omega), Bool.true_and, Nat.sub_sub]
      · rw [if_neg (by omega), if_neg (by omega), if_neg (by omega), if_neg hs]

/-! ### `me6_set_sgl_entry` -/

/-- The word is the one with the field put in. -/
theorem update_rmsl64 {w : Nat} (v : BitVec 64) (hh : h + s ≤ 63) (hl : l ≤ h + 1) :
    Function.update d w (rmsl64 (d w) v h l s) = put d (64 * w + (l + s)) (h + 1 - l) (v >>> l) := by
  refine BitField.put_word (by omega) fun j hj => ?_
  rw [rmsl64_bit (by omega) hj, BitVec.getLsbD_ushiftRight]
  by_cases hin : l + s ≤ j ∧ j ≤ h + s
  · rw [if_pos hin, if_pos (by omega)]
    congr 1
    omega
  · rw [if_neg hin, if_neg (by omega)]

theorem update_rmsr64 {w : Nat} (v : BitVec 64) (hh : h ≤ 63) (hs : s ≤ l) (hl : l ≤ h + 1) :
    Function.update d w (rmsr64 (d w) v h l s) = put d (64 * w + (l - s)) (h + 1 - l) (v >>> l) := by
  refine BitField.put_word (by omega) fun j hj => ?_
  rw [rmsr64_bit hh hj, BitVec.getLsbD_ushiftRight]
  by_cases hin : l ≤ s + j ∧ s + j ≤ h
  · rw [if_pos hin, if_pos (by omega)]
    congr 1
    omega
  · rw [if_neg hin, if_neg (by omega)]

theorem update_setLastBit {w n : Nat} (hn : n < 64) (last : Bool) :
    Function.update d w (setLastBit (d w) last n) = put d (64 * w + n) 1 (flagBits last) := by
  refine BitField.put_word (by omega) fun j hj => ?_
  rw [setLastBit_bit hj]
  by_cases hin : j = n
  · rw [if_pos hin, if_pos (by omega), hin, Nat.sub_self, flagBits_bit]
  · rw [if_neg hin, if_neg (by omega)]

/-- The flag and the low bits of the address. -/
theorem update_flag_rmsl64 {w n : Nat} (last : Bool) (v : BitVec 64) (hn : n < 64) (hh : h + s ≤ 63)
    (hl : l ≤ h + 1) :
    Function.update d w (rmsl64 (setLastBit (d w) last n) v h l s) =
      put (put d (64 * w + n) 1 (flagBits last)) (64 * w + (l + s)) (h + 1 - l) (v >>> l) := by
  rw [← update_rmsl64 v hh hl, ← update_setLastBit hn, Function.update_idem, Function.update_self]

/-- The high bits of the address and the size. -/
theorem update_rmsr64_rmsl64 {w h' l' s' : Nat} (a v : BitVec 64) (hh' : h' ≤ 63) (hs' : s' ≤ l')
    (hl' : l' ≤ h' + 1)
    (hh : h + s ≤ 63) (hl : l ≤ h + 1) :
    Function.update d w (rmsl64 (rmsr64 (d w) a h' l' s') v h l s) =
      put (put d (64 * w + (l' - s')) (h' + 1 - l') (a >>> l')) (64 * w + (l + s)) (h + 1 - l) (v >>> l) := by
  rw [← update_rmsl64 v hh hl, ← update_rmsr64 a hh' hs' hl', Function.update_idem, Function.update_self]

/-- A word that is full of two fields keeps nothing of what it was. -/
theorem full_word {t : Nat} (x a z : BitVec 64) (hl : l ≤ 63) (ht : t = 64 - l) (hh : h + t = 63) :
    msr64 a 63 l l ||| msl64 z h 0 t = rmsl64 (rmsr64 x a 63 l l) z h 0 t := by
  apply BitVec.eq_of_getLsbD_eq
  intro j hj
  rw [BitVec.getLsbD_or, msr64_bit (by decide) hj, msl64_bit (by omega) hj, rmsl64_bit (by omega) hj,
    rmsr64_bit (by decide) hj]
  by_cases hlow : j < t
  · rw [if_pos (by omega), if_neg (by omega), if_neg (by omega), if_pos (by omega), Bool.or_false]
  · rw [if_neg (by omega), if_pos (by omega), if_pos (by omega), Bool.false_or]

/-- The reserved bits in front of the first entry are clear. -/
def ReservedClear (d : Words) : Prop := ∀ k < 18, bit d k = false

theorem first_word (hr : ReservedClear d) (addr : BitVec 64) (last : Bool) :
    (if last then bitUll 18 else 0) ||| msl64 addr 46 2 17 = rmsl64 (setLastBit (d 0) last 18) addr
      46 2 17 := by
  apply BitVec.eq_of_getLsbD_eq
  intro j hj
  have hflag : (if last then bitUll 18 else 0).getLsbD j = (decide (j = 18) && last) := by
    cases last
    · simp
    · simp [bitUll_bit hj]
  rw [BitVec.getLsbD_or, msl64_bit (by decide) hj, rmsl64_bit (by decide) hj, setLastBit_bit hj, hflag]
  by_cases h18 : j = 18
  · subst h18
    simp
  · by_cases hlow : j < 18
    · have hclear : (d 0).getLsbD j = false := by
        rw [← BitField.bit_word hj]
        exact hr _ (by omega)
      rw [if_neg (by omega), if_neg (by omega), if_neg h18, hclear, decide_eq_false h18, Bool.false_and,
        Bool.or_false]
    · rw [if_pos (by omega), if_pos (by omega), decide_eq_false h18, Bool.false_and, Bool.false_or]

/-- Two pieces of a field, the second one where the first one ends. -/
theorem put_pieces {p n m : Nat} {v v' : BitVec 64} (hp : p = s + m) (hv : v' = v >>> m) :
    put (put d s m v) p n v' = put d s (m + n) v := by
  rw [BitField.put_add, hp, hv]

variable {b : SglBlock} {addr : BitVec 64} {size : BitVec 32} {last : Bool}

theorem me6SetSglEntry_zero (hr : ReservedClear b.data) :
    me6SetSglEntry b 0 addr size last = some { b with data := putEntry b.data 0 addr size last } := by
  simp only [me6SetSglEntry]
  rw [first_word hr, update_flag_rmsl64 last addr (by decide) (by decide) (by decide),
    update_rmsr64_rmsl64 addr _ (by decide) (by decide) (by decide) (by decide) (by decide),
    put_pieces (by decide) (BitVec.shiftRight_add addr 2 45)]
  rfl

theorem me6SetSglEntry_one :
    me6SetSglEntry b 1 addr size last = some { b with data := putEntry b.data 1 addr size last } := by
  simp only [me6SetSglEntry]
  rw [update_flag_rmsl64 last addr (by decide) (by decide) (by decide),
    update_rmsr64_rmsl64 addr _ (by decide) (by decide) (by decide) (by decide) (by decide),
    put_pieces (by decide) (BitVec.shiftRight_add addr 2 23)]
  rfl

theorem me6SetSglEntry_two :
    me6SetSglEntry b 2 addr size last = some { b with data := putEntry b.data 2 addr size last } := by
  simp only [me6SetSglEntry]
  rw [update_flag_rmsl64 last addr (by decide) (by decide) (by decide),
    full_word (put (put b.data (64 * 2 + 62) 1 (flagBits last)) (64 * 2 + (2 + (63 - 2))) (2 + 1 - 2)
      (addr >>> 2) 3)
      addr _ (by decide) (by decide) (by decide),
    update_rmsr64_rmsl64 addr _ (by decide) (by decide) (by decide) (by decide) (by decide),
    update_rmsr64 _ (by decide) (by decide) (by decide), put_pieces (by decide)
      (BitVec.shiftRight_add addr 2 1),
    put_pieces (by decide) (BitVec.shiftRight_add _ 0 3)]
  rfl

theorem me6SetSglEntry_three :
    me6SetSglEntry b 3 addr size last = some { b with data := putEntry b.data 3 addr size last } := by
  simp only [me6SetSglEntry]
  rw [update_flag_rmsl64 last addr (by decide) (by decide) (by decide),
    update_rmsr64_rmsl64 addr _ (by decide) (by decide) (by decide) (by decide) (by decide),
    put_pieces (by decide) (BitVec.shiftRight_add addr 2 43)]
  rfl

theorem me6SetSglEntry_four :
    me6SetSglEntry b 4 addr size last = some { b with data := putEntry b.data 4 addr size last } := by
  simp only [me6SetSglEntry]
  rw [update_flag_rmsl64 last addr (by decide) (by decide) (by decide),
    full_word (put (put b.data (64 * 5 + 42) 1 (flagBits last)) (64 * 5 + (2 + (43 - 2))) (22 + 1 - 2)
      (addr >>> 2) 6)
      addr _ (by decide) (by decide) (by decide),
    update_rmsr64_rmsl64 addr _ (by decide) (by decide) (by decide) (by decide) (by decide),
    put_pieces (by decide) (BitVec.shiftRight_add addr 2 21)]
  rfl

/-- The reserved bits matter for the first entry only. -/
theorem me6SetSglEntry_eq {i : Nat} (hi : i < 5) (hr : i = 0 → ReservedClear b.data) :
    me6SetSglEntry b i addr size last = some { b with data := putEntry b.data i addr size last } := by
  match i with
  | 0 => exact me6SetSglEntry_zero (hr rfl)
  | 1 => exact me6SetSglEntry_one
  | 2 => exact me6SetSglEntry_two
  | 3 => exact me6SetSglEntry_three
  | 4 => exact me6SetSglEntry_four

/-! ### `set_block_entry` -/

theorem genMask64_bit {f t : Nat} (ht : t ≤ 63) : (genMask64 f t).getLsbD j = decide (f ≤ j ∧ j ≤ t) := by
  have hshift : 64 - (t + 1) = 63 - t := by omega
  rw [genMask64, hshift]
  exact genmask_bit ht

theorem setBits64_bit {f t : Nat} (ht : t ≤ 63) (hj : j < 64) :
    (setBits64 x y f t).getLsbD j = if f ≤ j ∧ j ≤ t then y.getLsbD (j - f) else x.getLsbD j := by
  simp only [setBits64, BitVec.getLsbD_or, BitVec.getLsbD_and, BitVec.getLsbD_not, BitVec.getLsbD_shiftLeft,
    genMask64_bit ht, decide_eq_true hj, Bool.true_and]
  by_cases hin : f ≤ j ∧ j ≤ t
  · have hf : ¬ j < f := by omega
    simp [hin, hf]
  · simp [hin]

/-- The loop goes from one word to the next with what is left of the value. -/
theorem setSglBlockFieldLoop_eq {rounds start remaining i : Nat} {v : BitVec 64} (hr : remaining ≤ rounds)
    (hs : start < 64) :
    setSglBlockFieldLoop rounds d i start remaining v = put d (64 * i + start) remaining v := by
  induction rounds generalizing d start remaining i v with
  | zero =>
    obtain rfl := Nat.le_zero.mp hr
    exact (BitField.put_zero v).symm
  | succ rounds ih =>
    simp only [setSglBlockFieldLoop]
    by_cases hpos : 0 < remaining
    · rw [if_pos hpos]
      generalize hc : min remaining (64 - start) = c
      have hword : Function.update d i (setBits64 (d i) v start (start + c - 1)) =
          put d (64 * i + start) c v := by
        refine BitField.put_word (by omega) fun j hj => ?_
        rw [setBits64_bit (by omega) hj]
        by_cases hin : start ≤ j ∧ j < start + c
        · rw [if_pos hin, if_pos (by omega)]
        · rw [if_neg hin, if_neg (by omega)]
      rw [ih (by omega) (by decide), hword]
      obtain ⟨rest, hrest⟩ : ∃ rest, remaining = c + rest := ⟨remaining - c, by omega⟩
      rw [hrest, Nat.add_sub_cancel_left, BitField.put_add]
      by_cases hzero : rest = 0
      · rw [hzero, BitField.put_zero, BitField.put_zero]
      · rw [show 64 * (i + 1) + 0 = 64 * i + start + c by omega]
    · rw [if_neg hpos, Nat.eq_zero_of_not_pos hpos, BitField.put_zero]

theorem menSetSglBlockField_eq (d : Words) (start n : Nat) (v : BitVec 64) :
    menSetSglBlockField d start n v = put d start n v := by
  rw [menSetSglBlockField, setSglBlockFieldLoop_eq (Nat.le_refl n) (Nat.mod_lt _ (by decide)),
    Nat.div_add_mod]

theorem setBlockEntryDev2pc_eq (b : SglBlock) (i : Nat) (addr : BitVec 64) (size : BitVec 32) (last : Bool) :
    setBlockEntryDev2pc b i addr size last = { b with data := putEntry b.data i addr size last } := by
  simp only [setBlockEntryDev2pc, setBlockEntry, getFieldsWithValuesDev2pc, setFields, menSetSglBlockField_eq]
  rfl

/-! ### `set_sgl_block_entry` -/

/-- The value fits into `n` bits. -/
def Fits (v : BitVec 64) (n : Nat) : Prop := ∀ j, n ≤ j → v.getLsbD j = false

theorem getBits64_of_fits {v : BitVec 64} {n : Nat} (h : Fits v n) : getBits64 v n 63 = 0 := by
  apply BitVec.eq_of_getLsbD_eq
  intro j hj
  rw [getBits64, BitVec.getLsbD_ushiftRight, BitVec.getLsbD_and, h _ (Nat.le_add_right ..)]
  simp

/-- The bit too many of a chunk is shifted out or is a bit behind the value. -/
theorem chunk_bit {a e n : Nat} {v : BitVec 64} (he : e ≤ 63) (hn : e + 1 = a + n) (hn63 : n ≤ 63)
    (hv : e = 63 ∨ Fits v n) (hj : j < 64) :
    ((x &&& ~~~genMask64 a e) ||| (getBits64 v 0 n <<< a)).getLsbD j =
      if a ≤ j ∧ j < a + n then v.getLsbD (j - a) else x.getLsbD j := by
  simp only [getBits64, BitVec.getLsbD_or, BitVec.getLsbD_and, BitVec.getLsbD_not, BitVec.getLsbD_shiftLeft,
    BitVec.getLsbD_ushiftRight, genMask64_bit he, genMask64_bit hn63, decide_eq_true hj, Bool.true_and,
      Nat.zero_add]
  by_cases hin : a ≤ j ∧ j < a + n
  · have hlow : ¬ j < a := by omega
    have hmask : a ≤ j ∧ j ≤ e := by omega
    have hbit : 0 ≤ j - a ∧ j - a ≤ n := by omega
    simp [hin, hlow, hmask, hbit]
  · have hmask : ¬ (a ≤ j ∧ j ≤ e) := by omega
    rw [if_neg hin, decide_eq_false hmask]
    by_cases hlow : j < a
    · simp [hlow]
    · have hout : (v.getLsbD (j - a) && decide (0 ≤ j - a ∧ j - a ≤ n)) = false := by
        rcases hv with h63 | hfits
        · omega
        · rw [hfits _ (by omega), Bool.false_and]
      rw [hout]
      simp

theorem setBitsLoop_eq {rounds f t : Nat} {v : BitVec 64} (hr : t + 1 - f ≤ rounds) (h63 : t + 1 - f ≤ 63)
    (hv : Fits v (t + 1 - f)) : setBitsLoop rounds d f t v = put d f (t + 1 - f) v := by
  induction rounds generalizing d f v with
  | zero =>
    rw [Nat.le_zero.mp hr]
    exact (BitField.put_zero v).symm
  | succ rounds ih =>
    simp only [setBitsLoop]
    by_cases hle : f ≤ t
    · rw [if_pos hle]
      generalize he : min 63 (t - f / 64 * 64) = e
      obtain ⟨n, hn⟩ : ∃ n, e + 1 = f % 64 + n := ⟨e + 1 - f % 64, by omega⟩
      have hsub : e + 1 - f % 64 = n := by omega
      have hlast : e = 63 ∨ Fits v n := by
        by_cases h : e = 63
        · exact .inl h
        · have hall : t + 1 - f = n := by omega
          exact .inr (hall ▸ hv)
      have hword : Function.update d (f / 64) ((d (f / 64) &&& ~~~genMask64 (f % 64) e) |||
          (getBits64 v 0 n <<< (f % 64))) = put d f n v := by
        have hput := BitField.put_word (d := d) (w := f / 64) (n := n) (v := v) (by omega : f % 64 + n ≤ 64)
          fun j hj => chunk_bit (x := d (f / 64)) (by omega) hn (by omega) hlast hj
        rwa [Nat.div_add_mod] at hput
      have hrest : t + 1 - f = n + (t + 1 - (f + n)) := by omega
      have hfits : Fits (v >>> n) (t + 1 - (f + n)) := by
        intro j hj
        rw [BitVec.getLsbD_ushiftRight]
        exact hv _ (by omega)
      rw [hsub, hword, ih (by omega) (by omega) hfits, hrest, BitField.put_add]
    · rw [if_neg hle, show t + 1 - f = 0 by omega, BitField.put_zero]

theorem setBits_eq {f t n : Nat} {v : BitVec 64} (hn : t + 1 = f + n) (h63 : n ≤ 63) (hv : Fits v n) :
    setBits d f t v = put d f n v := by
  have hsub : t + 1 - f = n := by omega
  simp only [setBits, hsub]
  rw [if_neg (fun h => h (getBits64_of_fits hv)), setBitsLoop_eq (by omega) (by omega) (hsub ▸ hv), hsub]

theorem fits_ushiftRight (v : BitVec 64) (n : Nat) : Fits (v >>> n) (64 - n) := by
  intro j hj
  rw [BitVec.getLsbD_ushiftRight]
  exact BitVec.getLsbD_of_ge _ _ (by omega)

theorem fits_flagBits (last : Bool) : Fits (flagBits last) 1 := by
  intro j hj
  cases last
  · simp [flagBits]
  · have hone : flagBits true = 1#64 := rfl
    have hne : ¬ j = 0 := by omega
    rw [hone, BitVec.getLsbD_one]
    simp [hne]

theorem fits_setWidth {n : Nat} (v : BitVec n) : Fits (v.setWidth 64) n := by
  intro j hj
  rw [BitVec.getLsbD_setWidth, BitVec.getLsbD_of_ge _ _ hj, Bool.and_false]

theorem setSglBlockEntry_eq (b : SglBlock) (i : Nat) (addr : BitVec 64) {size : BitVec 32} (last : Bool)
    (hsize : Fits (size.setWidth 64) 23) :
    setSglBlockEntry b i (addr >>> 2) (size.setWidth 64) last =
      { b with data := putEntry b.data i addr size last } := by
  have hflag : Fits (if last then 1 else 0) 1 := fits_flagBits last
  simp only [setSglBlockEntry, SGL_BLOCK_FIRST_ENTRY_OFFSET, SGL_BLOCK_ENTRY_BITS, SGL_BLOCK_ENTRY_PGA_OFFSET,
    SGL_BLOCK_ENTRY_PGA_LENGTH, SGL_BLOCK_ENTRY_GRPSIZE_LENGTH]
  have hgrp : 18 + i * 86 + 1 + 62 - 1 + 1 = 18 + i * 86 + 63 := by omega
  rw [setBits_eq (by omega) (by decide) hflag, setBits_eq (by omega) (by decide)
    (fits_ushiftRight addr 2), hgrp,
    setBits_eq (by omega) (by decide) hsize]
  rfl

/-! ### The writers agree -/

/-- One entry, as the three writers get it. -/
structure SglEntry where
  idx : Fin 5
  addr : BitVec 64
  size : BitVec 23
  last : Bool

def writeMe6 (b : SglBlock) (e : SglEntry) : Option SglBlock :=
  me6SetSglEntry b e.idx e.addr (e.size.setWidth 32) e.last

def writeV2 (b : SglBlock) (e : SglEntry) : SglBlock :=
  setSglBlockEntry b e.idx (e.addr >>> 2) (e.size.setWidth 64) e.last

def writeGeneric (b : SglBlock) (e : SglEntry) : SglBlock :=
  setBlockEntryDev2pc b e.idx e.addr (e.size.setWidth 32) e.last

def writeEntry (b : SglBlock) (e : SglEntry) : SglBlock :=
  { b with data := putEntry b.data e.idx e.addr (e.size.setWidth 32) e.last }

/-- The bits of an entry. -/
def InEntry (i : Fin 5) (k : Nat) : Prop := entryStart i ≤ k ∧ k < entryStart i + 86

theorem writeV2_eq (b : SglBlock) (e : SglEntry) : writeV2 b e = writeEntry b e := by
  have hwidth : (e.size.setWidth 32).setWidth 64 = e.size.setWidth 64 := by
    have hlt := e.size.isLt
    apply BitVec.eq_of_toNat_eq
    simp only [BitVec.toNat_setWidth]
    omega
  have hfits : Fits ((e.size.setWidth 32).setWidth 64) 23 := by
    rw [hwidth]
    exact fits_setWidth e.size
  have heq := setSglBlockEntry_eq b e.idx e.addr e.last hfits
  rwa [hwidth] at heq

theorem writeGeneric_eq (b : SglBlock) (e : SglEntry) : writeGeneric b e = writeEntry b e :=
  setBlockEntryDev2pc_eq b e.idx e.addr _ e.last

theorem writeMe6_eq {b : SglBlock} (hr : ReservedClear b.data) (e : SglEntry) : writeMe6 b e =
    some (writeEntry b e) :=
  me6SetSglEntry_eq e.idx.isLt fun _ => hr

theorem writeEntry_frame (b : SglBlock) (e : SglEntry) {k : Nat} (hk : ¬ InEntry e.idx k) :
    bit (writeEntry b e).data k = bit b.data k := by
  unfold InEntry at hk
  rw [writeEntry, putEntry_bit, if_neg (by omega), if_neg (by omega), if_neg (by omega)]

/-- Inside of the entry nothing is left of what was there. -/
theorem writeEntry_inside (b b' : SglBlock) (e : SglEntry) {k : Nat} (hk : InEntry e.idx k) :
    bit (writeEntry b e).data k = bit (writeEntry b' e).data k := by
  unfold InEntry at hk
  rw [writeEntry, writeEntry, putEntry_bit, putEntry_bit]
  by_cases hflag : k = entryStart e.idx
  · rw [if_pos hflag, if_pos hflag]
  · rw [if_neg hflag, if_neg hflag]
    by_cases haddr : entryStart e.idx < k ∧ k < entryStart e.idx + 63
    · rw [if_pos haddr, if_pos haddr]
    · rw [if_neg haddr, if_neg haddr, if_pos (by omega), if_pos (by omega)]

theorem writeEntry_reserved {b : SglBlock} (hr : ReservedClear b.data) (e : SglEntry) :
    ReservedClear (writeEntry b e).data := by
  intro k hk
  rw [writeEntry_frame b e (fun h => by have := h.1; unfold entryStart at this; omega), hr k hk]

theorem writeEntry_comm (b : SglBlock) {e f : SglEntry} (h : e.idx ≠ f.idx) :
    writeEntry (writeEntry b e) f = writeEntry (writeEntry b f) e := by
  have hne : e.idx.val ≠ f.idx.val := fun heq => h (Fin.ext heq)
  have hdata : (writeEntry (writeEntry b e) f).data = (writeEntry (writeEntry b f) e).data := by
    apply BitField.ext_bit
    intro k
    by_cases hf : InEntry f.idx k
    · have he : ¬ InEntry e.idx k := by
        unfold InEntry entryStart at *
        omega
      rw [writeEntry_frame (writeEntry b f) e he]
      exact writeEntry_inside _ _ f hf
    · rw [writeEntry_frame (writeEntry b e) f hf]
      by_cases he : InEntry e.idx k
      · exact writeEntry_inside _ _ e he
      · rw [writeEntry_frame b e he, writeEntry_frame (writeEntry b f) e he, writeEntry_frame b f hf]
  exact congrArg (fun d => ({ next := b.next, data := d } : SglBlock)) hdata

/-- In every order and over every content, the three writers write the same block. -/
theorem writers_agree (b : SglBlock) (hr : ReservedClear b.data) (es : List SglEntry) :
    ∃ b', es.foldlM writeMe6 b = some b' ∧ es.foldl writeV2 b = b' ∧ es.foldl writeGeneric b = b' ∧
      b'.next = b.next ∧ (∀ k, (∀ e ∈ es, ¬ InEntry e.idx k) → bit b'.data k = bit b.data k) ∧
      (es.Pairwise (fun e f => e.idx ≠ f.idx) → ∀ fs : List SglEntry, es.Perm fs → fs.foldl writeV2 b = b') := by
  have hv2 : writeV2 = writeEntry := funext fun b => funext fun e => writeV2_eq b e
  have hgeneric : writeGeneric = writeEntry := funext fun b => funext fun e => writeGeneric_eq b e
  refine ⟨es.foldl writeEntry b, ?_, by rw [hv2], by rw [hgeneric], ?_, ?_, ?_⟩
  · induction es generalizing b with
    | nil => rfl
    | cons e es ih =>
      rw [List.foldlM_cons, writeMe6_eq hr]
      exact ih _ (writeEntry_reserved hr e)
  · clear hr
    induction es generalizing b with
    | nil => rfl
    | cons e es ih => exact ih (writeEntry b e)
  · clear hr
    intro k hk
    induction es generalizing b with
    | nil => rfl
    | cons e es ih =>
      rw [List.foldl_cons, ih _ fun f hf => hk f (List.mem_cons_of_mem _ hf),
        writeEntry_frame b e (hk e List.mem_cons_self)]
  · intro hd fs hperm
    rw [hv2]
    refine (hperm.foldl_eq' (fun e he f hf z => ?_) b).symm
    by_cases hef : e = f
    · rw [hef]
    · have hsymm : Std.Symm fun e f : SglEntry => e.idx ≠ f.idx := ⟨fun _ _ h => h.symm⟩
      exact writeEntry_comm z (hd.forall he hf hef)

theorem writers_agree_two :
    ∃ b', [⟨1, 0x1000, 0x8001, true⟩, ⟨0, 0x2004, 0x10001, false⟩].foldlM writeMe6 {} = some b' ∧
      [⟨1, 0x1000, 0x8001, true⟩, ⟨0, 0x2004, 0x10001, false⟩].foldl writeV2 {} = b' ∧
      [⟨1, 0x1000, 0x8001, true⟩, ⟨0, 0x2004, 0x10001, false⟩].foldl writeGeneric {} = b' := by
  obtain ⟨b', hme6, hv2, hgeneric, _⟩ :=
    writers_agree {} (fun k _ => by simp [bit]) [⟨1, 0x1000, 0x8001, true⟩, ⟨0, 0x2004, 0x10001, false⟩]
  exact ⟨b', hme6, hv2, hgeneric⟩

/-- With a reserved bit set, `me6_set_sgl_entry` clears it and the others keep it. -/
theorem writers_differ :
    (∀ k, InEntry 0 k → bit (fun w => if w = 0 then 1 else 0) k = false) ∧
      writeMe6 { data := fun w => if w = 0 then 1 else 0 } ⟨0, 0, 0, false⟩ ≠
        some (writeV2 { data := fun w => if w = 0 then 1 else 0 } ⟨0, 0, 0, false⟩) := by
  constructor
  · intro k hk
    have hone : ∀ j < 64, 18 ≤ j → (1 : BitVec 64).getLsbD j = false := by decide
    unfold InEntry entryStart at hk
    rw [bit]
    split
    · exact hone _ (Nat.mod_lt _ (by decide)) (by simp only [Fin.isValue, Fin.val_zero] at hk; omega)
    · exact BitVec.getLsbD_zero
  · intro heq
    have hcleared : (writeMe6 { data := fun w => if w = 0 then 1 else 0 } ⟨0, 0, 0, false⟩).map
        (fun b => bit b.data 0) = some false := by decide +kernel
    have hkept : bit (writeEntry { data := fun w => if w = 0 then 1 else 0 } ⟨0, 0, 0, false⟩).data 0 = true :=
      writeEntry_frame _ _ fun h => absurd h.1 (by decide)
    rw [heq, writeV2_eq, Option.map_some, hkept] at hcleared
    cases hcleared

end MenableDriver
