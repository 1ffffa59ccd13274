import Mathlib.Data.List.GetD
import Mathlib.Logic.Function.Iterate

/-!
# Cyclic redundancy checks

A reflected CRC is a shift register that takes one bit of the message at a time, at its low
end. Symbols of several bits can be taken at once with a table of what the register becomes
for each of them.
-/

set_option autoImplicit false

namespace Crc

variable {w m : Nat} {poly : BitVec w}

/-- One shift; the bit that falls out decides whether the polynomial is added. -/
def shift (poly reg : BitVec w) : BitVec w :=
  (reg >>> 1) ^^^ (if reg.getLsbD 0 then poly else 0)

def step (poly reg : BitVec w) (b : Bool) : BitVec w := shift poly (reg ^^^ (BitVec.ofBool b).setWidth w)

/-- The register after the bits of a message, the first one first. -/
def run (poly : BitVec w) (bits : List Bool) (reg : BitVec w) : BitVec w := bits.foldl (step poly) reg

/-- The bits of a symbol, the lowest one first. -/
def bitsOf (p : BitVec m) : List Bool := (List.range m).map p.getLsbD

/-- What the register becomes when it holds a symbol and nothing else. -/
def tableEntry (poly : BitVec w) (p : BitVec m) : BitVec w := (shift poly)^[m] (p.setWidth w)

/-- A whole symbol at a time. -/
def symbolStep (table : BitVec m → BitVec w) (reg : BitVec w) (p : BitVec m) : BitVec w :=
  (reg >>> m) ^^^ table (reg.setWidth m ^^^ p)

theorem run_append (xs ys : List Bool) (reg : BitVec w) :
    run poly (xs ++ ys) reg = run poly ys (run poly xs reg) := List.foldl_append

/-! ### The shift is linear -/

theorem shift_xor (a b : BitVec w) : shift poly (a ^^^ b) = shift poly a ^^^ shift poly b := by
  have hadd : (if (a ^^^ b).getLsbD 0 then poly else 0) =
      (if a.getLsbD 0 then poly else 0) ^^^ (if b.getLsbD 0 then poly else 0) := by
    rw [BitVec.getLsbD_xor]
    cases a.getLsbD 0 <;> cases b.getLsbD 0 <;> simp
  rw [shift, shift, shift, hadd, BitVec.ushiftRight_xor_distrib]
  ac_rfl

theorem shift_iterate_xor (n : Nat) (a b : BitVec w) :
    (shift poly)^[n] (a ^^^ b) = (shift poly)^[n] a ^^^ (shift poly)^[n] b := by
  induction n generalizing a b with
  | zero => rfl
  | succ n ih => rw [Function.iterate_succ_apply, shift_xor, ih, Function.iterate_succ_apply,
      Function.iterate_succ_apply]

/-- A register whose low bit is clear is only moved down. -/
theorem shift_of_even {a : BitVec w} (h : a.getLsbD 0 = false) : shift poly a = a >>> 1 := by
  rw [shift, h, if_neg Bool.false_ne_true]
  exact BitVec.xor_zero

/-- Bits above the ones that are shifted out come down unchanged. -/
theorem shift_iterate_shiftLeft (n : Nat) {a : BitVec w} (h : ∀ i, w ≤ n + i → a.getLsbD i = false) :
    (shift poly)^[n] (a <<< n) = a := by
  induction n with
  | zero => exact BitVec.shiftLeft_zero a
  | succ n ih =>
    have heven : (a <<< (n + 1)).getLsbD 0 = false := by simp
    have hdown : (a <<< (n + 1)) >>> 1 = a <<< n := by
      apply BitVec.eq_of_getLsbD_eq
      intro i hi
      rw [BitVec.getLsbD_ushiftRight, BitVec.getLsbD_shiftLeft, BitVec.getLsbD_shiftLeft]
      by_cases htop : 1 + i < w
      · have hlow : (1 + i < n + 1) = (i < n) := by rw [Nat.add_comm 1 i, Nat.add_lt_add_iff_right]
        simp only [htop, hi, hlow, show 1 + i - (n + 1) = i - n by omega]
      · rw [h (1 + i - (n + 1)) (by omega), h (i - n) (by omega), Bool.and_false, Bool.and_false]
    rw [Function.iterate_succ_apply, shift_of_even heven, hdown]
    exact ih fun i hi => h i (by omega)

/-! ### Bits of a message -/

/-- The register that is the bits, the first one lowest. -/
def pack (w : Nat) : List Bool → BitVec w
  | [] => 0
  | b :: bits => (BitVec.ofBool b).setWidth w ^^^ (pack w bits <<< 1)

theorem pack_getLsbD (bits : List Bool) (i : Nat) (hi : i < w) :
    (pack w bits).getLsbD i = bits.getD i false := by
  induction bits generalizing i with
  | nil => simp [pack]
  | cons b bits ih =>
    rw [pack, BitVec.getLsbD_xor, BitVec.getLsbD_shiftLeft]
    cases i with
    | zero => simp [hi]
    | succ i => simp [hi, ih i (by omega)]

theorem pack_bitsOf (p : BitVec m) : pack w (bitsOf p) = p.setWidth w := by
  apply BitVec.eq_of_getLsbD_eq
  intro i hi
  rw [pack_getLsbD _ i hi, bitsOf]
  by_cases him : i < m
  · simp [him, hi]
  · simp [him, BitVec.getLsbD_of_ge p i (by omega)]

/-- Bits that go in one after the other may as well be in the register before it is shifted. -/
theorem run_eq_iterate (bits : List Bool) (h : bits.length ≤ w) (reg : BitVec w) :
    run poly bits reg = (shift poly)^[bits.length] (reg ^^^ pack w bits) := by
  induction bits generalizing reg with
  | nil => exact BitVec.xor_zero.symm
  | cons b bits ih =>
    rw [List.length_cons] at h
    have hmove : shift poly (pack w bits <<< 1) = pack w bits := by
      refine shift_iterate_shiftLeft 1 fun i hi => ?_
      by_cases hiw : i < w
      · rw [pack_getLsbD bits i hiw]
        exact List.getD_eq_default _ _ (by omega)
      · exact BitVec.getLsbD_of_ge _ _ (by omega)
    calc run poly (b :: bits) reg
        = run poly bits (step poly reg b) := rfl
      _ = (shift poly)^[bits.length] (step poly reg b ^^^ pack w bits) := ih (by omega) _
      _ = (shift poly)^[bits.length] (shift poly (reg ^^^ pack w (b :: bits))) := by
          rw [pack, ← BitVec.xor_assoc, shift_xor, hmove, step]
      _ = (shift poly)^[(b :: bits).length] (reg ^^^ pack w (b :: bits)) := by
          rw [List.length_cons, Function.iterate_succ_apply]

/-! ### Symbols -/

/-- A register is what stays in it and the symbol that leaves it. -/
theorem split_symbol (reg : BitVec w) (p : BitVec m) :
    reg ^^^ p.setWidth w = ((reg >>> m) <<< m) ^^^ ((reg.setWidth m ^^^ p).setWidth w) := by
  apply BitVec.eq_of_getLsbD_eq
  intro i hi
  by_cases him : i < m
  · simp [hi, him]
  · simp [hi, him, BitVec.getLsbD_of_ge p i (by omega), show m + (i - m) = i by omega]

/-- A symbol can be taken with one look into the table. -/
theorem run_bitsOf (hm : m ≤ w) (reg : BitVec w) (p : BitVec m) :
    run poly (bitsOf p) reg = symbolStep (tableEntry poly) reg p := by
  have hlength : (bitsOf p).length = m := by rw [bitsOf, List.length_map, List.length_range]
  have hstays : (shift poly)^[m] ((reg >>> m) <<< m) = reg >>> m := by
    refine shift_iterate_shiftLeft m fun i hi => ?_
    rw [BitVec.getLsbD_ushiftRight]
    exact BitVec.getLsbD_of_ge _ _ hi
  rw [run_eq_iterate _ (by rw [hlength]; exact hm), hlength, pack_bitsOf, split_symbol, shift_iterate_xor,
    hstays, symbolStep, tableEntry]

/-- The CRC of a message by the table is the one bit by bit. -/
theorem foldl_symbolStep (hm : m ≤ w) {table : BitVec m → BitVec w}
    (htable : ∀ p, table p = tableEntry poly p) (symbols : List (BitVec m)) (reg : BitVec w) :
    symbols.foldl (symbolStep table) reg = run poly (symbols.flatMap bitsOf) reg := by
  have heq : table = tableEntry poly := funext htable
  subst heq
  induction symbols generalizing reg with
  | nil => rfl
  | cons p symbols ih =>
    rw [List.foldl_cons, List.flatMap_cons, run_append, run_bitsOf hm, ih]

end Crc
