import Mathlib.Algebra.Order.Ring.Int
import Mathlib.Data.List.Range
import Mathlib.Logic.Function.Basic

/-!
# Registers of equal lanes

A register is cut into lanes of `m` bits. It is written as the or of one contribution for each
index, and the lane of an index may be any injective function of it.
-/

namespace Packed

set_option autoImplicit false

variable {w m n : Nat}

/-- The or of the contributions of the indices below `n`. -/
def orAll (n : Nat) (f : Nat → BitVec w) : BitVec w := (List.range n).foldl (fun r i => r ||| f i) 0

theorem orAll_zero (f : Nat → BitVec w) : orAll 0 f = 0 := rfl

theorem orAll_succ (f : Nat → BitVec w) : orAll (n + 1) f = orAll n f ||| f n := by
  simp only [orAll, List.range_succ, List.foldl_append, List.foldl_cons, List.foldl_nil]

theorem orAll_or (f g : Nat → BitVec w) : orAll n (fun i => f i ||| g i) = orAll n f ||| orAll n g := by
  induction n with
  | zero => simp [orAll_zero]
  | succ n ih =>
    rw [orAll_succ, orAll_succ, orAll_succ, ih]
    ac_rfl

theorem orAll_eq_zero {f : Nat → BitVec w} (h : ∀ i < n, f i = 0) : orAll n f = 0 := by
  induction n with
  | zero => rfl
  | succ n ih => rw [orAll_succ, ih (fun i hi => h i (by omega)), h n (by omega)]; simp

/-- Only one index contributes. -/
theorem orAll_single {f : Nat → BitVec w} {i : Nat} (hi : i < n) (h : ∀ j < n, j ≠ i → f j = 0) :
    orAll n f = f i := by
  induction n with
  | zero => omega
  | succ n ih =>
    rw [orAll_succ]
    rcases Nat.lt_or_ge i n with hin | hin
    · rw [ih hin (fun j hj => h j (by omega)), h n (by omega) (by omega)]
      simp
    · have hin : i = n := by omega
      rw [orAll_eq_zero (fun j hj => h j (by omega) (by omega)), hin]
      simp

/-- The lane `j` of a register. -/
def lane (m j : Nat) (x : BitVec w) : BitVec m := x.extractLsb' (m * j) m

theorem getLsbD_lane (j k : Nat) (x : BitVec w) :
    (lane m j x).getLsbD k = (decide (k < m) && x.getLsbD (m * j + k)) := by
  rw [lane, BitVec.getLsbD_extractLsb']

theorem lane_or (j : Nat) (x y : BitVec w) : lane m j (x ||| y) = lane m j x ||| lane m j y := by
  apply BitVec.eq_of_getLsbD_eq
  intro k hk
  simp only [BitVec.getLsbD_or, getLsbD_lane, hk, decide_true, Bool.true_and]

theorem lane_zero (j : Nat) : lane m j (0 : BitVec w) = 0 := by
  apply BitVec.eq_of_getLsbD_eq
  intro k hk
  simp [getLsbD_lane]

theorem lane_orAll (j : Nat) (f : Nat → BitVec w) : lane m j (orAll n f) =
    orAll n (fun i => lane m j (f i)) := by
  induction n with
  | zero => exact lane_zero j
  | succ n ih => rw [orAll_succ, orAll_succ, lane_or, ih]

/-- A value that fits into a lane, shifted to the lane `i`, is that lane. -/
theorem lane_shiftLeft {v : BitVec w} {i j : Nat} (hv : v.toNat < 2 ^ m) (hj : m * (j + 1) ≤ w) :
    lane m j (v <<< (m * i)) = if i = j then v.setWidth m else 0 := by
  have hbit : ∀ k, m ≤ k → v.getLsbD k = false :=
    fun k hk => Nat.testBit_lt_two_pow (lt_of_lt_of_le hv (Nat.pow_le_pow_right (by decide) hk))
  rw [Nat.mul_succ] at hj
  apply BitVec.eq_of_getLsbD_eq
  intro k hk
  rw [getLsbD_lane, BitVec.getLsbD_shiftLeft]
  rcases Nat.lt_trichotomy i j with hij | hij | hij
  · -- the lane lies above the value
    have hle : m * (i + 1) ≤ m * j := Nat.mul_le_mul_left m hij
    rw [Nat.mul_succ] at hle
    rw [if_neg (by omega), hbit _ (by omega)]
    simp
  · subst hij
    have hsub : m * i + k - m * i = k := by omega
    rw [if_pos rfl, hsub, BitVec.getLsbD_setWidth]
    simp [hk, show m * i + k < w by omega]
  · -- the lane lies below the shift
    have hle : m * (j + 1) ≤ m * i := Nat.mul_le_mul_left m hij
    rw [Nat.mul_succ] at hle
    rw [if_neg (by omega)]
    simp [show m * j + k < m * i by omega]

/-- The lane of an index in a register to which the values of all indices were shifted. -/
theorem lane_orAll_shiftLeft {v : Nat → BitVec w} {σ : Nat → Nat} {i : Nat} (hi : i < n)
    (hσ : ∀ j < n, σ j = σ i → j = i) (hv : ∀ j < n, (v j).toNat < 2 ^ m) (hw : m * (σ i + 1) ≤ w) :
    lane m (σ i) (orAll n (fun j => v j <<< (m * σ j))) = (v i).setWidth m := by
  rw [lane_orAll, orAll_single hi]
  · rw [lane_shiftLeft (hv i hi) hw, if_pos rfl]
  · intro j hj hji
    rw [lane_shiftLeft (hv j hj) hw, if_neg (fun h => hji (hσ j hj h))]

end Packed
