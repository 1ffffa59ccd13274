import Mathlib.Algebra.Order.Ring.Int
import Mathlib.Data.List.Basic

/-!
# Cutting into pieces

A size is cut into pieces of a given length, and the final piece takes what is left. The pieces are
counted from zero on, and the piece `i` starts at `i * most`.
-/

namespace Pieces

set_option autoImplicit false

def count (most size : Nat) : Nat := (size + most - 1) / most

def length (most size i : Nat) : Nat := min (size - i * most) most

/-- Ranges with a start and a length, one behind the other from `p` up to `e`. -/
def Contiguous : Nat → List (Nat × Nat) → Nat → Prop
  | p, [], e => p = e
  | p, piece :: pieces, e => piece.1 = p ∧ 0 < piece.2 ∧ Contiguous (p + piece.2) pieces e

variable {most size i k : Nat}

theorem lt_count_iff (hm : 0 < most) : i < count most size ↔ i * most < size := by
  have hdiv := Nat.le_div_iff_mul_le (x := i + 1) (y := size + most - 1) hm
  have hsucc : (i + 1) * most = i * most + most := Nat.succ_mul i most
  unfold count
  constructor
  · intro hi
    have hle := hdiv.mp hi
    omega
  · intro hi
    exact hdiv.mpr (by omega)

theorem count_mul_ge (hm : 0 < most) : size ≤ count most size * most := by
  by_contra hlt
  exact absurd ((lt_count_iff hm).mpr (Nat.lt_of_not_le hlt)) (Nat.lt_irrefl _)

theorem length_pos (hm : 0 < most) (hi : i * most < size) : 0 < length most size i := by
  unfold length
  omega

theorem length_le : length most size i ≤ most := Nat.min_le_right _ _

/-- Up to here the pieces before `k + 1` reach. -/
theorem min_add_length : min size (k * most) + length most size k = min size ((k + 1) * most) := by
  have hsucc : (k + 1) * most = k * most + most := Nat.succ_mul k most
  unfold length
  omega

/-- The final piece is the one that ends where all ends. -/
theorem ends_iff (hm : 0 < most) (hk : k < count most size) :
    k + 1 = count most size ↔ k * most + length most size k = size := by
  have hlt := (lt_count_iff hm).mp hk
  have hnext : k + 1 < count most size ↔ (k + 1) * most < size := lt_count_iff hm
  have hsucc : (k + 1) * most = k * most + most := Nat.succ_mul k most
  unfold length
  omega

theorem sum_length (k : Nat) : ((List.range k).map (length most size)).sum = min size (k * most) := by
  induction k with
  | zero => simp
  | succ k ih =>
    rw [List.range_succ, List.map_append, List.sum_append, ih]
    simpa using min_add_length

theorem sum_length_count (hm : 0 < most) :
    ((List.range (count most size)).map (length most size)).sum = size := by
  rw [sum_length]
  exact Nat.min_eq_left (count_mul_ge hm)

theorem contiguous_concat {p e : Nat} {pieces : List (Nat × Nat)} {piece : Nat × Nat}
    (h : Contiguous p pieces piece.1) (hpos : 0 < piece.2) (he : piece.1 + piece.2 = e) :
    Contiguous p (pieces ++ [piece]) e := by
  induction pieces generalizing p with
  | nil => exact ⟨h.symm, hpos, by rw [h]; exact he⟩
  | cons q pieces ih => exact ⟨h.1, h.2.1, ih h.2.2⟩

theorem contiguous_range (hm : 0 < most) (hk : k ≤ count most size) :
    Contiguous 0 ((List.range k).map fun i => (i * most, length most size i)) (min size (k * most)) := by
  induction k with
  | zero => simp [Contiguous]
  | succ k ih =>
    have hlt : k * most < size := (lt_count_iff hm).mp hk
    have hstart : min size (k * most) = k * most := Nat.min_eq_right (Nat.le_of_lt hlt)
    have hrest := ih (Nat.le_of_succ_le hk)
    have hend : min size (k * most) + length most size k = min size ((k + 1) * most) := min_add_length
    rw [hstart] at hrest hend
    rw [List.range_succ, List.map_append]
    exact contiguous_concat hrest (length_pos hm hlt) hend

/-! ### The pieces of a list -/

variable {α : Type}

/-- The piece `i` of a list. -/
def slice (most : Nat) (xs : List α) (i : Nat) : List α := (xs.drop (i * most)).take most

theorem slice_length (xs : List α) (i : Nat) : (slice most xs i).length = length most xs.length i := by
  unfold slice length
  rw [List.length_take, List.length_drop, Nat.min_comm]

theorem flatten_slices (xs : List α) (k : Nat) :
    ((List.range k).map (slice most xs)).flatten = xs.take (k * most) := by
  induction k with
  | zero => simp
  | succ k ih =>
    rw [List.range_succ, List.map_append, List.flatten_append, ih]
    simp only [List.map_cons, List.map_nil, List.flatten_cons, List.flatten_nil, List.append_nil, slice]
    rw [Nat.succ_mul, List.take_add]

theorem flatten_slices_count (hm : 0 < most) (xs : List α) :
    ((List.range (count most xs.length)).map (slice most xs)).flatten = xs := by
  rw [flatten_slices]
  exact List.take_of_length_le (count_mul_ge hm)

/-- The pieces up to the final one, and no fewer, make up the list. -/
theorem flatten_succ_iff (hm : 0 < most) {xs : List α} (hi : i < count most xs.length) :
    ((List.range i).map (slice most xs)).flatten ++ slice most xs i = xs ↔ i + 1 = count most xs.length := by
  have hnext : i + 1 < count most xs.length ↔ (i + 1) * most < xs.length := lt_count_iff hm
  have hjoin : ((List.range i).map (slice most xs)).flatten ++ slice most xs i =
      xs.take ((i + 1) * most) := by
    rw [flatten_slices, Nat.succ_mul, List.take_add]
    rfl
  rw [hjoin]
  constructor
  · intro hall
    have hlength := congrArg List.length hall
    rw [List.length_take] at hlength
    omega
  · intro hend
    exact List.take_of_length_le (by omega)

end Pieces
