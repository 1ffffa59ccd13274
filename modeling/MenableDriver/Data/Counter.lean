import Mathlib.Algebra.Order.Ring.Int

/-!
# Unsigned 32-bit counters

A counter is the natural number its register holds; stepping and subtracting wrap
at `2 ^ 32`, as the C operators on `unsigned int` do.
-/

namespace Counter

def wrap : Nat := 4294967296

def inc (n : Nat) : Nat := (n + 1) % wrap

def dec (n : Nat) : Nat := (n + (wrap - 1)) % wrap

def add (a b : Nat) : Nat := (a + b) % wrap

def sub (a b : Nat) : Nat := (a + (wrap - b)) % wrap

theorem inc_eq {n : Nat} (h : n + 1 < wrap) : inc n = n + 1 := Nat.mod_eq_of_lt h

theorem add_eq {a b : Nat} (h : a + b < wrap) : add a b = a + b := Nat.mod_eq_of_lt h

theorem dec_eq {n : Nat} (h0 : n ≠ 0) (h : n < wrap) : dec n = n - 1 := by
  unfold dec wrap at *
  omega

theorem dec_succ {n : Nat} (h : n + 1 < wrap) : dec (n + 1) = n := by
  rw [dec_eq (by omega) h]
  omega

theorem sub_eq {a b : Nat} (hab : b ≤ a) (ha : a < wrap) : sub a b = a - b := by
  unfold sub wrap at *
  omega

end Counter
