import Mathlib.Data.List.Basic
import Mathlib.Data.List.Nodup
import Mathlib.Data.List.Range
import Mathlib.Data.Nat.ModEq
import Mathlib.Logic.Function.Basic

/-!
# Rings

A ring is a memory of `cap` cells that is walked round and round. `window f cap r n`
are the `n` items from the cell `r` on; `fill f cap w xs` writes the items `xs` from the
cell `w` on, one after the other.
-/

namespace Ring

set_option autoImplicit false

universe u
variable {α : Type u}

def window (f : Nat → α) (cap r n : Nat) : List α := (List.range n).map fun i => f ((r + i) % cap)

def fill (f : Nat → α) (cap w : Nat) : List α → Nat → α
  | [] => f
  | x :: xs => fill (Function.update f (w % cap) x) cap (w + 1) xs

variable {f g : Nat → α} {cap r w n : Nat}

@[simp] theorem window_zero : window f cap r 0 = [] := rfl

@[simp] theorem length_window : (window f cap r n).length = n := by simp [window]

theorem window_congr (h : ∀ i < n, f ((r + i) % cap) = g ((r + i) % cap)) :
    window f cap r n = window g cap r n :=
  List.map_congr_left fun i hi => h i (List.mem_range.mp hi)

theorem window_add (m n : Nat) :
    window f cap r (m + n) = window f cap r m ++ window f cap (r + m) n := by
  simp only [window, List.range_add, List.map_append, List.map_map]
  congr 1
  refine List.map_congr_left fun i _ => ?_
  simp only [Function.comp_apply, Nat.add_assoc]

/-- A start beyond the end of the memory counts around. -/
theorem window_mod : window f cap (r % cap) n = window f cap r n := by
  simp only [window, Nat.mod_add_mod]

theorem window_succ (n : Nat) : window f cap r (n + 1) = window f cap r n ++ [f ((r + n) % cap)] := by
  rw [window_add]
  rfl

theorem window_cons (n : Nat) : window f cap r (n + 1) = f (r % cap) :: window f cap (r + 1) n := by
  rw [Nat.add_comm, window_add]
  rfl

theorem take_window {k : Nat} (h : k ≤ n) : (window f cap r n).take k = window f cap r k := by
  obtain ⟨m, rfl⟩ := Nat.le.dest h
  rw [window_add, List.take_left' length_window]

theorem drop_window {k : Nat} (h : k ≤ n) : (window f cap r n).drop k = window f cap (r + k) (n - k) := by
  obtain ⟨m, rfl⟩ := Nat.le.dest h
  rw [window_add, List.drop_left' length_window, Nat.add_sub_cancel_left]

/-- Two cells of one round are different. -/
theorem mod_ne {i j : Nat} (hi : i < cap) (hj : j < cap) (h : i ≠ j) : (r + i) % cap ≠ (r + j) % cap := by
  intro he
  have hmod : i % cap = j % cap := Nat.ModEq.add_left_cancel' r he
  rw [Nat.mod_eq_of_lt hi, Nat.mod_eq_of_lt hj] at hmod
  exact h hmod

/-- A window that is not longer than the ring meets no cell twice. -/
theorem nodup_window_id (h : n ≤ cap) : (window id cap r n).Nodup := by
  refine List.Nodup.map_on (fun i hi j hj hij => ?_) List.nodup_range
  have hi' := List.mem_range.mp hi
  have hj' := List.mem_range.mp hj
  by_contra hne
  exact mod_ne (by omega) (by omega) hne hij

/-- The item behind the window joins it. -/
theorem window_update (h : n < cap) (x : α) :
    window (Function.update f ((r + n) % cap) x) cap r (n + 1) = window f cap r n ++ [x] := by
  rw [window_succ, Function.update_self]
  congr 1
  refine window_congr fun i hi => ?_
  rw [Function.update_of_ne (mod_ne (by omega) h (by omega))]

theorem window_fill (xs : List α) (h : n + xs.length ≤ cap) :
    window (fill f cap (r + n) xs) cap r (n + xs.length) = window f cap r n ++ xs := by
  induction xs generalizing f n with
  | nil => simp [fill]
  | cons x xs ih =>
    have hlen : n + (x :: xs).length = n + 1 + xs.length := by
      simp only [List.length_cons]
      omega
    rw [hlen] at h ⊢
    rw [fill, Nat.add_assoc r n 1, ih h, window_update (by omega), List.append_assoc]
    rfl

end Ring
