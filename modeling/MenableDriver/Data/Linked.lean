import Mathlib.Data.List.Basic
import Mathlib.Logic.Function.Basic

/-!
# Linked cells

The cells of a singly linked list say which cell is the next one. A path is a list of cells of
which every one leads to the one behind it; the last one leads out of it.
-/

set_option autoImplicit false

universe u

namespace Linked

variable {ν : Type u} {next next' : ν → Option ν} {x y : ν} {xs ys : List ν} {z : Option ν}

/-- `z` is where the path leads to. -/
def Path (next : ν → Option ν) : List ν → Option ν → Prop
  | [], _ => True
  | x :: xs, z => next x = xs.head?.or z ∧ Path next xs z

/-- The cells that are met on the way to an end; `none` when there was no end. -/
def visit (next : ν → Option ν) : Nat → Option ν → Option (List ν)
  | _, none => some []
  | 0, some _ => none
  | fuel + 1, some x => (visit next fuel (next x)).map (x :: ·)

/-- The first cell, from `start` on, that leads to the target. -/
def before [DecidableEq ν] (next : ν → Option ν) (target : Option ν) : Nat → Option ν → Option ν
  | 0, _ => none
  | _ + 1, none => none
  | fuel + 1, some x => if next x = target then some x else before next target fuel (next x)

theorem path_append : Path next (xs ++ ys) z ↔ Path next xs (ys.head?.or z) ∧ Path next ys z := by
  induction xs with
  | nil => exact ⟨fun h => ⟨trivial, h⟩, fun h => h.2⟩
  | cons x xs ih =>
    have hhead : (xs ++ ys).head?.or z = xs.head?.or (ys.head?.or z) := by
      rw [List.head?_append, Option.or_assoc]
    rw [List.cons_append, Path, Path, ih, hhead, and_assoc]

theorem Path.congr (h : Path next xs z) (heq : ∀ x ∈ xs, next' x = next x) : Path next' xs z := by
  induction xs with
  | nil => trivial
  | cons x xs ih =>
    obtain ⟨hx, hxs⟩ := h
    refine ⟨(heq x List.mem_cons_self).trans hx, ih hxs fun y hy => ?_⟩
    exact heq y (List.mem_cons_of_mem x hy)

/-- Following the cells visits exactly the path. -/
theorem Path.visit_eq (h : Path next xs none) {fuel : Nat} (hfuel : xs.length ≤ fuel) :
    visit next fuel xs.head? = some xs := by
  induction xs generalizing fuel with
  | nil => rw [List.head?_nil, visit]
  | cons x xs ih =>
    obtain ⟨hx, hxs⟩ := h
    cases fuel with
    | zero => exact absurd hfuel (Nat.not_succ_le_zero _)
    | succ fuel =>
      rw [Option.or_none] at hx
      rw [List.head?_cons, visit, hx, ih hxs (Nat.le_of_succ_le_succ hfuel)]
      rfl

theorem eq_of_visit_cons {fuel : Nat} {start : Option ν} (h : visit next fuel start = some (x :: xs)) :
    start = some x ∧ visit next (fuel - 1) (next x) = some xs := by
  rcases start with _ | y
  · cases fuel <;> cases h
  · cases fuel with
    | zero => cases h
    | succ fuel =>
      rw [visit] at h
      obtain ⟨rest, hrest, heq⟩ := Option.map_eq_some_iff.mp h
      cases heq
      exact ⟨rfl, hrest⟩

section Update
variable [DecidableEq ν]

theorem Path.update (h : Path next xs z) (hx : x ∉ xs) (a : Option ν) :
    Path (Function.update next x a) xs z := by
  refine h.congr fun y hy => Function.update_of_ne ?_ _ _
  rintro rfl
  exact hx hy

/-- A cell in front. -/
theorem Path.push_front (h : Path next xs none) (hx : x ∉ xs) :
    Path (Function.update next x xs.head?) (x :: xs) none :=
  ⟨by rw [Function.update_self, Option.or_none], h.update hx _⟩

/-- A path that ends with `x` may lead elsewhere from there. -/
theorem Path.redirect (h : Path next (xs ++ [x]) z) (hx : x ∉ xs) (a : Option ν) :
    Path (Function.update next x a) (xs ++ [x]) a := by
  obtain ⟨hxs, -⟩ := path_append.mp h
  have hlast : Function.update next x a x = [].head?.or a := Function.update_self x a next
  exact path_append.mpr ⟨hxs.update hx a, hlast, trivial⟩

/-- The search stops at the cell before the last one. -/
theorem Path.before_eq (h : Path next (xs ++ [x, y]) z) (hnodup : (xs ++ [x, y]).Nodup) {fuel : Nat}
    (hfuel : xs.length < fuel) : before next (some y) fuel (xs ++ [x, y]).head? = some x := by
  induction xs generalizing fuel with
  | nil =>
    cases fuel with
    | zero => exact absurd hfuel (Nat.not_lt_zero _)
    | succ fuel => exact if_pos h.1
  | cons w xs ih =>
    cases fuel with
    | zero => exact absurd hfuel (Nat.not_lt_zero _)
    | succ fuel =>
      obtain ⟨hw, hrest⟩ := h
      have hnodup' : (xs ++ [x, y]).Nodup := (List.nodup_cons.mp hnodup).2
      have hnext : next w = (xs ++ [x, y]).head? := by
        rcases xs with _ | ⟨v, xs⟩
        · exact hw
        · exact hw
      have hne : next w ≠ some y := by
        rw [hnext]
        intro hy
        rcases xs with _ | ⟨v, xs⟩
        · have hxy : x ≠ y := by simpa using hnodup'
          exact hxy (Option.some.inj hy)
        · have hv : v = y := Option.some.inj hy
          subst hv
          simp at hnodup'
      rw [List.cons_append, List.head?_cons, before, if_neg hne, hnext]
      exact ih hrest hnodup' (Nat.lt_of_succ_lt_succ hfuel)

end Update

end Linked
