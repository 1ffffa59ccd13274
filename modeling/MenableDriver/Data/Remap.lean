import Mathlib.Data.List.Range
import Mathlib.Logic.Function.Basic

/-!
# Moving the cells of an array

Index `p` has its value in the cell `σ p` of an array, and shall have it in the cell `τ p`
afterwards. The cells are written one after the other from a copy of the values, and an index
whose cell stays is left out.
-/

namespace Remap

set_option autoImplicit false

variable {α : Type} {σ τ : Nat → Nat} {n k : Nat} {c₀ c : Nat → α}

/-- An invariant of a loop over the indices below `n`. -/
theorem foldl_range {σ : Type} {step : σ → Nat → σ} {s : σ} (P : Nat → σ → Prop) (n : Nat) (h0 : P 0 s)
    (hstep : ∀ k < n, ∀ s, P k s → P (k + 1) (step s k)) : P n ((List.range n).foldl step s) := by
  induction n with
  | zero => exact h0
  | succ n ih =>
    rw [List.range_succ, List.foldl_append, List.foldl_cons, List.foldl_nil]
    exact hstep n (by omega) _ (ih (fun k hk => hstep k (by omega)))

/-- Different indices below `n` have different cells. -/
def InjOn (τ : Nat → Nat) (n : Nat) : Prop := ∀ p < n, ∀ q < n, τ p = τ q → p = q

/-- The indices below `k` and those that stay have their value where they shall. -/
def Moved (σ τ : Nat → Nat) (n : Nat) (c₀ : Nat → α) (k : Nat) (c : Nat → α) : Prop :=
  ∀ p < n, p < k ∨ σ p = τ p → c (τ p) = c₀ (σ p)

theorem Moved.start : Moved σ τ n c₀ 0 c₀ := by
  intro p _ h
  rw [h.resolve_left (by omega)]

theorem Moved.skip (h : Moved σ τ n c₀ k c) (hk : σ k = τ k) : Moved σ τ n c₀ (k + 1) c := by
  intro p hp hpk
  rcases Nat.lt_trichotomy p k with hlt | rfl | hgt
  · exact h p hp (.inl hlt)
  · exact h p hp (.inr hk)
  · exact h p hp (hpk.imp_left (by omega))

theorem Moved.write (h : Moved σ τ n c₀ k c) (hτ : InjOn τ n) (hk : k < n) :
    Moved σ τ n c₀ (k + 1) (Function.update c (τ k) (c₀ (σ k))) := by
  intro p hp hpk
  by_cases hpk' : p = k
  · rw [hpk', Function.update_self]
  · rw [Function.update_of_ne (fun heq => hpk' (hτ p hp k hk heq))]
    exact h p hp (hpk.imp_left (by omega))

theorem Moved.finish (h : Moved σ τ n c₀ n c) {p : Nat} (hp : p < n) : c (τ p) = c₀ (σ p) :=
  h p hp (.inl hp)

/-- The array that gets the value of every index below `n` in its cell. -/
def scatter (π : Nat → Nat) (c a : Nat → α) (n : Nat) : Nat → α :=
  (List.range n).foldl (fun a l => Function.update a (π l) (c l)) a

theorem scatter_succ (π : Nat → Nat) (c a : Nat → α) (n : Nat) :
    scatter π c a (n + 1) = Function.update (scatter π c a n) (π n) (c n) := by
  simp only [scatter, List.range_succ, List.foldl_append, List.foldl_cons, List.foldl_nil]

theorem scatter_apply {π : Nat → Nat} (c a : Nat → α) {l : Nat} (hl : l < n) (hπ : InjOn π n) :
    scatter π c a n (π l) = c l := by
  induction n with
  | zero => omega
  | succ n ih =>
    rw [scatter_succ]
    by_cases hln : l = n
    · rw [hln, Function.update_self]
    · rw [Function.update_of_ne (fun heq => hln (hπ l hl n (by omega) heq))]
      exact ih (by omega) (fun p hp q hq => hπ p (by omega) q (by omega))

end Remap
