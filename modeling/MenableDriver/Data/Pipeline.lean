import Mathlib.Data.List.Basic

/-!
# Pipelines

A job has a number of pieces. Each of them is asked for and later taken, both in order, and at most
`depth` pieces are asked for and not yet taken. Other events leave the job as it is.
-/

namespace Pipeline

set_option autoImplicit false

universe u v
variable {α : Type u} {β : Type v}

/-- Which events ask for the piece with a number, and which take it. -/
structure Protocol (α : Type u) where
  pieces : Nat
  depth : Nat
  asks : Nat → α → Prop
  takes : Nat → α → Prop
  idle : α → Prop

/-- The events so far, with the number of pieces asked for and taken. -/
inductive Trace (P : Protocol α) : List α → Nat → Nat → Prop
  | start : Trace P [] 0 0
  | ask {es : List α} {k j : Nat} {e : α} : Trace P es k j → k < P.pieces → k < j + P.depth →
      P.asks k e → Trace P (es ++ [e]) (k + 1) j
  | take {es : List α} {k j : Nat} {e : α} : Trace P es k j → j < k →
      P.takes j e → Trace P (es ++ [e]) k (j + 1)
  | idle {es : List α} {k j : Nat} {e : α} : Trace P es k j → P.idle e → Trace P (es ++ [e]) k j

variable {P : Protocol α} {es before : List α} {e : α} {k j : Nat}

theorem Trace.bounds (h : Trace P es k j) : j ≤ k ∧ k ≤ j + P.depth ∧ k ≤ P.pieces := by
  induction h with
  | start => omega
  | ask => omega
  | take => omega
  | idle _ _ ih => exact ih

/-- What the final event of a trace did. -/
theorem Trace.of_concat (h : Trace P (es ++ [e]) k j) :
    ∃ k' j', Trace P es k' j' ∧ (P.asks k' e ∨ (P.takes j' e ∧ j' < k') ∨ P.idle e) := by
  generalize hes : es ++ [e] = all at h
  cases h with
  | start => exact absurd hes (by simp)
  | ask hrest _ _ hasks =>
    obtain ⟨rfl, rfl⟩ := List.append_singleton_inj.mp hes
    exact ⟨_, _, hrest, Or.inl hasks⟩
  | take hrest hlt htakes =>
    obtain ⟨rfl, rfl⟩ := List.append_singleton_inj.mp hes
    exact ⟨_, _, hrest, Or.inr (Or.inl ⟨htakes, hlt⟩)⟩
  | idle hrest hidle =>
    obtain ⟨rfl, rfl⟩ := List.append_singleton_inj.mp hes
    exact ⟨_, _, hrest, Or.inr (Or.inr hidle)⟩

theorem Trace.of_prefix (h : Trace P es k j) (hp : before <+: es) : ∃ k' j', Trace P before k' j' := by
  induction h with
  | start =>
    rw [List.prefix_nil.mp hp]
    exact ⟨0, 0, .start⟩
  | ask hrest hk hd he ih =>
    rcases List.prefix_concat_iff.mp hp with rfl | hp
    · exact ⟨_, _, .ask hrest hk hd he⟩
    · exact ih hp
  | take hrest hlt he ih =>
    rcases List.prefix_concat_iff.mp hp with rfl | hp
    · exact ⟨_, _, .take hrest hlt he⟩
    · exact ih hp
  | idle hrest he ih =>
    rcases List.prefix_concat_iff.mp hp with rfl | hp
    · exact ⟨_, _, .idle hrest he⟩
    · exact ih hp

/-- What is read off the events that ask, in order. -/
theorem Trace.asked (h : Trace P es k j) {f : α → Option β} {g : Nat → β}
    (hasks : ∀ i e, P.asks i e → f e = some (g i)) (htakes : ∀ i e, P.takes i e → f e = none)
    (hidle : ∀ e, P.idle e → f e = none) : es.filterMap f = (List.range k).map g := by
  induction h with
  | start => rfl
  | ask _ _ _ he ih =>
    rw [List.filterMap_append, ih, List.range_succ, List.map_append]
    simp [hasks _ _ he]
  | take _ _ he ih =>
    rw [List.filterMap_append, ih]
    simp [htakes _ _ he]
  | idle _ he ih =>
    rw [List.filterMap_append, ih]
    simp [hidle _ he]

/-- What is read off the events that take, in order. -/
theorem Trace.taken (h : Trace P es k j) {f : α → Option β} {g : Nat → β}
    (htakes : ∀ i e, P.takes i e → f e = some (g i)) (hasks : ∀ i e, P.asks i e → f e = none)
    (hidle : ∀ e, P.idle e → f e = none) : es.filterMap f = (List.range j).map g := by
  induction h with
  | start => rfl
  | ask _ _ _ he ih =>
    rw [List.filterMap_append, ih]
    simp [hasks _ _ he]
  | take _ _ he ih =>
    rw [List.filterMap_append, ih, List.range_succ, List.map_append]
    simp [htakes _ _ he]
  | idle _ he ih =>
    rw [List.filterMap_append, ih]
    simp [hidle _ he]

end Pipeline
