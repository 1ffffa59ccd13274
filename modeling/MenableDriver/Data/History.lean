import Mathlib.Data.List.Basic

/-!
# The steps of a run

A client gives commands, and each command is carried out by calls that depend on the state it finds. A call
may not return, and the run stops there. What a run does is told by its steps, and an invariant may speak of
the steps up to a state.
-/

namespace History

set_option autoImplicit false

universe u v w x
variable {σ : Type u} {α : Type v} {ρ : Type w} {κ : Type x}

/-- A call that has returned. -/
structure Step (σ : Type u) (α : Type v) (ρ : Type w) where
  before : σ
  call : α
  answer : ρ
  after : σ

/-- The calls up to the first that does not return, and the state after them when all have returned. -/
def callSteps (perform : σ → α → Option (σ × ρ)) : σ → List α → List (Step σ α ρ) × Option σ
  | s, [] => ([], some s)
  | s, call :: calls =>
    match perform s call with
    | none => ([], none)
    | some (s', answer) =>
      let rest := callSteps perform s' calls
      (⟨s, call, answer, s'⟩ :: rest.1, rest.2)

/-- The steps of the commands. -/
def steps (perform : σ → α → Option (σ × ρ)) (calls : σ → κ → List α) : σ → List κ → List (Step σ α ρ)
  | _, [] => []
  | s, command :: commands =>
    let first := callSteps perform s (calls s command)
    first.1 ++ first.2.elim [] fun s' => steps perform calls s' commands

variable {perform : σ → α → Option (σ × ρ)} {calls : σ → κ → List α} {I : List (Step σ α ρ) → σ → Prop}

/-- Every step of a list is made from a state with the invariant. -/
def Along (perform : σ → α → Option (σ × ρ)) (I : List (Step σ α ρ) → σ → Prop)
    (past all : List (Step σ α ρ)) : Prop :=
  ∀ before st later, all = before ++ st :: later →
    I (past ++ before) st.before ∧ perform st.before st.call = some (st.after, st.answer)

theorem along_nil (past : List (Step σ α ρ)) : Along perform I past [] := by
  intro before st later h
  simp at h

theorem Along.cons {past all : List (Step σ α ρ)} {st : Step σ α ρ} (hI : I past st.before)
    (hst : perform st.before st.call = some (st.after, st.answer)) (h : Along perform I (past ++ [st]) all) :
    Along perform I past (st :: all) := by
  intro before st' later heq
  rcases List.cons_eq_append_iff.mp heq with ⟨rfl, hst'⟩ | ⟨before', rfl, hall⟩
  · obtain ⟨rfl, -⟩ := List.cons.inj hst'
    rw [List.append_nil]
    exact ⟨hI, hst⟩
  · have hrest := h before' st' later hall
    rwa [List.append_assoc] at hrest

theorem Along.append {past all all' : List (Step σ α ρ)} (h : Along perform I past all)
    (h' : Along perform I (past ++ all) all') : Along perform I past (all ++ all') := by
  intro before st later heq
  rcases List.append_eq_append_iff.mp heq with ⟨mid, rfl, hall'⟩ | ⟨mid, rfl, hmid⟩
  · have hrest := h' mid st later hall'
    rwa [List.append_assoc] at hrest
  · cases mid with
    | nil =>
      have hrest := h' [] st later (by simpa using hmid.symm)
      simpa using hrest
    | cons st' mid =>
      obtain ⟨rfl, -⟩ := List.cons.inj hmid
      exact h before st mid rfl

section
variable (hstep : ∀ past st, I past st.before → perform st.before st.call = some (st.after, st.answer) →
  I (past ++ [st]) st.after)
include hstep

theorem callSteps_along (list : List α) {past : List (Step σ α ρ)} {s : σ} (hs : I past s) :
    Along perform I past (callSteps perform s list).1 ∧
      ∀ s', (callSteps perform s list).2 = some s' → I (past ++ (callSteps perform s list).1) s' := by
  induction list generalizing past s with
  | nil =>
    refine ⟨along_nil past, fun s' h => ?_⟩
    obtain rfl := Option.some.inj h
    rw [callSteps, List.append_nil]
    exact hs
  | cons call list ih =>
    rw [callSteps]
    cases hcall : perform s call with
    | none => exact ⟨along_nil past, fun s' h => by cases h⟩
    | some r =>
      obtain ⟨hrest, hend⟩ := ih (hstep past ⟨s, call, r.2, r.1⟩ hs hcall)
      refine ⟨hrest.cons hs hcall, fun s' h => ?_⟩
      have hI := hend s' h
      rwa [List.append_assoc] at hI

/-- What holds at the start and is kept by every step holds before every step of a run. -/
theorem steps_along (commands : List κ) {past : List (Step σ α ρ)} {s : σ} (hs : I past s) :
    Along perform I past (steps perform calls s commands) := by
  induction commands generalizing past s with
  | nil => exact along_nil past
  | cons command commands ih =>
    obtain ⟨hfirst, hend⟩ := callSteps_along hstep (calls s command) hs
    rw [steps]
    apply hfirst.append
    cases hs' : (callSteps perform s (calls s command)).2 with
    | none => exact along_nil _
    | some s' => exact ih (hend s' hs')

end

theorem Along.mem {all : List (Step σ α ρ)} {st : Step σ α ρ} (h : Along perform I [] all) (hst : st ∈ all) :
    ∃ before, (∀ st' ∈ before, st' ∈ all) ∧ I before st.before ∧
      perform st.before st.call = some (st.after, st.answer) := by
  obtain ⟨before, later, rfl⟩ := List.append_of_mem hst
  exact ⟨before, fun st' hst' => List.mem_append_left _ hst', h before st later rfl⟩

end History
