import Mathlib.Data.List.Basic

/-!
# Runs of a step function that may stop

A system is a function `step : σ → ε → Except κ σ`: an event moves a state to its
successor, or the step stops with a reason. Guards `G s e` restrict the events of
a run; they are asked only of steps that are really taken. Nothing here knows
what the states are.
-/

namespace Transition

universe u v w
variable {σ : Type u} {ε : Type v} {κ : Type w} (step : σ → ε → Except κ σ)

def run : σ → List ε → Except κ σ
  | s, [] => .ok s
  | s, e :: es =>
    match step s e with
    | .ok t => run t es
    | .error k => .error k

/-- Every step taken by the run meets the guard in the state it starts from. -/
def Meets (G : σ → ε → Prop) : σ → List ε → Prop
  | _, [] => True
  | s, e :: es => ∀ t, step s e = .ok t → G s e ∧ Meets G t es

/-- The predicate holds in every state the run goes through. -/
def Always (P : σ → Prop) : σ → List ε → Prop
  | s, [] => P s
  | s, e :: es => P s ∧ ∀ t, step s e = .ok t → Always P t es

def Reachable (s t : σ) : Prop := ∃ es, run step s es = .ok t

/-- The run ends in a state on which the test succeeds; closed runs evaluate. -/
def check (s : σ) (es : List ε) (p : σ → Bool) : Bool :=
  match run step s es with
  | .ok t => p t
  | .error _ => false

/-- The run stops with the reason `k`. -/
def stopsWith [DecidableEq κ] (s : σ) (es : List ε) (k : κ) : Bool :=
  match run step s es with
  | .ok _ => false
  | .error k' => decide (k' = k)

/-- The test succeeds before every step of the run. -/
def meetsCheck (g : σ → ε → Bool) : σ → List ε → Bool
  | _, [] => true
  | s, e :: es =>
    match step s e with
    | .ok t => g s e && meetsCheck g t es
    | .error _ => true

variable {step}

@[simp] theorem run_nil (s : σ) : run step s [] = .ok s := rfl

theorem run_cons_ok {s u : σ} {e : ε} {es : List ε} :
    run step s (e :: es) = .ok u ↔ ∃ t, step s e = .ok t ∧ run step t es = .ok u := by
  constructor
  · intro h
    simp only [run] at h
    split at h
    · rename_i t ht
      exact ⟨t, ht, h⟩
    · exact absurd h (by simp)
  · rintro ⟨t, ht, hu⟩
    simp only [run, ht, hu]

theorem run_append_ok {s u : σ} {es fs : List ε} :
    run step s (es ++ fs) = .ok u ↔ ∃ t, run step s es = .ok t ∧ run step t fs = .ok u := by
  induction es generalizing s with
  | nil => simp
  | cons e es ih =>
    simp only [List.cons_append, run_cons_ok, ih]
    constructor
    · rintro ⟨t, ht, v, hv, hu⟩
      exact ⟨v, ⟨t, ht, hv⟩, hu⟩
    · rintro ⟨v, ⟨t, ht, hv⟩, hu⟩
      exact ⟨t, ht, v, hv, hu⟩

theorem Reachable.refl (s : σ) : Reachable step s s := ⟨[], rfl⟩

theorem Reachable.tail {s t u : σ} {e : ε} (hst : Reachable step s t)
    (htu : step t e = .ok u) : Reachable step s u := by
  obtain ⟨es, hes⟩ := hst
  exact ⟨es ++ [e], run_append_ok.mpr ⟨t, hes, run_cons_ok.mpr ⟨u, htu, rfl⟩⟩⟩

theorem exists_of_check (step : σ → ε → Except κ σ) (s : σ) (es : List ε) (p : σ → Bool)
    (h : check step s es p = true) :
    ∃ t, run step s es = .ok t ∧ p t = true := by
  unfold check at h
  split at h
  · rename_i t ht
    exact ⟨t, ht, h⟩
  · exact absurd h (by simp)

theorem run_error_of_stopsWith [DecidableEq κ] {s : σ} {es : List ε} {k : κ}
    (h : stopsWith step s es k = true) : run step s es = .error k := by
  unfold stopsWith at h
  split at h
  · cases h
  · rename_i k' hk
    rw [hk, of_decide_eq_true h]

section Invariants
variable {P : σ → Prop} {G : σ → ε → Prop}

/-- What one guarded step preserves, a guarded run preserves. -/
theorem run_invariant (hstep : ∀ s e t, G s e → P s → step s e = .ok t → P t)
    {s t : σ} {es : List ε} (hG : Meets step G s es) (hs : P s) (hrun : run step s es = .ok t) :
    P t := by
  induction es generalizing s with
  | nil =>
    have heq : s = t := by simpa using hrun
    exact heq ▸ hs
  | cons e es ih =>
    obtain ⟨u, hu, hrest⟩ := run_cons_ok.mp hrun
    obtain ⟨hGe, hGs⟩ := hG u hu
    exact ih hGs (hstep s e u hGe hs hu) hrest

theorem meets_true (s : σ) (es : List ε) : Meets step (fun _ _ => True) s es := by
  induction es generalizing s with
  | nil => trivial
  | cons e es ih => exact fun t _ => ⟨trivial, ih t⟩

theorem meets_of_check {g : σ → ε → Bool} (hg : ∀ s e, g s e = true → G s e) {s : σ} {es : List ε}
    (h : meetsCheck step g s es = true) : Meets step G s es := by
  induction es generalizing s with
  | nil => trivial
  | cons e es ih =>
    intro t ht
    simp only [meetsCheck, ht, Bool.and_eq_true] at h
    exact ⟨hg s e h.1, ih h.2⟩

/-- A guard that asks nothing of the states. -/
theorem meets_of_forall_mem {G : ε → Prop} {s : σ} {es : List ε} (h : ∀ e ∈ es, G e) :
    Meets step (fun _ e => G e) s es := by
  induction es generalizing s with
  | nil => trivial
  | cons e es ih =>
    exact fun t _ => ⟨h e List.mem_cons_self, ih fun e' he' => h e' (List.mem_cons_of_mem e he')⟩

theorem Meets.of_append {s t : σ} {es fs : List ε} (h : Meets step G s (es ++ fs))
    (ht : run step s es = .ok t) : Meets step G t fs := by
  induction es generalizing s with
  | nil =>
    have heq : s = t := by simpa using ht
    exact heq ▸ h
  | cons e es ih =>
    obtain ⟨u, hu, hrest⟩ := run_cons_ok.mp ht
    exact ih (h u hu).2 hrest

theorem reachable_invariant (hstep : ∀ s e t, P s → step s e = .ok t → P t)
    {s t : σ} (hs : P s) (hst : Reachable step s t) : P t := by
  obtain ⟨es, hes⟩ := hst
  exact run_invariant (fun s e t _ => hstep s e t) (meets_true s es) hs hes

theorem Meets.mono {G' : σ → ε → Prop} (hGG' : ∀ s e, G s e → G' s e)
    {s : σ} {es : List ε} (h : Meets step G s es) : Meets step G' s es := by
  induction es generalizing s with
  | nil => trivial
  | cons e es ih => exact fun t ht => ⟨hGG' s e (h t ht).1, ih (h t ht).2⟩

theorem Meets.and {G' : σ → ε → Prop} {s : σ} {es : List ε} (h : Meets step G s es)
    (h' : Meets step G' s es) : Meets step (fun s e => G s e ∧ G' s e) s es := by
  induction es generalizing s with
  | nil => trivial
  | cons e es ih => exact fun t ht => ⟨⟨(h t ht).1, (h' t ht).1⟩, ih (h t ht).2 (h' t ht).2⟩

/-- A guarded run stays inside the invariant, its start included. -/
theorem always_of_meets (hstep : ∀ s e t, G s e → P s → step s e = .ok t → P t)
    {s : σ} {es : List ε} (hs : P s) (hG : Meets step G s es) : Always step P s es := by
  induction es generalizing s with
  | nil => exact hs
  | cons e es ih => exact ⟨hs, fun t ht => ih (hstep s e t (hG t ht).1 hs ht) (hG t ht).2⟩

theorem Always.mono {Q : σ → Prop} (hPQ : ∀ s, P s → Q s) {s : σ} {es : List ε}
    (h : Always step P s es) : Always step Q s es := by
  induction es generalizing s with
  | nil => exact hPQ s h
  | cons e es ih => exact ⟨hPQ s h.1, fun t ht => ih (h.2 t ht)⟩

theorem Always.head {s : σ} {es : List ε} (h : Always step P s es) : P s := by
  cases es with
  | nil => exact h
  | cons => exact h.1

theorem Always.of_run {s t : σ} {es : List ε} (h : Always step P s es) (ht : run step s es = .ok t) :
    P t := by
  induction es generalizing s with
  | nil =>
    have heq : s = t := by simpa using ht
    exact heq ▸ h
  | cons e es ih =>
    obtain ⟨u, hu, hrest⟩ := run_cons_ok.mp ht
    exact ih (h.2 u hu) hrest

/-- A guarded run meets every guard that the invariant implies. -/
theorem meets_of_meets {G' : σ → ε → Prop} (hstep : ∀ s e t, G s e → P s → step s e = .ok t → P t)
    (hG' : ∀ s e t, P s → step s e = .ok t → G' s e) {s : σ} {es : List ε} (hs : P s)
    (hG : Meets step G s es) : Meets step G' s es := by
  induction es generalizing s with
  | nil => trivial
  | cons e es ih => exact fun t ht => ⟨hG' s e t hs ht, ih (hstep s e t (hG t ht).1 hs ht) (hG t ht).2⟩

/-- A guarded run does not stop when no step out of the invariant does. -/
theorem exists_run (htotal : ∀ s e, P s → ∃ t, step s e = .ok t)
    (hstep : ∀ s e t, G s e → P s → step s e = .ok t → P t) {s : σ} {es : List ε} (hs : P s)
    (hG : Meets step G s es) : ∃ t, run step s es = .ok t := by
  induction es generalizing s with
  | nil => exact ⟨s, rfl⟩
  | cons e es ih =>
    obtain ⟨t, ht⟩ := htotal s e hs
    obtain ⟨u, hu⟩ := ih (hstep s e t (hG t ht).1 hs ht) (hG t ht).2
    exact ⟨u, run_cons_ok.mpr ⟨t, ht, hu⟩⟩

/-- When a step that breaks the guard shows in the state after it, the guard is not
only enough for the property but needed. The events are of a kind `A`. -/
theorem always_iff_meets_of_forall {Q : σ → Prop} {A : ε → Prop} (hPQ : ∀ s, P s → Q s)
    (hstep : ∀ s e t, A e → P s → step s e = .ok t → (G s e → P t) ∧ (Q t → G s e))
    {s : σ} (hs : P s) {es : List ε} (hA : ∀ e ∈ es, A e) : Always step Q s es ↔ Meets step G s es := by
  induction es generalizing s with
  | nil => exact iff_of_true (hPQ s hs) trivial
  | cons e es ih =>
    obtain ⟨hAe, hAs⟩ := List.forall_mem_cons.mp hA
    constructor
    · rintro ⟨_, h⟩ t ht
      have hGe : G s e := (hstep s e t hAe hs ht).2 (h t ht).head
      exact ⟨hGe, (ih ((hstep s e t hAe hs ht).1 hGe) hAs).mp (h t ht)⟩
    · intro h
      refine ⟨hPQ s hs, fun t ht => ?_⟩
      exact (ih ((hstep s e t hAe hs ht).1 (h t ht).1) hAs).mpr (h t ht).2

theorem always_iff_meets {Q : σ → Prop} (hPQ : ∀ s, P s → Q s)
    (hstep : ∀ s e t, P s → step s e = .ok t → (G s e → P t) ∧ (Q t → G s e))
    {s : σ} (hs : P s) (es : List ε) : Always step Q s es ↔ Meets step G s es :=
  always_iff_meets_of_forall (A := fun _ => True) hPQ (fun s e t _ => hstep s e t) hs fun _ _ => trivial

end Invariants

theorem run_append (step : σ → ε → Except κ σ) (s : σ) (es fs : List ε) :
    run step s (es ++ fs) = run step s es >>= fun t => run step t fs := by
  induction es generalizing s with
  | nil => rfl
  | cons e es ih =>
    rw [List.cons_append, run, run]
    cases step s e with
    | ok t => exact ih t
    | error k => rfl

/-- A step function that may only get stuck. -/
def ofOption (f : σ → ε → Option σ) (s : σ) (e : ε) : Except Unit σ :=
  match f s e with
  | some t => .ok t
  | none => .error ()

@[simp] theorem ofOption_ok {f : σ → ε → Option σ} {s t : σ} {e : ε} :
    ofOption f s e = .ok t ↔ f s e = some t := by
  unfold ofOption
  split <;> simp [*]

/-- Peels a computation that succeeded apart. -/
theorem bind_ok {κ : Type w} {α β : Type u} {x : Except κ α} {f : α → Except κ β} {b : β} :
    (x >>= f) = .ok b ↔ ∃ a, x = .ok a ∧ f a = .ok b := by
  cases x with
  | error k => simp [bind, Except.bind]
  | ok a => simp [bind, Except.bind]

theorem bind_error {κ : Type w} {α β : Type u} {x : Except κ α} {f : α → Except κ β} {k : κ} :
    (x >>= f) = .error k ↔ x = .error k ∨ ∃ a, x = .ok a ∧ f a = .error k := by
  cases x with
  | error k' => simp [bind, Except.bind]
  | ok a => simp [bind, Except.bind]

end Transition
