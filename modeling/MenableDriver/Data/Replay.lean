import Mathlib.Data.List.Induction

/-!
# Replaying a log of calls

A machine answers calls, each from the state that the calls before it have left. A call may also not return.
What the machine does is determined by the log of the calls, so a part of a log that was replayed tells what
every later call finds.
-/

namespace Replay

set_option autoImplicit false

universe u v w
variable {σ : Type u} {α : Type v} {ρ : Type w}

/-- The state after the calls, with the answer to the last one. -/
def replay (step : σ → α → Option (σ × ρ)) : σ × ρ → List α → Option (σ × ρ)
  | r, [] => some r
  | r, call :: calls => (step r.1 call).bind fun r => replay step r calls

variable {step : σ → α → Option (σ × ρ)} {r r' : σ × ρ} {calls before all : List α} {call : α}

theorem replay_append (r : σ × ρ) (calls calls' : List α) :
    replay step r (calls ++ calls') = (replay step r calls).bind fun r => replay step r calls' := by
  induction calls generalizing r with
  | nil => rfl
  | cons call calls ih =>
    rw [List.cons_append, replay, replay, Option.bind_assoc]
    congr 1
    funext r
    exact ih r

theorem replay_concat (r : σ × ρ) (calls : List α) (call : α) :
    replay step r (calls ++ [call]) = (replay step r calls).bind fun r => step r.1 call := by
  rw [replay_append]
  congr 1
  funext r
  rw [replay]
  cases step r.1 call <;> rfl

/-- Every call up to one that has returned has returned too. -/
theorem replay_of_prefix (h : replay step r all = some r') (hp : before <+: all) :
    ∃ r₁, replay step r before = some r₁ := by
  obtain ⟨after, rfl⟩ := hp
  rw [replay_append] at h
  obtain ⟨r₁, hr₁, -⟩ := Option.bind_eq_some_iff.mp h
  exact ⟨r₁, hr₁⟩

theorem replay_concat_eq_some (h : replay step r (before ++ [call]) = some r') :
    ∃ r₁, replay step r before = some r₁ ∧ step r₁.1 call = some r' := by
  rw [replay_concat] at h
  exact Option.bind_eq_some_iff.mp h

/-- What holds at the start and is kept by each call of the log holds at its end. -/
theorem replay_invariant {I : List α → σ → Prop} (hstart : I [] r.1)
    (hstep : ∀ before call s r', before ++ [call] <+: all → I before s → step s call = some r' →
      I (before ++ [call]) r'.1)
    (h : replay step r calls = some r') (hp : calls <+: all) : I calls r'.1 := by
  induction calls using List.reverseRecOn generalizing r' with
  | nil =>
    obtain rfl := Option.some.inj h
    exact hstart
  | append_singleton calls call ih =>
    obtain ⟨r₁, hbefore, hcall⟩ := replay_concat_eq_some h
    exact hstep calls call r₁.1 r' hp (ih hbefore ((List.prefix_append calls [call]).trans hp)) hcall

/-- The log can be replayed when every call returns from the states that the invariant allows. -/
theorem replay_returns {I : List α → σ → Prop} (hstart : I [] r.1)
    (hstep : ∀ before call s, before ++ [call] <+: all → I before s →
      ∃ r', step s call = some r' ∧ I (before ++ [call]) r'.1)
    (hp : calls <+: all) : ∃ r', replay step r calls = some r' ∧ I calls r'.1 := by
  induction calls using List.reverseRecOn with
  | nil => exact ⟨r, rfl, hstart⟩
  | append_singleton calls call ih =>
    obtain ⟨r₁, hbefore, hI⟩ := ih ((List.prefix_append calls [call]).trans hp)
    obtain ⟨r', hcall, hI'⟩ := hstep calls call r₁.1 hp hI
    refine ⟨r', ?_, hI'⟩
    rw [replay_concat, hbefore]
    exact hcall

/-- What does not hold at the start and holds at the end has come with one of the calls. -/
theorem replay_crosses {Q : σ → Prop} (hstart : ¬Q r.1) (h : replay step r calls = some r') (hend : Q r'.1) :
    ∃ before call r₁ r₂, before ++ [call] <+: calls ∧ replay step r before = some r₁ ∧ ¬Q r₁.1 ∧
      step r₁.1 call = some r₂ ∧ Q r₂.1 := by
  induction calls using List.reverseRecOn generalizing r' with
  | nil =>
    obtain rfl := Option.some.inj h
    exact absurd hend hstart
  | append_singleton calls call ih =>
    obtain ⟨r₁, hbefore, hcall⟩ := replay_concat_eq_some h
    by_cases hQ : Q r₁.1
    · obtain ⟨before, call', r₂, r₃, hp, hrest⟩ := ih hbefore hQ
      exact ⟨before, call', r₂, r₃, hp.trans (List.prefix_append calls [call]), hrest⟩
    · exact ⟨calls, call, r₁, r', List.prefix_refl _, hbefore, hQ, hcall, hend⟩

end Replay
