import MenableDriver.Controllers.ReadBurst
import MenableDriver.Controllers.WriteBurst
import MenableDriver.Data.Replay

/-!
# Hooks with a state

The hooks of a controller keep their state in the controller and in its registers. What they answer is found by
replaying the calls of the burst up to the one in question. A burst in which a call of a hook does not return
does not return either.
-/

namespace MenableDriver

set_option autoImplicit false

open Replay (replay)

universe u

/-- The hooks of a machine that is in the state `s` when the burst begins. -/
def machineHooks {σ : Type u} (step : σ → BurstCall → Option (σ × Int)) (s : σ) : Hooks :=
  fun calls => ((replay step (s, STATUS_OK) calls).map Prod.snd).getD STATUS_OK

/-- A burst on the hooks of a machine, with the state that it leaves. -/
def machineBurst {σ : Type u} (step : σ → BurstCall → Option (σ × Int)) (s : σ)
    (burst : Hooks → Int × BurstState) : Option (Int × BurstState × σ) :=
  let (ret, st) := burst (machineHooks step s)
  (replay step (s, STATUS_OK) st.calls).map fun r => (ret, st, r.1)

variable {σ : Type u} {step : σ → BurstCall → Option (σ × Int)} {s s' : σ} {burst : Hooks → Int × BurstState}
  {ret : Int} {st : BurstState} {calls before : List BurstCall} {call : BurstCall}

theorem machineHooks_concat {r : σ × Int} {ret : Int} (hbefore : replay step (s, STATUS_OK) before = some r)
    (hcall : step r.1 call = some (s', ret)) : machineHooks step s (before ++ [call]) = ret := by
  unfold machineHooks
  rw [Replay.replay_concat, hbefore, Option.bind_some, hcall]
  rfl

theorem machineBurst_eq_some (h : machineBurst step s burst = some (ret, st, s')) :
    burst (machineHooks step s) = (ret, st) ∧ ∃ a, replay step (s, STATUS_OK) st.calls = some (s', a) := by
  unfold machineBurst at h
  obtain ⟨r, hreplay, heq⟩ := Option.map_eq_some_iff.mp h
  simp only [Prod.mk.injEq] at heq
  obtain ⟨rfl, rfl, rfl⟩ := heq
  exact ⟨rfl, r.2, hreplay⟩

/-- A burst returns when all of its calls do. -/
theorem machineBurst_of_replay {r : σ × Int}
    (h : replay step (s, STATUS_OK) (burst (machineHooks step s)).2.calls = some r) :
    machineBurst step s burst = some ((burst (machineHooks step s)).1, (burst (machineHooks step s)).2,
      r.1) := by
  unfold machineBurst
  dsimp only
  rw [h]
  rfl

/-- A burst returns when each of its calls does, from the states that the invariant allows. -/
theorem machineBurst_returns {I : List BurstCall → σ → Prop} (hstart : I [] s)
    (hstep : ∀ before call s₁, before ++ [call] <+: (burst (machineHooks step s)).2.calls → I before s₁ →
      ∃ r, step s₁ call = some r ∧ I (before ++ [call]) r.1) : ∃ r, machineBurst step s burst = some r := by
  have hstart' : I [] (s, STATUS_OK).1 := hstart
  obtain ⟨r, hr, -⟩ := Replay.replay_returns hstart' hstep (List.prefix_refl _)
  exact ⟨_, machineBurst_of_replay hr⟩

/-- A call that reports an error, if it is a checked one, makes the burst fail. -/
theorem machine_error {r r' : σ × Int} (hends : EndsOnFailure (machineHooks step s) ret st)
    (hp : before ++ [call] <+: st.calls) (hbefore : replay step (s, STATUS_OK) before = some r)
    (hcall : step r.1 call = some r') (hchecked : call.hook.checked = true) (herr : menIsError r'.2 = true) :
    ret = STATUS_ERROR := by
  have hret : machineHooks step s (before ++ [call]) = r'.2 := machineHooks_concat hbefore hcall
  exact (hends.aborts before call hp ⟨hchecked, by rw [hret]; exact herr⟩).1

/-- When no checked call reports an error the burst succeeds. -/
theorem machine_ok (hends : EndsOnFailure (machineHooks step s) ret st)
    (hcalls : ∀ before call, before ++ [call] <+: st.calls → call.hook.checked = true →
      ∃ r r', replay step (s, STATUS_OK) before = some r ∧ step r.1 call = some r' ∧ menIsError r'.2 = false) :
    ret = STATUS_OK := by
  rcases hends.status with hok | herr
  · exact hok
  · obtain ⟨before, call, hp, hchecked, herror⟩ := hends.onlyThen herr
    obtain ⟨r, r', hbefore, hcall, hno⟩ := hcalls before call hp hchecked
    have hret : machineHooks step s (before ++ [call]) = r'.2 := machineHooks_concat hbefore hcall
    rw [hret, hno] at herror
    exact absurd herror Bool.false_ne_true

end MenableDriver
