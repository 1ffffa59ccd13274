import MenableDriver.Controllers.Rules

/-!
# Runs of bursts

A controller serves one burst after the other, in this transaction or in the next one, and keeps its state
between them. A failed burst ends a transaction and not the run.
-/

namespace MenableDriver

set_option autoImplicit false

universe u v

/-- A burst, as a transaction hands it to a controller. -/
inductive Burst
  | write (flags : Word) (bytes : List (BitVec 8))
  | read (flags : Word) (size : Nat)
  | stateChange (flags : Word)
deriving DecidableEq

/-- The result, with the data of a read burst. -/
structure Served where
  ret : Int
  data : List (BitVec 8)
deriving DecidableEq

/-- For a change of the state a transaction calls the hook for the flags behind a burst, and nothing else. -/
def stateChangeBurst (hooks : Hooks) (st : BurstState) (flags : Word) : Int × BurstState :=
  let st := { st with calls := [] }.record (.handlePostBurstFlags flags)
  (hooks st.calls, st)

section Serve
variable {σ : Type u} (step : σ → BurstCall → Option (σ × Int)) (ctrl : ControllerBase)
  (buffer : σ → Nat → BitVec 8)

def serveBurst (st : BurstState) (s : σ) : Burst → Option (Served × BurstState × σ)
  | .write flags bytes =>
    (machineBurst step s fun hooks => ctrlWriteBurst ctrl hooks st flags bytes).map fun (ret, st, s) =>
      (⟨ret, []⟩, st, s)
  | .read flags size =>
    (machineBurst step s fun hooks => ctrlReadBurst ctrl hooks st flags size).map fun (ret, st, s) =>
      (⟨ret, if ret = STATUS_OK then (List.range size).map (buffer s) else []⟩, st, s)
  | .stateChange flags =>
    (machineBurst step s fun hooks => stateChangeBurst hooks st flags).map fun (ret, st, s) => (⟨ret, []⟩, st, s)

def serveAll : List Burst → BurstState → σ → Option (List Served × σ)
  | [], _, s => some ([], s)
  | burst :: bursts, st, s => do
    let (served, st, s) ← serveBurst step ctrl buffer st s burst
    let (rest, s) ← serveAll bursts st s
    some (served :: rest, s)

end Serve

/-- The same for a machine that does a burst at once. -/
def execAll {β : Type v} (exec : β → Burst → Served × β) : β → List Burst → List Served × β
  | b, [] => ([], b)
  | b, burst :: bursts =>
    let (served, b) := exec b burst
    let (rest, b) := execAll exec b bursts
    (served :: rest, b)

variable {σ : Type u} {β : Type v} {step : σ → BurstCall → Option (σ × Int)} {ctrl : ControllerBase}
  {buffer : σ → Nat → BitVec 8} {R : σ → β → Prop} {exec : β → Burst → Served × β} {st : BurstState} {s : σ}
  {E F Q : σ → Prop} {flags : Word} {size : Nat}

/-- A controller that does what the other machine does burst by burst does so in every run. -/
theorem serveAll_refines (h : ∀ st s b burst, R s b → ∃ st' s',
      serveBurst step ctrl buffer st s burst = some ((exec b burst).1, st', s') ∧ R s' (exec b burst).2)
    (bursts : List Burst) : ∀ st s b, R s b → ∃ s',
      serveAll step ctrl buffer bursts st s = some ((execAll exec b bursts).1, s') ∧
        R s' (execAll exec b bursts).2 := by
  induction bursts with
  | nil => exact fun st s b hR => ⟨s, rfl, hR⟩
  | cons burst bursts ih =>
    intro st s b hR
    obtain ⟨st₁, s₁, hburst, hR₁⟩ := h st s b burst hR
    obtain ⟨s₂, hrest, hR₂⟩ := ih st₁ s₁ _ hR₁
    refine ⟨s₂, ?_, hR₂⟩
    rw [serveAll, hburst]
    simp only [Option.bind_eq_bind, Option.bind_some, hrest]
    rfl

theorem serveBurst_write (buffer : σ → Nat → BitVec 8) {bytes : List (BitVec 8)}
    (h : BurstLeads (machineBurst step s fun hooks => ctrlWriteBurst ctrl hooks st flags bytes) F Q) :
    ∃ ret st' s', serveBurst step ctrl buffer st s (.write flags bytes) = some (⟨ret, []⟩, st', s') ∧
      (ret = STATUS_OK ∧ Q s' ∨ ret = STATUS_ERROR ∧ F s') := by
  obtain ⟨ret, st', s', hburst, hends⟩ := h
  refine ⟨ret, st', s', ?_, hends⟩
  rw [serveBurst, hburst]
  rfl

theorem serveBurst_read (buffer : σ → Nat → BitVec 8)
    (h : BurstLeads (machineBurst step s fun hooks => ctrlReadBurst ctrl hooks st flags size) F Q) :
    ∃ ret st' s', serveBurst step ctrl buffer st s (.read flags size) =
        some (⟨ret, if ret = STATUS_OK then (List.range size).map (buffer s') else []⟩, st', s') ∧
      (ret = STATUS_OK ∧ Q s' ∨ ret = STATUS_ERROR ∧ F s') := by
  obtain ⟨ret, st', s', hburst, hends⟩ := h
  refine ⟨ret, st', s', ?_, hends⟩
  rw [serveBurst, hburst]
  rfl

theorem serveBurst_stateChange (ctrl : ControllerBase) (buffer : σ → Nat → BitVec 8) {r : σ × Int}
    (h : step s ⟨.handlePostBurstFlags flags, st.currentBurstFlags, st.isFirstShot, st.isLastShot⟩ = some r) :
    ∃ st', serveBurst step ctrl buffer st s (.stateChange flags) = some (⟨r.2, []⟩, st', r.1) := by
  have hcalls : Replay.replay step (s, STATUS_OK)
      ({ st with calls := [] }.record (.handlePostBurstFlags flags)).calls = some r := by
    simp only [BurstState.record, List.nil_append, Replay.replay, h, Option.bind_some]
  refine ⟨{ st with calls := [] }.record (.handlePostBurstFlags flags), ?_⟩
  have hret : machineHooks step s ({ st with calls := [] }.record (.handlePostBurstFlags flags)).calls = r.2 := by
    rw [machineHooks, hcalls]
    rfl
  rw [serveBurst, machineBurst, stateChangeBurst]
  dsimp only
  rw [hcalls, hret]
  rfl

end MenableDriver
