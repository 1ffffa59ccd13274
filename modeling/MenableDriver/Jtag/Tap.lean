import Mathlib.Data.List.Basic

/-!
# The TAP state machine

The test access port of IEEE 1149.1 takes a step with every clock, to the left or to the right
by the bit on its TMS pin.
-/

namespace Tap

set_option autoImplicit false

inductive State where
  | testLogicReset | runTestIdle
  | selectDr | captureDr | shiftDr | exit1Dr | pauseDr | exit2Dr | updateDr
  | selectIr | captureIr | shiftIr | exit1Ir | pauseIr | exit2Ir | updateIr
deriving DecidableEq, Repr

def next : State → Bool → State
  | .testLogicReset, tms => if tms then .testLogicReset else .runTestIdle
  | .runTestIdle, tms => if tms then .selectDr else .runTestIdle
  | .selectDr, tms => if tms then .selectIr else .captureDr
  | .captureDr, tms => if tms then .exit1Dr else .shiftDr
  | .shiftDr, tms => if tms then .exit1Dr else .shiftDr
  | .exit1Dr, tms => if tms then .updateDr else .pauseDr
  | .pauseDr, tms => if tms then .exit2Dr else .pauseDr
  | .exit2Dr, tms => if tms then .updateDr else .shiftDr
  | .updateDr, tms => if tms then .selectDr else .runTestIdle
  | .selectIr, tms => if tms then .testLogicReset else .captureIr
  | .captureIr, tms => if tms then .exit1Ir else .shiftIr
  | .shiftIr, tms => if tms then .exit1Ir else .shiftIr
  | .exit1Ir, tms => if tms then .updateIr else .pauseIr
  | .pauseIr, tms => if tms then .exit2Ir else .pauseIr
  | .exit2Ir, tms => if tms then .updateIr else .shiftIr
  | .updateIr, tms => if tms then .selectDr else .runTestIdle

/-- The state after the bits, the first one first. -/
def run (s : State) (bits : List Bool) : State := bits.foldl next s

theorem run_append (s : State) (bits bits' : List Bool) : run s (bits ++ bits') = run (run s bits) bits' :=
  List.foldl_append

/-- Five ones lead to the reset from everywhere. -/
theorem run_ones (s : State) : run s (List.replicate 5 true) = .testLogicReset := by
  cases s <;> rfl

/-- The state does not change while TMS is low. -/
def Stable (s : State) : Prop := next s false = s

theorem stable_runTestIdle : Stable .runTestIdle := rfl

theorem stable_shiftDr : Stable .shiftDr := rfl

theorem stable_shiftIr : Stable .shiftIr := rfl

theorem Stable.run_zeros {s : State} (hs : Stable s) (n : Nat) : run s (List.replicate n false) = s := by
  induction n with
  | zero => rfl
  | succ n ih =>
    have hnext : next s false = s := hs
    rw [List.replicate_succ, run, List.foldl_cons, hnext]
    exact ih

end Tap
