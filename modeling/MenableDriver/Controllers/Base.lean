import MenableDriver.Uiq.Base

/-!
# The base of the controllers

`controller_base.c` cuts a burst into shots and leaves the protocol to the hooks of the controller.
A hook may answer what it likes, also differently from call to call: the answer depends on all the
calls of the burst up to its own. What the hooks see in the controller is kept with each call.
-/

namespace MenableDriver

set_option autoImplicit false

def STATUS_OK : Int := 0
def STATUS_ERROR : Int := -1
def STATUS_ERR_DEV_IO : Int := -3
def STATUS_ERR_NOT_FOUND : Int := -4
def STATUS_ERR_INVALID_ARGUMENT : Int := -5
def STATUS_ERR_INSUFFICIENT_MEM : Int := -6
def STATUS_ERR_INVALID_OPERATION : Int := -7
def STATUS_ERR_INVALID_STATE : Int := -10

def menIsError (retval : Int) : Bool := decide (retval < 0)

/-- `controller_base_init` takes the sizes as `int`, and none of them is below one. -/
structure ShotLimit where
  val : Nat
  pos : 0 < val
  lt : val < 2 ^ 31

theorem ShotLimit.one_lt : 1 < 2 ^ 31 := by decide

/-- What the implementation of a controller provides, beside its hooks. -/
structure ControllerBase where
  readQueueSize : ShotLimit
  maxBytesPerRead : ShotLimit
  writeQueueSize : ShotLimit
  maxBytesPerWrite : ShotLimit

/-- The hooks with their arguments. The bytes of a write shot are those that `num_bytes` counts from
the pointer on; a read shot has its place in the buffer and its size. -/
inductive HookCall
  | handlePreBurstFlags (flags : Word)
  | handlePostBurstFlags (flags : Word)
  | writeShot (bytes : List (BitVec 8))
  | waitForWriteQueueEmpty
  | requestRead (numBytes : Nat)
  | readShot (buf numBytes : Nat)
  | burstAborted
deriving DecidableEq

structure BurstCall where
  hook : HookCall
  currentBurstFlags : BitVec 8
  isFirstShot : Bool
  isLastShot : Bool
deriving DecidableEq

/-- What the controller provides for its hooks, and the calls since the burst began. -/
structure BurstState where
  currentBurstFlags : BitVec 8
  isFirstShot : Bool
  isLastShot : Bool
  calls : List BurstCall

abbrev Hooks := List BurstCall → Int

namespace BurstState

def record (st : BurstState) (hook : HookCall) : BurstState :=
  { st with calls := st.calls ++ [⟨hook, st.currentBurstFlags, st.isFirstShot, st.isLastShot⟩] }

/-- A call whose error leads to the label `error`. -/
def attempt (hooks : Hooks) (st : BurstState) (hook : HookCall) : Except BurstState BurstState :=
  if menIsError (hooks (st.record hook).calls) then .error (st.record hook) else .ok (st.record hook)

def setShot (st : BurstState) (isFirst isLast : Bool) : BurstState :=
  { st with isFirstShot := isFirst, isLastShot := isLast }

end BurstState

def ctrlCleanupBurstState (st : BurstState) : BurstState :=
  ({ st with currentBurstFlags := 0, isFirstShot := false, isLastShot := false }).record .burstAborted

/-- How both bursts begin. -/
def beginBurst (hooks : Hooks) (st : BurstState) (flags : Word) : Except BurstState BurstState :=
  ({ st with currentBurstFlags := flags.setWidth 8, calls := [] }).attempt hooks (.handlePreBurstFlags flags)

/-- How both bursts end. What the handler of the flags returns is not looked at. -/
def finishBurst (flags : Word) : Except BurstState BurstState → Int × BurstState
  | .error st => (STATUS_ERROR, ctrlCleanupBurstState st)
  | .ok st => (STATUS_OK, { st.record (.handlePostBurstFlags flags) with currentBurstFlags := 0 })

/-! ### Errors of the hooks -/

/-- The hooks whose result the bursts look at. -/
def HookCall.checked : HookCall → Bool
  | .handlePostBurstFlags _ => false
  | .burstAborted => false
  | _ => true

def BurstCall.aborted : BurstCall := ⟨.burstAborted, 0, false, false⟩

/-- The call that the list ends with is one of a checked hook, and the hook reports an error. -/
def EndsInError (hooks : Hooks) (before : List BurstCall) (call : BurstCall) : Prop :=
  call.hook.checked = true ∧ menIsError (hooks (before ++ [call])) = true

/-- An error ends the burst: nothing is called after it but `burst_aborted`, once and with the flags
cleared. -/
structure EndsOnFailure (hooks : Hooks) (ret : Int) (st : BurstState) : Prop where
  status : ret = STATUS_OK ∨ ret = STATUS_ERROR
  aborts : ∀ before call, before ++ [call] <+: st.calls → EndsInError hooks before call →
    ret = STATUS_ERROR ∧ st.calls = before ++ [call] ++ [BurstCall.aborted]
  onlyThen : ret = STATUS_ERROR → ∃ before call, before ++ [call] <+: st.calls ∧ EndsInError hooks before call
  once : (st.calls.filter fun call => call.hook = .burstAborted).length = if ret = STATUS_ERROR then 1 else 0
  cleared : ret = STATUS_ERROR → st.currentBurstFlags = 0 ∧ st.isFirstShot = false ∧ st.isLastShot = false

/-- Checked hooks only, and none of them failed. -/
def AllAnswered (hooks : Hooks) (calls : List BurstCall) : Prop :=
  ∀ before call, before ++ [call] <+: calls → call.hook.checked = true ∧ ¬EndsInError hooks before call

/-- How far a burst has come: it goes on after calls that all succeeded, or the last one failed. -/
def Settles (hooks : Hooks) : Except BurstState BurstState → Prop
  | .ok st => AllAnswered hooks st.calls
  | .error st => ∃ before call, st.calls = before ++ [call] ∧ AllAnswered hooks before ∧
    EndsInError hooks before call

variable {hooks : Hooks} {st : BurstState} {hook : HookCall} {calls before : List BurstCall}
    {call : BurstCall}
  {flags : Word}

theorem allAnswered_nil : AllAnswered hooks [] :=
  fun _ _ h => absurd (List.prefix_nil.mp h) (by simp)

theorem allAnswered_concat (h : AllAnswered hooks calls) (hc : call.hook.checked = true)
    (hok : ¬EndsInError hooks calls call) : AllAnswered hooks (calls ++ [call]) := by
  intro before last hp
  rcases List.prefix_concat_iff.mp hp with heq | hp
  · obtain ⟨rfl, rfl⟩ := List.append_singleton_inj.mp heq
    exact ⟨hc, hok⟩
  · exact h before last hp

theorem attempt_settles (hst : AllAnswered hooks st.calls) (hc : hook.checked = true) :
    Settles hooks (st.attempt hooks hook) := by
  unfold BurstState.attempt
  split
  · rename_i herr
    exact ⟨st.calls, _, rfl, hst, hc, herr⟩
  · rename_i hok
    exact allAnswered_concat hst hc fun h => hok h.2

/-- A part of a burst gets to its end, with `Q`, or leaves the burst at a call that failed, with `E`. -/
def BurstEnds {α : Type} (E : BurstState → Prop) (r : Except BurstState α) (Q : α → Prop) : Prop :=
  match r with
  | .ok a => Q a
  | .error st => E st

theorem BurstEnds.bind {α β : Type} {E : BurstState → Prop} {r : Except BurstState α}
    {f : α → Except BurstState β} {Q : α → Prop} {R : β → Prop} (h : BurstEnds E r Q)
    (hf : ∀ a, Q a → BurstEnds E (f a) R) : BurstEnds E (r >>= f) R := by
  cases r with
  | ok a => exact hf a h
  | error st => exact h

theorem BurstEnds.mono {α : Type} {E : BurstState → Prop} {r : Except BurstState α} {Q R : α → Prop}
    (h : BurstEnds E r Q) (hQR : ∀ a, Q a → R a) : BurstEnds E r R := by
  cases r with
  | ok a => exact hQR a h
  | error st => exact h

/-- A checked call, where `E` allows that it fails. -/
theorem attempt_ends {E : BurstState → Prop} (h : AllAnswered hooks st.calls) (hc : hook.checked = true)
    (hE : Settles hooks (.error (st.record hook)) → E (st.record hook)) :
    BurstEnds E (st.attempt hooks hook) fun st' =>
      st' = st.record hook ∧ AllAnswered hooks st'.calls := by
  have hsettles := attempt_settles h hc
  unfold BurstState.attempt at hsettles ⊢
  split_ifs at hsettles ⊢ with herr
  · exact hE hsettles
  · exact ⟨rfl, hsettles⟩

theorem filter_aborted (h : AllAnswered hooks calls) :
    (calls.filter fun call => call.hook = .burstAborted) = [] := by
  rw [List.filter_eq_nil_iff]
  intro call hmem haborted
  obtain ⟨before, after, rfl⟩ := List.append_of_mem hmem
  have hchecked := (h before call ⟨after, by simp⟩).1
  rw [of_decide_eq_true haborted] at hchecked
  exact absurd hchecked (by decide)

/-- A failed call is the final one before the abort. -/
theorem finishBurst_error (h : AllAnswered hooks before) (herr : EndsInError hooks before call)
    (hst : st.calls = before ++ [call]) :
    EndsOnFailure hooks STATUS_ERROR (ctrlCleanupBurstState st) := by
  have hcalls : (ctrlCleanupBurstState st).calls = before ++ [call] ++ [BurstCall.aborted] := by
    rw [← hst]
    rfl
  refine ⟨Or.inr rfl, ?_, ?_, ?_, fun _ => ⟨rfl, rfl, rfl⟩⟩
  · intro before' call' hp herr'
    refine ⟨rfl, ?_⟩
    rw [hcalls] at hp ⊢
    rcases List.prefix_concat_iff.mp hp with heq | hp
    · obtain ⟨rfl, rfl⟩ := List.append_singleton_inj.mp heq
      exact absurd herr'.1 (by decide)
    · rcases List.prefix_concat_iff.mp hp with heq | hp
      · rw [heq]
      · exact absurd herr' (h before' call' hp).2
  · intro _
    exact ⟨before, call, ⟨[BurstCall.aborted], hcalls.symm⟩, herr⟩
  · have hcall : ¬call.hook = .burstAborted := by
      intro heq
      have hchecked := herr.1
      rw [heq] at hchecked
      exact absurd hchecked (by decide)
    rw [hcalls, List.filter_append, List.filter_append, filter_aborted h]
    simp [hcall, BurstCall.aborted]

theorem finishBurst_ok (h : AllAnswered hooks st.calls) :
    EndsOnFailure hooks STATUS_OK
      { st.record (.handlePostBurstFlags flags) with currentBurstFlags := 0 } := by
  have hne : ¬STATUS_OK = STATUS_ERROR := by decide
  refine ⟨Or.inl rfl, ?_, fun heq => absurd heq hne, ?_, fun heq => absurd heq hne⟩
  · intro before call hp herr
    rcases List.prefix_concat_iff.mp hp with heq | hp
    · have hcall := (List.append_singleton_inj.mp heq).2
      have hchecked := herr.1
      rw [hcall] at hchecked
      exact absurd hchecked Bool.false_ne_true
    · exact absurd herr (h before call hp).2
  · rw [if_neg hne]
    simp only [BurstState.record]
    rw [List.filter_append, filter_aborted h]
    simp

theorem finishBurst_ends {r : Except BurstState BurstState} (h : Settles hooks r) :
    EndsOnFailure hooks (finishBurst flags r).1 (finishBurst flags r).2 := by
  cases r with
  | ok st => exact finishBurst_ok h
  | error st =>
    obtain ⟨before, call, hst, hok, herr⟩ := h
    exact finishBurst_error hok herr hst

/-- The hooks that are called so far all satisfy `P`. -/
def CalledOnly (P : HookCall → Prop) (st : BurstState) : Prop := ∀ call ∈ st.calls, P call.hook

theorem CalledOnly.record {P : HookCall → Prop} (h : CalledOnly P st) (hP : P hook) :
    CalledOnly P (st.record hook) := by
  intro call hmem
  rcases List.mem_append.mp hmem with hmem | hmem
  · exact h call hmem
  · rw [List.mem_singleton.mp hmem]
    exact hP

theorem attempt_keeps {Q : List BurstCall → Prop} (h : Q (st.record hook).calls) :
    BurstEnds (fun st => Q st.calls) (st.attempt hooks hook) fun st => Q st.calls := by
  unfold BurstState.attempt
  split_ifs
  · exact h
  · exact h

theorem finishBurst_calls {P : HookCall → Prop} {r : Except BurstState BurstState}
    (h : BurstEnds (CalledOnly P) r (CalledOnly P)) (hpost : P (.handlePostBurstFlags flags))
    (habort : P .burstAborted) : CalledOnly P (finishBurst flags r).2 := by
  cases r with
  | ok st => exact CalledOnly.record h hpost
  | error st =>
    have hcleared : CalledOnly P
        { st with currentBurstFlags := 0, isFirstShot := false, isLastShot := false } := h
    exact hcleared.record habort

end MenableDriver
