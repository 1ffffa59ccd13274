import MenableDriver.Controllers.Base
import MenableDriver.Sgl.PageGroupSize
import MenableDriver.Uiq.Base

/-!
# The engine of the messaging DMA

`dma_controller_base.c` starts, stops and resets an engine by its control register and asks its status register
how it is. `messaging_dma_controller.c` declares the pages to it. What a status says and how long a wait lasts
may depend on all accesses so far.
-/

namespace MenableDriver

set_option autoImplicit false

def STATUS_ERR_TIMEOUT : Int := -2

def DMA_CTRL_BIT_ENABLE : Word := 0x1#32
def DMA_CTRL_BIT_RESET : Word := 0x2#32

def DMA_STATUS_BIT_ENABLED : Word := 0x1#32
def DMA_STATUS_BIT_RESETTING : Word := 0x2#32
def DMA_STATUS_BIT_RUNNING : Word := 0x4#32

/-- An access to the registers, with the value of a status. -/
inductive EngineAccess
  | status (value : Word)
  | control (value : Word)
  | barrier
  | init (value : Word)
deriving DecidableEq, Repr

/-- The next status, and the rounds of the next wait until its time is over. -/
structure EngineDevice where
  status : List EngineAccess → Word
  rounds : List EngineAccess → Nat

section Engine
variable (d : EngineDevice)

def areStatusBitsSet (a : List EngineAccess) (statusBits : Word) : Bool × List EngineAccess :=
  (areBitsSet (d.status a) statusBits, a ++ [.status (d.status a)])

/-- `while (are_status_bits_set(..) != wanted && !timeout_has_elapsed(..))` -/
def pollStatus (statusBits : Word) (wanted : Bool) : Nat → List EngineAccess → List EngineAccess
  | 0, a => (areStatusBitsSet d a statusBits).2
  | n + 1, a =>
    let look := areStatusBitsSet d a statusBits
    if look.1 = wanted then look.2 else pollStatus statusBits wanted n look.2

/-- The wait, and the look behind it. -/
def waitForStatus (statusBits : Word) (wanted : Bool) (a : List EngineAccess) : List EngineAccess × Int :=
  let look := areStatusBitsSet d (pollStatus d statusBits wanted (d.rounds a) a) statusBits
  (look.2, if look.1 = wanted then STATUS_OK else STATUS_ERR_TIMEOUT)

def dmaControllerBaseStart (a : List EngineAccess) : List EngineAccess × Int :=
  let enabled := areStatusBitsSet d a DMA_STATUS_BIT_ENABLED
  if enabled.1 then (enabled.2, STATUS_OK)
  else waitForStatus d (DMA_STATUS_BIT_ENABLED ||| DMA_STATUS_BIT_RUNNING) true
    (enabled.2 ++ [.control DMA_CTRL_BIT_ENABLE])

def dmaControllerBaseStop (a : List EngineAccess) : List EngineAccess × Int :=
  let enabled := areStatusBitsSet d a DMA_STATUS_BIT_ENABLED
  let a := if enabled.1 then enabled.2 ++ [.control 0] else enabled.2
  let running := areStatusBitsSet d a DMA_STATUS_BIT_RUNNING
  if running.1 then waitForStatus d DMA_STATUS_BIT_RUNNING false running.2 else (running.2, STATUS_OK)

def dmaControllerBaseAbort (a : List EngineAccess) : List EngineAccess × Int :=
  let stopped := dmaControllerBaseStop d a
  if menIsError stopped.2 then stopped
  else
    let resetting := areStatusBitsSet d stopped.1 DMA_STATUS_BIT_RESETTING
    let a := if resetting.1 then resetting.2 else resetting.2 ++ [.control DMA_CTRL_BIT_RESET] ++ [.barrier]
    waitForStatus d DMA_CTRL_BIT_RESET false (a ++ [.control 0])

def messagingDmaDeclareBuffer (a : List EngineAccess) (bufferId : Nat) (bufferIomemAddress : BitVec 64) :
    List EngineAccess :=
  let regVal1 := setBits32 (bufferIomemAddress.setWidth 32) (BitVec.ofNat 32 bufferId) 0 6
  let regVal1 := setBits32 regVal1 0#32 7 11
  let regVal2 := (bufferIomemAddress >>> 32).setWidth 32
  a ++ [.init regVal1] ++ [.init regVal2]

/-- The loop over the pages from the number `bufId` on. -/
def declareBuffers (bufId : Nat) : List EngineAccess → List (BitVec 64) → List EngineAccess
  | a, [] => a
  | a, address :: addresses => declareBuffers (bufId + 1) (messagingDmaDeclareBuffer a bufId address) addresses

/-- Nobody looks at what the abort says. Then the table of the pages may be refused. -/
def messagingDmaControllerInit (granted : Bool) (bufferIomemAddresses : List (BitVec 64)) (a : List EngineAccess) :
    List EngineAccess × Int :=
  let a := (dmaControllerBaseAbort d a).1
  if granted then (declareBuffers 0 a bufferIomemAddresses, STATUS_OK) else (a, STATUS_ERROR)

/-- Without an init there is no abort to call. -/
def messagingDmaControllerDestroy (hasAbort : Bool) (a : List EngineAccess) : List EngineAccess × Int :=
  (if hasAbort then (dmaControllerBaseAbort d a).1 else a, STATUS_OK)

inductive EngineCall
  | init (granted : Bool) (bufferIomemAddresses : List (BitVec 64))
  | start
  | stop
  | abort
  | destroy (hasAbort : Bool)
deriving DecidableEq, Repr

def engineCall : EngineCall → List EngineAccess → List EngineAccess × Int
  | .init granted addresses => messagingDmaControllerInit d granted addresses
  | .start => dmaControllerBaseStart d
  | .stop => dmaControllerBaseStop d
  | .abort => dmaControllerBaseAbort d
  | .destroy hasAbort => messagingDmaControllerDestroy d hasAbort

/-- The accesses of a run of calls. -/
def engineRun (calls : List EngineCall) (a : List EngineAccess) : List EngineAccess :=
  calls.foldl (fun a call => (engineCall d call a).1) a

end Engine

/-! ### What the accesses show -/

/-- The control register as it was written last, and the two statuses read since the last write. -/
structure EngineView where
  control : Option Word := none
  before : Option Word := none
  last : Option Word := none

def EngineView.see (v : EngineView) : EngineAccess → EngineView
  | .status value => ⟨v.control, v.last, some value⟩
  | .control value => ⟨some value, none, none⟩
  | .barrier => ⟨v.control, none, none⟩
  | .init _ => ⟨v.control, none, none⟩

def engineView (a : List EngineAccess) : EngineView := a.foldl EngineView.see {}

def Shows (seen : Option Word) (statusBits : Word) (set : Bool) : Prop :=
  ∃ value, seen = some value ∧ areBitsSet value statusBits = set

/-- The engine is enabled only when it was just seen to be off, and put into reset only when it was just seen
neither to run nor to be in reset already. The reset ends before anything else is done. -/
def EngineView.Allows (v : EngineView) : EngineAccess → Prop
  | .status _ => v.control ≠ some DMA_CTRL_BIT_RESET
  | .control value =>
    value = 0 ∨ v.control ≠ some DMA_CTRL_BIT_RESET ∧
      (value = DMA_CTRL_BIT_ENABLE ∧ Shows v.last DMA_STATUS_BIT_ENABLED false ∨
        value = DMA_CTRL_BIT_RESET ∧ Shows v.before DMA_STATUS_BIT_RUNNING false ∧
          Shows v.last DMA_STATUS_BIT_RESETTING false)
  | .barrier => v.control = some DMA_CTRL_BIT_RESET
  | .init _ => v.control ≠ some DMA_CTRL_BIT_RESET

def EngineOk : EngineView → List EngineAccess → Prop
  | _, [] => True
  | v, access :: a => v.Allows access ∧ EngineOk (v.see access) a

/-- All accesses were allowed, and the engine is not left in reset. -/
structure EngineRests (a : List EngineAccess) : Prop where
  ok : EngineOk {} a
  control : (engineView a).control ≠ some DMA_CTRL_BIT_RESET

/-- The code of a wait is what the last status shows. -/
def WaitEnds (r : List EngineAccess × Int) (statusBits : Word) (wanted : Bool) : Prop :=
  r.2 = STATUS_OK ∧ Shows (engineView r.1).last statusBits wanted ∨
    r.2 = STATUS_ERR_TIMEOUT ∧ Shows (engineView r.1).last statusBits !wanted

/-- How a call ends. -/
def CallEnds (d : EngineDevice) (a : List EngineAccess) (r : List EngineAccess × Int) : EngineCall → Prop
  | .start =>
    if areBitsSet (d.status a) DMA_STATUS_BIT_ENABLED then
      r.2 = STATUS_OK ∧ (engineView r.1).control = (engineView a).control
    else
      (engineView r.1).control = some DMA_CTRL_BIT_ENABLE ∧
        WaitEnds r (DMA_STATUS_BIT_ENABLED ||| DMA_STATUS_BIT_RUNNING) true
  | .stop =>
    (engineView r.1).control =
        (if areBitsSet (d.status a) DMA_STATUS_BIT_ENABLED then some 0 else (engineView a).control) ∧
      WaitEnds r DMA_STATUS_BIT_RUNNING false
  | .abort =>
    (engineView r.1).control = some 0 ∧ WaitEnds r DMA_CTRL_BIT_RESET false ∨
      r.2 = STATUS_ERR_TIMEOUT ∧ Shows (engineView r.1).last DMA_STATUS_BIT_RUNNING true
  | .init granted _ => r.2 = if granted then STATUS_OK else STATUS_ERROR
  | .destroy _ => r.2 = STATUS_OK

variable {d : EngineDevice} {a b c : List EngineAccess}

theorem engineView_push (a : List EngineAccess) (access : EngineAccess) :
    engineView (a ++ [access]) = (engineView a).see access := by
  rw [engineView, List.foldl_append]
  rfl

theorem engineOk_append (v : EngineView) (a b : List EngineAccess) :
    EngineOk v (a ++ b) ↔ EngineOk v a ∧ EngineOk (a.foldl EngineView.see v) b := by
  induction a generalizing v with
  | nil => exact ⟨fun h => ⟨trivial, h⟩, fun h => h.2⟩
  | cons access a ih =>
    rw [List.cons_append, EngineOk, EngineOk, ih, and_assoc]
    rfl

/-- More accesses, all of them allowed. -/
def Continues (a b : List EngineAccess) : Prop :=
  ∃ more, b = a ++ more ∧ EngineOk (engineView a) more

theorem Continues.refl (a : List EngineAccess) : Continues a a := ⟨[], (List.append_nil a).symm, trivial⟩

theorem Continues.trans (hab : Continues a b) (hbc : Continues b c) : Continues a c := by
  obtain ⟨first, rfl, hfirst⟩ := hab
  obtain ⟨second, rfl, hsecond⟩ := hbc
  refine ⟨first ++ second, List.append_assoc a first second, ?_⟩
  rw [engineView, List.foldl_append] at hsecond
  exact (engineOk_append _ _ _).2 ⟨hfirst, hsecond⟩

theorem Continues.push {access : EngineAccess} (h : Continues a b) (hallows : (engineView b).Allows access) :
    Continues a (b ++ [access]) :=
  h.trans ⟨[access], rfl, hallows, trivial⟩

theorem EngineRests.continues (h : EngineRests a) (hab : Continues a b)
    (hcontrol : (engineView b).control ≠ some DMA_CTRL_BIT_RESET) : EngineRests b := by
  obtain ⟨more, rfl, hmore⟩ := hab
  exact ⟨(engineOk_append _ _ _).2 ⟨h.ok, hmore⟩, hcontrol⟩

/-! ### Looks and waits -/

/-- What looking leaves: the control register is as it was. -/
structure Watched (a b : List EngineAccess) : Prop where
  continues : Continues a b
  control : (engineView b).control = (engineView a).control

theorem Watched.trans (hab : Watched a b) (hbc : Watched b c) : Watched a c :=
  ⟨hab.continues.trans hbc.continues, hbc.control.trans hab.control⟩

theorem areStatusBitsSet_watched (h : (engineView a).control ≠ some DMA_CTRL_BIT_RESET) (statusBits : Word) :
    Watched a (areStatusBitsSet d a statusBits).2 where
  continues := (Continues.refl a).push h
  control := by
    rw [areStatusBitsSet, engineView_push]
    rfl

theorem areStatusBitsSet_shows (d : EngineDevice) (a : List EngineAccess) (statusBits : Word) :
    Shows (engineView (areStatusBitsSet d a statusBits).2).last statusBits (areStatusBitsSet d a statusBits).1 := by
  refine ⟨d.status a, ?_, rfl⟩
  rw [areStatusBitsSet, engineView_push]
  rfl

theorem areStatusBitsSet_before (d : EngineDevice) (a : List EngineAccess) (statusBits : Word) :
    (engineView (areStatusBitsSet d a statusBits).2).before = (engineView a).last := by
  rw [areStatusBitsSet, engineView_push]
  rfl

theorem pollStatus_watched (h : (engineView a).control ≠ some DMA_CTRL_BIT_RESET) (statusBits : Word)
    (wanted : Bool) (n : Nat) : Watched a (pollStatus d statusBits wanted n a) := by
  induction n generalizing a with
  | zero => exact areStatusBitsSet_watched h statusBits
  | succ n ih =>
    have hlook : Watched a (areStatusBitsSet d a statusBits).2 := areStatusBitsSet_watched h statusBits
    rw [pollStatus]
    split
    · exact hlook
    · exact hlook.trans (ih (by rw [hlook.control]; exact h))

theorem waitForStatus_watched (h : (engineView a).control ≠ some DMA_CTRL_BIT_RESET) (statusBits : Word)
    (wanted : Bool) : Watched a (waitForStatus d statusBits wanted a).1 := by
  have hpoll : Watched a (pollStatus d statusBits wanted (d.rounds a) a) := pollStatus_watched h statusBits wanted _
  exact hpoll.trans (areStatusBitsSet_watched (by rw [hpoll.control]; exact h) statusBits)

theorem waitForStatus_ends (d : EngineDevice) (a : List EngineAccess) (statusBits : Word) (wanted : Bool) :
    WaitEnds (waitForStatus d statusBits wanted a) statusBits wanted := by
  have hshows := areStatusBitsSet_shows d (pollStatus d statusBits wanted (d.rounds a) a) statusBits
  unfold waitForStatus
  dsimp only
  generalize areStatusBitsSet d (pollStatus d statusBits wanted (d.rounds a) a) statusBits = look at hshows ⊢
  by_cases hlook : look.1 = wanted
  · rw [if_pos hlook]
    exact .inl ⟨rfl, hlook ▸ hshows⟩
  · rw [if_neg hlook]
    have hnot : look.1 = !wanted := Bool.eq_not_of_ne hlook
    exact .inr ⟨rfl, hnot ▸ hshows⟩

/-! ### The calls -/

theorem control_ne_reset {value : Word} (h : (engineView a).control = some value)
    (hvalue : value ≠ DMA_CTRL_BIT_RESET) : (engineView a).control ≠ some DMA_CTRL_BIT_RESET := by
  rw [h]
  exact fun heq => hvalue (Option.some.inj heq)

theorem control_push (a : List EngineAccess) (value : Word) :
    (engineView (a ++ [.control value])).control = some value := by
  rw [engineView_push]
  rfl

/-- A call that was begun with the engine at rest leaves it at rest. -/
structure CallRests (a b : List EngineAccess) : Prop where
  continues : Continues a b
  control : (engineView b).control ≠ some DMA_CTRL_BIT_RESET

theorem Watched.rests (hab : Watched a b) (h : (engineView a).control ≠ some DMA_CTRL_BIT_RESET) :
    CallRests a b :=
  ⟨hab.continues, by rw [hab.control]; exact h⟩

theorem CallRests.trans (hab : CallRests a b) (hbc : CallRests b c) : CallRests a c :=
  ⟨hab.continues.trans hbc.continues, hbc.control⟩

theorem CallRests.refl (h : (engineView a).control ≠ some DMA_CTRL_BIT_RESET) : CallRests a a :=
  ⟨Continues.refl a, h⟩

/-- The control register may be cleared at any time. -/
theorem clear_rests (a : List EngineAccess) : CallRests a (a ++ [.control 0]) where
  continues := (Continues.refl a).push (.inl rfl)
  control := control_ne_reset (control_push a 0) (by decide)

theorem dmaControllerBaseStart_rests (h : (engineView a).control ≠ some DMA_CTRL_BIT_RESET) :
    CallRests a (dmaControllerBaseStart d a).1 := by
  have hlook : Watched a (areStatusBitsSet d a DMA_STATUS_BIT_ENABLED).2 := areStatusBitsSet_watched h _
  have hshows := areStatusBitsSet_shows d a DMA_STATUS_BIT_ENABLED
  unfold dmaControllerBaseStart
  dsimp only
  split
  · exact hlook.rests h
  · next hoff =>
    rw [Bool.not_eq_true] at hoff
    rw [hoff] at hshows
    have hcontrol := control_ne_reset
      (control_push (areStatusBitsSet d a DMA_STATUS_BIT_ENABLED).2 DMA_CTRL_BIT_ENABLE) (by decide)
    have henable : CallRests a ((areStatusBitsSet d a DMA_STATUS_BIT_ENABLED).2 ++ [.control DMA_CTRL_BIT_ENABLE]) :=
      ⟨hlook.continues.push (.inr ⟨(hlook.rests h).control, .inl ⟨rfl, hshows⟩⟩), hcontrol⟩
    exact henable.trans ((waitForStatus_watched hcontrol _ _).rests hcontrol)

theorem dmaControllerBaseStart_ends (h : (engineView a).control ≠ some DMA_CTRL_BIT_RESET) :
    CallEnds d a (dmaControllerBaseStart d a) .start := by
  have hlook : Watched a (areStatusBitsSet d a DMA_STATUS_BIT_ENABLED).2 := areStatusBitsSet_watched h _
  unfold CallEnds dmaControllerBaseStart
  dsimp only
  by_cases hon : areBitsSet (d.status a) DMA_STATUS_BIT_ENABLED
  · have hlooked : (areStatusBitsSet d a DMA_STATUS_BIT_ENABLED).1 = true := hon
    rw [if_pos hon, if_pos hlooked]
    exact ⟨rfl, hlook.control⟩
  · have hlooked : ¬ (areStatusBitsSet d a DMA_STATUS_BIT_ENABLED).1 = true := hon
    rw [if_neg hon, if_neg hlooked]
    have hcontrol := control_push (areStatusBitsSet d a DMA_STATUS_BIT_ENABLED).2 DMA_CTRL_BIT_ENABLE
    have hwait := waitForStatus_watched (d := d) (control_ne_reset hcontrol (by decide))
      (DMA_STATUS_BIT_ENABLED ||| DMA_STATUS_BIT_RUNNING) true
    exact ⟨hwait.control.trans hcontrol, waitForStatus_ends d _ _ _⟩

/-- The accesses of a stop until it looks whether the engine runs. -/
def stopAccesses (d : EngineDevice) (a : List EngineAccess) : List EngineAccess :=
  let enabled := areStatusBitsSet d a DMA_STATUS_BIT_ENABLED
  if enabled.1 then enabled.2 ++ [.control 0] else enabled.2

theorem stopAccesses_rests (h : (engineView a).control ≠ some DMA_CTRL_BIT_RESET) :
    CallRests a (stopAccesses d a) := by
  have hlook : CallRests a (areStatusBitsSet d a DMA_STATUS_BIT_ENABLED).2 :=
    (areStatusBitsSet_watched h _).rests h
  unfold stopAccesses
  dsimp only
  split
  · exact hlook.trans (clear_rests _)
  · exact hlook

theorem stopAccesses_control (h : (engineView a).control ≠ some DMA_CTRL_BIT_RESET) :
    (engineView (stopAccesses d a)).control =
      if areBitsSet (d.status a) DMA_STATUS_BIT_ENABLED then some 0 else (engineView a).control := by
  have hlook : Watched a (areStatusBitsSet d a DMA_STATUS_BIT_ENABLED).2 := areStatusBitsSet_watched h _
  by_cases hon : areBitsSet (d.status a) DMA_STATUS_BIT_ENABLED
  · have hlooked : (areStatusBitsSet d a DMA_STATUS_BIT_ENABLED).1 = true := hon
    rw [stopAccesses, if_pos hlooked, if_pos hon]
    exact control_push _ 0
  · have hlooked : ¬ (areStatusBitsSet d a DMA_STATUS_BIT_ENABLED).1 = true := hon
    rw [stopAccesses, if_neg hlooked, if_neg hon]
    exact hlook.control

theorem dmaControllerBaseStop_eq (d : EngineDevice) (a : List EngineAccess) :
    dmaControllerBaseStop d a =
      if (areStatusBitsSet d (stopAccesses d a) DMA_STATUS_BIT_RUNNING).1 then
        waitForStatus d DMA_STATUS_BIT_RUNNING false (areStatusBitsSet d (stopAccesses d a) DMA_STATUS_BIT_RUNNING).2
      else ((areStatusBitsSet d (stopAccesses d a) DMA_STATUS_BIT_RUNNING).2, STATUS_OK) := rfl

theorem dmaControllerBaseStop_watched (h : (engineView a).control ≠ some DMA_CTRL_BIT_RESET) :
    Watched (stopAccesses d a) (dmaControllerBaseStop d a).1 ∧
      WaitEnds (dmaControllerBaseStop d a) DMA_STATUS_BIT_RUNNING false := by
  have hrest := (stopAccesses_rests (d := d) h).control
  have hlook : Watched (stopAccesses d a) (areStatusBitsSet d (stopAccesses d a) DMA_STATUS_BIT_RUNNING).2 :=
    areStatusBitsSet_watched hrest _
  have hshows := areStatusBitsSet_shows d (stopAccesses d a) DMA_STATUS_BIT_RUNNING
  rw [dmaControllerBaseStop_eq]
  split
  · exact ⟨hlook.trans (waitForStatus_watched (hlook.rests hrest).control _ _), waitForStatus_ends d _ _ _⟩
  · next hoff =>
    rw [Bool.not_eq_true] at hoff
    exact ⟨hlook, .inl ⟨rfl, hoff ▸ hshows⟩⟩

theorem dmaControllerBaseStop_rests (h : (engineView a).control ≠ some DMA_CTRL_BIT_RESET) :
    CallRests a (dmaControllerBaseStop d a).1 :=
  have hrest := stopAccesses_rests h
  hrest.trans ((dmaControllerBaseStop_watched h).1.rests hrest.control)

theorem dmaControllerBaseStop_ends (h : (engineView a).control ≠ some DMA_CTRL_BIT_RESET) :
    CallEnds d a (dmaControllerBaseStop d a) .stop := by
  obtain ⟨hwatched, hends⟩ := dmaControllerBaseStop_watched (d := d) h
  exact ⟨hwatched.control.trans (stopAccesses_control h), hends⟩

/-- The accesses of an abort behind the stop: the reset, where none is going on. -/
def resetAccesses (d : EngineDevice) (a : List EngineAccess) : List EngineAccess :=
  let resetting := areStatusBitsSet d a DMA_STATUS_BIT_RESETTING
  if resetting.1 then resetting.2 else resetting.2 ++ [.control DMA_CTRL_BIT_RESET] ++ [.barrier]

/-- The engine is reset only because the stop has just seen it not to run. -/
theorem resetAccesses_continues (h : (engineView a).control ≠ some DMA_CTRL_BIT_RESET)
    (hstopped : Shows (engineView a).last DMA_STATUS_BIT_RUNNING false) : Continues a (resetAccesses d a) := by
  have hlook : Watched a (areStatusBitsSet d a DMA_STATUS_BIT_RESETTING).2 := areStatusBitsSet_watched h _
  have hshows := areStatusBitsSet_shows d a DMA_STATUS_BIT_RESETTING
  have hbefore := areStatusBitsSet_before d a DMA_STATUS_BIT_RESETTING
  unfold resetAccesses
  dsimp only
  split
  · exact hlook.continues
  · next hoff =>
    rw [Bool.not_eq_true] at hoff
    rw [hoff] at hshows
    rw [← hbefore] at hstopped
    have hallows : (engineView (areStatusBitsSet d a DMA_STATUS_BIT_RESETTING).2).Allows
        (.control DMA_CTRL_BIT_RESET) :=
      .inr ⟨(hlook.rests h).control, .inr ⟨rfl, hstopped, hshows⟩⟩
    exact (hlook.continues.push hallows).push (control_push _ DMA_CTRL_BIT_RESET)

theorem dmaControllerBaseAbort_eq (d : EngineDevice) (a : List EngineAccess) :
    dmaControllerBaseAbort d a =
      if menIsError (dmaControllerBaseStop d a).2 then dmaControllerBaseStop d a
      else waitForStatus d DMA_CTRL_BIT_RESET false
        (resetAccesses d (dmaControllerBaseStop d a).1 ++ [.control 0]) := rfl

theorem dmaControllerBaseAbort_rests (h : (engineView a).control ≠ some DMA_CTRL_BIT_RESET) :
    CallRests a (dmaControllerBaseAbort d a).1 ∧ CallEnds d a (dmaControllerBaseAbort d a) .abort := by
  have hrest := dmaControllerBaseStop_rests (d := d) h
  rw [dmaControllerBaseAbort_eq]
  obtain ⟨hok, hshows⟩ | ⟨htimeout, hshows⟩ := (dmaControllerBaseStop_watched (d := d) h).2
  · have hgood : ¬ menIsError (dmaControllerBaseStop d a).2 = true := by
      rw [hok]
      decide
    rw [if_neg hgood]
    have hclear := clear_rests (resetAccesses d (dmaControllerBaseStop d a).1)
    have hreset : CallRests a (resetAccesses d (dmaControllerBaseStop d a).1 ++ [.control 0]) :=
      ⟨hrest.continues.trans ((resetAccesses_continues hrest.control hshows).trans hclear.continues), hclear.control⟩
    have hwait := waitForStatus_watched (d := d) hreset.control DMA_CTRL_BIT_RESET false
    exact ⟨hreset.trans (hwait.rests hreset.control),
      .inl ⟨hwait.control.trans (control_push _ 0), waitForStatus_ends d _ _ _⟩⟩
  · have hbad : menIsError (dmaControllerBaseStop d a).2 = true := by
      rw [htimeout]
      decide
    rw [if_pos hbad]
    exact ⟨hrest, .inr ⟨htimeout, hshows⟩⟩

theorem declareBuffers_rests (bufId : Nat) (addresses : List (BitVec 64))
    (h : (engineView a).control ≠ some DMA_CTRL_BIT_RESET) : CallRests a (declareBuffers bufId a addresses) := by
  induction addresses generalizing bufId a with
  | nil => exact CallRests.refl h
  | cons address addresses ih =>
    rw [declareBuffers]
    have hdeclare : CallRests a (messagingDmaDeclareBuffer a bufId address) := by
      have hinit : ∀ {b : List EngineAccess} (value : Word), CallRests a b → CallRests a (b ++ [.init value]) := by
        intro b value hb
        have hallows : (engineView b).Allows (.init value) := hb.control
        refine ⟨hb.continues.push hallows, ?_⟩
        rw [engineView_push]
        exact hb.control
      exact hinit _ (hinit _ (CallRests.refl h))
    exact hdeclare.trans (ih (bufId + 1) hdeclare.control)

/-- What one call keeps, and how it ends. -/
theorem engineCall_rests (call : EngineCall) (h : (engineView a).control ≠ some DMA_CTRL_BIT_RESET) :
    CallRests a (engineCall d call a).1 ∧ CallEnds d a (engineCall d call a) call := by
  have habort := dmaControllerBaseAbort_rests (d := d) h
  cases call with
  | init granted addresses =>
    cases granted with
    | false => exact ⟨habort.1, rfl⟩
    | true => exact ⟨habort.1.trans (declareBuffers_rests 0 addresses habort.1.control), rfl⟩
  | start => exact ⟨dmaControllerBaseStart_rests h, dmaControllerBaseStart_ends h⟩
  | stop => exact ⟨dmaControllerBaseStop_rests h, dmaControllerBaseStop_ends h⟩
  | abort => exact habort
  | destroy hasAbort =>
    cases hasAbort with
    | false => exact ⟨CallRests.refl h, rfl⟩
    | true => exact ⟨habort.1, rfl⟩

theorem engineRun_rests (d : EngineDevice) (calls : List EngineCall) (h : EngineRests a) :
    EngineRests (engineRun d calls a) := by
  induction calls generalizing a with
  | nil => exact h
  | cons call calls ih =>
    have hcall := (engineCall_rests (d := d) call h.control).1
    exact ih (h.continues hcall.continues hcall.control)

/-- What the words written to the init register declare, two by two: the number of a page and where it is. -/
def declaredPages : List Word → List (Nat × BitVec 64)
  | low :: high :: words => ((low &&& 0x7f#32).toNat, high ++ (low &&& ~~~0xfff#32)) :: declaredPages words
  | _ => []

def initWords (a : List EngineAccess) : List Word :=
  a.filterMap fun access => match access with
    | .init value => some value
    | _ => none

/-- The pages of a call, numbered from 0 on. -/
def EngineCall.pages : EngineCall → List (Nat × BitVec 64)
  | .init true addresses => (List.range addresses.length).zip addresses
  | _ => []

def EngineCall.addresses : EngineCall → List (BitVec 64)
  | .init _ addresses => addresses
  | _ => []

/-- The numbers have seven bits, and the buffers are pages. -/
def EngineCall.InPages (call : EngineCall) : Prop :=
  call.addresses.length ≤ 128 ∧ ∀ address ∈ call.addresses, address &&& 0xfff#64 = 0

theorem initWords_append (a b : List EngineAccess) : initWords (a ++ b) = initWords a ++ initWords b :=
  List.filterMap_append

theorem initWords_look (d : EngineDevice) (a : List EngineAccess) (statusBits : Word) :
    initWords (areStatusBitsSet d a statusBits).2 = initWords a := by
  rw [areStatusBitsSet, initWords_append]
  exact List.append_nil _

theorem initWords_control (a : List EngineAccess) (value : Word) :
    initWords (a ++ [.control value]) = initWords a := by
  rw [initWords_append]
  exact List.append_nil _

theorem initWords_barrier (a : List EngineAccess) : initWords (a ++ [.barrier]) = initWords a := by
  rw [initWords_append]
  exact List.append_nil _

theorem initWords_poll (d : EngineDevice) (a : List EngineAccess) (statusBits : Word) (wanted : Bool) (n : Nat) :
    initWords (pollStatus d statusBits wanted n a) = initWords a := by
  induction n generalizing a with
  | zero => exact initWords_look d a statusBits
  | succ n ih =>
    rw [pollStatus]
    split
    · exact initWords_look d a statusBits
    · rw [ih, initWords_look]

theorem initWords_wait (d : EngineDevice) (a : List EngineAccess) (statusBits : Word) (wanted : Bool) :
    initWords (waitForStatus d statusBits wanted a).1 = initWords a := by
  rw [waitForStatus, initWords_look, initWords_poll]

theorem initWords_start (d : EngineDevice) (a : List EngineAccess) :
    initWords (dmaControllerBaseStart d a).1 = initWords a := by
  unfold dmaControllerBaseStart
  dsimp only
  split
  · exact initWords_look d a DMA_STATUS_BIT_ENABLED
  · rw [initWords_wait, initWords_control, initWords_look]

theorem initWords_stop (d : EngineDevice) (a : List EngineAccess) :
    initWords (dmaControllerBaseStop d a).1 = initWords a := by
  have hbefore : initWords (stopAccesses d a) = initWords a := by
    unfold stopAccesses
    dsimp only
    split
    · rw [initWords_control, initWords_look]
    · exact initWords_look d a DMA_STATUS_BIT_ENABLED
  rw [dmaControllerBaseStop_eq]
  split
  · rw [initWords_wait, initWords_look, hbefore]
  · exact (initWords_look d (stopAccesses d a) DMA_STATUS_BIT_RUNNING).trans hbefore

theorem initWords_abort (d : EngineDevice) (a : List EngineAccess) :
    initWords (dmaControllerBaseAbort d a).1 = initWords a := by
  have hreset (b : List EngineAccess) : initWords (resetAccesses d b) = initWords b := by
    unfold resetAccesses
    dsimp only
    split
    · exact initWords_look d b DMA_STATUS_BIT_RESETTING
    · rw [initWords_barrier, initWords_control, initWords_look]
  rw [dmaControllerBaseAbort_eq]
  split
  · exact initWords_stop d a
  · rw [initWords_wait, initWords_control, hreset, initWords_stop]

/-- The second word begins with the first bit above the first word. -/
theorem declaredPages_append (words : List Word) {more : List Word} (h : words.length % 2 = 0) :
    declaredPages (words ++ more) = declaredPages words ++ declaredPages more := by
  fun_induction declaredPages words with
  | case1 low high words ih =>
    rw [List.length_cons, List.length_cons] at h
    rw [List.cons_append, List.cons_append, declaredPages, ih (by omega), List.cons_append]
  | case2 words hshort =>
    match words, hshort, h with
    | [], _, _ => rfl
    | [_], _, h => exact absurd h Nat.one_ne_zero
    | low :: high :: words, hshort, _ => exact absurd rfl (hshort low high words)

/-- The two words of a page. -/
def pageWords (bufferId : Nat) (address : BitVec 64) : Word × Word :=
  (setBits32 (setBits32 (address.setWidth 32) (BitVec.ofNat 32 bufferId) 0 6) 0#32 7 11,
    (address >>> 32).setWidth 32)

theorem pageWords_bit {bufferId j : Nat} {address : BitVec 64} (hj : j < 32) :
    (pageWords bufferId address).1.getLsbD j =
      if 7 ≤ j ∧ j ≤ 11 then false
      else if j ≤ 6 then (BitVec.ofNat 32 bufferId).getLsbD j else address.getLsbD j := by
  rw [pageWords, setBits32_bit (by decide) hj, setBits32_bit (by decide) hj, Nat.sub_zero, BitVec.getLsbD_setWidth,
    decide_eq_true hj, Bool.true_and, BitVec.getLsbD_zero]
  simp only [Nat.zero_le, true_and]

theorem pageWords_id {bufferId : Nat} (address : BitVec 64) (h : bufferId < 128) :
    ((pageWords bufferId address).1 &&& 0x7f#32).toNat = bufferId := by
  have hmask : 0x7f#32 = genMask32 0 6 := by decide
  have hword : (pageWords bufferId address).1 &&& 0x7f#32 = BitVec.ofNat 32 bufferId := by
    apply BitVec.eq_of_getLsbD_eq
    intro j hj
    rw [BitVec.getLsbD_and, pageWords_bit hj, hmask, genMask32_bit (by decide)]
    by_cases hlow : j ≤ 6
    · rw [if_neg (by omega), if_pos hlow, decide_eq_true ⟨Nat.zero_le j, hlow⟩, Bool.and_true]
    · have hhigh : (BitVec.ofNat 32 bufferId).getLsbD j = false := by
        rw [BitVec.getLsbD_ofNat, decide_eq_true hj, Bool.true_and]
        have hpow : 2 ^ 7 ≤ 2 ^ j := Nat.pow_le_pow_right (by decide) (by omega)
        exact Nat.testBit_lt_two_pow (Nat.lt_of_lt_of_le h hpow)
      rw [decide_eq_false (by omega), Bool.and_false, hhigh]
  rw [hword, BitVec.toNat_ofNat]
  exact Nat.mod_eq_of_lt (Nat.lt_trans h (by decide))

theorem pageWords_address {bufferId : Nat} {address : BitVec 64} (h : address &&& 0xfff#64 = 0) :
    (pageWords bufferId address).2 ++ ((pageWords bufferId address).1 &&& ~~~0xfff#32) = address := by
  have hmask : 0xfff#32 = genMask32 0 11 := by decide
  have hwide : 0xfff#64 = (0xfff#32).setWidth 64 := by decide
  have hpage : ∀ j ≤ 11, address.getLsbD j = false := by
    intro j hj
    have hbit : (address &&& 0xfff#64).getLsbD j = false := by
      rw [h]
      exact BitVec.getLsbD_zero
    rw [BitVec.getLsbD_and, hwide, BitVec.getLsbD_setWidth, hmask, genMask32_bit (by decide),
      decide_eq_true (show j < 64 by omega), decide_eq_true ⟨Nat.zero_le j, hj⟩, Bool.true_and,
      Bool.and_true] at hbit
    exact hbit
  apply BitVec.eq_of_getLsbD_eq
  intro j hj
  rw [BitVec.getLsbD_append]
  by_cases hlow : j < 32
  · rw [if_pos hlow, BitVec.getLsbD_and, BitVec.getLsbD_not, pageWords_bit hlow, hmask, genMask32_bit (by decide),
      decide_eq_true hlow, Bool.true_and]
    by_cases hin : j ≤ 11
    · rw [decide_eq_true ⟨Nat.zero_le j, hin⟩, Bool.not_true, Bool.and_false, hpage j hin]
    · rw [if_neg (by omega), if_neg (by omega), decide_eq_false (by omega), Bool.not_false, Bool.and_true]
  · rw [if_neg hlow, pageWords, BitVec.getLsbD_setWidth, BitVec.getLsbD_ushiftRight,
      decide_eq_true (show j - 32 < 32 by omega), Bool.true_and, Nat.add_sub_cancel' (by omega)]

theorem initWords_declare (a : List EngineAccess) (bufferId : Nat) (address : BitVec 64) :
    initWords (messagingDmaDeclareBuffer a bufferId address) =
      initWords a ++ [(pageWords bufferId address).1, (pageWords bufferId address).2] := by
  rw [messagingDmaDeclareBuffer, initWords_append, initWords_append, List.append_assoc]
  rfl

theorem declaredPages_pair (low high : Word) :
    declaredPages [low, high] = [((low &&& 0x7f#32).toNat, high ++ (low &&& ~~~0xfff#32))] := rfl

/-- What the accesses from `a` to `b` declare. -/
structure Declares (a b : List EngineAccess) (pages : List (Nat × BitVec 64)) : Prop where
  pairs : (initWords b).length % 2 = 0
  declared : declaredPages (initWords b) = declaredPages (initWords a) ++ pages

theorem Declares.of_eq (ha : (initWords a).length % 2 = 0) (h : initWords b = initWords a) : Declares a b [] :=
  ⟨by rw [h]; exact ha, by rw [h, List.append_nil]⟩

theorem declareBuffers_declares {bufId : Nat} {addresses : List (BitVec 64)} (ha : (initWords a).length % 2 = 0)
    (hids : bufId + addresses.length ≤ 128) (hpages : ∀ address ∈ addresses, address &&& 0xfff#64 = 0) :
    Declares a (declareBuffers bufId a addresses) ((List.range' bufId addresses.length).zip addresses) := by
  induction addresses generalizing bufId a with
  | nil => exact Declares.of_eq ha rfl
  | cons address addresses ih =>
    rw [List.length_cons] at hids
    have hwords := initWords_declare a bufId address
    have heven : (initWords (messagingDmaDeclareBuffer a bufId address)).length % 2 = 0 := by
      rw [hwords, List.length_append, List.length_cons, List.length_cons, List.length_nil]
      omega
    obtain ⟨hpairs, hdeclared⟩ := @ih _ (bufId + 1) heven (by omega) (fun other hmem =>
      hpages other (List.mem_cons_of_mem address hmem))
    refine ⟨hpairs, ?_⟩
    rw [declareBuffers, hdeclared, hwords, declaredPages_append _ ha, declaredPages_pair,
      pageWords_id address (by omega), pageWords_address (hpages address List.mem_cons_self), List.append_assoc]
    rfl

theorem engineCall_declares {call : EngineCall} (ha : (initWords a).length % 2 = 0) (hcall : call.InPages) :
    Declares a (engineCall d call a).1 call.pages := by
  have habort : initWords (dmaControllerBaseAbort d a).1 = initWords a := initWords_abort d a
  cases call with
  | init granted addresses =>
    cases granted with
    | false => exact Declares.of_eq ha habort
    | true =>
      have hids : 0 + addresses.length ≤ 128 := by
        rw [Nat.zero_add]
        exact hcall.1
      obtain ⟨hpairs, hdeclared⟩ := declareBuffers_declares (habort ▸ ha) hids hcall.2
      refine ⟨hpairs, ?_⟩
      rw [EngineCall.pages, List.range_eq_range', ← habort]
      exact hdeclared
  | start => exact Declares.of_eq ha (initWords_start d a)
  | stop => exact Declares.of_eq ha (initWords_stop d a)
  | abort => exact Declares.of_eq ha habort
  | destroy hasAbort =>
    cases hasAbort with
    | false => exact Declares.of_eq ha rfl
    | true => exact Declares.of_eq ha habort

theorem engineRun_declares {calls : List EngineCall} (ha : (initWords a).length % 2 = 0)
    (hcalls : ∀ call ∈ calls, call.InPages) : Declares a (engineRun d calls a) (calls.flatMap EngineCall.pages) := by
  induction calls generalizing a with
  | nil => exact Declares.of_eq ha rfl
  | cons call calls ih =>
    obtain ⟨hpairs, hdeclared⟩ := engineCall_declares (d := d) ha (hcalls call List.mem_cons_self)
    obtain ⟨hpairs', hdeclared'⟩ := ih hpairs (fun other hmem => hcalls other (List.mem_cons_of_mem call hmem))
    refine ⟨hpairs', ?_⟩
    rw [List.flatMap_cons, ← List.append_assoc, ← hdeclared]
    exact hdeclared'

/-- From the two words of each page the engine gets its number and its whole address, in every run of calls: the
inits that were granted their tables declare all their pages, and nothing else does. -/
theorem engine_declared {d : EngineDevice} {calls : List EngineCall} (hcalls : ∀ call ∈ calls, call.InPages) :
    declaredPages (initWords (engineRun d calls [])) = calls.flatMap EngineCall.pages :=
  (engineRun_declares rfl hcalls).declared

/-- An engine that is always off takes two pages, and refuses to start. -/
theorem engine_declared_twoPages :
    declaredPages (initWords (engineRun ⟨fun _ => 0, fun _ => 1⟩
      [.init true [0x7f3456000#64, 0x1000#64], .start, .destroy true] [])) =
        [(0, 0x7f3456000#64), (1, 0x1000#64)] :=
  engine_declared (by simp [EngineCall.InPages, EngineCall.addresses])

end MenableDriver
