import MenableDriver.Camera.PortSettings
import MenableDriver.Data.History

/-!
# The setters that a command calls

Each command of the CXP frontend is a list of calls of the setters. A port map and a reset call many of
them, and look at no result. The speed setter also waits for the board: it reads the status register until
the port is ready or the time is over, and what it reads is not in the hands of the driver.
-/

namespace MenableDriver

set_option autoImplicit false

open CxpFrontend History

/-! ## The calls -/

inductive CxpCall where
  | powerState (port : Nat) (state : PowerState)
  | dataPathState (port : Nat) (state : DataPathState)
  | dataPathSpeed (port : Nat) (speed : DataPathSpeed)
  | standardVersion (port : Nat) (version : CxpStandardVersion)
  | ledState (port : Nat) (state : CxpLedState)
  | acquisitionState (port : Nat) (state : AcquisitionState)
  | cameraDownscaling (port numConnections : Nat)
  | imageStreamId (masterPort : Nat) (streamId : Int)
  | portMapIndex (index : Nat)
  | loadApplet
deriving DecidableEq, Repr

def cxpCall (f : CxpFrontend) : CxpCall → CxpFrontend × CxpError
  | .powerState port state => cxpSetPortPowerState f port state
  | .dataPathState port state => cxpSetPortDataPathState f port state
  | .dataPathSpeed port speed => cxpSetPortDataPathSpeed f port speed
  | .standardVersion port version => cxpSetPortStandardVersion f port version
  | .ledState port state => cxpSetPortLedState f port state
  | .acquisitionState port state => cxpSetPortAcquisitionState f port state
  | .cameraDownscaling port numConnections => cxpSetPortCameraDonwscaling f port numConnections
  | .imageStreamId masterPort streamId => cxpSetPortImageStreamId f masterPort streamId
  | .portMapIndex index => (switchPortMap f index, .ok)
  | .loadApplet => (if f.supportsIdleViolationFix then f.write REG_CXP_LOAD_APPLET_CTRL 0x1#32 else f, .ok)

def restoreCalls (old : OldSettings) (physicalPort : Nat) : List CxpCall :=
  [.dataPathState physicalPort (old.dataPathState physicalPort),
    .dataPathSpeed physicalPort (old.dataPathSpeed physicalPort),
    .standardVersion physicalPort (old.standardVersion physicalPort),
    .acquisitionState physicalPort (old.acquisitionState physicalPort),
    .cameraDownscaling physicalPort (old.cameraDownscaleState physicalPort).toNat]

def remapCalls (oldPortMap newPortMap : BitVec 64) (old : OldSettings) (physicalPort : Nat) : List CxpCall :=
  if cxpGetLogicalPortNumberFromPortMap oldPortMap physicalPort ≠
      cxpGetLogicalPortNumberFromPortMap newPortMap physicalPort then restoreCalls old physicalPort
  else []

def setPortMapCalls (f : CxpFrontend) (newPortMap : BitVec 64) : List CxpCall :=
  let oldPortMap := f.portMap
  if newPortMap ≠ oldPortMap then
    let newPortMapIndex := f.portMaps.search newPortMap
    if f.portMaps.portMap newPortMapIndex = CXP_PORT_MAP_INVALID then []
    else
      .portMapIndex newPortMapIndex ::
        if oldPortMap ≠ CXP_PORT_MAP_INVALID then
          (List.range f.numPorts).flatMap (remapCalls oldPortMap newPortMap (saveSettings f oldPortMap))
        else []
  else []

def resetPortCalls (numPorts physicalPort : Nat) : List CxpCall :=
  if physicalPort < numPorts then
    [.dataPathState physicalPort .inactive, .dataPathSpeed physicalPort .speed3125,
      .standardVersion physicalPort .v1_1, .ledState physicalPort .powered,
      .acquisitionState physicalPort .stopped, .cameraDownscaling physicalPort 1,
      .imageStreamId physicalPort (-1)]
  else []

def resetCalls (f : CxpFrontend) : List CxpCall :=
  setPortMapCalls f 0x7654321076543210#64 ++ (List.range f.numPorts).flatMap (resetPortCalls f.numPorts)

/-- The calls that a command makes when it finds the frontend `f`. -/
def callsOf (f : CxpFrontend) : CameraCommand → List CxpCall
  | .reset => resetCalls f
  | .resetPhysicalPort port => resetPortCalls f.numPorts port
  | .prepareAppletReload => resetCalls f ++ [.loadApplet]
  | .setPortMap portMap => setPortMapCalls f portMap
  | .setPortPowerState port state => [.powerState port state]
  | .setPortDataPathState port state => [.dataPathState port state]
  | .setPortDataPathSpeed port speed => [.dataPathSpeed port speed]
  | .setPortCxpStandardVersion port version => [.standardVersion port version]
  | .setPortCxpLedState port state => [.ledState port state]
  | .setPortAcquisitionState port state => [.acquisitionState port state]
  | .setPortCxpCameraDownscaling port numConnections => [.cameraDownscaling port numConnections]
  | .setStreamId masterPort streamId => [.imageStreamId masterPort streamId]

/-- The frontend after the calls. -/
def cxpCalls (f : CxpFrontend) (calls : List CxpCall) : CxpFrontend :=
  calls.foldl (fun f call => (cxpCall f call).1) f

theorem cxpCalls_append (f : CxpFrontend) (calls calls' : List CxpCall) :
    cxpCalls f (calls ++ calls') = cxpCalls (cxpCalls f calls) calls' :=
  List.foldl_append

theorem cxpCalls_flatMap {β : Type} {turn : CxpFrontend → β → CxpFrontend} {calls : β → List CxpCall}
    (h : ∀ f b, cxpCalls f (calls b) = turn f b) (list : List β) (f : CxpFrontend) :
    cxpCalls f (list.flatMap calls) = list.foldl turn f := by
  induction list generalizing f with
  | nil => rfl
  | cons b list ih => rw [List.flatMap_cons, cxpCalls_append, h, List.foldl_cons, ih]

theorem remapPort_calls (oldPortMap newPortMap : BitVec 64) (old : OldSettings) (f : CxpFrontend)
    (physicalPort : Nat) : cxpCalls f (remapCalls oldPortMap newPortMap old physicalPort) =
      remapPort oldPortMap newPortMap old f physicalPort := by
  rw [remapCalls, remapPort]
  split_ifs
  · rfl
  · rfl

theorem cxpSetPortMap_calls (f : CxpFrontend) (newPortMap : BitVec 64) :
    cxpCalls f (setPortMapCalls f newPortMap) = (cxpSetPortMap f newPortMap).1 := by
  unfold setPortMapCalls cxpSetPortMap
  dsimp only
  split_ifs
  · rfl
  · exact cxpCalls_flatMap (remapPort_calls _ _ _) _ _
  · rfl
  · rfl

/-- No setter changes the port maps, or what the board answers. -/
theorem cxpCall_keeps (f : CxpFrontend) (call : CxpCall) :
    (cxpCall f call).1.portMaps = f.portMaps ∧ (cxpCall f call).1.ri.input = f.ri.input := by
  have hboard : ∀ {g : CxpFrontend}, g.board = f.board → g.portMaps = f.portMaps ∧ g.ri.input = f.ri.input :=
    fun h => ⟨congrArg BoardPart.portMaps h, congrArg BoardPart.input h⟩
  cases call with
  | powerState p state => exact hboard (cxpSetPortPowerState_kept p state).board
  | ledState p state => exact hboard (cxpSetPortLedState_kept p state).board
  | imageStreamId p id => exact hboard (cxpSetPortImageStreamId_kept p id).board
  | portMapIndex index => exact ⟨rfl, rfl⟩
  | loadApplet =>
    rw [cxpCall]
    split_ifs <;> exact ⟨rfl, rfl⟩
  | dataPathState p state =>
    unfold cxpCall cxpSetPortDataPathState
    dsimp only
    split_ifs <;> exact ⟨rfl, rfl⟩
  | dataPathSpeed p speed =>
    unfold cxpCall cxpSetPortDataPathSpeed
    dsimp only
    split_ifs <;> exact ⟨rfl, rfl⟩
  | standardVersion p version =>
    unfold cxpCall cxpSetPortStandardVersion
    dsimp only
    split_ifs <;> exact ⟨rfl, rfl⟩
  | acquisitionState p state =>
    unfold cxpCall cxpSetPortAcquisitionState
    dsimp only
    split_ifs <;> exact ⟨rfl, rfl⟩
  | cameraDownscaling p n =>
    unfold cxpCall cxpSetPortCameraDonwscaling
    dsimp only
    split_ifs <;> exact ⟨rfl, rfl⟩

/-- The setters that are not asked for a speed leave the speeds alone, and all but one the downscaling. -/
theorem cxpCall_others (f : CxpFrontend) {call : CxpCall} (h : ∀ p speed, call ≠ .dataPathSpeed p speed) :
    (cxpCall f call).1.speed = f.speed ∧
      ((∀ p n, call ≠ .cameraDownscaling p n) → (cxpCall f call).1.downscale = f.downscale) := by
  have hkept : ∀ {g : CxpFrontend}, SettingsKept f g → g.speed = f.speed ∧
      ((∀ p n, call ≠ .cameraDownscaling p n) → g.downscale = f.downscale) :=
    fun hk => ⟨hk.speed, fun _ => hk.downscale⟩
  cases call with
  | powerState p state => exact hkept (cxpSetPortPowerState_kept p state)
  | ledState p state => exact hkept (cxpSetPortLedState_kept p state)
  | imageStreamId p id => exact hkept (cxpSetPortImageStreamId_kept p id)
  | portMapIndex index => exact ⟨speed_write _ (by decide), fun _ => downscale_write _ (by decide)⟩
  | loadApplet =>
    rw [cxpCall]
    split_ifs
    · exact ⟨speed_write _ (by decide), fun _ => downscale_write _ (by decide)⟩
    · exact ⟨rfl, fun _ => rfl⟩
  | dataPathState p state =>
    unfold cxpCall cxpSetPortDataPathState
    dsimp only
    constructor
    all_goals
      intros
      split_ifs
      all_goals first | rfl | simp (disch := first | decide | exact fun _ => rfl) only
          [speed_write, speed_modifyPort, downscale_write, downscale_modifyPort]
  | dataPathSpeed p speed => exact absurd rfl (h p speed)
  | standardVersion p version =>
    unfold cxpCall cxpSetPortStandardVersion
    dsimp only
    constructor
    all_goals
      intros
      split_ifs
      all_goals first | rfl | simp (disch := first | decide | exact fun _ => rfl) only
          [cxpUpdateStandardCtrlRegister, speed_write, speed_modifyPort, downscale_write, downscale_modifyPort]
  | acquisitionState p state =>
    unfold cxpCall cxpSetPortAcquisitionState
    dsimp only
    constructor
    all_goals
      intros
      split_ifs
      all_goals first | rfl | simp (disch := first | decide | exact fun _ => rfl) only
          [speed_write, speed_modifyPort, downscale_write, downscale_modifyPort]
  | cameraDownscaling p n =>
    refine ⟨?_, fun hdown => absurd rfl (hdown p n)⟩
    unfold cxpCall cxpSetPortCameraDonwscaling
    dsimp only
    split_ifs
    all_goals first | rfl | simp (disch := first | decide | exact fun _ => rfl) only
        [speed_write, speed_modifyPort]

theorem cxpCalls_numPorts (calls : List CxpCall) (f : CxpFrontend) :
    (cxpCalls f calls).numPorts = f.numPorts := by
  induction calls generalizing f with
  | nil => rfl
  | cons call calls ih =>
    have hmaps := (cxpCall_keeps f call).1
    rw [cxpCalls, List.foldl_cons]
    exact (ih _).trans (congrArg PortMapTable.numPorts hmaps)

theorem cxpResetPort_calls {n : Nat} (f : CxpFrontend) (physicalPort : Nat) (hn : f.numPorts = n) :
    cxpCalls f (resetPortCalls n physicalPort) = cxpResetPort f physicalPort := by
  rw [resetPortCalls, cxpResetPort, hn]
  split_ifs
  · rfl
  · rfl

theorem cxpReset_calls (f : CxpFrontend) : cxpCalls f (resetCalls f) = cxpReset f := by
  have hall : ∀ (list : List Nat) (g : CxpFrontend), g.numPorts = f.numPorts →
      cxpCalls g (list.flatMap (resetPortCalls f.numPorts)) = list.foldl cxpResetPort g := by
    intro list
    induction list with
    | nil => exact fun g _ => rfl
    | cons port list ih =>
      intro g hg
      have hport := cxpResetPort_calls g port hg
      rw [List.flatMap_cons, cxpCalls_append, hport, List.foldl_cons]
      apply ih
      rw [← hport, cxpCalls_numPorts, hg]
  have hmap := cxpSetPortMap_calls f 0x7654321076543210#64
  have hn : (cxpSetPortMap f 0x7654321076543210#64).1.numPorts = f.numPorts := by
    rw [← hmap, cxpCalls_numPorts]
  rw [resetCalls, cxpCalls_append, hmap, hall _ _ hn, cxpReset, hn]

/-- A command does what its calls do. -/
theorem cxpExecuteCommand_calls (f : CxpFrontend) (command : CameraCommand) :
    cxpCalls f (callsOf f command) = (cxpExecuteCommand f command).1 := by
  cases command with
  | reset => exact cxpReset_calls f
  | resetPhysicalPort port => exact cxpResetPort_calls f port rfl
  | prepareAppletReload =>
    rw [callsOf, cxpCalls_append, cxpReset_calls]
    rfl
  | setPortMap portMap => exact cxpSetPortMap_calls f portMap
  | setPortPowerState port state => rfl
  | setPortDataPathState port state => rfl
  | setPortDataPathSpeed port speed => rfl
  | setPortCxpStandardVersion port version => rfl
  | setPortCxpLedState port state => rfl
  | setPortAcquisitionState port state => rfl
  | setPortCxpCameraDownscaling port numConnections => rfl
  | setStreamId masterPort streamId => rfl

end MenableDriver
