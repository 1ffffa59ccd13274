import MenableDriver.Camera.PortMaps
import MenableDriver.Data.Packed

/-!
# The CXP frontend

`cxp_frontend.c`: the commands that set up the CXP ports of a board. What was written to a
register is kept in caches, so that a command that changes nothing does not touch the board.
Some caches belong to a physical port, the others to the logical port, the channel of the
FPGA.
-/

namespace MenableDriver

set_option autoImplicit false

def BOARDSTATUSEX : Nat := 0x0001
def ME6_REG_BOARD_STATUS : Nat := 0x0000
def REG_CXP_POWER_CTRL : Nat := 0x800
def REG_CXP_RESET_CTRL : Nat := 0x801
def REG_CXP_DATA_PATH_STATUS : Nat := 0x801
def REG_CXP_DOWNLINK_BITRATE_0 : Nat := 0x802
def REG_CXP_DOWNLINK_BITRATE_4 : Nat := 0x818
def REG_CXP_STANDARD_CTRL : Nat := 0x806
def REG_ACQUISITION_CTRL : Nat := 0x807
def REG_CXP_DISCOVERY_CONFIG : Nat := 0x808
def REG_CXP_LED_CTRL_0 : Nat := 0x811
def REG_CXP_LED_CTRL_4 : Nat := 0x81B
def REG_CXP_LOAD_APPLET_CTRL : Nat := 0x815
def REG_CXP_CAMERA_DOWNSCALE_CTRL : Nat := 0x817
def REG_CONFIG_IMAGE_STREAM_ID_0 : Nat := 0x081C

/-- The registers of the board: what was written last to each address, and what a read of it
gives. A read does not see what was written. -/
structure RegisterInterface where
  written : Nat → BitVec 32
  input : Nat → BitVec 32

namespace RegisterInterface

def write (ri : RegisterInterface) (address : Nat) (value : BitVec 32) : RegisterInterface :=
  { ri with written := Function.update ri.written address value }

def read (ri : RegisterInterface) (address : Nat) : BitVec 32 := ri.input address

end RegisterInterface

inductive PowerState where
  | unknown | off | on | testMode
deriving DecidableEq, Repr

inductive DataPathState where
  | unknown | fullReset | inactive | sendingIdles | monitoring | active
deriving DecidableEq, Repr

inductive DataPathSpeed where
  | unknown | speed1000 | speed1250 | speed2500 | speed3125 | speed5000 | speed6250 | speed10000 | speed12500
deriving DecidableEq, Repr

inductive DataPathUpSpeed where
  | unknown | low | high
deriving DecidableEq, Repr

inductive CxpStandardVersion where
  | unknown | v1_0 | v1_1 | v2_0
deriving DecidableEq, Repr

inductive CxpLedState where
  | unknown | booting | powered | discovery | connected | waitingForEvent | incompatibleDevice | systemError
deriving DecidableEq, Repr

inductive AcquisitionState where
  | unknown | stopped | started
deriving DecidableEq, Repr

/-- The values of `enum data_path_speed`. -/
def DataPathSpeed.toNat : DataPathSpeed → Nat
  | .unknown => 0
  | .speed1000 => 1000
  | .speed1250 => 1250
  | .speed2500 => 2500
  | .speed3125 => 3125
  | .speed5000 => 5000
  | .speed6250 => 6250
  | .speed10000 => 10000
  | .speed12500 => 12500

inductive CxpError where
  | ok | invalidPort | invalidParameter | timeout | appletDoesNotSupportTgs
deriving DecidableEq, Repr

/-- `struct cxp_port`, without the register addresses. -/
structure CxpPort where
  powerStateCache : PowerState := .unknown
  dataPathStatePhysicalCache : DataPathState := .unknown
  dataPathStateLogicalCache : DataPathState := .unknown
  dataPathDwSpeedCache : DataPathSpeed := .unknown
  dataPathUpSpeedCache : DataPathUpSpeed := .unknown
  standardVersionCache : CxpStandardVersion := .unknown
  ledStateCache : CxpLedState := .unknown
  acquisitionStateCache : AcquisitionState := .unknown
  cameraDownscaleStateCache : BitVec 8 := 1#8
  streamIdCache : Int := -1

def downlinkBitrateRegister (physicalPortNumber : Nat) : Nat :=
  if physicalPortNumber < 4 then REG_CXP_DOWNLINK_BITRATE_0 + physicalPortNumber
    else REG_CXP_DOWNLINK_BITRATE_4

def ledCtrlRegister (physicalPortNumber : Nat) : Nat :=
  if physicalPortNumber < 4 then REG_CXP_LED_CTRL_0 + physicalPortNumber else REG_CXP_LED_CTRL_4

def configImageStreamIdRegister (logicalPortNumber : Nat) : Nat :=
  REG_CONFIG_IMAGE_STREAM_ID_0 + logicalPortNumber

/-- `struct cxp_frontend`. The table has the number of ports as well. -/
structure CxpFrontend where
  ri : RegisterInterface
  supportsIdleViolationFix : Bool
  ports : Nat → CxpPort
  portMaps : PortMapTable
  portMapIndex : Nat

namespace CxpFrontend

def numPorts (f : CxpFrontend) : Nat := f.portMaps.numPorts

def portMap (f : CxpFrontend) : BitVec 64 := f.portMaps.portMap f.portMapIndex

def logicalPort (f : CxpFrontend) (physicalPortNumber : Nat) : Nat :=
  cxpGetLogicalPortNumberFromPortMap f.portMap physicalPortNumber

def modifyPort (f : CxpFrontend) (port : Nat) (change : CxpPort → CxpPort) : CxpFrontend :=
  { f with ports := Function.update f.ports port (change (f.ports port)) }

def write (f : CxpFrontend) (address : Nat) (value : BitVec 32) : CxpFrontend :=
  { f with ri := f.ri.write address value }

end CxpFrontend

/-! ## The settings of a port -/

def powerCtrl : PowerState → BitVec 32
  | .off => 0#32
  | .testMode => 0x3#32
  | _ => 0x1#32

/-- The power states of all ports for the combined register. -/
def cxpPowerCtrl (f : CxpFrontend) : BitVec 32 :=
  Packed.orAll f.numPorts fun port => (powerCtrl (f.ports port).powerStateCache &&& 0x3#32) <<< (2 * port)

def cxpSetPortPowerState (f : CxpFrontend) (physicalPortNumber : Nat) (newPowerState : PowerState) :
    CxpFrontend × CxpError :=
  if f.numPorts ≤ physicalPortNumber then (f, .invalidPort)
  else if newPowerState = .unknown then (f, .invalidParameter)
  else if newPowerState ≠ (f.ports physicalPortNumber).powerStateCache then
    let f := f.modifyPort physicalPortNumber fun port => { port with powerStateCache := newPowerState }
    (f.write REG_CXP_POWER_CTRL (cxpPowerCtrl f), .ok)
  else (f, .ok)

def CXP_RESET_CTRL_HOST_PORT_MASK : BitVec 32 := 0x7#32
def CXP_RESET_CTRL_TRANSCEIVER_PORT_MASK : BitVec 32 := 0x18#32

def portResetCtrlHost : DataPathState → BitVec 32
  | .fullReset => 0x7#32
  | .sendingIdles => 0x6#32
  | .monitoring => 0x2#32
  | .active => 0#32
  | _ => 0x7#32

def portResetCtrlTransceiver : DataPathState → BitVec 32
  | .fullReset => 0x18#32
  | .sendingIdles => 0x8#32
  | .monitoring => 0#32
  | .active => 0#32
  | _ => 0x8#32

/-- The data path states of all ports for the combined register. The bits of the host belong to
the logical port, those of the transceiver to the physical one. -/
def cxpResetCtrl (f : CxpFrontend) : BitVec 32 :=
  Packed.orAll f.numPorts fun port =>
    (portResetCtrlHost (f.ports port).dataPathStatePhysicalCache &&& CXP_RESET_CTRL_HOST_PORT_MASK) <<<
        (5 * f.logicalPort port) |||
      (portResetCtrlTransceiver (f.ports port).dataPathStatePhysicalCache &&&
        CXP_RESET_CTRL_TRANSCEIVER_PORT_MASK) <<< (5 * port)

def cxpSetPortDataPathState (f : CxpFrontend) (physicalPortNumber : Nat) (newDataPathState : DataPathState) :
    CxpFrontend × CxpError :=
  if f.numPorts ≤ physicalPortNumber then (f, .invalidPort)
  else if newDataPathState = .unknown then (f, .invalidParameter)
  else
    let logicalPortNumber := f.logicalPort physicalPortNumber
    if newDataPathState ≠ (f.ports physicalPortNumber).dataPathStatePhysicalCache ∨
        newDataPathState ≠ (f.ports logicalPortNumber).dataPathStateLogicalCache then
      let f := f.modifyPort physicalPortNumber
        fun port => { port with dataPathStatePhysicalCache := newDataPathState }
      let f := f.modifyPort logicalPortNumber
        fun port => { port with dataPathStateLogicalCache := newDataPathState }
      (f.write REG_CXP_RESET_CTRL (cxpResetCtrl f), .ok)
    else (f, .ok)

def portUplinkSpeed : DataPathUpSpeed → BitVec 32
  | .low => 0#32
  | .high => 0x1#32
  | _ => 0#32

def portStandardVersion : CxpStandardVersion → BitVec 32
  | .v1_0 => 0#32
  | .v2_0 => 0x4#32
  | _ => 0x2#32

def cxpStandardCtrl (f : CxpFrontend) : BitVec 32 :=
  Packed.orAll f.numPorts fun logicalPortNumber =>
    ((portUplinkSpeed (f.ports logicalPortNumber).dataPathUpSpeedCache |||
      portStandardVersion (f.ports logicalPortNumber).standardVersionCache) &&& 0x7#32)
        <<< (3 * logicalPortNumber)

/-- Update uplink speed and cxp standard version. -/
def cxpUpdateStandardCtrlRegister (f : CxpFrontend) : CxpFrontend :=
  f.write REG_CXP_STANDARD_CTRL (cxpStandardCtrl f)

/-- The loop ends when the ready bit of the port is set or when its time is over. -/
def cxpWaitPortDataPathSpeedChangeDone (f : CxpFrontend) (physicalPortNumber : Nat) : CxpError :=
  let portBit : BitVec 32 := 0x1#32 <<< physicalPortNumber
  if f.ri.read REG_CXP_DATA_PATH_STATUS &&& portBit ≠ portBit then .timeout else .ok

def downlinkBitrate : DataPathSpeed → BitVec 32
  | .speed1250 => 0x0#32
  | .speed2500 => 0x1#32
  | .speed5000 => 0x3#32
  | .speed6250 => 0x4#32
  | .speed10000 => 0x5#32
  | .speed12500 => 0x6#32
  | _ => 0x2#32

def dataPathUpSpeed (speed : DataPathSpeed) : DataPathUpSpeed :=
  if speed.toNat ≥ DataPathSpeed.speed10000.toNat then .high else .low

def cxpSetPortDataPathSpeed (f : CxpFrontend) (physicalPortNumber : Nat) (newDataPathSpeed : DataPathSpeed) :
    CxpFrontend × CxpError :=
  if f.numPorts ≤ physicalPortNumber then (f, .invalidPort)
  else if newDataPathSpeed = .unknown ∨ newDataPathSpeed = .speed1000 then (f, .invalidParameter)
  else
    let logicalPortNumber := f.logicalPort physicalPortNumber
    let newDataPathUpSpeed := dataPathUpSpeed newDataPathSpeed
    if newDataPathSpeed ≠ (f.ports physicalPortNumber).dataPathDwSpeedCache ∨
        newDataPathUpSpeed ≠ (f.ports logicalPortNumber).dataPathUpSpeedCache then
      let ret := cxpWaitPortDataPathSpeedChangeDone f physicalPortNumber
      if ret = .ok then
        let (f, ret) :=
          if newDataPathSpeed ≠ (f.ports physicalPortNumber).dataPathDwSpeedCache then
            let f := f.modifyPort physicalPortNumber
              fun port => { port with dataPathDwSpeedCache := newDataPathSpeed }
            let f := f.write (downlinkBitrateRegister physicalPortNumber) (downlinkBitrate newDataPathSpeed)
            (f, cxpWaitPortDataPathSpeedChangeDone f physicalPortNumber)
          else (f, ret)
        if newDataPathUpSpeed ≠ (f.ports logicalPortNumber).dataPathUpSpeedCache then
          let f := f.modifyPort logicalPortNumber
            fun port => { port with dataPathUpSpeedCache := newDataPathUpSpeed }
          (cxpUpdateStandardCtrlRegister f, ret)
        else (f, ret)
      else (f, ret)
    else (f, .ok)

def cxpSetPortStandardVersion (f : CxpFrontend) (physicalPortNumber : Nat)
    (newStandardVersion : CxpStandardVersion) : CxpFrontend × CxpError :=
  if f.numPorts ≤ physicalPortNumber then (f, .invalidPort)
  else if newStandardVersion = .unknown then (f, .invalidParameter)
  else
    let logicalPortNumber := f.logicalPort physicalPortNumber
    if newStandardVersion ≠ (f.ports logicalPortNumber).standardVersionCache then
      let f := f.modifyPort logicalPortNumber fun port =>
        { port with standardVersionCache := newStandardVersion }
      (cxpUpdateStandardCtrlRegister f, .ok)
    else (f, .ok)

def ledCtrl : CxpLedState → BitVec 32
  | .booting => 0x0#32
  | .powered => 0x1#32
  | .discovery => 0x2#32
  | .connected => 0x5#32
  | .waitingForEvent => 0x4#32
  | .incompatibleDevice => 0x3#32
  | _ => 0x6#32

def cxpSetPortLedState (f : CxpFrontend) (physicalPortNumber : Nat) (newLedState : CxpLedState) :
    CxpFrontend × CxpError :=
  if f.numPorts ≤ physicalPortNumber then (f, .invalidPort)
  else if newLedState = .unknown then (f, .invalidParameter)
  else if newLedState ≠ (f.ports physicalPortNumber).ledStateCache then
    let f := f.modifyPort physicalPortNumber fun port => { port with ledStateCache := newLedState }
    (f.write (ledCtrlRegister physicalPortNumber) (ledCtrl newLedState), .ok)
  else (f, .ok)

def portAcquisitionCtrl : AcquisitionState → BitVec 32
  | .started => 0x1#32
  | _ => 0#32

/-- The acquisition states of all ports for the combined register. -/
def cxpAcquisitionCtrl (f : CxpFrontend) : BitVec 32 :=
  Packed.orAll f.numPorts fun logicalPort =>
    (portAcquisitionCtrl (f.ports logicalPort).acquisitionStateCache &&& 0x1#32) <<< (1 * logicalPort)

def cxpSetPortAcquisitionState (f : CxpFrontend) (physicalPortNumber : Nat)
    (newAcquisitionState : AcquisitionState) : CxpFrontend × CxpError :=
  if f.numPorts ≤ physicalPortNumber then (f, .invalidPort)
  else if newAcquisitionState = .unknown then (f, .invalidParameter)
  else
    let logicalPortNumber := f.logicalPort physicalPortNumber
    if newAcquisitionState ≠ (f.ports logicalPortNumber).acquisitionStateCache then
      let f := f.modifyPort logicalPortNumber fun port =>
        { port with acquisitionStateCache := newAcquisitionState }
      (f.write REG_ACQUISITION_CTRL (cxpAcquisitionCtrl f), .ok)
    else (f, .ok)

/-- `GEN_MASK_8`. The C code shifts by a negative number when `to` is above 7. -/
def genMask8 (b e : Nat) : BitVec 8 := (0xff#8 >>> (8 - (e + 1))) &&& (0xff#8 <<< b)

/-- `SET_BITS_8`. -/
def setBits8 (word val : BitVec 8) (b e : Nat) : BitVec 8 :=
  (word &&& ~~~genMask8 b e) ||| ((val <<< b) &&& genMask8 b e)

def CXP_CAMERA_DOWNSCALE_MAX_CONNECTIONS : Nat := 4
def CXP_CAMERA_DOWNSCALE_CTRL_PORT_FROM (p : Nat) : Nat := 2 * p
def CXP_CAMERA_DOWNSCALE_CTRL_PORT_TO (p : Nat) : Nat := CXP_CAMERA_DOWNSCALE_CTRL_PORT_FROM p + 1

/-- The number of links of all logical ports. -/
def cxpCameraDownscaleCtrl (f : CxpFrontend) : BitVec 8 :=
  (List.range f.numPorts).foldl (fun regValue port =>
    setBits8 regValue ((f.ports port).cameraDownscaleStateCache - 1#8)
      (CXP_CAMERA_DOWNSCALE_CTRL_PORT_FROM port) (CXP_CAMERA_DOWNSCALE_CTRL_PORT_TO port)) 0#8

def cxpSetPortCameraDonwscaling (f : CxpFrontend) (physicalPortNumber numConnections : Nat) :
    CxpFrontend × CxpError :=
  if f.numPorts ≤ physicalPortNumber then (f, .invalidPort)
  else if numConnections > CXP_CAMERA_DOWNSCALE_MAX_CONNECTIONS then (f, .invalidParameter)
  else if numConnections = 0 then (f, .invalidParameter)
  else if f.numPorts = 1 then (f, .ok)
  else
    let logicalPortNumber := f.logicalPort physicalPortNumber
    if numConnections = (f.ports logicalPortNumber).cameraDownscaleStateCache.toNat then (f, .ok)
    else
      let f := f.modifyPort logicalPortNumber
        fun port => { port with cameraDownscaleStateCache := BitVec.ofNat 8 numConnections }
      (f.write REG_CXP_CAMERA_DOWNSCALE_CTRL ((cxpCameraDownscaleCtrl f).setWidth 32), .ok)

def PN_MICROENABLE6_CXP12_IC_1C : Nat := 0xB63
def PN_MICROENABLE6_CXP12_IC_2C : Nat := 0xB65
def PN_MICROENABLE6_CXP12_IC_4C : Nat := 0xB64
def PN_MICROENABLE6_IMAWORX_CXP12_QUAD : Nat := 0xA64

def sisoBoardIsMe6 (boardType : Nat) : Bool :=
  boardType ∈ [PN_MICROENABLE6_IMAWORX_CXP12_QUAD, 0xA62, 0xA69, 0xA61, 0xB61, PN_MICROENABLE6_CXP12_IC_1C,
    PN_MICROENABLE6_CXP12_IC_2C, PN_MICROENABLE6_CXP12_IC_4C, 0xB68, 0xA63, 0xA66, 0xA67, 0xA68, 0xA6A, 0xA6C]

structure VersionNumber where
  major : Nat
  minor : Nat
  patch : Nat
deriving DecidableEq, Repr

def isVersionGreater (first second : VersionNumber) : Bool :=
  first.major > second.major ∨ first.major = second.major ∧
    (first.minor > second.minor ∨ first.minor = second.minor ∧ first.patch > second.patch)

def isVersionGreaterOrEqual (first second : VersionNumber) : Bool :=
  first = second ∨ isVersionGreater first second

/-- A firmware of another board supports it. -/
def doesMe6FirmwareSupportTgs (boardType : Nat) (firmwareVersion : VersionNumber) : Bool :=
  if boardType = PN_MICROENABLE6_CXP12_IC_1C then isVersionGreaterOrEqual firmwareVersion ⟨3, 2, 0⟩
  else if boardType ∈ [PN_MICROENABLE6_CXP12_IC_2C, PN_MICROENABLE6_CXP12_IC_4C,
    PN_MICROENABLE6_IMAWORX_CXP12_QUAD] then isVersionGreaterOrEqual firmwareVersion ⟨1, 1, 0⟩
  else true

def doesBoardAppletSupportTgs (f : CxpFrontend) : Bool :=
  let boardType := ((f.ri.read BOARDSTATUSEX >>> 16) &&& 0xffff#32).toNat
  let boardStatus := f.ri.read ME6_REG_BOARD_STATUS
  let firmwareVersion := (((boardStatus &&& 0x00ff00#32) >>> 8) &&& 0xff#32).toNat
  let firmwareRevision := (((boardStatus &&& 0xff0000#32) >>> 16) &&& 0xff#32).toNat
  sisoBoardIsMe6 boardType && doesMe6FirmwareSupportTgs boardType ⟨firmwareVersion, firmwareRevision, 0⟩

def cxpSetPortImageStreamId (f : CxpFrontend) (masterPort : Nat) (streamId : Int) : CxpFrontend × CxpError :=
  if f.numPorts ≤ masterPort then (f, .invalidPort)
  else if streamId < -1 ∨ streamId > 255 then (f, .invalidParameter)
  else
    let logicalPortNumber := f.logicalPort masterPort
    if streamId = -1 then (f.modifyPort logicalPortNumber fun port => { port with streamIdCache := -1 }, .ok)
    else if !doesBoardAppletSupportTgs f then (f, .appletDoesNotSupportTgs)
    else if streamId = (f.ports logicalPortNumber).streamIdCache then (f, .ok)
    else
      let f := f.modifyPort logicalPortNumber fun port => { port with streamIdCache := streamId }
      (f.write (configImageStreamIdRegister logicalPortNumber)
        (0xff00#32 &&& ((BitVec.ofInt 32 streamId &&& 0xff#32) <<< 8) &&& 0x0000ffff#32), .ok)

/-! ## The port map -/

/-- The settings that `cxp_set_port_map` saves for each physical port. -/
structure OldSettings where
  dataPathState : Nat → DataPathState
  dataPathSpeed : Nat → DataPathSpeed
  standardVersion : Nat → CxpStandardVersion
  acquisitionState : Nat → AcquisitionState
  cameraDownscaleState : Nat → BitVec 8

/-- For the parameters that have a logical cache, the value is found with the old port map. -/
def saveSettings (f : CxpFrontend) (oldPortMap : BitVec 64) : OldSettings :=
  let physicalPort := cxpGetPhysicalPortNumberFromPortMap oldPortMap
  { dataPathState := fun port => (f.ports port).dataPathStatePhysicalCache
    dataPathSpeed := fun port => (f.ports port).dataPathDwSpeedCache
    standardVersion := Remap.scatter physicalPort (fun port => (f.ports port).standardVersionCache)
      (fun _ => .unknown) f.numPorts
    acquisitionState := Remap.scatter physicalPort (fun port => (f.ports port).acquisitionStateCache)
      (fun _ => .unknown) f.numPorts
    cameraDownscaleState := Remap.scatter physicalPort (fun port => (f.ports port).cameraDownscaleStateCache)
      (fun _ => 0#8) f.numPorts }

/-- The five setters for one port. The C code does not look at their results. -/
def restoreSettings (old : OldSettings) (f : CxpFrontend) (physicalPort : Nat) : CxpFrontend :=
  let f := (cxpSetPortDataPathState f physicalPort (old.dataPathState physicalPort)).1
  let f := (cxpSetPortDataPathSpeed f physicalPort (old.dataPathSpeed physicalPort)).1
  let f := (cxpSetPortStandardVersion f physicalPort (old.standardVersion physicalPort)).1
  let f := (cxpSetPortAcquisitionState f physicalPort (old.acquisitionState physicalPort)).1
  (cxpSetPortCameraDonwscaling f physicalPort (old.cameraDownscaleState physicalPort).toNat).1

/-- One turn of the loop over the physical ports. -/
def remapPort (oldPortMap newPortMap : BitVec 64) (old : OldSettings) (f : CxpFrontend) (physicalPort : Nat) :
    CxpFrontend :=
  if cxpGetLogicalPortNumberFromPortMap oldPortMap physicalPort ≠
      cxpGetLogicalPortNumberFromPortMap newPortMap physicalPort then restoreSettings old f physicalPort
  else f

/-- Sets the index and reprograms the multiplexer. -/
def switchPortMap (f : CxpFrontend) (newPortMapIndex : Nat) : CxpFrontend :=
  { f with portMapIndex := newPortMapIndex }.write REG_CXP_DISCOVERY_CONFIG (BitVec.ofNat 32 newPortMapIndex)

def cxpSetPortMap (f : CxpFrontend) (newPortMap : BitVec 64) : CxpFrontend × CxpError :=
  let oldPortMap := f.portMap
  if newPortMap ≠ oldPortMap then
    let newPortMapIndex := f.portMaps.search newPortMap
    if f.portMaps.portMap newPortMapIndex = CXP_PORT_MAP_INVALID then (f, .invalidParameter)
    else
      let old := saveSettings f oldPortMap
      let g := switchPortMap f newPortMapIndex
      if oldPortMap ≠ CXP_PORT_MAP_INVALID then
        ((List.range f.numPorts).foldl (remapPort oldPortMap newPortMap old) g, .ok)
      else (g, .ok)
  else (f, .ok)

/-! ## Commands -/

/-- Initialise port to default state. The C code does not look at the results of the setters. -/
def cxpResetPort (f : CxpFrontend) (physicalPort : Nat) : CxpFrontend :=
  if physicalPort < f.numPorts then
    let f := (cxpSetPortDataPathState f physicalPort .inactive).1
    let f := (cxpSetPortDataPathSpeed f physicalPort .speed3125).1
    let f := (cxpSetPortStandardVersion f physicalPort .v1_1).1
    let f := (cxpSetPortLedState f physicalPort .powered).1
    let f := (cxpSetPortAcquisitionState f physicalPort .stopped).1
    let f := (cxpSetPortCameraDonwscaling f physicalPort 1).1
    (cxpSetPortImageStreamId f physicalPort (-1)).1
  else f

def cxpReset (f : CxpFrontend) : CxpFrontend :=
  let f := (cxpSetPortMap f 0x7654321076543210#64).1
  (List.range f.numPorts).foldl cxpResetPort f

/-- Prepare cxp frontend for applet reload. The answer of the board is only logged. -/
def cxpPrepareAppletReload (f : CxpFrontend) : CxpFrontend :=
  let f := cxpReset f
  if f.supportsIdleViolationFix then f.write REG_CXP_LOAD_APPLET_CTRL 0x1#32 else f

/-- The frontend as `cxp_frontend_init` leaves it. -/
def cxpFrontendInit (ri : RegisterInterface) (numPhysicalPorts : Nat) (supportsIdleViolationFix : Bool) :
    CxpFrontend :=
  let portMaps := cxpPortMaps numPhysicalPorts
  { ri, supportsIdleViolationFix, ports := fun _ => {}, portMaps
    portMapIndex := portMaps.portMaps.length - 1 }

/-- What a user of the frontend may call: the functions of `struct camera_frontend` and the
commands of `cxp_execute_command`. -/
inductive CameraCommand where
  | reset
  | resetPhysicalPort (port : Nat)
  | prepareAppletReload
  | setPortMap (portMap : BitVec 64)
  | setPortPowerState (port : Nat) (state : PowerState)
  | setPortDataPathState (port : Nat) (state : DataPathState)
  | setPortDataPathSpeed (port : Nat) (speed : DataPathSpeed)
  | setPortCxpStandardVersion (port : Nat) (version : CxpStandardVersion)
  | setPortCxpLedState (port : Nat) (state : CxpLedState)
  | setPortAcquisitionState (port : Nat) (state : AcquisitionState)
  | setPortCxpCameraDownscaling (port numConnections : Nat)
  | setStreamId (masterPort : Nat) (streamId : Int)

/-- An argument outside of its enumeration is refused like the unknown one. -/
def cxpExecuteCommand (f : CxpFrontend) : CameraCommand → CxpFrontend × CxpError
  | .reset => (cxpReset f, .ok)
  | .resetPhysicalPort port => (cxpResetPort f port, .ok)
  | .prepareAppletReload => (cxpPrepareAppletReload f, .ok)
  | .setPortMap portMap => cxpSetPortMap f portMap
  | .setPortPowerState port state => cxpSetPortPowerState f port state
  | .setPortDataPathState port state => cxpSetPortDataPathState f port state
  | .setPortDataPathSpeed port speed => cxpSetPortDataPathSpeed f port speed
  | .setPortCxpStandardVersion port version => cxpSetPortStandardVersion f port version
  | .setPortCxpLedState port state => cxpSetPortLedState f port state
  | .setPortAcquisitionState port state => cxpSetPortAcquisitionState f port state
  | .setPortCxpCameraDownscaling port numConnections => cxpSetPortCameraDonwscaling f port numConnections
  | .setStreamId masterPort streamId => cxpSetPortImageStreamId f masterPort streamId

/-- The frontend after the reset that follows the initialisation, and the given commands. -/
def cxpRun (f : CxpFrontend) (commands : List CameraCommand) : CxpFrontend :=
  commands.foldl (fun f command => (cxpExecuteCommand f command).1) (cxpReset f)

end MenableDriver
