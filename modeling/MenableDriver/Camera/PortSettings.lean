import MenableDriver.Camera.CxpFrontend

/-!
# What the registers say about the ports

The settings of a port are read back from the registers with a port map. Every setter changes
the caches of one setting and keeps the register of that setting in step with them.
-/

namespace MenableDriver

set_option autoImplicit false

/-- The settings of a physical port in the registers, but for the downscaling. -/
structure PortSettings where
  dataPathHost : BitVec 5
  dataPathTransceiver : BitVec 5
  downlinkBitrate : BitVec 32
  uplinkBitrate : BitVec 3
  standardVersion : BitVec 3
  acquisition : BitVec 1
deriving DecidableEq, Repr

def readSettings (ri : RegisterInterface) (portMap : BitVec 64) (physicalPort : Nat) : PortSettings :=
  let logicalPort := cxpGetLogicalPortNumberFromPortMap portMap physicalPort
  { dataPathHost := Packed.lane 5 logicalPort (ri.written REG_CXP_RESET_CTRL) &&& 0x7#5
    dataPathTransceiver := Packed.lane 5 physicalPort (ri.written REG_CXP_RESET_CTRL) &&& 0x18#5
    downlinkBitrate := ri.written (downlinkBitrateRegister physicalPort)
    uplinkBitrate := Packed.lane 3 logicalPort (ri.written REG_CXP_STANDARD_CTRL) &&& 0x1#3
    standardVersion := Packed.lane 3 logicalPort (ri.written REG_CXP_STANDARD_CTRL) &&& 0x6#3
    acquisition := Packed.lane 1 logicalPort (ri.written REG_ACQUISITION_CTRL) }

def readDownscale (ri : RegisterInterface) (portMap : BitVec 64) (physicalPort : Nat) : BitVec 2 :=
  Packed.lane 2 (cxpGetLogicalPortNumberFromPortMap portMap physicalPort)
    (ri.written REG_CXP_CAMERA_DOWNSCALE_CTRL)

/-! ## The parts of a frontend -/

structure BoardPart where
  portMaps : PortMapTable
  portMapIndex : Nat
  input : Nat → BitVec 32

structure DataPathPart where
  physical : Nat → DataPathState
  logical : Nat → DataPathState
  resetCtrl : BitVec 32

structure SpeedPart where
  downlink : Nat → DataPathSpeed
  bitrate : Nat → BitVec 32

structure StandardPart where
  uplink : Nat → DataPathUpSpeed
  version : Nat → CxpStandardVersion
  standardCtrl : BitVec 32

structure AcquisitionPart where
  state : Nat → AcquisitionState
  acquisitionCtrl : BitVec 32

structure DownscalePart where
  connections : Nat → BitVec 8
  downscaleCtrl : BitVec 32

theorem downlinkBitrateRegister_mem (p : Nat) :
    downlinkBitrateRegister p ∈ [0x802, 0x803, 0x804, 0x805, 0x818] := by
  rw [downlinkBitrateRegister]
  split_ifs with hp
  · have hp : p = 0 ∨ p = 1 ∨ p = 2 ∨ p = 3 := by omega
    rcases hp with rfl | rfl | rfl | rfl <;> decide
  · decide

theorem downlinkBitrateRegister_inj : ∀ p < 5, ∀ q < 5,
    downlinkBitrateRegister p = downlinkBitrateRegister q → p = q := by
  decide

namespace CxpFrontend

variable (f : CxpFrontend)

/-- One cache of all the ports. -/
def cache {α : Type} (get : CxpPort → α) : Nat → α := fun p => get (f.ports p)

def board : BoardPart := ⟨f.portMaps, f.portMapIndex, f.ri.input⟩

def dataPath : DataPathPart :=
  ⟨f.cache (·.dataPathStatePhysicalCache), f.cache (·.dataPathStateLogicalCache),
    f.ri.written REG_CXP_RESET_CTRL⟩

def speed : SpeedPart :=
  ⟨f.cache (·.dataPathDwSpeedCache), fun p => f.ri.written (downlinkBitrateRegister p)⟩

def standard : StandardPart :=
  ⟨f.cache (·.dataPathUpSpeedCache), f.cache (·.standardVersionCache), f.ri.written REG_CXP_STANDARD_CTRL⟩

def acquisition : AcquisitionPart := ⟨f.cache (·.acquisitionStateCache), f.ri.written REG_ACQUISITION_CTRL⟩

def downscale : DownscalePart :=
  ⟨f.cache (·.cameraDownscaleStateCache), f.ri.written REG_CXP_CAMERA_DOWNSCALE_CTRL⟩

section
variable {f} {α : Type} {get : CxpPort → α} {p : Nat} {change : CxpPort → CxpPort}

theorem cache_write (a : Nat) (value : BitVec 32) : (f.write a value).cache get = f.cache get := rfl

theorem cache_modifyPort :
    (f.modifyPort p change).cache get = Function.update (f.cache get) p (get (change (f.ports p))) := by
  funext q
  by_cases hq : q = p
  · subst hq
    simp only [cache, modifyPort, Function.update_self]
  · simp only [cache, modifyPort, Function.update_of_ne hq]

theorem cache_modifyPort_of_eq (h : ∀ port, get (change port) = get port) :
    (f.modifyPort p change).cache get = f.cache get := by
  rw [cache_modifyPort, h]
  exact Function.update_eq_self p (f.cache get)

end

theorem written_write_of_ne {a b : Nat} (value : BitVec 32) (h : b ≠ a) :
    (f.write a value).ri.written b = f.ri.written b :=
  Function.update_of_ne h _ _

theorem written_write (a : Nat) (value : BitVec 32) : (f.write a value).ri.written a = value :=
  Function.update_self _ _ _

variable {f}

theorem dataPath_write {a : Nat} (value : BitVec 32) (h : REG_CXP_RESET_CTRL ≠ a) :
    (f.write a value).dataPath = f.dataPath := by
  rw [dataPath, written_write_of_ne _ _ h]
  rfl

theorem speed_write {a : Nat} (value : BitVec 32) (h : a ∉ [0x802, 0x803, 0x804, 0x805, 0x818]) :
    (f.write a value).speed = f.speed := by
  have hne : ∀ p, downlinkBitrateRegister p ≠ a := fun p heq => h (heq ▸ downlinkBitrateRegister_mem p)
  rw [speed, funext fun p => written_write_of_ne _ _ (hne p)]
  rfl

theorem standard_write {a : Nat} (value : BitVec 32) (h : REG_CXP_STANDARD_CTRL ≠ a) :
    (f.write a value).standard = f.standard := by
  rw [standard, written_write_of_ne _ _ h]
  rfl

theorem acquisition_write {a : Nat} (value : BitVec 32) (h : REG_ACQUISITION_CTRL ≠ a) :
    (f.write a value).acquisition = f.acquisition := by
  rw [acquisition, written_write_of_ne _ _ h]
  rfl

theorem downscale_write {a : Nat} (value : BitVec 32) (h : REG_CXP_CAMERA_DOWNSCALE_CTRL ≠ a) :
    (f.write a value).downscale = f.downscale := by
  rw [downscale, written_write_of_ne _ _ h]
  rfl

section
variable {p : Nat} {change : CxpPort → CxpPort}

theorem dataPath_modifyPort (h : ∀ port, (change port).dataPathStatePhysicalCache = port.dataPathStatePhysicalCache)
    (h' : ∀ port, (change port).dataPathStateLogicalCache = port.dataPathStateLogicalCache) :
    (f.modifyPort p change).dataPath = f.dataPath := by
  rw [dataPath, cache_modifyPort_of_eq h, cache_modifyPort_of_eq h']
  rfl

theorem speed_modifyPort (h : ∀ port, (change port).dataPathDwSpeedCache = port.dataPathDwSpeedCache) :
    (f.modifyPort p change).speed = f.speed := by
  rw [speed, cache_modifyPort_of_eq h]
  rfl

theorem standard_modifyPort (h : ∀ port, (change port).dataPathUpSpeedCache = port.dataPathUpSpeedCache)
    (h' : ∀ port, (change port).standardVersionCache = port.standardVersionCache) :
    (f.modifyPort p change).standard = f.standard := by
  rw [standard, cache_modifyPort_of_eq h, cache_modifyPort_of_eq h']
  rfl

theorem acquisition_modifyPort (h : ∀ port, (change port).acquisitionStateCache = port.acquisitionStateCache) :
    (f.modifyPort p change).acquisition = f.acquisition := by
  rw [acquisition, cache_modifyPort_of_eq h]
  rfl

theorem downscale_modifyPort
    (h : ∀ port, (change port).cameraDownscaleStateCache = port.cameraDownscaleStateCache) :
    (f.modifyPort p change).downscale = f.downscale := by
  rw [downscale, cache_modifyPort_of_eq h]
  rfl

end

end CxpFrontend

open CxpFrontend

/-! ## What the setters do -/

structure DataPathSet (f g : CxpFrontend) (p : Nat) (state : DataPathState) : Prop where
  board : g.board = f.board
  speed : g.speed = f.speed
  standard : g.standard = f.standard
  acquisition : g.acquisition = f.acquisition
  downscale : g.downscale = f.downscale
  physical : g.dataPath.physical = Function.update f.dataPath.physical p state
  logical : g.dataPath.logical = Function.update f.dataPath.logical (f.logicalPort p) state
  register : g.dataPath.resetCtrl = cxpResetCtrl g ∨ g = f

structure SpeedSet (f g : CxpFrontend) (p : Nat) (speed : DataPathSpeed) : Prop where
  board : g.board = f.board
  dataPath : g.dataPath = f.dataPath
  acquisition : g.acquisition = f.acquisition
  downscale : g.downscale = f.downscale
  version : g.standard.version = f.standard.version
  downlink : g.speed.downlink = Function.update f.speed.downlink p speed
  uplink : g.standard.uplink = Function.update f.standard.uplink (f.logicalPort p) (dataPathUpSpeed speed)
  bitrate : (speed ≠ f.speed.downlink p ∧
    ∀ q < 5, g.speed.bitrate q = if q = p then downlinkBitrate speed else f.speed.bitrate q) ∨
      g.speed = f.speed
  register : g.standard.standardCtrl = cxpStandardCtrl g ∨ g.standard = f.standard

structure VersionSet (f g : CxpFrontend) (p : Nat) (version : CxpStandardVersion) : Prop where
  board : g.board = f.board
  dataPath : g.dataPath = f.dataPath
  speed : g.speed = f.speed
  acquisition : g.acquisition = f.acquisition
  downscale : g.downscale = f.downscale
  uplink : g.standard.uplink = f.standard.uplink
  version : g.standard.version = Function.update f.standard.version (f.logicalPort p) version
  register : g.standard.standardCtrl = cxpStandardCtrl g ∨ g = f

structure AcquisitionSet (f g : CxpFrontend) (p : Nat) (state : AcquisitionState) : Prop where
  board : g.board = f.board
  dataPath : g.dataPath = f.dataPath
  speed : g.speed = f.speed
  standard : g.standard = f.standard
  downscale : g.downscale = f.downscale
  state : g.acquisition.state = Function.update f.acquisition.state (f.logicalPort p) state
  register : g.acquisition.acquisitionCtrl = cxpAcquisitionCtrl g ∨ g = f

structure DownscaleSet (f g : CxpFrontend) (p n : Nat) : Prop where
  board : g.board = f.board
  dataPath : g.dataPath = f.dataPath
  speed : g.speed = f.speed
  standard : g.standard = f.standard
  acquisition : g.acquisition = f.acquisition
  connections : g.downscale.connections =
    Function.update f.downscale.connections (f.logicalPort p) (BitVec.ofNat 8 n)
  register : g.downscale.downscaleCtrl = (cxpCameraDownscaleCtrl g).setWidth 32 ∨ g = f

/-- A command that has nothing to do with the settings. -/
structure SettingsKept (f g : CxpFrontend) : Prop where
  board : g.board = f.board
  dataPath : g.dataPath = f.dataPath
  speed : g.speed = f.speed
  standard : g.standard = f.standard
  acquisition : g.acquisition = f.acquisition
  downscale : g.downscale = f.downscale

variable {f : CxpFrontend} {p : Nat}

theorem numPorts_eq {f g : CxpFrontend} (h : g.board = f.board) : g.numPorts = f.numPorts :=
  congrArg (fun b => b.portMaps.numPorts) h

theorem portMap_eq {f g : CxpFrontend} (h : g.board = f.board) : g.portMap = f.portMap :=
  congrArg (fun b => b.portMaps.portMap b.portMapIndex) h

theorem logicalPort_eq {f g : CxpFrontend} (h : g.board = f.board) : g.logicalPort = f.logicalPort := by
  funext p
  rw [CxpFrontend.logicalPort, CxpFrontend.logicalPort, portMap_eq h]

theorem SettingsKept.refl : SettingsKept f f := ⟨rfl, rfl, rfl, rfl, rfl, rfl⟩

theorem SettingsKept.trans {g h : CxpFrontend} (h₁ : SettingsKept f g) (h₂ : SettingsKept g h) :
    SettingsKept f h :=
  ⟨h₂.board.trans h₁.board, h₂.dataPath.trans h₁.dataPath, h₂.speed.trans h₁.speed,
    h₂.standard.trans h₁.standard, h₂.acquisition.trans h₁.acquisition, h₂.downscale.trans h₁.downscale⟩

/-- The registers of the settings. -/
def settingRegisters : List Nat :=
  [REG_CXP_RESET_CTRL, 0x802, 0x803, 0x804, 0x805, 0x818, REG_CXP_STANDARD_CTRL, REG_ACQUISITION_CTRL,
    REG_CXP_CAMERA_DOWNSCALE_CTRL]

theorem settingsKept_write {a : Nat} (value : BitVec 32) (h : a ∉ settingRegisters) :
    SettingsKept f (f.write a value) := by
  simp only [settingRegisters, List.mem_cons, List.not_mem_nil, not_or] at h
  obtain ⟨h₁, h₂, h₃, h₄, h₅, h₆, h₇, h₈, h₉, -⟩ := h
  have hspeed : a ∉ [0x802, 0x803, 0x804, 0x805, 0x818] := by
    simp only [List.mem_cons, List.not_mem_nil, not_or]
    exact ⟨h₂, h₃, h₄, h₅, h₆, id⟩
  exact ⟨rfl, dataPath_write _ (Ne.symm h₁), speed_write _ hspeed, standard_write _ (Ne.symm h₇),
    acquisition_write _ (Ne.symm h₈), downscale_write _ (Ne.symm h₉)⟩

/-- What a port remembers of the settings. -/
def CxpPort.settingCaches (port : CxpPort) :=
  (port.dataPathStatePhysicalCache, port.dataPathStateLogicalCache, port.dataPathDwSpeedCache,
    port.dataPathUpSpeedCache, port.standardVersionCache, port.acquisitionStateCache,
    port.cameraDownscaleStateCache)

theorem settingsKept_modifyPort {change : CxpPort → CxpPort}
    (h : ∀ port, (change port).settingCaches = port.settingCaches) :
      SettingsKept f (f.modifyPort p change) := by
  simp only [CxpPort.settingCaches, Prod.mk.injEq] at h
  exact ⟨rfl, dataPath_modifyPort (fun q => (h q).1) (fun q => (h q).2.1), speed_modifyPort fun q =>
    (h q).2.2.1,
    standard_modifyPort (fun q => (h q).2.2.2.1) (fun q => (h q).2.2.2.2.1),
    acquisition_modifyPort fun q => (h q).2.2.2.2.2.1, downscale_modifyPort fun q => (h q).2.2.2.2.2.2⟩

theorem cxpSetPortDataPathState_set {state : DataPathState} (hp : p < f.numPorts) (hs : state ≠ .unknown) :
    DataPathSet f (cxpSetPortDataPathState f p state).1 p state := by
  unfold cxpSetPortDataPathState
  rw [if_neg (by omega), if_neg hs]
  dsimp only
  split_ifs with h
  · refine ⟨rfl, ?_, ?_, ?_, ?_, ?_, ?_, .inl ?_⟩
    · simp (disch := first | decide | exact fun _ => rfl) only
        [speed_write, speed_modifyPort]
    · simp (disch := first | decide | exact fun _ => rfl) only
        [standard_write, standard_modifyPort]
    · simp (disch := first | decide | exact fun _ => rfl) only
        [acquisition_write, acquisition_modifyPort]
    · simp (disch := first | decide | exact fun _ => rfl) only
        [downscale_write, downscale_modifyPort]
    · simp (disch := exact fun _ => rfl) only
        [dataPath, cache_write, cache_modifyPort_of_eq]
      exact cache_modifyPort
    · simp only [dataPath, cache_write]
      rw [cache_modifyPort]
      simp (disch := exact fun _ => rfl) only [cache_modifyPort_of_eq]
    · simp only [dataPath, written_write]
      rfl
  · obtain ⟨h₁, h₂⟩ := not_or.mp h
    refine ⟨rfl, rfl, rfl, rfl, rfl, ?_, ?_, .inr rfl⟩
    · rw [not_not.mp h₁]
      exact (Function.update_eq_self p f.dataPath.physical).symm
    · rw [not_not.mp h₂]
      exact (Function.update_eq_self (f.logicalPort p) f.dataPath.logical).symm

/-- The first half of the speed setter. -/
def setDownlink (f : CxpFrontend) (p : Nat) (speed : DataPathSpeed) : CxpFrontend :=
  if speed ≠ (f.ports p).dataPathDwSpeedCache then
    (f.modifyPort p fun port => { port with dataPathDwSpeedCache := speed }).write (downlinkBitrateRegister p)
      (downlinkBitrate speed)
  else f

/-- The second half. -/
def setUplink (f : CxpFrontend) (l : Nat) (speed : DataPathUpSpeed) : CxpFrontend :=
  if speed ≠ (f.ports l).dataPathUpSpeedCache then
    cxpUpdateStandardCtrlRegister (f.modifyPort l fun port => { port with dataPathUpSpeedCache := speed })
  else f

theorem cxpSetPortDataPathSpeed_eq {speed : DataPathSpeed} (hp : p < f.numPorts)
    (hs : ¬ (speed = .unknown ∨ speed = .speed1000)) (hw : cxpWaitPortDataPathSpeedChangeDone f p = .ok) :
    (cxpSetPortDataPathSpeed f p speed).1 =
      setUplink (setDownlink f p speed) (f.logicalPort p) (dataPathUpSpeed speed) := by
  unfold cxpSetPortDataPathSpeed setDownlink setUplink
  rw [if_neg (by omega), if_neg hs]
  dsimp only
  by_cases hdown : speed = (f.ports p).dataPathDwSpeedCache
  · rw [if_neg (not_not.mpr hdown), if_neg (not_not.mpr hdown)]
    by_cases hup : dataPathUpSpeed speed = (f.ports (f.logicalPort p)).dataPathUpSpeedCache
    · rw [if_neg (not_or.mpr ⟨not_not.mpr hdown, not_not.mpr hup⟩), if_neg (not_not.mpr hup)]
    · rw [if_pos (.inr hup), if_pos hw, if_pos hup, if_pos hup]
  · rw [if_pos (.inl hdown), if_pos hw, if_pos hdown, if_pos hdown]
    dsimp only
    split_ifs <;> rfl

theorem setDownlink_keeps (speed : DataPathSpeed) : (setDownlink f p speed).board = f.board ∧
    (setDownlink f p speed).dataPath = f.dataPath ∧ (setDownlink f p speed).standard = f.standard ∧
    (setDownlink f p speed).acquisition = f.acquisition ∧ (setDownlink f p speed).downscale =
      f.downscale := by
  have hne : ∀ a, a ∉ [0x802, 0x803, 0x804, 0x805, 0x818] → a ≠ downlinkBitrateRegister p :=
    fun a ha heq => ha (heq ▸ downlinkBitrateRegister_mem p)
  rw [setDownlink]
  split_ifs with h
  · refine ⟨rfl, ?_, ?_, ?_, ?_⟩
    · rw [dataPath_write _ (hne _ (by decide))]
      exact dataPath_modifyPort (fun _ => rfl) (fun _ => rfl)
    · rw [standard_write _ (hne _ (by decide))]
      exact standard_modifyPort (fun _ => rfl) (fun _ => rfl)
    · rw [acquisition_write _ (hne _ (by decide))]
      exact acquisition_modifyPort (fun _ => rfl)
    · rw [downscale_write _ (hne _ (by decide))]
      exact downscale_modifyPort (fun _ => rfl)
  · exact ⟨rfl, rfl, rfl, rfl, rfl⟩

theorem setDownlink_downlink (speed : DataPathSpeed) :
    (setDownlink f p speed).speed.downlink = Function.update f.speed.downlink p speed := by
  rw [setDownlink]
  split_ifs with h
  · simp only [CxpFrontend.speed, cache_write]
    exact cache_modifyPort
  · rw [not_not.mp h]
    exact (Function.update_eq_self p f.speed.downlink).symm

theorem setDownlink_bitrate (hp : p < 5) (speed : DataPathSpeed) :
    (speed ≠ f.speed.downlink p ∧ ∀ q < 5, (setDownlink f p speed).speed.bitrate q =
      if q = p then downlinkBitrate speed else f.speed.bitrate q) ∨
        (setDownlink f p speed).speed = f.speed := by
  rw [setDownlink]
  split_ifs with h
  · refine .inl ⟨h, fun q hq => ?_⟩
    by_cases hqp : q = p
    · rw [if_pos hqp, hqp]
      exact written_write _ _ _
    · rw [if_neg hqp]
      exact written_write_of_ne _ _ (fun heq => hqp (downlinkBitrateRegister_inj q hq p hp heq))
  · exact .inr rfl

theorem setUplink_keeps (l : Nat) (speed : DataPathUpSpeed) : (setUplink f l speed).board = f.board ∧
    (setUplink f l speed).dataPath = f.dataPath ∧ (setUplink f l speed).speed = f.speed ∧
    (setUplink f l speed).standard.version = f.standard.version ∧
    (setUplink f l speed).acquisition = f.acquisition ∧ (setUplink f l speed).downscale = f.downscale := by
  rw [setUplink]
  split_ifs with h
  · rw [cxpUpdateStandardCtrlRegister]
    refine ⟨rfl, ?_, ?_, ?_, ?_, ?_⟩
    · simp (disch := first | decide | exact fun _ => rfl) only [dataPath_write, dataPath_modifyPort]
    · simp (disch := first | decide | exact fun _ => rfl) only [speed_write, speed_modifyPort]
    · simp (disch := exact fun _ => rfl) only [standard, cache_write, cache_modifyPort_of_eq]
    · simp (disch := first | decide | exact fun _ => rfl) only [acquisition_write, acquisition_modifyPort]
    · simp (disch := first | decide | exact fun _ => rfl) only [downscale_write, downscale_modifyPort]
  · exact ⟨rfl, rfl, rfl, rfl, rfl, rfl⟩

theorem setUplink_uplink (l : Nat) (speed : DataPathUpSpeed) :
    (setUplink f l speed).standard.uplink = Function.update f.standard.uplink l speed := by
  rw [setUplink]
  split_ifs with h
  · simp only [cxpUpdateStandardCtrlRegister, standard, cache_write]
    exact cache_modifyPort
  · rw [not_not.mp h]
    exact (Function.update_eq_self l f.standard.uplink).symm

theorem setUplink_register (l : Nat) (speed : DataPathUpSpeed) :
    (setUplink f l speed).standard.standardCtrl = cxpStandardCtrl (setUplink f l speed) ∨
      setUplink f l speed = f := by
  rw [setUplink]
  split_ifs with h
  · left
    simp only [cxpUpdateStandardCtrlRegister, standard, written_write]
    rfl
  · exact .inr rfl

theorem cxpSetPortDataPathSpeed_set {speed : DataPathSpeed} (hp : p < f.numPorts)
    (hs : ¬ (speed = .unknown ∨ speed = .speed1000)) (hw : cxpWaitPortDataPathSpeedChangeDone f p = .ok) :
    SpeedSet f (cxpSetPortDataPathSpeed f p speed).1 p speed := by
  have hp5 : p < 5 := lt_of_lt_of_le hp f.portMaps.numPorts_le
  rw [cxpSetPortDataPathSpeed_eq hp hs hw]
  obtain ⟨dboard, ddata, dstandard, dacq, ddown⟩ := setDownlink_keeps (f := f) (p := p) speed
  obtain ⟨uboard, udata, uspeed, uversion, uacq, udown⟩ :=
    setUplink_keeps (f := setDownlink f p speed) (f.logicalPort p) (dataPathUpSpeed speed)
  refine ⟨uboard.trans dboard, udata.trans ddata, uacq.trans dacq, udown.trans ddown, ?_, ?_, ?_, ?_, ?_⟩
  · rw [uversion, dstandard]
  · rw [uspeed, setDownlink_downlink]
  · rw [setUplink_uplink, dstandard]
  · rw [uspeed]
    exact setDownlink_bitrate hp5 speed
  · refine (setUplink_register _ _).imp id fun h => ?_
    rw [h, dstandard]

theorem cxpSetPortStandardVersion_set {version : CxpStandardVersion} (hp : p < f.numPorts)
    (hv : version ≠ .unknown) : VersionSet f (cxpSetPortStandardVersion f p version).1 p version := by
  unfold cxpSetPortStandardVersion
  rw [if_neg (by omega), if_neg hv]
  dsimp only
  split_ifs with h
  · refine ⟨rfl, ?_, ?_, ?_, ?_, ?_, ?_, .inl ?_⟩
    · simp (disch := first | decide | exact fun _ => rfl) only
        [cxpUpdateStandardCtrlRegister, dataPath_write, dataPath_modifyPort]
    · simp (disch := first | decide | exact fun _ => rfl) only
        [cxpUpdateStandardCtrlRegister, speed_write, speed_modifyPort]
    · simp (disch := first | decide | exact fun _ => rfl) only
        [cxpUpdateStandardCtrlRegister, acquisition_write, acquisition_modifyPort]
    · simp (disch := first | decide | exact fun _ => rfl) only
        [cxpUpdateStandardCtrlRegister, downscale_write, downscale_modifyPort]
    · simp (disch := exact fun _ => rfl) only
        [cxpUpdateStandardCtrlRegister, standard, cache_write, cache_modifyPort_of_eq]
    · simp only [cxpUpdateStandardCtrlRegister, standard, cache_write]
      exact cache_modifyPort
    · simp only [cxpUpdateStandardCtrlRegister, standard, written_write]
      rfl
  · refine ⟨rfl, rfl, rfl, rfl, rfl, rfl, ?_, .inr rfl⟩
    rw [not_not.mp h]
    exact (Function.update_eq_self (f.logicalPort p) f.standard.version).symm

theorem cxpSetPortAcquisitionState_set {state : AcquisitionState} (hp : p < f.numPorts)
    (hs : state ≠ .unknown) : AcquisitionSet f (cxpSetPortAcquisitionState f p state).1 p state := by
  unfold cxpSetPortAcquisitionState
  rw [if_neg (by omega), if_neg hs]
  dsimp only
  split_ifs with h
  · refine ⟨rfl, ?_, ?_, ?_, ?_, ?_, .inl ?_⟩
    · simp (disch := first | decide | exact fun _ => rfl) only [dataPath_write, dataPath_modifyPort]
    · simp (disch := first | decide | exact fun _ => rfl) only [speed_write, speed_modifyPort]
    · simp (disch := first | decide | exact fun _ => rfl) only [standard_write, standard_modifyPort]
    · simp (disch := first | decide | exact fun _ => rfl) only [downscale_write, downscale_modifyPort]
    · simp only [acquisition, cache_write]
      exact cache_modifyPort
    · simp only [acquisition, written_write]
      rfl
  · refine ⟨rfl, rfl, rfl, rfl, rfl, ?_, .inr rfl⟩
    rw [not_not.mp h]
    exact (Function.update_eq_self (f.logicalPort p) f.acquisition.state).symm

theorem cxpSetPortCameraDonwscaling_set {n : Nat} (hp : p < f.numPorts) (hn : 0 < n) (hmax : n ≤ 4)
    (hports : f.numPorts ≠ 1) : DownscaleSet f (cxpSetPortCameraDonwscaling f p n).1 p n := by
  unfold cxpSetPortCameraDonwscaling
  rw [if_neg (by omega), if_neg (by rw [CXP_CAMERA_DOWNSCALE_MAX_CONNECTIONS]; omega), if_neg (by omega),
    if_neg hports]
  dsimp only
  split_ifs with h
  · refine ⟨rfl, rfl, rfl, rfl, rfl, ?_, .inr rfl⟩
    rw [h, BitVec.ofNat_toNat, BitVec.setWidth_eq]
    exact (Function.update_eq_self (f.logicalPort p) f.downscale.connections).symm
  · refine ⟨rfl, ?_, ?_, ?_, ?_, ?_, .inl ?_⟩
    · simp (disch := first | decide | exact fun _ => rfl) only [dataPath_write, dataPath_modifyPort]
    · simp (disch := first | decide | exact fun _ => rfl) only [speed_write, speed_modifyPort]
    · simp (disch := first | decide | exact fun _ => rfl) only [standard_write, standard_modifyPort]
    · simp (disch := first | decide | exact fun _ => rfl) only [acquisition_write, acquisition_modifyPort]
    · simp only [downscale, cache_write]
      exact cache_modifyPort
    · simp only [downscale, written_write]
      rfl

theorem cxpSetPortPowerState_kept (p : Nat) (state : PowerState) :
    SettingsKept f (cxpSetPortPowerState f p state).1 := by
  unfold cxpSetPortPowerState
  split_ifs with h₁ h₂ h₃
  · exact .refl
  · exact .refl
  · refine SettingsKept.trans ?_ (settingsKept_write _ (by decide))
    exact settingsKept_modifyPort fun _ => rfl
  · exact .refl

theorem ledCtrlRegister_not_mem (p : Nat) : ledCtrlRegister p ∉ settingRegisters := by
  rw [ledCtrlRegister]
  split_ifs with hp
  · have hp : p = 0 ∨ p = 1 ∨ p = 2 ∨ p = 3 := by omega
    rcases hp with rfl | rfl | rfl | rfl <;> decide
  · decide

theorem cxpSetPortLedState_kept (p : Nat) (state : CxpLedState) :
    SettingsKept f (cxpSetPortLedState f p state).1 := by
  unfold cxpSetPortLedState
  split_ifs with h₁ h₂ h₃
  · exact .refl
  · exact .refl
  · refine SettingsKept.trans ?_ (settingsKept_write _ (ledCtrlRegister_not_mem p))
    exact settingsKept_modifyPort fun _ => rfl
  · exact .refl

theorem configImageStreamIdRegister_not_mem (l : Nat) : configImageStreamIdRegister l ∉ settingRegisters := by
  have hle : REG_CONFIG_IMAGE_STREAM_ID_0 ≤ configImageStreamIdRegister l := Nat.le_add_right _ _
  intro hmem
  have hmax : ∀ a ∈ settingRegisters, a < REG_CONFIG_IMAGE_STREAM_ID_0 := by decide
  exact absurd (hmax _ hmem) (not_lt.mpr hle)

theorem cxpSetPortImageStreamId_kept (p : Nat) (streamId : Int) :
    SettingsKept f (cxpSetPortImageStreamId f p streamId).1 := by
  have hport : ∀ l id, SettingsKept f (f.modifyPort l fun port => { port with streamIdCache := id }) :=
    fun l id => settingsKept_modifyPort fun _ => rfl
  unfold cxpSetPortImageStreamId
  dsimp only
  split_ifs
  · exact .refl
  · exact .refl
  · exact hport _ _
  · exact .refl
  · exact .refl
  · exact (hport _ _).trans (settingsKept_write _ (configImageStreamIdRegister_not_mem _))

end MenableDriver
