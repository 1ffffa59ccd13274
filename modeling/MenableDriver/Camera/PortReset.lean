import MenableDriver.Camera.PortMapping

/-!
# From the reset on

`cxp_frontend_init` knows nothing of the board, and the reset writes every setting once. From
there on the caches and the registers agree, whatever the commands are.
-/

namespace MenableDriver

set_option autoImplicit false

open CxpFrontend

variable {f g g' s : CxpFrontend} {p k : Nat}

/-- The ports below `k` were reset, the caches of the others know nothing. `s` is the frontend
before the first port. -/
structure ResetUpTo (s : CxpFrontend) (k : Nat) (g : CxpFrontend) : Prop where
  board : g.board = s.board
  physical : ∀ p < s.numPorts, g.dataPath.physical p = if p < k then .inactive else .unknown
  logical : ∀ p < k, g.dataPath.logical p = .inactive
  host : 0 < k → ∀ p < s.numPorts, Packed.lane 5 p g.dataPath.resetCtrl &&& 0x7#5 =
    hostBits (g.dataPath.physical p)
  transceiver : 0 < k → ∀ p < s.numPorts,
    Packed.lane 5 p g.dataPath.resetCtrl &&& 0x18#5 = transceiverBits (g.dataPath.physical p)
  downlink : ∀ p < s.numPorts, g.speed.downlink p = if p < k then .speed3125 else .unknown
  bitrate : ∀ p < k, g.speed.bitrate p = downlinkBitrate .speed3125
  uplink : ∀ p < k, g.standard.uplink p = .low
  version : ∀ p < s.numPorts, g.standard.version p = if p < k then .v1_1 else .unknown
  standardCtrl : 0 < k → ∀ l < s.numPorts,
    Packed.lane 3 l g.standard.standardCtrl = standardBits (g.standard.uplink l) (g.standard.version l)
  state : ∀ p < s.numPorts, g.acquisition.state p = if p < k then .stopped else .unknown
  acquisitionCtrl : 0 < k → ∀ l < s.numPorts,
    Packed.lane 1 l g.acquisition.acquisitionCtrl = acquisitionBits (g.acquisition.state l)
  downscale : g.downscale = s.downscale

/-- A cache that is set up to a port is set up to the next one. -/
theorem update_upTo {α : Type} {c : Nat → α} {a b : α} {n : Nat}
    (hc : ∀ p < n, c p = if p < k then a else b) :
    ∀ p < n, Function.update c k a p = if p < k + 1 then a else b := by
  intro p hp
  rw [Function.update_apply]
  by_cases hpk : p = k
  · rw [if_pos hpk, if_pos (by omega)]
  · rw [if_neg hpk, hc p hp]
    by_cases hlt : p < k
    · rw [if_pos hlt, if_pos (by omega)]
    · rw [if_neg hlt, if_neg (by omega)]

theorem update_lt {α : Type} {c : Nat → α} {a : α} (hc : ∀ p < k, c p = a) :
    ∀ p < k + 1, Function.update c k a p = a := by
  intro p hp
  rw [Function.update_apply]
  split_ifs with hpk
  · rfl
  · exact hc p (by omega)

/-- The one to one map. -/
def OneToOne (s : CxpFrontend) : Prop := s.portMap = 0x7654321076543210#64

theorem OneToOne.logicalPort (hs : OneToOne s) (hp : p < s.numPorts) : s.logicalPort p = p := by
  have hle := s.portMaps.numPorts_le
  have hn : s.portMaps.numPorts = s.numPorts := rfl
  have hid : ∀ p < 5, cxpGetLogicalPortNumberFromPortMap 0x7654321076543210#64 p = p := by decide
  rw [CxpFrontend.logicalPort, hs]
  exact hid p (by omega)

theorem OneToOne.ok (hs : OneToOne s) : PortMapOk s.numPorts s.portMap := by
  have hle := s.portMaps.numPorts_le
  have hn : s.portMaps.numPorts = s.numPorts := rfl
  have hid : PortMapOk 5 0x7654321076543210#64 := by decide
  have hphys : ∀ p < 5, cxpGetPhysicalPortNumberFromPortMap 0x7654321076543210#64 p = p := by decide
  have hlog : ∀ p < 5, cxpGetLogicalPortNumberFromPortMap 0x7654321076543210#64 p = p := by decide
  rw [hs]
  refine ⟨fun p hp => ⟨?_, (hid.phys2log p (by omega)).2⟩, fun l hl => ⟨?_, (hid.log2phys l (by omega)).2⟩⟩
  · rwa [hlog p (by omega)]
  · rwa [hphys l (by omega)]

/-- Downscaling to the number of connections that the cache has does nothing. -/
theorem cxpSetPortCameraDonwscaling_same (hp : p < f.numPorts)
    (h : f.downscale.connections (f.logicalPort p) = 1#8) : cxpSetPortCameraDonwscaling f p 1 = (f, .ok) := by
  have hone : 1 = (f.ports (f.logicalPort p)).cameraDownscaleStateCache.toNat :=
    (congrArg BitVec.toNat h).symm
  unfold cxpSetPortCameraDonwscaling
  rw [if_neg (not_le.mpr hp), if_neg (by decide), if_neg (by decide)]
  split_ifs with hports
  · rfl
  · exact if_pos hone

theorem cxpResetPort_set (hb : g.board = s.board) (hr : Ready s.ri s.numPorts) (hk : k < s.numPorts)
    (hone : ∀ l, g.downscale.connections l = 1#8) : ∃ g₁ g₂ g₃ g₄ g₅,
      DataPathSet g g₁ k .inactive ∧ SpeedSet g₁ g₂ k .speed3125 ∧ VersionSet g₂ g₃ k .v1_1 ∧
      SettingsKept g₃ g₄ ∧ AcquisitionSet g₄ g₅ k .stopped ∧ SettingsKept g₅ (cxpResetPort g k) := by
  have hn : ∀ {g' : CxpFrontend}, g'.board = s.board → k < g'.numPorts := fun hb => (numPorts_eq hb).symm ▸ hk
  have h₁ := cxpSetPortDataPathState_set (hn hb) (show DataPathState.inactive ≠ .unknown by decide)
  have hb₁ := h₁.board.trans hb
  have h₂ := cxpSetPortDataPathSpeed_set (hn hb₁)
    (show ¬ (DataPathSpeed.speed3125 = .unknown ∨ DataPathSpeed.speed3125 = .speed1000) by decide)
    ((hr.board hb₁).wait (hn hb₁))
  have hb₂ := h₂.board.trans hb₁
  have h₃ := cxpSetPortStandardVersion_set (hn hb₂) (show CxpStandardVersion.v1_1 ≠ .unknown by decide)
  have hb₃ := h₃.board.trans hb₂
  have h₄ := cxpSetPortLedState_kept
    (f := (cxpSetPortStandardVersion (cxpSetPortDataPathSpeed (cxpSetPortDataPathState g k .inactive).1 k .speed3125).1
      k .v1_1).1) k .powered
  have hb₄ := h₄.board.trans hb₃
  have h₅ := cxpSetPortAcquisitionState_set (hn hb₄) (show AcquisitionState.stopped ≠ .unknown by decide)
  have hb₅ := h₅.board.trans hb₄
  refine ⟨_, _, _, _, _, h₁, h₂, h₃, h₄, h₅, ?_⟩
  have hdown := h₅.downscale.trans (h₄.downscale.trans (h₃.downscale.trans (h₂.downscale.trans h₁.downscale)))
  rw [cxpResetPort, if_pos (hn hb)]
  dsimp only
  rw [cxpSetPortCameraDonwscaling_same (hn hb₅) (by rw [hdown]; exact hone _)]
  exact cxpSetPortImageStreamId_kept _ _

theorem ResetUpTo.step (hs : OneToOne s) (hr : Ready s.ri s.numPorts)
    (hone : ∀ l, s.downscale.connections l = 1#8)
    (hg : ResetUpTo s k g) (hk : k < s.numPorts) : ResetUpTo s (k + 1) (cxpResetPort g k) := by
  obtain ⟨g₁, g₂, g₃, g₄, g₅, h₁, h₂, h₃, h₄, h₅, h₆⟩ := cxpResetPort_set hg.board hr hk
    (by rw [hg.downscale]; exact hone)
  generalize cxpResetPort g k = g₆ at h₆ ⊢
  have hb₁ := h₁.board.trans hg.board
  have hb₂ := h₂.board.trans hb₁
  have hb₃ := h₃.board.trans hb₂
  have hb₄ := h₄.board.trans hb₃
  have hb₅ := h₅.board.trans hb₄
  -- where each part was changed last
  have hdata : g₆.dataPath = g₁.dataPath :=
    h₆.dataPath.trans (h₅.dataPath.trans (h₄.dataPath.trans (h₃.dataPath.trans h₂.dataPath)))
  have hspeed : g₆.speed = g₂.speed :=
    h₆.speed.trans (h₅.speed.trans (h₄.speed.trans h₃.speed))
  have hstd : g₆.standard = g₃.standard := h₆.standard.trans (h₅.standard.trans h₄.standard)
  have hacq : g₆.acquisition = g₅.acquisition := h₆.acquisition
  have hdown : g₆.downscale = g.downscale := h₆.downscale.trans (h₅.downscale.trans
    (h₄.downscale.trans (h₃.downscale.trans (h₂.downscale.trans h₁.downscale))))
  have hlog : ∀ {g' : CxpFrontend}, g'.board = s.board → ∀ p < s.numPorts, g'.logicalPort p = p :=
    fun hb p hp => (congrFun (logicalPort_eq hb) p).trans (hs.logicalPort hp)
  have hn : ∀ {g' : CxpFrontend}, g'.board = s.board → g'.numPorts = s.numPorts := fun hb => numPorts_eq hb
  have hok : ∀ {g' : CxpFrontend}, g'.board = s.board → PortMapOk g'.numPorts g'.portMap := by
    intro g' hb
    rw [hn hb, portMap_eq hb]
    exact hs.ok
  have hphys := h₁.physical ▸ update_upTo hg.physical
  have hdw : ∀ p < s.numPorts, g₂.speed.downlink p = if p < k + 1 then .speed3125 else .unknown := by
    rw [h₂.downlink, h₁.speed]
    exact update_upTo hg.downlink
  have hver : ∀ p < s.numPorts, g₃.standard.version p = if p < k + 1 then .v1_1 else .unknown := by
    rw [h₃.version, h₂.version, h₁.standard, hlog hb₂ k hk]
    exact update_upTo hg.version
  have hstate : ∀ p < s.numPorts, g₅.acquisition.state p = if p < k + 1 then .stopped else .unknown := by
    rw [h₅.state, h₄.acquisition, h₃.acquisition, h₂.acquisition, h₁.acquisition, hlog hb₄ k hk]
    exact update_upTo hg.state
  -- the caches of the port knew nothing, so every register was written
  have hreg₁ : g₁.dataPath.resetCtrl = cxpResetCtrl g₁ := by
    refine h₁.register.resolve_right fun heq => ?_
    have hk₁ := hphys k hk
    rw [heq, hg.physical k hk, if_neg (lt_irrefl k), if_pos (by omega)] at hk₁
    cases hk₁
  have hreg₃ : g₃.standard.standardCtrl = cxpStandardCtrl g₃ := by
    refine h₃.register.resolve_right fun heq => ?_
    have hk₃ := hver k hk
    rw [heq, h₂.version, h₁.standard, hg.version k hk, if_neg (lt_irrefl k), if_pos (by omega)] at hk₃
    cases hk₃
  have hreg₅ : g₅.acquisition.acquisitionCtrl = cxpAcquisitionCtrl g₅ := by
    refine h₅.register.resolve_right fun heq => ?_
    have hk₅ := hstate k hk
    rw [heq, h₄.acquisition, h₃.acquisition, h₂.acquisition, h₁.acquisition, hg.state k hk,
      if_neg (lt_irrefl k), if_pos (by omega)] at hk₅
    cases hk₅
  have hbit : ∀ q < 5, g₂.speed.bitrate q =
      if q = k then downlinkBitrate .speed3125 else g₁.speed.bitrate q := by
    refine (h₂.bitrate.resolve_right fun heq => ?_).2
    have hk₂ := hdw k hk
    rw [heq, h₁.speed, hg.downlink k hk, if_neg (lt_irrefl k), if_pos (by omega)] at hk₂
    cases hk₂
  refine ⟨h₆.board.trans hb₅, hdata ▸ hphys, ?_, ?_, ?_, hspeed ▸ hdw, ?_, ?_, hstd ▸ hver, ?_,
    hacq ▸ hstate, ?_,
    hdown.trans hg.downscale⟩
  · rw [hdata, h₁.logical, hlog hg.board k hk]
    exact update_lt hg.logical
  · intro _ p hp
    have hlane := host_of_written (hok hb₁) ((hn hb₁).symm ▸ hp)
    rw [hlog hb₁ p hp] at hlane
    rwa [hdata, hreg₁]
  · intro _ p hp
    rw [hdata, hreg₁]
    exact transceiver_of_written (hok hb₁) ((hn hb₁).symm ▸ hp)
  · intro p hp
    have hle := s.portMaps.numPorts_le
    have hsn : s.portMaps.numPorts = s.numPorts := rfl
    rw [hspeed, hbit p (by omega), h₁.speed]
    split_ifs with hpk
    · rfl
    · exact hg.bitrate p (by omega)
  · rw [hstd, h₃.uplink, h₂.uplink, h₁.standard, hlog hb₁ k hk]
    exact update_lt hg.uplink
  · intro _ l hl
    rw [hstd, hreg₃]
    exact lane_cxpStandardCtrl ((hn hb₃).symm ▸ hl)
  · intro _ l hl
    rw [hacq, hreg₅]
    exact lane_cxpAcquisitionCtrl ((hn hb₅).symm ▸ hl)

/-- The downscaling is only written when it changes, so its register must be zero from the start. -/
theorem ResetUpTo.consistent (hs : OneToOne s) (hr : Ready s.ri s.numPorts)
    (hone : ∀ l, s.downscale.connections l = 1#8) (hzero : s.downscale.downscaleCtrl = 0)
    (hv : s.portMaps.Valid s.portMap) (hg : ResetUpTo s s.numPorts g) : Consistent g := by
  have hpos : 0 < s.numPorts := s.portMaps.numPorts_pos
  have hn : g.numPorts = s.numPorts := numPorts_eq hg.board
  have hlog : ∀ p < s.numPorts, g.logicalPort p = p :=
    fun p hp => (congrFun (logicalPort_eq hg.board) p).trans (hs.logicalPort hp)
  have hmaps : g.portMaps = s.portMaps := congrArg BoardPart.portMaps hg.board
  have hphys : ∀ p < s.numPorts, g.dataPath.physical p = .inactive := fun p hp => by
    rw [hg.physical p hp, if_pos hp]
  have hdw : ∀ p < s.numPorts, g.speed.downlink p = .speed3125 := fun p hp => by
    rw [hg.downlink p hp, if_pos hp]
  have hver : ∀ p < s.numPorts, g.standard.version p = .v1_1 := fun p hp => by rw [hg.version p hp, if_pos hp]
  have hstate : ∀ p < s.numPorts, g.acquisition.state p = .stopped := fun p hp => by
    rw [hg.state p hp, if_pos hp]
  have hvalid : g.portMaps.Valid g.portMap := by
    rw [portMap_eq hg.board, hmaps]
    exact hv
  rw [← hn] at hlog hphys hdw hver hstate
  refine ⟨hr.board hg.board, hvalid, ⟨?_, ?_, ?_, ?_⟩, ⟨?_, ?_⟩, ⟨?_, ?_, ?_⟩, ⟨?_, ?_⟩, ⟨?_, ?_, ?_⟩⟩
  · intro p hp
    rw [hphys p hp]
    decide
  · intro p hp
    rw [hlog p hp, hphys p hp]
    exact hg.logical p (hn ▸ hp)
  · intro p hp
    rw [hlog p hp]
    exact hg.host hpos p (hn ▸ hp)
  · exact fun p hp => hg.transceiver hpos p (hn ▸ hp)
  · intro p hp
    rw [hdw p hp]
    decide
  · intro p hp
    rw [hdw p hp]
    exact hg.bitrate p (hn ▸ hp)
  · intro p hp
    rw [hlog p hp, hdw p hp, hg.uplink p (hn ▸ hp)]
    rfl
  · intro p hp
    rw [hlog p hp, hver p hp]
    decide
  · exact fun l hl => hg.standardCtrl hpos l (hn ▸ hl)
  · intro p hp
    rw [hlog p hp, hstate p hp]
    decide
  · exact fun l hl => hg.acquisitionCtrl hpos l (hn ▸ hl)
  · intro p _
    rw [hg.downscale, hone]
    decide
  · intro p _
    rw [hg.downscale, hone]
    decide
  · intro _ l _
    rw [hg.downscale, hzero, hone, Packed.lane_zero]
    rfl

/-! ## The commands -/

theorem Consistent.resetPort (hc : Consistent f) (p : Nat) : Consistent (cxpResetPort f p) := by
  rw [cxpResetPort]
  split_ifs with hp
  · have h₁ := (((hc.setDataPathState p .inactive).setDataPathSpeed p .speed3125).setStandardVersion p .v1_1)
    have h₂ := ((h₁.kept (cxpSetPortLedState_kept p .powered)).setAcquisitionState p .stopped)
    exact (h₂.setCameraDonwscaling p 1).kept (cxpSetPortImageStreamId_kept p (-1))
  · exact hc

theorem Consistent.reset (hc : Consistent f) : Consistent (cxpReset f) :=
  Remap.foldl_range (fun _ g => Consistent g) _ (hc.setPortMap _) (fun p _ _ hg => hg.resetPort p)

theorem Consistent.prepareAppletReload (hc : Consistent f) : Consistent (cxpPrepareAppletReload f) := by
  unfold cxpPrepareAppletReload
  dsimp only
  split_ifs
  · exact hc.reset.kept (settingsKept_write _ (by decide))
  · exact hc.reset

theorem Consistent.command (hc : Consistent f) (command : CameraCommand) :
    Consistent (cxpExecuteCommand f command).1 := by
  cases command with
  | reset => exact hc.reset
  | resetPhysicalPort port => exact hc.resetPort port
  | prepareAppletReload => exact hc.prepareAppletReload
  | setPortMap portMap => exact hc.setPortMap portMap
  | setPortPowerState port state => exact hc.kept (cxpSetPortPowerState_kept port state)
  | setPortDataPathState port state => exact hc.setDataPathState port state
  | setPortDataPathSpeed port speed => exact hc.setDataPathSpeed port speed
  | setPortCxpStandardVersion port version => exact hc.setStandardVersion port version
  | setPortCxpLedState port state => exact hc.kept (cxpSetPortLedState_kept port state)
  | setPortAcquisitionState port state => exact hc.setAcquisitionState port state
  | setPortCxpCameraDownscaling port n => exact hc.setCameraDonwscaling port n
  | setStreamId masterPort streamId => exact hc.kept (cxpSetPortImageStreamId_kept masterPort streamId)

/-! ## The first reset -/

theorem valid_oneToOne (t : PortMapTable) : t.Valid 0x7654321076543210#64 := by
  refine ⟨List.mem_of_mem_head? ?_, by decide⟩
  rw [t.head_eq]
  rfl

section
variable (ri : RegisterInterface) (numPhysicalPorts : Nat) (supportsIdleViolationFix : Bool)

/-- The first map is set while none is, so nothing is restored. -/
theorem cxpSetPortMap_init : ∃ i,
    (cxpPortMaps numPhysicalPorts).portMap i = 0x7654321076543210#64 ∧
    (cxpSetPortMap (cxpFrontendInit ri numPhysicalPorts supportsIdleViolationFix) 0x7654321076543210#64).1 =
      switchPortMap (cxpFrontendInit ri numPhysicalPorts supportsIdleViolationFix) i := by
  have hold : (cxpFrontendInit ri numPhysicalPorts supportsIdleViolationFix).portMap = CXP_PORT_MAP_INVALID :=
    PortMapTable.portMap_last
  have hsearch := PortMapTable.portMap_search (valid_oneToOne (cxpPortMaps numPhysicalPorts))
  have hmaps : (cxpFrontendInit ri numPhysicalPorts supportsIdleViolationFix).portMaps =
      cxpPortMaps numPhysicalPorts := rfl
  refine ⟨_, hsearch, ?_⟩
  unfold cxpSetPortMap
  dsimp only
  rw [hold, if_pos (by decide), hmaps, hsearch, if_neg (by decide), if_neg (not_not.mpr rfl)]

theorem cxpReset_init (hr : Ready ri (cxpPortMaps numPhysicalPorts).numPorts)
    (hzero : ri.written REG_CXP_CAMERA_DOWNSCALE_CTRL = 0) :
    Consistent (cxpReset (cxpFrontendInit ri numPhysicalPorts supportsIdleViolationFix)) := by
  obtain ⟨i, hi, hswitch⟩ := cxpSetPortMap_init ri numPhysicalPorts supportsIdleViolationFix
  rw [cxpReset, hswitch]
  have hready : Ready (switchPortMap (cxpFrontendInit ri numPhysicalPorts supportsIdleViolationFix) i).ri
      (switchPortMap (cxpFrontendInit ri numPhysicalPorts supportsIdleViolationFix) i).numPorts := hr
  have hmap : OneToOne (switchPortMap (cxpFrontendInit ri numPhysicalPorts supportsIdleViolationFix) i) := hi
  have hvalid := valid_oneToOne (switchPortMap (cxpFrontendInit ri numPhysicalPorts supportsIdleViolationFix) i).portMaps
  rw [← hmap] at hvalid
  have hdown : (switchPortMap (cxpFrontendInit ri numPhysicalPorts supportsIdleViolationFix) i).downscale.downscaleCtrl =
      0 := by
    rw [switchPortMap, downscale, written_write_of_ne _ _ (by decide)]
    exact hzero
  have hcache : ∀ {α : Type} (get : CxpPort → α) (p : Nat),
      (switchPortMap (cxpFrontendInit ri numPhysicalPorts supportsIdleViolationFix) i).cache get p = get {} :=
    fun get p => rfl
  generalize switchPortMap (cxpFrontendInit ri numPhysicalPorts supportsIdleViolationFix) i = s at *
  have hone : ∀ l, s.downscale.connections l = 1#8 := hcache (·.cameraDownscaleStateCache)
  have hstart : ResetUpTo s 0 s := by
    refine ⟨rfl, fun p _ => hcache (·.dataPathStatePhysicalCache) p, fun p hp =>
      absurd hp (Nat.not_lt_zero p),
      fun h => absurd h (lt_irrefl 0), fun h => absurd h (lt_irrefl 0),
      fun p _ => hcache (·.dataPathDwSpeedCache) p, fun p hp => absurd hp (Nat.not_lt_zero p),
      fun p hp => absurd hp (Nat.not_lt_zero p), fun p _ => hcache (·.standardVersionCache) p,
      fun h => absurd h (lt_irrefl 0), fun p _ => hcache (·.acquisitionStateCache) p,
      fun h => absurd h (lt_irrefl 0), rfl⟩
  have hrun : ResetUpTo s s.numPorts ((List.range s.numPorts).foldl cxpResetPort s) :=
    Remap.foldl_range (ResetUpTo s) s.numPorts hstart (fun k hk g hg => hg.step hmap hready hone hk)
  exact hrun.consistent hmap hready hone hdown hvalid

theorem cxpRun_consistent (hr : Ready ri (cxpPortMaps numPhysicalPorts).numPorts)
    (hzero : ri.written REG_CXP_CAMERA_DOWNSCALE_CTRL = 0) (commands : List CameraCommand) :
    Consistent (cxpRun (cxpFrontendInit ri numPhysicalPorts supportsIdleViolationFix) commands) := by
  have hall : ∀ (commands : List CameraCommand) (f : CxpFrontend), Consistent f →
      Consistent (commands.foldl (fun f command => (cxpExecuteCommand f command).1) f) := by
    intro commands
    induction commands with
    | nil => exact fun f hf => hf
    | cons command commands ih => exact fun f hf => ih _ (hf.command command)
  exact hall commands _ (cxpReset_init ri numPhysicalPorts supportsIdleViolationFix hr hzero)

end

/-! ## Remapping keeps the settings -/

/-- A valid map becomes the map of the frontend and every port keeps its settings. Any other map
is refused and changes nothing. -/
def RemapsPorts (f : CxpFrontend) (newPortMap : BitVec 64) : Prop :=
  (f.portMaps.Valid newPortMap → (cxpSetPortMap f newPortMap).2 = .ok ∧
    (cxpSetPortMap f newPortMap).1.portMap = newPortMap ∧ SameSettings f (cxpSetPortMap f newPortMap).1) ∧
  (¬ f.portMaps.Valid newPortMap → cxpSetPortMap f newPortMap = (f, .invalidParameter))

theorem Consistent.remapsPorts (hc : Consistent f) (m : BitVec 64) : RemapsPorts f m := by
  refine ⟨fun hm => ?_, cxpSetPortMap_of_not_valid hc.valid⟩
  by_cases hne : m = f.portMap
  · have hsame : cxpSetPortMap f m = (f, .ok) := if_neg (not_not.mpr hne)
    rw [hsame]
    exact ⟨rfl, hne.symm, ⟨fun _ _ => rfl, fun _ _ _ => rfl⟩⟩
  · obtain ⟨s, hs, hmap, hok, hr⟩ := cxpSetPortMap_remapped hc hm hne
    exact ⟨hok, (portMap_eq hr.board).trans hmap, hr.sameSettings hc hs⟩

/-- For a board that has the ready bits set and comes up with one link for each port. -/
theorem port_map_keeps_settings (ri : RegisterInterface) (numPhysicalPorts : Nat)
    (supportsIdleViolationFix : Bool)
    (hready : Ready ri (cxpPortMaps numPhysicalPorts).numPorts)
    (hzero : ri.written REG_CXP_CAMERA_DOWNSCALE_CTRL = 0) (commands : List CameraCommand)
    (newPortMap : BitVec 64) :
    RemapsPorts (cxpRun (cxpFrontendInit ri numPhysicalPorts supportsIdleViolationFix) commands) newPortMap :=
  (cxpRun_consistent ri numPhysicalPorts supportsIdleViolationFix hready hzero commands).remapsPorts
    newPortMap

/-- A board with two ports, one of them set up for a camera. -/
def twoPorts : CxpFrontend :=
  cxpRun (cxpFrontendInit ⟨fun _ => 0, fun _ => 0xffffffff#32⟩ 2 true)
    [.setPortDataPathState 0 .active, .setPortDataPathSpeed 0 .speed12500, .setPortCxpStandardVersion 0 .v2_0,
      .setPortAcquisitionState 0 .started, .setPortCxpCameraDownscaling 0 2]

theorem port_map_keeps_settings_swapped : twoPorts.portMaps.Valid 0x7654320176543201#64 ∧
    RemapsPorts twoPorts 0x7654320176543201#64 :=
  ⟨⟨by decide +kernel, by decide⟩, port_map_keeps_settings _ 2 true (by decide +kernel) rfl _ _⟩

end MenableDriver
