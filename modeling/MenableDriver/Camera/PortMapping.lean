import MenableDriver.Camera.PortInvariant

/-!
# A new port map keeps the settings of the ports

`cxp_set_port_map` writes the settings of every port that gets another logical port again. A
port is restored after the other, over registers that hold the settings of all of them.
-/

namespace MenableDriver

set_option autoImplicit false

open CxpFrontend

variable {f g g' : CxpFrontend} {p k n : Nat}

/-! ## The setters -/

theorem Consistent.ok (hc : Consistent f) : PortMapOk f.numPorts f.portMap := hc.valid.ok

theorem Consistent.of_parts (hc : Consistent f) (hb : g.board = f.board)
    (h₁ : DataPathOk f.numPorts f.logicalPort g.dataPath) (h₂ : SpeedOk f.numPorts g.speed)
    (h₃ : StandardOk f.numPorts f.logicalPort g.speed.downlink g.standard)
    (h₄ : AcquisitionOk f.numPorts f.logicalPort g.acquisition)
    (h₅ : DownscaleOk f.numPorts f.logicalPort g.downscale) : Consistent g := by
  have hmaps : g.portMaps = f.portMaps := congrArg BoardPart.portMaps hb
  have hv : g.portMaps.Valid g.portMap := by
    rw [portMap_eq hb, hmaps]
    exact hc.valid
  rw [← numPorts_eq hb, ← logicalPort_eq hb] at h₁ h₃ h₄ h₅
  rw [← numPorts_eq hb] at h₂
  exact ⟨hc.ready.board hb, hv, h₁, h₂, h₃, h₄, h₅⟩

theorem Consistent.kept (hc : Consistent f) (hk : SettingsKept f g) : Consistent g := by
  obtain ⟨hb, h₁, h₂, h₃, h₄, h₅⟩ := hk
  refine hc.of_parts hb ?_ ?_ ?_ ?_ ?_
  · exact h₁ ▸ hc.dataPath
  · exact h₂ ▸ hc.speed
  · rw [h₂, h₃]
    exact hc.standard
  · exact h₄ ▸ hc.acquisition
  · exact h₅ ▸ hc.downscale

theorem Consistent.setDataPathState (hc : Consistent f) (p : Nat) (state : DataPathState) :
    Consistent (cxpSetPortDataPathState f p state).1 := by
  by_cases hp : f.numPorts ≤ p
  · unfold cxpSetPortDataPathState
    rwa [if_pos hp]
  by_cases hs : state = .unknown
  · unfold cxpSetPortDataPathState
    rwa [if_neg hp, if_pos hs]
  have hset := cxpSetPortDataPathState_set (f := f) (not_le.mp hp) hs
  refine hc.of_parts hset.board (hset.ok hc.ok (not_le.mp hp) hs hc.dataPath) ?_ ?_ ?_ ?_
  · exact hset.speed ▸ hc.speed
  · rw [hset.speed, hset.standard]
    exact hc.standard
  · exact hset.acquisition ▸ hc.acquisition
  · exact hset.downscale ▸ hc.downscale

theorem Consistent.setDataPathSpeed (hc : Consistent f) (p : Nat) (speed : DataPathSpeed) :
    Consistent (cxpSetPortDataPathSpeed f p speed).1 := by
  by_cases hp : f.numPorts ≤ p
  · unfold cxpSetPortDataPathSpeed
    rwa [if_pos hp]
  by_cases hs : speed = .unknown ∨ speed = .speed1000
  · unfold cxpSetPortDataPathSpeed
    rwa [if_neg hp, if_pos hs]
  have hset := cxpSetPortDataPathSpeed_set (not_le.mp hp) hs (hc.ready.wait (not_le.mp hp))
  refine hc.of_parts hset.board ?_ (hset.speed_ok hs hc.speed)
    (hset.standard_ok hc.ok (not_le.mp hp) hc.standard) ?_ ?_
  · exact hset.dataPath ▸ hc.dataPath
  · exact hset.acquisition ▸ hc.acquisition
  · exact hset.downscale ▸ hc.downscale

theorem Consistent.setStandardVersion (hc : Consistent f) (p : Nat) (version : CxpStandardVersion) :
    Consistent (cxpSetPortStandardVersion f p version).1 := by
  by_cases hp : f.numPorts ≤ p
  · unfold cxpSetPortStandardVersion
    rwa [if_pos hp]
  by_cases hv : version = .unknown
  · unfold cxpSetPortStandardVersion
    rwa [if_neg hp, if_pos hv]
  have hset := cxpSetPortStandardVersion_set (f := f) (not_le.mp hp) hv
  refine hc.of_parts hset.board ?_ ?_ (hset.standard_ok hv hc.standard) ?_ ?_
  · exact hset.dataPath ▸ hc.dataPath
  · exact hset.speed ▸ hc.speed
  · exact hset.acquisition ▸ hc.acquisition
  · exact hset.downscale ▸ hc.downscale

theorem Consistent.setAcquisitionState (hc : Consistent f) (p : Nat) (state : AcquisitionState) :
    Consistent (cxpSetPortAcquisitionState f p state).1 := by
  by_cases hp : f.numPorts ≤ p
  · unfold cxpSetPortAcquisitionState
    rwa [if_pos hp]
  by_cases hs : state = .unknown
  · unfold cxpSetPortAcquisitionState
    rwa [if_neg hp, if_pos hs]
  have hset := cxpSetPortAcquisitionState_set (f := f) (not_le.mp hp) hs
  refine hc.of_parts hset.board ?_ ?_ ?_ (hset.ok hs hc.acquisition) ?_
  · exact hset.dataPath ▸ hc.dataPath
  · exact hset.speed ▸ hc.speed
  · rw [hset.speed, hset.standard]
    exact hc.standard
  · exact hset.downscale ▸ hc.downscale

theorem Consistent.setCameraDonwscaling (hc : Consistent f) (p n : Nat) :
    Consistent (cxpSetPortCameraDonwscaling f p n).1 := by
  by_cases hp : f.numPorts ≤ p
  · unfold cxpSetPortCameraDonwscaling
    rwa [if_pos hp]
  by_cases hn : n > CXP_CAMERA_DOWNSCALE_MAX_CONNECTIONS ∨ n = 0 ∨ f.numPorts = 1
  · unfold cxpSetPortCameraDonwscaling
    rw [if_neg hp]
    split_ifs with h₁ h₂ h₃
    · exact hc
    · exact hc
    · exact hc
    · exact absurd hn (not_or.mpr ⟨h₁, not_or.mpr ⟨h₂, h₃⟩⟩)
  obtain ⟨hmax, hpos, hports⟩ : n ≤ 4 ∧ 0 < n ∧ f.numPorts ≠ 1 := by
    simp only [not_or, CXP_CAMERA_DOWNSCALE_MAX_CONNECTIONS] at hn
    exact ⟨by omega, by omega, hn.2.2⟩
  have hset := cxpSetPortCameraDonwscaling_set (not_le.mp hp) hpos hmax hports
  refine hc.of_parts hset.board ?_ ?_ ?_ ?_ (hset.ok hpos hmax hc.downscale)
  · exact hset.dataPath ▸ hc.dataPath
  · exact hset.speed ▸ hc.speed
  · rw [hset.speed, hset.standard]
    exact hc.standard
  · exact hset.acquisition ▸ hc.acquisition

/-! ## The loop over the ports -/

/-- The settings of a port in terms of the caches. -/
def settingsOf (state : DataPathState) (speed : DataPathSpeed) (uplink : DataPathUpSpeed)
    (version : CxpStandardVersion) (acquisition : AcquisitionState) : PortSettings :=
  { dataPathHost := hostBits state
    dataPathTransceiver := transceiverBits state
    downlinkBitrate := downlinkBitrate speed
    uplinkBitrate := standardBits uplink version &&& 0x1#3
    standardVersion := standardBits uplink version &&& 0x6#3
    acquisition := acquisitionBits acquisition }

theorem Consistent.readSettings_eq (hc : Consistent f) (hp : p < f.numPorts) :
    readSettings f.ri f.portMap p = settingsOf (f.dataPath.physical p) (f.speed.downlink p)
      (f.standard.uplink (f.logicalPort p)) (f.standard.version (f.logicalPort p))
      (f.acquisition.state (f.logicalPort p)) := by
  have hl : f.logicalPort p < f.numPorts := (hc.ok.phys2log p hp).1
  have h₁ := hc.dataPath.host p hp
  have h₂ := hc.dataPath.transceiver p hp
  have h₃ := hc.speed.bitrate p hp
  have h₄ := hc.standard.register _ hl
  have h₅ := hc.acquisition.register _ hl
  rw [settingsOf, ← h₁, ← h₂, ← h₃, ← h₄, ← h₅]
  rfl

theorem Consistent.readDownscale_eq (hc : Consistent f) (hn : f.numPorts ≤ 4) (hp : p < f.numPorts) :
    readDownscale f.ri f.portMap p = (f.downscale.connections (f.logicalPort p) - 1#8).setWidth 2 :=
  hc.downscale.register hn _ (hc.ok.phys2log p hp).1

/-- What the loop has done to the ports below `k`. The port map of `f` was the old one, that of
`s` is the new one. -/
structure Remapped (f s : CxpFrontend) (k : Nat) (g : CxpFrontend) : Prop where
  board : g.board = s.board
  speed : g.speed = f.speed
  physical : g.dataPath.physical = f.dataPath.physical
  logical : Remap.Moved f.logicalPort s.logicalPort f.numPorts f.dataPath.logical k g.dataPath.logical
  uplink : Remap.Moved f.logicalPort s.logicalPort f.numPorts f.standard.uplink k g.standard.uplink
  version : Remap.Moved f.logicalPort s.logicalPort f.numPorts f.standard.version k g.standard.version
  state : Remap.Moved f.logicalPort s.logicalPort f.numPorts f.acquisition.state k g.acquisition.state
  connections : Remap.Moved f.logicalPort s.logicalPort f.numPorts f.downscale.connections k
    g.downscale.connections
  -- until the register is written the bits of the host still are those of the logical cache
  host : ∀ p < f.numPorts,
    Packed.lane 5 (s.logicalPort p) g.dataPath.resetCtrl &&& 0x7#5 = hostBits (f.dataPath.physical p) ∨
      Packed.lane 5 (s.logicalPort p) g.dataPath.resetCtrl &&& 0x7#5 =
        hostBits (g.dataPath.logical (s.logicalPort p))
  transceiver : ∀ p < f.numPorts,
    Packed.lane 5 p g.dataPath.resetCtrl &&& 0x18#5 = transceiverBits (f.dataPath.physical p)
  standardCtrl : ∀ l < f.numPorts,
    Packed.lane 3 l g.standard.standardCtrl = standardBits (g.standard.uplink l) (g.standard.version l)
  acquisitionCtrl : ∀ l < f.numPorts,
    Packed.lane 1 l g.acquisition.acquisitionCtrl = acquisitionBits (g.acquisition.state l)
  downscaleCtrl : f.numPorts ≤ 4 → ∀ l < f.numPorts,
    Packed.lane 2 l g.downscale.downscaleCtrl = (g.downscale.connections l - 1#8).setWidth 2

/-- The frontend with another port map. -/
structure Switched (f s : CxpFrontend) : Prop where
  portMaps : s.portMaps = f.portMaps
  input : s.ri.input = f.ri.input
  valid : s.portMaps.Valid s.portMap
  dataPath : s.dataPath = f.dataPath
  speed : s.speed = f.speed
  standard : s.standard = f.standard
  acquisition : s.acquisition = f.acquisition
  downscale : s.downscale = f.downscale

variable {s : CxpFrontend}

theorem Switched.numPorts (hs : Switched f s) : s.numPorts = f.numPorts :=
  congrArg PortMapTable.numPorts hs.portMaps

theorem Switched.ok (hs : Switched f s) : PortMapOk f.numPorts s.portMap := hs.numPorts ▸ hs.valid.ok

theorem Switched.inj (hs : Switched f s) : Remap.InjOn s.logicalPort f.numPorts :=
  hs.numPorts ▸ logicalPort_inj hs.valid.ok

theorem Remapped.start (hc : Consistent f) (hs : Switched f s) : Remapped f s 0 s := by
  refine ⟨rfl, hs.speed, by rw [hs.dataPath], hs.dataPath ▸ .start, hs.standard ▸ .start,
    hs.standard ▸ .start,
    hs.acquisition ▸ .start, hs.downscale ▸ .start, ?_, ?_, ?_, ?_, ?_⟩
  · intro p hp
    obtain ⟨q, hq, hqp⟩ := exists_logicalPort hc.ok (hs.ok.phys2log p hp).1
    right
    have hqp : f.logicalPort q = s.logicalPort p := hqp
    rw [hs.dataPath, ← hqp, hc.dataPath.host q hq, hc.dataPath.logical q hq]
  · rw [hs.dataPath]
    exact hc.dataPath.transceiver
  · rw [hs.standard]
    exact hc.standard.register
  · rw [hs.acquisition]
    exact hc.acquisition.register
  · rw [hs.downscale]
    exact hc.downscale.register

theorem Remapped.skip (hr : Remapped f s k g) (hk : f.logicalPort k = s.logicalPort k) :
    Remapped f s (k + 1) g :=
  ⟨hr.board, hr.speed, hr.physical, hr.logical.skip hk, hr.uplink.skip hk, hr.version.skip hk,
    hr.state.skip hk,
    hr.connections.skip hk, hr.host, hr.transceiver, hr.standardCtrl, hr.acquisitionCtrl, hr.downscaleCtrl⟩

theorem Switched.ready (hs : Switched f s) (hc : Consistent f) : Ready s.ri s.numPorts := by
  intro p hp
  rw [RegisterInterface.read, hs.input]
  exact hc.ready p (hs.numPorts ▸ hp)

/-- What is in a cache of the logical ports was saved for the physical ones. -/
theorem scatter_logicalPort {α : Type} (hm : PortMapOk f.numPorts f.portMap) (hp : p < f.numPorts)
    (c a : Nat → α) : Remap.scatter (cxpGetPhysicalPortNumberFromPortMap f.portMap) c a f.numPorts p =
      c (f.logicalPort p) := by
  have hinj : Remap.InjOn (cxpGetPhysicalPortNumberFromPortMap f.portMap) f.numPorts := by
    intro l hl l' hl' heq
    rw [← (hm.log2phys l hl).2, ← (hm.log2phys l' hl').2, heq]
  have hphys : cxpGetPhysicalPortNumberFromPortMap f.portMap (f.logicalPort p) = p := (hm.phys2log p hp).2
  have hget := Remap.scatter_apply c a (hm.phys2log p hp).1 hinj
  change Remap.scatter _ c a _ (cxpGetPhysicalPortNumberFromPortMap f.portMap (f.logicalPort p)) = _ at hget
  rwa [hphys] at hget

/-- The five setters for a port that gets another logical port, with the values that were saved. -/
theorem restoreSettings_set (hc : Consistent f) (hs : Switched f s) (hg : g.board = s.board)
    (hk : k < f.numPorts) (hports : f.numPorts ≠ 1) : ∃ g₁ g₂ g₃ g₄,
      DataPathSet g g₁ k (f.dataPath.physical k) ∧ SpeedSet g₁ g₂ k (f.speed.downlink k) ∧
      VersionSet g₂ g₃ k (f.standard.version (f.logicalPort k)) ∧
      AcquisitionSet g₃ g₄ k (f.acquisition.state (f.logicalPort k)) ∧
      DownscaleSet g₄ (restoreSettings (saveSettings f f.portMap) g k) k
        (f.downscale.connections (f.logicalPort k)).toNat := by
  have hn : ∀ {g' : CxpFrontend}, g'.board = s.board → k < g'.numPorts :=
    fun hb => (numPorts_eq hb).trans hs.numPorts ▸ hk
  have hversion : (saveSettings f f.portMap).standardVersion k = f.standard.version (f.logicalPort k) :=
    scatter_logicalPort hc.ok hk f.standard.version _
  have hacq : (saveSettings f f.portMap).acquisitionState k = f.acquisition.state (f.logicalPort k) :=
    scatter_logicalPort hc.ok hk f.acquisition.state _
  have hdown : (saveSettings f f.portMap).cameraDownscaleState k =
      f.downscale.connections (f.logicalPort k) :=
    scatter_logicalPort hc.ok hk f.downscale.connections _
  have h₁ := cxpSetPortDataPathState_set (hn hg) (hc.dataPath.known k hk)
  have hb₁ := h₁.board.trans hg
  have h₂ := cxpSetPortDataPathSpeed_set (hn hb₁) (hc.speed.known k hk)
    (((hs.ready hc).board hb₁).wait (hn hb₁))
  have hb₂ := h₂.board.trans hb₁
  have h₃ := cxpSetPortStandardVersion_set (hn hb₂) (hc.standard.known k hk)
  have hb₃ := h₃.board.trans hb₂
  have h₄ := cxpSetPortAcquisitionState_set (hn hb₃) (hc.acquisition.known k hk)
  have hb₄ := h₄.board.trans hb₃
  have h₅ := cxpSetPortCameraDonwscaling_set (hn hb₄) (hc.downscale.pos k hk) (hc.downscale.le k hk)
    (by rw [numPorts_eq hb₄, hs.numPorts]; exact hports)
  refine ⟨_, _, _, _, h₁, h₂, h₃, h₄, ?_⟩
  simp only [restoreSettings, hversion, hacq, hdown]
  exact h₅

section
variable (hc : Consistent f) (hs : Switched f s) (hr : Remapped f s k g) (hk : k < f.numPorts)
include hc hs hr hk

theorem Remapped.dataPath_write (h : DataPathSet g g' k (f.dataPath.physical k)) :
    g'.dataPath.physical = f.dataPath.physical ∧
    Remap.Moved f.logicalPort s.logicalPort f.numPorts f.dataPath.logical (k + 1) g'.dataPath.logical ∧
    (∀ p < f.numPorts,
      Packed.lane 5 (s.logicalPort p) g'.dataPath.resetCtrl &&& 0x7#5 = hostBits (f.dataPath.physical p) ∨
        Packed.lane 5 (s.logicalPort p) g'.dataPath.resetCtrl &&& 0x7#5 =
          hostBits (g'.dataPath.logical (s.logicalPort p))) ∧
    ∀ p < f.numPorts,
      Packed.lane 5 p g'.dataPath.resetCtrl &&& 0x18#5 = transceiverBits (f.dataPath.physical p) := by
  have hphys : g'.dataPath.physical = f.dataPath.physical := by
    rw [h.physical, hr.physical, Function.update_eq_self]
  have hlogical : g'.dataPath.logical =
      Function.update g.dataPath.logical (s.logicalPort k) (f.dataPath.logical (f.logicalPort k)) := by
    rw [h.logical, logicalPort_eq hr.board, hc.dataPath.logical k hk]
  refine ⟨hphys, hlogical ▸ hr.logical.write hs.inj hk, ?_⟩
  rcases h.register with hreg | rfl
  · -- the register was written for all the ports
    have hb := h.board.trans hr.board
    have hn : g'.numPorts = f.numPorts := (numPorts_eq hb).trans hs.numPorts
    have hm : PortMapOk g'.numPorts g'.portMap := by
      rw [hn, portMap_eq hb]
      exact hs.ok
    refine ⟨fun p hp => .inl ?_, fun p hp => ?_⟩
    · rw [hreg, ← logicalPort_eq hb, host_of_written hm (hn ▸ hp), hphys]
    · rw [hreg, transceiver_of_written hm (hn ▸ hp), hphys]
  · exact ⟨hr.host, hr.transceiver⟩

theorem Remapped.speed_write {g₁ : CxpFrontend} (hb : g₁.board = g.board) (h₁ : g₁.speed = g.speed)
    (h₂ : g₁.standard = g.standard) (h : SpeedSet g₁ g' k (f.speed.downlink k)) :
    g'.speed = f.speed ∧
    Remap.Moved f.logicalPort s.logicalPort f.numPorts f.standard.uplink (k + 1) g'.standard.uplink ∧
    ∀ l < f.numPorts, Packed.lane 3 l g'.standard.standardCtrl =
      standardBits (g'.standard.uplink l) (g'.standard.version l) := by
  have hn : g₁.numPorts = f.numPorts := (numPorts_eq (hb.trans hr.board)).trans hs.numPorts
  have hspeed : g₁.speed = f.speed := h₁.trans hr.speed
  have huplink : g'.standard.uplink =
      Function.update g.standard.uplink (s.logicalPort k) (f.standard.uplink (f.logicalPort k)) := by
    rw [h.uplink, h₂, logicalPort_eq (hb.trans hr.board), hc.standard.uplink k hk]
  refine ⟨?_, huplink ▸ hr.uplink.write hs.inj hk, ?_⟩
  · rcases h.bitrate with ⟨hne, -⟩ | heq
    · exact absurd (by rw [hspeed]) hne
    · exact heq.trans hspeed
  · have hreg := standard_register h.board h.register (h₂ ▸ hn.symm ▸ hr.standardCtrl)
    rwa [hn] at hreg

end

theorem Remapped.write (hc : Consistent f) (hs : Switched f s) (hr : Remapped f s k g) (hk : k < f.numPorts)
    (hne : f.logicalPort k ≠ s.logicalPort k) :
    Remapped f s (k + 1) (restoreSettings (saveSettings f f.portMap) g k) := by
  have hports : f.numPorts ≠ 1 := by
    intro h1
    have hlt := (hc.ok.phys2log k hk).1
    have hlt' := (hs.ok.phys2log k hk).1
    exact hne (by rw [CxpFrontend.logicalPort, CxpFrontend.logicalPort]; omega)
  obtain ⟨g₁, g₂, g₃, g₄, h₁, h₂, h₃, h₄, h₅⟩ := restoreSettings_set hc hs hr.board hk hports
  generalize restoreSettings (saveSettings f f.portMap) g k = g₅ at h₅ ⊢
  have hb₁ := h₁.board.trans hr.board
  have hb₂ := h₂.board.trans hb₁
  have hb₃ := h₃.board.trans hb₂
  have hb₄ := h₄.board.trans hb₃
  have hn : ∀ {g' : CxpFrontend}, g'.board = s.board → g'.numPorts = f.numPorts :=
    fun hb => (numPorts_eq hb).trans hs.numPorts
  -- every part is changed by one of the setters, the standard control by two
  have hdata : g₅.dataPath = g₁.dataPath :=
    h₅.dataPath.trans (h₄.dataPath.trans (h₃.dataPath.trans h₂.dataPath))
  have hspeed : g₅.speed = g₂.speed := h₅.speed.trans (h₄.speed.trans h₃.speed)
  have hstd : g₅.standard = g₃.standard := h₅.standard.trans h₄.standard
  have hacq₃ : g₃.acquisition = g.acquisition := h₃.acquisition.trans (h₂.acquisition.trans h₁.acquisition)
  have hdown₄ : g₄.downscale = g.downscale :=
    h₄.downscale.trans (h₃.downscale.trans (h₂.downscale.trans h₁.downscale))
  obtain ⟨hphys, hlogical, hhost, htrans⟩ := hr.dataPath_write hc hs hk h₁
  obtain ⟨hspeed₂, huplink, hstd₂⟩ := hr.speed_write hc hs hk h₁.board h₁.speed h₁.standard h₂
  refine ⟨h₅.board.trans hb₄, hspeed.trans hspeed₂, hdata ▸ hphys, hdata ▸ hlogical, ?_, ?_, ?_, ?_,
    hdata ▸ hhost,
    hdata ▸ htrans, ?_, ?_, ?_⟩
  · rw [hstd, h₃.uplink]
    exact huplink
  · rw [hstd, h₃.version, h₂.version, h₁.standard, logicalPort_eq hb₂]
    exact hr.version.write hs.inj hk
  · rw [h₅.acquisition, h₄.state, hacq₃, logicalPort_eq hb₃]
    exact hr.state.write hs.inj hk
  · rw [h₅.connections, hdown₄, logicalPort_eq hb₄, BitVec.ofNat_toNat, BitVec.setWidth_eq]
    exact hr.connections.write hs.inj hk
  · rw [hstd, ← hn hb₂]
    rw [← hn hb₂] at hstd₂
    exact standard_register h₃.board (h₃.register.imp id (fun heq => by rw [heq])) hstd₂
  · rw [h₅.acquisition]
    intro l hl
    rcases h₄.register with hreg | rfl
    · rw [hreg]
      exact lane_cxpAcquisitionCtrl ((hn hb₄).symm ▸ hl)
    · rw [hacq₃]
      exact hr.acquisitionCtrl l hl
  · intro hle l hl
    rcases h₅.register with hreg | rfl
    · have hb₅ := h₅.board.trans hb₄
      rw [hreg]
      exact lane_cxpCameraDownscaleCtrl (lt_of_lt_of_le hl hle) ((hn hb₅).symm ▸ hl)
    · rw [hdown₄]
      exact hr.downscaleCtrl hle l hl

theorem Remapped.step (hc : Consistent f) (hs : Switched f s) (hr : Remapped f s k g) (hk : k < f.numPorts) :
    Remapped f s (k + 1) (remapPort f.portMap s.portMap (saveSettings f f.portMap) g k) := by
  rw [remapPort]
  split_ifs with hne
  · exact hr.write hc hs hk hne
  · exact hr.skip (not_not.mp hne)

theorem Remapped.consistent (hc : Consistent f) (hs : Switched f s) (hr : Remapped f s f.numPorts g) :
    Consistent g := by
  have hn : g.numPorts = f.numPorts := (numPorts_eq hr.board).trans hs.numPorts
  have hlog : g.logicalPort = s.logicalPort := logicalPort_eq hr.board
  have hmaps : g.portMaps = s.portMaps := congrArg BoardPart.portMaps hr.board
  have hv : g.portMaps.Valid g.portMap := by
    rw [portMap_eq hr.board, hmaps]
    exact hs.valid
  have hlogical : ∀ p < f.numPorts, g.dataPath.logical (s.logicalPort p) = f.dataPath.physical p :=
    fun p hp => (hr.logical.finish hp).trans (hc.dataPath.logical p hp)
  have h₁ : DataPathOk f.numPorts s.logicalPort g.dataPath := by
    refine ⟨hr.physical ▸ hc.dataPath.known, hr.physical ▸ hlogical, fun p hp => ?_,
      hr.physical ▸ hr.transceiver⟩
    rw [hr.physical]
    exact (hr.host p hp).elim id (fun h => h.trans (by rw [hlogical p hp]))
  have h₂ : SpeedOk f.numPorts g.speed := hr.speed ▸ hc.speed
  have h₃ : StandardOk f.numPorts s.logicalPort g.speed.downlink g.standard := by
    refine ⟨fun p hp => ?_, fun p hp => ?_, hr.standardCtrl⟩
    · rw [hr.uplink.finish hp, hr.speed, hc.standard.uplink p hp]
    · rw [hr.version.finish hp]
      exact hc.standard.known p hp
  have h₄ : AcquisitionOk f.numPorts s.logicalPort g.acquisition := by
    refine ⟨fun p hp => ?_, hr.acquisitionCtrl⟩
    rw [hr.state.finish hp]
    exact hc.acquisition.known p hp
  have h₅ : DownscaleOk f.numPorts s.logicalPort g.downscale := by
    refine ⟨fun p hp => ?_, fun p hp => ?_, hr.downscaleCtrl⟩ <;> rw [hr.connections.finish hp]
    · exact hc.downscale.pos p hp
    · exact hc.downscale.le p hp
  rw [← hn] at h₁ h₂ h₃ h₄ h₅
  rw [← hlog] at h₁ h₃ h₄ h₅
  exact ⟨(hs.ready hc).board hr.board, hv, h₁, h₂, h₃, h₄, h₅⟩

/-- The settings of the ports are in the registers as before. -/
structure SameSettings (f g : CxpFrontend) : Prop where
  settings : ∀ p < f.numPorts, readSettings g.ri g.portMap p = readSettings f.ri f.portMap p
  downscale : f.numPorts ≤ 4 → ∀ p < f.numPorts,
    readDownscale g.ri g.portMap p = readDownscale f.ri f.portMap p

theorem Remapped.sameSettings (hc : Consistent f) (hs : Switched f s) (hr : Remapped f s f.numPorts g) :
    SameSettings f g := by
  have hn : g.numPorts = f.numPorts := (numPorts_eq hr.board).trans hs.numPorts
  have hlog : g.logicalPort = s.logicalPort := logicalPort_eq hr.board
  have hg := hr.consistent hc hs
  constructor
  · intro p hp
    rw [hc.readSettings_eq hp, hg.readSettings_eq (hn ▸ hp), hlog, hr.physical, hr.speed, hr.uplink.finish hp,
      hr.version.finish hp, hr.state.finish hp]
  · intro hle p hp
    rw [hc.readDownscale_eq hle hp, hg.readDownscale_eq (hn ▸ hle) (hn ▸ hp), hlog, hr.connections.finish hp]

/-! ## Setting the port map -/

theorem switchPortMap_switched {i : Nat} (hi : f.portMaps.Valid (f.portMaps.portMap i)) :
    Switched f (switchPortMap f i) := by
  obtain ⟨-, h₁, h₂, h₃, h₄, h₅⟩ := settingsKept_write (f := { f with portMapIndex := i })
    (a := REG_CXP_DISCOVERY_CONFIG) (BitVec.ofNat 32 i) (by decide)
  exact ⟨rfl, rfl, hi, h₁, h₂, h₃, h₄, h₅⟩

theorem cxpSetPortMap_of_not_valid {m : BitVec 64} (hf : f.portMaps.Valid f.portMap)
    (hm : ¬ f.portMaps.Valid m) : cxpSetPortMap f m = (f, .invalidParameter) := by
  have hne : m ≠ f.portMap := fun heq => hm (heq ▸ hf)
  unfold cxpSetPortMap
  dsimp only
  rw [if_pos hne, if_pos (PortMapTable.portMap_search_of_not_valid hm)]

/-- What a valid port map that is not the old one does. -/
theorem cxpSetPortMap_remapped {m : BitVec 64} (hc : Consistent f) (hm : f.portMaps.Valid m)
    (hne : m ≠ f.portMap) : ∃ s, Switched f s ∧ s.portMap = m ∧ (cxpSetPortMap f m).2 = .ok ∧
      Remapped f s f.numPorts (cxpSetPortMap f m).1 := by
  have hsearch := PortMapTable.portMap_search hm
  have hs : Switched f (switchPortMap f (f.portMaps.search m)) :=
    switchPortMap_switched (hsearch.symm ▸ hm)
  have hmap : (switchPortMap f (f.portMaps.search m)).portMap = m := hsearch
  refine ⟨_, hs, hmap, ?_⟩
  unfold cxpSetPortMap
  dsimp only
  rw [if_pos hne, hsearch, if_neg hm.2, if_pos hc.valid.2]
  refine ⟨rfl, Remap.foldl_range (Remapped f _) f.numPorts (.start hc hs) ?_⟩
  intro k hk g hr
  have hstep := hr.step hc hs hk
  rwa [hmap] at hstep

theorem Consistent.setPortMap (hc : Consistent f) (m : BitVec 64) : Consistent (cxpSetPortMap f m).1 := by
  by_cases hm : f.portMaps.Valid m
  · by_cases hne : m = f.portMap
    · unfold cxpSetPortMap
      rwa [if_neg (not_not.mpr hne)]
    · obtain ⟨s, hs, -, -, hr⟩ := cxpSetPortMap_remapped hc hm hne
      exact hr.consistent hc hs
  · rw [cxpSetPortMap_of_not_valid hc.valid hm]
    exact hc

end MenableDriver
