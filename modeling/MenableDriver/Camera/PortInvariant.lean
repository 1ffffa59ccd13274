import MenableDriver.Camera.PortSettings

/-!
# The caches and the registers agree

After the reset the caches of a frontend say what the registers of the board hold, and every
command keeps it so.
-/

namespace MenableDriver

set_option autoImplicit false

open CxpFrontend

/-! ## The lanes of the registers -/

def hostBits (state : DataPathState) : BitVec 5 :=
  (portResetCtrlHost state &&& CXP_RESET_CTRL_HOST_PORT_MASK).setWidth 5

def transceiverBits (state : DataPathState) : BitVec 5 :=
  (portResetCtrlTransceiver state &&& CXP_RESET_CTRL_TRANSCEIVER_PORT_MASK).setWidth 5

def standardBits (uplink : DataPathUpSpeed) (version : CxpStandardVersion) : BitVec 3 :=
  ((portUplinkSpeed uplink ||| portStandardVersion version) &&& 0x7#32).setWidth 3

def acquisitionBits (state : AcquisitionState) : BitVec 1 := (portAcquisitionCtrl state &&& 0x1#32).setWidth 1

/-- The bits of the host and those of the transceiver do not overlap. -/
theorem resetBits_host (a b : DataPathState) : (hostBits a ||| transceiverBits b) &&& 0x7#5 = hostBits a := by
  cases a <;> cases b <;> decide

theorem resetBits_transceiver (a b : DataPathState) :
    (hostBits a ||| transceiverBits b) &&& 0x18#5 = transceiverBits b := by
  cases a <;> cases b <;> decide

variable {f g : CxpFrontend} {p l n : Nat}

theorem lane_cxpResetCtrl (hm : PortMapOk f.numPorts f.portMap) (hp : p < f.numPorts) (q : Nat)
    (hq : f.logicalPort p = q) : Packed.lane 5 q (cxpResetCtrl f) =
      hostBits (f.dataPath.physical p) ||| transceiverBits (f.dataPath.physical q) := by
  have hle := f.portMaps.numPorts_le
  have hn : f.portMaps.numPorts = f.numPorts := rfl
  have hq' : q < f.numPorts := hq ▸ (hm.phys2log p hp).1
  rw [cxpResetCtrl, Packed.orAll_or, Packed.lane_or]
  congr 1
  · rw [← hq]
    refine Packed.lane_orAll_shiftLeft hp (fun j hj h => ?_) (fun j _ => ?_) (by rw [hq]; omega)
    · rw [← (hm.phys2log j hj).2, ← (hm.phys2log p hp).2]
      exact congrArg _ h
    · cases (f.ports j).dataPathStatePhysicalCache <;> decide
  · refine Packed.lane_orAll_shiftLeft (σ := fun j => j) hq' (fun j _ h => h) (fun j _ => ?_) (by omega)
    cases (f.ports j).dataPathStatePhysicalCache <;> decide

theorem lane_cxpStandardCtrl (hl : l < f.numPorts) : Packed.lane 3 l (cxpStandardCtrl f) =
    standardBits (f.standard.uplink l) (f.standard.version l) := by
  have hle := f.portMaps.numPorts_le
  have hn : f.portMaps.numPorts = f.numPorts := rfl
  refine Packed.lane_orAll_shiftLeft (σ := fun j => j) hl (fun j _ h => h) (fun j _ => ?_) (by omega)
  cases (f.ports j).dataPathUpSpeedCache <;> cases (f.ports j).standardVersionCache <;> decide

theorem lane_cxpAcquisitionCtrl (hl : l < f.numPorts) : Packed.lane 1 l (cxpAcquisitionCtrl f) =
    acquisitionBits (f.acquisition.state l) := by
  have hle := f.portMaps.numPorts_le
  have hn : f.portMaps.numPorts = f.numPorts := rfl
  refine Packed.lane_orAll_shiftLeft (σ := fun j => j) hl (fun j _ h => h) (fun j _ => ?_) (by omega)
  cases (f.ports j).acquisitionStateCache <;> decide

theorem getLsbD_setBits8 (word val : BitVec 8) {b e k : Nat} (he : e < 8) (hk : k < 8) :
    (setBits8 word val b e).getLsbD k = if b ≤ k ∧ k ≤ e then val.getLsbD (k - b) else word.getLsbD k := by
  have hones : ∀ i, (0xff#8 : BitVec 8).getLsbD i = decide (i < 8) := fun i => by
    rw [show (0xff#8 : BitVec 8) = BitVec.allOnes 8 from rfl, BitVec.getLsbD_allOnes]
  have hmask : (genMask8 b e).getLsbD k = decide (b ≤ k ∧ k ≤ e) := by
    rw [genMask8, BitVec.getLsbD_and, BitVec.getLsbD_ushiftRight, BitVec.getLsbD_shiftLeft, hones, hones]
    simp only [hk, decide_true, Bool.true_and]
    by_cases hb : k < b
    · simp [hb, show ¬ b ≤ k by omega]
    · simp only [hb, decide_false, Bool.not_false, Bool.true_and, ← Bool.decide_and]
      congr 1
      exact propext ⟨fun h => by omega, fun h => by omega⟩
  rw [setBits8, BitVec.getLsbD_or, BitVec.getLsbD_and, BitVec.getLsbD_and, BitVec.getLsbD_not, hmask,
    BitVec.getLsbD_shiftLeft]
  by_cases hbe : b ≤ k ∧ k ≤ e
  · simp [hbe, hk, show ¬ k < b by omega]
  · simp [hbe, hk]

theorem lane_setBits8 (word val : BitVec 8) {i j : Nat} (hi : i < 4) (hj : j < 4) :
    Packed.lane 2 j (setBits8 word val (2 * i) (2 * i + 1)) =
      if i = j then val.setWidth 2 else Packed.lane 2 j word := by
  apply BitVec.eq_of_getLsbD_eq
  intro k hk
  rw [Packed.getLsbD_lane, getLsbD_setBits8 _ _ (by omega) (by omega)]
  by_cases hij : i = j
  · subst hij
    rw [if_pos (by omega), if_pos rfl, BitVec.getLsbD_setWidth, Nat.add_sub_cancel_left]
  · rw [if_neg (by omega), if_neg hij, Packed.getLsbD_lane]

theorem lane_setWidth (x : BitVec 8) (hl : l < 4) : Packed.lane 2 l (x.setWidth 32) = Packed.lane 2 l x := by
  apply BitVec.eq_of_getLsbD_eq
  intro k hk
  rw [Packed.getLsbD_lane, Packed.getLsbD_lane, BitVec.getLsbD_setWidth]
  simp [show 2 * l + k < 32 by omega]

/-- The mask of a fifth port lies outside of the eight bits. -/
theorem setBits8_fifth (word val : BitVec 8) : setBits8 word val (2 * 4) (2 * 4 + 1) = word := by
  have hmask : genMask8 (2 * 4) (2 * 4 + 1) = 0#8 := by decide
  rw [setBits8, hmask, BitVec.not_zero, BitVec.and_allOnes, BitVec.and_zero, BitVec.or_zero]

/-- The loop over the ports. -/
theorem lane_cxpCameraDownscaleCtrl (hl4 : l < 4) (hl : l < f.numPorts) :
    Packed.lane 2 l ((cxpCameraDownscaleCtrl f).setWidth 32) =
      (f.downscale.connections l - 1#8).setWidth 2 := by
  have hle := f.portMaps.numPorts_le
  have hn : f.portMaps.numPorts = f.numPorts := rfl
  rw [lane_setWidth _ hl4]
  refine Remap.foldl_range (fun k word => l < k → Packed.lane 2 l word = (f.downscale.connections l - 1#8).setWidth 2)
    f.numPorts (fun h => by omega) ?_ hl
  intro k hk word ih hlk
  rw [CXP_CAMERA_DOWNSCALE_CTRL_PORT_FROM, CXP_CAMERA_DOWNSCALE_CTRL_PORT_TO,
    CXP_CAMERA_DOWNSCALE_CTRL_PORT_FROM]
  rcases Nat.lt_or_ge k 4 with hk4 | hk4
  · rw [lane_setBits8 _ _ hk4 hl4]
    split_ifs with hkl
    · rw [hkl]
      rfl
    · exact ih (by omega)
  · obtain rfl : k = 4 := by omega
    rw [setBits8_fifth]
    exact ih (by omega)

/-! ## The invariant -/

/-- The caches of the data path states and the register, when physical port `p` is connected to
logical port `σ p`. -/
structure DataPathOk (n : Nat) (σ : Nat → Nat) (d : DataPathPart) : Prop where
  known : ∀ p < n, d.physical p ≠ .unknown
  logical : ∀ p < n, d.logical (σ p) = d.physical p
  host : ∀ p < n, Packed.lane 5 (σ p) d.resetCtrl &&& 0x7#5 = hostBits (d.physical p)
  transceiver : ∀ p < n, Packed.lane 5 p d.resetCtrl &&& 0x18#5 = transceiverBits (d.physical p)

structure SpeedOk (n : Nat) (d : SpeedPart) : Prop where
  known : ∀ p < n, ¬ (d.downlink p = .unknown ∨ d.downlink p = .speed1000)
  bitrate : ∀ p < n, d.bitrate p = downlinkBitrate (d.downlink p)

structure StandardOk (n : Nat) (σ : Nat → Nat) (downlink : Nat → DataPathSpeed) (d : StandardPart) :
    Prop where
  uplink : ∀ p < n, d.uplink (σ p) = dataPathUpSpeed (downlink p)
  known : ∀ p < n, d.version (σ p) ≠ .unknown
  register : ∀ l < n, Packed.lane 3 l d.standardCtrl = standardBits (d.uplink l) (d.version l)

structure AcquisitionOk (n : Nat) (σ : Nat → Nat) (d : AcquisitionPart) : Prop where
  known : ∀ p < n, d.state (σ p) ≠ .unknown
  register : ∀ l < n, Packed.lane 1 l d.acquisitionCtrl = acquisitionBits (d.state l)

structure DownscaleOk (n : Nat) (σ : Nat → Nat) (d : DownscalePart) : Prop where
  pos : ∀ p < n, 0 < (d.connections (σ p)).toNat
  le : ∀ p < n, (d.connections (σ p)).toNat ≤ 4
  register : n ≤ 4 → ∀ l < n, Packed.lane 2 l d.downscaleCtrl = (d.connections l - 1#8).setWidth 2

/-- The board has set the ready bits of the ports below `n`. -/
def Ready (ri : RegisterInterface) (n : Nat) : Prop :=
  ∀ p < n, ri.read REG_CXP_DATA_PATH_STATUS &&& (0x1#32 <<< p) = 0x1#32 <<< p

instance (ri : RegisterInterface) (n : Nat) : Decidable (Ready ri n) :=
  inferInstanceAs (Decidable (∀ p < n, ri.read REG_CXP_DATA_PATH_STATUS &&& (0x1#32 <<< p) = 0x1#32 <<< p))

theorem Ready.wait (hr : Ready f.ri f.numPorts) (hp : p < f.numPorts) :
    cxpWaitPortDataPathSpeedChangeDone f p = .ok :=
  if_neg (not_not.mpr (hr p hp))

theorem Ready.board (hr : Ready f.ri f.numPorts) (hb : g.board = f.board) : Ready g.ri g.numPorts := by
  have hin : g.ri.input = f.ri.input := congrArg BoardPart.input hb
  intro p hp
  rw [RegisterInterface.read, hin]
  exact hr p (numPorts_eq hb ▸ hp)

/-- The caches know every setting, and the registers hold what they say. -/
structure Consistent (f : CxpFrontend) : Prop where
  ready : Ready f.ri f.numPorts
  valid : f.portMaps.Valid f.portMap
  dataPath : DataPathOk f.numPorts f.logicalPort f.dataPath
  speed : SpeedOk f.numPorts f.speed
  standard : StandardOk f.numPorts f.logicalPort f.speed.downlink f.standard
  acquisition : AcquisitionOk f.numPorts f.logicalPort f.acquisition
  downscale : DownscaleOk f.numPorts f.logicalPort f.downscale

theorem logicalPort_inj (hm : PortMapOk f.numPorts f.portMap) : Remap.InjOn f.logicalPort f.numPorts := by
  intro p hp q hq h
  rw [← (hm.phys2log p hp).2, ← (hm.phys2log q hq).2]
  exact congrArg _ h

theorem exists_logicalPort (hm : PortMapOk f.numPorts f.portMap) (hl : l < f.numPorts) :
    ∃ p < f.numPorts, f.logicalPort p = l :=
  ⟨_, hm.log2phys l hl⟩

/-- The reset register right after it was written. -/
theorem host_of_written (hm : PortMapOk f.numPorts f.portMap) (hp : p < f.numPorts) :
    Packed.lane 5 (f.logicalPort p) (cxpResetCtrl f) &&& 0x7#5 = hostBits (f.dataPath.physical p) := by
  rw [lane_cxpResetCtrl hm hp _ rfl, resetBits_host]

theorem transceiver_of_written (hm : PortMapOk f.numPorts f.portMap) (hp : p < f.numPorts) :
    Packed.lane 5 p (cxpResetCtrl f) &&& 0x18#5 = transceiverBits (f.dataPath.physical p) := by
  obtain ⟨q, hq, hqp⟩ := exists_logicalPort hm hp
  rw [lane_cxpResetCtrl hm hq p hqp, resetBits_transceiver]

theorem DataPathSet.ok {state : DataPathState} (h : DataPathSet f g p state)
    (hm : PortMapOk f.numPorts f.portMap) (hp : p < f.numPorts) (hs : state ≠ .unknown)
    (hok : DataPathOk f.numPorts f.logicalPort f.dataPath) : DataPathOk f.numPorts f.logicalPort
      g.dataPath := by
  rcases h.register with hreg | rfl
  · have hn := numPorts_eq h.board
    have hmap := portMap_eq h.board
    have hlog := logicalPort_eq h.board
    refine ⟨?_, ?_, ?_, ?_⟩
    · intro q hq
      rw [h.physical, Function.update_apply]
      split_ifs with hqp
      · exact hs
      · exact hok.known q hq
    · intro q hq
      rw [h.logical, h.physical, Function.update_apply, Function.update_apply]
      by_cases hqp : q = p
      · rw [if_pos hqp, if_pos (congrArg _ hqp)]
      · rw [if_neg hqp, if_neg (fun heq => hqp (logicalPort_inj hm q hq p hp heq))]
        exact hok.logical q hq
    · intro q hq
      rw [hreg, ← hlog]
      exact host_of_written (by rw [hn, hmap]; exact hm) (hn ▸ hq)
    · intro q hq
      rw [hreg]
      exact transceiver_of_written (by rw [hn, hmap]; exact hm) (hn ▸ hq)
  · exact hok

theorem SpeedSet.speed_ok {speed : DataPathSpeed} (h : SpeedSet f g p speed)
    (hs : ¬ (speed = .unknown ∨ speed = .speed1000)) (hok : SpeedOk f.numPorts f.speed) :
    SpeedOk f.numPorts g.speed := by
  rcases h.bitrate with ⟨-, hbit⟩ | heq
  · refine ⟨?_, ?_⟩
    · intro q hq
      rw [h.downlink, Function.update_apply]
      split_ifs with hqp
      · exact hs
      · exact hok.known q hq
    · intro q hq
      rw [hbit q (lt_of_lt_of_le hq f.portMaps.numPorts_le), h.downlink, Function.update_apply]
      split_ifs with hqp
      · rfl
      · exact hok.bitrate q hq
  · rw [heq]
    exact hok

theorem standard_register (hg : g.board = f.board)
    (h : g.standard.standardCtrl = cxpStandardCtrl g ∨ g.standard = f.standard)
    (hok : ∀ l < f.numPorts, Packed.lane 3 l f.standard.standardCtrl =
      standardBits (f.standard.uplink l) (f.standard.version l)) :
    ∀ l < f.numPorts, Packed.lane 3 l g.standard.standardCtrl =
      standardBits (g.standard.uplink l) (g.standard.version l) := by
  intro l hl
  rcases h with hreg | heq
  · rw [hreg]
    exact lane_cxpStandardCtrl ((numPorts_eq hg).symm ▸ hl)
  · rw [heq]
    exact hok l hl

theorem SpeedSet.standard_ok {speed : DataPathSpeed} (h : SpeedSet f g p speed)
    (hm : PortMapOk f.numPorts f.portMap) (hp : p < f.numPorts)
    (hok : StandardOk f.numPorts f.logicalPort f.speed.downlink f.standard) :
    StandardOk f.numPorts f.logicalPort g.speed.downlink g.standard := by
  refine ⟨?_, ?_, standard_register h.board h.register hok.register⟩
  · intro q hq
    rw [h.uplink, h.downlink, Function.update_apply, Function.update_apply]
    by_cases hqp : q = p
    · rw [if_pos hqp, if_pos (congrArg _ hqp)]
    · rw [if_neg hqp, if_neg (fun heq => hqp (logicalPort_inj hm q hq p hp heq))]
      exact hok.uplink q hq
  · intro q hq
    rw [h.version]
    exact hok.known q hq

theorem VersionSet.standard_ok {version : CxpStandardVersion} (h : VersionSet f g p version)
    (hv : version ≠ .unknown) (hok : StandardOk f.numPorts f.logicalPort f.speed.downlink f.standard) :
    StandardOk f.numPorts f.logicalPort g.speed.downlink g.standard := by
  refine ⟨?_, ?_, standard_register h.board (h.register.imp id (fun heq => by rw [heq])) hok.register⟩
  · intro q hq
    rw [h.uplink, h.speed]
    exact hok.uplink q hq
  · intro q hq
    rw [h.version, Function.update_apply]
    split_ifs
    · exact hv
    · exact hok.known q hq

theorem AcquisitionSet.ok {state : AcquisitionState} (h : AcquisitionSet f g p state) (hs : state ≠ .unknown)
    (hok : AcquisitionOk f.numPorts f.logicalPort f.acquisition) :
    AcquisitionOk f.numPorts f.logicalPort g.acquisition := by
  rcases h.register with hreg | rfl
  · refine ⟨?_, ?_⟩
    · intro q hq
      rw [h.state, Function.update_apply]
      split_ifs
      · exact hs
      · exact hok.known q hq
    · intro l hl
      rw [hreg]
      exact lane_cxpAcquisitionCtrl ((numPorts_eq h.board).symm ▸ hl)
  · exact hok

theorem DownscaleSet.ok (h : DownscaleSet f g p n) (hn : 0 < n) (hmax : n ≤ 4)
    (hok : DownscaleOk f.numPorts f.logicalPort f.downscale) :
    DownscaleOk f.numPorts f.logicalPort g.downscale := by
  have hto : (BitVec.ofNat 8 n).toNat = n := by
    rw [BitVec.toNat_ofNat]
    omega
  rcases h.register with hreg | rfl
  · refine ⟨?_, ?_, ?_⟩
    · intro q hq
      rw [h.connections, Function.update_apply]
      split_ifs
      · omega
      · exact hok.pos q hq
    · intro q hq
      rw [h.connections, Function.update_apply]
      split_ifs
      · omega
      · exact hok.le q hq
    · intro hports l hl
      rw [hreg]
      have heq := numPorts_eq h.board
      exact lane_cxpCameraDownscaleCtrl (lt_of_lt_of_le hl hports) (heq.symm ▸ hl)
  · exact hok

end MenableDriver
