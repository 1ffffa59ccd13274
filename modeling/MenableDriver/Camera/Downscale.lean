import MenableDriver.Camera.PortInvariant
import MenableDriver.Camera.Session

/-!
# The register of the downscaling

The setter of the downscaling writes the number of links of all logical ports, two bits for each of them.
The value is put together in eight bits, so there is room for four ports. The board with five ports has its
last field above them.
-/

namespace MenableDriver

set_option autoImplicit false

open CxpFrontend History

/-! ## Updates -/

/-- The arguments are valid, the board has the register and the number is a new one. -/
def UpdatesDownscale (f : CxpFrontend) (p n : Nat) : Prop :=
  p < f.numPorts ∧ n ≤ CXP_CAMERA_DOWNSCALE_MAX_CONNECTIONS ∧ n ≠ 0 ∧ f.numPorts ≠ 1 ∧
    n ≠ (f.ports (f.logicalPort p)).cameraDownscaleStateCache.toNat

instance (f : CxpFrontend) (p n : Nat) : Decidable (UpdatesDownscale f p n) :=
  inferInstanceAs (Decidable (_ ∧ _))

/-- The logical port whose setting changes, and the new number of connections. -/
structure DownscaleUpdate where
  logicalPort : Nat
  numConnections : Nat
deriving DecidableEq, Repr

def downscaleUpdate (st : CxpStep) : Option DownscaleUpdate :=
  match st.call with
  | .cameraDownscaling p n =>
    if UpdatesDownscale st.before.frontend p n then some ⟨st.before.frontend.logicalPort p, n⟩ else none
  | _ => none

/-- The number of connections that is set for a logical port. -/
def portConnections (s : CxpSession) (l : Nat) : Nat := (s.frontend.ports l).cameraDownscaleStateCache.toNat

/-- The field of a logical port in what was written last to the register. -/
def downscaleField (s : CxpSession) (l : Nat) : BitVec 2 :=
  Packed.lane 2 l (s.frontend.ri.written REG_CXP_CAMERA_DOWNSCALE_CTRL)

/-- Every value that is written has one less than the connections in the field of each port. From the second
value on, only the field of the port that is updated changes. -/
structure DownscaleEncoded (all : List CxpStep) : Prop where
  fields : ∀ st ∈ all, ∀ u ∈ downscaleUpdate st, ∀ l < st.before.frontend.numPorts,
    (downscaleField st.after l).toNat + 1 = portConnections st.after l
  others : ∀ earlier st later, all = earlier ++ st :: later → ∀ u ∈ downscaleUpdate st,
    (∃ st' ∈ earlier, (downscaleUpdate st').isSome) → ∀ l < st.before.frontend.numPorts,
      l ≠ u.logicalPort → downscaleField st.after l = downscaleField st.before l

/-- The fifth port gets no second link. -/
def FifthPortSingle (all : List CxpStep) : Prop :=
  ∀ st ∈ all, ∀ u ∈ downscaleUpdate st, u.logicalPort = 4 → u.numConnections = 1

/-! ## What the calls do to the downscaling -/

variable {f : CxpFrontend} {s s' : CxpSession} {p n l : Nat} {ret : CxpError}

/-- The frontend after an update. -/
def updateDownscale (f : CxpFrontend) (l n : Nat) : CxpFrontend :=
  let g := f.modifyPort l fun port => { port with cameraDownscaleStateCache := BitVec.ofNat 8 n }
  g.write REG_CXP_CAMERA_DOWNSCALE_CTRL ((cxpCameraDownscaleCtrl g).setWidth 32)

theorem cxpSetPortCameraDonwscaling_updates (h : UpdatesDownscale f p n) :
    (cxpSetPortCameraDonwscaling f p n).1 = updateDownscale f (f.logicalPort p) n := by
  obtain ⟨hp, hmax, hpos, hports, hnew⟩ := h
  unfold cxpSetPortCameraDonwscaling
  rw [if_neg (not_le.mpr hp), if_neg (not_lt.mpr hmax), if_neg hpos, if_neg hports]
  dsimp only
  rw [if_neg hnew]
  rfl

theorem cxpSetPortCameraDonwscaling_keeps (h : ¬UpdatesDownscale f p n) :
    (cxpSetPortCameraDonwscaling f p n).1 = f := by
  unfold cxpSetPortCameraDonwscaling
  dsimp only
  split_ifs with h₁ h₂ h₃ h₄ h₅
  · rfl
  · rfl
  · rfl
  · rfl
  · rfl
  · exact absurd ⟨not_le.mp h₁, not_lt.mp h₂, h₃, h₄, h₅⟩ h

theorem updateDownscale_connections (f : CxpFrontend) (l n : Nat) :
    (updateDownscale f l n).downscale.connections =
      Function.update f.downscale.connections l (BitVec.ofNat 8 n) := by
  simp only [updateDownscale, downscale, cache_write]
  exact cache_modifyPort

theorem updateDownscale_register (f : CxpFrontend) (l n : Nat) :
    (updateDownscale f l n).downscale.downscaleCtrl =
      (cxpCameraDownscaleCtrl (updateDownscale f l n)).setWidth 32 := by
  simp only [updateDownscale, downscale, written_write]
  rfl

theorem writeDownlink_downscale (f : CxpFrontend) (p : Nat) (speed : DataPathSpeed) :
    (writeDownlink f p speed).downscale = f.downscale := by
  have hne : REG_CXP_CAMERA_DOWNSCALE_CTRL ≠ downlinkBitrateRegister p := by
    intro heq
    have hmem := downlinkBitrateRegister_mem p
    rw [← heq] at hmem
    revert hmem
    decide
  rw [writeDownlink, downscale_write _ hne]
  exact downscale_modifyPort fun _ => rfl

theorem setUplink_downscale (f : CxpFrontend) (l : Nat) (up : DataPathUpSpeed) :
    (setUplink f l up).downscale = f.downscale := by
  obtain ⟨-, -, -, -, -, hdown⟩ := setUplink_keeps (f := f) l up
  exact hdown

theorem sessionSetPortDataPathSpeed_downscale {speed : DataPathSpeed}
    (h : sessionSetPortDataPathSpeed s p speed = some (s', ret)) :
    s'.frontend.downscale = s.frontend.downscale := by
  rcases sessionSetPortDataPathSpeed_frontend h with hsame | ⟨g, rfl | rfl, hup⟩
  · rw [hsame]
  · rw [hup, setUplink_downscale]
  · rw [hup, setUplink_downscale, writeDownlink_downscale]

/-- A step that is no update leaves the settings and the register as they are. -/
theorem downscale_kept {st : CxpStep} (h : sessionCall st.before st.call = some (st.after, st.answer))
    (hnone : downscaleUpdate st = none) : st.after.frontend.downscale = st.before.frontend.downscale := by
  obtain ⟨before, call, answer, after⟩ := st
  dsimp only at h ⊢
  rcases sessionCall_cases h with ⟨p, speed, -, h⟩ | ⟨hspeed, rfl, -⟩
  · exact sessionSetPortDataPathSpeed_downscale h
  · by_cases hdown : ∃ p n, call = .cameraDownscaling p n
    · obtain ⟨p, n, rfl⟩ := hdown
      have hno : ¬UpdatesDownscale before.frontend p n := by
        intro hyes
        simp only [downscaleUpdate, if_pos hyes] at hnone
        cases hnone
      exact congrArg CxpFrontend.downscale (cxpSetPortCameraDonwscaling_keeps hno)
    · exact (cxpCall_others before.frontend hspeed).2 fun p n heq => hdown ⟨p, n, heq⟩

theorem downscale_updated {st : CxpStep} {u : DownscaleUpdate}
    (h : sessionCall st.before st.call = some (st.after, st.answer)) (hu : downscaleUpdate st = some u) :
    st.after.frontend = updateDownscale st.before.frontend u.logicalPort u.numConnections ∧
      0 < u.numConnections ∧ u.numConnections ≤ 4 := by
  obtain ⟨before, call, answer, after⟩ := st
  dsimp only at h ⊢
  cases call with
  | cameraDownscaling p n =>
    by_cases hyes : UpdatesDownscale before.frontend p n
    · simp only [downscaleUpdate, if_pos hyes] at hu
      obtain rfl := Option.some.inj hu
      obtain ⟨rfl, -⟩ := Prod.mk.inj (Option.some.inj h)
      exact ⟨cxpSetPortCameraDonwscaling_updates hyes, Nat.pos_of_ne_zero hyes.2.2.1, hyes.2.1⟩
    · simp only [downscaleUpdate, if_neg hyes] at hu
      cases hu
  | powerState | dataPathState | dataPathSpeed | standardVersion | ledState | acquisitionState | imageStreamId
  | portMapIndex | loadApplet => cases hu

/-! ## The invariant -/

/-- The field of a logical port as the setter computes it; there is none for a fifth port. -/
def encodedField (s : CxpSession) (l : Nat) : BitVec 2 :=
  if l < 4 then ((s.frontend.ports l).cameraDownscaleStateCache - 1#8).setWidth 2 else 0#2

/-- What is known after the steps `past`. -/
structure DownscaleKnown (numPorts : Nat) (past : List CxpStep) (s : CxpSession) : Prop where
  ports : s.frontend.numPorts = numPorts
  range : ∀ l, 0 < portConnections s l ∧ portConnections s l ≤ 4
  register : (∃ st ∈ past, (downscaleUpdate st).isSome) → ∀ l < numPorts, downscaleField s l =
    encodedField s l
  fifth : FifthPortSingle past → portConnections s 4 = 1

theorem encodedField_iff (hrange : 0 < portConnections s l ∧ portConnections s l ≤ 4) :
    (encodedField s l).toNat + 1 = portConnections s l ↔ l < 4 ∨ portConnections s l = 1 := by
  rw [encodedField]
  unfold portConnections at hrange ⊢
  generalize (s.frontend.ports l).cameraDownscaleStateCache = c at hrange ⊢
  split_ifs with hl
  · refine iff_of_true ?_ (.inl hl)
    rw [BitVec.toNat_setWidth, BitVec.toNat_sub, BitVec.toNat_ofNat]
    omega
  · rw [BitVec.toNat_ofNat]
    omega

/-- The two bits of a field above the eighth bit are always zero. -/
theorem lane_fifth (x : BitVec 8) : Packed.lane 2 4 (x.setWidth 32) = 0#2 := by
  apply BitVec.eq_of_getLsbD_eq
  intro k hk
  rw [Packed.getLsbD_lane, BitVec.getLsbD_setWidth, BitVec.getLsbD_of_ge x _ (by omega)]
  simp

theorem numPorts_kept {st : CxpStep} (h : sessionCall st.before st.call = some (st.after, st.answer)) :
    st.after.frontend.numPorts = st.before.frontend.numPorts := by
  have hup : ∀ (g : CxpFrontend) (l : Nat) (up : DataPathUpSpeed), (setUplink g l up).numPorts = g.numPorts :=
    fun g l up => numPorts_eq (setUplink_keeps l up).1
  rcases sessionCall_cases h with ⟨p, speed, -, h⟩ | ⟨-, hafter, -⟩
  · rcases sessionSetPortDataPathSpeed_frontend h with hsame | ⟨g, rfl | rfl, hlink⟩
    · rw [hsame]
    · rw [hlink, hup]
    · rw [hlink, hup]
      rfl
  · rw [hafter]
    exact congrArg PortMapTable.numPorts (cxpCall_keeps st.before.frontend st.call).1

section
variable {st : CxpStep} {u : DownscaleUpdate}
  (h : sessionCall st.before st.call = some (st.after, st.answer)) (hu : downscaleUpdate st = some u)
include h hu

theorem portConnections_updated (l : Nat) : portConnections st.after l =
    if l = u.logicalPort then u.numConnections else portConnections st.before l := by
  obtain ⟨hafter, -, hmax⟩ := downscale_updated h hu
  have hconn := congrFun (updateDownscale_connections st.before.frontend u.logicalPort u.numConnections) l
  rw [← hafter, Function.update_apply] at hconn
  have hto := congrArg BitVec.toNat hconn
  refine hto.trans ?_
  split_ifs
  · rw [BitVec.toNat_ofNat]
    omega
  · rfl

theorem downscaleField_updated (hl : l < st.before.frontend.numPorts) :
    downscaleField st.after l = encodedField st.after l := by
  have hn := numPorts_kept h
  obtain ⟨hafter, -, -⟩ := downscale_updated h hu
  have hreg := updateDownscale_register st.before.frontend u.logicalPort u.numConnections
  rw [← hafter] at hreg
  have hfield : downscaleField st.after l =
      Packed.lane 2 l ((cxpCameraDownscaleCtrl st.after.frontend).setWidth 32) :=
        congrArg (Packed.lane 2 l) hreg
  rw [hfield, encodedField]
  split_ifs with hl4
  · exact lane_cxpCameraDownscaleCtrl hl4 (hn ▸ hl)
  · have hle := st.before.frontend.portMaps.numPorts_le
    have hports : st.before.frontend.portMaps.numPorts = st.before.frontend.numPorts := rfl
    obtain rfl : l = 4 := by omega
    exact lane_fifth _

theorem encodedField_others (hl : l ≠ u.logicalPort) : encodedField st.after l =
    encodedField st.before l := by
  have hconn := portConnections_updated h hu l
  rw [if_neg hl] at hconn
  have hcache : (st.after.frontend.ports l).cameraDownscaleStateCache =
      (st.before.frontend.ports l).cameraDownscaleStateCache := BitVec.eq_of_toNat_eq hconn
  rw [encodedField, encodedField, hcache]

end

theorem DownscaleKnown.step {numPorts : Nat} (past : List CxpStep) (st : CxpStep)
    (hk : DownscaleKnown numPorts past st.before)
    (h : sessionCall st.before st.call = some (st.after, st.answer)) :
    DownscaleKnown numPorts (past ++ [st]) st.after := by
  have hsplit : FifthPortSingle (past ++ [st]) → FifthPortSingle past ∧
      ∀ u ∈ downscaleUpdate st, u.logicalPort = 4 → u.numConnections = 1 := fun hall =>
    ⟨fun st' hmem => hall st' (List.mem_append_left _ hmem),
      hall st (List.mem_append_right _ List.mem_cons_self)⟩
  have hn := (numPorts_kept h).trans hk.ports
  cases hu : downscaleUpdate st with
  | none =>
    have hkept := downscale_kept h hu
    have hcache : ∀ l, (st.after.frontend.ports l).cameraDownscaleStateCache =
        (st.before.frontend.ports l).cameraDownscaleStateCache :=
      fun l => congrArg (fun d : DownscalePart => d.connections l) hkept
    have hconn : ∀ l, portConnections st.after l = portConnections st.before l :=
      fun l => congrArg BitVec.toNat (hcache l)
    have hfield : ∀ l, downscaleField st.after l = downscaleField st.before l :=
      fun l => congrArg (fun d : DownscalePart => Packed.lane 2 l d.downscaleCtrl) hkept
    refine ⟨hn, fun l => by rw [hconn]; exact hk.range l, ?_, fun hall => ?_⟩
    · rintro ⟨st', hmem, hsome⟩ l hl
      rw [hfield, encodedField, hcache]
      apply hk.register ⟨st', ?_, hsome⟩ l hl
      rcases List.mem_append.mp hmem with hmem | hmem
      · exact hmem
      · rw [List.mem_singleton.mp hmem, hu] at hsome
        cases hsome
    · rw [hconn]
      exact hk.fifth (hsplit hall).1
  | some u =>
    obtain ⟨-, hpos, hmax⟩ := downscale_updated h hu
    refine ⟨hn, fun l => ?_, fun _ l hl => ?_, fun hall => ?_⟩
    · rw [portConnections_updated h hu]
      split_ifs
      · exact ⟨hpos, hmax⟩
      · exact hk.range l
    · exact downscaleField_updated h hu (hk.ports.symm ▸ hl)
    · obtain ⟨hpast, hlast⟩ := hsplit hall
      rw [portConnections_updated h hu]
      split_ifs with h4
      · exact hlast u hu h4.symm
      · exact hk.fifth hpast

/-! ## The law -/

section
variable (ri : RegisterInterface) (numPhysicalPorts : Nat) (supportsIdleViolationFix : Bool)
  (reads : List StatusRead) (commands : List CameraCommand)

theorem cxpSession_downscaleKnown : Along sessionCall
    (DownscaleKnown (cxpPortMaps numPhysicalPorts).numPorts) []
    (cxpSession ri numPhysicalPorts supportsIdleViolationFix reads commands) := by
  apply steps_along DownscaleKnown.step
  refine ⟨rfl, fun l => ⟨?_, ?_⟩, ?_, fun _ => rfl⟩
  · exact Nat.one_pos
  · exact Nat.le_of_ble_eq_true rfl
  · rintro ⟨st, hmem, -⟩
    exact absurd hmem List.not_mem_nil

/-- The register holds the settings in every session of a board with at most four ports, and in those
sessions of a larger board where the fifth port keeps one link. -/
theorem cxp_downscale_encoded_iff :
    DownscaleEncoded (cxpSession ri numPhysicalPorts supportsIdleViolationFix reads commands) ↔
      (cxpPortMaps numPhysicalPorts).numPorts ≤ 4 ∨
        FifthPortSingle (cxpSession ri numPhysicalPorts supportsIdleViolationFix reads commands) := by
  have halong := cxpSession_downscaleKnown ri numPhysicalPorts supportsIdleViolationFix reads commands
  generalize cxpSession ri numPhysicalPorts supportsIdleViolationFix reads commands = all at halong ⊢
  constructor
  · intro hlaw
    by_cases hn : (cxpPortMaps numPhysicalPorts).numPorts ≤ 4
    · exact .inl hn
    · right
      intro st hst u hu h4
      obtain ⟨past, -, hk, hcall⟩ := halong.mem hst
      have hafter := hk.step past st hcall
      have hlt : 4 < st.before.frontend.numPorts := by
        rw [hk.ports]
        exact not_le.mp hn
      have hfield := hlaw.fields st hst u hu 4 hlt
      rw [downscaleField_updated hcall hu hlt, encodedField_iff (hafter.range 4),
        portConnections_updated hcall hu, if_pos h4.symm] at hfield
      exact hfield.resolve_left (lt_irrefl 4)
  · intro hcond
    refine ⟨fun st hst u hu l hl => ?_, fun earlier st later heq u hu hsome l hl hne => ?_⟩
    · obtain ⟨past, hpast, hk, hcall⟩ := halong.mem hst
      have hafter := hk.step past st hcall
      rw [downscaleField_updated hcall hu hl, encodedField_iff (hafter.range l)]
      rw [hk.ports] at hl
      rcases hcond with hn | hsingle
      · exact .inl (lt_of_lt_of_le hl hn)
      · rcases Nat.lt_or_ge l 4 with hl4 | hl4
        · exact .inl hl4
        · have hle := (cxpPortMaps numPhysicalPorts).numPorts_le
          obtain rfl : l = 4 := by omega
          right
          apply hafter.fifth
          intro st' hmem
          rcases List.mem_append.mp hmem with hmem | hmem
          · exact hsingle st' (hpast st' hmem)
          · rw [List.mem_singleton.mp hmem]
            exact hsingle st hst
    · obtain ⟨hk, hcall⟩ := halong earlier st later heq
      rw [downscaleField_updated hcall hu hl, encodedField_others hcall hu hne]
      exact (hk.register hsome l (hk.ports ▸ hl)).symm

end

/-- A board with five ports, and a camera with two links at the fifth. -/
def fifthPortSession : List CxpStep :=
  cxpSession ⟨fun _ => 0#32, fun _ => 0xffffffff#32⟩ 5 true (List.replicate 10 ⟨0x1f#32, false⟩)
    [.setPortCxpCameraDownscaling 4 2]

theorem cxp_downscale_encoded_fifth_port : ¬DownscaleEncoded fifthPortSession := by
  intro hlaw
  have hfields := hlaw.fields
  revert hfields
  decide +kernel

end MenableDriver
