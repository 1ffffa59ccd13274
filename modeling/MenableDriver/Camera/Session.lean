import MenableDriver.Camera.Calls

/-!
# A session with a board

The speed setter waits until the board has acknowledged the last change: it reads the status register until
the port is ready or the time is over. What the board answers, and when the time is over, is not in the hands
of the driver. A session has the answers to come, and the log of what was read and written.
-/

namespace MenableDriver

set_option autoImplicit false

open CxpFrontend History

/-- A read of the data path status register, and if the time of the wait is over after it. -/
structure StatusRead where
  status : BitVec 32
  elapsed : Bool
deriving DecidableEq, Repr

/-- The ready bit of the port is set. -/
def portReady (status : BitVec 32) (physicalPortNumber : Nat) : Bool :=
  let portBit : BitVec 32 := 0x1#32 <<< physicalPortNumber
  status &&& portBit = portBit

inductive CxpEvent where
  | statusRead (status : BitVec 32)
  | bitrateWritten (physicalPortNumber : Nat)
  | changeTimedOut (physicalPortNumber : Nat)
deriving DecidableEq, Repr

/-- The reads that are to come in the order of time, the log with the latest event first. -/
structure CxpSession where
  frontend : CxpFrontend
  reads : List StatusRead
  log : List CxpEvent

namespace CxpSession

def update (s : CxpSession) (change : CxpFrontend → CxpFrontend) : CxpSession :=
  { s with frontend := change s.frontend }

def record (s : CxpSession) (event : CxpEvent) : CxpSession := { s with log := event :: s.log }

end CxpSession

/-- What the wait returns after its last read. -/
def waitResult (status : BitVec 32) (physicalPortNumber : Nat) : CxpError :=
  if portReady status physicalPortNumber then .ok else .timeout

/-- The loop of `cxp_wait_port_data_path_speed_change_done`. There is no result while it is reading. -/
def waitReads (frontend : CxpFrontend) (physicalPortNumber : Nat) :
    List StatusRead → List CxpEvent → Option (CxpSession × CxpError)
  | [], _ => none
  | read :: reads, log =>
    let log := .statusRead read.status :: log
    if ¬portReady read.status physicalPortNumber ∧ ¬read.elapsed then
      waitReads frontend physicalPortNumber reads log
    else
      some (⟨frontend, reads, log⟩, waitResult read.status physicalPortNumber)

def waitPortDataPathSpeedChangeDone (s : CxpSession) (physicalPortNumber : Nat) :
    Option (CxpSession × CxpError) :=
  waitReads s.frontend physicalPortNumber s.reads s.log

def writeDownlink (f : CxpFrontend) (physicalPortNumber : Nat) (newDataPathSpeed : DataPathSpeed) :
    CxpFrontend :=
  (f.modifyPort physicalPortNumber fun port => { port with dataPathDwSpeedCache := newDataPathSpeed }).write
    (downlinkBitrateRegister physicalPortNumber) (downlinkBitrate newDataPathSpeed)

/-- The new bit rate is written, and the board has to acknowledge it. -/
def changeDownlink (s : CxpSession) (physicalPortNumber : Nat) (newDataPathSpeed : DataPathSpeed) :
    Option (CxpSession × CxpError) :=
  let s := s.update fun f => writeDownlink f physicalPortNumber newDataPathSpeed
  (waitPortDataPathSpeedChangeDone (s.record (.bitrateWritten physicalPortNumber)) physicalPortNumber).map
    fun (s, ret) => (if ret = .ok then s else s.record (.changeTimedOut physicalPortNumber), ret)

/-- `cxp_set_port_data_path_speed`. -/
def sessionSetPortDataPathSpeed (s : CxpSession) (physicalPortNumber : Nat)
    (newDataPathSpeed : DataPathSpeed) : Option (CxpSession × CxpError) :=
  if s.frontend.numPorts ≤ physicalPortNumber then some (s, .invalidPort)
  else if newDataPathSpeed = .unknown ∨ newDataPathSpeed = .speed1000 then some (s, .invalidParameter)
  else
    let logicalPortNumber := s.frontend.logicalPort physicalPortNumber
    let newDataPathUpSpeed := dataPathUpSpeed newDataPathSpeed
    if newDataPathSpeed ≠ (s.frontend.ports physicalPortNumber).dataPathDwSpeedCache ∨
        newDataPathUpSpeed ≠ (s.frontend.ports logicalPortNumber).dataPathUpSpeedCache then
      (waitPortDataPathSpeedChangeDone s physicalPortNumber).bind fun (s, ret) =>
        if ret = .ok then
          (if newDataPathSpeed ≠ (s.frontend.ports physicalPortNumber).dataPathDwSpeedCache then
            changeDownlink s physicalPortNumber newDataPathSpeed
          else some (s, ret)).map fun (s, ret) =>
            if newDataPathUpSpeed ≠ (s.frontend.ports logicalPortNumber).dataPathUpSpeedCache then
              (s.update fun f => cxpUpdateStandardCtrlRegister (f.modifyPort logicalPortNumber
                fun port => { port with dataPathUpSpeedCache := newDataPathUpSpeed }), ret)
            else (s, ret)
        else some (s, ret)
    else some (s, .ok)

def sessionCall (s : CxpSession) : CxpCall → Option (CxpSession × CxpError)
  | .dataPathSpeed port speed => sessionSetPortDataPathSpeed s port speed
  | call => some (s.update fun f => (cxpCall f call).1, (cxpCall s.frontend call).2)

abbrev CxpStep := Step CxpSession CxpCall CxpError

/-- The calls of a session: the reset that follows the initialisation, and then what the client wants. -/
def cxpSession (ri : RegisterInterface) (numPhysicalPorts : Nat) (supportsIdleViolationFix : Bool)
    (reads : List StatusRead) (commands : List CameraCommand) : List CxpStep :=
  steps sessionCall (fun s => callsOf s.frontend)
    ⟨cxpFrontendInit ri numPhysicalPorts supportsIdleViolationFix, reads, []⟩ (.reset :: commands)

/-! ## The wait -/

variable {s s' : CxpSession} {f : CxpFrontend} {p : Nat} {speed : DataPathSpeed} {ret : CxpError}

/-- A wait that returns has read some words that do not show the port ready, and a last one. -/
theorem waitReads_eq_some {reads : List StatusRead} {log : List CxpEvent}
    (h : waitReads f p reads log = some (s', ret)) :
    ∃ (words : List StatusRead) (last : StatusRead), reads = words ++ last :: s'.reads ∧
      (∀ read ∈ words, ¬portReady read.status p) ∧ ret = waitResult last.status p ∧ s'.frontend = f ∧
        s'.log = .statusRead last.status :: (words.map fun read => .statusRead read.status).reverse ++
          log := by
  induction reads generalizing log with
  | nil => cases h
  | cons read reads ih =>
    rw [waitReads] at h
    by_cases hwait : ¬portReady read.status p ∧ ¬read.elapsed
    · rw [if_pos hwait] at h
      obtain ⟨words, last, rfl, hwords, hret, hf, hlog⟩ := ih h
      refine ⟨read :: words, last, rfl, ?_, hret, hf, ?_⟩
      · intro read' hmem
        rcases List.mem_cons.mp hmem with rfl | hmem
        · exact hwait.1
        · exact hwords read' hmem
      · rw [hlog, List.map_cons, List.reverse_cons]
        simp
    · rw [if_neg hwait] at h
      obtain ⟨rfl, rfl⟩ := Prod.mk.inj (Option.some.inj h)
      exact ⟨[], read, rfl, fun read hmem => absurd hmem List.not_mem_nil, rfl, rfl, rfl⟩

/-! ## The speed setter -/

/-- The caches say that the port has the speed already, in both directions. -/
def AnsweredFromCaches (f : CxpFrontend) (p : Nat) (speed : DataPathSpeed) : Prop :=
  p < f.numPorts ∧ ¬(speed = .unknown ∨ speed = .speed1000) ∧ speed = (f.ports p).dataPathDwSpeedCache ∧
    dataPathUpSpeed speed = (f.ports (f.logicalPort p)).dataPathUpSpeedCache

instance (f : CxpFrontend) (p : Nat) (speed : DataPathSpeed) : Decidable (AnsweredFromCaches f p speed) :=
  inferInstanceAs (Decidable (_ ∧ _))

/-- What a request for a speed can do. -/
inductive SpeedRequest (s : CxpSession) (p : Nat) (speed : DataPathSpeed) : CxpSession → CxpError → Prop
  | refused {ret : CxpError} (hret : ret ≠ .ok) : SpeedRequest s p speed s ret
  | cached (hcached : AnsweredFromCaches s.frontend p speed) : SpeedRequest s p speed s .ok
  | notReady {s₁ : CxpSession} {ret : CxpError}
      (hwait : waitPortDataPathSpeedChangeDone s p = some (s₁, ret)) (hret : ret ≠ .ok) :
      SpeedRequest s p speed s₁ ret
  | kept {s₁ : CxpSession} (hwait : waitPortDataPathSpeedChangeDone s p = some (s₁, .ok))
      (hspeed : speed = (s.frontend.ports p).dataPathDwSpeedCache) :
      SpeedRequest s p speed
        (s₁.update fun f => setUplink f (s.frontend.logicalPort p) (dataPathUpSpeed speed)) .ok
  | changed {s₁ s₂ : CxpSession} {ret : CxpError}
      (hwait : waitPortDataPathSpeedChangeDone s p = some (s₁, .ok))
      (hchange : changeDownlink s₁ p speed = some (s₂, ret)) :
      SpeedRequest s p speed
        (s₂.update fun f => setUplink f (s.frontend.logicalPort p) (dataPathUpSpeed speed)) ret

theorem waitPort_frontend (h : waitPortDataPathSpeedChangeDone s p = some (s', ret)) :
    s'.frontend = s.frontend := by
  obtain ⟨words, last, -, -, -, hf, -⟩ := waitReads_eq_some h
  exact hf

theorem update_setUplink (s : CxpSession) (l : Nat) (up : DataPathUpSpeed) (ret : CxpError) :
    (if up ≠ (s.frontend.ports l).dataPathUpSpeedCache then
      (s.update fun f => cxpUpdateStandardCtrlRegister (f.modifyPort l
        fun port => { port with dataPathUpSpeedCache := up }), ret)
    else (s, ret)) = (s.update fun f => setUplink f l up, ret) := by
  have hpair : ∀ g, setUplink s.frontend l up = g →
      (({ s with frontend := g } : CxpSession), ret) = (s.update fun f => setUplink f l up, ret) := by
    rintro g rfl
    rfl
  by_cases hup : up ≠ (s.frontend.ports l).dataPathUpSpeedCache
  · rw [if_pos hup]
    exact hpair _ (if_pos hup)
  · rw [if_neg hup]
    exact hpair _ (if_neg hup)

theorem speedRequest_of_eq_some (h : sessionSetPortDataPathSpeed s p speed = some (s', ret)) :
    SpeedRequest s p speed s' ret := by
  unfold sessionSetPortDataPathSpeed at h
  by_cases hp : s.frontend.numPorts ≤ p
  · rw [if_pos hp] at h
    obtain ⟨rfl, rfl⟩ := Prod.mk.inj (Option.some.inj h)
    exact .refused (by decide)
  by_cases hs : speed = .unknown ∨ speed = .speed1000
  · rw [if_neg hp, if_pos hs] at h
    obtain ⟨rfl, rfl⟩ := Prod.mk.inj (Option.some.inj h)
    exact .refused (by decide)
  rw [if_neg hp, if_neg hs] at h
  dsimp only at h
  by_cases hcaches : speed ≠ (s.frontend.ports p).dataPathDwSpeedCache ∨
      dataPathUpSpeed speed ≠ (s.frontend.ports (s.frontend.logicalPort p)).dataPathUpSpeedCache
  · rw [if_pos hcaches] at h
    obtain ⟨⟨s₁, ret₁⟩, hwait, h⟩ := Option.bind_eq_some_iff.mp h
    dsimp only at h
    by_cases hret : ret₁ = .ok
    · subst hret
      rw [if_pos rfl] at h
      obtain ⟨⟨s₂, ret₂⟩, hdown, h⟩ := Option.map_eq_some_iff.mp h
      rw [update_setUplink] at h
      obtain ⟨rfl, rfl⟩ := Prod.mk.inj h
      rw [waitPort_frontend hwait] at hdown
      by_cases hdw : speed = (s.frontend.ports p).dataPathDwSpeedCache
      · rw [if_neg (not_not.mpr hdw)] at hdown
        obtain ⟨rfl, rfl⟩ := Prod.mk.inj (Option.some.inj hdown)
        exact .kept hwait hdw
      · rw [if_pos hdw] at hdown
        exact .changed hwait hdown
    · rw [if_neg hret] at h
      obtain ⟨rfl, rfl⟩ := Prod.mk.inj (Option.some.inj h)
      exact .notReady hwait hret
  · rw [if_neg hcaches] at h
    obtain ⟨rfl, rfl⟩ := Prod.mk.inj (Option.some.inj h)
    obtain ⟨hdw, hup⟩ := not_or.mp hcaches
    exact .cached ⟨not_le.mp hp, hs, not_not.mp hdw, not_not.mp hup⟩

theorem sessionSetPortDataPathSpeed_cached (h : AnsweredFromCaches s.frontend p speed) :
    sessionSetPortDataPathSpeed s p speed = some (s, .ok) := by
  obtain ⟨hp, hs, hdw, hup⟩ := h
  unfold sessionSetPortDataPathSpeed
  rw [if_neg (not_le.mpr hp), if_neg hs]
  dsimp only
  rw [if_neg (not_or.mpr ⟨not_not.mpr hdw, not_not.mpr hup⟩)]

/-- The frontend and the log after the bit rate was changed. -/
theorem changeDownlink_eq_some (h : changeDownlink s p speed = some (s', ret)) :
    ∃ s₁, waitPortDataPathSpeedChangeDone
        ((s.update fun f => writeDownlink f p speed).record (.bitrateWritten p)) p = some (s₁, ret) ∧
          s' = if ret = .ok then s₁ else s₁.record (.changeTimedOut p) := by
  obtain ⟨⟨s₁, ret₁⟩, hwait, h⟩ := Option.map_eq_some_iff.mp h
  obtain ⟨rfl, rfl⟩ := Prod.mk.inj h
  exact ⟨s₁, hwait, rfl⟩

theorem changeDownlink_frontend (h : changeDownlink s p speed = some (s', ret)) :
    s'.frontend = writeDownlink s.frontend p speed := by
  obtain ⟨s₁, hwait, rfl⟩ := changeDownlink_eq_some h
  have hf := waitPort_frontend hwait
  split_ifs
  · exact hf
  · exact hf

/-- What a request leaves of the frontend. -/
theorem sessionSetPortDataPathSpeed_frontend (h : sessionSetPortDataPathSpeed s p speed = some (s', ret)) :
    s'.frontend = s.frontend ∨
      ∃ g, (g = s.frontend ∨ g = writeDownlink s.frontend p speed) ∧
        s'.frontend = setUplink g (s.frontend.logicalPort p) (dataPathUpSpeed speed) := by
  cases speedRequest_of_eq_some h with
  | refused => exact .inl rfl
  | cached => exact .inl rfl
  | notReady hwait => exact .inl (waitPort_frontend hwait)
  | @kept s₁ hwait => exact .inr ⟨s₁.frontend, .inl (waitPort_frontend hwait), rfl⟩
  | @changed s₁ s₂ _ hwait hchange =>
    have hdown := changeDownlink_frontend hchange
    rw [waitPort_frontend hwait] at hdown
    exact .inr ⟨s₂.frontend, .inr hdown, rfl⟩

/-- A call is a request for a speed, or does what it does to the frontend alone. -/
theorem sessionCall_cases {call : CxpCall} (h : sessionCall s call = some (s', ret)) :
    (∃ p speed, call = .dataPathSpeed p speed ∧ sessionSetPortDataPathSpeed s p speed = some (s', ret)) ∨
      ((∀ p speed, call ≠ .dataPathSpeed p speed) ∧ s' = s.update (fun f => (cxpCall f call).1) ∧
        ret = (cxpCall s.frontend call).2) := by
  have hother : (∀ p speed, call ≠ .dataPathSpeed p speed) →
      some (s.update fun f => (cxpCall f call).1, (cxpCall s.frontend call).2) = some (s', ret) →
      (∀ p speed, call ≠ .dataPathSpeed p speed) ∧ s' = s.update (fun f => (cxpCall f call).1) ∧
        ret = (cxpCall s.frontend call).2 := by
    intro hspeed h
    obtain ⟨hs', hret⟩ := Prod.mk.inj (Option.some.inj h)
    exact ⟨hspeed, hs'.symm, hret.symm⟩
  cases call with
  | dataPathSpeed p speed => exact .inl ⟨p, speed, rfl, h⟩
  | powerState | dataPathState | standardVersion | ledState | acquisitionState | cameraDownscaling
  | imageStreamId | portMapIndex | loadApplet => exact .inr (hother (by simp) h)

/-! ## A board that always answers the same -/

/-- All reads to come give the word that the register interface has for the status register. -/
def SteadyStatus (s : CxpSession) : Prop :=
  ∀ read ∈ s.reads, read.status = s.frontend.ri.read REG_CXP_DATA_PATH_STATUS

theorem waitResult_steady : waitResult (f.ri.read REG_CXP_DATA_PATH_STATUS) p =
    cxpWaitPortDataPathSpeedChangeDone f p := by
  rw [waitResult, portReady, cxpWaitPortDataPathSpeedChangeDone]
  by_cases hready : f.ri.read REG_CXP_DATA_PATH_STATUS &&& 0x1#32 <<< p = 0x1#32 <<< p
  · rw [if_pos (decide_eq_true hready), if_neg (not_not.mpr hready)]
  · rw [if_neg (by simpa using hready), if_pos hready]

theorem waitPort_steady (hs : SteadyStatus s) (h : waitPortDataPathSpeedChangeDone s p = some (s', ret)) :
    ret = cxpWaitPortDataPathSpeedChangeDone s.frontend p ∧ s'.frontend = s.frontend ∧ SteadyStatus s' := by
  obtain ⟨words, last, hreads, -, hret, hf, -⟩ := waitReads_eq_some h
  have hlast := hs last (hreads ▸ List.mem_append_right _ List.mem_cons_self)
  rw [hlast, waitResult_steady] at hret
  refine ⟨hret, hf, ?_⟩
  intro read hmem
  rw [hf]
  exact hs read (hreads ▸ List.mem_append_right _ (List.mem_cons_of_mem _ hmem))

theorem changeDownlink_steady (hs : SteadyStatus s) (h : changeDownlink s p speed = some (s', ret)) :
    ret = cxpWaitPortDataPathSpeedChangeDone s.frontend p ∧ SteadyStatus s' := by
  obtain ⟨s₁, hwait, rfl⟩ := changeDownlink_eq_some h
  have hs₀ : SteadyStatus ((s.update fun f => writeDownlink f p speed).record (.bitrateWritten p)) := hs
  obtain ⟨hret, -, hsteady⟩ := waitPort_steady hs₀ hwait
  refine ⟨hret, ?_⟩
  split_ifs
  · exact hsteady
  · exact hsteady

/-- With such a board the speed setter is the one that asks the register interface. -/
theorem sessionSetPortDataPathSpeed_steady (hs : SteadyStatus s)
    (h : sessionSetPortDataPathSpeed s p speed = some (s', ret)) :
    cxpSetPortDataPathSpeed s.frontend p speed = (s'.frontend, ret) ∧ SteadyStatus s' := by
  unfold sessionSetPortDataPathSpeed at h
  unfold cxpSetPortDataPathSpeed
  by_cases hp : s.frontend.numPorts ≤ p
  · rw [if_pos hp] at h ⊢
    obtain ⟨rfl, rfl⟩ := Prod.mk.inj (Option.some.inj h)
    exact ⟨rfl, hs⟩
  by_cases hspeed : speed = .unknown ∨ speed = .speed1000
  · rw [if_neg hp, if_pos hspeed] at h ⊢
    obtain ⟨rfl, rfl⟩ := Prod.mk.inj (Option.some.inj h)
    exact ⟨rfl, hs⟩
  rw [if_neg hp, if_neg hspeed] at h ⊢
  dsimp only at h ⊢
  by_cases hcaches : speed ≠ (s.frontend.ports p).dataPathDwSpeedCache ∨
      dataPathUpSpeed speed ≠ (s.frontend.ports (s.frontend.logicalPort p)).dataPathUpSpeedCache
  · rw [if_pos hcaches] at h ⊢
    obtain ⟨⟨s₁, ret₁⟩, hwait, h⟩ := Option.bind_eq_some_iff.mp h
    obtain ⟨hret₁, hf, hs₁⟩ := waitPort_steady hs hwait
    dsimp only at h
    by_cases hok : ret₁ = .ok
    · rw [if_pos hok] at h
      rw [if_pos (hret₁ ▸ hok)]
      obtain ⟨⟨s₂, ret₂⟩, hdown, h⟩ := Option.map_eq_some_iff.mp h
      by_cases hdw : speed ≠ (s₁.frontend.ports p).dataPathDwSpeedCache
      · rw [if_pos hdw] at hdown
        rw [hf] at hdw
        obtain ⟨hret₂, hs₂⟩ := changeDownlink_steady hs₁ hdown
        have hf₂ := changeDownlink_frontend hdown
        rw [hf, writeDownlink] at hf₂
        rw [hf] at hret₂
        dsimp only at h
        rw [hf₂] at h
        rw [if_pos hdw]
        dsimp only
        split_ifs at h ⊢
        · obtain ⟨rfl, rfl⟩ := Prod.mk.inj h
          refine ⟨?_, hs₂⟩
          rw [CxpSession.update, hf₂, hret₂]
          rfl
        · obtain ⟨rfl, rfl⟩ := Prod.mk.inj h
          refine ⟨?_, hs₂⟩
          rw [hf₂, hret₂]
          rfl
      · rw [if_neg hdw] at hdown
        rw [hf] at hdw
        obtain ⟨rfl, rfl⟩ := Prod.mk.inj (Option.some.inj hdown)
        dsimp only at h
        rw [hf] at h
        rw [if_neg hdw]
        dsimp only
        split_ifs at h ⊢
        · obtain ⟨rfl, rfl⟩ := Prod.mk.inj h
          refine ⟨?_, hs₁⟩
          rw [CxpSession.update, hf, hret₁]
        · obtain ⟨rfl, rfl⟩ := Prod.mk.inj h
          exact ⟨by rw [hf, hret₁], hs₁⟩
    · rw [if_neg hok] at h
      rw [if_neg (hret₁ ▸ hok)]
      obtain ⟨rfl, rfl⟩ := Prod.mk.inj (Option.some.inj h)
      exact ⟨by rw [hf, hret₁], hs₁⟩
  · rw [if_neg hcaches] at h ⊢
    obtain ⟨rfl, rfl⟩ := Prod.mk.inj (Option.some.inj h)
    exact ⟨rfl, hs⟩

theorem sessionCall_steady {call : CxpCall} (hs : SteadyStatus s) (h : sessionCall s call = some (s', ret)) :
    cxpCall s.frontend call = (s'.frontend, ret) ∧ SteadyStatus s' := by
  rcases sessionCall_cases h with ⟨p, speed, rfl, h⟩ | ⟨-, rfl, rfl⟩
  · exact sessionSetPortDataPathSpeed_steady hs h
  · refine ⟨rfl, ?_⟩
    intro read hmem
    have hin := (cxpCall_keeps s.frontend call).2
    rw [hs read hmem, RegisterInterface.read, RegisterInterface.read]
    exact (congrFun hin _).symm

/-- So a command that returns does what it does to the frontend alone. -/
theorem callSteps_steady (calls : List CxpCall) : ∀ s : CxpSession, SteadyStatus s → ∀ s',
    (callSteps sessionCall s calls).2 = some s' → s'.frontend = cxpCalls s.frontend calls ∧
      SteadyStatus s' := by
  induction calls with
  | nil =>
    intro s hs s' h
    obtain rfl := Option.some.inj h
    exact ⟨rfl, hs⟩
  | cons call calls ih =>
    intro s hs s' h
    rw [callSteps] at h
    cases hcall : sessionCall s call with
    | none =>
      rw [hcall] at h
      cases h
    | some r =>
      rw [hcall] at h
      obtain ⟨hfirst, hs₁⟩ := sessionCall_steady hs hcall
      obtain ⟨hrest, hs'⟩ := ih r.1 hs₁ s' h
      refine ⟨?_, hs'⟩
      rw [hrest, cxpCalls, cxpCalls, List.foldl_cons, hfirst]

theorem command_steady (hs : SteadyStatus s) (command : CameraCommand)
    (h : (callSteps sessionCall s (callsOf s.frontend command)).2 = some s') :
    s'.frontend = (cxpExecuteCommand s.frontend command).1 ∧ SteadyStatus s' := by
  rw [← cxpExecuteCommand_calls]
  exact callSteps_steady _ s hs s' h

end MenableDriver
