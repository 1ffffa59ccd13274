import MenableDriver.Irq.Alarms

/-!
# The alarms of the microEnable 6

`me6_level_irq` records the alarms that the board raises, and two work items follow: one tells the
listeners and looks for the temperature alarm, the other acknowledges this alarm after a while.
Users acknowledge the other alarms. Every section under `notification_data_lock` is one event, and
so is every access between two of them. The handler may read any word from the status register.
-/

namespace MenableDriver

set_option autoImplicit false

open Transition (ofOption ofOption_ok Always)

abbrev ULong := BitVec 64

def ME6_ALARM_OVERTEMP : ULong := 0x1#64
def ME6_ALARM_SOFTWARE : ULong := 0x2#64
def ME6_ABACUS_ALARM_PHY_0_MGM : ULong := 0x4#64
def ME6_ABACUS_ALARM_PHY_1_MGM : ULong := 0x8#64
def ME6_ABACUS_ALARM_PHY_2_MGM : ULong := 0x10#64
def ME6_ABACUS_ALARM_PHY_3_MGM : ULong := 0x20#64
def ME6_ABACUS_ALARM_POE_FAULT : ULong := 0x40#64

def DEVCTRL_DEVICE_ALARM_TEMPERATURE : ULong := 0x00000001#64
def DEVCTRL_DEVICE_ALARM_PHY_0 : ULong := 0x00000100#64
def DEVCTRL_DEVICE_ALARM_PHY_1 : ULong := 0x00000200#64
def DEVCTRL_DEVICE_ALARM_PHY_2 : ULong := 0x00000400#64
def DEVCTRL_DEVICE_ALARM_PHY_3 : ULong := 0x00000800#64
def DEVCTRL_DEVICE_ALARM_SOFTWARE : ULong := 0x80000000#64

def LONG_MAX : ULong := 0x7fffffffffffffff#64

/-- The two kinds of boards, which have different alarms. -/
inductive Me6Kind where
  | impulse | abacus
deriving DecidableEq

/-- `(value & mask) ? flag : 0x0` -/
def flagIf (value mask flag : ULong) : ULong := if value &&& mask ≠ 0 then flag else 0

def alarmsToEventPl (kind : Me6Kind) (alarms : ULong) : ULong :=
  let pl := flagIf alarms ME6_ALARM_OVERTEMP DEVCTRL_DEVICE_ALARM_TEMPERATURE |||
    flagIf alarms ME6_ALARM_SOFTWARE DEVCTRL_DEVICE_ALARM_SOFTWARE
  match kind with
  | .impulse => pl
  | .abacus => pl ||| flagIf alarms ME6_ABACUS_ALARM_PHY_0_MGM DEVCTRL_DEVICE_ALARM_PHY_0 |||
      flagIf alarms ME6_ABACUS_ALARM_PHY_1_MGM DEVCTRL_DEVICE_ALARM_PHY_1 |||
      flagIf alarms ME6_ABACUS_ALARM_PHY_2_MGM DEVCTRL_DEVICE_ALARM_PHY_2 |||
      flagIf alarms ME6_ABACUS_ALARM_PHY_3_MGM DEVCTRL_DEVICE_ALARM_PHY_3 |||
      flagIf alarms ME6_ABACUS_ALARM_POE_FAULT DEVCTRL_DEVICE_ALARM_POE

def eventPlToAlarms (kind : Me6Kind) (pl : ULong) : ULong :=
  let alarms := flagIf pl DEVCTRL_DEVICE_ALARM_TEMPERATURE ME6_ALARM_OVERTEMP |||
    flagIf pl DEVCTRL_DEVICE_ALARM_SOFTWARE ME6_ALARM_SOFTWARE
  match kind with
  | .impulse => alarms
  | .abacus => alarms ||| flagIf pl DEVCTRL_DEVICE_ALARM_PHY (ME6_ABACUS_ALARM_PHY_0_MGM |||
        ME6_ABACUS_ALARM_PHY_1_MGM ||| ME6_ABACUS_ALARM_PHY_2_MGM ||| ME6_ABACUS_ALARM_PHY_3_MGM) |||
      flagIf pl DEVCTRL_DEVICE_ALARM_PHY_0 ME6_ABACUS_ALARM_PHY_0_MGM |||
      flagIf pl DEVCTRL_DEVICE_ALARM_PHY_1 ME6_ABACUS_ALARM_PHY_1_MGM |||
      flagIf pl DEVCTRL_DEVICE_ALARM_PHY_2 ME6_ABACUS_ALARM_PHY_2_MGM |||
      flagIf pl DEVCTRL_DEVICE_ALARM_PHY_3 ME6_ABACUS_ALARM_PHY_3_MGM |||
      flagIf pl DEVCTRL_DEVICE_ALARM_POE ME6_ABACUS_ALARM_POE_FAULT

/-- What `me6_startirq` enables. -/
def knownAlarms (kind : Me6Kind) : ULong := eventPlToAlarms kind 0xffffffff#64

/-- The part of `struct me6_data` that belongs to the notifications. -/
structure Me6Data where
  notifications : ULong := 0
  notificationTimeStamp : ULong := 0
  alarmsStatus : ULong := 0
  alarmsEnabled : ULong := 0
  temperatureAlarmPeriod : BitVec 32 := 1000

/-- `irq_notification_work` behind the listeners, or behind its look at the alarms. -/
inductive NotificationWorkPc where
  | completed
  | looked (temperature : Bool)

/-- The data with the last word written to `ME6_REG_IRQ_ALARMS_ENABLE`, the handler between its
read and its section, and the work items: whether one is scheduled, and whether it runs. A number
of calls may have cancelled the temperature work that they are about to schedule again. `recorded`
counts the interrupts; `started` holds from `me6_startirq` to the next `me6_stopirq`. -/
structure Me6Alarms where
  d6 : Me6Data := {}
  alarmsEnable : ULong := 0
  recorded : Nat := 0
  started : Bool := false
  irq : Option (BitVec 32) := none
  notificationWork : Bool := false
  notificationRun : Option NotificationWorkPc := none
  temperatureWork : Bool := false
  temperatureRun : Bool := false
  rescheduling : Nat := 0

namespace Me6Alarms

/-- `me6_ack_alarms` -/
def ackAlarms (a : Me6Alarms) (alarms : ULong) : Me6Alarms :=
  let status := a.d6.alarmsStatus &&& ~~~alarms
  let enabled := a.d6.alarmsEnabled ||| alarms
  { a with
    d6 := { a.d6 with
      alarmsStatus := status
      notifications := if status = 0 then a.d6.notifications &&& ~~~NOTIFICATION_DEVICE_ALARM
        else a.d6.notifications
      alarmsEnabled := enabled }
    alarmsEnable := enabled }

/-- The section of `me6_level_irq`. -/
def record (a : Me6Alarms) (status : BitVec 32) : Me6Alarms :=
  { a with
    d6 := { a.d6 with
      alarmsEnabled := a.d6.alarmsEnabled &&& ~~~status.setWidth 64
      alarmsStatus := a.d6.alarmsStatus ||| status.setWidth 64
      notifications := a.d6.notifications ||| NOTIFICATION_DEVICE_ALARM
      notificationTimeStamp := a.d6.notificationTimeStamp + 1 }
    recorded := a.recorded + 1
    irq := none
    notificationWork := true }

/-- The sections of `me6_startirq` and `me6_stopirq`, and what `init_peripherals` writes. -/
def enable (a : Me6Alarms) (alarms : ULong) : Me6Alarms :=
  { a with d6 := { a.d6 with alarmsEnabled := alarms }, alarmsEnable := alarms }

end Me6Alarms

/-- `resetPeriod`, `reschedule` and `ack` are the parts of `DEVCTRL_RESET_ASYNC_NOTIFY`, which leaves
the temperature alarm to its work. `me6_stopirq` has three parts too: it cancels this work or waits
for it, disables the alarms, and cancels the work once more. -/
inductive Me6AlarmEvent where
  | irqRead (status : BitVec 32)
  | irqRecord
  | notificationStart
  | notificationLook
  | notificationEnd
  | temperatureStart
  | temperatureAck
  | resetPeriod (ph : ULong)
  | reschedule
  | ack (pl : ULong)
  | initPeripherals
  | startIrq
  | stopIrqFlush
  | stopIrqDisable
  | stopIrqCancel
deriving DecidableEq

def me6AlarmStep (kind : Me6Kind) (a : Me6Alarms) : Me6AlarmEvent → Option Me6Alarms
  | .irqRead status =>
    if a.irq = none then some { a with irq := if status ≠ 0 then some status else none } else none
  | .irqRecord => do
    let status ← a.irq
    some (a.record status)
  | .notificationStart =>
    if a.notificationWork ∧ a.notificationRun.isNone then
      some { a with notificationWork := false, notificationRun := some .completed }
    else none
  | .notificationLook =>
    match a.notificationRun with
    | some .completed =>
      let overtemp := eventPlToAlarms kind DEVCTRL_DEVICE_ALARM_TEMPERATURE
      some { a with notificationRun := some (.looked (decide (a.d6.alarmsStatus &&& overtemp ≠ 0))) }
    | _ => none
  | .notificationEnd =>
    match a.notificationRun with
    | some (.looked temperature) =>
      some { a with notificationRun := none, temperatureWork := a.temperatureWork || temperature }
    | _ => none
  | .temperatureStart =>
    if a.temperatureWork ∧ a.temperatureRun = false then
      some { a with temperatureWork := false, temperatureRun := true }
    else none
  | .temperatureAck =>
    if a.temperatureRun then
      some { a.ackAlarms (eventPlToAlarms kind DEVCTRL_DEVICE_ALARM_TEMPERATURE) with temperatureRun := false }
    else none
  | .resetPeriod ph =>
    if ph ≠ 0 ∧ ph < LONG_MAX then
      some { a with
        d6 := { a.d6 with temperatureAlarmPeriod := ph.setWidth 32 }
        temperatureWork := false
        rescheduling := if a.temperatureWork then a.rescheduling + 1 else a.rescheduling }
    else some a
  | .reschedule =>
    if 0 < a.rescheduling then some { a with temperatureWork := true, rescheduling := a.rescheduling - 1 }
    else none
  | .ack pl =>
    let alarms := eventPlToAlarms kind (pl &&& ~~~DEVCTRL_DEVICE_ALARM_TEMPERATURE)
    some (if alarms ≠ 0 then a.ackAlarms alarms else a)
  | .initPeripherals => if a.started then none else some (a.enable ME6_ALARM_SOFTWARE)
  | .startIrq => some { a.enable (knownAlarms kind) with started := true }
  | .stopIrqFlush =>
    if a.temperatureWork ∨ a.temperatureRun = false then some { a with temperatureWork := false, started := false }
    else none
  | .stopIrqDisable => if a.started then none else some (a.enable 0)
  | .stopIrqCancel => if a.started then none else some { a with temperatureWork := false }

/-! ### The words of the user -/

section Words
variable {kind : Me6Kind}

theorem and_flag (value : ULong) {mask : ULong} {k : Nat} (hk : mask = BitVec.twoPow 64 k) :
    value &&& mask = if value.getLsbD k then mask else 0 := by
  subst hk
  exact BitVec.and_twoPow value k

theorem flagIf_eq (value : ULong) {mask : ULong} {k : Nat} (hk : mask = BitVec.twoPow 64 k) (hne : mask ≠ 0)
    (flag : ULong) : flagIf value mask flag = if value.getLsbD k then flag else 0 := by
  unfold flagIf
  rw [and_flag value hk]
  cases value.getLsbD k with
  | false => rfl
  | true => exact if_pos hne

/-- A reply names the alarms that the board has, and no others. -/
theorem eventPlToAlarms_alarmsToEventPl (kind : Me6Kind) (alarms : ULong) :
    eventPlToAlarms kind (alarmsToEventPl kind alarms) = alarms &&& knownAlarms kind := by
  have hknown : knownAlarms kind = match kind with
      | .impulse => ME6_ALARM_OVERTEMP ||| ME6_ALARM_SOFTWARE
      | .abacus => ME6_ALARM_OVERTEMP ||| ME6_ALARM_SOFTWARE ||| ME6_ABACUS_ALARM_PHY_0_MGM |||
          ME6_ABACUS_ALARM_PHY_1_MGM ||| ME6_ABACUS_ALARM_PHY_2_MGM ||| ME6_ABACUS_ALARM_PHY_3_MGM |||
          ME6_ABACUS_ALARM_POE_FAULT := by
    cases kind <;> decide
  have hovertemp : ME6_ALARM_OVERTEMP = BitVec.twoPow 64 0 := by decide
  have hsoftware : ME6_ALARM_SOFTWARE = BitVec.twoPow 64 1 := by decide
  have hphy0 : ME6_ABACUS_ALARM_PHY_0_MGM = BitVec.twoPow 64 2 := by decide
  have hphy1 : ME6_ABACUS_ALARM_PHY_1_MGM = BitVec.twoPow 64 3 := by decide
  have hphy2 : ME6_ABACUS_ALARM_PHY_2_MGM = BitVec.twoPow 64 4 := by decide
  have hphy3 : ME6_ABACUS_ALARM_PHY_3_MGM = BitVec.twoPow 64 5 := by decide
  have hpoe : ME6_ABACUS_ALARM_POE_FAULT = BitVec.twoPow 64 6 := by decide
  rw [hknown]
  cases kind with
  | impulse =>
    simp only [alarmsToEventPl, flagIf_eq alarms hovertemp (by decide), flagIf_eq alarms hsoftware (by decide),
      BitVec.and_or_distrib_left, and_flag alarms hovertemp, and_flag alarms hsoftware]
    generalize alarms.getLsbD 0 = overtemp
    generalize alarms.getLsbD 1 = software
    revert overtemp software
    decide
  | abacus =>
    simp only [alarmsToEventPl, flagIf_eq alarms hovertemp (by decide), flagIf_eq alarms hsoftware (by decide),
      flagIf_eq alarms hphy0 (by decide), flagIf_eq alarms hphy1 (by decide), flagIf_eq alarms hphy2 (by decide),
      flagIf_eq alarms hphy3 (by decide), flagIf_eq alarms hpoe (by decide), BitVec.and_or_distrib_left,
      and_flag alarms hovertemp, and_flag alarms hsoftware, and_flag alarms hphy0, and_flag alarms hphy1,
      and_flag alarms hphy2, and_flag alarms hphy3, and_flag alarms hpoe]
    generalize alarms.getLsbD 0 = overtemp
    generalize alarms.getLsbD 1 = software
    generalize alarms.getLsbD 2 = phy0
    generalize alarms.getLsbD 3 = phy1
    generalize alarms.getLsbD 4 = phy2
    generalize alarms.getLsbD 5 = phy3
    generalize alarms.getLsbD 6 = poe
    revert overtemp software phy0 phy1 phy2 phy3 poe
    decide +kernel

end Words

/-! ### What holds in every run -/

/-- The temperature alarm will be enabled again: one of the work items that lead to it is scheduled
or runs. -/
def TemperatureOnItsWay (a : Me6Alarms) : Prop :=
  a.notificationWork = true ∨ (∃ pc, a.notificationRun = some pc ∧ ∀ b, pc = .looked b → b = true) ∨
    a.temperatureWork = true ∨ a.temperatureRun = true ∨ 0 < a.rescheduling

/-- The users hear of an alarm as long as one is pending, and the register enables what the driver
takes for enabled. While the interrupts are on, every alarm of the board is enabled or pending, and
the temperature alarm does not stay disabled. -/
structure Me6AlarmsKept (kind : Me6Kind) (a : Me6Alarms) : Prop where
  irq : ∀ status, a.irq = some status → status ≠ 0
  quiet : a.d6.alarmsStatus = 0 → a.d6.notifications = 0
  notified : a.d6.alarmsStatus ≠ 0 → a.d6.notifications = NOTIFICATION_DEVICE_ALARM
  stamp : a.d6.notificationTimeStamp = BitVec.ofNat 64 a.recorded
  written : ∀ i, a.d6.alarmsEnabled.getLsbD i = true → a.alarmsEnable.getLsbD i = true
  armed : a.started = true → ∀ i, (knownAlarms kind).getLsbD i = true →
    a.d6.alarmsEnabled.getLsbD i = true ∨ a.d6.alarmsStatus.getLsbD i = true
  temperature : a.started = true → a.d6.alarmsEnabled &&& ME6_ALARM_OVERTEMP = 0 → TemperatureOnItsWay a

section Steps
variable {kind : Me6Kind} {a t : Me6Alarms} {e : Me6AlarmEvent}

theorem overtemp_eq (kind : Me6Kind) :
    eventPlToAlarms kind DEVCTRL_DEVICE_ALARM_TEMPERATURE = ME6_ALARM_OVERTEMP := by
  cases kind <;> decide

theorem overtemp_known (kind : Me6Kind) : (knownAlarms kind).getLsbD 0 = true := by
  cases kind <;> decide

theorem overtemp_off (x : ULong) : x &&& ME6_ALARM_OVERTEMP = 0 ↔ x.getLsbD 0 = false := by
  rw [and_flag x (show ME6_ALARM_OVERTEMP = BitVec.twoPow 64 0 by decide)]
  cases x.getLsbD 0 with
  | false => exact iff_of_true rfl rfl
  | true => exact iff_of_false (by decide) (by decide)

theorem ackAlarms_kept (h : Me6AlarmsKept kind a) (alarms : ULong) : Me6AlarmsKept kind (a.ackAlarms alarms) := by
  constructor
  · exact h.irq
  · intro hnew
    have hset : (a.ackAlarms alarms).d6.notifications = a.d6.notifications &&& ~~~NOTIFICATION_DEVICE_ALARM :=
      if_pos hnew
    rw [hset]
    by_cases hold : a.d6.alarmsStatus = 0
    · rw [h.quiet hold]
      decide
    · rw [h.notified hold]
      decide
  · intro hnew
    have hset : (a.ackAlarms alarms).d6.notifications = a.d6.notifications := if_neg hnew
    rw [hset]
    refine h.notified fun hold => hnew ?_
    simp only [Me6Alarms.ackAlarms, hold]
    exact BitVec.zero_and
  · exact h.stamp
  · exact fun i hi => hi
  · intro hs i hi
    simp only [Me6Alarms.ackAlarms, BitVec.getLsbD_or, BitVec.getLsbD_and, BitVec.getLsbD_not]
    have hlt := BitVec.lt_of_getLsbD hi
    cases halarm : alarms.getLsbD i with
    | true => exact .inl (Bool.or_true _)
    | false =>
      rcases h.armed hs i hi with hon | hpending
      · exact .inl (by rw [hon]; rfl)
      · exact .inr (by simp [hpending, hlt])
  · intro hs hoff
    refine h.temperature hs ?_
    rw [overtemp_off] at hoff ⊢
    simp only [Me6Alarms.ackAlarms, BitVec.getLsbD_or, Bool.or_eq_false_iff] at hoff
    exact hoff.1

/-- An acknowledge with the temperature alarm enables it. -/
theorem ackAlarms_overtemp (a : Me6Alarms) :
    (a.ackAlarms ME6_ALARM_OVERTEMP).d6.alarmsEnabled &&& ME6_ALARM_OVERTEMP ≠ 0 := by
  rw [ne_eq, overtemp_off]
  simp only [Me6Alarms.ackAlarms, BitVec.getLsbD_or]
  rw [show ME6_ALARM_OVERTEMP.getLsbD 0 = true by decide, Bool.or_true]
  decide

theorem record_kept (h : Me6AlarmsKept kind a) {status : BitVec 32} (hirq : a.irq = some status) :
    Me6AlarmsKept kind (a.record status) := by
  have hne := h.irq status hirq
  constructor
  · intro status' hnone
    cases hnone
  · intro hzero
    have hnone : status.setWidth 64 = 0#64 := (BitVec.or_eq_zero_iff.mp hzero).2
    refine absurd (BitVec.eq_of_toNat_eq ?_) hne
    have hnat := congrArg BitVec.toNat hnone
    have hlt := status.isLt
    rw [BitVec.toNat_setWidth, Nat.mod_eq_of_lt (by omega)] at hnat
    exact hnat
  · intro _
    have hset : (a.record status).d6.notifications = a.d6.notifications ||| NOTIFICATION_DEVICE_ALARM := rfl
    rw [hset]
    by_cases hold : a.d6.alarmsStatus = 0
    · rw [h.quiet hold]
      decide
    · rw [h.notified hold]
      decide
  · simp only [Me6Alarms.record, h.stamp]
    exact (BitVec.ofNat_add a.recorded 1).symm
  · intro i hi
    simp only [Me6Alarms.record, BitVec.getLsbD_and, Bool.and_eq_true] at hi
    exact h.written i hi.1
  · intro hs i hi
    have hlt := BitVec.lt_of_getLsbD hi
    simp only [Me6Alarms.record, BitVec.getLsbD_or, BitVec.getLsbD_and, BitVec.getLsbD_not]
    cases hraised : (status.setWidth 64).getLsbD i with
    | true => exact .inr (Bool.or_true _)
    | false =>
      rcases h.armed hs i hi with hon | hpending
      · exact .inl (by simp [hon, hlt])
      · exact .inr (by rw [hpending]; rfl)
  · exact fun _ _ => .inl rfl

theorem enable_kept (h : Me6AlarmsKept kind a) (hs : a.started = false) (alarms : ULong) :
    Me6AlarmsKept kind (a.enable alarms) :=
  ⟨h.irq, h.quiet, h.notified, h.stamp, fun _ hi => hi, fun hon => absurd (hs.symm.trans hon) (by decide),
    fun hon => absurd (hs.symm.trans hon) (by decide)⟩

/-- The work items may change while the alarms stay as they are. -/
theorem Me6AlarmsKept.works (h : Me6AlarmsKept kind a) (hirq : t.irq = a.irq)
    (hnotifications : t.d6.notifications = a.d6.notifications)
    (hstamp : t.d6.notificationTimeStamp = a.d6.notificationTimeStamp) (hrecorded : t.recorded = a.recorded)
    (hstatus : t.d6.alarmsStatus = a.d6.alarmsStatus) (henabled : t.d6.alarmsEnabled = a.d6.alarmsEnabled)
    (henable : t.alarmsEnable = a.alarmsEnable) (hstarted : t.started = true → a.started = true)
    (hway : t.started = true → t.d6.alarmsEnabled &&& ME6_ALARM_OVERTEMP = 0 → TemperatureOnItsWay a →
      TemperatureOnItsWay t) : Me6AlarmsKept kind t := by
  constructor
  · rw [hirq]
    exact h.irq
  · rw [hstatus, hnotifications]
    exact h.quiet
  · rw [hstatus, hnotifications]
    exact h.notified
  · rw [hstamp, hrecorded]
    exact h.stamp
  · rw [henabled, henable]
    exact h.written
  · intro hs
    rw [henabled, hstatus]
    exact h.armed (hstarted hs)
  · intro hs hoff
    exact hway hs hoff (h.temperature (hstarted hs) (henabled ▸ hoff))

theorem me6AlarmStep_kept (h : Me6AlarmsKept kind a) (he : me6AlarmStep kind a e = some t) :
    Me6AlarmsKept kind t := by
  cases e with
  | irqRead status =>
    simp only [me6AlarmStep] at he
    split at he
    · cases he
      refine ⟨fun status' hread => ?_, h.quiet, h.notified, h.stamp, h.written, h.armed, h.temperature⟩
      dsimp only at hread
      split at hread
      · rename_i hne
        cases hread
        exact hne
      · cases hread
    · cases he
  | irqRecord =>
    obtain ⟨status, hirq, hset⟩ := Option.bind_eq_some_iff.mp he
    cases hset
    exact record_kept h hirq
  | notificationStart =>
    simp only [me6AlarmStep] at he
    split at he
    · cases he
      refine h.works rfl rfl rfl rfl rfl rfl rfl id fun _ _ _ => .inr (.inl ⟨_, rfl, ?_⟩)
      intro b hb
      cases hb
    · cases he
  | notificationLook =>
    simp only [me6AlarmStep] at he
    split at he
    · cases he
      refine h.works rfl rfl rfl rfl rfl rfl rfl id fun hs hoff _ => .inr (.inl ⟨_, rfl, ?_⟩)
      intro b hb
      cases hb
      -- what is not enabled is pending, and the work sees it
      have harmed := h.armed hs 0 (overtemp_known kind)
      rw [overtemp_eq]
      refine decide_eq_true fun hnone => ?_
      rcases harmed with hon | hpending
      · rw [(overtemp_off _).mp hoff] at hon
        cases hon
      · rw [(overtemp_off _).mp hnone] at hpending
        cases hpending
    · cases he
  | notificationEnd =>
    simp only [me6AlarmStep] at he
    split at he
    · rename_i temperature hrun
      cases he
      refine h.works rfl rfl rfl rfl rfl rfl rfl id fun _ _ hway => ?_
      rcases hway with hwork | ⟨pc, hpc, hlooked⟩ | hrest
      · exact .inl hwork
      · rw [hrun] at hpc
        cases hpc
        have htrue : temperature = true := hlooked temperature rfl
        exact .inr (.inr (.inl (by simp only [htrue, Bool.or_true])))
      · rcases hrest with hwork | hrest
        · exact .inr (.inr (.inl (by simp only [hwork, Bool.true_or])))
        · exact .inr (.inr (.inr hrest))
    · cases he
  | temperatureStart =>
    simp only [me6AlarmStep] at he
    split at he
    · cases he
      exact h.works rfl rfl rfl rfl rfl rfl rfl id fun _ _ _ => .inr (.inr (.inr (.inl rfl)))
    · cases he
  | temperatureAck =>
    simp only [me6AlarmStep] at he
    split at he
    · cases he
      rw [overtemp_eq]
      have hkept := ackAlarms_kept h ME6_ALARM_OVERTEMP
      exact ⟨hkept.irq, hkept.quiet, hkept.notified, hkept.stamp, hkept.written, hkept.armed,
        fun _ hoff => absurd hoff (ackAlarms_overtemp a)⟩
    · cases he
  | resetPeriod ph =>
    simp only [me6AlarmStep] at he
    split at he
    · cases he
      refine h.works rfl rfl rfl rfl rfl rfl rfl id fun _ _ hway => ?_
      rcases hway with hwork | hrun | hwork | hrun | hcount
      · exact .inl hwork
      · exact .inr (.inl hrun)
      · refine .inr (.inr (.inr (.inr ?_)))
        simp only [hwork, if_true]
        exact Nat.succ_pos _
      · exact .inr (.inr (.inr (.inl hrun)))
      · refine .inr (.inr (.inr (.inr ?_)))
        dsimp only
        split
        · exact Nat.succ_pos _
        · exact hcount
    · cases he
      exact h
  | reschedule =>
    simp only [me6AlarmStep] at he
    split at he
    · cases he
      exact h.works rfl rfl rfl rfl rfl rfl rfl id fun _ _ _ => .inr (.inr (.inl rfl))
    · cases he
  | ack pl =>
    simp only [me6AlarmStep, Option.some.injEq] at he
    subst he
    split
    · exact ackAlarms_kept h _
    · exact h
  | initPeripherals =>
    simp only [me6AlarmStep] at he
    split at he
    · cases he
    · rename_i hs
      cases he
      exact enable_kept h (Bool.eq_false_iff.mpr hs) ME6_ALARM_SOFTWARE
  | startIrq =>
    cases he
    refine ⟨h.irq, h.quiet, h.notified, h.stamp, fun _ hi => hi, fun _ i hi => .inl hi, fun _ hoff => ?_⟩
    have hon : (knownAlarms kind).getLsbD 0 = false := (overtemp_off _).mp hoff
    rw [overtemp_known] at hon
    cases hon
  | stopIrqFlush =>
    simp only [me6AlarmStep] at he
    split at he
    · cases he
      exact h.works rfl rfl rfl rfl rfl rfl rfl (fun hs => Bool.noConfusion hs) fun hs => Bool.noConfusion hs
    · cases he
  | stopIrqDisable =>
    simp only [me6AlarmStep] at he
    split at he
    · cases he
    · rename_i hs
      cases he
      exact enable_kept h (Bool.eq_false_iff.mpr hs) 0
  | stopIrqCancel =>
    simp only [me6AlarmStep] at he
    split at he
    · cases he
    · rename_i hs
      cases he
      exact h.works rfl rfl rfl rfl rfl rfl rfl id fun hon => absurd hon hs

end Steps

theorem me6Alarms_start (kind : Me6Kind) : Me6AlarmsKept kind {} :=
  ⟨fun _ h => (by cases h), fun _ => rfl, fun h => absurd rfl h, rfl, fun _ hi => hi,
    fun h => Bool.noConfusion h, fun h => Bool.noConfusion h⟩

end MenableDriver
