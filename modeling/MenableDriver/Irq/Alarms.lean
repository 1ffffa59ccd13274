import MenableDriver.Transition.Run

/-!
# The alarms of the microEnable 5

A raised alarm is recorded in `irq_alarms_status` and taken out of `irq_wanted` until it is
acknowledged. The handler and the acknowledge each do this in two sections, under different
locks; every section is an event. The handler may read any word from the status register.
-/

namespace MenableDriver

set_option autoImplicit false

open Transition (ofOption ofOption_ok run Meets Always always_iff_meets meets_of_check exists_of_check)

def INT_MASK_ALARMS : BitVec 32 := 0x0000BF00#32
def INT_MASK_ACTION_CMD_LOST : BitVec 64 := 0x00000F00#64
def INT_MASK_PHY_MANAGEMENT : BitVec 64 := 0x00001000#64
def INT_MASK_POE : BitVec 64 := 0x00002000#64
def INT_MASK_TEMPERATURE_ALARM : BitVec 64 := 0x00008000#64
def NOTIFICATION_DEVICE_ALARM : BitVec 64 := 0x08#64
def DEVCTRL_DEVICE_ALARM_PHY : BitVec 64 := 0x00000002#64
def DEVCTRL_DEVICE_ALARM_POE : BitVec 64 := 0x00000004#64
def DEVCTRL_DEVICE_ALARM_ACL_MASK : BitVec 64 := 0x000000F0#64

/-- The part of `struct me5_data` that belongs to the interrupts. -/
structure Me5Data where
  irqWanted : BitVec 32 := 0
  irqAlarmsStatus : BitVec 32 := 0
  notifications : BitVec 64 := 0
  notificationTimeStamp : BitVec 64 := 0
deriving DecidableEq

def me5StartIrq (d : Me5Data) (uiqcnt : Nat) : Me5Data :=
  { d with irqWanted := ((1#32 <<< uiqcnt) - 1) <<< 16 ||| INT_MASK_ALARMS }

/-- The first section of `me5_irq`: the status register without what is not wanted. The handler
returns here without an interrupt, and when the FPGA is dead. -/
def me5IrqSources (d : Me5Data) (sr : BitVec 32) : Option (BitVec 32) :=
  if sr = 0 ∨ sr = 0xffffffff#32 then none
  else
    let badmask := sr &&& ~~~d.irqWanted
    some (if badmask ≠ 0 then sr &&& d.irqWanted else sr)

/-- The section of `me5_irq` that records the alarms. It returns those to be disabled. -/
def me5IrqRecord (d : Me5Data) (st : BitVec 32) : Me5Data × BitVec 32 :=
  let status := d.irqAlarmsStatus ||| (st &&& d.irqWanted)
  (if status ≠ 0 then
    { d with
      irqAlarmsStatus := status
      notifications := d.notifications ||| NOTIFICATION_DEVICE_ALARM
      notificationTimeStamp := d.notificationTimeStamp + 1 }
  else { d with irqAlarmsStatus := status }, status)

def me5IrqDisable (d : Me5Data) (tmp : BitVec 32) : Me5Data :=
  { d with irqWanted := d.irqWanted &&& ~~~tmp }

/-- The two sections of `me5_irq_ack`. -/
def me5IrqAckEnable (d : Me5Data) (alarm : BitVec 64) : Me5Data :=
  { d with irqWanted := d.irqWanted ||| alarm.setWidth 32 }

def me5IrqAckClear (d : Me5Data) (alarm : BitVec 64) : Me5Data :=
  let status := d.irqAlarmsStatus &&& ~~~alarm.setWidth 32
  { d with
    irqAlarmsStatus := status
    notifications := if status = 0 then d.notifications &&& ~~~NOTIFICATION_DEVICE_ALARM
      else d.notifications }

/-- What `DEVCTRL_RESET_ASYNC_NOTIFY` acknowledges, one call after the other. The temperature
alarm is left to its work item. -/
def resetAsyncNotifyAlarms (pl : BitVec 64) : List (BitVec 64) :=
  (if pl &&& DEVCTRL_DEVICE_ALARM_PHY ≠ 0 then [INT_MASK_PHY_MANAGEMENT] else []) ++
  (if pl &&& DEVCTRL_DEVICE_ALARM_ACL_MASK ≠ 0 then
    [((pl &&& DEVCTRL_DEVICE_ALARM_ACL_MASK) <<< 4) &&& INT_MASK_ACTION_CMD_LOST] else []) ++
  (if pl &&& DEVCTRL_DEVICE_ALARM_POE ≠ 0 then [INT_MASK_POE] else [])

/-- The handler in front of its alarm sections, or between them. -/
inductive AlarmPc where
  | sources (st : BitVec 32)
  | recorded (tmp : BitVec 32)
deriving DecidableEq

/-- A context that acknowledges alarms: the current one, whether it is enabled again, and those
to come. -/
structure Acknowledger where
  alarm : BitVec 64
  enabled : Bool
  rest : List (BitVec 64)
deriving DecidableEq

def acknowledge : List (BitVec 64) → Option Acknowledger
  | [] => none
  | alarm :: rest => some ⟨alarm, false, rest⟩

structure AlarmSys where
  me5 : Me5Data := {}
  irq : Option AlarmPc := none
  acks : Nat → Option Acknowledger := fun _ => none

namespace AlarmSys

def setAck (s : AlarmSys) (k : Nat) (a : Option Acknowledger) : AlarmSys :=
  { s with acks := Function.update s.acks k a }

end AlarmSys

/-- `k` names the context of an acknowledge. The interrupt of a DMA channel is enabled and
disabled next to the alarms. -/
inductive AlarmEvent where
  | irqEnter (sr : BitVec 32)
  | irqRecord
  | irqDisable
  | resetAsyncNotify (k : Nat) (pl : BitVec 64)
  | temperatureAlarmWork (k : Nat)
  | ack (k : Nat)
  | startDma (enablebit : Fin 8)
  | stopDma (enablebit : Fin 8)
deriving DecidableEq

def alarmStep (s : AlarmSys) : AlarmEvent → Option AlarmSys
  | .irqEnter sr =>
    if s.irq = none then do
      let sr ← me5IrqSources s.me5 sr
      let st := sr &&& INT_MASK_ALARMS
      some { s with irq := if st ≠ 0 then some (.sources st) else none }
    else none
  | .irqRecord =>
    match s.irq with
    | some (.sources st) =>
      let (me5, tmp) := me5IrqRecord s.me5 st
      some { s with me5 := me5, irq := some (.recorded tmp) }
    | _ => none
  | .irqDisable =>
    match s.irq with
    | some (.recorded tmp) => some { s with me5 := me5IrqDisable s.me5 tmp, irq := none }
    | _ => none
  | .resetAsyncNotify k pl =>
    if s.acks k = none then some (s.setAck k (acknowledge (resetAsyncNotifyAlarms pl))) else none
  | .temperatureAlarmWork k =>
    if s.acks k = none then some (s.setAck k (acknowledge [INT_MASK_TEMPERATURE_ALARM])) else none
  | .ack k =>
    match s.acks k with
    | some ⟨alarm, false, rest⟩ =>
      some ({ s with me5 := me5IrqAckEnable s.me5 alarm }.setAck k (some ⟨alarm, true, rest⟩))
    | some ⟨alarm, true, rest⟩ =>
      some ({ s with me5 := me5IrqAckClear s.me5 alarm }.setAck k (acknowledge rest))
    | none => none
  | .startDma enablebit =>
    some { s with me5 := { s.me5 with irqWanted := s.me5.irqWanted ||| (1#32 <<< enablebit.val) } }
  | .stopDma enablebit =>
    some { s with me5 := { s.me5 with irqWanted := s.me5.irqWanted &&& ~~~(1#32 <<< enablebit.val) } }

/-- An alarm is enabled, or it is recorded. -/
def AlarmKept (d : Me5Data) (i : Nat) : Prop :=
  d.irqWanted.getLsbD i = true ∨ d.irqAlarmsStatus.getLsbD i = true

def AlarmsKept (s : AlarmSys) : Prop := ∀ i, INT_MASK_ALARMS.getLsbD i = true → AlarmKept s.me5 i

/-- Neither the handler nor an acknowledge is between its sections. -/
def Quiet (s : AlarmSys) : Prop := s.irq = none ∧ ∀ k, s.acks k = none

/-- The handler disables an alarm that was acknowledged since it was recorded, or an acknowledge
clears an alarm that was recorded and disabled since it was enabled. -/
def LosesAlarm (s : AlarmSys) : AlarmEvent → Prop
  | .irqDisable => ∃ tmp i, s.irq = some (.recorded tmp) ∧ INT_MASK_ALARMS.getLsbD i = true ∧
      tmp.getLsbD i = true ∧ s.me5.irqAlarmsStatus.getLsbD i = false
  | .ack k => ∃ alarm rest i, s.acks k = some ⟨alarm, true, rest⟩ ∧ INT_MASK_ALARMS.getLsbD i = true ∧
      alarm.getLsbD i = true ∧ s.me5.irqWanted.getLsbD i = false
  | _ => False

section Steps
variable {s t : AlarmSys} {e : AlarmEvent} {i : Nat}

theorem alarm_bit (h : INT_MASK_ALARMS.getLsbD i = true) : 8 ≤ i ∧ i < 32 := by
  refine ⟨?_, BitVec.lt_of_getLsbD h⟩
  by_contra hi
  have hall : ∀ j < 8, INT_MASK_ALARMS.getLsbD j = false := by decide
  rw [hall i (by omega)] at h
  cases h

theorem getLsbD_without (x y : BitVec 32) (hi : i < 32) :
    (x &&& ~~~y).getLsbD i = (x.getLsbD i && !y.getLsbD i) := by
  rw [BitVec.getLsbD_and, BitVec.getLsbD_not, decide_eq_true hi, Bool.true_and]

theorem getLsbD_alarm (alarm : BitVec 64) (hi : i < 32) :
    (alarm.setWidth 32).getLsbD i = alarm.getLsbD i := by
  rw [BitVec.getLsbD_setWidth, decide_eq_true hi, Bool.true_and]

theorem me5IrqDisable_bit (d : Me5Data) (tmp : BitVec 32) (hi : i < 32) :
    (me5IrqDisable d tmp).irqWanted.getLsbD i = (d.irqWanted.getLsbD i && !tmp.getLsbD i) :=
  getLsbD_without _ _ hi

theorem me5IrqAckClear_bit (d : Me5Data) (alarm : BitVec 64) (hi : i < 32) :
    (me5IrqAckClear d alarm).irqAlarmsStatus.getLsbD i =
      (d.irqAlarmsStatus.getLsbD i && !alarm.getLsbD i) := by
  rw [← getLsbD_alarm alarm hi]
  exact getLsbD_without _ _ hi

theorem me5IrqRecord_status (d : Me5Data) (st : BitVec 32) :
    (me5IrqRecord d st).1.irqAlarmsStatus = d.irqAlarmsStatus ||| (st &&& d.irqWanted) ∧
      (me5IrqRecord d st).1.irqWanted = d.irqWanted := by
  unfold me5IrqRecord
  dsimp only
  split_ifs <;> exact ⟨rfl, rfl⟩

theorem me5StartIrq_kept (d : Me5Data) (uiqcnt : Nat) (h : INT_MASK_ALARMS.getLsbD i = true) :
    AlarmKept (me5StartIrq d uiqcnt) i := by
  left
  rw [me5StartIrq, BitVec.getLsbD_or, h, Bool.or_true]

/-- The bits of the DMA channels are below those of the alarms. -/
theorem getLsbD_enablebit (enablebit : Fin 8) (hi : 8 ≤ i) : (1#32 <<< enablebit.val).getLsbD i = false := by
  rw [BitVec.getLsbD_shiftLeft, BitVec.getLsbD_one]
  have hne : i - enablebit.val ≠ 0 := by omega
  simp [hne]

theorem alarmStep_kept (hs : AlarmsKept s) (hG : ¬ LosesAlarm s e) (h : alarmStep s e = some t) :
    AlarmsKept t := by
  intro i hi
  have hkept := hs i hi
  obtain ⟨hlow, hhigh⟩ := alarm_bit hi
  cases e with
  | irqEnter sr =>
    simp only [alarmStep] at h
    split_ifs at h
    obtain ⟨st, _, h⟩ := Option.bind_eq_some_iff.mp h
    cases h
    exact hkept
  | irqRecord =>
    simp only [alarmStep] at h
    split at h
    · rename_i st hst
      cases h
      obtain ⟨hstatus, hwanted⟩ := me5IrqRecord_status s.me5 st
      refine hkept.imp (fun hw => hwanted ▸ hw) fun hp => ?_
      dsimp only
      rw [hstatus, BitVec.getLsbD_or, hp, Bool.true_or]
    · cases h
  | irqDisable =>
    simp only [alarmStep] at h
    split at h
    · rename_i tmp htmp
      cases h
      by_cases hdis : tmp.getLsbD i = true
      · right
        by_contra hstatus
        exact hG ⟨tmp, i, htmp, hi, hdis, (Bool.not_eq_true _).mp hstatus⟩
      · refine hkept.imp_left fun hw => ?_
        dsimp only
        rw [me5IrqDisable_bit s.me5 tmp hhigh, hw, (Bool.not_eq_true _).mp hdis]
        rfl
    · cases h
  | resetAsyncNotify k pl =>
    simp only [alarmStep] at h
    split_ifs at h
    cases h
    exact hkept
  | temperatureAlarmWork k =>
    simp only [alarmStep] at h
    split_ifs at h
    cases h
    exact hkept
  | ack k =>
    simp only [alarmStep] at h
    split at h
    · cases h
      refine hkept.imp_left fun hw => ?_
      simp only [AlarmSys.setAck, me5IrqAckEnable, BitVec.getLsbD_or, hw, Bool.true_or]
    · rename_i alarm rest hack
      cases h
      by_cases hclear : alarm.getLsbD i = true
      · left
        by_contra hwanted
        exact hG ⟨alarm, rest, i, hack, hi, hclear, (Bool.not_eq_true _).mp hwanted⟩
      · refine hkept.imp_right fun hp => ?_
        simp only [AlarmSys.setAck, me5IrqAckClear_bit s.me5 alarm hhigh, hp, hclear, Bool.not_false,
          Bool.and_self]
    · cases h
  | startDma enablebit =>
    cases h
    refine hkept.imp_left fun hw => ?_
    simp only [BitVec.getLsbD_or, hw, Bool.true_or]
  | stopDma enablebit =>
    cases h
    refine hkept.imp_left fun hw => ?_
    simp only [getLsbD_without _ _ hhigh, getLsbD_enablebit enablebit hlow, hw, Bool.not_false, Bool.and_self]

theorem not_losesAlarm_of_kept (h : alarmStep s e = some t) (ht : AlarmsKept t) : ¬ LosesAlarm s e := by
  intro hl
  cases e with
  | irqDisable =>
    obtain ⟨tmp, i, htmp, hi, hdis, hstatus⟩ := hl
    simp only [alarmStep, htmp] at h
    cases h
    rcases ht i hi with hw | hp
    · simp only [me5IrqDisable_bit s.me5 tmp (alarm_bit hi).2, hdis, Bool.not_true, Bool.and_false] at hw
      cases hw
    · exact absurd hp (by simp only [me5IrqDisable, hstatus]; decide)
  | ack k =>
    obtain ⟨alarm, rest, i, hack, hi, hclear, hwanted⟩ := hl
    simp only [alarmStep, hack] at h
    cases h
    rcases ht i hi with hw | hp
    · exact absurd hw (by simp only [AlarmSys.setAck, me5IrqAckClear, hwanted]; decide)
    · simp only [AlarmSys.setAck, me5IrqAckClear_bit s.me5 alarm (alarm_bit hi).2, hclear, Bool.not_true,
        Bool.and_false] at hp
      cases hp
  | _ => exact hl

/-- Also between the sections no alarm is lost exactly if no step loses one. -/
theorem alarms_kept_iff (s : AlarmSys) (uiqcnt : Nat) (es : List AlarmEvent) :
    Always (ofOption alarmStep) AlarmsKept { s with me5 := me5StartIrq s.me5 uiqcnt } es ↔
      Meets (ofOption alarmStep) (fun s e => ¬ LosesAlarm s e)
        { s with me5 := me5StartIrq s.me5 uiqcnt } es := by
  have hinit : AlarmsKept { s with me5 := me5StartIrq s.me5 uiqcnt } := fun _ hi =>
    me5StartIrq_kept s.me5 uiqcnt hi
  refine always_iff_meets (P := AlarmsKept) (fun _ => id) (fun s e t hs h => ?_) hinit es
  have hstep := ofOption_ok.mp h
  exact ⟨fun hG => alarmStep_kept hs hG hstep, not_losesAlarm_of_kept hstep⟩

/-- Users are told of an alarm as long as one is recorded. -/
def Notified (d : Me5Data) : Prop := d.notifications.getLsbD 3 = true ↔ d.irqAlarmsStatus ≠ 0

theorem alarmStep_notified (hs : Notified s.me5) (h : alarmStep s e = some t) : Notified t.me5 := by
  cases e with
  | irqEnter sr =>
    simp only [alarmStep] at h
    split_ifs at h
    obtain ⟨st, _, h⟩ := Option.bind_eq_some_iff.mp h
    cases h
    exact hs
  | irqRecord =>
    simp only [alarmStep] at h
    split at h
    · rename_i st hst
      cases h
      unfold Notified me5IrqRecord
      dsimp only
      split_ifs with hstatus
      · have hbit : NOTIFICATION_DEVICE_ALARM.getLsbD 3 = true := by decide
        exact iff_of_true (by rw [BitVec.getLsbD_or, hbit, Bool.or_true]) hstatus
      · have hnone := (BitVec.or_eq_zero_iff.mp (not_not.mp hstatus)).1
        exact iff_of_false (fun hbit => hs.mp hbit hnone) hstatus
    · cases h
  | irqDisable =>
    simp only [alarmStep] at h
    split at h
    · cases h
      exact hs
    · cases h
  | resetAsyncNotify k pl =>
    simp only [alarmStep] at h
    split_ifs at h
    cases h
    exact hs
  | temperatureAlarmWork k =>
    simp only [alarmStep] at h
    split_ifs at h
    cases h
    exact hs
  | ack k =>
    simp only [alarmStep] at h
    split at h
    · cases h
      exact hs
    · rename_i alarm rest hack
      cases h
      unfold Notified AlarmSys.setAck me5IrqAckClear
      dsimp only
      split_ifs with hstatus
      · exact iff_of_false (by simp [NOTIFICATION_DEVICE_ALARM]) (not_not.mpr hstatus)
      · have hold : s.me5.irqAlarmsStatus ≠ 0 := fun h0 => hstatus (by simp [h0])
        exact iff_of_true (hs.mpr hold) hstatus
    · cases h
  | startDma enablebit =>
    cases h
    exact hs
  | stopDma enablebit =>
    cases h
    exact hs

end Steps

section Example

def losesAlarmCheck (s : AlarmSys) : AlarmEvent → Bool
  | .irqDisable =>
    match s.irq with
    | some (.recorded tmp) => decide (INT_MASK_ALARMS &&& tmp &&& ~~~s.me5.irqAlarmsStatus ≠ 0)
    | _ => false
  | .ack k =>
    match s.acks k with
    | some ⟨alarm, true, _⟩ => decide (INT_MASK_ALARMS &&& alarm.setWidth 32 &&& ~~~s.me5.irqWanted ≠ 0)
    | _ => false
  | _ => false

/-- The alarm of the PHY is raised, handled and acknowledged. -/
def alarmHandled : List AlarmEvent :=
  [.irqEnter 0x1000#32, .irqRecord, .irqDisable, .resetAsyncNotify 0 0x2#64, .ack 0, .ack 0]

/-- It is raised again between the two sections of the acknowledge. -/
def alarmMissed : List AlarmEvent :=
  [.irqEnter 0x1000#32, .irqRecord, .irqDisable, .resetAsyncNotify 0 0x2#64, .ack 0, .irqEnter 0x1000#32,
    .irqRecord, .irqDisable, .ack 0]

theorem losesAlarmCheck_sound (s : AlarmSys) (e : AlarmEvent) (h : (!losesAlarmCheck s e) = true) :
    ¬ LosesAlarm s e := by
  have hbit : ∀ {x y : BitVec 32} {i : Nat}, INT_MASK_ALARMS.getLsbD i = true → x.getLsbD i = true →
      y.getLsbD i = false → INT_MASK_ALARMS &&& x &&& ~~~y ≠ 0 := fun {x y i} hi hx hy h0 => by
    have hone : (INT_MASK_ALARMS &&& x &&& ~~~y).getLsbD i = true := by
      rw [getLsbD_without _ _ (alarm_bit hi).2, BitVec.getLsbD_and, hi, hx, hy]
      rfl
    rw [h0, BitVec.ofNat_eq_ofNat, BitVec.getLsbD_zero] at hone
    cases hone
  intro hl
  cases e with
  | irqDisable =>
    obtain ⟨tmp, i, htmp, hi, hdis, hstatus⟩ := hl
    simp only [losesAlarmCheck, htmp, decide_eq_true (hbit hi hdis hstatus)] at h
    cases h
  | ack k =>
    obtain ⟨alarm, rest, i, hack, hi, hclear, hwanted⟩ := hl
    have hclear' := (getLsbD_alarm alarm (alarm_bit hi).2).trans hclear
    simp only [losesAlarmCheck, hack, decide_eq_true (hbit hi hclear' hwanted)] at h
    cases h
  | _ => exact hl

end Example

end MenableDriver
