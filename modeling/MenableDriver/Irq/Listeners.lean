import Mathlib.Algebra.Ring.Nat
import MenableDriver.Irq.Notifications

/-!
# The listeners of the microEnable 6

`DEVCTRL_GET_ASYNC_NOTIFY` waits for an alarm. Every task that asks has a notification handler,
which keeps the time stamp of the last alarm that the task was told of and a completion. A call
looks at the notifications before it waits and again behind the wait, and whatever happens to the
alarms between its parts.
-/

namespace MenableDriver

set_option autoImplicit false

open Transition (ofOption ofOption_ok Always)

def NOTIFICATION_DRIVER_CLOSED : ULong := 0x01#64
def NOTIFICATION_DEVICE_REMOVED : ULong := 0x02#64
def NOTIFICATION_DEVICE_ADDED : ULong := 0x04#64

/-- `current`, as the handlers know it. -/
structure NotifyTask where
  ppid : Nat
  pid : Nat
deriving DecidableEq

/-- `struct me_notification_handler`, with a history: the number of interrupts behind the time stamp,
the alarms that the task was told of then, and whether it did not get that reply. A new handler
counts the pending alarms as told. -/
structure MeNotificationHandler where
  quitRequested : Bool := false
  notificationTimeStamp : ULong
  notificationAvailable : Nat := 0
  stampedAt : Nat
  told : ULong
  replyLost : Bool := false

def createHandler (a : Me6Alarms) : MeNotificationHandler :=
  { notificationTimeStamp := a.d6.notificationTimeStamp, stampedAt := a.recorded, told := a.d6.alarmsStatus }

inductive Wakeup where
  | notWaited | completed | timeout | interrupted
deriving DecidableEq

/-- A call behind its parts; `since` is the number of interrupts at its first look, and
`registered` says that the handler was in the list by then. -/
inductive GetPc where
  | looked (notifications stamp : ULong) (since : Nat)
  | created (notifications stamp : ULong) (since : Nat) (handler : MeNotificationHandler)
  | found (notifications stamp : ULong) (since : Nat) (registered : Bool)
  | waiting (since : Nat) (registered : Bool)
  | woken (wakeup : Wakeup)
  | snapshot (wakeup : Wakeup) (notifications stamp status : ULong) (recorded : Nat)

inductive AsyncEvent where
  | driverClosed | deviceRemoved | deviceAdded
  | deviceAlarm (pl : ULong)
  | unset

inductive GetResult where
  | reply (event : AsyncEvent)
  | timedOut | fault | noMemory

/-- What a call returned, the alarms that were pending when it looked, and the history of its
handler behind it. -/
structure GetAnswer where
  result : GetResult
  pending : ULong
  told : ULong := 0
  replyLost : Bool := false

/-- A task with its handler in the list, its call, and its last answer. -/
structure Listener where
  handler : Option MeNotificationHandler := none
  call : Option GetPc := none
  answer : Option GetAnswer := none

/-- `complete` -/
def MeNotificationHandler.complete (h : MeNotificationHandler) : MeNotificationHandler :=
  { h with notificationAvailable := h.notificationAvailable + 1 }

def MeNotificationHandler.quit (h : MeNotificationHandler) : MeNotificationHandler :=
  { h.complete with quitRequested := true }

def Listener.mapHandler (f : MeNotificationHandler → MeNotificationHandler) (l : Listener) : Listener :=
  { l with handler := l.handler.map f }

def asyncEvent (kind : Me6Kind) (notifications status : ULong) : AsyncEvent :=
  if notifications &&& NOTIFICATION_DEVICE_REMOVED ≠ 0 then .deviceRemoved
  else if notifications &&& NOTIFICATION_DEVICE_ALARM ≠ 0 then .deviceAlarm (alarmsToEventPl kind status)
  else if notifications &&& NOTIFICATION_DRIVER_CLOSED ≠ 0 then .driverClosed
  else if notifications &&& NOTIFICATION_DEVICE_ADDED ≠ 0 then .deviceAdded
  else .unset

/-- The task gets the reply, or `copy_to_user` fails. -/
def MeNotificationHandler.replied (h : MeNotificationHandler) (kind : Me6Kind) (event : AsyncEvent)
    (copied : Bool) : MeNotificationHandler :=
  match copied, event with
  | true, .deviceAlarm pl => { h with told := eventPlToAlarms kind pl, replyLost := false }
  | true, _ => h
  | false, _ => { h with replyLost := true }

/-- The end of a call. The handler is freed when the driver closes, or the device is removed. -/
def finishGet (kind : Me6Kind) (h : MeNotificationHandler) (wakeup : Wakeup)
    (notifications stamp status : ULong) (recorded : Nat) (copied : Bool) : Listener :=
  let answer (result : GetResult) (h : MeNotificationHandler) : Option GetAnswer :=
    some ⟨result, status, h.told, h.replyLost⟩
  if h.quitRequested then
    if copied then { answer := answer (.reply .driverClosed) h }
    else { handler := some h, answer := answer .fault h }
  else if h.notificationTimeStamp ≠ stamp then
    let h := { h with notificationTimeStamp := stamp, notificationAvailable := 0, stampedAt := recorded }
    if notifications ≠ 0 then
      let event := asyncEvent kind notifications status
      let h := h.replied kind event copied
      { handler := if notifications &&& NOTIFICATION_DEVICE_REMOVED ≠ 0 then none else some h
        answer := answer (if copied then .reply event else .fault) h }
    else { handler := some h, answer := answer .timedOut h }
  else
    { handler := some h
      answer := answer (if wakeup = .interrupted then .fault else .timedOut) h }

inductive GetEvent where
  | look | find | noMemory | add | wait
  | wake (wakeup : Wakeup)
  | snapshot
  | finish (copied : Bool)
deriving DecidableEq

/-- The parts of a call. The search and the creation are one part, because no other task adds or
frees a handler of this one. -/
def getStep (kind : Me6Kind) (a : Me6Alarms) (l : Listener) : GetEvent → Option Listener
  | .look =>
    match l.call with
    | none => some { l with call := some (.looked a.d6.notifications a.d6.notificationTimeStamp a.recorded) }
    | _ => none
  | .find =>
    match l.call with
    | some (.looked notifications stamp since) => some { l with
        call := some (if l.handler.isSome then .found notifications stamp since true
          else .created notifications stamp since (createHandler a)) }
    | _ => none
  | .noMemory =>
    match l.call, l.handler with
    | some (.looked _ _ _), none => some { l with
        call := none
        answer := some { result := .noMemory, pending := a.d6.alarmsStatus } }
    | _, _ => none
  | .add =>
    match l.call with
    | some (.created notifications stamp since h) =>
      some { l with handler := some h, call := some (.found notifications stamp since false) }
    | _ => none
  | .wait =>
    match l.call, l.handler with
    | some (.found notifications stamp since registered), some h => some { l with
        call := some (if h.quitRequested = false ∧ (h.notificationTimeStamp = stamp ∨ notifications = 0)
          then .waiting since registered else .woken .notWaited) }
    | _, _ => none
  | .wake wakeup =>
    match l.call, l.handler, wakeup with
    | some (.waiting _ _), some h, .completed =>
      if 0 < h.notificationAvailable then some { l with
        handler := some { h with notificationAvailable := h.notificationAvailable - 1 }
        call := some (.woken .completed) }
      else none
    | some (.waiting _ _), some _, .timeout => some { l with call := some (.woken .timeout) }
    | some (.waiting _ _), some _, .interrupted => some { l with call := some (.woken .interrupted) }
    | _, _, _ => none
  | .snapshot =>
    match l.call with
    | some (.woken wakeup) => some { l with
        call := some (.snapshot wakeup a.d6.notifications a.d6.notificationTimeStamp a.d6.alarmsStatus a.recorded) }
    | _ => none
  | .finish copied =>
    match l.call, l.handler with
    | some (.snapshot wakeup notifications stamp status recorded), some h =>
      some (finishGet kind h wakeup notifications stamp status recorded copied)
    | _, _ => none

structure Me6Notifications where
  alarms : Me6Alarms := {}
  listeners : NotifyTask → Listener := fun _ => {}

/-- `quit` is `DEVCTRL_RESET_ASYNC_NOTIFY` for a closed driver. -/
inductive Me6NotifyEvent where
  | alarm (e : Me6AlarmEvent)
  | quit (ppid : Nat)
  | get (task : NotifyTask) (e : GetEvent)
deriving DecidableEq

def me6NotifyStep (kind : Me6Kind) (s : Me6Notifications) : Me6NotifyEvent → Option Me6Notifications
  | .alarm e => do
    let alarms ← me6AlarmStep kind s.alarms e
    some {
      alarms := alarms
      -- the work completes the handlers first
      listeners := if e = .notificationStart then fun task => (s.listeners task).mapHandler .complete
        else s.listeners }
  | .quit ppid => some { s with
      listeners := fun task => if task.ppid = ppid then (s.listeners task).mapHandler .quit else s.listeners task }
  | .get task e => do
    let l ← getStep kind s.alarms (s.listeners task) e
    some { s with listeners := Function.update s.listeners task l }

/-! ### What the alarms do in a step -/

section Steps
variable {kind : Me6Kind} {a t : Me6Alarms}

/-- Without a new interrupt the pending alarms only become fewer, and the work stays scheduled until
it runs. -/
structure NoInterrupt (a t : Me6Alarms) (e : Me6AlarmEvent) : Prop where
  recorded : t.recorded = a.recorded
  status : ∀ i, t.d6.alarmsStatus.getLsbD i = true → a.d6.alarmsStatus.getLsbD i = true
  work : a.notificationWork = true → t.notificationWork = true ∨ e = .notificationStart

theorem ackAlarms_noInterrupt (a : Me6Alarms) (alarms : ULong) (e : Me6AlarmEvent) :
    NoInterrupt a (a.ackAlarms alarms) e := by
  refine ⟨rfl, fun i hi => ?_, fun hw => .inl hw⟩
  simp only [Me6Alarms.ackAlarms, BitVec.getLsbD_and, Bool.and_eq_true] at hi
  exact hi.1

theorem me6AlarmStep_cases {e : Me6AlarmEvent} (he : me6AlarmStep kind a e = some t) :
    NoInterrupt a t e ∨ (t.recorded = a.recorded + 1 ∧ t.notificationWork = true ∧ e = .irqRecord) := by
  cases e with
  | irqRecord =>
    obtain ⟨status, _, hset⟩ := Option.bind_eq_some_iff.mp he
    cases hset
    exact .inr ⟨rfl, rfl, rfl⟩
  | notificationStart =>
    simp only [me6AlarmStep] at he
    split at he
    · cases he
      exact .inl ⟨rfl, fun _ hi => hi, fun _ => .inr rfl⟩
    · cases he
  | notificationLook | notificationEnd =>
    simp only [me6AlarmStep] at he
    split at he
    · cases he
      exact .inl ⟨rfl, fun _ hi => hi, fun hw => .inl hw⟩
    · cases he
  | temperatureAck =>
    simp only [me6AlarmStep] at he
    split at he
    · cases he
      have hack := ackAlarms_noInterrupt a (eventPlToAlarms kind DEVCTRL_DEVICE_ALARM_TEMPERATURE) .temperatureAck
      exact .inl ⟨hack.recorded, hack.status, hack.work⟩
    · cases he
  | ack pl =>
    simp only [me6AlarmStep, Option.some.injEq] at he
    subst he
    split
    · exact .inl (ackAlarms_noInterrupt a _ _)
    · exact .inl ⟨rfl, fun _ hi => hi, fun hw => .inl hw⟩
  | irqRead status =>
    simp only [me6AlarmStep] at he
    split at he
    · cases he
      exact .inl ⟨rfl, fun _ hi => hi, fun hw => .inl hw⟩
    · cases he
  | startIrq =>
    cases he
    exact .inl ⟨rfl, fun _ hi => hi, fun hw => .inl hw⟩
  | _ =>
    simp only [me6AlarmStep] at he
    split at he <;> cases he <;> exact .inl ⟨rfl, fun _ hi => hi, fun hw => .inl hw⟩

end Steps

/-! ### What the listeners are told -/

/-- The task was told of these alarms, as far as the board knows them, or its reply was lost. -/
def ToldOf (kind : Me6Kind) (told : ULong) (replyLost : Bool) (status : ULong) : Prop :=
  replyLost = true ∨
    ∀ i, (knownAlarms kind).getLsbD i = true → status.getLsbD i = true → told.getLsbD i = true

/-- Without an interrupt since its time stamp a handler has been told of what is pending. -/
structure MeNotificationHandler.Current (kind : Me6Kind) (a : Me6Alarms) (h : MeNotificationHandler) : Prop where
  le : h.stampedAt ≤ a.recorded
  stamp : h.notificationTimeStamp = BitVec.ofNat 64 h.stampedAt
  told : h.stampedAt = a.recorded → ToldOf kind h.told h.replyLost a.d6.alarmsStatus

/-- An alarm goes to the task as it stands, and a call that returns without one leaves out only what
the task was told before. -/
def GetAnswer.Complete (kind : Me6Kind) (answer : GetAnswer) : Prop :=
  match answer.result with
  | .reply (.deviceAlarm pl) => eventPlToAlarms kind pl = answer.pending &&& knownAlarms kind
  | .reply .driverClosed => True
  | .reply _ => False
  | .timedOut => ToldOf kind answer.told answer.replyLost answer.pending
  | .fault => True
  | .noMemory => True

/-- What a call has seen, and that the task has a handler behind its search. -/
def GetPc.Ok (kind : Me6Kind) (a : Me6Alarms) (handler : Option MeNotificationHandler) : GetPc → Prop
  | .looked _ _ since => since ≤ a.recorded
  | .created _ _ since h => since ≤ a.recorded ∧ h.Current kind a
  | .found _ _ since _ => since ≤ a.recorded ∧ handler.isSome
  | .waiting since _ => since ≤ a.recorded ∧ handler.isSome
  | .woken _ => handler.isSome
  | .snapshot _ notifications stamp status recorded =>
    handler.isSome ∧ recorded ≤ a.recorded ∧ stamp = BitVec.ofNat 64 recorded ∧
      (status = 0 → notifications = 0) ∧ (status ≠ 0 → notifications = NOTIFICATION_DEVICE_ALARM) ∧
      (recorded = a.recorded → ∀ i, a.d6.alarmsStatus.getLsbD i = true → status.getLsbD i = true) ∧
      ∀ h, handler = some h → h.stampedAt ≤ recorded ∧
        (h.stampedAt = recorded → ToldOf kind h.told h.replyLost status)

structure ListenerOk (kind : Me6Kind) (a : Me6Alarms) (l : Listener) : Prop where
  handler : ∀ h, l.handler = some h → h.Current kind a
  call : ∀ pc, l.call = some pc → pc.Ok kind a l.handler
  answer : ∀ answer, l.answer = some answer → a.recorded < 2 ^ 64 → answer.Complete kind

section Told
variable {kind : Me6Kind} {a t : Me6Alarms} {l l' : Listener} {h : MeNotificationHandler}

theorem Current.step {e : Me6AlarmEvent} (he : me6AlarmStep kind a e = some t) (hh : h.Current kind a) :
    h.Current kind t := by
  rcases me6AlarmStep_cases he with hsame | ⟨hnext, _, _⟩
  · refine ⟨hsame.recorded ▸ hh.le, hh.stamp, fun heq => ?_⟩
    rcases hh.told (heq.trans hsame.recorded) with hlost | htold
    · exact .inl hlost
    · exact .inr fun i hi hs => htold i hi (hsame.status i hs)
  · have hle := hh.le
    exact ⟨by omega, hh.stamp, fun heq => absurd heq (by omega)⟩

theorem PcOk.step {e : Me6AlarmEvent} (he : me6AlarmStep kind a e = some t) {pc : GetPc}
    {handler : Option MeNotificationHandler} (hpc : pc.Ok kind a handler) : pc.Ok kind t handler := by
  have hle : a.recorded ≤ t.recorded := by
    rcases me6AlarmStep_cases he with hsame | ⟨hnext, _, _⟩
    · exact Nat.le_of_eq hsame.recorded.symm
    · omega
  cases pc with
  | looked _ _ since => exact Nat.le_trans hpc hle
  | created _ _ since h => exact ⟨Nat.le_trans hpc.1 hle, Current.step he hpc.2⟩
  | found _ _ since _ => exact ⟨Nat.le_trans hpc.1 hle, hpc.2⟩
  | waiting since _ => exact ⟨Nat.le_trans hpc.1 hle, hpc.2⟩
  | woken _ => exact hpc
  | snapshot _ notifications stamp status recorded =>
    obtain ⟨hsome, hrec, hstamp, hquiet, hnotified, hfewer, htold⟩ := hpc
    refine ⟨hsome, Nat.le_trans hrec hle, hstamp, hquiet, hnotified, fun heq i hi => ?_, htold⟩
    rcases me6AlarmStep_cases he with hsame | ⟨hnext, _, _⟩
    · exact hfewer (heq.trans hsame.recorded) i (hsame.status i hi)
    · omega

theorem ListenerOk.step {e : Me6AlarmEvent} (he : me6AlarmStep kind a e = some t) (hl : ListenerOk kind a l) :
    ListenerOk kind t l := by
  refine ⟨fun h hh => Current.step he (hl.handler h hh), fun pc hpc => PcOk.step he (hl.call pc hpc),
    fun answer ha hlt => hl.answer answer ha ?_⟩
  rcases me6AlarmStep_cases he with hsame | ⟨hnext, _, _⟩
  · exact hsame.recorded ▸ hlt
  · omega

/-- What is done to a handler by others leaves its history alone. -/
theorem ListenerOk.mapHandler (hl : ListenerOk kind a l) {f : MeNotificationHandler → MeNotificationHandler}
    (hf : ∀ h, (f h).stampedAt = h.stampedAt ∧ (f h).notificationTimeStamp = h.notificationTimeStamp ∧
      (f h).told = h.told ∧ (f h).replyLost = h.replyLost) : ListenerOk kind a (l.mapHandler f) := by
  have hsome : (l.handler.map f).isSome = l.handler.isSome := Option.isSome_map ..
  refine ⟨fun h hh => ?_, fun pc hpc => ?_, hl.answer⟩
  · obtain ⟨h₀, hh₀, rfl⟩ := Option.map_eq_some_iff.mp hh
    obtain ⟨hat, hstamp, htold, hlost⟩ := hf h₀
    have hcur := hl.handler h₀ hh₀
    refine ⟨hat ▸ hcur.le, by rw [hstamp, hat]; exact hcur.stamp, fun heq => ?_⟩
    rw [htold, hlost]
    exact hcur.told (hat ▸ heq)
  · have hok := hl.call pc hpc
    cases pc with
    | looked _ _ since => exact hok
    | created _ _ since h => exact hok
    | found _ _ since _ => exact ⟨hok.1, hsome.trans hok.2⟩
    | waiting since _ => exact ⟨hok.1, hsome.trans hok.2⟩
    | woken _ => exact hsome.trans hok
    | snapshot _ notifications stamp status recorded =>
      obtain ⟨hs, hrec, hstamp, hquiet, hnotified, hfewer, htold⟩ := hok
      refine ⟨hsome.trans hs, hrec, hstamp, hquiet, hnotified, hfewer, fun h hh => ?_⟩
      obtain ⟨h₀, hh₀, rfl⟩ := Option.map_eq_some_iff.mp hh
      obtain ⟨hat, _, htold', hlost⟩ := hf h₀
      rw [hat, htold', hlost]
      exact htold h₀ hh₀

theorem createHandler_current (ha : Me6AlarmsKept kind a) : (createHandler a).Current kind a :=
  ⟨Nat.le_refl _, ha.stamp, fun _ => .inr fun _ _ hs => hs⟩

/-- Only alarms are ever announced, and a reply names those that were pending. -/
theorem asyncEvent_alarm (kind : Me6Kind) (status : ULong) :
    asyncEvent kind NOTIFICATION_DEVICE_ALARM status = .deviceAlarm (alarmsToEventPl kind status) := rfl

theorem finishGet_ok (hh : h.Current kind a) {wakeup : Wakeup} {notifications stamp status : ULong} {recorded : Nat}
    (hpc : (GetPc.snapshot wakeup notifications stamp status recorded).Ok kind a (some h)) (copied : Bool) :
    ListenerOk kind a (finishGet kind h wakeup notifications stamp status recorded copied) := by
  obtain ⟨_, hrec, hstamp, hquiet, hnotified, hfewer, htold⟩ := hpc
  obtain ⟨hat, htold⟩ := htold h rfl
  unfold finishGet
  dsimp only
  split
  · -- the driver closes
    split
    · refine ⟨fun h' hh' => (by cases hh'), fun pc hpc => (by cases hpc), fun ans hans _ => ?_⟩
      cases hans
      trivial
    · refine ⟨fun h' hh' => ?_, fun pc hpc => (by cases hpc), fun ans hans _ => ?_⟩
      · cases hh'
        exact hh
      · cases hans
        trivial
  · split
    · by_cases hn : notifications = 0
      · -- the alarm was acknowledged in the meantime
        have hzero : status = 0 := by
          refine Classical.byContradiction fun hne => ?_
          rw [hnotified hne] at hn
          exact absurd hn (by decide)
        have hbits : ∀ i, status.getLsbD i = true → False := fun i hi => by
          rw [hzero] at hi
          simp at hi
        rw [if_neg (fun hne => hne hn)]
        refine ⟨fun h' hh' => ?_, fun pc hpc => (by cases hpc), fun ans hans _ => ?_⟩
        · cases hh'
          exact ⟨hrec, hstamp, fun heq => .inr fun i _ hi => (hbits i (hfewer heq i hi)).elim⟩
        · cases hans
          exact .inr fun i _ hi => (hbits i hi).elim
      · have hne : status ≠ 0 := fun hzero => hn (hquiet hzero)
        have halarm := hnotified hne
        subst halarm
        have hkept : ¬ NOTIFICATION_DEVICE_ALARM &&& NOTIFICATION_DEVICE_REMOVED ≠ 0 := by decide
        have hround := eventPlToAlarms_alarmsToEventPl kind status
        rw [if_pos hn, if_neg hkept, asyncEvent_alarm]
        cases copied with
        | true =>
          refine ⟨fun h' hh' => ?_, fun pc hpc => (by cases hpc), fun ans hans _ => ?_⟩
          · cases hh'
            refine ⟨hrec, hstamp, fun heq => .inr fun i hi hs => ?_⟩
            have hbit := congrArg (·.getLsbD i) hround
            simp only [BitVec.getLsbD_and, hi, hfewer heq i hs, Bool.and_self] at hbit
            exact hbit
          · cases hans
            exact hround
        | false =>
          refine ⟨fun h' hh' => ?_, fun pc hpc => (by cases hpc), fun ans hans _ => ?_⟩
          · cases hh'
            exact ⟨hrec, hstamp, fun _ => .inl rfl⟩
          · cases hans
            trivial
    · rename_i hsame
      refine ⟨fun h' hh' => ?_, fun pc hpc => (by cases hpc), fun ans hans hlt => ?_⟩
      · cases hh'
        exact hh
      · cases hans
        split
        · trivial
        · -- equal stamps mean that no interrupt came in between, as long as the stamp has not wrapped
          have heq : h.notificationTimeStamp = stamp := Classical.not_not.mp hsame
          rw [hh.stamp, hstamp] at heq
          have hnat := congrArg BitVec.toNat heq
          rw [BitVec.toNat_ofNat, BitVec.toNat_ofNat, Nat.mod_eq_of_lt (by omega), Nat.mod_eq_of_lt (by omega)] at hnat
          exact htold hnat

theorem getStep_ok (ha : Me6AlarmsKept kind a) (hl : ListenerOk kind a l) {e : GetEvent}
    (he : getStep kind a l e = some l') : ListenerOk kind a l' := by
  cases e with
  | look =>
    simp only [getStep] at he
    split at he
    · cases he
      refine ⟨hl.handler, fun pc hpc => ?_, hl.answer⟩
      cases hpc
      exact Nat.le_refl _
    · cases he
  | find =>
    simp only [getStep] at he
    split at he
    · rename_i notifications stamp since hcall
      have hsince : since ≤ a.recorded := hl.call _ hcall
      cases he
      refine ⟨hl.handler, fun pc hpc => ?_, hl.answer⟩
      cases hpc
      split
      · rename_i hsome
        exact ⟨hsince, hsome⟩
      · exact ⟨hsince, createHandler_current ha⟩
    · cases he
  | noMemory =>
    simp only [getStep] at he
    split at he
    · cases he
      refine ⟨hl.handler, fun pc hpc => (by cases hpc), fun ans hans _ => ?_⟩
      cases hans
      trivial
    · cases he
  | add =>
    simp only [getStep] at he
    split at he
    · rename_i notifications stamp since h hcall
      obtain ⟨hsince, hcur⟩ := hl.call _ hcall
      cases he
      refine ⟨fun h' hh' => ?_, fun pc hpc => ?_, hl.answer⟩
      · cases hh'
        exact hcur
      · cases hpc
        exact ⟨hsince, rfl⟩
    · cases he
  | wait =>
    simp only [getStep] at he
    split at he
    · rename_i notifications stamp since registered h hcall hhandler
      have hsince : since ≤ a.recorded := (hl.call _ hcall).1
      cases he
      refine ⟨hl.handler, fun pc hpc => ?_, hl.answer⟩
      cases hpc
      dsimp only
      rw [hhandler]
      split
      · exact ⟨hsince, rfl⟩
      · exact rfl
    · cases he
  | wake wakeup =>
    simp only [getStep] at he
    split at he
    · rename_i h hcall hhandler
      split at he
      · cases he
        have hcur := hl.handler h hhandler
        refine ⟨fun h' hh' => ?_, fun pc hpc => ?_, hl.answer⟩
        · cases hh'
          exact ⟨hcur.le, hcur.stamp, hcur.told⟩
        · cases hpc
          exact rfl
      · cases he
    · rename_i h hcall hhandler
      cases he
      refine ⟨hl.handler, fun pc hpc => ?_, hl.answer⟩
      cases hpc
      dsimp only
      rw [hhandler]
      exact rfl
    · rename_i h hcall hhandler
      cases he
      refine ⟨hl.handler, fun pc hpc => ?_, hl.answer⟩
      cases hpc
      dsimp only
      rw [hhandler]
      exact rfl
    · cases he
  | snapshot =>
    simp only [getStep] at he
    split at he
    · rename_i wakeup hcall
      have hsome : l.handler.isSome = true := hl.call _ hcall
      cases he
      refine ⟨hl.handler, fun pc hpc => ?_, hl.answer⟩
      cases hpc
      exact ⟨hsome, Nat.le_refl _, ha.stamp, ha.quiet, ha.notified, fun _ _ hi => hi,
        fun h hh => ⟨(hl.handler h hh).le, (hl.handler h hh).told⟩⟩
    · cases he
  | finish copied =>
    simp only [getStep] at he
    split at he
    · rename_i wakeup notifications stamp status recorded h hcall hhandler
      have hpc := hl.call _ hcall
      rw [hhandler] at hpc
      cases he
      exact finishGet_ok (hl.handler h hhandler) hpc copied
    · cases he

end Told

/-- The alarms with all listeners. -/
structure ListenersOk (kind : Me6Kind) (s : Me6Notifications) : Prop where
  alarms : Me6AlarmsKept kind s.alarms
  listeners : ∀ task, ListenerOk kind s.alarms (s.listeners task)

theorem me6NotifyStep_ok {kind : Me6Kind} {s t : Me6Notifications} {e : Me6NotifyEvent} (hs : ListenersOk kind s)
    (he : me6NotifyStep kind s e = some t) : ListenersOk kind t := by
  cases e with
  | alarm e =>
    obtain ⟨alarms, halarms, hset⟩ := Option.bind_eq_some_iff.mp he
    cases hset
    refine ⟨me6AlarmStep_kept hs.alarms halarms, fun task => ?_⟩
    have hl := ListenerOk.step halarms (hs.listeners task)
    dsimp only
    split
    · exact hl.mapHandler fun h => ⟨rfl, rfl, rfl, rfl⟩
    · exact hl
  | quit ppid =>
    cases he
    refine ⟨hs.alarms, fun task => ?_⟩
    dsimp only
    split
    · exact (hs.listeners task).mapHandler fun h => ⟨rfl, rfl, rfl, rfl⟩
    · exact hs.listeners task
  | get task e =>
    obtain ⟨l, hl, hset⟩ := Option.bind_eq_some_iff.mp he
    cases hset
    refine ⟨hs.alarms, fun task' => ?_⟩
    dsimp only
    by_cases htask : task' = task
    · subst htask
      rw [Function.update_self]
      exact getStep_ok hs.alarms (hs.listeners task') hl
    · rw [Function.update_of_ne htask]
      exact hs.listeners task'

theorem listenersOk_start (kind : Me6Kind) : ListenersOk kind {} := by
  refine ⟨me6Alarms_start kind, fun task => ⟨fun h hh => ?_, fun pc hpc => ?_, fun ans hans => ?_⟩⟩
  · cases hh
  · cases hpc
  · cases hans

/-- Whatever the order of the interrupts, the work items and the parts of the calls: a call returns
an alarm with all alarms that are pending, or they are those that its task was told of at its last
time stamp (or that were pending before its first call), or that reply was lost. Nothing else than
alarms and the close of the driver is ever announced. -/
theorem me6_listeners_told (kind : Me6Kind) (es : List Me6NotifyEvent) :
    Always (ofOption (me6NotifyStep kind))
      (fun s => s.alarms.recorded < 2 ^ 64 → ∀ task answer, (s.listeners task).answer = some answer →
        answer.Complete kind) {} es := by
  have halways : Always (ofOption (me6NotifyStep kind)) (ListenersOk kind) {} es :=
    Transition.always_of_meets (G := fun _ _ => True)
      (fun _ _ _ _ hs ht => me6NotifyStep_ok hs (ofOption_ok.mp ht)) (listenersOk_start kind)
      (Transition.meets_true _ _)
  exact halways.mono fun s hs hlt task answer hanswer => (hs.listeners task).answer answer hanswer hlt

/-! ### Sleeping listeners -/

/-- The number of interrupts at the first look of a call that may sleep with its handler in the list
since then. -/
def GetPc.watchedSince : GetPc → Option Nat
  | .looked _ _ since => some since
  | .found _ _ since true => some since
  | .waiting since true => some since
  | _ => none

/-- An interrupt behind the first look has completed the handler, or the work that does so is
scheduled, and so has a request to quit. -/
structure Wakes (a : Me6Alarms) (l : Listener) : Prop where
  interrupt : ∀ pc since h, l.call = some pc → pc.watchedSince = some since → l.handler = some h →
    since < a.recorded → 0 < h.notificationAvailable ∨ a.notificationWork = true
  quit : ∀ since registered h, l.call = some (.waiting since registered) → l.handler = some h →
    h.quitRequested = true → 0 < h.notificationAvailable

section Woken
variable {kind : Me6Kind} {a t : Me6Alarms} {l l' : Listener}

theorem wakes_mapHandler (a : Me6Alarms) (l : Listener) {f : MeNotificationHandler → MeNotificationHandler}
    (hf : ∀ h, 0 < (f h).notificationAvailable) : Wakes a (l.mapHandler f) := by
  refine ⟨fun pc since h _ _ hh _ => .inl ?_, fun since registered h _ hh _ => ?_⟩
  · obtain ⟨h₀, _, rfl⟩ := Option.map_eq_some_iff.mp hh
    exact hf h₀
  · obtain ⟨h₀, _, rfl⟩ := Option.map_eq_some_iff.mp hh
    exact hf h₀

theorem Wakes.step (hw : Wakes a l) {e : Me6AlarmEvent} (he : me6AlarmStep kind a e = some t)
    (hstart : e ≠ .notificationStart) : Wakes t l := by
  refine ⟨fun pc since h hcall hsince hh hlt => ?_, hw.quit⟩
  rcases me6AlarmStep_cases he with hsame | ⟨_, hwork, _⟩
  · rcases hw.interrupt pc since h hcall hsince hh (hsame.recorded ▸ hlt) with hdone | hwork
    · exact .inl hdone
    · exact .inr ((hsame.work hwork).resolve_right hstart)
  · exact .inr hwork

/-- A call that does not sleep, or has only just looked, waits for nothing. -/
theorem Wakes.of_call (hnone : ∀ pc since, l.call = some pc → pc.watchedSince = some since → a.recorded ≤ since)
    (hquit : ∀ since registered, l.call ≠ some (.waiting since registered)) : Wakes a l :=
  ⟨fun pc since _ hcall hsince _ hlt => absurd hlt (Nat.not_lt.mpr (hnone pc since hcall hsince)),
    fun since registered _ hcall => absurd hcall (hquit since registered)⟩

theorem finishGet_call (kind : Me6Kind) (h : MeNotificationHandler) (wakeup : Wakeup)
    (notifications stamp status : ULong) (recorded : Nat) (copied : Bool) :
    (finishGet kind h wakeup notifications stamp status recorded copied).call = none := by
  unfold finishGet
  dsimp only
  split
  · split <;> rfl
  · split
    · split <;> rfl
    · rfl

theorem getStep_wakes (hw : Wakes a l) {e : GetEvent} (he : getStep kind a l e = some l') : Wakes a l' := by
  cases e with
  | look =>
    simp only [getStep] at he
    split at he
    · cases he
      refine .of_call (fun pc since hcall hsince => ?_) fun since registered hcall => ?_
      · cases hcall
        cases hsince
        exact Nat.le_refl _
      · cases hcall
    · cases he
  | find =>
    simp only [getStep] at he
    split at he
    · rename_i notifications stamp since hcall
      cases he
      refine ⟨fun pc since' h hpc hsince hh => ?_, fun since' registered h hpc => ?_⟩
      · have hsome : l.handler.isSome = true := by
          rw [show l.handler = some h from hh]
          rfl
        simp only [hsome, if_true, Option.some.injEq] at hpc
        subst hpc
        cases hsince
        exact hw.interrupt _ since h hcall rfl hh
      · simp only [Option.some.injEq] at hpc
        split at hpc <;> cases hpc
    · cases he
  | noMemory =>
    simp only [getStep] at he
    split at he
    · cases he
      exact .of_call (fun pc since hcall => by cases hcall) fun since registered hcall => by cases hcall
    · cases he
  | add =>
    simp only [getStep] at he
    split at he
    · cases he
      refine .of_call (fun pc since hcall hsince => ?_) fun since registered hcall => ?_
      · cases hcall
        cases hsince
      · cases hcall
    · cases he
  | wait =>
    simp only [getStep] at he
    split at he
    · rename_i notifications stamp since registered h hcall hhandler
      cases he
      refine ⟨fun pc since' h' hpc hsince hh => ?_, fun since' registered' h' hpc hh hq => ?_⟩
      · obtain rfl := Option.some.inj (hhandler.symm.trans hh)
        simp only [Option.some.injEq] at hpc
        split at hpc
        · subst hpc
          cases registered with
          | false => cases hsince
          | true =>
            cases hsince
            exact hw.interrupt _ since h hcall rfl hhandler
        · subst hpc
          cases hsince
      · -- a call does not go to sleep when it is to quit
        obtain rfl := Option.some.inj (hhandler.symm.trans hh)
        simp only [Option.some.injEq] at hpc
        split at hpc
        · rename_i hstay
          rw [hq] at hstay
          cases hstay.1
        · cases hpc
    · cases he
  | wake wakeup =>
    simp only [getStep] at he
    split at he
    · split at he
      · cases he
        exact .of_call (fun pc since hcall hsince => by cases hcall; cases hsince)
          fun since registered hcall => by cases hcall
      · cases he
    · cases he
      exact .of_call (fun pc since hcall hsince => by cases hcall; cases hsince)
        fun since registered hcall => by cases hcall
    · cases he
      exact .of_call (fun pc since hcall hsince => by cases hcall; cases hsince)
        fun since registered hcall => by cases hcall
    · cases he
  | snapshot =>
    simp only [getStep] at he
    split at he
    · cases he
      exact .of_call (fun pc since hcall hsince => by cases hcall; cases hsince)
        fun since registered hcall => by cases hcall
    · cases he
  | finish copied =>
    simp only [getStep] at he
    split at he
    · cases he
      refine .of_call (fun pc since hcall => ?_) fun since registered hcall => ?_
      · rw [finishGet_call] at hcall
        cases hcall
      · rw [finishGet_call] at hcall
        cases hcall
    · cases he

theorem me6NotifyStep_wakes {s u : Me6Notifications} {e : Me6NotifyEvent}
    (hs : ∀ task, Wakes s.alarms (s.listeners task)) (he : me6NotifyStep kind s e = some u) :
    ∀ task, Wakes u.alarms (u.listeners task) := by
  cases e with
  | alarm e =>
    obtain ⟨alarms, halarms, hset⟩ := Option.bind_eq_some_iff.mp he
    cases hset
    intro task
    dsimp only
    split
    · exact wakes_mapHandler _ _ fun h => Nat.succ_pos _
    · rename_i hstart
      exact (hs task).step halarms hstart
  | quit ppid =>
    cases he
    intro task
    dsimp only
    split
    · exact wakes_mapHandler _ _ fun h => Nat.succ_pos _
    · exact hs task
  | get task e =>
    obtain ⟨l, hl, hset⟩ := Option.bind_eq_some_iff.mp he
    cases hset
    intro task'
    dsimp only
    by_cases htask : task' = task
    · subst htask
      rw [Function.update_self]
      exact getStep_wakes (hs task') hl
    · rw [Function.update_of_ne htask]
      exact hs task'

end Woken

/-- No listener sleeps through an alarm: if an interrupt came since the call first looked, the
handler is completed or the work that completes it is scheduled. Only a call that has created its
handler may sleep until its timeout. -/
theorem me6_listeners_woken (kind : Me6Kind) (es : List Me6NotifyEvent) :
    Always (ofOption (me6NotifyStep kind))
      (fun s => ∀ task since registered h, (s.listeners task).call = some (.waiting since registered) →
        (s.listeners task).handler = some h →
        (registered = true → since < s.alarms.recorded →
          0 < h.notificationAvailable ∨ s.alarms.notificationWork = true) ∧
        (h.quitRequested = true → 0 < h.notificationAvailable)) {} es := by
  have hstart : ∀ task, Wakes ({} : Me6Notifications).alarms (({} : Me6Notifications).listeners task) := fun task =>
    .of_call (fun pc since hcall => by cases hcall) fun since registered hcall => by cases hcall
  have halways : Always (ofOption (me6NotifyStep kind)) (fun s => ∀ task, Wakes s.alarms (s.listeners task)) {} es :=
    Transition.always_of_meets (G := fun _ _ => True)
      (fun _ _ _ _ hs ht => me6NotifyStep_wakes hs (ofOption_ok.mp ht)) hstart (Transition.meets_true _ _)
  refine halways.mono fun s hs task since registered h hcall hh => ⟨fun hreg hlt => ?_, ?_⟩
  · subst hreg
    exact (hs task).interrupt _ since h hcall rfl hh hlt
  · exact (hs task).quit since registered h hcall hh

end MenableDriver
