import MenableDriver.Controllers.Base

/-!
# The I2C core

`i2c_master_core.c`: a register of the core is selected through one register of the board and read or
written through another one. Each read of a register of the core takes the next value that the core
gives there; a function that reads more values than there are does not return.
-/

namespace MenableDriver

set_option autoImplicit false

def CORE_CTRL_MASK_ENABLE : BitVec 8 := 0x80#8
def CORE_CTRL_ENABLED : BitVec 8 := 0x80#8

def I2C_MC_STATUS_MASK_BUS_STATUS : BitVec 8 := 0x40#8
def I2C_MC_STATUS_BUS_BUSY : BitVec 8 := 0x40#8
def I2C_MC_STATUS_BUS_IDLE : BitVec 8 := 0#8

/-- A real status would always contain zeros. -/
def I2C_MC_GET_STATUS_FAILED : BitVec 8 := 0xff#8

def I2C_MC_REG_CONTROL : BitVec 8 := 0x02#8
def I2C_MC_REG_TRANSMIT : BitVec 8 := 0x03#8
def I2C_MC_REG_RECEIVE : BitVec 8 := 0x03#8
def I2C_MC_REG_COMMAND : BitVec 8 := 0x04#8
def I2C_MC_REG_STATUS : BitVec 8 := 0x04#8

def I2C_COMMAND_STOP : BitVec 8 := 0x40#8
def I2C_BURST_FLAG_WRITE_ENABLE : BitVec 8 := 0x10#8

/-- `struct i2c_master_core_bus_cfg`, without the frequency. -/
structure I2cMasterCoreBusCfg where
  bankNumber : BitVec 8
  bankActivationBit : BitVec 8
  writeEnableBit : BitVec 8

/-- `struct i2c_master_core`, as far as an access to the core uses it. -/
structure I2cMasterCore where
  i2cCtrlAddressRegister : Nat
  i2cCtrlWriteRegister : Nat
  i2cCtrlReadRegister : Nat
  numSafetyWrites : Nat
  activeBus : Option I2cMasterCoreBusCfg
  currentBurstFlags : BitVec 8

/-- What a read of a register of the core gives. When it is one of a wait, the timeout has elapsed or
not at the time it is looked at behind this read. -/
structure CoreRead where
  value : BitVec 8
  elapsed : Bool

/-- The values that the next reads of each register of the core give, those that were read with their
register, and what was written to the registers of the board. -/
structure CoreBus where
  reads : BitVec 8 → List CoreRead
  seen : List (BitVec 8 × BitVec 8)
  written : List (Nat × Word)

/-- The bits that go with the address of a register of the core. -/
def additionalControlBits (core : I2cMasterCore) : BitVec 8 :=
  match core.activeBus with
  | none => 0
  | some bus =>
    let bits := bus.bankNumber <<< 3 ||| bus.bankActivationBit
    if core.currentBurstFlags &&& I2C_BURST_FLAG_WRITE_ENABLE = I2C_BURST_FLAG_WRITE_ENABLE then
      bits ||| bus.writeEnableBit
    else bits

/-- The write is repeated to a register that cannot be written, to give the real write its time. -/
def safeWrite (core : I2cMasterCore) (bus : CoreBus) (address : Nat) (value : BitVec 8) : CoreBus :=
  { bus with
    written := bus.written ++ (address, value.setWidth 32) :: List.replicate core.numSafetyWrites (0, 0) }

def writeCoreRegister (core : I2cMasterCore) (bus : CoreBus) (address value : BitVec 8) : CoreBus :=
  if address = I2C_MC_REG_TRANSMIT ∧ core.activeBus.isNone then bus
  else
    let bus := safeWrite core bus core.i2cCtrlAddressRegister (address ||| additionalControlBits core)
    safeWrite core bus core.i2cCtrlWriteRegister value

def readCoreRegister (core : I2cMasterCore) (bus : CoreBus) (address : BitVec 8) :
    Option (CoreRead × CoreBus) :=
  if address = I2C_MC_REG_RECEIVE ∧ core.activeBus.isNone then some (⟨0xff#8, false⟩, bus)
  else
    let bus := safeWrite core bus core.i2cCtrlAddressRegister (address ||| additionalControlBits core)
    match bus.reads address with
    | [] => none
    | read :: reads =>
      some (read, { bus with
        reads := Function.update bus.reads address reads
        seen := bus.seen ++ [(address, read.value)] })

def modifyBits (bits modifyMask newVals : BitVec 8) : BitVec 8 :=
  bits &&& ~~~modifyMask ||| newVals &&& modifyMask

def modifyRwRegister (core : I2cMasterCore) (bus : CoreBus) (address modifyMask modifiedBits : BitVec 8) :
    Option CoreBus := do
  let (read, bus) ← readCoreRegister core bus address
  some (writeCoreRegister core bus address (modifyBits read.value modifyMask modifiedBits))

/-- The status; bits that should be zero are only reported. -/
def getCoreStatus (core : I2cMasterCore) (bus : CoreBus) : Option (CoreRead × CoreBus) :=
  readCoreRegister core bus I2C_MC_REG_STATUS

def coreHasStatus (core : I2cMasterCore) (bus : CoreBus) (statusMask desiredStatus : BitVec 8) :
    Option (Bool × CoreBus) := do
  let (read, bus) ← getCoreStatus core bus
  some (decide (read.value &&& statusMask = desiredStatus), bus)

/-- The loop of a wait; the core gives `todo` more values. -/
def pollCoreStatus (core : I2cMasterCore) (statusMask desiredStatus : BitVec 8) :
    Nat → CoreBus → Option (BitVec 8 × CoreBus)
  | 0, _ => none
  | todo + 1, bus => do
    let (read, bus) ← getCoreStatus core bus
    if read.value &&& statusMask ≠ desiredStatus ∧ read.elapsed = false then
      pollCoreStatus core statusMask desiredStatus todo bus
    else some (read.value, bus)

def waitForCoreStatus (core : I2cMasterCore) (bus : CoreBus) (statusMask desiredStatus : BitVec 8) :
    Option (BitVec 8 × CoreBus) := do
  let (status, bus) ← pollCoreStatus core statusMask desiredStatus (bus.reads I2C_MC_REG_STATUS).length bus
  some (if status &&& statusMask ≠ desiredStatus then I2C_MC_GET_STATUS_FAILED else status, bus)

/-- The result is an error for each status but the one that stands for the timeout. -/
def writeStop (core : I2cMasterCore) (bus : CoreBus) : Option (Int × CoreBus) :=
  if core.activeBus.isNone then some (STATUS_ERR_INVALID_STATE, bus)
  else do
    let bus := writeCoreRegister core bus I2C_MC_REG_COMMAND I2C_COMMAND_STOP
    let (status, bus) ← waitForCoreStatus core bus I2C_MC_STATUS_MASK_BUS_STATUS I2C_MC_STATUS_BUS_IDLE
    some (if status = I2C_MC_GET_STATUS_FAILED then STATUS_OK else STATUS_ERROR, bus)

def isBusBusy (core : I2cMasterCore) (bus : CoreBus) : Option (Bool × CoreBus) :=
  coreHasStatus core bus I2C_MC_STATUS_MASK_BUS_STATUS I2C_MC_STATUS_BUS_BUSY

def isCoreEnabled (core : I2cMasterCore) (bus : CoreBus) : Option (Bool × CoreBus) := do
  let (read, bus) ← readCoreRegister core bus I2C_MC_REG_CONTROL
  some (decide (read.value &&& CORE_CTRL_MASK_ENABLE = CORE_CTRL_ENABLED), bus)

def stopTransferIfBusy (core : I2cMasterCore) (bus : CoreBus) : Option (Int × CoreBus) := do
  let (busy, bus) ← isBusBusy core bus
  if busy then
    let (ret, bus) ← writeStop core bus
    some (if menIsError ret then STATUS_ERROR else STATUS_OK, bus)
  else some (STATUS_OK, bus)

def enableCore (core : I2cMasterCore) (bus : CoreBus) : Option (Int × CoreBus) := do
  let (enabled, bus) ← isCoreEnabled core bus
  let bus ← if enabled then some bus
    else modifyRwRegister core bus I2C_MC_REG_CONTROL CORE_CTRL_MASK_ENABLE CORE_CTRL_ENABLED
  stopTransferIfBusy core bus

/-! ### What a stop reports -/

def StatusIdle (status : BitVec 8) : Prop := status &&& I2C_MC_STATUS_MASK_BUS_STATUS = I2C_MC_STATUS_BUS_IDLE

instance (status : BitVec 8) : Decidable (StatusIdle status) :=
  inferInstanceAs (Decidable (_ = _))

/-- A status that was read since `bus` showed the bus idle. -/
def SeenIdle (bus after : CoreBus) : Prop :=
  ∃ seen, after.seen = bus.seen ++ seen ∧ ∃ status, (I2C_MC_REG_STATUS, status) ∈ seen ∧ StatusIdle status

/-- Success if and only if the bus was seen idle. -/
def ReportsIdle (bus : CoreBus) (r : Int × CoreBus) : Prop := r.1 = STATUS_OK ↔ SeenIdle bus r.2

/-- The next status shows the bus idle. -/
def FirstStatusIdle (bus : CoreBus) : Prop :=
  ∃ read reads, bus.reads I2C_MC_REG_STATUS = read :: reads ∧ StatusIdle read.value

/-- The status that a wait looks for, or one of these bits. -/
def SawIdle (seen : List (BitVec 8 × BitVec 8)) : Prop :=
  ∃ status, (I2C_MC_REG_STATUS, status) ∈ seen ∧ StatusIdle status

variable {core : I2cMasterCore} {bus after : CoreBus} {seen more : List (BitVec 8 × BitVec 8)}
  {address value statusMask desiredStatus status : BitVec 8} {read : CoreRead} {r : Int × CoreBus}

theorem seenIdle_iff (h : after.seen = bus.seen ++ seen) : SeenIdle bus after ↔ SawIdle seen := by
  constructor
  · rintro ⟨seen', heq, hidle⟩
    rw [h] at heq
    rw [List.append_cancel_left heq]
    exact hidle
  · intro hidle
    exact ⟨seen, h, hidle⟩

theorem sawIdle_append : SawIdle (seen ++ more) ↔ SawIdle seen ∨ SawIdle more := by
  unfold SawIdle
  constructor
  · rintro ⟨status, hmem, hidle⟩
    rcases List.mem_append.mp hmem with hmem | hmem
    · exact Or.inl ⟨status, hmem, hidle⟩
    · exact Or.inr ⟨status, hmem, hidle⟩
  · rintro (⟨status, hmem, hidle⟩ | ⟨status, hmem, hidle⟩)
    · exact ⟨status, List.mem_append_left _ hmem, hidle⟩
    · exact ⟨status, List.mem_append_right _ hmem, hidle⟩

theorem sawIdle_status : SawIdle [(I2C_MC_REG_STATUS, value)] ↔ StatusIdle value := by
  unfold SawIdle
  simp

/-- Values of other registers show nothing of the bus. -/
theorem not_sawIdle (h : ∀ entry ∈ seen, entry.1 ≠ I2C_MC_REG_STATUS) : ¬SawIdle seen := by
  rintro ⟨status, hmem, -⟩
  exact h _ hmem rfl

theorem isBusBusy_iff (status : BitVec 8) :
    status &&& I2C_MC_STATUS_MASK_BUS_STATUS = I2C_MC_STATUS_BUS_BUSY ↔ ¬StatusIdle status := by
  unfold StatusIdle
  revert status
  decide

/-- The value that stands for a failure is none of an idle bus. -/
theorem not_idle_failed : ¬StatusIdle I2C_MC_GET_STATUS_FAILED := by decide

/-! ### The accesses to the core -/

@[simp] theorem safeWrite_seen (a : Nat) : (safeWrite core bus a value).seen = bus.seen := rfl

@[simp] theorem safeWrite_reads (a : Nat) : (safeWrite core bus a value).reads = bus.reads := rfl

@[simp] theorem writeCoreRegister_seen : (writeCoreRegister core bus address value).seen = bus.seen := by
  unfold writeCoreRegister
  split_ifs <;> rfl

@[simp] theorem writeCoreRegister_reads :
    (writeCoreRegister core bus address value).reads = bus.reads := by
  unfold writeCoreRegister
  split_ifs <;> rfl

theorem readCoreRegister_eq (ha : address ≠ I2C_MC_REG_RECEIVE)
    (h : readCoreRegister core bus address = some (read, after)) :
    ∃ reads, bus.reads address = read :: reads ∧ after.reads = Function.update bus.reads address reads ∧
      after.seen = bus.seen ++ [(address, read.value)] := by
  unfold readCoreRegister at h
  rw [if_neg fun hand => ha hand.1] at h
  dsimp only [safeWrite_reads, safeWrite_seen] at h
  split at h
  · exact absurd h (by simp)
  · rename_i first reads heq
    obtain ⟨rfl, rfl⟩ := Prod.mk.inj (Option.some.inj h)
    exact ⟨reads, heq, rfl, rfl⟩

theorem getCoreStatus_eq (h : getCoreStatus core bus = some (read, after)) :
    ∃ reads, bus.reads I2C_MC_REG_STATUS = read :: reads ∧
      after.seen = bus.seen ++ [(I2C_MC_REG_STATUS, read.value)] := by
  obtain ⟨reads, hreads, -, hseen⟩ := readCoreRegister_eq (by decide) h
  exact ⟨reads, hreads, hseen⟩

/-- A wait reads the status only, and ends with the first value it looks for, if there is one. -/
theorem pollCoreStatus_eq (todo : Nat) : ∀ bus,
    pollCoreStatus core I2C_MC_STATUS_MASK_BUS_STATUS I2C_MC_STATUS_BUS_IDLE todo bus = some (status, after) →
    ∃ seen, after.seen = bus.seen ++ seen ∧ (SawIdle seen ↔ StatusIdle status) := by
  induction todo with
  | zero =>
    intro bus h
    exact absurd h (by simp [pollCoreStatus])
  | succ todo ih =>
    intro bus h
    rw [pollCoreStatus] at h
    obtain ⟨⟨read, bus'⟩, hread, h⟩ := Option.bind_eq_some_iff.mp h
    obtain ⟨-, -, hseen⟩ := getCoreStatus_eq hread
    dsimp only at h
    split_ifs at h with hagain
    · obtain ⟨seen, hafter, hidle⟩ := ih bus' h
      refine ⟨[(I2C_MC_REG_STATUS, read.value)] ++ seen, ?_, ?_⟩
      · rw [hafter, hseen, List.append_assoc]
      · rw [sawIdle_append, sawIdle_status, hidle]
        exact or_iff_right hagain.1
    · obtain ⟨rfl, rfl⟩ := Prod.mk.inj (Option.some.inj h)
      exact ⟨[(I2C_MC_REG_STATUS, read.value)], hseen, sawIdle_status⟩

theorem waitForIdle_eq
    (h : waitForCoreStatus core bus I2C_MC_STATUS_MASK_BUS_STATUS I2C_MC_STATUS_BUS_IDLE = some (status, after)) :
    ∃ seen, after.seen = bus.seen ++ seen ∧ (status = I2C_MC_GET_STATUS_FAILED ↔ ¬SawIdle seen) := by
  unfold waitForCoreStatus at h
  obtain ⟨⟨final, bus'⟩, hpoll, h⟩ := Option.bind_eq_some_iff.mp h
  obtain ⟨seen, hseen, hidle⟩ := pollCoreStatus_eq _ bus hpoll
  obtain ⟨hstatus, rfl⟩ := Prod.mk.inj (Option.some.inj h)
  refine ⟨seen, hseen, ?_⟩
  rw [← hstatus, hidle]
  split_ifs with hbusy
  · exact iff_of_true rfl hbusy
  · have hfinal : StatusIdle final := not_not.mp hbusy
    refine iff_of_false ?_ (not_not.mpr hfinal)
    intro heq
    rw [heq] at hfinal
    exact not_idle_failed hfinal

theorem writeStop_of_none (hbus : core.activeBus = none) :
    writeStop core bus = some (STATUS_ERR_INVALID_STATE, bus) := by
  unfold writeStop
  rw [hbus]
  rfl

/-- With an active bus a stop succeeds when it did not see the bus idle. -/
theorem writeStop_eq (hbus : core.activeBus ≠ none) (h : writeStop core bus = some r) :
    ∃ seen, r.2.seen = bus.seen ++ seen ∧ (r.1 = STATUS_OK ∨ r.1 = STATUS_ERROR) ∧
      (r.1 = STATUS_OK ↔ ¬SawIdle seen) := by
  unfold writeStop at h
  rw [if_neg (by simpa using hbus)] at h
  obtain ⟨⟨status, after⟩, hwait, h⟩ := Option.bind_eq_some_iff.mp h
  obtain ⟨seen, hseen, hfailed⟩ := waitForIdle_eq hwait
  rw [writeCoreRegister_seen] at hseen
  obtain rfl := Option.some.inj h
  refine ⟨seen, hseen, ?_, ?_⟩
  · dsimp only
    split_ifs
    · exact Or.inl rfl
    · exact Or.inr rfl
  · rw [← hfailed]
    dsimp only
    split_ifs with heq
    · exact iff_of_true rfl heq
    · exact iff_of_false (by decide) heq

/-- A stop without an active bus reports the truth, as it waits for nothing; another one never does. -/
theorem writeStop_reports_iff (h : writeStop core bus = some r) :
    ReportsIdle bus r ↔ core.activeBus = none := by
  unfold ReportsIdle
  by_cases hbus : core.activeBus = none
  · rw [writeStop_of_none hbus] at h
    obtain rfl := Option.some.inj h
    have hnone : ¬SeenIdle bus bus := by
      rw [seenIdle_iff (List.append_nil _).symm]
      exact not_sawIdle (by simp)
    have hret : ¬STATUS_ERR_INVALID_STATE = STATUS_OK := by decide
    exact iff_of_true (iff_of_false hret hnone) hbus
  · obtain ⟨seen, hseen, -, hok⟩ := writeStop_eq hbus h
    rw [seenIdle_iff hseen, hok]
    exact iff_of_false (fun h => (iff_not_self h.symm)) hbus

/-- What was seen before does not matter when it showed no idle bus. -/
theorem reportsIdle_of_not_idle {bus' : CoreBus} (h : bus'.seen = bus.seen ++ seen) (hseen : ¬SawIdle seen)
    (hafter : r.2.seen = bus'.seen ++ more) : ReportsIdle bus r ↔ ReportsIdle bus' r := by
  unfold ReportsIdle
  have hall : r.2.seen = bus.seen ++ (seen ++ more) := by rw [hafter, h, List.append_assoc]
  rw [seenIdle_iff hafter, seenIdle_iff hall, sawIdle_append, or_iff_right hseen]

theorem stopTransferIfBusy_reports_iff (h : stopTransferIfBusy core bus = some r) :
    (∃ seen, r.2.seen = bus.seen ++ seen) ∧
      (ReportsIdle bus r ↔ core.activeBus = none ∨ FirstStatusIdle bus) := by
  unfold stopTransferIfBusy isBusBusy coreHasStatus at h
  obtain ⟨⟨busy, bus'⟩, hbusy, h⟩ := Option.bind_eq_some_iff.mp h
  obtain ⟨⟨read, bus''⟩, hread, hbusy⟩ := Option.bind_eq_some_iff.mp hbusy
  obtain ⟨rfl, rfl⟩ := Prod.mk.inj (Option.some.inj hbusy)
  obtain ⟨reads, hreads, hseen⟩ := getCoreStatus_eq hread
  have hfirst : FirstStatusIdle bus ↔ StatusIdle read.value := by
    constructor
    · rintro ⟨read', reads', heq, hidle⟩
      rw [hreads] at heq
      rwa [(List.cons.inj heq).1]
    · intro hidle
      exact ⟨read, reads, hreads, hidle⟩
  rw [hfirst]
  dsimp only at h
  split_ifs at h with hbusy
  · have hidle := (isBusBusy_iff read.value).mp (of_decide_eq_true hbusy)
    rw [or_iff_left hidle]
    obtain ⟨⟨ret, after⟩, hstop, h⟩ := Option.bind_eq_some_iff.mp h
    obtain rfl := Option.some.inj h
    have hreports := writeStop_reports_iff hstop
    by_cases hnone : core.activeBus = none
    · rw [writeStop_of_none hnone] at hstop
      obtain ⟨rfl, rfl⟩ := Prod.mk.inj (Option.some.inj hstop)
      have hret : ¬STATUS_ERROR = STATUS_OK := by decide
      refine ⟨⟨_, hseen⟩, iff_of_true (iff_of_false hret ?_) hnone⟩
      rw [seenIdle_iff hseen, sawIdle_status]
      exact hidle
    · obtain ⟨seen, hafter, hret, -⟩ := writeStop_eq hnone hstop
      have hall : after.seen = bus.seen ++ ([(I2C_MC_REG_STATUS, read.value)] ++ seen) := by
        rw [hafter, hseen, List.append_assoc]
      have hsame : (if menIsError ret then STATUS_ERROR else STATUS_OK) = ret := by
        rcases hret with rfl | rfl <;> rfl
      refine ⟨⟨_, hall⟩, ?_⟩
      dsimp only
      rw [hsame, reportsIdle_of_not_idle hseen (sawIdle_status.not.mpr hidle) hafter, hreports]
  · have hidle : StatusIdle read.value := by
      by_contra hnot
      exact hbusy (decide_eq_true ((isBusBusy_iff read.value).mpr hnot))
    obtain rfl := Option.some.inj h
    refine ⟨⟨_, hseen⟩, iff_of_true (iff_of_true rfl ?_) (Or.inr hidle)⟩
    rw [seenIdle_iff hseen, sawIdle_status]
    exact hidle

/-- The accesses of `enable_core` before it looks at the bus are to the control register. -/
theorem enableCore_eq (h : enableCore core bus = some r) :
    ∃ bus' seen, bus'.seen = bus.seen ++ seen ∧ ¬SawIdle seen ∧
      bus'.reads I2C_MC_REG_STATUS = bus.reads I2C_MC_REG_STATUS ∧ stopTransferIfBusy core bus' = some r := by
  unfold enableCore isCoreEnabled at h
  obtain ⟨⟨enabled, bus₁⟩, henabled, h⟩ := Option.bind_eq_some_iff.mp h
  obtain ⟨⟨read, bus₁'⟩, hread, henabled⟩ := Option.bind_eq_some_iff.mp henabled
  obtain ⟨rfl, rfl⟩ := Prod.mk.inj (Option.some.inj henabled)
  obtain ⟨reads, -, hreads, hseen⟩ := readCoreRegister_eq (by decide) hread
  have hne : I2C_MC_REG_STATUS ≠ I2C_MC_REG_CONTROL := by decide
  dsimp only at h
  split_ifs at h
  · refine ⟨bus₁', _, hseen, not_sawIdle (by simpa using hne.symm), ?_, h⟩
    rw [hreads, Function.update_of_ne hne]
  · obtain ⟨bus', hbus', h⟩ := Option.bind_eq_some_iff.mp h
    unfold modifyRwRegister at hbus'
    obtain ⟨⟨read₂, bus₂⟩, hread₂, hbus'⟩ := Option.bind_eq_some_iff.mp hbus'
    obtain ⟨reads₂, -, hreads₂, hseen₂⟩ := readCoreRegister_eq (by decide) hread₂
    obtain rfl := Option.some.inj hbus'
    refine ⟨_, [(I2C_MC_REG_CONTROL, read.value), (I2C_MC_REG_CONTROL, read₂.value)], ?_,
      not_sawIdle (by simpa using hne.symm), ?_, h⟩
    · rw [writeCoreRegister_seen, hseen₂, hseen, List.append_assoc]
      rfl
    · rw [writeCoreRegister_reads, hreads₂, Function.update_of_ne hne, hreads, Function.update_of_ne hne]

theorem enableCore_reports_iff (h : enableCore core bus = some r) :
    ReportsIdle bus r ↔ core.activeBus = none ∨ FirstStatusIdle bus := by
  obtain ⟨bus', seen, hseen, hnot, hreads, hstop⟩ := enableCore_eq h
  obtain ⟨⟨more, hafter⟩, hreports⟩ := stopTransferIfBusy_reports_iff hstop
  rw [reportsIdle_of_not_idle hseen hnot hafter, hreports]
  unfold FirstStatusIdle
  rw [hreads]

/-- A wait returns when its timeout elapses at last. -/
theorem pollCoreStatus_returns (reads : List CoreRead) : ∀ bus, bus.reads I2C_MC_REG_STATUS = reads →
    (∃ read ∈ reads, read.elapsed = true) →
    (pollCoreStatus core statusMask desiredStatus reads.length bus).isSome := by
  induction reads with
  | nil =>
    rintro bus - ⟨read, hmem, -⟩
    exact absurd hmem List.not_mem_nil
  | cons read reads ih =>
    intro bus hreads helapsed
    rw [List.length_cons, pollCoreStatus]
    unfold getCoreStatus readCoreRegister
    rw [if_neg fun h => absurd h.1 (by decide)]
    simp only [safeWrite_reads, hreads, Option.bind_eq_bind, Option.bind_some]
    split_ifs with hagain
    · refine ih _ (Function.update_self I2C_MC_REG_STATUS reads bus.reads) ?_
      obtain ⟨late, hmem, hlate⟩ := helapsed
      rcases List.mem_cons.mp hmem with rfl | hmem
      · exact absurd (hagain.2.symm.trans hlate) Bool.false_ne_true
      · exact ⟨late, hmem, hlate⟩
    · rfl

theorem writeStop_returns (h : ∃ read ∈ bus.reads I2C_MC_REG_STATUS, read.elapsed = true) :
    (writeStop core bus).isSome := by
  unfold writeStop
  split_ifs with hbus
  · rfl
  · have hpoll : (pollCoreStatus core I2C_MC_STATUS_MASK_BUS_STATUS I2C_MC_STATUS_BUS_IDLE
        (bus.reads I2C_MC_REG_STATUS).length
          (writeCoreRegister core bus I2C_MC_REG_COMMAND I2C_COMMAND_STOP)).isSome :=
      pollCoreStatus_returns _ _ (congrFun writeCoreRegister_reads _) h
    obtain ⟨⟨status, after⟩, hpoll⟩ := Option.isSome_iff_exists.mp hpoll
    simp only [waitForCoreStatus, writeCoreRegister_reads, hpoll]
    rfl

/-- Each of the three functions reports the truth only where it waits for nothing. -/
theorem i2c_stop_reports_iff (core : I2cMasterCore) (bus : CoreBus) (r : Int × CoreBus) :
    (writeStop core bus = some r → (ReportsIdle bus r ↔ core.activeBus = none)) ∧
      (stopTransferIfBusy core bus = some r →
        (ReportsIdle bus r ↔ core.activeBus = none ∨ FirstStatusIdle bus)) ∧
      (enableCore core bus = some r →
        (ReportsIdle bus r ↔ core.activeBus = none ∨ FirstStatusIdle bus)) :=
  ⟨writeStop_reports_iff, fun h => (stopTransferIfBusy_reports_iff h).2, enableCore_reports_iff⟩

/-- A core on its first bank, whose status register gives these values in turn. -/
def coreOnBank : I2cMasterCore :=
  { i2cCtrlAddressRegister := 0x10
    i2cCtrlWriteRegister := 0x11
    i2cCtrlReadRegister := 0x11
    numSafetyWrites := 1
    activeBus := some ⟨0, 0, 0⟩
    currentBurstFlags := 0 }

def coreBusOf (control status : List CoreRead) : CoreBus :=
  { reads := fun address => if address = I2C_MC_REG_CONTROL then control else status
    seen := []
    written := [] }

/-- A bus that clears during the wait is reported as a failure, and one that never clears as a success. -/
theorem i2c_stop_reports_inverted :
    (∃ r, writeStop coreOnBank (coreBusOf [] [⟨0x40#8, false⟩, ⟨0#8, false⟩]) = some r ∧
      ¬ReportsIdle (coreBusOf [] [⟨0x40#8, false⟩, ⟨0#8, false⟩]) r) ∧
    (∃ r, stopTransferIfBusy coreOnBank (coreBusOf [] [⟨0x40#8, false⟩, ⟨0x40#8, true⟩]) = some r ∧
      ¬ReportsIdle (coreBusOf [] [⟨0x40#8, false⟩, ⟨0x40#8, true⟩]) r) ∧
    ∃ r, enableCore coreOnBank (coreBusOf [⟨0x80#8, false⟩] [⟨0x40#8, false⟩, ⟨0#8, false⟩]) = some r ∧
      ¬ReportsIdle (coreBusOf [⟨0x80#8, false⟩] [⟨0x40#8, false⟩, ⟨0#8, false⟩]) r := by
  have hbus : coreOnBank.activeBus ≠ none := Option.some_ne_none _
  have hbusy : ∀ control reads, ¬FirstStatusIdle (coreBusOf control (⟨0x40#8, false⟩ :: reads)) := by
    rintro control reads ⟨read, rest, heq, hidle⟩
    obtain ⟨rfl, -⟩ := List.cons.inj heq
    exact absurd hidle (by decide)
  refine ⟨⟨_, rfl, ?_⟩, ⟨_, rfl, ?_⟩, ⟨_, rfl, ?_⟩⟩
  · exact (writeStop_reports_iff rfl).not.mpr hbus
  · exact (stopTransferIfBusy_reports_iff rfl).2.not.mpr (not_or.mpr ⟨hbus, hbusy _ _⟩)
  · exact (enableCore_reports_iff rfl).not.mpr (not_or.mpr ⟨hbus, hbusy _ _⟩)

/-- A core whose bus is idle is enabled, and says so. -/
theorem i2c_stop_reports_idle :
    ∃ r, enableCore coreOnBank (coreBusOf [⟨0#8, false⟩, ⟨0#8, false⟩] [⟨0#8, false⟩]) = some r ∧
      ReportsIdle (coreBusOf [⟨0#8, false⟩, ⟨0#8, false⟩] [⟨0#8, false⟩]) r := by
  have h := i2c_stop_reports_iff coreOnBank (coreBusOf [⟨0#8, false⟩, ⟨0#8, false⟩] [⟨0#8, false⟩])
  exact ⟨_, rfl, ((h _).2.2 rfl).mpr (Or.inr ⟨⟨0#8, false⟩, [], rfl, by decide⟩)⟩

end MenableDriver
