import MenableDriver.Controllers.I2cBursts

/-!
# The banks of an I2C core

Up to eight buses share an I2C core, each with a controller of its own (`i2c_bus_controller.c`), which activates
its bank before a transaction. The transfers of a transaction go to the bank of its own bus then, with the clock
of that bus, whatever the other controllers did before.
-/

namespace MenableDriver

set_option autoImplicit false

def CORE_CTRL_DISABLED : BitVec 8 := 0#8

/-- `struct i2c_master_core_bus_cfg` with the frequency; a bus with the frequency zero is not configured. -/
structure I2cBusConfiguration where
  cfg : I2cMasterCoreBusCfg
  busFrequency : Word

/-- A core with its buses. What is active is in `I2cBanks`. -/
structure I2cBoard where
  core : I2cMasterCore
  firmwareClockFrequency : Word
  busConfigurations : Fin 8 → I2cBusConfiguration

/-- What changes: the bank that is active, the fields of the base class and the registers. -/
structure I2cBanks where
  activeBus : Option (Fin 8)
  base : BurstState
  shots : I2cState

/-- The core between two bursts. -/
def I2cBoard.on (board : I2cBoard) (activeBus : Option (Fin 8)) : I2cMasterCore :=
  { board.core with
    activeBus := activeBus.map fun bank => (board.busConfigurations bank).cfg
    currentBurstFlags := 0 }

/-- An error of the stop is not looked at. -/
def disableCore (core : I2cMasterCore) (bus : CoreBus) : Option CoreBus := do
  let (enabled, bus) ← isCoreEnabled core bus
  if enabled then
    let (_, bus) ← stopTransferIfBusy core bus
    modifyRwRegister core bus I2C_MC_REG_CONTROL CORE_CTRL_MASK_ENABLE CORE_CTRL_DISABLED
  else some bus

def coreFrequency (firmwareClockFrequency busFrequency : Word) : Word :=
  firmwareClockFrequency / (5 * busFrequency) - 1

/-- The order of the two reads is up to the compiler; here the lower byte is first. -/
def adjustCoreFrequency (core : I2cMasterCore) (firmwareClockFrequency busFrequency : Word) (bus : CoreBus) :
    Option (Int × CoreBus) :=
  if core.activeBus.isNone then some (STATUS_ERR_INVALID_STATE, bus)
  else
    let coreFreq := coreFrequency firmwareClockFrequency busFrequency
    if 0x10000#32 ≤ coreFreq then some (STATUS_ERR_INVALID_ARGUMENT, bus)
    else do
      let bus := writeCoreRegister core bus I2C_MC_REG_PRESCALE_LOW (coreFreq.setWidth 8)
      let bus := writeCoreRegister core bus I2C_MC_REG_PRESCALE_HIGH ((coreFreq >>> 8).setWidth 8)
      let (low, bus) ← readCoreRegister core bus I2C_MC_REG_PRESCALE_LOW
      let (high, bus) ← readCoreRegister core bus I2C_MC_REG_PRESCALE_HIGH
      let newCoreFreq := low.value.setWidth 32 ||| high.value.setWidth 32 <<< 8
      some (if newCoreFreq = coreFreq then STATUS_OK else STATUS_ERROR, bus)

/-- The results of the three steps are not looked at. -/
def activateBank (board : I2cBoard) (s : I2cBanks) (bank : Fin 8) : Option I2cBanks :=
  let busFrequency := (board.busConfigurations bank).busFrequency
  if busFrequency = 0 then some s
  else if s.activeBus ≠ some bank then do
    let bus ← disableCore (board.on s.activeBus) s.shots.bus
    let core := board.on (some bank)
    let (_, bus) ← adjustCoreFrequency core board.firmwareClockFrequency busFrequency bus
    let (_, bus) ← enableCore core bus
    some { s with activeBus := some bank, shots := { s.shots with bus } }
  else some s

def handleBeginTransaction (board : I2cBoard) (s : I2cBanks) : I2cBanks :=
  { s with shots := { s.shots with bus := activateI2cCoreOnBank (board.on s.activeBus) s.shots.bus true } }

def handleEndTransaction (board : I2cBoard) (s : I2cBanks) : I2cBanks :=
  { s with shots := { s.shots with bus := activateI2cCoreOnBank (board.on s.activeBus) s.shots.bus false } }

/-- The bursts of a transaction, up to the first one that fails. A change of the state calls a hook that the
controller of a bus does not have. -/
def i2cServe (board : I2cBoard) : List Burst → I2cBanks → Option (Bool × I2cBanks)
  | [], s => some (true, s)
  | .stateChange _ :: _, _ => none
  | burst :: bursts, s => do
    let (served, base, shots) ← serveBurst (i2cStep (board.on s.activeBus)) i2cBase I2cState.buffer s.base s.shots burst
    if served.ret ≠ STATUS_OK then some (false, { s with base, shots })
    else i2cServe board bursts { s with base, shots }

/-- A transaction on the bus with this bank. One that fails is not ended. -/
def i2cTransaction (board : I2cBoard) (s : I2cBanks) (bank : Fin 8) (bursts : List Burst) :
    Option (Bool × I2cBanks) := do
  let s ← activateBank board s bank
  let (ok, s) ← i2cServe board bursts (handleBeginTransaction board s)
  some (ok, if ok then handleEndTransaction board s else s)

def i2cTransactions (board : I2cBoard) : List (Fin 8 × List Burst) → I2cBanks → Option (List Bool × I2cBanks)
  | [], s => some ([], s)
  | (bank, bursts) :: transactions, s => do
    let (ok, s) ← i2cTransaction board s bank bursts
    let (oks, s) ← i2cTransactions board transactions s
    some (ok :: oks, s)

/-! ### What the buses get -/

/-- A command that moves a byte. What is in the transmit register is nothing to a read. -/
def I2cCommand.transfer (command : I2cCommand) : Option I2cCommand :=
  if command.command &&& I2C_COMMAND_WRITE ≠ 0 then some command
  else if command.command &&& I2C_COMMAND_READ ≠ 0 then some { command with byte := 0 }
  else none

def I2cLine.transfers (line : I2cLine) : List I2cCommand := line.commands.filterMap I2cCommand.transfer

/-- The bank that is active, and the prescaler. -/
structure I2cSelection where
  bank : Option (Fin 8)
  prescale : BitVec 16
deriving DecidableEq

/-- Which bus is selected for a transaction. The prescaler is left alone if the frequency does not fit. -/
def I2cBoard.select (board : I2cBoard) (selection : I2cSelection) (bank : Fin 8) : I2cSelection :=
  let busFrequency := (board.busConfigurations bank).busFrequency
  if busFrequency = 0 ∨ selection.bank = some bank then selection
  else
    let coreFreq := coreFrequency board.firmwareClockFrequency busFrequency
    ⟨some bank, if 0x10000#32 ≤ coreFreq then selection.prescale else coreFreq.setWidth 16⟩

/-- The transfers of a burst that is served to its end. -/
def I2cBoard.transfers (board : I2cBoard) (selection : I2cSelection) : Burst → List I2cCommand
  | .write flags bytes => i2cWriteTrace (board.on selection.bank) (flags.setWidth 8) selection.prescale bytes
  | .read flags size => i2cReadTrace (board.on selection.bank) (flags.setWidth 8) selection.prescale 0 size
  | .stateChange _ => []

/-- Each transaction has the transfers of its bursts on its own bus, or the first ones of them if it fails. -/
def I2cBoard.Carries (board : I2cBoard) :
    I2cSelection → List (Fin 8 × List Burst) → List Bool → List I2cCommand → I2cSelection → Prop
  | selection, [], oks, transfers, last => oks = [] ∧ transfers = [] ∧ last = selection
  | selection, (bank, bursts) :: transactions, oks, transfers, last =>
    ∃ ok oks' own rest, oks = ok :: oks' ∧ transfers = own ++ rest ∧
      own <+: bursts.flatMap (board.transfers (board.select selection bank)) ∧
      (ok = true → own = bursts.flatMap (board.transfers (board.select selection bank))) ∧
      board.Carries (board.select selection bank) transactions oks' rest last

/-- What `i2c_master_core_configure_bus` leaves to those who call it: the bits of a bus are none of an address. -/
structure I2cBoard.WellFormed (board : I2cBoard) : Prop where
  registers : board.core.i2cCtrlAddressRegister ≠ board.core.i2cCtrlWriteRegister
  address : board.core.i2cCtrlAddressRegister ≠ 0
  write : board.core.i2cCtrlWriteRegister ≠ 0
  banks : ∀ bank, (board.busConfigurations bank).cfg.bankActivationBit &&& 0x07#8 = 0 ∧
    (board.busConfigurations bank).cfg.writeEnableBit &&& 0x07#8 = 0

variable {board : I2cBoard} {core : I2cMasterCore} {bus after : CoreBus}

theorem I2cBoard.WellFormed.on (h : board.WellFormed) (activeBus : Option (Fin 8)) :
    (board.on activeBus).WellFormed := by
  refine ⟨h.registers, h.address, h.write, ?_⟩
  intro cfg hcfg
  obtain ⟨bank, -, rfl⟩ := Option.map_eq_some_iff.mp hcfg
  exact h.banks bank

/-! ### Steps without a transfer -/

/-- Nothing moves on the bus, and the prescaler is kept. -/
structure I2cMasterCore.Quiet (core : I2cMasterCore) (bus after : CoreBus) : Prop where
  transfers : (core.line after.written).transfers = (core.line bus.written).transfers
  prescale : (core.line after.written).prescale = (core.line bus.written).prescale

theorem I2cMasterCore.Quiet.refl (core : I2cMasterCore) (bus : CoreBus) : core.Quiet bus bus := ⟨rfl, rfl⟩

theorem I2cMasterCore.Quiet.trans {a b c : CoreBus} (h : core.Quiet a b) (h' : core.Quiet b c) : core.Quiet a c :=
  ⟨h'.transfers.trans h.transfers, h'.prescale.trans h.prescale⟩

theorem I2cMasterCore.Polls.quiet (h : core.Polls bus after) : core.Quiet bus after :=
  ⟨congrArg (List.filterMap I2cCommand.transfer) h.commands, h.prescale⟩

theorem readCoreRegister_quiet (h : core.WellFormed) {address : BitVec 8} (haddress : address ≠ I2C_MC_REG_RECEIVE)
    {read : CoreRead} (hread : readCoreRegister core bus address = some (read, after)) : core.Quiet bus after := by
  obtain ⟨hline, -⟩ := line_readCoreRegister h (fun heq => absurd heq haddress) hread
  exact ⟨by rw [hline]; rfl, by rw [hline]; rfl⟩

theorem line_control (h : core.WellFormed) (value : BitVec 8) :
    core.Quiet bus (writeCoreRegister core bus I2C_MC_REG_CONTROL value) := by
  have hline := @line_writeCoreRegister core bus h I2C_MC_REG_CONTROL (fun heq => absurd heq (by decide)) value
  obtain ⟨hlow, -⟩ := address_split I2C_MC_REG_CONTROL (by decide) (additionalControlBits_high h)
  rw [I2cLine.store] at hline
  dsimp only at hline
  rw [hlow, if_neg (by decide), if_neg (by decide), if_neg (by decide), if_neg (by decide)] at hline
  exact ⟨by rw [hline]; rfl, by rw [hline]; rfl⟩

theorem modifyRwRegister_quiet (h : core.WellFormed) {modifyMask modifiedBits : BitVec 8}
    (hmodify : modifyRwRegister core bus I2C_MC_REG_CONTROL modifyMask modifiedBits = some after) :
    core.Quiet bus after := by
  obtain ⟨⟨read, bus'⟩, hread, hmodify⟩ := Option.bind_eq_some_iff.mp hmodify
  obtain rfl := Option.some.inj hmodify
  exact (readCoreRegister_quiet h (by decide) hread).trans (line_control h _)

/-- A stop moves no byte. -/
theorem transfer_stop (control : BitVec 8) (prescale : BitVec 16) (byte : BitVec 8) :
    I2cCommand.transfer ⟨control, prescale, byte, I2C_COMMAND_STOP⟩ = none := by
  rw [I2cCommand.transfer]
  dsimp only
  rw [if_neg (by decide), if_neg (by decide)]

theorem writeStop_quiet (h : core.WellFormed) {ret : Int} (hstop : writeStop core bus = some (ret, after)) :
    core.Quiet bus after := by
  unfold writeStop at hstop
  split_ifs at hstop
  · obtain ⟨-, rfl⟩ := Prod.mk.inj (Option.some.inj hstop)
    exact I2cMasterCore.Quiet.refl core bus
  · obtain ⟨⟨status, waited⟩, hwait, hstop⟩ := Option.bind_eq_some_iff.mp hstop
    obtain ⟨-, rfl⟩ : _ ∧ waited = after := Prod.mk.inj (Option.some.inj hstop)
    have hline := @line_command core bus h I2C_COMMAND_STOP
    refine I2cMasterCore.Quiet.trans ⟨?_, ?_⟩ (waitForCoreStatus_polls h hwait).quiet
    · rw [hline, I2cLine.transfers, List.filterMap_append, List.filterMap_cons_none (transfer_stop _ _ _),
        List.filterMap_nil, List.append_nil]
      rfl
    · rw [hline]
      rfl

theorem stopTransferIfBusy_quiet (h : core.WellFormed) {ret : Int}
    (hstop : stopTransferIfBusy core bus = some (ret, after)) : core.Quiet bus after := by
  unfold stopTransferIfBusy isBusBusy coreHasStatus at hstop
  obtain ⟨⟨busy, bus'⟩, hbusy, hstop⟩ := Option.bind_eq_some_iff.mp hstop
  obtain ⟨⟨read, bus''⟩, hread, hbusy⟩ := Option.bind_eq_some_iff.mp hbusy
  obtain ⟨-, rfl⟩ : _ ∧ bus'' = bus' := Prod.mk.inj (Option.some.inj hbusy)
  have hquiet := (getCoreStatus_polls h hread).quiet
  dsimp only at hstop
  split_ifs at hstop
  · obtain ⟨⟨stopped, bus₃⟩, hwrite, hstop⟩ := Option.bind_eq_some_iff.mp hstop
    obtain ⟨-, rfl⟩ : _ ∧ bus₃ = after := Prod.mk.inj (Option.some.inj hstop)
    exact hquiet.trans (writeStop_quiet h hwrite)
  · obtain ⟨-, rfl⟩ := Prod.mk.inj (Option.some.inj hstop)
    exact hquiet

theorem isCoreEnabled_quiet (h : core.WellFormed) {enabled : Bool}
    (henabled : isCoreEnabled core bus = some (enabled, after)) : core.Quiet bus after := by
  obtain ⟨⟨read, bus'⟩, hread, henabled⟩ := Option.bind_eq_some_iff.mp henabled
  obtain ⟨-, rfl⟩ : _ ∧ bus' = after := Prod.mk.inj (Option.some.inj henabled)
  exact readCoreRegister_quiet h (by decide) hread

theorem disableCore_quiet (h : core.WellFormed) (hdisable : disableCore core bus = some after) :
    core.Quiet bus after := by
  unfold disableCore at hdisable
  obtain ⟨⟨enabled, bus'⟩, henabled, hdisable⟩ := Option.bind_eq_some_iff.mp hdisable
  have hquiet := isCoreEnabled_quiet h henabled
  dsimp only at hdisable
  split_ifs at hdisable
  · obtain ⟨⟨ret, bus''⟩, hstop, hdisable⟩ := Option.bind_eq_some_iff.mp hdisable
    exact (hquiet.trans (stopTransferIfBusy_quiet h hstop)).trans (modifyRwRegister_quiet h hdisable)
  · obtain rfl := Option.some.inj hdisable
    exact hquiet

theorem enableCore_quiet (h : core.WellFormed) {ret : Int} (henable : enableCore core bus = some (ret, after)) :
    core.Quiet bus after := by
  unfold enableCore at henable
  obtain ⟨⟨enabled, bus'⟩, henabled, henable⟩ := Option.bind_eq_some_iff.mp henable
  have hquiet := isCoreEnabled_quiet h henabled
  dsimp only at henable
  split_ifs at henable
  · exact hquiet.trans (stopTransferIfBusy_quiet h henable)
  · obtain ⟨bus'', hmodify, henable⟩ := Option.bind_eq_some_iff.mp henable
    exact (hquiet.trans (modifyRwRegister_quiet h hmodify)).trans (stopTransferIfBusy_quiet h henable)

theorem activateI2cCoreOnBank_quiet (activate : Bool) : core.Quiet bus (activateI2cCoreOnBank core bus activate) := by
  obtain ⟨address, hline⟩ := @line_activate core core.currentBurstFlags bus activate
  rw [show core.during core.currentBurstFlags = core from rfl] at hline
  exact ⟨by rw [hline]; rfl, by rw [hline]; rfl⟩

/-! ### The clock -/

theorem line_prescaleLow (h : core.WellFormed) (value : BitVec 8) :
    core.line (writeCoreRegister core bus I2C_MC_REG_PRESCALE_LOW value).written =
      { core.line bus.written with
        address := I2C_MC_REG_PRESCALE_LOW ||| additionalControlBits core
        prescaleLow := value } := by
  obtain ⟨hlow, -⟩ := address_split I2C_MC_REG_PRESCALE_LOW (by decide) (additionalControlBits_high h)
  rw [line_writeCoreRegister h (fun heq => absurd heq (by decide)), I2cLine.store]
  dsimp only
  rw [hlow, if_pos rfl]

theorem line_prescaleHigh (h : core.WellFormed) (value : BitVec 8) :
    core.line (writeCoreRegister core bus I2C_MC_REG_PRESCALE_HIGH value).written =
      { core.line bus.written with
        address := I2C_MC_REG_PRESCALE_HIGH ||| additionalControlBits core
        prescaleHigh := value } := by
  obtain ⟨hlow, -⟩ := address_split I2C_MC_REG_PRESCALE_HIGH (by decide) (additionalControlBits_high h)
  rw [line_writeCoreRegister h (fun heq => absurd heq (by decide)), I2cLine.store]
  dsimp only
  rw [hlow, if_neg (by decide), if_pos rfl]

/-- The two bytes of a frequency that fits. -/
theorem frequency_bytes (coreFreq : Word) :
    (coreFreq >>> 8).setWidth 8 ++ coreFreq.setWidth 8 = (coreFreq.setWidth 16 : BitVec 16) := by
  apply BitVec.eq_of_getLsbD_eq
  intro i hi
  simp only [BitVec.getLsbD_append, BitVec.getLsbD_setWidth, BitVec.getLsbD_ushiftRight]
  by_cases hlow : i < 8
  · simp [hlow, hi]
  · have hhigh : i - 8 < 8 := by omega
    simp [hlow, hi, hhigh, Nat.add_sub_cancel' (Nat.le_of_not_lt hlow)]

/-- The prescaler is set before the board is asked whether it is. -/
theorem adjustCoreFrequency_sets (h : core.WellFormed) (hbus : core.activeBus.isSome = true)
    {firmwareClockFrequency busFrequency : Word} {ret : Int}
    (hadjust : adjustCoreFrequency core firmwareClockFrequency busFrequency bus = some (ret, after)) :
    (core.line after.written).transfers = (core.line bus.written).transfers ∧
      (core.line after.written).prescale =
        if 0x10000#32 ≤ coreFrequency firmwareClockFrequency busFrequency then (core.line bus.written).prescale
        else (coreFrequency firmwareClockFrequency busFrequency).setWidth 16 := by
  unfold adjustCoreFrequency at hadjust
  rw [if_neg (by simpa using Option.isSome_iff_ne_none.mp hbus)] at hadjust
  dsimp only at hadjust
  by_cases hfits : 0x10000#32 ≤ coreFrequency firmwareClockFrequency busFrequency
  · rw [if_pos hfits] at hadjust
    obtain ⟨-, rfl⟩ := Prod.mk.inj (Option.some.inj hadjust)
    exact ⟨rfl, (if_pos hfits).symm⟩
  · rw [if_neg hfits] at hadjust
    obtain ⟨⟨low, bus'⟩, hlow, hadjust⟩ := Option.bind_eq_some_iff.mp hadjust
    obtain ⟨⟨high, bus''⟩, hhigh, hadjust⟩ := Option.bind_eq_some_iff.mp hadjust
    obtain ⟨-, rfl⟩ : _ ∧ bus'' = after := Prod.mk.inj (Option.some.inj hadjust)
    obtain ⟨htransfers, hprescale⟩ :=
      (readCoreRegister_quiet h (by decide) hlow).trans (readCoreRegister_quiet h (by decide) hhigh)
    rw [htransfers, hprescale, if_neg hfits, line_prescaleHigh h, line_prescaleLow h]
    exact ⟨rfl, frequency_bytes _⟩

/-! ### A bank is activated -/

/-- The bank and the prescaler that the registers show. -/
structure I2cBoard.Shows (board : I2cBoard) (s : I2cBanks) (selection : I2cSelection) : Prop where
  bank : s.activeBus = selection.bank
  prescale : (board.core.line s.shots.bus.written).prescale = selection.prescale

/-- What moved on the bus so far. -/
def I2cBoard.moved (board : I2cBoard) (s : I2cBanks) : List I2cCommand :=
  (board.core.line s.shots.bus.written).transfers

theorem activateBank_selects (h : board.WellFormed) {s s' : I2cBanks} {selection : I2cSelection} {bank : Fin 8}
    (hs : board.Shows s selection) (hactivate : activateBank board s bank = some s') :
    board.Shows s' (board.select selection bank) ∧ board.moved s' = board.moved s := by
  unfold activateBank at hactivate
  unfold I2cBoard.select
  dsimp only at hactivate ⊢
  by_cases hconfigured : (board.busConfigurations bank).busFrequency = 0
  · rw [if_pos hconfigured] at hactivate
    obtain rfl := Option.some.inj hactivate
    rw [if_pos (.inl hconfigured)]
    exact ⟨hs, rfl⟩
  · rw [if_neg hconfigured] at hactivate
    by_cases hactive : s.activeBus = some bank
    · rw [if_neg (not_not.mpr hactive)] at hactivate
      obtain rfl := Option.some.inj hactivate
      rw [if_pos (.inr (hs.bank.symm.trans hactive))]
      exact ⟨hs, rfl⟩
    · rw [if_pos hactive] at hactivate
      rw [if_neg (not_or.mpr ⟨hconfigured, fun heq => hactive (hs.bank.trans heq)⟩)]
      obtain ⟨disabled, hdisable, hactivate⟩ := Option.bind_eq_some_iff.mp hactivate
      obtain ⟨⟨ret, adjusted⟩, hadjust, hactivate⟩ := Option.bind_eq_some_iff.mp hactivate
      obtain ⟨⟨ret', enabled⟩, henable, hactivate⟩ := Option.bind_eq_some_iff.mp hactivate
      obtain rfl := Option.some.inj hactivate
      have hdisabled := disableCore_quiet (h.on s.activeBus) hdisable
      have hadjusted := adjustCoreFrequency_sets (h.on (some bank)) rfl hadjust
      have henabled := enableCore_quiet (h.on (some bank)) henable
      refine ⟨⟨rfl, ?_⟩, ?_⟩
      · refine henabled.prescale.trans (hadjusted.2.trans ?_)
        rw [← hs.prescale]
        exact if_congr Iff.rfl hdisabled.prescale rfl
      · exact henabled.transfers.trans (hadjusted.1.trans hdisabled.transfers)

/-! ### The transfers of a burst -/

theorem transfer_write (control : BitVec 8) (prescale : BitVec 16) (byte command : BitVec 8) :
    I2cCommand.transfer ⟨control, prescale, byte, I2C_COMMAND_WRITE ||| command⟩ =
      some ⟨control, prescale, byte, I2C_COMMAND_WRITE ||| command⟩ := by
  have hwrite : ∀ command : BitVec 8, (I2C_COMMAND_WRITE ||| command) &&& I2C_COMMAND_WRITE ≠ 0 := by decide
  rw [I2cCommand.transfer]
  dsimp only
  rw [if_pos (hwrite command)]

theorem transfer_read (control : BitVec 8) (prescale : BitVec 16) (byte flags : BitVec 8) (isLastShot : Bool) :
    I2cCommand.transfer ⟨control, prescale, byte, I2C_COMMAND_READ ||| i2cReadCommand flags isLastShot⟩ =
      some ⟨control, prescale, 0, I2C_COMMAND_READ ||| i2cReadCommand flags isLastShot⟩ := by
  have hread : ∀ command : BitVec 8, (I2C_COMMAND_READ ||| command) &&& I2C_COMMAND_READ ≠ 0 := by decide
  have hcommand : (I2C_COMMAND_READ ||| i2cReadCommand flags isLastShot) &&& I2C_COMMAND_WRITE = 0 := by
    unfold i2cReadCommand
    dsimp only
    split_ifs <;> decide
  rw [I2cCommand.transfer]
  dsimp only
  rw [if_neg (not_not.mpr hcommand), if_pos (hread _)]

theorem transfers_writeTrace (flags : BitVec 8) (prescale : BitVec 16) (buf : List (BitVec 8)) (k : Nat) :
    ((i2cWriteTrace core flags prescale buf).take k).filterMap I2cCommand.transfer =
      (i2cWriteTrace core flags prescale buf).take k := by
  unfold i2cWriteTrace
  rw [← List.map_take, List.filterMap_map]
  exact List.filterMap_eq_map_iff_forall_eq_some.mpr fun i _ => transfer_write _ _ _ _

theorem transfers_readTrace (flags : BitVec 8) (prescale : BitVec 16) (transmit : BitVec 8) (size k : Nat) :
    ((i2cReadTrace core flags prescale transmit size).take k).filterMap I2cCommand.transfer =
      (i2cReadTrace core flags prescale 0 size).take k := by
  unfold i2cReadTrace
  rw [← List.map_take, ← List.map_take, List.filterMap_map]
  exact List.filterMap_eq_map_iff_forall_eq_some.mpr fun i _ => transfer_read _ _ _ _ _

/-- What a part of a transaction moves, if it returns: all of its transfers, or the first ones of them. -/
structure I2cBoard.Moves (board : I2cBoard) (s s' : I2cBanks) (selection : I2cSelection) (ok : Prop)
    (transfers own : List I2cCommand) : Prop where
  shows : board.Shows s' selection
  moved : board.moved s' = board.moved s ++ own
  first : own <+: transfers
  all : ok → own = transfers

variable {s : I2cBanks} {selection : I2cSelection} {base : BurstState} {shots : I2cState} {served : Served}

/-- What was issued is moved. -/
theorem moved_of_issued (hs : board.Shows s selection) {commands : List I2cCommand} {transmit : BitVec 8}
    (hissued : (board.on s.activeBus).Issued s.shots.bus shots.bus commands transmit) :
    board.Shows { s with base, shots } selection ∧
      board.moved { s with base, shots } = board.moved s ++ commands.filterMap I2cCommand.transfer := by
  refine ⟨⟨hs.bank, hissued.prescale.trans hs.prescale⟩, ?_⟩
  have hcommands : (board.core.line shots.bus.written).commands =
    (board.core.line s.shots.bus.written).commands ++ commands := hissued.commands
  rw [I2cBoard.moved, I2cLine.transfers, hcommands, List.filterMap_append]
  rfl

theorem moves_of_issued (hs : board.Shows s selection) {trace transfers : List I2cCommand} {ret : Int}
    (htransfers : ∀ k, (trace.take k).filterMap I2cCommand.transfer = transfers.take k)
    (hends : ret = STATUS_OK ∧ (∃ transmit, (board.on s.activeBus).Issued s.shots.bus shots.bus trace transmit) ∨
      ret = STATUS_ERROR ∧ ∃ k prescale byte transmit, (board.on s.activeBus).Issued s.shots.bus shots.bus
        (trace.take k ++ [i2cStop (board.on s.activeBus) prescale byte]) transmit) :
    ∃ own, board.Moves s { s with base, shots } selection (ret = STATUS_OK) transfers own := by
  rcases hends with ⟨rfl, transmit, hissued⟩ | ⟨rfl, k, prescale, byte, transmit, hissued⟩
  · obtain ⟨hshows, hmoved⟩ := @moved_of_issued board s selection base shots hs _ _ hissued
    have hall : trace.filterMap I2cCommand.transfer = transfers := by
      have hlong := htransfers (max trace.length transfers.length)
      rw [List.take_of_length_le (le_max_left _ _), List.take_of_length_le (le_max_right _ _)] at hlong
      exact hlong
    rw [hall] at hmoved
    exact ⟨transfers, hshows, hmoved, List.prefix_refl _, fun _ => rfl⟩
  · obtain ⟨hshows, hmoved⟩ := @moved_of_issued board s selection base shots hs _ _ hissued
    rw [List.filterMap_append, i2cStop, List.filterMap_cons_none (transfer_stop _ _ _), List.filterMap_nil,
      List.append_nil, htransfers] at hmoved
    exact ⟨transfers.take k, hshows, hmoved, List.take_prefix _ _, fun hok => absurd hok (by decide)⟩

/-- Without an active bus nothing is moved, and nothing is to be moved if there is no error. -/
theorem moves_of_inactive (hs : board.Shows s selection) {transfers : List I2cCommand} {ret : Int}
    (hends : ret = STATUS_OK ∧ shots = s.shots ∧ transfers = [] ∨ ret = STATUS_ERROR ∧ shots = s.shots) :
    ∃ own, board.Moves s { s with base, shots } selection (ret = STATUS_OK) transfers own := by
  refine ⟨[], ?_⟩
  rcases hends with ⟨rfl, rfl, rfl⟩ | ⟨rfl, rfl⟩
  · exact ⟨⟨hs.bank, hs.prescale⟩, (List.append_nil _).symm, List.nil_prefix, fun _ => rfl⟩
  · exact ⟨⟨hs.bank, hs.prescale⟩, (List.append_nil _).symm, List.nil_prefix, fun hok => absurd hok (by decide)⟩

theorem i2cWriteBurst_moves (h : board.WellFormed) (hs : board.Shows s selection) {flags : Word}
    {bytes : List (BitVec 8)} (hserve : serveBurst (i2cStep (board.on s.activeBus)) i2cBase I2cState.buffer s.base
      s.shots (.write flags bytes) = some (served, base, shots)) :
    ∃ own, board.Moves s { s with base, shots } selection (served.ret = STATUS_OK)
      (board.transfers selection (.write flags bytes)) own := by
  obtain ⟨⟨ret, base', shots'⟩, hburst, hserve⟩ := Option.map_eq_some_iff.mp hserve
  obtain ⟨rfl, rfl, rfl⟩ : ⟨ret, []⟩ = served ∧ base' = base ∧ shots' = shots := by simpa using hserve
  unfold I2cBoard.transfers
  rw [← hs.bank, ← hs.prescale]
  cases hactive : (board.on s.activeBus).activeBus with
  | none =>
    refine moves_of_inactive hs ?_
    rcases i2cWriteBurst_inactive hactive s.shots s.base flags bytes _ _ _ hburst with
      ⟨hret, hshots, rfl⟩ | ⟨hret, hshots⟩
    · exact .inl ⟨hret, hshots, rfl⟩
    · exact .inr ⟨hret, hshots⟩
  | some cfg =>
    refine moves_of_issued hs (transfers_writeTrace _ _ bytes) ?_
    have hsome : (board.on s.activeBus).activeBus.isSome = true := by
      rw [hactive]
      rfl
    rcases i2cWriteBurst_issues (h.on s.activeBus) hsome s.shots.buffer s.base flags bytes _ _ _ hburst with
      ⟨hret, -, transmit, hissued⟩ | ⟨hret, -, k, -, -, hissued⟩
    · exact .inl ⟨hret, transmit, hissued⟩
    · exact .inr ⟨hret, k, _, _, _, hissued⟩

theorem i2cReadBurst_moves (h : board.WellFormed) (hs : board.Shows s selection) {flags : Word} {size : Nat}
    (hserve : serveBurst (i2cStep (board.on s.activeBus)) i2cBase I2cState.buffer s.base
      s.shots (.read flags size) = some (served, base, shots)) :
    ∃ own, board.Moves s { s with base, shots } selection (served.ret = STATUS_OK)
      (board.transfers selection (.read flags size)) own := by
  obtain ⟨⟨ret, base', shots'⟩, hburst, hserve⟩ := Option.map_eq_some_iff.mp hserve
  obtain ⟨rfl, rfl, rfl⟩ : _ = served ∧ base' = base ∧ shots' = shots := by simpa using hserve
  unfold I2cBoard.transfers
  rw [← hs.bank, ← hs.prescale]
  cases hactive : (board.on s.activeBus).activeBus with
  | none =>
    refine moves_of_inactive hs ?_
    rcases i2cReadBurst_inactive hactive s.shots s.base flags size _ _ _ hburst with
      ⟨hret, hshots, rfl⟩ | ⟨hret, hshots⟩
    · exact .inl ⟨hret, hshots, rfl⟩
    · exact .inr ⟨hret, hshots⟩
  | some cfg =>
    refine moves_of_issued hs (transfers_readTrace _ _ (board.core.line s.shots.bus.written).transmit size) ?_
    have hsome : (board.on s.activeBus).activeBus.isSome = true := by
      rw [hactive]
      rfl
    rcases i2cReadBurst_issues (h.on s.activeBus) hsome s.shots.buffer s.base flags size _ _ _ hburst with
      ⟨hret, -, hissued⟩ | ⟨hret, k, -, -, -, hissued⟩
    · exact .inl ⟨hret, _, hissued⟩
    · exact .inr ⟨hret, k + 1, _, _, _, hissued⟩

/-! ### Runs of transactions -/

/-- A part of a transaction and the rest of it. -/
theorem I2cBoard.Moves.append {s' s'' : I2cBanks} {ok ok' : Prop} {transfers transfers' own own' : List I2cCommand}
    (h : board.Moves s s' selection ok transfers own) (hok : ok)
    (h' : board.Moves s' s'' selection ok' transfers' own') :
    board.Moves s s'' selection ok' (transfers ++ transfers') (own ++ own') := by
  obtain rfl := h.all hok
  refine ⟨h'.shows, ?_, ?_, fun hok' => ?_⟩
  · rw [h'.moved, h.moved, List.append_assoc]
  · exact (List.prefix_append_right_inj own).mpr h'.first
  · rw [h'.all hok']

/-- The bursts of a transaction. -/
theorem i2cServe_moves (h : board.WellFormed) {s' : I2cBanks} {ok : Bool} (bursts : List Burst) :
    ∀ s, board.Shows s selection → i2cServe board bursts s = some (ok, s') →
      ∃ own, board.Moves s s' selection (ok = true) (bursts.flatMap (board.transfers selection)) own := by
  induction bursts with
  | nil =>
    intro s hs hserve
    obtain ⟨rfl, rfl⟩ := Prod.mk.inj (Option.some.inj hserve)
    exact ⟨[], hs, (List.append_nil _).symm, List.nil_prefix, fun _ => rfl⟩
  | cons burst bursts ih =>
    -- the first burst, whichever it is, and what the loop makes of it
    have hrest : ∀ s, board.Shows s selection → ∀ (served : Served) (base : BurstState) (shots : I2cState),
        (∃ own, board.Moves s { s with base, shots } selection (served.ret = STATUS_OK)
          (board.transfers selection burst) own) →
        (if served.ret ≠ STATUS_OK then some (false, { s with base, shots })
          else i2cServe board bursts { s with base, shots }) = some (ok, s') →
        ∃ own, board.Moves s s' selection (ok = true)
          ((burst :: bursts).flatMap (board.transfers selection)) own := by
      rintro s hs ⟨ret, data⟩ base shots ⟨own, hmoves⟩ hserve
      rw [List.flatMap_cons]
      by_cases hret : ret = STATUS_OK
      · rw [if_neg (not_not.mpr hret)] at hserve
        obtain ⟨own', hmoves'⟩ := ih _ hmoves.shows hserve
        exact ⟨own ++ own', hmoves.append hret hmoves'⟩
      · rw [if_pos hret] at hserve
        obtain ⟨rfl, rfl⟩ := Prod.mk.inj (Option.some.inj hserve)
        exact ⟨own, hmoves.shows, hmoves.moved, hmoves.first.trans (List.prefix_append _ _),
          fun hfalse => absurd hfalse Bool.false_ne_true⟩
    intro s hs hserve
    cases burst with
    | write flags bytes =>
      obtain ⟨⟨served, base, shots⟩, hburst, hserve⟩ := Option.bind_eq_some_iff.mp hserve
      exact hrest s hs served base shots (i2cWriteBurst_moves h hs hburst) hserve
    | read flags size =>
      obtain ⟨⟨served, base, shots⟩, hburst, hserve⟩ := Option.bind_eq_some_iff.mp hserve
      exact hrest s hs served base shots (i2cReadBurst_moves h hs hburst) hserve
    | stateChange flags => exact absurd hserve (by simp [i2cServe])

theorem shows_activate (hs : board.Shows s selection) (activate : Bool) {s' : I2cBanks}
    (hs' : s' = { s with shots := { s.shots with
      bus := activateI2cCoreOnBank (board.on s.activeBus) s.shots.bus activate } }) :
    board.Shows s' selection ∧ board.moved s' = board.moved s := by
  obtain ⟨htransfers, hprescale⟩ :=
    @activateI2cCoreOnBank_quiet (board.on s.activeBus) s.shots.bus activate
  subst hs'
  exact ⟨⟨hs.bank, hprescale.trans hs.prescale⟩, htransfers⟩

/-- One transaction, if it returns. -/
theorem i2cTransaction_moves (h : board.WellFormed) (hs : board.Shows s selection) {s' : I2cBanks} {ok : Bool}
    {bank : Fin 8} {bursts : List Burst} (htransaction : i2cTransaction board s bank bursts = some (ok, s')) :
    ∃ own, board.Moves s s' (board.select selection bank) (ok = true)
      (bursts.flatMap (board.transfers (board.select selection bank))) own := by
  obtain ⟨s₁, hactivate, htransaction⟩ := Option.bind_eq_some_iff.mp htransaction
  obtain ⟨⟨ok', s₂⟩, hserve, htransaction⟩ := Option.bind_eq_some_iff.mp htransaction
  obtain ⟨rfl, hend⟩ : ok' = ok ∧ (if ok' then handleEndTransaction board s₂ else s₂) = s' :=
    Prod.mk.inj (Option.some.inj htransaction)
  obtain ⟨hs₁, hmoved₁⟩ := activateBank_selects h hs hactivate
  obtain ⟨hbegin, hmoved⟩ := shows_activate hs₁ true rfl
  obtain ⟨own, hserved⟩ := i2cServe_moves h bursts _ hbegin hserve
  have hlast : board.Shows s' (board.select selection bank) ∧ board.moved s' = board.moved s₂ := by
    cases ok' with
    | true => exact shows_activate hserved.shows false hend.symm
    | false => exact hend ▸ ⟨hserved.shows, rfl⟩
  refine ⟨own, hlast.1, ?_, hserved.first, hserved.all⟩
  rw [hlast.2, hserved.moved]
  exact congrArg (· ++ own) (hmoved.trans hmoved₁)

/-- In every run of transactions on the buses of a core the transfers of each one go to the bank of its own bus
with the clock of that bus, in the order of its bursts and none but these. -/
theorem i2cTransactions_carry (h : board.WellFormed) (transactions : List (Fin 8 × List Burst)) :
    ∀ (s s' : I2cBanks) (selection : I2cSelection) (oks : List Bool), board.Shows s selection →
      i2cTransactions board transactions s = some (oks, s') →
      ∃ transfers last, board.moved s' = board.moved s ++ transfers ∧ board.Shows s' last ∧
        board.Carries selection transactions oks transfers last := by
  induction transactions with
  | nil =>
    intro s s' selection oks hs hrun
    obtain ⟨rfl, rfl⟩ := Prod.mk.inj (Option.some.inj hrun)
    exact ⟨[], selection, (List.append_nil _).symm, hs, rfl, rfl, rfl⟩
  | cons transaction transactions ih =>
    intro s s' selection oks hs hrun
    obtain ⟨bank, bursts⟩ := transaction
    obtain ⟨⟨ok, s₁⟩, htransaction, hrun⟩ := Option.bind_eq_some_iff.mp hrun
    obtain ⟨⟨oks', s₂⟩, hrest, hrun⟩ := Option.bind_eq_some_iff.mp hrun
    obtain ⟨rfl, rfl⟩ := Prod.mk.inj (Option.some.inj hrun)
    obtain ⟨own, hmoves⟩ := i2cTransaction_moves h hs htransaction
    obtain ⟨rest, last, hmoved, hlast, hcarries⟩ := ih s₁ s₂ _ oks' hmoves.shows hrest
    refine ⟨own ++ rest, last, ?_, hlast, ok, oks', own, rest, rfl, rfl, hmoves.first, hmoves.all, hcarries⟩
    rw [hmoved, hmoves.moved, List.append_assoc]

/-- The loop of a write burst with one byte. -/
theorem writeLoop_single (hooks : Hooks) (st : BurstState) (byte : BitVec 8) (numQueuedCommands : Word) :
    writeLoop i2cBase hooks 1 st [byte] numQueuedCommands = (do
      let st ← (st.setShot true true).attempt hooks (.writeShot [byte])
      let st ← waitWhenFull i2cBase hooks st (numQueuedCommands + 1)
      .ok (st, numQueuedCommands + 1)) := by
  have hnil : ∀ st numQueuedCommands,
      writeLoop i2cBase hooks 1 st [] numQueuedCommands = .ok (st, numQueuedCommands) := by
    intro st numQueuedCommands
    rw [writeLoop]
    rfl
  rw [writeLoop]
  simp only [← hnil]
  rfl

/-- Two buses on a core, both with 100 kHz. -/
def twoBuses : I2cBoard where
  core := ⟨0x10, 0x14, 0x18, 1, none, 0⟩
  firmwareClockFrequency := 62500000
  busConfigurations bank := ⟨⟨BitVec.ofNat 8 bank, 0x40, 0x80⟩, if bank.val < 2 then 100000 else 0⟩

/-- The core acknowledges everything. -/
def twoBusesStart : I2cBanks where
  activeBus := none
  base := ⟨0, false, false, []⟩
  shots := ⟨⟨fun _ => List.replicate 9 ⟨0, false⟩, [], []⟩, fun _ => 0⟩

/-- A byte on the second bus. -/
theorem i2cTransactions_carry_second : ∃ oks s', i2cTransactions twoBuses [(1, [.write 0x3 [0xa0]])] twoBusesStart =
      some (oks, s') ∧
    ∃ transfers last, twoBuses.moved s' = twoBuses.moved twoBusesStart ++ transfers ∧ twoBuses.Shows s' last ∧
      twoBuses.Carries ⟨none, 0⟩ [(1, [.write 0x3 [0xa0]])] oks transfers last := by
  have hreturns : (i2cTransactions twoBuses [(1, [.write 0x3 [0xa0]])] twoBusesStart).isSome = true := by
    simp only [i2cTransactions, i2cTransaction, i2cServe, serveBurst, machineBurst, ctrlWriteBurst, writeShots]
    simp only [List.length_singleton, writeLoop_single]
    decide +kernel
  obtain ⟨⟨oks, s'⟩, hrun⟩ := Option.isSome_iff_exists.mp hreturns
  exact ⟨oks, s', hrun, i2cTransactions_carry ⟨by decide, by decide, by decide, by decide⟩ _ twoBusesStart s' ⟨none, 0⟩
    oks ⟨rfl, rfl⟩ hrun⟩

end MenableDriver
