import MenableDriver.Controllers.I2cCore
import MenableDriver.Controllers.Bursts

/-!
# Bursts on the I2C core

The hooks of `i2c_master_core.c` write each byte of a burst with a command of the core and wait for it. The
commands are read off what is written to the registers of the board, whatever the core answers and whenever a
wait times out. A shot has a single byte here, and there is no write queue.
-/

namespace MenableDriver

set_option autoImplicit false

def STATUS_I2C_NO_ACK : Int := -100

def I2C_MC_STATUS_MASK_ACK_FROM_SLAVE : BitVec 8 := 0x80#8
def I2C_MC_STATUS_ACK_RECEIVED : BitVec 8 := 0#8
def I2C_MC_STATUS_MASK_TRANSFER_STATUS : BitVec 8 := 0x02#8
def I2C_MC_STATUS_TRANSFER_COMPLETE : BitVec 8 := 0#8

def I2C_COMMAND_NONE : BitVec 8 := 0#8
def I2C_COMMAND_START : BitVec 8 := 0x80#8
def I2C_COMMAND_READ : BitVec 8 := 0x20#8
def I2C_COMMAND_WRITE : BitVec 8 := 0x10#8
def I2C_COMMAND_NOT_ACKNOWLEDGE : BitVec 8 := 0x08#8

def I2C_PRE_BURST_FLAG_START_CONDITION : BitVec 8 := 0x01#8
def I2C_POST_BURST_FLAG_STOP_CONDITION : BitVec 8 := 0x02#8
def I2C_POST_BURST_FLAG_SEND_NACK : BitVec 8 := 0x04#8

/-- What `i2c_master_core_init` hands to `controller_base_init`. -/
def i2cBase : ControllerBase where
  readQueueSize := ⟨1, Nat.one_pos, ShotLimit.one_lt⟩
  maxBytesPerRead := ⟨1, Nat.one_pos, ShotLimit.one_lt⟩
  writeQueueSize := ⟨1, Nat.one_pos, ShotLimit.one_lt⟩
  maxBytesPerWrite := ⟨1, Nat.one_pos, ShotLimit.one_lt⟩

/-- The core with the flags of the burst that it is in. -/
def I2cMasterCore.during (core : I2cMasterCore) (currentBurstFlags : BitVec 8) : I2cMasterCore :=
  { core with currentBurstFlags }

def areBurstFlagsSet (currentBurstFlags flags : BitVec 8) : Bool := decide (currentBurstFlags &&& flags = flags)

/-- Without an active bus the error code becomes `true`. -/
def hasSlaveAcknowledged (core : I2cMasterCore) (bus : CoreBus) : Option (Bool × CoreBus) :=
  if core.activeBus.isNone then some (true, bus)
  else coreHasStatus core bus I2C_MC_STATUS_MASK_ACK_FROM_SLAVE I2C_MC_STATUS_ACK_RECEIVED

def waitForTransferComplete (core : I2cMasterCore) (bus : CoreBus) : Option (Int × CoreBus) :=
  if core.activeBus.isNone then some (STATUS_ERR_INVALID_STATE, bus)
  else do
    let (status, bus) ← waitForCoreStatus core bus I2C_MC_STATUS_MASK_TRANSFER_STATUS I2C_MC_STATUS_TRANSFER_COMPLETE
    some (if status ≠ I2C_MC_GET_STATUS_FAILED then STATUS_OK else STATUS_ERROR, bus)

def writeByte (core : I2cMasterCore) (bus : CoreBus) (byte cmd : BitVec 8) : Option (Int × CoreBus) :=
  if core.activeBus.isNone then some (STATUS_ERR_INVALID_STATE, bus)
  else do
    let bus := writeCoreRegister core bus I2C_MC_REG_TRANSMIT byte
    let bus := writeCoreRegister core bus I2C_MC_REG_COMMAND (I2C_COMMAND_WRITE ||| cmd)
    let (ret, bus) ← waitForTransferComplete core bus
    if menIsError ret then some (STATUS_ERROR, bus)
    else
      let (ack, bus) ← hasSlaveAcknowledged core bus
      some (if ack then STATUS_OK else STATUS_I2C_NO_ACK, bus)

/-- The byte is stored when there is one. -/
def readByte (core : I2cMasterCore) (bus : CoreBus) (cmd : BitVec 8) : Option (Int × Option (BitVec 8) × CoreBus) :=
  if core.activeBus.isNone then some (STATUS_ERR_INVALID_STATE, none, bus)
  else do
    let bus := writeCoreRegister core bus I2C_MC_REG_COMMAND (I2C_COMMAND_READ ||| cmd)
    let (ret, bus) ← waitForTransferComplete core bus
    if menIsError ret then some (STATUS_ERROR, none, bus)
    else
      let (read, bus) ← readCoreRegister core bus I2C_MC_REG_RECEIVE
      some (STATUS_OK, some read.value, bus)

/-- The registers of the core, and the buffer of a read burst. -/
structure I2cState where
  bus : CoreBus
  buffer : Nat → BitVec 8

def i2cWriteCommand (currentBurstFlags : BitVec 8) (isFirstShot isLastShot : Bool) : BitVec 8 :=
  let cmd := I2C_COMMAND_NONE
  let cmd := if isFirstShot && areBurstFlagsSet currentBurstFlags I2C_PRE_BURST_FLAG_START_CONDITION then
    cmd ||| I2C_COMMAND_START else cmd
  if isLastShot && areBurstFlagsSet currentBurstFlags I2C_POST_BURST_FLAG_STOP_CONDITION then
    cmd ||| I2C_COMMAND_STOP else cmd

def i2cReadCommand (currentBurstFlags : BitVec 8) (isLastShot : Bool) : BitVec 8 :=
  let cmd := I2C_COMMAND_NONE
  if isLastShot then
    let cmd := if areBurstFlagsSet currentBurstFlags I2C_POST_BURST_FLAG_SEND_NACK then
      cmd ||| I2C_COMMAND_NOT_ACKNOWLEDGE else cmd
    if areBurstFlagsSet currentBurstFlags I2C_POST_BURST_FLAG_STOP_CONDITION then cmd ||| I2C_COMMAND_STOP else cmd
  else cmd

def i2cWriteShot (core : I2cMasterCore) (s : I2cState) (isFirstShot isLastShot : Bool) (bytes : List (BitVec 8)) :
    Option (I2cState × Int) :=
  if bytes.length ≠ 1 then some (s, STATUS_ERR_INVALID_OPERATION)
  else do
    let (ret, bus) ← writeByte core s.bus (bytes.headD 0)
      (i2cWriteCommand core.currentBurstFlags isFirstShot isLastShot)
    some ({ s with bus }, ret)

def i2cRequestRead (s : I2cState) (numBytes : Nat) : I2cState × Int :=
  if numBytes ≠ 1 then (s, STATUS_ERR_INVALID_OPERATION) else (s, STATUS_OK)

def i2cReadShot (core : I2cMasterCore) (s : I2cState) (isLastShot : Bool) (buf numBytes : Nat) :
    Option (I2cState × Int) :=
  if numBytes ≠ 1 then some (s, STATUS_ERR_INVALID_OPERATION)
  else do
    let (ret, outByte, bus) ← readByte core s.bus (i2cReadCommand core.currentBurstFlags isLastShot)
    let buffer := outByte.elim s.buffer (Function.update s.buffer buf)
    if menIsError ret then some ({ bus, buffer }, STATUS_ERROR) else some ({ bus, buffer }, STATUS_OK)

def activateI2cCoreOnBank (core : I2cMasterCore) (bus : CoreBus) (activate : Bool) : CoreBus :=
  match core.activeBus with
  | none => bus
  | some cfg =>
    if cfg.bankActivationBit ≠ 0 then
      { bus with written := bus.written ++
        [(core.i2cCtrlAddressRegister, if activate then cfg.bankActivationBit.setWidth 32 else 0)] }
    else bus

/-- The result of the stop is not looked at. -/
def i2cBurstAborted (core : I2cMasterCore) (s : I2cState) : Option I2cState := do
  let (_, bus) ← writeStop core s.bus
  some { s with bus := activateI2cCoreOnBank core bus false }

/-- The hooks. -/
def i2cStep (core : I2cMasterCore) (s : I2cState) (call : BurstCall) : Option (I2cState × Int) :=
  let core := core.during call.currentBurstFlags
  match call.hook with
  | .handlePreBurstFlags _ => some (s, STATUS_OK)
  | .handlePostBurstFlags _ => some (s, STATUS_OK)
  | .writeShot bytes => i2cWriteShot core s call.isFirstShot call.isLastShot bytes
  | .waitForWriteQueueEmpty => some (s, STATUS_OK)
  | .requestRead numBytes => some (i2cRequestRead s numBytes)
  | .readShot buf numBytes => i2cReadShot core s call.isLastShot buf numBytes
  | .burstAborted => (i2cBurstAborted core s).map fun s => (s, STATUS_OK)

/-! ### What the core gets -/

/-- A command, with the bits that went with the address, the prescaler and the byte in the transmit register. -/
structure I2cCommand where
  control : BitVec 8
  prescale : BitVec 16
  byte : BitVec 8
  command : BitVec 8
deriving DecidableEq

/-- The core behind the registers of the board. -/
structure I2cLine where
  address : BitVec 8
  prescaleLow : BitVec 8
  prescaleHigh : BitVec 8
  transmit : BitVec 8
  commands : List I2cCommand
deriving DecidableEq

def I2C_MC_REG_PRESCALE_LOW : BitVec 8 := 0x00#8
def I2C_MC_REG_PRESCALE_HIGH : BitVec 8 := 0x01#8

def I2cLine.prescale (line : I2cLine) : BitVec 16 := line.prescaleHigh ++ line.prescaleLow

/-- A register of the core is written. -/
def I2cLine.store (line : I2cLine) (value : BitVec 8) : I2cLine :=
  let register := line.address &&& 0x07#8
  if register = I2C_MC_REG_PRESCALE_LOW then { line with prescaleLow := value }
  else if register = I2C_MC_REG_PRESCALE_HIGH then { line with prescaleHigh := value }
  else if register = I2C_MC_REG_TRANSMIT then { line with transmit := value }
  else if register = I2C_MC_REG_COMMAND then
    { line with commands := line.commands ++ [⟨line.address &&& 0xf8#8, line.prescale, line.transmit, value⟩] }
  else line

def I2cMasterCore.see (core : I2cMasterCore) (line : I2cLine) (entry : Nat × Word) : I2cLine :=
  if entry.1 = core.i2cCtrlAddressRegister then { line with address := entry.2.setWidth 8 }
  else if entry.1 = core.i2cCtrlWriteRegister then line.store (entry.2.setWidth 8)
  else line

def I2cMasterCore.line (core : I2cMasterCore) (written : List (Nat × Word)) : I2cLine :=
  written.foldl core.see ⟨0, 0, 0, 0, []⟩

/-- The registers of the board are different ones, and the bits of a bank are none of an address. -/
structure I2cMasterCore.WellFormed (core : I2cMasterCore) : Prop where
  registers : core.i2cCtrlAddressRegister ≠ core.i2cCtrlWriteRegister
  address : core.i2cCtrlAddressRegister ≠ 0
  write : core.i2cCtrlWriteRegister ≠ 0
  banks : ∀ cfg ∈ core.activeBus, cfg.bankActivationBit &&& 0x07#8 = 0 ∧ cfg.writeEnableBit &&& 0x07#8 = 0

variable {core : I2cMasterCore} {bus after : CoreBus} {flags : BitVec 8}

theorem WellFormed_during (h : core.WellFormed) (flags : BitVec 8) : (core.during flags).WellFormed :=
  ⟨h.registers, h.address, h.write, h.banks⟩

theorem line_during (flags : BitVec 8) (written : List (Nat × Word)) :
    (core.during flags).line written = core.line written := rfl

theorem line_append (written written' : List (Nat × Word)) :
    core.line (written ++ written') = written'.foldl core.see (core.line written) := List.foldl_append

/-- The bits that go with an address are none of the address. -/
theorem additionalControlBits_high (h : core.WellFormed) : additionalControlBits core &&& 0x07#8 = 0 := by
  unfold additionalControlBits
  cases hbus : core.activeBus with
  | none =>
    dsimp only
    decide
  | some cfg =>
    obtain ⟨hactivation, henable⟩ := h.banks cfg hbus
    have hbank : ∀ bank : BitVec 8, bank <<< 3 &&& 0x07#8 = 0 := by decide
    dsimp only
    split_ifs
    · rw [BitVec.and_or_distrib_right, BitVec.and_or_distrib_right, hbank, hactivation, henable]
      decide
    · rw [BitVec.and_or_distrib_right, hbank, hactivation]
      decide

/-- The address and its control bits are told apart again. -/
theorem address_split (address : BitVec 8) {bits : BitVec 8} (haddress : address &&& 0xf8#8 = 0) (hbits : bits &&& 0x07#8 = 0) :
    (address ||| bits) &&& 0x07#8 = address ∧ (address ||| bits) &&& 0xf8#8 = bits := by
  have hlow : ∀ byte : BitVec 8, byte &&& 0xf8#8 = 0 → byte &&& 0x07#8 = byte := by decide
  have hhigh : ∀ byte : BitVec 8, byte &&& 0x07#8 = 0 → byte &&& 0xf8#8 = byte := by decide
  constructor
  · rw [BitVec.and_or_distrib_right, hlow address haddress, hbits]
    exact BitVec.or_zero
  · rw [BitVec.and_or_distrib_right, haddress, hhigh bits hbits]
    exact BitVec.zero_or

/-! ### Accesses to the core -/

/-- What an access to a register of the core does to the core. -/
theorem line_safeWrite (h : core.WellFormed) (register : Nat) (value : BitVec 8) :
    core.line (safeWrite core bus register value).written =
      core.see (core.line bus.written) (register, value.setWidth 32) := by
  have hskip : ∀ n line, (List.replicate n (0, 0)).foldl core.see line = line := by
    intro n line
    induction n with
    | zero => rfl
    | succ n ih =>
      rw [List.replicate_succ, List.foldl_cons, I2cMasterCore.see, if_neg (Ne.symm h.address), if_neg (Ne.symm h.write)]
      exact ih
  rw [safeWrite]
  dsimp only
  rw [line_append, List.foldl_cons, hskip]

theorem setWidth_setWidth_byte (byte : BitVec 8) : (byte.setWidth 32).setWidth 8 = byte := by
  revert byte
  decide

theorem line_select (h : core.WellFormed) (value : BitVec 8) :
    core.line (safeWrite core bus core.i2cCtrlAddressRegister value).written =
      { core.line bus.written with address := value } := by
  rw [line_safeWrite h, I2cMasterCore.see, if_pos rfl, setWidth_setWidth_byte]

theorem line_store (h : core.WellFormed) (value : BitVec 8) :
    core.line (safeWrite core bus core.i2cCtrlWriteRegister value).written =
      (core.line bus.written).store value := by
  rw [line_safeWrite h, I2cMasterCore.see, if_neg (Ne.symm h.registers), if_pos rfl, setWidth_setWidth_byte]

theorem line_writeCoreRegister (h : core.WellFormed) {address : BitVec 8}
    (hbus : address = I2C_MC_REG_TRANSMIT → core.activeBus.isSome = true) (value : BitVec 8) :
    core.line (writeCoreRegister core bus address value).written =
      I2cLine.store { core.line bus.written with address := address ||| additionalControlBits core } value := by
  have hno : ¬(address = I2C_MC_REG_TRANSMIT ∧ core.activeBus.isNone = true) := by
    rintro ⟨heq, hnone⟩
    rw [Option.isNone_iff_eq_none] at hnone
    rw [hnone] at hbus
    exact absurd (hbus heq) Bool.false_ne_true
  rw [writeCoreRegister, if_neg hno]
  dsimp only
  rw [line_store h, line_select h]

/-- Reading selects registers of the core, and does not change what the core has. What is still to be received
is left alone by all reads of the status. -/
structure I2cMasterCore.Polls (core : I2cMasterCore) (bus after : CoreBus) : Prop where
  prescale : (core.line after.written).prescale = (core.line bus.written).prescale
  transmit : (core.line after.written).transmit = (core.line bus.written).transmit
  commands : (core.line after.written).commands = (core.line bus.written).commands
  receive : after.reads I2C_MC_REG_RECEIVE = bus.reads I2C_MC_REG_RECEIVE

theorem I2cMasterCore.Polls.refl (core : I2cMasterCore) (bus : CoreBus) : core.Polls bus bus := ⟨rfl, rfl, rfl, rfl⟩

theorem I2cMasterCore.Polls.trans {a b c : CoreBus} (h : core.Polls a b) (h' : core.Polls b c) : core.Polls a c :=
  ⟨h'.prescale.trans h.prescale, h'.transmit.trans h.transmit, h'.commands.trans h.commands,
    h'.receive.trans h.receive⟩

/-- Reading a register of the core. -/
theorem line_readCoreRegister (h : core.WellFormed) {address : BitVec 8}
    (hbus : address = I2C_MC_REG_RECEIVE → core.activeBus.isSome = true) {read : CoreRead} (hread : readCoreRegister core bus address = some (read, after)) :
    core.line after.written =
        { core.line bus.written with address := address ||| additionalControlBits core } ∧
      ∃ reads, bus.reads address = read :: reads ∧ after.reads = Function.update bus.reads address reads := by
  have hno : ¬(address = I2C_MC_REG_RECEIVE ∧ core.activeBus.isNone = true) := by
    rintro ⟨heq, hnone⟩
    rw [Option.isNone_iff_eq_none] at hnone
    rw [hnone] at hbus
    exact absurd (hbus heq) Bool.false_ne_true
  unfold readCoreRegister at hread
  rw [if_neg hno] at hread
  dsimp only [safeWrite_reads] at hread
  split at hread
  · exact absurd hread (by simp)
  · rename_i first reads heq
    obtain ⟨rfl, rfl⟩ := Prod.mk.inj (Option.some.inj hread)
    exact ⟨line_select h _, reads, heq, rfl⟩

theorem getCoreStatus_polls (h : core.WellFormed) {read : CoreRead}
    (hread : getCoreStatus core bus = some (read, after)) : core.Polls bus after := by
  obtain ⟨hline, reads, -, hafter⟩ := line_readCoreRegister h (fun heq => absurd heq (by decide)) hread
  refine ⟨by rw [hline]; rfl, by rw [hline], by rw [hline], ?_⟩
  rw [hafter, Function.update_of_ne (by decide)]

theorem pollCoreStatus_polls (h : core.WellFormed)
    {statusMask desiredStatus status : BitVec 8} (todo : Nat) : ∀ bus,
    pollCoreStatus core statusMask desiredStatus todo bus = some (status, after) → core.Polls bus after := by
  induction todo with
  | zero =>
    intro bus hpoll
    exact absurd hpoll (by simp [pollCoreStatus])
  | succ todo ih =>
    intro bus hpoll
    rw [pollCoreStatus] at hpoll
    obtain ⟨⟨read, bus'⟩, hread, hpoll⟩ := Option.bind_eq_some_iff.mp hpoll
    have hselect := getCoreStatus_polls h hread
    dsimp only at hpoll
    split_ifs at hpoll
    · exact hselect.trans (ih bus' hpoll)
    · obtain ⟨-, rfl⟩ := Prod.mk.inj (Option.some.inj hpoll)
      exact hselect

theorem waitForCoreStatus_polls (h : core.WellFormed)
    {statusMask desiredStatus status : BitVec 8}
    (hwait : waitForCoreStatus core bus statusMask desiredStatus = some (status, after)) : core.Polls bus after := by
  unfold waitForCoreStatus at hwait
  obtain ⟨⟨final, bus'⟩, hpoll, hwait⟩ := Option.bind_eq_some_iff.mp hwait
  obtain ⟨-, rfl⟩ := Prod.mk.inj (Option.some.inj hwait)
  exact pollCoreStatus_polls h _ bus hpoll

theorem waitForTransferComplete_polls (h : core.WellFormed) (hbus : core.activeBus.isSome = true) {ret : Int}
    (hwait : waitForTransferComplete core bus = some (ret, after)) :
    core.Polls bus after ∧ (ret = STATUS_OK ∨ ret = STATUS_ERROR) := by
  unfold waitForTransferComplete at hwait
  rw [if_neg (by simpa using Option.isSome_iff_ne_none.mp hbus)] at hwait
  obtain ⟨⟨status, bus'⟩, hstatus, hwait⟩ := Option.bind_eq_some_iff.mp hwait
  obtain ⟨rfl, rfl⟩ := Prod.mk.inj (Option.some.inj hwait)
  refine ⟨waitForCoreStatus_polls h hstatus, ?_⟩
  split_ifs
  · exact .inl rfl
  · exact .inr rfl

/-- One command was written, and the core was waited for. -/
structure I2cMasterCore.Issues (core : I2cMasterCore) (bus after : CoreBus) (byte command : BitVec 8) : Prop where
  commands : (core.line after.written).commands = (core.line bus.written).commands ++
    [⟨additionalControlBits core, (core.line bus.written).prescale, byte, command⟩]
  prescale : (core.line after.written).prescale = (core.line bus.written).prescale
  transmit : (core.line after.written).transmit = byte

theorem line_command (h : core.WellFormed) (command : BitVec 8) :
    core.line (writeCoreRegister core bus I2C_MC_REG_COMMAND command).written =
      { core.line bus.written with
        address := I2C_MC_REG_COMMAND ||| additionalControlBits core
        commands := (core.line bus.written).commands ++ [⟨additionalControlBits core,
          (core.line bus.written).prescale, (core.line bus.written).transmit, command⟩] } := by
  obtain ⟨hlow, hhigh⟩ := address_split I2C_MC_REG_COMMAND (by decide) (additionalControlBits_high h)
  rw [line_writeCoreRegister h (fun heq => absurd heq (by decide)), I2cLine.store]
  dsimp only
  rw [hlow, hhigh, if_neg (by decide), if_neg (by decide), if_neg (by decide), if_pos rfl]
  rfl

theorem line_transmit (h : core.WellFormed) (hbus : core.activeBus.isSome = true) (byte : BitVec 8) :
    core.line (writeCoreRegister core bus I2C_MC_REG_TRANSMIT byte).written =
      { core.line bus.written with
        address := I2C_MC_REG_TRANSMIT ||| additionalControlBits core
        transmit := byte } := by
  obtain ⟨hlow, -⟩ := address_split I2C_MC_REG_TRANSMIT (by decide) (additionalControlBits_high h)
  rw [line_writeCoreRegister h (fun _ => hbus), I2cLine.store]
  dsimp only
  rw [hlow, if_neg (by decide), if_neg (by decide), if_pos rfl]

/-- A command and the reads behind it. -/
theorem issues_of_polls (h : core.WellFormed) {command : BitVec 8}
    (hpolls : core.Polls (writeCoreRegister core bus I2C_MC_REG_COMMAND command) after) :
    core.Issues bus after (core.line bus.written).transmit command := by
  have hline := @line_command core bus h command
  refine ⟨?_, ?_, ?_⟩
  · rw [hpolls.commands, hline]
  · rw [hpolls.prescale, hline]
    rfl
  · rw [hpolls.transmit, hline]

theorem writeByte_issues (h : core.WellFormed) (hbus : core.activeBus.isSome = true) {byte cmd : BitVec 8} {ret : Int}
    (hwrite : writeByte core bus byte cmd = some (ret, after)) :
    core.Issues bus after byte (I2C_COMMAND_WRITE ||| cmd) := by
  unfold writeByte at hwrite
  rw [if_neg (by simpa using Option.isSome_iff_ne_none.mp hbus)] at hwrite
  obtain ⟨⟨ret', bus'⟩, hwait, hwrite⟩ := Option.bind_eq_some_iff.mp hwrite
  obtain ⟨hpolls, -⟩ := waitForTransferComplete_polls h hbus hwait
  have hline := @line_transmit core bus h hbus byte
  have hissues : ∀ after, core.Polls bus' after → core.Issues bus after byte (I2C_COMMAND_WRITE ||| cmd) := by
    intro after hafter
    obtain ⟨hcommands, hprescale, htransmit⟩ := issues_of_polls h (hpolls.trans hafter)
    rw [hline] at hcommands hprescale htransmit
    exact ⟨hcommands, hprescale, htransmit⟩
  dsimp only at hwrite
  split_ifs at hwrite
  · obtain ⟨-, rfl⟩ := Prod.mk.inj (Option.some.inj hwrite)
    exact hissues _ (I2cMasterCore.Polls.refl core _)
  · obtain ⟨⟨ack, bus''⟩, hack, hwrite⟩ := Option.bind_eq_some_iff.mp hwrite
    obtain ⟨-, rfl⟩ := Prod.mk.inj (Option.some.inj hwrite)
    unfold hasSlaveAcknowledged at hack
    rw [if_neg (by simpa using Option.isSome_iff_ne_none.mp hbus)] at hack
    obtain ⟨⟨read, bus₃⟩, hread, hack⟩ := Option.bind_eq_some_iff.mp hack
    obtain ⟨-, rfl⟩ := Prod.mk.inj (Option.some.inj hack)
    exact hissues _ (getCoreStatus_polls h hread)

theorem readByte_issues (h : core.WellFormed) (hbus : core.activeBus.isSome = true) {cmd : BitVec 8} {ret : Int}
    {outByte : Option (BitVec 8)} (hread : readByte core bus cmd = some (ret, outByte, after)) :
    core.Issues bus after (core.line bus.written).transmit (I2C_COMMAND_READ ||| cmd) ∧
      (ret = STATUS_ERROR ∧ outByte = none ∨ ret = STATUS_OK ∧ ∃ read reads,
        bus.reads I2C_MC_REG_RECEIVE = read :: reads ∧ after.reads I2C_MC_REG_RECEIVE = reads ∧
          outByte = some read.value) := by
  unfold readByte at hread
  rw [if_neg (by simpa using Option.isSome_iff_ne_none.mp hbus)] at hread
  obtain ⟨⟨ret', bus'⟩, hwait, hread⟩ := Option.bind_eq_some_iff.mp hread
  obtain ⟨hpolls, -⟩ := waitForTransferComplete_polls h hbus hwait
  dsimp only at hread
  split_ifs at hread
  · obtain ⟨rfl, rfl, rfl⟩ : STATUS_ERROR = ret ∧ none = outByte ∧ bus' = after := by simpa using hread
    exact ⟨issues_of_polls h hpolls, .inl ⟨rfl, rfl⟩⟩
  · obtain ⟨⟨read, bus''⟩, hreceive, hread⟩ := Option.bind_eq_some_iff.mp hread
    obtain ⟨rfl, rfl, rfl⟩ : STATUS_OK = ret ∧ some read.value = outByte ∧ bus'' = after := by simpa using hread
    obtain ⟨hline, reads, hreads, hafter⟩ := line_readCoreRegister h (fun _ => hbus) hreceive
    obtain ⟨hcommands, hprescale, htransmit⟩ := issues_of_polls h hpolls
    refine ⟨⟨?_, ?_, ?_⟩, .inr ⟨rfl, read, reads, ?_, ?_, rfl⟩⟩
    · rw [hline]
      exact hcommands
    · rw [hline]
      exact hprescale
    · rw [hline]
      exact htransmit
    · rw [← hreads, hpolls.receive, writeCoreRegister_reads]
    · rw [hafter, Function.update_self]

/-! ### Bursts -/

/-- The commands of a write burst: the bytes in order, with the start and the stop at its ends. -/
def i2cWriteTrace (core : I2cMasterCore) (currentBurstFlags : BitVec 8) (prescale : BitVec 16)
    (buf : List (BitVec 8)) : List I2cCommand :=
  (List.range buf.length).map fun i =>
    ⟨additionalControlBits (core.during currentBurstFlags), prescale, buf.getD i 0, I2C_COMMAND_WRITE |||
      i2cWriteCommand currentBurstFlags (decide (i = 0)) (decide (i + 1 = buf.length))⟩

/-- The commands of a read burst. -/
def i2cReadTrace (core : I2cMasterCore) (currentBurstFlags : BitVec 8) (prescale : BitVec 16) (transmit : BitVec 8)
    (size : Nat) : List I2cCommand :=
  (List.range size).map fun i =>
    ⟨additionalControlBits (core.during currentBurstFlags), prescale, transmit, I2C_COMMAND_READ |||
      i2cReadCommand currentBurstFlags (decide (i + 1 = size))⟩

/-- The command that ends an aborted burst; the flags are cleared by then. -/
def i2cStop (core : I2cMasterCore) (prescale : BitVec 16) (transmit : BitVec 8) : I2cCommand :=
  ⟨additionalControlBits (core.during 0), prescale, transmit, I2C_COMMAND_STOP⟩

/-- What was issued since, with the prescaler and the transmit register as they are now. -/
structure I2cMasterCore.Issued (core : I2cMasterCore) (bus after : CoreBus) (commands : List I2cCommand)
    (transmit : BitVec 8) : Prop where
  commands : (core.line after.written).commands = (core.line bus.written).commands ++ commands
  prescale : (core.line after.written).prescale = (core.line bus.written).prescale
  transmit : (core.line after.written).transmit = transmit

theorem I2cMasterCore.Issued.issue {middle : CoreBus} {commands : List I2cCommand} {transmit byte command : BitVec 8}
    (h : core.Issued bus middle commands transmit) (hissue : (core.during flags).Issues middle after byte command) :
    core.Issued bus after (commands ++ [⟨additionalControlBits (core.during flags),
      (core.line bus.written).prescale, byte, command⟩]) byte := by
  obtain ⟨hcommands, hprescale, htransmit⟩ := hissue
  rw [line_during, line_during] at hcommands hprescale
  rw [line_during] at htransmit
  refine ⟨?_, hprescale.trans h.prescale, htransmit⟩
  rw [hcommands, h.commands, h.prescale, List.append_assoc]

/-- Whether the bank is active is nothing to the core, except for the address that is selected. -/
theorem line_activate (bus : CoreBus) (activate : Bool) : ∃ address,
    core.line (activateI2cCoreOnBank (core.during flags) bus activate).written =
      { core.line bus.written with address } := by
  have haddress : (core.during flags).i2cCtrlAddressRegister = core.i2cCtrlAddressRegister := rfl
  unfold activateI2cCoreOnBank
  cases hactive : (core.during flags).activeBus with
  | none => exact ⟨(core.line bus.written).address, rfl⟩
  | some cfg =>
    dsimp only
    by_cases hbit : cfg.bankActivationBit = 0
    · rw [if_neg (not_not.mpr hbit)]
      exact ⟨(core.line bus.written).address, rfl⟩
    · rw [if_pos hbit]
      dsimp only
      rw [line_append, List.foldl_cons, List.foldl_nil, I2cMasterCore.see, haddress, if_pos rfl]
      exact ⟨_, rfl⟩

/-- An aborted burst ends with a stop. -/
theorem i2cBurstAborted_stops (h : core.WellFormed) (hbus : core.activeBus.isSome = true) {s s' : I2cState}
    {commands : List I2cCommand} {transmit : BitVec 8} (hs : core.Issued bus s.bus commands transmit)
    (habort : i2cBurstAborted (core.during 0) s = some s') :
    core.Issued bus s'.bus (commands ++ [i2cStop core (core.line bus.written).prescale transmit]) transmit := by
  have hbus' : (core.during 0).activeBus.isSome = true := hbus
  have hcore := WellFormed_during h 0
  unfold i2cBurstAborted at habort
  obtain ⟨⟨ret, stopped⟩, hstop, habort⟩ := Option.bind_eq_some_iff.mp habort
  obtain rfl := Option.some.inj habort
  unfold writeStop at hstop
  rw [if_neg (by simpa using Option.isSome_iff_ne_none.mp hbus')] at hstop
  obtain ⟨⟨status, waited⟩, hwait, hstop⟩ := Option.bind_eq_some_iff.mp hstop
  obtain ⟨-, rfl⟩ : _ ∧ waited = stopped := Prod.mk.inj (Option.some.inj hstop)
  have hissue := issues_of_polls hcore (waitForCoreStatus_polls hcore hwait)
  rw [line_during, hs.transmit] at hissue
  obtain ⟨hcommands, hprescale, htransmit⟩ := hs.issue hissue
  obtain ⟨address, haddress⟩ := @line_activate core 0 waited false
  refine ⟨?_, ?_, ?_⟩
  · dsimp only
    rw [haddress]
    exact hcommands
  · dsimp only
    rw [haddress]
    exact hprescale
  · dsimp only
    rw [haddress]
    exact htransmit

theorem i2cWriteTrace_take_succ {buf : List (BitVec 8)} (prescale : BitVec 16) {i : Nat} (hi : i < buf.length) :
    (i2cWriteTrace core flags prescale buf).take (i + 1) = (i2cWriteTrace core flags prescale buf).take i ++
      [⟨additionalControlBits (core.during flags), prescale, buf.getD i 0,
        I2C_COMMAND_WRITE ||| i2cWriteCommand flags (decide (i = 0)) (decide (i + 1 = buf.length))⟩] := by
  unfold i2cWriteTrace
  rw [← List.map_take, ← List.map_take, List.take_range, List.take_range, Nat.min_eq_left hi, Nat.min_eq_left hi.le,
    List.range_succ, List.map_append]
  rfl

theorem i2cReadTrace_take_succ (prescale : BitVec 16) (transmit : BitVec 8) {size i : Nat} (hi : i < size) :
    (i2cReadTrace core flags prescale transmit size).take (i + 1) =
      (i2cReadTrace core flags prescale transmit size).take i ++
      [⟨additionalControlBits (core.during flags), prescale, transmit,
        I2C_COMMAND_READ ||| i2cReadCommand flags (decide (i + 1 = size))⟩] := by
  unfold i2cReadTrace
  rw [← List.map_take, ← List.map_take, List.take_range, List.take_range, Nat.min_eq_left hi, Nat.min_eq_left hi.le,
    List.range_succ, List.map_append]
  rfl

/-- A write burst that has written all but `bytes`. -/
def I2cWriting (core : I2cMasterCore) (bus : CoreBus) (flags : BitVec 8) (buf bytes : List (BitVec 8))
    (s : I2cState) : Prop :=
  ∃ i transmit, i + bytes.length = buf.length ∧ bytes = buf.drop i ∧
    core.Issued bus s.bus ((i2cWriteTrace core flags (core.line bus.written).prescale buf).take i) transmit

/-- A write burst whose last byte failed. -/
def I2cWriteFailed (core : I2cMasterCore) (bus : CoreBus) (flags : BitVec 8) (buf : List (BitVec 8))
    (s : I2cState) : Prop :=
  ∃ i, i < buf.length ∧ core.Issued bus s.bus
    ((i2cWriteTrace core flags (core.line bus.written).prescale buf).take (i + 1)) (buf.getD i 0)

/-- A shot of a write burst. -/
theorem i2cWriteShot_writes (h : core.WellFormed) (hbus : core.activeBus.isSome = true) {buf bytes : List (BitVec 8)}
    {s s' : I2cState} {ret : Int} (hpos : 0 < bytes.length) (hs : I2cWriting core bus flags buf bytes s)
    (hshot : i2cWriteShot (core.during flags) s (decide (bytes.length = buf.length)) (decide (bytes.length ≤ 1))
      (bytes.take 1) = some (s', ret)) :
    I2cWriting core bus flags buf (bytes.drop 1) s' ∧ I2cWriteFailed core bus flags buf s' := by
  obtain ⟨i, transmit, hlength, hbytes, hissued⟩ := hs
  have hi : i < buf.length := by omega
  have hone : (bytes.take 1).length = 1 := by
    rw [List.length_take]
    omega
  have hbyte : (bytes.take 1).headD 0 = buf.getD i 0 := by
    rw [hbytes, List.getD_eq_getElem?_getD, List.headD_eq_head?_getD, List.head?_take, if_neg one_ne_zero,
      List.head?_drop]
  have hfirst : decide (bytes.length = buf.length) = decide (i = 0) := by
    rw [decide_eq_decide]
    omega
  have hlast : decide (bytes.length ≤ 1) = decide (i + 1 = buf.length) := by
    rw [decide_eq_decide]
    omega
  unfold i2cWriteShot at hshot
  rw [if_neg (not_not.mpr hone), hbyte, hfirst, hlast] at hshot
  obtain ⟨⟨ret', after⟩, hwrite, hshot⟩ := Option.bind_eq_some_iff.mp hshot
  obtain ⟨rfl, -⟩ : _ = s' ∧ ret' = ret := Prod.mk.inj (Option.some.inj hshot)
  have hnext := hissued.issue (writeByte_issues (WellFormed_during h flags) hbus hwrite)
  have htake := @i2cWriteTrace_take_succ core flags buf (core.line bus.written).prescale i hi
  refine ⟨⟨i + 1, buf.getD i 0, ?_, ?_, ?_⟩, i, hi, ?_⟩
  · rw [List.length_drop]
    omega
  · rw [hbytes, List.drop_drop]
  · rw [htake]
    exact hnext
  · rw [htake]
    exact hnext

theorem i2cWriteShot_buffer {bytes : List (BitVec 8)} {s s' : I2cState} {ret : Int} {isFirstShot isLastShot : Bool}
    (hshot : i2cWriteShot core s isFirstShot isLastShot bytes = some (s', ret)) : s'.buffer = s.buffer := by
  unfold i2cWriteShot at hshot
  split_ifs at hshot
  · obtain ⟨rfl, -⟩ := Prod.mk.inj (Option.some.inj hshot)
    rfl
  · obtain ⟨⟨ret', after⟩, -, hshot⟩ := Option.bind_eq_some_iff.mp hshot
    obtain ⟨rfl, -⟩ : _ = s' ∧ ret' = ret := Prod.mk.inj (Option.some.inj hshot)
    rfl

theorem i2cBurstAborted_buffer {s s' : I2cState} (habort : i2cBurstAborted core s = some s') :
    s'.buffer = s.buffer := by
  unfold i2cBurstAborted at habort
  obtain ⟨⟨ret, stopped⟩, -, habort⟩ := Option.bind_eq_some_iff.mp habort
  obtain rfl := Option.some.inj habort
  rfl

/-- What a write burst gives the core, if it returns. -/
theorem i2cWriteBurst_issues (h : core.WellFormed) (hbus : core.activeBus.isSome = true) (buffer : Nat → BitVec 8)
    (st : BurstState) (burstFlags : Word) (buf : List (BitVec 8)) :
    BurstMayLead (machineBurst (i2cStep core) ⟨bus, buffer⟩ fun hooks => ctrlWriteBurst i2cBase hooks st burstFlags buf)
      (fun s => s.buffer = buffer ∧ ∃ k, 0 < k ∧ k ≤ buf.length ∧ core.Issued bus s.bus
        ((i2cWriteTrace core (burstFlags.setWidth 8) (core.line bus.written).prescale buf).take k ++
          [i2cStop core (core.line bus.written).prescale (buf.getD (k - 1) 0)]) (buf.getD (k - 1) 0))
      (fun s => s.buffer = buffer ∧ ∃ transmit, core.Issued bus s.bus
        (i2cWriteTrace core (burstFlags.setWidth 8) (core.line bus.written).prescale buf) transmit) := by
  have hdone : ∀ s, I2cWriting core bus (burstFlags.setWidth 8) buf [] s → ∃ transmit, core.Issued bus s.bus
      (i2cWriteTrace core (burstFlags.setWidth 8) (core.line bus.written).prescale buf) transmit := by
    rintro s ⟨i, transmit, hlength, -, hissued⟩
    have hall : (i2cWriteTrace core (burstFlags.setWidth 8) (core.line bus.written).prescale buf).take i =
        i2cWriteTrace core (burstFlags.setWidth 8) (core.line bus.written).prescale buf := by
      rw [List.take_of_length_le]
      rw [i2cWriteTrace, List.length_map, List.length_range]
      exact hlength.ge
    rw [hall] at hissued
    exact ⟨transmit, hissued⟩
  apply burst_of_resting
  apply ctrlWriteBurst_leads
    (I := fun bytes => IfAny fun s => s.buffer = buffer ∧ I2cWriting core bus (burstFlags.setWidth 8) buf bytes s)
    (E := IfAny fun s => s.buffer = buffer ∧ I2cWriteFailed core bus (burstFlags.setWidth 8) buf s)
  · constructor
    · intro bytes o hpos ho
      refine answers_resting (fun s r hs hstep => ?_) ho
      obtain ⟨hwriting, hfailed⟩ := i2cWriteShot_writes h hbus hpos hs.2 hstep
      have hbuffer := (i2cWriteShot_buffer hstep).trans hs.1
      exact ⟨fun _ => ⟨hbuffer, hfailed⟩, fun _ => ⟨hbuffer, hwriting⟩⟩
    · intro bytes o isFirst isLast ho
      exact answers_resting_idle (fun _ _ => rfl) (fun _ hs => hs) ho
  · refine answers_resting_idle (P := fun s => s = ⟨bus, buffer⟩) (fun _ _ => rfl) ?_
      fun s hs => (Option.mem_some_iff.mp hs).symm
    rintro _ rfl
    refine ⟨rfl, 0, (core.line bus.written).transmit, Nat.zero_add _, rfl, ?_, rfl, rfl⟩
    exact (List.append_nil _).symm
  · intro o isFirst ho
    refine ends_resting (fun s r hs hstep => ?_) ho
    obtain rfl := Option.some.inj hstep
    exact ⟨hs.1, hdone s hs.2⟩
  · intro o ho
    refine ends_resting (fun s r hs hstep => ?_) ho
    obtain ⟨s', habort, rfl⟩ := Option.map_eq_some_iff.mp hstep
    obtain ⟨hbuffer, i, hi, hissued⟩ := hs
    refine ⟨(i2cBurstAborted_buffer habort).trans hbuffer, i + 1, Nat.succ_pos i, hi, ?_⟩
    exact i2cBurstAborted_stops h hbus hissued habort

/-- The buffer of a read burst with the first `j` values that the core gives. -/
def I2cReceived (bus : CoreBus) (buffer : Nat → BitVec 8) (j : Nat) (s : I2cState) : Prop :=
  (∀ n < j, (bus.reads I2C_MC_REG_RECEIVE)[n]?.map CoreRead.value = some (s.buffer n)) ∧
    (∀ n, j ≤ n → s.buffer n = buffer n) ∧
    s.bus.reads I2C_MC_REG_RECEIVE = (bus.reads I2C_MC_REG_RECEIVE).drop j

/-- A read burst after `j` of its bytes. -/
def I2cReading (core : I2cMasterCore) (bus : CoreBus) (buffer : Nat → BitVec 8) (flags : BitVec 8) (size j : Nat)
    (s : I2cState) : Prop :=
  I2cReceived bus buffer j s ∧ core.Issued bus s.bus ((i2cReadTrace core flags (core.line bus.written).prescale
    (core.line bus.written).transmit size).take j) (core.line bus.written).transmit

/-- A read burst whose last byte failed. -/
def I2cReadFailed (core : I2cMasterCore) (bus : CoreBus) (buffer : Nat → BitVec 8) (flags : BitVec 8) (size : Nat)
    (s : I2cState) : Prop :=
  ∃ j < size, (∀ n < j, (bus.reads I2C_MC_REG_RECEIVE)[n]?.map CoreRead.value = some (s.buffer n)) ∧
    (∀ n, j ≤ n → s.buffer n = buffer n) ∧
    core.Issued bus s.bus ((i2cReadTrace core flags (core.line bus.written).prescale
      (core.line bus.written).transmit size).take (j + 1)) (core.line bus.written).transmit

/-- A shot of a read burst. -/
theorem i2cReadShot_reads (h : core.WellFormed) (hbus : core.activeBus.isSome = true) {buffer : Nat → BitVec 8}
    {size j : Nat} {s s' : I2cState} {ret : Int} {isLast : Bool} (hj : j < size) (hlast : isLast = decide (j + 1 = size))
    (hs : I2cReading core bus buffer flags size j s)
    (hshot : i2cReadShot (core.during flags) s isLast j 1 = some (s', ret)) :
    (menIsError ret = true → I2cReadFailed core bus buffer flags size s') ∧
      (menIsError ret = false → I2cReading core bus buffer flags size (j + 1) s') := by
  obtain ⟨⟨hvalues, hrest, hreads⟩, hissued⟩ := hs
  unfold i2cReadShot at hshot
  rw [if_neg (not_not.mpr rfl), hlast] at hshot
  obtain ⟨⟨ret', outByte, after⟩, hread, hshot⟩ := Option.bind_eq_some_iff.mp hshot
  obtain ⟨hissue, hends⟩ := readByte_issues (WellFormed_during h flags) hbus hread
  rw [line_during, hissued.transmit] at hissue
  have hnext : core.Issued bus after ((i2cReadTrace core flags (core.line bus.written).prescale
      (core.line bus.written).transmit size).take (j + 1)) (core.line bus.written).transmit := by
    rw [i2cReadTrace_take_succ _ _ hj]
    exact hissued.issue hissue
  rcases hends with ⟨rfl, rfl⟩ | ⟨rfl, read, reads, hreceive, hafter, rfl⟩
  · obtain ⟨rfl, rfl⟩ := Prod.mk.inj (Option.some.inj hshot)
    exact ⟨fun _ => ⟨j, hj, hvalues, hrest, hnext⟩, fun hok => absurd hok (by decide)⟩
  · obtain ⟨rfl, rfl⟩ := Prod.mk.inj (Option.some.inj hshot)
    refine ⟨fun herr => absurd herr (by decide), fun _ => ⟨⟨?_, ?_, ?_⟩, hnext⟩⟩
    · intro n hn
      by_cases heq : n = j
      · subst heq
        have hget : (bus.reads I2C_MC_REG_RECEIVE)[n]? = some read := by
          have hhead := congrArg List.head? (hreads.symm.trans hreceive)
          rw [List.head?_drop] at hhead
          exact hhead
        rw [hget, Option.map_some]
        exact congrArg some (Function.update_self (β := fun _ => BitVec 8) n read.value s.buffer).symm
      · rw [hvalues n (by omega)]
        exact congrArg some (Function.update_of_ne (β := fun _ => BitVec 8) heq read.value s.buffer).symm
    · intro n hn
      exact (Function.update_of_ne (β := fun _ => BitVec 8) (by omega) read.value s.buffer).trans (hrest n (by omega))
    · have htail := congrArg List.tail (hreads.symm.trans hreceive)
      rw [List.tail_drop] at htail
      rw [hafter]
      exact htail.symm

/-- Each shot has one byte. -/
theorem i2cReads_count (size : Nat) : Pieces.count i2cBase.maxBytesPerRead.val size = size := by
  rw [show i2cBase.maxBytesPerRead.val = 1 from rfl, Pieces.count]
  omega

theorem i2cReads_length {size j : Nat} (hj : j < size) : Pieces.length i2cBase.maxBytesPerRead.val size j = 1 := by
  rw [show i2cBase.maxBytesPerRead.val = 1 from rfl, Pieces.length]
  omega

/-- What a read burst gives the core and gets from it, if it returns. -/
theorem i2cReadBurst_issues (h : core.WellFormed) (hbus : core.activeBus.isSome = true) (buffer : Nat → BitVec 8)
    (st : BurstState) (burstFlags : Word) (size : Nat) :
    BurstMayLead (machineBurst (i2cStep core) ⟨bus, buffer⟩ fun hooks => ctrlReadBurst i2cBase hooks st burstFlags size)
      (fun s => ∃ k < size,
        (∀ n < k, (bus.reads I2C_MC_REG_RECEIVE)[n]?.map CoreRead.value = some (s.buffer n)) ∧
        (∀ n, k ≤ n → s.buffer n = buffer n) ∧
        core.Issued bus s.bus ((i2cReadTrace core (burstFlags.setWidth 8) (core.line bus.written).prescale
            (core.line bus.written).transmit size).take (k + 1) ++
          [i2cStop core (core.line bus.written).prescale (core.line bus.written).transmit])
          (core.line bus.written).transmit)
      (fun s => I2cReceived bus buffer size s ∧ core.Issued bus s.bus
        (i2cReadTrace core (burstFlags.setWidth 8) (core.line bus.written).prescale
          (core.line bus.written).transmit size) (core.line bus.written).transmit) := by
  apply burst_of_resting
  apply ctrlReadBurst_leads
    (I := fun _ j => IfAny (I2cReading core bus buffer (burstFlags.setWidth 8) size j))
    (E := IfAny (I2cReadFailed core bus buffer (burstFlags.setWidth 8) size))
  · constructor
    · intro k j o isFirst isLast ho hjk _ hk _ _
      rw [i2cReads_length (hk.trans_eq (i2cReads_count size))]
      refine answers_resting_idle (fun s hs => ?_) (fun s hs => hs) ho
      rfl
    · intro k j o isFirst isLast ho hjk hk _ hlast
      have hj : j < size := hjk.trans_le (hk.trans_eq (i2cReads_count size))
      rw [i2cReads_length hj, show j * i2cBase.maxBytesPerRead.val = j from Nat.mul_one j]
      refine answers_resting (fun s r hs hstep => ?_) ho
      refine i2cReadShot_reads h hbus hj ?_ hs hstep
      rw [i2cReads_count] at hlast
      rw [Bool.eq_iff_iff, hlast, decide_eq_true_iff]
  · refine answers_resting_idle (P := fun s => s = ⟨bus, buffer⟩) (fun _ _ => rfl) ?_
      fun s hs => (Option.mem_some_iff.mp hs).symm
    rintro _ rfl
    refine ⟨⟨fun n hn => absurd hn (Nat.not_lt_zero n), fun n _ => rfl, rfl⟩, ?_, rfl, rfl⟩
    exact (List.append_nil _).symm
  · intro o isFirst ho
    refine ends_resting (fun s r hs hstep => ?_) ho
    obtain rfl := Option.some.inj hstep
    rw [i2cReads_count] at hs
    have hall : (i2cReadTrace core (burstFlags.setWidth 8) (core.line bus.written).prescale
        (core.line bus.written).transmit size).take size = i2cReadTrace core (burstFlags.setWidth 8)
          (core.line bus.written).prescale (core.line bus.written).transmit size := by
      rw [List.take_of_length_le]
      rw [i2cReadTrace, List.length_map, List.length_range]
    rw [← hall]
    exact hs
  · intro o ho
    refine ends_resting (fun s r hs hstep => ?_) ho
    obtain ⟨s', habort, rfl⟩ := Option.map_eq_some_iff.mp hstep
    obtain ⟨k, hk, hvalues, hrest, hissued⟩ := hs
    refine ⟨k, hk, ?_, ?_, i2cBurstAborted_stops h hbus hissued habort⟩
    · dsimp only
      rw [i2cBurstAborted_buffer habort]
      exact hvalues
    · dsimp only
      rw [i2cBurstAborted_buffer habort]
      exact hrest

theorem i2cBurstAborted_inactive (hbus : core.activeBus = none) (s : I2cState) : i2cBurstAborted core s = some s := by
  unfold i2cBurstAborted writeStop activateI2cCoreOnBank
  rw [hbus]
  rfl

/-- Without an active bus the first byte fails, and nothing is written to the core. -/
theorem i2cWriteBurst_inactive (hbus : core.activeBus = none) (s : I2cState) (st : BurstState) (burstFlags : Word)
    (buf : List (BitVec 8)) :
    BurstMayLead (machineBurst (i2cStep core) s fun hooks => ctrlWriteBurst i2cBase hooks st burstFlags buf)
      (fun s' => s' = s) (fun s' => s' = s ∧ buf = []) := by
  apply burst_of_resting
  apply ctrlWriteBurst_leads (I := fun bytes => IfAny fun s' => s' = s ∧ bytes = buf) (E := IfAny fun s' => s' = s)
  · constructor
    · intro bytes o hpos ho
      refine answers_resting (fun s' r hs' hstep => ?_) ho
      have hone : (bytes.take 1).length = 1 := by
        rw [List.length_take]
        omega
      have hshot : i2cWriteShot (core.during (burstFlags.setWidth 8)) s' (decide (bytes.length = buf.length))
          (decide (bytes.length ≤ 1)) (bytes.take 1) = some (s', STATUS_ERR_INVALID_STATE) := by
        rw [i2cWriteShot, if_neg (not_not.mpr hone), writeByte,
          if_pos (by rw [show (core.during (burstFlags.setWidth 8)).activeBus = none from hbus]; rfl)]
        rfl
      obtain rfl := Option.some.inj (hshot.symm.trans hstep)
      exact ⟨fun _ => hs'.1, fun hok => absurd (show menIsError STATUS_ERR_INVALID_STATE = false from hok) (by decide)⟩
    · intro bytes o isFirst isLast ho
      exact answers_resting_idle (fun _ _ => rfl) (fun _ hs => hs) ho
  · refine answers_resting_idle (P := fun s' => s' = s) (fun _ _ => rfl) (fun s' hs' => ⟨hs', rfl⟩)
      fun s' hs' => (Option.mem_some_iff.mp hs').symm
  · intro o isFirst ho
    refine ends_resting (fun s' r hs' hstep => ?_) ho
    obtain rfl := Option.some.inj hstep
    exact ⟨hs'.1, hs'.2.symm⟩
  · intro o ho
    refine ends_resting (fun s' r hs' hstep => ?_) ho
    obtain ⟨s'', habort, rfl⟩ := Option.map_eq_some_iff.mp hstep
    obtain rfl := Option.some.inj ((@i2cBurstAborted_inactive (core.during 0) hbus s').symm.trans habort)
    exact hs'

theorem i2cReadBurst_inactive (hbus : core.activeBus = none) (s : I2cState) (st : BurstState) (burstFlags : Word)
    (size : Nat) :
    BurstMayLead (machineBurst (i2cStep core) s fun hooks => ctrlReadBurst i2cBase hooks st burstFlags size)
      (fun s' => s' = s) (fun s' => s' = s ∧ size = 0) := by
  apply burst_of_resting
  apply ctrlReadBurst_leads (I := fun _ j => IfAny fun s' => s' = s ∧ j = 0) (E := IfAny fun s' => s' = s)
  · constructor
    · intro k j o isFirst isLast ho hjk _ hk _ _
      rw [i2cReads_length (hk.trans_eq (i2cReads_count size))]
      refine answers_resting_idle (fun s' _ => ?_) (fun s' hs' => hs') ho
      rfl
    · intro k j o isFirst isLast ho hjk hk _ _
      have hj : j < size := hjk.trans_le (hk.trans_eq (i2cReads_count size))
      rw [i2cReads_length hj]
      refine answers_resting (fun s' r hs' hstep => ?_) ho
      have hshot : i2cReadShot (core.during (burstFlags.setWidth 8)) s' isLast (j * i2cBase.maxBytesPerRead.val) 1 =
          some (s', STATUS_ERROR) := by
        rw [i2cReadShot, if_neg (not_not.mpr rfl), readByte,
          if_pos (by rw [show (core.during (burstFlags.setWidth 8)).activeBus = none from hbus]; rfl)]
        rfl
      obtain rfl := Option.some.inj (hshot.symm.trans hstep)
      exact ⟨fun _ => hs'.1, fun hok => absurd (show menIsError STATUS_ERROR = false from hok) (by decide)⟩
  · refine answers_resting_idle (P := fun s' => s' = s) (fun _ _ => rfl) (fun s' hs' => ⟨hs', rfl⟩)
      fun s' hs' => (Option.mem_some_iff.mp hs').symm
  · intro o isFirst ho
    refine ends_resting (fun s' r hs' hstep => ?_) ho
    obtain rfl := Option.some.inj hstep
    exact ⟨hs'.1, (i2cReads_count size).symm.trans hs'.2⟩
  · intro o ho
    refine ends_resting (fun s' r hs' hstep => ?_) ho
    obtain ⟨s'', habort, rfl⟩ := Option.map_eq_some_iff.mp hstep
    obtain rfl := Option.some.inj ((@i2cBurstAborted_inactive (core.during 0) hbus s').symm.trans habort)
    exact hs'

end MenableDriver
