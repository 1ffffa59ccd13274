import MenableDriver.Uiq.Base

/-!
# The JTAG controller

`jtag_controller.c`: bits for the JTAG chain go through one control register, sixteen at a
time. The words for the TMS pin are loaded first, and the words with the data start the clock.
The controller remembers the state of the chain. A read of the register takes the next value
that the board gives; a function that waits for more values than there are does not return.
-/

namespace MenableDriver

set_option autoImplicit false

def JTAG_DEFAULT_VALUE : Word := 0x03c00000#32
def JTAG_TMS_nTDO : Word := 0x00010000#32
def JTAG_ENABLE : Word := 0x00020000#32
def JTAG_BITCOUNT_MASK : Word := 0x003c0000#32
def JTAG_BITCOUNT_SHIFT : Nat := 18
def JTAG_PRESCALER_MASK : Word := 0x03c00000#32
def JTAG_PRESCALER_SHIFT : Nat := 22
def JTAG_PRESCALER_BASE_FREQUENCY : Nat := 125000000
def JTAG_PRESCALER_MAX_VALUE : Nat := 0xf
def JTAG_DONE_TOGGLE : Word := 0x00020000#32
def JTAG_CTRL_ACTIVATE : Word := 0x04000000#32

def LENGTH_IN_BYTES : Word := 0x1#32
def LENGTH_IN_BITS : Word := 0x2#32
def WAIT_ON_READ : Word := 0x0#32
def SEND_ZEROES_ON_READ : Word := 0x20#32
def SEND_ONES_ON_READ : Word := 0x40#32
def READ_MODE_MASK : Word := 0x60#32
def RAW_MODE : Word := 0x80#32
def STATE_IDLE : Word := 0x100#32
def STATE_SHIFT_DR : Word := 0x200#32
def STATE_SHIFT_IR : Word := 0x300#32
def STATE_MASK : Word := 0x1F00#32
def LSB_FIRST : Word := 0x2000#32
def WRITE_TMS_DATA : Word := 0x4000#32

def INT32_MAX : Nat := 2147483647

/-- The values of `enum JtagTransmitionFlags` that name a state. -/
inductive JtagState where
  | idle | shiftDr | shiftIr | reset | exit | invalid
deriving DecidableEq, Repr

inductive JtagError where
  | error | invalidPointer | invalidSize | invalidRwFlags | ioFailure | timeout | noData
  | frequencyTooLow | frequencyTooHigh | dataLengthMismatch | invalidArgument
deriving DecidableEq, Repr

/-- The control register: the values that the next reads give, and the words that were written. -/
structure JtagBus where
  reads : List Word
  written : List Word

/-- `struct jtag_controller`, without what only the burst interface uses. The prescaler has no
other bits of the control register set. -/
structure JtagController where
  frequency : Nat
  prescalerValue : Word
  state : JtagState
  tmsBuffer : Option (Nat → BitVec 8)
  tmsBufferValidBits : Nat
  readBuffer : Option (Nat → BitVec 8)
  readBufferValidBits : Nat
  prescalerValue_ok : prescalerValue &&& ~~~JTAG_PRESCALER_MASK = 0

/-- What a call leaves behind and returns. -/
abbrev JtagResult := JtagController × JtagBus × Except JtagError Nat

def jtagControllerInit : JtagController :=
  { frequency := 0x30D40, prescalerValue := JTAG_DEFAULT_VALUE, state := .invalid, tmsBuffer := none
    tmsBufferValidBits := 0, readBuffer := none, readBufferValidBits := 0, prescalerValue_ok := by decide }

namespace JtagBus

def writeControlRegister (b : JtagBus) (value : Word) : JtagBus := { b with written := b.written ++ [value] }

def readControlRegister (b : JtagBus) : Option (Word × JtagBus) :=
  match b.reads with
  | [] => none
  | val :: reads => some (val, { b with reads })

/-- Wait for completion: the done bit has another value than before, or the read failed. -/
def waitForCompletion (lastStatus : Word) : List Word → Option (Word × List Word)
  | [] => none
  | val :: reads =>
    if val = 0xffffffff#32 then some (val, reads)
    else if val &&& JTAG_DONE_TOGGLE = lastStatus &&& JTAG_DONE_TOGGLE then waitForCompletion lastStatus reads
    else some (val, reads)

/-- The word with the bits for the TMS pin. -/
def tmsWord (lastStatus tms : Word) : Word :=
  JTAG_CTRL_ACTIVATE ||| (lastStatus &&& JTAG_PRESCALER_MASK) ||| JTAG_BITCOUNT_MASK ||| JTAG_TMS_nTDO |||
    (tms &&& 0xffff#32)

/-- The word with the data. -/
def dataWord (lastStatus data : Word) (numBits : Nat) : Word :=
  JTAG_CTRL_ACTIVATE ||| (lastStatus &&& JTAG_PRESCALER_MASK) |||
    (BitVec.ofNat 32 (numBits - 1) <<< JTAG_BITCOUNT_SHIFT) ||| JTAG_ENABLE ||| (data &&& 0xffff#32)

/-- The two words of a frame and the wait. -/
def sendFrame (b : JtagBus) (lastStatus tms data : Word) (numBits : Nat) : Option (Word × JtagBus) := do
  let b := b.writeControlRegister (tmsWord lastStatus tms)
  let b := b.writeControlRegister (dataWord lastStatus data numBits)
  let (val, reads) ← waitForCompletion lastStatus b.reads
  some (val, { b with reads })

end JtagBus

/-! ## Changing the state -/

/-- The cases of the `switch` that fall through to the next one. -/
def tmsFromIdle (state : JtagState) (bits : Word) (numBits : Nat) : Word × Nat :=
  if state = .idle then (bits, numBits)
  else if state = .shiftDr then ((bits <<< 3) ||| 0x4#32, numBits + 3)
  else if state = .shiftIr then ((bits <<< 4) ||| 0xc#32, numBits + 4)
  else (0x7#32, 3)

def tmsFromReset (state : JtagState) (bits : Word) (numBits : Nat) : Word × Nat :=
  if state = .reset then (bits, numBits) else tmsFromIdle state (bits <<< 1) (numBits + 1)

/-- Gather TMS data. -/
def gatherTms (old state : JtagState) : Word × Nat :=
  match old with
  | .invalid => tmsFromReset state 0x1f#32 5
  | .reset => tmsFromReset state 0#32 0
  | .idle => tmsFromIdle state 0#32 0
  | .shiftDr =>
    if state = .shiftDr then (0#32, 0)
    else if state = .idle then (0x6#32, 3)
    else if state = .shiftIr then (0x3c#32, 6)
    else (0x1f#32, 5)
  | .shiftIr =>
    if state = .shiftIr then (0#32, 0)
    else if state = .idle then (0x6#32, 3)
    else if state = .shiftDr then (0x1c#32, 5)
    else (0x1f#32, 5)
  | .exit =>
    if state = .idle then (0x2#32, 2)
    else if state = .shiftDr then (0xc#32, 4)
    else if state = .shiftIr then (0x1c#32, 5)
    else (0xf#32, 4)

def setState (c : JtagController) (b : JtagBus) (state : JtagState) : Option JtagResult :=
  if state = .exit ∨ state = .invalid then some (c, b, .error .error)
  else
    let (bits, numBits) := gatherTms c.state state
    if numBits ≠ 0 then do
      let b := b.writeControlRegister c.prescalerValue
      let (lastStatus, b) ← b.readControlRegister
      let (val, b) ← b.sendFrame lastStatus (bits <<< (16 - numBits)) 0#32 numBits
      if val = 0xffffffff#32 then some (c, b.writeControlRegister JTAG_DEFAULT_VALUE, .error .ioFailure)
      else some ({ c with state }, b.writeControlRegister JTAG_DEFAULT_VALUE, .ok 0)
    else some ({ c with state }, b.writeControlRegister JTAG_DEFAULT_VALUE, .ok 0)

/-! ## Sending data -/

def reverseBitChar (c : BitVec 8) : BitVec 8 :=
  let c := (c &&& 0xF0#8) >>> 4 ||| (c &&& 0x0F#8) <<< 4
  let c := (c &&& 0xCC#8) >>> 2 ||| (c &&& 0x33#8) <<< 2
  (c &&& 0xAA#8) >>> 1 ||| (c &&& 0x55#8) <<< 1

/-- The bytes of a frame, from the end of the buffer on when the first bit is the highest one. -/
def frameBytes (mem : Nat → BitVec 8) (ptr : Int) (msbFirst : Bool) (bitsToWrite : Nat) : BitVec 16 × Int :=
  let byte := fun ptr : Int => (if msbFirst then mem ptr.toNat else reverseBitChar (mem ptr.toNat)).setWidth 16
  let next := fun ptr : Int => if msbFirst then ptr - 1 else ptr + 1
  let d := byte ptr <<< 8
  if bitsToWrite > 8 then (d ||| byte (next ptr), next (next ptr)) else (d, next ptr)

/-- Shift the first meaningful bit to msb position. -/
def alignData (msbFirst : Bool) (bitsToWrite : Nat) (d : BitVec 16) : BitVec 16 :=
  if msbFirst then
    if bitsToWrite ≤ 8 then d <<< (8 - bitsToWrite)
    else if bitsToWrite < 16 then d <<< (16 - bitsToWrite)
    else d
  else d

/-- The variables of the loop over the frames. -/
structure FrameState where
  lastStatus : Word
  sendPtr : Int
  tmsPtr : Int
  recvPtr : Int
  recv : Nat → BitVec 8
  bus : JtagBus

/-- The first frame has the bits that do not fill a frame. -/
def frameLength (bitsLeftToWrite : Nat) : Nat :=
  let bitsToWrite := bitsLeftToWrite % 16
  if bitsToWrite = 0 then 16 else bitsToWrite

/-- Unless we transmit data in idle, we need to exit the shift state with the last bit. -/
def frameTms (flags : Word) (bitsLeftToWrite : Nat) : Word :=
  if bitsLeftToWrite > 16 ∨ flags &&& STATE_MASK = STATE_IDLE then 0#32
  else (0x1#32 <<< (16 - frameLength bitsLeftToWrite)) &&& 0xffff#32

/-- Collect read data. -/
def collectData (msbFirst : Bool) (bitsToWrite : Nat) (val : Word) (recv : Nat → BitVec 8) (recvPtr : Int) :
    (Nat → BitVec 8) × Int :=
  let low := (val &&& 0xff#32).setWidth 8
  let high := ((val >>> 8) &&& 0xff#32).setWidth 8
  if msbFirst then
    let (recv, recvPtr) :=
      if bitsToWrite > 8 then (Function.update recv recvPtr.toNat high, recvPtr - 1) else (recv, recvPtr)
    (Function.update recv recvPtr.toNat low, recvPtr - 1)
  else
    let (recv, recvPtr) :=
      if bitsToWrite > 8 then (Function.update recv recvPtr.toNat (reverseBitChar high), recvPtr + 1)
      else (recv, recvPtr)
    (Function.update recv recvPtr.toNat (reverseBitChar low), recvPtr + 1)

/-- One turn of the loop. It ends the call when the board does not answer any more. -/
def writeFrame (tmsBuffer data : Nat → BitVec 8) (flags : Word) (bitsLeftToWrite : Nat) (s : FrameState) :
    Option (Except FrameState FrameState) := do
  let msbFirst := flags &&& LSB_FIRST = 0
  let bitsToWrite := frameLength bitsLeftToWrite
  let (d, sendPtr) := frameBytes data s.sendPtr msbFirst bitsToWrite
  let d := alignData msbFirst bitsToWrite d
  let (tms, tmsPtr) :=
    if flags &&& RAW_MODE = 0 then (frameTms flags bitsLeftToWrite, s.tmsPtr)
    else
      let (tms, tmsPtr) := frameBytes tmsBuffer s.tmsPtr msbFirst bitsToWrite
      (tms.setWidth 32, tmsPtr)
  let (val, bus) ← s.bus.sendFrame s.lastStatus tms (d.setWidth 32) bitsToWrite
  if val = 0xffffffff#32 then
    some (.error { s with sendPtr, tmsPtr, bus := bus.writeControlRegister JTAG_DEFAULT_VALUE })
  else
    let (recv, recvPtr) := collectData msbFirst bitsToWrite val s.recv s.recvPtr
    some (.ok { lastStatus := val, sendPtr, tmsPtr, recvPtr, recv, bus })

/-- Send in units of 16 bit. -/
def writeFrames (tmsBuffer data : Nat → BitVec 8) (flags : Word) (bitsLeftToWrite : Nat) (s : FrameState) :
    Option (Except FrameState FrameState) :=
  if bitsLeftToWrite = 0 then some (.ok s)
  else
    match writeFrame tmsBuffer data flags bitsLeftToWrite s with
    | none => none
    | some (.error s) => some (.error s)
    | some (.ok s) => writeFrames tmsBuffer data flags (bitsLeftToWrite - frameLength bitsLeftToWrite) s
termination_by bitsLeftToWrite
decreasing_by
  have hpos : 0 < frameLength bitsLeftToWrite := by
    unfold frameLength
    dsimp only
    split_ifs <;> omega
  omega

/-- The number that `write` returns. -/
def transferLength (flags : Word) (lengthInBits : Nat) : Nat :=
  if flags &&& LENGTH_IN_BITS ≠ 0 then lengthInBits else (lengthInBits + 7) / 8

/-- The second half of `write`, from the receive buffer on. -/
def transfer (c : JtagController) (b : JtagBus) (data : Nat → BitVec 8) (lengthInBits : Nat) (flags : Word) :
    Option JtagResult := do
  let c := { c with
    readBuffer := some fun _ => 0#8
    readBufferValidBits := if c.readBuffer.isSome then 0 else c.readBufferValidBits }
  let b := b.writeControlRegister c.prescalerValue
  let (lastStatus, b) ← b.readControlRegister
  let start : Int := if flags &&& LSB_FIRST = 0 then ((lengthInBits + 7) / 8 : Nat) - 1 else 0
  let frames ← writeFrames (c.tmsBuffer.getD fun _ => 0#8) data flags lengthInBits
    { lastStatus, sendPtr := start, tmsPtr := start, recvPtr := start, recv := fun _ => 0#8, bus := b }
  match frames with
  | .error s => some ({ c with readBuffer := some s.recv }, s.bus, .error .ioFailure)
  | .ok s =>
    let c :=
      if flags &&& RAW_MODE = 0 then
        if flags &&& STATE_MASK ≠ STATE_IDLE then { c with state := .exit } else c
      else { c with state := .invalid, tmsBuffer := none, tmsBufferValidBits := 0 }
    some ({ c with readBuffer := some s.recv, readBufferValidBits := lengthInBits },
      s.bus.writeControlRegister JTAG_DEFAULT_VALUE, .ok (transferLength flags lengthInBits))

/-- The state in the flags, when data can be sent there. -/
def stateOfFlags (flags : Word) : Option JtagState :=
  let newState := flags &&& STATE_MASK
  if newState = STATE_IDLE then some .idle
  else if newState = STATE_SHIFT_DR then some .shiftDr
  else if newState = STATE_SHIFT_IR then some .shiftIr
  else none

/-- The checks of the arguments that `write` and `read` have in common. -/
def checkTransfer (length : Nat) (flags : Word) : Option JtagError :=
  if (flags &&& LENGTH_IN_BITS ≠ 0 ∧ length > INT32_MAX) ∨
      (flags &&& LENGTH_IN_BYTES ≠ 0 ∧ length > INT32_MAX / 8) ∨ length = 0 then some .invalidSize
  else if (flags &&& LENGTH_IN_BITS = 0 ∧ flags &&& LENGTH_IN_BYTES = 0) ∨
      (flags &&& LENGTH_IN_BITS ≠ 0 ∧ flags &&& LENGTH_IN_BYTES ≠ 0) ∨
      (flags &&& STATE_MASK = 0 ∧ flags &&& RAW_MODE = 0) ∨
      (flags &&& STATE_MASK ≠ 0 ∧ flags &&& RAW_MODE ≠ 0) then some .invalidRwFlags
  else if flags &&& SEND_ZEROES_ON_READ ≠ 0 ∧ flags &&& SEND_ONES_ON_READ ≠ 0 then some .invalidRwFlags
  else none

/-- What is sent for data that nobody gave. -/
def fillByte (flags : Word) : BitVec 8 := if flags &&& SEND_ZEROES_ON_READ ≠ 0 then 0#8 else 0xff#8

/-- `write`, where a call with TMS data may call `again` for the other data. -/
def writeWith (again : JtagController → JtagBus → (Nat → BitVec 8) → Nat → Word → Option JtagResult)
    (c : JtagController) (b : JtagBus) (data : Nat → BitVec 8) (length : Nat) (flags : Word) :
    Option JtagResult :=
  match checkTransfer length flags with
  | some e => some (c, b, .error e)
  | none =>
    let lengthInBits := if flags &&& LENGTH_IN_BITS ≠ 0 then length else 8 * length
    if flags &&& RAW_MODE = 0 then
      match stateOfFlags flags with
      | none => some (c, b, .error .invalidArgument)
      | some state => do
        let (c, b, result) ← setState c b state
        match result with
        | .error e => some (c, b, .error e)
        | .ok _ => transfer c b data lengthInBits flags
    else if flags &&& WRITE_TMS_DATA = 0 then
      if flags &&& READ_MODE_MASK ≠ 0 then
        transfer { c with tmsBuffer := some fun _ => fillByte flags, tmsBufferValidBits := lengthInBits }
          b data
          lengthInBits flags
      else if c.tmsBuffer.isNone ∨ c.tmsBufferValidBits ≠ lengthInBits then
        some (c, b, .error .dataLengthMismatch)
      else transfer c b data lengthInBits flags
    else
      let c := { c with tmsBuffer := some data, tmsBufferValidBits := lengthInBits }
      if flags &&& READ_MODE_MASK ≠ 0 then
        again c b (fun _ => fillByte flags) length (flags &&& ~~~(READ_MODE_MASK ||| WRITE_TMS_DATA))
      else some (c, b, .ok (transferLength flags lengthInBits))

/-- The second call has no TMS data, so it does not call again. -/
def write (c : JtagController) (b : JtagBus) (data : Option (Nat → BitVec 8)) (length : Nat) (flags : Word) :
    Option JtagResult :=
  match data with
  | none => some (c, b, .error .invalidArgument)
  | some data => writeWith (writeWith fun _ _ _ _ _ => none) c b data length flags

/-- `read`, and the bytes that it copies. -/
def read (c : JtagController) (b : JtagBus) (dataIsNull : Bool) (length : Nat) (flags : Word) :
    Option (JtagResult × (Nat → BitVec 8)) :=
  if dataIsNull then some ((c, b, .error .invalidPointer), fun _ => 0#8)
  else match checkTransfer length flags with
  | some e => some ((c, b, .error e), fun _ => 0#8)
  | none =>
    let lengthInBits := if flags &&& LENGTH_IN_BITS ≠ 0 then length else 8 * length
    let copy := fun (c : JtagController) (b : JtagBus) =>
      (({ c with readBuffer := none, readBufferValidBits := 0 }, b, .ok (transferLength flags lengthInBits)),
        c.readBuffer.getD fun _ => 0#8)
    if c.readBuffer.isNone ∨ c.readBufferValidBits < lengthInBits then
      if flags &&& RAW_MODE ≠ 0 then some ((c, b, .error .noData), fun _ => 0#8)
      else if flags &&& READ_MODE_MASK = WAIT_ON_READ then some ((c, b, .error .timeout), fun _ => 0#8)
      else do
        let (c, b, result) ← write c b (some fun _ => fillByte flags) length flags
        match result with
        | .error e => some ((c, b, .error e), fun _ => 0#8)
        | .ok _ => some (copy c b)
    else some (copy c b)

/-! ## The frequency -/

/-- Calculate CLK/2^(n+1) type prescaler value. -/
def getExp2n1PrescalerValue (f freq prescaler : Nat) : Nat × Nat :=
  if f > freq then getExp2n1PrescalerValue (f / 2) freq (prescaler + 1) else (prescaler, f)
termination_by f

theorem prescaler_ok : ∀ prescaler < 16, (BitVec.ofNat 32 prescaler <<< JTAG_PRESCALER_SHIFT) &&&
    ~~~JTAG_PRESCALER_MASK = 0 := by
  decide

def setFrequency (c : JtagController) (b : JtagBus) : JtagResult :=
  if c.frequency > JTAG_PRESCALER_BASE_FREQUENCY then (c, b, .error .frequencyTooHigh)
  else
    let (prescaler, freq) := getExp2n1PrescalerValue (JTAG_PRESCALER_BASE_FREQUENCY / 2) c.frequency 0
    if h : prescaler > JTAG_PRESCALER_MAX_VALUE then (c, b, .error .frequencyTooLow)
    else
      let c := { c with
        prescalerValue := BitVec.ofNat 32 prescaler <<< JTAG_PRESCALER_SHIFT
        prescalerValue_ok := prescaler_ok prescaler (by rw [JTAG_PRESCALER_MAX_VALUE] at h; omega) }
      (c, b.writeControlRegister c.prescalerValue, .ok freq)

/-- Calculate CLK/2^(n+1) type frequency value. -/
def getExp2n1FrequencyValue (clk : Nat) : Nat → Nat
  | 0 => clk / 2
  | prescaler + 1 => getExp2n1FrequencyValue clk prescaler / 2

/-- `get_frequency`, and the frequency that it stores. -/
def getFrequency (c : JtagController) (b : JtagBus) : Option (JtagResult × Nat) := do
  let (val, b) ← b.readControlRegister
  some ((c, b, .ok 0), getExp2n1FrequencyValue JTAG_PRESCALER_BASE_FREQUENCY
    ((val &&& JTAG_PRESCALER_MASK) >>> JTAG_PRESCALER_SHIFT).toNat)

/-! ## Runs -/

/-- The end of a burst drops the buffers. -/
def jtagCleanup (c : JtagController) : JtagController := { c with readBuffer := none, tmsBuffer := none }

inductive JtagCall where
  | setState (state : JtagState)
  | write (data : Option (Nat → BitVec 8)) (length : Nat) (flags : Word)
  | read (dataIsNull : Bool) (length : Nat) (flags : Word)
  | setFrequency (frequency : Nat)
  | getFrequency
  | cleanup

def jtagCall (c : JtagController) (b : JtagBus) : JtagCall → Option JtagResult
  | .setState state => setState c b state
  | .write data length flags => write c b data length flags
  | .read dataIsNull length flags => (read c b dataIsNull length flags).map Prod.fst
  | .setFrequency frequency => some (setFrequency { c with frequency } b)
  | .getFrequency => (getFrequency c b).map Prod.fst
  | .cleanup => some (jtagCleanup c, b, .ok 0)

/-- The calls one after the other, and what each of them returned. -/
def jtagRun (c : JtagController) (b : JtagBus) :
    List JtagCall → Option (JtagController × JtagBus × List (Except JtagError Nat))
  | [] => some (c, b, [])
  | call :: calls => do
    let (c, b, result) ← jtagCall c b call
    let (c, b, results) ← jtagRun c b calls
    some (c, b, result :: results)

end MenableDriver
