import MenableDriver.Controllers.SpiSingle
import Mathlib.Data.Nat.Find

/-!
# The SPI v2 controller on its FIFOs

Behind the control register of `spi_v2_controller.c` there is a device that carries out the commands in their
order and gives the data that was read when it has it. What a command means is read off
`spi_v2_get_register_write_info`, and what a read gives off `spi_v2_get_register_read_info`. When the data comes,
and what else the register shows, is up to the device.
-/

namespace MenableDriver

set_option autoImplicit false

open Frames (Bus)

def SPI_MASK_DATA : Word := 0x00ffffff#32
def SPI_MASK_DATA_BITS : Word := 0x03000000#32

def getNumBytes (dataSizeFlag : Word) : Nat := (dataSizeFlag >>> 24).toNat + 1

/-- A command, as the driver describes it when it writes it. -/
structure SpiV2Command where
  chipselectOff : Bool
  read : Bool
  valid : Bool
  numBytes : Nat
  quad : Bool
deriving DecidableEq

def spiV2Describe (writeBits : Word) : SpiV2Command where
  chipselectOff := decide (writeBits &&& SPI_CHIPSELECT_OFF ≠ 0)
  read := decide (writeBits &&& SPI_READ ≠ 0)
  valid := decide (writeBits &&& SPI_ACCESS_VALID_ON ≠ 0)
  numBytes := getNumBytes (writeBits &&& SPI_MASK_DATA_BITS)
  quad := decide (writeBits &&& SPI_QUAD_MODE_ON ≠ 0)

/-- A byte on the lines of the chip; it comes from the chip while the controller reads. -/
structure SpiTransfer where
  quad : Bool
  byte : Option (BitVec 8)
deriving DecidableEq

/-- The bytes of a data word, the first one at the high end. -/
def dataWord (bytes : List (BitVec 8)) : Word := bytes.foldl (fun word byte => word <<< 8 ||| byte.setWidth 32) 0

/-- A device and its chip: the bytes that the chip gives, when there is data for a read of the register, what the
register shows when there is none, and the bits that go with a data word. The device stays, sends what it is
told, and has its data after some time. -/
structure SpiV2Device where
  answer : Bus SpiTransfer → BitVec 8
  ready : Nat → Bool
  status : Nat → Word
  upper : Nat → Word
  delay : Nat
  status_there : ∀ n, status n ≠ UINT32_MAX
  status_empty : ∀ n, status n &&& SPI_READ_FIFO_EMPTY = SPI_READ_FIFO_EMPTY
  drains : ∀ n, ∃ m < delay, status (n + m) &&& SPI_MASK_WRITE_FIFO = SPI_WRITE_FIFO_EMPTY
  gives : ∀ n, ∃ m < delay, ready (n + m) = true

/-- What the commands so far have led to, with all data words that were read by them. -/
structure SpiV2Line where
  bus : Bus SpiTransfer
  pushed : List Word

variable (device : SpiV2Device)

/-- The byte `i` that the chip gives. -/
def SpiV2Device.byte (bus : Bus SpiTransfer) (quad : Bool) (i : Nat) : BitVec 8 :=
  device.answer (bus.shift (List.replicate (i + 1) ⟨quad, none⟩))

def SpiV2Device.dataWord (bus : Bus SpiTransfer) (quad : Bool) (numBytes k : Nat) : Word :=
  MenableDriver.dataWord ((List.range numBytes).map (device.byte bus quad)) |||
    device.upper k &&& ~~~(SPI_READ_FIFO_EMPTY ||| SPI_MASK_DATA)

/-- The device carries out a command. -/
def SpiV2Device.carryOut (line : SpiV2Line) (writeBits : Word) : SpiV2Line :=
  let cmd := spiV2Describe writeBits
  let bus := if cmd.chipselectOff then line.bus.release else line.bus.select
  if cmd.valid then
    if cmd.read then
      ⟨bus.shift (List.replicate cmd.numBytes ⟨cmd.quad, none⟩),
        line.pushed ++ [device.dataWord bus cmd.quad cmd.numBytes line.pushed.length]⟩
    else
      { line with bus := bus.shift ((List.range cmd.numBytes).map fun i => ⟨cmd.quad, some (extractByte writeBits i)⟩) }
  else { line with bus }

def SpiV2Device.line (written : List Word) : SpiV2Line := written.foldl device.carryOut ⟨Bus.idle, []⟩

/-- The controller with the number of data words that were taken out of the read FIFO. -/
structure SpiV2State where
  ctrl : SpiState
  popped : Nat

/-- How many data words are taken out before the read `n`, when it were so many before the read `start`. -/
def SpiV2Device.popped (pushed popped start n : Nat) : Nat :=
  min pushed (popped + (List.range' start (n - start)).countP device.ready)

/-- What the reads from `s.ctrl.reads` on give, as long as nothing more is written. -/
def SpiV2Device.reads (s : SpiV2State) (n : Nat) : Word :=
  let pushed := (device.line s.ctrl.written).pushed
  if device.ready n then
    pushed.getD (device.popped pushed.length s.popped s.ctrl.reads n) (device.status n)
  else device.status n

/-- A function of the driver that only reads the register. -/
def SpiV2Device.afterReads (s : SpiV2State) (ctrl : SpiState) : SpiV2State :=
  ⟨ctrl, device.popped (device.line s.ctrl.written).pushed.length s.popped s.ctrl.reads ctrl.reads⟩

variable (self : SpiV2Controller)

/-- The hooks, on this device. -/
def spiV2DeviceStep (s : SpiV2State) (call : BurstCall) : Option (SpiV2State × Int) :=
  (spiV2Step self (device.reads s) device.delay s.ctrl call).map fun (ctrl, ret) => (device.afterReads s ctrl, ret)

def spiV2WaitForReadFifoEmpty (reads : Nat → Word) (fuel n : Nat) : Option (Int × Nat) :=
  spiV2WaitForCtrlStatus reads SPI_READ_FIFO_EMPTY SPI_READ_FIFO_EMPTY fuel n

/-- `spi_v2a_controller_init`, behind the setting up of the base: some clocks without a chip, and the data that
they give is thrown away. -/
def spiV2aControllerInit (fuel : Nat) (buffer : Nat → BitVec 8) : Option (Int × SpiV2State) :=
  let ctrl := spiV2WriteCtrlRegister self ⟨0, [], buffer⟩ (SPI_CHIPSELECT_OFF ||| SPI_ACCESS_VALID_ON ||| SPI_READ)
  let s : SpiV2State := ⟨ctrl, 0⟩
  (spiV2WaitForReadFifoEmpty (device.reads s) fuel ctrl.reads).map fun (ret, n) =>
    (ret, device.afterReads s { ctrl with reads := n })

def spiV2Serve (bursts : List Burst) (st : BurstState) (s : SpiV2State) : Option (List Served × SpiV2State) :=
  serveAll (spiV2DeviceStep device self) spiV2Base (fun s => s.ctrl.buffer) bursts st s

/-! ### What the controller is for -/

def quadMode (currentBurstFlags : BitVec 8) : Bool := decide (currentBurstFlags &&& SPI_BURST_FLAG_QUAD_MODE ≠ 0)

/-- The bytes of a write burst go into the frame, and those of a read burst come from the chip. -/
def spiV2Exec (bus : Bus SpiTransfer) : Burst → Served × Bus SpiTransfer
  | .write flags bytes =>
    (⟨STATUS_OK, []⟩, leaveBus flags (bus.select.shift (bytes.map fun byte => ⟨quadMode (flags.setWidth 8), some byte⟩)))
  | .read flags size =>
    (⟨STATUS_OK, (List.range size).map (device.byte bus.select (quadMode (flags.setWidth 8)))⟩,
      leaveBus flags (bus.select.shift (List.replicate size ⟨quadMode (flags.setWidth 8), none⟩)))
  | .stateChange flags => (⟨STATUS_OK, []⟩, leaveBus flags bus)

variable {device self} {s : SpiV2State} {bus : Bus SpiTransfer} {st : BurstState} {flags : Word}

/-! ### Commands -/

/-- The data and the number of the device do not reach into the other bits of a command. -/
def IsData (data : Word) : Prop := data &&& ~~~(SPI_MASK_DATA ||| SPI_MASK_SELECT_DEVICE) = 0

theorem IsData.and {data mask : Word} (h : IsData data)
    (hmask : ~~~(SPI_MASK_DATA ||| SPI_MASK_SELECT_DEVICE) &&& mask = mask) : data &&& mask = 0 := by
  have hdata : data &&& ~~~(SPI_MASK_DATA ||| SPI_MASK_SELECT_DEVICE) = 0#32 := h
  rw [← hmask, ← BitVec.and_assoc, hdata, BitVec.zero_and]
  rfl

theorem describe_or {cmd data : Word} (h : IsData data) : spiV2Describe (cmd ||| data) = spiV2Describe cmd := by
  have hmask : ∀ mask : Word, ~~~(SPI_MASK_DATA ||| SPI_MASK_SELECT_DEVICE) &&& mask = mask →
      (cmd ||| data) &&& mask = cmd &&& mask := by
    intro mask hmask
    rw [BitVec.and_or_distrib_right, show data &&& mask = 0#32 from h.and hmask, BitVec.or_zero]
  unfold spiV2Describe
  rw [hmask SPI_CHIPSELECT_OFF (by decide), hmask SPI_READ (by decide), hmask SPI_ACCESS_VALID_ON (by decide),
    hmask SPI_MASK_DATA_BITS (by decide), hmask SPI_QUAD_MODE_ON (by decide)]

theorem extractByte_or (word word' : Word) (i : Nat) :
    extractByte (word ||| word') i = extractByte word i ||| extractByte word' i := by
  unfold extractByte
  rw [BitVec.ushiftRight_or_distrib, BitVec.setWidth_or]

theorem extractByte_and (word word' : Word) (i : Nat) :
    extractByte (word &&& word') i = extractByte word i &&& extractByte word' i := by
  unfold extractByte
  rw [BitVec.ushiftRight_and_distrib, BitVec.setWidth_and]

/-- A byte in a word, at the places that the data of a shot has. -/
theorem extractByte_place (byte : BitVec 8) :
    (extractByte (byte.setWidth 32) 0 = byte ∧ extractByte (byte.setWidth 32) 1 = 0 ∧
        extractByte (byte.setWidth 32) 2 = 0) ∧
      (extractByte (byte.setWidth 32 <<< 8) 0 = 0 ∧ extractByte (byte.setWidth 32 <<< 8) 1 = byte ∧
        extractByte (byte.setWidth 32 <<< 8) 2 = 0) ∧
      extractByte (byte.setWidth 32 <<< 16) 0 = 0 ∧ extractByte (byte.setWidth 32 <<< 16) 1 = 0 ∧
        extractByte (byte.setWidth 32 <<< 16) 2 = byte := by
  revert byte
  decide

instance (data : Word) : Decidable (IsData data) := inferInstanceAs (Decidable (_ = _))

theorem isData_shift (byte : BitVec 8) : ∀ j < 3, IsData (byte.setWidth 32 <<< (8 * j)) := by
  revert byte
  decide

theorem isData_or {data data' : Word} (h : IsData data) (h' : IsData data') : IsData (data ||| data') := by
  unfold IsData at h h' ⊢
  rw [BitVec.and_or_distrib_right, h, h']
  rfl

/-- Shots have one, two or three bytes. -/
theorem shot_cases {bytes : List (BitVec 8)} (hpos : 0 < bytes.length) (hle : bytes.length ≤ 3) :
    (∃ b₀, bytes = [b₀]) ∨ (∃ b₀ b₁, bytes = [b₀, b₁]) ∨ ∃ b₀ b₁ b₂, bytes = [b₀, b₁, b₂] := by
  match bytes, hpos, hle with
  | [b₀], _, _ => exact .inl ⟨b₀, rfl⟩
  | [b₀, b₁], _, _ => exact .inr (.inl ⟨b₀, b₁, rfl⟩)
  | [b₀, b₁, b₂], _, _ => exact .inr (.inr ⟨b₀, b₁, b₂, rfl⟩)

theorem spiV2ShotData_isData {bytes : List (BitVec 8)} (hpos : 0 < bytes.length) (hle : bytes.length ≤ 3) :
    IsData (spiV2ShotData bytes) := by
  have hzero : IsData 0 := by decide
  have hshift := isData_shift
  rcases shot_cases hpos hle with ⟨b₀, rfl⟩ | ⟨b₀, b₁, rfl⟩ | ⟨b₀, b₁, b₂, rfl⟩
  · exact isData_or hzero (hshift b₀ 0 (by decide))
  · exact isData_or (isData_or hzero (hshift b₀ 0 (by decide))) (hshift b₁ 1 (by decide))
  · exact isData_or (isData_or (isData_or hzero (hshift b₀ 0 (by decide))) (hshift b₁ 1 (by decide)))
      (hshift b₂ 2 (by decide))

/-- The bytes of a shot are those that are taken out of its data again. -/
theorem extractByte_shotData {bytes : List (BitVec 8)} (hpos : 0 < bytes.length) (hle : bytes.length ≤ 3) :
    (List.range bytes.length).map (extractByte (spiV2ShotData bytes)) = bytes := by
  have hzero : extractByte 0#32 0 = 0 ∧ extractByte 0#32 1 = 0 ∧ extractByte 0#32 2 = 0 := by decide
  rcases shot_cases hpos hle with ⟨b₀, rfl⟩ | ⟨b₀, b₁, rfl⟩ | ⟨b₀, b₁, b₂, rfl⟩
  · have hdata : spiV2ShotData [b₀] = 0#32 ||| b₀.setWidth 32 <<< 0 := rfl
    simp [hdata, List.range_succ, extractByte_place]
  · have hdata : spiV2ShotData [b₀, b₁] = 0#32 ||| b₀.setWidth 32 <<< 0 ||| b₁.setWidth 32 <<< 8 := rfl
    simp [hdata, List.range_succ, extractByte_or, extractByte_place]
  · have hdata : spiV2ShotData [b₀, b₁, b₂] =
      0#32 ||| b₀.setWidth 32 <<< 0 ||| b₁.setWidth 32 <<< 8 ||| b₂.setWidth 32 <<< 16 := rfl
    simp [hdata, List.range_succ, extractByte_or, extractByte_place]

/-- A read shot takes the bytes in the order in which the chip gave them. -/
theorem extractByte_dataWord (bytes : List (BitVec 8)) (hle : bytes.length ≤ 3) (upper : Word) (i : Nat)
    (hi : i < bytes.length) :
    extractByte (dataWord bytes ||| upper &&& ~~~(SPI_READ_FIFO_EMPTY ||| SPI_MASK_DATA)) (bytes.length - 1 - i) =
      bytes.getD i 0 := by
  have hmask : ∀ i < 3, extractByte (~~~(SPI_READ_FIFO_EMPTY ||| SPI_MASK_DATA)) i = 0 := by decide
  rw [extractByte_or, extractByte_and, hmask _ (by omega)]
  rcases shot_cases (Nat.zero_lt_of_lt hi) hle with ⟨b₀, rfl⟩ | ⟨b₀, b₁, rfl⟩ | ⟨b₀, b₁, b₂, rfl⟩
  · obtain rfl : i = 0 := Nat.lt_one_iff.mp hi
    simp [dataWord, extractByte_place]
  · have hcases : i = 0 ∨ i = 1 := by
      have : i < 2 := hi
      omega
    rcases hcases with rfl | rfl <;>
      simp [dataWord, extractByte_or, extractByte_place]
  · have hcases : i = 0 ∨ i = 1 ∨ i = 2 := by
      have : i < 3 := hi
      omega
    rcases hcases with rfl | rfl | rfl <;>
      simp [dataWord, BitVec.shiftLeft_or_distrib, ← BitVec.shiftLeft_add, extractByte_or, extractByte_place]

theorem isData_dataWord {bytes : List (BitVec 8)} (hpos : 0 < bytes.length) (hle : bytes.length ≤ 3) :
    IsData (dataWord bytes) := by
  have hshift := isData_shift
  rcases shot_cases hpos hle with ⟨b₀, rfl⟩ | ⟨b₀, b₁, rfl⟩ | ⟨b₀, b₁, b₂, rfl⟩
  · have hword : dataWord [b₀] = b₀.setWidth 32 <<< (8 * 0) := by simp [dataWord]
    rw [hword]
    exact hshift b₀ 0 (by decide)
  · have hword : dataWord [b₀, b₁] = b₀.setWidth 32 <<< (8 * 1) ||| b₁.setWidth 32 <<< (8 * 0) := by simp [dataWord]
    rw [hword]
    exact isData_or (hshift b₀ 1 (by decide)) (hshift b₁ 0 (by decide))
  · have hword : dataWord [b₀, b₁, b₂] =
        b₀.setWidth 32 <<< (8 * 2) ||| b₁.setWidth 32 <<< (8 * 1) ||| b₂.setWidth 32 <<< (8 * 0) := by
      simp [dataWord, BitVec.shiftLeft_or_distrib, ← BitVec.shiftLeft_add]
    rw [hword]
    exact isData_or (isData_or (hshift b₀ 2 (by decide)) (hshift b₁ 1 (by decide))) (hshift b₂ 0 (by decide))

/-- A data word is told from an empty read FIFO. -/
theorem dataWord_hasData {bytes : List (BitVec 8)} (hpos : 0 < bytes.length) (hle : bytes.length ≤ 3) (upper : Word) :
    hasData (dataWord bytes ||| upper &&& ~~~(SPI_READ_FIFO_EMPTY ||| SPI_MASK_DATA)) = true := by
  have hbytes : dataWord bytes &&& SPI_READ_FIFO_EMPTY = 0 := (isData_dataWord hpos hle).and (by decide)
  have hupper : upper &&& ~~~(SPI_READ_FIFO_EMPTY ||| SPI_MASK_DATA) &&& SPI_READ_FIFO_EMPTY = 0 := by
    have hmask : ~~~(SPI_READ_FIFO_EMPTY ||| SPI_MASK_DATA) &&& SPI_READ_FIFO_EMPTY = 0#32 := by decide
    rw [BitVec.and_assoc, hmask]
    exact BitVec.and_zero
  rw [hasData, BitVec.and_or_distrib_right, hbytes, hupper]
  decide

/-- A shot of one, two or three bytes has a command of its own. -/
theorem describe_command (currentBurstFlags : BitVec 8) {numBytes : Nat} (hpos : 0 < numBytes) (hle : numBytes ≤ 3) :
    spiV2Describe (spiV2Command (SPI_WRITE ||| SPI_CHIPSELECT_ON ||| SPI_ACCESS_VALID_ON) currentBurstFlags numBytes) =
        ⟨false, false, true, numBytes, quadMode currentBurstFlags⟩ ∧
      spiV2Describe (spiV2Command (SPI_READ ||| SPI_CHIPSELECT_ON ||| SPI_ACCESS_VALID_ON) currentBurstFlags numBytes) =
        ⟨false, true, true, numBytes, quadMode currentBurstFlags⟩ := by
  have hcases : numBytes = 1 ∨ numBytes = 2 ∨ numBytes = 3 := by omega
  unfold spiV2Command quadMode
  by_cases hquad : currentBurstFlags &&& SPI_BURST_FLAG_QUAD_MODE ≠ 0
  · simp only [hquad, not_false_eq_true, decide_true, ne_eq]
    rcases hcases with rfl | rfl | rfl <;> decide
  · simp only [hquad, decide_false]
    rcases hcases with rfl | rfl | rfl <;> decide

theorem extractByte_command (currentBurstFlags : BitVec 8) {numBytes : Nat} (hpos : 0 < numBytes)
    (hle : numBytes ≤ 3) : ∀ i < 3,
    extractByte (spiV2Command (SPI_WRITE ||| SPI_CHIPSELECT_ON ||| SPI_ACCESS_VALID_ON) currentBurstFlags numBytes) i =
      0 := by
  have hcases : numBytes = 1 ∨ numBytes = 2 ∨ numBytes = 3 := by omega
  unfold spiV2Command
  by_cases hquad : currentBurstFlags &&& SPI_BURST_FLAG_QUAD_MODE ≠ 0
  · simp only [if_pos hquad]
    rcases hcases with rfl | rfl | rfl <;> decide
  · simp only [if_neg hquad]
    rcases hcases with rfl | rfl | rfl <;> decide

theorem isData_device (selectedDevice : Word) : IsData (selectedDevice &&& SPI_MASK_SELECT_DEVICE) := by
  have hmask : SPI_MASK_SELECT_DEVICE &&& ~~~(SPI_MASK_DATA ||| SPI_MASK_SELECT_DEVICE) = 0#32 := by decide
  rw [IsData, BitVec.and_assoc, hmask]
  exact BitVec.and_zero

theorem extractByte_device (selectedDevice : Word) : ∀ i < 3,
    extractByte (selectedDevice &&& SPI_MASK_SELECT_DEVICE) i = 0 := by
  have hmask : ∀ i < 3, extractByte SPI_MASK_SELECT_DEVICE i = 0#8 := by decide
  intro i hi
  rw [extractByte_and, hmask i hi]
  exact BitVec.and_zero

/-! ### What the device does for a function of the driver -/

theorem line_write (ctrl : SpiState) (value : Word) :
    device.line (spiV2WriteCtrlRegister self ctrl value).written =
      device.carryOut (device.line ctrl.written) (value ||| self.selectedDevice &&& SPI_MASK_SELECT_DEVICE) := by
  rw [SpiV2Device.line, spiV2WriteCtrlRegister, List.foldl_append]
  rfl

theorem line_chipselect (ctrl : SpiState) (status : SpiCsStatus) :
    device.line (spiV2SetChipselect self ctrl status).written =
      { device.line ctrl.written with
        bus := if status = .off then (device.line ctrl.written).bus.release
          else (device.line ctrl.written).bus.select } := by
  rw [spiV2SetChipselect, line_write]
  have hdescribe := fun cmd => @describe_or cmd _ (isData_device self.selectedDevice)
  have hon : spiV2Describe (SPI_ACCESS_VALID_OFF ||| SPI_CHIPSELECT_ON) = ⟨false, false, false, 1, false⟩ := by decide
  have hoff : spiV2Describe (SPI_ACCESS_VALID_OFF ||| SPI_CHIPSELECT_OFF) = ⟨true, false, false, 1, false⟩ := by decide
  cases status with
  | on => simp only [SpiV2Device.carryOut, hdescribe, hon, reduceCtorEq, if_false, Bool.false_eq_true]
  | off => simp only [SpiV2Device.carryOut, hdescribe, hoff, if_true, Bool.false_eq_true, if_false]

/-- The bytes of a write shot, as the device takes them out of its command. -/
theorem extractByte_writeShot (currentBurstFlags : BitVec 8) {bytes : List (BitVec 8)} (hpos : 0 < bytes.length)
    (hle : bytes.length ≤ 3) (selectedDevice : Word) (quad : Bool) :
    ((List.range bytes.length).map fun i => SpiTransfer.mk quad (some (extractByte (spiV2Command
        (SPI_WRITE ||| SPI_CHIPSELECT_ON ||| SPI_ACCESS_VALID_ON) currentBurstFlags bytes.length |||
        (spiV2ShotData bytes ||| selectedDevice &&& SPI_MASK_SELECT_DEVICE)) i))) =
      bytes.map fun byte => ⟨quad, some byte⟩ := by
  have hextract : ∀ i ∈ List.range bytes.length, extractByte (spiV2Command
      (SPI_WRITE ||| SPI_CHIPSELECT_ON ||| SPI_ACCESS_VALID_ON) currentBurstFlags bytes.length |||
      (spiV2ShotData bytes ||| selectedDevice &&& SPI_MASK_SELECT_DEVICE)) i =
        extractByte (spiV2ShotData bytes) i := by
    intro i hi
    have hlt : i < 3 := Nat.lt_of_lt_of_le (List.mem_range.mp hi) hle
    rw [extractByte_or, extractByte_or, extractByte_command _ hpos hle i hlt, extractByte_device _ i hlt]
    simp
  have hshot := congrArg (List.map fun byte => SpiTransfer.mk quad (some byte)) (extractByte_shotData hpos hle)
  rw [List.map_map] at hshot
  rw [← hshot]
  exact List.map_congr_left fun i hi => by rw [hextract i hi, Function.comp_apply]

theorem line_writeShot (device : SpiV2Device) (self : SpiV2Controller) (ctrl : SpiState) (currentBurstFlags : BitVec 8) {bytes : List (BitVec 8)}
    (hpos : 0 < bytes.length) (hle : bytes.length ≤ 3) :
    device.line (spiV2WriteShot self ctrl currentBurstFlags bytes).written =
      { device.line ctrl.written with
        bus := (device.line ctrl.written).bus.select.shift (bytes.map fun byte =>
          ⟨quadMode currentBurstFlags, some byte⟩) } := by
  have hdata : IsData (spiV2ShotData bytes ||| self.selectedDevice &&& SPI_MASK_SELECT_DEVICE) :=
    isData_or (spiV2ShotData_isData hpos hle) (isData_device _)
  rw [spiV2WriteShot]
  dsimp only
  rw [line_write, BitVec.or_assoc, SpiV2Device.carryOut, describe_or hdata,
    (describe_command currentBurstFlags hpos hle).1]
  dsimp only
  rw [extractByte_writeShot currentBurstFlags hpos hle]
  simp only [Bool.false_eq_true, if_false, if_true]

theorem line_requestRead (device : SpiV2Device) (self : SpiV2Controller) (ctrl : SpiState) (currentBurstFlags : BitVec 8) {numBytes : Nat} (hpos : 0 < numBytes)
    (hle : numBytes ≤ 3) :
    device.line (spiV2RequestRead self ctrl currentBurstFlags numBytes).written =
      ⟨(device.line ctrl.written).bus.select.shift (List.replicate numBytes ⟨quadMode currentBurstFlags, none⟩),
        (device.line ctrl.written).pushed ++
          [device.dataWord (device.line ctrl.written).bus.select (quadMode currentBurstFlags) numBytes
            (device.line ctrl.written).pushed.length]⟩ := by
  rw [spiV2RequestRead, line_write, SpiV2Device.carryOut, describe_or (isData_device _),
    (describe_command currentBurstFlags hpos hle).2]
  simp only [Bool.false_eq_true, if_false, if_true]

/-! ### Reads -/

theorem readDataWhenValid_first {reads : Nat → Word} {fuel n m : Nat} (hle : n ≤ m) (hfuel : m < n + fuel)
    (hempty : ∀ i, n ≤ i → i < m → hasData (reads i) = false) (hdata : hasData (reads m) = true) :
    spiV2ReadDataWhenValid reads fuel n = some (reads m, m + 1) := by
  induction fuel generalizing n with
  | zero => omega
  | succ fuel ih =>
    rw [spiV2ReadDataWhenValid]
    rcases Nat.eq_or_lt_of_le hle with rfl | hlt
    · have hno : ¬reads n &&& SPI_READ_FIFO_EMPTY = SPI_READ_FIFO_EMPTY := of_decide_eq_true hdata
      rw [if_neg hno]
    · have hyes : reads n &&& SPI_READ_FIFO_EMPTY = SPI_READ_FIFO_EMPTY :=
        not_not.mp (of_decide_eq_false (hempty n (Nat.le_refl n) hlt))
      rw [if_pos hyes]
      exact ih hlt (by omega) fun i hi hlt => hempty i (by omega) hlt

/-- A wait ends with the first read that has the status. -/
theorem waitForCtrlStatus_first {reads : Nat → Word} {mask desired : Word} {fuel n m : Nat} (hle : n ≤ m)
    (hfuel : m < n + fuel) (hthere : ∀ i, n ≤ i → i ≤ m → reads i ≠ UINT32_MAX)
    (hbefore : ∀ i, n ≤ i → i < m → reads i &&& mask ≠ desired) (hm : reads m &&& mask = desired) :
    spiV2WaitForCtrlStatus reads mask desired fuel n = some (STATUS_OK, m + 1) := by
  induction fuel generalizing n with
  | zero => omega
  | succ fuel ih =>
    rw [spiV2WaitForCtrlStatus]
    rcases Nat.eq_or_lt_of_le hle with rfl | hlt
    · rw [if_neg fun h => h.2 hm, if_pos (hthere n (Nat.le_refl n) (Nat.le_refl n))]
    · rw [if_pos ⟨hthere n (Nat.le_refl n) hle, hbefore n (Nat.le_refl n) hlt⟩]
      exact ih hlt (by omega) (fun i hi hi' => hthere i (by omega) hi') fun i hi hi' => hbefore i (by omega) hi'

theorem popped_done {pushed start n : Nat} (device : SpiV2Device) : device.popped pushed pushed start n = pushed := by
  unfold SpiV2Device.popped
  omega

/-- As long as no data is ready none is taken out. -/
theorem popped_waiting {pushed popped start n : Nat} (hle : popped ≤ pushed)
    (hnot : ∀ i, start ≤ i → i < n → device.ready i = false) : device.popped pushed popped start n = popped := by
  have hcount : (List.range' start (n - start)).countP device.ready = 0 := by
    rw [List.countP_eq_zero]
    intro i hi
    obtain ⟨hstart, hlt⟩ := List.mem_range'_1.mp hi
    rw [hnot i hstart (by omega)]
    exact Bool.false_ne_true
  rw [SpiV2Device.popped, hcount]
  omega

theorem popped_taken {pushed popped start n : Nat} (hlt : popped < pushed) (hstart : start ≤ n)
    (hnot : ∀ i, start ≤ i → i < n → device.ready i = false) (hready : device.ready n = true) :
    device.popped pushed popped start (n + 1) = popped + 1 := by
  have hrange : List.range' start (n + 1 - start) = List.range' start (n - start) ++ [n] := by
    rw [Nat.succ_sub hstart, List.range'_concat]
    congr 2
    omega
  have hcount : (List.range' start (n - start)).countP device.ready = 0 := by
    rw [List.countP_eq_zero]
    intro i hi
    obtain ⟨hi, hi'⟩ := List.mem_range'_1.mp hi
    rw [hnot i hi (by omega)]
    exact Bool.false_ne_true
  rw [SpiV2Device.popped, hrange, List.countP_append, hcount, List.countP_singleton, if_pos hready]
  omega

theorem exists_first (P : Nat → Prop) [DecidablePred P] {start delay : Nat} (h : ∃ m < delay, P (start + m)) :
    ∃ n, start ≤ n ∧ n < start + delay ∧ P n ∧ ∀ i, start ≤ i → i < n → ¬P i := by
  obtain ⟨m, hm, hP⟩ := h
  have hex : ∃ m, P (start + m) := ⟨m, hP⟩
  have hmin : Nat.find hex ≤ m := Nat.find_min' hex hP
  refine ⟨start + Nat.find hex, by omega, by omega, Nat.find_spec hex, fun i hi hlt => ?_⟩
  have hno := Nat.find_min hex (show i - start < Nat.find hex by omega)
  rwa [show start + (i - start) = i by omega] at hno

/-- The first read for which there is data. -/
theorem exists_first_ready (device : SpiV2Device) (start : Nat) :
    ∃ n, start ≤ n ∧ n < start + device.delay ∧ device.ready n = true ∧
      ∀ i, start ≤ i → i < n → device.ready i = false := by
  obtain ⟨n, hstart, hlt, hready, hnot⟩ := exists_first (fun n => device.ready n = true) (device.gives start)
  exact ⟨n, hstart, hlt, hready, fun i hi hin => Bool.eq_false_iff.mpr (hnot i hi hin)⟩

theorem hasData_status (device : SpiV2Device) (n : Nat) : hasData (device.status n) = false :=
  decide_eq_false (not_not.mpr (device.status_empty n))

/-- A read shot gets the oldest of the data words that are still there. -/
theorem reads_oldest {word : Word}
    (hword : (device.line s.ctrl.written).pushed[s.popped]? = some word) (hdata : hasData word = true) :
    ∃ n, spiV2ReadDataWhenValid (device.reads s) device.delay s.ctrl.reads = some (word, n) ∧
      device.popped (device.line s.ctrl.written).pushed.length s.popped s.ctrl.reads n = s.popped + 1 := by
  obtain ⟨hlt, -⟩ := List.getElem?_eq_some_iff.mp hword
  obtain ⟨n, hstart, hfuel, hready, hnot⟩ := exists_first_ready device s.ctrl.reads
  have hread : device.reads s n = word := by
    rw [SpiV2Device.reads]
    rw [if_pos hready, popped_waiting (Nat.le_of_lt hlt) hnot, List.getD_eq_getElem?_getD, hword]
    rfl
  have hempty : ∀ i, s.ctrl.reads ≤ i → i < n → hasData (device.reads s i) = false := by
    intro i hi hin
    rw [SpiV2Device.reads]
    rw [hnot i hi hin, if_neg Bool.false_ne_true]
    exact hasData_status device i
  refine ⟨n + 1, ?_, popped_taken hlt hstart hnot hready⟩
  rw [readDataWhenValid_first hstart hfuel hempty (by rw [hread]; exact hdata), hread]

/-- When all data is taken out the register shows the status. -/
theorem reads_done (h : s.popped = (device.line s.ctrl.written).pushed.length) (n : Nat) :
    device.reads s n = device.status n := by
  rw [SpiV2Device.reads]
  rw [h, popped_done, List.getD_eq_getElem?_getD, List.getElem?_eq_none (Nat.le_refl _), Option.getD_none, ite_self]

theorem waits_drained (h : s.popped = (device.line s.ctrl.written).pushed.length) :
    ∃ n, spiV2WaitForWriteFifoEmpty (device.reads s) device.delay s.ctrl.reads = some (STATUS_OK, n) := by
  have hreads : device.reads s = device.status := funext (reads_done h)
  obtain ⟨n, hstart, hfuel, hdrained, hnot⟩ := exists_first
    (fun n => device.status n &&& SPI_MASK_WRITE_FIFO = SPI_WRITE_FIFO_EMPTY) (device.drains s.ctrl.reads)
  rw [hreads]
  exact ⟨n + 1, waitForCtrlStatus_first hstart hfuel (fun i _ _ => device.status_there i) hnot hdrained⟩

/-! ### Bursts -/

/-- The chip has taken this, and all data is taken out of the read FIFO. -/
structure SpiV2Shows (device : SpiV2Device) (s : SpiV2State) (bus : Bus SpiTransfer) : Prop where
  bus : (device.line s.ctrl.written).bus = bus
  done : s.popped = (device.line s.ctrl.written).pushed.length

/-- A function that reads nothing takes nothing out. -/
theorem afterReads_silent {ctrl : SpiState} (hle : s.popped ≤ (device.line s.ctrl.written).pushed.length)
    (h : ctrl.reads = s.ctrl.reads) : device.afterReads s ctrl = ⟨ctrl, s.popped⟩ := by
  rw [SpiV2Device.afterReads, h, popped_waiting hle fun i hi hlt => by omega]

theorem deviceStep_silent (self : SpiV2Controller) (call : BurstCall) {ctrl : SpiState}
    (hle : s.popped ≤ (device.line s.ctrl.written).pushed.length)
    (hstep : spiV2Step self (device.reads s) device.delay s.ctrl call = some (ctrl, 0))
    (h : ctrl.reads = s.ctrl.reads) : spiV2DeviceStep device self s call = some (⟨ctrl, s.popped⟩, STATUS_OK) := by
  rw [spiV2DeviceStep, hstep]
  exact congrArg (fun s => some (s, STATUS_OK)) (afterReads_silent hle h)

theorem spiV2_pre (h : SpiV2Shows device s bus) {isFirst isLast : Bool} {E Q : SpiV2State → Prop}
    (hQ : ∀ s', SpiV2Shows device s' bus.select → Q s') :
    CallAnswers (spiV2DeviceStep device self) s ⟨.handlePreBurstFlags flags, flags.setWidth 8, isFirst, isLast⟩ E Q := by
  refine CallAnswers.of_ok (deviceStep_silent self _ (Nat.le_of_eq h.done) rfl rfl) (hQ _ ⟨?_, ?_⟩)
  · dsimp only
    rw [line_chipselect, if_neg (by decide), h.bus]
  · dsimp only
    rw [line_chipselect, h.done]

theorem spiV2_post (self : SpiV2Controller) (flags : Word) (h : SpiV2Shows device s bus) (currentBurstFlags : BitVec 8)
    (isFirst isLast : Bool) :
    ∃ s', spiV2DeviceStep device self s ⟨.handlePostBurstFlags flags, currentBurstFlags, isFirst, isLast⟩ =
        some (s', 0) ∧ SpiV2Shows device s' (leaveBus flags bus) ∧ s'.ctrl.buffer = s.ctrl.buffer := by
  by_cases hleave : flags &&& SPI_POST_BURST_FLAG_LEAVE_CS_ASSERTED = 0
  · have hstep : spiV2Step self (device.reads s) device.delay s.ctrl
        ⟨.handlePostBurstFlags flags, currentBurstFlags, isFirst, isLast⟩ =
          some (spiV2SetChipselect self s.ctrl .off, 0) := by
      simp only [spiV2Step, if_pos hleave]
    refine ⟨_, deviceStep_silent self _ (Nat.le_of_eq h.done) hstep rfl, ⟨?_, ?_⟩, rfl⟩
    · dsimp only
      rw [line_chipselect, if_pos rfl, h.bus, leaveBus, if_pos hleave]
    · dsimp only
      rw [line_chipselect, h.done]
  · have hstep : spiV2Step self (device.reads s) device.delay s.ctrl
        ⟨.handlePostBurstFlags flags, currentBurstFlags, isFirst, isLast⟩ = some (s.ctrl, 0) := by
      simp only [spiV2Step, if_neg hleave]
    refine ⟨_, deviceStep_silent self _ (Nat.le_of_eq h.done) hstep rfl, ?_, rfl⟩
    rw [leaveBus, if_neg hleave]
    exact ⟨h.bus, h.done⟩

/-- What is left of a write burst goes with what the device was told of it. -/
def SpiV2Writing (device : SpiV2Device) (bus : Bus SpiTransfer) (quad : Bool) (buf bytes : List (BitVec 8))
    (s : SpiV2State) : Prop :=
  ∃ sent, sent ++ bytes = buf ∧ SpiV2Shows device s (bus.select.shift (sent.map fun byte => ⟨quad, some byte⟩))

theorem spiV2_writeRule (bus : Bus SpiTransfer) (buf : List (BitVec 8)) :
    WriteRule (spiV2DeviceStep device self) spiV2Base flags buf.length
      (SpiV2Writing device bus (quadMode (flags.setWidth 8)) buf) fun _ => False where
  shot := by
    rintro bytes s hpos ⟨sent, hsent, hs⟩
    have hlength : 0 < (bytes.take spiV2Base.maxBytesPerWrite.val).length ∧
        (bytes.take spiV2Base.maxBytesPerWrite.val).length ≤ 3 := by
      rw [List.length_take, show spiV2Base.maxBytesPerWrite.val = 3 from rfl]
      omega
    have hline := line_writeShot device self s.ctrl (flags.setWidth 8) hlength.1 hlength.2
    refine CallAnswers.of_ok (deviceStep_silent self _ (Nat.le_of_eq hs.done) rfl rfl)
      ⟨sent ++ bytes.take spiV2Base.maxBytesPerWrite.val, ?_, ?_, ?_⟩
    · rw [List.append_assoc, List.take_append_drop]
      exact hsent
    · refine (congrArg SpiV2Line.bus hline).trans ?_
      dsimp only
      rw [hs.bus, Bus.select_of_isSome (by rw [Bus.shift_isSome]; rfl), Bus.shift_shift, List.map_append]
    · exact hs.done.trans (congrArg (fun line => line.pushed.length) hline).symm
  wait := by
    rintro bytes s isFirst isLast ⟨sent, hsent, hs⟩
    obtain ⟨n, hwait⟩ := waits_drained hs.done
    have hstep : spiV2Step self (device.reads s) device.delay s.ctrl
        ⟨.waitForWriteQueueEmpty, flags.setWidth 8, isFirst, isLast⟩ =
          some ({ s.ctrl with reads := n }, STATUS_OK) := by
      simp only [spiV2Step, hwait, Option.map_some]
    refine CallAnswers.of_ok (r := device.afterReads s { s.ctrl with reads := n }) ?_ ⟨sent, hsent, hs.bus, ?_⟩
    · rw [spiV2DeviceStep, hstep]
      rfl
    · rw [SpiV2Device.afterReads, hs.done, popped_done]

theorem spiV2_write (self : SpiV2Controller) (st : BurstState) (flags : Word) (h : SpiV2Shows device s bus)
    (buf : List (BitVec 8)) :
    BurstLeads (machineBurst (spiV2DeviceStep device self) s fun hooks => ctrlWriteBurst spiV2Base hooks st flags buf)
      (fun _ => False) fun s' => SpiV2Shows device s'
        (leaveBus flags (bus.select.shift (buf.map fun byte => ⟨quadMode (flags.setWidth 8), some byte⟩))) := by
  refine ctrlWriteBurst_leads (spiV2_writeRule bus buf) ?_ ?_ fun _ hfalse => hfalse.elim
  · refine spiV2_pre h fun s' hs' => ⟨[], rfl, ?_⟩
    rw [List.map_nil, Bus.shift_nil]
    exact hs'
  · rintro s' isFirst ⟨sent, hsent, hs'⟩
    rw [List.append_nil] at hsent
    rw [← hsent]
    obtain ⟨s'', hstep, hs'', -⟩ := spiV2_post self flags hs' (flags.setWidth 8) isFirst false
    exact ⟨_, hstep, hs''⟩

/-- The data word of the request `i`. -/
def GivesPiece (device : SpiV2Device) (bus : Bus SpiTransfer) (quad : Bool) (size i : Nat) (word : Word) : Prop :=
  hasData word = true ∧ ∀ t < Pieces.length 3 size i,
    extractByte word (Pieces.length 3 size i - 1 - t) = device.byte bus.select quad (3 * i + t)

/-- `k` requests and `j` results, when so many data words were there before. -/
structure SpiV2Reading (device : SpiV2Device) (bus : Bus SpiTransfer) (quad : Bool) (size before k j : Nat)
    (s : SpiV2State) : Prop where
  line : (device.line s.ctrl.written).bus = bus.select.shift (List.replicate (min size (k * 3)) ⟨quad, none⟩)
  pushed : (device.line s.ctrl.written).pushed.length = before + k
  popped : s.popped = before + j
  words : ∀ i < k, ∃ word, (device.line s.ctrl.written).pushed[before + i]? = some word ∧
    GivesPiece device bus quad size i word
  bytes : ∀ i < min size (j * 3), s.ctrl.buffer i = device.byte bus.select quad i

/-- The data word of a request is that of its piece of the buffer. -/
theorem dataWord_givesPiece (device : SpiV2Device) (bus : Bus SpiTransfer) (quad : Bool) {size k : Nat}
    (hk : k * 3 < size) (n : Nat) :
    GivesPiece device bus quad size k (device.dataWord (bus.select.shift (List.replicate (k * 3) ⟨quad, none⟩)) quad
      (Pieces.length 3 size k) n) := by
  have hpos : 0 < Pieces.length 3 size k := Pieces.length_pos (by decide) hk
  have hle : Pieces.length 3 size k ≤ 3 := Pieces.length_le
  have hlength : ((List.range (Pieces.length 3 size k)).map
      (device.byte (bus.select.shift (List.replicate (k * 3) ⟨quad, none⟩)) quad)).length =
        Pieces.length 3 size k := by
    rw [List.length_map, List.length_range]
  constructor
  · exact dataWord_hasData (by rw [hlength]; exact hpos) (by rw [hlength]; exact hle) _
  · intro t ht
    have hbyte := extractByte_dataWord ((List.range (Pieces.length 3 size k)).map
      (device.byte (bus.select.shift (List.replicate (k * 3) ⟨quad, none⟩)) quad)) (by rw [hlength]; exact hle)
      (device.upper n) t (by rw [hlength]; exact ht)
    rw [hlength] at hbyte
    refine hbyte.trans ?_
    rw [List.getD_eq_getElem?_getD, List.getElem?_map, List.getElem?_range ht]
    simp only [Option.map_some, Option.getD_some, SpiV2Device.byte, Bus.shift_shift, List.replicate_append_replicate]
    rw [Nat.mul_comm k 3, Nat.add_assoc]

theorem spiV2_readRule (bus : Bus SpiTransfer) (size before : Nat) :
    ReadRule (spiV2DeviceStep device self) spiV2Base flags size
      (SpiV2Reading device bus (quadMode (flags.setWidth 8)) size before) fun _ => False where
  request := by
    intro k j s isFirst isLast hs hjk _ hk _ _
    have hlt : k * 3 < size := (Pieces.lt_count_iff (by decide)).mp hk
    have hmin : min size (k * 3) = k * 3 := by omega
    have hline := line_requestRead device self s.ctrl (flags.setWidth 8)
      (Pieces.length_pos (by decide) hlt) Pieces.length_le
    have hbus := hs.line
    rw [hmin] at hbus
    rw [hbus, Bus.select_of_isSome (by rw [Bus.shift_isSome]; rfl), Bus.shift_shift,
      List.replicate_append_replicate] at hline
    refine CallAnswers.of_ok (deviceStep_silent self _ (by rw [hs.pushed, hs.popped]; omega) rfl rfl) ⟨?_, ?_, ?_, ?_, ?_⟩
    · refine (congrArg SpiV2Line.bus hline).trans ?_
      rw [← Pieces.min_add_length, hmin]
    · refine (congrArg (fun line => line.pushed.length) hline).trans ?_
      dsimp only
      rw [List.length_append, hs.pushed]
      rfl
    · exact hs.popped
    · intro i hi
      have hpushed := congrArg (fun line => line.pushed[before + i]?) hline
      dsimp only at hpushed
      rcases Nat.lt_succ_iff_lt_or_eq.mp hi with hik | rfl
      · obtain ⟨word, hword, hgives⟩ := hs.words i hik
        refine ⟨word, hpushed.trans ?_, hgives⟩
        rw [List.getElem?_append_left (by rw [hs.pushed]; omega)]
        exact hword
      · refine ⟨_, hpushed.trans ?_, dataWord_givesPiece device bus (quadMode (flags.setWidth 8)) hlt
          (device.line s.ctrl.written).pushed.length⟩
        rw [List.getElem?_append_right (by rw [hs.pushed]), hs.pushed, Nat.sub_self]
        rfl
    · exact hs.bytes
  result := by
    intro k j s isFirst isLast hs hjk hk _ _
    have hlt : j * 3 < size := (Pieces.lt_count_iff (by decide)).mp (Nat.lt_of_lt_of_le hjk hk)
    have hmin : min size (j * 3) = j * 3 := by omega
    obtain ⟨word, hword, hdata, hextract⟩ := hs.words j hjk
    rw [← hs.popped] at hword
    obtain ⟨n, hread, hpopped⟩ := reads_oldest hword hdata
    obtain ⟨ctrl, hctrl⟩ : ∃ ctrl : SpiState, ctrl = { s.ctrl with
        reads := n
        buffer := fun i => if j * 3 ≤ i ∧ i < j * 3 + Pieces.length 3 size j then
          extractByte word (Pieces.length 3 size j - 1 - (i - j * 3)) else s.ctrl.buffer i } := ⟨_, rfl⟩
    have hshot : spiV2Step self (device.reads s) device.delay s.ctrl
        ⟨.readShot (j * 3) (Pieces.length 3 size j), flags.setWidth 8, isFirst, isLast⟩ = some (ctrl, 0) := by
      simp only [spiV2Step, spiV2ReadShot, hread, Option.map_some, hctrl]
    have hstep : spiV2DeviceStep device self s
        ⟨.readShot (j * 3) (Pieces.length 3 size j), flags.setWidth 8, isFirst, isLast⟩ =
          some (⟨ctrl, s.popped + 1⟩, STATUS_OK) := by
      have hreads : ctrl.reads = n := by rw [hctrl]
      rw [spiV2DeviceStep, hshot, ← hpopped, ← hreads]
      rfl
    have hwritten : ctrl.written = s.ctrl.written := by rw [hctrl]
    refine CallAnswers.of_ok hstep ⟨?_, ?_, ?_, ?_, ?_⟩
    · rw [hwritten]
      exact hs.line
    · rw [hwritten]
      exact hs.pushed
    · rw [hs.popped, Nat.add_assoc]
    · rw [hwritten]
      exact hs.words
    · intro i hi
      rw [← Pieces.min_add_length, hmin] at hi
      dsimp only
      rw [hctrl]
      dsimp only
      by_cases hnew : j * 3 ≤ i
      · rw [if_pos ⟨hnew, hi⟩, hextract _ (by omega), show 3 * j + (i - j * 3) = i by omega]
      · rw [if_neg fun h => hnew h.1]
        exact hs.bytes i (by omega)

theorem spiV2_read (self : SpiV2Controller) (st : BurstState) (flags : Word) (h : SpiV2Shows device s bus)
    (size : Nat) :
    BurstLeads (machineBurst (spiV2DeviceStep device self) s fun hooks => ctrlReadBurst spiV2Base hooks st flags size)
      (fun _ => False) fun s' =>
        SpiV2Shows device s' (leaveBus flags (bus.select.shift (List.replicate size ⟨quadMode (flags.setWidth 8), none⟩))) ∧
          (List.range size).map s'.ctrl.buffer =
            (List.range size).map (device.byte bus.select (quadMode (flags.setWidth 8))) := by
  refine ctrlReadBurst_leads (spiV2_readRule bus size s.popped) ?_ ?_ fun _ hfalse => hfalse.elim
  · have hpre := deviceStep_silent self ⟨.handlePreBurstFlags flags, flags.setWidth 8,
      st.isFirstShot, st.isLastShot⟩ (Nat.le_of_eq h.done) rfl rfl
    refine CallAnswers.of_ok hpre ⟨?_, ?_, rfl, fun i hi => absurd hi (Nat.not_lt_zero i), fun i hi => ?_⟩
    · dsimp only
      rw [line_chipselect, if_neg (by decide), h.bus, Nat.zero_mul, Nat.min_zero, List.replicate_zero, Bus.shift_nil]
    · dsimp only
      rw [line_chipselect, ← h.done]
      rfl
    · rw [Nat.zero_mul, Nat.min_zero] at hi
      exact absurd hi (Nat.not_lt_zero i)
  · intro s' isFirst hs'
    have hge : size ≤ Pieces.count spiV2Base.maxBytesPerRead.val size * 3 :=
      Pieces.count_mul_ge spiV2Base.maxBytesPerRead.pos
    have hmin : min size (Pieces.count spiV2Base.maxBytesPerRead.val size * 3) = size := Nat.min_eq_left hge
    have hbus := hs'.line
    have hbytes := hs'.bytes
    rw [hmin] at hbus hbytes
    have hshows : SpiV2Shows device s' (bus.select.shift (List.replicate size ⟨quadMode (flags.setWidth 8), none⟩)) :=
      ⟨hbus, by rw [hs'.popped, hs'.pushed]⟩
    obtain ⟨s'', hstep, hs'', hbuffer⟩ := spiV2_post self flags hshows (flags.setWidth 8) isFirst false
    refine ⟨_, hstep, hs'', ?_⟩
    rw [hbuffer]
    exact List.map_congr_left fun i hi => hbytes i (List.mem_range.mp hi)

theorem spiV2_burst (self : SpiV2Controller) (st : BurstState) (h : SpiV2Shows device s bus) (burst : Burst) :
    ∃ st' s', serveBurst (spiV2DeviceStep device self) spiV2Base (fun s => s.ctrl.buffer) st s burst =
        some ((spiV2Exec device bus burst).1, st', s') ∧ SpiV2Shows device s' (spiV2Exec device bus burst).2 := by
  cases burst with
  | write flags bytes =>
    obtain ⟨ret, st', s', hserve, ⟨rfl, hs'⟩ | ⟨-, hfalse⟩⟩ :=
      serveBurst_write (fun s => s.ctrl.buffer) (spiV2_write self st flags h bytes)
    · exact ⟨st', s', hserve, hs'⟩
    · exact hfalse.elim
  | read flags size =>
    obtain ⟨ret, st', s', hserve, ⟨rfl, hs', hdata⟩ | ⟨-, hfalse⟩⟩ :=
      serveBurst_read (fun s => s.ctrl.buffer) (spiV2_read self st flags h size)
    · rw [if_pos rfl, hdata] at hserve
      exact ⟨st', s', hserve, hs'⟩
    · exact hfalse.elim
  | stateChange flags =>
    obtain ⟨s', hstep, hs', -⟩ := spiV2_post self flags h st.currentBurstFlags st.isFirstShot st.isLastShot
    obtain ⟨st', hserve⟩ := serveBurst_stateChange spiV2Base (fun s => s.ctrl.buffer) hstep
    exact ⟨st', s', hserve, hs'⟩

/-! ### From the start on -/

/-- The dummy command gives one data word and does not reach the chip. -/
theorem line_init (device : SpiV2Device) (self : SpiV2Controller) (buffer : Nat → BitVec 8) :
    device.line (spiV2WriteCtrlRegister self ⟨0, [], buffer⟩
        (SPI_CHIPSELECT_OFF ||| SPI_ACCESS_VALID_ON ||| SPI_READ)).written =
      ⟨Bus.idle, [device.dataWord Bus.idle false 1 0]⟩ := by
  have hdescribe : spiV2Describe (SPI_CHIPSELECT_OFF ||| SPI_ACCESS_VALID_ON ||| SPI_READ) =
      ⟨true, true, true, 1, false⟩ := by decide
  rw [line_write, SpiV2Device.carryOut, describe_or (isData_device _), hdescribe]
  rfl

/-- The data of the dummy command is thrown away if it is there at the first look. Otherwise it stays. -/
theorem spiV2aControllerInit_spec (device : SpiV2Device) (self : SpiV2Controller) (buffer : Nat → BitVec 8) :
    ∃ s, spiV2aControllerInit device self 2 buffer = some (STATUS_OK, s) ∧
      device.line s.ctrl.written = ⟨Bus.idle, [device.dataWord Bus.idle false 1 0]⟩ ∧
      s.popped = if device.ready 0 then 1 else 0 := by
  have hline := line_init device self buffer
  have hpushed : (device.line (spiV2WriteCtrlRegister self ⟨0, [], buffer⟩
      (SPI_CHIPSELECT_OFF ||| SPI_ACCESS_VALID_ON ||| SPI_READ)).written).pushed =
        [device.dataWord Bus.idle false 1 0] := by rw [hline]
  have hdata : hasData (device.dataWord Bus.idle false 1 0) = true := dataWord_hasData (by simp) (by simp) _
  have hword : ¬device.dataWord Bus.idle false 1 0 &&& SPI_READ_FIFO_EMPTY = SPI_READ_FIFO_EMPTY :=
    of_decide_eq_true hdata
  have hgone : device.dataWord Bus.idle false 1 0 ≠ UINT32_MAX := by
    intro heq
    rw [heq] at hdata
    exact absurd hdata (by decide)
  unfold spiV2aControllerInit
  generalize hctrl : spiV2WriteCtrlRegister self ⟨0, [], buffer⟩
    (SPI_CHIPSELECT_OFF ||| SPI_ACCESS_VALID_ON ||| SPI_READ) = ctrl at hline hpushed ⊢
  have hstart : ctrl.reads = 0 := by rw [← hctrl]; rfl
  dsimp only
  cases hready : device.ready 0 with
  | true =>
    have hfirst : device.reads ⟨ctrl, 0⟩ 0 = device.dataWord Bus.idle false 1 0 := by
      simp only [SpiV2Device.reads, hready, if_true, hpushed, hstart]
      rfl
    have hpopped : device.popped 1 0 0 1 = 1 := popped_taken (by decide) (Nat.le_refl 0) (fun i _ hi => by omega) hready
    have hsecond : device.reads ⟨ctrl, 0⟩ 1 = device.status 1 := by
      simp only [SpiV2Device.reads, hpushed, hstart, List.length_singleton, hpopped]
      split_ifs <;> rfl
    have hwait : spiV2WaitForReadFifoEmpty (device.reads ⟨ctrl, 0⟩) 2 ctrl.reads = some (STATUS_OK, 2) := by
      rw [hstart]
      refine waitForCtrlStatus_first (m := 1) (by decide) (by decide) ?_ ?_ ?_
      · intro i _ hi
        have hcases : i = 0 ∨ i = 1 := by omega
        rcases hcases with rfl | rfl
        · rw [hfirst]
          exact hgone
        · rw [hsecond]
          exact device.status_there 1
      · intro i _ hi
        obtain rfl : i = 0 := by omega
        rw [hfirst]
        exact hword
      · rw [hsecond]
        exact device.status_empty 1
    refine ⟨_, by rw [hwait]; rfl, hline, ?_⟩
    simp only [SpiV2Device.afterReads, hpushed, hstart, List.length_singleton, SpiV2Device.popped, if_true]
    have hcount : 0 < (List.range' 0 (2 - 0)).countP device.ready :=
      List.countP_pos_iff.mpr ⟨0, by decide, hready⟩
    omega
  | false =>
    have hfirst : device.reads ⟨ctrl, 0⟩ 0 = device.status 0 := by
      simp only [SpiV2Device.reads, hready, Bool.false_eq_true, if_false]
    have hwait : spiV2WaitForReadFifoEmpty (device.reads ⟨ctrl, 0⟩) 2 ctrl.reads = some (STATUS_OK, 1) := by
      rw [hstart]
      refine waitForCtrlStatus_first (m := 0) (Nat.le_refl 0) (by decide) ?_ (fun i _ hi => by omega) ?_
      · intro i _ hi
        obtain rfl : i = 0 := by omega
        rw [hfirst]
        exact device.status_there 0
      · rw [hfirst]
        exact device.status_empty 0
    refine ⟨_, by rw [hwait]; rfl, hline, ?_⟩
    simp only [SpiV2Device.afterReads, hpushed, hstart, Bool.false_eq_true, if_false]
    exact popped_waiting (Nat.zero_le _) fun i _ hi => by
      obtain rfl : i = 0 := by omega
      exact hready

/-- In every run of bursts from the start on, however long the data takes, the chip gets the bytes of the write
bursts and the read bursts get its bytes, if the data of the dummy command was there at the first look. -/
theorem spiV2Serve_refines (device : SpiV2Device) (hready : device.ready 0 = true) (self : SpiV2Controller)
    (bursts : List Burst) (st : BurstState) (buffer : Nat → BitVec 8) :
    ∃ s s', spiV2aControllerInit device self 2 buffer = some (STATUS_OK, s) ∧
      spiV2Serve device self bursts st s = some ((execAll (spiV2Exec device) Bus.idle bursts).1, s') ∧
      (device.line s'.ctrl.written).bus = (execAll (spiV2Exec device) Bus.idle bursts).2 := by
  obtain ⟨s, hinit, hline, hpopped⟩ := spiV2aControllerInit_spec device self buffer
  have hstart : SpiV2Shows device s Bus.idle := by
    constructor
    · rw [hline]
    · rw [hpopped, hline, if_pos hready]
      rfl
  obtain ⟨s', hserve, hs'⟩ := serveAll_refines (R := SpiV2Shows device)
    (fun st s b burst h => spiV2_burst self st h burst) bursts st _ _ hstart
  exact ⟨s, s', hinit, hserve, hs'.bus⟩

/-- A device that has its data at once, with a chip that always gives the same byte. -/
def promptDevice : SpiV2Device where
  answer _ := 0xa5
  ready _ := true
  status _ := SPI_READ_FIFO_EMPTY ||| SPI_WRITE_FIFO_EMPTY
  upper _ := 0
  delay := 1
  status_there _ := by decide
  status_empty _ := by decide
  drains _ := ⟨0, by decide, by decide⟩
  gives _ := ⟨0, by decide, rfl⟩

theorem spiV2Serve_refines_prompt : ∃ s s',
    spiV2aControllerInit promptDevice ⟨0⟩ 2 (fun _ => 0) = some (STATUS_OK, s) ∧
    spiV2Serve promptDevice ⟨0⟩ [.write 0x10 [0x9f], .read 0 5] ⟨0, false, false, []⟩ s =
      some ([⟨STATUS_OK, []⟩, ⟨STATUS_OK, [0xa5, 0xa5, 0xa5, 0xa5, 0xa5]⟩], s') ∧
    (promptDevice.line s'.ctrl.written).bus =
      ⟨none, [⟨false, some 0x9f⟩ :: List.replicate 5 ⟨false, none⟩]⟩ :=
  spiV2Serve_refines promptDevice rfl ⟨0⟩ [.write 0x10 [0x9f], .read 0 5] ⟨0, false, false, []⟩ (fun _ => 0)

end MenableDriver
