import MenableDriver.Controllers.SpiSingle

/-!
# The SPI controller for two chips

`spi_dual_controller.c` drives the lines of two chips with one register, and another register connects them. In
single mode both chips get the same byte, and each of them gives its own bytes of a read burst. In quad mode the
eight data lines take a byte with each clock. Each write is repeated, so that the lines have time to settle.
-/

namespace MenableDriver

set_option autoImplicit false

open Frames (Lines Chip Bus ofBits)

def SPI_REG_MOSI_0 : Word := 0x1#32
def SPI_REG_MISO_0 : Word := 0x2#32
def SPI_REG_WPn_0 : Word := 0x4#32
def SPI_REG_HOLDn_0 : Word := 0x8#32
def SPI_REG_MOSI_1 : Word := 0x10#32
def SPI_REG_MISO_1 : Word := 0x20#32
def SPI_REG_WPn_1 : Word := 0x40#32
def SPI_REG_HOLDn_1 : Word := 0x80#32
def SPI_REG_CLK : Word := 0x100#32
def SPI_REG_RD_WRn : Word := 0x200#32
def SPI_REG_CSn : Word := 0x400#32
def SPI_REG_NAND_CEn : Word := 0x1000#32
def SPI_REG_NAND_WEn : Word := 0x4000#32

def SPI_REG_IDLE : Word :=
  SPI_REG_NAND_CEn ||| SPI_REG_NAND_WEn ||| SPI_REG_CSn ||| SPI_REG_RD_WRn ||| SPI_REG_CLK ||| SPI_REG_HOLDn_1 |||
    SPI_REG_HOLDn_0
def SPI_REG_ACTIVE_SINGLE : Word := SPI_REG_NAND_CEn ||| SPI_REG_NAND_WEn ||| SPI_REG_HOLDn_1 ||| SPI_REG_HOLDn_0
def SPI_REG_ACTIVE_QUAD : Word := SPI_REG_NAND_CEn ||| SPI_REG_NAND_WEn

def SEL_REG_SPI : Word := 0x1#32
def SEL_REG_NONE : Word := 0x3#32

def SPI_BURST_FLAG_DATA_ACCESS : BitVec 8 := 0x2#8

/-- What `spi_dual_controller_init` hands to `controller_base_init`. -/
def spiDualBase : ControllerBase where
  readQueueSize := ⟨1, Nat.one_pos, ShotLimit.one_lt⟩
  maxBytesPerRead := ⟨512, by decide, by decide⟩
  writeQueueSize := ⟨1, Nat.one_pos, ShotLimit.one_lt⟩
  maxBytesPerWrite := ⟨512, by decide, by decide⟩

inductive SpiDualRegister
  | control | flashSelect
deriving DecidableEq

/-- The flag of the controller, what it has written to its registers, and the buffer of a read burst. -/
structure SpiDualState where
  chipSelected : Bool
  written : List (SpiDualRegister × Word)
  buffer : Nat → BitVec 8

/-- The lines of the chips for a value of the register. The controller does not drive the data while it reads. -/
def spiDualLines (value : Word) : Lines (Option (BitVec 8)) :=
  ⟨decide (value &&& SPI_REG_CSn = 0), decide (value &&& SPI_REG_CLK ≠ 0),
    if value &&& SPI_REG_RD_WRn = 0 then some (value.setWidth 8) else none⟩

/-- The chips get what is in the control register only as long as they are connected to it. -/
structure SpiDualBoard where
  select : Word
  chip : Chip (Option (BitVec 8))

def SpiDualBoard.see (board : SpiDualBoard) : SpiDualRegister × Word → SpiDualBoard
  | (.flashSelect, value) => { board with select := value }
  | (.control, value) =>
    if board.select = SEL_REG_SPI then { board with chip := board.chip.see (spiDualLines value) } else board

def spiDualBoard (s : SpiDualState) : SpiDualBoard := s.written.foldl SpiDualBoard.see ⟨SEL_REG_NONE, Chip.idle true⟩

def writeFalshSelectRegister (s : SpiDualState) (value : Word) (ntimes : Nat) : SpiDualState :=
  { s with written := s.written ++ List.replicate ntimes (.flashSelect, value) }

def spiDualWriteCtrlRegister (s : SpiDualState) (value : Word) (ntimes : Nat) : SpiDualState :=
  { s with written := s.written ++ List.replicate ntimes (.control, value) }

def spiDualSetChipselect (s : SpiDualState) (status : SpiCsStatus) : SpiDualState :=
  match status with
  | .on =>
    if s.chipSelected then s
    else
      let s := writeFalshSelectRegister s SEL_REG_SPI 5
      let s := spiDualWriteCtrlRegister s (SPI_REG_ACTIVE_SINGLE ||| SPI_REG_CLK) 10
      { s with chipSelected := true }
  | .off =>
    let s := spiDualWriteCtrlRegister s SPI_REG_IDLE 10
    let s := writeFalshSelectRegister s SEL_REG_NONE 5
    { s with chipSelected := false }

/-- A clock cycle in which the register has these bits set throughout, and the data from its second step on. -/
def spiDualClock (s : SpiDualState) (active data : Word) : SpiDualState :=
  let s := spiDualWriteCtrlRegister s active 5
  let s := spiDualWriteCtrlRegister s (active ||| data) 5
  let s := spiDualWriteCtrlRegister s (active ||| SPI_REG_CLK ||| data) 5
  spiDualWriteCtrlRegister s (active ||| SPI_REG_CLK) 5

def writeChipSingle (s : SpiDualState) (data : BitVec 8) : SpiDualState :=
  let active := SPI_REG_ACTIVE_SINGLE ||| SPI_REG_WPn_1 ||| SPI_REG_WPn_0
  let s := spiDualWriteCtrlRegister s (SPI_REG_ACTIVE_SINGLE ||| SPI_REG_CLK ||| SPI_REG_WPn_1 ||| SPI_REG_WPn_0) 5
  bitMasks.foldl (fun s bit =>
    spiDualClock s active (if data &&& bit = bit then SPI_REG_MOSI_0 ||| SPI_REG_MOSI_1 else 0)) s

/-- Two bytes, the second of which may be none of the buffer. -/
def writeQuadData (s : SpiDualState) (c d : BitVec 8) : SpiDualState :=
  let s := spiDualWriteCtrlRegister s (SPI_REG_ACTIVE_QUAD ||| SPI_REG_CLK) 5
  let s := spiDualClock s SPI_REG_ACTIVE_QUAD (c.setWidth 32)
  spiDualClock s SPI_REG_ACTIVE_QUAD (d.setWidth 32)

/-- The loop over a shot in quad mode; behind a final single byte all lines are high for a clock. -/
def writeQuadLoop (s : SpiDualState) : List (BitVec 8) → SpiDualState
  | [] => s
  | [c] => writeQuadData s c 0xff
  | c :: d :: bytes => writeQuadLoop (writeQuadData s c d) bytes

/-- Data access is for quad mode, and chip access for single mode. -/
def spiDualModeError (currentBurstFlags : BitVec 8) : Bool :=
  if currentBurstFlags &&& SPI_BURST_FLAG_DATA_ACCESS = SPI_BURST_FLAG_DATA_ACCESS then
    currentBurstFlags &&& SPI_BURST_FLAG_QUAD_MODE ≠ SPI_BURST_FLAG_QUAD_MODE
  else currentBurstFlags &&& SPI_BURST_FLAG_QUAD_MODE = SPI_BURST_FLAG_QUAD_MODE

def isDataAccess (currentBurstFlags : BitVec 8) : Bool :=
  decide (currentBurstFlags &&& SPI_BURST_FLAG_DATA_ACCESS = SPI_BURST_FLAG_DATA_ACCESS)

def spiDualWriteShot (s : SpiDualState) (currentBurstFlags : BitVec 8) (bytes : List (BitVec 8)) :
    SpiDualState × Int :=
  if spiDualModeError currentBurstFlags then (s, -1)
  else if isDataAccess currentBurstFlags then (writeQuadLoop s bytes, 0)
  else (bytes.foldl writeChipSingle s, 0)

section Reading
variable (answer : Bus (Option (BitVec 8)) → Word)

def spiDualReadCtrlRegister (s : SpiDualState) : Word := answer (spiDualBoard s).chip.bus

/-- A clock cycle of a read; the value is read while the clock is high. -/
def spiDualReadClock (s : SpiDualState) (active : Word) : Word × SpiDualState :=
  let s := spiDualWriteCtrlRegister s (active ||| SPI_REG_RD_WRn) 10
  let s := spiDualWriteCtrlRegister s (active ||| SPI_REG_RD_WRn ||| SPI_REG_CLK) 5
  (spiDualReadCtrlRegister answer s, s)

/-- One bit from each chip. -/
def readChipBit (r : SpiDualState × BitVec 8 × BitVec 8) (bit : BitVec 8) : SpiDualState × BitVec 8 × BitVec 8 :=
  let (val, s) := spiDualReadClock answer r.1 SPI_REG_ACTIVE_SINGLE
  (s, if val &&& SPI_REG_MISO_0 ≠ 0 then r.2.1 ||| bit else r.2.1,
    if val &&& SPI_REG_MISO_1 ≠ 0 then r.2.2 ||| bit else r.2.2)

/-- Stores one byte or two into the buffer. -/
def storeBytes (s : SpiDualState) (buf length : Nat) (first second : BitVec 8) : SpiDualState :=
  let buffer := Function.update s.buffer buf first
  { s with buffer := if length > 1 then Function.update buffer (buf + 1) second else buffer }

def readChipSingle (s : SpiDualState) (buf length : Nat) : SpiDualState :=
  let s := spiDualWriteCtrlRegister s (SPI_REG_ACTIVE_SINGLE ||| SPI_REG_RD_WRn ||| SPI_REG_CLK) 5
  let (s, first, second) := bitMasks.foldl (readChipBit answer) (s, 0, 0)
  storeBytes s buf length first second

def readQuadData (s : SpiDualState) (buf length : Nat) : SpiDualState :=
  let s := spiDualWriteCtrlRegister s (SPI_REG_ACTIVE_QUAD ||| SPI_REG_RD_WRn ||| SPI_REG_CLK) 5
  let (c, s) := spiDualReadClock answer s SPI_REG_ACTIVE_QUAD
  let (d, s) := spiDualReadClock answer s SPI_REG_ACTIVE_QUAD
  storeBytes s buf length (c.setWidth 8) (d.setWidth 8)

/-- The loop over a shot; a turn takes two bytes, or the one that is left. -/
def spiDualReadLoop (turn : SpiDualState → Nat → Nat → SpiDualState) :
    SpiDualState → Nat → Nat → SpiDualState
  | s, _, 0 => s
  | s, buf, 1 => turn s buf 1
  | s, buf, length + 2 => spiDualReadLoop turn (turn s buf (length + 2)) (buf + 2) length

def spiDualReadShot (s : SpiDualState) (currentBurstFlags : BitVec 8) (buf length : Nat) : SpiDualState × Int :=
  if spiDualModeError currentBurstFlags then (s, -1)
  else if isDataAccess currentBurstFlags then (spiDualReadLoop (readQuadData answer) s buf length, 0)
  else (spiDualReadLoop (readChipSingle answer) s buf length, 0)

/-- The hooks. -/
def spiDualStep (s : SpiDualState) (call : BurstCall) : Option (SpiDualState × Int) :=
  match call.hook with
  | .handlePreBurstFlags _ => some (spiDualSetChipselect s .on, 0)
  | .handlePostBurstFlags flags =>
    if flags &&& SPI_POST_BURST_FLAG_LEAVE_CS_ASSERTED = 0 then some (spiDualSetChipselect s .off, 0)
    else some (s, 0)
  | .writeShot bytes => some (spiDualWriteShot s call.currentBurstFlags bytes)
  | .waitForWriteQueueEmpty => some (s, 0)
  | .requestRead _ => some (s, 0)
  | .readShot buf numBytes => some (spiDualReadShot answer s call.currentBurstFlags buf numBytes)
  | .burstAborted => some (spiDualSetChipselect s .off, 0)

def spiDualServe (bursts : List Burst) (st : BurstState) (s : SpiDualState) : Option (List Served × SpiDualState) :=
  serveAll (spiDualStep answer) spiDualBase SpiDualState.buffer bursts st s

end Reading

/-! ### What the controller is for -/

/-- A bit for both chips; the other lines stay high. -/
def singleSample (bit : Bool) : Option (BitVec 8) := some (if bit then 0xdd#8 else 0xcc#8)

/-- What the chips get of the bytes, with one clock after the other. -/
def spiDualSamples (isData : Bool) (bytes : List (BitVec 8)) : List (Option (BitVec 8)) :=
  if isData then (bytes ++ List.replicate (bytes.length % 2) 0xff).map some
  else bytes.flatMap fun byte => (Frames.byteBits byte).map singleSample

/-- The number of clocks for reading so many bytes. -/
def spiDualClocks (isData : Bool) (size : Nat) : Nat := (if isData then 2 else 8) * ((size + 1) / 2)

/-- The byte `i` of a read burst: one of a clock in quad mode, and in single mode one of the chip that has the
bytes with even or with odd numbers. -/
def spiDualByte (answer : Bus (Option (BitVec 8)) → Word) (isData : Bool) (bus : Bus (Option (BitVec 8)))
    (i : Nat) : BitVec 8 :=
  if isData then (answer (bus.shift (List.replicate (i + 1) none))).setWidth 8
  else ofBits ((List.range 8).map fun k =>
    decide (answer (bus.shift (List.replicate (8 * (i / 2) + (k + 1)) none)) &&&
      (if i % 2 = 0 then SPI_REG_MISO_0 else SPI_REG_MISO_1) ≠ 0))

/-- A burst in the wrong mode ends the frame with nothing more in it. -/
def spiDualExec (answer : Bus (Option (BitVec 8)) → Word) (bus : Bus (Option (BitVec 8))) :
    Burst → Served × Bus (Option (BitVec 8))
  | .write flags bytes =>
    if bytes ≠ [] ∧ spiDualModeError (flags.setWidth 8) then (⟨STATUS_ERROR, []⟩, bus.select.release)
    else (⟨STATUS_OK, []⟩,
      leaveBus flags (bus.select.shift (spiDualSamples (isDataAccess (flags.setWidth 8)) bytes)))
  | .read flags size =>
    if size ≠ 0 ∧ spiDualModeError (flags.setWidth 8) then (⟨STATUS_ERROR, []⟩, bus.select.release)
    else (⟨STATUS_OK, (List.range size).map (spiDualByte answer (isDataAccess (flags.setWidth 8)) bus.select)⟩,
      leaveBus flags (bus.select.shift
        (List.replicate (spiDualClocks (isDataAccess (flags.setWidth 8)) size) none)))
  | .stateChange flags => (⟨STATUS_OK, []⟩, leaveBus flags bus)

/-- The chips are connected as long as they are selected, the clock rests high, and they have taken this. -/
structure SpiDualShows (s : SpiDualState) (bus : Bus (Option (BitVec 8))) : Prop where
  selected : s.chipSelected = bus.current.isSome
  select : (spiDualBoard s).select = if s.chipSelected then SEL_REG_SPI else SEL_REG_NONE
  clock : (spiDualBoard s).chip.clock = true
  bus : (spiDualBoard s).chip.bus = bus

variable {answer : Bus (Option (BitVec 8)) → Word} {s : SpiDualState} {bus : Bus (Option (BitVec 8))}
  {st : BurstState} {flags : Word}

/-! ### The lines -/

theorem board_see_see (board : SpiDualBoard) (entry : SpiDualRegister × Word) :
    (board.see entry).see entry = board.see entry := by
  obtain ⟨register, value⟩ := entry
  cases register with
  | flashSelect => rfl
  | control =>
    by_cases hselect : board.select = SEL_REG_SPI
    · simp only [SpiDualBoard.see, if_pos hselect, Frames.see_see]
    · simp only [SpiDualBoard.see, if_neg hselect]

theorem board_seeAll_replicate (board : SpiDualBoard) (entry : SpiDualRegister × Word) (n : Nat) :
    (List.replicate (n + 1) entry).foldl SpiDualBoard.see board = board.see entry := by
  induction n with
  | zero => rfl
  | succ n ih =>
    rw [List.replicate_succ', List.foldl_append, ih]
    exact board_see_see board entry

/-- Repeating a write to the control register makes no difference. -/
theorem board_control (value : Word) (n : Nat) :
    spiDualBoard (spiDualWriteCtrlRegister s value (n + 1)) = (spiDualBoard s).see (.control, value) := by
  rw [spiDualBoard, spiDualWriteCtrlRegister, List.foldl_append, board_seeAll_replicate]
  rfl

theorem board_flashSelect (value : Word) (n : Nat) :
    spiDualBoard (writeFalshSelectRegister s value (n + 1)) = { spiDualBoard s with select := value } := by
  rw [spiDualBoard, writeFalshSelectRegister, List.foldl_append, board_seeAll_replicate]
  rfl

/-- As long as the chips are connected they see the register. -/
theorem board_connected (h : (spiDualBoard s).select = SEL_REG_SPI) (value : Word) (n : Nat) :
    (spiDualBoard (spiDualWriteCtrlRegister s value (n + 1))).select = SEL_REG_SPI ∧
      (spiDualBoard (spiDualWriteCtrlRegister s value (n + 1))).chip =
        (spiDualBoard s).chip.see (spiDualLines value) := by
  rw [board_control, SpiDualBoard.see, if_pos h]
  exact ⟨h, rfl⟩

theorem SpiDualShows.connected (h : SpiDualShows s bus) (hbus : bus.current.isSome = true) :
    (spiDualBoard s).select = SEL_REG_SPI := by
  rw [h.select, h.selected, hbus, if_pos rfl]

theorem SpiDualShows.chip_selected (h : SpiDualShows s bus) (hbus : bus.current.isSome = true) :
    (spiDualBoard s).chip.selected = true := by
  rw [← Frames.bus_isSome, h.bus, hbus]

/-- A value with the clock high, while the chips are selected. -/
theorem SpiDualShows.hold (h : SpiDualShows s bus) (hbus : bus.current.isSome = true) {value : Word}
    {data : Option (BitVec 8)} (hlines : spiDualLines value = ⟨true, true, data⟩) (n : Nat) :
    SpiDualShows (spiDualWriteCtrlRegister s value (n + 1)) bus := by
  have hselected := h.chip_selected hbus
  obtain ⟨hselect, hchip⟩ := board_connected (h.connected hbus) value n
  rw [hlines] at hchip
  refine ⟨h.selected, ?_, ?_, ?_⟩
  · rw [hselect]
    exact (if_pos (h.selected.trans hbus)).symm
  · rw [hchip, Frames.see_clock]
  · rw [hchip, Frames.bus_see_still hselected rfl (.inl h.clock), h.bus]

/-- The clock goes down and up, and then the chips have taken what is on the lines. -/
theorem SpiDualShows.period (h : SpiDualShows s bus) (hbus : bus.current.isSome = true) {low high : Word}
    {data data' : Option (BitVec 8)} (hlow : spiDualLines low = ⟨true, false, data'⟩)
    (hhigh : spiDualLines high = ⟨true, true, data⟩) (m n : Nat) :
    SpiDualShows (spiDualWriteCtrlRegister (spiDualWriteCtrlRegister s low (m + 1)) high (n + 1))
      (bus.shift [data]) := by
  obtain ⟨hselect, hchip⟩ := board_connected (h.connected hbus) low m
  obtain ⟨hselect', hchip'⟩ := board_connected hselect high n
  rw [hchip, hlow, hhigh] at hchip'
  refine ⟨?_, ?_, ?_, ?_⟩
  · rw [Bus.shift_isSome]
    exact h.selected
  · rw [hselect']
    exact (if_pos (h.selected.trans hbus)).symm
  · rw [hchip', Frames.see_clock]
  · rw [hchip', Frames.bus_see_period (h.chip_selected hbus), h.bus]

/-- The data is set up in a step of its own while the clock is low. -/
theorem SpiDualShows.clockCycle (h : SpiDualShows s bus) (hbus : bus.current.isSome = true) {active data : Word}
    {sample rest setUp final : Option (BitVec 8)} (hlow : spiDualLines active = ⟨true, false, rest⟩)
    (hset : spiDualLines (active ||| data) = ⟨true, false, setUp⟩)
    (hhigh : spiDualLines (active ||| SPI_REG_CLK ||| data) = ⟨true, true, sample⟩)
    (hfinal : spiDualLines (active ||| SPI_REG_CLK) = ⟨true, true, final⟩) :
    SpiDualShows (spiDualClock s active data) (bus.shift [sample]) := by
  obtain ⟨hselect, hchip⟩ := board_connected (h.connected hbus) active 4
  obtain ⟨hselect', hchip'⟩ := board_connected hselect (active ||| data) 4
  obtain ⟨hselect'', hchip''⟩ := board_connected hselect' (active ||| SPI_REG_CLK ||| data) 4
  rw [hchip', hchip, hlow, hset, hhigh] at hchip''
  have hselected : ((spiDualBoard s).chip.see ⟨true, false, rest⟩).selected = true := by rw [Frames.see_selected]
  have hshows : SpiDualShows (spiDualWriteCtrlRegister (spiDualWriteCtrlRegister (spiDualWriteCtrlRegister s active 5)
      (active ||| data) 5) (active ||| SPI_REG_CLK ||| data) 5) (bus.shift [sample]) := by
    refine ⟨?_, ?_, ?_, ?_⟩
    · rw [Bus.shift_isSome]
      exact h.selected
    · rw [hselect'']
      exact (if_pos (h.selected.trans hbus)).symm
    · rw [hchip'', Frames.see_clock]
    · rw [hchip'', Frames.bus_see_period hselected,
        Frames.bus_see_still (h.chip_selected hbus) rfl (.inr rfl), h.bus]
  exact hshows.hold (by rw [Bus.shift_isSome]; exact hbus) hfinal 4

theorem SpiDualShows.select_on (h : SpiDualShows s bus) : SpiDualShows (spiDualSetChipselect s .on) bus.select := by
  unfold spiDualSetChipselect
  dsimp only
  split_ifs with hselected
  · rw [Bus.select_of_isSome (h.selected.symm.trans hselected)]
    exact h
  · have hlines : spiDualLines (SPI_REG_ACTIVE_SINGLE ||| SPI_REG_CLK) = ⟨true, true, some 0x88#8⟩ := by decide
    have hselect : (spiDualBoard (writeFalshSelectRegister s SEL_REG_SPI 5)).select = SEL_REG_SPI := by
      rw [board_flashSelect]
    obtain ⟨hselect', hchip⟩ := board_connected hselect (SPI_REG_ACTIVE_SINGLE ||| SPI_REG_CLK) 9
    rw [board_flashSelect, hlines] at hchip
    refine ⟨rfl, hselect', ?_, ?_⟩
    · exact (congrArg Chip.clock hchip).trans Frames.see_clock
    · refine (congrArg Chip.bus hchip).trans ?_
      rw [Frames.bus_see_select rfl (.inl h.clock), h.bus]

theorem SpiDualShows.release_off (h : SpiDualShows s bus) :
    SpiDualShows (spiDualSetChipselect s .off) bus.release := by
  have hlines : spiDualLines SPI_REG_IDLE = ⟨false, true, none⟩ := by decide
  have hboard : spiDualBoard (spiDualSetChipselect s .off) =
      { (spiDualBoard s).see (.control, SPI_REG_IDLE) with select := SEL_REG_NONE } := by
    rw [← board_control SPI_REG_IDLE 9]
    exact board_flashSelect _ 4
  refine ⟨rfl, ?_, ?_, ?_⟩
  · rw [hboard]
    rfl
  · rw [hboard, SpiDualBoard.see]
    split_ifs
    · rw [hlines]
      exact Frames.see_clock
    · exact h.clock
  · rw [hboard, SpiDualBoard.see]
    split_ifs with hselect
    · rw [hlines]
      refine (Frames.bus_see_release rfl).trans ?_
      rw [h.bus]
    · have hnone : bus.current = none := by
        rw [h.select, h.selected] at hselect
        cases hcurrent : bus.current with
        | none => rfl
        | some taken =>
          rw [hcurrent] at hselect
          exact absurd rfl hselect
      refine h.bus.trans ?_
      obtain ⟨current, frames⟩ := bus
      obtain rfl : current = none := hnone
      simp [Bus.release]

/-! ### Writing -/

theorem spiDualLines_single (bit : Bool) :
    spiDualLines (SPI_REG_ACTIVE_SINGLE ||| SPI_REG_WPn_1 ||| SPI_REG_WPn_0 ||| SPI_REG_CLK |||
      (if bit then SPI_REG_MOSI_0 ||| SPI_REG_MOSI_1 else 0)) = ⟨true, true, singleSample bit⟩ := by
  revert bit
  decide

theorem spiDualLines_single_low (bit : Bool) :
    spiDualLines (SPI_REG_ACTIVE_SINGLE ||| SPI_REG_WPn_1 ||| SPI_REG_WPn_0 |||
      (if bit then SPI_REG_MOSI_0 ||| SPI_REG_MOSI_1 else 0)) = ⟨true, false, singleSample bit⟩ := by
  revert bit
  decide

theorem spiDualLines_single_rest :
    spiDualLines (SPI_REG_ACTIVE_SINGLE ||| SPI_REG_WPn_1 ||| SPI_REG_WPn_0) = ⟨true, false, some 0xcc#8⟩ ∧
      spiDualLines (SPI_REG_ACTIVE_SINGLE ||| SPI_REG_WPn_1 ||| SPI_REG_WPn_0 ||| SPI_REG_CLK) =
        ⟨true, true, some 0xcc#8⟩ := by decide

theorem SpiDualShows.writeBits (data : BitVec 8) (masks : List (BitVec 8)) : ∀ s bus, SpiDualShows s bus →
    bus.current.isSome = true →
    SpiDualShows (masks.foldl (fun s bit => spiDualClock s (SPI_REG_ACTIVE_SINGLE ||| SPI_REG_WPn_1 ||| SPI_REG_WPn_0)
        (if data &&& bit = bit then SPI_REG_MOSI_0 ||| SPI_REG_MOSI_1 else 0)) s)
      (bus.shift (masks.map fun bit => singleSample (decide (data &&& bit = bit)))) := by
  induction masks with
  | nil =>
    intro s bus h _
    rw [List.map_nil, Bus.shift_nil]
    exact h
  | cons mask masks ih =>
    intro s bus h hbus
    have hdata : (if data &&& mask = mask then SPI_REG_MOSI_0 ||| SPI_REG_MOSI_1 else 0) =
        if decide (data &&& mask = mask) then SPI_REG_MOSI_0 ||| SPI_REG_MOSI_1 else 0 := by
      simp only [decide_eq_true_eq]
    have hcycle := h.clockCycle hbus spiDualLines_single_rest.1 (spiDualLines_single_low (decide (data &&& mask = mask)))
      (spiDualLines_single (decide (data &&& mask = mask))) spiDualLines_single_rest.2
    rw [← hdata] at hcycle
    have hrest := ih _ _ hcycle (by rw [Bus.shift_isSome]; exact hbus)
    rw [Bus.shift_shift] at hrest
    exact hrest

theorem byteBits_masks_eq (data : BitVec 8) :
    (bitMasks.map fun bit => singleSample (decide (data &&& bit = bit))) =
      (Frames.byteBits data).map singleSample := by
  have hbits : (bitMasks.map fun bit => decide (data &&& bit = bit)) = Frames.byteBits data := by
    revert data
    decide
  rw [← hbits, List.map_map]
  rfl

theorem SpiDualShows.writeChipSingle (h : SpiDualShows s bus) (hbus : bus.current.isSome = true) (data : BitVec 8) :
    SpiDualShows (writeChipSingle s data) (bus.shift ((Frames.byteBits data).map singleSample)) := by
  have hlines : spiDualLines (SPI_REG_ACTIVE_SINGLE ||| SPI_REG_CLK ||| SPI_REG_WPn_1 ||| SPI_REG_WPn_0) =
      ⟨true, true, some 0xcc#8⟩ := by decide
  have hbits := SpiDualShows.writeBits data bitMasks _ bus (h.hold hbus hlines 4) hbus
  rw [byteBits_masks_eq] at hbits
  exact hbits

theorem SpiDualShows.writeChips (bytes : List (BitVec 8)) : ∀ s bus, SpiDualShows s bus →
    bus.current.isSome = true → SpiDualShows (bytes.foldl MenableDriver.writeChipSingle s)
      (bus.shift (bytes.flatMap fun byte => (Frames.byteBits byte).map singleSample)) := by
  induction bytes with
  | nil =>
    intro s bus h _
    rw [List.flatMap_nil, Bus.shift_nil]
    exact h
  | cons byte bytes ih =>
    intro s bus h hbus
    have hrest := ih _ _ (h.writeChipSingle hbus byte) (by rw [Bus.shift_isSome]; exact hbus)
    rw [Bus.shift_shift] at hrest
    rw [List.foldl_cons, List.flatMap_cons]
    exact hrest

theorem spiDualLines_quad (c : BitVec 8) :
    spiDualLines (SPI_REG_ACTIVE_QUAD ||| c.setWidth 32) = ⟨true, false, some c⟩ ∧
      spiDualLines (SPI_REG_ACTIVE_QUAD ||| SPI_REG_CLK ||| c.setWidth 32) = ⟨true, true, some c⟩ := by
  revert c
  decide

theorem spiDualLines_quad_rest : spiDualLines SPI_REG_ACTIVE_QUAD = ⟨true, false, some 0⟩ ∧
    spiDualLines (SPI_REG_ACTIVE_QUAD ||| SPI_REG_CLK) = ⟨true, true, some 0⟩ := by decide

theorem SpiDualShows.quadClock (h : SpiDualShows s bus) (hbus : bus.current.isSome = true) (c : BitVec 8) :
    SpiDualShows (spiDualClock s SPI_REG_ACTIVE_QUAD (c.setWidth 32)) (bus.shift [some c]) :=
  h.clockCycle hbus spiDualLines_quad_rest.1 (spiDualLines_quad c).1 (spiDualLines_quad c).2 spiDualLines_quad_rest.2

theorem SpiDualShows.writeQuadData (h : SpiDualShows s bus) (hbus : bus.current.isSome = true) (c d : BitVec 8) :
    SpiDualShows (writeQuadData s c d) (bus.shift [some c, some d]) := by
  have hfirst := (h.hold hbus spiDualLines_quad_rest.2 4).quadClock hbus c
  have hsecond := hfirst.quadClock (by rw [Bus.shift_isSome]; exact hbus) d
  rw [Bus.shift_shift] at hsecond
  exact hsecond

/-- The bytes of a shot in quad mode, and those that fill it up. -/
theorem SpiDualShows.writeQuadLoop : ∀ bytes s bus, SpiDualShows s bus → bus.current.isSome = true →
    SpiDualShows (writeQuadLoop s bytes) (bus.shift (spiDualSamples true bytes))
  | [], s, bus, h, _ => by
    rw [show spiDualSamples true [] = [] from rfl, Bus.shift_nil]
    exact h
  | [c], s, bus, h, hbus => h.writeQuadData hbus c 0xff
  | c :: d :: bytes, s, bus, h, hbus => by
    have hrest := SpiDualShows.writeQuadLoop bytes _ _ (h.writeQuadData hbus c d)
      (by rw [Bus.shift_isSome]; exact hbus)
    rw [Bus.shift_shift] at hrest
    have hsamples : spiDualSamples true (c :: d :: bytes) = [some c, some d] ++ spiDualSamples true bytes := by
      simp only [spiDualSamples, if_true, List.length_cons, List.cons_append, List.map_cons, List.nil_append]
      rw [show bytes.length + 1 + 1 = bytes.length + 2 from rfl, Nat.add_mod_right]
    rw [hsamples]
    exact hrest

/-! ### Reading -/

theorem SpiDualShows.readClock (answer : Bus (Option (BitVec 8)) → Word) (h : SpiDualShows s bus)
    (hbus : bus.current.isSome = true) {active : Word}
    (hlow : spiDualLines (active ||| SPI_REG_RD_WRn) = ⟨true, false, none⟩)
    (hhigh : spiDualLines (active ||| SPI_REG_RD_WRn ||| SPI_REG_CLK) = ⟨true, true, none⟩) :
    SpiDualShows (spiDualReadClock answer s active).2 (bus.shift [none]) ∧
      (spiDualReadClock answer s active).1 = answer (bus.shift [none]) := by
  have hperiod := h.period hbus hlow hhigh 9 4
  exact ⟨hperiod, congrArg answer hperiod.bus⟩

/-- The bit of a chip behind so many clocks. -/
def chipBit (answer : Bus (Option (BitVec 8)) → Word) (bus : Bus (Option (BitVec 8))) (miso : Word) (clocks : Nat) :
    Bool := decide (answer (bus.shift (List.replicate clocks none)) &&& miso ≠ 0)

/-- The bits of one chip that are read with the masks from the mask `k` on. -/
def chipBits (answer : Bus (Option (BitVec 8)) → Word) (bus : Bus (Option (BitVec 8))) (miso : Word) (k n : Nat)
    (data : BitVec 8) : BitVec 8 :=
  (List.range' k n).foldl (fun data i => if chipBit answer bus miso (i + 1) then data ||| 0x80#8 >>> i else data) data

theorem spiDualLines_read : spiDualLines (SPI_REG_ACTIVE_SINGLE ||| SPI_REG_RD_WRn) = ⟨true, false, none⟩ ∧
    spiDualLines (SPI_REG_ACTIVE_SINGLE ||| SPI_REG_RD_WRn ||| SPI_REG_CLK) = ⟨true, true, none⟩ ∧
    spiDualLines (SPI_REG_ACTIVE_QUAD ||| SPI_REG_RD_WRn) = ⟨true, false, none⟩ ∧
    spiDualLines (SPI_REG_ACTIVE_QUAD ||| SPI_REG_RD_WRn ||| SPI_REG_CLK) = ⟨true, true, none⟩ := by decide

theorem SpiDualShows.readChipBits (answer : Bus (Option (BitVec 8)) → Word) (n : Nat) : ∀ k s first second,
    SpiDualShows s (bus.shift (List.replicate k none)) → bus.current.isSome = true →
    let r := ((List.range' k n).map fun i => 0x80#8 >>> i).foldl (readChipBit answer) (s, first, second)
    SpiDualShows r.1 (bus.shift (List.replicate (k + n) none)) ∧
      r.2 = (chipBits answer bus SPI_REG_MISO_0 k n first, chipBits answer bus SPI_REG_MISO_1 k n second) ∧
      r.1.buffer = s.buffer := by
  induction n with
  | zero => exact fun k s first second h _ => ⟨h, rfl, rfl⟩
  | succ n ih =>
    intro k s first second h hbus
    obtain ⟨hshows, hval⟩ := h.readClock answer (by rw [Bus.shift_isSome]; exact hbus) spiDualLines_read.1
      spiDualLines_read.2.1
    rw [Bus.shift_shift, ← List.replicate_succ'] at hshows hval
    obtain ⟨hshows', hdata', hbuffer'⟩ := ih (k + 1) _
      (readChipBit answer (s, first, second) (0x80#8 >>> k)).2.1
      (readChipBit answer (s, first, second) (0x80#8 >>> k)).2.2 hshows hbus
    rw [List.range'_succ, List.map_cons, List.foldl_cons]
    refine ⟨?_, hdata'.trans ?_, hbuffer'⟩
    · rw [Nat.add_assoc, Nat.add_comm 1 n] at hshows'
      exact hshows'
    · simp only [chipBits, List.range'_succ, List.foldl_cons, readChipBit, hval, chipBit, decide_eq_true_eq]

/-- The bytes of a read burst in single mode, by the clocks before the first of two. -/
theorem spiDualByte_single (answer : Bus (Option (BitVec 8)) → Word) (bus : Bus (Option (BitVec 8))) (p : Nat) :
    chipBits answer (bus.shift (List.replicate (8 * p) none)) SPI_REG_MISO_0 0 8 0 =
        spiDualByte answer false bus (2 * p) ∧
      chipBits answer (bus.shift (List.replicate (8 * p) none)) SPI_REG_MISO_1 0 8 0 =
        spiDualByte answer false bus (2 * p + 1) := by
  have hbits : ∀ miso, chipBits answer (bus.shift (List.replicate (8 * p) none)) miso 0 8 0 =
      ofBits ((List.range 8).map fun k => chipBit answer bus miso (8 * p + (k + 1))) := by
    intro miso
    have hmasks := foldl_masks fun k => chipBit answer bus miso (8 * p + (k + 1))
    simp only [chipBits, chipBit, Bus.shift_shift, List.replicate_append_replicate] at hmasks ⊢
    exact hmasks
  have heven : 2 * p / 2 = p ∧ 2 * p % 2 = 0 := by omega
  have hodd : (2 * p + 1) / 2 = p ∧ (2 * p + 1) % 2 = 1 := by omega
  constructor
  · rw [hbits, spiDualByte, heven.1, heven.2]
    rfl
  · rw [hbits, spiDualByte, hodd.1, hodd.2]
    rfl

/-- What a turn of a read shot does, when it takes so many clocks. -/
def TurnReads (turn : SpiDualState → Nat → Nat → SpiDualState) (bus : Bus (Option (BitVec 8))) (clocks : Nat)
    (byte : Nat → BitVec 8) : Prop :=
  ∀ s p length, SpiDualShows s (bus.shift (List.replicate (clocks * p) none)) →
    SpiDualShows (turn s (2 * p) length) (bus.shift (List.replicate (clocks * (p + 1)) none)) ∧
      (turn s (2 * p) length).buffer = (storeBytes s (2 * p) length (byte (2 * p)) (byte (2 * p + 1))).buffer

theorem readChipSingle_reads (answer : Bus (Option (BitVec 8)) → Word) (hbus : bus.current.isSome = true) :
    TurnReads (readChipSingle answer) bus 8 (spiDualByte answer false bus) := by
  intro s p length h
  have hbus' : (bus.shift (List.replicate (8 * p) none)).current.isSome = true := by
    rw [Bus.shift_isSome]
    exact hbus
  have hstart : SpiDualShows
      (spiDualWriteCtrlRegister s (SPI_REG_ACTIVE_SINGLE ||| SPI_REG_RD_WRn ||| SPI_REG_CLK) 5)
      ((bus.shift (List.replicate (8 * p) none)).shift (List.replicate 0 none)) := by
    rw [List.replicate_zero, Bus.shift_nil]
    exact h.hold hbus' spiDualLines_read.2.1 4
  obtain ⟨hshows, hdata, hbuffer⟩ := SpiDualShows.readChipBits answer 8 0 _ 0 0 hstart hbus'
  rw [show ((List.range' 0 8).map fun i => 0x80#8 >>> i) = bitMasks from rfl] at hshows hdata hbuffer
  obtain ⟨hfirst, hsecond⟩ := spiDualByte_single answer bus p
  rw [hfirst, hsecond] at hdata
  rw [Bus.shift_shift, List.replicate_append_replicate, Nat.zero_add] at hshows
  rw [readChipSingle]
  generalize bitMasks.foldl (readChipBit answer) (spiDualWriteCtrlRegister s
    (SPI_REG_ACTIVE_SINGLE ||| SPI_REG_RD_WRn ||| SPI_REG_CLK) 5, 0, 0) = r at hshows hdata hbuffer ⊢
  obtain ⟨s', first, second⟩ := r
  obtain ⟨rfl, rfl⟩ := Prod.mk.inj hdata
  constructor
  · exact ⟨hshows.selected, hshows.select, hshows.clock, hshows.bus⟩
  · have hsame : s'.buffer = s.buffer := hbuffer
    simp only [storeBytes, hsame]

theorem readQuadData_reads (answer : Bus (Option (BitVec 8)) → Word) (hbus : bus.current.isSome = true) :
    TurnReads (readQuadData answer) bus 2 (spiDualByte answer true bus) := by
  intro s p length h
  have hisSome : ∀ data, (bus.shift data).current.isSome = true := fun data => by
    rw [Bus.shift_isSome]
    exact hbus
  have hstart := h.hold (hisSome _) spiDualLines_read.2.2.2 4
  obtain ⟨hfirst, hc⟩ := hstart.readClock answer (hisSome _) spiDualLines_read.2.2.1 spiDualLines_read.2.2.2
  rw [Bus.shift_shift, ← List.replicate_succ'] at hfirst hc
  obtain ⟨hsecond, hd⟩ := hfirst.readClock answer (hisSome _) spiDualLines_read.2.2.1 spiDualLines_read.2.2.2
  rw [Bus.shift_shift, ← List.replicate_succ'] at hsecond hd
  constructor
  · exact ⟨hsecond.selected, hsecond.select, hsecond.clock, hsecond.bus⟩
  · simp only [readQuadData, hc, hd]
    rfl

/-- A shot reads its bytes with the clocks that go with them. -/
theorem spiDualReadLoop_reads {turn : SpiDualState → Nat → Nat → SpiDualState} {clocks : Nat}
    {byte : Nat → BitVec 8} (hturn : TurnReads turn bus clocks byte) : ∀ length s p,
    SpiDualShows s (bus.shift (List.replicate (clocks * p) none)) → (∀ i < 2 * p, s.buffer i = byte i) →
    SpiDualShows (spiDualReadLoop turn s (2 * p) length)
        (bus.shift (List.replicate (clocks * ((2 * p + length + 1) / 2)) none)) ∧
      ∀ i < 2 * p + length, (spiDualReadLoop turn s (2 * p) length).buffer i = byte i
  | 0, s, p, h, hbytes => by
    rw [show (2 * p + 0 + 1) / 2 = p by omega]
    exact ⟨h, hbytes⟩
  | 1, s, p, h, hbytes => by
    obtain ⟨hshows, hbuffer⟩ := hturn s p 1 h
    rw [show (2 * p + 1 + 1) / 2 = p + 1 by omega]
    refine ⟨hshows, fun i hi => ?_⟩
    rw [spiDualReadLoop, hbuffer, storeBytes]
    dsimp only
    rw [if_neg (Nat.lt_irrefl 1)]
    by_cases heq : i = 2 * p
    · rw [heq, Function.update_self]
    · rw [Function.update_of_ne heq]
      exact hbytes i (by omega)
  | length + 2, s, p, h, hbytes => by
    obtain ⟨hshows, hbuffer⟩ := hturn s p (length + 2) h
    have hstored : ∀ i < 2 * (p + 1), (turn s (2 * p) (length + 2)).buffer i = byte i := by
      intro i hi
      rw [hbuffer, storeBytes]
      dsimp only
      rw [if_pos (show length + 2 > 1 by omega)]
      by_cases hlast : i = 2 * p + 1
      · rw [hlast, Function.update_self]
      · rw [Function.update_of_ne hlast]
        by_cases heq : i = 2 * p
        · rw [heq, Function.update_self]
        · rw [Function.update_of_ne heq]
          exact hbytes i (by omega)
    obtain ⟨hshows', hbytes'⟩ := spiDualReadLoop_reads hturn length _ (p + 1) hshows hstored
    rw [show 2 * (p + 1) + length + 1 = 2 * p + (length + 2) + 1 by omega] at hshows'
    rw [show 2 * (p + 1) + length = 2 * p + (length + 2) by omega] at hbytes'
    exact ⟨hshows', hbytes'⟩

/-! ### Bursts -/

theorem spiDualSamples_append (isData : Bool) {sent : List (BitVec 8)} (bytes : List (BitVec 8))
    (heven : sent.length % 2 = 0) :
    spiDualSamples isData (sent ++ bytes) = spiDualSamples isData sent ++ spiDualSamples isData bytes := by
  cases isData with
  | true =>
    have hlength : (sent ++ bytes).length % 2 = bytes.length % 2 := by
      rw [List.length_append]
      omega
    simp only [spiDualSamples, if_true, hlength, heven, List.replicate_zero, List.append_nil, List.map_append,
      List.append_assoc]
  | false => simp [spiDualSamples]

theorem spiDual_pre (h : SpiDualShows s bus) {isFirst isLast : Bool} {E Q : SpiDualState → Prop}
    (hQ : ∀ s', SpiDualShows s' bus.select → Q s') :
    CallAnswers (spiDualStep answer) s ⟨.handlePreBurstFlags flags, flags.setWidth 8, isFirst, isLast⟩ E Q :=
  CallAnswers.of_ok rfl (hQ _ h.select_on)

theorem spiDual_post (answer : Bus (Option (BitVec 8)) → Word) (flags : Word) (h : SpiDualShows s bus)
    (currentBurstFlags : BitVec 8) (isFirst isLast : Bool) :
    ∃ s', spiDualStep answer s ⟨.handlePostBurstFlags flags, currentBurstFlags, isFirst, isLast⟩ = some (s', 0) ∧
      SpiDualShows s' (leaveBus flags bus) ∧ s'.buffer = s.buffer := by
  unfold spiDualStep leaveBus
  dsimp only
  split_ifs
  · exact ⟨_, rfl, h.release_off, rfl⟩
  · exact ⟨_, rfl, h, rfl⟩

theorem spiDual_aborted (answer : Bus (Option (BitVec 8)) → Word) (h : SpiDualShows s bus) :
    ∃ r, spiDualStep answer s BurstCall.aborted = some r ∧ SpiDualShows r.1 bus.release :=
  ⟨_, rfl, h.release_off⟩

/-- What is left of a write burst goes with what the chips have taken of it. All shots but the final one have an
even number of bytes. -/
def SpiDualWriting (bus : Bus (Option (BitVec 8))) (isData : Bool) (buf bytes : List (BitVec 8))
    (s : SpiDualState) : Prop :=
  ∃ sent, sent ++ bytes = buf ∧ (bytes = [] ∨ sent.length % 2 = 0) ∧
    SpiDualShows s (bus.select.shift (spiDualSamples isData sent))

theorem spiDualWriteShot_shows (h : SpiDualShows s bus) (hbus : bus.current.isSome = true)
    {currentBurstFlags : BitVec 8} (hmode : spiDualModeError currentBurstFlags = false) (bytes : List (BitVec 8)) :
    ∃ s', spiDualWriteShot s currentBurstFlags bytes = (s', 0) ∧
      SpiDualShows s' (bus.shift (spiDualSamples (isDataAccess currentBurstFlags) bytes)) := by
  unfold spiDualWriteShot
  rw [hmode, if_neg Bool.false_ne_true]
  cases isDataAccess currentBurstFlags with
  | true => exact ⟨_, rfl, SpiDualShows.writeQuadLoop bytes s bus h hbus⟩
  | false => exact ⟨_, rfl, SpiDualShows.writeChips bytes s bus h hbus⟩

theorem spiDual_writeRule (answer : Bus (Option (BitVec 8)) → Word) (bus : Bus (Option (BitVec 8)))
    {buf : List (BitVec 8)} (hmode : buf = [] ∨ spiDualModeError (flags.setWidth 8) = false) :
    WriteRule (spiDualStep answer) spiDualBase flags buf.length
      (SpiDualWriting bus (isDataAccess (flags.setWidth 8)) buf) fun _ => False where
  shot := by
    rintro bytes s hpos ⟨sent, hsent, heven, hs⟩
    have hne : ¬bytes = [] := List.length_pos_iff.mp hpos
    have hbuf : ¬buf = [] := by
      rw [← hsent]
      exact fun h => hne (List.append_eq_nil_iff.mp h).2
    obtain ⟨s', hshot, hs'⟩ := spiDualWriteShot_shows hs (by rw [Bus.shift_isSome]; rfl)
      (hmode.resolve_left hbuf) (bytes.take spiDualBase.maxBytesPerWrite.val)
    rw [Bus.shift_shift, ← spiDualSamples_append _ _ (heven.resolve_left hne)] at hs'
    refine CallAnswers.of_ok (congrArg some hshot) ⟨_, ?_, ?_, hs'⟩
    · rw [List.append_assoc, List.take_append_drop]
      exact hsent
    · have hmost : spiDualBase.maxBytesPerWrite.val = 512 := rfl
      have heven' := heven.resolve_left hne
      by_cases hlast : bytes.length ≤ 512
      · exact .inl (List.drop_eq_nil_of_le hlast)
      · right
        rw [List.length_append, List.length_take, hmost]
        omega
  wait := fun bytes s isFirst isLast hs => CallAnswers.of_ok rfl hs

/-- In the wrong mode already the first shot fails. -/
theorem spiDual_writeRule_wrong (answer : Bus (Option (BitVec 8)) → Word) (bus : Bus (Option (BitVec 8)))
    {buf : List (BitVec 8)} (hmode : spiDualModeError (flags.setWidth 8) = true) :
    WriteRule (spiDualStep answer) spiDualBase flags buf.length
      (fun bytes s => bytes = buf ∧ SpiDualShows s bus.select) (fun s => SpiDualShows s bus.select) where
  shot := by
    rintro bytes s hpos ⟨-, hs⟩
    have hshot : spiDualWriteShot s (flags.setWidth 8) (bytes.take spiDualBase.maxBytesPerWrite.val) = (s, -1) := by
      rw [spiDualWriteShot, if_pos hmode]
    exact CallAnswers.of_error (congrArg some hshot) (by decide) hs
  wait := fun bytes s isFirst isLast hs => CallAnswers.of_ok rfl hs

theorem spiDual_write (answer : Bus (Option (BitVec 8)) → Word) (st : BurstState) (h : SpiDualShows s bus)
    {buf : List (BitVec 8)} (hmode : buf = [] ∨ spiDualModeError (flags.setWidth 8) = false) :
    BurstLeads (machineBurst (spiDualStep answer) s fun hooks => ctrlWriteBurst spiDualBase hooks st flags buf)
      (fun _ => False) fun s' => SpiDualShows s'
        (leaveBus flags (bus.select.shift (spiDualSamples (isDataAccess (flags.setWidth 8)) buf))) := by
  refine ctrlWriteBurst_leads (spiDual_writeRule answer bus hmode) ?_ ?_ fun _ hfalse => hfalse.elim
  · refine spiDual_pre h fun s' hs' => ⟨[], rfl, .inr rfl, ?_⟩
    have hnil : spiDualSamples (isDataAccess (flags.setWidth 8)) [] = [] := by
      cases isDataAccess (flags.setWidth 8) <;> rfl
    rw [hnil, Bus.shift_nil]
    exact hs'
  · rintro s' isFirst ⟨sent, hsent, -, hs'⟩
    rw [List.append_nil] at hsent
    rw [← hsent]
    obtain ⟨s'', hstep, hs'', -⟩ := spiDual_post answer flags hs' (flags.setWidth 8) isFirst false
    exact ⟨_, hstep, hs''⟩

theorem spiDual_write_wrong (answer : Bus (Option (BitVec 8)) → Word) (st : BurstState) (h : SpiDualShows s bus)
    {buf : List (BitVec 8)} (hbuf : buf ≠ []) (hmode : spiDualModeError (flags.setWidth 8) = true) :
    BurstLeads (machineBurst (spiDualStep answer) s fun hooks => ctrlWriteBurst spiDualBase hooks st flags buf)
      (fun s' => SpiDualShows s' bus.select.release) fun _ => False := by
  refine ctrlWriteBurst_leads (spiDual_writeRule_wrong answer bus hmode) ?_ ?_ fun s hs => spiDual_aborted answer hs
  · exact spiDual_pre h fun s' hs' => ⟨rfl, hs'⟩
  · rintro s' isFirst ⟨hnil, -⟩
    exact absurd hnil.symm hbuf

/-- What was read with the results so far. -/
structure SpiDualReading (answer : Bus (Option (BitVec 8)) → Word) (bus : Bus (Option (BitVec 8))) (isData : Bool)
    (n : Nat) (s : SpiDualState) : Prop where
  chips : SpiDualShows s (bus.select.shift (List.replicate (spiDualClocks isData n) none))
  bytes : ∀ i < n, s.buffer i = spiDualByte answer isData bus.select i

theorem spiDualReadShot_reads (isData : Bool) {p : Nat} (length : Nat) (h : SpiDualReading answer bus isData (2 * p) s) :
    SpiDualReading answer bus isData (2 * p + length)
      (spiDualReadLoop (if isData then readQuadData answer else readChipSingle answer) s (2 * p) length) := by
  have hclocks : ∀ n, spiDualClocks isData n = (if isData then 2 else 8) * ((n + 1) / 2) := fun n => rfl
  have hstart := h.chips
  rw [hclocks, show (2 * p + 1) / 2 = p by omega] at hstart
  have hturn : TurnReads (if isData then readQuadData answer else readChipSingle answer) bus.select
      (if isData then 2 else 8) (spiDualByte answer isData bus.select) := by
    cases isData with
    | true => exact readQuadData_reads answer rfl
    | false => exact readChipSingle_reads answer rfl
  obtain ⟨hshows, hbytes⟩ := spiDualReadLoop_reads hturn length s p hstart h.bytes
  exact ⟨hshows, hbytes⟩

theorem spiDual_readRule (answer : Bus (Option (BitVec 8)) → Word) (bus : Bus (Option (BitVec 8))) {size : Nat}
    (hmode : size = 0 ∨ spiDualModeError (flags.setWidth 8) = false) :
    ReadRule (spiDualStep answer) spiDualBase flags size
      (fun _ j => SpiDualReading answer bus (isDataAccess (flags.setWidth 8)) (min size (j * 512)))
      fun _ => False where
  request := fun k j s isFirst isLast hs _ _ _ _ _ => CallAnswers.of_ok rfl hs
  result := by
    intro k j s isFirst isLast hs hjk hk _ _
    have hlt : j * 512 < size := (Pieces.lt_count_iff spiDualBase.maxBytesPerRead.pos).mp (Nat.lt_of_lt_of_le hjk hk)
    have hok := hmode.resolve_left (by omega)
    have hstart : min size (j * 512) = 2 * (256 * j) := by omega
    have hend : min size ((j + 1) * 512) = 2 * (256 * j) + Pieces.length 512 size j := by
      rw [← Pieces.min_add_length, hstart]
    rw [hstart] at hs
    have hread := spiDualReadShot_reads (isDataAccess (flags.setWidth 8)) (Pieces.length 512 size j) hs
    rw [hend]
    refine CallAnswers.of_ok ?_ hread
    have hbuf : j * spiDualBase.maxBytesPerRead.val = 2 * (256 * j) := by
      rw [show spiDualBase.maxBytesPerRead.val = 512 from rfl]
      omega
    rw [hbuf]
    simp only [spiDualStep, spiDualReadShot, hok, Bool.false_eq_true, if_false]
    cases isDataAccess (flags.setWidth 8) <;> rfl

theorem spiDual_readRule_wrong (answer : Bus (Option (BitVec 8)) → Word) (bus : Bus (Option (BitVec 8))) {size : Nat}
    (hmode : spiDualModeError (flags.setWidth 8) = true) :
    ReadRule (spiDualStep answer) spiDualBase flags size (fun _ j s => j = 0 ∧ SpiDualShows s bus.select)
      fun s => SpiDualShows s bus.select where
  request := fun k j s isFirst isLast hs _ _ _ _ _ => CallAnswers.of_ok rfl hs
  result := by
    rintro k j s isFirst isLast ⟨-, hs⟩ hjk hk _ _
    have hshot : spiDualReadShot answer s (flags.setWidth 8) (j * spiDualBase.maxBytesPerRead.val)
        (Pieces.length spiDualBase.maxBytesPerRead.val size j) = (s, -1) := by
      rw [spiDualReadShot, if_pos hmode]
    exact CallAnswers.of_error (congrArg some hshot) (by decide) hs

theorem spiDual_read (answer : Bus (Option (BitVec 8)) → Word) (st : BurstState) (h : SpiDualShows s bus) {size : Nat}
    (hmode : size = 0 ∨ spiDualModeError (flags.setWidth 8) = false) :
    BurstLeads (machineBurst (spiDualStep answer) s fun hooks => ctrlReadBurst spiDualBase hooks st flags size)
      (fun _ => False) fun s' =>
        SpiDualShows s' (leaveBus flags (bus.select.shift
          (List.replicate (spiDualClocks (isDataAccess (flags.setWidth 8)) size) none))) ∧
          (List.range size).map s'.buffer =
            (List.range size).map (spiDualByte answer (isDataAccess (flags.setWidth 8)) bus.select) := by
  refine ctrlReadBurst_leads (spiDual_readRule answer bus hmode) ?_ ?_ fun _ hfalse => hfalse.elim
  · refine spiDual_pre h fun s' hs' => ?_
    rw [Nat.zero_mul, Nat.min_zero]
    refine ⟨?_, fun i hi => absurd hi (Nat.not_lt_zero i)⟩
    rw [spiDualClocks, show (0 + 1) / 2 = 0 from rfl, Nat.mul_zero, List.replicate_zero, Bus.shift_nil]
    exact hs'
  · intro s' isFirst hs'
    have hge : size ≤ Pieces.count spiDualBase.maxBytesPerRead.val size * 512 :=
      Pieces.count_mul_ge spiDualBase.maxBytesPerRead.pos
    rw [Nat.min_eq_left hge] at hs'
    obtain ⟨s'', hstep, hs'', hbuffer⟩ := spiDual_post answer flags hs'.chips (flags.setWidth 8) isFirst false
    refine ⟨_, hstep, hs'', ?_⟩
    rw [hbuffer]
    exact List.map_congr_left fun i hi => hs'.bytes i (List.mem_range.mp hi)

theorem spiDual_read_wrong (answer : Bus (Option (BitVec 8)) → Word) (st : BurstState) (h : SpiDualShows s bus)
    {size : Nat} (hsize : size ≠ 0) (hmode : spiDualModeError (flags.setWidth 8) = true) :
    BurstLeads (machineBurst (spiDualStep answer) s fun hooks => ctrlReadBurst spiDualBase hooks st flags size)
      (fun s' => SpiDualShows s' bus.select.release) fun _ => False := by
  refine ctrlReadBurst_leads (spiDual_readRule_wrong answer bus hmode) ?_ ?_ fun s hs => spiDual_aborted answer hs
  · exact spiDual_pre h fun s' hs' => ⟨rfl, hs'⟩
  · rintro s' isFirst ⟨hcount, -⟩
    have hpos : 0 < Pieces.count spiDualBase.maxBytesPerRead.val size := by
      rw [Pieces.lt_count_iff spiDualBase.maxBytesPerRead.pos]
      omega
    omega

theorem spiDual_burst (answer : Bus (Option (BitVec 8)) → Word) (st : BurstState) (h : SpiDualShows s bus)
    (burst : Burst) :
    ∃ st' s', serveBurst (spiDualStep answer) spiDualBase SpiDualState.buffer st s burst =
        some ((spiDualExec answer bus burst).1, st', s') ∧ SpiDualShows s' (spiDualExec answer bus burst).2 := by
  cases burst with
  | write flags bytes =>
    unfold spiDualExec
    dsimp only
    split_ifs with hwrong
    · obtain ⟨ret, st', s', hserve, ⟨-, hfalse⟩ | ⟨rfl, hs'⟩⟩ :=
        serveBurst_write SpiDualState.buffer (spiDual_write_wrong answer st h hwrong.1 hwrong.2)
      · exact hfalse.elim
      · exact ⟨st', s', hserve, hs'⟩
    · have hmode : bytes = [] ∨ spiDualModeError (flags.setWidth 8) = false := by
        by_cases hnil : bytes = []
        · exact .inl hnil
        · exact .inr (Bool.eq_false_iff.mpr fun hmode => hwrong ⟨hnil, hmode⟩)
      obtain ⟨ret, st', s', hserve, ⟨rfl, hs'⟩ | ⟨-, hfalse⟩⟩ :=
        serveBurst_write SpiDualState.buffer (spiDual_write answer st h hmode)
      · exact ⟨st', s', hserve, hs'⟩
      · exact hfalse.elim
  | read flags size =>
    unfold spiDualExec
    dsimp only
    split_ifs with hwrong
    · obtain ⟨ret, st', s', hserve, ⟨-, hfalse⟩ | ⟨rfl, hs'⟩⟩ :=
        serveBurst_read SpiDualState.buffer (spiDual_read_wrong answer st h hwrong.1 hwrong.2)
      · exact hfalse.elim
      · exact ⟨st', s', hserve, hs'⟩
    · have hmode : size = 0 ∨ spiDualModeError (flags.setWidth 8) = false := by
        by_cases hnil : size = 0
        · exact .inl hnil
        · exact .inr (Bool.eq_false_iff.mpr fun hmode => hwrong ⟨hnil, hmode⟩)
      obtain ⟨ret, st', s', hserve, ⟨rfl, hs', hdata⟩ | ⟨-, hfalse⟩⟩ :=
        serveBurst_read SpiDualState.buffer (spiDual_read answer st h hmode)
      · rw [if_pos rfl, hdata] at hserve
        exact ⟨st', s', hserve, hs'⟩
      · exact hfalse.elim
  | stateChange flags =>
    obtain ⟨s', hstep, hs', -⟩ := spiDual_post answer flags h st.currentBurstFlags st.isFirstShot st.isLastShot
    obtain ⟨st', hserve⟩ := serveBurst_stateChange spiDualBase SpiDualState.buffer hstep
    exact ⟨st', s', hserve, hs'⟩

end MenableDriver
