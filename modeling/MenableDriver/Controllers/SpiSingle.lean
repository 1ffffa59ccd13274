import MenableDriver.Controllers.Bursts
import MenableDriver.Controllers.Spi
import MenableDriver.Data.Frames

/-!
# The SPI controller with a register for the lines

`spi_bs_single_controller.c` drives the lines of the chip itself, each with a bit of the control register. What a
read of the register gives depends on what the chip has taken so far. The waiting time behind a deselection is
not modelled.
-/

namespace MenableDriver

set_option autoImplicit false

open Frames (Lines Chip Bus byteBits ofBits)

def SPI_SCK : Word := 0x00000001#32
def SPI_CEn : Word := 0x00000002#32
def SPI_MOSI : Word := 0x00000004#32
def SPI_WPn : Word := 0x00000008#32
def SPI_OE : Word := 0x00000080#32
def SPI_MISO : Word := 0x00000080#32

/-- `SPI_CHIPSELECT_OFF` and `SPI_CHIPSELECT_ON` of this controller. -/
def spiBsChipselectOff : Word := SPI_CEn
def spiBsChipselectOn : Word := SPI_OE ||| SPI_WPn

/-- What `spi_bs_single_data_transport_init` hands to `controller_base_init`. -/
def spiBsBase : ControllerBase where
  readQueueSize := ⟨1, Nat.one_pos, ShotLimit.one_lt⟩
  maxBytesPerRead := ⟨1, Nat.one_pos, ShotLimit.one_lt⟩
  writeQueueSize := ⟨1, Nat.one_pos, ShotLimit.one_lt⟩
  maxBytesPerWrite := ⟨1, Nat.one_pos, ShotLimit.one_lt⟩

/-- What was written to the control register, and the buffer of a read burst. -/
structure SpiBsState where
  written : List Word
  buffer : Nat → BitVec 8

/-- The lines of the chip for a value of the register. -/
def spiBsLines (value : Word) : Lines Bool :=
  ⟨decide (value &&& SPI_CEn = 0), decide (value &&& SPI_SCK ≠ 0), decide (value &&& SPI_MOSI ≠ 0)⟩

/-- The chip behind the register. -/
def spiBsChip (s : SpiBsState) : Chip Bool := (Chip.idle false).seeAll (s.written.map spiBsLines)

/-- `for (mask = 0x80; mask != 0; mask >>= 1)`. -/
def bitMasks : List (BitVec 8) := (List.range 8).map fun k => 0x80#8 >>> k

def spiBsWriteCtrlRegister (s : SpiBsState) (value : Word) : SpiBsState :=
  { s with written := s.written ++ [value] }

def spiBsSetChipselect (s : SpiBsState) (status : SpiCsStatus) : SpiBsState :=
  match status with
  | .on => spiBsWriteCtrlRegister s spiBsChipselectOn
  | .off => spiBsWriteCtrlRegister s spiBsChipselectOff

def spiBsWriteBit (s : SpiBsState) (data mask : BitVec 8) : SpiBsState :=
  if data &&& mask ≠ 0 then
    let s := spiBsWriteCtrlRegister s (SPI_OE ||| SPI_MOSI)
    let s := spiBsWriteCtrlRegister s (SPI_OE ||| SPI_SCK ||| SPI_MOSI)
    let s := spiBsWriteCtrlRegister s (SPI_OE ||| SPI_SCK ||| SPI_MOSI)
    spiBsWriteCtrlRegister s (SPI_OE ||| SPI_MOSI)
  else
    let s := spiBsWriteCtrlRegister s SPI_OE
    let s := spiBsWriteCtrlRegister s (SPI_OE ||| SPI_SCK)
    let s := spiBsWriteCtrlRegister s (SPI_OE ||| SPI_SCK)
    spiBsWriteCtrlRegister s SPI_OE

/-- A shot has one byte; the assertion for this only warns. -/
def spiBsWriteShot (s : SpiBsState) (bytes : List (BitVec 8)) : SpiBsState :=
  bitMasks.foldl (fun s mask => spiBsWriteBit s (bytes.headD 0) mask) s

variable (answer : Bus Bool → Word)

def spiBsReadCtrlRegister (s : SpiBsState) : Word := answer (spiBsChip s).bus

def spiBsReadBit (r : SpiBsState × BitVec 8) (mask : BitVec 8) : SpiBsState × BitVec 8 :=
  let s := spiBsWriteCtrlRegister r.1 (SPI_OE ||| SPI_MOSI)
  let s := spiBsWriteCtrlRegister s (SPI_OE ||| SPI_SCK ||| SPI_MOSI)
  let val := spiBsReadCtrlRegister answer s
  let s := spiBsWriteCtrlRegister s (SPI_OE ||| SPI_MOSI)
  (s, if val &&& SPI_MISO ≠ 0 then r.2 ||| mask else r.2)

def spiBsReadShot (s : SpiBsState) (buf : Nat) : SpiBsState :=
  let (s, data) := bitMasks.foldl (spiBsReadBit answer) (s, 0)
  { s with buffer := Function.update s.buffer buf data }

/-- The hooks; an abort is not implemented. -/
def spiBsStep (s : SpiBsState) (call : BurstCall) : Option (SpiBsState × Int) :=
  match call.hook with
  | .handlePreBurstFlags _ => some (spiBsSetChipselect s .on, 0)
  | .handlePostBurstFlags flags =>
    if flags &&& SPI_POST_BURST_FLAG_LEAVE_CS_ASSERTED = 0 then some (spiBsSetChipselect s .off, 0)
    else some (s, 0)
  | .writeShot bytes => some (spiBsWriteShot s bytes, 0)
  | .waitForWriteQueueEmpty => some (s, 0)
  | .requestRead _ => some (s, 0)
  | .readShot buf _ => some (spiBsReadShot answer s buf, 0)
  | .burstAborted => some (s, 0)

def spiBsServe (bursts : List Burst) (st : BurstState) (s : SpiBsState) : Option (List Served × SpiBsState) :=
  serveAll (spiBsStep answer) spiBsBase SpiBsState.buffer bursts st s

/-! ### What the controller is for -/

/-- The chip stays selected behind a burst, or its frame is over. -/
def leaveBus {α : Type} (flags : Word) (bus : Bus α) : Bus α :=
  if flags &&& SPI_POST_BURST_FLAG_LEAVE_CS_ASSERTED = 0 then bus.release else bus

/-- The bit that the chip gives while it has taken what the frame has. -/
def misoBit (bus : Bus Bool) : Bool := decide (answer bus &&& SPI_MISO ≠ 0)

/-- The byte `i` of a read burst, from the bits that the chip gives behind each of its clocks. -/
def spiBsByte (bus : Bus Bool) (i : Nat) : BitVec 8 :=
  ofBits ((List.range 8).map fun k => misoBit answer (bus.shift (List.replicate (8 * i + (k + 1)) true)))

/-- The bytes of a write burst go into the frame with their most significant bits first. A read burst takes its
bytes from the chip, and the chip gets ones. -/
def spiBsExec (bus : Bus Bool) : Burst → Served × Bus Bool
  | .write flags bytes => (⟨STATUS_OK, []⟩, leaveBus flags (bus.select.shift (bytes.flatMap byteBits)))
  | .read flags size =>
    (⟨STATUS_OK, (List.range size).map (spiBsByte answer bus.select)⟩,
      leaveBus flags (bus.select.shift (List.replicate (8 * size) true)))
  | .stateChange flags => (⟨STATUS_OK, []⟩, leaveBus flags bus)

/-- The clock rests low, and the chip has taken this. -/
structure SpiBsShows (s : SpiBsState) (bus : Bus Bool) : Prop where
  clock : (spiBsChip s).clock = false
  bus : (spiBsChip s).bus = bus

variable {answer} {s : SpiBsState} {bus : Bus Bool} {st : BurstState} {flags : Word}

/-! ### The lines -/

theorem spiBsChip_write (value : Word) :
    spiBsChip (spiBsWriteCtrlRegister s value) = (spiBsChip s).see (spiBsLines value) := by
  rw [spiBsChip, spiBsWriteCtrlRegister, List.map_append, Frames.seeAll_append]
  rfl

theorem spiBsLines_low (bit : Bool) :
    spiBsLines (if bit then SPI_OE ||| SPI_MOSI else SPI_OE) = ⟨true, false, bit⟩ := by
  revert bit
  decide

theorem spiBsLines_high (bit : Bool) :
    spiBsLines (if bit then SPI_OE ||| SPI_SCK ||| SPI_MOSI else SPI_OE ||| SPI_SCK) = ⟨true, true, bit⟩ := by
  revert bit
  decide

theorem SpiBsShows.select (h : SpiBsShows s bus) : SpiBsShows (spiBsSetChipselect s .on) bus.select := by
  have hlines : spiBsLines spiBsChipselectOn = ⟨true, false, false⟩ := by decide
  have hchip : spiBsChip (spiBsSetChipselect s .on) = (spiBsChip s).see ⟨true, false, false⟩ := by
    rw [← hlines]
    exact spiBsChip_write _
  constructor
  · rw [hchip, Frames.see_clock]
  · rw [hchip, Frames.bus_see_select rfl (.inr rfl), h.bus]

theorem SpiBsShows.release (h : SpiBsShows s bus) : SpiBsShows (spiBsSetChipselect s .off) bus.release := by
  have hlines : spiBsLines spiBsChipselectOff = ⟨false, false, false⟩ := by decide
  have hchip : spiBsChip (spiBsSetChipselect s .off) = (spiBsChip s).see ⟨false, false, false⟩ := by
    rw [← hlines]
    exact spiBsChip_write _
  constructor
  · rw [hchip, Frames.see_clock]
  · rw [hchip, Frames.bus_see_release rfl, h.bus]

theorem SpiBsShows.selected (h : SpiBsShows s bus) (hbus : bus.current.isSome = true) :
    (spiBsChip s).selected = true := by
  rw [← Frames.bus_isSome, h.bus, hbus]

/-- The clock goes up, with a bit on the line. -/
theorem SpiBsShows.rise (h : SpiBsShows s bus) (hbus : bus.current.isSome = true) (bit : Bool) :
    (((spiBsChip s).see ⟨true, false, bit⟩).see ⟨true, true, bit⟩).bus = bus.shift [bit] := by
  rw [Frames.bus_see_period (h.selected hbus), h.bus]

/-- The clock comes back from a bit that was taken. -/
theorem spiBsShows_fall {c : Chip Bool} (hchip : spiBsChip s = c.see ⟨true, false, true⟩ ∨
      spiBsChip s = c.see ⟨true, false, false⟩) (hc : c.selected = true) (hbus : c.bus = bus) : SpiBsShows s bus := by
  rcases hchip with hchip | hchip <;> exact
    ⟨by rw [hchip, Frames.see_clock], by rw [hchip, Frames.bus_see_still hc rfl (.inr rfl), hbus]⟩

/-- Writing a bit, whichever it is. -/
theorem spiBsWriteBit_eq (s : SpiBsState) (data mask : BitVec 8) :
    spiBsWriteBit s data mask =
      let bit := decide (data &&& mask ≠ 0)
      let low := if bit then SPI_OE ||| SPI_MOSI else SPI_OE
      let high := if bit then SPI_OE ||| SPI_SCK ||| SPI_MOSI else SPI_OE ||| SPI_SCK
      spiBsWriteCtrlRegister (spiBsWriteCtrlRegister (spiBsWriteCtrlRegister (spiBsWriteCtrlRegister s low) high)
        high) low := by
  unfold spiBsWriteBit
  by_cases hbit : data &&& mask ≠ 0
  · simp only [hbit, if_pos, decide_true, not_false_eq_true, ne_eq]
  · simp only [hbit, decide_false, if_false, Bool.false_eq_true]

theorem SpiBsShows.writeBit (h : SpiBsShows s bus) (hbus : bus.current.isSome = true) (data mask : BitVec 8) :
    SpiBsShows (spiBsWriteBit s data mask) (bus.shift [decide (data &&& mask ≠ 0)]) := by
  rw [spiBsWriteBit_eq]
  dsimp only
  generalize decide (data &&& mask ≠ 0) = bit
  have hchip : spiBsChip (spiBsWriteCtrlRegister (spiBsWriteCtrlRegister (spiBsWriteCtrlRegister
      (spiBsWriteCtrlRegister s (if bit then SPI_OE ||| SPI_MOSI else SPI_OE))
      (if bit then SPI_OE ||| SPI_SCK ||| SPI_MOSI else SPI_OE ||| SPI_SCK))
      (if bit then SPI_OE ||| SPI_SCK ||| SPI_MOSI else SPI_OE ||| SPI_SCK))
      (if bit then SPI_OE ||| SPI_MOSI else SPI_OE)) =
      (((spiBsChip s).see ⟨true, false, bit⟩).see ⟨true, true, bit⟩).see ⟨true, false, bit⟩ := by
    rw [spiBsChip_write, spiBsChip_write, spiBsChip_write, spiBsChip_write, spiBsLines_low, spiBsLines_high,
      Frames.see_see]
  refine spiBsShows_fall ?_ ?_ (h.rise hbus bit)
  · rw [hchip]
    cases bit
    · exact .inr rfl
    · exact .inl rfl
  · rw [Frames.see_selected]

/-- The bits of a byte, one after the other. -/
theorem SpiBsShows.writeBits (data : BitVec 8) (masks : List (BitVec 8)) : ∀ s bus, SpiBsShows s bus →
    bus.current.isSome = true → SpiBsShows (masks.foldl (fun s mask => spiBsWriteBit s data mask) s)
      (bus.shift (masks.map fun mask => decide (data &&& mask ≠ 0))) := by
  induction masks with
  | nil =>
    intro s bus h _
    rw [List.map_nil, Bus.shift_nil]
    exact h
  | cons mask masks ih =>
    intro s bus h hbus
    have hrest := ih _ _ (h.writeBit hbus data mask) (by rw [Bus.shift_isSome]; exact hbus)
    rw [Bus.shift_shift] at hrest
    exact hrest

theorem byteBits_masks (data : BitVec 8) : (bitMasks.map fun mask => decide (data &&& mask ≠ 0)) = byteBits data := by
  revert data
  decide

theorem SpiBsShows.writeShot (h : SpiBsShows s bus) (hbus : bus.current.isSome = true) (bytes : List (BitVec 8)) :
    SpiBsShows (spiBsWriteShot s bytes) (bus.shift (byteBits (bytes.headD 0))) := by
  rw [← byteBits_masks]
  exact SpiBsShows.writeBits _ bitMasks s bus h hbus

/-! ### Reading -/

/-- The bits that are read with the masks from the mask `k` on. -/
def readBits (answer : Bus Bool → Word) (bus : Bus Bool) (k n : Nat) (data : BitVec 8) : BitVec 8 :=
  (List.range' k n).foldl (fun data i =>
    if misoBit answer (bus.shift (List.replicate (i + 1) true)) then data ||| 0x80#8 >>> i else data) data

theorem SpiBsShows.readBit (answer : Bus Bool → Word) (h : SpiBsShows s bus) (hbus : bus.current.isSome = true) (data mask : BitVec 8) :
    SpiBsShows (spiBsReadBit answer (s, data) mask).1 (bus.shift [true]) ∧
      (spiBsReadBit answer (s, data) mask).2 =
        (if misoBit answer (bus.shift [true]) then data ||| mask else data) ∧
      (spiBsReadBit answer (s, data) mask).1.buffer = s.buffer := by
  have hhigh : spiBsChip (spiBsWriteCtrlRegister (spiBsWriteCtrlRegister s (SPI_OE ||| SPI_MOSI))
      (SPI_OE ||| SPI_SCK ||| SPI_MOSI)) = ((spiBsChip s).see ⟨true, false, true⟩).see ⟨true, true, true⟩ := by
    rw [spiBsChip_write, spiBsChip_write]
    rfl
  have hrise := h.rise hbus true
  refine ⟨spiBsShows_fall (.inl ?_) ?_ hrise, ?_, rfl⟩
  · rw [← hhigh]
    exact spiBsChip_write _
  · rw [Frames.see_selected]
  · simp only [spiBsReadBit, spiBsReadCtrlRegister, hhigh, hrise, misoBit, decide_eq_true_eq]

theorem SpiBsShows.readBits (answer : Bus Bool → Word) (n : Nat) : ∀ k s data, SpiBsShows s (bus.shift (List.replicate k true)) →
    bus.current.isSome = true →
    SpiBsShows (((List.range' k n).map fun i => 0x80#8 >>> i).foldl (spiBsReadBit answer) (s, data)).1
        (bus.shift (List.replicate (k + n) true)) ∧
      (((List.range' k n).map fun i => 0x80#8 >>> i).foldl (spiBsReadBit answer) (s, data)).2 =
        readBits answer bus k n data ∧
      (((List.range' k n).map fun i => 0x80#8 >>> i).foldl (spiBsReadBit answer) (s, data)).1.buffer = s.buffer := by
  induction n with
  | zero => exact fun k s data h _ => ⟨h, rfl, rfl⟩
  | succ n ih =>
    intro k s data h hbus
    obtain ⟨hshows, hdata, hbuffer⟩ := h.readBit answer (by rw [Bus.shift_isSome]; exact hbus) data
      (0x80#8 >>> k)
    rw [Bus.shift_shift, ← List.replicate_succ'] at hshows hdata
    obtain ⟨hshows', hdata', hbuffer'⟩ := ih (k + 1) _ (spiBsReadBit answer (s, data) (0x80#8 >>> k)).2 hshows hbus
    rw [List.range'_succ, List.map_cons, List.foldl_cons]
    refine ⟨?_, ?_, hbuffer'.trans hbuffer⟩
    · rw [Nat.add_assoc, Nat.add_comm 1 n] at hshows'
      exact hshows'
    · rw [hdata', hdata, MenableDriver.readBits, MenableDriver.readBits, List.range'_succ, List.foldl_cons]

/-- Setting the bits one by one, with any of them set. -/
theorem foldl_masks (bit : Nat → Bool) :
    (List.range' 0 8).foldl (fun data i => if bit i then data ||| 0x80#8 >>> i else data) 0#8 =
      ofBits ((List.range 8).map bit) := by
  have hall : ∀ b₀ b₁ b₂ b₃ b₄ b₅ b₆ b₇ : Bool,
      (List.range' 0 8).foldl (fun data i =>
        if [b₀, b₁, b₂, b₃, b₄, b₅, b₆, b₇].getD i false then data ||| 0x80#8 >>> i else data) 0#8 =
        ofBits [b₀, b₁, b₂, b₃, b₄, b₅, b₆, b₇] := by decide
  exact hall (bit 0) (bit 1) (bit 2) (bit 3) (bit 4) (bit 5) (bit 6) (bit 7)

theorem SpiBsShows.readShot (answer : Bus Bool → Word) {i : Nat} (h : SpiBsShows s (bus.shift (List.replicate (8 * i) true)))
    (hbus : bus.current.isSome = true) :
    SpiBsShows (spiBsReadShot answer s i) (bus.shift (List.replicate (8 * (i + 1)) true)) ∧
      (spiBsReadShot answer s i).buffer = Function.update s.buffer i (spiBsByte answer bus i) := by
  have hmasks : bitMasks = (List.range' 0 8).map fun i => 0x80#8 >>> i := rfl
  have hstart : SpiBsShows s ((bus.shift (List.replicate (8 * i) true)).shift (List.replicate 0 true)) := by
    rw [List.replicate_zero, Bus.shift_nil]
    exact h
  obtain ⟨hshows, hdata, hbuffer⟩ := SpiBsShows.readBits answer 8 0 s 0 hstart
    (by rw [Bus.shift_isSome]; exact hbus)
  rw [Bus.shift_shift, List.replicate_append_replicate] at hshows
  constructor
  · exact ⟨hshows.clock, hshows.bus⟩
  · simp only [spiBsReadShot, hmasks, hdata, hbuffer]
    have hbyte := foldl_masks fun k => misoBit answer (bus.shift (List.replicate (8 * i + (k + 1)) true))
    simp only [MenableDriver.readBits, Bus.shift_shift, List.replicate_append_replicate]
    exact congrArg (Function.update s.buffer i) hbyte

/-! ### Bursts -/

theorem spiBs_pre (h : SpiBsShows s bus) {isFirst isLast : Bool} {E Q : SpiBsState → Prop}
    (hQ : ∀ s', SpiBsShows s' bus.select → s'.buffer = s.buffer → Q s') :
    CallAnswers (spiBsStep answer) s ⟨.handlePreBurstFlags flags, flags.setWidth 8, isFirst, isLast⟩ E Q :=
  CallAnswers.of_ok rfl (hQ _ h.select rfl)

theorem spiBs_post (answer : Bus Bool → Word) (flags : Word) (h : SpiBsShows s bus) (currentBurstFlags : BitVec 8) (isFirst isLast : Bool) :
    ∃ s', spiBsStep answer s ⟨.handlePostBurstFlags flags, currentBurstFlags, isFirst, isLast⟩ = some (s', 0) ∧
      SpiBsShows s' (leaveBus flags bus) ∧ s'.buffer = s.buffer := by
  unfold spiBsStep leaveBus
  dsimp only
  split_ifs
  · exact ⟨_, rfl, h.release, rfl⟩
  · exact ⟨_, rfl, h, rfl⟩

/-- What is left of a write burst goes with what the chip has taken of it. -/
def SpiBsWriting (bus : Bus Bool) (buf : List (BitVec 8)) (bytes : List (BitVec 8)) (s : SpiBsState) : Prop :=
  ∃ sent, sent ++ bytes = buf ∧ SpiBsShows s (bus.select.shift (sent.flatMap byteBits))

theorem spiBs_writeRule (bus : Bus Bool) (buf : List (BitVec 8)) :
    WriteRule (spiBsStep answer) spiBsBase flags buf.length (SpiBsWriting bus buf) fun _ => False where
  shot := by
    rintro bytes s hpos ⟨sent, hsent, hs⟩
    cases bytes with
    | nil => exact absurd hpos (Nat.lt_irrefl 0)
    | cons byte bytes =>
      refine CallAnswers.of_ok rfl ⟨sent ++ [byte], ?_, ?_⟩
      · rw [List.append_assoc]
        exact hsent
      · have hshot := hs.writeShot (by rw [Bus.shift_isSome]; rfl) [byte]
        rw [Bus.shift_shift] at hshot
        rw [List.flatMap_append, List.flatMap_singleton]
        exact hshot
  wait := fun bytes s isFirst isLast hs => CallAnswers.of_ok rfl hs

theorem spiBs_write (answer : Bus Bool → Word) (st : BurstState) (flags : Word) (h : SpiBsShows s bus)
    (buf : List (BitVec 8)) :
    BurstLeads (machineBurst (spiBsStep answer) s fun hooks => ctrlWriteBurst spiBsBase hooks st flags buf)
      (fun _ => False) fun s' => SpiBsShows s' (leaveBus flags (bus.select.shift (buf.flatMap byteBits))) := by
  refine ctrlWriteBurst_leads (spiBs_writeRule bus buf) ?_ ?_ fun _ hfalse => hfalse.elim
  · refine spiBs_pre h fun s' hs' _ => ⟨[], rfl, ?_⟩
    rw [List.flatMap_nil, Bus.shift_nil]
    exact hs'
  · rintro s' isFirst ⟨sent, hsent, hs'⟩
    rw [List.append_nil] at hsent
    rw [← hsent]
    obtain ⟨s'', hstep, hs'', -⟩ := spiBs_post answer flags hs' (flags.setWidth 8) isFirst false
    exact ⟨_, hstep, hs''⟩

/-- The first `j` bytes are read. -/
structure SpiBsReading (answer : Bus Bool → Word) (bus : Bus Bool) (j : Nat) (s : SpiBsState) : Prop where
  shows' : SpiBsShows s (bus.select.shift (List.replicate (8 * j) true))
  bytes : ∀ i < j, s.buffer i = spiBsByte answer bus.select i

theorem SpiBsReading.next {j : Nat} (h : SpiBsReading answer bus j s) :
    SpiBsReading answer bus (j + 1) (spiBsReadShot answer s j) := by
  obtain ⟨hshows, hbuffer⟩ := h.shows'.readShot answer rfl
  refine ⟨hshows, fun i hi => ?_⟩
  rw [hbuffer]
  by_cases hij : i = j
  · rw [hij, Function.update_self]
  · rw [Function.update_of_ne hij]
    exact h.bytes i (by omega)

theorem spiBs_readRule (bus : Bus Bool) (size : Nat) :
    ReadRule (spiBsStep answer) spiBsBase flags size (fun _ j => SpiBsReading answer bus j) fun _ => False where
  request := fun k j s isFirst isLast hs _ _ _ _ _ => CallAnswers.of_ok rfl hs
  result := by
    intro k j s isFirst isLast hs _ _ _ _
    refine CallAnswers.of_ok rfl ?_
    rw [show j * spiBsBase.maxBytesPerRead.val = j from Nat.mul_one j]
    exact hs.next

theorem spiBs_read (answer : Bus Bool → Word) (st : BurstState) (flags : Word) (h : SpiBsShows s bus)
    (size : Nat) :
    BurstLeads (machineBurst (spiBsStep answer) s fun hooks => ctrlReadBurst spiBsBase hooks st flags size)
      (fun _ => False) fun s' =>
        SpiBsShows s' (leaveBus flags (bus.select.shift (List.replicate (8 * size) true))) ∧
          (List.range size).map s'.buffer = (List.range size).map (spiBsByte answer bus.select) := by
  have hcount : Pieces.count spiBsBase.maxBytesPerRead.val size = size := by
    simp [Pieces.count, spiBsBase]
  refine ctrlReadBurst_leads (spiBs_readRule bus size) ?_ ?_ fun _ hfalse => hfalse.elim
  · refine spiBs_pre h fun s' hs' _ => ⟨?_, fun i hi => absurd hi (Nat.not_lt_zero i)⟩
    rw [Nat.mul_zero, List.replicate_zero, Bus.shift_nil]
    exact hs'
  · intro s' isFirst hs'
    rw [hcount] at hs'
    obtain ⟨s'', hstep, hs'', hbuffer⟩ :=
      spiBs_post answer flags hs'.shows' (flags.setWidth 8) isFirst false
    refine ⟨_, hstep, hs'', ?_⟩
    rw [hbuffer]
    exact List.map_congr_left fun i hi => hs'.bytes i (List.mem_range.mp hi)

theorem spiBs_burst (h : SpiBsShows s bus) (burst : Burst) :
    ∃ st' s', serveBurst (spiBsStep answer) spiBsBase SpiBsState.buffer st s burst =
        some ((spiBsExec answer bus burst).1, st', s') ∧ SpiBsShows s' (spiBsExec answer bus burst).2 := by
  cases burst with
  | write flags bytes =>
    obtain ⟨ret, st', s', hserve, ⟨rfl, hs'⟩ | ⟨-, hfalse⟩⟩ :=
      serveBurst_write SpiBsState.buffer (spiBs_write answer st flags h bytes)
    · exact ⟨st', s', hserve, hs'⟩
    · exact hfalse.elim
  | read flags size =>
    obtain ⟨ret, st', s', hserve, ⟨rfl, hs', hdata⟩ | ⟨-, hfalse⟩⟩ :=
      serveBurst_read SpiBsState.buffer (spiBs_read answer st flags h size)
    · rw [if_pos rfl, hdata] at hserve
      exact ⟨st', s', hserve, hs'⟩
    · exact hfalse.elim
  | stateChange flags =>
    obtain ⟨s', hstep, hs', -⟩ := spiBs_post answer flags h st.currentBurstFlags st.isFirstShot
      st.isLastShot
    obtain ⟨st', hserve⟩ := serveBurst_stateChange spiBsBase SpiBsState.buffer hstep
    exact ⟨st', s', hserve, hs'⟩

/-- In every run of bursts each of them succeeds, the chip gets the bytes of the write bursts with the most
significant bits first and in frames as the flags say, and the read bursts get what the chip gives. -/
theorem spiBsServe_refines (answer : Bus Bool → Word) (bursts : List Burst) (st : BurstState)
    (buffer : Nat → BitVec 8) :
    ∃ s', spiBsServe answer bursts st ⟨[], buffer⟩ = some ((execAll (spiBsExec answer) Bus.idle bursts).1, s') ∧
      (spiBsChip s').bus = (execAll (spiBsExec answer) Bus.idle bursts).2 := by
  have hstart : SpiBsShows ⟨[], buffer⟩ Bus.idle := ⟨rfl, rfl⟩
  obtain ⟨s', hserve, hs'⟩ := serveAll_refines (R := SpiBsShows)
    (fun st s b burst h => spiBs_burst h burst) bursts st _ _ hstart
  exact ⟨s', hserve, hs'.bus⟩

end MenableDriver
