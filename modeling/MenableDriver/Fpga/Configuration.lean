import MenableDriver.Fpga.Mcap

/-!
# The configuration of a board

An mE6 is brought up when its FPGA has a design: the register interface is there then, and the peripherals are
initialised. A call configures the FPGA anew, another one looks how the board is, and the driver marks a board as
dead whose registers read as all ones. The peripherals and the interrupts are followed through all of these.
-/

namespace MenableDriver

set_option autoImplicit false

def ENOMEM : Int := 12

/-- `enum men_board_state`, in its order. -/
inductive BoardState
  | unknown | uninitialised | dead | sleeping | reconfiguring | ready | configured | active
deriving DecidableEq

def BoardState.number : BoardState → Nat
  | .unknown => 0
  | .uninitialised => 1
  | .dead => 2
  | .sleeping => 3
  | .reconfiguring => 4
  | .ready => 5
  | .configured => 6
  | .active => 7

def BoardState.le (s t : BoardState) : Bool := decide (s.number ≤ t.number)

def BoardState.isReady (s : BoardState) : Bool := BoardState.ready.le s

/-- `> BOARD_STATE_UNINITIALISED`. -/
def BoardState.isUp (s : BoardState) : Bool := BoardState.dead.le s

/-- A call of one of the functions of the board for its peripherals and its interrupts. -/
inductive PeripheralCall
  | init (ret : Int)
  | cleanup | start | stop | startIrq | stopIrq
deriving DecidableEq

structure Me6Board where
  state : BoardState
  interfaceActive : Bool
  configEx : Word
  calls : List PeripheralCall
  mcap : List McapAccess

/-- What is not in the hands of the driver in a call: the registers, and the result of `men_add_dmas`. -/
structure BoardAnswers where
  device : McapDevice
  boardId : Word
  menAddDmas : Int

def Me6Board.call (b : Me6Board) (c : PeripheralCall) : Me6Board := { b with calls := b.calls ++ [c] }

/-- A board that comes up gets its DMA channels. -/
def menSetState (answers : BoardAnswers) (b : Me6Board) (state : BoardState) : Int × Me6Board :=
  if state = .unknown then (-EINVAL, b)
  else if state = b.state then (0, b)
  else
    let ret := if b.state.isReady = false ∧ state.isReady = true then answers.menAddDmas else 0
    (ret, if ret = 0 then { b with state } else b)

/-- All bits are read as ones where there is no device. -/
def noDevice : Word := 0xffffffff#32

/-- The branch for a board that is not there or has no design. -/
def boardNotFound (answers : BoardAnswers) (ret : Int) (b : Me6Board) : Int × Me6Board :=
  if b.state.isUp then menSetState answers b .dead
  else if b.state ≠ .uninitialised then menSetState answers b .uninitialised
  else (ret, b)

def boardFound (answers : BoardAnswers) (ret : Int) (b : Me6Board) : Int × Me6Board :=
  if b.state.isReady then (ret, b) else menSetState answers b .ready

def me6UpdateBoardStatus (answers : BoardAnswers) (b : Me6Board) : Int × Me6Board :=
  let ((ret, ctrl), mcap) := mCapRegRead answers.device b.mcap MCAP_CONTROL
  let b : Me6Board :=
    if ret = 0 ∧ ctrl &&& MCAP_CTRL_DESIGN_SWITCH_MASK ≠ 0 then
      { b with mcap, interfaceActive := true, configEx := answers.boardId }
    else { b with mcap, configEx := noDevice }
  if b.configEx = noDevice ∨ b.configEx = 0 then boardNotFound answers ret { b with interfaceActive := false }
  else boardFound answers ret b

def me6StartIrq (b : Me6Board) : Me6Board := if b.state.isReady then b.call .startIrq else b

def CONFIGURE_ME6_BITSTREAM_TYPE_MASK : Word := 1#32
def CONFIGURE_ME6_PARTIAL_BITSTREAM : Word := 0#32
def CONFIGURE_ME6_FULL_BITSTREAM : Word := 1#32
def CONFIGURE_ME6_DESIGN_SWITCH : Word := 2#32
def CONFIGURE_ME6_SWAP_BYTES : Word := 4#32

/-- `sizeof(struct men_configure_fpga)`. -/
def menConfigureFpgaSize : Nat := 24

/-- The arguments of `IOCTL_EX_CONFIGURE_FPGA`, and what happens in it. -/
structure ConfigureCall where
  answers : BoardAnswers
  size : Nat
  headerCopied : Bool
  headerSize : Word
  version : Word
  flags : Word
  length : Word
  vmalloc : Bool
  dataCopied : Bool
  userWord : Nat → Word
  /-- The result of the write that switches the design. -/
  switchWritten : Int
  initPeripherals : Int

/-- The words of the bitstream; what is behind the last whole one is left out. -/
def ConfigureCall.data (c : ConfigureCall) : List Word := (List.range (c.length.toNat / 4)).map c.userWord

def ConfigureCall.isPartial (c : ConfigureCall) : Bool :=
  decide (c.flags &&& CONFIGURE_ME6_BITSTREAM_TYPE_MASK = CONFIGURE_ME6_PARTIAL_BITSTREAM)

def ConfigureCall.swapBytes (c : ConfigureCall) : Bool := decide (c.flags &&& CONFIGURE_ME6_SWAP_BYTES ≠ 0)

def ConfigureCall.designSwitch (c : ConfigureCall) : Bool := decide (c.flags &&& CONFIGURE_ME6_DESIGN_SWITCH ≠ 0)

def takeDown (b : Me6Board) : Me6Board :=
  if b.state.isUp then { ((b.call .stop).call .stopIrq).call .cleanup with state := .uninitialised } else b

/-- There is only one bitstream for a device. -/
def writeBitstream (c : ConfigureCall) (b : Me6Board) : Int × Me6Board :=
  let (ret, mcap) :=
    if c.isPartial then mCapWritePartialBitStream c.answers.device c.data c.swapBytes b.mcap
    else mCapWriteBitStream c.answers.device false c.data c.swapBytes b.mcap
  (ret, { b with mcap })

def switchDesign (c : ConfigureCall) (b : Me6Board) : Int × Me6Board :=
  let ((ret, ctrl), mcap) := mCapRegRead c.answers.device b.mcap MCAP_CONTROL
  if ret = 0 then
    (c.switchWritten, { b with mcap := mCapRegWrite mcap MCAP_CONTROL (ctrl ||| MCAP_CTRL_DESIGN_SWITCH_MASK) })
  else (ret, { b with mcap })

def bringUp (c : ConfigureCall) (b : Me6Board) : Int × Me6Board :=
  if b.state.isReady then
    let b := b.call (.init c.initPeripherals)
    if c.initPeripherals = 0 then (0, (me6StartIrq b).call .start) else (-EFAULT, b)
  else (0, b)

def writeAndSwitch (c : ConfigureCall) (b : Me6Board) : Int × Me6Board :=
  let r := writeBitstream c b
  if r.1 = 0 ∧ c.designSwitch then switchDesign c r.2 else r

/-- Nothing more is done behind an error. -/
def updateAndBringUp (c : ConfigureCall) (r : Int × Me6Board) : Int × Me6Board :=
  if r.1 = 0 then
    let r := me6UpdateBoardStatus c.answers r.2
    if r.1 = 0 then bringUp c r.2 else r
  else r

/-- What is done once the data is there. -/
def configureFpgaData (c : ConfigureCall) (b : Me6Board) : Int × Me6Board :=
  updateAndBringUp c (writeAndSwitch c (takeDown b))

def configureFpga (c : ConfigureCall) (b : Me6Board) : Int × Me6Board :=
  if c.size < menConfigureFpgaSize then (-EINVAL, b)
  else if !c.headerCopied then (-EFAULT, b)
  else if c.headerSize.toNat < menConfigureFpgaSize ∨ c.version < 1#32 ∨ c.length = 0 then (-EINVAL, b)
  else if !c.vmalloc then (-ENOMEM, b)
  else if !c.dataCopied then (-EFAULT, b)
  else configureFpgaData c b

/-- What happens to a board: a call configures it or looks at its status, or an interrupt or a DMA channel finds
its registers dead. -/
inductive BoardEvent
  | configureFpga (c : ConfigureCall)
  | getDeviceStatus (answers : BoardAnswers)
  | markDead (answers : BoardAnswers)

def Me6Board.step (b : Me6Board) : BoardEvent → Me6Board
  | .configureFpga c => (MenableDriver.configureFpga c b).2
  | .getDeviceStatus answers => (me6UpdateBoardStatus answers b).2
  | .markDead answers => (menSetState answers b .dead).2

/-- The end of `me6_probe`; a board whose probe fails is not there. -/
def me6ProbeBoard (answers : BoardAnswers) (initPeripherals : Int) : Option Me6Board :=
  let b : Me6Board := ⟨.unknown, false, 0, [], []⟩
  let (ret, mcap) := mCapFullReset answers.device b.mcap
  if ret ≠ 0 then none
  else
    let (ret, b) := me6UpdateBoardStatus answers { b with mcap }
    if ret ≠ 0 then none
    else if b.state.isReady then
      let b := b.call (.init initPeripherals)
      if menIsError initPeripherals then none
      else if initPeripherals = 0 then some ((me6StartIrq b).call .start)
      else some b
    else some b

/-! ### The peripherals -/

/-- The last one of the calls that initialise the peripherals or clean them up initialises them. -/
def peripheralsUp (calls : List PeripheralCall) : Bool :=
  calls.foldl (fun on c =>
    match c with
    | .init _ => true
    | .cleanup => false
    | _ => on) false

def irqStarted (calls : List PeripheralCall) : Bool :=
  calls.foldl (fun on c =>
    match c with
    | .startIrq => true
    | .stopIrq => false
    | _ => on) false

/-- The peripherals are not initialised when they already are. -/
def InitialisedOnce (calls : List PeripheralCall) : Prop :=
  ∀ before ret, before ++ [.init ret] <+: calls → peripheralsUp before = false

/-- Only what was initialised is cleaned up. -/
def CleanedOnce (calls : List PeripheralCall) : Prop :=
  ∀ before, before ++ [.cleanup] <+: calls → peripheralsUp before = true

theorem initialisedOnce_concat {calls : List PeripheralCall} {c : PeripheralCall} (h : InitialisedOnce calls)
    (hc : ∀ ret, c = .init ret → peripheralsUp calls = false) : InitialisedOnce (calls ++ [c]) := by
  intro before ret hpre
  rcases List.prefix_concat_iff.mp hpre with heq | hpre
  · obtain ⟨rfl, hlast⟩ := List.append_inj' heq rfl
    exact hc ret (List.singleton_inj.mp hlast).symm
  · exact h before ret hpre

theorem cleanedOnce_concat {calls : List PeripheralCall} {c : PeripheralCall} (h : CleanedOnce calls)
    (hc : c = .cleanup → peripheralsUp calls = true) : CleanedOnce (calls ++ [c]) := by
  intro before hpre
  rcases List.prefix_concat_iff.mp hpre with heq | hpre
  · obtain ⟨rfl, hlast⟩ := List.append_inj' heq rfl
    exact hc (List.singleton_inj.mp hlast).symm
  · exact h before hpre

theorem peripheralsUp_concat (calls : List PeripheralCall) (c : PeripheralCall) :
    peripheralsUp (calls ++ [c]) = match c with | .init _ => true | .cleanup => false | _ => peripheralsUp calls := by
  rw [peripheralsUp, List.foldl_append]
  cases c <;> rfl

theorem irqStarted_concat (calls : List PeripheralCall) (c : PeripheralCall) :
    irqStarted (calls ++ [c]) = match c with | .startIrq => true | .stopIrq => false | _ => irqStarted calls := by
  rw [irqStarted, List.foldl_append]
  cases c <;> rfl

/-! ### What the calls do -/

/-- The board is found with a design in its FPGA. -/
def Me6Board.Found (b : Me6Board) (answers : BoardAnswers) : Prop :=
  ((answers.device b.mcap MCAP_CONTROL).1 = 0 ∧
      (answers.device b.mcap MCAP_CONTROL).2 &&& MCAP_CTRL_DESIGN_SWITCH_MASK ≠ 0) ∧
    answers.boardId ≠ noDevice ∧ answers.boardId ≠ 0

instance (b : Me6Board) (answers : BoardAnswers) : Decidable (b.Found answers) :=
  inferInstanceAs (Decidable (_ ∧ _))

variable {answers : BoardAnswers} {b b' : Me6Board} {c : ConfigureCall}

theorem menSetState_down {state : BoardState} (hstate : state ≠ .unknown) (hdown : state.isReady = false)
    (answers : BoardAnswers) (b : Me6Board) : menSetState answers b state = (0, { b with state }) := by
  unfold menSetState
  rw [if_neg hstate]
  by_cases heq : state = b.state
  · rw [if_pos heq, heq]
  · rw [if_neg heq, if_neg (by rintro ⟨-, hready⟩; exact absurd (hdown.symm.trans hready) Bool.false_ne_true)]
    rfl

theorem menSetState_ready (hdown : b.state.isReady = false) :
    menSetState answers b .ready =
      (answers.menAddDmas, if answers.menAddDmas = 0 then { b with state := .ready } else b) := by
  have hne : BoardState.ready ≠ b.state := by
    intro heq
    rw [← heq] at hdown
    exact absurd hdown (by decide)
  unfold menSetState
  rw [if_neg (by decide), if_neg hne, if_pos ⟨hdown, rfl⟩]

theorem boardNotFound_spec (answers : BoardAnswers) (ret : Int) (b : Me6Board) :
    (boardNotFound answers ret b).2 = { b with state := if b.state.isUp then .dead else .uninitialised } := by
  unfold boardNotFound
  by_cases hup : b.state.isUp = true
  · rw [if_pos hup, if_pos hup, menSetState_down (by decide) rfl]
  · rw [if_neg hup, if_neg hup]
    by_cases hstate : b.state = .uninitialised
    · rw [if_neg (not_not.mpr hstate), ← hstate]
    · rw [if_pos hstate, menSetState_down (by decide) rfl]

/-- What a board is found to be, and what becomes of its state. -/
theorem me6UpdateBoardStatus_spec (answers : BoardAnswers) (b : Me6Board) :
    (me6UpdateBoardStatus answers b).2.calls = b.calls ∧
    (¬b.Found answers ∧ (me6UpdateBoardStatus answers b).2.state = (if b.state.isUp then .dead else .uninitialised) ∨
      b.Found answers ∧ b.state.isReady = true ∧ (me6UpdateBoardStatus answers b).1 = 0 ∧
        (me6UpdateBoardStatus answers b).2.state = b.state ∨
      b.Found answers ∧ b.state.isReady = false ∧ (me6UpdateBoardStatus answers b).1 = answers.menAddDmas ∧
        (me6UpdateBoardStatus answers b).2.state = if answers.menAddDmas = 0 then .ready else b.state) := by
  have hnot : ∀ ret (b₁ : Me6Board), b₁.calls = b.calls → b₁.state = b.state →
      (boardNotFound answers ret b₁).2.calls = b.calls ∧
        (boardNotFound answers ret b₁).2.state = if b.state.isUp then .dead else .uninitialised := by
    intro ret b₁ hcalls hstate
    rw [boardNotFound_spec]
    exact ⟨hcalls, by rw [hstate]⟩
  unfold me6UpdateBoardStatus mCapRegRead
  dsimp only
  by_cases hswitch : (answers.device b.mcap MCAP_CONTROL).1 = 0 ∧
      (answers.device b.mcap MCAP_CONTROL).2 &&& MCAP_CTRL_DESIGN_SWITCH_MASK ≠ 0
  · rw [if_pos hswitch]
    dsimp only
    by_cases hid : answers.boardId = noDevice ∨ answers.boardId = 0
    · rw [if_pos hid]
      obtain ⟨hcalls, hstate⟩ := hnot _ { b with
        interfaceActive := false
        configEx := answers.boardId
        mcap := b.mcap ++ [.read MCAP_CONTROL (answers.device b.mcap MCAP_CONTROL).1
          (answers.device b.mcap MCAP_CONTROL).2] } rfl rfl
      exact ⟨hcalls, .inl ⟨fun hfound => not_or.mpr hfound.2 hid, hstate⟩⟩
    · rw [if_neg hid]
      have hfound : b.Found answers := ⟨hswitch, not_or.mp hid⟩
      unfold boardFound
      dsimp only
      by_cases hready : b.state.isReady = true
      · rw [if_pos hready]
        exact ⟨rfl, .inr (.inl ⟨hfound, hready, hswitch.1, rfl⟩)⟩
      · have hdown : b.state.isReady = false := Bool.eq_false_iff.mpr hready
        rw [if_neg hready]
        rw [@menSetState_ready answers { b with
          interfaceActive := true
          configEx := answers.boardId
          mcap := b.mcap ++ [.read MCAP_CONTROL (answers.device b.mcap MCAP_CONTROL).1
            (answers.device b.mcap MCAP_CONTROL).2] } hdown]
        refine ⟨?_, .inr (.inr ⟨hfound, hdown, rfl, ?_⟩)⟩
        · dsimp only
          split_ifs <;> rfl
        · dsimp only
          split_ifs <;> rfl
  · rw [if_neg hswitch]
    dsimp only
    rw [if_pos (Or.inl rfl)]
    obtain ⟨hcalls, hstate⟩ := hnot (answers.device b.mcap MCAP_CONTROL).1 { b with
      interfaceActive := false
      configEx := noDevice
      mcap := b.mcap ++ [.read MCAP_CONTROL (answers.device b.mcap MCAP_CONTROL).1
        (answers.device b.mcap MCAP_CONTROL).2] } rfl rfl
    exact ⟨hcalls, .inl ⟨fun hfound => hswitch hfound.1, hstate⟩⟩

theorem isUp_of_isReady {state : BoardState} (h : state.isReady = true) : state.isUp = true := by
  cases state <;> first | rfl | exact absurd h (by decide)

theorem takeDown_state (b : Me6Board) : (takeDown b).state.isUp = false := by
  unfold takeDown
  by_cases hup : b.state.isUp = true
  · rw [if_pos hup]
    rfl
  · rw [if_neg hup]
    exact Bool.eq_false_iff.mpr hup

/-- The calls that bring up the peripherals. -/
def initCalls (ret : Int) : List PeripheralCall := if ret = 0 then [.init ret, .startIrq, .start] else [.init ret]

theorem bringUp_calls (hready : b.state.isReady = true) :
    (bringUp c b).2.calls = b.calls ++ initCalls c.initPeripherals ∧ (bringUp c b).2.state = b.state := by
  unfold bringUp initCalls
  rw [if_pos hready]
  dsimp only
  by_cases hret : c.initPeripherals = 0
  · rw [if_pos hret, if_pos hret, me6StartIrq,
      if_pos (show (b.call (.init c.initPeripherals)).state.isReady = true from hready)]
    refine ⟨?_, rfl⟩
    simp only [Me6Board.call, List.append_assoc]
    rfl
  · rw [if_neg hret, if_neg hret]
    exact ⟨rfl, rfl⟩

/-- The bitstream and the switch change the registers only. -/
theorem writeAndSwitch_board (c : ConfigureCall) (b : Me6Board) :
    (writeAndSwitch c b).2.state = b.state ∧ (writeAndSwitch c b).2.calls = b.calls := by
  unfold writeAndSwitch switchDesign
  dsimp only
  split_ifs <;> exact ⟨rfl, rfl⟩

/-- What becomes of a board that is down: it stays so, or it is brought up. -/
theorem updateAndBringUp_spec (c : ConfigureCall) {r : Int × Me6Board} (hdown : r.2.state.isUp = false) :
    (updateAndBringUp c r).2.state.isUp = false ∧ (updateAndBringUp c r).2.calls = r.2.calls ∧
        ((updateAndBringUp c r).1 = 0 → ¬r.2.Found c.answers) ∨
      (updateAndBringUp c r).2.state = .ready ∧
        (updateAndBringUp c r).2.calls = r.2.calls ++ initCalls c.initPeripherals ∧
        ((updateAndBringUp c r).1 = 0 → r.2.Found c.answers ∧ c.initPeripherals = 0) := by
  have hnotReady : r.2.state.isReady = false := by
    cases hready : r.2.state.isReady with
    | false => rfl
    | true => exact (isUp_of_isReady hready).symm.trans hdown
  unfold updateAndBringUp
  by_cases hret : r.1 = 0
  · rw [if_pos hret]
    dsimp only
    obtain ⟨hcalls, ⟨hnot, hgone⟩ | ⟨-, hready, -⟩ | ⟨hfound, -, hdmas, hstate⟩⟩ :=
      me6UpdateBoardStatus_spec c.answers r.2
    · refine .inl ?_
      rw [hdown, if_neg Bool.false_ne_true] at hgone
      have hidle : (me6UpdateBoardStatus c.answers r.2).2.state.isReady = false := by
        rw [hgone]
        rfl
      have hup : (me6UpdateBoardStatus c.answers r.2).2.state.isUp = false := by
        rw [hgone]
        rfl
      by_cases hzero : (me6UpdateBoardStatus c.answers r.2).1 = 0
      · rw [if_pos hzero, bringUp, if_neg (by rw [hidle]; decide)]
        exact ⟨hup, hcalls, fun _ => hnot⟩
      · rw [if_neg hzero]
        exact ⟨hup, hcalls, fun _ => hnot⟩
    · exact absurd (hnotReady.symm.trans hready) Bool.false_ne_true
    · by_cases hzero : c.answers.menAddDmas = 0
      · rw [if_pos (hdmas.trans hzero)]
        rw [if_pos hzero] at hstate
        have hready : (me6UpdateBoardStatus c.answers r.2).2.state.isReady = true := by
          rw [hstate]
          rfl
        obtain ⟨hcalled, hkept⟩ := bringUp_calls (c := c) hready
        refine .inr ⟨hkept.trans hstate, by rw [hcalled, hcalls], fun hok => ⟨hfound, ?_⟩⟩
        by_contra hinit
        unfold bringUp at hok
        rw [if_pos hready] at hok
        dsimp only at hok
        rw [if_neg hinit] at hok
        exact absurd (show -EFAULT = 0 from hok) (by decide)
      · rw [if_neg (fun heq => hzero (hdmas.symm.trans heq))]
        rw [if_neg hzero] at hstate
        exact .inl ⟨by rw [hstate]; exact hdown, hcalls, fun hok => absurd (hdmas.symm.trans hok) hzero⟩
  · rw [if_neg hret]
    exact .inl ⟨hdown, rfl, fun hok => absurd hok hret⟩

/-- What a configuration leaves. -/
theorem configureFpgaData_spec (c : ConfigureCall) (b : Me6Board) :
    (configureFpgaData c b).2.state.isUp = false ∧ (configureFpgaData c b).2.calls = (takeDown b).calls ∨
      (configureFpgaData c b).2.state = .ready ∧
        (configureFpgaData c b).2.calls = (takeDown b).calls ++ initCalls c.initPeripherals := by
  obtain ⟨hstate, hcalls⟩ := writeAndSwitch_board c (takeDown b)
  have hdown : (writeAndSwitch c (takeDown b)).2.state.isUp = false := by
    rw [hstate]
    exact takeDown_state b
  rw [← hcalls]
  rcases updateAndBringUp_spec c hdown with ⟨hup, hsame, -⟩ | ⟨hready, hinit, -⟩
  · exact .inl ⟨hup, hsame⟩
  · exact .inr ⟨hready, hinit⟩

theorem configureFpga_spec (c : ConfigureCall) (b : Me6Board) :
    (configureFpga c b).2 = b ∨
      (configureFpga c b).2.state.isUp = false ∧ (configureFpga c b).2.calls = (takeDown b).calls ∨
      (configureFpga c b).2.state = .ready ∧
        (configureFpga c b).2.calls = (takeDown b).calls ++ initCalls c.initPeripherals := by
  unfold configureFpga
  split_ifs
  · exact .inl rfl
  · exact .inl rfl
  · exact .inl rfl
  · exact .inl rfl
  · exact .inl rfl
  · exact .inr (configureFpgaData_spec c b)

/-! ### Every run -/

/-- What holds of a board whatever happens to it. -/
structure Me6Board.Kept (b : Me6Board) : Prop where
  idle : b.state.isUp = false → peripheralsUp b.calls = false
  once : InitialisedOnce b.calls
  irq : irqStarted b.calls = true → peripheralsUp b.calls = true

/-- The peripherals of a board that is up are initialised. -/
def Me6Board.Usable (b : Me6Board) : Prop := b.state.isUp = true → peripheralsUp b.calls = true

theorem takeDown_kept (h : b.Kept) : peripheralsUp (takeDown b).calls = false ∧ InitialisedOnce (takeDown b).calls ∧
    irqStarted (takeDown b).calls = false := by
  unfold takeDown
  cases hup : b.state.isUp with
  | true =>
    rw [if_pos rfl]
    dsimp only [Me6Board.call]
    refine ⟨peripheralsUp_concat _ _, ?_, ?_⟩
    · refine initialisedOnce_concat (initialisedOnce_concat (initialisedOnce_concat h.once ?_) ?_) ?_
      · exact fun ret hret => absurd hret (by simp)
      · exact fun ret hret => absurd hret (by simp)
      · exact fun ret hret => absurd hret (by simp)
    · rw [irqStarted_concat, irqStarted_concat]
  | false =>
    rw [if_neg Bool.false_ne_true]
    refine ⟨h.idle hup, h.once, ?_⟩
    cases hirq : irqStarted b.calls with
    | false => rfl
    | true => exact (h.irq hirq).symm.trans (h.idle hup)

theorem initCalls_kept {calls : List PeripheralCall} (hidle : peripheralsUp calls = false) (honce : InitialisedOnce calls)
    (ret : Int) : peripheralsUp (calls ++ initCalls ret) = true ∧ InitialisedOnce (calls ++ initCalls ret) := by
  have hinit : peripheralsUp (calls ++ [.init ret]) = true := peripheralsUp_concat _ _
  have honce' : InitialisedOnce (calls ++ [.init ret]) := initialisedOnce_concat honce fun _ _ => hidle
  unfold initCalls
  split_ifs
  · rw [show calls ++ [.init ret, .startIrq, .start] = (calls ++ [.init ret]) ++ [.startIrq] ++ [.start] by simp]
    refine ⟨?_, initialisedOnce_concat (initialisedOnce_concat honce' ?_) ?_⟩
    · rw [peripheralsUp_concat, peripheralsUp_concat]
      exact hinit
    · exact fun ret hret => absurd hret (by simp)
    · exact fun ret hret => absurd hret (by simp)
  · exact ⟨hinit, honce'⟩

theorem kept_of_calls (h : b.Kept) (hcalls : b'.calls = b.calls) (hstate : b'.state.isUp = false → b.state.isUp = false) :
    b'.Kept := by
  obtain ⟨hidle, honce, hirq⟩ := h
  rw [← hcalls] at hidle honce hirq
  exact ⟨fun hdown => hidle (hstate hdown), honce, hirq⟩

theorem step_kept (h : b.Kept) (event : BoardEvent) : (b.step event).Kept := by
  cases event with
  | configureFpga c =>
    obtain ⟨hidle, honce, hirq⟩ := takeDown_kept h
    rcases configureFpga_spec c b with hsame | ⟨hdown, hcalls⟩ | ⟨hready, hcalls⟩
    · exact kept_of_calls h (congrArg Me6Board.calls hsame) fun hdown => by rw [← hsame]; exact hdown
    · refine ⟨fun _ => ?_, ?_, fun hstarted => ?_⟩
      · exact (congrArg peripheralsUp hcalls).trans hidle
      · exact (congrArg InitialisedOnce hcalls).mpr honce
      · exact absurd ((congrArg irqStarted hcalls).symm.trans hstarted) (by rw [hirq]; decide)
    · obtain ⟨hinit, honce'⟩ := initCalls_kept hidle honce c.initPeripherals
      refine ⟨fun hdown => ?_, ?_, fun _ => ?_⟩
      · exact absurd ((congrArg BoardState.isUp hready).symm.trans hdown) (by decide)
      · exact (congrArg InitialisedOnce hcalls).mpr honce'
      · exact (congrArg peripheralsUp hcalls).trans hinit
  | getDeviceStatus answers =>
    obtain ⟨hcalls, hcases⟩ := me6UpdateBoardStatus_spec answers b
    refine kept_of_calls h hcalls fun hdown => ?_
    have hup : (me6UpdateBoardStatus answers b).2.state.isUp = false := hdown
    rcases hcases with ⟨-, hstate⟩ | ⟨-, hready, -, hstate⟩ | ⟨-, hready, -, hstate⟩
    · cases hb : b.state.isUp with
      | false => rfl
      | true =>
        rw [hstate, hb, if_pos rfl] at hup
        exact absurd hup (by decide)
    · rw [← hstate]
      exact hup
    · split_ifs at hstate
      · rw [hstate] at hup
        exact absurd hup (by decide)
      · rw [← hstate]
        exact hup
  | markDead answers =>
    have hdead : b.step (.markDead answers) = { b with state := .dead } :=
      congrArg Prod.snd (menSetState_down (by decide) rfl answers b)
    rw [hdead]
    exact kept_of_calls h rfl fun hdown => absurd (show BoardState.dead.isUp = false from hdown) (by decide)

/-- The event brings up a board whose peripherals are not initialised. -/
def Me6Board.Revives (b : Me6Board) : BoardEvent → Prop
  | .configureFpga _ => False
  | .getDeviceStatus answers => b.state.isUp = false ∧ b.Found answers ∧ answers.menAddDmas = 0
  | .markDead _ => b.state.isUp = false

theorem revives_not_usable (h : b.Kept) {event : BoardEvent} (hrevives : b.Revives event) :
    ¬(b.step event).Usable := by
  intro husable
  cases event with
  | configureFpga c => exact hrevives
  | getDeviceStatus answers =>
    obtain ⟨hdown, hfound, hdmas⟩ := hrevives
    obtain ⟨hcalls, ⟨hnot, -⟩ | ⟨-, hready, -⟩ | ⟨-, -, -, hstate⟩⟩ := me6UpdateBoardStatus_spec answers b
    · exact hnot hfound
    · exact absurd ((isUp_of_isReady hready).symm.trans hdown) (by decide)
    · rw [if_pos hdmas] at hstate
      have hinit := husable (show (me6UpdateBoardStatus answers b).2.state.isUp = true by rw [hstate]; rfl)
      have hsame : peripheralsUp (me6UpdateBoardStatus answers b).2.calls = true := hinit
      rw [hcalls, h.idle hdown] at hsame
      exact absurd hsame (by decide)
  | markDead answers =>
    have hdead : b.step (.markDead answers) = { b with state := .dead } :=
      congrArg Prod.snd (menSetState_down (by decide) rfl answers b)
    rw [hdead] at husable
    exact absurd ((h.idle hrevives).symm.trans (husable rfl)) (by decide)

theorem step_usable (h : b.Kept) (hb : b.Usable) {event : BoardEvent} (hnot : ¬b.Revives event) :
    (b.step event).Usable := by
  cases event with
  | configureFpga c =>
    intro hup
    rcases configureFpga_spec c b with hsame | ⟨hdown, -⟩ | ⟨-, hcalls⟩
    · have hup' : (configureFpga c b).2.state.isUp = true := hup
      rw [hsame] at hup'
      exact (congrArg (fun b : Me6Board => peripheralsUp b.calls) hsame).trans (hb hup')
    · exact absurd (hdown.symm.trans hup) (by decide)
    · obtain ⟨hidle, honce, -⟩ := takeDown_kept h
      exact (congrArg peripheralsUp hcalls).trans (initCalls_kept hidle honce _).1
  | getDeviceStatus answers =>
    intro hup
    obtain ⟨hcalls, hcases⟩ := me6UpdateBoardStatus_spec answers b
    have hup' : (me6UpdateBoardStatus answers b).2.state.isUp = true := hup
    have hwas : b.state.isUp = true := by
      rcases hcases with ⟨-, hstate⟩ | ⟨-, hready, -, -⟩ | ⟨hfound, -, -, hstate⟩
      · cases hb' : b.state.isUp with
        | true => rfl
        | false =>
          rw [hstate, hb', if_neg Bool.false_ne_true] at hup'
          exact absurd hup' (by decide)
      · exact isUp_of_isReady hready
      · by_cases hdmas : answers.menAddDmas = 0
        · cases hb' : b.state.isUp with
          | true => rfl
          | false => exact absurd ⟨hb', hfound, hdmas⟩ hnot
        · rw [hstate, if_neg hdmas] at hup'
          exact hup'
    exact (congrArg peripheralsUp hcalls).trans (hb hwas)
  | markDead answers =>
    intro _
    have hdead : b.step (.markDead answers) = { b with state := .dead } :=
      congrArg Prod.snd (menSetState_down (by decide) rfl answers b)
    rw [hdead]
    cases hb' : b.state.isUp with
    | true => exact hb hb'
    | false => exact absurd hb' hnot

/-- What is cleaned up was initialised, if the board is usable. -/
theorem step_cleaned (hb : b.Usable) (hcleaned : CleanedOnce b.calls) (event : BoardEvent) :
    CleanedOnce (b.step event).calls := by
  have hdown : CleanedOnce (takeDown b).calls := by
    unfold takeDown
    cases hup : b.state.isUp with
    | true =>
      rw [if_pos rfl]
      dsimp only [Me6Board.call]
      refine cleanedOnce_concat (cleanedOnce_concat (cleanedOnce_concat hcleaned ?_) ?_) fun _ => ?_
      · exact fun hcall => absurd hcall (by decide)
      · exact fun hcall => absurd hcall (by decide)
      · rw [peripheralsUp_concat, peripheralsUp_concat]
        exact hb hup
    | false =>
      rw [if_neg Bool.false_ne_true]
      exact hcleaned
  cases event with
  | configureFpga c =>
    rcases configureFpga_spec c b with hsame | ⟨-, hcalls⟩ | ⟨-, hcalls⟩
    · exact (congrArg (fun b : Me6Board => CleanedOnce b.calls) hsame).mpr hcleaned
    · exact (congrArg CleanedOnce hcalls).mpr hdown
    · refine (congrArg CleanedOnce hcalls).mpr ?_
      have hinit := cleanedOnce_concat (c := .init c.initPeripherals) hdown fun hcall => absurd hcall (by simp)
      unfold initCalls
      split_ifs
      · rw [show (takeDown b).calls ++ [.init c.initPeripherals, .startIrq, .start] =
          ((takeDown b).calls ++ [.init c.initPeripherals]) ++ [.startIrq] ++ [.start] by simp]
        refine cleanedOnce_concat (cleanedOnce_concat hinit ?_) ?_
        · exact fun hcall => absurd hcall (by decide)
        · exact fun hcall => absurd hcall (by decide)
      · exact hinit
  | getDeviceStatus answers => exact (congrArg CleanedOnce (me6UpdateBoardStatus_spec answers b).1).mpr hcleaned
  | markDead answers =>
    have hdead : b.step (.markDead answers) = { b with state := .dead } :=
      congrArg Prod.snd (menSetState_down (by decide) rfl answers b)
    rw [hdead]
    exact hcleaned

theorem kept_of_init (ret : Int) (hcalls : b.calls = initCalls ret ∨ b.calls = [.init ret]) (hup : b.state.isUp = true) :
    b.Kept ∧ b.Usable ∧ CleanedOnce b.calls := by
  have hfirst : InitialisedOnce ([] : List PeripheralCall) := fun before ret hpre => by
    have := hpre.length_le
    simp at this
  have hnone : ∀ calls : List PeripheralCall, .cleanup ∉ calls → CleanedOnce calls := fun calls hmem before hpre =>
    absurd (hpre.subset (List.mem_append_right before List.mem_cons_self)) hmem
  have hkept : peripheralsUp b.calls = true ∧ InitialisedOnce b.calls ∧ CleanedOnce b.calls := by
    rcases hcalls with hcalls | hcalls
    · rw [hcalls]
      obtain ⟨hinit, honce⟩ := @initCalls_kept [] rfl hfirst ret
      refine ⟨hinit, honce, hnone _ ?_⟩
      unfold initCalls
      split_ifs <;> simp
    · rw [hcalls]
      exact ⟨rfl, initialisedOnce_concat hfirst fun _ _ => rfl, hnone _ (by simp)⟩
  obtain ⟨hinit, honce, hcleaned⟩ := hkept
  exact ⟨⟨fun hdown => absurd (hup.symm.trans hdown) (by decide), honce, fun _ => hinit⟩, fun _ => hinit, hcleaned⟩

theorem kept_of_none (hcalls : b.calls = []) (hdown : b.state.isUp = false) :
    b.Kept ∧ b.Usable ∧ CleanedOnce b.calls := by
  refine ⟨⟨fun _ => ?_, ?_, fun hirq => ?_⟩, fun hup => absurd (hup.symm.trans hdown) (by decide), ?_⟩
  · rw [hcalls]
    rfl
  · rw [hcalls]
    intro before ret hpre
    exact absurd hpre.length_le (by simp)
  · rw [hcalls] at hirq
    exact absurd hirq (by decide)
  · rw [hcalls]
    intro before hpre
    exact absurd hpre.length_le (by simp)

/-- A board behind its probe. -/
theorem me6ProbeBoard_kept {ret : Int} (hprobe : me6ProbeBoard answers ret = some b) :
    b.Kept ∧ b.Usable ∧ CleanedOnce b.calls := by
  obtain ⟨hcalls, hcases⟩ :=
    me6UpdateBoardStatus_spec answers ⟨.unknown, false, 0, [], (mCapFullReset answers.device []).2⟩
  unfold me6ProbeBoard at hprobe
  dsimp only at hprobe hcalls hcases
  generalize me6UpdateBoardStatus answers ⟨.unknown, false, 0, [], (mCapFullReset answers.device []).2⟩ = updated
    at hprobe hcalls hcases
  split_ifs at hprobe with hreset hupdate hready herror hret
  · obtain rfl := Option.some.inj hprobe
    have hready' : (updated.2.call (.init ret)).state.isReady = true := hready
    refine kept_of_init ret (.inl ?_) ?_
    · rw [me6StartIrq, if_pos hready', initCalls, if_pos hret, Me6Board.call, Me6Board.call, Me6Board.call, hcalls]
      rfl
    · rw [me6StartIrq, if_pos hready']
      exact isUp_of_isReady hready
  · obtain rfl := Option.some.inj hprobe
    refine kept_of_init ret (.inr ?_) (isUp_of_isReady hready)
    rw [Me6Board.call, hcalls]
    rfl
  · obtain rfl := Option.some.inj hprobe
    refine kept_of_none hcalls ?_
    rcases hcases with ⟨-, hstate⟩ | ⟨-, hready', -⟩ | ⟨-, -, -, hstate⟩
    · rw [hstate]
      rfl
    · exact absurd hready' (by decide)
    · split_ifs at hstate
      · rw [hstate] at hready
        exact absurd rfl hready
      · rw [hstate]
        rfl

def Me6Board.run (b : Me6Board) (events : List BoardEvent) : Me6Board := events.foldl Me6Board.step b

/-- The value that was written to the control register last. -/
def lastControl (initial : Word) (writes : List (Nat × Word)) : Word :=
  writes.foldl (fun value write => if write.1 = MCAP_CONTROL then write.2 else value) initial

/-- A device that answers at once, with a design in the FPGA when the driver starts. -/
def promptMcap : McapDevice := fun trace offset =>
  if offset = MCAP_CONTROL then
    (0, lastControl MCAP_CTRL_DESIGN_SWITCH_MASK (trace.filterMap McapAccess.written))
  else (0, MCAP_STS_EOS_MASK)

def promptAnswers : BoardAnswers := ⟨promptMcap, 0xa42#32, 0⟩

/-- A device whose control register reads as it was written. -/
def ReadsBack (device : McapDevice) (initial : Word) : Prop :=
  ∀ trace, device trace MCAP_CONTROL = (0, lastControl initial (trace.filterMap McapAccess.written))

theorem lastControl_append (initial : Word) (writes writes' : List (Nat × Word)) :
    lastControl initial (writes ++ writes') = lastControl (lastControl initial writes) writes' := List.foldl_append

theorem lastControl_data (initial : Word) (words : List Word) : lastControl initial (mCapData words) = initial := by
  induction words with
  | nil => rfl
  | cons word words ih => exact ih

theorem switch_set (value : Word) :
    (value ||| MCAP_CTRL_DESIGN_SWITCH_MASK) &&& MCAP_CTRL_DESIGN_SWITCH_MASK ≠ 0 := by
  have habsorb : (value ||| MCAP_CTRL_DESIGN_SWITCH_MASK) &&& MCAP_CTRL_DESIGN_SWITCH_MASK =
      MCAP_CTRL_DESIGN_SWITCH_MASK := by
    ext i
    simp only [BitVec.getElem_and, BitVec.getElem_or]
    cases MCAP_CTRL_DESIGN_SWITCH_MASK[i] <;> simp
  rw [habsorb]
  decide

/-- The mode for writing data switches the design off. -/
theorem switch_cleared (set : Word) : mCapWriteMode set &&& MCAP_CTRL_DESIGN_SWITCH_MASK = 0 := by
  rw [mCapWriteMode, BitVec.and_assoc]
  exact BitVec.and_zero

/-- The words for the data register. -/
def mCapDataWords (writes : List (Nat × Word)) : List Word :=
  writes.filterMap fun write => if write.1 = MCAP_DATA then some write.2 else none

theorem mCapDataWords_append (writes writes' : List (Nat × Word)) :
    mCapDataWords (writes ++ writes') = mCapDataWords writes ++ mCapDataWords writes' := List.filterMap_append

theorem mCapDataWords_data (words : List Word) : mCapDataWords (mCapData words) = words := by
  rw [mCapDataWords, mCapData, List.filterMap_map]
  exact List.filterMap_eq_map_iff_forall_eq_some.mpr (fun word _ => rfl) |>.trans (List.map_id words)

theorem mCapDataWords_ask (restore : Word) (asked : Bool) : mCapDataWords (mCapAsk restore asked) = [] := by
  cases asked <;> rfl

/-- A bitstream that was written: the words are in the data register, and the design is switched unless the
bitstream is a partial one. -/
theorem writeBitstream_done (c : ConfigureCall) (b : Me6Board) (initial : Word)
    (hret : (writeBitstream c b).1 = 0) :
    ∃ writes rounds, Writes b.mcap (writeBitstream c b).2.mcap writes ∧
      mCapDataWords writes = mCapWords c.data c.swapBytes ++ mCapNoopRounds rounds ∧
      (lastControl initial writes &&& MCAP_CTRL_DESIGN_SWITCH_MASK ≠ 0 ↔ c.isPartial = false) := by
  unfold writeBitstream at hret ⊢
  cases hpart : c.isPartial with
  | true =>
    rw [hpart, if_pos rfl] at hret
    rw [if_pos rfl]
    obtain ⟨writes, hwrites, hends⟩ := mCapWritePartialBitStream_ends c.answers.device c.data c.swapBytes b.mcap
    obtain ⟨asked, set, rfl⟩ := hends.written hret
    refine ⟨_, 1, hwrites, ?_, ?_⟩
    · rw [mCapDataWords_append, mCapDataWords_append, mCapDataWords_ask, mCapDataWords_data]
      exact (congrArg _ (congrArg _ (List.append_nil mCapNoops))).symm
    · rw [lastControl_append, lastControl_data, lastControl_append]
      exact ⟨fun h => absurd (switch_cleared set) h, fun h => absurd h (by decide)⟩
  | false =>
    rw [hpart, if_neg Bool.false_ne_true] at hret
    rw [if_neg Bool.false_ne_true]
    obtain ⟨writes, hwrites, hends⟩ :=
      mCapWriteBitStream_ends c.answers.device false c.data c.swapBytes b.mcap
    obtain ⟨asked, mode, rounds, ⟨set, rfl⟩, rfl⟩ := hends.written hret
    refine ⟨_, rounds, hwrites, ?_, ?_⟩
    · rw [mCapDataWords_append, mCapDataWords_append, mCapDataWords_append, mCapDataWords_ask, mCapDataWords_data]
      exact List.append_nil _
    · rw [lastControl_append]
      exact ⟨fun _ => rfl, fun _ => switch_set _⟩

theorem switchDesign_done (c : ConfigureCall) (b : Me6Board) (initial : Word)
    (hdevice : ReadsBack c.answers.device initial) :
    (switchDesign c b).1 = c.switchWritten ∧ ∃ value, Writes b.mcap (switchDesign c b).2.mcap
      [(MCAP_CONTROL, value ||| MCAP_CTRL_DESIGN_SWITCH_MASK)] := by
  have hwrites := (mCapRegRead_writes c.answers.device b.mcap MCAP_CONTROL).trans (mCapRegWrite_writes _ MCAP_CONTROL
    (lastControl initial (b.mcap.filterMap McapAccess.written) ||| MCAP_CTRL_DESIGN_SWITCH_MASK))
  unfold mCapRegRead at hwrites
  unfold switchDesign mCapRegRead
  rw [hdevice] at hwrites ⊢
  dsimp only
  rw [if_pos rfl]
  exact ⟨rfl, _, hwrites⟩

theorem menSetState_mcap (answers : BoardAnswers) (b : Me6Board) (state : BoardState) :
    (menSetState answers b state).2.mcap = b.mcap := by
  unfold menSetState
  dsimp only
  split_ifs <;> rfl

theorem me6UpdateBoardStatus_mcap (answers : BoardAnswers) (b : Me6Board) :
    (me6UpdateBoardStatus answers b).2.mcap = (mCapRegRead answers.device b.mcap MCAP_CONTROL).2 := by
  have hfound : ∀ ret (b : Me6Board), (boardFound answers ret b).2.mcap = b.mcap := by
    intro ret b
    unfold boardFound
    split_ifs
    · rfl
    · exact menSetState_mcap answers b .ready
  unfold me6UpdateBoardStatus
  dsimp only
  split_ifs
  · rw [boardNotFound_spec]
  · rw [hfound]
  · rw [boardNotFound_spec]
  · rw [hfound]

theorem bringUp_mcap (c : ConfigureCall) (b : Me6Board) : (bringUp c b).2.mcap = b.mcap := by
  unfold bringUp me6StartIrq
  dsimp only
  split_ifs <;> rfl

/-- The status and the peripherals leave the registers as they are written. -/
theorem updateAndBringUp_writes (c : ConfigureCall) (r : Int × Me6Board) :
    Writes r.2.mcap (updateAndBringUp c r).2.mcap [] := by
  have hread := mCapRegRead_writes c.answers.device r.2.mcap MCAP_CONTROL
  rw [← me6UpdateBoardStatus_mcap c.answers r.2] at hread
  unfold updateAndBringUp
  dsimp only
  split_ifs
  · rw [bringUp_mcap]
    exact hread
  · exact hread
  · exact Writes.refl _

theorem takeDown_mcap (b : Me6Board) : (takeDown b).mcap = b.mcap := by
  unfold takeDown
  split_ifs <;> rfl

/-- The bitstream and the switch behind it, when both succeed. -/
theorem writeAndSwitch_done (c : ConfigureCall) (b : Me6Board) {initial : Word}
    (hdevice : ReadsBack c.answers.device initial) (hret : (writeAndSwitch c b).1 = 0) :
    ∃ writes rounds, Writes b.mcap (writeAndSwitch c b).2.mcap writes ∧
      mCapDataWords writes = mCapWords c.data c.swapBytes ++ mCapNoopRounds rounds ∧
      (lastControl initial ((writeAndSwitch c b).2.mcap.filterMap McapAccess.written) &&&
        MCAP_CTRL_DESIGN_SWITCH_MASK ≠ 0 ↔ c.isPartial = false ∨ c.designSwitch = true) := by
  unfold writeAndSwitch at hret ⊢
  dsimp only at hret ⊢
  have hwritten : (writeBitstream c b).1 = 0 := by
    by_contra hne
    rw [if_neg (fun h => hne h.1)] at hret
    exact hne hret
  obtain ⟨writes, rounds, hwrites, hwords, hcontrol⟩ :=
    writeBitstream_done c b (lastControl initial (b.mcap.filterMap McapAccess.written)) hwritten
  by_cases hswitch : c.designSwitch = true
  · rw [if_pos ⟨hwritten, hswitch⟩]
    obtain ⟨-, value, hvalue⟩ := switchDesign_done c (writeBitstream c b).2 initial hdevice
    have hall := hwrites.trans hvalue
    refine ⟨_, rounds, hall, ?_, ?_⟩
    · rw [mCapDataWords_append, hwords]
      exact List.append_nil _
    · rw [hall, lastControl_append, lastControl_append]
      exact ⟨fun _ => .inr hswitch, fun _ => switch_set value⟩
  · rw [if_neg (fun h => hswitch h.2)]
    refine ⟨writes, rounds, hwrites, hwords, ?_⟩
    rw [hwrites, lastControl_append, hcontrol]
    exact ⟨fun h => .inl h, fun h => h.resolve_right hswitch⟩

/-- A configuration that succeeds gives the FPGA the words of the user in their order. The board comes up if and
only if there is a design to switch to, and its peripherals are initialised then and its interrupts are on: on a
device whose control register reads as it was written. -/
theorem configureFpga_succeeds (c : ConfigureCall) (b : Me6Board) (initial : Word)
    (hdevice : ReadsBack c.answers.device initial) (hret : (configureFpga c b).1 = 0) :
    (∃ writes rounds, Writes b.mcap (configureFpga c b).2.mcap writes ∧
      mCapDataWords writes = mCapWords c.data c.swapBytes ++ mCapNoopRounds rounds) ∧
    ((configureFpga c b).2.state = .ready ↔ (c.isPartial = false ∨ c.designSwitch = true) ∧
      c.answers.boardId ≠ noDevice ∧ c.answers.boardId ≠ 0) ∧
    ((configureFpga c b).2.state = .ready →
      (configureFpga c b).2.calls = (takeDown b).calls ++ [.init 0, .startIrq, .start]) := by
  have hdata : configureFpga c b = configureFpgaData c b := by
    unfold configureFpga at hret ⊢
    split_ifs at hret ⊢
    · exact absurd (show -EINVAL = 0 from hret) (by decide)
    · exact absurd (show -EFAULT = 0 from hret) (by decide)
    · exact absurd (show -EINVAL = 0 from hret) (by decide)
    · exact absurd (show -ENOMEM = 0 from hret) (by decide)
    · exact absurd (show -EFAULT = 0 from hret) (by decide)
    · rfl
  rw [hdata, configureFpgaData] at hret
  rw [hdata, configureFpgaData]
  obtain ⟨hstate, hcalls⟩ := writeAndSwitch_board c (takeDown b)
  have hzero : (writeAndSwitch c (takeDown b)).1 = 0 := by
    by_contra hne
    rw [updateAndBringUp, if_neg hne] at hret
    exact hne hret
  obtain ⟨writes, rounds, hwrites, hwords, hcontrol⟩ := writeAndSwitch_done c (takeDown b) hdevice hzero
  have hfound : (writeAndSwitch c (takeDown b)).2.Found c.answers ↔
      (c.isPartial = false ∨ c.designSwitch = true) ∧ c.answers.boardId ≠ noDevice ∧ c.answers.boardId ≠ 0 := by
    rw [Me6Board.Found, hdevice, ← hcontrol]
    exact and_congr_left fun _ => and_iff_right rfl
  refine ⟨⟨writes, rounds, ?_, hwords⟩, ?_⟩
  · rw [← takeDown_mcap b]
    exact hwrites.then (updateAndBringUp_writes c _)
  · rw [← hfound, ← hcalls]
    have hdown : (writeAndSwitch c (takeDown b)).2.state.isUp = false := by
      rw [hstate]
      exact takeDown_state b
    rcases updateAndBringUp_spec c hdown with ⟨hup, -, hnot⟩ | ⟨hready, hinit, hok⟩
    · have hne : (updateAndBringUp c (writeAndSwitch c (takeDown b))).2.state ≠ .ready := by
        intro heq
        rw [heq] at hup
        exact absurd hup (by decide)
      exact ⟨⟨fun h => absurd h hne, fun h => absurd h (hnot hret)⟩, fun h => absurd h hne⟩
    · obtain ⟨hfound', hinit'⟩ := hok hret
      refine ⟨⟨fun _ => hfound', fun _ => hready⟩, fun _ => ?_⟩
      rw [hinit, hinit', initCalls, if_pos rfl]

/-- A bitstream of one word on a board that is up. -/
def promptConfigure : ConfigureCall :=
  ⟨promptAnswers, 24, true, 24, 1, CONFIGURE_ME6_FULL_BITSTREAM ||| CONFIGURE_ME6_SWAP_BYTES, 4, true, true,
    fun _ => 0xaa995566#32, 0, 0⟩

def promptBoard : Me6Board := ⟨.ready, true, 0xa42#32, [.init 0, .startIrq, .start], []⟩

theorem configureFpga_succeeds_prompt :
    (∃ writes rounds, Writes promptBoard.mcap (configureFpga promptConfigure promptBoard).2.mcap writes ∧
      mCapDataWords writes = [0x665599aa#32] ++ mCapNoopRounds rounds) ∧
    ((configureFpga promptConfigure promptBoard).2.state = .ready ↔
      (promptConfigure.isPartial = false ∨ promptConfigure.designSwitch = true) ∧
        promptConfigure.answers.boardId ≠ noDevice ∧ promptConfigure.answers.boardId ≠ 0) ∧
    ((configureFpga promptConfigure promptBoard).2.state = .ready →
      (configureFpga promptConfigure promptBoard).2.calls =
        (takeDown promptBoard).calls ++ [.init 0, .startIrq, .start]) :=
  configureFpga_succeeds promptConfigure promptBoard MCAP_CTRL_DESIGN_SWITCH_MASK (fun _ => rfl) (by decide)

end MenableDriver
