import MenableDriver.Controllers.BpiBurst
import MenableDriver.Controllers.Bursts

/-!
# Writing to the flash

The write bursts of the BPI controller, and its commands for the bank. A write of the data register makes the
device write a word to the flash, at the address that it loads from the address register, or behind the last one.
What the flash gets is compared with a cursor, which knows no more than the bursts and their results.
-/

namespace MenableDriver

set_option autoImplicit false

def BPI_OPERATION_SETADDRESS : Word := 0x008#32
def BPI_OPERATION_WRITECMD : Word := 0x010#32
def BPI_OPERATION_WRITECMDADDRESS : Word := 0x020#32
def BPI_OPERATION_WRITEDATA : Word := 0x100#32

namespace BpiCommandRegister

def Write : Word := 0x010000#32
def AssertCS : Word := 0x040000#32
def DeassertCS : Word := 0x080000#32
def LoadAddress : Word := 0x100000#32

end BpiCommandRegister

def WRITE_COMMAND : Word := BpiCommandRegister.LoadAddress ||| BpiCommandRegister.DeassertCS |||
  BpiCommandRegister.AssertCS ||| BpiCommandRegister.Write

def WRITE_INC_COMMAND : Word :=
  BpiCommandRegister.DeassertCS ||| BpiCommandRegister.AssertCS ||| BpiCommandRegister.Write

def BANK_NUMBER_MASK : Word := 0x7#32

/-- A word that the flash was given, and where. -/
structure BpiWrite where
  location : BpiLocation
  word : BitVec 16
deriving DecidableEq, Repr

/-- The controller and the device, with the write shots of the burst and all that was written to the flash. -/
structure BpiFlash where
  ctrl : BpiState
  shots : Nat
  writes : List BpiWrite

/-- `beyond` is the byte behind the buffer of a burst. -/
structure BpiFlashEnvironment extends BpiEnvironment where
  beyond : BitVec 8
  bankRegister : Word

section Controller
variable (l : BpiLayout) (env : BpiFlashEnvironment)

/-- The device, when a command that is no read is written to the data register. -/
def flashCommand (s : BpiFlash) (value : Word) : BpiFlash :=
  let ctrl := if value &&& BpiCommandRegister.LoadAddress ≠ 0 then loadAddress s.ctrl
    else incrementAddress l s.ctrl
  { s with
    ctrl := ctrl
    writes := if value &&& BpiCommandRegister.Write ≠ 0
      then s.writes ++ [⟨⟨ctrl.bank, ctrl.addressCounter⟩, value.setWidth 16⟩] else s.writes }

def writeCommand (s : BpiFlash) (cmd : BitVec 16) : BpiFlash :=
  flashCommand l s (WRITE_COMMAND ||| cmd.setWidth 32)

def writeCommandIncrementAddress (s : BpiFlash) (cmd : BitVec 16) : BpiFlash :=
  flashCommand l s (WRITE_INC_COMMAND ||| cmd.setWidth 32)

def writeCommandAddress (s : BpiFlash) (adr : Nat) (cmd : BitVec 16) : BpiFlash × Int :=
  let (ctrl, ret) := setAddress l env.toBpiEnvironment s.ctrl s.shots adr
  let s := { s with ctrl := ctrl }
  if ret ≠ 0 then (s, ret) else (writeCommand l s cmd, 0)

/-- The loop over the bytes of an address. -/
def shiftInBytes (address : Word) : List (BitVec 8) → Word
  | [] => address
  | [b] => address ||| b.setWidth 32
  | b :: b' :: bs => shiftInBytes ((address ||| b.setWidth 32) <<< 8) (b' :: bs)

/-- The address behind the command byte. -/
def addressBytes (buffer : List (BitVec 8)) : Word := shiftInBytes 0#32 buffer.tail

/-- The buffer as words of the host. -/
def localdata (beyond : BitVec 8) (buffer : List (BitVec 8)) (i : Nat) : BitVec 16 :=
  buffer.getD (2 * i + 1) beyond ++ buffer.getD (2 * i) beyond

def bpiWriteData (beyond : BitVec 8) (s : BpiFlash) (buffer : List (BitVec 8)) : BpiFlash :=
  (List.range' 1 (buffer.length / 2 - 1)).foldl
    (fun s i => writeCommandIncrementAddress l s (localdata beyond buffer i))
    (writeCommand l s (localdata beyond buffer 0))

def BpiFlash.setFlashAddress (s : BpiFlash) (buffer : List (BitVec 8)) : BpiFlash :=
  { s with ctrl := { s.ctrl with address := (addressBytes buffer).toNat } }

/-- A shot goes on with its data when the address could not be set. -/
def bpiWriteShot (s : BpiFlash) (buffer : List (BitVec 8)) : BpiFlash × Int :=
  match buffer with
  | [] => (s, -1)
  | cmd :: _ =>
    let flags := s.ctrl.flags
    let s := if flags &&& BPI_OPERATION_WRITECMD ≠ 0 then writeCommand l s (cmd.setWidth 16) else s
    let s := if flags &&& BPI_OPERATION_SETADDRESS ≠ 0 then s.setFlashAddress buffer else s
    let (s, ret) := if flags &&& BPI_OPERATION_WRITECMDADDRESS ≠ 0 then
        let s := s.setFlashAddress buffer
        writeCommandAddress l env s s.ctrl.address (cmd.setWidth 16)
      else (s, 0)
    let s := if flags &&& BPI_OPERATION_WRITEDATA ≠ 0 then bpiWriteData l env.beyond s buffer else s
    ({ s with shots := s.shots + 1 }, ret)

/-- The hooks. Those for the flags and for reads leave the flash alone. -/
def bpiFlashStep (s : BpiFlash) (call : BurstCall) : Option (BpiFlash × Int) :=
  match call.hook with
  | .writeShot buffer => some (bpiWriteShot l env s buffer)
  | .handlePreBurstFlags flags =>
    let (ctrl, ret) := bpiHandlePreBurstFlags env.toBpiEnvironment { s.ctrl with failed := false } flags
    some ({ s with ctrl := ctrl, shots := 0 }, ret)
  | _ => (bpiStep l env.toBpiEnvironment s.ctrl call).map fun r => ({ s with ctrl := r.1 }, r.2)

inductive BpiCommand
  | getActiveBank
  | setActiveBank (bankNumber : BitVec 8)
deriving DecidableEq, Repr

/-- The commands of `bpi_execute_command`, with what is left in the buffer. -/
def bpiExecuteCommand (s : BpiFlash) : BpiCommand → BpiFlash × Int
  | .getActiveBank => (s, (env.bankRegister &&& 0xF#32 &&& BANK_NUMBER_MASK).toNat)
  | .setActiveBank bankNumber =>
    let (ctrl, ret) := selectBank l env.toBpiEnvironment s.ctrl 0 bankNumber.toNat
    ({ s with ctrl := ctrl }, ret)

end Controller

/-- What a transaction asks of the controller. The buffer of a command is large enough for it. -/
inductive BpiOperation
  | burst (b : Burst)
  | command (c : BpiCommand)
deriving DecidableEq

/-- The result, the write shots that were made, and if a chunk of a read has failed. -/
structure BpiOutcome where
  ret : Int
  shots : Nat
  failed : Bool
deriving DecidableEq, Repr

section Run
variable (l : BpiLayout)

def bpiBurst (env : BpiFlashEnvironment) (st : BurstState) (s : BpiFlash) :
    Burst → Option (Int × BurstState × BpiFlash)
  | .write flags bytes =>
    machineBurst (bpiFlashStep l env) s fun hooks => ctrlWriteBurst bpiBase hooks st flags bytes
  | .read flags size =>
    machineBurst (bpiFlashStep l env) s fun hooks => ctrlReadBurst bpiBase hooks st flags size
  | .stateChange flags => machineBurst (bpiFlashStep l env) s fun hooks => stateChangeBurst hooks st flags

def bpiServe (env : BpiFlashEnvironment) (st : BurstState) (s : BpiFlash) :
    BpiOperation → Option (BpiOutcome × BurstState × BpiFlash)
  | .burst b => (bpiBurst l env st s b).map fun (ret, st, s) => (⟨ret, s.shots, s.ctrl.failed⟩, st, s)
  | .command c =>
    let (s, ret) := bpiExecuteCommand l env s c
    some (⟨ret, 0, false⟩, st, s)

/-- A run, with what happens while each of the operations is running. -/
def bpiServeAll : List (BpiFlashEnvironment × BpiOperation) → BurstState → BpiFlash →
    Option (List BpiOutcome × BpiFlash)
  | [], _, s => some ([], s)
  | (env, op) :: ops, st, s => do
    let (outcome, st, s) ← bpiServe l env st s op
    let (outcomes, s) ← bpiServeAll ops st s
    some (outcome :: outcomes, s)

end Run

/-! ### The cursor -/

/-- A word for the flash, and where it is meant to go, if that is known. -/
structure MeantWrite where
  place : Option BpiLocation
  word : BitVec 16
deriving DecidableEq, Repr

/-- Where the next command goes, if it is known, and whether the flash is surely in the bank that the controller
takes for selected. -/
structure BpiCursor where
  sure : Bool
  place : Option BpiLocation
deriving DecidableEq, Repr

namespace BpiCursor
variable (l : BpiLayout)

/-- The place of a word of data. It stays in its bank. -/
def behind (p : BpiLocation) (i : Nat) : BpiLocation := ⟨p.bank, (p.address + i) % 2 ^ l.addressRegWidth⟩

def release (c : BpiCursor) : BpiCursor := { c with sure := true }

def releaseIf (c : BpiCursor) (flags flag : Word) : BpiCursor := if flags &&& flag ≠ 0 then c.release else c

/-- An address is set. The last one of 256 banks looks like none. -/
def goTo (c : BpiCursor) (adr : Nat) (ok : Bool) : BpiCursor :=
  if ok then { c with place := if c.sure ∧ l.bank adr ≠ BPI_NO_BANK then some (l.location adr) else none }
  else ⟨false, none⟩

/-- A shot, and whether its address could be set. -/
def shot (beyond : BitVec 8) (flags : Word) (c : BpiCursor) (buffer : List (BitVec 8)) (ok : Bool) :
    List MeantWrite × BpiCursor :=
  let cmd := (buffer.headD 0).setWidth 16
  let addressed : Bool := flags &&& BPI_OPERATION_WRITECMDADDRESS ≠ 0
  let c' := if addressed then c.goTo l (addressBytes buffer).toNat ok else c
  ((if flags &&& BPI_OPERATION_WRITECMD ≠ 0 then [⟨c.place, cmd⟩] else []) ++
    (if addressed ∧ ok then [⟨c'.place, cmd⟩] else []) ++
    (if flags &&& BPI_OPERATION_WRITEDATA ≠ 0 then
      (List.range (max 1 (buffer.length / 2))).map fun i =>
        ⟨c'.place.map (behind l · i), localdata beyond buffer i⟩
    else []), c')

/-- The first shots of a burst. -/
def shots (beyond : BitVec 8) (flags : Word) (bytes : List (BitVec 8)) (c : BpiCursor) :
    Nat → List MeantWrite × BpiCursor
  | 0 => ([], c)
  | k + 1 =>
    let before := shots beyond flags bytes c k
    let last := before.2.shot l beyond flags (Pieces.slice BPI_BYTES_PER_WRITE bytes k) true
    (before.1 ++ last.1, last.2)

/-- The flags behind a burst that has succeeded. -/
def finish (flags : Word) (all : List MeantWrite × BpiCursor) : List MeantWrite × BpiCursor :=
  (all.1, all.2.releaseIf flags BPI_OPERATION_DESELECT)

/-- A write burst: all of its shots, or those up to the one whose address could not be set. It has none if the
wait for the flash has failed. -/
def write (beyond : BitVec 8) (flags : Word) (bytes : List (BitVec 8)) (c : BpiCursor) (outcome : BpiOutcome) :
    List MeantWrite × BpiCursor :=
  let c := c.releaseIf flags BPI_OPERATION_SELECT
  if outcome.ret = STATUS_OK then
    finish flags (c.shots l beyond flags bytes (Pieces.count BPI_BYTES_PER_WRITE bytes.length))
  else if outcome.shots = 0 then ([], c.release)
  else
    let before := c.shots l beyond flags bytes (outcome.shots - 1)
    let last := before.2.shot l beyond flags (Pieces.slice BPI_BYTES_PER_WRITE bytes (outcome.shots - 1)) false
    (before.1 ++ last.1, last.2.release)

/-- Reads of data leave the address somewhere, and the bank where it was unless a chunk has failed. -/
def afterRead (c : BpiCursor) (flags : Word) (failed : Bool) : BpiCursor :=
  if flags &&& BPI_OPERATION_READDATA ≠ 0 then ⟨c.sure && !failed, none⟩ else c

def read (c : BpiCursor) (flags : Word) (outcome : BpiOutcome) : BpiCursor :=
  let c := c.releaseIf flags BPI_OPERATION_SELECT
  if outcome.ret = STATUS_OK then (c.afterRead flags outcome.failed).releaseIf flags BPI_OPERATION_DESELECT
  else c.release

/-- What an operation means for the flash. -/
def serve (beyond : BitVec 8) (c : BpiCursor) (outcome : BpiOutcome) : BpiOperation → List MeantWrite × BpiCursor
  | .burst (.write flags bytes) => c.write l beyond flags bytes outcome
  | .burst (.read flags _) => ([], c.read flags outcome)
  | .burst (.stateChange flags) => ([], c.releaseIf flags BPI_OPERATION_DESELECT)
  | .command .getActiveBank => ([], c)
  | .command (.setActiveBank bankNumber) =>
    ([], if outcome.ret = STATUS_OK then ⟨true, c.place.map fun p => { p with bank := bankNumber.toNat }⟩
      else if outcome.ret = STATUS_ERR_INVALID_ARGUMENT then c
      else ⟨false, none⟩)

def serveAll : BpiCursor → List ((BpiFlashEnvironment × BpiOperation) × BpiOutcome) → List MeantWrite
  | _, [] => []
  | c, ((env, op), outcome) :: ops =>
    let (ws, c) := c.serve l env.beyond outcome op
    ws ++ serveAll c ops

end BpiCursor

/-! ### The flash follows the cursor -/

/-- The flash got the word, and where it was meant to go. -/
def Placed (w : BpiWrite) (m : MeantWrite) : Prop := w.word = m.word ∧ ∀ p, m.place = some p → w.location = p

/-- What was written from one state to the next one. -/
def Wrote (s s' : BpiFlash) (ms : List MeantWrite) : Prop :=
  ∃ ws, s'.writes = s.writes ++ ws ∧ List.Forall₂ Placed ws ms

structure BpiCursor.Knows (l : BpiLayout) (c : BpiCursor) (s : BpiState) : Prop where
  sure : c.sure = true → s.selectedBank = BPI_NO_BANK ∨ s.selectedBank = s.bank
  place : ∀ p, c.place = some p → p = ⟨s.bank, s.addressRegister⟩ ∧ s.addressRegister < 2 ^ l.addressRegWidth

variable {l : BpiLayout} {env : BpiFlashEnvironment} {s s' s'' : BpiFlash} {c : BpiCursor} {t : BpiState}
  {ms ms' : List MeantWrite} {flags : Word} {st : BurstState}

theorem Wrote.refl (h : s'.writes = s.writes) : Wrote s s' [] := ⟨[], by rw [h, List.append_nil], .nil⟩

theorem Wrote.trans (h : Wrote s s' ms) (h' : Wrote s' s'' ms') : Wrote s s'' (ms ++ ms') := by
  obtain ⟨ws, hws, hplaced⟩ := h
  obtain ⟨ws', hws', hplaced'⟩ := h'
  exact ⟨ws ++ ws', by rw [hws', hws, List.append_assoc], List.rel_append hplaced hplaced'⟩

theorem Wrote.of_writes (h : Wrote s s' ms) (hsame : s''.writes = s'.writes) : Wrote s s'' ms := by
  obtain ⟨ws, hws, hplaced⟩ := h
  exact ⟨ws, hsame.trans hws, hplaced⟩

/-- Only the bank and the address register matter. -/
theorem BpiCursor.Knows.congr (h : c.Knows l s.ctrl) (hselected : t.selectedBank = s.ctrl.selectedBank)
    (hbank : t.bank = s.ctrl.bank) (hregister : t.addressRegister = s.ctrl.addressRegister) : c.Knows l t := by
  refine ⟨?_, ?_⟩
  · rw [hselected, hbank]
    exact h.sure
  · rw [hbank, hregister]
    exact h.place

theorem knows_nothing (l : BpiLayout) (t : BpiState) : (BpiCursor.mk false none).Knows l t := by
  refine ⟨fun hsure => ?_, fun p hp => ?_⟩
  · cases hsure
  · cases hp

/-! ### Commands and data -/

theorem command_flag {w m : Word} (cmd : BitVec 16) (hm : m.setWidth 16 = 0#16) :
    (w ||| cmd.setWidth 32) &&& m = w &&& m := by
  ext i hi
  have hlow : i < 16 → m.getLsbD i = false := by
    intro hlt
    have hbit := congrArg (fun v => v.getLsbD i) hm
    simpa [BitVec.getLsbD_setWidth, hlt] using hbit
  by_cases hlt : i < 16
  · simp [BitVec.getLsbD_eq_getElem hi ▸ hlow hlt]
  · have hcmd : cmd.getLsbD i = false := BitVec.getLsbD_of_ge cmd i (Nat.le_of_not_lt hlt)
    simp [hcmd]

theorem command_word {w : Word} (cmd : BitVec 16) (hw : w.setWidth 16 = 0#16) :
    (w ||| cmd.setWidth 32).setWidth 16 = cmd := by
  rw [BitVec.setWidth_or, hw, BitVec.zero_or, BitVec.setWidth_setWidth_of_le _ (by decide), BitVec.setWidth_eq]

theorem writeCommand_eq (s : BpiFlash) (cmd : BitVec 16) : writeCommand l s cmd =
    { s with
      ctrl := loadAddress s.ctrl
      writes := s.writes ++ [⟨⟨s.ctrl.bank, s.ctrl.addressRegister⟩, cmd⟩] } := by
  unfold writeCommand flashCommand
  rw [command_flag cmd (by decide), command_flag cmd (by decide), command_word cmd (by decide),
    if_pos (by decide)]
  dsimp only
  rw [if_pos (by decide)]
  rfl

theorem writeCommandIncrementAddress_eq (s : BpiFlash) (cmd : BitVec 16) : writeCommandIncrementAddress l s cmd =
    { s with
      ctrl := incrementAddress l s.ctrl
      writes := s.writes ++ [⟨⟨s.ctrl.bank, (s.ctrl.addressCounter + 1) % 2 ^ l.addressRegWidth⟩, cmd⟩] } := by
  unfold writeCommandIncrementAddress flashCommand
  rw [command_flag cmd (by decide), command_flag cmd (by decide), command_word cmd (by decide),
    if_neg (by decide)]
  dsimp only
  rw [if_pos (by decide)]
  rfl

/-- What commands and data leave alone. -/
structure BpiFlash.Kept (s s' : BpiFlash) : Prop where
  selectedBank : s'.ctrl.selectedBank = s.ctrl.selectedBank
  bank : s'.ctrl.bank = s.ctrl.bank
  addressRegister : s'.ctrl.addressRegister = s.ctrl.addressRegister
  flags : s'.ctrl.flags = s.ctrl.flags
  shots : s'.shots = s.shots

theorem BpiFlash.Kept.refl (s : BpiFlash) : s.Kept s := ⟨rfl, rfl, rfl, rfl, rfl⟩

theorem BpiFlash.Kept.trans (h : s.Kept s') (h' : s'.Kept s'') : s.Kept s'' :=
  ⟨h'.selectedBank.trans h.selectedBank, h'.bank.trans h.bank, h'.addressRegister.trans h.addressRegister,
    h'.flags.trans h.flags, h'.shots.trans h.shots⟩

theorem BpiFlash.Kept.knows (h : s.Kept s') (hc : c.Knows l s.ctrl) : c.Knows l s'.ctrl :=
  hc.congr h.selectedBank h.bank h.addressRegister

theorem writeCommand_kept (s : BpiFlash) (cmd : BitVec 16) : s.Kept (writeCommand l s cmd) := by
  rw [writeCommand_eq]
  exact ⟨rfl, rfl, rfl, rfl, rfl⟩

theorem writeCommand_wrote (hc : c.Knows l s.ctrl) (cmd : BitVec 16) :
    Wrote s (writeCommand l s cmd) [⟨c.place, cmd⟩] := by
  rw [writeCommand_eq]
  exact ⟨_, rfl, .cons ⟨rfl, fun p hp => (hc.place p hp).1.symm⟩ .nil⟩

theorem setFlashAddress_kept (s : BpiFlash) (buffer : List (BitVec 8)) : s.Kept (s.setFlashAddress buffer) :=
  ⟨rfl, rfl, rfl, rfl, rfl⟩

/-- The words of the data up to the word `n`, with the address of that one in the counter. -/
theorem bpiWriteData_words (hc : c.Knows l s.ctrl) (word : Nat → BitVec 16) (n : Nat) :
    let s' := (List.range' 1 n).foldl (fun s i => writeCommandIncrementAddress l s (word i))
      (writeCommand l s (word 0))
    Wrote s s' ((List.range (n + 1)).map fun i => ⟨c.place.map (BpiCursor.behind l · i), word i⟩) ∧ s.Kept s' ∧
      ∀ p, c.place = some p → s'.ctrl.addressCounter = (p.address + n) % 2 ^ l.addressRegWidth := by
  induction n with
  | zero =>
    refine ⟨?_, writeCommand_kept s _, fun p hp => ?_⟩
    · refine ⟨_, by rw [List.range'_zero, List.foldl_nil, writeCommand_eq], .cons ⟨rfl, fun p hp => ?_⟩ .nil⟩
      obtain ⟨q, hq, rfl⟩ := Option.map_eq_some_iff.mp hp
      obtain ⟨rfl, hlt⟩ := hc.place q hq
      rw [BpiCursor.behind, Nat.add_zero, Nat.mod_eq_of_lt hlt]
    · obtain ⟨rfl, hlt⟩ := hc.place p hp
      rw [List.range'_zero, List.foldl_nil, writeCommand_eq, Nat.add_zero, Nat.mod_eq_of_lt hlt]
      rfl
  | succ n ih =>
    obtain ⟨hwrote, hkept, hcounter⟩ := ih
    have hlast : List.range' 1 (n + 1) = List.range' 1 n ++ [1 + n] := by
      rw [List.range'_concat, Nat.one_mul]
    rw [hlast, List.foldl_append, List.foldl_cons, List.foldl_nil, List.range_succ, List.map_append,
      writeCommandIncrementAddress_eq, Nat.add_comm 1 n]
    refine ⟨hwrote.trans ⟨_, rfl, .cons ⟨rfl, fun p hp => ?_⟩ .nil⟩, hkept.trans ⟨rfl, rfl, rfl, rfl, rfl⟩,
      fun p hp => ?_⟩
    · obtain ⟨q, hq, rfl⟩ := Option.map_eq_some_iff.mp hp
      rw [hcounter q hq, Nat.mod_add_mod, hkept.bank, BpiCursor.behind, (hc.place q hq).1, Nat.add_assoc]
    · rw [incrementAddress, hcounter p hp, Nat.mod_add_mod, Nat.add_assoc]

theorem bpiWriteData_wrote (hc : c.Knows l s.ctrl) (beyond : BitVec 8) (buffer : List (BitVec 8)) :
    Wrote s (bpiWriteData l beyond s buffer) ((List.range (max 1 (buffer.length / 2))).map fun i =>
      ⟨c.place.map (BpiCursor.behind l · i), localdata beyond buffer i⟩) ∧ s.Kept (bpiWriteData l beyond s buffer) := by
  obtain ⟨hwrote, hkept, -⟩ := bpiWriteData_words hc (localdata beyond buffer) (buffer.length / 2 - 1)
  have hcount : max 1 (buffer.length / 2) = buffer.length / 2 - 1 + 1 := by omega
  rw [hcount]
  exact ⟨hwrote, hkept⟩

/-! ### A shot -/

theorem inBank_lt (adr : Nat) : l.inBank adr < 2 ^ l.addressRegWidth := Nat.mod_lt _ (Nat.two_pow_pos _)

/-- An address is set, or its bank could not be selected. -/
theorem setAddress_follows (env : BpiEnvironment) (hc : c.Knows l t) (word adr : Nat) :
    ∃ t' ret, setAddress l env t word adr = (t', ret) ∧ (ret = 0 ∨ ret = STATUS_ERR_DEV_IO) ∧
      (c.goTo l adr (ret = 0)).Knows l t' ∧ t'.flags = t.flags := by
  by_cases hselected : l.bank adr = t.selectedBank
  · refine ⟨_, 0, setAddress_selected hselected, .inl rfl, ?_, rfl⟩
    rw [BpiCursor.goTo, if_pos (by rfl)]
    refine ⟨hc.sure, fun p hp => ?_⟩
    dsimp only at hp
    split_ifs at hp with hsure
    · cases hp
      refine ⟨?_, inBank_lt adr⟩
      rcases hc.sure hsure.1 with hnone | hbank
      · exact absurd (hselected.trans hnone) hsure.2
      · rw [BpiLayout.location, hselected, hbank]
  · by_cases hswitch : switchBank env word
    · refine ⟨_, 0, setAddress_switched hselected hswitch, .inl rfl, ?_, rfl⟩
      rw [BpiCursor.goTo, if_pos (by rfl)]
      refine ⟨fun _ => .inr rfl, fun p hp => ?_⟩
      dsimp only at hp
      split_ifs at hp
      · cases hp
        exact ⟨rfl, inBank_lt adr⟩
    · refine ⟨{ t with bank := env.bankAfterFailure word }, STATUS_ERR_DEV_IO, ?_, .inr rfl, ?_, rfl⟩
      · unfold setAddress selectBank
        dsimp only
        rw [if_pos hselected, if_neg (not_le.mpr (bank_lt_bankCount adr)), if_neg hswitch]
        rfl
      · rw [BpiCursor.goTo, if_neg (by decide)]
        exact knows_nothing l _

theorem writeCommandAddress_follows (env : BpiFlashEnvironment) (hc : c.Knows l s.ctrl) (adr : Nat)
    (cmd : BitVec 16) :
    ∃ s' ret, writeCommandAddress l env s adr cmd = (s', ret) ∧ (ret = 0 ∨ ret = STATUS_ERR_DEV_IO) ∧
      Wrote s s' (if ret = 0 then [⟨(c.goTo l adr (ret = 0)).place, cmd⟩] else []) ∧
      (c.goTo l adr (ret = 0)).Knows l s'.ctrl ∧ s'.ctrl.flags = s.ctrl.flags ∧ s'.shots = s.shots := by
  obtain ⟨t, ret, hset, hret, hknows, hflags⟩ := setAddress_follows env.toBpiEnvironment hc s.shots adr
  unfold writeCommandAddress
  rw [hset]
  dsimp only
  by_cases hzero : ret = 0
  · rw [if_neg (not_not.mpr hzero)]
    have hkept := writeCommand_kept (l := l) { s with ctrl := t } cmd
    refine ⟨_, 0, rfl, .inl rfl, ?_, ?_, hkept.flags.trans hflags, hkept.shots⟩
    · rw [if_pos rfl]
      rw [hzero] at hknows
      obtain ⟨ws, hws, hplaced⟩ := writeCommand_wrote (s := { s with ctrl := t }) hknows cmd
      exact ⟨ws, hws, hplaced⟩
    · rw [hzero] at hknows
      exact hkept.knows hknows
  · rw [if_pos hzero]
    refine ⟨_, ret, rfl, hret, ?_, hknows, hflags, rfl⟩
    rw [if_neg hzero]
    exact .refl rfl

/-- The command byte of a shot. -/
theorem shotCommand_follows (hc : c.Knows l s.ctrl) (flags : Word) (cmd : BitVec 16) : ∃ s',
    (if flags &&& BPI_OPERATION_WRITECMD ≠ 0 then writeCommand l s cmd else s) = s' ∧
      Wrote s s' (if flags &&& BPI_OPERATION_WRITECMD ≠ 0 then [⟨c.place, cmd⟩] else []) ∧ s.Kept s' := by
  by_cases hcmd : flags &&& BPI_OPERATION_WRITECMD ≠ 0
  · rw [if_pos hcmd, if_pos hcmd]
    exact ⟨_, rfl, writeCommand_wrote hc cmd, writeCommand_kept s cmd⟩
  · rw [if_neg hcmd, if_neg hcmd]
    exact ⟨_, rfl, .refl rfl, .refl s⟩

/-- The address of a shot for reads. -/
theorem shotReadAddress_follows (s : BpiFlash) (flags : Word) (buffer : List (BitVec 8)) : ∃ s',
    (if flags &&& BPI_OPERATION_SETADDRESS ≠ 0 then s.setFlashAddress buffer else s) = s' ∧
      s'.writes = s.writes ∧ s.Kept s' := by
  split_ifs
  · exact ⟨_, rfl, rfl, setFlashAddress_kept s buffer⟩
  · exact ⟨_, rfl, rfl, .refl s⟩

/-- The address of a shot for the flash, with the command byte behind it. -/
theorem shotAddress_follows (env : BpiFlashEnvironment) (hc : c.Knows l s.ctrl) (flags : Word)
    (buffer : List (BitVec 8)) (cmd : BitVec 16) : ∃ s' ret,
    (if flags &&& BPI_OPERATION_WRITECMDADDRESS ≠ 0 then
      writeCommandAddress l env (s.setFlashAddress buffer) (s.setFlashAddress buffer).ctrl.address cmd
    else (s, 0)) = (s', ret) ∧ (ret = 0 ∨ ret = STATUS_ERR_DEV_IO) ∧
      Wrote s s' (if decide (flags &&& BPI_OPERATION_WRITECMDADDRESS ≠ 0) ∧ decide (ret = 0) then
        [⟨(c.shot l env.beyond flags buffer (ret = 0)).2.place, cmd⟩] else []) ∧
      (c.shot l env.beyond flags buffer (ret = 0)).2.Knows l s'.ctrl ∧ s'.ctrl.flags = s.ctrl.flags ∧
      s'.shots = s.shots := by
  unfold BpiCursor.shot
  dsimp only
  by_cases haddr : flags &&& BPI_OPERATION_WRITECMDADDRESS ≠ 0
  · have hset := setFlashAddress_kept s buffer
    obtain ⟨s', ret, hs', hret, hwrote, hknows, hflags, hshots⟩ :=
      writeCommandAddress_follows env (hset.knows hc) (addressBytes buffer).toNat cmd
    simp only [if_pos haddr, decide_eq_true haddr, if_true, true_and, decide_eq_true_eq]
    exact ⟨s', ret, hs', hret, hwrote, hknows, hflags, hshots⟩
  · simp only [if_neg haddr, decide_eq_false haddr]
    refine ⟨s, 0, rfl, .inl rfl, ?_, hc, rfl, rfl⟩
    rw [if_neg (by simp)]
    exact .refl rfl

/-- The data of a shot. -/
theorem shotData_follows (hc : c.Knows l s.ctrl) (beyond : BitVec 8) (flags : Word) (buffer : List (BitVec 8)) : ∃ s',
    (if flags &&& BPI_OPERATION_WRITEDATA ≠ 0 then bpiWriteData l beyond s buffer else s) = s' ∧
      Wrote s s' (if flags &&& BPI_OPERATION_WRITEDATA ≠ 0 then
        (List.range (max 1 (buffer.length / 2))).map fun i =>
          ⟨c.place.map (BpiCursor.behind l · i), localdata beyond buffer i⟩
      else []) ∧ s.Kept s' := by
  by_cases hdata : flags &&& BPI_OPERATION_WRITEDATA ≠ 0
  · rw [if_pos hdata, if_pos hdata]
    obtain ⟨hwrote, hkept⟩ := bpiWriteData_wrote hc beyond buffer
    exact ⟨_, rfl, hwrote, hkept⟩
  · rw [if_neg hdata, if_neg hdata]
    exact ⟨_, rfl, .refl rfl, .refl s⟩

theorem bpiWriteShot_follows (env : BpiFlashEnvironment) (hc : c.Knows l s.ctrl) (hflags : s.ctrl.flags = flags)
    {buffer : List (BitVec 8)} (hpos : 0 < buffer.length) :
    ∃ s' ret, bpiWriteShot l env s buffer = (s', ret) ∧ (ret = 0 ∨ ret = STATUS_ERR_DEV_IO) ∧
      Wrote s s' (c.shot l env.beyond flags buffer (ret = 0)).1 ∧
      (c.shot l env.beyond flags buffer (ret = 0)).2.Knows l s'.ctrl ∧ s'.ctrl.flags = flags ∧
      s'.shots = s.shots + 1 := by
  obtain ⟨cmd, rest, rfl⟩ := List.exists_cons_of_length_pos hpos
  obtain ⟨s₁, hs₁, hwrote₁, hkept₁⟩ := shotCommand_follows hc flags (cmd.setWidth 16)
  obtain ⟨s₂, hs₂, hwrites₂, hkept₂⟩ := shotReadAddress_follows s₁ flags (cmd :: rest)
  obtain ⟨s₃, ret, hs₃, hret, hwrote₃, hc₃, hflags₃, hshots₃⟩ :=
    shotAddress_follows env ((hkept₁.trans hkept₂).knows hc) flags (cmd :: rest) (cmd.setWidth 16)
  obtain ⟨s₄, hs₄, hwrote₄, hkept₄⟩ := shotData_follows hc₃ env.beyond flags (cmd :: rest)
  refine ⟨{ s₄ with shots := s₄.shots + 1 }, ret, ?_, hret, ?_, ?_, ?_, ?_⟩
  · unfold bpiWriteShot
    dsimp only
    rw [hflags, hs₁, hs₂, hs₃]
    dsimp only
    rw [hs₄]
  · have hall := ((hwrote₁.of_writes hwrites₂).trans hwrote₃).trans hwrote₄
    exact hall.of_writes rfl
  · exact hkept₄.knows hc₃
  · exact hkept₄.flags.trans (hflags₃.trans (hkept₂.flags.trans (hkept₁.flags.trans hflags)))
  · dsimp only
    rw [hkept₄.shots, hshots₃, hkept₂.shots, hkept₁.shots]

/-! ### Bursts -/

theorem BpiCursor.Knows.release (hc : c.Knows l t) : c.release.Knows l (invalidateBank t) :=
  ⟨fun _ => .inl rfl, hc.place⟩

theorem knows_releaseIf (hc : c.Knows l t) (flags flag : Word) :
    (c.releaseIf flags flag).Knows l (if flags &&& flag ≠ 0 then invalidateBank t else t) := by
  unfold BpiCursor.releaseIf
  split_ifs
  · exact hc.release
  · exact hc

theorem preBurstFlags_keep (env : BpiEnvironment) (t : BpiState) (flags : Word) :
    (bpiHandlePreBurstFlags env t flags).1.flags = flags ∧
      (bpiHandlePreBurstFlags env t flags).1.failed = t.failed := by
  unfold bpiHandlePreBurstFlags
  by_cases hselect : flags &&& BPI_OPERATION_SELECT ≠ 0
  · simp only [if_pos hselect]
    exact ⟨rfl, rfl⟩
  · simp only [if_neg hselect, and_self]

theorem postBurstFlags_failed (t : BpiState) (flags : Word) :
    (bpiHandlePostBurstFlags t flags).1.failed = t.failed := by
  unfold bpiHandlePostBurstFlags
  dsimp only
  split_ifs <;> rfl

/-- The flags before a burst. The wait for the flash may fail. -/
theorem bpiFlash_pre (env : BpiFlashEnvironment) (hc : c.Knows l s.ctrl) (flags : Word) (burstFlags : BitVec 8)
    (isFirst isLast : Bool) :
    ∃ s' ret, bpiFlashStep l env s ⟨.handlePreBurstFlags flags, burstFlags, isFirst, isLast⟩ = some (s', ret) ∧
      s'.writes = s.writes ∧ (c.releaseIf flags BPI_OPERATION_SELECT).Knows l s'.ctrl ∧ s'.ctrl.flags = flags ∧
      s'.shots = 0 ∧ s'.ctrl.failed = false := by
  obtain ⟨hflags, hfailed⟩ := preBurstFlags_keep env.toBpiEnvironment { s.ctrl with failed := false } flags
  refine ⟨_, _, rfl, rfl, ?_, hflags, rfl, hfailed⟩
  have hknows := knows_releaseIf (t := { s.ctrl with failed := false, flags := flags })
    ⟨hc.sure, hc.place⟩ flags BPI_OPERATION_SELECT
  exact ⟨hknows.sure, hknows.place⟩

/-- The flags behind a burst. -/
theorem bpiFlash_post (env : BpiFlashEnvironment) (hc : c.Knows l s.ctrl) (flags : Word) (burstFlags : BitVec 8)
    (isFirst isLast : Bool) :
    ∃ s', bpiFlashStep l env s ⟨.handlePostBurstFlags flags, burstFlags, isFirst, isLast⟩ = some (s', 0) ∧
      s'.writes = s.writes ∧ (c.releaseIf flags BPI_OPERATION_DESELECT).Knows l s'.ctrl ∧ s'.shots = s.shots ∧
      s'.ctrl.failed = s.ctrl.failed := by
  refine ⟨_, rfl, rfl, ?_, rfl, postBurstFlags_failed s.ctrl flags⟩
  have hknows := knows_releaseIf hc flags BPI_OPERATION_DESELECT
  exact ⟨hknows.sure, hknows.place⟩

theorem bpiFlash_aborted (env : BpiFlashEnvironment) (hc : c.Knows l s.ctrl) :
    ∃ s', bpiFlashStep l env s BurstCall.aborted = some (s', 0) ∧ s'.writes = s.writes ∧
      c.release.Knows l s'.ctrl ∧ s'.shots = s.shots :=
  ⟨_, rfl, rfl, ⟨fun _ => .inl rfl, hc.place⟩, rfl⟩

/-- The first `k` shots of a write burst have succeeded. -/
structure BpiWriting (l : BpiLayout) (env : BpiFlashEnvironment) (s : BpiFlash) (c : BpiCursor) (flags : Word)
    (buf : List (BitVec 8)) (k : Nat) (s' : BpiFlash) : Prop where
  wrote : Wrote s s' (c.shots l env.beyond flags buf k).1
  knows : (c.shots l env.beyond flags buf k).2.Knows l s'.ctrl
  flags' : s'.ctrl.flags = flags
  shots' : s'.shots = k

/-- The wait for the flash has failed, or the shot behind the first `k` ones. -/
inductive BpiWriteFailed (l : BpiLayout) (env : BpiFlashEnvironment) (s : BpiFlash) (c : BpiCursor) (flags : Word)
    (buf : List (BitVec 8)) (s' : BpiFlash) : Prop
  | wait (wrote : Wrote s s' []) (knows : c.Knows l s'.ctrl) (shots : s'.shots = 0)
  | shot (k : Nat) (shots : s'.shots = k + 1)
    (wrote : Wrote s s' ((c.shots l env.beyond flags buf k).1 ++ ((c.shots l env.beyond flags buf k).2.shot l
      env.beyond flags (Pieces.slice BPI_BYTES_PER_WRITE buf k) false).1))
    (knows : ((c.shots l env.beyond flags buf k).2.shot l env.beyond flags
      (Pieces.slice BPI_BYTES_PER_WRITE buf k) false).2.Knows l s'.ctrl)

theorem finish_fst (flags : Word) (all : List MeantWrite × BpiCursor) :
    (BpiCursor.finish flags all).1 = all.1 := rfl

theorem finish_snd (flags : Word) (all : List MeantWrite × BpiCursor) :
    (BpiCursor.finish flags all).2 = all.2.releaseIf flags BPI_OPERATION_DESELECT := rfl

theorem write_succeeded (c : BpiCursor) (beyond : BitVec 8) (flags : Word) (bytes : List (BitVec 8)) (shots : Nat)
    (failed : Bool) : c.write l beyond flags bytes ⟨STATUS_OK, shots, failed⟩ = BpiCursor.finish flags
      ((c.releaseIf flags BPI_OPERATION_SELECT).shots l beyond flags bytes
        (Pieces.count BPI_BYTES_PER_WRITE bytes.length)) := by
  unfold BpiCursor.write
  rw [if_pos rfl]

theorem bpiBytesPerWrite_pos : 0 < BPI_BYTES_PER_WRITE := by decide

theorem bpi_writeRule (env : BpiFlashEnvironment) (s : BpiFlash) (c : BpiCursor) (flags : Word)
    (buf : List (BitVec 8)) :
    WriteRule (bpiFlashStep l env) bpiBase flags buf.length
      (fun bytes s' => ∃ k, bytes = buf.drop (k * BPI_BYTES_PER_WRITE) ∧
        k ≤ Pieces.count BPI_BYTES_PER_WRITE buf.length ∧ BpiWriting l env s c flags buf k s')
      (BpiWriteFailed l env s c flags buf) where
  shot := by
    rintro bytes s₁ hpos ⟨k, rfl, -, hs₁⟩
    have hlt : k * BPI_BYTES_PER_WRITE < buf.length := by
      rw [List.length_drop] at hpos
      omega
    have hslice : 0 < (Pieces.slice BPI_BYTES_PER_WRITE buf k).length := by
      rw [Pieces.slice_length]
      exact Pieces.length_pos bpiBytesPerWrite_pos hlt
    obtain ⟨s₂, ret, hshot, hret, hwrote, hknows, hflags, hshots⟩ :=
      bpiWriteShot_follows env hs₁.knows hs₁.flags' hslice
    rcases hret with rfl | rfl
    · refine .of_ok (congrArg some hshot) ⟨k + 1, ?_, (Pieces.lt_count_iff bpiBytesPerWrite_pos).mpr hlt, ?_⟩
      · rw [List.drop_drop, Nat.succ_mul]
        rfl
      · exact ⟨hs₁.wrote.trans hwrote, hknows, hflags, by rw [hshots, hs₁.shots']⟩
    · exact .of_error (congrArg some hshot) (by decide)
        (.shot k (by rw [hshots, hs₁.shots']) (hs₁.wrote.trans hwrote) hknows)
  wait := fun bytes s₁ isFirst isLast hs₁ => .of_ok rfl hs₁

theorem bpi_write (env : BpiFlashEnvironment) (st : BurstState) (hc : c.Knows l s.ctrl) (flags : Word)
    (buf : List (BitVec 8)) :
    ∃ ret st' s', bpiBurst l env st s (.write flags buf) = some (ret, st', s') ∧
      Wrote s s' (c.write l env.beyond flags buf ⟨ret, s'.shots, s'.ctrl.failed⟩).1 ∧
      (c.write l env.beyond flags buf ⟨ret, s'.shots, s'.ctrl.failed⟩).2.Knows l s'.ctrl := by
  have hleads : BurstLeads (bpiBurst l env st s (.write flags buf))
      (fun s' => ∃ s₁, BpiWriteFailed l env s (c.releaseIf flags BPI_OPERATION_SELECT) flags buf s₁ ∧
        bpiFlashStep l env s₁ BurstCall.aborted = some (s', 0))
      (fun s' => ∃ s₁, BpiWriting l env s (c.releaseIf flags BPI_OPERATION_SELECT) flags buf
          (Pieces.count BPI_BYTES_PER_WRITE buf.length) s₁ ∧
        ∃ isFirst, bpiFlashStep l env s₁ ⟨.handlePostBurstFlags flags, flags.setWidth 8, isFirst, false⟩ =
          some (s', 0)) := by
    refine ctrlWriteBurst_leads (bpi_writeRule env s _ flags buf) ?_ ?_ fun s₁ hs₁ => ⟨_, rfl, s₁, hs₁, rfl⟩
    · obtain ⟨s₁, ret, hstep, hwrites, hknows, hflags, hshots, -⟩ :=
        bpiFlash_pre env hc flags (flags.setWidth 8) st.isFirstShot st.isLastShot
      exact ⟨_, hstep, fun _ => .wait (.refl hwrites) hknows hshots,
        fun _ => ⟨0, by rw [Nat.zero_mul, List.drop_zero], Nat.zero_le _, .refl hwrites, hknows, hflags, hshots⟩⟩
    · rintro s₁ isFirst ⟨k, hdrop, hle, hs₁⟩
      have hend : k = Pieces.count BPI_BYTES_PER_WRITE buf.length := by
        refine Nat.le_antisymm hle (Nat.le_of_not_lt fun hlt => ?_)
        have hleft := (Pieces.lt_count_iff bpiBytesPerWrite_pos).mp hlt
        exact Nat.not_lt.mpr (List.drop_eq_nil_iff.mp hdrop.symm) hleft
      rw [hend] at hs₁
      exact ⟨_, rfl, s₁, hs₁, isFirst, rfl⟩
  obtain ⟨ret, st', s', hburst, ⟨rfl, s₁, hs₁, isFirst, hpost⟩ | ⟨rfl, s₁, hs₁, habort⟩⟩ := hleads
  · obtain ⟨s₂, hstep, hwrites, hknows, -⟩ := bpiFlash_post env hs₁.knows flags (flags.setWidth 8) isFirst false
    obtain rfl : s₂ = s' := (Prod.mk.inj (Option.some.inj (hstep.symm.trans hpost))).1
    refine ⟨_, st', s₂, hburst, ?_⟩
    rw [write_succeeded, finish_fst, finish_snd]
    exact ⟨hs₁.wrote.of_writes hwrites, hknows⟩
  · have hne : STATUS_ERROR ≠ STATUS_OK := by decide
    refine ⟨_, st', s', hburst, ?_⟩
    unfold BpiCursor.write
    rw [if_neg hne]
    cases hs₁ with
    | wait hwrote hknows hshots =>
      obtain ⟨s₂, hstep, hwrites, hreleased, hkept⟩ := bpiFlash_aborted env hknows
      obtain rfl : s₂ = s' := (Prod.mk.inj (Option.some.inj (hstep.symm.trans habort))).1
      rw [if_pos (hkept.trans hshots)]
      exact ⟨hwrote.of_writes hwrites, hreleased⟩
    | shot k hshots hwrote hknows =>
      obtain ⟨s₂, hstep, hwrites, hreleased, hkept⟩ := bpiFlash_aborted env hknows
      obtain rfl : s₂ = s' := (Prod.mk.inj (Option.some.inj (hstep.symm.trans habort))).1
      have hcount : s₂.shots = k + 1 := hkept.trans hshots
      rw [if_neg (by dsimp only; omega)]
      dsimp only
      rw [hcount, Nat.add_sub_cancel]
      exact ⟨hwrote.of_writes hwrites, hreleased⟩

/-! ### Reads -/

/-- The banks and the flags of a burst. -/
structure SameBank (t t' : BpiState) : Prop where
  selectedBank : t'.selectedBank = t.selectedBank
  bank : t'.bank = t.bank
  flags : t'.flags = t.flags

theorem SameBank.refl (t : BpiState) : SameBank t t := ⟨rfl, rfl, rfl⟩

theorem SameBank.trans {t' t'' : BpiState} (h : SameBank t t') (h' : SameBank t' t'') : SameBank t t'' :=
  ⟨h'.selectedBank.trans h.selectedBank, h'.bank.trans h.bank, h'.flags.trans h.flags⟩

theorem writeDataRegister_sameBank (t : BpiState) (command : BpiReadCommand) :
    SameBank t (writeDataRegister l t command) := by
  cases command with
  | read => exact ⟨rfl, rfl, rfl⟩
  | readInc => exact ⟨rfl, rfl, rfl⟩
  | readBurstInc count =>
    change SameBank t ((fun s => issueRead (incrementAddress l s))^[count + 1] t)
    generalize count + 1 = n
    induction n with
    | zero => exact .refl t
    | succ n ih =>
      rw [Function.iterate_succ_apply']
      exact ih.trans ⟨rfl, rfl, rfl⟩

theorem readCommands_sameBank (commands : List BpiReadCommand) (t : BpiState) :
    SameBank t (commands.foldl (writeDataRegister l) t) := by
  induction commands generalizing t with
  | nil => exact .refl t
  | cons command commands ih => exact (writeDataRegister_sameBank t command).trans (ih _)

theorem readWords_sameBank (env : BpiEnvironment) (todo : Nat) (t : BpiState) (word : Nat) :
    SameBank t (readWords env todo t word).1 := by
  induction todo generalizing t word with
  | zero => exact .refl t
  | succ todo ih =>
    unfold readWords
    split
    · exact ⟨rfl, rfl, rfl⟩
    · obtain ⟨hselected, hbank, hflags⟩ := ih _ (word + 1)
      exact ⟨hselected, hbank, hflags⟩

/-- A chunk, once its address is set. -/
theorem chunk_sameBank (env : BpiEnvironment) (word length : Nat) (t : BpiState) :
    SameBank t (readWords env length ((readCommands length).foldl (writeDataRegister l) t) word).1 :=
  (readCommands_sameBank _ t).trans (readWords_sameBank env length _ word)

theorem readData_flags (l : BpiLayout) (env : BpiEnvironment) (t : BpiState) (adr word length : Nat) :
    (readData l env t adr word length).1.flags = t.flags := by
  obtain ⟨t', ret, hset, -, -, hflags⟩ :=
    setAddress_follows env (knows_nothing l t) word adr
  unfold readData
  rw [hset]
  dsimp only
  split_ifs
  · exact hflags
  · exact (chunk_sameBank env word length t').flags.trans hflags

/-- A chunk that does not fail leaves the flash in the bank that is selected. -/
theorem readData_sure (env : BpiEnvironment) (hc : (BpiCursor.mk true none).Knows l t) (adr word length : Nat)
    (hok : (readData l env t adr word length).2 = 0) :
    (BpiCursor.mk true none).Knows l (readData l env t adr word length).1 := by
  obtain ⟨t', ret, hset, -, hknows, -⟩ := setAddress_follows env hc word adr
  unfold readData at hok ⊢
  rw [hset] at hok ⊢
  dsimp only at hok ⊢
  by_cases hret : ret = 0
  · rw [if_neg (not_not.mpr hret)]
    rw [hret] at hknows
    have hchunk := chunk_sameBank (l := l) env word length t'
    refine ⟨fun _ => ?_, fun p hp => by cases hp⟩
    rw [hchunk.selectedBank, hchunk.bank]
    exact hknows.sure rfl
  · rw [if_pos hret] at hok
    exact absurd hok hret

theorem readChunks_flags (l : BpiLayout) (env : BpiEnvironment) (fuel : Nat) :
    ∀ (t : BpiState) (first wordsLeft index : Nat),
      (readChunks l env fuel t first wordsLeft index).1.flags = t.flags := by
  induction fuel with
  | zero => exact fun t first wordsLeft index => rfl
  | succ fuel ih =>
    intro t first wordsLeft index
    rw [readChunks]
    by_cases hleft : 0 < wordsLeft
    · rw [if_pos hleft]
      generalize (if BPI_READ_FIFO_LENGTH > wordsLeft then wordsLeft else BPI_READ_FIFO_LENGTH) = n
      dsimp only
      have hchunk := readData_flags l env t ((t.address + index) % 2 ^ 32) (first + index) n
      split_ifs
      · exact (ih _ _ _ _).trans hchunk
      · exact hchunk
    · rw [if_neg hleft]

theorem readChunks_sure (env : BpiEnvironment) (fuel : Nat) : ∀ (t : BpiState) (first wordsLeft index : Nat),
    (BpiCursor.mk true none).Knows l t → (readChunks l env fuel t first wordsLeft index).2 = 0 →
    (BpiCursor.mk true none).Knows l (readChunks l env fuel t first wordsLeft index).1 := by
  induction fuel with
  | zero => exact fun t first wordsLeft index hc _ => hc
  | succ fuel ih =>
    intro t first wordsLeft index hc hok
    rw [readChunks] at hok ⊢
    by_cases hleft : 0 < wordsLeft
    · rw [if_pos hleft] at hok ⊢
      generalize (if BPI_READ_FIFO_LENGTH > wordsLeft then wordsLeft else BPI_READ_FIFO_LENGTH) = n at hok ⊢
      dsimp only at hok ⊢
      by_cases hret : (readData l env t ((t.address + index) % 2 ^ 32) (first + index) n).2 = 0
      · rw [if_pos hret] at hok ⊢
        exact ih _ _ _ _ (readData_sure env hc _ _ _ hret) hok
      · rw [if_neg hret] at hok
        exact absurd hok hret
    · rw [if_neg hleft]
      exact hc

/-- The bank is known as long as no chunk has failed. -/
theorem bpiReadShot_follows (env : BpiEnvironment) (hflags : t.flags = flags)
    (hc : (c.afterRead flags t.failed).Knows l t) (buf : Nat) {length : Nat} (hpos : 0 < length) :
    ∃ t', bpiReadShot l env t buf length = (t', 0) ∧ (c.afterRead flags t'.failed).Knows l t' ∧ t'.flags = flags := by
  unfold bpiReadShot
  rw [if_neg (Nat.ne_of_gt hpos), hflags]
  unfold BpiCursor.afterRead at hc ⊢
  split_ifs at hc ⊢ with hread
  · refine ⟨_, rfl, ⟨fun hsure => ?_, fun p hp => by cases hp⟩, ?_⟩
    · dsimp only at hsure ⊢
      simp only [Bool.and_eq_true, Bool.not_eq_true', Bool.or_eq_false_iff, decide_eq_false_iff_not, not_not] at hsure
      obtain ⟨hcursor, hfailed, hok⟩ := hsure
      have hstart : (BpiCursor.mk true none).Knows l t :=
        ⟨fun _ => hc.sure (by rw [hcursor, hfailed]; rfl), fun p hp => by cases hp⟩
      exact (readChunks_sure env _ t _ _ _ hstart hok).sure rfl
    · exact (readChunks_flags l env _ t _ _ _).trans hflags
  · exact ⟨t, rfl, hc, hflags⟩

/-- A read burst leaves the flash as it is. -/
structure BpiReading (l : BpiLayout) (s : BpiFlash) (c : BpiCursor) (flags : Word) (s' : BpiFlash) : Prop where
  writes : s'.writes = s.writes
  knows : (c.afterRead flags s'.ctrl.failed).Knows l s'.ctrl
  flags' : s'.ctrl.flags = flags

theorem bpi_readRule (env : BpiFlashEnvironment) (s : BpiFlash) (c : BpiCursor) (flags : Word) (size : Nat) :
    ReadRule (bpiFlashStep l env) bpiBase flags size (fun _ _ => BpiReading l s c flags)
      (fun s' => s'.writes = s.writes ∧ c.Knows l s'.ctrl) where
  request := fun k j s₁ isFirst isLast hs _ _ _ _ _ => .of_ok rfl ⟨hs.writes, hs.knows, hs.flags'⟩
  result := by
    intro k j s₁ isFirst isLast hs hjk hk _ _
    have hlt : j * bpiBase.maxBytesPerRead.val < size :=
      (Pieces.lt_count_iff bpiBase.maxBytesPerRead.pos).mp (Nat.lt_of_lt_of_le hjk hk)
    have hpos := Pieces.length_pos bpiBase.maxBytesPerRead.pos hlt
    obtain ⟨t, hshot, hknows, hflags⟩ := bpiReadShot_follows env.toBpiEnvironment hs.flags' hs.knows
      (j * bpiBase.maxBytesPerRead.val) hpos
    have hstep : bpiFlashStep l env s₁ ⟨.readShot (j * bpiBase.maxBytesPerRead.val)
        (Pieces.length bpiBase.maxBytesPerRead.val size j), flags.setWidth 8, isFirst, isLast⟩ =
          some ({ s₁ with ctrl := t }, 0) := by
      unfold bpiFlashStep bpiStep
      dsimp only
      rw [hshot]
      rfl
    exact .of_ok hstep ⟨hs.writes, hknows, hflags⟩

theorem knows_afterRead (hc : c.Knows l t) (flags : Word) : (c.afterRead flags false).Knows l t := by
  unfold BpiCursor.afterRead
  split_ifs
  · refine ⟨fun hsure => hc.sure ?_, fun p hp => by cases hp⟩
    simpa using hsure
  · exact hc

theorem bpi_read (env : BpiFlashEnvironment) (st : BurstState) (hc : c.Knows l s.ctrl) (flags : Word) (size : Nat) :
    ∃ ret st' s', bpiBurst l env st s (.read flags size) = some (ret, st', s') ∧ s'.writes = s.writes ∧
      (c.read flags ⟨ret, s'.shots, s'.ctrl.failed⟩).Knows l s'.ctrl := by
  have hleads : BurstLeads (bpiBurst l env st s (.read flags size))
      (fun s' => s'.writes = s.writes ∧ (c.releaseIf flags BPI_OPERATION_SELECT).release.Knows l s'.ctrl)
      (fun s' => s'.writes = s.writes ∧ (((c.releaseIf flags BPI_OPERATION_SELECT).afterRead flags
        s'.ctrl.failed).releaseIf flags BPI_OPERATION_DESELECT).Knows l s'.ctrl) := by
    refine ctrlReadBurst_leads (bpi_readRule env s (c.releaseIf flags BPI_OPERATION_SELECT) flags size) ?_ ?_ ?_
    · obtain ⟨s₁, ret, hstep, hwrites, hknows, hflags, -, hfailed⟩ :=
        bpiFlash_pre env hc flags (flags.setWidth 8) st.isFirstShot st.isLastShot
      refine ⟨_, hstep, fun _ => ⟨hwrites, hknows⟩, fun _ => ⟨hwrites, ?_, hflags⟩⟩
      rw [hfailed]
      exact knows_afterRead hknows flags
    · intro s₁ isFirst hs₁
      obtain ⟨s₂, hstep, hwrites, hknows, -, hfailed⟩ :=
        bpiFlash_post env hs₁.knows flags (flags.setWidth 8) isFirst false
      refine ⟨_, hstep, hwrites.trans hs₁.writes, ?_⟩
      rw [hfailed]
      exact hknows
    · rintro s₁ ⟨hwrites, hknows⟩
      obtain ⟨s₂, hstep, hsame, hreleased, -⟩ := bpiFlash_aborted env hknows
      exact ⟨_, hstep, hsame.trans hwrites, hreleased⟩
  obtain ⟨ret, st', s', hburst, ⟨rfl, hwrites, hknows⟩ | ⟨rfl, hwrites, hknows⟩⟩ := hleads
  · exact ⟨_, st', s', hburst, hwrites, hknows⟩
  · exact ⟨_, st', s', hburst, hwrites, hknows⟩

/-! ### Runs -/

theorem bpiExecuteCommand_follows (env : BpiFlashEnvironment) (hc : c.Knows l s.ctrl) (command : BpiCommand) :
    ∃ s' ret, bpiExecuteCommand l env s command = (s', ret) ∧ s'.writes = s.writes ∧
      (c.serve l env.beyond ⟨ret, 0, false⟩ (.command command)).2.Knows l s'.ctrl := by
  cases command with
  | getActiveBank => exact ⟨s, _, rfl, rfl, hc⟩
  | setActiveBank bankNumber =>
    unfold bpiExecuteCommand selectBank BpiCursor.serve
    dsimp only
    split_ifs with hbank hswitch
    · exact ⟨s, _, rfl, rfl, hc⟩
    · refine ⟨_, _, rfl, rfl, fun _ => .inr rfl, fun p hp => ?_⟩
      obtain ⟨q, hq, rfl⟩ := Option.map_eq_some_iff.mp hp
      obtain ⟨rfl, hlt⟩ := hc.place q hq
      exact ⟨rfl, hlt⟩
    · exact ⟨_, _, rfl, rfl, knows_nothing l _⟩

theorem bpiServe_burst {b : Burst} {ret : Int} {st' : BurstState} (h : bpiBurst l env st s b = some (ret, st', s')) :
    bpiServe l env st s (.burst b) = some (⟨ret, s'.shots, s'.ctrl.failed⟩, st', s') := by
  rw [bpiServe, h]
  rfl

theorem bpiServe_follows (env : BpiFlashEnvironment) (st : BurstState) (hc : c.Knows l s.ctrl) (op : BpiOperation) :
    ∃ outcome st' s', bpiServe l env st s op = some (outcome, st', s') ∧
      Wrote s s' (c.serve l env.beyond outcome op).1 ∧ (c.serve l env.beyond outcome op).2.Knows l s'.ctrl := by
  cases op with
  | command command =>
    obtain ⟨s', ret, hcommand, hwrites, hknows⟩ := bpiExecuteCommand_follows env hc command
    refine ⟨⟨ret, 0, false⟩, st, s', ?_, ?_, hknows⟩
    · rw [bpiServe, hcommand]
    · cases command with
      | getActiveBank => exact .refl hwrites
      | setActiveBank bankNumber => exact .refl hwrites
  | burst b =>
    cases b with
    | write flags bytes =>
      obtain ⟨ret, st', s', hburst, hwrote, hknows⟩ := bpi_write env st hc flags bytes
      exact ⟨_, st', s', bpiServe_burst hburst, hwrote, hknows⟩
    | read flags size =>
      obtain ⟨ret, st', s', hburst, hwrites, hknows⟩ := bpi_read env st hc flags size
      exact ⟨_, st', s', bpiServe_burst hburst, .refl hwrites, hknows⟩
    | stateChange flags =>
      obtain ⟨s', hstep, hwrites, hknows, -⟩ :=
        bpiFlash_post env hc flags st.currentBurstFlags st.isFirstShot st.isLastShot
      obtain ⟨ret, st', hburst⟩ : ∃ ret st', bpiBurst l env st s (.stateChange flags) = some (ret, st', s') := by
        unfold bpiBurst machineBurst stateChangeBurst
        dsimp only
        simp only [BurstState.record, List.nil_append, Replay.replay, hstep, Option.bind_some, Option.map_some]
        exact ⟨_, _, rfl⟩
      exact ⟨_, st', s', bpiServe_burst hburst, .refl hwrites, hknows⟩

/-- A flash that goes into another bank when it is told to go into bank 1. -/
def lostBank : BpiFlashEnvironment where
  polls := fun _ => []
  firstChange := fun _ => false
  secondChange := fun _ => false
  bankAfterFailure := fun _ => 5
  ready := true
  earlier := 0
  beyond := 0
  bankRegister := 0

/-- An address in bank 2, a failed change of the bank, and the same address once more, which the controller takes
for selected. -/
def lostBankRun : List (BpiFlashEnvironment × BpiOperation) :=
  let write : BpiOperation := .burst (.write BPI_OPERATION_WRITECMDADDRESS [0x40, 0x80, 0x00, 0x00])
  [({ lostBank with firstChange := fun _ => true, secondChange := fun _ => true }, write),
    (lostBank, .command (.setActiveBank 1)), (lostBank, write)]

end MenableDriver
