import MenableDriver.Controllers.Machine

/-!
# The BPI controller

`bpi_controller.c`: a flash is read through an address register, a data register and a register for the bank.
A read shot is cut into chunks that fit into the read FIFO. For each of them the bank is selected and the
address is loaded, the reads are queued, and then the answers are taken from the FIFO.

The device answers the reads in their order. What it does in time is a parameter of the model: for each word
of a burst what the polls of the data register find, and for each chunk if the bank can be switched.
-/

namespace MenableDriver

set_option autoImplicit false

def BPI_READ_FIFO_LENGTH : Nat := 16
def BPI_BYTES_PER_READ : Nat := 64 * 1024 * 1024
def BPI_WRITE_FIFO_LENGTH : Nat := 512
def BPI_BYTES_PER_WRITE : Nat := 64 * 1024 * 1024

def BPI_OPERATION_SELECT : Word := 0x001#32
def BPI_OPERATION_DESELECT : Word := 0x002#32
def BPI_OPERATION_WAITREADY : Word := 0x004#32
def BPI_OPERATION_READDATA : Word := 0x080#32

/-- No bank is selected. -/
def BPI_NO_BANK : Nat := 0xFF

/-- What `controller_base_init` gets. -/
def bpiBase : ControllerBase where
  readQueueSize := ⟨BPI_READ_FIFO_LENGTH, by decide, by decide⟩
  maxBytesPerRead := ⟨BPI_BYTES_PER_READ, by decide, by decide⟩
  writeQueueSize := ⟨BPI_WRITE_FIFO_LENGTH, by decide, by decide⟩
  maxBytesPerWrite := ⟨BPI_BYTES_PER_WRITE, by decide, by decide⟩

/-! ### Banks -/

/-- The widths that `bpi_controller_init` gets. The controller keeps the number of a bank in a byte. -/
structure BpiLayout where
  addressWidth : Nat
  bankWidth : Nat
  bankWidth_le_eight : bankWidth ≤ 8
  bankWidth_le : bankWidth ≤ addressWidth
  addressWidth_le : addressWidth ≤ 32
  addressRegWidth_lt : addressWidth - bankWidth < 32

/-- A place in the flash. -/
structure BpiLocation where
  bank : Nat
  address : Nat
deriving DecidableEq, Repr

namespace BpiLayout

variable (self : BpiLayout)

def addressRegWidth : Nat := self.addressWidth - self.bankWidth

/-- `(adr >> address_reg_width) & bank_mask`. -/
def bank (adr : Nat) : Nat := adr / 2 ^ self.addressRegWidth % 2 ^ self.bankWidth

/-- `adr & address_mask`. -/
def inBank (adr : Nat) : Nat := adr % 2 ^ self.addressRegWidth

def bankCount : Nat := 2 ^ self.bankWidth

def location (adr : Nat) : BpiLocation := ⟨self.bank adr, self.inBank adr⟩

end BpiLayout

/-! ### The device -/

/-- An answer in the read FIFO, to a command from before the burst or to a read of it. -/
inductive BpiAnswer
  | earlier
  | read (location : BpiLocation)
deriving DecidableEq, Repr

/-- One poll of the data register: if an answer that is due has come, and if the time is over after it. -/
structure BpiPoll where
  ready : Bool
  elapsed : Bool
deriving DecidableEq, Repr

/-- What happens while a burst is running. The time of a wait is over when its polls are. -/
structure BpiEnvironment where
  polls : Nat → List BpiPoll
  /-- The CPLD has taken the bank, at the first and at the second write. -/
  firstChange : Nat → Bool
  secondChange : Nat → Bool
  bankAfterFailure : Nat → Nat
  /-- What comes of the wait of `BPI_OPERATION_WAITREADY`. -/
  ready : Bool
  /-- The answers to earlier commands that are still to come when the flags have been handled. -/
  earlier : Nat

/-- The fields of `struct bpi_controller` that change, the device, and what the burst has brought: the words of
its buffer, and if one of its chunks has failed. -/
structure BpiState where
  selectedBank : Nat
  address : Nat
  flags : Word
  bank : Nat
  addressRegister : Nat
  addressCounter : Nat
  readFifo : List BpiAnswer
  buffer : Nat → Option BpiAnswer
  failed : Bool

inductive BpiReadCommand
  | read
  | readInc
  | readBurstInc (count : Nat)
deriving DecidableEq, Repr

variable (l : BpiLayout) (env : BpiEnvironment)

def loadAddress (s : BpiState) : BpiState := { s with addressCounter := s.addressRegister }

def incrementAddress (s : BpiState) : BpiState :=
  { s with addressCounter := (s.addressCounter + 1) % 2 ^ l.addressRegWidth }

def issueRead (s : BpiState) : BpiState :=
  { s with readFifo := s.readFifo ++ [.read ⟨s.bank, s.addressCounter⟩] }

/-- A burst repeats its command as often as the count says. -/
def writeDataRegister (s : BpiState) : BpiReadCommand → BpiState
  | .read => issueRead (loadAddress s)
  | .readInc => issueRead (incrementAddress l s)
  | .readBurstInc count => (fun s => issueRead (incrementAddress l s))^[count + 1] s

/-! ### The functions of the controller -/

def invalidateBank (s : BpiState) : BpiState := { s with selectedBank := BPI_NO_BANK }

/-- Both writes of the bank register have to succeed. The number of the word tells the calls apart. -/
def switchBank (word : Nat) : Bool := env.firstChange word && env.secondChange word

def selectBank (s : BpiState) (word bankNumber : Nat) : BpiState × Int :=
  if bankNumber ≥ l.bankCount then (s, STATUS_ERR_INVALID_ARGUMENT)
  else if switchBank env word then ({ s with bank := bankNumber, selectedBank := bankNumber }, STATUS_OK)
  else ({ s with bank := env.bankAfterFailure word }, STATUS_ERR_DEV_IO)

def setAddress (s : BpiState) (word adr : Nat) : BpiState × Int :=
  let bank := l.bank adr
  let (s, ret) := if bank ≠ s.selectedBank then selectBank l env s word bank else (s, 0)
  if ret ≠ 0 then (s, ret) else ({ s with addressRegister := l.inBank adr }, 0)

/-- The commands for a chunk. -/
def readCommands (length : Nat) : List BpiReadCommand :=
  .read :: if length > 1 then
    .readInc :: if length < 5 then List.replicate (length - 2) .readInc
      else [.readInc, .readBurstInc (length - 4)]
  else []

/-- The wait for a word. An answer that is taken when the time is over is lost. -/
def waitForAnswer : List BpiPoll → List BpiAnswer → Option BpiAnswer × List BpiAnswer
  | [], fifo => (none, fifo)
  | poll :: polls, fifo =>
    match poll.ready, fifo with
    | true, answer :: fifo => (if poll.elapsed then none else some answer, fifo)
    | _, _ => if poll.elapsed then (none, fifo) else waitForAnswer polls fifo

/-- The loop over the words of a chunk; `todo` of them are still to come. -/
def readWords : Nat → BpiState → Nat → BpiState × Int
  | 0, s, _ => (s, 0)
  | todo + 1, s, word =>
    match waitForAnswer (env.polls word) s.readFifo with
    | (none, fifo) => ({ s with readFifo := fifo }, -1)
    | (some answer, fifo) =>
      readWords todo { s with readFifo := fifo, buffer := Function.update s.buffer word (some answer) }
        (word + 1)

def readData (s : BpiState) (adr word length : Nat) : BpiState × Int :=
  let (s, ret) := setAddress l env s word adr
  if ret ≠ 0 then (s, ret)
  else readWords env length ((readCommands length).foldl (writeDataRegister l) s) word

/-- The loop over the chunks of a shot, whose first word is `first`. It takes at most `fuel` turns. -/
def readChunks : Nat → BpiState → Nat → Nat → Nat → BpiState × Int
  | 0, s, _, _, _ => (s, 0)
  | fuel + 1, s, first, wordsLeft, index =>
    if 0 < wordsLeft then
      let readLength := if BPI_READ_FIFO_LENGTH > wordsLeft then wordsLeft else BPI_READ_FIFO_LENGTH
      let (s, ret) := readData l env s ((s.address + index) % 2 ^ 32) (first + index) readLength
      if ret = 0 then readChunks fuel s first (wordsLeft - readLength) (index + readLength) else (s, ret)
    else (s, 0)

/-- The `ret` of the loop is declared again in its block, and the one that is returned stays zero. -/
def bpiReadShot (s : BpiState) (buf length : Nat) : BpiState × Int :=
  if length = 0 then (s, -1)
  else if s.flags &&& BPI_OPERATION_READDATA ≠ 0 then
    let (s', ret) := readChunks l env (length / 2) s (buf / 2) (length / 2) 0
    ({ s' with failed := s.failed || ret ≠ 0 }, 0)
  else (s, 0)

/-- The waits for the flags are not modelled, only what is left in the FIFO after them. -/
def bpiHandlePreBurstFlags (s : BpiState) (flags : Word) : BpiState × Int :=
  let s := { s with flags := flags }
  let s := if flags &&& BPI_OPERATION_SELECT ≠ 0 then invalidateBank s else s
  let ret := if flags &&& BPI_OPERATION_WAITREADY ≠ 0 ∧ ¬env.ready then -1 else 0
  ({ s with readFifo := List.replicate env.earlier .earlier }, ret)

def bpiHandlePostBurstFlags (s : BpiState) (flags : Word) : BpiState × Int :=
  let s := if flags &&& BPI_OPERATION_DESELECT ≠ 0 then invalidateBank s else s
  ({ s with flags := 0#32 }, 0)

def bpiBurstAborted (s : BpiState) : BpiState :=
  { invalidateBank s with address := 0xFFFFFFFF, flags := 0#32 }

/-- The hooks of a read burst. Asking for data does nothing. -/
def bpiStep (s : BpiState) (call : BurstCall) : Option (BpiState × Int) :=
  match call.hook with
  | .handlePreBurstFlags flags => some (bpiHandlePreBurstFlags env s flags)
  | .handlePostBurstFlags flags => some (bpiHandlePostBurstFlags s flags)
  | .readShot buf length => some (bpiReadShot l env s buf length)
  | .burstAborted => some (bpiBurstAborted s, 0)
  | _ => some (s, 0)

/-- The controller and the device before a burst. -/
def bpiStart (selectedBank bank address : Nat) : BpiState :=
  ⟨selectedBank, address, 0#32, bank, 0, 0, [], fun _ => none, false⟩

/-- A burst that reads data, with any other flags. -/
def bpiReadBurst (s : BpiState) (st : BurstState) (flags : Word) (size : Nat) :
    Option (Int × BurstState × BpiState) :=
  machineBurst (bpiStep l env) s fun hooks => ctrlReadBurst bpiBase hooks st
    (flags ||| BPI_OPERATION_READDATA) size

/-! ### A chunk -/

/-- The answer for a word has come before the time was over. -/
def InTime : List BpiPoll → Prop
  | [] => False
  | poll :: polls => if poll.ready ∨ poll.elapsed then ¬poll.elapsed else InTime polls

instance decidableInTime : (polls : List BpiPoll) → Decidable (InTime polls)
  | [] => inferInstanceAs (Decidable False)
  | poll :: polls =>
    have := decidableInTime polls
    inferInstanceAs (Decidable (if poll.ready ∨ poll.elapsed then ¬poll.elapsed else InTime polls))

/-- What the chunk at `adr` queues when the device is in the bank `bank`. -/
def issuedReads (bank adr length : Nat) : List BpiAnswer :=
  (List.range length).map fun j => .read ⟨bank, (l.inBank adr + j) % 2 ^ l.addressRegWidth⟩

/-- A chunk that has succeeded. Its words are the oldest answers in the FIFO. -/
structure ChunkRead (s s' : BpiState) (adr word length : Nat) : Prop where
  address : s'.address = s.address
  flags : s'.flags = s.flags
  failed : s'.failed = s.failed
  selectedBank : s'.selectedBank = l.bank adr
  bank : s'.bank = if l.bank adr = s.selectedBank then s.bank else l.bank adr
  readFifo : s'.readFifo = (s.readFifo ++ issuedReads l s'.bank adr length).drop length
  buffer : ∀ k, s'.buffer k = if word ≤ k ∧ k < word + length then
    (s.readFifo ++ issuedReads l s'.bank adr length)[k - word]? else s.buffer k

variable {l env} {s s' : BpiState} {polls : List BpiPoll} {answer : BpiAnswer} {fifo : List BpiAnswer}
  {adr word length : Nat}

theorem length_issuedReads (bank adr length : Nat) : (issuedReads l bank adr length).length = length := by
  rw [issuedReads, List.length_map, List.length_range]

theorem waitForAnswer_inTime (h : InTime polls) : waitForAnswer polls (answer :: fifo) =
    (some answer, fifo) := by
  induction polls with
  | nil => exact absurd h id
  | cons poll polls ih =>
    obtain ⟨ready, elapsed⟩ := poll
    rw [InTime] at h
    cases ready with
    | true =>
      rw [if_pos (.inl rfl)] at h
      cases elapsed with
      | true => exact absurd rfl h
      | false => rfl
    | false =>
      cases elapsed with
      | true => exact absurd rfl h
      | false => exact ih h

theorem waitForAnswer_late (h : ¬InTime polls) : (waitForAnswer polls (answer :: fifo)).1 = none := by
  induction polls with
  | nil => rfl
  | cons poll polls ih =>
    obtain ⟨ready, elapsed⟩ := poll
    rw [InTime] at h
    cases ready with
    | true =>
      rw [if_pos (.inl rfl)] at h
      cases elapsed with
      | true => rfl
      | false => exact absurd Bool.false_ne_true h
    | false =>
      cases elapsed with
      | true => rfl
      | false => exact ih h

theorem readWords_inTime (todo : Nat) : ∀ (s : BpiState) (word : Nat), todo ≤ s.readFifo.length →
    (∀ j < todo, InTime (env.polls (word + j))) → readWords env todo s word =
      ({ s with
        readFifo := s.readFifo.drop todo
        buffer := fun k => if word ≤ k ∧ k < word + todo then s.readFifo[k - word]? else s.buffer k },
          0) := by
  induction todo with
  | zero =>
    intro s word _ _
    have hnone : ∀ k, ¬(word ≤ k ∧ k < word + 0) := by omega
    simp only [readWords, List.drop_zero, if_neg (hnone _)]
  | succ todo ih =>
    intro s word hlen htime
    cases hfifo : s.readFifo with
    | nil =>
      rw [hfifo] at hlen
      exact absurd hlen (Nat.not_succ_le_zero todo)
    | cons answer fifo =>
      have hfirst : InTime (env.polls word) := htime 0 (Nat.succ_pos todo)
      have hrest : ∀ j < todo, InTime (env.polls (word + 1 + j)) := by
        intro j hj
        have hnext := htime (j + 1) (Nat.succ_lt_succ hj)
        rwa [Nat.add_comm j 1, ← Nat.add_assoc] at hnext
      rw [hfifo] at hlen
      rw [readWords, hfifo, waitForAnswer_inTime hfirst]
      dsimp only
      rw [ih _ _ (Nat.le_of_succ_le_succ hlen) hrest]
      congr 2
      funext k
      dsimp only
      rcases Nat.lt_trichotomy k word with hlt | rfl | hgt
      · rw [if_neg (by omega), if_neg (by omega), Function.update_of_ne (Nat.ne_of_lt hlt)]
      · rw [if_neg (by omega), if_pos (by omega), Function.update_self, Nat.sub_self]
        rfl
      · obtain ⟨i, rfl⟩ := Nat.exists_eq_add_of_lt hgt
        have hsub : word + i + 1 - word = i + 1 := by omega
        have hsub' : word + i + 1 - (word + 1) = i := by omega
        rw [Function.update_of_ne (Nat.ne_of_gt hgt), hsub, hsub', List.getElem?_cons_succ]
        by_cases hi : i < todo
        · rw [if_pos (by omega), if_pos (by omega)]
        · rw [if_neg (by omega), if_neg (by omega)]

theorem readWords_late (todo : Nat) : ∀ (s : BpiState) (word : Nat), todo ≤ s.readFifo.length →
    (∃ j < todo, ¬InTime (env.polls (word + j))) → (readWords env todo s word).2 ≠ 0 := by
  induction todo with
  | zero =>
    rintro s word _ ⟨j, hj, -⟩
    exact absurd hj (Nat.not_lt_zero j)
  | succ todo ih =>
    rintro s word hlen ⟨j, hj, hlate⟩
    cases hfifo : s.readFifo with
    | nil =>
      rw [hfifo] at hlen
      exact absurd hlen (Nat.not_succ_le_zero todo)
    | cons answer fifo =>
      rw [hfifo] at hlen
      rw [readWords, hfifo]
      by_cases hfirst : InTime (env.polls word)
      · rw [waitForAnswer_inTime hfirst]
        apply ih _ _ (Nat.le_of_succ_le_succ hlen)
        cases j with
        | zero => exact absurd hfirst hlate
        | succ j =>
          refine ⟨j, Nat.lt_of_succ_lt_succ hj, ?_⟩
          rwa [Nat.add_assoc, Nat.add_comm 1 j]
      · have hnone := @waitForAnswer_late (env.polls word) answer fifo hfirst
        generalize waitForAnswer (env.polls word) (answer :: fifo) = r at hnone ⊢
        obtain ⟨taken, fifo'⟩ := r
        obtain rfl : taken = none := hnone
        dsimp only
        decide

/-- The next read, from the address behind the last one. -/
def nextRead (l : BpiLayout) (s : BpiState) : BpiState := issueRead (incrementAddress l s)

theorem iterate_nextRead (n : Nat) (s : BpiState) (hs : s.addressCounter < 2 ^ l.addressRegWidth) :
    (nextRead l)^[n] s =
      { s with
        addressCounter := (s.addressCounter + n) % 2 ^ l.addressRegWidth
        readFifo := s.readFifo ++ (List.range n).map fun j =>
          .read ⟨s.bank, (s.addressCounter + (j + 1)) % 2 ^ l.addressRegWidth⟩ } := by
  induction n with
  | zero =>
    rw [Nat.add_zero, Nat.mod_eq_of_lt hs, List.range_zero, List.map_nil, List.append_nil]
    rfl
  | succ n ih =>
    rw [Function.iterate_succ_apply', ih, nextRead, issueRead, incrementAddress]
    dsimp only
    rw [List.range_succ, List.map_append, ← List.append_assoc, Nat.mod_add_mod, Nat.add_assoc]
    rfl

/-- The commands for a chunk make as many reads as it has words. -/
theorem readCommands_foldl (hlength : 0 < length) (s : BpiState) :
    (readCommands length).foldl (writeDataRegister l) s =
      (nextRead l)^[length - 1] (issueRead (loadAddress s)) := by
  have hreplicate : ∀ (n : Nat) (s : BpiState),
      (List.replicate n BpiReadCommand.readInc).foldl (writeDataRegister l) s = (nextRead l)^[n] s := by
    intro n
    induction n with
    | zero => exact fun s => rfl
    | succ n ih =>
      intro s
      rw [List.replicate_succ, List.foldl_cons, ih]
      rfl
  rw [readCommands, List.foldl_cons]
  by_cases hone : length > 1
  · rw [if_pos hone, List.foldl_cons]
    by_cases hfive : length < 5
    · obtain ⟨n, rfl⟩ := Nat.exists_eq_add_of_le hone
      rw [if_pos hfive, hreplicate, Nat.add_sub_cancel_left, show 1 + 1 + n - 1 = n + 1 by omega]
      rfl
    · obtain ⟨n, rfl⟩ := Nat.exists_eq_add_of_le (Nat.le_of_not_lt hfive)
      rw [if_neg hfive, show 5 + n - 4 = n + 1 by omega, show 5 + n - 1 = n + 1 + 1 + 1 + 1 by omega]
      rfl
  · rw [if_neg hone, show length - 1 = 0 by omega]
    rfl

/-- What is in the FIFO after the commands. -/
theorem readCommands_issued (hlength : 0 < length) (s : BpiState)
    (hs : s.addressRegister = l.inBank adr) :
    ∃ counter, (readCommands length).foldl (writeDataRegister l) s =
      { s with addressCounter := counter, readFifo := s.readFifo ++ issuedReads l s.bank adr length } := by
  have hlt : l.inBank adr < 2 ^ l.addressRegWidth := Nat.mod_lt _ (Nat.two_pow_pos _)
  have hload : (issueRead (loadAddress s)).addressCounter < 2 ^ l.addressRegWidth := by
    change s.addressRegister < 2 ^ l.addressRegWidth
    rw [hs]
    exact hlt
  obtain ⟨n, rfl⟩ : ∃ n, length = n + 1 := ⟨length - 1, by omega⟩
  have hreads : [BpiAnswer.read ⟨s.bank, l.inBank adr⟩] ++ (List.range n).map (fun j =>
      BpiAnswer.read ⟨s.bank, (l.inBank adr + (j + 1)) % 2 ^ l.addressRegWidth⟩) =
        issuedReads l s.bank adr (n + 1) := by
    rw [issuedReads, List.range_succ_eq_map, List.map_cons, List.map_map, Nat.add_zero, Nat.mod_eq_of_lt hlt]
    rfl
  refine ⟨(l.inBank adr + n) % 2 ^ l.addressRegWidth, ?_⟩
  rw [readCommands_foldl hlength, iterate_nextRead _ _ hload]
  simp only [issueRead, loadAddress, hs, List.append_assoc, Nat.add_sub_cancel]
  rw [hreads]

theorem bank_lt_bankCount (adr : Nat) : l.bank adr < l.bankCount := Nat.mod_lt _ (Nat.two_pow_pos _)

theorem setAddress_selected (h : l.bank adr = s.selectedBank) :
    setAddress l env s word adr = ({ s with addressRegister := l.inBank adr }, 0) := by
  unfold setAddress
  dsimp only
  rw [if_neg (not_not.mpr h)]
  rfl

theorem setAddress_switched (h : l.bank adr ≠ s.selectedBank) (hswitch : switchBank env word) :
    setAddress l env s word adr =
      ({ s with bank := l.bank adr, selectedBank := l.bank adr, addressRegister := l.inBank adr }, 0) := by
  unfold setAddress selectBank
  dsimp only
  rw [if_pos h, if_neg (not_le.mpr (bank_lt_bankCount adr)), if_pos hswitch]
  rfl

theorem setAddress_error (h : l.bank adr ≠ s.selectedBank) (hswitch : ¬switchBank env word) :
    (setAddress l env s word adr).2 ≠ 0 := by
  unfold setAddress selectBank
  dsimp only
  have herr : STATUS_ERR_DEV_IO ≠ 0 := by decide
  rw [if_pos h, if_neg (not_le.mpr (bank_lt_bankCount adr)), if_neg hswitch]
  dsimp only
  rw [if_pos herr]
  exact herr

/-- The words of a chunk, once the address is set. -/
theorem readWords_chunk (hlength : 0 < length) (hs : s.addressRegister = l.inBank adr)
    (htime : ∀ j < length, InTime (env.polls (word + j))) :
    ∃ s', readWords env length ((readCommands length).foldl (writeDataRegister l) s) word = (s', 0) ∧
      s'.address = s.address ∧ s'.flags = s.flags ∧ s'.failed = s.failed ∧
      s'.selectedBank = s.selectedBank ∧ s'.bank = s.bank ∧
      s'.readFifo = (s.readFifo ++ issuedReads l s.bank adr length).drop length ∧
      ∀ k, s'.buffer k = if word ≤ k ∧ k < word + length then
        (s.readFifo ++ issuedReads l s.bank adr length)[k - word]? else s.buffer k := by
  obtain ⟨counter, hissued⟩ := readCommands_issued hlength s hs
  have hlen : length ≤ (s.readFifo ++ issuedReads l s.bank adr length).length := by
    rw [List.length_append, length_issuedReads]
    exact Nat.le_add_left _ _
  rw [hissued, readWords_inTime length _ word hlen htime]
  exact ⟨_, rfl, rfl, rfl, rfl, rfl, rfl, rfl, fun k => rfl⟩

/-- A chunk succeeds when its bank can be selected and its words come in time. -/
theorem readData_ok (hlength : 0 < length) (hswitch : l.bank adr ≠ s.selectedBank → switchBank env word)
    (htime : ∀ j < length, InTime (env.polls (word + j))) :
    ∃ s', readData l env s adr word length = (s', 0) ∧ ChunkRead l s s' adr word length := by
  unfold readData
  by_cases hbank : l.bank adr = s.selectedBank
  · rw [setAddress_selected hbank]
    dsimp only
    rw [if_neg (not_not.mpr rfl)]
    obtain ⟨s', hs', haddress, hflags, hfailed, hselected, hdevice, hfifo, hbuffer⟩ :=
      @readWords_chunk l env { s with addressRegister := l.inBank adr } adr word length hlength rfl htime
    refine ⟨s', hs', haddress, hflags, hfailed, hselected.trans hbank.symm, ?_, ?_, ?_⟩
    · rw [if_pos hbank]
      exact hdevice
    · rw [hdevice]
      exact hfifo
    · rw [hdevice]
      exact hbuffer
  · rw [setAddress_switched hbank (hswitch hbank)]
    dsimp only
    rw [if_neg (not_not.mpr rfl)]
    obtain ⟨s', hs', haddress, hflags, hfailed, hselected, hdevice, hfifo, hbuffer⟩ :=
      @readWords_chunk l env
        { s with bank := l.bank adr, selectedBank := l.bank adr, addressRegister := l.inBank adr }
          adr word length
        hlength rfl htime
    refine ⟨s', hs', haddress, hflags, hfailed, hselected, ?_, ?_, ?_⟩
    · rw [if_neg hbank]
      exact hdevice
    · rw [hdevice]
      exact hfifo
    · rw [hdevice]
      exact hbuffer

/-- Nothing else makes it succeed. -/
theorem readData_error (hlength : 0 < length)
    (h : (l.bank adr ≠ s.selectedBank ∧ ¬switchBank env word) ∨ ∃ j < length, ¬InTime (env.polls (word + j))) :
    (readData l env s adr word length).2 ≠ 0 := by
  have hlate : ∀ s : BpiState, s.addressRegister = l.inBank adr →
    (∃ j < length, ¬InTime (env.polls (word + j))) →
      (readWords env length ((readCommands length).foldl (writeDataRegister l) s) word).2 ≠ 0 := by
    intro s hs hlate
    obtain ⟨counter, hissued⟩ := readCommands_issued hlength s hs
    rw [hissued]
    apply readWords_late length _ word ?_ hlate
    dsimp only
    rw [List.length_append, length_issuedReads]
    exact Nat.le_add_left _ _
  unfold readData
  by_cases hbank : l.bank adr = s.selectedBank
  · rw [setAddress_selected hbank]
    dsimp only
    rw [if_neg (not_not.mpr rfl)]
    exact hlate _ rfl (h.resolve_left fun hfail => hfail.1 hbank)
  · by_cases hswitch : switchBank env word = true
    · rw [setAddress_switched hbank hswitch]
      dsimp only
      rw [if_neg (not_not.mpr rfl)]
      exact hlate _ rfl (h.resolve_left fun hfail => hfail.2 hswitch)
    · have herr := setAddress_error (s := s) hbank hswitch
      dsimp only
      rw [if_pos herr]
      exact herr

end MenableDriver
