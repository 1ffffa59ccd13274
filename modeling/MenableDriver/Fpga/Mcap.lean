import MenableDriver.Controllers.Transaction

/-!
# The configuration port of the FPGA

`mcap_lib.c` writes a bitstream through registers in the configuration space. The registers answer as they like:
what a read gives depends on all that was done before, and most results are not looked at. A function gives its
result and the accesses up to its end.
-/

namespace MenableDriver

set_option autoImplicit false

def MCAP_STATUS : Nat := 0x10
def MCAP_CONTROL : Nat := 0x14
def MCAP_DATA : Nat := 0x18

def MCAP_CTRL_MODE_MASK : Word := 0x00001#32
def MCAP_CTRL_REG_READ_MASK : Word := 0x00002#32
def MCAP_CTRL_RESET_MASK : Word := 0x00010#32
def MCAP_CTRL_MOD_RESET_MASK : Word := 0x00020#32
def MCAP_CTRL_IN_USE_MASK : Word := 0x00100#32
def MCAP_CTRL_DESIGN_SWITCH_MASK : Word := 0x01000#32
def MCAP_CTRL_DATA_REG_PROT_MASK : Word := 0x10000#32

def MCAP_STS_ERR_MASK : Word := 0x0000001#32
def MCAP_STS_EOS_MASK : Word := 0x0000002#32
def MCAP_STS_REG_READ_CMP_MASK : Word := 0x0000010#32
def MCAP_STS_FIFO_OVERFLOW_MASK : Word := 0x0000100#32
def MCAP_STS_CFG_MCAP_REQ_MASK : Word := 0x1000000#32

def EMCAPREQ : Int := 120
def EMCAPRESET : Int := 121
def EMCAPMODRESET : Int := 122
def EMCAPFULLRESET : Int := 123
def EMCAPWRITE : Int := 124
def EMCAPCFG : Int := 126

def MCAP_LOOP_COUNT : Nat := 1000000
def EMCAP_EOS_RETRY_COUNT : Nat := 10
def EMCAP_EOS_LOOP_COUNT : Nat := 100
def EMCAP_NOOP_VAL : Word := 0x2000000#32

/-- An access to a register of the port, with the value that is in the variable behind a read. -/
inductive McapAccess
  | read (offset : Nat) (result : Int) (value : Word)
  | write (offset : Nat) (value : Word)
deriving DecidableEq

/-- What a read gives, from all accesses before. -/
abbrev McapDevice := List McapAccess → Nat → Int × Word

/-- The bytes the other way round. -/
def swab32 (value : Word) : Word :=
  value.extractLsb' 0 8 ++ value.extractLsb' 8 8 ++ value.extractLsb' 16 8 ++ value.extractLsb' 24 8

def mCapRegWrite (trace : List McapAccess) (offset : Nat) (value : Word) : List McapAccess :=
  trace ++ [.write offset value]

def mCapRegRead (device : McapDevice) (trace : List McapAccess) (offset : Nat) :
    (Int × Word) × List McapAccess :=
  let (result, value) := device trace offset
  ((result, value), trace ++ [.read offset result value])

/-- One of the tests of a bit; a read that fails counts as a zero. -/
def mCapBitSet (device : McapDevice) (offset : Nat) (mask : Word) (trace : List McapAccess) :
    Bool × List McapAccess :=
  let ((result, v), trace) := mCapRegRead device trace offset
  (decide (result = 0 ∧ v &&& mask ≠ 0), trace)

def isResetSet (device : McapDevice) := mCapBitSet device MCAP_CONTROL MCAP_CTRL_RESET_MASK
def isModuleResetSet (device : McapDevice) := mCapBitSet device MCAP_CONTROL MCAP_CTRL_MOD_RESET_MASK
def isConfigureMCapReqSet (device : McapDevice) := mCapBitSet device MCAP_STATUS MCAP_STS_CFG_MCAP_REQ_MASK
def isErrSet (device : McapDevice) := mCapBitSet device MCAP_STATUS MCAP_STS_ERR_MASK
def isRegReadComplete (device : McapDevice) := mCapBitSet device MCAP_STATUS MCAP_STS_REG_READ_CMP_MASK
def isFifoOverflow (device : McapDevice) := mCapBitSet device MCAP_STATUS MCAP_STS_FIFO_OVERFLOW_MASK

/-- A test of a bit, and the answer that is an error. -/
structure McapTest where
  test : List McapAccess → Bool × List McapAccess
  bad : Bool

/-- The tests that are joined by `||`: none is made behind the first one with an error. -/
def anyBad : List McapTest → List McapAccess → Bool × List McapAccess
  | [], trace => (false, trace)
  | t :: tests, trace =>
    let (answer, trace) := t.test trace
    if answer = t.bad then (true, trace) else anyBad tests trace

/-- The loop that waits for the request to go, from `loop` on; what is left is `loop` behind it. -/
def requestLoop (device : McapDevice) : Nat → List McapAccess → Int × List McapAccess
  | 0, trace =>
    let (set, trace) := isConfigureMCapReqSet device trace
    (if set then -1 else 0, trace)
  | loop + 1, trace =>
    let (set, trace) := isConfigureMCapReqSet device trace
    if set then requestLoop device loop trace else (loop + 1, trace)

/-- The result, and the value of the control register to be restored. -/
def mCapClearRequestByConfigure (device : McapDevice) (trace : List McapAccess) :
    Int × Word × List McapAccess :=
  let ((_, restore), trace) := mCapRegRead device trace MCAP_CONTROL
  let (set, trace) := isConfigureMCapReqSet device trace
  if set then
    let trace := mCapRegWrite trace MCAP_CONTROL (restore ||| (MCAP_CTRL_MODE_MASK ||| MCAP_CTRL_IN_USE_MASK))
    let (loop, trace) := requestLoop device MCAP_LOOP_COUNT trace
    if loop = 0 then (-EMCAPREQ, restore, mCapRegWrite trace MCAP_CONTROL restore) else (0, restore, trace)
  else (0, restore, trace)

/-- A number of words to the data register. -/
def writeData (trace : List McapAccess) (words : List Word) : List McapAccess :=
  words.foldl (fun trace word => mCapRegWrite trace MCAP_DATA word) trace

def mCapNoops : List Word := List.replicate EMCAP_EOS_LOOP_COUNT EMCAP_NOOP_VAL

/-- The loop of `CheckForCompletion`, with `todo` retries left behind this one. -/
def completionLoop (device : McapDevice) : Nat → Word → List McapAccess → Int × List McapAccess
  | 0, sr, trace =>
    if sr &&& MCAP_STS_EOS_MASK ≠ 0 then (0, trace)
    else (-EMCAPREQ, (mCapRegRead device (writeData trace mCapNoops) MCAP_STATUS).2)
  | todo + 1, sr, trace =>
    if sr &&& MCAP_STS_EOS_MASK ≠ 0 then (0, trace)
    else
      let ((_, sr), trace) := mCapRegRead device (writeData trace mCapNoops) MCAP_STATUS
      completionLoop device todo sr trace

def checkForCompletion (device : McapDevice) (trace : List McapAccess) : Int × List McapAccess :=
  let ((_, sr), trace) := mCapRegRead device trace MCAP_STATUS
  completionLoop device EMCAP_EOS_RETRY_COUNT sr trace

/-- One of the resets, with its bits, its tests and its error. -/
def mCapResetBits (device : McapDevice) (bits : Word) (tests : List McapTest) (error : Int)
    (trace : List McapAccess) : Int × List McapAccess :=
  let (err, restore, trace) := mCapClearRequestByConfigure device trace
  if err ≠ 0 then (err, trace)
  else
    let ((_, set), trace) := mCapRegRead device trace MCAP_CONTROL
    let trace := mCapRegWrite trace MCAP_CONTROL (set ||| (MCAP_CTRL_MODE_MASK ||| MCAP_CTRL_IN_USE_MASK ||| bits))
    let (bad, trace) := anyBad tests trace
    (if bad then -error else 0, mCapRegWrite trace MCAP_CONTROL restore)

def mCapReset (device : McapDevice) :=
  mCapResetBits device MCAP_CTRL_RESET_MASK [⟨isErrSet device, true⟩, ⟨isResetSet device, false⟩] EMCAPRESET

def mCapModuleReset (device : McapDevice) :=
  mCapResetBits device MCAP_CTRL_MOD_RESET_MASK [⟨isErrSet device, true⟩, ⟨isModuleResetSet device, false⟩]
    EMCAPMODRESET

def mCapFullReset (device : McapDevice) :=
  mCapResetBits device (MCAP_CTRL_RESET_MASK ||| MCAP_CTRL_MOD_RESET_MASK)
    [⟨isErrSet device, true⟩, ⟨isModuleResetSet device, false⟩, ⟨isResetSet device, false⟩] EMCAPFULLRESET

def errBeforeWrite (device : McapDevice) : List McapTest :=
  [⟨isErrSet device, true⟩, ⟨isRegReadComplete device, true⟩, ⟨isFifoOverflow device, true⟩]

def errBehindWrite (device : McapDevice) : List McapTest :=
  [⟨isErrSet device, true⟩, ⟨isFifoOverflow device, true⟩]

/-- The control register while data is written. -/
def mCapWriteMode (set : Word) : Word :=
  (set ||| (MCAP_CTRL_MODE_MASK ||| MCAP_CTRL_IN_USE_MASK ||| MCAP_CTRL_DATA_REG_PROT_MASK)) &&&
    ~~~(MCAP_CTRL_RESET_MASK ||| MCAP_CTRL_MOD_RESET_MASK ||| MCAP_CTRL_REG_READ_MASK |||
      MCAP_CTRL_DESIGN_SWITCH_MASK)

def mCapEnterWriteMode (device : McapDevice) (trace : List McapAccess) : List McapAccess :=
  let ((_, set), trace) := mCapRegRead device trace MCAP_CONTROL
  mCapRegWrite trace MCAP_CONTROL (mCapWriteMode set)

def mCapWords (data : List Word) (bswap : Bool) : List Word := if bswap then data.map swab32 else data

/-- The result of the reset behind a failure is not looked at. -/
def mCapWriteFailed (device : McapDevice) (restore : Word) (trace : List McapAccess) : Int × List McapAccess :=
  (-EMCAPWRITE, (mCapFullReset device (mCapRegWrite trace MCAP_CONTROL restore)).2)

/-- The multiple bit of the device only chooses a message here. -/
def mCapWritePartialBitStream (device : McapDevice) (data : List Word) (bswap : Bool) (trace : List McapAccess) :
    Int × List McapAccess :=
  if data.length = 0 then (-EMCAPWRITE, trace)
  else
    let (err, restore, trace) := mCapClearRequestByConfigure device trace
    if err ≠ 0 then (err, trace)
    else
      let (bad, trace) := anyBad (errBeforeWrite device) trace
      if bad then (-EMCAPWRITE, mCapRegWrite trace MCAP_CONTROL restore)
      else
        let trace := writeData (mCapEnterWriteMode device trace) (mCapWords data bswap)
        let trace := writeData trace mCapNoops
        let (bad, trace) := anyBad (errBehindWrite device) trace
        if bad then mCapWriteFailed device restore trace else (0, trace)

def mCapWriteBitStream (device : McapDevice) (isMultiplebit : Bool) (data : List Word) (bswap : Bool)
    (trace : List McapAccess) : Int × List McapAccess :=
  if data.length = 0 then (-EMCAPWRITE, trace)
  else
    let (err, restore, trace) := mCapClearRequestByConfigure device trace
    if err ≠ 0 then (err, trace)
    else
      let (bad, trace) := anyBad (errBeforeWrite device) trace
      if bad then (-EMCAPWRITE, mCapRegWrite trace MCAP_CONTROL restore)
      else
        let trace := if isMultiplebit then trace else mCapEnterWriteMode device trace
        let trace := writeData trace (mCapWords data bswap)
        let (err, trace) := checkForCompletion device trace
        if err ≠ 0 then (-EMCAPCFG, trace)
        else
          let (bad, trace) := anyBad (errBehindWrite device) trace
          if bad then mCapWriteFailed device restore trace
          else (0, mCapRegWrite trace MCAP_CONTROL (restore ||| MCAP_CTRL_DESIGN_SWITCH_MASK))

/-! ### What is written -/

def McapAccess.written : McapAccess → Option (Nat × Word)
  | .read _ _ _ => none
  | .write offset value => some (offset, value)

/-- What was written between two traces. -/
def Writes (trace after : List McapAccess) (writes : List (Nat × Word)) : Prop :=
  after.filterMap McapAccess.written = trace.filterMap McapAccess.written ++ writes

variable {device : McapDevice} {trace after : List McapAccess} {restore : Word}

theorem Writes.refl (trace : List McapAccess) : Writes trace trace [] := (List.append_nil _).symm

theorem Writes.trans {a b c : List McapAccess} {writes writes' : List (Nat × Word)} (h : Writes a b writes)
    (h' : Writes b c writes') : Writes a c (writes ++ writes') := by
  rw [Writes, h', h, List.append_assoc]

theorem Writes.then {a b c : List McapAccess} {writes : List (Nat × Word)} (h : Writes a b writes)
    (h' : Writes b c []) : Writes a c writes := by
  rw [Writes, h', h, List.append_nil]

theorem mCapRegRead_writes (device : McapDevice) (trace : List McapAccess) (offset : Nat) :
    Writes trace (mCapRegRead device trace offset).2 [] := by
  rw [Writes, mCapRegRead, List.filterMap_append]
  rfl

theorem mCapRegWrite_writes (trace : List McapAccess) (offset : Nat) (value : Word) :
    Writes trace (mCapRegWrite trace offset value) [(offset, value)] := by
  rw [Writes, mCapRegWrite, List.filterMap_append]
  rfl

theorem mCapBitSet_writes (device : McapDevice) (offset : Nat) (mask : Word) (trace : List McapAccess) :
    Writes trace (mCapBitSet device offset mask trace).2 [] := mCapRegRead_writes device trace offset

/-- Tests that only read. -/
def ReadsOnly (tests : List McapTest) : Prop := ∀ t ∈ tests, ∀ trace, Writes trace (t.test trace).2 []

theorem anyBad_writes {tests : List McapTest} (h : ReadsOnly tests) : ∀ trace, Writes trace (anyBad tests trace).2 [] := by
  induction tests with
  | nil => exact Writes.refl
  | cons t tests ih =>
    intro trace
    have hfirst := h t List.mem_cons_self trace
    rw [anyBad]
    dsimp only
    split_ifs
    · exact hfirst
    · exact hfirst.then (ih (fun t ht => h t (List.mem_cons_of_mem _ ht)) _)

theorem requestLoop_writes (loop : Nat) : ∀ trace, Writes trace (requestLoop device loop trace).2 [] := by
  induction loop with
  | zero => exact mCapBitSet_writes device MCAP_STATUS MCAP_STS_CFG_MCAP_REQ_MASK
  | succ loop ih =>
    intro trace
    have hlook := mCapBitSet_writes device MCAP_STATUS MCAP_STS_CFG_MCAP_REQ_MASK trace
    rw [requestLoop, isConfigureMCapReqSet]
    dsimp only
    split_ifs
    · exact hlook.then (ih _)
    · exact hlook

/-- Words for the data register. -/
def mCapData (words : List Word) : List (Nat × Word) := words.map fun word => (MCAP_DATA, word)

theorem mCapData_append (words words' : List Word) : mCapData words ++ mCapData words' = mCapData (words ++ words') :=
  List.map_append.symm

theorem writeData_writes (words : List Word) : ∀ trace,
    Writes trace (writeData trace words) (mCapData words) := by
  induction words with
  | nil => exact Writes.refl
  | cons word words ih =>
    intro trace
    exact (mCapRegWrite_writes trace MCAP_DATA word).trans (ih _)

/-! ### The request is cleared -/

/-- What asks for the request to go. -/
def mCapAsk (restore : Word) (asked : Bool) : List (Nat × Word) :=
  if asked then [(MCAP_CONTROL, restore ||| (MCAP_CTRL_MODE_MASK ||| MCAP_CTRL_IN_USE_MASK))] else []

theorem mCapClearRequest_writes (device : McapDevice) (trace : List McapAccess) :
    ∃ asked after, (mCapClearRequestByConfigure device trace = (0, (device trace MCAP_CONTROL).2, after) ∧
        Writes trace after (mCapAsk (device trace MCAP_CONTROL).2 asked)) ∨
      (mCapClearRequestByConfigure device trace = (-EMCAPREQ, (device trace MCAP_CONTROL).2, after) ∧
        Writes trace after (mCapAsk (device trace MCAP_CONTROL).2 true ++
          [(MCAP_CONTROL, (device trace MCAP_CONTROL).2)])) := by
  have hread := mCapRegRead_writes device trace MCAP_CONTROL
  have hlook := hread.then (mCapBitSet_writes device MCAP_STATUS MCAP_STS_CFG_MCAP_REQ_MASK _)
  have hask := hlook.trans (mCapRegWrite_writes _ MCAP_CONTROL
    ((device trace MCAP_CONTROL).2 ||| (MCAP_CTRL_MODE_MASK ||| MCAP_CTRL_IN_USE_MASK)))
  have hwait := hask.then (@requestLoop_writes device MCAP_LOOP_COUNT _)
  unfold mCapClearRequestByConfigure
  dsimp only
  split_ifs
  · exact ⟨true, _, .inr ⟨rfl, hwait.trans (mCapRegWrite_writes _ _ _)⟩⟩
  · exact ⟨true, _, .inl ⟨rfl, hwait⟩⟩
  · exact ⟨false, _, .inl ⟨rfl, hlook⟩⟩

/-! ### Resets -/

/-- What a reset writes: it is undone in any case. -/
def McapResetWrites (bits : Word) (writes : List (Nat × Word)) : Prop :=
  ∃ restore, (writes = mCapAsk restore true ++ [(MCAP_CONTROL, restore)]) ∨
    ∃ asked set, writes = mCapAsk restore asked ++
      [(MCAP_CONTROL, set ||| (MCAP_CTRL_MODE_MASK ||| MCAP_CTRL_IN_USE_MASK ||| bits)), (MCAP_CONTROL, restore)]

theorem mCapResetBits_writes {bits : Word} {tests : List McapTest} (htests : ReadsOnly tests) (error : Int)
    (trace : List McapAccess) :
    ∃ writes, Writes trace (mCapResetBits device bits tests error trace).2 writes ∧ McapResetWrites bits writes := by
  obtain ⟨asked, after, ⟨hclear, hwrites⟩ | ⟨hclear, hwrites⟩⟩ := mCapClearRequest_writes device trace
  · have hset := (hwrites.then (mCapRegRead_writes device after MCAP_CONTROL)).trans
      (mCapRegWrite_writes _ MCAP_CONTROL ((device after MCAP_CONTROL).2 |||
        (MCAP_CTRL_MODE_MASK ||| MCAP_CTRL_IN_USE_MASK ||| bits)))
    have hrestored := (hset.then (anyBad_writes htests _)).trans
      (mCapRegWrite_writes _ MCAP_CONTROL (device trace MCAP_CONTROL).2)
    refine ⟨_, ?_, (device trace MCAP_CONTROL).2, .inr ⟨asked, (device after MCAP_CONTROL).2, rfl⟩⟩
    rw [List.append_assoc] at hrestored
    rw [mCapResetBits, hclear]
    exact hrestored
  · refine ⟨_, ?_, (device trace MCAP_CONTROL).2, .inl rfl⟩
    rw [mCapResetBits, hclear]
    exact hwrites

theorem mCapFullReset_writes (device : McapDevice) (trace : List McapAccess) :
    ∃ writes, Writes trace (mCapFullReset device trace).2 writes ∧
      McapResetWrites (MCAP_CTRL_RESET_MASK ||| MCAP_CTRL_MOD_RESET_MASK) writes := by
  refine mCapResetBits_writes ?_ _ trace
  intro t ht trace
  simp only [List.mem_cons, List.not_mem_nil, or_false] at ht
  rcases ht with rfl | rfl | rfl
  · exact mCapBitSet_writes device MCAP_STATUS MCAP_STS_ERR_MASK trace
  · exact mCapBitSet_writes device MCAP_CONTROL MCAP_CTRL_MOD_RESET_MASK trace
  · exact mCapBitSet_writes device MCAP_CONTROL MCAP_CTRL_RESET_MASK trace

/-! ### Bitstreams -/

theorem errBeforeWrite_quiet (device : McapDevice) : ReadsOnly (errBeforeWrite device) := by
  intro t ht trace
  simp only [errBeforeWrite, List.mem_cons, List.not_mem_nil, or_false] at ht
  rcases ht with rfl | rfl | rfl
  · exact mCapBitSet_writes device MCAP_STATUS MCAP_STS_ERR_MASK trace
  · exact mCapBitSet_writes device MCAP_STATUS MCAP_STS_REG_READ_CMP_MASK trace
  · exact mCapBitSet_writes device MCAP_STATUS MCAP_STS_FIFO_OVERFLOW_MASK trace

theorem errBehindWrite_quiet (device : McapDevice) : ReadsOnly (errBehindWrite device) := by
  intro t ht trace
  simp only [errBehindWrite, List.mem_cons, List.not_mem_nil, or_false] at ht
  rcases ht with rfl | rfl
  · exact mCapBitSet_writes device MCAP_STATUS MCAP_STS_ERR_MASK trace
  · exact mCapBitSet_writes device MCAP_STATUS MCAP_STS_FIFO_OVERFLOW_MASK trace

def mCapNoopRounds : Nat → List Word
  | 0 => []
  | rounds + 1 => mCapNoops ++ mCapNoopRounds rounds

/-- The end of the startup is waited for with rounds of empty words. -/
theorem completionLoop_writes (todo : Nat) : ∀ sr trace,
    ∃ rounds, Writes trace (completionLoop device todo sr trace).2 (mCapData (mCapNoopRounds rounds)) ∧
      ((completionLoop device todo sr trace).1 = 0 ∧ rounds ≤ todo ∨
        (completionLoop device todo sr trace).1 = -EMCAPREQ ∧ rounds = todo + 1) := by
  induction todo with
  | zero =>
    intro sr trace
    rw [completionLoop]
    split_ifs
    · exact ⟨0, Writes.refl trace, .inl ⟨rfl, le_refl 0⟩⟩
    · refine ⟨1, ?_, .inr ⟨rfl, rfl⟩⟩
      have hround := (writeData_writes mCapNoops trace).then (mCapRegRead_writes device _ MCAP_STATUS)
      rw [mCapNoopRounds, mCapNoopRounds, List.append_nil]
      exact hround
  | succ todo ih =>
    intro sr trace
    rw [completionLoop]
    split_ifs
    · exact ⟨0, Writes.refl trace, .inl ⟨rfl, Nat.zero_le _⟩⟩
    · have hround := (writeData_writes mCapNoops trace).then (mCapRegRead_writes device _ MCAP_STATUS)
      obtain ⟨rounds, hwrites, hends⟩ := ih (device (writeData trace mCapNoops) MCAP_STATUS).2
        (mCapRegRead device (writeData trace mCapNoops) MCAP_STATUS).2
      refine ⟨rounds + 1, ?_, ?_⟩
      · have hall := hround.trans hwrites
        rw [mCapData_append] at hall
        exact hall
      · rcases hends with ⟨hret, hrounds⟩ | ⟨hret, hrounds⟩
        · exact .inl ⟨hret, Nat.succ_le_succ hrounds⟩
        · exact .inr ⟨hret, congrArg (· + 1) hrounds⟩

theorem checkForCompletion_writes (device : McapDevice) (trace : List McapAccess) :
    ∃ rounds, Writes trace (checkForCompletion device trace).2 (mCapData (mCapNoopRounds rounds)) ∧
      ((checkForCompletion device trace).1 = 0 ∧ rounds ≤ EMCAP_EOS_RETRY_COUNT ∨
        (checkForCompletion device trace).1 = -EMCAPREQ ∧ rounds = EMCAP_EOS_RETRY_COUNT + 1) := by
  obtain ⟨rounds, hwrites, hends⟩ := @completionLoop_writes device EMCAP_EOS_RETRY_COUNT
    (device trace MCAP_STATUS).2 (mCapRegRead device trace MCAP_STATUS).2
  exact ⟨rounds, (mCapRegRead_writes device trace MCAP_STATUS).trans hwrites, hends⟩

/-- How the write of a bitstream ends, with what it writes. The data is written at most once. -/
inductive McapEnds (restore : Word) (prepared : List (Nat × Word) → Prop) (words : List Word) :
    Int → List (Nat × Word) → Prop
  | noData : words = [] → McapEnds restore prepared words (-EMCAPWRITE) []
  | requested : McapEnds restore prepared words (-EMCAPREQ) (mCapAsk restore true ++ [(MCAP_CONTROL, restore)])
  | refused (asked : Bool) :
      McapEnds restore prepared words (-EMCAPWRITE) (mCapAsk restore asked ++ [(MCAP_CONTROL, restore)])
  /-- Nothing is restored here. -/
  | incomplete (asked : Bool) (mode : List (Nat × Word)) : prepared mode →
      McapEnds restore prepared words (-EMCAPCFG) (mCapAsk restore asked ++ mode ++
        mCapData (words ++ mCapNoopRounds (EMCAP_EOS_RETRY_COUNT + 1)))
  | failed (asked : Bool) (mode : List (Nat × Word)) (rounds : Nat) (reset : List (Nat × Word)) : prepared mode →
      rounds ≤ EMCAP_EOS_RETRY_COUNT →
      McapResetWrites (MCAP_CTRL_RESET_MASK ||| MCAP_CTRL_MOD_RESET_MASK) reset →
      McapEnds restore prepared words (-EMCAPWRITE) (mCapAsk restore asked ++ mode ++
        mCapData (words ++ mCapNoopRounds rounds) ++ (MCAP_CONTROL, restore) :: reset)
  | done (asked : Bool) (mode : List (Nat × Word)) (rounds : Nat) : prepared mode →
      rounds ≤ EMCAP_EOS_RETRY_COUNT →
      McapEnds restore prepared words 0 (mCapAsk restore asked ++ mode ++
        mCapData (words ++ mCapNoopRounds rounds) ++ [(MCAP_CONTROL, restore ||| MCAP_CTRL_DESIGN_SWITCH_MASK)])

theorem McapEnds.written {prepared : List (Nat × Word) → Prop} {words : List Word} {ret : Int}
    {writes : List (Nat × Word)} (h : McapEnds restore prepared words ret writes) (hret : ret = 0) :
    ∃ asked mode rounds, prepared mode ∧ writes = mCapAsk restore asked ++ mode ++
      mCapData (words ++ mCapNoopRounds rounds) ++ [(MCAP_CONTROL, restore ||| MCAP_CTRL_DESIGN_SWITCH_MASK)] := by
  cases h with
  | noData hwords => exact absurd hret (by decide)
  | requested => exact absurd hret (by decide)
  | refused asked => exact absurd hret (by decide)
  | incomplete asked mode hmode => exact absurd hret (by decide)
  | failed asked mode rounds reset hmode hrounds hreset => exact absurd hret (by decide)
  | done asked mode rounds hmode hrounds => exact ⟨asked, mode, rounds, hmode, rfl⟩

/-- The mode is entered unless there are several bitstreams. -/
def McapPrepared (isMultiplebit : Bool) (mode : List (Nat × Word)) : Prop :=
  if isMultiplebit then mode = [] else ∃ set, mode = [(MCAP_CONTROL, mCapWriteMode set)]

theorem mCapEnter_writes (device : McapDevice) (isMultiplebit : Bool) (trace : List McapAccess) :
    ∃ mode, Writes trace (if isMultiplebit then trace else mCapEnterWriteMode device trace) mode ∧
      McapPrepared isMultiplebit mode := by
  cases isMultiplebit with
  | true => exact ⟨[], Writes.refl trace, rfl⟩
  | false =>
    exact ⟨_, (mCapRegRead_writes device trace MCAP_CONTROL).trans (mCapRegWrite_writes _ MCAP_CONTROL _),
      (device trace MCAP_CONTROL).2, rfl⟩

/-- Whatever the device answers, the words are written once, in order and with nothing between them, or none is;
and unless the startup does not end, the control register is restored. -/
theorem mCapWriteBitStream_ends (device : McapDevice) (isMultiplebit : Bool) (data : List Word) (bswap : Bool)
    (trace : List McapAccess) :
    ∃ writes, Writes trace (mCapWriteBitStream device isMultiplebit data bswap trace).2 writes ∧
      McapEnds (device trace MCAP_CONTROL).2 (McapPrepared isMultiplebit) (mCapWords data bswap)
        (mCapWriteBitStream device isMultiplebit data bswap trace).1 writes := by
  unfold mCapWriteBitStream
  by_cases hdata : data.length = 0
  · rw [if_pos hdata]
    obtain rfl := List.length_eq_zero_iff.mp hdata
    refine ⟨[], Writes.refl trace, .noData ?_⟩
    cases bswap <;> rfl
  rw [if_neg hdata]
  obtain ⟨asked, cleared, ⟨hclear, hcleared⟩ | ⟨hclear, hcleared⟩⟩ := mCapClearRequest_writes device trace
  · rw [hclear]
    dsimp only
    rw [if_neg (not_not.mpr rfl)]
    have hbefore := hcleared.then (anyBad_writes (errBeforeWrite_quiet device) cleared)
    generalize anyBad (errBeforeWrite device) cleared = before at hbefore ⊢
    by_cases hbad : before.1 = true
    · rw [if_pos hbad]
      exact ⟨_, hbefore.trans (mCapRegWrite_writes _ _ _), .refused asked⟩
    rw [if_neg hbad]
    obtain ⟨mode, hmode, hprepared⟩ := mCapEnter_writes device isMultiplebit before.2
    generalize (if isMultiplebit = true then before.2 else mCapEnterWriteMode device before.2) = entered at hmode ⊢
    have hwords := (hbefore.trans hmode).trans (writeData_writes (mCapWords data bswap) entered)
    obtain ⟨rounds, hrounds, hends⟩ := checkForCompletion_writes device (writeData entered (mCapWords data bswap))
    generalize checkForCompletion device (writeData entered (mCapWords data bswap)) = completed at hrounds hends ⊢
    have hall := hwords.trans hrounds
    rw [List.append_assoc, mCapData_append] at hall
    rcases hends with ⟨hret, hmost⟩ | ⟨hret, hmost⟩
    · rw [if_neg (not_not.mpr hret)]
      have hbehind := hall.then (anyBad_writes (errBehindWrite_quiet device) completed.2)
      generalize anyBad (errBehindWrite device) completed.2 = behind at hbehind ⊢
      by_cases hbad : behind.1 = true
      · rw [if_pos hbad]
        obtain ⟨reset, hreset, hresets⟩ := mCapFullReset_writes device
          (mCapRegWrite behind.2 MCAP_CONTROL (device trace MCAP_CONTROL).2)
        have hfailed := (hbehind.trans (mCapRegWrite_writes _ _ _)).trans hreset
        rw [List.append_assoc] at hfailed
        exact ⟨_, hfailed, .failed asked mode rounds reset hprepared hmost hresets⟩
      · rw [if_neg hbad]
        exact ⟨_, hbehind.trans (mCapRegWrite_writes _ _ _), .done asked mode rounds hprepared hmost⟩
    · rw [if_pos (by rw [hret]; decide)]
      subst hmost
      exact ⟨_, hall, .incomplete asked mode hprepared⟩
  · rw [hclear]
    exact ⟨_, hcleared, .requested⟩

/-- The same for a partial bitstream, which has one round of empty words behind it and leaves the mode on. -/
inductive McapPartialEnds (restore : Word) (words : List Word) : Int → List (Nat × Word) → Prop
  | noData : words = [] → McapPartialEnds restore words (-EMCAPWRITE) []
  | requested : McapPartialEnds restore words (-EMCAPREQ) (mCapAsk restore true ++ [(MCAP_CONTROL, restore)])
  | refused (asked : Bool) :
      McapPartialEnds restore words (-EMCAPWRITE) (mCapAsk restore asked ++ [(MCAP_CONTROL, restore)])
  | failed (asked : Bool) (set : Word) (reset : List (Nat × Word)) :
      McapResetWrites (MCAP_CTRL_RESET_MASK ||| MCAP_CTRL_MOD_RESET_MASK) reset →
      McapPartialEnds restore words (-EMCAPWRITE) (mCapAsk restore asked ++ [(MCAP_CONTROL, mCapWriteMode set)] ++
        mCapData (words ++ mCapNoops) ++ (MCAP_CONTROL, restore) :: reset)
  | done (asked : Bool) (set : Word) :
      McapPartialEnds restore words 0 (mCapAsk restore asked ++ [(MCAP_CONTROL, mCapWriteMode set)] ++
        mCapData (words ++ mCapNoops))

theorem McapPartialEnds.written {words : List Word} {ret : Int} {writes : List (Nat × Word)}
    (h : McapPartialEnds restore words ret writes) (hret : ret = 0) :
    ∃ asked set, writes = mCapAsk restore asked ++ [(MCAP_CONTROL, mCapWriteMode set)] ++
      mCapData (words ++ mCapNoops) := by
  cases h with
  | noData hwords => exact absurd hret (by decide)
  | requested => exact absurd hret (by decide)
  | refused asked => exact absurd hret (by decide)
  | failed asked set reset hreset => exact absurd hret (by decide)
  | done asked set => exact ⟨asked, set, rfl⟩

/-- The control register is restored if a partial bitstream fails, and not if it is written. -/
theorem mCapWritePartialBitStream_ends (device : McapDevice) (data : List Word) (bswap : Bool)
    (trace : List McapAccess) :
    ∃ writes, Writes trace (mCapWritePartialBitStream device data bswap trace).2 writes ∧
      McapPartialEnds (device trace MCAP_CONTROL).2 (mCapWords data bswap)
        (mCapWritePartialBitStream device data bswap trace).1 writes := by
  unfold mCapWritePartialBitStream
  by_cases hdata : data.length = 0
  · rw [if_pos hdata]
    obtain rfl := List.length_eq_zero_iff.mp hdata
    refine ⟨[], Writes.refl trace, .noData ?_⟩
    cases bswap <;> rfl
  rw [if_neg hdata]
  obtain ⟨asked, cleared, ⟨hclear, hcleared⟩ | ⟨hclear, hcleared⟩⟩ := mCapClearRequest_writes device trace
  · rw [hclear]
    dsimp only
    rw [if_neg (not_not.mpr rfl)]
    have hbefore := hcleared.then (anyBad_writes (errBeforeWrite_quiet device) cleared)
    generalize anyBad (errBeforeWrite device) cleared = before at hbefore ⊢
    by_cases hbad : before.1 = true
    · rw [if_pos hbad]
      exact ⟨_, hbefore.trans (mCapRegWrite_writes _ _ _), .refused asked⟩
    rw [if_neg hbad]
    obtain ⟨mode, hmode, set, rfl⟩ := mCapEnter_writes device false before.2
    have hall := ((hbefore.trans hmode).trans (writeData_writes (mCapWords data bswap) _)).trans
      (writeData_writes mCapNoops _)
    rw [List.append_assoc, mCapData_append] at hall
    have hbehind := hall.then (anyBad_writes (errBehindWrite_quiet device) _)
    rw [if_neg Bool.false_ne_true] at hbehind
    generalize anyBad (errBehindWrite device) _ = behind at hbehind ⊢
    by_cases hbad : behind.1 = true
    · rw [if_pos hbad]
      obtain ⟨reset, hreset, hresets⟩ := mCapFullReset_writes device
        (mCapRegWrite behind.2 MCAP_CONTROL (device trace MCAP_CONTROL).2)
      have hfailed := (hbehind.trans (mCapRegWrite_writes _ _ _)).trans hreset
      rw [List.append_assoc] at hfailed
      exact ⟨_, hfailed, .failed asked set reset hresets⟩
    · rw [if_neg hbad]
      exact ⟨_, hbehind, .done asked set⟩
  · rw [hclear]
    exact ⟨_, hcleared, .requested⟩

/-! ### The wait for the request to go -/

/-- The accesses up to the look `n` of the loop. -/
def mCapLooks (device : McapDevice) (trace : List McapAccess) : Nat → List McapAccess
  | 0 => trace
  | n + 1 => (isConfigureMCapReqSet device (mCapLooks device trace n)).2

/-- The request is still there at the look `n`. -/
def RequestedAt (device : McapDevice) (trace : List McapAccess) (n : Nat) : Prop :=
  (isConfigureMCapReqSet device (mCapLooks device trace n)).1 = true

theorem mCapLooks_succ (n : Nat) :
    mCapLooks device (isConfigureMCapReqSet device trace).2 n = mCapLooks device trace (n + 1) := by
  induction n with
  | zero => rfl
  | succ n ih => rw [mCapLooks, ih, ← mCapLooks]

/-- The count is zero behind the loop if and only if the last look is the first one without the request. -/
theorem requestLoop_zero_iff (loop : Nat) : ∀ trace, (requestLoop device loop trace).1 = 0 ↔
    (∀ n < loop, RequestedAt device trace n) ∧ ¬RequestedAt device trace loop := by
  induction loop with
  | zero =>
    intro trace
    rw [requestLoop, RequestedAt, mCapLooks]
    dsimp only
    cases (isConfigureMCapReqSet device trace).1 with
    | true => exact ⟨fun h => absurd h (by decide), fun h => absurd rfl h.2⟩
    | false => exact ⟨fun _ => ⟨fun n hn => absurd hn (Nat.not_lt_zero n), Bool.false_ne_true⟩, fun _ => rfl⟩
  | succ loop ih =>
    intro trace
    have hshift : ∀ n, RequestedAt device (isConfigureMCapReqSet device trace).2 n ↔
        RequestedAt device trace (n + 1) := by
      intro n
      rw [RequestedAt, RequestedAt, mCapLooks_succ]
    rw [requestLoop]
    dsimp only
    by_cases hfirst : (isConfigureMCapReqSet device trace).1 = true
    · rw [if_pos hfirst, ih, hshift]
      refine and_congr_left fun _ => ⟨fun h n hn => ?_, fun h n hn => (hshift n).mpr (h (n + 1) (by omega))⟩
      cases n with
      | zero => exact hfirst
      | succ n => exact (hshift n).mp (h n (by omega))
    · rw [if_neg hfirst]
      constructor
      · intro h
        exact absurd h (by omega)
      · rintro ⟨h, -⟩
        exact absurd (h 0 (Nat.succ_pos loop)) hfirst

/-- What was done when the loop begins to look, if there is a request. -/
def mCapAsked (device : McapDevice) (trace : List McapAccess) : List McapAccess :=
  mCapRegWrite (isConfigureMCapReqSet device (mCapRegRead device trace MCAP_CONTROL).2).2 MCAP_CONTROL
    ((device trace MCAP_CONTROL).2 ||| (MCAP_CTRL_MODE_MASK ||| MCAP_CTRL_IN_USE_MASK))

/-- A request that does not go is not found out: the wait fails if and only if the request goes just at the very
last look, and with one that never goes the bitstream is written all the same. -/
theorem mCapClearRequest_fails_iff (device : McapDevice) (trace : List McapAccess) :
    (mCapClearRequestByConfigure device trace).1 = -EMCAPREQ ↔
      RequestedAt device (mCapRegRead device trace MCAP_CONTROL).2 0 ∧
      (∀ n < MCAP_LOOP_COUNT, RequestedAt device (mCapAsked device trace) n) ∧
      ¬RequestedAt device (mCapAsked device trace) MCAP_LOOP_COUNT := by
  rw [← requestLoop_zero_iff, mCapClearRequestByConfigure, RequestedAt, mCapLooks]
  dsimp only
  by_cases hrequested : (isConfigureMCapReqSet device (mCapRegRead device trace MCAP_CONTROL).2).1 = true
  · rw [if_pos hrequested]
    by_cases hzero : (requestLoop device MCAP_LOOP_COUNT (mCapAsked device trace)).1 = 0
    · exact ⟨fun _ => ⟨hrequested, hzero⟩, fun _ => congrArg Prod.fst (if_pos hzero)⟩
    · refine ⟨fun h => ?_, fun h => absurd h.2 hzero⟩
      exact absurd (show (0 : Int) = -EMCAPREQ from (congrArg Prod.fst (if_neg hzero)).symm.trans h) (by decide)
  · rw [if_neg hrequested]
    exact ⟨fun h => absurd (show (0 : Int) = -EMCAPREQ from h) (by decide), fun h => absurd h.1 hrequested⟩

end MenableDriver
