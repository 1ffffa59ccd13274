import MenableDriver.Controllers.Machine

/-!
# The SPI v2 controller

`spi_v2_controller.c`: commands and data go through one control register. What its reads give is a parameter of
the model, first the values from before the device has gone, and from then on all ones. A loop gets a bound for
its reads; it does not end when no bound is enough.
-/

namespace MenableDriver

set_option autoImplicit false

open Replay (replay)

def SPI_MASK_SELECT_DEVICE : Word := 0x40000000#32
def SPI_MASK_WRITE_FIFO : Word := 0x04000000#32
def SPI_READ : Word := 0x04000000#32
def SPI_WRITE : Word := 0#32
def SPI_QUAD_MODE_ON : Word := 0x08000000#32
def SPI_CHIPSELECT_OFF : Word := 0x10000000#32
def SPI_CHIPSELECT_ON : Word := 0#32
def SPI_ACCESS_VALID_ON : Word := 0x20000000#32
def SPI_ACCESS_VALID_OFF : Word := 0#32
def SPI_READ_FIFO_EMPTY : Word := 0x08000000#32
def SPI_WRITE_FIFO_EMPTY : Word := 0x04000000#32

def SPI_BURST_FLAG_QUAD_MODE : BitVec 8 := 0x1#8
def SPI_POST_BURST_FLAG_LEAVE_CS_ASSERTED : Word := 0x10#32

def UINT32_MAX : Word := 0xffffffff#32

/-- `struct spi_v2_controller`; the base and the register are the same for all bursts. -/
structure SpiV2Controller where
  selectedDevice : Word

/-- What `controller_base_init` gets. -/
def spiV2Base : ControllerBase where
  readQueueSize := ⟨8, by decide, by decide⟩
  maxBytesPerRead := ⟨3, by decide, by decide⟩
  writeQueueSize := ⟨8, by decide, by decide⟩
  maxBytesPerWrite := ⟨3, by decide, by decide⟩

/-- The number of reads so far, the words that were written, and the buffer of a read burst. -/
structure SpiState where
  reads : Nat
  written : List Word
  buffer : Nat → BitVec 8

/-- The reads of a device that goes after these values. -/
def readsUntilGone (before : List Word) (n : Nat) : Word := before.getD n UINT32_MAX

def getDataSizeFlag (numBytes : Nat) : Word := (BitVec.ofNat 32 numBytes - 1) <<< 24

def extractByte (word : Word) (pos : Nat) : BitVec 8 := (word >>> (8 * pos)).setWidth 8

variable (self : SpiV2Controller) (reads : Nat → Word)

def spiV2WriteCtrlRegister (s : SpiState) (value : Word) : SpiState :=
  { s with written := s.written ++ [value ||| (self.selectedDevice &&& SPI_MASK_SELECT_DEVICE)] }

def spiV2WaitForCtrlStatus (statusMask desiredStatus : Word) : Nat → Nat → Option (Int × Nat)
  | 0, _ => none
  | fuel + 1, n =>
    let status := reads n
    if status ≠ UINT32_MAX ∧ status &&& statusMask ≠ desiredStatus then
      spiV2WaitForCtrlStatus statusMask desiredStatus fuel (n + 1)
    else some (if status ≠ UINT32_MAX then STATUS_OK else STATUS_ERROR, n + 1)

def spiV2WaitForWriteFifoEmpty (fuel n : Nat) : Option (Int × Nat) :=
  spiV2WaitForCtrlStatus reads SPI_MASK_WRITE_FIFO SPI_WRITE_FIFO_EMPTY fuel n

def spiV2ReadDataWhenValid : Nat → Nat → Option (Word × Nat)
  | 0, _ => none
  | fuel + 1, n =>
    let spiReg := reads n
    if spiReg &&& SPI_READ_FIFO_EMPTY = SPI_READ_FIFO_EMPTY then spiV2ReadDataWhenValid fuel (n + 1)
    else some (spiReg, n + 1)

inductive SpiCsStatus
  | on | off
deriving DecidableEq

def spiV2SetChipselect (s : SpiState) (status : SpiCsStatus) : SpiState :=
  spiV2WriteCtrlRegister self s
    (SPI_ACCESS_VALID_OFF ||| if status = .off then SPI_CHIPSELECT_OFF else SPI_CHIPSELECT_ON)

/-- The command of a shot. -/
def spiV2Command (cmdBase : Word) (currentBurstFlags : BitVec 8) (numBytes : Nat) : Word :=
  let cmd := cmdBase ||| getDataSizeFlag numBytes
  if currentBurstFlags &&& SPI_BURST_FLAG_QUAD_MODE ≠ 0 then cmd ||| SPI_QUAD_MODE_ON else cmd

/-- The bytes of a shot, the first one at the low end. -/
def spiV2ShotData (bytes : List (BitVec 8)) : Word :=
  (bytes.zipIdx.map fun (byte, i) => byte.setWidth 32 <<< (8 * i)).foldl (· ||| ·) 0#32

def spiV2WriteShot (s : SpiState) (currentBurstFlags : BitVec 8) (bytes : List (BitVec 8)) : SpiState :=
  let cmd := spiV2Command (SPI_WRITE ||| SPI_CHIPSELECT_ON ||| SPI_ACCESS_VALID_ON)
    currentBurstFlags bytes.length
  spiV2WriteCtrlRegister self s (cmd ||| spiV2ShotData bytes)

def spiV2RequestRead (s : SpiState) (currentBurstFlags : BitVec 8) (numBytes : Nat) : SpiState :=
  spiV2WriteCtrlRegister self s
    (spiV2Command (SPI_READ ||| SPI_CHIPSELECT_ON ||| SPI_ACCESS_VALID_ON) currentBurstFlags numBytes)

def spiV2ReadShot (fuel : Nat) (s : SpiState) (buf numBytes : Nat) : Option SpiState :=
  (spiV2ReadDataWhenValid reads fuel s.reads).map fun (spiReg, n) =>
    { s with
      reads := n
      buffer := fun k =>
        if buf ≤ k ∧ k < buf + numBytes then extractByte spiReg (numBytes - 1 - (k - buf)) else s.buffer k }

/-- The hooks. Only waiting for the write queue can fail. -/
def spiV2Step (fuel : Nat) (s : SpiState) (call : BurstCall) : Option (SpiState × Int) :=
  match call.hook with
  | .handlePreBurstFlags _ => some (spiV2SetChipselect self s .on, 0)
  | .handlePostBurstFlags flags =>
    if flags &&& SPI_POST_BURST_FLAG_LEAVE_CS_ASSERTED = 0 then some (spiV2SetChipselect self s .off, 0)
    else some (s, 0)
  | .writeShot bytes => some (spiV2WriteShot self s call.currentBurstFlags bytes, 0)
  | .waitForWriteQueueEmpty =>
    (spiV2WaitForWriteFifoEmpty reads fuel s.reads).map fun (ret, n) => ({ s with reads := n }, ret)
  | .requestRead numBytes => some (spiV2RequestRead self s call.currentBurstFlags numBytes, 0)
  | .readShot buf numBytes => (spiV2ReadShot reads fuel s buf numBytes).map fun s => (s, 0)
  | .burstAborted => some (s, 0)

/-- The bursts, on a device that goes after the values `before` have been read. -/
def spiV2WriteBurst (before : List Word) (fuel : Nat) (st : BurstState) (s : SpiState) (flags : Word)
    (buf : List (BitVec 8)) : Option (Int × BurstState × SpiState) :=
  machineBurst (spiV2Step self (readsUntilGone before) fuel) s fun hooks =>
    ctrlWriteBurst spiV2Base hooks st flags buf

def spiV2ReadBurst (before : List Word) (fuel : Nat) (st : BurstState) (s : SpiState) (flags : Word)
    (size : Nat) : Option (Int × BurstState × SpiState) :=
  machineBurst (spiV2Step self (readsUntilGone before) fuel) s fun hooks =>
    ctrlReadBurst spiV2Base hooks st flags size

/-- The burst ends, and if the device had gone when something was still to be read, it says so. -/
def EndsWhenGone (before : List Word) (burst : Nat → Option (Int × BurstState × SpiState)) : Prop :=
  ∃ fuel ret st s, burst fuel = some (ret, st, s) ∧ (before.length < s.reads → ret ≠ STATUS_OK)

/-- The word has data with it. -/
def hasData (spiReg : Word) : Bool := decide (spiReg &&& SPI_READ_FIFO_EMPTY ≠ SPI_READ_FIFO_EMPTY)

/-- How many of the first `n` words have data with them. -/
def dataWords (before : List Word) (n : Nat) : Nat := (before.take n).countP hasData

/-! ### The loops -/

variable {self reads} {before : List Word} {n m fuel : Nat} {s s' : SpiState} {call : BurstCall} {ret : Int}

theorem readsUntilGone_gone (h : before.length ≤ n) : readsUntilGone before n = UINT32_MAX := by
  rw [readsUntilGone, List.getD_eq_getElem?_getD, List.getElem?_eq_none h]
  rfl

theorem hasData_gone : hasData UINT32_MAX = false := by decide

theorem dataWords_succ (before : List Word) (n : Nat) :
    dataWords before (n + 1) = dataWords before n + if hasData (readsUntilGone before n) then 1 else 0 := by
  unfold dataWords
  by_cases hn : n < before.length
  · have hget : readsUntilGone before n = before[n] := by
      rw [readsUntilGone, List.getD_eq_getElem?_getD, List.getElem?_eq_getElem hn]
      rfl
    rw [List.take_succ_eq_append_getElem hn, List.countP_append, hget, List.countP_singleton]
  · have hge := Nat.le_of_not_lt hn
    rw [readsUntilGone_gone hge, hasData_gone, List.take_of_length_le hge,
      List.take_of_length_le (Nat.le_succ_of_le hge)]
    rfl

theorem dataWords_mono (h : n ≤ m) : dataWords before n ≤ dataWords before m := by
  induction h with
  | refl => exact Nat.le_refl _
  | step _ ih =>
    rw [dataWords_succ]
    exact Nat.le_add_right_of_le ih

/-- Behind the values from before the device has gone there are no more data words. -/
theorem dataWords_le (before : List Word) (n : Nat) : dataWords before n ≤ dataWords before
    before.length := by
  unfold dataWords
  rw [List.take_length]
  exact List.Sublist.countP_le (List.take_sublist n before)

/-- The wait gives up at the first read from the device that has gone. -/
theorem waitForCtrlStatus_returns {mask desired : Word} (hfuel : before.length < fuel + n) (hpos : 0 < fuel) :
    ∃ r, spiV2WaitForCtrlStatus (readsUntilGone before) mask desired fuel n = some r := by
  induction fuel generalizing n with
  | zero => exact absurd hpos (Nat.lt_irrefl 0)
  | succ fuel ih =>
    rw [spiV2WaitForCtrlStatus]
    split_ifs with hloop
    · have hn : n < before.length := by
        by_contra hge
        exact hloop.1 (readsUntilGone_gone (Nat.le_of_not_lt hge))
      exact ih (by omega) (by omega)
    · exact ⟨_, rfl⟩
    · exact ⟨_, rfl⟩

theorem waitForCtrlStatus_gone {mask desired : Word} {r : Int × Nat}
    (h : spiV2WaitForCtrlStatus (readsUntilGone before) mask desired fuel n = some r)
    (hn : n ≤ before.length) (hgone : before.length < r.2) : r.1 = STATUS_ERROR := by
  induction fuel generalizing n with
  | zero => cases h
  | succ fuel ih =>
    rw [spiV2WaitForCtrlStatus] at h
    by_cases hloop : readsUntilGone before n ≠ UINT32_MAX ∧ readsUntilGone before n &&& mask ≠ desired
    · rw [if_pos hloop] at h
      have hlt : n < before.length := by
        by_contra hge
        exact hloop.1 (readsUntilGone_gone (Nat.le_of_not_lt hge))
      exact ih h hlt
    · rw [if_neg hloop] at h
      obtain rfl := Option.some.inj h
      dsimp only at hgone ⊢
      rw [if_neg (not_not.mpr (readsUntilGone_gone (by omega)))]

/-- A data read ends at the next word with data. -/
theorem readDataWhenValid_spec {r : Word × Nat}
    (h : spiV2ReadDataWhenValid (readsUntilGone before) fuel n = some r) :
    r.2 ≤ before.length ∧ dataWords before r.2 = dataWords before n + 1 := by
  induction fuel generalizing n with
  | zero => cases h
  | succ fuel ih =>
    rw [spiV2ReadDataWhenValid] at h
    have hsucc := dataWords_succ before n
    by_cases hempty : readsUntilGone before n &&& SPI_READ_FIFO_EMPTY = SPI_READ_FIFO_EMPTY
    · have hno : hasData (readsUntilGone before n) = false := decide_eq_false (not_not.mpr hempty)
      rw [if_pos hempty] at h
      rw [hno] at hsucc
      have hsame : dataWords before (n + 1) = dataWords before n := hsucc
      rw [← hsame]
      exact ih h
    · have hyes : hasData (readsUntilGone before n) = true := decide_eq_true hempty
      rw [if_neg hempty] at h
      obtain rfl := Option.some.inj h
      rw [hyes, if_pos rfl] at hsucc
      refine ⟨?_, hsucc⟩
      by_contra hge
      rw [readsUntilGone_gone (by dsimp only at hge; omega), hasData_gone] at hyes
      exact absurd hyes Bool.false_ne_true

theorem readDataWhenValid_returns (hfuel : before.length < fuel + n)
    (hmore : dataWords before n < dataWords before before.length) :
    ∃ r, spiV2ReadDataWhenValid (readsUntilGone before) fuel n = some r := by
  induction fuel generalizing n with
  | zero =>
    have hle := @dataWords_mono before before.length n (by omega)
    omega
  | succ fuel ih =>
    rw [spiV2ReadDataWhenValid]
    split_ifs with hempty
    · have hno : hasData (readsUntilGone before n) = false := decide_eq_false (not_not.mpr hempty)
      have hsucc := dataWords_succ before n
      rw [hno, if_neg Bool.false_ne_true, Nat.add_zero] at hsucc
      exact ih (by omega) (by rw [hsucc]; exact hmore)
    · exact ⟨_, rfl⟩

/-! ### The hooks -/

/-- The other hooks read nothing, and succeed. -/
theorem spiV2Step_silent (hwait : call.hook ≠ .waitForWriteQueueEmpty)
    (hread : ∀ buf numBytes, call.hook ≠ .readShot buf numBytes) :
    ∃ s', spiV2Step self reads fuel s call = some (s', 0) ∧ s'.reads = s.reads := by
  unfold spiV2Step
  cases hhook : call.hook with
  | waitForWriteQueueEmpty => exact absurd hhook hwait
  | readShot buf numBytes => exact absurd hhook (hread buf numBytes)
  | handlePostBurstFlags flags =>
    dsimp only
    split_ifs
    · exact ⟨_, rfl, rfl⟩
    · exact ⟨_, rfl, rfl⟩
  | handlePreBurstFlags flags => exact ⟨_, rfl, rfl⟩
  | writeShot bytes => exact ⟨_, rfl, rfl⟩
  | requestRead numBytes => exact ⟨_, rfl, rfl⟩
  | burstAborted => exact ⟨_, rfl, rfl⟩

/-- A read shot takes one data word. -/
theorem spiV2Step_readShot {r : SpiState × Int} {buf numBytes : Nat}
    (h : spiV2Step self (readsUntilGone before) fuel s call = some r) (hread : call.hook = .readShot buf numBytes) :
    r.2 = 0 ∧ r.1.reads ≤ before.length ∧ dataWords before r.1.reads = dataWords before s.reads + 1 := by
  unfold spiV2Step at h
  rw [hread] at h
  obtain ⟨s', hshot, rfl⟩ := Option.map_eq_some_iff.mp h
  obtain ⟨r, hdata, rfl⟩ := Option.map_eq_some_iff.mp hshot
  exact ⟨rfl, readDataWhenValid_spec hdata⟩

/-- Where a call lets the reads go beyond the values from before, it reports an error. -/
theorem spiV2Step_gone {r : SpiState × Int} (h : spiV2Step self (readsUntilGone before) fuel s call = some r)
    (hs : ¬before.length < s.reads) (hgone : before.length < r.1.reads) :
    call.hook.checked = true ∧ menIsError r.2 = true := by
  by_cases hwait : call.hook = .waitForWriteQueueEmpty
  · unfold spiV2Step at h
    rw [hwait] at h ⊢
    obtain ⟨⟨ret, n⟩, hstatus, rfl⟩ := Option.map_eq_some_iff.mp h
    have herr : ret = STATUS_ERROR := waitForCtrlStatus_gone hstatus (Nat.le_of_not_lt hs) hgone
    rw [herr]
    exact ⟨rfl, rfl⟩
  by_cases hread : ∃ buf numBytes, call.hook = .readShot buf numBytes
  · obtain ⟨buf, numBytes, hread⟩ := hread
    exact absurd hgone (Nat.not_lt.mpr (spiV2Step_readShot h hread).2.1)
  · obtain ⟨s', hstep, hsame⟩ := @spiV2Step_silent self (readsUntilGone before) fuel s call hwait
      fun buf numBytes heq => hread ⟨buf, numBytes, heq⟩
    rw [hstep] at h
    obtain rfl := Option.some.inj h
    rw [hsame] at hgone
    exact absurd hgone hs

/-- Every burst whose reads go on after the device has gone reports an error. -/
theorem spiV2_burst_gone {burst : Hooks → Int × BurstState} {st : BurstState}
    (h : machineBurst (spiV2Step self (readsUntilGone before) fuel) s burst = some (ret, st, s'))
    (hends : ∀ hooks, EndsOnFailure hooks (burst hooks).1 (burst hooks).2) (hs : s.reads = 0)
    (hgone : before.length < s'.reads) : ret ≠ STATUS_OK := by
  obtain ⟨hburst, a, hreplay⟩ := machineBurst_eq_some h
  have hend := hends (machineHooks (spiV2Step self (readsUntilGone before) fuel) s)
  rw [hburst] at hend
  have hstart : ¬before.length < s.reads := by omega
  obtain ⟨front, call, r₁, r₂, hp, hfront, hr₁, hcall, hr₂⟩ :=
    @Replay.replay_crosses _ _ _ _ _ _ _ (fun s => before.length < s.reads) hstart hreplay hgone
  obtain ⟨hchecked, herr⟩ := spiV2Step_gone hcall hr₁ hr₂
  have hret : ret = STATUS_ERROR := machine_error hend hp hfront hcall hchecked herr
  rw [hret]
  decide

/-! ### The bursts -/

variable {flags : Word} {st : BurstState} {size : Nat}

/-- A write burst reads data nowhere, and each of its waits returns. -/
theorem spiV2WriteBurst_returns (self : SpiV2Controller) (before : List Word) (st : BurstState) (s : SpiState)
    (flags : Word) (buf : List (BitVec 8)) :
    ∃ r, spiV2WriteBurst self before (before.length + 1) st s flags buf = some r := by
  have hcalls : ∀ hooks, CalledOnly (fun hook => ∀ buf numBytes, hook ≠ .readShot buf numBytes)
      (ctrlWriteBurst spiV2Base hooks st flags buf).2 := by
    intro hooks
    apply ctrlWriteBurst_calls <;> simp
  have hstep : ∀ call : BurstCall, (∀ buf numBytes, call.hook ≠ .readShot buf numBytes) → ∀ s,
      ∃ r, spiV2Step self (readsUntilGone before) (before.length + 1) s call = some r := by
    intro call hread s
    by_cases hwait : call.hook = .waitForWriteQueueEmpty
    · have hfuel : before.length < before.length + 1 + s.reads := by omega
      obtain ⟨r, hr⟩ := @waitForCtrlStatus_returns before s.reads (before.length + 1) SPI_MASK_WRITE_FIFO
        SPI_WRITE_FIFO_EMPTY hfuel (Nat.succ_pos _)
      unfold spiV2Step
      rw [hwait]
      dsimp only
      rw [spiV2WaitForWriteFifoEmpty, hr]
      exact ⟨_, rfl⟩
    · obtain ⟨s', hs', -⟩ := @spiV2Step_silent self (readsUntilGone before)
        (before.length + 1) s call hwait hread
      exact ⟨_, hs'⟩
  apply machineBurst_returns (I := fun _ _ => True) trivial
  intro front call s₁ hp _
  have hmem := hp.subset (List.mem_append_right front List.mem_cons_self)
  obtain ⟨r, hr⟩ := hstep call (hcalls _ call hmem) s₁
  exact ⟨r, hr, trivial⟩

theorem spiV2ReadBurst_calls (hooks : Hooks) (st : BurstState) (flags : Word) (size : Nat) :
    CalledOnly (fun hook => hook ≠ .waitForWriteQueueEmpty)
      (ctrlReadBurst spiV2Base hooks st flags size).2 := by
  apply ctrlReadBurst_calls <;> simp

/-- Each result takes one data word. -/
theorem spiV2Step_dataWords {r : SpiState × Int} {calls : List BurstCall}
    (h : spiV2Step self (readsUntilGone before) fuel s call = some r)
      (hwait : call.hook ≠ .waitForWriteQueueEmpty)
    (hs : dataWords before s.reads = (collected calls).length) :
    r.2 = 0 ∧ dataWords before r.1.reads = (collected (calls ++ [call])).length := by
  by_cases hread : ∃ buf numBytes, call.hook = .readShot buf numBytes
  · obtain ⟨buf, numBytes, hread⟩ := hread
    obtain ⟨hret, -, hwords⟩ := spiV2Step_readShot h hread
    refine ⟨hret, ?_⟩
    rw [hwords, hs]
    simp [collected, hread, HookCall.collected]
  · have hread' : ∀ buf numBytes, call.hook ≠ .readShot buf numBytes := fun buf numBytes heq =>
      hread ⟨_, _, heq⟩
    obtain ⟨s', hstep, hsame⟩ := @spiV2Step_silent self (readsUntilGone before) fuel s call hwait hread'
    rw [hstep] at h
    obtain rfl := Option.some.inj h
    refine ⟨rfl, ?_⟩
    have hnone : call.hook.collected = none := by
      cases hhook : call.hook with
      | readShot buf numBytes => exact absurd hhook (hread' buf numBytes)
      | _ => rfl
    rw [hsame, hs]
    simp [collected, hnone]

/-- A read burst that ends has got a data word for each of its results. -/
theorem spiV2ReadBurst_dataWords {st' : BurstState} (hs : s.reads = 0)
    (h : spiV2ReadBurst self before fuel st s flags size = some (ret, st', s')) :
    Pieces.count 3 size ≤ dataWords before before.length := by
  obtain ⟨hburst, a, hreplay⟩ := machineBurst_eq_some h
  have hcalls := spiV2ReadBurst_calls (machineHooks (spiV2Step self (readsUntilGone before) fuel) s)
    st flags size
  have hends := ctrlReadBurst_ends spiV2Base
    (machineHooks (spiV2Step self (readsUntilGone before) fuel) s) st flags
    size
  obtain ⟨j, -, hcollected, hall⟩ := ctrlReadBurst_collected spiV2Base
    (machineHooks (spiV2Step self (readsUntilGone before) fuel) s) st flags size
  rw [hburst] at hcalls hends hcollected hall
  have hinv : ∀ front, front <+: st'.calls → ∀ r, replay (spiV2Step self (readsUntilGone before) fuel)
      (s, STATUS_OK) front = some r → dataWords before r.1.reads = (collected front).length := by
    intro front hp r hr
    apply @Replay.replay_invariant _ _ _ _ _ _ _ st'.calls
      (fun calls s => dataWords before s.reads = (collected calls).length) _ _ hr hp
    · dsimp only
      rw [hs]
      rfl
    · intro calls call s₁ r₁ hp₁ hI hstep
      have hmem := hp₁.subset (List.mem_append_right calls List.mem_cons_self)
      exact (spiV2Step_dataWords hstep (hcalls call hmem) hI).2
  have hok : ret = STATUS_OK := by
    apply machine_ok hends
    intro front call hp _
    obtain ⟨r, hr⟩ := Replay.replay_of_prefix hreplay hp
    obtain ⟨r₁, hfront, hcall⟩ := Replay.replay_concat_eq_some hr
    have hmem := hp.subset (List.mem_append_right front List.mem_cons_self)
    have hzero := (spiV2Step_dataWords hcall (hcalls call hmem)
      (hinv front ((List.prefix_append front [call]).trans hp) r₁ hfront)).1
    refine ⟨r₁, r, hfront, hcall, ?_⟩
    rw [hzero]
    decide
  have hlength := hinv st'.calls (List.prefix_refl _) _ hreplay
  have hcount : j = Pieces.count 3 size := hall hok
  rw [hcollected, List.length_map, List.length_range, hcount] at hlength
  rw [← hlength]
  exact dataWords_le before _

/-- With a data word for each of its results a read burst ends. -/
theorem spiV2ReadBurst_returns (hs : s.reads = 0)
    (hdata : Pieces.count 3 size ≤ dataWords before before.length) :
    ∃ r, spiV2ReadBurst self before (before.length + 1) st s flags size = some r := by
  have hcalls := spiV2ReadBurst_calls
    (machineHooks (spiV2Step self (readsUntilGone before) (before.length + 1)) s) st flags size
  obtain ⟨j, hj, hcollected, -⟩ := ctrlReadBurst_collected spiV2Base
    (machineHooks (spiV2Step self (readsUntilGone before) (before.length + 1)) s) st flags size
  have hmost : ∀ front, front <+: (ctrlReadBurst spiV2Base
      (machineHooks (spiV2Step self (readsUntilGone before) (before.length + 1)) s) st flags size).2.calls →
      (collected front).length ≤ Pieces.count 3 size := by
    intro front hp
    have hsub := (hp.sublist.filterMap fun call => call.hook.collected).length_le
    have hlen : (collected (ctrlReadBurst spiV2Base (machineHooks (spiV2Step self (readsUntilGone before)
        (before.length + 1)) s) st flags size).2.calls).length = j := by
      rw [hcollected, List.length_map, List.length_range]
    exact Nat.le_trans hsub (Nat.le_trans (Nat.le_of_eq hlen) hj)
  apply machineBurst_returns (I := fun calls s => dataWords before s.reads = (collected calls).length)
  · rw [hs]
    rfl
  intro front call s₁ hp hI
  have hmem := hp.subset (List.mem_append_right front List.mem_cons_self)
  have hwait := hcalls call hmem
  have hstep : ∃ r, spiV2Step self (readsUntilGone before) (before.length + 1) s₁ call = some r := by
    by_cases hread : ∃ buf numBytes, call.hook = .readShot buf numBytes
    · obtain ⟨buf, numBytes, hread⟩ := hread
      have hnext := hmost _ hp
      have hlast : (collected (front ++ [call])).length = (collected front).length + 1 := by
        simp [collected, hread, HookCall.collected]
      obtain ⟨r, hr⟩ := @readDataWhenValid_returns before s₁.reads (before.length + 1) (by omega) (by omega)
      unfold spiV2Step
      rw [hread]
      dsimp only
      rw [spiV2ReadShot, hr]
      exact ⟨_, rfl⟩
    · obtain ⟨s', hs', -⟩ := @spiV2Step_silent self (readsUntilGone before) (before.length + 1) s₁ call hwait
        fun buf numBytes heq => hread ⟨buf, numBytes, heq⟩
      exact ⟨_, hs'⟩
  obtain ⟨r, hr⟩ := hstep
  exact ⟨r, hr, (spiV2Step_dataWords hr hwait hI).2⟩

/-- The controller at the start of a burst, with nothing read yet. -/
def spiV2Start (written : List Word) (buffer : Nat → BitVec 8) : SpiState := ⟨0, written, buffer⟩

/-- The waits give up on a device that has gone. A data read does not, so a read burst ends only if all the data
that it asks for came before. -/
theorem spiV2_bursts_end_iff (self : SpiV2Controller) (before : List Word) (st : BurstState)
    (written : List Word)
    (buffer : Nat → BitVec 8) (flags : Word) :
    (∀ buf, EndsWhenGone before fun fuel =>
      spiV2WriteBurst self before fuel st (spiV2Start written buffer) flags buf) ∧
    ∀ size, (EndsWhenGone before fun fuel =>
        spiV2ReadBurst self before fuel st (spiV2Start written buffer) flags size) ↔
      Pieces.count 3 size ≤ dataWords before before.length := by
  constructor
  · intro buf
    obtain ⟨⟨ret, st', s'⟩, hr⟩ := spiV2WriteBurst_returns self before st (spiV2Start written buffer)
      flags buf
    refine ⟨_, ret, st', s', hr, fun hgone => ?_⟩
    exact spiV2_burst_gone hr (fun hooks => ctrlWriteBurst_ends _ hooks st flags buf) rfl hgone
  · intro size
    constructor
    · rintro ⟨fuel, ret, st', s', h, -⟩
      exact spiV2ReadBurst_dataWords rfl h
    · intro hdata
      obtain ⟨⟨ret, st', s'⟩, hr⟩ := @spiV2ReadBurst_returns self before (spiV2Start written buffer)
        flags st size
        rfl hdata
      refine ⟨_, ret, st', s', hr, fun hgone => ?_⟩
      exact spiV2_burst_gone hr (fun hooks => ctrlReadBurst_ends _ hooks st flags size) rfl hgone

/-- A read of one byte from a device that is gone from the start: whatever the bound, it does not end. -/
theorem spiV2ReadBurst_endless :
    (∀ fuel, spiV2ReadBurst ⟨0#32⟩ [] fuel ⟨0#8, false, false, []⟩ (spiV2Start [] fun _ => 0#8) 0#32 1 = none) ∧
      ¬EndsWhenGone [] fun fuel =>
        spiV2ReadBurst ⟨0#32⟩ [] fuel ⟨0#8, false, false, []⟩ (spiV2Start [] fun _ => 0#8) 0#32 1 := by
  have hnone : ∀ fuel, spiV2ReadBurst ⟨0#32⟩ [] fuel ⟨0#8, false, false, []⟩ (spiV2Start [] fun _ =>
    0#8) 0#32 1 =
      none := by
    intro fuel
    cases h : spiV2ReadBurst ⟨0#32⟩ [] fuel ⟨0#8, false, false, []⟩ (spiV2Start [] fun _ => 0#8) 0#32 1 with
    | none => rfl
    | some r => exact absurd (spiV2ReadBurst_dataWords rfl h) (by decide)
  refine ⟨hnone, ?_⟩
  rintro ⟨fuel, ret, st, s, h, -⟩
  have hend := (hnone fuel).symm.trans h
  exact absurd hend (by simp)

end MenableDriver
