import Mathlib.Data.List.Basic
import Mathlib.Logic.Function.Basic
import MenableDriver.Data.Counter
import MenableDriver.Data.Shelves
import MenableDriver.Transition.Run

/-!
# Boards, DMA channels, buffer heads and buffers

The structures of `menable.h` that an acquisition works on. Pointers are names:
a channel is its index in `dmachannels`, a head and a buffer are the addresses
`kzalloc` returned for them, and the dummy buffer of a head is named after the
head because it is embedded in it.

Counters of type `unsigned int` wrap (`Counter`). The 64-bit frame counters and
`transfer_todo` are counted in `Nat` and `Int`: they move by one per frame.
-/

namespace MenableDriver

set_option autoImplicit false

abbrev ChanRef := Nat
abbrev HeadRef := Nat
abbrev SbRef := Nat
abbrev Tgid := Nat

inductive BufRef where
  | dummy (h : HeadRef)
  | sb (b : SbRef)
deriving DecidableEq, Repr

/-- `FREE_LIST`, `GRABBED_LIST`, `HOT_LIST`, `NO_LIST` and `READY_LIST`. -/
inductive ListName where
  | free | grabbed | hot | noList | ready
deriving DecidableEq, Repr

inductive ChanState where
  | starting | started | stopping | stopped
deriving DecidableEq, Repr

inductive Errno where
  | EINVAL | EBUSY | ENODEV | ENOMEM | EFAULT | ECHRNG | ETIMEDOUT | EACCES | ENOSPC
deriving DecidableEq, Repr

/-- `none` is the return value 0. -/
abbrev Ret := Option Errno

/-- Why a function of the driver does not return: its caller has to wait for a
lock or another context, a `BUG_ON` fires, a list operation is applied to an empty
list or to a node that is in no list, or an array is read past its end. -/
inductive Halt where
  | blocked | bugOn | badList | outOfBounds
deriving DecidableEq, Repr

abbrev Res (α : Type) := Except Halt α

def MAX_FPGAS : Nat := 2

def DMA_CONTMODE : BitVec 6 := 0x10#6
def DMA_HANDSHAKEMODE : BitVec 6 := 0x20#6
def DMA_SELECTIVEMODE : BitVec 6 := 0x04#6

/-- `struct menable_dmabuf`, without what only the SGL construction uses. -/
structure Dmabuf where
  index : Int := 0
  listname : ListName := .free
  bufLength : Nat := 0
  dmaLength : Nat := 0
  dmaTag : Nat := 0
  frameNumber : Nat := 0
  timestamp : Nat := 0

/-- `kcalloc` of this many pointers is beyond `KMALLOC_MAX_SIZE` of every kernel. -/
def kcallocLimit : Nat := 2147483648

theorem noBufs_lt : ([] : List (Option SbRef)).length < kcallocLimit := by decide

/-- `struct menable_dmahead`; `num_sb` is the length of `bufs`. -/
structure Dmahead where
  id : Nat := 0
  bufs : List (Option SbRef) := []
  chan : Option ChanRef := none
  numSb_lt : bufs.length < kcallocLimit := by exact noBufs_lt

/-- `struct menable_dma_wait`: one call of `men_wait_dmaimg` that sleeps, with its
completion. -/
structure DmaWait where
  wid : Nat
  frame : Nat
  cpl : Bool := false
deriving DecidableEq, Repr

/-- What the driver did to the DMA engine of a channel, and what it got back. -/
inductive HwEvent where
  | queued (st : ChanState) (sb : BufRef)
  | bound (room : Nat) (bound : Int)
  | returned (sb : BufRef)
  | stopdma
  | abortdma
deriving DecidableEq, Repr

/-- `struct menable_dmachan`. `list n` and `count n` are the list and the counter
of the name `n` (`free_list` and `free_count` for `FREE_LIST`, and so on);
`count .noList` is `locked_count`, and `list .noList` is no list at all and stays
empty. `timer` and `dwork` say that the timer and the work item are queued,
`timing` and `working` that their functions have been called and did not run yet.
The last two fields record history: the accesses to the engine, newest first, and
the process that made the last successful start. -/
structure Dmachan where
  active : Option HeadRef := none
  number : Nat := 0
  fpga : Nat := 0
  mode : BitVec 6 := 0#6
  direction : Nat := 0
  state : ChanState := .starting
  imgcnt : Nat := 0
  goodcnt : Nat := 0
  latestFrameNumber : Nat := 0
  count : ListName → Nat := fun _ => 0
  list : ListName → List BufRef := fun _ => []
  lostCount : Nat := 0
  waitList : List DmaWait := []
  transferTodo : Int := 0
  timeout : Nat := 0
  timer : Bool := false
  timing : Bool := false
  dwork : Bool := false
  working : Bool := false
  log : List HwEvent := []
  starter : Option Tgid := none

/-- `struct me_threadgroup`. -/
structure ThreadGroup where
  id : Tgid
  cnt : Nat
  dmas : Nat → Nat → Bool

/-- `struct siso_menable`. `doomed` and `doomedHeads` are the buffers and heads that
were unlinked under `buffer_heads_lock` and are destroyed after it is dropped;
`files` are the open handles, each with the process that opened it. -/
structure Men where
  activeFpgas : Nat := 1
  dmacnt : List Nat := []
  chan : ChanRef → Dmachan := fun _ => {}
  dmaFifoLength : UInt32 := 0
  head : HeadRef → Dmahead := fun _ => {}
  headsList : List HeadRef := []
  buf : BufRef → Dmabuf := fun _ => {}
  doomed : List SbRef := []
  doomedHeads : List HeadRef := []
  groups : List ThreadGroup := []
  use : Int := 0
  files : List Tgid := []

namespace Dmachan

def incCount (ch : Dmachan) (n : ListName) : Dmachan :=
  { ch with count := Function.update ch.count n (Counter.inc (ch.count n)) }

def decCount (ch : Dmachan) (n : ListName) : Dmachan :=
  { ch with count := Function.update ch.count n (Counter.dec (ch.count n)) }

def listAdd (ch : Dmachan) (b : BufRef) (n : ListName) : Dmachan :=
  { ch with list := Shelves.putFirst ch.list b n }

def listAddTail (ch : Dmachan) (b : BufRef) (n : ListName) : Dmachan :=
  { ch with list := Shelves.putLast ch.list b n }

/-- The node of the buffer is in one of the lists of the channel. -/
def linked (ch : Dmachan) (b : BufRef) : Bool :=
  decide (b ∈ ch.list .free) || decide (b ∈ ch.list .grabbed) || decide (b ∈ ch.list .hot) ||
    decide (b ∈ ch.list .noList) || decide (b ∈ ch.list .ready)

/-- `list_del` finds the list the node is in by itself; a node that is in none has
poisoned links. -/
def listDel (ch : Dmachan) (b : BufRef) : Res Dmachan :=
  if ch.linked b then .ok { ch with list := Shelves.takeOff ch.list b } else .error .badList

def listMoveTail (ch : Dmachan) (b : BufRef) (n : ListName) : Res Dmachan :=
  if ch.linked b then .ok { ch with list := Shelves.moveLast ch.list b n } else .error .badList

/-- `list_first_entry`. -/
def listFirst (ch : Dmachan) (n : ListName) : Res BufRef :=
  match ch.list n with
  | [] => .error .badList
  | b :: _ => .ok b

def record (ch : Dmachan) (e : HwEvent) : Dmachan := { ch with log := e :: ch.log }

/-- `hrtimer_cancel` waits for a callback that runs. -/
def hrtimerCancel (ch : Dmachan) : Res Dmachan :=
  if ch.timing then .error .blocked else .ok { ch with timer := false }

theorem incCount_same (ch : Dmachan) (n : ListName) : (ch.incCount n).count n = Counter.inc (ch.count n) := by
  simp [incCount]

theorem incCount_ne (ch : Dmachan) {n n' : ListName} (hn : n' ≠ n) : (ch.incCount n).count n' =
    ch.count n' := by
  simp [incCount, hn]

theorem decCount_same (ch : Dmachan) (n : ListName) : (ch.decCount n).count n = Counter.dec (ch.count n) := by
  simp [decCount]

theorem decCount_ne (ch : Dmachan) {n n' : ListName} (hn : n' ≠ n) : (ch.decCount n).count n' =
    ch.count n' := by
  simp [decCount, hn]

theorem linked_iff {ch : Dmachan} {b : BufRef} : ch.linked b = true ↔ Shelves.On ch.list b := by
  simp only [linked, Bool.or_eq_true, decide_eq_true_eq]
  constructor
  · rintro ((((h | h) | h) | h) | h) <;> exact ⟨_, h⟩
  · rintro ⟨n, h⟩
    cases n <;> simp [h]

theorem listDel_ok {ch ch' : Dmachan} {b : BufRef} :
    ch.listDel b = .ok ch' ↔
      Shelves.On ch.list b ∧ ch' = { ch with list := Shelves.takeOff ch.list b } := by
  rw [← linked_iff]
  cases h : ch.linked b
  · simp [listDel, h]
  · simp only [listDel, h, if_true, Except.ok.injEq, true_and]
    exact eq_comm

theorem listMoveTail_ok {ch ch' : Dmachan} {b : BufRef} {n : ListName} :
    ch.listMoveTail b n = .ok ch' ↔
      Shelves.On ch.list b ∧ ch' = { ch with list := Shelves.moveLast ch.list b n } := by
  rw [← linked_iff]
  cases h : ch.linked b
  · simp [listMoveTail, h]
  · simp only [listMoveTail, h, if_true, Except.ok.injEq, true_and]
    exact eq_comm

theorem listFirst_ok {ch : Dmachan} {n : ListName} {b : BufRef} :
    ch.listFirst n = .ok b ↔ ∃ rest, ch.list n = b :: rest := by
  unfold listFirst
  cases ch.list n <;> simp

end Dmachan

namespace Men

def setChan (m : Men) (c : ChanRef) (ch : Dmachan) : Men :=
  { m with chan := Function.update m.chan c ch }

def modBuf (m : Men) (b : BufRef) (f : Dmabuf → Dmabuf) : Men :=
  { m with buf := Function.update m.buf b (f (m.buf b)) }

def setHead (m : Men) (h : HeadRef) (hd : Dmahead) : Men :=
  { m with head := Function.update m.head h hd }

def setListname (m : Men) (b : BufRef) (n : ListName) : Men :=
  m.modBuf b fun sb => { sb with listname := n }

/-- The buffers registered with a head, in slot order. -/
def regs (m : Men) (h : HeadRef) : List BufRef := (m.head h).bufs.filterMap (Option.map .sb)

section
variable (m : Men) (c c' : ChanRef) (ch : Dmachan) (b b' : BufRef) (f : Dmabuf → Dmabuf)
  (h h' : HeadRef) (hd : Dmahead) (n : ListName)

@[simp] theorem setChan_chan : (m.setChan c ch).chan c' = if c' = c then ch else m.chan c' := by
  simp [setChan, Function.update_apply]
@[simp] theorem setChan_setChan (ch' : Dmachan) : (m.setChan c ch).setChan c ch' = m.setChan c ch' := by
  simp [setChan]
@[simp] theorem setChan_activeFpgas : (m.setChan c ch).activeFpgas = m.activeFpgas := rfl
@[simp] theorem setChan_dmacnt : (m.setChan c ch).dmacnt = m.dmacnt := rfl
@[simp] theorem setChan_dmaFifoLength : (m.setChan c ch).dmaFifoLength = m.dmaFifoLength := rfl
@[simp] theorem setChan_head : (m.setChan c ch).head = m.head := rfl
@[simp] theorem setChan_headsList : (m.setChan c ch).headsList = m.headsList := rfl
@[simp] theorem setChan_buf : (m.setChan c ch).buf = m.buf := rfl
@[simp] theorem setChan_doomed : (m.setChan c ch).doomed = m.doomed := rfl
@[simp] theorem setChan_doomedHeads : (m.setChan c ch).doomedHeads = m.doomedHeads := rfl
@[simp] theorem setChan_groups : (m.setChan c ch).groups = m.groups := rfl
@[simp] theorem setChan_use : (m.setChan c ch).use = m.use := rfl
@[simp] theorem setChan_files : (m.setChan c ch).files = m.files := rfl
@[simp] theorem setChan_regs : (m.setChan c ch).regs h = m.regs h := rfl

@[simp] theorem modBuf_chan : (m.modBuf b f).chan = m.chan := rfl
@[simp] theorem modBuf_buf : (m.modBuf b f).buf b' = if b' = b then f (m.buf b) else m.buf b' := by
  simp [modBuf, Function.update_apply]
@[simp] theorem modBuf_activeFpgas : (m.modBuf b f).activeFpgas = m.activeFpgas := rfl
@[simp] theorem modBuf_dmacnt : (m.modBuf b f).dmacnt = m.dmacnt := rfl
@[simp] theorem modBuf_dmaFifoLength : (m.modBuf b f).dmaFifoLength = m.dmaFifoLength := rfl
@[simp] theorem modBuf_head : (m.modBuf b f).head = m.head := rfl
@[simp] theorem modBuf_headsList : (m.modBuf b f).headsList = m.headsList := rfl
@[simp] theorem modBuf_doomed : (m.modBuf b f).doomed = m.doomed := rfl
@[simp] theorem modBuf_doomedHeads : (m.modBuf b f).doomedHeads = m.doomedHeads := rfl
@[simp] theorem modBuf_groups : (m.modBuf b f).groups = m.groups := rfl
@[simp] theorem modBuf_use : (m.modBuf b f).use = m.use := rfl
@[simp] theorem modBuf_files : (m.modBuf b f).files = m.files := rfl
@[simp] theorem modBuf_regs : (m.modBuf b f).regs h = m.regs h := rfl

@[simp] theorem setHead_chan : (m.setHead h hd).chan = m.chan := rfl
@[simp] theorem setHead_head : (m.setHead h hd).head h' = if h' = h then hd else m.head h' := by
  simp [setHead, Function.update_apply]
@[simp] theorem setHead_activeFpgas : (m.setHead h hd).activeFpgas = m.activeFpgas := rfl
@[simp] theorem setHead_dmacnt : (m.setHead h hd).dmacnt = m.dmacnt := rfl
@[simp] theorem setHead_dmaFifoLength : (m.setHead h hd).dmaFifoLength = m.dmaFifoLength := rfl
@[simp] theorem setHead_headsList : (m.setHead h hd).headsList = m.headsList := rfl
@[simp] theorem setHead_buf : (m.setHead h hd).buf = m.buf := rfl
@[simp] theorem setHead_doomed : (m.setHead h hd).doomed = m.doomed := rfl
@[simp] theorem setHead_doomedHeads : (m.setHead h hd).doomedHeads = m.doomedHeads := rfl
@[simp] theorem setHead_groups : (m.setHead h hd).groups = m.groups := rfl
@[simp] theorem setHead_use : (m.setHead h hd).use = m.use := rfl
@[simp] theorem setHead_files : (m.setHead h hd).files = m.files := rfl

end

end Men

end MenableDriver
