import MenableDriver.Dma.Channels

/-!
# Requests, interrupts and the life of a file handle

The start of `fgrab.c`, the buffer requests of `menable_ioctl.c`, open and release
of `menable_core.c` and the DMA interrupt of `menable6.c`. A function that gives up
its locks on the way is cut there; `Dma/Calls.lean` lists the pieces.
-/

namespace MenableDriver

set_option autoImplicit false

/-- `struct fg_ctrl`. -/
structure FgCtrl where
  mode : Int
  timeout : Int
  transferTodo : Int
  chan : Nat
  head : Nat
  startBuf : Int
  dmaDir : Int
deriving DecidableEq, Repr

/-- A start that found its head and its channel. -/
structure StartWait where
  fgr : FgCtrl
  head : HeadRef
  chan : ChanRef
deriving DecidableEq, Repr

inductive StartCheck where
  | refused (e : Errno)
  | go (w : StartWait)
  | stopping (w : StartWait)

def fgStartCheck (m : Men) (fgr : FgCtrl) (tsize : Nat) : StartCheck :=
  if fgr.transferTodo = 0 then .refused .EINVAL
  else
    match meGetBufHead m fgr.head with
    | none => .refused .EINVAL
    | some h =>
      if (m.head h).bufs.length ≤ fgr.startBuf ∨ fgr.startBuf < 0 then .refused .EINVAL
      else
        match meGetSubBufByHead m h fgr.startBuf with
        | none => .refused .EINVAL
        | some b =>
          if tsize ≠ 0 ∧ (m.buf (.sb b)).bufLength < tsize then .refused .EINVAL
          else
            match menDmaChannel m fgr.chan with
            | none => .refused .ECHRNG
            | some c =>
              if 1 < fgr.dmaDir then .refused .EINVAL
              else if (m.chan c).state = .started then .refused .EBUSY
              else if fgr.mode = 0x20 ∧ fgr.dmaDir = 1 then .refused .EINVAL
              else if (m.chan c).state = .stopping then .stopping ⟨fgr, h, c⟩
              else .go ⟨fgr, h, c⟩

def llongMax : Int := 9223372036854775807

/-- `INIT_WORK` forgets a work item that is still queued. -/
def fgStartSetup (m : Men) (fgr : FgCtrl) (c : ChanRef) : Men :=
  m.setChan c { m.chan c with
    transferTodo := if fgr.transferTodo = -1 then llongMax else fgr.transferTodo
    timeout := if fgr.timeout < int32Max - 1 then (fgr.timeout % 2 ^ 64).toNat else 0
    direction := if fgr.dmaDir = 0 then 2 else 1
    dwork := false
    mode := BitVec.ofInt 6 fgr.mode
    latestFrameNumber := 0 }

/-- The end of `fg_start_transfer`, under `chanlock`. After a failure the `listlock`
section of `men_dma_clean_sync` is still to come. -/
def fgStartTail (m : Men) (w : StartWait) (hw : StartHw) (current : Tgid) : Res (Men × Ret) := do
  match ← menStartDma (fgStartSetup m w.fgr w.chan) w.chan w.head w.fgr.startBuf.toNat hw current with
  | (m, none) => .ok (m, none)
  | (m, some e) => .ok (← menDmaCleanHalt m w.chan, some e)

/-- `cancel_work_sync` waits for the work function and tells whether the work item
was queued. -/
def fgStartCancel (m : Men) (c : ChanRef) : Res (Men × Bool) :=
  let ch := m.chan c
  if ch.working then .error .blocked else .ok (m.setChan c { ch with dwork := false }, ch.dwork)

/-- What a start does after `cancel_work_sync`: it has to put the channel in
stopped state first, or it goes on, or it returns because its head is gone. -/
inductive StartResume where
  | gone
  | halted (m : Men)
  | go

def fgStartResume (m : Men) (w : StartWait) (cancelled : Bool) : Res StartResume :=
  match meGetBufHead m w.fgr.head with
  | none => .ok .gone
  | some _ =>
    if cancelled ∧ (m.chan w.chan).state = .stopping then do
      .ok (.halted (← menDmaCleanHalt m w.chan))
    else .ok .go

/-- A start whose channel was stopping goes on only when the channel is stopped by
now and the head is the one it found before. -/
def fgStartRestBusy (m : Men) (w : StartWait) : Bool :=
  decide ((m.chan w.chan).state ≠ .stopped) || decide (meGetBufHead m w.fgr.head ≠ some w.head)

def unblockAll (m : Men) (c : ChanRef) : List (Option SbRef) → Res Men
  | [] => .ok m
  | sb :: sbs => do
    let m ← menUnblockBuffer m c (sb.map .sb)
    unblockAll m c sbs

def menIoctlUnlockBuffer (m : Men) (headnr : Nat) (index : Int) : Res (Men × Ret) :=
  if index < -1 then .ok (m, some .EINVAL)
  else
    match meGetBufHead m headnr with
    | none => .ok (m, some .EINVAL)
    | some h =>
      if (m.head h).bufs.length ≤ index then .ok (m, some .EINVAL)
      else
        match (m.head h).chan with
        | none => .ok (m, none)
        | some c =>
          if index = -1 then do
            let m ← unblockAll m c (m.head h).bufs
            if (m.chan c).count .grabbed ≠ 0 ∨ (m.chan c).count .noList ≠ 0 then .error .bugOn
            else .ok (m, none)
          else
            match (m.head h).bufs[index.toNat]? with
            | none => .error .outOfBounds
            | some none => .ok (m, some .EINVAL)
            | some (some b) => do .ok (← menUnblockBuffer m c (some (.sb b)), none)

/-- The buffer a queue request names. -/
def queueRequest (m : Men) (headIdx bufIdx : Nat) : Option (HeadRef × SbRef) :=
  match meGetBufHead m headIdx with
  | none => none
  | some h =>
    match meGetSubBufByHead m h bufIdx with
    | none => none
    | some b => some (h, b)

inductive QueueCheck where
  | refused (e : Errno)
  | marked (m : Men)
  | active (c : ChanRef) (sb : SbRef)

/-- `men_queue_buffer` up to its `listlock` section. -/
def menQueueBufferCheck (m : Men) (headIdx bufIdx : Nat) : QueueCheck :=
  match queueRequest m headIdx bufIdx with
  | none => .refused .EINVAL
  | some (h, b) =>
    match (m.head h).chan with
    | none => .marked (m.setListname (.sb b) .ready)
    | some c =>
      if (m.chan c).state = .stopped ∨ (m.chan c).state = .stopping then
        -- no active acquisition, just mark buffers as being queued
        .marked (m.setListname (.sb b) .ready)
      else if (m.chan c).mode ≠ DMA_SELECTIVEMODE then .refused .EINVAL
      else .active c b

def menQueueBufferMove (m : Men) (c : ChanRef) (b : SbRef) : Res Men := do
  let ch ← (m.chan c).listMoveTail (.sb b) .ready
  menDmaQueueMax ((m.setChan c ((ch.decCount .free).incCount .ready)).setListname (.sb b) .ready) c

/-- The second part of `men_queue_buffer`. The heads are still locked, so the
request names the same buffer as in the first part. -/
def menQueueBufferAct (m : Men) (headIdx bufIdx : Nat) : Res Men :=
  match queueRequest m headIdx bufIdx with
  | none => .error .blocked
  | some (h, b) =>
    match (m.head h).chan with
    | none => .error .blocked
    | some c => menQueueBufferMove m c b

def SEL_ACT_IMAGE : Nat := 200
def SEL_NEXT_IMAGE : Nat := 220

def menIoctlGetHandshakeDmaBuffer (m : Men) (mode headnr : Nat) : Res (Men × Except Errno Int) :=
  if mode ≠ SEL_ACT_IMAGE ∧ mode ≠ SEL_NEXT_IMAGE then .ok (m, .error .EINVAL)
  else
    match meGetBufHead m headnr with
    | none => .ok (m, .error .EINVAL)
    | some h =>
      match (m.head h).chan with
      | none => .ok (m, .error .EINVAL)
      | some c => do
        let (m, sb) ← if mode = SEL_ACT_IMAGE then menLastBlocked m c else menNextBlocked m c
        .ok (m, .ok (match sb with | some b => (m.buf b).index | none => -12))

/-- `alloc` is false when there is no memory for a thread group. -/
def menableOpen (m : Men) (current : Tgid) (alloc : Bool) : Men :=
  let m := { m with use := m.use + 1, files := current :: m.files }
  match meGetThreadgroup m current with
  | some _ => { m with groups := modThreadgroup current (fun tg => { tg with cnt := tg.cnt + 1 }) m.groups }
  | none =>
    if alloc then
      { m with groups := m.groups ++ [{ id := current, cnt := 1, dmas := fun _ _ => false }] }
    else m

/-- The FPGAs with their channels in the order of the clean-up loops: the FPGA `j`,
the index `i` on it and the channel `skip + i`. -/
def fpgaChannelsFrom (j skip : Nat) : List Nat → List (Nat × Nat × ChanRef)
  | [] => []
  | n :: cnts =>
    (List.range n).map (fun i => (j, i, skip + i)) ++ fpgaChannelsFrom (j + 1) (skip + n) cnts

def fpgaChannels (m : Men) : List (Nat × Nat × ChanRef) :=
  fpgaChannelsFrom 0 0 (m.dmacnt.take m.activeFpgas)

def cleanupFlagged (m : Men) (dmas : Nat → Nat → Bool) : List (Nat × Nat × ChanRef) → Men
  | [] => m
  | (j, i, c) :: rest => cleanupFlagged (if dmas j i then menStopDma m c else m) dmas rest

/-- The flags are cleared with the group that holds them. -/
def menCleanupThreadgroup (m : Men) (tg : ThreadGroup) : Men :=
  let m := cleanupFlagged m tg.dmas (fpgaChannels m)
  { m with groups := m.groups.eraseP fun g => decide (g.id = tg.id) }

def menCleanupChannels (m : Men) : Men := cleanupFlagged m (fun _ _ => true) (fpgaChannels m)

/-- The part of `menable_release` for the process that closes a handle. -/
def menableReleaseGroup (m : Men) (current : Tgid) : Men :=
  match meGetThreadgroup m current with
  | none => m
  | some tg =>
    let tg := { tg with cnt := tg.cnt - 1 }
    let m := { m with groups := modThreadgroup current (fun _ => tg) m.groups }
    if tg.cnt = 0 then menCleanupThreadgroup m tg else m

/-- `menable_release` of a handle that `owner` opened and `current` closes; true when it
was the last one and `men_cleanup_mem` follows. -/
def menableRelease (m : Men) (owner current : Tgid) : Res (Men × Bool) :=
  if owner ∈ m.files then
    let m := menableReleaseGroup { m with files := m.files.erase owner } current
    let m := { m with use := m.use - 1 }
    if m.use = 0 then .ok (menCleanupChannels m, true) else .ok (m, false)
  else .error .blocked

/-- A head that could not be released is put in the list of the heads to free while
it is still in the other list. -/
def menCleanupMem (m : Men) : List HeadRef → Res Men
  | [] => .ok m
  | h :: hs =>
    match menReleaseBufHead m h with
    | (_, some _) => .error .badList
    | (m, none) => menCleanupMem { m with doomedHeads := h :: m.doomedHeads } hs

/-- One frame of `me6_dma_irq`: the first `listlock` section. -/
def irqFrame (m : Men) (c : ChanRef) (ts len tag : Nat) : Res Men := do
  let (m, sb) ← menMoveHot m c ts
  match sb with
  | none => .ok m
  | some b =>
    if (m.buf b).index = -1 then .ok m
    else
      .ok (m.modBuf b fun sb =>
        { sb with
          dmaLength := len
          dmaTag := tag
          frameNumber := (m.chan c).latestFrameNumber })

def completeReached (goodcnt : Nat) (w : DmaWait) : DmaWait :=
  if w.frame ≤ goodcnt then complete w else w

/-- The second `listlock` section; true when no frame is left to transfer. -/
def irqScan (m : Men) (c : ChanRef) (newFrames : Nat) : Res (Men × Bool) :=
  let ch := m.chan c
  let m := m.setChan c { ch with waitList := ch.waitList.map (completeReached ch.goodcnt) }
  if 0 < ch.transferTodo then do
    if newFrames ≠ 0 then .ok (← menDmaQueueMax m c, false) else .ok (m, false)
  else .ok (m, true)

def irqRearm (m : Men) (c : ChanRef) : Res Men :=
  if (m.chan c).timeout ≠ 0 then do
    let ch ← (m.chan c).hrtimerCancel
    .ok (m.setChan c { ch with timer := true })
  else .ok m

def irqFinish (m : Men) (c : ChanRef) : Men :=
  m.setChan c { m.chan c with state := .stopping, dwork := true }

/-- Frames of a channel without an active head, and an overflow, are only counted. -/
def irqLost (m : Men) (c : ChanRef) (newFrames : Nat) : Men :=
  m.setChan c { m.chan c with lostCount := ((m.chan c).lostCount + newFrames) % Counter.wrap }

/-- The timer expires and its callback is called. -/
def timerExpire (m : Men) (c : ChanRef) : Res Men :=
  let ch := m.chan c
  if ch.timer ∧ ¬ ch.timing then .ok (m.setChan c { ch with timer := false, timing := true })
  else .error .blocked

def timerRun (m : Men) (c : ChanRef) : Res Men :=
  let ch := m.chan c
  if ch.timing then .ok (menDmaTimeoutHalt (m.setChan c { ch with timing := false }) c)
  else .error .blocked

/-- A worker takes the work item and calls `men_dma_done_work`. -/
def workTake (m : Men) (c : ChanRef) : Res Men :=
  let ch := m.chan c
  if ch.dwork ∧ ¬ ch.working then .ok (m.setChan c { ch with dwork := false, working := true })
  else .error .blocked

def workRun (m : Men) (c : ChanRef) : Res Men :=
  let ch := m.chan c
  if ch.working then menDmaDoneWork (m.setChan c { ch with working := false }) c
  else .error .blocked

end MenableDriver
