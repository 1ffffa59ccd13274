import MenableDriver.Dma.Requests

/-!
# The calls

Every piece of the driver that runs under one set of locks is a call: a request of
a process up to the point where it gives up a lock, or what it does from there on,
a section of the interrupt handler, the work function, the callback of the timer.
`call` says what a call does to the board and where its caller goes on. In which
order calls can follow each other is left to `Dma/System.lean`; a run of calls here
takes them in any order.
-/

namespace MenableDriver

set_option autoImplicit false

inductive Call where
  | createHead (subbufs : Int) (mem : Option HeadRef)
  | addBuffer (r : IoRange) (mem : Option SbRef)
  | delBuffer (headnr : Nat) (index : Int)
  | destroySb (b : SbRef)
  | freeHead (headnr : Nat)
  | destroyHead (h : HeadRef)
  | start (fgr : FgCtrl) (tsize : Nat)
  | startTail (w : StartWait) (hw : StartHw) (current : Tgid)
  | startCancel (w : StartWait)
  | startResume (w : StartWait) (cancelled : Bool)
  | startRest (w : StartWait) (hw : StartHw) (current : Tgid)
  | cleanScan (c : ChanRef)
  | stop (index : Nat)
  | queueCheck (headIdx bufIdx : Nat)
  | queueAct (headIdx bufIdx : Nat)
  | unlock (headnr : Nat) (index : Int)
  | getFrame (mode headnr : Nat)
  | openFile (current : Tgid) (alloc : Bool)
  | close (owner current : Tgid)
  | cleanupMem
  | waitEnter (c : ChanRef) (img : Int) (is32bit : Bool) (wid : Nat)
  | waitLeave (c : ChanRef) (wid : Nat)
  | irqFrame (c : ChanRef) (ts len tag : Nat)
  | irqScan (c : ChanRef) (newFrames : Nat)
  | irqRearm (c : ChanRef)
  | irqFinish (c : ChanRef)
  | irqLost (c : ChanRef) (newFrames : Nat)
  | irqOverflow (c : ChanRef)
  | queueMax (c : ChanRef)
  | timerExpire (c : ChanRef)
  | timerRun (c : ChanRef)
  | workTake (c : ChanRef)
  | workRun (c : ChanRef)

/-- What follows the `listlock` section of `men_dma_clean_sync`. -/
inductive After where
  | ret (r : Ret)
  | rest (w : StartWait)
deriving DecidableEq, Repr

/-- Where the caller goes on. -/
inductive Outcome where
  | done (ret : Ret)
  | starting (w : StartWait)
  | waiting (w : StartWait)
  | cancelled (w : StartWait) (took : Bool)
  | resuming (w : StartWait)
  | cleaning (c : ChanRef) (next : After)
  | queueing (headIdx bufIdx : Nat)
  | cleaningMem
  | scanned (finish : Bool)
deriving DecidableEq, Repr

namespace Outcome

def ofExcept {α : Type} : Except Errno α → Outcome
  | .ok _ => .done none
  | .error e => .done (some e)

def ofStart (c : ChanRef) : Ret → Outcome
  | none => .done none
  | some e => .cleaning c (.ret (some e))

/-- The halt happened, unless the channel was not stopping any more. -/
def ofHalt (c : ChanRef) (before after : ChanState) : Outcome :=
  if before = after then .done none else .cleaning c (.ret none)

end Outcome

def call (m : Men) : Call → Res (Men × Outcome)
  | .createHead subbufs mem => do
    let (m, r) ← menCreateBufHead m subbufs mem
    .ok (m, .ofExcept r)
  | .addBuffer r mem => do
    let (m, ret) ← menCreateUserbuf m r mem
    .ok (m, .done ret)
  | .delBuffer headnr index => do
    let (m, ret) ← menIoctlDelVirtUserBuffer m headnr index
    .ok (m, .done ret)
  | .destroySb b => do .ok (← menDestroySb m b, .done none)
  | .freeHead headnr =>
    let (m, ret) := menIoctlFreeVirtBuffer m headnr
    .ok (m, .done ret)
  | .destroyHead h => do .ok (← menFreeBufHead m h, .done none)
  | .start fgr tsize =>
    match fgStartCheck m fgr tsize with
    | .refused e => .ok (m, .done (some e))
    | .go w => .ok (m, .starting w)
    | .stopping w => .ok (m, .waiting w)
  | .startTail w hw current =>
    -- the heads are still locked: the head is the one the request names
    if meGetBufHead m w.fgr.head = some w.head then do
      let (m, ret) ← fgStartTail m w hw current
      .ok (m, .ofStart w.chan ret)
    else .error .blocked
  | .startCancel w => do
    let (m, took) ← fgStartCancel m w.chan
    .ok (m, .cancelled w took)
  | .startResume w cancelled => do
    match ← fgStartResume m w cancelled with
    | .gone => .ok (m, .done (some .EBUSY))
    | .halted m => .ok (m, .cleaning w.chan (.rest w))
    | .go => .ok (m, .resuming w)
  | .startRest w hw current =>
    if fgStartRestBusy m w then .ok (m, .done (some .EBUSY))
    else do
      let (m, ret) ← fgStartTail m w hw current
      .ok (m, .ofStart w.chan ret)
  | .cleanScan c => .ok (completeAll m c, .done none)
  | .stop index =>
    match menDmaChannel m index with
    | none => .ok (m, .done (some .ECHRNG))
    | some c => .ok (menStopDma m c, .done none)
  | .queueCheck headIdx bufIdx =>
    match menQueueBufferCheck m headIdx bufIdx with
    | .refused e => .ok (m, .done (some e))
    | .marked m => .ok (m, .done none)
    | .active _ _ => .ok (m, .queueing headIdx bufIdx)
  | .queueAct headIdx bufIdx => do .ok (← menQueueBufferAct m headIdx bufIdx, .done none)
  | .unlock headnr index => do
    let (m, ret) ← menIoctlUnlockBuffer m headnr index
    .ok (m, .done ret)
  | .getFrame mode headnr => do
    let (m, r) ← menIoctlGetHandshakeDmaBuffer m mode headnr
    .ok (m, .ofExcept r)
  | .openFile current alloc => .ok (menableOpen m current alloc, .done none)
  | .close owner current => do
    let (m, last) ← menableRelease m owner current
    .ok (m, if last then .cleaningMem else .done none)
  | .cleanupMem => do .ok (← menCleanupMem m m.headsList, .done none)
  | .waitEnter c img is32bit wid =>
    let (m, ret) := menWaitDmaimgEnter m c img is32bit wid
    .ok (m, .done (ret.getD none))
  | .waitLeave c wid => do
    let (m, ret) ← menWaitDmaimgLeave m c wid
    .ok (m, .done ret)
  | .irqFrame c ts len tag => do .ok (← irqFrame m c ts len tag, .done none)
  | .irqScan c newFrames => do
    let (m, finish) ← irqScan m c newFrames
    .ok (m, .scanned finish)
  | .irqRearm c => do .ok (← irqRearm m c, .done none)
  | .irqFinish c => .ok (irqFinish m c, .done none)
  | .irqLost c newFrames => .ok (irqLost m c newFrames, .done none)
  | .irqOverflow c => .ok (irqLost m c 1, .done none)
  | .queueMax c => do .ok (← menDmaQueueMax m c, .done none)
  | .timerExpire c => do .ok (← timerExpire m c, .done none)
  | .timerRun c => do .ok (← timerRun m c, .cleaning c (.ret none))
  | .workTake c => do .ok (← workTake m c, .done none)
  | .workRun c => do
    let m' ← workRun m c
    .ok (m', .ofHalt c (m.chan c).state (m'.chan c).state)

/-- Calls in any order. -/
def callStep (m : Men) (k : Call) : Res Men := do
  let (m, _) ← call m k
  .ok m

end MenableDriver
