import MenableDriver.Dma.Heads

/-!
# Starting and stopping a channel

`menable_dma.c` and the stop of `fgrab.c`: the lists are set up for an acquisition,
the engine is started and halted, and the processes that wait for a frame are
woken. `menDmaCleanHalt` is `men_dma_clean_sync` up to its `listlock` section and
`completeAll` is that section; `menDmaTimeoutHalt` stands in the same place in
`men_dma_timeout`.
-/

namespace MenableDriver

set_option autoImplicit false

def menDmaChannel (m : Men) (index : Nat) : Option ChanRef :=
  if index < m.dmacnt.sum then some index else none

/-- What `startdma` finds: an engine that runs, a direction it does not have, a
board that fell off the bus, an engine that does not come up. -/
inductive StartHw where
  | running | refused | dead | timedOut
deriving DecidableEq, Repr

def stopdma (m : Men) (c : ChanRef) : Men := m.setChan c ((m.chan c).record .stopdma)

def abortdma (m : Men) (c : ChanRef) : Men := m.setChan c ((m.chan c).record .abortdma)

def startdma (m : Men) (c : ChanRef) (hw : StartHw) : Res (Men × Ret) :=
  match hw with
  | .refused => .ok (abortdma m c, some .EACCES)
  | .running => do .ok (← menDmaQueueMax (abortdma m c) c, none)
  | .dead => do .ok (← menDmaQueueMax (abortdma m c) c, some .EFAULT)
  | .timedOut => do .ok (← menDmaQueueMax (abortdma m c) c, some .ETIMEDOUT)

namespace Men

def setState (m : Men) (c : ChanRef) (st : ChanState) : Men :=
  m.setChan c { m.chan c with state := st }

def setLink (m : Men) (h : HeadRef) (c : Option ChanRef) : Men :=
  m.setHead h { m.head h with chan := c }

end Men

/-- The list a buffer is added to by the loop of `men_clean_bh`. -/
def cleanBhTarget (mode : BitVec 6) (listname : ListName) : ListName :=
  if mode ≠ DMA_SELECTIVEMODE then .ready
  else if listname = .ready then .ready
  else .free

def cleanBhAdd (m : Men) (c : ChanRef) (b : BufRef) : Men :=
  let n := cleanBhTarget (m.chan c).mode (m.buf b).listname
  (m.setChan c (((m.chan c).listAddTail b n).incCount n)).setListname b n

/-- The slots of the head from `startbuf` on, around the end. -/
def cleanBhSlots (hd : Dmahead) (startbuf : Nat) : List (Option SbRef) :=
  (List.range hd.bufs.length).map fun i => (hd.bufs[(startbuf + i) % hd.bufs.length]?).join

def cleanBhLoop (m : Men) (c : ChanRef) : List (Option SbRef) → Men
  | [] => m
  | none :: slots => cleanBhLoop m c slots
  | some b :: slots => cleanBhLoop (cleanBhAdd m c (.sb b)) c slots

/-- All lists are cleared, and the counters that go with an acquisition. -/
def Dmachan.clearLists (ch : Dmachan) : Dmachan :=
  { ch with
    count := fun _ => 0
    list := fun _ => []
    lostCount := 0
    goodcnt := 0 }

def menCleanBh (m : Men) (c : ChanRef) (h : HeadRef) (startbuf : Nat) : Men :=
  let m := m.setChan c (m.chan c).clearLists
  (cleanBhLoop m c (cleanBhSlots (m.head h) startbuf)).setLink h (some c)

def meGetThreadgroup (m : Men) (tgid : Tgid) : Option ThreadGroup :=
  m.groups.find? fun tg => decide (tg.id = tgid)

/-- Changes the thread group `me_get_threadgroup` finds. -/
def modThreadgroup (tgid : Tgid) (f : ThreadGroup → ThreadGroup) : List ThreadGroup → List ThreadGroup
  | [] => []
  | tg :: tgs => if tg.id = tgid then f tg :: tgs else tg :: modThreadgroup tgid f tgs

def ThreadGroup.setFlag (tg : ThreadGroup) (fpga number : Nat) (v : Bool) : ThreadGroup :=
  { tg with dmas := Function.update tg.dmas fpga (Function.update (tg.dmas fpga) number v) }

/-- The head is linked, and one of the two channels is not stopped. -/
def menStartDmaBusy (m : Men) (c : ChanRef) (h : HeadRef) : Bool :=
  match (m.head h).chan with
  | none => false
  | some c' => decide ((m.chan c).state ≠ .stopped) || decide ((m.chan c').state ≠ .stopped)

/-- Another head that was active before loses its link. -/
def unlinkActive (m : Men) (c : ChanRef) (h : HeadRef) : Men :=
  match (m.chan c).active with
  | none => m
  | some old => if old ≠ h then m.setLink old none else m

def menStartDmaTake (m : Men) (c : ChanRef) (h : HeadRef) : Men :=
  let m := unlinkActive m c h
  m.setChan c { m.chan c with active := some h, state := .starting }

/-- The start succeeded on behalf of the process `current`. -/
def menStartDmaDone (m : Men) (c : ChanRef) (current : Tgid) : Men :=
  let ch := m.chan c
  { m.setChan c { ch with
      timer := ch.timer || decide (ch.timeout ≠ 0)
      state := .started
      starter := some current } with
    groups := modThreadgroup current (·.setFlag ch.fpga ch.number true) m.groups }

def menStartDma (m : Men) (c : ChanRef) (h : HeadRef) (startbuf : Nat) (hw : StartHw)
    (current : Tgid) : Res (Men × Ret) :=
  if menStartDmaBusy m c h then .ok (m, some .EBUSY)
  else
    let m := menCleanBh (menStartDmaTake m c h) c h startbuf
    if (m.chan c).count .ready = 0 ∧ (m.chan c).mode ≠ DMA_SELECTIVEMODE then
      .ok (m.setState c .stopping, some .ENODEV)
    else do
      match ← startdma m c hw with
      | (m, some e) => .ok (m.setState c .stopping, some e)
      | (m, none) => .ok (menStartDmaDone m c current, none)

def menDmaCleanHalt (m : Men) (c : ChanRef) : Res Men :=
  if (m.chan c).state ≠ .stopping then .error .bugOn
  else do
    let m := stopdma m c
    let ch ← (m.chan c).hrtimerCancel
    .ok (m.setChan c { ch with state := .stopped, transferTodo := 0 })

def complete (w : DmaWait) : DmaWait := { w with cpl := true }

def completeAll (m : Men) (c : ChanRef) : Men :=
  m.setChan c { m.chan c with waitList := (m.chan c).waitList.map complete }

def menDmaCleanSync (m : Men) (c : ChanRef) : Res Men := do
  .ok (completeAll (← menDmaCleanHalt m c) c)

def menDmaTimeoutHalt (m : Men) (c : ChanRef) : Men := (abortdma m c).setState c .stopped

/-- `men_dma_done_work`, up to the `listlock` section. -/
def menDmaDoneWork (m : Men) (c : ChanRef) : Res Men :=
  if (m.chan c).state = .stopping then menDmaCleanHalt m c else .ok m

def menStopDmaLocked (m : Men) (c : ChanRef) : Men :=
  let ch := m.chan c
  if 0 < ch.transferTodo then
    m.setChan c { ch with transferTodo := 0, state := .stopping, dwork := true }
  else m

def menStopDma (m : Men) (c : ChanRef) : Men :=
  if (m.chan c).state = .started then menStopDmaLocked m c else m

def int32Max : Nat := 2147483647

/-- The frame to wait for, in `uint64_t`: a number that is not positive counts from
the latest image, a 32-bit number is moved into the 31-bit window of that image or
into the next one. -/
def waitFrame (latestImage : Nat) (img : Int) (is32bit : Bool) : Nat :=
  if img ≤ 0 then
    let waitimg := (latestImage + img.natAbs) % 2 ^ 64
    if waitimg < latestImage then waitimg + 1 else waitimg
  else if is32bit then
    let waitimg := img.toNat ||| (latestImage - latestImage % (int32Max + 1))
    if waitimg < latestImage ∧ int32Max / 2 < latestImage - waitimg then
      (waitimg + 2 ^ 31) % 2 ^ 64
    else waitimg
  else img.toNat

/-- `men_wait_dmaimg` up to the point where it sleeps: it returns at once, or its
entry `wid` is in the wait list. -/
def menWaitDmaimgEnter (m : Men) (c : ChanRef) (img : Int) (is32bit : Bool) (wid : Nat) :
    Men × Option Ret :=
  let ch := m.chan c
  let frame := waitFrame ch.goodcnt img is32bit
  if frame ≤ ch.goodcnt then (m, some none)
  else if ch.state ≠ .started then (m, some (some .ETIMEDOUT))
  else (m.setChan c { ch with waitList := ch.waitList ++ [{ wid := wid, frame := frame }] }, none)

/-- The sleeper was woken, killed or timed out. -/
def menWaitDmaimgLeave (m : Men) (c : ChanRef) (wid : Nat) : Res (Men × Ret) :=
  let ch := m.chan c
  match ch.waitList.find? fun w => decide (w.wid = wid) with
  | none => .error .blocked
  | some w =>
    .ok (m.setChan c { ch with waitList := ch.waitList.erase w },
      if ch.goodcnt < w.frame then some .ETIMEDOUT else none)

end MenableDriver
