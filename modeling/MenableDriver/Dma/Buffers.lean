import MenableDriver.Dma.State

/-!
# Buffers between the lists of a channel

The part of `menable_mem.c` that hands buffers to the engine, takes them back and
passes them to and from the application. Every function runs under the `listlock`
of the channel.
-/

namespace MenableDriver

set_option autoImplicit false

def numFreeInDmaFifo (m : Men) (c : ChanRef) : Nat :=
  Counter.sub m.dmaFifoLength.toNat ((m.chan c).count .hot)

/-- `min3(num_max_bufs_for_transfer, ready_count, num_free_in_dma_fifo)`. -/
def numBufsToQueue (m : Men) (c : ChanRef) : Int :=
  let ch := m.chan c
  min (min (ch.transferTodo - ch.count .hot) (ch.count .ready)) (numFreeInDmaFifo m c)

/-- The board's `queue_sb`: the address of the SGL goes into the engine's FIFO. -/
def queueSb (m : Men) (c : ChanRef) (sb : BufRef) : Men :=
  m.setChan c ((m.chan c).record (.queued (m.chan c).state sb))

def queueDummy (m : Men) (c : ChanRef) (h : HeadRef) : Men :=
  let m := queueSb m c (.dummy h)
  m.setChan c (((m.chan c).listAdd (.dummy h) .hot).incCount .hot)

/-- One round of the loop of `men_dma_queue_max`. -/
def queueReady (m : Men) (c : ChanRef) : Res Men := do
  let sb ← (m.chan c).listFirst .ready
  let m := queueSb m c sb
  let ch ← (m.chan c).listMoveTail sb .hot
  .ok ((m.setChan c ((ch.decCount .ready).incCount .hot)).modBuf sb fun b =>
    { b with listname := .hot, frameNumber := 0 })

def queueLoop (m : Men) (c : ChanRef) : Nat → Res Men
  | 0 => .ok m
  | n + 1 => do
    let m ← queueReady m c
    queueLoop m c n

/-- The comparison of `transfer_todo` with `hot_count` is made in `long long`. A
negative bound would keep `while (num_bufs_to_queue--)` going past the end of the
ready list. -/
def menDmaQueueMax (m : Men) (c : ChanRef) : Res Men :=
  let ch := m.chan c
  if (ch.count .hot : Int) < ch.transferTodo then
    if ch.mode = DMA_HANDSHAKEMODE ∧ ch.count .ready = 0 then
      if ch.count .hot = 0 then
        match ch.active with
        | some h => .ok (queueDummy m c h)
        | none => .ok m
      else .ok m
    else
      let bound := numBufsToQueue m c
      let m := m.setChan c (ch.record (.bound (numFreeInDmaFifo m c) bound))
      if 0 ≤ bound then queueLoop m c bound.toNat else .error .badList
  else .ok m

/-- The list a finished buffer goes to, by acquisition mode. -/
def menMoveHotTarget (mode : BitVec 6) : ListName :=
  if mode = DMA_HANDSHAKEMODE then .grabbed
  else if mode = DMA_SELECTIVEMODE then .free
  else .ready

def moveHotTake (m : Men) (c : ChanRef) (sb : BufRef) : Res Men :=
  let ch := m.chan c
  if (m.buf sb).index = -1 then do
    let ch ← ch.listDel sb
    .ok (m.setChan c { ch with lostCount := Counter.inc ch.lostCount })
  else do
    let n := menMoveHotTarget ch.mode
    let ch ← ch.listMoveTail sb n
    .ok ((m.setChan c { ch.incCount n with goodcnt := ch.goodcnt + 1 }).setListname sb n)

def menMoveHot (m : Men) (c : ChanRef) (ts : Nat) : Res (Men × Option BufRef) :=
  let ch := m.chan c
  if ch.active = none then
    -- something in the IRQ reset did not block this one
    .ok (m.setChan c { ch with lostCount := Counter.inc ch.lostCount, transferTodo := 0 }, none)
  else if ch.count .hot ≠ 0 then do
    let sb ← ch.listFirst .hot
    let m ← moveHotTake m c sb
    let ch := (m.chan c).decCount .hot
    let m := m.setChan c ({ ch with
      transferTodo := ch.transferTodo - 1
      imgcnt := ch.imgcnt + 1
      latestFrameNumber := ch.latestFrameNumber + 1 }.record (.returned sb))
    .ok (m.modBuf sb fun b => { b with timestamp := ts }, some sb)
  else
    .ok (m.setChan c { ch with lostCount := Counter.inc ch.lostCount }, none)

/-- The first grabbed buffer leaves its list and stays with the application. -/
def lockFirstGrabbed (m : Men) (c : ChanRef) : Res (Men × BufRef) := do
  let sb ← (m.chan c).listFirst .grabbed
  let ch ← (m.chan c).listDel sb
  .ok ((m.setChan c ch).setListname sb .noList, sb)

def menNextBlocked (m : Men) (c : ChanRef) : Res (Men × Option BufRef) :=
  if (m.chan c).count .grabbed = 0 then .ok (m, none)
  else do
    let (m, sb) ← lockFirstGrabbed m c
    .ok (m.setChan c (((m.chan c).decCount .grabbed).incCount .noList), some sb)

/-- The loop of `men_last_blocked`: as many rounds as `grabbed_count` is above one. -/
def releaseGrabbed (m : Men) (c : ChanRef) : Nat → Res Men
  | 0 => .ok m
  | n + 1 => do
    let sb ← (m.chan c).listFirst .grabbed
    let ch ← (m.chan c).listMoveTail sb .ready
    releaseGrabbed ((m.setChan c ((ch.incCount .ready).decCount .grabbed)).setListname sb .ready) c n

def menLastBlocked (m : Men) (c : ChanRef) : Res (Men × Option BufRef) :=
  if (m.chan c).count .grabbed = 0 then .ok (m, none)
  else do
    let m ← releaseGrabbed m c ((m.chan c).count .grabbed - 1)
    let (m, sb) ← lockFirstGrabbed m c
    let ch := m.chan c
    .ok (m.setChan c ({ ch with count := Function.update ch.count .grabbed 0 }.incCount .noList),
      some sb)

/-- About to run out of queued buffers: queue some. -/
def queueIfLow (m : Men) (c : ChanRef) : Res Men :=
  if (m.chan c).count .hot ≤ 1 ∧ 0 < (m.chan c).count .ready then menDmaQueueMax m c else .ok m

def menUnblockBuffer (m : Men) (c : ChanRef) (sb : Option BufRef) : Res Men :=
  match sb with
  | none => .ok m
  | some b =>
    match (m.buf b).listname with
    | .hot | .free | .ready => .ok m
    | .grabbed => do
      let ch ← (m.chan c).listMoveTail b .ready
      queueIfLow ((m.setListname b .ready).setChan c ((ch.decCount .grabbed).incCount .ready)) c
    | .noList =>
      let ch := (m.chan c).listAddTail b .ready
      queueIfLow ((m.setListname b .ready).setChan c ((ch.decCount .noList).incCount .ready)) c

end MenableDriver
