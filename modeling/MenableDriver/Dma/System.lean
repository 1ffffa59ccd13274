import MenableDriver.Dma.Calls

/-!
# The driver under its locks

A state of the driver is the board and where its contexts stand: who holds
`buffer_heads_lock` between two calls, how far the interrupt handler of every
channel has come, and the starts that gave up their locks to wait for the work
function. `ready` says which call can be made in a state, from the locks it takes;
`listlock` is never held from one call to the next.
-/

namespace MenableDriver

set_option autoImplicit false

/-- What the holder of `buffer_heads_lock` does next. -/
inductive Hold where
  | starting (w : StartWait)
  | resuming (w : StartWait)
  | cleaning (c : ChanRef) (next : After)
  | queueing (headIdx bufIdx : Nat)
  | cleaningMem
deriving DecidableEq, Repr

/-- The `chanlock` it holds as well. -/
def Hold.chanlock : Hold → Option ChanRef
  | .resuming w => some w.chan
  | .cleaning c _ => some c
  | _ => none

/-- Where `me6_dma_irq` stands; it holds the `chanlock`. -/
inductive IrqPc where
  | frames (left newFrames : Nat)
  | scanned (finish : Bool)
deriving DecidableEq, Repr

/-- A start without locks: it waits in `cancel_work_sync`, or has come back from it. -/
inductive Sleep where
  | cancelling
  | back (took : Bool)
deriving DecidableEq, Repr

structure Sys where
  men : Men
  hold : Option Hold := none
  irq : ChanRef → Option IrqPc := fun _ => none
  starts : List (StartWait × Sleep) := []

inductive Event where
  | run (k : Call)
  | irqEnter (c : ChanRef) (newFrames : Nat)

namespace Sys

def holdsChan (s : Sys) (c : ChanRef) : Bool := decide (s.hold.bind Hold.chanlock = some c)

def headsFree (s : Sys) : Bool := s.hold.isNone

def irqIdle (s : Sys) (c : ChanRef) : Bool := (s.irq c).isNone

def chanFree (s : Sys) (c : ChanRef) : Bool := s.irqIdle c && !s.holdsChan c

/-- The `chanlock` of the channel a head is linked to is free. -/
def linkFree (s : Sys) (h : HeadRef) : Bool := ((s.men.head h).chan.map s.irqIdle).getD true

def headLinkFree (s : Sys) (headnr : Nat) : Bool := ((meGetBufHead s.men headnr).map s.linkFree).getD true

def ready (s : Sys) : Call → Bool
  | .createHead .. | .addBuffer .. | .start .. | .queueCheck .. | .unlock .. | .getFrame ..
  | .close .. => s.headsFree
  | .delBuffer headnr _ | .freeHead headnr => s.headsFree && s.headLinkFree headnr
  | .destroySb _ | .destroyHead _ | .openFile .. | .waitLeave .. | .timerExpire _ | .workTake _
  | .irqOverflow _ => true
  -- the entry lies on the stack of its call, no other one is there
  | .waitEnter c _ _ wid => !(s.men.chan c).waitList.any fun w => decide (w.wid = wid)
  | .startTail w _ _ => decide (s.hold = some (.starting w)) && s.irqIdle w.chan
  | .startCancel w => decide ((w, .cancelling) ∈ s.starts)
  | .startResume w took => s.headsFree && s.irqIdle w.chan && decide ((w, .back took) ∈ s.starts)
  | .startRest w _ _ => decide (s.hold = some (.resuming w))
  | .cleanScan c =>
    match s.hold with
    | some (.cleaning c' _) => decide (c' = c)
    | _ => false
  | .stop index => s.headsFree && s.irqIdle index
  | .queueAct headIdx bufIdx => decide (s.hold = some (.queueing headIdx bufIdx))
  | .cleanupMem => decide (s.hold = some .cleaningMem) && s.men.headsList.all s.linkFree
  | .irqFrame c _ _ _ =>
    match s.irq c with
    | some (.frames (_ + 1) _) => true
    | _ => false
  | .irqScan c newFrames => decide (s.irq c = some (.frames 0 newFrames))
  | .irqRearm c => decide (s.irq c = some (.scanned false))
  | .irqFinish c => decide (s.irq c = some (.scanned true))
  | .irqLost c _ => s.chanFree c && decide ((s.men.chan c).active = none)
  | .timerRun c | .workRun c => s.headsFree && s.irqIdle c
  | .queueMax _ => false

/-- The heads are given back, or kept for what follows. -/
def nextHold (s : Sys) : Call → Outcome → Option Hold
  | _, .starting w => some (.starting w)
  | _, .resuming w => some (.resuming w)
  | _, .cleaning c next => some (.cleaning c next)
  | _, .queueing headIdx bufIdx => some (.queueing headIdx bufIdx)
  | _, .cleaningMem => some .cleaningMem
  | .cleanScan _, _ =>
    match s.hold with
    | some (.cleaning _ (.rest w)) => some (.resuming w)
    | _ => none
  | .startTail .., _ | .startRest .., _ | .queueAct .., _ | .cleanupMem, _ => none
  | _, _ => s.hold

def nextIrq (s : Sys) : Call → Outcome → ChanRef → Option IrqPc
  | .irqFrame c _ _ _, _ =>
    match s.irq c with
    | some (.frames (left + 1) newFrames) => Function.update s.irq c (some (.frames left newFrames))
    | _ => s.irq
  | .irqScan c _, .scanned finish => Function.update s.irq c (some (.scanned finish))
  | .irqRearm c, _ | .irqFinish c, _ => Function.update s.irq c none
  | _, _ => s.irq

def nextStarts (s : Sys) : Call → Outcome → List (StartWait × Sleep)
  | .start .., .waiting w => (w, .cancelling) :: s.starts
  | .startCancel w, .cancelled _ took => (w, .back took) :: s.starts.erase (w, .cancelling)
  | .startResume w took, _ => s.starts.erase (w, .back took)
  | _, _ => s.starts

/-- The caller of `k` has gone on. -/
abbrev next (s : Sys) (k : Call) (m : Men) (o : Outcome) : Sys :=
  { men := m, hold := s.nextHold k o, irq := s.nextIrq k o, starts := s.nextStarts k o }

end Sys

def step (s : Sys) : Event → Except Halt Sys
  | .run k =>
    if s.ready k then do
      let (m, o) ← call s.men k
      .ok (s.next k m o)
    else .error .blocked
  | .irqEnter c newFrames =>
    if s.chanFree c && decide ((s.men.chan c).active ≠ none) then
      .ok { s with irq := Function.update s.irq c (some (.frames newFrames newFrames)) }
    else .error .blocked

end MenableDriver
