import MenableDriver.Data.Counter
import MenableDriver.Data.Fifo
import MenableDriver.Data.Ring

/-!
# User interrupt queues

`uiq_base.c`: the ring of words behind a queue, and the writers that put the words of
the grabber into it. The buffer of a queue is a memory of `capacity` words; an access
outside it ends a function with `none`.
-/

namespace MenableDriver

set_option autoImplicit false

abbrev Word := BitVec 32

def UIQ_CONTROL_EOT : Word := 0x00010000#32
def UIQ_CONTROL_DATALOSS : Word := 0x00020000#32
def UIQ_CONTROL_INSERT_TS : Word := 0x00040000#32
def UIQ_CONTROL_INVALID : Word := 0x80000000#32

def MEN_MAX_UIQ_PER_FPGA : Nat := 16

def areBitsSet (word mask : Word) : Bool := word &&& mask == mask

inductive UiqProtocol where
  | raw | legacy | vaEvent
deriving DecidableEq, Repr

inductive UiqType where
  | read | writeRaw | writeLegacy | writeCxp
deriving DecidableEq, Repr

structure UiqTimestamp where
  data : Fin 4 → Word

/-- `struct uiq_base`, without the register address and the channel index. -/
structure UiqBase where
  id : Nat := 0
  type : UiqType := .read
  readProtocol : UiqProtocol := .raw
  capacity : Nat := 0
  fill : Nat := 0
  readIndex : Nat := 0
  data : Nat → Word := fun _ => 0
  lostWordsCount : Nat := 0
  irqCount : Nat := 0
  isRunning : Bool := false
  lastWordsWereLost : Bool := false
  lastWordWasEop : Bool := false
  fpgaFifoDepth : Nat := 0

namespace UiqBase

def isEmpty (q : UiqBase) : Bool := decide (q.fill = 0)

def isFull (q : UiqBase) : Bool := decide (q.fill = q.capacity)

def getFreeCapacity (q : UiqBase) : Nat := Counter.sub q.capacity q.fill

end UiqBase

/-- `memcpy` of `n` words from `src + s` to `dst + d`, where `dst` has `dstLen` words and
`src` has `srcLen`. -/
def copyMem (dst : Nat → Word) (dstLen d : Nat) (src : Nat → Word) (srcLen s n : Nat) :
    Option (Nat → Word) :=
  if d + n ≤ dstLen ∧ s + n ≤ srcLen then
    some fun k => if d ≤ k ∧ k < d + n then src (s + (k - d)) else dst k
  else none

/-- The number of bytes is an `unsigned int`. -/
def wordsCopied (n : Nat) : Nat := n * 4 % Counter.wrap / 4

def replaceBuffer (q : UiqBase) (newBuffer : Nat → Word) (newBufferSize : Nat) : Option UiqBase := do
  let wordsToCopy := min q.fill newBufferSize
  let lost := if wordsToCopy < q.fill then Counter.add q.lostWordsCount (q.fill - wordsToCopy)
    else q.lostWordsCount
  let wordsBeforeWraparound := min (Counter.sub q.capacity q.readIndex) wordsToCopy
  let buffer ← copyMem newBuffer newBufferSize 0 q.data q.capacity q.readIndex
    (wordsCopied wordsBeforeWraparound)
  let buffer ←
    if wordsBeforeWraparound < wordsToCopy then
      copyMem buffer newBufferSize wordsBeforeWraparound q.data q.capacity 0
        (wordsCopied (wordsToCopy - wordsBeforeWraparound))
    else some buffer
  some { q with
    lostWordsCount := lost
    data := buffer
    fill := wordsToCopy
    readIndex := 0
    capacity := newBufferSize }

def popLoop (q : UiqBase) : Nat → Option (List Word × UiqBase)
  | 0 => some ([], q)
  | n + 1 =>
    if q.readIndex < q.capacity then do
      let w := q.data q.readIndex
      let (ws, q) ← popLoop { q with readIndex := Counter.inc q.readIndex % q.capacity } n
      some (w :: ws, q)
    else none

def popFront (q : UiqBase) (numWordsToRead : Nat) : Option (List Word × UiqBase) := do
  let n := min numWordsToRead q.fill
  let (ws, q) ← popLoop q n
  some (ws, { q with fill := Counter.sub q.fill n })

def reset (q : UiqBase) : UiqBase := { q with fill := 0, readIndex := 0, lostWordsCount := 0 }

def recordDiscardedWords (q : UiqBase) (numDiscardedWords : Nat) : UiqBase :=
  { q with
    lostWordsCount := Counter.add q.lostWordsCount numDiscardedWords
    lastWordsWereLost := true }

def pushLoop (q : UiqBase) : List Word → Option UiqBase
  | [] => some q
  | w :: ws =>
    let writeIndex := Counter.add q.readIndex q.fill % q.capacity
    if writeIndex < q.capacity then
      pushLoop { q with data := Function.update q.data writeIndex w, fill := Counter.inc q.fill } ws
    else none

/-- Returns the number of words stored. -/
def pushBack (q : UiqBase) (data : List Word) : Option (UiqBase × Nat) := do
  let wordsFree := q.getFreeCapacity
  let wordsLost := if wordsFree < data.length then data.length - wordsFree else 0
  let numWords := min data.length wordsFree
  let q ← pushLoop q (data.take numWords)
  some (if wordsLost = 0 then { q with lastWordsWereLost := false } else recordDiscardedWords q wordsLost,
    numWords)

/-- The words of a decorated word: the end of transmission goes behind the timestamp. -/
def decoratedWords (data : Word) (ts : UiqTimestamp) : List Word :=
  [data &&& ~~~UIQ_CONTROL_EOT, ts.data 0, ts.data 1, ts.data 2,
    if data &&& UIQ_CONTROL_EOT ≠ 0 then ts.data 3 ||| UIQ_CONTROL_EOT else ts.data 3]

def pushBackDecoratedWithTimestamp (q : UiqBase) (data : Word) (ts : UiqTimestamp) :
    Option (UiqBase × Nat) :=
  if q.getFreeCapacity < 5 then pushBack q [data] else pushBack q (decoratedWords data ts)

/-- `ts` is the time of the interrupt, which is taken when a word first asks for it. -/
def writeWordWithDatalossFlagIfApplicable (q : UiqBase) (value : Word) (ts : UiqTimestamp) :
    Option UiqBase := do
  let value := if q.lastWordsWereLost then value ||| UIQ_CONTROL_DATALOSS else value
  if areBitsSet value UIQ_CONTROL_INSERT_TS then
    let (q, _) ← pushBackDecoratedWithTimestamp q value ts
    some q
  else
    let (q, _) ← pushBack q [value]
    some q

def writeFromGrabberRaw (q : UiqBase) (value : Word) : Option UiqBase := do
  let (q, _) ← pushBack q [value]
  some q

def writeFromGrabberLegacy (q : UiqBase) (value : Word) (ts : UiqTimestamp) : Option UiqBase :=
  if areBitsSet value UIQ_CONTROL_INVALID then some q
  else writeWordWithDatalossFlagIfApplicable q value ts

def writeFromGrabberVaEvent (q : UiqBase) (value : Word) (ts : UiqTimestamp) : Option UiqBase :=
  if areBitsSet value UIQ_CONTROL_INVALID then some q
  else do
    let q ←
      if q.lastWordsWereLost ∧ ¬ q.lastWordWasEop then some (recordDiscardedWords q 1)
      else writeWordWithDatalossFlagIfApplicable q value ts
    some { q with lastWordWasEop := areBitsSet value UIQ_CONTROL_EOT }

def writeFromGrabber (q : UiqBase) (value : Word) (ts : UiqTimestamp) : Option UiqBase :=
  match q.readProtocol with
  | .raw => writeFromGrabberRaw q value
  | .legacy => writeFromGrabberLegacy q value ts
  | .vaEvent => writeFromGrabberVaEvent q value ts

def uiqBaseInit (buffer : Nat → Word) (capacity id : Nat) (type : UiqType) (protocol : UiqProtocol)
    (fpgaFifoDepth : Nat) : UiqBase :=
  { id := id
    type := type
    readProtocol := protocol
    capacity := capacity
    data := buffer
    fpgaFifoDepth := if type = .read then 0 else fpgaFifoDepth }

end MenableDriver
