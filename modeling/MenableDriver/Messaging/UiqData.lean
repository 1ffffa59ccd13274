import MenableDriver.Uiq.Dataloss
import MenableDriver.Uiq.Write

/-!
# The messaging stream

`process_uiq_data` takes the words of a messaging stream apart: a header names a queue and
the length of its packet, the rest of the packet goes to the queue. The state between two
calls is `uiq_transfer_state`. The stream is read through the read pointer of the current
transmission; `incoming` are the words behind it.
-/

namespace MenableDriver

set_option autoImplicit false

structure UiqTransferState where
  incoming : List Word := []
  currentUiq : Option Nat := none
  currentHeader : Word := 0
  remainingPacketWords : Nat := 0

/-- The queues of a board, `men->uiqs`, and its transfer state. -/
structure Messaging where
  uiqs : Nat → Option MenableUiq := fun _ => none
  numActiveUiqs : Nat := 0
  transfer : UiqTransferState := {}

def irqEventGetPacketLength (x : Word) : Nat := ((x >>> 16) &&& 0xffff#32).toNat

def irqEventGetPacketId (x : Word) : Nat := (x &&& 0xffff#32).toNat

namespace Messaging

def setUiq (m : Messaging) (i : Nat) (u : MenableUiq) : Messaging :=
  { m with uiqs := Function.update m.uiqs i (some u) }

@[simp] theorem setUiq_self (m : Messaging) (i : Nat) (u : MenableUiq) : (m.setUiq i u).uiqs i = some u :=
  Function.update_self ..

theorem setUiq_other (m : Messaging) {i k : Nat} (h : k ≠ i) (u : MenableUiq) :
    (m.setUiq i u).uiqs k = m.uiqs k :=
  Function.update_of_ne h ..

/-- One word less of the packet. -/
def countDown (m : Messaging) : Messaging :=
  { m with transfer := { m.transfer with remainingPacketWords := m.transfer.remainingPacketWords - 1 } }

end Messaging

/-- `men_fetch_next_incoming_uiq_word` of a board with a messaging DMA. -/
def menFetchNextIncomingUiqWord (m : Messaging) : Option (Word × Messaging) :=
  match m.transfer.incoming with
  | [] => none
  | w :: rest => some (w, { m with transfer := { m.transfer with incoming := rest } })

def findUiq (m : Messaging) (targetUiqId : Nat) : Option Nat :=
  (List.range m.numActiveUiqs).find? fun i =>
    match m.uiqs i with
    | some u => decide (u.base.id = targetUiqId)
    | none => false

/-- The remaining length is a `uint16_t`. -/
def takeHeader (m : Messaging) (header : Word) : Messaging :=
  if header = 0 ∨ header = 0xffffffff#32 then
    { m with transfer := { m.transfer with currentHeader := 0, remainingPacketWords := 0 } }
  else
    { m with transfer := { m.transfer with
      currentHeader := header
      remainingPacketWords := (irqEventGetPacketLength header + 65535) % 65536
      currentUiq := findUiq m (irqEventGetPacketId header) } }

/-- `men_uiq_pop` on the queue `i` with the next word. -/
def popWord (m : Messaging) (i : Nat) (w : Word) (ts : UiqTimestamp) : Option Messaging := do
  let u ← m.uiqs i
  let (q, _) ← menUiqPop u.base w ts
  some (m.setUiq i { u with base := q, delivered := u.delivered ++ [w] }).countDown

/-- The loops over the payload; they return the number of words left in this call. -/
def discardLoop (m : Messaging) : Nat → Option (Messaging × Nat)
  | 0 => some (m, 0)
  | n + 1 =>
    if 0 < m.transfer.remainingPacketWords then do
      let (_, m) ← menFetchNextIncomingUiqWord m
      discardLoop m.countDown n
    else some (m, n + 1)

def popLoopOf (i : Nat) (ts : UiqTimestamp) (m : Messaging) : Nat → Option (Messaging × Nat)
  | 0 => some (m, 0)
  | n + 1 =>
    if 0 < m.transfer.remainingPacketWords then do
      let (w, m) ← menFetchNextIncomingUiqWord m
      let m ← popWord m i w ts
      popLoopOf i ts m n
    else some (m, n + 1)

/-- A packet to a write queue says that the device has emptied its buffer. -/
def writePacketDone (m : Messaging) (i : Nat) : Option Messaging := do
  let u ← m.uiqs i
  if u.base.fill = 0 then
    some (m.setUiq i { u with base := { u.base with isRunning := false, readIndex := 0 } })
  else do
    let (u, _) ← menUiqPush u
    some (m.setUiq i u)

/-- The end of a visit to a read queue. -/
def readVisitDone (m : Messaging) (i : Nat) : Option Messaging := do
  let u ← m.uiqs i
  some (m.setUiq i { u with
    base := { u.base with irqCount := Counter.inc u.base.irqCount }
    cpl := if u.cpltodo ≠ 0 ∧ u.cpltodo ≤ u.base.fill then u.cpl + 1 else u.cpl })

def processPayload (m : Messaging) (numWords : Nat) (ts : UiqTimestamp) : Option (Messaging × Nat) :=
  match m.transfer.currentUiq with
  | none => discardLoop m numWords
  | some i => do
    let u ← m.uiqs i
    if u.base.type = .read then do
      let (m, n) ← popLoopOf i ts m numWords
      let m ← readVisitDone m i
      some (m, n)
    else do
      let (m, n) ← discardLoop m numWords
      if m.transfer.remainingPacketWords = 0 then do
        let m ← writePacketDone m i
        some (m, n)
      else some (m, n)

/-- Every round of the outer loop takes at least one word, so there are at most `numWords`. -/
def processLoop (ts : UiqTimestamp) : Nat → Messaging → Nat → Option Messaging
  | _, m, 0 => some m
  | 0, _, _ + 1 => none
  | rounds + 1, m, n + 1 =>
    if m.transfer.remainingPacketWords = 0 then do
      let (header, m) ← menFetchNextIncomingUiqWord m
      processLoop ts rounds (takeHeader m header) n
    else do
      let (m, n) ← processPayload m (n + 1) ts
      processLoop ts rounds m n

def processUiqData (m : Messaging) (numWords : Nat) (ts : UiqTimestamp) : Option Messaging :=
  processLoop ts numWords m numWords

/-- A transmission sets the read pointer; its words are processed in one or more calls, each
with some of them. -/
def processTransmission (ts : UiqTimestamp) (m : Messaging) (calls : List (List Word)) : Option Messaging :=
  calls.foldlM (fun m words => processUiqData m words.length ts)
    { m with transfer := { m.transfer with incoming := calls.flatten } }

def processTransmissions (ts : UiqTimestamp) (m : Messaging) (cut : List (List (List Word))) :
    Option Messaging :=
  cut.foldlM (processTransmission ts) m

end MenableDriver
