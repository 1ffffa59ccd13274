import Mathlib.Data.Fintype.Card
import MenableDriver.Data.Intrusive

/-!
# Deques of image buffers

`image_buffer_deque.c`: the links of a deque are in its buffers, and the head of a deque is
a buffer of its own. A function that follows a null pointer, or links that lead in a circle,
ends with `none`: a walk over more links than there are buffers does not end.
-/

namespace MenableDriver

set_option autoImplicit false

open Intrusive

/-- `image_buffer`: the head of a deque or a buffer that can be put into one. -/
inductive ImageBuffer (D B : Type) where
  | head (d : D)
  | item (b : B)
deriving DecidableEq, Repr

inductive DequeStatus where
  | ok | error | invalidArgument | invalidOperation
deriving DecidableEq, Repr

variable {D B : Type}

abbrev DequeLinks (D B : Type) := Links (ImageBuffer D B)

namespace ImageBufferDeque

/-- All deques and all buffers after their init functions. -/
def initialized : DequeLinks D B := ⟨fun _ => none, fun _ => none⟩

def isItemAlreadyLinked (s : DequeLinks D B) (buffer : ImageBuffer D B) : Bool :=
  (s.next buffer).isSome || (s.previous buffer).isSome

def isEmpty (s : DequeLinks D B) (self : D) : Bool := (s.next (.head self)).isNone

variable [DecidableEq D] [DecidableEq B]

def popFront (s : DequeLinks D B) (self : D) : DequeLinks D B × Option (ImageBuffer D B) :=
  match s.next (.head self) with
  | none => (s, none)
  | some item => ((s.setFollower (.head self) (s.next item)).unlinkItem item, some item)

section Walks
variable [Fintype B]

def walkBound (B : Type) [Fintype B] : Nat := Fintype.card B + 1

def getLastEntry (s : DequeLinks D B) (self : D) : Option (ImageBuffer D B) :=
  lastFrom s (walkBound B) (.head self)

def pushBack (s : DequeLinks D B) (self : D) : Option B → Option (DequeLinks D B × DequeStatus)
  | none => some (s, .invalidOperation)
  | some b =>
    if isItemAlreadyLinked s (.item b) then some (s, .invalidOperation)
    else do
      let last ← getLastEntry s self
      some (s.setFollower last (some (.item b)), .ok)

def size (s : DequeLinks D B) (self : D) : Option Nat := countFrom s (walkBound B) (s.next (.head self))

def clearLoop (self : D) : Nat → DequeLinks D B → Option (DequeLinks D B)
  | 0, s => if isEmpty s self then some s else none
  | fuel + 1, s => if isEmpty s self then some s else clearLoop self fuel (popFront s self).1

def clear (s : DequeLinks D B) (self : D) : Option (DequeLinks D B) := clearLoop self (walkBound B) s

/-- The head is copied, and with it the link to the first item, but the first item keeps its
link to the head of `self`. -/
def popAll (s : DequeLinks D B) (self target : D) : DequeLinks D B :=
  ((s.setPrevious (.head target) (s.previous (.head self))).setNext (.head target)
    (s.next (.head self))).unlinkItem (.head self)

def moveItemsFrom (s : DequeLinks D B) (self source : D) : Option (DequeLinks D B) := do
  let last ← getLastEntry s self
  some ((s.setFollower last (s.next (.head source))).unlinkItem (.head source))

def remove (s : DequeLinks D B) (self : D) (buffer : Option B) : Option (DequeLinks D B × DequeStatus) :=
  if isEmpty s self then some (s, .invalidOperation)
  else
    match buffer with
    | none => some (s, .invalidArgument)
    | some b => do
      let found ← findFrom s (.item b) (walkBound B) (s.next (.head self))
      if found then do
        let before ← s.previous (.item b)
        some ((s.setFollower before (s.next (.item b))).unlinkItem (.item b), .ok)
      else some (s, .error)

end Walks

end ImageBufferDeque

/-- The calls on deques; items are moved between different deques only. -/
inductive DequeOp (D B : Type) where
  | pushBack (self : D) (buffer : Option B)
  | popFront (self : D)
  | popAll (self target : D)
  | moveItemsFrom (self source : D) (distinct : self ≠ source)
  | remove (self : D) (buffer : Option B)
  | clear (self : D)

inductive DequeResult (D B : Type) where
  | status (s : DequeStatus)
  | buffer (o : Option (ImageBuffer D B))
  | void
deriving DecidableEq, Repr

namespace ImageBufferDeque

variable [DecidableEq D] [DecidableEq B] [Fintype B]

def call (s : DequeLinks D B) : DequeOp D B → Option (DequeLinks D B × DequeResult D B)
  | .pushBack self buffer => (pushBack s self buffer).map fun r => (r.1, .status r.2)
  | .popFront self => some ((popFront s self).1, .buffer (popFront s self).2)
  | .popAll self target => some (popAll s self target, .void)
  | .moveItemsFrom self source _ => (moveItemsFrom s self source).map fun s => (s, .void)
  | .remove self buffer => (remove s self buffer).map fun r => (r.1, .status r.2)
  | .clear self => (clear s self).map fun s => (s, .void)

end ImageBufferDeque

end MenableDriver
