import Mathlib.Data.List.Basic

/-!
# Bounded queues

`Fifo α` is a list of at most `cap` items, the oldest first. A push keeps what fits, a
pop takes the oldest items, a change of the capacity keeps the oldest ones.
-/

set_option autoImplicit false

universe u

structure Fifo (α : Type u) where
  cap : Nat
  items : List α
  length_le : items.length ≤ cap

namespace Fifo
variable {α : Type u}

def empty (cap : Nat) : Fifo α := ⟨cap, [], Nat.zero_le cap⟩

def room (q : Fifo α) : Nat := q.cap - q.items.length

def push (q : Fifo α) (xs : List α) : Fifo α where
  cap := q.cap
  items := q.items ++ xs.take q.room
  length_le := by
    have := q.length_le
    simp only [List.length_append, List.length_take, room]
    omega

/-- What a push of `xs` takes. -/
def taken (q : Fifo α) (xs : List α) : Nat := min xs.length q.room

def pop (q : Fifo α) (n : Nat) : List α × Fifo α :=
  (q.items.take n,
    { cap := q.cap
      items := q.items.drop n
      length_le := by
        have := q.length_le
        simp only [List.length_drop]
        omega })

def resize (q : Fifo α) (cap : Nat) : Fifo α where
  cap := cap
  items := q.items.take cap
  length_le := List.length_take_le cap q.items

def clear (q : Fifo α) : Fifo α := empty q.cap

theorem taken_le (q : Fifo α) (xs : List α) : q.taken xs ≤ xs.length := Nat.min_le_left ..

end Fifo
