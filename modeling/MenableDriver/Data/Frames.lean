import Mathlib.Algebra.Order.Ring.Int
import Mathlib.Data.List.Basic

/-!
# Frames on a clocked line

A chip takes what is on its data lines at each rising edge of the clock, for as long as it is selected. What it
has taken from one selection to the next is a frame. Writing the same levels again makes no difference to it.
-/

namespace Frames

set_option autoImplicit false

universe u
variable {α : Type u}

/-- The levels of the lines. -/
structure Lines (α : Type u) where
  selected : Bool
  clock : Bool
  data : α
deriving DecidableEq

/-- What a chip has seen: the levels from before, the data of the frame it is in, and the frames that are over. -/
structure Chip (α : Type u) where
  selected : Bool
  clock : Bool
  taken : List α
  frames : List (List α)
deriving DecidableEq

/-- A chip that was never selected; this is where the clock rests. -/
def Chip.idle (clock : Bool) : Chip α := ⟨false, clock, [], []⟩

def Chip.see (c : Chip α) (l : Lines α) : Chip α :=
  if c.selected then
    if l.selected then
      { c with clock := l.clock, taken := if !c.clock && l.clock then c.taken ++ [l.data] else c.taken }
    else ⟨false, l.clock, [], c.frames ++ [c.taken]⟩
  else ⟨l.selected, l.clock, [], c.frames⟩

def Chip.seeAll (c : Chip α) (levels : List (Lines α)) : Chip α := levels.foldl Chip.see c

/-- What a transfer is about: the frame that is open, if there is one, and those before it. -/
structure Bus (α : Type u) where
  current : Option (List α)
  frames : List (List α)
deriving DecidableEq

def Chip.bus (c : Chip α) : Bus α := ⟨if c.selected then some c.taken else none, c.frames⟩

namespace Bus

def idle : Bus α := ⟨none, []⟩

/-- A frame is open from here on. -/
def select (bus : Bus α) : Bus α := { bus with current := some (bus.current.getD []) }

def shift (bus : Bus α) (data : List α) : Bus α := { bus with current := bus.current.map (· ++ data) }

def release (bus : Bus α) : Bus α := ⟨none, bus.frames ++ bus.current.toList⟩

variable {bus : Bus α} {data data' : List α}

@[simp] theorem shift_nil (bus : Bus α) : bus.shift [] = bus := by
  obtain ⟨current, frames⟩ := bus
  cases current with
  | none => rfl
  | some taken => simp [shift]

@[simp] theorem shift_shift : (bus.shift data).shift data' = bus.shift (data ++ data') := by
  obtain ⟨current, frames⟩ := bus
  cases current with
  | none => rfl
  | some taken => simp [shift]

@[simp] theorem release_release : bus.release.release = bus.release := by simp [release]

@[simp] theorem select_select : bus.select.select = bus.select := rfl

theorem select_current (bus : Bus α) : bus.select.current.isSome = true := rfl

theorem select_of_isSome (h : bus.current.isSome = true) : bus.select = bus := by
  obtain ⟨taken, htaken⟩ := Option.isSome_iff_exists.mp h
  obtain ⟨current, frames⟩ := bus
  obtain rfl : current = some taken := htaken
  rfl

theorem shift_isSome : (bus.shift data).current.isSome = bus.current.isSome := by
  simp [shift]

end Bus

/-! ### What the chip sees -/

variable {c : Chip α} {l : Lines α} {d : α}

@[simp] theorem seeAll_nil : c.seeAll [] = c := rfl

@[simp] theorem seeAll_cons (levels : List (Lines α)) : c.seeAll (l :: levels) = (c.see l).seeAll levels := rfl

theorem seeAll_append (levels levels' : List (Lines α)) :
    c.seeAll (levels ++ levels') = (c.seeAll levels).seeAll levels' := List.foldl_append

theorem see_clock : (c.see l).clock = l.clock := by
  unfold Chip.see
  split_ifs <;> rfl

theorem see_selected : (c.see l).selected = l.selected := by
  unfold Chip.see
  cases hc : c.selected <;> cases hl : l.selected <;> simp

/-- The same levels again change nothing. -/
theorem see_see : (c.see l).see l = c.see l := by
  obtain ⟨selected, clock, taken, frames⟩ := c
  obtain ⟨selected', clock', data⟩ := l
  cases selected <;> cases selected' <;> cases clock' <;> simp [Chip.see]

theorem seeAll_replicate (n : Nat) : c.seeAll (List.replicate (n + 1) l) = c.see l := by
  induction n with
  | zero => rfl
  | succ n ih =>
    rw [List.replicate_succ', seeAll_append, ih]
    exact see_see

theorem bus_isSome : c.bus.current.isSome = c.selected := by
  unfold Chip.bus
  cases c.selected <;> rfl

/-- Selecting a chip. -/
theorem bus_see_select (hl : l.selected = true) (hedge : c.clock = true ∨ l.clock = false) :
    (c.see l).bus = c.bus.select := by
  obtain ⟨selected, clock, taken, frames⟩ := c
  obtain ⟨selected', clock', data⟩ := l
  obtain rfl : selected' = true := hl
  have hno : (!clock && clock') = false := by
    rcases hedge with h | h
    · rw [show clock = true from h]
      rfl
    · rw [show clock' = false from h, Bool.and_false]
  cases selected <;> simp [Chip.see, Chip.bus, Bus.select, hno]

/-- A rising edge of a selected chip. -/
theorem bus_see_rise (hc : c.selected = true) (hlow : c.clock = false) :
    (c.see ⟨true, true, d⟩).bus = c.bus.shift [d] := by
  obtain ⟨selected, clock, taken, frames⟩ := c
  obtain rfl : selected = true := hc
  obtain rfl : clock = false := hlow
  rfl

/-- Without a rising edge the frame stays as it is. -/
theorem bus_see_still (hc : c.selected = true) (hl : l.selected = true)
    (hedge : c.clock = true ∨ l.clock = false) : (c.see l).bus = c.bus := by
  rw [bus_see_select hl hedge]
  apply Bus.select_of_isSome
  simp [Chip.bus, hc]

theorem bus_see_release (hl : l.selected = false) : (c.see l).bus = c.bus.release := by
  obtain ⟨selected, clock, taken, frames⟩ := c
  obtain ⟨selected', clock', data⟩ := l
  obtain rfl : selected' = false := hl
  cases selected <;> simp [Chip.see, Chip.bus, Bus.release]

/-- One period of the clock, low then high; what is on the data lines while the clock is low does not matter. -/
theorem bus_see_period (hc : c.selected = true) (d₀ : α) :
    ((c.see ⟨true, false, d₀⟩).see ⟨true, true, d⟩).bus = c.bus.shift [d] := by
  rw [bus_see_rise (by rw [see_selected]) (by rw [see_clock]), bus_see_still hc rfl (.inr rfl)]

/-! ### Bytes on a line -/

/-- The most significant bit first. -/
def byteBits (byte : BitVec 8) : List Bool := (List.range 8).map fun k => byte.getMsbD k

def ofBits (bits : List Bool) : BitVec 8 :=
  bits.foldl (fun byte bit => byte <<< 1 ||| if bit then 1#8 else 0#8) 0#8

theorem byteBits_length (byte : BitVec 8) : (byteBits byte).length = 8 := rfl

theorem ofBits_byteBits (byte : BitVec 8) : ofBits (byteBits byte) = byte := by
  revert byte
  decide

theorem byteBits_ofBits {bits : List Bool} (h : bits.length = 8) : byteBits (ofBits bits) = bits := by
  have hall : ∀ b₀ b₁ b₂ b₃ b₄ b₅ b₆ b₇ : Bool,
      byteBits (ofBits [b₀, b₁, b₂, b₃, b₄, b₅, b₆, b₇]) = [b₀, b₁, b₂, b₃, b₄, b₅, b₆, b₇] := by decide
  match bits, h with
  | [b₀, b₁, b₂, b₃, b₄, b₅, b₆, b₇], _ => exact hall b₀ b₁ b₂ b₃ b₄ b₅ b₆ b₇

/-- Bytes that have the same bits on the line are the same. -/
theorem flatMap_byteBits_injective {bytes bytes' : List (BitVec 8)}
    (h : bytes.flatMap byteBits = bytes'.flatMap byteBits) : bytes = bytes' := by
  induction bytes generalizing bytes' with
  | nil =>
    cases bytes' with
    | nil => rfl
    | cons byte' bytes' => cases h
  | cons byte bytes ih =>
    cases bytes' with
    | nil => cases h
    | cons byte' bytes' =>
      rw [List.flatMap_cons, List.flatMap_cons] at h
      obtain ⟨hbyte, hrest⟩ := List.append_inj h rfl
      rw [← ofBits_byteBits byte, ← ofBits_byteBits byte', hbyte, ih hrest]

end Frames
