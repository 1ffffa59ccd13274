import MenableDriver.Sgl.Streaming

/-!
# The fields of the entries in a block

`set_block_entry` writes whatever fields it is given. The entries of a block lie one behind the
other in either layout, so a block is an array of records: an entry is what the last call for
it has written, and nothing else of the block changes.
-/

namespace MenableDriver

set_option autoImplicit false

open BitField (Words bit SlotWrite putFields putSlots getSlot)

def SglDirection.fieldSizes : SglDirection → List Nat
  | .dev2pc => [1, 62, 23]
  | .pc2dev => [62, 25]

def SglDirection.firstBit : SglDirection → Nat
  | .dev2pc => 18
  | .pc2dev => 13

/-- A call of `set_block_entry` with the fields of the layout. -/
structure BlockEntryCall (dir : SglDirection) where
  entryIdx : Fin ME6_PAGES_PER_SGL_BLOCK
  fields : List MenMe6sglBlockField
  sizes_eq : fields.map (·.numBits) = dir.fieldSizes

variable {dir : SglDirection}

def BlockEntryCall.run (sgl : SglBlock) (c : BlockEntryCall dir) : SglBlock :=
  setBlockEntry sgl c.entryIdx (entrySizeOf c.fields) c.fields dir.firstBit

def setBlockEntries (sgl : SglBlock) (calls : List (BlockEntryCall dir)) : SglBlock :=
  calls.foldl BlockEntryCall.run sgl

/-- The fields of an entry, read one behind the other. -/
def readBlockEntry (dir : SglDirection) (sgl : SglBlock) (entryIdx : Fin ME6_PAGES_PER_SGL_BLOCK) :
    List Nat :=
  getSlot sgl.data dir.firstBit dir.fieldSizes entryIdx

def lastCall (calls : List (BlockEntryCall dir)) (entryIdx : Fin ME6_PAGES_PER_SGL_BLOCK) :
    Option (BlockEntryCall dir) :=
  calls.reverse.find? fun c => c.entryIdx = entryIdx

/-- The values of a call, as far as the fields have room for them. -/
def BlockEntryCall.values (c : BlockEntryCall dir) : List Nat :=
  c.fields.map fun f => f.value.toNat % 2 ^ f.numBits

/-- The bit `k` of the words of a block is in the entry. -/
def InBlockEntry (dir : SglDirection) (entryIdx : Fin ME6_PAGES_PER_SGL_BLOCK) (k : Nat) : Prop :=
  BitField.InSlot dir.firstBit dir.fieldSizes entryIdx k

/-! ### The layouts of the two lists -/

variable {bus : Nat → BitVec 64} {mem num tsize : Nat}

theorem startBitOfFirstBlockEntry_eq (dir : SglDirection) :
    (menMe6sglInit dir bus mem num tsize).startBitOfFirstBlockEntry = dir.firstBit := by
  cases dir <;> rfl

theorem numBits_getEntryFieldsWithValues (dir : SglDirection) (addr : BitVec 64) (size : BitVec 32)
    (last : Bool) :
    ((menMe6sglInit dir bus mem num tsize).getEntryFieldsWithValues addr size last).map (·.numBits) =
      dir.fieldSizes := by
  cases dir <;> rfl

/-- The last entry ends with the seventh word. -/
theorem InBlockEntry.lt {entryIdx : Fin ME6_PAGES_PER_SGL_BLOCK} {k : Nat} (h : InBlockEntry dir entryIdx k) :
    k < 7 * 64 := by
  have hidx := entryIdx.isLt
  obtain ⟨-, hhigh⟩ := h
  cases dir
  · change k < 18 + (entryIdx + 1) * 86 at hhigh
    unfold ME6_PAGES_PER_SGL_BLOCK at hidx
    omega
  · change k < 13 + (entryIdx + 1) * 87 at hhigh
    unfold ME6_PAGES_PER_SGL_BLOCK at hidx
    omega

/-! ### A block is an array of records -/

def BlockEntryCall.write (c : BlockEntryCall dir) : SlotWrite dir.fieldSizes where
  slot := c.entryIdx
  fields := c.fields.map fun f => (f.numBits, f.value)
  widths_eq := by
    rw [List.map_map]
    exact c.sizes_eq

theorem setFields_eq (d : Words) (s : Nat) (fields : List MenMe6sglBlockField) :
    setFields d s fields = putFields d s (fields.map fun f => (f.numBits, f.value)) := by
  induction fields generalizing d s with
  | nil => rfl
  | cons f fields ih => rw [setFields, menSetSglBlockField_eq, ih, List.map_cons, putFields]

theorem BlockEntryCall.run_eq (sgl : SglBlock) (c : BlockEntryCall dir) :
    c.run sgl = { sgl with data := c.write.apply dir.firstBit sgl.data } := by
  have hsize : entrySizeOf c.fields = dir.fieldSizes.sum := congrArg List.sum c.sizes_eq
  rw [BlockEntryCall.run, setBlockEntry, setFields_eq, hsize]
  rfl

theorem setBlockEntries_eq (sgl : SglBlock) (calls : List (BlockEntryCall dir)) :
    setBlockEntries sgl calls =
      { sgl with data := putSlots sgl.data dir.firstBit (calls.map BlockEntryCall.write) } := by
  induction calls generalizing sgl with
  | nil => rfl
  | cons c calls ih =>
    have hstep : setBlockEntries sgl (c :: calls) = setBlockEntries (c.run sgl) calls := rfl
    rw [hstep, ih, c.run_eq]
    rfl

theorem lastWrite_map (calls : List (BlockEntryCall dir)) (entryIdx : Fin ME6_PAGES_PER_SGL_BLOCK) :
    BitField.lastWrite (calls.map BlockEntryCall.write) entryIdx =
      (lastCall calls entryIdx).map BlockEntryCall.write := by
  have hsame : (fun c : BlockEntryCall dir => decide (c.entryIdx = entryIdx)) =
      (fun w : SlotWrite dir.fieldSizes => decide (w.slot = entryIdx)) ∘ BlockEntryCall.write :=
    funext fun c => decide_eq_decide.mpr Fin.ext_iff
  rw [BitField.lastWrite, ← List.map_reverse, List.find?_map, lastCall, hsame]

/-- The entries of `fill_blocks` are such calls. -/
theorem putEntry_eq_run (dir : SglDirection) (b : SglBlock) (entryIdx : Fin ME6_PAGES_PER_SGL_BLOCK)
    (g : PageGroup) :
    ∃ c : BlockEntryCall dir, c.entryIdx = entryIdx ∧
      c.fields = (menMe6sglInit dir bus mem num tsize).getEntryFieldsWithValues g.addr g.size g.last ∧
        (menMe6sglInit dir bus mem num tsize).putEntry b entryIdx g = c.run b := by
  refine ⟨⟨entryIdx, _, numBits_getEntryFieldsWithValues dir g.addr g.size g.last⟩, rfl, rfl, ?_⟩
  rw [MenMe6sgl.putEntry, startBitOfFirstBlockEntry_eq]
  rfl

/-- After any calls in any order an entry has the values of the last call for it, and a bit that
has changed is a bit of an entry that was written. -/
theorem setBlockEntries_fields (dir : SglDirection) (sgl : SglBlock) (calls : List (BlockEntryCall dir)) :
    (∀ entryIdx, readBlockEntry dir (setBlockEntries sgl calls) entryIdx =
        match lastCall calls entryIdx with
        | some c => c.values
        | none => readBlockEntry dir sgl entryIdx) ∧
      (∀ k, bit (setBlockEntries sgl calls).data k = bit sgl.data k ∨
        ∃ c ∈ calls, InBlockEntry dir c.entryIdx k) ∧
      (setBlockEntries sgl calls).next = sgl.next := by
  rw [setBlockEntries_eq]
  refine ⟨fun entryIdx => ?_, fun k => ?_, rfl⟩
  · rw [readBlockEntry, BitField.getSlot_putSlots, lastWrite_map]
    rcases lastCall calls entryIdx with _ | c
    · rfl
    · change BitField.truncated c.write.fields = c.values
      rw [BitField.truncated, BlockEntryCall.write, List.map_map]
      rfl
  · by_cases h : ∃ c ∈ calls, InBlockEntry dir c.entryIdx k
    · exact .inr h
    · refine .inl (BitField.bit_putSlots _ ?_)
      intro w hw hin
      obtain ⟨c, hc, rfl⟩ := List.mem_map.mp hw
      exact h ⟨c, hc, hin⟩

end MenableDriver
