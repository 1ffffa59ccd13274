import MenableDriver.Data.BitField

/-!
# The blocks of a scatter-gather list

A block has a pointer to the next block and seven words for five entries of 86 bits. Three
files write the entries: `menable6.c` entry by entry with masks and shifts, `sgl_v2.c` and
`me6_sgl.c` bit field by bit field. The words are little endian in memory; here they are the
values themselves. A word behind the seventh is not part of the block.
-/

namespace MenableDriver

set_option autoImplicit false

structure SglBlock where
  next : BitVec 64 := 0
  data : BitField.Words := fun _ => 0

/-! ### `menable.h` -/

def genmask (h l : Nat) : BitVec 64 := (BitVec.allOnes 64 >>> (63 - h)) &&& (BitVec.allOnes 64 <<< l)

def bitUll (n : Nat) : BitVec 64 := 1#64 <<< n

def msl64 (value : BitVec 64) (h l s : Nat) : BitVec 64 := (value &&& genmask h l) <<< s

def msr64 (value : BitVec 64) (h l s : Nat) : BitVec 64 := (value &&& genmask h l) >>> s

def rmsl64 (dest src : BitVec 64) (h l s : Nat) : BitVec 64 :=
  (dest &&& ~~~(genmask h l <<< s)) ||| ((src &&& genmask h l) <<< s)

def rmsr64 (dest src : BitVec 64) (h l s : Nat) : BitVec 64 :=
  (dest &&& ~~~(genmask h l >>> s)) ||| ((src &&& genmask h l) >>> s)

/-- `if (last) temp |= BIT_ULL(n); else temp &= ~BIT_ULL(n);` -/
def setLastBit (temp : BitVec 64) (last : Bool) (n : Nat) : BitVec 64 :=
  if last then temp ||| bitUll n else temp &&& ~~~bitUll n

/-- Any other index ends in `BUG`. -/
def me6SetSglEntry (sgl : SglBlock) (entryIdx : Nat) (addr : BitVec 64) (payloadSize : BitVec 32)
    (last : Bool) : Option SglBlock :=
  let size := payloadSize.setWidth 64
  match entryIdx with
  | 0 =>
    let temp := (if last then bitUll 18 else 0) ||| msl64 addr 46 2 (19 - 2)
    let data := Function.update sgl.data 0 temp
    let temp := rmsr64 (data 1) addr 63 47 47
    let temp := rmsl64 temp size 22 0 17
    some { sgl with data := Function.update data 1 temp }
  | 1 =>
    let temp := setLastBit (sgl.data 1) last 40
    let temp := rmsl64 temp addr 24 2 (41 - 2)
    let data := Function.update sgl.data 1 temp
    let temp := rmsr64 (data 2) addr 63 25 25
    let temp := rmsl64 temp size 22 0 39
    some { sgl with data := Function.update data 2 temp }
  | 2 =>
    let temp := setLastBit (sgl.data 2) last 62
    let temp := rmsl64 temp addr 2 2 (63 - 2)
    let data := Function.update sgl.data 2 temp
    let temp := msr64 addr 63 3 3 ||| msl64 size 2 0 61
    let data := Function.update data 3 temp
    let temp := rmsr64 (data 4) size 22 3 3
    some { sgl with data := Function.update data 4 temp }
  | 3 =>
    let temp := setLastBit (sgl.data 4) last 20
    let temp := rmsl64 temp addr 44 2 (21 - 2)
    let data := Function.update sgl.data 4 temp
    let temp := rmsr64 (data 5) addr 63 45 45
    let temp := rmsl64 temp size 22 0 19
    some { sgl with data := Function.update data 5 temp }
  | 4 =>
    let temp := setLastBit (sgl.data 5) last 42
    let temp := rmsl64 temp addr 22 2 (43 - 2)
    let data := Function.update sgl.data 5 temp
    let temp := msr64 addr 63 23 23 ||| msl64 size 22 0 41
    some { sgl with data := Function.update data 6 temp }
  | _ => none

/-! ### `bits.h` -/

def genMask64 (fromBit toBit : Nat) : BitVec 64 :=
  (BitVec.allOnes 64 >>> (64 - (toBit + 1))) &&& (BitVec.allOnes 64 <<< fromBit)

def getBits64 (word : BitVec 64) (fromBit toBit : Nat) :
    BitVec 64 := (word &&& genMask64 fromBit toBit) >>> fromBit

def setBits64 (word val : BitVec 64) (fromBit toBit : Nat) : BitVec 64 :=
  (word &&& ~~~genMask64 fromBit toBit) ||| ((val <<< fromBit) &&& genMask64 fromBit toBit)

/-! ### `sgl_v2.c` -/

def SGL_ENTRIES_PER_BLOCK : Nat := 5
def SGL_BLOCK_FIRST_ENTRY_OFFSET : Nat := 18
def SGL_BLOCK_ENTRY_BITS : Nat := 86
def SGL_BLOCK_ENTRY_PGA_OFFSET : Nat := 1
def SGL_BLOCK_ENTRY_PGA_LENGTH : Nat := 62
def SGL_BLOCK_ENTRY_GRPSIZE_LENGTH : Nat := 23

/-- The loop of `set_bits`; the bits of a chunk are taken with one bit too many. Every round
writes at least one bit. -/
def setBitsLoop : Nat → BitField.Words → Nat → Nat → BitVec 64 → BitField.Words
  | 0, target, _, _, _ => target
  | rounds + 1, target, fromBit, toBit, value =>
    if fromBit ≤ toBit then
      let targetIdx := fromBit / 64
      let chunkOffset := targetIdx * 64
      let chunkFrom := fromBit % 64
      let chunkTo := min 63 (toBit - chunkOffset)
      let bitsInCurrentChunk := chunkTo + 1 - chunkFrom
      let word := (target targetIdx &&& ~~~genMask64 chunkFrom chunkTo) |||
        (getBits64 value 0 bitsInCurrentChunk <<< chunkFrom)
      setBitsLoop rounds (Function.update target targetIdx word) (fromBit + bitsInCurrentChunk) toBit
        (value >>> bitsInCurrentChunk)
    else target

/-- A value that is too long for its field is refused. -/
def setBits (target : BitField.Words) (fromBit toBit : Nat) (value : BitVec 64) : BitField.Words :=
  let numBits := toBit + 1 - fromBit
  if getBits64 value numBits 63 ≠ 0 then target else setBitsLoop numBits target fromBit toBit value

def setSglBlockEntry (block : SglBlock) (entryIdx : Nat) (pageGroupAddress groupSize : BitVec 64)
    (isLast : Bool) :
    SglBlock :=
  let entryOffset := SGL_BLOCK_FIRST_ENTRY_OFFSET + entryIdx * SGL_BLOCK_ENTRY_BITS
  let pgaFrom := entryOffset + SGL_BLOCK_ENTRY_PGA_OFFSET
  let pgaTo := pgaFrom + SGL_BLOCK_ENTRY_PGA_LENGTH - 1
  let grpsizeFrom := pgaTo + 1
  let grpsizeTo := grpsizeFrom + SGL_BLOCK_ENTRY_GRPSIZE_LENGTH - 1
  let data := setBits block.data entryOffset entryOffset (if isLast then 1 else 0)
  let data := setBits data pgaFrom pgaTo pageGroupAddress
  { block with data := setBits data grpsizeFrom grpsizeTo groupSize }

/-! ### `me6_sgl.c` -/

structure MenMe6sglBlockField where
  numBits : Nat
  value : BitVec 64

def setSglBlockFieldLoop : Nat → BitField.Words → Nat → Nat → Nat → BitVec 64 → BitField.Words
  | 0, data, _, _, _, _ => data
  | rounds + 1, data, arrayItemIdx, startBitInArrayItem, remainingBits, fieldValue =>
    if 0 < remainingBits then
      let bitsInChunk := min remainingBits (64 - startBitInArrayItem)
      let endBitInArrayItem := startBitInArrayItem + bitsInChunk - 1
      let word := setBits64 (data arrayItemIdx) fieldValue startBitInArrayItem endBitInArrayItem
      setSglBlockFieldLoop rounds (Function.update data arrayItemIdx word) (arrayItemIdx + 1) 0
        (remainingBits - bitsInChunk) (fieldValue >>> bitsInChunk)
    else data

def menSetSglBlockField (data : BitField.Words) (fieldStartBitIdx fieldSizeInBits : Nat)
    (fieldValue : BitVec 64) : BitField.Words :=
  setSglBlockFieldLoop fieldSizeInBits data (fieldStartBitIdx / 64)
    (fieldStartBitIdx % 64) fieldSizeInBits fieldValue

def setFields (data : BitField.Words) (fieldStartBitIdx : Nat) : List MenMe6sglBlockField → BitField.Words
  | [] => data
  | field :: fields =>
    setFields (menSetSglBlockField data fieldStartBitIdx field.numBits field.value)
      (fieldStartBitIdx + field.numBits) fields

def setBlockEntry (sgl : SglBlock) (entryIdx entrySize : Nat) (fields : List MenMe6sglBlockField)
    (firstEntryStartBitIdx : Nat) : SglBlock :=
  { sgl with data := setFields sgl.data (firstEntryStartBitIdx + entryIdx * entrySize) fields }

/-- The layout of the lists from the device to the PC. -/
def getFieldsWithValuesDev2pc (pageGroupAddress : BitVec 64) (pageGroupSize : BitVec 32)
    (isLastSglEntry : Bool) :
    List MenMe6sglBlockField :=
  [⟨1, if isLastSglEntry then 1 else 0⟩, ⟨62, pageGroupAddress >>> 2⟩, ⟨23, pageGroupSize.setWidth 64⟩]

def startBitOfFirstBlockEntryDev2pc : Nat := 18

def entrySizeOf (fields : List MenMe6sglBlockField) : Nat := (fields.map (·.numBits)).sum

/-- An entry as `fill_blocks` writes it. -/
def setBlockEntryDev2pc (sgl : SglBlock) (entryIdx : Nat) (addr : BitVec 64) (size : BitVec 32)
    (last : Bool) :
    SglBlock :=
  let fields := getFieldsWithValuesDev2pc addr size last
  setBlockEntry sgl entryIdx (entrySizeOf fields) fields startBitOfFirstBlockEntryDev2pc

end MenableDriver
