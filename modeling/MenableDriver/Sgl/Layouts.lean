import MenableDriver.Sgl.Chain

/-!
# The two layouts of the streaming lists

The entries of a list to the PC have a last flag, those of a list to the device have two bits
more for the last transfer. `men_me6sgl` holds what differs, so that one function fills both.
-/

namespace MenableDriver

set_option autoImplicit false

open BitField (Words bit put get)

inductive SglDirection
  | dev2pc
  | pc2dev
deriving DecidableEq

/-- The layout of the lists from the PC to the device. -/
def getEntryFieldsWithValuesPc2dev (pageGroupAddress : BitVec 64) (pageGroupSize : BitVec 32)
    (_unused : Bool) : List MenMe6sglBlockField :=
  [⟨62, pageGroupAddress >>> 2⟩, ⟨25, pageGroupSize.setWidth 64⟩]

/-- `blocks` is the address of the first block. -/
structure MenMe6sgl where
  blocks : Nat
  numBlocks : Nat
  firstBlockBusAddress : BitVec 64
  bitsInLastTransferSizeField : Nat
  getEntryFieldsWithValues : BitVec 64 → BitVec 32 → Bool → List MenMe6sglBlockField
  maxPciTransferSize : Nat
  startBitOfFirstBlockEntry : Nat

def menMe6sglInitDev2pc (getBusAddress : Nat → BitVec 64) (blockMemory numBlocks maxPciTransferSize : Nat) :
    MenMe6sgl where
  blocks := blockMemory
  numBlocks := numBlocks
  firstBlockBusAddress := getBusAddress blockMemory
  bitsInLastTransferSizeField := 8
  getEntryFieldsWithValues := getFieldsWithValuesDev2pc
  maxPciTransferSize := maxPciTransferSize
  startBitOfFirstBlockEntry := 18

def menMe6sglInitPc2dev (getBusAddress : Nat → BitVec 64) (blockMemory numBlocks maxPciTransferSize : Nat) :
    MenMe6sgl where
  blocks := blockMemory
  numBlocks := numBlocks
  firstBlockBusAddress := getBusAddress blockMemory
  bitsInLastTransferSizeField := 10
  getEntryFieldsWithValues := getEntryFieldsWithValuesPc2dev
  maxPciTransferSize := maxPciTransferSize
  startBitOfFirstBlockEntry := 13

def menMe6sglInit : SglDirection → (Nat → BitVec 64) → Nat → Nat → Nat → MenMe6sgl
  | .dev2pc => menMe6sglInitDev2pc
  | .pc2dev => menMe6sglInitPc2dev

/-- An entry as `fill_blocks` writes it. -/
def MenMe6sgl.putEntry (self : MenMe6sgl) (sgl : SglBlock) (entryIdx : Nat) (g : PageGroup) : SglBlock :=
  let fields := self.getEntryFieldsWithValues g.addr g.size g.last
  setBlockEntry sgl entryIdx (entrySizeOf fields) fields self.startBitOfFirstBlockEntry

/-! ### Reading -/

def pc2devStart (entryIdx : Nat) : Nat := 13 + entryIdx * 87

/-- What the device reads. -/
def readStreamEntry (dir : SglDirection) (d : Words) (entryIdx : Nat) : PageGroup :=
  match dir with
  | .dev2pc => readEntry d entryIdx
  | .pc2dev =>
    { addr := (get d (pc2devStart entryIdx) 62).setWidth 64 <<< 2
      size := (get d (pc2devStart entryIdx + 62) 25).setWidth 32
      last := false }

/-- The bits for the words of the last transfer. -/
def SglDirection.sizeBits : SglDirection → Nat
  | .dev2pc => 8
  | .pc2dev => 10

/-- Whether there is a last flag. -/
def SglDirection.flagged : SglDirection → Bool
  | .dev2pc => true
  | .pc2dev => false

/-- What an entry of the layout can hold. -/
structure PageGroup.FitsLayout (dir : SglDirection) (g : PageGroup) : Prop where
  addr : 4 ∣ g.addr.toNat
  size : g.size.toNat < 2 ^ (15 + dir.sizeBits)

variable {dir : SglDirection} {g : PageGroup} {bus : Nat → BitVec 64} {mem num tsize : Nat}

theorem sizeBits_cases (dir : SglDirection) : dir.sizeBits = 8 ∨ dir.sizeBits = 10 := by
  cases dir
  · exact .inl rfl
  · exact .inr rfl

theorem menMe6sglInit_bits (dir : SglDirection) :
    (menMe6sglInit dir bus mem num tsize).bitsInLastTransferSizeField = dir.sizeBits := by
  cases dir <;> rfl

theorem menMe6sglInit_transferSize (dir : SglDirection) :
    (menMe6sglInit dir bus mem num tsize).maxPciTransferSize = tsize := by
  cases dir <;> rfl

theorem menMe6sglInit_blocks (dir : SglDirection) :
    (menMe6sglInit dir bus mem num tsize).blocks = mem := by
  cases dir <;> rfl

def putPc2dev (d : Words) (entryIdx : Nat) (g : PageGroup) : Words :=
  put (put d (pc2devStart entryIdx) 62 (g.addr >>> 2)) (pc2devStart entryIdx + 62) 25 (g.size.setWidth 64)

/-- The words that an entry is written to. -/
def putStream (dir : SglDirection) (d : Words) (entryIdx : Nat) (g : PageGroup) : Words :=
  match dir with
  | .dev2pc => putEntry d entryIdx g.addr g.size g.last
  | .pc2dev => putPc2dev d entryIdx g

theorem menMe6sgl_putEntry (dir : SglDirection) (b : SglBlock) (i : Nat) (g : PageGroup) :
    (menMe6sglInit dir bus mem num tsize).putEntry b i g = { b with data := putStream dir b.data i g } := by
  cases dir
  · exact setBlockEntryDev2pc_eq b i g.addr g.size g.last
  · simp only [menMe6sglInit, menMe6sglInitPc2dev, MenMe6sgl.putEntry, setBlockEntry,
      getEntryFieldsWithValuesPc2dev, setFields, menSetSglBlockField_eq]
    rfl

theorem putPc2dev_bit_other {d : Words} {i j k : Nat} (hij : i ≠ j) (hlow : pc2devStart j ≤ k)
    (hhigh : k < pc2devStart j + 87) : bit (putPc2dev d i g) k = bit d k := by
  unfold pc2devStart at hlow hhigh
  rw [putPc2dev, BitField.bit_put, BitField.bit_put, pc2devStart, if_neg (by omega), if_neg (by omega)]

theorem readStreamEntry_put (d : Words) (i : Nat) (hg : g.FitsLayout dir) :
    readStreamEntry dir (putStream dir d i g) i = { g with last := g.last && dir.flagged } := by
  cases dir
  · have hread := readEntry_put d i (g := g) ⟨hg.addr, hg.size⟩
    rw [SglDirection.flagged, Bool.and_true]
    exact hread
  · have haddr : get (putPc2dev d i g) (pc2devStart i) 62 = (g.addr >>> 2).setWidth 62 := by
      rw [putPc2dev, BitField.get_put_disjoint _ (by omega), BitField.get_put_self]
    have hsize : (get (putPc2dev d i g) (pc2devStart i + 62) 25).setWidth 32 = g.size := by
      have hlt : g.size.toNat < 2 ^ 25 := hg.size
      rw [putPc2dev, BitField.get_put_self]
      apply BitVec.eq_of_toNat_eq
      simp only [BitVec.toNat_setWidth]
      omega
    simp only [readStreamEntry, putStream, haddr, hsize, word_address hg.addr, SglDirection.flagged,
      Bool.and_false]

theorem readStreamEntry_put_other {i j : Nat} (hij : i ≠ j) (d : Words) (g : PageGroup) :
    readStreamEntry dir (putStream dir d i g) j = readStreamEntry dir d j := by
  cases dir
  · exact readEntry_put_other hij g
  · have haddr : get (putPc2dev d i g) (pc2devStart j) 62 = get d (pc2devStart j) 62 :=
      BitField.get_congr fun k hk => putPc2dev_bit_other hij (by omega) (by omega)
    have hsize : get (putPc2dev d i g) (pc2devStart j + 62) 25 = get d (pc2devStart j + 62) 25 :=
      BitField.get_congr fun k hk => putPc2dev_bit_other hij (by omega) (by omega)
    simp only [readStreamEntry, putStream, haddr, hsize]

end MenableDriver
