import MenableDriver.Sgl.Streaming

/-!
# The list of the dummy buffer

`create_for_dummy_buffer` lets the entries of a block point to the dummy page. It counts the
words of the block instead of its entries, so it goes on into a second block that need not be
there.
-/

namespace MenableDriver

set_option autoImplicit false

/-- `ARRAY_SIZE(blocks->data)`. -/
def SGL_BLOCK_DATA_WORDS : Nat := 7

/-- The loop of `create_for_dummy_buffer`: the index of the round is the number of the entry. -/
def dummyBufferLoop (self : MenMe6sgl) (pages : Nat → BitVec 52) (dummyPageAddress : Nat) :
    Nat → Nat → SglMemory → Option SglMemory
  | 0, _, mem => some mem
  | rounds + 1, blockIndex, mem =>
    match self.fillBlocks pages mem blockIndex PAGE_SIZE dummyPageAddress false with
    | none => none
    | some (_, mem) => dummyBufferLoop self pages dummyPageAddress rounds (blockIndex + 1) mem

def createForDummyBuffer (self : MenMe6sgl) (pages : Nat → BitVec 52) (mem : SglMemory)
    (dummyPageAddress : Nat) : Option SglMemory :=
  match dummyBufferLoop self pages dummyPageAddress SGL_BLOCK_DATA_WORDS 0 mem with
  | none => none
  | some mem => some (linkBlockToNext mem 0 self.firstBlockBusAddress)

/-- The entry of a whole page. -/
def pageEntry (sgl : MenMe6sgl) (pages : Nat → BitVec 52) (page : Nat) : PageGroup where
  addr := getBusAddress pages page
  size := (menGeneratePageGroupSize 0 PAGE_SIZE sgl.maxPciTransferSize sgl.bitsInLastTransferSizeField).2
  last := false

/-- All writes go to the array, the five entries of the first block are the page and the only
ones that are written, and the block is linked to itself. -/
structure DummyBufferLaw (dir : SglDirection) (sgl : MenMe6sgl) (pages : Nat → BitVec 52) (page : Nat)
    (mem' : SglMemory) : Prop where
  inside : ∀ w ∈ mem'.written, w.block < sgl.numBlocks
  five : ∀ b i, .entry b i ∈ mem'.written ↔ b = 0 ∧ i < ME6_PAGES_PER_SGL_BLOCK
  filled : ∀ i < ME6_PAGES_PER_SGL_BLOCK, mem'.read dir i = pageEntry sgl pages page
  linked : (mem'.blocks 0).next = nextPointer sgl.firstBlockBusAddress

/-! ### One page -/

variable {sgl : MenMe6sgl} {pages : Nat → BitVec 52} {dir : SglDirection} {mem : SglMemory} {n page : Nat}

theorem prepareSglBlock_page {tsize : Nat} (htsize : 0 < tsize) (hpage : PAGE_SIZE ∣ page) :
    prepareSglBlock (getBusAddress pages page) PAGE_SIZE tsize = PAGE_SIZE := by
  have hoff : (getBusAddress pages page).toNat % tsize < tsize := Nat.mod_lt _ htsize
  rw [prepareSglBlock, getBusAddress_offset, Nat.mod_eq_zero_of_dvd hpage, Nat.one_shiftLeft]
  unfold PAGE_SIZE
  omega

theorem fillBlocksLoop_done {isLast : Bool} {fuel stop remaining : Nat} :
    fillBlocksLoop sgl pages isLast stop fuel mem n stop remaining = some (n, mem) := by
  cases fuel <;> simp [fillBlocksLoop]

/-- A page takes one round. -/
theorem fillBlocks_page (htsize : 0 < sgl.maxPciTransferSize) (hpage : PAGE_SIZE ∣ page) :
    sgl.fillBlocks pages mem n PAGE_SIZE page false =
      some (n + 1, setStreamEntry sgl (openBlock sgl pages mem n) (n / ME6_PAGES_PER_SGL_BLOCK)
        (n % ME6_PAGES_PER_SGL_BLOCK) (pageEntry sgl pages page)) := by
  have hfuel : PAGE_SIZE = 4095 + 1 := rfl
  have hoff : (getBusAddress pages page &&& 0xfff).toNat = 0 := by
    rw [getBusAddress_offset, Nat.mod_eq_zero_of_dvd hpage]
  rw [MenMe6sgl.fillBlocks]
  nth_rewrite 2 [hfuel]
  rw [fillBlocksLoop, if_pos (Nat.lt_add_of_pos_right (by decide))]
  simp only [prepareSglBlock_page htsize hpage, fillBlocksLoop_done, hoff, Bool.false_and]
  rfl

/-! ### All rounds -/

/-- The page is written as the entry `n`. -/
def writePage (sgl : MenMe6sgl) (pages : Nat → BitVec 52) (page : Nat) (mem : SglMemory) (n : Nat) :
    SglMemory :=
  setStreamEntry sgl (openBlock sgl pages mem n) (n / ME6_PAGES_PER_SGL_BLOCK) (n % ME6_PAGES_PER_SGL_BLOCK)
    (pageEntry sgl pages page)

theorem dummyBufferLoop_eq (htsize : 0 < sgl.maxPciTransferSize) (hpage : PAGE_SIZE ∣ page) (rounds : Nat) :
    dummyBufferLoop sgl pages page rounds n mem =
      some ((List.range' n rounds).foldl (writePage sgl pages page) mem) := by
  induction rounds generalizing n mem with
  | zero => rfl
  | succ rounds ih =>
    simp only [dummyBufferLoop, fillBlocks_page htsize hpage]
    rw [ih, List.range'_succ, List.foldl_cons]
    rfl

theorem writePages_read (hput : ∀ b i g, sgl.putEntry b i g = { b with data := putStream dir b.data i g })
    (hfits : (pageEntry sgl pages page).FitsLayout dir) (rounds : Nat) :
    (∀ j < n, ((List.range' n rounds).foldl (writePage sgl pages page) mem).read dir j = mem.read dir j) ∧
      ∀ j < rounds, ((List.range' n rounds).foldl (writePage sgl pages page) mem).read dir (n + j) =
        pageEntry sgl pages page := by
  induction rounds generalizing n mem with
  | zero => exact ⟨fun _ _ => rfl, fun _ h => absurd h (Nat.not_lt_zero _)⟩
  | succ rounds ih =>
    obtain ⟨hkept, hwrote⟩ := @ih (writePage sgl pages page mem n) (n + 1)
    rw [List.range'_succ, List.foldl_cons]
    refine ⟨fun j hj => ?_, fun j hj => ?_⟩
    · rw [hkept j (by omega)]
      exact setStreamEntry_kept hput hj
    · cases j with
      | zero =>
        exact (hkept n (Nat.lt_succ_self n)).trans (setStreamEntry_wrote hput hfits)
      | succ j =>
        have hread := hwrote j (by omega)
        rwa [show n + 1 + j = n + (j + 1) by omega] at hread

theorem linkBlockToNext_read (b i : Nat) (a : BitVec 64) :
    (linkBlockToNext mem b a).read dir i = mem.read dir i := by
  rw [SglMemory.read, SglMemory.read]
  simp only [linkBlockToNext]
  by_cases hb : i / ME6_PAGES_PER_SGL_BLOCK = b
  · rw [hb, Function.update_self]
  · rw [Function.update_of_ne hb]

/-- The entries 5 and 6 are those of a second block. -/
def dummyWrites : List SglWrite :=
  [.init 0, .entry 0 0, .entry 0 1, .entry 0 2, .entry 0 3, .entry 0 4, .init 1, .link 0, .entry 1 0,
    .entry 1 1, .link 0]

/-- The whole run, whatever the length of the array is. -/
theorem createForDummyBuffer_spec (dir : SglDirection) (bus : Nat → BitVec 64) (pages : Nat → BitVec 52)
    (blockMemory numBlocks : Nat) {tsize page : Nat} (htsize : 0 < tsize) (hpage : PAGE_SIZE ∣ page)
    (blocks : Nat → SglBlock) :
    ∃ mem', createForDummyBuffer (menMe6sglInit dir bus blockMemory numBlocks tsize) pages ⟨blocks, []⟩ page =
        some mem' ∧
      mem'.written = dummyWrites ∧
      (∀ i < ME6_PAGES_PER_SGL_BLOCK, mem'.read dir i =
        pageEntry (menMe6sglInit dir bus blockMemory numBlocks tsize) pages page) ∧
      (mem'.blocks 0).next =
        nextPointer (menMe6sglInit dir bus blockMemory numBlocks tsize).firstBlockBusAddress := by
  generalize hsgl : menMe6sglInit dir bus blockMemory numBlocks tsize = sgl
  have hput : ∀ b i g, sgl.putEntry b i g = { b with data := putStream dir b.data i g } := by
    rw [← hsgl]
    exact menMe6sgl_putEntry dir
  have hsize : sgl.maxPciTransferSize = tsize := by rw [← hsgl, menMe6sglInit_transferSize]
  have hbits : sgl.bitsInLastTransferSizeField = dir.sizeBits := by rw [← hsgl, menMe6sglInit_bits]
  have hfits : (pageEntry sgl pages page).FitsLayout dir := by
    refine ⟨?_, ?_⟩
    · rw [pageEntry, getBusAddress_toNat, Nat.mod_eq_zero_of_dvd hpage, Nat.add_zero]
      exact Nat.dvd_mul_left_of_dvd (by decide) _
    · rw [pageEntry, hbits]
      rcases sizeBits_cases dir with h | h <;> rw [h]
      · exact pageGroupSize_lt _ _ _ (by decide) (by decide)
      · exact pageGroupSize_lt _ _ _ (by decide) (by decide)
  have hread : ∀ j < SGL_BLOCK_DATA_WORDS, ((List.range' 0 SGL_BLOCK_DATA_WORDS).foldl
      (writePage sgl pages page) ⟨blocks, []⟩).read dir (0 + j) = pageEntry sgl pages page :=
    (writePages_read hput hfits _).2
  rw [createForDummyBuffer, dummyBufferLoop_eq (hsize ▸ htsize) hpage]
  refine ⟨_, rfl, rfl, fun i hi => ?_, ?_⟩
  · have hentry := hread i (Nat.lt_of_lt_of_le hi (by decide))
    rw [Nat.zero_add] at hentry
    rw [linkBlockToNext_read]
    exact hentry
  · simp only [linkBlockToNext, Function.update_self]
    rfl

/-- In no run are the five entries the only ones that are written. All else holds when there are
two blocks, and with one the second is written behind the array. -/
theorem dummyBuffer_law (dir : SglDirection) (pages : Nat → BitVec 52)
    (blockMemory numBlocks tsize page : Nat)
    (blocks : Nat → SglBlock) (htsize : 0 < tsize)
    (hpage : PAGE_SIZE ∣ page) :
    ∃ mem', createForDummyBuffer (menMe6sglInit dir (getBusAddress pages) blockMemory numBlocks tsize)
      pages ⟨blocks, []⟩ page =
        some mem' ∧
      ¬ DummyBufferLaw dir (menMe6sglInit dir (getBusAddress pages) blockMemory numBlocks tsize)
        pages page mem' ∧
      ((∀ w ∈ mem'.written, w.block < numBlocks) ↔ 2 ≤ numBlocks) ∧
      (∀ i < ME6_PAGES_PER_SGL_BLOCK, mem'.read dir i =
        pageEntry (menMe6sglInit dir (getBusAddress pages) blockMemory numBlocks tsize) pages page) ∧
      (mem'.blocks 0).next =
        nextPointer (menMe6sglInit dir (getBusAddress pages) blockMemory numBlocks tsize).firstBlockBusAddress := by
  obtain ⟨mem', hrun, hwritten, hfilled, hlinked⟩ :=
    createForDummyBuffer_spec dir (getBusAddress pages) pages blockMemory numBlocks htsize hpage blocks
  refine ⟨mem', hrun, fun h => ?_, ?_, hfilled, hlinked⟩
  · have hentry := (h.five 1 0).mp (by rw [hwritten]; decide)
    exact absurd hentry.1 (by decide)
  · rw [hwritten]
    refine ⟨fun h => h (.init 1) (by decide), fun h w hw => ?_⟩
    have hblock : w.block ≤ 1 := by
      revert w
      decide
    omega

theorem dummyBuffer_law_two :
    ∃ mem', createForDummyBuffer (menMe6sglInit .pc2dev (getBusAddress fun _ => 7) 0x8000 2 512) (fun _ => 7)
        ⟨fun _ => {}, []⟩ 0x3000 = some mem' ∧ ∀ w ∈ mem'.written, w.block < 2 := by
  obtain ⟨mem', hrun, _, hinside, _⟩ := dummyBuffer_law .pc2dev (fun _ => 7) 0x8000 2 512 0x3000
    (fun _ => {}) (by decide) (by decide)
  exact ⟨mem', hrun, hinside.mpr (by decide)⟩

/-- An array of one block: a second one is cleared and filled. -/
theorem dummyBuffer_outside :
    ∃ mem', createForDummyBuffer (menMe6sglInit .dev2pc (getBusAddress fun _ => 7) 0x8000 1 256) (fun _ => 7)
        ⟨fun _ => {}, []⟩ 0x3000 = some mem' ∧ .init 1 ∈ mem'.written ∧ .entry 1 0 ∈ mem'.written ∧
      ¬ DummyBufferLaw .dev2pc (menMe6sglInit .dev2pc (getBusAddress fun _ => 7) 0x8000 1 256)
        (fun _ => 7) 0x3000
        mem' := by
  have hpage : PAGE_SIZE ∣ 0x3000 := by decide
  obtain ⟨mem', hrun, hwritten, _⟩ := createForDummyBuffer_spec .dev2pc (getBusAddress fun _ => 7) (fun _ => 7)
    0x8000 1 (show 0 < 256 by decide) hpage fun _ => {}
  refine ⟨mem', hrun, by rw [hwritten]; decide, by rw [hwritten]; decide, fun h => ?_⟩
  exact absurd (h.inside (.init 1) (by rw [hwritten]; decide)) (by decide)

end MenableDriver
