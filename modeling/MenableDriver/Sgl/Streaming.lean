import MenableDriver.Sgl.Layouts
import MenableDriver.Sgl.PageGroupSize
import MenableDriver.Sgl.UserRange

/-!
# Filling the blocks of a streaming list

`fill_blocks` writes an entry for every page that a batch of the buffer touches. The entries are
numbered through the blocks, and a batch goes on in the block where the one before it ended.
What a batch did is said once, in `Fills`, and two batches one after the other are one.
-/

namespace MenableDriver

set_option autoImplicit false

open BitField (Words)

def ME6_PAGES_PER_SGL_BLOCK : Nat := 5

/-- Where something was written: all of a block, its link, or one of its entries. -/
inductive SglWrite
  | init (block : Nat)
  | link (block : Nat)
  | entry (block entryIdx : Nat)
deriving DecidableEq

def SglWrite.block : SglWrite → Nat
  | .init block => block
  | .link block => block
  | .entry block _ => block

/-- The array of blocks and the memory behind it, with all that was written. -/
structure SglMemory where
  blocks : Nat → SglBlock
  written : List SglWrite

/-- A page of the bus for each page, at the same offset. -/
def getBusAddress (pages : Nat → BitVec 52) (virtualAddress : Nat) : BitVec 64 :=
  pages (virtualAddress / PAGE_SIZE) ++ BitVec.ofNat 12 virtualAddress

def linkBlockToNext (mem : SglMemory) (block : Nat) (busAddressOfNextBlock : BitVec 64) : SglMemory where
  blocks := Function.update mem.blocks block
    { mem.blocks block with next := (busAddressOfNextBlock >>> 1) ||| 1 }
  written := mem.written ++ [.link block]

/-- A block has 64 bytes. -/
def blockBusAddress (self : MenMe6sgl) (pages : Nat → BitVec 52) (block : Nat) : BitVec 64 :=
  getBusAddress pages (self.blocks + 64 * block)

def createLinkInPreviousBlock (self : MenMe6sgl) (pages : Nat → BitVec 52) (mem : SglMemory)
    (blockIdx : Nat) : SglMemory :=
  linkBlockToNext mem (blockIdx - 1) (blockBusAddress self pages blockIdx)

def initBlockAndCreateLinkFromPrevious (self : MenMe6sgl) (pages : Nat → BitVec 52) (mem : SglMemory)
    (blockIndex : Nat) : SglMemory :=
  let mem : SglMemory := ⟨Function.update mem.blocks blockIndex {}, mem.written ++ [.init blockIndex]⟩
  if blockIndex > 0 then createLinkInPreviousBlock self pages mem blockIndex else mem

/-- The bytes of the next entry. -/
def prepareSglBlock (bufferChunkBusAddress : BitVec 64) (remainingLength pciPayloadSize : Nat) : Nat :=
  let maxPciTransfersPerSglEntry := 1 <<< 15
  let pageOffset := (bufferChunkBusAddress &&& 0xfff).toNat
  let pciPayloadOffset := bufferChunkBusAddress.toNat % pciPayloadSize
  let maxBytesForSglEntry := maxPciTransfersPerSglEntry * pciPayloadSize - pciPayloadOffset
  let maxLength := min remainingLength maxBytesForSglEntry
  min (PAGE_SIZE - pageOffset) maxLength

def setStreamEntry (self : MenMe6sgl) (mem : SglMemory) (block entryIdx : Nat) (g : PageGroup) :
    SglMemory where
  blocks := Function.update mem.blocks block (self.putEntry (mem.blocks block) entryIdx g)
  written := mem.written ++ [.entry block entryIdx]

/-- The loop of `fill_blocks`. It does not end when there is no more fuel. -/
def fillBlocksLoop (self : MenMe6sgl) (pages : Nat → BitVec 52) (isLastBatch : Bool) (bufferEndPtr : Nat) :
    Nat → SglMemory → Nat → Nat → Nat → Option (Nat × SglMemory)
  | 0, mem, currentEntryNumber, bufferChunkPtr, _ =>
    if bufferChunkPtr < bufferEndPtr then none else some (currentEntryNumber, mem)
  | fuel + 1, mem, currentEntryNumber, bufferChunkPtr, remainingLength =>
    if bufferChunkPtr < bufferEndPtr then
      let blockSglIdx := currentEntryNumber / ME6_PAGES_PER_SGL_BLOCK
      let blockEntryIdx := currentEntryNumber % ME6_PAGES_PER_SGL_BLOCK
      let mem :=
        if blockEntryIdx = 0 then initBlockAndCreateLinkFromPrevious self pages mem blockSglIdx else mem
      let bufferChunkBusAddress := getBusAddress pages bufferChunkPtr
      let entryLength := prepareSglBlock bufferChunkBusAddress remainingLength self.maxPciTransferSize
      let remainingLength := remainingLength - entryLength
      let isLastEntry := isLastBatch && decide (remainingLength = 0)
      let sizeValue := (menGeneratePageGroupSize (bufferChunkBusAddress &&& 0xfff).toNat entryLength
        self.maxPciTransferSize self.bitsInLastTransferSizeField).2
      let mem := setStreamEntry self mem blockSglIdx blockEntryIdx ⟨bufferChunkBusAddress,
        sizeValue, isLastEntry⟩
      fillBlocksLoop self pages isLastBatch bufferEndPtr fuel mem (currentEntryNumber + 1)
        (bufferChunkPtr + entryLength) remainingLength
    else some (currentEntryNumber, mem)

/-- Every round takes at least one byte. -/
def MenMe6sgl.fillBlocks (self : MenMe6sgl) (pages : Nat → BitVec 52) (mem : SglMemory)
    (entryCountOffset batchLength virtAddress : Nat) (isLastBatch : Bool) : Option (Nat × SglMemory) :=
  fillBlocksLoop self pages isLastBatch (virtAddress + batchLength) batchLength mem entryCountOffset
    virtAddress batchLength

structure SglBatch where
  length : Nat
  isLast : Bool

/-- The batches of a buffer one after the other. -/
def fillBatches (self : MenMe6sgl) (pages : Nat → BitVec 52) :
    SglMemory → Nat → Nat → List SglBatch → Option (Nat × SglMemory)
  | mem, entryCount, _, [] => some (entryCount, mem)
  | mem, entryCount, virtAddress, batch :: batches =>
    match self.fillBlocks pages mem entryCount batch.length virtAddress batch.isLast with
    | none => none
    | some (entryCount, mem) =>
      fillBatches self pages mem entryCount (virtAddress + batch.length) batches

/-! ### What a list stands for -/

/-- The entry with the given number, all blocks counted. -/
def SglMemory.read (dir : SglDirection) (mem : SglMemory) (entryNumber : Nat) : PageGroup :=
  readStreamEntry dir (mem.blocks (entryNumber / ME6_PAGES_PER_SGL_BLOCK)).data
    (entryNumber % ME6_PAGES_PER_SGL_BLOCK)

def decodeStreamEntry (dir : SglDirection) (payload : Nat) (g : PageGroup) : DmaSegment :=
  ⟨g.addr, pageGroupLength dir.sizeBits g.addr.toNat g.size.toNat payload⟩

/-- The segments are the memory from `v` up to `e`, in order and cut at the pages. -/
def CoversBuffer (pages : Nat → BitVec 52) : Nat → List DmaSegment → Nat → Prop
  | v, [], e => v = e
  | v, sg :: segs, e =>
    sg.addr = getBusAddress pages v ∧ 0 < sg.len ∧ v % PAGE_SIZE + sg.len ≤ PAGE_SIZE ∧
      CoversBuffer pages (v + sg.len) segs e

/-- The flag stands on the final group, and is set on no other. -/
def FlaggedAtEnd (flag : Bool) : List PageGroup → Prop
  | [] => True
  | g :: gs => g.last = (flag && gs.isEmpty) ∧ FlaggedAtEnd flag gs

/-- The pages that `len` bytes from `v` on touch. -/
def pagesTouched (v len : Nat) : Nat := if len = 0 then 0 else (v % PAGE_SIZE + len + PAGE_SIZE - 1)
    / PAGE_SIZE

def totalEntries : Nat → List SglBatch → Nat
  | _, [] => 0
  | v, batch :: batches => pagesTouched v batch.length + totalEntries (v + batch.length) batches

def totalBatches (batches : List SglBatch) : Nat := (batches.map (·.length)).sum

/-! ### Addresses and sizes -/

variable {pages : Nat → BitVec 52} {dir : SglDirection} {k v len : Nat}

theorem getBusAddress_toNat (pages : Nat → BitVec 52) (v : Nat) :
    (getBusAddress pages v).toNat = (pages (v / PAGE_SIZE)).toNat * PAGE_SIZE + v % PAGE_SIZE := by
  have hlt : v % 2 ^ 12 < 2 ^ 12 := Nat.mod_lt _ (by decide)
  rw [getBusAddress, BitVec.toNat_append, BitVec.toNat_ofNat, Nat.shiftLeft_eq, Nat.mul_comm,
    ← Nat.two_pow_add_eq_or_of_lt hlt, Nat.mul_comm]
  rfl

theorem getBusAddress_offset (pages : Nat → BitVec 52) (v : Nat) :
    (getBusAddress pages v &&& 0xfff).toNat = v % PAGE_SIZE := by
  have hmask : (getBusAddress pages v &&& 0xfff).toNat = (getBusAddress pages v).toNat % 2 ^ 12 := by
    rw [BitVec.toNat_and]
    exact Nat.and_two_pow_sub_one_eq_mod _ 12
  rw [hmask, getBusAddress_toNat, PAGE_SIZE]
  omega

/-- An entry ends with the page or the batch: the transfers never run out. -/
theorem prepareSglBlock_eq (hk : 7 ≤ k) (pages : Nat → BitVec 52) (v remaining : Nat) :
    prepareSglBlock (getBusAddress pages v) remaining (2 ^ k) = min (PAGE_SIZE - v % PAGE_SIZE)
      remaining := by
  have hp : 2 ^ 7 ≤ 2 ^ k := Nat.pow_le_pow_right (by decide) hk
  have hoff : (getBusAddress pages v).toNat % 2 ^ k < 2 ^ k := Nat.mod_lt _ (by omega)
  rw [prepareSglBlock, getBusAddress_offset, Nat.one_shiftLeft]
  unfold PAGE_SIZE
  omega

theorem pagesTouched_eq_zero : pagesTouched v len = 0 ↔ len = 0 := by
  unfold pagesTouched PAGE_SIZE
  split <;> omega

theorem pagesTouched_step (hlen : 0 < len) :
    pagesTouched v len = 1 + pagesTouched (v + min (PAGE_SIZE - v % PAGE_SIZE) len)
      (len - min (PAGE_SIZE - v % PAGE_SIZE) len) := by
  unfold pagesTouched PAGE_SIZE
  rw [if_neg (by omega)]
  split <;> omega

theorem pageGroupLength_congr {bits offset offset' size payload : Nat}
    (h : offset % payload = offset' % payload) :
    pageGroupLength bits offset size payload = pageGroupLength bits offset' size payload := by
  rw [pageGroupLength, pageGroupLength, h]

/-- The group of a piece inside a page fits into the entry and stands for the piece. -/
theorem streamGroup_spec (hk : 7 ≤ k ∧ k ≤ dir.sizeBits + 2) (pages : Nat → BitVec 52) (hv : 4 ∣ v)
    (hlen4 : 4 ∣ len) (hlen : 0 < len) (hpage : v % PAGE_SIZE + len ≤ PAGE_SIZE) (last : Bool) :
    let g : PageGroup := ⟨getBusAddress pages v,
      (menGeneratePageGroupSize (getBusAddress pages v &&& 0xfff).toNat len (2 ^ k) dir.sizeBits).2, last⟩
    g.FitsLayout dir ∧ decodeStreamEntry dir (2 ^ k) g = ⟨getBusAddress pages v, len⟩ := by
  have hbits := sizeBits_cases dir
  have hp : 2 ^ 7 ≤ 2 ^ k := Nat.pow_le_pow_right (by decide) hk.1
  have hp0 : 0 < 2 ^ k := Nat.two_pow_pos k
  have hoff : v % PAGE_SIZE % 2 ^ k < 2 ^ k := Nat.mod_lt _ hp0
  have hsmall : len ≤ 2 ^ 12 := Nat.le_trans (Nat.le_add_left _ _) hpage
  have hoff4 : 4 ∣ v % PAGE_SIZE := (Nat.dvd_mod_iff (by decide)).mpr hv
  have hfits : CountFits dir.sizeBits (v % PAGE_SIZE) len (2 ^ k) := by
    refine .inl ?_
    rcases hbits with h | h <;> rw [h] <;> omega
  have hlaw := pageGroupSize_law hbits hk hoff4 hlen4 (Nat.le_of_dvd hlen hlen4) hfits
  have hk12 : k ≤ 12 := by rcases hbits with h | h <;> omega
  have hmod : (getBusAddress pages v).toNat % 2 ^ k = v % PAGE_SIZE % 2 ^ k := by
    rw [← getBusAddress_offset pages, BitVec.toNat_and]
    exact (page_offset hk12 _).symm
  intro g
  refine ⟨⟨?_, ?_⟩, ?_⟩
  · rw [getBusAddress_toNat, PAGE_SIZE]
    unfold PAGE_SIZE at hoff4
    omega
  · exact pageGroupSize_lt _ _ _ (by omega) (by omega)
  · simp only [g, decodeStreamEntry, getBusAddress_offset]
    rw [pageGroupLength_congr hmod, hlaw.length]

/-! ### One entry -/

variable {sgl : MenMe6sgl} {mem mem' mem'' : SglMemory} {n b : Nat} {g : PageGroup}

/-- The block of the entry `n`, cleared and linked when it is new. -/
def openBlock (sgl : MenMe6sgl) (pages : Nat → BitVec 52) (mem : SglMemory) (n : Nat) : SglMemory :=
  if n % ME6_PAGES_PER_SGL_BLOCK = 0 then
    initBlockAndCreateLinkFromPrevious sgl pages mem (n / ME6_PAGES_PER_SGL_BLOCK)
  else mem

theorem initBlock_blocks (sgl : MenMe6sgl) (pages : Nat → BitVec 52) (mem : SglMemory) {b c : Nat}
    (hc : c ≠ b) :
    (initBlockAndCreateLinkFromPrevious sgl pages mem b).blocks c =
      if c + 1 = b then { mem.blocks c with next := nextPointer (blockBusAddress sgl pages b) }
      else mem.blocks c := by
  unfold initBlockAndCreateLinkFromPrevious createLinkInPreviousBlock linkBlockToNext
  by_cases hpos : b > 0
  · simp only [if_pos hpos]
    by_cases hprev : c + 1 = b
    · have hidx : c = b - 1 := by omega
      rw [if_pos hprev, hidx, Function.update_self, Function.update_of_ne (by omega)]
      rfl
    · rw [if_neg hprev, Function.update_of_ne (by omega), Function.update_of_ne hc]
  · simp only [if_neg hpos]
    rw [if_neg (by omega), Function.update_of_ne hc]

theorem initBlock_written (sgl : MenMe6sgl) (pages : Nat → BitVec 52) (mem : SglMemory) (b : Nat) :
    ∃ new, (initBlockAndCreateLinkFromPrevious sgl pages mem b).written = mem.written ++ new ∧
      ∀ w ∈ new, w.block ≤ b := by
  unfold initBlockAndCreateLinkFromPrevious createLinkInPreviousBlock linkBlockToNext
  by_cases hpos : b > 0
  · refine ⟨[.init b, .link (b - 1)], by simp [if_pos hpos], ?_⟩
    simp [SglWrite.block]
  · refine ⟨[.init b], by simp [if_neg hpos], ?_⟩
    simp [SglWrite.block]

theorem openBlock_data (hb : b ≠ n / ME6_PAGES_PER_SGL_BLOCK) :
    ((openBlock sgl pages mem n).blocks b).data = (mem.blocks b).data := by
  unfold openBlock
  split
  · rw [initBlock_blocks _ _ _ hb]
    split <;> rfl
  · rfl

/-- Only the link to a new block is set. -/
theorem openBlock_next (hb : 5 * b < n) (hnew : n ≠ 5 * (b + 1)) :
    ((openBlock sgl pages mem n).blocks b).next = (mem.blocks b).next := by
  unfold openBlock ME6_PAGES_PER_SGL_BLOCK
  split
  · rw [initBlock_blocks _ _ _ (by omega), if_neg (by omega)]
  · rfl

theorem openBlock_linked (hb : 0 < b) (hn : n = 5 * b) :
    ((openBlock sgl pages mem n).blocks (b - 1)).next = nextPointer (blockBusAddress sgl pages b) := by
  have hdiv : n / ME6_PAGES_PER_SGL_BLOCK = b := by
    unfold ME6_PAGES_PER_SGL_BLOCK
    omega
  rw [openBlock, if_pos (by unfold ME6_PAGES_PER_SGL_BLOCK; omega), hdiv,
    initBlock_blocks _ _ _ (by omega), if_pos (by omega)]

theorem openBlock_written (sgl : MenMe6sgl) (pages : Nat → BitVec 52) (mem : SglMemory) (n : Nat) :
    ∃ new, (openBlock sgl pages mem n).written = mem.written ++ new ∧
      ∀ w ∈ new, w.block ≤ n / ME6_PAGES_PER_SGL_BLOCK := by
  unfold openBlock
  split
  · exact initBlock_written sgl pages mem _
  · exact ⟨[], (List.append_nil _).symm, fun _ h => absurd h List.not_mem_nil⟩

/-- What was written from the entry `n` and the address `v` on. -/
structure Fills (dir : SglDirection) (sgl : MenMe6sgl) (pages : Nat → BitVec 52) (payload n v : Nat)
    (mem : SglMemory) (gs : List PageGroup) (mem' : SglMemory) (v' : Nat) : Prop where
  kept : ∀ j < n, mem'.read dir j = mem.read dir j
  wrote : ∀ j g, gs[j]? = some g → mem'.read dir (n + j) = g
  covers : CoversBuffer pages v (gs.map (decodeStreamEntry dir payload)) v'
  linked : ∀ b, 0 < b → n ≤ 5 * b → 5 * b < n + gs.length →
    (mem'.blocks (b - 1)).next = nextPointer (blockBusAddress sgl pages b)
  linksKept : ∀ b, 5 * b < n → ¬ (n ≤ 5 * (b + 1) ∧ 5 * (b + 1) < n + gs.length) →
    (mem'.blocks b).next = (mem.blocks b).next
  recorded : ∃ new, mem'.written = mem.written ++ new ∧ (∀ w ∈ new, 5 * w.block < n + gs.length) ∧
    ∀ j < gs.length, .entry ((n + j) / 5) ((n + j) % 5) ∈ new

variable {payload v' v'' : Nat} {gs gs' : List PageGroup}

theorem CoversBuffer.append {e e' : Nat} {segs segs' : List DmaSegment} (h : CoversBuffer pages v segs e)
    (h' : CoversBuffer pages e segs' e') : CoversBuffer pages v (segs ++ segs') e' := by
  induction segs generalizing v with
  | nil =>
    obtain rfl := h
    exact h'
  | cons sg segs ih =>
    obtain ⟨haddr, hpos, hpage, hrest⟩ := h
    exact ⟨haddr, hpos, hpage, ih hrest⟩

theorem Fills.nil : Fills dir sgl pages payload n v mem [] mem v where
  kept := fun _ _ => rfl
  wrote := fun _ _ h => nomatch h
  covers := rfl
  linked := fun _ _ hlow hhigh => absurd hhigh (Nat.not_lt.mpr hlow)
  linksKept := fun _ _ _ => rfl
  recorded := ⟨[], (List.append_nil _).symm, fun _ h => absurd h List.not_mem_nil, fun _ h =>
    absurd h (Nat.not_lt_zero _)⟩

/-- The entries go on where the last one ended. -/
theorem Fills.trans (h : Fills dir sgl pages payload n v mem gs mem' v')
    (h' : Fills dir sgl pages payload (n + gs.length) v' mem' gs' mem'' v'') :
    Fills dir sgl pages payload n v mem (gs ++ gs') mem'' v'' where
  kept := fun j hj => (h'.kept j (by omega)).trans (h.kept j hj)
  wrote := by
    intro j g hg
    rw [List.getElem?_append] at hg
    split at hg
    · rename_i hlt
      rw [h'.kept (n + j) (by omega)]
      exact h.wrote j g hg
    · rename_i hge
      have hread := h'.wrote (j - gs.length) g hg
      rwa [show n + gs.length + (j - gs.length) = n + j by omega] at hread
  covers := by
    rw [List.map_append]
    exact h.covers.append h'.covers
  linked := by
    intro b hb hlow hhigh
    rw [List.length_append] at hhigh
    by_cases hfirst : 5 * b < n + gs.length
    · rw [h'.linksKept (b - 1) (by omega) (by omega)]
      exact h.linked b hb hlow hfirst
    · exact h'.linked b hb (by omega) (by omega)
  linksKept := by
    intro b hb hno
    rw [List.length_append] at hno
    rw [h'.linksKept b (by omega) (by omega), h.linksKept b hb (by omega)]
  recorded := by
    obtain ⟨new, hnew, hinside, hentries⟩ := h.recorded
    obtain ⟨new', hnew', hinside', hentries'⟩ := h'.recorded
    refine ⟨new ++ new', by rw [hnew', hnew, List.append_assoc], fun w hw => ?_, fun j hj => ?_⟩
    · rw [List.length_append]
      rcases List.mem_append.mp hw with hw | hw
      · have hblock := hinside w hw
        omega
      · have hblock := hinside' w hw
        omega
    · rw [List.length_append] at hj
      by_cases hfirst : j < gs.length
      · exact List.mem_append_left _ (hentries j hfirst)
      · have hentry := hentries' (j - gs.length) (by omega)
        rw [show n + gs.length + (j - gs.length) = n + j by omega] at hentry
        exact List.mem_append_right _ hentry

section Entry

variable (hput : ∀ b i g, sgl.putEntry b i g = { b with data := putStream dir b.data i g })
include hput

theorem setStreamEntry_kept {j : Nat} (hj : j < n) :
    (setStreamEntry sgl (openBlock sgl pages mem n) (n / ME6_PAGES_PER_SGL_BLOCK)
      (n % ME6_PAGES_PER_SGL_BLOCK) g).read dir j = mem.read dir j := by
  rw [SglMemory.read, SglMemory.read]
  simp only [setStreamEntry]
  by_cases hb : j / ME6_PAGES_PER_SGL_BLOCK = n / ME6_PAGES_PER_SGL_BLOCK
  · have hold : ¬ n % ME6_PAGES_PER_SGL_BLOCK = 0 := by
      unfold ME6_PAGES_PER_SGL_BLOCK at *
      omega
    have hidx : n % ME6_PAGES_PER_SGL_BLOCK ≠ j % ME6_PAGES_PER_SGL_BLOCK := by
      unfold ME6_PAGES_PER_SGL_BLOCK at *
      omega
    rw [hb, Function.update_self, hput, readStreamEntry_put_other hidx, openBlock, if_neg hold]
  · rw [Function.update_of_ne hb, openBlock_data hb]

theorem setStreamEntry_wrote (hg : g.FitsLayout dir) :
    (setStreamEntry sgl (openBlock sgl pages mem n) (n / ME6_PAGES_PER_SGL_BLOCK)
      (n % ME6_PAGES_PER_SGL_BLOCK) g).read dir n = { g with last := g.last && dir.flagged } := by
  rw [SglMemory.read]
  simp only [setStreamEntry]
  rw [Function.update_self, hput, readStreamEntry_put _ _ hg]

/-- One round of the loop. -/
theorem Fills.entry (hg : g.FitsLayout dir)
    (hdecode : decodeStreamEntry dir payload g = ⟨getBusAddress pages v, len⟩)
    (hlen : 0 < len) (hpage : v % PAGE_SIZE + len ≤ PAGE_SIZE) :
    Fills dir sgl pages payload n v mem [{ g with last := g.last && dir.flagged }]
      (setStreamEntry sgl (openBlock sgl pages mem n) (n / ME6_PAGES_PER_SGL_BLOCK)
        (n % ME6_PAGES_PER_SGL_BLOCK) g) (v + len) where
  kept := fun j hj => setStreamEntry_kept hput hj
  wrote := by
    intro j g' hg'
    obtain ⟨rfl, rfl⟩ : j = 0 ∧ { g with last := g.last && dir.flagged } = g' := by
      cases j with
      | zero => exact ⟨rfl, Option.some.inj hg'⟩
      | succ j => cases hg'
    exact setStreamEntry_wrote hput hg
  covers := by
    have haddr := congrArg DmaSegment.addr hdecode
    have hsize := congrArg DmaSegment.len hdecode
    simp only [decodeStreamEntry] at haddr hsize
    simp only [List.map_cons, List.map_nil, CoversBuffer, decodeStreamEntry, haddr]
    rw [haddr] at hsize
    rw [hsize]
    exact ⟨trivial, hlen, hpage, rfl⟩
  linked := by
    intro b hb hlow hhigh
    rw [List.length_singleton] at hhigh
    have hn : n = 5 * b := by omega
    have hother : b - 1 ≠ n / ME6_PAGES_PER_SGL_BLOCK := by
      unfold ME6_PAGES_PER_SGL_BLOCK
      omega
    simp only [setStreamEntry]
    rw [Function.update_of_ne hother, openBlock_linked hb hn]
  linksKept := by
    intro b hb hno
    rw [List.length_singleton] at hno
    have hopen : ((openBlock sgl pages mem n).blocks b).next = (mem.blocks b).next :=
      openBlock_next hb (by omega)
    rw [← hopen]
    simp only [setStreamEntry]
    by_cases hsame : b = n / ME6_PAGES_PER_SGL_BLOCK
    · rw [hsame, Function.update_self, hput]
    · rw [Function.update_of_ne hsame]
  recorded := by
    obtain ⟨new, hnew, hinside⟩ := openBlock_written sgl pages mem n
    refine ⟨new ++ [.entry (n / 5) (n % 5)], ?_, fun w hw => ?_, fun j hj => ?_⟩
    · simp only [setStreamEntry, hnew, List.append_assoc]
      rfl
    · rw [List.length_singleton]
      rcases List.mem_append.mp hw with hw | hw
      · have hblock := hinside w hw
        unfold ME6_PAGES_PER_SGL_BLOCK at hblock
        omega
      · rw [List.mem_singleton.mp hw, SglWrite.block]
        omega
    · obtain rfl : j = 0 := by
        rw [List.length_singleton] at hj
        omega
      exact List.mem_append_right _ List.mem_cons_self

end Entry

/-! ### One batch -/

variable {blockMemory numBlocks : Nat}

/-- The loop writes the rest of the batch and comes to its end. -/
theorem fillBlocksLoop_fills (hk : 7 ≤ k ∧ k ≤ dir.sizeBits + 2) (isLastBatch : Bool) {fuel remaining : Nat}
    (hfuel : remaining ≤ fuel) (hv : 4 ∣ v) (hr : 4 ∣ remaining) :
    ∃ gs mem', fillBlocksLoop (menMe6sglInit dir (getBusAddress pages) blockMemory numBlocks (2 ^ k)) pages
        isLastBatch (v + remaining) fuel mem n v remaining = some (n + gs.length, mem') ∧
      Fills dir (menMe6sglInit dir (getBusAddress pages) blockMemory numBlocks (2 ^ k)) pages
        (2 ^ k) n v mem gs
        mem' (v + remaining) ∧
      gs.length = pagesTouched v remaining ∧ FlaggedAtEnd (isLastBatch && dir.flagged) gs := by
  generalize hsgl : menMe6sglInit dir (getBusAddress pages) blockMemory numBlocks (2 ^ k) = sgl
  have hput : ∀ b i g, sgl.putEntry b i g = { b with data := putStream dir b.data i g } := by
    rw [← hsgl]
    exact menMe6sgl_putEntry dir
  have htsize : sgl.maxPciTransferSize = 2 ^ k := by rw [← hsgl, menMe6sglInit_transferSize]
  have hbits : sgl.bitsInLastTransferSizeField = dir.sizeBits := by rw [← hsgl, menMe6sglInit_bits]
  induction fuel generalizing mem n v remaining with
  | zero =>
    obtain rfl := Nat.le_zero.mp hfuel
    exact ⟨[], mem, by simp [fillBlocksLoop], Fills.nil, rfl, trivial⟩
  | succ fuel ih =>
    rcases Nat.eq_zero_or_pos remaining with rfl | hpos
    · exact ⟨[], mem, by simp [fillBlocksLoop], Fills.nil, rfl, trivial⟩
    · have hprepare := prepareSglBlock_eq hk.1 pages v remaining
      have htouched := pagesTouched_step (v := v) hpos
      generalize hlen : min (PAGE_SIZE - v % PAGE_SIZE) remaining = len at hprepare htouched
      have hoff4 : 4 ∣ v % PAGE_SIZE := (Nat.dvd_mod_iff (by decide)).mpr hv
      have hoff : v % PAGE_SIZE < PAGE_SIZE := Nat.mod_lt _ (by decide)
      have hpage4 : 4 ∣ PAGE_SIZE := by decide
      have hlen4 : 4 ∣ len := by omega
      obtain ⟨hfits, hdecode⟩ := streamGroup_spec hk pages hv hlen4 (by omega : 0 < len)
        (by omega : v % PAGE_SIZE + len ≤ PAGE_SIZE) (isLastBatch && decide (remaining - len = 0))
      generalize hgroup : PageGroup.mk (getBusAddress pages v)
        (menGeneratePageGroupSize (getBusAddress pages v &&& 0xfff).toNat len (2 ^ k) dir.sizeBits).2
        (isLastBatch && decide (remaining - len = 0)) = group at *
      have hentry : Fills dir sgl pages (2 ^ k) n v mem [{ group with last := group.last && dir.flagged }]
          (setStreamEntry sgl (openBlock sgl pages mem n) (n / ME6_PAGES_PER_SGL_BLOCK)
            (n % ME6_PAGES_PER_SGL_BLOCK) group) (v + len) :=
        Fills.entry hput hfits hdecode (by omega) (by omega)
      obtain ⟨gs, mem', hrun, hfill, hcount, hflag⟩ :=
        @ih (v + len) (setStreamEntry sgl (openBlock sgl pages mem n) (n / ME6_PAGES_PER_SGL_BLOCK)
          (n % ME6_PAGES_PER_SGL_BLOCK) group) (n + 1) (remaining - len) (by omega) (by omega) (by omega)
      have hend : v + len + (remaining - len) = v + remaining := by omega
      rw [hend] at hrun hfill
      subst hgroup
      refine ⟨_ :: gs, mem', ?_, hentry.trans hfill, ?_, ?_, hflag⟩
      · rw [fillBlocksLoop, if_pos (by omega)]
        simp only [htsize, hbits, hprepare]
        rw [List.length_cons, show n + (gs.length + 1) = n + 1 + gs.length by omega]
        exact hrun
      · rw [List.length_cons, hcount, htouched, Nat.add_comm]
      · have hempty : gs.isEmpty = decide (remaining - len = 0) := by
          rw [Bool.eq_iff_iff, List.isEmpty_iff_length_eq_zero, hcount, pagesTouched_eq_zero,
            decide_eq_true_eq]
        rw [hempty, Bool.and_assoc, Bool.and_assoc, Bool.and_comm dir.flagged]

theorem fillBlocks_fills (pages : Nat → BitVec 52) (blockMemory numBlocks n : Nat) (mem : SglMemory)
    (hk : 7 ≤ k ∧ k ≤ dir.sizeBits + 2) {batchLength : Nat} (isLastBatch : Bool)
    (hv : 4 ∣ v) (hlength : 4 ∣ batchLength) :
    ∃ gs mem', (menMe6sglInit dir (getBusAddress pages) blockMemory numBlocks (2 ^ k)).fillBlocks pages mem n
        batchLength v isLastBatch = some (n + gs.length, mem') ∧
      Fills dir (menMe6sglInit dir (getBusAddress pages) blockMemory numBlocks (2 ^ k)) pages
        (2 ^ k) n v mem gs
        mem' (v + batchLength) ∧
      gs.length = pagesTouched v batchLength ∧ FlaggedAtEnd (isLastBatch && dir.flagged) gs :=
  fillBlocksLoop_fills hk isLastBatch (Nat.le_refl _) hv hlength

/-! ### All batches -/

theorem fillBatches_fills (pages : Nat → BitVec 52) (blockMemory numBlocks n : Nat) (mem : SglMemory)
    (hk : 7 ≤ k ∧ k ≤ dir.sizeBits + 2) {batches : List SglBatch} (hv : 4 ∣ v)
    (hbatches : ∀ batch ∈ batches, 4 ∣ batch.length) :
    ∃ gss mem', fillBatches (menMe6sglInit dir (getBusAddress pages) blockMemory numBlocks (2 ^ k))
      pages mem n v
        batches = some (n + gss.flatten.length, mem') ∧
      Fills dir (menMe6sglInit dir (getBusAddress pages) blockMemory numBlocks (2 ^ k)) pages (2 ^ k) n v mem
        gss.flatten mem' (v + totalBatches batches) ∧
      gss.flatten.length = totalEntries v batches ∧
      List.Forall₂ (fun batch gs => FlaggedAtEnd (batch.isLast && dir.flagged) gs) batches gss := by
  induction batches generalizing mem n v with
  | nil => exact ⟨[], mem, rfl, Fills.nil, rfl, .nil⟩
  | cons batch batches ih =>
    have hlength := hbatches batch List.mem_cons_self
    obtain ⟨gs, mem₁, hrun, hfill, hcount, hflag⟩ :=
      fillBlocks_fills pages blockMemory numBlocks n mem hk batch.isLast hv hlength
    obtain ⟨gss, mem', hrest, hfills, hcounts, hflags⟩ :=
      @ih (v + batch.length) (n + gs.length) mem₁ (by omega) fun batch' h =>
        hbatches batch' (List.mem_cons_of_mem _ h)
    refine ⟨gs :: gss, mem', ?_, ?_, ?_, .cons hflag hflags⟩
    · simp only [fillBatches, hrun, hrest, List.flatten_cons, List.length_append, Nat.add_assoc]
    · rw [List.flatten_cons, totalBatches, List.map_cons, List.sum_cons, ← Nat.add_assoc]
      exact hfill.trans hfills
    · rw [List.flatten_cons, List.length_append, totalEntries, hcount, hcounts]

/-- The entries of all batches are the buffer. -/
theorem fillBatches_covers (dir : SglDirection) (pages : Nat → BitVec 52) (blockMemory numBlocks k v n : Nat)
    (mem : SglMemory) (batches : List SglBatch) (hk : 7 ≤ k ∧ k ≤ dir.sizeBits + 2) (hv : 4 ∣ v)
    (hbatches : ∀ batch ∈ batches, 4 ∣ batch.length)
    (hblocks : n + totalEntries v batches ≤ ME6_PAGES_PER_SGL_BLOCK * numBlocks) :
    ∃ (gss : List (List PageGroup)) (mem' : SglMemory),
      fillBatches (menMe6sglInit dir (getBusAddress pages) blockMemory numBlocks (2 ^ k)) pages mem
        n v batches =
        some (n + gss.flatten.length, mem') ∧
      (List.range gss.flatten.length).map (fun j => mem'.read dir (n + j)) = gss.flatten ∧
      CoversBuffer pages v (gss.flatten.map (decodeStreamEntry dir (2 ^ k))) (v + totalBatches batches) ∧
      List.Forall₂ (fun batch gs => FlaggedAtEnd (batch.isLast && dir.flagged) gs) batches gss ∧
      (∀ j < n, mem'.read dir j = mem.read dir j) ∧
      (∀ b, 0 < b → n ≤ ME6_PAGES_PER_SGL_BLOCK * b → ME6_PAGES_PER_SGL_BLOCK * b < n + gss.flatten.length →
        (mem'.blocks (b - 1)).next = nextPointer (getBusAddress pages (blockMemory + 64 * b))) ∧
      ∃ new, mem'.written = mem.written ++ new ∧ ∀ w ∈ new, w.block < numBlocks := by
  obtain ⟨gss, mem', hrun, hfill, hcount, hflags⟩ :=
    fillBatches_fills pages blockMemory numBlocks n mem hk hv hbatches
  obtain ⟨new, hnew, hinside, _⟩ := hfill.recorded
  refine ⟨gss, mem', hrun, ?_, hfill.covers, hflags, hfill.kept, fun b hb hlow hhigh => ?_, new, hnew, ?_⟩
  · refine List.ext_getElem (by simp) fun j hj hj' => ?_
    rw [List.getElem_map, List.getElem_range]
    exact hfill.wrote j _ (List.getElem?_eq_getElem hj')
  · rw [hfill.linked b hb hlow hhigh, blockBusAddress, menMe6sglInit_blocks]
  · intro w hw
    have hblock := hinside w hw
    unfold ME6_PAGES_PER_SGL_BLOCK at hblocks
    omega

/-- The second batch goes on inside the page. -/
theorem fillBatches_covers_two :
    ∃ (gss : List (List PageGroup)) (mem' : SglMemory),
      fillBatches (menMe6sglInit .dev2pc (getBusAddress fun page => BitVec.ofNat 52 (page + 3))
        0x8000 1 (2 ^ 8))
        (fun page => BitVec.ofNat 52 (page + 3)) ⟨fun _ => {}, []⟩ 0 0x1ff0
        [⟨0x1004, false⟩, ⟨0x100, true⟩] = some (0 + gss.flatten.length, mem') ∧
      CoversBuffer (fun page => BitVec.ofNat 52 (page + 3)) 0x1ff0
        (gss.flatten.map (decodeStreamEntry .dev2pc (2 ^ 8))) 0x30f4 := by
  obtain ⟨gss, mem', hrun, _, hcovers, _⟩ := fillBatches_covers .dev2pc
    (fun page => BitVec.ofNat 52 (page + 3)) 0x8000 1 8 0x1ff0 0 ⟨fun _ => {}, []⟩
    [⟨0x1004, false⟩, ⟨0x100, true⟩] (by decide) (by decide) (by decide) (by decide)
  exact ⟨gss, mem', hrun, hcovers⟩

end MenableDriver
