import MenableDriver.Sgl.Chain

/-!
# Scatter-gather lists from memory descriptors

`men_create_sgl_v2` joins descriptors that follow each other on the bus, as far as one entry
reaches, and writes one entry for each of the joined chunks. A block is linked when the first
entry of the next one is due. A descriptor that is longer than a page only gives a warning.
-/

namespace MenableDriver

set_option autoImplicit false

structure MenDmaMemDescriptor where
  physicalAddress : BitVec 64
  length : BitVec 32

def maxChunkSize (pciPayloadSize : Nat) : Nat := 2 ^ 15 * pciPayloadSize

/-- After a wrap around, the page is not adjacent. -/
def Joins (pciPayloadSize : Nat) (physAddr : BitVec 64) (chunkSize : Nat) (d : MenDmaMemDescriptor) : Prop :=
  d.physicalAddress = physAddr + BitVec.ofNat 64 chunkSize ∧ physAddr + BitVec.ofNat 64 chunkSize > physAddr ∧
    chunkSize + d.length.toNat ≤ maxChunkSize pciPayloadSize

instance (pciPayloadSize : Nat) (physAddr : BitVec 64) (chunkSize : Nat) (d : MenDmaMemDescriptor) :
    Decidable (Joins pciPayloadSize physAddr chunkSize d) :=
  inferInstanceAs (Decidable (_ ∧ _ ∧ _))

/-- The inner loop: the size of the chunk and the descriptors behind it. -/
def takeAdjacent (pciPayloadSize : Nat) (physAddr : BitVec 64) :
    Nat → List MenDmaMemDescriptor → Nat × List MenDmaMemDescriptor
  | chunkSize, [] => (chunkSize, [])
  | chunkSize, d :: rest =>
    if Joins pciPayloadSize physAddr chunkSize d then
      takeAdjacent pciPayloadSize physAddr (chunkSize + d.length.toNat) rest
    else (chunkSize, d :: rest)

def linkPrevious (phys : Nat → BitVec 64) (blocks : Nat → SglBlock)
    (currentSglBlock currentSglBlockEntry : Nat) :
    Nat → SglBlock :=
  if currentSglBlockEntry = 0 ∧ 0 < currentSglBlock then
    Function.update blocks (currentSglBlock - 1)
      { blocks (currentSglBlock - 1) with next := (phys currentSglBlock >>> 1) ||| 1 }
  else blocks

/-- Every round takes at least one descriptor. -/
def createSglLoop (pciPayloadSize : Nat) (phys : Nat → BitVec 64) :
    Nat → List MenDmaMemDescriptor → (Nat → SglBlock) → Nat → Nat → (Nat → SglBlock) × Nat
  | rounds + 1, d :: ds, blocks, currentSglBlock, currentSglBlockEntry =>
    let blocks := linkPrevious phys blocks currentSglBlock currentSglBlockEntry
    let physAddr := d.physicalAddress
    let (chunkSize, rest) := takeAdjacent pciPayloadSize physAddr d.length.toNat ds
    let pageGroupAddress := physAddr >>> 2
    let pageGroupSize := BitVec.ofNat 64 (computeGroupSize physAddr.toNat chunkSize pciPayloadSize)
    let isLast := rest.isEmpty
    let block := setSglBlockEntry (blocks currentSglBlock) currentSglBlockEntry pageGroupAddress
      pageGroupSize isLast
    let blocks := Function.update blocks currentSglBlock block
    let currentSglBlockEntry := (currentSglBlockEntry + 1) % SGL_ENTRIES_PER_BLOCK
    createSglLoop pciPayloadSize phys rounds rest blocks
      (if currentSglBlockEntry = 0 then currentSglBlock + 1 else currentSglBlock) currentSglBlockEntry
  | _, _, blocks, currentSglBlock, _ => (blocks, currentSglBlock)

/-- The blocks and the number of them that is returned. -/
def menCreateSglV2 (memDescriptors : List MenDmaMemDescriptor) (pciPayloadSize : Nat)
    (sglBlocks : Nat → SglBlock)
    (sglBlockPhysAddresses : Nat → BitVec 64) : (Nat → SglBlock) × Nat :=
  let (blocks, currentSglBlock) :=
    createSglLoop pciPayloadSize sglBlockPhysAddresses memDescriptors.length memDescriptors sglBlocks 0 0
  (blocks, currentSglBlock + 1)

/-! ### The chunks -/

/-- The chunk in work and the ones behind it. -/
def joinFrom (payload : Nat) (physAddr : BitVec 64) : Nat → List MenDmaMemDescriptor → List DmaSegment
  | chunkSize, [] => [⟨physAddr, chunkSize⟩]
  | chunkSize, d :: ds =>
    if Joins payload physAddr chunkSize d then joinFrom payload physAddr (chunkSize + d.length.toNat) ds
    else ⟨physAddr, chunkSize⟩ :: joinFrom payload d.physicalAddress d.length.toNat ds

def chunks (payload : Nat) : List MenDmaMemDescriptor → List DmaSegment
  | [] => []
  | d :: ds => joinFrom payload d.physicalAddress d.length.toNat ds

/-- The bytes of a piece of memory, in order. -/
def DmaSegment.bytes (sg : DmaSegment) : List (BitVec 64) :=
  (List.range sg.len).map fun j => sg.addr + BitVec.ofNat 64 j

def MenDmaMemDescriptor.segment (d : MenDmaMemDescriptor) : DmaSegment := ⟨d.physicalAddress, d.length.toNat⟩

def memory (segs : List DmaSegment) : List (BitVec 64) := segs.flatMap (·.bytes)

variable {payload : Nat} {ds : List MenDmaMemDescriptor} {physAddr : BitVec 64} {chunkSize : Nat}

theorem bytes_add (a : BitVec 64) (m n : Nat) :
    DmaSegment.bytes ⟨a, m + n⟩ = DmaSegment.bytes ⟨a, m⟩ ++ DmaSegment.bytes ⟨a + BitVec.ofNat 64 m, n⟩ := by
  unfold DmaSegment.bytes
  rw [List.range_add, List.map_append, List.map_map]
  congr 1
  apply List.map_congr_left
  intro j _
  rw [Function.comp_apply, BitVec.ofNat_add, BitVec.add_assoc]

theorem memory_cons (sg : DmaSegment) (segs : List DmaSegment) : memory (sg :: segs) =
    sg.bytes ++ memory segs :=
  List.flatMap_cons ..

/-- Joining loses no byte and keeps the order. -/
theorem memory_joinFrom (payload : Nat) (physAddr : BitVec 64) (chunkSize : Nat)
    (ds : List MenDmaMemDescriptor) :
    memory (joinFrom payload physAddr chunkSize ds) =
      DmaSegment.bytes ⟨physAddr, chunkSize⟩ ++ memory (ds.map (·.segment)) := by
  induction ds generalizing physAddr chunkSize with
  | nil => rfl
  | cons d ds ih =>
    rw [joinFrom, List.map_cons, memory_cons]
    split
    · rename_i hjoin
      rw [ih, bytes_add, List.append_assoc, ← hjoin.1]
      rfl
    · rw [memory_cons, ih]
      rfl

theorem memory_chunks (payload : Nat) (ds : List MenDmaMemDescriptor) :
    memory (chunks payload ds) = memory (ds.map (·.segment)) := by
  cases ds with
  | nil => rfl
  | cons d ds => exact memory_joinFrom payload d.physicalAddress d.length.toNat ds

/-- The inner loop ends with a chunk. -/
theorem joinFrom_eq (payload : Nat) (physAddr : BitVec 64) (chunkSize : Nat) (ds : List MenDmaMemDescriptor) :
    joinFrom payload physAddr chunkSize ds =
      ⟨physAddr, (takeAdjacent payload physAddr chunkSize ds).1⟩ ::
        chunks payload (takeAdjacent payload physAddr chunkSize ds).2 := by
  induction ds generalizing chunkSize with
  | nil => rfl
  | cons d ds ih =>
    rw [joinFrom, takeAdjacent]
    split
    · exact ih _
    · rfl

theorem takeAdjacent_length (payload : Nat) (physAddr : BitVec 64) (chunkSize : Nat)
    (ds : List MenDmaMemDescriptor) :
    (takeAdjacent payload physAddr chunkSize ds).2.length ≤ ds.length := by
  induction ds generalizing chunkSize with
  | nil => exact Nat.le_refl 0
  | cons d ds ih =>
    rw [takeAdjacent]
    split
    · exact Nat.le_succ_of_le (ih _)
    · exact Nat.le_refl _

theorem chunks_isEmpty (payload : Nat) (ds : List MenDmaMemDescriptor) : (chunks payload ds).isEmpty =
    ds.isEmpty := by
  cases ds with
  | nil => rfl
  | cons d ds => rw [chunks, joinFrom_eq]; rfl

/-! ### The loop packs the chunks -/

def chunkSizeField (payload : Nat) (sg : DmaSegment) : Nat := computeGroupSize sg.addr.toNat sg.len payload

/-- The outer loop without the joining. -/
def fillBlocks (phys : Nat → BitVec 64) : List PageGroup → (Nat → SglBlock) → Nat → Nat →
    (Nat → SglBlock) × Nat
  | [], blocks, k, _ => (blocks, k)
  | g :: gs, blocks, k, i =>
    let linked := linkPrevious phys blocks k i
    let filled := Function.update linked k (putGroup (linked k) i g)
    if i + 1 = SGL_ENTRIES_PER_BLOCK then fillBlocks phys gs filled (k + 1) 0 else fillBlocks phys gs
      filled k (i + 1)

theorem computeGroupSize_lt (addr len payload : Nat) : computeGroupSize addr len payload < 2 ^ 23 := by
  simp only [computeGroupSize, fields_eq]
  exact encodeGroupSize_lt _ _

theorem setSglBlockEntry_put (b : SglBlock) (i : Nat) (addr : BitVec 64) {size : Nat} (last : Bool)
    (hsize : size < 2 ^ 23) :
    setSglBlockEntry b i (addr >>> 2) (BitVec.ofNat 64 size) last =
      putGroup b i ⟨addr, BitVec.ofNat 32 size, last⟩ := by
  have hwidth : BitVec.ofNat 64 size = (BitVec.ofNat 32 size).setWidth 64 := by
    apply BitVec.eq_of_toNat_eq
    simp only [BitVec.toNat_ofNat, BitVec.toNat_setWidth]
    omega
  have hfits : Fits ((BitVec.ofNat 32 size).setWidth 64) 23 := by
    intro j hj
    rw [← hwidth, BitVec.getLsbD_ofNat, Nat.testBit_lt_two_pow (Nat.lt_of_lt_of_le hsize (Nat.pow_le_pow_right (by decide) hj)),
      Bool.and_false]
  rw [hwidth, setSglBlockEntry_eq b i addr last hfits]
  rfl

theorem createSglLoop_eq {phys : Nat → BitVec 64} {rounds : Nat} {blocks : Nat → SglBlock} {k i : Nat}
    (hr : ds.length ≤ rounds) (hi : i < SGL_ENTRIES_PER_BLOCK) :
    createSglLoop payload phys rounds ds blocks k i =
      fillBlocks phys (groupsOf (chunkSizeField payload) (chunks payload ds)) blocks k i := by
  induction rounds generalizing ds blocks k i with
  | zero =>
    obtain rfl := List.length_eq_zero_iff.mp (Nat.le_zero.mp hr)
    rfl
  | succ rounds ih =>
    cases ds with
    | nil => rfl
    | cons d ds =>
      have hrest := takeAdjacent_length payload d.physicalAddress d.length.toNat ds
      rw [List.length_cons] at hr
      rw [createSglLoop, chunks, joinFrom_eq, groupsOf, fillBlocks]
      simp only [chunks_isEmpty, chunkSizeField, setSglBlockEntry_put _ _ _ _ (computeGroupSize_lt _ _ _)]
      by_cases hfull : i + 1 = SGL_ENTRIES_PER_BLOCK
      · have hmod : (i + 1) % SGL_ENTRIES_PER_BLOCK = 0 := by rw [hfull, Nat.mod_self]
        rw [if_pos hfull, hmod, if_pos rfl]
        exact ih (by omega) (by decide)
      · have hmod : (i + 1) % SGL_ENTRIES_PER_BLOCK = i + 1 := Nat.mod_eq_of_lt (by omega)
        rw [if_neg hfull, hmod, if_neg (Nat.succ_ne_zero i)]
        exact ih (by omega) (by omega)

variable {phys : Nat → BitVec 64} {blocks : Nat → SglBlock} {gs : List PageGroup}

theorem linkPrevious_other {j k i : Nat} (h : k ≤ j) : linkPrevious phys blocks k i j = blocks j := by
  rw [linkPrevious]
  split
  · exact Function.update_of_ne (by omega) _ _
  · rfl

theorem linkPrevious_inside {j k i : Nat} : linkPrevious phys blocks k (i + 1) j = blocks j := by
  rw [linkPrevious, if_neg (fun h => absurd h.1 (Nat.succ_ne_zero i))]

/-- Behind the block in work nothing is written yet; in front of it only the link of the
block before is due. -/
theorem fillBlocks_pack (phys : Nat → BitVec 64) {k i : Nat} (hne : gs ≠ []) (hi : i < SGL_ENTRIES_PER_BLOCK)
    (hempty : ∀ j, k < j → blocks j = {}) :
    (∃ n, pack phys gs k (blocks k) i =
      (List.range' k n).map fun j => ⟨phys j, (fillBlocks phys gs blocks k i).1 j⟩) ∧
    (fillBlocks phys gs blocks k i).2 = k + (i + gs.length) / SGL_ENTRIES_PER_BLOCK ∧
    ∀ j < k, (fillBlocks phys gs blocks k i).1 j = linkPrevious phys blocks k i j := by
  induction gs generalizing blocks k i with
  | nil => exact absurd rfl hne
  | cons g gs ih =>
    rw [pack, fillBlocks]
    simp only
    rw [linkPrevious_other (Nat.le_refl k)]
    generalize hfilled : Function.update (linkPrevious phys blocks k i) k (putGroup (blocks k) i g) = filled
    have hself : filled k = putGroup (blocks k) i g := by rw [← hfilled, Function.update_self]
    have hother : ∀ j, j ≠ k → filled j = linkPrevious phys blocks k i j := by
      intro j hj
      rw [← hfilled, Function.update_of_ne hj]
    have hempty' : ∀ j, k < j → filled j = {} := by
      intro j hj
      rw [hother j (by omega), linkPrevious_other (by omega), hempty j hj]
    by_cases hend : gs = []
    · subst hend
      refine ⟨⟨1, ?_⟩, ?_, ?_⟩
      · rw [if_neg (fun h => h.2 rfl), pack, ← hself]
        split <;> rfl
      · unfold SGL_ENTRIES_PER_BLOCK at *
        split <;> simp only [fillBlocks, List.length_singleton] <;> omega
      · intro j hj
        rw [← hother j (by omega)]
        split <;> rfl
    · by_cases hfull : i + 1 = SGL_ENTRIES_PER_BLOCK
      · obtain ⟨⟨n, hpack⟩, hcount, hframe⟩ := @ih filled (k + 1) 0 hend (by decide)
          fun j hj => hempty' j (by omega)
        rw [if_pos ⟨hfull, hend⟩, if_pos hfull]
        refine ⟨⟨n + 1, ?_⟩, ?_, ?_⟩
        · have hk := hframe k (Nat.lt_succ_self k)
          rw [linkPrevious, if_pos ⟨rfl, Nat.succ_pos k⟩, Nat.add_sub_cancel, Function.update_self, hself]
            at hk
          rw [List.range'_succ, List.map_cons, ← hpack, hempty' (k + 1) (Nat.lt_succ_self k), hk]
          rfl
        · rw [hcount, List.length_cons]
          unfold SGL_ENTRIES_PER_BLOCK at *
          omega
        · intro j hj
          rw [hframe j (by omega), ← hother j (by omega), linkPrevious, if_pos ⟨rfl, Nat.succ_pos k⟩,
            Nat.add_sub_cancel, Function.update_of_ne (by omega)]
      · obtain ⟨⟨n, hpack⟩, hcount, hframe⟩ := @ih filled k (i + 1) hend (by omega) hempty'
        rw [if_neg (fun h => hfull h.1), if_neg hfull]
        refine ⟨⟨n, ?_⟩, ?_, ?_⟩
        · rw [← hself, hpack]
        · rw [hcount, List.length_cons, Nat.add_right_comm, Nat.add_assoc]
        · intro j hj
          rw [hframe j hj, linkPrevious_inside, hother j (by omega)]

/-! ### When the list is right -/

/-- The chunk has a length, is counted from the start of a payload or reaches over its end,
and needs no more transfers than there can be. -/
def ChunkFits (payload : Nat) (sg : DmaSegment) : Prop :=
  0 < sg.len ∧ (sg.addr.toNat % payload = 0 ∨ payload < sg.addr.toNat % payload + sg.len) ∧
    sg.addr.toNat % payload + sg.len ≤ maxChunkSize payload

instance (payload : Nat) (sg : DmaSegment) : Decidable (ChunkFits payload sg) :=
  inferInstanceAs (Decidable (_ ∧ _ ∧ _))

theorem decodedLength_pos (offset groupSize payload : Nat) : 0 < decodedLength offset groupSize payload := by
  have hwords : 0 < decodedWords groupSize := by
    unfold decodedWords
    split <;> omega
  unfold decodedLength
  split <;> omega

theorem decodedTransfers_over (w : Nat) : decodedTransfers (encodeGroupSize (2 ^ 15 + 1) w) = 1 := by
  rw [decodedTransfers, encodeGroupSize, Nat.add_mul_mod_self_right, Nat.mod_mod]
  rfl

/-- A single transfer is counted from the start of its payload, and a count over the maximum
starts again with one. -/
theorem chunk_decode_iff {addr len k : Nat} (hk : 7 ≤ k ∧ k ≤ 10) (haddr : 4 ∣ addr) (hlen4 : 4 ∣ len)
    (hmax : len ≤ maxChunkSize (2 ^ k)) :
    decodedLength addr (computeGroupSize addr len (2 ^ k)) (2 ^ k) = len ↔
      0 < len ∧ (addr % 2 ^ k = 0 ∨ 2 ^ k < addr % 2 ^ k + len) ∧ addr % 2 ^ k + len ≤ maxChunkSize
        (2 ^ k) := by
  by_cases hlen : 0 < len
  · have hp : 0 < 2 ^ k := Nat.two_pow_pos k
    have hp4 : 4 ∣ 2 ^ k := Nat.pow_dvd_pow 2 (by omega : 2 ≤ k)
    have hp10 : 2 ^ k ≤ 1024 := Nat.pow_le_pow_right (by decide) hk.2
    have hoff : addr % 2 ^ k < 2 ^ k := Nat.mod_lt _ hp
    have hoff4 : 4 ∣ addr % 2 ^ k := (Nat.dvd_mod_iff hp4).mpr haddr
    obtain ⟨htpos, hlow, hhigh⟩ := transfers_spec addr hp hlen
    have hmul4 : 4 ∣ (transfers addr len (2 ^ k) - 1) * 2 ^ k := Nat.dvd_mul_left_of_dvd hp4 _
    have hlast : alignedLast addr len (2 ^ k) =
        addr % 2 ^ k + len - (transfers addr len (2 ^ k) - 1) * 2 ^ k := rfl
    unfold maxChunkSize at hmax ⊢
    rw [computeGroupSize_eq addr rfl hlen (by omega), decodedLength, decodedWords_encode _ (by omega),
      if_neg (by omega : ¬ alignedLast addr len (2 ^ k) / 4 = 0)]
    by_cases ht : transfers addr len (2 ^ k) ≤ 2 ^ 15
    · rw [decodedTransfers_encode htpos ht]
      rcases transfers_sum addr hp hlen with ⟨hone, _, hfit⟩ | ⟨htwo, hcross, _⟩
      · rw [if_pos hone]
        rw [hone] at hlast
        omega
      · obtain ⟨t, hteq⟩ : ∃ t, transfers addr len (2 ^ k) =
          t + 2 := ⟨transfers addr len (2 ^ k) - 2, by omega⟩
        have hbound : (t + 2) * 2 ^ k ≤ 2 ^ 15 * 2 ^ k := Nat.mul_le_mul_right _ (by omega)
        rw [hteq] at hlast hlow hhigh hmul4 ⊢
        rw [if_neg (by omega), Nat.add_sub_cancel]
        have hsub : t + 2 - 1 = t + 1 := rfl
        rw [hsub, Nat.succ_mul] at hlast hlow hhigh hmul4
        rw [Nat.add_mul] at hbound
        omega
    · have hover : 2 ^ 15 * 2 ^ k ≤ (transfers addr len (2 ^ k) - 1) * 2 ^ k :=
        Nat.mul_le_mul_right _ (by omega)
      have hcount : transfers addr len (2 ^ k) = 2 ^ 15 + 1 := by
        have hlt : (transfers addr len (2 ^ k) - 1) * 2 ^ k < (2 ^ 15 + 1) * 2 ^ k := by
          rw [Nat.add_mul]
          omega
        have := Nat.lt_of_mul_lt_mul_right hlt
        omega
      have hone : decodedTransfers (encodeGroupSize (transfers addr len (2 ^ k))
          (alignedLast addr len (2 ^ k) / 4)) = 1 := by
        rw [hcount]
        exact decodedTransfers_over _
      have hfar : ¬ addr % 2 ^ k + len ≤ 2 ^ 15 * 2 ^ k := by omega
      have hshort : alignedLast addr len (2 ^ k) / 4 * 4 ≠ len := by omega
      rw [if_pos hone]
      exact ⟨fun h => absurd h hshort, fun h => absurd h.2.2 hfar⟩
  · have hpos := decodedLength_pos addr (computeGroupSize addr len (2 ^ k)) (2 ^ k)
    omega

/-- What the loop may count on: whole words, each descriptor inside one page. -/
def MenDmaMemDescriptor.InPage (d : MenDmaMemDescriptor) : Prop :=
  4 ∣ d.physicalAddress.toNat ∧ 4 ∣ d.length.toNat ∧ d.physicalAddress.toNat % 4096 + d.length.toNat ≤ 4096

instance (d : MenDmaMemDescriptor) : Decidable d.InPage :=
  inferInstanceAs (Decidable (_ ∧ _ ∧ _))

theorem joinFrom_words (haddr : 4 ∣ physAddr.toNat) (hlen : 4 ∣ chunkSize)
    (hmax : chunkSize ≤ maxChunkSize payload)
    (hds : ∀ d ∈ ds, d.InPage) (hp : 4096 ≤ maxChunkSize payload) :
    ∀ c ∈ joinFrom payload physAddr chunkSize ds, 4 ∣ c.addr.toNat ∧ 4 ∣ c.len ∧
      c.len ≤ maxChunkSize payload := by
  induction ds generalizing physAddr chunkSize with
  | nil =>
    intro c hc
    rw [List.mem_singleton.mp hc]
    exact ⟨haddr, hlen, hmax⟩
  | cons d ds ih =>
    obtain ⟨hd, hd4, hpage⟩ := hds d List.mem_cons_self
    have hrest : ∀ d' ∈ ds, d'.InPage := fun d' h => hds d' (List.mem_cons_of_mem _ h)
    intro c hc
    rw [joinFrom] at hc
    split at hc
    · rename_i hjoin
      exact ih haddr (Nat.dvd_add hlen hd4) hjoin.2.2 hrest c hc
    · rcases List.mem_cons.mp hc with rfl | hmem
      · exact ⟨haddr, hlen, hmax⟩
      · exact ih hd hd4 (by omega) hrest c hmem

theorem chunks_words (hds : ∀ d ∈ ds, d.InPage) (hp : 4096 ≤ maxChunkSize payload) :
    ∀ c ∈ chunks payload ds, 4 ∣ c.addr.toNat ∧ 4 ∣ c.len ∧ c.len ≤ maxChunkSize payload := by
  cases ds with
  | nil => exact fun c hc => absurd hc List.not_mem_nil
  | cons d ds =>
    obtain ⟨hd, hd4, hpage⟩ := hds d List.mem_cons_self
    exact joinFrom_words hd hd4 (by omega) (fun d' h => hds d' (List.mem_cons_of_mem _ h)) hp

/-- The blocks that the caller hands to the device. -/
def sglChain (phys : Nat → BitVec 64) (sgl : (Nat → SglBlock) × Nat) : List ChainNode :=
  (List.range sgl.2).map fun k => ⟨phys k, sgl.1 k⟩

/-- The entries that are read are the chunks and describe the descriptors' memory in order, the
last flag is on the final one only, and the number of blocks is as small as it can be. -/
def DescribesMemory (payload : Nat) (phys : Nat → BitVec 64) (ds : List MenDmaMemDescriptor) : Prop :=
  let sgl := menCreateSglV2 ds payload (fun _ => {}) phys
  ∃ gs, readChain (sglChain phys sgl) = some gs ∧ gs.map (decodeGroup payload) = chunks payload ds ∧
    memory (gs.map (decodeGroup payload)) = memory (ds.map (·.segment)) ∧ LastOnly gs ∧
    (sglChain phys sgl).IsChain (fun node next => node.block.next = nextPointer next.addr) ∧
    sgl.2 = (gs.length + 4) / 5

/-- The chunks' groups, as the loop makes them. -/
def chunkGroups (payload : Nat) (ds : List MenDmaMemDescriptor) : List PageGroup :=
  groupsOf (chunkSizeField payload) (chunks payload ds)

theorem menCreateSglV2_eq (payload : Nat) (phys : Nat → BitVec 64) (ds : List MenDmaMemDescriptor) :
    menCreateSglV2 ds payload (fun _ => {}) phys =
      ((fillBlocks phys (chunkGroups payload ds) (fun _ => {}) 0 0).1,
        (fillBlocks phys (chunkGroups payload ds) (fun _ => {}) 0 0).2 + 1) := by
  rw [menCreateSglV2, createSglLoop_eq (Nat.le_refl _) (by decide)]
  rfl

/-- One block is counted too many when the last one is full. -/
theorem menCreateSglV2_count (payload : Nat) (phys : Nat → BitVec 64) (ds : List MenDmaMemDescriptor) :
    (menCreateSglV2 ds payload (fun _ => {}) phys).2 = (chunks payload ds).length / 5 + 1 := by
  have hlength : (chunkGroups payload ds).length = (chunks payload ds).length := groupsOf_length _ _
  rw [menCreateSglV2_eq]
  by_cases hne : chunkGroups payload ds = []
  · rw [← hlength, hne]
    rfl
  · obtain ⟨_, hcount, _⟩ := fillBlocks_pack phys (k := 0) (i := 0) hne (by decide) fun _ _ => rfl
    rw [← hlength, hcount, Nat.zero_add, Nat.zero_add]
    rfl

/-- Without a full last block, the blocks are the packed chunks. -/
theorem sglChain_pack (phys : Nat → BitVec 64) (henc : ∀ g ∈ chunkGroups payload ds, g.Encodable)
    (hcount : (chunks payload ds).length % 5 ≠ 0) :
    Packed (sglChain phys (menCreateSglV2 ds payload (fun _ => {}) phys)) (chunkGroups payload ds) := by
  have hlength : (chunkGroups payload ds).length = (chunks payload ds).length := groupsOf_length _ _
  have hne : chunkGroups payload ds ≠ [] := by
    intro hnil
    rw [← hlength, hnil] at hcount
    exact hcount rfl
  have hpacked : Packed (pack phys (chunkGroups payload ds) 0 {} 0) (chunkGroups payload ds) :=
    pack_packed filled_empty (by decide) henc (groupsOf_lastOnly _ _) hne
  have hblocks := menCreateSglV2_count payload phys ds
  obtain ⟨⟨n, hpack⟩, _, _⟩ := fillBlocks_pack phys (k := 0) (i := 0) hne (by decide) fun _ _ => rfl
  have hn : n = (menCreateSglV2 ds payload (fun _ => {}) phys).2 := by
    have hnodes := hpacked.length
    rw [hpack, List.length_map, List.length_range', hlength] at hnodes
    unfold SGL_ENTRIES_PER_BLOCK at hnodes
    omega
  rw [hpack, hn] at hpacked
  rw [sglChain, List.range_eq_range', menCreateSglV2_eq]
  rw [menCreateSglV2_eq] at hpacked
  exact hpacked

theorem chunkGroups_decode {k : Nat} (hk : 7 ≤ k ∧ k ≤ 10)
    (hwords : ∀ c ∈ chunks (2 ^ k) ds, 4 ∣ c.addr.toNat ∧ 4 ∣ c.len ∧ c.len ≤ maxChunkSize (2 ^ k)) :
    (chunkGroups (2 ^ k) ds).map (decodeGroup (2 ^ k)) = chunks (2 ^ k) ds ↔
      ∀ c ∈ chunks (2 ^ k) ds, ChunkFits (2 ^ k) c := by
  have hsize : ∀ sg, chunkSizeField (2 ^ k) sg < 2 ^ 23 := fun _ => computeGroupSize_lt _ _ _
  have hself : (chunks (2 ^ k) ds).map id = chunks (2 ^ k) ds := List.map_id _
  rw [chunkGroups, groupsOf_decode (2 ^ k) hsize]
  nth_rewrite 2 [← hself]
  rw [List.map_inj_left]
  refine forall₂_congr fun c hc => ?_
  obtain ⟨haddr, hlen4, hmax⟩ := hwords c hc
  refine Iff.trans ⟨fun h => congrArg DmaSegment.len h, fun h => ?_⟩ (chunk_decode_iff hk haddr hlen4 hmax)
  exact congrArg (DmaSegment.mk c.addr) h

/-- The list describes the descriptors' memory exactly when the last block is not full and
every chunk fits an entry. -/
theorem menCreateSglV2_describes_iff (phys : Nat → BitVec 64) (hphys : ∀ j, 4 ∣ (phys j).toNat) (k : Nat)
    (hk : 7 ≤ k ∧ k ≤ 10) (ds : List MenDmaMemDescriptor) (hds : ∀ d ∈ ds, d.InPage) :
    DescribesMemory (2 ^ k) phys ds ↔
      (chunks (2 ^ k) ds).length % 5 ≠ 0 ∧ ∀ c ∈ chunks (2 ^ k) ds, ChunkFits (2 ^ k) c := by
  have hpay : 2 ^ 7 ≤ 2 ^ k := Nat.pow_le_pow_right (by decide) hk.1
  have hwords := chunks_words hds (by unfold maxChunkSize; omega : 4096 ≤ maxChunkSize (2 ^ k))
  have henc : ∀ g ∈ chunkGroups (2 ^ k) ds, g.Encodable :=
    groupsOf_encodable (fun sg hsg => (hwords sg hsg).1) fun _ => computeGroupSize_lt _ _ _
  have hdecode := chunkGroups_decode hk hwords
  have hcount := menCreateSglV2_count (2 ^ k) phys ds
  have hread : (chunks (2 ^ k) ds).length % 5 ≠ 0 →
      readChain (sglChain phys (menCreateSglV2 ds (2 ^ k) (fun _ => {}) phys)) =
        some (chunkGroups (2 ^ k) ds) := by
    intro hfull
    refine (sglChain_pack phys henc hfull).read (groupsOf_lastOnly _ _) fun node hnode => ?_
    obtain ⟨j, _, rfl⟩ := List.mem_map.mp hnode
    exact hphys j
  constructor
  · rintro ⟨gs, hgs, hmap, _, _, _, hreturned⟩
    have hlength : gs.length = (chunks (2 ^ k) ds).length := by rw [← hmap, List.length_map]
    have hfull : (chunks (2 ^ k) ds).length % 5 ≠ 0 := by
      rw [hcount, hlength] at hreturned
      omega
    obtain rfl := Option.some.inj ((hread hfull).symm.trans hgs)
    exact ⟨hfull, hdecode.mp hmap⟩
  · rintro ⟨hfull, hfits⟩
    have hmap := hdecode.mpr hfits
    have hlength : (chunkGroups (2 ^ k) ds).length = (chunks (2 ^ k) ds).length := groupsOf_length _ _
    refine ⟨_, hread hfull, hmap, ?_, groupsOf_lastOnly _ _, (sglChain_pack phys henc hfull).linked, ?_⟩
    · rw [hmap, memory_chunks]
    · rw [hcount, hlength]
      omega

theorem menCreateSglV2_describes_two :
    DescribesMemory (2 ^ 8) (fun _ => 0x8000) [⟨0x1000, 0x1000⟩, ⟨0x2000, 0x1000⟩, ⟨0x8000, 0x804⟩] :=
  (menCreateSglV2_describes_iff (fun _ => 0x8000) (fun _ => by decide) 8 (by decide)
    [⟨0x1000, 0x1000⟩, ⟨0x2000, 0x1000⟩, ⟨0x8000, 0x804⟩] (by decide)).mpr (by decide)

/-- Five pages apart from each other fill one block, and two are returned. -/
theorem menCreateSglV2_fullBlock :
    ¬ DescribesMemory (2 ^ 7) (fun _ => 0x8000)
      [⟨0x10000, 0x1000⟩, ⟨0x20000, 0x1000⟩, ⟨0x30000, 0x1000⟩, ⟨0x40000, 0x1000⟩, ⟨0x50000, 0x1000⟩] := by
  rintro ⟨gs, _, hmap, _, _, _, hreturned⟩
  have hfive : gs.length = 5 := by
    rw [← List.length_map (decodeGroup (2 ^ 7)), hmap]
    decide
  rw [menCreateSglV2_count, ← hmap, List.length_map, hfive] at hreturned
  exact absurd hreturned (by decide)

end MenableDriver
