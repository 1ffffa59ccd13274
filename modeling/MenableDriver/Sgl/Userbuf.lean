import MenableDriver.Sgl.Chain

/-!
# The scatter-gather list of a user buffer

`me6_create_userbuf` walks over the mapped segments of a buffer, writes one entry for each
and takes a new block from the pool when five are written and there is more to come. What it
builds is the packed list of the segments' groups.
-/

namespace MenableDriver

set_option autoImplicit false

/-- `noMem` is the error that is returned; `bug` halts the kernel. -/
inductive SglFailure
  | bug
  | noMem
deriving DecidableEq

def ME6_SGL_ENTRIES : Nat := 5

/-- From the control register of the PCIe capability. -/
def payloadSize (pcieDeviceCtrl : BitVec 16) : Nat := 128 <<< ((pcieDeviceCtrl &&& 0xe0) >>> 5).toNat

/-- `alloc k` is the `k`-th block from the pool, `node` the block in work and `blocks` the
number of blocks so far. -/
def createUserbufLoop (alloc : Nat → Option (BitVec 64)) (payload : Nat) :
    List DmaSegment → ChainNode → Nat → Nat → Nat → Except SglFailure (List ChainNode)
  | [], chainNode, _, _, _ => .ok [chainNode]
  | sg :: rest, chainNode, blockEntryIdx, blocks, remainingLength =>
    let len := if sg.len > remainingLength then remainingLength else sg.len
    let isLast := rest.isEmpty
    match me6SglSize (sg.addr &&& 0xfff).toNat len payload with
    | none => .error .bug
    | some size =>
      match me6SetSglEntry chainNode.block blockEntryIdx sg.addr (BitVec.ofNat 32 size) isLast with
      | none => .error .bug
      | some block =>
        if blockEntryIdx + 1 = ME6_SGL_ENTRIES ∧ ¬ isLast then
          match alloc blocks with
          | none => .error .noMem
          | some nextBlockAddress =>
            match createUserbufLoop alloc payload rest ⟨nextBlockAddress, {}⟩ 0 (blocks + 1)
              (remainingLength - len) with
            | .error e => .error e
            | .ok nodes => .ok (⟨chainNode.addr, { block with next := (nextBlockAddress >>> 1) ||| 1 }⟩ ::
              nodes)
        else
          createUserbufLoop alloc payload rest ⟨chainNode.addr, block⟩ (blockEntryIdx + 1) blocks
            (remainingLength - len)

def me6CreateUserbuf (alloc : Nat → Option (BitVec 64)) (pcieDeviceCtrl : BitVec 16) (bufLength : Nat)
    (segs : List DmaSegment) : Except SglFailure (List ChainNode) :=
  match alloc 0 with
  | none => .error .noMem
  | some dma => createUserbufLoop alloc (payloadSize pcieDeviceCtrl) segs ⟨dma, {}⟩ 0 1 bufLength

/-! ### The groups of the segments -/

def segmentSize (payload : Nat) (sg : DmaSegment) : Option Nat :=
  me6SglSize (sg.addr &&& 0xfff).toNat sg.len payload

def segmentGroups (payload : Nat) : List DmaSegment → List PageGroup :=
  groupsOf fun sg => (segmentSize payload sg).getD 0

def totalLength (segs : List DmaSegment) : Nat := (segs.map (·.len)).sum

variable {payload : Nat} {segs : List DmaSegment}

/-- What an entry that was written for a segment stands for. -/
def decodeSegment (payload : Nat) (sg : DmaSegment) : DmaSegment :=
  ⟨sg.addr, decodedLength sg.addr.toNat ((segmentSize payload sg).getD 0) payload⟩

theorem payloadSize_eq (ctrl : BitVec 16) : ∃ k, 7 ≤ k ∧ k ≤ 14 ∧ payloadSize ctrl = 2 ^ k := by
  have hmask : (ctrl &&& 0xe0).toNat ≤ 0xe0 := Nat.and_le_right
  have hshift : ((ctrl &&& 0xe0) >>> 5).toNat = (ctrl &&& 0xe0).toNat / 2 ^ 5 := by
    rw [BitVec.toNat_ushiftRight, Nat.shiftRight_eq_div_pow]
  refine ⟨7 + ((ctrl &&& 0xe0) >>> 5).toNat, by omega, by omega, ?_⟩
  rw [payloadSize, Nat.shiftLeft_eq, Nat.pow_add]

theorem segmentSize_lt (payload : Nat) (sg : DmaSegment) : (segmentSize payload sg).getD 0 < 2 ^ 23 := by
  rcases h : segmentSize payload sg with _ | g
  · exact Nat.two_pow_pos 23
  · exact me6SglSize_lt h

theorem segmentGroups_decode (payload : Nat) (segs : List DmaSegment) :
    (segmentGroups payload segs).map (decodeGroup payload) = segs.map (decodeSegment payload) :=
  groupsOf_decode payload (segmentSize_lt payload) segs

/-! ### The loop packs the groups -/

theorem createUserbufLoop_eq (pool : Nat → BitVec 64) (payload : Nat) {b : SglBlock} {i k remaining : Nat}
    (hi : i < SGL_ENTRIES_PER_BLOCK)
    (hr : ReservedClear b.data) (hsum : totalLength segs ≤ remaining) :
    createUserbufLoop (fun k => some (pool k)) payload segs ⟨pool k, b⟩ i (k + 1) remaining =
      if ∀ sg ∈ segs, (segmentSize payload sg).isSome then .ok (pack pool (segmentGroups payload segs) k b i)
      else .error .bug := by
  induction segs generalizing b i k remaining with
  | nil =>
    rw [if_pos fun _ h => absurd h List.not_mem_nil]
    rfl
  | cons sg rest ih =>
    have hcons : totalLength (sg :: rest) = sg.len + totalLength rest := List.sum_cons
    rw [createUserbufLoop]
    simp only [if_neg (by omega : ¬ sg.len > remaining), List.forall_mem_cons]
    rcases hsize : segmentSize payload sg with _ | size
    · rw [segmentSize] at hsize
      simp only [hsize]
      rw [if_neg (by simp)]
    · have hgroup : segmentGroups payload (sg :: rest) =
          ⟨sg.addr, BitVec.ofNat 32 size, rest.isEmpty⟩ :: segmentGroups payload rest := by
        rw [segmentGroups, groupsOf, hsize]
        rfl
      rw [segmentSize] at hsize
      simp only [hsize, me6SetSglEntry_eq hi (fun _ => hr), hgroup, pack, Option.isSome_some, true_and]
      have hput := putGroup_reserved hr i ⟨sg.addr, BitVec.ofNat 32 size, rest.isEmpty⟩
      have hmore : ¬ rest.isEmpty = true ↔ segmentGroups payload rest ≠ [] := by
        rw [segmentGroups, ne_eq, ← List.isEmpty_iff, groupsOf_isEmpty]
      by_cases hfull : i + 1 = SGL_ENTRIES_PER_BLOCK ∧ segmentGroups payload rest ≠ []
      · have hentries : i + 1 = ME6_SGL_ENTRIES ∧ ¬ rest.isEmpty = true := ⟨hfull.1, hmore.mpr hfull.2⟩
        rw [if_pos hentries, if_pos hfull, ih (by decide) filled_empty.reserved (by omega)]
        by_cases hall : ∀ sg ∈ rest, (segmentSize payload sg).isSome = true
        · rw [if_pos hall, if_pos hall]
          rfl
        · rw [if_neg hall, if_neg hall]
      · have hentries : ¬ (i + 1 = ME6_SGL_ENTRIES ∧ ¬ rest.isEmpty = true) := fun h =>
          hfull ⟨h.1, hmore.mp h.2⟩
        rw [if_neg hentries, if_neg hfull]
        by_cases hend : rest = []
        · subst hend
          rw [if_pos fun _ h => absurd h List.not_mem_nil]
          rfl
        · refine ih ?_ hput (by omega)
          have hne : segmentGroups payload rest ≠ [] := hmore.mp (by rwa [List.isEmpty_iff])
          have hroom : i + 1 ≠ SGL_ENTRIES_PER_BLOCK := fun h => hfull ⟨h, hne⟩
          omega

/-- A failing allocation leaves no list. -/
theorem createUserbufLoop_total {alloc : Nat → Option (BitVec 64)} {node : ChainNode}
    {i blocks remaining : Nat}
    {nodes : List ChainNode} (h : createUserbufLoop alloc payload segs node i blocks remaining = .ok nodes) :
    createUserbufLoop (fun k => some ((alloc k).getD 0)) payload segs node i blocks remaining =
      .ok nodes := by
  induction segs generalizing node i blocks remaining nodes with
  | nil => exact h
  | cons sg rest ih =>
    rw [createUserbufLoop] at h ⊢
    simp only at h ⊢
    generalize me6SglSize (sg.addr &&& 0xfff).toNat (if sg.len > remaining then remaining else sg.len)
      payload = size at *
    rcases size with _ | size
    · exact h
    · simp only at h ⊢
      generalize me6SetSglEntry node.block i sg.addr (BitVec.ofNat 32 size) rest.isEmpty = block at *
      rcases block with _ | block
      · exact h
      · simp only at h ⊢
        by_cases hfull : i + 1 = ME6_SGL_ENTRIES ∧ ¬ rest.isEmpty = true
        · rw [if_pos hfull] at h ⊢
          rcases ha : alloc blocks with _ | next
          · rw [ha] at h
            cases h
          · simp only [ha, Option.getD_some] at h ⊢
            split at h
            · cases h
            · rename_i tail htail
              rw [ih htail]
              exact h
        · rw [if_neg hfull] at h ⊢
          exact ih h

theorem me6CreateUserbuf_eq {alloc : Nat → Option (BitVec 64)} {ctrl : BitVec 16} {bufLength : Nat}
    {nodes : List ChainNode} (hsum : totalLength segs ≤ bufLength)
    (h : me6CreateUserbuf alloc ctrl bufLength segs = .ok nodes) :
    (∀ sg ∈ segs, (segmentSize (payloadSize ctrl) sg).isSome) ∧
      nodes = pack (fun k => (alloc k).getD 0) (segmentGroups (payloadSize ctrl) segs) 0 {} 0 := by
  rw [me6CreateUserbuf] at h
  rcases ha : alloc 0 with _ | dma
  · rw [ha] at h
    cases h
  · rw [ha] at h
    have htotal := createUserbufLoop_total h
    have hdma : dma = (alloc 0).getD 0 := by rw [ha]; rfl
    have hpack := createUserbufLoop_eq (fun k => (alloc k).getD 0) (payloadSize ctrl) (i := 0)
      (k := 0) (by decide)
      filled_empty.reserved hsum
    rw [hdma, hpack] at htotal
    split at htotal
    · rename_i hall
      exact ⟨hall, (Except.ok.inj htotal).symm⟩
    · cases htotal

theorem me6CreateUserbuf_pool (pool : Nat → BitVec 64) (ctrl : BitVec 16) {bufLength : Nat}
    (hsum : totalLength segs ≤ bufLength) (hall : ∀ sg ∈ segs, (segmentSize (payloadSize ctrl) sg).isSome) :
    me6CreateUserbuf (fun k => some (pool k)) ctrl bufLength segs =
      .ok (pack pool (segmentGroups (payloadSize ctrl) segs) 0 {} 0) := by
  have hloop := createUserbufLoop_eq pool (payloadSize ctrl) (i := 0) (k := 0)
    (by decide) filled_empty.reserved hsum
  rw [if_pos hall] at hloop
  exact hloop

/-- Every block of the list is read, and nothing else. -/
theorem userbuf_read {alloc : Nat → Option (BitVec 64)} {ctrl : BitVec 16} {bufLength : Nat}
    {nodes : List ChainNode}
    (halloc : ∀ k a, alloc k = some a → 4 ∣ a.toNat) (hne : segs ≠ [])
      (haddr : ∀ sg ∈ segs, 4 ∣ sg.addr.toNat)
    (hsum : totalLength segs ≤ bufLength) (h : me6CreateUserbuf alloc ctrl bufLength segs = .ok nodes) :
    Packed nodes (segmentGroups (payloadSize ctrl) segs) ∧ readChain nodes =
      some (segmentGroups (payloadSize ctrl) segs) := by
  have hlast : LastOnly (segmentGroups (payloadSize ctrl) segs) := groupsOf_lastOnly _ segs
  have hpool : ∀ k, 4 ∣ ((alloc k).getD 0).toNat := by
    intro k
    rcases ha : alloc k with _ | a
    · exact Nat.dvd_zero 4
    · exact halloc k a ha
  obtain ⟨_, rfl⟩ := me6CreateUserbuf_eq hsum h
  have hpacked : Packed (pack (fun k => (alloc k).getD 0) (segmentGroups (payloadSize ctrl) segs) 0 {} 0)
      (segmentGroups (payloadSize ctrl) segs) :=
    pack_packed filled_empty (by decide) (groupsOf_encodable haddr (segmentSize_lt _)) hlast
      (groupsOf_ne_nil hne)
  refine ⟨hpacked, hpacked.read hlast fun node hnode => ?_⟩
  obtain ⟨j, hj⟩ := pack_addr hnode
  rw [hj]
  exact hpool j

theorem segment_decode {ctrl : BitVec 16} (hp : payloadSize ctrl ≤ 1024) {sg : DmaSegment}
    (haddr : 4 ∣ sg.addr.toNat) (hlen4 : 4 ∣ sg.len) (hlen : 0 < sg.len)
    (ht : transfers sg.addr.toNat sg.len (payloadSize ctrl) ≤ 2 ^ 15) :
    ∃ g, segmentSize (payloadSize ctrl) sg = some g ∧ decodedLength sg.addr.toNat g (payloadSize ctrl) =
      sg.len := by
  obtain ⟨k, h7, _, hpow⟩ := payloadSize_eq ctrl
  have h10 : k ≤ 10 := (Nat.pow_le_pow_iff_right (by decide)).mp (hpow ▸ hp : 2 ^ k ≤ 2 ^ 10)
  rw [hpow] at ht ⊢
  obtain ⟨g, hg, _, hdecode⟩ := me6SglSize_decode ⟨h7, h10⟩ haddr hlen4 hlen ht
  refine ⟨g, ?_, hdecode⟩
  rw [segmentSize, BitVec.toNat_and]
  exact hg

/-- The list of a buffer is read back as its segments. -/
theorem userbuf_roundTrip (pool : Nat → BitVec 64) (hpool : ∀ k, 4 ∣ (pool k).toNat) (ctrl : BitVec 16)
    (hp : payloadSize ctrl ≤ 1024) (segs : List DmaSegment) (hne : segs ≠ [])
    (hseg : ∀ sg ∈ segs, 4 ∣ sg.addr.toNat ∧ 4 ∣ sg.len ∧ 0 < sg.len ∧
      transfers sg.addr.toNat sg.len (payloadSize ctrl) ≤ 2 ^ 15)
    (bufLength : Nat) (hbuf : totalLength segs ≤ bufLength) :
    ∃ nodes gs, me6CreateUserbuf (fun k => some (pool k)) ctrl bufLength segs = .ok nodes ∧
      readChain nodes = some gs ∧ gs.map (decodeGroup (payloadSize ctrl)) = segs ∧ LastOnly gs ∧
      nodes.length = (segs.length + 4) / 5 ∧
      nodes.IsChain (fun node next => node.block.next = nextPointer next.addr) ∧
      ∀ node ∈ nodes, node.block.entries ≠ [] := by
  have hdecode : ∀ sg ∈ segs, ∃ g, segmentSize (payloadSize ctrl) sg = some g ∧
      decodedLength sg.addr.toNat g (payloadSize ctrl) = sg.len := by
    intro sg hsg
    obtain ⟨haddr, hlen4, hlen, ht⟩ := hseg sg hsg
    exact segment_decode hp haddr hlen4 hlen ht
  have hall : ∀ sg ∈ segs, (segmentSize (payloadSize ctrl) sg).isSome = true := by
    intro sg hsg
    obtain ⟨g, hg, _⟩ := hdecode sg hsg
    rw [hg]
    rfl
  have hok := me6CreateUserbuf_pool pool ctrl hbuf hall
  have halloc : ∀ k a, some (pool k) = some a → 4 ∣ a.toNat := by
    intro k a ha
    rw [← Option.some.inj ha]
    exact hpool k
  obtain ⟨hpacked, hread⟩ := userbuf_read halloc hne (fun sg hsg => (hseg sg hsg).1) hbuf hok
  have hmap : segs.map (decodeSegment (payloadSize ctrl)) = segs := by
    refine (List.map_congr_left fun sg hsg => ?_).trans (List.map_id segs)
    obtain ⟨g, hg, hlen⟩ := hdecode sg hsg
    rw [decodeSegment, hg, Option.getD_some, hlen, id]
  refine ⟨_, _, hok, hread, (segmentGroups_decode _ segs).trans hmap, groupsOf_lastOnly _ segs, ?_,
    hpacked.linked, hpacked.blocks_ne_nil⟩
  rw [hpacked.length, segmentGroups, groupsOf_length]
  rfl

theorem userbuf_roundTrip_two :
    ∃ nodes gs, me6CreateUserbuf (fun _ => some 0x8000) 0 0x1804 [⟨0x20000, 0x1000⟩, ⟨0x7004, 0x804⟩] =
      .ok nodes ∧
      readChain nodes = some gs ∧ gs.map (decodeGroup (payloadSize 0)) =
        [⟨0x20000, 0x1000⟩, ⟨0x7004, 0x804⟩] := by
  obtain ⟨nodes, gs, hok, hread, hmap, _⟩ := userbuf_roundTrip (fun _ => 0x8000)
    (fun _ => by decide) 0 (by decide)
    [⟨0x20000, 0x1000⟩, ⟨0x7004, 0x804⟩] (List.cons_ne_nil _ _) (by decide) 0x1804 (by decide)
  exact ⟨nodes, gs, hok, hread, hmap⟩

/-- A segment of no bytes is read as one of 1024. -/
theorem userbuf_roundTrip_empty :
    transfers 0x1000 0 (payloadSize 0) ≤ 2 ^ 15 ∧
      ∃ nodes, me6CreateUserbuf (fun _ => some 0x8000) 0 0 [⟨0x1000, 0⟩] = .ok nodes ∧
        (readChain nodes).map (List.map (decodeGroup (payloadSize 0))) = some [⟨0x1000, 1024⟩] := by
  have hok : me6CreateUserbuf (fun _ => some 0x8000) 0 0 [⟨0x1000, 0⟩] =
      .ok (pack (fun _ => 0x8000) (segmentGroups (payloadSize 0) [⟨0x1000, 0⟩]) 0 {} 0) :=
    me6CreateUserbuf_pool _ 0 (Nat.le_refl 0) (by decide)
  obtain ⟨_, hread⟩ := userbuf_read (fun _ _ ha => Option.some.inj ha ▸ by decide) (List.cons_ne_nil _ _)
    (by decide) (Nat.le_refl 0) hok
  refine ⟨by decide, _, hok, ?_⟩
  rw [hread]
  decide

end MenableDriver
