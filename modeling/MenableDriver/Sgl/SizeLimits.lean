import MenableDriver.Sgl.Userbuf

/-!
# The limits of the size field

The size of an entry has 8 bits for the words of the last transfer, so it holds at most 1024
bytes, and `me6_sgl_size` halts the kernel on more. The device may report a payload of up to
16384 bytes. Which segments are in the limits depends on where they end inside a payload.
-/

namespace MenableDriver

set_option autoImplicit false

/-- What `me6_create_userbuf` passes on: the mapping may be longer than the buffer. -/
def cutSegments : Nat → List DmaSegment → List DmaSegment
  | _, [] => []
  | remainingLength, sg :: rest =>
    let len := if sg.len > remainingLength then remainingLength else sg.len
    ⟨sg.addr, len⟩ :: cutSegments (remainingLength - len) rest

/-- The segment ends before `2 ^ 15` payloads are over. With a payload of more than 1024 bytes
it is shorter than 257 words or, if it leaves its first payload, ends that early in another. -/
def FitsEntry (payload : Nat) (sg : DmaSegment) : Prop :=
  let o := sg.addr.toNat % 4096 % payload
  o + sg.len ≤ 2 ^ 15 * payload ∧
    (payload ≤ 1024 ∨
      if o + sg.len ≤ payload then sg.len < 1028 else (o + sg.len - 1) % payload < 1027)

variable {offset len payload : Nat}

theorem transfers_le_iff (offset len : Nat) (hp : 0 < payload) (n : Nat) :
    transfers offset len payload ≤ n ↔ offset % payload + len ≤ n * payload := by
  rw [transfers, Nat.div_le_iff_le_mul_add_pred hp, Nat.mul_comm payload n]
  omega

theorem lastTransfer_eq (offset : Nat) (hp : 0 < payload) (hlen : 0 < len) :
    lastTransfer offset len payload =
      if offset % payload + len ≤ payload then len else (offset % payload + len - 1) % payload + 1 := by
  obtain ⟨_, hlow, hhigh⟩ := transfers_spec offset hp hlen
  rw [lastTransfer]
  generalize transfers offset len payload - 1 = t at *
  obtain ⟨r, hr⟩ : ∃ r, offset % payload + len = t * payload + (r + 1) :=
    ⟨offset % payload + len - t * payload - 1, by omega⟩
  have hmod : (offset % payload + len - 1) % payload = r := by
    rw [hr, Nat.add_sub_assoc (by omega), Nat.add_sub_cancel, Nat.mul_comm, Nat.mul_add_mod,
      Nat.mod_eq_of_lt (by omega)]
  rw [hmod]
  split <;> omega

theorem me6SglSize_zero (offset payload : Nat) : (me6SglSize offset 0 payload).isSome = true := by
  simp [me6SglSize]

/-- The assertions hold exactly for the segments that fit. -/
theorem me6SglSize_isSome_iff (hp : 0 < payload) (sg : DmaSegment) :
    (me6SglSize (sg.addr &&& 0xfff).toNat sg.len payload).isSome ↔ FitsEntry payload sg := by
  have hpage : (sg.addr &&& 0xfff).toNat = sg.addr.toNat % 4096 := by
    rw [BitVec.toNat_and]
    exact Nat.and_two_pow_sub_one_eq_mod sg.addr.toNat 12
  have hoff : sg.addr.toNat % 4096 % payload < payload := Nat.mod_lt _ hp
  rw [hpage, FitsEntry]
  generalize sg.addr.toNat % 4096 = offset at hoff
  generalize sg.len = len
  rcases Nat.eq_zero_or_pos len with rfl | hlen
  · simp only [me6SglSize_zero, true_iff]
    exact ⟨by omega, .inr (by rw [if_pos (by omega)]; omega)⟩
  · have hwords := (lastTransfer_le offset hp hlen).2
    have hlast := lastTransfer_eq offset hp hlen
    have htransfers := transfers_le_iff offset len hp (2 ^ 15)
    rw [me6SglSize_eq hp hlen]
    rw [Option.isSome_ite']
    split at hlast
    · rename_i hone
      simp only [if_pos hone]
      omega
    · rename_i hcross
      simp only [if_neg hcross]
      omega

variable {alloc : Nat → Option (BitVec 64)}

/-- The `j`-th segment is passed when there was memory for the blocks up to its own. -/
def Passed (alloc : Nat → Option (BitVec 64)) (j : Nat) : Prop :=
  ∀ m ≤ j / SGL_ENTRIES_PER_BLOCK, (alloc m).isSome

theorem me6SetSglEntry_isSome (b : SglBlock) {i : Nat} (hi : i < SGL_ENTRIES_PER_BLOCK) (addr : BitVec 64)
    (size : BitVec 32) (last : Bool) : ∃ block, me6SetSglEntry b i addr size last = some block :=
  match i, hi with
  | 0, _ => ⟨_, rfl⟩
  | 1, _ => ⟨_, rfl⟩
  | 2, _ => ⟨_, rfl⟩
  | 3, _ => ⟨_, rfl⟩
  | 4, _ => ⟨_, rfl⟩

theorem forall_getElem?_cons {α : Type} {p : Nat → α → Prop} {a : α} {l : List α} :
    (∀ j x, (a :: l)[j]? = some x → p j x) ↔ p 0 a ∧ ∀ j x, l[j]? = some x → p (j + 1) x := by
  constructor
  · exact fun h => ⟨h 0 a rfl, fun j x hx => h (j + 1) x hx⟩
  · rintro ⟨hhead, htail⟩ j x hx
    cases j with
    | zero =>
      cases hx
      exact hhead
    | succ j => exact htail j x hx

/-- In work is entry `i` of block `k`. -/
theorem createUserbufLoop_bug_iff (hp : 0 < payload) {segs : List DmaSegment} {node : ChainNode}
    {i k remaining : Nat} (hi : i < SGL_ENTRIES_PER_BLOCK) :
    createUserbufLoop alloc payload segs node i (k + 1) remaining ≠ .error .bug ↔
      ∀ j sg, (cutSegments remaining segs)[j]? = some sg →
        (∀ m, k < m → m ≤ k + (i + j) / SGL_ENTRIES_PER_BLOCK → (alloc m).isSome) → FitsEntry payload sg := by
  induction segs generalizing node i k remaining with
  | nil => simp [createUserbufLoop, cutSegments]
  | cons sg rest ih =>
    rw [createUserbufLoop, cutSegments, forall_getElem?_cons]
    generalize (if sg.len > remaining then remaining else sg.len) = len
    have hsize := me6SglSize_isSome_iff hp ⟨sg.addr, len⟩
    have hfirst : ∀ m, k < m → m ≤ k + (i + 0) / SGL_ENTRIES_PER_BLOCK → (alloc m).isSome := by
      intro m hlow hhigh
      rw [Nat.add_zero, Nat.div_eq_of_lt hi] at hhigh
      omega
    rcases hs : me6SglSize (sg.addr &&& 0xfff).toNat len payload with _ | size
    · rw [hs] at hsize
      exact iff_of_false (fun h => h rfl) fun h => absurd (hsize.mpr (h.1 hfirst)) (by simp)
    · rw [hs] at hsize
      obtain ⟨block, hblock⟩ := me6SetSglEntry_isSome node.block hi sg.addr (BitVec.ofNat 32 size)
        rest.isEmpty
      simp only [hblock]
      rw [and_iff_right fun _ => hsize.mp rfl]
      by_cases hfull : i + 1 = ME6_SGL_ENTRIES ∧ ¬ rest.isEmpty = true
      · rw [if_pos hfull]
        have hi5 : i + 1 = SGL_ENTRIES_PER_BLOCK := hfull.1
        have hnext : ∀ j, k + (i + (j + 1)) / SGL_ENTRIES_PER_BLOCK =
            k + 1 + (0 + j) / SGL_ENTRIES_PER_BLOCK := by
          intro j
          rw [show i + (j + 1) = 0 + j + SGL_ENTRIES_PER_BLOCK by omega, Nat.add_div_right _ (by decide)]
          omega
        simp only [hnext]
        rcases ha : alloc (k + 1) with _ | next
        · refine iff_of_true (fun h => by cases h) fun j _ _ hmem => ?_
          exact absurd (hmem (k + 1) (by omega) (Nat.le_add_right _ _)) (by rw [ha]; decide)
        · have hrest := @ih ⟨next, {}⟩ 0 (k + 1) (remaining - len) (by decide)
          have hmem : ∀ j, (∀ m, k < m → m ≤ k + 1 + (0 + j) / SGL_ENTRIES_PER_BLOCK → (alloc m).isSome) ↔
              ∀ m, k + 1 < m → m ≤ k + 1 + (0 + j) / SGL_ENTRIES_PER_BLOCK → (alloc m).isSome := by
            refine fun j => ⟨fun h m hlow => h m (by omega), fun h m hlow hhigh => ?_⟩
            rcases Nat.lt_or_eq_of_le hlow with hlt | rfl
            · exact h m hlt hhigh
            · rw [ha]
              rfl
          simp only [hmem]
          rw [← hrest]
          split <;> simp_all
      · rw [if_neg hfull]
        by_cases hend : rest = []
        · subst hend
          simp [createUserbufLoop, cutSegments]
        · have hroom : i + 1 < SGL_ENTRIES_PER_BLOCK := by
            have hne : i + 1 ≠ SGL_ENTRIES_PER_BLOCK := fun h => hfull ⟨h, by rwa [List.isEmpty_iff]⟩
            omega
          rw [ih hroom]
          simp only [Nat.add_assoc, Nat.add_comm 1]

/-- Whether an assertion fails: the first block is taken before any segment is looked at. -/
theorem userbuf_limits_iff (alloc : Nat → Option (BitVec 64)) (ctrl : BitVec 16) (bufLength : Nat)
    (segs : List DmaSegment) :
    me6CreateUserbuf alloc ctrl bufLength segs ≠ .error .bug ↔
      ∀ j sg, (cutSegments bufLength segs)[j]? = some sg → Passed alloc j →
        FitsEntry (payloadSize ctrl) sg := by
  have hp : 0 < payloadSize ctrl := by
    obtain ⟨k, _, _, hk⟩ := payloadSize_eq ctrl
    rw [hk]
    exact Nat.two_pow_pos k
  rw [me6CreateUserbuf]
  rcases ha : alloc 0 with _ | dma
  · refine iff_of_true (fun h => by cases h) fun j _ _ hmem => ?_
    exact absurd (hmem 0 (Nat.zero_le _)) (by rw [ha]; decide)
  · have hmem : ∀ j, Passed alloc j ↔
        ∀ m, 0 < m → m ≤ 0 + (0 + j) / SGL_ENTRIES_PER_BLOCK → (alloc m).isSome := by
      intro j
      rw [Nat.zero_add, Nat.zero_add]
      refine ⟨fun h m _ => h m, fun h m hle => ?_⟩
      rcases Nat.eq_zero_or_pos m with rfl | hpos
      · rw [ha]
        rfl
      · exact h m hpos hle
    simp only [hmem]
    exact createUserbufLoop_bug_iff hp (by decide)

/-- With a payload of 2048 bytes a whole page ends in 512 words. -/
theorem userbuf_page_bug : payloadSize 0x80 = 128 <<< 4 ∧
    me6CreateUserbuf (fun _ => some 0x8000) 0x80 0x1000 [⟨0x20000, 0x1000⟩] = .error .bug :=
  ⟨rfl, rfl⟩

end MenableDriver
