import MenableDriver.Data.Counter
import MenableDriver.Dma.Channels

/-!
# Fewer DMA channels

`men_alloc_dma` gives the last channels of a board back. It goes through the FPGAs with the
number of channels that are still to be kept, an `unsigned int` from which the old number of
every FPGA is taken, and frees the table of the channels when nothing of it is left over.
-/

namespace MenableDriver

set_option autoImplicit false

def MEN_MAX_DMA : Nat := 8

/-- The board with its table `dmachannels`, which is `NULL` when it was freed, and the
channels that were removed so far. -/
structure DmaBoard where
  men : Men
  releasing : Bool := false
  dmachannels : Option (List (Option ChanRef)) := none
  removed : List ChanRef := []

namespace DmaBoard

/-- `men_dma_channel` -/
def channel? (b : DmaBoard) (index : Nat) : Res (Option ChanRef) :=
  if index < b.men.dmacnt.sum then
    match b.dmachannels with
    | none => .error .outOfBounds
    | some table =>
      match table[index]? with
      | none => .error .outOfBounds
      | some dc => .ok dc
  else .ok none

/-- The number of channels that a call works with: a board that goes away keeps none. -/
def requested (b : DmaBoard) (count : Nat) : Nat := if b.releasing then 0 else count

end DmaBoard

/-- Stops the `n` channels from `i` on. -/
def stopDmas (b : DmaBoard) : Nat → Nat → Res DmaBoard
  | _, 0 => .ok b
  | i, n + 1 => do
    match ← b.channel? i with
    | none => .error .outOfBounds
    | some dc => stopDmas { b with men := menStopDmaLocked b.men dc } (i + 1) n

/-- The new numbers of channels, and what is left over of `count`. -/
def shrinkCounts (count : Nat) : List Nat → List Nat × Nat
  | [] => ([], count)
  | oldcnt :: dmacnt =>
    let (dmacnt, rest) := shrinkCounts (if 0 < count then Counter.sub count oldcnt else count) dmacnt
    (min count oldcnt :: dmacnt, rest)

def clearSlots (table : List (Option ChanRef)) (count oldcnt : Nat) : List (Option ChanRef) :=
  table.take count ++ List.replicate (oldcnt - count) none ++ table.drop oldcnt

def menAllocDma (b : DmaBoard) (count : Nat) : Res DmaBoard :=
  let count := b.requested count
  let oldcnt := b.men.dmacnt.sum
  if MEN_MAX_DMA < oldcnt then .error .bugOn
  else if oldcnt ≤ count then .ok b
  else do
    let b ← stopDmas b count (oldcnt - count)
    match b.dmachannels with
    | none => .error .outOfBounds
    | some table =>
      let (dmacnt, rest) := shrinkCounts count b.men.dmacnt
      .ok { b with
        men := { b.men with dmacnt := dmacnt }
        dmachannels := if rest = 0 then none else some (clearSlots table count oldcnt)
        removed := b.removed ++ ((table.take oldcnt).drop count).reverse.filterMap id }

/-- The board has these channels. -/
structure Allocated (b : DmaBoard) (chans : List ChanRef) : Prop where
  nodup : chans.Nodup
  length : chans.length = b.men.dmacnt.sum
  fits : b.men.dmacnt.sum ≤ MEN_MAX_DMA
  table : chans ≠ [] → ∃ spare, b.dmachannels = some (chans.map some ++ spare)

/-- The first `count` channels are kept and the others given back. -/
structure Shrunk (b : DmaBoard) (chans : List ChanRef) (count : Nat) (b' : DmaBoard) : Prop where
  counts : b'.men.dmacnt.sum = count
  kept : ∀ i < count, ∃ c, b.channel? i = .ok (some c) ∧ b'.channel? i = .ok (some c)
  removed : ∃ gone, b'.removed = b.removed ++ gone ∧ gone.Perm (chans.drop count)
  freed : b'.dmachannels = none ↔ count = 0

def AllocLaw (b : DmaBoard) (chans : List ChanRef) (count : Nat) (b' : DmaBoard) : Prop :=
  if count < chans.length then Shrunk b chans count b' else b' = b

/-- The channels that are kept end inside the last FPGA that has any, with one or more of
its channels kept and one or more given back. -/
def EndsInLast (count : Nat) (dmacnt : List Nat) : Prop :=
  ∃ before oldcnt after, dmacnt = before ++ oldcnt :: after ∧ after.sum = 0 ∧ before.sum < count ∧
    count < before.sum + oldcnt

/-! ### The running remainder -/

variable {count oldcnt : Nat} {dmacnt : List Nat} {b b' : DmaBoard} {chans : List ChanRef}

theorem shrinkCounts_zero (dmacnt : List Nat) :
    (shrinkCounts 0 dmacnt).1.sum = 0 ∧ (shrinkCounts 0 dmacnt).2 = 0 := by
  induction dmacnt with
  | nil => exact ⟨rfl, rfl⟩
  | cons oldcnt dmacnt ih =>
    simp only [shrinkCounts, Nat.lt_irrefl, if_false, List.sum_cons, Nat.zero_min, Nat.zero_add]
    exact ih

/-- A remainder that has wrapped keeps every channel of the FPGAs behind. -/
theorem shrinkCounts_wrapped {missing : Nat} (hpos : 0 < missing) (hlt : missing + dmacnt.sum < 2 ^ 31) :
    (shrinkCounts (Counter.wrap - missing) dmacnt).1.sum = dmacnt.sum ∧
      (shrinkCounts (Counter.wrap - missing) dmacnt).2 ≠ 0 := by
  induction dmacnt generalizing missing with
  | nil =>
    refine ⟨rfl, ?_⟩
    simp only [shrinkCounts, Counter.wrap, List.sum_nil] at hlt ⊢
    omega
  | cons oldcnt dmacnt ih =>
    rw [List.sum_cons] at hlt
    have hsub : Counter.sub (Counter.wrap - missing) oldcnt = Counter.wrap - (missing + oldcnt) := by
      unfold Counter.sub Counter.wrap
      omega
    have hwrapped : 0 < Counter.wrap - missing := by
      unfold Counter.wrap
      omega
    have hmin : min (Counter.wrap - missing) oldcnt = oldcnt := by
      unfold Counter.wrap
      omega
    have hmissing : 0 < missing + oldcnt := by omega
    obtain ⟨hsum, hrest⟩ := ih hmissing (by omega)
    simp only [shrinkCounts, if_pos hwrapped, hsub, hmin, List.sum_cons]
    exact ⟨by rw [hsum], hrest⟩

/-- The channels that are kept end inside the first FPGA, or behind it. -/
theorem endsInLast_cons :
    EndsInLast count (oldcnt :: dmacnt) ↔
      (0 < count ∧ count < oldcnt ∧ dmacnt.sum = 0) ∨
        (oldcnt < count ∧ EndsInLast (count - oldcnt) dmacnt) := by
  constructor
  · rintro ⟨before, last, after, heq, hafter, hlt, hcount⟩
    cases before with
    | nil =>
      cases heq
      exact .inl ⟨hlt, by simpa using hcount, hafter⟩
    | cons first before =>
      cases heq
      rw [List.sum_cons] at hlt hcount
      exact .inr ⟨by omega, before, last, after, rfl, hafter, by omega, by omega⟩
  · rintro (⟨hpos, hlt, hsum⟩ | ⟨hlt, before, last, after, rfl, hafter, hbefore, hcount⟩)
    · exact ⟨[], oldcnt, dmacnt, rfl, hsum, hpos, by simpa using hlt⟩
    · exact ⟨oldcnt :: before, last, after, rfl, hafter, by rw [List.sum_cons]; omega,
        by rw [List.sum_cons]; omega⟩

/-- The remainder tells that channels are left, and the numbers add up, only where it
wraps behind the last of them. -/
theorem shrinkCounts_iff (hpos : 0 < count) (hlt : count < dmacnt.sum) (hfits : dmacnt.sum < 2 ^ 31) :
    (shrinkCounts count dmacnt).1.sum = count ∧ (shrinkCounts count dmacnt).2 ≠ 0 ↔
      EndsInLast count dmacnt := by
  induction dmacnt generalizing count with
  | nil => exact absurd hlt (Nat.not_lt_zero _)
  | cons oldcnt dmacnt ih =>
    rw [List.sum_cons] at hlt hfits
    rw [endsInLast_cons]
    simp only [shrinkCounts, if_pos hpos, List.sum_cons]
    rcases lt_trichotomy count oldcnt with hinside | rfl | hbehind
    · have hsub : Counter.sub count oldcnt = Counter.wrap - (oldcnt - count) := by
        unfold Counter.sub Counter.wrap
        omega
      have hrests : oldcnt - count + dmacnt.sum < 2 ^ 31 := by omega
      obtain ⟨hsum, hrest⟩ := shrinkCounts_wrapped (by omega) hrests
      rw [hsub, hsum, Nat.min_eq_left (Nat.le_of_lt hinside)]
      constructor
      · rintro ⟨htotal, -⟩
        exact .inl ⟨hpos, hinside, by omega⟩
      · rintro (⟨-, -, hlast⟩ | ⟨hbehind, -⟩)
        · exact ⟨by omega, hrest⟩
        · omega
    · -- nothing of the count is left, so the table is taken for empty
      have hsub : Counter.sub count count = 0 := by
        rw [Counter.sub_eq (Nat.le_refl _) (by unfold Counter.wrap; omega), Nat.sub_self]
      rw [hsub]
      constructor
      · rintro ⟨-, hrest⟩
        exact absurd (shrinkCounts_zero dmacnt).2 hrest
      · rintro (⟨-, hlt', -⟩ | ⟨hlt', -⟩) <;> exact absurd hlt' (Nat.lt_irrefl _)
    · have hrec := ih (by omega : 0 < count - oldcnt) (by omega) (by omega)
      have hsub : Counter.sub count oldcnt = count - oldcnt :=
        Counter.sub_eq (Nat.le_of_lt hbehind) (by unfold Counter.wrap; omega)
      rw [hsub, Nat.min_eq_right (Nat.le_of_lt hbehind)]
      constructor
      · rintro ⟨htotal, hrest⟩
        exact .inr ⟨hbehind, hrec.mp ⟨by omega, hrest⟩⟩
      · rintro (⟨-, hinside, -⟩ | ⟨-, hlast⟩)
        · omega
        · obtain ⟨htotal, hrest⟩ := hrec.mpr hlast
          exact ⟨by omega, hrest⟩

/-! ### The channels that are given back -/

@[simp] theorem menStopDmaLocked_dmacnt (m : Men) (c : ChanRef) : (menStopDmaLocked m c).dmacnt =
    m.dmacnt := by
  simp only [menStopDmaLocked]
  split_ifs <;> rfl

theorem channel?_eq {table : List (Option ChanRef)} {index : Nat} {c : ChanRef}
    (hlt : index < b.men.dmacnt.sum)
    (htable : b.dmachannels = some table) (hslot : table[index]? = some (some c)) :
    b.channel? index = .ok (some c) := by
  simp only [DmaBoard.channel?, if_pos hlt, htable, hslot]

variable {spare : List (Option ChanRef)} {i n : Nat}

theorem slot_eq (hlt : i < chans.length) : (chans.map some ++ spare)[i]? = some (some chans[i]) := by
  rw [List.getElem?_append_left (by simpa using hlt), List.getElem?_map, List.getElem?_eq_getElem hlt]
  rfl

/-- Every channel that is to be stopped is there, and stopping it moves no channel. -/
theorem stopDmas_ok (hlength : chans.length = b.men.dmacnt.sum)
    (htable : b.dmachannels = some (chans.map some ++ spare)) (hle : i + n ≤ chans.length) :
    ∃ men, stopDmas b i n = .ok { b with men := men } ∧ men.dmacnt = b.men.dmacnt := by
  induction n generalizing b i with
  | zero => exact ⟨b.men, rfl, rfl⟩
  | succ n ih =>
    have hlt : i < chans.length := by omega
    have hstop := menStopDmaLocked_dmacnt b.men chans[i]
    have hchan := channel?_eq (hlength ▸ hlt) htable (slot_eq hlt)
    obtain ⟨men, hrun, hcnt⟩ := @ih { b with men := menStopDmaLocked b.men chans[i] } (i + 1)
      (by rw [hstop]; exact hlength) htable (by omega)
    refine ⟨men, ?_, hcnt.trans hstop⟩
    simp only [stopDmas, hchan]
    exact hrun

theorem clearSlots_kept (hi : i < count) (hcount : count ≤ chans.length) :
    (clearSlots (chans.map some ++ spare) count chans.length)[i]? = some (some chans[i]) := by
  have hslots : i < ((chans.map some ++ spare).take count).length := by
    simp only [List.length_take, List.length_append, List.length_map]
    omega
  rw [clearSlots, List.append_assoc, List.getElem?_append_left hslots, List.getElem?_take_of_lt hi, slot_eq]

theorem gone_eq : (((chans.map some ++ spare).take chans.length).drop count).reverse.filterMap id =
    (chans.drop count).reverse := by
  rw [List.take_left' (List.length_map _), ← List.map_drop, ← List.map_reverse, List.filterMap_map]
  exact List.filterMap_some

/-- What the board looks like when channels were given back. -/
def droppedBoard (b : DmaBoard) (chans : List ChanRef) (spare : List (Option ChanRef)) (count : Nat)
    (men : Men) :
    DmaBoard :=
  { b with
    men := { men with dmacnt := (shrinkCounts count b.men.dmacnt).1 }
    dmachannels :=
      if (shrinkCounts count b.men.dmacnt).2 = 0 then none
      else some (clearSlots (chans.map some ++ spare) count chans.length)
    removed := b.removed ++ (chans.drop count).reverse }

theorem menAllocDma_dropped (h : Allocated b chans) (hlt : b.requested count < chans.length) :
    ∃ spare men, b.dmachannels = some (chans.map some ++ spare) ∧
      menAllocDma b count = .ok (droppedBoard b chans spare (b.requested count) men) := by
  obtain ⟨spare, htable⟩ := h.table (List.ne_nil_of_length_pos (by omega))
  obtain ⟨men, hstop, hcnt⟩ := @stopDmas_ok b chans spare (b.requested count)
    (chans.length - b.requested count)
    h.length htable (by omega)
  refine ⟨spare, men, htable, ?_⟩
  have hfits := h.fits
  rw [← h.length] at hfits
  simp only [menAllocDma, ← h.length, if_neg (Nat.not_lt.mpr hfits), if_neg (Nat.not_le.mpr hlt), hstop]
  simp only [htable, hcnt, bind, Except.bind, gone_eq, droppedBoard]

/-- The first channels stay where they are and the others are given back once, whatever
becomes of the numbers; the law asks for these and for the table. -/
theorem shrunk_iff (h : Allocated b chans) (hlt : count < chans.length)
    (htable : b.dmachannels = some (chans.map some ++ spare)) (men : Men) :
    Shrunk b chans count (droppedBoard b chans spare count men) ↔
      (shrinkCounts count b.men.dmacnt).1.sum = count ∧
        ((shrinkCounts count b.men.dmacnt).2 = 0 ↔ count = 0) := by
  have hfreed : (droppedBoard b chans spare count men).dmachannels = none ↔
      (shrinkCounts count b.men.dmacnt).2 = 0 := by
    simp only [droppedBoard]
    split_ifs with hrest <;> simp [hrest]
  constructor
  · intro hs
    exact ⟨hs.counts, hfreed.symm.trans hs.freed⟩
  · rintro ⟨hcounts, hrest⟩
    refine ⟨hcounts, fun i hi => ?_, ⟨(chans.drop count).reverse, rfl, List.reverse_perm _⟩,
      hfreed.trans hrest⟩
    have hchan : i < chans.length := Nat.lt_trans hi hlt
    have hleft : ¬ (shrinkCounts count b.men.dmacnt).2 = 0 := fun hzero => by
      rw [hrest.mp hzero] at hi
      exact Nat.not_lt_zero i hi
    have htable' : (droppedBoard b chans spare count men).dmachannels =
        some (clearSlots (chans.map some ++ spare) count chans.length) := by
      simp only [droppedBoard, if_neg hleft]
    have hsum : i < (droppedBoard b chans spare count men).men.dmacnt.sum := hcounts.symm ▸ hi
    exact ⟨chans[i], channel?_eq (h.length ▸ hchan) htable (slot_eq hchan),
      channel?_eq hsum htable' (clearSlots_kept hi (Nat.le_of_lt hlt))⟩

/-- The law holds when no channel is kept, when all are, and when the ones that are kept end
inside the last FPGA that has any. -/
theorem alloc_law_iff (h : Allocated b chans) (count : Nat) :
    (∃ b', menAllocDma b count = .ok b' ∧ AllocLaw b chans (b.requested count) b') ↔
      b.requested count = 0 ∨ b.men.dmacnt.sum ≤ b.requested count ∨
        EndsInLast (b.requested count) b.men.dmacnt := by
  have hfits := h.fits
  rw [← h.length] at hfits ⊢
  rcases Nat.lt_or_ge (b.requested count) chans.length with hlt | hge
  · obtain ⟨spare, men, htable, hrun⟩ := menAllocDma_dropped h hlt
    have hlaw : (∃ b', menAllocDma b count = .ok b' ∧ AllocLaw b chans (b.requested count) b') ↔
        Shrunk b chans (b.requested count) (droppedBoard b chans spare (b.requested count) men) := by
      simp only [hrun, AllocLaw, if_pos hlt, Except.ok.injEq, exists_eq_left']
    rw [hlaw, shrunk_iff h hlt htable]
    rcases Nat.eq_zero_or_pos (b.requested count) with hzero | hpos
    · rw [hzero]
      obtain ⟨hsum, hrest⟩ := shrinkCounts_zero b.men.dmacnt
      exact ⟨fun _ => .inl rfl, fun _ => ⟨hsum, iff_of_true hrest rfl⟩⟩
    · have hends := shrinkCounts_iff hpos (h.length ▸ hlt)
        (by rw [← h.length]; exact Nat.lt_of_le_of_lt hfits (by decide))
      have hne := Nat.ne_of_gt hpos
      constructor
      · rintro ⟨hsum, hrest⟩
        exact .inr (.inr (hends.mp ⟨hsum, fun hzero => hne (hrest.mp hzero)⟩))
      · rintro (hzero | hge | hlast)
        · exact absurd hzero hne
        · omega
        · obtain ⟨hsum, hrest⟩ := hends.mpr hlast
          exact ⟨hsum, iff_of_false hrest hne⟩
  · refine iff_of_true ⟨b, ?_, ?_⟩ (.inr (.inl hge))
    · simp only [menAllocDma, ← h.length, if_neg (Nat.not_lt.mpr hfits), if_pos hge]
    · rw [AllocLaw, if_neg (Nat.not_lt.mpr hge)]

/-- Two FPGAs with two channels each. -/
def twoFpgas : DmaBoard :=
  { men := { dmacnt := [2, 2] }, dmachannels := some [some 0, some 1, some 2, some 3] }

theorem twoFpgas_allocated : Allocated twoFpgas [0, 1, 2, 3] :=
  ⟨by decide, rfl, by decide, fun _ => ⟨[], rfl⟩⟩

theorem alloc_law_iff_three :
    ∃ b', menAllocDma twoFpgas 3 = .ok b' ∧ AllocLaw twoFpgas [0, 1, 2, 3] (twoFpgas.requested 3) b' :=
  (alloc_law_iff twoFpgas_allocated 3).mpr
    (.inr (.inr ⟨[2], 2, [], rfl, rfl, by decide, by decide⟩))

/-- With two channels kept nothing is left over and the table goes, though they need it; with
one channel kept the remainder wraps inside the first FPGA and the second keeps its two. -/
theorem table_freed_early :
    Allocated twoFpgas [0, 1, 2, 3] ∧
      (∃ b', menAllocDma twoFpgas 2 = .ok b' ∧ b'.men.dmacnt = [2, 0] ∧ b'.dmachannels = none ∧
        ¬ AllocLaw twoFpgas [0, 1, 2, 3] 2 b') ∧
      ∃ b', menAllocDma twoFpgas 1 = .ok b' ∧ b'.men.dmacnt = [1, 2] ∧
        ¬ AllocLaw twoFpgas [0, 1, 2, 3] 1 b' := by
  refine ⟨twoFpgas_allocated, ⟨_, rfl, rfl, rfl, fun h => ?_⟩, ⟨_, rfl, rfl, fun h => ?_⟩⟩
  · have hs : Shrunk twoFpgas [0, 1, 2, 3] 2 _ := h
    exact absurd (hs.freed.mp rfl) (by decide)
  · have hs : Shrunk twoFpgas [0, 1, 2, 3] 1 _ := h
    exact absurd hs.counts (by decide)

end MenableDriver
