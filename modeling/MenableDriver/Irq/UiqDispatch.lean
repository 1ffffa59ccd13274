import MenableDriver.Irq.Alarms
import MenableDriver.Uiq.Base

/-!
# The user queues in the interrupt of the microEnable 5

The interrupt handler goes through the table of the queues along with the bits of the status register.
A queue may be missing in the table: on some boards the firmware leaves gaps between its queues.
-/

namespace MenableDriver

set_option autoImplicit false

def ME5_IRQQ_LOW : Nat := 16
def ME5_IRQQ_HIGH : Nat := 29
def ME5_IRQQUEUE : Nat := 0x80
def INT_MASK_USER_QUEUE_IRQ : Word := 0x3FFF0000#32

/-! ### The table -/

/-- What `me5_add_uiqs` gives a queue. -/
structure Me5Uiq where
  chan : Nat
  type : UiqType
  registerOffset : Nat
  writeBurst : Nat
  ackbit : Nat
deriving DecidableEq

/-- `men->uiqs`, with `NULL` for a queue that is missing. -/
abbrev Me5UiqTable := List (Option Me5Uiq)

def getBitMask : Nat → Word
  | 0 => 0
  | n + 1 => (getBitMask n <<< 1) ||| 0x1#32

/-- The configurations of the camera link chips. -/
inductive ClChipGroup
  | notUsed | singleBase0 | singleBase1 | dualBase | medium | full | other
deriving DecidableEq

/-- The number of the queues and the mask of those that exist, for a board whose chip group matters. -/
def clUiqs (fpgaUIQs : Word) : ClChipGroup → Word × Word
  | .notUsed => (fpgaUIQs + 4, getBitMask fpgaUIQs.toNat <<< 4)
  | .singleBase0 | .singleBase1 | .full => (fpgaUIQs + 2, 0x3#32 ||| (getBitMask (fpgaUIQs - 2).toNat <<< 4))
  | .medium => (fpgaUIQs, 0x3#32 ||| (getBitMask (fpgaUIQs - 4).toNat <<< 4))
  | .dualBase | .other => (fpgaUIQs, getBitMask fpgaUIQs.toNat)

/-- One turn of the loop of `me5_add_uiqs`. -/
def me5AddUiq (fpga : Nat) (typeFlags uiqMask : Word) (uiqRegaddrsOffset i : Nat) : Option Me5Uiq :=
  if uiqMask.getLsbD i then
    some
      { chan := fpga * MEN_MAX_UIQ_PER_FPGA + i
        type := if typeFlags.getLsbD (i + ME5_IRQQ_LOW) then .writeLegacy else .read
        registerOffset := uiqRegaddrsOffset / 4 + 2 * i
        writeBurst := 16
        ackbit := i + ME5_IRQQ_LOW }
  else none

/-- The new table. It is not made when there is no memory for it or for one of its queues. -/
def me5AddUiqs (fpga count : Nat) (typeFlags uiqMask : Word) (uiqRegaddrsOffset : Nat)
    (tableAllocated : Bool) (initialised : Nat → Bool) : Option Me5UiqTable :=
  if tableAllocated ∧ ∀ i < count, uiqMask.getLsbD i → initialised i then
    some (List.replicate (fpga * MEN_MAX_UIQ_PER_FPGA) none ++
      (List.range count).map (me5AddUiq fpga typeFlags uiqMask uiqRegaddrsOffset))
  else none

/-- `me5_init_uiqs`. Old firmware versions did not provide the number through a register. -/
def me5InitUiqs (chipGroup : Option ClChipGroup) (fpgaUIQs typeFlags uiqRegaddrOffset : Word)
    (tableAllocated : Bool) (initialised : Nat → Bool) : Option Me5UiqTable :=
  let (uiqcnt, uiqmask) :=
    match chipGroup with
    | some group => clUiqs fpgaUIQs group
    | none => (fpgaUIQs, getBitMask fpgaUIQs.toNat)
  let (uiqcnt, uiqRegaddrOffset) :=
    if uiqcnt = 0 ∧ uiqRegaddrOffset = 0 then (ME5_IRQQ_HIGH - ME5_IRQQ_LOW + 1, 4 * ME5_IRQQUEUE)
    else (uiqcnt.toNat, uiqRegaddrOffset.toNat)
  if uiqcnt ≠ 0 then me5AddUiqs 0 uiqcnt typeFlags uiqmask uiqRegaddrOffset tableAllocated initialised
  else some []

/-! ### The loop -/

/-- The bits of the status that are left, the entries of the table that the loop looked at, and the
queues it gave to `uiq_irq`. -/
structure UiqDispatch where
  st : Word
  indexed : List Nat
  served : List Nat
deriving DecidableEq

/-- The loop over the bits. It ends here at an entry that lies outside of the table, as nothing is
known of what is found there. -/
def uiqLoop (uiqs : Me5UiqTable) : Nat → Nat → UiqDispatch → UiqDispatch
  | 0, _, d => d
  | todo + 1, bit, d =>
    if d.st = 0 then d
    else
      let index := bit - ME5_IRQQ_LOW
      let d := { d with indexed := d.indexed ++ [index] }
      match uiqs[index]? with
      | none => d
      | some none => uiqLoop uiqs todo (bit + 1) d
      | some (some _) =>
        if d.st &&& (1#32 <<< bit) ≠ 0 then
          uiqLoop uiqs todo (bit + 1) { d with st := d.st ^^^ (1#32 <<< bit), served := d.served ++ [index] }
        else uiqLoop uiqs todo (bit + 1) d

/-- The part of `me5_irq` for the user queues; `sr` is what it has left of the status register. -/
def me5IrqUiqs (uiqs : Me5UiqTable) (sr : Word) : UiqDispatch :=
  uiqLoop uiqs (ME5_IRQQ_HIGH + 1 - ME5_IRQQ_LOW) ME5_IRQQ_LOW ⟨sr &&& INT_MASK_USER_QUEUE_IRQ, [], []⟩

/-! ### What the loop is for -/

/-- The table has a queue with this number. -/
def HasUiq (uiqs : Me5UiqTable) (i : Nat) : Prop := ∃ uiq, uiqs[i]? = some (some uiq)

instance (uiqs : Me5UiqTable) (i : Nat) : Decidable (HasUiq uiqs i) :=
  decidable_of_iff ((uiqs[i]?.getD none).isSome = true) <| by
    unfold HasUiq
    cases uiqs[i]? with
    | none => simp
    | some entry => simp [Option.isSome_iff_exists]

/-- The bit of a queue in the status register. -/
def raised (sr : Word) (i : Nat) : Bool := sr.getLsbD (ME5_IRQQ_LOW + i)

structure UiqsDispatched (uiqs : Me5UiqTable) (sr : Word) (d : UiqDispatch) : Prop where
  inTable : ∀ i ∈ d.indexed, i < uiqs.length
  once : ∀ i, HasUiq uiqs i → raised sr i = true → d.served.count i = 1
  present : ∀ i ∈ d.served, HasUiq uiqs i ∧ raised sr i = true
  done : ∀ i, HasUiq uiqs i → raised d.st i = false

/-- After `n` entries of the table. -/
structure UiqScan (uiqs : Me5UiqTable) (sr : Word) (n : Nat) (d : UiqDispatch) : Prop where
  bits : ∀ i, raised d.st i = true ↔ i < 14 ∧ raised sr i = true ∧ ¬(i < n ∧ HasUiq uiqs i)
  others : ∀ k < ME5_IRQQ_LOW, d.st.getLsbD k = false
  served : d.served = (List.range n).filter fun i => HasUiq uiqs i ∧ raised sr i = true

variable {uiqs : Me5UiqTable} {sr st : Word} {n i : Nat} {d : UiqDispatch}

theorem raised_mask (sr : Word) (i : Nat) :
    raised (sr &&& INT_MASK_USER_QUEUE_IRQ) i = true ↔ i < 14 ∧ raised sr i = true := by
  have hmask : ∀ i < 16, INT_MASK_USER_QUEUE_IRQ.getLsbD (16 + i) = decide (i < 14) := by decide
  unfold raised ME5_IRQQ_LOW
  rw [BitVec.getLsbD_and, Bool.and_eq_true, and_comm]
  refine and_congr_left fun hbit => ?_
  have hlt : 16 + i < 32 := BitVec.lt_of_getLsbD hbit
  rw [hmask i (by omega), decide_eq_true_iff]

theorem and_bit_iff (st : Word) (n : Nat) :
    st &&& (1#32 <<< (ME5_IRQQ_LOW + n)) ≠ 0 ↔ raised st n = true := by
  have htwo : 1#32 <<< (ME5_IRQQ_LOW + n) = BitVec.twoPow 32 (ME5_IRQQ_LOW + n) := rfl
  unfold raised
  rw [htwo, BitVec.and_twoPow]
  split_ifs with hbit
  · have hlt := BitVec.lt_of_getLsbD hbit
    refine iff_of_true ?_ hbit
    intro hzero
    have hself := congrArg (fun w : Word => w.getLsbD (ME5_IRQQ_LOW + n)) hzero
    simp [hlt] at hself
  · exact iff_of_false (fun h => h rfl) hbit

theorem getLsbD_xor_bit (st : Word) (n k : Nat) : (st ^^^ (1#32 <<< (ME5_IRQQ_LOW + n))).getLsbD k =
    (st.getLsbD k ^^ decide (ME5_IRQQ_LOW + n = k ∧ k < 32)) := by
  have htwo : 1#32 <<< (ME5_IRQQ_LOW + n) = BitVec.twoPow 32 (ME5_IRQQ_LOW + n) := rfl
  rw [htwo, BitVec.getLsbD_xor, BitVec.getLsbD_twoPow]
  by_cases hk : ME5_IRQQ_LOW + n = k
  · subst hk
    simp
  · simp [hk]

theorem uiqScan_start (uiqs : Me5UiqTable) (sr : Word) :
    UiqScan uiqs sr 0 ⟨sr &&& INT_MASK_USER_QUEUE_IRQ, [], []⟩ := by
  have hlow : ∀ k < ME5_IRQQ_LOW, INT_MASK_USER_QUEUE_IRQ.getLsbD k = false := by decide
  refine ⟨fun i => ?_, fun k hk => ?_, rfl⟩
  · rw [raised_mask]
    simp
  · rw [BitVec.getLsbD_and, hlow k hk, Bool.and_false]

/-- An entry that is not served leaves the bits as they are. -/
theorem UiqScan.skip (h : UiqScan uiqs sr n d) (hskip : ¬(HasUiq uiqs n ∧ raised sr n = true))
    (indexed : List Nat) : UiqScan uiqs sr (n + 1) { d with indexed } := by
  refine ⟨fun i => ?_, h.others, ?_⟩
  · rw [h.bits i]
    refine and_congr_right fun hi => and_congr_right fun hbit => not_congr ?_
    constructor
    · rintro ⟨hlt, hhas⟩
      exact ⟨by omega, hhas⟩
    · rintro ⟨hlt, hhas⟩
      have hne : i ≠ n := by
        rintro rfl
        exact hskip ⟨hhas, hbit⟩
      exact ⟨by omega, hhas⟩
  · rw [List.range_succ, List.filter_append, ← h.served]
    simp [hskip]

/-- The bit of a queue that is served is cleared. -/
theorem UiqScan.serve (h : UiqScan uiqs sr n d) (hn : n < 14) (hhas : HasUiq uiqs n)
    (hbit : raised d.st n = true)
    (indexed : List Nat) :
    UiqScan uiqs sr (n + 1) ⟨d.st ^^^ (1#32 <<< (ME5_IRQQ_LOW + n)), indexed, d.served ++ [n]⟩ := by
  obtain ⟨-, hsr, -⟩ := (h.bits n).mp hbit
  refine ⟨fun i => ?_, fun k hk => ?_, ?_⟩
  · unfold raised
    rw [getLsbD_xor_bit]
    by_cases hi : i = n
    · subst hi
      have hlt : ME5_IRQQ_LOW + i < 32 := by
        unfold ME5_IRQQ_LOW
        omega
      have hst : d.st.getLsbD (ME5_IRQQ_LOW + i) = true := hbit
      simp [hst, hlt, hhas]
    · have hne : ¬(ME5_IRQQ_LOW + n = ME5_IRQQ_LOW + i ∧ ME5_IRQQ_LOW + i < 32) := fun hand => hi (by omega)
      rw [decide_eq_false hne, Bool.xor_false]
      refine (h.bits i).trans (and_congr_right fun _ => and_congr_right fun _ => not_congr ?_)
      exact and_congr_left fun _ => ⟨fun hlt => by omega, fun hlt => by omega⟩
  · rw [getLsbD_xor_bit, h.others k hk]
    simp only [Bool.false_xor, decide_eq_false_iff_not]
    omega
  · rw [List.range_succ, List.filter_append, ← h.served]
    simp [hhas, hsr]

theorem UiqScan.exists_raised (h : UiqScan uiqs sr n d) (hst : d.st ≠ 0) : ∃ i, raised d.st i = true := by
  by_contra hnone
  apply hst
  apply BitVec.eq_of_getLsbD_eq
  intro k hk
  rw [show (0 : Word).getLsbD k = false from BitVec.getLsbD_zero]
  by_cases hlow : k < ME5_IRQQ_LOW
  · exact h.others k hlow
  · have hbit := mt (Exists.intro (k - ME5_IRQQ_LOW)) hnone
    unfold raised at hbit
    rw [Nat.add_sub_cancel' (Nat.le_of_not_lt hlow)] at hbit
    exact Bool.eq_false_of_not_eq_true hbit

/-- How the loop ends: behind the final bit, without bits, or at an entry outside of the table. -/
inductive UiqScanEnds (uiqs : Me5UiqTable) (sr : Word) (d : UiqDispatch) : Prop
  | bits (h : UiqScan uiqs sr 14 d) (indexed : d.indexed = List.range 14)
      (inTable : ∀ i < 14, i < uiqs.length)
  | empty (n : Nat) (h : UiqScan uiqs sr n d) (le : n ≤ 14) (indexed : d.indexed = List.range n)
      (inTable : ∀ i < n, i < uiqs.length) (st : d.st = 0)
  | outside (n : Nat) (h : UiqScan uiqs sr n d) (lt : n < 14) (indexed : d.indexed = List.range (n + 1))
      (length : uiqs.length ≤ n) (st : d.st ≠ 0)

theorem uiqLoop_ends (todo : Nat) : ∀ n d, n + todo = 14 → UiqScan uiqs sr n d → d.indexed = List.range n →
    (∀ i < n, i < uiqs.length) →
    UiqScanEnds uiqs sr (uiqLoop uiqs todo (ME5_IRQQ_LOW + n) d) := by
  induction todo with
  | zero =>
    intro n d hn h hindexed hlength
    obtain rfl : n = 14 := by omega
    exact .bits h hindexed hlength
  | succ todo ih =>
    intro n d hn h hindexed hlength
    have hrange : d.indexed ++ [n] = List.range (n + 1) := by rw [hindexed, List.range_succ]
    have hsucc : ME5_IRQQ_LOW + n + 1 = ME5_IRQQ_LOW + (n + 1) := by omega
    rw [uiqLoop]
    split_ifs with hst
    · exact .empty n h (by omega) hindexed hlength hst
    · simp only [Nat.add_sub_cancel_left, hrange, hsucc]
      split
      · rename_i hentry
        exact .outside n ⟨h.bits, h.others, h.served⟩ (by omega) rfl (List.getElem?_eq_none_iff.mp hentry) hst
      all_goals
        rename_i hentry
        have hn' : ∀ i < n + 1, i < uiqs.length := by
          have hlt := (List.getElem?_eq_some_iff.mp hentry).1
          intro i hi
          omega
      · refine ih (n + 1) _ (by omega) (h.skip ?_ _) rfl hn'
        rintro ⟨⟨uiq, hsome⟩, -⟩
        rw [hentry] at hsome
        exact absurd hsome (by simp)
      · have hhas : HasUiq uiqs n := ⟨_, hentry⟩
        split_ifs with hbit
        · exact ih (n + 1) _ (by omega) (h.serve (by omega) hhas ((and_bit_iff d.st n).mp hbit) _) rfl hn'
        · refine ih (n + 1) _ (by omega) (h.skip ?_ _) rfl hn'
          rintro ⟨-, hsr⟩
          refine hbit ((and_bit_iff d.st n).mpr ((h.bits n).mpr ⟨by omega, hsr, ?_⟩))
          exact fun hlt => Nat.lt_irrefl n hlt.1

theorem me5IrqUiqs_ends (uiqs : Me5UiqTable) (sr : Word) : UiqScanEnds uiqs sr (me5IrqUiqs uiqs sr) :=
  uiqLoop_ends 14 0 _ rfl (uiqScan_start uiqs sr) rfl fun i hi => absurd hi (Nat.not_lt_zero i)

/-- What the loop serves, up to its end. -/
theorem UiqScan.count (h : UiqScan uiqs sr n d) (hi : i < n) (hhas : HasUiq uiqs i)
    (hbit : raised sr i = true) :
    d.served.count i = 1 := by
  rw [h.served]
  refine List.count_eq_one_of_mem (List.nodup_range.filter _)
    (List.mem_filter.mpr ⟨List.mem_range.mpr hi, ?_⟩)
  exact decide_eq_true ⟨hhas, hbit⟩

theorem UiqScan.present (h : UiqScan uiqs sr n d) (hi : i ∈ d.served) :
    i < n ∧ HasUiq uiqs i ∧ raised sr i = true := by
  rw [h.served, List.mem_filter, List.mem_range] at hi
  exact ⟨hi.1, of_decide_eq_true hi.2⟩

/-- Every bit that is set in the part of the status for the queues has its queue, or the table has an entry for
each of these bits; and no queue behind them has its bit set. -/
def StatusFits (uiqs : Me5UiqTable) (sr : Word) : Prop :=
  (14 ≤ uiqs.length ∨ ∀ i < 14, raised sr i = true → HasUiq uiqs i) ∧
    ∀ i, 14 ≤ i → raised sr i = true → ¬HasUiq uiqs i

theorem HasUiq.lt (h : HasUiq uiqs i) : i < uiqs.length := by
  obtain ⟨uiq, huiq⟩ := h
  exact (List.getElem?_eq_some_iff.mp huiq).1

/-- A bit of the status that is gone was that of a queue the loop has passed. -/
theorem UiqScan.cleared (h : UiqScan uiqs sr n d) (hi : i < 14) (hbit : raised sr i = true)
    (hst : raised d.st i = false) : i < n ∧ HasUiq uiqs i := by
  by_contra hnot
  exact absurd ((h.bits i).mpr ⟨hi, hbit, hnot⟩) (Bool.eq_false_iff.mp hst)

theorem UiqScanEnds.fits (h : UiqScanEnds uiqs sr d) (hd : UiqsDispatched uiqs sr d) :
    StatusFits uiqs sr := by
  have hbehind : ∀ n ≤ 14, UiqScan uiqs sr n d → ∀ i, 14 ≤ i → raised sr i = true → ¬HasUiq uiqs i := by
    intro n hn hscan i hi hbit hhas
    have hmem : i ∈ d.served := List.count_pos_iff.mp (by rw [hd.once i hhas hbit]; exact Nat.one_pos)
    have hlt := (hscan.present hmem).1
    omega
  cases h with
  | bits hscan _ htable => exact ⟨Or.inl (htable 13 (by omega)), hbehind 14 (Nat.le_refl _) hscan⟩
  | empty n hscan hle _ _ hst =>
    refine ⟨Or.inr fun i hi hbit => ?_, hbehind n hle hscan⟩
    refine (hscan.cleared hi hbit ?_).2
    rw [hst]
    exact BitVec.getLsbD_zero
  | outside n hscan hlt hindexed hlength hst =>
    have hin := hd.inTable n (by rw [hindexed]; simp)
    omega

theorem UiqScanEnds.dispatched (h : UiqScanEnds uiqs sr d) (hfits : StatusFits uiqs sr) :
    UiqsDispatched uiqs sr d := by
  obtain ⟨hrange, hbehind⟩ := hfits
  have hlow : ∀ i, HasUiq uiqs i → raised sr i = true → i < 14 := by
    intro i hhas hbit
    by_contra hge
    exact hbehind i (by omega) hbit hhas
  cases h with
  | bits hscan hindexed htable =>
    have hdone : ∀ i, HasUiq uiqs i → raised d.st i = false := by
      intro i hhas
      by_contra hbit
      obtain ⟨hi, -, hnot⟩ := (hscan.bits i).mp (Bool.eq_true_of_not_eq_false hbit)
      exact hnot ⟨hi, hhas⟩
    refine ⟨?_, fun i hhas hbit => hscan.count (hlow i hhas hbit) hhas hbit, fun i hi =>
      (hscan.present hi).2, hdone⟩
    intro i hi
    rw [hindexed, List.mem_range] at hi
    exact htable i hi
  | empty n hscan _ hindexed htable hst =>
    have hzero : ∀ i, raised d.st i = false := fun i => by
      rw [hst]
      exact BitVec.getLsbD_zero
    refine ⟨?_, ?_, fun i hi => (hscan.present hi).2, fun i _ => hzero i⟩
    · intro i hi
      rw [hindexed, List.mem_range] at hi
      exact htable i hi
    · intro i hhas hbit
      exact hscan.count (hscan.cleared (hlow i hhas hbit) hbit (hzero i)).1 hhas hbit
  | outside n hscan hlt _ hlength hst =>
    obtain ⟨i, hbit⟩ := hscan.exists_raised hst
    obtain ⟨hi, hsr, hnot⟩ := (hscan.bits i).mp hbit
    rcases hrange with hlong | hall
    · omega
    · have hhas := hall i hi hsr
      have hin := hhas.lt
      exact absurd ⟨by omega, hhas⟩ hnot

/-- The loop goes wrong with a bit that no queue clears, when the table is shorter than the bits are many. -/
theorem uiq_dispatch_iff (uiqs : Me5UiqTable) (sr : Word) :
    UiqsDispatched uiqs sr (me5IrqUiqs uiqs sr) ↔ StatusFits uiqs sr :=
  ⟨(me5IrqUiqs_ends uiqs sr).fits, (me5IrqUiqs_ends uiqs sr).dispatched⟩

/-- Four queues behind a gap of four, and the first bit of the gap. The interrupts of the gap are enabled as
those of the queues are. -/
theorem uiq_dispatch_gap : ∃ uiqs, me5InitUiqs (some .notUsed) 4#32 0#32 0x1000#32 true (fun _ => true) =
    some uiqs ∧
    me5IrqSources (me5StartIrq {} uiqs.length) 0x00010000#32 = some 0x00010000#32 ∧
    ¬UiqsDispatched uiqs 0x00010000#32 (me5IrqUiqs uiqs 0x00010000#32) := by
  refine ⟨_, rfl, by decide, fun h => ?_⟩
  have hfits := ((me5IrqUiqs_ends _ _).fits h).1
  revert hfits
  decide

/-! ### Boards without gaps -/

theorem me5StartIrq_raised (me5 : Me5Data) (hn : n ≤ 14)
    (hbit : raised (sr &&& (me5StartIrq me5 n).irqWanted) i = true) : i < n := by
  have hwanted : ∀ n ≤ 14, ∀ i < 16,
      (((1#32 <<< n) - 1 : Word) <<< 16 ||| INT_MASK_ALARMS).getLsbD (16 + i) = decide (i < n) := by decide
  unfold raised ME5_IRQQ_LOW at hbit
  rw [BitVec.getLsbD_and, Bool.and_eq_true] at hbit
  have hlt : 16 + i < 32 := BitVec.lt_of_getLsbD hbit.2
  have hbound := hwanted n hn i (by omega)
  exact of_decide_eq_true (hbound.symm.trans hbit.2)

/-- A table without gaps fits to every status, as the other interrupts are not wanted. -/
theorem uiqs_without_gaps_dispatched (me5 : Me5Data) (hall : ∀ i < uiqs.length, HasUiq uiqs i)
    (hlength : uiqs.length ≤ 14) :
    UiqsDispatched uiqs (sr &&& (me5StartIrq me5 uiqs.length).irqWanted)
      (me5IrqUiqs uiqs (sr &&& (me5StartIrq me5 uiqs.length).irqWanted)) := by
  apply (me5IrqUiqs_ends _ _).dispatched
  refine ⟨Or.inr fun i _ hbit => hall i (me5StartIrq_raised me5 hlength hbit), ?_⟩
  intro i hi hbit
  have hlt := me5StartIrq_raised me5 hlength hbit
  omega

end MenableDriver
