import MenableDriver.Sgl.SizeLimits

/-!
# The page group size of the streaming lists

`men_generate_page_group_size` serves two layouts: the last transfer has 8 bits in the lists to
the PC and 10 bits in those to the device. The number of transfers has 15 bits in both, but its
end bit is taken from the other field.
-/

namespace MenableDriver

set_option autoImplicit false

/-! ### `bits.h` -/

def genMask32 (fromBit toBit : Nat) : BitVec 32 :=
  (BitVec.allOnes 32 >>> (32 - (toBit + 1))) &&& (BitVec.allOnes 32 <<< fromBit)

def setBits32 (word val : BitVec 32) (fromBit toBit : Nat) : BitVec 32 :=
  (word &&& ~~~genMask32 fromBit toBit) ||| ((val <<< fromBit) &&& genMask32 fromBit toBit)

/-! ### `me6_sgl.c` -/

/-- The sum is made in an `uint32_t`. -/
def ceilDiv (a b : Nat) : Nat := (a + b - 1) % 2 ^ 32 / b

/-- What is printed; the function goes on. -/
inductive PageGroupSizeError
  /-- "Invalid SGL entry block size. Maximum of %u transfers of %u bytes each." -/
  | transfers (maxNumTransfers numBytesPerPciTransfer : Nat)
  /-- "Invalid SGL entry block size. Maximum of %u 32 bit words in last transfer, but got %u." -/
  | lastTransfer (maxLastTransferSize num32bitWordsInLastTransfer : Nat)
deriving DecidableEq

def menGeneratePageGroupSize (offsetInPage dataSizeInBytes numBytesPerPciTransfer
    bitsInLastTransferSizeField : Nat) : List PageGroupSizeError × BitVec 32 :=
  let bitsInNumTransfersField := 15
  let offsetInPciChunk := offsetInPage % numBytesPerPciTransfer
  let bytesInFirstChunk := numBytesPerPciTransfer - offsetInPciChunk
  let (numTransfers, numBytesInLastTransfer) :=
    if dataSizeInBytes ≤ bytesInFirstChunk then (1, dataSizeInBytes)
    else
      let numBytesBeyondFirstChunk := dataSizeInBytes - bytesInFirstChunk
      let numTransfers := 1 + ceilDiv numBytesBeyondFirstChunk numBytesPerPciTransfer
      let numBytesInLastTransfer := numBytesBeyondFirstChunk % numBytesPerPciTransfer
      (numTransfers, if numBytesInLastTransfer = 0 then numBytesPerPciTransfer else numBytesInLastTransfer)
  let num32bitWordsInLastTransfer := numBytesInLastTransfer / 4
  let maxNumTransfers := 1 <<< bitsInNumTransfersField
  let maxLastTransferSize := 1 <<< bitsInLastTransferSizeField
  let transferErrors :=
    if numTransfers > maxNumTransfers then [.transfers maxNumTransfers numBytesPerPciTransfer] else []
  let lastErrors :=
    if num32bitWordsInLastTransfer > maxLastTransferSize then
      [.lastTransfer maxLastTransferSize num32bitWordsInLastTransfer]
    else []
  let endBitForNumTransfers := bitsInLastTransferSizeField - 1
  let startBitForLastTransferSize := bitsInNumTransfersField
  let endBitForLastTransferSize := startBitForLastTransferSize + bitsInLastTransferSizeField - 1
  let sizeValue := setBits32 0 (BitVec.ofNat 32 numTransfers) 0 endBitForNumTransfers
  let sizeValue := setBits32 sizeValue (BitVec.ofNat 32 num32bitWordsInLastTransfer)
    startBitForLastTransferSize endBitForLastTransferSize
  (transferErrors ++ lastErrors, sizeValue)

/-! ### The two fields -/

variable {x y : BitVec 32} {f t j : Nat}

theorem genMask32_bit (ht : t ≤ 31) : (genMask32 f t).getLsbD j = decide (f ≤ j ∧ j ≤ t) := by
  rw [genMask32, BitVec.getLsbD_and, BitVec.getLsbD_ushiftRight, BitVec.getLsbD_shiftLeft,
    BitVec.getLsbD_allOnes, BitVec.getLsbD_allOnes, Bool.eq_iff_iff]
  simp only [Bool.and_eq_true, decide_eq_true_eq, Bool.not_eq_true', decide_eq_false_iff_not]
  omega

theorem setBits32_bit (ht : t ≤ 31) (hj : j < 32) :
    (setBits32 x y f t).getLsbD j = if f ≤ j ∧ j ≤ t then y.getLsbD (j - f) else x.getLsbD j := by
  simp only [setBits32, BitVec.getLsbD_or, BitVec.getLsbD_and, BitVec.getLsbD_not, BitVec.getLsbD_shiftLeft,
    genMask32_bit ht, decide_eq_true hj, Bool.true_and]
  by_cases hin : f ≤ j ∧ j ≤ t
  · have hf : ¬ j < f := by omega
    simp [hin, hf]
  · simp [hin]

/-- The number of transfers has the bits of the other field. -/
theorem pageGroupFields_toNat {bits : Nat} (h0 : 0 < bits) (h15 : bits ≤ 15) (transfers words : BitVec 32) :
    (setBits32 (setBits32 0 transfers 0 (bits - 1)) words 15 (15 + bits - 1)).toNat =
      transfers.toNat % 2 ^ bits + words.toNat % 2 ^ bits * 2 ^ 15 := by
  have hlt : transfers.toNat % 2 ^ bits < 2 ^ 15 :=
    Nat.lt_of_lt_of_le (Nat.mod_lt _ (Nat.two_pow_pos bits)) (Nat.pow_le_pow_right (by decide) h15)
  have hsum : transfers.toNat % 2 ^ bits + words.toNat % 2 ^ bits * 2 ^ 15 =
      2 ^ 15 * (words.toNat % 2 ^ bits) + transfers.toNat % 2 ^ bits := by omega
  rw [hsum]
  apply Nat.eq_of_testBit_eq
  intro j
  rw [Nat.testBit_two_pow_mul_add _ hlt, Nat.testBit_mod_two_pow, Nat.testBit_mod_two_pow,
    ← BitVec.getLsbD, ← BitVec.getLsbD, ← BitVec.getLsbD]
  have hzero : (0 : BitVec 32).getLsbD j = false := BitVec.getLsbD_zero
  by_cases hj : j < 32
  · rw [setBits32_bit (by omega) hj, setBits32_bit (by omega) hj, hzero, Nat.sub_zero]
    by_cases hlow : j < 15
    · rw [if_neg (by omega), if_pos hlow]
      by_cases hb : j < bits
      · rw [if_pos (by omega), decide_eq_true hb, Bool.true_and]
      · rw [if_neg (by omega), decide_eq_false hb, Bool.false_and]
    · rw [if_neg hlow]
      by_cases hb : j - 15 < bits
      · rw [if_pos (by omega), decide_eq_true hb, Bool.true_and]
      · rw [if_neg (by omega), if_neg (by omega), decide_eq_false hb, Bool.false_and]
  · rw [BitVec.getLsbD_of_ge _ _ (by omega), if_neg (by omega), decide_eq_false (by omega), Bool.false_and]

/-- Whatever the counts are, they stay in their fields. -/
theorem pageGroupSize_lt (offset len payload : Nat) {bits : Nat} (h0 : 0 < bits) (h15 : bits ≤ 15) :
    (menGeneratePageGroupSize offset len payload bits).2.toNat < 2 ^ (15 + bits) := by
  unfold menGeneratePageGroupSize
  simp only
  generalize (if len ≤ payload - offset % payload then (1, len) else _) = counts
  rw [pageGroupFields_toNat h0 h15, Nat.pow_add, Nat.mul_comm (2 ^ 15)]
  have hcount := Nat.mod_lt (BitVec.ofNat 32 counts.1).toNat (Nat.two_pow_pos bits)
  have hwords := Nat.mod_lt (BitVec.ofNat 32 (counts.2 / 4)).toNat (Nat.two_pow_pos bits)
  have hle : 2 ^ bits ≤ 2 ^ 15 := Nat.pow_le_pow_right (by decide) h15
  omega

/-! ### What the size means -/

def pageGroupWords (bits groupSize : Nat) : Nat :=
  if groupSize / 2 ^ 15 % 2 ^ bits = 0 then 2 ^ bits else groupSize / 2 ^ 15 % 2 ^ bits

/-- `decodedLength` for a last transfer of `bits` bits. -/
def pageGroupLength (bits offset groupSize payload : Nat) : Nat :=
  if decodedTransfers groupSize = 1 then pageGroupWords bits groupSize * 4
  else (payload - offset % payload) + (decodedTransfers groupSize - 2) * payload +
    pageGroupWords bits groupSize * 4

/-- The fields are the counts, and the size decodes to the length. -/
structure PageGroupSizeLaw (bits offset len payload groupSize : Nat) : Prop where
  count : groupSize % 2 ^ 15 = transfers offset len payload % 2 ^ 15
  words : groupSize / 2 ^ 15 % 2 ^ bits = lastTransfer offset len payload / 4 % 2 ^ bits
  length : pageGroupLength bits offset groupSize payload = len

/-- The data, counted from the start of the first transfer's window, fills less than `2 ^ bits`
windows or exactly `2 ^ 15`. -/
def CountFits (bits offset len payload : Nat) : Prop :=
  offset % payload + len ≤ (2 ^ bits - 1) * payload ∨
    ((2 ^ 15 - 1) * payload < offset % payload + len ∧ offset % payload + len ≤ 2 ^ 15 * payload)

variable {offset len payload bits k : Nat}

theorem countFits_iff (hp : 0 < payload) (bits : Nat) :
    CountFits bits offset len payload ↔
      transfers offset len payload < 2 ^ bits ∨ transfers offset len payload = 2 ^ 15 := by
  have hbits : 0 < 2 ^ bits := Nat.two_pow_pos bits
  have hlow := transfers_le_iff offset len hp (2 ^ bits - 1)
  have hmid := transfers_le_iff offset len hp (2 ^ 15 - 1)
  have hhigh := transfers_le_iff offset len hp (2 ^ 15)
  rw [CountFits, ← hlow, ← hhigh, ← not_le, ← hmid]
  omega

/-- A rest of 0 is a full transfer. -/
theorem fullRest_eq {n : Nat} (hp : 0 < payload) (hn : 0 < n) :
    (if n % payload = 0 then payload else n % payload) = (n - 1) % payload + 1 := by
  have hdiv := Nat.div_add_mod (n - 1) payload
  have hlt : (n - 1) % payload < payload := Nat.mod_lt _ hp
  generalize (n - 1) / payload = q at hdiv
  generalize (n - 1) % payload = r at hdiv hlt
  have hmod : n % payload = (r + 1) % payload := by
    rw [show n = payload * q + (r + 1) by omega, Nat.mul_add_mod]
  rw [hmod]
  rcases Nat.lt_or_eq_of_le (Nat.succ_le_of_lt hlt) with hless | hfull
  · rw [Nat.mod_eq_of_lt hless, if_neg (Nat.succ_ne_zero r)]
  · rw [show r + 1 = payload from hfull, Nat.mod_self, if_pos rfl]

theorem ceilDiv_eq {n : Nat} (hp : 0 < payload) (hn : 0 < n) (hfits : n + payload ≤ 2 ^ 32) :
    1 + ceilDiv n payload = (n + payload + payload - 1) / payload := by
  rw [ceilDiv, Nat.mod_eq_of_lt (by omega), show n + payload + payload - 1 = n + payload - 1 + payload by omega,
    Nat.add_div_right _ hp, Nat.add_comm]

/-- Both counts as the function makes them, unless the sum of `CEIL_DIV` wraps. -/
theorem menGeneratePageGroupSize_eq (hp : 0 < payload) (hlen : 0 < len)
    (hfits : offset % payload + len ≤ 2 ^ 32) :
    menGeneratePageGroupSize offset len payload bits =
      ((if transfers offset len payload > 2 ^ 15 then [.transfers (2 ^ 15) payload] else []) ++
        (if lastTransfer offset len payload / 4 > 2 ^ bits then
          [.lastTransfer (2 ^ bits) (lastTransfer offset len payload / 4)] else []),
        setBits32 (setBits32 0 (BitVec.ofNat 32 (transfers offset len payload)) 0 (bits - 1))
          (BitVec.ofNat 32 (lastTransfer offset len payload / 4)) 15 (15 + bits - 1)) := by
  have hoff : offset % payload < payload := Nat.mod_lt _ hp
  have hlast := lastTransfer_eq offset hp hlen
  have hcounts : (if len ≤ payload - offset % payload then (1, len)
      else (1 + ceilDiv (len - (payload - offset % payload)) payload,
        if (len - (payload - offset % payload)) % payload = 0 then payload
        else (len - (payload - offset % payload)) % payload)) =
      (transfers offset len payload, lastTransfer offset len payload) := by
    rcases transfers_sum offset hp hlen with ⟨hone, hl, hfit⟩ | ⟨_, hcross, _⟩
    · rw [if_pos (by omega), hone, hl]
    · obtain ⟨n, hn⟩ : ∃ n, offset % payload + len =
        n + payload := ⟨offset % payload + len - payload, by omega⟩
      have hbeyond : len - (payload - offset % payload) = n := by omega
      have hmod : (n + payload - 1) % payload = (n - 1) % payload := by
        rw [show n + payload - 1 = n - 1 + payload by omega, Nat.add_mod_right]
      rw [if_neg (by omega), hbeyond, ceilDiv_eq hp (by omega) (by omega), fullRest_eq hp (by omega),
        transfers,
        hlast, if_neg (by omega), hn, hmod]
  unfold menGeneratePageGroupSize
  simp only [Nat.one_shiftLeft, hcounts]

theorem pageGroupSize_toNat (hp : 0 < payload) (hlen : 0 < len) (hfits : offset % payload + len ≤ 2 ^ 32)
    (h0 : 0 < bits) (h15 : bits ≤ 15) :
    (menGeneratePageGroupSize offset len payload bits).2.toNat =
      transfers offset len payload % 2 ^ bits + lastTransfer offset len payload / 4 % 2 ^ bits * 2 ^ 15 := by
  have hword : ∀ n, n % 2 ^ 32 % 2 ^ bits = n % 2 ^ bits := fun n =>
    Nat.mod_mod_of_dvd n (Nat.pow_dvd_pow 2 (by omega))
  rw [menGeneratePageGroupSize_eq hp hlen hfits, pageGroupFields_toNat h0 h15, BitVec.toNat_ofNat,
    BitVec.toNat_ofNat, hword, hword]

/-- When `CEIL_DIV` wraps, one transfer is left of the count. -/
theorem pageGroupSize_wrap (hp : 0 < payload) (hsmall : payload ≤ 2 ^ 31)
    (hwrap : 2 ^ 32 < offset % payload + len) (hlen : len < 2 ^ 32) (h0 : 0 < bits) (h15 : bits ≤ 15) :
    (menGeneratePageGroupSize offset len payload bits).2.toNat % 2 ^ 15 = 1 := by
  have hoff : offset % payload < payload := Nat.mod_lt _ hp
  have hceil : ceilDiv (len - (payload - offset % payload)) payload = 0 := by
    rw [ceilDiv, Nat.div_eq_of_lt]
    omega
  have hone : 1 % 2 ^ bits = 1 := Nat.mod_eq_of_lt (Nat.one_lt_two_pow (by omega))
  unfold menGeneratePageGroupSize
  simp only [if_neg (show ¬ len ≤ payload - offset % payload by omega), hceil]
  rw [pageGroupFields_toNat h0 h15, Nat.add_mul_mod_self_right]
  exact hone.symm ▸ rfl

theorem pageGroupWords_le (bits groupSize : Nat) : pageGroupWords bits groupSize ≤ 2 ^ bits := by
  rw [pageGroupWords]
  split
  · exact Nat.le_refl _
  · exact Nat.le_of_lt (Nat.mod_lt _ (Nat.two_pow_pos bits))

/-- Right fields decode to the length. -/
theorem PageGroupSizeLaw.of_fields {groupSize : Nat} (hp : 0 < payload) (hlen : 0 < len)
    (ht : transfers offset len payload ≤ 2 ^ 15) (hw4 : 4 ∣ lastTransfer offset len payload)
    (hw : lastTransfer offset len payload / 4 ≤ 2 ^ bits)
    (htransfers : groupSize % 2 ^ 15 = transfers offset len payload % 2 ^ 15)
    (hwords : groupSize / 2 ^ 15 % 2 ^ bits = lastTransfer offset len payload / 4 % 2 ^ bits) :
    PageGroupSizeLaw bits offset len payload groupSize := by
  refine ⟨htransfers, hwords, ?_⟩
  obtain ⟨hpos, _⟩ := transfers_spec offset hp hlen
  obtain ⟨hlpos, _⟩ := lastTransfer_le offset hp hlen
  have hcount : decodedTransfers groupSize = transfers offset len payload := by
    rw [decodedTransfers, htransfers]
    split <;> omega
  have hlast : pageGroupWords bits groupSize = lastTransfer offset len payload / 4 := by
    rw [pageGroupWords, hwords]
    rcases Nat.lt_or_eq_of_le hw with hless | hfull
    · rw [Nat.mod_eq_of_lt hless, if_neg (by omega)]
    · rw [hfull, Nat.mod_self, if_pos rfl]
  rw [pageGroupLength, hcount, hlast]
  rcases transfers_sum offset hp hlen with ⟨hone, hl, _⟩ | ⟨htwo, _, hsum⟩
  · rw [if_pos hone]
    omega
  · rw [if_neg (by omega)]
    omega

/-- The size of a group whose transfers can be counted. -/
theorem pageGroupSize_law (hbits : bits = 8 ∨ bits = 10) (hk : 7 ≤ k ∧ k ≤ bits + 2) (hoff4 : 4 ∣ offset)
    (hlen4 : 4 ∣ len) (hlen : 4 ≤ len) (hfits : CountFits bits offset len (2 ^ k)) :
    PageGroupSizeLaw bits offset len (2 ^ k) (menGeneratePageGroupSize offset len (2 ^ k) bits).2.toNat := by
  have hp : 0 < 2 ^ k := Nat.two_pow_pos k
  have hmax : 2 ^ k ≤ 2 ^ (bits + 2) := Nat.pow_le_pow_right (by decide) hk.2
  have hmul : 2 ^ 15 * 2 ^ k ≤ 2 ^ 15 * 2 ^ (bits + 2) := Nat.mul_le_mul_left _ hmax
  have hlen0 : 0 < len := by omega
  have hl4 := lastTransfer_dvd hp hlen0 (Nat.pow_dvd_pow 2 (by omega : 2 ≤ k)) hoff4 hlen4
  obtain ⟨_, hlle⟩ := lastTransfer_le offset hp hlen0
  have ht := (countFits_iff hp bits).mp hfits
  have hsum : offset % 2 ^ k + len ≤ 2 ^ 15 * 2 ^ k := by
    rw [← transfers_le_iff _ _ hp]
    rcases hbits with rfl | rfl <;> omega
  have hmod : offset % 2 ^ k + len ≤ 2 ^ 32 := by rcases hbits with rfl | rfl <;> omega
  have hvalue := pageGroupSize_toNat hp hlen0 hmod (by omega : 0 < bits) (by omega)
  refine .of_fields hp hlen0 ((transfers_le_iff _ _ hp _).mpr hsum) hl4 ?_ ?_ ?_
  all_goals rcases hbits with rfl | rfl <;> omega

/-- The size is right as long as the transfers can be counted in the bits of the other field,
and once more where the count is 0 anyway. -/
theorem pageGroupSize_law_iff (bits k offset len : Nat) (hbits : bits = 8 ∨ bits = 10)
    (hk : 7 ≤ k ∧ k ≤ bits + 2) (hoff4 : 4 ∣ offset) (hlen4 : 4 ∣ len) (hlen : 4 ≤ len)
    (hlen32 : len < 2 ^ 32) (hok : (menGeneratePageGroupSize offset len (2 ^ k) bits).1 = []) :
    PageGroupSizeLaw bits offset len (2 ^ k) (menGeneratePageGroupSize offset len (2 ^ k) bits).2.toNat ↔
      CountFits bits offset len (2 ^ k) := by
  have hp : 0 < 2 ^ k := Nat.two_pow_pos k
  have hmax : 2 ^ k ≤ 2 ^ (bits + 2) := Nat.pow_le_pow_right (by decide) hk.2
  refine ⟨fun h => ?_, pageGroupSize_law hbits hk hoff4 hlen4 hlen⟩
  by_cases hwrap : 2 ^ 32 < offset % 2 ^ k + len
  · have hone := pageGroupSize_wrap hp (by rcases hbits with rfl | rfl <;> omega) hwrap hlen32
      (by omega : 0 < bits) (by omega)
    have hcount : decodedTransfers (menGeneratePageGroupSize offset len (2 ^ k) bits).2.toNat = 1 := by
      rw [decodedTransfers, hone, if_neg (by decide)]
    have hlength := h.length
    have hwords := pageGroupWords_le bits (menGeneratePageGroupSize offset len (2 ^ k) bits).2.toNat
    rw [pageGroupLength, if_pos hcount] at hlength
    rcases hbits with rfl | rfl <;> omega
  · have hsum : offset % 2 ^ k + len ≤ 2 ^ 32 := Nat.not_lt.mp hwrap
    have hvalue := pageGroupSize_toNat hp (by omega : 0 < len) hsum (by omega : 0 < bits) (by omega)
    have hcount := h.count
    rw [countFits_iff hp]
    have ht : transfers offset len (2 ^ k) ≤ 2 ^ 15 := by
      rw [menGeneratePageGroupSize_eq hp (by omega) hsum, List.append_eq_nil_iff] at hok
      by_contra hmore
      rw [if_pos (Nat.lt_of_not_le hmore)] at hok
      cases hok.1
    rcases hbits with rfl | rfl <;> omega

theorem pageGroupSize_law_page :
    PageGroupSizeLaw 10 0x24 0xfdc (2 ^ 12) (menGeneratePageGroupSize 0x24 0xfdc (2 ^ 12) 10).2.toNat :=
  (pageGroupSize_law_iff 10 12 0x24 0xfdc (.inr rfl) (by decide) (by decide) (by decide) (by decide)
    (by decide) (by decide)).mpr (.inl (by decide))

/-- 256 transfers of 128 bytes to the PC are counted as 0. -/
theorem pageGroupSize_law_fails : (menGeneratePageGroupSize 0 (256 * 128) (2 ^ 7) 8).1 = [] ∧
    ¬ PageGroupSizeLaw 8 0 (256 * 128) (2 ^ 7)
      (menGeneratePageGroupSize 0 (256 * 128) (2 ^ 7) 8).2.toNat := by
  refine ⟨by decide, fun h => ?_⟩
  exact absurd h.count (by decide)

end MenableDriver
