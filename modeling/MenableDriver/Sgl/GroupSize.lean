import Mathlib.Algebra.Order.Ring.Int

/-!
# The size of a page group

A page group is read or written in transfers of one PCIe payload. The first one ends at the
next multiple of the payload size, so it is short when the group starts inside a payload.
The encoded size holds the number of transfers and the number of words of the last one; a
field of 0 stands for its maximum.
-/

namespace MenableDriver

set_option autoImplicit false

/-- `BUG_ON` ends with `none`. -/
def me6SglSize (offset size payload : Nat) : Option Nat :=
  let firstTransferSize := if offset % payload = 0 then payload else payload - offset % payload
  let (numTransfers, lastTransferSize) :=
    if size ≤ firstTransferSize then (1, size)
    else
      let alignedTransferSize := size - firstTransferSize
      let numTransfers := 1 + alignedTransferSize / payload
      let lastTransferSize := alignedTransferSize % payload
      if lastTransferSize = 0 then (numTransfers, payload) else (numTransfers + 1, lastTransferSize)
  let lastTransferSize := lastTransferSize / 4
  if numTransfers > 2 ^ 15 ∨ lastTransferSize > 2 ^ 8 then none
  else some ((numTransfers &&& 0x7fff) ||| ((lastTransferSize &&& 0xff) <<< 15))

/-- The sums are made in an `uint32_t`. -/
def computeGroupSize (physAddr chunkSize pciPayloadSize : Nat) : Nat :=
  let alignedChunkSize := (chunkSize + (physAddr &&& (pciPayloadSize - 1))) % 2 ^ 32
  let payloadCount := (alignedChunkSize + pciPayloadSize - 1) % 2 ^ 32 / pciPayloadSize &&& 0x7fff
  let lastPayloadSize := alignedChunkSize % pciPayloadSize
  let lastPayloadSize := if lastPayloadSize = 0 then lastPayloadSize + pciPayloadSize else lastPayloadSize
  let lastPayloadSize := lastPayloadSize / 4 &&& 0xff
  payloadCount ||| (lastPayloadSize <<< 15)

/-! ### What the size means -/

/-- The number of transfers for `len` bytes from `offset` on. -/
def transfers (offset len payload : Nat) : Nat := (offset % payload + len + payload - 1) / payload

/-- The bytes of the last one. -/
def lastTransfer (offset len payload : Nat) : Nat :=
  if offset % payload + len ≤ payload then len
  else offset % payload + len - (transfers offset len payload - 1) * payload

def encodeGroupSize (numTransfers words : Nat) : Nat := numTransfers % 2 ^ 15 + words % 2 ^ 8 * 2 ^ 15

def decodedTransfers (groupSize : Nat) : Nat := if groupSize % 2 ^ 15 = 0 then 2 ^ 15 else groupSize % 2 ^ 15

def decodedWords (groupSize : Nat) : Nat :=
  if groupSize / 2 ^ 15 % 2 ^ 8 = 0 then 2 ^ 8 else groupSize / 2 ^ 15 % 2 ^ 8

/-- The number of bytes that the device moves for an entry. -/
def decodedLength (offset groupSize payload : Nat) : Nat :=
  if decodedTransfers groupSize = 1 then decodedWords groupSize * 4
  else (payload - offset % payload) + (decodedTransfers groupSize - 2) * payload + decodedWords groupSize * 4

variable {offset len payload : Nat}

theorem fields_eq (t w : Nat) : (t &&& 0x7fff) ||| ((w &&& 0xff) <<< 15) = encodeGroupSize t w := by
  have ht : t &&& 0x7fff = t % 2 ^ 15 := Nat.and_two_pow_sub_one_eq_mod t 15
  have hw : w &&& 0xff = w % 2 ^ 8 := Nat.and_two_pow_sub_one_eq_mod w 8
  have hlt : t % 2 ^ 15 < 2 ^ 15 := Nat.mod_lt _ (by decide)
  rw [ht, hw, Nat.shiftLeft_eq, Nat.or_comm, Nat.mul_comm, ← Nat.two_pow_add_eq_or_of_lt hlt, encodeGroupSize]
  omega

theorem encodeGroupSize_lt (t w : Nat) : encodeGroupSize t w < 2 ^ 23 := by
  unfold encodeGroupSize
  omega

theorem me6SglSize_lt {g : Nat} (h : me6SglSize offset len payload = some g) : g < 2 ^ 23 := by
  simp only [me6SglSize, fields_eq, Option.ite_none_left_eq_some, Option.some.injEq] at h
  obtain ⟨_, rfl⟩ := h
  exact encodeGroupSize_lt _ _

/-- The last transfer behind `q` full ones. -/
theorem ceil_div {p q r : Nat} (hr : r < p) : (p * q + r + p - 1) / p = if r = 0 then q else q + 1 := by
  have hp : 0 < p := by omega
  split
  · rename_i hz
    rw [hz, show p * q + 0 + p - 1 = (p - 1) + p * q by omega, Nat.add_mul_div_left _ _ hp,
      Nat.div_eq_of_lt (by omega), Nat.zero_add]
  · rw [show p * q + r + p - 1 = (r - 1) + p * (q + 1) by rw [Nat.mul_succ]; omega,
      Nat.add_mul_div_left _ _ hp,
      Nat.div_eq_of_lt (by omega), Nat.zero_add]

theorem me6SglSize_eq (hp : 0 < payload) (hlen : 0 < len) :
    me6SglSize offset len payload =
      if transfers offset len payload > 2 ^ 15 ∨ lastTransfer offset len payload / 4 > 2 ^ 8 then none
      else some (encodeGroupSize (transfers offset len payload) (lastTransfer offset len payload / 4)) := by
  have hoff : offset % payload < payload := Nat.mod_lt _ hp
  have hfirst : (if offset % payload = 0 then payload else payload - offset % payload) =
      payload - offset % payload := by
    split
    · omega
    · rfl
  unfold me6SglSize lastTransfer transfers
  simp only [hfirst, fields_eq]
  generalize offset % payload = o at hoff
  by_cases hone : len ≤ payload - o
  · have hq : (o + len + payload - 1) / payload = 1 := by
      rw [show o + len + payload - 1 = (o + len - 1) + payload by omega, Nat.add_div_right _ hp,
        Nat.div_eq_of_lt (by omega)]
    have hfit : o + len ≤ payload := by omega
    simp only [if_pos hone, if_pos hfit, hq]
  · have hcross : ¬ o + len ≤ payload := by omega
    simp only [if_neg hone, if_neg hcross]
    have hdiv := Nat.div_add_mod (len - (payload - o)) payload
    have hrem : (len - (payload - o)) % payload < payload := Nat.mod_lt _ hp
    generalize (len - (payload - o)) / payload = q at hdiv
    generalize (len - (payload - o)) % payload = r at hdiv hrem
    have hsum : o + len = payload * (q + 1) + r := by
      rw [Nat.mul_succ]
      omega
    rw [hsum, ceil_div hrem]
    by_cases hz : r = 0
    · have hlast : payload * (q + 1) + r - (q + 1 - 1) * payload = payload := by
        rw [Nat.mul_succ, Nat.add_sub_cancel, Nat.mul_comm q payload]
        omega
      simp only [if_pos hz, hlast, Nat.add_comm 1 q]
    · have hlast : payload * (q + 1) + r - (q + 1 + 1 - 1) * payload = r := by
        rw [Nat.add_sub_cancel, Nat.mul_comm (q + 1) payload]
        omega
      simp only [if_neg hz, hlast, Nat.add_comm 1 q]

/-- All transfers but the last one end inside the group. -/
theorem transfers_spec (offset : Nat) (hp : 0 < payload) (hlen : 0 < len) :
    0 < transfers offset len payload ∧
      (transfers offset len payload - 1) * payload < offset % payload + len ∧
      offset % payload + len ≤ (transfers offset len payload - 1) * payload + payload := by
  unfold transfers
  generalize offset % payload = o
  have hdiv := Nat.div_add_mod (o + len + payload - 1) payload
  have hrem : (o + len + payload - 1) % payload < payload := Nat.mod_lt _ hp
  generalize (o + len + payload - 1) / payload = t at hdiv
  cases t with
  | zero => omega
  | succ t =>
    rw [Nat.mul_succ, Nat.mul_comm] at hdiv
    rw [Nat.add_sub_cancel]
    omega

theorem lastTransfer_le (offset : Nat) (hp : 0 < payload) (hlen : 0 < len) :
    0 < lastTransfer offset len payload ∧ lastTransfer offset len payload ≤ payload := by
  obtain ⟨_, hlow, hhigh⟩ := transfers_spec offset hp hlen
  unfold lastTransfer
  split <;> omega

/-- The transfers together are the group. -/
theorem transfers_sum (offset : Nat) (hp : 0 < payload) (hlen : 0 < len) :
    (transfers offset len payload = 1 ∧ lastTransfer offset len payload = len ∧
      offset % payload + len ≤ payload) ∨
      (2 ≤ transfers offset len payload ∧ payload < offset % payload + len ∧
        (payload - offset % payload) + (transfers offset len payload - 2) * payload +
          lastTransfer offset len payload = len) := by
  obtain ⟨hpos, hlow, hhigh⟩ := transfers_spec offset hp hlen
  have hoff : offset % payload < payload := Nat.mod_lt _ hp
  unfold lastTransfer
  generalize transfers offset len payload = t at *
  generalize offset % payload = o at *
  match t with
  | 0 => omega
  | 1 =>
    rw [Nat.sub_self, Nat.zero_mul, Nat.zero_add] at hhigh
    exact .inl ⟨rfl, if_pos hhigh, hhigh⟩
  | t + 2 =>
    have hsub : t + 2 - 1 = t + 1 := rfl
    rw [hsub, Nat.succ_mul] at hlow hhigh
    refine .inr ⟨by omega, by omega, ?_⟩
    rw [if_neg (by omega), hsub, Nat.succ_mul, Nat.add_sub_cancel]
    omega

theorem decodedTransfers_encode {t w : Nat} (h0 : 0 < t) (h : t ≤ 2 ^ 15) :
    decodedTransfers (encodeGroupSize t w) = t := by
  unfold decodedTransfers encodeGroupSize
  rw [Nat.add_mul_mod_self_right, Nat.mod_mod]
  split <;> omega

theorem decodedWords_encode {w : Nat} (t : Nat) (h : w ≤ 2 ^ 8) :
    decodedWords (encodeGroupSize t w) = if w = 0 then 2 ^ 8 else w := by
  unfold decodedWords encodeGroupSize
  have hfield : (t % 2 ^ 15 + w % 2 ^ 8 * 2 ^ 15) / 2 ^ 15 % 2 ^ 8 = w % 2 ^ 8 := by omega
  rw [hfield]
  split <;> split <;> omega

/-- Both fields in range, the size decodes to the length. -/
theorem decodedLength_encode (hp : 0 < payload) (hlen : 0 < len) (ht : transfers offset len payload ≤ 2 ^ 15)
    (hw : 4 ≤ lastTransfer offset len payload) (hw4 : lastTransfer offset len payload % 4 = 0)
    (hw8 : lastTransfer offset len payload / 4 ≤ 2 ^ 8) :
    decodedLength offset
      (encodeGroupSize (transfers offset len payload) (lastTransfer offset len payload / 4)) payload =
        len := by
  obtain ⟨hpos, _⟩ := transfers_spec offset hp hlen
  have hwords : ¬ lastTransfer offset len payload / 4 = 0 := by omega
  rw [decodedLength, decodedTransfers_encode hpos ht, decodedWords_encode _ hw8, if_neg hwords]
  rcases transfers_sum offset hp hlen with ⟨hone, hl, _⟩ | ⟨htwo, _, hsum⟩
  · rw [if_pos hone]
    omega
  · rw [if_neg (by omega)]
    omega

/-- Only the place inside a payload counts. -/
theorem sizes_congr (len : Nat) {offset' : Nat} (h : offset % payload = offset' % payload) :
    transfers offset len payload = transfers offset' len payload ∧
      lastTransfer offset len payload = lastTransfer offset' len payload := by
  have ht : transfers offset len payload = transfers offset' len payload := by rw [transfers, transfers, h]
  exact ⟨ht, by rw [lastTransfer, lastTransfer, h, ht]⟩

theorem page_offset {k : Nat} (hk : k ≤ 12) (addr : Nat) : (addr &&& 0xfff) % 2 ^ k = addr % 2 ^ k := by
  have hmask : addr &&& 0xfff = addr % 2 ^ 12 := Nat.and_two_pow_sub_one_eq_mod addr 12
  rw [hmask]
  exact Nat.mod_mod_of_dvd addr (Nat.pow_dvd_pow 2 hk)

/-- The offset inside the page is as good as the address. -/
theorem me6SglSize_page {k : Nat} (hk : k ≤ 12) (addr : Nat) (hlen : 0 < len) :
    me6SglSize (addr &&& 0xfff) len (2 ^ k) =
      if transfers addr len (2 ^ k) > 2 ^ 15 ∨ lastTransfer addr len (2 ^ k) / 4 > 2 ^ 8 then none
      else some (encodeGroupSize (transfers addr len (2 ^ k)) (lastTransfer addr len (2 ^ k) / 4)) := by
  obtain ⟨ht, hl⟩ := sizes_congr len (page_offset hk addr)
  rw [me6SglSize_eq (Nat.two_pow_pos k) hlen, ht, hl]

theorem lastTransfer_dvd (hp : 0 < payload) (hlen : 0 < len) (hp4 : 4 ∣ payload) (ho4 : 4 ∣ offset)
    (hl4 : 4 ∣ len) :
    4 ∣ lastTransfer offset len payload := by
  have hoff : offset % payload < payload := Nat.mod_lt _ hp
  have hoff4 : 4 ∣ offset % payload := (Nat.dvd_mod_iff hp4).mpr ho4
  rcases transfers_sum offset hp hlen with ⟨_, hl, _⟩ | ⟨_, _, hsum⟩
  · rwa [hl]
  · have hmul : 4 ∣ (transfers offset len payload - 2) * payload := Nat.dvd_mul_left_of_dvd hp4 _
    omega

/-- Whole words in at most `2 ^ 15` transfers keep their length. -/
theorem me6SglSize_decode {k addr : Nat} (hk : 7 ≤ k ∧ k ≤ 10) (haddr : 4 ∣ addr) (hlen4 : 4 ∣ len)
    (hlen : 0 < len)
    (ht : transfers addr len (2 ^ k) ≤ 2 ^ 15) :
    ∃ g, me6SglSize (addr &&& 0xfff) len (2 ^ k) = some g ∧
      g = encodeGroupSize (transfers addr len (2 ^ k)) (lastTransfer addr len (2 ^ k) / 4) ∧
      decodedLength addr g (2 ^ k) = len := by
  have hp : 0 < 2 ^ k := Nat.two_pow_pos k
  have hp4 : 4 ∣ 2 ^ k := Nat.pow_dvd_pow 2 (by omega : 2 ≤ k)
  have hmax : 2 ^ k ≤ 1024 := Nat.pow_le_pow_right (by decide) hk.2
  obtain ⟨hlpos, hlle⟩ := lastTransfer_le addr hp hlen
  have hl4 := lastTransfer_dvd hp hlen hp4 haddr hlen4
  refine ⟨_, ?_, rfl, decodedLength_encode hp hlen ht (by omega) (by omega) (by omega)⟩
  rw [me6SglSize_page (by omega) addr hlen, if_neg (by omega)]

/-- What `compute_group_size` takes for the last transfer: the group counted from the start of
the first payload. -/
def alignedLast (offset len payload : Nat) : Nat :=
  offset % payload + len - (transfers offset len payload - 1) * payload

theorem computeGroupSize_eq (offset : Nat) {k : Nat} (hpay : payload = 2 ^ k) (hlen : 0 < len)
    (hfits : offset % payload + len + payload ≤ 2 ^ 32) :
    computeGroupSize offset len payload =
      encodeGroupSize (transfers offset len payload) (alignedLast offset len payload / 4) := by
  have hp : 0 < payload := hpay ▸ Nat.two_pow_pos k
  have hmask : offset &&& (payload - 1) = offset % payload := by
    rw [hpay]
    exact Nat.and_two_pow_sub_one_eq_mod offset k
  obtain ⟨hpos, hlow, hhigh⟩ := transfers_spec offset hp hlen
  have hsum : (len + offset % payload) % 2 ^ 32 = offset % payload + len := by
    rw [Nat.mod_eq_of_lt (by omega), Nat.add_comm]
  have hceil : (offset % payload + len + payload - 1) % 2 ^ 32 = offset % payload + len + payload - 1 :=
    Nat.mod_eq_of_lt (by omega)
  have hlast : (if (offset % payload + len) % payload = 0 then (offset % payload + len) % payload + payload
      else (offset % payload + len) % payload) = alignedLast offset len payload := by
    unfold alignedLast
    generalize hm : (transfers offset len payload - 1) * payload = m at *
    obtain ⟨r, hr⟩ : ∃ r, offset % payload + len = m + r := ⟨offset % payload + len - m, by omega⟩
    have hmod : (offset % payload + len) % payload = r % payload := by
      rw [hr, ← hm, Nat.add_comm, Nat.add_mul_mod_self_right]
    rw [hmod]
    by_cases hfull : r = payload
    · rw [hfull, Nat.mod_self, if_pos rfl]
      omega
    · rw [Nat.mod_eq_of_lt (by omega), if_neg (by omega)]
      omega
  simp only [computeGroupSize, hmask, hsum, hceil, hlast, fields_eq]
  rfl

/-- The two encoders return the same size, its fields are the number of transfers and of the
words of the last one, and it decodes to the length. -/
def GroupSizesAgree (addr len payload : Nat) : Prop :=
  ∃ g, me6SglSize (addr &&& 0xfff) len payload = some g ∧ computeGroupSize addr len payload = g ∧
    g % 2 ^ 15 = transfers addr len payload % 2 ^ 15 ∧
    g / 2 ^ 15 % 2 ^ 8 = lastTransfer addr len payload / 4 % 2 ^ 8 ∧ decodedLength addr g payload = len

/-- The encoders agree unless the group lies inside one payload and does not start with it. -/
theorem groupSizes_agree_iff (addr len k : Nat) (hk : 7 ≤ k ∧ k ≤ 10) (haddr : 4 ∣ addr) (hlen4 : 4 ∣ len)
    (hlen : 4 ≤ len) (ht : transfers addr len (2 ^ k) ≤ 2 ^ 15) :
    GroupSizesAgree addr len (2 ^ k) ↔ addr % 2 ^ k = 0 ∨ 2 ^ k < addr % 2 ^ k + len := by
  have hp : 0 < 2 ^ k := Nat.two_pow_pos k
  have hp4 : 4 ∣ 2 ^ k := Nat.pow_dvd_pow 2 (by omega : 2 ≤ k)
  have hmax : 2 ^ k ≤ 1024 := Nat.pow_le_pow_right (by decide) hk.2
  have hlen0 : 0 < len := by omega
  obtain ⟨htpos, hlow, hhigh⟩ := transfers_spec addr hp hlen0
  obtain ⟨hlpos, hlle⟩ := lastTransfer_le addr hp hlen0
  have hl4 := lastTransfer_dvd hp hlen0 hp4 haddr hlen4
  have hoff4 : 4 ∣ addr % 2 ^ k := (Nat.dvd_mod_iff hp4).mpr haddr
  have hoff : addr % 2 ^ k < 2 ^ k := Nat.mod_lt _ hp
  obtain ⟨_, hme6, rfl, hdecode⟩ := me6SglSize_decode hk haddr hlen4 hlen0 ht
  have hbound : (transfers addr len (2 ^ k) - 1) * 2 ^ k ≤ 2 ^ 15 * 1024 :=
    Nat.mul_le_mul (by omega) hmax
  have hcompute := computeGroupSize_eq addr rfl hlen0 (by omega : addr % 2 ^ k + len + 2 ^ k ≤ 2 ^ 32)
  unfold GroupSizesAgree
  rw [hme6, hcompute]
  constructor
  · rintro ⟨g, hg, hg', -⟩
    cases hg
    by_contra hno
    have hone : addr % 2 ^ k + len ≤ 2 ^ k := by omega
    have hl : lastTransfer addr len (2 ^ k) = len := if_pos hone
    have haligned : alignedLast addr len (2 ^ k) = addr % 2 ^ k + len := by
      rcases transfers_sum addr hp hlen0 with ⟨h1, _⟩ | ⟨_, hcross, _⟩
      · rw [alignedLast, h1, Nat.sub_self, Nat.zero_mul, Nat.sub_zero]
      · omega
    rw [hl, haligned] at hg'
    unfold encodeGroupSize at hg'
    omega
  · intro hcond
    have haligned : alignedLast addr len (2 ^ k) = lastTransfer addr len (2 ^ k) := by
      rcases transfers_sum addr hp hlen0 with ⟨h1, hl, hfit⟩ | ⟨_, hcross, _⟩
      · rw [alignedLast, h1, Nat.sub_self, Nat.zero_mul, Nat.sub_zero, hl]
        omega
      · rw [lastTransfer, if_neg (by omega), alignedLast]
    refine ⟨_, rfl, by rw [haligned], ?_, ?_, ?_⟩
    · rw [encodeGroupSize, Nat.add_mul_mod_self_right, Nat.mod_mod]
    · unfold encodeGroupSize
      omega
    · exact hdecode

theorem groupSizes_agree_page : GroupSizesAgree 0x1000 0x1000 (2 ^ 8) :=
  (groupSizes_agree_iff 0x1000 0x1000 8 (by decide) (by decide) (by decide) (by decide) (by decide)).mpr
    (by decide)

/-- Four bytes from offset 4 on: one word against two. -/
theorem groupSizes_differ : ¬ GroupSizesAgree 4 4 (2 ^ 7) := by
  rintro ⟨g, hme6, hcompute, -⟩
  rw [← hcompute] at hme6
  exact absurd hme6 (by decide)

end MenableDriver
