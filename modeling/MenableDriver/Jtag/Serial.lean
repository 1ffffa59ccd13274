import MenableDriver.Jtag.Tracking
import Mathlib.Tactic.IntervalCases

/-!
# The bits of a transfer

From which positions of the buffers the bits come that a transfer clocks out, on the data pin and, in a raw
transfer, on the TMS pin. The bits of a buffer are counted from the lowest one of its first byte on.
-/

namespace MenableDriver

set_option autoImplicit false

/-- The bits that the words of the control register clock out on the data pin. -/
def dataOut (written : List Word) : List Bool :=
  written.flatMap fun value =>
    if value.getLsbD 17 then sentBits (value.setWidth 16) ((value.extractLsb' 18 4).toNat + 1) else []

def bufferBit (mem : Nat → BitVec 8) (pos : Nat) : Bool := (mem (pos / 8)).getLsbD (pos % 8)

/-- The bits at these positions, one after the other. -/
def bitsAt (mem : Nat → BitVec 8) (pos : Nat → Nat) (n : Nat) : List Bool :=
  (List.range n).map fun k => bufferBit mem (pos k)

variable {mem tmsBuffer data : Nat → BitVec 8} {pos : Nat → Nat} {n m : Nat}

theorem bitsAt_congr {pos' : Nat → Nat} (h : ∀ k < n, pos k = pos' k) : bitsAt mem pos n =
    bitsAt mem pos' n := by
  apply List.map_congr_left
  intro k hk
  rw [h k (List.mem_range.mp hk)]

theorem bitsAt_add : bitsAt mem pos (m + n) = bitsAt mem pos m ++ bitsAt mem (fun k => pos (m + k)) n := by
  rw [bitsAt, List.range_add, List.map_append, List.map_map]
  rfl

/-- Equal bits for every buffer come from equal positions. -/
theorem bitsAt_inj {pos' : Nat → Nat} (h : ∀ mem, bitsAt mem pos n = bitsAt mem pos' n) (k : Nat)
    (hk : k < n) :
    pos k = pos' k := by
  have hbit : ∀ mem, bufferBit mem (pos k) = bufferBit mem (pos' k) := by
    intro mem
    have hall := List.map_inj_left.mp (h mem)
    exact hall k (List.mem_range.mpr hk)
  have hone := hbit fun i => if i = pos k / 8 then 1#8 <<< (pos k % 8) else 0#8
  dsimp only [bufferBit] at hone
  have hlow : ∀ i < 8, ∀ j < 8, (1#8 <<< i).getLsbD j = decide (i = j) := by decide
  have hi := Nat.mod_lt (pos k) (show 0 < 8 by decide)
  have hj := Nat.mod_lt (pos' k) (show 0 < 8 by decide)
  rw [if_pos rfl, hlow _ hi _ hi, decide_eq_true rfl] at hone
  by_cases hbyte : pos' k / 8 = pos k / 8
  · rw [if_pos hbyte, hlow _ hi _ hj] at hone
    have hmod := of_decide_eq_true hone.symm
    omega
  · rw [if_neg hbyte] at hone
    exact absurd hone (by simp)

/-! ### The words of a frame -/

theorem getLsbD_reverseBitChar (c : BitVec 8) {j : Nat} (hj : j < 8) :
    (reverseBitChar c).getLsbD j = c.getLsbD (7 - j) := by
  unfold reverseBitChar
  interval_cases j <;> simp

/-- Two bytes in a word, the first one above the other. -/
theorem getLsbD_bytes (high low : BitVec 8) {j : Nat} (hj : j < 16) :
    (high.setWidth 16 <<< 8 ||| low.setWidth 16).getLsbD j =
      if j < 8 then low.getLsbD j else high.getLsbD (j - 8) := by
  rw [BitVec.getLsbD_or, BitVec.getLsbD_shiftLeft, BitVec.getLsbD_setWidth, BitVec.getLsbD_setWidth]
  split_ifs with h8
  · simp [h8, hj]
  · have hlow : low.getLsbD j = false := BitVec.getLsbD_of_ge low j (by omega)
    simp [h8, hj, hlow]
    omega

theorem bufferBit_mul_add (q : Nat) {j : Nat} (hj : j < 8) : bufferBit mem (8 * q + j) =
    (mem q).getLsbD j := by
  have hdiv : (8 * q + j) / 8 = q := by omega
  have hmod : (8 * q + j) % 8 = j := by omega
  rw [bufferBit, hdiv, hmod]

/-- A byte of the buffer, with the bit that is sent first as the highest one. -/
def lineByte (mem : Nat → BitVec 8) (msbFirst : Bool) (ptr : Int) : BitVec 8 :=
  if msbFirst then mem ptr.toNat else reverseBitChar (mem ptr.toNat)

def nextPtr (msbFirst : Bool) (ptr : Int) : Int := if msbFirst then ptr - 1 else ptr + 1

variable {msbFirst : Bool} {ptr : Int} {q : Nat}

theorem frameBytes_eq : frameBytes mem ptr msbFirst m =
    if m > 8 then ((lineByte mem msbFirst ptr).setWidth 16 <<< 8 |||
        (lineByte mem msbFirst (nextPtr msbFirst ptr)).setWidth 16, nextPtr msbFirst (nextPtr msbFirst ptr))
    else ((lineByte mem msbFirst ptr).setWidth 16 <<< 8, nextPtr msbFirst ptr) := rfl

/-- The pointer moves by the bytes that the frame has taken. -/
theorem frameBytes_next (ptr : Int) (hm : 0 < m) (hle : m ≤ 16) :
    (frameBytes mem ptr msbFirst m).2 =
      if msbFirst then ptr - ((m + 7) / 8 : Nat) else ptr + ((m + 7) / 8 : Nat) := by
  rw [frameBytes_eq]
  unfold nextPtr
  by_cases h8 : m > 8
  · rw [if_pos h8]
    split_ifs
    · omega
    · omega
  · rw [if_neg h8]
    split_ifs
    · omega
    · omega

/-- The bits of the first byte, and those of the second one if there are more. -/
theorem getLsbD_frameBytes {i : Nat} (hi : i < 16) (hbyte : i < 8 ∨ 8 < m) :
    (frameBytes mem ptr msbFirst m).1.getLsbD (15 - i) =
      if i < 8 then (lineByte mem msbFirst ptr).getLsbD (7 - i)
      else (lineByte mem msbFirst (nextPtr msbFirst ptr)).getLsbD (15 - i) := by
  have hword : ∀ low : BitVec 8, i < 8 →
      ((lineByte mem msbFirst ptr).setWidth 16 <<< 8 ||| low.setWidth 16).getLsbD (15 - i) =
        (lineByte mem msbFirst ptr).getLsbD (7 - i) := by
    intro low h8
    have hsub : 15 - i - 8 = 7 - i := by omega
    rw [getLsbD_bytes _ _ (by omega), if_neg (by omega), hsub]
  rw [frameBytes_eq]
  by_cases hm : m > 8
  · rw [if_pos hm]
    by_cases h8 : i < 8
    · rw [if_pos h8]
      exact hword _ h8
    · rw [if_neg h8]
      dsimp only
      rw [getLsbD_bytes _ _ (by omega), if_pos (by omega)]
  · rw [if_neg hm, if_pos (by omega), ← hword 0#8 (by omega), BitVec.setWidth_zero, BitVec.or_zero]

/-- From the lowest address on, and each byte from its lowest bit on. -/
theorem getLsbD_frameBytes_lsb {i : Nat} (hi : i < 16) (hbyte : i < 8 ∨ 8 < m) :
    (frameBytes mem q false m).1.getLsbD (15 - i) = bufferBit mem (8 * q + i) := by
  have hnext : ((q : Int) + 1).toNat = q + 1 := by omega
  rw [getLsbD_frameBytes hi hbyte]
  by_cases h8 : i < 8
  · have hsub : 7 - (7 - i) = i := by omega
    rw [if_pos h8, bufferBit_mul_add q h8, lineByte, if_neg Bool.false_ne_true,
      getLsbD_reverseBitChar _ (by omega), hsub, Int.toNat_natCast]
  · have hsub : 7 - (15 - i) = i - 8 := by omega
    have hpos : 8 * q + i = 8 * (q + 1) + (i - 8) := by omega
    rw [if_neg h8, hpos, bufferBit_mul_add (q + 1) (by omega), lineByte, nextPtr, if_neg Bool.false_ne_true,
      if_neg Bool.false_ne_true, getLsbD_reverseBitChar _ (by omega), hsub, hnext]

/-- From the highest address on, and each byte from its highest bit on. -/
theorem getLsbD_frameBytes_msb {i : Nat} (hi : i < 16) (hbyte : i < 8 ∨ 8 < m) (hq : 8 ≤ i → 0 < q) :
    (frameBytes mem q true m).1.getLsbD (15 - i) = bufferBit mem (8 * q + 7 - i) := by
  have hnext : ((q : Int) - 1).toNat = q - 1 := by omega
  rw [getLsbD_frameBytes hi hbyte]
  by_cases h8 : i < 8
  · have hpos : 8 * q + 7 - i = 8 * q + (7 - i) := by omega
    rw [if_pos h8, hpos, bufferBit_mul_add q (by omega), lineByte, if_pos rfl, Int.toNat_natCast]
  · have hq := hq (by omega)
    have hpos : 8 * q + 7 - i = 8 * (q - 1) + (15 - i) := by omega
    rw [if_neg h8, hpos, bufferBit_mul_add (q - 1) (by omega), lineByte, nextPtr, if_pos rfl,
      if_pos rfl, hnext]

theorem sentBits_eq {w : BitVec 16} (h : ∀ i < n, w.getLsbD (15 - i) = bufferBit mem (pos i)) :
    sentBits w n = bitsAt mem pos n := by
  apply List.map_congr_left
  intro i hi
  exact h i (List.mem_range.mp hi)

theorem sentBits_lsb (hle : m ≤ 16) :
    sentBits (frameBytes mem q false m).1 m = bitsAt mem (fun i => 8 * q + i) m := by
  apply sentBits_eq
  intro i hi
  exact getLsbD_frameBytes_lsb (by omega) (by omega)

theorem sentBits_msb (hle : m ≤ 16) (hq : 8 < m → 0 < q) :
    sentBits (frameBytes mem q true m).1 m = bitsAt mem (fun i => 8 * q + 7 - i) m := by
  apply sentBits_eq
  intro i hi
  exact getLsbD_frameBytes_msb (by omega) (by omega) (by omega)

/-- The shift drops the highest bits of the first byte, for which the frame has no room. -/
theorem sentBits_alignData (hm : 0 < m) (hle : m ≤ 16) (hq : 8 < m → 0 < q) :
    sentBits (alignData true m (frameBytes mem q true m).1) m =
      bitsAt mem (fun i => 8 * q + (m - 1) % 8 - i) m := by
  have hshift : ∀ s i, i < m → s + i < 16 → (s + i < 8 ∨ 8 < m) → 7 - s = (m - 1) % 8 →  s ≤ 7 →
      ((frameBytes mem q true m).1 <<< s).getLsbD (15 - i) = bufferBit mem (8 * q + (m - 1) % 8 - i) := by
    intro s i hi h16 hbyte heq hs
    have hsub : 15 - i - s = 15 - (s + i) := by omega
    have hpos : 8 * q + (m - 1) % 8 - i = 8 * q + 7 - (s + i) := by omega
    rw [BitVec.getLsbD_shiftLeft, hsub, getLsbD_frameBytes_msb h16 hbyte (by omega), hpos]
    have hin : decide (15 - i < 16) = true := decide_eq_true (by omega)
    have hout : decide (15 - i < s) = false := decide_eq_false (by omega)
    rw [hin, hout]
    rfl
  apply sentBits_eq
  intro i hi
  unfold alignData
  rw [if_pos rfl]
  split_ifs with h8 h16
  · exact hshift (8 - m) i hi (by omega) (by omega) (by omega) (by omega)
  · exact hshift (16 - m) i hi (by omega) (by omega) (by omega) (by omega)
  · have hfull := hshift 0 i hi (by omega) (by omega) (by omega) (by omega)
    rwa [BitVec.shiftLeft_zero] at hfull

/-! ### The frames of a transfer -/

/-- The bits that the frames take from a buffer, from `ptr` on. The words for the TMS pin are not aligned. -/
def streamBits (mem : Nat → BitVec 8) (msbFirst align : Bool) (bitsLeft : Nat) (ptr : Int) : List Bool :=
  if bitsLeft = 0 then []
  else
    let m := frameLength bitsLeft
    let (d, ptr) := frameBytes mem ptr msbFirst m
    sentBits (if align then alignData msbFirst m d else d) m ++
      streamBits mem msbFirst align (bitsLeft - m) ptr
termination_by bitsLeft
decreasing_by
  have hpos := frameLength_pos bitsLeft
  omega

variable {align : Bool} {lastStatus tms word : Word} {b b' : JtagBus} {flags : Word}

theorem dataOut_append (written written' : List Word) :
    dataOut (written ++ written') = dataOut written ++ dataOut written' :=
  List.flatMap_append

theorem dataOut_other {value : Word} (h : value.getLsbD 17 = false) (b : JtagBus) :
    dataOut (b.writeControlRegister value).written = dataOut b.written := by
  rw [JtagBus.writeControlRegister, dataOut_append, dataOut, dataOut, List.flatMap_singleton, h,
    if_neg Bool.false_ne_true, List.append_nil]

theorem sendFrame_dataOut {val : Word} (h : b.sendFrame lastStatus tms word n = some (val, b'))
    (hn : 0 < n) (hle : n ≤ 16) : dataOut b'.written = dataOut b.written ++
      sentBits (word.setWidth 16) n := by
  obtain ⟨-, h17, hlen, hlow⟩ := @dataWord_fields lastStatus word n hn hle
  have htms : dataOut [JtagBus.tmsWord lastStatus tms] = [] := by
    have h17 : (JtagBus.tmsWord lastStatus tms).getLsbD 17 = false := tmsWord_getLsbD_enable
    rw [dataOut, List.flatMap_singleton, h17, if_neg Bool.false_ne_true]
  have hdata : dataOut [JtagBus.dataWord lastStatus word n] = sentBits (word.setWidth 16) n := by
    rw [dataOut, List.flatMap_singleton, h17, if_pos rfl, hlen, hlow]
  rw [sendFrame_written h, dataOut_append, dataOut_append, htms, hdata, List.append_nil]

/-- What a frame takes from the two buffers, and where it leaves the pointers. -/
theorem writeFrame_streams {s s' : FrameState} (h : writeFrame tmsBuffer data flags n s = some (.ok s')) :
    dataOut s'.bus.written = dataOut s.bus.written ++
        sentBits (alignData (flags &&& LSB_FIRST = 0) (frameLength n)
          (frameBytes data s.sendPtr (flags &&& LSB_FIRST = 0) (frameLength n)).1) (frameLength n) ∧
      s'.sendPtr = (frameBytes data s.sendPtr (flags &&& LSB_FIRST = 0) (frameLength n)).2 ∧
      (flags &&& RAW_MODE ≠ 0 → clockedOut s'.bus.written = clockedOut s.bus.written ++
          sentBits (frameBytes tmsBuffer s.tmsPtr (flags &&& LSB_FIRST = 0) (frameLength n)).1
            (frameLength n) ∧
        s'.tmsPtr = (frameBytes tmsBuffer s.tmsPtr (flags &&& LSB_FIRST = 0) (frameLength n)).2) := by
  have hpos := frameLength_pos n
  have hle := frameLength_le n
  have hword : ∀ w : BitVec 16, (w.setWidth 32).setWidth 16 = w := by
    intro w
    rw [BitVec.setWidth_setWidth_of_le _ (by decide), BitVec.setWidth_eq]
  unfold writeFrame at h
  dsimp only at h
  obtain ⟨⟨val, bus⟩, hsend, h⟩ := Option.bind_eq_some_iff.mp h
  have hdata := sendFrame_dataOut hsend hpos hle
  have htms := sendFrame_clockedOut hsend hpos hle
  rw [hword] at hdata
  dsimp only at h
  have hval : val ≠ 0xffffffff#32 := by
    intro heq
    rw [if_pos heq] at h
    exact absurd h (by simp)
  rw [if_neg hval] at h
  obtain rfl := Except.ok.inj (Option.some.inj h)
  refine ⟨hdata, rfl, fun hraw => ?_⟩
  rw [if_neg hraw] at htms
  dsimp only at htms ⊢
  rw [hword] at htms
  exact ⟨htms, by rw [if_neg hraw]⟩

theorem writeFrames_streams {s s' : FrameState} (h : writeFrames tmsBuffer data flags n s = some (.ok s')) :
    dataOut s'.bus.written = dataOut s.bus.written ++
        streamBits data (flags &&& LSB_FIRST = 0) true n s.sendPtr ∧
      (flags &&& RAW_MODE ≠ 0 → clockedOut s'.bus.written = clockedOut s.bus.written ++
        streamBits tmsBuffer (flags &&& LSB_FIRST = 0) false n s.tmsPtr) := by
  induction n using Nat.strong_induction_on generalizing s with
  | _ n ih =>
    rw [writeFrames] at h
    rw [streamBits, streamBits]
    split_ifs at h with hn
    · obtain rfl := Except.ok.inj (Option.some.inj h)
      rw [if_pos hn, if_pos hn, List.append_nil, List.append_nil]
      exact ⟨rfl, fun _ => rfl⟩
    · have hpos := frameLength_pos n
      rw [if_neg hn, if_neg hn]
      dsimp only
      split at h
      · exact absurd h (by simp)
      · exact absurd h (by simp)
      · rename_i s₁ hframe
        obtain ⟨hdata, hsend, hraw⟩ := writeFrame_streams hframe
        obtain ⟨hdata', hraw'⟩ := ih _ (by omega) h
        rw [hdata', hdata, hsend, if_pos rfl, List.append_assoc]
        refine ⟨rfl, fun hmode => ?_⟩
        obtain ⟨htms, htmsPtr⟩ := hraw hmode
        rw [hraw' hmode, htms, htmsPtr, if_neg Bool.false_ne_true, List.append_assoc]

/-! ### The positions of the bits -/

/-- Only the first frame is not a whole one. -/
theorem frameLength_add (hn : 0 < n) : frameLength n + 16 * ((n - 1) / 16) = n := by
  unfold frameLength
  dsimp only
  split_ifs <;> omega

theorem frameLength_whole (k : Nat) : frameLength (16 * (k + 1)) = 16 := by
  have hadd := @frameLength_add (16 * (k + 1)) (by omega)
  omega

theorem streamBits_frame (hn : 0 < n) : streamBits mem msbFirst align n ptr =
    sentBits (if align then alignData msbFirst (frameLength n) (frameBytes mem ptr msbFirst (frameLength n)).1
      else (frameBytes mem ptr msbFirst (frameLength n)).1) (frameLength n) ++
    streamBits mem msbFirst align (16 * ((n - 1) / 16)) (frameBytes mem ptr msbFirst (frameLength n)).2 := by
  have hrest : n - frameLength n = 16 * ((n - 1) / 16) := by
    have hadd := frameLength_add hn
    omega
  rw [streamBits, if_neg (Nat.pos_iff_ne_zero.mp hn)]
  dsimp only
  rw [hrest]

theorem streamBits_zero : streamBits mem msbFirst align 0 ptr = [] := by
  rw [streamBits, if_pos rfl]

/-- A whole frame needs no shift. -/
theorem sentBits_whole_msb (hq : 0 < q) :
    sentBits (if align then alignData true 16 (frameBytes mem q true 16).1 else (frameBytes mem q true 16).1) 16 =
      bitsAt mem (fun i => 8 * q + 7 - i) 16 := by
  cases align with
  | false => exact sentBits_msb (Nat.le_refl 16) fun _ => hq
  | true =>
    have hwhole := @sentBits_alignData mem 16 q (by decide) (Nat.le_refl 16) fun _ => hq
    rw [if_pos rfl]
    exact hwhole

theorem sentBits_lsb_aligned (hle : m ≤ 16) :
    sentBits (if align then alignData false m (frameBytes mem q false m).1 else (frameBytes mem q false m).1) m =
      bitsAt mem (fun i => 8 * q + i) m := by
  rw [← sentBits_lsb hle]
  cases align <;> rfl

theorem streamBits_whole_msb (k : Nat) : streamBits mem true align (16 * k) ((2 * k : Nat) - 1) =
    bitsAt mem (fun i => 16 * k - 1 - i) (16 * k) := by
  induction k with
  | zero => exact streamBits_zero
  | succ k ih =>
    have hstart : ((2 * (k + 1) : Nat) : Int) - 1 = (2 * k + 1 : Nat) := by omega
    have hrest : (16 * (k + 1) - 1) / 16 = k := by omega
    have hnext : ((2 * k + 1 : Nat) : Int) - ((16 + 7) / 8 : Nat) = (2 * k : Nat) - 1 := by omega
    have hlen : 16 * (k + 1) = 16 + 16 * k := by omega
    rw [streamBits_frame (by omega), frameLength_whole, hstart, sentBits_whole_msb (Nat.succ_pos _),
      frameBytes_next _ (by decide) (Nat.le_refl 16), if_pos rfl, hrest, hnext, ih, hlen, bitsAt_add]
    congr 1
    · apply bitsAt_congr
      intro i hi
      omega
    · apply bitsAt_congr
      intro i hi
      omega

theorem streamBits_whole_lsb (k : Nat) : ∀ q : Nat, streamBits mem false align (16 * k) q =
    bitsAt mem (fun i => 8 * q + i) (16 * k) := by
  induction k with
  | zero => exact fun q => streamBits_zero
  | succ k ih =>
    intro q
    have hrest : (16 * (k + 1) - 1) / 16 = k := by omega
    have hnext : (q : Int) + ((16 + 7) / 8 : Nat) = (q + 2 : Nat) := by omega
    have hlen : 16 * (k + 1) = 16 + 16 * k := by omega
    rw [streamBits_frame (by omega), frameLength_whole, sentBits_lsb_aligned (Nat.le_refl 16),
      frameBytes_next _ (by decide) (Nat.le_refl 16), if_neg Bool.false_ne_true, hrest, hnext, ih, hlen, bitsAt_add]
    congr 1
    apply bitsAt_congr
    intro i hi
    omega

/-- The position of the bit with the number `k` in a buffer of `n` bits, in the order of the flags. -/
def orderedPos (msbFirst : Bool) (n k : Nat) : Nat := if msbFirst then n - 1 - k else k

/-- The position from which the code takes the bit with the number `k`. -/
def streamPos (msbFirst align : Bool) (n k : Nat) : Nat :=
  if msbFirst then
    if align ∨ frameLength n ≤ k then n - 1 - k else 8 * ((n - 1) / 8) + 7 - k
  else if k < frameLength n then k
  else 8 * ((frameLength n + 7) / 8) + (k - frameLength n)

/-- The pointer before the first frame. -/
def streamStart (msbFirst : Bool) (n : Nat) : Int := if msbFirst then ((n + 7) / 8 : Nat) - 1 else 0

theorem streamBits_start (mem : Nat → BitVec 8) (msbFirst align : Bool) (n : Nat) :
    streamBits mem msbFirst align n (streamStart msbFirst n) = bitsAt mem (streamPos msbFirst align n) n := by
  rcases Nat.eq_zero_or_pos n with rfl | hn
  · exact streamBits_zero
  have hadd := frameLength_add hn
  have hpos := frameLength_pos n
  have hle := frameLength_le n
  have hsplit : bitsAt mem (streamPos msbFirst align n) n =
      bitsAt mem (streamPos msbFirst align n) (frameLength n) ++
        bitsAt mem (fun k => streamPos msbFirst align n (frameLength n + k)) (16 * ((n - 1) / 16)) := by
    rw [← bitsAt_add, hadd]
  rw [hsplit, streamBits_frame hn]
  cases msbFirst with
  | true =>
    have hstart : streamStart true n = ((n - 1) / 8 : Nat) := by
      unfold streamStart
      rw [if_pos rfl]
      omega
    have hnext : (((n - 1) / 8 : Nat) : Int) - ((frameLength n + 7) / 8 : Nat) =
        (2 * ((n - 1) / 16) : Nat) - 1 := by omega
    rw [hstart, frameBytes_next _ hpos hle, if_pos rfl, hnext, streamBits_whole_msb]
    congr 1
    · cases align with
      | true =>
        rw [if_pos rfl, sentBits_alignData hpos hle (by omega)]
        apply bitsAt_congr
        intro i hi
        have hmod : (frameLength n - 1) % 8 = (n - 1) % 8 := by omega
        rw [streamPos, if_pos rfl, if_pos (Or.inl rfl), hmod]
        omega
      | false =>
        rw [if_neg Bool.false_ne_true, sentBits_msb hle (by omega)]
        apply bitsAt_congr
        intro i hi
        rw [streamPos, if_pos rfl, if_neg (by rintro (h | h); exact absurd h Bool.false_ne_true; omega)]
    · apply bitsAt_congr
      intro i hi
      rw [streamPos, if_pos rfl, if_pos (Or.inr (Nat.le_add_right _ _))]
      omega
  | false =>
    have hstart : streamStart false n = (0 : Nat) := if_neg Bool.false_ne_true
    have hnext : ((0 : Nat) : Int) + ((frameLength n + 7) / 8 : Nat) =
      ((frameLength n + 7) / 8 : Nat) := by omega
    rw [hstart, frameBytes_next _ hpos hle, if_neg Bool.false_ne_true, hnext, streamBits_whole_lsb, sentBits_lsb_aligned hle]
    congr 1
    · apply bitsAt_congr
      intro i hi
      rw [streamPos, if_neg Bool.false_ne_true, if_pos hi]
      omega
    · apply bitsAt_congr
      intro i hi
      rw [streamPos, if_neg Bool.false_ne_true, if_neg (by omega)]
      omega

/-! ### Transfers -/

variable {c c' : JtagController} {r : Nat}

theorem dataOut_default (b : JtagBus) :
    dataOut (b.writeControlRegister JTAG_DEFAULT_VALUE).written = dataOut b.written :=
  dataOut_other (by decide) b

theorem dataOut_prescaler (c : JtagController) (b : JtagBus) :
    dataOut (b.writeControlRegister c.prescalerValue).written = dataOut b.written := by
  have hbit : (c.prescalerValue.getLsbD 17 && (~~~JTAG_PRESCALER_MASK).getLsbD 17) = false := by
    rw [← BitVec.getLsbD_and, c.prescalerValue_ok, BitVec.ofNat_eq_ofNat, BitVec.getLsbD_zero]
  have hmask : (~~~JTAG_PRESCALER_MASK).getLsbD 17 = true := by decide
  rw [hmask, Bool.and_true] at hbit
  exact dataOut_other hbit b

theorem readControlRegister_written {val : Word} (h : b.readControlRegister = some (val, b')) :
    b'.written = b.written := by
  unfold JtagBus.readControlRegister at h
  split at h
  · cases h
  · obtain ⟨-, rfl⟩ := Prod.mk.inj (Option.some.inj h)
    rfl

/-- A transfer that succeeds has taken its bits from these positions. -/
theorem transfer_streams (h : transfer c b data n flags = some (c', b', .ok r)) :
    dataOut b'.written = dataOut b.written ++ bitsAt data (streamPos (flags &&& LSB_FIRST = 0) true n) n ∧
      (flags &&& RAW_MODE ≠ 0 → clockedOut b'.written = clockedOut b.written ++
        bitsAt (c.tmsBuffer.getD fun _ => 0#8) (streamPos (flags &&& LSB_FIRST = 0) false n) n) := by
  have hstart : (if flags &&& LSB_FIRST = 0 then (((n + 7) / 8 : Nat) : Int) - 1 else 0) =
      streamStart (flags &&& LSB_FIRST = 0) n := by
    unfold streamStart
    split_ifs with hlsb h h
    · rfl
    · exact absurd (decide_eq_true hlsb) h
    · exact absurd (of_decide_eq_true h) hlsb
    · rfl
  unfold transfer at h
  dsimp only at h
  obtain ⟨⟨lastStatus, b₁⟩, hread, h⟩ := Option.bind_eq_some_iff.mp h
  obtain ⟨frames, hframes, h⟩ := Option.bind_eq_some_iff.mp h
  have hwritten := readControlRegister_written hread
  cases frames with
  | error s => exact absurd h (by simp)
  | ok s =>
    obtain ⟨hdata, hraw⟩ := writeFrames_streams hframes
    dsimp only at h hdata hraw
    simp only [Option.some.injEq, Prod.mk.injEq] at h
    obtain ⟨-, rfl, -⟩ := h
    rw [hstart, streamBits_start, hwritten] at hdata
    refine ⟨by rw [dataOut_default, hdata, dataOut_prescaler], fun hmode => ?_⟩
    have hclocked := hraw hmode
    rw [hstart, streamBits_start, hwritten] at hclocked
    rw [clockedOut_default, hclocked, clockedOut_prescaler]

/-- The answer of the board when a frame is done. -/
def doneAnswer (lastStatus : Word) : Word := ~~~lastStatus &&& JTAG_DONE_TOGGLE

theorem waitForCompletion_doneAnswer (lastStatus : Word) (rest : List Word) :
    JtagBus.waitForCompletion lastStatus (doneAnswer lastStatus :: rest) =
      some (doneAnswer lastStatus, rest) ∧
      doneAnswer lastStatus ≠ 0xffffffff#32 := by
  have hne : doneAnswer lastStatus ≠ 0xffffffff#32 := by
    intro heq
    have hbit := congrArg (fun w => BitVec.getLsbD w 0) heq
    simp [doneAnswer, JTAG_DONE_TOGGLE] at hbit
  have htoggle : doneAnswer lastStatus &&& JTAG_DONE_TOGGLE ≠ lastStatus &&& JTAG_DONE_TOGGLE := by
    intro heq
    have hbit := congrArg (fun w => BitVec.getLsbD w 17) heq
    simp [doneAnswer, JTAG_DONE_TOGGLE] at hbit
  rw [JtagBus.waitForCompletion, if_neg hne, if_neg htoggle]
  exact ⟨rfl, hne⟩

/-- The answers to `k` frames. -/
def doneAnswers : Nat → Word → List Word
  | 0, _ => []
  | k + 1, lastStatus => doneAnswer lastStatus :: doneAnswers k (doneAnswer lastStatus)

theorem writeFrame_answered {s : FrameState} {rest : List Word}
    (h : s.bus.reads = doneAnswer s.lastStatus :: rest) :
    ∃ s', writeFrame tmsBuffer data flags n s = some (.ok s') ∧ s'.bus.reads = rest ∧
      s'.lastStatus = doneAnswer s.lastStatus := by
  obtain ⟨hwait, hne⟩ := waitForCompletion_doneAnswer s.lastStatus rest
  unfold writeFrame JtagBus.sendFrame
  dsimp only [JtagBus.writeControlRegister]
  rw [h, hwait]
  dsimp only [Option.bind_eq_bind, Option.bind_some]
  rw [if_neg hne]
  exact ⟨_, rfl, rfl, rfl⟩

theorem writeFrames_answered {s : FrameState} {k : Nat} (hn : n ≤ k)
    (h : s.bus.reads = doneAnswers k s.lastStatus) :
    ∃ s', writeFrames tmsBuffer data flags n s = some (.ok s') := by
  induction k generalizing n s with
  | zero =>
    rw [writeFrames, if_pos (Nat.le_zero.mp hn)]
    exact ⟨s, rfl⟩
  | succ k ih =>
    rw [writeFrames]
    by_cases hn0 : n = 0
    · rw [if_pos hn0]
      exact ⟨s, rfl⟩
    · have hpos := frameLength_pos n
      obtain ⟨s₁, hframe, hreads, hlast⟩ := writeFrame_answered h
      rw [if_neg hn0, hframe]
      apply ih (by omega)
      rw [hreads, hlast]

/-- On some board the transfer succeeds. -/
theorem transfer_answered (c : JtagController) (data : Nat → BitVec 8) (n : Nat) (flags : Word) :
    ∃ b c' b' r, transfer c b data n flags = some (c', b', .ok r) := by
  refine ⟨⟨0#32 :: doneAnswers n 0#32, []⟩, ?_⟩
  unfold transfer
  dsimp only [JtagBus.writeControlRegister, JtagBus.readControlRegister, Option.bind_eq_bind,
    Option.bind_some]
  have hframes : ∀ s : FrameState, s.bus.reads = doneAnswers n s.lastStatus →
      ∃ s', writeFrames (c.tmsBuffer.getD fun _ => 0#8) data flags n s = some (.ok s') :=
    fun s => writeFrames_answered (Nat.le_refl n)
  obtain ⟨s', hs'⟩ := hframes
    { lastStatus := 0#32
      sendPtr := if flags &&& LSB_FIRST = 0 then ((n + 7) / 8 : Nat) - 1 else 0
      tmsPtr := if flags &&& LSB_FIRST = 0 then ((n + 7) / 8 : Nat) - 1 else 0
      recvPtr := if flags &&& LSB_FIRST = 0 then ((n + 7) / 8 : Nat) - 1 else 0
      recv := fun _ => 0#8, bus := ⟨doneAnswers n 0#32, [] ++ [c.prescalerValue]⟩ } rfl
  rw [hs']
  exact ⟨_, _, _, rfl⟩

/-- A transfer clocks out the bits of the buffer in the order of the flags, and no others. -/
def SerialisesData (flags : Word) (n : Nat) : Prop :=
  ∀ c b data c' b' r, transfer c b data n flags = some (c', b', .ok r) →
    dataOut b'.written = dataOut b.written ++ bitsAt data (orderedPos (flags &&& LSB_FIRST = 0) n) n

theorem serialisesData_iff_pos :
    SerialisesData flags n ↔ ∀ k < n, streamPos (flags &&& LSB_FIRST = 0) true n k =
      orderedPos (flags &&& LSB_FIRST = 0) n k := by
  constructor
  · intro h
    apply bitsAt_inj
    intro data
    obtain ⟨b, c', b', r, hrun⟩ := transfer_answered jtagControllerInit data n flags
    have hbits := h _ _ _ _ _ _ hrun
    rw [(transfer_streams hrun).1] at hbits
    exact List.append_cancel_left hbits
  · intro h c b data c' b' r hrun
    rw [(transfer_streams hrun).1, bitsAt_congr h]

/-- Behind a first frame that ends within a byte the rest of that byte is lost, when its lowest bit is the
first one. -/
theorem serialisesData_iff (flags : Word) (n : Nat) :
    SerialisesData flags n ↔ flags &&& LSB_FIRST = 0 ∨ n ≤ 16 ∨ 8 ∣ n := by
  rw [serialisesData_iff_pos]
  by_cases hlsb : flags &&& LSB_FIRST = 0
  · refine iff_of_true (fun k _ => ?_) (Or.inl hlsb)
    rw [decide_eq_true hlsb, streamPos, orderedPos, if_pos rfl, if_pos (Or.inl rfl), if_pos rfl]
  · have hpos : ∀ k, streamPos (flags &&& LSB_FIRST = 0) true n k = orderedPos (flags &&& LSB_FIRST = 0) n k ↔
        (k < frameLength n ∨ 8 ∣ frameLength n) := by
      intro k
      rw [decide_eq_false hlsb, streamPos, orderedPos, if_neg Bool.false_ne_true, if_neg Bool.false_ne_true]
      split_ifs with hk
      · exact iff_of_true rfl (Or.inl hk)
      · omega
    simp only [hpos]
    rcases Nat.eq_zero_or_pos n with rfl | hn
    · exact iff_of_true (fun k hk => absurd hk (Nat.not_lt_zero k)) (Or.inr (Or.inl (Nat.zero_le 16)))
    have hadd := frameLength_add hn
    have hle := frameLength_le n
    constructor
    · intro h
      by_cases h16 : n ≤ 16
      · exact Or.inr (Or.inl h16)
      · have hfirst := h (frameLength n) (by omega)
        omega
    · intro h k hk
      rcases h with h | h
      · exact absurd h hlsb
      · omega

/-- The second bit of the first byte. -/
def secondBit : Nat → BitVec 8 := fun i => if i = 0 then 0x02#8 else 0#8

/-- Of 17 bits with the lowest one first the second one is lost. -/
theorem serialisesData_loses_bit :
    ∃ b c' b' r, transfer jtagControllerInit b secondBit 17 (LENGTH_IN_BITS ||| STATE_IDLE ||| LSB_FIRST) =
        some (c', b', .ok r) ∧
      dataOut b'.written = dataOut b.written ++ List.replicate 17 false ∧
      bitsAt secondBit (orderedPos false 17) 17 = [false, true] ++ List.replicate 15 false ∧
      ¬SerialisesData (LENGTH_IN_BITS ||| STATE_IDLE ||| LSB_FIRST) 17 := by
  have hlsb : ¬(LENGTH_IN_BITS ||| STATE_IDLE ||| LSB_FIRST) &&& LSB_FIRST = 0 := by decide
  have hsent : bitsAt secondBit (streamPos false true 17) 17 = List.replicate 17 false := by decide
  have hasked : bitsAt secondBit (orderedPos false 17) 17 = [false, true] ++ List.replicate 15
    false := by decide
  obtain ⟨b, c', b', r, hrun⟩ := transfer_answered jtagControllerInit secondBit 17
    (LENGTH_IN_BITS ||| STATE_IDLE ||| LSB_FIRST)
  have hout := (transfer_streams hrun).1
  rw [decide_eq_false hlsb, hsent] at hout
  refine ⟨b, c', b', r, hrun, hout, hasked, fun h => ?_⟩
  have hbits := h _ _ _ _ _ _ hrun
  rw [hout, decide_eq_false hlsb, hasked] at hbits
  exact absurd (List.append_cancel_left hbits) (by decide)

/-! ### Raw transfers -/

/-- Each bit on the TMS pin comes from where the bit on the data pin at the same time comes from. -/
def StreamsAligned (flags : Word) (n : Nat) : Prop :=
  ∃ pos : Nat → Nat, ∀ c b data tms c' b' r, c.tmsBuffer = some tms →
    transfer c b data n flags = some (c', b', .ok r) →
      dataOut b'.written = dataOut b.written ++ bitsAt data pos n ∧
      clockedOut b'.written = clockedOut b.written ++ bitsAt tms pos n

theorem streamsAligned_iff_pos (hraw : flags &&& RAW_MODE ≠ 0) :
    StreamsAligned flags n ↔ ∀ k < n, streamPos (flags &&& LSB_FIRST = 0) true n k =
      streamPos (flags &&& LSB_FIRST = 0) false n k := by
  constructor
  · rintro ⟨pos, h⟩
    apply bitsAt_inj
    intro mem
    obtain ⟨b, c', b', r, hrun⟩ := transfer_answered { jtagControllerInit with tmsBuffer := some mem } mem
      n flags
    obtain ⟨hdata, htms⟩ := h _ _ _ _ _ _ _ rfl hrun
    obtain ⟨hdata', htms'⟩ := transfer_streams hrun
    rw [hdata'] at hdata
    rw [htms' hraw] at htms
    exact (List.append_cancel_left hdata).trans (List.append_cancel_left htms).symm
  · intro h
    refine ⟨streamPos (flags &&& LSB_FIRST = 0) true n, fun c b data tms c' b' r htms hrun => ?_⟩
    obtain ⟨hdata, hclocked⟩ := transfer_streams hrun
    have hraw' := hclocked hraw
    rw [htms, Option.getD_some, ← bitsAt_congr h] at hraw'
    exact ⟨hdata, hraw'⟩

/-- The words for the TMS pin are not shifted, so they are right where no shift is needed. -/
theorem streamsAligned_iff (flags : Word) (n : Nat) (hraw : flags &&& RAW_MODE ≠ 0) :
    StreamsAligned flags n ↔ flags &&& LSB_FIRST ≠ 0 ∨ 8 ∣ n := by
  rw [streamsAligned_iff_pos hraw]
  by_cases hlsb : flags &&& LSB_FIRST = 0
  · rw [decide_eq_true hlsb]
    rcases Nat.eq_zero_or_pos n with rfl | hn
    · exact iff_of_true (fun k hk => absurd hk (Nat.not_lt_zero k)) (Or.inr (Nat.dvd_zero 8))
    have hpos := frameLength_pos n
    constructor
    · intro h
      have hfirst := h 0 hn
      rw [streamPos, streamPos, if_pos rfl, if_pos rfl, if_pos (Or.inl rfl),
        if_neg (by rintro (h | h); exact absurd h Bool.false_ne_true; omega)] at hfirst
      exact Or.inr (by omega)
    · intro h k hk
      have hdvd : 8 ∣ n := h.resolve_left (not_not.mpr hlsb)
      rw [streamPos, streamPos, if_pos rfl, if_pos rfl, if_pos (Or.inl rfl)]
      by_cases hfirst : frameLength n ≤ k
      · rw [if_pos (Or.inr hfirst)]
      · rw [if_neg (by rintro (h | h); exact absurd h Bool.false_ne_true; exact hfirst h)]
        omega
  · refine iff_of_true (fun k _ => ?_) (Or.inl hlsb)
    rw [decide_eq_false hlsb, streamPos, streamPos, if_neg Bool.false_ne_true, if_neg Bool.false_ne_true]

theorem streamsAligned_bytes : StreamsAligned (LENGTH_IN_BYTES ||| RAW_MODE) 24 :=
  (streamsAligned_iff (LENGTH_IN_BYTES ||| RAW_MODE) 24 (by decide)).mpr (Or.inr (by decide))

/-- The lowest bit of the first byte. -/
def lowestBit : Nat → BitVec 8 := fun i => if i = 0 then 0x01#8 else 0#8

/-- In a raw transfer of one bit, with a one in both buffers, the TMS pin is low. -/
theorem streamsAligned_not_bit :
    ∃ b c' b' r, transfer { jtagControllerInit with tmsBuffer := some lowestBit } b lowestBit 1
        (LENGTH_IN_BITS ||| RAW_MODE) = some (c', b', .ok r) ∧
      dataOut b'.written = dataOut b.written ++ [true] ∧ clockedOut b'.written =
        clockedOut b.written ++ [false] ∧
      ¬StreamsAligned (LENGTH_IN_BITS ||| RAW_MODE) 1 := by
  have hmsb : (LENGTH_IN_BITS ||| RAW_MODE) &&& LSB_FIRST = 0 := by decide
  have hraw : (LENGTH_IN_BITS ||| RAW_MODE) &&& RAW_MODE ≠ 0 := by decide
  have hdata : bitsAt lowestBit (streamPos true true 1) 1 = [true] := by decide
  have htms : bitsAt lowestBit (streamPos true false 1) 1 = [false] := by decide
  obtain ⟨b, c', b', r, hrun⟩ := transfer_answered { jtagControllerInit with tmsBuffer := some lowestBit }
    lowestBit 1
    (LENGTH_IN_BITS ||| RAW_MODE)
  obtain ⟨hout, hclocked⟩ := transfer_streams hrun
  have hclocked := hclocked hraw
  rw [decide_eq_true hmsb, hdata] at hout
  rw [decide_eq_true hmsb, Option.getD_some, htms] at hclocked
  refine ⟨b, c', b', r, hrun, hout, hclocked, ?_⟩
  rintro ⟨pos, h⟩
  obtain ⟨hout', hclocked'⟩ := h _ _ _ _ _ _ _ rfl hrun
  rw [hout] at hout'
  rw [hclocked] at hclocked'
  have heq := (List.append_cancel_left hout').trans (List.append_cancel_left hclocked').symm
  exact absurd heq (by decide)

end MenableDriver
