import MenableDriver.Sgl.Userbuf

/-!
# User ranges

`men_create_userbuf` maps a range of user memory page by page and has the scatter-gather list
built from the pages. The bytes are counted from the start of the first page on.
-/

namespace MenableDriver

set_option autoImplicit false

def PAGE_SIZE : Nat := 4096

def busAddress (frame : BitVec 52) (offset : Nat) :
    BitVec 64 := BitVec.ofNat 64 (frame.toNat * PAGE_SIZE + offset)

/-- `DIV_ROUND_UP` in `get_page_addresses`. -/
def numPages (start length : Nat) : Nat := (length + start % PAGE_SIZE + PAGE_SIZE - 1) / PAGE_SIZE

def setPages (frame : Nat → BitVec 52) : Nat → Nat → Nat → List DmaSegment
  | 0, _, _ => []
  | pages + 1, i, len =>
    ⟨busAddress (frame i) 0, min PAGE_SIZE len⟩ :: setPages frame pages (i + 1) (len - min PAGE_SIZE len)

def setFirstPage (frame : Nat → BitVec 52) (start length : Nat) : List DmaSegment :=
  let first := min (PAGE_SIZE - start % PAGE_SIZE) length
  ⟨busAddress (frame 0) (start % PAGE_SIZE), first⟩ :: setPages frame (numPages start length - 1) 1
    (length - first)

/-- What `men_create_userbuf` does between its checks and the filing of the buffer; `frame i`
is the bus page of the `i`-th page. A table of no pages is refused by the allocator. -/
def menCreateUserbufMap (frame : Nat → BitVec 52) (alloc : Nat → Option (BitVec 64))
    (pcieDeviceCtrl : BitVec 16)
    (start length : Nat) : Except SglFailure (List DmaSegment × List ChainNode) :=
  if numPages start length = 0 then .error .noMem
  else
    match me6CreateUserbuf alloc pcieDeviceCtrl length (setFirstPage frame start length) with
    | .error e => .error e
    | .ok nodes => .ok (setFirstPage frame start length, nodes)

/-! ### Bytes on the bus -/

def Covers (segs : List DmaSegment) (b : Nat) : Prop :=
  ∃ sg ∈ segs, sg.addr.toNat ≤ b ∧ b < sg.addr.toNat + sg.len

/-- The device touches nothing but the segments. -/
def DescribesOnly (payload : Nat) (segs : List DmaSegment) (nodes : List ChainNode) : Prop :=
  ∃ gs, readChain nodes = some gs ∧ ∀ b, Covers (gs.map (decodeGroup payload)) b → Covers segs b

def busByte (frame : Nat → BitVec 52) (w : Nat) : Nat := (frame (w / PAGE_SIZE)).toNat * PAGE_SIZE
    + w % PAGE_SIZE

def rangeEnd (start length : Nat) : Nat := start % PAGE_SIZE + length

/-- The part of the range in its page `i`. -/
def pageSegment (frame : Nat → BitVec 52) (start length i : Nat) : DmaSegment :=
  let low := max (start % PAGE_SIZE) (i * PAGE_SIZE)
  ⟨busAddress (frame i) (low - i * PAGE_SIZE), min ((i + 1) * PAGE_SIZE) (rangeEnd start length) - low⟩

variable {frame : Nat → BitVec 52} {start length payload : Nat}

theorem busAddress_toNat {f : BitVec 52} {offset : Nat} (h : offset < PAGE_SIZE) :
    (busAddress f offset).toNat = f.toNat * PAGE_SIZE + offset := by
  have hlt := f.isLt
  unfold PAGE_SIZE at h
  rw [busAddress, BitVec.toNat_ofNat, PAGE_SIZE]
  omega

theorem setPages_eq (pages : Nat) {i : Nat} (hi : 0 < i) :
    setPages frame pages i (rangeEnd start length - i * PAGE_SIZE) =
      (List.range' i pages).map (pageSegment frame start length) := by
  have hstart : start % PAGE_SIZE < PAGE_SIZE := Nat.mod_lt _ (by decide)
  induction pages generalizing i with
  | zero => rfl
  | succ pages ih =>
    have hpage : PAGE_SIZE ≤ i * PAGE_SIZE := Nat.le_mul_of_pos_left _ hi
    have hsucc : (i + 1) * PAGE_SIZE = i * PAGE_SIZE + PAGE_SIZE := Nat.succ_mul i PAGE_SIZE
    have hlow : max (start % PAGE_SIZE) (i * PAGE_SIZE) = i * PAGE_SIZE := Nat.max_eq_right (by omega)
    have hrest : rangeEnd start length - i * PAGE_SIZE - min PAGE_SIZE
      (rangeEnd start length - i * PAGE_SIZE) =
        rangeEnd start length - (i + 1) * PAGE_SIZE := by omega
    have hlen : min PAGE_SIZE (rangeEnd start length - i * PAGE_SIZE) =
        min ((i + 1) * PAGE_SIZE) (rangeEnd start length) - i * PAGE_SIZE := by omega
    rw [setPages, hrest, ih (Nat.succ_pos i), List.range'_succ, List.map_cons, pageSegment, hlow, hlen,
      Nat.sub_self]

theorem setFirstPage_eq (hlen : 0 < length) :
    setFirstPage frame start length = (List.range (numPages start length)).map
      (pageSegment frame start length) := by
  have hstart : start % PAGE_SIZE < PAGE_SIZE := Nat.mod_lt _ (by decide)
  have hpages : 0 < numPages start length := Nat.div_pos (by omega) (by decide)
  obtain ⟨pages, hsucc⟩ := Nat.exists_eq_succ_of_ne_zero (by omega : numPages start length ≠ 0)
  have hrest : length - min (PAGE_SIZE - start % PAGE_SIZE) length =
      rangeEnd start length - 1 * PAGE_SIZE := by
    unfold rangeEnd
    omega
  have hfirst : pageSegment frame start length 0 =
      ⟨busAddress (frame 0) (start % PAGE_SIZE), min (PAGE_SIZE - start % PAGE_SIZE) length⟩ := by
    have hlow : max (start % PAGE_SIZE) (0 * PAGE_SIZE) = start % PAGE_SIZE := by omega
    have hlength : min ((0 + 1) * PAGE_SIZE) (rangeEnd start length) - start % PAGE_SIZE =
        min (PAGE_SIZE - start % PAGE_SIZE) length := by
      unfold rangeEnd
      omega
    rw [pageSegment, hlow, hlength, Nat.zero_mul, Nat.sub_zero]
  rw [setFirstPage, hrest, hsucc, Nat.succ_sub_one, setPages_eq pages Nat.one_pos, List.range_eq_range',
    List.range'_succ, List.map_cons, hfirst]

/-! ### One page -/

theorem lt_numPages {i : Nat} : i < numPages start length ↔ i * PAGE_SIZE < rangeEnd start length := by
  unfold numPages rangeEnd PAGE_SIZE
  omega

/-- The offset inside the page and the length of a page's part. -/
theorem pageSegment_spec (frame : Nat → BitVec 52) {i : Nat} (hi : i < numPages start length) :
    ∃ offset, (pageSegment frame start length i).addr.toNat = (frame i).toNat * PAGE_SIZE + offset ∧
      offset < PAGE_SIZE ∧ i * PAGE_SIZE + offset = max (start % PAGE_SIZE) (i * PAGE_SIZE) ∧
      i * PAGE_SIZE + offset + (pageSegment frame start length i).len =
        min ((i + 1) * PAGE_SIZE) (rangeEnd start length) := by
  have hstart : start % PAGE_SIZE < PAGE_SIZE := Nat.mod_lt _ (by decide)
  have hend := lt_numPages.mp hi
  have hsucc : (i + 1) * PAGE_SIZE = i * PAGE_SIZE + PAGE_SIZE := Nat.succ_mul i PAGE_SIZE
  have hle : start % PAGE_SIZE ≤ rangeEnd start length := Nat.le_add_right ..
  refine ⟨max (start % PAGE_SIZE) (i * PAGE_SIZE) - i * PAGE_SIZE,
    busAddress_toNat (by omega), by omega, by omega, ?_⟩
  simp only [pageSegment]
  omega

theorem busByte_page (frame : Nat → BitVec 52) (i : Nat) {offset : Nat} (h : offset < PAGE_SIZE) :
    busByte frame (i * PAGE_SIZE + offset) = (frame i).toNat * PAGE_SIZE + offset := by
  have hdiv : (i * PAGE_SIZE + offset) / PAGE_SIZE = i := by
    unfold PAGE_SIZE at *
    omega
  have hmod : (i * PAGE_SIZE + offset) % PAGE_SIZE = offset := by
    unfold PAGE_SIZE at *
    omega
  rw [busByte, hdiv, hmod]

/-- The segments are the bus image of the range. -/
theorem covers_iff (hlen : 0 < length) (b : Nat) :
    Covers (setFirstPage frame start length) b ↔
      ∃ w, start % PAGE_SIZE ≤ w ∧ w < rangeEnd start length ∧ b = busByte frame w := by
  rw [setFirstPage_eq hlen]
  constructor
  · rintro ⟨sg, hsg, hlow, hhigh⟩
    obtain ⟨i, hi, rfl⟩ := List.mem_map.mp hsg
    obtain ⟨offset, haddr, hoff, hmax, hmin⟩ := pageSegment_spec frame (List.mem_range.mp hi)
    obtain ⟨j, hj⟩ : ∃ j, b = (frame i).toNat * PAGE_SIZE + (offset + j) :=
      ⟨b - (pageSegment frame start length i).addr.toNat, by omega⟩
    have hsucc : (i + 1) * PAGE_SIZE = i * PAGE_SIZE + PAGE_SIZE := Nat.succ_mul i PAGE_SIZE
    refine ⟨i * PAGE_SIZE + (offset + j), by omega, by omega, ?_⟩
    rw [busByte_page frame i (by omega), hj]
  · rintro ⟨w, hlow, hhigh, rfl⟩
    have hw : w / PAGE_SIZE * PAGE_SIZE + w % PAGE_SIZE = w := Nat.div_add_mod' w PAGE_SIZE
    have hmod : w % PAGE_SIZE < PAGE_SIZE := Nat.mod_lt _ (by decide)
    have hi : w / PAGE_SIZE < numPages start length := lt_numPages.mpr (by omega)
    have hsucc : (w / PAGE_SIZE + 1) * PAGE_SIZE = w / PAGE_SIZE * PAGE_SIZE + PAGE_SIZE :=
      Nat.succ_mul _ PAGE_SIZE
    obtain ⟨offset, haddr, hoff, hmax, hmin⟩ := pageSegment_spec frame hi
    refine ⟨_, List.mem_map.mpr ⟨_, List.mem_range.mpr hi, rfl⟩, ?_, ?_⟩
    · rw [haddr, busByte]
      omega
    · rw [haddr, busByte]
      omega

/-- A last transfer of less than a word has the word count 0. -/
theorem page_decodedLength {k addr len g : Nat} (hlen : 0 < len) (hpage : addr % PAGE_SIZE + len ≤ PAGE_SIZE)
    (hg : me6SglSize (addr &&& 0xfff) len (2 ^ k) = some g) :
    decodedLength addr g (2 ^ k) = len - lastTransfer (addr % PAGE_SIZE) len (2 ^ k) +
      4 * if lastTransfer (addr % PAGE_SIZE) len (2 ^ k) / 4 = 0 then 2 ^ 8
        else lastTransfer (addr % PAGE_SIZE) len (2 ^ k) / 4 := by
  have hmask : addr &&& 0xfff = addr % PAGE_SIZE := Nat.and_two_pow_sub_one_eq_mod addr 12
  have hp : 0 < 2 ^ k := Nat.two_pow_pos k
  rw [hmask, me6SglSize_eq hp hlen] at hg
  split at hg
  · cases hg
  · rename_i hfits
    obtain rfl := Option.some.inj hg
    obtain ⟨hpos, _⟩ := transfers_spec (addr % PAGE_SIZE) hp hlen
    rw [decodedLength, decodedTransfers_encode hpos (by omega), decodedWords_encode _ (by omega)]
    rcases transfers_sum (addr % PAGE_SIZE) hp hlen with ⟨hone, hl, _⟩ | ⟨htwo, hcross, hsum⟩
    · rw [if_pos hone, hl]
      omega
    · have hoff : addr % PAGE_SIZE % 2 ^ k ≤ addr % PAGE_SIZE := Nat.mod_le _ _
      have hk : k ≤ 12 := by
        by_contra hbig
        have hpow : 2 ^ 12 ≤ 2 ^ k := Nat.pow_le_pow_right (by decide) (by omega)
        unfold PAGE_SIZE at *
        omega
      have hmod : addr % 2 ^ k = addr % PAGE_SIZE % 2 ^ k := by
        rw [← hmask]
        exact (page_offset hk addr).symm
      rw [if_neg (by omega), hmod]
      omega

/-! ### The tail of a range -/

/-- The bytes of the last transfer, when they are less than a word or the transfer is short. -/
def tailBytes (start length payload : Nat) : Nat :=
  if length < 4 then length else (start + length) % min payload PAGE_SIZE

/-- The 1024 bytes from the last transfer on belong to the range, by chance of the mapping. -/
def TailMapped (frame : Nat → BitVec 52) (start length payload : Nat) : Prop :=
  ∀ j < 1024, ∃ w, start % PAGE_SIZE ≤ w ∧ w < rangeEnd start length ∧
    busByte frame (rangeEnd start length - tailBytes start length payload) + j = busByte frame w

/-- The window in which the transfers are counted never reaches over the page. -/
theorem tail_window {k offset len : Nat} (hk : 7 ≤ k) (hlen : 0 < len) (hpage : offset + len ≤ PAGE_SIZE)
    (hmod : (start + length) % PAGE_SIZE = (offset + len) % PAGE_SIZE) :
    ∃ q, min (2 ^ k) PAGE_SIZE = q ∧ (q = 2 ^ k ∨ q = PAGE_SIZE ∧ PAGE_SIZE ≤ 2 ^ k) ∧ 4 ≤ q ∧ 4 ∣ q ∧
      offset % 2 ^ k = offset % q ∧ (start + length) % q = (offset % q + len) % q := by
  have hp4 : 4 ∣ 2 ^ k := Nat.pow_dvd_pow 2 (by omega : 2 ≤ k)
  have hmin : 2 ^ 7 ≤ 2 ^ k := Nat.pow_le_pow_right (by decide) hk
  by_cases hk12 : k ≤ 12
  · have hdvd : 2 ^ k ∣ PAGE_SIZE := Nat.pow_dvd_pow 2 hk12
    have hle : 2 ^ k ≤ PAGE_SIZE := Nat.le_of_dvd (by decide) hdvd
    refine ⟨2 ^ k, Nat.min_eq_left hle, .inl rfl, by omega, hp4, rfl, ?_⟩
    rw [← Nat.mod_mod_of_dvd _ hdvd, hmod, Nat.mod_mod_of_dvd _ hdvd, Nat.mod_add_mod]
  · have hpow : 2 ^ 12 ≤ 2 ^ k := Nat.pow_le_pow_right (by decide) (by omega)
    have hle : PAGE_SIZE ≤ 2 ^ k := hpow
    have hlt : offset < PAGE_SIZE := by omega
    refine ⟨PAGE_SIZE, Nat.min_eq_right hle, .inr ⟨rfl, hle⟩, by decide, by decide, ?_, ?_⟩
    · rw [Nat.mod_eq_of_lt hlt, Nat.mod_eq_of_lt (by omega)]
    · rw [hmod, Nat.mod_add_mod]

/-- The last page decides about the tail. -/
theorem tailBytes_last {k offset len : Nat} (hk : 7 ≤ k) (hoff4 : 4 ∣ offset) (hlen : 0 < len)
    (hpage : offset + len ≤ PAGE_SIZE) (hle : len ≤ length) (hone : offset = 0 ∨ len = length)
    (hshort : length < 4 → len = length) (hmod : (start + length) % PAGE_SIZE = (offset + len) % PAGE_SIZE) :
    (lastTransfer offset len (2 ^ k) < 4 → tailBytes start length (2 ^ k) = lastTransfer offset len (2 ^ k)) ∧
      (4 ≤ lastTransfer offset len (2 ^ k) →
        tailBytes start length (2 ^ k) = 0 ∨ 4 ≤ tailBytes start length (2 ^ k)) := by
  have hp : 0 < 2 ^ k := Nat.two_pow_pos k
  obtain ⟨q, hq, hqp, hq0, hq4, hr, htail⟩ := tail_window hk hlen hpage hmod
  have hrlt : offset % q < q := Nat.mod_lt _ (by omega)
  have hr4 : 4 ∣ offset % q := (Nat.dvd_mod_iff hq4).mpr hoff4
  have hrle : offset % q ≤ offset := Nat.mod_le _ _
  have hzero : offset = 0 → offset % q = 0 := fun h => by rw [h, Nat.zero_mod]
  rw [tailBytes, hq, htail]
  rcases transfers_sum offset hp hlen with ⟨_, hl, hfit⟩ | ⟨htwo, hcross, hsum⟩
  · rw [hl]
    rw [hr] at hfit
    have hwindow : offset % q + len ≤ q := by omega
    have hsum : (offset % q + len) % q = if offset % q + len = q then 0 else offset % q + len := by
      split
      · rename_i hfull
        rw [hfull, Nat.mod_self]
      · exact Nat.mod_eq_of_lt (by omega)
    rw [hsum]
    constructor
    · intro hlt
      split
      · omega
      · rw [if_neg (by omega)]
        omega
    · intro hge
      rw [if_neg (by omega)]
      split <;> omega
  · rw [hr] at hcross hsum
    have hqeq : q = 2 ^ k := by
      rcases hqp with heq | ⟨heq, hbig⟩
      · exact heq
      · omega
    rw [← hqeq] at hcross hsum ⊢
    obtain ⟨t, ht⟩ : ∃ t, transfers offset len q = t + 2 := ⟨transfers offset len q - 2, by
      rw [← hqeq] at htwo
      omega⟩
    obtain ⟨_, hlast⟩ := lastTransfer_le offset (hqeq ▸ hp : 0 < q) hlen
    have hrem : offset % q + len = lastTransfer offset len q + q * (t + 1) := by
      rw [ht, Nat.add_sub_cancel] at hsum
      rw [Nat.mul_comm, Nat.succ_mul]
      omega
    have hlong : ¬ length < 4 := by omega
    rw [if_neg hlong, hrem, Nat.add_mul_mod_self_left]
    constructor
    · intro hlt
      exact Nat.mod_eq_of_lt (by omega)
    · intro hge
      by_cases hfull : lastTransfer offset len q = q
      · rw [hfull, Nat.mod_self]
        exact .inl rfl
      · rw [Nat.mod_eq_of_lt (by omega)]
        exact .inr hge

/-! ### The pages of a range -/

theorem totalLength_setPages (frame : Nat → BitVec 52) (pages i len : Nat) :
    totalLength (setPages frame pages i len) ≤ len := by
  induction pages generalizing i len with
  | zero => exact Nat.zero_le _
  | succ pages ih =>
    have hrest := ih (i + 1) (len - min PAGE_SIZE len)
    have hcons : totalLength (setPages frame (pages + 1) i len) =
        min PAGE_SIZE len + totalLength (setPages frame pages (i + 1) (len - min PAGE_SIZE len)) :=
          List.sum_cons
    omega

theorem totalLength_setFirstPage (frame : Nat → BitVec 52) (start length : Nat) :
    totalLength (setFirstPage frame start length) ≤ length := by
  have hrest := totalLength_setPages frame (numPages start length - 1) 1
    (length - min (PAGE_SIZE - start % PAGE_SIZE) length)
  have hcons : totalLength (setFirstPage frame start length) = min (PAGE_SIZE - start % PAGE_SIZE) length +
      totalLength (setPages frame (numPages start length - 1) 1
        (length - min (PAGE_SIZE - start % PAGE_SIZE) length)) := List.sum_cons
  omega

/-- A page of the range, as its entry is made from it. -/
structure OnPage (frame : Nat → BitVec 52) (start length i : Nat) (sg : DmaSegment) (offset : Nat) :
    Prop where
  addr : sg.addr.toNat = (frame i).toNat * PAGE_SIZE + offset
  mod : sg.addr.toNat % PAGE_SIZE = offset
  dvd : 4 ∣ offset
  pos : 0 < sg.len
  page : offset + sg.len ≤ PAGE_SIZE
  inner : i + 1 < numPages start length → offset + sg.len = PAGE_SIZE
  final : ¬ i + 1 < numPages start length → i * PAGE_SIZE + offset + sg.len = rangeEnd start length
  le : sg.len ≤ length
  place : 0 < i ∧ offset = 0 ∨ i = 0 ∧ offset = start % PAGE_SIZE

theorem pageSegment_onPage (frame : Nat → BitVec 52) (hstart : 4 ∣ start) (hlen : 0 < length) {i : Nat}
    (hi : i < numPages start length) :
    ∃ offset, OnPage frame start length i (pageSegment frame start length i) offset := by
  obtain ⟨offset, haddr, hoff, hmax, hmin⟩ := pageSegment_spec frame hi
  have hend := lt_numPages.mp hi
  have hmod : start % PAGE_SIZE < PAGE_SIZE := Nat.mod_lt _ (by decide)
  have hmod4 : 4 ∣ start % PAGE_SIZE := (Nat.dvd_mod_iff (by decide)).mpr hstart
  have hsucc : (i + 1) * PAGE_SIZE = i * PAGE_SIZE + PAGE_SIZE := Nat.succ_mul i PAGE_SIZE
  have hzero : i = 0 ∨ i * PAGE_SIZE ≥ PAGE_SIZE := by
    by_cases h : i = 0
    · exact .inl h
    · exact .inr (Nat.le_mul_of_pos_left _ (by omega))
  have hplace : 0 < i ∧ offset = 0 ∨ i = 0 ∧ offset = start % PAGE_SIZE := by
    rcases hzero with rfl | hpos
    · exact .inr ⟨rfl, by omega⟩
    · exact .inl ⟨Nat.pos_of_ne_zero (by rintro rfl; omega), by omega⟩
  have hsum : rangeEnd start length = start % PAGE_SIZE + length := rfl
  have hpos : 0 < (pageSegment frame start length i).len := by
    rcases hplace with ⟨_, rfl⟩ | ⟨rfl, rfl⟩ <;> omega
  refine ⟨offset, haddr, ?_, ?_, hpos, by omega, ?_, ?_, by omega, hplace⟩
  · rw [haddr, Nat.mul_add_mod_self_right]
    exact Nat.mod_eq_of_lt hoff
  · rcases hplace with ⟨_, rfl⟩ | ⟨_, rfl⟩
    · exact Nat.dvd_zero 4
    · exact hmod4
  · intro hnext
    have hfull := lt_numPages.mp hnext
    omega
  · intro hlast
    have hover : ¬ (i + 1) * PAGE_SIZE < rangeEnd start length := fun h => hlast (lt_numPages.mpr h)
    omega

variable {i offset k : Nat} {sg : DmaSegment}

theorem OnPage.last_le (h : OnPage frame start length i sg offset) (k : Nat) :
    lastTransfer offset sg.len (2 ^ k) ≤ sg.len := by
  rcases transfers_sum offset (Nat.two_pow_pos k) h.pos with ⟨_, hl, _⟩ | ⟨_, _, hsum⟩ <;> omega

theorem OnPage.decode (h : OnPage frame start length i sg offset)
    (hsome : (segmentSize (2 ^ k) sg).isSome = true) :
    (decodeSegment (2 ^ k) sg).len = sg.len - lastTransfer offset sg.len (2 ^ k) +
      4 * if lastTransfer offset sg.len (2 ^ k) / 4 = 0 then 2 ^ 8
        else lastTransfer offset sg.len (2 ^ k) / 4 := by
  obtain ⟨g, hg⟩ := Option.isSome_iff_exists.mp hsome
  have hpage : sg.addr.toNat % PAGE_SIZE + sg.len ≤ PAGE_SIZE := by rw [h.mod]; exact h.page
  have hsize : me6SglSize (sg.addr.toNat &&& 0xfff) sg.len (2 ^ k) = some g := by
    rw [segmentSize, BitVec.toNat_and] at hg
    exact hg
  have hdecode := page_decodedLength h.pos hpage hsize
  rw [h.mod] at hdecode
  rw [decodeSegment, hg]
  exact hdecode

/-- Every page but the last one holds whole words. -/
theorem OnPage.decode_inner (h : OnPage frame start length i sg offset) (hk : 7 ≤ k)
    (hsome : (segmentSize (2 ^ k) sg).isSome = true) (hi : i + 1 < numPages start length) :
    decodeSegment (2 ^ k) sg = sg := by
  have hp4 : 4 ∣ 2 ^ k := Nat.pow_dvd_pow 2 (by omega : 2 ≤ k)
  have hlen4 : 4 ∣ sg.len := by
    have hfull := h.inner hi
    have hoff := h.dvd
    unfold PAGE_SIZE at hfull
    omega
  have hlast := lastTransfer_dvd (Nat.two_pow_pos k) h.pos hp4 h.dvd hlen4
  obtain ⟨hpos, _⟩ := lastTransfer_le offset (Nat.two_pow_pos k) h.pos
  have hle := h.last_le k
  have hlen : (decodeSegment (2 ^ k) sg).len = sg.len := by
    rw [h.decode hsome, if_neg (by omega)]
    omega
  exact congrArg (fun l => (⟨sg.addr, l⟩ : DmaSegment)) hlen

theorem OnPage.tail (h : OnPage frame start length i sg offset) (hstart : 4 ∣ start) (hk : 7 ≤ k)
    (hi : ¬ i + 1 < numPages start length) :
    (lastTransfer offset sg.len (2 ^ k) < 4 → tailBytes start length (2 ^ k) = lastTransfer offset sg.len (2 ^ k)) ∧
      (4 ≤ lastTransfer offset sg.len (2 ^ k) →
        tailBytes start length (2 ^ k) = 0 ∨ 4 ≤ tailBytes start length (2 ^ k)) := by
  have hend := h.final hi
  have hsum : rangeEnd start length = start % PAGE_SIZE + length := rfl
  have hdvd := h.dvd
  have hpage := h.page
  have hmod : (start + length) % PAGE_SIZE = (offset + sg.len) % PAGE_SIZE := by
    rw [← Nat.mod_add_mod, ← hsum, ← hend, Nat.add_assoc, Nat.mul_add_mod_self_right]
  rcases h.place with ⟨hpos, rfl⟩ | ⟨rfl, rfl⟩
  · have hstart4 : 4 ∣ start % PAGE_SIZE := (Nat.dvd_mod_iff (by decide)).mpr hstart
    have hstartlt : start % PAGE_SIZE < PAGE_SIZE := Nat.mod_lt _ (by decide)
    have hmul : PAGE_SIZE ≤ i * PAGE_SIZE := Nat.le_mul_of_pos_left _ hpos
    have hlong : ¬ length < 4 := by
      unfold PAGE_SIZE at *
      omega
    exact tailBytes_last hk h.dvd h.pos h.page h.le (.inl rfl) (fun hshort => absurd hshort hlong) hmod
  · have hlen : sg.len = length := by omega
    exact tailBytes_last hk h.dvd h.pos h.page h.le (.inr hlen) (fun _ => hlen) hmod

/-- Where the last transfer starts. -/
theorem OnPage.tail_byte (h : OnPage frame start length i sg offset)
    (hi : ¬ i + 1 < numPages start length) {t : Nat}
    (ht : t ≤ sg.len) (hpos : 0 < t) : busByte frame (rangeEnd start length - t) =
      sg.addr.toNat + (sg.len - t) := by
  have hend := h.final hi
  have hpage := h.page
  have hplace : rangeEnd start length - t = i * PAGE_SIZE + (offset + (sg.len - t)) := by omega
  rw [hplace, busByte_page frame i (by omega), h.addr]
  omega

theorem userRange_read {alloc : Nat → Option (BitVec 64)} (halloc : ∀ k a, alloc k = some a → 4 ∣ a.toNat)
    {ctrl : BitVec 16} (hstart : 4 ∣ start) (hlen : 0 < length) {segs : List DmaSegment}
      {nodes : List ChainNode}
    (h : menCreateUserbufMap frame alloc ctrl start length = .ok (segs, nodes)) :
    segs = setFirstPage frame start length ∧
      readChain nodes = some (segmentGroups (payloadSize ctrl) (setFirstPage frame start length)) ∧
      ∀ i < numPages start length, (segmentSize (payloadSize ctrl) (pageSegment frame start length i)).isSome = true := by
  rw [menCreateUserbufMap] at h
  split at h
  · cases h
  · split at h
    · cases h
    · rename_i built hbuilt
      obtain ⟨rfl, rfl⟩ := Prod.mk.inj (Except.ok.inj h)
      have hsum := totalLength_setFirstPage frame start length
      have hmem : ∀ sg ∈ setFirstPage frame start length,
          ∃ i < numPages start length, pageSegment frame start length i = sg := by
        intro sg hsg
        rw [setFirstPage_eq hlen] at hsg
        obtain ⟨i, hi, heq⟩ := List.mem_map.mp hsg
        exact ⟨i, List.mem_range.mp hi, heq⟩
      have haddr : ∀ sg ∈ setFirstPage frame start length, 4 ∣ sg.addr.toNat := by
        intro sg hsg
        obtain ⟨i, hi, rfl⟩ := hmem sg hsg
        obtain ⟨offset, hpage⟩ := pageSegment_onPage frame hstart hlen hi
        have hdvd := hpage.dvd
        rw [hpage.addr]
        unfold PAGE_SIZE
        omega
      obtain ⟨_, hread⟩ := userbuf_read halloc (List.cons_ne_nil _ _) haddr hsum hbuilt
      obtain ⟨hsome, _⟩ := me6CreateUserbuf_eq hsum hbuilt
      refine ⟨rfl, hread, fun i hi => hsome _ ?_⟩
      rw [setFirstPage_eq hlen]
      exact List.mem_map.mpr ⟨i, List.mem_range.mpr hi, rfl⟩

/-- The device touches only the range when every page's entry does. -/
theorem describesOnly_pages (hlen : 0 < length) {nodes : List ChainNode}
    (hread : readChain nodes = some (segmentGroups payload (setFirstPage frame start length))) :
    DescribesOnly payload (setFirstPage frame start length) nodes ↔
      ∀ i < numPages start length, ∀ b, (pageSegment frame start length i).addr.toNat ≤ b →
        b < (pageSegment frame start length i).addr.toNat +
          (decodeSegment payload (pageSegment frame start length i)).len →
        Covers (setFirstPage frame start length) b := by
  constructor
  · rintro ⟨gs, hgs, hall⟩ i hi b hlow hhigh
    obtain rfl := Option.some.inj (hread.symm.trans hgs)
    refine hall b ⟨decodeSegment payload (pageSegment frame start length i), ?_, hlow, hhigh⟩
    rw [segmentGroups_decode, setFirstPage_eq hlen]
    exact List.mem_map.mpr ⟨_, List.mem_map.mpr ⟨i, List.mem_range.mpr hi, rfl⟩, rfl⟩
  · intro hall
    refine ⟨_, hread, ?_⟩
    rintro b ⟨sg', hsg', hlow, hhigh⟩
    rw [segmentGroups_decode, setFirstPage_eq hlen] at hsg'
    obtain ⟨sg, hsg, rfl⟩ := List.mem_map.mp hsg'
    obtain ⟨i, hi, rfl⟩ := List.mem_map.mp hsg
    exact hall i (List.mem_range.mp hi) b hlow hhigh

/-- The list describes the range alone unless its last transfer is short, or what lies behind
it happens to be mapped for the range as well. -/
theorem userRange_describes_iff (frame : Nat → BitVec 52) {alloc : Nat → Option (BitVec 64)}
    (halloc : ∀ k a, alloc k = some a → 4 ∣ a.toNat) (ctrl : BitVec 16) (start length : Nat)
      (hstart : 4 ∣ start)
    (hlen : 1 ≤ length) {segs : List DmaSegment} {nodes : List ChainNode}
    (h : menCreateUserbufMap frame alloc ctrl start length = .ok (segs, nodes)) :
    DescribesOnly (payloadSize ctrl) segs nodes ↔
      tailBytes start length (payloadSize ctrl) = 0 ∨ 4 ≤ tailBytes start length (payloadSize ctrl) ∨
        TailMapped frame start length (payloadSize ctrl) := by
  obtain ⟨rfl, hread, hsome⟩ := userRange_read halloc hstart hlen h
  obtain ⟨k, hk, _, hp⟩ := payloadSize_eq ctrl
  rw [hp] at hread hsome ⊢
  rw [describesOnly_pages hlen hread]
  constructor
  · intro hall
    have hpages : 0 < numPages start length := lt_numPages.mpr (by unfold rangeEnd; omega)
    have hi : numPages start length - 1 < numPages start length := Nat.sub_lt hpages Nat.one_pos
    have hend : ¬ numPages start length - 1 + 1 < numPages start length := by omega
    obtain ⟨offset, hpage⟩ := pageSegment_onPage frame hstart hlen hi
    obtain ⟨hshort, hlong⟩ := hpage.tail hstart hk hend
    by_cases ht : 4 ≤ lastTransfer offset (pageSegment frame start length (numPages start length - 1)).len
      (2 ^ k)
    · exact (hlong ht).imp_right .inl
    · have hdecode := hpage.decode (hsome _ hi)
      have hbytes := hpage.tail_byte hend (hpage.last_le k)
        (lastTransfer_le offset (Nat.two_pow_pos k) hpage.pos).1
      rw [if_pos (by omega)] at hdecode
      refine .inr (.inr fun j hj => ?_)
      rw [hshort (by omega), hbytes]
      exact (covers_iff hlen _).mp (hall _ hi _ (by omega) (by omega))
  · intro htail i hi b hlow hhigh
    obtain ⟨offset, hpage⟩ := pageSegment_onPage frame hstart hlen hi
    have hself : b < (pageSegment frame start length i).addr.toNat + (pageSegment frame start length i).len →
        Covers (setFirstPage frame start length) b := by
      intro hin
      refine ⟨pageSegment frame start length i, ?_, hlow, hin⟩
      rw [setFirstPage_eq hlen]
      exact List.mem_map.mpr ⟨i, List.mem_range.mpr hi, rfl⟩
    by_cases hend : i + 1 < numPages start length
    · rw [hpage.decode_inner hk (hsome i hi) hend] at hhigh
      exact hself hhigh
    · have hle := hpage.last_le k
      have hpos := (lastTransfer_le offset (Nat.two_pow_pos k) hpage.pos).1
      obtain ⟨hshort, _⟩ := hpage.tail hstart hk hend
      rw [hpage.decode (hsome i hi)] at hhigh
      by_cases ht : 4 ≤ lastTransfer offset (pageSegment frame start length i).len (2 ^ k)
      · rw [if_neg (by omega)] at hhigh
        exact hself (by omega)
      · rw [if_pos (by omega)] at hhigh
        rw [hshort (by omega)] at htail
        by_cases hin : b < (pageSegment frame start length i).addr.toNat +
          (pageSegment frame start length i).len
        · exact hself hin
        · have hmapped : TailMapped frame start length (2 ^ k) := by
            rcases htail with h0 | h4 | hmapped
            · omega
            · omega
            · exact hmapped
          obtain ⟨w, hw, hwend, hbyte⟩ := hmapped
            (b - ((pageSegment frame start length i).addr.toNat + ((pageSegment frame start length i).len -
              lastTransfer offset (pageSegment frame start length i).len (2 ^ k)))) (by omega)
          rw [hshort (by omega), hpage.tail_byte hend hle hpos] at hbyte
          exact (covers_iff hlen b).mpr ⟨w, hw, hwend, by omega⟩

theorem userRange_describes_pages :
    ∃ segs nodes, menCreateUserbufMap (fun i => BitVec.ofNat 52 (7 - i)) (fun _ => some 0x8000) 0
      0x1ffc 0x1008 =
      .ok (segs, nodes) ∧ DescribesOnly (payloadSize 0) segs nodes := by
  have hok : menCreateUserbufMap (fun i => BitVec.ofNat 52 (7 - i)) (fun _ => some 0x8000) 0 0x1ffc 0x1008 =
      .ok (setFirstPage (fun i => BitVec.ofNat 52 (7 - i)) 0x1ffc 0x1008, _) := rfl
  refine ⟨_, _, hok, ?_⟩
  exact (userRange_describes_iff _ (fun _ _ ha => Option.some.inj ha ▸ by decide) 0 0x1ffc 0x1008 (by decide)
    (by decide) hok).mpr (.inr (.inl (by decide)))

/-- For a range of one byte the device writes 1024. -/
theorem userRange_overrun :
    ∃ segs nodes, menCreateUserbufMap (fun _ => 1) (fun _ => some 0x8000) 0 0 1 = .ok (segs, nodes) ∧
      ¬ DescribesOnly (payloadSize 0) segs nodes := by
  have hok : menCreateUserbufMap (fun _ => 1) (fun _ => some 0x8000) 0 0 1 =
    .ok (setFirstPage (fun _ => 1) 0 1, _) := rfl
  obtain ⟨_, hread, _⟩ := userRange_read (fun _ _ ha => Option.some.inj ha ▸ by decide)
    (Nat.dvd_zero 4) Nat.one_pos hok
  refine ⟨_, _, hok, fun hdescribes => ?_⟩
  have hall := (describesOnly_pages Nat.one_pos hread).mp hdescribes
  have hbyte : Covers (setFirstPage (fun _ => 1) 0 1) (PAGE_SIZE + 1) :=
    hall 0 (by decide) (PAGE_SIZE + 1) (by decide) (by decide)
  obtain ⟨w, _, hw, hbus⟩ := (covers_iff Nat.one_pos _).mp hbyte
  have hzero : w = 0 := by
    unfold rangeEnd PAGE_SIZE at hw
    omega
  subst hzero
  exact absurd hbus (by decide)

end MenableDriver
