import MenableDriver.Data.Counter
import MenableDriver.Data.Ring
import MenableDriver.Transition.Run
import MenableDriver.Uiq.Base

/-!
# The transmissions of the messaging DMA

The device writes its transmissions into a ring of pages. The controller keeps the offset of
the next one, and there are two ways to read it: `get_next_transmission` hands out a pointer,
`copy_next_transmission_data` copies the words into another ring.
-/

namespace MenableDriver

set_option autoImplicit false

def WORDS_PER_PAGE : Nat := 1024

/-- What the device has written: word `i` of page `p`. -/
abbrev Pages := Nat → Nat → Word

inductive Status where
  | errInvalidState | errOverflow
deriving DecidableEq, Repr

/-- `struct messaging_dma_controller`; the number of buffers is a `uint8_t`. -/
structure MessagingDmaController where
  numBuffers : Nat
  readOffset : Nat
deriving DecidableEq, Repr

/-- `struct messaging_dma_transmission_info`; the read pointer is a word of a page. -/
structure TransmissionInfo where
  page : Nat
  index : Nat
  numWords : Nat
deriving DecidableEq, Repr

namespace MessagingDmaController

def bufId (c : MessagingDmaController) : Nat := c.readOffset / WORDS_PER_PAGE

def bufReadOffset (c : MessagingDmaController) : Nat := c.readOffset % WORDS_PER_PAGE

def totalBufferCapacity (c : MessagingDmaController) : Nat := c.numBuffers * WORDS_PER_PAGE

/-- The length word of the next transmission. -/
def transmissionLength (c : MessagingDmaController) (mem : Pages) : Nat := (mem c.bufId c.bufReadOffset).toNat

end MessagingDmaController

def getNextTransmission (c : MessagingDmaController) (mem : Pages) (isEnabledAndRunning : Bool) :
    Except Status TransmissionInfo × MessagingDmaController :=
  if isEnabledAndRunning = false then (.error .errInvalidState, c)
  else if c.numBuffers ≤ c.bufId then (.error .errOverflow, c)
  else if c.bufReadOffset = WORDS_PER_PAGE - 1 then (.error .errInvalidState, c)
  else
    let transmissionLength := c.transmissionLength mem
    if transmissionLength = 0 then (.error .errInvalidState, c)
    else if WORDS_PER_PAGE < Counter.add c.bufReadOffset transmissionLength then (.error .errOverflow, c)
    else
      let readOffset := Counter.add c.readOffset transmissionLength
      let readOffset := if WORDS_PER_PAGE - readOffset % WORDS_PER_PAGE = 1 then Counter.inc readOffset else readOffset
      (.ok ⟨c.bufId, c.bufReadOffset + 1, transmissionLength - 1⟩,
        { c with readOffset := readOffset % c.totalBufferCapacity })

/-- The destination of a copy: a ring of `capacity` words. -/
structure DestRing where
  capacity : Nat
  freeWords : Nat
  writeOffset : Nat
deriving DecidableEq, Repr

/-- `memcpy` of `n` words from a page, as the words it writes. -/
def copyChunk (mem : Pages) (capacity writeOffset page index n : Nat) : Option (List (Nat × Word)) :=
  if writeOffset + n ≤ capacity ∧ index + n ≤ WORDS_PER_PAGE then
    some ((List.range n).map fun i => (writeOffset + i, mem page (index + i)))
  else none

/-- The loop of the copy. After the first round every round copies at least one word, or the
loop does not end. -/
def copyLoop (mem : Pages) (numBuffers capacity : Nat) :
    Nat → (writeOffset page index wordsToProcess : Nat) → Option (List (Nat × Word))
  | _, _, _, _, 0 => some []
  | 0, _, _, _, _ + 1 => none
  | rounds + 1, writeOffset, page, index, words + 1 => do
    let wordsInCurrentBuf := WORDS_PER_PAGE - index
    let freeWordsUntilWraparound := Counter.sub capacity writeOffset
    let chunkSize := min (words + 1) (min wordsInCurrentBuf freeWordsUntilWraparound)
    let written ← copyChunk mem capacity writeOffset page index chunkSize
    let wordsToProcess := words + 1 - chunkSize
    let writeOffset := Counter.add writeOffset chunkSize % capacity
    let rest ←
      if 0 < wordsInCurrentBuf - chunkSize then
        copyLoop mem numBuffers capacity rounds writeOffset page (index + chunkSize) wordsToProcess
      else
        copyLoop mem numBuffers capacity rounds writeOffset ((page + 1) % numBuffers) 0 wordsToProcess
    some (written ++ rest)

/-- The offset behind a transmission. No transmission starts in the last word of a page. -/
def skipTransmission (c : MessagingDmaController) (transferSize : Nat) : MessagingDmaController :=
  let readOffset := Counter.add c.readOffset transferSize % c.totalBufferCapacity
  { c with
    readOffset := if readOffset % WORDS_PER_PAGE = WORDS_PER_PAGE - 1 then
      Counter.inc readOffset % c.totalBufferCapacity else readOffset }

/-- Returns the number of words and what was written to the destination. -/
def copyNextTransmissionData (c : MessagingDmaController) (mem : Pages) (dst : DestRing) :
    Option (Except Status (Nat × List (Nat × Word)) × MessagingDmaController) :=
  if c.bufId < c.numBuffers then do
    let transferSize := c.transmissionLength mem
    let wordsToProcess := Counter.sub transferSize 1
    let ret ←
      if wordsToProcess ≤ dst.freeWords then do
        let written ← copyLoop mem c.numBuffers dst.capacity (wordsToProcess + 1) dst.writeOffset c.bufId
          (c.bufReadOffset + 1) wordsToProcess
        some (.ok (wordsToProcess, written))
      else some (.error .errOverflow)
    some (ret, skipTransmission c transferSize)
  else none

/-! ### The bounds of the pointer -/

/-- The read offset is inside the ring. -/
structure MessagingDmaController.Valid (c : MessagingDmaController) : Prop where
  pos : 0 < c.numBuffers
  lt : c.numBuffers < 256
  inside : c.readOffset < c.totalBufferCapacity

variable {c : MessagingDmaController} {mem : Pages}

theorem bufId_lt (h : c.Valid) : c.bufId < c.numBuffers := by
  have hin := h.inside
  unfold MessagingDmaController.totalBufferCapacity at hin
  unfold MessagingDmaController.bufId WORDS_PER_PAGE at *
  omega

theorem bufReadOffset_lt (c : MessagingDmaController) : c.bufReadOffset < 1024 :=
  Nat.mod_lt _ (by decide)

theorem totalBufferCapacity_pos (h : c.Valid) : 0 < c.totalBufferCapacity :=
  Nat.mul_pos h.pos (by decide)

/-- One call, with what the device has written by then. -/
structure ReadCall where
  mem : Pages
  isEnabledAndRunning : Bool

/-- The controller, with the result of the last call and the offset in front of it. -/
structure Reader where
  ctrl : MessagingDmaController
  last : Option (Except Status TransmissionInfo × Nat) := none

def readStep (r : Reader) (e : ReadCall) : Except Unit Reader :=
  let (result, ctrl) := getNextTransmission r.ctrl e.mem e.isEnabledAndRunning
  .ok ⟨ctrl, some (result, r.ctrl.readOffset)⟩

/-- A range lies in its page, an error leaves the offset as it was. -/
def ResultOk (ctrl : MessagingDmaController) : Except Status TransmissionInfo × Nat → Prop
  | (.ok info, _) => info.page < ctrl.numBuffers ∧ info.index + info.numWords ≤ WORDS_PER_PAGE
  | (.error _, before) => ctrl.readOffset = before

def InBounds (r : Reader) : Prop :=
  r.ctrl.readOffset < r.ctrl.totalBufferCapacity ∧ ∀ result, r.last = some result → ResultOk r.ctrl result

/-- The sum of the offset and the length overflows, and the comparison with the end of the page
sees a small number. -/
def LengthWraps (r : Reader) (e : ReadCall) : Prop :=
  e.isEnabledAndRunning = true ∧ r.ctrl.bufReadOffset ≠ WORDS_PER_PAGE - 1 ∧
    Counter.wrap ≤ r.ctrl.bufReadOffset + r.ctrl.transmissionLength e.mem

theorem transmissionLength_lt (c : MessagingDmaController) (mem : Pages) :
    c.transmissionLength mem < Counter.wrap := BitVec.isLt _

/-- The offset behind a range that was handed out. -/
theorem readOffset_lt (h : c.Valid) (n : Nat) : n % c.totalBufferCapacity < c.totalBufferCapacity :=
  Nat.mod_lt _ (totalBufferCapacity_pos h)

theorem getNextTransmission_valid (h : c.Valid) (mem : Pages) (isEnabledAndRunning : Bool) :
    (getNextTransmission c mem isEnabledAndRunning).2.Valid := by
  unfold getNextTransmission
  dsimp only
  split_ifs
  · exact h
  · exact h
  · exact h
  · exact h
  · exact h
  · exact ⟨h.pos, h.lt, readOffset_lt h _⟩
  · exact ⟨h.pos, h.lt, readOffset_lt h _⟩

theorem getNextTransmission_result (h : c.Valid) (mem : Pages) (isEnabledAndRunning : Bool) :
    ResultOk (getNextTransmission c mem isEnabledAndRunning).2
        ((getNextTransmission c mem isEnabledAndRunning).1, c.readOffset) ↔
      ¬ LengthWraps ⟨c, none⟩ ⟨mem, isEnabledAndRunning⟩ := by
  have hid := bufId_lt h
  have hoff := bufReadOffset_lt c
  have hlen := transmissionLength_lt c mem
  unfold LengthWraps getNextTransmission
  dsimp only
  split_ifs with hrun hbuf hlast hzero hcross hskip
  · exact iff_of_true rfl (by simp [hrun])
  · omega
  · exact iff_of_true rfl (by simp [hlast])
  · refine iff_of_true rfl (fun hw => ?_)
    have hge := hw.2.2
    rw [hzero] at hge
    unfold Counter.wrap at hge
    omega
  · refine iff_of_true rfl (fun hw => ?_)
    have hge := hw.2.2
    unfold Counter.add Counter.wrap WORDS_PER_PAGE at *
    omega
  all_goals
    simp only [Bool.not_eq_false] at hrun
    simp only [ResultOk, hid, hrun, hlast, ne_eq, not_false_eq_true, true_and, not_le]
    unfold Counter.add Counter.wrap WORDS_PER_PAGE at *
    omega

/-- The calls stay in bounds exactly as long as no sum wraps. -/
theorem getNextTransmission_inBounds_iff (c : MessagingDmaController) (hc : c.Valid) (es : List ReadCall) :
    Transition.Always readStep InBounds ⟨c, none⟩ es ↔
      Transition.Meets readStep (fun r e => ¬ LengthWraps r e) ⟨c, none⟩ es := by
  refine Transition.always_iff_meets (P := fun r => r.ctrl.Valid ∧ InBounds r) (fun r h => h.2) ?_
    ⟨hc, hc.inside, fun result h => by cases h⟩ es
  intro r e t hr ht
  have hvalid := getNextTransmission_valid hr.1 e.mem e.isEnabledAndRunning
  have hiff := getNextTransmission_result hr.1 e.mem e.isEnabledAndRunning
  cases ht
  constructor
  · intro hG
    refine ⟨hvalid, hvalid.inside, fun result hresult => ?_⟩
    cases hresult
    exact hiff.mpr hG
  · intro hQ
    exact hiff.mp (hQ.2 _ rfl)

instance (r : Reader) (e : ReadCall) : Decidable (LengthWraps r e) :=
  inferInstanceAs (Decidable (_ = true ∧ _ ≠ _ ∧ _ ≤ _))

/-- Two transmissions of three words. -/
theorem getNextTransmission_inBounds_twoWords :
    Transition.Always readStep InBounds ⟨⟨2, 0⟩, none⟩ [⟨fun _ _ => 3, true⟩, ⟨fun _ _ => 3, true⟩] :=
  (getNextTransmission_inBounds_iff ⟨2, 0⟩ ⟨by decide, by decide, by decide⟩ _).mpr
    (Transition.meets_of_check (g := fun r e => decide (¬ LengthWraps r e)) (fun _ _ h => of_decide_eq_true h)
      (by decide +kernel))

/-- A length of `2 ^ 32 - 5` behind ten words. -/
theorem getNextTransmission_overrun :
    ¬ Transition.Always readStep InBounds ⟨⟨1, 10⟩, none⟩ [⟨fun _ _ => 0xfffffffb#32, true⟩] := by
  intro h
  have hlast : getNextTransmission ⟨1, 10⟩ (fun _ _ => 0xfffffffb#32) true =
      (.ok ⟨0, 11, 4294967290⟩, ⟨1, 5⟩) := by decide +kernel
  have hstep : readStep ⟨⟨1, 10⟩, none⟩ ⟨fun _ _ => 0xfffffffb#32, true⟩ =
      .ok ⟨⟨1, 5⟩, some (.ok ⟨0, 11, 4294967290⟩, 10)⟩ := by simp only [readStep, hlast]
  have hrange : ResultOk ⟨1, 5⟩ (.ok ⟨0, 11, 4294967290⟩, 10) := (h.2 _ hstep).2 _ rfl
  exact absurd hrange.2 (by decide)

/-! ### The two readers -/

/-- The pages as one memory. -/
def Pages.word (mem : Pages) (k : Nat) : Word := mem (k / WORDS_PER_PAGE) (k % WORDS_PER_PAGE)

/-- The words `n` from `start` on in the ring of pages, next to the places in the ring of the
destination from `writeOffset` on. -/
def copied (mem : Pages) (numBuffers capacity writeOffset start n : Nat) : List (Nat × Word) :=
  (Ring.window id capacity writeOffset n).zip (Ring.window mem.word (numBuffers * WORDS_PER_PAGE) start n)

variable {nb cap wo page index start : Nat}

theorem copied_add (m n : Nat) :
    copied mem nb cap wo start (m + n) = copied mem nb cap wo start m ++ copied mem nb cap (wo + m)
      (start + m) n := by
  simp only [copied, Ring.window_add]
  exact List.zip_append (by rw [Ring.length_window, Ring.length_window])

theorem copied_congr {wo' start' : Nat} (hwo : wo % cap = wo' % cap)
    (hstart : start % (nb * WORDS_PER_PAGE) = start' % (nb * WORDS_PER_PAGE)) (n : Nat) :
    copied mem nb cap wo start n = copied mem nb cap wo' start' n := by
  simp only [copied]
  rw [← Ring.window_mod (r := wo), hwo, Ring.window_mod, ← Ring.window_mod (r := start), hstart,
    Ring.window_mod]

/-- A chunk ends neither behind the page nor behind the ring of the destination. -/
theorem copyChunk_eq {n : Nat} (hpage : page < nb) (hn : wo + n ≤ cap) (hi : index + n ≤ WORDS_PER_PAGE) :
    copyChunk mem cap wo page index n = some (copied mem nb cap wo (page * WORDS_PER_PAGE + index) n) := by
  rw [copyChunk, if_pos ⟨hn, hi⟩, copied, Ring.window, Ring.window, List.zip_map']
  congr 1
  refine List.map_congr_left fun i hmem => ?_
  have hlt := List.mem_range.mp hmem
  unfold WORDS_PER_PAGE at *
  have hin : page * 1024 + index + i < nb * 1024 := by omega
  have hdiv : (page * 1024 + index + i) / 1024 = page := by omega
  have hmod : (page * 1024 + index + i) % 1024 = index + i := by omega
  rw [id, Nat.mod_eq_of_lt (by omega), Nat.mod_eq_of_lt hin, Pages.word, WORDS_PER_PAGE, hdiv, hmod]

/-- Behind the last word of a page comes the first one of the next page. -/
theorem nextPage_mod (page nb : Nat) :
    ((page + 1) % nb * WORDS_PER_PAGE) % (nb * WORDS_PER_PAGE) =
      (page * WORDS_PER_PAGE + WORDS_PER_PAGE) % (nb * WORDS_PER_PAGE) := by
  rw [Nat.mul_mod_mul_right, Nat.mod_mod, ← Nat.mul_mod_mul_right, Nat.succ_mul]

theorem copyLoop_eq (hcap : cap < Counter.wrap) {rounds words : Nat} (hrounds : words ≤ rounds)
    (hpage : page < nb) (hwo : wo < cap) (hindex : index < WORDS_PER_PAGE) :
    copyLoop mem nb cap rounds wo page index words =
      some (copied mem nb cap wo (page * WORDS_PER_PAGE + index) words) := by
  induction rounds generalizing wo page index words with
  | zero =>
    obtain rfl := Nat.le_zero.mp hrounds
    rfl
  | succ rounds ih =>
    cases words with
    | zero => rfl
    | succ words =>
      have hfree : Counter.sub cap wo = cap - wo := Counter.sub_eq (Nat.le_of_lt hwo) hcap
      simp only [copyLoop, hfree]
      generalize hchunk : min (words + 1) (min (WORDS_PER_PAGE - index) (cap - wo)) = chunk
      obtain ⟨left, hleft⟩ : ∃ left, words + 1 = chunk + left := ⟨words + 1 - chunk, by omega⟩
      have hadd : Counter.add wo chunk = wo + chunk := Counter.add_eq (by omega)
      have hwrap : (wo + chunk) % cap < cap := Nat.mod_lt _ (by omega)
      have hsub : words + 1 - chunk = left := by omega
      rw [copyChunk_eq hpage (by omega) (by omega), hadd, hsub, hleft, copied_add]
      simp only [Option.bind_eq_bind, Option.bind_some]
      split
      · rw [ih (by omega) hpage hwrap (by omega), ← Nat.add_assoc, copied_congr (Nat.mod_mod ..) rfl]
        rfl
      · have hend : index + chunk = WORDS_PER_PAGE := by omega
        have hnext : (page + 1) % nb < nb := Nat.mod_lt _ (by omega)
        have hstart : ((page + 1) % nb * WORDS_PER_PAGE + 0) % (nb * WORDS_PER_PAGE) =
            (page * WORDS_PER_PAGE + index + chunk) % (nb * WORDS_PER_PAGE) := by
          rw [Nat.add_zero, nextPage_mod, Nat.add_assoc, hend]
        rw [ih (by omega) hnext hwrap (by decide), copied_congr (Nat.mod_mod ..) hstart]
        rfl

/-- The next transmission is one that the device may write. -/
structure WellFormed (c : MessagingDmaController) (mem : Pages) : Prop where
  notLast : c.bufReadOffset ≠ WORDS_PER_PAGE - 1
  one_le : 1 ≤ c.transmissionLength mem
  le : c.transmissionLength mem ≤ c.totalBufferCapacity

/-- A destination with room for at most its capacity, and a write offset inside. -/
structure DestRing.Valid (dst : DestRing) : Prop where
  lt : dst.capacity < Counter.wrap
  free : dst.freeWords ≤ dst.capacity
  inside : dst.writeOffset < dst.capacity ∨ dst.capacity = 0

/-- The words of the next transmission behind its length, in ring order. -/
def payload (c : MessagingDmaController) (mem : Pages) : List Word :=
  Ring.window mem.word c.totalBufferCapacity (c.readOffset + 1) (c.transmissionLength mem - 1)

def TransmissionInfo.words (info : TransmissionInfo) (mem : Pages) : List Word :=
  (List.range info.numWords).map fun i => mem info.page (info.index + i)

theorem readOffset_eq (c : MessagingDmaController) :
    c.bufId * WORDS_PER_PAGE + c.bufReadOffset = c.readOffset := Nat.div_add_mod' ..

theorem copyNextTransmissionData_eq (hc : c.Valid) (hw : WellFormed c mem) {dst : DestRing} (hd : dst.Valid)
    (hfree : c.transmissionLength mem - 1 ≤ dst.freeWords) :
    copyNextTransmissionData c mem dst =
      some (.ok (c.transmissionLength mem - 1,
        copied mem c.numBuffers dst.capacity dst.writeOffset (c.readOffset + 1)
          (c.transmissionLength mem - 1)),
        skipTransmission c (c.transmissionLength mem)) := by
  have hlt := transmissionLength_lt c mem
  have hoff := bufReadOffset_lt c
  have hnl := hw.notLast
  have hsub : Counter.sub (c.transmissionLength mem) 1 = c.transmissionLength mem - 1 :=
    Counter.sub_eq hw.one_le hlt
  simp only [copyNextTransmissionData, if_pos (bufId_lt hc), hsub, if_pos hfree, Option.bind_eq_bind]
  have hloop : copyLoop mem c.numBuffers dst.capacity (c.transmissionLength mem - 1 + 1)
    dst.writeOffset c.bufId
      (c.bufReadOffset + 1) (c.transmissionLength mem - 1) =
      some (copied mem c.numBuffers dst.capacity dst.writeOffset (c.readOffset + 1)
        (c.transmissionLength mem - 1)) := by
    rcases hd.inside with hin | hzero
    · rw [copyLoop_eq hd.lt (Nat.le_succ _) (bufId_lt hc) hin
        (by unfold WORDS_PER_PAGE at *; omega), ← Nat.add_assoc, readOffset_eq]
    · have hle := hd.free
      have hnone : c.transmissionLength mem - 1 = 0 := by omega
      rw [hnone]
      rfl
  rw [hloop]
  rfl

/-- Both readers move the offset in the same way while the transmission ends in its page. -/
theorem getNextTransmission_eq (hc : c.Valid) (hw : WellFormed c mem)
    (hpage : c.bufReadOffset + c.transmissionLength mem ≤ WORDS_PER_PAGE) :
    getNextTransmission c mem true =
      (.ok ⟨c.bufId, c.bufReadOffset + 1, c.transmissionLength mem - 1⟩,
        skipTransmission c (c.transmissionLength mem)) := by
  have hone := hw.one_le
  have hid := bufId_lt hc
  have hro := readOffset_eq c
  have hlt := hc.lt
  have htotal : c.totalBufferCapacity = c.numBuffers * WORDS_PER_PAGE := rfl
  have hsum : c.readOffset + c.transmissionLength mem ≤ c.totalBufferCapacity := by
    unfold WORDS_PER_PAGE at *
    omega
  have hadd : Counter.add c.readOffset (c.transmissionLength mem) = c.readOffset + c.transmissionLength mem :=
    Counter.add_eq (by unfold WORDS_PER_PAGE Counter.wrap at *; omega)
  have hoff : Counter.add c.bufReadOffset (c.transmissionLength mem) =
      c.bufReadOffset + c.transmissionLength mem :=
    Counter.add_eq (by unfold WORDS_PER_PAGE Counter.wrap at *; omega)
  have hinc : Counter.inc (c.readOffset + c.transmissionLength mem) =
      c.readOffset + c.transmissionLength mem + 1 :=
    Counter.inc_eq (by unfold WORDS_PER_PAGE Counter.wrap at *; omega)
  unfold getNextTransmission skipTransmission
  simp only [hadd, hoff, hinc, Bool.true_eq_false, if_false, if_neg (Nat.not_le.mpr hid), if_neg hw.notLast,
    if_neg (Nat.ne_of_gt hone), if_neg (Nat.not_lt.mpr hpage)]
  have hcond : WORDS_PER_PAGE - (c.readOffset + c.transmissionLength mem) % WORDS_PER_PAGE = 1 ↔
      (c.readOffset + c.transmissionLength mem) % c.totalBufferCapacity % WORDS_PER_PAGE =
        WORDS_PER_PAGE - 1 := by
    rw [htotal, Nat.mod_mul_left_mod]
    unfold WORDS_PER_PAGE
    omega
  simp only [hcond]
  split_ifs with hskip
  · have hne : c.readOffset + c.transmissionLength mem ≠ c.totalBufferCapacity := by
      intro heq
      rw [heq, Nat.mod_self] at hskip
      exact absurd hskip (by decide)
    rw [Nat.mod_eq_of_lt (by omega : c.readOffset + c.transmissionLength mem < c.totalBufferCapacity), hinc]
  · rfl

theorem words_eq_payload (hc : c.Valid)
    (hpage : c.bufReadOffset + c.transmissionLength mem ≤ WORDS_PER_PAGE) :
    TransmissionInfo.words ⟨c.bufId, c.bufReadOffset + 1, c.transmissionLength mem - 1⟩ mem =
      payload c mem := by
  have hid := bufId_lt hc
  have hro := readOffset_eq c
  have htotal : c.totalBufferCapacity = c.numBuffers * WORDS_PER_PAGE := rfl
  refine List.map_congr_left fun i hmem => ?_
  have hlt := List.mem_range.mp hmem
  unfold WORDS_PER_PAGE at *
  dsimp only at hlt ⊢
  have hin : c.readOffset + 1 + i < c.totalBufferCapacity := by omega
  have hdiv : (c.readOffset + 1 + i) / 1024 = c.bufId := by omega
  have hmod : (c.readOffset + 1 + i) % 1024 = c.bufReadOffset + 1 + i := by omega
  rw [Nat.mod_eq_of_lt hin, Pages.word, WORDS_PER_PAGE, hdiv, hmod]

/-- The copy writes the payload in ring order, each word to its own place, and the pointer
shows the same words with the same offset behind them. -/
theorem readers_agree (c : MessagingDmaController) (hc : c.Valid) (mem : Pages) (hw : WellFormed c mem)
    (dst : DestRing) (hd : dst.Valid) (hfree : c.transmissionLength mem - 1 ≤ dst.freeWords) :
    ∃ written c', copyNextTransmissionData c mem dst =
      some (.ok (c.transmissionLength mem - 1, written), c') ∧
      written.map Prod.snd = payload c mem ∧
      written.map Prod.fst =
        Ring.window id dst.capacity dst.writeOffset (c.transmissionLength mem - 1) ∧
      (written.map Prod.fst).Nodup ∧
      (c.bufReadOffset + c.transmissionLength mem ≤ WORDS_PER_PAGE →
        ∃ info, getNextTransmission c mem true = (.ok info, c') ∧ info.words mem = written.map Prod.snd) := by
  have hle := Nat.le_trans hfree hd.free
  refine ⟨_, _, copyNextTransmissionData_eq hc hw hd hfree, ?_, ?_, ?_, ?_⟩
  · exact List.map_snd_zip (by simp)
  · exact List.map_fst_zip (by simp)
  · rw [copied, List.map_fst_zip (by simp)]
    exact Ring.nodup_window_id hle
  · intro hpage
    refine ⟨_, getNextTransmission_eq hc hw hpage, ?_⟩
    rw [copied, List.map_snd_zip (by simp)]
    exact words_eq_payload hc hpage

/-- Five words that run over the end of the second page and of the destination. -/
theorem readers_agree_wrapped :
    ∃ written c', copyNextTransmissionData ⟨2, 2045⟩ (fun _ _ => 5) ⟨6, 5, 4⟩ = some (.ok (4, written), c') ∧
      written.map Prod.snd = payload ⟨2, 2045⟩ (fun _ _ => 5) ∧
      written.map Prod.fst = Ring.window id 6 4 4 ∧ (written.map Prod.fst).Nodup ∧
      (1021 + 5 ≤ WORDS_PER_PAGE →
        ∃ info, getNextTransmission ⟨2, 2045⟩ (fun _ _ => 5) true = (.ok info, c') ∧
          info.words (fun _ _ => 5) = written.map Prod.snd) :=
  readers_agree ⟨2, 2045⟩ ⟨by decide, by decide, by decide⟩ (fun _ _ => 5) ⟨by decide, by decide, by decide⟩
    ⟨6, 5, 4⟩ ⟨by decide, by decide, by decide⟩ (by decide)

end MenableDriver
