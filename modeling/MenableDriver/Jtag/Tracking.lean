import MenableDriver.Jtag.Controller
import MenableDriver.Jtag.Tap

/-!
# The remembered state is that of the chain

What the board does with the words of the control register, the bits that go to the TMS pin
with each call, and where they lead the TAP state machine.
-/

namespace MenableDriver

set_option autoImplicit false

/-! ## The bits on the TMS pin -/

/-- The first bits of the loaded word, the highest one first. -/
def sentBits (tms : BitVec 16) (numBits : Nat) : List Bool := (List.range numBits).map fun i =>
    tms.getLsbD (15 - i)

/-- A word of the control register. `JTAG_TMS_nTDO` loads the word for the TMS pin, and
`JTAG_ENABLE` clocks as many bits out as the bit count says, which is one less than their number. -/
def clockWord (s : BitVec 16 × List Bool) (value : Word) : BitVec 16 × List Bool :=
  let tms := if value.getLsbD 16 then value.setWidth 16 else s.1
  if value.getLsbD 17 then (tms, s.2 ++ sentBits tms ((value.extractLsb' 18 4).toNat + 1)) else (tms, s.2)

/-- All the bits that were clocked out. -/
def clockedOut (written : List Word) : List Bool := (written.foldl clockWord (0#16, [])).2

variable {s : BitVec 16 × List Bool} {lastStatus tms data value : Word} {n : Nat}

/-- A word without the two bits does nothing. -/
theorem clockWord_other (h₁ : value.getLsbD 16 = false) (h₂ : value.getLsbD 17 = false) :
    clockWord s value = s := by
  rw [clockWord, h₁, h₂]
  rfl

theorem tmsWord_getLsbD_enable : (JtagBus.tmsWord lastStatus tms).getLsbD 17 = false := by
  simp [JtagBus.tmsWord, JTAG_CTRL_ACTIVATE, JTAG_PRESCALER_MASK, JTAG_BITCOUNT_MASK, JTAG_TMS_nTDO]

theorem clockWord_tmsWord : clockWord s (JtagBus.tmsWord lastStatus tms) = (tms.setWidth 16, s.2) := by
  have h16 : (JtagBus.tmsWord lastStatus tms).getLsbD 16 = true := by
    simp [JtagBus.tmsWord, JTAG_CTRL_ACTIVATE, JTAG_PRESCALER_MASK, JTAG_BITCOUNT_MASK, JTAG_TMS_nTDO]
  have hlow : (JtagBus.tmsWord lastStatus tms).setWidth 16 = tms.setWidth 16 := by
    have hctrl : (JTAG_CTRL_ACTIVATE ||| JTAG_BITCOUNT_MASK ||| JTAG_TMS_nTDO).setWidth 16 = 0#16 := by decide
    have hprescaler : JTAG_PRESCALER_MASK.setWidth 16 = 0#16 := by decide
    have hones : (0xffff#32).setWidth 16 = BitVec.allOnes 16 := by decide
    simp only [BitVec.setWidth_or, BitVec.or_eq_zero_iff] at hctrl
    obtain ⟨⟨h₁, h₂⟩, h₃⟩ := hctrl
    simp only [JtagBus.tmsWord, BitVec.setWidth_or, BitVec.setWidth_and, h₁, h₂, h₃, hprescaler, hones,
      BitVec.and_zero, BitVec.and_allOnes, BitVec.zero_or]
  rw [clockWord, h16, tmsWord_getLsbD_enable, hlow]
  rfl

/-- The fields of a word with data. -/
theorem dataWord_fields (hn : 0 < n) (hle : n ≤ 16) :
    (JtagBus.dataWord lastStatus data n).getLsbD 16 = false ∧
      (JtagBus.dataWord lastStatus data n).getLsbD 17 = true ∧
      ((JtagBus.dataWord lastStatus data n).extractLsb' 18 4).toNat + 1 = n ∧
      (JtagBus.dataWord lastStatus data n).setWidth 16 = data.setWidth 16 := by
  have hcount : ∀ k < 16, (BitVec.ofNat 32 k <<< JTAG_BITCOUNT_SHIFT).getLsbD 16 = false ∧
      (BitVec.ofNat 32 k <<< JTAG_BITCOUNT_SHIFT).getLsbD 17 = false ∧
      (BitVec.ofNat 32 k <<< JTAG_BITCOUNT_SHIFT).extractLsb' 18 4 = BitVec.ofNat 4 k ∧
      (BitVec.ofNat 32 k <<< JTAG_BITCOUNT_SHIFT).setWidth 16 = 0#16 ∧
      (BitVec.ofNat 4 k).toNat = k := by decide
  obtain ⟨hc16, hc17, hc, hclow, hk⟩ := hcount (n - 1) (by omega)
  refine ⟨?_, by simp [JtagBus.dataWord, JTAG_ENABLE], ?_, ?_⟩
  · rw [JtagBus.dataWord]
    simp only [BitVec.getLsbD_or, hc16]
    simp [JTAG_CTRL_ACTIVATE, JTAG_PRESCALER_MASK, JTAG_ENABLE]
  · have h₁ : JTAG_CTRL_ACTIVATE.extractLsb' 18 4 = 0#4 := by decide
    have h₂ : JTAG_PRESCALER_MASK.extractLsb' 18 4 = 0#4 := by decide
    have h₃ : JTAG_ENABLE.extractLsb' 18 4 = 0#4 := by decide
    have h₄ : (0xffff#32).extractLsb' 18 4 = 0#4 := by decide
    simp only [JtagBus.dataWord, BitVec.extractLsb'_or, BitVec.extractLsb'_and, h₁, h₂, h₃, h₄, hc,
      BitVec.and_zero, BitVec.zero_or, BitVec.or_zero, hk]
    omega
  · have h₁ : JTAG_CTRL_ACTIVATE.setWidth 16 = 0#16 := by decide
    have h₂ : JTAG_PRESCALER_MASK.setWidth 16 = 0#16 := by decide
    have h₃ : JTAG_ENABLE.setWidth 16 = 0#16 := by decide
    have h₄ : (0xffff#32).setWidth 16 = BitVec.allOnes 16 := by decide
    simp only [JtagBus.dataWord, BitVec.setWidth_or, BitVec.setWidth_and, h₁, h₂, h₃, h₄, hclow,
      BitVec.and_zero, BitVec.and_allOnes, BitVec.zero_or]

theorem clockWord_dataWord (hn : 0 < n) (hle : n ≤ 16) :
    clockWord s (JtagBus.dataWord lastStatus data n) = (s.1, s.2 ++ sentBits s.1 n) := by
  obtain ⟨h16, h17, hlen, -⟩ := @dataWord_fields lastStatus data n hn hle
  rw [clockWord, h16, h17, hlen]
  rfl

theorem clockedOut_append (written : List Word) (value : Word) :
    clockedOut (written ++ [value]) = (clockWord (written.foldl clockWord (0#16, [])) value).2 := by
  rw [clockedOut, List.foldl_append, List.foldl_cons, List.foldl_nil]

variable {b b' : JtagBus} {c c' : JtagController} {state old : JtagState} {flags : Word}

theorem clockedOut_other (h₁ : value.getLsbD 16 = false) (h₂ : value.getLsbD 17 = false) :
    clockedOut (b.writeControlRegister value).written = clockedOut b.written := by
  rw [JtagBus.writeControlRegister, clockedOut_append, clockWord_other h₁ h₂]
  rfl

theorem clockedOut_default : clockedOut (b.writeControlRegister JTAG_DEFAULT_VALUE).written =
    clockedOut b.written :=
  clockedOut_other (by decide) (by decide)

theorem clockedOut_prescaler (c : JtagController) :
    clockedOut (b.writeControlRegister c.prescalerValue).written = clockedOut b.written := by
  have hbit : ∀ i, (c.prescalerValue.getLsbD i && (~~~JTAG_PRESCALER_MASK).getLsbD i) = false := fun i => by
    rw [← BitVec.getLsbD_and, c.prescalerValue_ok, BitVec.ofNat_eq_ofNat, BitVec.getLsbD_zero]
  have h16 := hbit 16
  have h17 := hbit 17
  have hm16 : (~~~JTAG_PRESCALER_MASK).getLsbD 16 = true := by decide
  have hm17 : (~~~JTAG_PRESCALER_MASK).getLsbD 17 = true := by decide
  rw [hm16, Bool.and_true] at h16
  rw [hm17, Bool.and_true] at h17
  exact clockedOut_other h16 h17

/-- No read of the register fails. -/
def Answers (b : JtagBus) : Prop := 0xffffffff#32 ∉ b.reads

theorem waitForCompletion_spec {reads rest : List Word} {val : Word}
    (h : JtagBus.waitForCompletion lastStatus reads = some (val, rest)) :
    val ∈ reads ∧ ∀ v ∈ rest, v ∈ reads := by
  induction reads with
  | nil => cases h
  | cons v reads ih =>
    rw [JtagBus.waitForCompletion] at h
    split_ifs at h with hv ht
    · obtain ⟨rfl, rfl⟩ := Prod.mk.inj (Option.some.inj h)
      exact ⟨List.mem_cons_self, fun v hv => List.mem_cons_of_mem _ hv⟩
    · have hrest := ih h
      exact ⟨List.mem_cons_of_mem _ hrest.1, fun v hv => List.mem_cons_of_mem _ (hrest.2 v hv)⟩
    · obtain ⟨rfl, rfl⟩ := Prod.mk.inj (Option.some.inj h)
      exact ⟨List.mem_cons_self, fun v hv => List.mem_cons_of_mem _ hv⟩

theorem sendFrame_written {val : Word} (h : b.sendFrame lastStatus tms data n = some (val, b')) :
    b'.written = b.written ++ [JtagBus.tmsWord lastStatus tms] ++ [JtagBus.dataWord lastStatus data n] := by
  unfold JtagBus.sendFrame at h
  dsimp only at h
  obtain ⟨⟨val', reads⟩, -, hret⟩ := Option.bind_eq_some_iff.mp h
  obtain ⟨-, rfl⟩ := Prod.mk.inj (Option.some.inj hret)
  rfl

/-- A frame clocks its bits out. -/
theorem sendFrame_clockedOut {val : Word} (h : b.sendFrame lastStatus tms data n = some (val, b'))
    (hn : 0 < n) (hle : n ≤ 16) :
    clockedOut b'.written = clockedOut b.written ++ sentBits (tms.setWidth 16) n := by
  rw [sendFrame_written h, clockedOut_append, clockWord_dataWord hn hle, List.foldl_append, List.foldl_cons,
    List.foldl_nil, clockWord_tmsWord]
  rfl

theorem sendFrame_spec {val : Word} (h : b.sendFrame lastStatus tms data n = some (val, b')) (hb : Answers b)
    (hn : 0 < n) (hle : n ≤ 16) : val ≠ 0xffffffff#32 ∧ Answers b' ∧
      clockedOut b'.written = clockedOut b.written ++ sentBits (tms.setWidth 16) n := by
  have hclocked := sendFrame_clockedOut h hn hle
  unfold JtagBus.sendFrame at h
  dsimp only at h
  obtain ⟨⟨val', reads⟩, hwait, hret⟩ := Option.bind_eq_some_iff.mp h
  obtain ⟨rfl, rfl⟩ := Prod.mk.inj (Option.some.inj hret)
  obtain ⟨hval, hrest⟩ := waitForCompletion_spec hwait
  exact ⟨fun heq => hb (heq ▸ hval), fun hmem => hb (hrest _ hmem), hclocked⟩

theorem readControlRegister_spec {val : Word} (h : b.readControlRegister = some (val, b')) (hb : Answers b) :
    Answers b' ∧ b'.written = b.written := by
  unfold JtagBus.readControlRegister at h
  split at h
  · cases h
  · rename_i v reads hreads
    obtain ⟨-, rfl⟩ := Prod.mk.inj (Option.some.inj h)
    refine ⟨fun hmem => hb ?_, rfl⟩
    rw [hreads]
    exact List.mem_cons_of_mem _ hmem

/-! ## Changing the state -/

/-- The bits that lead from one state to the other. -/
def stateBits (old state : JtagState) : List Bool :=
  let (bits, numBits) := gatherTms old state
  sentBits ((bits <<< (16 - numBits)).setWidth 16) numBits

theorem gatherTms_le (old state : JtagState) : (gatherTms old state).2 ≤ 16 := by
  cases old <;> cases state <;> decide

theorem setState_spec {result : Except JtagError Nat} (h : setState c b state = some (c', b', result))
    (hb : Answers b) : Answers b' ∧
      (((state = .exit ∨ state = .invalid) ∧ c' = c ∧ b' = b ∧ result = .error .error) ∨
        (¬ (state = .exit ∨ state = .invalid) ∧ c' = { c with state } ∧ result = .ok 0 ∧
          clockedOut b'.written = clockedOut b.written ++ stateBits c.state state)) := by
  unfold setState at h
  split_ifs at h with hs
  · obtain ⟨rfl, rfl, rfl⟩ : c = c' ∧ b = b' ∧ .error .error = result := by simpa using h
    exact ⟨hb, .inl ⟨hs, rfl, rfl, rfl⟩⟩
  have hle := gatherTms_le c.state state
  have hbits : stateBits c.state state = sentBits (((gatherTms c.state state).1 <<<
    (16 - (gatherTms c.state state).2)).setWidth 16) (gatherTms c.state state).2 := rfl
  generalize gatherTms c.state state = g at h hle hbits
  obtain ⟨bits, n⟩ := g
  dsimp only at h hle hbits
  split_ifs at h with hn
  · obtain ⟨⟨lastStatus, b₁⟩, hread, h⟩ := Option.bind_eq_some_iff.mp h
    obtain ⟨⟨val, b₂⟩, hsend, h⟩ := Option.bind_eq_some_iff.mp h
    dsimp only at hsend h
    obtain ⟨hb₁, hw₁⟩ := readControlRegister_spec hread hb
    obtain ⟨hval, hb₂, hw₂⟩ := sendFrame_spec hsend hb₁ (by omega) hle
    rw [if_neg hval] at h
    obtain ⟨rfl, rfl, rfl⟩ : { c with state } = c' ∧ b₂.writeControlRegister JTAG_DEFAULT_VALUE = b' ∧
      .ok 0 = result := by simpa using h
    refine ⟨hb₂, .inr ⟨hs, rfl, rfl, ?_⟩⟩
    rw [clockedOut_default, hw₂, hw₁, clockedOut_prescaler, hbits]
  · obtain ⟨rfl, rfl, rfl⟩ : { c with state } = c' ∧ b.writeControlRegister JTAG_DEFAULT_VALUE = b' ∧
      .ok 0 = result := by simpa using h
    refine ⟨hb, .inr ⟨hs, rfl, rfl, ?_⟩⟩
    rw [clockedOut_default, hbits, not_not.mp hn]
    exact (List.append_nil _).symm

/-- The controller knows where the chain is. After data was sent it is in one of the exit states,
and when the state is invalid it can be anywhere. -/
def Tracks : JtagState → Tap.State → Prop
  | .idle, t => t = .runTestIdle
  | .shiftDr, t => t = .shiftDr
  | .shiftIr, t => t = .shiftIr
  | .reset, t => t = .testLogicReset
  | .exit, t => t = .exit1Dr ∨ t = .exit1Ir
  | .invalid, _ => True

instance (state : JtagState) (t : Tap.State) : Decidable (Tracks state t) := by
  cases state <;> unfold Tracks <;> infer_instance

theorem accepted (hs : ¬ (state = .exit ∨ state = .invalid)) :
    state = .idle ∨ state = .shiftDr ∨ state = .shiftIr ∨ state = .reset := by
  cases state with
  | exit => exact absurd (.inl rfl) hs
  | invalid => exact absurd (.inr rfl) hs
  | idle => exact .inl rfl
  | shiftDr => exact .inr (.inl rfl)
  | shiftIr => exact .inr (.inr (.inl rfl))
  | reset => exact .inr (.inr (.inr rfl))

/-- From an unknown state the way is through the reset. -/
theorem stateBits_invalid (hs : ¬ (state = .exit ∨ state = .invalid)) :
    stateBits .invalid state = List.replicate 5 true ++ stateBits .reset state := by
  rcases accepted hs with rfl | rfl | rfl | rfl <;> decide

theorem tracks_reset (hs : ¬ (state = .exit ∨ state = .invalid)) :
    Tracks state (Tap.run .testLogicReset (stateBits .reset state)) := by
  rcases accepted hs with rfl | rfl | rfl | rfl <;> decide

/-- The bits lead from where the chain is to the new state. -/
theorem tracks_stateBits {t : Tap.State} (ht : Tracks old t) (hs : ¬ (state = .exit ∨ state = .invalid)) :
    Tracks state (Tap.run t (stateBits old state)) := by
  cases old with
  | invalid =>
    rw [stateBits_invalid hs, Tap.run_append, Tap.run_ones]
    exact tracks_reset hs
  | reset =>
    have ht : t = .testLogicReset := ht
    rw [ht]
    exact tracks_reset hs
  | idle =>
    have ht : t = .runTestIdle := ht
    rw [ht]
    rcases accepted hs with rfl | rfl | rfl | rfl <;> decide
  | shiftDr =>
    have ht : t = .shiftDr := ht
    rw [ht]
    rcases accepted hs with rfl | rfl | rfl | rfl <;> decide
  | shiftIr =>
    have ht : t = .shiftIr := ht
    rw [ht]
    rcases accepted hs with rfl | rfl | rfl | rfl <;> decide
  | exit =>
    have ht : t = .exit1Dr ∨ t = .exit1Ir := ht
    rcases ht with rfl | rfl <;> rcases accepted hs with rfl | rfl | rfl | rfl <;> decide

/-! ## Sending data -/

theorem frameLength_pos (n : Nat) : 0 < frameLength n := by
  unfold frameLength
  dsimp only
  split_ifs <;> omega

theorem frameLength_le (n : Nat) : frameLength n ≤ 16 := by
  unfold frameLength
  dsimp only
  split_ifs <;> omega

theorem frameLength_le_self (hn : 0 < n) : frameLength n ≤ n := by
  unfold frameLength
  dsimp only
  split_ifs <;> omega

/-- The last frame is one of at most 16 bits. -/
theorem frameLength_eq_self (hn : 0 < n) (hle : n ≤ 16) : frameLength n = n := by
  unfold frameLength
  dsimp only
  split_ifs <;> omega

theorem sentBits_zero (n : Nat) : sentBits 0#16 n = List.replicate n false := by
  simp only [sentBits, BitVec.getLsbD_zero, List.map_const', List.length_range]

theorem sentBits_last : ∀ n < 17, 0 < n →
    sentBits (((0x1#32 <<< (16 - n)) &&& 0xffff#32).setWidth 16) n =
      List.replicate (n - 1) false ++ [true] := by
  decide

/-- The bits of a transfer that is not raw: the chain stays in idle, or leaves the shift state
with the last bit. -/
def transferBits (flags : Word) (n : Nat) : List Bool :=
  if flags &&& STATE_MASK = STATE_IDLE then List.replicate n false else List.replicate (n - 1) false ++ [true]

/-- What the first frame sends, and what is left. -/
theorem transferBits_frame (hn : 0 < n) : transferBits flags n =
    sentBits ((frameTms flags n).setWidth 16) (frameLength n) ++
      if n - frameLength n = 0 then [] else transferBits flags (n - frameLength n) := by
  have hpos := frameLength_pos n
  have hle := frameLength_le_self hn
  have h16 := frameLength_le n
  by_cases hidle : flags &&& STATE_MASK = STATE_IDLE
  · rw [transferBits, transferBits, if_pos hidle, if_pos hidle, frameTms, if_pos (.inr hidle),
      BitVec.setWidth_zero,
      sentBits_zero]
    have hrest : (if n - frameLength n = 0 then [] else List.replicate (n - frameLength n) false) =
        List.replicate (n - frameLength n) false := by
      split_ifs with h0
      · rw [h0, List.replicate_zero]
      · rfl
    rw [hrest, ← List.replicate_add]
    congr 1
    omega
  · rw [transferBits, transferBits, if_neg hidle, if_neg hidle, frameTms]
    by_cases hn16 : n > 16
    · have hrest : n - frameLength n ≠ 0 := by omega
      rw [if_pos (.inl hn16), if_neg hrest, BitVec.setWidth_zero, sentBits_zero, ← List.append_assoc,
        ← List.replicate_add]
      congr 2
      omega
    · have heq := frameLength_eq_self hn (by omega)
      rw [if_neg (by tauto), heq, Nat.sub_self, if_pos rfl, sentBits_last n (by omega) hn, List.append_nil]

variable {tmsBuffer mem : Nat → BitVec 8}

theorem writeFrame_spec {st : FrameState} {r : Except FrameState FrameState}
    (h : writeFrame tmsBuffer mem flags n st = some r) (hb : Answers st.bus) :
    ∃ st', r = .ok st' ∧ Answers st'.bus ∧ (flags &&& RAW_MODE = 0 → clockedOut st'.bus.written =
      clockedOut st.bus.written ++ sentBits ((frameTms flags n).setWidth 16) (frameLength n)) := by
  unfold writeFrame at h
  dsimp only at h
  obtain ⟨⟨val, bus⟩, hsend, h⟩ := Option.bind_eq_some_iff.mp h
  obtain ⟨hval, hbus, hclocked⟩ := sendFrame_spec hsend hb (frameLength_pos n) (frameLength_le n)
  dsimp only at h
  rw [if_neg hval] at h
  refine ⟨_, (Option.some.inj h).symm, hbus, fun hraw => ?_⟩
  rw [if_pos hraw] at hclocked
  exact hclocked

/-- The loop sends the bits of the transfer. -/
theorem writeFrames_spec {st : FrameState} {r : Except FrameState FrameState}
    (h : writeFrames tmsBuffer mem flags n st = some r) (hb : Answers st.bus) :
    ∃ st', r = .ok st' ∧ Answers st'.bus ∧ (flags &&& RAW_MODE = 0 → clockedOut st'.bus.written =
      clockedOut st.bus.written ++ if n = 0 then [] else transferBits flags n) := by
  induction n using Nat.strong_induction_on generalizing st with
  | _ n ih =>
    rw [writeFrames] at h
    split_ifs at h with hn
    · refine ⟨st, (Option.some.inj h).symm, hb, fun _ => ?_⟩
      rw [if_pos hn, List.append_nil]
    · have hpos := frameLength_pos n
      split at h
      · cases h
      · rename_i st₁ hframe
        obtain ⟨st', heq, -⟩ := writeFrame_spec hframe hb
        cases heq
      · rename_i st₁ hframe
        obtain ⟨st₂, heq, hb₁, hsent⟩ := writeFrame_spec hframe hb
        obtain rfl := Except.ok.inj heq
        obtain ⟨st', hr, hb', hrest⟩ := ih _ (by omega) h hb₁
        refine ⟨st', hr, hb', fun hraw => ?_⟩
        rw [if_neg hn, hrest hraw, hsent hraw, List.append_assoc,
          ← transferBits_frame (Nat.pos_of_ne_zero hn)]

theorem transfer_spec {lengthInBits : Nat} {result : Except JtagError Nat}
    (h : transfer c b mem lengthInBits flags = some (c', b', result)) (hb : Answers b) :
    Answers b' ∧ (∃ m, result = .ok m) ∧
      (flags &&& RAW_MODE ≠ 0 → c'.state = .invalid) ∧
      (flags &&& RAW_MODE = 0 → c'.state = (if flags &&& STATE_MASK = STATE_IDLE then c.state else .exit) ∧
        clockedOut b'.written = clockedOut b.written ++
          if lengthInBits = 0 then [] else transferBits flags lengthInBits) := by
  unfold transfer at h
  dsimp only at h
  obtain ⟨⟨lastStatus, b₁⟩, hread, h⟩ := Option.bind_eq_some_iff.mp h
  obtain ⟨r, hframes, h⟩ := Option.bind_eq_some_iff.mp h
  obtain ⟨hb₁, hw₁⟩ := readControlRegister_spec hread hb
  obtain ⟨st, rfl, hst, hsent⟩ := writeFrames_spec hframes hb₁
  dsimp only at h
  simp only [Option.some.injEq, Prod.mk.injEq] at h
  obtain ⟨rfl, rfl, rfl⟩ := h
  refine ⟨hst, ⟨_, rfl⟩, fun hraw => ?_, fun hraw => ⟨?_, ?_⟩⟩
  · simp only [if_neg hraw]
  · simp only [if_pos hraw]
    by_cases hidle : flags &&& STATE_MASK = STATE_IDLE
    · rw [if_neg (not_not.mpr hidle), if_pos hidle]
    · rw [if_pos hidle, if_neg hidle]
  · rw [clockedOut_default, hsent hraw]
    dsimp only
    rw [hw₁, clockedOut_prescaler]

end MenableDriver
