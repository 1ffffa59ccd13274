import MenableDriver.Jtag.Tracking

/-!
# Runs of the JTAG controller

What each call does to the remembered state and sends to the chain, and that the two agree
after every run of calls, raw ones among them.
-/

namespace MenableDriver

set_option autoImplicit false

variable {b b' : JtagBus} {c c' : JtagController} {state old : JtagState} {flags : Word} {n : Nat}
variable {mem : Nat → BitVec 8}

theorem checkTransfer_pos {length : Nat} (h : checkTransfer length flags = none) : 0 < length := by
  rw [checkTransfer] at h
  split_ifs at h with h₁
  omega

theorem stateOfFlags_accepted (h : stateOfFlags flags = some state) :
    ¬ (state = .exit ∨ state = .invalid) := by
  unfold stateOfFlags at h
  dsimp only at h
  split_ifs at h <;> cases h <;> decide

theorem sent_ne_invalid (h : stateOfFlags flags = some state) :
    (if flags &&& STATE_MASK = STATE_IDLE then state else .exit) ≠ .invalid := by
  have hs := stateOfFlags_accepted h
  split_ifs with hidle
  · exact fun heq => hs (.inr heq)
  · decide

theorem tracks_transferBits {t : Tap.State} (h : stateOfFlags flags = some state) (ht : Tracks state t) :
    Tracks (if flags &&& STATE_MASK = STATE_IDLE then state else .exit)
      (Tap.run t (transferBits flags n)) := by
  unfold stateOfFlags at h
  dsimp only at h
  by_cases hidle : flags &&& STATE_MASK = STATE_IDLE
  · rw [if_pos hidle] at h
    obtain rfl := Option.some.inj h
    have ht : t = .runTestIdle := ht
    rw [if_pos hidle, transferBits, if_pos hidle, ht, Tap.stable_runTestIdle.run_zeros]
    rfl
  · rw [if_neg hidle] at h
    rw [if_neg hidle, transferBits, if_neg hidle, Tap.run_append]
    split_ifs at h with hdr hir
    · obtain rfl := Option.some.inj h
      have ht : t = .shiftDr := ht
      rw [ht, Tap.stable_shiftDr.run_zeros]
      exact .inl rfl
    · obtain rfl := Option.some.inj h
      have ht : t = .shiftIr := ht
      rw [ht, Tap.stable_shiftIr.run_zeros]
      exact .inr rfl

/-- What a call that is not raw can do to the state, and the bits that it sends. -/
inductive Moved : JtagState → JtagState → List Bool → Prop where
  | stay (state : JtagState) : Moved state state []
  | set {state : JtagState} (old : JtagState) (hs : ¬ (state = .exit ∨ state = .invalid)) :
      Moved old state (stateBits old state)
  | send {flags : Word} {state : JtagState} {n : Nat} (old : JtagState)
    (hstate : stateOfFlags flags = some state)
      (hn : 0 < n) : Moved old (if flags &&& STATE_MASK = STATE_IDLE then state else .exit)
        (stateBits old state ++ transferBits flags n)

namespace Moved

variable {bits : List Bool}

theorem tracks {t : Tap.State} (h : Moved old state bits) (ht : Tracks old t) :
    Tracks state (Tap.run t bits) := by
  cases h with
  | stay => exact ht
  | set _ hs => exact tracks_stateBits ht hs
  | send _ hstate _ =>
    rw [Tap.run_append]
    exact tracks_transferBits hstate (tracks_stateBits ht (stateOfFlags_accepted hstate))

theorem ne_invalid (h : Moved old state bits) (ho : old ≠ .invalid) : state ≠ .invalid := by
  cases h with
  | stay => exact ho
  | set _ hs => exact fun heq => hs (.inr heq)
  | send _ hstate _ => exact sent_ne_invalid hstate

end Moved

/-- The bits that a call sends are those of its move. -/
def Clocked (c : JtagController) (b : JtagBus) (c' : JtagController) (b' : JtagBus) : Prop :=
  ∃ bits, Moved c.state c'.state bits ∧ clockedOut b'.written = clockedOut b.written ++ bits

/-- A call that sends nothing. -/
theorem Clocked.same (hs : c'.state = c.state) (hb : clockedOut b'.written = clockedOut b.written) :
    Clocked c b c' b' := by
  refine ⟨[], ?_, ?_⟩
  · rw [hs]
    exact .stay _
  · rw [hb, List.append_nil]

variable {again : JtagController → JtagBus → (Nat → BitVec 8) → Nat → Word → Option JtagResult}
variable {length : Nat} {result : Except JtagError Nat}

/-- A call that is not raw does nothing, or sends the bits to the state and those of the data. -/
theorem writeWith_of_not_raw (h : writeWith again c b mem length flags = some (c', b', result))
    (hb : Answers b)
    (hraw : flags &&& RAW_MODE = 0) :
    Answers b' ∧ Clocked c b c' b' ∧ ((∃ m, result = .ok m) → c'.state ≠ .invalid) := by
  unfold writeWith at h
  split at h
  · simp only [Option.some.injEq, Prod.mk.injEq] at h
    obtain ⟨rfl, rfl, rfl⟩ := h
    exact ⟨hb, .same rfl rfl, fun ⟨_, hok⟩ => nomatch hok⟩
  · rename_i hcheck
    dsimp only at h
    rw [if_pos hraw] at h
    split at h
    · simp only [Option.some.injEq, Prod.mk.injEq] at h
      obtain ⟨rfl, rfl, rfl⟩ := h
      exact ⟨hb, .same rfl rfl, fun ⟨_, hok⟩ => nomatch hok⟩
    · rename_i state hstate
      obtain ⟨⟨c₁, b₁, r₁⟩, hset, h⟩ := Option.bind_eq_some_iff.mp h
      dsimp only at h
      obtain ⟨hb₁, ⟨hno, -⟩ | ⟨-, rfl, rfl, hbits⟩⟩ := setState_spec hset hb
      · exact absurd hno (stateOfFlags_accepted hstate)
      · dsimp only at h
        obtain ⟨hb', -, -, htrans⟩ := transfer_spec h hb₁
        obtain ⟨hs, hsent⟩ := htrans hraw
        have hpos : 0 < (if flags &&& LENGTH_IN_BITS ≠ 0 then length else 8 * length) := by
          have hlen := checkTransfer_pos hcheck
          split_ifs <;> omega
        rw [if_neg (by omega), hbits, List.append_assoc] at hsent
        refine ⟨hb', ⟨_, ?_, hsent⟩, fun _ => ?_⟩
        · rw [hs]
          exact .send c.state hstate hpos
        · rw [hs]
          exact sent_ne_invalid hstate

/-- A raw call leaves the state unknown, or sends nothing. -/
def RawDone (c : JtagController) (b : JtagBus) (c' : JtagController) (b' : JtagBus) : Prop :=
  Answers b' ∧ (c'.state = .invalid ∨ c'.state = c.state ∧ b' = b)

theorem transfer_rawDone {lengthInBits : Nat} (h : transfer c b mem lengthInBits flags = some (c', b', result))
    (hb : Answers b) (hraw : flags &&& RAW_MODE ≠ 0) (c₀ : JtagController) : RawDone c₀ b c' b' := by
  obtain ⟨hb', -, hinv, -⟩ := transfer_spec h hb
  exact ⟨hb', .inl (hinv hraw)⟩

theorem rawDone_of_ret {c₀ : JtagController} {r : Except JtagError Nat} (hs : c.state = c₀.state)
    (hb : Answers b)
    (h : some (c, b, r) = some (c', b', result)) : RawDone c₀ b c' b' := by
  simp only [Option.some.injEq, Prod.mk.injEq] at h
  obtain ⟨rfl, rfl, -⟩ := h
  exact ⟨hb, .inr ⟨hs, rfl⟩⟩

/-- The flags of the second call are as raw as those of the first one. -/
theorem again_raw (hraw : flags &&& RAW_MODE ≠ 0) :
    (flags &&& ~~~(READ_MODE_MASK ||| WRITE_TMS_DATA)) &&& RAW_MODE ≠ 0 := by
  have hmask : ~~~(READ_MODE_MASK ||| WRITE_TMS_DATA) &&& RAW_MODE = RAW_MODE := by decide
  rw [BitVec.and_assoc, hmask]
  exact hraw

theorem writeWith_of_raw (h : writeWith again c b mem length flags = some (c', b', result)) (hb : Answers b)
    (hraw : flags &&& RAW_MODE ≠ 0)
    (hagain : ∀ {c mem flags}, flags &&& RAW_MODE ≠ 0 →
      again c b mem length flags = some (c', b', result) → RawDone c b c' b') : RawDone c b c' b' := by
  unfold writeWith at h
  split at h
  · exact rawDone_of_ret rfl hb h
  · dsimp only at h
    rw [if_neg hraw] at h
    generalize (if flags &&& LENGTH_IN_BITS ≠ 0 then length else 8 * length) = lengthInBits at h
    by_cases htms : flags &&& WRITE_TMS_DATA = 0
    · rw [if_pos htms] at h
      split_ifs at h with hread hmatch
      · exact transfer_rawDone h hb hraw c
      · exact rawDone_of_ret rfl hb h
      · exact transfer_rawDone h hb hraw c
    · rw [if_neg htms] at h
      split_ifs at h with hread
      · have hdone := hagain (again_raw hraw) h
        exact hdone
      · refine rawDone_of_ret ?_ hb h
        rfl

/-- A call without data gives an error, and the others do as the second half of the call. -/
theorem write_of_not_raw {data : Option (Nat → BitVec 8)}
    (h : write c b data length flags = some (c', b', result))
    (hb : Answers b) (hraw : flags &&& RAW_MODE = 0) :
    Answers b' ∧ Clocked c b c' b' ∧ ((∃ m, result = .ok m) → c'.state ≠ .invalid) := by
  unfold write at h
  split at h
  · simp only [Option.some.injEq, Prod.mk.injEq] at h
    obtain ⟨rfl, rfl, rfl⟩ := h
    exact ⟨hb, .same rfl rfl, fun ⟨_, hok⟩ => nomatch hok⟩
  · exact writeWith_of_not_raw h hb hraw

theorem write_of_raw {data : Option (Nat → BitVec 8)}
    (h : write c b data length flags = some (c', b', result))
    (hb : Answers b) (hraw : flags &&& RAW_MODE ≠ 0) : RawDone c b c' b' := by
  unfold write at h
  split at h
  · exact rawDone_of_ret rfl hb h
  · refine writeWith_of_raw h hb hraw fun hraw h => ?_
    exact writeWith_of_raw h hb hraw fun _ h => nomatch h

theorem clocked_of_ret {c₁ : JtagController} {b₁ : JtagBus} {r : Except JtagError Nat}
    {bytes bytes₁ : Nat → BitVec 8} (hb₁ : Answers b₁) (hc₁ : Clocked c b c₁ b₁)
    (h : some ((c₁, b₁, r), bytes₁) = some ((c', b', result), bytes)) : Answers b' ∧ Clocked c b c' b' := by
  simp only [Option.some.injEq, Prod.mk.injEq] at h
  obtain ⟨⟨rfl, rfl, -⟩, -⟩ := h
  exact ⟨hb₁, hc₁⟩

/-- `read` sends data when there is none to return and the call is not raw. -/
theorem read_spec {dataIsNull : Bool} {bytes : Nat → BitVec 8}
    (h : read c b dataIsNull length flags = some ((c', b', result), bytes)) (hb : Answers b) :
    Answers b' ∧ Clocked c b c' b' := by
  have hsame : Clocked c b c b := .same rfl rfl
  unfold read at h
  by_cases hnull : dataIsNull = true
  · rw [if_pos hnull] at h
    exact clocked_of_ret hb hsame h
  rw [if_neg hnull] at h
  split at h
  · exact clocked_of_ret hb hsame h
  dsimp only at h
  generalize (if flags &&& LENGTH_IN_BITS ≠ 0 then length else 8 * length) = lengthInBits at h
  by_cases hdata : c.readBuffer.isNone = true ∨ c.readBufferValidBits < lengthInBits
  · rw [if_pos hdata] at h
    by_cases hraw : flags &&& RAW_MODE = 0
    · rw [if_neg (not_not.mpr hraw)] at h
      by_cases hwait : flags &&& READ_MODE_MASK = WAIT_ON_READ
      · rw [if_pos hwait] at h
        exact clocked_of_ret hb hsame h
      · rw [if_neg hwait] at h
        obtain ⟨⟨c₁, b₁, r₁⟩, hwrite, h⟩ := Option.bind_eq_some_iff.mp h
        obtain ⟨hb₁, hmoved, -⟩ := write_of_not_raw hwrite hb hraw
        dsimp only at h
        split at h
        · exact clocked_of_ret hb₁ hmoved h
        · refine clocked_of_ret hb₁ ?_ h
          exact hmoved
    · rw [if_pos hraw] at h
      exact clocked_of_ret hb hsame h
  · rw [if_neg hdata] at h
    refine clocked_of_ret hb ?_ h
    exact hsame

/-- The word with the prescaler clocks nothing out. -/
theorem setFrequency_spec (h : setFrequency c b = (c', b', result)) (hb : Answers b) :
    Answers b' ∧ Clocked c b c' b' := by
  unfold setFrequency at h
  generalize getExp2n1PrescalerValue (JTAG_PRESCALER_BASE_FREQUENCY / 2) c.frequency 0 = p at h
  obtain ⟨prescaler, freq⟩ := p
  have hsame : Clocked c b c b := .same rfl rfl
  dsimp only at h
  by_cases hhigh : c.frequency > JTAG_PRESCALER_BASE_FREQUENCY
  · rw [if_pos hhigh, Prod.mk.injEq, Prod.mk.injEq] at h
    obtain ⟨rfl, rfl, -⟩ := h
    exact ⟨hb, hsame⟩
  rw [if_neg hhigh] at h
  by_cases hlow : prescaler > JTAG_PRESCALER_MAX_VALUE
  · rw [dif_pos hlow, Prod.mk.injEq, Prod.mk.injEq] at h
    obtain ⟨rfl, rfl, -⟩ := h
    exact ⟨hb, hsame⟩
  · rw [dif_neg hlow, Prod.mk.injEq, Prod.mk.injEq] at h
    obtain ⟨rfl, rfl, -⟩ := h
    refine ⟨hb, .same rfl ?_⟩
    exact clockedOut_prescaler { c with
      prescalerValue := BitVec.ofNat 32 prescaler <<< JTAG_PRESCALER_SHIFT
      prescalerValue_ok := prescaler_ok prescaler (by rw [JTAG_PRESCALER_MAX_VALUE] at hlow; omega) }

theorem getFrequency_spec {freq : Nat} (h : getFrequency c b = some ((c', b', result), freq))
    (hb : Answers b) :
    Answers b' ∧ c' = c ∧ b'.written = b.written := by
  unfold getFrequency at h
  obtain ⟨⟨val, b₁⟩, hread, h⟩ := Option.bind_eq_some_iff.mp h
  obtain ⟨hb₁, hw₁⟩ := readControlRegister_spec hread hb
  simp only [Option.some.injEq, Prod.mk.injEq] at h
  obtain ⟨⟨rfl, rfl, -⟩, -⟩ := h
  exact ⟨hb₁, rfl, hw₁⟩

end MenableDriver
