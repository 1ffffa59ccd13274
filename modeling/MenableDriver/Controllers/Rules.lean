import MenableDriver.Controllers.Machine

/-!
# Rules for bursts

What a controller has to keep from call to call, so that its bursts do what they should. An assertion goes with
the bytes that are still to be written, or with the numbers of the requests and of the results so far. Each call
leads from one assertion to the next one, or it fails and leads to the one that the abort begins with.
-/

namespace MenableDriver

set_option autoImplicit false

open Replay (replay)

universe u
variable {σ : Type u}

/-- The machine answers the call; with an error it gets to `E`, and without one to `Q`. -/
def CallAnswers (step : σ → BurstCall → Option (σ × Int)) (s : σ) (call : BurstCall) (E Q : σ → Prop) : Prop :=
  ∃ r, step s call = some r ∧ (menIsError r.2 = true → E r.1) ∧ (menIsError r.2 = false → Q r.1)

/-- Where the calls of a burst have led so far. -/
def BurstReaches (step : σ → BurstCall → Option (σ × Int)) (s₀ : σ) (P : σ → Prop) (st : BurstState) : Prop :=
  ∃ r, replay step (s₀, STATUS_OK) st.calls = some r ∧ P r.1

/-- What a write burst needs from its hooks, with the bytes that are left. -/
structure WriteRule (step : σ → BurstCall → Option (σ × Int)) (ctrl : ControllerBase) (flags : Word) (size : Nat)
    (I : List (BitVec 8) → σ → Prop) (E : σ → Prop) : Prop where
  shot : ∀ bytes s, 0 < bytes.length → I bytes s →
    CallAnswers step s ⟨.writeShot (bytes.take ctrl.maxBytesPerWrite.val), flags.setWidth 8,
      decide (bytes.length = size), decide (bytes.length ≤ ctrl.maxBytesPerWrite.val)⟩ E
      (I (bytes.drop ctrl.maxBytesPerWrite.val))
  wait : ∀ bytes s isFirst isLast, I bytes s →
    CallAnswers step s ⟨.waitForWriteQueueEmpty, flags.setWidth 8, isFirst, isLast⟩ E (I bytes)

/-- What a read burst needs from its hooks, after `k` requests and `j` results. -/
structure ReadRule (step : σ → BurstCall → Option (σ × Int)) (ctrl : ControllerBase) (flags : Word) (size : Nat)
    (I : Nat → Nat → σ → Prop) (E : σ → Prop) : Prop where
  request : ∀ k j s isFirst isLast, I k j s → j ≤ k → k < j + ctrl.readQueueSize.val →
    k < Pieces.count ctrl.maxBytesPerRead.val size →
    (isFirst = true ↔ k = 0) → (isLast = true → k + 1 = Pieces.count ctrl.maxBytesPerRead.val size) →
    CallAnswers step s ⟨.requestRead (Pieces.length ctrl.maxBytesPerRead.val size k), flags.setWidth 8,
      isFirst, isLast⟩ E (I (k + 1) j)
  result : ∀ k j s isFirst isLast, I k j s → j < k → k ≤ Pieces.count ctrl.maxBytesPerRead.val size →
    (isFirst = true ↔ j = 0) → (isLast = true ↔ j + 1 = Pieces.count ctrl.maxBytesPerRead.val size) →
    CallAnswers step s ⟨.readShot (j * ctrl.maxBytesPerRead.val) (Pieces.length ctrl.maxBytesPerRead.val size j),
      flags.setWidth 8, isFirst, isLast⟩ E (I k (j + 1))

/-- How a burst on a machine ends. -/
def BurstLeads (r : Option (Int × BurstState × σ)) (F Q : σ → Prop) : Prop :=
  ∃ ret st s, r = some (ret, st, s) ∧ (ret = STATUS_OK ∧ Q s ∨ ret = STATUS_ERROR ∧ F s)

variable {step : σ → BurstCall → Option (σ × Int)} {s₀ s : σ} {E F P Q : σ → Prop} {ctrl : ControllerBase}
  {st : BurstState} {hook : HookCall} {call : BurstCall} {flags : Word} {size k j : Nat}

theorem CallAnswers.of_ok {r : σ} (h : step s call = some (r, STATUS_OK)) (hQ : Q r) : CallAnswers step s call E Q :=
  ⟨_, h, fun herr => absurd (show menIsError STATUS_OK = true from herr) (by decide), fun _ => hQ⟩

theorem CallAnswers.of_error {r : σ} {ret : Int} (h : step s call = some (r, ret)) (hret : menIsError ret = true)
    (hE : E r) : CallAnswers step s call E Q :=
  ⟨_, h, fun _ => hE, fun hok => absurd (hret.symm.trans hok) (by decide)⟩

theorem BurstLeads.ok {r : Option (Int × BurstState × σ)} (h : BurstLeads r (fun _ => False) Q) :
    ∃ st s, r = some (STATUS_OK, st, s) ∧ Q s := by
  obtain ⟨ret, st, s, hr, ⟨rfl, hQ⟩ | ⟨-, hfalse⟩⟩ := h
  · exact ⟨st, s, hr, hQ⟩
  · exact hfalse.elim

theorem BurstReaches.setShot (h : BurstReaches step s₀ P st) (isFirst isLast : Bool) :
    BurstReaches step s₀ P (st.setShot isFirst isLast) := h

/-- A call of a hook, from wherever the calls before it may have led. -/
theorem attempt_answers (h : BurstReaches step s₀ P st)
    (hcall : ∀ s, P s → CallAnswers step s ⟨hook, st.currentBurstFlags, st.isFirstShot, st.isLastShot⟩ E Q) :
    BurstEnds (BurstReaches step s₀ E) (st.attempt (machineHooks step s₀) hook) fun st' =>
      st' = st.record hook ∧ BurstReaches step s₀ Q st' := by
  obtain ⟨r, hreplay, hP⟩ := h
  obtain ⟨r', hstep, herr, hok⟩ := hcall r.1 hP
  have hanswer : machineHooks step s₀ (st.record hook).calls = r'.2 := machineHooks_concat hreplay hstep
  have hreplay' : replay step (s₀, STATUS_OK) (st.record hook).calls = some r' := by
    rw [BurstState.record, Replay.replay_concat, hreplay]
    exact hstep
  unfold BurstState.attempt
  rw [hanswer]
  cases hret : menIsError r'.2 with
  | true =>
    rw [if_pos rfl]
    exact ⟨r', hreplay', herr hret⟩
  | false =>
    rw [if_neg Bool.false_ne_true]
    exact ⟨rfl, r', hreplay', hok hret⟩

/-- The end of a burst, from the assertions behind its body. -/
theorem finishBurst_leads {burst : Hooks → Except BurstState BurstState}
    (h : BurstEnds (BurstReaches step s₀ E) (burst (machineHooks step s₀)) fun st =>
      BurstReaches step s₀ P st ∧ st.currentBurstFlags = flags.setWidth 8 ∧ st.isLastShot = false)
    (hpost : ∀ s isFirst, P s → ∃ r, step s ⟨.handlePostBurstFlags flags, flags.setWidth 8, isFirst, false⟩ = some r ∧
      Q r.1)
    (habort : ∀ s, E s → ∃ r, step s BurstCall.aborted = some r ∧ F r.1) :
    BurstLeads (machineBurst step s₀ fun hooks => finishBurst flags (burst hooks)) F Q := by
  cases hbody : burst (machineHooks step s₀) with
  | ok st =>
    rw [hbody] at h
    obtain ⟨⟨r, hreplay, hP⟩, hflags, hlast⟩ := h
    obtain ⟨r', hstep, hQ⟩ := hpost r.1 st.isFirstShot hP
    have hcalls : replay step (s₀, STATUS_OK) (st.record (.handlePostBurstFlags flags)).calls = some r' := by
      rw [BurstState.record, Replay.replay_concat, hreplay, hflags, hlast]
      exact hstep
    refine ⟨STATUS_OK, { st.record (.handlePostBurstFlags flags) with currentBurstFlags := 0 }, r'.1, ?_,
      .inl ⟨rfl, hQ⟩⟩
    unfold machineBurst
    simp only [hbody, finishBurst, hcalls, Option.map_some]
  | error st =>
    rw [hbody] at h
    obtain ⟨r, hreplay, hE⟩ := h
    obtain ⟨r', hstep, hF⟩ := habort r.1 hE
    have hcalls : replay step (s₀, STATUS_OK) (ctrlCleanupBurstState st).calls = some r' := by
      rw [ctrlCleanupBurstState, BurstState.record, Replay.replay_concat, hreplay]
      exact hstep
    refine ⟨STATUS_ERROR, ctrlCleanupBurstState st, r'.1, ?_, .inr ⟨rfl, hF⟩⟩
    unfold machineBurst
    simp only [hbody, finishBurst, hcalls, Option.map_some]

/-! ### Write bursts -/

section Write
variable {I : List (BitVec 8) → σ → Prop}

/-- The wait behind a shot, if there is one. -/
theorem waitWhenFull_leads (h : WriteRule step ctrl flags size I E) {bytes : List (BitVec 8)}
    (hst : BurstReaches step s₀ (I bytes) st) (hflags : st.currentBurstFlags = flags.setWidth 8)
    (numQueuedCommands : Word) :
    BurstEnds (BurstReaches step s₀ E) (waitWhenFull ctrl (machineHooks step s₀) st numQueuedCommands) fun st' =>
      BurstReaches step s₀ (I bytes) st' ∧ st'.currentBurstFlags = flags.setWidth 8 := by
  unfold waitWhenFull
  split_ifs
  · apply (attempt_answers hst fun s hs => ?_).mono
    · rintro _ ⟨rfl, hst'⟩
      exact ⟨hst', hflags⟩
    · rw [hflags]
      exact h.wait bytes s _ _ hs
  · exact ⟨hst, hflags⟩

/-- The loop writes the bytes that are left. -/
theorem writeLoop_leads (h : WriteRule step ctrl flags size I E) (n : Nat) : ∀ bytes st numQueuedCommands,
    bytes.length = n → BurstReaches step s₀ (I bytes) st → st.currentBurstFlags = flags.setWidth 8 →
    BurstEnds (BurstReaches step s₀ E) (writeLoop ctrl (machineHooks step s₀) size st bytes numQueuedCommands) fun r =>
      BurstReaches step s₀ (I []) r.1 ∧ r.1.currentBurstFlags = flags.setWidth 8 := by
  have hmost := ctrl.maxBytesPerWrite.pos
  induction n using Nat.strong_induction_on with
  | _ n ih =>
    intro bytes st numQueuedCommands hn hst hflags
    rw [writeLoop]
    by_cases hpos : 0 < bytes.length
    · rw [if_pos hpos]
      have htake : bytes.take (min bytes.length ctrl.maxBytesPerWrite.val) =
          bytes.take ctrl.maxBytesPerWrite.val := by
        rw [Nat.min_comm, ← List.take_eq_take_min]
      have hdrop : bytes.drop (min bytes.length ctrl.maxBytesPerWrite.val) =
          bytes.drop ctrl.maxBytesPerWrite.val := by
        rw [Nat.min_comm, ← List.drop_eq_drop_min]
      dsimp only
      rw [htake, hdrop]
      apply BurstEnds.bind (attempt_answers (Q := I (bytes.drop ctrl.maxBytesPerWrite.val))
        (hst.setShot (decide (bytes.length = size)) (decide (bytes.length ≤ ctrl.maxBytesPerWrite.val))) ?_)
      · rintro _ ⟨rfl, hst'⟩
        apply BurstEnds.bind (waitWhenFull_leads h hst' hflags _)
        rintro st'' ⟨hst'', hflags''⟩
        refine ih _ ?_ (bytes.drop ctrl.maxBytesPerWrite.val) st'' _ rfl hst'' hflags''
        rw [List.length_drop]
        omega
      · intro s hs
        dsimp only [BurstState.setShot]
        rw [hflags]
        exact h.shot bytes s hpos hs
    · rw [if_neg hpos]
      obtain rfl := List.length_eq_zero_iff.mp (Nat.eq_zero_of_not_pos hpos)
      exact ⟨hst, hflags⟩

/-- The rule for a write burst: from the flags to the flags, with a shot for each piece of the buffer. -/
theorem ctrlWriteBurst_leads {buf : List (BitVec 8)} (h : WriteRule step ctrl flags buf.length I E)
    (hpre : CallAnswers step s₀ ⟨.handlePreBurstFlags flags, flags.setWidth 8, st.isFirstShot, st.isLastShot⟩ E (I buf))
    (hpost : ∀ s isFirst, I [] s →
      ∃ r, step s ⟨.handlePostBurstFlags flags, flags.setWidth 8, isFirst, false⟩ = some r ∧ Q r.1)
    (habort : ∀ s, E s → ∃ r, step s BurstCall.aborted = some r ∧ F r.1) :
    BurstLeads (machineBurst step s₀ fun hooks => ctrlWriteBurst ctrl hooks st flags buf) F Q := by
  refine finishBurst_leads (P := I []) ?_ hpost habort
  unfold writeShots
  have hstart : BurstReaches step s₀ (fun s => s = s₀)
      { st with currentBurstFlags := flags.setWidth 8, calls := [] } := ⟨_, rfl, rfl⟩
  apply BurstEnds.bind (attempt_answers hstart fun s hs => ?_)
  · rintro _ ⟨rfl, hst⟩
    apply BurstEnds.bind (writeLoop_leads h _ buf _ 0 rfl hst rfl)
    rintro ⟨st', numQueuedCommands⟩ ⟨hst', hflags⟩
    dsimp only
    split_ifs
    · exact ⟨hst'.setShot false false, hflags, rfl⟩
    · apply (attempt_answers (hst'.setShot false false) fun s hs => ?_).mono
      · rintro _ ⟨rfl, hst''⟩
        exact ⟨hst'', hflags, rfl⟩
      · dsimp only [BurstState.setShot]
        rw [hflags]
        exact h.wait [] s _ _ hs
  · rw [hs]
    exact hpre

end Write

/-! ### Read bursts -/

section Read
variable {I : Nat → Nat → σ → Prop}

/-- The first loop makes requests only. -/
theorem requestAhead_leads (h : ReadRule step ctrl flags size I E) (todo : Nat) : ∀ i st toRequest toRead,
    ReadCounts ctrl.maxBytesPerRead.val size i 0 0 toRequest toRead → BurstReaches step s₀ (I i 0) st →
    st.currentBurstFlags = flags.setWidth 8 → todo + i = ctrl.readQueueSize.val →
    i ≤ Pieces.count ctrl.maxBytesPerRead.val size →
    BurstEnds (BurstReaches step s₀ E) (requestAhead ctrl (machineHooks step s₀) size todo i st toRequest toRead)
      fun r => ∃ k, ReadCounts ctrl.maxBytesPerRead.val size k 0 0 r.2.1 r.2.2 ∧ BurstReaches step s₀ (I k 0) r.1 ∧
        r.1.currentBurstFlags = flags.setWidth 8 ∧ k ≤ Pieces.count ctrl.maxBytesPerRead.val size ∧
        (r.2.1 = 0 ∨ k = ctrl.readQueueSize.val) := by
  have hm := ctrl.maxBytesPerRead.pos
  induction todo with
  | zero =>
    intro i st toRequest toRead hcounts hst hflags htodo hi
    exact ⟨i, hcounts, hst, hflags, hi, Or.inr (by omega)⟩
  | succ todo ih =>
    intro i st toRequest toRead hcounts hst hflags htodo hi
    rw [requestAhead]
    split_ifs with hreq
    · have hlt : i * ctrl.maxBytesPerRead.val < size := by
        have := hcounts.request
        omega
      have hnext := hcounts.ask hm (by omega)
      have hcount := (Pieces.lt_count_iff hm).mpr hlt
      have hlast : decide (toRead + min toRequest ctrl.maxBytesPerRead.val = size) = true →
          i + 1 = Pieces.count ctrl.maxBytesPerRead.val size := by
        intro hfull
        have hend : ¬i + 1 < Pieces.count ctrl.maxBytesPerRead.val size := by
          rw [Pieces.lt_count_iff hm]
          have hread := hnext.read
          have := of_decide_eq_true hfull
          omega
        omega
      have hnum : min toRequest ctrl.maxBytesPerRead.val = Pieces.length ctrl.maxBytesPerRead.val size i := by
        rw [hcounts.request]
        rfl
      apply BurstEnds.bind (attempt_answers (Q := I (i + 1) 0) (hst.setShot (decide (i = 0))
        (decide (toRead + min toRequest ctrl.maxBytesPerRead.val = size))) fun s hs => ?_)
      · rintro _ ⟨rfl, hst'⟩
        exact ih (i + 1) _ _ _ hnext hst' hflags (by omega) hcount
      · dsimp only [BurstState.setShot]
        rw [hflags, hnum]
        refine h.request i 0 s _ _ hs (Nat.zero_le i) (by omega) hcount decide_eq_true_iff ?_
        rw [← hnum]
        exact hlast
    · exact ⟨i, hcounts, hst, hflags, hi, Or.inl (Nat.eq_zero_of_not_pos hreq)⟩

/-- The second loop collects what is asked for, and asks for the rest. -/
theorem readAndRequest_leads (h : ReadRule step ctrl flags size I E) (n : Nat) :
    ∀ k j st buf toRequest toRead, toRequest + toRead = n →
    ReadCounts ctrl.maxBytesPerRead.val size k j buf toRequest toRead → BurstReaches step s₀ (I k j) st →
    st.currentBurstFlags = flags.setWidth 8 → j ≤ k → k ≤ Pieces.count ctrl.maxBytesPerRead.val size →
    (toRequest = 0 ∨ k = j + ctrl.readQueueSize.val) → (st.isFirstShot = true ↔ j = 0) →
    BurstEnds (BurstReaches step s₀ E) (readAndRequest ctrl (machineHooks step s₀) buf st toRequest toRead) fun r =>
      BurstReaches step s₀ (I (Pieces.count ctrl.maxBytesPerRead.val size)
        (Pieces.count ctrl.maxBytesPerRead.val size)) r.1 ∧ r.1.currentBurstFlags = flags.setWidth 8 := by
  have hm := ctrl.maxBytesPerRead.pos
  have hdepth := ctrl.readQueueSize.pos
  induction n using Nat.strong_induction_on with
  | _ n ih =>
    intro k j st buf toRequest toRead hn hcounts hst hflags hjk hkn hfull hfirst
    rw [readAndRequest]
    by_cases hread : 0 < toRead
    · rw [if_pos hread]
      have hlt := hcounts.lt hread
      obtain ⟨hbuf, hnum, hnext⟩ := hcounts.collect hlt hread
      have hlast := decide_eq_true_iff.trans (hcounts.isLast_iff hm hkn hlt)
      apply BurstEnds.bind (attempt_answers (Q := I k (j + 1)) (hst.setShot st.isFirstShot
        (decide (toRequest = 0 ∧ toRead ≤ ctrl.maxBytesPerRead.val))) fun s hs => ?_)
      · rintro _ ⟨rfl, hst'⟩
        by_cases hreq : 0 < toRequest
        · have hk : k * ctrl.maxBytesPerRead.val < size := by
            have := hcounts.request
            omega
          have hcount := (Pieces.lt_count_iff hm).mpr hk
          have hle : (j + 1) * ctrl.maxBytesPerRead.val ≤ k * ctrl.maxBytesPerRead.val :=
            Nat.mul_le_mul_right _ hlt
          have hnumRequest : min toRequest ctrl.maxBytesPerRead.val =
              Pieces.length ctrl.maxBytesPerRead.val size k := by
            rw [hcounts.request]
            rfl
          dsimp only
          rw [if_pos hreq]
          apply BurstEnds.bind (attempt_answers (Q := I (k + 1) (j + 1)) (hst'.setShot false _)
            fun s hs => ?_)
          · rintro _ ⟨rfl, hst''⟩
            refine ih _ ?_ (k + 1) (j + 1) _ _ _ _ rfl (hnext.ask hm (by omega)) hst'' hflags (by omega) hcount
              (Or.inr (by omega)) ?_
            · omega
            · exact ⟨fun h => absurd h Bool.false_ne_true, fun h => absurd h (Nat.succ_ne_zero j)⟩
          · dsimp only [BurstState.setShot, BurstState.record]
            rw [hflags, hnumRequest]
            refine h.request k (j + 1) s _ _ hs hlt (by omega) hcount ?_ ?_
            · exact ⟨fun h => absurd h Bool.false_ne_true, fun h => absurd h (by omega)⟩
            · intro hraised
              have := (of_decide_eq_true hraised).1
              omega
        · dsimp only
          rw [if_neg hreq]
          refine ih _ ?_ k (j + 1) _ _ _ _ rfl hnext (hst'.setShot false _) hflags hlt hkn
            (Or.inl (Nat.eq_zero_of_not_pos hreq)) ?_
          · omega
          · exact ⟨fun h => absurd h Bool.false_ne_true, fun h => absurd h (Nat.succ_ne_zero j)⟩
      · dsimp only [BurstState.setShot]
        rw [hflags, hbuf, hnum]
        exact h.result k j s _ _ hs hlt hkn hfirst hlast
    · rw [if_neg hread]
      obtain ⟨-, rfl, hj⟩ := hcounts.done hm hkn hjk (Nat.eq_zero_of_not_pos hread)
        (hfull.imp id fun hk => by omega)
      rw [hj] at hst
      exact ⟨hst, hflags⟩

/-- The rule for a read burst: a request and a result for each piece of the buffer, and never more requests
without their result than the queue takes. -/
theorem ctrlReadBurst_leads (h : ReadRule step ctrl flags size I E)
    (hpre : CallAnswers step s₀ ⟨.handlePreBurstFlags flags, flags.setWidth 8, st.isFirstShot, st.isLastShot⟩ E (I 0 0))
    (hpost : ∀ s isFirst, I (Pieces.count ctrl.maxBytesPerRead.val size)
        (Pieces.count ctrl.maxBytesPerRead.val size) s →
      ∃ r, step s ⟨.handlePostBurstFlags flags, flags.setWidth 8, isFirst, false⟩ = some r ∧ Q r.1)
    (habort : ∀ s, E s → ∃ r, step s BurstCall.aborted = some r ∧ F r.1) :
    BurstLeads (machineBurst step s₀ fun hooks => ctrlReadBurst ctrl hooks st flags size) F Q := by
  refine finishBurst_leads ?_ hpost habort
  unfold readShots
  have hstart : BurstReaches step s₀ (fun s => s = s₀)
      { st with currentBurstFlags := flags.setWidth 8, calls := [] } := ⟨_, rfl, rfl⟩
  apply BurstEnds.bind (attempt_answers hstart fun s hs => ?_)
  · rintro _ ⟨rfl, hst⟩
    have hcounts : ReadCounts ctrl.maxBytesPerRead.val size 0 0 0 size 0 := ⟨by omega, by omega, by omega⟩
    apply BurstEnds.bind (requestAhead_leads h _ 0 _ size 0 hcounts hst rfl rfl (Nat.zero_le _))
    rintro ⟨st', toRequest, toRead⟩ ⟨k, hcounts', hst', hflags, hk, hfull⟩
    apply BurstEnds.bind (readAndRequest_leads h _ k 0 _ 0 toRequest toRead rfl hcounts' (hst'.setShot true _)
      hflags (Nat.zero_le k) hk (hfull.imp id fun hk => by omega) ⟨fun _ => rfl, fun _ => rfl⟩)
    rintro ⟨st'', _, _⟩ ⟨hst'', hflags''⟩
    exact ⟨hst'', hflags'', rfl⟩
  · rw [hs]
    exact hpre

end Read

/-! ### Calls that may not return

A machine whose calls may not return is followed by one that rests from such a call on. What the rules say of
this one holds of the burst if it returns. -/

/-- The machine that rests where the other one does not return. -/
def resting (step : σ → BurstCall → Option (σ × Int)) : Option σ → BurstCall → Option (Option σ × Int)
  | none, _ => some (none, STATUS_OK)
  | some s, call => some ((step s call).elim (none, STATUS_OK) fun r => (some r.1, r.2))

/-- An assertion about a state, if there is one. -/
def IfAny (P : σ → Prop) (o : Option σ) : Prop := ∀ s ∈ o, P s

/-- The same for a burst that may not return. -/
def BurstMayLead (r : Option (Int × BurstState × σ)) (F Q : σ → Prop) : Prop :=
  ∀ ret st s, r = some (ret, st, s) → ret = STATUS_OK ∧ Q s ∨ ret = STATUS_ERROR ∧ F s

theorem replay_resting (s : σ) (calls : List BurstCall) :
    replay (resting step) (some s, STATUS_OK) calls =
      some ((replay step (s, STATUS_OK) calls).elim (none, STATUS_OK) fun r => (some r.1, r.2)) := by
  induction calls using List.reverseRecOn with
  | nil => rfl
  | append_singleton calls call ih =>
    rw [Replay.replay_concat, Replay.replay_concat, ih]
    cases replay step (s, STATUS_OK) calls with
    | none => rfl
    | some r => rfl

theorem machineHooks_resting (s : σ) : machineHooks (resting step) (some s) = machineHooks step s := by
  funext calls
  unfold machineHooks
  rw [replay_resting]
  cases replay step (s, STATUS_OK) calls with
  | none => rfl
  | some r => rfl

theorem machineBurst_resting {burst : Hooks → Int × BurstState} {ret : Int} {s' : σ}
    (h : machineBurst step s burst = some (ret, st, s')) :
    machineBurst (resting step) (some s) burst = some (ret, st, some s') := by
  obtain ⟨hburst, a, hreplay⟩ := machineBurst_eq_some h
  unfold machineBurst
  rw [machineHooks_resting, hburst]
  dsimp only
  rw [replay_resting, hreplay]
  rfl

/-- What the machine does with a call, if the call returns. -/
theorem answers_resting (h : ∀ s r, P s → step s call = some r →
      (menIsError r.2 = true → E r.1) ∧ (menIsError r.2 = false → Q r.1)) {o : Option σ} (ho : IfAny P o) :
    CallAnswers (resting step) o call (IfAny E) (IfAny Q) := by
  have hnone : ∀ P : σ → Prop, IfAny P none := fun P s hs => absurd hs (Option.not_mem_none s)
  cases o with
  | none => exact CallAnswers.of_ok rfl (hnone Q)
  | some s =>
    cases hstep : step s call with
    | none =>
      have hrest : resting step (some s) call = some (none, STATUS_OK) := by rw [resting, hstep]; rfl
      exact CallAnswers.of_ok hrest (hnone Q)
    | some r =>
      have hrest : resting step (some s) call = some (some r.1, r.2) := by rw [resting, hstep]; rfl
      obtain ⟨herr, hok⟩ := h s r (ho s rfl) hstep
      refine ⟨_, hrest, fun hr s' hs' => ?_, fun hr s' hs' => ?_⟩
      · obtain rfl := Option.mem_some_iff.mp hs'
        exact herr hr
      · obtain rfl := Option.mem_some_iff.mp hs'
        exact hok hr

/-- A call that does nothing. -/
theorem answers_resting_idle (h : ∀ s, P s → step s call = some (s, STATUS_OK)) (hQ : ∀ s, P s → Q s) {o : Option σ}
    (ho : IfAny P o) : CallAnswers (resting step) o call (IfAny E) (IfAny Q) := by
  refine answers_resting (fun s r hs hstep => ?_) ho
  rw [h s hs] at hstep
  obtain rfl := Option.some.inj hstep
  exact ⟨fun herr => absurd (show menIsError STATUS_OK = true from herr) (by decide), fun _ => hQ s hs⟩

/-- A call that ends a burst, if it returns. -/
theorem ends_resting (h : ∀ s r, P s → step s call = some r → Q r.1) {o : Option σ} (ho : IfAny P o) :
    ∃ r, resting step o call = some r ∧ IfAny Q r.1 := by
  cases o with
  | none => exact ⟨_, rfl, fun s hs => absurd hs (Option.not_mem_none s)⟩
  | some s =>
    refine ⟨_, rfl, fun s' hs' => ?_⟩
    cases hstep : step s call with
    | none =>
      rw [hstep] at hs'
      exact absurd hs' (Option.not_mem_none s')
    | some r =>
      rw [hstep] at hs'
      obtain rfl := Option.mem_some_iff.mp hs'
      exact h s r (ho s rfl) hstep

theorem burst_of_resting {burst : Hooks → Int × BurstState}
    (h : BurstLeads (machineBurst (resting step) (some s) burst) (IfAny F) (IfAny Q)) :
    BurstMayLead (machineBurst step s burst) F Q := by
  intro ret st' s' hburst
  obtain ⟨ret', st'', o, hrest, hends⟩ := h
  rw [machineBurst_resting hburst] at hrest
  obtain ⟨rfl, -, rfl⟩ : ret = ret' ∧ st' = st'' ∧ some s' = o := by simpa using hrest
  rcases hends with ⟨hret, hQ⟩ | ⟨hret, hF⟩
  · exact .inl ⟨hret, hQ s' rfl⟩
  · exact .inr ⟨hret, hF s' rfl⟩

end MenableDriver
