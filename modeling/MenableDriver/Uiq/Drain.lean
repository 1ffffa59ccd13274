import MenableDriver.Uiq.Dataloss

/-!
# The end of `men_uiq_pop_all`

The interrupt handler of a read queue empties a FIFO that holds finitely many words and
answers every later read with an invalid word. In front of a full queue it waits for the
end of a transmission; no invalid word ends this loop.
-/

namespace MenableDriver

set_option autoImplicit false

/-- The first reads of a FIFO: its words, and `n` invalid words behind them. -/
def fifoReads (content : List Word) (n : Nat) : List Word := content ++ List.replicate n UIQ_CONTROL_INVALID

def isValidWord (w : Word) : Bool := decide (w &&& UIQ_CONTROL_INVALID = 0)

/-- The handler returns, however often the FIFO is asked behind that, and the valid words
that it takes from the FIFO of a full queue are counted as lost. -/
def PopAllEnds (q : UiqBase) (content : List Word) (ts : UiqTimestamp) : Prop :=
  ∃ n q' rest changed,
    (∀ k, menUiqPopAll q (fifoReads content (n + k)) ts =
      some (q', rest ++ List.replicate k UIQ_CONTROL_INVALID, changed)) ∧
    (q.isFull = true → ∃ read, fifoReads content n = read ++ rest ∧
      q'.lostWordsCount ≡ q.lostWordsCount + read.countP isValidWord [MOD 2 ^ 32])

variable {q q' : UiqBase} {ts : UiqTimestamp} {words rest : List Word} {changed : Bool}

/-! ### Words that the handler leaves in the FIFO -/

theorem drainLoop_append (h : drainLoop q words = some (q', rest)) (more : List Word) :
    drainLoop q (words ++ more) = some (q', rest ++ more) := by
  induction words generalizing q with
  | nil => cases h
  | cons w words ih =>
    simp only [drainLoop, List.cons_append] at h ⊢
    split at h
    · rename_i hw
      rw [if_pos hw]
      exact ih h
    · rename_i hw
      cases h
      rw [if_neg hw]

theorem menUiqPopLoop_append (h : menUiqPopLoop q ts words = some (q', rest)) (more : List Word) :
    menUiqPopLoop q ts (words ++ more) = some (q', rest ++ more) := by
  induction words generalizing q with
  | nil => cases h
  | cons w words ih =>
    obtain ⟨⟨q₁, goesOn⟩, hpop, hrest⟩ := Option.bind_eq_some_iff.mp h
    simp only [List.cons_append, menUiqPopLoop, hpop, Option.bind_eq_bind, Option.bind_some]
    dsimp only at hrest
    split at hrest
    · rename_i hgo
      rw [if_pos hgo]
      exact ih hrest
    · rename_i hgo
      cases hrest
      rw [if_neg hgo]

theorem menUiqPopAll_append (h : menUiqPopAll q words ts = some (q', rest, changed)) (more : List Word) :
    menUiqPopAll q (words ++ more) ts = some (q', rest ++ more, changed) := by
  unfold menUiqPopAll at h ⊢
  split at h
  · rename_i hfull
    obtain ⟨⟨q₁, rest₁⟩, hloop, hrest⟩ := Option.bind_eq_some_iff.mp h
    cases hrest
    rw [if_pos hfull, drainLoop_append hloop more]
    rfl
  · rename_i hfull
    obtain ⟨⟨q₁, rest₁⟩, hloop, hrest⟩ := Option.bind_eq_some_iff.mp h
    cases hrest
    rw [if_neg hfull]
    simp only [menUiqPopLoop_append hloop more, Option.bind_eq_bind, Option.bind_some]

/-! ### The loop in front of a full queue -/

/-- The loop stops at the first word that ends a transmission, and nowhere else. -/
theorem drainLoop_isSome_iff : (drainLoop q words).isSome ↔ ∃ w ∈ words, w &&& UIQ_CONTROL_EOT ≠ 0 := by
  induction words generalizing q with
  | nil => simp [drainLoop]
  | cons w words ih =>
    simp only [drainLoop, List.mem_cons, exists_eq_or_imp]
    split
    · rename_i hw
      rw [ih]
      exact ⟨.inr, fun h => h.resolve_left fun hne => hne hw⟩
    · rename_i hw
      exact iff_of_true rfl (.inl hw)

theorem drainWord_count (q : UiqBase) (w : Word) :
    (drainWord q w).lostWordsCount ≡ q.lostWordsCount + [w].countP isValidWord [MOD 2 ^ 32] := by
  unfold drainWord
  split_ifs with hw
  · have hv : isValidWord w = true := decide_eq_true hw
    rw [List.countP_singleton, if_pos hv]
    exact Nat.mod_modEq (q.lostWordsCount + 1) _
  · have hv : isValidWord w = false := decide_eq_false hw
    rw [List.countP_singleton, hv]
    exact Nat.ModEq.refl _

theorem drainLoop_counts (h : drainLoop q words = some (q', rest)) :
    ∃ read, words = read ++ rest ∧
      q'.lostWordsCount ≡ q.lostWordsCount + read.countP isValidWord [MOD 2 ^ 32] := by
  induction words generalizing q with
  | nil => cases h
  | cons w words ih =>
    simp only [drainLoop] at h
    split at h
    · obtain ⟨read, rfl, hcount⟩ := ih h
      refine ⟨w :: read, rfl, hcount.trans ?_⟩
      rw [← List.singleton_append, List.countP_append, ← Nat.add_assoc]
      exact (drainWord_count q w).add_right _
    · cases h
      exact ⟨[w], rfl, drainWord_count q w⟩

/-! ### The loop in front of any other queue -/

/-- Behind the last word of the FIFO the loop ends at the first invalid word. -/
theorem menUiqPopLoop_ends (h : q.Ok) (content : List Word) (ts : UiqTimestamp) :
    ∃ q' rest, menUiqPopLoop q ts (content ++ [UIQ_CONTROL_INVALID]) = some (q', rest) := by
  have hinvalid : areBitsSet UIQ_CONTROL_INVALID UIQ_CONTROL_INVALID = true := by decide
  induction content generalizing q with
  | nil =>
    obtain ⟨q₁, he, _⟩ := writeFromGrabber_ok h UIQ_CONTROL_INVALID ts
    refine ⟨q₁, [], ?_⟩
    simp [menUiqPopLoop, menUiqPop, he, hinvalid]
  | cons w content ih =>
    obtain ⟨q₁, he, hok, _⟩ := writeFromGrabber_ok h w ts
    simp only [List.cons_append, menUiqPopLoop, menUiqPop, he, Option.bind_eq_bind, Option.bind_some]
    split
    · exact ih hok
    · exact ⟨_, _, rfl⟩

theorem fifoReads_add (content : List Word) (n k : Nat) :
    fifoReads content (n + k) = fifoReads content n ++ List.replicate k UIQ_CONTROL_INVALID := by
  rw [fifoReads, fifoReads, List.append_assoc, ← List.replicate_append_replicate]

theorem fifoReads_eot (content : List Word) (n : Nat) :
    (∃ w ∈ fifoReads content n, w &&& UIQ_CONTROL_EOT ≠ 0) ↔ ∃ w ∈ content, w &&& UIQ_CONTROL_EOT ≠ 0 := by
  have hinvalid : UIQ_CONTROL_INVALID &&& UIQ_CONTROL_EOT = 0 := by decide
  constructor
  · rintro ⟨w, hw, hend⟩
    rcases List.mem_append.mp hw with hw | hw
    · exact ⟨w, hw, hend⟩
    · rw [List.eq_of_mem_replicate hw] at hend
      exact absurd hinvalid hend
  · rintro ⟨w, hw, hend⟩
    exact ⟨w, List.mem_append_left _ hw, hend⟩

theorem PopAllEnds.eot {content : List Word} (h : PopAllEnds q content ts) (hfull : q.isFull = true) :
    ∃ w ∈ content, w &&& UIQ_CONTROL_EOT ≠ 0 := by
  obtain ⟨n, q', rest, changed, hends, _⟩ := h
  have hpop := hends 0
  rw [menUiqPopAll, if_pos hfull] at hpop
  obtain ⟨_, hloop, _⟩ := Option.bind_eq_some_iff.mp hpop
  exact (fifoReads_eot content n).mp (drainLoop_isSome_iff.mp (Option.isSome_of_mem hloop))

/-- The handler returns if and only if the queue has room or the FIFO holds the end of a
transmission. -/
theorem pop_all_ends_iff (h : q.Ok) (content : List Word) (ts : UiqTimestamp) :
    PopAllEnds q content ts ↔ (q.isFull = true → ∃ w ∈ content, w &&& UIQ_CONTROL_EOT ≠ 0) := by
  refine ⟨PopAllEnds.eot, fun hroom => ?_⟩
  by_cases hfull : q.isFull = true
  · obtain ⟨⟨q', rest⟩, hloop⟩ := Option.isSome_iff_exists.mp
      (drainLoop_isSome_iff (q := q).mpr ((fifoReads_eot content 0).mpr (hroom hfull)))
    have hpop : menUiqPopAll q (fifoReads content 0) ts = some (q', rest, false) := by
      rw [menUiqPopAll, if_pos hfull, hloop]
      rfl
    refine ⟨0, q', rest, false, fun k => ?_, fun _ => drainLoop_counts hloop⟩
    rw [fifoReads_add]
    exact menUiqPopAll_append hpop _
  · obtain ⟨q', rest, hloop⟩ := menUiqPopLoop_ends h content ts
    obtain ⟨⟨q₁, rest₁, changed⟩, hpop⟩ : ∃ r, menUiqPopAll q (fifoReads content 1) ts = some r := by
      rw [menUiqPopAll, if_neg hfull, fifoReads, List.replicate_one, hloop]
      exact ⟨_, rfl⟩
    refine ⟨1, q₁, rest₁, changed, fun k => ?_, fun hf => absurd hf hfull⟩
    rw [fifoReads_add]
    exact menUiqPopAll_append hpop _

/-- A queue of one word, filled by a word without the end of its transmission. -/
def filledQueue : UiqBase := { uiqBaseInit (fun _ => 1) 1 0 .read .legacy 0 with fill := 1 }

theorem filledQueue_ok : filledQueue.Ok := ⟨by decide, by decide, .inr rfl⟩

/-- One word is left behind the end of the transmission. -/
theorem pop_all_ends_iff_filled : PopAllEnds filledQueue [2, 0x10003, 4] noTime :=
  (pop_all_ends_iff filledQueue_ok _ _).mpr fun _ => ⟨0x10003, by decide, by decide⟩

/-- Behind two words of an unfinished transmission the handler reads invalid words for ever. -/
theorem pop_all_hangs : ¬ PopAllEnds filledQueue [2, 3] noTime := by
  intro h
  obtain ⟨w, hw, hend⟩ := h.eot (by decide)
  have hnone : ([2, 3] : List Word).all (fun w => decide (w &&& UIQ_CONTROL_EOT = 0)) = true := by decide
  exact hend (of_decide_eq_true (List.all_eq_true.mp hnone w hw))

end MenableDriver
