import MenableDriver.Jtag.Calls

/-!
# The remembered state after a run

Wherever the chain starts, the bits that a run clocks out lead it to the state that the controller
remembers. A raw call makes the controller forget the state, so the next change goes through
the reset.
-/

namespace MenableDriver

set_option autoImplicit false

variable {b b' : JtagBus} {c c' : JtagController} {call : JtagCall} {calls : List JtagCall}
variable {result : Except JtagError Nat} {results : List (Except JtagError Nat)}

/-- A write with its own data for the TMS pin. -/
def JtagCall.IsRaw : JtagCall → Prop
  | .write _ _ flags => flags &&& RAW_MODE ≠ 0
  | _ => False

/-- A change of the state, or a write in one of the states. -/
def JtagCall.Moves : JtagCall → Prop
  | .setState _ => True
  | .write _ _ flags => flags &&& RAW_MODE = 0
  | _ => False

theorem jtagCall_spec (h : jtagCall c b call = some (c', b', result)) (hb : Answers b) :
    Answers b' ∧ (call.IsRaw ∧ c'.state = .invalid ∨ Clocked c b c' b') ∧
      (call.Moves → (∃ m, result = .ok m) → c'.state ≠ .invalid) := by
  cases call with
  | setState state =>
    obtain ⟨hb', ⟨-, rfl, rfl, rfl⟩ | ⟨hs, rfl, -, hbits⟩⟩ := setState_spec h hb
    · exact ⟨hb', .inr (.same rfl rfl), fun _ ⟨_, hok⟩ => nomatch hok⟩
    · exact ⟨hb', .inr ⟨_, .set c.state hs, hbits⟩, fun _ _ heq => hs (.inr heq)⟩
  | write data length flags =>
    by_cases hraw : flags &&& RAW_MODE = 0
    · obtain ⟨hb', hclocked, hok⟩ := write_of_not_raw h hb hraw
      exact ⟨hb', .inr hclocked, fun _ => hok⟩
    · obtain ⟨hb', hdone⟩ := write_of_raw h hb hraw
      refine ⟨hb', ?_, fun hmoves => absurd hmoves hraw⟩
      rcases hdone with hinv | ⟨hs, rfl⟩
      · exact .inl ⟨hraw, hinv⟩
      · exact .inr (.same hs rfl)
  | read dataIsNull length flags =>
    obtain ⟨⟨_, bytes⟩, hread, rfl⟩ := Option.map_eq_some_iff.mp h
    obtain ⟨hb', hclocked⟩ := read_spec hread hb
    exact ⟨hb', .inr hclocked, False.elim⟩
  | setFrequency frequency =>
    obtain ⟨hb', hclocked⟩ := setFrequency_spec (Option.some.inj h) hb
    exact ⟨hb', .inr hclocked, False.elim⟩
  | getFrequency =>
    obtain ⟨⟨_, freq⟩, hget, rfl⟩ := Option.map_eq_some_iff.mp h
    obtain ⟨hb', rfl, hw⟩ := getFrequency_spec hget hb
    exact ⟨hb', .inr (.same rfl (congrArg clockedOut hw)), False.elim⟩
  | cleanup =>
    obtain ⟨rfl, rfl, -⟩ : jtagCleanup c = c' ∧ b = b' ∧ .ok 0 = result := by
      have h := Option.some.inj h
      rw [Prod.mk.injEq, Prod.mk.injEq] at h
      exact h
    exact ⟨hb, .inr (.same rfl rfl), False.elim⟩

theorem jtagRun_cons (h : jtagRun c b (call :: calls) = some (c', b', results)) :
    ∃ c₁ b₁ result results', jtagCall c b call = some (c₁, b₁, result) ∧
      jtagRun c₁ b₁ calls = some (c', b', results') ∧ results = result :: results' := by
  obtain ⟨⟨c₁, b₁, result⟩, hcall, h⟩ := Option.bind_eq_some_iff.mp h
  obtain ⟨⟨c₂, b₂, results'⟩, hrun, h⟩ := Option.bind_eq_some_iff.mp h
  simp only [Option.some.injEq, Prod.mk.injEq] at h
  obtain ⟨rfl, rfl, rfl⟩ := h
  exact ⟨c₁, b₁, result, results', hcall, hrun, rfl⟩

/-- The state of the chain after all the bits so far, when it started in the given one. -/
def chain (b : JtagBus) (t : Tap.State) : Tap.State := Tap.run t (clockedOut b.written)

/-- One call keeps the remembered state and the chain together. -/
theorem jtagCall_tracks {t : Tap.State} (h : jtagCall c b call = some (c', b', result)) (hb : Answers b)
    (ht : Tracks c.state (chain b t)) : Tracks c'.state (chain b' t) := by
  obtain ⟨-, ⟨-, hinv⟩ | ⟨bits, hmoved, hbits⟩, -⟩ := jtagCall_spec h hb
  · rw [hinv]
    exact trivial
  · rw [chain, hbits, Tap.run_append]
    exact hmoved.tracks ht

theorem jtagRun_tracks {t : Tap.State} (h : jtagRun c b calls = some (c', b', results)) (hb : Answers b)
    (ht : Tracks c.state (chain b t)) : Answers b' ∧ Tracks c'.state (chain b' t) := by
  induction calls generalizing c b results with
  | nil =>
    obtain ⟨rfl, rfl, -⟩ : c = c' ∧ b = b' ∧ [] = results := by simpa [jtagRun] using h
    exact ⟨hb, ht⟩
  | cons call calls ih =>
    obtain ⟨c₁, b₁, result, results', hcall, hrun, rfl⟩ := jtagRun_cons h
    exact ih hrun (jtagCall_spec hcall hb).1 (jtagCall_tracks hcall hb ht)

/-- Without raw calls the state is known from the first change on. -/
theorem jtagRun_ne_invalid (h : jtagRun c b calls = some (c', b', results)) (hb : Answers b)
    (hraw : ∀ call ∈ calls, ¬ call.IsRaw)
    (hmoved : c.state ≠ .invalid ∨ ∃ p ∈ calls.zip results, p.1.Moves ∧ ∃ m, p.2 = .ok m) :
    c'.state ≠ .invalid := by
  induction calls generalizing c b results with
  | nil =>
    obtain ⟨rfl, rfl, -⟩ : c = c' ∧ b = b' ∧ [] = results := by simpa [jtagRun] using h
    rcases hmoved with hc | ⟨p, hp, -⟩
    · exact hc
    · cases hp
  | cons call calls ih =>
    obtain ⟨c₁, b₁, result, results', hcall, hrun, rfl⟩ := jtagRun_cons h
    obtain ⟨hb₁, ⟨hisRaw, -⟩ | ⟨bits, hm, -⟩, hmoves⟩ := jtagCall_spec hcall hb
    · exact absurd hisRaw (hraw call List.mem_cons_self)
    · apply ih hrun hb₁ (fun call hmem => hraw call (List.mem_cons_of_mem _ hmem))
      rcases hmoved with hc | ⟨p, hp, hpm, hpok⟩
      · exact .inl (hm.ne_invalid hc)
      · rw [List.zip_cons_cons] at hp
        rcases List.mem_cons.mp hp with rfl | hp
        · exact .inl (hmoves hpm hpok)
        · exact .inr ⟨p, hp, hpm, hpok⟩

/-- After a raw call that sent something, the next change of the state starts with a reset. -/
theorem setState_resets {state : JtagState} {m : Nat} (hinv : c.state = .invalid) (hb : Answers b)
    (h : setState c b state = some (c', b', .ok m)) :
    ∃ rest, clockedOut b'.written = clockedOut b.written ++ List.replicate 5 true ++ rest ∧
      ∀ t, Tap.run t (clockedOut b.written ++ List.replicate 5 true) = .testLogicReset := by
  obtain ⟨-, ⟨-, -, -, herr⟩ | ⟨hs, -, -, hbits⟩⟩ := setState_spec h hb
  · cases herr
  · refine ⟨stateBits .reset state, ?_, fun t => ?_⟩
    · rw [hbits, hinv, stateBits_invalid hs, List.append_assoc]
    · rw [Tap.run_append, Tap.run_ones]

/-- The remembered state is that of the chain after every run of calls in which no read of the
register fails. It is known as soon as a call was successful and none was raw, and a raw call that
clocks bits out forgets it. -/
theorem jtag_state_tracked (reads : List Word) (hreads : 0xffffffff#32 ∉ reads) (calls : List JtagCall)
    (c : JtagController) (b : JtagBus) (results : List (Except JtagError Nat))
    (h : jtagRun jtagControllerInit ⟨reads, []⟩ calls = some (c, b, results)) :
    (∀ t, Tracks c.state (chain b t)) ∧
    ((∀ call ∈ calls, ¬ call.IsRaw) →
      (∃ p ∈ calls.zip results, p.1.Moves ∧ ∃ m, p.2 = .ok m) → c.state ≠ .invalid) ∧
    (∀ data length flags c' b' result, flags &&& RAW_MODE ≠ 0 →
      write c b data length flags = some (c', b', result) → clockedOut b'.written ≠ clockedOut b.written →
      c'.state = .invalid ∧
      ∀ state c'' b'' m, setState c' b' state = some (c'', b'', .ok m) →
        ∃ rest, clockedOut b''.written = clockedOut b'.written ++ List.replicate 5 true ++ rest ∧
          ∀ t, Tap.run t (clockedOut b'.written ++ List.replicate 5 true) = .testLogicReset) := by
  have hb : Answers b := (jtagRun_tracks (t := .runTestIdle) h hreads trivial).1
  refine ⟨fun t => (jtagRun_tracks h hreads trivial).2, fun hraw hmoved => ?_, ?_⟩
  · exact jtagRun_ne_invalid h hreads hraw (.inr hmoved)
  · intro data length flags c' b' result hraw hwrite hsent
    obtain ⟨hb', hinv | ⟨-, rfl⟩⟩ := write_of_raw hwrite hb hraw
    · exact ⟨hinv, fun state c'' b'' m hset => setState_resets hinv hb' hset⟩
    · exact absurd rfl hsent

/-- To idle, nineteen bits of data, and to the instruction register. -/
theorem jtag_state_tracked_shiftIr : ∃ c b results,
    jtagRun jtagControllerInit ⟨[0#32, 0x20000#32, 0#32, 0x20000#32, 0#32, 0x20000#32, 0#32, 0#32, 0x20000#32], []⟩
      [.setState .idle, .write (some fun _ => 0xa5#8) 19 (LENGTH_IN_BITS ||| STATE_SHIFT_DR),
        .setState .shiftIr] =
        some (c, b, results) ∧ ∀ t, Tracks c.state (chain b t) := by
  obtain ⟨⟨c, b, results⟩, hrun⟩ := Option.isSome_iff_exists.mp (show (jtagRun jtagControllerInit
    ⟨[0#32, 0x20000#32, 0#32, 0x20000#32, 0#32, 0x20000#32, 0#32, 0#32, 0x20000#32], []⟩
    [.setState .idle, .write (some fun _ => 0xa5#8) 19 (LENGTH_IN_BITS ||| STATE_SHIFT_DR),
      .setState .shiftIr]).isSome = true by decide +kernel)
  exact ⟨c, b, results, hrun, (jtag_state_tracked _ (by decide) _ c b results hrun).1⟩

end MenableDriver
