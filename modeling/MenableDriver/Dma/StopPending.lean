import MenableDriver.Dma.Runs

/-!
# A stopping channel has its stop pending

The halt of a stopping channel is due to its work item. The item is queued, or the
work function was called, or a start has taken the item away and has to halt the
channel itself. One start forgets this duty: the head it asks for has gone while it
waited.
-/

namespace MenableDriver

set_option autoImplicit false

open Transition

/-- A start that waits has taken the work item of the channel away. -/
def TookWork (starts : List (StartWait × Sleep)) (c : ChanRef) : Prop :=
  ∃ x ∈ starts, x.1.chan = c ∧ x.2 = .back true

instance (starts : List (StartWait × Sleep)) (c : ChanRef) : Decidable (TookWork starts c) :=
  inferInstanceAs (Decidable (∃ x ∈ starts, x.1.chan = c ∧ x.2 = .back true))

def StopPending (s : Sys) (c : ChanRef) : Prop :=
  (s.men.chan c).dwork = true ∨ (s.men.chan c).working = true ∨ TookWork s.starts c

instance (s : Sys) (c : ChanRef) : Decidable (StopPending s c) :=
  inferInstanceAs (Decidable (_ ∨ _ ∨ _))

def StopsPending (s : Sys) : Prop :=
  ∀ c, (s.men.chan c).state = .stopping → StopPending s c

/-- Nobody is between two calls that belong to one critical section on the channel. -/
def QuietOn (s : Sys) (c : ChanRef) : Prop := s.hold = none ∧ s.irq c = none

def StopsPendingWhenQuiet (s : Sys) : Prop :=
  ∀ c, (s.men.chan c).state = .stopping → QuietOn s c → StopPending s c

/-- A start comes back with the work item it took, its head is gone, and nothing else
will halt the channel. -/
def LosesStop (s : Sys) : Event → Prop
  | .run (.startResume w true) =>
    meGetBufHead s.men w.fgr.head = none ∧ (s.men.chan w.chan).state = .stopping ∧
      (s.men.chan w.chan).dwork = false ∧ (s.men.chan w.chan).working = false ∧
      ¬ TookWork (s.starts.erase (w, .back true)) w.chan
  | _ => False

theorem tookWork_cons {x : StartWait × Sleep} {starts : List (StartWait × Sleep)} {c : ChanRef}
    (h : TookWork starts c) : TookWork (x :: starts) c := by
  obtain ⟨y, hy, hc⟩ := h
  exact ⟨y, List.mem_cons_of_mem x hy, hc⟩

theorem tookWork_erase {x : StartWait × Sleep} {starts : List (StartWait × Sleep)} {c : ChanRef}
    (hx : x.1.chan ≠ c ∨ x.2 ≠ .back true) (h : TookWork starts c) : TookWork (starts.erase x) c := by
  obtain ⟨y, hy, hc, hb⟩ := h
  have hne : y ≠ x := by
    rintro rfl
    rcases hx with hx | hx
    · exact hx hc
    · exact hx hb
  exact ⟨y, (List.mem_erase_of_ne hne).mpr hy, hc, hb⟩

/-- Only a start that comes back gives its duty up. -/
theorem tookWork_nextStarts {s : Sys} {k : Call} {o : Outcome} {c : ChanRef}
    (hk : ∀ w, k = .startResume w true → w.chan ≠ c) (h : TookWork s.starts c) :
    TookWork (s.nextStarts k o) c := by
  unfold Sys.nextStarts
  split
  · exact tookWork_cons h
  · exact tookWork_cons (tookWork_erase (.inr (by simp)) h)
  · next w took =>
    cases took with
    | false => exact tookWork_erase (.inr (by simp)) h
    | true => exact tookWork_erase (.inl (hk w rfl)) h
  · exact h

/-- A call that leaves a channel stopping leaves its stop pending. -/
theorem call_stopPending {s : Sys} {k : Call} {m : Men} {o : Outcome} {c : ChanRef}
    (hcall : call s.men k = .ok (m, o)) (hk : ∀ w, k = .startResume w true → w.chan ≠ c)
    (hP : (s.men.chan c).state = .stopping → StopPending s c) (hst : (m.chan c).state = .stopping) :
    (m.chan c).dwork = true ∨ (m.chan c).working = true ∨ TookWork (s.nextStarts k o) c := by
  have hs := call_chan hcall c
  have keep : (m.chan c).state = (s.men.chan c).state → (m.chan c).dwork = (s.men.chan c).dwork →
      (m.chan c).working = (s.men.chan c).working →
      (m.chan c).dwork = true ∨ (m.chan c).working = true ∨ TookWork (s.nextStarts k o) c := by
    intro h1 h2 h3
    rw [h2, h3]
    rcases hP (h1 ▸ hst) with h | h | h
    · exact .inl h
    · exact .inr (.inl h)
    · exact .inr (.inr (tookWork_nextStarts hk h))
  generalize hch : s.men.chan c = ch at hs hP keep
  generalize hch' : m.chan c = ch' at hs hst keep ⊢
  cases hs with
  | still _ hq => exact keep hq.control.state hq.control.dwork hq.control.working
  | frame hq => exact keep hq.control.state hq.control.dwork hq.control.working
  | startDone _ _ h => exact absurd (h.state.symm.trans hst) (by simp)
  | startFailed _ _ h => exact absurd (h.state.symm.trans hst) (by simp)
  | cancelled hw _ =>
    by_cases hd : ch.dwork = true
    · exact .inr (.inr ⟨_, List.mem_cons_self, hw, by rw [hd]⟩)
    · exact keep rfl (by simpa using hd) rfl
  | resumeHalted | timedOut | workHalted => cases hst
  | stopped h | closed h =>
    cases h with
    | same => exact keep rfl rfl rfl
    | stopped => exact .inl rfl
  | irqScanned _ h =>
    have hq := h.quiet.control
    exact keep hq.state hq.dwork hq.working
  | irqFinished => exact .inl rfl
  | workTaken => exact .inr (.inl rfl)
  | workIdle hne => exact absurd hst hne
  | _ => exact keep rfl rfl rfl

theorem step_stopsPending {s t : Sys} {e : Event} (hG : ¬ LosesStop s e) (hP : StopsPending s)
    (h : step s e = .ok t) : StopsPending t := by
  cases e with
  | irqEnter c' newFrames =>
    obtain ⟨_, _, rfl⟩ := step_irqEnter h
    exact hP
  | run k =>
    obtain ⟨m, o, hcall, _, rfl⟩ := step_run h
    intro c hst
    by_cases hk : ∀ w, k = .startResume w true → w.chan ≠ c
    · exact call_stopPending hcall hk (hP c) hst
    · push Not at hk
      obtain ⟨w, rfl, rfl⟩ := hk
      obtain ⟨r, h₁, h₂⟩ := bind_ok.mp hcall
      rcases fgStartResume_cases h₁ with ⟨hgone, rfl⟩ | ⟨_, ⟨_, _, m₁, h₃, rfl⟩ | ⟨hn, rfl⟩⟩
      · cases h₂
        by_contra hno
        simp only [StopPending, Sys.nextStarts, not_or, Bool.not_eq_true] at hno
        exact hG ⟨hgone, hst, hno.1, hno.2.1, hno.2.2⟩
      · cases h₂
        obtain ⟨_, _, rfl⟩ := menDmaCleanHalt_ok.mp h₃
        simp at hst
      · cases h₂
        exact absurd ⟨rfl, hst⟩ hn

/-- The lost stop shows: the start has returned, and nobody holds a lock. -/
theorem losesStop_shows {s t : Sys} {e : Event} (h : step s e = .ok t) (hl : LosesStop s e) :
    ¬ StopsPendingWhenQuiet t := by
  cases e with
  | irqEnter c newFrames => exact hl.elim
  | run k =>
    cases k with
    | startResume w took =>
      cases took with
      | false => exact hl.elim
      | true =>
        obtain ⟨hgone, hst, hd, hw, ht⟩ := hl
        obtain ⟨m, o, hcall, hr, rfl⟩ := step_run h
        obtain ⟨r, h₁, h₂⟩ := bind_ok.mp hcall
        rcases fgStartResume_cases h₁ with ⟨_, rfl⟩ | ⟨hn, _⟩
        · cases h₂
          simp only [Sys.ready, Sys.headsFree, Sys.irqIdle, Bool.and_eq_true,
            Option.isNone_iff_eq_none] at hr
          intro hq
          rcases hq w.chan hst ⟨hr.1.1, hr.1.2⟩ with h | h | h
          · exact absurd (hd.symm.trans h) (by simp)
          · exact absurd (hw.symm.trans h) (by simp)
          · exact ht h
        · exact absurd hgone hn
    | _ => exact hl.elim

section Example

def oneFrame : FgCtrl :=
  { mode := 0x10, timeout := 0, transferTodo := 5, chan := 0, head := 0, startBuf := 0, dmaDir := 0 }

/-- One head with one buffer, and an acquisition on channel 0 that is being stopped. -/
def startAndStop : List Event :=
  [.run (.createHead 1 (some 7)),
    .run (.addBuffer { start := 0, length := 4096, subnr := 0, headnr := 0 } (some 3)),
    .run (.start oneFrame 0), .run (.startTail ⟨oneFrame, 7, 0⟩ .running 1), .run (.stop 0)]

/-- A second start waits for the stop, takes the work item and finds the head deleted. -/
def startWithoutHead : List Event :=
  startAndStop ++ [.run (.start oneFrame 0), .run (.freeHead 0), .run (.startCancel ⟨oneFrame, 7, 0⟩),
    .run (.startResume ⟨oneFrame, 7, 0⟩ true)]

end Example

end MenableDriver
