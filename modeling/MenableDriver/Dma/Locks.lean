import MenableDriver.Dma.Runs

/-!
# Who holds which lock

Where a call can send its caller, and from it the invariant of the two locks that are
held between calls: the `chanlock` of a channel is never held by the interrupt handler
and by the holder of the heads at the same time.
-/

namespace MenableDriver

set_option autoImplicit false

open Transition

variable {m m' : Men} {s s' : Sys} {o : Outcome}

/-- The calls that end with a halted channel whose waiters are still to be woken. -/
def Call.halts : Call → Bool
  | .startTail .. | .startRest .. | .timerRun _ | .workRun _ => true
  | _ => false

inductive OutcomeOf : Call → Outcome → Prop where
  | done {k r} : OutcomeOf k (.done r)
  | starting {fgr tsize w} : OutcomeOf (.start fgr tsize) (.starting w)
  | waiting {fgr tsize w} : OutcomeOf (.start fgr tsize) (.waiting w)
  | cancelled {w took} : OutcomeOf (.startCancel w) (.cancelled w took)
  | resuming {w took} : OutcomeOf (.startResume w took) (.resuming w)
  | halted {k c r} : k.halts = true → k.own = some c → OutcomeOf k (.cleaning c (.ret r))
  | resumeHalted {w took} : OutcomeOf (.startResume w took) (.cleaning w.chan (.rest w))
  | queueing {headIdx bufIdx} : OutcomeOf (.queueCheck headIdx bufIdx) (.queueing headIdx bufIdx)
  | cleaningMem {owner current} : OutcomeOf (.close owner current) .cleaningMem
  | scanned {c newFrames finish} : OutcomeOf (.irqScan c newFrames) (.scanned finish)

theorem call_outcome {k : Call} (h : call m k = .ok (m', o)) : OutcomeOf k o := by
  cases k with
  | start fgr tsize =>
    simp only [call] at h
    split at h <;> cases h
    · exact .done
    · exact .starting
    · exact .waiting
  | startTail w hw current =>
    simp only [call] at h
    split_ifs at h
    obtain ⟨⟨m₁, ret⟩, h₁, h⟩ := bind_ok.mp h
    cases h
    cases ret with
    | none => exact .done
    | some e => exact .halted rfl rfl
  | startRest w hw current =>
    simp only [call] at h
    split_ifs at h
    · cases h
      exact .done
    · obtain ⟨⟨m₁, ret⟩, h₁, h⟩ := bind_ok.mp h
      cases h
      cases ret with
      | none => exact .done
      | some e => exact .halted rfl rfl
  | startCancel w =>
    obtain ⟨⟨m₁, took⟩, h₁, h⟩ := bind_ok.mp h
    cases h
    exact .cancelled
  | startResume w took =>
    obtain ⟨r, h₁, h⟩ := bind_ok.mp h
    cases r with
    | gone =>
      cases h
      exact .done
    | halted m₁ =>
      cases h
      exact .resumeHalted
    | go =>
      cases h
      exact .resuming
  | stop index =>
    simp only [call] at h
    split at h <;> cases h <;> exact .done
  | queueCheck headIdx bufIdx =>
    simp only [call] at h
    split at h <;> cases h
    · exact .done
    · exact .done
    · exact .queueing
  | createHead subbufs mem =>
    obtain ⟨⟨m₁, r⟩, h₁, h⟩ := bind_ok.mp h
    cases r <;> cases h <;> exact .done
  | getFrame mode headnr =>
    obtain ⟨⟨m₁, r⟩, h₁, h⟩ := bind_ok.mp h
    cases r <;> cases h <;> exact .done
  | close owner current =>
    obtain ⟨⟨m₁, last⟩, h₁, h⟩ := bind_ok.mp h
    cases last <;> cases h
    · exact .done
    · exact .cleaningMem
  | irqScan c newFrames =>
    obtain ⟨⟨m₁, finish⟩, h₁, h⟩ := bind_ok.mp h
    cases h
    exact .scanned
  | timerRun c =>
    obtain ⟨m₁, h₁, h⟩ := bind_ok.mp h
    cases h
    exact .halted rfl rfl
  | workRun c =>
    obtain ⟨m₁, h₁, h⟩ := bind_ok.mp h
    simp only [Except.ok.injEq, Prod.mk.injEq] at h
    obtain ⟨_, rfl⟩ := h
    unfold Outcome.ofHalt
    split_ifs
    · exact .done
    · exact .halted rfl rfl
  | addBuffer r mem | delBuffer n i | unlock n i | waitLeave c wid =>
    obtain ⟨⟨m₁, ret⟩, h₁, h⟩ := bind_ok.mp h
    cases h
    exact .done
  | destroySb b | destroyHead hd | queueAct n i | cleanupMem | irqFrame c ts len tag | irqRearm c
  | queueMax c | timerExpire c | workTake c =>
    obtain ⟨m₁, h₁, h⟩ := bind_ok.mp h
    cases h
    exact .done
  | freeHead n | cleanScan c | openFile current alloc | waitEnter c img is32bit wid | irqFinish c
  | irqLost c n | irqOverflow c =>
    simp only [call, Except.ok.injEq, Prod.mk.injEq] at h
    obtain ⟨_, rfl⟩ := h
    exact .done

structure Locked (s : Sys) : Prop where
  chan : ∀ c, s.hold.bind Hold.chanlock = some c → s.irq c = none
  rest : ∀ c w, s.hold = some (.cleaning c (.rest w)) → w.chan = c

theorem chanFree_iff {c : ChanRef} :
    s.chanFree c = true ↔ s.irq c = none ∧ s.hold.bind Hold.chanlock ≠ some c := by
  simp [Sys.chanFree, Sys.irqIdle, Sys.holdsChan]

theorem irqIdle_iff {c : ChanRef} : s.irqIdle c = true ↔ s.irq c = none := by simp [Sys.irqIdle]

/-- A handler enters its critical section in one way only. -/
theorem nextIrq_none {k : Call} {c : ChanRef} (hr : s.ready k = true) (h : s.irq c = none) :
    s.nextIrq k o c = none := by
  have hne : ∀ c' pc, s.irq c' = some pc → c ≠ c' := by
    rintro c' pc hpc rfl
    rw [hpc] at h
    cases h
  cases k with
  | irqFrame c' ts len tag =>
    cases hpc : s.irq c' with
    | none => simp [Sys.nextIrq, hpc, h]
    | some pc =>
      have hcc := hne c' pc hpc
      cases pc with
      | scanned finish => simp [Sys.nextIrq, hpc, h]
      | frames left newFrames => cases left <;> simp [Sys.nextIrq, hpc, h, hcc]
  | irqScan c' newFrames =>
    simp only [Sys.ready, decide_eq_true_eq] at hr
    have hcc := hne c' _ hr
    cases o <;> simp [Sys.nextIrq, hcc, h]
  | irqRearm c' | irqFinish c' =>
    by_cases hcc : c = c'
    · simp [Sys.nextIrq, hcc]
    · simp [Sys.nextIrq, hcc, h]
  | _ => exact h

/-- A call that does not hand the heads on keeps them, gives them back, or goes on with
the start it was halting a channel for. -/
theorem nextHold_kept {k : Call} (ho : (∃ r, o = .done r) ∨ (∃ w, o = .waiting w) ∨
      (∃ w took, o = .cancelled w took) ∨ ∃ finish, o = .scanned finish) :
    s.nextHold k o = none ∨ s.nextHold k o = s.hold ∨
      ∃ c w, s.hold = some (.cleaning c (.rest w)) ∧ s.nextHold k o = some (.resuming w) := by
  have hcase : ∀ k, (∀ c, k ≠ .cleanScan c) → s.nextHold k o = none ∨ s.nextHold k o = s.hold := by
    intro k hk
    rcases ho with ⟨r, rfl⟩ | ⟨w, rfl⟩ | ⟨w, took, rfl⟩ | ⟨finish, rfl⟩ <;> cases k <;>
      first
      | exact .inl rfl
      | exact .inr rfl
      | exact absurd rfl (hk _)
  by_cases hk : ∀ c, k ≠ .cleanScan c
  · rcases hcase k hk with h | h
    · exact .inl h
    · exact .inr (.inl h)
  · push Not at hk
    obtain ⟨c, rfl⟩ := hk
    by_cases hrest : ∃ c' w, s.hold = some (.cleaning c' (.rest w))
    · obtain ⟨c', w, hh⟩ := hrest
      refine .inr (.inr ⟨c', w, hh, ?_⟩)
      rcases ho with ⟨r, rfl⟩ | ⟨w', rfl⟩ | ⟨w', took, rfl⟩ | ⟨finish, rfl⟩ <;> simp only [Sys.nextHold, hh]
    · refine .inl ?_
      have hother : ∀ c' w, s.hold = some (.cleaning c' (.rest w)) → False := fun c' w hh =>
        hrest ⟨c', w, hh⟩
      rcases ho with ⟨r, rfl⟩ | ⟨w', rfl⟩ | ⟨w', took, rfl⟩ | ⟨finish, rfl⟩ <;>
        simp only [Sys.nextHold]

theorem nextHold_locked {k : Call} (hl : Locked s) (hr : s.ready k = true) (ho : OutcomeOf k o) :
    (∀ c, (s.nextHold k o).bind Hold.chanlock = some c → s.irq c = none) ∧
      ∀ c w, s.nextHold k o = some (.cleaning c (.rest w)) → w.chan = c := by
  have kept : (s.nextHold k o = none ∨ s.nextHold k o = s.hold ∨
      ∃ c w, s.hold = some (.cleaning c (.rest w)) ∧ s.nextHold k o = some (.resuming w)) →
      (∀ c, (s.nextHold k o).bind Hold.chanlock = some c → s.irq c = none) ∧
        ∀ c w, s.nextHold k o = some (.cleaning c (.rest w)) → w.chan = c := by
    rintro (h | h | ⟨c, w, hh, h⟩)
    · rw [h]
      exact ⟨fun _ hc => (by cases hc), fun _ _ hw => (by cases hw)⟩
    · rw [h]
      exact ⟨hl.chan, hl.rest⟩
    · rw [h]
      refine ⟨fun c' hc => ?_, fun c w hw => by cases hw⟩
      cases hc
      rw [hl.rest c w hh]
      exact hl.chan c (by rw [hh]; rfl)
  cases ho with
  | done => exact kept (nextHold_kept (.inl ⟨_, rfl⟩))
  | waiting => exact kept (nextHold_kept (.inr (.inl ⟨_, rfl⟩)))
  | cancelled => exact kept (nextHold_kept (.inr (.inr (.inl ⟨_, _, rfl⟩))))
  | scanned => exact kept (nextHold_kept (.inr (.inr (.inr ⟨_, rfl⟩))))
  | resuming =>
    simp only [Sys.ready, Bool.and_eq_true, irqIdle_iff] at hr
    refine ⟨fun c hc => ?_, fun c w hw => by cases hw⟩
    cases hc
    exact hr.1.2
  | resumeHalted =>
    simp only [Sys.ready, Bool.and_eq_true, irqIdle_iff] at hr
    refine ⟨fun c hc => ?_, fun c w hw => ?_⟩
    · cases hc
      exact hr.1.2
    · cases hw
      rfl
  | halted hk hown =>
    refine ⟨fun c hc => ?_, fun c w hw => by cases hw⟩
    cases hc
    cases k with
    | startTail w hw current =>
      cases hown
      simp only [Sys.ready, Bool.and_eq_true, irqIdle_iff] at hr
      exact hr.2
    | startRest w hw current =>
      cases hown
      simp only [Sys.ready, decide_eq_true_eq] at hr
      exact hl.chan w.chan (by rw [hr]; rfl)
    | timerRun c | workRun c =>
      cases hown
      simp only [Sys.ready, Bool.and_eq_true, irqIdle_iff] at hr
      exact hr.2
    | _ => cases hk
  | starting | queueing | cleaningMem =>
    exact ⟨fun _ hc => (by cases hc), fun _ _ hw => (by cases hw)⟩

/-- A start does not run beside the handler of its channel. -/
theorem start_not_irq {k : Call} {w : StartWait} {current : Tgid} {pc : IrqPc}
    {c : ChanRef} (hl : Locked s) (hr : s.ready k = true) (hirq : s.irq c = some pc)
    (hk : k.Starts w current) : w.chan ≠ c := by
  rintro rfl
  cases hk with
  | tail hw => simp [Sys.ready, Sys.irqIdle, hirq] at hr
  | rest hw =>
    simp only [Sys.ready, decide_eq_true_eq] at hr
    have := hl.chan w.chan (by rw [hr]; rfl)
    simp [hirq] at this

theorem step_locked {e : Event} (hl : Locked s) (h : step s e = .ok s') : Locked s' := by
  cases e with
  | irqEnter c newFrames =>
    obtain ⟨hc, _, rfl⟩ := step_irqEnter h
    refine ⟨fun c' hc' => ?_, hl.rest⟩
    have hne : c' ≠ c := by
      rintro rfl
      exact (chanFree_iff.mp hc).2 hc'
    simpa [hne] using hl.chan c' hc'
  | run k =>
    obtain ⟨m, o, hcall, hr, rfl⟩ := step_run h
    obtain ⟨hchan, hrest⟩ := nextHold_locked hl hr (call_outcome hcall)
    exact ⟨fun c hc => nextIrq_none hr (hchan c hc), hrest⟩

end MenableDriver
