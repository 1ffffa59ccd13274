import MenableDriver.Dma.Links

/-!
# A start that fails

A start that is refused before it touches its channel changes nothing, but for a stop
that it waited for and had to finish. A start that fails later leaves its channel
stopped, with the head it asked for. `men_start_dma` can also refuse a head that is busy
on another channel: then nothing has set the state that `men_dma_clean_sync` asks for.
-/

namespace MenableDriver

set_option autoImplicit false

open Transition

variable {m m' : Men} {o : Outcome} {c : ChanRef}

/-- The sections of `fg_start_transfer`. -/
def Call.starts : Call → Bool
  | .start .. | .startTail .. | .startCancel _ | .startResume .. | .startRest .. => true
  | _ => false

/-- `men_start_dma` refuses the head or the channel as busy. -/
def Refused (m : Men) : Call → Prop
  | .startTail w _ _ | .startRest w _ _ => menStartDmaBusy m w.chan w.head = true
  | _ => False

/-- The start got as far as the engine, or found no buffer that is ready. -/
structure FailedStart (w : StartWait) (m m' : Men) : Prop where
  state : (m'.chan w.chan).state = .stopped
  active : (m'.chan w.chan).active = some w.head
  transferTodo : (m'.chan w.chan).transferTodo = 0
  link : (m'.head w.head).chan = some w.chan
  unlinked : ∀ h, h ≠ w.head → (m.chan w.chan).active = some h → (m.head h).chan = some w.chan →
    (m'.head h).chan = none
  others : ∀ h, h ≠ w.head → (m.chan w.chan).active ≠ some h → (m'.head h).chan = (m.head h).chan
  chans : ∀ c, c ≠ w.chan → (m.head w.head).chan ≠ some c → m'.chan c = m.chan c

/-- What a section of a start leaves behind that does not end in success. -/
inductive StartLeaves (m : Men) : Call → Men → Prop where
  | kept {k} : StartLeaves m k m
  | workTaken (w : StartWait) : StartLeaves m (.startCancel w)
      (m.setChan w.chan { m.chan w.chan with dwork := false })
  | stopDone (w : StartWait) : (m.chan w.chan).state = .stopping →
      StartLeaves m (.startResume w true) (m.setChan w.chan { (m.chan w.chan).record .stopdma with
        timer := false, state := .stopped, transferTodo := 0 })
  | failed {k m'} (w : StartWait) (current : Tgid) : k.Starts w current → FailedStart w m m' →
      StartLeaves m k m'

section NoBug

theorem startdma_noBug (m : Men) (c : ChanRef) (hw : StartHw) : startdma m c hw ≠ .error .bugOn := by
  intro h
  cases hw with
  | refused => cases h
  | running | dead | timedOut =>
    rcases bind_error.mp h with h | ⟨m₁, _, h⟩
    · cases menDmaQueueMax_error h
    · cases h

theorem menStartDma_noBug (m : Men) (c : ChanRef) (h : HeadRef) (startbuf : Nat) (hw : StartHw)
    (current : Tgid) : menStartDma m c h startbuf hw current ≠ .error .bugOn := by
  intro he
  unfold menStartDma at he
  dsimp only at he
  split_ifs at he
  rcases bind_error.mp he with he | ⟨⟨m₁, r⟩, _, he⟩
  · exact startdma_noBug _ _ _ he
  · cases r <;> cases he

theorem menDmaCleanHalt_bug (h : menDmaCleanHalt m c = .error .bugOn) : (m.chan c).state ≠ .stopping := by
  unfold menDmaCleanHalt at h
  split_ifs at h with hs
  · exact hs
  · rcases bind_error.mp h with h | ⟨ch, _, h⟩
    · unfold Dmachan.hrtimerCancel at h
      split_ifs at h
      cases h
    · cases h

/-- The `BUG_ON` of `men_dma_clean_sync` needs a start that `men_start_dma` refuses. -/
theorem fgStartTail_bug {w : StartWait} {hw : StartHw} {current : Tgid}
    (h : fgStartTail m w hw current = .error .bugOn) : menStartDmaBusy m w.chan w.head = true := by
  rcases bind_error.mp h with h | ⟨⟨m₁, r⟩, h₁, h⟩
  · exact (menStartDma_noBug _ _ _ _ _ _ h).elim
  · cases r with
    | none => cases h
    | some e =>
      rcases bind_error.mp h with h | ⟨m₂, _, h⟩
      · have hs := menDmaCleanHalt_bug h
        rcases menStartDma_chan h₁ with ⟨_, hb, _⟩ | ⟨_, ch, _, ⟨_, heq⟩ | ⟨hne, _⟩⟩
        · exact fgStartSetup_busy m w.fgr w.chan w.head ▸ hb
        · rw [heq] at hs
          exact absurd rfl hs
        · cases hne
      · cases h

end NoBug

theorem fgStartTail_leaves {w : StartWait} {hw : StartHw} {current : Tgid} {e : Errno}
    (hb : menStartDmaBusy m w.chan w.head = false) (h : fgStartTail m w hw current = .ok (m', some e)) :
    FailedStart w m m' := by
  have hf := fgStartTail_failed h
  rcases fgStartTail_links h with ⟨hb', _⟩ | ⟨_, ht⟩
  · exact absurd (hb'.symm.trans hb) (by simp)
  · refine ⟨hf.state, ?_, hf.todo, ?_, fun h' hne ha _ => ?_, fun h' hne ha => ?_, fun c hc _ => ?_⟩
    · rw [ht.active, if_pos rfl]
    · rw [ht.link, if_pos rfl]
    · rw [ht.link, if_neg hne, if_pos ha]
    · rw [ht.link, if_neg hne, if_neg ha]
    · exact fgStartTail_other h hc

theorem call_noBug {k : Call} (hk : k.starts = true) (hn : ¬ Refused m k) :
    call m k ≠ .error .bugOn := by
  intro h
  cases k with
  | start fgr tsize =>
    simp only [call] at h
    split at h <;> cases h
  | startTail w hw current =>
    simp only [call] at h
    split_ifs at h
    · rcases bind_error.mp h with h | ⟨⟨m₁, ret⟩, _, h⟩
      · exact hn (fgStartTail_bug h)
      · cases h
    · cases h
  | startCancel w =>
    rcases bind_error.mp h with h | ⟨⟨m₁, took⟩, _, h⟩
    · unfold fgStartCancel at h
      dsimp only at h
      split_ifs at h
      cases h
    · cases h
  | startResume w took =>
    rcases bind_error.mp h with h | ⟨r, _, h⟩
    · unfold fgStartResume at h
      split at h
      · cases h
      · split_ifs at h with hc
        rcases bind_error.mp h with h | ⟨m₁, _, h⟩
        · exact menDmaCleanHalt_bug h hc.2
        · cases h
    · cases r <;> cases h
  | startRest w hw current =>
    simp only [call] at h
    split_ifs at h
    rcases bind_error.mp h with h | ⟨⟨m₁, ret⟩, _, h⟩
    · exact hn (fgStartTail_bug h)
    · cases h
  | _ => cases hk

theorem starts_leaves {w : StartWait} {current : Tgid} {k : Call} (hk : k.Starts w current)
    (hb : menStartDmaBusy m w.chan w.head = false) (h : call m k = .ok (m', o)) (ho : o ≠ .done none) :
    StartLeaves m k m' := by
  rcases hk.runs h with ⟨rfl, _⟩ | ⟨hw, ret, _, h₁, rfl⟩
  · exact .kept
  · cases ret with
    | none => exact absurd rfl ho
    | some e => exact .failed w current hk (fgStartTail_leaves hb h₁)

theorem call_leaves {k : Call} (hk : k.starts = true) (hn : ¬ Refused m k) (h : call m k = .ok (m', o))
    (ho : o ≠ .done none) : StartLeaves m k m' := by
  cases k with
  | start fgr tsize =>
    cases call_start h
    exact .kept
  | startTail w hw current => exact starts_leaves (.tail hw) (Bool.not_eq_true _ ▸ hn) h ho
  | startCancel w =>
    cases call_startCancel h
    exact .workTaken w
  | startResume w took =>
    rcases call_startResume h with rfl | ⟨rfl, h₁⟩
    · exact .kept
    · obtain ⟨hs, _, rfl⟩ := menDmaCleanHalt_ok.mp h₁
      exact .stopDone w hs
  | startRest w hw current => exact starts_leaves (.rest hw) (Bool.not_eq_true _ ▸ hn) h ho
  | _ => cases hk

/-- In every state of the driver, and so in every state it can reach, a section of a start
that `men_start_dma` does not refuse as busy runs into no `BUG_ON`. If it does not end in
success, it leaves everything as it was, or has taken the work item of a stop away or
finished that stop, or it leaves the channel stopped with the head it asked for. -/
theorem start_leaves (s : Sys) (k : Call) (hk : k.starts = true) (hn : ¬ Refused s.men k) :
    step s (.run k) ≠ .error .bugOn ∧
      ∀ m o, call s.men k = .ok (m, o) → o ≠ .done none → StartLeaves s.men k m := by
  refine ⟨fun h => ?_, fun m o h ho => call_leaves hk hn h ho⟩
  simp only [step] at h
  split_ifs at h
  · rcases bind_error.mp h with h | ⟨⟨m, o⟩, _, h⟩
    · exact call_noBug hk hn h
    · cases h
  · cases h

section Example

def fifty (chan head : Nat) : FgCtrl :=
  { mode := 0x10, timeout := 0, transferTodo := 50, chan := chan, head := head, startBuf := 0, dmaDir := 0 }

/-- Head 0 has been started and stopped on channel 0, and a start of the channel with head 1
is under way. -/
def otherHead : List Event :=
  [.run (.createHead 1 (some 7)),
    .run (.addBuffer { start := 0, length := 4096, subnr := 0, headnr := 0 } (some 3)),
    .run (.createHead 1 (some 8)),
    .run (.addBuffer { start := 0, length := 4096, subnr := 0, headnr := 1 } (some 4)),
    .run (.start (fifty 0 0) 0), .run (.startTail ⟨fifty 0 0, 7, 0⟩ .running 1), .run (.stop 0),
    .run (.workTake 0), .run (.workRun 0), .run (.cleanScan 0), .run (.start (fifty 0 1) 0)]

theorem start_leaves_otherHead : ∃ s m o, run step (sysProbe 1 [2] (fun _ => 0) 8) otherHead = .ok s ∧
    call s.men (.startTail ⟨fifty 0 1, 8, 0⟩ .timedOut 1) = .ok (m, o) ∧
      StartLeaves s.men (.startTail ⟨fifty 0 1, 8, 0⟩ .timedOut 1) m := by
  obtain ⟨s, hs, hp⟩ := exists_of_check step (sysProbe 1 [2] (fun _ => 0) 8) (otherHead)
    (fun s => decide (menStartDmaBusy s.men 0 8 = false)) (by decide +kernel)
  obtain ⟨t, ht, hq⟩ := exists_of_check step (sysProbe 1 [2] (fun _ => 0) 8)
    (otherHead ++ [.run (.startTail ⟨fifty 0 1, 8, 0⟩ .timedOut 1)])
    (fun t => decide (t.hold = some (.cleaning 0 (.ret (some .ETIMEDOUT))))) (by decide +kernel)
  obtain ⟨s', hs', ht⟩ := run_append_ok.mp ht
  obtain rfl : s = s' := Except.ok.inj (hs.symm.trans hs')
  obtain ⟨t', ht', h⟩ := run_cons_ok.mp ht
  cases h
  obtain ⟨m, o, hcall, _, rfl⟩ := step_run ht'
  refine ⟨s, m, o, hs, hcall, (start_leaves s _ rfl ?_).2 m o hcall ?_⟩
  · simpa [Refused] using hp
  · rintro rfl
    cases of_decide_eq_true hq

/-- The start of channel 0 with head 1 times out: its head has changed. The start of channel 1,
which was never stopped, with head 0 runs into the `BUG_ON`. -/
theorem failed_start_moves :
    (∃ s t, run step (sysProbe 1 [2] (fun _ => 0) 8) otherHead = .ok s ∧
      step s (.run (.startTail ⟨fifty 0 1, 8, 0⟩ .timedOut 1)) = .ok t ∧
        t.hold = some (.cleaning 0 (.ret (some .ETIMEDOUT))) ∧
        (s.men.chan 0).active = some 7 ∧ (t.men.chan 0).active = some 8) ∧
      run step (sysProbe 1 [2] (fun _ => 0) 8)
        (otherHead.dropLast ++ [.run (.start (fifty 1 0) 0), .run (.startTail ⟨fifty 1 0, 7, 1⟩ .running 1)]) =
          .error .bugOn := by
  refine ⟨?_, run_error_of_stopsWith (by decide +kernel)⟩
  obtain ⟨s, hs, hp⟩ := exists_of_check step (sysProbe 1 [2] (fun _ => 0) 8) (otherHead)
    (fun s => decide ((s.men.chan 0).active = some 7)) (by decide +kernel)
  obtain ⟨t, ht, hq⟩ := exists_of_check step (sysProbe 1 [2] (fun _ => 0) 8)
    (otherHead ++ [.run (.startTail ⟨fifty 0 1, 8, 0⟩ .timedOut 1)])
    (fun t => decide (t.hold = some (.cleaning 0 (.ret (some .ETIMEDOUT)))) &&
      decide ((t.men.chan 0).active = some 8)) (by decide +kernel)
  simp only [Bool.and_eq_true, decide_eq_true_eq] at hp hq
  obtain ⟨s', hs', ht⟩ := run_append_ok.mp ht
  obtain rfl : s = s' := Except.ok.inj (hs.symm.trans hs')
  obtain ⟨t', ht', h⟩ := run_cons_ok.mp ht
  cases h
  exact ⟨s, t, hs, ht', hq.1, hp, hq.2⟩

end Example

end MenableDriver
