import MenableDriver.Dma.Locks
import MenableDriver.Dma.StopPending

/-!
# No lost wake-up

A process that waits for a frame is due when the frame has come in or the channel is
stopped. Whoever makes it due owes it the wake-up: the handler between the frame and
its scan of the wait list, or the holder of the heads between the halt of the channel
and `complete_all`. Nobody owes anything when no critical section is in progress.
-/

namespace MenableDriver

set_option autoImplicit false

open Transition

variable {m m' : Men} {s s' t : Sys} {o : Outcome} {c : ChanRef}

def Dmachan.Due (ch : Dmachan) (w : DmaWait) : Prop := w.frame ≤ ch.goodcnt ∨ ch.state = .stopped

/-- The wake-up of the waiter is still to come in a critical section. -/
def Owed (s : Sys) (c : ChanRef) (w : DmaWait) : Prop :=
  (w.frame ≤ (s.men.chan c).goodcnt ∧ ∃ left newFrames, s.irq c = some (.frames left newFrames)) ∨
    ∃ next, s.hold = some (.cleaning c next)

/-- What a call does to the wait list of the channel `c`. -/
inductive WaitStep (c : ChanRef) (ch ch' : Dmachan) : Call → Prop where
  | kept {k} : (k ≠ .cleanScan c) → (∀ n, k ≠ .irqScan c n) → ch'.waitList = ch.waitList →
      WaitStep c ch ch' k
  | woken : ch'.waitList = ch.waitList.map complete → WaitStep c ch ch' (.cleanScan c)
  | reached {n} : ch'.waitList = ch.waitList.map (completeReached ch.goodcnt) →
      ch'.goodcnt = ch.goodcnt → ch'.state = ch.state → WaitStep c ch ch' (.irqScan c n)
  | entered {img is32bit} (w : DmaWait) : ch.state = .started → ch.goodcnt < w.frame →
      ch' = { ch with waitList := ch.waitList ++ [w] } → WaitStep c ch ch' (.waitEnter c img is32bit w.wid)
  | left (w : DmaWait) : ch' = { ch with waitList := ch.waitList.erase w } →
      WaitStep c ch ch' (.waitLeave c w.wid)

theorem ChanStep.wait {k : Call} {ch ch' : Dmachan} (h : ChanStep c k o ch ch') : WaitStep c ch ch' k := by
  cases h with
  | still hk hq =>
    exact .kept (by rintro rfl; cases hk) (by rintro n rfl; cases hk) hq.control.waitList
  | frame hq => exact .kept (by simp) (by simp) hq.control.waitList
  | foreign hk ho =>
    exact .kept (by rintro rfl; exact ho rfl) (by rintro n rfl; exact ho rfl) rfl
  | startDone hk _ h => cases hk <;> exact .kept (by simp) (by simp) h.waitList
  | startFailed hk _ h => cases hk <;> exact .kept (by simp) (by simp) h.waitList
  | scanned => exact .woken rfl
  | stopped h | closed h => cases h <;> exact .kept (by simp) (by simp) rfl
  | entered hs hg => exact .entered { wid := _, frame := _ } hs hg rfl
  | left w hw =>
    subst hw
    exact .left w rfl
  | irqScanned _ h =>
    exact .reached h.quiet.control.waitList h.still.goodcnt h.quiet.control.state
  | released hk _ => rcases hk with ⟨n, rfl⟩ | rfl <;> exact .kept (by simp) (by simp) rfl
  | _ => exact .kept (by simp) (by simp) rfl

theorem nextHold_cleaning {k : Call} {next : After} (hr : s.ready k = true) (ho : OutcomeOf k o)
    (hk : k ≠ .cleanScan c) (h : s.hold = some (.cleaning c next)) : s.nextHold k o = s.hold := by
  cases ho with
  | done =>
    cases k with
    | cleanScan c' =>
      simp only [Sys.ready, h, decide_eq_true_eq] at hr
      exact absurd (congrArg Call.cleanScan hr.symm) hk
    | startTail | startRest | queueAct | cleanupMem => simp [Sys.ready, h] at hr
    | _ => rfl
  | cancelled | scanned => rfl
  | halted hh =>
    cases k with
    | startTail | startRest | timerRun | workRun => simp [Sys.ready, Sys.headsFree, h] at hr
    | _ => cases hh
  | _ => simp [Sys.ready, Sys.headsFree, h] at hr

theorem nextIrq_frames {k : Call} {left newFrames : Nat} (hr : s.ready k = true)
    (hk : ∀ n, k ≠ .irqScan c n) (h : s.irq c = some (.frames left newFrames)) :
    ∃ left', s.nextIrq k o c = some (.frames left' newFrames) := by
  cases k with
  | irqFrame c' ts len tag =>
    by_cases hc : c = c'
    · subst hc
      cases left with
      | zero => simp [Sys.ready, h] at hr
      | succ left => exact ⟨left, by simp [Sys.nextIrq, h]⟩
    · refine ⟨left, ?_⟩
      cases hpc : s.irq c' with
      | none => simp [Sys.nextIrq, hpc, h]
      | some pc =>
        cases pc with
        | scanned finish => simp [Sys.nextIrq, hpc, h]
        | frames left' newFrames' => cases left' <;> simp [Sys.nextIrq, hpc, h, hc]
  | irqScan c' n =>
    have hc : c ≠ c' := by
      rintro rfl
      exact hk n rfl
    refine ⟨left, ?_⟩
    cases o <;> simp [Sys.nextIrq, hc, h]
  | irqRearm c' | irqFinish c' =>
    have hc : c ≠ c' := by
      rintro rfl
      simp [Sys.ready, h] at hr
    exact ⟨left, by simp [Sys.nextIrq, hc, h]⟩
  | _ => exact ⟨left, h⟩

/-- No start runs on a channel whose handler is about to scan the wait list. -/
theorem goodcnt_mono {k : Call} {left newFrames : Nat} (hl : Locked s) (hr : s.ready k = true)
    (h : ChanStep c k o (s.men.chan c) (m.chan c)) (hirq : s.irq c = some (.frames left newFrames)) :
    (s.men.chan c).goodcnt ≤ (m.chan c).goodcnt := by
  have hstart : ∀ w current, k.Starts w current → w.chan ≠ c := fun _ _ hk => start_not_irq hl hr hirq hk
  generalize s.men.chan c = ch at h ⊢
  generalize m.chan c = ch' at h ⊢
  cases h with
  | still _ hq => exact hq.good
  | frame hq => exact hq.good
  | startDone hk hw => exact absurd hw (hstart _ _ hk)
  | startFailed hk hw => exact absurd hw (hstart _ _ hk)
  | stopped h | closed h => cases h <;> exact Nat.le_refl _
  | irqScanned _ h => exact h.quiet.good
  | _ => exact Nat.le_refl _

/-- What is owed stays owed until the wait list is scanned. -/
theorem owed_kept {k : Call} {w : DmaWait} (hl : Locked s) (hr : s.ready k = true)
    (hcall : call s.men k = .ok (m, o)) (hclean : k ≠ .cleanScan c) (hscan : ∀ n, k ≠ .irqScan c n)
    (h : Owed s c w) :
    Owed (s.next k m o) c w := by
  rcases h with ⟨hw, left, newFrames, hirq⟩ | ⟨next, hh⟩
  · obtain ⟨left', hirq'⟩ := nextIrq_frames (o := o) hr hscan hirq
    exact .inl ⟨Nat.le_trans hw (goodcnt_mono hl hr (call_chan hcall c) hirq), left', newFrames, hirq'⟩
  · exact .inr ⟨next, (nextHold_cleaning hr (call_outcome hcall) hclean hh).trans hh⟩

/-- Nobody is woken too late: a waiter that is due is woken, or it is owed the wake-up. -/
structure Waiting (s : Sys) : Prop extends Locked s where
  nodup : ∀ c, ((s.men.chan c).waitList.map DmaWait.wid).Nodup
  pos : ∀ c, ∀ w ∈ (s.men.chan c).waitList, 0 < w.frame
  owed : ∀ c, ∀ w ∈ (s.men.chan c).waitList, w.cpl = false → (s.men.chan c).Due w → Owed s c w

/-- A call that makes a waiter due leaves a critical section open that wakes it. -/
theorem due_owed {k : Call} {w : DmaWait} (hw : Waiting s) (hr : s.ready k = true)
    (hcall : call s.men k = .ok (m, o)) (hclean : k ≠ .cleanScan c) (hscan : ∀ n, k ≠ .irqScan c n)
    (hold : w ∈ (s.men.chan c).waitList) (hcpl : w.cpl = false) (hdue : (m.chan c).Due w) :
    Owed (s.next k m o) c w := by
  have hs := call_chan hcall c
  have kept : (s.men.chan c).Due w →
      Owed (s.next k m o) c w :=
    fun hd => owed_kept hw.toLocked hr hcall hclean hscan (hw.owed c w hold hcpl hd)
  have hpos := hw.pos c w hold
  generalize hch' : m.chan c = ch' at hs hdue
  have same : ch'.goodcnt = (s.men.chan c).goodcnt → ch'.state = (s.men.chan c).state →
      Owed (s.next k m o) c w := by
    intro hg hst
    exact kept (by rwa [Dmachan.Due, hg, hst] at hdue)
  cases hs with
  | still _ hq => exact same hq.goodcnt hq.control.state
  | frame hq =>
    rcases hdue with hd | hd
    · have hfr : ∃ left newFrames, s.irq c = some (.frames left newFrames) := by
        simp only [Sys.ready] at hr
        split at hr
        · exact ⟨_, _, ‹_›⟩
        · cases hr
      obtain ⟨left, newFrames, hirq⟩ := hfr
      obtain ⟨left', hirq'⟩ := nextIrq_frames (o := o) hr hscan hirq
      exact .inl ⟨by rw [hch']; exact hd, left', newFrames, hirq'⟩
    · exact kept (.inr (hq.control.state.symm.trans hd))
  | startDone _ _ h => 
    rcases hdue with hd | hd
    · have := h.good
      omega
    · exact absurd (h.state.symm.trans hd) (by simp)
  | startFailed | resumeHalted | timedOut | workHalted => exact .inr ⟨_, rfl⟩
  | scanned => exact absurd rfl hclean
  | irqScanned => exact absurd rfl (hscan _)
  | stopped h | closed h => 
    cases h with
    | same => exact kept hdue
    | stopped => exact kept (.inl (hdue.resolve_right (by simp)))
  | irqFinished => exact kept (.inl (hdue.resolve_right (by simp)))
  | _ => exact kept hdue

theorem completeReached_wid (g : Nat) (w : DmaWait) : (completeReached g w).wid = w.wid := by
  unfold completeReached
  split_ifs <;> rfl

theorem completeReached_frame (g : Nat) (w : DmaWait) : (completeReached g w).frame = w.frame := by
  unfold completeReached
  split_ifs <;> rfl

theorem completeReached_waits {g : Nat} {w : DmaWait} (h : (completeReached g w).cpl = false) :
    g < w.frame ∧ completeReached g w = w := by
  unfold completeReached at h ⊢
  split_ifs at h ⊢ with hg
  · cases h
  · exact ⟨by omega, rfl⟩

theorem waitEnter_fresh {img : Int} {is32bit : Bool} {wid : Nat}
    (hr : s.ready (.waitEnter c img is32bit wid) = true) {w : DmaWait}
    (hw : w ∈ (s.men.chan c).waitList) : w.wid ≠ wid := by
  simp only [Sys.ready, Bool.not_eq_true', List.any_eq_false, decide_eq_true_eq] at hr
  exact hr w hw

/-- The scan of the handler does not run while somebody else cleans the channel. -/
theorem irqScan_not_cleaning {n : Nat} (hl : Locked s) (hr : s.ready (.irqScan c n) = true)
    (next : After) : s.hold ≠ some (.cleaning c next) := by
  intro hh
  have hirq := hl.chan c (by rw [hh]; rfl)
  simp [Sys.ready, hirq] at hr

theorem wait_nodup {k : Call} {ch : Dmachan} (h : WaitStep c (s.men.chan c) ch k) (hr : s.ready k = true)
    (hold : ((s.men.chan c).waitList.map DmaWait.wid).Nodup) : (ch.waitList.map DmaWait.wid).Nodup := by
  cases h with
  | kept _ _ hl => rwa [hl]
  | woken hl => simpa [hl, Function.comp_def, complete] using hold
  | reached hl => simpa [hl, Function.comp_def, completeReached_wid] using hold
  | entered w _ _ hl =>
    have hfresh : ∀ x ∈ (s.men.chan c).waitList, x.wid ≠ w.wid := fun x hx => waitEnter_fresh hr hx
    simpa [hl, List.nodup_append] using ⟨hold, hfresh⟩
  | left w hl =>
    rw [hl]
    exact hold.sublist ((List.erase_sublist).map _)

theorem wait_pos {k : Call} {ch ch' : Dmachan} (h : WaitStep c ch ch' k)
    (hold : ∀ w ∈ ch.waitList, 0 < w.frame) : ∀ w ∈ ch'.waitList, 0 < w.frame := by
  intro w hmem
  cases h with
  | kept _ _ hl => exact hold w (hl ▸ hmem)
  | woken hl =>
    rw [hl] at hmem
    obtain ⟨w', hw', rfl⟩ := List.mem_map.mp hmem
    exact hold w' hw'
  | reached hl =>
    rw [hl] at hmem
    obtain ⟨w', hw', rfl⟩ := List.mem_map.mp hmem
    exact (completeReached_frame _ w').symm ▸ hold w' hw'
  | entered w' _ hg hl =>
    rw [hl, List.mem_append, List.mem_singleton] at hmem
    rcases hmem with hmem | rfl
    · exact hold w hmem
    · omega
  | left w' hl =>
    rw [hl] at hmem
    exact hold w (List.mem_of_mem_erase hmem)

theorem call_owed {k : Call} {w : DmaWait} (hw : Waiting s) (hr : s.ready k = true)
    (hcall : call s.men k = .ok (m, o)) (hmem : w ∈ (m.chan c).waitList) (hcpl : w.cpl = false)
    (hdue : (m.chan c).Due w) : Owed (s.next k m o) c w := by
  cases (call_chan hcall c).wait with
  | kept h₁ h₂ hl => exact due_owed hw hr hcall h₁ h₂ (hl ▸ hmem) hcpl hdue
  | woken hl =>
    rw [hl] at hmem
    obtain ⟨w', _, rfl⟩ := List.mem_map.mp hmem
    cases hcpl
  | reached hl hg hst =>
    rw [hl] at hmem
    obtain ⟨w', hw', rfl⟩ := List.mem_map.mp hmem
    obtain ⟨hlt, he⟩ := completeReached_waits hcpl
    rw [he] at hcpl hdue
    rw [Dmachan.Due, hg, hst] at hdue
    -- the waiter was due before, because of a halt that is still being cleaned up
    rcases hw.owed c w' hw' hcpl hdue with ⟨hle, _⟩ | ⟨next, hh⟩
    · omega
    · exact absurd hh (irqScan_not_cleaning hw.toLocked hr next)
  | entered w' hst hg hl =>
    rw [hl, List.mem_append, List.mem_singleton] at hmem
    rcases hmem with hmem | rfl
    · exact due_owed hw hr hcall (by simp) (by simp) hmem hcpl hdue
    · rw [hl] at hdue
      rcases hdue with hd | hd
      · exact absurd hd (by simpa using hg)
      · exact absurd (hst.symm.trans hd) (by simp)
  | left w' hl =>
    rw [hl] at hmem
    exact due_owed hw hr hcall (by simp) (by simp) (List.mem_of_mem_erase hmem) hcpl hdue

theorem owed_irqEnter {c' : ChanRef} {newFrames : Nat} {w : DmaWait} (h : Owed s c w) :
    Owed { s with irq := Function.update s.irq c' (some (.frames newFrames newFrames)) } c w := by
  rcases h with ⟨hg, left, n, hirq⟩ | hh
  · by_cases hc : c = c'
    · subst hc
      exact .inl ⟨hg, newFrames, newFrames, by simp⟩
    · exact .inl ⟨hg, left, n, by simpa [hc] using hirq⟩
  · exact .inr hh

theorem step_waiting {e : Event} (hw : Waiting s) (h : step s e = .ok t) : Waiting t := by
  have hlock := step_locked hw.toLocked h
  cases e with
  | irqEnter c' newFrames =>
    obtain ⟨_, _, rfl⟩ := step_irqEnter h
    exact ⟨hlock, hw.nodup, hw.pos, fun c w hmem hcpl hdue => owed_irqEnter (hw.owed c w hmem hcpl hdue)⟩
  | run k =>
    obtain ⟨m, o, hcall, hr, rfl⟩ := step_run h
    have hwait := fun c => (call_chan hcall c).wait
    exact ⟨hlock, fun c => wait_nodup (hwait c) hr (hw.nodup c), fun c => wait_pos (hwait c) (hw.pos c),
      fun c w hmem hcpl hdue => call_owed hw hr hcall hmem hcpl hdue⟩

/-- The waiters with this entry are woken, or they are owed the wake-up. -/
structure Tracked (c : ChanRef) (wid : Nat) (s : Sys) : Prop where
  stays : ∃ w ∈ (s.men.chan c).waitList, w.wid = wid
  woken : ∀ w ∈ (s.men.chan c).waitList, w.wid = wid → w.cpl = true ∨ Owed s c w

theorem call_tracked {k : Call} {wid : Nat} (hw : Waiting s) (hr : s.ready k = true)
    (hcall : call s.men k = .ok (m, o)) (hk : k ≠ .waitLeave c wid) (ht : Tracked c wid s) :
    Tracked c wid (s.next k m o) := by
  obtain ⟨⟨w₀, hw₀, hwid₀⟩, hwoken⟩ := ht
  have keep : k ≠ .cleanScan c → (∀ n, k ≠ .irqScan c n) → ∀ w ∈ (s.men.chan c).waitList, w.wid = wid →
      w.cpl = true ∨ Owed (s.next k m o) c w :=
    fun h₁ h₂ w hmem hwid => (hwoken w hmem hwid).imp_right (owed_kept hw.toLocked hr hcall h₁ h₂)
  cases (call_chan hcall c).wait with
  | kept h₁ h₂ hl =>
    exact ⟨⟨w₀, hl ▸ hw₀, hwid₀⟩, fun w hmem => keep h₁ h₂ w (hl ▸ hmem)⟩
  | woken hl =>
    refine ⟨⟨complete w₀, hl ▸ List.mem_map_of_mem hw₀, hwid₀⟩, fun w hmem _ => .inl ?_⟩
    obtain ⟨w', _, rfl⟩ := List.mem_map.mp (hl ▸ hmem)
    rfl
  | reached hl =>
    refine ⟨⟨_, hl ▸ List.mem_map_of_mem hw₀, (completeReached_wid _ w₀).trans hwid₀⟩,
      fun w hmem hwid => .inl ?_⟩
    obtain ⟨w', hw', rfl⟩ := List.mem_map.mp (hl ▸ hmem)
    by_contra hcpl
    obtain ⟨hlt, he⟩ := completeReached_waits (Bool.not_eq_true _ ▸ hcpl)
    rw [he] at hcpl hwid
    rcases hwoken w' hw' hwid with hw'' | ⟨hle, _⟩ | ⟨next, hh⟩
    · exact hcpl hw''
    · omega
    · exact irqScan_not_cleaning hw.toLocked hr next hh
  | entered w' _ _ hl =>
    have hne : w'.wid ≠ wid := fun h => waitEnter_fresh hr hw₀ (hwid₀.trans h.symm)
    refine ⟨⟨w₀, by simp [hl, hw₀], hwid₀⟩, fun w hmem hwid => ?_⟩
    rw [show (s.next _ m o).men = m from rfl, hl, List.mem_append, List.mem_singleton] at hmem
    rcases hmem with hmem | rfl
    · exact keep (by simp) (by simp) w hmem hwid
    · exact absurd hwid hne
  | left w' hl =>
    have hne : w₀ ≠ w' := by
      rintro rfl
      exact hk (by rw [hwid₀])
    refine ⟨⟨w₀, by simpa [hl] using (List.mem_erase_of_ne hne).mpr hw₀, hwid₀⟩, fun w hmem => ?_⟩
    rw [show (s.next _ m o).men = m from rfl, hl] at hmem
    exact keep (by simp) (by simp) w (List.mem_of_mem_erase hmem)

theorem step_tracked {e : Event} {wid : Nat} (hw : Waiting s) (he : e ≠ .run (.waitLeave c wid))
    (ht : Tracked c wid s) (h : step s e = .ok t) : Tracked c wid t := by
  cases e with
  | irqEnter c' newFrames =>
    obtain ⟨_, _, rfl⟩ := step_irqEnter h
    exact ⟨ht.stays, fun w hmem hwid => (ht.woken w hmem hwid).imp_right owed_irqEnter⟩
  | run k =>
    obtain ⟨m, o, hcall, hr, rfl⟩ := step_run h
    exact call_tracked hw hr hcall (fun hk => he (congrArg Event.run hk)) ht

theorem waiting_probe (activeFpgas : Nat) (dmacnt : List Nat) (fpga : ChanRef → Nat) (fifo : UInt32) :
    Waiting (sysProbe activeFpgas dmacnt fpga fifo) :=
  ⟨⟨by simp [sysProbe], by simp [sysProbe]⟩, fun _ => List.nodup_nil, by simp [sysProbe, menProbe],
    by simp [sysProbe, menProbe]⟩

/-- A waiter that was due at any time since it entered the wait list, and is still in it,
has been woken when no critical section is in progress. -/
theorem waiter_signalled {activeFpgas : Nat} {dmacnt : List Nat} {fpga : ChanRef → Nat} {fifo : UInt32}
    {before after : List Event} {w : DmaWait}
    (hs : run step (sysProbe activeFpgas dmacnt fpga fifo) before = .ok s)
    (hw : w ∈ (s.men.chan c).waitList)
    (hdue : w.frame ≤ (s.men.chan c).goodcnt ∨ (s.men.chan c).state = .stopped)
    (ht : run step s after = .ok t) (hstay : Event.run (.waitLeave c w.wid) ∉ after)
    (hq : QuietOn t c) :
    (∃ w' ∈ (t.men.chan c).waitList, w'.wid = w.wid) ∧
      ∀ w' ∈ (t.men.chan c).waitList, w'.wid = w.wid → w'.cpl = true := by
  have hwait := reachable_invariant (fun _ _ _ => step_waiting)
    (waiting_probe activeFpgas dmacnt fpga fifo) ⟨before, hs⟩
  have htrack : Tracked c w.wid s := by
    refine ⟨⟨w, hw, rfl⟩, fun w' hw' hwid => ?_⟩
    obtain rfl := List.inj_on_of_nodup_map (hwait.nodup c) hw' hw hwid
    cases hcpl : w'.cpl with
    | true => exact .inl rfl
    | false => exact .inr (hwait.owed c w' hw hcpl hdue)
  have hrun := run_invariant (P := fun s => Waiting s ∧ Tracked c w.wid s)
    (G := fun _ e => e ≠ .run (.waitLeave c w.wid))
    (fun s e t hG hP h => ⟨step_waiting hP.1 h, step_tracked hP.1 hG hP.2 h⟩)
    (meets_of_forall_mem fun e he => fun heq => hstay (by rwa [heq] at he)) ⟨hwait, htrack⟩ ht
  refine ⟨hrun.2.stays, fun w' hw' hwid => (hrun.2.woken w' hw' hwid).resolve_right ?_⟩
  rintro (⟨_, left, newFrames, hirq⟩ | ⟨next, hh⟩)
  · simp [hq.2] at hirq
  · simp [hq.1] at hh

section Example

/-- Two processes wait for the first two frames of an acquisition; the first frame is
completed, then the channel is stopped and its work item runs. -/
def waitForTwo : List Event :=
  [.run (.createHead 1 (some 7)),
    .run (.addBuffer { start := 0, length := 4096, subnr := 0, headnr := 0 } (some 3)),
    .run (.start oneFrame 0), .run (.startTail ⟨oneFrame, 7, 0⟩ .running 1),
    .run (.waitEnter 0 1 false 11), .run (.waitEnter 0 2 false 12), .irqEnter 0 1,
    .run (.irqFrame 0 0 4096 0)]

def finishFrame : List Event := [.run (.irqScan 0 1), .run (.irqRearm 0)]

theorem waiter_signalled_first : ∃ t,
    run step (sysProbe 1 [1] (fun _ => 0) 8) (waitForTwo ++ finishFrame) = .ok t ∧
      (∃ w' ∈ (t.men.chan 0).waitList, w'.wid = 11) ∧
        ∀ w' ∈ (t.men.chan 0).waitList, w'.wid = 11 → w'.cpl = true := by
  obtain ⟨s, hs, hp⟩ := exists_of_check step (sysProbe 1 [1] (fun _ => 0) 8) (waitForTwo)
    (fun s => decide (⟨11, 1, false⟩ ∈ (s.men.chan 0).waitList) && decide (1 ≤ (s.men.chan 0).goodcnt))
    (by decide +kernel)
  obtain ⟨t, ht, hq⟩ := exists_of_check step (sysProbe 1 [1] (fun _ => 0) 8)
    (waitForTwo ++ finishFrame) (fun t => decide (t.hold = none) && decide (t.irq 0 = none))
    (by decide +kernel)
  simp only [Bool.and_eq_true, decide_eq_true_eq] at hp hq
  obtain ⟨s', hs', ht'⟩ := run_append_ok.mp ht
  obtain rfl : s = s' := Except.ok.inj (hs.symm.trans hs')
  exact ⟨t, ht, waiter_signalled hs hp.1 (.inl hp.2) ht' (by simp [finishFrame]) ⟨hq.1, hq.2⟩⟩

end Example

end MenableDriver
