import MenableDriver.Dma.Effects

/-!
# Runs of calls and of the driver

The states that the driver can get into start from the board as its probe leaves it.
Most calls are quiet: they leave the control of every channel alone (`call_still`) and
the links between channels and heads (`call_sameLinks`). Every step of the driver
makes one call or none (`step_call`), so what calls preserve, the driver does.
-/

namespace MenableDriver

set_option autoImplicit false

open Transition

/-- The board after its probe: nobody has opened it yet. -/
def menProbe (activeFpgas : Nat) (dmacnt : List Nat) (fpga : ChanRef → Nat) (fifo : UInt32) : Men :=
  { activeFpgas := activeFpgas
    dmacnt := dmacnt
    chan := fun c => { number := c, fpga := fpga c }
    dmaFifoLength := fifo }

def sysProbe (activeFpgas : Nat) (dmacnt : List Nat) (fpga : ChanRef → Nat) (fifo : UInt32) : Sys :=
  { men := menProbe activeFpgas dmacnt fpga fifo }

/-- The calls that change no control field of a channel. -/
def Call.quiet : Call → Bool
  | .createHead .. | .addBuffer .. | .delBuffer .. | .destroySb _ | .destroyHead _ | .start ..
  | .queueCheck .. | .queueAct .. | .unlock .. | .getFrame .. | .openFile .. | .irqFrame ..
  | .irqLost .. | .irqOverflow _ | .queueMax _ => true
  | _ => false

variable {m m' : Men} {o : Outcome}

theorem menableOpen_board (m : Men) (current : Tgid) (alloc : Bool) :
    ∃ groups use files, menableOpen m current alloc =
      { m with groups := groups, use := use, files := files } := by
  unfold menableOpen
  dsimp only
  split
  · exact ⟨_, _, _, rfl⟩
  · split_ifs
    · exact ⟨_, _, _, rfl⟩
    · exact ⟨_, _, _, rfl⟩

section Calls

variable {fgr : FgCtrl} {tsize : Nat} {w : StartWait} {took : Bool} {headIdx bufIdx : Nat}

theorem call_start (h : call m (.start fgr tsize) = .ok (m', o)) : m' = m := by
  simp only [call] at h
  split at h <;> cases h <;> rfl

theorem call_startCancel (h : call m (.startCancel w) = .ok (m', o)) :
    m' = m.setChan w.chan { m.chan w.chan with dwork := false } := by
  obtain ⟨⟨m₁, took⟩, h₁, h⟩ := bind_ok.mp h
  cases h
  exact (fgStartCancel_ok.mp h₁).2.1

theorem call_startResume (h : call m (.startResume w took) = .ok (m', o)) :
    m' = m ∨ took = true ∧ menDmaCleanHalt m w.chan = .ok m' := by
  obtain ⟨r, h₁, h⟩ := bind_ok.mp h
  rcases fgStartResume_cases h₁ with ⟨_, rfl⟩ | ⟨_, ⟨ht, _, m₁, h₂, rfl⟩ | ⟨_, rfl⟩⟩
  · cases h
    exact .inl rfl
  · cases h
    exact .inr ⟨ht, h₂⟩
  · cases h
    exact .inl rfl

theorem call_queueCheck (h : call m (.queueCheck headIdx bufIdx) = .ok (m', o)) :
    m' = m ∨ ∃ b, m' = m.setListname (.sb b) .ready := by
  simp only [call] at h
  split at h
  · cases h
    exact .inl rfl
  · rename_i m₁ h₁
    cases h
    obtain ⟨_, b, _, _, rfl⟩ := menQueueBufferCheck_marked h₁
    exact .inr ⟨b, rfl⟩
  · cases h
    exact .inl rfl

theorem call_openFile {current : Tgid} {alloc : Bool} (h : call m (.openFile current alloc) = .ok (m', o)) :
    ∃ groups use files, m' = { m with groups := groups, use := use, files := files } := by
  obtain ⟨groups, use, files, hb⟩ := menableOpen_board m current alloc
  simp only [call] at h
  rw [hb] at h
  cases h
  exact ⟨groups, use, files, rfl⟩

end Calls

/-- Only lists and counters of the channel change, and nothing is handed to the engine. -/
def Dmachan.Relisted (ch ch' : Dmachan) : Prop :=
  ∃ list count lost, ch' = { ch with list := list, count := count, lostCount := lost }

theorem Dmachan.Relisted.refl (ch : Dmachan) : ch.Relisted ch := ⟨_, _, _, rfl⟩

theorem Dmachan.Relisted.still {ch ch' : Dmachan} (h : ch.Relisted ch') : ch.Still ch' := by
  obtain ⟨list, count, lost, rfl⟩ := h
  exact Dmachan.Quiet.lists ch list count lost

theorem setChan_relisted {c : ChanRef} {ch : Dmachan} (h : (m.chan c).Relisted ch) (c' : ChanRef) :
    (m.chan c').Relisted ((m.setChan c ch).chan c') := by
  by_cases hc : c' = c
  · subst hc
    simpa using h
  · simpa [hc] using Dmachan.Relisted.refl _

theorem MoveFrame.still {c : ChanRef} (h : MoveFrame c m m') (c' : ChanRef) :
    (m.chan c').Still (m'.chan c') := by
  by_cases hc : c' = c
  · subst hc
    exact h.self.still
  · rw [h.other c' hc]
    exact .refl _

/-- The calls that move buffers between the lists of the channel `c`, with the function
that does. -/
inductive ListCall (m m' : Men) (c : ChanRef) : Call → Prop where
  | act {headIdx bufIdx h b} : queueRequest m headIdx bufIdx = some (h, b) → (m.head h).chan = some c →
      menQueueBufferMove m c b = .ok m' → ListCall m m' c (.queueAct headIdx bufIdx)
  | unlockAll {headnr h} : meGetBufHead m headnr = some h → (m.head h).chan = some c →
      unblockAll m c (m.head h).bufs = .ok m' → ListCall m m' c (.unlock headnr (-1))
  | unlock {headnr index h b} : meGetBufHead m headnr = some h → (m.head h).chan = some c →
      meGetSubBufByHead m h index = some b → menUnblockBuffer m c (some (.sb b)) = .ok m' →
      ListCall m m' c (.unlock headnr index)
  | getLast {mode headnr h sb} : meGetBufHead m headnr = some h → (m.head h).chan = some c →
      menLastBlocked m c = .ok (m', sb) → ListCall m m' c (.getFrame mode headnr)
  | getNext {mode headnr h sb} : meGetBufHead m headnr = some h → (m.head h).chan = some c →
      menNextBlocked m c = .ok (m', sb) → ListCall m m' c (.getFrame mode headnr)
  | queueMax : menDmaQueueMax m c = .ok m' → ListCall m m' c (.queueMax c)

theorem ListCall.frame {c : ChanRef} {k : Call} (h : ListCall m m' c k) : MoveFrame c m m' := by
  cases h with
  | act _ _ h => exact menQueueBufferMove_frame h
  | unlockAll _ _ h => exact unblockAll_frame h
  | unlock _ _ _ h => exact menUnblockBuffer_frame h
  | getLast _ _ h => exact (menLastBlocked_frame h).move
  | getNext _ _ h => exact (menNextBlocked_frame h).move
  | queueMax h => exact menDmaQueueMax_frame h

def Call.lists : Call → Bool
  | .queueAct .. | .unlock .. | .getFrame .. | .queueMax _ => true
  | _ => false

theorem call_lists {k : Call} (hk : k.lists = true) (h : call m k = .ok (m', o)) :
    m' = m ∨ ∃ c, ListCall m m' c k := by
  cases k with
  | queueAct headIdx bufIdx =>
    obtain ⟨m₁, h₁, h⟩ := bind_ok.mp h
    cases h
    obtain ⟨hd, b, c', hq, hl, h₂⟩ := menQueueBufferAct_cases h₁
    exact .inr ⟨c', .act hq hl h₂⟩
  | unlock headnr index =>
    obtain ⟨⟨m₁, ret⟩, h₁, h⟩ := bind_ok.mp h
    cases h
    rcases menIoctlUnlockBuffer_cases h₁ with rfl | ⟨hd, c', hh, hl, ⟨rfl, h₂⟩ | ⟨b, hb, h₂⟩⟩
    · exact .inl rfl
    · exact .inr ⟨c', .unlockAll hh hl h₂⟩
    · exact .inr ⟨c', .unlock hh hl hb h₂⟩
  | getFrame mode headnr =>
    obtain ⟨⟨m₁, r⟩, h₁, h⟩ := bind_ok.mp h
    cases h
    rcases menIoctlGetHandshakeDmaBuffer_cases h₁ with rfl | ⟨hd, c', sb, hh, hl, h₂ | h₂⟩
    · exact .inl rfl
    · exact .inr ⟨c', .getLast hh hl h₂⟩
    · exact .inr ⟨c', .getNext hh hl h₂⟩
  | queueMax c' =>
    obtain ⟨m₁, h₁, h⟩ := bind_ok.mp h
    cases h
    exact .inr ⟨c', .queueMax h₁⟩
  | _ => cases hk

/-- A quiet call moves buffers between the lists of one channel, or it hands nothing to
any engine. -/
theorem call_quiet {k : Call} (hk : k.quiet = true) (hf : ∀ c ts len tag, k ≠ .irqFrame c ts len tag)
    (h : call m k = .ok (m', o)) :
    (∃ c, ListCall m m' c k) ∨ ∀ c, (m.chan c).Relisted (m'.chan c) := by
  cases k with
  | createHead subbufs mem =>
    obtain ⟨⟨m₁, r⟩, h₁, h⟩ := bind_ok.mp h
    cases h
    rcases menCreateBufHead_cases h₁ with rfl | ⟨hd, _, _, _, _, rfl⟩
    · exact .inr fun _ => .refl _
    · exact .inr fun _ => .refl _
  | addBuffer r mem =>
    obtain ⟨⟨m₁, ret⟩, h₁, h⟩ := bind_ok.mp h
    cases h
    rcases menCreateUserbuf_cases h₁ with rfl | ⟨hd, b, _, _, _, _, _, ⟨_, rfl⟩ | ⟨c', _, rfl⟩⟩
    · exact .inr fun _ => .refl _
    · exact .inr fun _ => .refl _
    · exact .inr (setChan_relisted ⟨_, _, _, rfl⟩)
  | delBuffer headnr index =>
    obtain ⟨⟨m₁, ret⟩, h₁, h⟩ := bind_ok.mp h
    cases h
    rcases menIoctlDelVirtUserBuffer_cases h₁ with rfl | ⟨hd, m₂, _, h₂, rfl⟩
    · exact .inr fun _ => .refl _
    · rcases menFreeUserbuf_cases h₂ with ⟨_, hne⟩ | ⟨b, _, _, _, _, ⟨_, rfl⟩ | ⟨c', m₃, _, _, h₃, rfl⟩⟩
      · exact absurd rfl hne
      · exact .inr fun _ => .refl _
      · rcases dropFromChannel_cases h₃ with ⟨_, rfl⟩ | ⟨_, _, rfl⟩
        · exact .inr (setChan_relisted ⟨_, _, _, rfl⟩)
        · exact .inr (setChan_relisted ⟨_, _, _, rfl⟩)
  | destroySb b =>
    obtain ⟨m₁, h₁, h⟩ := bind_ok.mp h
    cases h
    obtain ⟨_, rfl⟩ := menDestroySb_ok.mp h₁
    exact .inr fun _ => .refl _
  | destroyHead hd =>
    obtain ⟨m₁, h₁, h⟩ := bind_ok.mp h
    cases h
    obtain ⟨_, rfl⟩ := menFreeBufHead_ok.mp h₁
    exact .inr fun _ => .refl _
  | start fgr tsize =>
    cases call_start h
    exact .inr fun _ => .refl _
  | queueCheck headIdx bufIdx =>
    rcases call_queueCheck h with rfl | ⟨b, rfl⟩
    · exact .inr fun _ => .refl _
    · exact .inr fun _ => .refl _
  | queueAct | unlock | getFrame | queueMax =>
    rcases call_lists rfl h with rfl | hl
    · exact .inr fun _ => .refl _
    · exact .inl hl
  | openFile current alloc =>
    obtain ⟨_, _, _, rfl⟩ := call_openFile h
    exact .inr fun _ => .refl _
  | irqFrame c' ts len tag => exact absurd rfl (hf c' ts len tag)
  | irqLost c' newFrames | irqOverflow c' =>
    cases h
    exact .inr (setChan_relisted ⟨_, _, _, rfl⟩)
  | _ => cases hk

theorem call_still {k : Call} {c : ChanRef} (hk : k.quiet = true)
    (hf : ∀ ts len tag, k ≠ .irqFrame c ts len tag) (h : call m k = .ok (m', o)) :
    (m.chan c).Still (m'.chan c) := by
  by_cases hf' : ∀ c' ts len tag, k ≠ .irqFrame c' ts len tag
  · rcases call_quiet hk hf' h with ⟨c', hl⟩ | hl
    · exact hl.frame.still c
    · exact (hl c).still
  · push Not at hf'
    obtain ⟨c', ts, len, tag, rfl⟩ := hf'
    obtain ⟨m₁, h₁, h⟩ := bind_ok.mp h
    cases h
    rw [(irqFrame_frame h₁).other c fun hc => hf ts len tag (by rw [hc])]
    exact .refl _

/-- The channel a call names, if it is not a quiet one. -/
def Call.own : Call → Option ChanRef
  | .startTail w _ _ | .startCancel w | .startResume w _ | .startRest w _ _ => some w.chan
  | .cleanScan c | .waitEnter c _ _ _ | .waitLeave c _ | .irqScan c _ | .irqRearm c | .irqFinish c
  | .timerExpire c | .timerRun c | .workTake c | .workRun c | .stop c => some c
  | _ => none

/-- The calls that run the end of a start. -/
inductive Call.Starts (w : StartWait) (current : Tgid) : Call → Prop where
  | tail (hw : StartHw) : Starts w current (.startTail w hw current)
  | rest (hw : StartHw) : Starts w current (.startRest w hw current)

/-- Such a call has gone through `fg_start_transfer` to its end, or found its head busy. -/
theorem Call.Starts.runs {w : StartWait} {current : Tgid} {k : Call} (hk : k.Starts w current)
    (hc : call m k = .ok (m', o)) :
    m' = m ∧ o = .done (some .EBUSY) ∨ ∃ hw ret, meGetBufHead m w.fgr.head = some w.head ∧
      fgStartTail m w hw current = .ok (m', ret) ∧ o = .ofStart w.chan ret := by
  cases hk with
  | tail hw =>
    simp only [call] at hc
    split_ifs at hc with hhead
    obtain ⟨⟨m₁, ret⟩, h₁, hc⟩ := bind_ok.mp hc
    cases hc
    exact .inr ⟨hw, ret, hhead, h₁, rfl⟩
  | rest hw =>
    simp only [call] at hc
    split_ifs at hc with hb
    · cases hc
      exact .inl ⟨rfl, rfl⟩
    · have hhead : meGetBufHead m w.fgr.head = some w.head := by
        simp only [fgStartRestBusy, Bool.or_eq_true, decide_eq_true_eq, not_or, not_not] at hb
        exact hb.2
      obtain ⟨⟨m₁, ret⟩, h₁, hc⟩ := bind_ok.mp hc
      cases hc
      exact .inr ⟨hw, ret, hhead, h₁, rfl⟩

/-- What a call can do to the channel `c`. -/
inductive ChanStep (c : ChanRef) : Call → Outcome → Dmachan → Dmachan → Prop where
  | still {k o ch ch'} : k.quiet = true → ch.Still ch' → ChanStep c k o ch ch'
  | frame {ts len tag o ch ch'} : ch.Quiet ch' → ChanStep c (.irqFrame c ts len tag) o ch ch'
  | foreign {k o ch} : k.quiet = false → k.own ≠ some c → ChanStep c k o ch ch
  | startDone {k w current ch ch'} : k.Starts w current → w.chan = c →
      ch.StartDone w current ch' → ChanStep c k (.done none) ch ch'
  | startFailed {k w current e ch ch'} : k.Starts w current → w.chan = c → ch.StartFailed w ch' →
      ChanStep c k (.cleaning c (.ret (some e))) ch ch'
  | startBusy {w hw current ch} : ChanStep c (.startRest w hw current) (.done (some .EBUSY)) ch ch
  | cancelled {w ch} : w.chan = c → ch.working = false →
      ChanStep c (.startCancel w) (.cancelled w ch.dwork) ch { ch with dwork := false }
  | resumeHalted {w ch} : w.chan = c → ch.state = .stopping → ch.timing = false →
      ChanStep c (.startResume w true) (.cleaning c (.rest w)) ch
        { ch.record .stopdma with timer := false, state := .stopped, transferTodo := 0 }
  | resumeGone {w took ch} : ChanStep c (.startResume w took) (.done (some .EBUSY)) ch ch
  | resumed {w took ch} : (took = true → ch.state ≠ .stopping) →
      ChanStep c (.startResume w took) (.resuming w) ch ch
  | scanned {ch} : ChanStep c (.cleanScan c) (.done none) ch
      { ch with waitList := ch.waitList.map complete }
  | stopped {ch ch'} {o : Outcome} : ch.MaybeStopped ch' → ChanStep c (.stop c) o ch ch'
  | closed {owner current o ch ch'} : ch.MaybeStopped ch' → ChanStep c (.close owner current) o ch ch'
  | entered {img is32bit wid o ch} : ch.state = .started → ch.goodcnt < waitFrame ch.goodcnt img is32bit →
      ChanStep c (.waitEnter c img is32bit wid) o ch
        { ch with waitList := ch.waitList ++ [{ wid := wid, frame := waitFrame ch.goodcnt img is32bit }] }
  | returned {img is32bit wid o ch} : ChanStep c (.waitEnter c img is32bit wid) o ch ch
  | left {wid o ch} (w : DmaWait) : w.wid = wid →
      ChanStep c (.waitLeave c wid) o ch { ch with waitList := ch.waitList.erase w }
  | irqScanned {newFrames finish ch ch'} : (finish = true ↔ ch.transferTodo ≤ 0) →
      ({ ch with waitList := ch.waitList.map (completeReached ch.goodcnt) } : Dmachan).Moved ch' →
      ChanStep c (.irqScan c newFrames) (.scanned finish) ch ch'
  | irqRearmed {o ch} (t : Bool) : ChanStep c (.irqRearm c) o ch { ch with timer := t }
  | irqFinished {o ch} : ChanStep c (.irqFinish c) o ch { ch with state := .stopping, dwork := true }
  | timerExpired {o ch} : ChanStep c (.timerExpire c) o ch { ch with timer := false, timing := true }
  | timedOut {ch} : ChanStep c (.timerRun c) (.cleaning c (.ret none)) ch
      { ch.record .abortdma with timing := false, state := .stopped }
  | workTaken {o ch} : ChanStep c (.workTake c) o ch { ch with dwork := false, working := true }
  | workIdle {ch} : ch.state ≠ .stopping →
      ChanStep c (.workRun c) (.done none) ch { ch with working := false }
  | workHalted {ch} : ch.state = .stopping → ChanStep c (.workRun c) (.cleaning c (.ret none)) ch
      { ch.record .stopdma with working := false, timer := false, state := .stopped, transferTodo := 0 }
  | released {k o ch} : (∃ n, k = .freeHead n) ∨ k = .cleanupMem → ch.state ≠ .started →
      ChanStep c k o ch { ch with active := none }

/-- A call that does nothing to the channels but to set the one it names. -/
theorem ChanStep.of_setChan {c c' : ChanRef} {k : Call} {ch : Dmachan} (hk : k.quiet = false)
    (ho : k.own = some c') (h : c' = c → ChanStep c k o (m.chan c) ch) :
    ChanStep c k o (m.chan c) ((m.setChan c' ch).chan c) := by
  by_cases hc : c' = c
  · rw [Men.setChan_chan, if_pos hc.symm]
    exact h hc
  · rw [Men.setChan_chan, if_neg fun h => hc h.symm]
    exact .foreign hk (by simp [ho, hc])

theorem fgStartTail_chan {w : StartWait} {hw : StartHw} {current : Tgid} {k : Call} {ret : Ret}
    (hk : k.Starts w current) (h : fgStartTail m w hw current = .ok (m', ret)) (c : ChanRef) :
    ChanStep c k (.ofStart w.chan ret) (m.chan c) (m'.chan c) := by
  have hq : k.quiet = false ∧ k.own = some w.chan := by cases hk <;> exact ⟨rfl, rfl⟩
  by_cases hc : w.chan = c
  · subst hc
    cases ret with
    | none => exact .startDone hk rfl (fgStartTail_done h)
    | some e => exact .startFailed hk rfl (fgStartTail_failed h)
  · rw [fgStartTail_other h fun hcc => hc hcc.symm]
    exact .foreign hq.1 (by simp [hq.2, hc])

theorem menCleanupMem_chan {hs : List HeadRef} (h : menCleanupMem m hs = .ok m') (c : ChanRef) :
    m'.chan c = m.chan c ∨
      (m.chan c).state ≠ .started ∧ m'.chan c = { m.chan c with active := none } := by
  refine menCleanupMem_induct (P := fun _ m' => m'.chan c = m.chan c ∨
    (m.chan c).state ≠ .started ∧ m'.chan c = { m.chan c with active := none })
    (fun {m₂ _ _ _} h₁ hchan => ?_) (.inl rfl) h
  rcases menReleaseBufHead_cases h₁ with ⟨_, hne⟩ | ⟨_, ⟨_, rfl⟩ | ⟨c', _, hst, rfl⟩⟩
  · exact absurd rfl hne
  · exact hchan
  · by_cases hc : c = c'
    · subst hc
      simp only [Men.setChan_chan, if_true]
      rcases hchan with he | ⟨hst', he⟩
      · exact .inr ⟨he ▸ hst, by rw [he]⟩
      · exact .inr ⟨hst', by rw [he]⟩
    · simpa [hc] using hchan

theorem call_freeHead {headnr : Nat} (h : call m (.freeHead headnr) = .ok (m', o)) :
    ∃ ret, menIoctlFreeVirtBuffer m headnr = (m', ret) := by
  simp only [call, Except.ok.injEq, Prod.mk.injEq] at h
  exact ⟨_, Prod.ext h.1 rfl⟩

theorem call_chan {k : Call} (h : call m k = .ok (m', o)) (c : ChanRef) :
    ChanStep c k o (m.chan c) (m'.chan c) := by
  cases hk : k.quiet with
  | true =>
    by_cases hf : ∀ ts len tag, k ≠ .irqFrame c ts len tag
    · exact .still hk (call_still hk hf h)
    · push Not at hf
      obtain ⟨ts, len, tag, rfl⟩ := hf
      obtain ⟨m₁, h₁, h⟩ := bind_ok.mp h
      cases h
      exact .frame (irqFrame_frame h₁).self
  | false =>
    cases k with
    | freeHead headnr =>
      obtain ⟨ret, h₁⟩ := call_freeHead h
      rcases menIoctlFreeVirtBuffer_cases h₁ with rfl | ⟨hd, m₁, _, h₂, rfl⟩
      · exact .foreign rfl (by simp [Call.own])
      · rcases menReleaseBufHead_cases h₂ with ⟨_, hne⟩ | ⟨_, ⟨_, rfl⟩ | ⟨c', _, hst, rfl⟩⟩
        · exact absurd rfl hne
        · exact .foreign rfl (by simp [Call.own])
        · by_cases hc : c = c'
          · subst hc
            simpa using ChanStep.released (.inl ⟨headnr, rfl⟩) hst
          · simpa [hc] using ChanStep.foreign (k := .freeHead headnr) rfl (by simp [Call.own])
    | startTail w hw current =>
      simp only [call] at h
      split_ifs at h
      obtain ⟨⟨m₁, ret⟩, h₁, h⟩ := bind_ok.mp h
      cases h
      exact fgStartTail_chan (.tail hw) h₁ c
    | startCancel w =>
      obtain ⟨⟨m₁, took⟩, h₁, h⟩ := bind_ok.mp h
      cases h
      obtain ⟨hw, rfl, rfl⟩ := fgStartCancel_ok.mp h₁
      refine .of_setChan rfl rfl fun hc => ?_
      subst hc
      exact .cancelled rfl hw
    | startResume w took =>
      obtain ⟨r, h₁, h⟩ := bind_ok.mp h
      rcases fgStartResume_cases h₁ with ⟨_, rfl⟩ | ⟨_, ⟨rfl, _, m₁, h₂, rfl⟩ | ⟨hn, rfl⟩⟩
      · cases h
        exact .resumeGone
      · cases h
        obtain ⟨hs, htm, rfl⟩ := menDmaCleanHalt_ok.mp h₂
        refine .of_setChan rfl rfl fun hc => ?_
        subst hc
        exact .resumeHalted rfl hs htm
      · cases h
        by_cases hc : w.chan = c
        · subst hc
          exact .resumed fun htk hs => hn ⟨htk, hs⟩
        · exact .foreign rfl (by simp [Call.own, hc])
    | startRest w hw current =>
      simp only [call] at h
      split_ifs at h
      · cases h
        exact .startBusy
      · obtain ⟨⟨m₁, ret⟩, h₁, h⟩ := bind_ok.mp h
        cases h
        exact fgStartTail_chan (.rest hw) h₁ c
    | cleanScan c' =>
      cases h
      refine .of_setChan rfl rfl fun hc => ?_
      subst hc
      exact .scanned
    | stop index =>
      simp only [call] at h
      split at h
      · cases h
        by_cases hc : index = c
        · subst hc
          exact .stopped .same
        · exact .foreign rfl (by simp [Call.own, hc])
      · rename_i c' hc'
        cases h
        obtain rfl : index = c' := by
          unfold menDmaChannel at hc'
          split_ifs at hc'
          exact Option.some.inj hc'
        by_cases hc : index = c
        · subst hc
          exact .stopped (menStopDma_chan m index index)
        · have hs : (menStopDma m index).chan c = m.chan c := by
            rcases menStopDma_cases m index with ⟨_, he⟩ | ⟨_, _, he⟩
            · rw [he]
            · rw [he, Men.setChan_chan, if_neg fun h => hc h.symm]
          rw [hs]
          exact .foreign rfl (by simp [Call.own, hc])
    | close owner current =>
      obtain ⟨⟨m₁, last⟩, h₁, h⟩ := bind_ok.mp h
      cases h
      exact .closed ((menableRelease_effect h₁).2 c)
    | cleanupMem =>
      obtain ⟨m₁, h₁, h⟩ := bind_ok.mp h
      cases h
      rcases menCleanupMem_chan h₁ c with he | ⟨hst, he⟩
      · rw [he]
        exact .foreign rfl (by simp [Call.own])
      · rw [he]
        exact .released (.inr rfl) hst
    | waitEnter c' img is32bit wid =>
      simp only [call] at h
      unfold menWaitDmaimgEnter at h
      dsimp only at h
      split_ifs at h with hg hs <;> cases h
      · by_cases hc : c' = c
        · subst hc
          exact .returned
        · exact .foreign rfl (by simp [Call.own, hc])
      · by_cases hc : c' = c
        · subst hc
          exact .returned
        · exact .foreign rfl (by simp [Call.own, hc])
      · refine .of_setChan rfl rfl fun hc => ?_
        subst hc
        exact .entered (not_not.mp hs) (by omega)
    | waitLeave c' wid =>
      obtain ⟨⟨m₁, ret⟩, h₁, h⟩ := bind_ok.mp h
      cases h
      unfold menWaitDmaimgLeave at h₁
      dsimp only at h₁
      split at h₁
      · cases h₁
      · rename_i w hw
        cases h₁
        refine .of_setChan rfl rfl fun hc => ?_
        subst hc
        exact .left w (by simpa using List.find?_some hw)
    | irqScan c' newFrames =>
      obtain ⟨⟨m₁, finish⟩, h₁, h⟩ := bind_ok.mp h
      cases h
      have hf := irqScan_frame h₁
      by_cases hc : c' = c
      · subst hc
        refine .irqScanned ?_ ?_
        · rcases irqScan_cases h₁ with ⟨ht, rfl, _⟩ | ⟨ht, rfl, _⟩
          · simpa using ht
          · simpa using ht
        · simpa [scanMarked] using hf.self
      · rw [hf.other c fun h => hc h.symm, scanMarked, Men.setChan_chan, if_neg fun h => hc h.symm]
        exact .foreign rfl (by simp [Call.own, hc])
    | irqRearm c' =>
      obtain ⟨m₁, h₁, h⟩ := bind_ok.mp h
      cases h
      rcases irqRearm_cases h₁ with he | ⟨_, rfl⟩
      · rw [he]
        by_cases hc : c' = c
        · subst hc
          exact .irqRearmed (m.chan c').timer
        · exact .foreign rfl (by simp [Call.own, hc])
      · refine .of_setChan rfl rfl fun hc => ?_
        subst hc
        exact .irqRearmed true
    | irqFinish c' =>
      cases h
      refine .of_setChan rfl rfl fun hc => ?_
      subst hc
      exact .irqFinished
    | timerExpire c' =>
      obtain ⟨m₁, h₁, h⟩ := bind_ok.mp h
      cases h
      obtain ⟨_, _, rfl⟩ := timerExpire_ok.mp h₁
      refine .of_setChan rfl rfl fun hc => ?_
      subst hc
      exact .timerExpired
    | timerRun c' =>
      obtain ⟨m₁, h₁, h⟩ := bind_ok.mp h
      cases h
      obtain ⟨_, rfl⟩ := timerRun_ok.mp h₁
      refine .of_setChan rfl rfl fun hc => ?_
      subst hc
      exact .timedOut
    | workTake c' =>
      obtain ⟨m₁, h₁, h⟩ := bind_ok.mp h
      cases h
      obtain ⟨_, _, rfl⟩ := workTake_ok.mp h₁
      refine .of_setChan rfl rfl fun hc => ?_
      subst hc
      exact .workTaken
    | workRun c' =>
      obtain ⟨m₁, h₁, h⟩ := bind_ok.mp h
      cases h
      obtain ⟨_, ⟨hs, rfl⟩ | ⟨hs, _, rfl⟩⟩ := workRun_ok.mp h₁
      · refine .of_setChan rfl rfl fun hc => ?_
        subst hc
        simpa [Outcome.ofHalt] using ChanStep.workIdle hs
      · refine .of_setChan rfl rfl fun hc => ?_
        subst hc
        simpa [Outcome.ofHalt, hs] using ChanStep.workHalted hs
    | _ => cases hk

/-- The calls that neither create, change nor remove heads and registered buffers. -/
def Call.keepsBoard : Call → Bool
  | .createHead .. | .addBuffer .. | .delBuffer .. | .destroySb _ | .freeHead _ | .destroyHead _
  | .cleanupMem | .startTail .. | .startRest .. => false
  | _ => true

structure SameBoard (m m' : Men) : Prop where
  head : m'.head = m.head
  headsList : m'.headsList = m.headsList
  doomed : m'.doomed = m.doomed
  doomedHeads : m'.doomedHeads = m.doomedHeads
  index : ∀ b, (m'.buf b).index = (m.buf b).index

theorem SameBoard.refl (m : Men) : SameBoard m m := ⟨rfl, rfl, rfl, rfl, fun _ => rfl⟩

theorem SameBoard.of_onChan {R : Dmachan → Dmachan → Prop} {c : ChanRef} (h : OnChan R c m m') :
    SameBoard m m' := ⟨h.head, h.headsList, h.doomed, h.doomedHeads, h.index⟩

theorem SameBoard.setChan (m : Men) (c : ChanRef) (ch : Dmachan) : SameBoard m (m.setChan c ch) :=
  ⟨rfl, rfl, rfl, rfl, fun _ => rfl⟩

theorem call_sameBoard {k : Call} (hk : k.keepsBoard = true) (h : call m k = .ok (m', o)) :
    SameBoard m m' := by
  cases k with
  | start fgr tsize =>
    cases call_start h
    exact .refl _
  | startCancel w =>
    cases call_startCancel h
    exact .setChan ..
  | startResume w took =>
    rcases call_startResume h with rfl | ⟨_, h₁⟩
    · exact .refl _
    · obtain ⟨_, _, rfl⟩ := menDmaCleanHalt_ok.mp h₁
      exact .setChan ..
  | cleanScan c =>
    cases h
    exact .setChan ..
  | stop index =>
    simp only [call] at h
    split at h <;> cases h
    · exact .refl _
    · obtain ⟨chan, he⟩ := menStopDma_board m ‹_›
      rw [he]
      exact ⟨rfl, rfl, rfl, rfl, fun _ => rfl⟩
  | queueCheck headIdx bufIdx =>
    rcases call_queueCheck h with rfl | ⟨b, rfl⟩
    · exact .refl _
    · exact .of_onChan (MoveFrame.modBuf (c := 0) rfl)
  | openFile current alloc =>
    obtain ⟨_, _, _, rfl⟩ := call_openFile h
    exact ⟨rfl, rfl, rfl, rfl, fun _ => rfl⟩
  | close owner current =>
    obtain ⟨⟨m₁, last⟩, h₁, h⟩ := bind_ok.mp h
    cases h
    obtain ⟨_, _, _, _, rfl⟩ := (menableRelease_effect h₁).1
    exact ⟨rfl, rfl, rfl, rfl, fun _ => rfl⟩
  | waitEnter c img is32bit wid =>
    simp only [call] at h
    unfold menWaitDmaimgEnter at h
    dsimp only at h
    split_ifs at h <;> cases h
    · exact .refl _
    · exact .refl _
    · exact .setChan ..
  | waitLeave c wid =>
    obtain ⟨⟨m₁, ret⟩, h₁, h⟩ := bind_ok.mp h
    cases h
    unfold menWaitDmaimgLeave at h₁
    dsimp only at h₁
    split at h₁
    · cases h₁
    · cases h₁
      exact .setChan ..
  | irqFrame c ts len tag =>
    obtain ⟨m₁, h₁, h⟩ := bind_ok.mp h
    cases h
    exact .of_onChan (irqFrame_frame h₁)
  | irqScan c newFrames =>
    obtain ⟨⟨m₁, finish⟩, h₁, h⟩ := bind_ok.mp h
    cases h
    have hf := irqScan_frame h₁
    exact ⟨hf.head, hf.headsList, hf.doomed, hf.doomedHeads, hf.index⟩
  | irqRearm c =>
    obtain ⟨m₁, h₁, h⟩ := bind_ok.mp h
    cases h
    rcases irqRearm_cases h₁ with rfl | ⟨_, rfl⟩
    · exact .refl _
    · exact .setChan ..
  | irqFinish c | irqLost c n | irqOverflow c =>
    cases h
    exact .setChan ..
  | timerExpire c =>
    obtain ⟨m₁, h₁, h⟩ := bind_ok.mp h
    cases h
    obtain ⟨_, _, rfl⟩ := timerExpire_ok.mp h₁
    exact .setChan ..
  | timerRun c =>
    obtain ⟨m₁, h₁, h⟩ := bind_ok.mp h
    cases h
    obtain ⟨_, rfl⟩ := timerRun_ok.mp h₁
    exact .setChan ..
  | workTake c =>
    obtain ⟨m₁, h₁, h⟩ := bind_ok.mp h
    cases h
    obtain ⟨_, _, rfl⟩ := workTake_ok.mp h₁
    exact .setChan ..
  | workRun c =>
    obtain ⟨m₁, h₁, h⟩ := bind_ok.mp h
    cases h
    obtain ⟨_, ⟨_, rfl⟩ | ⟨_, _, rfl⟩⟩ := workRun_ok.mp h₁
    · exact .setChan ..
    · exact .setChan ..
  | queueAct | unlock | getFrame | queueMax =>
    rcases call_lists rfl h with rfl | ⟨c, hl⟩
    · exact .refl _
    · exact .of_onChan hl.frame
  | _ => cases hk

theorem callStep_ok {k : Call} : callStep m k = .ok m' ↔ ∃ o, call m k = .ok (m', o) := by
  unfold callStep
  rw [bind_ok]
  constructor
  · rintro ⟨⟨m₁, o⟩, h₁, h⟩
    cases h
    exact ⟨o, h₁⟩
  · rintro ⟨o, h⟩
    exact ⟨(m', o), h, rfl⟩

section Driver
variable {s s' : Sys}

theorem step_run {k : Call} (h : step s (.run k) = .ok s') : ∃ m o, call s.men k = .ok (m, o) ∧
    s.ready k = true ∧ s' = s.next k m o := by
  simp only [step] at h
  split_ifs at h with hr
  obtain ⟨⟨m, o⟩, h₁, h⟩ := bind_ok.mp h
  cases h
  exact ⟨m, o, h₁, hr, rfl⟩

theorem step_irqEnter {c : ChanRef} {newFrames : Nat} (h : step s (.irqEnter c newFrames) = .ok s') :
    s.chanFree c = true ∧ (s.men.chan c).active ≠ none ∧
      s' = { s with irq := Function.update s.irq c (some (.frames newFrames newFrames)) } := by
  simp only [step, Bool.and_eq_true, decide_eq_true_eq] at h
  split_ifs at h with hr
  cases h
  exact ⟨hr.1, hr.2, rfl⟩

/-- What every call keeps under a guard, the driver keeps under that guard. -/
theorem step_invariant {P : Men → Prop} {G : Men → Call → Prop}
    (hcall : ∀ m k m', G m k → P m → callStep m k = .ok m' → P m') {e : Event}
    (hG : ∀ k, e = .run k → G s.men k) (hP : P s.men) (h : step s e = .ok s') : P s'.men := by
  cases e with
  | run k =>
    obtain ⟨m, o, h₁, _, rfl⟩ := step_run h
    exact hcall _ k _ (hG k rfl) hP (callStep_ok.mpr ⟨o, h₁⟩)
  | irqEnter c newFrames =>
    obtain ⟨_, _, rfl⟩ := step_irqEnter h
    exact hP

end Driver

end MenableDriver
