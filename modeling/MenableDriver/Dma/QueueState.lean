import MenableDriver.Dma.Locks

/-!
# Buffers are queued to a running engine

`men_dma_queue_max` does not look at the state of its channel. A stop leaves nothing
to transfer, so a channel that is stopping, or has been stopped, gets no buffer. A
timeout leaves the frames that were still to come: after it a buffer that is unlocked,
or an interrupt that was under way, feeds an engine that was aborted.
-/

namespace MenableDriver

set_option autoImplicit false

open Transition

variable {m m' : Men} {s s' t : Sys} {o : Outcome} {c : ChanRef}

def Dmachan.FedRunning (ch : Dmachan) : Prop :=
  ∀ st b, .queued st b ∈ ch.log → st = .starting ∨ st = .started

def QueuesRunning (s : Sys) : Prop := ∀ c, (s.men.chan c).FedRunning

/-- `men_dma_queue_max` finds something to queue, or the dummy has to stand in. -/
def QueuesBuffer (m : Men) (c : ChanRef) : Prop :=
  ((m.chan c).count .hot : Int) < (m.chan c).transferTodo ∧
    if (m.chan c).mode = DMA_HANDSHAKEMODE ∧ (m.chan c).count .ready = 0 then
      (m.chan c).count .hot = 0 ∧ (m.chan c).active ≠ none
    else numBufsToQueue m c ≠ 0

/-- A buffer that comes back is queued at once. -/
def RunsLow (m : Men) (c : ChanRef) : Prop :=
  (m.chan c).count .hot ≤ 1 ∧ ((m.chan c).count .hot : Int) < (m.chan c).transferTodo ∧
    numFreeInDmaFifo m c ≠ 0

/-- The unlock request gives a buffer of the head back. -/
def GivesBack (m : Men) (h : HeadRef) (index : Int) : Prop :=
  ∃ b, (index = -1 ∧ some b ∈ (m.head h).bufs ∨ meGetSubBufByHead m h index = some b) ∧
    ((m.buf (.sb b)).listname = .grabbed ∨ (m.buf (.sb b)).listname = .noList)

/-- A stopped channel has frames left, and the event queues a buffer for them. -/
def FeedsStopped (s : Sys) : Event → Prop
  | .run (.irqScan c newFrames) =>
    (s.men.chan c).state = .stopped ∧ newFrames ≠ 0 ∧ QueuesBuffer s.men c
  | .run (.unlock headnr index) =>
    ∃ h c, meGetBufHead s.men headnr = some h ∧ (s.men.head h).chan = some c ∧
      (s.men.chan c).state = .stopped ∧ RunsLow s.men c ∧ GivesBack s.men h index
  | _ => False

/-- No buffer was handed to the engine. -/
def Dmachan.Unfed (ch ch' : Dmachan) : Prop := ∀ st b, .queued st b ∈ ch'.log → .queued st b ∈ ch.log

/-- The log got longer, by no queued buffer. -/
def Dmachan.Unqueued (ch ch' : Dmachan) : Prop :=
  ∃ es, ch'.log = es ++ ch.log ∧ ∀ st b, HwEvent.queued st b ∉ es

namespace Dmachan.Unqueued

variable {ch ch' ch'' : Dmachan}

theorem of_log (h : ch'.log = ch.log) : ch.Unqueued ch' := ⟨[], h, by simp⟩

theorem of_bound {room : Nat} {bound : Int} : ch.Unqueued (ch.record (.bound room bound)) :=
  ⟨[.bound room bound], rfl, by simp⟩

theorem trans (h : ch.Unqueued ch') (h' : ch'.Unqueued ch'') : ch.Unqueued ch'' := by
  obtain ⟨es, hes, hno⟩ := h
  obtain ⟨es', hes', hno'⟩ := h'
  refine ⟨es' ++ es, by rw [hes', hes, List.append_assoc], fun st b hb => ?_⟩
  rcases List.mem_append.mp hb with hb | hb
  · exact hno' st b hb
  · exact hno st b hb

theorem unfed (h : ch.Unqueued ch') : ch.Unfed ch' := by
  obtain ⟨es, hes, hno⟩ := h
  intro st b hb
  rw [hes] at hb
  exact (List.mem_append.mp hb).resolve_left (hno st b)

end Dmachan.Unqueued

/-- It leaves a note about its bound at most. -/
theorem menDmaQueueMax_idle (hq : ¬ QueuesBuffer m c) (h : menDmaQueueMax m c = .ok m') :
    m' = m ∨ ∃ room bound, m' = m.setChan c ((m.chan c).record (.bound room bound)) := by
  unfold menDmaQueueMax at h
  dsimp only at h
  split_ifs at h with ht hh h0 hb
  · split at h
    · rename_i hd hact
      exact absurd ⟨ht, by rw [if_pos hh]; exact ⟨h0, by simp [hact]⟩⟩ hq
    · cases h
      exact .inl rfl
  · cases h
    exact .inl rfl
  · have hzero : numBufsToQueue m c = 0 := by
      by_contra hne
      exact hq ⟨ht, by rw [if_neg hh]; exact hne⟩
    rw [hzero] at h
    cases h
    exact .inr ⟨_, _, rfl⟩
  · cases h
    exact .inl rfl

theorem menDmaQueueMax_unqueued (hq : ¬ QueuesBuffer m c) (h : menDmaQueueMax m c = .ok m') :
    (m.chan c).Unqueued (m'.chan c) := by
  rcases menDmaQueueMax_idle hq h with rfl | ⟨room, bound, rfl⟩
  · exact .of_log rfl
  · rw [Men.setChan_chan, if_pos rfl]
    exact .of_bound

theorem not_queuesBuffer_of_done (h : (m.chan c).transferTodo ≤ 0) : ¬ QueuesBuffer m c := by
  rintro ⟨ht, _⟩
  omega

/-- A buffer that comes back is filed, and then some may be queued. -/
theorem menUnblockBuffer_files {sb : Option BufRef} (h : menUnblockBuffer m c sb = .ok m') :
    m' = m ∨ ∃ b m₁, sb = some b ∧ ((m.buf b).listname = .grabbed ∨ (m.buf b).listname = .noList) ∧
      FileFrame c m m₁ ∧ (m₁.chan c).count .hot = (m.chan c).count .hot ∧ queueIfLow m₁ c = .ok m' := by
  unfold menUnblockBuffer at h
  split at h
  · cases h
    exact .inl rfl
  · rename_i b
    split at h
    · cases h
      exact .inl rfl
    · cases h
      exact .inl rfl
    · cases h
      exact .inl rfl
    · rename_i hn
      obtain ⟨ch, hch, h⟩ := bind_ok.mp h
      obtain ⟨_, rfl⟩ := Dmachan.listMoveTail_ok.mp hch
      refine .inr ⟨b, _, rfl, .inl hn, (FileFrame.modBuf rfl).trans (FileFrame.setChan ⟨_, _, rfl⟩), ?_, h⟩
      simp [Dmachan.decCount]
    · rename_i hn
      refine .inr ⟨b, _, rfl, .inr hn, (FileFrame.modBuf rfl).trans (FileFrame.setChan ⟨_, _, rfl⟩), ?_, h⟩
      simp [Dmachan.decCount, Dmachan.listAddTail]

theorem FileFrame.log (h : FileFrame c m m') : (m'.chan c).log = (m.chan c).log := by
  obtain ⟨_, _, he⟩ := h.self
  rw [he]

theorem numFreeInDmaFifo_congr (hf : m'.dmaFifoLength = m.dmaFifoLength)
    (hh : (m'.chan c).count .hot = (m.chan c).count .hot) : numFreeInDmaFifo m' c = numFreeInDmaFifo m c := by
  unfold numFreeInDmaFifo
  rw [hf, hh]

theorem runsLow_congr (hf : MoveFrame c m m') (hh : (m'.chan c).count .hot = (m.chan c).count .hot) :
    RunsLow m' c ↔ RunsLow m c := by
  unfold RunsLow
  rw [numFreeInDmaFifo_congr hf.dmaFifoLength hh, hh, hf.self.still.transferTodo]

theorem queueIfLow_idle (hl : ¬ RunsLow m c) (h : queueIfLow m c = .ok m') :
    m' = m ∨ ∃ room bound, m' = m.setChan c ((m.chan c).record (.bound room bound)) := by
  unfold queueIfLow at h
  split_ifs at h with hlow
  · refine menDmaQueueMax_idle (fun hq => hl ⟨hlow.1, hq.1, ?_⟩) h
    obtain ⟨ht, hq⟩ := hq
    rw [if_neg fun hh => by omega] at hq
    intro hroom
    apply hq
    simp only [numBufsToQueue, hroom]
    omega
  · cases h
    exact .inl rfl

theorem menUnblockBuffer_idle {sb : Option BufRef} (hl : ¬ RunsLow m c)
    (h : menUnblockBuffer m c sb = .ok m') : (m.chan c).Unqueued (m'.chan c) ∧ ¬ RunsLow m' c := by
  rcases menUnblockBuffer_files h with rfl | ⟨b, m₁, _, _, hf, hhot, h₁⟩
  · exact ⟨.of_log rfl, hl⟩
  · have hl₁ : ¬ RunsLow m₁ c := fun h => hl ((runsLow_congr hf.move hhot).mp h)
    have hu : (m.chan c).Unqueued (m₁.chan c) := .of_log hf.log
    rcases queueIfLow_idle hl₁ h₁ with rfl | ⟨room, bound, rfl⟩
    · exact ⟨hu, hl₁⟩
    · refine ⟨hu.trans (by simpa using .of_bound), fun h => hl₁ ?_⟩
      exact (runsLow_congr (MoveFrame.setChan (.record (e := .bound _ _) trivial))
        (by simp [Dmachan.record])).mp h

theorem unblockAll_idle {sbs : List (Option SbRef)} (hl : ¬ RunsLow m c) (h : unblockAll m c sbs = .ok m') :
    (m.chan c).Unqueued (m'.chan c) := by
  induction sbs generalizing m with
  | nil =>
    cases h
    exact .of_log rfl
  | cons sb sbs ih =>
    obtain ⟨m₁, h₁, h⟩ := bind_ok.mp h
    obtain ⟨hu, hl₁⟩ := menUnblockBuffer_idle hl h₁
    exact hu.trans (ih hl₁ h)

/-- Nothing comes back: every buffer is queued, free or ready. -/
theorem unblockAll_nothing {sbs : List (Option SbRef)}
    (hn : ∀ b, some b ∈ sbs → (m.buf (.sb b)).listname ≠ .grabbed ∧ (m.buf (.sb b)).listname ≠ .noList)
    (h : unblockAll m c sbs = .ok m') : m' = m := by
  induction sbs with
  | nil =>
    cases h
    rfl
  | cons sb sbs ih =>
    obtain ⟨m₁, h₁, h₂⟩ := bind_ok.mp h
    rcases menUnblockBuffer_files h₁ with rfl | ⟨b, _, hb, hname, _⟩
    · exact ih (fun b hb => hn b (List.mem_cons_of_mem _ hb)) h₂
    · obtain ⟨b', hb', rfl⟩ := Option.map_eq_some_iff.mp hb
      obtain ⟨h1, h2⟩ := hn b' (by simp [hb'])
      rcases hname with hname | hname
      · exact absurd hname h1
      · exact absurd hname h2

theorem queueRequest_congr {headIdx bufIdx : Nat} (hh : m'.head = m.head) (hl : m'.headsList = m.headsList) :
    queueRequest m' headIdx bufIdx = queueRequest m headIdx bufIdx := by
  unfold queueRequest meGetBufHead meGetSubBufByHead
  rw [hh, hl]

/-- A stop leaves nothing to transfer, also one that the handler is about to make, and
who is about to queue a buffer has seen a channel that is not stopped. -/
structure StopsDone (s : Sys) : Prop extends Locked s where
  stopping : ∀ c, (s.men.chan c).state = .stopping → (s.men.chan c).transferTodo ≤ 0
  finishing : ∀ c, s.irq c = some (.scanned true) → (s.men.chan c).transferTodo ≤ 0
  queueing : ∀ headIdx bufIdx h b c, s.hold = some (.queueing headIdx bufIdx) →
    queueRequest s.men headIdx bufIdx = some (h, b) → (s.men.head h).chan = some c →
    (s.men.chan c).state ≠ .stopped

theorem chanStep_todo {k : Call} {ch ch' : Dmachan} (hk : ∀ w current, k.Starts w current → w.chan ≠ c)
    (h : ChanStep c k o ch ch') (ht : ch.transferTodo ≤ 0) : ch'.transferTodo ≤ 0 := by
  cases h with
  | still _ hq => exact hq.todo ht
  | frame hq => exact hq.todo ht
  | startDone hs hw _ => exact absurd hw (hk _ _ hs)
  | startFailed hs hw _ => exact absurd hw (hk _ _ hs)
  | resumeHalted | workHalted => exact Int.le_refl 0
  | stopped h | closed h =>
    cases h with
    | same => exact ht
    | stopped => exact Int.le_refl 0
  | irqScanned _ h => exact h.quiet.todo ht
  | _ => exact ht

theorem call_stopping {k : Call} (hi : StopsDone s) (hr : s.ready k = true)
    (hcall : call s.men k = .ok (m, o)) (hst : (m.chan c).state = .stopping) :
    (m.chan c).transferTodo ≤ 0 := by
  have hs := call_chan hcall c
  have old := hi.stopping c
  generalize hch : s.men.chan c = ch at hs old
  generalize m.chan c = ch' at hs hst ⊢
  cases hs with
  | still _ hq => exact hq.todo (old (hq.control.state.symm.trans hst))
  | frame hq => exact hq.todo (old (hq.control.state.symm.trans hst))
  | startDone _ _ h => exact absurd (h.state.symm.trans hst) (by simp)
  | startFailed _ _ h => exact absurd (h.state.symm.trans hst) (by simp)
  | resumeHalted | timedOut | workHalted => cases hst
  | stopped h | closed h =>
    cases h with
    | same => exact old hst
    | stopped => exact Int.le_refl 0
  | irqScanned _ h => exact h.quiet.todo (old (h.quiet.control.state.symm.trans hst))
  | irqFinished =>
    simp only [Sys.ready, decide_eq_true_eq] at hr
    exact hch ▸ hi.finishing c hr
  | _ => exact old hst

theorem nextIrq_scanned {k : Call} {finish : Bool} (h : s.nextIrq k o c = some (.scanned finish)) :
    s.irq c = some (.scanned finish) ∨ (∃ n, k = .irqScan c n) ∧ o = .scanned finish := by
  cases k with
  | irqFrame c' ts len tag =>
    cases hpc : s.irq c' with
    | none => exact .inl (by simpa [Sys.nextIrq, hpc] using h)
    | some pc =>
      cases pc with
      | scanned finish' => exact .inl (by simpa [Sys.nextIrq, hpc] using h)
      | frames left n =>
        cases left with
        | zero => exact .inl (by simpa [Sys.nextIrq, hpc] using h)
        | succ left =>
          by_cases hc : c = c'
          · simp [Sys.nextIrq, hpc, hc] at h
          · exact .inl (by simpa [Sys.nextIrq, hpc, hc] using h)
  | irqScan c' n =>
    cases o with
    | scanned finish' =>
      by_cases hc : c = c'
      · subst hc
        exact .inr ⟨⟨n, rfl⟩, by simpa [Sys.nextIrq] using h⟩
      · exact .inl (by simpa [Sys.nextIrq, hc] using h)
    | _ => exact .inl h
  | irqRearm c' | irqFinish c' =>
    by_cases hc : c = c'
    · simp [Sys.nextIrq, hc] at h
    · exact .inl (by simpa [Sys.nextIrq, hc] using h)
  | _ => exact .inl h

theorem call_finishing {k : Call} (hi : StopsDone s) (hr : s.ready k = true)
    (hcall : call s.men k = .ok (m, o)) (hirq : s.nextIrq k o c = some (.scanned true)) :
    (m.chan c).transferTodo ≤ 0 := by
  rcases nextIrq_scanned hirq with hold | ⟨⟨n, rfl⟩, rfl⟩
  · exact chanStep_todo (fun w current hk => start_not_irq hi.toLocked hr hold hk) (call_chan hcall c)
      (hi.finishing c hold)
  · have hs := call_chan hcall c
    generalize s.men.chan c = ch at hs
    generalize m.chan c = ch' at hs ⊢
    cases hs with
    | still hk => cases hk
    | foreign _ ho => exact absurd rfl ho
    | irqScanned hf h => exact h.quiet.todo (hf.mp rfl)
    | released hk => rcases hk with ⟨n, hk⟩ | hk <;> cases hk

/-- The calls that can be made while somebody else holds the heads. -/
def Call.beside : Call → Bool
  | .destroySb _ | .destroyHead _ | .openFile .. | .waitEnter .. | .waitLeave .. | .timerExpire _
  | .workTake _ | .startCancel _ | .irqFrame .. | .irqScan .. | .irqRearm _ | .irqFinish _ | .irqLost ..
  | .irqOverflow _ => true
  | _ => false

theorem nextHold_queueing {k : Call} {headIdx bufIdx : Nat} (hr : s.ready k = true) (ho : OutcomeOf k o)
    (h : s.nextHold k o = some (.queueing headIdx bufIdx)) :
    k = .queueCheck headIdx bufIdx ∧ o = .queueing headIdx bufIdx ∨
      s.hold = some (.queueing headIdx bufIdx) ∧ k.beside = true := by
  cases ho with
  | done =>
    cases k with
    | cleanScan c =>
      simp only [Sys.nextHold] at h
      split at h <;> cases h
    | startTail | startRest | queueAct | cleanupMem => cases h
    | destroySb | destroyHead | openFile | waitEnter | waitLeave | timerExpire | workTake | startCancel
    | irqFrame | irqScan | irqRearm | irqFinish | irqLost | irqOverflow => exact .inr ⟨h, rfl⟩
    | queueMax => cases hr
    | _ =>
      change s.hold = _ at h
      simp [Sys.ready, Sys.headsFree, h] at hr
  | waiting =>
    change s.hold = _ at h
    simp [Sys.ready, Sys.headsFree, h] at hr
  | cancelled | scanned => exact .inr ⟨h, rfl⟩
  | queueing =>
    cases h
    exact .inl ⟨rfl, rfl⟩
  | _ => cases h

theorem beside_heads {k : Call} (hk : k.beside = true) (h : call m k = .ok (m', o)) :
    m'.head = m.head ∧ m'.headsList = m.headsList := by
  cases hb : k.keepsBoard with
  | true =>
    have hs := call_sameBoard hb h
    exact ⟨hs.head, hs.headsList⟩
  | false =>
    cases k with
    | destroySb b =>
      obtain ⟨m₁, h₁, h⟩ := bind_ok.mp h
      cases h
      obtain ⟨_, rfl⟩ := menDestroySb_ok.mp h₁
      exact ⟨rfl, rfl⟩
    | destroyHead hd =>
      obtain ⟨m₁, h₁, h⟩ := bind_ok.mp h
      cases h
      obtain ⟨_, rfl⟩ := menFreeBufHead_ok.mp h₁
      exact ⟨rfl, rfl⟩
    | createHead | addBuffer | delBuffer | freeHead | cleanupMem | startTail | startRest => cases hk
    | _ => cases hb

theorem beside_state {k : Call} {ch ch' : Dmachan} (hk : k.beside = true) (h : ChanStep c k o ch ch')
    (hst : ch'.state = .stopped) : ch.state = .stopped := by
  cases h with
  | still _ hq => exact hq.control.state.symm.trans hst
  | frame hq => exact hq.control.state.symm.trans hst
  | startDone hs | startFailed hs => cases hs <;> cases hk
  | irqScanned _ h => exact h.quiet.control.state.symm.trans hst
  | released hs => rcases hs with ⟨n, rfl⟩ | rfl <;> cases hk
  | irqFinished => cases hst
  | resumeHalted | timedOut | workHalted | stopped | closed => cases hk
  | _ => exact hst

theorem call_queueing {k : Call} {headIdx bufIdx : Nat} {h : HeadRef} {b : SbRef} (hi : StopsDone s)
    (hr : s.ready k = true) (hcall : call s.men k = .ok (m, o))
    (hh : s.nextHold k o = some (.queueing headIdx bufIdx))
    (hq : queueRequest m headIdx bufIdx = some (h, b)) (hl : (m.head h).chan = some c) :
    (m.chan c).state ≠ .stopped := by
  rcases nextHold_queueing hr (call_outcome hcall) hh with ⟨rfl, rfl⟩ | ⟨hold, hk⟩
  · simp only [call] at hcall
    split at hcall
    · cases hcall
    · cases hcall
    · rename_i c' b' hc
      cases hcall
      obtain ⟨h', hq', hl', hst, _⟩ := menQueueBufferCheck_active hc
      rw [hq] at hq'
      cases hq'
      rw [hl] at hl'
      cases hl'
      exact hst
  · obtain ⟨hhd, hlist⟩ := beside_heads hk hcall
    rw [queueRequest_congr hhd hlist] at hq
    rw [hhd] at hl
    exact fun hst => hi.queueing headIdx bufIdx h b c hold hq hl (beside_state hk (call_chan hcall c) hst)

theorem step_stopsDone {e : Event} (hi : StopsDone s) (h : step s e = .ok t) : StopsDone t := by
  have hlock := step_locked hi.toLocked h
  cases e with
  | irqEnter c newFrames =>
    obtain ⟨_, _, rfl⟩ := step_irqEnter h
    refine ⟨hlock, hi.stopping, fun c' hc => ?_, hi.queueing⟩
    by_cases hcc : c' = c
    · simp [hcc] at hc
    · exact hi.finishing c' (by simpa [hcc] using hc)
  | run k =>
    obtain ⟨m, o, hcall, hr, rfl⟩ := step_run h
    exact ⟨hlock, fun c hst => call_stopping hi hr hcall hst, fun c hirq => call_finishing hi hr hcall hirq,
      fun headIdx bufIdx h b c hh hq hl => call_queueing hi hr hcall hh hq hl⟩

theorem moveHotTake_log {b : BufRef} (h : moveHotTake m c b = .ok m') :
    (m'.chan c).log = (m.chan c).log := by
  unfold moveHotTake at h
  dsimp only at h
  split_ifs at h
  · obtain ⟨ch, hch, h⟩ := bind_ok.mp h
    obtain ⟨_, rfl⟩ := Dmachan.listDel_ok.mp hch
    cases h
    simp
  · obtain ⟨ch, hch, h⟩ := bind_ok.mp h
    obtain ⟨_, rfl⟩ := Dmachan.listMoveTail_ok.mp hch
    cases h
    simp [Men.setListname, Dmachan.incCount]

theorem menMoveHot_unqueued {ts : Nat} {sb : Option BufRef} (h : menMoveHot m c ts = .ok (m', sb)) :
    (m.chan c).Unqueued (m'.chan c) := by
  unfold menMoveHot at h
  dsimp only at h
  split_ifs at h
  · cases h
    exact .of_log (by simp)
  · obtain ⟨b, _, h⟩ := bind_ok.mp h
    obtain ⟨m₁, h₁, h⟩ := bind_ok.mp h
    cases h
    refine Dmachan.Unqueued.trans (.of_log (moveHotTake_log h₁)) ⟨[.returned b], ?_, by simp⟩
    simp [Dmachan.record, Dmachan.decCount]
  · cases h
    exact .of_log (by simp)

theorem irqFrame_unqueued {ts len tag : Nat} (h : irqFrame m c ts len tag = .ok m') :
    (m.chan c).Unqueued (m'.chan c) := by
  obtain ⟨⟨m₁, sb⟩, h₁, h⟩ := bind_ok.mp h
  have hu := menMoveHot_unqueued h₁
  cases sb with
  | none =>
    cases h
    exact hu
  | some b =>
    dsimp only at h
    split_ifs at h
    · cases h
      exact hu
    · cases h
      exact hu

theorem menQueueBufferMove_unqueued {b : SbRef} (ht : (m.chan c).transferTodo ≤ 0)
    (h : menQueueBufferMove m c b = .ok m') : (m.chan c).Unqueued (m'.chan c) := by
  obtain ⟨ch, hch, h⟩ := bind_ok.mp h
  obtain ⟨_, rfl⟩ := Dmachan.listMoveTail_ok.mp hch
  refine Dmachan.Unqueued.trans (.of_log ?_) (menDmaQueueMax_unqueued (not_queuesBuffer_of_done ?_) h)
  · simp [Men.setListname, Dmachan.incCount, Dmachan.decCount]
  · simpa [Men.setListname, Dmachan.incCount, Dmachan.decCount] using ht

theorem irqScan_unqueued {newFrames : Nat} {finish : Bool} (hq : ¬ (newFrames ≠ 0 ∧ QueuesBuffer m c))
    (h : irqScan m c newFrames = .ok (m', finish)) : (m.chan c).Unqueued (m'.chan c) := by
  have hmark : (m.chan c).Unqueued ((scanMarked m c).chan c) := .of_log (by simp [scanMarked])
  rcases irqScan_cases h with ⟨_, _, rfl | ⟨hn, h₁⟩⟩ | ⟨_, _, rfl⟩
  · exact hmark
  · refine hmark.trans (menDmaQueueMax_unqueued (fun hb => hq ⟨hn, ?_⟩) h₁)
    simpa [QueuesBuffer, numBufsToQueue, numFreeInDmaFifo, scanMarked] using hb
  · exact hmark

/-- A stopping channel, and one that is stopped and keeps to the guard, gets no buffer. -/
theorem listCall_unqueued {k : Call} (hi : StopsDone s) (hr : s.ready k = true)
    (hG : ¬ FeedsStopped s (.run k)) (hst : (s.men.chan c).state = .stopping ∨ (s.men.chan c).state = .stopped)
    (h : ListCall s.men m c k) : (s.men.chan c).Unqueued (m.chan c) := by
  have low : RunsLow s.men c → (s.men.chan c).state = .stopped := fun hlow => hst.resolve_left fun hs => by
    have := hi.stopping c hs
    have := hlow.2.1
    omega
  cases h with
  | act hq hl h =>
    simp only [Sys.ready, decide_eq_true_eq] at hr
    have hne := hi.queueing _ _ _ _ _ hr hq hl
    exact menQueueBufferMove_unqueued (hi.stopping c (hst.resolve_right hne)) h
  | @unlockAll headnr h hh hl h₁ =>
    by_cases hlow : RunsLow s.men c
    · have hn : ¬ GivesBack s.men h (-1) := fun hg => hG ⟨h, c, hh, hl, low hlow, hlow, hg⟩
      rw [unblockAll_nothing (fun b hb => ?_) h₁]
      · exact .of_log rfl
      · exact ⟨fun hnm => hn ⟨b, .inl ⟨rfl, hb⟩, .inl hnm⟩, fun hnm => hn ⟨b, .inl ⟨rfl, hb⟩, .inr hnm⟩⟩
    · exact unblockAll_idle hlow h₁
  | @unlock headnr index h b hh hl hb h₁ =>
    by_cases hlow : RunsLow s.men c
    · rcases menUnblockBuffer_files h₁ with he | ⟨b', _, he, hname, _⟩
      · rw [he]
        exact .of_log rfl
      · cases he
        exact absurd ⟨h, c, hh, hl, low hlow, hlow, b, .inr hb, hname⟩ hG
    · exact (menUnblockBuffer_idle hlow h₁).1
  | getLast _ _ h => exact .of_log (menLastBlocked_frame h).log
  | getNext _ _ h => exact .of_log (menNextBlocked_frame h).log
  | queueMax => cases hr

theorem Dmachan.LogGrows.fedRunning {ch ch' : Dmachan} (h : ch.LogGrows ch') (hf : ch.FedRunning)
    (hst : ch.state = .starting ∨ ch.state = .started) : ch'.FedRunning := by
  obtain ⟨es, hes, hall⟩ := h
  intro st b hb
  rw [hes, List.mem_append] at hb
  rcases hb with hb | hb
  · exact (hall _ hb : st = ch.state) ▸ hst
  · exact hf st b hb

theorem Dmachan.Unfed.fedRunning {ch ch' : Dmachan} (h : ch.Unfed ch') (hf : ch.FedRunning) :
    ch'.FedRunning := fun st b hb => hf st b (h st b hb)

/-- A call that may feed the channel does so while it runs, or not at all. -/
theorem fedRunning_of_log {ch ch' : Dmachan} (hlog : ch.LogGrows ch') (hf : ch.FedRunning)
    (hu : (ch.state = .stopping ∨ ch.state = .stopped) → ch.Unfed ch') : ch'.FedRunning := by
  cases hst : ch.state with
  | starting => exact hlog.fedRunning hf (.inl hst)
  | started => exact hlog.fedRunning hf (.inr hst)
  | stopping => exact (hu (.inl hst)).fedRunning hf
  | stopped => exact (hu (.inr hst)).fedRunning hf

theorem Dmachan.StartLog.fedRunning {ch ch' : Dmachan} (h : ch.StartLog ch') (hf : ch.FedRunning) :
    ch'.FedRunning := by
  intro st b hb
  rcases h st b hb with hb | hst
  · exact hf st b hb
  · exact .inl hst

theorem call_irqFrame {ts len tag : Nat} {c' : ChanRef} (h : call m (.irqFrame c' ts len tag) = .ok (m', o)) :
    irqFrame m c' ts len tag = .ok m' := by
  obtain ⟨m₁, h₁, h⟩ := bind_ok.mp h
  cases h
  exact h₁

theorem quiet_unqueued {k : Call} (hi : StopsDone s) (hr : s.ready k = true)
    (hcall : call s.men k = .ok (m, o)) (hG : ¬ FeedsStopped s (.run k)) (hk : k.quiet = true)
    (hst : (s.men.chan c).state = .stopping ∨ (s.men.chan c).state = .stopped) :
    (s.men.chan c).Unqueued (m.chan c) := by
  by_cases hf : ∀ c' ts len tag, k ≠ .irqFrame c' ts len tag
  · rcases call_quiet hk hf hcall with ⟨c', hl⟩ | hl
    · by_cases hc : c = c'
      · subst hc
        exact listCall_unqueued hi hr hG hst hl
      · rw [hl.frame.other c hc]
        exact .of_log rfl
    · obtain ⟨_, _, _, he⟩ := hl c
      exact .of_log (by rw [he])
  · push Not at hf
    obtain ⟨c', ts, len, tag, rfl⟩ := hf
    have h₁ := call_irqFrame hcall
    by_cases hc : c = c'
    · subst hc
      exact irqFrame_unqueued h₁
    · rw [(irqFrame_frame h₁).other c hc]
      exact .of_log rfl

theorem scan_unqueued {newFrames : Nat} (hi : StopsDone s)
    (hcall : call s.men (.irqScan c newFrames) = .ok (m, o))
    (hG : ¬ FeedsStopped s (.run (.irqScan c newFrames)))
    (hst : (s.men.chan c).state = .stopping ∨ (s.men.chan c).state = .stopped) :
    (s.men.chan c).Unqueued (m.chan c) := by
  obtain ⟨⟨m₁, finish⟩, h₁, h⟩ := bind_ok.mp hcall
  cases h
  refine irqScan_unqueued (fun hq => ?_) h₁
  rcases hst with hst | hst
  · exact not_queuesBuffer_of_done (hi.stopping c hst) hq.2
  · exact hG ⟨hst, hq⟩

theorem call_fedRunning {k : Call} (hi : StopsDone s) (hr : s.ready k = true)
    (hcall : call s.men k = .ok (m, o)) (hG : ¬ FeedsStopped s (.run k))
    (hf : (s.men.chan c).FedRunning) : (m.chan c).FedRunning := by
  have hs := call_chan hcall c
  have stop : ∀ e : HwEvent, (e = .stopdma ∨ e = .abortdma) → ((s.men.chan c).record e).FedRunning := by
    rintro e (rfl | rfl) st b hb
    · exact hf st b (by simpa [Dmachan.record] using hb)
    · exact hf st b (by simpa [Dmachan.record] using hb)
  generalize hch : s.men.chan c = ch at hs hf stop
  generalize hch' : m.chan c = ch' at hs ⊢
  cases hs with
  | still hk hq =>
    refine fedRunning_of_log hq.log hf fun hst => ?_
    rw [← hch] at hst
    exact hch ▸ hch' ▸ (quiet_unqueued hi hr hcall hG hk hst).unfed
  | frame hq =>
    refine fedRunning_of_log hq.log hf fun _ => ?_
    exact hch ▸ hch' ▸ (irqFrame_unqueued (call_irqFrame hcall)).unfed
  | startDone _ _ h => exact h.log.fedRunning hf
  | startFailed _ _ h => exact h.log.fedRunning hf
  | resumeHalted | workHalted => exact stop .stopdma (.inl rfl)
  | timedOut => exact stop .abortdma (.inr rfl)
  | stopped h | closed h => cases h <;> exact hf
  | irqScanned _ h =>
    refine fedRunning_of_log h.quiet.log hf fun hst => ?_
    have hu := (scan_unqueued hi hcall hG (c := c) (by rw [hch]; exact hst)).unfed
    rw [hch, hch'] at hu
    exact hu
  | _ => exact hf

theorem step_queuesRunning {e : Event} (hG : ¬ FeedsStopped s e) (hP : StopsDone s ∧ QueuesRunning s)
    (h : step s e = .ok t) : StopsDone t ∧ QueuesRunning t := by
  refine ⟨step_stopsDone hP.1 h, fun c => ?_⟩
  cases e with
  | irqEnter c' newFrames =>
    obtain ⟨_, _, rfl⟩ := step_irqEnter h
    exact hP.2 c
  | run k =>
    obtain ⟨m, o, hcall, hr, rfl⟩ := step_run h
    exact call_fedRunning hP.1 hr hcall hG (hP.2 c)

theorem stopsDone_probe (activeFpgas : Nat) (dmacnt : List Nat) (fpga : ChanRef → Nat) (fifo : UInt32) :
    StopsDone (sysProbe activeFpgas dmacnt fpga fifo) :=
  ⟨⟨by simp [sysProbe], by simp [sysProbe]⟩, by simp [sysProbe, menProbe], by simp [sysProbe],
    by simp [sysProbe]⟩

/-- As long as no event feeds a stopped channel that has frames left, every buffer that
was ever queued was queued to a channel that was starting or started. -/
theorem queued_running (activeFpgas : Nat) (dmacnt : List Nat) (fpga : ChanRef → Nat) (fifo : UInt32)
    (es : List Event)
    (hG : Meets step (fun s e => ¬ FeedsStopped s e) (sysProbe activeFpgas dmacnt fpga fifo) es) :
    Always step QueuesRunning (sysProbe activeFpgas dmacnt fpga fifo) es :=
  (always_of_meets (fun _ _ _ => step_queuesRunning)
    ⟨stopsDone_probe activeFpgas dmacnt fpga fifo, fun _ _ _ hb => by cases hb⟩ hG).mono fun _ h => h.2

section Example

def fiveFrames : FgCtrl :=
  { mode := 0x20, timeout := 1, transferTodo := 5, chan := 0, head := 0, startBuf := 0, dmaDir := 0 }

/-- Two buffers are queued, and the first of five frames comes in. -/
def oneOfFive : List Event :=
  [.run (.createHead 2 (some 7)),
    .run (.addBuffer { start := 0, length := 4096, subnr := 0, headnr := 0 } (some 3)),
    .run (.addBuffer { start := 0, length := 4096, subnr := 1, headnr := 0 } (some 4)),
    .run (.start fiveFrames 0), .run (.startTail ⟨fiveFrames, 7, 0⟩ .running 1), .irqEnter 0 1,
    .run (.irqFrame 0 0 4096 0)]

theorem queued_running_oneOfFive :
    Always step QueuesRunning (sysProbe 1 [1] (fun _ => 0) 8) oneOfFive := by
  apply queued_running 1 [1] (fun _ => 0) 8 oneOfFive
  apply Meets.mono (G := fun _ e => ∀ s, ¬ FeedsStopped s e) (fun s e h => h s)
  exact meets_of_forall_mem (by simp [oneOfFive, FeedsStopped])

/-- The timer aborts the engine, and the application gives its buffer back. -/
def unlockAfterTimeout : List Event :=
  oneOfFive ++ [.run (.irqScan 0 1), .run (.irqRearm 0), .run (.timerExpire 0), .run (.timerRun 0),
    .run (.cleanScan 0), .run (.unlock 0 (-1))]

theorem queued_stopped : ∃ t, run step (sysProbe 1 [1] (fun _ => 0) 8) unlockAfterTimeout = .ok t ∧
    ¬ QueuesRunning t := by
  obtain ⟨t, ht, hp⟩ := exists_of_check step (sysProbe 1 [1] (fun _ => 0) 8)
    (unlockAfterTimeout) (fun t => decide (.queued .stopped (.sb 3) ∈ (t.men.chan 0).log))
    (by decide +kernel)
  refine ⟨t, ht, fun h => ?_⟩
  rcases h 0 .stopped (.sb 3) (of_decide_eq_true hp) with h | h <;> cases h

end Example

end MenableDriver
